import JiaMiaoDB.Storage.StoredRuns

/-!
# Row ids

An insert takes the row id after the counter of its table. The counter is at least every row id in the
table unless a row comes in past it: by an undo record that is older than the table, or by a replayed
update, which unlike a replayed insert does not raise the counter.
-/

set_option autoImplicit false

namespace JiaMiaoDB
open StorageEngine BinaryRowCodec

/-- The row id is not past the counter. -/
def RowIdCounted (c : TableContext) (t : Tuple) : Prop := t.hdr.rowId.toInt64 ≤ c.counter

theorem admits_rowIdCounted {c : TableContext} {id : Int64} (h : id ≤ c.counter) (row : Row) :
    Admits RowIdCounted c id row := by
  intro q t ht
  unfold RowIdCounted
  rw [rowId_of_rowToTuple ht]
  exact h

theorem tupleInvariant_rowIdCounted : TupleInvariant RowIdCounted where
  mono hle h := Int64.le_trans h hle.counter
  restamp h _ _ := admits_rowIdCounted h _

/-! ### Inserts -/

namespace StorageEngine
variable {e : StorageEngine} {table : Str} {row : Row}

/-- The row that an insert stores has the id after the counter. -/
def TakesNext (e : StorageEngine) (table : Str) (row : Row) : Prop :=
  e.rowIds.getD (e.resolveTableName table) 0 ≠ Int64.maxValue ∧
    row[str "_rowid"]? = some (.int (e.rowIds.getD (e.resolveTableName table) 0 + 1))

theorem wp_nextRowId_id (q : Str) : (nextRowId q).wp
    (fun id _ => e.rowIds.getD q 0 ≠ Int64.maxValue ∧ id = e.rowIds.getD q 0 + 1)
    (fun _ _ => True) e := by
  rw [nextRowId, Prog.wp_bind, Prog.wp_get]
  dsimp only
  split
  · trivial
  · exact ⟨‹_›, rfl⟩

theorem wp_insertBody_id (table : Str) (row : Row) : (insertBody table row).wp
    (fun row' _ => TakesNext e table row') (fun _ _ => True) e := by
  rw [insertBody, Prog.wp_bind, Prog.wp_get]
  dsimp only
  split
  · trivial
  rw [Prog.wp_bind, Prog.wp_ofExcept]
  refine ⟨fun validated _ => ?_, fun _ _ => trivial⟩
  rw [Prog.wp_bind]
  refine Prog.wp_mono (wp_nextRowId_id _) (fun id e' h => ?_) fun _ _ h => h
  obtain ⟨hmax, rfl⟩ := h
  rw [Prog.wp_bind, Prog.wp_ofExcept]
  refine ⟨fun _ _ => ?_, fun _ _ => trivial⟩
  rw [Prog.wp_bind]
  refine Prog.wp_mono (Prog.wp_true _) (fun _ _ _ => ⟨hmax, ?_⟩) fun _ _ h => h
  simp only [Std.ExtTreeMap.getElem?_insert, Std.LawfulEqCmp.compare_eq_iff_eq]
  rw [if_neg (by decide), if_neg (by decide), if_pos trivial]

theorem wp_insertWithTxnBody_id (table : Str) (row : Row) : (insertWithTxnBody table row).wp
    (fun row' _ => TakesNext e table row') (fun _ _ => True) e := by
  rw [insertWithTxnBody, Prog.wp_bind, Prog.wp_get]
  dsimp only
  split
  · trivial
  rw [Prog.wp_bind, Prog.wp_ofExcept]
  refine ⟨fun validated _ => ?_, fun _ _ => trivial⟩
  rw [Prog.wp_bind]
  refine Prog.wp_mono (wp_nextRowId_id _) (fun id e' h => ?_) fun _ _ h => h
  obtain ⟨hmax, rfl⟩ := h
  rw [Prog.wp_bind]
  refine Prog.wp_mono (Prog.wp_true _) (fun xid e₁ _ => ?_) fun _ _ h => h
  rw [Prog.wp_bind, Prog.wp_get, Prog.wp_bind, Prog.wp_ofExcept]
  refine ⟨fun m _ => ?_, fun _ _ => trivial⟩
  rw [Prog.wp_bind]
  refine Prog.wp_mono (Prog.wp_true _) (fun _ _ _ => ?_) fun _ _ h => h
  rw [Prog.wp_bind]
  refine Prog.wp_mono (Prog.wp_true _) (fun _ _ _ => ?_) fun _ _ h => h
  rw [Prog.wp_bind]
  refine Prog.wp_mono (Prog.wp_true _) (fun _ _ _ => ⟨hmax, ?_⟩) fun _ _ h => h
  simp only [stamp, Std.ExtTreeMap.getElem?_insert, Std.LawfulEqCmp.compare_eq_iff_eq]
  rw [if_neg (by decide), if_neg (by decide), if_neg (by decide), if_pos trivial]

theorem wp_thenCheckpoint {α : Type} {p : EngineM α} {Q : α → Prop}
    (h : p.wp (fun a _ => Q a) (fun _ _ => True) e) :
    (thenCheckpoint p).wp (fun a _ => Q a) (fun _ _ => True) e := by
  rw [thenCheckpoint, Prog.wp_bind]
  refine Prog.wp_mono h (fun a _ ha => ?_) fun _ _ h => h
  rw [Prog.wp_bind]
  exact Prog.wp_mono (Prog.wp_true _) (fun _ _ _ => ha) fun _ _ h => h

/-- No stored row id is past the counter of its table, so that no insert takes one again. -/
structure FreshRowIds (e : StorageEngine) : Prop where
  counted : ∀ (q : Str) (m : MemTable), e.data[q]? = some m → ∀ t ∈ m.scanAll,
    t.hdr.rowId.toInt64 ≤ e.rowIds.getD q 0
  inserted : ∀ table row row' e',
    (insert table row).run e = (.ok row', e') ∨ (insertWithTxn table row).run e = (.ok row', e') →
    ∀ m, e.data[e.resolveTableName table]? = some m → ∀ t ∈ m.scanAll,
      row'[str "_rowid"]? ≠ some (.int t.hdr.rowId.toInt64)

theorem Stored.freshRowIds (h : Stored RowIdCounted e) : FreshRowIds e where
  counted q m hm := (h.tables q m hm).good
  inserted table row row' e' hrun m hm t ht hid := by
    have hnext : TakesNext e table row' := by
      rcases hrun with hrun | hrun
      · exact Prog.wp_ok (Q := fun row _ => TakesNext e table row)
          (wp_thenCheckpoint (wp_insertBody_id table row)) hrun
      · exact Prog.wp_ok (Q := fun row _ => TakesNext e table row)
          (wp_thenCheckpoint (wp_insertWithTxnBody_id table row)) hrun
    have hle : t.hdr.rowId.toInt64 ≤ e.rowIds.getD (e.resolveTableName table) 0 :=
      (h.tables _ m hm).good t ht
    obtain ⟨hmax, hnext⟩ := hnext
    have heq := Value.int.inj (Option.some.inj (hid.symm.trans hnext))
    rw [heq] at hle
    exact Int64.not_lt.mpr hle (FixedWidth.lt_succ hmax)

end StorageEngine

/-! ### Runs -/

/-- An update record that would be applied is for a row id that the table has handed out. -/
def UpdateCounted (e : StorageEngine) (r : WALRecordV3) : Prop :=
  e.replayed r.xid = true → e.data.contains r.table = true → WalOp.ofTag r.op = .update →
    ∀ p ∈ walDecodeUpdate r.data, p.rowid ≤ e.rowIds.getD r.table 0

instance (e : StorageEngine) (r : WALRecordV3) : Decidable (UpdateCounted e r) := by
  unfold UpdateCounted
  infer_instance

/-- No table is created under a name that undo records would still put rows into, and a client has no
way to add undo records. -/
def Call.RowIdSafe (e : StorageEngine) : Call → Prop
  | .createTable name _ => CreateOk name e
  | .txn p => ∃ c : ManagerCall, c.client = true ∧ p = c.run
  | _ => True

def Session.RowIdSafe (s : Session) : Action → Prop
  | .call c => c.RowIdSafe s.engine ∧ (c.checksCheckpoint → ∀ e,
      c.body.run s.engine = (.ok (), e) → e.checkpointDue → Savable e)
  | .save => Savable s.engine
  | .close => Savable s.engine
  | .restart k n _ _ => ReplayMeets UpdateCounted (s.engine.dir.crash k n)

theorem replayOk_of_updateCounted {e : StorageEngine} {r : WALRecordV3} (h : UpdateCounted e r) :
    ReplayOk RowIdCounted e r := by
  intro hreplayed hdata
  cases hop : WalOp.ofTag r.op with
  | insert =>
    intro p _
    have hle := FixedWidth.le_max_right (e.rowIds.getD r.table 0) p.rowid
    refine admits_rowIdCounted ?_ p.row
    dsimp only
    exact hle
  | update =>
    intro p hp
    have hle := h hreplayed hdata hop p hp
    exact admits_rowIdCounted hle p.newRow
  | _ => trivial

theorem meets_of_rowIdSafe {s : Session} {a : Action} (h : s.RowIdSafe a) :
    s.Meets RowIdCounted a := by
  cases a with
  | call c =>
    refine ⟨?_, h.2⟩
    have hinsert (table : Str) (row : Row) : InsertOk RowIdCounted table row s.engine :=
      fun _ _ row' _ _ _ => admits_rowIdCounted (Int64.le_refl _) row'
    have hupdate (updates : Updates) (c : TableContext) : UpdateOk RowIdCounted updates c :=
      fun _ _ row' ht _ _ => admits_rowIdCounted ht row'
    cases c with
    | insert table row => exact hinsert _ _
    | insertWithTxn table row => exact hinsert _ _
    | update table matches_ updates => exact hupdate _ _
    | updateWithTxn table matches_ updates => exact hupdate _ _
    | createTable name columns => exact h.1
    | txn p => exact h.1
    | _ => trivial
  | save => exact h
  | close => exact h
  | restart k n checkpointInterval clock => exact h.mono fun _ _ => replayOk_of_updateCounted

/-- After every run of such actions, crashes and loads among them, row ids are fresh. -/
theorem freshRowIds_of_rowIdSafe {s : Session} (h : Session.Reached Session.RowIdSafe s) :
    FreshRowIds s.engine :=
  (storedInvariant_of_reached tupleInvariant_rowIdCounted
    (h.mono fun _ _ => meets_of_rowIdSafe)).engine.freshRowIds

/-- A committed row, a checkpoint, another row, and a load that replays it. -/
theorem freshRowIds_recovered : ∃ e, load.run (create (continuedEngine.dir.crash 7 0) 0 0) = (.ok (), e) ∧
    (e.scan (str "t")).toOption.map List.length = some 2 ∧ FreshRowIds e := by
  have hreached : Session.Reached Session.RowIdSafe ⟨continuedEngine, [], false⟩ :=
    reached_continuedEngine (C := fun e c => c.RowIdSafe e) (fun _ _ hc hs => ⟨hc, hs⟩)
      (fun _ _ hr => nomatch hr) trivial (fun _ => ⟨.commitTransaction, rfl, rfl⟩) (fun _ => trivial)
      (fun _ hs => hs) trivial fun _ => trivial
  have hrestart : ReplayMeets UpdateCounted (continuedEngine.dir.crash 7 0) := by
    rw [ReplayMeets, crash_continuedEngine, recordsAbove_continuedEngine]
    decide +kernel
  obtain ⟨wal, hload⟩ := load_continuedEngine
  have hscan : (recoveredEngine.scan (str "t")).toOption.map List.length = some 2 := by decide +kernel
  exact ⟨_, hload, hscan, freshRowIds_of_rowIdSafe
    (.step (a := .restart 7 0 0 0) hreached hrestart (Session.next_restart hload))⟩

/-! ### A table that is dropped and created again -/

def keyedColumns : List ColumnDef := [⟨str "a", .integer, true, false, none⟩]

/-- A row is updated in a transaction that then drops the table, creates it anew and rolls back. -/
def recreation : List Call :=
  [.createTable (str "t") keyedColumns, .insertWithTxn (str "t") oneRow,
    .txn ManagerCall.commitTransaction.run, .updateWithTxn (str "t") (fun _ => true) oneRow,
    .dropTable (str "t"), .createTable (str "t") keyedColumns, .applyUndo]

def recreatedEngine : StorageEngine :=
  recreation.foldl (fun e c => (c.exec.run e).2) (create Disk.empty 0 0)

/-- The old row comes back, and the counter of the new table is zero. -/
theorem rowId_past_counter :
    ∃ s, Session.Reached (fun _ _ => True) s ∧ ¬ FreshRowIds s.engine := by
  refine ⟨_, Session.reached_calls (.start 0 0) recreation, fun h => ?_⟩
  have hpast : (recreatedEngine.data[str "defaultdb.public.t"]?).any (fun m => m.scanAll.any fun t =>
      recreatedEngine.rowIds.getD (str "defaultdb.public.t") 0 < t.hdr.rowId.toInt64) = true := by
    decide +kernel
  cases hm : recreatedEngine.data[str "defaultdb.public.t"]? with
  | none =>
    rw [hm] at hpast
    cases hpast
  | some m =>
    rw [hm, Option.any_some, List.any_eq_true] at hpast
    obtain ⟨t, ht, hlt⟩ := hpast
    exact Int64.not_lt.mpr (h.counted _ m hm t ht) (of_decide_eq_true hlt)

end JiaMiaoDB
