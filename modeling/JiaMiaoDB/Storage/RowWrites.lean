import JiaMiaoDB.Storage.DeleteEffect
import JiaMiaoDB.Storage.ConflictEdges
import JiaMiaoDB.Storage.InsertedRows

/-!
# What UPDATE and DELETE write

Both go through the versions of a table and put a new version of each row they work on in the place of its
older ones, beside an undo record with the row as it was. This is so in every state of the engine, whatever
versions the table has.
-/

set_option autoImplicit false

namespace JiaMiaoDB
open StorageEngine BinaryRowCodec

/-! ### Rows that are written -/

/-- What a statement does with a row: its undo record and the new version. -/
structure RowWrite where
  op : UndoOp
  undoRow : Row → Row
  newRow : Row → Row

/-- The last of the rows with the id. -/
def lastRow (rows : RowSet) (id : Int64) : Option Row := lastWith rowIdOf rows id

theorem lastRow_concat (rows : RowSet) (row : Row) (id : Int64) :
    lastRow (rows ++ [row]) id = if rowIdOf row = id then some row else lastRow rows id :=
  lastWith_concat _ rows row id

namespace RowWrite

/-- An UPDATE stamps the row with its new values. -/
def update (r : Reader) (updates : Updates) : RowWrite where
  op := .update
  undoRow row := stamp (applyUpdates row updates) r.xid 0 r.cid
  newRow row := stamp (applyUpdates row updates) r.xid 0 r.cid

/-- A DELETE marks the row with its own id. -/
def delete (r : Reader) : RowWrite where
  op := .delete
  undoRow _ := ∅
  newRow row := (row.insert (str "_xmax") (.int r.xid.toUInt64.toInt64)).insert
    (str "_cid") (.int r.cid.toInt64)

def record (w : RowWrite) (q : Str) (row : Row) : UndoRecord :=
  ⟨w.op, q, rowIdOf row, row, w.undoRow row⟩

/-- A row that was written has its new version and no other; the versions of the others are as before. -/
structure Written (w : RowWrite) (q : Str) (rows : RowSet) (m m' : MemTable) : Prop where
  written : ∀ id row, lastRow rows id = some row → ∃ t,
    rowToTuple (w.newRow row) (headerFromRow q id (w.newRow row)) = .ok t ∧
      m'.getVersions id = [MemTable.normalize t]
  others : ∀ id, lastRow rows id = none → m'.getVersions id = m.getVersions id

/-- These rows of the table have been written, in this order, and nothing else. -/
structure Wrote (w : RowWrite) (q : Str) (rows : RowSet) (e e' : StorageEngine) : Prop where
  undo : e'.txnMgr.context.undoRecords = e.txnMgr.context.undoRecords ++ rows.map (w.record q)
  table : ∃ m m', e.data[q]? = some m ∧ e'.data[q]? = some m' ∧ w.Written q rows m m'
  others : ∀ q', q' ≠ q → e'.data[q']? = e.data[q']?

variable {w : RowWrite} {q : Str} {rows rows' : RowSet} {row : Row} {e e' e₁ : StorageEngine}
  {m m' : MemTable}

theorem Written.concat (h : w.Written q rows m m') {t : Tuple}
    (ht : rowToTuple (w.newRow row) (headerFromRow q (rowIdOf row) (w.newRow row)) = .ok t) (seq : UInt64) :
    w.Written q (rows ++ [row]) m ((m'.eraseAllFor (rowIdOf row)).put (rowIdOf row) t seq) := by
  constructor
  · intro id row' hlast
    rw [lastRow_concat] at hlast
    rw [MemTable.getVersions_replaced]
    split at hlast
    · next hid =>
      subst hid
      cases hlast
      exact ⟨t, ht, if_pos rfl⟩
    · next hne =>
      rw [if_neg (Ne.symm hne)]
      exact h.written id row' hlast
  · intro id hlast
    rw [lastRow_concat] at hlast
    split at hlast
    · cases hlast
    · next hne =>
      rw [MemTable.getVersions_replaced, if_neg (Ne.symm hne)]
      exact h.others id hlast

/-- What was written says which rows it was. -/
theorem Wrote.rows_eq (h : w.Wrote q rows e e') (h' : w.Wrote q rows' e e') : rows = rows' := by
  have hrecords := List.append_cancel_left (h.undo.symm.trans h'.undo)
  exact List.map_injective_iff.mpr (fun _ _ hrow => congrArg UndoRecord.oldRow hrow) hrecords

/-! ### One row -/

/-- The rows so far have been written, and the commit log is as at the start. -/
structure Writing (w : RowWrite) (q : Str) (rows : RowSet) (e e' : StorageEngine) : Prop
    extends Wrote w q rows e e' where
  clog : e'.txnMgr.clog = e.txnMgr.clog

theorem Writing.start (hm : e.data[q]? = some m) : Writing w q [] e e where
  undo := (List.append_nil _).symm
  table := ⟨m, m, hm, hm, ⟨fun _ _ hlast => (by cases hlast), fun _ _ => rfl⟩⟩
  others _ _ := rfl
  clog := rfl

/-- What the manager does beside the undo log. -/
theorem Writing.setTxnMgr (h : Writing w q rows e e₁) {mgr : TransactionManager}
    (hclog : mgr.clog = e₁.txnMgr.clog) (hundo : mgr.context.undoRecords = e₁.txnMgr.context.undoRecords) :
    Writing w q rows e (e₁.setTxnMgr mgr) where
  undo := hundo.trans h.undo
  table := h.table
  others := h.others
  clog := hclog.trans h.clog

theorem Writing.same (h : Writing w q rows e e₁) (hdata : e'.data = e₁.data) (hmgr : e'.txnMgr = e₁.txnMgr) :
    Writing w q rows e e' := by
  constructor
  · constructor
    · rw [hmgr]
      exact h.undo
    · rw [hdata]
      exact h.table
    · rw [hdata]
      exact h.others
  · rw [hmgr]
    exact h.clog

/-- The record, and the version in the place of the older ones. -/
theorem Writing.concat (h : Writing w q rows e e₁) {t : Tuple}
    (ht : rowToTuple (w.newRow row) (headerFromRow q (rowIdOf row) (w.newRow row)) = .ok t) {seq : UInt64}
    (hmem : e₁.data[q]? = some m) (hmgr : e'.txnMgr = e₁.txnMgr.addUndoRecord (w.record q row))
    (hdata : e'.data = (e₁.data.insert q (m.eraseAllFor (rowIdOf row))).insert q
      ((m.eraseAllFor (rowIdOf row)).put (rowIdOf row) t seq)) : Writing w q (rows ++ [row]) e e' := by
  obtain ⟨m₀, m₁, hm₀, hm₁, hwritten⟩ := h.table
  obtain rfl := Option.some.inj (hmem.symm.trans hm₁)
  constructor
  · constructor
    · rw [hmgr, List.map_append, ← List.append_assoc, ← h.undo]
      rfl
    · refine ⟨m₀, _, hm₀, ?_, hwritten.concat ht seq⟩
      rw [hdata]
      exact Std.ExtTreeMap.getElem?_insert_self
    · intro q' hne
      have hq : ¬ compare q q' = .eq := by simpa using Ne.symm hne
      rw [hdata, Std.ExtTreeMap.getElem?_insert, if_neg hq, Std.ExtTreeMap.getElem?_insert, if_neg hq]
      exact h.others q' hne
  · rw [hmgr]
    exact h.clog

theorem Writing.wp_registerWrite (h : Writing w q rows e e₁) (key : RowKey) :
    (inTxn (Prog.modify (·.registerWrite key))).wp (fun _ => Writing w q rows e) (fun _ _ => True) e₁ := by
  obtain ⟨-, -, hclog, hcontext, -⟩ := e₁.txnMgr.frame_registerWrite key
  rw [inTxn, Prog.wp_zoom, Prog.wp_modify]
  exact h.setTxnMgr hclog (congrArg TransactionContext.undoRecords hcontext)

theorem wp_removeRow {r : Reader} {t : Tuple} (h : Writing (delete r) q rows e e₁)
    (hrow : toRow t = .ok row) :
    (removeRowWithTxn q r row).wp (fun _ => Writing (delete r) q (rows ++ [row]) e) (fun _ _ => True) e₁ := by
  have hid : getRowId row = .ok (rowIdOf row) := by
    rw [getRowId_of_toRow hrow, rowIdOf_of_toRow hrow]
  rw [removeRowWithTxn, hid, Prog.wp_bind, Prog.wp_ofExcept_ok, Prog.wp_bind]
  refine Prog.wp_mono (h.wp_registerWrite _) (fun _ e₂ h₂ => ?_) fun _ _ _ => trivial
  obtain ⟨-, m, -, hm, -⟩ := h₂.table
  dsimp only
  rw [Prog.wp_bind, inTxn, Prog.wp_zoom, Prog.wp_modify, Prog.wp_bind]
  refine wp_eraseVersions (m := m) (by exact hm) ?_
  rw [Prog.wp_bind]
  refine wp_putVersion (m := m.eraseAllFor (rowIdOf row)) (by simp) (fun _ => trivial)
    fun t' ht' _ => wp_writeWal (fun _ => trivial) fun dir wal _ => ?_
  exact h₂.concat ht' hm rfl rfl

theorem wp_updateRow {r : Reader} {updates : Updates} {t : Tuple} (h : Writing (update r updates) q rows e e₁)
    (hrow : toRow t = .ok row) (all : List Tuple) :
    (updateRowWithTxn q updates r all row).wp (fun _ => Writing (update r updates) q (rows ++ [row]) e)
      (fun _ _ => True) e₁ := by
  have hid : getRowId row = .ok (rowIdOf row) := by
    rw [getRowId_of_toRow hrow, rowIdOf_of_toRow hrow]
  rw [updateRowWithTxn, hid, Prog.wp_bind, Prog.wp_ofExcept_ok, Prog.wp_bind]
  refine Prog.wp_mono (h.wp_registerWrite _) (fun _ e₂ h₂ => ?_) fun _ _ _ => trivial
  obtain ⟨-, m, -, hm, -⟩ := h₂.table
  dsimp only
  rw [Prog.wp_bind, Prog.wp_get, Prog.wp_bind, inTxn, Prog.wp_zoom]
  -- The key check only reads.
  have hcheck := ManagerInvariant.keeps_checkUniqueUpdate (J := (· = e₂.txnMgr))
    ((e₂.tables[q]?).elim [] (·.columns)) updates (rowIdOf row) r all e₂.txnMgr rfl
  refine Prog.wp_mono hcheck (fun _ mgr hmgr => ?_) fun _ _ _ => trivial
  subst hmgr
  rw [Prog.wp_bind, inTxn, Prog.wp_zoom, Prog.wp_modify, Prog.wp_bind]
  refine wp_writeWal (fun _ => trivial) fun dir wal _ => ?_
  rw [Prog.wp_bind]
  refine wp_eraseVersions (m := m) (by exact hm) ?_
  refine wp_putVersion (m := m.eraseAllFor (rowIdOf row)) (by simp) (fun _ => trivial) fun t' ht' _ => ?_
  exact h₂.concat ht' hm rfl rfl

theorem Writing.wp_rebuildIf (h : Writing w q rows e e₁) (affected : Bool) (table : Str) :
    (rebuildIf affected table).wp (fun _ => Writing w q rows e) (fun _ _ => True) e₁ := by
  rw [rebuildIf, Prog.wp_ite]
  split
  · rw [rebuildIndexes, Prog.wp_bind, Prog.wp_get]
    split
    · rw [Prog.wp_bind, Prog.wp_set, Prog.wp_ofExcept]
      exact ⟨fun _ _ => h.same rfl rfl, fun _ _ => trivial⟩
    · exact h
  · exact h

theorem Writing.wp_maybeCheckpoint (h : Writing w q rows e e₁) :
    maybeCheckpoint.wp (fun _ => Writing w q rows e) (fun _ _ => True) e₁ := by
  rw [maybeCheckpoint, Prog.wp_bind, Prog.wp_get, Prog.wp_ite]
  split
  · rw [checkpoint, Prog.wp_bind, Prog.wp_get, Prog.wp_bind, Prog.wp_ofExcept]
    exact ⟨fun _ _ => h.same rfl rfl, fun _ _ => trivial⟩
  · exact h

/-! ### The loop -/

/-- The versions `done` have been read, and those selected have been written. -/
def Through (w : RowWrite) (q : Str) (selects : Row → Bool) (e : StorageEngine) (done : List Tuple) (n : Nat)
    (e' : StorageEngine) : Prop :=
  ∃ rows, done.mapM toRow = .ok rows ∧ Writing w q (rows.filter selects) e e' ∧
    n = (rows.filter selects).length

theorem wp_onVisible {r : Reader} {matches_ : Row → Bool} {body : Row → EngineM Unit} {t : Tuple}
    {done : List Tuple} {n : Nat}
    (hbody : ∀ rows row e₁, toRow t = .ok row → Writing w q rows e e₁ →
      (body row).wp (fun _ => Writing w q (rows ++ [row]) e) (fun _ _ => True) e₁)
    (h : w.Through q (fun row => r.sees e.txnMgr.clog row && matches_ row) e done n e₁) :
    (onVisible r matches_ body t).wp (fun k => w.Through q
      (fun row => r.sees e.txnMgr.clog row && matches_ row) e (done ++ [t]) (n + k))
      (fun _ _ => True) e₁ := by
  obtain ⟨rows, hrows, hwriting, hn⟩ := h
  rw [onVisible, Prog.wp_bind, Prog.wp_ofExcept]
  refine ⟨fun row hrow => ?_, fun _ _ => trivial⟩
  have hread : (done ++ [t]).mapM toRow = .ok (rows ++ [row]) := by
    rw [List.mapM_append, hrows, List.mapM_cons, hrow, List.mapM_nil]
    rfl
  rw [Prog.wp_bind, Prog.wp_get, hwriting.clog, Prog.wp_ite]
  split
  · next hsel =>
    rw [Prog.wp_bind]
    refine Prog.wp_mono (hbody _ row e₁ hrow hwriting) (fun _ e₂ h₂ => ?_) fun _ _ _ => trivial
    refine ⟨rows ++ [row], hread, ?_, ?_⟩
    · rw [List.filter_append, List.filter_singleton, hsel]
      exact h₂
    · rw [List.filter_append, List.filter_singleton, hsel, List.length_append, ← hn]
      rfl
  · next hsel =>
    have hnone : (rows ++ [row]).filter (fun row => r.sees e.txnMgr.clog row && matches_ row) =
        rows.filter fun row => r.sees e.txnMgr.clog row && matches_ row := by
      rw [List.filter_append, List.filter_singleton, (Bool.not_eq_true _).mp hsel]
      exact List.append_nil _
    refine ⟨rows ++ [row], hread, ?_, ?_⟩
    · rw [hnone]
      exact hwriting
    · rw [hnone]
      exact hn

theorem wp_loop {r : Reader} {body : Row → EngineM Unit} (matches_ : Row → Bool)
    (hbody : ∀ t rows row e₁, toRow t = .ok row → Writing w q rows e e₁ →
      (body row).wp (fun _ => Writing w q (rows ++ [row]) e) (fun _ _ => True) e₁)
    (hm : e.data[q]? = some m) : (Prog.sumEach (onVisible r matches_ body) m.scanAll).wp
      (fun n => w.Through q (fun row => r.sees e.txnMgr.clog row && matches_ row) e m.scanAll n)
      (fun _ _ => True) e :=
  Prog.wp_sumEach (fun done n => w.Through q
    (fun row => r.sees e.txnMgr.clog row && matches_ row) e done n)
    (fun _ t _ _ _ _ h => wp_onVisible (hbody t) h) ⟨[], rfl, Writing.start hm, rfl⟩

end RowWrite

end JiaMiaoDB
