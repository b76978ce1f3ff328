import JiaMiaoDB.Storage.DdlReplay
import JiaMiaoDB.Storage.Rebuild
import JiaMiaoDB.Storage.SnapshotStability

/-!
# What a new transaction sees

The catalog, the tables and the rows that a transaction finds when it starts. A checkpoint that is
saved and restored shows the same: what was in progress is aborted, and neither is visible.
-/

set_option autoImplicit false

namespace JiaMiaoDB
open BinaryRowCodec

/-! ### Rows for a reader without an id -/

theorem not_own_invalid (x : TransactionId) : ¬ Own InvalidTransactionId x := fun h => h.2 rfl

/-- What the commit log alone says about a row. -/
def CLog.shows (c : CLog) (row : Row) : Bool :=
  checkTupleVisibility row InvalidTransactionId Snapshot.empty 0 c

/-- The row is visible to a transaction that starts now. -/
def TransactionManager.sees (m : TransactionManager) (row : Row) : Bool :=
  checkTupleVisibility row InvalidTransactionId m.getSnapshot 0 m.clog

/-- The same transactions have committed, and those in progress may have been aborted. -/
def CLog.SameOutcomes (c c' : CLog) : Prop :=
  ∀ xid, c'.getStatus xid = c.getStatus xid ∨
    c.getStatus xid = .inProgress ∧ c'.getStatus xid = .aborted

theorem CLog.SameOutcomes.survives {c c' : CLog} (h : SameOutcomes c c')
    (xid xmax : TransactionId) : survives xid xmax c' = survives xid xmax c := by
  unfold JiaMiaoDB.survives
  rcases h xmax with h | ⟨h, h'⟩
  · rw [h]
  · rw [h, h']
    rfl

theorem CLog.SameOutcomes.inserted {c c' : CLog} (h : SameOutcomes c c') (snap : Snapshot)
    (xmin : TransactionId) : inserted snap xmin c' = inserted snap xmin c := by
  unfold JiaMiaoDB.inserted
  rcases h xmin with h | ⟨h, h'⟩
  · rw [h]
  · simp [h, h']

theorem CLog.SameOutcomes.shows {c c' : CLog} (h : SameOutcomes c c') (row : Row) :
    c'.shows row = c.shows row := by
  unfold CLog.shows
  by_cases h0 : xidField row (str "_xmin") = InvalidTransactionId
  · rw [visible_of_no_xmin c' h0, visible_of_no_xmin c h0]
  by_cases hf : xidField row (str "_xmin") = FrozenTransactionId
  · rw [visible_frozen c' hf, visible_frozen c hf, h.survives]
  · rw [visible_other c' h0 hf (not_own_invalid _), visible_other c h0 hf (not_own_invalid _),
      h.survives, h.inserted]

/-- When no active transaction counts as finished, the list of a snapshot hides nothing more. -/
theorem TransactionManager.sees_eq_shows {m : TransactionManager}
    (h : ∀ x ∈ m.activeXids, m.clog.getStatus x = .inProgress) (row : Row) :
    m.sees row = m.clog.shows row := by
  unfold TransactionManager.sees CLog.shows
  by_cases h0 : xidField row (str "_xmin") = InvalidTransactionId
  · rw [visible_of_no_xmin _ h0, visible_of_no_xmin _ h0]
  by_cases hf : xidField row (str "_xmin") = FrozenTransactionId
  · rw [visible_frozen _ hf, visible_frozen _ hf]
  · rw [visible_other _ h0 hf (not_own_invalid _), visible_other _ h0 hf (not_own_invalid _)]
    congr 1
    unfold inserted
    by_cases hactive : xidField row (str "_xmin") ∈ m.activeXids
    · simp [h _ hactive]
    · have hlist : xidField row (str "_xmin") ∉ m.getSnapshot.xip := by
        rwa [TransactionManager.getSnapshot, Std.ExtTreeSet.mem_toList]
      simp [hlist, Snapshot.empty]

/-! ### The commit log after a restart -/

theorem CLog.getStatus_of_mem_inProgress {c : CLog} {x : TransactionId} (h : x ∈ c.inProgressXids) :
    c.getStatus x = .inProgress := by
  simpa using (List.mem_filter.mp h).2

theorem CLog.getStatus_foldl_aborted (xids : List TransactionId) (c : CLog) (x : TransactionId) :
    (xids.foldl (fun c xid => c.setStatus xid .aborted) c).getStatus x =
      if x ∈ xids then .aborted else c.getStatus x := by
  induction xids generalizing c with
  | nil => simp
  | cons xid xids ih =>
    rw [List.foldl_cons, ih, CLog.getStatus_setStatus]
    by_cases hx : x ∈ xids
    · simp [hx]
    · by_cases he : xid = x
      · simp [he]
      · simp [hx, he, Ne.symm he]

/-! ### Engines -/

/-- The same rows in any order, or no rows that can be read. -/
def SameRows : Except Failure RowSet → Except Failure RowSet → Prop
  | .ok rows, .ok rows' => rows.Perm rows'
  | .error _, .error _ => True
  | _, _ => False

namespace SameRows

theorem refl (r : Except Failure RowSet) : SameRows r r := by
  cases r with
  | ok rows => exact List.Perm.refl rows
  | error f => trivial

theorem symm {r r' : Except Failure RowSet} (h : SameRows r r') : SameRows r' r := by
  cases r with
  | ok rows =>
    cases r' with
    | ok rows' => exact List.Perm.symm h
    | error f' => exact False.elim h
  | error f =>
    cases r' with
    | ok rows' => exact False.elim h
    | error f' => trivial

theorem trans {r r' r'' : Except Failure RowSet} (h : SameRows r r') (h' : SameRows r' r'') :
    SameRows r r'' := by
  cases r' with
  | ok rows' =>
    cases r with
    | error f => exact False.elim h
    | ok rows =>
      cases r'' with
      | error f'' => exact False.elim h'
      | ok rows'' => exact List.Perm.trans h h'
  | error f' =>
    cases r with
    | ok rows => exact False.elim h
    | error f =>
      cases r'' with
      | ok rows'' => exact False.elim h'
      | error f'' => trivial

end SameRows

namespace StorageEngine

/-- The rows of a table that a new transaction sees. -/
def visibleRows (e : StorageEngine) (q : Str) : Except Failure RowSet :=
  match e.data[q]? with
  | some m => List.filter e.txnMgr.sees <$> materializeAll m
  | none => .ok []

/-- A new transaction finds the same. -/
structure SameRecovered (e e' : StorageEngine) : Prop where
  catalog : e'.catalog = e.catalog
  tables : ∀ q : Str, (e'.tables[q]?).map TableSchema.definition =
    (e.tables[q]?).map TableSchema.definition
  rows : ∀ q, SameRows (e.visibleRows q) (e'.visibleRows q)

/-- The rows of a table that count once no transaction is in progress any more. -/
def settledRows (e : StorageEngine) (q : Str) : Except Failure RowSet :=
  match e.tables[q]?, e.data[q]? with
  | some _, some m => List.filter e.txnMgr.clog.shows <$> materializeAll m
  | _, _ => .ok []

/-- What `e` holds is what a new transaction finds in `x`. -/
structure Holds (e x : StorageEngine) : Prop where
  catalog : x.catalog = e.catalog.reopened
  tables : ∀ q : Str, (x.tables[q]?).map TableSchema.definition =
    (e.tables[q]?).map fun t => t.withoutDefaults.definition
  rows : ∀ q, SameRows (x.visibleRows q) (e.settledRows q)

theorem restoredManager_clog (nextXid : TransactionId) (clog : CLog) :
    clog.SameOutcomes (restoredManager nextXid clog).clog := by
  intro x
  have hclog : (restoredManager nextXid clog).clog =
      clog.inProgressXids.foldl (fun c xid => c.setStatus xid .aborted) clog := rfl
  rw [hclog, CLog.getStatus_foldl_aborted]
  by_cases hx : x ∈ clog.inProgressXids
  · exact .inr ⟨CLog.getStatus_of_mem_inProgress hx, if_pos hx⟩
  · exact .inl (if_neg hx)

variable {e e₀ : StorageEngine} {ckp : Checkpoint} {tuples : Str → List Tuple}

theorem holds_of_restored (hnamed : e.Named) (hckp : e.toCheckpoint = .ok ckp)
    (htuples : ∀ (q : Str) (m : MemTable) (rows : RowSet), q ∈ e.tables → e.data[q]? = some m →
      materializeAll m = .ok rows → (tuples q).mapM toRow = .ok rows)
    (hres : Restored ckp.reloaded e.catalog.reopened e.txnMgr.clog tuples e₀) : Holds e e₀ := by
  have htaken := takenFrom_toCheckpoint hckp
  have htables : ckp.reloaded.tables = e.tables.values.map TableSchema.withoutDefaults := by
    rw [← htaken.tables]
    rfl
  have hnone {q : Str} (ht : e.tables[q]? = none) : NoTable q e₀ := by
    refine hres.others q ?_
    rw [htables, names_withoutDefaults, hnamed.map_values, Std.ExtTreeMap.mem_keys,
      Std.ExtTreeMap.mem_iff_isSome_getElem?, ht]
    exact Bool.false_ne_true
  have hsome {q : Str} {t : TableSchema} (ht : e.tables[q]? = some t) :
      t.name = q ∧ RestoredTable ckp.reloaded t.withoutDefaults (tuples q) e₀ := by
    have hname := hnamed.tables q t ht
    subst hname
    refine ⟨rfl, hres.table t.withoutDefaults ?_⟩
    rw [htables]
    exact List.mem_map.2 ⟨t, hnamed.mem_values.2 ht, rfl⟩
  refine ⟨hres.catalog, fun q => ?_, fun q => ?_⟩
  · cases ht : e.tables[q]? with
    | none => rw [(hnone ht).tables]; rfl
    | some t =>
      obtain ⟨rfl, htable⟩ := hsome ht
      have hschema := htable.schema
      rw [show t.withoutDefaults.name = t.name from rfl] at hschema
      rw [hschema]
      rfl
  · cases ht : e.tables[q]? with
    | none =>
      rw [visibleRows, (hnone ht).data, settledRows, ht]
      exact SameRows.refl (.ok [])
    | some t =>
      obtain ⟨rfl, htable⟩ := hsome ht
      obtain ⟨m', hm', -, -, hperm⟩ := htable.data
      rw [show t.withoutDefaults.name = t.name from rfl] at hm'
      have hq : t.name ∈ e.tables := by
        rw [Std.ExtTreeMap.mem_iff_isSome_getElem?, ht]
        rfl
      obtain ⟨m, hm⟩ : ∃ m, e.data[t.name]? = some m :=
        ⟨_, Std.ExtTreeMap.getElem?_eq_some_getElem (hnamed.domain _ hq)⟩
      obtain ⟨rows, hread⟩ : ∃ rows, materializeAll m = .ok rows := by
        have hrows := htaken.rows _ hq
        rw [tableCheckpoint, hm] at hrows
        obtain ⟨l, hl, -⟩ := ExceptList.map_ok_iff.1 hrows
        obtain ⟨rows, hread, -⟩ := ExceptList.map_ok_iff.1 hl
        exact ⟨rows, hread⟩
      obtain ⟨rows', hread', hrows'⟩ :=
        ExceptList.mapM_perm hperm.symm (htuples _ _ rows hq hm hread)
      have hread' : materializeAll m' = .ok rows' := hread'
      have hsees : e₀.txnMgr.sees = e.txnMgr.clog.shows := by
        funext row
        rw [hres.txnMgr, TransactionManager.sees_eq_shows, (restoredManager_clog _ _).shows]
        intro x hx
        simp [restoredManager, TransactionManager.rebuildActiveFromClog,
          TransactionManager.resetContext, TransactionManager.setContext] at hx
      rw [visibleRows, hm', settledRows, ht, hm]
      simp only [hread, hread', hsees]
      exact (hrows'.filter _).symm

theorem Holds.sameRecovered_iff {x : StorageEngine} (h : Holds e e₀) :
    SameRecovered x e₀ ↔ Holds e x := by
  constructor
  · intro hx
    exact ⟨hx.catalog.symm.trans h.catalog, fun q => (hx.tables q).symm.trans (h.tables q),
      fun q => (hx.rows q).trans (h.rows q)⟩
  · intro hx
    exact ⟨h.catalog.trans hx.catalog.symm, fun q => (h.tables q).trans (hx.tables q).symm,
      fun q => (hx.rows q).trans (h.rows q).symm⟩

end StorageEngine
end JiaMiaoDB
