import JiaMiaoDB.Storage.ConflictEdges
import JiaMiaoDB.Storage.SeenVersions
import JiaMiaoDB.Storage.XidReuse

/-!
# The reads that a snapshot read puts on record

Both read paths move a visible row into the answer and then look for its id in what is left of it.
Nothing is left, so that a read records nothing and gives the rows of the read without records.
-/

set_option autoImplicit false

namespace JiaMiaoDB
open StorageEngine

namespace StorageEngine

/-- Moving a row away leaves an empty one. -/
def moveRow (row : Row) : Row × Row := (row, ∅)

/-- The read goes on record under the id that the row shows. -/
def recordRead (qualified : Str) (row : Row) : EngineM Unit :=
  match row[str "_rowid"]? with
  | some (.int id) => inTxn (ManagerCall.registerSiread ⟨qualified, id⟩).run
  | _ => pure ()

/-- The loop of both snapshot reads. -/
def readVersions (qualified : Str) (r : Reader) : List Tuple → EngineM RowSet
  | [] => pure []
  | t :: ts => do
    let row ← Prog.ofExcept (toRow t)
    let e ← Prog.get
    if r.sees e.txnMgr.clog row then do
      -- The id is looked up after the row has gone into the answer.
      recordRead qualified (moveRow row).2
      let rest ← readVersions qualified r ts
      pure ((moveRow row).1 :: rest)
    else readVersions qualified r ts

/-- The two reads under a snapshot. -/
inductive SnapshotRead where
  | scan (table : Str)
  | indexLookup (table column : Str) (value : Value)

namespace SnapshotRead

def table : SnapshotRead → Str
  | .scan table => table
  | .indexLookup table _ _ => table

/-- The versions that the read decodes, in its order. -/
def versions (e : StorageEngine) : SnapshotRead → Except Failure (List Tuple)
  | .scan table => MemTable.scanAll <$> e.tableOf table
  | .indexLookup table column value =>
    match (e.indexes.getD (e.resolveTableName table) []).find? (·.column = column) with
    | none => .ok []
    | some idx =>
      match idx.entries[valueToString value]?, e.data[e.resolveTableName table]? with
      | some ids, some m => .ok (ids.filterMap m.getLatest)
      | _, _ => .ok []

/-- `scan_with_snapshot` and `index_lookup_with_snapshot` with the records they make. -/
def exec (read : SnapshotRead) (r : Reader) : EngineM RowSet := do
  let e ← Prog.get
  let ts ← Prog.ofExcept (read.versions e)
  readVersions (e.resolveTableName read.table) r ts

/-- The rows of the read. -/
def rows (e : StorageEngine) (r : Reader) : SnapshotRead → Except Failure RowSet
  | .scan table => e.scanWithSnapshot table r.snap r.xid r.cid
  | .indexLookup table column value => e.indexLookupWithSnapshot table column value r.snap r.xid r.cid

end SnapshotRead

/-! ### What the loop does -/

/-- Nothing is found in what is left of a row. -/
theorem recordRead_moved (qualified : Str) (row : Row) :
    recordRead qualified (moveRow row).2 = pure () := by
  unfold recordRead moveRow
  rw [Std.ExtTreeMap.getElem?_empty]

theorem run_readVersions (qualified : Str) (r : Reader) (ts : List Tuple) (e : StorageEngine) :
    (readVersions qualified r ts).run e =
      ((fun rows => rows.filter (r.sees e.txnMgr.clog)) <$> ts.mapM toRow, e) := by
  induction ts with
  | nil => rfl
  | cons t ts ih =>
    rw [readVersions, List.mapM_cons]
    cases hrow : toRow t with
    | error f => rfl
    | ok row =>
      rw [Prog.bind_ok (Prog.run_ofExcept _ _), Prog.bind_ok (Prog.run_get _)]
      by_cases hsees : r.sees e.txnMgr.clog row = true
      · rw [if_pos hsees, recordRead_moved, Prog.bind_ok (Prog.run_pure _ _)]
        cases hrest : ts.mapM toRow with
        | error f =>
          rw [hrest] at ih
          rw [Prog.bind_error ih]
          rfl
        | ok rest =>
          rw [hrest] at ih
          rw [Prog.bind_ok ih]
          change (_, e) = (Except.ok (List.filter _ (row :: rest)), e)
          rw [List.filter_cons_of_pos hsees]
          rfl
      · rw [if_neg hsees, ih]
        cases hrest : ts.mapM toRow with
        | error f => rfl
        | ok rest =>
          change _ = (Except.ok (List.filter _ (row :: rest)), e)
          rw [List.filter_cons_of_neg hsees]
          rfl

namespace SnapshotRead
variable {e : StorageEngine} {read : SnapshotRead} {r : Reader}

theorem rows_eq (e : StorageEngine) (r : Reader) (read : SnapshotRead) :
    read.rows e r = (read.versions e >>= fun ts =>
      (fun rows => rows.filter (r.sees e.txnMgr.clog)) <$> ts.mapM toRow) := by
  have hfilter (x : Except Failure RowSet) :
      (x >>= fun rows => pure (rows.filter fun row =>
        checkTupleVisibility row r.xid r.snap r.cid e.txnMgr.clog)) =
      (fun rows => rows.filter (r.sees e.txnMgr.clog)) <$> x := by
    cases x <;> rfl
  cases read with
  | scan table =>
    refine (hfilter _).trans ?_
    change _ <$> (e.tableOf table >>= materializeAll) = (MemTable.scanAll <$> e.tableOf table) >>= _
    cases e.tableOf table <;> rfl
  | indexLookup table column value =>
    refine (hfilter _).trans ?_
    unfold versions indexRows
    dsimp only
    cases (e.indexes.getD (e.resolveTableName table) []).find? (·.column = column) with
    | none => rfl
    | some idx =>
      dsimp only
      cases idx.entries[valueToString value]? with
      | none => rfl
      | some ids => cases e.data[e.resolveTableName table]? <;> rfl

/-- A read gives its rows and changes nothing. -/
theorem run_exec (e : StorageEngine) (r : Reader) (read : SnapshotRead) :
    (read.exec r).run e = (read.rows e r, e) := by
  rw [exec, Prog.bind_ok (Prog.run_get e), rows_eq]
  cases hts : read.versions e with
  | error f => rfl
  | ok ts =>
    rw [Prog.bind_ok (Prog.run_ofExcept _ _), run_readVersions]
    rfl

theorem versions_of_rows {rows : RowSet} (h : read.rows e r = .ok rows) :
    ∃ ts all, read.versions e = .ok ts ∧ ts.mapM toRow = .ok all ∧
      rows = all.filter (r.sees e.txnMgr.clog) := by
  rw [rows_eq] at h
  obtain ⟨ts, hts, h⟩ := ExceptList.bind_ok_iff.mp h
  cases hall : ts.mapM toRow with
  | error f =>
    rw [hall] at h
    cases h
  | ok all =>
    rw [hall] at h
    exact ⟨ts, all, hts, hall, (Except.ok.inj h).symm⟩

/-- The transaction in the context is on record as a reader of the row. -/
def OnRecord (e : StorageEngine) (table : Str) (rowId : Int64) : Prop :=
  e.txnMgr.HasRead e.txnMgr.context.xid ⟨e.resolveTableName table, rowId⟩

/-- Every row that the read returns is on record afterwards. -/
def Records (e : StorageEngine) (r : Reader) (read : SnapshotRead) : Prop :=
  ∀ rows e', (read.exec r).run e = (.ok rows, e') → ∀ row ∈ rows,
    OnRecord e' read.table (rowIdOf row)

/-- Every version that the reader sees among those of the read was on record before. -/
def AlreadyOnRecord (e : StorageEngine) (r : Reader) (read : SnapshotRead) : Prop :=
  ∀ ts, read.versions e = .ok ts → (∀ t ∈ ts, ∃ row, toRow t = .ok row) →
    ∀ t ∈ ts, t.seen r e.txnMgr.clog = true → OnRecord e read.table t.hdr.rowId.toInt64

/-- The read of a transaction leaves all its rows on record if and only if they were there before. -/
theorem records_iff (e : StorageEngine) (r : Reader) (read : SnapshotRead) :
    Records e r read ↔ AlreadyOnRecord e r read := by
  constructor
  · intro h ts hts hread t ht hseen
    obtain ⟨all, hall⟩ := ExceptList.exists_mapM_ok hread
    obtain ⟨row, hrow⟩ := hread t ht
    have hrows : read.rows e r = .ok (all.filter (r.sees e.txnMgr.clog)) := by
      rw [rows_eq, hts]
      change _ <$> ts.mapM toRow = _
      rw [hall]
      rfl
    have hrun := run_exec e r read
    rw [hrows] at hrun
    rw [← rowIdOf_of_toRow hrow]
    apply h _ e hrun
    apply List.mem_filter.mpr
    exact ⟨(ExceptList.mem_of_mapM_ok hall).mpr ⟨t, ht, hrow⟩, (seen_of_toRow hrow).trans hseen⟩
  · intro h rows e' hrun row hmem
    rw [run_exec] at hrun
    obtain ⟨hrows, rfl⟩ := Prod.mk.inj hrun
    obtain ⟨ts, all, hts, hall, rfl⟩ := versions_of_rows hrows
    obtain ⟨hmem, hsees⟩ := List.mem_filter.mp hmem
    obtain ⟨t, ht, hrow⟩ := (ExceptList.mem_of_mapM_ok hall).mp hmem
    rw [rowIdOf_of_toRow hrow]
    apply h ts hts ?_ t ht ((seen_of_toRow hrow).symm.trans hsees)
    intro t' ht'
    obtain ⟨row', -, hrow'⟩ := ExceptList.ok_of_mapM_ok hall ht'
    exact ⟨row', hrow'⟩

end SnapshotRead

/-! ### A serializable transaction that reads -/

/-- A serializable transaction with an xid, in a database with one committed row. -/
def serializableEngine : StorageEngine :=
  [Call.txn (ManagerCall.setIsolationLevel .serializable).run,
    .txn ManagerCall.beginTransactionBlock.run, .txn ManagerCall.assignXid.run].foldl
    (fun e c => (c.exec.run e).2) transactedEngine

/-- The scan of the table by that transaction. -/
def serializableScan : Except Failure RowSet × StorageEngine :=
  ((SnapshotRead.scan (str "t")).exec ⟨serializableEngine.txnMgr.context.xid,
    serializableEngine.txnMgr.getSnapshot, 0⟩).run serializableEngine

/-- The scan returns the row and records nothing. -/
theorem not_records : ¬ ∀ e : StorageEngine, e.txnMgr.context.isolation = .serializable →
    ∀ r read, SnapshotRead.Records e r read := by
  intro hall
  have h : serializableEngine.txnMgr.context.isolation = .serializable ∧
      serializableScan.1.toOption.any (fun rows => rows.any fun row =>
        !(serializableScan.2.txnMgr.sireadMap.getD
          ⟨serializableScan.2.resolveTableName (str "t"), rowIdOf row⟩ ∅).contains
            serializableScan.2.txnMgr.context.xid) = true := by
    decide +kernel
  obtain ⟨hlevel, hrows⟩ := h
  obtain ⟨rows, hrows, hany⟩ := (Option.any_eq_true _ _).1 hrows
  obtain ⟨row, hmem, hnot⟩ := List.any_eq_true.1 hany
  have hok : serializableScan.1 = .ok rows := by
    cases hres : serializableScan.1 with
    | error f =>
      rw [hres] at hrows
      cases hrows
    | ok rows' =>
      rw [hres] at hrows
      exact congrArg Except.ok (Option.some.inj hrows)
  have hread := hall _ hlevel _ _ rows serializableScan.2 (Prod.ext hok rfl) row hmem
  rw [Bool.not_eq_true'] at hnot
  cases hnot.symm.trans (Std.ExtTreeSet.contains_iff_mem.mpr hread)

end StorageEngine
end JiaMiaoDB
