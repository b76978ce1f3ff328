import JiaMiaoDB.Storage.Calls
import JiaMiaoDB.Storage.StoredRow

/-! What the steps that calls and replay share do to an engine. -/

set_option autoImplicit false

namespace JiaMiaoDB
open BinaryRowCodec

/-- A schema without its row count and the default values. -/
def TableSchema.shape (t : TableSchema) : Str × List ColumnDef :=
  (t.name, t.columns.map ColumnDef.withoutDefault)

namespace StorageEngine
variable {e : StorageEngine} {q : Str}

/-! ### Numbers, log records and versions -/

theorem run_nextSeq (h : e.walSeq ≠ Int64.maxValue) :
    nextSeq.run e = (.ok (e.walSeq + 1), { e with walSeq := e.walSeq + 1 }) := by
  rw [nextSeq, Prog.bind_ok (Prog.run_get e), if_neg h]
  rfl

theorem run_nextSeq_max (h : e.walSeq = Int64.maxValue) : nextSeq.run e = (.error .undefined, e) := by
  rw [nextSeq, Prog.bind_ok (Prog.run_get e), if_pos h]
  rfl

theorem run_writeWal (h : e.walSeq ≠ Int64.maxValue) (op : WalOp) (table : Str) (payload : Bytes)
    (xid : TransactionId) : (writeWal op table payload xid).run e =
      (.ok (), { e with
        walSeq := e.walSeq + 1
        dir := e.dir.push (.append ⟨e.walSeq + 1, e.clock, op.toTag, table, xid, payload⟩)
        wal := ⟨e.walSeq + 1⟩ }) := by
  rw [writeWal, Prog.bind_ok (run_nextSeq h)]
  rfl

theorem run_writeWal_max (h : e.walSeq = Int64.maxValue) (op : WalOp) (table : Str)
    (payload : Bytes) (xid : TransactionId) :
    (writeWal op table payload xid).run e = (.error .undefined, e) := by
  rw [writeWal, Prog.bind_error (run_nextSeq_max h)]

theorem modifyTable_eq {m : MemTable} (hm : e.data[q]? = some m) (f : MemTable → MemTable) :
    modifyTable q f e = { e with data := e.data.insert q (f m) } := by
  rw [modifyTable, hm]
  rfl

theorem run_putVersion {row : Row} {t : Tuple} {m : MemTable} {id : Int64}
    (ht : rowToTuple row (headerFromRow q id row) = .ok t) (hm : e.data[q]? = some m)
    (h : e.walSeq ≠ Int64.maxValue) : (putVersion q id row).run e = (.ok (), { e with
      walSeq := e.walSeq + 1
      data := e.data.insert q (m.put id t (e.walSeq + 1).toUInt64) }) := by
  rw [putVersion, ht, Prog.bind_ok (Prog.run_ofExcept _ e), Prog.bind_ok (run_nextSeq h),
    Prog.run_modify, modifyTable_eq (e := { e with walSeq := e.walSeq + 1 }) hm]

theorem run_putVersion_max {row : Row} {t : Tuple} {id : Int64}
    (ht : rowToTuple row (headerFromRow q id row) = .ok t) (h : e.walSeq = Int64.maxValue) :
    (putVersion q id row).run e = (.error .undefined, e) := by
  rw [putVersion, ht, Prog.bind_ok (Prog.run_ofExcept _ e), Prog.bind_error (run_nextSeq_max h)]

theorem run_eraseVersions {m : MemTable} (hm : e.data[q]? = some m) (id : Int64) :
    (eraseVersions q id).run e = (.ok (), { e with data := e.data.insert q (m.eraseAllFor id) }) := by
  rw [eraseVersions, Prog.run_modify, modifyTable_eq hm]

theorem wp_eraseVersions {m : MemTable} {id : Int64} {Q : Unit → StorageEngine → Prop}
    {E : Failure → StorageEngine → Prop} (hm : e.data[q]? = some m)
    (hok : Q () { e with data := e.data.insert q (m.eraseAllFor id) }) :
    (eraseVersions q id).wp Q E e :=
  Prog.wp_of_ok (run_eraseVersions hm id) hok

theorem wp_putVersion {row : Row} {m : MemTable} {id : Int64} {Q : Unit → StorageEngine → Prop}
    {E : Failure → StorageEngine → Prop} (hm : e.data[q]? = some m) (herr : ∀ f, E f e)
    (hok : ∀ t, rowToTuple row (headerFromRow q id row) = .ok t → e.walSeq ≠ Int64.maxValue →
      Q () { e with
        walSeq := e.walSeq + 1
        data := e.data.insert q (m.put id t (e.walSeq + 1).toUInt64) }) :
    (putVersion q id row).wp Q E e := by
  cases ht : rowToTuple row (headerFromRow q id row) with
  | error f =>
    have hrun : (putVersion q id row).run e = (.error f, e) := by
      rw [putVersion, ht]
      rfl
    exact Prog.wp_of_error hrun (herr f)
  | ok t =>
    by_cases hmax : e.walSeq = Int64.maxValue
    · exact Prog.wp_of_error (run_putVersion_max ht hmax) (herr _)
    · exact Prog.wp_of_ok (run_putVersion ht hm hmax) (hok t ht hmax)

/-- A log record touches neither the tables nor the manager. -/
theorem wp_writeWal {op : WalOp} {table : Str} {payload : Bytes} {xid : TransactionId}
    {Q : Unit → StorageEngine → Prop} {E : Failure → StorageEngine → Prop} (herr : ∀ f, E f e)
    (hok : ∀ dir wal, e.walSeq ≠ Int64.maxValue →
      Q () { e with walSeq := e.walSeq + 1, dir := dir, wal := wal }) :
    (writeWal op table payload xid).wp Q E e := by
  by_cases hmax : e.walSeq = Int64.maxValue
  · exact Prog.wp_of_error (run_writeWal_max hmax op table payload xid) (herr _)
  · exact Prog.wp_of_ok (run_writeWal hmax op table payload xid) (hok _ _ hmax)

theorem tableOf_eq_ok {table : Str} {m : MemTable} :
    e.tableOf table = .ok m ↔ e.data[e.resolveTableName table]? = some m := by
  rw [tableOf]
  cases e.data[e.resolveTableName table]? <;> simp

/-! ### Indexes and row counts -/

/-- The indexes of one table changed one by one. -/
def mapIndexes (indexes : StrMap (List IndexInfo)) (q : Str) (f : IndexInfo → IndexInfo) :
    StrMap (List IndexInfo) :=
  match indexes[q]? with
  | some idxs => indexes.insert q (idxs.map f)
  | none => indexes

theorem getElem?_mapIndexes (indexes : StrMap (List IndexInfo)) (q k : Str)
    (f : IndexInfo → IndexInfo) : (mapIndexes indexes q f)[k]? =
      if q = k then (indexes[k]?).map (List.map f) else indexes[k]? := by
  rw [mapIndexes]
  cases hq : indexes[q]? with
  | none =>
    by_cases h : q = k
    · subst h
      simp [hq]
    · simp [h]
  | some idxs =>
    by_cases h : q = k
    · subst h
      simp [hq]
    · simp [Std.ExtTreeMap.getElem?_insert, h]

theorem mapIndexes_mapIndexes (indexes : StrMap (List IndexInfo)) (q : Str)
    (f g : IndexInfo → IndexInfo) :
    mapIndexes (mapIndexes indexes q f) q g = mapIndexes indexes q (g ∘ f) := by
  refine Std.ExtTreeMap.ext_getElem? fun k => ?_
  simp only [getElem?_mapIndexes]
  split
  · cases indexes[k]? <;> simp
  · rfl

theorem updateIndexes_eq (q : Str) (id : Int64) (row : Row) (e : StorageEngine) :
    updateIndexes q id row e = { e with indexes := mapIndexes e.indexes q (addToIndex id row) } := by
  rw [updateIndexes, mapIndexes]
  cases e.indexes[q]? <;> rfl

/-- The schemas with the row count of one table brought up to date. -/
def countRows (tables : StrMap TableSchema) (data : StrMap MemTable) (q : Str) :
    StrMap TableSchema :=
  match tables[q]?, data[q]? with
  | some schema, some m => tables.insert q { schema with rowCount := Int64.ofNat m.size }
  | _, _ => tables

theorem setRowCount_eq (q : Str) (e : StorageEngine) :
    setRowCount q e = { e with tables := countRows e.tables e.data q } := by
  rw [setRowCount, countRows]
  cases e.tables[q]? <;> cases e.data[q]? <;> rfl

theorem countRows_of_ne {tables : StrMap TableSchema} {data : StrMap MemTable} {q k : Str}
    (h : q ≠ k) : (countRows tables data q)[k]? = tables[k]? := by
  rw [countRows]
  split
  · simp [Std.ExtTreeMap.getElem?_insert, h]
  · rfl

theorem shape_countRows (tables : StrMap TableSchema) (data : StrMap MemTable) (q k : Str) :
    ((countRows tables data q)[k]?).map TableSchema.shape = (tables[k]?).map TableSchema.shape := by
  rw [countRows]
  split
  · rename_i schema m hschema _
    by_cases h : q = k
    · subst h
      simp [hschema, TableSchema.shape]
    · simp [Std.ExtTreeMap.getElem?_insert, h]
  · rfl

/-- The row's entry in an index that is built anew. -/
def listRow (column : Str) (entries : StrMap (List Int64)) (row : Row) : StrMap (List Int64) :=
  match row[column]? with
  | some v => addEntry entries v (rowIdOf row)
  | none => entries

/-- What an index lists when it is built from the rows. -/
def indexEntries (column : Str) (rows : RowSet) : StrMap (List Int64) :=
  rows.foldl (listRow column) ∅

def reindexed (rows : RowSet) (idx : IndexInfo) : IndexInfo :=
  { idx with entries := indexEntries idx.column rows }

theorem reindexed_reindexed (rows rows' : RowSet) :
    reindexed rows ∘ reindexed rows' = reindexed rows := rfl

theorem run_collectEntries {column : Str} {tuples : List Tuple} {rows : RowSet}
    (h : tuples.mapM toRow = .ok rows) (entries : StrMap (List Int64)) :
    (collectEntries column tuples).run entries = (.ok (), rows.foldl (listRow column) entries) := by
  rw [collectEntries]
  induction tuples generalizing rows entries with
  | nil =>
    cases h
    rfl
  | cons t tuples ih =>
    obtain ⟨row, rest, hrow, hrest, rfl⟩ := ExceptList.mapM_cons_ok.1 h
    have hid := rowIdOf_of_toRow hrow
    refine (Prog.run_forEach_cons ?_ tuples).trans (ih hrest (listRow column entries row))
    rw [hrow, Prog.bind_ok (Prog.run_ofExcept _ entries), listRow, hid]
    cases row[column]? <;> rfl

theorem reindex_ok {tuples : List Tuple} {rows : RowSet} (h : tuples.mapM toRow = .ok rows)
    (idxs : List IndexInfo) : reindex tuples idxs = (.ok (), idxs.map (reindexed rows)) := by
  induction idxs with
  | nil => rfl
  | cons idx idxs ih =>
    rw [reindex, run_collectEntries h]
    simp only [ih]
    rfl

theorem run_rebuildIndexes {m : MemTable} {rows : RowSet} (hm : e.data[q]? = some m)
    (hrows : materializeAll m = .ok rows) :
    (rebuildIndexes q).run e =
      (.ok (), { e with indexes := mapIndexes e.indexes q (reindexed rows) }) := by
  rw [rebuildIndexes, Prog.bind_ok (Prog.run_get e), hm, mapIndexes]
  cases e.indexes[q]? with
  | none => rfl
  | some idxs =>
    simp only [reindex_ok hrows]
    rfl

/-! ### New tables -/

/-- The index of a key column, unless the column has one. -/
def addKeyIndex (idxs : List IndexInfo) (c : ColumnDef) : List IndexInfo :=
  if c.primaryKey then
    if idxs.any (·.column = c.name) then idxs else idxs ++ [⟨c.name, ∅⟩]
  else idxs

/-- The indexes of a table before its first row. -/
def keyIndexes (columns : List ColumnDef) : List IndexInfo := columns.foldl addKeyIndex []

theorem keyIndexes_withoutDefault (columns : List ColumnDef) :
    keyIndexes (columns.map ColumnDef.withoutDefault) = keyIndexes columns := by
  rw [keyIndexes, List.foldl_map]
  rfl

theorem resolveTableName_of_dot {e : StorageEngine} (h : (46 : UInt8) ∈ q) :
    e.resolveTableName q = q := by
  rw [resolveTableName, Catalog.qualifyTableName, if_pos h]

theorem dot_mem_resolveTableName (e : StorageEngine) (name : Str) :
    (46 : UInt8) ∈ e.resolveTableName name := by
  rw [resolveTableName, Catalog.qualifyTableName]
  split
  · assumption
  · have : (46 : UInt8) ∈ str ".public." := by decide
    simp [this]

theorem run_createIndex_empty {idxs : List IndexInfo} (hq : (46 : UInt8) ∈ q)
    (hi : e.indexes[q]? = some idxs) (hm : e.data[q]? = some (MemTable.create q)) (column : Str) :
    (createIndex q column).run e = (.ok (), { e with
      indexes := e.indexes.insert q
        (if idxs.any (·.column = column) then idxs else idxs ++ [⟨column, ∅⟩]) }) := by
  rw [createIndex, Prog.bind_ok (Prog.run_get e), resolveTableName_of_dot hq]
  simp only [hi, hm]
  split
  · rw [OrderedMap.insert_self hi]
    rfl
  · rw [MemTable.scanAll_create]
    rfl

/-- A new table has the indexes of its key columns. -/
theorem run_createKeyIndexes (hq : (46 : UInt8) ∈ q) (columns : List ColumnDef)
    (e : StorageEngine) : (createKeyIndexes q columns).run (resetTable q columns e) =
      (.ok (), { resetTable q columns e with
        indexes := e.indexes.insert q (keyIndexes columns) }) := by
  suffices H : ∀ (rest : List ColumnDef) (idxs : List IndexInfo) (e : StorageEngine),
      e.indexes[q]? = some idxs → e.data[q]? = some (MemTable.create q) →
      (Prog.forEach (fun c => if c.primaryKey then createIndex q c.name else pure ()) rest).run e =
        (.ok (), { e with indexes := e.indexes.insert q (rest.foldl addKeyIndex idxs) }) by
    rw [createKeyIndexes, H columns [] (resetTable q columns e) (by simp [resetTable])
      (by simp [resetTable]), keyIndexes]
    simp only [resetTable, OrderedMap.insert_insert]
  intro rest
  induction rest with
  | nil =>
    intro idxs e hi _
    rw [List.foldl_nil, OrderedMap.insert_self hi]
    rfl
  | cons c rest ih =>
    intro idxs e hi hm
    have hstep : (if c.primaryKey then createIndex q c.name else pure () : EngineM Unit).run e =
        (.ok (), { e with indexes := e.indexes.insert q (addKeyIndex idxs c) }) := by
      rw [addKeyIndex]
      split
      · exact run_createIndex_empty hq hi hm c.name
      · rw [OrderedMap.insert_self hi]
        rfl
    rw [Prog.forEach, Prog.bind_ok hstep, List.foldl_cons,
      ih (addKeyIndex idxs c) { e with indexes := e.indexes.insert q (addKeyIndex idxs c) } (by simp)
        hm]
    simp only [OrderedMap.insert_insert]

/-! ### Loading -/

theorem run_restore_empty (e : StorageEngine) : (restore Checkpoint.empty).run e = (.ok (), { e with
    walSeq := 0
    txnMgr := ({ e.txnMgr with
      nextXid := FirstNormalTransactionId }).rebuildActiveFromClog.resetContext }) := rfl

/-- A load restores the checkpoint and then replays the records above it. -/
theorem run_load {d : Disk} {checkpointInterval : Int32} {clock : Int64} {ckp : Checkpoint}
    (hckp : CheckpointManager.load d.checkpointBin d.checkpointJson = ckp)
    (hrestore : (restore ckp).run (create d checkpointInterval clock) = (.ok (), e)) :
    load.run (create d checkpointInterval clock) =
      (Prog.forEach replayRecord (WriteAheadLogV3.replay ⟨0⟩ d ckp.lastSeq).1).run
        { e with wal := (e.wal.replay d ckp.lastSeq).2 } := by
  have hdir : e.dir = Dir.create d :=
    Prog.wp_ok (Q := fun _ e => e.dir = Dir.create d) (LogInvariant.keeps_restore
      (· = Dir.create d) ckp (create d checkpointInterval clock) rfl) hrestore
  have hdisk : e.dir.disk = d := by
    rw [hdir]
    rfl
  rw [load, Prog.bind_ok (Prog.run_get _)]
  have hload : CheckpointManager.load (create d checkpointInterval clock).dir.disk.checkpointBin
      (create d checkpointInterval clock).dir.disk.checkpointJson = ckp := hckp
  simp only [hload]
  rw [Prog.bind_ok hrestore, openLog, Prog.run_bind, Prog.bind_ok (Prog.run_get e), hdisk]
  rfl

end StorageEngine
end JiaMiaoDB
