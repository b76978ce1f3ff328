import JiaMiaoDB.Storage.Disk
import JiaMiaoDB.Storage.MemTable

/-!
# The storage engine

Tables, their versions, row id counters and indexes, the transaction manager, the catalog and the
data directory. The calls are sequential: table locks are always free, so they are left out.
-/

set_option autoImplicit false

namespace JiaMiaoDB
open BinaryRowCodec

structure StorageEngine where
  checkpointInterval : Int32
  dir : Dir
  wal : WriteAheadLogV3
  txnMgr : TransactionManager
  catalog : Catalog
  tables : StrMap TableSchema
  data : StrMap MemTable
  rowIds : StrMap Int64
  indexes : StrMap (List IndexInfo)
  walSeq : Int64
  clock : Int64

abbrev EngineM := Prog StorageEngine Failure

/-- A column assignment of an update. -/
abbrev Updates := StrMap Value

namespace StorageEngine

/-- The engine before `load`. -/
def create (d : Disk) (checkpointInterval : Int32) (clock : Int64) : StorageEngine where
  checkpointInterval := checkpointInterval
  dir := Dir.create d
  wal := ⟨0⟩
  txnMgr := TransactionManager.initial
  catalog := Catalog.initial
  tables := ∅
  data := ∅
  rowIds := ∅
  indexes := ∅
  walSeq := 0
  clock := clock

def setTxnMgr (e : StorageEngine) (m : TransactionManager) : StorageEngine := { e with txnMgr := m }

def setCatalog (e : StorageEngine) (c : Catalog) : StorageEngine := { e with catalog := c }

def inTxn {α : Type} (p : TxnM α) : EngineM α := Prog.zoom (·.txnMgr) (fun m e => e.setTxnMgr m) p

def inCatalog {α : Type} (p : CatalogM α) : EngineM α :=
  Prog.zoom (·.catalog) (fun c e => e.setCatalog c) p

def resolveTableName (e : StorageEngine) (name : Str) : Str := e.catalog.qualifyTableName name

def noTable (table : Str) : Failure := .runtimeError (str "表 \"" ++ table ++ str "\" 不存在")

/-! ### Rows and tuples -/

/-- A tuple as a row with its system columns. -/
def toRow (t : Tuple) : Except Failure Row := do
  let row ← tupleToRow t
  pure (withSystemColumns row t.hdr)

def materializeAll (m : MemTable) : Except Failure RowSet := m.scanAll.mapM toRow

/-- A system column of a row, cut to 32 bits; 0 when there is no integer. -/
def headerField (row : Row) (column : Str) : UInt32 :=
  match row[column]? with
  | some (.int v) => v.toUInt64.toUInt32
  | _ => 0

def headerFromRow (qualified : Str) (rowId : Int64) (row : Row) : TupleHeader where
  rowId := rowId.toUInt64
  xmin := headerField row (str "_xmin")
  xmax := headerField row (str "_xmax")
  cid := headerField row (str "_cid")
  schemaHash := fnv1a16 qualified
  flags := 0
  payloadLen := 0
  crc32 := 0

/-- `std::get<int64_t>(row.at("_rowid"))`. -/
def getRowId (row : Row) : Except Failure Int64 :=
  match row[str "_rowid"]? with
  | some (.int v) => .ok v
  | some _ => .error .badVariantAccess
  | none => .error (.outOfRange (str "map::at"))

def applyUpdates (row : Row) (updates : Updates) : Row :=
  updates.foldl (fun row k v => row.insert k v) row

def stamp (row : Row) (xmin xmax : TransactionId) (cid : Int32) : Row :=
  ((row.insert (str "_xmin") (.int xmin.toUInt64.toInt64)).insert
    (str "_xmax") (.int xmax.toUInt64.toInt64)).insert (str "_cid") (.int cid.toInt64)

/-! ### Sequence numbers, the log and the versions -/

def nextSeq : EngineM Int64 := do
  let e ← Prog.get
  if e.walSeq = Int64.maxValue then Prog.throw .undefined
  else
    Prog.set { e with walSeq := e.walSeq + 1 }
    pure (e.walSeq + 1)

def append (e : StorageEngine) (r : WALRecordV3) : StorageEngine :=
  { e with dir := e.dir.push (.append r), wal := ⟨r.seq⟩ }

def writeWal (op : WalOp) (table : Str) (payload : Bytes) (xid : TransactionId) : EngineM Unit := do
  let seq ← nextSeq
  Prog.modify fun e => e.append ⟨seq, e.clock, op.toTag, table, xid, payload⟩

def setTable (e : StorageEngine) (qualified : Str) (m : MemTable) : StorageEngine :=
  { e with data := e.data.insert qualified m }

def modifyTable (qualified : Str) (f : MemTable → MemTable) (e : StorageEngine) : StorageEngine :=
  match e.data[qualified]? with
  | some m => e.setTable qualified (f m)
  | none => e

def eraseVersions (qualified : Str) (rowId : Int64) : EngineM Unit :=
  Prog.modify (modifyTable qualified (·.eraseAllFor rowId))

/-- Stores the row as a new version: header, payload, then the next sequence number. -/
def putVersion (qualified : Str) (rowId : Int64) (row : Row) : EngineM Unit := do
  let tup ← Prog.ofExcept (rowToTuple row (headerFromRow qualified rowId row))
  let seq ← nextSeq
  Prog.modify (modifyTable qualified (·.put rowId tup seq.toUInt64))

/-- `row_count` of the schema follows the number of versions. -/
def setRowCount (qualified : Str) (e : StorageEngine) : StorageEngine :=
  match e.tables[qualified]?, e.data[qualified]? with
  | some schema, some m => { e with
      tables := e.tables.insert qualified { schema with rowCount := Int64.ofNat m.size } }
  | _, _ => e

def nextRowId (qualified : Str) : EngineM Int64 := do
  let e ← Prog.get
  let last := e.rowIds.getD qualified 0
  if last = Int64.maxValue then Prog.throw .undefined
  else
    Prog.set { e with rowIds := e.rowIds.insert qualified (last + 1) }
    pure (last + 1)

/-! ### Indexes -/

def addEntry (entries : StrMap (List Int64)) (v : Value) (rowId : Int64) : StrMap (List Int64) :=
  entries.insert (valueToString v) (entries.getD (valueToString v) [] ++ [rowId])

/-- The entries of an index over the tuples, as far as they were collected when a tuple cannot be
decoded. -/
def collectEntries (column : Str) (tuples : List Tuple) :
    Prog (StrMap (List Int64)) Failure Unit :=
  Prog.forEach (fun t => do
    let row ← Prog.ofExcept (toRow t)
    match row[column]? with
    | some v => Prog.modify fun entries => addEntry entries v t.hdr.rowId.toInt64
    | none => pure ()) tuples

/-- Each index is cleared and filled again, in turn. -/
def reindex (tuples : List Tuple) : List IndexInfo → Except Failure Unit × List IndexInfo
  | [] => (.ok (), [])
  | idx :: rest =>
    match (collectEntries idx.column tuples).run ∅ with
    | (.ok _, entries) =>
      let (r, rest') := reindex tuples rest
      (r, { idx with entries := entries } :: rest')
    | (.error e, entries) => (.error e, { idx with entries := entries } :: rest)

def setIndexes (e : StorageEngine) (table : Str) (idxs : List IndexInfo) : StorageEngine :=
  { e with indexes := e.indexes.insert table idxs }

def rebuildIndexes (table : Str) : EngineM Unit := do
  let e ← Prog.get
  match e.indexes[table]?, e.data[table]? with
  | some idxs, some m => do
    let (r, idxs') := reindex m.scanAll idxs
    Prog.set (e.setIndexes table idxs')
    Prog.ofExcept r
  | _, _ => pure ()

def rebuildIf (affected : Bool) (table : Str) : EngineM Unit :=
  if affected then rebuildIndexes table else pure ()

/-- The row id under the row's value, once. -/
def addToIndex (rowId : Int64) (row : Row) (idx : IndexInfo) : IndexInfo :=
  match row[idx.column]? with
  | none => idx
  | some v =>
    let list := idx.entries.getD (valueToString v) []
    { idx with
      entries := idx.entries.insert (valueToString v)
        (if rowId ∈ list then list else list ++ [rowId]) }

def updateIndexes (table : Str) (rowId : Int64) (row : Row) (e : StorageEngine) : StorageEngine :=
  match e.indexes[table]? with
  | some idxs => e.setIndexes table (idxs.map (addToIndex rowId row))
  | none => e

def updatesAffectIndex (e : StorageEngine) (table : Str) (updates : Updates) : Bool :=
  (e.indexes.getD table []).any fun idx => updates.contains idx.column

def createIndex (table column : Str) : EngineM Unit := do
  let e ← Prog.get
  let qualified := e.resolveTableName table
  match e.indexes[qualified]? with
  | none => pure ()
  | some idxs =>
    if idxs.any (·.column = column) then pure ()
    else match e.data[qualified]? with
      | none => Prog.set (e.setIndexes qualified (idxs ++ [⟨column, ∅⟩]))
      | some m =>
        match (collectEntries column m.scanAll).run ∅ with
        | (.ok _, entries) => Prog.set (e.setIndexes qualified (idxs ++ [⟨column, entries⟩]))
        | (.error err, _) => Prog.throw err

def hasIndex (e : StorageEngine) (table column : Str) : Bool :=
  (e.indexes.getD (e.resolveTableName table) []).any (·.column = column)

/-! ### Checkpoints -/

def checkpointRows (m : MemTable) : Except Failure (List (Int64 × Row)) :=
  (fun rows => rows.map fun row => (rowIdOf row, row)) <$> materializeAll m

def tableCheckpoint (e : StorageEngine) (name : Str) : Except Failure (Str × List (Int64 × Row)) :=
  match e.data[name]? with
  | some m => (name, ·) <$> checkpointRows m
  | none => .ok (name, [])

def toCheckpoint (e : StorageEngine) : Except Failure Checkpoint := do
  let rows ← e.tables.keys.mapM e.tableCheckpoint
  pure { Checkpoint.empty with
    lastSeq := e.walSeq
    timestamp := e.clock
    tables := e.tables.values
    tableRows := rows.foldl (fun m p => m.insert p.1 p.2) ∅
    rowIdCounters := e.tables.map fun name _ => e.rowIds.getD name 0
    indexesData := e.indexes.filter fun name _ => e.tables.contains name
    nextXid := e.txnMgr.nextXid
    clogBytes := clogEncode e.txnMgr.clog
    catalogBytes := catalogEncode e.catalog }

def saveCheckpoint (e : StorageEngine) (ckp : Checkpoint) : StorageEngine :=
  { e with dir := e.dir.push (.saveCheckpoint ckp) }

/-- The log is cut and the counter continues where the log ends. -/
def truncateWal (e : StorageEngine) (cutoff : Int64) : StorageEngine :=
  let (kept, w) := e.wal.truncate e.dir.disk cutoff
  { e with dir := e.dir.push (.rewriteWal kept), wal := w, walSeq := w.seq }

def checkpoint : EngineM Unit := do
  let e ← Prog.get
  let ckp ← Prog.ofExcept e.toCheckpoint
  Prog.set ((e.saveCheckpoint ckp).truncateWal ckp.lastSeq)

def checkpointDue (e : StorageEngine) : Bool :=
  0 < e.checkpointInterval ∧ e.walSeq % e.checkpointInterval.toInt64 = 0

def maybeCheckpoint : EngineM Unit := do
  let e ← Prog.get
  if e.checkpointDue then checkpoint else pure ()

/-- The calls that change data end with a checkpoint check. -/
def thenCheckpoint {α : Type} (body : EngineM α) : EngineM α := do
  let a ← body
  maybeCheckpoint
  pure a

/-! ### Validation -/

def coerce (type : DataType) (v : Value) : Except Failure Value :=
  match v with
  | .null => .ok .null
  | v =>
    match type with
    | .integer | .bigint =>
      match v with
      | .double d => .ok (.int d.toInt64)
      | .string s => .int <$> Json.stoll s
      | v => .ok v
    | .float | .double =>
      match v with
      | .int i => .ok (.double (Binary64.ofInt i.toInt))
      | .string s => .double <$> Json.stod s
      | v => .ok v
    | .boolean =>
      match v with
      | .int i => .ok (.bool (i != 0))
      | .string s => .ok (.bool (s = str "true" ∨ s = str "1"))
      | v => .ok v
    | .text | .date | .timestamp =>
      match v with
      | .string s => .ok (.string s)
      | v => .ok (.string (valueToString v))
    | .unknown | .other _ => .ok v

/-- The stored value of one column. -/
def validateColumn (e : StorageEngine) (schema : TableSchema) (row : Row) (col : ColumnDef) :
    Except Failure Value :=
  match row[col.name]? with
  | some v => coerce col.type v
  | none =>
    if col.primaryKey ∧ col.type = .integer then
      let last := e.rowIds.getD schema.name 0
      if last = Int64.maxValue then .error .undefined else .ok (.int (last + 1))
    else match col.defaultValue with
      | some v => .ok v
      | none =>
        if !col.nullable then
          .error (.runtimeError (str "字段 \"" ++ col.name ++ str "\" 不能为 NULL"))
        else .ok .null

def validate (e : StorageEngine) (schema : TableSchema) (row : Row) : Except Failure Row :=
  schema.columns.foldlM (fun result col => do
    let v ← e.validateColumn schema row col
    pure (result.insert col.name v)) ∅

end StorageEngine
end JiaMiaoDB
