import JiaMiaoDB.Storage.Ddl

/-!
# Loading a directory

`load` restores the last checkpoint and replays the log records above its sequence number. A record
of a transaction counts only when the commit log already says that the transaction has committed.
-/

set_option autoImplicit false

namespace JiaMiaoDB
open BinaryRowCodec

/-- The checkpoint that a load of the directory starts from. -/
def Disk.checkpoint (d : Disk) : Checkpoint :=
  CheckpointManager.load d.checkpointBin d.checkpointJson

namespace StorageEngine

/-! ### Replay -/

/-- Whether a record of the transaction is applied at this point of the replay. -/
def replayed (e : StorageEngine) (xid : TransactionId) : Bool :=
  xid = InvalidTransactionId || e.txnMgr.clog.getStatus xid = .committed

def setStatus (xid : TransactionId) (status : TransactionStatus) (e : StorageEngine) :
    StorageEngine :=
  if xid = InvalidTransactionId then e
  else e.setTxnMgr { e.txnMgr with clog := e.txnMgr.clog.setStatus xid status }

def replayInsert (r : WALRecordV3) : EngineM Unit :=
  match walDecodeInsert r.data with
  | none => pure ()
  | some p => do
    putVersion r.table p.rowid p.row
    Prog.modify (updateIndexes r.table p.rowid p.row)
    Prog.modify (setRowCount r.table)
    Prog.modify fun e =>
      { e with rowIds := e.rowIds.insert r.table (max (e.rowIds.getD r.table 0) p.rowid) }

/-- The older versions stay. -/
def replayUpdate (r : WALRecordV3) : EngineM Unit :=
  match walDecodeUpdate r.data with
  | none => pure ()
  | some p => do
    putVersion r.table p.rowid p.newRow
    let e ← Prog.get
    rebuildIf (e.updatesAffectIndex r.table p.updates) r.table
    rebuildIndexes r.table
    Prog.modify (setRowCount r.table)

def replayDelete (r : WALRecordV3) (m : MemTable) : EngineM Unit :=
  match walDecodeDelete r.data with
  | none => pure ()
  | some p =>
    match p.xmax with
    | some xmax =>
      match m.getLatest p.rowid with
      | none => pure ()
      | some t => do
        let row ← Prog.ofExcept (toRow t)
        putVersion r.table p.rowid (row.insert (str "_xmax") (.int xmax.toUInt64.toInt64))
    | none => do
      eraseVersions r.table p.rowid
      rebuildIndexes r.table
      Prog.modify (setRowCount r.table)

/-- The guard that the three kinds of row records share. -/
def replayRow (r : WALRecordV3) (body : MemTable → EngineM Unit) : EngineM Unit := do
  let e ← Prog.get
  if e.replayed r.xid then
    match e.data[r.table]? with
    | none => pure ()
    | some m => body m
  else pure ()

def replayRecord (r : WALRecordV3) : EngineM Unit :=
  match WalOp.ofTag r.op with
  | .createDatabase => inCatalog (Catalog.ensureDatabase r.table)
  | .dropDatabase => do
    let e ← Prog.get
    if e.catalog.databaseExists r.table then inCatalog (Catalog.dropDatabase r.table) else pure ()
  | .createSchema =>
    match walDecodeCreateSchema r.data with
    | none => pure ()
    | some schema => inCatalog (Catalog.ensureSchema r.table schema)
  | .createUser => pure ()
  | .dropUser => do
    let e ← Prog.get
    if e.catalog.userExists r.table then inCatalog (Catalog.dropUser r.table) else pure ()
  | .createTable =>
    match walDecodeCreateTable r.data with
    | none => pure ()
    | some columns => do
      Prog.modify (resetTable r.table columns)
      createKeyIndexes r.table columns
  | .dropTable => Prog.modify (eraseTable r.table)
  | .xactCommit => Prog.modify (setStatus r.xid .committed)
  | .xactAbort => Prog.modify (setStatus r.xid .aborted)
  | .insert => replayRow r fun _ => replayInsert r
  | .update => replayRow r fun _ => replayUpdate r
  | .delete => replayRow r (replayDelete r)
  | .unknown => pure ()

/-! ### Restoring a checkpoint -/

def catalogFromBinary (ckp : Checkpoint) : CatalogM Bool :=
  if ckp.catalogBytes = [] then pure false else catalogDecode ckp.catalogBytes

def catalogFromJson (ckp : Checkpoint) : CatalogM Unit :=
  if ckp.catalogData.contains (str "databases") then Catalog.fromJson ckp.catalogData else pure ()

/-- The catalog from the binary section, or else from the JSON one. The result says whether the
checkpoint counts as an old one. -/
def restoreCatalog (ckp : Checkpoint) : CatalogM Bool := do
  let decoded ← catalogFromBinary ckp
  if decoded then pure false
  else do
    catalogFromJson ckp
    pure true

/-- Tables of an old checkpoint without a qualified name move to the default database. -/
def qualifiedName (isOld : Bool) (name : Str) : Str :=
  if (46 : UInt8) ∉ name ∧ isOld then str "defaultdb.public." ++ name else name

/-- The empty table of a restored schema. -/
def addTable (qualified : Str) (schema : TableSchema) (e : StorageEngine) : StorageEngine :=
  { e with
    tables := e.tables.insert qualified schema
    data := e.data.insert qualified (MemTable.create qualified)
    rowIds := e.rowIds.insert qualified 0
    indexes := e.indexes.insert qualified [] }

/-- Counter and indexes of a table, as far as the checkpoint has them. -/
def restoreSettings (ckp : Checkpoint) (name qualified : Str) (e : StorageEngine) :
    StorageEngine :=
  { e with
    rowIds := (ckp.rowIdCounters[name]?).elim e.rowIds (e.rowIds.insert qualified)
    indexes := (ckp.indexesData[name]?).elim e.indexes (e.indexes.insert qualified) }

/-- The rows that the checkpoint holds for a table. -/
def rowsOf (ckp : Checkpoint) (name : Str) : List (Int64 × Row) := ckp.tableRows.getD name []

/-- The number of rows that the checkpoint holds for the tables. -/
def rowCountOf (ckp : Checkpoint) (ts : List TableSchema) : Nat :=
  (ts.map fun t => (rowsOf ckp t.name).length).sum

def restoreTable (ckp : Checkpoint) (isOld : Bool) (t : TableSchema) : EngineM Unit := do
  let qualified := qualifiedName isOld t.name
  Prog.modify (addTable qualified { t with name := qualified })
  Prog.forEach (fun (p : Int64 × Row) => putVersion qualified p.1 p.2) (ckp.tableRows.getD t.name [])
  Prog.modify (restoreSettings ckp t.name qualified)

/-- One entry of the old JSON form. A status past the enumeration equals none of the others. -/
def clogEntryFromJson (j : Json) : TxnM Unit := do
  let xid ← Prog.ofExcept (j.get (str "xid")).getInt
  let status ← Prog.ofExcept (j.get (str "status")).getInt
  Prog.modify fun m => { m with
    clog := m.clog.setStatus xid.toUInt64.toUInt32
      ((TransactionStatus.ofTag? status.toUInt64.toUInt8.toNat).getD .subCommitted) }

/-- A binary section that does not decode leaves what was read of it. -/
def restoreClog (ckp : Checkpoint) : TxnM Unit :=
  if ckp.clogBytes ≠ [] then
    Prog.modify fun m => { m with clog := (clogDecode ckp.clogBytes m.clog).2 }
  else Prog.forEach clogEntryFromJson ckp.clogEntries.items

def restoreNextXid (ckp : Checkpoint) (m : TransactionManager) : TransactionManager :=
  if FirstNormalTransactionId ≤ ckp.nextXid then { m with nextXid := ckp.nextXid } else m

def restoreTransactions (ckp : Checkpoint) : TxnM Unit := do
  Prog.modify (restoreNextXid ckp)
  restoreClog ckp
  Prog.modify TransactionManager.rebuildActiveFromClog
  Prog.modify TransactionManager.resetContext

def restore (ckp : Checkpoint) : EngineM Unit := do
  Prog.modify fun e => { e with walSeq := ckp.lastSeq }
  let isOld ← inCatalog (restoreCatalog ckp)
  Prog.forEach (restoreTable ckp isOld) ckp.tables
  inTxn (restoreTransactions ckp)

/-- The records that `load` replays; the log writer has then seen the whole log. -/
def openLog (fromSeq : Int64) : EngineM (List WALRecordV3) := do
  let e ← Prog.get
  let (records, w) := e.wal.replay e.dir.disk fromSeq
  Prog.set { e with wal := w }
  pure records

def load : EngineM Unit := do
  let e ← Prog.get
  let ckp := CheckpointManager.load e.dir.disk.checkpointBin e.dir.disk.checkpointJson
  restore ckp
  let records ← openLog ckp.lastSeq
  Prog.forEach replayRecord records

def save : EngineM Unit := checkpoint

/-- The log file is closed after a last checkpoint. -/
def close : EngineM Unit := checkpoint

end StorageEngine
end JiaMiaoDB
