import JiaMiaoDB.Storage.Engine
import JiaMiaoDB.Storage.WalPayload

/-!
# Rows: insert, scan, update, remove, undo and vacuum

Each call is the body of the source function with its order of effects: a call that throws keeps
what it had done before.
-/

set_option autoImplicit false

namespace JiaMiaoDB
open BinaryRowCodec

namespace StorageEngine

/-! ### Reading -/

/-- The versions of a table, or the exception of a table that does not exist. -/
def tableOf (e : StorageEngine) (table : Str) : Except Failure MemTable :=
  match e.data[e.resolveTableName table]? with
  | some m => .ok m
  | none => .error (noTable table)

def scan (e : StorageEngine) (table : Str) : Except Failure RowSet :=
  e.tableOf table >>= materializeAll

/-- The visible rows. The source moves a row away before it looks up its id, so that it registers no
read. -/
def scanWithSnapshot (e : StorageEngine) (table : Str) (snap : Snapshot) (xid : TransactionId)
    (cid : Int32) : Except Failure RowSet := do
  let rows ← e.scan table
  pure (rows.filter fun row => checkTupleVisibility row xid snap cid e.txnMgr.clog)

/-- The rows that an index lists under the key, in index order, each in its newest version. -/
def indexRows (e : StorageEngine) (table column : Str) (value : Value) : Except Failure RowSet :=
  match (e.indexes.getD (e.resolveTableName table) []).find? (·.column = column) with
  | none => .ok []
  | some idx =>
    match idx.entries[valueToString value]?, e.data[e.resolveTableName table]? with
    | some ids, some m => (ids.filterMap m.getLatest).mapM toRow
    | _, _ => .ok []

def indexLookup (e : StorageEngine) (table column : Str) (value : Value) : Except Failure RowSet :=
  e.indexRows table column value

def indexLookupWithSnapshot (e : StorageEngine) (table column : Str) (value : Value)
    (snap : Snapshot) (xid : TransactionId) (cid : Int32) : Except Failure RowSet := do
  let rows ← e.indexRows table column value
  pure (rows.filter fun row => checkTupleVisibility row xid snap cid e.txnMgr.clog)

/-- `operator[]` of a map of tables gives a null pointer for a table that is not there. -/
def dataAt (e : StorageEngine) (qualified : Str) : Except Failure MemTable :=
  match e.data[qualified]? with
  | some m => .ok m
  | none => .error .undefined

/-! ### Without a transaction -/

/-- What both inserts do with the finished row: log record, version, indexes and row count. -/
def storeInserted (qualified : Str) (id : Int64) (row : Row) (xid : TransactionId) :
    EngineM Unit := do
  writeWal .insert qualified (walEncodeInsert ⟨id, row⟩) xid
  putVersion qualified id row
  Prog.modify (updateIndexes qualified id row)
  Prog.modify (setRowCount qualified)

def insertBody (table : Str) (row : Row) : EngineM Row := do
  let e ← Prog.get
  let qualified := e.resolveTableName table
  match e.tables[qualified]? with
  | none => Prog.throw (noTable table)
  | some schema => do
    let validated ← Prog.ofExcept (e.validate schema row)
    let id ← nextRowId qualified
    let _ ← Prog.ofExcept (e.dataAt qualified)
    let validated := ((validated.insert (str "_rowid") (.int id)).insert
      (str "_xmax") (.int 0)).insert (str "_cid") (.int 0)
    storeInserted qualified id validated InvalidTransactionId
    pure validated

def insert (table : Str) (row : Row) : EngineM Row := thenCheckpoint (insertBody table row)

/-- One row of `update`: log record, then the new version in place of all older ones. -/
def updateRow (qualified : Str) (updates : Updates) (row : Row) : EngineM Unit := do
  let rowid ← Prog.ofExcept (getRowId row)
  let newRow := ((applyUpdates row updates).insert (str "_xmax") (.int 0)).insert
    (str "_cid") (.int 0)
  writeWal .update qualified (walEncodeUpdate ⟨rowid, updates, newRow⟩) InvalidTransactionId
  eraseVersions qualified rowid
  putVersion qualified rowid newRow

def updateBody (table : Str) (matches_ : Row → Bool) (updates : Updates) : EngineM Nat := do
  let e ← Prog.get
  let qualified := e.resolveTableName table
  let m ← Prog.ofExcept (e.tableOf table)
  let rows ← Prog.ofExcept (materializeAll m)
  let targets := rows.filter matches_
  Prog.forEach (updateRow qualified updates) targets
  rebuildIf (e.updatesAffectIndex qualified updates) qualified
  pure targets.length

def update (table : Str) (matches_ : Row → Bool) (updates : Updates) : EngineM Nat :=
  thenCheckpoint (updateBody table matches_ updates)

def logRemoved (qualified : Str) (row : Row) : EngineM Unit := do
  let rowid ← Prog.ofExcept (getRowId row)
  writeWal .delete qualified (walEncodeDelete ⟨rowid, none⟩) InvalidTransactionId

/-- A kept row goes into the new table `m` under a new sequence number. -/
def copyRow (qualified : Str) (m : MemTable) (row : Row) : EngineM MemTable := do
  let rowid ← Prog.ofExcept (getRowId row)
  let tup ← Prog.ofExcept (rowToTuple row (headerFromRow qualified rowid row))
  let seq ← nextSeq
  pure (m.put rowid tup seq.toUInt64)

/-- The table is built anew from the rows that stay. -/
def replaceTable (qualified : Str) (kept : RowSet) : EngineM Unit := do
  let m ← kept.foldlM (copyRow qualified) (MemTable.create qualified)
  Prog.modify (·.setTable qualified m)
  rebuildIndexes qualified

def removeRows (qualified : Str) (rows targets : RowSet) : EngineM Unit :=
  if targets.isEmpty then pure ()
  else replaceTable qualified (rows.filter fun row => rowIdOf row ∉ targets.map rowIdOf)

def removeBody (table : Str) (matches_ : Row → Bool) : EngineM Nat := do
  let e ← Prog.get
  let qualified := e.resolveTableName table
  let m ← Prog.ofExcept (e.tableOf table)
  let rows ← Prog.ofExcept (materializeAll m)
  let targets := rows.filter matches_
  Prog.forEach (logRemoved qualified) targets
  removeRows qualified rows targets
  Prog.modify (setRowCount qualified)
  pure targets.length

def remove (table : Str) (matches_ : Row → Bool) : EngineM Nat :=
  thenCheckpoint (removeBody table matches_)

/-! ### In a transaction -/

def duplicateKey (column : Str) : Failure :=
  .runtimeError (str "重复键值违反唯一约束 \"" ++ column ++ str "\"")

/-- Whether the row holds a value equal to `v` in the column. -/
def holdsValue (row : Row) (column : Str) (v : Value) : Bool := (row[column]?).any (·.eqv v)

/-- What a scanning statement reads with. -/
structure Reader where
  xid : TransactionId
  snap : Snapshot
  cid : Int32

def Reader.sees (r : Reader) (clog : CLog) (row : Row) : Bool :=
  checkTupleVisibility row r.xid r.snap r.cid clog

/-- The reader of the current transaction: its own xid, a new snapshot and its command id. -/
def reader (e : StorageEngine) : Reader :=
  ⟨e.txnMgr.context.xid, e.txnMgr.getSnapshot, e.txnMgr.context.commandId⟩

/-- A visible row must not hold `v`; its read is registered. -/
def checkUniqueTuple (qualified column : Str) (v : Value) (r : Reader) (t : Tuple) : TxnM Unit := do
  let existing ← Prog.ofExcept (toRow t)
  let m ← Prog.get
  if !r.sees m.clog existing then pure ()
  else if holdsValue existing column v then Prog.throw (duplicateKey column)
  else match existing[str "_rowid"]? with
    | some (.int rid) => Prog.modify (·.registerSiread ⟨qualified, rid⟩)
    | _ => pure ()

/-- The primary key check of an insert, column by column. -/
def checkUnique (qualified : Str) (columns : List ColumnDef) (row : Row) (r : Reader)
    (all : List Tuple) : TxnM Unit :=
  Prog.forEach (fun col =>
    if !col.primaryKey then pure ()
    else match row[col.name]? with
      | none => pure ()
      | some v => Prog.forEach (checkUniqueTuple qualified col.name v r) all) columns

def insertWithTxnBody (table : Str) (row : Row) : EngineM Row := do
  let e ← Prog.get
  let qualified := e.resolveTableName table
  match e.tables[qualified]? with
  | none => Prog.throw (noTable table)
  | some schema => do
    let validated ← Prog.ofExcept (e.validate schema row)
    let id ← nextRowId qualified
    let xid ← inTxn TransactionManager.assignXid
    let e ← Prog.get
    let validated := stamp (validated.insert (str "_rowid") (.int id)) xid 0 e.reader.cid
    let m ← Prog.ofExcept (e.dataAt qualified)
    inTxn (checkUnique qualified schema.columns validated e.reader m.scanAll)
    inTxn (Prog.modify (·.addUndoRecord ⟨.insert, qualified, id, ∅, validated⟩))
    storeInserted qualified id validated xid
    pure validated

def insertWithTxn (table : Str) (row : Row) : EngineM Row :=
  thenCheckpoint (insertWithTxnBody table row)

/-- No other visible row of the captured versions may hold `v`. -/
def checkOtherTuple (column : Str) (v : Value) (rowid : Int64) (r : Reader) (t : Tuple) :
    TxnM Unit := do
  let existing ← Prog.ofExcept (toRow t)
  let m ← Prog.get
  if !r.sees m.clog existing then pure ()
  else do
    let other ← Prog.ofExcept (getRowId existing)
    if other = rowid then pure ()
    else if holdsValue existing column v then Prog.throw (duplicateKey column)
    else pure ()

/-- The primary key check of an update: only the columns it assigns. -/
def checkUniqueUpdate (columns : List ColumnDef) (updates : Updates) (rowid : Int64) (r : Reader)
    (all : List Tuple) : TxnM Unit :=
  Prog.forEach (fun col =>
    if !col.primaryKey then pure ()
    else match updates[col.name]? with
      | none => pure ()
      | some v => Prog.forEach (checkOtherTuple col.name v rowid r) all) columns

/-- One row of `update_with_txn`; `all` are the versions at the start of the statement. -/
def updateRowWithTxn (qualified : Str) (updates : Updates) (r : Reader) (all : List Tuple)
    (row : Row) : EngineM Unit := do
  let rowid ← Prog.ofExcept (getRowId row)
  inTxn (Prog.modify (·.registerWrite ⟨qualified, rowid⟩))
  let newRow := stamp (applyUpdates row updates) r.xid 0 r.cid
  let e ← Prog.get
  let columns := (e.tables[qualified]?).elim [] (·.columns)
  inTxn (checkUniqueUpdate columns updates rowid r all)
  inTxn (Prog.modify (·.addUndoRecord ⟨.update, qualified, rowid, row, newRow⟩))
  writeWal .update qualified (walEncodeUpdate ⟨rowid, updates, newRow⟩) r.xid
  eraseVersions qualified rowid
  putVersion qualified rowid newRow

/-- Runs `body` on a captured version when it is visible and matches, and counts it. -/
def onVisible (r : Reader) (matches_ : Row → Bool) (body : Row → EngineM Unit) (t : Tuple) :
    EngineM Nat := do
  let row ← Prog.ofExcept (toRow t)
  let e ← Prog.get
  if r.sees e.txnMgr.clog row && matches_ row then do
    body row
    pure 1
  else pure 0

def updateWithTxnBody (table : Str) (matches_ : Row → Bool) (updates : Updates) :
    EngineM Nat := do
  let e ← Prog.get
  let qualified := e.resolveTableName table
  let m ← Prog.ofExcept (e.tableOf table)
  let _ ← inTxn TransactionManager.assignXid
  let e ← Prog.get
  let all := m.scanAll
  let count ← Prog.sumEach
    (onVisible e.reader matches_ (updateRowWithTxn qualified updates e.reader all)) all
  rebuildIf (e.updatesAffectIndex qualified updates) qualified
  pure count

def updateWithTxn (table : Str) (matches_ : Row → Bool) (updates : Updates) : EngineM Nat :=
  thenCheckpoint (updateWithTxnBody table matches_ updates)

/-- One row of `remove_with_txn`: a version with `xmax` set takes the place of the older ones. -/
def removeRowWithTxn (qualified : Str) (r : Reader) (row : Row) : EngineM Unit := do
  let rowid ← Prog.ofExcept (getRowId row)
  inTxn (Prog.modify (·.registerWrite ⟨qualified, rowid⟩))
  let tombstone := (row.insert (str "_xmax") (.int r.xid.toUInt64.toInt64)).insert
    (str "_cid") (.int r.cid.toInt64)
  inTxn (Prog.modify (·.addUndoRecord ⟨.delete, qualified, rowid, row, ∅⟩))
  eraseVersions qualified rowid
  putVersion qualified rowid tombstone
  writeWal .delete qualified (walEncodeDelete ⟨rowid, some r.xid⟩) r.xid

def removeWithTxnBody (table : Str) (matches_ : Row → Bool) : EngineM Nat := do
  let e ← Prog.get
  let qualified := e.resolveTableName table
  let m ← Prog.ofExcept (e.tableOf table)
  let _ ← inTxn TransactionManager.assignXid
  let e ← Prog.get
  let count ← Prog.sumEach
    (onVisible e.reader matches_ (removeRowWithTxn qualified e.reader)) m.scanAll
  pure count

def removeWithTxn (table : Str) (matches_ : Row → Bool) : EngineM Nat :=
  thenCheckpoint (removeWithTxnBody table matches_)

/-! ### Undo and the outcome of a transaction -/

/-- All versions of the row go; the row of an update or a delete comes back as it was. -/
def applyUndoRecord (rec_ : UndoRecord) : EngineM Unit := do
  let e ← Prog.get
  match e.data[rec_.tableName]? with
  | none => pure ()
  | some _ => do
    eraseVersions rec_.tableName rec_.rowId
    if rec_.op = .insert ∨ rec_.oldRow.isEmpty then pure ()
    else putVersion rec_.tableName rec_.rowId rec_.oldRow

/-- Undoes the last `count` records, the newest first, then rebuilds the indexes of their tables. -/
def applyUndoTo (count : Nat) : EngineM Unit := do
  let e ← Prog.get
  let records := e.txnMgr.context.undoRecords
  let last := (records.drop (records.length - count)).reverse
  Prog.forEach applyUndoRecord last
  Prog.forEach (fun r => rebuildIndexes r.tableName) last

def applyUndo : EngineM Unit := do
  let e ← Prog.get
  applyUndoTo e.txnMgr.context.undoRecords.length

def writeXactCommit (xid : TransactionId) : EngineM Unit :=
  writeWal .xactCommit [] walEncodeEmpty xid

def writeXactAbort (xid : TransactionId) : EngineM Unit :=
  writeWal .xactAbort [] walEncodeEmpty xid

end StorageEngine
end JiaMiaoDB
