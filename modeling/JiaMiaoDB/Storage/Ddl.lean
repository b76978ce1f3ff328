import JiaMiaoDB.Storage.Dml

/-! Databases, schemas, users, tables and vacuum. -/

set_option autoImplicit false

namespace JiaMiaoDB
open BinaryRowCodec

namespace StorageEngine

/-- A catalog call and its log record. -/
def catalogBody (call : CatalogM Unit) (op : WalOp) (name : Str) (payload : Bytes) :
    EngineM Unit := do
  inCatalog call
  writeWal op name payload InvalidTransactionId

def createDatabaseBody (name : Str) : EngineM Unit :=
  catalogBody (Catalog.createDatabase name) .createDatabase name walEncodeEmpty

def createDatabase (name : Str) : EngineM Unit := thenCheckpoint (createDatabaseBody name)

def eraseTable (qualified : Str) (e : StorageEngine) : StorageEngine :=
  { e with
    tables := e.tables.erase qualified
    data := e.data.erase qualified
    rowIds := e.rowIds.erase qualified
    indexes := e.indexes.erase qualified }

/-- The tables of the database go with it. -/
def dropDatabaseBody (name : Str) : EngineM Unit := do
  inCatalog (Catalog.dropDatabase name)
  Prog.modify fun e =>
    (e.tables.keys.filter fun t => (name ++ str ".").isPrefixOf t).foldl (fun e t => eraseTable t e) e
  writeWal .dropDatabase name walEncodeEmpty InvalidTransactionId

def dropDatabase (name : Str) : EngineM Unit := thenCheckpoint (dropDatabaseBody name)

def createSchemaBody (dbName schemaName : Str) : EngineM Unit :=
  catalogBody (Catalog.createSchema dbName schemaName) .createSchema dbName
    (walEncodeCreateSchema schemaName)

def createSchema (dbName schemaName : Str) : EngineM Unit :=
  thenCheckpoint (createSchemaBody dbName schemaName)

/-- The password does not go to the log. -/
def createUserBody (name password salt : Str) : EngineM Unit :=
  catalogBody (Catalog.createUser name password salt) .createUser name walEncodeEmpty

def createUser (name password salt : Str) : EngineM Unit :=
  thenCheckpoint (createUserBody name password salt)

def dropUserBody (name : Str) : EngineM Unit :=
  catalogBody (Catalog.dropUser name) .dropUser name walEncodeEmpty

def dropUser (name : Str) : EngineM Unit := thenCheckpoint (dropUserBody name)

def setCurrentDb (name : Str) : EngineM Unit := inCatalog (Catalog.setCurrentDatabase name)

/-- An empty table in place of whatever stood under the name. -/
def resetTable (qualified : Str) (columns : List ColumnDef) (e : StorageEngine) : StorageEngine :=
  { e with
    tables := e.tables.insert qualified ⟨qualified, columns, 0⟩
    data := e.data.insert qualified (MemTable.create qualified)
    rowIds := e.rowIds.insert qualified 0
    indexes := e.indexes.insert qualified [] }

/-- Every primary key column gets an index. -/
def createKeyIndexes (qualified : Str) (columns : List ColumnDef) : EngineM Unit :=
  Prog.forEach (fun c => if c.primaryKey then createIndex qualified c.name else pure ()) columns

def createTableBody (name : Str) (columns : List ColumnDef) : EngineM Unit := do
  let e ← Prog.get
  let qualified := e.resolveTableName name
  if e.tables.contains qualified then
    Prog.throw (.runtimeError (str "表 \"" ++ name ++ str "\" 已存在"))
  else do
    writeWal .createTable qualified (walEncodeCreateTable columns) InvalidTransactionId
    Prog.modify (resetTable qualified columns)
    createKeyIndexes qualified columns

def createTable (name : Str) (columns : List ColumnDef) : EngineM Unit :=
  thenCheckpoint (createTableBody name columns)

def dropTableBody (name : Str) : EngineM Unit := do
  let e ← Prog.get
  let qualified := e.resolveTableName name
  if e.tables.contains qualified then do
    writeWal .dropTable qualified walEncodeEmpty InvalidTransactionId
    Prog.modify (eraseTable qualified)
  else Prog.throw (noTable name)

def dropTable (name : Str) : EngineM Unit := thenCheckpoint (dropTableBody name)

/-- The qualified name is looked up first, then the name as it is. -/
def getSchema (e : StorageEngine) (name : Str) : Option TableSchema :=
  e.tables[e.resolveTableName name]? <|> e.tables[name]?

/-! ### Vacuum -/

inductive VacuumVerdict where
  | keep | erase | freeze
deriving DecidableEq

/-- What becomes of a version below the oldest active transaction. -/
def vacuumVerdict (clog : CLog) (oldest xmin xmax : TransactionId) : VacuumVerdict :=
  if oldest ≤ xmin ∧ xmin ≠ FrozenTransactionId then .keep
  else if xmax ≠ 0 ∧ oldest ≤ xmax then .keep
  else if clog.getStatus xmin = .aborted then .erase
  else if clog.getStatus xmin = .committed ∧ xmax ≠ 0 ∧ clog.getStatus xmax = .committed then .erase
  else if clog.getStatus xmin = .committed ∧ xmin ≠ FrozenTransactionId then .freeze
  else .keep

/-- The row ids with the verdict, sorted and each once. -/
def vacuumIds (verdicts : List (Int64 × VacuumVerdict)) (verdict : VacuumVerdict) : List Int64 :=
  ((verdicts.filter (·.2 = verdict)).foldl
    (fun (s : Std.ExtTreeSet Int64 compare) p => s.insert p.1) ∅).toList

/-- The newest version comes back with the frozen xid. -/
def freezeRow (qualified : Str) (rowId : Int64) : EngineM Unit := do
  let e ← Prog.get
  match e.data[qualified]?.bind (·.getLatest rowId) with
  | none => pure ()
  | some t => do
    let row ← Prog.ofExcept (toRow t)
    let row := row.insert (str "_xmin") (.int FrozenTransactionId.toUInt64.toInt64)
    eraseVersions qualified rowId
    putVersion qualified rowId row

def vacuumTable (oldest : TransactionId) (qualified : Str) : EngineM Nat := do
  let e ← Prog.get
  match e.data[qualified]? with
  | none => pure 0
  | some m => do
    let rows ← Prog.ofExcept (materializeAll m)
    let verdicts := rows.map fun row => (rowIdOf row, vacuumVerdict e.txnMgr.clog oldest
      (headerField row (str "_xmin")) (headerField row (str "_xmax")))
    let toErase := vacuumIds verdicts .erase
    Prog.forEach (eraseVersions qualified) toErase
    Prog.forEach (freezeRow qualified) (vacuumIds verdicts .freeze)
    Prog.modify (setRowCount qualified)
    let e' ← Prog.get
    rebuildIf ((e'.data[qualified]?.map MemTable.size) ≠ some m.size) qualified
    pure toErase.length

def vacuum : EngineM Nat := do
  let e ← Prog.get
  let cleaned ← Prog.sumEach (vacuumTable e.txnMgr.getOldestActiveXid) e.data.keys
  inTxn (Prog.modify TransactionManager.maybeAntiWraparound)
  pure cleaned

end StorageEngine
end JiaMiaoDB
