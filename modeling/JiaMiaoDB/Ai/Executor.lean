import JiaMiaoDB.Ai.Planner

/-! Running a pipeline. An exception becomes the message of an empty result. -/

set_option autoImplicit false

namespace JiaMiaoDB
namespace PipelineExecutor

def project (columns : List Str) (row : Row) : Row :=
  columns.foldl (fun r col => match row[col]? with
    | some v => r.insert col v
    | none => r) ∅

/-- The columns of the first row that do not start with an underscore. -/
def resultColumns (rows : RowSet) : List Str :=
  match rows with
  | [] => []
  | row :: _ => row.keys.filter fun k => k.head?.any (· ≠ 95)

/-- One operator of the data flow on the rows so far. -/
def stepOp (e : StorageEngine) (r : StorageEngine.Reader) (rows : RowSet) :
    PipelineOp → Except Failure RowSet
  | .scan table => e.scanWithSnapshot table r.snap r.xid r.cid
  | .indexScan table column value =>
    e.indexLookupWithSnapshot table column value r.snap r.xid r.cid
  | .filter expr => .ok (rows.filter (passes (some expr)))
  | .project columns => .ok (rows.map (project columns))
  | _ => .ok rows

/-- Each statement reads a new snapshot, or the transaction's own above READ COMMITTED. -/
def statementReader : EngineM StorageEngine.Reader := do
  let e ← Prog.get
  if e.txnMgr.context.isolation = .readCommitted ∨ ¬ e.txnMgr.isInTransaction then pure e.reader
  else do
    let snap ← StorageEngine.inTxn TransactionManager.getTransactionSnapshot
    pure { e.reader with snap := snap }

def countMessage (verb : String) (count : Nat) : Str :=
  str verb ++ intToString count ++ str " 行"

def executeStandalone : PipelineOp → EngineM ResultSet
  | .insert table rows => do
    Prog.forEach (fun row => do let _ ← StorageEngine.insertWithTxn table row) rows
    pure ⟨[], [], Int64.ofNat rows.length, countMessage "插入 " rows.length⟩
  | .update table filter values => do
    let count ← StorageEngine.updateWithTxn table (passes filter) values
    pure ⟨[], [], Int64.ofNat count, countMessage "更新 " count⟩
  | .delete table filter => do
    let count ← StorageEngine.removeWithTxn table (passes filter)
    pure ⟨[], [], Int64.ofNat count, countMessage "删除 " count⟩
  | _ => pure ⟨[], [], 0, str "未知操作"⟩

def executePipeline (pipeline : Pipeline) : EngineM ResultSet :=
  match pipeline with
  | [] => pure ⟨[], [], 0, str "空流水线"⟩
  | .insert table rows :: _ => executeStandalone (.insert table rows)
  | .update table filter values :: _ => executeStandalone (.update table filter values)
  | .delete table filter :: _ => executeStandalone (.delete table filter)
  | pipeline => do
    let r ← statementReader
    let e ← Prog.get
    let rows ← Prog.ofExcept (pipeline.foldlM (stepOp e r) [])
    pure ⟨resultColumns rows, rows, 0, []⟩

def errorResult (f : Failure) : ResultSet := ⟨[], [], 0, str "执行错误: " ++ f.what⟩

/-- Undefined behaviour is no exception and is not caught. -/
def catchFailure (f : Failure) : EngineM ResultSet :=
  if f = .undefined then Prog.throw f else pure (errorResult f)

/-- The statement's plan for the strategy, run with its exceptions caught. -/
def execute (ast : Statement) (strategy : Str) : EngineM ResultSet := do
  let e ← Prog.get
  Prog.tryCatch (executePipeline (AIPlanner.buildPipeline e ast strategy)) catchFailure

end PipelineExecutor
end JiaMiaoDB
