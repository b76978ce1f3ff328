import JiaMiaoDB.Ai.Executor
import JiaMiaoDB.Storage.ManagerInvariants

/-! What the server does with one statement of a request. A statement that throws ends its request and
leaves behind what it had done. -/

set_option autoImplicit false

namespace JiaMiaoDB
open StorageEngine

inductive ServerStatement where
  | beginTransaction
  | commitTransaction
  | rollbackTransaction
  | createTable (name : Str) (columns : List ColumnDef)
  | dropTable (name : Str)
  | createDatabase (name : Str)
  | dropDatabase (name : Str)
  | createSchema (name : Str)
  | createUser (name password salt : Str)
  | dropUser (name : Str)
  | useDatabase (name : Str)
  | query (ast : Statement) (strategy : Str)

namespace JiamiaoDBServer

/-- The record is written before the manager decides whether the transaction may commit. -/
def commitTransaction : EngineM Unit := do
  let e ← Prog.get
  let xid := e.txnMgr.context.xid
  if xid ≠ InvalidTransactionId then writeXactCommit xid else pure ()
  inTxn TransactionManager.commitTransaction
  inTxn (Prog.modify TransactionManager.resetContext)

def rollbackTransaction : EngineM Unit := do
  let e ← Prog.get
  let xid := e.txnMgr.context.xid
  if xid ≠ InvalidTransactionId then writeXactAbort xid else pure ()
  applyUndo
  inTxn (Prog.modify TransactionManager.abortTransaction)
  inTxn (Prog.modify TransactionManager.resetContext)

/-- A statement that reads or changes rows, inside a block or as a transaction of its own. -/
def query (ast : Statement) (strategy : Str) : EngineM ResultSet := do
  inTxn (Prog.modify TransactionManager.startTransactionCommand)
  let result ← PipelineExecutor.execute ast strategy
  inTxn TransactionManager.commitTransactionCommand
  pure result

end JiamiaoDBServer

def ServerStatement.run : ServerStatement → EngineM Unit
  | beginTransaction => inTxn TransactionManager.beginTransactionBlock
  | commitTransaction => JiamiaoDBServer.commitTransaction
  | rollbackTransaction => JiamiaoDBServer.rollbackTransaction
  | createTable name columns => StorageEngine.createTable name columns
  | dropTable name => StorageEngine.dropTable name
  | createDatabase name => StorageEngine.createDatabase name
  | dropDatabase name => StorageEngine.dropDatabase name
  | createSchema name => do
    let e ← Prog.get
    StorageEngine.createSchema e.catalog.currentDb name
  | createUser name password salt => StorageEngine.createUser name password salt
  | dropUser name => StorageEngine.dropUser name
  | useDatabase name => setCurrentDb name
  | query ast strategy => do
    let _ ← JiamiaoDBServer.query ast strategy
    pure ()

/-! ### What the statements keep -/

/-- The calls that neither reach the manager directly nor record a commit. -/
def Call.data : Call → Bool
  | .txn _ | .writeXactCommit _ => false
  | _ => true

/-- Kept by the calls that the statements are made of, apart from the record of a commit. -/
structure StatementInvariant (K : StorageEngine → Prop) : Prop where
  manager : ∀ c : ManagerCall, c.regular = true → Prog.Keeps K (inTxn c.run)
  data : ∀ c : Call, c.data = true → Prog.Keeps K c.exec

theorem Prog.Keeps.of_discard {K : StorageEngine → Prop} {α : Type} {p : EngineM α}
    (h : Prog.Keeps K (Call.discard p)) : Prog.Keeps K p := by
  refine Prog.Keeps.of_final fun e he => ?_
  have hfinal := h.final he
  unfold Call.discard at hfinal
  rcases hrun : p.run e with ⟨f | a, e'⟩
  · rw [Prog.bind_error hrun] at hfinal
    exact hfinal
  · rw [Prog.bind_ok hrun] at hfinal
    exact hfinal

theorem inTxn_discard {α : Type} (p : TxnM α) :
    inTxn (ManagerCall.discard p) = Call.discard (inTxn p) := by
  ext1 e
  have hzoom {β : Type} (q : TxnM β) :
      (inTxn q).run e = ((q.run e.txnMgr).1, e.setTxnMgr (q.run e.txnMgr).2) := rfl
  unfold Call.discard ManagerCall.discard
  rcases hrun : p.run e.txnMgr with ⟨f | a, m⟩
  · rw [hzoom, Prog.bind_error hrun, Prog.bind_error (by rw [hzoom, hrun])]
  · rw [hzoom, Prog.bind_ok hrun, Prog.bind_ok (by rw [hzoom, hrun])]
    rfl

namespace StatementInvariant
variable {K : StorageEngine → Prop} (h : StatementInvariant K)
include h

theorem keeps_executeStandalone (op : PipelineOp) :
    Prog.Keeps K (PipelineExecutor.executeStandalone op) := by
  cases op with
  | insert table rows =>
    refine (Prog.Keeps.forEach fun row _ => ?_).bind fun _ => Prog.Keeps.pure _
    exact h.data (.insertWithTxn table row) rfl
  | update table filter values =>
    refine Prog.Keeps.bind ?_ fun _ => Prog.Keeps.pure _
    exact Prog.Keeps.of_discard (h.data (.updateWithTxn table (passes filter) values) rfl)
  | delete table filter =>
    refine Prog.Keeps.bind ?_ fun _ => Prog.Keeps.pure _
    exact Prog.Keeps.of_discard (h.data (.removeWithTxn table (passes filter)) rfl)
  | _ => exact Prog.Keeps.pure _

theorem keeps_statementReader : Prog.Keeps K PipelineExecutor.statementReader := by
  refine Prog.Keeps.get.bind fun e => Prog.Keeps.ite (fun _ => Prog.Keeps.pure _) fun _ => ?_
  refine Prog.Keeps.bind ?_ fun _ => Prog.Keeps.pure _
  apply Prog.Keeps.of_discard
  rw [← inTxn_discard]
  exact h.manager .getTransactionSnapshot rfl

theorem keeps_executePipeline (pipeline : Pipeline) :
    Prog.Keeps K (PipelineExecutor.executePipeline pipeline) := by
  unfold PipelineExecutor.executePipeline
  split
  · exact Prog.Keeps.pure _
  · exact h.keeps_executeStandalone _
  · exact h.keeps_executeStandalone _
  · exact h.keeps_executeStandalone _
  · exact h.keeps_statementReader.bind fun _ => Prog.Keeps.get.bind fun _ =>
      (Prog.Keeps.ofExcept _).bind fun _ => Prog.Keeps.pure _

theorem keeps_execute (ast : Statement) (strategy : Str) :
    Prog.Keeps K (PipelineExecutor.execute ast strategy) := by
  refine Prog.Keeps.get.bind fun e => (h.keeps_executePipeline _).tryCatch fun f => ?_
  exact Prog.Keeps.ite (fun _ => Prog.Keeps.throw f) fun _ => Prog.Keeps.pure _

theorem keeps_query (ast : Statement) (strategy : Str) :
    Prog.Keeps K (JiamiaoDBServer.query ast strategy) :=
  (h.manager .startTransactionCommand rfl).bind fun _ => (h.keeps_execute ast strategy).bind fun _ =>
    (h.manager .commitTransactionCommand rfl).bind fun _ => Prog.Keeps.pure _

theorem keeps_rollbackTransaction : Prog.Keeps K JiamiaoDBServer.rollbackTransaction := by
  have hundo : Prog.Keeps K (do
      applyUndo
      inTxn (Prog.modify TransactionManager.abortTransaction)
      inTxn (Prog.modify TransactionManager.resetContext)) :=
    (h.data .applyUndo rfl).bind fun _ =>
      (h.manager .abortTransaction rfl).bind fun _ => h.manager .resetContext rfl
  refine Prog.Keeps.get.bind fun e => Prog.Keeps.ite (fun _ => ?_) fun _ => hundo
  exact (h.data (.writeXactAbort _) rfl).bind fun _ => hundo

/-- Every statement but COMMIT keeps the invariant. -/
theorem keeps_run {s : ServerStatement} (hs : s ≠ .commitTransaction) : Prog.Keeps K s.run := by
  cases s with
  | beginTransaction => exact h.manager .beginTransactionBlock rfl
  | commitTransaction => exact absurd rfl hs
  | rollbackTransaction => exact h.keeps_rollbackTransaction
  | createTable name columns => exact h.data (.createTable name columns) rfl
  | dropTable name => exact h.data (.dropTable name) rfl
  | createDatabase name => exact h.data (.createDatabase name) rfl
  | dropDatabase name => exact h.data (.dropDatabase name) rfl
  | createSchema name => exact Prog.Keeps.get.bind fun e => h.data (.createSchema _ name) rfl
  | createUser name password salt => exact h.data (.createUser name password salt) rfl
  | dropUser name => exact h.data (.dropUser name) rfl
  | useDatabase name => exact h.data (.setCurrentDb name) rfl
  | query ast strategy => exact (h.keeps_query ast strategy).bind fun _ => Prog.Keeps.pure _

end StatementInvariant

end JiaMiaoDB
