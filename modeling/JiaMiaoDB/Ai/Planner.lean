import JiaMiaoDB.Sql.Expression
import JiaMiaoDB.Storage.Recovery

/-! From a statement and a strategy text to a pipeline. Strategies come from the WHERE clause and the
indexes, or from the recorded history, which may hold any text. -/

set_option autoImplicit false

namespace JiaMiaoDB
namespace AIPlanner

/-- The printed literal that a conjunct of the clause equates with the column; the empty text when
there is none. -/
def extractEqValue : Expression → Str → Str
  | .binary .eq (.columnRef name) (.literal v), column =>
    if name = column then valueToString v else []
  | .binary .and left right, column =>
    if extractEqValue left column ≠ [] then extractEqValue left column
    else extractEqValue right column
  | _, _ => []

def extractWhereColumns : Expression → List Str
  | .columnRef name => [name]
  | .binary _ left right => extractWhereColumns left ++ extractWhereColumns right
  | .not expr => extractWhereColumns expr
  | .literal _ => []

def indexScanPrefix : Str := str "index_scan:"

def chooseInitialStrategy (e : StorageEngine) : Statement → Str
  | .select s =>
    match (s.filter.elim [] extractWhereColumns).find? (e.hasIndex s.fromTable) with
    | some col => indexScanPrefix ++ col
    | none => str "full_scan"
  | .insert _ => str "insert"
  | .update s => if s.filter.isSome then str "update_with_where" else str "update"
  | .delete s => if s.filter.isSome then str "delete_with_where" else str "delete"

/-- The source of a SELECT: an index lookup needs the strategy and a value from the clause. The value
is the printed literal, taken as a string. -/
def selectSource (s : SelectStmt) (strategy : Str) : PipelineOp :=
  if indexScanPrefix.isPrefixOf strategy then
    let col := strategy.drop indexScanPrefix.length
    let eqVal := s.filter.elim [] fun expr => extractEqValue expr col
    if eqVal ≠ [] then .indexScan s.fromTable col (.string eqVal) else .scan s.fromTable
  else .scan s.fromTable

/-- A row of VALUES: surplus values and surplus columns are dropped. -/
def insertRow (columns : List Str) (values : List Value) : Row :=
  (columns.zip values).foldl (fun row p => row.insert p.1 p.2) ∅

/-- The assignments whose right side is a literal; the others are dropped. -/
def literalUpdates (sets : StrMap Expression) : Updates :=
  sets.filterMap fun _ expr => match expr with
    | .literal v => some v
    | _ => none

def buildPipeline (e : StorageEngine) (ast : Statement) (strategy : Str) : Pipeline :=
  match ast with
  | .select s =>
    [selectSource s strategy] ++ (s.filter.elim [] fun expr => [.filter expr]) ++
      (if s.columns.isEmpty then [] else [.project s.columns])
  | .insert s =>
    let columns :=
      if s.columns.isEmpty then ((e.getSchema s.table).elim [] (·.columns)).map (·.name)
      else s.columns
    [.insert s.table (s.values.map (insertRow columns))]
  | .update s => [.update s.table s.filter (literalUpdates s.sets)]
  | .delete s => [.delete s.table s.filter]

end AIPlanner
end JiaMiaoDB
