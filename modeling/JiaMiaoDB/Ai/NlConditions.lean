import JiaMiaoDB.Ai.NlParser
import JiaMiaoDB.Ai.PlanEquivalence
import JiaMiaoDB.Storage.RowWrites
import JiaMiaoDB.Storage.WalSequence

/-!
# What the language model asked for

The prompt gives the model a format for conditions and assignments. A statement made from an answer is
faithful when it touches the rows that the condition of the answer describes. Since no condition is
ever read, it is faithful only where the condition leaves no visible row out.
-/

set_option autoImplicit false

namespace JiaMiaoDB
open StorageEngine PipelineExecutor AIPlanner

/-! ### The format of the prompt -/

namespace NLParser

def operatorOf (name : Str) : Option BinaryOp :=
  if name = str "=" then some .eq
  else if name = str "!=" then some .ne
  else if name = str "<" then some .lt
  else if name = str ">" then some .gt
  else if name = str "AND" then some .and
  else if name = str "OR" then some .or
  else none

/-- The expression of an object whose members mean `subs`. -/
def nodeOf (j : Json) (subs : List (Str × Option Expression)) : Option Expression :=
  let kind := j.valueString (str "type") []
  if kind = str "literal" then .literal <$> (literalValue (j.get (str "value"))).toOption
  else if kind = str "column_ref" then .columnRef <$> (j.get (str "name")).getString.toOption
  else if kind = str "binary_op" then do
    let op ← operatorOf (j.valueString (str "op") [])
    let left ← (subs.lookup (str "left")).join
    let right ← (subs.lookup (str "right")).join
    pure (.binary op left right)
  else none

mutual

def exprOf : Json → Option Expression
  | .object ms => nodeOf (.object ms) (exprsOf ms)
  | _ => none

def exprsOf : List (Str × Json) → List (Str × Option Expression)
  | [] => []
  | (key, j) :: ms => (key, exprOf j) :: exprsOf ms

end

/-- The condition of an operation: a missing one lets every row pass, and one that is not of the format
has no meaning. -/
def conditionOf (op : Json) : Option (Option Expression) :=
  match op.get (str "where") with
  | .null => some none
  | j => some <$> exprOf j

/-- One entry of `sets`. -/
def addAssignment (sets : StrMap Expression) (j : Json) : Option (StrMap Expression) := do
  let column ← (j.get (str "column")).getString.toOption
  let value ← exprOf (j.get (str "value"))
  pure (sets.insert column value)

def assignmentsOf (op : Json) : Option (StrMap Expression) :=
  match op.get (str "sets") with
  | .null => some ∅
  | .array entries => entries.foldlM addAssignment ∅
  | _ => none

/-- The operation that the parser finds in the answer. -/
def operationIn (response : Str) : Except Failure Json := do
  let j ← Json.parse response
  match ← responseContent j with
  | none => .error .undefined
  | some content =>
    match extractObject (stripThinking content.length content) with
    | none => .error .undefined
    | some text => (·.get (str "operation")) <$> Json.parse text

end NLParser

/-! ### The rows that a statement touches -/

/-- A statement that reads, changes or removes rows. -/
inductive RowStatement where
  | select (s : SelectStmt)
  | update (s : UpdateStmt)
  | delete (s : DeleteStmt)

namespace RowStatement

def statement : RowStatement → Statement
  | select s => .select s
  | update s => .update s
  | delete s => .delete s

def table : RowStatement → Str
  | select s => s.fromTable
  | update s => s.table
  | delete s => s.table

def filter : RowStatement → Option Expression
  | select s => s.filter
  | update s => s.filter
  | delete s => s.filter

/-- The assignments; none where there is no UPDATE. -/
def assigns : RowStatement → Option (StrMap Expression)
  | update s => some s.sets
  | _ => none

/-- The reader of a statement that writes. -/
def assignedReader : EngineM Reader := do
  let _ ← inTxn TransactionManager.assignXid
  let e ← Prog.get
  pure e.reader

/-- What happens before the rows are gone over. -/
def start : RowStatement → EngineM Reader
  | select _ => statementReader
  | update _ => assignedReader
  | delete _ => assignedReader

/-- A run from `e` has read, changed or removed these rows and no others, and its result tells so. -/
def Effect (r : Reader) (rows : RowSet) (e : StorageEngine) (rs : ResultSet) (e' : StorageEngine) :
    RowStatement → Prop
  | select s => rs.rows = rows.map (projection s) ∧ e' = e
  | update s => rs.affectedRows = Int64.ofNat rows.length ∧
      (RowWrite.update r (literalUpdates s.sets)).Wrote (e.resolveTableName s.table) rows e e'
  | delete s => rs.affectedRows = Int64.ofNat rows.length ∧
      (RowWrite.delete r).Wrote (e.resolveTableName s.table) rows e e'

/-- Of some of the rows and all of them, only one list can be the rows of the run. -/
theorem Effect.rows_eq {r : Reader} {rows rows' : RowSet} {e e' : StorageEngine} {rs : ResultSet}
    {s : RowStatement} (h : s.Effect r rows e rs e') (h' : s.Effect r rows' e rs e')
    (hsub : rows'.Sublist rows) : rows' = rows := by
  cases s with
  | select s =>
    have hlength := congrArg List.length (h'.1.symm.trans h.1)
    rw [List.length_map, List.length_map] at hlength
    exact hsub.eq_of_length hlength
  | update s => exact h'.2.rows_eq h.2
  | delete s => exact h'.2.rows_eq h.2

end RowStatement

/-- The rows of the table that the reader sees and the clause lets pass. -/
def StorageEngine.touched (e : StorageEngine) (r : Reader) (table : Str)
    (filter : Option Expression) : Except Failure RowSet :=
  (·.filter fun row => r.sees e.txnMgr.clog row && passes filter row) <$> e.scan table

theorem StorageEngine.touched_sublist {e : StorageEngine} {r : Reader} {table : Str}
    {filter : Option Expression} {rows rows' : RowSet} (h : e.touched r table none = .ok rows)
    (h' : e.touched r table filter = .ok rows') : rows'.Sublist rows := by
  unfold touched at h h'
  cases hscan : e.scan table with
  | error f =>
    rw [hscan] at h
    cases h
  | ok all =>
    rw [hscan] at h h'
    cases h
    cases h'
    refine List.monotone_filter_right all fun row hrow => ?_
    rw [Bool.and_eq_true] at hrow
    rw [hrow.1]
    rfl

/-- A clause makes no difference exactly where it lets pass every row that is touched without it. -/
theorem StorageEngine.touched_eq_iff (e : StorageEngine) (r : Reader) (table : Str)
    (filter : Option Expression) :
    e.touched r table none = e.touched r table filter ↔
      ∀ rows, e.touched r table none = .ok rows → ∀ row ∈ rows, passes filter row = true := by
  unfold touched
  cases e.scan table with
  | error f => exact .intro (fun _ _ h => nomatch h) fun _ => rfl
  | ok all =>
    constructor
    · intro h rows hrows row hrow
      rw [h] at hrows
      cases hrows
      exact (Bool.and_eq_true_iff.1 (List.mem_filter.1 hrow).2).2
    · intro h
      refine congrArg Except.ok (List.filter_congr fun row hrow => ?_)
      cases hsees : r.sees e.txnMgr.clog row with
      | false => rfl
      | true =>
        have hmem : row ∈ all.filter fun row => r.sees e.txnMgr.clog row && passes none row := by
          refine List.mem_filter.2 ⟨hrow, ?_⟩
          rw [hsees]
          rfl
        rw [h _ rfl row hmem]
        rfl

theorem answer_scan (e : StorageEngine) (r : Reader) (s : SelectStmt) :
    answer s <$> stepOp e r [] (.scan s.fromTable) =
      (·.map (projection s)) <$> e.touched r s.fromTable s.filter := by
  change answer s <$> e.scanWithSnapshot s.fromTable r.snap r.xid r.cid = _
  unfold scanWithSnapshot touched
  cases e.scan s.fromTable with
  | error f => rfl
  | ok rows =>
    change Except.ok (List.map (projection s) (List.filter (passes s.filter) (List.filter _ rows))) =
      Except.ok (List.map (projection s) (List.filter _ rows))
    rw [List.filter_filter]
    congr 2
    exact List.filter_congr fun row _ => Bool.and_comm _ _

/-- A SELECT without a clause answers with the rows it touches, whatever the strategy says. -/
theorem run_select {e e₁ : StorageEngine} {r : Reader} {s : SelectStmt} (hs : s.filter = none)
    (strategy : Str) (hr : statementReader.run e = (.ok r, e₁)) :
    (executePipeline (buildPipeline e (.select s) strategy)).run e =
      match (·.map (projection s)) <$> e₁.touched r s.fromTable s.filter with
      | .ok rows => (.ok ⟨resultColumns rows, rows, 0, []⟩, e₁)
      | .error f => (.error f, e₁) := by
  have hsource : selectSource s strategy = .scan s.fromTable := by
    rcases selectSource_cases s strategy with h | ⟨expr, col, hfilter, -, -⟩
    · exact h
    · rw [hs] at hfilter
      cases hfilter
  rw [run_executePipeline s strategy hr, hsource, answer_scan]
  rfl

section Written
variable {e e₁ e' : StorageEngine} {xid : TransactionId} {n : Nat} {table : Str}
  {filter : Option Expression} {w : RowWrite}

theorem assign_eq (hassign : (inTxn TransactionManager.assignXid).run e = (.ok xid, e₁)) :
    e₁ = { e with txnMgr := e₁.txnMgr } := by
  have h : e₁ = ((inTxn TransactionManager.assignXid).run e).2 := (congrArg Prod.snd hassign).symm
  rw [h]
  rfl

theorem run_assignedReader (hassign : (inTxn TransactionManager.assignXid).run e = (.ok xid, e₁)) :
    RowStatement.assignedReader.run e = (.ok e₁.reader, e₁) := by
  rw [RowStatement.assignedReader, Prog.bind_ok hassign]
  rfl

theorem resolve_assign (hassign : (inTxn TransactionManager.assignXid).run e = (.ok xid, e₁)) (table : Str) :
    e₁.resolveTableName table = e.resolveTableName table := by
  rw [assign_eq hassign]
  rfl

theorem tableOf_assign (hassign : (inTxn TransactionManager.assignXid).run e = (.ok xid, e₁)) :
    e₁.tableOf table = e.tableOf table := by
  rw [assign_eq hassign]
  rfl

/-- The statement has gone through its table. -/
theorem touched_of_through {r : Reader} {m : MemTable} {q : Str} (htable : e.tableOf table = .ok m)
    (h : w.Through q (fun row => r.sees e.txnMgr.clog row && passes filter row) e m.scanAll n e') :
    ∃ rows, e.touched r table filter = .ok rows ∧ n = rows.length ∧ w.Writing q rows e e' := by
  obtain ⟨rows, hrows, hwriting, hn⟩ := h
  have hscan : e.scan table = .ok rows := by
    rw [StorageEngine.scan, htable]
    exact hrows
  refine ⟨_, ?_, hn, hwriting⟩
  rw [touched, hscan]
  rfl

/-- What a DELETE that ends without an error leaves behind. -/
theorem wrote_removeWithTxn (h : (removeWithTxn table (passes filter)).run e = (.ok n, e')) :
    ∃ e₁ rows, RowStatement.assignedReader.run e = (.ok e₁.reader, e₁) ∧
      e₁.touched e₁.reader table filter = .ok rows ∧ n = rows.length ∧
      (RowWrite.delete e₁.reader).Wrote (e₁.resolveTableName table) rows e₁ e' := by
  obtain ⟨k, e₂, hbody, hend⟩ := Prog.exists_of_bind_ok h
  obtain ⟨⟨⟩, e₃, hcheckpoint, hpure⟩ := Prog.exists_of_bind_ok hend
  cases hpure
  rw [removeWithTxnBody, Prog.bind_ok (Prog.run_get e)] at hbody
  obtain ⟨m, e₀, htable, hbody⟩ := Prog.exists_of_bind_ok hbody
  obtain ⟨htable, rfl⟩ := Prog.eq_of_ofExcept_ok htable
  obtain ⟨xid, e₁, hassign, hloop⟩ := Prog.exists_of_bind_ok hbody
  rw [Prog.bind_ok (Prog.run_get e₁), ← resolve_assign hassign] at hloop
  have htable₁ := (tableOf_assign hassign).trans htable
  have hrows := RowWrite.wp_loop (w := .delete e₁.reader) (r := e₁.reader) (passes filter)
    (fun _ _ _ _ hrow hw => RowWrite.wp_removeRow hw hrow) (tableOf_eq_ok.mp htable₁)
  have hthrough := Prog.wp_ok hrows hloop
  obtain ⟨rows, htouched, hn, hwriting⟩ := touched_of_through htable₁ hthrough
  have hdone := Prog.wp_ok hwriting.wp_maybeCheckpoint hcheckpoint
  exact ⟨e₁, rows, run_assignedReader hassign, htouched, hn, hdone.toWrote⟩

/-- What an UPDATE that ends without an error leaves behind. -/
theorem wrote_updateWithTxn {updates : Updates}
    (h : (updateWithTxn table (passes filter) updates).run e = (.ok n, e')) :
    ∃ e₁ rows, RowStatement.assignedReader.run e = (.ok e₁.reader, e₁) ∧
      e₁.touched e₁.reader table filter = .ok rows ∧ n = rows.length ∧
      (RowWrite.update e₁.reader updates).Wrote (e₁.resolveTableName table) rows e₁ e' := by
  obtain ⟨k, e₂, hbody, hend⟩ := Prog.exists_of_bind_ok h
  obtain ⟨⟨⟩, e₃, hcheckpoint, hpure⟩ := Prog.exists_of_bind_ok hend
  cases hpure
  rw [updateWithTxnBody, Prog.bind_ok (Prog.run_get e)] at hbody
  obtain ⟨m, e₀, htable, hbody⟩ := Prog.exists_of_bind_ok hbody
  obtain ⟨htable, rfl⟩ := Prog.eq_of_ofExcept_ok htable
  obtain ⟨xid, e₁, hassign, hbody⟩ := Prog.exists_of_bind_ok hbody
  rw [Prog.bind_ok (Prog.run_get e₁), ← resolve_assign hassign] at hbody
  obtain ⟨count, e₄, hloop, hbody⟩ := Prog.exists_of_bind_ok hbody
  obtain ⟨⟨⟩, e₅, hrebuild, hpure⟩ := Prog.exists_of_bind_ok hbody
  cases hpure
  have htable₁ := (tableOf_assign hassign).trans htable
  have hrows := RowWrite.wp_loop (w := .update e₁.reader updates) (r := e₁.reader) (passes filter)
    (fun _ _ _ _ hrow hw => RowWrite.wp_updateRow hw hrow m.scanAll) (tableOf_eq_ok.mp htable₁)
  have hthrough := Prog.wp_ok hrows hloop
  obtain ⟨rows, htouched, hn, hwriting⟩ := touched_of_through htable₁ hthrough
  have hrebuilt := Prog.wp_ok (hwriting.wp_rebuildIf _ _) hrebuild
  have hdone := Prog.wp_ok hrebuilt.wp_maybeCheckpoint hcheckpoint
  exact ⟨e₁, rows, run_assignedReader hassign, htouched, hn, hdone.toWrote⟩

end Written

/-- A statement without a clause, run without an error, has its effect on the rows it touches. -/
theorem RowStatement.exists_effect {s : RowStatement} (hs : s.filter = none) {e e' : StorageEngine}
    {strategy : Str} {rs : ResultSet}
    (h : (executePipeline (buildPipeline e s.statement strategy)).run e = (.ok rs, e')) :
    ∃ r e₁ rows, s.start.run e = (.ok r, e₁) ∧ e₁.touched r s.table s.filter = .ok rows ∧
      s.Effect r rows e₁ rs e' := by
  cases s with
  | select s =>
    obtain ⟨r, e₁, hr, -⟩ := run_statementReader e
    change (executePipeline (buildPipeline e (.select s) strategy)).run e = _ at h
    rw [run_select hs strategy hr] at h
    cases hrows : e₁.touched r s.fromTable s.filter with
    | error f =>
      rw [hrows] at h
      cases h
    | ok rows =>
      rw [hrows] at h
      cases h
      exact ⟨r, _, rows, hr, hrows, rfl, rfl⟩
  | update s =>
    obtain ⟨n, e₂, hupdate, hpure⟩ := Prog.exists_of_bind_ok h
    cases hpure
    obtain ⟨e₁, rows, hstart, hrows, hn, hwrote⟩ := wrote_updateWithTxn hupdate
    exact ⟨_, e₁, rows, hstart, hrows, congrArg Int64.ofNat hn, hwrote⟩
  | delete s =>
    obtain ⟨n, e₂, hremove, hpure⟩ := Prog.exists_of_bind_ok h
    cases hpure
    obtain ⟨e₁, rows, hstart, hrows, hn, hwrote⟩ := wrote_removeWithTxn hremove
    exact ⟨_, e₁, rows, hstart, hrows, congrArg Int64.ofNat hn, hwrote⟩

/-! ### What is accepted -/

namespace NLParser

theorem rows_of_parseOperation {op : Json} {s : RowStatement}
    (h : parseOperation op = .ok (.rows s.statement)) :
    s.filter = none ∧ ∀ sets, s.assigns = some sets → sets = ∅ := by
  rcases ite_eq_iff.1 h with ⟨-, h⟩ | ⟨-, h⟩
  · obtain ⟨columns, -, hrows⟩ := ExceptList.bind_ok_iff.1 h
    cases s <;> cases hrows
    exact ⟨rfl, fun _ hsets => by cases hsets⟩
  rcases ite_eq_iff.1 h with ⟨-, h⟩ | ⟨-, h⟩
  · obtain ⟨columns, -, hvalues⟩ := ExceptList.bind_ok_iff.1 h
    obtain ⟨values, -, hrows⟩ := ExceptList.bind_ok_iff.1 hvalues
    cases s <;> cases hrows
  rcases ite_eq_iff.1 h with ⟨-, h⟩ | ⟨-, h⟩
  · cases s <;> cases h
    exact ⟨rfl, fun _ hsets => (Option.some.inj hsets).symm⟩
  rcases ite_eq_iff.1 h with ⟨-, h⟩ | ⟨-, h⟩
  · cases s <;> cases h
    exact ⟨rfl, fun _ hsets => by cases hsets⟩
  iterate 8
    rcases ite_eq_iff.1 h with ⟨-, h⟩ | ⟨-, h⟩
    · cases h
  cases h

theorem operation_of_accepted {response input : Str} {i : UnifiedIntent} {s : RowStatement}
    (h : parseResponse response input = .ok (.intent i)) (hs : i.statement = .rows s.statement) :
    ∃ op, operationIn response = .ok op ∧ parseOperation op = .ok (.rows s.statement) := by
  rw [parseResponse] at h
  split at h
  · cases h
  split at h
  · cases h
  · cases h
  rename_i result hbody
  cases h
  obtain ⟨j, hj, hbody⟩ := ExceptList.bind_ok_iff.1 hbody
  obtain ⟨content, hcontent, hbody⟩ := ExceptList.bind_ok_iff.1 hbody
  cases content with
  | none => cases hbody
  | some content =>
    dsimp only at hbody
    rw [parseContent] at hbody
    split at hbody
    · cases hbody
    rename_i text htext
    obtain ⟨parsed, hparsed, hbody⟩ := ExceptList.bind_ok_iff.1 hbody
    obtain ⟨talk, -, hbody⟩ := ExceptList.bind_ok_iff.1 hbody
    cases talk with
    | true => cases hbody
    | false =>
      obtain ⟨tables, -, hintent⟩ := ExceptList.bind_ok_iff.1 hbody
      dsimp only at hintent
      split at hintent
      · obtain ⟨statement, hstatement, hi⟩ := ExceptList.bind_ok_iff.1 hintent
        cases hi
        cases hs
        refine ⟨parsed.get (str "operation"), ?_, hstatement⟩
        rw [operationIn]
        refine ExceptList.bind_ok_iff.2 ⟨j, hj, ExceptList.bind_ok_iff.2 ⟨some content, hcontent, ?_⟩⟩
        dsimp only
        rw [htext]
        dsimp only
        rw [hparsed]
        rfl
      · cases hintent
        cases hs

/-- The run has read, changed or removed the rows that the condition of the answer describes and no others,
and the statement has the assignments of the answer. -/
def Faithful (e : StorageEngine) (rs : ResultSet) (e' : StorageEngine) (response : Str)
    (s : RowStatement) : Prop :=
  ∃ op cond, operationIn response = .ok op ∧ conditionOf op = some cond ∧
    (∀ sets, s.assigns = some sets → assignmentsOf op = some sets) ∧
    ∃ r e₁ rows, s.start.run e = (.ok r, e₁) ∧ e₁.touched r s.table cond = .ok rows ∧
      s.Effect r rows e₁ rs e'

/-- The condition leaves out no row of the table that the statement sees, and an UPDATE is to assign
nothing. -/
def LeavesNothingOut (e : StorageEngine) (response : Str) (s : RowStatement) : Prop :=
  ∃ op cond, operationIn response = .ok op ∧ conditionOf op = some cond ∧
    (s.assigns.isSome → assignmentsOf op = some ∅) ∧
    ∀ r e₁ rows, s.start.run e = (.ok r, e₁) → e₁.touched r s.table none = .ok rows →
      ∀ row ∈ rows, passes cond row = true

/-- Whatever the model answers, a run of the statement without an error has its effect on the rows that the
statement touches, and these are the rows meant exactly where the condition leaves nothing out. -/
theorem faithful_iff {response input : Str} {i : UnifiedIntent} {s : RowStatement}
    (h : parseResponse response input = .ok (.intent i)) (hs : i.statement = .rows s.statement)
    {e e' : StorageEngine} {strategy : Str} {rs : ResultSet}
    (hrun : (executePipeline (buildPipeline e s.statement strategy)).run e = (.ok rs, e')) :
    (∃ r e₁ rows, s.start.run e = (.ok r, e₁) ∧ e₁.touched r s.table s.filter = .ok rows ∧
      s.Effect r rows e₁ rs e') ∧
    (Faithful e rs e' response s ↔ LeavesNothingOut e response s) := by
  obtain ⟨op', -, hparse⟩ := operation_of_accepted h hs
  obtain ⟨hfilter, hempty⟩ := rows_of_parseOperation hparse
  have heffects := s.exists_effect hfilter hrun
  refine ⟨heffects, ?_⟩
  obtain ⟨r, e₁, rows, hstart, hrows, heffect⟩ := heffects
  rw [hfilter] at hrows
  constructor
  · rintro ⟨op, cond, hop, hcond, hsets, r', e₁', rows', hstart', hrows', heffect'⟩
    cases hstart.symm.trans hstart'
    refine ⟨op, cond, hop, hcond, fun hsome => ?_, fun r' e₁' rows₀ hstart₀ => ?_⟩
    · obtain ⟨sets, hassigns⟩ := Option.isSome_iff_exists.1 hsome
      rw [hsets sets hassigns, hempty sets hassigns]
    · cases hstart.symm.trans hstart₀
      rw [heffect.rows_eq heffect' (StorageEngine.touched_sublist hrows hrows')] at hrows'
      exact (e₁.touched_eq_iff r s.table cond).1 (hrows.trans hrows'.symm) rows₀
  · rintro ⟨op, cond, hop, hcond, hsets, hpass⟩
    refine ⟨op, cond, hop, hcond, fun sets hassigns => ?_, r, e₁, rows, hstart, ?_, heffect⟩
    · rw [hempty sets hassigns]
      exact hsets (Option.isSome_iff_exists.2 ⟨sets, hassigns⟩)
    · rw [← (e₁.touched_eq_iff r s.table cond).2 fun rows hrows => hpass r e₁ rows hstart hrows]
      exact hrows

/-! ### A DELETE that empties its table -/

/-- An answer of the model about the operation. -/
def answerText (op : Json) : Str :=
  let content := (Json.object [(str "category", .string (str "mutation")), (str "operation", op)]).dump
  (Json.object [(str "choices", .array [.object [(str "message",
    .object [(str "content", .string content)])]])]).dump

/-- `a = i` in the format of the prompt. -/
def equation (i : Int64) : Json :=
  .object [(str "type", .string (str "binary_op")), (str "op", .string (str "=")),
    (str "left", .object [(str "type", .string (str "column_ref")), (str "name", .string (str "a"))]),
    (str "right", .object [(str "type", .string (str "literal")), (str "value", .int i)])]

def deleteWhere (i : Int64) : Json :=
  .object [(str "type", .string (str "delete")), (str "table", .string (str "t")),
    (str "where", equation i)]

/-- A DELETE of every row of `t`. -/
def isDeleteAll : Except Failure NLParseResult → Bool
  | .ok (.intent i) => match i.statement with
    | .rows (.delete s) => decide (s.table = str "t") && s.filter.isNone
    | _ => false
  | _ => false

theorem accepted_of_isDeleteAll {result : Except Failure NLParseResult}
    (h : isDeleteAll result = true) : ∃ i, result = .ok (.intent i) ∧
      i.statement = .rows (RowStatement.delete ⟨str "t", none⟩).statement := by
  unfold isDeleteAll at h
  split at h
  · rename_i i
    refine ⟨i, rfl, ?_⟩
    split at h
    · rename_i s hs
      obtain ⟨htable, hfilter⟩ := Bool.and_eq_true_iff.1 h
      rw [hs]
      obtain ⟨table, filter⟩ := s
      cases of_decide_eq_true htable
      cases Option.isNone_iff_eq_none.1 hfilter
      rfl
    · cases h
  · cases h

/-- Every row of `t` that a DELETE sees passes the condition. -/
def conditionPasses (e : StorageEngine) (operation : Except Failure Json) : Bool :=
  match operation with
  | .error _ => false
  | .ok op => match conditionOf op with
    | none => false
    | some cond => match e.touched e.reader (str "t") none with
      | .error _ => true
      | .ok rows => rows.all (passes cond)

theorem leavesNothingOut_delete_iff {e e₁ : StorageEngine} {xid : TransactionId} {response : Str}
    (hassign : (inTxn TransactionManager.assignXid).run e = (.ok xid, e₁)) :
    LeavesNothingOut e response (.delete ⟨str "t", none⟩) ↔
      conditionPasses e₁ (operationIn response) = true := by
  have hstart : (RowStatement.delete ⟨str "t", none⟩).start.run e = (.ok e₁.reader, e₁) :=
    run_assignedReader hassign
  unfold conditionPasses
  constructor
  · rintro ⟨op, cond, hop, hcond, -, hpass⟩
    rw [hop]
    dsimp only
    rw [hcond]
    dsimp only
    split
    · rfl
    · exact List.all_eq_true.2 (hpass _ _ _ hstart ‹_›)
  · intro h
    split at h
    · cases h
    rename_i op hop
    split at h
    · cases h
    rename_i cond hcond
    refine ⟨op, cond, hop, hcond, fun hsome => (by cases hsome), ?_⟩
    intro r e₂ rows hrun hrows
    rw [hstart] at hrun
    cases hrun
    change e₁.touched e₁.reader (str "t") none = .ok rows at hrows
    rw [hrows] at h
    exact List.all_eq_true.1 h

theorem run_assignXid_loggedEngine : ∃ xid, (inTxn TransactionManager.assignXid).run loggedEngine =
    (.ok xid, ((inTxn TransactionManager.assignXid).run loggedEngine).2) := by
  have h : ((inTxn TransactionManager.assignXid).run loggedEngine).1 = .ok FirstNormalTransactionId := by
    decide +kernel
  exact ⟨_, Prod.ext h rfl⟩

/-- A DELETE of the whole table. -/
def deleteAll (e : StorageEngine) : Except Failure ResultSet × StorageEngine :=
  (executePipeline (buildPipeline e (RowStatement.delete ⟨str "t", none⟩).statement (str "delete"))).run e

theorem deleteAll_loggedEngine : ∃ rs, deleteAll loggedEngine = (.ok rs, (deleteAll loggedEngine).2) := by
  have hok : (deleteAll loggedEngine).1.toOption.isSome = true := by
    decide +kernel
  obtain ⟨rs, hrs⟩ := Option.isSome_iff_exists.mp hok
  exact ⟨rs, Prog.run_of_toOption hrs⟩

/-- The only row of the table is meant. -/
theorem delete_faithful : ∃ i rs e', parseResponse (answerText (deleteWhere 1)) [] = .ok (.intent i) ∧
    deleteAll loggedEngine = (.ok rs, e') ∧
    Faithful loggedEngine rs e' (answerText (deleteWhere 1)) (.delete ⟨str "t", none⟩) := by
  have haccepted : isDeleteAll (parseResponse (answerText (deleteWhere 1)) []) = true := by
    decide +kernel
  obtain ⟨i, hi, hs⟩ := accepted_of_isDeleteAll haccepted
  obtain ⟨xid, hassign⟩ := run_assignXid_loggedEngine
  obtain ⟨rs, hrun⟩ := deleteAll_loggedEngine
  exact ⟨i, rs, _, hi, hrun, (faithful_iff hi hs hrun).2.mpr
    ((leavesNothingOut_delete_iff hassign).mpr (by decide +kernel))⟩

/-- No row is meant and the only row goes. -/
theorem not_faithful : ¬ ∀ response input i (s : RowStatement) (e : StorageEngine) strategy rs e',
    parseResponse response input = .ok (.intent i) → i.statement = .rows s.statement →
      (executePipeline (buildPipeline e s.statement strategy)).run e = (.ok rs, e') →
      Faithful e rs e' response s := by
  intro hall
  have haccepted : isDeleteAll (parseResponse (answerText (deleteWhere 2)) []) = true := by
    decide +kernel
  obtain ⟨i, hi, hs⟩ := accepted_of_isDeleteAll haccepted
  obtain ⟨xid, hassign⟩ := run_assignXid_loggedEngine
  obtain ⟨rs, hrun⟩ := deleteAll_loggedEngine
  have hfaithful := hall _ _ i _ _ _ rs _ hi hs hrun
  have hpasses := (leavesNothingOut_delete_iff hassign).mp ((faithful_iff hi hs hrun).2.mp hfaithful)
  exact absurd hpasses (by decide +kernel)

end NLParser

end JiaMiaoDB
