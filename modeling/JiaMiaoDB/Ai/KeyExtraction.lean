import JiaMiaoDB.Ai.PlanEquivalence

/-!
# What an extracted key says about a row

The planner takes the first literal that a conjunct equates with the column. Every matching row has a
value that prints to it, or lacks the column and reads as NULL there.
-/

set_option autoImplicit false

namespace JiaMiaoDB
open AIPlanner PipelineExecutor

/-- Apart from the doubles equality is identity: it has no second zero there. -/
theorem Value.eq_of_eqv {v lit : Value} (hlit : ¬ lit.IsDouble) (h : v.eqv lit = true) :
    v = lit := by
  cases lit with
  | double d => exact absurd trivial hlit
  | null => cases v <;> first | rfl | cases h
  | int i =>
    cases v with
    | int j => exact congrArg Value.int (eq_of_beq h)
    | _ => cases h
  | string s =>
    cases v with
    | string t => exact congrArg Value.string (eq_of_beq h)
    | _ => cases h
  | bool b =>
    cases v with
    | bool c => exact congrArg Value.bool (eq_of_beq h)
    | _ => cases h

/-- The value of the column, as the evaluator reads it, prints to the key. -/
def PrintsTo (key column : Str) (row : Row) : Prop := valueToString (row.getD column .null) = key

instance (key column : Str) (row : Row) : Decidable (PrintsTo key column row) :=
  inferInstanceAs (Decidable (_ = _))

theorem PrintsTo.cases {key column : Str} {row : Row} (h : PrintsTo key column row) :
    (∃ v, row[column]? = some v ∧ valueToString v = key) ∨
      (row[column]? = none ∧ key = str "NULL") := by
  unfold PrintsTo at h
  rw [Std.ExtTreeMap.getD_eq_getD_getElem?] at h
  cases hv : row[column]? with
  | some v =>
    rw [hv] at h
    exact Or.inl ⟨v, rfl, h⟩
  | none =>
    rw [hv] at h
    exact Or.inr ⟨rfl, h.symm⟩

/-- Without doubles the value in the column is the literal itself. -/
theorem printsTo_extractEqValue {expr : Expression} {column : Str} {row : Row}
    (hfree : expr.DoubleFree) (hne : extractEqValue expr column ≠ [])
    (hpass : isTrue (evalExpression expr row) = true) :
    PrintsTo (extractEqValue expr column) column row := by
  obtain ⟨lit, hlit, hkey, heqv⟩ := extractEqValue_sound hne hpass
  rw [PrintsTo, hkey, Value.eq_of_eqv (hlit hfree) heqv]

/-- Leaving out the rows that do not print to a key which every matching row prints to. -/
theorem filter_printsTo {expr : Expression} {key column : Str} (rows : RowSet)
    (h : ∀ row, isTrue (evalExpression expr row) = true → PrintsTo key column row) :
    (rows.filter fun row => PrintsTo key column row).filter (passes (some expr)) =
      rows.filter (passes (some expr)) := by
  rw [List.filter_filter]
  apply List.filter_congr
  intro row _
  cases hpass : passes (some expr) row with
  | false => rfl
  | true =>
    rw [Bool.true_and]
    exact decide_eq_true (h row hpass)

/-- A row that satisfies the clause has a value in the column that prints to the extracted key, or no
such column and the key of NULL, so a scan restricted to the key loses no matching row. -/
theorem extractEqValue_keeps (expr : Expression) (column : Str) (hfree : expr.DoubleFree)
    (hne : extractEqValue expr column ≠ []) :
    (∀ row : Row, isTrue (evalExpression expr row) = true →
      (∃ v, row[column]? = some v ∧ valueToString v = extractEqValue expr column) ∨
        (row[column]? = none ∧ extractEqValue expr column = str "NULL")) ∧
    ∀ rows : RowSet,
      (rows.filter fun row => PrintsTo (extractEqValue expr column) column row).filter
        (passes (some expr)) = rows.filter (passes (some expr)) := by
  constructor
  · intro row hpass
    apply PrintsTo.cases
    exact printsTo_extractEqValue hfree hne hpass
  · intro rows
    apply filter_printsTo
    intro row hpass
    exact printsTo_extractEqValue hfree hne hpass

/-- `a = 7 AND NOT b = 'x'`. -/
def sevenNotX : Expression :=
  .binary .and (.binary .eq (.columnRef (str "a")) (.literal (.int 7)))
    (.not (.binary .eq (.columnRef (str "b")) (.literal (.string (str "x")))))

theorem extractEqValue_keeps_sevenNotX :
    extractEqValue sevenNotX (str "a") = str "7" ∧
    ∃ v, (({(str "a", .int 7)} : Row))[str "a"]? = some v ∧ valueToString v = str "7" := by
  have h : extractEqValue sevenNotX (str "a") = str "7" ∧
      isTrue (evalExpression sevenNotX {(str "a", .int 7)}) = true ∧
      (({(str "a", .int 7)} : Row))[str "a"]? ≠ none ∧ str "7" ≠ [] := by
    decide +kernel
  obtain ⟨hkey, hpass, hsome, hne⟩ := h
  have hfree : sevenNotX.DoubleFree := ⟨⟨trivial, id⟩, ⟨trivial, id⟩⟩
  have hrow := (extractEqValue_keeps sevenNotX (str "a") hfree (hkey ▸ hne)).1 _ hpass
  rw [hkey] at hrow
  exact ⟨hkey, hrow.resolve_right fun h => hsome h.1⟩

def isNullA : Expression := .binary .eq (.columnRef (str "a")) (.literal .null)

/-- `a = NULL` holds of a row without the column. -/
theorem not_extractEqValue_has : ¬ ∀ (expr : Expression) (column : Str) (row : Row),
    expr.DoubleFree → extractEqValue expr column ≠ [] →
    isTrue (evalExpression expr row) = true →
    ∃ v, row[column]? = some v ∧ valueToString v = extractEqValue expr column := by
  intro hall
  have h : extractEqValue isNullA (str "a") ≠ [] ∧ isTrue (evalExpression isNullA ∅) = true := by
    decide +kernel
  have hfree : isNullA.DoubleFree := ⟨trivial, id⟩
  obtain ⟨v, hv, -⟩ := hall isNullA (str "a") ∅ hfree h.1 h.2
  rw [Std.ExtTreeMap.getElem?_empty] at hv
  cases hv

end JiaMiaoDB
