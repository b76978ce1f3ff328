import JiaMiaoDB.Sql.Expression

/-!
# Comparison operators

Equality asks for values of the same type, and the order converts an integer that meets a double.
-/

set_option autoImplicit false

namespace JiaMiaoDB

/-- A number of integral value. -/
def Value.isNumber : Value → Bool
  | int _ => true
  | double d => d.isInteger
  | _ => false

def Value.isString : Value → Bool
  | string _ => true
  | _ => false

/-- Two numbers or two strings. -/
def Comparable (v w : Value) : Prop :=
  (v.isNumber = true ∧ w.isNumber = true) ∨ (v.isString = true ∧ w.isString = true)

def ExactlyOne (p q r : Prop) : Prop := (p ∧ ¬ q ∧ ¬ r) ∨ (¬ p ∧ q ∧ ¬ r) ∨ (¬ p ∧ ¬ q ∧ r)

/-- The comparison evaluates to true. -/
def Compares (op : BinaryOp) (left right : Expression) (row : Row) : Prop :=
  evalExpression (.binary op left right) row = .bool true

/-- The laws of the six operators on two expressions. -/
structure ComparisonLaws (left right : Expression) (row : Row) : Prop where
  one : ExactlyOne (Compares .lt left right row) (Compares .eq left right row)
    (Compares .gt left right row)
  le : Compares .le left right row ↔ Compares .lt left right row ∨ Compares .eq left right row
  ge : Compares .ge left right row ↔ Compares .gt left right row ∨ Compares .eq left right row
  ne : Compares .ne left right row ↔ ¬ Compares .eq left right row

/-- Whatever expressions have the two values. -/
def ConsistentOn (v w : Value) : Prop :=
  ∀ left right row, evalExpression left row = v → evalExpression right row = w →
    ComparisonLaws left right row

/-- An integer and a double that the integer converts to. -/
def MixedEqual : Value → Value → Prop
  | .int i, .double d => (Binary64.ofInt i.toInt).eq d = true
  | .double d, .int i => (Binary64.ofInt i.toInt).eq d = true
  | _, _ => False

section
variable {v w : Value} {left right : Expression} {row : Row}

/-- The laws on the values. -/
def Lawful (v w : Value) : Prop :=
  ExactlyOne (less v w = true) (v.eqv w = true) (less w v = true) ∧
    (lessEqual v w = true ↔ less v w = true ∨ v.eqv w = true) ∧
    (lessEqual w v = true ↔ less w v = true ∨ v.eqv w = true)

theorem bool_eq_true (b : Bool) : Value.bool b = .bool true ↔ b = true := by
  constructor
  · intro h
    exact Value.bool.inj h
  · intro h
    rw [h]

theorem comparisonLaws_iff : ComparisonLaws left right row ↔
    Lawful (evalExpression left row) (evalExpression right row) := by
  have hlt : Compares .lt left right row ↔ _ := bool_eq_true _
  have hgt : Compares .gt left right row ↔ _ := bool_eq_true _
  have heq : Compares .eq left right row ↔ _ := bool_eq_true _
  have hle : Compares .le left right row ↔ _ := bool_eq_true _
  have hge : Compares .ge left right row ↔ _ := bool_eq_true _
  have hne : Compares .ne left right row ↔ ¬ Compares .eq left right row := by
    rw [heq, Bool.not_eq_true]
    exact (bool_eq_true _).trans (Bool.not_eq_true' _).to_iff
  unfold Lawful
  rw [← hlt, ← hgt, ← heq, ← hle, ← hge]
  constructor
  · intro h
    exact ⟨h.one, h.le, h.ge⟩
  · rintro ⟨hone, hle, hge⟩
    exact ⟨hone, hle, hge, hne⟩

/-- The laws of the expressions are laws of their values. -/
theorem consistentOn_iff : ConsistentOn v w ↔ Lawful v w := by
  constructor
  · intro h
    exact comparisonLaws_iff.1 (h (.literal v) (.literal w) ∅ rfl rfl)
  · rintro h left right row rfl rfl
    exact comparisonLaws_iff.2 h

/-- Values with places in a linear order that decides every operator. -/
theorem lawful_of_order {a b : Int} (hlt : less v w = true ↔ a < b) (hgt : less w v = true ↔ b < a)
    (heq : v.eqv w = true ↔ a = b) (hle : lessEqual v w = true ↔ a ≤ b)
    (hge : lessEqual w v = true ↔ b ≤ a) : Lawful v w := by
  unfold Lawful ExactlyOne
  rw [hlt, hgt, heq, hle, hge]
  omega

theorem lawful_ints (i j : Int64) : Lawful (.int i) (.int j) := by
  apply lawful_of_order (a := i.toInt) (b := j.toInt)
  · exact decide_eq_true_iff.trans Int64.lt_iff_toInt_lt
  · exact decide_eq_true_iff.trans Int64.lt_iff_toInt_lt
  · exact beq_iff_eq.trans Int64.toInt_inj.symm
  · exact decide_eq_true_iff.trans Int64.le_iff_toInt_le
  · exact decide_eq_true_iff.trans Int64.le_iff_toInt_le

theorem lawful_doubles {x y : Binary64} (hx : x.isNaN = false) (hy : y.isNaN = false) :
    Lawful (.double x) (.double y) :=
  lawful_of_order (Binary64.lt_iff hx hy) (Binary64.lt_iff hy hx) (Binary64.eq_iff hx hy)
    (Binary64.le_iff hx hy) (Binary64.le_iff hy hx)

theorem lawful_strings (s t : Str) : Lawful (.string s) (.string t) := by
  have hlt : ∀ s t : Str, less (.string s) (.string t) = true ↔ compare s t = .lt :=
    fun _ _ => decide_eq_true_iff
  have hle : ∀ s t : Str, lessEqual (.string s) (.string t) = true ↔ (compare s t).isLE = true :=
    fun _ _ => Iff.rfl
  have heq : (Value.string s).eqv (.string t) = true ↔ compare s t = .eq :=
    beq_iff_eq.trans Std.LawfulEqCmp.compare_eq_iff_eq.symm
  have hswap : compare t s = (compare s t).swap := Std.OrientedCmp.eq_swap
  unfold Lawful ExactlyOne
  rw [hlt, hlt, hle, hle, heq, hswap]
  cases compare s t <;> decide

/-- Values of which the equality sees only the types and the order sees places. -/
theorem lawful_iff_of_order {a b : Int} (hlt : less v w = true ↔ a < b)
    (hgt : less w v = true ↔ b < a) (heq : v.eqv w = false)
    (hle : lessEqual v w = true ↔ a ≤ b) (hge : lessEqual w v = true ↔ b ≤ a) :
    Lawful v w ↔ a ≠ b := by
  unfold Lawful ExactlyOne
  rw [hlt, hgt, heq, hle, hge]
  simp only [Bool.false_eq_true, not_false_eq_true, true_and, and_false, false_and, false_or,
    or_false]
  omega

variable {i : Int64} {d : Binary64}

theorem lawful_int_double_iff (hd : d.isNaN = false) :
    Lawful (.int i) (.double d) ↔ ¬ MixedEqual (.int i) (.double d) := by
  have hi := Binary64.isNaN_ofInt i.toInt
  rw [MixedEqual, Binary64.eq_iff hi hd]
  exact lawful_iff_of_order (Binary64.lt_iff hi hd) (Binary64.lt_iff hd hi) rfl
    (Binary64.le_iff hi hd) (Binary64.le_iff hd hi)

theorem lawful_double_int_iff (hd : d.isNaN = false) :
    Lawful (.double d) (.int i) ↔ ¬ MixedEqual (.double d) (.int i) := by
  have hi := Binary64.isNaN_ofInt i.toInt
  rw [MixedEqual, Binary64.eq_comm, Binary64.eq_iff hd hi]
  exact lawful_iff_of_order (Binary64.lt_iff hd hi) (Binary64.lt_iff hi hd) rfl
    (Binary64.le_iff hd hi) (Binary64.le_iff hi hd)

theorem not_nan_of_integer (h : d.isInteger = true) : d.isNaN = false := by
  simp only [Binary64.isInteger, Bool.and_eq_true, Bool.not_eq_eq_eq_not, Bool.not_true] at h
  exact h.1.1

end

/-- The comparisons of two numbers or two strings are consistent if and only if they are not an
integer and a double that the integer converts to. -/
theorem consistentOn_iff_not_mixed (v w : Value) (h : Comparable v w) :
    ConsistentOn v w ↔ ¬ MixedEqual v w := by
  rw [consistentOn_iff]
  rcases h with ⟨hv, hw⟩ | ⟨hv, hw⟩
  · cases v with
    | int i =>
      cases w with
      | int j => exact iff_of_true (lawful_ints i j) not_false
      | double y => exact lawful_int_double_iff (not_nan_of_integer hw)
      | _ => cases hw
    | double x =>
      cases w with
      | int j => exact lawful_double_int_iff (not_nan_of_integer hv)
      | double y =>
        exact iff_of_true (lawful_doubles (not_nan_of_integer hv) (not_nan_of_integer hw)) not_false
      | _ => cases hw
    | _ => cases hv
  · cases v with
    | string s =>
      cases w with
      | string t => exact iff_of_true (lawful_strings s t) not_false
      | _ => cases hw
    | _ => cases hv

/-- The numbers `1` and `2.0`. -/
theorem consistentOn_iff_not_mixed_two :
    let two : Binary64 := ⟨0x4000000000000000⟩
    ConsistentOn (.int 1) (.double two) ↔ ¬ MixedEqual (.int 1) (.double two) := by
  intro two
  exact consistentOn_iff_not_mixed (.int 1) (.double two) (.inl ⟨rfl, by decide +kernel⟩)

/-- `1` and `1.0` are neither equal nor ordered. -/
theorem consistentOn_one :
    let one : Binary64 := ⟨0x3FF0000000000000⟩
    Comparable (.int 1) (.double one) ∧ ¬ ConsistentOn (.int 1) (.double one) := by
  intro one
  refine ⟨.inl ⟨rfl, by decide +kernel⟩, ?_⟩
  intro h
  have hlaws := consistentOn_iff.1 h
  have hmixed : MixedEqual (.int 1) (.double one) := by
    change (Binary64.ofInt 1).eq one = true
    decide +kernel
  exact (lawful_int_double_iff (by decide +kernel)).1 hlaws hmixed

end JiaMiaoDB
