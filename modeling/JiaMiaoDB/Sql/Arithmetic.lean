import JiaMiaoDB.Sql.Expression

/-!
# Integer arithmetic

The evaluation with the undefined operations of the language kept apart: a signed operation whose
result 64 bits do not hold. Beside it stands the evaluation over unbounded integers.
-/

set_option autoImplicit false

namespace JiaMiaoDB

inductive ArithmeticOp where
  | add | sub | mul | div
deriving DecidableEq

def BinaryOp.arithmetic? : BinaryOp → Option ArithmeticOp
  | add => some .add
  | sub => some .sub
  | mul => some .mul
  | div => some .div
  | _ => none

def FitsInt64 (m : Int) : Prop := -2 ^ 63 ≤ m ∧ m < 2 ^ 63

instance (m : Int) : Decidable (FitsInt64 m) := inferInstanceAs (Decidable (_ ∧ _))

theorem FitsInt64.toInt_ofInt {m : Int} (h : FitsInt64 m) : (Int64.ofInt m).toInt = m :=
  Int64.toInt_ofInt_of_le h.1 h.2

/-- What a signed operation with the result `m` leaves. -/
def signedResult (m : Int) : Except Failure Value :=
  if FitsInt64 m then .ok (.int (Int64.ofInt m)) else .error .undefined

namespace ArithmeticOp

/-- The mathematical value; a zero divisor has none. -/
def value (op : ArithmeticOp) (i j : Int) : Option Int :=
  match op with
  | add => some (i + j)
  | sub => some (i - j)
  | mul => some (i * j)
  | div => if j = 0 then none else some (i.tdiv j)

/-- The operation on two integers. The divisor is tested for zero and nothing else is tested; the
least integer divided by minus one traps. -/
def perform (op : ArithmeticOp) (i j : Int64) : Except Failure Value :=
  match op with
  | add => signedResult (i.toInt + j.toInt)
  | sub => signedResult (i.toInt - j.toInt)
  | mul => signedResult (i.toInt * j.toInt)
  | div => if j = 0 then .ok .null else signedResult (i.toInt.tdiv j.toInt)

/-- The operation has a value in 64 bits, or none at all. -/
def Representable (op : ArithmeticOp) (i j : Int) : Prop := ∀ m ∈ op.value i j, FitsInt64 m

end ArithmeticOp

/-- One operator of an expression on the values of its operands. -/
def applyBinary (op : BinaryOp) (l r : Value) : Except Failure Value :=
  match op.arithmetic?, l, r with
  | some a, .int i, .int j => a.perform i j
  | _, l, r => .ok (evalBinary op l r)

/-- The evaluation as the language defines it. -/
def evaluate : Expression → Row → Except Failure Value
  | .literal v, _ => .ok v
  | .columnRef name, row => .ok (row.getD name .null)
  | .not expr, row => do
    match ← evaluate expr row with
    | .bool b => pure (.bool (!b))
    | _ => pure .null
  | .binary op left right, row => do
    let l ← evaluate left row
    let r ← evaluate right row
    applyBinary op l r

/-- The operations on two integers that the evaluation carries out, up to the first one that is
undefined. -/
def integerOperations : Expression → Row → List (ArithmeticOp × Int64 × Int64)
  | .literal _, _ => []
  | .columnRef _, _ => []
  | .not expr, row => integerOperations expr row
  | .binary op left right, row =>
    integerOperations left row ++ integerOperations right row ++
      match op.arithmetic?, evaluate left row, evaluate right row with
      | some a, .ok (.int i), .ok (.int j) => [(a, i, j)]
      | _, _, _ => []

/-- Null, or an error that the caller can catch. -/
def NullOrError (result : Except Failure Value) : Prop :=
  result = .ok .null ∨ ∃ f, f ≠ .undefined ∧ result = .error f

/-- The mathematical value when it fits, and otherwise null or an error. -/
def ArithmeticOp.Meets (op : ArithmeticOp) (i j : Int64) : Prop :=
  match op.value i.toInt j.toInt with
  | some m =>
    if FitsInt64 m then op.perform i j = .ok (.int (Int64.ofInt m))
    else NullOrError (op.perform i j)
  | none => NullOrError (op.perform i j)

def ArithmeticSound (expr : Expression) (row : Row) : Prop :=
  ∀ o ∈ integerOperations expr row, o.1.Meets o.2.1 o.2.2

section Exact

/-- A value whose integers have no bound. -/
inductive ExactValue where
  | null
  | int (m : Int)
  | double (d : Binary64)
  | string (s : Str)
  | bool (b : Bool)

def Value.exact : Value → ExactValue
  | null => .null
  | int i => .int i.toInt
  | double d => .double d
  | string s => .string s
  | bool b => .bool b

namespace ExactValue

def eqv : ExactValue → ExactValue → Bool
  | null, null => true
  | int i, int j => i == j
  | double x, double y => x.eq y
  | string s, string t => s == t
  | bool a, bool b => a == b
  | _, _ => false

def isTrue : ExactValue → Bool
  | bool b => b
  | _ => false

def compareWith (onStrings : Str → Str → Bool) (onInts : Int → Int → Bool)
    (onDoubles : Binary64 → Binary64 → Bool) : ExactValue → ExactValue → Bool
  | string s, string t => onStrings s t
  | int i, int j => onInts i j
  | double x, double y => onDoubles x y
  | int i, double y => onDoubles (Binary64.ofInt i) y
  | double x, int j => onDoubles x (Binary64.ofInt j)
  | _, _ => false

def less : ExactValue → ExactValue → Bool :=
  compareWith (fun s t => compare s t = .lt) (fun i j => i < j) Binary64.lt

def lessEqual : ExactValue → ExactValue → Bool :=
  compareWith (fun s t => (compare s t).isLE) (fun i j => i ≤ j) Binary64.le

def onDoubles : ArithmeticOp → Binary64 → Binary64 → Binary64
  | .add => Binary64.add
  | .sub => Binary64.sub
  | .mul => Binary64.mul
  | .div => Binary64.div

def arith (op : ArithmeticOp) : ExactValue → ExactValue → ExactValue
  | int i, int j => (op.value i j).elim null int
  | int i, double y => if op = .div then null else double (onDoubles op (Binary64.ofInt i) y)
  | double x, int j => if op = .div then null else double (onDoubles op x (Binary64.ofInt j))
  | double x, double y =>
    if op = .div ∧ y.eq (Binary64.zero false) then null else double (onDoubles op x y)
  | _, _ => null

def evalBinary : BinaryOp → ExactValue → ExactValue → ExactValue
  | .eq, l, r => .bool (l.eqv r)
  | .ne, l, r => .bool (!l.eqv r)
  | .lt, l, r => .bool (less l r)
  | .gt, l, r => .bool (less r l)
  | .le, l, r => .bool (lessEqual l r)
  | .ge, l, r => .bool (lessEqual r l)
  | .and, l, r => .bool (l.isTrue && r.isTrue)
  | .or, l, r => .bool (l.isTrue || r.isTrue)
  | .add, l, r => arith .add l r
  | .sub, l, r => arith .sub l r
  | .mul, l, r => arith .mul l r
  | .div, l, r => arith .div l r

end ExactValue

/-- The evaluation over unbounded integers. -/
def exactly : Expression → Row → ExactValue
  | .literal v, _ => v.exact
  | .columnRef name, row => (row.getD name .null).exact
  | .not expr, row =>
    match exactly expr row with
    | .bool b => .bool (!b)
    | _ => .null
  | .binary op left right, row => ExactValue.evalBinary op (exactly left row) (exactly right row)

/-- No operation on two integers has a mathematical value outside 64 bits. -/
def InRange : Expression → Row → Prop
  | .literal _, _ => True
  | .columnRef _, _ => True
  | .not expr, row => InRange expr row
  | .binary op left right, row =>
    InRange left row ∧ InRange right row ∧
      ∀ a ∈ op.arithmetic?, ∀ i j, exactly left row = .int i → exactly right row = .int j →
        a.Representable i j

end Exact

theorem signedResult_fits {m : Int} (h : FitsInt64 m) :
    signedResult m = .ok (.int (Int64.ofInt m)) := if_pos h

namespace ArithmeticOp
variable {op : ArithmeticOp} {i j : Int64} {m : Int}

theorem perform_some (h : op.value i.toInt j.toInt = some m) :
    op.perform i j = signedResult m := by
  cases op with
  | div =>
    simp only [value] at h
    split at h
    · cases h
    · next hne =>
      obtain rfl := Option.some.inj h
      apply if_neg
      intro hj
      exact hne (by rw [hj]; rfl)
  | _ => exact congrArg signedResult (Option.some.inj h)

/-- Only a division by zero has no value. -/
theorem value_none (h : op.value i.toInt j.toInt = none) : op = .div ∧ j = 0 := by
  cases op with
  | div =>
    simp only [value] at h
    split at h
    · next hj => exact ⟨rfl, Int64.toInt_inj.1 hj⟩
    · cases h
  | _ => cases h

theorem perform_none (h : op.value i.toInt j.toInt = none) : op.perform i j = .ok .null := by
  obtain ⟨rfl, hj⟩ := value_none h
  exact if_pos hj

/-- The operation does what it should exactly when its value fits. -/
theorem meets_iff : op.Meets i j ↔ op.Representable i.toInt j.toInt := by
  unfold Meets Representable
  cases hvalue : op.value i.toInt j.toInt with
  | none =>
    constructor
    · intro _ m hm
      cases hm
    · intro _
      exact .inl (perform_none hvalue)
  | some m =>
    rw [perform_some hvalue, signedResult]
    by_cases hfits : FitsInt64 m
    · constructor
      · intro _ m' hm
        obtain rfl := Option.some.inj hm
        exact hfits
      · intro _
        simp only [if_pos hfits]
    · constructor
      · intro hmeets
        simp only [if_neg hfits] at hmeets
        rcases hmeets with hnull | ⟨f, hf, herror⟩
        · cases hnull
        · exact absurd (Except.error.inj herror).symm hf
      · intro hall
        exact absurd (hall m rfl) hfits

end ArithmeticOp

section
variable {op : BinaryOp} {l r v : Value} {expr left right : Expression} {row : Row}

theorem isTrue_exact (v : Value) : v.exact.isTrue = isTrue v := by cases v <;> rfl

theorem eqv_exact (l r : Value) : l.exact.eqv r.exact = l.eqv r := by
  cases l <;> cases r
  case int.int i j =>
    simp only [Value.exact, ExactValue.eqv, Value.eqv, Bool.beq_eq_decide_eq, Int64.toInt_inj]
  all_goals rfl

theorem less_exact (l r : Value) : ExactValue.less l.exact r.exact = less l r := by
  cases l <;> cases r
  case int.int i j => exact decide_eq_decide.2 Int64.lt_iff_toInt_lt.symm
  all_goals rfl

theorem lessEqual_exact (l r : Value) : ExactValue.lessEqual l.exact r.exact = lessEqual l r := by
  cases l <;> cases r
  case int.int i j => exact decide_eq_decide.2 Int64.le_iff_toInt_le.symm
  all_goals rfl

/-- Unless both are integers, the exact operator is the one of the program. -/
theorem evalBinary_exact (h : op.arithmetic? = none ∨ ∀ i j, ¬ (l = .int i ∧ r = .int j)) :
    (evalBinary op l r).exact = ExactValue.evalBinary op l.exact r.exact := by
  cases op
  case eq => exact congrArg ExactValue.bool (eqv_exact l r).symm
  case ne => exact congrArg (fun b => ExactValue.bool (!b)) (eqv_exact l r).symm
  case lt => exact congrArg ExactValue.bool (less_exact l r).symm
  case gt => exact congrArg ExactValue.bool (less_exact r l).symm
  case le => exact congrArg ExactValue.bool (lessEqual_exact l r).symm
  case ge => exact congrArg ExactValue.bool (lessEqual_exact r l).symm
  case and =>
    rw [evalBinary, ExactValue.evalBinary, isTrue_exact, isTrue_exact]
    rfl
  case or =>
    rw [evalBinary, ExactValue.evalBinary, isTrue_exact, isTrue_exact]
    rfl
  all_goals
    have hmixed : ∀ i j, ¬ (l = .int i ∧ r = .int j) := by
      rcases h with h | h
      · cases h
      · exact h
    cases l <;> cases r
    case int.int i j => exact absurd ⟨rfl, rfl⟩ (hmixed i j)
  case div.double.double x y =>
    by_cases hzero : y.eq (Binary64.zero false) = true
    · simp only [evalBinary, divide, ExactValue.evalBinary, Value.exact, ExactValue.arith, hzero,
        if_true, and_self]
    · simp only [evalBinary, divide, ExactValue.evalBinary, Value.exact, ExactValue.arith, hzero,
        if_false, and_false, ExactValue.onDoubles, Bool.false_eq_true]
  all_goals rfl

theorem applyBinary_other (h : op.arithmetic? = none ∨ ∀ i j, ¬ (l = .int i ∧ r = .int j)) :
    applyBinary op l r = .ok (evalBinary op l r) := by
  unfold applyBinary
  split
  · next a i j hop =>
    rcases h with h | h
    · rw [h] at hop
      cases hop
    · exact absurd ⟨rfl, rfl⟩ (h i j)
  · rfl

theorem evalBinary_ints {a : ArithmeticOp} (h : op.arithmetic? = some a) (i j : Int) :
    ExactValue.evalBinary op (.int i) (.int j) = (a.value i j).elim .null .int := by
  cases op <;> cases h <;> rfl

/-- An operator in range gives the exact value. -/
theorem applyBinary_exact (h : ∀ a ∈ op.arithmetic?, ∀ i j, l.exact = .int i → r.exact = .int j →
    a.Representable i j) :
    ∃ v, applyBinary op l r = .ok v ∧ v.exact = ExactValue.evalBinary op l.exact r.exact := by
  by_cases hother : op.arithmetic? = none ∨ ∀ i j, ¬ (l = .int i ∧ r = .int j)
  · exact ⟨_, applyBinary_other hother, evalBinary_exact hother⟩
  · simp only [not_or, not_forall, not_not] at hother
    obtain ⟨hop, i, j, rfl, rfl⟩ := hother
    obtain ⟨a, ha⟩ := Option.ne_none_iff_exists'.1 hop
    have hrange := h a ha i.toInt j.toInt rfl rfl
    have happly : applyBinary op (.int i) (.int j) = a.perform i j := by
      simp only [applyBinary, ha]
    rw [happly]
    simp only [Value.exact, evalBinary_ints ha]
    cases hvalue : a.value i.toInt j.toInt with
    | none => exact ⟨_, ArithmeticOp.perform_none hvalue, rfl⟩
    | some m =>
      have hfits := hrange m hvalue
      refine ⟨_, (ArithmeticOp.perform_some hvalue).trans (signedResult_fits hfits), ?_⟩
      exact congrArg ExactValue.int hfits.toInt_ofInt

/-- The machine's result is the mathematical value modulo the word size. -/
theorem evalBinary_wraps {a : ArithmeticOp} (ha : op.arithmetic? = some a) {i j : Int64} {m : Int}
    (h : a.value i.toInt j.toInt = some m) :
    evalBinary op (.int i) (.int j) = .int (Int64.ofInt m) := by
  cases op <;> cases ha
  case div =>
    simp only [ArithmeticOp.value] at h
    split at h
    · cases h
    · next hne =>
      obtain rfl := Option.some.inj h
      have hj : j ≠ 0 := by
        intro hj
        exact hne (by rw [hj]; rfl)
      have hdiv : i / j = Int64.ofInt (i.toInt.tdiv j.toInt) := by
        apply Int64.toInt_inj.1
        rw [Int64.toInt_div, Int64.toInt_ofInt]
      rw [evalBinary, divide, if_neg hj, hdiv]
  all_goals
    obtain rfl := Option.some.inj h
    simp only [evalBinary, arith, Int64.ofInt_add, Int64.ofInt_sub, Int64.ofInt_mul,
      Int64.ofInt_toInt]

theorem evalBinary_of_applyBinary (h : applyBinary op l r = .ok v) : evalBinary op l r = v := by
  by_cases hother : op.arithmetic? = none ∨ ∀ i j, ¬ (l = .int i ∧ r = .int j)
  · exact Except.ok.inj ((applyBinary_other hother).symm.trans h)
  · simp only [not_or, not_forall, not_not] at hother
    obtain ⟨hop, i, j, rfl, rfl⟩ := hother
    obtain ⟨a, ha⟩ := Option.ne_none_iff_exists'.1 hop
    simp only [applyBinary, ha] at h
    cases hvalue : a.value i.toInt j.toInt with
    | some m =>
      rw [ArithmeticOp.perform_some hvalue, signedResult] at h
      split at h
      · exact (evalBinary_wraps ha hvalue).trans (Except.ok.inj h)
      · cases h
    | none =>
      rw [ArithmeticOp.perform_none hvalue] at h
      cases h
      obtain ⟨rfl, hj⟩ := ArithmeticOp.value_none hvalue
      cases op <;> cases ha
      exact if_pos hj

/-- Where the language defines the evaluation, it is the one of the target machine. -/
theorem evalExpression_of_evaluate (h : evaluate expr row = .ok v) :
    evalExpression expr row = v := by
  induction expr generalizing v with
  | literal w => exact Except.ok.inj h
  | columnRef name => exact Except.ok.inj h
  | not expr ih =>
    rw [evaluate] at h
    cases hinner : evaluate expr row with
    | error e =>
      rw [hinner] at h
      cases h
    | ok w =>
      rw [hinner] at h
      rw [evalExpression, ih hinner]
      cases w <;> exact Except.ok.inj h
  | binary op left right ihl ihr =>
    rw [evaluate] at h
    cases hl : evaluate left row with
    | error e =>
      rw [hl] at h
      cases h
    | ok l =>
      cases hr : evaluate right row with
      | error e =>
        rw [hl, hr] at h
        cases h
      | ok r =>
        rw [hl, hr] at h
        rw [evalExpression, ihl hl, ihr hr]
        exact evalBinary_of_applyBinary h

theorem evaluate_not (h : evaluate expr row = .ok v) :
    ∃ w, evaluate (.not expr) row = .ok w ∧
      w.exact = match v.exact with
        | .bool b => .bool (!b)
        | _ => .null := by
  rw [evaluate, h]
  cases v <;> exact ⟨_, rfl, rfl⟩

theorem evaluate_binary (hl : evaluate left row = .ok l) (hr : evaluate right row = .ok r) :
    evaluate (.binary op left right) row = applyBinary op l r := by
  rw [evaluate, hl, hr]
  rfl

/-- In range the program computes over the integers. -/
theorem evaluate_exact (h : InRange expr row) :
    ∃ v, evaluate expr row = .ok v ∧ v.exact = exactly expr row := by
  induction expr with
  | literal v => exact ⟨v, rfl, rfl⟩
  | columnRef name => exact ⟨_, rfl, rfl⟩
  | not expr ih =>
    obtain ⟨v, hv, hexact⟩ := ih h
    obtain ⟨w, hw, hnot⟩ := evaluate_not hv
    refine ⟨w, hw, ?_⟩
    rw [hnot, hexact]
    rfl
  | binary op left right ihl ihr =>
    obtain ⟨hleft, hright, hrange⟩ := h
    obtain ⟨l, hl, hlexact⟩ := ihl hleft
    obtain ⟨r, hr, hrexact⟩ := ihr hright
    rw [← hlexact, ← hrexact] at hrange
    obtain ⟨v, hv, hexact⟩ := applyBinary_exact hrange
    refine ⟨v, (evaluate_binary hl hr).trans hv, ?_⟩
    rw [hexact, hlexact, hrexact]
    rfl

/-- In range the evaluation of the executor is the one over the integers. -/
theorem evalExpression_exact (h : InRange expr row) :
    (evalExpression expr row).exact = exactly expr row := by
  obtain ⟨v, hv, hexact⟩ := evaluate_exact h
  rw [evalExpression_of_evaluate hv]
  exact hexact

theorem mem_integerOperations_binary {o : ArithmeticOp × Int64 × Int64}
    (hl : evaluate left row = .ok l) (hr : evaluate right row = .ok r) :
    o ∈ integerOperations (.binary op left right) row ↔
      o ∈ integerOperations left row ∨ o ∈ integerOperations right row ∨
        op.arithmetic? = some o.1 ∧ l = .int o.2.1 ∧ r = .int o.2.2 := by
  obtain ⟨a, i, j⟩ := o
  rw [integerOperations, hl, hr, List.mem_append, List.mem_append, or_assoc]
  apply or_congr_right
  apply or_congr_right
  split
  · next a' i' j' hop hl' hr' =>
    cases hl'
    cases hr'
    rw [hop, List.mem_singleton]
    constructor
    · intro he
      cases he
      exact ⟨rfl, rfl, rfl⟩
    · rintro ⟨ha, hi, hj⟩
      cases ha
      cases hi
      cases hj
      rfl
  · next hnone =>
    constructor
    · intro hmem
      cases hmem
    · rintro ⟨ha, rfl, rfl⟩
      exact absurd rfl (hnone a i j ha rfl)

/-- Every integer operation of the evaluation gives its mathematical value, or null or an error
where 64 bits do not hold it, if and only if they always hold it. -/
theorem arithmeticSound_iff (expr : Expression) (row : Row) :
    ArithmeticSound expr row ↔ InRange expr row := by
  unfold ArithmeticSound
  induction expr with
  | literal v => exact ⟨fun _ => trivial, fun _ o ho => by cases ho⟩
  | columnRef name => exact ⟨fun _ => trivial, fun _ o ho => by cases ho⟩
  | not expr ih => exact ih
  | binary op left right ihl ihr =>
    constructor
    · intro hsound
      have hleft := ihl.1 fun o ho => hsound o (by
        rw [integerOperations]
        exact List.mem_append_left _ (List.mem_append_left _ ho))
      have hright := ihr.1 fun o ho => hsound o (by
        rw [integerOperations]
        exact List.mem_append_left _ (List.mem_append_right _ ho))
      refine ⟨hleft, hright, ?_⟩
      intro a ha i j hi hj
      obtain ⟨l, hl, hlexact⟩ := evaluate_exact hleft
      obtain ⟨r, hr, hrexact⟩ := evaluate_exact hright
      rw [hi] at hlexact
      rw [hj] at hrexact
      cases l <;> cases hlexact
      cases r <;> cases hrexact
      next i j =>
      have hmem := (mem_integerOperations_binary (o := (a, i, j)) hl hr).2 (.inr (.inr ⟨ha, rfl, rfl⟩))
      exact ArithmeticOp.meets_iff.1 (hsound _ hmem)
    · intro hrange o ho
      obtain ⟨l, hl, hlexact⟩ := evaluate_exact hrange.1
      obtain ⟨r, hr, hrexact⟩ := evaluate_exact hrange.2.1
      rcases (mem_integerOperations_binary hl hr).1 ho with ho | ho | ⟨ha, rfl, rfl⟩
      · exact ihl.2 hrange.1 o ho
      · exact ihr.2 hrange.2.1 o ho
      · exact ArithmeticOp.meets_iff.2 (hrange.2.2 _ ha _ _ hlexact.symm hrexact.symm)

/-- `9223372036854775807 + 1`, and `(-9223372036854775807 - 1) / -1`, which traps. -/
theorem arithmetic_overflow :
    let integer (i : Int64) : Expression := .literal (.int i)
    let minus (expr : Expression) : Expression := .binary .sub (integer 0) expr
    let sum := Expression.binary .add (integer 9223372036854775807) (integer 1)
    let quotient := Expression.binary .div
      (.binary .sub (minus (integer 9223372036854775807)) (integer 1)) (minus (integer 1))
    ¬ ArithmeticSound sum ∅ ∧ ¬ ArithmeticSound quotient ∅ := by
  intro integer minus sum quotient
  constructor
  · intro h
    have hmem : (ArithmeticOp.add, 9223372036854775807, 1) ∈ integerOperations sum ∅ := by
      decide +kernel
    have hfits := ArithmeticOp.meets_iff.1 (h _ hmem) _ rfl
    revert hfits
    decide
  · intro h
    have hmem : (ArithmeticOp.div, -9223372036854775808, -1) ∈ integerOperations quotient ∅ := by
      decide +kernel
    have hfits := ArithmeticOp.meets_iff.1 (h _ hmem) _ rfl
    revert hfits
    decide

end

end JiaMiaoDB
