import JiaMiaoDB.Types

/-! Evaluation of expressions on a row. An evaluation always gives a value; what has no meaning is
null, or false for a comparison. Integers wrap around as the target machine's do. -/

set_option autoImplicit false

namespace JiaMiaoDB

def isTrue : Value → Bool
  | .bool b => b
  | _ => false

/-- An ordering test on values of comparable types. -/
def compareWith (onStrings : Str → Str → Bool) (onInts : Int64 → Int64 → Bool)
    (onDoubles : Binary64 → Binary64 → Bool) : Value → Value → Bool
  | .string s, .string t => onStrings s t
  | .int i, .int j => onInts i j
  | .double x, .double y => onDoubles x y
  | .int i, .double y => onDoubles (Binary64.ofInt i.toInt) y
  | .double x, .int j => onDoubles x (Binary64.ofInt j.toInt)
  | _, _ => false

def less : Value → Value → Bool :=
  compareWith (fun s t => compare s t = .lt) (fun i j => i < j) Binary64.lt

def lessEqual : Value → Value → Bool :=
  compareWith (fun s t => (compare s t).isLE) (fun i j => i ≤ j) Binary64.le

def arith (onInts : Int64 → Int64 → Int64) (onDoubles : Binary64 → Binary64 → Binary64) :
    Value → Value → Value
  | .int i, .int j => .int (onInts i j)
  | .int i, .double y => .double (onDoubles (Binary64.ofInt i.toInt) y)
  | .double x, .int j => .double (onDoubles x (Binary64.ofInt j.toInt))
  | .double x, .double y => .double (onDoubles x y)
  | _, _ => .null

/-- Division mixes no types and has no value for a zero divisor. -/
def divide : Value → Value → Value
  | .int i, .int j => if j = 0 then .null else .int (i / j)
  | .double x, .double y => if y.eq (Binary64.zero false) then .null else .double (x.div y)
  | _, _ => .null

def evalBinary : BinaryOp → Value → Value → Value
  | .eq, l, r => .bool (l.eqv r)
  | .ne, l, r => .bool (!l.eqv r)
  | .lt, l, r => .bool (less l r)
  | .gt, l, r => .bool (less r l)
  | .le, l, r => .bool (lessEqual l r)
  | .ge, l, r => .bool (lessEqual r l)
  | .and, l, r => .bool (isTrue l && isTrue r)
  | .or, l, r => .bool (isTrue l || isTrue r)
  | .add, l, r => arith (· + ·) Binary64.add l r
  | .sub, l, r => arith (· - ·) Binary64.sub l r
  | .mul, l, r => arith (· * ·) Binary64.mul l r
  | .div, l, r => divide l r

def evalExpression : Expression → Row → Value
  | .literal v, _ => v
  | .columnRef name, row => row.getD name .null
  | .not expr, row =>
    match evalExpression expr row with
    | .bool b => .bool (!b)
    | _ => .null
  | .binary op left right, row => evalBinary op (evalExpression left row) (evalExpression right row)

/-- Whether a row passes a WHERE clause; a missing one lets every row pass. -/
def passes (filter : Option Expression) (row : Row) : Bool :=
  filter.all fun expr => isTrue (evalExpression expr row)

@[simp] theorem passes_none (row : Row) : passes none row = true := rfl

@[simp] theorem passes_some (expr : Expression) (row : Row) :
    passes (some expr) row = isTrue (evalExpression expr row) := rfl

end JiaMiaoDB
