import JiaMiaoDB.Lib.ByteFormat
import Mathlib.Tactic.Linarith

/-!
# Binary64 arithmetic on bit patterns

A finite double is an integer multiple of `2 ^ -1074`; `scaled` is that integer. Every operation
computes the exact result as a quotient of naturals and rounds once, to nearest with ties to even.
Decimal text follows `printf "%f"` and `strtod`.
-/

set_option autoImplicit false

/-- A double, as its 64 bits. -/
structure Binary64 where
  bits : UInt64
deriving DecidableEq, Repr

namespace Binary64

def sign (x : Binary64) : Bool := decide (2 ^ 63 ≤ x.bits.toNat)

def magnitudeBits (x : Binary64) : Nat := x.bits.toNat % 2 ^ 63

def infinityBits : Nat := 2047 * 2 ^ 52

def isNaN (x : Binary64) : Bool := decide (infinityBits < x.magnitudeBits)

def isInf (x : Binary64) : Bool := x.magnitudeBits == infinityBits

/-- The magnitude of a finite double in units of `2 ^ -1074`. -/
def units (x : Binary64) : Nat :=
  let e := x.magnitudeBits / 2 ^ 52
  let m := x.magnitudeBits % 2 ^ 52
  if e = 0 then m else (2 ^ 52 + m) * 2 ^ (e - 1)

def scaled (x : Binary64) : Int := if x.sign then -(x.units : Int) else x.units

/-- The place of a double that is not a NaN in the order of the extended reals. -/
def order (x : Binary64) : Int :=
  if x.isInf then (if x.sign then -(2 ^ 2200 : Nat) else (2 ^ 2200 : Nat)) else x.scaled

def eq (x y : Binary64) : Bool := !x.isNaN && !y.isNaN && x.order == y.order

def lt (x y : Binary64) : Bool := !x.isNaN && !y.isNaN && decide (x.order < y.order)

def le (x y : Binary64) : Bool := !x.isNaN && !y.isNaN && decide (x.order ≤ y.order)

theorem eq_comm (x y : Binary64) : eq x y = eq y x := by
  simp only [eq, Bool.and_comm (!x.isNaN), Bool.beq_comm (a := x.order)]

theorem eq_trans {x y z : Binary64} (hxy : eq x y = true) (hyz : eq y z = true) :
    eq x z = true := by
  simp only [eq, Bool.and_eq_true, beq_iff_eq, Bool.not_eq_eq_eq_not, Bool.not_true] at hxy hyz ⊢
  exact ⟨⟨hxy.1.1, hyz.1.2⟩, hxy.2.trans hyz.2⟩

section Order
variable {x y : Binary64}

theorem eq_iff (hx : x.isNaN = false) (hy : y.isNaN = false) :
    x.eq y = true ↔ x.order = y.order := by
  simp only [eq, hx, hy, Bool.not_false, Bool.true_and, beq_iff_eq]

theorem lt_iff (hx : x.isNaN = false) (hy : y.isNaN = false) :
    x.lt y = true ↔ x.order < y.order := by
  simp only [lt, hx, hy, Bool.not_false, Bool.true_and, decide_eq_true_eq]

theorem le_iff (hx : x.isNaN = false) (hy : y.isNaN = false) :
    x.le y = true ↔ x.order ≤ y.order := by
  simp only [le, hx, hy, Bool.not_false, Bool.true_and, decide_eq_true_eq]

/-- A NaN is below nothing and above nothing. -/
theorem not_nan_of_lt (h : x.lt y = true) : x.isNaN = false ∧ y.isNaN = false := by
  simp only [lt, Bool.and_eq_true, Bool.not_eq_eq_eq_not, Bool.not_true] at h
  exact h.1

end Order

/-- `num / den`, rounded to the nearest integer with ties to even. -/
def roundHalfEven (num den : Nat) : Nat :=
  let q := num / den
  let r := num % den
  if 2 * r < den then q
  else if den < 2 * r then q + 1
  else if q % 2 = 0 then q else q + 1

def withSign (negative : Bool) (magnitude : Nat) : Binary64 :=
  ⟨UInt64.ofNat (magnitude + if negative then 2 ^ 63 else 0)⟩

/-- The double nearest to `num / den` units; an overflow gives an infinity. -/
def round (negative : Bool) (num den : Nat) : Binary64 :=
  let shift := Nat.log2 (num / den) - 52
  let m := roundHalfEven num (den * 2 ^ shift)
  withSign negative (min infinityBits (shift * 2 ^ 52 + m))

theorem isNaN_withSign (negative : Bool) {magnitude : Nat} (h : magnitude ≤ infinityBits) :
    (withSign negative magnitude).isNaN = false := by
  have hbound : infinityBits < 2 ^ 63 := by decide
  have hbits : (withSign negative magnitude).magnitudeBits = magnitude := by
    unfold withSign magnitudeBits
    rw [UInt64.toNat_ofNat']
    split <;> omega
  rw [isNaN, hbits, decide_eq_false_iff_not]
  exact Nat.not_lt.mpr h

/-- Rounding reaches an infinity at most. -/
theorem isNaN_round (negative : Bool) (num den : Nat) : (round negative num den).isNaN = false :=
  isNaN_withSign negative (Nat.min_le_left ..)

def unit : Nat := 2 ^ 1074

def nan : Binary64 := ⟨0xFFF8000000000000⟩

def zero (negative : Bool) : Binary64 := withSign negative 0

def inf (negative : Bool) : Binary64 := withSign negative infinityBits

def quiet (x : Binary64) : Binary64 := ⟨x.bits ||| 0x0008000000000000⟩

/-- The operand that a NaN result is taken from, the first one first. -/
def nanOperand (x y : Binary64) : Option Binary64 :=
  if x.isNaN then some x.quiet else if y.isNaN then some y.quiet else none

def ofInt (i : Int) : Binary64 := round (decide (i < 0)) (i.natAbs * unit) 1

theorem isNaN_ofInt (i : Int) : (ofInt i).isNaN = false := isNaN_round ..

def add (x y : Binary64) : Binary64 :=
  match nanOperand x y with
  | some n => n
  | none =>
    if x.isInf then (if y.isInf && x.sign != y.sign then nan else x)
    else if y.isInf then y
    else
      let k := x.scaled + y.scaled
      if k = 0 then zero (x.sign && y.sign) else round (decide (k < 0)) k.natAbs 1

def neg (x : Binary64) : Binary64 := ⟨x.bits ^^^ 0x8000000000000000⟩

def sub (x y : Binary64) : Binary64 :=
  match nanOperand x y with
  | some n => n
  | none => add x y.neg

def mul (x y : Binary64) : Binary64 :=
  match nanOperand x y with
  | some n => n
  | none =>
    let s := x.sign != y.sign
    if x.isInf || y.isInf then
      (if x.order = 0 || y.order = 0 then nan else inf s)
    else round s (x.units * y.units) unit

def div (x y : Binary64) : Binary64 :=
  match nanOperand x y with
  | some n => n
  | none =>
    let s := x.sign != y.sign
    if x.isInf then (if y.isInf then nan else inf s)
    else if y.isInf then zero s
    else if y.units = 0 then (if x.units = 0 then nan else inf s)
    else round s (x.units * unit) y.units

/-- Truncation to 64 bits; what does not fit gives the least integer, as `cvttsd2si` does. -/
def toInt64 (x : Binary64) : Int64 :=
  let t : Int := if x.sign then -(x.units / unit : Nat) else (x.units / unit : Nat)
  if x.isNaN || x.isInf || t < -2 ^ 63 || 2 ^ 63 ≤ t then Int64.minValue else Int64.ofInt t

section Text

/-- Decimal digits of a natural number, in ASCII. -/
def decimal (n : Nat) : Bytes := (Nat.toDigits 10 n).map fun c => UInt8.ofNat c.toNat

def padLeft (width : Nat) (bs : Bytes) : Bytes :=
  List.replicate (width - bs.length) 48 ++ bs

/-- `printf "%f"`: six digits after the point, rounded from the exact value. -/
def toDecimal (x : Binary64) : Bytes :=
  let signText : Bytes := if x.sign then [45] else []
  if x.isNaN then signText ++ [110, 97, 110]
  else if x.isInf then signText ++ [105, 110, 102]
  else
    let millionths := roundHalfEven (x.units * 10 ^ 6) unit
    signText ++ decimal (millionths / 10 ^ 6) ++ [46] ++
      padLeft 6 (decimal (millionths % 10 ^ 6))

/-- The decimal exponent of a positive `units`, searched from `-n` downwards below one. -/
def decimalExponent (units : Nat) : Nat → Nat → Int
  | 0, n => -(n : Int)
  | fuel + 1, n =>
    if unit ≤ units * 10 ^ n then ((decimal (units * 10 ^ n / unit)).length : Int) - 1 - n
    else decimalExponent units fuel (n + 1)

def dropTrailingZeros (bs : Bytes) : Bytes := (bs.reverse.dropWhile (· == 48)).reverse

def withFraction (whole fraction : Bytes) : Bytes :=
  match dropTrailingZeros fraction with
  | [] => whole
  | f => whole ++ [46] ++ f

/-- `printf "%g"`: six significant digits without trailing zeros. -/
def toGeneral (x : Binary64) : Bytes :=
  let signText : Bytes := if x.sign then [45] else []
  if x.isNaN then signText ++ [110, 97, 110]
  else if x.isInf then signText ++ [105, 110, 102]
  else if x.units = 0 then signText ++ [48]
  else
    let e := decimalExponent x.units 400 0
    let m := roundHalfEven (x.units * 10 ^ (5 - e).toNat) (unit * 10 ^ (e - 5).toNat)
    let (m, e) := if m = 10 ^ 6 then (10 ^ 5, e + 1) else (m, e)
    let ds := decimal m
    if e < -4 ∨ 6 ≤ e then
      let exponentText := padLeft 2 (decimal e.natAbs)
      signText ++ withFraction (ds.take 1) (ds.drop 1) ++ [101, if e < 0 then 45 else 43] ++
        exponentText
    else if 0 ≤ e then
      signText ++ withFraction (ds.take (e.toNat + 1)) (ds.drop (e.toNat + 1))
    else
      signText ++ withFraction [48] (List.replicate (-e - 1).toNat 48 ++ ds)

def isInteger (x : Binary64) : Bool := !x.isNaN && !x.isInf && x.units % unit == 0

def isSpace (b : UInt8) : Bool := b == 32 || (9 ≤ b && b ≤ 13)

def digit? (base : Nat) (b : UInt8) : Option Nat :=
  let n := b.toNat
  let d := if 48 ≤ n ∧ n ≤ 57 then n - 48
    else if 97 ≤ n ∧ n ≤ 122 then n - 87
    else if 65 ≤ n ∧ n ≤ 90 then n - 55 else base
  if d < base then some d else none

/-- Reads digits while there are any: value, how many, rest. -/
def digits (base : Nat) : Bytes → Nat → Nat → Nat × Nat × Bytes
  | [], acc, count => (acc, count, [])
  | b :: bs, acc, count =>
    match digit? base b with
    | some d => digits base bs (acc * base + d) (count + 1)
    | none => (acc, count, b :: bs)

/-- Whitespace and a sign, then the rest. -/
def signed (bs : Bytes) : Bool × Bytes :=
  match bs.dropWhile isSpace with
  | 45 :: rest => (true, rest)
  | 43 :: rest => (false, rest)
  | rest => (false, rest)

def lower (b : UInt8) : UInt8 := if 65 ≤ b && b ≤ 90 then b + 32 else b

def startsWith (word bs : Bytes) : Bool := word.isPrefixOf (bs.map lower)

/-- An exponent after its marker; a marker without digits is not part of the number. -/
def exponent (marker : UInt8) (bs : Bytes) : Int :=
  match bs with
  | b :: rest =>
    if lower b == marker then
      let (negative, body) := match rest with
        | 45 :: r => (true, r)
        | 43 :: r => (false, r)
        | r => (false, r)
      let (e, _, _) := digits 10 body 0 0
      if negative then -(e : Int) else e
    else 0
  | [] => 0

/-- Mantissa digits in `base` around an optional point: value, digits read, digits after the
point, rest. -/
def mantissa (base : Nat) (bs : Bytes) : Nat × Nat × Nat × Bytes :=
  let (whole, n, rest) := digits base bs 0 0
  match rest with
  | 46 :: body =>
    let (all, m, rest') := digits base body whole 0
    if n + m = 0 then (0, 0, 0, bs) else (all, n + m, m, rest')
  | _ => (whole, n, 0, rest)

/-- What `strtod` reports. -/
inductive Parsed where
  | noConversion
  | outOfRange
  | value (x : Binary64)
deriving DecidableEq, Repr

/-- `m * radix ^ e`, where an overflow or an inexact tiny result is a range error. Exponents far
outside the format are cut off first. -/
def scale (negative : Bool) (m radix : Nat) (e : Int) (digitCount : Nat) : Parsed :=
  if m = 0 then .value (zero negative)
  else if 5000 < e then .outOfRange
  else if e + digitCount * 4 < -5000 then .outOfRange
  else
    let num := m * unit * radix ^ e.toNat
    let den := radix ^ (-e).toNat
    let x := round negative num den
    if x.isInf then .outOfRange
    else if 4 * num < (2 ^ 54 - 1) * den ∧ x.units * den ≠ num then .outOfRange
    else .value x

/-- `strtod` on the bytes before the first NUL. -/
def strtod (text : Bytes) : Parsed :=
  let (negative, body) := signed (text.takeWhile (· != 0))
  if startsWith [105, 110, 102] body then .value (inf negative)
  else if startsWith [110, 97, 110] body then .value (if negative then nan else neg nan)
  else
    let hex := startsWith [48, 120] body && (mantissa 16 (body.drop 2)).2.1 != 0
    if hex then
      let (m, count, after, rest) := mantissa 16 (body.drop 2)
      scale negative m 2 (exponent 112 rest - 4 * after) count
    else
      let (m, count, after, rest) := mantissa 10 body
      if count = 0 then .noConversion
      else scale negative m 10 (exponent 101 rest - after) count

/-- What `strtoll` in base ten reports. -/
inductive ParsedInt where
  | noConversion
  | outOfRange
  | value (i : Int64)
deriving DecidableEq, Repr

def strtoll (text : Bytes) : ParsedInt :=
  let (negative, body) := signed (text.takeWhile (· != 0))
  let (n, count, _) := digits 10 body 0 0
  let i : Int := if negative then -(n : Int) else n
  if count = 0 then .noConversion
  else if i < -2 ^ 63 ∨ 2 ^ 63 ≤ i then .outOfRange
  else .value (Int64.ofInt i)

end Text

example : (add (ofInt 1) (ofInt 2)) = ofInt 3 := by decide +kernel
example : strtod [49, 46, 53] = .value ⟨0x3FF8000000000000⟩ := by decide +kernel

end Binary64
