import Can2Rest.Foundation.Text
import Mathlib.Data.Int.Log
import Mathlib.Data.Rat.Floor

/-!
# The values of a C++ `double`

A finite `double` is the rational number it denotes; the sign of zero is not
kept and a NaN is not represented, since no decimal numeral denotes one.
-/

namespace Can2Rest.Foundation

inductive Binary64 where
  | finite (value : ℚ)
  | infinite (negative : Bool)
  deriving DecidableEq

namespace Binary64

def roundEven (x : ℚ) : ℤ :=
  let down := x.floor
  let rest := x - down
  if rest < 1 / 2 then down
  else if 1 / 2 < rest then down + 1
  else if down % 2 = 0 then down
  else down + 1

/-- Rounding to nearest with 53 significant bits and exponents from -1074. -/
def ofRat (x : ℚ) : Binary64 :=
  if x = 0 then .finite 0
  else
    let ulp := max (Int.log 2 |x| - 52) (-1074)
    let rounded : ℚ := roundEven (x / 2 ^ ulp) * 2 ^ ulp
    if 2 ^ 1024 ≤ |rounded| then .infinite (x < 0) else .finite rounded

/-- `strtod` on a decimal numeral given by its parts. -/
def strtod (negative : Bool) (whole fraction : Bytes) (exponent : ℤ) :
    Binary64 :=
  let magnitude : ℚ :=
    ofDigits (whole ++ fraction) * 10 ^ (exponent - fraction.length)
  ofRat (if negative then -magnitude else magnitude)

/-! ## Conversion to integers -/

def truncate (x : ℚ) : ℤ := x.num.tdiv x.den

/--
What the compiled program computes where a conversion from `double` is
undefined in C++.  Nothing is assumed about it.
-/
structure OutOfRange where
  toUnsigned : Binary64 → UInt32
  toInt : Binary64 → Int32

/-- The conversions of x86-64: the low half of a 64-bit result, or the least `int`. -/
def OutOfRange.x86 : OutOfRange where
  toUnsigned
    | .finite value =>
        if |value| < 2 ^ 63 then UInt32.ofInt (truncate value) else 0
    | .infinite _ => 0
  toInt _ := .minValue

/-- `static_cast<unsigned int>`. -/
def toUnsigned (undefined : OutOfRange) (x : Binary64) : UInt32 :=
  match x with
  | .finite value =>
      if 0 ≤ truncate value ∧ truncate value < 2 ^ 32 then
        UInt32.ofNat (truncate value).toNat
      else undefined.toUnsigned x
  | .infinite _ => undefined.toUnsigned x

/-- `static_cast<int>`. -/
def toInt (undefined : OutOfRange) (x : Binary64) : ℤ :=
  match x with
  | .finite value =>
      if -(2 ^ 31) ≤ truncate value ∧ truncate value < 2 ^ 31 then
        truncate value
      else (undefined.toInt x).toInt
  | .infinite _ => (undefined.toInt x).toInt

@[simp] theorem truncate_intCast (n : ℤ) : truncate n = n := by
  simp [truncate]

theorem toUnsigned_natCast (undefined : OutOfRange) {n : ℕ} (h : n < 2 ^ 32) :
    toUnsigned undefined (.finite n) = UInt32.ofNat n := by
  have htruncate : truncate (n : ℚ) = n := truncate_intCast n
  simp only [toUnsigned, htruncate]
  rw [if_pos ⟨by omega, by omega⟩, Int.toNat_natCast]

theorem toInt_intCast (undefined : OutOfRange) {n : ℤ}
    (hlower : -(2 ^ 31) ≤ n) (hupper : n < 2 ^ 31) :
    toInt undefined (.finite n) = n := by
  simp only [toInt, truncate_intCast]
  rw [if_pos ⟨hlower, hupper⟩]

/-! ## Printing -/

def dropTrailingZeros (digits : Bytes) : Bytes :=
  (digits.reverse.dropWhile (· = 48)).reverse

def withFraction (whole fraction : Bytes) : Bytes :=
  match dropTrailingZeros fraction with
  | [] => whole
  | digits => whole ++ 46 :: digits

/-- The seventeen significant digits of a positive number and its decimal exponent. -/
def significant (x : ℚ) : Bytes × ℤ :=
  let exponent := Int.log 10 x
  let digits := roundEven (x / 10 ^ (exponent - 16))
  if digits = 10 ^ 17 then (toDecimal (10 ^ 16), exponent + 1)
  else (toDecimal digits.toNat, exponent)

/-- `snprintf(buf, sizeof buf, "%.17g", value)` of a finite value. -/
def formatG17 (x : ℚ) : Bytes :=
  if x = 0 then ascii "0"
  else
    let (digits, exponent) := significant |x|
    let sign := if x < 0 then ascii "-" else []
    if -4 ≤ exponent ∧ exponent < 0 then
      sign ++ withFraction (ascii "0")
        (List.replicate (-exponent - 1).toNat 48 ++ digits)
    else if 0 ≤ exponent ∧ exponent < 17 then
      let whole := (exponent + 1).toNat
      sign ++ withFraction (digits.take whole) (digits.drop whole)
    else
      let power := toDecimal exponent.natAbs
      sign ++ withFraction (digits.take 1) (digits.drop 1) ++
        (if exponent < 0 then ascii "e-" else ascii "e+") ++
        (if power.length < 2 then 48 :: power else power)

end Binary64

end Can2Rest.Foundation
