import Mathlib.Data.List.TakeWhile
import Mathlib.Algebra.Order.Ring.Int
import Mathlib.Tactic.Linarith
import Std.Data.ExtTreeMap.Lemmas

/-!
# Byte strings and decimal numerals

A `std::string` is a list of bytes: payloads, configuration values and request
bodies may hold any byte, and nothing requires them to be valid UTF-8.
-/

namespace Can2Rest.Foundation

abbrev Bytes := List UInt8

abbrev StringMap := Std.ExtTreeMap Bytes Bytes

/-- The bytes of an ASCII literal of the source. -/
def ascii (text : String) : Bytes :=
  text.toList.map fun c => UInt8.ofNat c.toNat

/-- `std::string(s.c_str())`: what is left of a string read up to its first NUL. -/
def cStr (text : Bytes) : Bytes := text.takeWhile (· ≠ 0)

theorem cStr_eq_self_iff {text : Bytes} : cStr text = text ↔ 0 ∉ text := by
  unfold cStr
  rw [List.takeWhile_eq_self_iff]
  constructor
  · intro h hzero
    simpa using h 0 hzero
  · intro h c hc
    have hne : c ≠ 0 := ne_of_mem_of_not_mem hc h
    simpa using hne

/-! ## Decimal numerals -/

def isDigit (c : UInt8) : Bool := 48 ≤ c && c ≤ 57

def ofDigits (digits : Bytes) : Nat :=
  digits.foldl (fun value c => 10 * value + (c.toNat - 48)) 0

def digitByte (c : Char) : UInt8 := UInt8.ofNat c.toNat

/-- `std::to_string` of an unsigned integer. -/
def toDecimal (n : Nat) : Bytes := (Nat.toDigits 10 n).map digitByte

/-- `std::to_string` of a signed integer, and the `%d` of `snprintf`. -/
def intToDecimal : Int → Bytes
  | .ofNat n => toDecimal n
  | .negSucc n => 45 :: toDecimal (n + 1)

private theorem digitByte_toNat {c : Char} (h : c.isDigit) :
    (digitByte c).toNat = c.toNat := by
  simp only [Char.isDigit, Bool.and_eq_true, decide_eq_true_eq] at h
  have hle : c.toNat ≤ 57 := h.2
  simp only [digitByte, UInt8.toNat_ofNat']
  omega

private theorem foldl_digitByte (digits : List Char)
    (hdigits : ∀ c ∈ digits, c.isDigit) (value : Nat) :
    (digits.map digitByte).foldl
        (fun value c => 10 * value + (c.toNat - 48)) value =
      Nat.ofDigitChars 10 digits value := by
  induction digits generalizing value with
  | nil => simp
  | cons c digits ih =>
      rw [List.map_cons, List.foldl_cons, Nat.ofDigitChars_cons,
        digitByte_toNat (hdigits c (by simp)), ih (fun d hd => hdigits d (by simp [hd]))]
      rfl

@[simp] theorem ofDigits_toDecimal (n : Nat) : ofDigits (toDecimal n) = n := by
  unfold ofDigits toDecimal
  rw [foldl_digitByte _ fun c hc =>
    Nat.isDigit_of_mem_toDigits (by omega) (by omega) hc]
  exact Nat.ofDigitChars_ten_toDigits

theorem toDecimal_injective : Function.Injective toDecimal := by
  intro first second h
  simpa using congrArg ofDigits h

theorem toDecimal_ne_nil (n : Nat) : toDecimal n ≠ [] := by
  simp [toDecimal, Nat.toDigits_ne_nil]

theorem isDigit_of_mem_toDecimal {n : Nat} {c : UInt8} (h : c ∈ toDecimal n) :
    isDigit c := by
  obtain ⟨d, hd, rfl⟩ := List.mem_map.mp h
  have hdigit := Nat.isDigit_of_mem_toDigits (by omega) (by omega) hd
  have hvalue := digitByte_toNat hdigit
  simp only [Char.isDigit, Bool.and_eq_true, decide_eq_true_eq] at hdigit
  have hlower : 48 ≤ d.toNat := hdigit.1
  have hupper : d.toNat ≤ 57 := hdigit.2
  simp only [isDigit, Bool.and_eq_true, decide_eq_true_eq, UInt8.le_iff_toNat_le]
  rw [hvalue]
  exact ⟨hlower, hupper⟩

theorem length_toDecimal_le_iff {n k : Nat} (h : 0 < k) :
    (toDecimal n).length ≤ k ↔ n < 10 ^ k := by
  rw [toDecimal, List.length_map, Nat.length_toDigits_le_iff (by omega) h]

private theorem foldl_lt {digits : Bytes} (h : ∀ c ∈ digits, isDigit c) (value : Nat) :
    digits.foldl (fun value c => 10 * value + (c.toNat - 48)) value <
      (value + 1) * 10 ^ digits.length := by
  induction digits generalizing value with
  | nil => simp
  | cons c digits ih =>
      have hc := h c (by simp)
      simp only [isDigit, Bool.and_eq_true, decide_eq_true_eq,
        UInt8.le_iff_toNat_le] at hc
      have hupper : c.toNat ≤ 57 := hc.2
      have hnext := ih (fun d hd => h d (by simp [hd])) (10 * value + (c.toNat - 48))
      have hstep : 10 * value + (c.toNat - 48) + 1 ≤ (value + 1) * 10 := by omega
      calc
        _ < (10 * value + (c.toNat - 48) + 1) * 10 ^ digits.length := hnext
        _ ≤ (value + 1) * 10 * 10 ^ digits.length := Nat.mul_le_mul_right _ hstep
        _ = (value + 1) * 10 ^ (c :: digits).length := by
            rw [List.length_cons, Nat.pow_succ', Nat.mul_assoc]

theorem ofDigits_lt {digits : Bytes} (h : ∀ c ∈ digits, isDigit c) :
    ofDigits digits < 10 ^ digits.length := by
  simpa [ofDigits] using foldl_lt h 0

/-- The numeral of a number has no leading zero unless it is `0` itself. -/
theorem toDecimal_eq_zero_cons {n : Nat} {rest : Bytes} (h : toDecimal n = 48 :: rest) :
    rest = [] := by
  by_contra hne
  have hlength : 0 < rest.length := List.length_pos_iff.mpr hne
  have hvalue : n = ofDigits rest := by
    rw [← ofDigits_toDecimal n, h]
    rfl
  have hdigits : ∀ c ∈ rest, isDigit c := fun c hc =>
    isDigit_of_mem_toDecimal (n := n) (h ▸ List.mem_cons_of_mem _ hc)
  have hsmall : n < 10 ^ rest.length := by
    simpa [hvalue, ofDigits] using foldl_lt hdigits 0
  have hshort := (length_toDecimal_le_iff hlength).mpr hsmall
  rw [h, List.length_cons] at hshort
  omega

/-! ## The conversions of the C library -/

/-- `isspace` in the C locale. -/
def isSpace (c : UInt8) : Bool := c = 32 || (9 ≤ c && c ≤ 13)

def leadingDigits (text : Bytes) : Nat := ofDigits (text.takeWhile isDigit)

/-- `strtol(text, NULL, 10)` with a 64-bit `long`: it saturates. -/
def strtol (text : Bytes) : Int :=
  let value : Int :=
    match text.dropWhile isSpace with
    | 45 :: digits => -(leadingDigits digits : Int)
    | 43 :: digits => leadingDigits digits
    | digits => leadingDigits digits
  max (-(2 ^ 63)) (min value (2 ^ 63 - 1))

/-- `std::atoi`, which is `(int) strtol(text, NULL, 10)`. -/
def atoi (text : Bytes) : Int := Int.bmod (strtol text) (2 ^ 32)

example : atoi (ascii " -12x") = -12 := by decide

private theorem takeWhile_isDigit {digits : Bytes}
    (h : ∀ c ∈ digits, isDigit c) : digits.takeWhile isDigit = digits :=
  List.takeWhile_eq_self_iff.mpr h

private theorem not_isSpace_of_isDigit {c : UInt8} (h : isDigit c) :
    isSpace c = false := by
  simp only [isDigit, Bool.and_eq_true, decide_eq_true_eq,
    UInt8.le_iff_toNat_le, UInt8.toNat_ofNat] at h
  simp only [isSpace, Bool.or_eq_false_iff, Bool.and_eq_false_iff,
    decide_eq_false_iff_not, UInt8.le_iff_toNat_le, ← UInt8.toNat_inj, UInt8.toNat_ofNat]
  omega

theorem strtol_digits {digits : Bytes} (h : ∀ c ∈ digits, isDigit c) :
    strtol digits = min (ofDigits digits : Int) (2 ^ 63 - 1) := by
  have hspace : digits.dropWhile isSpace = digits := by
    cases digits with
    | nil => rfl
    | cons c rest =>
        rw [List.dropWhile_cons, not_isSpace_of_isDigit (h c (by simp))]
        rfl
  have hleading : leadingDigits digits = ofDigits digits := by
    rw [leadingDigits, takeWhile_isDigit h]
  unfold strtol
  rw [hspace]
  split
  · have hsign := h 45 (by simp)
    simp [isDigit] at hsign
  · have hsign := h 43 (by simp)
    simp [isDigit] at hsign
  · simp only [hleading]
    omega

theorem atoi_digits {digits : Bytes} (h : ∀ c ∈ digits, isDigit c)
    (hsmall : ofDigits digits < 2 ^ 31) : atoi digits = ofDigits digits := by
  rw [atoi, strtol_digits h, min_eq_left (by omega),
    Int.bmod_eq_of_le (by omega) (by omega)]

end Can2Rest.Foundation
