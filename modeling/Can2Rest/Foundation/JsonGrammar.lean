import Can2Rest.Foundation.Text

/-!
# The grammar of JSON

The derivations of JSON texts, over bytes.  That the bytes of a text are valid
UTF-8 is a condition of its own.
-/

namespace Can2Rest.Foundation.JsonText

def Space (text : Bytes) : Prop := ∀ c ∈ text, c = 32 ∨ c = 9 ∨ c = 10 ∨ c = 13

theorem space_nil : Space [] := nofun

theorem Space.append {first second : Bytes} (hfirst : Space first) (hsecond : Space second) :
    Space (first ++ second) := by
  intro c hc
  rcases List.mem_append.mp hc with hc | hc
  · exact hfirst c hc
  · exact hsecond c hc

def IsHexDigit (c : UInt8) : Prop :=
  isDigit c = true ∨ (97 ≤ c ∧ c ≤ 102) ∨ (65 ≤ c ∧ c ≤ 70)

/-- What may stand between the quotation marks of a string. -/
inductive Chars : Bytes → Prop
  | nil : Chars []
  | plain {c : UInt8} {rest : Bytes} (hcontrol : 0x20 ≤ c) (hquote : c ≠ 34) (hslash : c ≠ 92)
      (hrest : Chars rest) : Chars (c :: rest)
  | escape {c : UInt8} {rest : Bytes} (hc : c ∈ ascii "\"\\/bfnrt") (hrest : Chars rest) :
      Chars (92 :: c :: rest)
  | unicode {a b c d : UInt8} {rest : Bytes} (ha : IsHexDigit a) (hb : IsHexDigit b)
      (hc : IsHexDigit c) (hd : IsHexDigit d) (hrest : Chars rest) :
      Chars (92 :: 117 :: a :: b :: c :: d :: rest)

def Digits (text : Bytes) : Prop := ∀ c ∈ text, isDigit c = true

inductive Whole : Bytes → Prop
  | zero : Whole [48]
  | digits {c : UInt8} {rest : Bytes} (hc : isDigit c = true) (hne : c ≠ 48)
      (hrest : Digits rest) : Whole (c :: rest)

inductive Fraction : Bytes → Prop
  | none : Fraction []
  | digits {text : Bytes} (hne : text ≠ []) (h : Digits text) : Fraction (46 :: text)

inductive Exponent : Bytes → Prop
  | none : Exponent []
  | digits {e : UInt8} {sign text : Bytes} (he : e = 101 ∨ e = 69)
      (hsign : sign = [] ∨ sign = [43] ∨ sign = [45]) (hne : text ≠ []) (h : Digits text) :
      Exponent (e :: sign ++ text)

inductive Number : Bytes → Prop
  | mk {sign whole fraction exponent : Bytes} (hsign : sign = [] ∨ sign = [45])
      (hwhole : Whole whole) (hfraction : Fraction fraction) (hexponent : Exponent exponent) :
      Number (sign ++ whole ++ fraction ++ exponent)

mutual

inductive Value : Bytes → Prop
  | null : Value (ascii "null")
  | yes : Value (ascii "true")
  | no : Value (ascii "false")
  | number {text : Bytes} (h : Number text) : Value text
  | string {text : Bytes} (h : Chars text) : Value (34 :: text ++ [34])
  | emptyArray {text : Bytes} (h : Space text) : Value (91 :: text ++ [93])
  | array {text : Bytes} (h : Items text) : Value (91 :: text ++ [93])
  | emptyObject {text : Bytes} (h : Space text) : Value (123 :: text ++ [125])
  | object {text : Bytes} (h : Members text) : Value (123 :: text ++ [125])

inductive Element : Bytes → Prop
  | mk {before text after : Bytes} (hbefore : Space before) (h : Value text)
      (hafter : Space after) : Element (before ++ text ++ after)

inductive Items : Bytes → Prop
  | last {text : Bytes} (h : Element text) : Items text
  | cons {text rest : Bytes} (h : Element text) (hrest : Items rest) :
      Items (text ++ 44 :: rest)

inductive Members : Bytes → Prop
  | last {before key after text : Bytes} (hbefore : Space before) (hkey : Chars key)
      (hafter : Space after) (h : Element text) :
      Members (before ++ 34 :: key ++ 34 :: after ++ 58 :: text)
  | cons {before key after text rest : Bytes} (hbefore : Space before) (hkey : Chars key)
      (hafter : Space after) (h : Element text) (hrest : Members rest) :
      Members (before ++ 34 :: key ++ 34 :: after ++ 58 :: text ++ 44 :: rest)

end

/-! ## Decimal numerals -/

theorem whole_toDecimal (n : Nat) : Whole (toDecimal n) := by
  have hdigits : Digits (toDecimal n) := fun c hc => isDigit_of_mem_toDecimal hc
  obtain ⟨c, rest, hcons⟩ := List.exists_cons_of_ne_nil (toDecimal_ne_nil n)
  rw [hcons] at hdigits ⊢
  by_cases hzero : c = 48
  · subst hzero
    obtain rfl := toDecimal_eq_zero_cons hcons
    exact .zero
  · exact .digits (hdigits c List.mem_cons_self) hzero fun d hd =>
      hdigits d (List.mem_cons_of_mem _ hd)

theorem number_intToDecimal (n : Int) : Number (intToDecimal n) := by
  cases n with
  | ofNat n =>
      have hnumber := Number.mk (.inl rfl) (whole_toDecimal n) .none .none
      rwa [List.nil_append, List.append_nil, List.append_nil] at hnumber
  | negSucc n =>
      have hnumber := Number.mk (.inr rfl) (whole_toDecimal (n + 1)) .none .none
      rwa [List.append_nil, List.append_nil] at hnumber

end Can2Rest.Foundation.JsonText
