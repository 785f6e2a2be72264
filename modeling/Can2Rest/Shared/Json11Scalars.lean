import Can2Rest.Shared.Json11Grammar
import Can2Rest.Shared.Json11RoundTrip

/-!
# What the strings and numerals of a JSON text mean

A string stands for the bytes of its characters, and a numeral for a number in the
representation that the library chooses for it.  The parser reads these.
-/

namespace Can2Rest.Shared.Json

open Can2Rest.Foundation JsonText

/-! ## Strings -/

def IsHigh (unit : Int) : Prop := 0xD800 ≤ unit ∧ unit ≤ 0xDBFF

def IsLow (unit : Int) : Prop := 0xDC00 ≤ unit ∧ unit ≤ 0xDFFF

/-- The code point that two surrogates stand for. -/
def paired (high low : Nat) : Nat := 0x10000 + 0x400 * (high - 0xD800) + (low - 0xDC00)

/-- The text goes on with the escape of a low surrogate. -/
def BeginsLow (text : Bytes) : Prop :=
  ∃ a b c d rest low, text = 92 :: 117 :: a :: b :: c :: d :: rest ∧
    codepoint? a b c d = some low ∧ IsLow low

/--
The bytes that the characters of a string stand for.  A surrogate without its
partner is encoded on its own.
-/
inductive Decodes : Bytes → Bytes → Prop
  | nil : Decodes [] []
  | plain {ch : UInt8} {text value : Bytes} (hcontrol : 0x20 ≤ ch) (hquote : ch ≠ 34)
      (hslash : ch ≠ 92) (h : Decodes text value) : Decodes (ch :: text) (ch :: value)
  | letter {letter ch : UInt8} {text value : Bytes} (hletter : simpleEscape? letter = some ch)
      (h : Decodes text value) : Decodes (92 :: letter :: text) (ch :: value)
  | single {a b c d : UInt8} {unit : Nat} {text value : Bytes}
      (hunit : codepoint? a b c d = some unit) (halone : IsHigh unit → ¬ BeginsLow text)
      (h : Decodes text value) :
      Decodes (92 :: 117 :: a :: b :: c :: d :: text) (encodeUtf8 unit ++ value)
  | pair {a b c d a' b' c' d' : UInt8} {high low : Nat} {text value : Bytes}
      (hhigh : codepoint? a b c d = some high) (hrange : IsHigh high)
      (hlow : codepoint? a' b' c' d' = some low) (hrange' : IsLow low)
      (h : Decodes text value) :
      Decodes (92 :: 117 :: a :: b :: c :: d :: 92 :: 117 :: a' :: b' :: c' :: d' :: text)
        (encodeUtf8 (paired high low) ++ value)

theorem paired_eq {high low : Nat} (hlow : IsLow low) :
    ((high - 0xD800) <<< 10 ||| (low - 0xDC00)) + 0x10000 = paired high low := by
  unfold IsLow at hlow
  have hsmall : low - 0xDC00 < 2 ^ 10 := by omega
  have hor := Nat.two_pow_add_eq_or_of_lt hsmall (high - 0xD800)
  rw [Nat.shiftLeft_eq, Nat.mul_comm, ← hor]
  unfold paired
  omega

theorem parseStringFrom_single {a b c d : UInt8} {unit : Nat} {out rest : Bytes} {last : Int}
    (h : codepoint? a b c d = some unit) (halone : ¬ (IsHigh last ∧ IsLow unit)) :
    parseStringFrom out last (92 :: 117 :: a :: b :: c :: d :: rest) =
      parseStringFrom (out ++ encodeUtf8 last) unit rest := by
  have hpair : ¬ ((0xD800 ≤ last ∧ last ≤ 0xDBFF) ∧ 0xDC00 ≤ unit ∧ unit ≤ 0xDFFF) := by
    rintro ⟨hhigh, hlow⟩
    exact halone ⟨hhigh, by exact_mod_cast hlow.1, by exact_mod_cast hlow.2⟩
  rw [parseStringFrom]
  simp only [h, if_neg hpair]
  rfl

theorem parseStringFrom_pair {a b c d : UInt8} {high low : Nat} {out rest : Bytes}
    (h : codepoint? a b c d = some low) (hhigh : IsHigh high) (hlow : IsLow low) :
    parseStringFrom out high (92 :: 117 :: a :: b :: c :: d :: rest) =
      parseStringFrom (out ++ encodeUtf8 (paired high low)) (-1) rest := by
  have hpair : (0xD800 ≤ (high : Int) ∧ (high : Int) ≤ 0xDBFF) ∧ 0xDC00 ≤ low ∧ low ≤ 0xDFFF :=
    ⟨hhigh, by exact_mod_cast hlow.1, by exact_mod_cast hlow.2⟩
  rw [parseStringFrom]
  simp only [h, if_pos hpair, Int.toNat_natCast, ← paired_eq hlow]
  rfl

theorem letter_ne_unicode {letter ch : UInt8} (h : simpleEscape? letter = some ch) :
    letter ≠ 117 := by
  rintro rfl
  cases h

theorem encodeUtf8_none : encodeUtf8 (-1) = [] := rfl

/-- The pending code point is decoded first, unless the text completes its pair. -/
theorem Decodes.parse {text value : Bytes} (h : Decodes text value) (rest : Bytes) :
    ∀ (out : Bytes) (last : Int), (IsHigh last → ¬ BeginsLow text) →
      parseStringFrom out last (text ++ 34 :: rest) =
        .ok (out ++ encodeUtf8 last ++ value, rest) := by
  have hnone : IsHigh (-1) → ∀ text, ¬ BeginsLow text := fun h => absurd h.1 (by decide)
  induction h with
  | nil =>
      intro out last _
      rw [List.nil_append, parseStringFrom.eq_def, List.append_nil]
      rfl
  | plain hcontrol hquote hslash _ ih =>
      intro out last _
      rw [List.cons_append, parseStringFrom_plain hcontrol hquote hslash,
        ih _ _ fun h => hnone h _]
      simp only [encodeUtf8_none, List.append_nil, List.append_assoc, List.cons_append,
        List.nil_append]
  | letter hletter _ ih =>
      intro out last _
      rw [List.cons_append, List.cons_append,
        parseStringFrom_letter (letter_ne_unicode hletter) hletter, ih _ _ fun h => hnone h _]
      simp only [encodeUtf8_none, List.append_nil, List.append_assoc, List.cons_append,
        List.nil_append]
  | single hunit halone _ ih =>
      intro out last hlast
      simp only [List.cons_append]
      rw [parseStringFrom_single hunit ?_, ih _ _ halone]
      · simp only [List.append_assoc]
      · rintro ⟨hhigh, hlow⟩
        exact hlast hhigh ⟨_, _, _, _, _, _, rfl, hunit, hlow⟩
  | pair hhigh hrange hlow hrange' _ ih =>
      intro out last hlast
      simp only [List.cons_append]
      rw [parseStringFrom_single hhigh ?_, parseStringFrom_pair hlow hrange hrange',
        ih _ _ fun h => hnone h _]
      · simp only [encodeUtf8_none, List.append_nil, List.append_assoc]
      · rintro ⟨-, hboth⟩
        have hhighest := hrange.2
        have hlowest := hboth.1
        omega

theorem parseString_of_decodes {text value : Bytes} (h : Decodes text value) (rest : Bytes) :
    parseString (text ++ 34 :: rest) = .ok (value, rest) :=
  h.parse rest [] (-1) fun hhigh => absurd hhigh.1 (by decide)

theorem exists_hexValue? {c : UInt8} (h : IsHexDigit c) : ∃ n, hexValue? c = some n := by
  unfold hexValue?
  split
  next => exact ⟨_, rfl⟩
  next hlower =>
      split
      next => exact ⟨_, rfl⟩
      next hupper =>
          have hdigit : isDigit c = true := by
            rcases h with h | h | h
            · exact h
            · exact absurd h hlower
            · exact absurd h hupper
          exact ⟨_, if_pos hdigit⟩

theorem exists_codepoint? {a b c d : UInt8} (ha : IsHexDigit a) (hb : IsHexDigit b)
    (hc : IsHexDigit c) (hd : IsHexDigit d) : ∃ unit, codepoint? a b c d = some unit := by
  obtain ⟨_, ha⟩ := exists_hexValue? ha
  obtain ⟨_, hb⟩ := exists_hexValue? hb
  obtain ⟨_, hc⟩ := exists_hexValue? hc
  obtain ⟨_, hd⟩ := exists_hexValue? hd
  simp [codepoint?, ha, hb, hc, hd]

theorem exists_simpleEscape? {c : UInt8} (h : c ∈ ascii "\"\\/bfnrt") :
    ∃ ch, simpleEscape? c = some ch := by
  have hall : (ascii "\"\\/bfnrt").all (fun c => (simpleEscape? c).isSome) = true := by decide
  exact Option.isSome_iff_exists.mp (List.all_eq_true.mp hall c h)

theorem Decodes.of_beginsLow {a b c d : UInt8} {low : Nat} {text value : Bytes}
    (h : Decodes (92 :: 117 :: a :: b :: c :: d :: text) value)
    (hunit : codepoint? a b c d = some low) (hlow : IsLow low) : ∃ value, Decodes text value := by
  cases h with
  | plain _ _ hslash _ => exact absurd rfl hslash
  | letter hletter _ => exact absurd rfl (letter_ne_unicode hletter)
  | single _ _ h => exact ⟨_, h⟩
  | pair hhigh hrange _ _ _ =>
      obtain rfl := Option.some.inj (hunit.symm.trans hhigh)
      have hhighest := hrange.2
      have hlowest := hlow.1
      omega

theorem exists_decodes {text : Bytes} (h : Chars text) : ∃ value, Decodes text value := by
  induction h with
  | nil => exact ⟨_, .nil⟩
  | plain hcontrol hquote hslash _ ih =>
      obtain ⟨value, ih⟩ := ih
      exact ⟨_, .plain hcontrol hquote hslash ih⟩
  | escape hc _ ih =>
      obtain ⟨value, ih⟩ := ih
      obtain ⟨ch, hch⟩ := exists_simpleEscape? hc
      exact ⟨_, .letter hch ih⟩
  | @unicode _ _ _ _ rest ha hb hc hd _ ih =>
      obtain ⟨value, ih⟩ := ih
      obtain ⟨unit, hunit⟩ := exists_codepoint? ha hb hc hd
      by_cases hpair : IsHigh unit → ¬ BeginsLow rest
      · exact ⟨_, .single hunit hpair ih⟩
      · obtain ⟨hhigh, hbegins⟩ := Classical.not_imp.mp hpair
        obtain ⟨_, _, _, _, _, low, rfl, hlow, hrange⟩ := not_not.mp hbegins
        obtain ⟨value, htail⟩ := ih.of_beginsLow hlow hrange
        exact ⟨_, .pair hunit hhigh hlow hrange htail⟩

theorem Decodes.chars {text value : Bytes} (h : Decodes text value) : Chars text := by
  have hunicode {a b c d : UInt8} {unit : Nat} {rest : Bytes}
      (hunit : codepoint? a b c d = some unit) (hrest : Chars rest) :
      Chars (92 :: 117 :: a :: b :: c :: d :: rest) := by
    obtain ⟨ha, hb, hc, hd⟩ := isHexDigit_of_codepoint? hunit
    exact .unicode ha hb hc hd hrest
  induction h with
  | nil => exact .nil
  | plain hcontrol hquote hslash _ ih => exact .plain hcontrol hquote hslash ih
  | letter hletter _ ih => exact .escape (mem_of_simpleEscape? hletter) ih
  | single hunit _ _ ih => exact hunicode hunit ih
  | pair hhigh _ hlow _ _ ih => exact hunicode hhigh (hunicode hlow ih)

/-! ## Numbers -/

def signed (negative : Bool) (whole : Bytes) : Bytes := if negative then 45 :: whole else whole

inductive FractionMeans : Bytes → Bytes → Prop
  | none : FractionMeans [] []
  | digits {text : Bytes} (hne : text ≠ []) (h : Digits text) : FractionMeans (46 :: text) text

inductive ExponentMeans : Bytes → Int → Prop
  | none : ExponentMeans [] 0
  | plus {e : UInt8} {sign text : Bytes} (he : e = 101 ∨ e = 69) (hsign : sign = [] ∨ sign = [43])
      (hne : text ≠ []) (h : Digits text) : ExponentMeans (e :: sign ++ text) (ofDigits text)
  | minus {e : UInt8} {text : Bytes} (he : e = 101 ∨ e = 69) (hne : text ≠ [])
      (h : Digits text) : ExponentMeans (e :: 45 :: text) (-(ofDigits text : Int))

/-- A numeral of at most nine characters and without a fraction or an exponent is an integer. -/
inductive NumberMeans : Bytes → Json → Prop
  | int {negative : Bool} {whole : Bytes} (hwhole : Whole whole)
      (hshort : (signed negative whole).length ≤ 9) :
      NumberMeans (signed negative whole)
        (.int (if negative then -(ofDigits whole : Int) else ofDigits whole))
  | double {negative : Bool} {whole fraction exponent digits : Bytes} {power : Int}
      (hwhole : Whole whole) (hfraction : FractionMeans fraction digits)
      (hexponent : ExponentMeans exponent power)
      (hlong : fraction = [] → exponent = [] → 9 < (signed negative whole).length) :
      NumberMeans (signed negative whole ++ fraction ++ exponent)
        (.double (Binary64.strtod negative whole digits power))

/-- What may follow a numeral. -/
def EndsNumeral (rest : Bytes) : Prop :=
  ∀ c ∈ rest.head?, isDigit c = false ∧ c ≠ 46 ∧ c ≠ 101 ∧ c ≠ 69

section Digits

variable {digits rest : Bytes} (hrest : ∀ c ∈ rest.head?, isDigit c = false)

include hrest

theorem takeWhile_digits (h : Digits digits) : (digits ++ rest).takeWhile isDigit = digits := by
  rw [List.takeWhile_append_of_pos h]
  cases rest with
  | nil => rw [List.takeWhile_nil, List.append_nil]
  | cons c rest => rw [List.takeWhile_cons_of_neg (by rw [hrest c rfl]; decide), List.append_nil]

theorem dropWhile_digits (h : Digits digits) : (digits ++ rest).dropWhile isDigit = rest := by
  have hsplit := List.takeWhile_append_dropWhile (p := isDigit) (l := digits ++ rest)
  rw [takeWhile_digits hrest h] at hsplit
  exact List.append_cancel_left hsplit

end Digits

theorem isDigit_peek_append {digits : Bytes} (hne : digits ≠ []) (h : Digits digits)
    (rest : Bytes) : isDigit (peek (digits ++ rest)) = true := by
  cases digits with
  | nil => exact absurd rfl hne
  | cons c digits => exact h c List.mem_cons_self

theorem isDigit_peek {rest : Bytes} (h : ∀ c ∈ rest.head?, isDigit c = false) :
    isDigit (peek rest) = false := by
  cases rest with
  | nil => rfl
  | cons c rest => exact h c rfl

theorem parseWhole_of_whole {whole rest : Bytes} (h : Whole whole)
    (hrest : ∀ c ∈ rest.head?, isDigit c = false) :
    parseWhole (whole ++ rest) = .ok (whole, rest) := by
  cases h with
  | zero =>
      change (if isDigit (peek rest) = true then _ else _) = _
      rw [if_neg (by rw [isDigit_peek hrest]; decide)]
      rfl
  | @digits c digits hc hne hdigits =>
      have hall : Digits (c :: digits) := List.forall_mem_cons.mpr ⟨hc, hdigits⟩
      have hpeek : peek (c :: digits ++ rest) = c := rfl
      rw [parseWhole, hpeek, if_neg hne, if_pos hc, takeWhile_digits hrest hall,
        dropWhile_digits hrest hall]

theorem parseFraction_of_means {text digits rest : Bytes} (h : FractionMeans text digits)
    (hrest : ∀ c ∈ rest.head?, isDigit c = false ∧ c ≠ 46) :
    parseFraction (text ++ rest) = .ok (digits, rest) := by
  cases h with
  | none =>
      have hpeek : peek rest ≠ 46 := by
        cases rest with
        | nil => decide
        | cons c rest => exact (hrest c rfl).2
      rw [List.nil_append, parseFraction, if_neg hpeek]
  | digits hne h =>
      have hend := fun c hc => (hrest c hc).1
      have hpeek : peek (46 :: (digits ++ rest)) = 46 := rfl
      rw [List.cons_append, parseFraction, if_pos hpeek, List.tail_cons,
        if_pos (isDigit_peek_append hne h rest), takeWhile_digits hend h, dropWhile_digits hend h]

theorem peek_ne_of_isDigit {text : Bytes} (h : isDigit (peek text) = true) :
    peek text ≠ 45 ∧ peek text ≠ 43 := by
  constructor
  · intro hpeek
    rw [hpeek] at h
    cases h
  · intro hpeek
    rw [hpeek] at h
    cases h

theorem exponentDigits_of_sign {sign digits : Bytes} (hsign : sign = [] ∨ sign = [43])
    (h : isDigit (peek digits) = true) : exponentDigits (sign ++ digits) = (false, digits) := by
  rcases hsign with rfl | rfl
  · obtain ⟨hminus, hplus⟩ := peek_ne_of_isDigit h
    rw [List.nil_append, exponentDigits, if_neg hminus, if_neg hplus]
  · rfl

theorem parseExponent_of_digits {e : UInt8} {text digits rest : Bytes} {negative : Bool}
    (he : e = 101 ∨ e = 69) (hsign : exponentDigits text = (negative, digits ++ rest))
    (hne : digits ≠ []) (h : Digits digits) (hrest : ∀ c ∈ rest.head?, isDigit c = false) :
    parseExponent (e :: text) =
      .ok (if negative then -(ofDigits digits : Int) else ofDigits digits, rest) := by
  have hpeek : peek (e :: text) = 101 ∨ peek (e :: text) = 69 := he
  have hdigit := isDigit_peek_append hne h rest
  rw [parseExponent, if_pos hpeek, List.tail_cons, hsign]
  simp only [hdigit, if_true, takeWhile_digits hrest h, dropWhile_digits hrest h]

theorem parseExponent_of_means {text rest : Bytes} {power : Int} (h : ExponentMeans text power)
    (hrest : EndsNumeral rest) : parseExponent (text ++ rest) = .ok (power, rest) := by
  have hend := fun c hc => (hrest c hc).1
  cases h with
  | none =>
      have hpeek : ¬ (peek rest = 101 ∨ peek rest = 69) := by
        cases rest with
        | nil => decide
        | cons c rest => exact not_or_intro (hrest c rfl).2.2.1 (hrest c rfl).2.2.2
      rw [List.nil_append, parseExponent, if_neg hpeek]
  | plus he hsign hne h =>
      rw [List.cons_append, List.cons_append, List.append_assoc]
      exact parseExponent_of_digits he
        (exponentDigits_of_sign hsign (isDigit_peek_append hne h rest)) hne h hend
  | @minus e digits he hne h =>
      have hsign : exponentDigits (45 :: (digits ++ rest)) = (true, digits ++ rest) := rfl
      exact parseExponent_of_digits he hsign hne h hend

theorem endsNumeral_or {fraction exponent digits : Bytes} {power : Int}
    (hfraction : FractionMeans fraction digits) (hexponent : ExponentMeans exponent power)
    (rest : Bytes) : fraction = [] ∧ exponent = [] ∨
      ∃ c text, fraction ++ (exponent ++ rest) = c :: text ∧ (c = 46 ∨ c = 101 ∨ c = 69) := by
  cases hfraction with
  | digits _ _ => exact .inr ⟨_, _, rfl, .inl rfl⟩
  | none =>
      cases hexponent with
      | none => exact .inl ⟨rfl, rfl⟩
      | plus he _ _ _ => exact .inr ⟨_, _, rfl, .inr he⟩
      | minus he _ _ => exact .inr ⟨_, _, rfl, .inr he⟩

theorem exponent_head {exponent rest : Bytes} {power : Int} (h : ExponentMeans exponent power)
    (hrest : EndsNumeral rest) : ∀ c ∈ (exponent ++ rest).head?, isDigit c = false ∧ c ≠ 46 := by
  have hletter {e : UInt8} (he : e = 101 ∨ e = 69) : isDigit e = false ∧ e ≠ 46 := by
    rcases he with rfl | rfl <;> decide
  cases h with
  | none => exact fun c hc => ⟨(hrest c hc).1, (hrest c hc).2.1⟩
  | plus he _ _ _ =>
      rintro c hc
      obtain rfl := Option.some.inj hc
      exact hletter he
  | minus he _ _ =>
      rintro c hc
      obtain rfl := Option.some.inj hc
      exact hletter he

theorem fraction_head {fraction digits rest : Bytes} (h : FractionMeans fraction digits)
    (hrest : ∀ c ∈ rest.head?, isDigit c = false) :
    ∀ c ∈ (fraction ++ rest).head?, isDigit c = false := by
  cases h with
  | none => exact hrest
  | digits _ _ =>
      rintro c hc
      obtain rfl := Option.some.inj hc
      rfl

theorem isDigit_peek_whole {whole : Bytes} (h : Whole whole) (rest : Bytes) :
    isDigit (peek (whole ++ rest)) = true := by
  cases h with
  | zero => rfl
  | digits hc _ _ => exact hc

theorem parseNumber_signed (negative : Bool) {whole rest : Bytes} (h : Whole whole)
    (hrest : ∀ c ∈ rest.head?, isDigit c = false) :
    parseNumber (signed negative whole ++ rest) =
      if peek rest ≠ 46 ∧ peek rest ≠ 101 ∧ peek rest ≠ 69 ∧
          (signed negative whole).length ≤ 9 then
        .ok (.int (atoi (signed negative whole)), rest)
      else do
        let (fraction, rest) ← parseFraction rest
        let (exponent, rest) ← parseExponent rest
        return (.double (Binary64.strtod negative whole fraction exponent), rest) := by
  have hwhole := parseWhole_of_whole h hrest
  unfold parseNumber
  cases negative with
  | true =>
      have hpeek : peek (45 :: (whole ++ rest)) = 45 := rfl
      simp only [signed, if_true, hpeek, List.cons_append, List.tail_cons, hwhole, decide_true]
      rfl
  | false =>
      have hpeek := (peek_ne_of_isDigit (isDigit_peek_whole h rest)).1
      simp only [signed, Bool.false_eq_true, if_false, hpeek, hwhole, decide_false]
      rfl

theorem digits_whole {whole : Bytes} (h : Whole whole) : Digits whole := by
  cases h with
  | zero => exact List.forall_mem_singleton.mpr rfl
  | digits hc _ h => exact List.forall_mem_cons.mpr ⟨hc, h⟩

theorem atoi_signed {negative : Bool} {whole : Bytes} (h : Whole whole)
    (hshort : (signed negative whole).length ≤ 9) :
    atoi (signed negative whole) =
      if negative then -(ofDigits whole : Int) else ofDigits whole := by
  have hdigits := digits_whole h
  have hlength : whole.length ≤ 9 := by
    cases negative with
    | false => exact hshort
    | true => exact Nat.le_of_succ_le hshort
  have hsmall : ofDigits whole < 10 ^ 9 :=
    lt_of_lt_of_le (ofDigits_lt hdigits) (Nat.pow_le_pow_right (by omega) hlength)
  cases negative with
  | false => exact atoi_digits hdigits (lt_trans hsmall (by omega))
  | true =>
      have hleading : leadingDigits whole = ofDigits whole := by
        rw [leadingDigits, List.takeWhile_eq_self_iff.mpr hdigits]
      have hstrtol : strtol (signed true whole) = -(ofDigits whole : Int) := by
        have hspace : (45 :: whole).dropWhile isSpace = 45 :: whole := rfl
        simp only [strtol, signed, if_true, hspace, hleading]
        omega
      rw [atoi, hstrtol]
      exact Int.bmod_eq_of_le (by omega) (by omega)

theorem parseNumber_of_means {text rest : Bytes} {value : Json} (h : NumberMeans text value)
    (hrest : EndsNumeral rest) : parseNumber (text ++ rest) = .ok (value, rest) := by
  cases h with
  | @int negative whole hwhole hshort =>
      have hstop : peek rest ≠ 46 ∧ peek rest ≠ 101 ∧ peek rest ≠ 69 := by
        cases rest with
        | nil => decide
        | cons c rest => exact (hrest c rfl).2
      rw [parseNumber_signed negative hwhole fun c hc => (hrest c hc).1,
        if_pos ⟨hstop.1, hstop.2.1, hstop.2.2, hshort⟩, atoi_signed hwhole hshort]
  | @double negative whole fraction exponent digits power hwhole hfraction hexponent hlong =>
      have hafter := exponent_head hexponent hrest
      have hnot : ¬ (peek (fraction ++ (exponent ++ rest)) ≠ 46 ∧
          peek (fraction ++ (exponent ++ rest)) ≠ 101 ∧
          peek (fraction ++ (exponent ++ rest)) ≠ 69 ∧ (signed negative whole).length ≤ 9) := by
        rintro ⟨hdot, he, hE, hshort⟩
        rcases endsNumeral_or hfraction hexponent rest with ⟨hnone, hnone'⟩ | ⟨c, _, hc, hcase⟩
        · exact absurd (hlong hnone hnone') (Nat.not_lt.mpr hshort)
        · rw [hc] at hdot he hE
          rcases hcase with h | h | h
          · exact hdot h
          · exact he h
          · exact hE h
      rw [List.append_assoc, List.append_assoc, parseNumber_signed negative hwhole
        (fraction_head hfraction fun c hc => (hafter c hc).1), if_neg hnot,
        parseFraction_of_means hfraction hafter]
      simp only [bind, Except.bind, parseExponent_of_means hexponent hrest]
      rfl

theorem exists_fractionMeans {text : Bytes} (h : Fraction text) :
    ∃ digits, FractionMeans text digits := by
  cases h with
  | none => exact ⟨_, .none⟩
  | digits hne h => exact ⟨_, .digits hne h⟩

theorem exists_exponentMeans {text : Bytes} (h : Exponent text) :
    ∃ power, ExponentMeans text power := by
  cases h with
  | none => exact ⟨_, .none⟩
  | digits he hsign hne h =>
      rcases hsign with rfl | rfl | rfl
      · exact ⟨_, .plus he (.inl rfl) hne h⟩
      · exact ⟨_, .plus he (.inr rfl) hne h⟩
      · exact ⟨_, .minus he hne h⟩

theorem exists_numberMeans {text : Bytes} (h : Number text) : ∃ value, NumberMeans text value := by
  cases h with
  | @mk sign whole fraction exponent hsign hwhole hfraction hexponent =>
      have hsigned : ∃ negative, sign ++ whole = signed negative whole := by
        rcases hsign with rfl | rfl
        · exact ⟨false, rfl⟩
        · exact ⟨true, rfl⟩
      obtain ⟨negative, hsigned⟩ := hsigned
      obtain ⟨digits, hdigits⟩ := exists_fractionMeans hfraction
      obtain ⟨power, hpower⟩ := exists_exponentMeans hexponent
      rw [hsigned]
      by_cases hint : fraction = [] ∧ exponent = [] ∧ (signed negative whole).length ≤ 9
      · obtain ⟨rfl, rfl, hshort⟩ := hint
        rw [List.append_nil, List.append_nil]
        exact ⟨_, .int hwhole hshort⟩
      · refine ⟨_, .double hwhole hdigits hpower fun hnone hnone' => ?_⟩
        exact Nat.not_le.mp fun hshort => hint ⟨hnone, hnone', hshort⟩

theorem NumberMeans.number {text : Bytes} {value : Json} (h : NumberMeans text value) :
    Number text := by
  have hsigned (negative : Bool) (whole : Bytes) :
      ∃ sign, (sign = [] ∨ sign = [45]) ∧ signed negative whole = sign ++ whole := by
    cases negative with
    | true => exact ⟨[45], .inr rfl, rfl⟩
    | false => exact ⟨[], .inl rfl, rfl⟩
  cases h with
  | @int negative whole hwhole _ =>
      obtain ⟨sign, hsign, htext⟩ := hsigned negative whole
      have hnumber := Number.mk hsign hwhole .none .none
      rwa [List.append_nil, List.append_nil, ← htext] at hnumber
  | @double negative whole fraction exponent _ _ hwhole hfraction hexponent _ =>
      obtain ⟨sign, hsign, htext⟩ := hsigned negative whole
      have hfraction : Fraction fraction := by
        cases hfraction with
        | none => exact .none
        | digits hne h => exact .digits hne h
      have hexponent : Exponent exponent := by
        cases hexponent with
        | none => exact .none
        | plus he hsign hne h => exact .digits he (hsign.imp_right .inl) hne h
        | minus he hne h => exact @Exponent.digits _ [45] _ he (.inr (.inr rfl)) hne h
      rw [htext]
      exact .mk hsign hwhole hfraction hexponent

end Can2Rest.Shared.Json
