import Can2Rest.Shared.Json11

/-!
# What the text of a value determines

The serialization of strings and integers can be read back without looking at
what follows them, so equal documents of one shape have equal members.
-/

namespace Can2Rest.Shared.Json

open Can2Rest.Foundation

/-! ## Escaped strings -/

/-- What `dump` escapes at once. -/
inductive Chunk where
  | lineSeparator
  | paragraphSeparator
  | byte (ch : UInt8)
  deriving DecidableEq

namespace Chunk

def bytes : Chunk → Bytes
  | .lineSeparator => [0xe2, 0x80, 0xa8]
  | .paragraphSeparator => [0xe2, 0x80, 0xa9]
  | .byte ch => [ch]

def escapeByte (ch : UInt8) : Bytes :=
  if ch = 92 then ascii "\\\\"
  else if ch = 34 then ascii "\\\""
  else if ch = 8 then ascii "\\b"
  else if ch = 12 then ascii "\\f"
  else if ch = 10 then ascii "\\n"
  else if ch = 13 then ascii "\\r"
  else if ch = 9 then ascii "\\t"
  else if ch ≤ 0x1f then escapeControl ch
  else [ch]

def code : Chunk → Bytes
  | .lineSeparator => ascii "\\u2028"
  | .paragraphSeparator => ascii "\\u2029"
  | .byte ch => escapeByte ch

def split : Bytes → List Chunk
  | [] => []
  | 0xe2 :: 0x80 :: 0xa8 :: rest => .lineSeparator :: split rest
  | 0xe2 :: 0x80 :: 0xa9 :: rest => .paragraphSeparator :: split rest
  | ch :: rest => .byte ch :: split rest

theorem flatMap_bytes_split (value : Bytes) : (split value).flatMap bytes = value := by
  induction value using split.induct with
  | case1 => rfl
  | case2 rest ih => rw [split, List.flatMap_cons, ih]; rfl
  | case3 rest ih => rw [split, List.flatMap_cons, ih]; rfl
  | case4 ch rest hline hparagraph ih =>
      rw [split.eq_4 _ _ hline hparagraph, List.flatMap_cons, ih]
      rfl

theorem flatMap_code_split (value : Bytes) : (split value).flatMap code = dumpChars value := by
  induction value using split.induct with
  | case1 => rfl
  | case2 rest ih => rw [split, List.flatMap_cons, ih, dumpChars]; rfl
  | case3 rest ih => rw [split, List.flatMap_cons, ih, dumpChars]; rfl
  | case4 ch rest hline hparagraph ih =>
      rw [split.eq_4 _ _ hline hparagraph, List.flatMap_cons, ih,
        dumpChars.eq_4 _ _ hline hparagraph]
      rfl

/-- The forms of an escape: they tell the length of the code. -/
inductive Form : Bytes → Prop
  | plain (ch : UInt8) (hslash : ch ≠ 92) (hquote : ch ≠ 34) : Form [ch]
  | letter (ch : UInt8) (hu : ch ≠ 117) : Form [92, ch]
  | unicode (a b c d : UInt8) : Form [92, 117, a, b, c, d]

theorem form_code (chunk : Chunk) : Form chunk.code := by
  cases chunk with
  | lineSeparator => exact .unicode 50 48 50 56
  | paragraphSeparator => exact .unicode 50 48 50 57
  | byte ch =>
      change Form (escapeByte ch)
      unfold escapeByte
      split
      · exact .letter 92 (by decide)
      split
      · exact .letter 34 (by decide)
      split
      · exact .letter 98 (by decide)
      split
      · exact .letter 102 (by decide)
      split
      · exact .letter 110 (by decide)
      split
      · exact .letter 114 (by decide)
      split
      · exact .letter 116 (by decide)
      split
      · exact .unicode 48 48 _ _
      · exact .plain ch ‹_› ‹_›

theorem Form.append_inj {first second rest rest' : Bytes} (hfirst : Form first)
    (hsecond : Form second) (h : first ++ rest = second ++ rest') :
    first = second ∧ rest = rest' := by
  cases hfirst <;> cases hsecond <;> simp_all

def decode : Bytes → Chunk
  | [92, 117, 50, 48, 50, 56] => .lineSeparator
  | [92, 117, 50, 48, 50, 57] => .paragraphSeparator
  | [92, 117, 48, 48, high, low] =>
      .byte (16 * (high - 48) + if low < 58 then low - 48 else low - 87)
  | [92, 98] => .byte 8
  | [92, 102] => .byte 12
  | [92, 110] => .byte 10
  | [92, 114] => .byte 13
  | [92, 116] => .byte 9
  | [92, ch] => .byte ch
  | [ch] => .byte ch
  | _ => .byte 0

theorem decode_code (chunk : Chunk) : decode chunk.code = chunk := by
  have hbyte : ∀ n < 256,
      decode (escapeByte (UInt8.ofNat n)) = .byte (UInt8.ofNat n) := by
    decide +kernel
  cases chunk with
  | lineSeparator => rfl
  | paragraphSeparator => rfl
  | byte ch =>
      have h := hbyte ch.toNat ch.toNat_lt
      rwa [UInt8.ofNat_toNat] at h

theorem code_append_inj {first second : Chunk} {rest rest' : Bytes}
    (h : first.code ++ rest = second.code ++ rest') : first = second ∧ rest = rest' := by
  obtain ⟨hcode, hrest⟩ := (form_code first).append_inj (form_code second) h
  have hchunk := congrArg decode hcode
  rw [decode_code, decode_code] at hchunk
  exact ⟨hchunk, hrest⟩

theorem code_append_ne_quote (chunk : Chunk) (rest rest' : Bytes) :
    chunk.code ++ rest ≠ 34 :: rest' := by
  intro h
  have hform := form_code chunk
  generalize chunk.code = code at hform h
  cases hform with
  | plain ch hslash hquote => exact hquote (List.cons.inj h).1
  | letter ch hu => exact absurd (List.cons.inj h).1 (by decide)
  | unicode a b c d => exact absurd (List.cons.inj h).1 (by decide)

theorem flatMap_code_inj {first second : List Chunk} {rest rest' : Bytes}
    (h : first.flatMap code ++ 34 :: rest = second.flatMap code ++ 34 :: rest') :
    first = second ∧ rest = rest' := by
  induction first generalizing second with
  | nil =>
      cases second with
      | nil => simpa using h
      | cons chunk second =>
          rw [List.flatMap_nil, List.nil_append, List.flatMap_cons, List.append_assoc] at h
          exact absurd h.symm (code_append_ne_quote chunk _ _)
  | cons chunk first ih =>
      cases second with
      | nil =>
          rw [List.flatMap_nil, List.nil_append, List.flatMap_cons, List.append_assoc] at h
          exact absurd h (code_append_ne_quote chunk _ _)
      | cons chunk' second =>
          simp only [List.flatMap_cons, List.append_assoc] at h
          obtain ⟨rfl, htail⟩ := code_append_inj h
          obtain ⟨rfl, hrest⟩ := ih htail
          exact ⟨rfl, hrest⟩

end Chunk

theorem dumpString_append_inj {first second rest rest' : Bytes}
    (h : dumpString first ++ rest = dumpString second ++ rest') :
    first = second ∧ rest = rest' := by
  simp only [dumpString, List.cons_append, List.cons.injEq, true_and, List.append_assoc,
    List.nil_append, ← Chunk.flatMap_code_split] at h
  obtain ⟨hchunks, hrest⟩ := Chunk.flatMap_code_inj h
  have hvalue := congrArg (List.flatMap Chunk.bytes) hchunks
  rw [Chunk.flatMap_bytes_split, Chunk.flatMap_bytes_split] at hvalue
  exact ⟨hvalue, hrest⟩

/-! ## Integers -/

/-- The text does not go on with a digit. -/
def EndsNumber (rest : Bytes) : Prop := ∀ c ∈ rest.head?, isDigit c = false

theorem takeWhile_toDecimal (n : Nat) {rest : Bytes} (h : EndsNumber rest) :
    (toDecimal n ++ rest).takeWhile isDigit = toDecimal n := by
  have hrest : rest.takeWhile isDigit = [] := by
    cases rest with
    | nil => rfl
    | cons c rest => rw [List.takeWhile_cons, h c rfl]; rfl
  have hdigits : ∀ c ∈ toDecimal n, isDigit c := fun c hc => isDigit_of_mem_toDecimal hc
  rw [List.takeWhile_append_of_pos hdigits, hrest, List.append_nil]

theorem toDecimal_append_inj {first second : Nat} {rest rest' : Bytes}
    (hrest : EndsNumber rest) (hrest' : EndsNumber rest')
    (h : toDecimal first ++ rest = toDecimal second ++ rest') :
    first = second ∧ rest = rest' := by
  have hdigits := congrArg (List.takeWhile isDigit) h
  rw [takeWhile_toDecimal first hrest, takeWhile_toDecimal second hrest'] at hdigits
  rw [hdigits] at h
  exact ⟨toDecimal_injective hdigits, List.append_cancel_left h⟩

theorem toDecimal_append_ne {c : UInt8} (hc : isDigit c = false) (n : Nat)
    (rest rest' : Bytes) : toDecimal n ++ rest ≠ c :: rest' := by
  intro h
  cases hdigits : toDecimal n with
  | nil => exact toDecimal_ne_nil n hdigits
  | cons first digits =>
      have hdigit : isDigit first := isDigit_of_mem_toDecimal (hdigits ▸ List.mem_cons_self)
      rw [hdigits, List.cons_append, List.cons.injEq] at h
      rw [h.1, hc] at hdigit
      cases hdigit

theorem intToDecimal_append_ne_bracket (value : Int) (rest rest' : Bytes) :
    intToDecimal value ++ rest ≠ 93 :: rest' := by
  cases value with
  | ofNat n => exact toDecimal_append_ne rfl n rest rest'
  | negSucc n => exact fun h => absurd (List.cons.inj h).1 (by decide)

theorem intToDecimal_append_inj {first second : Int} {rest rest' : Bytes}
    (hrest : EndsNumber rest) (hrest' : EndsNumber rest')
    (h : intToDecimal first ++ rest = intToDecimal second ++ rest') :
    first = second ∧ rest = rest' := by
  cases first with
  | ofNat n =>
      cases second with
      | ofNat m =>
          obtain ⟨rfl, htail⟩ := toDecimal_append_inj hrest hrest' h
          exact ⟨rfl, htail⟩
      | negSucc m => exact absurd h (toDecimal_append_ne rfl n _ _)
  | negSucc n =>
      cases second with
      | ofNat m => exact absurd h.symm (toDecimal_append_ne rfl m _ _)
      | negSucc m =>
          simp only [intToDecimal, List.cons_append, List.cons.injEq, true_and] at h
          obtain ⟨hvalue, htail⟩ := toDecimal_append_inj hrest hrest' h
          rw [Nat.succ.inj hvalue]
          exact ⟨rfl, htail⟩

/-! ## Arrays of integers -/

theorem endsNumber_comma (rest : Bytes) : EndsNumber (ascii ", " ++ rest) := by
  simp [EndsNumber, ascii, isDigit]

theorem endsNumber_bracket (rest : Bytes) : EndsNumber (ascii "]" ++ rest) := by
  simp [EndsNumber, ascii, isDigit]

theorem endsNumber_dumpItems (items : List Json) (rest : Bytes) :
    EndsNumber (dumpItems false items ++ (ascii "]" ++ rest)) := by
  cases items with
  | nil => exact endsNumber_bracket rest
  | cons item items =>
      rw [dumpItems]
      exact endsNumber_comma _

theorem dumpItems_append_inj {first second : List Int} {rest rest' : Bytes} (start : Bool)
    (h : dumpItems start (first.map .int) ++ (ascii "]" ++ rest) =
      dumpItems start (second.map .int) ++ (ascii "]" ++ rest')) :
    first = second ∧ rest = rest' := by
  have hnil (start : Bool) (value : Int) (items : List Int) (rest rest' : Bytes) :
      ascii "]" ++ rest ≠
        dumpItems start ((value :: items).map .int) ++ (ascii "]" ++ rest') := by
    cases start with
    | true =>
        simp only [List.map_cons, dumpItems, dump, if_true, List.nil_append, List.append_assoc]
        exact (intToDecimal_append_ne_bracket value _ _).symm
    | false => exact fun h => absurd (List.cons.inj h).1 (by decide)
  induction first generalizing second start with
  | nil =>
      cases second with
      | nil => exact ⟨rfl, List.append_cancel_left h⟩
      | cons value second => exact absurd h (hnil start value second _ _)
  | cons value first ih =>
      cases second with
      | nil => exact absurd h.symm (hnil start value first _ _)
      | cons value' second =>
          simp only [List.map_cons, dumpItems, dump, List.append_assoc] at h
          obtain ⟨rfl, htail⟩ := intToDecimal_append_inj (endsNumber_dumpItems _ _)
            (endsNumber_dumpItems _ _) (List.append_cancel_left h)
          obtain ⟨rfl, hrest⟩ := ih false htail
          exact ⟨rfl, hrest⟩

end Can2Rest.Shared.Json
