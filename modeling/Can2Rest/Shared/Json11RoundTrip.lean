import Can2Rest.Foundation.JsonGrammar
import Can2Rest.Foundation.Utf8
import Can2Rest.Shared.Json11Parser
import Can2Rest.Shared.Json11Text

/-!
# Serializing and parsing back

What `dump` prints is a JSON text, and the parser of the library reads the same
value from it, but for integers of ten characters or more, which it reads as
doubles.  The text is valid UTF-8 exactly if the strings of the value are.
-/

namespace Can2Rest.Shared.Json

open Can2Rest.Foundation

/-- No doubles, members in the order of their keys, and at most `n` levels. -/
def Regular : Nat → Json → Prop
  | n + 1, .array items => ∀ item ∈ items, Regular n item
  | n + 1, .object members =>
      members.Pairwise (fun first second => compare first.1 second.1 = .lt) ∧
        ∀ entry ∈ members, Regular n entry.2
  | 0, .array _ => False
  | 0, .object _ => False
  | _, .double _ => False
  | _, _ => True

theorem sorted_of_keys {members : List (Bytes × Json)}
    (h : (members.map Prod.fst).Pairwise fun first second => compare first second = .lt) :
    members.Pairwise fun first second => compare first.1 second.1 = .lt :=
  List.pairwise_map.mp h

/-! ## Escapes -/

/-- The escape of a byte and how it is read back. -/
inductive Escaped (ch : UInt8) : Bytes → Prop
  | plain (hcontrol : 0x20 ≤ ch) (hquote : ch ≠ 34) (hslash : ch ≠ 92) : Escaped ch [ch]
  | letter (letter : UInt8) (hletter : letter ∈ ascii "\"\\/bfnrt")
      (hvalue : simpleEscape? letter = some ch) (hch : ch < 0x80) : Escaped ch [92, letter]
  | control (hch : ch ≤ 0x1f) : Escaped ch (escapeControl ch)

theorem escaped_escapeByte (ch : UInt8) : Escaped ch (Chunk.escapeByte ch) := by
  unfold Chunk.escapeByte
  split
  next h => exact .letter 92 (by decide) (by rw [h]; decide) (by rw [h]; decide)
  split
  next h => exact .letter 34 (by decide) (by rw [h]; decide) (by rw [h]; decide)
  split
  next h => exact .letter 98 (by decide) (by rw [h]; decide) (by rw [h]; decide)
  split
  next h => exact .letter 102 (by decide) (by rw [h]; decide) (by rw [h]; decide)
  split
  next h => exact .letter 110 (by decide) (by rw [h]; decide) (by rw [h]; decide)
  split
  next h => exact .letter 114 (by decide) (by rw [h]; decide) (by rw [h]; decide)
  split
  next h => exact .letter 116 (by decide) (by rw [h]; decide) (by rw [h]; decide)
  split
  next h => exact .control h
  next hslash hquote _ _ _ _ _ hcontrol =>
    refine .plain ?_ hquote hslash
    rw [UInt8.le_iff_toNat_le] at hcontrol ⊢
    change ¬ ch.toNat ≤ 31 at hcontrol
    change 32 ≤ ch.toNat
    omega

theorem escapeControl_eq {ch : UInt8} (h : ch ≤ 0x1f) :
    ∃ high low, escapeControl ch = [92, 117, 48, 48, hexDigit high, hexDigit low] ∧
      high < 16 ∧ low < 16 ∧ 16 * high + low = ch.toNat := by
  have hch : ch.toNat ≤ 31 := UInt8.le_iff_toNat_le.mp h
  exact ⟨ch.toNat / 16, ch.toNat % 16, rfl, by omega, by omega, by omega⟩

theorem isHexDigit_hexDigit {n : Nat} (h : n < 16) : JsonText.IsHexDigit (hexDigit n) := by
  have hdigits : ∀ n < 16, isDigit (hexDigit n) = true ∨
      (97 ≤ hexDigit n ∧ hexDigit n ≤ 102) ∨ (65 ≤ hexDigit n ∧ hexDigit n ≤ 70) := by
    decide
  exact hdigits n h

theorem hexValue?_hexDigit {n : Nat} (h : n < 16) : hexValue? (hexDigit n) = some n := by
  have hvalues : ∀ n < 16, hexValue? (hexDigit n) = some n := by decide
  exact hvalues n h

/-! ## Strings are texts -/

theorem chars_code_append (chunk : Chunk) {rest : Bytes} (h : JsonText.Chars rest) :
    JsonText.Chars (chunk.code ++ rest) := by
  have hzero : JsonText.IsHexDigit 48 := .inl rfl
  cases chunk with
  | lineSeparator => exact .unicode (.inl rfl) hzero (.inl rfl) (.inl rfl) h
  | paragraphSeparator => exact .unicode (.inl rfl) hzero (.inl rfl) (.inl rfl) h
  | byte ch =>
      change JsonText.Chars (Chunk.escapeByte ch ++ rest)
      have hescaped := escaped_escapeByte ch
      generalize Chunk.escapeByte ch = code at hescaped
      cases hescaped with
      | plain hcontrol hquote hslash => exact .plain hcontrol hquote hslash h
      | letter letter hletter hvalue hch => exact .escape hletter h
      | control hch =>
          obtain ⟨high, low, hcode, hhigh, hlow, -⟩ := escapeControl_eq hch
          rw [hcode]
          exact .unicode hzero hzero (isHexDigit_hexDigit hhigh) (isHexDigit_hexDigit hlow) h

theorem chars_dumpChars (value : Bytes) : JsonText.Chars (dumpChars value) := by
  rw [← Chunk.flatMap_code_split]
  induction Chunk.split value with
  | nil => exact .nil
  | cons chunk chunks ih =>
      rw [List.flatMap_cons]
      exact chars_code_append chunk ih

/-! ## Strings are read back -/

theorem encodeUtf8_of_lt {n : Nat} (h : n < 0x80) : encodeUtf8 n = [UInt8.ofNat n] := by
  have hnonneg : ¬ (n : Int) < 0 := by omega
  have hsmall : (n : Int) < 0x80 := by omega
  simp only [encodeUtf8, hnonneg, hsmall, if_true, if_false, Int.toNat_natCast]

/-- A pending code point that is no first half of a surrogate pair. -/
def Settled (last : Int) : Prop := ¬ (0xD800 ≤ last ∧ last ≤ 0xDBFF)

instance (last : Int) : Decidable (Settled last) := by
  unfold Settled
  infer_instance

theorem parseStringFrom_unicode {a b c d : UInt8} {codepoint : Nat} {out rest : Bytes}
    {last : Int} (hlast : Settled last) (h : codepoint? a b c d = some codepoint) :
    parseStringFrom out last (92 :: 117 :: a :: b :: c :: d :: rest) =
      parseStringFrom (out ++ encodeUtf8 last) codepoint rest := by
  have hpair : ¬ ((0xD800 ≤ last ∧ last ≤ 0xDBFF) ∧ 0xDC00 ≤ codepoint ∧ codepoint ≤ 0xDFFF) :=
    fun hpair => hlast hpair.1
  rw [parseStringFrom]
  simp only [h, if_neg hpair]
  rfl

theorem parseStringFrom_letter {letter ch : UInt8} {out rest : Bytes} {last : Int}
    (hletter : letter ≠ 117) (h : simpleEscape? letter = some ch) :
    parseStringFrom out last (92 :: letter :: rest) =
      parseStringFrom (out ++ encodeUtf8 last ++ [ch]) (-1) rest := by
  rw [parseStringFrom]
  · simp [h]
  · exact fun _ _ _ _ _ hl _ => hletter hl
  · exact hletter

theorem parseStringFrom_plain {ch : UInt8} {out rest : Bytes} {last : Int}
    (hcontrol : 0x20 ≤ ch) (hquote : ch ≠ 34) (hslash : ch ≠ 92) :
    parseStringFrom out last (ch :: rest) =
      parseStringFrom (out ++ encodeUtf8 last ++ [ch]) (-1) rest := by
  have hle : ¬ ch ≤ 0x1f := by
    rw [UInt8.le_iff_toNat_le] at hcontrol ⊢
    change 32 ≤ ch.toNat at hcontrol
    change ¬ ch.toNat ≤ 31
    omega
  rw [parseStringFrom.eq_def]
  simp [hquote, hslash, hle]

theorem parseStringFrom_code (chunk : Chunk) (out rest : Bytes) {last : Int}
    (hlast : Settled last) :
    ∃ out' last', parseStringFrom out last (chunk.code ++ rest) =
        parseStringFrom out' last' rest ∧
      out' ++ encodeUtf8 last' = out ++ encodeUtf8 last ++ chunk.bytes ∧ Settled last' := by
  cases chunk with
  | lineSeparator =>
      have hcodepoint : codepoint? 50 48 50 56 = some 0x2028 := rfl
      exact ⟨_, _, parseStringFrom_unicode hlast hcodepoint, rfl, by decide⟩
  | paragraphSeparator =>
      have hcodepoint : codepoint? 50 48 50 57 = some 0x2029 := rfl
      exact ⟨_, _, parseStringFrom_unicode hlast hcodepoint, rfl, by decide⟩
  | byte ch =>
      change ∃ out' last', parseStringFrom out last (Chunk.escapeByte ch ++ rest) =
          parseStringFrom out' last' rest ∧
        out' ++ encodeUtf8 last' = out ++ encodeUtf8 last ++ [ch] ∧ Settled last'
      have hminus : Settled (-1) := by decide
      have hescaped := escaped_escapeByte ch
      generalize Chunk.escapeByte ch = code at hescaped
      cases hescaped with
      | plain hcontrol hquote hslash =>
          exact ⟨_, _, parseStringFrom_plain hcontrol hquote hslash, List.append_nil _, hminus⟩
      | letter letter hletter hvalue hch =>
          have hne : letter ≠ 117 := by
            rintro rfl
            exact absurd hletter (by decide)
          exact ⟨_, _, parseStringFrom_letter hne hvalue, List.append_nil _, hminus⟩
      | control hch =>
          obtain ⟨high, low, hcode, hhigh, hlow, hvalue⟩ := escapeControl_eq hch
          have hzero : hexValue? 48 = some 0 := by decide
          have hcodepoint : codepoint? 48 48 (hexDigit high) (hexDigit low) =
              some ch.toNat := by
            simp only [codepoint?, hzero, hexValue?_hexDigit hhigh, hexValue?_hexDigit hlow,
              Option.bind_eq_bind, Option.bind_some]
            exact congrArg some (by omega)
          have hsmall : ch.toNat ≤ 31 := UInt8.le_iff_toNat_le.mp hch
          refine ⟨out ++ encodeUtf8 last, ch.toNat, ?_, ?_, ?_⟩
          · rw [hcode]
            exact parseStringFrom_unicode hlast hcodepoint
          · rw [encodeUtf8_of_lt (by omega), UInt8.ofNat_toNat]
          · exact fun hpair => absurd hpair.1 (by omega)

theorem parseStringFrom_codes (chunks : List Chunk) (out rest : Bytes) {last : Int}
    (hlast : Settled last) :
    parseStringFrom out last (chunks.flatMap Chunk.code ++ 34 :: rest) =
      .ok (out ++ encodeUtf8 last ++ chunks.flatMap Chunk.bytes, rest) := by
  induction chunks generalizing out last with
  | nil =>
      rw [List.flatMap_nil, List.nil_append, List.flatMap_nil, List.append_nil,
        parseStringFrom.eq_def]
      rfl
  | cons chunk chunks ih =>
      obtain ⟨out', last', hstep, hout, hlast'⟩ :=
        parseStringFrom_code chunk out (chunks.flatMap Chunk.code ++ 34 :: rest) hlast
      rw [List.flatMap_cons, List.flatMap_cons, List.append_assoc, hstep, ih out' hlast', hout,
        List.append_assoc _ chunk.bytes]

theorem parseString_dumpChars (value rest : Bytes) :
    parseString (dumpChars value ++ 34 :: rest) = .ok (value, rest) := by
  have hminus : Settled (-1) := by decide
  have hcodes := parseStringFrom_codes (Chunk.split value) [] rest hminus
  rwa [Chunk.flatMap_code_split, Chunk.flatMap_bytes_split] at hcodes

/-! ## Numbers are read back -/

/-- What `parse_number` makes of a printed integer. -/
def reparsedInt (n : Int) : Json :=
  if (intToDecimal n).length ≤ 9 then .int n
  else .double (Binary64.strtod (decide (n < 0)) (toDecimal n.natAbs) [] 0)

/-- After a value nothing follows, or a comma or the end of an array or object. -/
def EndsValue (rest : Bytes) : Prop := ∀ c ∈ rest.head?, c = 44 ∨ c = 93 ∨ c = 125

theorem endsNumber_of_endsValue {rest : Bytes} (h : EndsValue rest) : EndsNumber rest := by
  intro c hc
  rcases h c hc with rfl | rfl | rfl <;> rfl

theorem peek_of_endsValue {rest : Bytes} (h : EndsValue rest) :
    peek rest ≠ 46 ∧ peek rest ≠ 101 ∧ peek rest ≠ 69 := by
  cases rest with
  | nil => decide
  | cons c rest =>
      change c ≠ 46 ∧ c ≠ 101 ∧ c ≠ 69
      rcases h c rfl with rfl | rfl | rfl <;> decide

theorem exists_toDecimal (n : Nat) :
    ∃ c digits, toDecimal n = c :: digits ∧ isDigit c = true := by
  obtain ⟨c, digits, hcons⟩ := List.exists_cons_of_ne_nil (toDecimal_ne_nil n)
  exact ⟨c, digits, hcons, isDigit_of_mem_toDecimal (hcons ▸ List.mem_cons_self)⟩

theorem parseWhole_append (n : Nat) {rest : Bytes} (h : EndsNumber rest) :
    parseWhole (toDecimal n ++ rest) = .ok (toDecimal n, rest) := by
  obtain ⟨c, digits, hcons, hc⟩ := exists_toDecimal n
  have htake := takeWhile_toDecimal n h
  have hdrop : (toDecimal n ++ rest).dropWhile isDigit = rest := by
    have hsplit := List.takeWhile_append_dropWhile (p := isDigit) (l := toDecimal n ++ rest)
    rw [htake] at hsplit
    exact List.append_cancel_left hsplit
  have hpeek : peek (toDecimal n ++ rest) = c := by rw [hcons]; rfl
  rw [parseWhole, hpeek, htake, hdrop, if_pos hc]
  by_cases hzero : c = 48
  · subst hzero
    obtain rfl := toDecimal_eq_zero_cons hcons
    have htail : isDigit (peek rest) = false := by
      cases rest with
      | nil => rfl
      | cons d rest => exact h d rfl
    rw [hcons, if_pos rfl]
    change (if isDigit (peek rest) = true then _ else _) = _
    rw [if_neg (by rw [htail]; exact Bool.false_ne_true)]
    rfl
  · rw [if_neg hzero]

theorem atoi_intToDecimal {n : Int} (h : (intToDecimal n).length ≤ 9) :
    atoi (intToDecimal n) = n := by
  cases n with
  | ofNat n =>
      have hsmall : n < 10 ^ 9 := (length_toDecimal_le_iff (by omega)).mp h
      change atoi (toDecimal n) = n
      rw [atoi_digits (fun c hc => isDigit_of_mem_toDecimal hc), ofDigits_toDecimal]
      rw [ofDigits_toDecimal]
      omega
  | negSucc n =>
      have hlength : (toDecimal (n + 1)).length ≤ 8 := Nat.le_of_succ_le_succ h
      have hsmall : n + 1 < 10 ^ 8 := (length_toDecimal_le_iff (by omega)).mp hlength
      have hdigits : leadingDigits (toDecimal (n + 1)) = n + 1 := by
        have hend : EndsNumber [] := nofun
        have htake := takeWhile_toDecimal (n + 1) hend
        rw [List.append_nil] at htake
        rw [leadingDigits, htake, ofDigits_toDecimal]
      have hstrtol : strtol (intToDecimal (.negSucc n)) = .negSucc n := by
        have hspace : (45 :: toDecimal (n + 1)).dropWhile isSpace = 45 :: toDecimal (n + 1) := rfl
        simp only [strtol, intToDecimal, hspace, hdigits]
        omega
      rw [atoi, hstrtol]
      exact Int.bmod_eq_of_le (by omega) (by omega)

theorem parseNumber_intToDecimal (n : Int) {rest : Bytes} (h : EndsValue rest) :
    parseNumber (intToDecimal n ++ rest) = .ok (reparsedInt n, rest) := by
  obtain ⟨hdot, he, hE⟩ := peek_of_endsValue h
  have hwhole := fun m => parseWhole_append m (endsNumber_of_endsValue h)
  have hfraction : parseFraction rest = .ok ([], rest) := by rw [parseFraction, if_neg hdot]
  have hexponent : parseExponent rest = .ok (0, rest) := by
    rw [parseExponent, if_neg (not_or_intro he hE)]
  cases n with
  | ofNat n =>
      obtain ⟨c, digits, hcons, hc⟩ := exists_toDecimal n
      have hsign : peek (toDecimal n ++ rest) ≠ 45 := by
        rw [hcons]
        rintro rfl
        cases hc
      have hvalue : reparsedInt (.ofNat n) =
          if (toDecimal n).length ≤ 9 then .int (atoi (toDecimal n))
          else .double (Binary64.strtod false (toDecimal n) [] 0) :=
        if_ctx_congr Iff.rfl
          (fun hlength => congrArg Json.int (atoi_intToDecimal (n := .ofNat n) hlength).symm)
          fun _ => rfl
      rw [hvalue]
      simp only [intToDecimal, parseNumber, hsign, decide_false, if_false,
        hwhole, bind, Except.bind, hdot, he, hE, ne_eq, not_false_eq_true, true_and,
        hfraction, hexponent]
      split
      · rfl
      · rfl
  | negSucc n =>
      have hsign : peek (45 :: (toDecimal (n + 1) ++ rest)) = 45 := rfl
      have hvalue : reparsedInt (.negSucc n) =
          if (45 :: toDecimal (n + 1)).length ≤ 9 then .int (atoi (45 :: toDecimal (n + 1)))
          else .double (Binary64.strtod true (toDecimal (n + 1)) [] 0) :=
        if_ctx_congr Iff.rfl
          (fun hlength => congrArg Json.int (atoi_intToDecimal (n := .negSucc n) hlength).symm)
          fun _ => by rw [decide_eq_true (Int.negSucc_lt_zero n)]; rfl
      rw [hvalue]
      simp only [intToDecimal, List.cons_append, parseNumber, hsign, decide_true, if_true,
        List.tail_cons, hwhole, bind, Except.bind, hdot, he, hE, ne_eq, not_false_eq_true,
        true_and, hfraction, hexponent]
      split
      · rfl
      · rfl

/-! ## Values are read back -/

mutual

/-- What parsing makes of a printed value. -/
def reparsed : Json → Json
  | .nul => .nul
  | .int value => reparsedInt value
  | .double value => .double value
  | .bool value => .bool value
  | .string value => .string value
  | .array items => .array (reparsedItems items)
  | .object members => .object (reparsedMembers members)

def reparsedItems : List Json → List Json
  | [] => []
  | value :: rest => value.reparsed :: reparsedItems rest

def reparsedMembers : List (Bytes × Json) → List (Bytes × Json)
  | [] => []
  | (key, value) :: rest => (key, value.reparsed) :: reparsedMembers rest

end

theorem getNextToken_cons {c : UInt8} (h : isWhitespace c = false) (rest : Bytes) :
    getNextToken (c :: rest) = .ok (c, rest) := by
  rw [getNextToken, consumeWhitespace, List.dropWhile_cons_of_neg (by rw [h]; decide)]

theorem getNextToken_space (text : Bytes) : getNextToken (32 :: text) = getNextToken text := rfl

theorem parseJson_space (fuel depth : Nat) (text : Bytes) :
    parseJson fuel depth (32 :: text) = parseJson fuel depth text := by
  cases fuel with
  | zero => rfl
  | succ fuel => rw [parseJson, parseJson, getNextToken_space]

/-- The first byte of a value is no white space and ends nothing. -/
structure BeginsValue (c : UInt8) : Prop where
  space : isWhitespace c = false
  bracket : c ≠ 93
  brace : c ≠ 125

instance (c : UInt8) : Decidable (BeginsValue c) :=
  decidable_of_iff (isWhitespace c = false ∧ c ≠ 93 ∧ c ≠ 125)
    ⟨fun h => ⟨h.1, h.2.1, h.2.2⟩, fun h => ⟨h.1, h.2, h.3⟩⟩

theorem beginsValue_of_isDigit {c : UInt8} (h : isDigit c = true) : BeginsValue c := by
  have hdigits : ∀ n < 256, isDigit (UInt8.ofNat n) = true → BeginsValue (UInt8.ofNat n) := by
    decide +kernel
  have hc := hdigits c.toNat c.toNat_lt
  rw [UInt8.ofNat_toNat] at hc
  exact hc h

theorem exists_dump_cons {n : Nat} {value : Json} (h : Regular n value) :
    ∃ c text, value.dump = c :: text ∧ BeginsValue c := by
  cases value with
  | nul => exact ⟨_, _, rfl, by decide⟩
  | int value =>
      cases value with
      | ofNat value =>
          obtain ⟨c, digits, hcons, hc⟩ := exists_toDecimal value
          exact ⟨c, digits, hcons, beginsValue_of_isDigit hc⟩
      | negSucc value => exact ⟨_, _, rfl, by decide⟩
  | double value => cases n <;> exact h.elim
  | bool value => cases value <;> exact ⟨_, _, rfl, by decide⟩
  | string value => exact ⟨_, _, rfl, by decide⟩
  | array items => exact ⟨_, _, rfl, by decide⟩
  | object members => exact ⟨_, _, rfl, by decide⟩

theorem assign_append {key : Bytes} (value : Json) {data : List (Bytes × Json)}
    (h : ∀ entry ∈ data, compare entry.1 key = .lt) :
    assign key value data = data ++ [(key, value)] := by
  induction data with
  | nil => rfl
  | cons entry data ih =>
      have hgt : compare key entry.1 = .gt :=
        Std.OrientedCmp.gt_iff_lt.mpr (h entry List.mem_cons_self)
      rw [assign, hgt, List.cons_append]
      exact congrArg _ (ih fun other hother => h other (List.mem_cons_of_mem _ hother))

theorem dumpItems_false (value : Json) (items : List Json) :
    dumpItems false (value :: items) = 44 :: 32 :: dumpItems true (value :: items) := rfl

theorem dumpMembers_false (entry : Bytes × Json) (members : List (Bytes × Json)) :
    dumpMembers false (entry :: members) = 44 :: 32 :: dumpMembers true (entry :: members) := by
  simp [dumpMembers, ascii]

def ReadsBack (n : Nat) : Prop :=
  ∀ (value : Json) (fuel depth : Nat) (rest : Bytes), Regular n value → depth + n ≤ maxDepth →
    EndsValue rest → 2 * (value.dump ++ rest).length < fuel →
      parseJson fuel depth (value.dump ++ rest) = .ok (value.reparsed, rest)

theorem endsValue_dumpItems (items : List Json) (rest : Bytes) :
    EndsValue (dumpItems false items ++ 93 :: rest) := by
  cases items with
  | nil => exact fun c hc => .inr (.inl (Option.some.inj hc).symm)
  | cons item items => exact fun c hc => .inl (Option.some.inj hc).symm

theorem endsValue_dumpMembers (members : List (Bytes × Json)) (rest : Bytes) :
    EndsValue (dumpMembers false members ++ 125 :: rest) := by
  cases members with
  | nil => exact fun c hc => .inr (.inr (Option.some.inj hc).symm)
  | cons entry members =>
      rw [dumpMembers_false]
      exact fun c hc => .inl (Option.some.inj hc).symm

theorem getNextToken_dump {n : Nat} {value : Json} (h : Regular n value) (rest : Bytes) :
    ∃ c text, value.dump ++ rest = c :: text ∧ BeginsValue c ∧
      getNextToken (value.dump ++ rest) = .ok (c, text) := by
  obtain ⟨c, text, hcons, hc⟩ := exists_dump_cons h
  refine ⟨c, text ++ rest, by rw [hcons]; rfl, hc, ?_⟩
  rw [hcons]
  exact getNextToken_cons hc.space _

theorem parseItems_last {fuel depth : Nat} {data : List Json} {text rest : Bytes} {value : Json}
    (h : parseJson fuel (depth + 1) text = .ok (value, 93 :: rest)) :
    parseItems (fuel + 1) depth data text = .ok (.array (data ++ [value]), rest) := by
  rw [parseItems, h]
  rfl

theorem parseItems_comma {fuel depth : Nat} {data : List Json} {text rest next : Bytes}
    {value : Json} {c : UInt8} (h : parseJson fuel (depth + 1) text = .ok (value, 44 :: rest))
    (hnext : getNextToken rest = .ok (c, next)) :
    parseItems (fuel + 1) depth data text =
      parseItems fuel depth (data ++ [value]) (c :: next) := by
  have hcomma : getNextToken (44 :: rest) = .ok (44, rest) := rfl
  rw [parseItems, h]
  simp only [bind, Except.bind, hcomma, hnext]
  rfl

theorem ReadsBack.items {n : Nat} (h : ReadsBack n) (items : List Json) (item : Json)
    (fuel depth : Nat) (data : List Json) (rest : Bytes)
    (hitems : ∀ value ∈ item :: items, Regular n value) (hdepth : depth + 1 + n ≤ maxDepth)
    (hfuel : 2 * (dumpItems true (item :: items) ++ 93 :: rest).length + 1 < fuel) :
    parseItems fuel depth data (dumpItems true (item :: items) ++ 93 :: rest) =
      .ok (.array (data ++ reparsedItems (item :: items)), rest) := by
  have htext (item : Json) (items : List Json) :
      dumpItems true (item :: items) ++ 93 :: rest =
        item.dump ++ (dumpItems false items ++ 93 :: rest) := by
    rw [dumpItems, List.append_assoc]
    rfl
  induction items generalizing item fuel data with
  | nil =>
      obtain ⟨fuel, rfl⟩ := Nat.exists_eq_succ_of_ne_zero (Nat.ne_zero_of_lt hfuel)
      rw [htext] at hfuel ⊢
      have hitem := h item fuel (depth + 1) _ (hitems item List.mem_cons_self) hdepth
        (endsValue_dumpItems [] rest) (by omega)
      exact parseItems_last hitem
  | cons next items ih =>
      obtain ⟨fuel, rfl⟩ := Nat.exists_eq_succ_of_ne_zero (Nat.ne_zero_of_lt hfuel)
      rw [htext] at hfuel ⊢
      have hitem := h item fuel (depth + 1) _ (hitems item List.mem_cons_self) hdepth
        (endsValue_dumpItems (next :: items) rest) (by omega)
      obtain ⟨c, text, hcons, -, htoken⟩ :=
        getNextToken_dump (hitems next (by simp)) (dumpItems false items ++ 93 :: rest)
      rw [← htext] at hcons htoken
      have htail := ih next fuel (data ++ [item.reparsed])
        (fun value hvalue => hitems value (List.mem_cons_of_mem _ hvalue))
        (by
          rw [dumpItems_false, List.length_append] at hfuel
          simp only [List.cons_append, List.length_cons] at hfuel
          omega)
      rw [parseItems_comma hitem (htoken : getNextToken (32 :: _) = _), ← hcons, htail,
        List.append_assoc]
      rfl

/-- The members of an object after the first quotation mark. -/
def memberText (key : Bytes) (value : Json) (members : List (Bytes × Json)) (rest : Bytes) :
    Bytes :=
  dumpChars key ++ 34 :: 58 :: 32 :: (value.dump ++ (dumpMembers false members ++ 125 :: rest))

theorem dumpMembers_cons (key : Bytes) (value : Json) (members : List (Bytes × Json))
    (rest : Bytes) : dumpMembers true ((key, value) :: members) ++ 125 :: rest =
      34 :: memberText key value members rest := by
  simp [dumpMembers, memberText, dumpString, ascii]

theorem parseMembers_last {fuel depth : Nat} {data : List (Bytes × Json)}
    {key text rest : Bytes} {value : Json}
    (h : parseJson fuel (depth + 1) text = .ok (value, 125 :: rest)) :
    parseMembers (fuel + 1) depth data 34 (dumpChars key ++ 34 :: 58 :: 32 :: text) =
      .ok (.object (assign key value data), rest) := by
  have hcolon : getNextToken (58 :: 32 :: text) = .ok (58, 32 :: text) := rfl
  rw [parseMembers, parseString_dumpChars]
  simp only [bind, Except.bind, hcolon, parseJson_space, h]
  rfl

theorem parseMembers_comma {fuel depth : Nat} {data : List (Bytes × Json)}
    {key text rest : Bytes} {value : Json}
    (h : parseJson fuel (depth + 1) text = .ok (value, 44 :: 32 :: 34 :: rest)) :
    parseMembers (fuel + 1) depth data 34 (dumpChars key ++ 34 :: 58 :: 32 :: text) =
      parseMembers fuel depth (assign key value data) 34 rest := by
  have hcolon : getNextToken (58 :: 32 :: text) = .ok (58, 32 :: text) := rfl
  have hcomma : getNextToken (44 :: 32 :: 34 :: rest) = .ok (44, 32 :: 34 :: rest) := rfl
  have hquote : getNextToken (32 :: 34 :: rest) = .ok (34, rest) := rfl
  rw [parseMembers, parseString_dumpChars]
  simp only [bind, Except.bind, hcolon, parseJson_space, h, hcomma, hquote]
  rfl

theorem ReadsBack.members {n : Nat} (h : ReadsBack n) (members : List (Bytes × Json))
    (key : Bytes) (value : Json) (fuel depth : Nat) (data : List (Bytes × Json)) (rest : Bytes)
    (hsorted : (data.map Prod.fst ++ key :: members.map Prod.fst).Pairwise
      fun first second => compare first second = .lt)
    (hvalues : ∀ entry ∈ (key, value) :: members, Regular n entry.2)
    (hdepth : depth + 1 + n ≤ maxDepth)
    (hfuel : 2 * (memberText key value members rest).length < fuel) :
    parseMembers fuel depth data 34 (memberText key value members rest) =
      .ok (.object (data ++ reparsedMembers ((key, value) :: members)), rest) := by
  induction members generalizing key value fuel data with
  | nil =>
      obtain ⟨fuel, rfl⟩ := Nat.exists_eq_succ_of_ne_zero (Nat.ne_zero_of_lt hfuel)
      have hvalue := h value fuel (depth + 1) _ (hvalues _ List.mem_cons_self) hdepth
        (endsValue_dumpMembers [] rest)
        (by
          rw [memberText, List.length_append] at hfuel
          simp only [List.length_cons] at hfuel
          omega)
      rw [memberText, parseMembers_last hvalue, assign_append]
      · rfl
      · intro entry hentry
        exact (List.pairwise_append.mp hsorted).2.2 _ (List.mem_map_of_mem hentry) _
          List.mem_cons_self
  | cons next members ih =>
      obtain ⟨nextKey, nextValue⟩ := next
      obtain ⟨fuel, rfl⟩ := Nat.exists_eq_succ_of_ne_zero (Nat.ne_zero_of_lt hfuel)
      have hvalue := h value fuel (depth + 1) _ (hvalues _ List.mem_cons_self) hdepth
        (endsValue_dumpMembers ((nextKey, nextValue) :: members) rest)
        (by
          rw [memberText, List.length_append] at hfuel
          simp only [List.length_cons] at hfuel
          omega)
      have hcomma : dumpMembers false ((nextKey, nextValue) :: members) ++ 125 :: rest =
          44 :: 32 :: 34 :: memberText nextKey nextValue members rest := by
        rw [dumpMembers_false, ← dumpMembers_cons]
        rfl
      have hassign : assign key value.reparsed data = data ++ [(key, value.reparsed)] :=
        assign_append _ fun entry hentry =>
          (List.pairwise_append.mp hsorted).2.2 _ (List.mem_map_of_mem hentry) _
            List.mem_cons_self
      rw [memberText, hcomma] at hfuel
      rw [hcomma] at hvalue
      have htail := ih nextKey nextValue fuel (data ++ [(key, value.reparsed)])
        (by
          rw [List.map_append, List.append_assoc]
          exact hsorted)
        (fun entry hentry => hvalues entry (List.mem_cons_of_mem _ hentry))
        (by
          simp only [List.length_append, List.length_cons] at hfuel
          omega)
      rw [memberText, hcomma, parseMembers_comma hvalue, hassign, htail, List.append_assoc]
      rfl

theorem parseJson_string (fuel : Nat) {depth : Nat} (hdepth : depth ≤ maxDepth)
    (value rest : Bytes) :
    parseJson (fuel + 1) depth (dumpString value ++ rest) = .ok (.string value, rest) := by
  have htext : dumpString value ++ rest = 34 :: (dumpChars value ++ 34 :: rest) := by
    simp [dumpString]
  have htoken := getNextToken_cons (c := 34) rfl (dumpChars value ++ 34 :: rest)
  rw [htext, parseJson, if_neg (by omega), htoken]
  simp only [bind, Except.bind, parseString_dumpChars]
  rfl

theorem parseJson_number (fuel : Nat) {depth : Nat} (hdepth : depth ≤ maxDepth) (value : Int)
    {rest : Bytes} (h : EndsValue rest) :
    parseJson (fuel + 1) depth (intToDecimal value ++ rest) = .ok (reparsedInt value, rest) := by
  have hfirst : ∃ c text, intToDecimal value ++ rest = c :: text ∧ isWhitespace c = false ∧
      (c = 45 ∨ isDigit c = true) := by
    cases value with
    | ofNat value =>
        obtain ⟨c, digits, hcons, hc⟩ := exists_toDecimal value
        refine ⟨c, digits ++ rest, ?_, (beginsValue_of_isDigit hc).space, .inr hc⟩
        rw [intToDecimal, hcons]
        rfl
    | negSucc value => exact ⟨45, _, rfl, rfl, .inl rfl⟩
  obtain ⟨c, text, hcons, hspace, hc⟩ := hfirst
  have hnumber := parseNumber_intToDecimal value h
  rw [hcons] at hnumber ⊢
  rw [parseJson, if_neg (by omega), getNextToken_cons hspace]
  simp only [bind, Except.bind, if_pos hc, hnumber]

theorem parseJson_array {fuel depth : Nat} (hdepth : depth ≤ maxDepth) {text next : Bytes}
    {c : UInt8} (hc : c ≠ 93) (hnext : getNextToken text = .ok (c, next)) :
    parseJson (fuel + 1) depth (91 :: text) = parseItems fuel depth [] (c :: next) := by
  have htoken := getNextToken_cons (c := 91) rfl text
  rw [parseJson, if_neg (by omega), htoken]
  simp only [bind, Except.bind, hnext]
  rw [if_neg (by decide), if_neg (by decide), if_neg (by decide), if_neg (by decide),
    if_neg (by decide), if_neg (by decide), if_pos trivial, if_neg hc]

theorem parseJson_object {fuel depth : Nat} (hdepth : depth ≤ maxDepth) (text : Bytes) :
    parseJson (fuel + 1) depth (123 :: 34 :: text) = parseMembers fuel depth [] 34 text := by
  have htoken := getNextToken_cons (c := 123) rfl (34 :: text)
  have hquote := getNextToken_cons (c := 34) rfl text
  rw [parseJson, if_neg (by omega), htoken]
  simp only [bind, Except.bind, hquote]
  rfl

theorem parseJson_emptyArray {fuel depth : Nat} (hdepth : depth ≤ maxDepth) (rest : Bytes) :
    parseJson (fuel + 1) depth (91 :: 93 :: rest) = .ok (.array [], rest) := by
  rw [parseJson, if_neg (by omega)]
  rfl

theorem parseJson_emptyObject {fuel depth : Nat} (hdepth : depth ≤ maxDepth) (rest : Bytes) :
    parseJson (fuel + 1) depth (123 :: 125 :: rest) = .ok (.object [], rest) := by
  rw [parseJson, if_neg (by omega)]
  rfl

theorem readsBack (n : Nat) : ReadsBack n := by
  induction n using Nat.strong_induction_on with
  | _ n ih =>
      intro value fuel depth rest hregular hlevels hrest hfuel
      obtain ⟨fuel, rfl⟩ := Nat.exists_eq_succ_of_ne_zero (Nat.ne_zero_of_lt hfuel)
      have hdepth : depth ≤ maxDepth := by omega
      cases value with
      | nul =>
          rw [parseJson, if_neg (by omega)]
          rfl
      | int value => exact parseJson_number fuel hdepth value hrest
      | double value => cases n <;> exact hregular.elim
      | bool value =>
          rw [parseJson, if_neg (by omega)]
          cases value <;> rfl
      | string value => exact parseJson_string fuel hdepth value rest
      | array items =>
          cases n with
          | zero => exact hregular.elim
          | succ n =>
              cases items with
              | nil => exact parseJson_emptyArray hdepth rest
              | cons item items =>
                  have htext : (array (item :: items)).dump ++ rest =
                      91 :: (dumpItems true (item :: items) ++ 93 :: rest) := by
                    simp [dump, ascii]
                  obtain ⟨c, text, hcons, hc, htoken⟩ := getNextToken_dump
                    (hregular item List.mem_cons_self) (dumpItems false items ++ 93 :: rest)
                  have hitems : dumpItems true (item :: items) ++ 93 :: rest =
                      item.dump ++ (dumpItems false items ++ 93 :: rest) := by
                    rw [dumpItems, List.append_assoc]
                    rfl
                  rw [← hitems] at hcons htoken
                  rw [htext] at hfuel ⊢
                  rw [parseJson_array hdepth hc.bracket htoken, ← hcons]
                  exact (ih n (Nat.lt_succ_self n)).items items item fuel depth [] rest hregular
                    (by omega) (by simp only [List.length_cons] at hfuel; omega)
      | object members =>
          cases n with
          | zero => exact hregular.elim
          | succ n =>
              cases members with
              | nil => exact parseJson_emptyObject hdepth rest
              | cons entry members =>
                  have htext : (object (entry :: members)).dump ++ rest =
                      123 :: (dumpMembers true (entry :: members) ++ 125 :: rest) := by
                    simp [dump, ascii]
                  have hkeys : ((entry :: members).map Prod.fst).Pairwise
                      fun first second => compare first second = .lt :=
                    List.pairwise_map.mpr hregular.1
                  rw [htext, dumpMembers_cons] at hfuel ⊢
                  rw [parseJson_object hdepth]
                  exact (ih n (Nat.lt_succ_self n)).members members entry.1 entry.2 fuel depth []
                    rest hkeys hregular.2 (by omega)
                    (by simp only [List.length_cons] at hfuel; omega)

/-- Parsing a serialized value gives it back, with the numbers as they are read. -/
theorem parse_dump {n : Nat} {value : Json} (h : Regular n value) (hn : n ≤ maxDepth) :
    parse value.dump = .ok value.reparsed := by
  have hend : EndsValue [] := nofun
  have hjson := readsBack n value (2 * value.dump.length + 1) 0 [] h (by omega) hend
    (by rw [List.append_nil]; omega)
  rw [List.append_nil] at hjson
  rw [parse, hjson]
  rfl

theorem parse_toDecimal {n : Nat} (h : n < 10 ^ 9) : parse (toDecimal n) = .ok (.int n) := by
  have hlength : (intToDecimal n).length ≤ 9 := (length_toDecimal_le_iff (by omega)).mpr h
  have hparse : parse (Json.int n).dump = .ok (reparsedInt n) :=
    parse_dump (n := 0) trivial (Nat.zero_le _)
  rwa [reparsedInt, if_pos hlength] at hparse

/-! ## Values are texts -/

theorem items_dumpItems (items : List Json) (item : Json)
    (h : ∀ value ∈ item :: items, JsonText.Value value.dump) {before : Bytes}
    (hbefore : JsonText.Space before) :
    JsonText.Items (before ++ dumpItems true (item :: items)) := by
  have helement : JsonText.Element (before ++ item.dump ++ []) :=
    .mk hbefore (h item List.mem_cons_self) JsonText.space_nil
  rw [List.append_nil] at helement
  induction items generalizing item before with
  | nil =>
      have htext : dumpItems true [item] = item.dump := List.append_nil _
      rw [htext]
      exact .last helement
  | cons next items ih =>
      have hspace : JsonText.Space [32] := by
        intro c hc
        exact .inl (List.mem_singleton.mp hc)
      have hnext : JsonText.Element ([32] ++ next.dump ++ []) :=
        .mk hspace (h next (by simp)) JsonText.space_nil
      rw [List.append_nil] at hnext
      have hrest := ih next (fun value hvalue => h value (List.mem_cons_of_mem _ hvalue))
        hspace hnext
      have hitems := JsonText.Items.cons helement hrest
      have htext : dumpItems true (item :: next :: items) =
          item.dump ++ 44 :: ([32] ++ dumpItems true (next :: items)) := by
        rw [dumpItems, dumpItems_false]
        rfl
      rwa [htext, ← List.append_assoc]

theorem members_dumpMembers (members : List (Bytes × Json)) (entry : Bytes × Json)
    (h : ∀ other ∈ entry :: members, JsonText.Value other.2.dump) {before : Bytes}
    (hbefore : JsonText.Space before) :
    JsonText.Members (before ++ dumpMembers true (entry :: members)) := by
  have hspace : JsonText.Space [32] := by
    intro c hc
    exact .inl (List.mem_singleton.mp hc)
  have helement : JsonText.Element ([32] ++ entry.2.dump ++ []) :=
    .mk hspace (h entry List.mem_cons_self) JsonText.space_nil
  induction members generalizing entry before with
  | nil =>
      have hmember := JsonText.Members.last hbefore (chars_dumpChars entry.1)
        JsonText.space_nil helement
      have htext : before ++ dumpMembers true [entry] =
          before ++ 34 :: dumpChars entry.1 ++ 34 :: [] ++ 58 :: ([32] ++ entry.2.dump ++ []) := by
        simp [dumpMembers, dumpString, ascii]
      rwa [htext]
  | cons next members ih =>
      have hnext : JsonText.Element ([32] ++ next.2.dump ++ []) :=
        .mk hspace (h next (by simp)) JsonText.space_nil
      have hrest := ih next (fun other hother => h other (List.mem_cons_of_mem _ hother))
        hspace hnext
      have hmembers := JsonText.Members.cons hbefore (chars_dumpChars entry.1)
        JsonText.space_nil helement hrest
      have htext : before ++ dumpMembers true (entry :: next :: members) =
          before ++ 34 :: dumpChars entry.1 ++ 34 :: [] ++ 58 :: ([32] ++ entry.2.dump ++ []) ++
            44 :: ([32] ++ dumpMembers true (next :: members)) := by
        simp [dumpMembers, dumpString, ascii]
      rwa [htext]

theorem value_dump {n : Nat} {value : Json} (h : Regular n value) :
    JsonText.Value value.dump := by
  induction n using Nat.strong_induction_on generalizing value with
  | _ n ih =>
      cases value with
      | nul => exact .null
      | int value => exact .number (JsonText.number_intToDecimal value)
      | double value => cases n <;> exact h.elim
      | bool value =>
          cases value with
          | true => exact .yes
          | false => exact .no
      | string value => exact .string (chars_dumpChars value)
      | array items =>
          cases n with
          | zero => exact h.elim
          | succ n =>
              cases items with
              | nil => exact .emptyArray JsonText.space_nil
              | cons item items =>
                  exact .array (items_dumpItems items item
                    (fun value hvalue => ih n (Nat.lt_succ_self n) (h value hvalue))
                    JsonText.space_nil)
      | object members =>
          cases n with
          | zero => exact h.elim
          | succ n =>
              cases members with
              | nil => exact .emptyObject JsonText.space_nil
              | cons entry members =>
                  exact .object (members_dumpMembers members entry
                    (fun other hother => ih n (Nat.lt_succ_self n) (h.2 other hother))
                    JsonText.space_nil)

/-! ## The bytes of a text -/

theorem isAscii_escapeControl (ch : UInt8) : IsAscii (escapeControl ch) := by
  have hcontrol : ∀ n < 256, IsAscii (escapeControl (UInt8.ofNat n)) := by decide +kernel
  have hch := hcontrol ch.toNat ch.toNat_lt
  rwa [UInt8.ofNat_toNat] at hch

theorem code_eq_or_isAscii (chunk : Chunk) :
    chunk.code = chunk.bytes ∨
      IsAscii chunk.code ∧ ∃ c, String.utf8EncodeChar c = chunk.bytes := by
  cases chunk with
  | lineSeparator => exact .inr ⟨by decide, '\u2028', by decide⟩
  | paragraphSeparator => exact .inr ⟨by decide, '\u2029', by decide⟩
  | byte ch =>
      change Chunk.escapeByte ch = [ch] ∨
        IsAscii (Chunk.escapeByte ch) ∧ ∃ c, String.utf8EncodeChar c = [ch]
      have hescaped := escaped_escapeByte ch
      generalize Chunk.escapeByte ch = code at hescaped
      cases hescaped with
      | plain hcontrol hquote hslash => exact .inl rfl
      | letter letter hletter hvalue hch =>
          have hletters : IsAscii (ascii "\"\\/bfnrt") := by decide
          have hcode : IsAscii [92, letter] := by
            intro c hc
            rcases List.mem_cons.mp hc with rfl | hc
            · decide
            · rw [List.mem_singleton.mp hc]
              exact hletters letter hletter
          exact .inr ⟨hcode, exists_utf8EncodeChar hch⟩
      | control hch =>
          have hle : ch.toNat ≤ 31 := UInt8.le_iff_toNat_le.mp hch
          have hlt : ch < 0x80 := UInt8.lt_iff_toNat_lt.mpr (lt_of_le_of_lt hle (by decide))
          exact .inr ⟨isAscii_escapeControl ch, exists_utf8EncodeChar hlt⟩

theorem validUtf8_codes_iff (chunks : List Chunk) (before : Bytes) :
    ValidUtf8 (before ++ chunks.flatMap Chunk.code) ↔
      ValidUtf8 (before ++ chunks.flatMap Chunk.bytes) := by
  induction chunks generalizing before with
  | nil => rfl
  | cons chunk chunks ih =>
      rw [List.flatMap_cons, List.flatMap_cons]
      rcases code_eq_or_isAscii chunk with h | ⟨hascii, c, hbytes⟩
      · rw [h, ← List.append_assoc, ← List.append_assoc]
        exact ih _
      · have hne : chunk.code ≠ [] := by
          intro hnil
          exact chunk.code_append_ne_quote [34] [] (by rw [hnil]; rfl)
        rw [validUtf8_append_ascii_iff hne hascii, ← hbytes, validUtf8_append_char_iff]
        exact and_congr_right fun _ => ih []

theorem validUtf8_dumpString_append_iff (value rest : Bytes) :
    ValidUtf8 (dumpString value ++ rest) ↔ ValidUtf8 value ∧ ValidUtf8 rest := by
  have hchars := validUtf8_codes_iff (Chunk.split value) []
  rw [List.nil_append, List.nil_append, Chunk.flatMap_code_split,
    Chunk.flatMap_bytes_split] at hchars
  have hquote : IsAscii [34] := by decide
  have htext : dumpString value ++ rest = [34] ++ (dumpChars value ++ ([34] ++ rest)) := by
    simp [dumpString]
  rw [htext, validUtf8_ascii_append_iff hquote,
    validUtf8_append_ascii_iff (List.cons_ne_nil _ _) hquote, hchars]

mutual

/-- The strings of a value, and the keys of its objects. -/
def strings : Json → List Bytes
  | .nul => []
  | .int _ => []
  | .double _ => []
  | .bool _ => []
  | .string value => [value]
  | .array items => itemStrings items
  | .object members => memberStrings members

def itemStrings : List Json → List Bytes
  | [] => []
  | value :: rest => value.strings ++ itemStrings rest

def memberStrings : List (Bytes × Json) → List Bytes
  | [] => []
  | (key, value) :: rest => key :: value.strings ++ memberStrings rest

end

/-- Up to the end of this value the text is valid exactly if its strings are. -/
def CutsAfter (value : Json) : Prop :=
  ∀ rest, ValidUtf8 (value.dump ++ rest) ↔
    (∀ text ∈ value.strings, ValidUtf8 text) ∧ ValidUtf8 rest

theorem cutsAfter_of_ascii {value : Json} (hdump : IsAscii value.dump)
    (hstrings : value.strings = []) : CutsAfter value := by
  intro rest
  rw [validUtf8_ascii_append_iff hdump, hstrings]
  simp

theorem isAscii_digits {n : Nat} : IsAscii (toDecimal n) := by
  intro c hc
  have hdigit := isDigit_of_mem_toDecimal hc
  simp only [isDigit, Bool.and_eq_true, decide_eq_true_eq, UInt8.le_iff_toNat_le] at hdigit
  exact UInt8.lt_iff_toNat_lt.mpr (lt_of_le_of_lt hdigit.2 (by decide))

theorem isAscii_intToDecimal (n : Int) : IsAscii (intToDecimal n) := by
  cases n with
  | ofNat n => exact isAscii_digits
  | negSucc n =>
      intro c hc
      rcases List.mem_cons.mp hc with rfl | hc
      · decide
      · exact isAscii_digits c hc

theorem validUtf8_dumpItems_append_iff {items : List Json} (h : ∀ value ∈ items, CutsAfter value)
    (first : Bool) (rest : Bytes) : ValidUtf8 (dumpItems first items ++ rest) ↔
      (∀ text ∈ itemStrings items, ValidUtf8 text) ∧ ValidUtf8 rest := by
  have hcomma : ∀ first : Bool, IsAscii (if first then [] else ascii ", ") := by decide
  induction items generalizing first with
  | nil => simp [dumpItems, itemStrings]
  | cons item items ih =>
      have htail : ValidUtf8 (dumpItems false items ++ rest) ↔
          (∀ text ∈ itemStrings items, ValidUtf8 text) ∧ ValidUtf8 rest :=
        ih (fun value hvalue => h value (List.mem_cons_of_mem _ hvalue)) false
      rw [dumpItems, List.append_assoc, List.append_assoc,
        validUtf8_ascii_append_iff (hcomma first), h item List.mem_cons_self, itemStrings, htail,
        List.forall_mem_append, and_assoc]

theorem validUtf8_dumpMembers_append_iff {members : List (Bytes × Json)}
    (h : ∀ entry ∈ members, CutsAfter entry.2) (first : Bool) (rest : Bytes) :
    ValidUtf8 (dumpMembers first members ++ rest) ↔
      (∀ text ∈ memberStrings members, ValidUtf8 text) ∧ ValidUtf8 rest := by
  have hcomma : ∀ first : Bool, IsAscii (if first then [] else ascii ", ") := by decide
  have hcolon : IsAscii (ascii ": ") := by decide
  induction members generalizing first with
  | nil => simp [dumpMembers, memberStrings]
  | cons entry members ih =>
      have htail : ValidUtf8 (dumpMembers false members ++ rest) ↔
          (∀ text ∈ memberStrings members, ValidUtf8 text) ∧ ValidUtf8 rest :=
        ih (fun other hother => h other (List.mem_cons_of_mem _ hother)) false
      rw [dumpMembers, List.append_assoc, List.append_assoc, List.append_assoc, List.append_assoc,
        validUtf8_ascii_append_iff (hcomma first), validUtf8_dumpString_append_iff,
        validUtf8_ascii_append_iff hcolon, h entry List.mem_cons_self, htail, memberStrings,
        List.cons_append, List.forall_mem_cons, List.forall_mem_append, and_assoc, and_assoc]

theorem cutsAfter {n : Nat} {value : Json} (h : Regular n value) : CutsAfter value := by
  have hbracket : IsAscii (ascii "[") ∧ IsAscii (ascii "]") := by decide
  have hbrace : IsAscii (ascii "\x7b") ∧ IsAscii (ascii "\x7d") := by decide
  induction n using Nat.strong_induction_on generalizing value with
  | _ n ih =>
      cases value with
      | nul => exact cutsAfter_of_ascii (by decide) rfl
      | int value => exact cutsAfter_of_ascii (isAscii_intToDecimal value) rfl
      | double value => cases n <;> exact h.elim
      | bool value => cases value <;> exact cutsAfter_of_ascii (by decide) rfl
      | string value =>
          intro rest
          simp only [dump, strings, List.mem_singleton, forall_eq]
          exact validUtf8_dumpString_append_iff value rest
      | array items =>
          cases n with
          | zero => exact h.elim
          | succ n =>
              have hitems : ∀ item ∈ items, CutsAfter item :=
                fun item hitem => ih n (Nat.lt_succ_self n) (h item hitem)
              intro rest
              rw [dump, List.append_assoc, List.append_assoc,
                validUtf8_ascii_append_iff hbracket.1, validUtf8_dumpItems_append_iff hitems,
                validUtf8_ascii_append_iff hbracket.2, strings]
      | object members =>
          cases n with
          | zero => exact h.elim
          | succ n =>
              have hmembers : ∀ entry ∈ members, CutsAfter entry.2 :=
                fun entry hentry => ih n (Nat.lt_succ_self n) (h.2 entry hentry)
              intro rest
              rw [dump, List.append_assoc, List.append_assoc,
                validUtf8_ascii_append_iff hbrace.1, validUtf8_dumpMembers_append_iff hmembers,
                validUtf8_ascii_append_iff hbrace.2, strings]

theorem validUtf8_dump_iff {n : Nat} {value : Json} (h : Regular n value) :
    ValidUtf8 value.dump ↔ ∀ text ∈ value.strings, ValidUtf8 text := by
  have hcut := cutsAfter h []
  rw [List.append_nil] at hcut
  rw [hcut]
  exact and_iff_left validUtf8_nil

end Can2Rest.Shared.Json
