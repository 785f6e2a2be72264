import Can2Rest.Foundation.Text

/-!
# UTF-8

A byte string is valid UTF-8 if it is the encoding of some characters.  It can be
cut before every byte that begins a character, in particular around the ASCII
characters in it.
-/

namespace Can2Rest.Foundation

def ValidUtf8 (text : Bytes) : Prop :=
  ∃ chars : List Char, chars.flatMap String.utf8EncodeChar = text

theorem validUtf8_nil : ValidUtf8 [] := ⟨[], rfl⟩

theorem ValidUtf8.append {first second : Bytes} (hfirst : ValidUtf8 first)
    (hsecond : ValidUtf8 second) : ValidUtf8 (first ++ second) := by
  obtain ⟨chars, rfl⟩ := hfirst
  obtain ⟨chars', rfl⟩ := hsecond
  exact ⟨chars ++ chars', List.flatMap_append⟩

theorem validUtf8_utf8EncodeChar (c : Char) : ValidUtf8 (String.utf8EncodeChar c) :=
  ⟨[c], by simp⟩

/-! ## Cutting a text -/

theorem utf8EncodeChar_append_inj {c c' : Char} {rest rest' : Bytes}
    (h : String.utf8EncodeChar c ++ rest = String.utf8EncodeChar c' ++ rest') :
    c = c' ∧ rest = rest' := by
  have hdecode := congrArg (fun bytes : Bytes => bytes.toByteArray.utf8DecodeChar? 0) h
  simp only [List.toByteArray_append, ByteArray.utf8DecodeChar?_utf8EncodeChar_append] at hdecode
  obtain rfl := Option.some.inj hdecode
  exact ⟨rfl, List.append_cancel_left h⟩

theorem ValidUtf8.utf8DecodeChar?_isSome {text : Bytes} (h : ValidUtf8 text) (hne : text ≠ []) :
    (text.toByteArray.utf8DecodeChar? 0).isSome = true := by
  obtain ⟨chars, rfl⟩ := h
  cases chars with
  | nil => exact absurd rfl hne
  | cons c chars =>
      rw [List.flatMap_cons, List.toByteArray_append,
        ByteArray.utf8DecodeChar?_utf8EncodeChar_append]
      rfl

theorem validUtf8_char_append_iff {c : Char} {rest : Bytes} :
    ValidUtf8 (String.utf8EncodeChar c ++ rest) ↔ ValidUtf8 rest := by
  refine ⟨?_, (validUtf8_utf8EncodeChar c).append⟩
  rintro ⟨chars, hchars⟩
  cases chars with
  | nil =>
      have hlength := congrArg List.length hchars
      have hpos := c.utf8Size_pos
      simp only [List.flatMap_nil, List.length_nil, List.length_append,
        String.length_utf8EncodeChar] at hlength
      omega
  | cons c' chars =>
      rw [List.flatMap_cons] at hchars
      exact ⟨chars, (utf8EncodeChar_append_inj hchars).2⟩

/-- Only the first byte of an encoding can begin a character. -/
theorem not_isUTF8FirstByte {c : Char} {before after : Bytes} {b : UInt8} (hne : before ≠ [])
    (h : String.utf8EncodeChar c = before ++ b :: after) : ¬ b.IsUTF8FirstByte := by
  intro hfirst
  have hlength : before.length < (String.utf8EncodeChar c).length := by simp [h]
  have hb : (String.utf8EncodeChar c)[before.length] = b := by simp [h]
  rw [← hb, UInt8.isUTF8FirstByte_getElem_utf8EncodeChar, List.length_eq_zero_iff] at hfirst
  exact hne hfirst

theorem validUtf8_append_cons_iff {before after : Bytes} {b : UInt8} (hb : b.IsUTF8FirstByte) :
    ValidUtf8 (before ++ b :: after) ↔ ValidUtf8 before ∧ ValidUtf8 (b :: after) := by
  refine ⟨?_, fun h => h.1.append h.2⟩
  rintro ⟨chars, hchars⟩
  induction chars generalizing before with
  | nil => simp at hchars
  | cons c chars ih =>
      by_cases hne : before = []
      · subst hne
        exact ⟨validUtf8_nil, c :: chars, hchars⟩
      rw [List.flatMap_cons] at hchars
      rcases List.append_eq_append_iff.mp hchars with ⟨more, rfl, hrest⟩ | ⟨cut, hchar, hrest⟩
      · obtain ⟨hmore, hafter⟩ := ih hrest
        exact ⟨(validUtf8_utf8EncodeChar c).append hmore, hafter⟩
      · cases cut with
        | nil =>
            rw [List.append_nil] at hchar
            exact ⟨hchar ▸ validUtf8_utf8EncodeChar c, chars, hrest.symm⟩
        | cons b' cut =>
            obtain ⟨rfl, -⟩ := List.cons.inj hrest
            exact absurd hb (not_isUTF8FirstByte hne hchar)

theorem exists_utf8EncodeChar_cons (c : Char) :
    ∃ b rest, String.utf8EncodeChar c = b :: rest ∧ b.IsUTF8FirstByte := by
  have hpos : 0 < (String.utf8EncodeChar c).length := by
    rw [String.length_utf8EncodeChar]
    exact c.utf8Size_pos
  obtain ⟨b, rest, hcons⟩ := List.exists_cons_of_length_pos hpos
  have hb : (String.utf8EncodeChar c)[0] = b := by simp [hcons]
  exact ⟨b, rest, hcons, hb ▸ UInt8.isUTF8FirstByte_getElem_utf8EncodeChar.mpr rfl⟩

theorem validUtf8_append_char_iff {c : Char} {before after : Bytes} :
    ValidUtf8 (before ++ (String.utf8EncodeChar c ++ after)) ↔
      ValidUtf8 before ∧ ValidUtf8 after := by
  obtain ⟨b, rest, hcons, hb⟩ := exists_utf8EncodeChar_cons c
  rw [hcons, List.cons_append, validUtf8_append_cons_iff hb, ← List.cons_append, ← hcons,
    validUtf8_char_append_iff]

/-! ## ASCII -/

def IsAscii (text : Bytes) : Prop := ∀ c ∈ text, c < 0x80

instance (text : Bytes) : Decidable (IsAscii text) := List.decidableBAll _ text

theorem isUTF8FirstByte_of_lt {c : UInt8} (h : c < 0x80) : c.IsUTF8FirstByte := by
  have hbyte : ∀ n < 128, (UInt8.ofNat n) &&& 0x80 = 0 := by decide
  have hzero := hbyte c.toNat (UInt8.lt_iff_toNat_lt.mp h)
  rw [UInt8.ofNat_toNat] at hzero
  exact .inl hzero

theorem exists_utf8EncodeChar {c : UInt8} (h : c < 0x80) :
    ∃ char, String.utf8EncodeChar char = [c] := by
  have hsmall : c.toNat < 128 := UInt8.lt_iff_toNat_lt.mp h
  have hvalid : c.toNat.isValidChar := .inl (by omega)
  have hvalue : (Char.ofNat c.toNat).val.toNat = c.toNat := by
    rw [Char.ofNat, dif_pos hvalid]
    exact UInt32.toNat_ofNatLT ..
  refine ⟨Char.ofNat c.toNat, ?_⟩
  simp only [String.utf8EncodeChar, hvalue]
  rw [if_pos (by omega), UInt8.ofNat_toNat]

theorem validUtf8_cons_iff {c : UInt8} (h : c < 0x80) {rest : Bytes} :
    ValidUtf8 (c :: rest) ↔ ValidUtf8 rest := by
  obtain ⟨char, hchar⟩ := exists_utf8EncodeChar h
  rw [← List.singleton_append, ← hchar, validUtf8_char_append_iff]

theorem validUtf8_ascii_append_iff {text rest : Bytes} (h : IsAscii text) :
    ValidUtf8 (text ++ rest) ↔ ValidUtf8 rest := by
  induction text with
  | nil => rfl
  | cons c text ih =>
      rw [List.cons_append, validUtf8_cons_iff (h c List.mem_cons_self)]
      exact ih fun d hd => h d (List.mem_cons_of_mem _ hd)

theorem validUtf8_of_ascii {text : Bytes} (h : IsAscii text) : ValidUtf8 text := by
  rw [← List.append_nil text, validUtf8_ascii_append_iff h]
  exact validUtf8_nil

theorem validUtf8_append_ascii_iff {before text after : Bytes} (hne : text ≠ [])
    (h : IsAscii text) :
    ValidUtf8 (before ++ (text ++ after)) ↔ ValidUtf8 before ∧ ValidUtf8 after := by
  obtain ⟨c, rest, rfl⟩ := List.exists_cons_of_ne_nil hne
  have hc : c < 0x80 := h c List.mem_cons_self
  rw [List.cons_append, validUtf8_append_cons_iff (isUTF8FirstByte_of_lt hc),
    ← List.cons_append, validUtf8_ascii_append_iff h]

end Can2Rest.Foundation
