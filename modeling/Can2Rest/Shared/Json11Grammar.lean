import Can2Rest.Foundation.JsonGrammar
import Can2Rest.Shared.Json11Parser

/-!
# What the parser accepts

Whatever the parser reads a value from is a JSON text; so it reports an error on
every text that is none.
-/

namespace Can2Rest.Shared.Json

open Can2Rest.Foundation JsonText

/-- A success has a value and leaves a rest as in `Q`. -/
def Yields {α : Type} (Q : α → Bytes → Prop) : Except Bytes (α × Bytes) → Prop
  | .ok (value, rest) => Q value rest
  | .error _ => True

section Yields

variable {α β : Type} {P Q : α → Bytes → Prop}

theorem Yields.mono {result : Except Bytes (α × Bytes)} (h : Yields P result)
    (himp : ∀ value rest, P value rest → Q value rest) : Yields Q result := by
  cases result with
  | error message => trivial
  | ok result => exact himp result.1 result.2 h

theorem Yields.bind {R : β → Bytes → Prop} {first : Except Bytes (α × Bytes)}
    {next : α × Bytes → Except Bytes (β × Bytes)} (hfirst : Yields P first)
    (hnext : ∀ value rest, P value rest → Yields R (next (value, rest))) :
    Yields R (first >>= next) := by
  cases first with
  | error message => trivial
  | ok result => exact hnext result.1 result.2 hfirst

theorem yields_pure {value : α} {rest : Bytes} (h : Q value rest) :
    Yields Q (pure (value, rest) : Except Bytes (α × Bytes)) := h

theorem Yields.ite {c : Prop} [Decidable c] {yes no : Except Bytes (α × Bytes)}
    (hyes : c → Yields Q yes) (hno : ¬ c → Yields Q no) : Yields Q (if c then yes else no) := by
  split
  next h => exact hyes h
  next h => exact hno h

end Yields

/-! ## Tokens and literals -/

theorem space_takeWhile (text : Bytes) : Space (text.takeWhile isWhitespace) := by
  intro c hc
  have hspace : isWhitespace c = true := List.mem_takeWhile_imp hc
  simp only [isWhitespace, Bool.or_eq_true, decide_eq_true_eq] at hspace
  tauto

theorem getNextToken_yields (text : Bytes) :
    Yields (fun ch rest => ∃ space, Space space ∧ text = space ++ ch :: rest)
      (getNextToken text) := by
  have hsplit : text.takeWhile isWhitespace ++ consumeWhitespace text = text :=
    List.takeWhile_append_dropWhile
  unfold getNextToken
  split
  next => trivial
  next ch rest h =>
      rw [h] at hsplit
      exact ⟨_, space_takeWhile text, hsplit.symm⟩

theorem expect_yields (expected : Bytes) (result : Json) (text : Bytes) :
    Yields (fun _ rest => text = expected ++ rest) (expect expected result text) := by
  refine .ite (fun h => ?_) fun _ => trivial
  obtain ⟨rest, rfl⟩ := List.isPrefixOf_iff_prefix.mp h
  exact yields_pure (by rw [List.drop_left])

/-! ## Strings -/

theorem isHexDigit_of_hexValue? {c : UInt8} {n : Nat} (h : hexValue? c = some n) :
    IsHexDigit c := by
  unfold hexValue? at h
  split at h
  next hlower => exact .inr (.inl hlower)
  next =>
      split at h
      next hupper => exact .inr (.inr hupper)
      next =>
          split at h
          next hdigit => exact .inl hdigit
          next => cases h

theorem isHexDigit_of_codepoint? {a b c d : UInt8} {n : Nat} (h : codepoint? a b c d = some n) :
    IsHexDigit a ∧ IsHexDigit b ∧ IsHexDigit c ∧ IsHexDigit d := by
  obtain ⟨_, ha, h⟩ := Option.bind_eq_some_iff.mp h
  obtain ⟨_, hb, h⟩ := Option.bind_eq_some_iff.mp h
  obtain ⟨_, hc, h⟩ := Option.bind_eq_some_iff.mp h
  obtain ⟨_, hd, -⟩ := Option.bind_eq_some_iff.mp h
  exact ⟨isHexDigit_of_hexValue? ha, isHexDigit_of_hexValue? hb, isHexDigit_of_hexValue? hc,
    isHexDigit_of_hexValue? hd⟩

theorem mem_of_simpleEscape? {ch decoded : UInt8} (h : simpleEscape? ch = some decoded) :
    ch ∈ ascii "\"\\/bfnrt" := by
  have hall : ∀ n < 256, (simpleEscape? (UInt8.ofNat n)).isSome →
      UInt8.ofNat n ∈ ascii "\"\\/bfnrt" := by decide +kernel
  have hch := hall ch.toNat ch.toNat_lt
  rw [UInt8.ofNat_toNat] at hch
  exact hch (by rw [h]; rfl)

/-- The rest of a string after its opening quotation mark. -/
def EndsString (text : Bytes) (_ : Bytes) (rest : Bytes) : Prop :=
  ∃ chars, Chars chars ∧ text = chars ++ 34 :: rest

theorem EndsString.prepend (before : Bytes) {text : Bytes}
    {result : Except Bytes (Bytes × Bytes)} (h : Yields (EndsString text) result)
    (hchars : ∀ chars, Chars chars → Chars (before ++ chars)) :
    Yields (EndsString (before ++ text)) result := by
  refine h.mono ?_
  rintro value rest ⟨chars, hmore, rfl⟩
  exact ⟨before ++ chars, hchars chars hmore, (List.append_assoc ..).symm⟩

theorem parseStringFrom_yields (out : Bytes) (last : Int) (text : Bytes) :
    Yields (EndsString text) (parseStringFrom out last text) := by
  fun_induction parseStringFrom out last text with
  | case1 => trivial
  | case2 out last rest => exact ⟨[], .nil, rfl⟩
  | case3 => trivial
  | case4 out last ch rest hquote hcontrol hslash ih =>
      have hprint : 0x20 ≤ ch := by
        rw [UInt8.not_le, UInt8.lt_iff_toNat_lt] at hcontrol
        rw [UInt8.le_iff_toNat_le]
        exact hcontrol
      exact EndsString.prepend [ch] ih fun _ h => .plain hprint hquote hslash h
  | case5 => trivial
  | case6 => trivial
  | case7 out last ch hquote hcontrol hslash a b c d rest codepoint hcodepoint hpair astral ih =>
      obtain rfl := not_not.mp hslash
      obtain ⟨ha, hb, hc, hd⟩ := isHexDigit_of_codepoint? hcodepoint
      exact EndsString.prepend [92, 117, a, b, c, d] ih
        fun _ h => .unicode ha hb hc hd h
  | case8 out last ch hquote hcontrol hslash a b c d rest codepoint hcodepoint hsingle ih =>
      obtain rfl := not_not.mp hslash
      obtain ⟨ha, hb, hc, hd⟩ := isHexDigit_of_codepoint? hcodepoint
      exact EndsString.prepend [92, 117, a, b, c, d] ih
        fun _ h => .unicode ha hb hc hd h
  | case9 => trivial
  | case10 => trivial
  | case11 out last ch hquote hcontrol hslash letter rest hunicode hletter decoded hdecoded ih =>
      obtain rfl := not_not.mp hslash
      exact EndsString.prepend [92, letter] ih
        fun _ h => .escape (mem_of_simpleEscape? hdecoded) h

/-! ## Numbers -/

theorem digits_takeWhile (text : Bytes) : Digits (text.takeWhile isDigit) :=
  fun _ hc => List.mem_takeWhile_imp hc

theorem takeWhile_ne_nil {text : Bytes} (h : isDigit (peek text) = true) :
    text.takeWhile isDigit ≠ [] := by
  cases text with
  | nil => exact absurd h (by decide)
  | cons c rest =>
      have hdigit : isDigit c = true := h
      rw [List.takeWhile_cons_of_pos hdigit]
      exact List.cons_ne_nil _ _

theorem eq_cons_of_peek {text : Bytes} {c : UInt8} (h : peek text = c) (hc : c ≠ 0) :
    text = c :: text.tail := by
  cases text with
  | nil => exact absurd h.symm hc
  | cons first rest => exact congrArg (· :: rest) h

theorem parseWhole_yields (text : Bytes) :
    Yields (fun whole rest => Whole whole ∧ text = whole ++ rest) (parseWhole text) := by
  refine .ite (fun hzero => .ite (fun _ => trivial) fun _ => ?_) fun hzero =>
    .ite (fun hdigit => ?_) fun _ => trivial
  · exact ⟨.zero, eq_cons_of_peek hzero (by decide)⟩
  · refine ⟨?_, List.takeWhile_append_dropWhile.symm⟩
    cases text with
    | nil => exact absurd hdigit (by decide)
    | cons c rest =>
        have hc : isDigit c = true := hdigit
        rw [List.takeWhile_cons_of_pos hc]
        exact .digits hc hzero (digits_takeWhile rest)

/-- What is read of a text. -/
def Reads (G : Bytes → Prop) {α : Type} (text : Bytes) (_ : α) (rest : Bytes) : Prop :=
  ∃ read, G read ∧ text = read ++ rest

theorem parseFraction_yields (text : Bytes) :
    Yields (Reads Fraction text) (parseFraction text) := by
  refine .ite (fun hpoint => .ite (fun hdigit => ?_) fun _ => trivial) fun _ => ?_
  · refine ⟨46 :: text.tail.takeWhile isDigit,
      .digits (takeWhile_ne_nil hdigit) (digits_takeWhile _), ?_⟩
    rw [List.cons_append, List.takeWhile_append_dropWhile]
    exact eq_cons_of_peek hpoint (by decide)
  · exact ⟨[], .none, rfl⟩

theorem exists_exponentDigits (text : Bytes) :
    ∃ sign, (sign = [] ∨ sign = [43] ∨ sign = [45]) ∧ text = sign ++ (exponentDigits text).2 := by
  unfold exponentDigits
  split
  next h => exact ⟨[45], .inr (.inr rfl), eq_cons_of_peek h (by decide)⟩
  next =>
      split
      next h => exact ⟨[43], .inr (.inl rfl), eq_cons_of_peek h (by decide)⟩
      next => exact ⟨[], .inl rfl, rfl⟩

theorem parseExponent_yields (text : Bytes) :
    Yields (Reads Exponent text) (parseExponent text) := by
  refine .ite (fun hletter => .ite (fun hdigit => ?_) fun _ => trivial) fun _ => ?_
  · have hne : peek text ≠ 0 := by
      rintro hnil
      rw [hnil] at hletter
      exact absurd hletter (by decide)
    obtain ⟨sign, hsign, htail⟩ := exists_exponentDigits text.tail
    refine ⟨_, .digits hletter hsign (takeWhile_ne_nil hdigit) (digits_takeWhile _), ?_⟩
    rw [List.cons_append, List.cons_append, List.append_assoc, List.takeWhile_append_dropWhile,
      ← htail]
    exact eq_cons_of_peek rfl hne
  · exact ⟨[], .none, rfl⟩

theorem parseNumber_yields (text : Bytes) :
    Yields (Reads Number text) (parseNumber text) := by
  have hsign : ∃ sign, (sign = [] ∨ sign = [45]) ∧
      text = sign ++ (if peek text = 45 then text.tail else text) := by
    by_cases h : peek text = 45
    · rw [if_pos h]
      exact ⟨[45], .inr rfl, eq_cons_of_peek h (by decide)⟩
    · rw [if_neg h]
      exact ⟨[], .inl rfl, rfl⟩
  obtain ⟨sign, hsign, htext⟩ := hsign
  unfold parseNumber
  refine (parseWhole_yields _).bind ?_
  rintro whole rest ⟨hwhole, hrest⟩
  rw [hrest] at htext
  refine .ite (fun _ => ?_) fun _ => ?_
  · refine ⟨_, .mk hsign hwhole .none .none, ?_⟩
    rw [htext, List.append_nil, List.append_nil, List.append_assoc]
  · refine (parseFraction_yields rest).bind ?_
    rintro fraction after ⟨fractionText, hfraction, rfl⟩
    refine (parseExponent_yields after).bind ?_
    rintro exponent last ⟨exponentText, hexponent, rfl⟩
    refine ⟨_, .mk hsign hwhole hfraction hexponent, ?_⟩
    rw [htext, List.append_assoc, List.append_assoc, List.append_assoc]

/-! ## Values -/

def ReadsValue (text : Bytes) (_ : Json) (rest : Bytes) : Prop :=
  ∃ space value, Space space ∧ Value value ∧ text = space ++ value ++ rest

/-- The rest of an array; `before` is the whitespace already skipped. -/
def ReadsItems (text : Bytes) (_ : Json) (rest : Bytes) : Prop :=
  ∀ before, Space before →
    ∃ items, Items (before ++ items) ∧ text = items ++ 93 :: rest

def ReadsMembers (text : Bytes) (_ : Json) (rest : Bytes) : Prop :=
  ∀ before, Space before →
    ∃ members, Members (before ++ members) ∧ text = members ++ 125 :: rest

theorem readsValue_of_reads {text space token : Bytes} {result : Except Bytes (Json × Bytes)}
    (hspace : Space space) (htext : text = space ++ token)
    (h : Yields (Reads Value token) result) : Yields (ReadsValue text) result := by
  refine h.mono ?_
  rintro value rest ⟨read, hread, rfl⟩
  exact ⟨space, read, hspace, hread, by rw [htext, List.append_assoc]⟩

theorem string_reads (text : Bytes) :
    Yields (Reads Value (34 :: text)) (do
      let (value, rest) ← parseString text
      return (Json.string value, rest)) := by
  refine (parseStringFrom_yields _ _ text).bind ?_
  rintro value rest ⟨chars, hchars, rfl⟩
  exact ⟨34 :: chars ++ [34], .string hchars, by simp⟩

theorem literal_reads {literal : Bytes} (hliteral : Value literal) (result : Json)
    (text : Bytes) : Yields (Reads Value text) (expect literal result text) :=
  (expect_yields literal result text).mono fun _ _ htext => ⟨literal, hliteral, htext⟩

/-- What the parsers of values, objects and arrays read with this fuel. -/
structure ReadsTexts (fuel : Nat) : Prop where
  value : ∀ depth text, Yields (ReadsValue text) (parseJson fuel depth text)
  members : ∀ depth data ch text,
    Yields (ReadsMembers (ch :: text)) (parseMembers fuel depth data ch text)
  items : ∀ depth data text, Yields (ReadsItems text) (parseItems fuel depth data text)

namespace ReadsTexts

variable {fuel : Nat} (h : ReadsTexts fuel) (depth : Nat)

include h

theorem object_reads (text : Bytes) :
    Yields (Reads Value (123 :: text)) (do
      let (ch, rest) ← getNextToken text
      if ch = 125 then return (Json.object [], rest)
      parseMembers fuel depth [] ch rest) := by
  refine (getNextToken_yields text).bind ?_
  rintro ch rest ⟨space, hspace, rfl⟩
  refine .ite (fun hclose => ?_) fun _ => (h.members depth [] ch rest).mono ?_
  · subst hclose
    exact ⟨123 :: space ++ [125], .emptyObject hspace, by simp⟩
  · rintro value last hread
    obtain ⟨members, hmembers, hrest⟩ := hread space hspace
    exact ⟨123 :: (space ++ members) ++ [125], .object hmembers, by simp [hrest]⟩

theorem array_reads (text : Bytes) :
    Yields (Reads Value (91 :: text)) (do
      let (ch, after) ← getNextToken text
      if ch = 93 then return (Json.array [], after)
      parseItems fuel depth [] (ch :: after)) := by
  refine (getNextToken_yields text).bind ?_
  rintro ch rest ⟨space, hspace, rfl⟩
  refine .ite (fun hclose => ?_) fun _ => (h.items depth [] (ch :: rest)).mono ?_
  · subst hclose
    exact ⟨91 :: space ++ [93], .emptyArray hspace, by simp⟩
  · rintro value last hread
    obtain ⟨items, hitems, hrest⟩ := hread space hspace
    exact ⟨91 :: (space ++ items) ++ [93], .array hitems, by simp [hrest]⟩

theorem value_succ (text : Bytes) :
    Yields (ReadsValue text) (parseJson (fuel + 1) depth text) := by
  unfold parseJson
  refine .ite (fun _ => trivial) fun _ => ?_
  refine (getNextToken_yields text).bind ?_
  rintro ch rest ⟨space, hspace, htext⟩
  refine readsValue_of_reads hspace htext ?_
  refine .ite (fun _ => ?number) fun _ => ?_
  case number =>
    refine (parseNumber_yields _).mono ?_
    rintro value last ⟨read, hread, hlast⟩
    exact ⟨read, .number hread, hlast⟩
  refine .ite (fun _ => literal_reads .yes _ _) fun _ => ?_
  refine .ite (fun _ => literal_reads .no _ _) fun _ => ?_
  refine .ite (fun _ => literal_reads .null _ _) fun _ => ?_
  refine .ite (fun hch => ?string) fun _ =>
    .ite (fun hch => ?object) fun _ => .ite (fun hch => ?array) fun _ => trivial
  case string =>
    rw [hch]
    exact string_reads rest
  case object =>
    rw [hch]
    exact h.object_reads depth rest
  case array =>
    rw [hch]
    exact h.array_reads depth rest

theorem members_succ (data : List (Bytes × Json)) (ch : UInt8) (text : Bytes) :
    Yields (ReadsMembers (ch :: text)) (parseMembers (fuel + 1) depth data ch text) := by
  unfold parseMembers
  refine .ite (fun _ => trivial) fun hquote => ?_
  obtain rfl := not_not.mp hquote
  refine (parseStringFrom_yields _ _ text).bind ?_
  rintro keyValue rest ⟨key, hkey, rfl⟩
  refine (getNextToken_yields rest).bind ?_
  rintro colon more ⟨afterKey, hafterKey, rfl⟩
  refine .ite (fun _ => trivial) fun hcolon => ?_
  obtain rfl := not_not.mp hcolon
  refine (h.value (depth + 1) more).bind ?_
  rintro json rest ⟨space, value, hspace, hvalue, rfl⟩
  refine (getNextToken_yields rest).bind ?_
  rintro separator final ⟨afterValue, hafterValue, rfl⟩
  have helement := Element.mk hspace hvalue hafterValue
  refine .ite (fun hclose => ?_) fun _ => .ite (fun _ => trivial) fun hcomma => ?_
  · subst hclose
    intro before hbefore
    have hmembers := Members.last hbefore hkey hafterKey helement
    simp only [List.append_assoc] at hmembers
    exact ⟨_, hmembers, by simp⟩
  · obtain rfl := not_not.mp hcomma
    refine (getNextToken_yields final).bind ?_
    rintro next tail ⟨beforeNext, hbeforeNext, rfl⟩
    refine (h.members depth _ next tail).mono ?_
    rintro object last hread before hbefore
    obtain ⟨members, hrest, htail⟩ := hread beforeNext hbeforeNext
    have hmembers := Members.cons hbefore hkey hafterKey helement hrest
    simp only [List.append_assoc] at hmembers
    exact ⟨_, hmembers, by simp [htail]⟩

theorem items_succ (data : List Json) (text : Bytes) :
    Yields (ReadsItems text) (parseItems (fuel + 1) depth data text) := by
  unfold parseItems
  refine (h.value (depth + 1) text).bind ?_
  rintro json rest ⟨space, value, hspace, hvalue, rfl⟩
  refine (getNextToken_yields rest).bind ?_
  rintro separator final ⟨afterValue, hafterValue, rfl⟩
  have helement {before : Bytes} (hbefore : Space before) :
      Element (before ++ space ++ value ++ afterValue) :=
    .mk (hbefore.append hspace) hvalue hafterValue
  refine .ite (fun hclose => ?_) fun _ => .ite (fun _ => trivial) fun hcomma => ?_
  · subst hclose
    intro before hbefore
    have hitems := Items.last (helement hbefore)
    simp only [List.append_assoc] at hitems
    exact ⟨_, hitems, by simp⟩
  · obtain rfl := not_not.mp hcomma
    refine (getNextToken_yields final).bind ?_
    rintro next tail ⟨beforeNext, hbeforeNext, rfl⟩
    refine (h.items depth _ (next :: tail)).mono ?_
    rintro array last hread before hbefore
    obtain ⟨items, hrest, htail⟩ := hread beforeNext hbeforeNext
    have hitems := Items.cons (helement hbefore) hrest
    simp only [List.append_assoc] at hitems
    exact ⟨_, hitems, by simp [htail]⟩

end ReadsTexts

theorem readsTexts (fuel : Nat) : ReadsTexts fuel := by
  induction fuel with
  | zero => exact ⟨fun _ _ => trivial, fun _ _ _ _ => trivial, fun _ _ _ => trivial⟩
  | succ fuel ih => exact ⟨ih.value_succ, ih.members_succ, ih.items_succ⟩

/-- What `parse` accepts is a JSON text. -/
theorem element_of_parse {text : Bytes} {value : Json} (h : parse text = .ok value) :
    Element text := by
  have hyields := (readsTexts (2 * text.length + 1)).value 0 text
  unfold parse at h
  cases hresult : parseJson (2 * text.length + 1) 0 text with
  | error message =>
      rw [hresult] at h
      cases h
  | ok result =>
      obtain ⟨read, rest⟩ := result
      rw [hresult] at h hyields
      obtain ⟨space, document, hspace, hdocument, rfl⟩ := hyields
      have hafter : consumeWhitespace rest = [] := by
        cases hrest : consumeWhitespace rest with
        | nil => rfl
        | cons ch tail =>
            simp only [Except.bind, bind, hrest] at h
            cases h
      have hspaceRest : Space rest := by
        have hsplit := List.takeWhile_append_dropWhile (p := isWhitespace) (l := rest)
        change _ ++ consumeWhitespace rest = rest at hsplit
        rw [hafter, List.append_nil] at hsplit
        rw [← hsplit]
        exact space_takeWhile rest
      exact .mk hspace hdocument hspaceRest

end Can2Rest.Shared.Json
