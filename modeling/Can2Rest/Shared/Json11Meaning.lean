import Mathlib.Data.List.Induction
import Can2Rest.Shared.Json11Scalars

/-!
# What a JSON text means

The meaning of a JSON text, derivation by derivation, with the number of levels
that are nested in it.  The parser computes it: it reads the meaning of every text
of at most `maxDepth` levels, and it gives one and the same error for a deeper one.
-/

namespace Can2Rest.Shared.Json

open Can2Rest.Foundation JsonText

/-! ## Values -/

/-- The members of an object; of members with one key the last one counts. -/
def objectOf (entries : List (Bytes × Json)) : List (Bytes × Json) :=
  entries.foldl (fun data entry => assign entry.1 entry.2 data) []

theorem objectOf_append (entries : List (Bytes × Json)) (entry : Bytes × Json) :
    objectOf (entries ++ [entry]) = assign entry.1 entry.2 (objectOf entries) :=
  List.foldl_append

theorem sorted_objectOf (entries : List (Bytes × Json)) : Sorted (objectOf entries) := by
  induction entries using List.reverseRecOn with
  | nil => exact .nil
  | append_singleton entries entry ih =>
      rw [objectOf_append]
      exact sorted_assign _ _ ih

theorem find_objectOf (key : Bytes) (entries : List (Bytes × Json)) :
    find key (objectOf entries) = entries.reverse.lookup key := by
  induction entries using List.reverseRecOn with
  | nil => rfl
  | append_singleton entries entry ih =>
      rw [objectOf_append, find_assign, ih, List.reverse_append, List.reverse_singleton,
        List.singleton_append]
      exact (find_cons key entry.1 entry.2 entries.reverse).symm

mutual

/-- A value of so many nested levels; an empty array or object counts as none. -/
inductive ValueMeans : Nat → Bytes → Json → Prop
  | null : ValueMeans 0 (ascii "null") .nul
  | yes : ValueMeans 0 (ascii "true") (.bool true)
  | no : ValueMeans 0 (ascii "false") (.bool false)
  | number {text : Bytes} {value : Json} (h : NumberMeans text value) : ValueMeans 0 text value
  | string {text value : Bytes} (h : Decodes text value) :
      ValueMeans 0 (34 :: text ++ [34]) (.string value)
  | emptyArray {text : Bytes} (h : Space text) : ValueMeans 0 (91 :: text ++ [93]) (.array [])
  | array {levels : Nat} {text : Bytes} {values : List Json} (h : ItemsMean levels text values) :
      ValueMeans (levels + 1) (91 :: text ++ [93]) (.array values)
  | emptyObject {text : Bytes} (h : Space text) :
      ValueMeans 0 (123 :: text ++ [125]) (.object [])
  | object {levels : Nat} {text : Bytes} {entries : List (Bytes × Json)}
      (h : MembersMean levels text entries) :
      ValueMeans (levels + 1) (123 :: text ++ [125]) (.object (objectOf entries))

inductive ElementMeans : Nat → Bytes → Json → Prop
  | mk {levels : Nat} {before text after : Bytes} {value : Json} (hbefore : Space before)
      (h : ValueMeans levels text value) (hafter : Space after) :
      ElementMeans levels (before ++ text ++ after) value

inductive ItemsMean : Nat → Bytes → List Json → Prop
  | last {levels : Nat} {text : Bytes} {value : Json} (h : ElementMeans levels text value) :
      ItemsMean levels text [value]
  | cons {levels restLevels : Nat} {text rest : Bytes} {value : Json} {values : List Json}
      (h : ElementMeans levels text value) (hrest : ItemsMean restLevels rest values) :
      ItemsMean (max levels restLevels) (text ++ 44 :: rest) (value :: values)

inductive MembersMean : Nat → Bytes → List (Bytes × Json) → Prop
  | last {levels : Nat} {before chars key after text : Bytes} {value : Json}
      (hbefore : Space before) (hkey : Decodes chars key) (hafter : Space after)
      (h : ElementMeans levels text value) :
      MembersMean levels (before ++ 34 :: chars ++ 34 :: after ++ 58 :: text) [(key, value)]
  | cons {levels restLevels : Nat} {before chars key after text rest : Bytes} {value : Json}
      {entries : List (Bytes × Json)} (hbefore : Space before) (hkey : Decodes chars key)
      (hafter : Space after) (h : ElementMeans levels text value)
      (hrest : MembersMean restLevels rest entries) :
      MembersMean (max levels restLevels)
        (before ++ 34 :: chars ++ 34 :: after ++ 58 :: text ++ 44 :: rest)
        ((key, value) :: entries)

end

mutual

theorem exists_valueMeans {text : Bytes} : Value text → ∃ levels value, ValueMeans levels text value
  | .null => ⟨_, _, .null⟩
  | .yes => ⟨_, _, .yes⟩
  | .no => ⟨_, _, .no⟩
  | .number h => let ⟨_, hvalue⟩ := exists_numberMeans h; ⟨_, _, .number hvalue⟩
  | .string h => let ⟨_, hvalue⟩ := exists_decodes h; ⟨_, _, .string hvalue⟩
  | .emptyArray h => ⟨_, _, .emptyArray h⟩
  | .array h => let ⟨_, _, hitems⟩ := exists_itemsMean h; ⟨_, _, .array hitems⟩
  | .emptyObject h => ⟨_, _, .emptyObject h⟩
  | .object h => let ⟨_, _, hmembers⟩ := exists_membersMean h; ⟨_, _, .object hmembers⟩

theorem exists_elementMeans {text : Bytes} :
    Element text → ∃ levels value, ElementMeans levels text value
  | .mk hbefore h hafter =>
      let ⟨_, _, hvalue⟩ := exists_valueMeans h
      ⟨_, _, .mk hbefore hvalue hafter⟩

theorem exists_itemsMean {text : Bytes} :
    Items text → ∃ levels values, ItemsMean levels text values
  | .last h => let ⟨_, _, hvalue⟩ := exists_elementMeans h; ⟨_, _, .last hvalue⟩
  | .cons h hrest =>
      let ⟨_, _, hvalue⟩ := exists_elementMeans h
      let ⟨_, _, hvalues⟩ := exists_itemsMean hrest
      ⟨_, _, .cons hvalue hvalues⟩

theorem exists_membersMean {text : Bytes} :
    Members text → ∃ levels entries, MembersMean levels text entries
  | .last hbefore hkey hafter h =>
      let ⟨_, hchars⟩ := exists_decodes hkey
      let ⟨_, _, hvalue⟩ := exists_elementMeans h
      ⟨_, _, .last hbefore hchars hafter hvalue⟩
  | .cons hbefore hkey hafter h hrest =>
      let ⟨_, hchars⟩ := exists_decodes hkey
      let ⟨_, _, hvalue⟩ := exists_elementMeans h
      let ⟨_, _, hentries⟩ := exists_membersMean hrest
      ⟨_, _, .cons hbefore hchars hafter hvalue hentries⟩

end

mutual

theorem ValueMeans.value {levels : Nat} {text : Bytes} {value : Json} :
    ValueMeans levels text value → Value text
  | .null => .null
  | .yes => .yes
  | .no => .no
  | .number h => .number h.number
  | .string h => .string h.chars
  | .emptyArray h => .emptyArray h
  | .array h => .array h.items
  | .emptyObject h => .emptyObject h
  | .object h => .object h.members

theorem ElementMeans.element {levels : Nat} {text : Bytes} {value : Json} :
    ElementMeans levels text value → Element text
  | .mk hbefore h hafter => .mk hbefore h.value hafter

theorem ItemsMean.items {levels : Nat} {text : Bytes} {values : List Json} :
    ItemsMean levels text values → Items text
  | .last h => .last h.element
  | .cons h hrest => .cons h.element hrest.items

theorem MembersMean.members {levels : Nat} {text : Bytes} {entries : List (Bytes × Json)} :
    MembersMean levels text entries → Members text
  | .last hbefore hkey hafter h => .last hbefore hkey.chars hafter h.element
  | .cons hbefore hkey hafter h hrest =>
      .cons hbefore hkey.chars hafter h.element hrest.members

end

/-! ## The parser computes the meaning -/

def tooDeep : Bytes := ascii "exceeded maximum nesting depth"

/-- The result of reading a value whose last level is `deepest`. -/
def bounded {α : Type} (deepest : Nat) (result : α) : Except Bytes α :=
  if deepest ≤ maxDepth then .ok result else .error tooDeep

theorem consumeWhitespace_append {before : Bytes} (h : Space before) (text : Bytes) :
    consumeWhitespace (before ++ text) = consumeWhitespace text := by
  refine List.dropWhile_append_of_pos fun c hc => ?_
  rcases h c hc with rfl | rfl | rfl | rfl <;> rfl

theorem getNextToken_append {before : Bytes} (h : Space before) (text : Bytes) :
    getNextToken (before ++ text) = getNextToken text := by
  rw [getNextToken, consumeWhitespace_append h, getNextToken]

theorem getNextToken_token {before rest : Bytes} {c : UInt8} (h : Space before)
    (hc : isWhitespace c = false) : getNextToken (before ++ c :: rest) = .ok (c, rest) := by
  rw [getNextToken_append h, getNextToken_cons hc]

theorem parseJson_congr {first second : Bytes} (h : getNextToken first = getNextToken second)
    (fuel depth : Nat) : parseJson fuel depth first = parseJson fuel depth second := by
  cases fuel with
  | zero => rfl
  | succ fuel => rw [parseJson, parseJson, h]

theorem parseItems_congr {first second : Bytes} (h : getNextToken first = getNextToken second)
    (fuel depth : Nat) (data : List Json) :
    parseItems fuel depth data first = parseItems fuel depth data second := by
  cases fuel with
  | zero => rfl
  | succ fuel => rw [parseItems, parseItems, parseJson_congr h]

theorem parseJson_tooDeep {depth : Nat} (h : maxDepth < depth) (fuel : Nat) (text : Bytes) :
    parseJson (fuel + 1) depth text = .error tooDeep := by
  rw [parseJson, if_pos h]
  rfl

theorem endsNumeral_append {after rest : Bytes} (hafter : Space after) (hrest : EndsNumeral rest) :
    EndsNumeral (after ++ rest) := by
  cases after with
  | nil => exact hrest
  | cons c after =>
      rintro d hd
      obtain rfl := Option.some.inj hd
      rcases hafter c List.mem_cons_self with rfl | rfl | rfl | rfl <;> decide

theorem endsNumeral_cons {c : UInt8} (hc : c = 44 ∨ c = 93 ∨ c = 125) (rest : Bytes) :
    EndsNumeral (c :: rest) := by
  rintro d hd
  obtain rfl := Option.some.inj hd
  rcases hc with rfl | rfl | rfl <;> decide

theorem numberMeans_head {text : Bytes} {value : Json} (h : NumberMeans text value) :
    ∃ c rest, text = c :: rest ∧ (c = 45 ∨ isDigit c = true) := by
  have hsigned {negative : Bool} {whole : Bytes} (h : Whole whole) :
      ∃ c rest, signed negative whole = c :: rest ∧ (c = 45 ∨ isDigit c = true) := by
    cases negative with
    | true => exact ⟨_, _, rfl, .inl rfl⟩
    | false =>
        cases h with
        | zero => exact ⟨_, _, rfl, .inr rfl⟩
        | digits hc _ _ => exact ⟨_, _, rfl, .inr hc⟩
  cases h with
  | int hwhole _ => exact hsigned hwhole
  | double hwhole _ _ _ =>
      obtain ⟨c, rest, hcons, hc⟩ := hsigned hwhole
      rw [hcons]
      exact ⟨c, _, rfl, hc⟩

theorem beginsValue_of_numeral {c : UInt8} (h : c = 45 ∨ isDigit c = true) : BeginsValue c := by
  rcases h with rfl | h
  · decide
  · exact beginsValue_of_isDigit h

theorem ValueMeans.head {levels : Nat} {text : Bytes} {value : Json}
    (h : ValueMeans levels text value) : ∃ c rest, text = c :: rest ∧ BeginsValue c := by
  cases h with
  | number h =>
      obtain ⟨c, rest, hcons, hc⟩ := numberMeans_head h
      exact ⟨c, rest, hcons, beginsValue_of_numeral hc⟩
  | _ => exact ⟨_, _, rfl, by decide⟩

theorem ItemsMean.head {levels : Nat} {text : Bytes} {values : List Json}
    (h : ItemsMean levels text values) (rest : Bytes) :
    ∃ c after, getNextToken (text ++ rest) = .ok (c, after) ∧ BeginsValue c := by
  have helement {levels : Nat} {text : Bytes} {value : Json} (h : ElementMeans levels text value)
      (rest : Bytes) : ∃ c after, getNextToken (text ++ rest) = .ok (c, after) ∧ BeginsValue c := by
    cases h with
    | @mk _ before _ after _ hbefore h _ =>
        obtain ⟨c, tail, rfl, hc⟩ := h.head
        refine ⟨c, tail ++ (after ++ rest), ?_, hc⟩
        rw [List.append_assoc, List.append_assoc]
        exact getNextToken_token hbefore hc.space
  cases h with
  | last h => exact helement h rest
  | cons h _ =>
      rw [List.append_assoc]
      exact helement h _

section Bounded

variable {α β : Type} {deepest : Nat} {result : α}

theorem bounded_of_le (h : deepest ≤ maxDepth) : bounded deepest result = .ok result := if_pos h

theorem bounded_of_lt (h : maxDepth < deepest) : bounded deepest result = .error tooDeep :=
  if_neg (Nat.not_le.mpr h)

theorem bounded_bind (last : Nat) (final : β) {next : α → Except Bytes β}
    (h : deepest ≤ maxDepth → next result = bounded last final) :
    (bounded deepest result >>= next) = bounded (max deepest last) final := by
  by_cases hdeep : deepest ≤ maxDepth
  · rw [bounded_of_le hdeep]
    change next result = _
    simp only [h hdeep, bounded, max_le_iff, hdeep, true_and]
  · rw [bounded_of_lt (Nat.not_le.mp hdeep), bounded_of_lt (by omega)]
    rfl

end Bounded

def ValueParses (levels : Nat) (text : Bytes) (value : Json) : Prop :=
  ∀ (fuel depth : Nat) (rest : Bytes), EndsNumeral rest → 2 * (text ++ rest).length < fuel →
    parseJson fuel depth (text ++ rest) = bounded (depth + levels) (value, rest)

def ElementParses (levels : Nat) (text : Bytes) (value : Json) : Prop :=
  ∃ after, Space after ∧ ∀ (fuel depth : Nat) (rest : Bytes), EndsNumeral rest →
    2 * (text ++ rest).length < fuel →
      parseJson fuel depth (text ++ rest) = bounded (depth + levels) (value, after ++ rest)

def ItemsParse (levels : Nat) (text : Bytes) (values : List Json) : Prop :=
  ∀ (fuel depth : Nat) (data : List Json) (rest : Bytes),
    2 * (text ++ 93 :: rest).length + 1 < fuel →
      parseItems fuel depth data (text ++ 93 :: rest) =
        bounded (depth + 1 + levels) (.array (data ++ values), rest)

def MembersParse (levels : Nat) (text : Bytes) (entries : List (Bytes × Json)) : Prop :=
  ∀ rest, ∃ after, getNextToken (text ++ 125 :: rest) = .ok (34, after) ∧
    ∀ (fuel depth : Nat) (data : List (Bytes × Json)),
      2 * (text ++ 125 :: rest).length < fuel →
        parseMembers fuel depth data 34 after =
          bounded (depth + 1 + levels)
            (.object (entries.foldl (fun data entry => assign entry.1 entry.2 data) data), rest)

/-- A value may be checked for a depth that is allowed and with fuel for its first call. -/
theorem valueParses_of {levels : Nat} {text : Bytes} {value : Json}
    (h : ∀ (fuel depth : Nat) (rest : Bytes), EndsNumeral rest →
      2 * (text ++ rest).length < fuel + 1 → depth ≤ maxDepth →
        parseJson (fuel + 1) depth (text ++ rest) = bounded (depth + levels) (value, rest)) :
    ValueParses levels text value := by
  intro fuel depth rest hrest hfuel
  obtain ⟨fuel, rfl⟩ := Nat.exists_eq_succ_of_ne_zero (Nat.ne_zero_of_lt hfuel)
  by_cases hdepth : depth ≤ maxDepth
  · exact h fuel depth rest hrest hfuel hdepth
  · have hdeep := Nat.not_le.mp hdepth
    rw [parseJson_tooDeep hdeep, bounded_of_lt (by omega)]

theorem literal_parses {literal : Bytes} {value : Json}
    (h : ∀ (fuel depth : Nat) (rest : Bytes), depth ≤ maxDepth →
      parseJson (fuel + 1) depth (literal ++ rest) = .ok (value, rest)) :
    ValueParses 0 literal value :=
  valueParses_of fun fuel depth rest _ _ hdepth => by
    rw [h fuel depth rest hdepth, Nat.add_zero, bounded_of_le hdepth]

theorem null_parses : ValueParses 0 (ascii "null") .nul := by
  refine literal_parses fun fuel depth rest hdepth => ?_
  rw [parseJson, if_neg (Nat.not_lt.mpr hdepth)]
  rfl

theorem true_parses : ValueParses 0 (ascii "true") (.bool true) := by
  refine literal_parses fun fuel depth rest hdepth => ?_
  rw [parseJson, if_neg (Nat.not_lt.mpr hdepth)]
  rfl

theorem false_parses : ValueParses 0 (ascii "false") (.bool false) := by
  refine literal_parses fun fuel depth rest hdepth => ?_
  rw [parseJson, if_neg (Nat.not_lt.mpr hdepth)]
  rfl

theorem number_parses {text : Bytes} {value : Json} (h : NumberMeans text value) :
    ValueParses 0 text value := by
  obtain ⟨c, tail, rfl, hc⟩ := numberMeans_head h
  refine valueParses_of fun fuel depth rest hrest _ hdepth => ?_
  have hnumber := parseNumber_of_means h hrest
  rw [List.cons_append] at hnumber ⊢
  rw [parseJson, if_neg (Nat.not_lt.mpr hdepth),
    getNextToken_cons (beginsValue_of_numeral hc).space, Nat.add_zero, bounded_of_le hdepth]
  simp only [bind, Except.bind, if_pos hc, hnumber]

theorem string_parses {text value : Bytes} (h : Decodes text value) :
    ValueParses 0 (34 :: text ++ [34]) (.string value) := by
  refine literal_parses fun fuel depth rest hdepth => ?_
  have htext : 34 :: text ++ [34] ++ rest = 34 :: (text ++ 34 :: rest) := by simp
  rw [htext, parseJson, if_neg (Nat.not_lt.mpr hdepth), getNextToken_cons rfl]
  simp only [bind, Except.bind, parseString_of_decodes h]
  rfl

theorem emptyArray_parses {text : Bytes} (h : Space text) :
    ValueParses 0 (91 :: text ++ [93]) (.array []) := by
  refine literal_parses fun fuel depth rest hdepth => ?_
  have htext : 91 :: text ++ [93] ++ rest = 91 :: (text ++ 93 :: rest) := by simp
  rw [htext, parseJson, if_neg (Nat.not_lt.mpr hdepth), getNextToken_cons rfl]
  simp only [bind, Except.bind, getNextToken_token h (c := 93) rfl]
  rfl

theorem emptyObject_parses {text : Bytes} (h : Space text) :
    ValueParses 0 (123 :: text ++ [125]) (.object []) := by
  refine literal_parses fun fuel depth rest hdepth => ?_
  have htext : 123 :: text ++ [125] ++ rest = 123 :: (text ++ 125 :: rest) := by simp
  rw [htext, parseJson, if_neg (Nat.not_lt.mpr hdepth), getNextToken_cons rfl]
  simp only [bind, Except.bind, getNextToken_token h (c := 125) rfl]
  rfl

theorem array_parses {levels : Nat} {text : Bytes} {values : List Json}
    (hmeans : ItemsMean levels text values) (h : ItemsParse levels text values) :
    ValueParses (levels + 1) (91 :: text ++ [93]) (.array values) := by
  refine valueParses_of fun fuel depth rest _ hfuel hdepth => ?_
  have htext : 91 :: text ++ [93] ++ rest = 91 :: (text ++ 93 :: rest) := by simp
  obtain ⟨c, after, htoken, hc⟩ := hmeans.head (93 :: rest)
  have hagain : getNextToken (c :: after) = getNextToken (text ++ 93 :: rest) := by
    rw [getNextToken_cons hc.space, htoken]
  rw [htext] at hfuel ⊢
  rw [List.length_cons] at hfuel
  rw [parseJson_array hdepth hc.bracket htoken, parseItems_congr hagain,
    h fuel depth [] rest (by omega), List.nil_append, Nat.add_assoc, Nat.add_comm 1 levels]

theorem object_parses {levels : Nat} {text : Bytes} {entries : List (Bytes × Json)}
    (h : MembersParse levels text entries) :
    ValueParses (levels + 1) (123 :: text ++ [125]) (.object (objectOf entries)) := by
  refine valueParses_of fun fuel depth rest _ hfuel hdepth => ?_
  have htext : 123 :: text ++ [125] ++ rest = 123 :: (text ++ 125 :: rest) := by simp
  obtain ⟨after, htoken, hmembers⟩ := h rest
  rw [htext] at hfuel ⊢
  rw [List.length_cons] at hfuel
  rw [parseJson, if_neg (Nat.not_lt.mpr hdepth), getNextToken_cons rfl]
  simp only [bind, Except.bind, htoken]
  rw [if_neg (by decide), if_neg (by decide), if_neg (by decide), if_neg (by decide),
    if_neg (by decide), if_pos trivial, if_neg (by decide), hmembers fuel depth [] (by omega),
    Nat.add_assoc, Nat.add_comm 1 levels]
  rfl

theorem element_parses {levels : Nat} {before text after : Bytes} {value : Json}
    (hbefore : Space before) (h : ValueParses levels text value) (hafter : Space after) :
    ElementParses levels (before ++ text ++ after) value := by
  refine ⟨after, hafter, fun fuel depth rest hrest hfuel => ?_⟩
  have htext : before ++ text ++ after ++ rest = before ++ (text ++ (after ++ rest)) := by simp
  rw [htext] at hfuel ⊢
  rw [List.length_append] at hfuel
  rw [parseJson_congr (getNextToken_append hbefore _)]
  exact h fuel depth (after ++ rest) (endsNumeral_append hafter hrest) (by omega)

theorem items_parse_last {levels : Nat} {text : Bytes} {value : Json}
    (h : ElementParses levels text value) : ItemsParse levels text [value] := by
  intro fuel depth data rest hfuel
  obtain ⟨fuel, rfl⟩ := Nat.exists_eq_succ_of_ne_zero (Nat.ne_zero_of_lt hfuel)
  obtain ⟨after, hafter, h⟩ := h
  rw [parseItems, h fuel (depth + 1) (93 :: rest) (endsNumeral_cons (by decide) rest) (by omega),
    bounded_bind 0 (.array (data ++ [value]), rest), Nat.max_zero]
  rintro -
  simp only [bind, Except.bind, getNextToken_token hafter (c := 93) rfl]
  rfl

theorem items_parse_cons {levels restLevels : Nat} {text more : Bytes} {value : Json}
    {values : List Json} (h : ElementParses levels text value)
    (hmeans : ItemsMean restLevels more values) (hmore : ItemsParse restLevels more values) :
    ItemsParse (max levels restLevels) (text ++ 44 :: more) (value :: values) := by
  intro fuel depth data rest hfuel
  obtain ⟨fuel, rfl⟩ := Nat.exists_eq_succ_of_ne_zero (Nat.ne_zero_of_lt hfuel)
  obtain ⟨after, hafter, h⟩ := h
  obtain ⟨c, tail, htoken, hc⟩ := hmeans.head (93 :: rest)
  have hagain : getNextToken (c :: tail) = getNextToken (more ++ 93 :: rest) := by
    rw [getNextToken_cons hc.space, htoken]
  rw [List.append_assoc, List.cons_append] at hfuel ⊢
  have hlength : (text ++ 44 :: (more ++ 93 :: rest)).length =
      text.length + ((more ++ 93 :: rest).length + 1) := List.length_append
  rw [parseItems, h fuel (depth + 1) _ (endsNumeral_cons (by decide) _) (by omega),
    bounded_bind (depth + 1 + restLevels) (.array (data ++ value :: values), rest),
    Nat.add_max_add_left]
  rintro -
  simp only [bind, Except.bind, getNextToken_token hafter (c := 44) rfl, htoken]
  rw [if_neg (by decide), if_neg (by decide)]
  rw [parseItems_congr hagain, hmore fuel depth _ rest (by omega), List.append_assoc]
  rfl

theorem parseMembers_member {chars key after text rest : Bytes} {levels : Nat} {value : Json}
    (hkey : Decodes chars key) (hafter : Space after) (h : ElementParses levels text value)
    (hrest : EndsNumeral rest) :
    ∃ space, Space space ∧ ∀ (fuel depth : Nat) (data : List (Bytes × Json)),
      2 * (text ++ rest).length < fuel →
        parseMembers (fuel + 1) depth data 34 (chars ++ 34 :: (after ++ 58 :: (text ++ rest))) =
          (bounded (depth + 1 + levels) (value, space ++ rest) >>= fun read => do
            let data := assign key read.1 data
            let (ch, rest) ← getNextToken read.2
            if ch = 125 then return (.object data, rest)
            if ch ≠ 44 then throw (ascii "expected ',' in object, got " ++ esc ch)
            let (ch, rest) ← getNextToken rest
            parseMembers fuel depth data ch rest) := by
  obtain ⟨space, hspace, h⟩ := h
  refine ⟨space, hspace, fun fuel depth data hfuel => ?_⟩
  rw [parseMembers, parseString_of_decodes hkey, ← h fuel (depth + 1) rest hrest hfuel]
  simp only [bind, Except.bind, getNextToken_token hafter (c := 58) rfl]
  rfl

section Members

variable {before chars key after text : Bytes} {levels : Nat} {value : Json}
  (hbefore : Space before) (hkey : Decodes chars key) (hafter : Space after)
  (h : ElementParses levels text value)

include hbefore hkey hafter h

theorem members_parse_last :
    MembersParse levels (before ++ 34 :: chars ++ 34 :: after ++ 58 :: text) [(key, value)] := by
  intro rest
  have htext : before ++ 34 :: chars ++ 34 :: after ++ 58 :: text ++ 125 :: rest =
      before ++ 34 :: (chars ++ 34 :: (after ++ 58 :: (text ++ 125 :: rest))) := by simp
  obtain ⟨space, hspace, hmember⟩ :=
    parseMembers_member hkey hafter h (endsNumeral_cons (c := 125) (by decide) rest)
  rw [htext]
  refine ⟨_, getNextToken_token hbefore rfl, fun fuel depth data hfuel => ?_⟩
  obtain ⟨fuel, rfl⟩ := Nat.exists_eq_succ_of_ne_zero (Nat.ne_zero_of_lt hfuel)
  simp only [List.length_append, List.length_cons] at hfuel
  rw [hmember fuel depth data (by simp only [List.length_append, List.length_cons]; omega),
    bounded_bind 0 (.object (assign key value data), rest), Nat.max_zero]
  · rfl
  · rintro -
    simp only [bind, Except.bind, getNextToken_token hspace (c := 125) rfl]
    rfl

theorem members_parse_cons {restLevels : Nat} {more : Bytes} {entries : List (Bytes × Json)}
    (hmore : MembersParse restLevels more entries) :
    MembersParse (max levels restLevels)
      (before ++ 34 :: chars ++ 34 :: after ++ 58 :: text ++ 44 :: more)
      ((key, value) :: entries) := by
  intro rest
  have htext : before ++ 34 :: chars ++ 34 :: after ++ 58 :: text ++ 44 :: more ++ 125 :: rest =
      before ++ 34 :: (chars ++ 34 :: (after ++ 58 :: (text ++ 44 :: (more ++ 125 :: rest)))) := by
    simp
  obtain ⟨tail, htoken, hmembers⟩ := hmore rest
  obtain ⟨space, hspace, hmember⟩ := parseMembers_member hkey hafter h
    (endsNumeral_cons (c := 44) (by decide) (more ++ 125 :: rest))
  rw [htext]
  refine ⟨_, getNextToken_token hbefore rfl, fun fuel depth data hfuel => ?_⟩
  obtain ⟨fuel, rfl⟩ := Nat.exists_eq_succ_of_ne_zero (Nat.ne_zero_of_lt hfuel)
  simp only [List.length_append, List.length_cons] at hfuel
  rw [hmember fuel depth data (by simp only [List.length_append, List.length_cons]; omega),
    bounded_bind (depth + 1 + restLevels) (.object (entries.foldl
      (fun data entry => assign entry.1 entry.2 data) (assign key value data)), rest),
    Nat.add_max_add_left]
  · rfl
  · rintro -
    simp only [bind, Except.bind, getNextToken_token hspace (c := 44) rfl, htoken]
    exact hmembers fuel depth (assign key value data)
      (by simp only [List.length_append, List.length_cons]; omega)

end Members

mutual

theorem ValueMeans.parses {levels : Nat} {text : Bytes} {value : Json} :
    ValueMeans levels text value → ValueParses levels text value
  | .null => null_parses
  | .yes => true_parses
  | .no => false_parses
  | .number h => number_parses h
  | .string h => string_parses h
  | .emptyArray h => emptyArray_parses h
  | .array h => array_parses h h.parses
  | .emptyObject h => emptyObject_parses h
  | .object h => object_parses h.parses

theorem ElementMeans.parses {levels : Nat} {text : Bytes} {value : Json} :
    ElementMeans levels text value → ElementParses levels text value
  | .mk hbefore h hafter => element_parses hbefore h.parses hafter

theorem ItemsMean.parses {levels : Nat} {text : Bytes} {values : List Json} :
    ItemsMean levels text values → ItemsParse levels text values
  | .last h => items_parse_last h.parses
  | .cons h hrest => items_parse_cons h.parses hrest hrest.parses

theorem MembersMean.parses {levels : Nat} {text : Bytes} {entries : List (Bytes × Json)} :
    MembersMean levels text entries → MembersParse levels text entries
  | .last hbefore hkey hafter h => members_parse_last hbefore hkey hafter h.parses
  | .cons hbefore hkey hafter h hrest =>
      members_parse_cons hbefore hkey hafter h.parses hrest.parses

end

/-- A text with a meaning is read as it, or refused for its depth. -/
theorem ElementMeans.parse_eq {levels : Nat} {text : Bytes} {value : Json}
    (h : ElementMeans levels text value) : parse text = bounded levels value := by
  obtain ⟨after, hafter, hparses⟩ := h.parses
  have hjson := hparses (2 * text.length + 1) 0 [] nofun (by rw [List.append_nil]; omega)
  have hspace := consumeWhitespace_append hafter []
  rw [List.append_nil] at hjson hspace
  rw [Nat.zero_add] at hjson
  rw [parse, hjson, bounded_bind 0 value, Nat.max_zero]
  rintro -
  simp only [List.append_nil, hspace]
  rfl

/--
A JSON text has a meaning, the parser reads exactly the meanings of bounded depth,
and it refuses a deeper text for its depth and for nothing else.
-/
theorem parse_meaning (text : Bytes) :
    (Element text ↔ ∃ levels value, ElementMeans levels text value) ∧
    (∀ value, parse text = .ok value ↔ ∃ levels ≤ maxDepth, ElementMeans levels text value) ∧
    ∀ levels value, ElementMeans levels text value → maxDepth < levels →
      parse text = .error tooDeep := by
  refine ⟨⟨exists_elementMeans, ?_⟩, fun value => ⟨fun hparse => ?_, ?_⟩, ?_⟩
  · rintro ⟨levels, value, h⟩
    exact h.element
  · obtain ⟨levels, meaning, h⟩ := exists_elementMeans (element_of_parse hparse)
    rw [h.parse_eq] at hparse
    by_cases hdeep : levels ≤ maxDepth
    · rw [bounded_of_le hdeep] at hparse
      cases hparse
      exact ⟨levels, hdeep, h⟩
    · rw [bounded_of_lt (Nat.not_le.mp hdeep)] at hparse
      cases hparse
  · rintro ⟨levels, hdeep, h⟩
    rw [h.parse_eq, bounded_of_le hdeep]
  · intro levels value h hdeep
    rw [h.parse_eq, bounded_of_lt hdeep]

end Can2Rest.Shared.Json
