import Can2Rest.ConfigJson
import Can2Rest.Shared.Json11Grammar
import Can2Rest.Shared.Json11RoundTrip

/-!
# Settings through JSON

The printed settings name every entry with a string, so loading them overwrites
the whole store; a text that is no JSON text reaches no assignment.
-/

namespace Can2Rest.Properties

open Foundation Shared

/-! ## The printed bytes -/

theorem zero_notMem_chars {text : Bytes} (h : JsonText.Chars text) : 0 ∉ text := by
  have hescapes : (0 : UInt8) ∉ ascii "\"\\/bfnrt" := by decide
  have hhex : ¬ JsonText.IsHexDigit 0 := by
    rintro (h | h | h)
    · exact absurd h (by decide)
    · exact absurd h (by decide)
    · exact absurd h (by decide)
  induction h with
  | nil => exact List.not_mem_nil
  | plain hcontrol hquote hslash hrest ih =>
      rintro (_ | ⟨_, h⟩)
      · exact absurd hcontrol (by decide)
      · exact ih h
  | @escape c rest hc hrest ih =>
      have hne : (0 : UInt8) ≠ c := fun h => hescapes (h ▸ hc)
      simp [hne, ih]
  | @unicode a b c d rest ha hb hc hd hrest ih =>
      have hne {digit : UInt8} (hdigit : JsonText.IsHexDigit digit) : (0 : UInt8) ≠ digit :=
        fun h => hhex (h ▸ hdigit)
      simp [hne ha, hne hb, hne hc, hne hd, ih]

theorem zero_notMem_dumpString (value : Bytes) : 0 ∉ Json.dumpString value := by
  have hchars := zero_notMem_chars (Json.chars_dumpChars value)
  simp [Json.dumpString, hchars]

theorem zero_notMem_dumpMembers {members : List (Bytes × Json)}
    (h : ∀ entry ∈ members, 0 ∉ entry.2.dump) (first : Bool) :
    0 ∉ Json.dumpMembers first members := by
  induction members generalizing first with
  | nil => exact List.not_mem_nil
  | cons entry members ih =>
      have hentry := h entry List.mem_cons_self
      have hrest := ih (fun other hother => h other (List.mem_cons_of_mem _ hother)) false
      have hkey := zero_notMem_dumpString entry.1
      have hcomma : 0 ∉ if first then [] else ascii ", " := by cases first <;> decide
      have hcolon : 0 ∉ ascii ": " := by decide
      simp [Json.dumpMembers, hentry, hrest, hkey, hcomma, hcolon]

theorem zero_notMem_dump_object {members : List (Bytes × Json)}
    (h : ∀ entry ∈ members, 0 ∉ entry.2.dump) : 0 ∉ (Json.object members).dump := by
  have hopen : 0 ∉ ascii "\x7b" := by decide
  have hclose : 0 ∉ ascii "\x7d" := by decide
  simp [Json.dump, zero_notMem_dumpMembers h, hopen, hclose]

/-! ## The settings -/

section SettingsMembers

variable (values : CfgEntry → Bytes)

def OfStrings (members : List (Bytes × Json)) : Prop :=
  ∀ entry ∈ members, ∃ value, entry.2 = .string value

theorem ofStrings_settingsMembers (entries : List CfgEntry) {members : List (Bytes × Json)}
    (h : OfStrings members) : OfStrings (settingsMembers values entries members) := by
  induction entries generalizing members with
  | nil => exact h
  | cons entry entries ih =>
      refine ih ?_
      intro other hother
      rcases Json.mem_of_mem_assign hother with rfl | hother
      · exact ⟨values entry, rfl⟩
      · exact h other hother

theorem sorted_settingsMembers (entries : List CfgEntry) {members : List (Bytes × Json)}
    (h : Json.Sorted members) : Json.Sorted (settingsMembers values entries members) := by
  induction entries generalizing members with
  | nil => exact h
  | cons entry entries ih => exact ih (Json.sorted_assign _ _ h)

theorem find_settingsMembers (entries : List CfgEntry) (members : List (Bytes × Json))
    (entry : CfgEntry) :
    Json.find entry.name (settingsMembers values entries members) =
      if entry ∈ entries then some (.string (values entry)) else Json.find entry.name members := by
  induction entries generalizing members with
  | nil => rfl
  | cons first entries ih =>
      have hstep : settingsMembers values (first :: entries) members =
          settingsMembers values entries
            (Json.assign first.name (.string (values first)) members) := rfl
      rw [hstep, ih, Json.find_assign]
      by_cases hfirst : entry = first
      · simp [hfirst]
      · have hname : entry.name ≠ first.name := CfgEntry.name_injective.ne hfirst
        simp [hfirst, hname]

end SettingsMembers

theorem reparsedMembers_ofStrings {members : List (Bytes × Json)} (h : OfStrings members) :
    Json.reparsedMembers members = members := by
  induction members with
  | nil => rfl
  | cons entry members ih =>
      obtain ⟨key, value⟩ := entry
      obtain ⟨text, rfl⟩ := h _ List.mem_cons_self
      rw [Json.reparsedMembers, ih fun other hother => h other (List.mem_cons_of_mem _ hother)]
      rfl

theorem parse_settings {settings : List (Bytes × Json)} (hstrings : OfStrings settings)
    (hsorted : Json.Sorted settings) :
    Json.parse (cStr (Json.object [(ascii "SETTINGS", .object settings)]).dump) =
      .ok (.object [(ascii "SETTINGS", .object settings)]) := by
  have hregular : Json.Regular 2 (.object [(ascii "SETTINGS", .object settings)]) := by
    refine ⟨List.pairwise_singleton _ _, ?_⟩
    simp only [List.forall_mem_cons]
    refine ⟨⟨hsorted, ?_⟩, nofun⟩
    intro entry hentry
    obtain ⟨value, hvalue⟩ := hstrings entry hentry
    rw [hvalue]
    trivial
  have hnul : 0 ∉ (Json.object settings).dump := by
    refine zero_notMem_dump_object fun entry hentry => ?_
    obtain ⟨value, hvalue⟩ := hstrings entry hentry
    rw [hvalue]
    exact zero_notMem_dumpString value
  have hdump : 0 ∉ (Json.object [(ascii "SETTINGS", .object settings)]).dump := by
    refine zero_notMem_dump_object ?_
    simp only [List.forall_mem_cons]
    exact ⟨hnul, nofun⟩
  rw [cStr_eq_self_iff.mpr hdump, Json.parse_dump hregular (by decide), Json.reparsed,
    Json.reparsedMembers, Json.reparsed, reparsedMembers_ofStrings hstrings]
  rfl

/-! ## Loading -/

section Load

variable {settings : List (Bytes × Json)} {values : CfgEntry → Bytes}
  (h : ∀ entry, Json.find entry.name settings = some (.string (values entry)))

include h

theorem value_loadEntry (config : ConfigState) (entry other : CfgEntry) :
    (config.loadEntry settings entry).value other =
      if other = entry then values entry else config.value other := by
  rw [ConfigState.loadEntry, h]
  exact ConfigState.value_store config entry other (values entry)

theorem value_loadEntries (entries : List CfgEntry) (config : ConfigState) (other : CfgEntry) :
    (entries.foldl (ConfigState.loadEntry settings) config).value other =
      if other ∈ entries then values other else config.value other := by
  induction entries generalizing config with
  | nil => rfl
  | cons entry entries ih =>
      rw [List.foldl_cons, ih, value_loadEntry h]
      by_cases hentry : other = entry
      · simp [hentry]
      · simp [hentry]

end Load

theorem loadFromObject_settings (config : ConfigState) (settings : List (Bytes × Json)) :
    config.loadFromObject [(ascii "SETTINGS", .object settings)] false =
      (true, { CfgEntry.all.foldl (ConfigState.loadEntry settings) config with
        cfgLoadedSuccess := true }) := by
  rw [ConfigState.loadFromObject, Json.find_cons, if_pos rfl]
  rfl

theorem loadFromJson_toJson (config target : ConfigState) :
    target.loadFromJson config.toJson.1 false =
      (true, { CfgEntry.all.foldl
          (ConfigState.loadEntry (settingsMembers config.value CfgEntry.all [])) target with
        cfgLoadedSuccess := true }) := by
  have hstrings : OfStrings (settingsMembers config.value CfgEntry.all []) :=
    ofStrings_settingsMembers _ _ nofun
  have hsorted : Json.Sorted (settingsMembers config.value CfgEntry.all []) :=
    sorted_settingsMembers _ _ .nil
  have hne : config.toJson.1 ≠ [] := List.cons_ne_nil _ _
  rw [ConfigState.loadFromJson, if_neg hne, ConfigState.toJson, ConfigState.foldl_addEntry,
    parse_settings hstrings hsorted]
  exact loadFromObject_settings target _

theorem loadFromJson_of_error {text message : Bytes} (htext : 0 ∉ text)
    (h : Json.parse text = .error message) (config : ConfigState) (loadOnlyUserData : Bool) :
    config.loadFromJson text loadOnlyUserData = (false, config) := by
  rw [ConfigState.loadFromJson, cStr_eq_self_iff.mpr htext, h]
  exact ite_self _

/--
What is printed loads as it was, over any store; a text that is no JSON text, and
one that the parser refuses for another reason, changes nothing.
-/
theorem loadFromJson_correct (config target : ConfigState) :
    ((target.loadFromJson config.toJson.1 false).1 = true ∧ ∀ entry,
      ((target.loadFromJson config.toJson.1 false).2.get entry).1 = config.value entry) ∧
    (∀ text, 0 ∉ text → ¬ JsonText.Element text → ∀ loadOnlyUserData,
      target.loadFromJson text loadOnlyUserData = (false, target)) ∧
    ∀ text message, 0 ∉ text → Json.parse text = .error message → ∀ loadOnlyUserData,
      target.loadFromJson text loadOnlyUserData = (false, target) := by
  refine ⟨?roundTrip, ?invalid, ?reported⟩
  case roundTrip =>
    have hfind (entry : CfgEntry) := find_settingsMembers config.value CfgEntry.all [] entry
    simp only [CfgEntry.mem_all, if_true] at hfind
    rw [loadFromJson_toJson]
    refine ⟨rfl, fun entry => ?_⟩
    rw [ConfigState.get_of_loaded rfl, ConfigState.value_loaded, value_loadEntries hfind,
      if_pos (CfgEntry.mem_all entry)]
  case invalid =>
    intro text htext hinvalid
    cases hparse : Json.parse text with
    | error message => exact loadFromJson_of_error htext hparse target
    | ok value => exact absurd (Json.element_of_parse hparse) hinvalid
  case reported => exact fun text message htext h => loadFromJson_of_error htext h target

theorem value_head {text : Bytes} (h : JsonText.Value text) :
    ∃ c rest, text = c :: rest ∧ (isDigit c = true ∨ c ∈ ascii "-\"[\x7bntf") := by
  cases h with
  | null => exact ⟨_, _, rfl, .inr (by decide)⟩
  | yes => exact ⟨_, _, rfl, .inr (by decide)⟩
  | no => exact ⟨_, _, rfl, .inr (by decide)⟩
  | number h =>
      obtain ⟨hsign, hwhole, -, -⟩ := h
      rcases hsign with rfl | rfl
      · cases hwhole with
        | zero => exact ⟨_, _, rfl, .inl (by decide)⟩
        | digits hc => exact ⟨_, _, rfl, .inl hc⟩
      · exact ⟨_, _, rfl, .inr (by decide)⟩
  | string => exact ⟨_, _, rfl, .inr (by decide)⟩
  | emptyArray => exact ⟨_, _, rfl, .inr (by decide)⟩
  | array => exact ⟨_, _, rfl, .inr (by decide)⟩
  | emptyObject => exact ⟨_, _, rfl, .inr (by decide)⟩
  | object => exact ⟨_, _, rfl, .inr (by decide)⟩

theorem not_element_unquoted : ¬ JsonText.Element (ascii "can0") := by
  have hhead : ¬ (isDigit 99 = true ∨ 99 ∈ ascii "-\"[\x7bntf") := by decide
  have hspace : ¬ ((99 : UInt8) = 32 ∨ (99 : UInt8) = 9 ∨ (99 : UInt8) = 10 ∨
      (99 : UInt8) = 13) := by
    decide
  intro h
  generalize htext : ascii "can0" = text at h
  obtain ⟨hbefore, hvalue, -⟩ := h
  rename_i before value after
  obtain ⟨c, rest, rfl, hc⟩ := value_head hvalue
  cases before with
  | nil =>
      obtain rfl : 99 = c := (List.cons.inj htext).1
      exact hhead hc
  | cons first before =>
      obtain rfl : 99 = first := (List.cons.inj htext).1
      exact hspace (hbefore 99 List.mem_cons_self)

theorem loadFromJson_correct_partial :
    let config : ConfigState :=
      ⟨false, fun entry => if entry = .redisHost then some (ascii "a\"b") else none⟩
    let target : ConfigState := ⟨true, fun _ => some (ascii "old")⟩
    (target.loadFromJson config.toJson.1 false).1 = true ∧
      ((target.loadFromJson config.toJson.1 false).2.get .redisHost).1 = ascii "a\"b" ∧
      ((target.loadFromJson config.toJson.1 false).2.get .redisPort).1 = [] ∧
      target.loadFromJson (ascii "can0") false = (false, target) ∧
      target.loadFromJson (ascii "can0") true = (false, target) := by
  intro config target
  obtain ⟨⟨hreturned, hloaded⟩, hinvalid, hreported⟩ := loadFromJson_correct config target
  exact ⟨hreturned, hloaded .redisHost, hloaded .redisPort,
    hinvalid _ (by decide) not_element_unquoted false,
    hreported _ (ascii "expected value, got 'c' (99)") (by decide) rfl true⟩

end Can2Rest.Properties
