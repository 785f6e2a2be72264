import Can2Rest.Main

/-!
# Which frames the configuration lets through

The filter is assembled from the raw value map of the configuration file.  The
entries themselves are read correctly; the default for all other frames is taken
from the wrong setting.
-/

namespace Can2Rest.Properties

open Foundation Shared Main

/-! ## Well-formed entries -/

def FilterKey (name : Bytes) (n : Nat) : Prop :=
  ∃ iniSection digits, name = iniSection ++ ascii "=can_filter_" ++ digits ∧
    digits ≠ [] ∧ (∀ c ∈ digits, isDigit c) ∧ ofDigits digits = n

/-- The configuration has the entry `CAN_FILTER_<n>` with this value. -/
def FilterEntry (values : StringMap) (n : Nat) (value : Bytes) : Prop :=
  ∃ name, FilterKey name n ∧ values[name]? = some value

structure WellFormed (values : StringMap) : Prop where
  entry : ∀ name value, values[name]? = some value →
    ascii "=can_filter_" <:+: name →
      ∃ n ≤ 65535, FilterKey name n ∧ (value = ascii "0" ∨ value = ascii "1")
  once : ∀ name name' n, name ∈ values → name' ∈ values →
    FilterKey name n → FilterKey name' n → name = name'

private theorem underscore_not_mem {digits : Bytes} (h : ∀ c ∈ digits, isDigit c) :
    95 ∉ digits :=
  fun hmem => absurd (h 95 hmem) (by decide)

private theorem lastToken_filterKey {iniSection digits : Bytes}
    (h : ∀ c ∈ digits, isDigit c) :
    lastToken (iniSection ++ ascii "=can_filter_" ++ digits) = digits := by
  have hname : iniSection ++ ascii "=can_filter_" ++ digits =
      (iniSection ++ ascii "=can_filter") ++ 95 :: digits := by
    simp [ascii]
  rw [hname, lastToken_append (underscore_not_mem h)]

private theorem lastToken_conversionKey {iniSection digits : Bytes}
    (h : ∀ c ∈ digits, isDigit c) :
    lastToken (iniSection ++ ascii "=can_conversion_" ++ digits) = digits := by
  have hname : iniSection ++ ascii "=can_conversion_" ++ digits =
      (iniSection ++ ascii "=can_conversion") ++ 95 :: digits := by
    simp [ascii]
  rw [hname, lastToken_append (underscore_not_mem h)]

theorem FilterKey.token {name : Bytes} {n : Nat} (h : FilterKey name n) :
    lastToken name ≠ [] ∧ (∀ c ∈ lastToken name, isDigit c) ∧
      ofDigits (lastToken name) = n := by
  obtain ⟨iniSection, digits, rfl, hne, hdigits, hvalue⟩ := h
  rw [lastToken_filterKey hdigits]
  exact ⟨hne, hdigits, hvalue⟩

theorem FilterKey.isInfix {name : Bytes} {n : Nat} (h : FilterKey name n) :
    ascii "=can_filter_" <:+: name := by
  obtain ⟨iniSection, digits, rfl, -⟩ := h
  exact ⟨iniSection, digits, rfl⟩

theorem FilterKey.read {name : Bytes} {n : Nat} (h : FilterKey name n)
    (hn : n ≤ 65535) (value : Bytes) :
    filterSetting (name, value) = some (UInt16.ofNat n, decide (atoi value ≠ 0)) := by
  obtain ⟨hne, hdigits, hvalue⟩ := h.token
  have hid : UInt16.ofInt (atoi (lastToken name)) = UInt16.ofNat n := by
    rw [atoi_digits hdigits (by omega), hvalue, ofInt_natCast]
  simp only [filterSetting, h.isInfix, hne, ne_eq, not_false_eq_true, and_self,
    if_true, hid]

/-! ## The filter that the setup builds -/

@[simp] private theorem invert_foldl (entries : List (Bytes × Bytes))
    (filter : CanIdFilter) :
    (entries.foldl applyFilterEntry filter).invert = filter.invert := by
  induction entries generalizing filter with
  | nil => rfl
  | cons entry entries ih =>
      rw [List.foldl_cons, ih, applyFilterEntry]
      split <;> rfl

private theorem getElem?_foldl_of_forall_ne {entries : List (Bytes × Bytes)}
    {id : UInt16} (h : ∀ entry ∈ entries, ∀ allow, filterSetting entry ≠ some (id, allow))
    (filter : CanIdFilter) :
    (entries.foldl applyFilterEntry filter).filterList[id.toUInt32]? =
      filter.filterList[id.toUInt32]? := by
  induction entries generalizing filter with
  | nil => rfl
  | cons entry entries ih =>
      rw [List.foldl_cons, ih fun later hlater => h later (List.mem_cons_of_mem _ hlater),
        applyFilterEntry]
      split
      next other allow hentry =>
        have hne : other ≠ id := by
          rintro rfl
          exact h entry List.mem_cons_self allow hentry
        rw [CanIdFilter.getElem?_setFilter, if_neg hne]
      next => rfl

private theorem getElem?_foldl_of_mem {entries : List (Bytes × Bytes)} {id : UInt16}
    {allow : Bool} (hmem : ∃ entry ∈ entries, filterSetting entry = some (id, allow))
    (honly : ∀ entry ∈ entries, ∀ other, filterSetting entry = some (id, other) →
      other = allow) (filter : CanIdFilter) :
    (entries.foldl applyFilterEntry filter).filterList[id.toUInt32]? = some allow := by
  induction entries generalizing filter with
  | nil => simp at hmem
  | cons entry entries ih =>
      have honly' : ∀ later ∈ entries, ∀ other,
          filterSetting later = some (id, other) → other = allow :=
        fun later hlater => honly later (List.mem_cons_of_mem _ hlater)
      rw [List.foldl_cons]
      by_cases hlater : ∃ later ∈ entries, filterSetting later = some (id, allow)
      · exact ih hlater honly' _
      obtain ⟨first, hfirst, hentry⟩ := hmem
      obtain rfl | hfirst := List.mem_cons.mp hfirst
      · have hnone : ∀ later ∈ entries, ∀ other,
            filterSetting later ≠ some (id, other) := by
          intro later hmem other hother
          obtain rfl := honly' later hmem other hother
          exact hlater ⟨later, hmem, hother⟩
        rw [getElem?_foldl_of_forall_ne hnone, applyFilterEntry, hentry]
        simp [CanIdFilter.getElem?_setFilter]
      · exact absurd ⟨first, hfirst, hentry⟩ hlater

private theorem allow_of_value {value : Bytes}
    (h : value = ascii "0" ∨ value = ascii "1") :
    decide (atoi value ≠ 0) = decide (value = ascii "1") := by
  rcases h with rfl | rfl <;> decide

private theorem WellFormed.scan {values : StringMap} (h : WellFormed values)
    {entry : Bytes × Bytes} (hentry : entry ∈ values.toList) {id : UInt16}
    {allow : Bool} (hscan : filterSetting entry = some (id, allow)) :
    FilterKey entry.1 id.toNat ∧ values[entry.1]? = some entry.2 ∧
      allow = decide (entry.2 = ascii "1") := by
  obtain ⟨name, value⟩ := entry
  have hvalue := Std.ExtTreeMap.mem_toList_iff_getElem?_eq_some.mp hentry
  have hinfix : ascii "=can_filter_" <:+: name := by
    unfold filterSetting at hscan
    split at hscan
    next htest => exact htest.1
    next => cases hscan
  obtain ⟨n, hn, hkey, hform⟩ := h.entry name value hvalue hinfix
  rw [hkey.read hn] at hscan
  obtain ⟨rfl, rfl⟩ := Prod.mk.inj (Option.some.inj hscan)
  have htoNat : (UInt16.ofNat n).toNat = n := by
    rw [UInt16.toNat_ofNat']
    omega
  exact ⟨htoNat.symm ▸ hkey, hvalue, allow_of_value hform⟩

theorem getElem?_setupFilter_of_entry {values : StringMap} (h : WellFormed values)
    {id : UInt16} {value : Bytes} (hentry : FilterEntry values id.toNat value) :
    (setupFilter (.loadConfigFile values)).filterList[id.toUInt32]? =
      some (decide (value = ascii "1")) := by
  obtain ⟨name, hkey, hvalue⟩ := hentry
  have hid : id.toNat ≤ 65535 := by
    have := id.toNat_lt
    omega
  obtain ⟨-, -, -, hform⟩ := h.entry name value hvalue hkey.isInfix
  apply getElem?_foldl_of_mem
  · refine ⟨(name, value), Std.ExtTreeMap.mem_toList_iff_getElem?_eq_some.mpr hvalue, ?_⟩
    rw [hkey.read hid, UInt16.ofNat_toNat, allow_of_value hform]
  · intro entry hmem other hscan
    obtain ⟨hkey', hvalue', rfl⟩ := h.scan hmem hscan
    have hname : name = entry.1 :=
      h.once name entry.1 id.toNat
        (Std.ExtTreeMap.mem_iff_isSome_getElem?.mpr (by rw [hvalue]; rfl))
        (Std.ExtTreeMap.mem_iff_isSome_getElem?.mpr (by rw [hvalue']; rfl)) hkey hkey'
    rw [← hname, hvalue] at hvalue'
    rw [Option.some.inj hvalue']

theorem getElem?_setupFilter_of_no_entry {values : StringMap} (h : WellFormed values)
    {id : UInt16} (hentry : ∀ value, ¬ FilterEntry values id.toNat value) :
    (setupFilter (.loadConfigFile values)).filterList[id.toUInt32]? = none := by
  have hnone : ∀ entry ∈ values.toList, ∀ allow,
      filterSetting entry ≠ some (id, allow) := by
    intro entry hmem allow hscan
    obtain ⟨hkey, hvalue, -⟩ := h.scan hmem hscan
    exact hentry entry.2 ⟨entry.1, hkey, hvalue⟩
  exact (getElem?_foldl_of_forall_ne hnone _).trans Std.ExtTreeMap.getElem?_empty

theorem checkMessage_setupFilter {values : StringMap} (h : WellFormed values)
    (id : UInt16) :
    (setupFilter (.loadConfigFile values)).checkMessage id = true ↔
      FilterEntry values id.toNat (ascii "1") ∨
        ((∀ value, ¬ FilterEntry values id.toNat value) ∧
          (ConfigParser.loadConfigFile values).getBoolNocheck
            .restWebserverEnable = true) := by
  rw [CanIdFilter.checkMessage_eq]
  by_cases hentry : ∃ value, FilterEntry values id.toNat value
  · obtain ⟨value, hvalue⟩ := hentry
    rw [getElem?_setupFilter_of_entry h hvalue, Option.getD_some, decide_eq_true_eq]
    constructor
    · rintro rfl
      exact .inl hvalue
    · rintro (hone | ⟨hnone, -⟩)
      · have hsome := getElem?_setupFilter_of_entry h hone
        rw [getElem?_setupFilter_of_entry h hvalue] at hsome
        simpa using hsome
      · exact absurd hvalue (hnone value)
  · have hnone : ∀ value, ¬ FilterEntry values id.toNat value :=
      fun value hvalue => hentry ⟨value, hvalue⟩
    rw [getElem?_setupFilter_of_no_entry h hnone, Option.getD_none, setupFilter,
      invert_foldl]
    exact ⟨fun hinvert => .inr ⟨hnone, hinvert⟩,
      fun hcases => (hcases.resolve_left (hnone _)).2⟩

/-! ## The decision of the main loop -/

/-- The pass that reads a frame hands it on to the stores. -/
def Processed (setup : Setup) (locals : MainLocals) (env : Env) (state : Bridge) :
    Prop :=
  ((mainPass setup locals).run bridge env state).2.history.stored ≠
    state.history.stored

theorem processed_iff {setup : Setup} {locals : MainLocals} {env : Env}
    {state : Bridge} {frame : CanfdFrame} (h : env.received = some frame) :
    Processed setup locals env state ↔
      setup.idFilter.checkMessage (key frame.canId) = true := by
  rw [Processed, run_mainPass_some h]
  cases hcheck : setup.idFilter.checkMessage (key frame.canId) with
  | false => simp [run_receiveFrame_rejected hcheck]
  | true => simp [run_receiveFrame hcheck, receivedState]

def Standard (frame : CanfdFrame) : Prop := frame.canId.toNat ≤ 0x7FF

/-- The documented decision: the entry of the id, or the default where it has none. -/
def Accepts (values : StringMap) (n : Nat) : Prop :=
  FilterEntry values n (ascii "1") ∨
    ((∀ value, ¬ FilterEntry values n value) ∧
      (ConfigParser.loadConfigFile values).getBoolNocheck
        .canDisablePacketFilter = true)

def FilterDecides (values : StringMap) : Prop :=
  ∀ frame, Standard frame → ∀ locals env state, env.received = some frame →
    (Processed (setup (.loadConfigFile values)) locals env state ↔
      Accepts values frame.canId.toNat)

def SameDecisions (values values' : StringMap) : Prop :=
  ∀ frame, Standard frame → ∀ locals env state, env.received = some frame →
    (Processed (setup (.loadConfigFile values)) locals env state ↔
      Processed (setup (.loadConfigFile values')) locals env state)

def AllEntries (values : StringMap) : Prop :=
  ∀ n ≤ 0x7FF, ∃ value, FilterEntry values n value

/-- `CAN_DISABLE_PACKET_FILTER` and the setting that the code reads instead. -/
def FlagsAgree (values : StringMap) : Prop :=
  (ConfigParser.loadConfigFile values).getBoolNocheck .restWebserverEnable =
    (ConfigParser.loadConfigFile values).getBoolNocheck .canDisablePacketFilter

private theorem toNat_key_of_standard {frame : CanfdFrame} (h : Standard frame) :
    (key frame.canId).toNat = frame.canId.toNat := by
  rw [toNat_key, Nat.mod_eq_of_lt]
  exact lt_of_le_of_lt h (by decide)

theorem processed_setup_iff {values : StringMap} (h : WellFormed values)
    {frame : CanfdFrame} (hframe : Standard frame) {locals : MainLocals} {env : Env}
    {state : Bridge} (hread : env.received = some frame) :
    Processed (setup (.loadConfigFile values)) locals env state ↔
      FilterEntry values frame.canId.toNat (ascii "1") ∨
        ((∀ value, ¬ FilterEntry values frame.canId.toNat value) ∧
          (ConfigParser.loadConfigFile values).getBoolNocheck
            .restWebserverEnable = true) := by
  rw [processed_iff hread, ← toNat_key_of_standard hframe]
  exact checkMessage_setupFilter h _

private def frameOf (n : Nat) : CanfdFrame :=
  ⟨UInt32.ofNat n, 0, 0, Vector.replicate 64 0, zero_len_le⟩

private theorem frameOf_toNat {n : Nat} (h : n ≤ 0x7FF) :
    (frameOf n).canId.toNat = n := by
  rw [frameOf, UInt32.toNat_ofNat']
  omega

theorem filterDecides_iff {values : StringMap} (h : WellFormed values) :
    FilterDecides values ↔ AllEntries values ∨ FlagsAgree values := by
  constructor
  · intro hdecides
    by_cases hall : AllEntries values
    · exact .inl hall
    -- an id without entry shows the two defaults
    simp only [AllEntries, not_forall, not_exists] at hall
    obtain ⟨n, hn, hnone⟩ := hall
    have hid := frameOf_toNat hn
    have hstandard : Standard (frameOf n) := by
      rw [Standard, hid]
      exact hn
    have hiff := hdecides (frameOf n) hstandard ⟨CanMessage.zero.frame, 0⟩
      { received := some (frameOf n) } (.start ∅ ∅) rfl
    rw [processed_setup_iff h hstandard rfl, Accepts, hid] at hiff
    right
    have hflags := hiff
    simp only [hnone, not_false_eq_true, implies_true, true_and, false_or] at hflags
    exact Bool.eq_iff_iff.mpr hflags
  · rintro (hall | hflags) frame hframe locals env state hread
    · rw [processed_setup_iff h hframe hread, Accepts]
      obtain ⟨value, hvalue⟩ := hall frame.canId.toNat hframe
      have hsome : ¬ ∀ value, ¬ FilterEntry values frame.canId.toNat value :=
        fun hnone => hnone value hvalue
      simp only [hsome, false_and, or_false]
    · rw [processed_setup_iff h hframe hread, Accepts, hflags]

/-! ## Settings that must not matter -/

def otherEntries : List CfgEntry :=
  [.restWebserverEnable, .restWebserverBindPort, .restWebserverBindHost, .redisEnable,
   .redisHost, .redisPort, .redisFieldPrefix, .redisEnableWrite, .redisHashName]

/-- The key of a `REST_*`, `REDIS_*` or `CAN_CONVERSION_*` entry. -/
def OtherSetting (name : Bytes) : Prop :=
  (∃ entry ∈ otherEntries, name = INIReader.makeKey (ascii "SETTINGS") entry.name) ∨
    ∃ iniSection digits, name = iniSection ++ ascii "=can_conversion_" ++ digits ∧
      ∀ c ∈ digits, isDigit c

def DifferElsewhere (values values' : StringMap) : Prop :=
  ∀ name, ¬ OtherSetting name → values[name]? = values'[name]?

theorem FilterKey.not_otherSetting {name : Bytes} {n : Nat} (h : FilterKey name n) :
    ¬ OtherSetting name := by
  rintro (⟨entry, hentry, rfl⟩ | ⟨iniSection, digits, hname, hdigits⟩)
  · obtain ⟨-, hdigits, -⟩ := h.token
    have hletter : ∀ entry ∈ otherEntries, ¬ ∀ c ∈
        lastToken (INIReader.makeKey (ascii "SETTINGS") entry.name), isDigit c := by
      decide +kernel
    exact hletter entry hentry hdigits
  · obtain ⟨iniSection', digits', rfl, -, hdigits', -⟩ := h
    have htoken : digits' = digits := by
      rw [← lastToken_filterKey hdigits', hname, lastToken_conversionKey hdigits]
    rw [htoken, List.append_cancel_right_eq] at hname
    have hreverse := congrArg List.reverse hname
    simp [ascii] at hreverse

theorem not_otherSetting_disable :
    ¬ OtherSetting (INIReader.makeKey (ascii "SETTINGS")
      CfgEntry.canDisablePacketFilter.name) := by
  rintro (⟨entry, hentry, hname⟩ | ⟨iniSection, digits, hname, hdigits⟩)
  · have hne : ∀ entry ∈ otherEntries,
        INIReader.makeKey (ascii "SETTINGS") CfgEntry.canDisablePacketFilter.name ≠
          INIReader.makeKey (ascii "SETTINGS") entry.name := by
      decide +kernel
    exact hne entry hentry hname
  · have hletter : ¬ ∀ c ∈ lastToken (INIReader.makeKey (ascii "SETTINGS")
        CfgEntry.canDisablePacketFilter.name), isDigit c := by
      decide +kernel
    apply hletter
    rw [hname, lastToken_conversionKey hdigits]
    exact hdigits

theorem DifferElsewhere.filterEntry_iff {values values' : StringMap}
    (h : DifferElsewhere values values') {n : Nat} {value : Bytes} :
    FilterEntry values n value ↔ FilterEntry values' n value := by
  constructor
  · rintro ⟨name, hkey, hvalue⟩
    exact ⟨name, hkey, h name hkey.not_otherSetting ▸ hvalue⟩
  · rintro ⟨name, hkey, hvalue⟩
    exact ⟨name, hkey, (h name hkey.not_otherSetting).symm ▸ hvalue⟩

theorem sameDecisions_iff {values values' : StringMap} (h : WellFormed values)
    (h' : WellFormed values') (hdiffer : DifferElsewhere values values') :
    SameDecisions values values' ↔
      AllEntries values ∨
        (ConfigParser.loadConfigFile values).getBoolNocheck .restWebserverEnable =
          (ConfigParser.loadConfigFile values').getBoolNocheck .restWebserverEnable := by
  constructor
  · intro hsame
    by_cases hall : AllEntries values
    · exact .inl hall
    simp only [AllEntries, not_forall, not_exists] at hall
    obtain ⟨n, hn, hnone⟩ := hall
    have hid := frameOf_toNat hn
    have hstandard : Standard (frameOf n) := by
      rw [Standard, hid]
      exact hn
    have hiff := hsame (frameOf n) hstandard ⟨CanMessage.zero.frame, 0⟩
      { received := some (frameOf n) } (.start ∅ ∅) rfl
    rw [processed_setup_iff h hstandard rfl, processed_setup_iff h' hstandard rfl,
      hid] at hiff
    simp only [← hdiffer.filterEntry_iff, hnone, not_false_eq_true, implies_true,
      true_and, false_or] at hiff
    exact .inr (Bool.eq_iff_iff.mpr hiff)
  · intro hcondition frame hframe locals env state hread
    rw [processed_setup_iff h hframe hread, processed_setup_iff h' hframe hread]
    simp only [← hdiffer.filterEntry_iff]
    rcases hcondition with hall | hflags
    · obtain ⟨value, hvalue⟩ := hall frame.canId.toNat hframe
      have hsome : ¬ ∀ value, ¬ FilterEntry values frame.canId.toNat value :=
        fun hnone => hnone value hvalue
      simp only [hsome, false_and, or_false]
    · rw [hflags]

theorem DifferElsewhere.disable_eq {values values' : StringMap}
    (h : DifferElsewhere values values') :
    (ConfigParser.loadConfigFile values).getBoolNocheck .canDisablePacketFilter =
      (ConfigParser.loadConfigFile values').getBoolNocheck .canDisablePacketFilter := by
  have hget : (ConfigParser.loadConfigFile values).get .canDisablePacketFilter =
      (ConfigParser.loadConfigFile values').get .canDisablePacketFilter := by
    simp only [ConfigParser.get, ConfigParser.loadConfigFile, INIReader.get,
      h _ not_otherSetting_disable]
  simp only [ConfigParser.getBoolNocheck, ConfigParser.getBool, hget]

/--
A configuration decides as documented iff every standard id has an entry of its
own or the flag that the code reads has the value of the documented one.
Configurations of this kind that differ in other settings only decide alike.
-/
theorem packetFilter_decides_iff {values : StringMap} (h : WellFormed values) :
    (FilterDecides values ↔ AllEntries values ∨ FlagsAgree values) ∧
      ∀ values', WellFormed values' → DifferElsewhere values values' →
        (AllEntries values ∨ FlagsAgree values) →
        (AllEntries values' ∨ FlagsAgree values') → SameDecisions values values' := by
  refine ⟨filterDecides_iff h, fun values' h' hdiffer hcondition hcondition' => ?_⟩
  rw [sameDecisions_iff h h' hdiffer]
  rcases hcondition with hall | hflags
  · exact .inl hall
  rcases hcondition' with hall' | hflags'
  · left
    intro n hn
    obtain ⟨value, hvalue⟩ := hall' n hn
    exact ⟨value, hdiffer.filterEntry_iff.mpr hvalue⟩
  · right
    rw [hflags, hflags', hdiffer.disable_eq]

/-! ## Two configurations -/

private theorem mem_toList_of_getElem? {values : StringMap} {name value : Bytes}
    (h : values[name]? = some value) : (name, value) ∈ values.toList :=
  Std.ExtTreeMap.mem_toList_iff_getElem?_eq_some.mpr h

/-- The settings of the configuration file that the program writes itself. -/
def shippedValues : StringMap :=
  INIReader.read
    [(ascii "SETTINGS", ascii "CAN_SOCKET_IF_NAME", ascii "can0"),
     (ascii "SETTINGS", ascii "CAN_DISABLE_PACKET_FILTER", ascii "1"),
     (ascii "SETTINGS", ascii "REST_WEBSERVER_ENABLE", ascii "1"),
     (ascii "SETTINGS", ascii "REDIS_ENABLE", ascii "1")]

private theorem wellFormed_shippedValues : WellFormed shippedValues := by
  have hnone : ∀ entry ∈ shippedValues.toList,
      ¬ ascii "=can_filter_" <:+: entry.1 := by
    decide +kernel
  constructor
  · intro name value hvalue hinfix
    exact absurd hinfix (hnone _ (mem_toList_of_getElem? hvalue))
  · intro name name' n hname hname' hkey hkey'
    have hvalue := Std.ExtTreeMap.getElem?_eq_some_getElem hname
    exact absurd hkey.isInfix (hnone _ (mem_toList_of_getElem? hvalue))

theorem packetFilter_shippedValues : FilterDecides shippedValues :=
  (packetFilter_decides_iff wellFormed_shippedValues).1.mpr
    (.inr (by rw [FlagsAgree]; decide +kernel))

/-- The documented way to let frames with id 207 through and no others. -/
def only207Values : StringMap :=
  INIReader.read
    [(ascii "SETTINGS", ascii "CAN_DISABLE_PACKET_FILTER", ascii "0"),
     (ascii "SETTINGS", ascii "CAN_FILTER_207", ascii "1"),
     (ascii "SETTINGS", ascii "REST_WEBSERVER_ENABLE", ascii "1")]

private theorem eq_of_infix_only207Values : ∀ entry ∈ only207Values.toList,
    ascii "=can_filter_" <:+: entry.1 →
      entry = (ascii "settings=can_filter_207", ascii "1") := by
  decide +kernel

private theorem filterKey_207 : FilterKey (ascii "settings=can_filter_207") 207 :=
  ⟨ascii "settings", ascii "207", by decide, by decide, by decide +kernel, by decide⟩

private theorem name_of_only207Values {name : Bytes} {n : Nat}
    (hname : name ∈ only207Values) (hkey : FilterKey name n) :
    name = ascii "settings=can_filter_207" := by
  have hvalue := Std.ExtTreeMap.getElem?_eq_some_getElem hname
  exact congrArg Prod.fst
    (eq_of_infix_only207Values _ (mem_toList_of_getElem? hvalue) hkey.isInfix)

private theorem wellFormed_only207Values : WellFormed only207Values := by
  constructor
  · intro name value hvalue hinfix
    obtain ⟨rfl, rfl⟩ := Prod.mk.inj
      (eq_of_infix_only207Values _ (mem_toList_of_getElem? hvalue) hinfix)
    exact ⟨207, by decide, filterKey_207, .inr rfl⟩
  · intro name name' n hname hname' hkey hkey'
    rw [name_of_only207Values hname hkey, name_of_only207Values hname' hkey']

/-- With the web server enabled every frame passes this filter. -/
theorem packetFilter_only207Values :
    WellFormed only207Values ∧ ¬ FilterDecides only207Values := by
  refine ⟨wellFormed_only207Values, ?_⟩
  rw [filterDecides_iff wellFormed_only207Values]
  rintro (hall | hflags)
  · obtain ⟨value, name, hkey, hvalue⟩ := hall 1 (by decide)
    have hname : name ∈ only207Values :=
      Std.ExtTreeMap.mem_iff_isSome_getElem?.mpr (by rw [hvalue]; rfl)
    obtain rfl := name_of_only207Values hname hkey
    obtain ⟨-, -, hvalue⟩ := hkey.token
    exact absurd hvalue (by decide)
  · have hdiffer : ¬ FlagsAgree only207Values := by
      rw [FlagsAgree]
      decide +kernel
    exact hdiffer hflags

end Can2Rest.Properties
