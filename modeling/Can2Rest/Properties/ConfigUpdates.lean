import Can2Rest.Properties.ConfigRoundTrip

/-!
# Setting one entry

`set` writes the entries of the enumeration only, so a file keeps what it held
besides the entry that is set only if it held nothing but entries, each with a
value that is read as it was written.
-/

namespace Can2Rest.Properties

open Foundation Shared Shared.Inih

/-- No white space, which line breaks are part of, and no `;`. -/
def PlainValue (value : Bytes) : Prop := ∀ c ∈ value, isspace c = false ∧ c ≠ 59

instance (value : Bytes) : Decidable (PlainValue value) := List.decidableBAll _ value

/-- `set` with the path of the file, and then `loadConfigFile` of this file. -/
def setAndLoad (config : ConfigInstance) (entry : CfgEntry) (value : Bytes) (disk : Disk) :
    Bool × ConfigInstance :=
  let updated := config.set entry value disk
  updated.1.loadConfigFile updated.2

/-- The rewritten file is accepted, and nothing but the value of the entry has changed. -/
structure ChangesOnly (config : ConfigInstance) (disk : Disk) (entry : CfgEntry)
    (value : Bytes) : Prop where
  reloads : (setAndLoad config entry value disk).1 = true
  stored : (setAndLoad config entry value disk).2.shown.get entry = value
  others : ∀ other, other ≠ entry →
    (setAndLoad config entry value disk).2.shown.get other = config.shown.get other
  keys : ∀ key, key ≠ settingKey entry →
    (setAndLoad config entry value disk).2.shown.rawConfigMap[key]? =
      config.shown.rawConfigMap[key]?

/-- What the first load shows: nothing but entries, whose values fit. -/
structure HoldsEntries (shown : ConfigParser) (entry : CfgEntry) : Prop where
  keys : ∀ key ∈ shown.rawConfigMap, ∃ other, settingKey other = key
  present : ∀ other, other ≠ entry → settingKey other ∈ shown.rawConfigMap
  fits : ∀ other, other ≠ entry → Fits other (shown.get other)

/-! ## The first load -/

section FirstLoad

variable {config : ConfigInstance} {disk : Disk}

theorem loaded_eq (hloads : (config.loadConfigFile disk).1 = true) :
    (INIReader.ofFile disk).error = 0 ∧
      (config.loadConfigFile disk).2 =
        ⟨true, .loadConfigFile (INIReader.ofFile disk).values⟩ := by
  unfold ConfigInstance.loadConfigFile at hloads ⊢
  dsimp only at hloads ⊢
  split at hloads
  · cases hloads
  next h => exact ⟨not_not.mp h, by rw [if_neg h]⟩

theorem rereads_of_loads (hloads : (config.loadConfigFile disk).1 = true) :
    disk.rereads = true := by
  obtain ⟨herror, -⟩ := loaded_eq hloads
  obtain ⟨configFile, creatable⟩ := disk
  cases configFile with
  | none => rfl
  | some file =>
      unfold INIReader.ofFile at herror
      dsimp only at herror
      split at herror
      next h => exact h
      next => cases herror

theorem writeConfigFile_of_not_opens (h : disk.opens ≠ true) (config : ConfigInstance) :
    config.writeConfigFile disk = disk := by
  obtain ⟨configFile, creatable⟩ := disk
  unfold ConfigInstance.writeConfigFile
  cases configFile with
  | none => exact if_neg h
  | some file => exact if_neg h

end FirstLoad

/-! ## Values that are plain -/

theorem fits_of_plainValue {entry : CfgEntry} {value : Bytes} (hplain : PlainValue value)
    (hshort : entry.name.length + 1 + value.length ≤ 199) (hzero : 0 ∉ value) :
    Fits entry value := by
  have hbreak : 10 ∉ value := by
    intro hmem
    have hspace := (hplain 10 hmem).1
    revert hspace
    decide
  have hcomment : value.Pairwise fun w c => ¬ (isspace w = true ∧ c = 59) :=
    List.pairwise_of_forall_mem_list fun _ _ c hc h => (hplain c hc).2 h.2
  refine ⟨hshort, hbreak, hzero, ?_, ?_, hcomment.isChain⟩
  · exact fun c hc => (hplain c (List.mem_of_mem_head? hc)).1
  · exact fun c hc => (hplain c (List.mem_of_getLast? hc)).1

/-! ## Setting an entry of a loaded configuration -/

section SetEntry

variable {config : ConfigInstance} {disk : Disk} {entry : CfgEntry} {value : Bytes}

theorem get_shown (hloads : (config.loadConfigFile disk).1 = true) (other : CfgEntry) :
    (config.loadConfigFile disk).2.shown.get other =
      (config.loadConfigFile disk).2.shown.rawConfigMap[settingKey other]?.getD [] := by
  rw [(loaded_eq hloads).2]
  rfl

theorem setAndLoad_of_not_opens (hloads : (config.loadConfigFile disk).1 = true)
    (hopens : disk.opens ≠ true) :
    setAndLoad (config.loadConfigFile disk).2 entry value disk =
      (true, (config.loadConfigFile disk).2) := by
  obtain ⟨herror, heq⟩ := loaded_eq hloads
  rw [setAndLoad, ConfigInstance.set, writeConfigFile_of_not_opens hopens, heq]
  rw [ConfigInstance.loadConfigFile]
  dsimp only
  rw [if_neg (not_not_intro herror)]

theorem changesOnly_of_not_opens (hloads : (config.loadConfigFile disk).1 = true)
    (hopens : disk.opens ≠ true) :
    ChangesOnly (config.loadConfigFile disk).2 disk entry value ↔
      (config.loadConfigFile disk).2.shown.get entry = value := by
  have hset : setAndLoad (config.loadConfigFile disk).2 entry value disk =
      (true, (config.loadConfigFile disk).2) := setAndLoad_of_not_opens hloads hopens
  constructor
  · intro h
    have hstored := h.stored
    rw [hset] at hstored
    exact hstored
  · intro h
    refine ⟨by rw [hset], by rw [hset]; exact h, fun other _ => by rw [hset],
      fun key _ => by rw [hset]⟩

def updatedStore (config : ConfigInstance) (entry : CfgEntry) (value : Bytes) :
    CfgEntry → Bytes :=
  Function.update config.parser.configStore entry value

theorem updatedStore_of_ne {other : CfgEntry} (h : other ≠ entry)
    (hloads : (config.loadConfigFile disk).1 = true) :
    updatedStore (config.loadConfigFile disk).2 entry value other =
      (config.loadConfigFile disk).2.shown.get other := by
  rw [updatedStore, Function.update_of_ne h, (loaded_eq hloads).2]
  rfl

theorem updatedStore_self (config : ConfigInstance) :
    updatedStore config entry value entry = value := Function.update_self ..

theorem shown_setAndLoad (hopens : disk.opens = true)
    (hreloads : (setAndLoad config entry value disk).1 = true) :
    (setAndLoad config entry value disk).2.shown =
      .loadConfigFile (INIReader.read (handledOf (updatedStore config entry value))) :=
  (loadConfigFile_of_loads hopens hreloads).2

theorem fits_of_changesOnly (hloads : (config.loadConfigFile disk).1 = true)
    (hopens : disk.opens = true)
    (h : ChangesOnly (config.loadConfigFile disk).2 disk entry value) (other : CfgEntry) :
    Fits other (updatedStore (config.loadConfigFile disk).2 entry value other) := by
  have hshown := shown_setAndLoad hopens h.reloads
  refine (valueOf_handledOf_iff _).mp (fun other => ?_) other
  have hget : (setAndLoad (config.loadConfigFile disk).2 entry value disk).2.shown.get other =
      valueOf (handledOf (updatedStore (config.loadConfigFile disk).2 entry value)) other := by
    rw [hshown]
    rfl
  rw [← hget]
  by_cases hother : other = entry
  · rw [hother, h.stored, updatedStore_self]
  · rw [h.others other hother, updatedStore_of_ne hother hloads]

theorem holdsEntries_of_changesOnly (hloads : (config.loadConfigFile disk).1 = true)
    (hopens : disk.opens = true)
    (h : ChangesOnly (config.loadConfigFile disk).2 disk entry value) :
    HoldsEntries (config.loadConfigFile disk).2.shown entry ∧ Fits entry value := by
  have hfits := fits_of_changesOnly hloads hopens h
  have hshown := shown_setAndLoad hopens h.reloads
  -- The rewritten file has the keys of the entries, so the first load had these.
  have hkeys := h.keys
  rw [hshown, (read_of_fits hfits).1, ConfigParser.loadConfigFile] at hkeys
  have hentry := hfits entry
  rw [updatedStore_self] at hentry
  refine ⟨⟨fun key hkey => ?_, fun other hother => ?_, fun other hother => ?_⟩, hentry⟩
  · by_cases hself : key = settingKey entry
    · exact ⟨entry, hself.symm⟩
    · rw [Std.ExtTreeMap.mem_iff_isSome_getElem?, ← hkeys key hself,
        ← Std.ExtTreeMap.mem_iff_isSome_getElem?] at hkey
      obtain ⟨other, -, hother⟩ := mem_read_settings.mp hkey
      exact ⟨other, hother⟩
  · have hne : settingKey other ≠ settingKey entry := fun heq => hother (settingKey_injective heq)
    rw [Std.ExtTreeMap.mem_iff_isSome_getElem?, ← hkeys _ hne,
      ← Std.ExtTreeMap.mem_iff_isSome_getElem?]
    exact mem_read_settings.mpr ⟨other, CfgEntry.mem_all other, rfl⟩
  · have hsame : updatedStore (config.loadConfigFile disk).2 entry value other =
        (config.loadConfigFile disk).2.shown.get other := updatedStore_of_ne hother hloads
    rw [← hsame]
    exact hfits other

theorem getElem?_settings_of_holdsEntries (hloads : (config.loadConfigFile disk).1 = true)
    (h : HoldsEntries (config.loadConfigFile disk).2.shown entry) {store : CfgEntry → Bytes}
    (hothers : ∀ other, other ≠ entry →
      store other = (config.loadConfigFile disk).2.shown.get other)
    {key : Bytes} (hkey : key ≠ settingKey entry) :
    (INIReader.read (CfgEntry.all.map (settingCall store)))[key]? =
      (config.loadConfigFile disk).2.shown.rawConfigMap[key]? := by
  by_cases hentry : ∃ other, settingKey other = key
  · obtain ⟨other, rfl⟩ := hentry
    have hother : other ≠ entry := fun heq => hkey (by rw [heq])
    obtain ⟨held, hheld⟩ := Option.isSome_iff_exists.mp
      (Std.ExtTreeMap.mem_iff_isSome_getElem?.mp (h.present other hother))
    have hstored : store other = held := by
      rw [hothers other hother, get_shown hloads, hheld, Option.getD_some]
    rw [getElem?_read_settings _ CfgEntry.nodup_all (CfgEntry.mem_all other), hheld]
    exact congrArg some hstored
  · have hnew : key ∉ INIReader.read (CfgEntry.all.map (settingCall store)) := by
      rw [mem_read_settings]
      rintro ⟨other, -, hother⟩
      exact hentry ⟨other, hother⟩
    have hold : key ∉ (config.loadConfigFile disk).2.shown.rawConfigMap :=
      fun hmem => hentry (h.keys key hmem)
    rw [Std.ExtTreeMap.getElem?_eq_none hold]
    exact Std.ExtTreeMap.getElem?_eq_none hnew

theorem changesOnly_of_holdsEntries (hloads : (config.loadConfigFile disk).1 = true)
    (hopens : disk.opens = true)
    (h : HoldsEntries (config.loadConfigFile disk).2.shown entry) (hvalue : Fits entry value) :
    ChangesOnly (config.loadConfigFile disk).2 disk entry value := by
  let store := updatedStore (config.loadConfigFile disk).2 entry value
  have hself : store entry = value := updatedStore_self _
  have hothers : ∀ other, other ≠ entry →
      store other = (config.loadConfigFile disk).2.shown.get other :=
    fun _ hother => updatedStore_of_ne hother hloads
  have hfits : ∀ other, Fits other (store other) := by
    intro other
    by_cases hother : other = entry
    · rw [hother, hself]
      exact hvalue
    · rw [hothers other hother]
      exact h.fits other hother
  have hreloads : (setAndLoad (config.loadConfigFile disk).2 entry value disk).1 = true :=
    loads_of_fits hopens (rereads_of_loads hloads) hfits
  have hshown := shown_setAndLoad hopens hreloads
  have hget : ∀ other,
      (setAndLoad (config.loadConfigFile disk).2 entry value disk).2.shown.get other =
        store other := by
    intro other
    rw [hshown]
    exact (valueOf_handledOf_iff store).mpr hfits other
  refine ⟨hreloads, ?_, fun other hother => ?_, fun key hkey => ?_⟩
  · rw [hget, hself]
  · rw [hget, hothers other hother]
  · rw [hshown, (read_of_fits hfits).1, ConfigParser.loadConfigFile]
    exact getElem?_settings_of_holdsEntries hloads h hothers hkey

end SetEntry

def KeepsOthers (config : ConfigInstance) (disk : Disk) (entry : CfgEntry) (value : Bytes) :
    Prop :=
  if disk.opens then
    HoldsEntries config.shown entry ∧ entry.name.length + 1 + value.length ≤ 199 ∧ 0 ∉ value
  else config.shown.get entry = value

/--
After a file was loaded, setting an entry to a plain value changes this entry
alone if the file held nothing but entries whose values fit, as the new one
does, and only then; or the file cannot be written and already held the value.
-/
theorem changesOnly_iff (config : ConfigInstance) (disk : Disk)
    (hloads : (config.loadConfigFile disk).1 = true) (entry : CfgEntry) (value : Bytes)
    (hplain : PlainValue value) :
    ChangesOnly (config.loadConfigFile disk).2 disk entry value ↔
      KeepsOthers (config.loadConfigFile disk).2 disk entry value := by
  unfold KeepsOthers
  by_cases hopens : disk.opens = true
  · rw [if_pos hopens]
    constructor
    · intro h
      obtain ⟨hholds, hfits⟩ := holdsEntries_of_changesOnly hloads hopens h
      exact ⟨hholds, hfits.short, hfits.isValue.zero⟩
    · rintro ⟨hholds, hshort, hzero⟩
      exact changesOnly_of_holdsEntries hloads hopens hholds
        (fits_of_plainValue hplain hshort hzero)
  · rw [if_neg hopens]
    exact changesOnly_of_not_opens hloads hopens

/-! ## Files that the program wrote -/

theorem holdsEntries_of_written {config : ConfigInstance} {disk : Disk}
    (hopens : disk.opens = true) (hrereads : disk.rereads = true)
    (h : ∀ entry, Fits entry (config.parser.configStore entry)) (entry : CfgEntry) :
    HoldsEntries (config.loadConfigFile (config.writeConfigFile disk)).2.shown entry := by
  obtain ⟨-, hshown⟩ := loadConfigFile_of_loads hopens (loads_of_fits hopens hrereads h)
  rw [hshown]
  refine ⟨fun key hkey => ?_, fun other _ => ?_, fun other _ => ?_⟩
  · rw [ConfigParser.loadConfigFile, (read_of_fits h).1] at hkey
    obtain ⟨other, -, hother⟩ := mem_read_settings.mp hkey
    exact ⟨other, hother⟩
  · rw [ConfigParser.loadConfigFile, (read_of_fits h).1]
    exact mem_read_settings.mpr ⟨other, CfgEntry.mem_all other, rfl⟩
  · have hvalue := (valueOf_handledOf_iff _).mpr h other
    change Fits other (valueOf (handledOf config.parser.configStore) other)
    rw [hvalue]
    exact h other

theorem fits_defaultValue (entry : CfgEntry) : Fits entry entry.defaultValue := by
  cases entry <;> exact fits_of_plainValue (by decide) (by decide) (by decide)

def defaultDisk : Disk := ConfigInstance.new.loadDefaults.writeConfigFile ⟨none, true⟩

theorem changesOnly_defaults :
    ChangesOnly (ConfigInstance.new.loadDefaults.loadConfigFile defaultDisk).2 defaultDisk
      .redisHost (ascii "localhost") := by
  have hplain : PlainValue (ascii "localhost") := by decide
  have hopens : defaultDisk.opens = true := rfl
  refine (changesOnly_iff _ defaultDisk (loads_of_fits rfl rfl fits_defaultValue) .redisHost
    (ascii "localhost") hplain).mpr ?_
  rw [KeepsOthers, if_pos hopens]
  exact ⟨holdsEntries_of_written rfl rfl fits_defaultValue .redisHost, by decide, by decide⟩

def filterDisk : Disk := ⟨some ⟨ascii "[SETTINGS]\nCAN_FILTER_207=1\n", true, true⟩, true⟩

theorem filterDisk_loses_filter :
    (ConfigInstance.new.loadConfigFile filterDisk).1 = true ∧ PlainValue (ascii "localhost") ∧
      ¬ ChangesOnly (ConfigInstance.new.loadConfigFile filterDisk).2 filterDisk .redisHost
        (ascii "localhost") := by
  have hloads : (ConfigInstance.new.loadConfigFile filterDisk).1 = true := by decide +kernel
  refine ⟨hloads, by decide, fun h => ?_⟩
  obtain ⟨hholds, -⟩ := holdsEntries_of_changesOnly hloads rfl h
  obtain ⟨other, hother⟩ := hholds.keys (ascii "settings=can_filter_207") (by decide +kernel)
  revert hother
  cases other <;> decide

end Can2Rest.Properties
