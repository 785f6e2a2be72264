import Can2Rest.Properties.ConfigUpdates
import Can2Rest.Properties.Startup

/-!
# The settings after startup

The defaults are stored before the file is written, and a load that fails
replaces the reader all the same.  So what the program goes on with depends on
the last load, whether it succeeded or not.
-/

namespace Can2Rest.Properties

open Foundation Shared

/-! ## Loads that succeed -/

def loadedValues (disk : Disk) : Option StringMap :=
  let reader := INIReader.ofFile disk
  if reader.error = 0 then some reader.values else none

/-- The file can be read, and each of its lines parses. -/
def Loads (disk : Disk) : Prop :=
  ∃ file, disk.configFile = some file ∧ file.readable = true ∧ LinesParse file.content

theorem error_ofFile_iff (disk : Disk) : (INIReader.ofFile disk).error = 0 ↔ Loads disk := by
  obtain ⟨configFile, creatable⟩ := disk
  cases configFile with
  | none =>
      have herror : (INIReader.ofFile ⟨none, creatable⟩).error = -1 := rfl
      rw [herror]
      simp [Loads]
  | some file =>
      by_cases hreadable : file.readable = true
      · rw [ofFile_error hreadable]
        simp [Loads, hreadable]
      · have herror : (INIReader.ofFile ⟨some file, creatable⟩).error = -1 := by
          rw [INIReader.ofFile]
          dsimp only
          rw [if_neg hreadable]
        rw [herror]
        simp [Loads, hreadable]

section LoadedValues

variable {disk : Disk}

theorem loadedValues_of_loads (h : Loads disk) :
    loadedValues disk = some (INIReader.ofFile disk).values := by
  rw [loadedValues, if_pos ((error_ofFile_iff disk).mpr h)]

theorem loadedValues_of_not_loads (h : ¬ Loads disk) : loadedValues disk = none := by
  rw [loadedValues, if_neg (mt (error_ofFile_iff disk).mp h)]

theorem loadConfigFile_of_accepted (h : Loads disk) (config : ConfigInstance) :
    config.loadConfigFile disk =
      (true, ⟨true, .loadConfigFile (INIReader.ofFile disk).values⟩) := by
  rw [ConfigInstance.loadConfigFile, if_neg (not_not_intro ((error_ofFile_iff disk).mpr h))]

theorem loadConfigFile_of_rejected (h : ¬ Loads disk) (config : ConfigInstance) :
    config.loadConfigFile disk =
      (false, { config with
        parser := { config.parser with rawConfigMap := (INIReader.ofFile disk).values } }) := by
  rw [ConfigInstance.loadConfigFile, if_pos (mt (error_ofFile_iff disk).mp h)]

end LoadedValues

/-! ## What the settings should be -/

/-- The loads that succeed, in their order; the second is made only if it is called for. -/
def successfulLoads (writeconfig : Bool) (first reloaded : Disk) : List StringMap :=
  match loadedValues first with
  | some values => values :: if writeconfig then (loadedValues reloaded).toList else []
  | none => (loadedValues reloaded).toList

/-- The value in the last of the loads, or the default if there is none. -/
def lastValue (loads : List StringMap) (entry : CfgEntry) : Bytes :=
  match loads.getLast? with
  | some values => INIReader.get values (ascii "SETTINGS") entry.name []
  | none => entry.defaultValue

/-- The settings are those of the last successful load, and all that is shown was loaded. -/
structure UsableSettings (writeconfig : Bool) (first reloaded : Disk) : Prop where
  settings : ∀ entry, (ConfigInstance.startUp writeconfig first reloaded).shown.get entry =
    lastValue (successfulLoads writeconfig first reloaded) entry
  rawEntries : ∀ (key value : Bytes),
    (ConfigInstance.startUp writeconfig first reloaded).shown.rawConfigMap[key]? = some value →
      ∃ values ∈ successfulLoads writeconfig first reloaded, values[key]? = some value

/-- The first file holds the defaults, and everything that is read of the second. -/
structure Covers (first reloaded : Disk) : Prop where
  defaults : ∀ entry, lastValue [(INIReader.ofFile first).values] entry = entry.defaultValue
  entries : ∀ key value : Bytes, (INIReader.ofFile reloaded).values[key]? = some value →
    (INIReader.ofFile first).values[key]? = some value

/-! ## The four outcomes -/

section Outcomes

variable {writeconfig : Bool} {first reloaded : Disk}

theorem startUp_of_loads (h : Loads first) :
    ConfigInstance.startUp false first reloaded =
      ⟨true, .loadConfigFile (INIReader.ofFile first).values⟩ := by
  rw [ConfigInstance.startUp, loadConfigFile_of_accepted h]
  simp

theorem usableSettings_of_loads (h : Loads first) : UsableSettings false first reloaded := by
  have hloads : successfulLoads false first reloaded = [(INIReader.ofFile first).values] := by
    rw [successfulLoads, loadedValues_of_loads h]
    rfl
  refine ⟨fun entry => ?_, fun key value hvalue => ?_⟩
  · rw [startUp_of_loads h, hloads]
    rfl
  · rw [startUp_of_loads h] at hvalue
    rw [hloads]
    exact ⟨_, List.mem_singleton_self _, hvalue⟩

theorem startUp_of_reloads (h : ¬ Loads first ∨ writeconfig = true) :
    ConfigInstance.startUp writeconfig first reloaded =
      ((ConfigInstance.new.loadConfigFile first).2.loadDefaults.loadConfigFile reloaded).2 := by
  refine if_pos (h.imp_left fun hfirst => ?_)
  rw [loadConfigFile_of_rejected hfirst]

theorem getLast?_successfulLoads (h : ¬ Loads first ∨ writeconfig = true)
    (hreloaded : Loads reloaded) :
    (successfulLoads writeconfig first reloaded).getLast? =
      some (INIReader.ofFile reloaded).values := by
  rw [successfulLoads, loadedValues_of_loads hreloaded]
  by_cases hfirst : Loads first
  · obtain rfl := h.resolve_left (not_not_intro hfirst)
    rw [loadedValues_of_loads hfirst]
    rfl
  · rw [loadedValues_of_not_loads hfirst]
    rfl

theorem usableSettings_of_reloaded (h : ¬ Loads first ∨ writeconfig = true)
    (hreloaded : Loads reloaded) : UsableSettings writeconfig first reloaded := by
  have hlast := getLast?_successfulLoads h hreloaded
  have hend : ConfigInstance.startUp writeconfig first reloaded =
      ⟨true, .loadConfigFile (INIReader.ofFile reloaded).values⟩ := by
    rw [startUp_of_reloads h, loadConfigFile_of_accepted hreloaded]
  refine ⟨fun entry => ?_, fun key value hvalue => ?_⟩
  · rw [hend, lastValue, hlast]
    rfl
  · rw [hend] at hvalue
    exact ⟨_, List.mem_of_getLast? hlast, hvalue⟩

theorem usableSettings_of_fallback (hfirst : Loads first) (hreloaded : ¬ Loads reloaded) :
    UsableSettings true first reloaded ↔ Covers first reloaded := by
  have hloads : successfulLoads true first reloaded = [(INIReader.ofFile first).values] := by
    rw [successfulLoads, loadedValues_of_loads hfirst, loadedValues_of_not_loads hreloaded]
    rfl
  have hend : (ConfigInstance.startUp true first reloaded).shown =
      ⟨CfgEntry.defaultValue, (INIReader.ofFile reloaded).values⟩ := by
    rw [startUp_of_reloads (.inr rfl), loadConfigFile_of_accepted hfirst,
      loadConfigFile_of_rejected hreloaded]
    rfl
  constructor
  · intro h
    refine ⟨fun entry => ?_, fun key value hvalue => ?_⟩
    · rw [← hloads, ← h.settings, hend]
      rfl
    · obtain ⟨values, hmem, hheld⟩ := h.rawEntries key value (by rw [hend]; exact hvalue)
      rw [hloads] at hmem
      rwa [List.mem_singleton.mp hmem] at hheld
  · intro h
    refine ⟨fun entry => ?_, fun key value hvalue => ?_⟩
    · rw [hend, hloads, h.defaults]
      rfl
    · rw [hend] at hvalue
      rw [hloads]
      exact ⟨_, List.mem_singleton_self _, h.entries key value hvalue⟩

theorem not_usableSettings_of_rejected (hfirst : ¬ Loads first) (hreloaded : ¬ Loads reloaded) :
    ¬ UsableSettings writeconfig first reloaded := by
  intro h
  have hloads : successfulLoads writeconfig first reloaded = [] := by
    rw [successfulLoads, loadedValues_of_not_loads hfirst, loadedValues_of_not_loads hreloaded]
    rfl
  have hend : (ConfigInstance.startUp writeconfig first reloaded).shown =
      ⟨fun _ => [], (INIReader.ofFile reloaded).values⟩ := by
    rw [startUp_of_reloads (.inl hfirst), loadConfigFile_of_rejected hfirst,
      loadConfigFile_of_rejected hreloaded]
    rfl
  have hvalue := h.settings .canSocketIfName
  rw [hend, hloads] at hvalue
  change ([] : Bytes) = CfgEntry.canSocketIfName.defaultValue at hvalue
  exact absurd hvalue (by decide)

theorem usableSettings_of_last (hreloaded : Loads reloaded) :
    UsableSettings writeconfig first reloaded := by
  by_cases hplain : Loads first ∧ writeconfig = false
  · obtain ⟨hfirst, rfl⟩ := hplain
    exact usableSettings_of_loads hfirst
  · refine usableSettings_of_reloaded ?_ hreloaded
    exact (not_and_or.mp hplain).imp_right Bool.eq_true_of_not_eq_false

end Outcomes

/--
After startup the settings are usable if the last load succeeded; after a reload
that failed they are if it was asked for by an option, and the file that was
loaded first covers what there is; and only then.
-/
theorem usableSettings_iff (writeconfig : Bool) (first reloaded : Disk) :
    UsableSettings writeconfig first reloaded ↔
      Loads reloaded ∨ Loads first ∧ (writeconfig = false ∨ Covers first reloaded) := by
  by_cases hreloaded : Loads reloaded
  · exact iff_of_true (usableSettings_of_last hreloaded) (.inl hreloaded)
  rw [or_iff_right hreloaded]
  by_cases hfirst : Loads first
  · rw [and_iff_right hfirst]
    cases writeconfig with
    | false => exact iff_of_true (usableSettings_of_loads hfirst) (.inl rfl)
    | true => rw [usableSettings_of_fallback hfirst hreloaded, or_iff_right nofun]
  · exact iff_of_false (not_usableSettings_of_rejected hfirst hreloaded) fun h => hfirst h.1

def rejectedFile : Disk :=
  ⟨some ⟨ascii "[SETTINGS]\nCAN_FILTER_207=1\nREDIS_HOST\n", true, false⟩, true⟩

theorem rejectedFile_unusable :
    ¬ UsableSettings false rejectedFile rejectedFile ∧
      (ConfigInstance.startUp false rejectedFile rejectedFile).shown.get .canSocketIfName = [] ∧
      ascii "settings=can_filter_207" ∈
        (ConfigInstance.startUp false rejectedFile rejectedFile).shown.rawConfigMap := by
  have herror : (INIReader.ofFile rejectedFile).error ≠ 0 := by decide +kernel
  have hrejected : ¬ Loads rejectedFile := mt (error_ofFile_iff rejectedFile).mpr herror
  exact ⟨not_usableSettings_of_rejected hrejected hrejected, by decide +kernel, by decide +kernel⟩

/-! ## Startup that nobody disturbs -/

/-- In `main` the second load finds what was written, or the first file again. -/
theorem loadConfig_eq_startUp {args : List Bytes} (hhelp : ascii "-help" ∉ args)
    (hversion : ascii "-version" ∉ args) (disk : Disk) :
    (Main.loadConfig args disk).1 =
      some (ConfigInstance.startUp (ascii "-writeconfig" ∈ args) disk
        (ConfigInstance.new.loadDefaults.writeConfigFile disk)).shown := by
  rw [Main.loadConfig, if_neg hhelp, if_neg hversion, ConfigInstance.startUp]
  simp only [decide_eq_true_eq]
  split
  · rfl
  · rfl

section Undisturbed

variable {disk : Disk}

theorem loads_writeConfigFile_iff (hopens : disk.opens = true) :
    Loads (ConfigInstance.new.loadDefaults.writeConfigFile disk) ↔ disk.rereads = true := by
  have hfile := configFile_writeConfigFile hopens ConfigInstance.new.loadDefaults
  constructor
  · rintro ⟨file, hwritten, hreadable, -⟩
    rw [hfile] at hwritten
    rwa [← Option.some.inj hwritten] at hreadable
  · exact fun hrereads => ⟨_, hfile, hrereads, linesParse_defaultText⟩

theorem rereads_of_accepted (h : Loads disk) : disk.rereads = true := by
  have hloads : (ConfigInstance.new.loadConfigFile disk).1 = true := by
    rw [loadConfigFile_of_accepted h]
  exact rereads_of_loads hloads

theorem loads_undisturbed_iff :
    Loads (ConfigInstance.new.loadDefaults.writeConfigFile disk) ↔
      Loads disk ∨ disk.opens = true ∧ disk.rereads = true := by
  by_cases hopens : disk.opens = true
  · rw [loads_writeConfigFile_iff hopens, and_iff_right hopens]
    exact (or_iff_right_of_imp rereads_of_accepted).symm
  · rw [writeConfigFile_of_not_opens hopens]
    exact (or_iff_left fun h => hopens h.1).symm

theorem usableSettings_undisturbed_iff (writeconfig : Bool) (disk : Disk) :
    UsableSettings writeconfig disk (ConfigInstance.new.loadDefaults.writeConfigFile disk) ↔
      Loads disk ∨ disk.opens = true ∧ disk.rereads = true := by
  rw [← loads_undisturbed_iff]
  by_cases hwritten : Loads (ConfigInstance.new.loadDefaults.writeConfigFile disk)
  · exact iff_of_true (usableSettings_of_last hwritten) hwritten
  · refine iff_of_false (not_usableSettings_of_rejected ?_ hwritten) hwritten
    exact fun hdisk => hwritten (loads_undisturbed_iff.mpr (.inl hdisk))

end Undisturbed

end Can2Rest.Properties
