import Can2Rest.Shared.Json11Parser
import Can2Rest.Startup

/-!
# The configuration as JSON

This file models `toJson` and `loadFromJson` of `config_parser.cpp`, over a store
that may miss entries.
-/

namespace Can2Rest

open Foundation Shared

structure ConfigState where
  cfgLoadedSuccess : Bool
  configStore : CfgEntry → Option Bytes

namespace ConfigState

/-- What `config_store[entry]` reads. -/
def value (config : ConfigState) (entry : CfgEntry) : Bytes :=
  (config.configStore entry).getD []

def store (config : ConfigState) (entry : CfgEntry) (value : Bytes) : ConfigState :=
  { config with configStore := Function.update config.configStore entry (some value) }

/-- `config_store[entry]`, which inserts a missing entry. -/
def index (config : ConfigState) (entry : CfgEntry) : Bytes × ConfigState :=
  match config.configStore entry with
  | some value => (value, config)
  | none => ([], config.store entry [])

def get (config : ConfigState) (entry : CfgEntry) : Bytes × ConfigState :=
  if config.cfgLoadedSuccess then config.index entry else ([], config)

def addEntry (settings : List (Bytes × Json) × ConfigState) (entry : CfgEntry) :
    List (Bytes × Json) × ConfigState :=
  let read := settings.2.index entry
  (Json.assign entry.name (.string read.1) settings.1, read.2)

def toJson (config : ConfigState) : Bytes × ConfigState :=
  let settings := CfgEntry.all.foldl addEntry ([], config)
  ((Json.object [(ascii "SETTINGS", .object settings.1)]).dump, settings.2)

def loadEntry (settings : List (Bytes × Json)) (config : ConfigState) (entry : CfgEntry) :
    ConfigState :=
  match Json.find entry.name settings with
  | some (.string value) => config.store entry value
  | _ => config

def loadFromObject (config : ConfigState) (object : List (Bytes × Json))
    (loadOnlyUserData : Bool) : Bool × ConfigState :=
  let loaded :=
    if loadOnlyUserData then config
    else
      match Json.find (ascii "SETTINGS") object with
      | some (.object settings) => CfgEntry.all.foldl (loadEntry settings) config
      | _ => config
  (true, { loaded with cfgLoadedSuccess := true })

/-- `loadFromJson`; a failed parse has a message, by `Json.parse_error_ne_nil`. -/
def loadFromJson (config : ConfigState) (jsonstr : Bytes) (loadOnlyUserData : Bool) :
    Bool × ConfigState :=
  if jsonstr = [] then (false, config)
  else
    match Json.parse (cStr jsonstr) with
    | .error _ => (false, config)
    | .ok root => config.loadFromObject root.objectItems loadOnlyUserData

/-! ## Reading the store -/

theorem value_store (config : ConfigState) (entry other : CfgEntry) (value : Bytes) :
    (config.store entry value).value other =
      if other = entry then value else config.value other := by
  change (Function.update config.configStore entry (some value) other).getD [] = _
  rw [Function.update_apply]
  split
  next => rfl
  next => rfl

theorem index_fst (config : ConfigState) (entry : CfgEntry) :
    (config.index entry).1 = config.value entry := by
  unfold index ConfigState.value
  cases config.configStore entry with
  | none => rfl
  | some value => rfl

theorem value_index (config : ConfigState) (entry other : CfgEntry) :
    (config.index entry).2.value other = config.value other := by
  unfold index
  split
  next => rfl
  next hmissing =>
      rw [value_store]
      split
      next h => rw [h, ConfigState.value, hmissing]; rfl
      next => rfl

theorem value_loaded (config : ConfigState) (entry : CfgEntry) :
    ({ config with cfgLoadedSuccess := true } : ConfigState).value entry = config.value entry :=
  rfl

theorem get_of_loaded {config : ConfigState} (h : config.cfgLoadedSuccess = true)
    (entry : CfgEntry) : (config.get entry).1 = config.value entry := by
  rw [get, if_pos h, index_fst]

end ConfigState

/-! ## Members of the settings -/

def settingsMembers (values : CfgEntry → Bytes) (entries : List CfgEntry)
    (members : List (Bytes × Json)) : List (Bytes × Json) :=
  entries.foldl (fun map entry => Json.assign entry.name (.string (values entry)) map) members

theorem ConfigState.foldl_addEntry (entries : List CfgEntry) (members : List (Bytes × Json))
    (config : ConfigState) :
    (entries.foldl addEntry (members, config)).1 =
      settingsMembers config.value entries members := by
  induction entries generalizing members config with
  | nil => rfl
  | cons entry entries ih =>
      have hvalue : (config.index entry).2.value = config.value :=
        funext (value_index config entry)
      rw [List.foldl_cons, addEntry, ih, hvalue, index_fst]
      rfl

theorem ConfigState.toJson_fst (config : ConfigState) (raw : StringMap) :
    config.toJson.1 = (ConfigParser.mk config.value raw).toJson := by
  rw [toJson, foldl_addEntry]
  rfl

end Can2Rest
