import Can2Rest.Main
import Can2Rest.Shared.Inih

/-!
# Startup

This file models the loading of `./can2rest_config.ini` by `main` and the
functions of `config_parser.cpp` that write this file.  The command line is what
`loguru::init` leaves of it.
-/

namespace Can2Rest

open Foundation Shared

/-- A configuration file; one that can be opened for writing takes any text. -/
structure ConfigFile where
  content : Bytes
  readable : Bool
  writable : Bool
  deriving DecidableEq

/-- The configuration file, if there is one, and whether a missing one can be created. -/
structure Disk where
  configFile : Option ConfigFile
  creatable : Bool
  deriving DecidableEq

namespace Disk

/-- Whether `writeConfigFile` can open its file, which is what it returns. -/
def opens (disk : Disk) : Bool :=
  match disk.configFile with
  | some file => file.writable
  | none => disk.creatable

/-- Whether the file can be read once it was written. -/
def rereads (disk : Disk) : Bool :=
  match disk.configFile with
  | some file => file.readable
  | none => true

end Disk

/-- `ParseError()` and the value map of an `INIReader`. -/
structure INIReader.Loaded where
  error : Int
  values : StringMap

def INIReader.ofFile (disk : Disk) : INIReader.Loaded :=
  match disk.configFile with
  | some file =>
      if file.readable then
        let parsed := Inih.parseStream file.content
        ⟨parsed.error, INIReader.read parsed.handled⟩
      else ⟨-1, ∅⟩
  | none => ⟨-1, ∅⟩

namespace CfgEntry

def all : List CfgEntry :=
  [.canSocketIfName, .canDisablePacketFilter, .restWebserverEnable, .restWebserverBindPort,
    .restWebserverBindHost, .redisEnable, .redisHost, .redisPort, .redisFieldPrefix,
    .redisEnableWrite, .redisHashName]

theorem mem_all (entry : CfgEntry) : entry ∈ all := by cases entry <;> decide

theorem nodup_all : all.Nodup := by decide

theorem name_injective : Function.Injective name := by
  have hnames : ∀ first ∈ all, ∀ second ∈ all, first.name = second.name → first = second := by
    decide
  exact fun first second h => hnames first (mem_all first) second (mem_all second) h

def defaultValue : CfgEntry → Bytes
  | .canSocketIfName => ascii "can0"
  | .canDisablePacketFilter => ascii "1"
  | .restWebserverEnable => ascii "1"
  | .restWebserverBindPort => ascii "4242"
  | .restWebserverBindHost => ascii "0.0.0.0"
  | .redisEnable => ascii "1"
  | .redisHost => ascii "127.0.0.1"
  | .redisPort => ascii "6379"
  | .redisFieldPrefix => []
  | .redisEnableWrite => ascii "1"
  | .redisHashName => ascii "CAN"

end CfgEntry

/-- `toJson`, of a store that holds every entry. -/
def ConfigParser.toJson (config : ConfigParser) : Bytes :=
  let settings := CfgEntry.all.foldl
    (fun map entry => Json.assign entry.name (.string (config.get entry)) map) []
  (Json.object [(ascii "SETTINGS", .object settings)]).dump

def iniFileComments : Bytes :=
  ascii "# ENABLE_PACKET_FILTER \n# CAN_FILTER_<ID>=1\n" ++
  ascii "# DISABLE_PACKET_FILTER=0\n# CAN_FILTER_<ID>=0\n" ++
  ascii "# AUTO_TYPE_CONVERSION \n# CAN_CONVERSION_<ID>=INT\n# CAN_CONVERSION_<ID>=STR\n" ++
  ascii "# CAN_CONVERSION_<ID>=BOOL\n# CAN_CONVERSION_<ID>=BYTE\n\n"

structure ConfigInstance where
  cfgLoadedSuccess : Bool
  parser : ConfigParser

namespace ConfigInstance

def new : ConfigInstance := ⟨false, ⟨fun _ => [], ∅⟩⟩

def loadConfigFile (config : ConfigInstance) (disk : Disk) : Bool × ConfigInstance :=
  let reader := INIReader.ofFile disk
  if reader.error ≠ 0 then
    (false, { config with parser := { config.parser with rawConfigMap := reader.values } })
  else (true, ⟨true, ConfigParser.loadConfigFile reader.values⟩)

def loadDefaults (config : ConfigInstance) : ConfigInstance :=
  { config with parser := { config.parser with configStore := CfgEntry.defaultValue } }

def text (config : ConfigInstance) : Bytes :=
  iniFileComments ++ ascii "\n" ++ ascii "[SETTINGS]\n" ++
    CfgEntry.all.flatMap fun entry =>
      entry.name ++ ascii "=" ++ config.parser.configStore entry ++ ascii "\n"

def writeConfigFile (config : ConfigInstance) (disk : Disk) : Disk :=
  match disk.configFile with
  | some file =>
      if file.writable then
        { disk with configFile := some { file with content := config.text } }
      else disk
  | none =>
      if disk.creatable then { disk with configFile := some ⟨config.text, true, true⟩ }
      else disk

/-- `set`, with the path of the configuration file. -/
def set (config : ConfigInstance) (entry : CfgEntry) (value : Bytes) (disk : Disk) :
    ConfigInstance × Disk :=
  let updated : ConfigInstance :=
    { config with
      parser :=
        { config.parser with
          configStore := Function.update config.parser.configStore entry value } }
  (updated, updated.writeConfigFile disk)

/-- `createConfigFile`, with the file loaded directly. -/
def createConfigFile (config : ConfigInstance) (disk : Disk) : ConfigInstance × Disk :=
  let written := config.writeConfigFile disk
  ((config.loadConfigFile written).2, written)

/--
The loading in `main`, where the write may fail and others may change the file
after it: `reloaded` is what the second load finds.
-/
def startUp (writeconfig : Bool) (first reloaded : Disk) : ConfigInstance :=
  let loaded := new.loadConfigFile first
  if loaded.1 = false ∨ writeconfig = true then
    (loaded.2.loadDefaults.loadConfigFile reloaded).2
  else loaded.2

/-- The configuration as `get` and `get_raw_config_map` show it. -/
def shown (config : ConfigInstance) : ConfigParser :=
  if config.cfgLoadedSuccess then config.parser
  else { config.parser with configStore := fun _ => [] }

end ConfigInstance

namespace Main

/-- The loading of the configuration, unless the process ends before it. -/
def loadConfig (args : List Bytes) (disk : Disk) : Option ConfigParser × Disk :=
  if ascii "-help" ∈ args then (none, disk)
  else if ascii "-version" ∈ args then (none, disk)
  else
    let loaded := ConfigInstance.new.loadConfigFile disk
    if loaded.1 = false ∨ ascii "-writeconfig" ∈ args then
      let created := loaded.2.loadDefaults.createConfigFile disk
      (some created.1.shown, created.2)
    else (some loaded.2.shown, disk)

end Main

end Can2Rest
