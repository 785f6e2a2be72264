import Can2Rest.Foundation.Maps
import Can2Rest.Foundation.Text
import Mathlib.Data.List.Induction

/-!
# The configuration

This file models what the program reads of its configuration file:
`config_parser.cpp` over the value map of `INIReader`, whose keys are
`section=name` in lower case.
-/

namespace Can2Rest

open Foundation

inductive CfgEntry where
  | canSocketIfName
  | canDisablePacketFilter
  | restWebserverEnable
  | restWebserverBindPort
  | restWebserverBindHost
  | redisEnable
  | redisHost
  | redisPort
  | redisFieldPrefix
  | redisEnableWrite
  | redisHashName
  deriving DecidableEq

/-- `magic_enum::enum_name`. -/
def CfgEntry.name : CfgEntry → Bytes
  | .canSocketIfName => ascii "CAN_SOCKET_IF_NAME"
  | .canDisablePacketFilter => ascii "CAN_DISABLE_PACKET_FILTER"
  | .restWebserverEnable => ascii "REST_WEBSERVER_ENABLE"
  | .restWebserverBindPort => ascii "REST_WEBSERVER_BIND_PORT"
  | .restWebserverBindHost => ascii "REST_WEBSERVER_BIND_HOST"
  | .redisEnable => ascii "REDIS_ENABLE"
  | .redisHost => ascii "REDIS_HOST"
  | .redisPort => ascii "REDIS_PORT"
  | .redisFieldPrefix => ascii "REDIS_FIELD_PREFIX"
  | .redisEnableWrite => ascii "REDIS_ENABLE_WRITE"
  | .redisHashName => ascii "REDIS_HASH_NAME"

/-! ## The INI reader -/

namespace INIReader

def tolower (c : UInt8) : UInt8 := if 65 ≤ c ∧ c ≤ 90 then c + 32 else c

def makeKey (iniSection name : Bytes) : Bytes :=
  (iniSection ++ ascii "=" ++ name).map tolower

/-- The value of a key that occurs again is appended after a line break. -/
def valueHandler (values : StringMap) (entry : Bytes × Bytes × Bytes) : StringMap :=
  let key := makeKey entry.1 entry.2.1
  let old := values[key]?.getD []
  values.insert key ((if old = [] then [] else old ++ ascii "\n") ++ entry.2.2)

def read (entries : List (Bytes × Bytes × Bytes)) : StringMap :=
  entries.foldl valueHandler ∅

def get (values : StringMap) (iniSection name default : Bytes) : Bytes :=
  values[makeKey iniSection name]?.getD default

theorem getElem?_valueHandler (values : StringMap) (entry : Bytes × Bytes × Bytes)
    (key : Bytes) :
    (valueHandler values entry)[key]? =
      if makeKey entry.1 entry.2.1 = key then
        let old := values[key]?.getD []
        some ((if old = [] then [] else old ++ ascii "\n") ++ entry.2.2)
      else values[key]? := by
  rw [valueHandler, getElem?_insert]
  split
  next h => rw [h]
  next => rfl

theorem read_concat (entries : List (Bytes × Bytes × Bytes)) (entry : Bytes × Bytes × Bytes) :
    read (entries ++ [entry]) = valueHandler (read entries) entry := by
  rw [read, List.foldl_append]
  rfl

theorem mem_read_iff {entries : List (Bytes × Bytes × Bytes)} {key : Bytes} :
    key ∈ read entries ↔ ∃ entry ∈ entries, makeKey entry.1 entry.2.1 = key := by
  induction entries using List.reverseRecOn with
  | nil => simp [read]
  | append_singleton entries entry ih =>
      rw [read_concat, valueHandler, Std.ExtTreeMap.mem_insert, ih]
      simp [or_comm]

end INIReader

/-- A `config_parser` after a file was loaded. -/
structure ConfigParser where
  configStore : CfgEntry → Bytes
  rawConfigMap : StringMap

namespace ConfigParser

/-- `loadConfigFile`, for a file that was parsed without error. -/
def loadConfigFile (values : StringMap) : ConfigParser where
  configStore entry := INIReader.get values (ascii "SETTINGS") entry.name []
  rawConfigMap := values

def get (config : ConfigParser) (entry : CfgEntry) : Bytes := config.configStore entry

def getBool (config : ConfigParser) (entry : CfgEntry) : Option Bool :=
  let value := config.get entry
  if value ≠ [] then
    if value = ascii "true" ∨ value = ascii "TRUE" ∨ value = ascii "True" then some true
    else if value = ascii "false" ∨ value = ascii "FALSE" ∨ value = ascii "False" then
      some false
    else some (atoi value > 0)
  else none

def getBoolNocheck (config : ConfigParser) (entry : CfgEntry) : Bool :=
  (config.getBool entry).getD false

def getInt (config : ConfigParser) (entry : CfgEntry) : Option Int :=
  let value := config.get entry
  if value ≠ [] then some (atoi value) else none

def getIntNocheck (config : ConfigParser) (entry : CfgEntry) : Int :=
  (config.getInt entry).getD 0

end ConfigParser

end Can2Rest
