import Can2Rest.Main
import Can2Rest.RestApi

/-!
# Hosts and ports

This file models `rest_api::set_bind_settings` and
`redis_interface::set_connection_details` with their calls in `main`.  Each of
the two threads takes host and port from the settings as they are.
-/

namespace Can2Rest

open Foundation

namespace RestApi

/-- The members `host` and `port`, which `listen` is called with. -/
structure BindSettings where
  host : Bytes := ascii "0.0.0.0"
  port : Int := 4242
  deriving DecidableEq

/-- `set_bind_settings` replaces both members. -/
def setBindSettings (bindHost : Bytes) (port : Int) : BindSettings where
  host := if bindHost = [] then ascii "127.0.0.0" else bindHost
  port := if port ≤ 0 ∨ port > 65536 then 4242 else port

end RestApi

namespace RedisInterface

/-- The members `redis_host` and `redis_port`, which the worker connects to. -/
structure ConnectionDetails where
  redisHost : Bytes
  redisPort : Int
  deriving DecidableEq

/-- `redis_port` has no initialiser; that of the global object is zero. -/
def ConnectionDetails.initial : ConnectionDetails := ⟨[], 0⟩

def setConnectionDetails (details : ConnectionDetails) (redisHost : Bytes) (port : Int) :
    ConnectionDetails :=
  if redisHost = [] then details
  else if port ≤ 0 ∨ port > 65536 then details
  else ⟨redisHost, port⟩

end RedisInterface

namespace Main

def bindSettings (config : ConfigParser) : RestApi.BindSettings :=
  RestApi.setBindSettings (config.get .restWebserverBindHost)
    (config.getIntNocheck .restWebserverBindPort)

def connectionDetails (config : ConfigParser) : RedisInterface.ConnectionDetails :=
  RedisInterface.setConnectionDetails .initial (config.get .redisHost)
    (config.getIntNocheck .redisPort)

end Main

end Can2Rest
