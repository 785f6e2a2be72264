import Can2Rest.Endpoints
import Can2Rest.Shared.Json11RoundTrip

/-!
# Ports

The two validators admit 65536.  One of them replaces a number that it rejects
by a valid port; the other leaves the port as it was, which is 0 at the start.
-/

namespace Can2Rest.Properties

open Foundation Shared

def ValidPort (port : Int) : Prop := 1 ≤ port ∧ port ≤ 65535

instance (port : Int) : Decidable (ValidPort port) := by
  unfold ValidPort
  infer_instance

/-- What the web server listens on, and what the Redis worker connects to. -/
structure ValidPorts (config : ConfigParser) : Prop where
  listens : ValidPort (Main.bindSettings config).port
  connects : ValidPort (Main.connectionDetails config).redisPort

theorem validPort_setBindSettings_iff (bindHost : Bytes) (port : Int) :
    ValidPort (RestApi.setBindSettings bindHost port).port ↔ port ≠ 65536 := by
  unfold RestApi.setBindSettings ValidPort
  dsimp only
  split
  next h => omega
  next h => omega

theorem setConnectionDetails_of_admitted {details : RedisInterface.ConnectionDetails}
    {redisHost : Bytes} {port : Int} (hhost : redisHost ≠ []) (hpositive : 0 < port)
    (hport : port ≤ 65536) :
    RedisInterface.setConnectionDetails details redisHost port = ⟨redisHost, port⟩ := by
  rw [RedisInterface.setConnectionDetails, if_neg hhost, if_neg (by omega)]

theorem setConnectionDetails_of_rejected {details : RedisInterface.ConnectionDetails}
    {redisHost : Bytes} {port : Int} (h : redisHost = [] ∨ port ≤ 0 ∨ 65536 < port) :
    RedisInterface.setConnectionDetails details redisHost port = details := by
  unfold RedisInterface.setConnectionDetails
  split
  · rfl
  next hhost => exact if_pos (h.resolve_left hhost)

theorem validPort_setConnectionDetails_iff {details : RedisInterface.ConnectionDetails}
    (hdetails : ¬ ValidPort details.redisPort) (redisHost : Bytes) (port : Int) :
    ValidPort (RedisInterface.setConnectionDetails details redisHost port).redisPort ↔
      redisHost ≠ [] ∧ ValidPort port := by
  by_cases h : redisHost = [] ∨ port ≤ 0 ∨ 65536 < port
  · rw [setConnectionDetails_of_rejected h]
    refine iff_of_false hdetails ?_
    rintro ⟨hhost, hlower, hupper⟩
    rcases h with h | h | h
    · exact hhost h
    · omega
    · omega
  · obtain ⟨hhost, hport⟩ := not_or.mp h
    rw [setConnectionDetails_of_admitted hhost (by omega) (by omega)]
    exact (and_iff_right hhost).symm

/-- The number that is read is a valid port, or the validator is one that replaces it. -/
theorem validPorts_iff (config : ConfigParser) :
    ValidPorts config ↔
      config.getIntNocheck .restWebserverBindPort ≠ 65536 ∧
        config.get .redisHost ≠ [] ∧ ValidPort (config.getIntNocheck .redisPort) := by
  have hlistens := validPort_setBindSettings_iff (config.get .restWebserverBindHost)
    (config.getIntNocheck .restWebserverBindPort)
  have hinitial : ¬ ValidPort RedisInterface.ConnectionDetails.initial.redisPort := by decide
  have hconnects := validPort_setConnectionDetails_iff hinitial
    (config.get .redisHost) (config.getIntNocheck .redisPort)
  constructor
  · rintro ⟨hweb, hredis⟩
    exact ⟨hlistens.mp hweb, hconnects.mp hredis⟩
  · rintro ⟨hweb, hredis⟩
    exact ⟨hlistens.mpr hweb, hconnects.mpr hredis⟩

/-- The port of the web server is one too large, and that of Redis is no number. -/
def wrongPorts : ConfigParser :=
  .loadConfigFile (INIReader.read
    [(ascii "SETTINGS", ascii "REST_WEBSERVER_BIND_PORT", ascii "65536"),
     (ascii "SETTINGS", ascii "REDIS_HOST", ascii "127.0.0.1"),
     (ascii "SETTINGS", ascii "REDIS_PORT", ascii "redis")])

theorem wrongPorts_used :
    (Main.bindSettings wrongPorts).port = 65536 ∧
      Main.connectionDetails wrongPorts = ⟨[], 0⟩ ∧ ¬ ValidPorts wrongPorts := by
  have hport : wrongPorts.getIntNocheck .restWebserverBindPort = 65536 := by decide +kernel
  have hredis : wrongPorts.getIntNocheck .redisPort = 0 := by decide +kernel
  have hlistens : (Main.bindSettings wrongPorts).port = 65536 := by
    rw [Main.bindSettings, hport]
    rfl
  refine ⟨hlistens, setConnectionDetails_of_rejected (.inr (.inl hredis.le)), fun h => ?_⟩
  have hvalid := h.listens
  rw [hlistens] at hvalid
  exact absurd hvalid (by decide)

/-! ## Numerals -/

theorem getIntNocheck_of_numeral {config : ConfigParser} {entry : CfgEntry} {n : Nat}
    (hentry : config.get entry = toDecimal n) (hn : n < 2 ^ 31) :
    config.getIntNocheck entry = n := by
  have hvalue : atoi (toDecimal n) = n := by
    rw [atoi_digits (fun c hc => isDigit_of_mem_toDecimal hc) (by rwa [ofDigits_toDecimal]),
      ofDigits_toDecimal]
  rw [ConfigParser.getIntNocheck, ConfigParser.getInt, hentry, if_pos (toDecimal_ne_nil n), hvalue]
  rfl

theorem ports_of_numerals {config : ConfigParser} {web redis : Nat}
    (hweb : config.get .restWebserverBindPort = toDecimal web) (hwebPort : ValidPort web)
    (hhost : config.get .redisHost ≠ []) (hredis : config.get .redisPort = toDecimal redis)
    (hredisPort : ValidPort redis) :
    (Main.bindSettings config).port = web ∧
      Main.connectionDetails config = ⟨config.get .redisHost, redis⟩ := by
  obtain ⟨hwebLower, hwebUpper⟩ := hwebPort
  obtain ⟨hredisLower, hredisUpper⟩ := hredisPort
  constructor
  · rw [Main.bindSettings, getIntNocheck_of_numeral hweb (by omega), RestApi.setBindSettings]
    exact if_neg (by omega)
  · rw [Main.connectionDetails, getIntNocheck_of_numeral hredis (by omega)]
    exact setConnectionDetails_of_admitted hhost (by omega) (by omega)

end Can2Rest.Properties
