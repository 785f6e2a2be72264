import Can2Rest.CanHashtable
import Can2Rest.CanIdFilter
import Can2Rest.ConfigParser
import Can2Rest.FrameSendQueue
import Can2Rest.RedisInterface
import Mathlib.Data.List.Infix

/-!
# The main program

This file models `main` of `can2rest.cpp`: the setup from the configuration, and
the main loop.  Every pass of the loop begins with a read; a frame that was read
is processed and the next pass reads again, and when no frame is there the pass
sends at most one message of the queue.
-/

namespace Can2Rest

open Foundation Shared

/-- What the setup leaves for the main loop; storing to Redis is always enabled. -/
structure Setup where
  idFilter : CanIdFilter
  redis : RedisInterface
  enabled : redis.Enabled

/-- `fr` and `frame_sync_counter`, which only the main thread uses. -/
structure MainLocals where
  fr : CanFrame
  frameSyncCounter : UInt32
  deriving DecidableEq

namespace Main

/-! ## Setup -/

/-- The substring after the last `_`. -/
def lastToken (name : Bytes) : Bytes := (name.reverse.takeWhile (· ≠ 95)).reverse

theorem lastToken_append {before digits : Bytes} (h : 95 ∉ digits) :
    lastToken (before ++ 95 :: digits) = digits := by
  have hdigits : ∀ c ∈ digits.reverse, decide (c ≠ 95) = true := by
    intro c hc
    exact decide_eq_true (ne_of_mem_of_not_mem (List.mem_reverse.mp hc) h)
  have hreverse : (before ++ 95 :: digits).reverse = digits.reverse ++ 95 :: before.reverse := by
    simp
  rw [lastToken, hreverse, List.takeWhile_append_of_pos hdigits,
    List.takeWhile_cons_of_neg (by decide), List.append_nil, List.reverse_reverse]

/-- A search for `([a-zA-Z])*=can_filter_(\d)*` finds the literal part alone. -/
def filterSetting (entry : Bytes × Bytes) : Option (UInt16 × Bool) :=
  if ascii "=can_filter_" <:+: entry.1 ∧ lastToken entry.1 ≠ [] then
    some (UInt16.ofInt (atoi (lastToken entry.1)), atoi entry.2 ≠ 0)
  else none

def conversionType (value : Bytes) : ConversationType :=
  if value = ascii "INT" ∨ value = ascii "int" then .int
  else if value = ascii "STR" ∨ value = ascii "str" then .str
  else if value = ascii "BOOL" ∨ value = ascii "bool" then .bool
  else if value = ascii "BYTE" ∨ value = ascii "byte" then .byte
  else .raw

/-- The same scan for `([a-zA-Z])*=can_conversion_(\d)*`. -/
def conversionSetting (entry : Bytes × Bytes) : Option (UInt16 × ConversationType) :=
  if ascii "=can_conversion_" <:+: entry.1 ∧ lastToken entry.1 ≠ [] then
    some (UInt16.ofInt (atoi (lastToken entry.1)), conversionType entry.2)
  else none

def applyFilterEntry (filter : CanIdFilter) (entry : Bytes × Bytes) : CanIdFilter :=
  match filterSetting entry with
  | some (id, allow) => filter.setFilter id allow
  | none => filter

/-- The filter is default-allow when the web server is enabled. -/
def setupFilter (config : ConfigParser) : CanIdFilter :=
  config.rawConfigMap.toList.foldl applyFilterEntry
    (CanIdFilter.new.setInvertFilter (config.getBoolNocheck .restWebserverEnable))

def applyConversionEntry (register : TypeRegister) (entry : Bytes × Bytes) :
    TypeRegister :=
  match conversionSetting entry with
  | some (id, type) => register.insert id type
  | none => register

def setupRegister (config : ConfigParser) : TypeRegister :=
  config.rawConfigMap.toList.foldl applyConversionEntry
    ((∅ : TypeRegister).insert 200 .int)

def setup (config : ConfigParser) : Setup where
  idFilter := setupFilter config
  redis := ⟨true, true, config.get .redisFieldPrefix⟩
  enabled := ⟨rfl, rfl⟩

/-- The shared state when the main loop starts, with what the Redis server holds. -/
def initial (config : ConfigParser) (hash : StringMap) : Bridge :=
  .start (setupRegister config) hash

/-- The mode of the socket: `open` is called with the name of the interface alone. -/
def socketMode : SocketMode := .modeCanMtu

/-! ## The main loop -/

def syncFrameId : UInt32 := 42

def countFrame (counter : UInt32) (fr : CanFrame) : UInt32 :=
  let i := UInt32.ofNat fr.word
  let counter := if fr.id = syncFrameId ∧ i > counter then i else counter
  counter + 1

def now : Code Int := Prog.perform (I := Sections) .now

def read : Code (Option CanfdFrame) := Prog.perform (I := Sections) .canRead

def write (frame : CanfdFrame) : Code Bool :=
  Prog.perform (I := Sections) (.canWrite frame)

/-- The body of the read loop. -/
def receiveFrame (setup : Setup) (locals : MainLocals) (frame : CanfdFrame) :
    Code MainLocals := do
  let fr := locals.fr.receive frame
  if setup.idFilter.checkMessage (key fr.id) then
    let timestamp ← now
    let convMsg ← CanHashtable.put fr timestamp locals.frameSyncCounter.toUInt64 .got
    setup.redis.storeFrame convMsg
    return ⟨fr, countFrame locals.frameSyncCounter fr⟩
  else return { locals with fr := fr }

def autoRegister (msg : CanMessage) : Code Unit := do
  if ← CanFrameToJson.checkKeyExists (key msg.frame.id) then return ()
  else CanFrameToJson.registerConversion (key msg.frame.id) msg.type

/-- What follows the write. -/
def recordSent (setup : Setup) (counter : UInt32) (msg : CanMessage) : Code Unit := do
  autoRegister msg
  let timestamp ← now
  let _ ← CanHashtable.put msg.frame timestamp counter.toUInt64 msg.messageReceieved
  setup.redis.storeFrame msg

/-- The status of the write decides only whether an error is logged. -/
def sendMessage (setup : Setup) (counter : UInt32) : Code Unit := do
  let queued ← FrameSendQueue.messageQueued
  if queued > 0 then
    let msg ← FrameSendQueue.dequeue
    if msg.valid then
      let _ ← write msg.frame.transmit
      recordSent setup counter msg

def mainPass (setup : Setup) (locals : MainLocals) : Code MainLocals := do
  match ← read with
  | some frame => receiveFrame setup locals frame
  | none => do
      sendMessage setup locals.frameSyncCounter
      return locals

/-! ## What a pass does alone -/

@[simp] theorem run_now (env : Env) (state : Bridge) :
    now.run bridge env state = (env.now, state) := rfl

@[simp] theorem run_read (env : Env) (state : Bridge) :
    read.run bridge env state = state.canRead env := rfl

@[simp] theorem run_write (env : Env) (frame : CanfdFrame) (state : Bridge) :
    (write frame).run bridge env state = state.canWrite env frame := rfl

@[simps! typeRegister mp messageQueue writeMap redisServer]
def receivedState (setup : Setup) (state : Bridge) (msg : CanMessage) : Bridge :=
  setup.redis.storeState (CanHashtable.putState state msg) msg

theorem run_receiveFrame_rejected {setup : Setup} {locals : MainLocals}
    {frame : CanfdFrame} (h : setup.idFilter.checkMessage (key frame.canId) = false)
    (env : Env) (state : Bridge) :
    (receiveFrame setup locals frame).run bridge env state =
      ({ locals with fr := locals.fr.receive frame }, state) := by
  have hcheck : ¬ setup.idFilter.checkMessage
      (key (locals.fr.receive frame).id) = true := by
    rw [CanFrame.receive, h]
    exact Bool.false_ne_true
  simp only [receiveFrame, if_neg hcheck, Prog.run_pure]

def receivedMessage (env : Env) (locals : MainLocals) (frame : CanfdFrame) :
    CanMessage :=
  CanHashtable.putResult (locals.fr.receive frame) env.now
    locals.frameSyncCounter.toUInt64 .got

section ReceivedMessage

variable (env : Env) (locals : MainLocals) (frame : CanfdFrame)

@[simp] theorem receivedMessage_frame :
    (receivedMessage env locals frame).frame = locals.fr.receive frame := rfl

@[simp] theorem receivedMessage_syncTick :
    (receivedMessage env locals frame).syncTick = locals.frameSyncCounter.toUInt64 := rfl

@[simp] theorem receivedMessage_messageReceieved :
    (receivedMessage env locals frame).messageReceieved = .got := rfl

@[simp] theorem receivedMessage_hash :
    (receivedMessage env locals frame).hash = Shared.sha256 frame.payload := by
  rw [receivedMessage, CanHashtable.putResult_hash, payload_receive]

end ReceivedMessage

theorem run_receiveFrame {setup : Setup} {locals : MainLocals}
    {frame : CanfdFrame} (h : setup.idFilter.checkMessage (key frame.canId) = true)
    (env : Env) (state : Bridge) :
    (receiveFrame setup locals frame).run bridge env state =
      (⟨locals.fr.receive frame,
        countFrame locals.frameSyncCounter (locals.fr.receive frame)⟩,
       receivedState setup state (receivedMessage env locals frame)) := by
  have hcheck : setup.idFilter.checkMessage
      (key (locals.fr.receive frame).id) = true := h
  simp only [receiveFrame, if_pos hcheck, Prog.run_bind, run_now,
    CanHashtable.run_put, RedisInterface.run_storeFrame setup.enabled, Prog.run_pure]
  rfl

@[simps] def registerState (state : Bridge) (msg : CanMessage) : Bridge :=
  { state with
    typeRegister := state.typeRegister.insertIfNew (key msg.frame.id) msg.type }

theorem run_autoRegister (env : Env) (msg : CanMessage) (state : Bridge) :
    (autoRegister msg).run bridge env state = ((), registerState state msg) := by
  cases h : state.typeRegister[key msg.frame.id]? with
  | none =>
      have hnew : key msg.frame.id ∉ state.typeRegister := by
        simp [Std.ExtTreeMap.mem_iff_isSome_getElem?, h]
      simp [autoRegister, registerState, h, insertIfNew_of_not_mem hnew]
  | some type =>
      have hold : key msg.frame.id ∈ state.typeRegister := by
        simp [Std.ExtTreeMap.mem_iff_isSome_getElem?, h]
      simp [autoRegister, registerState, h, insertIfNew_of_mem hold]

def sentMessage (env : Env) (counter : UInt32) (msg : CanMessage) : CanMessage :=
  CanHashtable.putResult msg.frame env.now counter.toUInt64 msg.messageReceieved

def sentState (setup : Setup) (state : Bridge) (env : Env) (counter : UInt32)
    (msg : CanMessage) : Bridge :=
  setup.redis.storeState
    (CanHashtable.putState (registerState state msg) (sentMessage env counter msg)) msg

theorem run_recordSent (setup : Setup) (counter : UInt32) (msg : CanMessage)
    (env : Env) (state : Bridge) :
    (recordSent setup counter msg).run bridge env state =
      ((), sentState setup state env counter msg) := by
  simp only [recordSent, Prog.run_bind, run_autoRegister, run_now,
    CanHashtable.run_put, RedisInterface.run_storeFrame setup.enabled]
  rfl

theorem run_sendMessage_of_hidden {setup : Setup} {counter : UInt32} {env : Env}
    {state : Bridge} (h : FrameSendQueue.Hidden state) :
    (sendMessage setup counter).run bridge env state = ((), state) := by
  have hqueued : ¬ asInt state.messageQueue.length > 0 := by
    rw [FrameSendQueue.Hidden] at h
    exact Int.not_lt.mpr h
  simp only [sendMessage, Prog.run_bind, FrameSendQueue.run_messageQueued,
    if_neg hqueued]
  rfl

theorem run_sendMessage {setup : Setup} {counter : UInt32} {env : Env}
    {state : Bridge} {msg : CanMessage} {rest : List CanMessage}
    (hqueue : state.messageQueue = msg :: rest)
    (h : ¬ FrameSendQueue.Hidden state) :
    (sendMessage setup counter).run bridge env state =
      ((), sentState setup
        ((state.popped msg rest).canWrite env msg.frame.transmit).2 env counter
        { msg with valid := true }) := by
  have hqueued : asInt state.messageQueue.length > 0 := by
    rw [FrameSendQueue.Hidden] at h
    exact Int.not_le.mp h
  simp only [sendMessage, Prog.run_bind, FrameSendQueue.run_messageQueued,
    if_pos hqueued, FrameSendQueue.run_dequeue hqueue h, if_true, run_write,
    run_recordSent]

theorem run_mainPass_some {setup : Setup} {locals : MainLocals} {env : Env}
    {frame : CanfdFrame} (h : env.received = some frame) (state : Bridge) :
    (mainPass setup locals).run bridge env state =
      (receiveFrame setup locals frame).run bridge env (state.canRead env).2 := by
  simp only [mainPass, Prog.run_bind, run_read, Bridge.canRead_fst, h]

theorem run_mainPass_none {setup : Setup} {locals : MainLocals} {env : Env}
    (h : env.received = none) (state : Bridge) :
    (mainPass setup locals).run bridge env state =
      (locals, ((sendMessage setup locals.frameSyncCounter).run bridge env
        (state.canRead env).2).2) := by
  simp only [mainPass, Prog.run_bind, run_read, Bridge.canRead_fst, h, Prog.run_pure]

end Main

end Can2Rest
