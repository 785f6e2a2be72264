import Can2Rest.Bridge

/-!
# The send queue

This file models `frame_send_queue.cpp`.  Every encoder declares a frame,
assigns its first bytes and pushes it; the bytes it does not assign keep the
value the declaration left in them.
-/

namespace Can2Rest

open Foundation Shared

/-- A `CanFrame` declared without initialiser whose first bytes were assigned. -/
def Shared.CanFrame.assemble (id : UInt16) (declared : Vector UInt8 64) (bytes : Bytes)
    (h : bytes.length ≤ 64) : CanFrame where
  id := id.toUInt32
  len := UInt8.ofNat bytes.length
  flags := 0
  data := Vector.ofFn fun i => bytes.getD i declared[i]
  len_le := by
    rw [UInt8.le_iff_toNat_le, UInt8.toNat_ofNat']
    exact le_trans (Nat.mod_le _ _) h

@[simp] theorem Shared.CanFrame.payload_assemble (id : UInt16)
    (declared : Vector UInt8 64) (bytes : Bytes) (h : bytes.length ≤ 64) :
    (CanFrame.assemble id declared bytes h).payload = bytes := by
  have hlen : (UInt8.ofNat bytes.length).toNat = bytes.length := by
    rw [UInt8.toNat_ofNat', Nat.mod_eq_of_lt (by omega)]
  apply List.ext_getElem
  · simp [CanFrame.payload, CanFrame.assemble, hlen, h]
  intro i hpayload hbytes
  simp [CanFrame.payload, CanFrame.assemble, hbytes]

namespace FrameSendQueue

/-- `int len` put into 0..64. -/
def clamp (len : Int) : Int :=
  let len := if len > 64 then 64 else len
  if len < 0 then 0 else len

def clampedLen (size : Nat) : Int := clamp (asInt size)

theorem clampedLen_le (size : Nat) : clampedLen size ≤ 64 := by
  simp only [clampedLen, clamp]
  split <;> split <;> omega

theorem clampedLen_eq_self {size : Nat} (h : size ≤ 64) :
    clampedLen size = size := by
  rw [clampedLen, asInt_eq_self (by omega), clamp]
  split <;> split <;> omega

/-- The bytes that the copy loop of an encoder assigns. -/
def clamped (value : Bytes) : Bytes := value.take (clampedLen value.length).toNat

theorem length_clamped_le (value : Bytes) : (clamped value).length ≤ 64 := by
  have h := clampedLen_le value.length
  simp only [clamped, List.length_take]
  omega

theorem clamped_eq_self {value : Bytes} (h : value.length ≤ 64) :
    clamped value = value := by
  rw [clamped, clampedLen_eq_self h, Int.toNat_natCast, List.take_length]

/-- The low byte, then the high byte. -/
def int16Bytes (value : Int16) : Bytes :=
  [(value.toUInt16 &&& 0x00FF).toUInt8, ((value.toUInt16 &&& 0xFF00) >>> 8).toUInt8]

/-- The message that an encoder pushes; `ts` of it is never read. -/
def queued (frame : CanFrame) (hash : Bytes) (type : ConversationType) :
    CanMessage where
  frame := frame
  syncTick := 0
  ts := 0
  hash := hash
  valid := false
  messageReceieved := .send
  type := type

def declareData : Code (Vector UInt8 64) :=
  Prog.perform (I := Sections) .declareData

def push (msg : CanMessage) : Code Unit :=
  Prog.perform (I := Sections) (.queuePush msg)

def messageQueued : Code Int := Prog.perform (I := Sections) .queueSize

/-- Of the encoders only this one sets the hash of its message. -/
def enqueueInt16 (id : UInt16) (value : Int16) : Code Bool := do
  let declared ← declareData
  let frame := CanFrame.assemble id declared (int16Bytes value) (by simp [int16Bytes])
  let hash ← digest .frameQueue frame.payload
  push (queued frame hash .int)
  return true

def enqueueBool (id : UInt16) (value : Bool) : Code Bool := do
  let declared ← declareData
  push (queued (CanFrame.assemble id declared [value.toUInt8] (by simp)) [] .bool)
  return true

def enqueueBytes (id : UInt16) (value : Bytes) : Code Bool := do
  let declared ← declareData
  push (queued (CanFrame.assemble id declared (clamped value) (length_clamped_le value)) []
    .str)
  return true

def enqueueArray (id : UInt16) (value : Bytes) : Code Bool := do
  let declared ← declareData
  push (queued (CanFrame.assemble id declared (clamped value) (length_clamped_le value)) []
    .byte)
  return true

def pop : Code (Option CanMessage) := Prog.perform (I := Sections) .queuePop

/--
The front of an empty queue is undefined; it is never taken, since no other
thread pops between the test and `front`.
-/
def dequeue : Code CanMessage := do
  let sz ← messageQueued
  if sz > 0 then
    match ← pop with
    | some msg => return { msg with valid := true }
    | none => return { CanMessage.zero with valid := false }
  else return { CanMessage.zero with valid := false }

/-! ## What the operations do alone -/

def int16Message (id : UInt16) (value : Int16) (declared : Vector UInt8 64) :
    CanMessage :=
  queued (CanFrame.assemble id declared (int16Bytes value) (by simp [int16Bytes]))
    (Shared.sha256 (int16Bytes value)) .int

def boolMessage (id : UInt16) (value : Bool) (declared : Vector UInt8 64) :
    CanMessage :=
  queued (CanFrame.assemble id declared [value.toUInt8] (by simp)) [] .bool

def bytesMessage (id : UInt16) (value : Bytes) (declared : Vector UInt8 64) :
    CanMessage :=
  queued (CanFrame.assemble id declared (clamped value) (length_clamped_le value)) []
    .str

def arrayMessage (id : UInt16) (value : Bytes) (declared : Vector UInt8 64) :
    CanMessage :=
  queued (CanFrame.assemble id declared (clamped value) (length_clamped_le value)) []
    .byte

@[simp] theorem payload_int16Message (id : UInt16) (value : Int16)
    (declared : Vector UInt8 64) :
    (int16Message id value declared).frame.payload = int16Bytes value := by
  simp [int16Message, queued]

@[simp] theorem payload_boolMessage (id : UInt16) (value : Bool)
    (declared : Vector UInt8 64) :
    (boolMessage id value declared).frame.payload = [value.toUInt8] := by
  simp [boolMessage, queued]

@[simp] theorem payload_bytesMessage (id : UInt16) (value : Bytes)
    (declared : Vector UInt8 64) :
    (bytesMessage id value declared).frame.payload = clamped value := by
  simp [bytesMessage, queued]

@[simp] theorem run_declareData (env : Env) (state : Bridge) :
    declareData.run bridge env state = (env.uninitialized, state) := rfl

@[simp] theorem run_push (env : Env) (msg : CanMessage) (state : Bridge) :
    (push msg).run bridge env state = ((), state.queuePush msg) := rfl

@[simp] theorem run_pop (env : Env) (state : Bridge) :
    pop.run bridge env state = state.queuePop := rfl

@[simp] theorem run_messageQueued (env : Env) (state : Bridge) :
    messageQueued.run bridge env state =
      (asInt state.messageQueue.length, state) := by
  rw [messageQueued, Prog.run_perform, bridge]

def hashedState (state : Bridge) (bytes : Bytes) : Bridge :=
  state.setSha .frameQueue (SHA256.reset.add bytes)

@[simp] theorem run_enqueueInt16 (env : Env) (id : UInt16) (value : Int16)
    (state : Bridge) :
    (enqueueInt16 id value).run bridge env state =
      (true, (hashedState state (int16Bytes value)).queuePush
        (int16Message id value env.uninitialized)) := by
  simp only [enqueueInt16, Prog.run_bind, run_declareData, run_digest, run_push,
    Prog.run_pure, CanFrame.payload_assemble, int16Message, hashedState]

@[simp] theorem run_enqueueBool (env : Env) (id : UInt16) (value : Bool)
    (state : Bridge) :
    (enqueueBool id value).run bridge env state =
      (true, state.queuePush (boolMessage id value env.uninitialized)) := by
  simp only [enqueueBool, Prog.run_bind, run_declareData, run_push,
    Prog.run_pure, boolMessage]

@[simp] theorem run_enqueueBytes (env : Env) (id : UInt16) (value : Bytes)
    (state : Bridge) :
    (enqueueBytes id value).run bridge env state =
      (true, state.queuePush (bytesMessage id value env.uninitialized)) := by
  simp only [enqueueBytes, Prog.run_bind, run_declareData, run_push,
    Prog.run_pure, bytesMessage]

@[simp] theorem run_enqueueArray (env : Env) (id : UInt16) (value : Bytes)
    (state : Bridge) :
    (enqueueArray id value).run bridge env state =
      (true, state.queuePush (arrayMessage id value env.uninitialized)) := by
  simp only [enqueueArray, Prog.run_bind, run_declareData, run_push,
    Prog.run_pure, arrayMessage]

/-- A negative or zero `message_queued()` hides the queue. -/
def Hidden (state : Bridge) : Prop := asInt state.messageQueue.length ≤ 0

theorem hidden_of_nil {state : Bridge} (h : state.messageQueue = []) :
    Hidden state := by
  rw [Hidden, h, List.length_nil, asInt_eq_self (by omega)]
  rfl

theorem run_dequeue_of_hidden {env : Env} {state : Bridge} (h : Hidden state) :
    dequeue.run bridge env state =
      ({ CanMessage.zero with valid := false }, state) := by
  have hsize : ¬ asInt state.messageQueue.length > 0 := by
    rw [Hidden] at h
    exact Int.not_lt.mpr h
  simp only [dequeue, Prog.run_bind, run_messageQueued, if_neg hsize, Prog.run_pure]

theorem run_dequeue {env : Env} {state : Bridge} {msg : CanMessage}
    {rest : List CanMessage} (hqueue : state.messageQueue = msg :: rest)
    (h : ¬ Hidden state) :
    dequeue.run bridge env state =
      ({ msg with valid := true }, state.popped msg rest) := by
  have hsize : asInt state.messageQueue.length > 0 := by
    rw [Hidden] at h
    exact Int.not_le.mp h
  have hpop : state.queuePop = (some msg, state.popped msg rest) := by
    simp only [Bridge.queuePop, hqueue]
  simp only [dequeue, Prog.run_bind, run_messageQueued, if_pos hsize, run_pop, hpop,
    Prog.run_pure]

end FrameSendQueue

end Can2Rest
