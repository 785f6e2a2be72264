import Can2Rest.CanFrameToJson

/-!
# The Redis interface

This file models `redis_interface.cpp`.  `store_frame` runs in the main thread.
The worker thread is a loop inside a loop: a turn of it is one attempt to
connect, or one round of the inner loop, and an exception in a round leads back
to the outer loop and discards the local copy of the pending map.
-/

namespace Can2Rest

open Foundation Shared

/-- The settings of a `redis_interface`; none changes after the setup. -/
structure RedisInterface where
  enableWrite : Bool
  /-- `frame_json_ptr` is not null. -/
  frameJsonSet : Bool
  fieldPrefix : Bytes

namespace RedisInterface

/-- `write_map.insert` under `write_lock`. -/
def mapInsert (fieldPrefix : Bytes) (id : UInt32) (json : Bytes) : Code Unit :=
  Prog.perform (I := Sections) (.mapInsert fieldPrefix id json)

def storeFrame (redis : RedisInterface) (msg : CanMessage) : Code Unit := do
  if !redis.enableWrite then return ()
  else if !redis.frameJsonSet then return ()
  else
    let json ← CanFrameToJson.convertFrame msg
    if json ≠ [] then mapInsert redis.fieldPrefix msg.frame.id json
    else return ()

/-! ## The worker -/

/-- Connecting; the answer is whether no exception was thrown. -/
def connect : Code Bool := Prog.perform (I := Sections) .redisConnect

/-- Copy and clear of the pending map under `write_lock`. -/
def take : Code (List (Bytes × Bytes)) := Prog.perform (I := Sections) .mapTake

def hmset (batch : List (Bytes × Bytes)) : Code Bool :=
  Prog.perform (I := Sections) (.redisHmset batch)

def publish (field : Bytes) : Code Bool :=
  Prog.perform (I := Sections) (.redisPublish field)

/-- The loop over the batch; an exception leaves it. -/
def publishAll : List (Bytes × Bytes) → Code Bool
  | [] => pure true
  | entry :: rest => do
      if ← publish entry.1 then publishAll rest
      else return false

def writeBatch (batch : List (Bytes × Bytes)) : Code Bool := do
  if ← hmset batch then publishAll batch
  else return false

/-- One round of the inner loop; the answer is whether the connection lives on. -/
def round : Code Bool := do
  let batch ← take
  if batch.length > 0 then writeBatch batch
  else return true

/-- One turn of `recieve_thread_function`. -/
def workerTurn (connected : Bool) : Code Bool :=
  if connected then round else connect

/-! ## What the sections do alone -/

theorem run_take (env : Env) (state : Bridge) :
    take.run bridge env state =
      ((env.order state.writeMap.toList).1, { state with writeMap := ∅ }) := rfl

theorem run_hmset (batch : List (Bytes × Bytes)) (env : Env) (state : Bridge) :
    (hmset batch).run bridge env state =
      state.command env.redis (.hmset batch) := rfl

theorem run_publish (field : Bytes) (env : Env) (state : Bridge) :
    (publish field).run bridge env state =
      state.command env.redis (.publish field) := rfl

/-! ## What `store_frame` does alone -/

/-- `store_frame` does not return early. -/
def Enabled (redis : RedisInterface) : Prop :=
  redis.enableWrite = true ∧ redis.frameJsonSet = true

def storeText (state : Bridge) (msg : CanMessage) : Bytes :=
  CanFrameToJson.messageText
    (CanFrameToJson.registeredType state.typeRegister (key msg.frame.id)) msg

theorem storeText_congr {first second : Bridge}
    (h : first.typeRegister = second.typeRegister) (msg : CanMessage) :
    storeText first msg = storeText second msg := by
  rw [storeText, storeText, h]

@[simps! typeRegister mp messageQueue writeMap redisServer history_stored
  history_entered history_enqueued history_dequeued history_received
  history_transmitted]
def storeState (redis : RedisInterface) (state : Bridge) (msg : CanMessage) :
    Bridge :=
  (CanFrameToJson.converted state msg).mapInsert redis.fieldPrefix msg.frame.id
    (storeText state msg)

theorem run_storeFrame {redis : RedisInterface} (h : redis.Enabled) (env : Env)
    (msg : CanMessage) (state : Bridge) :
    (redis.storeFrame msg).run bridge env state =
      ((), redis.storeState state msg) := by
  have hjson : CanFrameToJson.messageText
      (CanFrameToJson.registeredType state.typeRegister (key msg.frame.id)) msg ≠ [] :=
    CanFrameToJson.messageText_ne_nil _ msg
  simp only [storeFrame, h.1, h.2, Bool.not_true, Bool.false_eq_true, if_false,
    Prog.run_bind, CanFrameToJson.run_convertFrame, if_pos hjson]
  rfl

end RedisInterface

end Can2Rest
