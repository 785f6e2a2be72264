import Can2Rest.StoreInvariant

/-!
# The documents of a run

`convert_frame` is called in three places: by `store_frame` for a frame that was
received, by `store_frame` for a message that was sent, and by the handler of
`GET /receive`.  The code of an event up to such a call gives the message that
is converted and the text that comes of it.
-/

namespace Can2Rest

open Foundation Shared

/-- A call of `convert_frame`. -/
structure Conversion where
  msg : CanMessage
  text : Bytes
  deriving DecidableEq

namespace Conversion

def call (msg : CanMessage) : Code (Option Conversion) := do
  let text ← CanFrameToJson.convertFrame msg
  return some ⟨msg, text⟩

/-- The body of the read loop up to the conversion in `store_frame`. -/
def inReceive (setup : Setup) (locals : MainLocals) (frame : CanfdFrame) :
    Code (Option Conversion) := do
  let fr := locals.fr.receive frame
  if setup.idFilter.checkMessage (key fr.id) then
    let timestamp ← Main.now
    let convMsg ← CanHashtable.put fr timestamp locals.frameSyncCounter.toUInt64 .got
    call convMsg
  else return none

/-- The send path up to the conversion in `store_frame`. -/
def inSend (counter : UInt32) : Code (Option Conversion) := do
  let queued ← FrameSendQueue.messageQueued
  if queued > 0 then
    let msg ← FrameSendQueue.dequeue
    if msg.valid then
      let _ ← Main.write msg.frame.transmit
      Main.autoRegister msg
      let timestamp ← Main.now
      let _ ← CanHashtable.put msg.frame timestamp counter.toUInt64 msg.messageReceieved
      call msg
    else return none
  else return none

def inPass (setup : Setup) (locals : MainLocals) : Code (Option Conversion) := do
  match ← Main.read with
  | some frame => inReceive setup locals frame
  | none => inSend locals.frameSyncCounter

/-- The handler of `GET /receive` up to the conversion. -/
def inRequest (digits : Bytes) : Code (Option Conversion) := do
  let msg ← CanHashtable.get (RestApi.requestKey digits)
  if msg.valid then call msg else return none

/-- The conversion in an event; no event has more than one. -/
def inEvent (program : Program) (system : System) : Event → Option Conversion
  | .pass env =>
      ((inPass program.setup system.locals).run bridge env system.shared).1
  | .receive digits env => ((inRequest digits).run bridge env system.shared).1
  | .send _ _ => none
  | .worker _ _ | .server _ => none

/-! ## What is converted -/

@[simp] theorem run_call (env : Env) (msg : CanMessage) (state : Bridge) :
    (call msg).run bridge env state =
      (some ⟨msg, RedisInterface.storeText state msg⟩,
        CanFrameToJson.converted state msg) := by
  simp only [call, Prog.run_bind, CanFrameToJson.run_convertFrame, Prog.run_pure]
  rfl

section Passes

variable {program : Program} {env : Env} {system : System}

theorem inEvent_accepted {frame : CanfdFrame} (hread : env.received = some frame)
    (hcheck : program.setup.idFilter.checkMessage (key frame.canId) = true) :
    inEvent program system (.pass env) =
      some ⟨Main.receivedMessage env system.locals frame,
        RedisInterface.storeText system.shared
          (Main.receivedMessage env system.locals frame)⟩ := by
  have hfilter : program.setup.idFilter.checkMessage
      (key (system.locals.fr.receive frame).id) = true := hcheck
  simp only [inEvent, inPass, Prog.run_bind, Main.run_read, Bridge.canRead_fst, hread, inReceive,
    if_pos hfilter, Main.run_now, CanHashtable.run_put, run_call]
  rfl

theorem inEvent_rejected {frame : CanfdFrame} (hread : env.received = some frame)
    (hcheck : program.setup.idFilter.checkMessage (key frame.canId) = false) :
    inEvent program system (.pass env) = none := by
  have hfilter : ¬ program.setup.idFilter.checkMessage
      (key (system.locals.fr.receive frame).id) = true := by
    rw [CanFrame.receive, hcheck]
    exact Bool.false_ne_true
  simp only [inEvent, inPass, Prog.run_bind, Main.run_read, Bridge.canRead_fst, hread, inReceive,
    if_neg hfilter, Prog.run_pure]

theorem inEvent_idle (hread : env.received = none)
    (hqueue : FrameSendQueue.Hidden system.shared) :
    inEvent program system (.pass env) = none := by
  have hqueued : ¬ asInt system.shared.messageQueue.length > 0 := by
    rw [FrameSendQueue.Hidden] at hqueue
    exact Int.not_lt.mpr hqueue
  simp only [inEvent, inPass, Prog.run_bind, Main.run_read, Bridge.canRead_fst, hread, inSend,
    FrameSendQueue.run_messageQueued, Bridge.canRead_snd_messageQueue, if_neg hqueued,
    Prog.run_pure]

theorem inEvent_sent {msg : CanMessage} {rest : List CanMessage} (hread : env.received = none)
    (hqueue : system.shared.messageQueue = msg :: rest)
    (hvisible : ¬ FrameSendQueue.Hidden system.shared) :
    inEvent program system (.pass env) =
      some ⟨{ msg with valid := true },
        RedisInterface.storeText (Main.registerState system.shared msg)
          { msg with valid := true }⟩ := by
  have hqueued : asInt system.shared.messageQueue.length > 0 := by
    rw [FrameSendQueue.Hidden] at hvisible
    exact Int.not_le.mp hvisible
  have hfront : (system.shared.canRead env).2.messageQueue = msg :: rest := hqueue
  simp only [inEvent, inPass, Prog.run_bind, Main.run_read, Bridge.canRead_fst, hread, inSend,
    FrameSendQueue.run_messageQueued, Bridge.canRead_snd_messageQueue, if_pos hqueued,
    FrameSendQueue.run_dequeue hfront hvisible, if_true, Main.run_write, Main.run_autoRegister,
    Main.run_now, CanHashtable.run_put, run_call]
  rfl

end Passes

theorem inEvent_served (program : Program) {system : System} {digits : Bytes} (env : Env)
    {msg : CanMessage} (h : system.shared.mp[RestApi.requestKey digits]? = some msg) :
    inEvent program system (.receive digits env) =
      some ⟨{ msg with valid := true }, RedisInterface.storeText system.shared msg⟩ := by
  simp only [inEvent, inRequest, Prog.run_bind, CanHashtable.run_get, CanHashtable.getResult, h,
    if_true, run_call]
  rfl

theorem inEvent_missing (program : Program) {system : System} {digits : Bytes} (env : Env)
    (h : system.shared.mp[RestApi.requestKey digits]? = none) :
    inEvent program system (.receive digits env) = none := by
  simp [inEvent, inRequest, CanHashtable.getResult, h]

theorem of_allMessages {P : CanMessage → Prop} (hP : Stamped P) {program : Program}
    {system : System} {event : Event} (h : AllMessages P system.shared) {made : Conversion}
    (hmade : inEvent program system event = some made) :
    P made.msg ∧ ∃ type, made.text = CanFrameToJson.messageText type made.msg := by
  have heffect := System.step_effect program system event
  generalize System.step program system event = after at heffect
  cases heffect with
  | rejected env frame hread hcheck =>
      rw [inEvent_rejected hread hcheck] at hmade
      cases hmade
  | accepted env frame hread hcheck =>
      rw [inEvent_accepted hread hcheck] at hmade
      rw [← Option.some.inj hmade]
      exact ⟨hP.received _ _ _, _, rfl⟩
  | idle env hread hqueue =>
      rw [inEvent_idle hread hqueue] at hmade
      cases hmade
  | sent env msg rest hread hqueue hvisible =>
      rw [inEvent_sent hread hqueue hvisible] at hmade
      rw [← Option.some.inj hmade]
      exact ⟨hP.valid msg (h.queue msg (hqueue ▸ List.mem_cons_self)), _, rfl⟩
  | served digits env msg hstored =>
      rw [inEvent_served program env hstored] at hmade
      rw [← Option.some.inj hmade]
      exact ⟨hP.valid msg (h.store _ msg hstored), _, rfl⟩
  | missing digits env hstored =>
      rw [inEvent_missing program env hstored] at hmade
      cases hmade
  | _ => cases hmade

/-! ## Where the texts go -/

/-- What `store_frame` makes is handed to Redis under the identifier of the message. -/
theorem stored_step (program : Program) (system : System) (env : Env) :
    (System.step program system (.pass env)).shared.history.stored =
      system.shared.history.stored ++
        (inEvent program system (.pass env)).toList.map fun made =>
          (made.msg.frame.id, made.text) := by
  have heffect := System.step_effect program system (.pass env)
  generalize System.step program system (.pass env) = after at heffect
  cases heffect with
  | rejected _ frame hread hcheck =>
      rw [inEvent_rejected hread hcheck]
      exact (List.append_nil _).symm
  | accepted _ frame hread hcheck =>
      rw [inEvent_accepted hread hcheck]
      rfl
  | idle _ hread hqueue =>
      rw [inEvent_idle hread hqueue]
      exact (List.append_nil _).symm
  | sent _ msg rest hread hqueue hvisible =>
      rw [inEvent_sent hread hqueue hvisible]
      rfl

/-- What the handler makes is the answer to the request. -/
theorem body_receive (program : Program) (system : System) (digits : Bytes) (env : Env)
    {made : Conversion} (h : inEvent program system (.receive digits env) = some made) :
    ((RestApi.receive (some digits)).run bridge env system.shared).1 =
      { status := 200, body := made.text } := by
  rw [RestApi.run_receive, RestApi.receiveResponse]
  cases hstored : system.shared.mp[RestApi.requestKey digits]? with
  | some msg =>
      rw [inEvent_served program env hstored] at h
      rw [← Option.some.inj h]
      rfl
  | none =>
      rw [inEvent_missing program env hstored] at h
      cases h

end Conversion

end Can2Rest
