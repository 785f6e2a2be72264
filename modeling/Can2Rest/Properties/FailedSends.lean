import Can2Rest.Properties.Addressing

/-!
# What a failed transmission leaves behind

The main loop only logs the status of a write.  A failed send therefore changes
the registry, the store and the pending map like a successful one, unless all
three already have what it would enter.
-/

namespace Can2Rest.Properties

open Foundation Shared

/-- The pass takes `msg` from the queue and fails to write it. -/
structure FailsToSend (env : Env) (state : Bridge) (msg : CanMessage) : Prop where
  noFrame : env.received = none
  notWritten : env.written = false
  visible : ¬ FrameSendQueue.Hidden state
  front : state.messageQueue.head? = some msg

structure SameRecords (before after : Bridge) : Prop where
  mp : after.mp = before.mp
  typeRegister : after.typeRegister = before.typeRegister
  writeMap : after.writeMap = before.writeMap

/-- The sending of `msg` enters nothing that is not there. -/
structure AlreadyRecorded (fieldPrefix : Bytes) (state : Bridge) (msg : CanMessage) :
    Prop where
  registered : key msg.frame.id ∈ state.typeRegister
  stored : CanHashtable.HasHash state.mp (key msg.frame.id) (sha256 msg.frame.payload)
  pending : fieldOf fieldPrefix msg.frame.id ∈ state.writeMap

theorem putMap_eq_self_iff (mp : MessageMap) (msg : CanMessage) :
    CanHashtable.putMap mp msg = mp ↔
      CanHashtable.HasHash mp (key msg.frame.id) msg.hash := by
  unfold CanHashtable.putMap
  split
  next h => simp [h]
  next h =>
    rw [insert_eq_self_iff]
    constructor
    · intro hsame
      exact ⟨msg, hsame, rfl⟩
    · intro hhash
      exact absurd hhash h

private def writtenState (env : Env) (state : Bridge) (msg : CanMessage)
    (rest : List CanMessage) : Bridge :=
  (((state.canRead env).2.popped msg rest).canWrite env msg.frame.transmit).2

theorem sameRecords_sentState_iff (setup : Setup) (state : Bridge) (env : Env)
    (counter : UInt32) (msg : CanMessage) :
    SameRecords state (Main.sentState setup state env counter msg) ↔
      AlreadyRecorded setup.redis.fieldPrefix state msg := by
  have hmp : (Main.sentState setup state env counter msg).mp = state.mp ↔
      CanHashtable.HasHash state.mp (key msg.frame.id) (sha256 msg.frame.payload) :=
    putMap_eq_self_iff state.mp (Main.sentMessage env counter msg)
  have hmap : (Main.sentState setup state env counter msg).writeMap = state.writeMap ↔
      fieldOf setup.redis.fieldPrefix msg.frame.id ∈ state.writeMap :=
    insertIfNew_eq_self_iff
  have hregister : (Main.sentState setup state env counter msg).typeRegister =
      state.typeRegister.insertIfNew (key msg.frame.id) msg.type :=
    CanFrameToJson.lookedUp_eq_self Std.ExtTreeMap.mem_insertIfNew_self
  have htype : (Main.sentState setup state env counter msg).typeRegister =
      state.typeRegister ↔ key msg.frame.id ∈ state.typeRegister := by
    rw [hregister, insertIfNew_eq_self_iff]
  constructor
  · rintro ⟨hstore, htypes, hpending⟩
    exact ⟨htype.mp htypes, hmp.mp hstore, hmap.mp hpending⟩
  · rintro ⟨hregistered, hstored, hpending⟩
    exact ⟨hmp.mpr hstored, htype.mpr hregistered, hmap.mpr hpending⟩

theorem failed_send_iff (setup : Setup) (locals : MainLocals) {env : Env}
    {state : Bridge} {msg : CanMessage} (h : FailsToSend env state msg) :
    SameRecords state ((Main.mainPass setup locals).run bridge env state).2 ↔
      AlreadyRecorded setup.redis.fieldPrefix state msg := by
  obtain ⟨rest, hqueue⟩ := List.head?_eq_some_iff.mp h.front
  have hread : (state.canRead env).2.messageQueue = msg :: rest := hqueue
  rw [Main.run_mainPass_none h.noFrame, Main.run_sendMessage hread h.visible]
  have hiff := sameRecords_sentState_iff setup (writtenState env state msg rest) env
    locals.frameSyncCounter { msg with valid := true }
  constructor
  · rintro ⟨hmp, htypes, hmap⟩
    obtain ⟨hregistered, hstored, hpending⟩ := hiff.mp ⟨hmp, htypes, hmap⟩
    exact ⟨hregistered, hstored, hpending⟩
  · rintro ⟨hregistered, hstored, hpending⟩
    obtain ⟨hmp, htypes, hmap⟩ := hiff.mpr ⟨hregistered, hstored, hpending⟩
    exact ⟨hmp, htypes, hmap⟩

/-! ## What appears in the store and in Redis -/

/-- The frame was received, or written to the bus without error. -/
def OnBus (history : History) (frame : CanFrame) : Prop :=
  (∃ got ∈ history.received, got.canId = frame.id ∧ got.payload = frame.payload) ∨
    frame.transmit ∈ history.transmitted

/-- The hash entry is the document of a frame of the bus, under the field of its id. -/
def FromBus (fieldPrefix : Bytes) (history : History) (field json : Bytes) : Prop :=
  ∃ type msg, json = CanFrameToJson.messageText type msg ∧
    field = fieldOf fieldPrefix msg.frame.id ∧ OnBus history msg.frame

/--
Everything the program shows, and what may still be written late, is from the bus, or was
in Redis when it started.
-/
structure OnlyFromBus (fieldPrefix : Bytes) (hash : StringMap) (state : Bridge) :
    Prop where
  store : ∀ (id : UInt16) (msg : CanMessage), state.mp[id]? = some msg →
    OnBus state.history msg.frame
  pending : ∀ field json : Bytes, state.writeMap[field]? = some json →
    FromBus fieldPrefix state.history field json
  redis : ∀ field json : Bytes, state.redisServer.hash[field]? = some json →
    hash[field]? = some json ∨ FromBus fieldPrefix state.history field json
  late : ∀ field json : Bytes, state.redisServer.HasLate field json →
    FromBus fieldPrefix state.history field json

theorem OnBus.mono {before after : History} {frame : CanFrame} (h : OnBus before frame)
    (hextends : System.Extends before after) : OnBus after frame := by
  rcases h with ⟨got, hgot, hframe⟩ | hsent
  · exact .inl ⟨got, hextends.received hgot, hframe⟩
  · exact .inr (hextends.transmitted hsent)

theorem FromBus.mono {fieldPrefix : Bytes} {before after : History} {field json : Bytes}
    (h : FromBus fieldPrefix before field json) (hextends : System.Extends before after) :
    FromBus fieldPrefix after field json := by
  obtain ⟨type, msg, hjson, hfield, hbus⟩ := h
  exact ⟨type, msg, hjson, hfield, hbus.mono hextends⟩

namespace OnlyFromBus

variable {fieldPrefix : Bytes} {hash : StringMap}

theorem same {before after : Bridge} (h : OnlyFromBus fieldPrefix hash before)
    (hmp : after.mp = before.mp) (hmap : after.writeMap = before.writeMap)
    (hserver : after.redisServer = before.redisServer)
    (hextends : System.Extends before.history after.history) :
    OnlyFromBus fieldPrefix hash after := by
  refine ⟨fun id msg hmsg => ?_, fun field json hjson => ?_, fun field json hjson => ?_,
    fun field json hlate => ?_⟩
  · exact (h.store id msg (hmp ▸ hmsg)).mono hextends
  · exact (h.pending field json (hmap ▸ hjson)).mono hextends
  · rw [hserver] at hjson
    exact (h.redis field json hjson).imp_right fun hbus => hbus.mono hextends
  · exact (h.late field json (hserver ▸ hlate)).mono hextends

theorem record {before after : Bridge} (h : OnlyFromBus fieldPrefix hash before)
    (stored msg : CanMessage) (type : ConversationType)
    (hmp : after.mp = CanHashtable.putMap before.mp stored)
    (hmap : after.writeMap = before.writeMap.insertIfNew
      (fieldOf fieldPrefix msg.frame.id) (CanFrameToJson.messageText type msg))
    (hserver : after.redisServer = before.redisServer)
    (hextends : System.Extends before.history after.history)
    (hframe : stored.frame = msg.frame) (hbus : OnBus after.history msg.frame) :
    OnlyFromBus fieldPrefix hash after := by
  refine ⟨fun id other hother => ?_, fun field json hjson => ?_, fun field json hjson => ?_,
    fun field json hlate => ?_⟩
  · rw [hmp] at hother
    rcases CanHashtable.getElem?_putMap hother with hold | ⟨-, rfl⟩
    · exact (h.store id other hold).mono hextends
    · rw [hframe]
      exact hbus
  · rw [hmap, getElem?_insertIfNew] at hjson
    split at hjson
    next hfield =>
      cases hold : before.writeMap[fieldOf fieldPrefix msg.frame.id]? with
      | none =>
          rw [hold, Option.getD_none] at hjson
          exact ⟨type, msg, (Option.some.inj hjson).symm, hfield.symm, hbus⟩
      | some old =>
          rw [hold, Option.getD_some] at hjson
          obtain rfl := Option.some.inj hjson
          exact hfield ▸ (h.pending _ old hold).mono hextends
    next => exact (h.pending field json hjson).mono hextends
  · rw [hserver] at hjson
    exact (h.redis field json hjson).imp_right fun hbus => hbus.mono hextends
  · exact (h.late field json (hserver ▸ hlate)).mono hextends

end OnlyFromBus

/-- If the pass fails to send a message, it has nothing to enter. -/
def HarmlessFailure (program : Program) (system : System) (event : Event) : Prop :=
  match event with
  | .pass env => ∀ msg, FailsToSend env system.shared msg →
      AlreadyRecorded program.setup.redis.fieldPrefix system.shared msg
  | _ => True

theorem OnlyFromBus.effect {program : Program} {hash : StringMap} {system after : System}
    {event : Event} (heffect : System.Effect program system event after)
    (hharmless : HarmlessFailure program system event)
    (h : OnlyFromBus program.setup.redis.fieldPrefix hash system.shared) :
    OnlyFromBus program.setup.redis.fieldPrefix hash after.shared := by
  have hextends := heffect.extends_history
  cases heffect with
  | rejected env frame hread hcheck => exact h.same rfl rfl rfl hextends
  | accepted env frame hread hcheck =>
      let msg := Main.receivedMessage env system.locals frame
      refine h.record msg msg _ rfl rfl rfl hextends rfl (.inl ⟨frame, ?_, rfl, ?_⟩)
      · simp [Main.receivedState, hread]
      · exact (payload_receive _ _).symm
  | idle env hread hqueue => exact h.same rfl rfl rfl hextends
  | sent env msg rest hread hqueue hvisible =>
      cases hwritten : env.written with
      | true =>
          refine h.record (Main.sentMessage env system.locals.frameSyncCounter
            { msg with valid := true }) { msg with valid := true } _ rfl rfl rfl hextends
            rfl (.inr ?_)
          simp [Main.sentState, hwritten]
      | false =>
          have hfails : FailsToSend env system.shared msg :=
            ⟨hread, hwritten, hvisible, by rw [hqueue, List.head?_cons]⟩
          obtain ⟨hregistered, hstored, hpending⟩ := hharmless msg hfails
          obtain ⟨hmp, -, hmap⟩ := (sameRecords_sentState_iff program.setup
            (writtenState env system.shared msg rest) env
            system.locals.frameSyncCounter { msg with valid := true }).mpr
            ⟨hregistered, hstored, hpending⟩
          exact h.same hmp hmap rfl hextends
  | refused body env hrequest => exact h
  | enqueued body env id payload hrequest => exact h.same rfl rfl rfl hextends
  | served digits env msg hstored => exact h.same rfl rfl rfl hextends
  | missing digits env hstored => exact h
  | worked connected env shared hframe | executed env shared hframe =>
      refine ⟨fun id msg hmsg => ?_, fun field json hjson => ?_, fun field json hjson => ?_,
        fun field json hlate => ?_⟩
      · exact (h.store id msg (hframe.mp ▸ hmsg)).mono hextends
      · exact (h.pending field json (hframe.pending field json hjson)).mono hextends
      · rcases hframe.written field json hjson with hold | hpending | hlate
        · exact (h.redis field json hold).imp_right fun hbus => hbus.mono hextends
        · exact .inr ((h.pending field json hpending).mono hextends)
        · exact .inr ((h.late field json hlate).mono hextends)
      · rcases hframe.late field json hlate with hold | hpending
        · exact (h.late field json hold).mono hextends
        · exact (h.pending field json hpending).mono hextends

theorem onlyFromBus_start (fieldPrefix : Bytes) (typeRegister : TypeRegister)
    (hash : StringMap) : OnlyFromBus fieldPrefix hash (.start typeRegister hash) := by
  refine ⟨?_, ?_, fun field json hjson => .inl hjson, ?_⟩
  · simp
  · simp
  · rintro field json ⟨entries, hentries, -⟩
    simp at hentries

/--
A failed send leaves no trace iff everything it would enter is there already;
and in every run whose failed sends are of this kind, what the store and Redis
show is what was received or written without error.
-/
theorem failed_send_leaves_no_trace (program : Program) :
    (∀ (locals : MainLocals) (env : Env) (state : Bridge) (msg : CanMessage),
      FailsToSend env state msg →
        (SameRecords state
            ((Main.mainPass program.setup locals).run bridge env state).2 ↔
          AlreadyRecorded program.setup.redis.fieldPrefix state msg)) ∧
      ∀ config hash fr events, Along (System.step program) (HarmlessFailure program)
          (System.initial config hash fr) events →
        OnlyFromBus program.setup.redis.fieldPrefix hash
          (System.run program (System.initial config hash fr) events).shared := by
  refine ⟨fun locals env state msg h => failed_send_iff program.setup locals h,
    fun config hash fr events hevents => ?_⟩
  exact hevents.invariant
    (fun system => OnlyFromBus program.setup.redis.fieldPrefix hash system.shared)
    (fun system event hharmless h =>
      h.effect (System.step_effect program system event) hharmless)
    (onlyFromBus_start _ _ hash)

def boolRequest : Bytes := ascii "\x7b\"id\": 1, \"payload\": true\x7d"

def oneRequest : System :=
  System.run .acceptAll (System.initial (.loadConfigFile ∅) ∅ CanMessage.zero.frame)
    [.send boolRequest {}]

def requestedMessage : CanMessage :=
  FrameSendQueue.boolMessage 1 true (Vector.replicate 64 0)

theorem shared_oneRequest :
    oneRequest.shared = RestApi.enqueuedState .x86 1 (.bool true) {}
      (Main.initial (.loadConfigFile ∅) ∅) := by
  have hrequest : RestApi.Requests (cStr boolRequest) (.int 1) (.bool true) :=
    requests_of_scalarRequest (by decide +kernel)
  have hid : key ((Json.int 1).numberValue.toUnsigned Program.acceptAll.undefined) = 1 := by
    have hnumber := Binary64.toUnsigned_natCast .x86 (n := 1) (by decide)
    exact congrArg key hnumber
  have hrun := @RestApi.run_postSend_of_requests Program.acceptAll.undefined _ _ _
    hrequest {} (Main.initial (.loadConfigFile ∅) ∅)
  rw [hid] at hrun
  simp only [oneRequest, System.run, runFrom_cons, runFrom_nil, System.step, System.initial]
  rw [hrun]
  rfl

theorem messageQueue_oneRequest :
    oneRequest.shared.messageQueue = [requestedMessage] := by
  rw [shared_oneRequest]
  rfl

private theorem failsToSend_oneRequest :
    FailsToSend { written := false } oneRequest.shared requestedMessage where
  noFrame := rfl
  notWritten := rfl
  visible := by
    rw [FrameSendQueue.Hidden, messageQueue_oneRequest]
    decide
  front := by rw [messageQueue_oneRequest, List.head?_cons]

theorem mp_oneRequest : oneRequest.shared.mp = ∅ := by
  rw [shared_oneRequest]
  rfl

private theorem not_alreadyRecorded_oneRequest :
    ¬ AlreadyRecorded [] oneRequest.shared requestedMessage := by
  rintro ⟨-, ⟨stored, hstored, -⟩, -⟩
  rw [mp_oneRequest] at hstored
  simp at hstored

instance (fieldPrefix : Bytes) (state : Bridge) (msg : CanMessage) :
    Decidable (AlreadyRecorded fieldPrefix state msg) :=
  decidable_of_iff (key msg.frame.id ∈ state.typeRegister ∧
      CanHashtable.HasHash state.mp (key msg.frame.id) (sha256 msg.frame.payload) ∧
      fieldOf fieldPrefix msg.frame.id ∈ state.writeMap)
    ⟨fun h => ⟨h.1, h.2.1, h.2.2⟩, fun h => ⟨h.registered, h.stored, h.pending⟩⟩

/-- A value is sent twice before the worker takes the pending map; the second write fails. -/
def sentTwice : List Event :=
  [.send boolRequest {}, .pass {}, .send boolRequest {}, .pass { written := false }]

private theorem harmlessFailure_sentTwice :
    Along (System.step .acceptAll) (HarmlessFailure .acceptAll)
      (System.initial (.loadConfigFile ∅) ∅ CanMessage.zero.frame) sentTwice := by
  have hrecorded : ∀ msg ∈ (System.run .acceptAll
      (System.initial (.loadConfigFile ∅) ∅ CanMessage.zero.frame)
      (sentTwice.take 3)).shared.messageQueue.head?,
      AlreadyRecorded Program.acceptAll.setup.redis.fieldPrefix (System.run .acceptAll
        (System.initial (.loadConfigFile ∅) ∅ CanMessage.zero.frame)
        (sentTwice.take 3)).shared msg := by decide +kernel
  refine ⟨trivial, ?_, trivial, ?_, trivial⟩
  · rintro msg ⟨-, hwritten, -, -⟩
    cases hwritten
  · exact fun msg hfails => hrecorded msg hfails.front

theorem failed_send_leaves_no_trace_sentTwice :
    (SameRecords oneRequest.shared ((Main.mainPass Program.acceptAll.setup
        oneRequest.locals).run bridge { written := false } oneRequest.shared).2 ↔
      AlreadyRecorded Program.acceptAll.setup.redis.fieldPrefix oneRequest.shared
        requestedMessage) ∧
      OnlyFromBus Program.acceptAll.setup.redis.fieldPrefix ∅
        (System.run .acceptAll (System.initial (.loadConfigFile ∅) ∅
          CanMessage.zero.frame) sentTwice).shared :=
  ⟨(failed_send_leaves_no_trace .acceptAll).1 oneRequest.locals _ oneRequest.shared
      requestedMessage failsToSend_oneRequest,
    (failed_send_leaves_no_trace .acceptAll).2 _ ∅ _ sentTwice harmlessFailure_sentTwice⟩

/-- The frame that was not written to the bus is in the store afterwards. -/
theorem failed_send_leaves_trace :
    FailsToSend { written := false } oneRequest.shared requestedMessage ∧
      ¬ SameRecords oneRequest.shared ((Main.mainPass Program.acceptAll.setup
        oneRequest.locals).run bridge { written := false } oneRequest.shared).2 := by
  refine ⟨failsToSend_oneRequest, fun hsame => ?_⟩
  have hiff := failed_send_iff Program.acceptAll.setup oneRequest.locals
    failsToSend_oneRequest
  exact not_alreadyRecorded_oneRequest (hiff.mp hsame)

end Can2Rest.Properties
