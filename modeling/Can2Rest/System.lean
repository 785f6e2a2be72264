import Can2Rest.Main
import Can2Rest.RestApi

/-!
# The bridge as a whole

The state of the program is the shared state with the locals of the main loop.
An event runs one piece of the program to its end: a pass of the main loop, a
request, a turn of the Redis worker, or a command that the Redis server executes
late.  `Effect` says once what an event can do, and the invariants of whole runs
are proved from it; the interleavings within an event are the subject of `Threads`.
-/

namespace Can2Rest

open Foundation Shared

/-- The compiled program with its configuration. -/
structure Program where
  setup : Setup
  undefined : Binary64.OutOfRange

/-- Every frame passes the filter, and hash fields are plain numbers. -/
def Program.acceptAll : Program where
  setup := ⟨⟨true, ∅⟩, ⟨true, true, []⟩, ⟨rfl, rfl⟩⟩
  undefined := .x86

structure System where
  shared : Bridge
  locals : MainLocals

inductive Event where
  | pass (env : Env)
  | send (body : Bytes) (env : Env)
  | receive (digits : Bytes) (env : Env)
  | worker (connected : Bool) (env : Env)
  | server (env : Env)

namespace System

def step (program : Program) (system : System) : Event → System
  | .pass env =>
      let outcome :=
        (Main.mainPass program.setup system.locals).run bridge env system.shared
      ⟨outcome.2, outcome.1⟩
  | .send body env =>
      { system with
        shared := ((RestApi.postSend program.undefined body).run bridge env
          system.shared).2 }
  | .receive digits env =>
      { system with
        shared := ((RestApi.receive (some digits)).run bridge env system.shared).2 }
  | .worker connected env =>
      { system with
        shared := ((RedisInterface.workerTurn connected).run bridge env
          system.shared).2 }
  | .server env =>
      { system with
        shared := ((Prog.perform (I := Sections) .redisLate).run bridge env system.shared).2 }

abbrev run (program : Program) (system : System) (events : List Event) : System :=
  runFrom (step program) system events

/-- The state when the main loop starts; `fr` is declared without initialiser. -/
def initial (config : ConfigParser) (hash : StringMap) (fr : CanFrame) : System :=
  ⟨Main.initial config hash, ⟨fr, 0⟩⟩

/-! ## What an event can do -/

/--
The worker and the server change the pending map and the Redis server only: what is
in them was in one of them before, or among what may be written late.
-/
structure RedisFrame (before after : Bridge) : Prop where
  typeRegister : after.typeRegister = before.typeRegister
  mp : after.mp = before.mp
  messageQueue : after.messageQueue = before.messageQueue
  history : after.history = before.history
  pending : ∀ field json : Bytes, after.writeMap[field]? = some json →
    before.writeMap[field]? = some json
  written : ∀ field json : Bytes, after.redisServer.hash[field]? = some json →
    before.redisServer.hash[field]? = some json ∨
      before.writeMap[field]? = some json ∨ before.redisServer.HasLate field json
  late : ∀ field json : Bytes, after.redisServer.HasLate field json →
    before.redisServer.HasLate field json ∨ before.writeMap[field]? = some json

/-- Nothing that happened before is missing. -/
structure Extends (before after : History) : Prop where
  received : before.received ⊆ after.received
  transmitted : before.transmitted ⊆ after.transmitted
  dequeued : before.dequeued ⊆ after.dequeued
  stored : before.stored ⊆ after.stored

inductive Effect (program : Program) (system : System) : Event → System → Prop
  | rejected (env : Env) (frame : CanfdFrame) (hread : env.received = some frame)
      (hcheck : program.setup.idFilter.checkMessage (key frame.canId) = false) :
      Effect program system (.pass env)
        ⟨(system.shared.canRead env).2,
         { system.locals with fr := system.locals.fr.receive frame }⟩
  | accepted (env : Env) (frame : CanfdFrame) (hread : env.received = some frame)
      (hcheck : program.setup.idFilter.checkMessage (key frame.canId) = true) :
      Effect program system (.pass env)
        ⟨Main.receivedState program.setup (system.shared.canRead env).2
           (Main.receivedMessage env system.locals frame),
         ⟨system.locals.fr.receive frame,
          Main.countFrame system.locals.frameSyncCounter
            (system.locals.fr.receive frame)⟩⟩
  | idle (env : Env) (hread : env.received = none)
      (hqueue : FrameSendQueue.Hidden system.shared) :
      Effect program system (.pass env)
        ⟨(system.shared.canRead env).2, system.locals⟩
  | sent (env : Env) (msg : CanMessage) (rest : List CanMessage)
      (hread : env.received = none)
      (hqueue : system.shared.messageQueue = msg :: rest)
      (hvisible : ¬ FrameSendQueue.Hidden system.shared) :
      Effect program system (.pass env)
        ⟨Main.sentState program.setup
           ((((system.shared.canRead env).2.popped msg rest).canWrite env
             msg.frame.transmit).2) env system.locals.frameSyncCounter
           { msg with valid := true },
         system.locals⟩
  | refused (body : Bytes) (env : Env)
      (hrequest : ∀ id payload, ¬ RestApi.Requests (cStr body) id payload) :
      Effect program system (.send body env) system
  | enqueued (body : Bytes) (env : Env) (id payload : Json)
      (hrequest : RestApi.Requests (cStr body) id payload) :
      Effect program system (.send body env)
        { system with
          shared := RestApi.enqueuedState program.undefined
            (key (id.numberValue.toUnsigned program.undefined)) payload env
            system.shared }
  | served (digits : Bytes) (env : Env) (msg : CanMessage)
      (hstored : system.shared.mp[RestApi.requestKey digits]? = some msg) :
      Effect program system (.receive digits env)
        { system with shared := CanFrameToJson.converted system.shared msg }
  | missing (digits : Bytes) (env : Env)
      (hstored : system.shared.mp[RestApi.requestKey digits]? = none) :
      Effect program system (.receive digits env) system
  | worked (connected : Bool) (env : Env) (shared : Bridge)
      (hframe : RedisFrame system.shared shared) :
      Effect program system (.worker connected env) { system with shared := shared }
  | executed (env : Env) (shared : Bridge) (hframe : RedisFrame system.shared shared) :
      Effect program system (.server env) { system with shared := shared }

/-! ## The worker's turn, and late commands -/

theorem run_publishAll (batch : List (Bytes × Bytes)) (env : Env) (state : Bridge) :
    ∃ server, ((RedisInterface.publishAll batch).run bridge env state).2 =
        { state with redisServer := server } ∧ server.hash = state.redisServer.hash ∧
      ∀ field json, server.HasLate field json → state.redisServer.HasLate field json := by
  induction batch generalizing state with
  | nil => exact ⟨state.redisServer, rfl, rfl, fun _ _ => id⟩
  | cons entry rest ih =>
      rw [RedisInterface.publishAll, Prog.run_bind, RedisInterface.run_publish]
      have hhash := RedisServer.hash_attempt_publish state.redisServer env.redis entry.1
      rw [Bridge.command]
      dsimp only
      split
      · obtain ⟨later, hlater, hsame, hlate⟩ := ih { state with
          redisServer := state.redisServer.attempt env.redis (.publish entry.1) }
        exact ⟨later, hlater, hsame.trans hhash, fun field json h =>
          RedisServer.hasLate_attempt_publish (hlate field json h)⟩
      · exact ⟨_, rfl, hhash, fun _ _ => RedisServer.hasLate_attempt_publish⟩

theorem run_round (env : Env) (state : Bridge) :
    let batch := (env.order state.writeMap.toList).1
    ∃ server, (RedisInterface.round.run bridge env state).2 =
        { state with writeMap := ∅, redisServer := server } ∧
      (server.hash = state.redisServer.hash ∨
        server.hash = state.redisServer.hash.insertMany batch) ∧
      ∀ field json, server.HasLate field json →
        state.redisServer.HasLate field json ∨ (field, json) ∈ batch := by
  intro batch
  rw [RedisInterface.round, Prog.run_bind, RedisInterface.run_take]
  split
  · rw [RedisInterface.writeBatch, Prog.run_bind, RedisInterface.run_hmset, Bridge.command]
    have hhash := RedisServer.hash_attempt_hmset state.redisServer env.redis batch
    dsimp only
    split
    · obtain ⟨later, hlater, hsame, hlate⟩ := run_publishAll batch env { state with
        writeMap := ∅
        redisServer := state.redisServer.attempt env.redis (.hmset batch) }
      refine ⟨later, hlater, ?_, fun field json h =>
        RedisServer.hasLate_attempt_hmset (hlate field json h)⟩
      rw [hsame]
      exact hhash
    · exact ⟨_, rfl, hhash, fun _ _ => RedisServer.hasLate_attempt_hmset⟩
  · exact ⟨_, rfl, .inl rfl, fun _ _ => .inl⟩

theorem redisFrame_workerTurn (connected : Bool) (env : Env) (state : Bridge) :
    RedisFrame state ((RedisInterface.workerTurn connected).run bridge env state).2 := by
  cases connected with
  | false =>
      exact ⟨rfl, rfl, rfl, rfl, fun _ _ h => h, fun _ _ h => .inl h, fun _ _ h => .inl h⟩
  | true =>
      obtain ⟨server, hround, hhash, hlate⟩ := run_round env state
      have hlisting : Listing state.writeMap (env.order state.writeMap.toList).1 :=
        ⟨(env.order state.writeMap.toList).2⟩
      rw [RedisInterface.workerTurn, if_pos rfl, hround]
      refine ⟨rfl, rfl, rfl, rfl, fun field json h => ?_, fun field json h => ?_,
        fun field json h => (hlate field json h).imp_right hlisting.mem_iff.mp⟩
      · simp at h
      · change server.hash[field]? = some json at h
        rcases hhash with hhash | hhash
        · exact .inl (hhash ▸ h)
        · rw [hhash, hlisting.getElem?_insertMany, Option.or_eq_some_iff] at h
          rcases h with hpending | ⟨-, hold⟩
          · exact .inr (.inl hpending)
          · exact .inl hold

theorem redisFrame_executeLate (i : Nat) (state : Bridge) :
    RedisFrame state { state with redisServer := state.redisServer.executeLate i } where
  typeRegister := rfl
  mp := rfl
  messageQueue := rfl
  history := rfl
  pending _ _ h := h
  written field json h := by
    rcases state.redisServer.getElem?_executeLate i field with
      hsame | ⟨entries, value, hcommand, hentry, hsome⟩
    · exact .inl (hsame ▸ h)
    · obtain rfl : value = json := Option.some.inj (hsome.symm.trans h)
      exact .inr (.inr ⟨entries, List.mem_of_getElem? hcommand, hentry⟩)
  late _ _ h := .inl (RedisServer.hasLate_executeLate h)

theorem step_rejected {program : Program} {env : Env} {frame : CanfdFrame}
    (hread : env.received = some frame)
    (hcheck : program.setup.idFilter.checkMessage (key frame.canId) = false)
    (system : System) :
    step program system (.pass env) =
      ⟨(system.shared.canRead env).2,
       { system.locals with fr := system.locals.fr.receive frame }⟩ := by
  rw [step, Main.run_mainPass_some hread, Main.run_receiveFrame_rejected hcheck]

theorem step_accepted {program : Program} {env : Env} {frame : CanfdFrame}
    (hread : env.received = some frame)
    (hcheck : program.setup.idFilter.checkMessage (key frame.canId) = true)
    (system : System) :
    step program system (.pass env) =
      ⟨Main.receivedState program.setup (system.shared.canRead env).2
         (Main.receivedMessage env system.locals frame),
       ⟨system.locals.fr.receive frame,
        Main.countFrame system.locals.frameSyncCounter
          (system.locals.fr.receive frame)⟩⟩ := by
  rw [step, Main.run_mainPass_some hread, Main.run_receiveFrame hcheck]

theorem step_sent {program : Program} {system : System} {env : Env} {msg : CanMessage}
    {rest : List CanMessage} (hread : env.received = none)
    (hqueue : system.shared.messageQueue = msg :: rest)
    (hvisible : ¬ FrameSendQueue.Hidden system.shared) :
    step program system (.pass env) =
      ⟨Main.sentState program.setup
         ((((system.shared.canRead env).2.popped msg rest).canWrite env
           msg.frame.transmit).2) env system.locals.frameSyncCounter
         { msg with valid := true },
       system.locals⟩ := by
  have hqueue' : (system.shared.canRead env).2.messageQueue = msg :: rest := hqueue
  rw [step, Main.run_mainPass_none hread, Main.run_sendMessage hqueue' hvisible]

theorem step_effect (program : Program) (system : System) (event : Event) :
    Effect program system event (step program system event) := by
  cases event with
  | pass env =>
      cases hread : env.received with
      | some frame =>
          cases hcheck : program.setup.idFilter.checkMessage (key frame.canId) with
          | false =>
              rw [step_rejected hread hcheck]
              exact .rejected env frame hread hcheck
          | true =>
              rw [step_accepted hread hcheck]
              exact .accepted env frame hread hcheck
      | none =>
          by_cases hqueue : FrameSendQueue.Hidden system.shared
          · have hhidden : FrameSendQueue.Hidden (system.shared.canRead env).2 := hqueue
            rw [step, Main.run_mainPass_none hread, Main.run_sendMessage_of_hidden hhidden]
            exact .idle env hread hqueue
          · cases hmessages : system.shared.messageQueue with
            | nil => exact absurd (FrameSendQueue.hidden_of_nil hmessages) hqueue
            | cons msg rest =>
                rw [step_sent hread hmessages hqueue]
                exact .sent env msg rest hread hmessages hqueue
  | send body env =>
      by_cases hrequest : ∃ id payload, RestApi.Requests (cStr body) id payload
      · obtain ⟨id, payload, hrequest⟩ := hrequest
        rw [step, RestApi.run_postSend_of_requests hrequest]
        exact .enqueued body env id payload hrequest
      · have hnone : ∀ id payload, ¬ RestApi.Requests (cStr body) id payload :=
          fun id payload h => hrequest ⟨id, payload, h⟩
        obtain ⟨text, hrun⟩ := RestApi.run_postSend_of_not_requests program.undefined
          hnone env system.shared
        rw [step, hrun]
        exact .refused body env hnone
  | receive digits env =>
      rw [step, RestApi.run_receive]
      cases hstored : system.shared.mp[RestApi.requestKey digits]? with
      | some msg =>
          simp only [RestApi.receiveState, hstored]
          exact .served digits env msg hstored
      | none =>
          simp only [RestApi.receiveState, hstored]
          exact .missing digits env hstored
  | worker connected env =>
      exact .worked connected env _ (redisFrame_workerTurn connected env system.shared)
  | server env => exact .executed env _ (redisFrame_executeLate env.late system.shared)

theorem Effect.extends_history {program : Program} {system after : System} {event : Event}
    (heffect : Effect program system event after) :
    Extends system.shared.history after.shared.history := by
  cases heffect with
  | accepted env frame hread hcheck =>
      constructor <;> simp [Main.receivedState]
  | sent env msg rest hread hqueue hvisible =>
      constructor <;> simp [Main.sentState]
  | worked connected env shared hframe | executed env shared hframe =>
      rw [hframe.history]
      constructor <;> exact List.Subset.refl _
  | _ => constructor <;> simp

end System

end Can2Rest
