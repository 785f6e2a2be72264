import Can2Rest.System

/-!
# The threads of the bridge

The main loop, any number of HTTP handlers and the Redis worker share the state
of the bridge, and the Redis server may execute commands late.  They are
interleaved section by section; a run of `System`, where every event is executed to
its end, is one of these interleavings.
-/

namespace Can2Rest

open Foundation Shared

inductive Request where
  | send (body : Bytes)
  | receive (digits : Bytes)
  | list
  deriving DecidableEq

def Request.code (undefined : Binary64.OutOfRange) : Request → Code Response
  | .send body => RestApi.postSend undefined body
  | .receive digits => RestApi.receive (some digits)
  | .list => RestApi.list

/-- Handlers are told apart by a number, so that equal requests can be in progress. -/
inductive Thread where
  | main
  | handler (number : Nat) (request : Request)
  | worker
  | server
  deriving DecidableEq

abbrev Thread.Local : Thread → Type
  | .main => MainLocals
  | .handler _ _ => Unit
  | .worker => Bool
  | .server => Unit

def Thread.body (program : Program) : (thread : Thread) → thread.Local → Code thread.Local
  | .main, locals => Main.mainPass program.setup locals
  | .handler _ request, _ => do
      let _ ← request.code program.undefined
      return ()
  | .worker, connected => RedisInterface.workerTurn connected
  | .server, _ => Prog.perform (I := Sections) .redisLate

abbrev Threads := Pool Sections Bridge Thread.Local

namespace Threads

abbrev step (program : Program) : Threads → Thread × Env → Threads :=
  Pool.step bridge (Thread.body program)

def between (system : System) (connected : Bool) : Threads where
  shared := system.shared
  current
    | .main => .ret system.locals
    | .handler _ _ => .ret ()
    | .worker => .ret connected
    | .server => .ret ()

/-- The main loop is about to start, and the worker to connect. -/
def start (config : ConfigParser) (hash : StringMap) (fr : CanFrame) : Threads :=
  between (System.initial config hash fr) false

/-! ## Complete turns -/

theorem update_main (system : System) (connected : Bool) (shared : Bridge)
    (locals : MainLocals) :
    ({ shared := shared
       current := Function.update (between system connected).current .main
         (.ret locals) } : Threads) =
      between ⟨shared, locals⟩ connected := by
  refine congrArg (Pool.mk shared) (funext fun thread => ?_)
  cases thread <;> rfl

theorem update_handler (system : System) (connected : Bool) (shared : Bridge)
    (number : Nat) (request : Request) :
    ({ shared := shared
       current := Function.update (between system connected).current
         (.handler number request) (.ret ()) } : Threads) =
      between { system with shared := shared } connected := by
  refine congrArg (Pool.mk shared) (funext fun thread => ?_)
  by_cases h : thread = .handler number request
  · subst h
    exact Function.update_self ..
  · rw [Function.update_of_ne h]
    cases thread <;> rfl

theorem update_worker (system : System) (connected : Bool) (shared : Bridge)
    (later : Bool) :
    ({ shared := shared
       current := Function.update (between system connected).current .worker
         (.ret later) } : Threads) =
      between { system with shared := shared } later := by
  refine congrArg (Pool.mk shared) (funext fun thread => ?_)
  cases thread <;> rfl

theorem update_server (system : System) (connected : Bool) (shared : Bridge) :
    ({ shared := shared
       current := Function.update (between system connected).current .server
         (.ret ()) } : Threads) =
      between { system with shared := shared } connected := by
  refine congrArg (Pool.mk shared) (funext fun thread => ?_)
  cases thread <;> rfl

section Schedules

variable (program : Program) (system : System) (connected : Bool)

theorem exists_main (env : Env) :
    ∃ n, runFrom (step program) (between system connected) (List.replicate n (.main, env)) =
      between (System.step program system (.pass env)) connected := by
  obtain ⟨n, h⟩ := Pool.exists_turn bridge (Thread.body program)
    (between system connected) .main rfl env
  exact ⟨n, h.trans (update_main system connected _ _)⟩

theorem exists_handler (request : Request) (env : Env) :
    ∃ n, runFrom (step program) (between system connected)
        (List.replicate n (.handler 0 request, env)) =
      between { system with
        shared := ((request.code program.undefined).run bridge env system.shared).2 }
        connected := by
  obtain ⟨n, h⟩ := Pool.exists_turn bridge (Thread.body program)
    (between system connected) (.handler 0 request) rfl env
  have hbody : (Thread.body program (.handler 0 request) ()).run bridge env system.shared =
      ((), ((request.code program.undefined).run bridge env system.shared).2) := by
    rw [Thread.body, Prog.run_bind, Prog.run_pure]
  exact ⟨n, (h.trans (update_handler system connected _ 0 request)).trans
    (congrArg (fun outcome : Unit × Bridge =>
      between { system with shared := outcome.2 } connected) hbody)⟩

theorem exists_worker (env : Env) :
    ∃ n, runFrom (step program) (between system connected) (List.replicate n (.worker, env)) =
      between { system with
        shared := ((RedisInterface.workerTurn connected).run bridge env system.shared).2 }
        ((RedisInterface.workerTurn connected).run bridge env system.shared).1 := by
  obtain ⟨n, h⟩ := Pool.exists_turn bridge (Thread.body program)
    (between system connected) .worker rfl env
  exact ⟨n, h.trans (update_worker system connected _ _)⟩

theorem exists_server (env : Env) :
    ∃ n, runFrom (step program) (between system connected) (List.replicate n (.server, env)) =
      between (System.step program system (.server env)) connected := by
  obtain ⟨n, h⟩ := Pool.exists_turn bridge (Thread.body program)
    (between system connected) .server rfl env
  exact ⟨n, h.trans (update_server system connected _)⟩

/-- Every event of the sequential reading is a schedule of the threads. -/
theorem exists_event (event : Event) :
    ∃ schedule connected', runFrom (step program) (between system connected) schedule =
      between (System.step program system event) connected' := by
  cases event with
  | pass env =>
      obtain ⟨n, h⟩ := exists_main program system connected env
      exact ⟨_, connected, h⟩
  | send body env =>
      obtain ⟨n, h⟩ := exists_handler program system connected (.send body) env
      exact ⟨_, connected, h⟩
  | receive digits env =>
      obtain ⟨n, h⟩ := exists_handler program system connected (.receive digits) env
      exact ⟨_, connected, h⟩
  | worker wanted env =>
      cases wanted with
      | false => exact ⟨[], connected, rfl⟩
      | true =>
          cases connected with
          | true =>
              obtain ⟨n, h⟩ := exists_worker program system true env
              exact ⟨_, _, h⟩
          | false =>
              -- the worker connects first
              obtain ⟨first, hfirst⟩ := exists_worker program system false {}
              obtain ⟨second, hsecond⟩ := exists_worker program system true env
              refine ⟨List.replicate first (.worker, ({} : Env)) ++
                  List.replicate second (.worker, env),
                ((RedisInterface.workerTurn true).run bridge env system.shared).1, ?_⟩
              rw [runFrom_append, hfirst]
              exact hsecond
  | server env =>
      obtain ⟨n, h⟩ := exists_server program system connected env
      exact ⟨_, connected, h⟩

theorem exists_schedule (events : List Event) :
    ∃ schedule connected', runFrom (step program) (between system connected) schedule =
      between (System.run program system events) connected' := by
  induction events generalizing system connected with
  | nil => exact ⟨[], connected, rfl⟩
  | cons event events ih =>
      obtain ⟨first, middle, hfirst⟩ := exists_event program system connected event
      obtain ⟨second, last, hsecond⟩ := ih (System.step program system event) middle
      exact ⟨first ++ second, last, by rw [runFrom_append, hfirst, hsecond]; rfl⟩

end Schedules

/-! ## Footprints -/

/-- What the recording of a frame executes: `put`, and `store_frame` with its prefix. -/
def RecordSection (fieldPrefix : Bytes) : Section → Prop
  | .mapInsert fieldPrefix' _ _ => fieldPrefix' = fieldPrefix
  | .typeFind _ | .typeIndex _ | .storeFind _ | .storeIndex _ | .storeAssign _ _ => True
  | .shaReset _ | .shaAdd _ _ | .shaGetHash _ | .now => True
  | _ => False

def MainSection (fieldPrefix : Bytes) : Section → Prop
  | .typeAssign _ _ | .queueSize | .queuePop | .canRead | .canWrite _ => True
  | op => RecordSection fieldPrefix op

/-- The types that the encoders give to messages. -/
def sentTypes : List ConversationType := [.int, .bool, .str, .byte]

def HandlerSection : Section → Prop
  | .queuePush msg => msg.type ∈ sentTypes
  | .typeFind _ | .typeIndex _ | .storeFind _ | .storeIndex _ | .storeKeys => True
  | .shaReset _ | .shaAdd _ _ | .shaGetHash _ | .declareData => True
  | _ => False

def SendSection : Section → Prop
  | .queuePush msg => msg.type ∈ sentTypes
  | .shaReset _ | .shaAdd _ _ | .shaGetHash _ | .declareData => True
  | _ => False

def WorkerSection : Section → Prop
  | .mapTake | .redisConnect | .redisHmset _ | .redisPublish _ => True
  | _ => False

def ServerSection (op : Section) : Prop := op = .redisLate

def Footprint (program : Program) : Thread → Section → Prop
  | .main => MainSection program.setup.redis.fieldPrefix
  | .handler _ _ => HandlerSection
  | .worker => WorkerSection
  | .server => ServerSection

section Uses

variable {P : Section → Prop}

theorem uses_digest (hreset : ∀ owner, P (.shaReset owner))
    (hadd : ∀ owner data, P (.shaAdd owner data)) (hget : ∀ owner, P (.shaGetHash owner))
    (owner : ShaOwner) (data : Bytes) : (digest owner data).Uses P := by
  refine Prog.Uses.bind (Prog.uses_perform.mpr (hreset owner)) fun _ => ?_
  refine Prog.Uses.bind (Prog.uses_perform.mpr (hadd owner data)) fun _ => ?_
  exact Prog.uses_perform.mpr (hget owner)

theorem uses_convertFrame (hreset : ∀ owner, P (.shaReset owner))
    (hadd : ∀ owner data, P (.shaAdd owner data)) (hget : ∀ owner, P (.shaGetHash owner))
    (hfind : ∀ id, P (.typeFind id)) (hindex : ∀ id, P (.typeIndex id)) (msg : CanMessage) :
    (CanFrameToJson.convertFrame msg).Uses P := by
  refine Prog.Uses.bind (Prog.uses_perform.mpr (hfind _)) fun _ => ?_
  refine Prog.Uses.bind (Prog.uses_perform.mpr (hindex _)) fun _ => ?_
  refine Prog.Uses.bind ?_ fun hash => trivial
  unfold CanFrameToJson.reportedHash
  split
  · exact uses_digest hreset hadd hget _ _
  · trivial

theorem uses_storeFrame (hreset : ∀ owner, P (.shaReset owner))
    (hadd : ∀ owner data, P (.shaAdd owner data)) (hget : ∀ owner, P (.shaGetHash owner))
    (hfind : ∀ id, P (.typeFind id)) (hindex : ∀ id, P (.typeIndex id))
    (redis : RedisInterface) (hinsert : ∀ id json, P (.mapInsert redis.fieldPrefix id json))
    (msg : CanMessage) : (redis.storeFrame msg).Uses P := by
  unfold RedisInterface.storeFrame
  split
  · trivial
  split
  · trivial
  refine Prog.Uses.bind (uses_convertFrame hreset hadd hget hfind hindex msg) fun json => ?_
  split
  · exact Prog.uses_perform.mpr (hinsert _ _)
  · trivial

theorem uses_autoRegister (hfind : ∀ id, P (.typeFind id))
    (hassign : ∀ id type, P (.typeAssign id type)) (msg : CanMessage) :
    (Main.autoRegister msg).Uses P := by
  refine Prog.Uses.bind (Prog.uses_perform.mpr (hfind _)) fun found => ?_
  split
  · trivial
  · exact Prog.uses_perform.mpr (hassign _ _)

theorem uses_dequeue (hsize : P .queueSize) (hpop : P .queuePop) :
    FrameSendQueue.dequeue.Uses P := by
  refine Prog.Uses.bind (Prog.uses_perform.mpr hsize) fun sz => ?_
  split
  · refine Prog.Uses.bind (Prog.uses_perform.mpr hpop) fun front => ?_
    split <;> trivial
  · trivial

end Uses

section Main

variable {fieldPrefix : Bytes}

theorem mainSection_of_record {op : Section} (h : RecordSection fieldPrefix op) :
    MainSection fieldPrefix op := by
  cases op <;> trivial

theorem uses_record_perform {op : Section} (h : RecordSection fieldPrefix op) :
    (Prog.perform (I := Sections) op).Uses (RecordSection fieldPrefix) :=
  Prog.uses_perform.mpr h

theorem uses_main_perform {op : Section} (h : MainSection fieldPrefix op) :
    (Prog.perform (I := Sections) op).Uses (MainSection fieldPrefix) :=
  Prog.uses_perform.mpr h

theorem uses_writeNew (msg : CanMessage) :
    (CanHashtable.writeNew msg).Uses (RecordSection fieldPrefix) := by
  refine Prog.Uses.bind (uses_record_perform trivial) fun found => ?_
  split
  · refine Prog.Uses.bind (uses_record_perform trivial) fun stored => ?_
    split
    · exact uses_record_perform trivial
    · trivial
  · exact uses_record_perform trivial

theorem uses_put (frame : CanFrame) (timestamp : Int) (syncTick : UInt64)
    (rs : MessageSend) :
    (CanHashtable.put frame timestamp syncTick rs).Uses (RecordSection fieldPrefix) := by
  refine Prog.Uses.bind (uses_digest ?_ ?_ ?_ _ _) fun hash => ?_
  · exact fun _ => trivial
  · exact fun _ _ => trivial
  · exact fun _ => trivial
  · exact Prog.Uses.bind (uses_writeNew _) fun _ => trivial

theorem uses_recordStoreFrame (redis : RedisInterface) (msg : CanMessage) :
    (redis.storeFrame msg).Uses (RecordSection redis.fieldPrefix) := by
  refine uses_storeFrame ?_ ?_ ?_ ?_ ?_ redis (fun _ _ => rfl) msg
  · exact fun _ => trivial
  · exact fun _ _ => trivial
  · exact fun _ => trivial
  · exact fun _ => trivial
  · exact fun _ => trivial

theorem uses_receiveFrame (setup : Setup) (locals : MainLocals) (frame : CanfdFrame) :
    (Main.receiveFrame setup locals frame).Uses (RecordSection setup.redis.fieldPrefix) := by
  unfold Main.receiveFrame
  dsimp only
  split
  · refine Prog.Uses.bind (uses_record_perform trivial) fun timestamp => ?_
    refine Prog.Uses.bind (uses_put _ _ _ _) fun msg => ?_
    exact Prog.Uses.bind (uses_recordStoreFrame setup.redis msg) fun _ => trivial
  · trivial

theorem uses_recordRest (setup : Setup) (counter : UInt32) (msg : CanMessage) :
    (do
      let timestamp ← Main.now
      let _ ← CanHashtable.put msg.frame timestamp counter.toUInt64 msg.messageReceieved
      setup.redis.storeFrame msg : Code Unit).Uses
        (RecordSection setup.redis.fieldPrefix) := by
  refine Prog.Uses.bind (uses_record_perform trivial) fun timestamp => ?_
  exact Prog.Uses.bind (uses_put _ _ _ _) fun _ => uses_recordStoreFrame setup.redis msg

theorem uses_sendMessage (setup : Setup) (counter : UInt32) :
    (Main.sendMessage setup counter).Uses (MainSection setup.redis.fieldPrefix) := by
  refine Prog.Uses.bind (uses_main_perform trivial) fun queued => ?_
  split
  · refine Prog.Uses.bind (uses_dequeue trivial trivial) fun msg => ?_
    split
    · refine Prog.Uses.bind (uses_main_perform trivial) fun _ => ?_
      refine Prog.Uses.bind (uses_autoRegister ?_ ?_ msg) fun _ => ?_
      · exact fun _ => trivial
      · exact fun _ _ => trivial
      exact (uses_recordRest setup counter msg).mono fun _ => mainSection_of_record
    · trivial
  · trivial

theorem uses_mainPass (setup : Setup) (locals : MainLocals) :
    (Main.mainPass setup locals).Uses (MainSection setup.redis.fieldPrefix) := by
  refine Prog.Uses.bind (uses_main_perform trivial) fun received => ?_
  split
  · exact (uses_receiveFrame setup locals _).mono fun _ => mainSection_of_record
  · exact Prog.Uses.bind (uses_sendMessage setup _) fun _ => trivial

end Main

section Handlers

theorem uses_handler_perform {op : Section} (h : HandlerSection op) :
    (Prog.perform (I := Sections) op).Uses HandlerSection :=
  Prog.uses_perform.mpr h

theorem handlerSection_of_send {op : Section} (h : SendSection op) : HandlerSection op := by
  cases op with
  | queuePush msg => exact h
  | _ => first | exact h.elim | trivial

theorem uses_push {msg : CanMessage} (h : msg.type ∈ sentTypes) :
    (FrameSendQueue.push msg).Uses SendSection :=
  Prog.uses_perform.mpr h

theorem uses_enqueuePayload (undefined : Binary64.OutOfRange) (id : UInt32)
    (payload : Json) :
    (RestApi.enqueuePayload undefined id payload).Uses SendSection := by
  have htyped : ∀ {type : ConversationType} {frame : CanFrame} {hash : Bytes},
      type ∈ sentTypes → (FrameSendQueue.queued frame hash type).type ∈ sentTypes :=
    fun h => h
  unfold RestApi.enqueuePayload
  split
  · refine Prog.Uses.bind ?_ fun _ => trivial
    refine Prog.Uses.bind (Prog.uses_perform.mpr trivial) fun declared => ?_
    refine Prog.Uses.bind (uses_digest ?_ ?_ ?_ _ _) fun hash => ?_
    · exact fun _ => trivial
    · exact fun _ _ => trivial
    · exact fun _ => trivial
    · exact Prog.Uses.bind (uses_push (htyped (by decide))) fun _ => trivial
  split
  · refine Prog.Uses.bind ?_ fun _ => trivial
    refine Prog.Uses.bind (Prog.uses_perform.mpr trivial) fun declared => ?_
    exact Prog.Uses.bind (uses_push (htyped (by decide))) fun _ => trivial
  split
  · refine Prog.Uses.bind ?_ fun _ => trivial
    refine Prog.Uses.bind (Prog.uses_perform.mpr trivial) fun declared => ?_
    exact Prog.Uses.bind (uses_push (htyped (by decide))) fun _ => trivial
  split
  · refine Prog.Uses.bind ?_ fun _ => trivial
    refine Prog.Uses.bind (Prog.uses_perform.mpr trivial) fun declared => ?_
    exact Prog.Uses.bind (uses_push (htyped (by decide))) fun _ => trivial
  · trivial

theorem uses_postSend (undefined : Binary64.OutOfRange) (body : Bytes) :
    (RestApi.postSend undefined body).Uses SendSection := by
  unfold RestApi.postSend
  split
  · trivial
  split
  · trivial
  split
  · trivial
  · exact Prog.Uses.bind (uses_enqueuePayload undefined _ _) fun _ => trivial

theorem uses_get (id : UInt16) : (CanHashtable.get id).Uses HandlerSection := by
  refine Prog.Uses.bind (uses_handler_perform trivial) fun found => ?_
  split
  · exact Prog.Uses.bind (uses_handler_perform trivial) fun _ => trivial
  · trivial

theorem uses_receive (digits : Bytes) :
    (RestApi.receive (some digits)).Uses HandlerSection := by
  refine Prog.Uses.bind (uses_get _) fun msg => ?_
  split
  · refine Prog.Uses.bind (uses_convertFrame ?_ ?_ ?_ ?_ ?_ msg) fun _ => trivial
    · exact fun _ => trivial
    · exact fun _ _ => trivial
    · exact fun _ => trivial
    · exact fun _ => trivial
    · exact fun _ => trivial
  · trivial

theorem uses_request (undefined : Binary64.OutOfRange) (request : Request) :
    (request.code undefined).Uses HandlerSection := by
  cases request with
  | send body => exact (uses_postSend undefined body).mono fun _ => handlerSection_of_send
  | receive digits => exact uses_receive digits
  | list =>
      refine Prog.Uses.bind ?_ fun _ => trivial
      exact Prog.Uses.bind (uses_handler_perform trivial) fun _ => trivial

end Handlers

theorem uses_publishAll (batch : List (Bytes × Bytes)) :
    (RedisInterface.publishAll batch).Uses WorkerSection := by
  induction batch with
  | nil => trivial
  | cons entry rest ih =>
      refine ⟨trivial, fun ok => ?_⟩
      cases ok with
      | true => exact ih
      | false => trivial

theorem uses_workerTurn (connected : Bool) :
    (RedisInterface.workerTurn connected).Uses WorkerSection := by
  cases connected with
  | false => exact ⟨trivial, fun _ => trivial⟩
  | true =>
      refine ⟨trivial, fun batch => ?_⟩
      change (ite _ _ _ : Code Bool).Uses WorkerSection
      split
      · refine ⟨trivial, fun ok => ?_⟩
        cases ok with
        | true => exact uses_publishAll batch
        | false => trivial
      · trivial

theorem uses_body (program : Program) (thread : Thread) (value : thread.Local) :
    (thread.body program value).Uses (Footprint program thread) := by
  cases thread with
  | main => exact uses_mainPass program.setup value
  | handler number request =>
      exact Prog.Uses.bind (uses_request program.undefined request) fun _ => trivial
  | worker => exact uses_workerTurn value
  | server => exact Prog.uses_perform.mpr rfl

theorem respects_between (program : Program) (system : System) (connected : Bool) :
    (between system connected).Respects (Footprint program) := by
  intro thread
  cases thread <;> trivial

end Threads

end Can2Rest
