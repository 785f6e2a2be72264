import Can2Rest.Properties.FailedSends
import Can2Rest.Threads

/-!
# The Redis switches

`main` enables the writing to Redis whatever `REDIS_ENABLE_WRITE` says, so the
switch is without effect wherever a frame can be recorded at all.
-/

namespace Can2Rest.Properties

open Foundation Shared Threads

def Started (config : ConfigParser) : Thread → Prop
  | .main => True
  | .handler _ _ => config.getBoolNocheck .restWebserverEnable = true
  | .worker => config.getBoolNocheck .redisEnable = true
  | .server => True

def Scheduled (config : ConfigParser) (schedule : List (Thread × Env)) : Prop :=
  ∀ event ∈ schedule, Started config event.1

def programOf (config : ConfigParser) (undefined : Binary64.OutOfRange) : Program :=
  ⟨Main.setup config, undefined⟩

/-- The hash is written, at the worker's command or late. -/
def WritesHash (op : Section) (env : Env) (state : Bridge) : Prop :=
  match op with
  | .redisHmset _ => True
  | .redisLate => ∃ batch, state.redisServer.late[env.late]? = some (.hmset batch)
  | _ => False

def NeverDelivers (program : Program) (threads : Threads) (schedule : List (Thread × Env)) :
    Prop :=
  Along (Threads.step program)
    (Pool.Calls fun _ op env state => ¬ WritesHash op env state) threads schedule

/-- A switch that reads as false is heeded in every run. -/
structure HonoursSwitches (config : ConfigParser) : Prop where
  delivered : config.getBoolNocheck .redisEnableWrite = false ∨
    config.getBoolNocheck .redisEnable = false →
      ∀ undefined hash fr schedule, Scheduled config schedule →
        NeverDelivers (programOf config undefined) (start config hash fr) schedule
  pending : config.getBoolNocheck .redisEnableWrite = false →
    ∀ undefined hash fr schedule, Scheduled config schedule →
      (runFrom (Threads.step (programOf config undefined)) (start config hash fr)
        schedule).shared.writeMap = ∅

def NoHmset (state : Bridge) : Prop := ∀ batch, .hmset batch ∉ state.redisServer.late

theorem NoHmset.not_writesHash {state : Bridge} (h : NoHmset state) {op : Section}
    (hop : ∀ batch, op ≠ .redisHmset batch) (env : Env) : ¬ WritesHash op env state := by
  cases op with
  | redisHmset batch => exact absurd rfl (hop batch)
  | redisLate =>
      rintro ⟨batch, hlate⟩
      exact h batch (List.mem_of_getElem? hlate)
  | _ => exact id

theorem NoHmset.section {state : Bridge} (h : NoHmset state) {op : Section}
    (hop : ∀ batch, op ≠ .redisHmset batch) (env : Env) : NoHmset (bridge op env state).2 := by
  cases op with
  | redisHmset batch => exact absurd rfl (hop batch)
  | redisPublish field =>
      intro batch hmem
      change _ ∈ (state.redisServer.attempt env.redis (.publish field)).late at hmem
      unfold RedisServer.attempt at hmem
      split at hmem
      · exact h batch hmem
      · rcases List.mem_append.mp hmem with hold | hnew
        · exact h batch hold
        · cases List.mem_singleton.mp hnew
  | redisLate =>
      exact fun batch hmem =>
        h batch (RedisServer.late_executeLate_subset state.redisServer env.late hmem)
  | queuePop =>
      change NoHmset state.queuePop.2
      unfold Bridge.queuePop
      split <;> exact h
  | _ => exact h

/-! ## Without the worker -/

theorem ne_redisHmset_of_footprint {program : Program} {thread : Thread} {op : Section}
    (hthread : thread ≠ .worker) (h : Footprint program thread op) (batch : List (Bytes × Bytes)) :
    op ≠ .redisHmset batch := by
  rintro rfl
  cases thread with
  | main => exact h
  | handler number request => exact h
  | worker => exact hthread rfl
  | server => cases h

theorem neverDelivers_of_idleWorker {program : Program} {threads : Threads}
    {schedule : List (Thread × Env)} (hrespects : threads.Respects (Footprint program))
    (hnone : NoHmset threads.shared) (h : ∀ event ∈ schedule, event.1 ≠ Thread.worker) :
    NeverDelivers program threads schedule := by
  refine Along.mono_of_invariant
    (fun threads => threads.Respects (Footprint program) ∧ NoHmset threads.shared) ?_
    (along_iff_forall.mpr h) ⟨hrespects, hnone⟩
  rintro threads event hthread ⟨hrespects, hnone⟩
  have hnext : (Threads.step program threads event).Respects (Footprint program) :=
    hrespects.step (uses_body program) event
  have huses := hrespects event.1
  cases hcurrent : threads.current event.1 with
  | ret value =>
      refine ⟨?_, hnext, ?_⟩
      · rw [Pool.Calls, hcurrent]
        trivial
      · rwa [Threads.step, Pool.shared_step_ret event hcurrent]
  | call op next =>
      rw [hcurrent] at huses
      have hop := ne_redisHmset_of_footprint hthread huses.1
      refine ⟨?_, hnext, ?_⟩
      · rw [Pool.calls_call hcurrent]
        exact hnone.not_writesHash hop _
      · rw [Threads.step, Pool.shared_step_call event hcurrent]
        exact hnone.section hop _

/-! ## Nothing to record -/

/-- Nothing is queued, nothing is pending, and nothing is to be written late. -/
structure Still (state : Bridge) : Prop where
  queue : state.messageQueue = []
  pending : state.writeMap = ∅
  noHmset : NoHmset state

def Resting : Section → Prop
  | .queuePush _ | .mapInsert _ _ _ | .redisHmset _ => False
  | _ => True

theorem Still.section {state : Bridge} {op : Section} (h : Still state) (hop : Resting op)
    (env : Env) : Still (bridge op env state).2 := by
  obtain ⟨hqueue, hmap, hnone⟩ := h
  have hlate : NoHmset (bridge op env state).2 := by
    refine hnone.section ?_ env
    rintro batch rfl
    exact hop
  cases op with
  | queuePush msg => exact hop.elim
  | mapInsert fieldPrefix id json => exact hop.elim
  | redisHmset batch => exact hop.elim
  | queuePop =>
      change Still state.queuePop.2
      rw [Bridge.queuePop, hqueue]
      exact ⟨hqueue, hmap, hnone⟩
  | mapTake => exact ⟨hqueue, rfl, hlate⟩
  | _ => exact ⟨hqueue, hmap, hlate⟩

/-- A thread records nothing as long as nothing is queued and nothing is pending. -/
def resting : Contract Sections Bridge where
  rely _ before after := Still before → Still after
  may _ _ := True
  guarantee op _ := Resting op

theorem resting_refl (op : Option Section) (state : Bridge) : resting.rely op state state := id

theorem resting_trans {op : Option Section} {a b c : Bridge} (hab : resting.rely op a b)
    (hbc : resting.rely op b c) : resting.rely op a c :=
  fun h => hbc (hab h)

theorem ensures_resting {α : Type} {program : Code α} (hprogram : program.Uses Resting)
    {state : Bridge} (h : Still state) :
    program.Ensures bridge resting (fun _ => Still) state :=
  hprogram.ensures (fun _ hrely => hrely) (fun _ _ hop _ => hop)
    (fun _ _ env hop _ hstill => hstill.section hop env) h

theorem ensures_resting_ret {α : Type} (value : α) {state : Bridge} (h : Still state) :
    (Prog.ret value : Code α).Ensures bridge resting (fun _ => Still) state :=
  fun _ hlater => hlater h

theorem uses_resting_perform (op : Section) (hop : Resting op) :
    (Prog.perform (I := Sections) op).Uses Resting :=
  Prog.uses_perform.mpr hop

theorem ensures_resting_perform (op : Section) (hop : Resting op)
    (Result : Sections.Res op → Prop)
    (hresult : ∀ env state, Still state → Result (bridge op env state).1) {state : Bridge}
    (h : Still state) :
    (Prog.perform (I := Sections) op).Ensures bridge resting
      (fun result state => Result result ∧ Still state) state := by
  rw [Prog.ensures_perform]
  intro later hlater
  refine ⟨hop, fun _ env last hlast => ?_⟩
  exact ⟨hresult env later (hlater h), hlast ((hlater h).section hop env)⟩

def Rejects (setup : Setup) : Prop := ∀ id, setup.idFilter.checkMessage id = false

theorem ensures_resting_sendMessage (setup : Setup) (counter : UInt32) {state : Bridge}
    (h : Still state) :
    (Main.sendMessage setup counter).Ensures bridge resting (fun _ => Still) state := by
  have hsize : ∀ env state, Still state → (bridge .queueSize env state).1 = (0 : Int) := by
    intro env state hstill
    rw [bridge, hstill.queue, List.length_nil, asInt_eq_self (by omega)]
    rfl
  refine Prog.Ensures.bind (resting_refl none)
    (ensures_resting_perform .queueSize trivial (fun queued : Int => queued = 0) hsize h)
    fun queued state hqueued => ?_
  obtain ⟨rfl, hstill⟩ := hqueued
  rw [if_neg (by decide)]
  exact ensures_resting_ret _ hstill

theorem ensures_resting_mainPass {setup : Setup} (hrejects : Rejects setup)
    (locals : MainLocals) {state : Bridge} (h : Still state) :
    (Main.mainPass setup locals).Ensures bridge resting (fun _ => Still) state := by
  refine Prog.Ensures.bind (resting_refl none)
    (ensures_resting (uses_resting_perform .canRead trivial) h) fun received state hstill => ?_
  cases received with
  | some frame =>
      refine ensures_resting ?_ hstill
      unfold Main.receiveFrame
      dsimp only
      rw [if_neg (by rw [hrejects]; exact Bool.false_ne_true)]
      trivial
  | none =>
      refine Prog.Ensures.bind (resting_refl none)
        (ensures_resting_sendMessage setup _ hstill) fun _ state hstill => ?_
      exact ensures_resting_ret _ hstill

theorem ensures_resting_workerTurn (connected : Bool) {state : Bridge} (h : Still state) :
    (RedisInterface.workerTurn connected).Ensures bridge resting (fun _ => Still) state := by
  have htaken : ∀ env state, Still state → (bridge .mapTake env state).1 = [] := by
    intro env state hstill
    have hperm := (env.order state.writeMap.toList).2
    rw [hstill.pending] at hperm
    change (env.order state.writeMap.toList).1 = []
    rw [hstill.pending]
    exact hperm.eq_nil
  cases connected with
  | false => exact ensures_resting (uses_resting_perform .redisConnect trivial) h
  | true =>
      refine Prog.Ensures.bind (resting_refl none)
        (ensures_resting_perform .mapTake trivial (· = []) htaken h) fun batch state hbatch => ?_
      obtain ⟨rfl, hstill⟩ := hbatch
      exact ensures_resting_ret _ hstill

/-- Where no handler runs and no frame is accepted, no running thread records anything. -/
structure Rests (config : ConfigParser) (threads : Threads) : Prop where
  still : Still threads.shared
  current : ∀ thread, Started config thread →
    (threads.current thread).Ensures bridge resting (fun _ => Still) threads.shared

section Rests

variable {config : ConfigParser} {undefined : Binary64.OutOfRange} {threads : Threads}

theorem ensures_resting_body (hrest : config.getBoolNocheck .restWebserverEnable = false)
    (hrejects : Rejects (Main.setup config)) {thread : Thread} (hthread : Started config thread)
    (value : thread.Local) {state : Bridge} (h : Still state) :
    (thread.body (programOf config undefined) value).Ensures bridge resting (fun _ => Still)
      state := by
  cases thread with
  | main => exact ensures_resting_mainPass hrejects value h
  | handler number request =>
      rw [Started, hrest] at hthread
      cases hthread
  | worker => exact ensures_resting_workerTurn value h
  | server => exact ensures_resting (uses_resting_perform .redisLate trivial) h

theorem Rests.calls (h : Rests config threads) {event : Thread × Env}
    (hthread : Started config event.1) :
    Pool.Calls (fun _ op _ _ => Resting op) threads event := by
  have hensures := h.current event.1 hthread
  cases hcurrent : threads.current event.1 with
  | ret value =>
      rw [Pool.Calls, hcurrent]
      trivial
  | call op next =>
      rw [Pool.calls_call hcurrent]
      rw [hcurrent] at hensures
      exact (hensures _ (resting_refl _ _)).1

theorem Rests.still_step (h : Rests config threads) {event : Thread × Env}
    (hthread : Started config event.1) :
    Still (Threads.step (programOf config undefined) threads event).shared := by
  have hcalls := h.calls hthread
  cases hcurrent : threads.current event.1 with
  | ret value =>
      rw [Threads.step, Pool.shared_step_ret event hcurrent]
      exact h.still
  | call op next =>
      rw [Pool.calls_call hcurrent] at hcalls
      rw [Threads.step, Pool.shared_step_call event hcurrent]
      exact h.still.section hcalls event.2

theorem Rests.step (hrest : config.getBoolNocheck .restWebserverEnable = false)
    (hrejects : Rejects (Main.setup config)) (h : Rests config threads) {event : Thread × Env}
    (hthread : Started config event.1) :
    Rests config (Threads.step (programOf config undefined) threads event) where
  still := h.still_step hthread
  current := by
    intro thread hrunning
    refine Pool.ensures_step resting_refl resting_trans ?_ (fun _ _ _ => trivial) ?_
      (h.current thread hrunning)
    · exact fun value state hstill => ensures_resting_body hrest hrejects hrunning value hstill
    · exact fun _ _ => h.still_step hthread

theorem rests_start (config : ConfigParser) (hash : StringMap) (fr : CanFrame) :
    Rests config (start config hash fr) where
  still := ⟨rfl, rfl, nofun⟩
  current := by
    intro thread _
    cases thread <;> exact ensures_resting_ret _ ⟨rfl, rfl, nofun⟩

end Rests

section Rejecting

variable {config : ConfigParser} {undefined : Binary64.OutOfRange} {threads : Threads}
  {schedule : List (Thread × Env)}

theorem rests_run (hrest : config.getBoolNocheck .restWebserverEnable = false)
    (hrejects : Rejects (Main.setup config)) (h : Rests config threads)
    (hschedule : Scheduled config schedule) :
    Rests config (runFrom (Threads.step (programOf config undefined)) threads schedule) :=
  (along_iff_forall.mpr hschedule).invariant (Rests config)
    (fun _ _ hthread hrests => hrests.step hrest hrejects hthread) h

theorem neverDelivers_of_rests (hrest : config.getBoolNocheck .restWebserverEnable = false)
    (hrejects : Rejects (Main.setup config)) (h : Rests config threads)
    (hschedule : Scheduled config schedule) :
    NeverDelivers (programOf config undefined) threads schedule := by
  refine Along.mono_of_invariant (Rests config) ?_ (along_iff_forall.mpr hschedule) h
  intro threads event hthread hrests
  refine ⟨?_, hrests.step hrest hrejects hthread⟩
  have hcalls := hrests.calls hthread
  cases hcurrent : threads.current event.1 with
  | ret value =>
      rw [Pool.Calls, hcurrent]
      trivial
  | call op next =>
      rw [Pool.calls_call hcurrent] at hcalls ⊢
      refine hrests.still.noHmset.not_writesHash ?_ event.2
      rintro batch rfl
      exact hcalls

end Rejecting

/-! ## Something to record -/

section Recording

variable {config : ConfigParser} {undefined : Binary64.OutOfRange} {hash : StringMap}
  {fr : CanFrame}

theorem scheduled_replicate (thread : Thread) (hthread : Started config thread) (n : Nat)
    (env : Env) : Scheduled config (List.replicate n (thread, env)) := by
  intro event hevent
  rw [List.eq_of_mem_replicate hevent]
  exact hthread

theorem insertIfNew_ne_empty (map : StringMap) (field json : Bytes) :
    map.insertIfNew field json ≠ ∅ := by
  intro h
  have hmem : field ∈ map.insertIfNew field json := by simp
  rw [h] at hmem
  simp at hmem

theorem exists_pending_of_accepted {id : UInt16}
    (haccepted : (Main.setupFilter config).checkMessage id = true) :
    ∃ schedule, Scheduled config schedule ∧
      (runFrom (Threads.step (programOf config undefined)) (start config hash fr)
        schedule).shared.writeMap ≠ ∅ := by
  let env : Env := { received := some (emptyFrame id.toUInt32) }
  have hcheck : (programOf config undefined).setup.idFilter.checkMessage
      (key (emptyFrame id.toUInt32).canId) = true := by
    rw [emptyFrame, key, UInt16.toUInt16_toUInt32]
    exact haccepted
  obtain ⟨n, hrun⟩ := exists_main (programOf config undefined) (System.initial config hash fr)
    false env
  refine ⟨_, scheduled_replicate .main trivial n env, ?_⟩
  rw [start, hrun, System.step_accepted rfl hcheck]
  exact insertIfNew_ne_empty _ _ _

theorem exists_pending_of_restWebserver
    (hrest : config.getBoolNocheck .restWebserverEnable = true) :
    ∃ schedule, Scheduled config schedule ∧
      (runFrom (Threads.step (programOf config undefined)) (start config hash fr)
        schedule).shared.writeMap ≠ ∅ := by
  have hrequest : RestApi.Requests (cStr boolRequest) (.int 1) (.bool true) :=
    requests_of_scalarRequest (by decide +kernel)
  let program := programOf config undefined
  let env : Env := {}
  let id := key ((Json.int 1).numberValue.toUnsigned undefined)
  let requested : System :=
    ⟨RestApi.enqueuedState undefined id (.bool true) env (Main.initial config hash), ⟨fr, 0⟩⟩
  obtain ⟨first, hfirst⟩ := exists_handler program (System.initial config hash fr) false
    (.send boolRequest) env
  obtain ⟨second, hsecond⟩ := exists_main program requested false env
  have hrequested : runFrom (Threads.step program) (start config hash fr)
      (List.replicate first (.handler 0 (.send boolRequest), env)) = between requested false := by
    refine hfirst.trans ?_
    rw [Request.code, RestApi.run_postSend_of_requests hrequest]
    rfl
  -- `dequeue` finds the message: one is not a count that an `int` shows as zero.
  have hvisible : ¬ FrameSendQueue.Hidden requested.shared := by
    have hone : asInt requested.shared.messageQueue.length = 1 := asInt_eq_self (n := 1) (by omega)
    rw [FrameSendQueue.Hidden, hone]
    decide
  refine ⟨List.replicate first (.handler 0 (.send boolRequest), env) ++
    List.replicate second (.main, env), ?_, ?_⟩
  · intro event hevent
    rcases List.mem_append.mp hevent with hhandler | hmain
    · exact scheduled_replicate (.handler 0 (.send boolRequest)) hrest first env event hhandler
    · exact scheduled_replicate .main trivial second env event hmain
  · rw [runFrom_append, hrequested, hsecond, System.step_sent rfl rfl hvisible]
    exact insertIfNew_ne_empty _ _ _

end Recording

/-! ## The two kinds of configurations -/

/-- No frame can be recorded: the server is off and the filter lets nothing through. -/
def RecordsNothing (config : ConfigParser) : Prop :=
  config.getBoolNocheck .restWebserverEnable = false ∧
    ∀ id, (Main.setupFilter config).checkMessage id = false

theorem recordsNothing_of_honoursSwitches {config : ConfigParser} (h : HonoursSwitches config)
    (hwrite : config.getBoolNocheck .redisEnableWrite = false) : RecordsNothing config := by
  have hempty := h.pending hwrite .x86 ∅ CanMessage.zero.frame
  refine ⟨?_, fun id => ?_⟩
  · by_contra hrest
    obtain ⟨schedule, hscheduled, hpending⟩ :=
      exists_pending_of_restWebserver (Bool.eq_true_of_not_eq_false hrest)
    exact hpending (hempty schedule hscheduled)
  · by_contra haccepted
    obtain ⟨schedule, hscheduled, hpending⟩ :=
      exists_pending_of_accepted (Bool.eq_true_of_not_eq_false haccepted)
    exact hpending (hempty schedule hscheduled)

theorem honoursSwitches_of_write {config : ConfigParser}
    (hwrite : config.getBoolNocheck .redisEnableWrite = true) : HonoursSwitches config where
  delivered := by
    rintro (hoff | hredis) undefined hash fr schedule hscheduled
    · rw [hwrite] at hoff
      cases hoff
    · have hnone : NoHmset (start config hash fr).shared := nofun
      refine neverDelivers_of_idleWorker (respects_between _ _ _) hnone
        fun event hevent hworker => ?_
      have hrunning := hscheduled event hevent
      rw [hworker, Started, hredis] at hrunning
      cases hrunning
  pending := by
    intro hoff
    rw [hwrite] at hoff
    cases hoff

theorem honoursSwitches_of_recordsNothing {config : ConfigParser} (h : RecordsNothing config) :
    HonoursSwitches config where
  delivered _ _ hash fr _ hscheduled :=
    neverDelivers_of_rests h.1 h.2 (rests_start config hash fr) hscheduled
  pending _ _ hash fr _ hscheduled :=
    (rests_run h.1 h.2 (rests_start config hash fr) hscheduled).still.pending

theorem honoursSwitches_iff (config : ConfigParser) :
    HonoursSwitches config ↔
      config.getBoolNocheck .redisEnableWrite = true ∨ RecordsNothing config := by
  constructor
  · intro h
    cases hwrite : config.getBoolNocheck .redisEnableWrite with
    | true => exact .inl rfl
    | false => exact .inr (recordsNothing_of_honoursSwitches h hwrite)
  · rintro (hwrite | hnothing)
    · exact honoursSwitches_of_write hwrite
    · exact honoursSwitches_of_recordsNothing hnothing

def writeDisabled : ConfigParser :=
  .loadConfigFile (INIReader.read
    [(ascii "SETTINGS", ascii "REST_WEBSERVER_ENABLE", ascii "1"),
     (ascii "SETTINGS", ascii "REDIS_ENABLE_WRITE", ascii "0")])

theorem writeDisabled_not_honoured : ¬ HonoursSwitches writeDisabled := by
  intro h
  have hnothing := recordsNothing_of_honoursSwitches h (by decide +kernel)
  have hrest : writeDisabled.getBoolNocheck .restWebserverEnable = true := by decide +kernel
  rw [hnothing.1] at hrest
  cases hrest

end Can2Rest.Properties
