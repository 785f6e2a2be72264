import Can2Rest.Service

/-!
# The start of a service

A worker that runs before the flag is set ends, and the flag is set after it.
-/

namespace Can2Rest.Properties

open Foundation Service

/-- A service whose start has returned and whose flag is set has its worker. -/
def StartedAlive (threads : Service.Threads) : Prop :=
  threads.shared.terminated = false → (threads.current .starter).ended = some true →
    threads.shared.threadRunning = true → (threads.current .worker).ended ≠ some .exited

instance (threads : Service.Threads) : Decidable (StartedAlive threads) := by
  unfold StartedAlive
  infer_instance

/-- The two tests on which a worker ends. -/
def isTest : ServiceOp → Bool
  | .testRunning => true
  | .testHandle => true
  | _ => false

/-- The worker tests the members of its service only after the start has set the flag. -/
def TestedAfterStart (threads : Service.Threads) (event : Service.Thread × ServiceEnv) : Prop :=
  event.1 = .worker → (threads.current .worker).head.any isTest = true →
    threads.shared.started = true

instance (threads : Service.Threads) (event : Service.Thread × ServiceEnv) :
    Decidable (TestedAfterStart threads event) := by
  unfold TestedAfterStart
  infer_instance

/-! ## The contract of the worker -/

/-- Once the flag was set it stays set, with the handle, until the worker clears it. -/
def Running (s : ServiceState) : Prop :=
  s.started = true → s.threadRunning = true ∧ s.updateThread = true

def Cleared (s : ServiceState) : Prop := s.started = true ∧ s.threadRunning = false

/-- A worker has ended only if it has cleared the flag itself. -/
def PositionHolds (position : Position) (s : ServiceState) : Prop :=
  if position = .exited then Cleared s else Running s

/-- What the start of a service does to its members. -/
structure Starts (before after : ServiceState) : Prop where
  running : Running before → Running after
  cleared : Cleared before → Cleared after
  started : before.started = true → after.started = true

theorem Starts.refl (s : ServiceState) : Starts s s := ⟨id, id, id⟩

theorem Starts.trans {a b c : ServiceState} (hab : Starts a b) (hbc : Starts b c) : Starts a c :=
  ⟨hbc.running ∘ hab.running, hbc.cleared ∘ hab.cleared, hbc.started ∘ hab.started⟩

def working : Contract ServiceOps ServiceState where
  rely _ before after := Starts before after
  may op s := isTest op = true → s.started = true
  guarantee op s := s.started = false → ∀ env, (serviceMachine op env s).2 = s

theorem ensures_silent {op : ServiceOp} {α : Type} {next : ServiceOps.Res op → Service.Code α}
    {Post : α → ServiceState → Prop} {s : ServiceState}
    (hop : ∀ env s, (serviceMachine op env s).2 = s) (hs : Running s)
    (hnext : ∀ env s, Running s → working.may op s →
      (next (serviceMachine op env s).1).Ensures serviceMachine working Post s) :
    (Service.perform op >>= next).Ensures serviceMachine working Post s := by
  intro later hlater
  refine ⟨fun _ env => hop env later, fun hmay env => ?_⟩
  change (next (serviceMachine op env later).1).Ensures _ _ _ (serviceMachine op env later).2
  rw [hop]
  exact hnext env later (hlater.running hs) hmay

theorem ensures_position {position : Position} (h : position ≠ .exited) {s : ServiceState}
    (hs : Running s) :
    (return position : Service.Code Position).Ensures serviceMachine working PositionHolds s := by
  intro later hlater
  rw [PositionHolds, if_neg h]
  exact hlater.running hs

theorem ensures_unspawned {s : ServiceState} (hs : Running s) :
    (perform .isSpawned >>= fun spawned => if spawned then return .entry else return .unspawned :
      Service.Code Position).Ensures serviceMachine working PositionHolds s := by
  refine ensures_silent (fun _ _ => rfl) hs fun env s hs _ => ?_
  split
  · exact ensures_position (by decide) hs
  · exact ensures_position (by decide) hs

theorem ensures_stop {s : ServiceState} (hs : Running s) :
    (enableService false >>= fun _ => return .exited : Service.Code Position).Ensures
      serviceMachine working PositionHolds s := by
  refine ensures_silent (fun _ _ => rfl) hs fun env s hs hmay => ?_
  have hstarted : s.started = true := hmay rfl
  have hhandle : s.updateThread = true := (hs hstarted).2
  change Prog.Ensures _ _ _ ((if s.updateThread = true then _ else _) >>= _) s
  rw [if_pos hhandle]
  intro first hfirst
  have hstarted : first.started = true := hfirst.started hstarted
  refine ⟨fun h => absurd hstarted (Bool.eq_false_iff.mp h), fun _ env second hsecond => ?_⟩
  have hcleared : Cleared second := hsecond.cleared ⟨by simp [serviceMachine, hstarted], rfl⟩
  refine ⟨fun h => absurd hcleared.1 (Bool.eq_false_iff.mp h), fun _ env third hthird => ?_⟩
  exact hthird.cleared hcleared

theorem ensures_redisWorker (position : Position) {s : ServiceState}
    (hs : PositionHolds position s) :
    (redisWorker position).Ensures serviceMachine working PositionHolds s := by
  cases position with
  | unspawned => exact ensures_unspawned hs
  | entry =>
      refine ensures_silent (fun _ _ => rfl) hs fun env s hs hmay => ?_
      have hrunning : s.threadRunning = true := (hs (hmay rfl)).1
      change Prog.Ensures _ _ _ (if s.threadRunning = true then _ else _) s
      rw [if_pos hrunning]
      refine ensures_silent (fun _ _ => rfl) hs fun env s hs _ => ?_
      split
      · exact ensures_position (by decide) hs
      · exact ensures_position (by decide) hs
  | connected =>
      refine ensures_silent (fun _ _ => rfl) hs fun env s hs _ => ?_
      split
      · refine ensures_silent (fun _ _ => rfl) hs fun env s hs _ => ?_
        split
        · exact ensures_position (by decide) hs
        · exact ensures_position (by decide) hs
      · exact ensures_position (by decide) hs
  | exited => exact fun later hlater => hlater.cleared hs

theorem ensures_restWorker (position : Position) {s : ServiceState}
    (hs : PositionHolds position s) :
    (restWorker position).Ensures serviceMachine working PositionHolds s := by
  cases position with
  | unspawned => exact ensures_unspawned hs
  | entry =>
      refine ensures_silent (fun _ _ => rfl) hs fun env s hs _ => ?_
      split
      · exact ensures_position (by decide) hs
      · exact ensures_stop hs
  | connected =>
      refine ensures_silent (fun _ _ => rfl) hs fun env s hs hmay => ?_
      have hrunning : s.threadRunning = true := (hs (hmay rfl)).1
      change Prog.Ensures _ _ _ (if s.threadRunning = true then _ else _) s
      rw [if_pos hrunning]
      exact ensures_position (by decide) hs
  | exited => exact fun later hlater => hlater.cleared hs

/-! ## The contract of the starter -/

/-- Before the flag is set the worker changes nothing. -/
def launching : Contract ServiceOps ServiceState where
  rely _ before after := before.started = false → after = before
  may _ _ := True
  guarantee op s := ∀ env, Starts s (serviceMachine op env s).2

/-- The start is still to be called, or it has been. -/
def Launched (returned : Bool) (s : ServiceState) : Prop := returned = false → s.started = false

theorem ensures_launch {op : ServiceOp} {α : Type} {next : ServiceOps.Res op → Service.Code α}
    {Post : α → ServiceState → Prop} {s : ServiceState} (hs : s.started = false)
    (hop : ∀ env, Starts s (serviceMachine op env s).2)
    (hnext : ∀ env, (next (serviceMachine op env s).1).Ensures serviceMachine launching Post
      (serviceMachine op env s).2) :
    (Service.perform op >>= next).Ensures serviceMachine launching Post s := by
  intro later hlater
  obtain rfl : later = s := hlater hs
  exact ⟨hop, fun _ env => hnext env⟩

theorem ensures_starter (kind : Kind) (returned : Bool) {s : ServiceState}
    (hs : Launched returned s) :
    (Thread.body kind .starter returned).Ensures serviceMachine launching Launched s := by
  cases returned with
  | true => exact fun _ _ => nofun
  | false =>
      have hfresh : s.started = false := hs rfl
      refine ensures_launch hfresh (fun _ => .refl s) fun env => ?_
      change Prog.Ensures _ _ _ ((if s.threadRunning = true then _ else _) >>= _) s
      split
      · exact fun _ _ => nofun
      -- the worker is spawned and detached, and its handle recorded
      refine ensures_launch hfresh (fun _ => ⟨id, id, id⟩) fun env => ?_
      refine ensures_launch hfresh (fun _ => ⟨id, id, id⟩) fun env => ?_
      refine ensures_launch hfresh (fun _ => ⟨fun h hs => ⟨(h hs).1, rfl⟩, id, id⟩) fun env => ?_
      intro later hlater
      obtain rfl := hlater hfresh
      refine ⟨fun _ => ⟨fun _ _ => ⟨rfl, rfl⟩, fun h => ?_, fun _ => Bool.or_true _⟩,
        fun _ _ => ?_⟩
      · exact absurd h.1 (Bool.eq_false_iff.mp hfresh)
      · exact fun _ _ => nofun

/-! ## Both threads -/

def duty : Service.Thread → Contract ServiceOps ServiceState
  | .starter => launching
  | .worker => working

def TurnHolds : (thread : Service.Thread) → thread.Local → ServiceState → Prop
  | .starter, returned => Launched returned
  | .worker, position => PositionHolds position

def ServiceInv (threads : Service.Threads) : Prop :=
  ∀ thread, (threads.current thread).Ensures serviceMachine (duty thread) (TurnHolds thread)
    threads.shared

theorem serviceInv_initial : ServiceInv Service.initial := by
  intro thread
  cases thread with
  | starter =>
      rintro later hlater -
      rw [hlater rfl]
      rfl
  | worker => exact ensures_position (by decide) fun h => by cases h

theorem duty_refl (thread : Service.Thread) (op : Option ServiceOp) (s : ServiceState) :
    (duty thread).rely op s s := by
  cases thread with
  | starter => exact fun _ => rfl
  | worker => exact .refl s

theorem duty_trans {thread : Service.Thread} {op : Option ServiceOp} {a b c : ServiceState}
    (hab : (duty thread).rely op a b) (hbc : (duty thread).rely op b c) :
    (duty thread).rely op a c := by
  cases thread with
  | starter =>
      intro hfresh
      obtain rfl := hab hfresh
      exact hbc hfresh
  | worker => exact Starts.trans hab hbc

theorem ensures_serviceBody (kind : Kind) (thread : Service.Thread) (value : thread.Local)
    (s : ServiceState) (hs : TurnHolds thread value s) :
    (thread.body kind value).Ensures serviceMachine (duty thread) (TurnHolds thread) s := by
  cases thread with
  | starter => exact ensures_starter kind value hs
  | worker =>
      cases kind with
      | redisInterface => exact ensures_redisWorker value hs
      | restApi => exact ensures_restWorker value hs

namespace ServiceInv

variable {kind : Kind} {threads : Service.Threads}

theorem starter_step (h : ServiceInv threads) (env : ServiceEnv) :
    Starts threads.shared (Service.step kind threads (.starter, env)).shared := by
  let event : Service.Thread × ServiceEnv := (.starter, env)
  have hstarter := h .starter
  cases hcurrent : threads.current .starter with
  | ret returned =>
      have hshared : (Service.step kind threads event).shared = threads.shared :=
        Pool.shared_step_ret event hcurrent
      rw [hshared]
      exact .refl _
  | call op next =>
      have hshared : (Service.step kind threads event).shared = _ :=
        Pool.shared_step_call event hcurrent
      rw [hcurrent] at hstarter
      rw [hshared]
      exact (hstarter _ fun _ => rfl).1 env

theorem worker_step (h : ServiceInv threads) (env : ServiceEnv)
    (hfresh : threads.shared.started = false) :
    (Service.step kind threads (.worker, env)).shared = threads.shared := by
  let event : Service.Thread × ServiceEnv := (.worker, env)
  have hworker := h .worker
  cases hcurrent : threads.current .worker with
  | ret position => exact Pool.shared_step_ret event hcurrent
  | call op next =>
      rw [hcurrent] at hworker
      exact (Pool.shared_step_call event hcurrent).trans ((hworker _ (.refl _)).1 hfresh env)

theorem step (h : ServiceInv threads) (event : Service.Thread × ServiceEnv)
    (htested : TestedAfterStart threads event) :
    ServiceInv (Service.step kind threads event) := by
  intro thread
  refine Pool.ensures_step (duty_refl thread) duty_trans (ensures_serviceBody kind thread) ?_ ?_
    (h thread)
  · intro hevent op hop
    cases thread with
    | starter => trivial
    | worker => exact fun htest => htested hevent (by rw [hop]; exact htest)
  · intro hevent
    obtain ⟨acting, env⟩ := event
    cases thread with
    | starter =>
        cases acting with
        | starter => exact absurd rfl hevent
        | worker => exact h.worker_step env
    | worker =>
        cases acting with
        | starter => exact h.starter_step env
        | worker => exact absurd rfl hevent

theorem startedAlive (h : ServiceInv threads) : StartedAlive threads := by
  intro _ _ hrunning hended
  have hworker := h .worker
  cases hcurrent : threads.current .worker with
  | call op next =>
      rw [hcurrent] at hended
      cases hended
  | ret position =>
      rw [hcurrent] at hended hworker
      cases hended
      have hcleared : Cleared threads.shared := hworker _ (.refl _)
      rw [hcleared.2] at hrunning
      cases hrunning

end ServiceInv

/-- A service whose worker waits for the flag is alive when its start has returned. -/
theorem startedAlive_run (kind : Kind) (schedule : List (Service.Thread × ServiceEnv))
    (htested : Along (Service.step kind) TestedAfterStart Service.initial schedule) :
    StartedAlive (runFrom (Service.step kind) Service.initial schedule) :=
  (htested.invariant ServiceInv (fun _ event hevent hinv => hinv.step event hevent)
    serviceInv_initial).startedAlive

def serviceSchedule (turns : List (Service.Thread × Nat)) : List (Service.Thread × ServiceEnv) :=
  turns.flatMap fun turn => List.replicate turn.2 (turn.1, ⟨false, false⟩)

theorem startedAlive_startFirst :
    StartedAlive (runFrom (Service.step .redisInterface) Service.initial
      (serviceSchedule [(.starter, 7), (.worker, 8)])) :=
  startedAlive_run .redisInterface _ (by decide +kernel)

/-- A worker that runs to its end as soon as it is spawned leaves a flag without a service. -/
theorem workerFirst_dead :
    ¬ StartedAlive (runFrom (Service.step .redisInterface) Service.initial
        (serviceSchedule [(.starter, 3), (.worker, 5), (.starter, 4)])) ∧
      ¬ StartedAlive (runFrom (Service.step .restApi) Service.initial
        (serviceSchedule [(.starter, 3), (.worker, 5), (.starter, 4)])) := by
  decide +kernel

end Can2Rest.Properties
