import Can2Rest.Foundation.Interleaving

/-!
# Critical sections

A finer reading of a pool of threads.  An operation that is executed under a mutex
is taken, statement by statement, between `lock` and `unlock`, and the statements of
different threads alternate freely.  The state consists of parts, one for every
mutex and one that no mutex guards.

Such a pool is simulated by the pool in which every operation is one step: the
operation takes place when its mutex is released.
-/

namespace Can2Rest.Foundation

/-! ## Parts of a state -/

/-- What `f` does depends on one part of the state and changes no other. -/
structure LocalTo {σ α R : Type} {Part : R → Type} (part : (region : R) → σ → Part region)
    (region : R) (f : σ → α × σ) : Prop where
  congr : ∀ {s s'}, part region s = part region s' →
    (f s).1 = (f s').1 ∧ part region (f s).2 = part region (f s').2
  frame : ∀ s {other}, other ≠ region → part other (f s).2 = part other s

section Parts

variable {I : Interface} {σ ε α R : Type} {Part : R → Type}
variable {part : (region : R) → σ → Part region} {region : R} {machine : Machine I σ ε}

theorem Prog.Uses.localTo {program : Prog I α}
    (h : program.Uses fun op => ∀ env, LocalTo part region (machine op env)) (env : ε) :
    LocalTo part region (program.run machine env) := by
  induction program with
  | ret value => exact ⟨fun hpart => ⟨rfl, hpart⟩, fun _ _ _ => rfl⟩
  | call op next ih =>
      refine ⟨fun {s s'} hpart => ?_, fun s other hother => ?_⟩
      · obtain ⟨hresult, hstate⟩ := (h.1 env).congr hpart
        have hnext := (ih (machine op env s).1 (h.2 _)).congr hstate
        rw [hresult] at hnext
        rw [Prog.run, Prog.run, hresult]
        exact hnext
      · exact ((ih _ (h.2 _)).frame _ hother).trans ((h.1 env).frame s hother)

def Confined (part : (region : R) → σ → Part region) (region : R) (machine : Machine I σ ε)
    (P : I.Op → σ → Prop) (op : I.Op) : Prop :=
  (∀ env, LocalTo part region (machine op env)) ∧
    ∀ state state', part region state = part region state' → P op state → P op state'

theorem Prog.Executes.congr {P : I.Op → σ → Prop} {program : Prog I α} {env : ε}
    {state state' : σ} (huses : program.Uses (Confined part region machine P))
    (hpart : part region state = part region state') (h : program.Executes machine env P state) :
    program.Executes machine env P state' := by
  induction program generalizing state state' with
  | ret value => trivial
  | call op next ih =>
      obtain ⟨hresult, hstate⟩ := (huses.1.1 env).congr hpart
      refine ⟨huses.1.2 _ _ hpart h.1, ?_⟩
      rw [← hresult]
      exact ih _ (huses.2 _) hstate h.2

end Parts

/-! ## Locks -/

inductive Access (M : Type) where
  /-- Between `lock` and `unlock`. -/
  | locked (mutex : M)
  /-- Without the mutex that guards it. -/
  | bare (mutex : M)
  /-- No mutex guards it. -/
  | own

def Access.region {M : Type} : Access M → Option M
  | .locked mutex | .bare mutex => some mutex
  | .own => none

/--
The statements of the operations, when they only read, and the parts of the state that
they work on.
-/
structure Locking (I J : Interface) (σ ε ι M : Type) where
  access : ι → I.Op → Access M
  code : (op : I.Op) → Prog J (I.Res op)
  statement : Machine J σ ε
  reads : J.Op → σ → Prop
  Part : Option M → Type
  part : (region : Option M) → σ → Part region

inductive Phase (I J : Interface) (ε M α : Type) where
  | outside (program : Prog I α)
  | inside (mutex : M) (op : I.Op) (env : ε) (rest : Prog J (I.Res op))
      (next : I.Res op → Prog I α)

def Phase.Holds {I J : Interface} {ε M α : Type} (mutex : M) : Phase I J ε M α → Prop
  | .outside _ => False
  | .inside held _ _ _ _ => held = mutex

structure LockedPool (I J : Interface) (σ ε M : Type) {ι : Type} (L : ι → Type) where
  shared : σ
  phase : (thread : ι) → Phase I J ε M (L thread)
  owner : M → Option ι

namespace LockedPool

variable {I J : Interface} {σ ε ι M : Type} {L : ι → Type} [DecidableEq ι] [DecidableEq M]
variable (locking : Locking I J σ ε ι M) (machine : Machine I σ ε)
variable (body : (thread : ι) → L thread → Prog I (L thread))

omit [DecidableEq M] in
def moved (pool : LockedPool I J σ ε M L) (thread : ι) (phase : Phase I J ε M (L thread))
    (shared : σ) (owner : M → Option ι) : LockedPool I J σ ε M L where
  shared := shared
  phase := Function.update pool.phase thread phase
  owner := owner

/--
One step of one thread: begin the next turn, lock, execute a statement, unlock, or make
a call that takes no lock.  A thread that finds its mutex locked waits.
-/
def step (pool : LockedPool I J σ ε M L) (event : ι × ε) : LockedPool I J σ ε M L :=
  match pool.phase event.1 with
  | .outside (.ret value) =>
      pool.moved event.1 (.outside (body event.1 value)) pool.shared pool.owner
  | .outside (.call op next) =>
      match locking.access event.1 op with
      | .locked mutex =>
          if pool.owner mutex = none then
            pool.moved event.1 (.inside mutex op event.2 (locking.code op) next) pool.shared
              (Function.update pool.owner mutex (some event.1))
          else pool
      | _ =>
          let outcome := machine op event.2 pool.shared
          pool.moved event.1 (.outside (next outcome.1)) outcome.2 pool.owner
  | .inside mutex op env (.call statement rest) next =>
      let outcome := locking.statement statement env pool.shared
      pool.moved event.1 (.inside mutex op env (rest outcome.1) next) outcome.2 pool.owner
  | .inside mutex _ _ (.ret result) next =>
      pool.moved event.1 (.outside (next result)) pool.shared
        (Function.update pool.owner mutex none)

/-- The step of the simulating pool: an operation under a mutex happens at `unlock`. -/
def commit (pool : LockedPool I J σ ε M L) (event : ι × ε) : Option (ι × ε) :=
  match pool.phase event.1 with
  | .outside (.ret _) => some event
  | .outside (.call op _) =>
      match locking.access event.1 op with
      | .locked _ => none
      | _ => some event
  | .inside _ _ _ (.call _ _) _ => none
  | .inside _ _ env (.ret _) _ => some (event.1, env)

def commits (pool : LockedPool I J σ ε M L) : List (ι × ε) → List (ι × ε)
  | [] => []
  | event :: events =>
      (pool.commit locking event).toList ++
        commits (pool.step locking machine body event) events

end LockedPool

/-! ## Simulation -/

namespace Locking

variable {I J : Interface} {σ ε ι M : Type}

def Guards (locking : Locking I J σ ε ι M) (mutex : M) : J.Op → Prop :=
  Confined locking.part (some mutex) locking.statement locking.reads

/-- An operation is what its statements do alone, and they work on its part of the state. -/
structure Sound (locking : Locking I J σ ε ι M) (machine : Machine I σ ε) : Prop where
  ext : ∀ {state state'},
    (∀ region, locking.part region state = locking.part region state') → state = state'
  runs : ∀ {thread op mutex}, locking.access thread op = .locked mutex → ∀ env state,
    (locking.code op).run locking.statement env state = machine op env state
  code : ∀ {thread op mutex}, locking.access thread op = .locked mutex →
    (locking.code op).Uses (locking.Guards mutex)
  reads : ∀ {statement state}, locking.reads statement state → ∀ env,
    (locking.statement statement env state).2 = state
  single : ∀ {thread op}, (∀ mutex, locking.access thread op ≠ .locked mutex) → ∀ env,
    LocalTo locking.part (locking.access thread op).region (machine op env)

/-- What a thread is at without the mutex is only read, by this thread and by the others. -/
def Undisturbed {L : ι → Type} (locking : Locking I J σ ε ι M) (machine : Machine I σ ε)
    (pool : Pool I σ L) : Prop :=
  ∀ thread op next mutex, pool.current thread = .call op next →
    locking.access thread op = .bare mutex →
      (∀ env, (machine op env pool.shared).2 = pool.shared) ∧
      ∀ other op' next', pool.current other = .call op' next' →
        locking.access other op' = .locked mutex → ∀ env,
          (locking.code op').Executes locking.statement env locking.reads pool.shared

variable {locking : Locking I J σ ε ι M} {machine : Machine I σ ε}

theorem localTo_of_guards {mutex : M} {α : Type} {program : Prog J α}
    (h : program.Uses (locking.Guards mutex)) (env : ε) :
    LocalTo locking.part (some mutex) (program.run locking.statement env) :=
  Prog.Uses.localTo (h.mono fun _ hop => hop.1) env

theorem Sound.localTo (h : locking.Sound machine) {thread : ι} {op : I.Op} {mutex : M}
    (haccess : locking.access thread op = .locked mutex) (env : ε) :
    LocalTo locking.part (some mutex) (machine op env) := by
  have hrun := localTo_of_guards (h.code haccess) env
  have heq : (locking.code op).run locking.statement env = machine op env :=
    funext fun state => h.runs haccess env state
  rwa [heq] at hrun

end Locking

namespace LockedPool

variable {I J : Interface} {σ ε ι M : Type} {L : ι → Type}
variable (locking : Locking I J σ ε ι M) (machine : Machine I σ ε)

/-- The rest of a section does from here what the operation does in the simulating pool. -/
structure Ahead (state simulated : σ) (thread : ι) (mutex : M) (op : I.Op) (env : ε)
    (rest : Prog J (I.Res op)) : Prop where
  access : locking.access thread op = .locked mutex
  guards : rest.Uses (locking.Guards mutex)
  result : (rest.run locking.statement env state).1 = (machine op env simulated).1
  part : locking.part (some mutex) (rest.run locking.statement env state).2 =
    locking.part (some mutex) (machine op env simulated).2
  reads : (locking.code op).Executes locking.statement env locking.reads simulated →
    rest.Executes locking.statement env locking.reads state ∧
      locking.part (some mutex) state = locking.part (some mutex) simulated

def Follows (state simulated : σ) (thread : ι) (phase : Phase I J ε M (L thread))
    (current : Prog I (L thread)) : Prop :=
  match phase with
  | .outside program => current = program
  | .inside mutex op env rest next =>
      current = .call op next ∧ Ahead locking machine state simulated thread mutex op env rest

/-- Outside the sections in progress the two states agree. -/
structure Simulates (pool : LockedPool I J σ ε M L) (simulating : Pool I σ L) : Prop where
  thread : ∀ thread, Follows locking machine pool.shared simulating.shared thread
    (pool.phase thread) (simulating.current thread)
  part : ∀ region, (∀ mutex, region = some mutex → pool.owner mutex = none) →
    locking.part region pool.shared = locking.part region simulating.shared
  owner : ∀ mutex thread, pool.owner mutex = some thread ↔ (pool.phase thread).Holds mutex

variable {locking machine}

theorem Ahead.congr (hsound : locking.Sound machine) {state state' simulated simulated' : σ}
    {thread : ι} {mutex : M} {op : I.Op} {env : ε} {rest : Prog J (I.Res op)}
    (hstate : locking.part (some mutex) state = locking.part (some mutex) state')
    (hsimulated : locking.part (some mutex) simulated = locking.part (some mutex) simulated')
    (h : Ahead locking machine state simulated thread mutex op env rest) :
    Ahead locking machine state' simulated' thread mutex op env rest := by
  obtain ⟨hresult, hpart⟩ := (Locking.localTo_of_guards h.guards env).congr hstate
  obtain ⟨hresult', hpart'⟩ := (hsound.localTo h.access env).congr hsimulated
  refine ⟨h.access, h.guards, ?_, ?_, fun hreads => ?_⟩
  · rw [← hresult, h.result, hresult']
  · rw [← hpart, h.part, hpart']
  · obtain ⟨hrest, hsame⟩ := h.reads (hreads.congr (hsound.code h.access) hsimulated.symm)
    exact ⟨hrest.congr h.guards hstate, hstate.symm.trans (hsame.trans hsimulated)⟩

theorem Ahead.statement (hsound : locking.Sound machine) {state simulated : σ} {thread : ι}
    {mutex : M} {op : I.Op} {env : ε}
    {statement : J.Op} {rest : J.Res statement → Prog J (I.Res op)}
    (h : Ahead locking machine state simulated thread mutex op env (.call statement rest)) :
    Ahead locking machine (locking.statement statement env state).2 simulated thread mutex op env
      (rest (locking.statement statement env state).1) where
  access := h.access
  guards := h.guards.2 _
  result := h.result
  part := h.part
  reads hreads := by
    obtain ⟨hrest, hsame⟩ := h.reads hreads
    refine ⟨hrest.2, ?_⟩
    rw [hsound.reads hrest.1]
    exact hsame

section Step

variable [DecidableEq ι] [DecidableEq M] {body : (thread : ι) → L thread → Prog I (L thread)}
variable {pool : LockedPool I J σ ε M L} {simulating : Pool I σ L} {event : ι × ε}

omit [DecidableEq M] in
theorem Simulates.moved (h : Simulates locking machine pool simulating)
    (hsound : locking.Sound machine) {thread : ι} {phase : Phase I J ε M (L thread)} {shared : σ}
    {owner : M → Option ι} {simulating' : Pool I σ L}
    (hcurrent : ∀ other ≠ thread, simulating'.current other = simulating.current other)
    (hkept : ∀ mutex, (∃ other ≠ thread, pool.owner mutex = some other) →
      locking.part (some mutex) pool.shared = locking.part (some mutex) shared ∧
        locking.part (some mutex) simulating.shared =
          locking.part (some mutex) simulating'.shared)
    (hthread : Follows locking machine shared simulating'.shared thread phase
      (simulating'.current thread))
    (hpart : ∀ region, (∀ mutex, region = some mutex → owner mutex = none) →
      locking.part region shared = locking.part region simulating'.shared)
    (hself : ∀ mutex, owner mutex = some thread ↔ phase.Holds mutex)
    (hothers : ∀ mutex, ∀ other ≠ thread,
      owner mutex = some other ↔ pool.owner mutex = some other) :
    Simulates locking machine (pool.moved thread phase shared owner) simulating' := by
  refine ⟨fun other => ?_, hpart, fun mutex other => ?_⟩
  · by_cases hother : other = thread
    · subst hother
      simp only [LockedPool.moved, Function.update_self]
      exact hthread
    · have hfollows := h.thread other
      simp only [LockedPool.moved, Function.update_of_ne hother, hcurrent other hother]
      cases hinside : pool.phase other with
      | outside program =>
          rw [hinside] at hfollows
          exact hfollows
      | inside mutex op env rest next =>
          have hholds : pool.owner mutex = some other := by
            rw [h.owner, hinside]
            rfl
          obtain ⟨hstate, hsimulated⟩ := hkept mutex ⟨other, hother, hholds⟩
          rw [hinside] at hfollows
          exact ⟨hfollows.1, hfollows.2.congr hsound hstate hsimulated⟩
  · by_cases hother : other = thread
    · subst hother
      simp only [LockedPool.moved, Function.update_self]
      exact hself mutex
    · simp only [LockedPool.moved, Function.update_of_ne hother]
      rw [hothers mutex other hother, h.owner]

omit [DecidableEq ι] [DecidableEq M] in
theorem Simulates.not_owner (h : Simulates locking machine pool simulating) {thread : ι}
    {program : Prog I (L thread)} (hphase : pool.phase thread = .outside program) (mutex : M) :
    pool.owner mutex ≠ some thread := by
  rw [Ne, h.owner, hphase]
  exact id

theorem Simulates.turn (h : Simulates locking machine pool simulating)
    (hsound : locking.Sound machine) {value : L event.1}
    (hphase : pool.phase event.1 = .outside (.ret value)) :
    Simulates locking machine (pool.step locking machine body event)
      (simulating.step machine body event) := by
  have hcurrent : simulating.current event.1 = .ret value := by
    have hfollows := h.thread event.1
    rwa [hphase] at hfollows
  have hshared : (simulating.step machine body event).shared = simulating.shared :=
    Pool.shared_step_ret event hcurrent
  simp only [step, hphase]
  refine h.moved hsound (fun other hother => Pool.current_step_of_ne hother.symm)
    (fun mutex _ => ?_) (Pool.current_step_ret event hcurrent) (fun region hfree => ?_)
    (fun mutex => ?_) fun _ _ _ => Iff.rfl
  · rw [hshared]
    exact ⟨rfl, rfl⟩
  · rw [hshared]
    exact h.part region hfree
  · exact iff_of_false (h.not_owner hphase mutex) id

omit [DecidableEq ι] [DecidableEq M] in
theorem Simulates.exists_inside (h : Simulates locking machine pool simulating) {thread : ι}
    {mutex : M} (howner : pool.owner mutex = some thread) :
    ∃ op env rest next, pool.phase thread = .inside mutex op env rest next := by
  have hholds := (h.owner mutex thread).mp howner
  cases hphase : pool.phase thread with
  | outside program =>
      rw [hphase] at hholds
      exact hholds.elim
  | inside held op env rest next =>
      rw [hphase] at hholds
      obtain rfl : held = mutex := hholds
      exact ⟨op, env, rest, next, rfl⟩

omit [DecidableEq ι] [DecidableEq M] in
theorem Simulates.part_eq (h : Simulates locking machine pool simulating)
    (hundisturbed : locking.Undisturbed machine simulating) {thread : ι} {op : I.Op}
    {next : I.Res op → Prog I (L thread)} (hcurrent : simulating.current thread = .call op next)
    (haccess : ∀ mutex, locking.access thread op ≠ .locked mutex) :
    locking.part (locking.access thread op).region pool.shared =
      locking.part (locking.access thread op).region simulating.shared := by
  cases hbare : locking.access thread op with
  | locked mutex => exact absurd hbare (haccess mutex)
  | own => exact h.part none nofun
  | bare mutex =>
      cases howner : pool.owner mutex with
      | none =>
          refine h.part (some mutex) ?_
          rintro _ ⟨⟩
          exact howner
      | some other =>
          obtain ⟨op', env, rest, next', hinside⟩ := h.exists_inside howner
          have hfollows := h.thread other
          rw [hinside] at hfollows
          have hreads := (hundisturbed thread op next mutex hcurrent hbare).2 other op' next'
            hfollows.1 hfollows.2.access env
          exact (hfollows.2.reads hreads).2

theorem Simulates.single (h : Simulates locking machine pool simulating)
    (hsound : locking.Sound machine) (hundisturbed : locking.Undisturbed machine simulating)
    {op : I.Op} {next : I.Res op → Prog I (L event.1)}
    (hphase : pool.phase event.1 = .outside (.call op next))
    (haccess : ∀ mutex, locking.access event.1 op ≠ .locked mutex) :
    Simulates locking machine (pool.step locking machine body event)
      (simulating.step machine body event) := by
  have hcurrent : simulating.current event.1 = .call op next := by
    have hfollows := h.thread event.1
    rwa [hphase] at hfollows
  have hlocal := hsound.single haccess event.2
  have hsame := h.part_eq hundisturbed hcurrent haccess
  obtain ⟨hresult, hstate⟩ := hlocal.congr hsame
  have hshared : (simulating.step machine body event).shared =
      (machine op event.2 simulating.shared).2 := Pool.shared_step_call event hcurrent
  have hstep : pool.step locking machine body event =
      pool.moved event.1 (.outside (next (machine op event.2 pool.shared).1))
        (machine op event.2 pool.shared).2 pool.owner := by
    simp only [step, hphase]
  rw [hstep]
  refine h.moved hsound (fun other hother => Pool.current_step_of_ne hother.symm)
    (fun mutex _ => ?_) ?_ (fun region hfree => ?_)
    (fun mutex => iff_of_false (h.not_owner hphase mutex) id) fun _ _ _ => Iff.rfl
  · rw [hshared]
    by_cases hregion : some mutex = (locking.access event.1 op).region
    · have hbare : locking.access event.1 op = .bare mutex := by
        cases haccess' : locking.access event.1 op with
        | locked other => exact absurd haccess' (haccess other)
        | own =>
            rw [haccess'] at hregion
            cases hregion
        | bare other =>
            rw [haccess'] at hregion
            cases hregion
            rfl
      have hkept := (hundisturbed event.1 op next mutex hcurrent hbare).1 event.2
      rw [← hregion] at hsame hstate
      rw [hkept] at hstate ⊢
      exact ⟨hsame.trans hstate.symm, rfl⟩
    · exact ⟨(hlocal.frame _ hregion).symm, (hlocal.frame _ hregion).symm⟩
  · rw [hresult]
    exact Pool.current_step_call event hcurrent
  · rw [hshared]
    by_cases hregion : region = (locking.access event.1 op).region
    · rw [hregion]
      exact hstate
    · rw [hlocal.frame _ hregion, hlocal.frame _ hregion]
      exact h.part region hfree

theorem Simulates.lock (h : Simulates locking machine pool simulating)
    (hsound : locking.Sound machine) {op : I.Op} {next : I.Res op → Prog I (L event.1)}
    {mutex : M}
    (hphase : pool.phase event.1 = .outside (.call op next))
    (haccess : locking.access event.1 op = .locked mutex) (hfree : pool.owner mutex = none) :
    Simulates locking machine (pool.step locking machine body event) simulating := by
  have hcurrent : simulating.current event.1 = .call op next := by
    have hfollows := h.thread event.1
    rwa [hphase] at hfollows
  have hsame : locking.part (some mutex) pool.shared =
      locking.part (some mutex) simulating.shared := by
    refine h.part (some mutex) ?_
    rintro _ ⟨⟩
    exact hfree
  obtain ⟨hresult, hstate⟩ :=
    (Locking.localTo_of_guards (hsound.code haccess) event.2).congr hsame
  simp only [step, hphase, haccess, hfree, if_true]
  refine h.moved hsound (fun _ _ => rfl) (fun _ _ => ⟨rfl, rfl⟩) ⟨hcurrent, ?_⟩
    (fun region hregion => ?_) (fun other => ?_) fun held other hother => ?_
  · refine ⟨haccess, hsound.code haccess, ?_, ?_, fun hreads => ⟨?_, hsame⟩⟩
    · rw [hresult, hsound.runs haccess]
    · rw [hstate, hsound.runs haccess]
    · exact hreads.congr (hsound.code haccess) hsame.symm
  · refine h.part region ?_
    rintro held rfl
    have hheld := hregion held rfl
    by_cases hmutex : held = mutex
    · rw [hmutex]
      exact hfree
    · rwa [Function.update_of_ne hmutex] at hheld
  · by_cases hmutex : other = mutex
    · subst hmutex
      rw [Function.update_self]
      exact iff_of_true rfl rfl
    · rw [Function.update_of_ne hmutex]
      exact iff_of_false (h.not_owner hphase other) fun heq => hmutex heq.symm
  · by_cases hmutex : held = mutex
    · subst hmutex
      rw [Function.update_self, hfree]
      exact iff_of_false (fun heq => hother (Option.some.inj heq).symm) nofun
    · rw [Function.update_of_ne hmutex]

omit [DecidableEq ι] [DecidableEq M] in
theorem Simulates.owner_inside (h : Simulates locking machine pool simulating) {thread : ι}
    {mutex : M} {op : I.Op} {env : ε} {rest : Prog J (I.Res op)}
    {next : I.Res op → Prog I (L thread)}
    (hphase : pool.phase thread = .inside mutex op env rest next)
    (other : M) : pool.owner other = some thread ↔ mutex = other := by
  rw [h.owner, hphase]
  exact Iff.rfl

theorem Simulates.statement (h : Simulates locking machine pool simulating)
    (hsound : locking.Sound machine) {mutex : M} {op : I.Op} {env : ε} {statement : J.Op}
    {rest : J.Res statement → Prog J (I.Res op)} {next : I.Res op → Prog I (L event.1)}
    (hphase : pool.phase event.1 = .inside mutex op env (.call statement rest) next) :
    Simulates locking machine (pool.step locking machine body event) simulating := by
  have hfollows := h.thread event.1
  rw [hphase] at hfollows
  obtain ⟨hcurrent, hahead⟩ := hfollows
  have hlocal := hahead.guards.1.1 env
  have howner := h.owner_inside hphase
  simp only [step, hphase]
  refine h.moved hsound (fun _ _ => rfl) (fun held hheld => ⟨?_, rfl⟩)
    ⟨hcurrent, hahead.statement hsound⟩ (fun region hregion => ?_) howner fun _ _ _ => Iff.rfl
  · obtain ⟨other, hother, hheld⟩ := hheld
    refine (hlocal.frame _ fun hmutex => hother ?_).symm
    have hmine := (howner held).mpr (Option.some.inj hmutex).symm
    exact Option.some.inj (hheld.symm.trans hmine)
  · have hne : region ≠ some mutex := by
      rintro rfl
      have hmine := (howner mutex).mpr rfl
      rw [hregion mutex rfl] at hmine
      cases hmine
    rw [hlocal.frame _ hne]
    exact h.part region hregion

/-- At `unlock` the operation takes place in the simulating pool. -/
theorem Simulates.unlock (h : Simulates locking machine pool simulating)
    (hsound : locking.Sound machine) {mutex : M} {op : I.Op} {env : ε} {result : I.Res op}
    {next : I.Res op → Prog I (L event.1)}
    (hphase : pool.phase event.1 = .inside mutex op env (.ret result) next) :
    Simulates locking machine (pool.step locking machine body event)
      (simulating.step machine body (event.1, env)) := by
  have hfollows := h.thread event.1
  rw [hphase] at hfollows
  obtain ⟨hcurrent, hahead⟩ := hfollows
  have hlocal := hsound.localTo hahead.access env
  have howner := h.owner_inside hphase
  have hshared : (simulating.step machine body (event.1, env)).shared =
      (machine op env simulating.shared).2 := Pool.shared_step_call (event.1, env) hcurrent
  have hnone (held : M) : Function.update pool.owner mutex none held = none ↔
      held = mutex ∨ pool.owner held = none := by
    by_cases hheld : held = mutex
    · rw [hheld, Function.update_self]
      exact iff_of_true rfl (.inl rfl)
    · rw [Function.update_of_ne hheld]
      exact (or_iff_right hheld).symm
  simp only [step, hphase]
  refine h.moved hsound (fun other hother => Pool.current_step_of_ne hother.symm)
    (fun held hheld => ⟨rfl, ?_⟩) ?_ (fun region hregion => ?_) (fun held => ?_)
    fun held other hother => ?_
  · obtain ⟨other, hother, hheld⟩ := hheld
    rw [hshared]
    refine (hlocal.frame _ fun hmutex => hother ?_).symm
    have hmine := (howner held).mpr (Option.some.inj hmutex).symm
    exact Option.some.inj (hheld.symm.trans hmine)
  · have hresult : result = (machine op env simulating.shared).1 := hahead.result
    rw [hresult]
    exact Pool.current_step_call (event.1, env) hcurrent
  · rw [hshared]
    by_cases hmutex : region = some mutex
    · rw [hmutex]
      exact hahead.part
    · rw [hlocal.frame _ hmutex]
      refine h.part region ?_
      rintro held rfl
      exact ((hnone held).mp (hregion held rfl)).resolve_left fun heq => hmutex (congrArg some heq)
  · refine iff_of_false ?_ id
    by_cases hheld : held = mutex
    · rw [hheld, Function.update_self]
      exact nofun
    · rw [Function.update_of_ne hheld, howner held]
      exact fun heq => hheld heq.symm
  · by_cases hheld : held = mutex
    · subst hheld
      rw [Function.update_self]
      refine iff_of_false nofun fun hmine => hother ?_
      exact Option.some.inj (hmine.symm.trans ((howner held).mpr rfl))
    · rw [Function.update_of_ne hheld]

theorem Simulates.step (h : Simulates locking machine pool simulating)
    (hsound : locking.Sound machine) (hundisturbed : locking.Undisturbed machine simulating)
    (event : ι × ε) :
    Simulates locking machine (pool.step locking machine body event)
      (runFrom (Pool.step machine body) simulating (pool.commit locking event).toList) := by
  cases hphase : pool.phase event.1 with
  | outside program =>
      cases program with
      | ret value =>
          simp only [commit, hphase]
          exact h.turn hsound hphase
      | call op next =>
          cases haccess : locking.access event.1 op with
          | locked mutex =>
              simp only [commit, hphase, haccess]
              cases howner : pool.owner mutex with
              | none => exact h.lock hsound hphase haccess howner
              | some other =>
                  have hwait : pool.step locking machine body event = pool := by
                    simp only [LockedPool.step, hphase, haccess, howner, reduceCtorEq, if_false]
                  rw [hwait]
                  exact h
          | bare mutex =>
              simp only [commit, hphase, haccess]
              exact h.single hsound hundisturbed hphase (by rw [haccess]; exact nofun)
          | own =>
              simp only [commit, hphase, haccess]
              exact h.single hsound hundisturbed hphase (by rw [haccess]; exact nofun)
  | inside mutex op env rest next =>
      cases rest with
      | ret result =>
          simp only [commit, hphase]
          exact h.unlock hsound hphase
      | call statement rest =>
          simp only [commit, hphase]
          exact h.statement hsound hphase

theorem Simulates.run (h : Simulates locking machine pool simulating)
    (hsound : locking.Sound machine) {Inv : Pool I σ L → Prop}
    (hstep : ∀ simulating event, Inv simulating → Inv (simulating.step machine body event))
    (hundisturbed : ∀ simulating, Inv simulating → locking.Undisturbed machine simulating)
    (hinv : Inv simulating) (events : List (ι × ε)) :
    Simulates locking machine (runFrom (LockedPool.step locking machine body) pool events)
      (runFrom (Pool.step machine body) simulating
        (commits locking machine body pool events)) := by
  induction events generalizing pool simulating with
  | nil => exact h
  | cons event events ih =>
      rw [runFrom_cons, commits, runFrom_append]
      exact ih (h.step hsound (hundisturbed simulating hinv) event)
        (runFrom_invariant Inv hstep _ _ hinv)

omit [DecidableEq ι] [DecidableEq M] in
theorem Simulates.shared_eq (h : Simulates locking machine pool simulating)
    (hsound : locking.Sound machine) (hfree : ∀ mutex, pool.owner mutex = none) :
    pool.shared = simulating.shared :=
  hsound.ext fun region => h.part region fun mutex _ => hfree mutex

end Step

/-! ## Races -/

section Races

variable {pool : LockedPool I J σ ε M L} {simulating : Pool I σ L}

variable (locking) in
def Reaches (pool : LockedPool I J σ ε M L) (thread : ι) (mutex : M) : Prop :=
  match pool.phase thread with
  | .outside (.call op _) => locking.access thread op = .bare mutex
  | .inside held _ _ (.call _ _) _ => held = mutex
  | _ => False

variable (locking machine) in
def Writes (pool : LockedPool I J σ ε M L) (thread : ι) : Prop :=
  match pool.phase thread with
  | .outside (.call op _) => ∃ env, (machine op env pool.shared).2 ≠ pool.shared
  | .inside _ _ _ (.call statement _) _ => ¬ locking.reads statement pool.shared
  | _ => False

theorem Simulates.bare_reads (h : Simulates locking machine pool simulating)
    (hsound : locking.Sound machine) (hundisturbed : locking.Undisturbed machine simulating)
    {thread : ι} {op : I.Op} {next : I.Res op → Prog I (L thread)} {mutex : M}
    (hphase : pool.phase thread = .outside (.call op next))
    (hbare : locking.access thread op = .bare mutex) (env : ε) :
    (machine op env pool.shared).2 = pool.shared := by
  have hcurrent : simulating.current thread = .call op next := by
    have hfollows := h.thread thread
    rwa [hphase] at hfollows
  have haccess (other : M) : locking.access thread op ≠ .locked other := by
    rw [hbare]
    exact nofun
  have hlocal := hsound.single haccess env
  have hsame := h.part_eq hundisturbed hcurrent haccess
  refine hsound.ext fun region => ?_
  by_cases hregion : region = (locking.access thread op).region
  · rw [hregion, (hlocal.congr hsame).2, (hundisturbed thread op next mutex hcurrent hbare).1 env,
      hsame]
  · exact hlocal.frame _ hregion

theorem Simulates.not_writes (h : Simulates locking machine pool simulating)
    (hsound : locking.Sound machine) (hundisturbed : locking.Undisturbed machine simulating)
    {first second : ι} (hne : first ≠ second) {mutex : M}
    (hfirst : pool.Reaches locking first mutex) (hsecond : pool.Reaches locking second mutex) :
    ¬ pool.Writes locking machine first := by
  unfold Reaches at hfirst hsecond
  unfold Writes
  have hfollows := h.thread first
  have hfollows' := h.thread second
  cases hphase : pool.phase first with
  | outside program =>
      rw [hphase] at hfirst
      cases program with
      | ret value => exact hfirst.elim
      | call op next =>
          rintro ⟨env, hwrites⟩
          exact hwrites (h.bare_reads hsound hundisturbed hphase hfirst env)
  | inside held op env rest next =>
      rw [hphase] at hfirst hfollows
      cases rest with
      | ret result => exact hfirst.elim
      | call statement rest =>
          obtain rfl : held = mutex := hfirst
          refine not_not.mpr ?_
          cases hphase' : pool.phase second with
          | outside program =>
              rw [hphase'] at hsecond hfollows'
              cases program with
              | ret value => exact hsecond.elim
              | call op' next' =>
                  have hreads := (hundisturbed second op' next' held hfollows' hsecond).2 first op
                    next hfollows.1 hfollows.2.access env
                  exact (hfollows.2.reads hreads).1.1
          | inside held' op' env' rest' next' =>
              rw [hphase'] at hsecond
              cases rest' with
              | ret result => exact hsecond.elim
              | call statement' rest' =>
                  have hmine := (h.owner_inside hphase held).mpr rfl
                  have hother := (h.owner_inside hphase' held).mpr hsecond
                  exact absurd (Option.some.inj (hmine.symm.trans hother)) hne

variable (locking machine) in
def Racy (pool : LockedPool I J σ ε M L) : Prop :=
  ∃ first second mutex, first ≠ second ∧ pool.Reaches locking first mutex ∧
    pool.Reaches locking second mutex ∧ pool.Writes locking machine first

theorem Simulates.not_racy (h : Simulates locking machine pool simulating)
    (hsound : locking.Sound machine) (hundisturbed : locking.Undisturbed machine simulating) :
    ¬ pool.Racy locking machine := by
  rintro ⟨first, second, mutex, hne, hfirst, hsecond, hwrites⟩
  exact h.not_writes hsound hundisturbed hne hfirst hsecond hwrites

end Races

end LockedPool

end Can2Rest.Foundation
