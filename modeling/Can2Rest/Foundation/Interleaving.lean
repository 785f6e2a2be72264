import Can2Rest.Foundation.Program
import Can2Rest.Foundation.Runs
import Mathlib.Logic.Function.Basic

/-!
# Interleaved threads

A pool is a shared state and, for every thread, the rest of the turn it is in.
A thread whose turn has ended with a local value starts the next turn from its
body, so endless loops are turns without end; a one-shot thread has a body that
returns its value at once.  A schedule names the thread of every step and the
environment of that step, and nothing is assumed about its fairness or order.
-/

namespace Can2Rest.Foundation

structure Pool (I : Interface) (σ : Type) {ι : Type} (L : ι → Type) where
  shared : σ
  current : (thread : ι) → Prog I (L thread)

namespace Pool

variable {I : Interface} {σ ε ι : Type} {L : ι → Type} [DecidableEq ι]
variable (machine : Machine I σ ε)
variable (body : (thread : ι) → L thread → Prog I (L thread))

/-- One step of one thread: begin the next turn, or make the next call. -/
def step (pool : Pool I σ L) (event : ι × ε) : Pool I σ L :=
  match pool.current event.1 with
  | .ret value =>
      { pool with
        current := Function.update pool.current event.1 (body event.1 value) }
  | .call op next =>
      let outcome := machine op event.2 pool.shared
      { shared := outcome.2
        current := Function.update pool.current event.1 (next outcome.1) }

def Calls (C : ι → I.Op → ε → σ → Prop) (pool : Pool I σ L)
    (event : ι × ε) : Prop :=
  match pool.current event.1 with
  | .ret _ => True
  | .call op _ => C event.1 op event.2 pool.shared

variable {machine body} {pool : Pool I σ L} {event : ι × ε}

theorem step_ret {value : L event.1} (h : pool.current event.1 = .ret value) :
    pool.step machine body event =
      { pool with
        current :=
          Function.update pool.current event.1 (body event.1 value) } := by
  simp only [step, h]

theorem step_call {op : I.Op} {next : I.Res op → Prog I (L event.1)}
    (h : pool.current event.1 = .call op next) :
    pool.step machine body event =
      { shared := (machine op event.2 pool.shared).2
        current := Function.update pool.current event.1
          (next (machine op event.2 pool.shared).1) } := by
  simp only [step, h]

variable (event) in
theorem current_step_ret {value : L event.1} (h : pool.current event.1 = .ret value) :
    (pool.step machine body event).current event.1 = body event.1 value := by
  rw [step_ret h]
  simp only [Function.update_self]

variable (event) in
theorem current_step_call {op : I.Op} {next : I.Res op → Prog I (L event.1)}
    (h : pool.current event.1 = .call op next) :
    (pool.step machine body event).current event.1 =
      next (machine op event.2 pool.shared).1 := by
  rw [step_call h]
  simp only [Function.update_self]

variable (event) in
theorem shared_step_ret {value : L event.1} (h : pool.current event.1 = .ret value) :
    (pool.step machine body event).shared = pool.shared := by
  rw [step_ret h]

variable (event) in
theorem shared_step_call {op : I.Op} {next : I.Res op → Prog I (L event.1)}
    (h : pool.current event.1 = .call op next) :
    (pool.step machine body event).shared = (machine op event.2 pool.shared).2 := by
  rw [step_call h]

omit [DecidableEq ι] in
theorem calls_call {C : ι → I.Op → ε → σ → Prop} {op : I.Op}
    {next : I.Res op → Prog I (L event.1)}
    (h : pool.current event.1 = .call op next) :
    pool.Calls C event ↔ C event.1 op event.2 pool.shared := by
  simp only [Calls, h]

theorem current_step_of_ne {thread : ι} (h : event.1 ≠ thread) :
    (pool.step machine body event).current thread = pool.current thread := by
  cases hcurrent : pool.current event.1 with
  | ret value =>
      rw [step_ret hcurrent]
      exact Function.update_of_ne h.symm _ _
  | call op next =>
      rw [step_call hcurrent]
      exact Function.update_of_ne h.symm _ _

/-! ## Threads that run alone -/

variable (machine body) in
/--
A thread that is scheduled alone, in one environment, executes the rest of its
turn as `Prog.run` does.  Whatever the sequential semantics can do is therefore
one of the interleavings.
-/
theorem exists_solo (pool : Pool I σ L) (thread : ι) (env : ε) :
    ∃ n, runFrom (Pool.step machine body) pool (List.replicate n (thread, env)) =
      { shared := ((pool.current thread).run machine env pool.shared).2
        current := Function.update pool.current thread
          (.ret ((pool.current thread).run machine env pool.shared).1) } := by
  generalize hprogram : pool.current thread = program
  induction program generalizing pool with
  | ret value =>
      refine ⟨0, ?_⟩
      rw [List.replicate_zero, runFrom_nil, Prog.run_ret, ← hprogram, Function.update_eq_self]
  | call op next ih =>
      let outcome := machine op env pool.shared
      have hstep : pool.step machine body (thread, env) =
          { shared := outcome.2
            current := Function.update pool.current thread (next outcome.1) } :=
        step_call hprogram
      obtain ⟨n, hn⟩ := ih outcome.1 (pool.step machine body (thread, env))
        (by simp only [hstep, Function.update_self])
      refine ⟨n + 1, ?_⟩
      rw [List.replicate_succ, runFrom_cons, hn, hstep, Function.update_idem]
      rfl

variable (machine body) in
theorem exists_turn (pool : Pool I σ L) (thread : ι) {value : L thread}
    (hvalue : pool.current thread = .ret value) (env : ε) :
    ∃ n, runFrom (Pool.step machine body) pool (List.replicate n (thread, env)) =
      { shared := ((body thread value).run machine env pool.shared).2
        current := Function.update pool.current thread
          (.ret ((body thread value).run machine env pool.shared).1) } := by
  have hstep : pool.step machine body (thread, env) =
      { pool with current := Function.update pool.current thread (body thread value) } :=
    step_ret hvalue
  obtain ⟨n, hn⟩ := exists_solo machine body
    (pool.step machine body (thread, env)) thread env
  refine ⟨n + 1, ?_⟩
  rw [List.replicate_succ, runFrom_cons, hn, hstep]
  simp only [Function.update_self, Function.update_idem]

/-! ## Footprints in a pool -/

def Respects (P : ι → I.Op → Prop) (pool : Pool I σ L) : Prop :=
  ∀ thread, (pool.current thread).Uses (P thread)

theorem closed_step {thread : ι} {Q : Prog I (L thread) → Prop}
    (hbody : ∀ value, Q (body thread value))
    (hcall : ∀ op next, Q (.call op next) → ∀ result, Q (next result))
    (h : Q (pool.current thread)) (event : ι × ε) :
    Q ((pool.step machine body event).current thread) := by
  by_cases hthread : event.1 = thread
  · subst hthread
    cases hcurrent : pool.current event.1 with
    | ret value =>
        rw [current_step_ret event hcurrent]
        exact hbody value
    | call op next =>
        rw [current_step_call event hcurrent]
        rw [hcurrent] at h
        exact hcall op next h _
  · rw [current_step_of_ne hthread]
    exact h

theorem uses_step {P : I.Op → Prop} {thread : ι}
    (hbody : ∀ value, (body thread value).Uses P) (h : (pool.current thread).Uses P)
    (event : ι × ε) : ((pool.step machine body event).current thread).Uses P :=
  closed_step hbody (fun _ _ hcall => hcall.2) h event

theorem follows_step {thread : ι}
    {Q : (op : I.Op) → (I.Res op → Prog I (L thread)) → Prop}
    (hbody : ∀ value, (body thread value).Follows Q) (h : (pool.current thread).Follows Q)
    (event : ι × ε) : ((pool.step machine body event).current thread).Follows Q :=
  closed_step hbody (fun _ _ hcall => hcall.2) h event

theorem Respects.step {P : ι → I.Op → Prop}
    (hbody : ∀ thread value, (body thread value).Uses (P thread))
    (h : pool.Respects P) (event : ι × ε) :
    (pool.step machine body event).Respects P :=
  fun thread => uses_step (hbody thread) (h thread) event

/--
A step either leaves the shared state alone or makes one call of the footprint
of its thread; every invariant of the shared state is proved from this.
-/
theorem Respects.shared_step {P : ι → I.Op → Prop} (h : pool.Respects P)
    (event : ι × ε) :
    (pool.step machine body event).shared = pool.shared ∨
      ∃ op, P event.1 op ∧
        (∃ next, pool.current event.1 = .call op next) ∧
        (pool.step machine body event).shared =
          (machine op event.2 pool.shared).2 := by
  have huses := h event.1
  cases hcurrent : pool.current event.1 with
  | ret value =>
      left
      rw [step_ret hcurrent]
  | call op next =>
      right
      rw [hcurrent] at huses
      exact ⟨op, huses.1, ⟨next, rfl⟩, by rw [step_call hcurrent]⟩

/-! ## Contracts in a pool -/

/--
A thread goes on meeting its contract in every step: its own steps are as the
contract assumes, and the steps of the others stay within its rely condition.
-/
theorem ensures_step {contract : Contract I σ} {thread : ι} {Post : L thread → σ → Prop}
    (hrefl : ∀ op a, contract.rely op a a)
    (htrans : ∀ {op a b c}, contract.rely op a b → contract.rely op b c →
      contract.rely op a c)
    (hbody : ∀ value state, Post value state →
      (body thread value).Ensures machine contract Post state)
    (hown : event.1 = thread → ∀ op, (pool.current thread).head = some op →
      contract.may op pool.shared)
    (hother : event.1 ≠ thread → contract.rely (pool.current thread).head pool.shared
      (pool.step machine body event).shared)
    (h : (pool.current thread).Ensures machine contract Post pool.shared) :
    ((pool.step machine body event).current thread).Ensures machine contract Post
      (pool.step machine body event).shared := by
  by_cases hthread : event.1 = thread
  · subst hthread
    cases hcurrent : pool.current event.1 with
    | ret value =>
        rw [hcurrent] at h
        rw [current_step_ret event hcurrent, step_ret hcurrent]
        exact hbody value _ (h _ (hrefl _ _))
    | call op next =>
        rw [hcurrent] at h
        rw [current_step_call event hcurrent, step_call hcurrent]
        exact (h _ (hrefl _ _)).2 (hown rfl op (by rw [hcurrent]; rfl)) _
  · rw [current_step_of_ne hthread]
    exact h.rely htrans (hother hthread)

end Pool

end Can2Rest.Foundation
