import Can2Rest.Statements

/-!
# Locks of the bridge

The threads of `Serving` statement by statement, under the four mutexes.  What such a
run does is what its sections do when each is executed at once, and no two threads are
at a guarded member while one of them writes.
-/

namespace Can2Rest

open Foundation Shared

abbrev LockedServing := LockedPool Sections Statements Bridge Env Mutex Serving.Local

namespace LockedServing

open Statements

variable (program : Program) (config : ConfigParser) (hash : StringMap) (fr : CanFrame)

abbrev step : LockedServing → Thread × Env → LockedServing :=
  LockedPool.step locking bridge (Serving.body program)

/-- No mutex is locked when the threads start. -/
def start : LockedServing where
  shared := Main.initial config hash
  phase thread := .outside ((Serving.start config hash fr).current thread)
  owner _ := none

def after (schedule : List (Thread × Env)) : LockedServing :=
  runFrom (step program) (start config hash fr) schedule

/-- The sections of a run, each at the time when its mutex is released. -/
def sections (schedule : List (Thread × Env)) : List (Thread × Env) :=
  LockedPool.commits locking bridge (Serving.body program) (start config hash fr) schedule

def atOnce (schedule : List (Thread × Env)) : Serving :=
  runFrom (Serving.step program) (Serving.start config hash fr)
    (sections program config hash fr schedule)

def answer (pool : LockedServing) (number : Nat) (request : Request) : Option Response :=
  match pool.phase (.handler number request) with
  | .outside code => code.ended.join
  | .inside _ _ _ _ _ => none

/--
A state of the statements and one of the sections: the same parts under the free mutexes,
the same threads outside, what is left of a section ends as the section, and the same
answers.
-/
structure Serializes (pool : LockedServing) (atOnce : Serving) : Prop where
  part : ∀ region, (∀ mutex, region = some mutex → pool.owner mutex = none) →
    part region pool.shared = part region atOnce.shared
  outside : ∀ thread code, pool.phase thread = .outside code → atOnce.current thread = code
  inside : ∀ thread mutex op env rest next, pool.phase thread = .inside mutex op env rest next →
    atOnce.current thread = .call op next ∧
      (rest.run statements env pool.shared).1 = (bridge op env atOnce.shared).1 ∧
      Statements.part (some mutex) (rest.run statements env pool.shared).2 =
        Statements.part (some mutex) (bridge op env atOnce.shared).2
  answers : ∀ number request response, answer pool number request = some response →
    Serving.answer atOnce number request = some response

theorem simulates_start : LockedPool.Simulates locking bridge (start config hash fr)
    (Serving.start config hash fr) where
  thread _ := rfl
  part _ _ := rfl
  owner _ _ := iff_of_false nofun id

theorem consistent_atOnce (schedule : List (Thread × Env)) :
    Serving.Consistent (atOnce program config hash fr schedule) :=
  runFrom_invariant Serving.Consistent (fun _ event h => h.step event) _ _
    (Serving.consistent_start config hash fr)

theorem simulates (schedule : List (Thread × Env)) :
    LockedPool.Simulates locking bridge (after program config hash fr schedule)
      (atOnce program config hash fr schedule) := by
  have hstep (pool : Serving) (event : Thread × Env)
      (h : Serving.Consistent pool) : Serving.Consistent (Serving.step program pool event) :=
    h.step event
  exact (simulates_start config hash fr).run sound hstep (fun _ h => undisturbed h)
    (Serving.consistent_start config hash fr) schedule

end LockedServing

namespace Properties

open Statements

section Locks

variable (program : Program) (config : ConfigParser) (hash : StringMap) (fr : CanFrame)
variable (schedule : List (Thread × Env))

theorem sections_at_once : LockedServing.Serializes
    (LockedServing.after program config hash fr schedule)
    (LockedServing.atOnce program config hash fr schedule) := by
  have h := LockedServing.simulates program config hash fr schedule
  have houtside (thread : Thread) (code : Code (Serving.Local thread))
      (hphase : (LockedServing.after program config hash fr schedule).phase thread =
        .outside code) :
      (LockedServing.atOnce program config hash fr schedule).current thread = code := by
    have hfollows := h.thread thread
    rwa [hphase] at hfollows
  refine ⟨h.part, houtside, fun thread mutex op env rest next hphase => ?_,
    fun number request response hanswer => ?_⟩
  · have hfollows := h.thread thread
    rw [hphase] at hfollows
    exact ⟨hfollows.1, hfollows.2.result, hfollows.2.part⟩
  · unfold LockedServing.answer at hanswer
    split at hanswer
    next code hphase =>
      unfold Serving.answer
      rw [houtside _ code hphase]
      exact hanswer
    next => cases hanswer

/-- The lookup with `operator[]` of a key that is there is no write. -/
theorem race_free :
    ¬ (LockedServing.after program config hash fr schedule).Racy locking bridge :=
  (LockedServing.simulates program config hash fr schedule).not_racy sound
    (undisturbed (LockedServing.consistent_atOnce program config hash fr schedule))

end Locks

end Properties

end Can2Rest
