import Can2Rest.ConfigParser
import Can2Rest.Service

/-!
# The handle of a service

This file models what `update_thread` points to: every `enable_service(true)`
that spawns a worker points it to a `std::thread` of its own scope.  The calls
are those of `Service.enableService`; the machine is finer than that of the
start, which leaves to the environment whether a `join` returns.
-/

namespace Can2Rest

open Foundation

/-- A `std::thread` object; a detached or joined one has no thread. -/
inductive ThreadObject where
  | joinable
  | detached
  | joined
  | destroyed
  deriving DecidableEq

/--
The members of a service, with the objects `t1` of all calls, oldest first.
`terminated` records that a `join` or a destructor has ended the process, or was
undefined.
-/
structure HandleState where
  threadRunning : Bool
  updateThread : Option Nat
  objects : List ThreadObject
  terminated : Bool
  deriving DecidableEq

namespace HandleState

def initial : HandleState := ⟨false, none, [], false⟩

def target (s : HandleState) : Option ThreadObject := s.updateThread.bind (s.objects[·]?)

/-- `update_thread` denotes an object that is alive and has a thread to wait for. -/
def Joinable (s : HandleState) : Prop := s.target = some .joinable

instance (s : HandleState) : Decidable s.Joinable := by
  unfold Joinable
  infer_instance

/-- `detach`, on the object that was made last. -/
def detach (s : HandleState) : HandleState :=
  { s with objects := s.objects.set (s.objects.length - 1) .detached }

/-- `update_thread->join()`, where the worker ends once `thread_running` is false. -/
def join (s : HandleState) : HandleState :=
  match s.updateThread with
  | some i =>
      if s.Joinable then { s with objects := s.objects.set i .joined }
      else { s with terminated := true }
  | none => { s with terminated := true }

/-- The end of the scope of `t1`. -/
def leave (s : HandleState) : HandleState :=
  { s with
    objects := s.objects.map fun _ => .destroyed
    terminated := s.terminated || decide (.joinable ∈ s.objects) }

end HandleState

def handleMachine : Machine ServiceOps HandleState ServiceEnv
  | .testRunning, _, s => (s.threadRunning, s)
  | .setRunning value, _, s => ((), { s with threadRunning := value })
  | .testHandle, _, s => (s.updateThread.isSome, s)
  | .spawn, _, s => ((), { s with objects := s.objects ++ [.joinable] })
  | .detach, _, s => ((), s.detach)
  | .recordHandle, _, s => ((), { s with updateThread := some (s.objects.length - 1) })
  | .join, _, s => ((), s.join)
  | .isSpawned, _, s => (s.objects ≠ [], s)
  | .listen, env, s => (env.succeeds, s)
  | .connect, env, s => (env.succeeds, s)
  | .update, env, s => (env.succeeds, s)

/-! ## The machine of the start -/

/-- The state of the start says whether there is a handle, and not what it denotes. -/
structure HandleState.Abstracts (s : HandleState) (t : ServiceState) : Prop where
  running : t.threadRunning = s.threadRunning
  handle : t.updateThread = s.updateThread.isSome
  spawned : t.spawned = decide (s.objects ≠ [])
  terminated : t.terminated = s.terminated

namespace HandleState

theorem set_ne_nil_iff {objects : List ThreadObject} (i : Nat) (object : ThreadObject) :
    objects.set i object ≠ [] ↔ objects ≠ [] := by
  rw [ne_eq, List.set_eq_nil_iff]

theorem join_of_joinable {s : HandleState} (h : s.Joinable) :
    ∃ i, s.updateThread = some i ∧ s.join = { s with objects := s.objects.set i .joined } := by
  obtain ⟨i, hi, -⟩ := Option.bind_eq_some_iff.mp h
  refine ⟨i, hi, ?_⟩
  rw [join, hi]
  exact if_pos h

theorem join_of_not_joinable {s : HandleState} (h : ¬ s.Joinable) :
    s.join = { s with terminated := true } := by
  unfold join
  split
  · exact if_neg h
  · rfl

/-- A `join` returns where the handle is joinable; all else is as in the machine of the start. -/
theorem Abstracts.step {s : HandleState} {t : ServiceState} (h : s.Abstracts t) (op : ServiceOp)
    (env : ServiceEnv) :
    let joining : ServiceEnv := { env with joins := decide s.Joinable }
    (handleMachine op env s).1 = (serviceMachine op joining t).1 ∧
      (handleMachine op env s).2.Abstracts (serviceMachine op joining t).2 := by
  obtain ⟨hrunning, hhandle, hspawned, hterminated⟩ := h
  cases op with
  | testRunning => exact ⟨hrunning.symm, hrunning, hhandle, hspawned, hterminated⟩
  | setRunning value => exact ⟨rfl, rfl, hhandle, hspawned, hterminated⟩
  | testHandle => exact ⟨hhandle.symm, hrunning, hhandle, hspawned, hterminated⟩
  | spawn => exact ⟨rfl, hrunning, hhandle, by simp [handleMachine, serviceMachine], hterminated⟩
  | detach =>
      refine ⟨rfl, hrunning, hhandle, ?_, hterminated⟩
      exact hspawned.trans (decide_eq_decide.mpr (set_ne_nil_iff _ _).symm)
  | recordHandle => exact ⟨rfl, hrunning, rfl, hspawned, hterminated⟩
  | join =>
      refine ⟨rfl, ?_⟩
      change s.join.Abstracts { t with terminated := t.terminated || !decide s.Joinable }
      by_cases hjoinable : s.Joinable
      · obtain ⟨i, hi, hjoin⟩ := join_of_joinable hjoinable
        rw [hjoin]
        refine ⟨hrunning, hhandle, ?_, by simp [hjoinable, hterminated]⟩
        exact hspawned.trans (decide_eq_decide.mpr (set_ne_nil_iff _ _).symm)
      · rw [join_of_not_joinable hjoinable]
        exact ⟨hrunning, hhandle, hspawned, by simp [hjoinable]⟩
  | isSpawned => exact ⟨hspawned.symm, hrunning, hhandle, hspawned, hterminated⟩
  | listen => exact ⟨rfl, hrunning, hhandle, hspawned, hterminated⟩
  | connect => exact ⟨rfl, hrunning, hhandle, hspawned, hterminated⟩
  | update => exact ⟨rfl, hrunning, hhandle, hspawned, hterminated⟩

end HandleState

namespace Service

/-- A whole call of `enable_service`, of a `rest_api` or of a `redis_interface`. -/
def call (s : HandleState) (en : Bool) : HandleState :=
  ((enableService en).run handleMachine {} s).2.leave

/--
The calls on `api_server`: the one in `main`, one by its worker if it cannot listen, and
one in the `cleanup` that a CAN socket which cannot be opened leads to.  The handler of
SIGINT calls `cleanup` as well, but `loguru::init` installs its own in its place.
-/
def apiServerCalls (config : ConfigParser) (listening socketOpened : Bool) : List Bool :=
  let en := config.getBoolNocheck .restWebserverEnable
  en :: ((if en && !listening then [false] else []) ++ if socketOpened then [] else [false])

end Service

end Can2Rest
