import Can2Rest.ServiceHandle
import Can2Rest.Foundation.Runs

/-!
# The stop of a service

The handle points to an object that was detached, and that is gone when the
call that made it returns.  So a stop that finds a handle joins nothing.
-/

namespace Can2Rest.Properties

open Foundation Service

def JoinsLive (op : ServiceOp) (s : HandleState) : Prop := op = .join → s.Joinable

/-- The handle of a `join` in the call denotes a live object with a thread. -/
def SafeCall (s : HandleState) (en : Bool) : Prop :=
  (enableService en).Executes handleMachine {} JoinsLive s

/-- Every stop joins a live thread, if any; it returns, and the service can be started again. -/
structure StopsSafely (calls : List Bool) : Prop where
  joins : Along Service.call SafeCall .initial calls
  completes : ∀ before after, calls = before ++ false :: after →
    (runFrom Service.call .initial (before ++ [false])).terminated = false
  restarts : ∀ before after, calls = before ++ false :: after →
    (runFrom Service.call .initial (before ++ [false, true])).objects.length =
      (runFrom Service.call .initial (before ++ [false])).objects.length + 1

/-! ## Single calls -/

/-- Between two calls the objects of all calls are gone. -/
def Gone (s : HandleState) : Prop := ∀ object ∈ s.objects, object = .destroyed

section Calls

variable {s : HandleState}

theorem gone_call (s : HandleState) (en : Bool) : Gone (Service.call s en) := by
  intro object hobject
  obtain ⟨_, -, rfl⟩ := List.mem_map.mp hobject
  rfl

theorem leave_of_gone (h : Gone s) : s.leave = s := by
  have hobjects : (s.objects.map fun _ => ThreadObject.destroyed) = s.objects := by
    rw [List.map_const', eq_comm, List.eq_replicate_iff]
    exact ⟨rfl, h⟩
  have hnone : decide (.joinable ∈ s.objects) = false :=
    decide_eq_false fun hmem => absurd (h _ hmem) (by decide)
  rw [HandleState.leave, hobjects, hnone, Bool.or_false]

theorem not_joinable_of_gone (h : Gone s) : ¬ s.Joinable := by
  intro hjoinable
  obtain ⟨i, -, hobject⟩ := Option.bind_eq_some_iff.mp hjoinable
  exact absurd (h _ (List.mem_of_getElem? hobject)) (by decide)

theorem call_of_running (h : Gone s) (hrunning : s.threadRunning = true) :
    Service.call s true = s := by
  have hrun : ((enableService true).run handleMachine {} s).2 = s := by
    change (Prog.run handleMachine {} (if s.threadRunning = true then _ else _) s).2 = s
    rw [if_pos hrunning]
    rfl
  rw [Service.call, hrun, leave_of_gone h]

theorem run_start (h : s.threadRunning = false) :
    ((enableService true).run handleMachine {} s).2 =
      ⟨true, some s.objects.length, s.objects ++ [.detached], s.terminated⟩ := by
  let spawned : List ThreadObject := s.objects ++ [.joinable]
  let detached : List ThreadObject := spawned.set (spawned.length - 1) .detached
  have hdetached : detached = s.objects ++ [.detached] := by
    change (s.objects ++ [ThreadObject.joinable]).set
      ((s.objects ++ [ThreadObject.joinable]).length - 1) .detached = _
    rw [List.length_append, List.length_singleton, Nat.add_sub_cancel,
      List.set_append_right _ _ le_rfl, Nat.sub_self]
    rfl
  change (Prog.run handleMachine {} (if s.threadRunning = true then _ else _) s).2 = _
  rw [if_neg (by rw [h]; exact Bool.false_ne_true)]
  change HandleState.mk true (some (detached.length - 1)) detached s.terminated = _
  rw [hdetached, List.length_append, List.length_singleton, Nat.add_sub_cancel]

theorem updateThread_start (h : s.updateThread ≠ none) (hgone : Gone s) :
    (Service.call s true).updateThread ≠ none := by
  cases hrunning : s.threadRunning with
  | true => rwa [call_of_running hgone hrunning]
  | false =>
      rw [Service.call, run_start hrunning]
      exact Option.some_ne_none _

theorem call_of_no_handle (h : Gone s) (hhandle : s.updateThread = none) :
    Service.call s false = s := by
  have hrun : ((enableService false).run handleMachine {} s).2 = s := by
    change (Prog.run handleMachine {} (if s.updateThread.isSome = true then _ else _) s).2 = s
    rw [if_neg (by rw [hhandle]; exact Bool.false_ne_true)]
    rfl
  rw [Service.call, hrun, leave_of_gone h]

theorem safeCall_start (s : HandleState) : SafeCall s true := by
  refine ⟨nofun, ?_⟩
  change Prog.Executes handleMachine {} JoinsLive (if s.threadRunning = true then _ else _) s
  split
  · trivial
  · exact ⟨nofun, nofun, nofun, nofun, trivial⟩

theorem safeCall_stop_iff (h : Gone s) : SafeCall s false ↔ s.updateThread = none := by
  constructor
  · rintro ⟨-, hrest⟩
    change Prog.Executes handleMachine {} JoinsLive
      (if s.updateThread.isSome = true then _ else _) s at hrest
    by_contra hhandle
    rw [if_pos (Option.isSome_iff_ne_none.mpr hhandle)] at hrest
    obtain ⟨-, hjoin, -⟩ := hrest
    exact not_joinable_of_gone h (hjoin rfl)
  · intro hhandle
    refine ⟨nofun, ?_⟩
    change Prog.Executes handleMachine {} JoinsLive
      (if s.updateThread.isSome = true then _ else _) s
    rw [if_neg (by rw [hhandle]; exact Bool.false_ne_true)]
    trivial

end Calls

/-! ## Sequences of calls -/

theorem along_of_started {s : HandleState} (hgone : Gone s) (hhandle : s.updateThread ≠ none)
    (calls : List Bool) : Along Service.call SafeCall s calls ↔ ∀ en ∈ calls, en = true := by
  induction calls generalizing s with
  | nil => simp
  | cons en calls ih =>
      rw [along_cons, List.forall_mem_cons]
      cases en with
      | true =>
          rw [ih (gone_call s true) (updateThread_start hhandle hgone)]
          exact and_congr_left' (iff_of_true (safeCall_start s) rfl)
      | false =>
          refine iff_of_false (fun h => hhandle ((safeCall_stop_iff hgone).mp h.1)) ?_
          exact fun h => Bool.false_ne_true h.1

/-- No stop comes after a start. -/
def NeverStopped (calls : List Bool) : Prop :=
  calls.Pairwise fun earlier later => earlier = true → later = true

instance (calls : List Bool) : Decidable (NeverStopped calls) := by
  unfold NeverStopped
  infer_instance

theorem along_initial (calls : List Bool) :
    Along Service.call SafeCall .initial calls ↔ NeverStopped calls := by
  have hgone : Gone .initial := nofun
  induction calls with
  | nil => exact iff_of_true trivial .nil
  | cons en calls ih =>
      rw [along_cons, NeverStopped, List.pairwise_cons, ← NeverStopped]
      cases en with
      | true =>
          have hstarted : (Service.call .initial true).updateThread ≠ none := by decide
          rw [and_iff_right (safeCall_start _), along_of_started (gone_call _ _) hstarted]
          constructor
          · intro h
            refine ⟨fun later hlater _ => h later hlater, ?_⟩
            exact List.pairwise_of_forall_mem_list fun _ _ later hlater _ => h later hlater
          · exact fun h later hlater => h.1 later hlater rfl
      | false =>
          have hsame : Service.call .initial false = .initial := call_of_no_handle hgone rfl
          rw [hsame]
          exact and_congr (iff_of_true ((safeCall_stop_iff hgone).mpr rfl)
            fun _ _ h => absurd h Bool.false_ne_true) ih

theorem runFrom_of_stop {calls before after : List Bool} (h : NeverStopped calls)
    (hcalls : calls = before ++ false :: after) :
    runFrom Service.call .initial before = .initial := by
  rw [hcalls, NeverStopped, List.pairwise_append] at h
  obtain ⟨-, -, hafter⟩ := h
  have hstops : ∀ en ∈ before, en = false := by
    intro en hen
    by_contra hne
    have hstarted : en = true := Bool.eq_true_of_not_eq_false hne
    exact Bool.false_ne_true (hafter en hen false List.mem_cons_self hstarted)
  rw [List.eq_replicate_of_mem hstops]
  generalize before.length = n
  induction n with
  | zero => rfl
  | succ n ih => exact ih

theorem neverStopped_of_stopsSafely {calls : List Bool} (h : StopsSafely calls) :
    NeverStopped calls :=
  (along_initial calls).mp h.joins

theorem stopsSafely_of_neverStopped {calls : List Bool} (h : NeverStopped calls) :
    StopsSafely calls := by
  refine ⟨(along_initial calls).mpr h, fun before after hcalls => ?_,
    fun before after hcalls => ?_⟩
  · rw [runFrom_append, runFrom_of_stop h hcalls]
    decide
  · rw [runFrom_append, runFrom_append, runFrom_of_stop h hcalls]
    decide

theorem stopsSafely_iff (calls : List Bool) : StopsSafely calls ↔ NeverStopped calls :=
  ⟨neverStopped_of_stopsSafely, stopsSafely_of_neverStopped⟩

theorem stop_after_start_unsafe : ¬ StopsSafely [true, false] :=
  fun h => absurd (neverStopped_of_stopsSafely h) (by decide)

/-- A web server that was started must listen, and the CAN socket must open. -/
theorem stopsSafely_apiServerCalls_iff (config : ConfigParser)
    (listening socketOpened : Bool) :
    StopsSafely (apiServerCalls config listening socketOpened) ↔
      (config.getBoolNocheck .restWebserverEnable = true →
        listening = true ∧ socketOpened = true) := by
  have hcalls (calls : List Bool) : StopsSafely calls ↔ NeverStopped calls :=
    ⟨neverStopped_of_stopsSafely, stopsSafely_of_neverStopped⟩
  rw [hcalls, apiServerCalls]
  cases config.getBoolNocheck .restWebserverEnable <;> cases listening <;>
    cases socketOpened <;> decide

end Can2Rest.Properties
