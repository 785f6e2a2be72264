import Can2Rest.Properties.RedisProgress
import Can2Rest.Properties.RedisUpdates

/-!
# Redis at rest

Once the main loop stores nothing more, no Redis command fails and the server writes nothing
late, the hash comes to hold the last JSON that entered the pending map for each field,
published, and stays so.
-/

namespace Can2Rest.Properties

open Foundation Shared Threads Filter

def StoresNothing (_ : Thread) (op : Section) (_ : Env) (_ : Bridge) : Prop :=
  ∀ fieldPrefix id json, op ≠ .mapInsert fieldPrefix id json

/-- The step stores no frame, no Redis command fails in it, and no batch is written late. -/
structure Settling (threads : Threads) (event : Thread × Env) : Prop where
  still : threads.Calls StoresNothing event
  done : event.1 = .worker → event.2.redis = .done
  onTime : ∀ entries, ¬ ExecutesLate threads event (.hmset entries)

/-- Nothing is left to write or to publish, and the hash has the last JSON of each field. -/
structure Mirrors (state : Bridge) : Prop where
  pending : ∀ field : Bytes, state.writeMap[field]? = none
  announced : state.redisServer.unannounced = []
  hash : ∀ field json : Bytes, state.history.entered[field]? = some json →
    state.redisServer.hash[field]? = some json

def Emptied (threads : Threads) : Prop :=
  ∀ field : Bytes, threads.shared.writeMap[field]? = none

def Due (rank : Nat) (threads : Threads) : Prop :=
  ∃ phase : Phase, threads.current .worker = phase.code ∧ phase.due = rank

structure Finishing (rank : Nat) (threads : Threads) : Prop where
  emptied : Emptied threads
  due : Due rank threads

structure Calm (threads : Threads) : Prop where
  emptied : Emptied threads
  noRound : NoRound threads

/-! ## Steps -/

section Steps

variable {program : Program} {threads : Threads} {event : Thread × Env} {phase : Phase}
variable {env : Env} {rank : Nat}

theorem Emptied.congr {next : Threads} (h : Emptied threads)
    (hmap : next.shared.writeMap = threads.shared.writeMap) : Emptied next := by
  rw [Emptied, hmap]
  exact h

theorem noRound_idle {connected : Bool}
    (h : threads.current .worker = (Phase.idle connected).code) : NoRound threads := by
  rw [NoRound, h]
  exact .inl rfl

theorem noRound_turn {connected : Bool}
    (h : threads.current .worker = (Phase.turn connected).code) : NoRound threads := by
  rw [NoRound, h]
  cases connected
  · exact .inr (.inl rfl)
  · exact .inr (.inr rfl)

theorem Calm.mirrors (h : Calm threads) (hsound : Sound threads) : Mirrors threads.shared := by
  obtain ⟨phase, hphase, hkept⟩ := hsound
  obtain ⟨hunwritten, hremainder⟩ := idle_of_noRound h.noRound hphase
  have hnone (field : Bytes) : (∅ : StringMap)[field]? = none := Std.ExtTreeMap.getElem?_empty
  refine ⟨h.emptied, ?_, fun field json hjson => ?_⟩
  · refine List.eq_nil_iff_forall_not_mem.mpr fun field hfield => ?_
    rcases hkept.announced field hfield with hpending | hleft
    · rw [Std.ExtTreeMap.mem_iff_isSome_getElem?, h.emptied] at hpending
      cases hpending
    · rw [hremainder] at hleft
      cases hleft
  · have hview := hkept.entered field json hjson
    rwa [view, h.emptied, hunwritten, hnone] at hview

theorem emptied_others (hworking : Working program threads) (hthread : event.1 ≠ .worker)
    (hstill : threads.Calls StoresNothing event) (h : Emptied threads) :
    Emptied (Threads.step program threads event) := by
  have hmove : Move program threads event .connecting
      (Threads.step program threads event).shared .connecting :=
    exists_move_of_ne hworking.respects hthread
  rw [Emptied]
  generalize (Threads.step program threads event).shared = after at hmove
  cases hmove with
  | other _ _ huntouched => exact huntouched.writeMap ▸ h
  | insert _ id json next hcall => exact absurd rfl ((Pool.calls_call hcall).mp hstill _ id json)
  | late _ hserver hcall => exact h

theorem due_others (hthread : event.1 ≠ .worker) (h : Due rank threads) :
    Due rank (Threads.step program threads event) := by
  obtain ⟨phase, hphase, hdue⟩ := h
  exact ⟨phase, (Pool.current_step_of_ne hthread).trans hphase, hdue⟩

variable (program env) in
theorem emptied_taking (h : threads.current .worker = Phase.taking.code) :
    Emptied (Threads.step program threads (.worker, env)) := by
  obtain ⟨hshared, -⟩ := step_worker program env h
  rw [Emptied, hshared]
  exact fun field => Std.ExtTreeMap.getElem?_empty

variable (program env) in
theorem step_taking_emptied (hemptied : Emptied threads)
    (h : threads.current .worker = Phase.taking.code) :
    (Threads.step program threads (.worker, env)).current .worker = (Phase.idle true).code ∧
      (Threads.step program threads (.worker, env)).shared.redisServer =
        threads.shared.redisServer := by
  obtain ⟨hshared, hcurrent⟩ := step_worker program env h
  let entries := (env.order threads.shared.writeMap.toList).1
  have hlisting : Listing threads.shared.writeMap entries :=
    ⟨(env.order threads.shared.writeMap.toList).2⟩
  have hcode : (Threads.step program threads (.worker, env)).current .worker =
      if entries.length > 0 then RedisInterface.writeBatch entries else .ret true := hcurrent
  have hnil : entries = [] := by
    refine List.eq_nil_iff_forall_not_mem.mpr fun ⟨field, json⟩ hmem => ?_
    have hpending := hlisting.mem_iff.mp hmem
    rw [hemptied] at hpending
    cases hpending
  rw [hnil] at hcode
  exact ⟨hcode, by rw [hshared]; rfl⟩

theorem Calm.step (hworking : Working program threads) (hsettling : Settling threads event)
    (h : Calm threads) :
    Calm (Threads.step program threads event) ∧ ∀ field : Bytes,
      (Threads.step program threads event).shared.redisServer.hash[field]? =
        threads.shared.redisServer.hash[field]? := by
  by_cases hthread : event.1 = .worker
  · obtain ⟨thread, env⟩ := event
    obtain rfl : thread = .worker := hthread
    obtain ⟨phase, hphase⟩ := hworking.phase
    have hround := h.noRound
    rw [NoRound, hphase] at hround
    cases phase with
    | idle connected =>
        obtain ⟨hcurrent, hshared⟩ := step_idle program env hphase
        have hmap := congrArg Bridge.writeMap hshared
        exact ⟨⟨h.emptied.congr hmap, noRound_turn hcurrent⟩, fun _ => by rw [hshared]⟩
    | connecting =>
        obtain ⟨hcurrent, hshared⟩ := step_connecting program (hsettling.done rfl) hphase
        have hmap := congrArg Bridge.writeMap hshared
        exact ⟨⟨h.emptied.congr hmap, noRound_idle hcurrent⟩, fun _ => by rw [hshared]⟩
    | taking =>
        obtain ⟨hcurrent, hserver⟩ := step_taking_emptied program env h.emptied hphase
        exact ⟨⟨emptied_taking program env hphase, noRound_idle hcurrent⟩,
          fun _ => by rw [hserver]⟩
    -- in the other phases a round is in progress
    | writing batch => rcases hround with h | h | h <;> cases h
    | publishing entry rest => rcases hround with h | h | h <;> cases h
  · obtain ⟨hcurrent, hlate, -⟩ := hworking.others hthread
    refine ⟨⟨emptied_others hworking hthread hsettling.still h.emptied, ?_⟩,
      fun field => (hlate field).eq_of_none hsettling.onTime⟩
    rw [NoRound, hcurrent]
    exact h.noRound

variable (program) in
theorem Due.step (hdone : env.redis = .done) (h : Due rank threads) :
    (∃ lower < rank, Due lower (Threads.step program threads (.worker, env))) ∨
      Emptied (Threads.step program threads (.worker, env)) := by
  obtain ⟨phase, hphase, rfl⟩ := h
  by_cases htaking : phase = .taking
  · subst htaking
    exact .inr (emptied_taking program env hphase)
  · obtain ⟨phase', hphase', hlower, -⟩ := due_step program hdone hphase htaking
    exact .inl ⟨phase'.due, hlower, phase', hphase', rfl⟩

theorem Finishing.step (hworking : Working program threads)
    (hsettling : Settling threads (.worker, env)) (h : Finishing rank threads) :
    (∃ lower < rank, Finishing lower (Threads.step program threads (.worker, env))) ∨
      Calm (Threads.step program threads (.worker, env)) := by
  obtain ⟨hemptied, phase, hphase, rfl⟩ := h
  by_cases htaking : phase = .taking
  · subst htaking
    have hcalm : Calm threads := ⟨hemptied, by rw [NoRound, hphase]; exact .inr (.inr rfl)⟩
    exact .inr (hcalm.step hworking hsettling).1
  · obtain ⟨phase', hphase', hlower, hmap⟩ :=
      due_step program (hsettling.done rfl) hphase htaking
    exact .inl ⟨phase'.due, hlower, hemptied.congr hmap, phase', hphase', rfl⟩

end Steps

/-! ## Runs that settle -/

section Settled

variable (program : Program) (config : ConfigParser) (hash : StringMap) (fr : CanFrame)
variable {events : Nat → Thread × Env}

abbrev Settles (events : Nat → Thread × Env) (P : Threads → Prop) : Nat → Prop :=
  Under (Threads.step program) (start config hash fr) events Settling P

variable (hfair : ∃ᶠ time in atTop, (events time).1 = .worker)

include hfair in
theorem due_emptied (rank : Nat) :
    LeadsTo (Settles program config hash fr events (Due rank))
      (Settles program config hash fr events Emptied) := by
  refine LeadsTo.of_events_rank (fun _ event => event.1 = .worker)
    (working_at program config hash fr events) hfair ?_ ?_ rank
  · rintro rank threads event - - hthread hdue
    exact .inl (due_others hthread hdue)
  · rintro rank threads ⟨thread, env⟩ - hsettling rfl hdue
    exact hdue.step program (hsettling.done rfl)

include hfair in
theorem finishing_calm (rank : Nat) :
    LeadsTo (Settles program config hash fr events (Finishing rank))
      (Settles program config hash fr events Calm) := by
  refine LeadsTo.of_events_rank (fun _ event => event.1 = .worker)
    (working_at program config hash fr events) hfair ?_ ?_ rank
  · rintro rank threads event hworking hsettling hthread ⟨hemptied, hdue⟩
    exact .inl ⟨emptied_others hworking hthread hsettling.still hemptied,
      due_others hthread hdue⟩
  · rintro rank threads ⟨thread, env⟩ hworking hsettling rfl hfinishing
    exact hfinishing.step hworking hsettling

theorem exists_due (events : Nat → Thread × Env) (time : Nat) :
    ∃ rank, Due rank (threadsAt program config hash fr events time) := by
  obtain ⟨phase, hphase⟩ := (working_at program config hash fr events time).phase
  exact ⟨phase.due, phase, hphase, rfl⟩

variable {program config hash fr}

theorem sound_at
    (hharmless : ∀ time,
      AbortsHarmlessly (threadsAt program config hash fr events time) (events time))
    (time : Nat) : Sound (threadsAt program config hash fr events time) :=
  stateAt_invariant Sound (sound_start config hash fr)
    (fun time h =>
      h.step (working_at program config hash fr events time).respects (hharmless time)) time

theorem calm_onward {settled : Nat} (h : Settles program config hash fr events Calm settled)
    {later : Nat} (hle : settled ≤ later) :
    Calm (threadsAt program config hash fr events later) ∧ ∀ field : Bytes,
      (threadsAt program config hash fr events later).shared.redisServer.hash[field]? =
        (threadsAt program config hash fr events settled).shared.redisServer.hash[field]? := by
  let server := (threadsAt program config hash fr events settled).shared.redisServer
  refine stateAt_onward
    (fun threads => Calm threads ∧ ∀ field : Bytes,
      threads.shared.redisServer.hash[field]? = server.hash[field]?)
    ⟨h.now, fun _ => rfl⟩ (fun later hle ih => ?_) hle
  obtain ⟨hcalm, hhash⟩ := ih.1.step (working_at program config hash fr events later)
    (h.onward later hle)
  exact ⟨hcalm, fun field => (hhash field).trans (ih.2 field)⟩

end Settled

/--
Once nothing is stored, no command fails and none is written late, the hash comes to mirror
what entered.
-/
theorem redis_converges (program : Program) (config : ConfigParser) (hash : StringMap)
    (fr : CanFrame) {events : Nat → Thread × Env}
    (hfair : ∃ᶠ time in atTop, (events time).1 = .worker) {time : Nat}
    (hharmless : ∀ earlier < time,
      AbortsHarmlessly (threadsAt program config hash fr events earlier) (events earlier))
    (hsettling : ∀ later, time ≤ later →
      Settling (threadsAt program config hash fr events later) (events later)) :
    ∃ settled, time ≤ settled ∧ ∀ later, settled ≤ later →
      Mirrors (threadsAt program config hash fr events later).shared ∧
      (threadsAt program config hash fr events later).shared.redisServer.hash =
        (threadsAt program config hash fr events settled).shared.redisServer.hash := by
  have hsound := sound_at fun moment => by
    rcases Nat.lt_or_ge moment time with hearlier | hlater
    · exact hharmless moment hearlier
    · exact abortsHarmlessly_of_done (hsettling moment hlater).done (hsettling moment hlater).onTime
  obtain ⟨rank, hdue⟩ := exists_due program config hash fr events time
  obtain ⟨middle, hmiddle, honward, hemptied⟩ :=
    due_emptied program config hash fr hfair rank time ⟨hsettling, hdue⟩
  obtain ⟨rank, hdue⟩ := exists_due program config hash fr events middle
  obtain ⟨settled, hsettled, hcalm⟩ :=
    finishing_calm program config hash fr hfair rank middle ⟨honward, hemptied, hdue⟩
  refine ⟨settled, hmiddle.trans hsettled, fun later hlater => ?_⟩
  obtain ⟨hcalmLater, hhash⟩ := calm_onward hcalm hlater
  exact ⟨hcalmLater.mirrors (hsound later), Std.ExtTreeMap.ext_getElem? hhash⟩

theorem settling_worker {threads : Threads} {env : Env} (hdone : env.redis = .done)
    (h : ∃ phase : Phase, threads.current .worker = phase.code) :
    Settling threads (.worker, env) := by
  refine ⟨?_, fun _ => hdone, fun entries hlate => nomatch hlate.1⟩
  obtain ⟨phase, hphase⟩ := h
  cases phase with
  | idle connected =>
      rw [Pool.Calls, hphase]
      trivial
  | _ => exact (Pool.calls_call hphase).mpr fun fieldPrefix id json hinsert => by cases hinsert

theorem stored_frame_mirrored :
    let threads := threadsAt .acceptAll (.loadConfigFile ∅) ∅ CanMessage.zero.frame
      storedThenWorker
    ∃ settled, 11 ≤ settled ∧ ∀ later, settled ≤ later → Mirrors (threads later).shared ∧
      (threads later).shared.redisServer.hash = (threads settled).shared.redisServer.hash := by
  intro threads
  refine redis_converges .acceptAll _ ∅ _ frequently_worker (fun earlier hearlier => ?_)
    fun later hlater => ?_
  · rw [storedThenWorker, if_pos hearlier]
    exact abortsHarmlessly_of_done (fun hthread => nomatch hthread)
      fun entries hlate => nomatch hlate.1
  · rw [storedThenWorker_of_le hlater]
    exact settling_worker rfl (working_at _ _ _ _ storedThenWorker later).phase

end Can2Rest.Properties
