import Can2Rest.Foundation.Progress
import Can2Rest.RedisDelivery

/-!
# Redis catches up

While no Redis command fails and none that failed before comes in between, what waits in
the pending map or in the worker's batch is written to the hash and published, in every
interleaving in which the worker goes on.
-/

namespace Can2Rest

open Foundation Shared Filter

/-- A bound on the worker's steps until it has taken the map. -/
def Phase.due : Phase → Nat
  | .idle connected => if connected then 2 else 4
  | .connecting => 3
  | .taking => 1
  | .writing batch => batch.entries.length + 3
  | .publishing _ rest => rest.length + 3

theorem Phase.due_afterWrite (entries : List (Bytes × Bytes)) :
    (Phase.afterWrite entries).due < entries.length + 3 := by
  cases entries with
  | nil => decide
  | cons entry rest =>
      simp only [afterWrite, due, List.length_cons]
      omega

theorem Phase.due_turn (connected : Bool) :
    (Phase.turn connected).due < (Phase.idle connected).due := by
  cases connected <;> decide

namespace Threads

variable {program : Program} {threads : Threads}

structure Working (program : Program) (threads : Threads) : Prop where
  respects : threads.Respects (Footprint program)
  phase : ∃ phase : Phase, threads.current .worker = phase.code

theorem working_start (program : Program) (config : ConfigParser) (hash : StringMap)
    (fr : CanFrame) : Working program (start config hash fr) :=
  ⟨respects_between program _ false, .idle false, rfl⟩

theorem Working.step (h : Working program threads) (event : Thread × Env) :
    Working program (Threads.step program threads event) := by
  obtain ⟨phase, hphase⟩ := h.phase
  obtain ⟨phase', hphase', -⟩ := exists_move h.respects hphase event
  exact ⟨h.respects.step (uses_body program) event, phase', hphase'⟩

/-! ## Steps -/

/-- What a late command does to a field of the hash, if there is one. -/
inductive LateField (threads : Threads) (event : Thread × Env) (field : Bytes) :
    Option Bytes → Prop
  | same : LateField threads event field threads.shared.redisServer.hash[field]?
  | written (entries : List (Bytes × Bytes)) (json : Bytes)
      (hlate : ExecutesLate threads event (.hmset entries)) (hentry : (field, json) ∈ entries) :
      LateField threads event field (some json)

theorem LateField.keeps {event : Thread × Env} {field json : Bytes} {after : Option Bytes}
    (h : LateField threads event field after)
    (hjson : threads.shared.redisServer.hash[field]? = some json)
    (hlate : ∀ entries other, ExecutesLate threads event (.hmset entries) →
      (field, other) ∈ entries → other = json) : after = some json := by
  cases h with
  | same => exact hjson
  | written entries other hexecutes hentry => rw [hlate entries other hexecutes hentry]

theorem LateField.eq_of_none {event : Thread × Env} {field : Bytes} {after : Option Bytes}
    (h : LateField threads event field after)
    (hnone : ∀ entries, ¬ ExecutesLate threads event (.hmset entries)) :
    after = threads.shared.redisServer.hash[field]? := by
  cases h with
  | same => rfl
  | written entries json hexecutes hentry => exact absurd hexecutes (hnone entries)

/-- The other threads leave the worker alone, what is pending pending, and most of the hash. -/
theorem Working.others (h : Working program threads) {event : Thread × Env}
    (hthread : event.1 ≠ .worker) :
    (Threads.step program threads event).current .worker = threads.current .worker ∧
      (∀ field, LateField threads event field
        (Threads.step program threads event).shared.redisServer.hash[field]?) ∧
      ∀ field json : Bytes, threads.shared.writeMap[field]? = some json →
        (Threads.step program threads event).shared.writeMap[field]? = some json := by
  refine ⟨Pool.current_step_of_ne hthread, ?_⟩
  -- seen from any phase of the worker, so from one with a single move of its own
  have hmove : Move program threads event .connecting
      (Threads.step program threads event).shared .connecting :=
    exists_move_of_ne h.respects hthread
  generalize (Threads.step program threads event).shared = after at hmove
  cases hmove with
  | other _ _ huntouched =>
      refine ⟨fun field => ?_, fun field json hjson => ?_⟩
      · rw [huntouched.redisServer]
        exact .same
      · rw [huntouched.writeMap, hjson]
  | insert _ id json next hcall =>
      exact ⟨fun _ => .same, fun field json hjson => getElem?_insertIfNew_of_some hjson _ _⟩
  | late _ hserver hcall =>
      refine ⟨fun field => ?_, fun field json hjson => hjson⟩
      rcases threads.shared.redisServer.getElem?_executeLate event.2.late field with
        hsame | ⟨entries, json, hcommand, hentry, hsome⟩
      · exact hsame ▸ .same
      · exact hsome ▸ .written entries json ⟨hserver, hcall, hcommand⟩ hentry

section Worker

variable {env : Env} {batch : Batch} {entry : Bytes × Bytes} {rest : List (Bytes × Bytes)}

variable (program env) in
theorem step_idle {connected : Bool} (h : threads.current .worker = (Phase.idle connected).code) :
    (Threads.step program threads (.worker, env)).current .worker = (Phase.turn connected).code ∧
      (Threads.step program threads (.worker, env)).shared = threads.shared := by
  rw [Phase.code_turn]
  exact ⟨Pool.current_step_ret (Thread.worker, env) h,
    Pool.shared_step_ret (Thread.worker, env) h⟩

variable (program) in
theorem step_connecting (hdone : env.redis = .done)
    (h : threads.current .worker = Phase.connecting.code) :
    (Threads.step program threads (.worker, env)).current .worker = (Phase.idle true).code ∧
      (Threads.step program threads (.worker, env)).shared = threads.shared := by
  obtain ⟨hshared, hcurrent⟩ := step_worker program env h
  refine ⟨hcurrent.trans ?_, hshared⟩
  change Prog.ret env.redis.ok = Prog.ret true
  rw [hdone]
  rfl

variable (program env) in
theorem step_taking {field json : Bytes} (hpending : threads.shared.writeMap[field]? = some json)
    (h : threads.current .worker = Phase.taking.code) :
    ∃ batch : Batch, batch.map = threads.shared.writeMap ∧
      (Threads.step program threads (.worker, env)).current .worker =
        (Phase.writing batch).code := by
  obtain ⟨hshared, hcurrent⟩ := step_worker program env h
  let entries := (env.order threads.shared.writeMap.toList).1
  have hlisting : Listing threads.shared.writeMap entries :=
    ⟨(env.order threads.shared.writeMap.toList).2⟩
  have hcode : (Threads.step program threads (.worker, env)).current .worker =
      if entries.length > 0 then RedisInterface.writeBatch entries else .ret true := hcurrent
  rw [if_pos (List.length_pos_of_mem (hlisting.mem_iff.mpr hpending))] at hcode
  exact ⟨⟨_, entries, hlisting⟩, rfl, hcode⟩

variable (program) in
theorem step_writing (hdone : env.redis = .done)
    (h : threads.current .worker = (Phase.writing batch).code) :
    (Threads.step program threads (.worker, env)).current .worker =
        (Phase.afterWrite batch.entries).code ∧
      (Threads.step program threads (.worker, env)).shared =
        { threads.shared with
          redisServer := threads.shared.redisServer.hmset batch.entries } := by
  obtain ⟨hshared, hcurrent⟩ := step_worker program env h
  refine ⟨hcurrent.trans ?_, hshared.trans ?_⟩
  · change (if env.redis.ok then RedisInterface.publishAll batch.entries else .ret false) = _
    rw [hdone, Phase.code_afterWrite]
    rfl
  · change { threads.shared with
      redisServer := threads.shared.redisServer.attempt env.redis (.hmset batch.entries) } = _
    rw [hdone]
    rfl

variable (program) in
theorem step_publishing (hdone : env.redis = .done)
    (h : threads.current .worker = (Phase.publishing entry rest).code) :
    (Threads.step program threads (.worker, env)).current .worker = (Phase.afterWrite rest).code ∧
      (Threads.step program threads (.worker, env)).shared =
        { threads.shared with
          redisServer := threads.shared.redisServer.publish entry.1 } := by
  obtain ⟨hshared, hcurrent⟩ := step_worker program env h
  refine ⟨hcurrent.trans ?_, hshared.trans ?_⟩
  · change (if env.redis.ok then RedisInterface.publishAll rest else .ret false) = _
    rw [hdone, Phase.code_afterWrite]
    rfl
  · change { threads.shared with
      redisServer := threads.shared.redisServer.attempt env.redis (.publish entry.1) } = _
    rw [hdone]
    rfl

end Worker

/-! ## What the worker brings nearer -/

section Nearer

variable {env : Env} {field json : Bytes}

def Pending (field json : Bytes) (rank : Nat) (threads : Threads) : Prop :=
  threads.shared.writeMap[field]? = some json ∧
    ∃ phase : Phase, threads.current .worker = phase.code ∧ phase.due = rank

def Taken (field json : Bytes) (threads : Threads) : Prop :=
  ∃ batch : Batch, threads.current .worker = (Phase.writing batch).code ∧
    batch.map[field]? = some json

def Written (field json : Bytes) (rank : Nat) (threads : Threads) : Prop :=
  threads.shared.redisServer.hash[field]? = some json ∧
    ∃ entry rest, threads.current .worker = (Phase.publishing entry rest).code ∧
      rest.length = rank ∧ (field = entry.1 ∨ field ∈ rest.map Prod.fst)

def Delivered (field json : Bytes) (threads : Threads) : Prop :=
  threads.shared.redisServer.hash[field]? = some json ∧
    field ∉ threads.shared.redisServer.unannounced

variable (program) in
theorem due_step {phase : Phase} (hdone : env.redis = .done)
    (hphase : threads.current .worker = phase.code) (hne : phase ≠ .taking) :
    ∃ phase' : Phase,
      (Threads.step program threads (.worker, env)).current .worker = phase'.code ∧
      phase'.due < phase.due ∧
      (Threads.step program threads (.worker, env)).shared.writeMap =
        threads.shared.writeMap := by
  cases phase with
  | idle connected =>
      obtain ⟨hcurrent, hshared⟩ := step_idle program env hphase
      exact ⟨_, hcurrent, Phase.due_turn connected, by rw [hshared]⟩
  | connecting =>
      obtain ⟨hcurrent, hshared⟩ := step_connecting program hdone hphase
      exact ⟨_, hcurrent, by decide, by rw [hshared]⟩
  | taking => exact absurd rfl hne
  | writing batch =>
      obtain ⟨hcurrent, hshared⟩ := step_writing program hdone hphase
      exact ⟨_, hcurrent, Phase.due_afterWrite batch.entries, by rw [hshared]⟩
  | publishing entry rest =>
      obtain ⟨hcurrent, hshared⟩ := step_publishing program hdone hphase
      exact ⟨_, hcurrent, Phase.due_afterWrite rest, by rw [hshared]⟩

variable (program) in
theorem Pending.step {rank : Nat} (hdone : env.redis = .done)
    (h : Pending field json rank threads) :
    (∃ lower < rank, Pending field json lower (Threads.step program threads (.worker, env))) ∨
      Taken field json (Threads.step program threads (.worker, env)) := by
  obtain ⟨hpending, phase, hphase, rfl⟩ := h
  by_cases htaking : phase = .taking
  · subst htaking
    obtain ⟨batch, hbatch, hcurrent⟩ := step_taking program env hpending hphase
    exact .inr ⟨batch, hcurrent, by rw [hbatch, hpending]⟩
  · obtain ⟨phase', hphase', hdue, hmap⟩ := due_step program hdone hphase htaking
    exact .inl ⟨phase'.due, hdue, by rw [hmap, hpending], phase', hphase', rfl⟩

variable (program) in
theorem Taken.step (hdone : env.redis = .done) (h : Taken field json threads) :
    ∃ rank, Written field json rank (Threads.step program threads (.worker, env)) := by
  obtain ⟨batch, hphase, hjson⟩ := h
  obtain ⟨hcurrent, hshared⟩ := step_writing program hdone hphase
  have hhash : (Threads.step program threads (.worker, env)).shared.redisServer.hash[field]? =
      some json := by
    rw [hshared, Kept.hash_hmset, hjson, Option.some_or]
  have hmem : (field, json) ∈ batch.entries := batch.listing.mem_iff.mpr hjson
  cases hentries : batch.entries with
  | nil =>
      rw [hentries] at hmem
      cases hmem
  | cons entry rest =>
      rw [hentries] at hmem hcurrent
      refine ⟨rest.length, hhash, entry, rest, hcurrent, rfl, ?_⟩
      rcases List.mem_cons.mp hmem with rfl | hrest
      · exact .inl rfl
      · exact .inr (List.mem_map.mpr ⟨_, hrest, rfl⟩)

variable (program) in
theorem Written.step {rank : Nat} (hdone : env.redis = .done)
    (h : Written field json rank threads) :
    (∃ lower < rank, Written field json lower (Threads.step program threads (.worker, env))) ∨
      Delivered field json (Threads.step program threads (.worker, env)) := by
  obtain ⟨hjson, entry, rest, hphase, rfl, hfield⟩ := h
  obtain ⟨hcurrent, hshared⟩ := step_publishing program hdone hphase
  have hhash : (Threads.step program threads (.worker, env)).shared.redisServer.hash[field]? =
      some json := by
    rw [hshared]
    exact hjson
  by_cases hentry : field = entry.1
  · refine .inr ⟨hhash, ?_⟩
    rw [hshared]
    exact fun hmem => absurd (List.mem_filter.mp hmem).2 (by simp [hentry])
  · have hrest := hfield.resolve_left hentry
    cases rest with
    | nil => cases hrest
    | cons next rest =>
        refine .inl ⟨rest.length, Nat.lt_succ_self _, hhash, next, rest, hcurrent, rfl, ?_⟩
        exact List.mem_cons.mp hrest

end Nearer

/-! ## Runs without failure -/

section Runs

variable (program : Program) (config : ConfigParser) (hash : StringMap) (fr : CanFrame)
variable {events : Nat → Thread × Env}

abbrev threadsAt (events : Nat → Thread × Env) : Nat → Threads :=
  stateAt (step program) (start config hash fr) events

/-- No Redis command fails, and nothing that is written late gives the field another JSON. -/
structure Unhindered (field json : Bytes) (threads : Threads) (event : Thread × Env) :
    Prop where
  done : event.1 = .worker → event.2.redis = .done
  late : ∀ entries other, ExecutesLate threads event (.hmset entries) →
    (field, other) ∈ entries → other = json

abbrev Unfailing (events : Nat → Thread × Env) (field json : Bytes) (P : Threads → Prop) :
    Nat → Prop :=
  Under (step program) (start config hash fr) events (Unhindered field json) P

theorem working_at (events : Nat → Thread × Env) (time : Nat) :
    Working program (threadsAt program config hash fr events time) :=
  stateAt_invariant (Working program) (working_start program config hash fr)
    (fun time h => h.step (events time)) time

variable (field json : Bytes) (hfair : ∃ᶠ time in atTop, (events time).1 = .worker)

include hfair

theorem pending_taken (rank : Nat) :
    LeadsTo (Unfailing program config hash fr events field json (Pending field json rank))
      (Unfailing program config hash fr events field json (Taken field json)) := by
  refine LeadsTo.of_events_rank (fun _ event => event.1 = .worker)
    (working_at program config hash fr events) hfair ?_ ?_ rank
  · rintro rank threads event hworking - hthread ⟨hpending, phase, hphase, hdue⟩
    obtain ⟨hcurrent, -, hkeeps⟩ := hworking.others hthread
    exact .inl ⟨hkeeps field json hpending, phase, hcurrent.trans hphase, hdue⟩
  · rintro rank threads ⟨thread, env⟩ - hfree rfl hpending
    exact hpending.step program (hfree.done rfl)

theorem taken_written :
    LeadsTo (Unfailing program config hash fr events field json (Taken field json))
      (Unfailing program config hash fr events field json fun threads =>
        ∃ rank, Written field json rank threads) := by
  refine LeadsTo.of_events (fun _ event => event.1 = .worker)
    (working_at program config hash fr events) hfair ?_ ?_
  · rintro threads event hworking - hthread ⟨batch, hphase, hjson⟩
    obtain ⟨hcurrent, -⟩ := hworking.others hthread
    exact .inl ⟨batch, hcurrent.trans hphase, hjson⟩
  · rintro threads ⟨thread, env⟩ - hfree rfl htaken
    exact htaken.step program (hfree.done rfl)

theorem written_delivered (rank : Nat) :
    LeadsTo (Unfailing program config hash fr events field json (Written field json rank))
      (Unfailing program config hash fr events field json (Delivered field json)) := by
  refine LeadsTo.of_events_rank (fun _ event => event.1 = .worker)
    (working_at program config hash fr events) hfair ?_ ?_ rank
  · rintro rank threads event hworking hfree hthread ⟨hjson, entry, rest, hphase, hrank, hfield⟩
    obtain ⟨hcurrent, hlate, -⟩ := hworking.others hthread
    exact .inl ⟨(hlate field).keeps hjson hfree.late, entry, rest,
      hcurrent.trans hphase, hrank, hfield⟩
  · rintro rank threads ⟨thread, env⟩ - hfree rfl hwritten
    exact hwritten.step program (hfree.done rfl)

theorem taken_delivered :
    LeadsTo (Unfailing program config hash fr events field json (Taken field json))
      (Unfailing program config hash fr events field json (Delivered field json)) := by
  refine (taken_written program config hash fr field json hfair).trans ?_
  rintro time ⟨hsucceeds, rank, hwritten⟩
  exact written_delivered program config hash fr field json hfair rank time
    ⟨hsucceeds, hwritten⟩

end Runs

end Threads

namespace Properties

open Threads

/-- The JSON of a field that the worker has still to write: pending, or in its batch. -/
def Unwritten (threads : Threads) (field json : Bytes) : Prop :=
  threads.shared.writeMap[field]? = some json ∨
    ∃ entries, threads.current .worker = RedisInterface.writeBatch entries ∧
      (field, json) ∈ entries

/-- While the worker goes on and nothing hinders it, what is unwritten is delivered. -/
theorem unwritten_delivered (program : Program) (config : ConfigParser) (hash : StringMap)
    (fr : CanFrame) {events : Nat → Thread × Env}
    (hfair : ∃ᶠ time in atTop, (events time).1 = .worker) {time : Nat} {field json : Bytes}
    (hsucceeds : ∀ later, time ≤ later →
      Unhindered field json (threadsAt program config hash fr events later) (events later))
    (hunwritten : Unwritten (threadsAt program config hash fr events time) field json) :
    ∃ later, time ≤ later ∧
      (threadsAt program config hash fr events later).shared.redisServer.hash[field]? =
        some json ∧
      field ∉ (threadsAt program config hash fr events later).shared.redisServer.unannounced := by
  obtain ⟨phase, hphase⟩ := (working_at program config hash fr events time).phase
  have htaken : ∃ middle, time ≤ middle ∧
      Unfailing program config hash fr events field json (Taken field json) middle := by
    rcases hunwritten with hpending | ⟨entries, hwriting, hmem⟩
    · exact pending_taken program config hash fr field json hfair phase.due time
        ⟨hsucceeds, hpending, phase, hphase, rfl⟩
    · rw [hphase] at hwriting
      cases phase with
      | writing batch =>
          obtain rfl : batch.entries = entries := by
            cases hwriting
            rfl
          exact ⟨time, le_rfl, hsucceeds, batch, hphase, batch.listing.mem_iff.mp hmem⟩
      | idle connected => cases hwriting
      | connecting => cases hwriting
      | taking => cases hwriting
      | publishing entry rest => cases hwriting
  obtain ⟨middle, hmiddle, htaken⟩ := htaken
  obtain ⟨later, hlater, hdelivered⟩ :=
    taken_delivered program config hash fr field json hfair middle htaken
  exact ⟨later, hmiddle.trans hlater, hdelivered.now⟩

/-- A frame is received and stored; from then on the worker runs alone. -/
def storedThenWorker (time : Nat) : Thread × Env :=
  if time < 11 then (.main, { received := some ⟨200, 0, 0, Vector.replicate 64 0, by decide⟩ })
  else (.worker, {})

theorem storedThenWorker_of_le {time : Nat} (h : 11 ≤ time) :
    storedThenWorker time = (.worker, {}) := if_neg (by omega)

theorem frequently_worker : ∃ᶠ time in atTop, (storedThenWorker time).1 = .worker :=
  frequently_atTop.mpr fun time =>
    ⟨time + 11, by omega, by rw [storedThenWorker_of_le (by omega)]⟩

theorem stored_frame_delivered :
    let threads := threadsAt .acceptAll (.loadConfigFile ∅) ∅ CanMessage.zero.frame
      storedThenWorker
    let field := fieldOf Program.acceptAll.setup.redis.fieldPrefix 200
    ∃ json, (threads 11).shared.writeMap[field]? = some json ∧ ∃ later, 11 ≤ later ∧
      (threads later).shared.redisServer.hash[field]? = some json ∧
      field ∉ (threads later).shared.redisServer.unannounced := by
  intro threads field
  have hpending : (threads 11).shared.writeMap[field]?.isSome = true := by decide +kernel
  obtain ⟨json, hjson⟩ := Option.isSome_iff_exists.mp hpending
  have hsucceeds : ∀ later, 11 ≤ later →
      Unhindered field json (threads later) (storedThenWorker later) := by
    intro later hlater
    rw [storedThenWorker_of_le hlater]
    exact ⟨fun _ => rfl, fun entries other hlate => nomatch hlate.1⟩
  exact ⟨json, hjson,
    unwritten_delivered .acceptAll _ ∅ _ frequently_worker hsucceeds (.inl hjson)⟩

end Properties

end Can2Rest
