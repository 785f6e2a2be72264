import Can2Rest.Properties.Addressing
import Can2Rest.RedisDelivery

/-!
# Updates on their way to Redis

`write_map.insert` keeps the entry that is there, so the last update of a field
is the one that Redis gets if none is dropped; and a batch whose round throws is
gone with it.
-/

namespace Can2Rest.Properties

open Foundation Shared Threads

/-! ## Failing commands -/

def InBatch (threads : Threads) (entries : List (Bytes × Bytes)) : Prop :=
  threads.current .worker = RedisInterface.writeBatch entries ∨
    threads.current .worker = RedisInterface.publishAll entries

/--
The latest update that entered the pending map is in the hash or on its way
there, and every written field was published or is on its way to be.
-/
structure NoUpdateLost (threads : Threads) : Prop where
  delivered : ∀ field json : Bytes, threads.shared.history.entered[field]? = some json →
    threads.shared.redisServer.hash[field]? = some json ∨
      threads.shared.writeMap[field]? = some json ∨
      ∃ entries, threads.current .worker = RedisInterface.writeBatch entries ∧
        (field, json) ∈ entries
  announced : ∀ field ∈ threads.shared.redisServer.unannounced,
    field ∈ threads.shared.writeMap ∨
      ∃ entries, InBatch threads entries ∧ field ∈ entries.map Prod.fst

theorem noUpdateLost_of_sound {threads : Threads} (h : Sound threads) :
    NoUpdateLost threads := by
  obtain ⟨phase, hphase, hkept⟩ := h
  constructor
  · intro field json hjson
    have hview := hkept.entered field json hjson
    rw [view, Option.or_eq_some_iff, Option.or_eq_some_iff] at hview
    rcases hview with hpending | ⟨-, hunwritten | ⟨-, hhash⟩⟩
    · exact .inr (.inl hpending)
    · cases phase with
      | writing batch =>
          exact .inr (.inr ⟨batch.entries, hphase, batch.listing.mem_iff.mpr hunwritten⟩)
      | _ => simp [Phase.unwritten] at hunwritten
    · exact .inl hhash
  · intro field hfield
    refine (hkept.announced field hfield).imp_right fun hremainder => ?_
    cases phase with
    | writing batch => exact ⟨batch.entries, .inl hphase, hremainder⟩
    | publishing entry rest => exact ⟨entry :: rest, .inr hphase, hremainder⟩
    | _ => cases hremainder

theorem sound_run {program : Program} {threads : Threads} {schedule : List (Thread × Env)}
    (hschedule : Along (step program) AbortsHarmlessly threads schedule)
    (hrespects : threads.Respects (Footprint program)) (h : Sound threads) :
    Sound (runFrom (step program) threads schedule) :=
  (hschedule.invariant
    (fun threads => threads.Respects (Footprint program) ∧ Sound threads)
    (fun _ event hharmless hinv =>
      ⟨hinv.1.step (uses_body program) event, hinv.2.step hinv.1 hharmless⟩)
    ⟨hrespects, h⟩).2

/--
In every interleaving whose aborted batches are harmless, no update is lost in
any state reached.
-/
theorem no_update_lost_run (program : Program) (config : ConfigParser) (hash : StringMap)
    (fr : CanFrame) {schedule : List (Thread × Env)}
    (hschedule : Along (step program) AbortsHarmlessly (start config hash fr) schedule) :
    NoUpdateLost (runFrom (step program) (start config hash fr) schedule) :=
  noUpdateLost_of_sound (sound_run hschedule (respects_between program _ false)
    (sound_start config hash fr))

theorem abortsHarmlessly_of_done {threads : Threads} {event : Thread × Env}
    (h : event.1 = .worker → event.2.redis = .done)
    (hlate : ∀ entries, ¬ ExecutesLate threads event (.hmset entries)) :
    AbortsHarmlessly threads event := by
  constructor
  · intro entries executed hthread hthrown
    rw [h hthread] at hthrown
    cases hthrown
  · intro entry rest executed hthread hthrown
    rw [h hthread] at hthrown
    cases hthrown
  · intro entries hexecutes
    exact absurd hexecutes (hlate entries)

def writtenBatch : Section → Option (List (Bytes × Bytes))
  | .redisHmset entries => some entries
  | _ => none

def lateBatch : RedisCommand → Option (List (Bytes × Bytes))
  | .hmset entries => some entries
  | .publish _ => none

/-- The condition on the worker as a test, for runs in which only writes fail. -/
def writesHarmlessly (threads : Threads) (event : Thread × Env) : Bool :=
  let server (entries : List (Bytes × Bytes)) : RedisServer :=
    threads.shared.redisServer.attempt event.2.redis (.hmset entries)
  event.1 ≠ .worker || event.2.redis.ok ||
    ((threads.current .worker).head.bind writtenBatch).any fun entries =>
      entries.all fun entry => threads.shared.writeMap.contains entry.1 ||
        (server entries).hash[entry.1]? = some entry.2 &&
          !(server entries).unannounced.contains entry.1

/-- The one on the server, for runs in which all that it writes late is pending again. -/
def latePending (threads : Threads) (event : Thread × Env) : Bool :=
  event.1 ≠ .server ||
    (threads.shared.redisServer.late[event.2.late]?.bind lateBatch).all fun entries =>
      entries.all fun entry => threads.shared.writeMap.contains entry.1

theorem abortsHarmlessly_of_writes {threads : Threads} {event : Thread × Env}
    (h : writesHarmlessly threads event = true) (hpending : latePending threads event = true) :
    AbortsHarmlessly threads event := by
  obtain ⟨thread, env⟩ := event
  constructor
  · rintro entries executed rfl hthrown hcode
    have hhead : (threads.current .worker).head = some (.redisHmset entries) := by
      rw [hcode]
      rfl
    have hthrown : env.redis = .thrown executed := hthrown
    simpa [writesHarmlessly, hthrown, hhead, RedisOutcome.ok, writtenBatch] using h
  · rintro entry rest executed rfl hthrown hcode
    have hhead : (threads.current .worker).head = some (.redisPublish entry.1) := by
      rw [hcode]
      rfl
    have hthrown : env.redis = .thrown executed := hthrown
    simp [writesHarmlessly, hthrown, hhead, RedisOutcome.ok, writtenBatch] at h
  · rintro entries ⟨rfl, -, hlate⟩ entry hentry
    have hlate : threads.shared.redisServer.late[env.late]? = some (.hmset entries) := hlate
    left
    simp only [latePending, hlate, Option.bind_some, lateBatch, Option.all_some, ne_eq,
      not_true_eq_false, decide_false, Bool.false_or, List.all_eq_true] at hpending
    exact Std.ExtTreeMap.contains_iff_mem.mp (hpending entry hentry)

/--
While the command with a first update fails, a second one is pending already; and
the server executes the command late.
-/
def failedWrite : List (Thread × Env) :=
  List.replicate 11 (.main, reading (emptyFrame 200)) ++
    List.replicate 4 (.worker, ({} : Env)) ++ List.replicate 12 (.main, reading (oneByte 200)) ++
    [(.worker, { redis := .thrown false })] ++ List.replicate 2 (.server, ({} : Env)) ++
    List.replicate 6 (.worker, ({} : Env))

theorem no_update_lost_failedWrite :
    NoUpdateLost (runFrom (step .acceptAll)
      (start (.loadConfigFile ∅) ∅ CanMessage.zero.frame) failedWrite) := by
  have hharmless : Along (step .acceptAll)
      (fun threads event => writesHarmlessly threads event = true ∧
        latePending threads event = true)
      (start (.loadConfigFile ∅) ∅ CanMessage.zero.frame) failedWrite := by decide +kernel
  exact no_update_lost_run .acceptAll _ ∅ _
    (hharmless.mono fun _ _ h => abortsHarmlessly_of_writes h.1 h.2)

def oneFailure : List Event :=
  [.pass (reading (emptyFrame 200)), .worker true { redis := .thrown false }]

theorem run_round_thrown (env : Env) (h : env.redis = .thrown false) (state : Bridge) :
    let after := (RedisInterface.round.run bridge env state).2
    after.writeMap = ∅ ∧ after.redisServer.hash = state.redisServer.hash ∧
      after.history = state.history := by
  rw [RedisInterface.round, Prog.run_bind, RedisInterface.run_take]
  split
  · rw [RedisInterface.writeBatch, Prog.run_bind, RedisInterface.run_hmset, Bridge.command, h]
    exact ⟨rfl, rfl, rfl⟩
  · exact ⟨rfl, rfl, rfl⟩

private theorem run_oneFailure (config : ConfigParser) (hash : StringMap) (fr : CanFrame) :
    let shared := (System.run .acceptAll (System.initial config hash fr) oneFailure).shared
    shared.writeMap = ∅ ∧ shared.redisServer.hash = hash ∧
      ∃ field json : Bytes, shared.history.entered = (∅ : StringMap).insert field json := by
  have haccepted : Program.acceptAll.setup.idFilter.checkMessage
      (key (emptyFrame 200).canId) = true := by decide +kernel
  simp only [oneFailure, System.run, runFrom_cons, runFrom_nil, System.initial]
  rw [System.step_accepted rfl haccepted]
  simp only [System.step]
  generalize hreceived : Main.receivedState _ _ _ = received
  obtain ⟨hmap, hhash, hhistory⟩ := run_round_thrown { redis := .thrown false } rfl received
  refine ⟨hmap, hhash.trans ?_, ?_⟩
  · rw [← hreceived]
    rfl
  · change ∃ field json, (RedisInterface.round.run bridge _ received).2.history.entered = _
    rw [hhistory, ← hreceived]
    simp only [Main.receivedState, RedisInterface.storeState_history_entered]
    exact ⟨_, _, (if_neg (by simp [Main.initial])).trans rfl⟩

theorem update_lost :
    ¬ ∀ schedule, NoUpdateLost (runFrom (step .acceptAll)
      (start (.loadConfigFile ∅) ∅ CanMessage.zero.frame) schedule) := by
  intro hall
  obtain ⟨schedule, connected, hrun⟩ := exists_schedule .acceptAll
    (System.initial (.loadConfigFile ∅) ∅ CanMessage.zero.frame) false oneFailure
  have hlost := hall schedule
  rw [start, hrun] at hlost
  obtain ⟨hmap, hhash, field, json, hentered⟩ :=
    run_oneFailure (.loadConfigFile ∅) ∅ CanMessage.zero.frame
  have hjson : (between (System.run .acceptAll
      (System.initial (.loadConfigFile ∅) ∅ CanMessage.zero.frame) oneFailure)
      connected).shared.history.entered[field]? = some json := by
    change (System.run _ _ _).shared.history.entered[field]? = _
    rw [hentered, getElem?_insert, if_pos rfl]
  rcases hlost.delivered field json hjson with hwritten | hpending | ⟨entries, hcode, -⟩
  · change (System.run _ _ _).shared.redisServer.hash[field]? = _ at hwritten
    simp [hhash] at hwritten
  · change (System.run _ _ _).shared.writeMap[field]? = _ at hpending
    simp [hmap] at hpending
  · cases hcode

/-- The second update is delivered, and the server then writes the first one over it. -/
def staleWrite : List (Thread × Env) :=
  List.replicate 11 (.main, reading (emptyFrame 200)) ++
    List.replicate 4 (.worker, ({} : Env)) ++ List.replicate 12 (.main, reading (oneByte 200)) ++
    [(.worker, { redis := .thrown false })] ++ List.replicate 6 (.worker, ({} : Env)) ++
    List.replicate 2 (.server, ({} : Env))

example :
    let state := (runFrom (step .acceptAll)
      (start (.loadConfigFile ∅) ∅ CanMessage.zero.frame) staleWrite).shared
    let field := fieldOf Program.acceptAll.setup.redis.fieldPrefix 200
    state.writeMap.isEmpty = true ∧
      state.redisServer.hash[field]? ≠ state.history.entered[field]? := by decide +kernel

/-! ## Last write wins -/

def lastStored (stored : List (UInt32 × Bytes)) (id : UInt32) : Option Bytes :=
  (stored.reverse.find? (·.1 = id)).map Prod.snd

theorem lastStored_append (stored : List (UInt32 × Bytes)) (id other : UInt32)
    (json : Bytes) :
    lastStored (stored ++ [(id, json)]) other =
      if id = other then some json else lastStored stored other := by
  rw [lastStored, List.reverse_append, List.reverse_singleton, List.singleton_append,
    List.find?_cons]
  by_cases h : id = other
  · simp [h]
  · simp [h, lastStored]

def NoFailure (_ : Thread) (op : Section) (env : Env) (_ : Bridge) : Prop :=
  match op with
  | .redisConnect | .redisHmset _ | .redisPublish _ => env.redis = .done
  | _ => True

/-- No update finds another one of its field pending. -/
def NotDropped (_ : Thread) (op : Section) (_ : Env) (state : Bridge) : Prop :=
  match op with
  | .mapInsert fieldPrefix id json =>
      state.writeMap[fieldOf fieldPrefix id]?.getD json = json
  | _ => True

/-- The last update of every word is the latest one that entered the pending map. -/
def LatestEntered (fieldPrefix : Bytes) (state : Bridge) : Prop :=
  ∀ id json, lastStored state.history.stored id = some json →
    state.history.entered[fieldOf fieldPrefix id]? = some json

/-- No round is in progress: the worker is between turns, connects, or has yet to take. -/
def NoRound (threads : Threads) : Prop :=
  (threads.current .worker).head = none ∨
    (threads.current .worker).head = some .redisConnect ∨
    (threads.current .worker).head = some .mapTake

/-- When nothing is pending and no round is in progress, Redis has the last updates. -/
def LastWriteWins (fieldPrefix : Bytes) (threads : Threads) : Prop :=
  (∀ field : Bytes, threads.shared.writeMap[field]? = none) → NoRound threads →
    ∀ id json, lastStored threads.shared.history.stored id = some json →
      threads.shared.redisServer.hash[fieldOf fieldPrefix id]? = some json

section Steps

variable {program : Program} {threads : Threads} {event : Thread × Env}

theorem ne_thrown_of_noFailure {op : Section} {next : op.Res → Code Bool} {executed : Bool}
    (h : threads.Calls NoFailure event) (hthread : event.1 = .worker)
    (hcode : threads.current .worker = .call op next)
    (hop : ∀ env, NoFailure .worker op env threads.shared → env.redis = .done) :
    event.2.redis ≠ .thrown executed := by
  obtain ⟨thread, env⟩ := event
  obtain rfl : thread = .worker := hthread
  have hdone := hop env ((Pool.calls_call hcode).mp h)
  exact fun hthrown => absurd (hthrown.symm.trans hdone) (by simp)

theorem abortsHarmlessly_of_noFailure (h : threads.Calls NoFailure event)
    (hnone : threads.shared.redisServer.late = []) : AbortsHarmlessly threads event := by
  constructor
  · intro entries executed hthread hthrown hcode
    exact absurd hthrown (ne_thrown_of_noFailure h hthread hcode fun _ => id)
  · intro entry rest executed hthread hthrown hcode
    exact absurd hthrown (ne_thrown_of_noFailure h hthread hcode fun _ => id)
  · rintro entries ⟨-, -, hlate⟩
    rw [hnone] at hlate
    cases hlate

theorem late_of_noFailure {phase phase' : Phase} {shared : Bridge}
    (hphase : threads.current .worker = phase.code)
    (hmove : Move program threads event phase shared phase')
    (h : threads.Calls NoFailure event) (hnone : threads.shared.redisServer.late = []) :
    shared.redisServer.late = [] := by
  cases hmove with
  | other _ _ huntouched => rw [huntouched.redisServer, hnone]
  | writeThrown batch executed hthread hthrown =>
      exact absurd hthrown (ne_thrown_of_noFailure h hthread hphase fun _ => id)
  | publishThrown entry rest executed hthread hthrown =>
      exact absurd hthrown (ne_thrown_of_noFailure h hthread hphase fun _ => id)
  | late _ hthread hcall =>
      have hsubset := threads.shared.redisServer.late_executeLate_subset event.2.late
      rw [hnone] at hsubset
      exact List.subset_nil.mp hsubset
  | _ => exact hnone

theorem LatestEntered.insert {fieldPrefix : Bytes} {state : Bridge} {id : UInt32}
    {json : Bytes}
    (hpending : ∀ field json : Bytes, state.writeMap[field]? = some json →
      state.history.entered[field]? = some json)
    (hnotDropped : state.writeMap[fieldOf fieldPrefix id]?.getD json = json)
    (h : LatestEntered fieldPrefix state) :
    LatestEntered fieldPrefix (state.mapInsert fieldPrefix id json) := by
  intro other last hlast
  rw [Bridge.mapInsert_history_stored, lastStored_append] at hlast
  rw [Bridge.mapInsert_history_entered]
  cases hfield : state.writeMap[fieldOf fieldPrefix id]? with
  | some pending =>
      rw [if_pos (mem_of_getElem? hfield)]
      split at hlast
      next hid =>
        rw [hfield, Option.getD_some] at hnotDropped
        rw [← hid, ← hlast, ← hnotDropped]
        exact hpending _ _ hfield
      next => exact h other last hlast
  | none =>
      have hnotMem : fieldOf fieldPrefix id ∉ state.writeMap := by
        rw [Std.ExtTreeMap.mem_iff_isSome_getElem?, hfield]
        exact Bool.false_ne_true
      rw [if_neg hnotMem, getElem?_insert]
      split at hlast
      next hid => rw [if_pos (congrArg _ hid), hlast]
      next hid =>
        rw [if_neg fun hsame => hid (fieldOf_injective fieldPrefix hsame)]
        exact h other last hlast

theorem LatestEntered.move {phase phase' : Phase} {shared : Bridge}
    (hmove : Move program threads event phase shared phase')
    (hkept : Kept threads.shared phase) (hnotDropped : threads.Calls NotDropped event)
    (h : LatestEntered program.setup.redis.fieldPrefix threads.shared) :
    LatestEntered program.setup.redis.fieldPrefix shared := by
  cases hmove with
  | other phase shared huntouched =>
      intro id json hjson
      rw [huntouched.stored] at hjson
      rw [huntouched.entered]
      exact h id json hjson
  | insert phase id json next hcall =>
      exact h.insert hkept.pending ((Pool.calls_call hcall).mp hnotDropped)
  | _ => exact h

end Steps

theorem idle_of_noRound {threads : Threads} {phase : Phase} (h : NoRound threads)
    (hphase : threads.current .worker = phase.code) :
    phase.unwritten = ∅ ∧ phase.remainder = [] := by
  rw [NoRound, hphase] at h
  cases phase with
  | writing batch => rcases h with h | h | h <;> cases h
  | publishing entry rest => rcases h with h | h | h <;> cases h
  | _ => exact ⟨rfl, rfl⟩

theorem lastWriteWins {fieldPrefix : Bytes} {threads : Threads} (hsound : Sound threads)
    (h : LatestEntered fieldPrefix threads.shared) : LastWriteWins fieldPrefix threads := by
  intro hempty hnoRound id json hjson
  obtain ⟨phase, hphase, hkept⟩ := hsound
  have hview := hkept.entered _ json (h id json hjson)
  obtain ⟨hunwritten, -⟩ := idle_of_noRound hnoRound hphase
  have hnone : (∅ : StringMap)[fieldOf fieldPrefix id]? = none := by simp
  rwa [view, hempty, hunwritten, hnone] at hview

structure Delivering (program : Program) (threads : Threads) : Prop where
  respects : threads.Respects (Footprint program)
  sound : Sound threads
  latest : LatestEntered program.setup.redis.fieldPrefix threads.shared
  onTime : threads.shared.redisServer.late = []

theorem delivering_start (program : Program) (config : ConfigParser) (hash : StringMap)
    (fr : CanFrame) : Delivering program (start config hash fr) where
  respects := respects_between program _ false
  sound := sound_start config hash fr
  latest := by
    intro id json hjson
    cases hjson
  onTime := rfl

theorem Delivering.step {program : Program} {threads : Threads} {event : Thread × Env}
    (hcommand : threads.Calls NoFailure event) (hupdate : threads.Calls NotDropped event)
    (h : Delivering program threads) :
    Delivering program (Threads.step program threads event) := by
  have hharmless := abortsHarmlessly_of_noFailure hcommand h.onTime
  obtain ⟨phase, hphase, hkept⟩ := h.sound
  obtain ⟨phase', -, hmove⟩ := exists_move h.respects hphase event
  exact ⟨h.respects.step (uses_body program) event, h.sound.step h.respects hharmless,
    h.latest.move hmove hkept hupdate, late_of_noFailure hphase hmove hcommand h.onTime⟩

def Delivers (threads : Threads) (event : Thread × Env) : Prop :=
  threads.Calls NoFailure event ∧ threads.Calls NotDropped event

/--
In every interleaving in which no command throws and no update finds another one
of its field pending, the last write wins in every state reached.
-/
theorem last_write_wins_run (program : Program) (config : ConfigParser) (hash : StringMap)
    (fr : CanFrame) {schedule : List (Thread × Env)}
    (hschedule : Along (step program) Delivers (start config hash fr) schedule) :
    LastWriteWins program.setup.redis.fieldPrefix
      (runFrom (step program) (start config hash fr) schedule) := by
  have hdelivering := hschedule.invariant (Delivering program)
    (fun threads event hevent h => h.step hevent.1 hevent.2)
    (delivering_start program config hash fr)
  exact lastWriteWins hdelivering.sound hdelivering.latest

instance (thread : Thread) (op : Section) (env : Env) (state : Bridge) :
    Decidable (NoFailure thread op env state) := by
  unfold NoFailure
  split <;> infer_instance

instance (thread : Thread) (op : Section) (env : Env) (state : Bridge) :
    Decidable (NotDropped thread op env state) := by
  unfold NotDropped
  split <;> infer_instance

instance (C : Thread → Section → Env → Bridge → Prop)
    [∀ thread op env state, Decidable (C thread op env state)] (threads : Threads)
    (event : Thread × Env) : Decidable (threads.Calls C event) := by
  unfold Pool.Calls
  split <;> infer_instance

instance (threads : Threads) (event : Thread × Env) : Decidable (Delivers threads event) :=
  inferInstanceAs (Decidable (_ ∧ _))

/-- The first frame is drained before the second one of its word is received. -/
def twoRounds : List (Thread × Env) :=
  List.replicate 11 (.main, reading (emptyFrame 200)) ++ List.replicate 6 (.worker, ({} : Env)) ++
    List.replicate 12 (.main, reading (oneByte 200)) ++ List.replicate 4 (.worker, ({} : Env))

theorem last_write_wins_twoRounds :
    LastWriteWins Program.acceptAll.setup.redis.fieldPrefix
      (runFrom (step .acceptAll) (start (.loadConfigFile ∅) ∅ CanMessage.zero.frame)
        twoRounds) :=
  last_write_wins_run .acceptAll _ ∅ _ (by decide +kernel)

/-- Two frames of one word are received before the worker goes through a round. -/
def twoUpdates : List (Thread × Env) :=
  List.replicate 11 (.main, reading (emptyFrame 200)) ++
    List.replicate 12 (.main, reading (oneByte 200)) ++
    List.replicate 6 (.worker, { redis := .done })

theorem not_lastWriteWins {fieldPrefix : Bytes} {threads : Threads}
    (hempty : threads.shared.writeMap.isEmpty = true)
    (hidle : (threads.current .worker).head.isNone = true) (id : UInt32)
    (hdiffer : ∃ json ∈ lastStored threads.shared.history.stored id,
      threads.shared.redisServer.hash[fieldOf fieldPrefix id]? ≠ some json) :
    ¬ LastWriteWins fieldPrefix threads := by
  obtain ⟨json, hjson, hne⟩ := hdiffer
  intro hwins
  refine hne (hwins (fun field => ?_) (.inl ?_) id json hjson)
  · rw [Std.ExtTreeMap.isEmpty_iff.mp hempty]
    exact Std.ExtTreeMap.getElem?_empty
  · exact Option.isNone_iff_eq_none.mp hidle

theorem second_update_dropped :
    ¬ LastWriteWins Program.acceptAll.setup.redis.fieldPrefix
      (runFrom (step .acceptAll) (start (.loadConfigFile ∅) ∅ CanMessage.zero.frame)
        twoUpdates) :=
  not_lastWriteWins (by decide +kernel) (by decide +kernel) 200 (by decide +kernel)

end Can2Rest.Properties
