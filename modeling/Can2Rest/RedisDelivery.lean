import Can2Rest.Threads

/-!
# From the pending map to Redis

The worker takes the pending map, writes the batch, and publishes its fields one
by one; the main loop goes on inserting, and the server may execute a command that
the worker has given up on.  `Phase` is where the worker is, and `Move` says once
what a step of any thread can do to the map, the batch and the Redis server.
-/

namespace Can2Rest

open Foundation Shared

structure Batch where
  map : StringMap
  entries : List (Bytes × Bytes)
  listing : Listing map entries

theorem Batch.mem_map_iff (batch : Batch) {field : Bytes} :
    field ∈ batch.map ↔ field ∈ batch.entries.map Prod.fst := by
  rw [Std.ExtTreeMap.mem_iff_isSome_getElem?, Option.isSome_iff_exists, List.mem_map]
  constructor
  · rintro ⟨json, hjson⟩
    exact ⟨(field, json), batch.listing.mem_iff.mpr hjson, rfl⟩
  · rintro ⟨⟨_, json⟩, hentry, rfl⟩
    exact ⟨json, batch.listing.mem_iff.mp hentry⟩

inductive Phase where
  | idle (connected : Bool)
  | connecting
  | taking
  | writing (batch : Batch)
  | publishing (entry : Bytes × Bytes) (rest : List (Bytes × Bytes))

namespace Phase

def code : Phase → Code Bool
  | .idle connected => .ret connected
  | .connecting => RedisInterface.connect
  | .taking => RedisInterface.round
  | .writing batch => RedisInterface.writeBatch batch.entries
  | .publishing entry rest => RedisInterface.publishAll (entry :: rest)

def afterWrite : List (Bytes × Bytes) → Phase
  | [] => .idle true
  | entry :: rest => .publishing entry rest

theorem code_afterWrite (entries : List (Bytes × Bytes)) :
    (afterWrite entries).code = RedisInterface.publishAll entries := by
  cases entries <;> rfl

def turn (connected : Bool) : Phase := if connected then .taking else .connecting

theorem code_turn (connected : Bool) :
    (turn connected).code = RedisInterface.workerTurn connected := by
  cases connected <;> rfl

def unwritten : Phase → StringMap
  | .writing batch => batch.map
  | _ => ∅

def remainder : Phase → List (Bytes × Bytes)
  | .writing batch => batch.entries
  | .publishing entry rest => entry :: rest
  | _ => []

@[simp] theorem unwritten_afterWrite (entries : List (Bytes × Bytes)) :
    (afterWrite entries).unwritten = ∅ := by
  cases entries <;> rfl

@[simp] theorem remainder_afterWrite (entries : List (Bytes × Bytes)) :
    (afterWrite entries).remainder = entries := by
  cases entries <;> rfl

theorem mem_remainder_of_mem_unwritten (phase : Phase) {field : Bytes}
    (h : field ∈ phase.unwritten) : field ∈ phase.remainder.map Prod.fst := by
  cases phase with
  | writing batch => exact batch.mem_map_iff.mp h
  | _ => simp [unwritten] at h

@[simp] theorem unwritten_turn (connected : Bool) : (turn connected).unwritten = ∅ := by
  cases connected <;> rfl

@[simp] theorem remainder_turn (connected : Bool) : (turn connected).remainder = [] := by
  cases connected <;> rfl

end Phase

namespace Threads

/-- The sections that leave the pending map, the records of it and Redis alone. -/
structure Untouched (before after : Bridge) : Prop where
  writeMap : after.writeMap = before.writeMap
  redisServer : after.redisServer = before.redisServer
  stored : after.history.stored = before.history.stored
  entered : after.history.entered = before.history.entered

/-- What a step can do, seen from the worker's phase before it. -/
inductive Move (program : Program) (threads : Threads) (event : Thread × Env) :
    Phase → Bridge → Phase → Prop
  | other (phase : Phase) (shared : Bridge) (huntouched : Untouched threads.shared shared) :
      Move program threads event phase shared phase
  | insert (phase : Phase) (id : UInt32) (json : Bytes)
      (next : Unit → Code event.1.Local)
      (hcall : threads.current event.1 =
        .call (.mapInsert program.setup.redis.fieldPrefix id json) next) :
      Move program threads event phase
        (threads.shared.mapInsert program.setup.redis.fieldPrefix id json) phase
  | turn (connected : Bool) :
      Move program threads event (.idle connected) threads.shared (.turn connected)
  | connected (hthread : event.1 = .worker) :
      Move program threads event .connecting threads.shared (.idle event.2.redis.ok)
  | empty (hempty : ∀ field : Bytes, threads.shared.writeMap[field]? = none) :
      Move program threads event .taking { threads.shared with writeMap := ∅ } (.idle true)
  | taken (batch : Batch) (hbatch : batch.map = threads.shared.writeMap) :
      Move program threads event .taking { threads.shared with writeMap := ∅ }
        (.writing batch)
  | written (batch : Batch) (hdone : event.2.redis = .done) :
      Move program threads event (.writing batch)
        { threads.shared with
          redisServer := threads.shared.redisServer.hmset batch.entries }
        (.afterWrite batch.entries)
  | writeThrown (batch : Batch) (executed : Bool) (hthread : event.1 = .worker)
      (hthrown : event.2.redis = .thrown executed) :
      Move program threads event (.writing batch)
        { threads.shared with
          redisServer := threads.shared.redisServer.attempt (.thrown executed)
            (.hmset batch.entries) }
        (.idle false)
  | published (entry : Bytes × Bytes) (rest : List (Bytes × Bytes))
      (hdone : event.2.redis = .done) :
      Move program threads event (.publishing entry rest)
        { threads.shared with
          redisServer := threads.shared.redisServer.publish entry.1 }
        (.afterWrite rest)
  | publishThrown (entry : Bytes × Bytes) (rest : List (Bytes × Bytes)) (executed : Bool)
      (hthread : event.1 = .worker) (hthrown : event.2.redis = .thrown executed) :
      Move program threads event (.publishing entry rest)
        { threads.shared with
          redisServer := threads.shared.redisServer.attempt (.thrown executed)
            (.publish entry.1) }
        (.idle false)
  | late (phase : Phase) (hthread : event.1 = .server)
      (hcall : (threads.current .server).head = some .redisLate) :
      Move program threads event phase
        { threads.shared with
          redisServer := threads.shared.redisServer.executeLate event.2.late }
        phase

theorem untouched_refl (state : Bridge) : Untouched state state := ⟨rfl, rfl, rfl, rfl⟩

theorem untouched_handler {op : Section} (h : HandlerSection op) (env : Env)
    (state : Bridge) : Untouched state (bridge op env state).2 := by
  cases op <;> first | exact h.elim | exact untouched_refl _ | exact ⟨rfl, rfl, rfl, rfl⟩

theorem untouched_main {fieldPrefix : Bytes} {op : Section} (h : MainSection fieldPrefix op)
    (hinsert : ∀ id json, op ≠ .mapInsert fieldPrefix id json) (env : Env) (state : Bridge) :
    Untouched state (bridge op env state).2 := by
  cases op with
  | mapInsert fieldPrefix' id json =>
      obtain rfl : fieldPrefix' = fieldPrefix := h
      exact absurd rfl (hinsert id json)
  | queuePop =>
      change Untouched state state.queuePop.2
      unfold Bridge.queuePop
      split
      · exact untouched_refl _
      · exact ⟨rfl, rfl, rfl, rfl⟩
  | _ => first | exact h.elim | exact ⟨rfl, rfl, rfl, rfl⟩

section Steps

variable {program : Program} {threads : Threads} {phase : Phase}

theorem exists_move_of_ne (hrespects : threads.Respects (Footprint program))
    {event : Thread × Env} (hthread : event.1 ≠ .worker) :
    Move program threads event phase (step program threads event).shared phase := by
  rcases hrespects.shared_step event with hsame | ⟨op, hop, ⟨next, hcall⟩, hshared⟩
  · rw [step, hsame]
    exact .other phase _ (untouched_refl _)
  · rw [step, hshared]
    obtain ⟨thread, env⟩ := event
    cases thread with
    | main =>
        by_cases hinsert : ∃ id json, op = .mapInsert program.setup.redis.fieldPrefix id json
        · obtain ⟨id, json, rfl⟩ := hinsert
          exact .insert phase id json next hcall
        · have hne : ∀ id json, op ≠ .mapInsert program.setup.redis.fieldPrefix id json :=
            fun id json h => hinsert ⟨id, json, h⟩
          exact .other phase _ (untouched_main hop hne env threads.shared)
    | handler number request =>
        exact .other phase _ (untouched_handler hop env threads.shared)
    | worker => exact absurd rfl hthread
    | server =>
        obtain rfl : op = .redisLate := hop
        refine .late phase rfl ?_
        rw [show threads.current .server = _ from hcall]
        rfl

theorem step_worker (program : Program) (env : Env) {op : Section}
    {next : Section.Res op → Code Bool} (hcall : threads.current .worker = .call op next) :
    (step program threads (.worker, env)).shared = (bridge op env threads.shared).2 ∧
      (step program threads (.worker, env)).current .worker =
        next (bridge op env threads.shared).1 := by
  refine ⟨?_, Pool.current_step_call (Thread.worker, env) hcall⟩
  rw [step, Pool.step_call hcall]

theorem exists_move_of_taking (hphase : threads.current .worker = Phase.taking.code)
    (env : Env) :
    ∃ phase', (step program threads (.worker, env)).current .worker = phase'.code ∧
      Move program threads (.worker, env) .taking
        (step program threads (.worker, env)).shared phase' := by
  obtain ⟨hshared, hcurrent⟩ := step_worker program env hphase
  let entries := (env.order threads.shared.writeMap.toList).1
  have hlisting : Listing threads.shared.writeMap entries :=
    ⟨(env.order threads.shared.writeMap.toList).2⟩
  have hcode : (step program threads (.worker, env)).current .worker =
      if entries.length > 0 then RedisInterface.writeBatch entries else .ret true := hcurrent
  rw [hshared]
  by_cases hentries : entries.length > 0
  · rw [if_pos hentries] at hcode
    exact ⟨.writing ⟨_, entries, hlisting⟩, hcode, .taken ⟨_, entries, hlisting⟩ rfl⟩
  · rw [if_neg hentries] at hcode
    refine ⟨.idle true, hcode, .empty fun field => ?_⟩
    rw [Option.eq_none_iff_forall_not_mem]
    intro json hjson
    have hmem := hlisting.mem_iff.mpr hjson
    rw [List.length_eq_zero_iff.mp (Nat.le_zero.mp (Nat.not_lt.mp hentries))] at hmem
    cases hmem

theorem exists_move_of_writing (batch : Batch)
    (hphase : threads.current .worker = (Phase.writing batch).code) (env : Env) :
    ∃ phase', (step program threads (.worker, env)).current .worker = phase'.code ∧
      Move program threads (.worker, env) (.writing batch)
        (step program threads (.worker, env)).shared phase' := by
  obtain ⟨hshared, hcurrent⟩ := step_worker program env hphase
  have hcode : (step program threads (.worker, env)).current .worker =
      if env.redis.ok then RedisInterface.publishAll batch.entries else .ret false := hcurrent
  have hserver : (step program threads (.worker, env)).shared =
      (threads.shared.command env.redis (.hmset batch.entries)).2 := hshared
  rw [hserver, Bridge.command]
  cases hredis : env.redis with
  | done =>
      rw [hredis] at hcode
      refine ⟨.afterWrite batch.entries, ?_, .written batch hredis⟩
      rw [hcode, Phase.code_afterWrite]
      rfl
  | thrown executed =>
      rw [hredis] at hcode
      exact ⟨.idle false, hcode, .writeThrown batch executed rfl hredis⟩

theorem exists_move_of_publishing (entry : Bytes × Bytes) (rest : List (Bytes × Bytes))
    (hphase : threads.current .worker = (Phase.publishing entry rest).code) (env : Env) :
    ∃ phase', (step program threads (.worker, env)).current .worker = phase'.code ∧
      Move program threads (.worker, env) (.publishing entry rest)
        (step program threads (.worker, env)).shared phase' := by
  obtain ⟨hshared, hcurrent⟩ := step_worker program env hphase
  have hcode : (step program threads (.worker, env)).current .worker =
      if env.redis.ok then RedisInterface.publishAll rest else .ret false := hcurrent
  have hserver : (step program threads (.worker, env)).shared =
      (threads.shared.command env.redis (.publish entry.1)).2 := hshared
  rw [hserver, Bridge.command]
  cases hredis : env.redis with
  | done =>
      rw [hredis] at hcode
      refine ⟨.afterWrite rest, ?_, .published entry rest hredis⟩
      rw [hcode, Phase.code_afterWrite]
      rfl
  | thrown executed =>
      rw [hredis] at hcode
      exact ⟨.idle false, hcode, .publishThrown entry rest executed rfl hredis⟩

theorem exists_move (hrespects : threads.Respects (Footprint program))
    (hphase : threads.current .worker = phase.code) (event : Thread × Env) :
    ∃ phase', (step program threads event).current .worker = phase'.code ∧
      Move program threads event phase (step program threads event).shared phase' := by
  by_cases hthread : event.1 = .worker
  · obtain ⟨thread, env⟩ := event
    obtain rfl : thread = .worker := hthread
    cases phase with
    | idle connected =>
        refine ⟨.turn connected, ?_, ?_⟩
        · rw [Phase.code_turn]
          exact Pool.current_step_ret (Thread.worker, env) hphase
        · rw [step, Pool.step_ret hphase]
          exact .turn connected
    | connecting =>
        obtain ⟨hshared, hcurrent⟩ := step_worker program env hphase
        refine ⟨.idle env.redis.ok, hcurrent, ?_⟩
        rw [hshared]
        exact .connected rfl
    | taking => exact exists_move_of_taking hphase env
    | writing batch => exact exists_move_of_writing batch hphase env
    | publishing entry rest => exact exists_move_of_publishing entry rest hphase env
  · exact ⟨phase, by rw [step, Pool.current_step_of_ne hthread, hphase],
      exists_move_of_ne hrespects hthread⟩

end Steps

/-! ## What the threads keep -/

/-- The JSON that a field has or is to get: pending, in the batch, or written. -/
def view (state : Bridge) (phase : Phase) (field : Bytes) : Option Bytes :=
  state.writeMap[field]?.or (phase.unwritten[field]?.or state.redisServer.hash[field]?)

/--
The latest JSON that entered the pending map is the one of the view, and a field
whose update was not published is pending or among the entries to publish.
-/
structure Kept (state : Bridge) (phase : Phase) : Prop where
  pending : ∀ field json : Bytes, state.writeMap[field]? = some json →
    state.history.entered[field]? = some json
  entered : ∀ field json : Bytes, state.history.entered[field]? = some json →
    view state phase field = some json
  announced : ∀ field ∈ state.redisServer.unannounced,
    field ∈ state.writeMap ∨ field ∈ phase.remainder.map Prod.fst

/-- The field is one of the worker's batch, which is to be written next. -/
def ToWrite (threads : Threads) (field : Bytes) : Prop :=
  ∃ entries, threads.current .worker = RedisInterface.writeBatch entries ∧
    field ∈ entries.map Prod.fst

def ToPublish (threads : Threads) (field : Bytes) : Prop :=
  ∃ entries, threads.current .worker = RedisInterface.publishAll entries ∧
    field ∈ entries.map Prod.fst

/-- The server is about to execute this command late. -/
def ExecutesLate (threads : Threads) (event : Thread × Env) (command : RedisCommand) : Prop :=
  event.1 = .server ∧ (threads.current .server).head = some .redisLate ∧
    threads.shared.redisServer.late[event.2.late]? = some command

/--
If the worker's command throws, every entry of its batch is pending again, or is
already where it belongs: written with the same JSON, and published.  And if the server
writes a batch late, every entry is pending again or to be written again, or is
there with the same JSON and still to be published.
-/
structure AbortsHarmlessly (threads : Threads) (event : Thread × Env) : Prop where
  write : ∀ entries executed, event.1 = .worker → event.2.redis = .thrown executed →
    threads.current .worker = RedisInterface.writeBatch entries →
      let server := threads.shared.redisServer.attempt (.thrown executed) (.hmset entries)
      ∀ entry ∈ entries, entry.1 ∈ threads.shared.writeMap ∨
        server.hash[entry.1]? = some entry.2 ∧ entry.1 ∉ server.unannounced
  publish : ∀ entry rest executed, event.1 = .worker → event.2.redis = .thrown executed →
    threads.current .worker = RedisInterface.publishAll (entry :: rest) →
      let server := threads.shared.redisServer.attempt (.thrown executed) (.publish entry.1)
      ∀ other ∈ entry :: rest, other.1 ∈ threads.shared.writeMap ∨
        other.1 ∉ server.unannounced
  late : ∀ entries, ExecutesLate threads event (.hmset entries) →
    ∀ entry ∈ entries, entry.1 ∈ threads.shared.writeMap ∨ ToWrite threads entry.1 ∨
      threads.shared.redisServer.hash[entry.1]? = some entry.2 ∧ ToPublish threads entry.1

theorem mem_unwritten_of_toWrite {threads : Threads} {phase : Phase}
    (hphase : threads.current .worker = phase.code) {field : Bytes} (h : ToWrite threads field) :
    field ∈ phase.unwritten := by
  obtain ⟨entries, hcode, hfield⟩ := h
  rw [hphase] at hcode
  cases phase with
  | writing batch =>
      cases hcode
      exact batch.mem_map_iff.mpr hfield
  | _ => cases hcode

theorem map_fst_of_publishAll {first second : List (Bytes × Bytes)}
    (h : RedisInterface.publishAll first = RedisInterface.publishAll second) :
    first.map Prod.fst = second.map Prod.fst := by
  induction first generalizing second with
  | nil =>
      cases second with
      | nil => rfl
      | cons entry rest => cases h
  | cons entry rest ih =>
      cases second with
      | nil => cases h
      | cons entry' rest' =>
          obtain ⟨hop, hnext⟩ := Prog.call.inj h
          have hrest := ih (congrFun (eq_of_heq hnext) true)
          rw [List.map_cons, List.map_cons, Section.redisPublish.inj hop, hrest]

theorem mem_remainder_of_toPublish {threads : Threads} {phase : Phase}
    (hphase : threads.current .worker = phase.code) {field : Bytes}
    (h : ToPublish threads field) : field ∈ phase.remainder.map Prod.fst := by
  obtain ⟨entries, hcode, hfield⟩ := h
  rw [hphase] at hcode
  cases entries with
  | nil => cases hfield
  | cons entry rest =>
      cases phase with
      | publishing entry' rest' =>
          exact map_fst_of_publishAll hcode ▸ hfield
      | _ => cases hcode

theorem mem_of_getElem? {map : StringMap} {field json : Bytes}
    (h : map[field]? = some json) : field ∈ map :=
  Std.ExtTreeMap.mem_iff_isSome_getElem?.mpr (by rw [h, Option.isSome_some])

namespace Kept

variable {state after : Bridge} {phase phase' : Phase}

theorem congr (h : Kept state phase) (hmap : after.writeMap = state.writeMap)
    (hhash : after.redisServer.hash = state.redisServer.hash)
    (hunannounced : after.redisServer.unannounced ⊆ state.redisServer.unannounced)
    (hentered : after.history.entered = state.history.entered) : Kept after phase := by
  refine ⟨fun field json hjson => ?_, fun field json hjson => ?_, fun field hfield => ?_⟩
  · rw [hmap] at hjson
    rw [hentered]
    exact h.pending field json hjson
  · rw [hentered] at hjson
    rw [view, hmap, hhash]
    exact h.entered field json hjson
  · rw [hmap]
    exact h.announced field (hunannounced hfield)

theorem insert (h : Kept state phase) (fieldPrefix : Bytes) (id : UInt32) (json : Bytes) :
    Kept (state.mapInsert fieldPrefix id json) phase := by
  by_cases hmem : fieldOf fieldPrefix id ∈ state.writeMap
  · apply h.congr
    · exact insertIfNew_of_mem hmem
    · rfl
    · exact List.Subset.refl _
    · rw [Bridge.mapInsert_history_entered, if_pos hmem]
  · have hmap : (state.mapInsert fieldPrefix id json).writeMap =
        state.writeMap.insert (fieldOf fieldPrefix id) json := insertIfNew_of_not_mem hmem
    have hentered : (state.mapInsert fieldPrefix id json).history.entered =
        state.history.entered.insert (fieldOf fieldPrefix id) json := by
      rw [Bridge.mapInsert_history_entered, if_neg hmem]
    refine ⟨fun field other hother => ?_, fun field other hother => ?_, fun field hfield => ?_⟩
    · rw [hmap, getElem?_insert] at hother
      rw [hentered, getElem?_insert]
      split at hother
      next hsame => rw [if_pos hsame, hother]
      next hne =>
        rw [if_neg hne]
        exact h.pending field other hother
    · rw [hentered, getElem?_insert] at hother
      rw [view, hmap, getElem?_insert]
      split at hother
      next hsame => rw [if_pos hsame, hother, Option.some_or]
      next hne =>
        rw [if_neg hne]
        exact h.entered field other hother
    · rw [hmap, Std.ExtTreeMap.mem_insert]
      exact (h.announced field hfield).imp_left .inr

theorem rephase (h : Kept state phase) (hunwritten : phase'.unwritten = phase.unwritten)
    (hremainder : phase'.remainder = phase.remainder) : Kept state phase' := by
  refine ⟨h.pending, fun field json hjson => ?_, fun field hfield => ?_⟩
  · rw [view, hunwritten]
    exact h.entered field json hjson
  · rw [hremainder]
    exact h.announced field hfield

theorem empty (h : Kept state .taking)
    (hempty : ∀ field : Bytes, state.writeMap[field]? = none) :
    Kept { state with writeMap := ∅ } (.idle true) := by
  refine ⟨fun field json hjson => ?_, fun field json hjson => ?_, fun field hfield => ?_⟩
  · simp at hjson
  · have hview := h.entered field json hjson
    have hnone : (∅ : StringMap)[field]? = none := by simp
    rw [view, hempty] at hview
    rw [view, hnone]
    exact hview
  · rcases h.announced field hfield with hpending | hremainder
    · rw [Std.ExtTreeMap.mem_iff_isSome_getElem?, hempty] at hpending
      cases hpending
    · cases hremainder

theorem taken (h : Kept state .taking) (batch : Batch) (hbatch : batch.map = state.writeMap) :
    Kept { state with writeMap := ∅ } (.writing batch) := by
  refine ⟨fun field json hjson => ?_, fun field json hjson => ?_, fun field hfield => ?_⟩
  · simp at hjson
  · have hview := h.entered field json hjson
    simpa [view, Phase.unwritten, hbatch] using hview
  · rcases h.announced field hfield with hpending | hremainder
    · exact .inr (batch.mem_map_iff.mp (hbatch ▸ hpending))
    · cases hremainder

theorem hash_hmset (batch : Batch) (server : RedisServer) (field : Bytes) :
    (server.hmset batch.entries).hash[field]? = batch.map[field]?.or server.hash[field]? :=
  batch.listing.getElem?_insertMany server.hash field

theorem written (batch : Batch) (h : Kept state (.writing batch)) :
    Kept { state with redisServer := state.redisServer.hmset batch.entries }
      (.afterWrite batch.entries) := by
  refine ⟨h.pending, fun field json hjson => ?_, fun field hfield => ?_⟩
  · have hview := h.entered field json hjson
    rw [view, Phase.unwritten_afterWrite, hash_hmset]
    simpa [view, Phase.unwritten] using hview
  · rw [Phase.remainder_afterWrite]
    rcases List.mem_append.mp hfield with hbatch | hold
    · exact .inr hbatch
    · exact h.announced field hold

theorem published (entry : Bytes × Bytes) (rest : List (Bytes × Bytes))
    (h : Kept state (.publishing entry rest)) :
    Kept { state with redisServer := state.redisServer.publish entry.1 }
      (.afterWrite rest) := by
  refine ⟨h.pending, fun field json hjson => ?_, fun field hfield => ?_⟩
  · have hview := h.entered field json hjson
    rw [view, Phase.unwritten_afterWrite]
    exact hview
  · obtain ⟨hold, hne⟩ := List.mem_filter.mp hfield
    rw [Phase.remainder_afterWrite]
    rcases h.announced field hold with hpending | hremainder
    · exact .inl hpending
    · rcases List.mem_cons.mp hremainder with heq | hrest
      · simp [heq] at hne
      · exact .inr hrest

theorem writeThrown (batch : Batch) (outcome : RedisOutcome)
    (hharmless : ∀ entry ∈ batch.entries, entry.1 ∈ state.writeMap ∨
      (state.redisServer.attempt outcome (.hmset batch.entries)).hash[entry.1]? =
          some entry.2 ∧
        entry.1 ∉ (state.redisServer.attempt outcome (.hmset batch.entries)).unannounced)
    (h : Kept state (.writing batch)) :
    Kept { state with redisServer := state.redisServer.attempt outcome (.hmset batch.entries) }
      (.idle false) := by
  have hhash := state.redisServer.hash_attempt_hmset outcome batch.entries
  have hunannounced := state.redisServer.unannounced_attempt_hmset outcome batch.entries
  generalize state.redisServer.attempt outcome (.hmset batch.entries) = server
    at hharmless hhash hunannounced
  refine ⟨h.pending, fun field json hjson => ?_, fun field hfield => ?_⟩
  · have hnone : (∅ : StringMap)[field]? = none := by simp
    have hview := h.entered field json hjson
    change state.writeMap[field]?.or ((∅ : StringMap)[field]?.or server.hash[field]?) = _
    change state.writeMap[field]?.or (batch.map[field]?.or _) = _ at hview
    rw [hnone, Option.none_or]
    cases hpending : state.writeMap[field]? with
    | some pending =>
        rw [hpending] at hview
        exact hview
    | none =>
        rw [hpending, Option.none_or] at hview
        rw [Option.none_or]
        cases hbatch : batch.map[field]? with
        | some value =>
            rw [hbatch, Option.some_or] at hview
            rcases hharmless (field, value) (batch.listing.mem_iff.mpr hbatch) with hmem | hdone
            · rw [Std.ExtTreeMap.mem_iff_isSome_getElem?, hpending] at hmem
              cases hmem
            · rw [hdone.1, hview]
        | none =>
            rw [hbatch, Option.none_or] at hview
            rcases hhash with hsame | hwritten
            · rw [hsame, hview]
            · rw [hwritten, batch.listing.getElem?_insertMany, hbatch, Option.none_or, hview]
  · left
    by_cases hbatch : field ∈ batch.entries.map Prod.fst
    · obtain ⟨entry, hentry, rfl⟩ := List.mem_map.mp hbatch
      exact (hharmless entry hentry).resolve_right fun hdone => hdone.2 hfield
    · have hold : field ∈ state.redisServer.unannounced :=
        (List.mem_append.mp (hunannounced hfield)).resolve_left hbatch
      exact (h.announced field hold).resolve_right hbatch

theorem publishThrown (entry : Bytes × Bytes) (rest : List (Bytes × Bytes))
    (outcome : RedisOutcome)
    (hharmless : ∀ other ∈ entry :: rest, other.1 ∈ state.writeMap ∨
      other.1 ∉ (state.redisServer.attempt outcome (.publish entry.1)).unannounced)
    (h : Kept state (.publishing entry rest)) :
    Kept { state with redisServer := state.redisServer.attempt outcome (.publish entry.1) }
      (.idle false) := by
  have hhash := state.redisServer.hash_attempt_publish outcome entry.1
  have hunannounced := state.redisServer.unannounced_attempt_publish outcome entry.1
  generalize state.redisServer.attempt outcome (.publish entry.1) = server
    at hharmless hhash hunannounced
  refine ⟨h.pending, fun field json hjson => ?_, fun field hfield => ?_⟩
  · rw [view, hhash]
    exact h.entered field json hjson
  · left
    rcases h.announced field (hunannounced hfield) with hpending | hremainder
    · exact hpending
    · obtain ⟨other, hother, rfl⟩ := List.mem_map.mp hremainder
      exact (hharmless other hother).resolve_right fun hdone => hdone hfield

theorem writtenLate {entries : List (Bytes × Bytes)} (late : List RedisCommand)
    (hharmless : ∀ entry ∈ entries, entry.1 ∈ state.writeMap ∨ entry.1 ∈ phase.unwritten ∨
      state.redisServer.hash[entry.1]? = some entry.2 ∧
        entry.1 ∈ phase.remainder.map Prod.fst)
    (h : Kept state phase) :
    Kept { state with redisServer := { state.redisServer.hmset entries with late := late } }
      phase := by
  refine ⟨h.pending, fun field json hjson => ?_, fun field hfield => ?_⟩
  · have hview := h.entered field json hjson
    change state.writeMap[field]?.or (phase.unwritten[field]?.or
      (state.redisServer.hash.insertMany entries)[field]?) = some json
    rcases getElem?_insertMany_cases state.redisServer.hash entries field with
      ⟨value, hentry, hsome⟩ | ⟨-, hsame⟩
    · rw [hsome]
      rcases hharmless _ hentry with hpending | hunwritten | hwritten
      · rw [Std.ExtTreeMap.mem_iff_isSome_getElem?] at hpending
        obtain ⟨pending, hpending⟩ := Option.isSome_iff_exists.mp hpending
        rw [view, hpending] at hview
        rw [hpending]
        exact hview
      · rw [Std.ExtTreeMap.mem_iff_isSome_getElem?] at hunwritten
        obtain ⟨unwritten, hunwritten⟩ := Option.isSome_iff_exists.mp hunwritten
        rw [view, hunwritten] at hview
        rw [hunwritten]
        exact hview
      · rw [← hwritten.1]
        exact hview
    · rw [hsame]
      exact hview
  · rcases List.mem_append.mp hfield with hbatch | hold
    · obtain ⟨entry, hentry, rfl⟩ := List.mem_map.mp hbatch
      refine (hharmless entry hentry).imp_right ?_
      rintro (hunwritten | hwritten)
      · exact phase.mem_remainder_of_mem_unwritten hunwritten
      · exact hwritten.2
    · exact h.announced field hold

theorem late (i : Nat)
    (hharmless : ∀ entries, state.redisServer.late[i]? = some (.hmset entries) →
      ∀ entry ∈ entries, entry.1 ∈ state.writeMap ∨ entry.1 ∈ phase.unwritten ∨
        state.redisServer.hash[entry.1]? = some entry.2 ∧
          entry.1 ∈ phase.remainder.map Prod.fst)
    (h : Kept state phase) :
    Kept { state with redisServer := state.redisServer.executeLate i } phase := by
  unfold RedisServer.executeLate
  split
  next command hcommand =>
    cases command with
    | publish field => exact h.congr rfl rfl (List.filter_subset_self _) rfl
    | hmset entries => exact h.writtenLate _ (hharmless entries hcommand)
  next => exact h

theorem move {program : Program} {threads : Threads} {event : Thread × Env}
    (hphase : threads.current .worker = phase.code)
    (hmove : Move program threads event phase after phase')
    (hharmless : AbortsHarmlessly threads event) (h : Kept threads.shared phase) :
    Kept after phase' := by
  cases hmove with
  | other phase shared huntouched =>
      exact h.congr huntouched.writeMap (by rw [huntouched.redisServer])
        (by rw [huntouched.redisServer]; exact List.Subset.refl _) huntouched.entered
  | insert phase id json next hcall => exact h.insert _ id json
  | turn connected => exact h.rephase (Phase.unwritten_turn _) (Phase.remainder_turn _)
  | connected hthread => exact h.rephase rfl rfl
  | empty hempty => exact h.empty hempty
  | taken batch hbatch => exact h.taken batch hbatch
  | written batch hdone => exact h.written batch
  | writeThrown batch executed hthread hthrown =>
      have hentries := hharmless.write batch.entries executed hthread hthrown hphase
      exact h.writeThrown batch (.thrown executed) hentries
  | published entry rest hdone => exact h.published entry rest
  | publishThrown entry rest executed hthread hthrown =>
      have hentries := hharmless.publish entry rest executed hthread hthrown hphase
      exact h.publishThrown entry rest (.thrown executed) hentries
  | late phase hthread hcall =>
      refine h.late event.2.late fun entries hlate entry hentry => ?_
      refine (hharmless.late entries ⟨hthread, hcall, hlate⟩ entry hentry).imp_right ?_
      exact .imp (mem_unwritten_of_toWrite hphase) fun hwritten =>
        ⟨hwritten.1, mem_remainder_of_toPublish hphase hwritten.2⟩

end Kept

/-- The worker is in some phase, and nothing is lost in it. -/
def Sound (threads : Threads) : Prop :=
  ∃ phase : Phase, threads.current .worker = phase.code ∧ Kept threads.shared phase

theorem sound_start (config : ConfigParser) (hash : StringMap) (fr : CanFrame) :
    Sound (start config hash fr) := by
  refine ⟨.idle false, rfl, fun field json hjson => ?_, fun field json hjson => ?_,
    fun field hfield => ?_⟩
  · simp [start, between, System.initial, Main.initial] at hjson
  · simp [start, between, System.initial, Main.initial] at hjson
  · cases hfield

theorem Sound.step {program : Program} {threads : Threads} {event : Thread × Env}
    (hrespects : threads.Respects (Footprint program))
    (hharmless : AbortsHarmlessly threads event) (h : Sound threads) :
    Sound (step program threads event) := by
  obtain ⟨phase, hphase, hkept⟩ := h
  obtain ⟨phase', hphase', hmove⟩ := exists_move hrespects hphase event
  exact ⟨phase', hphase', hkept.move hphase hmove hharmless⟩

end Threads

end Can2Rest
