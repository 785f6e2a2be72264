import Can2Rest.Properties.RedisProgress
import Mathlib.Data.Nat.SuccPred

/-!
# Redis goes back only late

Whatever fails, the JSON of a field in the hash is that of a stored update, and gives
way to that of an earlier one only where the server writes a batch that the worker has
given up on.
-/

namespace Can2Rest.Properties

open Foundation Shared Threads

/-- The JSON that a field gets from the update stored `version`th, or had at the start. -/
inductive IsVersion (hash : StringMap) (fieldPrefix field : Bytes)
    (stored : List (UInt32 × Bytes)) : Nat → Option Bytes → Prop
  | initial : IsVersion hash fieldPrefix field stored 0 hash[field]?
  | update {version : Nat} {id : UInt32} {json : Bytes}
      (hstored : stored[version]? = some (id, json)) (hfield : fieldOf fieldPrefix id = field) :
      IsVersion hash fieldPrefix field stored (version + 1) (some json)

theorem IsVersion.append {hash : StringMap} {fieldPrefix field : Bytes}
    {stored : List (UInt32 × Bytes)} {version : Nat} {json : Option Bytes}
    (h : IsVersion hash fieldPrefix field stored version json) (more : List (UInt32 × Bytes)) :
    IsVersion hash fieldPrefix field (stored ++ more) version json := by
  cases h with
  | initial => exact .initial
  | update hstored hfield =>
      obtain ⟨hlt, -⟩ := List.getElem?_eq_some_iff.mp hstored
      exact .update (by rw [List.getElem?_append_left hlt, hstored]) hfield

theorem getElem?_empty_ne {field json : Bytes} : (∅ : StringMap)[field]? ≠ some json := by
  rw [Std.ExtTreeMap.getElem?_empty]
  exact (Option.some_ne_none json).symm

/--
The hash, the worker's batch and the pending map hold later and later versions; what may
be written late is no later than the batch.
-/
structure Ordered (hash : StringMap) (fieldPrefix field : Bytes) (state : Bridge)
    (phase : Phase) (shown taken pending : Nat) : Prop where
  shown_le : shown ≤ taken
  taken_le : taken ≤ pending
  pending_le : pending ≤ state.history.stored.length
  shown : IsVersion hash fieldPrefix field state.history.stored shown
    state.redisServer.hash[field]?
  late : ∀ json, state.redisServer.HasLate field json → ∃ version ≤ taken,
    IsVersion hash fieldPrefix field state.history.stored version (some json)
  taken : ∀ json, phase.unwritten[field]? = some json →
    IsVersion hash fieldPrefix field state.history.stored taken (some json)
  pending : ∀ json, state.writeMap[field]? = some json →
    IsVersion hash fieldPrefix field state.history.stored pending (some json)

def WritesLate (field : Bytes) (threads : Threads) (event : Thread × Env) : Prop :=
  ∃ entries json, ExecutesLate threads event (.hmset entries) ∧ (field, json) ∈ entries

section Ordered

variable {program : Program} {threads : Threads} {event : Thread × Env}
variable {hash : StringMap} {fieldPrefix field : Bytes} {state after : Bridge}
variable {phase phase' : Phase} {shown taken pending : Nat}

namespace Ordered

theorem congr (h : Ordered hash fieldPrefix field state phase shown taken pending)
    (hstored : after.history.stored = state.history.stored)
    (hhash : after.redisServer.hash = state.redisServer.hash)
    (hlate : ∀ json, after.redisServer.HasLate field json →
      state.redisServer.HasLate field json)
    (hunwritten : ∀ json, phase'.unwritten[field]? = some json →
      phase.unwritten[field]? = some json)
    (hmap : ∀ json, after.writeMap[field]? = some json → state.writeMap[field]? = some json) :
    Ordered hash fieldPrefix field after phase' shown taken pending where
  shown_le := h.shown_le
  taken_le := h.taken_le
  pending_le := hstored ▸ h.pending_le
  shown := by
    rw [hstored, hhash]
    exact h.shown
  taken json hjson := by
    rw [hstored]
    exact h.taken json (hunwritten json hjson)
  pending json hjson := by
    rw [hstored]
    exact h.pending json (hmap json hjson)
  late json hjson := by
    rw [hstored]
    exact h.late json (hlate json hjson)

theorem insert (h : Ordered hash fieldPrefix field state phase shown taken pending)
    (id : UInt32) (json : Bytes) :
    ∃ pending', Ordered hash fieldPrefix field (state.mapInsert fieldPrefix id json) phase
      shown taken pending' := by
  have hlength : (state.mapInsert fieldPrefix id json).history.stored.length =
      state.history.stored.length + 1 := by simp
  have hmap : (state.mapInsert fieldPrefix id json).writeMap =
      state.writeMap.insertIfNew (fieldOf fieldPrefix id) json := rfl
  have hlate other (hother : state.redisServer.HasLate field other) : ∃ version ≤ taken,
      IsVersion hash fieldPrefix field (state.history.stored ++ [(id, json)]) version
        (some other) := by
    obtain ⟨version, hle, hversion⟩ := h.late other hother
    exact ⟨version, hle, hversion.append _⟩
  by_cases hnew : fieldOf fieldPrefix id = field ∧ state.writeMap[field]? = none
  · obtain ⟨hfield, hnone⟩ := hnew
    refine ⟨state.history.stored.length + 1, h.shown_le,
      h.taken_le.trans (h.pending_le.trans (Nat.le_succ _)), hlength.ge, h.shown.append _,
      hlate, fun other hother => (h.taken other hother).append _, fun other hother => ?_⟩
    rw [hmap, getElem?_insertIfNew, if_pos hfield, hfield, hnone] at hother
    cases hother
    exact .update List.getElem?_concat_length hfield
  · refine ⟨pending, h.shown_le, h.taken_le, h.pending_le.trans (by omega), h.shown.append _,
      hlate, fun other hother => (h.taken other hother).append _, fun other hother => ?_⟩
    refine (h.pending other ?_).append _
    rw [hmap, getElem?_insertIfNew] at hother
    split at hother
    next hfield =>
      subst hfield
      cases hvalue : state.writeMap[fieldOf fieldPrefix id]? with
      | none => exact absurd ⟨rfl, hvalue⟩ hnew
      | some value =>
          rw [hvalue] at hother
          exact hother
    next hne => exact hother

theorem written {batch : Batch}
    (h : Ordered hash fieldPrefix field state (.writing batch) shown taken pending)
    (hunwritten : phase'.unwritten = ∅) :
    ∃ shown', shown ≤ shown' ∧ Ordered hash fieldPrefix field
      { state with redisServer := state.redisServer.hmset batch.entries } phase'
      shown' taken pending := by
  have hnone (json : Bytes) (hjson : phase'.unwritten[field]? = some json) : False :=
    getElem?_empty_ne (hunwritten ▸ hjson)
  cases hvalue : batch.map[field]? with
  | none =>
      refine ⟨shown, le_rfl, h.shown_le, h.taken_le, h.pending_le, ?_,
        h.late, fun json hjson => (hnone json hjson).elim, h.pending⟩
      rw [Kept.hash_hmset, hvalue, Option.none_or]
      exact h.shown
  | some json =>
      refine ⟨taken, h.shown_le, le_rfl, h.taken_le, h.pending_le, ?_,
        h.late, fun json hjson => (hnone json hjson).elim, h.pending⟩
      rw [Kept.hash_hmset, hvalue, Option.some_or]
      exact h.taken json hvalue

theorem givenUp {batch : Batch}
    (h : Ordered hash fieldPrefix field state (.writing batch) shown taken pending) :
    Ordered hash fieldPrefix field
      { state with
        redisServer := state.redisServer.attempt (.thrown false) (.hmset batch.entries) }
      (.idle false) shown taken pending where
  shown_le := h.shown_le
  taken_le := h.taken_le
  pending_le := h.pending_le
  shown := h.shown
  taken json hjson := absurd hjson getElem?_empty_ne
  pending := h.pending
  late json hjson := by
    rcases RedisServer.hasLate_attempt_hmset hjson with hold | hentry
    · exact h.late json hold
    · exact ⟨taken, le_rfl, h.taken json (batch.listing.mem_iff.mp hentry)⟩

theorem writtenLate (h : Ordered hash fieldPrefix field state phase shown taken pending)
    (i : Nat) :
    ∃ shown', ((∀ entries json, state.redisServer.late[i]? = some (.hmset entries) →
        (field, json) ∉ entries) → shown ≤ shown') ∧
      Ordered hash fieldPrefix field
        { state with redisServer := state.redisServer.executeLate i } phase
        shown' taken pending := by
  have hrest json (hjson : (state.redisServer.executeLate i).HasLate field json) :=
    h.late json (RedisServer.hasLate_executeLate hjson)
  rcases state.redisServer.getElem?_executeLate i field with
    hsame | ⟨entries, json, hcommand, hentry, hsome⟩
  · refine ⟨shown, fun _ => le_rfl, h.shown_le, h.taken_le, h.pending_le, ?_, hrest, h.taken,
      h.pending⟩
    exact hsame ▸ h.shown
  · obtain ⟨version, hle, hversion⟩ :=
      h.late json ⟨entries, List.mem_of_getElem? hcommand, hentry⟩
    refine ⟨version, fun hnone => absurd hentry (hnone entries json hcommand), hle, h.taken_le,
      h.pending_le, ?_, hrest, h.taken, h.pending⟩
    exact hsome ▸ hversion

theorem move (hmove : Move program threads event phase after phase')
    (h : Ordered hash program.setup.redis.fieldPrefix field threads.shared phase
      shown taken pending) :
    ∃ shown' taken' pending', (¬ WritesLate field threads event → shown ≤ shown') ∧
      Ordered hash program.setup.redis.fieldPrefix field after phase'
        shown' taken' pending' := by
  cases hmove with
  | other phase shared huntouched =>
      refine ⟨_, _, _, fun _ => le_rfl, h.congr huntouched.stored ?_ ?_ (fun _ => id) ?_⟩
      · rw [huntouched.redisServer]
      · rw [huntouched.redisServer]
        exact fun _ => id
      · rw [huntouched.writeMap]
        exact fun _ => id
  | insert phase id json next hcall =>
      obtain ⟨pending', hinsert⟩ := h.insert id json
      exact ⟨_, _, _, fun _ => le_rfl, hinsert⟩
  | turn connected =>
      refine ⟨_, _, _, fun _ => le_rfl,
        h.congr rfl rfl (fun _ => id) (fun json hjson => ?_) fun _ => id⟩
      rw [Phase.unwritten_turn] at hjson
      exact hjson
  | connected hthread =>
      exact ⟨_, _, _, fun _ => le_rfl,
        h.congr rfl rfl (fun _ => id) (fun _ => id) fun _ => id⟩
  | empty hnone =>
      exact ⟨_, _, _, fun _ => le_rfl, h.congr rfl rfl (fun _ => id) (fun _ => id)
        fun json hjson => absurd hjson getElem?_empty_ne⟩
  | taken batch hbatch =>
      refine ⟨shown, pending, pending, fun _ => le_rfl, h.shown_le.trans h.taken_le, le_rfl,
        h.pending_le, h.shown, fun json hjson => ?_,
        fun json hjson => h.pending json (hbatch ▸ hjson),
        fun json hjson => absurd hjson getElem?_empty_ne⟩
      obtain ⟨version, hle, hversion⟩ := h.late json hjson
      exact ⟨version, hle.trans h.taken_le, hversion⟩
  | written batch hdone =>
      obtain ⟨shown', hle, hwritten⟩ := h.written (Phase.unwritten_afterWrite batch.entries)
      exact ⟨shown', _, _, fun _ => hle, hwritten⟩
  | writeThrown batch executed hthread hthrown =>
      cases executed with
      | true =>
          have hidle : (Phase.idle false).unwritten = ∅ := rfl
          obtain ⟨shown', hle, hwritten⟩ := h.written hidle
          exact ⟨shown', _, _, fun _ => hle, hwritten⟩
      | false => exact ⟨_, _, _, fun _ => le_rfl, h.givenUp⟩
  | published entry rest hdone =>
      refine ⟨_, _, _, fun _ => le_rfl,
        h.congr rfl rfl (fun _ => id) (fun json hjson => ?_) fun _ => id⟩
      rw [Phase.unwritten_afterWrite] at hjson
      exact hjson
  | publishThrown entry rest executed hthread hthrown =>
      exact ⟨_, _, _, fun _ => le_rfl,
        h.congr rfl (RedisServer.hash_attempt_publish _ _ _)
          (fun _ => RedisServer.hasLate_attempt_publish) (fun _ => id) fun _ => id⟩
  | late phase hthread hcall =>
      obtain ⟨shown', hle, hnext⟩ := h.writtenLate event.2.late
      refine ⟨shown', _, _, fun hnot => hle fun entries json hcommand hentry => ?_, hnext⟩
      exact hnot ⟨entries, json, ⟨hthread, hcall, hcommand⟩, hentry⟩

end Ordered

def Shows (fieldPrefix : Bytes) (hash : StringMap) (field : Bytes) (threads : Threads)
    (shown : Nat) : Prop :=
  ∃ phase taken pending, threads.current .worker = phase.code ∧
    Ordered hash fieldPrefix field threads.shared phase shown taken pending

theorem Shows.step (hworking : Working program threads) (event : Thread × Env)
    (h : Shows program.setup.redis.fieldPrefix hash field threads shown) :
    ∃ shown', (¬ WritesLate field threads event → shown ≤ shown') ∧
      Shows program.setup.redis.fieldPrefix hash field
        (Threads.step program threads event) shown' := by
  obtain ⟨phase, taken, pending, hphase, hordered⟩ := h
  obtain ⟨phase', hphase', hmove⟩ := exists_move hworking.respects hphase event
  obtain ⟨shown', taken', pending', hle, hnext⟩ := hordered.move hmove
  exact ⟨shown', hle, phase', taken', pending', hphase', hnext⟩

theorem shows_start (config : ConfigParser) (fr : CanFrame) :
    Shows fieldPrefix hash field (start config hash fr) 0 := by
  refine ⟨.idle false, 0, 0, rfl, le_rfl, le_rfl, Nat.zero_le _, .initial, ?_, ?_, ?_⟩
  · rintro json ⟨entries, hentries, -⟩
    cases hentries
  · exact fun json hjson => absurd hjson getElem?_empty_ne
  · exact fun json hjson => absurd hjson getElem?_empty_ne

end Ordered

/--
Whatever fails, a field shows a version in the hash, and over any stretch of the run in
which it is not written late the versions never go down.
-/
theorem hash_goes_back_only_late (program : Program) (config : ConfigParser) (hash : StringMap)
    (fr : CanFrame) (events : Nat → Thread × Env) (field : Bytes) :
    ∃ version : Nat → Nat,
      (∀ time, let state := (threadsAt program config hash fr events time).shared
        IsVersion hash program.setup.redis.fieldPrefix field state.history.stored (version time)
          state.redisServer.hash[field]?) ∧
      ∀ first last,
        (∀ time, first ≤ time → time < last →
          ¬ WritesLate field (threadsAt program config hash fr events time) (events time)) →
        MonotoneOn version (Set.Icc first last) := by
  let threads := threadsAt program config hash fr events
  let shows (time : Nat) := Shows program.setup.redis.fieldPrefix hash field (threads time)
  have hstep (time shown : Nat) (h : shows time shown) :
      ∃ shown', (¬ WritesLate field (threads time) (events time) → shown ≤ shown') ∧
        shows (time + 1) shown' :=
    h.step (working_at program config hash fr events time) (events time)
  obtain ⟨version, hshows, hversion⟩ := exists_trace ⟨0, shows_start config fr⟩ hstep
  refine ⟨version, fun time => ?_, fun first last hlate => ?_⟩
  · obtain ⟨phase, taken, pending, -, hordered⟩ := hshows time
    exact hordered.shown
  · refine monotoneOn_of_le_add_one Set.ordConnected_Icc fun time _ htime hnext => ?_
    exact hversion time (hlate time htime.1 (Nat.lt_of_succ_le hnext.2))

end Can2Rest.Properties
