import Can2Rest.Properties.RedisUpdates
import Can2Rest.Serving

/-!
# Requests that only read

`GET /receive` and `GET /list` go through `operator[]` of both maps, which can
insert.  What a request inserts in the registry, the main loop is about to
insert with its next lookup, and nothing else comes of leaving the request out.
-/

namespace Can2Rest.Properties

open Foundation Shared Threads Serving CanFrameToJson

def kept (deleted : Nat → Request → Bool) : Thread → Bool
  | .handler number (.receive digits) => !deleted number (.receive digits)
  | .handler number .list => !deleted number .list
  | _ => true

/-- Equal but for entries `NONE` that only the first registry has. -/
structure SameButPending (pending : UInt16 → Prop) (full cut : Bridge) : Prop where
  rest : full = { cut with typeRegister := full.typeRegister }
  register : ∀ id, full.typeRegister[id]? = cut.typeRegister[id]? ∨
    cut.typeRegister[id]? = none ∧ full.typeRegister[id]? = some .none ∧ pending id

/--
What a run with more requests that read may differ in: the registry may have
the entry `NONE` already that the main loop inserts with its next lookup.
-/
structure SameWithout (deleted : Nat → Request → Bool) (full cut : Serving) : Prop where
  /-- With the rest of its turn, a thread has its answer or the sync counter. -/
  threads : ∀ thread, kept deleted thread = true → full.current thread = cut.current thread
  shared : SameButPending (fun id => Awaits id (full.current .main)) full.shared cut.shared

/-! ## Two runs -/

section Sections

variable {pending : UInt16 → Prop} {full cut : Bridge}

theorem SameButPending.registeredType (h : SameButPending pending full cut) (id : UInt16) :
    registeredType full.typeRegister id =
      registeredType cut.typeRegister id := by
  unfold CanFrameToJson.registeredType
  rcases h.register id with hsame | ⟨hcut, hfull, -⟩
  · rw [hsame]
  · rw [hcut, hfull]
    rfl

theorem SameButPending.mono {pending' : UInt16 → Prop} (h : SameButPending pending full cut)
    (hpending : ∀ id, pending id → pending' id) : SameButPending pending' full cut :=
  ⟨h.rest, fun id => (h.register id).imp_right fun ⟨hcut, hfull, hid⟩ =>
    ⟨hcut, hfull, hpending id hid⟩⟩

theorem SameButPending.result (h : SameButPending pending full cut) (op : Section) (env : Env) :
    (bridge op env full).1 = (bridge op env cut).1 ∨
      ∃ id, op = .typeFind id ∧ pending id := by
  have hleaves : LeavesRegister op → (bridge op env full).1 = (bridge op env cut).1 := by
    intro hop
    rw [h.rest, bridge_of_leaves hop]
  cases op with
  | typeFind id =>
      rcases h.register id with hsame | ⟨-, -, hpending⟩
      · left
        change full.typeRegister.contains id = cut.typeRegister.contains id
        rw [Std.ExtTreeMap.contains_eq_isSome_getElem?,
          Std.ExtTreeMap.contains_eq_isSome_getElem?, hsame]
      · exact .inr ⟨id, rfl, hpending⟩
  | typeIndex id =>
      left
      change (mapIndex full.typeRegister id .none).1 = (mapIndex cut.typeRegister id .none).1
      rw [mapIndex_fst, mapIndex_fst]
      exact h.registeredType id
  | typeAssign id type => exact .inl rfl
  | _ => exact .inl (hleaves trivial)

theorem SameButPending.section (h : SameButPending pending full cut) (op : Section)
    (env : Env) :
    SameButPending (fun id => pending id ∧ op ≠ .typeIndex id) (bridge op env full).2
      (bridge op env cut).2 := by
  have hleaves : LeavesRegister op → (∀ id, op ≠ .typeIndex id) →
      SameButPending (fun id => pending id ∧ op ≠ .typeIndex id) (bridge op env full).2
        (bridge op env cut).2 := by
    intro hop hindex
    refine ⟨?_, fun id => ?_⟩
    · rw [typeRegister_of_leaves hop]
      conv_lhs => rw [h.rest, bridge_of_leaves hop]
    · rw [typeRegister_of_leaves hop, typeRegister_of_leaves hop]
      exact (h.register id).imp_right fun ⟨hcut, hfull, hid⟩ =>
        ⟨hcut, hfull, hid, hindex id⟩
  cases op with
  | typeFind id => exact h.mono fun _ hid => ⟨hid, nofun⟩
  | typeIndex id =>
      refine ⟨?_, fun other => ?_⟩
      · change { full with typeRegister := lookedUp full.typeRegister id } =
          { cut with typeRegister := lookedUp full.typeRegister id }
        rw [h.rest]
      · change (lookedUp full.typeRegister id)[other]? =
            (lookedUp cut.typeRegister id)[other]? ∨
          (lookedUp cut.typeRegister id)[other]? = none ∧
            (lookedUp full.typeRegister id)[other]? = some .none ∧ _
        rw [getElem?_lookedUp, getElem?_lookedUp]
        by_cases hother : id = other
        · rw [if_pos hother, if_pos hother, h.registeredType id]
          exact .inl rfl
        · rw [if_neg hother, if_neg hother]
          refine (h.register other).imp_right fun ⟨hcut, hfull, hid⟩ => ⟨hcut, hfull, hid, ?_⟩
          rintro ⟨⟩
          exact hother rfl
  | typeAssign id type =>
      refine ⟨?_, fun other => ?_⟩
      · change { full with typeRegister := full.typeRegister.insert id type } =
          { cut with typeRegister := full.typeRegister.insert id type }
        rw [h.rest]
      · change (full.typeRegister.insert id type)[other]? =
            (cut.typeRegister.insert id type)[other]? ∨
          (cut.typeRegister.insert id type)[other]? = none ∧
            (full.typeRegister.insert id type)[other]? = some .none ∧ _
        rw [getElem?_insert, getElem?_insert]
        split
        · exact .inl rfl
        · exact (h.register other).imp_right fun ⟨hcut, hfull, hid⟩ => ⟨hcut, hfull, hid, nofun⟩
  | _ => exact hleaves trivial fun _ => nofun

theorem SameButPending.read (h : SameButPending pending full cut) {op : Section}
    (hop : Reads op full) (hpending : ∀ id ∈ full.mp, id ∈ full.typeRegister ∨ pending id)
    (env : Env) : SameButPending pending (bridge op env full).2 cut := by
  cases op with
  | storeFind id => exact h
  | storeKeys => exact h
  | typeFind id => exact h
  | storeIndex id =>
      change SameButPending pending { full with mp := (mapIndex full.mp id .zero).2 } cut
      rw [mapIndex_of_some (Std.ExtTreeMap.getElem?_eq_some_getElem hop)]
      exact h
  | typeIndex id =>
      change SameButPending pending
        { full with typeRegister := lookedUp full.typeRegister id } cut
      by_cases hmem : id ∈ full.typeRegister
      · rw [lookedUp_eq_self hmem]
        exact h
      refine ⟨?_, fun other => ?_⟩
      · change { full with typeRegister := lookedUp full.typeRegister id } =
          { cut with typeRegister := lookedUp full.typeRegister id }
        rw [h.rest]
      · change (lookedUp full.typeRegister id)[other]? = _ ∨
          _ ∧ (lookedUp full.typeRegister id)[other]? = _ ∧ _
        by_cases hother : id = other
        · subst hother
          have hnone := Std.ExtTreeMap.getElem?_eq_none hmem
          right
          rw [getElem?_lookedUp, if_pos rfl, CanFrameToJson.registeredType,
            hnone]
          refine ⟨?_, rfl, (hpending id hop).resolve_left hmem⟩
          rcases h.register id with hsame | ⟨hcut, -, -⟩
          · rw [← hsame, hnone]
          · exact hcut
        · rw [getElem?_lookedUp_of_ne _ hother]
          exact h.register other
  | _ => exact hop.elim

end Sections

variable {deleted : Nat → Request → Bool} {program : Program} {full cut : Serving}

theorem reads_of_not_kept {thread : Thread} (h : kept deleted thread = false) :
    thread ≠ .main ∧ allowed thread = Reads := by
  cases thread with
  | main => cases h
  | handler number request =>
      cases request with
      | send body => cases h
      | receive digits => exact ⟨nofun, rfl⟩
      | list => exact ⟨nofun, rfl⟩
  | worker | server => cases h

theorem sameWithout_deleted (hinv : Consistent full) (h : SameWithout deleted full cut)
    {event : Thread × Env} (hevent : kept deleted event.1 = false) :
    SameWithout deleted (Serving.step program full event) cut := by
  obtain ⟨hmain, hreads⟩ := reads_of_not_kept hevent
  refine ⟨fun thread hthread => ?_, ?_⟩
  · have hne : event.1 ≠ thread := by
      rintro rfl
      rw [hthread] at hevent
      cases hevent
    rw [Pool.current_step_of_ne hne]
    exact h.threads thread hthread
  · rw [Pool.current_step_of_ne hmain]
    cases hcurrent : full.current event.1 with
    | ret value =>
        rw [Serving.step, Pool.shared_step_ret event hcurrent]
        exact h.shared
    | call op next =>
        have hop := hinv.allowed hcurrent
        rw [hreads] at hop
        rw [Serving.step, Pool.shared_step_call event hcurrent]
        exact h.shared.read hop hinv.typed event.2

theorem next_typeFind (hinv : Consistent full) {thread : Thread} {id : UInt16}
    {next : Bool → Code (Serving.Local thread)}
    (hcurrent : full.current thread = .call (.typeFind id) next)
    (hpending : Awaits id (full.current .main)) (found found' : Bool) :
    next found = next found' := by
  by_cases hthread : thread = .main
  · subst hthread
    rw [hcurrent] at hpending
    cases hpending
    rfl
  · have hignores := hinv.ignoresFind thread hthread
    rw [hcurrent] at hignores
    exact hignores.1 id rfl found found'

theorem awaits_next {op : Section} {next : op.Res → Code MainLocals} {id : UInt16}
    (h : Awaits id (Prog.call (I := Sections) op next)) (hop : op ≠ .typeIndex id)
    (result : op.Res) : Awaits id (next result) := by
  cases h with
  | find rest => exact .index rest
  | index rest => exact absurd rfl hop

theorem SameWithout.others (h : SameWithout deleted full cut) (event : Thread × Env)
    {other : Thread} (hne : event.1 ≠ other) (hother : kept deleted other = true) :
    (Serving.step program full event).current other =
      (Serving.step program cut event).current other := by
  rw [Pool.current_step_of_ne hne, Pool.current_step_of_ne hne]
  exact h.threads other hother

theorem SameWithout.turn (h : SameWithout deleted full cut) {thread : Thread}
    {value : Serving.Local thread} (hfull : full.current thread = .ret value)
    (hcut : cut.current thread = .ret value) (env : Env) :
    SameWithout deleted (Serving.step program full (thread, env))
      (Serving.step program cut (thread, env)) := by
  refine ⟨fun other hother => ?_, ?_⟩
  · by_cases hne : thread = other
    · subst hne
      rw [Pool.current_step_ret (thread, env) hfull, Pool.current_step_ret (thread, env) hcut]
    · exact h.others (thread, env) hne hother
  · rw [Serving.step, Pool.shared_step_ret (thread, env) hfull,
      Pool.shared_step_ret (thread, env) hcut]
    refine h.shared.mono fun id hawaits => ?_
    by_cases hmain : thread = .main
    · subst hmain
      rw [hfull] at hawaits
      cases hawaits
    · rw [Pool.current_step_of_ne hmain]
      exact hawaits

theorem SameWithout.call (hinv : Consistent full) (h : SameWithout deleted full cut)
    {thread : Thread} {op : Section} {next : op.Res → Code (Serving.Local thread)}
    (hfull : full.current thread = .call op next) (hcut : cut.current thread = .call op next)
    (env : Env) :
    SameWithout deleted (Serving.step program full (thread, env))
      (Serving.step program cut (thread, env)) := by
  refine ⟨fun other hother => ?_, ?_⟩
  · by_cases hne : thread = other
    · subst hne
      rw [Pool.current_step_call (thread, env) hfull, Pool.current_step_call (thread, env) hcut]
      rcases h.shared.result op env with hresult | ⟨id, rfl, hpending⟩
      · exact congrArg next hresult
      · exact next_typeFind hinv hfull hpending _ _
    · exact h.others (thread, env) hne hother
  · rw [Serving.step, Pool.shared_step_call (thread, env) hfull,
      Pool.shared_step_call (thread, env) hcut]
    refine (h.shared.section op env).mono fun id hid => ?_
    by_cases hmain : thread = .main
    · subst hmain
      rw [Pool.current_step_call (Thread.main, env) hfull]
      rw [hfull] at hid
      exact awaits_next hid.1 hid.2 _
    · rw [Pool.current_step_of_ne hmain]
      exact hid.1

theorem sameWithout_kept (hinv : Consistent full) (h : SameWithout deleted full cut)
    {event : Thread × Env} (hevent : kept deleted event.1 = true) :
    SameWithout deleted (Serving.step program full event) (Serving.step program cut event) := by
  obtain ⟨thread, env⟩ := event
  have hsame := h.threads thread hevent
  cases hfull : full.current thread with
  | ret value => exact h.turn hfull (hsame.symm.trans hfull) env
  | call op next => exact .call hinv h hfull (hsame.symm.trans hfull) env

theorem sameWithout_start (deleted : Nat → Request → Bool) (start : Serving) :
    SameWithout deleted start start :=
  ⟨fun _ _ => rfl, rfl, fun _ => .inl rfl⟩

theorem SameWithout.shared_eq (h : SameWithout deleted full cut)
    (hmain : (full.current .main).head = none) : full.shared = cut.shared := by
  have hregister : full.shared.typeRegister = cut.shared.typeRegister := by
    refine Std.ExtTreeMap.ext_getElem? fun id => ?_
    rcases h.shared.register id with hsame | ⟨-, -, hawaits⟩
    · exact hsame
    · rcases hawaits.head with hhead | hhead <;> rw [hmain] at hhead <;> cases hhead
  rw [h.shared.rest, hregister]

/--
Requests that only read can be left out of every run: nothing changes but that a
`NONE` which the main loop is about to register may not be there yet.
-/
theorem queries_left_out (program : Program) (config : ConfigParser) (hash : StringMap)
    (fr : CanFrame) (deleted : Nat → Request → Bool) (schedule : List (Thread × Env)) :
    let start := Serving.start config hash fr
    let full := runFrom (Serving.step program) start schedule
    let cut := runFrom (Serving.step program) start
      (schedule.filter fun event => kept deleted event.1)
    SameWithout deleted full cut ∧
      (∀ number request, kept deleted (.handler number request) = true →
        full.answer number request = cut.answer number request) ∧
      ((full.current .main).head = none → full.shared = cut.shared) := by
  intro start full cut
  have hinv : ∀ pool event, Consistent pool → Consistent (Serving.step program pool event) :=
    fun _ event h => h.step event
  have hsame : SameWithout deleted full cut :=
    runFrom_filter (R := SameWithout deleted) hinv
      (fun _ _ event hevent hinv h => sameWithout_kept hinv h hevent)
      (fun _ _ event hevent hinv h => sameWithout_deleted hinv h hevent)
      schedule (consistent_start config hash fr) (sameWithout_start deleted start)
  refine ⟨hsame, fun number request hkept => ?_, hsame.shared_eq⟩
  rw [Serving.answer, Serving.answer, hsame.threads _ hkept]

/-- Frame 300 is received, and a request for it lands between `put` and `store_frame`. -/
def queriedInPass : List (Thread × Env) :=
  List.replicate 8 (.main, reading (emptyFrame 300)) ++
    List.replicate 5 (.handler 0 (.receive (ascii "300")), ({} : Env))

theorem queriedInPass_registers :
    (runFrom (Serving.step .acceptAll)
        (Serving.start (.loadConfigFile ∅) ∅ CanMessage.zero.frame)
        queriedInPass).shared.typeRegister ≠
      (runFrom (Serving.step .acceptAll)
        (Serving.start (.loadConfigFile ∅) ∅ CanMessage.zero.frame)
        (queriedInPass.filter fun event =>
          kept (fun _ _ => true) event.1)).shared.typeRegister := by
  intro h
  have hentry := congrArg (fun register : TypeRegister => register[(300 : UInt16)]?) h
  exact absurd hentry (by decide +kernel)

end Can2Rest.Properties
