import Can2Rest.Properties.ConfigKeys
import Can2Rest.Properties.SendReceive
import Can2Rest.Threads

/-!
# Types stay

The main loop tests the registry and assigns in two sections, and other threads
may enter `NONE` between them.  Nobody else assigns, so an assignment meets no
type other than `NONE`.
-/

namespace Can2Rest.Properties

open Foundation Shared Threads CanFrameToJson

/-- The ids with their types in the order in which the setup registers them. -/
def typeSettings (config : ConfigParser) : List (UInt16 × ConversationType) :=
  (200, .int) :: config.rawConfigMap.toList.filterMap Main.conversionSetting

/-- The last setting of an id counts. -/
def configuredType (config : ConfigParser) (id : UInt16) : Option ConversationType :=
  ((typeSettings config).reverse.find? fun setting => setting.1 = id).map Prod.snd

theorem getElem?_foldl_conversion (entries : List (Bytes × Bytes)) (register : TypeRegister)
    (id : UInt16) :
    (entries.foldl Main.applyConversionEntry register)[id]? =
      (((entries.filterMap Main.conversionSetting).reverse.find? fun setting =>
        setting.1 = id).map Prod.snd).or register[id]? := by
  induction entries generalizing register with
  | nil => rfl
  | cons entry entries ih =>
      rw [List.foldl_cons, ih, Main.applyConversionEntry, List.filterMap_cons]
      cases Main.conversionSetting entry with
      | none => rfl
      | some setting =>
          simp only [List.reverse_cons, List.find?_append, List.find?_singleton,
            getElem?_insert, Option.map_or, Option.or_assoc, decide_eq_true_eq]
          split <;> rfl

theorem getElem?_setupRegister (config : ConfigParser) (id : UInt16) :
    (Main.setupRegister config)[id]? = configuredType config id := by
  rw [Main.setupRegister, getElem?_foldl_conversion, configuredType, typeSettings,
    List.reverse_cons, List.find?_append, List.find?_singleton, Option.map_or, getElem?_insert]
  congr 1
  by_cases hid : (200 : UInt16) = id
  · simp [hid]
  · simp [hid]

/-- The entry is `CAN_CONVERSION_<id>`, and no key that is read for `id` has another type. -/
structure Configures (config : ConfigParser) (entry : Bytes × Bytes) (id : UInt16) : Prop where
  mem : entry ∈ config.rawConfigMap.toList
  numbered : Numbered (ascii "=can_conversion_") entry.1 id
  unopposed : ∀ other ∈ config.rawConfigMap.toList, ∀ type,
    Main.conversionSetting other = some (id, type) → type = Main.conversionType entry.2

theorem Configures.configuredType {config : ConfigParser} {entry : Bytes × Bytes}
    {id : UInt16} (h : Configures config entry id) :
    configuredType config id = some (Main.conversionType entry.2) := by
  obtain ⟨hselected, hid⟩ := @selected_of_numbered (ascii "=can_conversion") _ _ h.numbered
  have hsetting : Main.conversionSetting entry = some (id, Main.conversionType entry.2) := by
    rw [Main.conversionSetting, hid]
    exact if_pos hselected
  have hsome : (((config.rawConfigMap.toList.filterMap Main.conversionSetting).reverse.find?
      fun setting => setting.1 = id)).isSome = true := by
    refine List.find?_isSome.mpr ⟨(id, Main.conversionType entry.2), ?_, decide_eq_true rfl⟩
    exact List.mem_reverse.mpr (List.mem_filterMap.mpr ⟨entry, h.mem, hsetting⟩)
  obtain ⟨⟨other, type⟩, hfound⟩ := Option.isSome_iff_exists.mp hsome
  have hmatch := List.find?_some hfound
  obtain rfl : other = id := of_decide_eq_true hmatch
  obtain ⟨source, hsource, hread⟩ :=
    List.mem_filterMap.mp (List.mem_reverse.mp (List.mem_of_find?_eq_some hfound))
  have htype := h.unopposed source hsource type hread
  rw [Properties.configuredType, typeSettings, List.reverse_cons, List.find?_append, hfound,
    Option.some_or, Option.map_some, htype]

/-! ## The contract of the main loop -/

/-- Others change no type, and only an id without a type gets one. -/
def assigning : Contract Sections Bridge where
  rely _ before after := ∀ id,
    registeredType after.typeRegister id = registeredType before.typeRegister id
  may _ _ := True
  guarantee op state := ∀ id type, op = .typeAssign id type →
    registeredType state.typeRegister id = .none

theorem assigning_refl (op : Option Section) (state : Bridge) :
    assigning.rely op state state :=
  fun _ => rfl

theorem assigning_trans {op : Option Section} {a b c : Bridge}
    (hab : assigning.rely op a b) (hbc : assigning.rely op b c) : assigning.rely op a c :=
  fun id => (hbc id).trans (hab id)

def Unassigning : Section → Prop
  | .typeAssign _ _ => False
  | _ => True

theorem unassigning_of_record {fieldPrefix : Bytes} {op : Section}
    (h : RecordSection fieldPrefix op) : Unassigning op := by
  cases op <;> first | exact h.elim | trivial

theorem unassigning_of_footprint {program : Program} {thread : Thread} {op : Section}
    (hthread : thread ≠ .main) (h : Footprint program thread op) : Unassigning op := by
  cases thread with
  | main => exact absurd rfl hthread
  | handler number request => cases op <;> first | exact h.elim | trivial
  | worker => cases op <;> first | exact h.elim | trivial
  | server =>
      obtain rfl : op = .redisLate := h
      trivial

theorem registeredType_section {op : Section} (h : Unassigning op) (env : Env)
    (state : Bridge) (id : UInt16) :
    registeredType (bridge op env state).2.typeRegister id =
      registeredType state.typeRegister id := by
  cases op with
  | typeFind other => rfl
  | typeIndex other => exact registeredType_lookedUp state.typeRegister other id
  | typeAssign other type => exact h.elim
  | _ => exact congrArg (registeredType · id) (typeRegister_of_leaves (by trivial) env state)

theorem ensures_unassigning {α : Type} {program : Code α} (h : program.Uses Unassigning)
    (state : Bridge) :
    program.Ensures bridge assigning (fun _ _ => True) state := by
  refine h.ensures (fun _ _ _ => trivial) ?_ (fun _ _ _ _ _ _ => trivial) trivial
  rintro op state hop - id type rfl
  exact hop.elim

theorem ensures_unassigning_perform (op : Section) (h : Unassigning op) (state : Bridge) :
    (Prog.perform (I := Sections) op).Ensures bridge assigning (fun _ _ => True) state :=
  ensures_unassigning (Prog.uses_perform.mpr h) state

theorem ensures_assigning_autoRegister (msg : CanMessage) (state : Bridge) :
    (Main.autoRegister msg).Ensures bridge assigning (fun _ _ => True) state := by
  intro found _
  refine ⟨nofun, fun _ env => ?_⟩
  change Prog.Ensures _ _ _
    (ite (found.typeRegister.contains (key msg.frame.id) = true) _ _) found
  split
  next => exact fun _ _ => trivial
  next hfound =>
    rw [Std.ExtTreeMap.contains_iff_mem] at hfound
    intro later hlater
    refine ⟨?_, fun _ _ _ _ => trivial⟩
    rintro id type ⟨⟩
    rw [hlater, registeredType, Std.ExtTreeMap.getElem?_eq_none hfound]
    rfl

theorem ensures_assigning_mainPass (setup : Setup) (locals : MainLocals) (state : Bridge) :
    (Main.mainPass setup locals).Ensures bridge assigning (fun _ _ => True) state := by
  have hrecord : ∀ {α : Type} {program : Code α},
      program.Uses (RecordSection setup.redis.fieldPrefix) → ∀ state,
        program.Ensures bridge assigning (fun _ _ => True) state :=
    fun h state => ensures_unassigning (h.mono fun _ => unassigning_of_record) state
  refine Prog.Ensures.seq (assigning_refl none)
    (ensures_unassigning_perform .canRead trivial state) fun received state => ?_
  split
  · exact hrecord (uses_receiveFrame setup locals _) state
  refine Prog.Ensures.seq (assigning_refl none) ?_ fun _ _ _ _ => trivial
  refine Prog.Ensures.seq (assigning_refl none)
    (ensures_unassigning_perform .queueSize trivial state) fun queued state => ?_
  split
  · refine Prog.Ensures.seq (assigning_refl none)
      (ensures_unassigning (uses_dequeue trivial trivial) state) fun msg state => ?_
    split
    · refine Prog.Ensures.seq (assigning_refl none)
        (ensures_unassigning_perform (.canWrite _) trivial state) fun _ state => ?_
      refine Prog.Ensures.seq (assigning_refl none)
        (ensures_assigning_autoRegister msg state) fun _ state => ?_
      exact hrecord (uses_recordRest setup _ msg) state
    · exact fun _ _ => trivial
  · exact fun _ _ => trivial

/-! ## Runs -/

structure Assigning (program : Program) (threads : Threads) : Prop where
  respects : threads.Respects (Footprint program)
  main : (threads.current .main).Ensures bridge assigning (fun _ _ => True) threads.shared

section Steps

variable {program : Program} {threads : Threads}

theorem Assigning.step (h : Assigning program threads) (event : Thread × Env) :
    Assigning program (Threads.step program threads event) where
  respects := h.respects.step (uses_body program) event
  main := by
    refine Pool.ensures_step assigning_refl assigning_trans
      (fun locals state _ => ensures_assigning_mainPass program.setup locals state)
      (fun _ _ _ => trivial) (fun hthread id => ?_) h.main
    rcases h.respects.shared_step event with hsame | ⟨op, hop, -, hshared⟩
    · rw [hsame]
    · rw [hshared]
      exact registeredType_section (unassigning_of_footprint hthread hop) event.2 _ id

theorem Assigning.assigned (h : Assigning program threads) {thread : Thread} {id : UInt16}
    {type : ConversationType} {next : Unit → Code thread.Local}
    (hcall : threads.current thread = .call (.typeAssign id type) next) :
    registeredType threads.shared.typeRegister id = .none := by
  by_cases hthread : thread = .main
  · subst hthread
    have hensures := h.main
    rw [hcall] at hensures
    exact (hensures _ (assigning_refl _ _)).1 id type rfl
  · have huses := h.respects thread
    rw [hcall] at huses
    exact (unassigning_of_footprint hthread huses.1).elim

theorem Assigning.registeredType_step (h : Assigning program threads)
    (event : Thread × Env) {id : UInt16}
    (hid : registeredType threads.shared.typeRegister id ≠ .none) :
    registeredType (Threads.step program threads event).shared.typeRegister id =
      registeredType threads.shared.typeRegister id := by
  cases hcurrent : threads.current event.1 with
  | ret value => rw [Threads.step, Pool.shared_step_ret event hcurrent]
  | call op next =>
      rw [Threads.step, Pool.shared_step_call event hcurrent]
      cases op with
      | typeAssign other type =>
          have hne : other ≠ id := by
            rintro rfl
            exact hid (h.assigned hcurrent)
          change registeredType (threads.shared.typeRegister.insert other type) id = _
          rw [registeredType, registeredType, getElem?_insert, if_neg hne]
      | _ => exact registeredType_section (by trivial) event.2 threads.shared id

end Steps

theorem assigning_run {program : Program} {threads : Threads}
    (h : Assigning program threads) (schedule : List (Thread × Env)) :
    Assigning program (runFrom (step program) threads schedule) :=
  runFrom_invariant (Assigning program) (fun _ event h => h.step event) threads schedule h

theorem registeredType_run {program : Program} {threads : Threads}
    (h : Assigning program threads) (schedule : List (Thread × Env)) {id : UInt16}
    (hid : registeredType threads.shared.typeRegister id ≠ .none) :
    registeredType (runFrom (step program) threads schedule).shared.typeRegister id =
      registeredType threads.shared.typeRegister id := by
  induction schedule generalizing threads with
  | nil => rfl
  | cons event schedule ih =>
      have hstep := h.registeredType_step event hid
      rw [runFrom_cons, ih (h.step event) (hstep ▸ hid), hstep]

theorem entry_run {program : Program} {threads : Threads} (h : Assigning program threads)
    (schedule : List (Thread × Env)) {id : UInt16} {type : ConversationType}
    (hne : type ≠ .none) (hentry : threads.shared.typeRegister[id]? = some type) :
    (runFrom (step program) threads schedule).shared.typeRegister[id]? = some type := by
  have hbefore : registeredType threads.shared.typeRegister id = type := by
    rw [registeredType, hentry, Option.getD_some]
  have hafter := registeredType_run h schedule (hbefore ▸ hne)
  rw [hbefore, registeredType] at hafter
  cases hentry' : (runFrom (step program) threads schedule).shared.typeRegister[id]? with
  | none =>
      rw [hentry'] at hafter
      exact absurd hafter.symm hne
  | some other =>
      rw [hentry', Option.getD_some] at hafter
      rw [hafter]

/-- The start, with messages of any type in the send queue. -/
def startWith (config : ConfigParser) (hash : StringMap) (fr : CanFrame)
    (queue : List CanMessage) : Threads :=
  let start := start config hash fr
  { start with shared := { start.shared with messageQueue := queue } }

theorem assigning_startWith (program : Program) (config : ConfigParser) (hash : StringMap)
    (fr : CanFrame) (queue : List CanMessage) :
    Assigning program (startWith config hash fr queue) where
  respects := respects_between program _ false
  main := fun _ _ => trivial

/--
A type other than `NONE` stays for ever, and what the configuration sets governs
every conversion: the last setting of an id, and so every `CAN_CONVERSION_<id>`
that no other key opposes.
-/
theorem types_stable (program : Program) (config : ConfigParser) (hash : StringMap)
    (fr : CanFrame) (queue : List CanMessage) (first second : List (Thread × Env)) :
    let before := runFrom (step program) (startWith config hash fr queue) first
    let after := runFrom (step program) (startWith config hash fr queue) (first ++ second)
    (∀ (id : UInt16), ∀ type ≠ ConversationType.none,
      before.shared.typeRegister[id]? = some type →
        after.shared.typeRegister[id]? = some type) ∧
    (∀ (id : UInt16) (type : ConversationType), configuredType config id = some type →
      type ≠ .none ∧ after.shared.typeRegister[id]? = some type ∧
        ∀ msg env, key msg.frame.id = id →
          ((convertFrame msg).run bridge env after.shared).1 = messageText type msg) ∧
    ∀ entry id, Configures config entry id → ∀ msg env, key msg.frame.id = id →
      ((convertFrame msg).run bridge env after.shared).1 =
        messageText (Main.conversionType entry.2) msg := by
  intro before after
  have hstart := assigning_startWith program config hash fr queue
  have hgoverns : ∀ (id : UInt16) (type : ConversationType),
      configuredType config id = some type →
        type ≠ .none ∧ after.shared.typeRegister[id]? = some type ∧
          ∀ msg env, key msg.frame.id = id →
            ((convertFrame msg).run bridge env after.shared).1 = messageText type msg := by
    intro id type hconfigured
    have hsetup : (Main.setupRegister config)[id]? = some type :=
      (getElem?_setupRegister config id).trans hconfigured
    have hne : type ≠ .none := typed_setupRegister config id type hsetup
    have hentry : after.shared.typeRegister[id]? = some type :=
      entry_run hstart (first ++ second) hne hsetup
    refine ⟨hne, hentry, fun msg env hkey => ?_⟩
    rw [run_convertFrame, hkey, registeredType, hentry, Option.getD_some]
  refine ⟨fun id type hne hentry => ?_, hgoverns,
    fun entry id hentry => (hgoverns id _ hentry.configuredType).2.2⟩
  have hafter : after = runFrom (step program) before second := runFrom_append _ _ first second
  rw [hafter]
  exact entry_run (assigning_run hstart first) second hne hentry

end Can2Rest.Properties
