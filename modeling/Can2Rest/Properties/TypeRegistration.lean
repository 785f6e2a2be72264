import Can2Rest.Properties.FailedSends
import Can2Rest.Properties.RedisUpdates

/-!
# Automatic registration of types

The send path registers the type of a message whose identifier has no entry.
`convert_frame` reads the registry through `operator[]`, so a lookup that comes
first leaves an entry `NONE`, which the send path does not replace.
-/

namespace Can2Rest.Properties

open Foundation Shared Threads

/-- The first message of an identifier that was taken from the queue. -/
def firstSent (dequeued : List CanMessage) (id : UInt16) : Option CanMessage :=
  dequeued.find? fun msg => key msg.frame.id = id

theorem firstSent_append (dequeued : List CanMessage) (msg : CanMessage) (id : UInt16) :
    firstSent (dequeued ++ [msg]) id =
      (firstSent dequeued id).or (if key msg.frame.id = id then some msg else none) := by
  rw [firstSent, List.find?_append, List.find?_singleton]
  simp [firstSent]

def looksUp (id : UInt16) : Section → Bool
  | .typeIndex other => other = id
  | _ => false

def assigns (id : UInt16) : Section → Bool
  | .typeAssign other _ => other = id
  | _ => false

/-! ## The contract of the main loop -/

/-- Nothing that concerns the type of `id` happened. -/
structure SameEntry (id : UInt16) (before after : Bridge) : Prop where
  dequeued : after.history.dequeued = before.history.dequeued
  entry : after.typeRegister[id]? = before.typeRegister[id]?

/-- The sections other than those that take a message or assign the type of `id`. -/
def Keeps (id : UInt16) : Section → Prop
  | .queuePop => False
  | .typeAssign other _ => other ≠ id
  | _ => True

theorem dequeued_of_keeps {id : UInt16} {op : Section} (h : Keeps id op) (env : Env)
    (state : Bridge) :
    (bridge op env state).2.history.dequeued = state.history.dequeued := by
  cases op <;> first | exact h.elim | rfl

theorem sameEntry_of_keeps {id : UInt16} {op : Section} {state : Bridge}
    (h : Keeps id op) (hlookup : looksUp id op = true → id ∈ state.typeRegister) (env : Env) :
    SameEntry id state (bridge op env state).2 := by
  refine ⟨dequeued_of_keeps h env state, ?_⟩
  cases op with
  | queuePop => exact h.elim
  | typeIndex other =>
      change (CanFrameToJson.lookedUp state.typeRegister other)[id]? = _
      by_cases hother : other = id
      · have hmem := hlookup (by simp [looksUp, hother])
        rw [hother, CanFrameToJson.lookedUp_eq_self hmem]
      · exact CanFrameToJson.getElem?_lookedUp_of_ne _ hother
  | typeAssign other type =>
      change (state.typeRegister.insert other type)[id]? = _
      rw [getElem?_insert, if_neg h]
  | _ => rfl

/--
Others never take a message, and they touch the entry of `id` only when it is
about to be assigned; an assignment gives it the type of the first message.
-/
def registration (id : UInt16) : Contract Sections Bridge where
  rely op before after :=
    after.history.dequeued = before.history.dequeued ∧
      (op.any (assigns id) = false → after.typeRegister[id]? = before.typeRegister[id]?)
  may op state := looksUp id op = true → id ∈ state.typeRegister
  guarantee op state := ∀ type, op = .typeAssign id type →
    (firstSent state.history.dequeued id).map CanMessage.type = some type

theorem registration_refl (id : UInt16) (op : Option Section) (state : Bridge) :
    (registration id).rely op state state :=
  ⟨rfl, fun _ => rfl⟩

theorem registration_trans {id : UInt16} {op : Option Section} {a b c : Bridge}
    (hab : (registration id).rely op a b) (hbc : (registration id).rely op b c) :
    (registration id).rely op a c :=
  ⟨hbc.1.trans hab.1, fun h => (hbc.2 h).trans (hab.2 h)⟩

theorem SameEntry.of_rely {id : UInt16} {op : Option Section} {before after : Bridge}
    (h : (registration id).rely op before after) (hop : op.any (assigns id) = false) :
    SameEntry id before after :=
  ⟨h.1, h.2 hop⟩

theorem assigns_of_keeps {id : UInt16} {op : Section} (h : Keeps id op) :
    assigns id op = false := by
  cases op with
  | typeAssign other type => exact decide_eq_false h
  | _ => rfl

theorem ensures_of_keeps {id : UInt16} {Inv : Bridge → Prop}
    (hsame : ∀ before after, SameEntry id before after → Inv before → Inv after)
    {α : Type} {program : Code α} (h : program.Uses (Keeps id)) {state : Bridge}
    (hinv : Inv state) :
    program.Ensures bridge (registration id) (fun _ => Inv) state := by
  refine Prog.Uses.ensures ?_ ?_ ?_ h hinv
  · intro op before after hop hrely
    refine hsame before after (.of_rely hrely ?_)
    cases op with
    | none => rfl
    | some op => exact assigns_of_keeps (hop op rfl)
  · rintro op state hop - type rfl
    exact absurd rfl hop
  · intro op state env hop hmay
    exact hsame _ _ (sameEntry_of_keeps hop hmay env)

theorem ensures_perform_of_keeps {id : UInt16} {Inv : Bridge → Prop} (op : Section)
    (hop : Keeps id op)
    (hsame : ∀ before after, SameEntry id before after → Inv before → Inv after)
    {state : Bridge} (hinv : Inv state) :
    (Prog.perform (I := Sections) op).Ensures bridge (registration id) (fun _ => Inv)
      state :=
  ensures_of_keeps hsame (Prog.uses_perform.mpr hop) hinv

/-! ## The send path -/

/-- The entry of `id` is the type of its first message. -/
def TypedByFirst (id : UInt16) (state : Bridge) : Prop :=
  state.typeRegister[id]? = (firstSent state.history.dequeued id).map CanMessage.type

/-- `msg` was taken from the queue, and its type is not looked at yet. -/
def Taken (id : UInt16) (msg : CanMessage) (state : Bridge) : Prop :=
  ∃ before front, state.history.dequeued = before ++ [front] ∧
    msg = { front with valid := true } ∧
    state.typeRegister[id]? = (firstSent before id).map CanMessage.type

variable {id : UInt16}

theorem TypedByFirst.same {before after : Bridge} (hsame : SameEntry id before after)
    (h : TypedByFirst id before) : TypedByFirst id after := by
  rw [TypedByFirst, hsame.entry, hsame.dequeued]
  exact h

theorem Taken.same {msg : CanMessage} {before after : Bridge}
    (hsame : SameEntry id before after) (h : Taken id msg before) : Taken id msg after := by
  obtain ⟨earlier, front, hdequeued, hmsg, hentry⟩ := h
  exact ⟨earlier, front, hsame.dequeued.trans hdequeued, hmsg, hsame.entry.trans hentry⟩

theorem Taken.typedByFirst_of_ne {msg : CanMessage} {state : Bridge}
    (h : Taken id msg state) (hid : key msg.frame.id ≠ id) : TypedByFirst id state := by
  obtain ⟨earlier, front, hdequeued, rfl, hentry⟩ := h
  have hfront : ¬ key front.frame.id = id := hid
  rw [TypedByFirst, hdequeued, firstSent_append, if_neg hfront, Option.or_none, hentry]

theorem Taken.typedByFirst_of_mem {msg : CanMessage} {state : Bridge}
    (h : Taken id msg state) (hmem : id ∈ state.typeRegister) : TypedByFirst id state := by
  obtain ⟨earlier, front, hdequeued, rfl, hentry⟩ := h
  rw [Std.ExtTreeMap.mem_iff_isSome_getElem?, hentry, Option.isSome_map] at hmem
  obtain ⟨first, hfirst⟩ := Option.isSome_iff_exists.mp hmem
  rw [TypedByFirst, hdequeued, firstSent_append, hentry, hfirst, Option.some_or]

theorem Taken.firstSent_of_not_mem {msg : CanMessage} {state : Bridge}
    (h : Taken id msg state) (hid : key msg.frame.id = id)
    (hmem : id ∉ state.typeRegister) :
    (firstSent state.history.dequeued id).map CanMessage.type = some msg.type := by
  obtain ⟨earlier, front, hdequeued, rfl, hentry⟩ := h
  have hfront : key front.frame.id = id := hid
  rw [Std.ExtTreeMap.getElem?_eq_none hmem] at hentry
  rw [hdequeued, firstSent_append, Option.map_eq_none_iff.mp hentry.symm, Option.none_or,
    if_pos hfront, Option.map_some]

def Popped (id : UInt16) : Option CanMessage → Bridge → Prop
  | some msg, state => Taken id { msg with valid := true } state
  | none, state => TypedByFirst id state

theorem ensures_pop {state : Bridge} (h : TypedByFirst id state) :
    FrameSendQueue.pop.Ensures bridge (registration id) (Popped id) state := by
  refine Prog.ensures_perform.mpr fun later hlater => ⟨fun type hop => ?_, ?_⟩
  · cases hop
  intro _ env last hlast
  have hlaterTyped := h.same (.of_rely hlater rfl)
  change (registration id).rely none later.queuePop.2 last at hlast
  change Popped id later.queuePop.1 last
  cases hqueue : later.messageQueue with
  | nil =>
      simp only [Bridge.queuePop, hqueue] at hlast ⊢
      exact hlaterTyped.same (.of_rely hlast rfl)
  | cons front rest =>
      simp only [Bridge.queuePop, hqueue] at hlast ⊢
      have htaken : Taken id { front with valid := true } (later.popped front rest) :=
        ⟨later.history.dequeued, front, rfl, rfl, hlaterTyped⟩
      exact htaken.same (.of_rely hlast rfl)

theorem ensures_dequeue {state : Bridge} (h : TypedByFirst id state) :
    FrameSendQueue.dequeue.Ensures bridge (registration id)
      (fun msg state =>
        if msg.valid = true then Taken id msg state else TypedByFirst id state) state := by
  have hsize := ensures_perform_of_keeps .queueSize trivial (fun _ _ => TypedByFirst.same) h
  refine hsize.bind (registration_refl id none) fun sz state h => ?_
  split
  · refine (ensures_pop h).bind (registration_refl id none) fun front state hfront => ?_
    cases front with
    | some msg => exact fun later hlater => Taken.same (.of_rely hlater rfl) hfront
    | none => exact fun later hlater => TypedByFirst.same (.of_rely hlater rfl) hfront
  · exact fun later hlater => h.same (.of_rely hlater rfl)

theorem ensures_autoRegister {msg : CanMessage} {state : Bridge} (h : Taken id msg state) :
    (Main.autoRegister msg).Ensures bridge (registration id) (fun _ => TypedByFirst id)
      state := by
  by_cases hid : key msg.frame.id = id
  · have hcheck : (CanFrameToJson.checkKeyExists (key msg.frame.id)).Ensures bridge
        (registration id)
        (fun found state => Taken id msg state ∧ found = state.typeRegister.contains id)
        state := by
      refine Prog.ensures_perform.mpr fun later hlater => ⟨fun type hop => ?_, ?_⟩
      · cases hop
      intro _ env last hlast
      have hentry := (SameEntry.of_rely hlast rfl).entry
      refine ⟨(h.same (.of_rely hlater rfl)).same (.of_rely hlast rfl), ?_⟩
      change later.typeRegister.contains (key msg.frame.id) = _
      rw [hid, Std.ExtTreeMap.contains_eq_isSome_getElem?,
        Std.ExtTreeMap.contains_eq_isSome_getElem?, hentry]
      rfl
    refine hcheck.bind (registration_refl id none) fun found state hfound => ?_
    obtain ⟨htaken, hfound⟩ := hfound
    split
    next hexists =>
      rw [hfound, Std.ExtTreeMap.contains_iff_mem] at hexists
      exact fun later hlater =>
        (htaken.typedByFirst_of_mem hexists).same (.of_rely hlater rfl)
    next hexists =>
      rw [hfound, Std.ExtTreeMap.contains_iff_mem] at hexists
      have hfirst := htaken.firstSent_of_not_mem hid hexists
      refine Prog.ensures_perform.mpr fun later hlater => ⟨fun type hop => ?_, ?_⟩
      · -- others may have entered something by now, but they took no message
        obtain rfl : msg.type = type := by
          injection hop
        rw [hlater.1, hfirst]
      intro _ env last hlast
      have hassigned : TypedByFirst id
          { later with
            typeRegister := later.typeRegister.insert (key msg.frame.id) msg.type } := by
        rw [TypedByFirst, getElem?_insert, if_pos hid, hlater.1, hfirst]
      exact hassigned.same (.of_rely hlast rfl)
  · refine ensures_of_keeps (fun _ _ => TypedByFirst.same) ?_ (h.typedByFirst_of_ne hid)
    refine Prog.Uses.bind (Prog.uses_perform.mpr trivial) fun found => ?_
    split
    · trivial
    · exact Prog.uses_perform.mpr hid

theorem keeps_of_record {fieldPrefix : Bytes} {op : Section}
    (h : RecordSection fieldPrefix op) : Keeps id op := by
  cases op <;> first | exact h.elim | trivial

theorem keeps_of_handler {op : Section} (h : HandlerSection op) : Keeps id op := by
  cases op <;> first | exact h.elim | trivial

theorem keeps_of_worker {op : Section} (h : WorkerSection op) : Keeps id op := by
  cases op <;> first | exact h.elim | trivial

theorem ensures_sendMessage (setup : Setup) (counter : UInt32) {state : Bridge}
    (h : TypedByFirst id state) :
    (Main.sendMessage setup counter).Ensures bridge (registration id)
      (fun _ => TypedByFirst id) state := by
  have hstop : ∀ state, TypedByFirst id state → (Prog.ret () : Code Unit).Ensures bridge
      (registration id) (fun _ => TypedByFirst id) state :=
    fun state h later hlater => h.same (.of_rely hlater rfl)
  have hqueued := ensures_perform_of_keeps .queueSize trivial (fun _ _ => TypedByFirst.same) h
  refine hqueued.bind (registration_refl id none) fun queued state h => ?_
  split
  · refine (ensures_dequeue h).bind (registration_refl id none) fun msg state hmsg => ?_
    split
    next hvalid =>
      rw [if_pos hvalid] at hmsg
      have hwrite := ensures_perform_of_keeps (.canWrite msg.frame.transmit) trivial
        (fun _ _ => Taken.same) hmsg
      refine hwrite.bind (registration_refl id none) fun _ state htaken => ?_
      refine (ensures_autoRegister htaken).bind (registration_refl id none)
        fun _ state h => ?_
      exact ensures_of_keeps (fun _ _ => TypedByFirst.same)
        ((uses_recordRest setup counter msg).mono fun _ => keeps_of_record) h
    next hvalid =>
      rw [if_neg hvalid] at hmsg
      exact hstop state hmsg
  · exact hstop state h

theorem ensures_mainPass (setup : Setup) (locals : MainLocals) {state : Bridge}
    (h : TypedByFirst id state) :
    (Main.mainPass setup locals).Ensures bridge (registration id)
      (fun _ => TypedByFirst id) state := by
  have hread := ensures_perform_of_keeps .canRead trivial (fun _ _ => TypedByFirst.same) h
  refine hread.bind (registration_refl id none) fun received state h => ?_
  split
  · exact ensures_of_keeps (fun _ _ => TypedByFirst.same)
      ((uses_receiveFrame setup locals _).mono fun _ => keeps_of_record) h
  · refine (ensures_sendMessage setup _ h).bind (registration_refl id none)
      fun _ state h => ?_
    exact fun later hlater => h.same (.of_rely hlater rfl)

/-! ## Runs -/

/-- A lookup of `id` finds an entry, or comes right before the main loop assigns it. -/
def LookupsRegistered (id : UInt16) (threads : Threads) (event : Thread × Env) : Prop :=
  (threads.current event.1).head.any (looksUp id) = true →
    id ∈ threads.shared.typeRegister ∨
      (threads.current .main).head.any (assigns id) = true

/-- The main loop is in a turn that will leave the entry of `id` to its first message. -/
structure Registering (program : Program) (id : UInt16) (threads : Threads) : Prop where
  respects : threads.Respects (Footprint program)
  main : (threads.current .main).Ensures bridge (registration id)
    (fun _ => TypedByFirst id) threads.shared

section Steps

variable {program : Program} {threads : Threads} {event : Thread × Env}

theorem keeps_of_footprint {thread : Thread} {op : Section} (hthread : thread ≠ .main)
    (h : Footprint program thread op) : Keeps id op := by
  cases thread with
  | main => exact absurd rfl hthread
  | handler number request => exact keeps_of_handler h
  | worker => exact keeps_of_worker h
  | server =>
      obtain rfl : op = .redisLate := h
      trivial

theorem rely_step (hrespects : threads.Respects (Footprint program))
    (hlookup : LookupsRegistered id threads event) (hthread : event.1 ≠ .main) :
    (registration id).rely (threads.current .main).head threads.shared
      (step program threads event).shared := by
  rcases hrespects.shared_step event with hsame | ⟨op, hop, ⟨next, hcall⟩, hshared⟩
  · rw [step, hsame]
    exact registration_refl id _ _
  rw [step, hshared]
  have hkeeps : Keeps id op := keeps_of_footprint hthread hop
  refine ⟨dequeued_of_keeps hkeeps event.2 _, fun hassigns => ?_⟩
  refine (sameEntry_of_keeps hkeeps (fun hlooks => ?_) event.2).entry
  have hhead : (threads.current event.1).head.any (looksUp id) = true := by
    rw [hcall]
    exact hlooks
  rcases hlookup hhead with hmem | habout
  · exact hmem
  · rw [hassigns] at habout
    cases habout

theorem Registering.step (hlookup : LookupsRegistered id threads event)
    (h : Registering program id threads) :
    Registering program id (Threads.step program threads event) := by
  refine ⟨h.respects.step (uses_body program) event, ?_⟩
  refine Pool.ensures_step (registration_refl id) registration_trans
    (fun locals _ htyped => ensures_mainPass program.setup locals htyped) ?_
    (rely_step h.respects hlookup) h.main
  intro hthread op hhead hlooks
  rw [← hthread] at hhead
  have hlookup := hlookup (by rw [hhead]; exact hlooks)
  refine hlookup.resolve_right fun habout => ?_
  -- a call that looks the type up assigns nothing
  rw [hthread] at hhead
  rw [hhead] at habout
  cases op with
  | typeIndex other => cases habout
  | _ => cases hlooks

theorem Registering.typedByFirst (h : Registering program id threads)
    (hmain : (threads.current .main).head = none) : TypedByFirst id threads.shared := by
  obtain ⟨locals, hlocals⟩ := Prog.eq_ret_of_head hmain
  have hensures := h.main
  rw [hlocals] at hensures
  exact hensures _ (registration_refl id _ _)

theorem Registering.assigned (h : Registering program id threads)
    {type : ConversationType} {next : Unit → Code event.1.Local}
    (hop : Footprint program event.1 (.typeAssign id type))
    (hcall : threads.current event.1 = .call (.typeAssign id type) next) :
    (firstSent threads.shared.history.dequeued id).map CanMessage.type = some type := by
  obtain ⟨thread, env⟩ := event
  cases thread with
  | main =>
      have hensures := h.main
      rw [hcall] at hensures
      exact (hensures _ (registration_refl id _ _)).1 type rfl
  | handler number request => exact hop.elim
  | worker => exact hop.elim
  | server => cases hop

theorem firstSent_step {state : Bridge} {msg : CanMessage}
    (h : firstSent state.history.dequeued id = some msg) (op : Section) (env : Env) :
    firstSent (bridge op env state).2.history.dequeued id = some msg := by
  cases op with
  | queuePop =>
      change firstSent state.queuePop.2.history.dequeued id = some msg
      unfold Bridge.queuePop
      split
      · exact h
      · rw [Bridge.popped_history_dequeued, firstSent_append, h, Option.some_or]
  | _ => exact h

theorem entry_step {state : Bridge} {type : ConversationType} {op : Section}
    (hassigned : ∀ type', op = .typeAssign id type' → type' = type)
    (h : state.typeRegister[id]? = some type) (env : Env) :
    (bridge op env state).2.typeRegister[id]? = some type := by
  cases op with
  | typeIndex other => exact CanFrameToJson.getElem?_lookedUp_of_some h other
  | typeAssign other type' =>
      change (state.typeRegister.insert other type')[id]? = some type
      rw [getElem?_insert]
      split
      next hother =>
        subst hother
        rw [hassigned type' rfl]
      next => exact h
  | queuePop =>
      change state.queuePop.2.typeRegister[id]? = some type
      rw [Bridge.typeRegister_queuePop]
      exact h
  | _ => exact h

/-- The first message of `id` was taken, and its type is registered. -/
structure Settled (program : Program) (id : UInt16) (msg : CanMessage) (threads : Threads) :
    Prop where
  registering : Registering program id threads
  first : firstSent threads.shared.history.dequeued id = some msg
  entry : threads.shared.typeRegister[id]? = some msg.type

theorem Settled.step {msg : CanMessage} (hlookup : LookupsRegistered id threads event)
    (h : Settled program id msg threads) :
    Settled program id msg (Threads.step program threads event) := by
  have hregistering := h.registering.step hlookup
  rcases h.registering.respects.shared_step event with
    hsame | ⟨op, hop, ⟨next, hcall⟩, hshared⟩
  · have hshared : (Threads.step program threads event).shared = threads.shared := hsame
    exact ⟨hregistering, hshared ▸ h.first, hshared ▸ h.entry⟩
  · have hassigned : ∀ type, op = .typeAssign id type → type = msg.type := by
      rintro type rfl
      have hfirst := h.registering.assigned hop hcall
      rw [h.first] at hfirst
      exact (Option.some.inj hfirst).symm
    refine ⟨hregistering, ?_, ?_⟩
    · rw [Threads.step, hshared]
      exact firstSent_step h.first op event.2
    · rw [Threads.step, hshared]
      exact entry_step hassigned h.entry event.2

/-! ## The types of messages -/

structure SentTyped (state : Bridge) : Prop where
  queued : ∀ msg ∈ state.messageQueue, msg.type ∈ sentTypes
  dequeued : ∀ msg ∈ state.history.dequeued, msg.type ∈ sentTypes

theorem SentTyped.section {state : Bridge} {op : Section}
    (hpush : ∀ msg, op = .queuePush msg → msg.type ∈ sentTypes) (h : SentTyped state)
    (env : Env) : SentTyped (bridge op env state).2 := by
  cases op with
  | queuePush msg =>
      refine ⟨fun other hother => ?_, h.dequeued⟩
      rcases List.mem_append.mp hother with hold | hnew
      · exact h.queued other hold
      · rw [List.mem_singleton.mp hnew]
        exact hpush msg rfl
  | queuePop =>
      change SentTyped state.queuePop.2
      unfold Bridge.queuePop
      split
      · exact h
      next msg rest hqueue =>
        have hqueued := h.queued
        rw [hqueue] at hqueued
        refine ⟨fun other hother => hqueued other (List.mem_cons_of_mem _ hother),
          fun other hother => ?_⟩
        rcases List.mem_append.mp hother with hold | hnew
        · exact h.dequeued other hold
        · rw [List.mem_singleton.mp hnew]
          exact hqueued msg List.mem_cons_self
  | _ => exact ⟨h.queued, h.dequeued⟩

theorem sentTypes_of_footprint {thread : Thread} {msg : CanMessage}
    (h : Footprint program thread (.queuePush msg)) : msg.type ∈ sentTypes := by
  cases thread with
  | main => exact h.elim
  | handler number request => exact h
  | worker => exact h.elim
  | server => cases h

theorem SentTyped.step (hrespects : threads.Respects (Footprint program))
    (h : SentTyped threads.shared) :
    SentTyped (Threads.step program threads event).shared := by
  rcases hrespects.shared_step event with hsame | ⟨op, hop, -, hshared⟩
  · rw [Threads.step, hsame]
    exact h
  · rw [Threads.step, hshared]
    exact h.section (fun msg hmsg => sentTypes_of_footprint (hmsg ▸ hop)) event.2

end Steps

theorem sentTyped_run (program : Program) (config : ConfigParser) (hash : StringMap)
    (fr : CanFrame) (schedule : List (Thread × Env)) :
    SentTyped (runFrom (step program) (start config hash fr) schedule).shared := by
  have hstart : SentTyped (start config hash fr).shared := by
    constructor
    · intro msg hmsg
      cases hmsg
    · intro msg hmsg
      cases hmsg
  exact (runFrom_invariant
    (fun threads : Threads => threads.Respects (Footprint program) ∧ SentTyped threads.shared)
    (fun _ event h => ⟨h.1.step (uses_body program) event, h.2.step h.1⟩)
    _ schedule ⟨respects_between program _ false, hstart⟩).2

theorem interpretNone_sent {type : ConversationType} (h : type ∈ sentTypes) :
    CanFrameToJson.interpretNone type = type := by
  rw [CanFrameToJson.interpretNone, if_neg]
  rintro rfl
  exact absurd h (by decide)

theorem registering_start (program : Program) {config : ConfigParser} {id : UInt16}
    (hid : (Main.setupRegister config)[id]? = none) (hash : StringMap) (fr : CanFrame) :
    Registering program id (start config hash fr) where
  respects := respects_between program _ false
  main := by
    have hstart : TypedByFirst id (start config hash fr).shared := hid
    exact fun later hlater => hstart.same (.of_rely hlater rfl)

/--
When the send path is through with the first message of `id`, `convert_frame`
uses the type of this message from then on.
-/
def TypedFrom (id : UInt16) (processed current : Threads) : Prop :=
  (processed.current .main).head = none →
    ∀ msg, firstSent processed.shared.history.dequeued id = some msg →
      msg.type ∈ sentTypes ∧
        CanFrameToJson.interpretNone
          (CanFrameToJson.registeredType current.shared.typeRegister id) = msg.type

/--
In every interleaving whose lookups of an identifier find an entry, the type of
the identifier is the one of the first message sent with it.
-/
theorem first_sent_type_run (program : Program) (config : ConfigParser) (hash : StringMap)
    (fr : CanFrame) (id : UInt16) (hid : (Main.setupRegister config)[id]? = none)
    (first second : List (Thread × Env))
    (hschedule : Along (step program) (LookupsRegistered id) (start config hash fr)
      (first ++ second)) :
    TypedFrom id (runFrom (step program) (start config hash fr) first)
      (runFrom (step program) (start config hash fr) (first ++ second)) := by
  intro hmain msg hfirst
  obtain ⟨hbefore, hafter⟩ := along_append.mp hschedule
  have hregistering := hbefore.invariant (Registering program id)
    (fun _ _ hlookup h => h.step hlookup) (registering_start program hid hash fr)
  have hentry := hregistering.typedByFirst hmain
  rw [TypedByFirst, hfirst, Option.map_some] at hentry
  have hsettled := hafter.invariant (Settled program id msg)
    (fun _ _ hlookup h => h.step hlookup) ⟨hregistering, hfirst, hentry⟩
  have htype : msg.type ∈ sentTypes :=
    (sentTyped_run program config hash fr first).dequeued msg (List.mem_of_find?_eq_some hfirst)
  refine ⟨htype, ?_⟩
  rw [runFrom_append, CanFrameToJson.registeredType, hsettled.entry, Option.getD_some,
    interpretNone_sent htype]

instance (id : UInt16) (threads : Threads) (event : Thread × Env) :
    Decidable (LookupsRegistered id threads event) :=
  inferInstanceAs (Decidable (_ → _))

def sendTrue : List (Thread × Env) :=
  List.replicate 3 (.handler 0 (.send boolRequest), ({} : Env)) ++
    List.replicate 20 (.main, ({} : Env))

def receiveOne : List (Thread × Env) :=
  List.replicate 5 (.handler 1 (.receive (ascii "1")), ({} : Env))

theorem first_sent_type_true :
    CanFrameToJson.interpretNone (CanFrameToJson.registeredType
      (runFrom (step .acceptAll) (start (.loadConfigFile ∅) ∅ CanMessage.zero.frame)
        (sendTrue ++ receiveOne)).shared.typeRegister 1) = .bool := by
  have htyped := first_sent_type_run .acceptAll (.loadConfigFile ∅) ∅
    CanMessage.zero.frame 1 (by decide +kernel) sendTrue receiveOne (by decide +kernel)
  exact (htyped (by decide +kernel) requestedMessage (by decide +kernel)).2

/-- A frame 1 is received before `true` is sent as frame 1. -/
def receivedFirst : List (Thread × Env) :=
  List.replicate 11 (.main, reading (emptyFrame 1)) ++ sendTrue

theorem first_sent_type_ignored :
    (Main.setupRegister (.loadConfigFile ∅))[(1 : UInt16)]? = none ∧
      ¬ ∀ first second, TypedFrom 1
        (runFrom (step .acceptAll) (start (.loadConfigFile ∅) ∅ CanMessage.zero.frame)
          first)
        (runFrom (step .acceptAll) (start (.loadConfigFile ∅) ∅ CanMessage.zero.frame)
          (first ++ second)) := by
  refine ⟨by decide +kernel, fun hall => ?_⟩
  have htyped := hall receivedFirst []
  have htype := (htyped (by decide +kernel) requestedMessage (by decide +kernel)).2
  exact absurd htype (by decide +kernel)

end Can2Rest.Properties
