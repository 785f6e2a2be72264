import Can2Rest.Foundation.Progress
import Can2Rest.Properties.Posts

/-!
# Receiving goes first

The main loop sends only when a read finds no frame: each such read takes at most one
message from the queue, and if such reads come again and again, every message is taken.
-/

namespace Can2Rest.Properties

open Foundation Shared Account Filter

def idleRead (pool : Serving) (event : Thread × Env) : Bool :=
  match event.1, (pool.current .main).head with
  | .main, some .canRead => event.2.received.isNone
  | _, _ => false

theorem eq_of_idleRead {pool : Serving} {event : Thread × Env} (h : idleRead pool event = true) :
    event.1 = .main ∧ (pool.current .main).head = some .canRead ∧ event.2.received = none := by
  unfold idleRead at h
  split at h
  next hthread hhead => exact ⟨hthread, hhead, Option.isNone_iff_eq_none.mp h⟩
  next => cases h

/-- The reads of a run that find no frame. -/
def idleReads (program : Program) : Serving → List (Thread × Env) → Nat
  | _, [] => 0
  | pool, event :: schedule =>
      (idleRead pool event).toNat + idleReads program (Serving.step program pool event) schedule

/-! ## What a pass adds -/

/-- Sections that add at most one to a total, which only the main loop changes. -/
structure Tally where
  counts : Section → Prop
  total : Bridge → Nat
  counted : ∀ op env state, counts op → total (bridge op env state).2 ≤ total state + 1
  uncounted : ∀ op env state, ¬ counts op → total (bridge op env state).2 = total state
  aside : ∀ before after, Aside before after → total after = total before

def Passive (tally : Tally) (op : Section) : Prop := ¬ tally.counts op ∧ op ≠ .canRead

section Code

variable {α β : Type} {tally : Tally}

def AddsOnce (tally : Tally) : Code α → Prop
  | .ret _ => True
  | .call op next =>
      op ≠ .canRead ∧ (tally.counts op → ∀ result, (next result).Uses (Passive tally)) ∧
        (¬ tally.counts op → ∀ result, AddsOnce tally (next result))

theorem AddsOnce.of_uses {code : Code α} (h : code.Uses (Passive tally)) :
    AddsOnce tally code := by
  induction code with
  | ret value => trivial
  | call op next ih =>
      exact ⟨h.1.2, fun hop => absurd hop h.1.1, fun _ result => ih result (h.2 result)⟩

theorem AddsOnce.bind {code : Code α} (h : AddsOnce tally code) {next : α → Code β}
    (hnext : ∀ value, (next value).Uses (Passive tally)) : AddsOnce tally (code >>= next) := by
  induction code with
  | ret value => exact .of_uses (hnext value)
  | call op rest ih =>
      exact ⟨h.1, fun hop result => (h.2.1 hop result).bind hnext,
        fun hop result => ih result (h.2.2 hop result)⟩

theorem AddsOnce.after {code : Code α} (h : code.Uses (Passive tally)) {next : α → Code β}
    (hnext : ∀ value, AddsOnce tally (next value)) : AddsOnce tally (code >>= next) := by
  induction code with
  | ret value => exact hnext value
  | call op rest ih =>
      exact ⟨h.1.2, fun hop => absurd hop h.1.1, fun _ result => ih result (h.2 result)⟩

/-- A pass adds nothing when it receives, and at most one when it sends. -/
structure Tally.OncePerPass (tally : Tally) (setup : Setup) : Prop where
  reading : ¬ tally.counts .canRead
  receiving : ∀ locals frame, (Main.receiveFrame setup locals frame).Uses (Passive tally)
  sending : ∀ counter, AddsOnce tally (Main.sendMessage setup counter)

def Tally.taken : Tally where
  counts op := op = .queuePop
  total state := state.history.dequeued.length
  counted op env state hop := by
    subst hop
    change state.queuePop.2.history.dequeued.length ≤ _
    unfold Bridge.queuePop
    split
    · exact Nat.le_succ _
    · exact (List.length_append).le
  uncounted op env state hop := by
    cases op with
    | queuePop => exact absurd rfl hop
    | queueSize => rw [bridge]
    | _ => rfl
  aside _ _ h := congrArg List.length h.dequeued

def Tally.transmitted : Tally where
  counts op := ∃ frame, op = .canWrite frame
  total state := state.history.transmitted.length
  counted op env state hop := by
    obtain ⟨frame, rfl⟩ := hop
    change (state.history.transmitted ++ if env.written then [frame] else []).length ≤ _
    rw [List.length_append]
    split <;> simp
  uncounted op env state hop := by
    cases op with
    | canWrite frame => exact absurd ⟨frame, rfl⟩ hop
    | queueSize => rw [bridge]
    | queuePop =>
        change state.queuePop.2.history.transmitted.length = _
        unfold Bridge.queuePop
        split <;> rfl
    | _ => rfl
  aside _ _ h := congrArg List.length h.transmitted

/-- The next steps count the messages, and take the first one if there are any. -/
def Popping : Nat → Code α → Prop
  | 0, code => ∃ next, code = .call .queuePop next
  | steps + 1, code => ∃ next : Int → Code α, code = .call .queueSize next ∧
      ∀ size, 0 < size → Popping steps (next size)

theorem Popping.bind {steps : Nat} {code : Code α} (h : Popping steps code)
    (next : α → Code β) : Popping steps (code >>= next) := by
  induction steps generalizing code with
  | zero =>
      obtain ⟨rest, rfl⟩ := h
      exact ⟨_, rfl⟩
  | succ steps ih =>
      obtain ⟨rest, rfl, hrest⟩ := h
      exact ⟨_, rfl, fun size hsize => ih (hrest size hsize)⟩

theorem popping_messageQueued {steps : Nat} {next : Int → Code α}
    (h : ∀ size, 0 < size → Popping steps (next size)) :
    Popping (steps + 1) (FrameSendQueue.messageQueued >>= next) :=
  ⟨_, rfl, h⟩

theorem popping_dequeue : Popping 1 FrameSendQueue.dequeue := by
  refine popping_messageQueued fun size hsize => ?_
  rw [if_pos hsize]
  exact ⟨_, rfl⟩

theorem popping_sendMessage (setup : Setup) (counter : UInt32) :
    Popping 2 (Main.sendMessage setup counter) := by
  refine popping_messageQueued fun size hsize => ?_
  rw [if_pos hsize]
  exact popping_dequeue.bind _

theorem passive_perform {op : Section} (h : Passive tally op) :
    (Prog.perform (I := Sections) op).Uses (Passive tally) :=
  Prog.uses_perform.mpr h

theorem taken_passive_of_record {fieldPrefix : Bytes} {op : Section}
    (h : Threads.RecordSection fieldPrefix op) : Passive .taken op := by
  constructor <;> rintro rfl <;> exact h

theorem transmitted_passive_of_record {fieldPrefix : Bytes} {op : Section}
    (h : Threads.RecordSection fieldPrefix op) : Passive .transmitted op := by
  constructor
  · rintro ⟨frame, rfl⟩
    exact h
  · rintro rfl
    exact h

theorem passive_recordSent {setup : Setup}
    (hrecord : ∀ op, Threads.RecordSection setup.redis.fieldPrefix op → Passive tally op)
    (hassign : ∀ id type, Passive tally (.typeAssign id type)) (counter : UInt32)
    (msg : CanMessage) : (Main.recordSent setup counter msg).Uses (Passive tally) := by
  refine Prog.Uses.bind (Threads.uses_autoRegister ?_ hassign msg) fun _ => ?_
  · exact fun id => hrecord _ trivial
  · exact (Threads.uses_recordRest setup counter msg).mono hrecord

theorem addsOnce_dequeue : AddsOnce .taken FrameSendQueue.dequeue := by
  refine ⟨nofun, nofun, fun _ size => ?_⟩
  change AddsOnce .taken (if size > 0 then _ else _)
  split
  · refine ⟨nofun, fun _ front => ?_, fun hop => absurd rfl hop⟩
    cases front with
    | some msg => trivial
    | none => trivial
  · trivial

theorem taken_oncePerPass (setup : Setup) : Tally.taken.OncePerPass setup where
  reading := nofun
  receiving locals frame := (Threads.uses_receiveFrame setup locals frame).mono fun _ =>
    taken_passive_of_record
  sending counter := by
    refine ⟨nofun, nofun, fun _ queued => ?_⟩
    change AddsOnce .taken (if queued > 0 then _ else _)
    split
    · refine addsOnce_dequeue.bind fun msg => ?_
      split
      · refine Prog.Uses.bind (passive_perform ⟨nofun, nofun⟩) fun _ => ?_
        exact passive_recordSent (fun _ => taken_passive_of_record)
          (fun _ _ => ⟨nofun, nofun⟩) counter msg
      · trivial
    · trivial

theorem transmitted_oncePerPass (setup : Setup) : Tally.transmitted.OncePerPass setup where
  reading := nofun
  receiving locals frame := (Threads.uses_receiveFrame setup locals frame).mono fun _ =>
    transmitted_passive_of_record
  sending counter := by
    refine ⟨nofun, nofun, fun _ queued => ?_⟩
    change AddsOnce .transmitted (if queued > 0 then _ else _)
    split
    · have hsize : Passive .transmitted .queueSize := ⟨nofun, nofun⟩
      have hpop : Passive .transmitted .queuePop := ⟨nofun, nofun⟩
      refine .after (Threads.uses_dequeue hsize hpop) fun msg => ?_
      split
      · refine ⟨nofun, fun _ _ => ?_, fun hop => absurd ⟨_, rfl⟩ hop⟩
        exact passive_recordSent (fun _ => transmitted_passive_of_record)
          (fun _ _ => ⟨nofun, nofun⟩) counter msg
      · trivial
    · trivial

end Code

/-! ## Steps -/

/-- Where the main loop is, and how much it may add before it reads again. -/
inductive Place (program : Program) (tally : Tally) : Nat → Code MainLocals → Prop
  | passive {code : Code MainLocals} (h : code.Uses (Passive tally)) :
      Place program tally 0 code
  | reading (locals : MainLocals) :
      Place program tally 0 (Main.mainPass program.setup locals)
  | sending {code : Code MainLocals} (h : AddsOnce tally code) : Place program tally 1 code

section Steps

variable {program : Program} {config : ConfigParser} {fr : CanFrame} {pool : Serving}
variable {event : Thread × Env} {env : Env}

theorem exists_read (program : Program) (locals : MainLocals) :
    ∃ next : Option CanfdFrame → Code MainLocals,
      Main.mainPass program.setup locals = .call .canRead next ∧
        ∀ received, next received = received.elim
          (Main.sendMessage program.setup locals.frameSyncCounter >>= fun _ => return locals)
          (Main.receiveFrame program.setup locals) := by
  rw [mainPass_eq]
  exact ⟨_, rfl, fun _ => rfl⟩

/-- A step of the main loop adds within its budget, or finds a new one. -/
theorem Place.step {tally : Tally} (honce : tally.OncePerPass program.setup) {budget : Nat}
    (h : Place program tally budget (pool.current .main)) :
    ∃ budget', Place program tally budget'
        ((Serving.step program pool (.main, env)).current .main) ∧
      tally.total (Serving.step program pool (.main, env)).shared + budget' ≤
        tally.total pool.shared + budget + (idleRead pool (.main, env)).toNat := by
  generalize hcode : pool.current .main = code at h
  cases h with
  | passive h =>
      cases code with
      | ret locals =>
          rw [Serving.step, Pool.current_step_ret (Thread.main, env) hcode,
            Pool.shared_step_ret (Thread.main, env) hcode]
          exact ⟨0, .reading locals, Nat.le_add_right _ _⟩
      | call op next =>
          rw [Serving.step, Pool.current_step_call (Thread.main, env) hcode,
            Pool.shared_step_call (Thread.main, env) hcode, tally.uncounted op env _ h.1.1]
          exact ⟨0, .passive (h.2 _), Nat.le_add_right _ _⟩
  | reading locals =>
      obtain ⟨next, hread, hnext⟩ := exists_read program locals
      rw [Serving.step, Pool.current_step_call (Thread.main, env) (hcode.trans hread),
        Pool.shared_step_call (Thread.main, env) (hcode.trans hread),
        tally.uncounted .canRead env _ honce.reading]
      change ∃ budget', Place program tally budget' (next env.received) ∧ _
      rw [hnext]
      cases hreceived : env.received with
      | some frame => exact ⟨0, .passive (honce.receiving locals frame), by omega⟩
      | none =>
          have hidle : idleRead pool (.main, env) = true := by
            simp [idleRead, hcode, hread, Prog.head, hreceived]
          refine ⟨1, .sending ((honce.sending _).bind fun _ => trivial), ?_⟩
          rw [hidle]
          exact Nat.le_refl _
  | sending h =>
      cases code with
      | ret locals =>
          rw [Serving.step, Pool.current_step_ret (Thread.main, env) hcode,
            Pool.shared_step_ret (Thread.main, env) hcode]
          exact ⟨0, .reading locals, by omega⟩
      | call op next =>
          rw [Serving.step, Pool.current_step_call (Thread.main, env) hcode,
            Pool.shared_step_call (Thread.main, env) hcode]
          by_cases hop : tally.counts op
          · refine ⟨0, .passive (h.2.1 hop _), ?_⟩
            have hadded := tally.counted op env pool.shared hop
            dsimp only
            omega
          · rw [tally.uncounted op env _ hop]
            exact ⟨1, .sending (h.2.2 hop _), Nat.le_add_right _ _⟩

structure Draining (program : Program) (config : ConfigParser) (fr : CanFrame)
    (pool : Serving) : Prop where
  accounted : Accounted program config fr pool
  conserved : Conserved pool.shared
  takes : ∃ budget, Place program .taken budget (pool.current .main)
  writes : ∃ budget, Place program .transmitted budget (pool.current .main)

theorem draining_start (program : Program) (config : ConfigParser) (hash : StringMap)
    (fr : CanFrame) : Draining program config fr (Serving.start config hash fr) :=
  ⟨accounted_start program config hash fr, rfl, ⟨0, .passive trivial⟩, 0, .passive trivial⟩

theorem conserved_step (h : Conserved pool.shared) (event : Thread × Env) :
    Conserved (Serving.step program pool event).shared := by
  cases hcurrent : pool.current event.1 with
  | ret value => rwa [Serving.step, Pool.shared_step_ret event hcurrent]
  | call op next =>
      rw [Serving.step, Pool.shared_step_call event hcurrent]
      exact conserved_bridge h event.2

theorem place_step (h : Accounted program config fr pool) {tally : Tally}
    (honce : tally.OncePerPass program.setup) {budget : Nat}
    (hplace : Place program tally budget (pool.current .main)) (event : Thread × Env) :
    ∃ budget', Place program tally budget' ((Serving.step program pool event).current .main) ∧
      tally.total (Serving.step program pool event).shared + budget' ≤
        tally.total pool.shared + budget + (idleRead pool event).toNat := by
  obtain ⟨thread, env⟩ := event
  by_cases hthread : thread = .main
  · subst hthread
    exact hplace.step honce
  · refine ⟨budget, ?_, ?_⟩
    · rwa [Serving.step, Pool.current_step_of_ne hthread]
    · have haside : Aside pool.shared (Serving.step program pool (thread, env)).shared :=
        h.aside_step hthread
      rw [tally.aside _ _ haside]
      omega

theorem place_run (h : Accounted program config fr pool) {tally : Tally}
    (honce : tally.OncePerPass program.setup) {budget : Nat}
    (hplace : Place program tally budget (pool.current .main))
    (schedule : List (Thread × Env)) :
    tally.total (runFrom (Serving.step program) pool schedule).shared ≤
      tally.total pool.shared + budget + idleReads program pool schedule := by
  induction schedule generalizing pool budget with
  | nil => exact Nat.le_add_right _ _
  | cons event schedule ih =>
      obtain ⟨budget', hplace', hle⟩ := place_step h honce hplace event
      have hrest := ih (h.step event) hplace'
      rw [runFrom_cons, idleReads]
      omega

theorem Place.le_one {tally : Tally} {budget : Nat} {code : Code MainLocals}
    (h : Place program tally budget code) : budget ≤ 1 := by
  cases h <;> omega

theorem Draining.step (h : Draining program config fr pool) (event : Thread × Env) :
    Draining program config fr (Serving.step program pool event) := by
  obtain ⟨first, htakes⟩ := h.takes
  obtain ⟨second, hwrites⟩ := h.writes
  obtain ⟨first', htakes', -⟩ :=
    place_step h.accounted (taken_oncePerPass program.setup) htakes event
  obtain ⟨second', hwrites', -⟩ :=
    place_step h.accounted (transmitted_oncePerPass program.setup) hwrites event
  exact ⟨h.accounted.step event, conserved_step h.conserved event, ⟨first', htakes'⟩,
    second', hwrites'⟩

theorem Draining.run (h : Draining program config fr pool) (schedule : List (Thread × Env)) :
    Draining program config fr (runFrom (Serving.step program) pool schedule) :=
  runFrom_invariant _ (fun _ event h => h.step event) _ _ h

theorem Draining.transmitted_le (h : Draining program config fr pool) :
    pool.shared.history.transmitted.length ≤ pool.shared.history.dequeued.length := by
  obtain ⟨account, ⟨hinOrder, -⟩, hagrees⟩ := h.accounted.within
  have hle := hinOrder.length_le
  rwa [List.length_map, ← hagrees.transmitted, ← hagrees.dequeued] at hle

end Steps

/--
Since the start at most one message was sent for each read that found no frame, and in
any later part of a run at most one more, which may be under way at its beginning.
-/
theorem sends_after_idleReads (program : Program) (config : ConfigParser) (hash : StringMap)
    (fr : CanFrame) (earlier later : List (Thread × Env)) :
    let start := Serving.start config hash fr
    let before := runFrom (Serving.step program) start earlier
    let after := runFrom (Serving.step program) before later
    before.shared.history.dequeued.length ≤ idleReads program start earlier ∧
    after.shared.history.dequeued.length ≤
      before.shared.history.dequeued.length + 1 + idleReads program before later ∧
    after.shared.history.transmitted.length ≤ after.shared.history.dequeued.length ∧
    after.shared.history.transmitted.length ≤
      before.shared.history.transmitted.length + 1 + idleReads program before later := by
  intro start before after
  have hstart : Draining program config fr start := draining_start program config hash fr
  have hbefore : Draining program config fr before := hstart.run earlier
  obtain ⟨popping, htakes⟩ := hbefore.takes
  obtain ⟨writing, hwrites⟩ := hbefore.writes
  have hnone : start.shared.history.dequeued.length = 0 := rfl
  have hfirst : before.shared.history.dequeued.length ≤
      start.shared.history.dequeued.length + 0 + idleReads program start earlier :=
    place_run hstart.accounted (taken_oncePerPass program.setup) (.passive trivial) earlier
  have htaken : after.shared.history.dequeued.length ≤
      before.shared.history.dequeued.length + popping + idleReads program before later :=
    place_run hbefore.accounted (taken_oncePerPass program.setup) htakes later
  have hwritten : after.shared.history.transmitted.length ≤
      before.shared.history.transmitted.length + writing + idleReads program before later :=
    place_run hbefore.accounted (transmitted_oncePerPass program.setup) hwrites later
  have hpops := htakes.le_one
  have hsends := hwrites.le_one
  exact ⟨by omega, by omega, (hbefore.run later).transmitted_le, by omega⟩

/-! ## Every message is taken -/

section Progress

variable {program : Program} {config : ConfigParser} {fr : CanFrame} {pool : Serving}
variable {count : Nat}

def Behind (count : Nat) (state : Bridge) : Prop :=
  state.history.dequeued.length = count ∧ count < state.history.enqueued.length

theorem enqueued_prefix (op : Section) (env : Env) (state : Bridge) :
    state.history.enqueued <+: (bridge op env state).2.history.enqueued := by
  by_cases hpush : ∃ msg, op = .queuePush msg
  · obtain ⟨msg, rfl⟩ := hpush
    exact List.prefix_append _ _
  · rw [enqueued_bridge (fun msg hop => hpush ⟨msg, hop⟩) env state]

theorem enqueued_prefix_step (event : Thread × Env) : pool.shared.history.enqueued <+:
    (Serving.step program pool event).shared.history.enqueued := by
  cases hcurrent : pool.current event.1 with
  | ret value => rw [Serving.step, Pool.shared_step_ret event hcurrent]
  | call op next =>
      rw [Serving.step, Pool.shared_step_call event hcurrent]
      exact enqueued_prefix op event.2 pool.shared

theorem Behind.queue (h : Behind count pool.shared) (hconserved : Conserved pool.shared) :
    0 < pool.shared.messageQueue.length := by
  have hlength := congrArg List.length hconserved
  rw [List.length_append] at hlength
  obtain ⟨hcount, hlt⟩ := h
  omega

theorem Behind.pop {state : Bridge} (h : Behind count state)
    (hqueue : 0 < state.messageQueue.length) (env : Env) :
    count < (bridge .queuePop env state).2.history.dequeued.length := by
  change count < state.queuePop.2.history.dequeued.length
  unfold Bridge.queuePop
  split
  next hnil =>
    rw [hnil] at hqueue
    cases hqueue
  next msg rest hcons =>
    change count < (state.history.dequeued ++ [msg]).length
    rw [List.length_append, h.1]
    exact Nat.lt_succ_self _

theorem Behind.step (h : Behind count pool.shared) (hconserved : Conserved pool.shared)
    (event : Thread × Env) :
    Behind count (Serving.step program pool event).shared ∨
      count < (Serving.step program pool event).shared.history.dequeued.length := by
  have hle : pool.shared.history.enqueued.length ≤
      (Serving.step program pool event).shared.history.enqueued.length :=
    (enqueued_prefix_step event).length_le
  cases hcurrent : pool.current event.1 with
  | ret value =>
      rw [Serving.step, Pool.shared_step_ret event hcurrent]
      exact .inl h
  | call op next =>
      rw [Serving.step, Pool.shared_step_call event hcurrent] at hle ⊢
      by_cases hop : op = .queuePop
      · subst hop
        exact .inr (h.pop (h.queue hconserved) event.2)
      · refine .inl ⟨?_, h.2.trans_le hle⟩
        exact (Tally.taken.uncounted op event.2 pool.shared hop).trans h.1

structure Reaching (count steps : Nat) (pool : Serving) : Prop where
  behind : Behind count pool.shared
  popping : Popping steps (pool.current .main)

theorem Draining.reaching (h : Draining program config fr pool) {event : Thread × Env}
    (hidle : idleRead pool event = true) (hbehind : Behind count pool.shared) :
    Reaching count 2 (Serving.step program pool event) := by
  obtain ⟨hthread, hhead, hreceived⟩ := eq_of_idleRead hidle
  obtain ⟨thread, env⟩ := event
  subst hthread
  obtain ⟨budget, hplace⟩ := h.takes
  generalize hcode : pool.current .main = code at hplace hhead
  cases hplace with
  | passive hpassive =>
      cases code with
      | ret value => cases hhead
      | call op next => exact absurd (Option.some.inj hhead) hpassive.1.2
  | sending honce =>
      cases code with
      | ret value => cases hhead
      | call op next => exact absurd (Option.some.inj hhead) honce.1
  | reading locals =>
      obtain ⟨next, hread, hnext⟩ := exists_read program locals
      have hcall := hcode.trans hread
      refine ⟨?_, ?_⟩
      · rw [Serving.step, Pool.shared_step_call (Thread.main, env) hcall]
        exact hbehind
      · rw [Serving.step, Pool.current_step_call (Thread.main, env) hcall]
        change Popping 2 (next env.received)
        rw [hnext, show env.received = none from hreceived]
        exact (popping_sendMessage _ _).bind _

theorem queueSize_pos {state : Bridge} (hvisible : state.messageQueue.length < 2 ^ 31)
    (hqueue : 0 < state.messageQueue.length) (env : Env) :
    (0 : Int) < (bridge .queueSize env state).1 := by
  have hsize : asInt state.messageQueue.length = state.messageQueue.length :=
    asInt_eq_self hvisible
  rw [bridge]
  dsimp only
  rw [hsize]
  omega

variable (program) in
theorem Reaching.step {steps : Nat} (h : Reaching count steps pool)
    (hconserved : Conserved pool.shared) (hvisible : pool.shared.messageQueue.length < 2 ^ 31)
    (env : Env) :
    (∃ lower < steps, Reaching count lower (Serving.step program pool (.main, env))) ∨
      count < (Serving.step program pool (.main, env)).shared.history.dequeued.length := by
  have hqueue := h.behind.queue hconserved
  have hpopping := h.popping
  cases steps with
  | zero =>
      obtain ⟨next, hcall⟩ := hpopping
      rw [Serving.step, Pool.shared_step_call (Thread.main, env) hcall]
      exact .inr (h.behind.pop hqueue env)
  | succ steps =>
      obtain ⟨next, hcall, hnext⟩ := hpopping
      refine .inl ⟨steps, Nat.lt_succ_self _, ?_, ?_⟩
      · rw [Serving.step, Pool.shared_step_call (Thread.main, env) hcall]
        have hbehind := h.behind
        rwa [bridge]
      · rw [Serving.step, Pool.current_step_call (Thread.main, env) hcall]
        exact hnext _ (queueSize_pos hvisible hqueue env)

end Progress

section Fair

variable (program : Program) (config : ConfigParser) (hash : StringMap) (fr : CanFrame)
variable {events : Nat → Thread × Env}

abbrev servingAt (events : Nat → Thread × Env) : Nat → Serving :=
  stateAt (Serving.step program) (Serving.start config hash fr) events

theorem draining_at (events : Nat → Thread × Env) (time : Nat) :
    Draining program config fr (servingAt program config hash fr events time) :=
  stateAt_invariant (Draining program config fr) (draining_start program config hash fr)
    (fun time h => h.step (events time)) time

theorem enqueued_prefix_at (events : Nat → Thread × Env) {time later : Nat} (h : time ≤ later) :
    (servingAt program config hash fr events time).shared.history.enqueued <+:
      (servingAt program config hash fr events later).shared.history.enqueued :=
  stateAt_onward (fun pool : Serving =>
      (servingAt program config hash fr events time).shared.history.enqueued <+:
        pool.shared.history.enqueued)
    List.prefix_rfl (fun later _ ih => ih.trans (enqueued_prefix_step (events later))) h

theorem frequently_idleRead (hmain : ∃ᶠ time in atTop, (events time).1 = .main)
    (hsilent : ∀ᶠ time in atTop, (events time).2.received = none) :
    ∃ᶠ time in atTop,
      idleRead (servingAt program config hash fr events time) (events time) = true := by
  obtain ⟨silence, hsilence⟩ := eventually_atTop.mp hsilent
  rw [frequently_atTop]
  intro time
  obtain ⟨ended, locals, hended, hvalue⟩ := Pool.exists_ended bridge (Serving.body program)
    (Serving.start config hash fr) hmain (max time silence)
  obtain ⟨begun, hbegun, hthread, hsame⟩ := Pool.exists_scheduled bridge (Serving.body program)
    (Serving.start config hash fr) hmain ended
  have hpass : (servingAt program config hash fr events (begun + 1)).current .main =
      Main.mainPass program.setup locals := by
    have hevent : events begun = (.main, (events begun).2) := Prod.ext hthread rfl
    rw [servingAt, stateAt_succ, hevent]
    exact Pool.current_step_ret (Thread.main, (events begun).2) (hsame.trans hvalue)
  obtain ⟨reading, hreading, hread, hcode⟩ := Pool.exists_scheduled bridge
    (Serving.body program) (Serving.start config hash fr) hmain (begun + 1)
  refine ⟨reading, by omega, ?_⟩
  obtain ⟨next, hcall, -⟩ := exists_read program locals
  have hhead : ((servingAt program config hash fr events reading).current .main).head =
      some .canRead := by
    rw [servingAt, hcode, ← servingAt, hpass, hcall]
    rfl
  have hreceived : (events reading).2.received = none := hsilence reading (by omega)
  unfold idleRead
  rw [hhead, hread]
  exact Option.isNone_iff_eq_none.mpr hreceived

theorem enqueued_alone {time later : Nat} (h : time ≤ later)
    (halone : ∀ middle, time ≤ middle → (events middle).1 = .main) :
    (servingAt program config hash fr events later).shared.history.enqueued =
      (servingAt program config hash fr events time).shared.history.enqueued := by
  induction later, h using Nat.le_induction with
  | base => rfl
  | succ later hle ih =>
      rw [← ih, servingAt, stateAt_succ]
      have hkeeps := (draining_at program config hash fr events later).accounted.keeps
      have hmain := hkeeps (events later).1
      cases hcurrent : (servingAt program config hash fr events later).current
          (events later).1 with
      | ret value => rw [Serving.step, Pool.shared_step_ret (events later) hcurrent]
      | call op next =>
          rw [Serving.step, Pool.shared_step_call (events later) hcurrent]
          refine enqueued_bridge ?_ _ _
          rw [hcurrent] at hmain
          have hop := hmain.1
          rwa [halone later hle] at hop

abbrev Counted (events : Nat → Thread × Env) (P : Serving → Prop) : Nat → Prop :=
  Under (Serving.step program) (Serving.start config hash fr) events
    (fun pool _ => pool.shared.messageQueue.length < 2 ^ 31) P

variable (hidle : ∃ᶠ time in atTop,
  idleRead (servingAt program config hash fr events time) (events time) = true)

include hidle

theorem reaching_taken (count steps : Nat) :
    LeadsTo (Counted program config hash fr events (Reaching count steps))
      (Counted program config hash fr events fun pool =>
        count < pool.shared.history.dequeued.length) := by
  have hmain : ∃ᶠ time in atTop, (events time).1 = .main :=
    hidle.mono fun time h => (eq_of_idleRead h).1
  refine LeadsTo.of_events_rank (fun _ event => event.1 = .main)
    (draining_at program config hash fr events) hmain ?_ ?_ steps
  · rintro steps pool event hdraining - hthread ⟨hbehind, hpopping⟩
    refine (hbehind.step hdraining.conserved event).imp (fun hnext => ⟨hnext, ?_⟩) id
    rw [Serving.step, Pool.current_step_of_ne hthread]
    exact hpopping
  · rintro steps pool ⟨thread, env⟩ hdraining hvisible rfl hreaching
    exact hreaching.step program hdraining.conserved hvisible env

theorem behind_taken (count : Nat) :
    LeadsTo (Counted program config hash fr events fun pool => Behind count pool.shared)
      (Counted program config hash fr events fun pool =>
        count < pool.shared.history.dequeued.length) := by
  have hreached : LeadsTo
      (Counted program config hash fr events fun pool => Behind count pool.shared)
      (Counted program config hash fr events fun pool =>
        Reaching count 2 pool ∨ count < pool.shared.history.dequeued.length) := by
    refine LeadsTo.of_events (fun pool event => idleRead pool event = true)
      (draining_at program config hash fr events) hidle ?_ ?_
    · intro pool event hdraining _ _ hbehind
      exact (hbehind.step hdraining.conserved event).imp id .inr
    · intro pool event hdraining _ hnow hbehind
      exact .inl (hdraining.reaching hnow hbehind)
  refine hreached.trans ?_
  rintro time ⟨honward, hreaching | htaken⟩
  · exact reaching_taken program config hash fr hidle count 2 time ⟨honward, hreaching⟩
  · exact ⟨time, le_rfl, honward, htaken⟩

theorem enqueued_taken (wanted rank : Nat) :
    LeadsTo
      (Counted program config hash fr events fun pool =>
        wanted ≤ pool.shared.history.enqueued.length ∧
          wanted - pool.shared.history.dequeued.length = rank)
      (Counted program config hash fr events fun pool =>
        wanted ≤ pool.shared.history.dequeued.length) := by
  let waiting (rank : Nat) := Counted program config hash fr events fun pool =>
    wanted ≤ pool.shared.history.enqueued.length ∧
      wanted - pool.shared.history.dequeued.length = rank
  let served := Counted program config hash fr events fun pool =>
    wanted ≤ pool.shared.history.dequeued.length
  have hranks : ∀ rank, LeadsTo (waiting rank) fun time =>
      (∃ lower < rank, waiting lower time) ∨ served time := by
    rintro _ time ⟨honward, hwanted, rfl⟩
    by_cases hserved : wanted ≤
        (servingAt program config hash fr events time).shared.history.dequeued.length
    · exact ⟨time, le_rfl, .inr ⟨honward, hserved⟩⟩
    have hbehind := Nat.not_le.mp hserved
    obtain ⟨later, hlater, honward', htaken⟩ :=
      behind_taken program config hash fr hidle _ time ⟨honward, rfl, hbehind.trans_le hwanted⟩
    have hprefix := (enqueued_prefix_at program config hash fr events hlater).length_le
    exact ⟨later, hlater, .inl ⟨_, Nat.sub_lt_sub_left hbehind htaken, honward',
      hwanted.trans hprefix, rfl⟩⟩
  exact LeadsTo.of_rank hranks rank

end Fair

/--
If reads find no frame again and again, and from some time on the queue stays short enough
for its size to be an `int`, all that is queued then is taken, in the order of the queue.
-/
theorem queued_messages_taken (program : Program) (config : ConfigParser) (hash : StringMap)
    (fr : CanFrame) {events : Nat → Thread × Env}
    (hidle : ∃ᶠ time in atTop,
      idleRead (servingAt program config hash fr events time) (events time) = true)
    {time : Nat} (hvisible : ∀ later, time ≤ later →
      (servingAt program config hash fr events later).shared.messageQueue.length < 2 ^ 31) :
    ∃ later, time ≤ later ∧
      (servingAt program config hash fr events time).shared.history.enqueued <+:
        (servingAt program config hash fr events later).shared.history.dequeued := by
  obtain ⟨later, hlater, -, hserved⟩ :=
    enqueued_taken program config hash fr hidle _ _ time ⟨hvisible, le_rfl, rfl⟩
  refine ⟨later, hlater, ?_⟩
  have hconserved := (draining_at program config hash fr events later).conserved
  refine List.prefix_of_prefix_length_le
    (enqueued_prefix_at program config hash fr events hlater) ?_ hserved
  exact ⟨_, hconserved.symm⟩

def trueRequest : Bytes := ascii "\x7b\"id\": 1, \"payload\": true\x7d"

/-- A request is handled; from then on the main loop runs alone, on a silent bus. -/
def postedThenSilent (posting time : Nat) : Thread × Env :=
  if time < posting then (.handler 0 (.send trueRequest), {}) else (.main, {})

theorem exists_posted : ∃ posting,
    (servingAt .acceptAll (.loadConfigFile ∅) ∅ CanMessage.zero.frame (postedThenSilent posting)
      posting).shared.history.enqueued.length = 1 := by
  have hrequest : RestApi.Requests (cStr trueRequest) (.int 1) (.bool true) :=
    requests_of_scalarRequest (by decide +kernel)
  have hrun := @RestApi.run_postSend_of_requests Program.acceptAll.undefined _ _ _ hrequest
    ({} : Env) (Serving.start (.loadConfigFile ∅) ∅ CanMessage.zero.frame).shared
  obtain ⟨posting, hposting⟩ := Pool.exists_turn bridge (Serving.body .acceptAll)
    (Serving.start (.loadConfigFile ∅) ∅ CanMessage.zero.frame) (.handler 0 (.send trueRequest))
    rfl ({} : Env)
  refine ⟨posting, ?_⟩
  have hschedule : ∀ time event, (List.replicate posting
      (Thread.handler 0 (.send trueRequest), ({} : Env)))[time]? = some event →
        postedThenSilent posting time = event := by
    intro time event hevent
    rw [List.getElem?_replicate] at hevent
    split at hevent
    next hlt =>
      rw [postedThenSilent, if_pos hlt]
      exact Option.some.inj hevent
    next => cases hevent
  have hstate := stateAt_eq_runFrom (Serving.step .acceptAll)
    (Serving.start (.loadConfigFile ∅) ∅ CanMessage.zero.frame) hschedule
  rw [List.length_replicate, hposting] at hstate
  rw [servingAt, hstate]
  have hbody : Serving.body .acceptAll (.handler 0 (.send trueRequest)) none =
      RestApi.postSend Program.acceptAll.undefined trueRequest >>= fun response =>
        return some response := rfl
  rw [hbody, Prog.run_bind, hrun, Prog.run_pure]
  dsimp only
  rw [RestApi.enqueuedState_history_enqueued, List.length_append]
  rfl

theorem posted_message_taken : ∃ posting,
    let pool := servingAt .acceptAll (.loadConfigFile ∅) ∅ CanMessage.zero.frame
      (postedThenSilent posting)
    (pool posting).shared.history.enqueued.length = 1 ∧ ∃ later, posting ≤ later ∧
      (pool posting).shared.history.enqueued <+: (pool later).shared.history.dequeued := by
  obtain ⟨posting, hlength⟩ := exists_posted
  refine ⟨posting, ?_⟩
  intro pool
  have hmain {time : Nat} (h : posting ≤ time) : postedThenSilent posting time = (.main, {}) :=
    if_neg (by omega)
  have hidle : ∃ᶠ time in atTop,
      idleRead (pool time) (postedThenSilent posting time) = true := by
    refine frequently_idleRead .acceptAll _ ∅ _ (frequently_atTop.mpr fun time => ?_)
      (eventually_atTop.mpr ⟨posting, fun time htime => by rw [hmain htime]⟩)
    exact ⟨time + posting, by omega, by rw [hmain (by omega)]⟩
  have hqueued (time : Nat) : (pool time).shared.history.enqueued.length ≤ 1 := by
    rcases Nat.le_total time posting with hle | hle
    · have hprefix := enqueued_prefix_at .acceptAll (.loadConfigFile ∅) ∅ CanMessage.zero.frame
        (postedThenSilent posting) hle
      exact hprefix.length_le.trans hlength.le
    · have hsame := enqueued_alone .acceptAll (.loadConfigFile ∅) ∅ CanMessage.zero.frame hle
        fun middle hmiddle => congrArg Prod.fst (hmain hmiddle)
      exact (congrArg List.length hsame).le.trans hlength.le
  have hvisible (time : Nat) : (pool time).shared.messageQueue.length < 2 ^ 31 := by
    have hconserved := (draining_at .acceptAll (.loadConfigFile ∅) ∅ CanMessage.zero.frame
      (postedThenSilent posting) time).conserved
    have hle : (pool time).shared.messageQueue.length ≤ 1 := by
      refine le_trans ?_ (hqueued time)
      have hsplit := congrArg List.length hconserved
      rw [List.length_append] at hsplit
      exact (Nat.le_add_left _ _).trans hsplit.ge
    exact hle.trans_lt (by decide)
  exact ⟨hlength, queued_messages_taken .acceptAll _ ∅ _ hidle fun later _ => hvisible later⟩

end Can2Rest.Properties
