import Can2Rest.Threads

/-!
# The send queue among its threads

Any number of handlers enqueue messages while the main loop tests the queue and
dequeues.  Both tests narrow the size of the queue to an `int`.
-/

namespace Can2Rest.Properties

open Foundation Shared

/-! ## The threads -/

inductive Enqueue where
  | int16 (id : UInt16) (value : Int16)
  | bool (id : UInt16) (value : Bool)
  | bytes (id : UInt16) (value : Bytes)
  | array (id : UInt16) (value : Bytes)
  deriving DecidableEq

def Enqueue.code : Enqueue → Code Bool
  | .int16 id value => FrameSendQueue.enqueueInt16 id value
  | .bool id value => FrameSendQueue.enqueueBool id value
  | .bytes id value => FrameSendQueue.enqueueBytes id value
  | .array id value => FrameSendQueue.enqueueArray id value

/-- The main loop, and handlers that are told apart by a number. -/
inductive QueueThread where
  | main
  | handler (number : Nat) (operation : Enqueue)
  deriving DecidableEq

/-- The main loop keeps what its calls of `dequeue` returned. -/
abbrev QueueThread.Local : QueueThread → Type
  | .main => List CanMessage
  | .handler _ _ => Unit

/-- What the main loop does with the queue in one pass. -/
def takeNext : Code (Option CanMessage) := do
  let queued ← FrameSendQueue.messageQueued
  if queued > 0 then
    let msg ← FrameSendQueue.dequeue
    return some msg
  else return none

def sendTaken (setup : Setup) (counter : UInt32) : Option CanMessage → Code Unit
  | some msg => do
      if msg.valid then
        let _ ← Main.write msg.frame.transmit
        Main.recordSent setup counter msg
  | none => return ()

theorem sendMessage_eq (setup : Setup) (counter : UInt32) :
    Main.sendMessage setup counter = takeNext >>= sendTaken setup counter := by
  rw [Main.sendMessage, takeNext, bind_assoc]
  refine congrArg _ (funext fun queued => ?_)
  split
  · rw [bind_assoc]
    rfl
  · rfl

def takeTurn (obtained : List CanMessage) : Code (List CanMessage) := do
  let taken ← takeNext
  return obtained ++ taken.toList

def QueueThread.body : (thread : QueueThread) → thread.Local → Code thread.Local
  | .main, obtained => takeTurn obtained
  | .handler _ operation, _ => do
      let _ ← operation.code
      return ()

abbrev QueueThreads := Pool Sections Bridge QueueThread.Local

/-- A run with what the calls of `dequeue` returned so far. -/
structure QueueRun where
  threads : QueueThreads
  obtained : List CanMessage

namespace QueueRun

def step (s : QueueRun) (event : QueueThread × Env) : QueueRun :=
  let threads := s.threads.step bridge QueueThread.body event
  { threads
    obtained := (threads.current .main).ended.getD s.obtained }

def initial (typeRegister : TypeRegister) (hash : StringMap) : QueueRun where
  threads :=
    { shared := .start typeRegister hash
      current := fun thread =>
        match thread with
        | .main => .ret []
        | .handler _ _ => .ret () }
  obtained := []

abbrev queue (s : QueueRun) : List CanMessage := s.threads.shared.messageQueue

end QueueRun

/-! ## A lossless queue -/

def markValid (msg : CanMessage) : CanMessage := { msg with valid := true }

structure LosslessFifo (s : QueueRun) : Prop where
  inOrder : s.obtained.filter CanMessage.valid <+:
    s.threads.shared.history.enqueued.map markValid
  nonempty : ∀ thread, (s.threads.current thread).head = some .queuePop → s.queue ≠ []
  valid : ∀ msg ∈ s.obtained, msg.valid = true

/-- Narrowed to an `int`, the number is positive if it is not zero. -/
def CountShown (n : Nat) : Prop := n % 2 ^ 32 < 2 ^ 31 ∧ (n % 2 ^ 32 = 0 → n = 0)

theorem bmod_pos_iff {n m half : Nat} (hm : m = 2 * half) (hhalf : 0 < half) :
    0 < Int.bmod n m ↔ n % m ≠ 0 ∧ n % m < half := by
  have hlt : n % m < m := Nat.mod_lt n (by omega)
  rw [Int.bmod_def, ← Int.natCast_emod]
  generalize n % m = r at hlt
  subst hm
  split <;> omega

theorem asInt_pos_iff {n : Nat} (h : n ≠ 0) : 0 < asInt n ↔ CountShown n := by
  have hpos : 0 < asInt n ↔ _ := bmod_pos_iff rfl (Nat.two_pow_pos 31)
  refine hpos.trans ⟨fun hmod => ⟨hmod.2, fun hzero => absurd hzero hmod.1⟩, fun hshown => ?_⟩
  exact ⟨fun hzero => h (hshown.2 hzero), hshown.1⟩

/-! ## What the threads do to the queue -/

def pushed : Section → List CanMessage
  | .queuePush msg => [msg]
  | _ => []

def NoPop : Section → Prop
  | .queuePop => False
  | _ => True

structure Grows (pushes : List CanMessage) (before after : Bridge) : Prop where
  queue : after.messageQueue = before.messageQueue ++ pushes
  enqueued : after.history.enqueued = before.history.enqueued ++ pushes
  dequeued : after.history.dequeued = before.history.dequeued

theorem grows_section {op : Section} (h : NoPop op) (env : Env) (state : Bridge) :
    Grows (pushed op) state (bridge op env state).2 := by
  cases op with
  | queuePop => exact h.elim
  | queuePush msg => exact ⟨rfl, rfl, rfl⟩
  | _ => exact ⟨(List.append_nil _).symm, (List.append_nil _).symm, rfl⟩

theorem uses_producer {op : Section} (h : NoPop op) :
    (Prog.perform (I := Sections) op).Uses NoPop :=
  Prog.uses_perform.mpr h

theorem uses_pushed (msg : CanMessage) :
    (FrameSendQueue.push msg >>= fun _ => return true : Code Bool).Uses NoPop :=
  Prog.Uses.bind (uses_producer trivial) fun _ => trivial

theorem uses_enqueue (operation : Enqueue) : operation.code.Uses NoPop := by
  cases operation with
  | int16 id value =>
      refine Prog.Uses.bind (uses_producer trivial) fun declared => ?_
      refine Prog.Uses.bind (Threads.uses_digest ?_ ?_ ?_ _ _) fun hash => uses_pushed _
      · exact fun _ => trivial
      · exact fun _ _ => trivial
      · exact fun _ => trivial
  | bool id value => exact Prog.Uses.bind (uses_producer trivial) fun _ => uses_pushed _
  | bytes id value => exact Prog.Uses.bind (uses_producer trivial) fun _ => uses_pushed _
  | array id value => exact Prog.Uses.bind (uses_producer trivial) fun _ => uses_pushed _

def dequeuing (obtained : List CanMessage) : Code (List CanMessage) := do
  let msg ← FrameSendQueue.dequeue
  return obtained ++ [msg]

def popping (obtained : List CanMessage) : Code (List CanMessage) := do
  match ← FrameSendQueue.pop with
  | some msg => return obtained ++ [markValid msg]
  | none => return obtained ++ [{ CanMessage.zero with valid := false }]

theorem takeTurn_eq (obtained : List CanMessage) :
    takeTurn obtained = .call (.queueSize : Section) fun queued : Int =>
      if queued > 0 then dequeuing obtained else .ret obtained := by
  refine congrArg (Prog.call _) (funext fun queued => ?_)
  change (if queued > 0 then _ else _ : Code (Option CanMessage)) >>= _ = _
  split
  · rw [bind_assoc]
    rfl
  · change Prog.ret (obtained ++ []) = _
    rw [List.append_nil]

theorem dequeuing_eq (obtained : List CanMessage) :
    dequeuing obtained = .call (.queueSize : Section) fun queued : Int =>
      if queued > 0 then popping obtained
      else .ret (obtained ++ [{ CanMessage.zero with valid := false }]) := by
  refine congrArg (Prog.call _) (funext fun queued => ?_)
  change (if queued > 0 then _ else _ : Code CanMessage) >>= _ = _
  split
  · change Prog.call _ _ = Prog.call _ _
    refine congrArg (Prog.call _) (funext fun front => ?_)
    cases front <;> rfl
  · rfl

/-- Where the main loop is; past its first test the queue is not empty. -/
inductive TakePhase (obtained queue : List CanMessage) : Code (List CanMessage) → Prop
  | ended : TakePhase obtained queue (.ret obtained)
  | testing : TakePhase obtained queue (takeTurn obtained)
  | dequeuing (h : queue ≠ []) : TakePhase obtained queue (dequeuing obtained)
  | popping (h : queue ≠ []) : TakePhase obtained queue (popping obtained)

theorem TakePhase.append {obtained queue : List CanMessage} {program : Code (List CanMessage)}
    (h : TakePhase obtained queue program) (pushes : List CanMessage) :
    TakePhase obtained (queue ++ pushes) program := by
  cases h with
  | ended => exact .ended
  | testing => exact .testing
  | dequeuing h => exact .dequeuing (List.append_ne_nil_of_left_ne_nil h pushes)
  | popping h => exact .popping (List.append_ne_nil_of_left_ne_nil h pushes)

structure QueueInv (s : QueueRun) : Prop where
  conserved : s.threads.shared.history.enqueued =
    s.threads.shared.history.dequeued ++ s.queue
  obtained : s.obtained = s.threads.shared.history.dequeued.map markValid
  main : TakePhase s.obtained s.queue (s.threads.current .main)
  handler : ∀ number operation,
    (s.threads.current (.handler number operation)).Uses NoPop

theorem queueInv_initial (typeRegister : TypeRegister) (hash : StringMap) :
    QueueInv (.initial typeRegister hash) where
  conserved := rfl
  obtained := rfl
  main := .ended
  handler _ _ := trivial

/-- The size test of `dequeue` sees a positive count when the queue is not empty. -/
def DequeueShown (s : QueueRun) (event : QueueThread × Env) : Prop :=
  event.1 = .main → s.threads.current .main = dequeuing s.obtained → CountShown s.queue.length

namespace QueueInv

variable {s : QueueRun}

theorem valid (h : QueueInv s) : ∀ msg ∈ s.obtained, msg.valid = true := by
  rw [h.obtained]
  intro msg hmsg
  obtain ⟨front, -, rfl⟩ := List.mem_map.mp hmsg
  rfl

theorem losslessFifo (h : QueueInv s) : LosslessFifo s where
  inOrder := by
    have hvalid : s.obtained.filter CanMessage.valid = s.obtained := by
      refine List.filter_eq_self.mpr fun msg hmsg => h.valid msg hmsg
    rw [hvalid, h.obtained, h.conserved, List.map_append]
    exact List.prefix_append ..
  nonempty thread hhead := by
    cases thread with
    | main =>
        have hmain := h.main
        generalize s.threads.current .main = program at hhead hmain
        cases hmain with
        | ended => cases hhead
        | testing => cases hhead
        | dequeuing hqueue => exact hqueue
        | popping hqueue => exact hqueue
    | handler number operation =>
        have huses := h.handler number operation
        cases hcurrent : s.threads.current (.handler number operation) with
        | ret value => rw [hcurrent] at hhead; cases hhead
        | call op next =>
            rw [hcurrent] at hhead huses
            cases hhead
            exact huses.1.elim
  valid := h.valid

theorem handler_uses (h : QueueInv s) (number : Nat) (operation : Enqueue)
    (event : QueueThread × Env) :
    ((s.step event).threads.current (.handler number operation)).Uses NoPop := by
  refine Pool.uses_step (fun _ => ?_) (h.handler number operation) event
  exact Prog.Uses.bind (uses_enqueue operation) fun _ => trivial

theorem of_main (h : QueueInv s) {env : Env} {program : Code (List CanMessage)} {state : Bridge}
    (hcurrent : (s.step (.main, env)).threads.current .main = program)
    (hshared : (s.step (.main, env)).threads.shared = state)
    (hconserved : state.history.enqueued = state.history.dequeued ++ state.messageQueue)
    (hobtained : program.ended.getD s.obtained = state.history.dequeued.map markValid)
    (hphase : TakePhase (program.ended.getD s.obtained) state.messageQueue program) :
    QueueInv (s.step (.main, env)) := by
  have hlater : (s.step (.main, env)).obtained = program.ended.getD s.obtained :=
    congrArg (fun program : Code _ => program.ended.getD s.obtained) hcurrent
  refine ⟨?_, ?_, ?_, fun number operation => h.handler_uses number operation _⟩
  · rw [QueueRun.queue, hshared]
    exact hconserved
  · rw [hlater, hshared]
    exact hobtained
  · rw [hlater, hcurrent, QueueRun.queue, hshared]
    exact hphase

theorem main_step (h : QueueInv s) (env : Env) (hshown : DequeueShown s (.main, env)) :
    QueueInv (s.step (.main, env)) := by
  let event : QueueThread × Env := (.main, env)
  have hmain := h.main
  generalize hprogram : s.threads.current .main = program at hmain
  cases hmain with
  | ended =>
      exact h.of_main (Pool.current_step_ret event hprogram)
        (Pool.shared_step_ret event hprogram) h.conserved h.obtained .testing
  | testing =>
      rw [takeTurn_eq] at hprogram
      have hcurrent : (s.step event).threads.current .main =
          if asInt s.queue.length > 0 then dequeuing s.obtained else .ret s.obtained := by
        refine (Pool.current_step_call event hprogram).trans ?_
        rw [bridge]
      split at hcurrent
      next hpositive =>
          have hqueue : s.queue ≠ [] := fun hnil => by
            have hhidden := FrameSendQueue.hidden_of_nil hnil
            rw [FrameSendQueue.Hidden] at hhidden
            exact absurd hpositive (Int.not_lt.mpr hhidden)
          exact h.of_main hcurrent (Pool.shared_step_call event hprogram) h.conserved h.obtained
            (.dequeuing hqueue)
      next =>
          exact h.of_main hcurrent (Pool.shared_step_call event hprogram) h.conserved h.obtained
            .ended
  | dequeuing hqueue =>
      have hpositive : asInt s.queue.length > 0 :=
        (asInt_pos_iff (mt List.length_eq_zero_iff.mp hqueue)).mpr (hshown rfl hprogram)
      rw [dequeuing_eq] at hprogram
      have hcurrent : (s.step event).threads.current .main =
          if asInt s.queue.length > 0 then popping s.obtained
          else .ret (s.obtained ++ [{ CanMessage.zero with valid := false }]) := by
        refine (Pool.current_step_call event hprogram).trans ?_
        rw [bridge]
      rw [if_pos hpositive] at hcurrent
      exact h.of_main hcurrent (Pool.shared_step_call event hprogram) h.conserved h.obtained
        (.popping hqueue)
  | popping hqueue =>
      obtain ⟨front, rest, hfront⟩ := List.exists_cons_of_ne_nil hqueue
      have hpop : s.threads.shared.queuePop =
          (some front, s.threads.shared.popped front rest) := by
        simp only [Bridge.queuePop, hfront]
      have hcurrent : (s.step event).threads.current .main =
          .ret (s.obtained ++ [markValid front]) := by
        refine (Pool.current_step_call event hprogram).trans ?_
        simp only [bridge, hpop]
        rfl
      have hshared : (s.step event).threads.shared = s.threads.shared.popped front rest := by
        refine (Pool.shared_step_call event hprogram).trans ?_
        simp only [bridge, hpop]
      refine h.of_main hcurrent hshared ?_ ?_ .ended
      · rw [Bridge.popped_history_enqueued, Bridge.popped_history_dequeued,
          Bridge.popped_messageQueue, h.conserved, hfront, List.append_assoc]
        rfl
      · rw [Bridge.popped_history_dequeued, List.map_append, ← h.obtained]
        rfl

theorem handler_step (h : QueueInv s) (number : Nat) (operation : Enqueue) (env : Env) :
    QueueInv (s.step (.handler number operation, env)) := by
  let event : QueueThread × Env := (.handler number operation, env)
  have hmain : (s.step event).threads.current .main = s.threads.current .main :=
    Pool.current_step_of_ne nofun
  have hobtained : (s.step event).obtained = s.obtained := by
    change ((s.step event).threads.current .main).ended.getD s.obtained = _
    rw [hmain]
    have hphase := h.main
    generalize s.threads.current .main = program at hphase
    cases hphase <;> rfl
  have huses := h.handler number operation
  have hgrows : ∃ pushes, Grows pushes s.threads.shared (s.step event).threads.shared := by
    cases hcurrent : s.threads.current (.handler number operation) with
    | ret value =>
        refine ⟨[], ?_⟩
        rw [show (s.step event).threads.shared = _ from Pool.shared_step_ret event hcurrent]
        exact ⟨(List.append_nil _).symm, (List.append_nil _).symm, rfl⟩
    | call op next =>
        rw [hcurrent] at huses
        refine ⟨pushed op, ?_⟩
        rw [show (s.step event).threads.shared = _ from Pool.shared_step_call event hcurrent]
        exact grows_section huses.1 env _
  obtain ⟨pushes, hgrows⟩ := hgrows
  refine ⟨?_, ?_, ?_, fun number' operation' => h.handler_uses number' operation' event⟩
  · rw [hgrows.enqueued, hgrows.dequeued, QueueRun.queue, hgrows.queue, h.conserved,
      List.append_assoc]
  · rw [hobtained, hgrows.dequeued, h.obtained]
  · rw [hobtained, hmain, QueueRun.queue, hgrows.queue]
    exact h.main.append pushes

theorem step (h : QueueInv s) (event : QueueThread × Env) (hshown : DequeueShown s event) :
    QueueInv (s.step event) := by
  obtain ⟨thread, env⟩ := event
  cases thread with
  | main => exact h.main_step env hshown
  | handler number operation => exact h.handler_step number operation env

end QueueInv

/-- The queue loses nothing in the runs in which `dequeue` sees the size of it. -/
theorem losslessFifo_run (typeRegister : TypeRegister) (hash : StringMap)
    (schedule : List (QueueThread × Env))
    (hshown : Along QueueRun.step DequeueShown (.initial typeRegister hash) schedule) :
    LosslessFifo (runFrom QueueRun.step (.initial typeRegister hash) schedule) :=
  (hshown.invariant QueueInv (fun _ event hevent hinv => hinv.step event hevent)
    (queueInv_initial typeRegister hash)).losslessFifo

/-! ## Short runs -/

theorem length_queue_step (s : QueueRun) (event : QueueThread × Env) :
    (s.step event).queue.length ≤ s.queue.length + 1 := by
  cases hcurrent : s.threads.current event.1 with
  | ret value =>
      rw [QueueRun.queue, show (s.step event).threads.shared = _ from
        Pool.shared_step_ret event hcurrent]
      exact Nat.le_succ _
  | call op next =>
      rw [QueueRun.queue, show (s.step event).threads.shared = _ from
        Pool.shared_step_call event hcurrent]
      cases op with
      | queuePop =>
          change s.threads.shared.queuePop.2.messageQueue.length ≤ _
          rw [Bridge.queuePop]
          cases hqueue : s.threads.shared.messageQueue with
          | nil => simp [hqueue]
          | cons front rest =>
              simp [QueueRun.queue, hqueue]
              omega
      | queuePush msg =>
          change (s.queue ++ [msg]).length ≤ _
          simp
      | _ => exact Nat.le_succ _

theorem countShown_of_lt {n : Nat} (h : n < 2 ^ 31) : CountShown n := by
  rw [CountShown, Nat.mod_eq_of_lt (h.trans (by omega))]
  exact ⟨h, id⟩

theorem along_dequeueShown {s : QueueRun} {schedule : List (QueueThread × Env)}
    (h : s.queue.length + schedule.length < 2 ^ 31) :
    Along QueueRun.step DequeueShown s schedule := by
  induction schedule generalizing s with
  | nil => trivial
  | cons event schedule ih =>
      rw [List.length_cons] at h
      have hstep := length_queue_step s event
      exact ⟨fun _ _ => countShown_of_lt (by omega), ih (by omega)⟩

def twoRequests : List (QueueThread × Env) :=
  let turns : List (QueueThread × Nat) :=
    [(.handler 0 (.bool 200 true), 3), (.main, 2), (.handler 1 (.array 201 [1]), 2),
      (.main, 3), (.handler 1 (.array 201 [1]), 1), (.main, 4)]
  turns.flatMap fun turn => List.replicate turn.2 (turn.1, {})

theorem losslessFifo_twoRequests :
    LosslessFifo (runFrom QueueRun.step (.initial ∅ ∅) twoRequests) :=
  losslessFifo_run ∅ ∅ twoRequests (along_dequeueShown (by decide))

/-! ## A queue that is too long to be counted -/

theorem threads_runFrom (s : QueueRun) (schedule : List (QueueThread × Env)) :
    (runFrom QueueRun.step s schedule).threads =
      runFrom (Pool.step bridge QueueThread.body) s.threads schedule := by
  induction schedule generalizing s with
  | nil => rfl
  | cons event schedule ih => exact ih _

theorem exists_push (pool : QueueThreads)
    (h : pool.current (.handler 0 (.bool 0 false)) = .ret ()) :
    ∃ schedule msg, runFrom (Pool.step bridge QueueThread.body) pool schedule =
      { pool with shared := pool.shared.queuePush msg } := by
  obtain ⟨n, hrun⟩ := Pool.exists_turn bridge QueueThread.body pool _ h {}
  let msg := FrameSendQueue.boolMessage 0 false ({} : Env).uninitialized
  have hbody : (QueueThread.body (.handler 0 (.bool 0 false)) ()).run bridge {} pool.shared =
      ((), pool.shared.queuePush msg) := by
    rw [QueueThread.body, Prog.run_bind, Enqueue.code, FrameSendQueue.run_enqueueBool]
    rfl
  refine ⟨_, msg, hrun.trans ?_⟩
  rw [hbody, ← h, Function.update_eq_self]

theorem exists_pushes (pool : QueueThreads)
    (h : pool.current (.handler 0 (.bool 0 false)) = .ret ()) (n : Nat) :
    ∃ schedule shared, runFrom (Pool.step bridge QueueThread.body) pool schedule =
        { pool with shared } ∧
      shared.messageQueue.length = pool.shared.messageQueue.length + n := by
  induction n with
  | zero => exact ⟨[], pool.shared, rfl, rfl⟩
  | succ n ih =>
      obtain ⟨first, shared, hfirst, hlength⟩ := ih
      obtain ⟨second, msg, hsecond⟩ := exists_push { pool with shared } h
      refine ⟨first ++ second, shared.queuePush msg, ?_, ?_⟩
      · rw [runFrom_append, hfirst, hsecond]
      · rw [Bridge.queuePush_messageQueue, List.length_append, hlength]
        rfl

theorem exists_dequeuing (pool : QueueThreads) {obtained : List CanMessage}
    (h : pool.current .main = .ret obtained) (hqueue : pool.shared.messageQueue ≠ [])
    (hshown : CountShown pool.shared.messageQueue.length) :
    ∃ schedule, runFrom (Pool.step bridge QueueThread.body) pool schedule =
      { pool with current := Function.update pool.current .main (dequeuing obtained) } := by
  let event : QueueThread × Env := (.main, {})
  have hpositive := (asInt_pos_iff (mt List.length_eq_zero_iff.mp hqueue)).mpr hshown
  have hfirst : pool.step bridge QueueThread.body event =
      { pool with current := Function.update pool.current .main (takeTurn obtained) } :=
    Pool.step_ret h
  let testing : QueueThreads :=
    { pool with current := Function.update pool.current .main (takeTurn obtained) }
  have htesting : testing.current .main = .call (.queueSize : Section) fun queued : Int =>
      if queued > 0 then dequeuing obtained else .ret obtained := by
    simp only [testing, Function.update_self, takeTurn_eq]
  have hsecond : testing.step bridge QueueThread.body event = _ := Pool.step_call htesting
  refine ⟨[event, event], ?_⟩
  rw [runFrom_cons, runFrom_cons, runFrom_nil, hfirst, hsecond, bridge]
  rw [if_pos hpositive, Function.update_idem]

theorem current_dequeuing_step {pool : QueueThreads} {obtained : List CanMessage}
    (h : pool.current .main = dequeuing obtained)
    (hqueue : pool.shared.messageQueue ≠ [])
    (hhidden : ¬ CountShown pool.shared.messageQueue.length) :
    (pool.step bridge QueueThread.body (.main, {})).current .main =
      .ret (obtained ++ [{ CanMessage.zero with valid := false }]) := by
  have hnot := mt (asInt_pos_iff (mt List.length_eq_zero_iff.mp hqueue)).mp hhidden
  let event : QueueThread × Env := (.main, {})
  refine (Pool.current_step_call event (h.trans (dequeuing_eq obtained))).trans ?_
  rw [bridge, if_neg hnot]

/-- One push between the two tests of the main loop hides a queue of `n` messages. -/
theorem exists_not_losslessFifo {n : Nat} (hn : n ≠ 0) (hshown : CountShown n)
    (hhidden : ¬ CountShown (n + 1)) (typeRegister : TypeRegister) (hash : StringMap) :
    ∃ schedule, ¬ LosslessFifo
      (runFrom QueueRun.step (.initial typeRegister hash) schedule) := by
  let start := (QueueRun.initial typeRegister hash).threads
  obtain ⟨first, shared, hfirst, hlength⟩ := exists_pushes start rfl n
  have hlength : shared.messageQueue.length = n := hlength.trans (Nat.zero_add n)
  have hqueue : shared.messageQueue ≠ [] := fun hnil => by
    rw [hnil] at hlength
    exact hn hlength.symm
  obtain ⟨second, hsecond⟩ := exists_dequeuing { start with shared } rfl hqueue
    (hlength ▸ hshown)
  obtain ⟨third, msg, hthird⟩ := exists_push
    ⟨shared, Function.update start.current .main (dequeuing [])⟩ rfl
  let before := runFrom QueueRun.step (.initial typeRegister hash) (first ++ second ++ third)
  have hbefore : before.threads = ⟨shared.queuePush msg,
      Function.update start.current .main (dequeuing [])⟩ := by
    rw [threads_runFrom, runFrom_append, runFrom_append, hfirst, hsecond, hthird]
  have hlong : before.queue.length = n + 1 := by
    rw [QueueRun.queue, hbefore, Bridge.queuePush_messageQueue, List.length_append, hlength]
    rfl
  have hdequeuing : before.threads.current .main = dequeuing [] := by
    simp only [hbefore, Function.update_self]
  have hlast := current_dequeuing_step hdequeuing
    (List.ne_nil_of_length_pos (by rw [hlong]; omega)) (by rw [hlong]; exact hhidden)
  let event : QueueThread × Env := (.main, {})
  have hobtained : (before.step event).obtained = [{ CanMessage.zero with valid := false }] :=
    congrArg (fun program : Code _ => program.ended.getD before.obtained) hlast
  refine ⟨first ++ second ++ third ++ [event], fun hlossless => ?_⟩
  rw [runFrom_append, runFrom_cons, runFrom_nil] at hlossless
  have hvalid := hlossless.valid { CanMessage.zero with valid := false }
  rw [hobtained] at hvalid
  cases hvalid (List.mem_singleton_self _)

/-- With 2147483647 messages queued, one push hides the queue from `dequeue`. -/
theorem dequeue_not_lossless :
    ∃ schedule, ¬ LosslessFifo (runFrom QueueRun.step (.initial ∅ ∅) schedule) := by
  obtain ⟨n, hn⟩ : ∃ n, n + 1 = 2 ^ 31 := ⟨2 ^ 31 - 1, by omega⟩
  have hhidden : ¬ CountShown (n + 1) := fun hshown => by
    have hlt := hshown.1
    rw [hn, Nat.mod_eq_of_lt (by omega)] at hlt
    exact lt_irrefl _ hlt
  exact exists_not_losslessFifo (by omega) (countShown_of_lt (by omega)) hhidden ∅ ∅

end Can2Rest.Properties
