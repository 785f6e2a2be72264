import Can2Rest.Properties.SendQueue

/-!
# The shared digest of the send queue

`enqueue_int16` resets, extends and reads one digest object that all handlers
share, outside the lock of the queue.
-/

namespace Can2Rest.Properties

open Foundation Shared

/-- Every integer message that was pushed carries the digest of its own data. -/
def OwnHashes (state : Bridge) : Prop :=
  ∀ msg ∈ state.history.enqueued, msg.type = .int → msg.hash = sha256 msg.frame.payload

instance (state : Bridge) : Decidable (OwnHashes state) := by
  unfold OwnHashes
  infer_instance

/-- A call that changes the digest object. -/
def changesDigest : Section → Bool
  | .shaReset .frameQueue => true
  | .shaAdd .frameQueue _ => true
  | _ => false

def inDigest : Section → Bool
  | .shaAdd .frameQueue _ => true
  | .shaGetHash .frameQueue => true
  | _ => false

/-- The digest object is changed only while no other handler is between reset and result. -/
def DigestAlone (pool : QueueThreads) (event : QueueThread × Env) : Prop :=
  (pool.current event.1).head.any changesDigest = true →
    ∀ other, other ≠ event.1 → (pool.current other).head.any inDigest = false

/-! ## The contract of a handler -/

/--
Others leave the digest object alone while it is in use, and the integer
messages that are pushed have their own hash.
-/
def hashing : Contract Sections Bridge where
  rely op before after :=
    op.any inDigest = true → after.sha256 .frameQueue = before.sha256 .frameQueue
  may _ _ := True
  guarantee op _ := ∀ msg, op = .queuePush msg → msg.type = .int →
    msg.hash = sha256 msg.frame.payload

theorem hashing_refl (op : Option Section) (state : Bridge) : hashing.rely op state state :=
  fun _ => rfl

theorem hashing_trans {op : Option Section} {a b c : Bridge} (hab : hashing.rely op a b)
    (hbc : hashing.rely op b c) : hashing.rely op a c :=
  fun h => (hbc h).trans (hab h)

theorem ensures_digest_frameQueue (data : Bytes) (state : Bridge) :
    (digest .frameQueue data).Ensures bridge hashing (fun hash _ => hash = sha256 data)
      state := by
  intro first _
  refine ⟨nofun, fun _ _ second hsecond => ⟨nofun, fun _ _ third hthird => ?_⟩⟩
  refine ⟨nofun, fun _ _ => ?_⟩
  have hreset : second.sha256 .frameQueue = .reset :=
    (hsecond rfl).trans (Bridge.sha256_setSha ..)
  have hadd : third.sha256 .frameQueue = SHA256.reset.add data := by
    rw [← hreset]
    exact (hthird rfl).trans (Bridge.sha256_setSha ..)
  intro last _
  change (third.sha256 .frameQueue).getHash = sha256 data
  rw [hadd, sha256]

theorem ensures_pushed {msg : CanMessage}
    (hmsg : msg.type = .int → msg.hash = sha256 msg.frame.payload) (state : Bridge) :
    (FrameSendQueue.push msg >>= fun _ => return true : Code Bool).Ensures bridge hashing
      (fun _ _ => True) state := by
  refine fun _ _ => ⟨?_, fun _ _ _ _ => trivial⟩
  rintro _ ⟨⟩
  exact hmsg

theorem ensures_declared {next : Vector UInt8 64 → Code Bool}
    (hnext : ∀ declared state, (next declared).Ensures bridge hashing (fun _ _ => True) state)
    (state : Bridge) :
    (FrameSendQueue.declareData >>= next).Ensures bridge hashing (fun _ _ => True) state :=
  fun _ _ => ⟨nofun, fun _ _ => hnext _ _⟩

theorem ensures_enqueue (operation : Enqueue) (state : Bridge) :
    operation.code.Ensures bridge hashing (fun _ _ => True) state := by
  cases operation with
  | int16 id value =>
      refine ensures_declared (fun declared state => ?_) state
      refine (ensures_digest_frameQueue _ state).bind (hashing_refl none)
        fun hash state hhash => ?_
      exact ensures_pushed (fun _ => hhash) state
  | bool id value => exact ensures_declared (fun _ => ensures_pushed fun h => by cases h) state
  | bytes id value => exact ensures_declared (fun _ => ensures_pushed fun h => by cases h) state
  | array id value => exact ensures_declared (fun _ => ensures_pushed fun h => by cases h) state

theorem uses_takeTurn (obtained : List CanMessage) :
    (takeTurn obtained).Uses (Threads.MainSection []) := by
  refine Prog.Uses.bind (Prog.Uses.bind (Threads.uses_main_perform trivial) fun queued => ?_)
    fun _ => trivial
  split
  · exact Prog.Uses.bind (Threads.uses_dequeue trivial trivial) fun _ => trivial
  · trivial

theorem ensures_takeTurn (obtained : List CanMessage) (state : Bridge) :
    (takeTurn obtained).Ensures bridge hashing (fun _ _ => True) state := by
  refine (uses_takeTurn obtained).ensures (fun _ _ _ => trivial) ?_ (fun _ _ _ _ _ _ => trivial)
    trivial
  rintro _ _ hmain _ _ rfl
  exact hmain.elim

theorem ensures_body (thread : QueueThread) (value : thread.Local) (state : Bridge) :
    (thread.body value).Ensures bridge hashing (fun _ _ => True) state := by
  cases thread with
  | main => exact ensures_takeTurn value state
  | handler number operation =>
      exact (ensures_enqueue operation state).bind (hashing_refl none) fun _ _ _ _ _ => trivial

/-! ## The invariant -/

theorem sha256_of_not_changes {op : Section} (h : changesDigest op = false) (env : Env)
    (state : Bridge) :
    (bridge op env state).2.sha256 .frameQueue = state.sha256 .frameQueue := by
  have hother : ∀ {owner : ShaOwner} (sha : SHA256), owner ≠ .frameQueue →
      (state.setSha owner sha).sha256 .frameQueue = state.sha256 .frameQueue :=
    fun _ hne => Function.update_of_ne hne.symm ..
  cases op with
  | shaReset owner =>
      cases owner with
      | frameQueue => cases h
      | _ => exact hother _ (by decide)
  | shaAdd owner data =>
      cases owner with
      | frameQueue => cases h
      | _ => exact hother _ (by decide)
  | queuePop =>
      exact congrFun state.sha256_queuePop .frameQueue
  | _ => rfl

theorem enqueued_section (op : Section) (env : Env) (state : Bridge) :
    (bridge op env state).2.history.enqueued = state.history.enqueued ++ pushed op := by
  cases op with
  | queuePush msg => rfl
  | queuePop =>
      change state.queuePop.2.history.enqueued = _
      rw [Bridge.queuePop]
      split <;> exact (List.append_nil _).symm
  | _ => exact (List.append_nil _).symm

structure DigestInv (pool : QueueThreads) : Prop where
  hashes : OwnHashes pool.shared
  ensures : ∀ thread, (pool.current thread).Ensures bridge hashing (fun _ _ => True) pool.shared

theorem digestInv_initial (typeRegister : TypeRegister) (hash : StringMap) :
    DigestInv (QueueRun.initial typeRegister hash).threads where
  hashes := by
    intro msg hmsg
    cases hmsg
  ensures thread := by
    cases thread <;> exact fun _ _ => trivial

theorem DigestInv.hashes_step {pool : QueueThreads} (h : DigestInv pool)
    (event : QueueThread × Env) :
    OwnHashes (pool.step bridge QueueThread.body event).shared := by
  have hensures := h.ensures event.1
  cases hcurrent : pool.current event.1 with
  | ret value =>
      rw [Pool.shared_step_ret event hcurrent]
      exact h.hashes
  | call op next =>
      rw [hcurrent] at hensures
      rw [Pool.shared_step_call event hcurrent]
      intro msg hmsg htype
      rw [enqueued_section, List.mem_append] at hmsg
      rcases hmsg with hold | hnew
      · exact h.hashes msg hold htype
      · cases op with
        | queuePush pushedMsg =>
            obtain rfl : msg = pushedMsg := List.mem_singleton.mp hnew
            exact (hensures _ (hashing_refl _ _)).1 msg rfl htype
        | _ => cases hnew

theorem digest_rely_step {pool : QueueThreads} {event : QueueThread × Env}
    (halone : DigestAlone pool event) {thread : QueueThread} (hthread : event.1 ≠ thread) :
    hashing.rely (pool.current thread).head pool.shared
      (pool.step bridge QueueThread.body event).shared := by
  intro hin
  cases hcurrent : pool.current event.1 with
  | ret value => rw [Pool.shared_step_ret event hcurrent]
  | call op next =>
      rw [Pool.shared_step_call event hcurrent]
      refine sha256_of_not_changes (Bool.eq_false_iff.mpr fun hchanges => ?_) event.2 pool.shared
      have hother := halone (by rw [hcurrent]; exact hchanges) thread hthread.symm
      rw [hother] at hin
      cases hin

theorem DigestInv.step {pool : QueueThreads} (h : DigestInv pool) (event : QueueThread × Env)
    (halone : DigestAlone pool event) :
    DigestInv (pool.step bridge QueueThread.body event) where
  hashes := h.hashes_step event
  ensures thread :=
    Pool.ensures_step (fun op state => hashing_refl op state) hashing_trans
      (fun value state _ => ensures_body thread value state) (fun _ _ _ => trivial)
      (digest_rely_step halone) (h.ensures thread)

/-- Handlers that use the digest object one after the other do not disturb each other. -/
theorem ownHashes_run (typeRegister : TypeRegister) (hash : StringMap)
    (schedule : List (QueueThread × Env))
    (halone : Along (Pool.step bridge QueueThread.body) DigestAlone
      (QueueRun.initial typeRegister hash).threads schedule) :
    OwnHashes (runFrom (Pool.step bridge QueueThread.body)
      (QueueRun.initial typeRegister hash).threads schedule).shared :=
  (halone.invariant DigestInv (fun _ event hevent hinv => hinv.step event hevent)
    (digestInv_initial typeRegister hash)).hashes

def DigestAloneAmong (threads : List QueueThread) (pool : QueueThreads)
    (event : QueueThread × Env) : Prop :=
  (pool.current event.1).head.any changesDigest = true →
    ∀ other ∈ threads, other ≠ event.1 → (pool.current other).head.any inDigest = false

instance (threads : List QueueThread) (pool : QueueThreads) (event : QueueThread × Env) :
    Decidable (DigestAloneAmong threads pool event) := by
  unfold DigestAloneAmong
  infer_instance

theorem along_digestAlone {threads : List QueueThread} {schedule : List (QueueThread × Env)}
    (hschedule : ∀ event ∈ schedule, event.1 ∈ threads) {pool : QueueThreads}
    (hidle : ∀ other ∉ threads, (pool.current other).head = none)
    (h : Along (Pool.step bridge QueueThread.body) (DigestAloneAmong threads) pool schedule) :
    Along (Pool.step bridge QueueThread.body) DigestAlone pool schedule := by
  induction schedule generalizing pool with
  | nil => trivial
  | cons event schedule ih =>
      have hevent : event.1 ∈ threads := hschedule event List.mem_cons_self
      have hrest : ∀ e ∈ schedule, e.1 ∈ threads :=
        fun e he => hschedule e (List.mem_cons_of_mem _ he)
      refine ⟨fun hchanges other hother => ?_, ih hrest (fun other hother => ?_) h.2⟩
      · by_cases hmem : other ∈ threads
        · exact h.1 hchanges other hmem hother
        · rw [hidle other hmem]
          rfl
      · have hne : event.1 ≠ other := fun heq => hother (heq ▸ hevent)
        rw [Pool.current_step_of_ne hne]
        exact hidle other hother

/-- The first handler gets its hash, and pushes while the second one computes its own. -/
def twoEncoders : List (QueueThread × Env) :=
  let turns : List (QueueThread × Nat) :=
    [(.handler 0 (.int16 200 1), 2), (.handler 1 (.int16 201 2), 2),
      (.handler 0 (.int16 200 1), 3), (.handler 1 (.int16 201 2), 2),
      (.handler 0 (.int16 200 1), 1), (.handler 1 (.int16 201 2), 2)]
  turns.flatMap fun turn => List.replicate turn.2 (turn.1, {})

theorem ownHashes_twoEncoders :
    let pool := runFrom (Pool.step bridge QueueThread.body)
      (QueueRun.initial ∅ ∅).threads twoEncoders
    OwnHashes pool.shared ∧ pool.shared.history.enqueued.length = 2 := by
  let threads : List QueueThread := [.handler 0 (.int16 200 1), .handler 1 (.int16 201 2)]
  have hschedule : ∀ event ∈ twoEncoders, event.1 ∈ threads := by decide
  have hidle (other : QueueThread) (_ : other ∉ threads) :
      ((QueueRun.initial ∅ ∅).threads.current other).head = none := by
    cases other <;> rfl
  exact ⟨ownHashes_run ∅ ∅ twoEncoders
    (along_digestAlone hschedule hidle (by decide +kernel)), by decide +kernel⟩

/-- A handler that resets the digest object between `add` and `getHash` of another. -/
def resetBetween : List (QueueThread × Env) :=
  let turns : List (QueueThread × Nat) :=
    [(.handler 0 (.int16 200 1), 4), (.handler 1 (.int16 201 2), 3),
      (.handler 0 (.int16 200 1), 2)]
  turns.flatMap fun turn => List.replicate turn.2 (turn.1, {})

theorem resetBetween_mixes_hashes :
    ¬ OwnHashes (runFrom (Pool.step bridge QueueThread.body)
      (QueueRun.initial ∅ ∅).threads resetBetween).shared := by
  decide +kernel

end Can2Rest.Properties
