import Can2Rest.Accounting
import Can2Rest.Properties.SendRequests

/-!
# From requests to the bus

Every frame on the bus goes back to a request of its own: handlers push at most once,
what they push is what the body asks for, and the main loop sends in the order of the
pushes.
-/

namespace Can2Rest.Properties

open Foundation Shared Account

/-! ## A request pushes once -/

/--
The message of the request in `body`.  The hash is left open, since handlers share the
digest object, and so are the bytes behind the payload.
-/
def Queues (undefined : Binary64.OutOfRange) (body : Bytes) (msg : CanMessage) : Prop :=
  ∃ id payload declared queued, RestApi.Requests (cStr body) id payload ∧
    RestApi.payloadMessage? undefined (key (id.numberValue.toUnsigned undefined)) payload
      declared = some queued ∧
    msg = { queued with hash := msg.hash }

def Pushed : Code (Option Response) → Prop
  | .ret value => value = some RestApi.sendOk
  | .call op next => Pushless op ∧ ∀ result, Pushed (next result)

def Pushing (undefined : Binary64.OutOfRange) (body : Bytes) : Code (Option Response) → Prop
  | .ret value => value ≠ none → ∀ msg, ¬ Queues undefined body msg
  | .call op next =>
      (∀ msg, op = .queuePush msg →
        Queues undefined body msg ∧ ∀ result, Pushed (next result)) ∧
      (Pushless op → ∀ result, Pushing undefined body (next result))

section Pushing

variable {undefined : Binary64.OutOfRange} {body : Bytes}

theorem pushing_perform {op : Section} {next : op.Res → Code (Option Response)}
    (hop : Pushless op) (hnext : ∀ result, Pushing undefined body (next result)) :
    Pushing undefined body (.call op next) :=
  ⟨fun msg heq => absurd heq (hop msg), fun _ => hnext⟩

theorem pushing_push {msg : CanMessage} (h : Queues undefined body msg)
    {next : Unit → Code (Option Response)} (hnext : ∀ result, Pushed (next result)) :
    Pushing undefined body (FrameSendQueue.push msg >>= next) := by
  refine ⟨?_, fun hop => absurd rfl (hop msg)⟩
  rintro _ ⟨⟩
  exact ⟨h, hnext⟩

theorem pushing_digest {owner : ShaOwner} {data : Bytes} {next : Bytes → Code (Option Response)}
    (hnext : ∀ hash, Pushing undefined body (next hash)) :
    Pushing undefined body (digest owner data >>= next) :=
  pushing_perform nofun fun _ => pushing_perform nofun fun _ => pushing_perform nofun hnext

theorem pushing_declareData {next : Vector UInt8 64 → Code (Option Response)}
    (hnext : ∀ declared, Pushing undefined body (next declared)) :
    Pushing undefined body (FrameSendQueue.declareData >>= next) :=
  pushing_perform nofun hnext

theorem pushing_enqueuePayload {id payload : Json} (h : RestApi.Requests (cStr body) id payload) :
    Pushing undefined body
      (RestApi.enqueuePayload undefined (id.numberValue.toUnsigned undefined) payload >>= fun _ =>
        return some RestApi.sendOk) := by
  have hqueues (declared : Vector UInt8 64) {queued msg : CanMessage}
      (hqueued : RestApi.payloadMessage? undefined (key (id.numberValue.toUnsigned undefined))
        payload declared = some queued) (hmsg : msg = { queued with hash := msg.hash }) :
      Queues undefined body msg :=
    ⟨id, payload, declared, queued, h, hqueued, hmsg⟩
  cases payload with
  | int value =>
      simp only [RestApi.enqueuePayload, Json.isNumber, if_true, bind_assoc,
        FrameSendQueue.enqueueInt16]
      refine pushing_declareData fun declared => pushing_digest fun hash => ?_
      exact pushing_push (hqueues declared rfl rfl) fun _ => rfl
  | double value =>
      simp only [RestApi.enqueuePayload, Json.isNumber, if_true, bind_assoc,
        FrameSendQueue.enqueueInt16]
      refine pushing_declareData fun declared => pushing_digest fun hash => ?_
      exact pushing_push (hqueues declared rfl rfl) fun _ => rfl
  | bool value =>
      simp only [RestApi.enqueuePayload, Json.isNumber, Json.isString, Json.isBool,
        Bool.false_eq_true, if_false, if_true, bind_assoc, FrameSendQueue.enqueueBool]
      refine pushing_declareData fun declared => ?_
      exact pushing_push (hqueues declared rfl rfl) fun _ => rfl
  | string value =>
      simp only [RestApi.enqueuePayload, Json.isNumber, Json.isString,
        Bool.false_eq_true, if_false, if_true, bind_assoc, FrameSendQueue.enqueueBytes]
      refine pushing_declareData fun declared => ?_
      exact pushing_push (hqueues declared rfl rfl) fun _ => rfl
  | array items =>
      simp only [RestApi.enqueuePayload, Json.isNumber, Json.isString, Json.isBool,
        Json.isArray, Bool.false_eq_true, if_false, if_true, bind_assoc,
        FrameSendQueue.enqueueArray]
      refine pushing_declareData fun declared => ?_
      exact pushing_push (hqueues declared rfl rfl) fun _ => rfl
  | nul =>
      obtain ⟨members, -, -, -, -, hnull⟩ := h
      cases hnull
  | object members =>
      refine fun _ msg => ?_
      rintro ⟨id', payload', declared, queued, hrequest, hqueued, -⟩
      obtain ⟨-, rfl⟩ := requests_unique h hrequest
      cases hqueued

theorem not_queues (h : ∀ id payload, ¬ RestApi.Requests (cStr body) id payload)
    (msg : CanMessage) : ¬ Queues undefined body msg := by
  rintro ⟨id, payload, -, -, hrequest, -⟩
  exact h id payload hrequest

theorem pushing_postSend (undefined : Binary64.OutOfRange) (body : Bytes) :
    Pushing undefined body (RestApi.postSend undefined body >>= fun response =>
      return some response) := by
  unfold RestApi.postSend
  by_cases hbody : body = []
  · rw [if_pos hbody]
    refine fun _ => not_queues fun id payload hrequest => ?_
    rw [hbody] at hrequest
    exact RestApi.not_requests_nil hrequest
  rw [if_neg hbody]
  cases hparse : Json.parse (cStr body) with
  | error fault =>
      refine fun _ => not_queues fun id payload hrequest => ?_
      obtain ⟨members, hok, -⟩ := hrequest
      rw [hparse] at hok
      cases hok
  | ok root =>
      cases hfields : RestApi.requestFields root.objectItems with
      | none =>
          simp only [hfields]
          refine fun _ => not_queues fun id payload hrequest => ?_
          obtain ⟨root', hok, hsome⟩ := RestApi.requests_iff.mp hrequest
          rw [hparse] at hok
          cases hok
          rw [hfields] at hsome
          cases hsome
      | some fields =>
          simp only [hfields, bind_assoc, pure_bind]
          exact pushing_enqueuePayload (RestApi.requests_iff.mpr ⟨root, hparse, hfields⟩)

end Pushing

/-! ## The pushes of a run -/

structure Post where
  number : Nat
  body : Bytes
  msg : CanMessage

def Post.handler (post : Post) : Nat × Bytes := (post.number, post.body)

def posted (pool : Serving) (event : Thread × Env) : Option Post :=
  match event.1, (pool.current event.1).head with
  | .handler number (.send body), some (.queuePush msg) => some ⟨number, body, msg⟩
  | _, _ => none

theorem eq_of_posted {pool : Serving} {event : Thread × Env} {post : Post}
    (h : posted pool event = some post) :
    event.1 = .handler post.number (.send post.body) ∧
      (pool.current event.1).head = some (.queuePush post.msg) := by
  unfold posted at h
  split at h
  next number body msg hthread hhead =>
    obtain rfl := Option.some.inj h
    exact ⟨hthread, hhead⟩
  next => cases h

/-! ### The queue -/

def Conserved (state : Bridge) : Prop :=
  state.history.enqueued = state.history.dequeued ++ state.messageQueue

theorem conserved_bridge {op : Section} {state : Bridge} (h : Conserved state) (env : Env) :
    Conserved (bridge op env state).2 := by
  cases op with
  | queuePush msg =>
      change state.history.enqueued ++ [msg] =
        state.history.dequeued ++ (state.messageQueue ++ [msg])
      rw [h, List.append_assoc]
  | queuePop =>
      change Conserved state.queuePop.2
      unfold Conserved Bridge.queuePop
      unfold Conserved at h
      cases hqueue : state.messageQueue with
      | nil => simpa [hqueue] using h
      | cons msg rest => simpa [hqueue] using h
  | queueSize => rwa [bridge]
  | _ => exact h

theorem enqueued_bridge {op : Section} (hop : Pushless op) (env : Env)
    (state : Bridge) : (bridge op env state).2.history.enqueued = state.history.enqueued := by
  cases op with
  | queuePush msg => exact absurd rfl (hop msg)
  | queuePop =>
      change state.queuePop.2.history.enqueued = _
      unfold Bridge.queuePop
      split <;> rfl
  | queueSize => rw [bridge]
  | _ => rfl

/-! ### The invariant -/

section Runs

variable {program : Program} {config : ConfigParser} {fr : CanFrame} {posts : List Post}
variable {pool : Serving} {event : Thread × Env}

structure PostsInv (program : Program) (config : ConfigParser) (fr : CanFrame)
    (posts : List Post) (pool : Serving) : Prop where
  accounted : Accounted program config fr pool
  conserved : Conserved pool.shared
  enqueued : pool.shared.history.enqueued = posts.map Post.msg
  distinct : (posts.map Post.handler).Nodup
  encodes : ∀ post ∈ posts, Queues program.undefined post.body post.msg
  pushed : ∀ number body, (number, body) ∈ posts.map Post.handler →
    Pushed (pool.current (.handler number (.send body)))
  pushing : ∀ number body, (number, body) ∉ posts.map Post.handler →
    Pushing program.undefined body (pool.current (.handler number (.send body)))

theorem postsInv_start (program : Program) (config : ConfigParser) (hash : StringMap)
    (fr : CanFrame) : PostsInv program config fr [] (Serving.start config hash fr) where
  accounted := accounted_start program config hash fr
  conserved := rfl
  enqueued := rfl
  distinct := .nil
  encodes := nofun
  pushed := nofun
  pushing _ _ _ h := absurd rfl h

theorem exists_send (h : Accounted program config fr pool) {thread : Thread} {msg : CanMessage}
    {next : Unit → Code (Serving.Local thread)}
    (hcurrent : pool.current thread = .call (.queuePush msg) next) :
    ∃ number body, thread = .handler number (.send body) := by
  have hkeeps := h.keeps thread
  have hallowed := h.consistent.allowed hcurrent
  rw [hcurrent] at hkeeps
  cases thread with
  | main => exact absurd rfl (hkeeps.1 msg)
  | handler number request =>
      cases request with
      | send body => exact ⟨number, body, rfl⟩
      | receive digits => exact hallowed.elim
      | list => exact hallowed.elim
  | worker => exact hkeeps.1.elim
  | server => cases hkeeps.1

theorem Pushed.step {number : Nat} {body : Bytes}
    (h : Pushed (pool.current (.handler number (.send body)))) (event : Thread × Env) :
    Pushed ((Serving.step program pool event).current (.handler number (.send body))) := by
  obtain ⟨thread, env⟩ := event
  by_cases hthread : thread = .handler number (.send body)
  · subst hthread
    cases hcurrent : pool.current (.handler number (.send body)) with
    | ret value =>
        rw [hcurrent] at h
        obtain rfl : value = some RestApi.sendOk := h
        rw [Serving.step, Pool.current_step_ret _ hcurrent]
        rfl
    | call op next =>
        rw [hcurrent] at h
        rw [Serving.step, Pool.current_step_call _ hcurrent]
        exact h.2 _
  · rw [Serving.step, Pool.current_step_of_ne hthread]
    exact h

theorem Pushing.step {number : Nat} {body : Bytes}
    (h : Pushing program.undefined body (pool.current (.handler number (.send body))))
    (hnone : posted pool event = none) :
    Pushing program.undefined body
      ((Serving.step program pool event).current (.handler number (.send body))) := by
  obtain ⟨thread, env⟩ := event
  by_cases hthread : thread = .handler number (.send body)
  · subst hthread
    cases hcurrent : pool.current (.handler number (.send body)) with
    | ret value =>
        rw [Serving.step, Pool.current_step_ret _ hcurrent]
        cases value with
        | none => exact pushing_postSend program.undefined body
        | some response =>
            rw [hcurrent] at h
            exact h
    | call op next =>
        rw [hcurrent] at h
        rw [Serving.step, Pool.current_step_call _ hcurrent]
        refine h.2 ?_ _
        rintro msg rfl
        simp [posted, hcurrent, Prog.head] at hnone
  · rw [Serving.step, Pool.current_step_of_ne hthread]
    exact h

theorem PostsInv.step_none (h : PostsInv program config fr posts pool)
    (hnone : posted pool event = none) :
    PostsInv program config fr posts (Serving.step program pool event) where
  accounted := h.accounted.step event
  conserved := by
    cases hcurrent : pool.current event.1 with
    | ret value =>
        rw [Serving.step, Pool.shared_step_ret event hcurrent]
        exact h.conserved
    | call op next =>
        rw [Serving.step, Pool.shared_step_call event hcurrent]
        exact conserved_bridge h.conserved event.2
  enqueued := by
    cases hcurrent : pool.current event.1 with
    | ret value =>
        rw [Serving.step, Pool.shared_step_ret event hcurrent]
        exact h.enqueued
    | call op next =>
        rw [Serving.step, Pool.shared_step_call event hcurrent]
        refine (enqueued_bridge ?_ event.2 pool.shared).trans h.enqueued
        rintro msg rfl
        obtain ⟨number, body, hthread⟩ := exists_send h.accounted hcurrent
        simp [posted, hcurrent, hthread, Prog.head] at hnone
  distinct := h.distinct
  encodes := h.encodes
  pushed number body hmem := (h.pushed number body hmem).step event
  pushing number body hmem := (h.pushing number body hmem).step hnone

theorem PostsInv.step_some (h : PostsInv program config fr posts pool) {post : Post}
    (hsome : posted pool event = some post) :
    PostsInv program config fr (posts ++ [post]) (Serving.step program pool event) := by
  obtain ⟨thread, env⟩ := event
  obtain ⟨hthread, hhead⟩ := eq_of_posted hsome
  obtain ⟨number, body, msg⟩ := post
  obtain rfl : thread = .handler number (.send body) := hthread
  cases hcurrent : pool.current (.handler number (.send body)) with
  | ret value =>
      rw [hcurrent] at hhead
      cases hhead
  | call op next =>
      rw [hcurrent] at hhead
      obtain rfl : op = .queuePush msg := Option.some.inj hhead
      have hnew : (number, body) ∉ posts.map Post.handler := by
        intro hmem
        have hpushed := h.pushed number body hmem
        rw [hcurrent] at hpushed
        exact hpushed.1 msg rfl
      have hpushing := h.pushing number body hnew
      rw [hcurrent] at hpushing
      obtain ⟨hqueues, hpushed⟩ := hpushing.1 msg rfl
      have hshared : (Serving.step program pool
          (Thread.handler number (.send body), env)).shared = pool.shared.queuePush msg :=
        Pool.shared_step_call (Thread.handler number (.send body), env) hcurrent
      refine ⟨h.accounted.step _, ?_, ?_, ?_, ?_, fun number' body' hmem => ?_,
        fun number' body' hmem => ?_⟩
      · rw [hshared]
        have hconserved : Conserved (bridge (.queuePush msg) env pool.shared).2 :=
          conserved_bridge h.conserved env
        exact hconserved
      · rw [hshared, List.map_append, ← h.enqueued]
        rfl
      · rw [List.map_append]
        refine List.nodup_append.mpr ⟨h.distinct, List.pairwise_singleton _ _, ?_⟩
        rintro first hfirst second hsecond rfl
        obtain rfl : first = (number, body) := List.mem_singleton.mp hsecond
        exact hnew hfirst
      · intro other hother
        rcases List.mem_append.mp hother with hold | hself
        · exact h.encodes other hold
        · rw [List.mem_singleton.mp hself]
          exact hqueues
      · rw [List.map_append] at hmem
        rcases List.mem_append.mp hmem with hold | hself
        · exact (h.pushed number' body' hold).step _
        · obtain ⟨rfl, rfl⟩ := Prod.mk.inj (List.mem_singleton.mp hself)
          rw [Serving.step, Pool.current_step_call _ hcurrent]
          exact hpushed _
      · rw [List.map_append] at hmem
        have hold : (number', body') ∉ posts.map Post.handler :=
          fun hin => hmem (List.mem_append.mpr (.inl hin))
        have hne : Thread.handler number (.send body) ≠ .handler number' (.send body') := by
          intro heq
          cases heq
          exact hmem (List.mem_append.mpr (.inr (List.mem_singleton.mpr rfl)))
        rw [Serving.step, Pool.current_step_of_ne hne]
        exact h.pushing number' body' hold

theorem PostsInv.run (h : PostsInv program config fr posts pool)
    (schedule : List (Thread × Env)) :
    PostsInv program config fr
      (posts ++ observed (Serving.step program) posted pool schedule)
      (runFrom (Serving.step program) pool schedule) := by
  induction schedule generalizing posts pool with
  | nil =>
      rw [observed, List.append_nil]
      exact h
  | cons event schedule ih =>
      rw [observed, ← List.append_assoc, runFrom_cons]
      refine ih ?_
      cases hposted : posted pool event with
      | none =>
          rw [Option.toList_none, List.append_nil]
          exact h.step_none hposted
      | some post => exact h.step_some hposted

end Runs

/-- A request is in the log if its body asks for a frame, and only then. -/
def Answered (undefined : Binary64.OutOfRange) (posts : List Post) (number : Nat) (body : Bytes)
    (response : Response) : Prop :=
  ((number, body) ∈ posts.map Post.handler ∧ response = RestApi.sendOk) ∨
    ((number, body) ∉ posts.map Post.handler ∧ ∀ msg, ¬ Queues undefined body msg)

theorem posts_to_bus (program : Program) (config : ConfigParser) (hash : StringMap)
    (fr : CanFrame) (schedule : List (Thread × Env)) :
    let start := Serving.start config hash fr
    let posts := observed (Serving.step program) posted start schedule
    let pool := runFrom (Serving.step program) start schedule
    (posts.map Post.handler).Nodup ∧
    (∀ post ∈ posts, Queues program.undefined post.body post.msg) ∧
    pool.shared.history.enqueued = posts.map Post.msg ∧
    pool.shared.history.transmitted.Sublist (posts.map fun post => post.msg.frame.transmit) ∧
    ∀ number body response, Serving.answer pool number (.send body) = some response →
      Answered program.undefined posts number body response := by
  intro start posts pool
  have h : PostsInv program config fr posts pool :=
    (postsInv_start program config hash fr).run schedule
  refine ⟨h.distinct, h.encodes, h.enqueued, ?_, fun number body response hanswer => ?_⟩
  · obtain ⟨account, ⟨hinOrder, -⟩, hagrees⟩ := h.accounted.within
    rw [hagrees.transmitted]
    refine List.Sublist.trans hinOrder ?_
    have hstart : account.dequeued <+: posts.map Post.msg := by
      rw [← hagrees.dequeued, ← h.enqueued]
      exact ⟨_, h.conserved.symm⟩
    have hsublist := (hstart.sublist).map fun msg => msg.frame.transmit
    rwa [List.map_map] at hsublist
  · unfold Serving.answer at hanswer
    cases hcurrent : pool.current (.handler number (.send body)) with
    | call op next =>
        rw [hcurrent] at hanswer
        cases hanswer
    | ret value =>
        rw [hcurrent] at hanswer
        obtain rfl : value = some response := hanswer
        by_cases hmem : (number, body) ∈ posts.map Post.handler
        · have hpushed := h.pushed number body hmem
          rw [hcurrent] at hpushed
          exact .inl ⟨hmem, Option.some.inj hpushed⟩
        · have hpushing := h.pushing number body hmem
          rw [hcurrent] at hpushing
          exact .inr ⟨hmem, hpushing nofun⟩

end Can2Rest.Properties
