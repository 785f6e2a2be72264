import Can2Rest.Properties.Reads

/-!
# Requests take few steps

A handler executes a bounded number of sections for its request, whatever the other
threads do in between.
-/

namespace Can2Rest.Properties

open Foundation Shared

/-- The sections that a handler executes at most, of which three make a digest. -/
def sectionsOf : Request → Nat
  | .send _ => 5
  | .receive _ => 7
  | .list => 1

section Handlers

variable (undefined : Binary64.OutOfRange)

theorem within_digest (owner : ShaOwner) (data : Bytes) : (digest owner data).Within 3 :=
  ((Prog.within_perform _).bind fun _ => (Prog.within_perform _).bind fun _ =>
    Prog.within_perform _).mono le_rfl

theorem within_push (msg : CanMessage) : (FrameSendQueue.push msg).Within 1 :=
  Prog.within_perform _

theorem within_declareData : FrameSendQueue.declareData.Within 1 := Prog.within_perform _

theorem within_enqueuePayload (id : UInt32) (payload : Json) :
    (RestApi.enqueuePayload undefined id payload).Within 5 := by
  have hplain {message : Vector UInt8 64 → CanMessage} :
      (FrameSendQueue.declareData >>= fun data =>
        FrameSendQueue.push (message data) >>= fun _ => pure true).Within 2 :=
    (within_declareData.bind fun _ => (within_push _).bind fun _ =>
      Prog.within_pure true).mono le_rfl
  have hhashed {bytes : Vector UInt8 64 → Bytes}
      {message : Vector UInt8 64 → Bytes → CanMessage} :
      (FrameSendQueue.declareData >>= fun data => digest .frameQueue (bytes data) >>= fun hash =>
        FrameSendQueue.push (message data hash) >>= fun _ => pure true).Within 5 :=
    (within_declareData.bind fun _ => (within_digest _ _).bind fun _ => (within_push _).bind
      fun _ => Prog.within_pure true).mono le_rfl
  have hdone {program : Code Bool} {count : Nat} (h : program.Within count) (hle : count ≤ 5) :
      (program >>= fun _ => pure ()).Within 5 :=
    (h.bind fun _ => Prog.within_pure ()).mono hle
  unfold RestApi.enqueuePayload
  split
  · exact hdone hhashed le_rfl
  split
  · exact hdone hplain (by decide)
  split
  · exact hdone hplain (by decide)
  split
  · exact hdone hplain (by decide)
  · trivial

theorem within_postSend (body : Bytes) : (RestApi.postSend undefined body).Within 5 := by
  unfold RestApi.postSend
  split
  · trivial
  split
  · trivial
  split
  · trivial
  · exact ((within_enqueuePayload undefined _ _).bind fun _ => Prog.within_pure _).mono le_rfl

theorem within_get (id : UInt16) : (CanHashtable.get id).Within 2 := by
  refine Prog.Within.mono
    ((Prog.within_perform _).bind fun found => (?_ : Prog.Within _ 1)) le_rfl
  split
  · exact ((Prog.within_perform _).bind fun _ => Prog.within_pure _).mono le_rfl
  · trivial

theorem within_convertFrame (msg : CanMessage) : (CanFrameToJson.convertFrame msg).Within 5 := by
  have hhash : (CanFrameToJson.reportedHash msg).Within 3 := by
    unfold CanFrameToJson.reportedHash
    split
    · exact within_digest _ _
    · trivial
  exact ((Prog.within_perform _).bind fun _ => (Prog.within_perform _).bind fun _ =>
    hhash.bind fun _ => Prog.within_pure _).mono le_rfl

theorem within_request (request : Request) :
    (request.code undefined).Within (sectionsOf request) := by
  cases request with
  | send body => exact within_postSend undefined body
  | receive digits =>
      refine Prog.Within.mono ((within_get _).bind fun msg => (?_ : Prog.Within _ 5)) le_rfl
      split
      · exact ((within_convertFrame msg).bind fun _ => Prog.within_pure _).mono le_rfl
      · trivial
  | list => exact ((Prog.within_perform _).bind fun _ => Prog.within_pure _).mono le_rfl

end Handlers

/-- The handler has at most this many steps to go: it has yet to begin, or gives an answer. -/
inductive Remaining (request : Request) (steps : Nat) : Code (Option Response) → Prop
  | waiting (hsteps : sectionsOf request < steps) : Remaining request steps (.ret none)
  | answering (rest : Code Response) (hrest : rest.Within steps) :
      Remaining request steps (rest >>= fun response => .ret (some response))

section Steps

variable {program : Program} {pool : Serving} {number : Nat} {request : Request}
variable {steps : Nat} {code : Code (Option Response)}

theorem Remaining.ended (h : Remaining request 0 code) :
    ∃ response, code = .ret (some response) := by
  cases h with
  | waiting hsteps => exact absurd hsteps (Nat.not_lt_zero _)
  | answering rest hrest =>
      obtain ⟨response, rfl⟩ := hrest.ended
      exact ⟨response, rfl⟩

/-- A step of the handler is one of those that it has to go. -/
theorem Remaining.step (env : Env)
    (h : Remaining request (steps + 1) (pool.current (.handler number request))) :
    Remaining request steps
      ((Serving.step program pool (.handler number request, env)).current
        (.handler number request)) := by
  generalize hcode : pool.current (.handler number request) = code at h
  cases h with
  | waiting hsteps =>
      rw [Serving.step, Pool.current_step_ret (Thread.handler number request, env) hcode]
      refine .answering (request.code program.undefined) ?_
      exact (within_request program.undefined request).mono (Nat.le_of_lt_succ hsteps)
  | answering rest hrest =>
      cases rest with
      | ret response =>
          rw [Serving.step, Pool.current_step_ret (Thread.handler number request, env) hcode]
          exact .answering (.ret response) trivial
      | call op next =>
          rw [Serving.step, Pool.current_step_call (Thread.handler number request, env) hcode]
          exact .answering (next _) (hrest _)

theorem Remaining.run (schedule : List (Thread × Env))
    (h : Remaining request (steps + schedule.countP (·.1 = .handler number request))
      (pool.current (.handler number request))) :
    Remaining request steps
      ((runFrom (Serving.step program) pool schedule).current (.handler number request)) := by
  induction schedule generalizing pool with
  | nil => exact h
  | cons event schedule ih =>
      rw [runFrom_cons]
      apply ih
      by_cases hthread : event.1 = .handler number request
      · obtain ⟨thread, env⟩ := event
        obtain rfl : thread = .handler number request := hthread
        rw [List.countP_cons_of_pos (by simp), ← Nat.add_assoc] at h
        exact h.step env
      · rw [List.countP_cons_of_neg (by simpa using hthread)] at h
        rw [Serving.step, Pool.current_step_of_ne hthread]
        exact h

theorem answered_run {response : Response} (schedule : List (Thread × Env))
    (h : pool.current (.handler number request) = .ret (some response)) :
    (runFrom (Serving.step program) pool schedule).current (.handler number request) =
      .ret (some response) := by
  refine runFrom_invariant
    (fun pool : Serving => pool.current (.handler number request) = .ret (some response))
    (fun pool event h => ?_) pool schedule h
  by_cases hthread : event.1 = .handler number request
  · obtain ⟨thread, env⟩ := event
    obtain rfl : thread = .handler number request := hthread
    exact Pool.current_step_ret (Thread.handler number request, env) h
  · exact (Pool.current_step_of_ne hthread).trans h

end Steps

/--
A handler that has begun and executed the sections of its request has answered, and keeps
its answer.
-/
theorem answered_within (program : Program) (config : ConfigParser) (hash : StringMap)
    (fr : CanFrame) (number : Nat) (request : Request) {schedule : List (Thread × Env)}
    (hschedule : sectionsOf request < schedule.countP (·.1 = .handler number request)) :
    ∃ response, ∀ more,
      Serving.answer (runFrom (Serving.step program) (Serving.start config hash fr)
        (schedule ++ more)) number request = some response := by
  have hremaining : Remaining request 0 ((runFrom (Serving.step program)
      (Serving.start config hash fr) schedule).current (.handler number request)) := by
    apply Remaining.run
    rw [Nat.zero_add]
    exact .waiting hschedule
  obtain ⟨response, hresponse⟩ := hremaining.ended
  refine ⟨response, fun more => ?_⟩
  rw [runFrom_append, Serving.answer, answered_run more hresponse]
  rfl

theorem receive_answered_within :
    let request : Request := .receive (ascii "200")
    let schedule := storedOnce ++ askedMeanwhile ++ [(.handler 0 request, ({} : Env))]
    ∃ response, ∀ more, Serving.answer (runFrom (Serving.step .acceptAll)
      (Serving.start (.loadConfigFile ∅) ∅ CanMessage.zero.frame) (schedule ++ more)) 0 request =
        some response := by
  intro request schedule
  exact answered_within .acceptAll _ ∅ _ 0 request (by decide +kernel)

end Can2Rest.Properties
