import Can2Rest.Properties.Addressing
import Can2Rest.Serving

/-!
# Answers to requests

A request takes several sections, and the main loop goes on in between.  What is
answered is nevertheless read off from states that the bridge was in while the request
was in progress.
-/

namespace Can2Rest.Properties

open Foundation Shared Serving CanFrameToJson

/-! ## The answers -/

/-- The record in one state, under the type in another. -/
def receiveAnswer (found typed : Bridge) (digits : Bytes) : Response :=
  match found.mp[RestApi.requestKey digits]? with
  | some msg => { status := 200, body := (RestApi.document typed.typeRegister msg).dump }
  | none => RestApi.notPresent

def listAnswer (listed : Bridge) : Response :=
  RestApi.content [(ascii "can_frame_ids", .array (listed.mp.keys.map fun id => .int id.toNat))]

/-- The answer to `POST /send` depends on the body alone. -/
def sendAnswer (body : Bytes) : Response :=
  if body = [] then RestApi.errorResponse (ascii "post body empty")
  else
    match Json.parse (cStr body) with
    | .error _ => RestApi.errorResponse (ascii "json parse failed")
    | .ok root =>
        match RestApi.requestFields root.objectItems with
        | none => RestApi.errorResponse (ascii "no json field: id or payload")
        | some _ => RestApi.sendOk

def Answers (moment : Bridge → Prop) : Request → Response → Prop
  | .send body, response => response = sendAnswer body
  | .receive digits, response =>
      ∃ found typed, moment found ∧ moment typed ∧ response = receiveAnswer found typed digits
  | .list, response => ∃ listed, moment listed ∧ response = listAnswer listed

/-! ## The contract of a request -/

/-- The calls are made in the given states, and no record is removed. -/
def looking (moment : Bridge → Prop) : Contract Sections Bridge where
  rely _ before after := ∀ id ∈ before.mp, id ∈ after.mp
  may _ state := moment state ∧ Filed state.mp
  guarantee _ _ := True

section Looking

variable {moment : Bridge → Prop} {state : Bridge}

theorem looking_refl (op : Option Section) (state : Bridge) :
    (looking moment).rely op state state :=
  fun _ h => h

theorem looking_trans {op : Option Section} {a b c : Bridge}
    (hab : (looking moment).rely op a b) (hbc : (looking moment).rely op b c) :
    (looking moment).rely op a c :=
  fun id h => hbc id (hab id h)

theorem looking_get (id : UInt16) (state : Bridge) :
    (CanHashtable.get id).Ensures bridge (looking moment)
      (fun msg _ => ∃ found, moment found ∧ Filed found.mp ∧
        msg = CanHashtable.getResult found.mp id) state := by
  intro checked _
  refine ⟨trivial, fun hchecked _ => ?_⟩
  change Prog.Ensures _ _ _ (ite (checked.mp.contains id = true) _ _) checked
  split
  next hfound =>
    intro copied hcopied
    refine ⟨trivial, fun hmoment _ last _ => ?_⟩
    have hmem := hcopied id (Std.ExtTreeMap.contains_iff_mem.mp hfound)
    have hstored := Std.ExtTreeMap.getElem?_eq_some_getElem hmem
    refine ⟨copied, hmoment.1, hmoment.2, ?_⟩
    have hindex := mapIndex_of_some hstored CanMessage.zero
    simp only [bridge, hindex, CanHashtable.getResult, hstored]
  next hmissing =>
    intro last _
    refine ⟨checked, hchecked.1, hchecked.2, ?_⟩
    cases hstored : checked.mp[id]? with
    | none => rw [CanHashtable.getResult, hstored]
    | some msg =>
        rw [Std.ExtTreeMap.contains_eq_isSome_getElem?, hstored] at hmissing
        exact absurd rfl hmissing

theorem looking_convertFrame {msg : CanMessage} (hhash : msg.hash ≠ []) (state : Bridge) :
    (CanFrameToJson.convertFrame msg).Ensures bridge (looking moment)
      (fun text _ => ∃ typed, moment typed ∧
        text = messageText (registeredType typed.typeRegister (key msg.frame.id)) msg) state := by
  refine fun found _ => ⟨trivial, fun _ _ => ?_⟩
  refine fun typed _ => ⟨trivial, fun hmoment env => ?_⟩
  have hindex : (bridge (.typeIndex (key msg.frame.id)) env typed).1 =
      registeredType typed.typeRegister (key msg.frame.id) := by
    rw [registeredType, ← mapIndex_fst]
    rfl
  rw [hindex]
  change Prog.Ensures _ _ _ (CanFrameToJson.reportedHash msg >>= _) _
  rw [CanFrameToJson.reportedHash, if_neg hhash]
  refine fun last _ => ⟨typed, hmoment.1, ?_⟩
  rw [messageText, messageJson, messageHash, if_neg hhash]

theorem looking_receive (digits : Bytes) (state : Bridge) :
    (RestApi.receive (some digits)).Ensures bridge (looking moment)
      (fun response _ => Answers moment (.receive digits) response) state := by
  refine (looking_get (RestApi.requestKey digits) state).bind (looking_refl none) ?_
  rintro _ later ⟨found, hmoment, hfiled, rfl⟩
  cases hstored : found.mp[RestApi.requestKey digits]? with
  | none =>
      have hresult : CanHashtable.getResult found.mp (RestApi.requestKey digits) =
          { CanMessage.zero with valid := false } := by
        rw [CanHashtable.getResult, hstored]
      rw [hresult]
      refine fun last _ => ⟨found, found, hmoment, hmoment, ?_⟩
      rw [receiveAnswer, hstored]
      rfl
  | some msg =>
      have hresult : CanHashtable.getResult found.mp (RestApi.requestKey digits) =
          { msg with valid := true } := by
        rw [CanHashtable.getResult, hstored]
      have hhash : msg.hash ≠ [] := (hfiled _ msg hstored).2
      rw [hresult, if_pos rfl]
      refine (looking_convertFrame (by exact hhash) later).bind (looking_refl none) ?_
      rintro _ _ ⟨typed, htyped, rfl⟩ last -
      refine ⟨found, typed, hmoment, htyped, ?_⟩
      rw [receiveAnswer, hstored]
      rfl

theorem looking_list (state : Bridge) :
    RestApi.list.Ensures bridge (looking moment)
      (fun response _ => Answers moment .list response) state := by
  refine fun listed _ => ⟨trivial, fun hmoment _ last _ => ⟨listed, hmoment.1, ?_⟩⟩
  rw [listAnswer, List.map_map]
  rfl

theorem looking_any {α : Type} (program : Code α) (state : Bridge) :
    program.Ensures bridge (looking moment) (fun _ _ => True) state := by
  induction program generalizing state with
  | ret value => exact fun _ _ => trivial
  | call op next ih => exact fun _ _ => ⟨trivial, fun _ _ => ih _ _⟩

theorem looking_postSend (undefined : Binary64.OutOfRange) (body : Bytes) (state : Bridge) :
    (RestApi.postSend undefined body).Ensures bridge (looking moment)
      (fun response _ => Answers moment (.send body) response) state := by
  change (RestApi.postSend undefined body).Ensures bridge (looking moment)
    (fun response _ => response = sendAnswer body) state
  unfold RestApi.postSend sendAnswer
  by_cases hbody : body = []
  · rw [if_pos hbody, if_pos hbody]
    exact fun _ _ => rfl
  rw [if_neg hbody, if_neg hbody]
  cases Json.parse (cStr body) with
  | error fault => exact fun _ _ => rfl
  | ok root =>
      cases hfields : RestApi.requestFields root.objectItems with
      | none =>
          simp only [hfields]
          exact fun _ _ => rfl
      | some fields =>
          simp only [hfields]
          exact (looking_any _ state).seq (looking_refl none) fun _ _ _ _ => rfl

theorem looking_request (undefined : Binary64.OutOfRange) (request : Request) (state : Bridge) :
    (request.code undefined).Ensures bridge (looking moment)
      (fun response _ => Answers moment request response) state := by
  cases request with
  | send body => exact looking_postSend undefined body state
  | receive digits => exact looking_receive digits state
  | list => exact looking_list state

/-- What a handler returns, if it has returned. -/
def Returns (moment : Bridge → Prop) (number : Nat) (request : Request)
    (value : Local (.handler number request)) (_ : Bridge) : Prop :=
  ∀ response, value = some response → Answers moment request response

theorem looking_body (program : Program) (number : Nat) (request : Request)
    {value : Local (.handler number request)} (h : Returns moment number request value state) :
    (body program (.handler number request) value).Ensures bridge (looking moment)
      (Returns moment number request) state := by
  cases value with
  | none =>
      refine (looking_request program.undefined request state).bind (looking_refl none) ?_
      rintro response _ hresponse last - _ ⟨⟩
      exact hresponse
  | some response => exact fun _ _ => h

end Looking

/-! ## Runs -/

section Runs

variable {program : Program} {pool : Serving} {moment : Bridge → Prop}

structure InProgress (moment : Bridge → Prop) (number : Nat) (request : Request)
    (pool : Serving) : Prop where
  consistent : Consistent pool
  handler : (pool.current (.handler number request)).Ensures bridge (looking moment)
    (Returns moment number request) pool.shared

theorem InProgress.step {number : Nat} {request : Request}
    (h : InProgress moment number request pool) {event : Thread × Env}
    (hmoment : moment pool.shared) :
    InProgress moment number request (Serving.step program pool event) := by
  refine ⟨h.consistent.step event, ?_⟩
  exact Pool.ensures_step looking_refl looking_trans
    (fun _ _ hreturns => looking_body program number request hreturns)
    (fun _ _ _ => ⟨hmoment, h.consistent.filed⟩) (fun _ => h.consistent.rely_step event) h.handler

end Runs

/-- The states in which an answer is read off lie between the request and the answer. -/
theorem requests_answered {program : Program} {config : ConfigParser} {hash : StringMap}
    {fr : CanFrame} {earlier during : List (Thread × Env)} (number : Nat) (request : Request)
    {response : Response}
    (hwaiting : (runFrom (Serving.step program) (Serving.start config hash fr) earlier).current
      (.handler number request) = .ret none)
    (hanswer : Serving.answer (runFrom (Serving.step program) (Serving.start config hash fr)
      (earlier ++ during)) number request = some response) :
    Answers (fun state => ∃ part, part <+: during ∧
      state = (runFrom (Serving.step program) (Serving.start config hash fr)
        (earlier ++ part)).shared) request response := by
  let begun := runFrom (Serving.step program) (Serving.start config hash fr) earlier
  let moment : Bridge → Prop := fun state => ∃ part, part <+: during ∧
    state = (runFrom (Serving.step program) begun part).shared
  have hstart : InProgress moment number request begun := by
    refine ⟨runFrom_invariant Consistent (fun _ event h => h.step event) _ _
      (consistent_start config hash fr), ?_⟩
    rw [hwaiting]
    exact fun _ _ => nofun
  have halong := along_prefix (Serving.step program) begun during
  have hend : InProgress moment number request
      (runFrom (Serving.step program) begun during) := by
    refine halong.invariant (InProgress moment number request) ?_ hstart
    rintro _ event ⟨part, hpart, rfl⟩ h
    exact h.step ⟨part, hpart, rfl⟩
  simp only [runFrom_append] at hanswer ⊢
  have hhandler := hend.handler
  unfold Serving.answer at hanswer
  cases hcurrent : (runFrom (Serving.step program) begun during).current
      (.handler number request) with
  | call op next =>
      rw [hcurrent] at hanswer
      cases hanswer
  | ret value =>
      rw [hcurrent] at hanswer hhandler
      exact hhandler _ (looking_refl none _) response hanswer

/-- The main loop has gone through a pass that stores a frame. -/
def storedOnce : List (Thread × Env) :=
  List.replicate 11 (.main, reading (emptyFrame 200))

/-- Between the check and the copy of `get` another frame takes the place of the record. -/
def askedMeanwhile : List (Thread × Env) :=
  List.replicate 2 (.handler 0 (.receive (ascii "200")), ({} : Env)) ++
    List.replicate 12 (.main, reading (oneByte 200)) ++
    List.replicate 5 (.handler 0 (.receive (ascii "200")), ({} : Env))

theorem receive_answered_meanwhile :
    let run := runFrom (Serving.step .acceptAll)
      (Serving.start (.loadConfigFile ∅) ∅ CanMessage.zero.frame)
    ∃ response, Serving.answer (run (storedOnce ++ askedMeanwhile)) 0
        (.receive (ascii "200")) = some response ∧
      Answers (fun state => ∃ part, part <+: askedMeanwhile ∧
        state = (run (storedOnce ++ part)).shared) (.receive (ascii "200")) response := by
  intro run
  have hsome : (Serving.answer (run (storedOnce ++ askedMeanwhile)) 0
      (.receive (ascii "200"))).isSome = true := by decide +kernel
  obtain ⟨response, hanswer⟩ := Option.isSome_iff_exists.mp hsome
  exact ⟨response, hanswer, requests_answered 0 (.receive (ascii "200")) rfl hanswer⟩

end Can2Rest.Properties
