import Can2Rest.RestApi

/-!
# What `POST /send` acknowledges

The acknowledgement stands at a point common to all branches of the handler, and
the parser sees the body up to its first NUL byte only.  The handler is exact on
every other body.
-/

namespace Can2Rest.Properties

open Foundation Shared RestApi

/-- The whole of `body` is one JSON object with a numeric id and a usable payload. -/
def IsSendRequest (body : Bytes) : Prop :=
  0 ∉ body ∧ ∃ id payload, Requests body id payload ∧
    (payload.isNumber ∨ payload.isString ∨ payload.isBool ∨ payload.isArray)

/-- What a client sees as `send_status ok`. -/
def Acknowledged (response : Response) : Prop := respond response = respond sendOk

def AppendsOne (before after : Bridge) : Prop :=
  ∃ msg, after.messageQueue = before.messageQueue ++ [msg]

/-- `POST /send` acknowledges exactly what it queues, whatever the queue holds. -/
def AcknowledgesExactly (undefined : Binary64.OutOfRange) (body : Bytes) : Prop :=
  ∀ (env : Env) (state : Bridge),
    let outcome := (postSend undefined body).run bridge env state
    (Acknowledged outcome.1 ↔ AppendsOne state outcome.2) ∧
      (Acknowledged outcome.1 → IsSendRequest body) ∧
      (¬ Acknowledged outcome.1 →
        outcome.2.messageQueue = state.messageQueue)

theorem acknowledged_sendOk : Acknowledged sendOk := rfl

theorem not_acknowledged_errorResponse (text : Bytes) :
    ¬ Acknowledged (errorResponse text) := by
  intro h
  have hstatus := congrArg Response.status h
  simp [respond, errorResponse, errorHandler, sendOk, content, withStatus] at hstatus

theorem requests_unique {text : Bytes} {id payload id' payload' : Json}
    (h : Requests text id payload) (h' : Requests text id' payload') :
    id = id' ∧ payload = payload' := by
  obtain ⟨members, hparse, hid, hpayload, -⟩ := h
  obtain ⟨members', hparse', hid', hpayload', -⟩ := h'
  obtain rfl : members = members' := by
    rw [hparse] at hparse'
    injection hparse' with hroot
    injection hroot
  rw [hid] at hid'
  rw [hpayload] at hpayload'
  exact ⟨Option.some.inj hid', Option.some.inj hpayload'⟩

theorem payload_kind {payload : Json} (h : payload.isNull = false) :
    payload.isObject = true ∨
      (payload.isNumber ∨ payload.isString ∨ payload.isBool ∨ payload.isArray) := by
  cases payload <;> simp [Json.isNull] at h <;>
    simp [Json.isObject, Json.isNumber, Json.isString, Json.isBool, Json.isArray]

theorem isSome_payloadMessage?_iff (undefined : Binary64.OutOfRange) (id : UInt16)
    (payload : Json) (declared : Vector UInt8 64) :
    (payloadMessage? undefined id payload declared).isSome ↔
      (payload.isNumber ∨ payload.isString ∨ payload.isBool ∨ payload.isArray) := by
  cases payload <;>
    simp [payloadMessage?, Json.isNumber, Json.isString, Json.isBool, Json.isArray]

theorem run_postSend_requests (undefined : Binary64.OutOfRange) {body : Bytes}
    {id payload : Json} (h : Requests (cStr body) id payload) (env : Env)
    (state : Bridge) :
    Acknowledged ((postSend undefined body).run bridge env state).1 ∧
      (AppendsOne state ((postSend undefined body).run bridge env state).2 ↔
        (payload.isNumber ∨ payload.isString ∨ payload.isBool ∨ payload.isArray)) := by
  rw [run_postSend_of_requests h, ← isSome_payloadMessage?_iff undefined
    (key (id.numberValue.toUnsigned undefined)) payload env.uninitialized]
  refine ⟨acknowledged_sendOk, ?_⟩
  simp only [AppendsOne, enqueuedState_messageQueue, List.append_cancel_left_eq]
  cases payloadMessage? undefined (key (id.numberValue.toUnsigned undefined)) payload
    env.uninitialized <;> simp

theorem isSendRequest_iff {body : Bytes} {id payload : Json}
    (h : Requests (cStr body) id payload) :
    IsSendRequest body ↔ 0 ∉ body ∧ payload.isObject = false := by
  have hnull : payload.isNull = false := by
    obtain ⟨members, -, -, -, -, hnull⟩ := h
    exact hnull
  constructor
  · rintro ⟨hzero, id', payload', hrequests, hkind⟩
    rw [← cStr_eq_self_iff.mpr hzero] at hrequests
    obtain ⟨-, rfl⟩ := requests_unique h hrequests
    refine ⟨hzero, ?_⟩
    cases payload <;> simp_all [Json.isObject, Json.isNumber, Json.isString,
      Json.isBool, Json.isArray]
  · rintro ⟨hzero, hobject⟩
    refine ⟨hzero, id, payload, ?_, ?_⟩
    · rwa [cStr_eq_self_iff.mpr hzero] at h
    · rcases payload_kind hnull with hobject' | hkind
      · rw [hobject] at hobject'
        cases hobject'
      · exact hkind

theorem acknowledgesExactly_of_not_requests {undefined : Binary64.OutOfRange}
    {body : Bytes} (h : ∀ id payload, ¬ Requests (cStr body) id payload) :
    AcknowledgesExactly undefined body := by
  intro env state
  obtain ⟨text, hrun⟩ := run_postSend_of_not_requests undefined h env state
  have hanswer := not_acknowledged_errorResponse text
  simp only [hrun]
  refine ⟨⟨fun hok => absurd hok hanswer, ?_⟩, fun hok => absurd hok hanswer,
    fun _ => trivial⟩
  rintro ⟨msg, hqueue⟩
  simp at hqueue

theorem acknowledgesExactly_of_requests {undefined : Binary64.OutOfRange}
    {body : Bytes} {id payload : Json} (h : Requests (cStr body) id payload) :
    AcknowledgesExactly undefined body ↔ 0 ∉ body ∧ payload.isObject = false := by
  rw [← isSendRequest_iff h]
  constructor
  · intro hexact
    have hok := run_postSend_requests undefined h {} (.start ∅ ∅)
    exact (hexact {} (.start ∅ ∅)).2.1 hok.1
  · intro hrequest env state
    obtain ⟨hok, happends⟩ := run_postSend_requests undefined h env state
    obtain ⟨-, hobject⟩ := (isSendRequest_iff h).mp hrequest
    have hkind := (payload_kind h.choose_spec.2.2.2.2).resolve_left (by simp [hobject])
    exact ⟨⟨fun _ => happends.mpr hkind, fun _ => hok⟩, fun _ => hrequest,
      fun hno => absurd hok hno⟩

/--
`POST /send` is exact on a body unless the text before its first NUL byte is a
request and either the body goes on after it or the payload is an object.
-/
theorem postSend_acknowledgesExactly_iff (undefined : Binary64.OutOfRange)
    (body : Bytes) :
    AcknowledgesExactly undefined body ↔
      ∀ id payload, Requests (cStr body) id payload →
        0 ∉ body ∧ payload.isObject = false := by
  constructor
  · intro hexact id payload h
    exact (acknowledgesExactly_of_requests h).mp hexact
  · intro hcondition
    by_cases h : ∃ id payload, Requests (cStr body) id payload
    · obtain ⟨id, payload, hrequests⟩ := h
      exact (acknowledgesExactly_of_requests hrequests).mpr
        (hcondition id payload hrequests)
    · exact acknowledgesExactly_of_not_requests fun id payload hrequests =>
        h ⟨id, payload, hrequests⟩

/-! ## Concrete bodies -/

def sameScalar : Json → Json → Bool
  | .int a, .int b => a = b
  | .bool a, .bool b => a = b
  | .string a, .string b => a = b
  | _, _ => false

theorem eq_of_sameScalar {first second : Json} (h : sameScalar first second = true) :
    first = second := by
  cases first <;> cases second <;> simp_all [sameScalar]

def scalarRequest (text : Bytes) (id payload : Json) : Bool :=
  match Json.parse text with
  | .ok root =>
      (requestFields root.objectItems).any fun fields =>
        sameScalar fields.1 id && sameScalar fields.2 payload
  | .error _ => false

theorem requests_of_scalarRequest {text : Bytes} {id payload : Json}
    (h : scalarRequest text id payload = true) : Requests text id payload := by
  unfold scalarRequest at h
  split at h
  next root hparse =>
    obtain ⟨⟨id', payload'⟩, hfields, hsame⟩ := (Option.any_eq_true _ _).mp h
    rw [Bool.and_eq_true] at hsame
    obtain rfl := eq_of_sameScalar hsame.1
    obtain rfl := eq_of_sameScalar hsame.2
    exact requests_iff.mpr ⟨root, hparse, hfields⟩
  next => cases h

def objectRequest : Bytes := ascii "\x7b\"id\": 1, \"payload\": \x7b\x7d\x7d"

theorem postSend_acknowledges_object :
    ¬ AcknowledgesExactly .x86 objectRequest := by
  have hfields : ((Json.parse (cStr objectRequest)).toOption.bind fun root =>
      (requestFields root.objectItems).map fun fields => fields.2.isObject) =
        some true := by
    decide +kernel
  obtain ⟨root, hroot, hsome⟩ := Option.bind_eq_some_iff.mp hfields
  obtain ⟨⟨id, payload⟩, hrequest, hobject⟩ := Option.map_eq_some_iff.mp hsome
  have hparse : Json.parse (cStr objectRequest) = .ok root := by
    cases h : Json.parse (cStr objectRequest) with
    | error message => simp [h, Except.toOption] at hroot
    | ok value => simpa [h, Except.toOption] using hroot
  intro hexact
  have hcondition := (acknowledgesExactly_of_requests
    (requests_iff.mpr ⟨root, hparse, hrequest⟩)).mp hexact
  exact absurd hobject (by simp [hcondition.2])

end Can2Rest.Properties
