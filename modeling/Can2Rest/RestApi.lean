import Can2Rest.CanFrameToJson
import Can2Rest.CanHashtable
import Can2Rest.FrameSendQueue
import Can2Rest.Shared.Json11Parser

/-!
# The HTTP handlers

This file models the handlers of `rest_api.cpp` that use the shared objects.  A
handler leaves the status at -1 where it sets none; `respond` is what the server
sends: it replaces -1 by 200, and a status from 400 on by the error handler's
answer.
-/

namespace Can2Rest

open Foundation Shared

/-- `httplib::Response`. -/
structure Response where
  status : Int
  body : Bytes
  deriving DecidableEq

namespace RestApi

/-- `set_content` with an object, where the handler sets no status. -/
def content (members : List (Bytes × Json)) : Response where
  status := -1
  body := (Json.ofMembers members).dump

def withStatus (status : Int) (response : Response) : Response :=
  { response with status := status }

def errorResponse (text : Bytes) : Response :=
  withStatus 500 (content [(ascii "error", .string text)])

def errorHandler : Response :=
  withStatus 404 (content [(ascii "error", .int 404)])

def respond (response : Response) : Response :=
  let response :=
    if response.status = -1 then withStatus 200 response else response
  if 400 ≤ response.status then errorHandler else response

/-! ## `POST /send` -/

def sendOk : Response := content [(ascii "send_status", .string (ascii "ok"))]

/--
The byte that is pushed for an item: a number has the `bool_value` false.  That the `int`
which counts the items overflows at 2^31 of them is left out.
-/
def arrayByte? (item : Json) : Option UInt8 :=
  if item.isBool then some item.boolValue.toUInt8
  else if item.isNumber then some item.boolValue.toUInt8
  else if item.isString then some (item.stringValue.headD 0)
  else none

/-- No branch takes an object. -/
def enqueuePayload (undefined : Binary64.OutOfRange) (id : UInt32)
    (payload : Json) : Code Unit := do
  if payload.isNumber then
    let _ ← FrameSendQueue.enqueueInt16 (key id)
      (Int16.ofInt (payload.intValue undefined))
  else if payload.isString then
    let _ ← FrameSendQueue.enqueueBytes (key id) payload.stringValue
  else if payload.isBool then
    let _ ← FrameSendQueue.enqueueBool (key id) payload.boolValue
  else if payload.isArray then
    let _ ← FrameSendQueue.enqueueArray (key id)
      (payload.arrayItems.filterMap arrayByte?)

/-- The test of the fields `id` and `payload`. -/
def requestFields (root : List (Bytes × Json)) : Option (Json × Json) := do
  let id ← Json.find (ascii "id") root
  let payload ← Json.find (ascii "payload") root
  if !id.isNull && id.isNumber && !payload.isNull then return (id, payload)
  else none

/-- The parser gets `body.c_str()`. -/
def postSend (undefined : Binary64.OutOfRange) (body : Bytes) : Code Response :=
  if body = [] then return errorResponse (ascii "post body empty")
  else
    match Json.parse (cStr body) with
    | .error _ => return errorResponse (ascii "json parse failed")
    | .ok root =>
        match requestFields root.objectItems with
        | none => return errorResponse (ascii "no json field: id or payload")
        | some (id, payload) => do
            enqueuePayload undefined (id.numberValue.toUnsigned undefined) payload
            return sendOk

/-! ## `GET /receive/(\d+)` and `GET /list` -/

/-- `id` is the first group of the match. -/
def receive (id : Option Bytes) : Code Response :=
  match id with
  | some digits => do
      let msg ← CanHashtable.get (UInt16.ofInt (atoi digits))
      if msg.valid then
        let document ← CanFrameToJson.convertFrame msg
        return { status := 200, body := document }
      else return withStatus 200 (content [(ascii "valid", .bool false)])
  | none =>
      return withStatus 500 (content
        [(ascii "error", .string (ascii "match error")),
         (ascii "match_first", .string [])])

def list : Code Response := do
  let ids ← CanHashtable.getIdList
  return content [(ascii "can_frame_ids", .array (ids.map .int))]

/-! ## What `POST /send` does alone -/

/--
`text` is one JSON object with a numeric member `id` and a member `payload`
that is not null.
-/
def Requests (text : Bytes) (id payload : Json) : Prop :=
  ∃ members, Json.parse text = .ok (.object members) ∧
    Json.find (ascii "id") members = some id ∧
    Json.find (ascii "payload") members = some payload ∧
    id.isNumber = true ∧ payload.isNull = false

theorem requestFields_eq_some_iff {root : List (Bytes × Json)} {id payload : Json} :
    requestFields root = some (id, payload) ↔
      Json.find (ascii "id") root = some id ∧
        Json.find (ascii "payload") root = some payload ∧
        id.isNumber = true ∧ payload.isNull = false := by
  unfold requestFields
  cases hid : Json.find (ascii "id") root with
  | none => simp
  | some first =>
      cases hpayload : Json.find (ascii "payload") root with
      | none => simp
      | some second =>
          have hnull : first.isNumber = true → first.isNull = false := by
            cases first <;> simp [Json.isNumber, Json.isNull]
          simp only [Option.bind_eq_bind, Option.bind_some, Option.some.injEq]
          split
          next h => grind
          next h => grind

/-- The message that is queued for a payload, if a branch takes it. -/
def payloadMessage? (undefined : Binary64.OutOfRange) (id : UInt16) (payload : Json)
    (declared : Vector UInt8 64) : Option CanMessage :=
  match payload with
  | .int value => some (FrameSendQueue.int16Message id (Int16.ofInt value) declared)
  | .double value =>
      some (FrameSendQueue.int16Message id
        (Int16.ofInt (value.toInt undefined)) declared)
  | .string value => some (FrameSendQueue.bytesMessage id value declared)
  | .bool value => some (FrameSendQueue.boolMessage id value declared)
  | .array items =>
      some (FrameSendQueue.arrayMessage id (items.filterMap arrayByte?) declared)
  | .nul => none
  | .object _ => none

@[simps] def enqueuedState (undefined : Binary64.OutOfRange) (id : UInt16)
    (payload : Json) (env : Env) (state : Bridge) : Bridge :=
  let queued := payloadMessage? undefined id payload env.uninitialized
  { state with
    sha256 :=
      if payload.isNumber then
        Function.update state.sha256 .frameQueue (SHA256.reset.add
          (FrameSendQueue.int16Bytes (Int16.ofInt (payload.intValue undefined))))
      else state.sha256
    messageQueue := state.messageQueue ++ queued.toList
    history :=
      { state.history with enqueued := state.history.enqueued ++ queued.toList } }

theorem run_enqueuePayload (undefined : Binary64.OutOfRange) (id : UInt32)
    (payload : Json) (env : Env) (state : Bridge) :
    (enqueuePayload undefined id payload).run bridge env state =
      ((), enqueuedState undefined (key id) payload env state) := by
  cases payload with
  | nul => simp [enqueuePayload, enqueuedState, Json.isNumber, Json.isString,
      Json.isBool, Json.isArray, payloadMessage?]
  | int value => simp [enqueuePayload, Json.isNumber]; rfl
  | double value => simp [enqueuePayload, Json.isNumber]; rfl
  | bool value => simp [enqueuePayload, Json.isNumber, Json.isString, Json.isBool]; rfl
  | string value => simp [enqueuePayload, Json.isNumber, Json.isString]; rfl
  | array items => simp [enqueuePayload, Json.isNumber, Json.isString,
      Json.isBool, Json.isArray]; rfl
  | object members => simp [enqueuePayload, enqueuedState, Json.isNumber,
      Json.isString, Json.isBool, Json.isArray, payloadMessage?]

theorem requests_iff {text : Bytes} {id payload : Json} :
    Requests text id payload ↔
      ∃ root, Json.parse text = .ok root ∧
        requestFields root.objectItems = some (id, payload) := by
  constructor
  · rintro ⟨members, hparse, hfields⟩
    exact ⟨.object members, hparse, requestFields_eq_some_iff.mpr hfields⟩
  · rintro ⟨root, hparse, hfields⟩
    cases root with
    | object members => exact ⟨members, hparse, requestFields_eq_some_iff.mp hfields⟩
    | _ => cases hfields

theorem not_requests_nil {id payload : Json} : ¬ Requests [] id payload := by
  rintro ⟨members, hparse, -⟩
  have herror : (Json.parse []).toOption.isNone = true := by decide +kernel
  rw [hparse] at herror
  cases herror

theorem run_postSend_of_requests {undefined : Binary64.OutOfRange} {body : Bytes}
    {id payload : Json} (h : Requests (cStr body) id payload) (env : Env)
    (state : Bridge) :
    (postSend undefined body).run bridge env state =
      (sendOk, enqueuedState undefined (key (id.numberValue.toUnsigned undefined))
        payload env state) := by
  have hbody : body ≠ [] := by
    rintro rfl
    exact not_requests_nil h
  obtain ⟨root, hparse, hfields⟩ := requests_iff.mp h
  simp only [postSend, if_neg hbody, hparse, hfields, Prog.run_bind,
    run_enqueuePayload, Prog.run_pure]

theorem run_postSend_of_not_requests (undefined : Binary64.OutOfRange) {body : Bytes}
    (h : ∀ id payload, ¬ Requests (cStr body) id payload) (env : Env)
    (state : Bridge) :
    ∃ text, (postSend undefined body).run bridge env state =
      (errorResponse text, state) := by
  unfold postSend
  split
  · exact ⟨_, rfl⟩
  split
  next => exact ⟨_, rfl⟩
  next root hparse =>
    split
    next => exact ⟨_, rfl⟩
    next id payload hfields =>
      exact absurd (requests_iff.mpr ⟨root, hparse, hfields⟩) (h id payload)

/-! ## What `GET /receive` does alone -/

/-- The key that is looked up for the digits of the request. -/
def requestKey (digits : Bytes) : UInt16 := UInt16.ofInt (atoi digits)

def notPresent : Response := withStatus 200 (content [(ascii "valid", .bool false)])

def document (register : TypeRegister) (msg : CanMessage) : Json :=
  CanFrameToJson.messageJson
    (CanFrameToJson.registeredType register (key msg.frame.id)) msg

def receiveResponse (state : Bridge) (digits : Bytes) : Response :=
  match state.mp[requestKey digits]? with
  | some msg => { status := 200, body := (document state.typeRegister msg).dump }
  | none => notPresent

def receiveState (state : Bridge) (digits : Bytes) : Bridge :=
  match state.mp[requestKey digits]? with
  | some msg => CanFrameToJson.converted state msg
  | none => state

theorem run_receive (digits : Bytes) (env : Env) (state : Bridge) :
    (receive (some digits)).run bridge env state =
      (receiveResponse state digits, receiveState state digits) := by
  have hget : CanHashtable.get (UInt16.ofInt (atoi digits)) =
      CanHashtable.get (requestKey digits) := rfl
  unfold receive receiveResponse receiveState
  cases h : state.mp[requestKey digits]? with
  | none =>
      have hresult : CanHashtable.getResult state.mp (requestKey digits) =
          { CanMessage.zero with valid := false } := by
        rw [CanHashtable.getResult, h]
      simp [hget, hresult, notPresent]
  | some msg =>
      have hresult : CanHashtable.getResult state.mp (requestKey digits) =
          { msg with valid := true } := by
        rw [CanHashtable.getResult, h]
      simp only [hget, Prog.run_bind, CanHashtable.run_get, hresult, if_true,
        CanFrameToJson.run_convertFrame, Prog.run_pure]
      rfl

end RestApi

end Can2Rest
