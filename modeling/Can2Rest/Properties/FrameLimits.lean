import Can2Rest.Properties.SendRequests
import Can2Rest.StoreInvariant

/-!
# What fits into a frame

The encoders clamp to the 64 bytes of a CAN FD frame, and the socket is opened for
classic frames of eight bytes and identifiers of eleven bits.
-/

namespace Can2Rest.Properties

open Foundation Shared RestApi

/-- A frame with a standard identifier that fits into the frames of the mode. -/
structure Legal (mode : SocketMode) (frame : CanFrame) : Prop where
  id_le : frame.id.toNat ≤ 0x7FF
  len_le : frame.len.toNat ≤ mode.mtu - 8

/-- The bytes of a payload; narrowing a number to 16 bits is part of its encoding. -/
def encoding (undefined : Binary64.OutOfRange) (payload : Json) : Option Bytes :=
  match payload with
  | .int value => some (FrameSendQueue.int16Bytes (Int16.ofInt value))
  | .double value => some (FrameSendQueue.int16Bytes (Int16.ofInt (value.toInt undefined)))
  | .string text => some text
  | .bool value => some [value.toUInt8]
  | .array items => some (items.filterMap arrayByte?)
  | .nul | .object _ => none

/-- What is sent for a request is one legal frame with all bytes of the payload. -/
def SentWhole (undefined : Binary64.OutOfRange) (body : Bytes) (before after : Bridge) :
    Prop :=
  ∃ id payload msg, Requests (cStr body) id payload ∧
    after.messageQueue = before.messageQueue ++ [msg] ∧ Legal Main.socketMode msg.frame ∧
    encoding undefined payload = some msg.frame.payload ∧
    msg.frame.carried Main.socketMode = msg.frame.payload

/-- Every acknowledged request is sent whole, and a refused one leaves the queue alone. -/
def CarriesRequests (undefined : Binary64.OutOfRange) (body : Bytes) : Prop :=
  ∀ (env : Env) (state : Bridge),
    let outcome := (postSend undefined body).run bridge env state
    (Acknowledged outcome.1 → SentWhole undefined body state outcome.2) ∧
      (¬ Acknowledged outcome.1 → outcome.2.messageQueue = state.messageQueue)

/-- At most eight bytes: of the items of an array, those of other kinds are skipped. -/
def FitsClassic : Json → Prop
  | .int _ | .double _ | .bool _ => True
  | .string text => text.length ≤ 8
  | .array items =>
      items.countP (fun item => item.isBool || item.isNumber || item.isString) ≤ 8
  | .nul | .object _ => False

theorem length_arrayBytes (items : List Json) :
    (items.filterMap arrayByte?).length =
      items.countP fun item => item.isBool || item.isNumber || item.isString := by
  rw [List.length_filterMap_eq_countP]
  refine List.countP_congr fun item _ => ?_
  cases item <;> simp [arrayByte?, Json.isBool, Json.isNumber, Json.isString]

theorem length_int16Bytes (value : Int16) : (FrameSendQueue.int16Bytes value).length = 2 := rfl

theorem fitsClassic_iff (undefined : Binary64.OutOfRange) (payload : Json) :
    FitsClassic payload ↔
      ∃ bytes, encoding undefined payload = some bytes ∧ bytes.length ≤ 8 := by
  cases payload with
  | array items => simp [FitsClassic, encoding, ← length_arrayBytes]
  | _ => simp [FitsClassic, encoding, length_int16Bytes]

theorem encoding_eq_payload (undefined : Binary64.OutOfRange) (id : UInt16) {payload : Json}
    (h : FitsClassic payload) (declared : Vector UInt8 64) :
    ∃ msg, payloadMessage? undefined id payload declared = some msg ∧
      encoding undefined payload = some msg.frame.payload := by
  cases payload with
  | int value => exact ⟨_, rfl, by rw [FrameSendQueue.payload_int16Message, encoding]⟩
  | double value => exact ⟨_, rfl, by rw [FrameSendQueue.payload_int16Message, encoding]⟩
  | bool value => exact ⟨_, rfl, by rw [FrameSendQueue.payload_boolMessage, encoding]⟩
  | string text =>
      refine ⟨_, rfl, ?_⟩
      rw [FrameSendQueue.payload_bytesMessage,
        FrameSendQueue.clamped_eq_self (Nat.le_trans h (by decide)), encoding]
  | array items =>
      have hlength : (items.filterMap arrayByte?).length ≤ 8 :=
        (length_arrayBytes items).trans_le h
      refine ⟨_, rfl, ?_⟩
      rw [FrameSendQueue.arrayMessage, FrameSendQueue.queued, CanFrame.payload_assemble,
        FrameSendQueue.clamped_eq_self (hlength.trans (by decide)), encoding]
  | nul => exact h.elim
  | object members => exact h.elim

section Requests

variable {undefined : Binary64.OutOfRange} {body : Bytes} {id payload : Json}

theorem sentWhole_of_fits (h : Requests (cStr body) id payload)
    (hid : (key (id.numberValue.toUnsigned undefined)).toNat ≤ 0x7FF)
    (hpayload : FitsClassic payload) (env : Env) (state : Bridge) :
    SentWhole undefined body state ((postSend undefined body).run bridge env state).2 := by
  rw [run_postSend_of_requests h]
  obtain ⟨msg, hmsg, hencoding⟩ := encoding_eq_payload undefined
    (key (id.numberValue.toUnsigned undefined)) hpayload env.uninitialized
  have hlen : msg.frame.len.toNat ≤ 8 := by
    obtain ⟨bytes, hbytes, hlength⟩ := (fitsClassic_iff undefined payload).mp hpayload
    obtain rfl := Option.some.inj (hencoding.symm.trans hbytes)
    rwa [length_payload] at hlength
  refine ⟨id, payload, msg, h, ?_, ⟨?_, hlen⟩, hencoding, carried_eq_payload hlen⟩
  · rw [enqueuedState_messageQueue, hmsg]
    rfl
  · rw [frameId_payloadMessage? hmsg, UInt16.toNat_toUInt32]
    exact hid

theorem fits_of_sentWhole (h : Requests (cStr body) id payload) {env : Env} {state : Bridge}
    (hsent : SentWhole undefined body state ((postSend undefined body).run bridge env state).2) :
    (key (id.numberValue.toUnsigned undefined)).toNat ≤ 0x7FF ∧ FitsClassic payload := by
  obtain ⟨id', payload', msg, h', hqueue, hlegal, hencoding, -⟩ := hsent
  obtain ⟨rfl, rfl⟩ := requests_unique h h'
  rw [run_postSend_of_requests h, enqueuedState_messageQueue,
    List.append_cancel_left_eq] at hqueue
  have hmsg : payloadMessage? undefined (key (id.numberValue.toUnsigned undefined)) payload
      env.uninitialized = some msg := by
    refine Option.mem_toList.mp ?_
    rw [hqueue]
    exact List.mem_singleton_self msg
  refine ⟨?_, (fitsClassic_iff undefined payload).mpr ⟨_, hencoding, ?_⟩⟩
  · have hid := hlegal.id_le
    rwa [frameId_payloadMessage? hmsg, UInt16.toNat_toUInt32] at hid
  · rw [length_payload]
    exact hlegal.len_le

end Requests

/--
A body is carried unless it requests an identifier whose low 16 bits have more than eleven,
or a payload of more than eight bytes or of a kind that is not sent.
-/
theorem carriesRequests_iff (undefined : Binary64.OutOfRange) (body : Bytes) :
    CarriesRequests undefined body ↔
      ∀ id payload, Requests (cStr body) id payload →
        (key (id.numberValue.toUnsigned undefined)).toNat ≤ 0x7FF ∧ FitsClassic payload := by
  constructor
  · intro hcarries id payload h
    have hok := (run_postSend_requests undefined h {} (.start ∅ ∅)).1
    exact fits_of_sentWhole h ((hcarries {} (.start ∅ ∅)).1 hok)
  · intro hcondition env state
    by_cases h : ∃ id payload, Requests (cStr body) id payload
    · obtain ⟨id, payload, hrequests⟩ := h
      obtain ⟨hid, hpayload⟩ := hcondition id payload hrequests
      exact ⟨fun _ => sentWhole_of_fits hrequests hid hpayload env state, fun hno =>
        absurd (run_postSend_requests undefined hrequests env state).1 hno⟩
    · obtain ⟨text, hrun⟩ := run_postSend_of_not_requests undefined
        (fun id payload hrequests => h ⟨id, payload, hrequests⟩) env state
      rw [hrun]
      exact ⟨fun hok => absurd hok (not_acknowledged_errorResponse text), fun _ => rfl⟩

def longRequest : Bytes := ascii "\x7b\"id\": 1, \"payload\": \"nine bytes\"\x7d"

theorem longRequest_not_carried : ¬ CarriesRequests .x86 longRequest := by
  intro hcarries
  have hrequests : Requests (cStr longRequest) (.int 1) (.string (ascii "nine bytes")) :=
    requests_of_scalarRequest (by decide +kernel)
  have hok := (run_postSend_requests .x86 hrequests {} (.start ∅ ∅)).1
  have hfits := (fits_of_sentWhole hrequests ((hcarries {} (.start ∅ ∅)).1 hok)).2
  have hlength : (ascii "nine bytes").length ≤ 8 := hfits
  exact absurd hlength (by decide)

end Can2Rest.Properties
