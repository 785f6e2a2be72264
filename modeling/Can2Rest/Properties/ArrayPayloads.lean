import Can2Rest.Properties.FrameLimits
import Can2Rest.Shared.Json11RoundTrip
import Mathlib.Data.List.Forall2

/-!
# Array payloads

The handler makes one byte of every item of an array that has a branch, and the
encoder clamps the bytes.  The branch of the numbers reads them as a `bool`.
-/

namespace Can2Rest.Properties

open Foundation Shared RestApi

/-- The byte is the item; what stands for a number that is no byte is left open. -/
def Encodes (item : Json) (byte : UInt8) : Prop :=
  match item with
  | .bool value => byte = value.toUInt8
  | .string text => byte = text.headD 0
  | .int _ | .double _ =>
      ∀ n : Nat, n ≤ 255 → item.numberValue = .finite n → byte.toNat = n
  | .nul | .array _ | .object _ => False

/-- No number from 1 to 255, and of a kind that has a branch. -/
def Encodable (item : Json) : Prop :=
  match item with
  | .bool _ | .string _ => True
  | .int _ | .double _ => ∀ n : Nat, 0 < n → n ≤ 255 → item.numberValue ≠ .finite n
  | .nul | .array _ | .object _ => False

theorem encodable_iff {item : Json} :
    Encodable item ↔ ∃ byte, arrayByte? item = some byte ∧ Encodes item byte := by
  have hnumber (value : Binary64) :
      (∀ n : Nat, 0 < n → n ≤ 255 → value ≠ .finite n) ↔
        ∀ n : Nat, n ≤ 255 → value = .finite n → (0 : UInt8).toNat = n := by
    constructor
    · intro h n hn hvalue
      by_contra hne
      exact h n (Nat.pos_of_ne_zero (Ne.symm hne)) hn hvalue
    · intro h n hpos hn hvalue
      exact Nat.ne_of_lt hpos (h n hn hvalue)
  cases item with
  | bool value => exact iff_of_true trivial ⟨_, rfl, rfl⟩
  | string text => exact iff_of_true trivial ⟨_, rfl, rfl⟩
  | int value => exact (hnumber _).trans ⟨fun h => ⟨0, rfl, h⟩, fun ⟨_, rfl, h⟩ => h⟩
  | double value => exact (hnumber _).trans ⟨fun h => ⟨0, rfl, h⟩, fun ⟨_, rfl, h⟩ => h⟩
  | nul => exact iff_of_false not_false (fun ⟨_, hbyte, _⟩ => nomatch hbyte)
  | array items => exact iff_of_false not_false (fun ⟨_, hbyte, _⟩ => nomatch hbyte)
  | object members => exact iff_of_false not_false (fun ⟨_, hbyte, _⟩ => nomatch hbyte)

theorem arrayByte?_of_encodes {item : Json} {byte : UInt8} (h : Encodes item byte) :
    (arrayByte? item).isSome = true := by
  cases item with
  | nul => exact h.elim
  | array items => exact h.elim
  | object members => exact h.elim
  | _ => rfl

/-! ## The bytes of an array -/

theorem forall₂_filterMap {items : List Json} (h : ∀ item ∈ items, Encodable item) :
    List.Forall₂ Encodes items (items.filterMap arrayByte?) := by
  induction items with
  | nil => exact .nil
  | cons item items ih =>
      obtain ⟨byte, hbyte, hencodes⟩ := encodable_iff.mp (h item List.mem_cons_self)
      rw [List.filterMap_cons_some hbyte]
      exact .cons hencodes (ih fun other hother => h other (List.mem_cons_of_mem _ hother))

theorem encodable_of_forall₂ {front back : List Json} {k : Nat}
    (h : List.Forall₂ Encodes front (((front ++ back).filterMap arrayByte?).take k)) :
    ∀ item ∈ front, Encodable item := by
  induction front generalizing k with
  | nil => exact nofun
  | cons item front ih =>
      obtain ⟨byte, rest, hencodes, hrest, htake⟩ := List.forall₂_cons_left_iff.mp h
      obtain ⟨own, hown⟩ := Option.isSome_iff_exists.mp (arrayByte?_of_encodes hencodes)
      rw [List.cons_append, List.filterMap_cons_some hown] at htake
      cases k with
      | zero => cases htake
      | succ k =>
          rw [List.take_succ_cons, List.cons.injEq] at htake
          obtain ⟨rfl, rfl⟩ := htake
          intro other hother
          rcases List.mem_cons.mp hother with rfl | hother
          · exact encodable_iff.mpr ⟨_, hown, hencodes⟩
          · exact ih hrest other hother

/-- The items that have a branch are no fewer than 64 when their number is an `int`. -/
def ClampKeeps (items : List Json) : Prop :=
  64 < items.length →
    64 ≤ asInt (items.countP fun item => item.isBool || item.isNumber || item.isString)

theorem clampedLen_eq_iff (size : Nat) :
    FrameSendQueue.clampedLen size = 64 ↔ 64 ≤ asInt size := by
  simp only [FrameSendQueue.clampedLen, FrameSendQueue.clamp]
  split <;> split <;> omega

theorem forall₂_clamped_iff (items : List Json) :
    List.Forall₂ Encodes (items.take 64)
        (FrameSendQueue.clamped (items.filterMap arrayByte?)) ↔
      (∀ item ∈ items.take 64, Encodable item) ∧ ClampKeeps items := by
  have hsplit : (items.take 64 ++ items.drop 64).filterMap arrayByte? =
      items.filterMap arrayByte? := by rw [List.take_append_drop]
  have hle := FrameSendQueue.clampedLen_le (items.filterMap arrayByte?).length
  constructor
  · intro h
    refine ⟨?_, fun hlong => ?_⟩
    · rw [FrameSendQueue.clamped, ← hsplit] at h
      exact encodable_of_forall₂ h
    · have hlength := h.length_eq
      rw [FrameSendQueue.clamped, List.length_take, List.length_take] at hlength
      rw [← length_arrayBytes, ← clampedLen_eq_iff]
      omega
  · rintro ⟨hencodable, hkeeps⟩
    have hforall := forall₂_filterMap hencodable
    have hlength := hforall.length_eq
    rw [List.length_take] at hlength
    -- The bytes of all items are clamped; none of the first 64 items is skipped.
    suffices h : FrameSendQueue.clamped (items.filterMap arrayByte?) =
        (items.take 64).filterMap arrayByte? by rwa [h]
    by_cases hlong : 64 < items.length
    · have hclamped := (clampedLen_eq_iff _).mpr (hkeeps hlong)
      rw [FrameSendQueue.clamped, length_arrayBytes, hclamped, ← hsplit, List.filterMap_append]
      exact List.take_left' (by omega)
    · have htake : items.take 64 = items := List.take_of_length_le (by omega)
      rw [htake] at hlength ⊢
      exact FrameSendQueue.clamped_eq_self (by omega)

/-! ## Acknowledged arrays -/

/-- The valid bytes of the frame encode the first 64 items, each in its place. -/
structure EncodesArray (items : List Json) (frame : CanFrame) : Prop where
  len : frame.len.toNat = min items.length 64
  data : ∀ (i : Nat) (hi : i < 64) (item : Json), i < frame.len.toNat →
    items[i]? = some item → Encodes item frame.data[i]

/-- Of an acknowledged array one frame is enqueued, which encodes it. -/
def EnqueuesArrays (undefined : Binary64.OutOfRange) (body : Bytes) : Prop :=
  ∀ (env : Env) (state : Bridge) (id : Json) (items : List Json),
    Requests (cStr body) id (.array items) →
      let outcome := (postSend undefined body).run bridge env state
      Acknowledged outcome.1 →
        ∃ msg, outcome.2.messageQueue = state.messageQueue ++ [msg] ∧
          EncodesArray items msg.frame

theorem encodesArray_iff {items : List Json} {frame : CanFrame} :
    EncodesArray items frame ↔ List.Forall₂ Encodes (items.take 64) frame.payload := by
  have hlen := UInt8.le_iff_toNat_le.mp frame.len_le
  have hbyte : ∀ (i : Nat) (hi : i < 64) (hlt : i < frame.payload.length),
      frame.payload[i] = frame.data[i] := by
    intro i hi hlt
    simp only [CanFrame.payload, List.getElem_take, Vector.getElem_toList]
  have hlength : frame.len.toNat = min items.length 64 ↔
      (items.take 64).length = frame.payload.length := by
    rw [List.length_take, length_payload, min_comm, eq_comm]
  rw [List.forall₂_iff_get]
  constructor
  · rintro ⟨hcount, hdata⟩
    refine ⟨hlength.mp hcount, fun i hi hpayload => ?_⟩
    rw [List.length_take, lt_min_iff] at hi
    rw [length_payload] at hpayload
    rw [List.get_eq_getElem, List.get_eq_getElem, List.getElem_take, hbyte i hi.1]
    exact hdata i hi.1 _ hpayload (List.getElem?_eq_getElem hi.2)
  · rintro ⟨hcount, hdata⟩
    refine ⟨hlength.mpr hcount, fun i hi item hlt hitem => ?_⟩
    obtain ⟨hi', rfl⟩ := List.getElem?_eq_some_iff.mp hitem
    have hencodes := hdata i (by rw [List.length_take]; omega) (by rw [length_payload]; exact hlt)
    rwa [List.get_eq_getElem, List.get_eq_getElem, List.getElem_take, hbyte i hi] at hencodes

theorem encodesArray_arrayMessage_iff (id : UInt16) (items : List Json)
    (declared : Vector UInt8 64) :
    EncodesArray items
        (FrameSendQueue.arrayMessage id (items.filterMap arrayByte?) declared).frame ↔
      (∀ item ∈ items.take 64, Encodable item) ∧ ClampKeeps items := by
  rw [encodesArray_iff, FrameSendQueue.arrayMessage, FrameSendQueue.queued,
    CanFrame.payload_assemble, forall₂_clamped_iff]

theorem messageQueue_arrayRequest {undefined : Binary64.OutOfRange} {body : Bytes} {id : Json}
    {items : List Json} (h : Requests (cStr body) id (.array items)) (env : Env)
    (state : Bridge) :
    ((postSend undefined body).run bridge env state).2.messageQueue =
      state.messageQueue ++ [FrameSendQueue.arrayMessage
        (key (id.numberValue.toUnsigned undefined)) (items.filterMap arrayByte?)
        env.uninitialized] := by
  rw [run_postSend_of_requests h, enqueuedState_messageQueue]
  rfl

theorem encodable_of_enqueuesArrays {undefined : Binary64.OutOfRange} {body : Bytes} {id : Json}
    {items : List Json} (henqueues : EnqueuesArrays undefined body)
    (h : Requests (cStr body) id (.array items)) :
    (∀ item ∈ items.take 64, Encodable item) ∧ ClampKeeps items := by
  have hok := (run_postSend_requests undefined h {} (.start ∅ ∅)).1
  obtain ⟨msg, hmsg, hencodes⟩ := henqueues {} (.start ∅ ∅) id items h hok
  rw [messageQueue_arrayRequest h, List.append_cancel_left_eq, List.cons.injEq] at hmsg
  rwa [← hmsg.1, encodesArray_arrayMessage_iff] at hencodes

/--
Acknowledged arrays are encoded exactly if their first 64 items have a branch and
are no numbers from 1 to 255, and no longer array has a number of bytes that the
clamping takes for a smaller one.
-/
theorem enqueuesArrays_iff (undefined : Binary64.OutOfRange) (body : Bytes) :
    EnqueuesArrays undefined body ↔
      ∀ id items, Requests (cStr body) id (.array items) →
        (∀ item ∈ items.take 64, Encodable item) ∧ ClampKeeps items := by
  constructor
  · exact fun henqueues id items h => encodable_of_enqueuesArrays henqueues h
  · intro hcondition env state id items h outcome hok
    exact ⟨_, messageQueue_arrayRequest h env state,
      (encodesArray_arrayMessage_iff _ items _).mpr (hcondition id items h)⟩

def numberArrayRequest : Bytes := ascii "\x7b\"id\": 1, \"payload\": [7]\x7d"

def numberArrayMembers : List (Bytes × Json) :=
  [(ascii "id", .int 1), (ascii "payload", .array [.int 7])]

theorem regular_numberArrayMembers : Json.Regular 2 (.object numberArrayMembers) := by
  have hkeys : [ascii "id", ascii "payload"].Pairwise fun first second =>
      compare first second = .lt := by decide
  refine ⟨Json.sorted_of_keys hkeys, ?_⟩
  simp [numberArrayMembers, Json.Regular]

theorem dump_numberArrayMembers :
    (Json.object numberArrayMembers).dump = cStr numberArrayRequest := by
  decide +kernel

theorem reparsed_numberArrayMembers :
    (Json.object numberArrayMembers).reparsed = .object numberArrayMembers := by
  have hone : Json.reparsedInt 1 = .int 1 := rfl
  have hseven : Json.reparsedInt 7 = .int 7 := rfl
  simp only [numberArrayMembers, Json.reparsed, Json.reparsedMembers, Json.reparsedItems, hone,
    hseven]

theorem requests_numberArrayRequest :
    Requests (cStr numberArrayRequest) (.int 1) (.array [.int 7]) := by
  have hparse := Json.parse_dump regular_numberArrayMembers (by decide)
  rw [dump_numberArrayMembers, reparsed_numberArrayMembers] at hparse
  exact ⟨numberArrayMembers, hparse, rfl, rfl, rfl, rfl⟩

theorem numberArrayRequest_not_encoded : ¬ EnqueuesArrays .x86 numberArrayRequest := by
  intro h
  have hencodable := (encodable_of_enqueuesArrays h requests_numberArrayRequest).1
  exact hencodable (.int 7) (by simp) 7 (by decide) (by decide) rfl

end Can2Rest.Properties
