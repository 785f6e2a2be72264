import Can2Rest.Properties.Views
import Can2Rest.Shared.Json11RoundTrip

/-!
# The text of a document

`convert_frame` prints a JSON value, and `dump` copies the bytes of its strings.
The digest and a payload of type `STR` are the only strings that are not
constants of the program.
-/

namespace Can2Rest.Properties

open Foundation Shared CanFrameToJson

def convertedText (env : Env) (state : Bridge) (msg : CanMessage) : Bytes :=
  ((convertFrame msg).run bridge env state).1

theorem convertedText_eq (env : Env) (state : Bridge) (msg : CanMessage) :
    convertedText env state msg =
      messageText (registeredType state.typeRegister (key msg.frame.id)) msg := by
  rw [convertedText, run_convertFrame]

/-- A JSON text in UTF-8 that is read as an object with both members. -/
structure IsDocument (text : Bytes) : Prop where
  utf8 : ValidUtf8 text
  grammar : JsonText.Value text
  parsed : ∃ members info data, Json.parse text = .ok (.object members) ∧
    Json.find (ascii "info") members = some info ∧
    Json.find (ascii "parsed_data") members = some data

theorem regular_parsedPayload (n : Nat) (type : ConversationType) (frame : CanFrame) :
    Json.Regular n (parsedPayload type frame) := by
  cases n <;> cases type <;> trivial

theorem regular_frameDataToVector (n : Nat) (frame : CanFrame) :
    Json.Regular (n + 1) (frameDataToVector frame) := by
  intro item hitem
  obtain ⟨b, -, rfl⟩ := List.mem_map.mp hitem
  cases n <;> trivial

theorem sorted_documentKeys :
    [ascii "info", ascii "parsed_data"].Pairwise (fun first second =>
        compare first second = .lt) ∧
      [ascii "direction", ascii "direction_raw", ascii "id", ascii "payload_hash",
        ascii "raw_data", ascii "raw_length", ascii "sync_tick", ascii "type",
        ascii "type_raw"].Pairwise fun first second => compare first second = .lt := by
  decide

theorem regular_completeJson (type : ConversationType) (hash : Bytes) (msg : CanMessage) :
    Json.Regular 3 (completeJson type hash msg) := by
  obtain ⟨hkeys, hinfoKeys⟩ := sorted_documentKeys
  have hdata := regular_frameDataToVector 0 msg.frame
  have hpayload := regular_parsedPayload 1 type msg.frame
  rw [completeJson_eq]
  refine ⟨Json.sorted_of_keys hkeys, ?_⟩
  simp only [List.forall_mem_cons]
  refine ⟨⟨Json.sorted_of_keys hinfoKeys, ?_⟩, ⟨List.pairwise_singleton _ _, ?_⟩, nofun⟩
  · simp only [List.forall_mem_cons]
    exact ⟨trivial, trivial, trivial, trivial, hdata, trivial, trivial, trivial, trivial, nofun⟩
  · simp only [List.forall_mem_cons]
    exact ⟨hpayload, nofun⟩

/-! ## The strings of a document -/

theorem isAscii_getHash (sha : SHA256) : IsAscii sha.getHash := by
  have hnibble : ∀ n < 16, SHA256.dec2hex (UInt32.ofNat n) < 0x80 := by decide
  intro c hc
  obtain ⟨word, -, hword⟩ := List.mem_flatMap.mp hc
  obtain ⟨shift, -, rfl⟩ := List.mem_map.mp hword
  have hlt : ((word >>> shift) &&& 15).toNat < 16 := by
    rw [UInt32.toNat_and]
    exact lt_of_le_of_lt Nat.and_le_right (by decide)
  have h := hnibble _ hlt
  rwa [UInt32.ofNat_toNat] at h

theorem validUtf8_messageHash_iff (msg : CanMessage) :
    ValidUtf8 (messageHash msg) ↔ ValidUtf8 msg.hash := by
  unfold messageHash
  split
  next hhash =>
      rw [hhash]
      exact iff_of_true (validUtf8_of_ascii (isAscii_getHash _)) validUtf8_nil
  next => rfl

theorem itemStrings_eq_nil {items : List Json} (h : ∀ item ∈ items, item.strings = []) :
    Json.itemStrings items = [] := by
  induction items with
  | nil => rfl
  | cons item items ih =>
      rw [Json.itemStrings, h item List.mem_cons_self,
        ih fun other hother => h other (List.mem_cons_of_mem _ hother)]
      rfl

theorem strings_frameDataToVector (frame : CanFrame) : (frameDataToVector frame).strings = [] := by
  refine itemStrings_eq_nil fun item hitem => ?_
  obtain ⟨b, -, rfl⟩ := List.mem_map.mp hitem
  rfl

theorem strings_parsedPayload (type : ConversationType) (frame : CanFrame) :
    (parsedPayload type frame).strings = if type = .str then [frame.payload] else [] := by
  cases type <;> rfl

theorem isAscii_documentKeys :
    ∀ key ∈ [ascii "info", ascii "direction", ascii "direction_raw", ascii "id",
      ascii "payload_hash", ascii "raw_data", ascii "raw_length", ascii "sync_tick",
      ascii "type", ascii "type_raw", ascii "parsed_data", ascii "payload"], IsAscii key := by
  decide

theorem validStrings_completeJson_iff (type : ConversationType) (hash : Bytes)
    (msg : CanMessage) :
    (∀ text ∈ (completeJson type hash msg).strings, ValidUtf8 text) ↔
      ValidUtf8 hash ∧ (type = .str → ValidUtf8 msg.frame.payload) := by
  have hdirection : ValidUtf8 msg.messageReceieved.name :=
    validUtf8_of_ascii (by cases msg.messageReceieved <;> decide)
  have htype : ValidUtf8 type.name := validUtf8_of_ascii (by cases type <;> decide)
  have hkeys := fun key hkey => validUtf8_of_ascii (isAscii_documentKeys key hkey)
  simp only [List.forall_mem_cons] at hkeys
  have hpayload : (∀ text ∈ if type = .str then [msg.frame.payload] else [], ValidUtf8 text) ↔
      (type = .str → ValidUtf8 msg.frame.payload) := by
    split
    next h => simp [h]
    next h => simp [h]
  rw [completeJson_eq]
  simp only [Json.strings, Json.memberStrings, strings_frameDataToVector, strings_parsedPayload,
    List.cons_append, List.nil_append, List.append_nil, List.forall_mem_cons, hkeys, hdirection,
    htype, hpayload, true_and]

/-! ## Documents are texts -/

theorem parse_messageText (type : ConversationType) (msg : CanMessage) :
    Json.parse (messageText type msg) = .ok (messageJson type msg).reparsed :=
  Json.parse_dump (regular_completeJson _ _ msg) (by decide)

theorem isDocument_messageText_iff (type : ConversationType) (msg : CanMessage) :
    IsDocument (messageText type msg) ↔
      ValidUtf8 msg.hash ∧ (type = .str → ValidUtf8 msg.frame.payload) := by
  have hregular := regular_completeJson (interpretNone type) (messageHash msg) msg
  have hutf8 : ValidUtf8 (messageText type msg) ↔
      ValidUtf8 msg.hash ∧ (type = .str → ValidUtf8 msg.frame.payload) := by
    rw [messageText, messageJson, Json.validUtf8_dump_iff hregular,
      validStrings_completeJson_iff, validUtf8_messageHash_iff]
    cases type <;> simp [interpretNone]
  refine ⟨fun h => hutf8.mp h.utf8, fun h => ⟨hutf8.mpr h, Json.value_dump hregular, ?_⟩⟩
  rw [parse_messageText, messageJson, completeJson_eq]
  exact ⟨_, _, _, rfl, rfl, rfl⟩

/--
What `convert_frame` returns is a JSON text exactly if the digest it is given
and the payload it is told to print as a string are UTF-8.
-/
theorem convertFrame_isDocument_iff (env : Env) (state : Bridge) (msg : CanMessage) :
    IsDocument (convertedText env state msg) ↔
      ValidUtf8 msg.hash ∧
        (registeredType state.typeRegister (key msg.frame.id) = .str →
          ValidUtf8 msg.frame.payload) := by
  rw [convertedText_eq, isDocument_messageText_iff]

theorem lead_len_le : (1 : UInt8) ≤ 64 := by decide

/-- The first byte of a two byte character, cut off at the end of its frame. -/
def cutFrame : CanFrame := ⟨200, 1, 0, Vector.replicate 64 0xc3, lead_len_le⟩

theorem convertFrame_cutFrame :
    ¬ ∀ (env : Env) (state : Bridge) (msg : CanMessage),
      IsDocument (convertedText env state msg) := by
  intro h
  have hdocument := h {} (.start ((∅ : TypeRegister).insert 200 .str) ∅)
    { CanMessage.zero with frame := cutFrame }
  rw [convertedText_eq, isDocument_messageText_iff] at hdocument
  have htype : registeredType ((∅ : TypeRegister).insert 200 .str) 200 = .str := by
    rw [registeredType, Std.ExtTreeMap.getElem?_insert_self]
    rfl
  have hpayload := (hdocument.2 htype).utf8DecodeChar?_isSome (by decide)
  exact absurd hpayload (by decide)

/-! ## The parsed value -/

/-- `parsed_data.payload`, as a client reads it from the text. -/
def clientPayload (text : Bytes) : Option Json :=
  match Json.parse text with
  | .ok document => dataPayload document
  | .error _ => none

/-- The identifier has no type that decodes a payload. -/
def Untyped (register : TypeRegister) (id : UInt16) : Prop :=
  register[id]? = none ∨ register[id]? = some .none ∨ register[id]? = some .raw

/-- The kind of the payload tells what the identifier is registered as. -/
structure TellsType (register : TypeRegister) (id : UInt16) (payload : Json) : Prop where
  null : payload.isNull = true ↔ Untyped register id
  int : register[id]? = some .int → payload.isNumber = true
  byte : register[id]? = some .byte → payload.isNumber = true
  bool : register[id]? = some .bool → payload.isBool = true
  str : register[id]? = some .str → payload.isString = true

theorem clientPayload_messageText (type : ConversationType) (msg : CanMessage) :
    clientPayload (messageText type msg) =
      some (parsedPayload (interpretNone type) msg.frame).reparsed := by
  rw [clientPayload, parse_messageText, messageJson, completeJson_eq]
  rfl

theorem isNumber_reparsedInt (n : Int) : (Json.reparsedInt n).isNumber = true := by
  unfold Json.reparsedInt
  split
  · rfl
  · rfl

theorem isNull_eq_false_of_isNumber {value : Json} (h : value.isNumber = true) :
    value.isNull = false := by
  cases value with
  | nul => cases h
  | _ => rfl

theorem isNull_reparsed_parsedPayload (type : ConversationType) (frame : CanFrame) :
    (parsedPayload type frame).reparsed.isNull = false := by
  cases type with
  | bool => rfl
  | str => rfl
  | _ => exact isNull_eq_false_of_isNumber (isNumber_reparsedInt _)

/--
The payload that a client reads tells the type exactly if there is one: without
a type it is the number 0.
-/
theorem clientPayload_tellsType_iff (env : Env) (state : Bridge) (msg : CanMessage) :
    (∃ payload, clientPayload (convertedText env state msg) = some payload ∧
      TellsType state.typeRegister (key msg.frame.id) payload) ↔
        ¬ Untyped state.typeRegister (key msg.frame.id) := by
  have hpayload := clientPayload_messageText
    (registeredType state.typeRegister (key msg.frame.id)) msg
  rw [← convertedText_eq env] at hpayload
  constructor
  · rintro ⟨payload, hread, htells⟩ huntyped
    have hnull := htells.null.mpr huntyped
    rw [hpayload] at hread
    rw [← Option.some.inj hread, isNull_reparsed_parsedPayload] at hnull
    cases hnull
  · intro htyped
    refine ⟨_, hpayload, ?_, ?_, ?_, ?_, ?_⟩
    · rw [isNull_reparsed_parsedPayload]
      exact iff_of_false Bool.false_ne_true htyped
    · intro htype
      rw [registeredType, htype]
      exact isNumber_reparsedInt _
    · intro htype
      rw [registeredType, htype]
      exact isNumber_reparsedInt _
    · intro htype
      rw [registeredType, htype]
      rfl
    · intro htype
      rw [registeredType, htype]
      rfl

/-- A client cannot tell a frame without a type from one whose value is zero. -/
theorem clientPayload_unregistered :
    ¬ ∀ (env : Env) (state : Bridge) (msg : CanMessage),
      ∃ payload, clientPayload (convertedText env state msg) = some payload ∧
        TellsType state.typeRegister (key msg.frame.id) payload := by
  intro h
  obtain ⟨payload, hread, htells⟩ := h {} (.start ∅ ∅) .zero
  have huntyped : Untyped ∅ (key CanMessage.zero.frame.id) := .inl rfl
  have hnull := htells.null.mpr huntyped
  rw [convertedText_eq, clientPayload_messageText] at hread
  rw [← Option.some.inj hread, isNull_reparsed_parsedPayload] at hnull
  cases hnull

end Can2Rest.Properties
