import Can2Rest.Conversions
import Can2Rest.Properties.Addressing

/-!
# What documents say of the bytes

The digest of a message is computed by `put`, by one of the encoders, or only
when the message is converted.  Every message that waits in the queue or stands
in the store has no digest or the one of its own bytes.
-/

namespace Can2Rest.Properties

open Foundation Shared CanFrameToJson

/-- `info.<key>` of a document. -/
def infoMember (key : Bytes) (document : Json) : Option Json :=
  (document.member (ascii "info")).bind (Json.member key)

/-- The document reports these bytes, their number and their digest. -/
structure ReportsBytes (document : Json) (bytes : Bytes) : Prop where
  rawData : infoMember (ascii "raw_data") document =
    some (.array (bytes.map fun b => .int b.toNat))
  rawLength : infoMember (ascii "raw_length") document = some (.int bytes.length)
  payloadHash : infoMember (ascii "payload_hash") document = some (.string (sha256 bytes))

def Hashed (msg : CanMessage) : Prop := msg.hash = [] ∨ msg.hash = sha256 msg.frame.payload

theorem messageHash_of_hashed {msg : CanMessage} (h : Hashed msg) :
    messageHash msg = sha256 msg.frame.payload := by
  unfold messageHash
  split
  next => rfl
  next hhash => exact h.resolve_left hhash

theorem reportsBytes_messageJson {msg : CanMessage} (h : Hashed msg) (type : ConversationType) :
    ReportsBytes (messageJson type msg) msg.frame.payload := by
  have hlength : (msg.frame.payload.length : Int) = msg.frame.len.toNat := by
    rw [length_payload]
  rw [messageJson, messageHash_of_hashed h]
  refine ⟨rfl, ?_, rfl⟩
  rw [hlength]
  rfl

theorem length_payload_le (frame : CanFrame) : frame.payload.length ≤ 64 := by
  rw [length_payload]
  exact UInt8.le_iff_toNat_le.mp frame.len_le

/-! ## Digests in the queue and in the store -/

theorem hashed_payloadMessage? {undefined : Binary64.OutOfRange} {id : UInt16}
    {payload : Json} {declared : Vector UInt8 64} {msg : CanMessage}
    (h : RestApi.payloadMessage? undefined id payload declared = some msg) : Hashed msg := by
  cases payload with
  | int value =>
      rw [← Option.some.inj h, Hashed, FrameSendQueue.payload_int16Message]
      exact .inr rfl
  | double value =>
      rw [← Option.some.inj h, Hashed, FrameSendQueue.payload_int16Message]
      exact .inr rfl
  | string value =>
      rw [← Option.some.inj h]
      exact .inl rfl
  | bool value =>
      rw [← Option.some.inj h]
      exact .inl rfl
  | array items =>
      rw [← Option.some.inj h]
      exact .inl rfl
  | nul => cases h
  | object members => cases h

theorem stamped_hashed : Stamped Hashed where
  received _ _ _ := .inr rfl
  sent _ _ _ _ := .inr rfl
  valid _ h := h
  enqueued _ _ _ _ _ h := hashed_payloadMessage? h

/-! ## Documents -/

/--
Every document that is made in a run reports the bytes of its message, at most
64 of them, with their number and their digest.
-/
theorem documents_report (program : Program) (config : ConfigParser) (hash : StringMap)
    (fr : CanFrame) (events : List Event) (event : Event) (made : Conversion)
    (h : Conversion.inEvent program
      (System.run program (System.initial config hash fr) events) event = some made) :
    made.msg.frame.payload.length ≤ 64 ∧
      ∃ type, made.text = (messageJson type made.msg).dump ∧
        ReportsBytes (messageJson type made.msg) made.msg.frame.payload := by
  have hstart : AllMessages Hashed (System.initial config hash fr).shared := .start _ hash
  obtain ⟨hhashed, type, htext⟩ :=
    Conversion.of_allMessages stamped_hashed (hstart.run stamped_hashed events) h
  exact ⟨length_payload_le _, type, htext, reportsBytes_messageJson hhashed type⟩

def twoBytes : CanfdFrame :=
  ⟨200, 2, 0, Vector.ofFn fun i => if i = 0 then 192 else 0, two_len_le⟩

/-- The second frame of the same bytes finds the record of the first one. -/
def repeatedBytes : List Event :=
  [twoBytes, emptyFrame 42, twoBytes].map fun frame => .pass (reading frame)

/-- The answer to a request for the identifier after both. -/
def servedFrame : Conversion where
  msg := { Main.receivedMessage {} ⟨CanMessage.zero.frame, 0⟩ twoBytes with valid := true }
  text := messageText .int (Main.receivedMessage {} ⟨CanMessage.zero.frame, 0⟩ twoBytes)

theorem documents_report_servedFrame :
    servedFrame.msg.frame.payload.length ≤ 64 ∧
      ∃ type, servedFrame.text = (messageJson type servedFrame.msg).dump ∧
        ReportsBytes (messageJson type servedFrame.msg) servedFrame.msg.frame.payload :=
  documents_report .acceptAll (.loadConfigFile ∅) ∅ CanMessage.zero.frame repeatedBytes
    (.receive (ascii "200") {}) servedFrame (by decide +kernel)

end Can2Rest.Properties
