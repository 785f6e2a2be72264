import Can2Rest.Properties.FailedSends
import Can2Rest.Shared.Json11Text

/-!
# What Redis and the REST interface show

A pass of the main loop hands one document to Redis, and puts a message into the
store that `GET /receive` serves.  The two are made of different messages, and
the store keeps an old record for a repeated payload.
-/

namespace Can2Rest.Properties

open Foundation Shared RestApi CanFrameToJson

/-! ## Documents with the same text -/

/-- The messages agree in what `convert_frame` reports of them. -/
structure SameReport (type : ConversationType) (first second : CanMessage) : Prop where
  id : first.frame.id = second.frame.id
  tick : first.syncTick.toUInt32 = second.syncTick.toUInt32
  payload : first.frame.payload = second.frame.payload
  direction : first.messageReceieved = second.messageReceieved
  hash : messageHash first = messageHash second
  parsed : parsedPayload type first.frame = parsedPayload type second.frame

theorem completeJson_eq (type : ConversationType) (hash : Bytes) (msg : CanMessage) :
    completeJson type hash msg =
      .object
        [(ascii "info", .object
          [(ascii "direction", .string msg.messageReceieved.name),
           (ascii "direction_raw", .int msg.messageReceieved.toInt),
           (ascii "id", .int (asInt msg.frame.id.toNat)),
           (ascii "payload_hash", .string hash),
           (ascii "raw_data", frameDataToVector msg.frame),
           (ascii "raw_length", .int msg.frame.len.toNat),
           (ascii "sync_tick", .int (asInt msg.syncTick.toNat)),
           (ascii "type", .string type.name),
           (ascii "type_raw", .int type.toInt)]),
         (ascii "parsed_data", .object
           [(ascii "payload", parsedPayload type msg.frame)])] := rfl

theorem emod_of_asInt {first second : Nat} (h : asInt first = asInt second) :
    first % 2 ^ 32 = second % 2 ^ 32 := by
  unfold asInt at h
  have hfirst := @Int.bmod_emod (first : Int) (2 ^ 32)
  have hsecond := @Int.bmod_emod (second : Int) (2 ^ 32)
  rw [h, hsecond] at hfirst
  omega

theorem bmod_mod (n m : Nat) : Int.bmod ((n % m : Nat) : Int) m = Int.bmod n m := by
  rw [Int.natCast_mod]
  exact Int.emod_bmod _ _

theorem asInt_toUInt32 (tick : UInt64) : asInt tick.toUInt32.toNat = asInt tick.toNat := by
  rw [UInt64.toNat_toUInt32]
  exact bmod_mod tick.toNat (2 ^ 32)

theorem messageSend_name_injective : Function.Injective MessageSend.name := by
  intro first second h
  cases first <;> cases second <;> first | rfl | exact absurd h (by decide)

theorem parsedPayload_dump_inj {type : ConversationType} {first second : CanFrame}
    (h : (parsedPayload type first).dump = (parsedPayload type second).dump) :
    parsedPayload type first = parsedPayload type second := by
  have hends : Json.EndsNumber [] := by simp [Json.EndsNumber]
  have hint {a b : Int} (h : (Json.int a).dump = (Json.int b).dump) :
      Json.int a = Json.int b := by
    simp only [Json.dump] at h
    have hvalue : intToDecimal a ++ [] = intToDecimal b ++ [] := by rw [h]
    rw [(Json.intToDecimal_append_inj hends hends hvalue).1]
  cases type with
  | int => exact hint h
  | byte => exact hint h
  | bool =>
      simp only [parsedPayload] at h ⊢
      cases hfirst : first.firstByte != 0 <;> cases hsecond : second.firstByte != 0
      · rfl
      · rw [hfirst, hsecond] at h
        exact absurd h (by simp [Json.dump, ascii])
      · rw [hfirst, hsecond] at h
        exact absurd h (by simp [Json.dump, ascii])
      · rfl
  | str =>
      simp only [parsedPayload, Json.dump] at h ⊢
      have hvalue : Json.dumpString first.payload ++ [] = Json.dumpString second.payload ++ [] := by
        rw [h]
      rw [(Json.dumpString_append_inj hvalue).1]
  | raw => rfl
  | none => rfl

theorem frameDataToVector_eq (frame : CanFrame) :
    frameDataToVector frame = .array ((frame.payload.map fun b => (b.toNat : Int)).map .int) := by
  rw [frameDataToVector, List.map_map]
  rfl

theorem messageText_eq_iff {type : ConversationType} {first second : CanMessage} :
    messageText type first = messageText type second ↔
      SameReport (interpretNone type) first second := by
  constructor
  · intro h
    rw [messageText, messageText, messageJson, messageJson, completeJson_eq,
      completeJson_eq, frameDataToVector_eq, frameDataToVector_eq] at h
    simp only [Json.dump, Json.dumpMembers, List.append_assoc, List.append_cancel_left_eq,
      if_true, if_false, Bool.false_eq_true, List.nil_append] at h
    obtain ⟨hdirection, h⟩ := Json.dumpString_append_inj h
    simp only [List.append_cancel_left_eq] at h
    obtain ⟨-, h⟩ := Json.intToDecimal_append_inj (Json.endsNumber_comma _)
      (Json.endsNumber_comma _) h
    simp only [List.append_cancel_left_eq] at h
    obtain ⟨hid, h⟩ := Json.intToDecimal_append_inj (Json.endsNumber_comma _)
      (Json.endsNumber_comma _) h
    simp only [List.append_cancel_left_eq] at h
    obtain ⟨hhash, h⟩ := Json.dumpString_append_inj h
    simp only [List.append_cancel_left_eq] at h
    obtain ⟨hdata, h⟩ := Json.dumpItems_append_inj true h
    simp only [List.append_cancel_left_eq] at h
    obtain ⟨-, h⟩ := Json.intToDecimal_append_inj (Json.endsNumber_comma _)
      (Json.endsNumber_comma _) h
    simp only [List.append_cancel_left_eq] at h
    obtain ⟨htick, h⟩ := Json.intToDecimal_append_inj (Json.endsNumber_comma _)
      (Json.endsNumber_comma _) h
    simp only [List.append_cancel_left_eq] at h
    have hparsed := List.append_cancel_right h
    refine ⟨?_, ?_, ?_, messageSend_name_injective hdirection, hhash,
      parsedPayload_dump_inj hparsed⟩
    · have hmod := emod_of_asInt hid
      apply UInt32.toNat.inj
      have hfirst := first.frame.id.toNat_lt
      have hsecond := second.frame.id.toNat_lt
      omega
    · have hmod := emod_of_asInt htick
      apply UInt32.toNat.inj
      rw [UInt64.toNat_toUInt32, UInt64.toNat_toUInt32, hmod]
    · have hinjective : Function.Injective fun b : UInt8 => (b.toNat : Int) := by
        intro a b hab
        exact UInt8.toNat.inj (Int.ofNat.inj hab)
      exact List.map_injective_iff.mpr hinjective hdata
  · rintro ⟨hid, htick, hpayload, hdirection, hhash, hparsed⟩
    have hlen : (first.frame.len.toNat : Int) = second.frame.len.toNat := by
      rw [← length_payload, ← length_payload, hpayload]
    rw [messageText, messageText, messageJson, messageJson, completeJson_eq,
      completeJson_eq, frameDataToVector_eq, frameDataToVector_eq, hid, hpayload,
      hdirection, hhash, hparsed, hlen, ← asInt_toUInt32, htick, asInt_toUInt32]

theorem SameReport.refl (type : ConversationType) (msg : CanMessage) :
    SameReport type msg msg :=
  ⟨rfl, rfl, rfl, rfl, rfl, rfl⟩

/-! ## One pass of the main loop -/

/--
The document that the pass hands to Redis for an identifier is the one that
`GET /receive` answers right after it.
-/
def ViewsAgree (program : Program) (env : Env) (system : System) : Prop :=
  let after := System.step program system (.pass env)
  ∀ id json, after.shared.history.stored = system.shared.history.stored ++ [(id, json)] →
    id.toNat ≤ 65535 → ∀ later,
      ((receive (some (toDecimal id.toNat))).run bridge later after.shared).1.body = json

/-- The record that the store keeps when `msg` is put. -/
def keptRecord (mp : MessageMap) (msg : CanMessage) : CanMessage :=
  match mp[key msg.frame.id]? with
  | some stored => if stored.hash = msg.hash then stored else msg
  | none => msg

theorem getElem?_putMap_key (mp : MessageMap) (msg : CanMessage) :
    (CanHashtable.putMap mp msg)[key msg.frame.id]? = some (keptRecord mp msg) := by
  unfold CanHashtable.putMap keptRecord
  cases hstored : mp[key msg.frame.id]? with
  | none =>
      have hnew : ¬ CanHashtable.HasHash mp (key msg.frame.id) msg.hash := by
        simp [CanHashtable.HasHash, hstored]
      rw [if_neg hnew, getElem?_insert, if_pos rfl]
  | some stored =>
      have hsame : CanHashtable.HasHash mp (key msg.frame.id) msg.hash ↔
          stored.hash = msg.hash := by
        simp [CanHashtable.HasHash, hstored]
      by_cases hhash : stored.hash = msg.hash
      · rw [if_pos (hsame.mpr hhash), hstored]
        simp only [if_pos hhash]
      · rw [if_neg (fun h => hhash (hsame.mp h)), getElem?_insert, if_pos rfl]
        simp only [if_neg hhash]

theorem key_keptRecord {mp : MessageMap}
    (hmp : ∀ (id : UInt16) (msg : CanMessage), mp[id]? = some msg → key msg.frame.id = id)
    (msg : CanMessage) : key (keptRecord mp msg).frame.id = key msg.frame.id := by
  unfold keptRecord
  split
  next stored hstored =>
    split
    · exact hmp _ stored hstored
    · rfl
  next => rfl

/--
The record of the same digest reports what the message that is handed to Redis does; and
where there is none, so does the message that was put.
-/
def KeptReports (type : ConversationType) (mp : MessageMap) (put handed : CanMessage) : Prop :=
  (∀ stored, mp[key put.frame.id]? = some stored → stored.hash = put.hash →
      SameReport type stored handed) ∧
    (¬ CanHashtable.HasHash mp (key put.frame.id) put.hash → SameReport type put handed)

theorem sameReport_keptRecord_iff {type : ConversationType} {mp : MessageMap}
    {put handed : CanMessage} :
    SameReport type (keptRecord mp put) handed ↔ KeptReports type mp put handed := by
  unfold keptRecord
  split
  next stored hstored =>
    have hsame : CanHashtable.HasHash mp (key put.frame.id) put.hash ↔
        stored.hash = put.hash := by
      simp [CanHashtable.HasHash, hstored]
    rw [KeptReports, hsame, hstored]
    split
    next hhash => simp [hhash]
    next hhash => simp [hhash]
  next hnone =>
    have hnew : ¬ CanHashtable.HasHash mp (key put.frame.id) put.hash := by
      simp [CanHashtable.HasHash, hnone]
    rw [KeptReports, hnone]
    simp [hnew]

/-- What the pass puts reports the same as what it hands to Redis. -/
def ReportsKept (program : Program) (env : Env) (system : System) : Prop :=
  match env.received with
  | some frame =>
      program.setup.idFilter.checkMessage (key frame.canId) = true →
        frame.canId.toNat ≤ 65535 →
          let msg := Main.receivedMessage env system.locals frame
          KeptReports
            (interpretNone (registeredType system.shared.typeRegister (key frame.canId)))
            system.shared.mp msg msg
  | none =>
      ¬ FrameSendQueue.Hidden system.shared →
        ∀ msg, system.shared.messageQueue.head? = some msg → msg.frame.id.toNat ≤ 65535 →
          KeptReports
            (interpretNone (registeredType
              (Main.registerState system.shared msg).typeRegister (key msg.frame.id)))
            system.shared.mp (Main.sentMessage env system.locals.frameSyncCounter msg) msg

theorem receive_body {state : Bridge} {id : UInt32} {msg : CanMessage}
    (hid : id.toNat ≤ 65535) (hstored : state.mp[key id]? = some msg)
    (hkey : key msg.frame.id = key id) (later : Env) :
    ((receive (some (toDecimal id.toNat))).run bridge later state).1.body =
      messageText (registeredType state.typeRegister (key id)) msg := by
  have hrequest : requestKey (toDecimal id.toNat) = key id := by
    rw [requestKey_toDecimal hid]
    apply UInt16.toNat.inj
    rw [UInt16.toNat_ofNat', toNat_key]
  rw [run_receive, receiveResponse, hrequest, hstored]
  simp only [document, hkey, messageText]

theorem viewsAgree_of_handed {before after : Bridge} {id : UInt32}
    {type : ConversationType} {kept handed : CanMessage}
    (hstored : after.history.stored =
      before.history.stored ++ [(id, messageText type handed)])
    (hrecord : after.mp[key id]? = some kept) (hkey : key kept.frame.id = key id)
    (htype : registeredType after.typeRegister (key id) = type) :
    (∀ id' json, after.history.stored = before.history.stored ++ [(id', json)] →
        id'.toNat ≤ 65535 → ∀ later,
          ((receive (some (toDecimal id'.toNat))).run bridge later after).1.body = json) ↔
      (id.toNat ≤ 65535 → SameReport (interpretNone type) kept handed) := by
  constructor
  · intro hagree hid
    have hbody := hagree id _ hstored hid {}
    rw [receive_body hid hrecord hkey, htype] at hbody
    exact messageText_eq_iff.mp hbody
  · intro hreport id' json hstored' hid later
    rw [hstored, List.append_cancel_left_eq, List.cons.injEq, Prod.mk.injEq] at hstored'
    obtain ⟨⟨rfl, rfl⟩, -⟩ := hstored'
    rw [receive_body hid hrecord hkey, htype]
    exact messageText_eq_iff.mpr (hreport hid)

theorem viewsAgree_of_same {before after : Bridge}
    (h : after.history.stored = before.history.stored) :
    ∀ id json, after.history.stored = before.history.stored ++ [(id, json)] →
      id.toNat ≤ 65535 → ∀ later,
        ((receive (some (toDecimal id.toNat))).run bridge later after).1.body = json := by
  intro id json hstored
  rw [h] at hstored
  simp at hstored

section Passes

variable {program : Program} {env : Env} {system : System}

theorem viewsAgree_accepted {frame : CanfdFrame} (hread : env.received = some frame)
    (hcheck : program.setup.idFilter.checkMessage (key frame.canId) = true)
    (hsound : StoreSound system.shared) :
    ViewsAgree program env system ↔ ReportsKept program env system := by
  let msg := Main.receivedMessage env system.locals frame
  have hkeys (id : UInt16) (msg : CanMessage) (h : system.shared.mp[id]? = some msg) :
      key msg.frame.id = id := (hsound.store id msg h).key_eq
  unfold ViewsAgree ReportsKept
  rw [System.step_accepted hread hcheck]
  simp only [hread, hcheck, true_implies, ← sameReport_keptRecord_iff]
  refine viewsAgree_of_handed rfl (getElem?_putMap_key system.shared.mp msg)
    (key_keptRecord hkeys msg) ?_
  rw [Main.receivedState_typeRegister, registeredType_lookedUp,
    Bridge.canRead_snd_typeRegister]

theorem viewsAgree_rejected {frame : CanfdFrame} (hread : env.received = some frame)
    (hcheck : program.setup.idFilter.checkMessage (key frame.canId) = false) :
    ViewsAgree program env system ↔ ReportsKept program env system := by
  unfold ViewsAgree ReportsKept
  rw [System.step_rejected hread hcheck]
  simp only [hread, hcheck, Bool.false_eq_true, false_implies, iff_true]
  exact viewsAgree_of_same rfl

theorem viewsAgree_idle (hread : env.received = none)
    (hhidden : FrameSendQueue.Hidden system.shared) :
    ViewsAgree program env system ↔ ReportsKept program env system := by
  have hstep : (System.step program system (.pass env)).shared =
      (system.shared.canRead env).2 := by
    have hqueue : FrameSendQueue.Hidden (system.shared.canRead env).2 := hhidden
    rw [System.step, Main.run_mainPass_none hread, Main.run_sendMessage_of_hidden hqueue]
  unfold ViewsAgree ReportsKept
  simp only [hread, hhidden, not_true_eq_false, false_implies, iff_true, hstep]
  exact viewsAgree_of_same rfl

theorem viewsAgree_sent (hread : env.received = none)
    (hvisible : ¬ FrameSendQueue.Hidden system.shared) (hsound : StoreSound system.shared) :
    ViewsAgree program env system ↔ ReportsKept program env system := by
  have hkeys (id : UInt16) (msg : CanMessage) (h : system.shared.mp[id]? = some msg) :
      key msg.frame.id = id := (hsound.store id msg h).key_eq
  obtain ⟨msg, rest, hqueue⟩ : ∃ msg rest, system.shared.messageQueue = msg :: rest := by
    cases hmessages : system.shared.messageQueue with
    | nil => exact absurd (FrameSendQueue.hidden_of_nil hmessages) hvisible
    | cons msg rest => exact ⟨msg, rest, rfl⟩
  let put := Main.sentMessage env system.locals.frameSyncCounter msg
  have hfront : (system.shared.canRead env).2.messageQueue = msg :: rest := hqueue
  unfold ViewsAgree ReportsKept
  rw [System.step, Main.run_mainPass_none hread, Main.run_sendMessage hfront hvisible]
  simp only [hread, hvisible, not_false_eq_true, true_implies, hqueue, List.head?_cons,
    Option.some.injEq, forall_eq', ← sameReport_keptRecord_iff]
  refine viewsAgree_of_handed rfl (getElem?_putMap_key system.shared.mp put)
    (key_keptRecord hkeys put) ?_
  exact registeredType_lookedUp _ _ _

theorem viewsAgree_iff (hsound : StoreSound system.shared) :
    ViewsAgree program env system ↔ ReportsKept program env system := by
  cases hread : env.received with
  | some frame =>
      cases hcheck : program.setup.idFilter.checkMessage (key frame.canId) with
      | true => exact viewsAgree_accepted hread hcheck hsound
      | false => exact viewsAgree_rejected hread hcheck
  | none =>
      by_cases hhidden : FrameSendQueue.Hidden system.shared
      · exact viewsAgree_idle hread hhidden
      · exact viewsAgree_sent hread hhidden hsound

end Passes

/--
In every state the program reaches, a pass leaves Redis and the REST interface
with the same document of its frame exactly if the record that the store keeps
reports what the handed message does.
-/
theorem views_agree_iff (program : Program) (config : ConfigParser) (hash : StringMap)
    (fr : CanFrame) (events : List Event) (env : Env) :
    ViewsAgree program env (System.run program (System.initial config hash fr) events) ↔
      ReportsKept program env
        (System.run program (System.initial config hash fr) events) :=
  viewsAgree_iff (storeSound_run events (StoreSound.start _ hash))

def oneFrameOneRequest : List Event := oneFrame ++ [.send boolRequest {}]

/--
For a repeated frame Redis gets its tick and the store keeps the tick of the
first one; for a sent frame Redis gets the tick of the queue, which is 0.
-/
theorem views_differ :
    ¬ ViewsAgree .acceptAll { received := some (emptyFrame 200) }
        (System.run .acceptAll (System.initial (.loadConfigFile ∅) ∅ CanMessage.zero.frame)
          oneFrame) ∧
      ¬ ViewsAgree .acceptAll {}
        (System.run .acceptAll (System.initial (.loadConfigFile ∅) ∅ CanMessage.zero.frame)
          oneFrameOneRequest) := by
  have hstart : StoreSound
      (System.initial (.loadConfigFile ∅) ∅ CanMessage.zero.frame).shared :=
    StoreSound.start _ ∅
  rw [viewsAgree_iff (storeSound_run oneFrame hstart),
    viewsAgree_iff (storeSound_run oneFrameOneRequest hstart)]
  constructor
  · intro hreport
    have htick := (sameReport_keptRecord_iff.mpr
      (hreport (by decide +kernel) (by decide +kernel))).tick
    exact absurd htick (by decide +kernel)
  · intro hreport
    have hvisible : ¬ FrameSendQueue.Hidden (System.run .acceptAll (System.initial
        (.loadConfigFile ∅) ∅ CanMessage.zero.frame) oneFrameOneRequest).shared := by
      rw [FrameSendQueue.Hidden]
      decide +kernel
    have htick := (sameReport_keptRecord_iff.mpr (hreport hvisible requestedMessage
      (by decide +kernel) (by decide +kernel))).tick
    exact absurd htick (by decide +kernel)

end Can2Rest.Properties
