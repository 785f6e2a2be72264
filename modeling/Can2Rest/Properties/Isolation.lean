import Can2Rest.System

/-!
# Frames do not leak into each other

Every read goes into the same buffer and replaces only its first `len` bytes,
while `INT`, `BOOL`, `BYTE` and the sync counter look at fixed positions.  What a
client can see depends on the accepted frames alone, if each of them is long
enough for what is looked at.
-/

namespace Can2Rest.Properties

open Foundation Shared

/-! ## One frame -/

/-- The frame has the bytes that are looked at for its type and its identifier. -/
structure Covered (type : ConversationType) (frame : CanfdFrame) : Prop where
  int : type = .int → 2 ≤ frame.len.toNat
  byte : type = .bool ∨ type = .byte → 1 ≤ frame.len.toNat
  sync : frame.canId = Main.syncFrameId → 2 ≤ frame.len.toNat

/-- What is read of the frame is the same in every buffer. -/
def BufferIndependent (type : ConversationType) (frame : CanfdFrame) : Prop :=
  ∀ first second : CanFrame,
    CanFrameToJson.parsedPayload (CanFrameToJson.interpretNone type) (first.receive frame) =
        CanFrameToJson.parsedPayload (CanFrameToJson.interpretNone type)
          (second.receive frame) ∧
      ∀ counter, Main.countFrame counter (first.receive frame) =
        Main.countFrame counter (second.receive frame)

theorem parsedPayload_congr {type : ConversationType} {first second : CanFrame}
    (h : first.payload = second.payload) (hint : type = .int → 2 ≤ first.len.toNat)
    (hbyte : type = .bool ∨ type = .byte → 1 ≤ first.len.toNat) :
    CanFrameToJson.parsedPayload type first = CanFrameToJson.parsedPayload type second := by
  cases type with
  | int => rw [CanFrameToJson.parsedPayload, word_congr h (hint rfl)]; rfl
  | bool => rw [CanFrameToJson.parsedPayload, firstByte_congr h (hbyte (.inl rfl))]; rfl
  | byte => rw [CanFrameToJson.parsedPayload, firstByte_congr h (hbyte (.inr rfl))]; rfl
  | str => rw [CanFrameToJson.parsedPayload, h]; rfl
  | raw => rfl
  | none => rfl

theorem parsedPayload_interpretNone_congr {type : ConversationType} {first second : CanFrame}
    (h : first.payload = second.payload) (hint : type = .int → 2 ≤ first.len.toNat)
    (hbyte : type = .bool ∨ type = .byte → 1 ≤ first.len.toNat) :
    CanFrameToJson.parsedPayload (CanFrameToJson.interpretNone type) first =
      CanFrameToJson.parsedPayload (CanFrameToJson.interpretNone type) second := by
  by_cases hnone : type = .none
  · rw [CanFrameToJson.interpretNone, if_pos hnone]
    rfl
  · rw [CanFrameToJson.interpretNone, if_neg hnone]
    exact parsedPayload_congr h hint hbyte

theorem countFrame_congr {first second : CanFrame} (hid : first.id = second.id)
    (h : first.payload = second.payload)
    (hsync : first.id = Main.syncFrameId → 2 ≤ first.len.toNat) (counter : UInt32) :
    Main.countFrame counter first = Main.countFrame counter second := by
  by_cases hsyncFrame : first.id = Main.syncFrameId
  · simp only [Main.countFrame, ← hid, word_congr h (hsync hsyncFrame)]
  · simp only [Main.countFrame, ← hid, hsyncFrame, false_and, if_false]

def filled (b : UInt8) : CanFrame := ⟨0, 0, 0, Vector.replicate 64 b, zero_len_le⟩

theorem firstByte_filled (frame : CanfdFrame) (h : frame.len.toNat < 1) (b : UInt8) :
    ((filled b).receive frame).firstByte = b := by
  simp [CanFrame.firstByte, CanFrame.receive, memcpy, filled, show frame.len.toNat = 0 by omega]

theorem word_filled (frame : CanfdFrame) (h : frame.len.toNat < 2) (b : UInt8) :
    ((filled b).receive frame).word =
      b.toNat * 256 + ((filled b).receive frame).firstByte.toNat := by
  have hhigh : ((filled b).receive frame).data[1] = b := by
    simp [CanFrame.receive, memcpy, filled, show ¬ 1 < frame.len.toNat by omega]
  rw [word_eq_add, hhigh]

theorem word_filled_ne (frame : CanfdFrame) (h : frame.len.toNat < 2) :
    ((filled 0).receive frame).word < 256 ∧ 256 ≤ ((filled 1).receive frame).word := by
  rw [word_filled frame h, word_filled frame h]
  have hbyte := UInt8.toNat_lt ((filled 0).receive frame).firstByte
  have hone : (1 : UInt8).toNat = 1 := rfl
  have hzero : (0 : UInt8).toNat = 0 := rfl
  omega

theorem ite_gt_zero (i : UInt32) : (if i > 0 then i else 0) = i := by
  split
  next => rfl
  next h =>
    apply UInt32.toNat.inj
    rw [gt_iff_lt, UInt32.lt_iff_toNat_lt] at h
    simp at h ⊢
    omega

theorem covered_of_bufferIndependent {type : ConversationType} {frame : CanfdFrame}
    (h : BufferIndependent type frame) : Covered type frame := by
  obtain ⟨hpayload, hcount⟩ := h (filled 0) (filled 1)
  constructor
  · rintro rfl
    by_contra hlen
    have hwords := word_filled_ne frame (by omega)
    have hword : ((filled 0).receive frame).word = ((filled 1).receive frame).word := by
      simpa [CanFrameToJson.interpretNone, CanFrameToJson.parsedPayload] using hpayload
    omega
  · intro htype
    by_contra hlen
    have hbytes := fun b => firstByte_filled frame (by omega) b
    rcases htype with rfl | rfl <;>
      simp [CanFrameToJson.interpretNone, CanFrameToJson.parsedPayload, hbytes] at hpayload
  · intro hsync
    by_contra hlen
    have hwords := word_filled_ne frame (by omega)
    have hbound := word_filled frame (by omega) 1
    have hbyte := UInt8.toNat_lt ((filled 1).receive frame).firstByte
    have hcounters := hcount 0
    have hid : ∀ b, ((filled b).receive frame).id = Main.syncFrameId := fun _ => hsync
    simp only [Main.countFrame, hid, true_and, ite_gt_zero] at hcounters
    have hwords' := congrArg UInt32.toNat ((UInt32.add_left_inj 1).mp hcounters)
    rw [UInt32.toNat_ofNat', UInt32.toNat_ofNat'] at hwords'
    have hone : (1 : UInt8).toNat = 1 := rfl
    omega

theorem bufferIndependent_iff {type : ConversationType} {frame : CanfdFrame} :
    BufferIndependent type frame ↔ Covered type frame := by
  refine ⟨covered_of_bufferIndependent, fun h first second => ⟨?_, ?_⟩⟩
  · exact parsedPayload_interpretNone_congr (by simp) h.int h.byte
  · exact countFrame_congr rfl (by simp) h.sync
/-! ## Two runs of the receive loop -/

/-- One pass of the receive loop; the environment has no other frame. -/
def receiveStep (program : Program) (system : System) (input : CanfdFrame × Env) : System :=
  System.step program system (.pass { input.2 with received := some input.1 })

def receiveLoop (program : Program) (start : System) (inputs : List (CanfdFrame × Env)) :
    System :=
  runFrom (receiveStep program) start inputs

/-- `id_filter.check_message`. -/
def passes (program : Program) (input : CanfdFrame × Env) : Bool :=
  program.setup.idFilter.checkMessage (key input.1.canId)

/-- The identifier word, `len` and `data[0..len)`. -/
def content (input : CanfdFrame × Env) : UInt32 × UInt8 × Bytes :=
  (input.1.canId, input.1.len, input.1.payload)

/-- The digest of a stored message and the document that `convert_frame` yields. -/
def record (state : Bridge) (msg : CanMessage) : Bytes × Bytes :=
  (msg.hash, RedisInterface.storeText state msg)

/-- What clients can see is the same. -/
structure SameView (first second : System) : Prop where
  counter : first.locals.frameSyncCounter = second.locals.frameSyncCounter
  typeRegister : first.shared.typeRegister = second.shared.typeRegister
  records : ∀ id : UInt16, first.shared.mp[id]?.map (record first.shared) =
    second.shared.mp[id]?.map (record second.shared)
  writeMap : first.shared.writeMap = second.shared.writeMap
  redisServer : first.shared.redisServer = second.shared.redisServer

theorem record_congr {first second : Bridge}
    (h : ∀ id, CanFrameToJson.registeredType first.typeRegister id =
      CanFrameToJson.registeredType second.typeRegister id) :
    record first = record second := by
  funext msg
  rw [record, record, RedisInterface.storeText, RedisInterface.storeText, h]

theorem putMap_records {first second : MessageMap} {view : CanMessage → Bytes × Bytes}
    (hview : ∀ msg, (view msg).1 = msg.hash) {msg msg' : CanMessage}
    (hkey : key msg.frame.id = key msg'.frame.id) (hmsg : view msg = view msg')
    (h : ∀ id : UInt16, first[id]?.map view = second[id]?.map view) (id : UInt16) :
    (CanHashtable.putMap first msg)[id]?.map view =
      (CanHashtable.putMap second msg')[id]?.map view := by
  have hhash : msg.hash = msg'.hash := by rw [← hview, hmsg, hview]
  have hdigests (mp : MessageMap) (id : UInt16) :
      mp[id]?.map CanMessage.hash = (mp[id]?.map view).map Prod.fst := by
    rw [Option.map_map]
    exact congrArg (mp[id]?.map ·) (funext fun msg => (hview msg).symm)
  have hsame : CanHashtable.HasHash first (key msg.frame.id) msg.hash ↔
      CanHashtable.HasHash second (key msg'.frame.id) msg'.hash := by
    rw [CanHashtable.hasHash_iff, CanHashtable.hasHash_iff, hdigests, hdigests, h, hkey, hhash]
  unfold CanHashtable.putMap
  by_cases hhas : CanHashtable.HasHash first (key msg.frame.id) msg.hash
  · rw [if_pos hhas, if_pos (hsame.mp hhas)]
    exact h id
  · rw [if_neg hhas, if_neg (fun hother => hhas (hsame.mpr hother)), getElem?_insert,
      getElem?_insert, hkey]
    split
    · rw [Option.map_some, Option.map_some, hmsg]
    · exact h id

theorem messageText_congr {type : ConversationType} {first second : CanMessage}
    (hid : first.frame.id = second.frame.id) (hlen : first.frame.len = second.frame.len)
    (hpayload : first.frame.payload = second.frame.payload) (hhash : first.hash = second.hash)
    (htick : first.syncTick = second.syncTick)
    (hsend : first.messageReceieved = second.messageReceieved)
    (hparsed : CanFrameToJson.parsedPayload (CanFrameToJson.interpretNone type) first.frame =
      CanFrameToJson.parsedPayload (CanFrameToJson.interpretNone type) second.frame) :
    CanFrameToJson.messageText type first = CanFrameToJson.messageText type second := by
  simp only [CanFrameToJson.messageText, CanFrameToJson.messageJson,
    CanFrameToJson.completeJson, CanFrameToJson.infoJson, CanFrameToJson.messageHash,
    CanFrameToJson.frameDataToVector, hid, hlen, hpayload, hhash, htick, hsend, hparsed]

section Steps

variable {program : Program} {first second : System} {input input' : CanfdFrame × Env}

theorem receivedMessage_record (hcontent : content input = content input')
    (hcounter : first.locals.frameSyncCounter = second.locals.frameSyncCounter)
    (hcovered : Covered (CanFrameToJson.registeredType first.shared.typeRegister
      (key input.1.canId)) input.1) (env env' : Env) :
    record first.shared (Main.receivedMessage env first.locals input.1) =
      record first.shared (Main.receivedMessage env' second.locals input'.1) := by
  simp only [content, Prod.mk.injEq] at hcontent
  obtain ⟨hid, hlen, hpayload⟩ := hcontent
  have hbytes : (first.locals.fr.receive input.1).payload =
      (second.locals.fr.receive input'.1).payload := by simpa using hpayload
  simp only [record, RedisInterface.storeText, Main.receivedMessage_hash,
    Main.receivedMessage_frame, id_receive, ← hid, hpayload, Prod.mk.injEq, true_and]
  apply messageText_congr
  · simpa using hid
  · simpa using hlen
  · simpa using hpayload
  · simp [hpayload]
  · simp [hcounter]
  · simp
  · exact parsedPayload_interpretNone_congr hbytes hcovered.int hcovered.byte

theorem SameView.accepted (hpasses : passes program input = true)
    (hpasses' : passes program input' = true) (hcontent : content input = content input')
    (hcovered : Covered (CanFrameToJson.registeredType first.shared.typeRegister
      (key input.1.canId)) input.1) (h : SameView first second) :
    SameView (receiveStep program first input) (receiveStep program second input') := by
  have hid : input.1.canId = input'.1.canId := congrArg Prod.fst hcontent
  have hpayload : input.1.payload = input'.1.payload := congrArg (·.2.2) hcontent
  have hmessage := receivedMessage_record hcontent h.counter hcovered
    { input.2 with received := some input.1 } { input'.2 with received := some input'.1 }
  rw [receiveStep, receiveStep, System.step_accepted rfl hpasses,
    System.step_accepted rfl hpasses']
  constructor
  · rw [h.counter]
    exact countFrame_congr (by simpa using hid) (by simpa using hpayload) hcovered.sync _
  · simp only [Main.receivedState_typeRegister, Main.receivedMessage_frame, id_receive,
      Bridge.canRead_snd_typeRegister, h.typeRegister, hid]
  · have hview (system : System) (env : Env) (msg : CanMessage)
        (hregister : first.shared.typeRegister = system.shared.typeRegister) :
        record (Main.receivedState program.setup (system.shared.canRead env).2 msg) =
          record first.shared := by
      apply record_congr
      intro id
      simp only [Main.receivedState_typeRegister, Bridge.canRead_snd_typeRegister,
        CanFrameToJson.registeredType_lookedUp, hregister]
    simp only [hview first _ _ rfl, hview second _ _ h.typeRegister,
      Main.receivedState_mp, Bridge.canRead_snd_mp]
    apply putMap_records (fun msg => rfl) (by simp [hid]) hmessage
    intro id
    rw [h.records, record_congr fun id => by rw [h.typeRegister]]
  · have htext (system : System) (env : Env) (msg stored : CanMessage)
        (hregister : first.shared.typeRegister = system.shared.typeRegister) :
        RedisInterface.storeText
            (CanHashtable.putState (system.shared.canRead env).2 stored) msg =
          RedisInterface.storeText first.shared msg :=
      RedisInterface.storeText_congr hregister.symm msg
    simp only [Main.receivedState_writeMap, Bridge.canRead_snd_writeMap, h.writeMap,
      htext first _ _ _ rfl, htext second _ _ _ h.typeRegister, Main.receivedMessage_frame,
      id_receive, hid]
    exact congrArg (Std.ExtTreeMap.insertIfNew _ _ ·) (congrArg Prod.snd hmessage)
  · simp only [Main.receivedState_redisServer, Bridge.canRead_snd_redisServer, h.redisServer]

theorem receiveStep_rejected (hpasses : passes program input = false) (system : System) :
    receiveStep program system input =
      ⟨(system.shared.canRead { input.2 with received := some input.1 }).2,
       { system.locals with fr := system.locals.fr.receive input.1 }⟩ :=
  System.step_rejected rfl hpasses system

theorem SameView.rejected_left (hpasses : passes program input = false)
    (h : SameView first second) : SameView (receiveStep program first input) second := by
  rw [receiveStep_rejected hpasses]
  exact ⟨h.counter, h.typeRegister, h.records, h.writeMap, h.redisServer⟩

theorem SameView.rejected_right (hpasses : passes program input = false)
    (h : SameView first second) : SameView first (receiveStep program second input) := by
  rw [receiveStep_rejected hpasses]
  exact ⟨h.counter, h.typeRegister, h.records, h.writeMap, h.redisServer⟩

theorem registeredType_receiveStep (program : Program) (system : System)
    (input : CanfdFrame × Env) (id : UInt16) :
    CanFrameToJson.registeredType
        (receiveStep program system input).shared.typeRegister id =
      CanFrameToJson.registeredType system.shared.typeRegister id := by
  cases hpasses : passes program input with
  | false => rw [receiveStep_rejected hpasses, Bridge.canRead_snd_typeRegister]
  | true =>
      rw [receiveStep, System.step_accepted rfl hpasses, Main.receivedState_typeRegister,
        CanFrameToJson.registeredType_lookedUp, Bridge.canRead_snd_typeRegister]

end Steps

/-- Everything that is accepted has the bytes that are looked at. -/
def AcceptedCovered (program : Program) (register : TypeRegister)
    (inputs : List (CanfdFrame × Env)) : Prop :=
  ∀ input ∈ inputs, passes program input = true →
    Covered (CanFrameToJson.registeredType register (key input.1.canId)) input.1

def SameAccepted (program : Program) (first second : List (CanfdFrame × Env)) : Prop :=
  (first.filter (passes program)).map content = (second.filter (passes program)).map content

instance (program : Program) (first second : List (CanfdFrame × Env)) :
    Decidable (SameAccepted program first second) :=
  inferInstanceAs (Decidable (_ = _))

structure Related (register : TypeRegister) (first second : System) : Prop where
  view : SameView first second
  types : ∀ id, CanFrameToJson.registeredType first.shared.typeRegister id =
    CanFrameToJson.registeredType register id

theorem related_run {program : Program} {register : TypeRegister} {first second : System}
    {inputs inputs' : List (CanfdFrame × Env)} (hsame : SameAccepted program inputs inputs')
    (hcovered : AcceptedCovered program register inputs) (h : Related register first second) :
    Related register (receiveLoop program first inputs)
      (receiveLoop program second inputs') := by
  refine runFrom_agree ?_ ?_ ?_ hsame hcovered h
  · intro s t input hpasses hrelated
    exact ⟨hrelated.view.rejected_left hpasses, fun id =>
      (registeredType_receiveStep program s input id).trans (hrelated.types id)⟩
  · intro s t input hpasses hrelated
    exact ⟨hrelated.view.rejected_right hpasses, hrelated.types⟩
  · intro s t input input' hpasses hpasses' hinput hcontent hrelated
    rw [← hrelated.types] at hinput
    exact ⟨hrelated.view.accepted hpasses hpasses' hcontent hinput, fun id =>
      (registeredType_receiveStep program s input id).trans (hrelated.types id)⟩

/--
What is read of a frame is independent of the buffer iff the frame is covered;
and two runs of the receive loop from the same shared state and counter, whose
accepted frames agree and are covered, end with the same view, whatever was in
the buffer and whatever else was received.
-/
theorem accepted_frames_decide (program : Program) :
    (∀ type frame, BufferIndependent type frame ↔ Covered type frame) ∧
      ∀ (state : Bridge) (counter : UInt32) (fr fr' : CanFrame)
          (first second : List (CanfdFrame × Env)),
        SameAccepted program first second →
          AcceptedCovered program state.typeRegister first →
            SameView (receiveLoop program ⟨state, ⟨fr, counter⟩⟩ first)
              (receiveLoop program ⟨state, ⟨fr', counter⟩⟩ second) := by
  refine ⟨fun type frame => bufferIndependent_iff, ?_⟩
  intro state counter fr fr' first second hsame hcovered
  have hstart : Related state.typeRegister ⟨state, ⟨fr, counter⟩⟩ ⟨state, ⟨fr', counter⟩⟩ :=
    ⟨⟨rfl, rfl, fun _ => rfl, rfl, rfl⟩, fun _ => rfl⟩
  exact (related_run hsame hcovered hstart).view

def sevens (word : UInt32) (len : UInt8) (h : len ≤ 64) : CanfdFrame :=
  ⟨word, len, 0, Vector.replicate 64 7, h⟩

def rejectOne : Program :=
  { Program.acceptAll with
    setup :=
      { Program.acceptAll.setup with
        idFilter := Program.acceptAll.setup.idFilter.setFilter 1 false } }

def rejected : CanfdFrame × Env := (sevens 1 2 (by decide), {})

def longSync : CanfdFrame × Env := (sevens 42 2 (by decide), {})

def shortSync : CanfdFrame × Env := (sevens 42 0 zero_len_le, {})

theorem accepted_frames_decide_longSync :
    SameView
      (receiveLoop rejectOne ⟨.start ∅ ∅, ⟨filled 0, 0⟩⟩ [rejected, longSync])
      (receiveLoop rejectOne ⟨.start ∅ ∅, ⟨filled 0, 0⟩⟩ [longSync]) := by
  refine (accepted_frames_decide rejectOne).2 (.start ∅ ∅) 0 (filled 0) (filled 0) _ _
    (by decide +kernel) ?_
  intro input hinput hpasses
  have hlong : input = longSync := by
    rcases List.mem_cons.mp hinput with rfl | hmem
    · exact absurd hpasses (by decide +kernel)
    · exact List.mem_singleton.mp hmem
  subst hlong
  exact ⟨fun _ => by decide, fun _ => by decide, fun _ => by decide⟩

/-- The bytes of a rejected frame are taken for the value of a sync frame without data. -/
theorem rejected_frame_leaks :
    SameAccepted rejectOne [rejected, shortSync] [shortSync] ∧
      ¬ SameView
        (receiveLoop rejectOne ⟨.start ∅ ∅, ⟨filled 0, 0⟩⟩ [rejected, shortSync])
        (receiveLoop rejectOne ⟨.start ∅ ∅, ⟨filled 0, 0⟩⟩ [shortSync]) := by
  have hrejected : passes rejectOne rejected = false := by decide +kernel
  have hsync : passes rejectOne shortSync = true := by decide +kernel
  refine ⟨by decide +kernel, fun hview => ?_⟩
  have hcounter := hview.counter
  rw [receiveLoop, receiveLoop, runFrom_cons, runFrom_cons, runFrom_nil, runFrom_cons,
    runFrom_nil, receiveStep_rejected hrejected, receiveStep, receiveStep,
    System.step_accepted rfl hsync, System.step_accepted rfl hsync] at hcounter
  revert hcounter
  decide +kernel

end Can2Rest.Properties
