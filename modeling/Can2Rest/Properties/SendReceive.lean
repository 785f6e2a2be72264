import Can2Rest.Properties.FailedSends

/-!
# Sending a value and reading it back

The encoders write an integer as a signed word of sixteen bits and the
conversion reads an unsigned one; they agree on 0 to 32767.  Booleans and short
strings are read back as they were sent, unless the store kept a record with the
same digest and other bytes, or a frame of another word took the key.
-/

namespace Can2Rest.Properties

open Foundation Shared RestApi

/-! ## Encoding and decoding -/

private theorem lowByte (word : UInt16) :
    (word &&& 0x00FF).toUInt8.toNat = word.toNat % 256 := by
  have hmask : (0x00FF : UInt16).toNat = 2 ^ 8 - 1 := rfl
  rw [UInt16.toNat_toUInt8, UInt16.toNat_and, hmask, Nat.and_two_pow_sub_one_eq_mod,
    Nat.mod_mod]

private theorem highByte (word : UInt16) :
    ((word &&& 0xFF00) >>> 8).toUInt8.toNat = word.toNat / 256 := by
  have hmask : (0xFF00 : UInt16).toNat >>> 8 = 2 ^ 8 - 1 := rfl
  have hshift : (8 : UInt16).toNat % 16 = 8 := rfl
  have hbound := UInt16.toNat_lt word
  rw [UInt16.toNat_toUInt8, UInt16.toNat_shiftRight, UInt16.toNat_and, hshift,
    Nat.shiftRight_and_distrib, hmask, Nat.and_two_pow_sub_one_eq_mod, Nat.mod_mod,
    Nat.shiftRight_eq_div_pow]
  omega

theorem word_int16Bytes {frame : CanFrame} {value : Int16}
    (h : frame.payload = FrameSendQueue.int16Bytes value) :
    frame.word = value.toUInt16.toNat := by
  rw [word_eq h, lowByte, highByte, ← Nat.shiftLeft_add_eq_or_of_lt (by omega),
    Nat.shiftLeft_eq]
  omega

theorem toUInt16_ofInt {value : Int} (hlower : 0 ≤ value) (hupper : value ≤ 32767) :
    ((Int16.ofInt value).toUInt16.toNat : Int) = value := by
  obtain ⟨n, rfl⟩ := Int.eq_ofNat_of_zero_le hlower
  rw [Int16.ofInt_eq_ofNat, Int16.toUInt16_ofNat', UInt16.toNat_ofNat']
  omega

/-- A JSON number whose value is the integer `v`. -/
def IsInteger (payload : Json) (v : ℤ) : Prop :=
  payload.isNumber = true ∧ payload.numberValue = .finite v

/-- The payloads of a round trip, each with the type its message carries. -/
inductive Sendable : Json → ConversationType → Prop
  | integer (payload : Json) (v : ℤ) (hinteger : IsInteger payload v) :
      Sendable payload .int
  | bool (value : Bool) : Sendable (.bool value) .bool
  | string (text : Bytes) (hlength : text.length ≤ 8) : Sendable (.string text) .str

/-- An integer is in the range on which encoder and decoder agree. -/
def IntegersFit (payload : Json) : Prop :=
  ∀ v, IsInteger payload v → 0 ≤ v ∧ v ≤ 32767

/-- Equality of JSON values, where numbers are compared by value. -/
def SamePayload (served sent : Json) : Prop :=
  served = sent ∨ ∃ v, IsInteger served v ∧ IsInteger sent v

/-- Every frame with the bytes of `msg` is read back as `payload`. -/
structure Decodes (type : ConversationType) (msg : CanMessage) (payload : Json) :
    Prop where
  carried : msg.type = type
  typed : type ≠ .none
  readBack : ∀ frame : CanFrame, frame.payload = msg.frame.payload →
    SamePayload (CanFrameToJson.parsedPayload type frame) payload

theorem decodes_int16Message {payload : Json} {v : ℤ} (hinteger : IsInteger payload v)
    (hlower : 0 ≤ v) (hupper : v ≤ 32767) (id : UInt16) (declared : Vector UInt8 64) :
    Decodes .int (FrameSendQueue.int16Message id (Int16.ofInt v) declared) payload := by
  refine ⟨rfl, by decide, fun frame hframe => .inr ⟨v, ⟨rfl, ?_⟩, hinteger⟩⟩
  rw [FrameSendQueue.payload_int16Message] at hframe
  have hword := word_int16Bytes hframe
  rw [CanFrameToJson.parsedPayload, Json.numberValue, hword]
  congr 1
  exact_mod_cast toUInt16_ofInt hlower hupper

theorem parsedPayload_of_negative {value : Int} (hlower : -32768 ≤ value)
    (hupper : value < 0) (id : UInt16) (declared : Vector UInt8 64) :
    CanFrameToJson.parsedPayload .int
      (FrameSendQueue.int16Message id (Int16.ofInt value) declared).frame =
        .int (value + 65536) := by
  have hword := word_int16Bytes
    (FrameSendQueue.payload_int16Message id (Int16.ofInt value) declared)
  have hnat : (Int16.ofInt value).toUInt16.toNat = (value + 65536).toNat := by
    change (BitVec.ofInt 16 value).toNat = _
    rw [BitVec.toNat_ofInt]
    omega
  rw [CanFrameToJson.parsedPayload, hword, hnat]
  congr 1
  omega

theorem decodes_boolMessage (value : Bool) (id : UInt16) (declared : Vector UInt8 64) :
    Decodes .bool (FrameSendQueue.boolMessage id value declared) (.bool value) := by
  refine ⟨rfl, by decide, fun frame hframe => .inl ?_⟩
  rw [FrameSendQueue.payload_boolMessage] at hframe
  have hbyte := firstByte_eq hframe
  rw [CanFrameToJson.parsedPayload, hbyte]
  cases value <;> rfl

theorem decodes_bytesMessage {text : Bytes} (hlength : text.length ≤ 8) (id : UInt16)
    (declared : Vector UInt8 64) :
    Decodes .str (FrameSendQueue.bytesMessage id text declared) (.string text) := by
  refine ⟨rfl, by decide, fun frame hframe => .inl ?_⟩
  rw [FrameSendQueue.payload_bytesMessage,
    FrameSendQueue.clamped_eq_self (by omega)] at hframe
  rw [CanFrameToJson.parsedPayload, hframe]

theorem exists_decodes {payload : Json} {type : ConversationType}
    (hsendable : Sendable payload type) (hfit : IntegersFit payload)
    (undefined : Binary64.OutOfRange) (id : UInt16) (declared : Vector UInt8 64) :
    ∃ msg, payloadMessage? undefined id payload declared = some msg ∧
      Decodes type msg payload := by
  cases hsendable with
  | integer payload v hinteger =>
      obtain ⟨hlower, hupper⟩ := hfit v hinteger
      have hdecodes := decodes_int16Message hinteger hlower hupper id declared
      refine ⟨_, ?_, hdecodes⟩
      obtain ⟨hnumber, hvalue⟩ := hinteger
      cases payload with
      | int value =>
          obtain rfl : value = v := by simpa [Json.numberValue] using hvalue
          rfl
      | double value =>
          obtain rfl : value = .finite v := hvalue
          rw [payloadMessage?, Binary64.toInt_intCast undefined (by omega) (by omega)]
      | _ => cases hnumber
  | bool value => exact ⟨_, rfl, decodes_boolMessage value id declared⟩
  | string text hlength => exact ⟨_, rfl, decodes_bytesMessage hlength id declared⟩

/-! ## One identifier in a run -/

/-- `n` is new to the registry and the store, or has the given type. -/
def Ready (n : UInt16) (type : ConversationType) (state : Bridge) : Prop :=
  state.typeRegister[n]? = none ∧ state.mp[n]? = none ∨
    state.typeRegister[n]? = some type

/-- The event accepts no frame and sends no message under the key `n`. -/
def Quiet (program : Program) (n : UInt16) (system : System) (event : Event) : Prop :=
  match event with
  | .pass env =>
      (∀ frame, env.received = some frame →
        program.setup.idFilter.checkMessage (key frame.canId) = true →
          key frame.canId ≠ n) ∧
      (env.received = none → ¬ FrameSendQueue.Hidden system.shared →
        ∀ msg, system.shared.messageQueue.head? = some msg → key msg.frame.id ≠ n)
  | _ => True

section Steps

variable {program : Program} {system after : System} {event : Event} {n : UInt16}
variable {type : ConversationType}

theorem typeRegister_effect (heffect : System.Effect program system event after)
    (h : system.shared.typeRegister[n]? = some type) :
    after.shared.typeRegister[n]? = some type := by
  cases heffect with
  | accepted env frame hread hcheck =>
      exact CanFrameToJson.getElem?_lookedUp_of_some h _
  | sent env msg rest hread hqueue =>
      exact CanFrameToJson.getElem?_lookedUp_of_some
        (getElem?_insertIfNew_of_some h _ _) _
  | served digits env msg hstored => exact CanFrameToJson.getElem?_lookedUp_of_some h _
  | worked connected env shared hframe | executed env shared hframe => exact hframe.typeRegister ▸ h
  | _ => exact h

theorem mp_effect (heffect : System.Effect program system event after)
    (hquiet : Quiet program n system event) :
    after.shared.mp[n]? = system.shared.mp[n]? := by
  cases heffect with
  | accepted env frame hread hcheck =>
      exact CanHashtable.getElem?_putMap_of_ne (hquiet.1 frame hread hcheck)
  | sent env msg rest hread hqueue hvisible =>
      have hne : key msg.frame.id ≠ n :=
        hquiet.2 hread hvisible msg (by rw [hqueue, List.head?_cons])
      exact CanHashtable.getElem?_putMap_of_ne hne
  | worked connected env shared hframe | executed env shared hframe => exact hframe.mp ▸ rfl
  | _ => rfl

theorem absent_effect (heffect : System.Effect program system event after)
    (hquiet : Quiet program n system event) (hsound : StoreSound system.shared)
    (hregister : system.shared.typeRegister[n]? = none)
    (hmp : system.shared.mp[n]? = none) :
    after.shared.typeRegister[n]? = none := by
  cases heffect with
  | accepted env frame hread hcheck =>
      have hne := hquiet.1 frame hread hcheck
      exact (CanFrameToJson.getElem?_lookedUp_of_ne _ hne).trans hregister
  | sent env msg rest hread hqueue hvisible =>
      have hne : key msg.frame.id ≠ n :=
        hquiet.2 hread hvisible msg (by rw [hqueue, List.head?_cons])
      refine (CanFrameToJson.getElem?_lookedUp_of_ne _ hne).trans ?_
      change (system.shared.typeRegister.insertIfNew (key msg.frame.id) msg.type)[n]? = none
      rw [getElem?_insertIfNew, if_neg hne, hregister]
  | served digits env msg hstored =>
      -- a record of `n` would be served, but there is none
      have hne : key msg.frame.id ≠ n := by
        rw [(hsound.store _ msg hstored).key_eq]
        rintro rfl
        rw [hmp] at hstored
        cases hstored
      exact (CanFrameToJson.getElem?_lookedUp_of_ne _ hne).trans hregister
  | worked connected env shared hframe | executed env shared hframe =>
      exact hframe.typeRegister ▸ hregister
  | _ => exact hregister

theorem Ready.effect (h : Ready n type system.shared)
    (heffect : System.Effect program system event after)
    (hquiet : Quiet program n system event) (hsound : StoreSound system.shared) :
    Ready n type after.shared := by
  rcases h with ⟨hregister, hmp⟩ | htype
  · exact .inl ⟨absent_effect heffect hquiet hsound hregister hmp,
      (mp_effect heffect hquiet).trans hmp⟩
  · exact .inr (typeRegister_effect heffect htype)

/-! ## Identifiers without accepted frames -/

def Accepted (program : Program) (history : History) (n : UInt16) : Prop :=
  ∃ frame ∈ history.received,
    program.setup.idFilter.checkMessage (key frame.canId) = true ∧ key frame.canId = n

theorem type_payloadMessage? {undefined : Binary64.OutOfRange} {id : UInt16}
    {payload : Json} {declared : Vector UInt8 64} {msg : CanMessage}
    (h : payloadMessage? undefined id payload declared = some msg) : msg.type ≠ .none := by
  cases payload <;> simp only [payloadMessage?, Option.some.injEq, reduceCtorEq] at h
    <;> rw [← h] <;> exact ConversationType.noConfusion

/--
Only accepted frames leave the type `NONE` behind: an identifier without any is
new or has a proper type.
-/
structure Tracked (program : Program) (n : UInt16) (state : Bridge) : Prop where
  queue : ∀ msg ∈ state.messageQueue, msg.type ≠ .none
  known : Accepted program state.history n ∨ ∃ type, type ≠ .none ∧ Ready n type state

theorem Accepted.mono {before after : History} (h : Accepted program before n)
    (hextends : System.Extends before after) : Accepted program after n := by
  obtain ⟨frame, hframe, haccepted⟩ := h
  exact ⟨frame, hextends.received hframe, haccepted⟩

theorem Tracked.queue_effect (h : Tracked program n system.shared)
    (heffect : System.Effect program system event after) :
    ∀ msg ∈ after.shared.messageQueue, msg.type ≠ .none := by
  cases heffect with
  | sent env msg rest hread hqueue =>
      intro later hlater
      exact h.queue later (hqueue ▸ List.mem_cons_of_mem _ hlater)
  | enqueued body env id payload hrequest =>
      intro msg hmsg
      rcases List.mem_append.mp hmsg with hold | hnew
      · exact h.queue msg hold
      · exact type_payloadMessage? (Option.mem_toList.mp hnew)
  | worked connected env shared hframe | executed env shared hframe =>
      rw [hframe.messageQueue]
      exact h.queue
  | _ => exact h.queue

theorem known_effect_of_not_quiet (heffect : System.Effect program system event after)
    (hquiet : ¬ Quiet program n system event) (h : Tracked program n system.shared)
    (htype : type ≠ .none) (hready : Ready n type system.shared) :
    Accepted program after.shared.history n ∨
      ∃ type, type ≠ .none ∧ Ready n type after.shared := by
  have hkept : system.shared.typeRegister[n]? = some type →
      after.shared.typeRegister[n]? = some type := typeRegister_effect heffect
  cases heffect with
  | accepted env frame hread hcheck =>
      left
      refine ⟨frame, ?_, hcheck, ?_⟩
      · simp [Main.receivedState, hread]
      · by_contra hne
        refine hquiet ⟨fun other hother _ => ?_, fun hnone => ?_⟩
        · rw [hread] at hother
          exact Option.some.inj hother ▸ hne
        · rw [hread] at hnone
          cases hnone
  | sent env msg rest hread hqueue hvisible =>
      right
      have hmsg : key msg.frame.id = n := by
        by_contra hne
        refine hquiet ⟨fun other hother _ => ?_, fun _ _ front hfront => ?_⟩
        · rw [hread] at hother
          cases hother
        · rw [hqueue, List.head?_cons] at hfront
          exact Option.some.inj hfront ▸ hne
      rcases hready with ⟨hregister, -⟩ | hregister
      · refine ⟨msg.type, h.queue msg (hqueue ▸ List.mem_cons_self), .inr ?_⟩
        apply CanFrameToJson.getElem?_lookedUp_of_some
        change (system.shared.typeRegister.insertIfNew (key msg.frame.id) msg.type)[n]? = _
        rw [getElem?_insertIfNew, if_pos hmsg, hmsg, hregister, Option.getD_none]
      · exact ⟨type, htype, .inr (hkept hregister)⟩
  | rejected env frame hread hcheck =>
      refine absurd ⟨fun other hother haccepted => ?_, fun hnone => ?_⟩ hquiet
      · rw [hread] at hother
        obtain rfl := Option.some.inj hother
        rw [hcheck] at haccepted
        cases haccepted
      · rw [hread] at hnone
        cases hnone
  | idle env hread hqueue =>
      refine absurd ⟨fun other hother _ => ?_, fun _ hvisible => ?_⟩ hquiet
      · rw [hread] at hother
        cases hother
      · exact absurd hqueue hvisible
  | _ => exact absurd trivial hquiet

theorem Tracked.effect (h : Tracked program n system.shared)
    (heffect : System.Effect program system event after)
    (hsound : StoreSound system.shared) : Tracked program n after.shared := by
  refine ⟨h.queue_effect heffect, ?_⟩
  rcases h.known with haccepted | ⟨type, htype, hready⟩
  · exact .inl (haccepted.mono heffect.extends_history)
  · by_cases hquiet : Quiet program n system event
    · exact .inr ⟨type, htype, hready.effect heffect hquiet hsound⟩
    · exact known_effect_of_not_quiet heffect hquiet h htype hready

end Steps

def Typed (register : TypeRegister) : Prop :=
  ∀ (n : UInt16) (type : ConversationType), register[n]? = some type → type ≠ .none

theorem Typed.insert {register : TypeRegister} (h : Typed register) (id : UInt16)
    {new : ConversationType} (hnew : new ≠ .none) : Typed (register.insert id new) := by
  intro n type htype
  rw [getElem?_insert] at htype
  split at htype
  next => exact Option.some.inj htype ▸ hnew
  next => exact h n type htype

theorem conversionType_ne_none (value : Bytes) : Main.conversionType value ≠ .none := by
  unfold Main.conversionType
  repeat' split
  all_goals decide

theorem typed_foldl (entries : List (Bytes × Bytes)) {register : TypeRegister}
    (h : Typed register) : Typed (entries.foldl Main.applyConversionEntry register) := by
  induction entries generalizing register with
  | nil => exact h
  | cons entry entries ih =>
      apply ih
      unfold Main.applyConversionEntry Main.conversionSetting
      by_cases hentry : ascii "=can_conversion_" <:+: entry.1 ∧ Main.lastToken entry.1 ≠ []
      · rw [if_pos hentry]
        exact h.insert _ (conversionType_ne_none entry.2)
      · rw [if_neg hentry]
        exact h

theorem typed_setupRegister (config : ConfigParser) : Typed (Main.setupRegister config) := by
  apply typed_foldl
  have hempty : Typed ∅ := by simp [Typed]
  exact hempty.insert 200 (by decide)

theorem tracked_initial (program : Program) (n : UInt16) (config : ConfigParser)
    (hash : StringMap) : Tracked program n (Main.initial config hash) := by
  refine ⟨by simp [Main.initial], .inr ?_⟩
  cases hregister : (Main.setupRegister config)[n]? with
  | none => exact ⟨.int, by decide, .inl ⟨hregister, by simp [Main.initial]⟩⟩
  | some type => exact ⟨type, typed_setupRegister config n type hregister, .inr hregister⟩

theorem tracked_run {program : Program} {system : System} (events : List Event)
    {n : UInt16} (hsound : StoreSound system.shared)
    (h : Tracked program n system.shared) :
    Tracked program n (System.run program system events).shared := by
  refine (runFrom_invariant
    (fun system => StoreSound system.shared ∧ Tracked program n system.shared)
    (fun system event hinv => ?_) system events ⟨hsound, h⟩).2
  have heffect := System.step_effect program system event
  exact ⟨hinv.1.effect heffect, hinv.2.effect heffect hinv.1⟩

/-! ## The round trip -/

/-- A request, the pass that sends its message, and what happens between and after. -/
structure Transfer where
  body : Bytes
  sendEnv : Env
  before : List Event
  passEnv : Env
  after : List Event

namespace Transfer

variable (program : Program) (start : System) (transfer : Transfer)

def posted : System := System.step program start (.send transfer.body transfer.sendEnv)

def turn : System := System.run program (transfer.posted program start) transfer.before

def sent : System := System.step program (transfer.turn program start) (.pass transfer.passEnv)

def final : System := System.run program (transfer.sent program start) transfer.after

/--
`POST /send {id: n, payload: payload}` queues `msg`, a later pass takes it from
the queue and writes it, and no frame of `n` is accepted or sent besides.
-/
structure Succeeds (n : Nat) (payload : Json) (msg : CanMessage) : Prop where
  requested : ∃ id, Requests (cStr transfer.body) id payload ∧
    id.numberValue = .finite (n : ℤ)
  queued : payloadMessage? program.undefined (UInt16.ofNat n) payload
    transfer.sendEnv.uninitialized = some msg
  quietBefore : Along (System.step program) (Quiet program (UInt16.ofNat n))
    (transfer.posted program start) transfer.before
  noFrame : transfer.passEnv.received = none
  visible : ¬ FrameSendQueue.Hidden (transfer.turn program start).shared
  front : (transfer.turn program start).shared.messageQueue.head? = some msg
  written : transfer.passEnv.written = true
  quietAfter : Along (System.step program) (Quiet program (UInt16.ofNat n))
    (transfer.sent program start) transfer.after

end Transfer

/-- The record of `n` has no other bytes with the digest of `bytes`. -/
def NoCollision (n : UInt16) (bytes : Bytes) (state : Bridge) : Prop :=
  ∀ stored, state.mp[n]? = some stored →
    sha256 stored.frame.payload = sha256 bytes → stored.frame.payload = bytes

structure Delivered (n : UInt16) (type : ConversationType) (bytes : Bytes)
    (state : Bridge) : Prop where
  registered : state.typeRegister[n]? = some type
  stored : ∃ msg, state.mp[n]? = some msg ∧ msg.frame.payload = bytes

section RoundTrip

variable {program : Program} {system after : System} {event : Event} {n : UInt16}
variable {type : ConversationType} {bytes : Bytes}

theorem NoCollision.effect (h : NoCollision n bytes system.shared)
    (heffect : System.Effect program system event after)
    (hquiet : Quiet program n system event) : NoCollision n bytes after.shared := by
  intro stored hstored
  rw [mp_effect heffect hquiet] at hstored
  exact h stored hstored

theorem Delivered.effect (h : Delivered n type bytes system.shared)
    (heffect : System.Effect program system event after)
    (hquiet : Quiet program n system event) : Delivered n type bytes after.shared := by
  obtain ⟨hregister, msg, hmsg, hbytes⟩ := h
  exact ⟨typeRegister_effect heffect hregister, msg,
    (mp_effect heffect hquiet).trans hmsg, hbytes⟩

theorem delivered_sent {env : Env} {msg : CanMessage}
    (heffect : System.Effect program system (.pass env) after)
    (hnoFrame : env.received = none) (hvisible : ¬ FrameSendQueue.Hidden system.shared)
    (hfront : system.shared.messageQueue.head? = some msg)
    (hid : key msg.frame.id = n) (htype : msg.type = type)
    (hsound : StoreSound system.shared) (hready : Ready n type system.shared)
    (hcollision : NoCollision n msg.frame.payload system.shared) :
    Delivered n type msg.frame.payload after.shared := by
  cases heffect with
  | sent env msg' rest hread hqueue =>
      rw [hqueue, List.head?_cons] at hfront
      obtain rfl := Option.some.inj hfront
      constructor
      · apply CanFrameToJson.getElem?_lookedUp_of_some
        change (system.shared.typeRegister.insertIfNew (key msg'.frame.id) msg'.type)[n]? = _
        rw [getElem?_insertIfNew, if_pos hid, hid, htype]
        rcases hready with ⟨hregister, -⟩ | hregister
        · rw [hregister, Option.getD_none]
        · rw [hregister, Option.getD_some]
      · obtain ⟨stored, hstored, hrecord⟩ := CanHashtable.getElem?_putMap_self
          system.shared.mp (Main.sentMessage env system.locals.frameSyncCounter
            { msg' with valid := true })
        refine ⟨stored, hid ▸ hstored, ?_⟩
        rcases hrecord with rfl | ⟨hold, hhash⟩
        · rfl
        · have hold' : system.shared.mp[n]? = some stored := hid ▸ hold
          apply hcollision stored hold'
          rw [← (hsound.store n stored hold').hash_eq, hhash]
          rfl
  | idle env hread hqueue => exact absurd hqueue hvisible
  | accepted env frame hread hcheck =>
      rw [hread] at hnoFrame
      cases hnoFrame
  | rejected env frame hread hcheck =>
      rw [hread] at hnoFrame
      cases hnoFrame

/-- What the program promises the transfer: a new identifier, or one of its type. -/
def InDomain (program : Program) (n : UInt16) (type : ConversationType) (state : Bridge) :
    Prop :=
  ¬ Accepted program state.history n ∧
      CanFrameToJson.registeredType state.typeRegister n = .none ∨
    state.typeRegister[n]? = some type

theorem Tracked.ready {state : Bridge} (h : Tracked program n state)
    (hdomain : InDomain program n type state) : Ready n type state := by
  rcases hdomain with ⟨hnone, hregistered⟩ | hregister
  · obtain ⟨other, hother, hready⟩ := h.known.resolve_left hnone
    rcases hready with habsent | hregister
    · exact .inl habsent
    · rw [CanFrameToJson.registeredType, hregister, Option.getD_some] at hregistered
      exact absurd hregistered hother
  · exact .inr hregister

theorem ready_run {events : List Event}
    (hevents : Along (System.step program) (Quiet program n) system events)
    (hsound : StoreSound system.shared) (hready : Ready n type system.shared)
    (hcollision : NoCollision n bytes system.shared) :
    Ready n type (System.run program system events).shared ∧
      NoCollision n bytes (System.run program system events).shared := by
  refine (hevents.invariant (fun system => StoreSound system.shared ∧
    Ready n type system.shared ∧ NoCollision n bytes system.shared) ?_
    ⟨hsound, hready, hcollision⟩).2
  rintro system event hquiet ⟨hsound, hready, hcollision⟩
  have heffect := System.step_effect program system event
  exact ⟨hsound.effect heffect, hready.effect heffect hquiet hsound,
    hcollision.effect heffect hquiet⟩

theorem delivered_run {events : List Event}
    (hevents : Along (System.step program) (Quiet program n) system events)
    (h : Delivered n type bytes system.shared) :
    Delivered n type bytes (System.run program system events).shared :=
  hevents.invariant (fun system => Delivered n type bytes system.shared)
    (fun system event hquiet hdelivered =>
      hdelivered.effect (System.step_effect program system event) hquiet) h

/-- `GET /receive/n` answers with a document whose payload is `payload`. -/
def Serves (n : Nat) (payload : Json) (state : Bridge) : Prop :=
  ∀ env, ∃ document served : Json,
    ((receive (some (toDecimal n))).run bridge env state).1 = ⟨200, document.dump⟩ ∧
      CanFrameToJson.dataPayload document = some served ∧ SamePayload served payload

theorem Delivered.serves {number : Nat} (hnumber : number ≤ 65535) {state : Bridge}
    {msg : CanMessage} {payload : Json}
    (h : Delivered (UInt16.ofNat number) type msg.frame.payload state)
    (hsound : StoreSound state) (hdecodes : Decodes type msg payload) :
    Serves number payload state := by
  intro env
  obtain ⟨hregister, stored, hstored, hbytes⟩ := h
  have hkey := (hsound.store _ stored hstored).key_eq
  have hfound : state.mp[requestKey (toDecimal number)]? = some stored := by
    rw [requestKey_toDecimal hnumber, hstored]
  have htype : CanFrameToJson.registeredType state.typeRegister (key stored.frame.id) =
      type := by
    rw [hkey, CanFrameToJson.registeredType, hregister, Option.getD_some]
  refine ⟨document state.typeRegister stored, _, ?_,
    CanFrameToJson.dataPayload_messageJson _ _, ?_⟩
  · rw [run_receive, receiveResponse, hfound]
  · rw [htype, CanFrameToJson.interpretNone, if_neg hdecodes.typed]
    exact hdecodes.readBack stored.frame hbytes

end RoundTrip

/-- An integer outside of the signed encoding is not acknowledged. -/
def RefusesUnfit (program : Program) (start : System) (transfer : Transfer)
    (payload : Json) : Prop :=
  ∀ v, IsInteger payload v → v < -32768 ∨ 32767 < v →
    ¬ Acknowledged ((postSend program.undefined transfer.body).run bridge
      transfer.sendEnv start.shared).1

/--
From every reachable state, a value that was sent as frame `n` and not disturbed
is what `GET /receive/n` returns, if an integer is one of 0 to 32767, the record
of `n` has no other bytes with the same digest, and no frame of another word was
accepted under the key `n`.
-/
theorem send_receive_run (program : Program) (config : ConfigParser) (hash : StringMap)
    (fr : CanFrame) (past : List Event) {n : Nat} (hn : n ≤ 0x7FF) {payload : Json}
    {type : ConversationType} (hsendable : Sendable payload type) (transfer : Transfer)
    {msg : CanMessage}
    (hsucceeds : transfer.Succeeds program
      (System.run program (System.initial config hash fr) past) n payload msg)
    (hdomain : InDomain program (UInt16.ofNat n) type
      (System.run program (System.initial config hash fr) past).shared)
    (hfit : IntegersFit payload)
    (hcollision : NoCollision (UInt16.ofNat n) msg.frame.payload
      (System.run program (System.initial config hash fr) past).shared) :
    let start := System.run program (System.initial config hash fr) past
    Serves n payload (transfer.final program start).shared ∧
      RefusesUnfit program start transfer payload := by
  intro start
  have hsound : StoreSound start.shared := storeSound_run past (StoreSound.start _ hash)
  have htracked : Tracked program (UInt16.ofNat n) start.shared :=
    tracked_run past (StoreSound.start _ hash) (tracked_initial program _ config hash)
  constructor
  · obtain ⟨queued, hqueued, hdecodes⟩ := exists_decodes hsendable hfit program.undefined
      (UInt16.ofNat n) transfer.sendEnv.uninitialized
    obtain rfl : queued = msg := Option.some.inj (hqueued.symm.trans hsucceeds.queued)
    -- the request touches neither the registry nor the store
    have hposted := System.step_effect program start (.send transfer.body transfer.sendEnv)
    have hpostedSound : StoreSound (transfer.posted program start).shared :=
      hsound.effect hposted
    obtain ⟨hready, hfree⟩ := ready_run hsucceeds.quietBefore hpostedSound
      ((htracked.ready hdomain).effect hposted trivial hsound)
      (hcollision.effect hposted trivial)
    have hturnSound : StoreSound (transfer.turn program start).shared :=
      storeSound_run transfer.before hpostedSound
    have hid : key queued.frame.id = UInt16.ofNat n := by
      rw [frameId_payloadMessage? hqueued, key_toUInt32]
    have hsent := System.step_effect program (transfer.turn program start)
      (.pass transfer.passEnv)
    have hdelivered := delivered_sent hsent hsucceeds.noFrame hsucceeds.visible
      hsucceeds.front hid hdecodes.carried hturnSound hready hfree
    have hfinalSound : StoreSound (transfer.final program start).shared :=
      storeSound_run transfer.after (hturnSound.effect hsent)
    exact (delivered_run hsucceeds.quietAfter hdelivered).serves (by omega) hfinalSound
      hdecodes
  · intro v hv hrange
    have hbounds := hfit v hv
    omega

def intRequest : Bytes := ascii "\x7b\"id\": 300, \"payload\": 4660\x7d"

def receiving (word : UInt32) : Event := .pass (reading (emptyFrame word))

/-- Frames of other identifiers have been received. -/
def afterFrames : System :=
  System.run .acceptAll (System.initial (.loadConfigFile ∅) ∅ CanMessage.zero.frame)
    [receiving 200, receiving 42]

/-- Another frame is received before the pass that sends, and one after it. -/
def intTransfer : Transfer :=
  ⟨intRequest, {}, [receiving 200], {}, [receiving 42, .receive (ascii "300") {}]⟩

def intMessage : CanMessage := FrameSendQueue.int16Message 300 4660 (Vector.replicate 64 0)

private theorem quiet_receiving {word : UInt32} {n : UInt16} (h : key word ≠ n)
    (system : System) : Quiet .acceptAll n system (receiving word) := by
  refine ⟨fun frame hread _ => ?_, nofun⟩
  rw [← Option.some.inj hread]
  exact h

private theorem intTransfer_succeeds :
    intTransfer.Succeeds .acceptAll afterFrames 300 (.int 4660) intMessage where
  requested := ⟨.int 300, requests_of_scalarRequest (by decide +kernel), rfl⟩
  queued := rfl
  quietBefore := ⟨quiet_receiving (by decide) _, trivial⟩
  noFrame := rfl
  visible := by
    unfold FrameSendQueue.Hidden
    decide +kernel
  front := by decide +kernel
  written := rfl
  quietAfter := ⟨quiet_receiving (by decide) _, trivial, trivial⟩

theorem send_receive_int :
    Serves 300 (.int 4660) (intTransfer.final .acceptAll afterFrames).shared := by
  refine (send_receive_run .acceptAll (.loadConfigFile ∅) ∅ CanMessage.zero.frame
    [receiving 200, receiving 42] (by decide) (.integer _ 4660 ⟨rfl, rfl⟩) intTransfer
    intTransfer_succeeds
    (.inl ⟨?_, ?_⟩) ?_ ?_).1
  · have hreceived : ∀ frame ∈ afterFrames.shared.history.received,
        key frame.canId ≠ UInt16.ofNat 300 := by decide +kernel
    rintro ⟨frame, hframe, -, hkey⟩
    exact hreceived frame hframe hkey
  · decide +kernel
  · rintro v ⟨-, hv⟩
    have hvalue : ((4660 : ℤ) : ℚ) = v := Binary64.finite.inj hv
    obtain rfl := Int.cast_injective hvalue
    decide
  · have hnone : afterFrames.shared.mp[UInt16.ofNat 300]? = none := by decide +kernel
    intro stored hstored
    rw [show (System.run _ _ _).shared.mp[UInt16.ofNat 300]? = none from hnone] at hstored
    cases hstored

def unfitRequest : Bytes := ascii "\x7b\"id\": 1, \"payload\": 40000\x7d"

theorem send_acknowledges_unfit :
    ¬ RefusesUnfit .acceptAll
      (System.initial (.loadConfigFile ∅) ∅ CanMessage.zero.frame)
      ⟨unfitRequest, {}, [], {}, []⟩ (.int 40000) := by
  have hrequest : Requests (cStr unfitRequest) (.int 1) (.int 40000) :=
    requests_of_scalarRequest (by decide +kernel)
  intro hrefuses
  refine hrefuses 40000 ⟨rfl, rfl⟩ (.inr (by decide)) ?_
  rw [run_postSend_of_requests hrequest]
  exact acknowledged_sendOk

end Can2Rest.Properties
