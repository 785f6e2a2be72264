import Can2Rest.Properties.SendRequests
import Can2Rest.Shared.Json11RoundTrip
import Can2Rest.StoreInvariant

/-!
# Identifiers across the layers

A frame carries a 32-bit identifier word; the filter, the registry, the store
and the send queue take sixteen bits of it.  The two agree exactly on the words
that fit, and two words are kept apart exactly if their low sixteen bits differ.
-/

namespace Can2Rest.Properties

open Foundation Shared RestApi

/-- An accepted frame of this event has an identifier word of sixteen bits. -/
def AcceptedFits (program : Program) (_ : System) (event : Event) : Prop :=
  match event with
  | .pass env => ∀ frame, env.received = some frame →
      program.setup.idFilter.checkMessage (key frame.canId) = true →
        frame.canId.toNat ≤ 65535
  | _ => True

def StoreFits (state : Bridge) : Prop :=
  ∀ (id : UInt16) (msg : CanMessage), state.mp[id]? = some msg →
    msg.frame.id.toNat ≤ 65535

theorem StoreFits.put {before after : Bridge} (h : StoreFits before) (msg : CanMessage)
    (hmp : after.mp = CanHashtable.putMap before.mp msg)
    (hmsg : msg.frame.id.toNat ≤ 65535) : StoreFits after := by
  intro id stored hstored
  rw [hmp] at hstored
  rcases CanHashtable.getElem?_putMap hstored with hold | ⟨-, rfl⟩
  · exact h id stored hold
  · exact hmsg

theorem StoreFits.effect {program : Program} {system after : System} {event : Event}
    (heffect : System.Effect program system event after)
    (hfits : AcceptedFits program system event) (hsound : StoreSound system.shared)
    (h : StoreFits system.shared) : StoreFits after.shared := by
  cases heffect with
  | accepted env frame hread hcheck =>
      exact h.put (Main.receivedMessage env system.locals frame) rfl
        (hfits frame hread hcheck)
  | sent env msg rest hread hqueue =>
      have hmsg : msg.frame.id.toNat ≤ 65535 :=
        hsound.queue msg (hqueue ▸ List.mem_cons_self)
      exact h.put (Main.sentMessage env system.locals.frameSyncCounter
        { msg with valid := true }) rfl hmsg
  | worked connected env shared hframe | executed env shared hframe =>
      intro id msg hmsg
      exact h id msg (hframe.mp ▸ hmsg)
  | _ => exact h

theorem store_run {program : Program} {system : System} {events : List Event}
    (hevents : Along (System.step program) (AcceptedFits program) system events)
    (hsound : StoreSound system.shared) (h : StoreFits system.shared) :
    StoreSound (System.run program system events).shared ∧
      StoreFits (System.run program system events).shared :=
  hevents.invariant (fun system => StoreSound system.shared ∧ StoreFits system.shared)
    (fun system event hfits hinv =>
      ⟨hinv.1.effect (System.step_effect program system event),
        hinv.2.effect (System.step_effect program system event) hfits hinv.1⟩)
    ⟨hsound, h⟩

theorem storeFits_start (typeRegister : TypeRegister) (hash : StringMap) :
    StoreFits (.start typeRegister hash) := by
  simp [StoreFits]

/-! ## The identifiers of requests -/

/-- What `POST /send` queues for the body, if it queues one frame, has the id `n`. -/
def SendAddresses (undefined : Binary64.OutOfRange) (n : Nat) (body : Bytes) (env : Env)
    (state : Bridge) : Prop :=
  ∀ msg, ((postSend undefined body).run bridge env state).2.messageQueue =
      state.messageQueue ++ [msg] → msg.frame.id.toNat = n

/-- `GET /receive/n` finds nothing, or a document whose `info.id` is `n`. -/
def ReceiveAddresses (n : Nat) (env : Env) (state : Bridge) : Prop :=
  let response := ((receive (some (toDecimal n))).run bridge env state).1
  response = notPresent ∨ ∃ document : Json, response.body = document.dump ∧
    CanFrameToJson.infoId document = some (.int n)

theorem requestKey_toDecimal {n : Nat} (h : n ≤ 65535) :
    requestKey (toDecimal n) = UInt16.ofNat n := by
  have hdigits : ∀ c ∈ toDecimal n, isDigit c := fun c hc => isDigit_of_mem_toDecimal hc
  rw [requestKey, atoi_digits hdigits, ofDigits_toDecimal, ofInt_natCast]
  rw [ofDigits_toDecimal]
  omega

theorem sendAddresses_iff {undefined : Binary64.OutOfRange} {n : Nat} {body : Bytes}
    {id payload : Json} (hid : Json.parse (toDecimal n) = .ok id)
    (hrequest : Requests (cStr body) id payload) (hobject : payload.isObject = false)
    (env : Env) (state : Bridge) :
    SendAddresses undefined n body env state ↔ n ≤ 65535 := by
  have hnull : payload.isNull = false := by
    obtain ⟨members, -, -, -, -, hnull⟩ := hrequest
    exact hnull
  have hkind := (payload_kind hnull).resolve_left (by simp [hobject])
  have hsome := (isSome_payloadMessage?_iff undefined
    (key (id.numberValue.toUnsigned undefined)) payload env.uninitialized).mpr hkind
  obtain ⟨queued, hqueued⟩ := Option.isSome_iff_exists.mp hsome
  have hframe := frameId_payloadMessage? hqueued
  rw [SendAddresses, run_postSend_of_requests hrequest]
  simp only [enqueuedState_messageQueue, hqueued, Option.toList_some,
    List.append_cancel_left_eq, List.cons.injEq, and_true, forall_eq']
  constructor
  · intro hn
    rw [← hn, hframe, UInt16.toNat_toUInt32]
    exact Nat.le_of_lt_succ (UInt16.toNat_lt _)
  · intro hn
    rw [Json.parse_toDecimal (by omega)] at hid
    obtain rfl := Except.ok.inj hid
    have hvalue : (Json.int n).numberValue = .finite (n : ℕ) := rfl
    rw [hframe, hvalue, Binary64.toUnsigned_natCast undefined (by omega),
      UInt16.toNat_toUInt32, toNat_key, UInt32.toNat_ofNat']
    omega

theorem frameId_of_stored {n : Nat} {state : Bridge} {msg : CanMessage}
    (hsound : StoreSound state) (hfits : StoreFits state) (hn : n ≤ 65535)
    (hstored : state.mp[requestKey (toDecimal n)]? = some msg) :
    msg.frame.id.toNat = n := by
  have hbound := hfits _ msg hstored
  have hkey := congrArg UInt16.toNat (hsound.store _ msg hstored).key_eq
  rw [requestKey_toDecimal hn, toNat_key, UInt16.toNat_ofNat'] at hkey
  omega

theorem receiveAddresses {n : Nat} {state : Bridge} (hsound : StoreSound state)
    (hfits : StoreFits state) (env : Env)
    (hn : n ≤ 65535 ∨ state.mp[requestKey (toDecimal n)]? = none) :
    ReceiveAddresses n env state := by
  rw [ReceiveAddresses, run_receive]
  cases hstored : state.mp[requestKey (toDecimal n)]? with
  | none =>
      left
      rw [receiveResponse, hstored]
  | some msg =>
      have hsmall : n ≤ 65535 := hn.resolve_right (by simp [hstored])
      have hid := frameId_of_stored hsound hfits hsmall hstored
      refine .inr ⟨document state.typeRegister msg, ?_, ?_⟩
      · rw [receiveResponse, hstored]
      · rw [document, CanFrameToJson.infoId_messageJson, hid, asInt_eq_self (by omega)]

/--
As long as the accepted frames have identifier words of sixteen bits, a number
is addressed faithfully by `POST /send` iff it fits, and by `GET /receive` if it
fits or nothing is stored under its low sixteen bits.
-/
theorem rest_addresses_run (program : Program) (config : ConfigParser)
    (hash : StringMap) (fr : CanFrame) {events : List Event}
    (hevents : Along (System.step program) (AcceptedFits program)
      (System.initial config hash fr) events) (n : Nat) (env : Env) :
    let state := (System.run program (System.initial config hash fr) events).shared
    (∀ body id payload, Json.parse (toDecimal n) = .ok id →
        Requests (cStr body) id payload → payload.isObject = false →
          (SendAddresses program.undefined n body env state ↔ n ≤ 65535)) ∧
      (n ≤ 65535 ∨ state.mp[requestKey (toDecimal n)]? = none →
        ReceiveAddresses n env state) := by
  obtain ⟨hsound, hfits⟩ :=
    store_run hevents (StoreSound.start _ hash) (storeFits_start _ hash)
  refine ⟨fun body id payload hid hrequest hobject => ?_, fun hn => ?_⟩
  · exact sendAddresses_iff hid hrequest hobject env _
  · exact receiveAddresses hsound hfits env hn

def emptyFrame (word : UInt32) : CanfdFrame :=
  ⟨word, 0, 0, Vector.replicate 64 0, zero_len_le⟩

def oneByte (word : UInt32) : CanfdFrame :=
  ⟨word, 1, 0, Vector.replicate 64 0, one_len_le⟩

def reading (frame : CanfdFrame) : Env := { received := some frame }

def oneFrame : List Event := [.pass (reading (emptyFrame 200))]

private theorem along_oneFrame (system : System) :
    Along (System.step .acceptAll) (AcceptedFits .acceptAll) system oneFrame := by
  refine ⟨?_, trivial⟩
  rintro frame hread -
  obtain rfl := Option.some.inj hread
  decide

theorem rest_addresses_oneFrame :
    ReceiveAddresses 200 {} (System.run .acceptAll
      (System.initial (.loadConfigFile ∅) ∅ CanMessage.zero.frame) oneFrame).shared :=
  (rest_addresses_run .acceptAll _ ∅ _ (along_oneFrame _) 200 {}).2 (.inl (by decide))

def largeIdRequest : Bytes := ascii "\x7b\"id\": 65736, \"payload\": true\x7d"

/-- `POST /send` with the id 65736 queues a frame with the id 200. -/
theorem postSend_largeId :
    ¬ SendAddresses .x86 65736 largeIdRequest {} (.start ∅ ∅) := by
  have hrequest : Requests (cStr largeIdRequest) (.int 65736) (.bool true) :=
    requests_of_scalarRequest (by decide +kernel)
  rw [sendAddresses_iff (Json.parse_toDecimal (by decide)) hrequest rfl]
  decide

/-! ## Two identifier words -/

/--
A pass that reads a frame with the word `a` leaves what the registry and the
store hold for `b` as it is.  The filter is part of the setup, which no pass
changes.
-/
def Undisturbed (program : Program) (a b : UInt32) : Prop :=
  ∀ locals env state frame, env.received = some frame → frame.canId = a →
    let after := ((Main.mainPass program.setup locals).run bridge env state).2
    after.typeRegister[key b]? = state.typeRegister[key b]? ∧
      CanHashtable.getResult after.mp (key b) = CanHashtable.getResult state.mp (key b)

theorem undisturbed_iff (program : Program) (a b : UInt32) :
    Undisturbed program a b ↔
      key a ≠ key b ∨ program.setup.idFilter.checkMessage (key a) = false := by
  constructor
  · intro h
    by_contra hcontra
    obtain ⟨hkey, hcheck⟩ := not_or.mp hcontra
    rw [not_ne_iff] at hkey
    rw [Bool.not_eq_false] at hcheck
    -- the first frame of a run is stored under the key
    let frame : CanfdFrame := ⟨a, 0, 0, Vector.replicate 64 0, zero_len_le⟩
    let state : Bridge := Main.initial (.loadConfigFile ∅) ∅
    obtain ⟨-, hstored⟩ := h ⟨CanMessage.zero.frame, 0⟩ { received := some frame } state frame
      rfl rfl
    have haccepted : program.setup.idFilter.checkMessage (key frame.canId) = true := hcheck
    rw [Main.run_mainPass_some rfl, Main.run_receiveFrame haccepted, ← hkey] at hstored
    have hvalid := congrArg CanMessage.valid hstored
    change (CanHashtable.getResult (CanHashtable.putMap state.mp _) _).valid = false at hvalid
    exact Bool.false_ne_true
      (hvalid.symm.trans (CanHashtable.valid_getResult_putMap state.mp _))
  · rintro hcondition locals env state frame hread rfl
    rw [Main.run_mainPass_some hread]
    cases hcheck : program.setup.idFilter.checkMessage (key frame.canId) with
    | false =>
        rw [Main.run_receiveFrame_rejected hcheck]
        exact ⟨rfl, rfl⟩
    | true =>
        have hkey : key frame.canId ≠ key b := hcondition.resolve_right (by simp [hcheck])
        rw [Main.run_receiveFrame hcheck]
        constructor
        · have hlooked := CanFrameToJson.getElem?_lookedUp state.typeRegister
            (key frame.canId) (key b)
          rw [if_neg hkey] at hlooked
          exact hlooked
        · apply CanHashtable.getResult_congr
          exact CanHashtable.getElem?_putMap_of_ne hkey

/--
Every number that `get_id_list` returns is the identifier word of a frame that
was put, and `get` returns a frame with exactly this word.
-/
def ListExact (state : Bridge) : Prop :=
  ∀ env, ∀ i ∈ (CanHashtable.getIdList.run bridge env state).1,
    ∃ word : UInt32, i = word.toNat ∧ (∃ json, (word, json) ∈ state.history.stored) ∧
      let msg := ((CanHashtable.get (UInt16.ofInt i)).run bridge env state).1
      msg.valid = true ∧ msg.frame.id = word ∧ Origin state.history msg.frame

theorem listExact {state : Bridge} (hsound : StoreSound state) (hfits : StoreFits state) :
    ListExact state := by
  intro env i hi
  rw [CanHashtable.run_getIdList] at hi
  obtain ⟨id, hid, rfl⟩ := List.mem_map.mp hi
  rw [Std.ExtTreeMap.mem_keys, Std.ExtTreeMap.mem_iff_isSome_getElem?] at hid
  obtain ⟨msg, hmsg⟩ := Option.isSome_iff_exists.mp hid
  obtain ⟨hkey, -, horigin, hhanded⟩ := hsound.store id msg hmsg
  have hword : msg.frame.id.toNat = id.toNat := by
    have hbound := hfits id msg hmsg
    rw [← hkey, toNat_key]
    omega
  refine ⟨msg.frame.id, by rw [hword], hhanded, ?_⟩
  have hget : CanHashtable.getResult state.mp (UInt16.ofInt (id.toNat : Int)) =
      { msg with valid := true } := by
    rw [ofInt_natCast, UInt16.ofNat_toNat, CanHashtable.getResult, hmsg]
  simp only [CanHashtable.run_get, hget]
  exact ⟨trivial, trivial, horigin⟩

/--
A received frame leaves the other words alone iff it shares no low sixteen bits
with them or is rejected; and the list is exact in every run whose accepted
frames have identifier words of sixteen bits.
-/
theorem distinct_ids_iff (program : Program) :
    (∀ a b : UInt32, a ≠ b →
      (Undisturbed program a b ↔
        key a ≠ key b ∨ program.setup.idFilter.checkMessage (key a) = false)) ∧
      ∀ config hash fr events, Along (System.step program) (AcceptedFits program)
          (System.initial config hash fr) events →
        ListExact (System.run program (System.initial config hash fr) events).shared := by
  refine ⟨fun a b _ => undisturbed_iff program a b,
    fun config hash fr events hevents => ?_⟩
  obtain ⟨hsound, hfits⟩ :=
    store_run hevents (StoreSound.start _ hash) (storeFits_start _ hash)
  exact listExact hsound hfits

theorem distinct_ids_oneFrame :
    Undisturbed .acceptAll 200 201 ∧
      ListExact (System.run .acceptAll
        (System.initial (.loadConfigFile ∅) ∅ CanMessage.zero.frame) oneFrame).shared :=
  ⟨((distinct_ids_iff .acceptAll).1 200 201 (by decide)).mpr (.inl (by decide)),
    (distinct_ids_iff .acceptAll).2 _ ∅ _ oneFrame (along_oneFrame _)⟩

/-- An extended frame with the identifier 200 is taken for a standard one. -/
theorem extended_id_disturbs : ¬ Undisturbed .acceptAll 0x800000C8 200 := by
  rw [undisturbed_iff]
  decide +kernel

end Can2Rest.Properties
