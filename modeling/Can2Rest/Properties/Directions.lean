import Can2Rest.Properties.Documents
import Can2Rest.Properties.JsonTexts

/-!
# Which way a frame went

Frames that are received and frames that are sent get into the store on two
paths, and both enumerators of a message's direction are the same value.  Beside
the state of the bridge stands, for every identifier, the path of the `put` that
its record comes from.
-/

namespace Can2Rest.Properties

open Foundation Shared CanFrameToJson

/-- The two paths on which the main loop puts and stores messages. -/
inductive Path where
  | got
  | send
  deriving DecidableEq

def Path.name : Path → Bytes
  | .got => ascii "GOT"
  | .send => ascii "SEND"

/-- The call of `put` in an event, and its path. -/
def putIn (program : Program) (system : System) : Event → Option (Path × CanMessage)
  | .pass env =>
      match env.received with
      | some frame =>
          if program.setup.idFilter.checkMessage (key frame.canId) then
            some (.got, Main.receivedMessage env system.locals frame)
          else none
      | none =>
          match system.shared.messageQueue with
          | msg :: _ =>
              if asInt system.shared.messageQueue.length > 0 then
                some (.send, Main.sentMessage env system.locals.frameSyncCounter
                  { msg with valid := true })
              else none
          | [] => none
  | _ => none

theorem mp_step (program : Program) (system : System) (event : Event) :
    (System.step program system event).shared.mp =
      match putIn program system event with
      | some (_, msg) => CanHashtable.putMap system.shared.mp msg
      | none => system.shared.mp := by
  have heffect := System.step_effect program system event
  generalize System.step program system event = after at heffect
  cases heffect with
  | rejected env frame hread hcheck =>
      simp [putIn, hread, hcheck]
  | accepted env frame hread hcheck =>
      simp [putIn, hread, hcheck]
  | idle env hread hqueue =>
      have hqueued : ¬ asInt system.shared.messageQueue.length > 0 := Int.not_lt.mpr hqueue
      cases hmessages : system.shared.messageQueue with
      | nil => simp [putIn, hread, hmessages]
      | cons msg rest =>
          simp only [putIn, hread, hmessages] at hqueued ⊢
          rw [if_neg hqueued]
          rfl
  | sent env msg rest hread hqueue hvisible =>
      have hqueued : asInt system.shared.messageQueue.length > 0 := Int.not_le.mp hvisible
      simp only [putIn, hread, hqueue] at hqueued ⊢
      rw [if_pos hqueued]
      rfl
  | refused body env hrequest => rfl
  | enqueued body env id payload hrequest => rfl
  | served digits env msg hstored => rfl
  | missing digits env hstored => rfl
  | worked connected env shared hframe | executed env shared hframe => exact hframe.mp

/-- The bridge, and the paths that its records come from. -/
structure Traced where
  system : System
  origin : UInt16 → Option Path

namespace Traced

def initial (config : ConfigParser) (hash : StringMap) (fr : CanFrame) : Traced :=
  ⟨.initial config hash fr, fun _ => none⟩

def step (program : Program) (traced : Traced) (event : Event) : Traced where
  system := System.step program traced.system event
  origin :=
    match putIn program traced.system event with
    | some (path, msg) =>
        if CanHashtable.HasHash traced.system.shared.mp (key msg.frame.id) msg.hash then
          traced.origin
        else Function.update traced.origin (key msg.frame.id) (some path)
    | none => traced.origin

def path (traced : Traced) : Event → Option Path
  | .pass env => some (if env.received.isSome then .got else .send)
  | .receive digits _ => traced.origin (RestApi.requestKey digits)
  | _ => none

end Traced

/-! ## Directions in the documents -/

/-- The direction members of a document, as a client reads them from the text. -/
def clientDirection (text : Bytes) : Option (Json × Json) :=
  match Json.parse text with
  | .ok document => do
      let direction ← infoMember (ascii "direction") document
      let raw ← infoMember (ascii "direction_raw") document
      return (direction, raw)
  | .error _ => none

theorem clientDirection_messageText (type : ConversationType) (msg : CanMessage) :
    clientDirection (messageText type msg) =
      some (.string msg.messageReceieved.name, .int msg.messageReceieved.toInt) := by
  rw [clientDirection, parse_messageText, messageJson, completeJson_eq]
  cases msg.messageReceieved <;> rfl

theorem direction_payloadMessage? {undefined : Binary64.OutOfRange} {id : UInt16}
    {payload : Json} {declared : Vector UInt8 64} {msg : CanMessage}
    (h : RestApi.payloadMessage? undefined id payload declared = some msg) :
    msg.messageReceieved = .send := by
  cases payload <;> simp only [RestApi.payloadMessage?, Option.some.injEq, reduceCtorEq] at h
    <;> rw [← h] <;> rfl

theorem stamped_direction : Stamped fun msg => msg.messageReceieved = .send where
  received _ _ _ := rfl
  sent _ _ _ h := h
  valid _ h := h
  enqueued _ _ _ _ _ h := direction_payloadMessage? h

theorem clientDirection_conversion {program : Program} {system : System} {event : Event}
    (h : AllMessages (fun msg => msg.messageReceieved = .send) system.shared)
    {made : Conversion} (hmade : Conversion.inEvent program system event = some made) :
    clientDirection made.text = some (.string (ascii "SEND"), .int 2) := by
  obtain ⟨hdirection, type, htext⟩ := Conversion.of_allMessages stamped_direction h hmade
  rw [htext, clientDirection_messageText, hdirection]
  rfl

/-! ## The paths in the documents -/

/-- The document of an event tells the path of its message, by name and by number. -/
def TellsPath (program : Program) (raw : Path → Int) (traced : Traced) (event : Event) : Prop :=
  ∀ made, Conversion.inEvent program traced.system event = some made →
    ∃ path, traced.path event = some path ∧
      clientDirection made.text = some (.string path.name, .int (raw path))

/-- The event receives no frame that the filter lets through. -/
def ReceivesNothing (program : Program) : Event → Prop
  | .pass env => ∀ frame, env.received = some frame →
      program.setup.idFilter.checkMessage (key frame.canId) = false
  | _ => True

theorem receivesNothing_of_tellsPath {program : Program} {raw : Path → Int} {traced : Traced}
    {event : Event} (h : TellsPath program raw traced event) :
    ReceivesNothing program event := by
  cases event with
  | pass env =>
      intro frame hread
      by_contra hcheck
      rw [Bool.not_eq_false] at hcheck
      obtain ⟨path, hpath, htext⟩ := h _ (Conversion.inEvent_accepted hread hcheck)
      have hgot : path = .got := by
        rw [Traced.path, hread] at hpath
        exact (Option.some.inj hpath).symm
      have hdirection : clientDirection (RedisInterface.storeText traced.system.shared
          (Main.receivedMessage env traced.system.locals frame)) =
            some (.string (ascii "SEND"), .int 2) := clientDirection_messageText _ _
      rw [hdirection, hgot] at htext
      have hname := Json.string.inj (congrArg Prod.fst (Option.some.inj htext))
      exact absurd hname (by decide)
  | _ => trivial

/-- As long as nothing is received, every record comes from the send path. -/
structure SentOnly (traced : Traced) : Prop where
  direction : AllMessages (fun msg => msg.messageReceieved = .send) traced.system.shared
  origin : ∀ (id : UInt16) (msg : CanMessage), traced.system.shared.mp[id]? = some msg →
    traced.origin id = some .send

theorem path_putIn {program : Program} {system : System} {event : Event} {path : Path}
    {msg : CanMessage} (h : ReceivesNothing program event)
    (hput : putIn program system event = some (path, msg)) : path = .send := by
  cases event with
  | pass env =>
      cases hread : env.received with
      | some frame =>
          have hcheck : ¬ program.setup.idFilter.checkMessage (key frame.canId) = true := by
            rw [h frame hread]
            exact Bool.false_ne_true
          simp only [putIn, hread] at hput
          rw [if_neg hcheck] at hput
          cases hput
      | none =>
          simp only [putIn, hread] at hput
          split at hput
          · split at hput
            · exact (congrArg Prod.fst (Option.some.inj hput)).symm
            · cases hput
          · cases hput
  | _ => cases hput

namespace SentOnly

theorem initial (config : ConfigParser) (hash : StringMap) (fr : CanFrame) :
    SentOnly (.initial config hash fr) := by
  refine ⟨.start _ hash, fun id msg hmsg => ?_⟩
  simp [Traced.initial, System.initial, Main.initial] at hmsg

theorem step {program : Program} {traced : Traced} {event : Event} (h : SentOnly traced)
    (hevent : ReceivesNothing program event) : SentOnly (traced.step program event) := by
  refine ⟨h.direction.step stamped_direction program traced.system event,
    fun id stored hstored => ?_⟩
  have hmp := mp_step program traced.system event
  change (System.step program traced.system event).shared.mp[id]? = some stored at hstored
  rw [hmp] at hstored
  unfold Traced.step
  cases hput : putIn program traced.system event with
  | none =>
      rw [hput] at hstored
      exact h.origin id stored hstored
  | some put =>
      obtain ⟨path, msg⟩ := put
      obtain rfl := path_putIn hevent hput
      rw [hput] at hstored
      simp only [CanHashtable.putMap] at hstored ⊢
      -- A put with the digest of the record leaves both the record and its origin.
      split at hstored
      next hsame =>
          rw [if_pos hsame]
          exact h.origin id stored hstored
      next hsame =>
          rw [if_neg hsame]
          rw [getElem?_insert] at hstored
          split at hstored
          next hid => rw [hid, Function.update_self]
          next hid =>
              rw [Function.update_of_ne (Ne.symm hid)]
              exact h.origin id stored hstored

def sendRaw : Path → Int
  | .got => 0
  | .send => 2

theorem tellsPath {program : Program} {traced : Traced} {event : Event} (h : SentOnly traced)
    (hevent : ReceivesNothing program event) : TellsPath program sendRaw traced event := by
  intro made hmade
  refine ⟨.send, ?_, clientDirection_conversion h.direction hmade⟩
  cases event with
  | pass env =>
      cases hread : env.received with
      | none => rw [Traced.path, hread]; rfl
      | some frame =>
          rw [Conversion.inEvent_rejected hread (hevent frame hread)] at hmade
          cases hmade
  | receive digits env =>
      cases hstored : traced.system.shared.mp[RestApi.requestKey digits]? with
      | some msg => exact h.origin _ msg hstored
      | none =>
          rw [Conversion.inEvent_missing program env hstored] at hmade
          cases hmade
  | _ => cases hmade

end SentOnly

/--
Every document says `SEND` and 2.  So the documents of a run tell the paths of
their messages, with a number for each path, exactly if the run receives no frame.
-/
theorem tellsPath_iff (program : Program) (config : ConfigParser) (hash : StringMap)
    (fr : CanFrame) (events : List Event) :
    ((∃ raw : Path → Int, raw .got ≠ raw .send ∧
        Along (Traced.step program) (TellsPath program raw) (.initial config hash fr) events) ↔
      ∀ event ∈ events, ReceivesNothing program event) ∧
    ∀ event made,
      Conversion.inEvent program (System.run program (.initial config hash fr) events) event =
          some made →
        clientDirection made.text = some (.string (ascii "SEND"), .int 2) := by
  refine ⟨⟨?_, fun h => ?_⟩, fun event made hmade => ?_⟩
  · rintro ⟨raw, -, htold⟩
    exact along_iff_forall.mp
      (htold.mono fun traced event htells => receivesNothing_of_tellsPath htells)
  · refine ⟨SentOnly.sendRaw, by decide, ?_⟩
    have hnothing : Along (Traced.step program) (fun _ event => ReceivesNothing program event)
        (.initial config hash fr) events := along_iff_forall.mpr h
    exact hnothing.mono_of_invariant SentOnly
      (fun traced event hevent hsent => ⟨hsent.tellsPath hevent, hsent.step hevent⟩)
      (.initial config hash fr)
  · have hstart : AllMessages (fun msg => msg.messageReceieved = .send)
        (System.initial config hash fr).shared := .start _ hash
    exact clientDirection_conversion (hstart.run stamped_direction events) hmade

theorem oneFrame_not_told :
    ¬ ∀ (program : Program) (config : ConfigParser) (hash : StringMap) (fr : CanFrame)
        (events : List Event), ∃ raw : Path → Int, raw .got ≠ raw .send ∧
      Along (Traced.step program) (TellsPath program raw) (.initial config hash fr) events := by
  intro h
  obtain ⟨raw, -, htold⟩ := h .acceptAll (.loadConfigFile ∅) ∅ CanMessage.zero.frame oneFrame
  exact absurd (receivesNothing_of_tellsPath htold.1 (emptyFrame 200) rfl) (by decide)

end Can2Rest.Properties
