import Can2Rest.System

/-!
# What the frame store holds

Every record of the store stands under the low sixteen bits of its own id, has
the digest of its own payload, and is a frame that was received or taken from
the send queue and handed on to Redis.  This holds in every run, whatever the
environment does.
-/

namespace Can2Rest

open Foundation Shared

/-- The frame was received, or dequeued to be sent. -/
def Origin (history : History) (frame : CanFrame) : Prop :=
  (∃ got ∈ history.received, got.canId = frame.id ∧ got.payload = frame.payload) ∨
    ∃ msg ∈ history.dequeued, msg.frame = frame

theorem Origin.mono {before after : History} {frame : CanFrame}
    (h : Origin before frame) (hreceived : before.received ⊆ after.received)
    (hdequeued : before.dequeued ⊆ after.dequeued) : Origin after frame := by
  rcases h with ⟨got, hgot, hframe⟩ | ⟨msg, hmsg, hframe⟩
  · exact .inl ⟨got, hreceived hgot, hframe⟩
  · exact .inr ⟨msg, hdequeued hmsg, hframe⟩

structure Recorded (history : History) (id : UInt16) (msg : CanMessage) : Prop where
  key_eq : key msg.frame.id = id
  hash_eq : msg.hash = sha256 msg.frame.payload
  origin : Origin history msg.frame
  handed : ∃ json, (msg.frame.id, json) ∈ history.stored

theorem Recorded.mono {before after : History} {id : UInt16} {msg : CanMessage}
    (h : Recorded before id msg) (hextends : System.Extends before after) :
    Recorded after id msg := by
  obtain ⟨hkey, hhash, horigin, json, hjson⟩ := h
  exact ⟨hkey, hhash, horigin.mono hextends.received hextends.dequeued, json,
    hextends.stored hjson⟩

structure StoreSound (state : Bridge) : Prop where
  queue : ∀ msg ∈ state.messageQueue, msg.frame.id.toNat ≤ 65535
  store : ∀ id msg, state.mp[id]? = some msg → Recorded state.history id msg

namespace StoreSound

theorem start (typeRegister : TypeRegister) (hash : StringMap) :
    StoreSound (.start typeRegister hash) := by
  constructor
  · simp
  · simp

theorem frame {before after : Bridge} (h : StoreSound before) (hmp : after.mp = before.mp)
    (hqueue : ∀ msg ∈ after.messageQueue, msg.frame.id.toNat ≤ 65535)
    (hextends : System.Extends before.history after.history) : StoreSound after :=
  ⟨hqueue, fun id msg hmsg => (h.store id msg (hmp ▸ hmsg)).mono hextends⟩

theorem put {before after : Bridge} (h : StoreSound before) (msg : CanMessage)
    (hmp : after.mp = CanHashtable.putMap before.mp msg)
    (hqueue : ∀ msg ∈ after.messageQueue, msg.frame.id.toNat ≤ 65535)
    (hextends : System.Extends before.history after.history)
    (hnew : Recorded after.history (key msg.frame.id) msg) : StoreSound after := by
  refine ⟨hqueue, fun id stored hstored => ?_⟩
  rw [hmp] at hstored
  rcases CanHashtable.getElem?_putMap hstored with hold | ⟨rfl, rfl⟩
  · exact (h.store id stored hold).mono hextends
  · exact hnew

end StoreSound

theorem frameId_payloadMessage? {undefined : Binary64.OutOfRange} {id : UInt16}
    {payload : Json} {declared : Vector UInt8 64} {msg : CanMessage}
    (h : RestApi.payloadMessage? undefined id payload declared = some msg) :
    msg.frame.id = id.toUInt32 := by
  cases payload <;> simp only [RestApi.payloadMessage?, Option.some.injEq, reduceCtorEq] at h
    <;> rw [← h] <;> rfl

theorem StoreSound.effect {program : Program} {system after : System} {event : Event}
    (heffect : System.Effect program system event after)
    (h : StoreSound system.shared) : StoreSound after.shared := by
  have hextends := heffect.extends_history
  cases heffect with
  | rejected env frame hread hcheck => exact h.frame rfl h.queue hextends
  | accepted env frame hread hcheck =>
      refine h.put (Main.receivedMessage env system.locals frame) rfl h.queue hextends
        ⟨rfl, rfl, .inl ⟨frame, ?_, rfl, (payload_receive _ _).symm⟩, ?_⟩
      · simp [Main.receivedState, hread]
      · exact ⟨_, List.mem_append_right _ (List.mem_singleton_self _)⟩
  | idle env hread hqueue => exact h.frame rfl h.queue hextends
  | sent env msg rest hread hqueue =>
      refine h.put (Main.sentMessage env system.locals.frameSyncCounter
        { msg with valid := true }) rfl ?_ hextends ⟨rfl, rfl, .inr ⟨msg, ?_, rfl⟩, ?_⟩
      · intro later hlater
        exact h.queue later (hqueue ▸ List.mem_cons_of_mem _ hlater)
      · simp [Main.sentState]
      · exact ⟨_, List.mem_append_right _ (List.mem_singleton_self _)⟩
  | refused body env hrequest => exact h
  | enqueued body env id payload hrequest =>
      refine h.frame rfl ?_ hextends
      intro msg hmsg
      rcases List.mem_append.mp hmsg with hold | hnew
      · exact h.queue msg hold
      · have hid := frameId_payloadMessage? (Option.mem_toList.mp hnew)
        rw [hid, UInt16.toNat_toUInt32]
        exact Nat.le_of_lt_succ (UInt16.toNat_lt _)
  | served digits env msg hstored => exact h.frame rfl h.queue hextends
  | missing digits env hstored => exact h
  | worked connected env shared hframe | executed env shared hframe =>
      refine h.frame hframe.mp ?_ hextends
      rw [hframe.messageQueue]
      exact h.queue

theorem storeSound_run {program : Program} {system : System} (events : List Event)
    (h : StoreSound system.shared) :
    StoreSound (System.run program system events).shared :=
  runFrom_invariant (fun system => StoreSound system.shared)
    (fun system event hsystem => hsystem.effect (System.step_effect program system event))
    system events h

/-! ## Properties of all messages -/

/-- A property that the encoders and both paths of the main loop give to messages. -/
structure Stamped (P : CanMessage → Prop) : Prop where
  received : ∀ env locals frame, P (Main.receivedMessage env locals frame)
  sent : ∀ env counter msg, P msg → P (Main.sentMessage env counter msg)
  valid : ∀ msg, P msg → P { msg with valid := true }
  enqueued : ∀ undefined id payload declared msg,
    RestApi.payloadMessage? undefined id payload declared = some msg → P msg

structure AllMessages (P : CanMessage → Prop) (state : Bridge) : Prop where
  queue : ∀ msg ∈ state.messageQueue, P msg
  store : ∀ (id : UInt16) (msg : CanMessage), state.mp[id]? = some msg → P msg

namespace AllMessages

variable {P : CanMessage → Prop}

theorem start (typeRegister : TypeRegister) (hash : StringMap) :
    AllMessages P (.start typeRegister hash) := by
  constructor
  · simp
  · simp

theorem put {before after : Bridge} (h : AllMessages P before) (msg : CanMessage) (hmsg : P msg)
    (hmp : after.mp = CanHashtable.putMap before.mp msg)
    (hqueue : after.messageQueue ⊆ before.messageQueue) : AllMessages P after := by
  refine ⟨fun queued hqueued => h.queue queued (hqueue hqueued), fun id stored hstored => ?_⟩
  rw [hmp] at hstored
  rcases CanHashtable.getElem?_putMap hstored with hold | ⟨-, rfl⟩
  · exact h.store id stored hold
  · exact hmsg

theorem effect (hP : Stamped P) {program : Program} {system after : System} {event : Event}
    (heffect : System.Effect program system event after) (h : AllMessages P system.shared) :
    AllMessages P after.shared := by
  cases heffect with
  | rejected env frame hread hcheck => exact ⟨h.queue, h.store⟩
  | accepted env frame hread hcheck =>
      exact h.put (Main.receivedMessage env system.locals frame) (hP.received _ _ _) rfl
        (List.Subset.refl _)
  | idle env hread hqueue => exact ⟨h.queue, h.store⟩
  | sent env msg rest hread hqueue hvisible =>
      have hmsg : P msg := h.queue msg (hqueue ▸ List.mem_cons_self)
      refine h.put (Main.sentMessage env system.locals.frameSyncCounter
        { msg with valid := true }) (hP.sent _ _ _ (hP.valid msg hmsg)) rfl ?_
      rw [hqueue]
      exact List.subset_cons_self msg rest
  | refused body env hrequest => exact h
  | enqueued body env id payload hrequest =>
      refine ⟨fun msg hmsg => ?_, h.store⟩
      rcases List.mem_append.mp hmsg with hold | hnew
      · exact h.queue msg hold
      · exact hP.enqueued _ _ _ _ msg (Option.mem_toList.mp hnew)
  | served digits env msg hstored => exact ⟨h.queue, h.store⟩
  | missing digits env hstored => exact h
  | worked connected env shared hframe | executed env shared hframe =>
      refine ⟨?_, ?_⟩
      · rw [hframe.messageQueue]
        exact h.queue
      · rw [hframe.mp]
        exact h.store

theorem step (hP : Stamped P) (program : Program) (system : System) (event : Event)
    (h : AllMessages P system.shared) :
    AllMessages P (System.step program system event).shared :=
  h.effect hP (System.step_effect program system event)

theorem run (hP : Stamped P) {program : Program} {system : System} (events : List Event)
    (h : AllMessages P system.shared) :
    AllMessages P (System.run program system events).shared :=
  runFrom_invariant (fun system => AllMessages P system.shared) (step hP program) system events h

end AllMessages

end Can2Rest
