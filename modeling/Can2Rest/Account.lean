import Can2Rest.Serving

/-!
# The account of the main loop

The main loop seen as one pass after the other, without threads and sections: what a
pass does to the store, the registry and what was read, sent and handed to Redis.

In every interleaving the bridge agrees with such an account.  Other threads only add
entries `NONE` to the registry, under keys that the store has, and between two passes
the registry has these already.
-/

namespace Can2Rest

open Foundation Shared

/-- A pass reads a frame, has nothing to do, or sends a message of the queue. -/
inductive Pass where
  | received (frame : CanfdFrame) (timestamp : Int)
  | idle
  | sent (msg : CanMessage) (written : Bool) (timestamp : Int)

structure Account where
  locals : MainLocals
  typeRegister : TypeRegister
  mp : MessageMap
  received : List CanfdFrame
  dequeued : List CanMessage
  transmitted : List CanfdFrame
  stored : List (UInt32 × Bytes)

namespace Account

def start (config : ConfigParser) (fr : CanFrame) : Account where
  locals := ⟨fr, 0⟩
  typeRegister := Main.setupRegister config
  mp := ∅
  received := []
  dequeued := []
  transmitted := []
  stored := []

/-! ## What a pass does -/

@[simps] def read (account : Account) (frame : CanfdFrame) : Account :=
  { account with received := account.received ++ [frame] }

@[simps] def dequeue (account : Account) (msg : CanMessage) : Account :=
  { account with dequeued := account.dequeued ++ [msg] }

@[simps] def write (account : Account) (frame : CanfdFrame) (written : Bool) : Account :=
  { account with transmitted := account.transmitted ++ if written then [frame] else [] }

@[simps] def register (account : Account) (msg : CanMessage) : Account :=
  { account with
    typeRegister := account.typeRegister.insertIfNew (key msg.frame.id) msg.type }

@[simps] def put (account : Account) (msg : CanMessage) : Account :=
  { account with mp := CanHashtable.putMap account.mp msg }

@[simps] def look (account : Account) (id : UInt16) : Account :=
  { account with typeRegister := CanFrameToJson.lookedUp account.typeRegister id }

/-- The document of `msg` under the type that is registered for its id. -/
@[simps!] def store (account : Account) (msg : CanMessage) : Account :=
  { account.look (key msg.frame.id) with
    stored := account.stored ++ [(msg.frame.id, CanFrameToJson.messageText
      (CanFrameToJson.registeredType account.typeRegister (key msg.frame.id)) msg)] }

@[simps] def setLocals (account : Account) (locals : MainLocals) : Account :=
  { account with locals := locals }

/-- The message that `put` returns for a frame that was read. -/
def incoming (account : Account) (frame : CanfdFrame) (timestamp : Int) : CanMessage :=
  CanHashtable.putResult (account.locals.fr.receive frame) timestamp
    account.locals.frameSyncCounter.toUInt64 .got

/-- The message that `put` returns for a frame that was sent. -/
def outgoing (account : Account) (msg : CanMessage) (timestamp : Int) : CanMessage :=
  CanHashtable.putResult msg.frame timestamp account.locals.frameSyncCounter.toUInt64
    msg.messageReceieved

def receive (setup : Setup) (account : Account) (frame : CanfdFrame) (timestamp : Int) :
    Account :=
  let fr := account.locals.fr.receive frame
  if setup.idFilter.checkMessage (key fr.id) then
    let msg := account.incoming frame timestamp
    (((account.read frame).put msg).store msg).setLocals
      ⟨fr, Main.countFrame account.locals.frameSyncCounter fr⟩
  else (account.read frame).setLocals { account.locals with fr := fr }

def send (account : Account) (msg : CanMessage) (written : Bool) (timestamp : Int) : Account :=
  ((((account.dequeue msg).write msg.frame.transmit written).register msg).put
    (account.outgoing msg timestamp)).store { msg with valid := true }

def step (setup : Setup) (account : Account) : Pass → Account
  | .received frame timestamp => account.receive setup frame timestamp
  | .idle => account
  | .sent msg written timestamp => account.send msg written timestamp

def after (setup : Setup) (config : ConfigParser) (fr : CanFrame) (passes : List Pass) : Account :=
  passes.foldl (step setup) (start config fr)

/-! ## Agreement -/

/-- Every id that the store has is in the registry. -/
def Settled (account : Account) : Prop :=
  ∀ id ∈ account.mp, id ∈ account.typeRegister

/-- The shared state is as the account says, up to lookups of the registry. -/
structure Agrees (account : Account) (state : Bridge) : Prop where
  mp : state.mp = account.mp
  types : ∀ id, CanFrameToJson.registeredType state.typeRegister id =
    CanFrameToJson.registeredType account.typeRegister id
  registered : ∀ id ∈ account.typeRegister, id ∈ state.typeRegister
  looked : ∀ id ∈ state.typeRegister, id ∈ account.typeRegister ∨ id ∈ account.mp
  received : state.history.received = account.received
  dequeued : state.history.dequeued = account.dequeued
  transmitted : state.history.transmitted = account.transmitted
  stored : state.history.stored = account.stored

theorem Agrees.typeRegister_eq {account : Account} {state : Bridge} (h : account.Agrees state)
    (hsettled : account.Settled) : state.typeRegister = account.typeRegister := by
  have hmem (id : UInt16) : id ∈ state.typeRegister ↔ id ∈ account.typeRegister :=
    ⟨fun hid => (h.looked id hid).elim (fun hregistered => hregistered) (hsettled id),
      h.registered id⟩
  refine Std.ExtTreeMap.ext_getElem? fun id => ?_
  have htype := h.types id
  have hid := hmem id
  rw [Std.ExtTreeMap.mem_iff_isSome_getElem?, Std.ExtTreeMap.mem_iff_isSome_getElem?] at hid
  unfold CanFrameToJson.registeredType at htype
  cases hstate : state.typeRegister[id]? with
  | none =>
      cases haccount : account.typeRegister[id]? with
      | none => rfl
      | some type => simp [hstate, haccount] at hid
  | some type =>
      cases haccount : account.typeRegister[id]? with
      | none => simp [hstate, haccount] at hid
      | some other =>
          rw [hstate, haccount] at htype
          exact congrArg some htype

theorem mem_lookedUp {register : TypeRegister} {id other : UInt16} :
    other ∈ CanFrameToJson.lookedUp register id ↔ other ∈ register ∨ other = id := by
  rw [Std.ExtTreeMap.mem_iff_isSome_getElem?, CanFrameToJson.getElem?_lookedUp]
  split
  next hid => exact iff_of_true rfl (.inr hid.symm)
  next hid =>
    rw [← Std.ExtTreeMap.mem_iff_isSome_getElem?]
    exact (or_iff_left fun heq => hid heq.symm).symm

theorem settled_store {account : Account} {msg : CanMessage}
    (h : ∀ id ∈ account.mp, id ∈ account.typeRegister ∨ id = key msg.frame.id) :
    (account.store msg).Settled :=
  fun id hid => mem_lookedUp.mpr (h id hid)

theorem mem_putMap {mp : MessageMap} {msg : CanMessage} {id : UInt16}
    (h : id ∈ CanHashtable.putMap mp msg) : id ∈ mp ∨ id = key msg.frame.id := by
  rw [Std.ExtTreeMap.mem_iff_isSome_getElem?, Option.isSome_iff_exists] at h
  obtain ⟨stored, hstored⟩ := h
  rcases CanHashtable.getElem?_putMap hstored with hold | ⟨hid, -⟩
  · exact .inl (Std.ExtTreeMap.mem_iff_isSome_getElem?.mpr (by rw [hold]; rfl))
  · exact .inr hid

theorem mem_put {account : Account} {msg : CanMessage} {id : UInt16}
    (h : id ∈ (account.put msg).mp) : id ∈ account.mp ∨ id = key msg.frame.id :=
  mem_putMap h

theorem Settled.step {setup : Setup} {account : Account} (h : account.Settled) (pass : Pass) :
    (account.step setup pass).Settled := by
  cases pass with
  | received frame timestamp =>
      simp only [Account.step, receive]
      split
      · exact settled_store fun id hid => (mem_put hid).imp_left (h id)
      · exact h
  | idle => exact h
  | sent msg written timestamp =>
      refine settled_store fun id hid => (mem_put hid).imp_left fun hold => ?_
      exact Std.ExtTreeMap.mem_insertIfNew.mpr (.inr (h id hold))

theorem settled_after (setup : Setup) (config : ConfigParser) (fr : CanFrame)
    (passes : List Pass) : (after setup config fr passes).Settled := by
  have hstart : (start config fr).Settled := fun id hid =>
    absurd hid Std.ExtTreeMap.not_mem_empty
  exact runFrom_invariant Settled (fun _ pass h => h.step pass) _ passes hstart

/-- What was sent is part of what was taken from the queue, in this order. -/
def InOrder (account : Account) : Prop :=
  account.transmitted.Sublist (account.dequeued.map fun msg => msg.frame.transmit)

theorem InOrder.congr {account other : Account} (h : account.InOrder)
    (hsame : other.transmitted = account.transmitted ∧ other.dequeued = account.dequeued) :
    other.InOrder := by
  rw [InOrder, hsame.1, hsame.2]
  exact h

theorem InOrder.dequeue {account : Account} (h : account.InOrder) (msg : CanMessage) :
    (account.dequeue msg).InOrder := by
  rw [InOrder, dequeue_transmitted, dequeue_dequeued, List.map_append]
  exact h.trans (List.sublist_append_left _ _)

theorem InOrder.write {account : Account} (h : account.InOrder) (msg : CanMessage)
    (written : Bool) : ((account.dequeue msg).write msg.frame.transmit written).InOrder := by
  rw [InOrder, write_transmitted, dequeue_transmitted, write_dequeued, dequeue_dequeued,
    List.map_append]
  refine List.Sublist.append h ?_
  cases written with
  | true => exact List.Sublist.refl _
  | false => exact List.nil_sublist _

theorem InOrder.step {setup : Setup} {account : Account} (h : account.InOrder) (pass : Pass) :
    (account.step setup pass).InOrder := by
  cases pass with
  | received frame timestamp =>
      simp only [Account.step, receive]
      split
      · exact h
      · exact h
  | idle => exact h
  | sent msg written timestamp => exact h.write msg written

theorem inOrder_after (setup : Setup) (config : ConfigParser) (fr : CanFrame)
    (passes : List Pass) : (after setup config fr passes).InOrder :=
  runFrom_invariant InOrder (fun _ pass h => h.step pass) _ passes (List.Sublist.refl [])

end Account

end Can2Rest
