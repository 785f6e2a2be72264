import Can2Rest.Bridge

/-!
# The frame store

This file models `can_hashtable.cpp`.  `put` keeps the stored message when the
new one has the same digest; the record of an identifier is therefore the first
message of its latest block of equal payloads.
-/

namespace Can2Rest

open Foundation Shared

namespace CanHashtable

def checkKeyExists (id : UInt16) : Code Bool :=
  Prog.perform (I := Sections) (.storeFind id)

/-- `mp[id]`. -/
def storeIndex (id : UInt16) : Code CanMessage :=
  Prog.perform (I := Sections) (.storeIndex id)

/-- `mp[id] = msg`. -/
def storeAssign (id : UInt16) (msg : CanMessage) : Code Unit :=
  Prog.perform (I := Sections) (.storeAssign id msg)

def get (id : UInt16) : Code CanMessage := do
  if ← checkKeyExists id then
    let tmp ← storeIndex id
    return { tmp with valid := true }
  else return { CanMessage.zero with valid := false }

/--
The message that `put` builds.  The source leaves `valid` and `type` of it
indeterminate; nothing reads them before they are set.
-/
def putMessage (frame : CanFrame) (timestamp : Int) (syncTick : UInt64)
    (rs : MessageSend) (hash : Bytes) : CanMessage where
  frame := frame
  syncTick := syncTick
  ts := timestamp
  hash := hash
  valid := false
  messageReceieved := rs
  type := .none

/-- The block under `DONT_WRITE_DUPLICATES`. -/
def writeNew (msg : CanMessage) : Code Unit := do
  if ← checkKeyExists (key msg.frame.id) then
    let stored ← storeIndex (key msg.frame.id)
    if stored.hash ≠ msg.hash then
      storeAssign (key msg.frame.id) msg
  else storeAssign (key msg.frame.id) msg

def put (frame : CanFrame) (timestamp : Int) (syncTick : UInt64)
    (rs : MessageSend) : Code CanMessage := do
  let hash ← digest .gotCanMessages frame.payload
  let msg := putMessage frame timestamp syncTick rs hash
  writeNew msg
  return msg

def storeKeys : Code (List UInt16) := Prog.perform (I := Sections) .storeKeys

def getIdList : Code (List Int) := do
  let keys ← storeKeys
  return keys.map fun id => (id.toNat : Int)

/-! ## What the operations do alone -/

def putResult (frame : CanFrame) (timestamp : Int) (syncTick : UInt64)
    (rs : MessageSend) : CanMessage :=
  putMessage frame timestamp syncTick rs (Shared.sha256 frame.payload)

def HasHash (mp : MessageMap) (id : UInt16) (hash : Bytes) : Prop :=
  ∃ stored, mp[id]? = some stored ∧ stored.hash = hash

instance (mp : MessageMap) (id : UInt16) (hash : Bytes) :
    Decidable (HasHash mp id hash) :=
  match h : mp[id]? with
  | none => isFalse (by rintro ⟨stored, hstored, -⟩; simp [h] at hstored)
  | some stored =>
      decidable_of_iff (stored.hash = hash) (by simp [HasHash, h])

theorem hasHash_iff {mp : MessageMap} {id : UInt16} {hash : Bytes} :
    HasHash mp id hash ↔ mp[id]?.map CanMessage.hash = some hash := by
  rw [Option.map_eq_some_iff]
  rfl

def putMap (mp : MessageMap) (msg : CanMessage) : MessageMap :=
  if HasHash mp (key msg.frame.id) msg.hash then mp
  else mp.insert (key msg.frame.id) msg

@[simp] theorem putResult_frame (frame : CanFrame) (timestamp : Int)
    (syncTick : UInt64) (rs : MessageSend) :
    (putResult frame timestamp syncTick rs).frame = frame := rfl

@[simp] theorem putResult_hash (frame : CanFrame) (timestamp : Int)
    (syncTick : UInt64) (rs : MessageSend) :
    (putResult frame timestamp syncTick rs).hash =
      Shared.sha256 frame.payload := rfl

@[simp] theorem run_checkKeyExists (env : Env) (id : UInt16) (state : Bridge) :
    (checkKeyExists id).run bridge env state =
      (state.mp[id]?.isSome, state) := by
  rw [← Std.ExtTreeMap.contains_eq_isSome_getElem?]
  rfl

@[simp] theorem run_storeAssign (env : Env) (id : UInt16) (msg : CanMessage)
    (state : Bridge) :
    (storeAssign id msg).run bridge env state =
      ((), { state with mp := state.mp.insert id msg }) :=
  rfl

theorem run_storeIndex {env : Env} {id : UInt16} {state : Bridge}
    {msg : CanMessage} (h : state.mp[id]? = some msg) :
    (storeIndex id).run bridge env state = (msg, state) := by
  have hindex := mapIndex_of_some h CanMessage.zero
  change ((mapIndex state.mp id .zero).1,
    { state with mp := (mapIndex state.mp id .zero).2 }) = _
  rw [hindex]

@[simp] theorem run_getIdList (env : Env) (state : Bridge) :
    getIdList.run bridge env state =
      (state.mp.keys.map fun id => (id.toNat : Int), state) := by
  have hkeys : storeKeys.run bridge env state = (state.mp.keys, state) := rfl
  simp [getIdList, hkeys]

def getResult (mp : MessageMap) (id : UInt16) : CanMessage :=
  match mp[id]? with
  | some msg => { msg with valid := true }
  | none => { CanMessage.zero with valid := false }

theorem getResult_congr {mp mp' : MessageMap} {id : UInt16} (h : mp[id]? = mp'[id]?) :
    getResult mp id = getResult mp' id := by
  simp only [getResult, h]

@[simp] theorem run_get (env : Env) (id : UInt16) (state : Bridge) :
    (get id).run bridge env state = (getResult state.mp id, state) := by
  cases h : state.mp[id]? with
  | none => simp [get, getResult, h]
  | some msg => simp [get, getResult, h, run_storeIndex h]

theorem getElem?_putMap_of_ne {mp : MessageMap} {msg : CanMessage} {id : UInt16}
    (h : key msg.frame.id ≠ id) : (putMap mp msg)[id]? = mp[id]? := by
  unfold putMap
  split
  · rfl
  · rw [getElem?_insert, if_neg h]

theorem getElem?_putMap {mp : MessageMap} {msg stored : CanMessage} {id : UInt16}
    (h : (putMap mp msg)[id]? = some stored) :
    mp[id]? = some stored ∨ id = key msg.frame.id ∧ stored = msg := by
  unfold putMap at h
  split at h
  · exact .inl h
  · rw [getElem?_insert] at h
    split at h
    next hid => exact .inr ⟨hid.symm, (Option.some.inj h).symm⟩
    next => exact .inl h

theorem getElem?_putMap_self (mp : MessageMap) (msg : CanMessage) :
    ∃ stored, (putMap mp msg)[key msg.frame.id]? = some stored ∧
      (stored = msg ∨ mp[key msg.frame.id]? = some stored ∧ stored.hash = msg.hash) := by
  unfold putMap
  split
  next h =>
    obtain ⟨stored, hstored, hhash⟩ := h
    exact ⟨stored, hstored, .inr ⟨hstored, hhash⟩⟩
  next => exact ⟨msg, by rw [getElem?_insert, if_pos rfl], .inl rfl⟩

theorem valid_getResult_putMap (mp : MessageMap) (msg : CanMessage) :
    (getResult (putMap mp msg) (key msg.frame.id)).valid = true := by
  obtain ⟨stored, hstored, -⟩ := getElem?_putMap_self mp msg
  rw [getResult, hstored]

theorem run_writeNew (env : Env) (msg : CanMessage) (state : Bridge) :
    (writeNew msg).run bridge env state =
      ((), { state with mp := putMap state.mp msg }) := by
  cases h : state.mp[key msg.frame.id]? with
  | none =>
      have hnew : ¬ HasHash state.mp (key msg.frame.id) msg.hash := by
        simp [HasHash, h]
      simp [writeNew, h, putMap, hnew]
  | some stored =>
      have hsame : HasHash state.mp (key msg.frame.id) msg.hash ↔
          stored.hash = msg.hash := by
        simp [HasHash, h]
      by_cases heq : stored.hash = msg.hash
      · simp [writeNew, h, run_storeIndex h, putMap, hsame, heq]
      · simp [writeNew, h, run_storeIndex h, putMap, hsame, heq]

/-- The state after `put`: the digest object is used, and the store may change. -/
@[simps] def putState (state : Bridge) (msg : CanMessage) : Bridge :=
  { state.setSha .gotCanMessages (SHA256.reset.add msg.frame.payload) with
    mp := putMap state.mp msg }

@[simp] theorem run_put (env : Env) (frame : CanFrame) (timestamp : Int)
    (syncTick : UInt64) (rs : MessageSend) (state : Bridge) :
    (put frame timestamp syncTick rs).run bridge env state =
      (putResult frame timestamp syncTick rs,
       putState state (putResult frame timestamp syncTick rs)) := by
  simp only [put, Prog.run_bind, run_digest, run_writeNew, Prog.run_pure]
  rfl

end CanHashtable

end Can2Rest
