import Can2Rest.CanHashtable
import Can2Rest.Foundation.Interleaving

/-!
# The frame store among concurrent readers

One thread puts messages while others get records and list the identifiers.
`put` and `get` take several sections each, and a record that is served is
nevertheless the first message of the latest block of equal payloads.
-/

namespace Can2Rest.Properties

open Foundation Shared

/-! ## Blocks of equal payloads -/

def SameData (first second : CanMessage) : Prop :=
  first.frame.len = second.frame.len ∧ first.frame.payload = second.frame.payload

theorem sameData_iff {first second : CanMessage} :
    SameData first second ↔ first.frame.payload = second.frame.payload := by
  refine ⟨fun h => h.2, fun h => ⟨?_, h⟩⟩
  apply UInt8.toNat.inj
  rw [← length_payload, ← length_payload, h]

def putsTo (completed : List CanMessage) (id : UInt16) : List CanMessage :=
  completed.filter fun msg => key msg.frame.id = id

/-- `msg` is the first put in the latest block of consecutive puts of equal data. -/
def BlockStart (puts : List CanMessage) (msg : CanMessage) : Prop :=
  ∃ earlier block, puts = earlier ++ msg :: block ∧
    (∀ later ∈ block, SameData msg later) ∧ ∀ last ∈ earlier.getLast?, ¬ SameData last msg

theorem BlockStart.mem {puts : List CanMessage} {msg : CanMessage}
    (h : BlockStart puts msg) : msg ∈ puts := by
  obtain ⟨earlier, block, rfl, -, -⟩ := h
  simp

theorem BlockStart.sameData_last {puts : List CanMessage} {msg : CanMessage}
    (h : BlockStart puts msg) : ∃ last ∈ puts.getLast?, SameData msg last := by
  obtain ⟨earlier, block, rfl, hblock, -⟩ := h
  cases hlast : block.getLast? with
  | none =>
      rw [List.getLast?_eq_none_iff] at hlast
      exact ⟨msg, by simp [hlast], rfl, rfl⟩
  | some last =>
      exact ⟨last, by simp [List.getLast?_append, List.getLast?_cons, hlast],
        hblock last (List.mem_of_getLast? hlast)⟩

theorem blockStart_singleton (msg : CanMessage) : BlockStart [msg] msg :=
  ⟨[], [], rfl, by simp, by simp⟩

theorem BlockStart.extend {puts : List CanMessage} {msg new : CanMessage}
    (h : BlockStart puts msg) (hsame : SameData msg new) : BlockStart (puts ++ [new]) msg := by
  obtain ⟨earlier, block, rfl, hblock, hearlier⟩ := h
  refine ⟨earlier, block ++ [new], by simp, fun later hlater => ?_, hearlier⟩
  rcases List.mem_append.mp hlater with hold | hnew
  · exact hblock later hold
  · rw [List.mem_singleton.mp hnew]
    exact hsame

theorem BlockStart.renew {puts : List CanMessage} {msg new : CanMessage}
    (h : BlockStart puts msg) (hdiffer : ¬ SameData msg new) :
    BlockStart (puts ++ [new]) new := by
  refine ⟨puts, [], rfl, by simp, fun last hlast hsame => hdiffer ?_⟩
  obtain ⟨last', hlast', hsame'⟩ := h.sameData_last
  obtain rfl : last' = last := Option.mem_unique hlast' hlast
  exact ⟨hsame'.1.trans hsame.1, hsame'.2.trans hsame.2⟩

/-! ## The map and the puts -/

theorem putsTo_append (completed : List CanMessage) (msg : CanMessage) (id : UInt16) :
    putsTo (completed ++ [msg]) id =
      putsTo completed id ++ if key msg.frame.id = id then [msg] else [] := by
  rw [putsTo, List.filter_append, ← putsTo, List.filter_singleton]
  simp

theorem mem_putsTo {completed : List CanMessage} {id : UInt16} {msg : CanMessage} :
    msg ∈ putsTo completed id ↔ msg ∈ completed ∧ key msg.frame.id = id := by
  simp [putsTo]

/-- Every record is the start of the latest block of the puts to its identifier. -/
structure Reflects (mp : MessageMap) (completed : List CanMessage) : Prop where
  record : ∀ {id stored}, mp[id]? = some stored → BlockStart (putsTo completed id) stored
  absent : ∀ {id}, mp[id]? = none → putsTo completed id = []

theorem reflects_empty : Reflects ∅ [] where
  record h := by simp at h
  absent _ := rfl

theorem Reflects.mem_of_record {mp : MessageMap} {completed : List CanMessage}
    (h : Reflects mp completed) {id : UInt16} {stored : CanMessage}
    (hstored : mp[id]? = some stored) : stored ∈ completed :=
  (mem_putsTo.mp (h.record hstored).mem).1

theorem Reflects.put {mp : MessageMap} {completed : List CanMessage} {msg : CanMessage}
    (h : Reflects mp completed)
    (hhash : ∀ old ∈ completed, old.hash = msg.hash ↔ SameData old msg) :
    Reflects (CanHashtable.putMap mp msg) (completed ++ [msg]) := by
  have hother : ∀ {id : UInt16}, key msg.frame.id ≠ id →
      putsTo (completed ++ [msg]) id = putsTo completed id := fun hid => by
    rw [putsTo_append, if_neg hid, List.append_nil]
  constructor
  · intro id stored hstored
    by_cases hid : key msg.frame.id = id
    · subst hid
      rw [putsTo_append, if_pos rfl]
      cases hold : mp[key msg.frame.id]? with
      | none =>
          have hnew : ¬ CanHashtable.HasHash mp (key msg.frame.id) msg.hash := by
            simp [CanHashtable.HasHash, hold]
          rw [CanHashtable.putMap, if_neg hnew, getElem?_insert, if_pos rfl] at hstored
          cases hstored
          rw [h.absent hold]
          exact blockStart_singleton msg
      | some old =>
          have hdata := hhash old (h.mem_of_record hold)
          have hsame : CanHashtable.HasHash mp (key msg.frame.id) msg.hash ↔
              SameData old msg := by
            simp [CanHashtable.HasHash, hold, hdata]
          by_cases heq : SameData old msg
          · rw [CanHashtable.putMap, if_pos (hsame.mpr heq), hold] at hstored
            cases hstored
            exact (h.record hold).extend heq
          · rw [CanHashtable.putMap, if_neg (fun hhas => heq (hsame.mp hhas)),
              getElem?_insert, if_pos rfl] at hstored
            cases hstored
            exact (h.record hold).renew heq
    · rw [CanHashtable.getElem?_putMap_of_ne hid] at hstored
      rw [hother hid]
      exact h.record hstored
  · intro id hnone
    by_cases hid : key msg.frame.id = id
    · subst hid
      obtain ⟨stored, hstored, -⟩ := CanHashtable.getElem?_putMap_self mp msg
      rw [hstored] at hnone
      cases hnone
    · rw [CanHashtable.getElem?_putMap_of_ne hid] at hnone
      rw [hother hid]
      exact h.absent hnone

/-! ## The threads -/

structure PutCall where
  frame : CanFrame
  timestamp : Int
  syncTick : UInt64
  rs : MessageSend

def PutCall.result (call : PutCall) : CanMessage :=
  CanHashtable.putResult call.frame call.timestamp call.syncTick call.rs

/-- Equal digests of the payloads that are put mean equal payloads. -/
def DistinctDigests (calls : List PutCall) : Prop :=
  ∀ first ∈ calls, ∀ second ∈ calls,
    sha256 first.frame.payload = sha256 second.frame.payload →
      first.frame.payload = second.frame.payload

instance (calls : List PutCall) : Decidable (DistinctDigests calls) := by
  unfold DistinctDigests
  infer_instance

/-- One thread puts; every `get` and every `get_id_list` is a thread of its own. -/
inductive StoreThread where
  | writer
  | getter (id : UInt16) (number : Nat)
  | lister (number : Nat)
  deriving DecidableEq

/-- The puts that are done and the calls that are still to be made. -/
structure Writer where
  completed : List CanMessage
  coming : List PutCall

abbrev StoreThread.Local : StoreThread → Type
  | .writer => Writer
  | .getter _ _ => Option CanMessage
  | .lister _ => Option (List Int)

def putting (writer : Writer) : Code Writer :=
  match writer.coming with
  | [] => return writer
  | call :: coming => do
      let msg ← CanHashtable.put call.frame call.timestamp call.syncTick call.rs
      return ⟨writer.completed ++ [msg], coming⟩

def getting (id : UInt16) : Code (Option CanMessage) := do
  let answer ← CanHashtable.get id
  return some answer

def listing : Code (Option (List Int)) := do
  let answer ← CanHashtable.getIdList
  return some answer

def StoreThread.body : (thread : StoreThread) → thread.Local → Code thread.Local
  | .writer, puts => putting puts
  | .getter id _, none => getting id
  | .getter _ _, some answer => return some answer
  | .lister _, none => listing
  | .lister _, some answer => return some answer

abbrev StoreThreads := Pool Sections Bridge StoreThread.Local

/-! ## What is observed of a run -/

/--
A run with the puts that are completed and the identifiers that were inserted.
A thread that checked what it is asked for has the identifiers that were inserted
at its last check, and one that copied a record the puts completed at its last copy.
-/
structure Observed where
  threads : StoreThreads
  completed : List CanMessage
  inserted : List UInt16
  checked : StoreThread → Option (List UInt16)
  copied : StoreThread → Option (List CanMessage)

/-- A put is completed with its last section. -/
def completedPuts (program : Code Writer) (before : List CanMessage) : List CanMessage :=
  match program with
  | .ret writer => writer.completed
  | .call _ _ => before

def insertion : Section → Option UInt16
  | .storeAssign id _ => some id
  | _ => none

def isCheck : StoreThread → Section → Bool
  | .getter id _, .storeFind other => other = id
  | .lister _, .storeKeys => true
  | _, _ => false

def isCopy : StoreThread → Section → Bool
  | .getter id _, .storeIndex other => other = id
  | _, _ => false

def Observed.step (s : Observed) (event : StoreThread × Env) : Observed :=
  let op := (s.threads.current event.1).head
  let threads := s.threads.step bridge StoreThread.body event
  { threads
    completed := completedPuts (threads.current .writer) s.completed
    inserted := s.inserted ++ (op.bind insertion).toList
    checked :=
      if op.any (isCheck event.1) then Function.update s.checked event.1 (some s.inserted)
      else s.checked
    copied :=
      if op.any (isCopy event.1) then Function.update s.copied event.1 (some s.completed)
      else s.copied }

def Observed.initial (typeRegister : TypeRegister) (hash : StringMap)
    (calls : List PutCall) : Observed where
  threads :=
    { shared := .start typeRegister hash
      current := fun thread =>
        match thread with
        | .writer => .ret ⟨[], calls⟩
        | .getter _ _ => .ret none
        | .lister _ => .ret none }
  completed := []
  inserted := []
  checked := fun _ => none
  copied := fun _ => none

namespace Observed

variable (s : Observed) (event : StoreThread × Env)

theorem checked_step :
    (s.step event).checked event.1 =
      if (s.threads.current event.1).head.any (isCheck event.1) then some s.inserted
      else s.checked event.1 := by
  simp only [Observed.step]
  split
  · exact Function.update_self ..
  · rfl

theorem copied_step :
    (s.step event).copied event.1 =
      if (s.threads.current event.1).head.any (isCopy event.1) then some s.completed
      else s.copied event.1 := by
  simp only [Observed.step]
  split
  · exact Function.update_self ..
  · rfl

variable {s} {thread : StoreThread}

theorem shared_step_ret {value : event.1.Local}
    (h : s.threads.current event.1 = .ret value) :
    (s.step event).threads.shared = s.threads.shared :=
  Pool.shared_step_ret event h

theorem shared_step_call {op : Section} {next : op.Res → Code event.1.Local}
    (h : s.threads.current event.1 = .call op next) :
    (s.step event).threads.shared = (bridge op event.2 s.threads.shared).2 :=
  Pool.shared_step_call event h

theorem current_step_ret {value : event.1.Local}
    (h : s.threads.current event.1 = .ret value) :
    (s.step event).threads.current event.1 = StoreThread.body event.1 value :=
  Pool.current_step_ret event h

theorem current_step_call {op : Section} {next : op.Res → Code event.1.Local}
    (h : s.threads.current event.1 = .call op next) :
    (s.step event).threads.current event.1 =
      next (bridge op event.2 s.threads.shared).1 :=
  Pool.current_step_call event h

variable {event}

theorem current_step_of_ne (h : event.1 ≠ thread) :
    (s.step event).threads.current thread = s.threads.current thread :=
  Pool.current_step_of_ne h

theorem checked_step_of_ne (h : event.1 ≠ thread) :
    (s.step event).checked thread = s.checked thread := by
  simp only [Observed.step]
  split
  · exact Function.update_of_ne h.symm ..
  · rfl

theorem copied_step_of_ne (h : event.1 ≠ thread) :
    (s.step event).copied thread = s.copied thread := by
  simp only [Observed.step]
  split
  · exact Function.update_of_ne h.symm ..
  · rfl

end Observed

/-! ## The specification -/

/--
The answer of `get`, given the identifiers that were inserted before its check
and the puts that were completed before its copy: a copy is made if the check finds
the identifier.
-/
structure GetAnswer (id : UInt16) (checked : List UInt16) (copied : Option (List CanMessage))
    (answer : CanMessage) : Prop where
  valid_iff : answer.valid = true ↔ id ∈ checked
  record : answer.valid = true → ∃ puts ∈ copied, ∃ msg,
    BlockStart (putsTo puts id) msg ∧ answer = { msg with valid := true }
  payload : answer.valid = true → ∃ puts ∈ copied,
    ∃ last ∈ (putsTo puts id).getLast?, SameData answer last
  constructed : answer ≠ { CanMessage.zero with valid := true }

/-- The answer of `get_id_list`, given the identifiers that were inserted before it. -/
structure ListAnswer (checked : List UInt16) (answer : List Int) : Prop where
  ascending : answer.Pairwise (· < ·)
  mem_iff : ∀ n, n ∈ answer ↔ ∃ id ∈ checked, (id.toNat : Int) = n

/-- Inserted is what the completed puts put, and every answer comes from a check that was made. -/
structure StoreSpec (calls : List PutCall) (s : Observed) : Prop where
  completed : s.completed <+: calls.map PutCall.result
  inserted : ∀ id, id ∈ s.inserted ↔ ∃ msg ∈ s.completed, key msg.frame.id = id
  get : ∀ id number answer, s.threads.current (.getter id number) = .ret (some answer) →
    ∃ checked ∈ s.checked (.getter id number),
      GetAnswer id checked (s.copied (.getter id number)) answer
  getIdList : ∀ number answer, s.threads.current (.lister number) = .ret (some answer) →
    ∃ checked ∈ s.checked (.lister number), ListAnswer checked answer

/-! ## The thread that puts -/

/-- No other thread changes the store, and it reflects the puts until the last section. -/
def storing (completed : List CanMessage) : Contract Sections Bridge where
  rely _ before after := after = before
  may _ _ := True
  guarantee op state := Reflects state.mp completed ∧ ∀ id, op = .storeIndex id → id ∈ state.mp

theorem mem_mp_step {op : Section} {state : Bridge}
    (hindex : ∀ id, op = .storeIndex id → id ∈ state.mp) (env : Env) (id : UInt16) :
    id ∈ (bridge op env state).2.mp ↔ id ∈ state.mp ∨ insertion op = some id := by
  cases op with
  | storeAssign other msg =>
      change id ∈ state.mp.insert other msg ↔ _
      simp [insertion, Std.ExtTreeMap.mem_insert, or_comm]
  | storeIndex other =>
      have hmem := hindex other rfl
      change id ∈ (mapIndex state.mp other .zero).2 ↔ _
      rw [mapIndex_of_some (Std.ExtTreeMap.getElem?_eq_some_getElem hmem)]
      simp [insertion]
  | queuePop =>
      have hpop : (bridge .queuePop env state).2.mp = state.mp := state.mp_queuePop
      rw [hpop]
      simp [insertion]
  | _ => simp only [insertion, reduceCtorEq, or_false]; exact Iff.rfl

theorem ensures_digest {completed : List CanMessage} (data : Bytes) {state : Bridge}
    (h : Reflects state.mp completed) :
    (digest .gotCanMessages data).Ensures bridge (storing completed)
      (fun hash later => hash = sha256 data ∧ Reflects later.mp completed) state := by
  rintro later rfl
  refine ⟨⟨h, by simp⟩, fun _ _ => ?_⟩
  rintro later rfl
  refine ⟨⟨h, by simp⟩, fun _ _ => ?_⟩
  rintro later rfl
  refine ⟨⟨h, by simp⟩, fun _ _ => ?_⟩
  rintro later rfl
  refine ⟨?_, h⟩
  simp [bridge, sha256]

theorem ensures_storeAssign {completed : List CanMessage} (msg : CanMessage) {state : Bridge}
    (h : Reflects state.mp completed) :
    (CanHashtable.storeAssign (key msg.frame.id) msg).Ensures bridge (storing completed)
      (fun _ later => later.mp = state.mp.insert (key msg.frame.id) msg) state := by
  rintro later rfl
  refine ⟨⟨h, by simp⟩, fun _ _ => ?_⟩
  rintro later rfl
  rfl

theorem ensures_writeNew {completed : List CanMessage} (msg : CanMessage) {state : Bridge}
    (h : Reflects state.mp completed) :
    (CanHashtable.writeNew msg).Ensures bridge (storing completed)
      (fun _ later => later.mp = CanHashtable.putMap state.mp msg) state := by
  rintro state rfl
  refine ⟨⟨h, by simp⟩, fun _ env => ?_⟩
  rw [CanHashtable.putMap]
  cases hold : state.mp[key msg.frame.id]? with
  | none =>
      have hcontains : state.mp.contains (key msg.frame.id) = false := by
        rw [Std.ExtTreeMap.contains_eq_isSome_getElem?, hold]
        rfl
      have hnew : ¬ CanHashtable.HasHash state.mp (key msg.frame.id) msg.hash := by
        simp [CanHashtable.HasHash, hold]
      rw [if_neg hnew]
      simp only [bridge, hcontains]
      exact ensures_storeAssign msg h
  | some old =>
      have hmem : key msg.frame.id ∈ state.mp :=
        Std.ExtTreeMap.mem_iff_isSome_getElem?.mpr (by rw [hold]; rfl)
      have hhas : CanHashtable.HasHash state.mp (key msg.frame.id) msg.hash ↔
          old.hash = msg.hash := by
        simp [CanHashtable.HasHash, hold]
      have hcontains : state.mp.contains (key msg.frame.id) = true := hmem
      have hindex := mapIndex_of_some hold CanMessage.zero
      simp only [bridge, hcontains]
      rintro state rfl
      refine ⟨⟨h, by rintro id ⟨⟩; exact hmem⟩, fun _ env => ?_⟩
      simp only [bridge, hindex]
      change (if old.hash ≠ msg.hash then CanHashtable.storeAssign (key msg.frame.id) msg
        else pure ()).Ensures _ _ _ state
      by_cases heq : old.hash = msg.hash
      · rw [if_pos (hhas.mpr heq), if_neg (not_not_intro heq)]
        rintro state rfl
        rfl
      · rw [if_neg (fun hsame => heq (hhas.mp hsame)), if_pos heq]
        exact ensures_storeAssign msg h

def Progress (calls : List PutCall) (writer : Writer) : Prop :=
  writer.completed ++ writer.coming.map PutCall.result = calls.map PutCall.result

theorem Progress.initialSegment {calls : List PutCall} {writer : Writer}
    (h : Progress calls writer) : writer.completed <+: calls.map PutCall.result :=
  ⟨_, h⟩

theorem hash_eq_iff {calls : List PutCall} (hcalls : DistinctDigests calls) {old msg : CanMessage}
    (hold : old ∈ calls.map PutCall.result) (hmsg : msg ∈ calls.map PutCall.result) :
    old.hash = msg.hash ↔ SameData old msg := by
  obtain ⟨first, hfirst, rfl⟩ := List.mem_map.mp hold
  obtain ⟨second, hsecond, rfl⟩ := List.mem_map.mp hmsg
  rw [sameData_iff]
  exact ⟨hcalls first hfirst second hsecond, congrArg sha256⟩

theorem ensures_put {completed : List CanMessage} {call : PutCall}
    (hhash : ∀ old ∈ completed, old.hash = call.result.hash ↔ SameData old call.result)
    {state : Bridge} (h : Reflects state.mp completed) :
    (CanHashtable.put call.frame call.timestamp call.syncTick call.rs).Ensures bridge
      (storing completed)
      (fun msg later => msg = call.result ∧ Reflects later.mp (completed ++ [msg])) state := by
  refine Prog.Ensures.bind (fun _ => rfl) (ensures_digest call.frame.payload h) ?_
  rintro hash state ⟨rfl, h⟩
  refine Prog.Ensures.bind (fun _ => rfl) (ensures_writeNew call.result h) ?_
  rintro - later hmp later rfl
  refine ⟨rfl, ?_⟩
  rw [hmp]
  exact h.put hhash

theorem ensures_putting {calls : List PutCall} (hcalls : DistinctDigests calls) {writer : Writer}
    (hprogress : Progress calls writer) {state : Bridge}
    (h : Reflects state.mp writer.completed) :
    (putting writer).Ensures bridge (storing writer.completed)
      (fun after later => Progress calls after ∧ Reflects later.mp after.completed) state := by
  obtain ⟨completed, coming⟩ := writer
  cases coming with
  | nil =>
      rintro state rfl
      exact ⟨hprogress, h⟩
  | cons call coming =>
      have hmem : call.result ∈ calls.map PutCall.result := by
        rw [← hprogress]
        simp
      have hhash : ∀ old ∈ completed, old.hash = call.result.hash ↔
          SameData old call.result := fun old hold =>
        hash_eq_iff hcalls (hprogress.initialSegment.subset hold) hmem
      refine (ensures_put hhash h).bind (fun _ => rfl) ?_
      rintro msg state ⟨rfl, h⟩ later rfl
      refine ⟨?_, h⟩
      unfold Progress at hprogress ⊢
      rw [← hprogress]
      simp

/-! ## The threads that read -/

def copying (id : UInt16) : Code (Option CanMessage) := do
  let tmp ← CanHashtable.storeIndex id
  return some { tmp with valid := true }

def GetPhase (id : UInt16) (checked : Option (List UInt16)) (copied : Option (List CanMessage))
    (program : Code (Option CanMessage)) : Prop :=
  program = .ret none ∨ program = getting id ∨
    (program = copying id ∧ ∃ ids ∈ checked, id ∈ ids) ∨
    ∃ answer, program = .ret (some answer) ∧ ∃ ids ∈ checked, GetAnswer id ids copied answer

def ListPhase (checked : Option (List UInt16)) (program : Code (Option (List Int))) : Prop :=
  program = .ret none ∨ program = listing ∨
    ∃ answer, program = .ret (some answer) ∧ ∃ ids ∈ checked, ListAnswer ids answer

theorem getAnswer_missed {id : UInt16} {checked : List UInt16} (h : id ∉ checked)
    (copied : Option (List CanMessage)) :
    GetAnswer id checked copied { CanMessage.zero with valid := false } where
  valid_iff := iff_of_false Bool.false_ne_true h
  record := nofun
  payload := nofun
  constructed h := by cases congrArg CanMessage.valid h

theorem getAnswer_found {calls : List PutCall} {id : UInt16} {checked : List UInt16}
    {puts : List CanMessage} (hputs : puts <+: calls.map PutCall.result)
    (h : id ∈ checked) {msg : CanMessage} (hmsg : BlockStart (putsTo puts id) msg) :
    GetAnswer id checked (some puts) { msg with valid := true } where
  valid_iff := iff_of_true rfl h
  record _ := ⟨puts, rfl, msg, hmsg, rfl⟩
  payload _ := ⟨puts, rfl, hmsg.sameData_last⟩
  constructed heq := by
    have hmem := hputs.subset (mem_putsTo.mp hmsg.mem).1
    obtain ⟨call, -, rfl⟩ := List.mem_map.mp hmem
    exact sha256_ne_nil _ (congrArg CanMessage.hash heq)

theorem listAnswer_keys {mp : MessageMap} {inserted : List UInt16}
    (h : ∀ id, id ∈ mp ↔ id ∈ inserted) :
    ListAnswer inserted (mp.keys.map fun id => (id.toNat : Int)) where
  ascending := by
    rw [List.pairwise_map]
    refine mp.ordered_keys.imp fun {first second} hlt => ?_
    have hlt := UInt16.lt_iff_toNat_lt.mp (Std.compare_eq_lt.mp hlt)
    omega
  mem_iff n := by
    simp only [List.mem_map, Std.ExtTreeMap.mem_keys, h]

structure GetterStep (s after : Observed) (id : UInt16) (number : Nat) : Prop where
  shared : after.threads.shared = s.threads.shared
  phase : GetPhase id (after.checked (.getter id number)) (after.copied (.getter id number))
    (after.threads.current (.getter id number))

/-! ## The invariant -/

structure StoreInv (calls : List PutCall) (s : Observed) : Prop where
  writer : (s.threads.current .writer).Ensures bridge (storing s.completed)
    (fun after later => Progress calls after ∧ Reflects later.mp after.completed)
    s.threads.shared
  settled : ∀ {after}, s.threads.current .writer = .ret after → after.completed = s.completed
  completed : s.completed <+: calls.map PutCall.result
  inserted : ∀ id, id ∈ s.threads.shared.mp ↔ id ∈ s.inserted
  checked : ∀ thread, ∀ ids ∈ s.checked thread, ids ⊆ s.inserted
  getter : ∀ id number, GetPhase id (s.checked (.getter id number))
    (s.copied (.getter id number)) (s.threads.current (.getter id number))
  lister : ∀ number, ListPhase (s.checked (.lister number)) (s.threads.current (.lister number))

theorem storeInv_initial (calls : List PutCall) (typeRegister : TypeRegister)
    (hash : StringMap) : StoreInv calls (.initial typeRegister hash calls) where
  writer := by
    rintro state rfl
    exact ⟨rfl, reflects_empty⟩
  settled := by
    rintro after ⟨⟩
    rfl
  completed := List.nil_prefix
  inserted id := by simp [Observed.initial]
  checked _ ids hids := by cases hids
  getter _ _ := .inl rfl
  lister _ := .inl rfl

namespace StoreInv

open Observed

variable {calls : List PutCall} {s : Observed}

theorem reflects (h : StoreInv calls s) : Reflects s.threads.shared.mp s.completed := by
  have hwriter := h.writer
  cases hcurrent : s.threads.current .writer with
  | ret after =>
      rw [hcurrent] at hwriter
      rw [← h.settled hcurrent]
      exact (hwriter _ rfl).2
  | call op next =>
      rw [hcurrent] at hwriter
      exact (hwriter _ rfl).1.1

theorem mem_of_index (h : StoreInv calls s) (thread : StoreThread) {id : UInt16}
    (hhead : (s.threads.current thread).head = some (.storeIndex id)) :
    id ∈ s.threads.shared.mp := by
  cases thread with
  | writer =>
      have hwriter := h.writer
      cases hcurrent : s.threads.current .writer with
      | ret after => rw [hcurrent] at hhead; cases hhead
      | call op next =>
          rw [hcurrent] at hhead hwriter
          cases hhead
          exact (hwriter _ rfl).1.2 id rfl
  | getter other number =>
      obtain hphase | hphase | ⟨hphase, ids, hids, hmem⟩ | ⟨answer, hphase, -⟩ :=
        h.getter other number
      all_goals rw [hphase] at hhead; cases hhead
      exact (h.inserted id).mpr (h.checked _ ids hids hmem)
  | lister number =>
      obtain hphase | hphase | ⟨answer, hphase, -⟩ := h.lister number
      all_goals rw [hphase] at hhead; cases hhead

theorem getter_check_step (h : StoreInv calls s) {id : UInt16} {number : Nat}
    (hphase : s.threads.current (.getter id number) = getting id) (env : Env) :
    GetterStep s (s.step (.getter id number, env)) id number := by
  let event : StoreThread × Env := (.getter id number, env)
  refine ⟨shared_step_call event hphase, ?_⟩
  have hcurrent : (s.step event).threads.current (.getter id number) = _ :=
    current_step_call event hphase
  have hnow : (s.step event).checked (.getter id number) = some s.inserted := by
    refine (checked_step s event).trans ?_
    rw [hphase]
    exact if_pos (decide_eq_true rfl)
  rw [hnow]
  cases hcontains : s.threads.shared.mp.contains id with
  | true =>
      refine .inr (.inr (.inl ⟨?_, _, rfl, (h.inserted id).mp hcontains⟩))
      refine hcurrent.trans ?_
      simp only [bridge, hcontains]
      rfl
  | false =>
      have hmissing : id ∉ s.inserted := by
        rw [← h.inserted, Std.ExtTreeMap.mem_iff_contains, hcontains]
        exact Bool.false_ne_true
      refine .inr (.inr (.inr ⟨_, ?_, _, rfl, getAnswer_missed hmissing _⟩))
      refine hcurrent.trans ?_
      simp only [bridge, hcontains]
      rfl

theorem getter_copy_step (h : StoreInv calls s) {id : UInt16} {number : Nat}
    (hphase : s.threads.current (.getter id number) = copying id) {ids : List UInt16}
    (hids : ids ∈ s.checked (.getter id number)) (hmem : id ∈ ids) (env : Env) :
    GetterStep s (s.step (.getter id number, env)) id number := by
  let event : StoreThread × Env := (.getter id number, env)
  have hstore : id ∈ s.threads.shared.mp := (h.inserted id).mpr (h.checked _ ids hids hmem)
  have hrecord := Std.ExtTreeMap.getElem?_eq_some_getElem hstore
  have hindex := mapIndex_of_some hrecord CanMessage.zero
  have hcurrent : (s.step event).threads.current (.getter id number) = _ :=
    current_step_call event hphase
  have hsame : (s.step event).checked (.getter id number) = s.checked (.getter id number) := by
    refine (checked_step s event).trans ?_
    rw [hphase]
    rfl
  have hnow : (s.step event).copied (.getter id number) = some s.completed := by
    refine (copied_step s event).trans ?_
    rw [hphase]
    exact if_pos (decide_eq_true rfl)
  refine ⟨?_, ?_⟩
  · refine (shared_step_call event hphase).trans ?_
    simp only [bridge, hindex]
  · rw [hsame, hnow]
    have hanswer := getAnswer_found h.completed hmem (h.reflects.record hrecord)
    refine .inr (.inr (.inr ⟨_, ?_, ids, hids, hanswer⟩))
    refine hcurrent.trans ?_
    simp only [bridge, hindex]
    rfl

theorem getter_step (h : StoreInv calls s) (id : UInt16) (number : Nat) (env : Env) :
    GetterStep s (s.step (.getter id number, env)) id number := by
  let event : StoreThread × Env := (.getter id number, env)
  obtain hphase | hphase | ⟨hphase, ids, hids, hmem⟩ | ⟨answer, hphase, hanswer⟩ :=
    h.getter id number
  · exact ⟨shared_step_ret event hphase, .inr (.inl (current_step_ret event hphase))⟩
  · exact h.getter_check_step hphase env
  · exact h.getter_copy_step hphase hids hmem env
  · have hsame : (s.step event).checked (.getter id number) = s.checked (.getter id number) := by
      refine (checked_step s event).trans ?_
      rw [hphase]
      rfl
    have hsame' : (s.step event).copied (.getter id number) = s.copied (.getter id number) := by
      refine (copied_step s event).trans ?_
      rw [hphase]
      rfl
    refine ⟨shared_step_ret event hphase, ?_⟩
    rw [hsame, hsame']
    exact .inr (.inr (.inr ⟨answer, current_step_ret event hphase, hanswer⟩))

theorem lister_step (h : StoreInv calls s) (number : Nat) (env : Env) :
    (s.step (.lister number, env)).threads.shared = s.threads.shared ∧
      ListPhase ((s.step (.lister number, env)).checked (.lister number))
        ((s.step (.lister number, env)).threads.current (.lister number)) := by
  let event : StoreThread × Env := (.lister number, env)
  have hchecked : (s.step event).checked (.lister number) = _ := checked_step s event
  obtain hphase | hphase | ⟨answer, hphase, hanswer⟩ := h.lister number
  · exact ⟨shared_step_ret event hphase, .inr (.inl (current_step_ret event hphase))⟩
  · refine ⟨shared_step_call event hphase, .inr (.inr ⟨_, current_step_call event hphase, ?_⟩)⟩
    rw [hchecked, hphase]
    exact ⟨s.inserted, rfl, listAnswer_keys h.inserted⟩
  · have hsame : (s.step event).checked (.lister number) = s.checked (.lister number) := by
      rw [hchecked, hphase]
      rfl
    rw [hsame]
    exact ⟨shared_step_ret event hphase,
      .inr (.inr ⟨answer, current_step_ret event hphase, hanswer⟩)⟩

theorem shared_step (h : StoreInv calls s) {event : StoreThread × Env}
    (hthread : event.1 ≠ .writer) :
    (s.step event).threads.shared = s.threads.shared := by
  obtain ⟨thread, env⟩ := event
  cases thread with
  | writer => exact absurd rfl hthread
  | getter id number => exact (h.getter_step id number env).shared
  | lister number => exact (h.lister_step number env).1

/-- What the thread that puts ensures, judged by the puts completed before the step. -/
theorem writer_ensures (hcalls : DistinctDigests calls) (h : StoreInv calls s) (env : Env) :
    ((s.step (.writer, env)).threads.current .writer).Ensures bridge (storing s.completed)
      (fun after later => Progress calls after ∧ Reflects later.mp after.completed)
      (s.step (.writer, env)).threads.shared := by
  let event : StoreThread × Env := (.writer, env)
  have hwriter := h.writer
  cases hcurrent : s.threads.current .writer with
  | ret after =>
      rw [hcurrent] at hwriter
      obtain ⟨hprogress, hreflects⟩ := hwriter _ rfl
      have hbody : (s.step event).threads.current .writer = putting after :=
        current_step_ret event hcurrent
      have hshared : (s.step event).threads.shared = s.threads.shared :=
        shared_step_ret event hcurrent
      rw [hbody, hshared, ← h.settled hcurrent]
      exact ensures_putting hcalls hprogress hreflects
  | call op next =>
      rw [hcurrent] at hwriter
      have hnext : (s.step event).threads.current .writer = _ := current_step_call event hcurrent
      have hshared : (s.step event).threads.shared = _ := shared_step_call event hcurrent
      rw [hnext, hshared]
      exact (hwriter _ rfl).2 trivial env

theorem ensures_completedPuts {program : Code Writer} {completed : List CanMessage}
    {Post : Writer → Bridge → Prop} {state : Bridge}
    (h : program.Ensures bridge (storing completed) Post state) :
    program.Ensures bridge (storing (completedPuts program completed)) Post state := by
  cases program with
  | ret after => exact h
  | call op next => exact h

theorem completed_step_of_ne (h : StoreInv calls s) {event : StoreThread × Env}
    (hthread : event.1 ≠ .writer) : (s.step event).completed = s.completed := by
  change completedPuts ((s.step event).threads.current .writer) s.completed = _
  rw [current_step_of_ne hthread]
  cases hcurrent : s.threads.current .writer with
  | ret after => exact h.settled hcurrent
  | call op next => rfl

theorem inserted_step (h : StoreInv calls s) (event : StoreThread × Env) (id : UInt16) :
    id ∈ (s.step event).threads.shared.mp ↔ id ∈ (s.step event).inserted := by
  change _ ↔ id ∈ s.inserted ++ ((s.threads.current event.1).head.bind insertion).toList
  cases hcurrent : s.threads.current event.1 with
  | ret value =>
      rw [shared_step_ret event hcurrent, h.inserted]
      simp [Prog.head]
  | call op next =>
      have hindex : ∀ id, op = .storeIndex id → id ∈ s.threads.shared.mp := by
        rintro id rfl
        exact h.mem_of_index event.1 (by rw [hcurrent]; rfl)
      rw [shared_step_call event hcurrent, mem_mp_step hindex, h.inserted]
      simp [Prog.head]

theorem checked_subset_step (h : StoreInv calls s) (event : StoreThread × Env)
    (thread : StoreThread) :
    ∀ ids ∈ (s.step event).checked thread, ids ⊆ (s.step event).inserted := by
  intro ids hids
  have hgrows : s.inserted ⊆ (s.step event).inserted := List.subset_append_left ..
  by_cases hthread : event.1 = thread
  · rw [← hthread, checked_step] at hids
    split at hids
    · cases hids
      exact hgrows
    · exact List.Subset.trans (h.checked event.1 ids hids) hgrows
  · rw [checked_step_of_ne hthread] at hids
    exact List.Subset.trans (h.checked thread ids hids) hgrows

theorem step (hcalls : DistinctDigests calls) (h : StoreInv calls s) (event : StoreThread × Env) :
    StoreInv calls (s.step event) := by
  have hwriter : ((s.step event).threads.current .writer).Ensures bridge
      (storing (s.step event).completed)
      (fun after later => Progress calls after ∧ Reflects later.mp after.completed)
      (s.step event).threads.shared := by
    obtain ⟨thread, env⟩ := event
    by_cases hthread : thread = .writer
    · subst hthread
      exact ensures_completedPuts (h.writer_ensures hcalls env)
    · rw [current_step_of_ne hthread, h.completed_step_of_ne hthread, h.shared_step hthread]
      exact h.writer
  have hsettled : ∀ {after}, (s.step event).threads.current .writer = .ret after →
      after.completed = (s.step event).completed := fun {after} hafter => by
    change _ = completedPuts ((s.step event).threads.current .writer) s.completed
    rw [hafter]
    rfl
  refine ⟨hwriter, hsettled, ?_, h.inserted_step event, h.checked_subset_step event, ?_, ?_⟩
  · cases hcurrent : (s.step event).threads.current .writer with
    | ret after =>
        rw [hcurrent] at hwriter
        rw [← hsettled hcurrent]
        exact (hwriter _ rfl).1.initialSegment
    | call op next =>
        change completedPuts ((s.step event).threads.current .writer) s.completed <+: _
        rw [hcurrent]
        exact h.completed
  · intro id number
    by_cases hthread : event.1 = .getter id number
    · obtain ⟨thread, env⟩ := event
      subst hthread
      exact (h.getter_step id number env).phase
    · rw [checked_step_of_ne hthread, copied_step_of_ne hthread, current_step_of_ne hthread]
      exact h.getter id number
  · intro number
    by_cases hthread : event.1 = .lister number
    · obtain ⟨thread, env⟩ := event
      subst hthread
      exact (h.lister_step number env).2
    · rw [checked_step_of_ne hthread, current_step_of_ne hthread]
      exact h.lister number

theorem inserted_iff (h : StoreInv calls s) (id : UInt16) :
    id ∈ s.inserted ↔ ∃ msg ∈ s.completed, key msg.frame.id = id := by
  rw [← h.inserted]
  cases hrecord : s.threads.shared.mp[id]? with
  | none =>
      refine iff_of_false ?_ ?_
      · rw [Std.ExtTreeMap.mem_iff_isSome_getElem?, hrecord]
        exact Bool.false_ne_true
      · rintro ⟨msg, hmsg, hid⟩
        have hput : msg ∈ putsTo s.completed id := mem_putsTo.mpr ⟨hmsg, hid⟩
        rw [h.reflects.absent hrecord] at hput
        cases hput
  | some msg =>
      refine iff_of_true ?_ ⟨msg, mem_putsTo.mp (h.reflects.record hrecord).mem⟩
      rw [Std.ExtTreeMap.mem_iff_isSome_getElem?, hrecord]
      rfl

end StoreInv

theorem storeSpec_run (calls : List PutCall) (hcalls : DistinctDigests calls)
    (typeRegister : TypeRegister) (hash : StringMap) (schedule : List (StoreThread × Env)) :
    StoreSpec calls (runFrom Observed.step (.initial typeRegister hash calls) schedule) := by
  have h := runFrom_invariant (StoreInv calls) (fun s event hinv => hinv.step hcalls event) _
    schedule (storeInv_initial calls typeRegister hash)
  refine ⟨h.completed, h.inserted_iff, fun id number answer hanswer => ?_,
    fun number answer hanswer => ?_⟩
  · obtain hphase | hphase | ⟨hphase, -⟩ | ⟨_, hphase, hget⟩ := h.getter id number
    all_goals rw [hanswer] at hphase; cases hphase
    exact hget
  · obtain hphase | hphase | ⟨_, hphase, hlist⟩ := h.lister number
    all_goals rw [hanswer] at hphase; cases hphase
    exact hlist

def twoPayloads : List PutCall :=
  [⟨⟨200, 0, 0, .replicate 64 0, zero_len_le⟩, 1, 1, .got⟩,
    ⟨⟨200, 1, 0, .replicate 64 0, one_len_le⟩, 2, 2, .got⟩,
    ⟨⟨200, 0, 0, .replicate 64 0, zero_len_le⟩, 3, 3, .send⟩]

/-- The first put, a check, the other puts, the copy and a list. -/
def getDuringPut : List (StoreThread × Env) :=
  let turns : List (StoreThread × Nat) :=
    [(.writer, 6), (.getter 200 0, 2), (.writer, 13), (.getter 200 0, 1), (.lister 0, 2)]
  turns.flatMap fun turn => List.replicate turn.2 (turn.1, {})

theorem storeSpec_getDuringPut :
    DistinctDigests twoPayloads ∧
      StoreSpec twoPayloads
        (runFrom Observed.step (.initial ∅ ∅ twoPayloads) getDuringPut) := by
  have h : DistinctDigests twoPayloads := by decide +kernel
  exact ⟨h, storeSpec_run twoPayloads h ∅ ∅ getDuringPut⟩

end Can2Rest.Properties
