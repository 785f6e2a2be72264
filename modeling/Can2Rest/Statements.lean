import Can2Rest.Foundation.Locking
import Can2Rest.Serving

/-!
# The statements between `lock` and `unlock`

The sections of the bridge statement by statement.  Every access to the registry, the
store, the send queue and the pending map is made under the mutex of its class, but
for one: `put` reads the digest of the record it may replace without locking.

`operator[]` of a map finds or inserts an entry before it is read or written, the
iterators of `get_id_list` go from key to key, and `front` and `pop`, like copying and
clearing the pending map, are two statements.
-/

namespace Can2Rest

open Foundation Shared

/-- The `std::mutex` members, by class. -/
inductive Mutex where
  | frameToJsonLock
  | mutexGetList
  | frameSendQueueLock
  | writeLock
  deriving DecidableEq

inductive Statement where
  | typeFind (id : UInt16)
  | typeRef (id : UInt16)
  | typeRead (id : UInt16)
  | typeWrite (id : UInt16) (type : ConversationType)
  | storeFind (id : UInt16)
  | storeRef (id : UInt16)
  | storeRead (id : UInt16)
  | storeWrite (id : UInt16) (msg : CanMessage)
  | storeNext (after : Option UInt16)
  | queueSize
  | queuePush (msg : CanMessage)
  | queueFront
  | queuePop
  | mapInsert (fieldPrefix : Bytes) (id : UInt32) (json : Bytes)
  | mapCopy
  | mapClear
  | single (op : Section)

abbrev Statement.Res : Statement → Type
  | .typeFind _ => Bool
  | .typeRef _ => Unit
  | .typeRead _ => ConversationType
  | .typeWrite _ _ => Unit
  | .storeFind _ => Bool
  | .storeRef _ => Unit
  | .storeRead _ => CanMessage
  | .storeWrite _ _ => Unit
  | .storeNext _ => Option UInt16
  | .queueSize => Int
  | .queuePush _ => Unit
  | .queueFront => Option CanMessage
  | .queuePop => Unit
  | .mapInsert _ _ _ => Unit
  | .mapCopy => List (Bytes × Bytes)
  | .mapClear => Unit
  | .single op => op.Res

abbrev Statements : Interface where
  Op := Statement
  Res := Statement.Res

/-- Behind the element that an iterator stands at; before the first one it is `none`. -/
def beyond (after : Option UInt16) (id : UInt16) : Bool := after.all (· < id)

def statements : Machine Statements Bridge Env
  | .typeFind id, _, s => (s.typeRegister.contains id, s)
  | .typeRef id, _, s => ((), { s with typeRegister := (mapIndex s.typeRegister id .none).2 })
  | .typeRead id, _, s => (s.typeRegister[id]?.getD .none, s)
  | .typeWrite id type, _, s => ((), { s with typeRegister := s.typeRegister.insert id type })
  | .storeFind id, _, s => (s.mp.contains id, s)
  | .storeRef id, _, s => ((), { s with mp := (mapIndex s.mp id .zero).2 })
  | .storeRead id, _, s => (s.mp[id]?.getD .zero, s)
  | .storeWrite id msg, _, s => ((), { s with mp := s.mp.insert id msg })
  | .storeNext after, _, s => (s.mp.keys.find? (beyond after), s)
  | .queueSize, _, s => (asInt s.messageQueue.length, s)
  | .queuePush msg, _, s => ((), s.queuePush msg)
  | .queueFront, _, s => (s.messageQueue.head?, s)
  | .queuePop, _, s => ((), s.queuePop.2)
  | .mapInsert fieldPrefix id json, _, s => ((), s.mapInsert fieldPrefix id json)
  | .mapCopy, env, s => ((env.order s.writeMap.toList).1, s)
  | .mapClear, _, s => ((), { s with writeMap := ∅ })
  | .single op, env, s => bridge op env s

namespace Statement

def perform (statement : Statement) : Prog Statements statement.Res :=
  Prog.perform (I := Statements) statement

end Statement

/-- The loop of `get_id_list`; there are at most `2 ^ 16` keys. -/
def keysFrom : Nat → Option UInt16 → List UInt16 → Prog Statements (List UInt16)
  | 0, _, keys => return keys
  | fuel + 1, after, keys => do
      match ← Statement.perform (.storeNext after) with
      | none => return keys
      | some id => keysFrom fuel (some id) (keys ++ [id])

/-- The statements of a section. -/
def Section.code : (op : Section) → Prog Statements op.Res
  | .typeFind id => Statement.perform (.typeFind id)
  | .typeIndex id => do
      Statement.perform (.typeRef id)
      Statement.perform (.typeRead id)
  | .typeAssign id type => do
      Statement.perform (.typeRef id)
      Statement.perform (.typeWrite id type)
  | .storeFind id => Statement.perform (.storeFind id)
  | .storeIndex id => do
      Statement.perform (.storeRef id)
      Statement.perform (.storeRead id)
  | .storeAssign id msg => do
      Statement.perform (.storeRef id)
      Statement.perform (.storeWrite id msg)
  | .storeKeys => keysFrom (2 ^ 16 + 1) none []
  | .queueSize => Statement.perform .queueSize
  | .queuePush msg => Statement.perform (.queuePush msg)
  | .queuePop => do
      let front ← Statement.perform .queueFront
      Statement.perform .queuePop
      return front
  | .mapInsert fieldPrefix id json => Statement.perform (.mapInsert fieldPrefix id json)
  | .mapTake => do
      let copy ← Statement.perform .mapCopy
      Statement.perform .mapClear
      return copy
  | op => Statement.perform (.single op)

namespace Statements

def access (thread : Thread) : Section → Access Mutex
  | .typeFind _ | .typeIndex _ | .typeAssign _ _ => .locked .frameToJsonLock
  | .storeIndex _ => if thread = .main then .bare .mutexGetList else .locked .mutexGetList
  | .storeFind _ | .storeAssign _ _ | .storeKeys => .locked .mutexGetList
  | .queueSize | .queuePush _ | .queuePop => .locked .frameSendQueueLock
  | .mapInsert _ _ _ | .mapTake => .locked .writeLock
  | _ => .own

abbrev Part : Option Mutex → Type
  | some .frameToJsonLock => TypeRegister
  | some .mutexGetList => MessageMap
  | some .frameSendQueueLock => List CanMessage × List CanMessage × List CanMessage
  | some .writeLock => StringMap × List (UInt32 × Bytes) × StringMap
  | none => (ShaOwner → SHA256) × RedisServer × List CanfdFrame × List CanfdFrame

/-- What a mutex guards, with the part of the history that is written with it. -/
def part : (region : Option Mutex) → Bridge → Part region
  | some .frameToJsonLock, s => s.typeRegister
  | some .mutexGetList, s => s.mp
  | some .frameSendQueueLock, s => (s.messageQueue, s.history.enqueued, s.history.dequeued)
  | some .writeLock, s => (s.writeMap, s.history.stored, s.history.entered)
  | none, s => (s.sha256, s.redisServer, s.history.received, s.history.transmitted)

/-- A statement that changes nothing, whatever else is going on in the program. -/
def Reads : Statement → Bridge → Prop
  | .typeFind _, _ | .typeRead _, _ | .storeFind _, _ | .storeRead _, _ | .storeNext _, _ => True
  | .queueSize, _ | .queueFront, _ | .mapCopy, _ => True
  | .typeRef id, s => id ∈ s.typeRegister
  | .storeRef id, s => id ∈ s.mp
  | _, _ => False

def locking : Locking Sections Statements Bridge Env Thread Mutex where
  access := access
  code := Section.code
  statement := statements
  reads := Reads
  Part := Part
  part := part

end Statements

/-! ## A section is its statements -/

theorem mapIndex_read {β : Type} (map : Std.ExtTreeMap UInt16 β) (id : UInt16) (default : β) :
    (mapIndex map id default).2[id]?.getD default = (mapIndex map id default).1 := by
  cases h : map[id]? with
  | none => simp [mapIndex, h]
  | some value => rw [mapIndex_of_some h, h, Option.getD_some]

theorem mapIndex_write {β : Type} (map : Std.ExtTreeMap UInt16 β) (id : UInt16)
    (default value : β) : (mapIndex map id default).2.insert id value = map.insert id value := by
  cases h : map[id]? with
  | some old => rw [mapIndex_of_some h]
  | none =>
      have hindex : (mapIndex map id default).2 = map.insert id default := by
        simp only [mapIndex, h]
      rw [hindex]
      refine Std.ExtTreeMap.ext_getElem? fun other => ?_
      rw [getElem?_insert, getElem?_insert, getElem?_insert]
      split <;> rfl

/-! ### The iteration over the keys -/

theorem length_keys_le (map : MessageMap) : map.keys.length ≤ 2 ^ 16 := by
  have hnodup : (map.keys.map UInt16.toNat).Nodup :=
    List.Pairwise.map UInt16.toNat (fun _ _ hne heq => hne (UInt16.toNat.inj heq)) map.nodup_keys
  have hsubset : map.keys.map UInt16.toNat ⊆ List.range (2 ^ 16) := by
    intro n hn
    obtain ⟨id, -, rfl⟩ := List.mem_map.mp hn
    exact List.mem_range.mpr id.toNat_lt
  have hlength := (List.subperm_of_subset hnodup hsubset).length_le
  rwa [List.length_map, List.length_range] at hlength

theorem beyond_trans {after : Option UInt16} {id later : UInt16} (h : beyond after id = true)
    (hlater : beyond (some id) later = true) : beyond after later = true := by
  cases after with
  | none => rfl
  | some first =>
      simp only [beyond, Option.all_some, decide_eq_true_eq] at *
      exact UInt16.lt_trans h hlater

theorem filter_beyond {keys : List UInt16} (h : keys.Pairwise (· < ·)) (after : Option UInt16) :
    keys.filter (beyond after) =
      match keys.find? (beyond after) with
      | none => []
      | some id => id :: keys.filter (beyond (some id)) := by
  induction keys with
  | nil => rfl
  | cons first keys ih =>
      obtain ⟨hfirst, hkeys⟩ := List.pairwise_cons.mp h
      by_cases hbeyond : beyond after first = true
      · have hself : beyond (some first) first = false := by simp [beyond]
        have hsame : keys.filter (beyond after) = keys.filter (beyond (some first)) := by
          refine List.filter_congr fun id hid => ?_
          have hlater : beyond (some first) id = true := by
            simpa [beyond] using hfirst id hid
          rw [hlater, beyond_trans hbeyond hlater]
        rw [List.filter_cons_of_pos hbeyond, List.find?_cons_of_pos hbeyond]
        simp only [List.filter_cons_of_neg (by rw [hself]; decide :
          ¬ beyond (some first) first = true), hsame]
      · have hskip (id : UInt16) (hid : id ∈ keys) (h : beyond after id = true) :
            beyond (some id) first = false := by
          have hlt := hfirst id hid
          simp only [beyond, Option.all_some, decide_eq_false_iff_not]
          exact UInt16.lt_asymm hlt
        rw [List.filter_cons_of_neg hbeyond, List.find?_cons_of_neg hbeyond, ih hkeys]
        cases hfind : keys.find? (beyond after) with
        | none => rfl
        | some id =>
            have hfirst' := hskip id (List.mem_of_find?_eq_some hfind)
              (List.find?_some hfind)
            simp only [List.filter_cons_of_neg (by rw [hfirst']; decide :
              ¬ beyond (some id) first = true)]

theorem run_keysFrom (env : Env) (s : Bridge) (fuel : Nat) (after : Option UInt16)
    (keys : List UInt16) (h : (s.mp.keys.filter (beyond after)).length < fuel) :
    (keysFrom fuel after keys).run statements env s =
      (keys ++ s.mp.keys.filter (beyond after), s) := by
  have hordered : s.mp.keys.Pairwise (· < ·) :=
    s.mp.ordered_keys.imp fun hlt => Std.compare_eq_lt.mp hlt
  induction fuel generalizing after keys with
  | zero => omega
  | succ fuel ih =>
      have hfilter := filter_beyond hordered after
      have hnext : (Statement.perform (.storeNext after)).run statements env s =
          (s.mp.keys.find? (beyond after), s) := rfl
      rw [keysFrom, Prog.run_bind, hnext]
      cases hfind : s.mp.keys.find? (beyond after) with
      | none =>
          rw [hfind] at hfilter
          rw [hfilter, List.append_nil]
          rfl
      | some id =>
          rw [hfind] at hfilter
          rw [hfilter, List.length_cons] at h
          rw [hfilter]
          change (keysFrom fuel (some id) (keys ++ [id])).run statements env s = _
          rw [ih (some id) (keys ++ [id]) (by omega), List.append_assoc]
          rfl

theorem run_code (op : Section) (env : Env) (s : Bridge) :
    op.code.run statements env s = bridge op env s := by
  cases op with
  | typeIndex id =>
      change ((mapIndex s.typeRegister id .none).2[id]?.getD .none, _) = _
      rw [mapIndex_read]
      rfl
  | typeAssign id type =>
      change ((), { s with
        typeRegister := (mapIndex s.typeRegister id .none).2.insert id type }) = _
      rw [mapIndex_write]
      rfl
  | storeIndex id =>
      change ((mapIndex s.mp id .zero).2[id]?.getD .zero, _) = _
      rw [mapIndex_read]
      rfl
  | storeAssign id msg =>
      change ((), { s with mp := (mapIndex s.mp id .zero).2.insert id msg }) = _
      rw [mapIndex_write]
      rfl
  | storeKeys =>
      have hall : s.mp.keys.filter (beyond none) = s.mp.keys :=
        List.filter_eq_self.mpr fun _ _ => rfl
      have hlength := length_keys_le s.mp
      rw [Section.code, run_keysFrom env s _ none [] (by rw [hall]; omega), hall]
      rfl
  | queueSize => rw [Section.code, Statement.perform, Prog.run_perform, statements, bridge]
  | queuePop =>
      change (s.messageQueue.head?, s.queuePop.2) = s.queuePop
      unfold Bridge.queuePop
      cases s.messageQueue <;> rfl
  | _ => rfl

/-! ## What a statement works on -/

/-- The mutex that guards what a statement works on. -/
def Statement.region : Statement → Option Mutex
  | .typeFind _ | .typeRef _ | .typeRead _ | .typeWrite _ _ => some .frameToJsonLock
  | .storeFind _ | .storeRef _ | .storeRead _ | .storeWrite _ _ | .storeNext _ =>
      some .mutexGetList
  | .queueSize | .queuePush _ | .queueFront | .queuePop => some .frameSendQueueLock
  | .mapInsert _ _ _ | .mapCopy | .mapClear => some .writeLock
  | .single _ => none

def Statement.Guarded (mutex : Mutex) (statement : Statement) : Prop :=
  statement.region = some mutex

namespace Statements

theorem part_queuePop {region : Option Mutex} (h : region ≠ some .frameSendQueueLock)
    (s : Bridge) : part region s.queuePop.2 = part region s := by
  unfold Bridge.queuePop
  split
  next => rfl
  next msg rest hqueue =>
      rcases region with _ | _ | _ | _ | _
      all_goals first | rfl | exact absurd rfl h

theorem localTo_queuePop (env : Env) :
    LocalTo part (some .frameSendQueueLock) (statements .queuePop env) := by
  refine ⟨fun {s s'} h => ⟨rfl, ?_⟩, fun s other hother => part_queuePop hother s⟩
  simp only [part, Prod.mk.injEq] at h
  obtain ⟨hqueue, henqueued, hdequeued⟩ := h
  change part _ s.queuePop.2 = part _ s'.queuePop.2
  unfold Bridge.queuePop
  rw [← hqueue]
  cases hcase : s.messageQueue with
  | nil => simp [part, ← hqueue, hcase, henqueued, hdequeued]
  | cons msg rest => simp [part, henqueued, hdequeued]

theorem localTo_mapCopy (env : Env) :
    LocalTo part (some .writeLock) (statements .mapCopy env) := by
  refine ⟨fun {s s'} h => ⟨?_, h⟩, fun _ _ _ => rfl⟩
  have hmap : s.writeMap = s'.writeMap := congrArg Prod.fst h
  change (env.order s.writeMap.toList).1 = (env.order s'.writeMap.toList).1
  rw [hmap]

theorem localTo_statement {statement : Statement} {mutex : Mutex}
    (hregion : statement.Guarded mutex) (env : Env) :
    LocalTo part (some mutex) (statements statement env) := by
  cases statement with
  | single op => cases hregion
  | queuePop =>
      cases hregion
      exact localTo_queuePop env
  | mapCopy =>
      cases hregion
      exact localTo_mapCopy env
  | _ =>
      cases hregion
      refine ⟨fun {s s'} h => ?_, fun s other hother => ?_⟩
      · simp only [part, Prod.mk.injEq] at h
        simp [statements, part, h]
      · rcases other with _ | _ | _ | _ | _
        all_goals first | rfl | exact absurd rfl hother

/-! ## The locking of the bridge is sound -/

theorem perform_uses {statement : Statement} {mutex : Mutex}
    (h : statement.Guarded mutex) : statement.perform.Uses (Statement.Guarded mutex) :=
  Prog.uses_perform.mpr h

theorem keysFrom_uses (fuel : Nat) (after : Option UInt16) (keys : List UInt16) :
    (keysFrom fuel after keys).Uses (Statement.Guarded .mutexGetList) := by
  induction fuel generalizing after keys with
  | zero => trivial
  | succ fuel ih =>
      refine Prog.Uses.bind (perform_uses rfl) fun next => ?_
      cases next with
      | none => trivial
      | some id => exact ih (some id) (keys ++ [id])

theorem code_uses {thread : Thread} {op : Section} {mutex : Mutex}
    (h : access thread op = .locked mutex) :
    op.code.Uses (Statement.Guarded mutex) := by
  cases op with
  | storeIndex id =>
      have hmutex : mutex = .mutexGetList := by
        simp only [access] at h
        split at h <;> cases h
        rfl
      rw [hmutex]
      exact Prog.Uses.bind (perform_uses rfl) fun _ => perform_uses rfl
  | storeKeys =>
      cases h
      exact keysFrom_uses _ _ _
  | typeFind id | storeFind id | queueSize | queuePush msg | mapInsert fieldPrefix id json =>
      cases h
      exact perform_uses rfl
  | typeIndex id | typeAssign id type | storeAssign id msg =>
      cases h
      exact Prog.Uses.bind (perform_uses rfl) fun _ => perform_uses rfl
  | queuePop | mapTake =>
      cases h
      refine Prog.Uses.bind (perform_uses rfl) fun _ => ?_
      exact Prog.Uses.bind (perform_uses rfl) fun _ => trivial
  | _ => cases h

/-- The only access that a lock is missing for. -/
theorem eq_of_bare {thread : Thread} {op : Section} {mutex : Mutex}
    (h : access thread op = .bare mutex) :
    ∃ id, op = .storeIndex id ∧ thread = .main ∧ mutex = .mutexGetList := by
  cases op with
  | storeIndex id =>
      simp only [access] at h
      split at h
      next hthread =>
        cases h
        exact ⟨id, rfl, hthread, rfl⟩
      next => cases h
  | _ => cases h

theorem localTo_storeIndex (id : UInt16) (env : Env) :
    LocalTo part (some .mutexGetList) (bridge (.storeIndex id) env) := by
  refine ⟨fun {s s'} h => ?_, fun s other hother => ?_⟩
  · simp only [part] at h
    simp only [bridge, part, h, and_self]
  · rcases other with _ | _ | _ | _ | _
    all_goals first | rfl | exact absurd rfl hother

theorem localTo_own {thread : Thread} {op : Section} (h : access thread op = .own) (env : Env) :
    LocalTo part none (bridge op env) := by
  cases op with
  | storeIndex id =>
      simp only [access] at h
      split at h <;> cases h
  | shaReset | shaAdd | shaGetHash | canRead | canWrite | now | declareData | redisConnect
  | redisHmset | redisPublish | redisLate =>
      refine ⟨fun {s s'} h => ?_, fun s other hother => ?_⟩
      · simp only [part, Prod.mk.injEq] at h
        simp [bridge, part, Bridge.command, Bridge.setSha, Bridge.canRead, Bridge.canWrite, h]
      · rcases other with _ | _ | _ | _ | _
        all_goals first | rfl | exact absurd rfl hother
  | _ => cases h

theorem part_ext {s s' : Bridge} (h : ∀ region, part region s = part region s') : s = s' := by
  have hregister := h (some .frameToJsonLock)
  have hstore := h (some .mutexGetList)
  have hqueue := h (some .frameSendQueueLock)
  have hpending := h (some .writeLock)
  have hown := h none
  simp only [part, Prod.mk.injEq] at hregister hstore hqueue hpending hown
  rcases s with ⟨_, _, _, _, _, _, ⟨_, _, _, _, _, _⟩⟩
  simp_all

theorem mapIndex_of_mem {β : Type} {map : Std.ExtTreeMap UInt16 β} {id : UInt16} (h : id ∈ map)
    (default : β) : (mapIndex map id default).2 = map := by
  rw [mapIndex_of_some (Std.ExtTreeMap.getElem?_eq_some_getElem h)]

theorem reads_statement {statement : Statement} {s : Bridge} (h : Reads statement s) (env : Env) :
    (statements statement env s).2 = s := by
  cases statement with
  | typeRef id => simp only [statements, mapIndex_of_mem (show id ∈ s.typeRegister from h)]
  | storeRef id => simp only [statements, mapIndex_of_mem (show id ∈ s.mp from h)]
  | _ => first | exact h.elim | rfl

theorem guards_of_guarded {statement : Statement} {mutex : Mutex}
    (h : statement.Guarded mutex) : locking.Guards mutex statement := by
  refine ⟨localTo_statement h, fun s s' hpart hreads => ?_⟩
  cases statement with
  | typeRef id =>
      cases h
      change s.typeRegister = s'.typeRegister at hpart
      change id ∈ s'.typeRegister
      rw [← hpart]
      exact hreads
  | storeRef id =>
      cases h
      change s.mp = s'.mp at hpart
      change id ∈ s'.mp
      rw [← hpart]
      exact hreads
  | _ => exact hreads

theorem sound : locking.Sound bridge where
  ext := part_ext
  runs _ env s := run_code _ env s
  code h := (code_uses h).mono fun _ => guards_of_guarded
  reads := reads_statement
  single {thread op} h env := by
    change LocalTo part (access thread op).region (bridge op env)
    cases haccess : access thread op with
    | locked mutex => exact absurd haccess (h mutex)
    | own => exact localTo_own haccess env
    | bare mutex =>
        obtain ⟨id, rfl, -, rfl⟩ := eq_of_bare haccess
        exact localTo_storeIndex id env

/-! ## The access without a lock -/

theorem keysFrom_reads (env : Env) (s : Bridge) (fuel : Nat) (after : Option UInt16)
    (keys : List UInt16) : (keysFrom fuel after keys).Executes statements env Reads s := by
  induction fuel generalizing after keys with
  | zero => trivial
  | succ fuel ih =>
      refine ⟨trivial, ?_⟩
      cases hnext : (statements (.storeNext after) env s).1 with
      | none => trivial
      | some id => exact ih (some id) (keys ++ [id])

/-- No thread but the main loop writes to the store. -/
theorem code_reads {thread : Thread} {op : Section} {s : Bridge} (hthread : thread ≠ .main)
    (hallowed : Serving.allowed thread op s)
    (haccess : access thread op = .locked .mutexGetList) (env : Env) :
    op.code.Executes statements env Reads s := by
  have hfiles := Serving.files_of_allowed hallowed
  cases op with
  | storeFind id => exact ⟨trivial, trivial⟩
  | storeIndex id => exact ⟨hfiles, trivial, trivial⟩
  | storeAssign id msg =>
      exact absurd (Serving.Consistent.main_of_storeAssign hallowed) hthread
  | storeKeys => exact keysFrom_reads env s _ none []
  | _ => cases haccess

theorem undisturbed {pool : Serving} (h : Serving.Consistent pool) :
    locking.Undisturbed bridge pool := by
  intro thread op next mutex hcurrent hbare
  obtain ⟨id, rfl, rfl, rfl⟩ := eq_of_bare hbare
  have hmem : id ∈ pool.shared.mp := h.allowed hcurrent
  refine ⟨fun env => ?_, fun other op' next' hcurrent' haccess env => ?_⟩
  · simp only [bridge, mapIndex_of_mem hmem]
  · refine code_reads ?_ (h.allowed hcurrent') haccess env
    rintro rfl
    rw [hcurrent] at hcurrent'
    cases hcurrent'
    cases haccess

end Statements

end Can2Rest
