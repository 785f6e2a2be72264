import Can2Rest.Foundation.Interleaving
import Can2Rest.Foundation.Maps
import Can2Rest.CanMessage
import Can2Rest.Shared.Sha256
import Mathlib.Tactic.Simps.Basic

/-!
# The shared state of the bridge and its atomic sections

The threads of the program (the main loop, the HTTP handlers, the Redis worker)
share the objects below.  What one thread does in one step is a section: the
body of a `lock`/`unlock` pair, one call on a digest object, one access outside
a lock, or one call to the socket, the clock or the Redis client.  The Redis server
has a section of its own, in which it executes a command that its caller has given
up on.

`History` only records what happened; no section reads it.
-/

namespace Can2Rest

open Foundation Shared

abbrev TypeRegister := Std.ExtTreeMap UInt16 ConversationType
abbrev MessageMap := Std.ExtTreeMap UInt16 CanMessage

inductive RedisCommand where
  | hmset (batch : List (Bytes × Bytes))
  | publish (field : Bytes)
  deriving DecidableEq

/--
The Redis server: the hash named `hash_name`, the fields written to it since
whose last write no update message with their name was published, and the
commands that threw without having been executed, which may still be.
-/
structure RedisServer where
  hash : StringMap
  unannounced : List Bytes
  late : List RedisCommand

/-- What happened so far, oldest first. -/
structure History where
  stored : List (UInt32 × Bytes)
  entered : StringMap
  enqueued : List CanMessage
  dequeued : List CanMessage
  received : List CanfdFrame
  transmitted : List CanfdFrame

/-- Whose `sha256` member a digest call is made on. -/
inductive ShaOwner where
  | frameConverter
  | gotCanMessages
  | frameQueue
  deriving DecidableEq

/--
`typeRegister` is the member of `frame_converter`, `mp` of `got_can_messages`,
`messageQueue` of `frame_queue` and `writeMap` of `redis_api`.
-/
structure Bridge where
  typeRegister : TypeRegister
  mp : MessageMap
  messageQueue : List CanMessage
  writeMap : StringMap
  sha256 : ShaOwner → SHA256
  redisServer : RedisServer
  history : History

@[simps] def Bridge.start (typeRegister : TypeRegister) (hash : StringMap) : Bridge where
  typeRegister := typeRegister
  mp := ∅
  messageQueue := []
  writeMap := ∅
  sha256 := fun _ => .reset
  redisServer := ⟨hash, [], []⟩
  history := ⟨[], ∅, [], [], [], []⟩

/-! ## The environment of a step -/

/--
A Redis command succeeds, or throws with or without having been executed: the client
gives up on an answer after 100 ms, whatever becomes of the command.
-/
inductive RedisOutcome where
  | done
  | thrown (executed : Bool)
  deriving DecidableEq

/-- The order in which a copied map lists its entries, if the iteration keeps it. -/
def listed (batch : List (Bytes × Bytes)) :
    { entries : List (Bytes × Bytes) // entries.Perm batch } :=
  ⟨batch, .refl batch⟩

structure Env where
  received : Option CanfdFrame := none
  written : Bool := true
  now : Int := 0
  /-- The indeterminate bytes of a frame that is declared without initialiser. -/
  uninitialized : Vector UInt8 64 := Vector.replicate 64 0
  redis : RedisOutcome := .done
  /-- The one that the server executes of the commands that were given up on. -/
  late : Nat := 0
  /-- The iteration order of a `std::unordered_map`. -/
  order (batch : List (Bytes × Bytes)) :
    { entries : List (Bytes × Bytes) // entries.Perm batch } := listed batch

/-! ## Sections -/

inductive Section where
  | typeFind (id : UInt16)
  | typeIndex (id : UInt16)
  | typeAssign (id : UInt16) (type : ConversationType)
  | storeFind (id : UInt16)
  | storeIndex (id : UInt16)
  | storeAssign (id : UInt16) (msg : CanMessage)
  | storeKeys
  | queueSize
  | queuePush (msg : CanMessage)
  | queuePop
  | mapInsert (fieldPrefix : Bytes) (id : UInt32) (json : Bytes)
  | mapTake
  | shaReset (owner : ShaOwner)
  | shaAdd (owner : ShaOwner) (data : Bytes)
  | shaGetHash (owner : ShaOwner)
  | canRead
  | canWrite (frame : CanfdFrame)
  | now
  | declareData
  | redisConnect
  | redisHmset (batch : List (Bytes × Bytes))
  | redisPublish (field : Bytes)
  | redisLate

abbrev Section.Res : Section → Type
  | .typeFind _ => Bool
  | .typeIndex _ => ConversationType
  | .typeAssign _ _ => Unit
  | .storeFind _ => Bool
  | .storeIndex _ => CanMessage
  | .storeAssign _ _ => Unit
  | .storeKeys => List UInt16
  | .queueSize => Int
  | .queuePush _ => Unit
  | .queuePop => Option CanMessage
  | .mapInsert _ _ _ => Unit
  | .mapTake => List (Bytes × Bytes)
  | .shaReset _ => Unit
  | .shaAdd _ _ => Unit
  | .shaGetHash _ => Bytes
  | .canRead => Option CanfdFrame
  | .canWrite _ => Bool
  | .now => Int
  | .declareData => Vector UInt8 64
  | .redisConnect => Bool
  | .redisHmset _ => Bool
  | .redisPublish _ => Bool
  | .redisLate => Unit

abbrev Sections : Interface where
  Op := Section
  Res := Section.Res

abbrev Code (α : Type) := Prog Sections α

def fieldOf (fieldPrefix : Bytes) (id : UInt32) : Bytes :=
  fieldPrefix ++ toDecimal id.toNat

theorem fieldOf_injective (fieldPrefix : Bytes) :
    Function.Injective (fieldOf fieldPrefix) := by
  intro first second h
  exact UInt32.toNat.inj (toDecimal_injective (List.append_cancel_left h))

/-! ## What a section does -/

def RedisOutcome.ok : RedisOutcome → Bool
  | .done => true
  | .thrown _ => false

def RedisOutcome.executed : RedisOutcome → Bool
  | .done => true
  | .thrown executed => executed

namespace RedisServer

def hmset (server : RedisServer) (batch : List (Bytes × Bytes)) : RedisServer :=
  { server with
    hash := server.hash.insertMany batch
    unannounced := batch.map Prod.fst ++ server.unannounced }

def publish (server : RedisServer) (field : Bytes) : RedisServer :=
  { server with unannounced := server.unannounced.filter (· ≠ field) }

def execute (server : RedisServer) : RedisCommand → RedisServer
  | .hmset batch => server.hmset batch
  | .publish field => server.publish field

/-- What the outcome of a command leaves; one that was not executed may be later. -/
def attempt (server : RedisServer) (outcome : RedisOutcome) (command : RedisCommand) :
    RedisServer :=
  if outcome.executed then server.execute command
  else { server with late := server.late ++ [command] }

/-- A command is executed after its caller has given up on it. -/
def executeLate (server : RedisServer) (i : Nat) : RedisServer :=
  match server.late[i]? with
  | some command => { server.execute command with late := server.late.eraseIdx i }
  | none => server

/-- A batch that may still be written has this JSON for the field. -/
def HasLate (server : RedisServer) (field json : Bytes) : Prop :=
  ∃ entries, .hmset entries ∈ server.late ∧ (field, json) ∈ entries

@[simp] theorem late_execute (server : RedisServer) (command : RedisCommand) :
    (server.execute command).late = server.late := by
  cases command <;> rfl

theorem hash_attempt_hmset (server : RedisServer) (outcome : RedisOutcome)
    (batch : List (Bytes × Bytes)) :
    (server.attempt outcome (.hmset batch)).hash = server.hash ∨
      (server.attempt outcome (.hmset batch)).hash = server.hash.insertMany batch := by
  unfold attempt
  split
  · exact .inr rfl
  · exact .inl rfl

theorem hash_attempt_publish (server : RedisServer) (outcome : RedisOutcome) (field : Bytes) :
    (server.attempt outcome (.publish field)).hash = server.hash := by
  unfold attempt
  split <;> rfl

theorem unannounced_attempt_hmset (server : RedisServer) (outcome : RedisOutcome)
    (batch : List (Bytes × Bytes)) :
    (server.attempt outcome (.hmset batch)).unannounced ⊆
      batch.map Prod.fst ++ server.unannounced := by
  unfold attempt
  split
  · exact List.Subset.refl _
  · exact List.subset_append_right _ _

theorem unannounced_attempt_publish (server : RedisServer) (outcome : RedisOutcome)
    (field : Bytes) :
    (server.attempt outcome (.publish field)).unannounced ⊆ server.unannounced := by
  unfold attempt
  split
  · exact List.filter_subset_self _
  · exact List.Subset.refl _

theorem hasLate_attempt_hmset {server : RedisServer} {outcome : RedisOutcome}
    {batch : List (Bytes × Bytes)} {field json : Bytes}
    (h : (server.attempt outcome (.hmset batch)).HasLate field json) :
    server.HasLate field json ∨ (field, json) ∈ batch := by
  obtain ⟨entries, hentries, hentry⟩ := h
  unfold attempt at hentries
  split at hentries
  · rw [late_execute] at hentries
    exact .inl ⟨entries, hentries, hentry⟩
  · rcases List.mem_append.mp hentries with hold | hnew
    · exact .inl ⟨entries, hold, hentry⟩
    · cases List.mem_singleton.mp hnew
      exact .inr hentry

theorem hasLate_attempt_publish {server : RedisServer} {outcome : RedisOutcome}
    {name field json : Bytes}
    (h : (server.attempt outcome (.publish name)).HasLate field json) :
    server.HasLate field json := by
  obtain ⟨entries, hentries, hentry⟩ := h
  unfold attempt at hentries
  split at hentries
  · exact ⟨entries, hentries, hentry⟩
  · rcases List.mem_append.mp hentries with hold | hnew
    · exact ⟨entries, hold, hentry⟩
    · cases List.mem_singleton.mp hnew

theorem late_executeLate_subset (server : RedisServer) (i : Nat) :
    (server.executeLate i).late ⊆ server.late := by
  unfold executeLate
  split
  · exact (List.eraseIdx_sublist _ _).subset
  · exact List.Subset.refl _

theorem hasLate_executeLate {server : RedisServer} {i : Nat} {field json : Bytes}
    (h : (server.executeLate i).HasLate field json) : server.HasLate field json := by
  obtain ⟨entries, hentries, hentry⟩ := h
  exact ⟨entries, server.late_executeLate_subset i hentries, hentry⟩

theorem getElem?_executeLate (server : RedisServer) (i : Nat) (field : Bytes) :
    (server.executeLate i).hash[field]? = server.hash[field]? ∨
      ∃ entries json, server.late[i]? = some (.hmset entries) ∧ (field, json) ∈ entries ∧
        (server.executeLate i).hash[field]? = some json := by
  unfold executeLate
  split
  next command hcommand =>
    cases command with
    | publish name => exact .inl rfl
    | hmset entries =>
        change (server.hash.insertMany entries)[field]? = _ ∨ _
        rcases getElem?_insertMany_cases server.hash entries field with
          ⟨json, hentry, hsome⟩ | ⟨-, hsame⟩
        · exact .inr ⟨entries, json, hcommand, hentry, hsome⟩
        · exact .inl hsame
  next => exact .inl rfl

end RedisServer

namespace Bridge

@[simps] def setSha (state : Bridge) (owner : ShaOwner) (sha : SHA256) : Bridge :=
  { state with sha256 := Function.update state.sha256 owner sha }

/-- `write_map.insert`: an entry that is there stays. -/
@[simps] def mapInsert (state : Bridge) (fieldPrefix : Bytes) (id : UInt32)
    (json : Bytes) : Bridge :=
  let field := fieldOf fieldPrefix id
  { state with
    writeMap := state.writeMap.insertIfNew field json
    history :=
      { state.history with
        stored := state.history.stored ++ [(id, json)]
        entered :=
          if field ∈ state.writeMap then state.history.entered
          else state.history.entered.insert field json } }

@[simps] def queuePush (state : Bridge) (msg : CanMessage) : Bridge :=
  { state with
    messageQueue := state.messageQueue ++ [msg]
    history :=
      { state.history with enqueued := state.history.enqueued ++ [msg] } }

@[simps] def popped (state : Bridge) (msg : CanMessage) (rest : List CanMessage) :
    Bridge :=
  { state with
    messageQueue := rest
    history :=
      { state.history with dequeued := state.history.dequeued ++ [msg] } }

/-- `front` and `pop`; an empty queue has no front. -/
def queuePop (state : Bridge) : Option CanMessage × Bridge :=
  match state.messageQueue with
  | [] => (none, state)
  | msg :: rest => (some msg, state.popped msg rest)

section QueuePop

variable (state : Bridge)

@[simp] theorem typeRegister_queuePop :
    state.queuePop.2.typeRegister = state.typeRegister := by
  unfold queuePop
  split <;> rfl

@[simp] theorem mp_queuePop : state.queuePop.2.mp = state.mp := by
  unfold queuePop
  split <;> rfl

@[simp] theorem sha256_queuePop : state.queuePop.2.sha256 = state.sha256 := by
  unfold queuePop
  split <;> rfl

end QueuePop

@[simps] def canRead (state : Bridge) (env : Env) : Option CanfdFrame × Bridge :=
  (env.received,
    { state with
      history :=
        { state.history with
          received := state.history.received ++ env.received.toList } })

@[simps] def canWrite (state : Bridge) (env : Env) (frame : CanfdFrame) : Bool × Bridge :=
  (env.written,
    { state with
      history :=
        { state.history with
          transmitted :=
            state.history.transmitted ++ if env.written then [frame] else [] } })

def command (state : Bridge) (outcome : RedisOutcome) (command : RedisCommand) :
    Bool × Bridge :=
  (outcome.ok, { state with redisServer := state.redisServer.attempt outcome command })

end Bridge

def bridge : Machine Sections Bridge Env
  | .typeFind id, _, s => (s.typeRegister.contains id, s)
  | .typeIndex id, _, s =>
      let found := mapIndex s.typeRegister id .none
      (found.1, { s with typeRegister := found.2 })
  | .typeAssign id type, _, s =>
      ((), { s with typeRegister := s.typeRegister.insert id type })
  | .storeFind id, _, s => (s.mp.contains id, s)
  | .storeIndex id, _, s =>
      let found := mapIndex s.mp id .zero
      (found.1, { s with mp := found.2 })
  | .storeAssign id msg, _, s => ((), { s with mp := s.mp.insert id msg })
  | .storeKeys, _, s => (s.mp.keys, s)
  | .queueSize, _, s => (asInt s.messageQueue.length, s)
  | .queuePush msg, _, s => ((), s.queuePush msg)
  | .queuePop, _, s => s.queuePop
  | .mapInsert fieldPrefix id json, _, s => ((), s.mapInsert fieldPrefix id json)
  | .mapTake, env, s =>
      ((env.order s.writeMap.toList).1, { s with writeMap := ∅ })
  | .shaReset owner, _, s => ((), s.setSha owner .reset)
  | .shaAdd owner data, _, s => ((), s.setSha owner ((s.sha256 owner).add data))
  | .shaGetHash owner, _, s => ((s.sha256 owner).getHash, s)
  | .canRead, env, s => s.canRead env
  | .canWrite frame, env, s => s.canWrite env frame
  | .now, env, s => (env.now, s)
  | .declareData, env, s => (env.uninitialized, s)
  | .redisConnect, env, s => (env.redis.ok, s)
  | .redisHmset batch, env, s => s.command env.redis (.hmset batch)
  | .redisPublish field, env, s => s.command env.redis (.publish field)
  | .redisLate, env, s =>
      ((), { s with redisServer := s.redisServer.executeLate env.late })

/-! ## Digest calls -/

namespace Bridge

@[simp] theorem sha256_setSha (state : Bridge) (owner : ShaOwner) (sha : SHA256) :
    (state.setSha owner sha).sha256 owner = sha :=
  Function.update_self ..

@[simp] theorem setSha_setSha (state : Bridge) (owner : ShaOwner)
    (first second : SHA256) :
    (state.setSha owner first).setSha owner second = state.setSha owner second := by
  simp [setSha]

end Bridge

def shaReset (owner : ShaOwner) : Code Unit :=
  Prog.perform (I := Sections) (.shaReset owner)

def shaAdd (owner : ShaOwner) (data : Bytes) : Code Unit :=
  Prog.perform (I := Sections) (.shaAdd owner data)

def shaGetHash (owner : ShaOwner) : Code Bytes :=
  Prog.perform (I := Sections) (.shaGetHash owner)

/-- `SHA256::operator()` on the digest object of `owner`. -/
def digest (owner : ShaOwner) (data : Bytes) : Code Bytes := do
  shaReset owner
  shaAdd owner data
  shaGetHash owner

theorem run_shaReset (env : Env) (owner : ShaOwner) (state : Bridge) :
    (shaReset owner).run bridge env state = ((), state.setSha owner .reset) :=
  rfl

theorem run_shaAdd (env : Env) (owner : ShaOwner) (data : Bytes)
    (state : Bridge) :
    (shaAdd owner data).run bridge env state =
      ((), state.setSha owner ((state.sha256 owner).add data)) :=
  rfl

theorem run_shaGetHash (env : Env) (owner : ShaOwner) (state : Bridge) :
    (shaGetHash owner).run bridge env state =
      ((state.sha256 owner).getHash, state) :=
  rfl

/-- Alone, a digest call returns the digest of its argument, whatever came before. -/
@[simp] theorem run_digest (env : Env) (owner : ShaOwner) (data : Bytes)
    (state : Bridge) :
    (digest owner data).run bridge env state =
      (Shared.sha256 data, state.setSha owner (SHA256.reset.add data)) := by
  simp only [digest, Prog.run_bind, run_shaReset, run_shaAdd, run_shaGetHash,
    Bridge.sha256_setSha, Bridge.setSha_setSha]
  rfl

end Can2Rest
