import Can2Rest.Threads

/-!
# Answering requests

The threads of the bridge again, with the answers of the handlers, and what
holds of the store and the registry in every interleaving.  The store is indexed
only under keys it has, and the registry has every key of the store, except
between the section of `put` that stores a message and the lookup of its type in
`store_frame`.
-/

namespace Can2Rest

open Foundation Shared Threads

namespace Serving

/-- As `Thread.Local`, with the answers; every handler answers one request. -/
abbrev Local : Thread → Type
  | .main => MainLocals
  | .handler _ _ => Option Response
  | .worker => Bool
  | .server => Unit

def body (program : Program) : (thread : Thread) → Local thread → Code (Local thread)
  | .main, locals => Main.mainPass program.setup locals
  | .handler _ request, none => do
      let response ← request.code program.undefined
      return some response
  | .handler _ _, some response => return some response
  | .worker, connected => RedisInterface.workerTurn connected
  | .server, _ => Prog.perform (I := Sections) .redisLate

end Serving

abbrev Serving := Pool Sections Bridge Serving.Local

namespace Serving

abbrev step (program : Program) : Serving → Thread × Env → Serving :=
  Pool.step bridge (body program)

def start (config : ConfigParser) (hash : StringMap) (fr : CanFrame) : Serving where
  shared := Main.initial config hash
  current
    | .main => .ret ⟨fr, 0⟩
    | .handler _ _ => .ret none
    | .worker => .ret false
    | .server => .ret ()

def answer (pool : Serving) (number : Nat) (request : Request) : Option Response :=
  (pool.current (.handler number request)).ended.join

/-- The rest of a turn begins with the lookup of the type of `id` in `convert_frame`. -/
inductive Awaits {α : Type} (id : UInt16) : Code α → Prop
  | find (rest : ConversationType → Code α) :
      Awaits id (.call (.typeFind id) fun _ => .call (.typeIndex id) rest)
  | index (rest : ConversationType → Code α) : Awaits id (.call (.typeIndex id) rest)

/-! ## Sections that leave the keys alone -/

def Recordless : Section → Prop
  | .storeIndex _ | .storeAssign _ _ => False
  | _ => True

section Recordless

theorem recordless_perform {op : Section} (h : Recordless op) :
    (Prog.perform (I := Sections) op).Uses Recordless :=
  Prog.uses_perform.mpr h

theorem recordless_digest (owner : ShaOwner) (data : Bytes) :
    (digest owner data).Uses Recordless :=
  uses_digest (fun _ => trivial) (fun _ _ => trivial) (fun _ => trivial) owner data

theorem recordless_storeFrame (redis : RedisInterface) (msg : CanMessage) :
    (redis.storeFrame msg).Uses Recordless := by
  refine uses_storeFrame ?_ ?_ ?_ ?_ ?_ redis (fun _ _ => trivial) msg
  · exact fun _ => trivial
  · exact fun _ _ => trivial
  · exact fun _ => trivial
  · exact fun _ => trivial
  · exact fun _ => trivial

theorem recordless_autoRegister (msg : CanMessage) : (Main.autoRegister msg).Uses Recordless :=
  uses_autoRegister (fun _ => trivial) (fun _ _ => trivial) msg

end Recordless

/-! ## The window -/

section Awaits

variable {α β : Type} {id : UInt16}

theorem Awaits.bind {program : Code α} (h : Awaits id program) (next : α → Code β) :
    Awaits id (program >>= next) := by
  cases h with
  | find rest => exact .find fun type => rest type >>= next
  | index rest => exact .index fun type => rest type >>= next

theorem Awaits.head {program : Code α} (h : Awaits id program) :
    program.head = some (.typeFind id) ∨ program.head = some (.typeIndex id) := by
  cases h with
  | find rest => exact .inl rfl
  | index rest => exact .inr rfl

/-- The type of a stored message is looked up next. -/
def Announces (op : Section) (next : op.Res → Code α) : Prop :=
  ∀ id msg, op = .storeAssign id msg → ∀ result, Awaits id (next result)

theorem announces_of_recordless {op : Section} (h : Recordless op) (next : op.Res → Code α) :
    Announces op next := by
  rintro id msg rfl
  exact h.elim

theorem Announces.bind {op : Section} {rest : op.Res → Code α} (h : Announces op rest)
    (next : α → Code β) : Announces op fun result => rest result >>= next :=
  fun id msg hop result => (h id msg hop result).bind next

theorem follows_of_recordless {program : Code α} (h : program.Uses Recordless) :
    program.Follows Announces :=
  h.follows fun _ next hop => announces_of_recordless hop next

theorem follows_bind {program : Code α} {next : α → Code β}
    (h : program.Follows Announces) (hnext : ∀ value, (next value).Follows Announces) :
    (program >>= next).Follows Announces :=
  h.bind (fun _ _ hop => hop.bind next) hnext

theorem follows_writeNew {msg : CanMessage} {next : Code α}
    (hawaits : Awaits (key msg.frame.id) next) (hnext : next.Follows Announces) :
    (CanHashtable.writeNew msg >>= fun _ => next).Follows Announces := by
  have hassign : (CanHashtable.storeAssign (key msg.frame.id) msg >>= fun _ =>
      next).Follows Announces := by
    refine ⟨?_, fun _ => hnext⟩
    rintro _ _ ⟨⟩ result
    exact hawaits
  refine ⟨nofun, fun found => ?_⟩
  cases found with
  | false => exact hassign
  | true =>
      refine ⟨nofun, fun stored => ?_⟩
      change ((ite _ _ _ : Code Unit) >>= fun _ => next).Follows Announces
      split
      · exact hassign
      · exact hnext

theorem follows_put {frame : CanFrame} {timestamp : Int} {syncTick : UInt64}
    {rs : MessageSend} {next : CanMessage → Code α}
    (hawaits : ∀ msg, msg.frame = frame → Awaits (key frame.id) (next msg))
    (hnext : ∀ msg, (next msg).Follows Announces) :
    (CanHashtable.put frame timestamp syncTick rs >>= next).Follows Announces := by
  rw [CanHashtable.put, bind_assoc]
  refine follows_bind (follows_of_recordless (recordless_digest _ _)) fun hash => ?_
  rw [bind_assoc]
  have hmsg := hawaits (CanHashtable.putMessage frame timestamp syncTick rs hash) rfl
  exact follows_writeNew hmsg (hnext _)

theorem awaits_storeFrame {redis : RedisInterface} (h : redis.Enabled) (msg : CanMessage) :
    Awaits (key msg.frame.id) (redis.storeFrame msg) := by
  unfold RedisInterface.storeFrame
  rw [h.1, h.2]
  exact .find _

theorem follows_receiveFrame (setup : Setup) (locals : MainLocals) (frame : CanfdFrame) :
    (Main.receiveFrame setup locals frame).Follows Announces := by
  unfold Main.receiveFrame
  dsimp only
  split
  · refine follows_bind (follows_of_recordless (recordless_perform trivial)) fun timestamp => ?_
    refine follows_put (fun msg hmsg => ?_) fun msg => ?_
    · rw [← hmsg]
      exact (awaits_storeFrame setup.enabled msg).bind _
    · exact follows_bind (follows_of_recordless (recordless_storeFrame _ msg)) fun _ => trivial
  · trivial

theorem follows_recordSent (setup : Setup) (counter : UInt32) (msg : CanMessage) :
    (Main.recordSent setup counter msg).Follows Announces := by
  refine follows_bind (follows_of_recordless (recordless_autoRegister msg)) fun _ => ?_
  refine follows_bind (follows_of_recordless (recordless_perform trivial)) fun timestamp => ?_
  refine follows_put (fun _ _ => awaits_storeFrame setup.enabled msg) fun _ => ?_
  exact follows_of_recordless (recordless_storeFrame _ msg)

theorem follows_mainPass (setup : Setup) (locals : MainLocals) :
    (Main.mainPass setup locals).Follows Announces := by
  refine follows_bind (follows_of_recordless (recordless_perform trivial)) fun received => ?_
  split
  · exact follows_receiveFrame setup locals _
  refine follows_bind ?_ fun _ => trivial
  refine follows_bind (follows_of_recordless (recordless_perform trivial)) fun queued => ?_
  split
  · refine follows_bind (follows_of_recordless (uses_dequeue trivial trivial)) fun msg => ?_
    split
    · refine follows_bind (follows_of_recordless (recordless_perform trivial)) fun _ => ?_
      exact follows_recordSent setup _ msg
    · trivial
  · trivial

end Awaits

/-! ## Handlers and the worker -/

/-- The answer to a look at the registry only decides whether a warning is logged. -/
def IgnoresFind {α : Type} (op : Section) (next : op.Res → Code α) : Prop :=
  ∀ id, op = .typeFind id → ∀ found found', next found = next found'

/-- Records stand under the keys of their frames, and have a hash. -/
def Filed (mp : MessageMap) : Prop :=
  ∀ id msg, mp[id]? = some msg → key msg.frame.id = id ∧ msg.hash ≠ []

/-- How the main loop uses the store. -/
def Files : Section → Bridge → Prop
  | .storeIndex id, state => id ∈ state.mp
  | .storeAssign id msg, _ => key msg.frame.id = id ∧ msg.hash ≠ []
  | _, _ => True

/-- What a request that reads does: the keys it indexes with are in the store. -/
def Reads : Section → Bridge → Prop
  | .storeIndex id, state | .typeIndex id, state => id ∈ state.mp
  | .storeFind _, _ | .storeKeys, _ | .typeFind _, _ => True
  | _, _ => False

def allowed : Thread → Section → Bridge → Prop
  | .main => Files
  | .handler _ (.receive _) | .handler _ .list => Reads
  | _ => fun op _ => Recordless op

/-- No record is removed, and every record is filed. -/
def filing (thread : Thread) : Contract Sections Bridge where
  rely _ before after := ∀ id ∈ before.mp, id ∈ after.mp
  may _ state := Filed state.mp
  guarantee := allowed thread

section Contracts

variable {α : Type} {thread : Thread}

theorem filing_refl (op : Option Section) (state : Bridge) :
    (filing thread).rely op state state :=
  fun _ h => h

theorem filing_trans {op : Option Section} {a b c : Bridge}
    (hab : (filing thread).rely op a b) (hbc : (filing thread).rely op b c) :
    (filing thread).rely op a c :=
  fun id h => hbc id (hab id h)

theorem ensures_of_uses {P : Section → Prop} (hP : ∀ op state, P op → allowed thread op state)
    {program : Code α} (h : program.Uses P) (state : Bridge) :
    program.Ensures bridge (filing thread) (fun _ _ => True) state :=
  h.ensures (fun _ _ _ => trivial) (fun op state hop _ => hP op state hop)
    (fun _ _ _ _ _ _ => trivial) trivial

/-! ### The main loop -/

theorem files_of_recordless {op : Section} (h : Recordless op) (state : Bridge) :
    Files op state := by
  cases op <;> first | exact h.elim | trivial

theorem ensures_of_recordless {program : Code α} (h : program.Uses Recordless) (state : Bridge) :
    program.Ensures bridge (filing .main) (fun _ _ => True) state := by
  have hallowed : ∀ op state, Recordless op → allowed .main op state :=
    fun _ state hop => files_of_recordless hop state
  exact ensures_of_uses hallowed h state

theorem ensures_recordless (op : Section) (h : Recordless op) (state : Bridge) :
    (Prog.perform (I := Sections) op).Ensures bridge (filing .main) (fun _ _ => True) state :=
  ensures_of_recordless (recordless_perform h) state

theorem ensures_digest (owner : ShaOwner) (data : Bytes) (state : Bridge) :
    (digest owner data).Ensures bridge (filing .main) (fun hash _ => hash ≠ []) state := by
  refine fun _ _ => ⟨trivial, fun _ _ => ?_⟩
  refine fun _ _ => ⟨trivial, fun _ _ => ?_⟩
  exact fun _ _ => ⟨trivial, fun _ _ _ _ => SHA256.getHash_ne_nil _⟩

theorem ensures_writeNew {msg : CanMessage} (hhash : msg.hash ≠ []) (state : Bridge) :
    (CanHashtable.writeNew msg).Ensures bridge (filing .main) (fun _ _ => True) state := by
  have hassign : ∀ state, (CanHashtable.storeAssign (key msg.frame.id) msg).Ensures bridge
      (filing .main) (fun _ _ => True) state :=
    fun _ _ _ => ⟨⟨rfl, hhash⟩, fun _ _ _ _ => trivial⟩
  intro found _
  refine ⟨trivial, fun _ env => ?_⟩
  change Prog.Ensures _ _ _ (ite (found.mp.contains (key msg.frame.id) = true) _ _) found
  split
  next hfound =>
    intro later hlater
    refine ⟨hlater _ (Std.ExtTreeMap.contains_iff_mem.mp hfound), fun _ env => ?_⟩
    change Prog.Ensures _ _ _ (ite _ _ _) _
    split
    · exact hassign _
    · exact fun _ _ => trivial
  next => exact hassign _

theorem ensures_put (frame : CanFrame) (timestamp : Int) (syncTick : UInt64)
    (rs : MessageSend) (state : Bridge) :
    (CanHashtable.put frame timestamp syncTick rs).Ensures bridge (filing .main)
      (fun _ _ => True) state := by
  refine (ensures_digest _ _ state).bind (filing_refl none) fun hash state hhash => ?_
  refine (ensures_writeNew (by exact hhash) state).bind (filing_refl none) fun _ state _ => ?_
  exact fun _ _ => trivial

theorem ensures_recordSent (setup : Setup) (counter : UInt32) (msg : CanMessage)
    (state : Bridge) :
    (Main.recordSent setup counter msg).Ensures bridge (filing .main) (fun _ _ => True)
      state := by
  refine Prog.Ensures.seq (filing_refl none)
    (ensures_of_recordless (recordless_autoRegister msg) state) fun _ state => ?_
  refine Prog.Ensures.seq (filing_refl none) (ensures_recordless .now trivial state)
    fun timestamp state => ?_
  refine Prog.Ensures.seq (filing_refl none) (ensures_put _ _ _ _ state) fun _ state => ?_
  exact ensures_of_recordless (recordless_storeFrame _ msg) state

theorem ensures_filing_mainPass (setup : Setup) (locals : MainLocals) (state : Bridge) :
    (Main.mainPass setup locals).Ensures bridge (filing .main) (fun _ _ => True) state := by
  refine Prog.Ensures.seq (filing_refl none) (ensures_recordless .canRead trivial state)
    fun received state => ?_
  split
  · unfold Main.receiveFrame
    dsimp only
    split
    · refine Prog.Ensures.seq (filing_refl none) (ensures_recordless .now trivial state)
        fun _ state => ?_
      refine Prog.Ensures.seq (filing_refl none) (ensures_put _ _ _ _ state)
        fun msg state => ?_
      refine Prog.Ensures.seq (filing_refl none)
        (ensures_of_recordless (recordless_storeFrame _ msg) state) fun _ _ => ?_
      exact fun _ _ => trivial
    · exact fun _ _ => trivial
  refine Prog.Ensures.seq (filing_refl none) ?_ fun _ _ _ _ => trivial
  refine Prog.Ensures.seq (filing_refl none) (ensures_recordless .queueSize trivial state)
    fun queued state => ?_
  split
  · refine Prog.Ensures.seq (filing_refl none)
      (ensures_of_recordless (uses_dequeue trivial trivial) state) fun msg state => ?_
    split
    · refine Prog.Ensures.seq (filing_refl none) (ensures_recordless (.canWrite _) trivial state)
        fun _ state => ?_
      exact ensures_recordSent setup _ msg state
    · exact fun _ _ => trivial
  · exact fun _ _ => trivial

/-! ### Requests that read -/

theorem ensures_get (hthread : allowed thread = Reads) (id : UInt16) (state : Bridge) :
    (CanHashtable.get id).Ensures bridge (filing thread)
      (fun msg state => msg.valid = true →
        key msg.frame.id ∈ state.mp ∧ msg.hash ≠ []) state := by
  have hreads : ∀ {op state}, Reads op state → (filing thread).guarantee op state :=
    fun {op state} h => (congrFun (congrFun hthread op) state).mpr h
  intro found _
  refine ⟨hreads trivial, fun _ env => ?_⟩
  change Prog.Ensures _ _ _ (ite (found.mp.contains id = true) _ _) found
  split
  next hfound =>
    intro later hlater
    have hmem := hlater id (Std.ExtTreeMap.contains_iff_mem.mp hfound)
    refine ⟨hreads hmem, fun hfiled env last hlast _ => ?_⟩
    have hstored := Std.ExtTreeMap.getElem?_eq_some_getElem hmem
    obtain ⟨hkey, hhash⟩ := hfiled id _ hstored
    have hresult := mapIndex_of_some hstored CanMessage.zero
    change key (mapIndex later.mp id .zero).1.frame.id ∈ last.mp ∧
      (mapIndex later.mp id .zero).1.hash ≠ []
    change ∀ id ∈ (mapIndex later.mp _ .zero).2, id ∈ last.mp at hlast
    rw [hresult] at hlast ⊢
    refine ⟨hlast _ ?_, hhash⟩
    rw [hkey]
    exact hmem
  next =>
    intro last _ hvalid
    cases hvalid

theorem ensures_convertFrame (hthread : allowed thread = Reads) {msg : CanMessage}
    {state : Bridge} (hmem : key msg.frame.id ∈ state.mp) (hhash : msg.hash ≠ []) :
    (CanFrameToJson.convertFrame msg).Ensures bridge (filing thread) (fun _ _ => True)
      state := by
  have hreads : ∀ {op state}, Reads op state → (filing thread).guarantee op state :=
    fun {op state} h => (congrFun (congrFun hthread op) state).mpr h
  refine fun found hfound => ⟨hreads trivial, fun _ env => ?_⟩
  refine fun later hlater => ⟨hreads (hlater _ (hfound _ hmem)), fun _ env => ?_⟩
  change Prog.Ensures _ _ _ (CanFrameToJson.reportedHash msg >>= _) _
  rw [CanFrameToJson.reportedHash, if_neg hhash]
  exact fun _ _ => trivial

theorem ensures_receive (hthread : allowed thread = Reads) (digits : Bytes)
    (state : Bridge) :
    (RestApi.receive (some digits)).Ensures bridge (filing thread) (fun _ _ => True)
      state := by
  refine (ensures_get hthread _ state).bind (filing_refl none) fun msg state hmsg => ?_
  split
  next hvalid =>
    refine (ensures_convertFrame hthread (hmsg hvalid).1 (hmsg hvalid).2).bind
      (filing_refl none) fun _ _ _ => ?_
    exact fun _ _ => trivial
  next => exact fun _ _ => trivial

theorem ensures_request (undefined : Binary64.OutOfRange) (number : Nat) (request : Request)
    (state : Bridge) :
    (request.code undefined).Ensures bridge (filing (.handler number request))
      (fun _ _ => True) state := by
  cases request with
  | send body =>
      refine ensures_of_uses (fun op _ hop => ?_) (uses_postSend undefined body) state
      cases op <;> first | exact hop.elim | trivial
  | receive digits => exact ensures_receive rfl digits state
  | list => exact fun _ _ => ⟨trivial, fun _ _ _ _ => trivial⟩

theorem ensures_serving_body (program : Program) (thread : Thread)
    (value : Local thread) (state : Bridge) :
    (body program thread value).Ensures bridge (filing thread) (fun _ _ => True)
      state := by
  cases thread with
  | main => exact ensures_filing_mainPass program.setup value state
  | handler number request =>
      cases value with
      | some response => exact fun _ _ => trivial
      | none =>
          exact (ensures_request program.undefined number request state).bind
            (filing_refl none) fun _ _ _ _ _ => trivial
  | worker =>
      refine ensures_of_uses (fun op _ hop => ?_) (uses_workerTurn value) state
      cases op <;> first | exact hop.elim | trivial
  | server => exact fun _ _ => ⟨trivial, fun _ _ _ _ => trivial⟩

end Contracts

/-! ### Looks at the registry -/

section IgnoresFind

variable {α β : Type}

theorem ignoresFind_of_uses {P : Section → Prop} (hP : ∀ id, ¬ P (.typeFind id))
    {program : Code α} (h : program.Uses P) : program.Follows IgnoresFind := by
  refine h.follows ?_
  rintro op next hop id rfl
  exact absurd hop (hP id)

theorem IgnoresFind.bind {op : Section} {rest : op.Res → Code α} (h : IgnoresFind op rest)
    (next : α → Code β) : IgnoresFind op fun result => rest result >>= next :=
  fun id hop found found' => congrArg (· >>= next) (h id hop found found')

theorem ignoresFind_bind {program : Code α} {next : α → Code β}
    (h : program.Follows IgnoresFind) (hnext : ∀ value, (next value).Follows IgnoresFind) :
    (program >>= next).Follows IgnoresFind :=
  h.bind (fun _ _ hop => hop.bind next) hnext

def NoFind : Section → Prop
  | .typeFind _ => False
  | _ => True

theorem ignoresFind_of_noFind {program : Code α} (h : program.Uses NoFind) :
    program.Follows IgnoresFind :=
  ignoresFind_of_uses (fun _ h => h) h

theorem ignoresFind_convertFrame (msg : CanMessage) :
    (CanFrameToJson.convertFrame msg).Follows IgnoresFind := by
  refine ⟨fun _ _ _ _ => rfl, fun _ => ⟨nofun, fun registered => ?_⟩⟩
  change (CanFrameToJson.reportedHash msg >>= _).Follows IgnoresFind
  refine ignoresFind_bind ?_ fun _ => trivial
  unfold CanFrameToJson.reportedHash
  split
  · exact ignoresFind_of_noFind
      (uses_digest (fun _ => trivial) (fun _ _ => trivial) (fun _ => trivial) _ _)
  · trivial

theorem ignoresFind_get (id : UInt16) : (CanHashtable.get id).Follows IgnoresFind := by
  refine ⟨nofun, fun found => ?_⟩
  change (ite (found = true) _ _ : Code CanMessage).Follows IgnoresFind
  split
  · exact ⟨nofun, fun _ => trivial⟩
  · trivial

theorem ignoresFind_request (undefined : Binary64.OutOfRange) (request : Request) :
    (request.code undefined).Follows IgnoresFind := by
  cases request with
  | send body => exact ignoresFind_of_uses (fun _ h => h) (uses_postSend undefined body)
  | receive digits =>
      refine ignoresFind_bind (ignoresFind_get _) fun msg => ?_
      split
      · exact ignoresFind_bind (ignoresFind_convertFrame msg) fun _ => trivial
      · trivial
  | list => exact ⟨nofun, fun _ => trivial⟩

theorem ignoresFind_body (program : Program) {thread : Thread} (hthread : thread ≠ .main)
    (value : Local thread) :
    (body program thread value).Follows IgnoresFind := by
  cases thread with
  | main => exact absurd rfl hthread
  | handler number request =>
      cases value with
      | some response => trivial
      | none =>
          exact ignoresFind_bind (ignoresFind_request program.undefined request)
            fun _ => trivial
  | worker => exact ignoresFind_of_uses (fun _ h => h) (uses_workerTurn value)
  | server => exact ⟨nofun, fun _ => trivial⟩

end IgnoresFind

/-! ## The keys of the store and of the registry -/

section Sections

variable {op : Section} {state : Bridge} {id : UInt16}

theorem files_of_reads (h : Reads op state) : Files op state := by
  cases op <;> first | exact h.elim | exact h | trivial

theorem files_of_allowed {thread : Thread} (h : allowed thread op state) : Files op state := by
  cases thread with
  | main => exact h
  | handler number request =>
      cases request with
      | send body => exact files_of_recordless h state
      | receive digits => exact files_of_reads h
      | list => exact files_of_reads h
  | worker | server => exact files_of_recordless h state

theorem mp_section (hop : Files op state) (env : Env) :
    (bridge op env state).2.mp = state.mp ∨
      ∃ id msg, op = .storeAssign id msg ∧
        (bridge op env state).2.mp = state.mp.insert id msg := by
  cases op with
  | storeIndex id =>
      left
      change (mapIndex state.mp id .zero).2 = state.mp
      rw [mapIndex_of_some (Std.ExtTreeMap.getElem?_eq_some_getElem hop)]
  | storeAssign id msg => exact .inr ⟨id, msg, rfl, rfl⟩
  | queuePop => exact .inl state.mp_queuePop
  | _ => exact .inl rfl

theorem mem_mp_section (hop : Files op state) (env : Env) (h : id ∈ state.mp) :
    id ∈ (bridge op env state).2.mp := by
  rcases mp_section hop env with hmp | ⟨other, msg, -, hmp⟩
  · rw [hmp]
    exact h
  · rw [hmp]
    exact Std.ExtTreeMap.mem_insert.mpr (.inr h)

theorem filed_section (hop : Files op state) (env : Env) (h : Filed state.mp) :
    Filed (bridge op env state).2.mp := by
  rcases mp_section hop env with hmp | ⟨other, msg, rfl, hmp⟩
  · rw [hmp]
    exact h
  · intro id stored hstored
    rw [hmp, getElem?_insert] at hstored
    split at hstored
    next hother =>
      obtain rfl := Option.some.inj hstored
      exact hother ▸ hop
    next => exact h id stored hstored

theorem mem_register_section (env : Env) (h : id ∈ state.typeRegister) :
    id ∈ (bridge op env state).2.typeRegister := by
  rw [Std.ExtTreeMap.mem_iff_isSome_getElem?] at h ⊢
  cases op with
  | typeIndex other =>
      change (CanFrameToJson.lookedUp state.typeRegister other)[id]?.isSome = true
      rw [CanFrameToJson.getElem?_lookedUp]
      split
      · rfl
      · exact h
  | typeAssign other type =>
      change (state.typeRegister.insert other type)[id]?.isSome = true
      rw [getElem?_insert]
      split
      · rfl
      · exact h
  | queuePop =>
      change state.queuePop.2.typeRegister[id]?.isSome = true
      rw [Bridge.typeRegister_queuePop]
      exact h
  | _ => exact h

end Sections

structure Consistent (pool : Serving) : Prop where
  filed : Filed pool.shared.mp
  typed : ∀ id ∈ pool.shared.mp,
    id ∈ pool.shared.typeRegister ∨ Awaits id (pool.current .main)
  announces : (pool.current .main).Follows Announces
  ensures : ∀ thread, (pool.current thread).Ensures bridge (filing thread) (fun _ _ => True)
    pool.shared
  ignoresFind : ∀ thread, thread ≠ .main → (pool.current thread).Follows IgnoresFind

theorem consistent_start (config : ConfigParser) (hash : StringMap) (fr : CanFrame) :
    Consistent (start config hash fr) where
  filed := by
    intro id msg hmsg
    cases hmsg
  typed id hid := absurd hid Std.ExtTreeMap.not_mem_empty
  announces := trivial
  ensures thread := by
    cases thread <;> exact fun _ _ => trivial
  ignoresFind thread _ := by
    cases thread <;> trivial

namespace Consistent

variable {program : Program} {pool : Serving} {event : Thread × Env}

theorem allowed {thread : Thread} {op : Section} {next : op.Res → Code (Local thread)}
    (h : Consistent pool) (hcall : pool.current thread = .call op next) :
    Serving.allowed thread op pool.shared := by
  have hensures := h.ensures thread
  rw [hcall] at hensures
  exact (hensures _ (filing_refl _ _)).1

theorem main_of_storeAssign {thread : Thread} {id : UInt16} {msg : CanMessage}
    {state : Bridge} (h : Serving.allowed thread (.storeAssign id msg) state) :
    thread = .main := by
  cases thread with
  | main => rfl
  | handler number request => cases request <;> exact h.elim
  | worker | server => exact h.elim

/-- The main loop looks up the type of what it stored before it goes on. -/
theorem typed_step_main {op : Section} {next : op.Res → Code MainLocals} {env : Env}
    (h : Consistent pool) (hcurrent : pool.current .main = .call op next) {id : UInt16}
    (hid : id ∈ (bridge op env pool.shared).2.mp) :
    id ∈ (bridge op env pool.shared).2.typeRegister ∨
      Awaits id (next (bridge op env pool.shared).1) := by
  have htyped : id ∈ pool.shared.mp → id ∈ (bridge op env pool.shared).2.typeRegister ∨
      Awaits id (next (bridge op env pool.shared).1) := by
    intro hold
    rcases h.typed id hold with hregistered | hawaits
    · exact .inl (mem_register_section env hregistered)
    · rw [hcurrent] at hawaits
      cases hawaits with
      | find rest => exact .inr (.index rest)
      | index rest =>
          left
          change id ∈ CanFrameToJson.lookedUp pool.shared.typeRegister id
          rw [Std.ExtTreeMap.mem_iff_isSome_getElem?, CanFrameToJson.getElem?_lookedUp,
            if_pos rfl]
          rfl
  rcases mp_section (h.allowed hcurrent) env with hmp | ⟨other, msg, rfl, hmp⟩
  · exact htyped (hmp ▸ hid)
  · by_cases hother : other = id
    · have hannounces := h.announces
      rw [hcurrent] at hannounces
      exact .inr (hother ▸ hannounces.1 other msg rfl _)
    · rw [hmp, Std.ExtTreeMap.mem_iff_isSome_getElem?, getElem?_insert, if_neg hother,
        ← Std.ExtTreeMap.mem_iff_isSome_getElem?] at hid
      exact htyped hid

theorem typed_step (h : Consistent pool) (event : Thread × Env) :
    ∀ id ∈ (step program pool event).shared.mp,
      id ∈ (step program pool event).shared.typeRegister ∨
        Awaits id ((step program pool event).current .main) := by
  intro id hid
  obtain ⟨thread, env⟩ := event
  cases hcurrent : pool.current thread with
  | ret value =>
      rw [step, Pool.shared_step_ret (thread, env) hcurrent] at hid ⊢
      refine (h.typed id hid).imp_right fun hawaits => ?_
      by_cases hthread : thread = .main
      · subst hthread
        rw [hcurrent] at hawaits
        cases hawaits
      · rw [Pool.current_step_of_ne hthread]
        exact hawaits
  | call op next =>
      rw [step, Pool.shared_step_call (thread, env) hcurrent] at hid ⊢
      by_cases hthread : thread = .main
      · subst hthread
        rw [Pool.current_step_call (Thread.main, env) hcurrent]
        exact h.typed_step_main hcurrent hid
      · rw [Pool.current_step_of_ne hthread]
        rcases mp_section (files_of_allowed (h.allowed hcurrent)) env with
          hmp | ⟨other, msg, rfl, -⟩
        · exact (h.typed id (hmp ▸ hid)).imp_left (mem_register_section env)
        · exact absurd (main_of_storeAssign (h.allowed hcurrent)) hthread

theorem filed_step (h : Consistent pool) (event : Thread × Env) :
    Filed (step program pool event).shared.mp := by
  cases hcurrent : pool.current event.1 with
  | ret value =>
      rw [step, Pool.shared_step_ret event hcurrent]
      exact h.filed
  | call op next =>
      rw [step, Pool.shared_step_call event hcurrent]
      exact filed_section (files_of_allowed (h.allowed hcurrent)) event.2 h.filed

theorem rely_step (h : Consistent pool) (event : Thread × Env) :
    ∀ id ∈ pool.shared.mp, id ∈ (step program pool event).shared.mp := by
  intro id hid
  cases hcurrent : pool.current event.1 with
  | ret value =>
      rw [step, Pool.shared_step_ret event hcurrent]
      exact hid
  | call op next =>
      rw [step, Pool.shared_step_call event hcurrent]
      exact mem_mp_section (files_of_allowed (h.allowed hcurrent)) event.2 hid

theorem step (h : Consistent pool) (event : Thread × Env) :
    Consistent (step program pool event) where
  filed := h.filed_step event
  typed := h.typed_step event
  announces := Pool.follows_step (follows_mainPass program.setup) h.announces event
  ensures thread :=
    Pool.ensures_step filing_refl filing_trans
      (fun value state _ => ensures_serving_body program thread value state)
      (fun _ _ _ => h.filed) (fun _ => h.rely_step event) (h.ensures thread)
  ignoresFind thread hthread :=
    Pool.follows_step (ignoresFind_body program hthread) (h.ignoresFind thread hthread) event

end Consistent

end Serving

end Can2Rest
