import Can2Rest.Account

/-!
# The bridge agrees with the account

The contract of the main loop: the other threads leave alone what a pass works on, and
at every call the state agrees with an account whose parts are as before or as after
the pass.
-/

namespace Can2Rest

open Foundation Shared

namespace Account

/-! ## Steps of other threads -/

/-- What the steps of other threads leave as it is; a lookup may enter `NONE` for a stored id. -/
structure Aside (before after : Bridge) : Prop where
  mp : after.mp = before.mp
  types : ∀ id, CanFrameToJson.registeredType after.typeRegister id =
    CanFrameToJson.registeredType before.typeRegister id
  registered : ∀ id ∈ before.typeRegister, id ∈ after.typeRegister
  looked : ∀ id ∈ after.typeRegister, id ∈ before.typeRegister ∨ id ∈ before.mp
  gotCanMessages : after.sha256 .gotCanMessages = before.sha256 .gotCanMessages
  frameConverter : after.sha256 .frameConverter = before.sha256 .frameConverter
  received : after.history.received = before.history.received
  dequeued : after.history.dequeued = before.history.dequeued
  transmitted : after.history.transmitted = before.history.transmitted
  stored : after.history.stored = before.history.stored

theorem Aside.refl (state : Bridge) : Aside state state where
  mp := rfl
  types _ := rfl
  registered _ h := h
  looked _ h := .inl h
  gotCanMessages := rfl
  frameConverter := rfl
  received := rfl
  dequeued := rfl
  transmitted := rfl
  stored := rfl

theorem Aside.trans {a b c : Bridge} (hab : Aside a b) (hbc : Aside b c) : Aside a c where
  mp := hbc.mp.trans hab.mp
  types id := (hbc.types id).trans (hab.types id)
  registered id h := hbc.registered id (hab.registered id h)
  looked id h := (hbc.looked id h).elim (hab.looked id) fun hid => .inr (hab.mp ▸ hid)
  gotCanMessages := hbc.gotCanMessages.trans hab.gotCanMessages
  frameConverter := hbc.frameConverter.trans hab.frameConverter
  received := hbc.received.trans hab.received
  dequeued := hbc.dequeued.trans hab.dequeued
  transmitted := hbc.transmitted.trans hab.transmitted
  stored := hbc.stored.trans hab.stored

theorem Agrees.aside {account : Account} {before after : Bridge} (h : account.Agrees before)
    (haside : Aside before after) : account.Agrees after where
  mp := haside.mp.trans h.mp
  types id := (haside.types id).trans (h.types id)
  registered id hid := haside.registered id (h.registered id hid)
  looked id hid := (haside.looked id hid).elim (h.looked id) fun hmp => .inr (h.mp ▸ hmp)
  received := haside.received.trans h.received
  dequeued := haside.dequeued.trans h.dequeued
  transmitted := haside.transmitted.trans h.transmitted
  stored := haside.stored.trans h.stored

/-! ## Within a pass -/

/-- Every part is as in one of the two accounts. -/
structure Amid (before after account : Account) : Prop where
  typeRegister : account.typeRegister = before.typeRegister ∨
    account.typeRegister = after.typeRegister
  mp : account.mp = before.mp ∨ account.mp = after.mp
  received : account.received = before.received ∨ account.received = after.received
  dequeued : account.dequeued = before.dequeued ∨ account.dequeued = after.dequeued
  transmitted : account.transmitted = before.transmitted ∨
    account.transmitted = after.transmitted
  stored : account.stored = before.stored ∨ account.stored = after.stored

section Contract

variable (setup : Setup) (config : ConfigParser) (fr : CanFrame)

def Within (account : Account) : Prop :=
  account.InOrder ∧ ∃ passes pass, Amid (after setup config fr passes)
    (after setup config fr (passes ++ [pass])) account

def accounting : Contract Sections Bridge where
  rely _ := Aside
  may _ _ := True
  guarantee _ state := ∃ account, Within setup config fr account ∧ account.Agrees state

def Balanced (locals : MainLocals) (state : Bridge) : Prop :=
  ∃ passes, (after setup config fr passes).locals = locals ∧
    (after setup config fr passes).Agrees state

end Contract

section Ensures

variable {setup : Setup} {config : ConfigParser} {fr : CanFrame} {account : Account}
variable {state : Bridge}

theorem accounting_refl (op : Option Section) (state : Bridge) :
    (accounting setup config fr).rely op state state :=
  Aside.refl state

theorem accounting_trans {op : Option Section} {a b c : Bridge}
    (hab : (accounting setup config fr).rely op a b)
    (hbc : (accounting setup config fr).rely op b c) : (accounting setup config fr).rely op a c :=
  Aside.trans hab hbc

theorem Within.guarantee (hwithin : Within setup config fr account) (h : account.Agrees state)
    {later : Bridge} (haside : Aside state later) (op : Section) :
    (accounting setup config fr).guarantee op later :=
  ⟨account, hwithin, h.aside haside⟩

theorem Agrees.setSha (h : account.Agrees state) (owner : ShaOwner) (sha : SHA256) :
    account.Agrees (state.setSha owner sha) :=
  ⟨h.mp, h.types, h.registered, h.looked, h.received, h.dequeued, h.transmitted, h.stored⟩

/-! ### Recording a message -/

theorem ensures_digest (hwithin : Within setup config fr account) (h : account.Agrees state)
    {owner : ShaOwner} (howner : owner ≠ .frameQueue) (data : Bytes) :
    (digest owner data).Ensures bridge (accounting setup config fr)
      (fun hash later => hash = sha256 data ∧ account.Agrees later) state := by
  have hkept {before after : Bridge} (haside : Aside before after) :
      after.sha256 owner = before.sha256 owner := by
    cases owner with
    | frameConverter => exact haside.frameConverter
    | gotCanMessages => exact haside.gotCanMessages
    | frameQueue => exact absurd rfl howner
  intro first hfirst
  refine ⟨hwithin.guarantee h hfirst _, fun _ _ => ?_⟩
  have hreset := (h.aside hfirst).setSha owner SHA256.reset
  intro second hsecond
  refine ⟨hwithin.guarantee hreset hsecond _, fun _ _ => ?_⟩
  have hadd := (hreset.aside hsecond).setSha owner ((second.sha256 owner).add data)
  intro third hthird
  refine ⟨hwithin.guarantee hadd hthird _, fun _ _ last hlast => ?_⟩
  refine ⟨?_, (hadd.aside hthird).aside hlast⟩
  have hsecond' : second.sha256 owner = SHA256.reset :=
    (hkept hsecond).trans (first.sha256_setSha owner SHA256.reset)
  have hthird' : third.sha256 owner = SHA256.reset.add data := by
    refine (hkept hthird).trans ((second.sha256_setSha owner _).trans ?_)
    rw [hsecond']
  change (third.sha256 owner).getHash = sha256 data
  rw [hthird']
  rfl

theorem Agrees.storeAssign (h : account.Agrees state) {msg : CanMessage}
    (hnew : ¬ CanHashtable.HasHash account.mp (key msg.frame.id) msg.hash) :
    (account.put msg).Agrees { state with mp := state.mp.insert (key msg.frame.id) msg } where
  mp := by
    rw [put_mp, CanHashtable.putMap, if_neg hnew, h.mp]
  types := h.types
  registered := h.registered
  looked id hid := by
    refine (h.looked id hid).imp_right fun hmp => ?_
    rw [put_mp, CanHashtable.putMap, if_neg hnew]
    exact Std.ExtTreeMap.mem_insert.mpr (.inr hmp)
  received := h.received
  dequeued := h.dequeued
  transmitted := h.transmitted
  stored := h.stored

theorem put_of_hasHash {msg : CanMessage}
    (h : CanHashtable.HasHash account.mp (key msg.frame.id) msg.hash) :
    account.put msg = account := by
  rw [put, CanHashtable.putMap, if_pos h]

theorem ensures_storeAssign (hwithin : Within setup config fr account)
    (h : account.Agrees state) {msg : CanMessage}
    (hnew : ¬ CanHashtable.HasHash account.mp (key msg.frame.id) msg.hash) :
    (CanHashtable.storeAssign (key msg.frame.id) msg).Ensures bridge (accounting setup config fr)
      (fun _ later => (account.put msg).Agrees later) state := by
  intro later hlater
  refine ⟨hwithin.guarantee h hlater _, fun _ _ last hlast => ?_⟩
  exact ((h.aside hlater).storeAssign hnew).aside hlast

theorem ensures_writeNew (hwithin : Within setup config fr account) (h : account.Agrees state)
    (msg : CanMessage) :
    (CanHashtable.writeNew msg).Ensures bridge (accounting setup config fr)
      (fun _ later => (account.put msg).Agrees later) state := by
  intro found hfound
  refine ⟨hwithin.guarantee h hfound _, fun _ env => ?_⟩
  have hagrees := h.aside hfound
  change Prog.Ensures _ _ _ (ite (found.mp.contains (key msg.frame.id) = true) _ _) found
  cases hold : account.mp[key msg.frame.id]? with
  | none =>
      have hnew : ¬ CanHashtable.HasHash account.mp (key msg.frame.id) msg.hash := by
        simp [CanHashtable.HasHash, hold]
      rw [hagrees.mp, Std.ExtTreeMap.contains_eq_isSome_getElem?, hold]
      exact ensures_storeAssign hwithin hagrees hnew
  | some old =>
      have hhas : CanHashtable.HasHash account.mp (key msg.frame.id) msg.hash ↔
          old.hash = msg.hash := by
        simp [CanHashtable.HasHash, hold]
      rw [hagrees.mp, Std.ExtTreeMap.contains_eq_isSome_getElem?, hold]
      intro later hlater
      have hagrees' := hagrees.aside hlater
      have hindex : mapIndex later.mp (key msg.frame.id) .zero = (old, later.mp) := by
        rw [hagrees'.mp]
        exact mapIndex_of_some hold _
      refine ⟨hwithin.guarantee hagrees hlater _, fun _ env => ?_⟩
      simp only [bridge, hindex]
      change (if old.hash ≠ msg.hash then CanHashtable.storeAssign (key msg.frame.id) msg
        else pure ()).Ensures _ _ _ later
      by_cases heq : old.hash = msg.hash
      · rw [if_neg (not_not_intro heq), put_of_hasHash (hhas.mpr heq)]
        exact fun last hlast => hagrees'.aside hlast
      · rw [if_pos heq]
        exact ensures_storeAssign hwithin hagrees' fun hsame => heq (hhas.mp hsame)

theorem ensures_put (hwithin : Within setup config fr account)
    (h : account.Agrees state) (frame : CanFrame) (timestamp : Int) (syncTick : UInt64)
    (rs : MessageSend) :
    (CanHashtable.put frame timestamp syncTick rs).Ensures bridge (accounting setup config fr)
      (fun msg later => msg = CanHashtable.putResult frame timestamp syncTick rs ∧
        (account.put msg).Agrees later) state := by
  refine (ensures_digest hwithin h (by decide) frame.payload).bind (accounting_refl none) ?_
  rintro _ found ⟨rfl, hfound⟩
  refine (ensures_writeNew hwithin hfound _).bind (accounting_refl none) ?_
  exact fun _ later hlater last hlast => ⟨rfl, hlater.aside hlast⟩

/-! ### The document -/

theorem Agrees.look (h : account.Agrees state) (id : UInt16) :
    (account.look id).Agrees
      { state with typeRegister := CanFrameToJson.lookedUp state.typeRegister id } where
  mp := h.mp
  types other := by
    rw [look_typeRegister, CanFrameToJson.registeredType_lookedUp,
      CanFrameToJson.registeredType_lookedUp, h.types]
  registered other hother :=
    mem_lookedUp.mpr ((mem_lookedUp.mp hother).imp_left (h.registered other))
  looked other hother := by
    rcases mem_lookedUp.mp hother with hold | hid
    · exact (h.looked other hold).imp_left fun hmem => mem_lookedUp.mpr (.inl hmem)
    · exact .inl (mem_lookedUp.mpr (.inr hid))
  received := h.received
  dequeued := h.dequeued
  transmitted := h.transmitted
  stored := h.stored

theorem ensures_reportedHash (hwithin : Within setup config fr account)
    (h : account.Agrees state) (msg : CanMessage) :
    (CanFrameToJson.reportedHash msg).Ensures bridge (accounting setup config fr)
      (fun hash later => hash = CanFrameToJson.messageHash msg ∧ account.Agrees later) state := by
  unfold CanFrameToJson.reportedHash CanFrameToJson.messageHash
  split
  · exact ensures_digest hwithin h (by decide) msg.frame.payload
  · exact fun later hlater => ⟨rfl, h.aside hlater⟩

theorem ensures_convertFrame (hwithin : Within setup config fr account) {msg : CanMessage}
    (hwithin' : Within setup config fr (account.look (key msg.frame.id)))
    (h : account.Agrees state) :
    (CanFrameToJson.convertFrame msg).Ensures bridge (accounting setup config fr)
      (fun text later =>
        text = CanFrameToJson.messageText
          (CanFrameToJson.registeredType account.typeRegister (key msg.frame.id)) msg ∧
        (account.look (key msg.frame.id)).Agrees later) state := by
  intro found hfound
  refine ⟨hwithin.guarantee h hfound _, fun _ _ => ?_⟩
  intro later hlater
  have hagrees := (h.aside hfound).aside hlater
  refine ⟨hwithin.guarantee (h.aside hfound) hlater _, fun _ env => ?_⟩
  have hindex : (bridge (.typeIndex (key msg.frame.id)) env later).1 =
      CanFrameToJson.registeredType account.typeRegister (key msg.frame.id) := by
    rw [← hagrees.types, CanFrameToJson.registeredType, ← mapIndex_fst]
    rfl
  rw [hindex]
  refine (ensures_reportedHash hwithin' (hagrees.look _) msg).bind (accounting_refl none) ?_
  rintro _ last ⟨rfl, hlast⟩
  exact fun final hfinal => ⟨rfl, hlast.aside hfinal⟩

theorem Agrees.mapInsert (h : account.Agrees state) (fieldPrefix : Bytes) (id : UInt32)
    (text : Bytes) :
    Agrees { account with stored := account.stored ++ [(id, text)] }
      (state.mapInsert fieldPrefix id text) where
  mp := h.mp
  types := h.types
  registered := h.registered
  looked := h.looked
  received := h.received
  dequeued := h.dequeued
  transmitted := h.transmitted
  stored := congrArg (· ++ [(id, text)]) h.stored

theorem ensures_storeFrame {redis : RedisInterface} (henabled : redis.Enabled)
    (hwithin : Within setup config fr account) {msg : CanMessage}
    (hwithin' : Within setup config fr (account.look (key msg.frame.id)))
    (h : account.Agrees state) :
    (redis.storeFrame msg).Ensures bridge (accounting setup config fr)
      (fun _ later => (account.store msg).Agrees later) state := by
  have hjson : ∀ type, CanFrameToJson.messageText type msg ≠ [] :=
    fun type => CanFrameToJson.messageText_ne_nil type msg
  simp only [RedisInterface.storeFrame, henabled.1, henabled.2, Bool.not_true,
    Bool.false_eq_true, if_false]
  refine (ensures_convertFrame hwithin hwithin' h).bind (accounting_refl none) ?_
  rintro _ found ⟨rfl, hfound⟩
  rw [if_pos (hjson _)]
  intro later hlater
  refine ⟨hwithin'.guarantee hfound hlater _, fun _ _ last hlast => ?_⟩
  exact ((hfound.aside hlater).mapInsert redis.fieldPrefix msg.frame.id _).aside hlast

/-! ### The registration -/

theorem Agrees.register (h : account.Agrees state) {msg : CanMessage}
    (hnew : key msg.frame.id ∉ account.typeRegister) :
    (account.register msg).Agrees
      { state with
        typeRegister := state.typeRegister.insert (key msg.frame.id) msg.type } where
  mp := h.mp
  types id := by
    rw [register_typeRegister, insertIfNew_of_not_mem hnew, CanFrameToJson.registeredType,
      CanFrameToJson.registeredType, getElem?_insert, getElem?_insert]
    split
    · rfl
    · exact h.types id
  registered id hid := by
    rw [register_typeRegister, insertIfNew_of_not_mem hnew] at hid
    exact Std.ExtTreeMap.mem_insert.mpr ((Std.ExtTreeMap.mem_insert.mp hid).imp_right
      (h.registered id))
  looked id hid := by
    rw [register_typeRegister, insertIfNew_of_not_mem hnew]
    rcases Std.ExtTreeMap.mem_insert.mp hid with hnow | hold
    · exact .inl (Std.ExtTreeMap.mem_insert.mpr (.inl hnow))
    · exact (h.looked id hold).imp_left fun hmem => Std.ExtTreeMap.mem_insert.mpr (.inr hmem)
  received := h.received
  dequeued := h.dequeued
  transmitted := h.transmitted
  stored := h.stored

theorem ensures_autoRegister (hwithin : Within setup config fr account)
    (h : account.Agrees state) (hsettled : account.Settled) (msg : CanMessage) :
    (Main.autoRegister msg).Ensures bridge (accounting setup config fr)
      (fun _ later => (account.register msg).Agrees later) state := by
  intro found hfound
  have hagrees := h.aside hfound
  refine ⟨hwithin.guarantee h hfound _, fun _ env => ?_⟩
  change Prog.Ensures _ _ _ (ite (found.typeRegister.contains (key msg.frame.id) = true) _ _) found
  rw [hagrees.typeRegister_eq hsettled]
  split
  next hmem =>
    have hsame : account.register msg = account := by
      rw [Account.register, insertIfNew_of_mem (Std.ExtTreeMap.contains_iff_mem.mp hmem)]
    rw [hsame]
    exact fun later hlater => hagrees.aside hlater
  next hmem =>
    have hnew : key msg.frame.id ∉ account.typeRegister :=
      fun hid => hmem (Std.ExtTreeMap.contains_iff_mem.mpr hid)
    intro later hlater
    refine ⟨hwithin.guarantee hagrees hlater _, fun _ _ last hlast => ?_⟩
    exact ((hagrees.aside hlater).register hnew).aside hlast

/-! ### The pass -/

theorem Agrees.setLocals (h : account.Agrees state) (locals : MainLocals) :
    (account.setLocals locals).Agrees state :=
  ⟨h.mp, h.types, h.registered, h.looked, h.received, h.dequeued, h.transmitted, h.stored⟩

theorem after_append (passes : List Pass) (pass : Pass) :
    after setup config fr (passes ++ [pass]) = (after setup config fr passes).step setup pass := by
  rw [after, List.foldl_append]
  rfl

theorem within_of_amid (passes : List Pass) (pass : Pass) (hinOrder : account.InOrder)
    (h : Amid (after setup config fr passes) ((after setup config fr passes).step setup pass)
      account) : Within setup config fr account :=
  ⟨hinOrder, passes, pass, by rwa [after_append]⟩

theorem within_after (passes : List Pass) :
    Within setup config fr (after setup config fr passes) := by
  refine within_of_amid passes .idle (inOrder_after setup config fr passes) ?_
  constructor <;> exact .inl rfl

theorem balanced_of_agrees (passes : List Pass) (pass : Pass)
    (hstep : (after setup config fr passes).step setup pass = account)
    (h : account.Agrees state) : Balanced setup config fr account.locals state := by
  refine ⟨passes ++ [pass], ?_, ?_⟩
  · rw [after_append, hstep]
  · rw [after_append, hstep]
    exact h

theorem Balanced.aside {locals : MainLocals} {later : Bridge}
    (h : Balanced setup config fr locals state) (haside : Aside state later) :
    Balanced setup config fr locals later := by
  obtain ⟨passes, hlocals, hagrees⟩ := h
  exact ⟨passes, hlocals, hagrees.aside haside⟩

section Receive

variable {passes : List Pass} {frame : CanfdFrame}

theorem receive_of_accepted
    (hcheck : setup.idFilter.checkMessage (key (account.locals.fr.receive frame).id) = true)
    (timestamp : Int) :
    account.receive setup frame timestamp =
      (((account.read frame).put (account.incoming frame timestamp)).store
        (account.incoming frame timestamp)).setLocals
          ⟨account.locals.fr.receive frame, Main.countFrame account.locals.frameSyncCounter
            (account.locals.fr.receive frame)⟩ := by
  rw [receive, if_pos hcheck]

theorem receive_of_rejected
    (hcheck : ¬ setup.idFilter.checkMessage (key (account.locals.fr.receive frame).id) = true)
    (timestamp : Int) :
    account.receive setup frame timestamp =
      (account.read frame).setLocals
        { account.locals with fr := account.locals.fr.receive frame } := by
  rw [receive, if_neg hcheck]

theorem ensures_receiveFrame (h : ((after setup config fr passes).read frame).Agrees state) :
    (Main.receiveFrame setup (after setup config fr passes).locals frame).Ensures bridge
      (accounting setup config fr) (Balanced setup config fr) state := by
  unfold Main.receiveFrame
  dsimp only
  split
  next hcheck =>
    have hstep := receive_of_accepted hcheck
    have hinOrder := inOrder_after setup config fr passes
    -- at every call the account is on its way to the one after the pass
    have hwithin (timestamp : Int) {account : Account}
        (hsame : account.transmitted = (after setup config fr passes).transmitted ∧
          account.dequeued = (after setup config fr passes).dequeued)
        (h : Amid (after setup config fr passes)
          ((after setup config fr passes).receive setup frame timestamp) account) :
        Within setup config fr account :=
      within_of_amid passes (.received frame timestamp) (hinOrder.congr hsame) h
    simp only [hstep] at hwithin
    intro clock hclock
    have hread : Within setup config fr ((after setup config fr passes).read frame) := by
      refine hwithin 0 ⟨rfl, rfl⟩ ?_
      constructor <;> first | exact .inl rfl | exact .inr rfl
    refine ⟨hread.guarantee h hclock _, fun _ env => ?_⟩
    refine (ensures_put hread (h.aside hclock) _ env.now _ .got).bind (accounting_refl none) ?_
    rintro _ later ⟨rfl, hput⟩
    refine (ensures_storeFrame setup.enabled (hwithin env.now (by exact ⟨rfl, rfl⟩) ?_)
      (hwithin env.now (by exact ⟨rfl, rfl⟩) ?_) hput).bind (accounting_refl none) ?_
    · constructor <;> first | exact .inl rfl | exact .inr rfl
    · constructor <;> first | exact .inl rfl | exact .inr rfl
    intro _ stored hstored last hlast
    exact balanced_of_agrees passes (.received frame env.now) (hstep env.now)
      ((hstored.aside hlast).setLocals _)
  next hcheck =>
    intro last hlast
    exact balanced_of_agrees passes (.received frame 0) (receive_of_rejected hcheck 0)
      ((h.aside hlast).setLocals _)

end Receive

section Send

variable {passes : List Pass} {msg : CanMessage} {written : Bool}

theorem lookedUp_register (account : Account) (msg : CanMessage) :
    CanFrameToJson.lookedUp (account.register msg).typeRegister (key msg.frame.id) =
      (account.register msg).typeRegister :=
  CanFrameToJson.lookedUp_eq_self Std.ExtTreeMap.mem_insertIfNew_self

theorem ensures_recordSent
    (h : (((after setup config fr passes).dequeue msg).write msg.frame.transmit written).Agrees
      state) :
    (Main.recordSent setup (after setup config fr passes).locals.frameSyncCounter
      { msg with valid := true }).Ensures bridge (accounting setup config fr)
        (fun _ => Balanced setup config fr (after setup config fr passes).locals) state := by
  have hinOrder := (inOrder_after setup config fr passes).write msg written
  have hwithin (timestamp : Int) {account : Account}
      (hsame : account.transmitted = ((after setup config fr passes).write msg.frame.transmit
          written).transmitted ∧
        account.dequeued = ((after setup config fr passes).dequeue msg).dequeued)
      (h : Amid (after setup config fr passes)
        ((after setup config fr passes).send msg written timestamp) account) :
      Within setup config fr account :=
    within_of_amid passes (.sent msg written timestamp) (hinOrder.congr hsame) h
  have hlook := lookedUp_register (after setup config fr passes) msg
  have hwritten : Within setup config fr
      (((after setup config fr passes).dequeue msg).write msg.frame.transmit written) := by
    refine hwithin 0 ⟨rfl, rfl⟩ ?_
    constructor <;> first | exact .inl rfl | exact .inr rfl
  have hregister : Within setup config fr
      ((((after setup config fr passes).dequeue msg).write msg.frame.transmit written).register
        { msg with valid := true }) := by
    refine hwithin 0 ⟨rfl, rfl⟩ ⟨.inr hlook.symm, ?_, ?_, ?_, ?_, ?_⟩
    all_goals first | exact .inl rfl | exact .inr rfl
  refine (ensures_autoRegister hwritten h (settled_after setup config fr passes)
    { msg with valid := true }).bind (accounting_refl none) ?_
  intro _ registered hregistered clock hclock
  refine ⟨hregister.guarantee hregistered hclock _, fun _ env => ?_⟩
  refine (ensures_put hregister (hregistered.aside hclock) msg.frame env.now _
    msg.messageReceieved).bind (accounting_refl none) ?_
  rintro _ later ⟨rfl, hput⟩
  refine Prog.Ensures.mono (fun _ stored hstored => ?_)
    (ensures_storeFrame setup.enabled (hwithin env.now (by exact ⟨rfl, rfl⟩) ?_)
      (hwithin env.now (by exact ⟨rfl, rfl⟩) ?_) hput)
  · change Balanced setup config fr
      ((after setup config fr passes).send msg written env.now).locals stored
    exact balanced_of_agrees passes (.sent msg written env.now) rfl hstored
  · refine ⟨.inr hlook.symm, ?_, ?_, ?_, ?_, ?_⟩ <;> first | exact .inl rfl | exact .inr rfl
  · constructor <;> first | exact .inl rfl | exact .inr rfl

theorem Agrees.popped (h : account.Agrees state) (msg : CanMessage) (rest : List CanMessage) :
    (account.dequeue msg).Agrees (state.popped msg rest) :=
  ⟨h.mp, h.types, h.registered, h.looked, h.received, congrArg (· ++ [msg]) h.dequeued,
    h.transmitted, h.stored⟩

theorem Agrees.canWrite (h : account.Agrees state) (env : Env) (frame : CanfdFrame) :
    (account.write frame env.written).Agrees (state.canWrite env frame).2 :=
  ⟨h.mp, h.types, h.registered, h.looked, h.received, h.dequeued,
    congrArg (· ++ if env.written then [frame] else []) h.transmitted, h.stored⟩

theorem ensures_messageQueued (hwithin : Within setup config fr account)
    (h : account.Agrees state) :
    FrameSendQueue.messageQueued.Ensures bridge (accounting setup config fr)
      (fun _ later => account.Agrees later) state := by
  intro counted hcounted
  refine ⟨hwithin.guarantee h hcounted _, fun _ env last hlast => ?_⟩
  have hstate : (bridge .queueSize env counted).2 = counted := by rw [bridge]
  rw [hstate] at hlast
  exact (h.aside hcounted).aside hlast

theorem ensures_pop (hwithin : Within setup config fr account) (h : account.Agrees state) :
    FrameSendQueue.pop.Ensures bridge (accounting setup config fr)
      (fun front later =>
        match front with
        | some msg => (account.dequeue msg).Agrees later
        | none => account.Agrees later) state := by
  intro later hlater
  have hagrees := h.aside hlater
  refine ⟨hwithin.guarantee h hlater _, fun _ env => ?_⟩
  cases hqueue : later.messageQueue with
  | nil =>
      have hpop : bridge .queuePop env later = (none, later) := by
        simp only [bridge, Bridge.queuePop, hqueue]
      rw [hpop]
      exact fun last hlast => hagrees.aside hlast
  | cons msg rest =>
      have hpop : bridge .queuePop env later = (some msg, later.popped msg rest) := by
        simp only [bridge, Bridge.queuePop, hqueue]
      rw [hpop]
      exact fun last hlast => (hagrees.popped msg rest).aside hlast

theorem ensures_dequeue (hwithin : Within setup config fr account) (h : account.Agrees state) :
    FrameSendQueue.dequeue.Ensures bridge (accounting setup config fr)
      (fun msg later => (msg.valid = false ∧ account.Agrees later) ∨
        ∃ front, msg = { front with valid := true } ∧ (account.dequeue front).Agrees later)
      state := by
  refine (ensures_messageQueued hwithin h).bind (accounting_refl none) fun sz counted hcounted => ?_
  split
  · refine (ensures_pop hwithin hcounted).bind (accounting_refl none) fun front later hlater => ?_
    cases front with
    | none => exact fun last hlast => .inl ⟨rfl, Agrees.aside hlater hlast⟩
    | some msg => exact fun last hlast => .inr ⟨msg, rfl, Agrees.aside hlater hlast⟩
  · exact fun last hlast => .inl ⟨rfl, hcounted.aside hlast⟩

theorem ensures_sendMessage (h : (after setup config fr passes).Agrees state) :
    (Main.sendMessage setup (after setup config fr passes).locals.frameSyncCounter).Ensures bridge
      (accounting setup config fr)
      (fun _ => Balanced setup config fr (after setup config fr passes).locals) state := by
  have hwithin : Within setup config fr (after setup config fr passes) := within_after passes
  refine (ensures_messageQueued hwithin h).bind (accounting_refl none) fun sz counted hcounted => ?_
  split
  · refine (ensures_dequeue hwithin hcounted).bind (accounting_refl none) ?_
    rintro msg later (⟨hvalid, hlater⟩ | ⟨front, rfl, hlater⟩)
    · rw [if_neg (by rw [hvalid]; exact Bool.false_ne_true)]
      exact fun last hlast => ⟨passes, rfl, hlater.aside hlast⟩
    · rw [if_pos rfl]
      intro written hwritten
      refine ⟨Within.guarantee ?_ hlater hwritten _, fun _ env => ?_⟩
      · refine within_of_amid passes (.sent front true 0)
          ((inOrder_after setup config fr passes).dequeue front) ?_
        constructor <;> first | exact .inl rfl | exact .inr rfl
      · exact ensures_recordSent ((hlater.aside hwritten).canWrite env front.frame.transmit)
  · exact fun last hlast => ⟨passes, rfl, hcounted.aside hlast⟩

end Send

theorem Agrees.canRead (h : account.Agrees state) {env : Env} {frame : CanfdFrame}
    (hread : env.received = some frame) : (account.read frame).Agrees (state.canRead env).2 :=
  ⟨h.mp, h.types, h.registered, h.looked, by simp [h.received, hread], h.dequeued,
    h.transmitted, h.stored⟩

theorem Agrees.canRead_none (h : account.Agrees state) {env : Env} (hread : env.received = none) :
    account.Agrees (state.canRead env).2 :=
  ⟨h.mp, h.types, h.registered, h.looked, by simp [h.received, hread], h.dequeued,
    h.transmitted, h.stored⟩

theorem mainPass_eq (setup : Setup) (locals : MainLocals) : Main.mainPass setup locals =
    Main.read >>= fun received => received.elim
      (Main.sendMessage setup locals.frameSyncCounter >>= fun _ => return locals)
      (Main.receiveFrame setup locals) := by
  refine congrArg (Main.read >>= ·) (funext fun received => ?_)
  cases received with
  | some frame => rfl
  | none => rfl

theorem ensures_mainPass {locals : MainLocals} (h : Balanced setup config fr locals state) :
    (Main.mainPass setup locals).Ensures bridge (accounting setup config fr)
      (Balanced setup config fr) state := by
  obtain ⟨passes, rfl, hagrees⟩ := h
  rw [mainPass_eq]
  intro later hlater
  refine ⟨(within_after passes).guarantee hagrees hlater _, fun _ env => ?_⟩
  have hagrees' := hagrees.aside hlater
  change Prog.Ensures _ _ _ (env.received.elim _ _) (later.canRead env).2
  cases hread : env.received with
  | some frame => exact ensures_receiveFrame (hagrees'.canRead hread)
  | none =>
      refine (ensures_sendMessage (hagrees'.canRead_none hread)).bind (accounting_refl none) ?_
      exact fun _ _ hbalanced last hlast => hbalanced.aside hlast

end Ensures

/-! ## The other threads -/

/-- A request to send digests with the object of the queue and pushes. -/
def Posts : Section → Prop
  | .queuePush _ | .declareData => True
  | .shaReset owner | .shaAdd owner _ | .shaGetHash owner => owner = .frameQueue
  | _ => False

theorem uses_posts_push (msg : CanMessage) : (FrameSendQueue.push msg).Uses Posts :=
  Prog.uses_perform.mpr trivial

theorem uses_posts_enqueuePayload (undefined : Binary64.OutOfRange) (id : UInt32)
    (payload : Json) : (RestApi.enqueuePayload undefined id payload).Uses Posts := by
  have hdeclare : FrameSendQueue.declareData.Uses Posts := Prog.uses_perform.mpr trivial
  have hdigest (data : Bytes) : (digest .frameQueue data).Uses Posts := by
    refine Prog.Uses.bind (Prog.uses_perform.mpr rfl) fun _ => ?_
    refine Prog.Uses.bind (Prog.uses_perform.mpr rfl) fun _ => ?_
    exact Prog.uses_perform.mpr rfl
  unfold RestApi.enqueuePayload
  split
  · refine Prog.Uses.bind ?_ fun _ => trivial
    refine Prog.Uses.bind hdeclare fun declared => ?_
    refine Prog.Uses.bind (hdigest _) fun hash => ?_
    exact Prog.Uses.bind (uses_posts_push _) fun _ => trivial
  split
  · refine Prog.Uses.bind (Prog.Uses.bind hdeclare fun declared => ?_) fun _ => trivial
    exact Prog.Uses.bind (uses_posts_push _) fun _ => trivial
  split
  · refine Prog.Uses.bind (Prog.Uses.bind hdeclare fun declared => ?_) fun _ => trivial
    exact Prog.Uses.bind (uses_posts_push _) fun _ => trivial
  split
  · refine Prog.Uses.bind (Prog.Uses.bind hdeclare fun declared => ?_) fun _ => trivial
    exact Prog.Uses.bind (uses_posts_push _) fun _ => trivial
  · trivial

theorem uses_posts_postSend (undefined : Binary64.OutOfRange) (body : Bytes) :
    (RestApi.postSend undefined body).Uses Posts := by
  unfold RestApi.postSend
  split
  · trivial
  split
  · trivial
  split
  · trivial
  · exact Prog.Uses.bind (uses_posts_enqueuePayload undefined _ _) fun _ => trivial

def Pushless (op : Section) : Prop :=
  ∀ msg, op ≠ .queuePush msg

def Keeps : Thread → Section → Prop
  | .main => Pushless
  | .handler _ (.send _) => Posts
  | .worker => Threads.WorkerSection
  | .server => Threads.ServerSection
  | _ => fun _ => True

theorem uses_true {α : Type} (program : Code α) : program.Uses fun _ => True := by
  induction program with
  | ret value => trivial
  | call op next ih => exact ⟨trivial, ih⟩

theorem uses_keeps_body (program : Program) (thread : Thread) (value : Serving.Local thread) :
    (Serving.body program thread value).Uses (Keeps thread) := by
  cases thread with
  | main =>
      refine (Threads.uses_mainPass program.setup value).mono ?_
      rintro _ hop msg rfl
      exact hop
  | handler number request =>
      cases value with
      | some response => trivial
      | none =>
          cases request with
          | send body =>
              exact Prog.Uses.bind (uses_posts_postSend program.undefined body) fun _ => trivial
          | receive digits => exact uses_true _
          | list => exact uses_true _
  | worker => exact Threads.uses_workerTurn value
  | server => exact Prog.uses_perform.mpr rfl

section Others

variable {op : Section} {state : Bridge}

theorem aside_of_reads (h : Serving.Reads op state) (env : Env) :
    Aside state (bridge op env state).2 := by
  cases op with
  | storeIndex id =>
      have hstate : (bridge (.storeIndex id) env state).2 = state := by
        have hindex := mapIndex_of_some (Std.ExtTreeMap.getElem?_eq_some_getElem h)
          CanMessage.zero
        simp only [bridge, hindex]
      rw [hstate]
      exact .refl state
  | typeIndex id =>
      have hmem : id ∈ state.mp := h
      refine ⟨rfl, CanFrameToJson.registeredType_lookedUp state.typeRegister id,
        fun other hother => mem_lookedUp.mpr (.inl hother), fun other hother => ?_,
        rfl, rfl, rfl, rfl, rfl, rfl⟩
      rcases mem_lookedUp.mp hother with hold | rfl
      · exact .inl hold
      · exact .inr hmem
  | typeFind id | storeFind id | storeKeys => exact .refl state
  | _ => exact h.elim

theorem aside_of_posts (h : Posts op) (env : Env) : Aside state (bridge op env state).2 := by
  have hsha {owner : ShaOwner} (howner : owner = .frameQueue) (sha : SHA256) :
      Aside state (state.setSha owner sha) := by
    have hother {other : ShaOwner} (hne : other ≠ owner) :
        (state.setSha owner sha).sha256 other = state.sha256 other :=
      Function.update_of_ne hne _ _
    subst howner
    exact ⟨rfl, fun _ => rfl, fun _ h => h, fun _ h => .inl h, hother nofun, hother nofun,
      rfl, rfl, rfl, rfl⟩
  cases op with
  | shaReset owner => exact hsha h _
  | shaAdd owner data => exact hsha h _
  | queuePush msg =>
      exact ⟨rfl, fun _ => rfl, fun _ h => h, fun _ h => .inl h, rfl, rfl, rfl, rfl, rfl, rfl⟩
  | shaGetHash owner | declareData => exact .refl state
  | _ => exact h.elim

theorem aside_of_worker (h : Threads.WorkerSection op) (env : Env) :
    Aside state (bridge op env state).2 := by
  cases op with
  | mapTake | redisConnect | redisHmset batch | redisPublish field =>
      exact ⟨rfl, fun _ => rfl, fun _ h => h, fun _ h => .inl h, rfl, rfl, rfl, rfl, rfl, rfl⟩
  | _ => exact h.elim

theorem aside_of_server (h : Threads.ServerSection op) (env : Env) :
    Aside state (bridge op env state).2 := by
  obtain rfl : op = .redisLate := h
  exact ⟨rfl, fun _ => rfl, fun _ h => h, fun _ h => .inl h, rfl, rfl, rfl, rfl, rfl, rfl⟩

theorem aside_of_allowed {thread : Thread} (hthread : thread ≠ .main)
    (hkeeps : Keeps thread op) (hallowed : Serving.allowed thread op state) (env : Env) :
    Aside state (bridge op env state).2 := by
  cases thread with
  | main => exact absurd rfl hthread
  | handler number request =>
      cases request with
      | send body => exact aside_of_posts hkeeps env
      | receive digits => exact aside_of_reads hallowed env
      | list => exact aside_of_reads hallowed env
  | worker => exact aside_of_worker hkeeps env
  | server => exact aside_of_server hkeeps env

end Others

/-! ## Runs -/

section Runs

variable {program : Program} {config : ConfigParser} {fr : CanFrame} {pool : Serving}
variable {event : Thread × Env}

structure Accounted (program : Program) (config : ConfigParser) (fr : CanFrame)
    (pool : Serving) : Prop where
  consistent : Serving.Consistent pool
  keeps : pool.Respects Keeps
  main : (pool.current .main).Ensures bridge (accounting program.setup config fr)
    (Balanced program.setup config fr) pool.shared

theorem accounted_start (program : Program) (config : ConfigParser) (hash : StringMap)
    (fr : CanFrame) : Accounted program config fr (Serving.start config hash fr) where
  consistent := Serving.consistent_start config hash fr
  keeps thread := by cases thread <;> trivial
  main later hlater := by
    refine Balanced.aside ⟨[], rfl, ?_⟩ hlater
    exact ⟨rfl, fun _ => rfl, fun _ h => h, fun _ h => .inl h, rfl, rfl, rfl, rfl⟩

theorem Accounted.aside_step (h : Accounted program config fr pool) (hthread : event.1 ≠ .main) :
    Aside pool.shared (Serving.step program pool event).shared := by
  cases hcurrent : pool.current event.1 with
  | ret value =>
      rw [Serving.step, Pool.shared_step_ret event hcurrent]
      exact .refl _
  | call op next =>
      rw [Serving.step, Pool.shared_step_call event hcurrent]
      have hkeeps := h.keeps event.1
      rw [hcurrent] at hkeeps
      exact aside_of_allowed hthread hkeeps.1 (h.consistent.allowed hcurrent) event.2

theorem Accounted.step (h : Accounted program config fr pool) (event : Thread × Env) :
    Accounted program config fr (Serving.step program pool event) where
  consistent := h.consistent.step event
  keeps := h.keeps.step (uses_keeps_body program) event
  main :=
    Pool.ensures_step accounting_refl accounting_trans
      (fun _ _ hbalanced => ensures_mainPass hbalanced) (fun _ _ _ => trivial) h.aside_step h.main

theorem accounted_run (program : Program) (config : ConfigParser) (hash : StringMap)
    (fr : CanFrame) (schedule : List (Thread × Env)) :
    Accounted program config fr
      (runFrom (Serving.step program) (Serving.start config hash fr) schedule) :=
  runFrom_invariant _ (fun _ event h => h.step event) _ _
    (accounted_start program config hash fr)

theorem Accounted.within (h : Accounted program config fr pool) :
    ∃ account, Within program.setup config fr account ∧ account.Agrees pool.shared := by
  have hmain := h.main
  cases hcurrent : pool.current .main with
  | call op next =>
      rw [hcurrent] at hmain
      exact (hmain _ (accounting_refl _ _)).1
  | ret locals =>
      rw [hcurrent] at hmain
      obtain ⟨passes, -, hagrees⟩ := hmain _ (accounting_refl _ _)
      exact ⟨_, within_after passes, hagrees⟩

theorem Accounted.balanced (h : Accounted program config fr pool) {locals : MainLocals}
    (hcurrent : pool.current .main = .ret locals) :
    Balanced program.setup config fr locals pool.shared := by
  have hmain := h.main
  rw [hcurrent] at hmain
  exact hmain _ (accounting_refl _ _)

end Runs

end Account

end Can2Rest
