import Can2Rest.Bridge

/-!
# Type registry and JSON conversion

This file models `can_frame_to_json.cpp`.  The registry is read through
`std::map::operator[]`, so a conversion registers `NONE` for an identifier that
has no type yet.
-/

namespace Can2Rest

open Foundation Shared

namespace CanFrameToJson

def checkKeyExists (id : UInt16) : Code Bool :=
  Prog.perform (I := Sections) (.typeFind id)

/-- `type_register[id]`. -/
def typeIndex (id : UInt16) : Code ConversationType :=
  Prog.perform (I := Sections) (.typeIndex id)

def registerConversion (id : UInt16) (type : ConversationType) : Code Unit :=
  Prog.perform (I := Sections) (.typeAssign id type)

/-- `INTERPRET_NONE_TYPE_FRAMES_AS_RAW`. -/
def interpretNone (type : ConversationType) : ConversationType :=
  if type = .none then .raw else type

def frameDataToVector (frame : CanFrame) : Json :=
  .array (frame.payload.map fun b => .int b.toNat)

/--
The `payload` member of the parsed data.  `INT`, `BOOL` and `BYTE` read fixed
positions of the buffer, whatever `len` is.  The enumerator `Json::NUL` that
the other types keep has no constructor of its own: overload resolution
promotes it, and it is the number 0.
-/
def parsedPayload (type : ConversationType) (frame : CanFrame) : Json :=
  match type with
  | .int => .int frame.word
  | .bool => .bool (frame.firstByte != 0)
  | .byte => .int frame.firstByte.toNat
  | .str => .string frame.payload
  | .raw => .int 0
  | .none => .int 0

def infoJson (type : ConversationType) (hash : Bytes) (msg : CanMessage) : Json :=
  .ofMembers
    [(ascii "type", .string type.name),
     (ascii "type_raw", .int type.toInt),
     (ascii "direction", .string msg.messageReceieved.name),
     (ascii "direction_raw", .int msg.messageReceieved.toInt),
     (ascii "id", .int (asInt msg.frame.id.toNat)),
     (ascii "sync_tick", .int (asInt msg.syncTick.toNat)),
     (ascii "raw_length", .int msg.frame.len.toNat),
     (ascii "raw_data", frameDataToVector msg.frame),
     (ascii "payload_hash", .string hash)]

def completeJson (type : ConversationType) (hash : Bytes) (msg : CanMessage) :
    Json :=
  .ofMembers
    [(ascii "info", infoJson type hash msg),
     (ascii "parsed_data",
       .ofMembers [(ascii "payload", parsedPayload type msg.frame)])]

/-- The hash that is reported: the one of the message, or one computed now. -/
def reportedHash (msg : CanMessage) : Code Bytes :=
  if msg.hash = [] then digest .frameConverter msg.frame.payload
  else pure msg.hash

def convertFrame (msg : CanMessage) : Code Bytes := do
  -- the answer only decides whether a warning is logged
  let _ ← checkKeyExists (key msg.frame.id)
  let registered ← typeIndex (key msg.frame.id)
  let type := interpretNone registered
  let hash ← reportedHash msg
  return (completeJson type hash msg).dump

/-! ## What a conversion returns -/

/-- The type that `convert_frame` finds for an identifier. -/
def registeredType (register : TypeRegister) (id : UInt16) : ConversationType :=
  register[id]?.getD .none

def lookedUp (register : TypeRegister) (id : UInt16) : TypeRegister :=
  (mapIndex register id .none).2

def messageHash (msg : CanMessage) : Bytes :=
  if msg.hash = [] then Shared.sha256 msg.frame.payload else msg.hash

def messageJson (type : ConversationType) (msg : CanMessage) : Json :=
  completeJson (interpretNone type) (messageHash msg) msg

def messageText (type : ConversationType) (msg : CanMessage) : Bytes :=
  (messageJson type msg).dump

def infoId (document : Json) : Option Json :=
  (document.member (ascii "info")).bind (Json.member (ascii "id"))

def dataPayload (document : Json) : Option Json :=
  (document.member (ascii "parsed_data")).bind (Json.member (ascii "payload"))

theorem infoId_messageJson (type : ConversationType) (msg : CanMessage) :
    infoId (messageJson type msg) = some (.int (asInt msg.frame.id.toNat)) := rfl

theorem dataPayload_messageJson (type : ConversationType) (msg : CanMessage) :
    dataPayload (messageJson type msg) =
      some (parsedPayload (interpretNone type) msg.frame) := rfl

theorem messageText_ne_nil (type : ConversationType) (msg : CanMessage) :
    messageText type msg ≠ [] := by
  simp [messageText, messageJson, completeJson, Json.ofMembers, Json.dump, ascii]

theorem getElem?_lookedUp (register : TypeRegister) (id other : UInt16) :
    (lookedUp register id)[other]? =
      if id = other then some (registeredType register id)
      else register[other]? :=
  getElem?_mapIndex register id other .none

theorem getElem?_lookedUp_of_ne (register : TypeRegister) {id other : UInt16}
    (h : id ≠ other) : (lookedUp register id)[other]? = register[other]? := by
  rw [getElem?_lookedUp, if_neg h]

theorem getElem?_lookedUp_of_some {register : TypeRegister} {other : UInt16}
    {type : ConversationType} (h : register[other]? = some type) (id : UInt16) :
    (lookedUp register id)[other]? = some type := by
  rw [getElem?_lookedUp]
  split
  next hid => rw [hid, registeredType, h, Option.getD_some]
  next => exact h

@[simp] theorem registeredType_lookedUp (register : TypeRegister)
    (id other : UInt16) :
    registeredType (lookedUp register id) other = registeredType register other := by
  rw [registeredType, getElem?_lookedUp]
  split
  next h => simp [h, registeredType]
  next h => rfl

theorem lookedUp_eq_self {register : TypeRegister} {id : UInt16}
    (h : id ∈ register) : lookedUp register id = register := by
  rw [lookedUp, mapIndex_of_some (Std.ExtTreeMap.getElem?_eq_some_getElem h) .none]

/-- The digest object after a conversion: used only when the message has no hash. -/
@[simps] def hashedState (state : Bridge) (msg : CanMessage) : Bridge :=
  { state with
    sha256 :=
      if msg.hash = [] then
        Function.update state.sha256 .frameConverter
          (SHA256.reset.add msg.frame.payload)
      else state.sha256 }

@[simps! typeRegister mp messageQueue writeMap redisServer history]
def converted (state : Bridge) (msg : CanMessage) : Bridge :=
  hashedState
    { state with typeRegister := lookedUp state.typeRegister (key msg.frame.id) } msg

@[simp] theorem run_checkKeyExists (env : Env) (id : UInt16) (state : Bridge) :
    (checkKeyExists id).run bridge env state =
      (state.typeRegister[id]?.isSome, state) := by
  rw [← Std.ExtTreeMap.contains_eq_isSome_getElem?]
  rfl

@[simp] theorem run_registerConversion (env : Env) (id : UInt16)
    (type : ConversationType) (state : Bridge) :
    (registerConversion id type).run bridge env state =
      ((), { state with typeRegister := state.typeRegister.insert id type }) :=
  rfl

@[simp] theorem run_typeIndex (env : Env) (id : UInt16) (state : Bridge) :
    (typeIndex id).run bridge env state =
      (registeredType state.typeRegister id,
       { state with typeRegister := lookedUp state.typeRegister id }) := by
  rw [registeredType, ← mapIndex_fst]
  rfl

theorem run_reportedHash (env : Env) (msg : CanMessage) (state : Bridge) :
    (reportedHash msg).run bridge env state =
      (messageHash msg, hashedState state msg) := by
  unfold reportedHash messageHash hashedState
  by_cases h : msg.hash = []
  · simp only [if_pos h, run_digest]
    rfl
  · simp only [if_neg h, Prog.run_pure]

@[simp] theorem run_convertFrame (env : Env) (msg : CanMessage)
    (state : Bridge) :
    (convertFrame msg).run bridge env state =
      (messageText (registeredType state.typeRegister (key msg.frame.id)) msg,
       converted state msg) := by
  simp only [convertFrame, Prog.run_bind, run_checkKeyExists, run_typeIndex,
    run_reportedHash, Prog.run_pure, messageText, messageJson, converted]

/-! ## Sections that leave the registry alone -/

def LeavesRegister : Section → Prop
  | .typeFind _ | .typeIndex _ | .typeAssign _ _ => False
  | _ => True

theorem bridge_of_leaves {op : Section} (hop : LeavesRegister op) (env : Env) (state : Bridge)
    (register : TypeRegister) :
    bridge op env { state with typeRegister := register } =
      ((bridge op env state).1,
        { (bridge op env state).2 with typeRegister := register }) := by
  cases op with
  | queuePop =>
      obtain ⟨_, _, messageQueue, _, _, _, _⟩ := state
      cases messageQueue <;> rfl
  | typeFind id => exact hop.elim
  | typeIndex id => exact hop.elim
  | typeAssign id type => exact hop.elim
  | queueSize => simp only [bridge]
  | _ => rfl

theorem typeRegister_of_leaves {op : Section} (hop : LeavesRegister op) (env : Env)
    (state : Bridge) : (bridge op env state).2.typeRegister = state.typeRegister := by
  have h := bridge_of_leaves hop env state state.typeRegister
  exact congrArg (fun outcome => outcome.2.typeRegister) h

end CanFrameToJson

end Can2Rest
