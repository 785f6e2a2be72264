import Can2Rest.Shared.Json11
import Can2Rest.Shared.SocketCan

/-!
# CAN messages

A message is a frame with what the bridge records about it.  This file models
`can_message.h`.
-/

namespace Can2Rest

open Foundation Shared

/-- `CONVERSATION_TYPE`. -/
inductive ConversationType where
  | none
  | raw
  | int
  | byte
  | str
  | bool
  deriving DecidableEq

namespace ConversationType

def toInt : ConversationType → Int
  | .none => 0
  | .raw => 1
  | .int => 2
  | .byte => 3
  | .str => 4
  | .bool => 5

/-- `magic_enum::enum_name`. -/
def name : ConversationType → Bytes
  | .none => ascii "NONE"
  | .raw => ascii "RAW"
  | .int => ascii "INT"
  | .byte => ascii "BYTE"
  | .str => ascii "STR"
  | .bool => ascii "BOOL"

end ConversationType

/-- `MESSAGE_SEND`: the enumerators `SEND` and `GOT` are both the value 2. -/
inductive MessageSend where
  | invalid
  | send
  deriving DecidableEq

namespace MessageSend

abbrev got : MessageSend := .send

def toInt : MessageSend → Int
  | .invalid => 0
  | .send => 2

/-- `magic_enum::enum_name`: a value has the name of its first enumerator. -/
def name : MessageSend → Bytes
  | .invalid => ascii "INVALID"
  | .send => ascii "SEND"

end MessageSend

/-- `CAN_MESSAGE`. -/
structure CanMessage where
  frame : CanFrame
  syncTick : UInt64
  ts : Int
  hash : Bytes
  valid : Bool
  messageReceieved : MessageSend
  type : ConversationType
  deriving DecidableEq

/-- The value-initialised message that `std::map::operator[]` inserts. -/
def CanMessage.zero : CanMessage where
  frame := ⟨0, 0, 0, Vector.replicate 64 0, zero_len_le⟩
  syncTick := 0
  ts := 0
  hash := []
  valid := false
  messageReceieved := .invalid
  type := .none

/-- The narrowing of an identifier to the `unsigned short` of a parameter. -/
def key (id : UInt32) : UInt16 := id.toUInt16

theorem toNat_key (id : UInt32) : (key id).toNat = id.toNat % 2 ^ 16 :=
  UInt32.toNat_toUInt16 id

@[simp] theorem key_toUInt32 (id : UInt16) : key id.toUInt32 = id :=
  UInt16.toUInt16_toUInt32 id

theorem ofInt_natCast (n : Nat) : UInt16.ofInt n = UInt16.ofNat n := by
  apply UInt16.toNat.inj
  rw [UInt16.ofInt, UInt16.toNat_ofNat', UInt16.toNat_ofNat']
  omega

/-- The narrowing of an unsigned value to a 32-bit `int`. -/
def asInt (n : Nat) : Int := Int.bmod n (2 ^ 32)

theorem asInt_eq_self {n : Nat} (h : n < 2 ^ 31) : asInt n = n :=
  Int.bmod_eq_of_le (by omega) (by omega)

end Can2Rest
