import Can2Rest.Foundation.Text

/-!
# CAN frames and the socket of `SHARED/socketcan-cpp`

The data buffer of a frame has 64 bytes, of which `len` are valid.  No code of
the program makes a frame with a larger `len`: the kernel never reports one, and
the encoders clamp it, so the bound is part of the type.
-/

namespace Can2Rest.Shared

open Can2Rest.Foundation

/-- `scpp::CanFrame`. -/
structure CanFrame where
  id : UInt32
  len : UInt8
  flags : UInt8
  data : Vector UInt8 64
  len_le : len ≤ 64
  deriving DecidableEq

/-- `struct canfd_frame` of the kernel. -/
structure CanfdFrame where
  canId : UInt32
  len : UInt8
  flags : UInt8
  data : Vector UInt8 64
  len_le : len ≤ 64
  deriving DecidableEq

theorem zero_len_le : (0 : UInt8) ≤ 64 := by decide

theorem one_len_le : (1 : UInt8) ≤ 64 := by decide

theorem two_len_le : (2 : UInt8) ≤ 64 := by decide

/-- The valid bytes `data[0..len)`. -/
def CanFrame.payload (frame : CanFrame) : Bytes :=
  frame.data.toList.take frame.len.toNat

def CanfdFrame.payload (frame : CanfdFrame) : Bytes :=
  frame.data.toList.take frame.len.toNat

/-- `data[0]`, whatever `len` is. -/
def CanFrame.firstByte (frame : CanFrame) : UInt8 := frame.data[0]

/-- `(data[1] << 8) | data[0]`, whatever `len` is. -/
def CanFrame.word (frame : CanFrame) : Nat :=
  frame.data[1].toNat <<< 8 ||| frame.firstByte.toNat

/-- The first `n` bytes of `source` over those of `target`. -/
def memcpy (target source : Vector UInt8 64) (n : UInt8) : Vector UInt8 64 :=
  Vector.ofFn fun i => if i < n.toNat then source[i] else target[i]

/-- What the program tests of `SocketCanStatus` for reads and writes. -/
inductive SocketCanStatus where
  | ok
  | writeError
  | readError
  deriving DecidableEq

/-- The frame that `SocketCan::read` leaves in `msg` for a frame of the kernel. -/
def CanFrame.receive (msg : CanFrame) (frame : CanfdFrame) : CanFrame where
  id := frame.canId
  len := frame.len
  flags := frame.flags
  data := memcpy msg.data frame.data frame.len
  len_le := frame.len_le

/-- The frame that `SocketCan::write` hands to the kernel. -/
def CanFrame.transmit (msg : CanFrame) : CanfdFrame where
  canId := msg.id
  len := msg.len
  flags := msg.flags
  data := memcpy (Vector.replicate 64 0) msg.data msg.len
  len_le := msg.len_le

inductive SocketMode where
  | modeCanMtu
  | modeCanfdMtu
  deriving DecidableEq

/-- `CAN_MTU` or `CANFD_MTU`, the number of bytes that `::write` is given. -/
def SocketMode.mtu : SocketMode → Nat
  | .modeCanMtu => 16
  | .modeCanfdMtu => 72

/-- The valid bytes among those that `::write` is given; eight bytes are the header. -/
def CanFrame.carried (mode : SocketMode) (msg : CanFrame) : Bytes :=
  (msg.transmit.data.toList.take (mode.mtu - 8)).take msg.len.toNat

theorem getElem_memcpy {target source : Vector UInt8 64} {n : UInt8} {i : Nat}
    (hi : i < 64) (hn : i < n.toNat) :
    (memcpy target source n)[i] = source[i] := by
  simp [memcpy, hn]

theorem take_memcpy (target source : Vector UInt8 64) {n : UInt8} :
    (memcpy target source n).toList.take n.toNat =
      source.toList.take n.toNat := by
  apply List.ext_getElem
  · simp
  intro i hfirst hsecond
  simp only [List.length_take, Vector.length_toList] at hfirst
  rw [List.getElem_take, List.getElem_take, Vector.getElem_toList,
    Vector.getElem_toList]
  exact getElem_memcpy (by omega) (by omega)

@[simp] theorem id_receive (msg : CanFrame) (frame : CanfdFrame) :
    (msg.receive frame).id = frame.canId := rfl

@[simp] theorem len_receive (msg : CanFrame) (frame : CanfdFrame) :
    (msg.receive frame).len = frame.len := rfl

@[simp] theorem payload_receive (msg : CanFrame) (frame : CanfdFrame) :
    (msg.receive frame).payload = frame.payload :=
  take_memcpy _ _

@[simp] theorem payload_transmit (msg : CanFrame) :
    msg.transmit.payload = msg.payload :=
  take_memcpy _ _

theorem carried_eq_payload {mode : SocketMode} {frame : CanFrame}
    (h : frame.len.toNat ≤ mode.mtu - 8) : frame.carried mode = frame.payload := by
  rw [CanFrame.carried, List.take_take, min_eq_left h, ← payload_transmit]
  rfl

theorem length_payload (frame : CanFrame) :
    frame.payload.length = frame.len.toNat := by
  have hle := UInt8.le_iff_toNat_le.mp frame.len_le
  simp only [CanFrame.payload, List.length_take, Vector.length_toList]
  exact min_eq_left hle

theorem data_eq_of_payload {frame : CanFrame} {i : Nat} (hi : i < 64) {byte : UInt8}
    (h : frame.payload[i]? = some byte) : frame.data[i] = byte := by
  rw [CanFrame.payload, List.getElem?_take] at h
  split at h
  next =>
    rw [List.getElem?_eq_getElem (by simpa using hi), Vector.getElem_toList] at h
    exact Option.some.inj h
  next => cases h

theorem firstByte_eq {frame : CanFrame} {byte : UInt8} {rest : Bytes}
    (h : frame.payload = byte :: rest) : frame.firstByte = byte :=
  data_eq_of_payload (by decide) (by rw [h, List.getElem?_cons_zero])

theorem word_eq {frame : CanFrame} {low high : UInt8} {rest : Bytes}
    (h : frame.payload = low :: high :: rest) :
    frame.word = high.toNat <<< 8 ||| low.toNat := by
  have hhigh : frame.data[1] = high := by
    apply data_eq_of_payload (by decide)
    rw [h, List.getElem?_cons_succ, List.getElem?_cons_zero]
  rw [CanFrame.word, hhigh, firstByte_eq h]

theorem word_eq_add (frame : CanFrame) :
    frame.word = frame.data[1].toNat * 256 + frame.firstByte.toNat := by
  rw [CanFrame.word, ← Nat.shiftLeft_add_eq_or_of_lt (UInt8.toNat_lt _), Nat.shiftLeft_eq]

theorem firstByte_congr {first second : CanFrame} (h : first.payload = second.payload)
    (hlen : 1 ≤ first.len.toNat) : first.firstByte = second.firstByte := by
  cases hbytes : first.payload with
  | nil =>
      rw [← length_payload, hbytes] at hlen
      cases hlen
  | cons byte rest => rw [firstByte_eq hbytes, firstByte_eq (h ▸ hbytes)]

theorem word_congr {first second : CanFrame} (h : first.payload = second.payload)
    (hlen : 2 ≤ first.len.toNat) : first.word = second.word := by
  rw [← length_payload] at hlen
  cases hbytes : first.payload with
  | nil => simp [hbytes] at hlen
  | cons low rest =>
      cases rest with
      | nil => simp [hbytes] at hlen
      | cons high rest => rw [word_eq hbytes, word_eq (h ▸ hbytes)]

end Can2Rest.Shared
