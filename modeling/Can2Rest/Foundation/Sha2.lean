import Mathlib.Data.Nat.NthRoot.Defs
import Mathlib.Data.Nat.Prime.Basic
import Can2Rest.Foundation.Text

/-!
# SHA-256

The hash function as the Secure Hash Standard defines it, on messages of whole
bytes.  The length of a message is taken modulo `2 ^ 64` bits.
-/

namespace Can2Rest.Foundation.Sha2

/-! ## Functions and constants -/

def rotr (n x : UInt32) : UInt32 := (x >>> n) ||| (x <<< (32 - n))

def ch (x y z : UInt32) : UInt32 := (x &&& y) ^^^ (~~~x &&& z)

def maj (x y z : UInt32) : UInt32 := (x &&& y) ^^^ (x &&& z) ^^^ (y &&& z)

def upperSigma0 (x : UInt32) : UInt32 := rotr 2 x ^^^ rotr 13 x ^^^ rotr 22 x

def upperSigma1 (x : UInt32) : UInt32 := rotr 6 x ^^^ rotr 11 x ^^^ rotr 25 x

def lowerSigma0 (x : UInt32) : UInt32 := rotr 7 x ^^^ rotr 18 x ^^^ (x >>> 3)

def lowerSigma1 (x : UInt32) : UInt32 := rotr 17 x ^^^ rotr 19 x ^^^ (x >>> 10)

def primes : List Nat := (List.range 312).filter fun n => Nat.Prime n

/-- The first 32 bits of the fractional part of a root of `n`. -/
def fractionBits (degree n : Nat) : UInt32 :=
  UInt32.ofNat (Nat.nthRoot degree (n * 2 ^ (32 * degree)))

def constants : List UInt32 := primes.map (fractionBits 3)

/-- The hash value, and the working variables of a round. -/
@[ext] structure Words where
  a : UInt32
  b : UInt32
  c : UInt32
  d : UInt32
  e : UInt32
  f : UInt32
  g : UInt32
  h : UInt32
  deriving DecidableEq

def Words.add (x y : Words) : Words :=
  ⟨x.a + y.a, x.b + y.b, x.c + y.c, x.d + y.d, x.e + y.e, x.f + y.f, x.g + y.g, x.h + y.h⟩

def initial : Words :=
  match (primes.take 8).map (fractionBits 2) with
  | [a, b, c, d, e, f, g, h] => ⟨a, b, c, d, e, f, g, h⟩
  | _ => ⟨0, 0, 0, 0, 0, 0, 0, 0⟩

/-! ## Preprocessing -/

def bigEndian (count n : Nat) : Bytes :=
  (List.range count).map fun i => UInt8.ofNat (n / 256 ^ (count - 1 - i))

/-- A one bit, as few zero bits as complete the last block, and the length in bits. -/
def padding (size : Nat) : Bytes :=
  128 :: List.replicate ((119 - size % 64) % 64) 0 ++ bigEndian 8 (8 * size)

def wordAt (block : Bytes) (t : Nat) : UInt32 :=
  UInt32.ofNat ((block.getD (4 * t) 0).toNat * 2 ^ 24 + (block.getD (4 * t + 1) 0).toNat * 2 ^ 16 +
    (block.getD (4 * t + 2) 0).toNat * 2 ^ 8 + (block.getD (4 * t + 3) 0).toNat)

/-! ## Computation -/

def schedule (block : Bytes) (t : Nat) : UInt32 :=
  if t < 16 then wordAt block t
  else
    lowerSigma1 (schedule block (t - 2)) + schedule block (t - 7) +
      lowerSigma0 (schedule block (t - 15)) + schedule block (t - 16)

def round (s : Words) (k w : UInt32) : Words :=
  let t1 := s.h + upperSigma1 s.e + ch s.e s.f s.g + k + w
  let t2 := upperSigma0 s.a + maj s.a s.b s.c
  ⟨t1 + t2, s.a, s.b, s.c, s.d + t1, s.e, s.f, s.g⟩

def compress (hash : Words) (block : Bytes) : Words :=
  hash.add ((List.range 64).foldl
    (fun s t => round s (constants.getD t 0) (schedule block t)) hash)

def hashBlocks (bytes : Bytes) : Nat → Words
  | 0 => initial
  | count + 1 => compress (hashBlocks bytes count) ((bytes.drop (64 * count)).take 64)

def hash (message : Bytes) : Words :=
  let padded := message ++ padding message.length
  hashBlocks padded (padded.length / 64)

def Words.bytes (x : Words) : Bytes :=
  [x.a, x.b, x.c, x.d, x.e, x.f, x.g, x.h].flatMap fun word => bigEndian 4 word.toNat

def hexText (bytes : Bytes) : Bytes :=
  let digits := ascii "0123456789abcdef"
  bytes.flatMap fun b => [digits.getD (b.toNat / 16) 0, digits.getD (b.toNat % 16) 0]

def hexDigest (message : Bytes) : Bytes := hexText (hash message).bytes

end Can2Rest.Foundation.Sha2
