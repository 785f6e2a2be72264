import Can2Rest.Foundation.Text

/-!
# The digest object of `SHARED/hash-library`

`m_buffer` is kept as its valid bytes only.  `getHash` pads a copy: the source
pads in place beyond the valid bytes and restores `m_hash`, which is the same to
every later call.
-/

namespace Can2Rest.Shared

open Can2Rest.Foundation

/-- The eight words of `m_hash`. -/
structure Digest where
  a : UInt32
  b : UInt32
  c : UInt32
  d : UInt32
  e : UInt32
  f : UInt32
  g : UInt32
  h : UInt32
  deriving DecidableEq

structure SHA256 where
  numBytes : UInt64
  buffer : Bytes
  hash : Digest
  deriving DecidableEq

def rotate (a c : UInt32) : UInt32 := (a >>> c) ||| (a <<< (32 - c))

def f1 (e f g : UInt32) : UInt32 :=
  let term1 := rotate e 6 ^^^ rotate e 11 ^^^ rotate e 25
  let term2 := (e &&& f) ^^^ (~~~e &&& g)
  term1 + term2

def f2 (a b c : UInt32) : UInt32 :=
  let term1 := rotate a 2 ^^^ rotate a 13 ^^^ rotate a 22
  let term2 := ((a ||| b) &&& c) ||| (a &&& b)
  term1 + term2

def roundConstants : List UInt32 :=
  [0x428a2f98, 0x71374491, 0xb5c0fbcf, 0xe9b5dba5, 0x3956c25b, 0x59f111f1,
   0x923f82a4, 0xab1c5ed5, 0xd807aa98, 0x12835b01, 0x243185be, 0x550c7dc3,
   0x72be5d74, 0x80deb1fe, 0x9bdc06a7, 0xc19bf174, 0xe49b69c1, 0xefbe4786,
   0x0fc19dc6, 0x240ca1cc, 0x2de92c6f, 0x4a7484aa, 0x5cb0a9dc, 0x76f988da,
   0x983e5152, 0xa831c66d, 0xb00327c8, 0xbf597fc7, 0xc6e00bf3, 0xd5a79147,
   0x06ca6351, 0x14292967, 0x27b70a85, 0x2e1b2138, 0x4d2c6dfc, 0x53380d13,
   0x650a7354, 0x766a0abb, 0x81c2c92e, 0x92722c85, 0xa2bfe8a1, 0xa81a664b,
   0xc24b8b70, 0xc76c51a3, 0xd192e819, 0xd6990624, 0xf40e3585, 0x106aa070,
   0x19a4c116, 0x1e376c08, 0x2748774c, 0x34b0bcb5, 0x391c0cb3, 0x4ed8aa4a,
   0x5b9cca4f, 0x682e6ff3, 0x748f82ee, 0x78a5636f, 0x84c87814, 0x8cc70208,
   0x90befffa, 0xa4506ceb, 0xbef9a3f7, 0xc67178f2]

/-- Extend the message schedule by `count` words; the latest word stands first. -/
def extendWords : Nat → List UInt32 → List UInt32
  | 0, words => words
  | count + 1, words =>
      let w2 := words.getD 1 0
      let w15 := words.getD 14 0
      extendWords count
        ((words.getD 15 0 +
          (rotate w15 7 ^^^ rotate w15 18 ^^^ (w15 >>> 3)) +
          words.getD 6 0 +
          (rotate w2 17 ^^^ rotate w2 19 ^^^ (w2 >>> 10))) :: words)

def blockWords : Bytes → List UInt32
  | b0 :: b1 :: b2 :: b3 :: rest =>
      ((b0.toUInt32 <<< 24) ||| (b1.toUInt32 <<< 16) |||
        (b2.toUInt32 <<< 8) ||| b3.toUInt32) :: blockWords rest
  | _ => []

/--
One line of a round.  The source renames `a` to `h` from line to line instead
of moving the values.
-/
def roundStep (s : Digest) (kw : UInt32 × UInt32) : Digest :=
  let x := s.h + f1 s.e s.f s.g + kw.1 + kw.2
  let y := f2 s.a s.b s.c
  ⟨x + y, s.a, s.b, s.c, s.d + x, s.e, s.f, s.g⟩

def processBlock (hash : Digest) (block : Bytes) : Digest :=
  let words := (extendWords 48 (blockWords block).reverse).reverse
  let s := (roundConstants.zip words).foldl roundStep hash
  ⟨hash.a + s.a, hash.b + s.b, hash.c + s.c, hash.d + s.d,
    hash.e + s.e, hash.f + s.f, hash.g + s.g, hash.h + s.h⟩

/-- `processBlock` over the first `count` blocks of a byte string. -/
def processBlocks : Nat → Digest → Bytes → Digest
  | 0, hash, _ => hash
  | count + 1, hash, bytes =>
      processBlocks count (processBlock hash (bytes.take 64)) (bytes.drop 64)

namespace SHA256

def reset : SHA256 where
  numBytes := 0
  buffer := []
  hash := ⟨0x6a09e667, 0xbb67ae85, 0x3c6ef372, 0xa54ff53a,
    0x510e527f, 0x9b05688c, 0x1f83d9ab, 0x5be0cd19⟩

def add (sha : SHA256) (data : Bytes) : SHA256 :=
  let pending := sha.buffer ++ data
  let blocks := pending.length / 64
  { numBytes := sha.numBytes + UInt64.ofNat (64 * blocks)
    buffer := pending.drop (64 * blocks)
    hash := processBlocks blocks sha.hash pending }

def bigEndian64 (n : UInt64) : Bytes :=
  [(n >>> 56).toUInt8, (n >>> 48).toUInt8, (n >>> 40).toUInt8,
   (n >>> 32).toUInt8, (n >>> 24).toUInt8, (n >>> 16).toUInt8,
   (n >>> 8).toUInt8, n.toUInt8]

def processBuffer (sha : SHA256) : Digest :=
  let size := sha.buffer.length
  let lower11Bits := (8 * size + 1) % 512
  let paddedLength :=
    (8 * size + 1 +
      (if lower11Bits ≤ 448 then 448 - lower11Bits
       else 512 + 448 - lower11Bits)) / 8
  let msgBits := 8 * (sha.numBytes + UInt64.ofNat size)
  let padded :=
    sha.buffer ++ 128 :: List.replicate (paddedLength - size - 1) 0 ++
      bigEndian64 msgBits
  processBlocks (if paddedLength > 64 then 2 else 1) sha.hash padded

def dec2hex (nibble : UInt32) : UInt8 :=
  if nibble < 10 then 48 + nibble.toUInt8 else 87 + nibble.toUInt8

def wordHex (word : UInt32) : Bytes :=
  [28, 24, 20, 16, 12, 8, 4, 0].map fun (shift : UInt32) =>
    dec2hex ((word >>> shift) &&& 15)

/-- The digest of what was added, as 64 hex characters. -/
def getHash (sha : SHA256) : Bytes :=
  let s := sha.processBuffer
  [s.a, s.b, s.c, s.d, s.e, s.f, s.g, s.h].flatMap wordHex

theorem length_getHash (sha : SHA256) : sha.getHash.length = 64 := by
  simp [getHash, wordHex]

theorem getHash_ne_nil (sha : SHA256) : sha.getHash ≠ [] := by
  intro h
  simpa [h] using sha.length_getHash

end SHA256

/-- `SHA256::operator()` on a memory block, as a function of the block. -/
def sha256 (data : Bytes) : Bytes := (SHA256.reset.add data).getHash

theorem sha256_ne_nil (data : Bytes) : sha256 data ≠ [] :=
  SHA256.getHash_ne_nil _

end Can2Rest.Shared
