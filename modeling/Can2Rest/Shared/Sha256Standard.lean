import Can2Rest.Foundation.Sha2
import Can2Rest.Shared.Sha256

/-!
# The digest object computes SHA-256

The table of `processBlock` is the one of the standard, one line of a round is a
round, and however a message is cut into calls of `add`, the buffer and the hash
value are those of the whole message.
-/

namespace Can2Rest.Shared

open Can2Rest.Foundation

def Digest.words (s : Digest) : Sha2.Words := ⟨s.a, s.b, s.c, s.d, s.e, s.f, s.g, s.h⟩

theorem roundConstants_eq : roundConstants = Sha2.constants := by decide +kernel

theorem words_reset : SHA256.reset.hash.words = Sha2.initial := by decide +kernel

/-! ## Rounds -/

/-- The form in which `f2` computes the majority. -/
theorem maj_eq (x y z : UInt32) : ((x ||| y) &&& z) ||| (x &&& y) = Sha2.maj x y z := by
  apply UInt32.toBitVec_inj.mp
  ext i hi
  simp only [Sha2.maj, UInt32.toBitVec_or, UInt32.toBitVec_and, UInt32.toBitVec_xor,
    BitVec.getElem_or, BitVec.getElem_and, BitVec.getElem_xor]
  cases x.toBitVec[i] <;> cases y.toBitVec[i] <;> cases z.toBitVec[i] <;> rfl

theorem f1_eq (e f g : UInt32) : f1 e f g = Sha2.upperSigma1 e + Sha2.ch e f g := rfl

theorem f2_eq (a b c : UInt32) : f2 a b c = Sha2.upperSigma0 a + Sha2.maj a b c := by
  rw [← maj_eq]
  rfl

theorem words_roundStep (s : Digest) (kw : UInt32 × UInt32) :
    (roundStep s kw).words = Sha2.round s.words kw.1 kw.2 := by
  have hadd : s.h + f1 s.e s.f s.g + kw.1 + kw.2 =
      s.h + Sha2.upperSigma1 s.e + Sha2.ch s.e s.f s.g + kw.1 + kw.2 := by
    rw [f1_eq, ← UInt32.add_assoc s.h]
  simp only [roundStep, Sha2.round, Digest.words, hadd, f2_eq]

theorem words_rounds (rounds : List (UInt32 × UInt32)) (s : Digest) :
    (rounds.foldl roundStep s).words =
      rounds.foldl (fun s kw => Sha2.round s kw.1 kw.2) s.words := by
  induction rounds generalizing s with
  | nil => rfl
  | cons kw rounds ih => rw [List.foldl_cons, List.foldl_cons, ih, words_roundStep]

/-! ## The message schedule -/

theorem schedule_of_lt {t : Nat} (h : t < 16) (block : Bytes) :
    Sha2.schedule block t = Sha2.wordAt block t := by
  rw [Sha2.schedule, if_pos h]

theorem schedule_of_ge {t : Nat} (h : 16 ≤ t) (block : Bytes) :
    Sha2.schedule block t =
      Sha2.lowerSigma1 (Sha2.schedule block (t - 2)) + Sha2.schedule block (t - 7) +
        Sha2.lowerSigma0 (Sha2.schedule block (t - 15)) + Sha2.schedule block (t - 16) := by
  rw [Sha2.schedule, if_neg (Nat.not_lt.mpr h)]

/-- The first words of the schedule, the latest one first. -/
def latestFirst (block : Bytes) (count : Nat) : List UInt32 :=
  ((List.range count).map (Sha2.schedule block)).reverse

theorem latestFirst_succ (block : Bytes) (count : Nat) :
    latestFirst block (count + 1) = Sha2.schedule block count :: latestFirst block count := by
  simp [latestFirst, List.range_succ]

theorem getD_latestFirst (block : Bytes) {count i : Nat} (h : i < count) :
    (latestFirst block count).getD i 0 = Sha2.schedule block (count - 1 - i) := by
  induction count generalizing i with
  | zero => omega
  | succ count ih =>
      rw [latestFirst_succ]
      cases i with
      | zero => rfl
      | succ i =>
          rw [List.getD_cons_succ, ih (by omega)]
          congr 1
          omega

theorem extendWords_latestFirst (block : Bytes) (count : Nat) {start : Nat} (h : 16 ≤ start) :
    extendWords count (latestFirst block start) = latestFirst block (start + count) := by
  induction count generalizing start with
  | zero => rfl
  | succ count ih =>
      have hword : Sha2.schedule block start =
          Sha2.schedule block (start - 1 - 15) +
            Sha2.lowerSigma0 (Sha2.schedule block (start - 1 - 14)) +
              Sha2.schedule block (start - 1 - 6) +
                Sha2.lowerSigma1 (Sha2.schedule block (start - 1 - 1)) := by
        rw [schedule_of_ge h]
        simp only [Nat.sub_sub, Nat.reduceAdd]
        ac_rfl
      rw [extendWords, getD_latestFirst block (by omega), getD_latestFirst block (by omega),
        getD_latestFirst block (by omega), getD_latestFirst block (by omega)]
      change extendWords count
        ((Sha2.schedule block (start - 1 - 15) +
            Sha2.lowerSigma0 (Sha2.schedule block (start - 1 - 14)) +
              Sha2.schedule block (start - 1 - 6) +
                Sha2.lowerSigma1 (Sha2.schedule block (start - 1 - 1))) ::
          latestFirst block start) = _
      rw [← hword, ← latestFirst_succ, ih (by omega), Nat.add_right_comm]
      rfl

theorem or_shifted {a b n : Nat} (h : b < 2 ^ n) : a * 2 ^ n ||| b = a * 2 ^ n + b := by
  have hor := Nat.two_pow_add_eq_or_of_lt h a
  rw [Nat.mul_comm] at hor
  exact hor.symm

theorem toNat_shiftedByte (b : UInt8) {shift : UInt32} (h : shift.toNat ≤ 24) :
    (b.toUInt32 <<< shift).toNat = b.toNat * 2 ^ shift.toNat := by
  have hb : b.toNat < 2 ^ 8 := b.toNat_lt
  have hsmall : b.toNat * 2 ^ shift.toNat < 2 ^ 32 :=
    calc
      _ < 2 ^ 8 * 2 ^ 24 := Nat.mul_lt_mul_of_lt_of_le hb (Nat.pow_le_pow_right (by omega) h)
        (Nat.two_pow_pos 24)
      _ = 2 ^ 32 := by norm_num
  rw [UInt32.toNat_shiftLeft, UInt8.toNat_toUInt32, Nat.mod_eq_of_lt (by omega : _ < 32),
    Nat.shiftLeft_eq, Nat.mod_eq_of_lt hsmall]

theorem bigEndian_word (b0 b1 b2 b3 : UInt8) :
    ((b0.toUInt32 <<< 24) ||| (b1.toUInt32 <<< 16) ||| (b2.toUInt32 <<< 8) ||| b3.toUInt32) =
      UInt32.ofNat (b0.toNat * 2 ^ 24 + b1.toNat * 2 ^ 16 + b2.toNat * 2 ^ 8 + b3.toNat) := by
  have h0 := b0.toNat_lt
  have h1 := b1.toNat_lt
  have h2 := b2.toNat_lt
  have h3 := b3.toNat_lt
  have hlow : b2.toNat * 2 ^ 8 ||| b3.toNat = b2.toNat * 2 ^ 8 + b3.toNat := or_shifted h3
  have hmiddle : b1.toNat * 2 ^ 16 ||| (b2.toNat * 2 ^ 8 + b3.toNat) =
      b1.toNat * 2 ^ 16 + (b2.toNat * 2 ^ 8 + b3.toNat) := or_shifted (by omega)
  have hhigh : b0.toNat * 2 ^ 24 |||
      (b1.toNat * 2 ^ 16 + (b2.toNat * 2 ^ 8 + b3.toNat)) =
      b0.toNat * 2 ^ 24 + (b1.toNat * 2 ^ 16 + (b2.toNat * 2 ^ 8 + b3.toNat)) :=
    or_shifted (by omega)
  have hsize : b0.toNat * 2 ^ 24 + b1.toNat * 2 ^ 16 + b2.toNat * 2 ^ 8 + b3.toNat <
      UInt32.size := by
    change _ < 4294967296
    omega
  apply UInt32.toNat_inj.mp
  rw [UInt32.toNat_or, UInt32.toNat_or, UInt32.toNat_or, toNat_shiftedByte b0 (by decide),
    toNat_shiftedByte b1 (by decide), toNat_shiftedByte b2 (by decide), UInt8.toNat_toUInt32,
    UInt32.toNat_ofNat_of_lt' hsize, Nat.or_assoc, Nat.or_assoc]
  change b0.toNat * 2 ^ 24 ||| (b1.toNat * 2 ^ 16 ||| (b2.toNat * 2 ^ 8 ||| b3.toNat)) = _
  rw [hlow, hmiddle, hhigh]
  omega

theorem wordAt_succ (b0 b1 b2 b3 : UInt8) (rest : Bytes) (t : Nat) :
    Sha2.wordAt (b0 :: b1 :: b2 :: b3 :: rest) (t + 1) = Sha2.wordAt rest t := by
  simp only [Sha2.wordAt, Nat.mul_add, Nat.mul_one, Nat.add_right_comm, List.getD_cons_succ]

theorem blockWords_eq {count : Nat} {block : Bytes} (h : block.length = 4 * count) :
    blockWords block = (List.range count).map (Sha2.wordAt block) := by
  induction count generalizing block with
  | zero =>
      rw [List.length_eq_zero_iff.mp h]
      rfl
  | succ count ih =>
      match block, h with
      | b0 :: b1 :: b2 :: b3 :: rest, h =>
          have hrest : rest.length = 4 * count := by
            simp only [List.length_cons] at h
            omega
          have htail : (List.range count).map
              (Sha2.wordAt (b0 :: b1 :: b2 :: b3 :: rest) ∘ Nat.succ) =
                (List.range count).map (Sha2.wordAt rest) :=
            List.map_congr_left fun t _ => wordAt_succ b0 b1 b2 b3 rest t
          rw [blockWords, ih hrest, bigEndian_word, List.range_succ_eq_map, List.map_cons,
            List.map_map, htail]
          rfl

theorem expandedWords_eq {block : Bytes} (h : block.length = 64) :
    (extendWords 48 (blockWords block).reverse).reverse =
      (List.range 64).map (Sha2.schedule block) := by
  have hfirst : (blockWords block).reverse = latestFirst block 16 := by
    rw [@blockWords_eq 16 block h, latestFirst]
    refine congrArg List.reverse (List.map_congr_left fun t ht => ?_)
    exact (schedule_of_lt (List.mem_range.mp ht) block).symm
  rw [hfirst, extendWords_latestFirst block 48 (Nat.le_refl 16), latestFirst, List.reverse_reverse]

theorem constants_eq : roundConstants = (List.range 64).map (Sha2.constants.getD · 0) := by
  rw [← roundConstants_eq]
  rfl

theorem words_processBlock (hash : Digest) {block : Bytes} (h : block.length = 64) :
    (processBlock hash block).words = Sha2.compress hash.words block := by
  have hrounds := words_rounds (roundConstants.zip
    (extendWords 48 (blockWords block).reverse).reverse) hash
  rw [expandedWords_eq h, constants_eq, List.zip_map'] at hrounds
  simp only [List.foldl_map] at hrounds
  rw [Sha2.compress, ← hrounds, processBlock, expandedWords_eq h, constants_eq, List.zip_map',
    List.foldl_map]
  rfl

/-! ## Blocks -/

theorem processBlocks_add (first second : Nat) (hash : Digest) (bytes : Bytes) :
    processBlocks (first + second) hash bytes =
      processBlocks second (processBlocks first hash bytes) (bytes.drop (64 * first)) := by
  induction first generalizing hash bytes with
  | zero => rw [Nat.zero_add, Nat.mul_zero, List.drop_zero, processBlocks]
  | succ first ih =>
      rw [Nat.add_right_comm, processBlocks, ih, processBlocks, List.drop_drop, Nat.add_comm 64,
        ← Nat.mul_succ]

theorem processBlocks_append {count : Nat} (hash : Digest) {first : Bytes}
    (h : 64 * count ≤ first.length) (second : Bytes) :
    processBlocks count hash (first ++ second) = processBlocks count hash first := by
  induction count generalizing hash first with
  | zero => rfl
  | succ count ih =>
      rw [processBlocks, processBlocks, List.take_append_of_le_length (by omega),
        List.drop_append_of_le_length (by omega),
        ih _ (by rw [List.length_drop]; omega)]

theorem words_processBlocks {count : Nat} {bytes : Bytes} (h : 64 * count ≤ bytes.length) :
    (processBlocks count SHA256.reset.hash bytes).words = Sha2.hashBlocks bytes count := by
  induction count with
  | zero => exact words_reset
  | succ count ih =>
      have hlength : ((bytes.drop (64 * count)).take 64).length = 64 := by
        rw [List.length_take, List.length_drop]
        omega
      rw [processBlocks_add, processBlocks, processBlocks, words_processBlock _ hlength,
        ih (by omega), Sha2.hashBlocks]

/-! ## Adding a message piece by piece -/

/-- The object has been given this message. -/
structure Absorbed (sha : SHA256) (message : Bytes) : Prop where
  numBytes : sha.numBytes = UInt64.ofNat (64 * (message.length / 64))
  buffer : sha.buffer = message.drop (64 * (message.length / 64))
  hash : sha.hash = processBlocks (message.length / 64) SHA256.reset.hash message

theorem absorbed_reset : Absorbed SHA256.reset [] := ⟨rfl, rfl, rfl⟩

namespace Absorbed

variable {sha : SHA256} {message : Bytes} (h : Absorbed sha message)

include h

theorem length_buffer : sha.buffer.length = message.length % 64 := by
  rw [h.buffer, List.length_drop]
  omega

theorem add (data : Bytes) : Absorbed (sha.add data) (message ++ data) := by
  have hbuffer := h.length_buffer
  have hpending : sha.buffer ++ data = (message ++ data).drop (64 * (message.length / 64)) := by
    rw [h.buffer, List.drop_append_of_le_length (by omega)]
  have hblocks : (message ++ data).length / 64 =
      message.length / 64 + (sha.buffer ++ data).length / 64 := by
    rw [List.length_append, List.length_append]
    omega
  refine ⟨?_, ?_, ?_⟩
  · rw [hblocks, Nat.mul_add, UInt64.ofNat_add, ← h.numBytes]
    rfl
  · rw [hblocks, Nat.mul_add, ← List.drop_drop, ← hpending]
    rfl
  · rw [hblocks, processBlocks_add, processBlocks_append _ (by omega), ← h.hash, ← hpending]
    rfl

theorem foldl_add (chunks : List Bytes) :
    Absorbed (chunks.foldl SHA256.add sha) (message ++ chunks.flatten) := by
  induction chunks generalizing sha message with
  | nil =>
      rw [List.flatten_nil, List.append_nil]
      exact h
  | cons chunk chunks ih =>
      rw [List.flatten_cons, ← List.append_assoc]
      exact ih (h.add chunk)

end Absorbed

theorem toUInt8_shiftRight (m : Nat) (shift : UInt64) (k : Nat) (h : shift.toNat = 8 * k)
    (hk : k < 8) : (UInt64.ofNat m >>> shift).toUInt8 = UInt8.ofNat (m / 256 ^ k) := by
  apply UInt8.toNat_inj.mp
  have hpow : 2 ^ (8 * k) = 256 ^ k := by rw [Nat.pow_mul]
  have hsplit : 2 ^ 64 = 256 ^ k * 256 ^ (8 - k) := by
    rw [← Nat.pow_add, Nat.add_sub_cancel' (Nat.le_of_lt hk)]
    rfl
  have hdvd : 256 ∣ 256 ^ (8 - k) := dvd_pow_self 256 (Nat.sub_ne_zero_of_lt hk)
  rw [UInt64.toNat_toUInt8, UInt64.toNat_shiftRight, UInt64.toNat_ofNat', UInt8.toNat_ofNat', h,
    Nat.mod_eq_of_lt (by omega : 8 * k < 64), Nat.shiftRight_eq_div_pow, hpow, hsplit,
    Nat.mod_mul_right_div_self, Nat.mod_mod_of_dvd _ hdvd]

theorem bigEndian64_ofNat (m : Nat) :
    SHA256.bigEndian64 (UInt64.ofNat m) = Sha2.bigEndian 8 m := by
  have hlast : (UInt64.ofNat m).toUInt8 = UInt8.ofNat (m / 256 ^ 0) := by
    rw [← toUInt8_shiftRight m 0 0 rfl (by decide)]
    simp
  rw [SHA256.bigEndian64, hlast, toUInt8_shiftRight m 56 7 rfl (by decide),
    toUInt8_shiftRight m 48 6 rfl (by decide), toUInt8_shiftRight m 40 5 rfl (by decide),
    toUInt8_shiftRight m 32 4 rfl (by decide), toUInt8_shiftRight m 24 3 rfl (by decide),
    toUInt8_shiftRight m 16 2 rfl (by decide), toUInt8_shiftRight m 8 1 rfl (by decide)]
  rfl

/-- The padding of the object, which is found from the number of bytes in the buffer. -/
theorem processBuffer_eq (sha : SHA256) {size : Nat} (h : sha.buffer.length = size % 64)
    (hbits : 8 * (sha.numBytes + UInt64.ofNat sha.buffer.length) = UInt64.ofNat (8 * size)) :
    sha.processBuffer =
      processBlocks ((sha.buffer ++ Sha2.padding size).length / 64) sha.hash
        (sha.buffer ++ Sha2.padding size) := by
  have hlt : size % 64 < 64 := Nat.mod_lt _ (by decide)
  have hzeros : ∀ n < 64, (8 * n + 1 + (if (8 * n + 1) % 512 ≤ 448 then 448 - (8 * n + 1) % 512
      else 512 + 448 - (8 * n + 1) % 512)) / 8 - n - 1 = (119 - n) % 64 := by decide
  have hblocks : ∀ n < 64, (if (8 * n + 1 + (if (8 * n + 1) % 512 ≤ 448 then
      448 - (8 * n + 1) % 512 else 512 + 448 - (8 * n + 1) % 512)) / 8 > 64 then 2 else 1) =
        (n + (1 + (119 - n) % 64 + 8)) / 64 := by decide
  have hlength : (sha.buffer ++ Sha2.padding size).length =
      size % 64 + (1 + (119 - size % 64) % 64 + 8) := by
    simp [Sha2.padding, Sha2.bigEndian, h]
    omega
  rw [hlength, ← hblocks _ hlt, SHA256.processBuffer]
  simp only [h] at hbits ⊢
  rw [hbits, bigEndian64_ofNat, hzeros _ hlt, Sha2.padding, List.append_assoc]

theorem Absorbed.words_processBuffer {sha : SHA256} {message : Bytes} (h : Absorbed sha message) :
    sha.processBuffer.words = Sha2.hash message := by
  have hbuffer := h.length_buffer
  have hbits : 8 * (sha.numBytes + UInt64.ofNat sha.buffer.length) =
      UInt64.ofNat (8 * message.length) := by
    rw [h.numBytes, hbuffer, ← UInt64.ofNat_add, Nat.div_add_mod, UInt64.ofNat_mul]
    rfl
  have hpending : sha.buffer ++ Sha2.padding message.length =
      (message ++ Sha2.padding message.length).drop (64 * (message.length / 64)) := by
    rw [h.buffer, List.drop_append_of_le_length (by omega)]
  have hcount : (message ++ Sha2.padding message.length).length / 64 =
      message.length / 64 + (sha.buffer ++ Sha2.padding message.length).length / 64 := by
    rw [List.length_append, List.length_append]
    omega
  have hblocks := processBlocks_add (message.length / 64)
    ((sha.buffer ++ Sha2.padding message.length).length / 64) SHA256.reset.hash
    (message ++ Sha2.padding message.length)
  have hfirst := processBlocks_append SHA256.reset.hash (Nat.mul_div_le message.length 64)
    (Sha2.padding message.length)
  rw [hfirst, ← h.hash, ← hpending, ← hcount] at hblocks
  rw [processBuffer_eq sha hbuffer hbits, ← hblocks, words_processBlocks (by omega)]
  rfl

/-! ## The hex digits -/

theorem dec2hex_eq {n : Nat} (h : n < 16) :
    SHA256.dec2hex (UInt32.ofNat n) = (ascii "0123456789abcdef").getD n 0 := by
  have hdigits : ∀ n < 16,
      SHA256.dec2hex (UInt32.ofNat n) = (ascii "0123456789abcdef").getD n 0 := by decide
  exact hdigits n h

theorem nibble_eq (word : UInt32) (shift : UInt32) (k : Nat) (h : shift.toNat = 4 * k)
    (hk : k < 8) : SHA256.dec2hex ((word >>> shift) &&& 15) =
      (ascii "0123456789abcdef").getD (word.toNat / 16 ^ k % 16) 0 := by
  have hpow : 2 ^ (4 * k) = 16 ^ k := by rw [Nat.pow_mul]
  have hnibble : (word >>> shift) &&& 15 = UInt32.ofNat (word.toNat / 16 ^ k % 16) := by
    apply UInt32.toNat_inj.mp
    have hand := Nat.and_two_pow_sub_one_eq_mod (word.toNat / 16 ^ k) 4
    have hmod : word.toNat / 16 ^ k % 16 < 16 := Nat.mod_lt _ (by decide)
    rw [UInt32.toNat_and, UInt32.toNat_shiftRight, h, Nat.mod_eq_of_lt (by omega : 4 * k < 32),
      Nat.shiftRight_eq_div_pow, hpow, UInt32.toNat_ofNat_of_lt' (lt_trans hmod (by decide))]
    exact hand
  rw [hnibble, dec2hex_eq (Nat.mod_lt _ (by decide))]

theorem wordHex_eq (word : UInt32) :
    SHA256.wordHex word = Sha2.hexText (Sha2.bigEndian 4 word.toNat) := by
  have hbyte (k : Nat) : (UInt8.ofNat (word.toNat / 256 ^ k)).toNat / 16 =
        word.toNat / 16 ^ (2 * k + 1) % 16 ∧
      (UInt8.ofNat (word.toNat / 256 ^ k)).toNat % 16 = word.toNat / 16 ^ (2 * k) % 16 := by
    have hpow : 256 ^ k = 16 ^ (2 * k) := by rw [Nat.pow_mul]
    have hnext : word.toNat / 16 ^ (2 * k + 1) = word.toNat / 16 ^ (2 * k) / 16 := by
      rw [Nat.pow_succ, Nat.div_div_eq_div_mul]
    rw [hpow, hnext, UInt8.toNat_ofNat']
    constructor <;> omega
  have htext : Sha2.hexText (Sha2.bigEndian 4 word.toNat) =
      [3, 2, 1, 0].flatMap fun k =>
        [(ascii "0123456789abcdef").getD (word.toNat / 16 ^ (2 * k + 1) % 16) 0,
          (ascii "0123456789abcdef").getD (word.toNat / 16 ^ (2 * k) % 16) 0] := by
    simp only [← (hbyte _).1, ← (hbyte _).2]
    rfl
  rw [htext, SHA256.wordHex]
  simp only [List.map_cons, List.map_nil, nibble_eq word 28 7 rfl (by decide),
    nibble_eq word 24 6 rfl (by decide), nibble_eq word 20 5 rfl (by decide),
    nibble_eq word 16 4 rfl (by decide), nibble_eq word 12 3 rfl (by decide),
    nibble_eq word 8 2 rfl (by decide), nibble_eq word 4 1 rfl (by decide),
    nibble_eq word 0 0 rfl (by decide)]
  rfl

theorem hexText_append (first second : Bytes) :
    Sha2.hexText (first ++ second) = Sha2.hexText first ++ Sha2.hexText second :=
  List.flatMap_append

theorem getHash_eq (sha : SHA256) : sha.getHash = Sha2.hexText sha.processBuffer.words.bytes := by
  simp only [SHA256.getHash, Sha2.Words.bytes, List.flatMap_cons, List.flatMap_nil, wordHex_eq,
    hexText_append]
  rfl

/-- However a message is cut into pieces, the object prints its SHA-256 digest. -/
theorem getHash_foldl_add (chunks : List Bytes) :
    (chunks.foldl SHA256.add SHA256.reset).getHash = Sha2.hexDigest chunks.flatten := by
  have habsorbed := absorbed_reset.foldl_add chunks
  rw [List.nil_append] at habsorbed
  rw [getHash_eq, habsorbed.words_processBuffer]
  rfl

theorem sha256_eq (data : Bytes) : sha256 data = Sha2.hexDigest data := by
  have hchunks := getHash_foldl_add [data]
  rwa [List.flatten_singleton] at hchunks

end Can2Rest.Shared
