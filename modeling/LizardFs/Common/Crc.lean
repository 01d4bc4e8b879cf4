import LizardFs.Lib.ReflectedCrc

/-!
# The CRC-32 of `crc.cc`

Model of the table-driven path of `src/common/crc.cc`, the one built without crcutil, on a
little-endian machine, and of the macros of `src/common/crc.h`. After `mycrc32_init` the tables
hold what `crc_generate_main_tables` and `crc_generate_combine_tables` compute; here they are
the functions `crcTable` and `crcCombineTable` of their indices.

`mycrc32` runs the bytes of a block before its first 4-aligned address one at a time, then
words of four bytes, 32 bytes a round while it can, and the last bytes one at a time. Every one
of these steps is the bitwise reflected CRC register of `ReflectedCrc` on the bytes it reads
(`crcOneByte_eq`, `crcFourBytes_eq`), so `mycrc32` is the bitwise CRC-32 whatever the block's
alignment (`mycrc32_eq`). `mycrc32_combine` multiplies by the matrices of `2^i` zero bytes
that repeated squaring of the one-bit matrix gives (`combineMatrix_isMatrixOf`), once for each
bit of the length, so it runs its first argument through that many zero bytes
(`mycrc32Combine_eq`). The concatenation law (`mycrc32_concat_combine`) follows from the
linearity of the register.
-/

namespace LizardFs

namespace Crc

open BitVec XorLinear ReflectedCrc

/-- `CRC_POLY` (`src/protocol/MFSCommunication.h`). -/
def crcPoly : BitVec 32 := 0xEDB88320

/-- The bitwise reflected CRC-32 with polynomial `CRC_POLY`, initial value and final xor
`0xFFFFFFFF`. -/
def bitwiseCrc32 (data : List (BitVec 8)) : BitVec 32 :=
  crcRegister crcPoly 0xFFFFFFFF data ^^^ 0xFFFFFFFF

/-! ## `crc_generate_main_tables` -/

/-- `crc_table[0][i]`: the eight steps `c = (c&1) ? (poly^(c>>1)) : (c>>1)` from `c = i`. -/
def crcTable0 (i : ℕ) : BitVec 32 := (crcBit crcPoly)^[8] (BitVec.ofNat 32 i)

/-- `crc_table[j][i]`: `c = crc_table[0][c&0xff]^(c>>8)` from `c = crc_table[j - 1][i]`. -/
def crcTable : ℕ → ℕ → BitVec 32
  | 0, i => crcTable0 i
  | j + 1, i => crcTable0 (crcTable j i &&& (0xff : BitVec 32)).toNat ^^^ (crcTable j i >>> 8)

/-! ## `mycrc32` -/

/-- `CRC_ONE_BYTE`: `crc = crc_table[0][(crc ^ *block++) & 0xFF] ^ (crc >> 8)`. -/
def crcOneByte (crc : BitVec 32) (b : BitVec 8) : BitVec 32 :=
  crcTable 0 ((crc ^^^ b.setWidth 32) &&& (0xff : BitVec 32)).toNat ^^^ (crc >>> 8)

/-- `*block4++`: four bytes read as a little-endian word. -/
def readWord (b0 b1 b2 b3 : BitVec 8) : BitVec 32 := b3 ++ b2 ++ b1 ++ b0

/-- `CRC_FOUR_BYTES` with the word `w` read from the block. -/
def crcFourBytes (crc w : BitVec 32) : BitVec 32 :=
  let crc := crc ^^^ w
  crcTable 3 (crc &&& (0xff : BitVec 32)).toNat ^^^
    crcTable 2 ((crc >>> 8) &&& (0xff : BitVec 32)).toNat ^^^
    crcTable 1 ((crc >>> 16) &&& (0xff : BitVec 32)).toNat ^^^ crcTable 0 (crc >>> 24).toNat

/-- `while (leng && ((unsigned long)block & 3)) CRC_ONE_BYTE`, the block at address `addr`. -/
def alignLoop : BitVec 32 → List (BitVec 8) → ℕ → BitVec 32 × List (BitVec 8)
  | crc, [], _ => (crc, [])
  | crc, b :: bs, addr =>
    if addr % 4 = 0 then (crc, b :: bs) else alignLoop (crcOneByte crc b) bs (addr + 1)

/-- `while (leng>=4) CRC_FOUR_BYTES`. -/
def wordLoop : BitVec 32 → List (BitVec 8) → BitVec 32 × List (BitVec 8)
  | crc, b0 :: b1 :: b2 :: b3 :: rest => wordLoop (crcFourBytes crc (readWord b0 b1 b2 b3)) rest
  | crc, rest => (crc, rest)

/-- `while (leng>=32)`: eight `CRC_FOUR_BYTES` a round, for `rounds` rounds. -/
def stripeLoop : ℕ → BitVec 32 → List (BitVec 8) → BitVec 32 × List (BitVec 8)
  | 0, crc, rest => (crc, rest)
  | rounds + 1, crc, rest => stripeLoop rounds (wordLoop crc (rest.take 32)).1 (rest.drop 32)

/-- `mycrc32(crc, block, leng)` on the `leng` bytes `block` at address `addr`. -/
def mycrc32 (crc : BitVec 32) (block : List (BitVec 8)) (addr : ℕ) : BitVec 32 :=
  let crc := crc ^^^ 0xFFFFFFFF
  let (crc, rest) := alignLoop crc block addr
  let (crc, rest) := stripeLoop (rest.length / 32) crc rest
  let (crc, rest) := wordLoop crc rest
  -- `if (leng) do CRC_ONE_BYTE while (--leng)`
  let crc := rest.foldl crcOneByte crc
  crc ^^^ 0xFFFFFFFF

/-! ## `crc_generate_combine_tables` -/

/-- `m1` as the loop first fills it: the columns of one zero bit through the register. -/
def oneBitMatrix (i : ℕ) : BitVec 32 := if i = 0 then crcPoly else (1 : BitVec 32) <<< (i - 1)

/-- `crc_matrix_square(sqr, m)`. -/
def crcMatrixSquare (m : ℕ → BitVec 32) : ℕ → BitVec 32 := fun i => columnsLoop m 32 0 (m i) 0

/-- `m1` and `m2` before round `i` of the table loop. -/
def combineMatrices : ℕ → (ℕ → BitVec 32) × (ℕ → BitVec 32)
  | 0 =>
    -- 1 bit -> 2 bits, then 2 bits -> 4 bits
    let m2 := crcMatrixSquare oneBitMatrix
    (crcMatrixSquare m2, m2)
  | i + 1 =>
    let (m1, m2) := combineMatrices i
    if i % 2 = 1 then (crcMatrixSquare m2, m2) else (m1, crcMatrixSquare m1)

/-- `mc` of round `i`: the matrix the round has just squared. -/
def combineMatrix (i : ℕ) : ℕ → BitVec 32 :=
  if i % 2 = 1 then (combineMatrices (i + 1)).1 else (combineMatrices (i + 1)).2

/-- `crc_combine_table[i][j][k]`: the columns `8 j, …` of `mc` that the bits of `k` select. -/
def crcCombineTable (i j k : ℕ) : BitVec 32 :=
  columnsLoop (combineMatrix i) 8 (j * 8) (BitVec.ofNat 32 k) 0

/-! ## `mycrc32_combine` -/

/-- The loop of `mycrc32_combine` from bit `i` of `leng2` on. -/
def combineLoop : ℕ → ℕ → BitVec 32 → ℕ → BitVec 32
  | 0, _, crc1, _ => crc1
  | fuel + 1, i, crc1, leng2 =>
    if leng2 = 0 then crc1
    else combineLoop fuel (i + 1)
      (if leng2 % 2 = 1 then
        crcCombineTable i 3 (crc1 >>> 24).toNat ^^^
          crcCombineTable i 2 ((crc1 >>> 16) &&& (0xff : BitVec 32)).toNat ^^^
          crcCombineTable i 1 ((crc1 >>> 8) &&& (0xff : BitVec 32)).toNat ^^^
          crcCombineTable i 0 (crc1 &&& (0xff : BitVec 32)).toNat
      else crc1) (leng2 / 2)

/-- `mycrc32_combine(crc1, crc2, leng2)`: `leng2` is a `uint32_t`, so the loop runs at most 32
rounds. -/
def mycrc32Combine (crc1 crc2 : BitVec 32) (leng2 : ℕ) : BitVec 32 :=
  combineLoop 32 0 crc1 leng2 ^^^ crc2

/-- `mycrc32_zeroblock(crc, zeros)`. -/
def mycrc32Zeroblock (crc : BitVec 32) (zeros : ℕ) : BitVec 32 :=
  mycrc32Combine (crc ^^^ 0xFFFFFFFF) 0xFFFFFFFF zeros

/-! ## The tables -/

/-- `crc_table[j][i]` is `i` through `j + 1` zero bytes. -/
theorem crcTable_eq : ∀ j i, crcTable j i = (zeroByte crcPoly)^[j + 1] (BitVec.ofNat 32 i)
  | 0, _ => rfl
  | j + 1, i => by
    rw [crcTable, crcTable_eq j i, crcTable0, BitVec.ofNat_toNat, BitVec.setWidth_eq,
      Function.iterate_succ_apply' _ (j + 1)]
    exact (zeroByte_eq crcPoly _).symm

theorem ofNat_toNat_eq (x : BitVec 32) : BitVec.ofNat 32 x.toNat = x := by
  rw [BitVec.ofNat_toNat, BitVec.setWidth_eq]

/-- `CRC_ONE_BYTE` is a byte through the register. -/
theorem crcOneByte_eq (crc : BitVec 32) (b : BitVec 8) :
    crcOneByte crc b = byteUpdate crcPoly crc b := by
  have hb : b.setWidth 32 >>> 8 = 0 := by
    apply BitVec.eq_of_toNat_eq
    rw [BitVec.toNat_ushiftRight, BitVec.toNat_setWidth, Nat.shiftRight_eq_div_pow,
      Nat.mod_eq_of_lt (by have := b.isLt; omega)]
    exact Nat.div_eq_of_lt b.isLt
  rw [crcOneByte, crcTable_eq, ofNat_toNat_eq, byteUpdate, zeroByte_eq crcPoly (crc ^^^ _),
    BitVec.ushiftRight_xor_distrib, hb, xor_ofNat_zero]
  rfl

theorem readWord_eq (b0 b1 b2 b3 : BitVec 8) :
    readWord b0 b1 b2 b3 = b0.setWidth 32 ^^^ (b1.setWidth 32 <<< 8) ^^^
      (b2.setWidth 32 <<< 16) ^^^ (b3.setWidth 32 <<< 24) := by
  apply BitVec.eq_of_getLsbD_eq
  intro i hi
  simp only [readWord, getLsbD_append, getLsbD_xor, getLsbD_shiftLeft, getLsbD_setWidth, hi,
    decide_true, Bool.true_and]
  -- which byte bit `i` lies in
  rcases (by omega : i < 8 ∨ (8 ≤ i ∧ i < 16) ∨ (16 ≤ i ∧ i < 24) ∨ (24 ≤ i ∧ i < 32)) with
    h0 | ⟨h1, h2⟩ | ⟨h1, h2⟩ | ⟨h1, h2⟩
  · simp [h0, show i < 16 by omega, show i < 24 by omega]
  · simp [h2, BitVec.getLsbD_of_ge b0 i h1, show i < 24 by omega, show ¬ i < 8 by omega,
      show i - 8 < 8 by omega, show i - 8 < 32 by omega]
  · simp [BitVec.getLsbD_of_ge b1 (i - 8) (by omega), show i < 24 by omega, show ¬ i < 16 by omega,
      show i - 8 - 8 = i - 16 by omega, show i - 16 < 8 by omega, show ¬ i - 8 < 8 by omega,
      show i - 16 < 32 by omega, show 8 ≤ i by omega]
  · simp [BitVec.getLsbD_of_ge b1 (i - 8) (by omega), BitVec.getLsbD_of_ge b2 (i - 16) (by omega),
      show ¬ i < 24 by omega, show ¬ i < 16 by omega, show ¬ i - 8 < 8 by omega,
      show i - 8 - 8 = i - 16 by omega, show ¬ i - 16 < 8 by omega,
      show i - 16 - 8 = i - 24 by omega, show i - 24 < 32 by omega, show 8 ≤ i by omega]

/-- `CRC_FOUR_BYTES` is four zero bytes through the register, the word xored in first. -/
theorem crcFourBytes_eq (crc w : BitVec 32) :
    crcFourBytes crc w = (zeroByte crcPoly)^[4] (crc ^^^ w) := by
  rw [crcFourBytes, crcTable_eq, crcTable_eq, crcTable_eq, crcTable_eq, ofNat_toNat_eq,
    ofNat_toNat_eq, ofNat_toNat_eq, ofNat_toNat_eq]
  exact (zeroByte_four crcPoly _).symm

/-- `CRC_FOUR_BYTES` on the word at `block4` is its four bytes through the register. -/
theorem crcFourBytes_readWord (crc : BitVec 32) (b0 b1 b2 b3 : BitVec 8) :
    crcFourBytes crc (readWord b0 b1 b2 b3) = crcRegister crcPoly crc [b0, b1, b2, b3] := by
  rw [crcFourBytes_eq, readWord_eq, crcRegister_word]

/-! ## The loops of `mycrc32`

Each loop takes the register and the bytes still to read to a register and fewer bytes, and
keeps what the rest of the run gives: the register of the bytes still to read, run from the
register so far. -/

/-- What the run gives from a register and the bytes still to read. -/
def pending (s : BitVec 32 × List (BitVec 8)) : BitVec 32 := crcRegister crcPoly s.1 s.2

theorem pending_cons (crc : BitVec 32) (b : BitVec 8) (rest : List (BitVec 8)) :
    pending (crc, b :: rest) = pending (crcOneByte crc b, rest) := by
  rw [pending, pending, crcOneByte_eq]
  rfl

theorem alignLoop_pending : ∀ (crc : BitVec 32) (data : List (BitVec 8)) (addr : ℕ),
    pending (alignLoop crc data addr) = crcRegister crcPoly crc data
  | _, [], _ => rfl
  | crc, b :: bs, addr => by
    rw [alignLoop]
    split
    · rfl
    · rw [alignLoop_pending]
      exact (pending_cons crc b bs).symm

theorem wordLoop_pending (crc : BitVec 32) (data : List (BitVec 8)) :
    pending (wordLoop crc data) = crcRegister crcPoly crc data := by
  fun_induction wordLoop crc data with
  | case1 crc b0 b1 b2 b3 rest ih =>
    rw [ih, crcFourBytes_readWord, ← crcRegister_append]
    rfl
  | case2 crc rest _ => rfl

/-- The word loop leaves the bytes past the last whole word. -/
theorem length_wordLoop (crc : BitVec 32) (data : List (BitVec 8)) :
    (wordLoop crc data).2.length = data.length % 4 := by
  fun_induction wordLoop crc data with
  | case1 crc b0 b1 b2 b3 rest ih =>
    rw [ih, List.length_cons, List.length_cons, List.length_cons, List.length_cons]
    omega
  | case2 crc rest hrest =>
    -- fewer than four bytes are left
    show rest.length = rest.length % 4
    match rest, hrest with
    | [], _ => rfl
    | [_], _ => rfl
    | [_, _], _ => rfl
    | [_, _, _], _ => rfl
    | b0 :: b1 :: b2 :: b3 :: rest, h => exact absurd rfl (h b0 b1 b2 b3 rest)

theorem stripeLoop_pending : ∀ (rounds : ℕ) (crc : BitVec 32) (rest : List (BitVec 8)),
    rounds * 32 ≤ rest.length → pending (stripeLoop rounds crc rest) = crcRegister crcPoly crc rest
  | 0, _, _, _ => rfl
  | rounds + 1, crc, rest, h => by
    -- a round reads 32 bytes, eight whole words
    have htake : (rest.take 32).length = 32 := by
      rw [List.length_take]
      omega
    have hwords : (wordLoop crc (rest.take 32)).2 = [] := by
      rw [← List.length_eq_zero_iff, length_wordLoop, htake]
    have hround : (wordLoop crc (rest.take 32)).1 = crcRegister crcPoly crc (rest.take 32) := by
      rw [← wordLoop_pending, pending, hwords]
      rfl
    rw [stripeLoop, stripeLoop_pending rounds _ _ (by rw [List.length_drop]; omega), hround,
      ← crcRegister_append, List.take_append_drop]

/-- `mycrc32` is the bitwise register on the block, `crc` and the result complemented. -/
theorem mycrc32_eq (crc : BitVec 32) (block : List (BitVec 8)) (addr : ℕ) :
    mycrc32 crc block addr = crcRegister crcPoly (crc ^^^ 0xFFFFFFFF) block ^^^ 0xFFFFFFFF := by
  have hone : crcOneByte = byteUpdate crcPoly := funext₂ crcOneByte_eq
  have halign := alignLoop_pending (crc ^^^ 0xFFFFFFFF) block addr
  dsimp only [mycrc32]
  generalize alignLoop (crc ^^^ 0xFFFFFFFF) block addr = s1 at halign
  obtain ⟨c1, r1⟩ := s1
  dsimp only
  have hstripe := stripeLoop_pending (r1.length / 32) c1 r1 (Nat.div_mul_le_self _ _)
  generalize stripeLoop (r1.length / 32) c1 r1 = s2 at hstripe
  obtain ⟨c2, r2⟩ := s2
  dsimp only
  have hwords := wordLoop_pending c2 r2
  generalize wordLoop c2 r2 = s3 at hwords
  obtain ⟨c3, r3⟩ := s3
  dsimp only [pending] at halign hstripe hwords ⊢
  -- the tail loop is the register on the bytes left
  rw [hone, ← halign, ← hstripe, ← hwords]
  rfl

example : mycrc32 0 [0x61] 0 = 0xE8B7BE43 := by decide

/-! ## The combine tables

`m1` starts as the matrix of one bit out of the register, and each `crc_matrix_square`
doubles the bits the matrix stands for, so the matrix round `i` builds stands for `2^(i+3)`
bits out: `2^i` zero bytes. -/

theorem oneBitMatrix_isMatrixOf : IsMatrixOf oneBitMatrix (crcBit crcPoly) := by
  unfold IsMatrixOf
  decide

theorem isLinear_iterate_crcBit (n : ℕ) : IsLinear (crcBit crcPoly)^[n] :=
  (isLinear_crcBit crcPoly).iterate n

/-- Squaring a matrix of `n` bits out gives one of `2 n`. -/
theorem crcMatrixSquare_isMatrixOf {m : ℕ → BitVec 32} {n : ℕ}
    (hm : IsMatrixOf m (crcBit crcPoly)^[n]) :
    IsMatrixOf (crcMatrixSquare m) (crcBit crcPoly)^[2 * n] := by
  rw [Nat.two_mul, Function.iterate_add]
  exact isMatrixOf_square (isLinear_iterate_crcBit n) hm

/-- Before round `i` the matrix the loop squares next stands for `2^(i+2)` bits out. -/
theorem combineMatrices_isMatrixOf : ∀ i,
    IsMatrixOf (if i % 2 = 0 then (combineMatrices i).1 else (combineMatrices i).2)
      (crcBit crcPoly)^[2 ^ (i + 2)]
  | 0 => crcMatrixSquare_isMatrixOf (crcMatrixSquare_isMatrixOf (n := 1) oneBitMatrix_isMatrixOf)
  | i + 1 => by
    have ih := combineMatrices_isMatrixOf i
    have hpow : 2 ^ (i + 1 + 2) = 2 * 2 ^ (i + 2) := by
      rw [show i + 1 + 2 = i + 2 + 1 by omega, Nat.pow_succ, Nat.mul_comm]
    rw [combineMatrices, hpow]
    generalize combineMatrices i = ms at ih
    obtain ⟨m1, m2⟩ := ms
    dsimp only at ih ⊢
    -- odd rounds square `m2` into `m1`, even rounds `m1` into `m2`
    by_cases hi : i % 2 = 1
    · rw [if_neg (by omega)] at ih
      rw [if_pos hi, if_pos (by omega)]
      exact crcMatrixSquare_isMatrixOf ih
    · rw [if_pos (by omega)] at ih
      rw [if_neg hi, if_neg (by omega)]
      exact crcMatrixSquare_isMatrixOf ih

/-- `mc` of round `i` is the matrix of `2^i` zero bytes. -/
theorem combineMatrix_isMatrixOf (i : ℕ) :
    IsMatrixOf (combineMatrix i) (zeroByte crcPoly)^[2 ^ i] := by
  have h := combineMatrices_isMatrixOf (i + 1)
  have hbytes : (zeroByte crcPoly)^[2 ^ i] = (crcBit crcPoly)^[2 ^ (i + 1 + 2)] := by
    rw [show 2 ^ (i + 1 + 2) = 8 * 2 ^ i by rw [show i + 1 + 2 = 3 + i by omega, Nat.pow_add],
      Function.iterate_mul]
    rfl
  rw [hbytes]
  unfold combineMatrix
  by_cases hi : i % 2 = 1
  · rw [if_pos (show (i + 1) % 2 = 0 by omega)] at h
    rwa [if_pos hi]
  · rw [if_neg (show ¬ (i + 1) % 2 = 0 by omega)] at h
    rwa [if_neg hi]

theorem isLinear_iterate_zeroByte (n : ℕ) : IsLinear (zeroByte crcPoly)^[n] :=
  (isLinear_zeroByte crcPoly).iterate n

/-- `crc_combine_table[i][j][k]` is `k`, placed at byte `j`, through `2^i` zero bytes. -/
theorem crcCombineTable_eq (i : ℕ) {j k : ℕ} (hj : j < 4) (hk : k < 2 ^ 8) :
    crcCombineTable i j k = (zeroByte crcPoly)^[2 ^ i] (BitVec.ofNat 32 k <<< (j * 8)) := by
  -- `k` has no bit past the eighth column the loop reaches
  have hv : BitVec.ofNat 32 k >>> 8 = 0 := by
    apply BitVec.eq_of_toNat_eq
    rw [BitVec.toNat_ushiftRight, BitVec.toNat_ofNat, Nat.mod_eq_of_lt (by omega),
      Nat.shiftRight_eq_div_pow]
    exact Nat.div_eq_of_lt hk
  rw [crcCombineTable, columnsLoop_eq (isLinear_iterate_zeroByte _) (combineMatrix_isMatrixOf i)
    8 (j * 8) _ 0 (by omega) hv, ofNat_zero_xor]

/-- One round of the loop of `mycrc32_combine` on a set bit runs `crc1` through `2^i` zero
bytes. -/
theorem combineStep_eq (i : ℕ) (crc1 : BitVec 32) :
    crcCombineTable i 3 (crc1 >>> 24).toNat ^^^
      crcCombineTable i 2 ((crc1 >>> 16) &&& (0xff : BitVec 32)).toNat ^^^
      crcCombineTable i 1 ((crc1 >>> 8) &&& (0xff : BitVec 32)).toNat ^^^
      crcCombineTable i 0 (crc1 &&& (0xff : BitVec 32)).toNat =
    (zeroByte crcPoly)^[2 ^ i] crc1 := by
  rw [crcCombineTable_eq i (by decide) (toNat_ushiftRight_24_lt crc1),
    crcCombineTable_eq i (by decide) (toNat_and_0xff_lt _),
    crcCombineTable_eq i (by decide) (toNat_and_0xff_lt _),
    crcCombineTable_eq i (by decide) (toNat_and_0xff_lt _), ofNat_toNat_eq, ofNat_toNat_eq,
    ofNat_toNat_eq, ofNat_toNat_eq, (isLinear_iterate_zeroByte _).map_bytes crc1,
    Nat.zero_mul, BitVec.shiftLeft_zero]
  ac_rfl

/-- Bit `i` of a length, and the bits above it. -/
theorem pow_mul_div_two_add (i n : ℕ) : 2 ^ (i + 1) * (n / 2) + 2 ^ i * (n % 2) = 2 ^ i * n := by
  rw [Nat.pow_succ, Nat.mul_assoc, ← Nat.mul_add, Nat.div_add_mod]

/-- With fuel for the bits of `leng2`, the loop from bit `i` runs `crc1` through `2^i` times
`leng2` zero bytes. -/
theorem combineLoop_eq : ∀ fuel i (crc1 : BitVec 32) leng2, leng2 < 2 ^ fuel →
    combineLoop fuel i crc1 leng2 = (zeroByte crcPoly)^[2 ^ i * leng2] crc1
  | 0, i, crc1, leng2, h => by
    obtain rfl : leng2 = 0 := by rw [Nat.pow_zero] at h; omega
    rfl
  | fuel + 1, i, crc1, leng2, h => by
    rw [combineLoop]
    split
    · next h0 =>
      rw [h0, Nat.mul_zero, Function.iterate_zero_apply]
    · rw [combineLoop_eq fuel (i + 1) _ (leng2 / 2) (by rw [Nat.pow_succ] at h; omega),
        ← pow_mul_div_two_add i leng2, Function.iterate_add_apply]
      congr 1
      -- bit `i` is set or it is not
      split
      · next h1 => rw [h1, Nat.mul_one, combineStep_eq]
      · next h1 => rw [show leng2 % 2 = 0 by omega, Nat.mul_zero, Function.iterate_zero_apply]

/-- `mycrc32_combine` runs `crc1` through `leng2` zero bytes and xors in `crc2`. -/
theorem mycrc32Combine_eq (crc1 crc2 : BitVec 32) {leng2 : ℕ} (h : leng2 < 2 ^ 32) :
    mycrc32Combine crc1 crc2 leng2 = (zeroByte crcPoly)^[leng2] crc1 ^^^ crc2 := by
  rw [mycrc32Combine, combineLoop_eq 32 0 crc1 leng2 h, Nat.pow_zero, Nat.one_mul]

/-! ## The CRC-32 laws -/

/-- `mycrc32` from `crc` is `crc` through as many zero bytes as the block has, xored with the
block's CRC from zero. -/
theorem mycrc32_eq_zeros (crc : BitVec 32) (block : List (BitVec 8)) (addr addr' : ℕ) :
    mycrc32 crc block addr = (zeroByte crcPoly)^[block.length] crc ^^^ mycrc32 0 block addr' := by
  rw [mycrc32_eq, mycrc32_eq, crcRegister_xor_eq_zeros, ofNat_zero_xor]

theorem xor_ones_xor_ones (x : BitVec 32) : x ^^^ 0xFFFFFFFF ^^^ 0xFFFFFFFF = x := by
  rw [BitVec.xor_assoc, BitVec.xor_self, BitVec.xor_zero]

theorem mycrc32_concat_combine (A B : List (BitVec 8)) (addrA addrB : ℕ)
    (hlen : A.length + B.length < 2 ^ 32) :
    (mycrc32 0 (A ++ B) addrA = mycrc32 (mycrc32 0 A addrA) B addrB ∧
      mycrc32 (mycrc32 0 A addrA) B addrB =
        mycrc32Combine (mycrc32 0 A addrA) (mycrc32 0 B addrB) B.length) ∧
    (∀ data addr, mycrc32 0 data addr = bitwiseCrc32 data) ∧
    ∀ c n addr, n < 2 ^ 32 → mycrc32Zeroblock c n = mycrc32 c (List.replicate n 0) addr := by
  refine ⟨⟨?_, ?_⟩, ?_, ?_⟩
  · -- the register after `A` is where the run on `B` starts
    rw [mycrc32_eq, mycrc32_eq, mycrc32_eq, xor_ones_xor_ones, crcRegister_append]
  · rw [mycrc32Combine_eq _ _ (by omega), mycrc32_eq_zeros _ B addrB addrB]
  · intro data addr
    rw [mycrc32_eq, bitwiseCrc32, ofNat_zero_xor]
  · intro c n addr hn
    rw [mycrc32Zeroblock, mycrc32Combine_eq _ _ hn, mycrc32_eq, crcRegister_zeros]

theorem mycrc32_concat_combine_ab :
    [(0x61 : BitVec 8)].length + [(0x62 : BitVec 8)].length < 2 ^ 32 ∧
      ((mycrc32 0 ([0x61] ++ [0x62]) 0 = mycrc32 (mycrc32 0 [0x61] 0) [0x62] 1 ∧
        mycrc32 (mycrc32 0 [0x61] 0) [0x62] 1 =
          mycrc32Combine (mycrc32 0 [0x61] 0) (mycrc32 0 [0x62] 1) [(0x62 : BitVec 8)].length) ∧
      (∀ data addr, mycrc32 0 data addr = bitwiseCrc32 data) ∧
      ∀ c n addr, n < 2 ^ 32 → mycrc32Zeroblock c n = mycrc32 c (List.replicate n 0) addr) :=
  ⟨by decide, mycrc32_concat_combine [0x61] [0x62] 0 1 (by decide)⟩

end Crc

end LizardFs
