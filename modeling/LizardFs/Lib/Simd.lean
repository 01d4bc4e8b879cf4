import Mathlib.Data.BitVec
import Mathlib.Tactic.IntervalCases

/-!
# Byte vectors of x86 SIMD registers

A vector register is modelled by its bytes in memory order, a function `ℕ → UInt8` of which
only the register's width is used. The operations are the ones GCC vector extensions and the
AVX2 intrinsics give C code:

* `load` and `store`, unaligned, of `n` bytes at an address of a byte memory;
* `toLanes` and `ofLanes`, the cast between bytes and little-endian 16-bit lanes;
* `shuffle`, GCC's `__builtin_shuffle` of one 16-byte vector, its mask taken modulo 16;
* `shuffleEpi8`, `_mm256_shuffle_epi8`, a shuffle within each 128-bit half;
* `permute2x128`, `_mm256_permute2x128_si256`, which places 128-bit halves.

The lemmas are what table lookups through these operations rest on: the lane masks
`a & 0x0F0F` and `(a >> 4) & 0x0F0F` give the low and high nibble of every byte
(`ofLanes_and_0x0F0F`, `ofLanes_shiftRight_and_0x0F0F`), a shuffle by nibbles is a table
lookup (`shuffle_of_lt`), and `_mm256_shuffle_epi8` on a table with its low or its high half
in both halves of the register looks the same 16-byte table up in both halves
(`shuffleEpi8_permute_low`, `shuffleEpi8_permute_high`).
-/

namespace Simd

/-- The `n`-byte register at address `p`, read unaligned. -/
def load (mem : ℕ → UInt8) (p : ℕ) : ℕ → UInt8 := fun k => mem (p + k)

/-- The register `x` written over the `n` bytes at address `p`. -/
def store (mem : ℕ → UInt8) (p n : ℕ) (x : ℕ → UInt8) : ℕ → UInt8 :=
  fun a => if p ≤ a ∧ a < p + n then x (a - p) else mem a

/-- Bytewise `^` of two registers. -/
def xorv (x y : ℕ → UInt8) : ℕ → UInt8 := fun k => x k ^^^ y k

/-- A byte register read as 16-bit lanes, little-endian. -/
def toLanes (x : ℕ → UInt8) : ℕ → UInt16 :=
  fun n => (x (2 * n)).toUInt16 ||| (x (2 * n + 1)).toUInt16 <<< 8

/-- 16-bit lanes read as bytes, little-endian. -/
def ofLanes (y : ℕ → UInt16) : ℕ → UInt8 :=
  fun k => if k % 2 = 0 then (y (k / 2)).toUInt8 else (y (k / 2) >>> 8).toUInt8

/-- `__builtin_shuffle (t, m)` on 16-byte vectors: byte `k` is byte `m[k] mod 16` of `t`. -/
def shuffle (t m : ℕ → UInt8) : ℕ → UInt8 := fun k => t ((m k).toNat % 16)

/-- `_mm256_shuffle_epi8 (t, m)`: byte `k` is zero when the top bit of `m[k]` is set, and
otherwise byte `m[k] & 0x0F` of the 128-bit half of `t` that byte `k` lies in. -/
def shuffleEpi8 (t m : ℕ → UInt8) : ℕ → UInt8 :=
  fun k => if m k &&& 0x80 ≠ 0 then 0 else t (16 * (k / 16) + (m k &&& 0x0F).toNat)

/-- `SELECT4 (a, b, control)` of `_mm256_permute2x128_si256`: a 128-bit half of `a` or of `b`,
or zero. -/
def select4 (a b : ℕ → UInt8) (control : UInt8) (k : ℕ) : UInt8 :=
  if control &&& 8 ≠ 0 then 0
  else match (control &&& 3).toNat with
    | 0 => a k
    | 1 => a (16 + k)
    | 2 => b k
    | _ => b (16 + k)

/-- `_mm256_permute2x128_si256 (a, b, imm)`: the low half chosen by the low four bits of `imm`,
the high half by the high four. -/
def permute2x128 (a b : ℕ → UInt8) (imm : UInt8) : ℕ → UInt8 :=
  fun k => if k < 16 then select4 a b (imm &&& 0x0F) k else select4 a b (imm >>> 4) (k - 16)

/-! ## Folds of registers -/

/-- A fold that xors registers is, at each byte, the fold that xors the bytes. -/
theorem foldl_xorv_apply {α : Type} (f : α → ℕ → UInt8) (k : ℕ) :
    ∀ (l : List α) (z : ℕ → UInt8),
      l.foldl (fun s j => xorv s (f j)) z k = l.foldl (fun s j => s ^^^ f j k) (z k)
  | [], _ => rfl
  | j :: l, z => foldl_xorv_apply f k l (xorv z (f j))

/-! ## Nibbles of 16-bit lanes -/

section Lanes

variable (b0 b1 : UInt8)

theorem lane_and_low :
    ((b0.toUInt16 ||| b1.toUInt16 <<< 8) &&& 0x0F0F).toUInt8 = b0 &&& 0x0F := by
  apply UInt8.eq_of_toBitVec_eq
  simp only [UInt16.toBitVec_toUInt8, UInt16.toBitVec_and, UInt16.toBitVec_or,
    UInt16.toBitVec_shiftLeft, UInt8.toBitVec_toUInt16, UInt8.toBitVec_and]
  apply BitVec.eq_of_getLsbD_eq
  intro i hi
  simp [hi]

theorem lane_and_high :
    (((b0.toUInt16 ||| b1.toUInt16 <<< 8) &&& 0x0F0F) >>> 8).toUInt8 = b1 &&& 0x0F := by
  apply UInt8.eq_of_toBitVec_eq
  simp only [UInt16.toBitVec_toUInt8, UInt16.toBitVec_and, UInt16.toBitVec_or,
    UInt16.toBitVec_shiftLeft, UInt16.toBitVec_shiftRight, UInt8.toBitVec_toUInt16,
    UInt8.toBitVec_and]
  apply BitVec.eq_of_getLsbD_eq
  intro i hi
  -- bit `i` of the high byte is bit `8 + i` of the lane
  interval_cases i <;> simp

theorem lane_shiftRight_and_low :
    (((b0.toUInt16 ||| b1.toUInt16 <<< 8) >>> 4) &&& 0x0F0F).toUInt8 = b0 >>> 4 := by
  apply UInt8.eq_of_toBitVec_eq
  simp only [UInt16.toBitVec_toUInt8, UInt16.toBitVec_and, UInt16.toBitVec_or,
    UInt16.toBitVec_shiftLeft, UInt16.toBitVec_shiftRight, UInt8.toBitVec_toUInt16,
    UInt8.toBitVec_shiftRight]
  apply BitVec.eq_of_getLsbD_eq
  intro i hi
  -- the low nibble of the high byte shifted in lands above bit 4 and is masked off
  interval_cases i <;> simp

theorem lane_shiftRight_and_high :
    ((((b0.toUInt16 ||| b1.toUInt16 <<< 8) >>> 4) &&& 0x0F0F) >>> 8).toUInt8 = b1 >>> 4 := by
  apply UInt8.eq_of_toBitVec_eq
  simp only [UInt16.toBitVec_toUInt8, UInt16.toBitVec_and, UInt16.toBitVec_or,
    UInt16.toBitVec_shiftLeft, UInt16.toBitVec_shiftRight, UInt8.toBitVec_toUInt16,
    UInt8.toBitVec_shiftRight]
  apply BitVec.eq_of_getLsbD_eq
  intro i hi
  interval_cases i <;> simp

end Lanes

/-- The bytes of the lanes `a & 0x0F0F` are the low nibbles of the bytes of `a`. -/
theorem ofLanes_and_0x0F0F (x : ℕ → UInt8) (k : ℕ) :
    ofLanes (fun n => toLanes x n &&& 0x0F0F) k = x k &&& 0x0F := by
  simp only [ofLanes, toLanes]
  split
  · next h =>
    rw [lane_and_low, show 2 * (k / 2) = k by omega]
  · next h =>
    rw [lane_and_high, show 2 * (k / 2) + 1 = k by omega]

/-- The bytes of the lanes `(a >> 4) & 0x0F0F` are the high nibbles of the bytes of `a`. -/
theorem ofLanes_shiftRight_and_0x0F0F (x : ℕ → UInt8) (k : ℕ) :
    ofLanes (fun n => (toLanes x n >>> 4) &&& 0x0F0F) k = x k >>> 4 := by
  simp only [ofLanes, toLanes]
  split
  · next h =>
    rw [lane_shiftRight_and_low, show 2 * (k / 2) = k by omega]
  · next h =>
    rw [lane_shiftRight_and_high, show 2 * (k / 2) + 1 = k by omega]

/-! ## Nibbles as indices -/

section Nibbles

variable (b : UInt8)

theorem toNat_and_0x0F_lt : (b &&& 0x0F).toNat < 16 := by
  rw [UInt8.toNat_and]
  exact Nat.lt_succ_of_le Nat.and_le_right

theorem toNat_shiftRight_four_lt : (b >>> 4).toNat < 16 := by
  rw [UInt8.toNat_shiftRight, Nat.shiftRight_eq_div_pow]
  have hb := b.toNat_lt
  exact (Nat.div_lt_iff_lt_mul (by decide)).mpr (by simpa using hb)

theorem and_0x0F_and_0x80 : (b &&& 0x0F) &&& 0x80 = 0 := by
  rw [UInt8.and_assoc, show (0x0F &&& 0x80 : UInt8) = 0 by decide, UInt8.and_zero]

theorem and_0x0F_and_0x0F : (b &&& 0x0F) &&& 0x0F = b &&& 0x0F := by
  rw [UInt8.and_assoc, UInt8.and_self]

theorem shiftRight_four_and_0x80 : (b >>> 4) &&& 0x80 = 0 := by
  apply UInt8.eq_of_toBitVec_eq
  apply BitVec.eq_of_getLsbD_eq
  intro i hi
  interval_cases i <;> simp

theorem shiftRight_four_and_0x0F : (b >>> 4) &&& (0x0F : UInt8) = b >>> 4 := by
  apply UInt8.eq_of_toBitVec_eq
  apply BitVec.eq_of_getLsbD_eq
  intro i hi
  interval_cases i <;> simp

end Nibbles

/-- A shuffle by indices below 16 is a lookup. -/
theorem shuffle_of_lt (t m : ℕ → UInt8) {k : ℕ} (h : (m k).toNat < 16) :
    shuffle t m k = t (m k).toNat := by
  rw [shuffle, Nat.mod_eq_of_lt h]

/-! ## Shuffles of a table placed in both halves -/

section Permute

variable (t m : ℕ → UInt8) {k : ℕ}

/-- With the low half of `t` in both halves, `_mm256_shuffle_epi8` looks it up in both. -/
theorem shuffleEpi8_permute_low (hk : k < 32) (hm : m k &&& 0x80 = 0) :
    shuffleEpi8 (permute2x128 t t 0x00) m k = t (m k &&& 0x0F).toNat := by
  have hidx := toNat_and_0x0F_lt (m k)
  rw [shuffleEpi8, if_neg (not_not.mpr hm), permute2x128]
  -- the index lies in the half that byte `k` lies in
  by_cases hlow : k < 16
  · rw [show 16 * (k / 16) = 0 by omega, Nat.zero_add, if_pos hidx]
    rfl
  · rw [show 16 * (k / 16) = 16 by omega, if_neg (by omega), Nat.add_sub_cancel_left]
    rfl

/-- With the high half of `t` in both halves, `_mm256_shuffle_epi8` looks it up in both. -/
theorem shuffleEpi8_permute_high (hk : k < 32) (hm : m k &&& 0x80 = 0) :
    shuffleEpi8 (permute2x128 t t 0x11) m k = t (16 + (m k &&& 0x0F).toNat) := by
  have hidx := toNat_and_0x0F_lt (m k)
  rw [shuffleEpi8, if_neg (not_not.mpr hm), permute2x128]
  by_cases hlow : k < 16
  · rw [show 16 * (k / 16) = 0 by omega, Nat.zero_add, if_pos hidx]
    rfl
  · rw [show 16 * (k / 16) = 16 by omega, if_neg (by omega), Nat.add_sub_cancel_left]
    rfl

end Permute

end Simd
