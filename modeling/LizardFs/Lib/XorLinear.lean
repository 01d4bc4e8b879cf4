import Mathlib.Data.BitVec
import Mathlib.Logic.Function.Iterate

/-!
# Xor-linear maps of 32-bit words

A map `L` of 32-bit words is xor-linear (`IsLinear`) when `L (x ^^^ y) = L x ^^^ L y`: it is
a linear map over GF(2). Such a map is known from its columns, the images of the one-bit words
(`IsMatrixOf`), and C code applies it to a word `v` by xoring the columns the bits of `v`
select, shifting `v` right one bit a column (`columnsLoop`). That loop computes `L v`
(`columnsLoop_eq`), so the loop run on each column of a matrix of `L` gives a matrix of
`L ∘ L` (`isMatrixOf_square`).

A word is also the xor of its four bytes, each in its place (`eq_xor_bytes`), so a linear map
is the xor of its values on them (`IsLinear.map_bytes`): the identity behind table-driven
code that looks up one byte at a time.
-/

namespace XorLinear

open BitVec

/-! ## Bits of words -/

/-- The C test `x & 1` of the low bit. -/
theorem and_one_ne_zero (x : BitVec 32) : x &&& 1 ≠ 0 ↔ x.getLsbD 0 = true := by
  show x &&& 1#32 ≠ 0#32 ↔ _
  rw [BitVec.and_one_eq_setWidth_ofBool_getLsbD]
  cases x.getLsbD 0 <;> decide

theorem getLsbD_0xff (i : ℕ) : (0xff : BitVec 32).getLsbD i = decide (i < 8) := by
  rw [show (0xff : BitVec 32) = BitVec.ofNat 32 (2 ^ 8 - 1) from rfl, BitVec.getLsbD_ofNat,
    Nat.testBit_two_pow_sub_one]
  by_cases h : i < 8
  · simp [h, show i < 32 by omega]
  · simp [h]

/-- A word is the xor of its four bytes, each in its place. -/
theorem eq_xor_bytes (x : BitVec 32) :
    x = (x &&& (0xff : BitVec 32)) ^^^ (((x >>> 8) &&& (0xff : BitVec 32)) <<< 8) ^^^
      (((x >>> 16) &&& (0xff : BitVec 32)) <<< 16) ^^^ ((x >>> 24) <<< 24) := by
  apply BitVec.eq_of_getLsbD_eq
  intro i hi
  simp only [getLsbD_xor, getLsbD_and, getLsbD_ushiftRight, getLsbD_shiftLeft, getLsbD_0xff, hi,
    decide_true, Bool.true_and]
  -- which byte bit `i` lies in
  by_cases h8 : i < 8
  · simp [h8, show i < 16 by omega, show i < 24 by omega]
  · by_cases h16 : i < 16
    · simp [h8, h16, show i < 24 by omega, show 8 + (i - 8) = i by omega, show i - 8 < 8 by omega]
    · by_cases h24 : i < 24
      · simp [h8, h16, h24, show 16 + (i - 16) = i by omega, show i - 16 < 8 by omega,
          show ¬ i - 8 < 8 by omega]
      · simp [h8, h16, h24, show 24 + (i - 24) = i by omega, show ¬ i - 16 < 8 by omega,
          show ¬ i - 8 < 8 by omega]

/-- Placing `v` from column `j` is placing its bits above the low one from column `j + 1`,
and the low one at column `j`. -/
theorem shiftLeft_eq_xor (v : BitVec 32) (j : ℕ) :
    v <<< j = ((v >>> 1) <<< (j + 1)) ^^^ (if v &&& 1 ≠ 0 then (1 : BitVec 32) <<< j else 0) := by
  apply BitVec.eq_of_getLsbD_eq
  intro i hi
  have hcases := Nat.lt_trichotomy i j
  split
  · next hb =>
    have h0 := (and_one_ne_zero v).mp hb
    simp only [getLsbD_xor, getLsbD_shiftLeft, getLsbD_ushiftRight, hi, decide_true, Bool.true_and]
    rcases hcases with h | rfl | h
    · simp [h, show i < j + 1 by omega]
    · simpa using h0
    · simp [show ¬ i < j by omega, show ¬ i < j + 1 by omega, show i - j ≠ 0 by omega,
        show 1 + (i - (j + 1)) = i - j by omega]
  · next hb =>
    have h0 : v.getLsbD 0 = false := by
      rw [← Bool.not_eq_true]
      exact fun h => hb ((and_one_ne_zero v).mpr h)
    simp only [getLsbD_xor, getLsbD_shiftLeft, getLsbD_ushiftRight, hi, decide_true,
      Bool.true_and]
    rcases hcases with h | rfl | h
    · simp [h, show i < j + 1 by omega]
    · simpa using h0
    · simp [show ¬ i < j by omega, show ¬ i < j + 1 by omega,
        show 1 + (i - (j + 1)) = i - j by omega]

theorem xor_ofNat_zero (x : BitVec 32) : x ^^^ 0 = x := BitVec.xor_zero

theorem ofNat_zero_xor (x : BitVec 32) : 0 ^^^ x = x := BitVec.zero_xor

theorem zero_shiftLeft_ofNat (j : ℕ) : (0 : BitVec 32) <<< j = 0 := BitVec.zero_shiftLeft j

/-! ## Linear maps -/

/-- `L` is linear over GF(2). -/
def IsLinear (L : BitVec 32 → BitVec 32) : Prop := ∀ x y, L (x ^^^ y) = L x ^^^ L y

namespace IsLinear

variable {L M : BitVec 32 → BitVec 32}

theorem map_zero (hL : IsLinear L) : L 0 = 0 := by
  have h := hL 0 0
  rw [BitVec.xor_self, BitVec.xor_self] at h
  exact h

theorem comp (hL : IsLinear L) (hM : IsLinear M) : IsLinear (L ∘ M) := fun x y => by
  simp only [Function.comp_apply, hM x y, hL (M x) (M y)]

theorem iterate (hL : IsLinear L) : ∀ n : ℕ, IsLinear L^[n]
  | 0 => fun _ _ => rfl
  | n + 1 => by
    rw [Function.iterate_succ]
    exact comp (iterate hL n) hL

/-- A linear map on a word is the xor of its values on the word's bytes. -/
theorem map_bytes (hL : IsLinear L) (x : BitVec 32) :
    L x = L (x &&& (0xff : BitVec 32)) ^^^ L (((x >>> 8) &&& (0xff : BitVec 32)) <<< 8) ^^^
      L (((x >>> 16) &&& (0xff : BitVec 32)) <<< 16) ^^^ L ((x >>> 24) <<< 24) := by
  conv_lhs => rw [eq_xor_bytes x]
  rw [hL, hL, hL]

end IsLinear

/-! ## Matrices -/

/-- `m` lists the columns of `L`: column `c` is the image of the word with only bit `c` set. -/
def IsMatrixOf (m : ℕ → BitVec 32) (L : BitVec 32 → BitVec 32) : Prop :=
  ∀ c < 32, m c = L ((1 : BitVec 32) <<< c)

/-- Xor into `s` the columns of `m` from column `j` on that the bits of `v` select, the way C
code does it: test the low bit of `v`, shift `v` right and go to the next column, until `v`
is zero or `fuel` columns are done. -/
def columnsLoop (m : ℕ → BitVec 32) : ℕ → ℕ → BitVec 32 → BitVec 32 → BitVec 32
  | 0, _, _, s => s
  | fuel + 1, j, v, s =>
    if v = 0 then s
    else columnsLoop m fuel (j + 1) (v >>> 1) (if v &&& 1 ≠ 0 then s ^^^ m j else s)

section Columns

variable {m : ℕ → BitVec 32} {L : BitVec 32 → BitVec 32}

/-- With enough fuel for the bits of `v` and no column past the last, the loop xors `L` of `v`
placed from column `j` into `s`. -/
theorem columnsLoop_eq (hL : IsLinear L) (hm : IsMatrixOf m L) :
    ∀ fuel j v s, j + fuel ≤ 32 → v >>> fuel = 0 →
      columnsLoop m fuel j v s = s ^^^ L (v <<< j)
  | 0, j, v, s, _, hv => by
    rw [BitVec.ushiftRight_zero] at hv
    subst hv
    rw [columnsLoop, zero_shiftLeft_ofNat, hL.map_zero, xor_ofNat_zero]
  | fuel + 1, j, v, s, hj, hv => by
    unfold columnsLoop
    split
    · next h0 =>
      subst h0
      rw [zero_shiftLeft_ofNat, hL.map_zero, xor_ofNat_zero]
    · -- the low bit of `v` picks column `j`; the other bits are placed from column `j + 1`
      rw [columnsLoop_eq hL hm fuel (j + 1) (v >>> 1) _ (by omega)
        (by rw [← BitVec.shiftRight_add, Nat.add_comm]; exact hv)]
      conv_rhs => rw [shiftLeft_eq_xor v j, hL]
      split
      · rw [hm j (by omega), BitVec.xor_assoc, BitVec.xor_comm (L _)]
      · rw [hL.map_zero, xor_ofNat_zero]

/-- The loop run on every column of a matrix of `L` gives a matrix of `L ∘ L`. -/
theorem isMatrixOf_square (hL : IsLinear L) (hm : IsMatrixOf m L) :
    IsMatrixOf (fun i => columnsLoop m 32 0 (m i) 0) (L ∘ L) := by
  intro c hc
  show columnsLoop m 32 0 (m c) 0 = L (L ((1 : BitVec 32) <<< c))
  rw [columnsLoop_eq hL hm 32 0 (m c) 0 (Nat.le_refl _)
    (BitVec.ushiftRight_eq_zero (Nat.le_refl 32)), BitVec.shiftLeft_zero, hm c hc]
  exact BitVec.zero_xor

end Columns

end XorLinear
