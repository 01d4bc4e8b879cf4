import Mathlib.Algebra.Field.Defs
import Mathlib.Logic.Function.Iterate
import Mathlib.Data.FinEnum
import Mathlib.GroupTheory.OrderOfElement

/-!
# GF(2^8) from the in-repo tables

`galois_coeff.h` builds `gf_log_table` and `gf_exp_table` at compile time from `gf_mul2`,
multiplication by 2 modulo x^8 + x^4 + x^3 + x^2 + 1 (the 0x1d after the shift);
`galois_field_isal.cc` multiplies (`gf_mul`) and inverts (`gf_inv`) through them, and
`gf_vect_mul_init` precomputes the nibble tables `ec_encode_data` multiplies with. This module
models these functions as the code computes them and shows that, with xor as addition, they make
the bytes a field, `GF256`.

The argument runs through `pow2 n = gf_mul2^[n] 1`. `gf_mul2` is additive (`gfMul2_xor`), 2 has
order 255 (`pow2_255`), every nonzero byte is `pow2` of its table logarithm
(`pow2_gfLogTable`), so multiplying by a nonzero `a` is `gf_mul2` iterated `log a` times
(`gfMul_eq_iterate`). Distributivity and associativity then follow from the laws of iterates.
The tables are read through the recursions that build them (`gfExp_pow2`, `pow2_gfLog`); that 2
reaches every nonzero byte is the counting argument of section `Generator`, and only facts
about single bytes and a few powers are checked by evaluation.
-/

namespace LizardFs

/-- `detail::gf_mul2`: multiply by 2 in GF(2^8). -/
def gfMul2 (x : UInt8) : UInt8 := (x <<< 1) ^^^ (if x &&& 0x80 ≠ 0 then 0x1d else 0)

/-- `detail::gf_log x pow2n n`: the first `n` at which `pow2n = 2^n` reaches `x`. The constexpr
recursion has no bound; the model stops it after `fuel` steps, and the tables give it 255, which
every nonzero byte needs at most (`pow2_gfLogTable`). -/
def gfLog (x pow2n : UInt8) (n : Nat) : Nat → UInt8
  | 0 => 0
  | fuel + 1 => if x = pow2n then n.toUInt8 else gfLog x (gfMul2 pow2n) (n + 1) fuel

/-- `detail::gf_exp x pow2n n`: `2^x`, found by counting `n` up to `x`. -/
def gfExp (x pow2n : UInt8) (n : Nat) : Nat → UInt8
  | 0 => 0
  | fuel + 1 => if x.toNat = n then pow2n else gfExp x (gfMul2 pow2n) (n + 1) fuel

/-- `gf_log_table = {0, gf_log(1), ..., gf_log(255)}`. -/
def gfLogTable (a : UInt8) : UInt8 := if a = 0 then 0 else gfLog a 2 1 255

/-- `gf_exp_table = {1, gf_exp(1), ..., gf_exp(255)}`, read at indices below 256. -/
def gfExpTable (i : Nat) : UInt8 := if i = 0 then 1 else gfExp i.toUInt8 2 1 255

/-- `gf_mul`: add the logarithms, reduce by 255 once. -/
def gfMul (a b : UInt8) : UInt8 :=
  if a = 0 ∨ b = 0 then 0
  else
    let i := (gfLogTable a).toNat + (gfLogTable b).toNat
    gfExpTable (if i > 254 then i - 255 else i)

/-- `gf_inv`: `2^(255 - log a)`, and 0 for 0. -/
def gfInv (a : UInt8) : UInt8 :=
  if a = 0 then 0 else gfExpTable (255 - (gfLogTable a).toNat)

/-- `2^n` in GF(2^8), as `gf_mul2` computes it. -/
def pow2 (n : Nat) : UInt8 := gfMul2^[n] 1

section Tables

set_option maxRecDepth 4000 in
theorem pow2_255 : pow2 255 = 1 := by decide

theorem pow2_succ (n : Nat) : pow2 (n + 1) = gfMul2 (pow2 n) :=
  Function.iterate_succ_apply' gfMul2 n 1

theorem pow2_add (p q : Nat) : pow2 (p + q) = gfMul2^[p] (pow2 q) :=
  Function.iterate_add_apply gfMul2 p q 1

theorem toNat_toUInt8_of_lt {n : Nat} (h : n < 256) : n.toUInt8.toNat = n := by
  simp [Nat.toUInt8, Nat.mod_eq_of_lt h]

/-- The recursion of `gf_exp` keeps `pow2n = 2^n`, so it returns `2^x` once `n` reaches `x`. -/
theorem gfExp_pow2 (x : UInt8) : ∀ (fuel n : Nat), n ≤ x.toNat → x.toNat < n + fuel →
    gfExp x (pow2 n) n fuel = pow2 x.toNat
  | 0, n, _, hlt => absurd hlt (by omega)
  | fuel + 1, n, hle, hlt => by
    by_cases hx : x.toNat = n
    · rw [gfExp, if_pos hx, hx]
    · rw [gfExp, if_neg hx, ← pow2_succ]
      exact gfExp_pow2 x fuel (n + 1) (by omega) (by omega)

theorem gfExpTable_of_lt {i : Nat} (h : i < 256) : gfExpTable i = pow2 i := by
  rcases Nat.eq_zero_or_pos i with rfl | hpos
  · rfl
  · -- entry `i` starts the recursion at `2 = 2^1` and counts up to `i`
    have hi := toNat_toUInt8_of_lt h
    rw [gfExpTable, if_neg (by omega), show (2 : UInt8) = pow2 1 from rfl,
      gfExp_pow2 _ 255 1 (by omega) (by omega), hi]

/-- The recursion of `gf_log` keeps `pow2n = 2^n`: if `2^(n + k) = x` for a `k` below the fuel,
it stops at an `n'` with `2^n' = x`. -/
theorem pow2_gfLog {x : UInt8} : ∀ (fuel n k : Nat), k < fuel → n + fuel ≤ 256 →
    pow2 (n + k) = x → pow2 (gfLog x (pow2 n) n fuel).toNat = x
  | 0, _, _, hk, _, _ => absurd hk (Nat.not_lt_zero _)
  | fuel + 1, n, k, hk, hn, hx => by
    by_cases hxn : x = pow2 n
    · rw [gfLog, if_pos hxn, toNat_toUInt8_of_lt (by omega), hxn]
    · rw [gfLog, if_neg hxn, ← pow2_succ]
      cases k with
      | zero => exact absurd hx.symm hxn
      | succ k =>
        refine pow2_gfLog fuel (n + 1) k (by omega) (by omega) ?_
        rw [← hx, Nat.add_right_comm, Nat.add_assoc]

set_option maxRecDepth 4000 in
theorem gfMul2_eq_zero : ∀ x : UInt8, gfMul2 x = 0 ↔ x = 0 := by decide

end Tables

section Additive

theorem uint8_xor_and (a b c : UInt8) : (a ^^^ b) &&& c = (a &&& c) ^^^ (b &&& c) := by
  apply UInt8.toBitVec_inj.mp
  simp only [UInt8.toBitVec_and, UInt8.toBitVec_xor]
  ext i
  simp [Bool.and_xor_distrib_right]

set_option maxRecDepth 4000 in
theorem uint8_and_0x80 (a : UInt8) : a &&& 0x80 = 0 ∨ a &&& 0x80 = 0x80 := by
  revert a; decide

/-- `gf_mul2` is additive: the shift is, and the reduction by 0x1d is taken exactly when the
top bit is set, which is itself additive. -/
theorem gfMul2_xor (a b : UInt8) : gfMul2 (a ^^^ b) = gfMul2 a ^^^ gfMul2 b := by
  unfold gfMul2
  rw [UInt8.shiftLeft_xor, uint8_xor_and]
  have h80 : ¬ ((0x80 : UInt8) = 0) := by decide
  rcases uint8_and_0x80 a with ha | ha <;> rcases uint8_and_0x80 b with hb | hb <;>
    simp only [ha, hb, UInt8.xor_self, UInt8.zero_xor, UInt8.xor_zero, ne_eq, not_true_eq_false,
      ↓reduceIte, h80, not_false_eq_true]
  · ac_rfl
  · ac_rfl
  · rw [UInt8.xor_assoc, ← UInt8.xor_assoc 29, UInt8.xor_comm 29, UInt8.xor_assoc,
      UInt8.xor_self, UInt8.xor_zero]

theorem gfMul2_zero : gfMul2 0 = 0 := (gfMul2_eq_zero 0).mpr rfl

theorem iterate_gfMul2_zero (n : Nat) : gfMul2^[n] 0 = 0 :=
  Function.iterate_fixed gfMul2_zero n

theorem iterate_gfMul2_xor (n : Nat) (a b : UInt8) :
    gfMul2^[n] (a ^^^ b) = gfMul2^[n] a ^^^ gfMul2^[n] b := by
  induction n generalizing a b with
  | zero => rfl
  | succ n ih => simp only [Function.iterate_succ_apply, gfMul2_xor, ih]

theorem pow2_ne_zero (n : Nat) : pow2 n ≠ 0 := by
  induction n with
  | zero => decide
  | succ n ih =>
    rw [pow2, Function.iterate_succ_apply', ← pow2]
    exact fun h => ih ((gfMul2_eq_zero _).mp h)

end Additive

section Generator

/-! 2 generates the nonzero bytes: its minimal period under `gf_mul2` divides 255 and none of
its proper divisors, so the powers `2^0, ..., 2^254` are distinct, and being 255 nonzero bytes
they are all of them. This is what makes `gf_log_table` an inverse of `gf_exp_table`. -/

set_option maxRecDepth 4000 in
theorem dvd_255_of_lt : ∀ p < 255, p ∣ 255 → p ∣ 85 ∨ p ∣ 51 ∨ p ∣ 15 := by decide

set_option maxRecDepth 4000 in
theorem pow2_85_51_15 : pow2 85 ≠ 1 ∧ pow2 51 ≠ 1 ∧ pow2 15 ≠ 1 := by decide

theorem pow2_ne_one {n : Nat} (hpos : 0 < n) (hlt : n < 255) : pow2 n ≠ 1 := by
  intro h
  -- `pow2 n = 1` says that `n` is a period of 1 under `gf_mul2`
  have h255 : Function.IsPeriodicPt gfMul2 255 1 := pow2_255
  have hn : Function.IsPeriodicPt gfMul2 n 1 := h
  have hdvd : Function.minimalPeriod gfMul2 1 ∣ 255 := h255.minimalPeriod_dvd
  have hlt' : Function.minimalPeriod gfMul2 1 < 255 :=
    lt_of_le_of_lt (Nat.le_of_dvd hpos hn.minimalPeriod_dvd) hlt
  have hmin := Function.isPeriodicPt_minimalPeriod gfMul2 1
  obtain ⟨h85, h51, h15⟩ := pow2_85_51_15
  rcases dvd_255_of_lt _ hlt' hdvd with ⟨m, hm⟩ | ⟨m, hm⟩ | ⟨m, hm⟩
  · exact h85 (hm ▸ hmin.mul_const m)
  · exact h51 (hm ▸ hmin.mul_const m)
  · exact h15 (hm ▸ hmin.mul_const m)

theorem gfMul2_injective : Function.Injective gfMul2 := by
  intro a b h
  have h0 : gfMul2 (a ^^^ b) = 0 := by rw [gfMul2_xor, h, UInt8.xor_self]
  rw [← UInt8.xor_eq_zero_iff]
  exact (gfMul2_eq_zero _).mp h0

theorem pow2_inj {i j : Nat} (hi : i < 255) (hj : j < 255) (h : pow2 i = pow2 j) : i = j := by
  by_contra hne
  wlog hij : i < j generalizing i j
  · exact this hj hi h.symm (Ne.symm hne) (by omega)
  -- `2^j = gf_mul2^[i] (2^(j - i))` and `2^i = gf_mul2^[i] 1`, and iterates are injective
  have hsplit : pow2 j = gfMul2^[i] (pow2 (j - i)) := by rw [← pow2_add, Nat.add_sub_cancel' hij.le]
  have h1 : pow2 (j - i) = 1 := Function.Injective.iterate gfMul2_injective i (hsplit ▸ h.symm)
  exact pow2_ne_one (by omega) (by omega) h1

theorem card_uint8 : Fintype.card UInt8 = 256 := by
  rw [← FinEnum.card_eq_fintypeCard, FinEnum.card_UInt8]
  rfl

theorem exists_pow2_eq {a : UInt8} (ha : a ≠ 0) : ∃ k < 255, pow2 k = a := by
  have hsub : (Finset.range 255).image pow2 ⊆ Finset.univ.erase 0 := by
    intro b hb
    obtain ⟨k, -, rfl⟩ := Finset.mem_image.mp hb
    exact Finset.mem_erase.mpr ⟨pow2_ne_zero k, Finset.mem_univ _⟩
  have hcard : (Finset.univ.erase (0 : UInt8)).card ≤ ((Finset.range 255).image pow2).card := by
    rw [Finset.card_image_of_injOn fun i hi j hj h => pow2_inj (Finset.mem_range.mp hi)
      (Finset.mem_range.mp hj) h, Finset.card_erase_of_mem (Finset.mem_univ _), Finset.card_univ,
      card_uint8, Finset.card_range]
  have heq := Finset.eq_of_subset_of_card_le hsub hcard
  obtain ⟨k, hk, hpow⟩ := Finset.mem_image.mp (heq ▸ Finset.mem_erase.mpr ⟨ha, Finset.mem_univ a⟩)
  exact ⟨k, Finset.mem_range.mp hk, hpow⟩

theorem pow2_gfLogTable : ∀ a : UInt8, a ≠ 0 → pow2 (gfLogTable a).toNat = a := by
  intro a ha
  obtain ⟨k, hk, hpow⟩ := exists_pow2_eq ha
  -- the table's search runs over the exponents 1 .. 255, and `2^255 = 2^0`
  have hk' : ∃ k' < 255, pow2 (1 + k') = a := by
    rcases Nat.eq_zero_or_pos k with rfl | hpos
    · exact ⟨254, by omega, by rw [← hpow]; exact pow2_255⟩
    · exact ⟨k - 1, by omega, by rw [← hpow]; congr 1; omega⟩
  obtain ⟨k', hk'lt, hpow'⟩ := hk'
  rw [gfLogTable, if_neg ha, show (2 : UInt8) = pow2 1 from rfl]
  exact pow2_gfLog 255 1 k' hk'lt (by omega) hpow'

end Generator

section Iterate

theorem pow2_add_255 (n : Nat) : pow2 (n + 255) = pow2 n := by
  rw [pow2_add, pow2_255, pow2]

theorem pow2_sub_255 {s : Nat} (h : 255 ≤ s) : pow2 (s - 255) = pow2 s := by
  obtain ⟨t, rfl⟩ := Nat.exists_eq_add_of_le' h
  rw [Nat.add_sub_cancel, pow2_add_255]

/-- The index `gf_mul` computes, `i > 254 ? i - 255 : i`, names the same power of 2 as `i`. -/
theorem pow2_reduce (s : Nat) : pow2 (if s > 254 then s - 255 else s) = pow2 s := by
  split
  · exact pow2_sub_255 (by omega)
  · rfl

/-- Two iterates of `gf_mul2` that agree at 1 agree everywhere: every nonzero byte is an
iterate of 1, and iterates commute. -/
theorem iterate_eq_of_pow2_eq {p q : Nat} (h : pow2 p = pow2 q) (x : UInt8) :
    gfMul2^[p] x = gfMul2^[q] x := by
  by_cases hx : x = 0
  · simp only [hx, iterate_gfMul2_zero]
  · rw [← pow2_gfLogTable x hx, ← pow2_add, ← pow2_add, Nat.add_comm, pow2_add, h,
      ← pow2_add, Nat.add_comm]

/-- Multiplication by a nonzero `a` is `gf_mul2` iterated `log a` times. -/
theorem gfMul_eq_iterate {a : UInt8} (ha : a ≠ 0) (x : UInt8) :
    gfMul a x = gfMul2^[(gfLogTable a).toNat] x := by
  by_cases hx : x = 0
  · simp [gfMul, hx, iterate_gfMul2_zero]
  · have hl : (gfLogTable a).toNat < 256 := UInt8.toNat_lt _
    have hm : (gfLogTable x).toNat < 256 := UInt8.toNat_lt _
    have hidx : (if (gfLogTable a).toNat + (gfLogTable x).toNat > 254 then
        (gfLogTable a).toNat + (gfLogTable x).toNat - 255
        else (gfLogTable a).toNat + (gfLogTable x).toNat) < 256 := by
      split <;> omega
    simp only [gfMul, ha, hx, or_self, ↓reduceIte]
    rw [gfExpTable_of_lt hidx, pow2_reduce, pow2_add, pow2_gfLogTable x hx]

end Iterate

section Laws

theorem gfMul_zero_left (x : UInt8) : gfMul 0 x = 0 := by simp [gfMul]

theorem gfMul_zero_right (x : UInt8) : gfMul x 0 = 0 := by simp [gfMul]

theorem gfMul_comm (a b : UInt8) : gfMul a b = gfMul b a := by
  simp only [gfMul, or_comm, Nat.add_comm]

theorem gfMul_xor (a x y : UInt8) : gfMul a (x ^^^ y) = gfMul a x ^^^ gfMul a y := by
  by_cases ha : a = 0
  · simp [ha, gfMul_zero_left]
  · simp only [gfMul_eq_iterate ha, iterate_gfMul2_xor]

theorem gfMul_one (x : UInt8) : gfMul 1 x = x := by
  rw [gfMul_eq_iterate (by decide)]
  by_cases hx : x = 0
  · rw [hx, iterate_gfMul2_zero]
  · rw [← pow2_gfLogTable x hx, ← pow2_add, Nat.add_comm, pow2_add, pow2_gfLogTable 1 (by decide),
      pow2]

/-- A nonzero product is the power of 2 at the sum of the logarithms. -/
theorem gfMul_eq_pow2 {a b : UInt8} (ha : a ≠ 0) (hb : b ≠ 0) :
    gfMul a b = pow2 ((gfLogTable a).toNat + (gfLogTable b).toNat) := by
  rw [gfMul_eq_iterate ha, pow2_add, pow2_gfLogTable b hb]

theorem gfMul_assoc (a b x : UInt8) : gfMul (gfMul a b) x = gfMul a (gfMul b x) := by
  by_cases ha : a = 0
  · simp [ha, gfMul_zero_left]
  by_cases hb : b = 0
  · simp [hb, gfMul_zero_left, gfMul_zero_right]
  have hab : gfMul a b ≠ 0 := by rw [gfMul_eq_pow2 ha hb]; exact pow2_ne_zero _
  -- the logarithm of the product names the same iterate as the sum of the logarithms
  have hlog : pow2 (gfLogTable (gfMul a b)).toNat =
      pow2 ((gfLogTable a).toNat + (gfLogTable b).toNat) := by
    rw [pow2_gfLogTable _ hab, gfMul_eq_pow2 ha hb]
  rw [gfMul_eq_iterate hab, iterate_eq_of_pow2_eq hlog, Function.iterate_add_apply,
    ← gfMul_eq_iterate hb, ← gfMul_eq_iterate ha]

theorem gfMul_gfInv {a : UInt8} (ha : a ≠ 0) : gfMul a (gfInv a) = 1 := by
  have hl : (gfLogTable a).toNat < 256 := UInt8.toNat_lt _
  rw [gfInv, if_neg ha, gfExpTable_of_lt (by omega), gfMul_eq_iterate ha, ← pow2_add,
    Nat.add_sub_cancel' (by omega), pow2_255]

/-- Multiplying by `2^i` is `gf_mul2` iterated `i` times. -/
theorem gfMul_pow2 (c : UInt8) (i : Nat) : gfMul c (pow2 i) = gfMul2^[i] c := by
  rw [gfMul_comm, gfMul_eq_iterate (pow2_ne_zero i)]
  exact iterate_eq_of_pow2_eq (pow2_gfLogTable _ (pow2_ne_zero i)) c

end Laws

section Tables32

/-- One half of the table `gf_vect_mul_init` builds: entry `x < 16` is the xor of the multiples
of `c` that the bits of `x` select (`c3 = c2 ^ c`, `c5 = c4 ^ c`, ...; the 64-bit branch packs
the same bytes into the words `t[0]`, `t[1]` and `t[2]`, `t[3]`). -/
def nibbleTable (b1 b2 b4 b8 : UInt8) (x : Nat) : UInt8 :=
  (if x &&& 1 ≠ 0 then b1 else 0) ^^^ (if x &&& 2 ≠ 0 then b2 else 0) ^^^
    (if x &&& 4 ≠ 0 then b4 else 0) ^^^ (if x &&& 8 ≠ 0 then b8 else 0)

/-- `gf_vect_mul_init`: `c` times every low nibble (entries 0..15), then times every high
nibble (entries 16..31). -/
def gfVectMulInit (c : UInt8) (t : Nat) : UInt8 :=
  let c2 := gfMul2 c
  let c4 := gfMul2 c2
  let c8 := gfMul2 c4
  let c17 := gfMul2 c8
  let c18 := gfMul2 c17
  let c20 := gfMul2 c18
  let c24 := gfMul2 c20
  if t < 16 then nibbleTable c c2 c4 c8 t else nibbleTable c17 c18 c20 c24 (t - 16)

theorem gfMul_nibbleTable (c b1 b2 b4 b8 : UInt8) (x : Nat) :
    gfMul c (nibbleTable b1 b2 b4 b8 x) =
      nibbleTable (gfMul c b1) (gfMul c b2) (gfMul c b4) (gfMul c b8) x := by
  simp only [nibbleTable, gfMul_xor, apply_ite (gfMul c), gfMul_zero_right]

set_option maxRecDepth 4000 in
/-- Every byte is the xor of its bits, read as the two nibbles the table lookups use. -/
theorem nibbleTable_split : ∀ a : UInt8,
    nibbleTable (pow2 0) (pow2 1) (pow2 2) (pow2 3) (a &&& 15).toNat ^^^
      nibbleTable (pow2 4) (pow2 5) (pow2 6) (pow2 7) (a >>> 4).toNat = a := by
  decide

/-- The two lookups `tbl_lo[a & 0xF] ^ tbl_hi[a >> 4]` of `ec_encode_data` multiply by `c`. -/
theorem gfVectMulInit_lookup (c a : UInt8) :
    gfVectMulInit c (a &&& 15).toNat ^^^ gfVectMulInit c (16 + (a >>> 4).toNat) = gfMul c a := by
  have hlo : (a &&& 15).toNat < 16 := by
    rw [UInt8.toNat_and]; exact Nat.lt_succ_of_le Nat.and_le_right
  conv_rhs => rw [← nibbleTable_split a]
  simp only [gfVectMulInit, hlo, ↓reduceIte, Nat.add_sub_cancel_left,
    show ¬ (16 + (a >>> 4).toNat < 16) by omega, gfMul_xor, gfMul_nibbleTable, gfMul_pow2]
  rfl

end Tables32

/-- A byte as an element of GF(2^8): xor adds, the tables multiply and invert. -/
@[ext] structure GF256 where
  val : UInt8
deriving DecidableEq

namespace GF256

instance : Zero GF256 := ⟨⟨0⟩⟩
instance : One GF256 := ⟨⟨1⟩⟩
instance : Add GF256 := ⟨fun a b => ⟨a.val ^^^ b.val⟩⟩
instance : Neg GF256 := ⟨id⟩
instance : Sub GF256 := ⟨fun a b => ⟨a.val ^^^ b.val⟩⟩
instance : Mul GF256 := ⟨fun a b => ⟨gfMul a.val b.val⟩⟩
instance : Inv GF256 := ⟨fun a => ⟨gfInv a.val⟩⟩

@[simp] theorem val_zero : (0 : GF256).val = 0 := rfl
@[simp] theorem val_one : (1 : GF256).val = 1 := rfl
@[simp] theorem val_add (a b : GF256) : (a + b).val = a.val ^^^ b.val := rfl
@[simp] theorem val_neg (a : GF256) : (-a).val = a.val := rfl
@[simp] theorem val_sub (a b : GF256) : (a - b).val = a.val ^^^ b.val := rfl
@[simp] theorem val_mul (a b : GF256) : (a * b).val = gfMul a.val b.val := rfl
@[simp] theorem val_inv (a : GF256) : a⁻¹.val = gfInv a.val := rfl

theorem val_ne_zero {a : GF256} (h : a ≠ 0) : a.val ≠ 0 := fun h' => h (GF256.ext h')

instance : Field GF256 where
  add_assoc a b c := GF256.ext (UInt8.xor_assoc a.val b.val c.val)
  zero_add a := GF256.ext UInt8.zero_xor
  add_zero a := GF256.ext UInt8.xor_zero
  add_comm a b := GF256.ext (UInt8.xor_comm a.val b.val)
  neg_add_cancel a := GF256.ext UInt8.xor_self
  sub_eq_add_neg a b := rfl
  nsmul := nsmulRec
  zsmul := zsmulRec
  mul_assoc a b c := GF256.ext (gfMul_assoc a.val b.val c.val)
  one_mul a := GF256.ext (gfMul_one a.val)
  mul_one a := GF256.ext (by simp only [val_mul, val_one, gfMul_comm a.val 1, gfMul_one])
  zero_mul a := GF256.ext (gfMul_zero_left a.val)
  mul_zero a := GF256.ext (gfMul_zero_right a.val)
  left_distrib a b c := GF256.ext (gfMul_xor a.val b.val c.val)
  right_distrib a b c := GF256.ext (by simp only [val_mul, val_add, gfMul_comm _ c.val, gfMul_xor])
  mul_comm a b := GF256.ext (gfMul_comm a.val b.val)
  exists_pair_ne := ⟨0, 1, by decide⟩
  mul_inv_cancel a ha := GF256.ext (gfMul_gfInv (val_ne_zero ha))
  inv_zero := rfl
  nnqsmul := _
  nnqsmul_def := fun _ _ => rfl
  qsmul := _
  qsmul_def := fun _ _ => rfl

end GF256

end LizardFs
