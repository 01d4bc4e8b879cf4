import LizardFs.Lib.XorLinear

/-!
# The register of a reflected CRC-32

A reflected CRC with polynomial `poly` keeps a 32-bit register. Each bit of the message leaves
it at the low end, and `poly` is xored in when the bit that left was set (`crcBit`). A byte is
xored into the low end and leaves with eight bits (`byteUpdate`), and `crcRegister` runs a
message through.

All of it is linear in the register (`isLinear_crcBit`), which gives the facts table-driven
code rests on:

* eight bits of the register are the table entry of its low byte and the rest shifted down
  (`zeroByte_eq`), and four bytes at once are four table entries (`zeroByte_four`);
* a message run from a register `c` gives what it gives from 0, xored with `c` run through as
  many zero bytes (`crcRegister_eq_zeros`), so two messages combine through the zero-byte
  operator alone.
-/

namespace ReflectedCrc

open BitVec XorLinear

variable (poly : BitVec 32)

/-- One bit out of the register: `(c & 1) ? (poly ^ (c >> 1)) : (c >> 1)`. -/
def crcBit (c : BitVec 32) : BitVec 32 := if c &&& 1 ≠ 0 then poly ^^^ (c >>> 1) else c >>> 1

/-- A zero byte through the register: eight bits out. -/
def zeroByte (c : BitVec 32) : BitVec 32 := (crcBit poly)^[8] c

/-- A byte through the register: xored into its low end, then eight bits out. -/
def byteUpdate (c : BitVec 32) (b : BitVec 8) : BitVec 32 := zeroByte poly (c ^^^ b.setWidth 32)

/-- A message through the register. -/
def crcRegister (c : BitVec 32) (data : List (BitVec 8)) : BitVec 32 :=
  data.foldl (byteUpdate poly) c

/-! ## Linearity -/

theorem xor_cancel_left (a b p : BitVec 32) : a ^^^ b = (p ^^^ a) ^^^ (p ^^^ b) := by
  rw [show (p ^^^ a) ^^^ (p ^^^ b) = (p ^^^ p) ^^^ (a ^^^ b) by ac_rfl, BitVec.xor_self,
    BitVec.zero_xor]

theorem isLinear_crcBit : IsLinear (crcBit poly) := fun x y => by
  unfold crcBit
  rw [BitVec.ushiftRight_xor_distrib]
  -- the low bit of `x ^^^ y` is the xor of theirs
  have hxy : (x ^^^ y) &&& 1 ≠ 0 ↔ (x.getLsbD 0 ^^ y.getLsbD 0) = true := by
    rw [and_one_ne_zero, BitVec.getLsbD_xor]
  simp only [hxy, and_one_ne_zero]
  cases x.getLsbD 0 <;> cases y.getLsbD 0
  · simp
  · simp only [Bool.false_xor, Bool.false_eq_true, if_true, if_false]
    ac_rfl
  · simp only [Bool.xor_false, Bool.false_eq_true, if_true, if_false]
    ac_rfl
  · -- both low bits set: the polynomial cancels
    simp only [Bool.xor_self, Bool.false_eq_true, if_true, if_false]
    exact xor_cancel_left _ _ poly

theorem isLinear_zeroByte : IsLinear (zeroByte poly) := (isLinear_crcBit poly).iterate 8

/-! ## A register whose low bits are clear -/

/-- Without its low bit set, a bit out is a shift. -/
theorem crcBit_of_getLsbD {c : BitVec 32} (h : c.getLsbD 0 = false) : crcBit poly c = c >>> 1 := by
  unfold crcBit
  rw [if_neg (by rw [and_one_ne_zero, h]; decide)]

/-- With its `k` low bits clear, `k` bits out are a shift. -/
theorem iterate_crcBit_of_low {c : BitVec 32} :
    ∀ k, (∀ i < k, c.getLsbD i = false) → (crcBit poly)^[k] c = c >>> k
  | 0, _ => by rw [Function.iterate_zero, BitVec.ushiftRight_zero]; rfl
  | k + 1, h => by
    rw [Function.iterate_succ_apply', iterate_crcBit_of_low k fun i hi => h i (by omega),
      crcBit_of_getLsbD, ← BitVec.shiftRight_add]
    rw [BitVec.getLsbD_ushiftRight, Nat.add_zero]
    exact h k (Nat.lt_succ_self k)

/-- A word placed from bit 8 goes through eight bits out as a shift. -/
theorem zeroByte_shiftLeft (y : BitVec 32) : zeroByte poly (y <<< 8) = (y <<< 8) >>> 8 :=
  iterate_crcBit_of_low poly 8 fun i hi => by
    simp [BitVec.getLsbD_shiftLeft, hi]

/-! ## Bytes of a word -/

/-- A word below `2^24` placed from bit 8 and shifted back is itself. -/
theorem shiftLeft_ushiftRight_eight {y : BitVec 32} (hy : y.toNat < 2 ^ 24) :
    (y <<< 8) >>> 8 = y := by
  apply BitVec.eq_of_toNat_eq
  rw [BitVec.toNat_ushiftRight, BitVec.toNat_shiftLeft, Nat.shiftLeft_eq, Nat.shiftRight_eq_div_pow,
    Nat.mod_eq_of_lt (by omega)]
  exact Nat.mul_div_cancel _ (by decide)

theorem toNat_shiftLeft_lt {y : BitVec 32} {k : ℕ} (hy : y.toNat < 2 ^ 8) (hk : k ≤ 16) :
    (y <<< k).toNat < 2 ^ 24 := by
  rw [BitVec.toNat_shiftLeft, Nat.shiftLeft_eq]
  have hpow : 2 ^ k ≤ 2 ^ 16 := Nat.pow_le_pow_right (by decide) hk
  calc y.toNat * 2 ^ k % 2 ^ 32 ≤ y.toNat * 2 ^ k := Nat.mod_le _ _
    _ < 2 ^ 8 * 2 ^ 16 := Nat.mul_lt_mul_of_lt_of_le hy hpow (Nat.two_pow_pos _)
    _ = 2 ^ 24 := (Nat.pow_add 2 8 16).symm

theorem toNat_and_0xff_lt (x : BitVec 32) : (x &&& (0xff : BitVec 32)).toNat < 2 ^ 8 := by
  rw [BitVec.toNat_and]
  exact Nat.lt_of_le_of_lt Nat.and_le_right (by decide)

theorem toNat_ushiftRight_24_lt (x : BitVec 32) : (x >>> 24).toNat < 2 ^ 8 := by
  rw [BitVec.toNat_ushiftRight, Nat.shiftRight_eq_div_pow]
  exact (Nat.div_lt_iff_lt_mul (Nat.two_pow_pos 24)).mpr (by have := x.isLt; omega)

/-- A byte value placed from bit `8 * (k + 1)`, `k ≤ 2`, loses one place through a zero byte. -/
theorem zeroByte_byte_shiftLeft {y : BitVec 32} (hy : y.toNat < 2 ^ 8) {k : ℕ} (hk : k ≤ 16) :
    zeroByte poly ((y <<< k) <<< 8) = y <<< k := by
  rw [zeroByte_shiftLeft, shiftLeft_ushiftRight_eight (toNat_shiftLeft_lt hy hk)]

theorem toNat_setWidth_lt (b : BitVec 8) : (b.setWidth 32).toNat < 2 ^ 8 := by
  rw [BitVec.toNat_setWidth, Nat.mod_eq_of_lt (by have := b.isLt; omega)]
  exact b.isLt

/-! ## Table-driven steps -/

/-- Eight bits out of the register: the table entry of its low byte, and the rest shifted
down. -/
theorem zeroByte_eq (c : BitVec 32) :
    zeroByte poly c = zeroByte poly (c &&& (0xff : BitVec 32)) ^^^ (c >>> 8) := by
  have hsplit : c = (c &&& (0xff : BitVec 32)) ^^^ ((c >>> 8) <<< 8) := by
    apply BitVec.eq_of_getLsbD_eq
    intro i hi
    simp only [getLsbD_xor, getLsbD_and, getLsbD_ushiftRight, getLsbD_shiftLeft, getLsbD_0xff,
      hi, decide_true, Bool.true_and]
    by_cases h8 : i < 8
    · simp [h8]
    · simp [h8, show 8 + (i - 8) = i by omega]
  have hhigh : (c >>> 8).toNat < 2 ^ 24 := by
    rw [BitVec.toNat_ushiftRight, Nat.shiftRight_eq_div_pow]
    exact (Nat.div_lt_iff_lt_mul (Nat.two_pow_pos 8)).mpr (by have := c.isLt; omega)
  conv_lhs => rw [hsplit, isLinear_zeroByte poly, zeroByte_shiftLeft,
    shiftLeft_ushiftRight_eight hhigh]

/-- Four zero bytes through the register are four table entries, one for each of its bytes. -/
theorem zeroByte_four (x : BitVec 32) :
    (zeroByte poly)^[4] x = (zeroByte poly)^[4] (x &&& (0xff : BitVec 32)) ^^^
      (zeroByte poly)^[3] ((x >>> 8) &&& (0xff : BitVec 32)) ^^^
      (zeroByte poly)^[2] ((x >>> 16) &&& (0xff : BitVec 32)) ^^^ zeroByte poly (x >>> 24) := by
  have hZ := isLinear_zeroByte poly
  rw [(hZ.iterate 4).map_bytes x]
  -- each byte above the low one loses a place to each zero byte it goes through
  have h1 := zeroByte_byte_shiftLeft poly (toNat_and_0xff_lt (x >>> 8)) (Nat.zero_le 16)
  have h2 := zeroByte_byte_shiftLeft poly (toNat_and_0xff_lt (x >>> 16)) (show 8 ≤ 16 by decide)
  have h2' := zeroByte_byte_shiftLeft poly (toNat_and_0xff_lt (x >>> 16)) (Nat.zero_le 16)
  have h3 := zeroByte_byte_shiftLeft poly (toNat_ushiftRight_24_lt x) (le_refl 16)
  have h3' := zeroByte_byte_shiftLeft poly (toNat_ushiftRight_24_lt x) (show 8 ≤ 16 by decide)
  have h3'' := zeroByte_byte_shiftLeft poly (toNat_ushiftRight_24_lt x) (Nat.zero_le 16)
  simp only [BitVec.shiftLeft_zero] at h1 h2' h3''
  rw [← BitVec.shiftLeft_add] at h2 h3 h3'
  simp only [Function.iterate_succ_apply, h1, h2, h2', h3, h3', h3'', Function.iterate_zero, id]

/-! ## Messages -/

theorem crcRegister_append (c : BitVec 32) (a b : List (BitVec 8)) :
    crcRegister poly c (a ++ b) = crcRegister poly (crcRegister poly c a) b :=
  List.foldl_append

/-- A message run from `c` is the message run from 0, xored with `c` run through as many zero
bytes. -/
theorem crcRegister_eq_zeros (c : BitVec 32) (data : List (BitVec 8)) :
    crcRegister poly c data = (zeroByte poly)^[data.length] c ^^^ crcRegister poly 0 data := by
  induction data generalizing c with
  | nil => simp [crcRegister]
  | cons b data ih =>
    simp only [crcRegister, List.foldl_cons] at ih ⊢
    -- the byte and the register go through the zero bytes apart
    rw [ih, ih (byteUpdate poly 0 b), byteUpdate, byteUpdate, ofNat_zero_xor,
      isLinear_zeroByte poly, (isLinear_zeroByte poly).iterate, List.length_cons,
      Function.iterate_succ_apply, BitVec.xor_assoc]

/-- Four bytes through the register are four zero bytes through the register xored with the
little-endian word of the bytes. -/
theorem crcRegister_word (c : BitVec 32) (b0 b1 b2 b3 : BitVec 8) :
    crcRegister poly c [b0, b1, b2, b3] =
      (zeroByte poly)^[4] (c ^^^ (b0.setWidth 32 ^^^ (b1.setWidth 32 <<< 8) ^^^
        (b2.setWidth 32 <<< 16) ^^^ (b3.setWidth 32 <<< 24))) := by
  have hZ : ∀ x y, zeroByte poly (x ^^^ y) = zeroByte poly x ^^^ zeroByte poly y :=
    isLinear_zeroByte poly
  -- each byte above the low one loses a place to each zero byte it goes through
  have h1 := zeroByte_byte_shiftLeft poly (toNat_setWidth_lt b1) (Nat.zero_le 16)
  have h2 := zeroByte_byte_shiftLeft poly (toNat_setWidth_lt b2) (show 8 ≤ 16 by decide)
  have h2' := zeroByte_byte_shiftLeft poly (toNat_setWidth_lt b2) (Nat.zero_le 16)
  have h3 := zeroByte_byte_shiftLeft poly (toNat_setWidth_lt b3) (le_refl 16)
  have h3' := zeroByte_byte_shiftLeft poly (toNat_setWidth_lt b3) (show 8 ≤ 16 by decide)
  have h3'' := zeroByte_byte_shiftLeft poly (toNat_setWidth_lt b3) (Nat.zero_le 16)
  simp only [BitVec.shiftLeft_zero] at h1 h2' h3''
  rw [← BitVec.shiftLeft_add] at h2 h3 h3'
  simp only [crcRegister, List.foldl_cons, List.foldl_nil, byteUpdate, Function.iterate_succ_apply,
    Function.iterate_zero, id, hZ, h1, h2, h2', h3, h3', h3'']
  ac_rfl

/-- A register complemented before and after a message is the register run through as many
zero bytes, xored with what the message gives from zero, complemented the same way. -/
theorem crcRegister_xor_eq_zeros (x k : BitVec 32) (data : List (BitVec 8)) :
    crcRegister poly (x ^^^ k) data ^^^ k =
      (zeroByte poly)^[data.length] x ^^^ (crcRegister poly k data ^^^ k) := by
  rw [crcRegister_eq_zeros poly (x ^^^ k), crcRegister_eq_zeros poly k,
    (isLinear_zeroByte poly).iterate _ x k]
  ac_rfl

/-- Zero bytes through the register. -/
theorem crcRegister_zeros (c : BitVec 32) (n : ℕ) :
    crcRegister poly c (List.replicate n 0) = (zeroByte poly)^[n] c := by
  induction n generalizing c with
  | zero => rfl
  | succ n ih =>
    rw [List.replicate_succ, crcRegister, List.foldl_cons, ← crcRegister, ih, byteUpdate,
      show (0 : BitVec 8).setWidth 32 = 0 by decide, xor_ofNat_zero, Function.iterate_succ_apply]

end ReflectedCrc
