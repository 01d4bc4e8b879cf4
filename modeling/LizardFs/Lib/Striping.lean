import Mathlib

/-!
# Round-robin striping

`n` blocks dealt out over `d` parts, block `b` to part `b % d`, give part `i` the
`⌈(n - i) / d⌉` blocks `blocksOf d i n`. The bytes of a stream of `len` bytes cut into
blocks of `bs` bytes and dealt out the same way give part `i` one block of every full stripe
of `d` blocks and, of the last stripe, the bytes of its `i`-th block: `lengthOf bs d i len`.

The two counts agree: the parts hold all the blocks and all the bytes (`sum_blocksOf`,
`sum_lengthOf`), the first part is the longest and at most one block longer than any other
(`lengthOf_le_first`, `first_le_lengthOf`), and the blocks a part's bytes fill are the blocks
it gets of the stream's blocks (`ceil_lengthOf`).
-/

namespace Striping

/-- The blocks part `i` of `d` gets when `n` blocks are dealt out round robin. -/
def blocksOf (d i n : ℕ) : ℕ := (n + d - i - 1) / d

/-- The bytes part `i` of `d` gets of `len` bytes dealt out round robin in blocks of `bs`. -/
def lengthOf (bs d i len : ℕ) : ℕ := len / (d * bs) * bs + min (len % (d * bs) - i * bs) bs

/-! ## Blocks -/

/-- A full round of `d` more blocks gives every part one more. -/
theorem blocksOf_add {d i : ℕ} (hd : 0 < d) (hi : i < d) (n : ℕ) :
    blocksOf d i (n + d) = blocksOf d i n + 1 := by
  unfold blocksOf
  rw [show n + d + d - i - 1 = n + d - i - 1 + d by omega, Nat.add_div_right _ hd]

/-- With fewer blocks than parts, the first `n` parts get one each. -/
theorem blocksOf_of_lt {d i n : ℕ} (hi : i < d) (hn : n < d) :
    blocksOf d i n = if i < n then 1 else 0 := by
  unfold blocksOf
  split
  · exact Nat.div_eq_of_lt_le (by omega) (by omega)
  · exact Nat.div_eq_of_lt (by omega)

/-- `n ≤ d` of `d` parts, one each. -/
theorem sum_range_indicator : ∀ (d n : ℕ), n ≤ d →
    ((List.range d).map fun i => if i < n then 1 else 0).sum = n
  | 0, n, h => by simp; omega
  | d + 1, n, h => by
    -- the first part gets one if there is a block; the others share the rest
    rw [List.sum_range_succ']
    have hshift : ∀ i, (if i + 1 < n then 1 else 0) = if i < n - 1 then 1 else 0 := fun i => by
      by_cases hin : i + 1 < n
      · rw [if_pos hin, if_pos (by omega)]
      · rw [if_neg hin, if_neg (by omega)]
    simp only [hshift, sum_range_indicator d (n - 1) (by omega)]
    split <;> omega

/-- The parts hold all the blocks. -/
theorem sum_blocksOf {d : ℕ} (hd : 0 < d) (n : ℕ) :
    ((List.range d).map fun i => blocksOf d i n).sum = n := by
  induction n using Nat.strongRecOn with
  | ind n ih =>
    by_cases hn : n < d
    · rw [List.map_congr_left fun i hi => blocksOf_of_lt (List.mem_range.mp hi) hn]
      exact sum_range_indicator d n (Nat.le_of_lt hn)
    · -- one full round less, and one block more for every part
      obtain ⟨m, rfl⟩ : ∃ m, n = m + d := ⟨n - d, by omega⟩
      rw [List.map_congr_left fun i hi => blocksOf_add hd (List.mem_range.mp hi) m,
        List.sum_map_add, ih m (by omega)]
      simp

/-! ## Bytes -/

/-- The rest `r ≤ d * bs` of the last stripe, cut into its `d` blocks. -/
theorem sum_clipped {bs : ℕ} : ∀ (d r : ℕ), r ≤ d * bs →
    ((List.range d).map fun i => min (r - i * bs) bs).sum = r
  | 0, r, h => by simp; omega
  | d + 1, r, h => by
    -- the first block takes up to `bs` bytes, the others share what is left
    rw [List.sum_range_succ']
    have hshift : ∀ i, min (r - (i + 1) * bs) bs = min (r - bs - i * bs) bs := fun i => by
      rw [Nat.add_mul, Nat.one_mul, Nat.sub_sub, Nat.add_comm (i * bs)]
    have hrest : r - bs ≤ d * bs := by
      rw [Nat.add_mul, Nat.one_mul] at h
      omega
    simp only [hshift, sum_clipped d (r - bs) hrest, Nat.zero_mul, Nat.sub_zero]
    omega

/-- The parts hold all the bytes. -/
theorem sum_lengthOf {bs d : ℕ} (hbs : 0 < bs) (hd : 0 < d) (len : ℕ) :
    ((List.range d).map fun i => lengthOf bs d i len).sum = len := by
  have hrest : len % (d * bs) ≤ d * bs := Nat.le_of_lt (Nat.mod_lt _ (Nat.mul_pos hd hbs))
  unfold lengthOf
  rw [List.sum_map_add, sum_clipped d _ hrest]
  simp only [List.map_const', List.length_range, List.sum_replicate, Nat.nsmul_eq_mul]
  -- the full stripes and the rest of the last one
  have hsplit := Nat.div_add_mod len (d * bs)
  have hfull : d * (len / (d * bs) * bs) = d * bs * (len / (d * bs)) := by
    rw [Nat.mul_comm _ bs, ← Nat.mul_assoc]
  omega

/-- One part holds the whole stream. -/
theorem lengthOf_one {bs : ℕ} (hbs : 0 < bs) (len : ℕ) : lengthOf bs 1 0 len = len := by
  have hmod : len % bs < bs := Nat.mod_lt _ hbs
  have hsplit := Nat.div_add_mod' len bs
  simp only [lengthOf, Nat.one_mul, Nat.zero_mul, Nat.sub_zero]
  omega

/-- The first part is the longest. -/
theorem lengthOf_le_first (bs d i len : ℕ) : lengthOf bs d i len ≤ lengthOf bs d 0 len := by
  unfold lengthOf
  have : len % (d * bs) - i * bs ≤ len % (d * bs) - 0 * bs := by
    rw [Nat.zero_mul, Nat.sub_zero]
    exact Nat.sub_le _ _
  omega

/-- No part is more than one block shorter than the first. -/
theorem first_le_lengthOf (bs d i len : ℕ) : lengthOf bs d 0 len ≤ lengthOf bs d i len + bs := by
  unfold lengthOf
  omega

/-! ## Blocks of bytes -/

/-- A stripe rest `c ≤ bs` of one block fills a block exactly when it is not empty. -/
theorem ceil_of_le_block {bs c : ℕ} (hbs : 0 < bs) (hc : c ≤ bs) :
    (c + bs - 1) / bs = if 0 < c then 1 else 0 := by
  split
  · exact Nat.div_eq_of_lt_le (by omega) (by omega)
  · exact Nat.div_eq_of_lt (by omega)

/-- The blocks the rest `r < d * bs` of the last stripe fills reach part `i` exactly when the
rest reaches its block. -/
theorem blocksOf_ceil_rest {bs d i r : ℕ} (hbs : 0 < bs) (hi : i < d) (hr : r < d * bs) :
    ((r + bs - 1) / bs + d - i - 1) / d = if i * bs < r then 1 else 0 := by
  have hd : 0 < d := by omega
  -- the rest fills at most `d` blocks
  have hR : (r + bs - 1) / bs ≤ d := by
    apply Nat.le_of_lt_succ
    rw [Nat.div_lt_iff_lt_mul hbs, Nat.succ_mul]
    omega
  split
  · next hlt =>
    have hR' : i + 1 ≤ (r + bs - 1) / bs := by
      rw [Nat.le_div_iff_mul_le hbs, Nat.succ_mul]
      omega
    exact Nat.div_eq_of_lt_le (by omega) (by omega)
  · next hge =>
    have hR' : (r + bs - 1) / bs ≤ i := by
      apply Nat.le_of_lt_succ
      rw [Nat.div_lt_iff_lt_mul hbs, Nat.succ_mul]
      omega
    exact Nat.div_eq_of_lt (by omega)

/-- The blocks a part's bytes fill are the blocks it gets of the stream's blocks. -/
theorem ceil_lengthOf {bs d i : ℕ} (hbs : 0 < bs) (hi : i < d) (len : ℕ) :
    (lengthOf bs d i len + bs - 1) / bs = blocksOf d i ((len + bs - 1) / bs) := by
  have hd : 0 < d := by omega
  have hr : len % (d * bs) < d * bs := Nat.mod_lt _ (Nat.mul_pos hd hbs)
  have hsplit := Nat.div_add_mod len (d * bs)
  generalize len / (d * bs) = q at hsplit
  generalize len % (d * bs) = r at hsplit hr
  subst hsplit
  -- both sides are `q` plus what the rest of the last stripe gives
  have hlhs : (q * bs + min (r - i * bs) bs + bs - 1) / bs =
      (min (r - i * bs) bs + bs - 1) / bs + q := by
    rw [← Nat.add_mul_div_right _ q hbs]
    congr 1
    omega
  have hrhs : (d * bs * q + r + bs - 1) / bs = (r + bs - 1) / bs + q * d := by
    rw [← Nat.add_mul_div_right _ (q * d) hbs]
    congr 1
    rw [Nat.mul_comm d bs, Nat.mul_assoc, Nat.mul_comm bs, Nat.mul_comm d q]
    omega
  have hblocks : blocksOf d i ((r + bs - 1) / bs + q * d) =
      ((r + bs - 1) / bs + d - i - 1) / d + q := by
    unfold blocksOf
    rw [← Nat.add_mul_div_right _ q hd]
    congr 1
    generalize (r + bs - 1) / bs = R
    generalize q * d = m
    omega
  have hclip : min (r - i * bs) bs ≤ bs := Nat.min_le_right _ _
  unfold lengthOf
  rw [show (d * bs * q + r) / (d * bs) = q by
      rw [Nat.mul_comm (d * bs), Nat.add_comm, Nat.add_mul_div_right _ _ (Nat.mul_pos hd hbs),
        Nat.div_eq_of_lt hr, Nat.zero_add],
    show (d * bs * q + r) % (d * bs) = r by
      rw [Nat.mul_comm (d * bs), Nat.add_comm, Nat.add_mul_mod_self_right, Nat.mod_eq_of_lt hr],
    hlhs, hrhs, hblocks, ceil_of_le_block hbs hclip, blocksOf_ceil_rest hbs hi hr]
  congr 1
  by_cases h : i * bs < r
  · rw [if_pos (by omega), if_pos h]
  · rw [if_neg (by omega), if_neg h]

end Striping
