import Mathlib

/-!
# Binary min-heaps in an array, kept by swaps

A heap of `n` entries sits in an array `f : ℕ → α` at positions `0, ..., n - 1`,
ordered by a key: the entry at `i > 0` is not below its parent at `(i - 1) / 2`
(`IsHeap`). Two loops restore the order after the entry at one position changed:

* `siftDown` swaps the entry with its smaller child while that child is below it —
  the smaller child is the right one only when it is strictly below the left one
  (`minChild`);
* `siftUp` swaps the entry with its parent while the parent is above it.

The invariants of the loops say that the order holds everywhere except at the
moving entry (`DownOrder`, `UpOrder`), with the grandparent of its children in
order with them; each swap moves the exception one level (`DownOrder.swap`,
`UpOrder.swap`), and the loop ends in a heap (`siftDown_isHeap`, `siftUp_isHeap`).
Swaps only permute the entries (`perm_siftDown`, `perm_siftUp`), and the root of a
heap is its least entry (`IsHeap.root_le`).
-/

namespace ArrayHeap

variable {α κ : Type*} [LinearOrder κ]

/-- The parent of position `i > 0`. -/
def parent (i : ℕ) : ℕ := (i - 1) / 2

theorem parent_lt {i : ℕ} (h : 0 < i) : parent i < i := by
  unfold parent
  omega

theorem parent_left (p : ℕ) : parent (2 * p + 1) = p := by
  unfold parent
  omega

theorem parent_right (p : ℕ) : parent (2 * p + 2) = p := by
  unfold parent
  omega

/-- The children of `p` are `2 * p + 1` and `2 * p + 2`. -/
theorem eq_of_parent_eq {c p : ℕ} (hc : 0 < c) (h : parent c = p) : c = 2 * p + 1 ∨ c = 2 * p + 2 := by
  unfold parent at h
  omega

/-- The array after swapping positions `i` and `j`. -/
def swap (f : ℕ → α) (i j : ℕ) : ℕ → α := f ∘ Equiv.swap i j

@[simp] theorem swap_left (f : ℕ → α) (i j : ℕ) : swap f i j i = f j := by
  simp [swap]

@[simp] theorem swap_right (f : ℕ → α) (i j : ℕ) : swap f i j j = f i := by
  simp [swap]

theorem swap_of_ne (f : ℕ → α) {i j k : ℕ} (hi : k ≠ i) (hj : k ≠ j) : swap f i j k = f k := by
  simp [swap, Equiv.swap_apply_of_ne_of_ne hi hj]

/-- A swap of two positions of the heap only permutes its entries. -/
theorem perm_swap (f : ℕ → α) {n i j : ℕ} (hi : i < n) (hj : j < n) :
    ((List.range n).map (swap f i j)).Perm ((List.range n).map f) := by
  have hσ : ((List.range n).map (Equiv.swap i j)).Perm (List.range n) := by
    rw [List.perm_ext_iff_of_nodup ((List.nodup_range).map (Equiv.swap i j).injective) List.nodup_range]
    intro a
    simp only [List.mem_map, List.mem_range]
    constructor
    · rintro ⟨b, hb, rfl⟩
      rcases eq_or_ne b i with rfl | hbi
      · simpa using hj
      rcases eq_or_ne b j with rfl | hbj
      · simpa using hi
      · rwa [Equiv.swap_apply_of_ne_of_ne hbi hbj]
    · intro ha
      exact ⟨Equiv.swap i j a, by
        rcases eq_or_ne a i with rfl | hai
        · simpa using hj
        rcases eq_or_ne a j with rfl | haj
        · simpa using hi
        · rwa [Equiv.swap_apply_of_ne_of_ne hai haj], Equiv.swap_apply_self i j a⟩
  have := hσ.map f
  rwa [List.map_map] at this

/-- Swapping the root with the last entry and dropping it leaves the other entries. -/
theorem perm_swap_last (f : ℕ → α) {n : ℕ} (hn : 0 < n) :
    ((List.range n).map f).Perm ((List.range (n - 1)).map (swap f 0 (n - 1)) ++ [f 0]) := by
  have hsplit : (List.range n).map (swap f 0 (n - 1)) =
      (List.range (n - 1)).map (swap f 0 (n - 1)) ++ [f 0] := by
    obtain ⟨k, rfl⟩ : ∃ k, n = k + 1 := ⟨n - 1, by omega⟩
    simp [List.range_succ]
  rw [← hsplit]
  exact (perm_swap f hn (by omega)).symm

/-- The entries after an update of the root: the new root, then the old rest. -/
theorem map_range_update_zero (f : ℕ → α) (x : α) (n : ℕ) :
    (List.range (n + 1)).map (Function.update f 0 x) = x :: (List.range n).map fun i => f (i + 1) := by
  simp [List.range_succ_eq_map, Function.update_of_ne]

/-- The entries after an entry is put at the end. -/
theorem map_range_update_last (f : ℕ → α) (x : α) (n : ℕ) :
    (List.range (n + 1)).map (Function.update f n x) = (List.range n).map f ++ [x] := by
  rw [List.range_succ, List.map_append, List.map_singleton, Function.update_self]
  congr 1
  refine List.map_congr_left fun i hi => Function.update_of_ne (List.mem_range.mp hi).ne _ _

/-- What holds of every entry of an array holds of every entry of a permutation of it. -/
theorem forall_of_perm {P : α → Prop} {f g : ℕ → α} {n m : ℕ}
    (hp : ((List.range n).map f).Perm ((List.range m).map g)) (hg : ∀ i, i < m → P (g i)) :
    ∀ i, i < n → P (f i) := by
  intro i hi
  have hmem : f i ∈ (List.range m).map g := hp.mem_iff.mp (List.mem_map_of_mem (List.mem_range.mpr hi))
  obtain ⟨j, hj, hji⟩ := List.mem_map.mp hmem
  exact hji ▸ hg j (List.mem_range.mp hj)

variable (key : α → κ)

/-- The order of a heap of `n` entries: no entry is below its parent. -/
def IsHeap (n : ℕ) (f : ℕ → α) : Prop := ∀ i, 0 < i → i < n → key (f (parent i)) ≤ key (f i)

/-- The child `siftDown` compares with: the right one when it exists and is strictly
below the left one. -/
def minChild (n : ℕ) (f : ℕ → α) (pos : ℕ) : ℕ :=
  if 2 * pos + 2 < n ∧ key (f (2 * pos + 2)) < key (f (2 * pos + 1)) then 2 * pos + 2 else 2 * pos + 1

/-- Sift the entry at `pos` down: while it has a child and the smaller child is
below it, swap the two. -/
def siftDown (n : ℕ) (f : ℕ → α) (pos : ℕ) : ℕ → α :=
  if _hl : 2 * pos + 1 < n then
    if key (f pos) ≤ key (f (minChild key n f pos)) then f
    else siftDown n (swap f pos (minChild key n f pos)) (minChild key n f pos)
  else f
termination_by n - pos
decreasing_by
  unfold minChild
  split <;> omega

/-- Sift the entry at `pos` up: while its parent is above it, swap the two. -/
def siftUp (f : ℕ → α) (pos : ℕ) : ℕ → α :=
  if _h : pos = 0 then f
  else if key (f (parent pos)) ≤ key (f pos) then f
  else siftUp (swap f pos (parent pos)) (parent pos)
termination_by pos
decreasing_by exact parent_lt (Nat.pos_of_ne_zero _h)

variable {key}

/-! ## The smaller child -/

theorem minChild_parent {n : ℕ} {f : ℕ → α} {pos : ℕ} : parent (minChild key n f pos) = pos := by
  unfold minChild
  split
  · exact parent_right pos
  · exact parent_left pos

theorem pos_lt_minChild {n : ℕ} {f : ℕ → α} {pos : ℕ} : pos < minChild key n f pos := by
  unfold minChild
  split <;> omega

theorem minChild_lt {n : ℕ} {f : ℕ → α} {pos : ℕ} (hl : 2 * pos + 1 < n) : minChild key n f pos < n := by
  unfold minChild
  split <;> omega

/-- The smaller child is not above any child. -/
theorem minChild_le {n : ℕ} {f : ℕ → α} {pos c : ℕ} (hc : 0 < c) (hcn : c < n) (hpc : parent c = pos) :
    key (f (minChild key n f pos)) ≤ key (f c) := by
  unfold minChild
  rcases eq_of_parent_eq hc hpc with rfl | rfl
  · split
    · rename_i h
      exact h.2.le
    · exact le_rfl
  · split
    · exact le_rfl
    · rename_i h
      exact not_lt.mp fun hlt => h ⟨hcn, hlt⟩

/-! ## Sifting down -/

variable (key) in
/-- The order `siftDown` keeps: every entry but the children of `pos` is in order
with its parent, and the parent of `pos` is not above those children. -/
structure DownOrder (n : ℕ) (f : ℕ → α) (pos : ℕ) : Prop where
  except : ∀ i, 0 < i → i < n → parent i ≠ pos → key (f (parent i)) ≤ key (f i)
  grand : 0 < pos → ∀ c, 0 < c → c < n → parent c = pos → key (f (parent pos)) ≤ key (f c)

/-- A swap with the smaller child, when it is below the entry, moves the exception
down to the child. -/
theorem DownOrder.swap {n : ℕ} {f : ℕ → α} {pos : ℕ} (o : DownOrder key n f pos) (hl : 2 * pos + 1 < n)
    (hgt : key (f (minChild key n f pos)) < key (f pos)) :
    DownOrder key n (swap f pos (minChild key n f pos)) (minChild key n f pos) := by
  have hpm : pos < minChild key n f pos := pos_lt_minChild
  have hmn : minChild key n f pos < n := minChild_lt hl
  have hmp : parent (minChild key n f pos) = pos := minChild_parent
  generalize hm : minChild key n f pos = m at hpm hmn hmp hgt
  have hmin : ∀ c, 0 < c → c < n → parent c = pos → key (f m) ≤ key (f c) := fun c hc hcn hpc =>
    hm ▸ minChild_le hc hcn hpc
  constructor
  · intro i hi hin hpi
    by_cases hip : i = pos
    · -- the edge into `pos`: its parent is not above the smaller child
      subst hip
      have hpp : parent i < i := parent_lt hi
      rw [swap_left, swap_of_ne f (by omega) (by omega)]
      exact o.grand hi m (by omega) hmn hmp
    by_cases him : i = m
    · -- the edge from `pos` to `m`: the two entries swapped
      subst him
      rw [hmp, swap_left, swap_right]
      exact hgt.le
    by_cases hpp : parent i = pos
    · -- the other child of `pos`: the smaller child is not above it
      rw [hpp, swap_left, swap_of_ne f hip him]
      exact hmin i hi hin hpp
    · have hpim : parent i ≠ m := hpi
      rw [swap_of_ne f hpp hpim, swap_of_ne f hip him]
      exact o.except i hi hin hpp
  · intro _ c hc hcn hpc
    -- the children of `m` were in order with `m`, which is now at `pos`
    have hcm : m < c := hpc ▸ parent_lt hc
    rw [hmp, swap_left, swap_of_ne f (by omega) (by omega)]
    have := o.except c hc hcn (by rw [hpc]; omega)
    rwa [hpc] at this

/-- An entry not above its children ends the exception. -/
theorem DownOrder.isHeap {n : ℕ} {f : ℕ → α} {pos : ℕ} (o : DownOrder key n f pos)
    (hstop : ∀ c, 0 < c → c < n → parent c = pos → key (f pos) ≤ key (f c)) : IsHeap key n f := by
  intro i hi hin
  by_cases hpi : parent i = pos
  · rw [hpi]
    exact hstop i hi hin hpi
  · exact o.except i hi hin hpi

/-- `siftDown` turns the order it keeps into a heap. -/
theorem siftDown_isHeap {n : ℕ} {f : ℕ → α} {pos : ℕ} (o : DownOrder key n f pos) :
    IsHeap key n (siftDown key n f pos) := by
  induction f, pos using siftDown.induct key n with
  | case1 f pos hl hle =>
    rw [siftDown, dif_pos hl, if_pos hle]
    exact o.isHeap fun c hc hcn hpc => hle.trans (minChild_le hc hcn hpc)
  | case2 f pos hl hgt ih =>
    rw [siftDown, dif_pos hl, if_neg hgt]
    exact ih (o.swap hl (not_le.mp hgt))
  | case3 f pos hl =>
    rw [siftDown, dif_neg hl]
    -- no child: nothing to compare
    refine o.isHeap fun c hc hcn hpc => ?_
    rcases eq_of_parent_eq hc hpc with rfl | rfl <;> omega

theorem perm_siftDown (n : ℕ) (f : ℕ → α) {pos : ℕ} :
    ((List.range n).map (siftDown key n f pos)).Perm ((List.range n).map f) := by
  induction f, pos using siftDown.induct key n with
  | case1 f pos hl hle => rw [siftDown, dif_pos hl, if_pos hle]
  | case2 f pos hl hgt ih =>
    rw [siftDown, dif_pos hl, if_neg hgt]
    exact ih.trans (perm_swap f (by omega) (minChild_lt hl))
  | case3 f pos hl => rw [siftDown, dif_neg hl]

/-! ## Sifting up -/

variable (key) in
/-- The order `siftUp` keeps: every entry but the one at `pos` is in order with its
parent, and the parent of `pos` is not above the children of `pos`. -/
structure UpOrder (n : ℕ) (f : ℕ → α) (pos : ℕ) : Prop where
  except : ∀ i, 0 < i → i < n → i ≠ pos → key (f (parent i)) ≤ key (f i)
  grand : 0 < pos → ∀ c, 0 < c → c < n → parent c = pos → key (f (parent pos)) ≤ key (f c)

/-- A swap with the parent, when it is above the entry, moves the exception up. -/
theorem UpOrder.swap {n : ℕ} {f : ℕ → α} {pos : ℕ} (o : UpOrder key n f pos) (hpos : 0 < pos) (hn : pos < n)
    (hgt : key (f pos) < key (f (parent pos))) :
    UpOrder key n (swap f pos (parent pos)) (parent pos) := by
  have hpp : parent pos < pos := parent_lt hpos
  generalize hp : parent pos = p at hpp hgt
  constructor
  · intro i hi hin hip
    by_cases hipos : i = pos
    · -- the edge from `p` to `pos`: the two entries swapped
      subst hipos
      rw [hp, swap_right, swap_left]
      exact hgt.le
    by_cases hpi : parent i = pos
    · -- the children of `pos`: the old parent is not above them
      have hpos_i : pos < i := hpi ▸ parent_lt hi
      rw [hpi, swap_left, swap_of_ne f (by omega) (by omega)]
      rw [← hp]
      exact o.grand hpos i hi hin hpi
    by_cases hpip : parent i = p
    · -- the sibling of `pos`: below the old parent, which is above the entry
      rw [hpip, swap_right, swap_of_ne f hipos hip]
      have := o.except i hi hin hipos
      rw [hpip] at this
      exact hgt.le.trans this
    · rw [swap_of_ne f hpi hpip, swap_of_ne f hipos hip]
      exact o.except i hi hin hipos
  · intro hp0 c hc hcn hpc
    -- the children of `p` are `pos` and its sibling; both are not below the parent of `p`
    have hpp' : parent p < p := parent_lt hp0
    have hpar : key (f (parent p)) ≤ key (f p) := o.except p hp0 (by omega) (by omega)
    rw [swap_of_ne f (by omega) (by omega)]
    by_cases hcpos : c = pos
    · subst hcpos
      rw [swap_left]
      exact hpar
    · rw [swap_of_ne f hcpos (by have := parent_lt hc; omega)]
      have := o.except c hc hcn hcpos
      rw [hpc] at this
      exact hpar.trans this

/-- A parent not above the entry ends the exception. -/
theorem UpOrder.isHeap {n : ℕ} {f : ℕ → α} {pos : ℕ} (o : UpOrder key n f pos)
    (hstop : 0 < pos → key (f (parent pos)) ≤ key (f pos)) : IsHeap key n f := by
  intro i hi hin
  by_cases hip : i = pos
  · subst hip
    exact hstop hi
  · exact o.except i hi hin hip

/-- `siftUp` turns the order it keeps into a heap. -/
theorem siftUp_isHeap {n : ℕ} {f : ℕ → α} {pos : ℕ} (o : UpOrder key n f pos) (hn : pos < n) :
    IsHeap key n (siftUp key f pos) := by
  induction f, pos using siftUp.induct key with
  | case1 f =>
    rw [siftUp, dif_pos rfl]
    exact o.isHeap fun h => absurd h (lt_irrefl 0)
  | case2 f pos h0 hle =>
    rw [siftUp, dif_neg h0, if_pos hle]
    exact o.isHeap fun _ => hle
  | case3 f pos h0 hgt ih =>
    rw [siftUp, dif_neg h0, if_neg hgt]
    have hpos := Nat.pos_of_ne_zero h0
    exact ih (o.swap hpos hn (not_le.mp hgt)) ((parent_lt hpos).trans hn)

theorem perm_siftUp {n : ℕ} (f : ℕ → α) {pos : ℕ} (hn : pos < n) :
    ((List.range n).map (siftUp key f pos)).Perm ((List.range n).map f) := by
  induction f, pos using siftUp.induct key with
  | case1 f => rw [siftUp, dif_pos rfl]
  | case2 f pos h0 hle => rw [siftUp, dif_neg h0, if_pos hle]
  | case3 f pos h0 hgt ih =>
    rw [siftUp, dif_neg h0, if_neg hgt]
    have hp := parent_lt (Nat.pos_of_ne_zero h0)
    exact (ih (hp.trans hn)).trans (perm_swap f hn (hp.trans hn))

/-! ## Where the loops start -/

/-- A heap whose root changed, or that lost entries at its end, is in the order of
`siftDown` from the root. -/
theorem IsHeap.downOrder {n m : ℕ} {f g : ℕ → α} (h : IsHeap key n f) (hm : m ≤ n)
    (hg : ∀ i, 0 < i → i < m → g i = f i) : DownOrder key m g 0 := by
  constructor
  · intro i hi him hpi
    have hp : 0 < parent i := Nat.pos_of_ne_zero hpi
    rw [hg i hi him, hg (parent i) hp ((parent_lt hi).trans him)]
    exact h i hi (by omega)
  · intro h0
    exact absurd h0 (lt_irrefl 0)

/-- The heap property reads only the first `n` entries. -/
theorem IsHeap.congr {n : ℕ} {f g : ℕ → α} (h : IsHeap key n f) (hg : ∀ i, i < n → g i = f i) :
    IsHeap key n g := by
  intro i hi hin
  rw [hg i hin, hg (parent i) ((parent_lt hi).trans hin)]
  exact h i hi hin

/-- A heap with an entry put after its end is in the order of `siftUp` from there. -/
theorem IsHeap.upOrder {n : ℕ} {f : ℕ → α} (h : IsHeap key n f) : UpOrder key (n + 1) f n := by
  constructor
  · intro i hi hin hne
    exact h i hi (by omega)
  · intro _ c hc hcn hpc
    -- the entry at the end has no child in the heap
    have := parent_lt hc
    omega

/-- The root of a heap is its least entry. -/
theorem IsHeap.root_le {n : ℕ} {f : ℕ → α} (h : IsHeap key n f) : ∀ i, i < n → key (f 0) ≤ key (f i) := by
  intro i
  -- strong induction on the position: climb to the root through the parents
  induction i using Nat.strong_induction_on with
  | _ i ih =>
    intro hin
    rcases Nat.eq_zero_or_pos i with rfl | hi
    · exact le_rfl
    · exact (ih (parent i) (parent_lt hi) ((parent_lt hi).trans hin)).trans (h i hi hin)

end ArrayHeap
