import Mathlib.Data.List.Sort
import Mathlib.Order.Bounds.Basic

/-!
# Order statistics of a list

The `k`-th largest element of a list is the largest `t` that at least `k` of its elements
reach (`IsKthLargest`). Counting is blind to order, so a permutation of a list has the
same order statistics (`IsKthLargest.perm`), and in a sorted list they stand at fixed
indices: at index `length - k` of an ascending list (`isKthLargest_of_sortedLE`) and at
`k - 1` of a descending one (`isKthLargest_of_sortedGE`). `isKthLargest_of_count` reduces
the property to two counts.
-/

namespace LizardFs

namespace OrderStatistic

variable {α : Type*} [LinearOrder α]

/-- `v` is the `k`-th largest element of `l`: the largest value that at least `k` elements
of `l` reach. -/
def IsKthLargest (l : List α) (k : ℕ) (v : α) : Prop :=
  IsGreatest {t | k ≤ l.countP fun x => t ≤ x} v

/-- At least `k` elements reach `v` and fewer than `k` exceed it. -/
theorem isKthLargest_of_count {l : List α} {k : ℕ} {v : α}
    (hge : k ≤ l.countP fun x => v ≤ x) (hgt : (l.countP fun x => v < x) < k) :
    IsKthLargest l k v := by
  refine ⟨hge, fun t ht => ?_⟩
  by_contra hlt
  -- a value above `v` is reached only by elements that exceed `v`
  have hmono : (l.countP fun x => t ≤ x) ≤ l.countP fun x => v < x :=
    List.countP_mono_left fun x _ h => by
      simp only [decide_eq_true_eq] at h ⊢
      exact lt_of_lt_of_le (not_le.mp hlt) h
  exact absurd (le_trans ht hmono) (not_le.mpr hgt)

theorem IsKthLargest.perm {l l' : List α} {k : ℕ} {v : α} (h : List.Perm l l')
    (hv : IsKthLargest l k v) : IsKthLargest l' k v := by
  have hset : {t | k ≤ l.countP fun x => t ≤ x} = {t | k ≤ l'.countP fun x => t ≤ x} := by
    ext t
    simp only [Set.mem_ofPred_eq, h.countP_eq]
  unfold IsKthLargest
  rw [← hset]
  exact hv

/-- In an ascending list, the element at index `i` is the `(length - i)`-th largest. -/
theorem isKthLargest_of_sortedLE {l : List α} (hs : l.Pairwise (· ≤ ·)) {i : ℕ}
    (hi : i < l.length) : IsKthLargest l (l.length - i) l[i] := by
  have hsplit := List.take_append_drop (i + 1) l
  have htake : ∀ x ∈ l.take (i + 1), x ≤ l[i] := by
    intro x hx
    rw [List.take_succ_eq_append_getElem hi] at hx
    rcases List.mem_append.mp hx with hx | hx
    · exact hs.rel_of_mem_take_of_mem_drop hx (List.drop_eq_getElem_cons hi ▸ List.mem_cons_self)
    · exact le_of_eq (List.mem_singleton.mp hx)
  have hdrop : ∀ y ∈ l.drop (i + 1), l[i] ≤ y := fun y hy =>
    hs.rel_of_mem_take_of_mem_drop (List.take_succ_eq_append_getElem hi ▸
      List.mem_append_right _ (List.mem_singleton_self _)) hy
  have hlen : (l.drop (i + 1)).length = l.length - i - 1 := List.length_drop
  apply isKthLargest_of_count
  · -- `l[i]` and everything after it reach `l[i]`
    have hall : ((l.drop (i + 1)).countP fun x => l[i] ≤ x) = (l.drop (i + 1)).length :=
      List.countP_eq_length.mpr fun y hy => decide_eq_true (hdrop y hy)
    have hself : 1 ≤ (l.take (i + 1)).countP fun x => l[i] ≤ x := by
      rw [List.take_succ_eq_append_getElem hi, List.countP_append]
      simp
    have hcount : (l.countP fun x => l[i] ≤ x) =
        ((l.take (i + 1)).countP fun x => l[i] ≤ x) + (l.drop (i + 1)).countP fun x => l[i] ≤ x := by
      rw [← List.countP_append, hsplit]
    rw [hcount, hall, hlen]
    omega
  · -- nothing up to index `i` exceeds `l[i]`
    have hnone : ((l.take (i + 1)).countP fun x => l[i] < x) = 0 :=
      List.countP_eq_zero.mpr fun x hx => by simpa using htake x hx
    have hrest : ((l.drop (i + 1)).countP fun x => l[i] < x) ≤ (l.drop (i + 1)).length :=
      List.countP_le_length
    have hcount : (l.countP fun x => l[i] < x) =
        ((l.take (i + 1)).countP fun x => l[i] < x) + (l.drop (i + 1)).countP fun x => l[i] < x := by
      rw [← List.countP_append, hsplit]
    rw [hcount, hnone, Nat.zero_add]
    omega

/-- In a descending list, the element at index `j` is the `(j + 1)`-th largest. -/
theorem isKthLargest_of_sortedGE {l : List α} (hs : l.Pairwise (· ≥ ·)) {j : ℕ}
    (hj : j < l.length) : IsKthLargest l (j + 1) l[j] := by
  have hrev : l.reverse.Pairwise (· ≤ ·) := List.pairwise_reverse.mpr hs
  have hi : l.length - 1 - j < l.reverse.length := by rw [List.length_reverse]; omega
  have h := isKthLargest_of_sortedLE hrev hi
  rw [List.getElem_reverse, List.length_reverse] at h
  have hidx : l.length - 1 - (l.length - 1 - j) = j := by omega
  have hk : l.length - (l.length - 1 - j) = j + 1 := by omega
  simp only [hidx, hk] at h
  exact h.perm (List.reverse_perm l)

end OrderStatistic

end LizardFs
