import Mathlib.Data.List.Basic

/-!
# Binary search for a partition point, as `std::lower_bound` runs it

`std::lower_bound(first, last, value, comp)` and `std::upper_bound` are the
same binary search: starting from `first` with `len` elements to go, look at
the middle element, and keep the right half (past the middle) when the
predicate holds there, the left half otherwise. `lower_bound` searches with
`p x := comp(x, value)`, `upper_bound` with `p x := ¬ comp(value, x)`.

`partitionPoint p xs` is that search, step by step as the library does it (one
step per round of the loop, so the answer on a list that is *not* partitioned
by `p` is the library's answer too). Each round shrinks `len`, so `len` rounds
of fuel always suffice.
-/

namespace PartitionPoint

variable {α : Type}

/-- The loop of the search: `first` is where the candidate range starts, `len`
its length. -/
def loop (p : α → Bool) (xs : List α) : Nat → Nat → Nat → Nat
  | 0, first, _ => first
  | fuel + 1, first, len =>
    if len = 0 then first else
    let half := len / 2
    let middle := first + half
    if (xs[middle]?.map p).getD false then loop p xs fuel (middle + 1) (len - half - 1)
    else loop p xs fuel first half

variable {p : α → Bool} {xs : List α}

/-- On a list where every element before one that satisfies `p` does too, the search
keeps its candidate range between the last element known to satisfy `p` and the first
known to fail it. -/
theorem loop_spec (hpart : xs.Pairwise fun a b => p b = true → p a = true) :
    ∀ fuel first len, len ≤ fuel → first + len ≤ xs.length →
      (∀ j (hj : j < xs.length), j < first → p xs[j] = true) →
      (∀ j (hj : j < xs.length), first + len ≤ j → p xs[j] = false) →
      loop p xs fuel first len ≤ xs.length ∧
        (∀ j (hj : j < xs.length), j < loop p xs fuel first len → p xs[j] = true) ∧
        (∀ j (hj : j < xs.length), loop p xs fuel first len ≤ j → p xs[j] = false)
  | 0, first, len, hfuel, hlen, hleft, hright => by
    have hzero : len = 0 := by omega
    subst hzero
    simp only [loop]
    exact ⟨by simpa using hlen, hleft, by simpa using hright⟩
  | fuel + 1, first, len, hfuel, hlen, hleft, hright => by
    unfold loop
    split
    · next hzero =>
      subst hzero
      exact ⟨by simpa using hlen, hleft, by simpa using hright⟩
    · next hpos =>
      have hmid : first + len / 2 < xs.length := by omega
      have hget : (xs[first + len / 2]?.map p).getD false = p xs[first + len / 2] := by
        rw [List.getElem?_eq_getElem hmid]
        rfl
      have hmono := List.pairwise_iff_getElem.mp hpart
      simp only [hget]
      split
      · next hp =>
        -- the middle element and everything before it satisfy `p`
        refine loop_spec hpart fuel _ _ (by omega) (by omega) (fun j hj hjm => ?_)
          (fun j hj hjr => hright j hj (by omega))
        by_cases hjf : j < first
        · exact hleft j hj hjf
        · by_cases hjeq : j = first + len / 2
          · subst hjeq
            exact hp
          · exact hmono j _ hj hmid (by omega) hp
      · next hp =>
        -- the middle element and everything after it fail `p`
        refine loop_spec hpart fuel _ _ (by omega) (by omega) hleft (fun j hj hjr => ?_)
        by_cases hjeq : j = first + len / 2
        · subst hjeq
          simpa using hp
        · cases hpj : p xs[j]
          · rfl
          · exact absurd (hmono _ j hmid hj (by omega) hpj) hp

end PartitionPoint

/-- The index where the binary search for the first element failing `p` stops. -/
def partitionPoint {α : Type} (p : α → Bool) (xs : List α) : Nat :=
  PartitionPoint.loop p xs xs.length 0 xs.length

/-- On a list where every element before one that satisfies `p` does too, the search
splits it into the elements that satisfy `p` and those that fail it. -/
theorem partitionPoint_spec {α : Type} {p : α → Bool} {xs : List α}
    (hpart : xs.Pairwise fun a b => p b = true → p a = true) :
    (∀ x ∈ xs.take (partitionPoint p xs), p x = true) ∧
      ∀ x ∈ xs.drop (partitionPoint p xs), p x = false := by
  obtain ⟨-, hleft, hright⟩ := PartitionPoint.loop_spec hpart xs.length 0 xs.length (Nat.le_refl _)
    (by omega) (fun j _ h => absurd h (Nat.not_lt_zero j)) (fun j hj h => absurd hj (by omega))
  refine ⟨fun x hx => ?_, fun x hx => ?_⟩
  · obtain ⟨j, hj, rfl⟩ := List.mem_take_iff_getElem.mp hx
    exact hleft j _ (Nat.lt_of_lt_of_le hj (Nat.min_le_left _ _))
  · obtain ⟨j, hj, rfl⟩ := List.mem_drop_iff_getElem.mp hx
    exact hright _ (by omega) (by unfold partitionPoint; omega)

/-- The search stops within the list. -/
theorem partitionPoint_le_length {α : Type} {p : α → Bool} {xs : List α}
    (hpart : xs.Pairwise fun a b => p b = true → p a = true) : partitionPoint p xs ≤ xs.length :=
  (PartitionPoint.loop_spec hpart xs.length 0 xs.length (Nat.le_refl _) (by omega)
    (fun j _ h => absurd h (Nat.not_lt_zero j)) (fun j hj h => absurd hj (by omega))).1
