import Mathlib.Data.Multiset.Basic
import Mathlib.Data.Multiset.OrderedMonoid
import Mathlib.Data.Prod.Lex
import Mathlib.Order.Bounds.Basic

/-!
# Placements of copies on labels

A placement puts copies of one object on labels; as a `Multiset` of labels it counts the
copies on each. A request asks for at least `dn` (a placement of named copies) and for `w`
more copies anywhere: a placement `q` meets it when `dn ≤ q` and `q` has `card dn + w`
copies (`Admissible`). Turning a placement `src` into `q` adds `card (q - src)` copies and
removes `card (src - q)`.

`isLeast_cheapest` gives the cheapest way, in the lexicographic order of (additions,
removals): add the named copies `src` lacks, let the `w` free copies take the `E` copies of
`src` that no named label needs, add the free copies left over, and remove the copies
still unneeded. A replication planner counts exactly this pair.
-/

namespace LizardFs

namespace Placement

open Multiset

variable {α : Type*} [DecidableEq α]

/-- `q` holds at least the named copies `dn` and exactly `w` more. -/
def Admissible (dn : Multiset α) (w : ℕ) (q : Multiset α) : Prop :=
  dn ≤ q ∧ card q = card dn + w

/-- The copies to add and to remove to turn `src` into `q`. -/
def moves (src q : Multiset α) : ℕ × ℕ := (card (q - src), card (src - q))

/-- Add what the named labels lack and the free copies that the unneeded copies of `src`
cannot hold; remove the unneeded copies the free ones do not take. -/
def cheapest (src dn : Multiset α) (w : ℕ) : ℕ × ℕ :=
  (card (dn - src) + (w - card (src - dn)), card (src - dn) - w)

/-- Copies added and removed differ by the change in size. -/
theorem card_sub_add_card (s t : Multiset α) :
    card (s - t) + card t = card (t - s) + card s := by
  have h := congrArg card (union_comm s t)
  rw [union_def, union_def, card_add, card_add] at h
  omega

section Admissible

variable {src dn q : Multiset α} {w : ℕ}

/-- An admissible placement adds at least what `cheapest` adds. -/
theorem cheapest_fst_le (hq : Admissible dn w q) : (cheapest src dn w).1 ≤ (moves src q).1 := by
  obtain ⟨hle, hcard⟩ := hq
  -- the named copies `src` lacks are added, and the size grows by `card q - card src`
  have hnamed : card (dn - src) ≤ card (q - src) := card_le_card (Multiset.sub_le_sub_right hle)
  have hfree : card (src - q) ≤ card (src - dn) := card_le_card (tsub_le_tsub_left hle src)
  have hq := card_sub_add_card q src
  have hdn := card_sub_add_card dn src
  simp only [cheapest, moves]
  omega

/-- An admissible placement that adds no more than `cheapest` removes as much. -/
theorem cheapest_snd_eq (hq : Admissible dn w q) (h : (moves src q).1 = (cheapest src dn w).1) :
    (moves src q).2 = (cheapest src dn w).2 := by
  obtain ⟨-, hcard⟩ := hq
  have hq := card_sub_add_card q src
  have hdn := card_sub_add_card dn src
  simp only [cheapest, moves] at h ⊢
  omega

/-- With no more free copies than unneeded ones, the free copies take unneeded copies. -/
theorem exists_cheapest_of_le (h : w ≤ card (src - dn)) :
    ∃ q, Admissible dn w q ∧ moves src q = cheapest src dn w := by
  -- `X`: `w` of the copies of `src` that no named label needs
  set X : Multiset α := ↑((src - dn).toList.take w)
  have hX : X ≤ src - dn := by
    conv_rhs => rw [← coe_toList (src - dn)]
    exact coe_le.mpr (List.take_sublist _ _).subperm
  have hXcard : card X = w := by
    simp only [X, coe_card, List.length_take, length_toList]
    omega
  -- keeping them adds only the named copies `src` lacks
  have hadd : dn + X - src = dn - src := by
    ext a
    have hXa := (Multiset.le_iff_count.mp hX) a
    rw [count_sub] at hXa
    rw [count_sub, count_add, count_sub]
    omega
  refine ⟨dn + X, ⟨le_add_right _ _, by rw [card_add, hXcard]⟩, ?_⟩
  have hsize := card_sub_add_card (dn + X) src
  have hdn := card_sub_add_card dn src
  rw [hadd, card_add, hXcard] at hsize
  simp only [moves, cheapest, hadd]
  refine Prod.ext (by simp only; omega) (by simp only; omega)

/-- With more free copies than unneeded ones, every copy of `src` is kept and the rest
of the free copies are added on some label. -/
theorem exists_cheapest_of_lt (a₀ : α) (h : card (src - dn) < w) :
    ∃ q, Admissible dn w q ∧ moves src q = cheapest src dn w := by
  set extra := w - card (src - dn)
  have hunion : card (dn ∪ src) = card dn + card (src - dn) := by
    rw [union_comm, union_def, card_add, Nat.add_comm]
  -- the placement adds the named copies `src` lacks and the extra free copies
  have hadd : dn ∪ src + replicate extra a₀ - src = dn - src + replicate extra a₀ := by
    ext a
    rw [count_sub, count_add, count_union, count_add, count_sub]
    omega
  have hremove : src - (dn ∪ src + replicate extra a₀) = 0 := by
    ext a
    rw [count_sub, count_add, count_union, count_zero]
    omega
  refine ⟨dn ∪ src + replicate extra a₀,
    ⟨le_trans le_union_left (le_add_right _ _), ?_⟩, ?_⟩
  · rw [card_add, hunion, card_replicate]
    omega
  · simp only [moves, cheapest, hadd, hremove, card_add, card_replicate, card_zero]
    refine Prod.ext rfl ?_
    simp only
    omega

end Admissible

/-- The moves `cheapest` counts are the lexicographically least of all admissible
placements. -/
theorem isLeast_cheapest [Nonempty α] (src dn : Multiset α) (w : ℕ) :
    IsLeast ((fun q => toLex (moves src q)) '' {q | Admissible dn w q})
      (toLex (cheapest src dn w)) := by
  refine ⟨?_, ?_⟩
  · -- some admissible placement attains it
    obtain ⟨q, hq, heq⟩ : ∃ q, Admissible dn w q ∧ moves src q = cheapest src dn w := by
      rcases Nat.lt_or_ge (card (src - dn)) w with hlt | hle
      · exact exists_cheapest_of_lt (Classical.arbitrary α) hlt
      · exact exists_cheapest_of_le hle
    exact ⟨q, hq, by simp only [heq]⟩
  · rintro _ ⟨q, hq, rfl⟩
    rw [Prod.Lex.toLex_le_toLex]
    rcases Nat.lt_or_ge (cheapest src dn w).1 (moves src q).1 with hlt | hge
    · exact .inl hlt
    · have heq : (moves src q).1 = (cheapest src dn w).1 :=
        Nat.le_antisymm hge (cheapest_fst_le hq)
      exact .inr ⟨heq.symm, Nat.le_of_eq (cheapest_snd_eq hq heq).symm⟩

end Placement

end LizardFs
