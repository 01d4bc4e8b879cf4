import LizardFs.Common.CalculatorRuns
import LizardFs.Common.LinearAssignmentOptimizer

/-!
# `optimize` with the auction of `linear_assignment_optimizer.h`

`ChunkCopiesCalculator::optimize` matches the parts of every target slice with those of the
available slice of its type. For available part `i` and target part `j` it fills `cost[i][j]`
with `max_slice_op² - (max_slice_op · additions + removals)`, each count of `operationCount`
clamped below `max_slice_op` (`sliceCost`), runs `auctionOptimization` on the matrix, and puts
target part `assignment[i]` in place `i`. `Common.ChunkCopiesCalculator` leaves the auction a
parameter; here it is the model of `auctionOptimization`, through the permutation that it
leaves in `assignment` (`auctionPermutation`).

The value of a matching in the matrix is the slice's size times `max_slice_op²`, less what the
matching costs (`sum_sliceCost`). The auction's permutation has the highest value, so it costs
least, and every slice that `optimize` rearranges ends up as its own parts in an order of lowest
cost (`optimize_places_cheapest_permutation`).
-/

namespace LizardFs

namespace ChunkCopiesCalculator

open Goal LinearAssignment

/-- What a matching costs `optimize`: available part `i` against target part `σ i` needs the
additions and removals of `operationCount`, each clamped below `max_slice_op`, and one
addition weighs as much as `max_slice_op` removals. -/
def matchingCost (src target : Slice) (σ : Equiv.Perm (Fin target.size)) : ℕ :=
  ∑ i : Fin target.size,
    (maxSliceOp * min (operationCount (src.part i) (target.part (σ i))).1 (maxSliceOp - 1) +
      min (operationCount (src.part i) (target.part (σ i))).2 (maxSliceOp - 1))

/-- The value of a matching in the matrix `optimize` hands to the auction: every place
contributes `max_slice_op²`, less its cost. -/
theorem sum_sliceCost (src target : Slice) (σ : Equiv.Perm (Fin target.size)) :
    ∑ i, sliceCost src target i (σ i) =
      target.size * ((maxSliceOp : ℤ) * maxSliceOp) - matchingCost src target σ := by
  simp only [sliceCost, matchingCost, Finset.sum_sub_distrib, Finset.sum_const, Finset.card_univ,
    Fintype.card_fin, nsmul_eq_mul]
  push_cast
  rfl

/-- The auction's permutation costs least. -/
theorem matchingCost_auctionPermutation_le (src target : Slice)
    (τ : Equiv.Perm (Fin target.size)) :
    matchingCost src target (auctionPermutation target.size (sliceCost src target)) ≤
      matchingCost src target τ := by
  have hle := sum_le_sum_auctionPermutation target.size (sliceCost src target) τ
  rw [sum_sliceCost, sum_sliceCost] at hle
  exact_mod_cast (sub_le_sub_iff_left _).mp hle

/-- After `optimize` with the auction of `linear_assignment_optimizer.h`, a target slice of
more than one part whose type the chunk has is its own parts, permuted by a matching of lowest
cost against the available slice. -/
theorem optimize_places_cheapest_permutation (c : ChunkCopiesCalculator) {slice src : Slice}
    (hslice : slice ∈ c.target.slices) (hsrc : c.available.find slice.type = some src)
    (hsize : 1 < slice.size) :
    ∃ σ : Equiv.Perm (Fin slice.size),
      (c.optimize auctionPermutation).target.find slice.type = some (slice.permute σ) ∧
      ∀ τ : Equiv.Perm (Fin slice.size), matchingCost src slice σ ≤ matchingCost src slice τ := by
  refine ⟨auctionPermutation slice.size (sliceCost src slice), ?_,
    matchingCost_auctionPermutation_le src slice⟩
  -- the evaluations after the matching leave the target as the matching made it
  have htarget : (c.optimize auctionPermutation).target =
      c.target.mapSlices (optimizeSlice auctionPermutation c.available)
        (type_optimizeSlice auctionPermutation c.available) := rfl
  rw [htarget, find_mapSlices, find_of_mem hslice, Option.map_some]
  -- a slice of more than one part with an available counterpart is permuted
  have hnot : ¬ slice.size ≤ 1 := Nat.not_le.mpr hsize
  simp only [optimizeSlice, hsrc, hnot, if_false]

/-- One copy on `label`, a part of a slice. -/
def oneCopy (label : MediaLabel) : Labels := ⟨[(label, 1)], List.pairwise_singleton _ _⟩

/-- An `xor2` slice with one copy of each part on the labels `a`, `b` and `c`. -/
def xorSlice (a b c : MediaLabel) : Slice := ⟨2, [oneCopy a, oneCopy b, oneCopy c], rfl⟩

/-- A goal of parts 0, 1 and 2 of `xor2` on labels 1, 2 and 3. -/
def xorGoal : Goal := ⟨[xorSlice 1 2 3], List.pairwise_singleton _ _⟩

/-- The chunk has the three parts on the labels in turn: part 0 on label 3, part 1 on label 1,
part 2 on label 2. -/
def rotatedCopies : List (ℕ × ℕ × MediaLabel) := [(2, 0, 3), (2, 1, 1), (2, 2, 2)]

theorem rotated_copies_matched_at_lowest_cost :
    xorSlice 1 2 3 ∈ (ofParts xorGoal rotatedCopies).target.slices ∧
      (ofParts xorGoal rotatedCopies).available.find (xorSlice 1 2 3).type =
        some (xorSlice 3 1 2) ∧
      1 < (xorSlice 1 2 3).size ∧
      ∃ σ : Equiv.Perm (Fin (xorSlice 1 2 3).size),
        ((ofParts xorGoal rotatedCopies).optimize auctionPermutation).target.find
            (xorSlice 1 2 3).type = some ((xorSlice 1 2 3).permute σ) ∧
          ∀ τ, matchingCost (xorSlice 3 1 2) (xorSlice 1 2 3) σ ≤
            matchingCost (xorSlice 3 1 2) (xorSlice 1 2 3) τ := by
  have hslice : xorSlice 1 2 3 ∈ (ofParts xorGoal rotatedCopies).target.slices := by
    rw [target_ofParts]
    exact List.mem_singleton_self _
  have hsrc : (ofParts xorGoal rotatedCopies).available.find (xorSlice 1 2 3).type =
      some (xorSlice 3 1 2) := rfl
  have hsize : 1 < (xorSlice 1 2 3).size := by decide
  exact ⟨hslice, hsrc, hsize, optimize_places_cheapest_permutation _ hslice hsrc hsize⟩

end ChunkCopiesCalculator

end LizardFs
