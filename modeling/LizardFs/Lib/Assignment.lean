import Mathlib.Algebra.BigOperators.Ring.Finset
import Mathlib.Algebra.Order.BigOperators.Group.Finset
import Mathlib.Logic.Equiv.Fintype
import Mathlib.Tactic.Linarith
import Mathlib.Tactic.Ring

/-!
# The assignment problem and ε-complementary slackness

Persons and objects are both indexed by a finite type `ι`; an assignment is a permutation `σ`
and its value is `∑ i, a i (σ i)`. Under prices `p` on the objects, `σ` satisfies
ε-complementary slackness (`EpsCS`) when every person's object is within `ε` of the best
profit `a i k - p k` that person could get. The prices add up to the same total under every
permutation, so such a `σ` is within `card ι * ε` of every other assignment
(`sum_le_sum_add_of_epsCS`). For an integer matrix scaled by `card ι + 1`, `ε = 1` is then
optimal for the unscaled matrix (`sum_le_sum_of_scaled_epsCS`), Bertsekas' argument for
auctions with integer values.

Nothing here names the program being modelled.
-/

namespace Assignment

open Finset

variable {ι : Type} [Fintype ι]

/-- ε-complementary slackness of `σ` under the prices `p`. -/
def EpsCS (a : ι → ι → ℤ) (p : ι → ℤ) (eps : ℤ) (σ : Equiv.Perm ι) : Prop :=
  ∀ i k, a i k - p k ≤ a i (σ i) - p (σ i) + eps

/-- Under ε-complementary slackness no assignment is worth more than `σ`'s plus `card ι ε`. -/
theorem sum_le_sum_add_of_epsCS {a : ι → ι → ℤ} {p : ι → ℤ} {eps : ℤ} {σ : Equiv.Perm ι}
    (h : EpsCS a p eps σ) (τ : Equiv.Perm ι) :
    ∑ i, a i (τ i) ≤ ∑ i, a i (σ i) + Fintype.card ι * eps := by
  -- sum the slackness of each person at the object `τ` gives them
  have hsum : ∑ i, (a i (τ i) - p (τ i)) ≤ ∑ i, (a i (σ i) - p (σ i) + eps) :=
    sum_le_sum fun i _ => h i (τ i)
  -- both permutations pay every price once
  have hτ : ∑ i, p (τ i) = ∑ j, p j := Equiv.sum_comp τ p
  have hσ : ∑ i, p (σ i) = ∑ j, p j := Equiv.sum_comp σ p
  rw [sum_sub_distrib, sum_add_distrib, sum_sub_distrib, hτ, hσ, sum_const, card_univ,
    nsmul_eq_mul] at hsum
  linarith

/-- With the values scaled by `card ι + 1`, ε-complementary slackness for `ε = 1` makes `σ`
optimal for the unscaled values. -/
theorem sum_le_sum_of_scaled_epsCS {b : ι → ι → ℤ} {p : ι → ℤ} {σ : Equiv.Perm ι}
    (h : EpsCS (fun i k => b i k * (Fintype.card ι + 1)) p 1 σ) (τ : Equiv.Perm ι) :
    ∑ i, b i (τ i) ≤ ∑ i, b i (σ i) := by
  have hle := sum_le_sum_add_of_epsCS h τ
  rw [← sum_mul, ← sum_mul, mul_one] at hle
  -- a gap of at least one would cost `card ι + 1` after scaling, more than the slack `card ι`
  by_contra hlt
  have hgap : ∑ i, b i (σ i) + 1 ≤ ∑ i, b i (τ i) := by omega
  have hcard : (0 : ℤ) ≤ Fintype.card ι := Int.natCast_nonneg _
  nlinarith

end Assignment
