import Mathlib.Order.Basic

/-!
# While loops with fuel

`whileLoop cond body fuel s` runs `while (cond) body;` from `s` for at most `fuel` rounds. A
model that gives such a loop a fuel has to show that the fuel never cuts the loop short, and
these are the two rules for it:

* `inv_whileLoop`, the invariant rule: what the body keeps while the test holds, holds after
  the loop;
* `whileLoop_exits`, the exit rule: if a measure in `ℕ` drops at every round while an
  invariant holds, a fuel above the measure of the first state ends the loop by its test.

Nothing here names the program being modelled.
-/

namespace WhileLoop

variable {σ : Type} (cond : σ → Bool) (body : σ → σ)

/-- `while (cond) body;`, for at most `fuel` rounds. -/
def whileLoop : ℕ → σ → σ
  | 0, s => s
  | fuel + 1, s => if cond s then whileLoop fuel (body s) else s

@[simp] theorem whileLoop_zero (s : σ) : whileLoop cond body 0 s = s := rfl

theorem whileLoop_succ_of_cond {s : σ} (h : cond s = true) (fuel : ℕ) :
    whileLoop cond body (fuel + 1) s = whileLoop cond body fuel (body s) := by
  rw [whileLoop, if_pos h]

theorem whileLoop_succ_of_not_cond {s : σ} (h : cond s = false) (fuel : ℕ) :
    whileLoop cond body (fuel + 1) s = s := by
  rw [whileLoop, if_neg (by simp [h])]

variable {cond body} (Inv : σ → Prop)

/-- The invariant rule. -/
theorem inv_whileLoop (hbody : ∀ s, Inv s → cond s = true → Inv (body s)) :
    ∀ (fuel : ℕ) (s : σ), Inv s → Inv (whileLoop cond body fuel s)
  | 0, _, hs => hs
  | fuel + 1, s, hs => by
    cases hc : cond s with
    | false => rw [whileLoop_succ_of_not_cond cond body hc]; exact hs
    | true =>
      rw [whileLoop_succ_of_cond cond body hc]
      exact inv_whileLoop hbody fuel (body s) (hbody s hs hc)

/-- The exit rule: a round lowers the measure `μ` while the invariant holds, so a fuel above
`μ s` ends the loop by its test. -/
theorem whileLoop_exits (μ : σ → ℕ)
    (hbody : ∀ s, Inv s → cond s = true → Inv (body s) ∧ μ (body s) < μ s) :
    ∀ (fuel : ℕ) (s : σ), Inv s → μ s < fuel → cond (whileLoop cond body fuel s) = false
  | 0, _, _, hfuel => absurd hfuel (Nat.not_lt_zero _)
  | fuel + 1, s, hs, hfuel => by
    cases hc : cond s with
    | false => rw [whileLoop_succ_of_not_cond cond body hc]; exact hc
    | true =>
      -- the next state's measure is below `μ s`, so below the fuel that is left
      obtain ⟨hinv, hlt⟩ := hbody s hs hc
      rw [whileLoop_succ_of_cond cond body hc]
      exact whileLoop_exits μ hbody fuel (body s) hinv (by omega)

end WhileLoop
