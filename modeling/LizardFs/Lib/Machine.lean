import Mathlib.Data.List.Basic

/-!
# Event machines and their runs

A small library for state machines whose transition is a partial function of an
event label, `step : σ → ε → Option σ` (`none`: the event is not enabled, or the
modelled code fails). It provides

* `run` — the state after a list of events, if every event was enabled;
* `exists_run_eq_of_any` — turns a run checked by evaluation into a state it
  reaches with the property checked.

Nothing here names the program being modelled; the repository's models
instantiate it.
-/

namespace Machine

universe u v

variable {σ : Type u} {ε : Type v}

/-! ## Runs -/

/-- The state after performing the events in order, `none` as soon as one of
them is not enabled. -/
def run (step : σ → ε → Option σ) (s : σ) : List ε → Option σ
  | [] => some s
  | e :: es => (step s e).bind fun s' => run step s' es

variable {step : σ → ε → Option σ}

@[simp] theorem run_nil (s : σ) : run step s [] = some s := rfl

@[simp] theorem run_cons (s : σ) (e : ε) (es : List ε) :
    run step s (e :: es) = (step s e).bind fun s' => run step s' es := rfl

/-- A run that evaluation can check: when the run of `es` ends in a state where
`P` holds, some state reached by `es` satisfies `P`. -/
theorem exists_run_eq_of_any {P : σ → Prop} [DecidablePred P] {init : σ} {es : List ε}
    (h : (run step init es).any (fun s => decide (P s)) = true) :
    ∃ s, run step init es = some s ∧ P s := by
  rcases hr : run step init es with _ | s
  · rw [hr, Option.any_none] at h
    cases h
  · rw [hr, Option.any_some] at h
    exact ⟨s, rfl, of_decide_eq_true h⟩

end Machine
