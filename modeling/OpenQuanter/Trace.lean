/-
# Traces of deterministic machines

A machine is a step function that returns the next state and an output.  Two
machines whose states stay related, and whose outputs agree whenever the states
are related, produce the same outputs on every input list.

Nothing here names the program under verification.
-/
import Mathlib

namespace Trace

variable {σ τ ι ο : Type}

/-- The outputs of a run, one for each input. -/
def outputs (step : σ → ι → σ × ο) : σ → List ι → List ο
  | _, [] => []
  | s, i :: rest => (step s i).2 :: outputs step (step s i).1 rest

/-- **Simulation.**  A relation that every input keeps, and under which the
outputs agree, gives equal output traces. -/
theorem outputs_eq_of_simulation {step : σ → ι → σ × ο} {step' : τ → ι → τ × ο}
    {R : σ → τ → Prop}
    (hstep : ∀ s t i, R s t → R (step s i).1 (step' t i).1 ∧ (step s i).2 = (step' t i).2)
    {s : σ} {t : τ} (hst : R s t) (inputs : List ι) :
    outputs step s inputs = outputs step' t inputs := by
  induction inputs generalizing s t with
  | nil => rfl
  | cons i rest ih =>
    obtain ⟨hnext, hout⟩ := hstep s t i hst
    rw [outputs, outputs, hout, ih hnext]

end Trace
