import Mathlib.Tactic.Common

/-!
# Runs of a state machine

States reached from a start by allowed events, and the rule that an invariant of one event is one
of all runs.
-/

namespace Runs

section
variable {σ ε : Type} {step : σ → ε → σ} {allowed : σ → ε → Prop} {start : σ → Prop}

/-- A state of a run: a start, or what an allowed event makes of a state of a run. -/
inductive Reached (step : σ → ε → σ) (allowed : σ → ε → Prop) (start : σ → Prop) : σ → Prop
  | start {s : σ} : start s → Reached step allowed start s
  | step {s : σ} {e : ε} : Reached step allowed start s → allowed s e →
      Reached step allowed start (step s e)

/-- What holds at the start and is kept by every allowed event holds in every state of a run. -/
theorem Reached.invariant {I : σ → Prop} (initially : ∀ s, start s → I s)
    (keeps : ∀ s e, I s → allowed s e → I (step s e)) {s : σ}
    (reached : Reached step allowed start s) : I s := by
  induction reached with
  | start h => exact initially _ h
  | step _ h ih => exact keeps _ _ ih h

/-- Runs of fewer events are runs. -/
theorem Reached.mono {allowed' : σ → ε → Prop} (weaker : ∀ s e, allowed s e → allowed' s e) {s : σ}
    (reached : Reached step allowed start s) : Reached step allowed' start s := by
  induction reached with
  | start h => exact .start h
  | step _ h ih => exact ih.step (weaker _ _ h)

end

end Runs
