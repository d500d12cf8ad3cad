import Mathlib.Tactic.Common

/-!
# Runs of a machine

A machine takes its steps by a partial function of the state and an event. A run is made of steps
that are possible and meet a condition on the state and the event, so that a result about the runs
that keep away from something has its hypothesis in the runs that it is about.
-/

namespace Machine

variable {σ ε : Type*}

/-- A run whose steps all meet `P`. -/
inductive Run (step : σ → ε → Option σ) (P : σ → ε → Prop) (s : σ) : σ → Prop where
  | refl : Run step P s s
  | step {t u : σ} {e : ε} : Run step P s t → P t e → step t e = some u → Run step P s u

variable {step : σ → ε → Option σ} {P : σ → ε → Prop} {s t u : σ} {e : ε}

/-- What a step keeps, a run keeps. -/
theorem Run.invariant {I : σ → Prop} (h : Run step P s t)
    (hkeep : ∀ s e t, I s → P s e → step s e = some t → I t) (hs : I s) : I t := by
  induction h with
  | refl => exact hs
  | step _ hP hstep ih => exact hkeep _ _ _ ih hP hstep

/-- Runs compose. -/
lemma Run.trans (h : Run step P s t) (h' : Run step P t u) : Run step P s u := by
  induction h' with
  | refl => exact h
  | step _ hP hstep ih => exact .step ih hP hstep

/-- A run may begin with one more step. -/
lemma Run.head (hP : P s e) (hstep : step s e = some t) (h : Run step P t u) : Run step P s u := by
  induction h with
  | refl => exact .step .refl hP hstep
  | step _ hP' hstep' ih => exact .step ih hP' hstep'

/-- The state after some events; none when one is not possible or does not meet `P`. -/
def runIf (step : σ → ε → Option σ) (P : σ → ε → Prop) [∀ s e, Decidable (P s e)] (s : σ) :
    List ε → Option σ
  | [] => some s
  | e :: rest => if P s e then (step s e).bind fun t => runIf step P t rest else none

/-- What is executed is a run. -/
lemma run_of_runIf [∀ s e, Decidable (P s e)] {events : List ε}
    (h : runIf step P s events = some t) : Run step P s t := by
  induction events generalizing s with
  | nil =>
    cases h
    exact .refl
  | cons e rest ih =>
    rw [runIf] at h
    split_ifs at h with hP
    obtain ⟨u, hu, hrest⟩ := Option.bind_eq_some_iff.mp h
    exact .head hP hu (ih hrest)

/-- A run by its events, with what can be computed of its end. -/
lemma exists_run_of_runIf [∀ s e, Decidable (P s e)] {R : σ → Prop} {events : List ε}
    (h : ∃ t ∈ runIf step P s events, R t) : ∃ t, Run step P s t ∧ R t := by
  obtain ⟨t, ht, hR⟩ := h
  exact ⟨t, run_of_runIf ht, hR⟩

end Machine
