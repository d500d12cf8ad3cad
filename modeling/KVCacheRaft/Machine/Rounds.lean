import Mathlib.Tactic.Common

/-!
# Rounds until one is done

A round changes the state, and says whether it was the last one. Where every round that is not the last
keeps an invariant and lowers a measure, there is a last one.
-/

namespace Machine

variable {σ ε : Type*}

/-- At most `n` rounds, up to the first that is done. -/
def rounds (round : σ → Except ε (σ × Bool)) : ℕ → σ → Except ε (σ × Bool)
  | 0, s => .ok (s, false)
  | n + 1, s => do
    let (t, done) ← round s
    if done then return (t, true) else rounds round n t

variable {round : σ → Except ε (σ × Bool)} {s t : σ}

/-- A round that is done is the last. -/
lemma rounds_done {n : ℕ} (h : round s = .ok (t, true)) : rounds round (n + 1) s = .ok (t, true) := by
  rw [rounds, h]
  rfl

/-- A round that is not done is followed by the next. -/
lemma rounds_next {n : ℕ} (h : round s = .ok (t, false)) :
    rounds round (n + 1) s = rounds round n t := by
  rw [rounds, h]
  rfl

/-- A round that leaves everything as it was. -/
lemma rounds_stuck (h : round s = .ok (s, false)) (n : ℕ) : rounds round n s = .ok (s, false) := by
  induction n with
  | zero => rfl
  | succ n ih => exact (rounds_next h).trans ih

/-- The number of rounds is bounded by the measure. -/
theorem exists_rounds {I Q : σ → Prop} {f : σ → ℕ}
    (hround : ∀ s, I s → (∃ t, round s = .ok (t, true) ∧ Q t) ∨
      ∃ t, round s = .ok (t, false) ∧ I t ∧ f t < f s)
    {n : ℕ} (hs : I s) (hn : f s < n) : ∃ t, rounds round n s = .ok (t, true) ∧ Q t := by
  induction n generalizing s with
  | zero => exact absurd hn (Nat.not_lt_zero _)
  | succ n ih =>
    obtain ⟨t, ht, hQ⟩ | ⟨t, ht, hI, hlt⟩ := hround s hs
    · exact ⟨t, rounds_done ht, hQ⟩
    · obtain ⟨u, hu, hQ⟩ := ih hI (by omega)
      exact ⟨u, (rounds_next ht).trans hu, hQ⟩

end Machine
