import KVCacheRaft.Consensus.Safety
import Mathlib.Data.Finset.Card
import Mathlib.Data.Finset.Range

/-!
# Majorities, and what a step touches

Two instruments for a refinement. `majority n` is the quorum system of more than half of the nodes
`0, …, n - 1`. `Moves i` collects what an implementation of node `i` needs to know of a sequence of
steps of `i`: nothing is lost, and the other nodes keep their terms, logs and votes.
-/

namespace Consensus
open Function State

/-- More than half of the nodes below `n`. -/
def majority (n : ℕ) : QuorumSystem ℕ where
  IsQuorum Q := ∃ V : Finset ℕ, V ⊆ Finset.range n ∧ (∀ i ∈ V, i ∈ Q) ∧ n / 2 + 1 ≤ V.card
  inter := by
    rintro Q R ⟨V, hV, hVQ, hVc⟩ ⟨W, hW, hWR, hWc⟩
    have hcard : (V ∪ W).card ≤ n :=
      (Finset.card_le_card (Finset.union_subset hV hW)).trans (Finset.card_range n).le
    have hsum := Finset.card_union_add_card_inter V W
    have hpos : 0 < (V ∩ W).card := by omega
    obtain ⟨i, hi⟩ := Finset.card_pos.mp hpos
    rw [Finset.mem_inter] at hi
    exact ⟨i, hVQ i hi.1, hWR i hi.2⟩

variable {N α : Type*} [DecidableEq N] {q : QuorumSystem N} {term : α → ℕ} {s s' s'' : State N α}

/-- `s'` comes from `s` by steps of node `i`. -/
structure Moves (q : QuorumSystem N) (term : α → ℕ) (i : N) (s s' : State N α) : Prop where
  reachable : Reachable q term s → Reachable q term s'
  extends_ : Extends s s'
  cur : ∀ j, j ≠ i → s'.cur j = s.cur j
  log : ∀ j, j ≠ i → s'.log j = s.log j
  ballot : ∀ j, j ≠ i → s'.ballot j = s.ballot j
  lead : ∀ {T j}, j ≠ i → s'.lead T = some j → s.lead T = some j

/-- A node may stay where it is. -/
lemma Moves.refl (i : N) (s : State N α) : Moves q term i s s :=
  ⟨id, Extends.refl s, fun _ _ => rfl, fun _ _ => rfl, fun _ _ => rfl, fun _ h => h⟩

/-- Moves of one node compose. -/
lemma Moves.trans {i : N} (h : Moves q term i s s') (h' : Moves q term i s' s'') :
    Moves q term i s s'' where
  reachable hr := h'.reachable (h.reachable hr)
  extends_ := h.extends_.trans h'.extends_
  cur j hj := (h'.cur j hj).trans (h.cur j hj)
  log j hj := (h'.log j hj).trans (h.log j hj)
  ballot j hj := (h'.ballot j hj).trans (h.ballot j hj)
  lead hj hl := h.lead hj (h'.lead hj hl)

/-- Entering a later term is a move. -/
lemma Inv.advance_moves (i : Inv q term s) {n : N} {T : ℕ} (hT : s.cur n ≤ T) :
    Moves q term n s (s.advance n T) where
  reachable hr := hr.step (.advance hT)
  extends_ := i.extends (.advance hT)
  cur j hj := by simp [State.advance, hj]
  log _ _ := rfl
  ballot _ _ := rfl
  lead _ hl := hl

/-- Voting for the first time in a term is a move. -/
lemma Inv.vote_moves (i : Inv q term s) {n c : N} (h : s.ballot n (s.cur n) = none) :
    Moves q term n s (s.vote n c) where
  reachable hr := hr.step (.vote h)
  extends_ := i.extends (.vote h)
  cur _ _ := rfl
  log _ _ := rfl
  ballot j hj := by simp [State.vote, hj]
  lead _ hl := hl

/-- Winning an election, with the own log confirmed, is a move. -/
lemma Inv.elect_moves (i : Inv q term s) {c : N} {Q : Set N} (hnone : s.lead (s.cur c) = none)
    (hQ : q.IsQuorum Q)
    (hv : ∀ n ∈ Q, ∃ l, s.ballot n (s.cur c) = some (c, l) ∧ UpToDate term (s.log c) l) :
    Moves q term c s ((s.elect c).confirm c (s.log c).length) where
  reachable hr := hr.step (.elect hnone hQ hv)
  extends_ := i.extends (.elect hnone hQ hv)
  cur _ _ := rfl
  log _ _ := rfl
  ballot _ _ := rfl
  lead {T j} hj hl := by
    by_cases hT : T = s.cur c
    · simp [State.elect, State.confirm, hT] at hl
      exact absurd hl.symm hj
    · simpa [State.elect, State.confirm, hT] using hl

/-- Appending an entry, confirmed at once, is a move. -/
lemma Inv.extend_moves (i : Inv q term s) {c : N} {e : α} (hc : s.lead (s.cur c) = some c)
    (he : term e = s.cur c) :
    Moves q term c s ((s.extend c e).confirm c ((s.log c).length + 1)) where
  reachable hr := hr.step (.extend hc he)
  extends_ := i.extends (.extend hc he)
  cur _ _ := rfl
  log j hj := by simp [State.extend, State.confirm, hj]
  ballot _ _ := rfl
  lead _ hl := hl

/-- Accepting a part of the leader's log is a move. -/
lemma Inv.accept_moves (i : Inv q term s) {n : N} {p l : List α}
    (hlead : s.lead (s.cur n) ≠ none) (hp : p <+: s.full (s.cur n)) (hm : Merged (s.log n) p l) :
    Moves q term n s ((s.setLog n l).confirm n p.length) where
  reachable hr := hr.step (.accept hlead hp hm)
  extends_ := i.extends (.accept hlead hp hm)
  cur _ _ := rfl
  log j hj := by simp [State.setLog, State.confirm, hj]
  ballot _ _ := rfl
  lead _ hl := hl

/-- Installing a committed prefix is a move. -/
lemma Inv.install_moves (i : Inv q term s) {n : N} {p : List α}
    (hp : Committed q term s (s.cur n) p) (hlen : (s.log n).length ≤ p.length) :
    Moves q term n s (s.setLog n p) where
  reachable hr := hr.step (.install hp hlen)
  extends_ := i.extends (.install hp hlen)
  cur _ _ := rfl
  log j hj := by simp [State.setLog, hj]
  ballot _ _ := rfl
  lead _ hl := hl

end Consensus
