import KVCacheRaft.Consensus.Protocol

/-!
# The invariant of the replicated-log protocol

`Rooted` says that a log is made of pieces of leaders' logs: every prefix of it is a prefix of the
log of the leader of the term it ends in. `Keeps` says of a log whose holder confirmed a prefix in
term `T` that the prefix is still there, unless some later leader was elected without it. With
these, `Inv.complete` shows that what is chosen in a term is in the first log of every later
leader; it is a fact about any state that satisfies `Inv`, and the steps of the protocol use it.
-/

namespace Consensus
open Function State

variable {N α : Type*} {q : QuorumSystem N} {term : α → ℕ} {s s' : State N α}

/-- Every prefix of `l` is a prefix of the log of the leader of the term it ends in. -/
def Rooted (term : α → ℕ) (s : State N α) (l : List α) : Prop :=
  ∀ ⦃p e⦄, p ++ [e] <+: l → (∃ c, s.lead (term e) = some c) ∧ p ++ [e] <+: s.full (term e)

/-- `l` has the prefix `p` of the log of term `T`, or a leader of a term between `T` and `U` was
elected without it. -/
def Keeps (s : State N α) (T : ℕ) (p l : List α) (U : ℕ) : Prop :=
  p <+: l ∨ ∃ T', T < T' ∧ T' < U ∧ (∃ c, s.lead T' = some c) ∧ ¬ p <+: s.first T'

/-- `l` keeps, up to term `U`, everything that `n` confirmed in terms before `V`. -/
def KeepsAcked (term : α → ℕ) (s : State N α) (n : N) (V : ℕ) (l : List α) (U : ℕ) : Prop :=
  ∀ ⦃T p⦄, T < V → p <+: s.full T → p.length ≤ s.ack n T → EndsIn term T p → Keeps s T p l U

/-- The invariant of the protocol. -/
structure Inv (q : QuorumSystem N) (term : α → ℕ) (s : State N α) : Prop where
  lead_cur : ∀ {T c}, s.lead T = some c → T ≤ s.cur c
  full_nil : ∀ {T}, s.lead T = none → s.full T = []
  ack_cur : ∀ {n T}, 0 < s.ack n T → T ≤ s.cur n
  ack_le : ∀ n T, s.ack n T ≤ (s.full T).length
  ballot_cur : ∀ {n T b}, s.ballot n T = some b → T ≤ s.cur n
  log_term : ∀ {n e}, e ∈ s.log n → term e ≤ s.cur n
  first_full : ∀ T, s.first T <+: s.full T
  first_term : ∀ {T e}, e ∈ s.first T → term e < T
  full_term : ∀ {T e}, e ∈ s.full T → term e ≤ T
  rooted_log : ∀ n, Rooted term s (s.log n)
  rooted_full : ∀ T, Rooted term s (s.full T)
  rooted_ballot : ∀ {n T c l}, s.ballot n T = some (c, l) → Rooted term s l
  own : ∀ {T c}, s.lead T = some c → s.cur c = T → s.log c = s.full T
  acked : ∀ n, (s.full (s.cur n)).take (s.ack n (s.cur n)) <+: s.log n
  kept : ∀ n, KeepsAcked term s n (s.cur n + 1) (s.log n) (s.cur n + 1)
  voted : ∀ {n U c l}, s.ballot n U = some (c, l) → KeepsAcked term s n U l (U + 1)
  elected : ∀ {U c}, s.lead U = some c → ∃ Q, q.IsQuorum Q ∧ ∀ n ∈ Q, ∃ l,
    s.ballot n U = some (c, l) ∧ UpToDate term (s.first U) l ∧ KeepsAcked term s n U l U

/-! ### How the parts of the invariant carry over -/

/-- The history of `s'` extends that of `s`: leaders stay, with the log they were elected with, and
their logs only grow. -/
structure Grows (s s' : State N α) : Prop where
  lead : ∀ {T c}, s.lead T = some c → s'.lead T = some c ∧ s'.first T = s.first T
  full : ∀ T, s.full T <+: s'.full T

/-- A state may stay as it is. -/
lemma Grows.refl (s : State N α) : Grows s s := ⟨fun h => ⟨h, rfl⟩, fun _ => List.prefix_rfl⟩

/-- A log stays rooted in what the leaders have. -/
lemma Rooted.mono {l : List α} (g : Grows s s') (h : Rooted term s l) : Rooted term s' l := by
  intro p e hp
  obtain ⟨⟨c, hc⟩, hf⟩ := h hp
  exact ⟨⟨c, (g.lead hc).1⟩, hf.trans (g.full _)⟩

/-- A beginning of a rooted log is rooted. -/
lemma Rooted.of_isPrefix {l m : List α} (h : Rooted term s m) (hl : l <+: m) : Rooted term s l :=
  fun _ _ hp => h (hp.trans hl)

/-- A log keeps a prefix as it grows. -/
lemma Keeps.mono {T U U' : ℕ} {p l l' : List α} (g : Grows s s') (hl : l <+: l') (hU : U ≤ U')
    (h : Keeps s T p l U) : Keeps s' T p l' U' := by
  rcases h with h | ⟨T', h1, h2, ⟨c, hc⟩, h3⟩
  · exact .inl (h.trans hl)
  · exact .inr ⟨T', h1, by omega, ⟨c, (g.lead hc).1⟩, by rwa [(g.lead hc).2]⟩

/-- Terms never decrease along a rooted log. -/
lemma Inv.term_le_last (i : Inv q term s) {l : List α} {e : α} (h : Rooted term s l) (he : e ∈ l) :
    term e ≤ lastTerm term l := by
  obtain ⟨r, x, rfl⟩ := exists_concat (List.ne_nil_of_mem he)
  rw [lastTerm_concat]
  exact i.full_term ((h List.prefix_rfl).2.subset he)

/-- A term in which something was confirmed has a leader. -/
lemma Inv.lead_of_ack (i : Inv q term s) {n : N} {T : ℕ} (h : 0 < s.ack n T) :
    ∃ c, s.lead T = some c := by
  cases hl : s.lead T with
  | some c => exact ⟨c, rfl⟩
  | none =>
    have := i.ack_le n T
    rw [i.full_nil hl] at this
    simp at this
    omega

/-- A term with a nonempty leader's log has a leader. -/
lemma Inv.lead_of_mem (i : Inv q term s) {T : ℕ} {e : α} (h : e ∈ s.full T) :
    ∃ c, s.lead T = some c := by
  cases hl : s.lead T with
  | some c => exact ⟨c, rfl⟩
  | none => simp [i.full_nil hl] at h

/-! ### What is chosen stays -/

/-- Leader completeness: what is chosen in a term is in the first log of every later leader. -/
theorem Inv.complete (i : Inv q term s) {T U : ℕ} {p : List α} {c : N}
    (hp : Chosen q term s T p) (hU : s.lead U = some c) (hTU : T < U) : p <+: s.first U := by
  induction U using Nat.strong_induction_on generalizing c with
  | _ U ih =>
    obtain ⟨hpre, hend, Q, hQ, hack⟩ := hp
    obtain ⟨R, hR, hvote⟩ := i.elected hU
    obtain ⟨n, hnQ, hnR⟩ := q.inter hQ hR
    obtain ⟨l, hb, hup, hkeep⟩ := hvote n hnR
    -- the voter in both quorums still had `p`, since no earlier leader lacked it
    have hpl : p <+: l := by
      rcases hkeep hTU hpre (hack n hnQ) hend with h | ⟨T', h1, h2, ⟨d, hd⟩, h3⟩
      · exact h
      · exact absurd (ih T' h2 hd h1) h3
    have hTl : T ≤ lastTerm term l := by
      obtain ⟨e, he, hT⟩ := hend.mem
      exact hT ▸ i.term_le_last (i.rooted_ballot hb) (hpl.subset he)
    have hlen : p.length ≤ l.length := hpl.length_le
    have hpos := hend.length_pos
    have hne : s.first U ≠ [] := by
      intro h0
      rcases hup with h | ⟨h, h'⟩
      · simp [h0] at h
      · rw [h0, List.length_nil] at h'
        omega
    obtain ⟨r, e, hfirst⟩ := exists_concat hne
    have hroot := i.rooted_full U (hfirst ▸ i.first_full U : r ++ [e] <+: s.full U)
    rw [hfirst, UpToDate, lastTerm_concat] at hup
    have hTe : T ≤ term e := by rcases hup with h | ⟨h, -⟩ <;> omega
    rcases hTe.eq_or_lt with heq | hlt
    · -- the new leader's log ends in the term itself: the longer log has the prefix
      subst heq
      rw [hfirst]
      refine prefix_of_le hpre hroot.2 ?_
      rcases hup with h | ⟨h, h'⟩
      · omega
      · exact hlen.trans h'
    · -- it ends in a later term, whose leader had the prefix
      obtain ⟨⟨d, hd⟩, hre⟩ := hroot
      have he : e ∈ s.first U := hfirst ▸ (by simp)
      have hpd : p <+: s.full (term e) :=
        (ih (term e) (i.first_term he) hd hlt).trans (i.first_full _)
      rw [hfirst]
      refine prefix_of_le hpd hre ?_
      by_contra hcon
      have hsub : r ++ [e] <+: p := prefix_of_le hre hpd (by omega)
      have := i.full_term (hpre.subset (hsub.subset (by simp : e ∈ r ++ [e])))
      omega

/-- What is committed up to term `U` is in the log of the leader of `U`. -/
lemma Inv.committed_full (i : Inv q term s) {U : ℕ} {p : List α} {c : N}
    (hp : Committed q term s U p) (hU : s.lead U = some c) : p <+: s.full U := by
  obtain ⟨T, w, hT, hw, hpw⟩ := hp
  rcases hT.eq_or_lt with rfl | hlt
  · exact hpw.trans hw.1
  · exact hpw.trans ((i.complete hw hU hlt).trans (i.first_full U))

end Consensus
