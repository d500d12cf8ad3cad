import KVCacheRaft.Consensus.Invariant

/-!
# Every step preserves the invariant

One lemma for each step of the protocol, and `Inv.reachable` by induction over a run. The steps
that move a term or record a vote leave the leaders' logs alone; `elect` and `extend` let the
history grow; `accept` and `install` replace the log of one node.
-/

namespace Consensus
open Function State

variable {N α : Type*} {q : QuorumSystem N} {term : α → ℕ} {s s' : State N α}

/-- A log that keeps what was confirmed still does when the history grows and nothing is confirmed
in the terms before `V`. -/
lemma KeepsAcked.mono {n : N} {V U U' : ℕ} {l l' : List α} (i : Inv q term s) (g : Grows s s')
    (ha : ∀ T, T < V → s'.ack n T = s.ack n T) (hl : l <+: l') (hU : U ≤ U')
    (h : KeepsAcked term s n V l U) : KeepsAcked term s' n V l' U' := by
  intro T p hT hp hlen hend
  rw [ha T hT] at hlen
  have hp' : p <+: s.full T := prefix_of_le hp (g.full T) (hlen.trans (i.ack_le n T))
  exact (h hT hp' hlen hend).mono g hl hU

/-- The invariant holds at the start. -/
lemma Inv.initial : Inv q term (State.initial : State N α) where
  lead_cur h := by simp [State.initial] at h
  full_nil _ := rfl
  ack_cur h := by simp [State.initial] at h
  ack_le _ _ := by simp [State.initial]
  ballot_cur h := by simp [State.initial] at h
  log_term h := by simp [State.initial] at h
  first_full _ := List.prefix_rfl
  first_term h := by simp [State.initial] at h
  full_term h := by simp [State.initial] at h
  rooted_log _ _ _ h := by simp [State.initial] at h
  rooted_full _ _ _ h := by simp [State.initial] at h
  rooted_ballot h := by simp [State.initial] at h
  own h := by simp [State.initial] at h
  acked _ := by simp [State.initial]
  kept _ T p _ _ hlen hend := by
    have := hend.length_pos
    simp only [State.initial] at hlen
    omega
  voted h := by simp [State.initial] at h
  elected h := by simp [State.initial] at h

/-! ### Terms and votes -/

variable [DecidableEq N]

/-- Moving a node to a later term preserves the invariant. -/
lemma Inv.advance (i : Inv q term s) {n : N} {T : ℕ} (hT : s.cur n ≤ T) :
    Inv q term (s.advance n T) := by
  have hcur : ∀ m, s.cur m ≤ (s.advance n T).cur m := by
    intro m
    by_cases hm : m = n
    · subst hm; simpa [State.advance] using hT
    · simp [State.advance, hm]
  have hown : ∀ {U m}, U ≤ s.cur m → (s.advance n T).cur m = U → s.cur m = U := by
    intro U m h1 h2
    have := hcur m
    omega
  have g : Grows s (s.advance n T) := ⟨fun h => ⟨h, rfl⟩, fun _ => List.prefix_rfl⟩
  exact {
    lead_cur := fun h => (i.lead_cur h).trans (hcur _)
    full_nil := i.full_nil
    ack_cur := fun h => (i.ack_cur h).trans (hcur _)
    ack_le := i.ack_le
    ballot_cur := fun h => (i.ballot_cur h).trans (hcur _)
    log_term := fun h => (i.log_term h).trans (hcur _)
    first_full := i.first_full
    first_term := i.first_term
    full_term := i.full_term
    rooted_log := i.rooted_log
    rooted_full := i.rooted_full
    rooted_ballot := i.rooted_ballot
    own := fun h h' => i.own h (hown (i.lead_cur h) h')
    acked := by
      intro m
      rcases Nat.eq_zero_or_pos (s.ack m ((s.advance n T).cur m)) with h0 | hpos
      · show (s.full _).take (s.ack m _) <+: s.log m
        rw [h0]
        exact List.nil_prefix
      · rw [← hown (i.ack_cur hpos) rfl]
        exact i.acked m
    kept := by
      intro m U p _ hp hlen hend
      have hpos : 0 < s.ack m U := hend.length_pos.trans_le hlen
      exact (i.kept m (Nat.lt_succ_of_le (i.ack_cur hpos)) hp hlen hend).mono g List.prefix_rfl
        (Nat.succ_le_succ (hcur m))
    voted := i.voted
    elected := i.elected }

/-- Recording a first vote in the current term preserves the invariant. -/
lemma Inv.vote (i : Inv q term s) {n c : N} (h : s.ballot n (s.cur n) = none) :
    Inv q term (s.vote n c) := by
  have hb : ∀ {m U b}, (s.vote n c).ballot m U = some b →
      s.ballot m U = some b ∨ m = n ∧ U = s.cur n ∧ b = (c, s.log n) := by
    intro m U b hb
    by_cases hm : m = n
    · subst hm
      by_cases hU : U = s.cur m
      · subst hU
        simp [State.vote] at hb
        exact .inr ⟨rfl, rfl, hb.symm⟩
      · simp [State.vote, hU] at hb
        exact .inl hb
    · simp [State.vote, hm] at hb
      exact .inl hb
  have hold : ∀ {m U b}, s.ballot m U = some b → (s.vote n c).ballot m U = some b := by
    intro m U b hmb
    by_cases hm : m = n
    · subst hm
      have hU : U ≠ s.cur m := by rintro rfl; simp [h] at hmb
      simpa [State.vote, hU] using hmb
    · simpa [State.vote, hm] using hmb
  exact {
    lead_cur := i.lead_cur
    full_nil := i.full_nil
    ack_cur := i.ack_cur
    ack_le := i.ack_le
    ballot_cur := by
      intro m U b hmb
      rcases hb hmb with h' | ⟨rfl, rfl, -⟩
      · exact i.ballot_cur h'
      · exact le_rfl
    log_term := i.log_term
    first_full := i.first_full
    first_term := i.first_term
    full_term := i.full_term
    rooted_log := i.rooted_log
    rooted_full := i.rooted_full
    rooted_ballot := by
      intro m U d l hmb
      rcases hb hmb with h' | ⟨rfl, rfl, he⟩
      · exact i.rooted_ballot h'
      · cases he
        exact i.rooted_log m
    own := i.own
    acked := i.acked
    kept := i.kept
    voted := by
      intro m U d l hmb
      rcases hb hmb with h' | ⟨rfl, rfl, he⟩
      · exact i.voted h'
      · cases he
        exact fun _ _ hT => i.kept m (hT.trans (Nat.lt_succ_self _))
    elected := by
      intro U d hU
      obtain ⟨Q, hQ, hv⟩ := i.elected hU
      refine ⟨Q, hQ, fun m hm => ?_⟩
      obtain ⟨l, h1, h2⟩ := hv m hm
      exact ⟨l, hold h1, h2⟩ }

/-! ### Confirming a prefix, electing a leader -/

/-- Confirming a prefix of the leader's log that the node holds preserves the invariant. -/
lemma Inv.confirm (i : Inv q term s) {n : N} {p : List α} (hp : p <+: s.full (s.cur n))
    (hl : p <+: s.log n) : Inv q term (s.confirm n p.length) := by
  set s' := s.confirm n p.length with hs'
  have hack : ∀ m T, s'.ack m T = s.ack m T ∨
      m = n ∧ T = s.cur n ∧ s'.ack m T = max (s.ack m T) p.length := by
    intro m T
    by_cases h : m = n ∧ T = s.cur n
    · obtain ⟨rfl, rfl⟩ := h
      exact .inr ⟨rfl, rfl, by simp [hs', State.confirm]⟩
    · refine .inl ?_
      by_cases hm : m = n
      · subst hm
        have hT : T ≠ s.cur m := fun hT => h ⟨rfl, hT⟩
        simp [hs', State.confirm, hT]
      · simp [hs', State.confirm, hm]
  have g : Grows s s' := ⟨fun h => ⟨h, rfl⟩, fun _ => List.prefix_rfl⟩
  -- what is confirmed in the current term is a prefix of the log
  have hacked : ∀ m, (s.full (s.cur m)).take (s'.ack m (s.cur m)) <+: s.log m := by
    intro m
    rcases hack m (s.cur m) with h | ⟨rfl, -, h⟩
    · rw [h]
      exact i.acked m
    · rw [h]
      rcases le_total p.length (s.ack m (s.cur m)) with h' | h'
      · rw [max_eq_left h']
        exact i.acked m
      · rw [max_eq_right h', ← List.prefix_iff_eq_take.mp hp]
        exact hl
  have hbelow : ∀ m T, T < s.cur m → s'.ack m T = s.ack m T := by
    intro m T hT
    rcases hack m T with h | ⟨rfl, rfl, -⟩
    · exact h
    · omega
  exact {
    lead_cur := i.lead_cur
    full_nil := i.full_nil
    ack_cur := by
      intro m T h
      rcases hack m T with h' | ⟨rfl, rfl, -⟩
      · exact i.ack_cur (h' ▸ h)
      · exact le_rfl
    ack_le := by
      intro m T
      rcases hack m T with h' | ⟨rfl, rfl, h'⟩
      · exact h' ▸ i.ack_le m T
      · exact h' ▸ max_le (i.ack_le m _) hp.length_le
    ballot_cur := i.ballot_cur
    log_term := i.log_term
    first_full := i.first_full
    first_term := i.first_term
    full_term := i.full_term
    rooted_log := i.rooted_log
    rooted_full := i.rooted_full
    rooted_ballot := i.rooted_ballot
    own := i.own
    acked := hacked
    kept := by
      intro m T r hT hr hlen hend
      rcases (Nat.lt_succ_iff.mp hT).lt_or_eq with hlt | rfl
      · exact i.kept m hT hr ((hbelow m T hlt) ▸ hlen) hend
      · exact .inl ((List.prefix_take_iff.mpr ⟨hr, hlen⟩).trans (hacked m))
    voted := fun {m U c l} hb => (i.voted hb).mono i g
      (fun T hT => hbelow m T (hT.trans_le (i.ballot_cur hb))) List.prefix_rfl le_rfl
    elected := by
      intro U c hU
      obtain ⟨Q, hQ, hv⟩ := i.elected hU
      refine ⟨Q, hQ, fun m hm => ?_⟩
      obtain ⟨l, h1, h2, h3⟩ := hv m hm
      exact ⟨l, h1, h2, h3.mono i g
        (fun T hT => hbelow m T (hT.trans_le (i.ballot_cur h1))) List.prefix_rfl le_rfl⟩ }

omit [DecidableEq N] in
/-- Electing a node that has the votes of a quorum preserves the invariant. -/
lemma Inv.elect [DecidableEq N] (i : Inv q term s) {c : N} {Q : Set N} (hnone : s.lead (s.cur c) = none)
    (hQ : q.IsQuorum Q)
    (hv : ∀ n ∈ Q, ∃ l, s.ballot n (s.cur c) = some (c, l) ∧ UpToDate term (s.log c) l) :
    Inv q term (s.elect c) := by
  set s' := s.elect c with hs'
  have hself : s'.lead (s.cur c) = some c ∧ s'.first (s.cur c) = s.log c ∧
      s'.full (s.cur c) = s.log c := by
    simp [hs', State.elect]
  have hother : ∀ T, T ≠ s.cur c → s'.lead T = s.lead T ∧ s'.first T = s.first T ∧
      s'.full T = s.full T := by
    intro T hT
    simp [hs', State.elect, hT]
  have hne : ∀ {T d}, s.lead T = some d → T ≠ s.cur c := by
    rintro T d h rfl
    simp [hnone] at h
  have g : Grows s s' := by
    refine ⟨fun {T d} h => ?_, fun T => ?_⟩
    · obtain ⟨h1, h2, -⟩ := hother T (hne h)
      exact ⟨h1 ▸ h, h2⟩
    · by_cases hT : T = s.cur c
      · rw [hT, i.full_nil hnone]
        exact List.nil_prefix
      · rw [(hother T hT).2.2]
  have hbelow : ∀ {e}, e ∈ s.log c → term e < s.cur c := by
    intro e he
    obtain ⟨p, hp⟩ := exists_concat_prefix he
    obtain ⟨⟨d, hd⟩, -⟩ := i.rooted_log c hp
    exact lt_of_le_of_ne (i.log_term he) (hne hd)
  exact {
    lead_cur := by
      intro T d h
      by_cases hT : T = s.cur c
      · rw [hT, hself.1, Option.some.injEq] at h
        exact h ▸ hT.le
      · exact i.lead_cur ((hother T hT).1 ▸ h)
    full_nil := by
      intro T h
      by_cases hT : T = s.cur c
      · simp [hT, hself.1] at h
      · rw [(hother T hT).2.2]
        exact i.full_nil ((hother T hT).1 ▸ h)
    ack_cur := i.ack_cur
    ack_le := fun m T => (i.ack_le m T).trans (g.full T).length_le
    ballot_cur := i.ballot_cur
    log_term := i.log_term
    first_full := by
      intro T
      by_cases hT : T = s.cur c
      · rw [hT, hself.2.1, hself.2.2]
      · rw [(hother T hT).2.1, (hother T hT).2.2]
        exact i.first_full T
    first_term := by
      intro T e he
      by_cases hT : T = s.cur c
      · rw [hT, hself.2.1] at he
        exact hT ▸ hbelow he
      · exact i.first_term ((hother T hT).2.1 ▸ he)
    full_term := by
      intro T e he
      by_cases hT : T = s.cur c
      · rw [hT, hself.2.2] at he
        exact hT ▸ (hbelow he).le
      · exact i.full_term ((hother T hT).2.2 ▸ he)
    rooted_log := fun m => (i.rooted_log m).mono g
    rooted_full := by
      intro T
      by_cases hT : T = s.cur c
      · rw [hT, hself.2.2]
        exact (i.rooted_log c).mono g
      · rw [(hother T hT).2.2]
        exact (i.rooted_full T).mono g
    rooted_ballot := fun hb => (i.rooted_ballot hb).mono g
    own := by
      intro T d h hd
      by_cases hT : T = s.cur c
      · rw [hT, hself.1, Option.some.injEq] at h
        rw [hT, hself.2.2, ← h]
        rfl
      · rw [(hother T hT).2.2]
        exact i.own ((hother T hT).1 ▸ h) hd
    acked := by
      intro m
      show (s'.full (s.cur m)).take (s.ack m (s.cur m)) <+: s.log m
      have hpre := prefix_of_le (List.take_prefix (s.ack m (s.cur m)) (s'.full (s.cur m)))
        (g.full (s.cur m)) (by simpa using .inl (i.ack_le m (s.cur m)))
      exact (List.prefix_take_iff.mpr ⟨hpre, by simp⟩).trans (i.acked m)
    kept := fun m => (i.kept m).mono i g (fun _ _ => rfl) List.prefix_rfl le_rfl
    voted := fun hb => (i.voted hb).mono i g (fun _ _ => rfl) List.prefix_rfl le_rfl
    elected := by
      intro U d hU
      by_cases hUc : U = s.cur c
      · rw [hUc, hself.1, Option.some.injEq] at hU
        subst hU hUc
        refine ⟨Q, hQ, fun n hn => ?_⟩
        obtain ⟨l, hb, hup⟩ := hv n hn
        refine ⟨l, hb, hself.2.1 ▸ hup, ?_⟩
        -- no leader of this very term existed when the ballots were cast
        have hkeep : KeepsAcked term s n (s.cur c) l (s.cur c) := by
          intro T p hT hp hlen hend
          rcases i.voted hb hT hp hlen hend with h | ⟨T', h1, h2, ⟨d, hd⟩, h3⟩
          · exact .inl h
          · have := hne hd
            exact .inr ⟨T', h1, by omega, ⟨d, hd⟩, h3⟩
        exact hkeep.mono i g (fun _ _ => rfl) List.prefix_rfl le_rfl
      · obtain ⟨h1, h2, -⟩ := hother U hUc
        obtain ⟨R, hR, hvote⟩ := i.elected (h1 ▸ hU)
        refine ⟨R, hR, fun n hn => ?_⟩
        obtain ⟨l, hb, hup, hkeep⟩ := hvote n hn
        exact ⟨l, hb, h2 ▸ hup, hkeep.mono i g (fun _ _ => rfl) List.prefix_rfl le_rfl⟩ }

/-! ### Changing logs -/

/-- A leader that extends its log preserves the invariant. -/
lemma Inv.extend (i : Inv q term s) {c : N} {e : α} (hc : s.lead (s.cur c) = some c)
    (he : term e = s.cur c) : Inv q term (s.extend c e) := by
  set s' := s.extend c e with hs'
  have hown : s.log c = s.full (s.cur c) := i.own hc rfl
  have hself : s'.log c = s.log c ++ [e] ∧ s'.full (s.cur c) = s.log c ++ [e] := by
    simp [hs', State.extend, hown]
  have hlog : ∀ m, m ≠ c → s'.log m = s.log m := fun m hm => by simp [hs', State.extend, hm]
  have hfull : ∀ T, T ≠ s.cur c → s'.full T = s.full T :=
    fun T hT => by simp [hs', State.extend, hT]
  have g : Grows s s' := by
    refine ⟨fun h => ⟨h, rfl⟩, fun T => ?_⟩
    by_cases hT : T = s.cur c
    · rw [hT, hself.2, hown]
      exact List.prefix_append _ _
    · rw [hfull T hT]
  have hgrow : ∀ m, s.log m <+: s'.log m := by
    intro m
    by_cases hm : m = c
    · rw [hm, hself.1]
      exact List.prefix_append _ _
    · rw [hlog m hm]
  have hroot : Rooted term s' (s.log c ++ [e]) := by
    intro p x hp
    rcases List.prefix_concat_iff.mp hp with h | h
    · obtain ⟨rfl, hx⟩ := List.append_inj' h rfl
      cases hx
      rw [he]
      exact ⟨⟨c, hc⟩, hself.2 ▸ List.prefix_rfl⟩
    · exact (i.rooted_log c).mono g h
  exact {
    lead_cur := i.lead_cur
    full_nil := by
      intro T h
      have hT : T ≠ s.cur c := by
        rintro rfl
        have h' : s.lead (s.cur c) = none := h
        simp [hc] at h'
      rw [hfull T hT]
      exact i.full_nil h
    ack_cur := i.ack_cur
    ack_le := fun m T => (i.ack_le m T).trans (g.full T).length_le
    ballot_cur := i.ballot_cur
    log_term := by
      intro m x hx
      by_cases hm : m = c
      · subst hm
        rw [hself.1, List.mem_append, List.mem_singleton] at hx
        rcases hx with hx | rfl
        · exact i.log_term hx
        · exact he.le
      · exact i.log_term (hlog m hm ▸ hx)
    first_full := fun T => (i.first_full T).trans (g.full T)
    first_term := i.first_term
    full_term := by
      intro T x hx
      by_cases hT : T = s.cur c
      · rw [hT, hself.2, List.mem_append, List.mem_singleton] at hx
        rcases hx with hx | rfl
        · exact hT ▸ i.log_term hx
        · exact hT ▸ he.le
      · exact i.full_term (hfull T hT ▸ hx)
    rooted_log := by
      intro m
      by_cases hm : m = c
      · rw [hm, hself.1]
        exact hroot
      · rw [hlog m hm]
        exact (i.rooted_log m).mono g
    rooted_full := by
      intro T
      by_cases hT : T = s.cur c
      · rw [hT, hself.2]
        exact hroot
      · rw [hfull T hT]
        exact (i.rooted_full T).mono g
    rooted_ballot := fun hb => (i.rooted_ballot hb).mono g
    own := by
      intro T d h hd
      by_cases hdc : d = c
      · subst hdc
        have hd' : s.cur d = T := hd
        rw [← hd', hself.1, hself.2]
      · have hT : T ≠ s.cur c := by
          rintro rfl
          have h' : s.lead (s.cur c) = some d := h
          rw [hc, Option.some.injEq] at h'
          exact hdc h'.symm
        rw [hlog d hdc, hfull T hT]
        exact i.own h hd
    acked := by
      intro m
      show (s'.full (s.cur m)).take (s.ack m (s.cur m)) <+: s'.log m
      have hpre := prefix_of_le (List.take_prefix (s.ack m (s.cur m)) (s'.full (s.cur m)))
        (g.full (s.cur m)) (by simpa using .inl (i.ack_le m (s.cur m)))
      exact ((List.prefix_take_iff.mpr ⟨hpre, by simp⟩).trans (i.acked m)).trans (hgrow m)
    kept := fun m => (i.kept m).mono i g (fun _ _ => rfl) (hgrow m) le_rfl
    voted := fun hb => (i.voted hb).mono i g (fun _ _ => rfl) List.prefix_rfl le_rfl
    elected := by
      intro U d hU
      obtain ⟨Q, hQ, hv⟩ := i.elected hU
      refine ⟨Q, hQ, fun n hn => ?_⟩
      obtain ⟨l, hb, hup, hkeep⟩ := hv n hn
      exact ⟨l, hb, hup, hkeep.mono i g (fun _ _ => rfl) List.prefix_rfl le_rfl⟩ }

/-- Replacing the log of a node preserves the invariant when the new log keeps what the node has
confirmed. -/
lemma Inv.setLog (i : Inv q term s) {n : N} {l : List α} (hroot : Rooted term s l)
    (hterm : ∀ e ∈ l, term e ≤ s.cur n)
    (hown : s.lead (s.cur n) = some n → l = s.full (s.cur n))
    (hack : (s.full (s.cur n)).take (s.ack n (s.cur n)) <+: l)
    (hkept : KeepsAcked term s n (s.cur n) l (s.cur n + 1)) : Inv q term (s.setLog n l) := by
  set s' := s.setLog n l with hs'
  have hself : s'.log n = l := by simp [hs', State.setLog]
  have hlog : ∀ m, m ≠ n → s'.log m = s.log m := fun m hm => by simp [hs', State.setLog, hm]
  exact {
    lead_cur := i.lead_cur
    full_nil := i.full_nil
    ack_cur := i.ack_cur
    ack_le := i.ack_le
    ballot_cur := i.ballot_cur
    log_term := by
      intro m e he
      by_cases hm : m = n
      · subst hm
        exact hterm e (hself ▸ he)
      · exact i.log_term (hlog m hm ▸ he)
    first_full := i.first_full
    first_term := i.first_term
    full_term := i.full_term
    rooted_log := by
      intro m
      by_cases hm : m = n
      · rw [hm, hself]
        exact hroot
      · rw [hlog m hm]
        exact i.rooted_log m
    rooted_full := i.rooted_full
    rooted_ballot := i.rooted_ballot
    own := by
      intro T c h hc
      by_cases hm : c = n
      · subst hm
        have hc' : s.cur c = T := hc
        subst hc'
        exact hself.trans (hown h)
      · rw [hlog c hm]
        exact i.own h hc
    acked := by
      intro m
      by_cases hm : m = n
      · rw [hm, hself]
        exact hack
      · rw [hlog m hm]
        exact i.acked m
    kept := by
      intro m
      by_cases hm : m = n
      · subst hm
        rw [hself]
        intro T p hT hp hlen hend
        rcases (Nat.lt_succ_iff.mp hT).lt_or_eq with hlt | rfl
        · exact hkept hlt hp hlen hend
        · exact .inl ((List.prefix_take_iff.mpr ⟨hp, hlen⟩).trans hack)
      · rw [hlog m hm]
        exact i.kept m
    voted := i.voted
    elected := i.elected }

end Consensus
