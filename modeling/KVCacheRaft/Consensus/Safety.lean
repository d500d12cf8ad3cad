import KVCacheRaft.Consensus.Preserved

/-!
# Safety of the replicated-log protocol

`Inv.step` puts the step lemmas together and `Reachable.inv` carries the invariant along a run.
The consequences an implementation cites are at the end: log matching (`Inv.matching`), leader
completeness (`Inv.complete`, in `Consensus.Invariant`), and the agreement of everything that is
committed (`Inv.committed_agree`). `Extends` says what a run can never undo.
-/

namespace Consensus
open Function State

variable {N α : Type*} [DecidableEq N] {q : QuorumSystem N} {term : α → ℕ} {s s' s'' : State N α}

/-- A node that takes over a prefix of its leader's log keeps what it has confirmed. -/
lemma Inv.accept (i : Inv q term s) {n : N} {p l : List α} (hlead : s.lead (s.cur n) ≠ none)
    (hp : p <+: s.full (s.cur n)) (hm : Merged (s.log n) p l) :
    Inv q term ((s.setLog n l).confirm n p.length) := by
  obtain ⟨c, hc⟩ := Option.ne_none_iff_exists'.mp hlead
  have hpl : p <+: l := by
    rcases hm with ⟨h, rfl⟩ | ⟨-, rfl⟩
    · exact h
    · exact List.prefix_rfl
  have hset : Inv q term (s.setLog n l) := by
    rcases hm with ⟨-, rfl⟩ | ⟨hnot, rfl⟩
    · refine i.setLog (i.rooted_log n) (fun e he => i.log_term he) (fun h => i.own h rfl)
        (i.acked n) ?_
      intro T r hT hr hlen hend
      exact i.kept n (hT.trans (Nat.lt_succ_self _)) hr hlen hend
    -- the log did not have the prefix, so nothing beyond it was confirmed
    · have hshort : s.ack n (s.cur n) < l.length := by
        by_contra hcon
        exact hnot ((List.prefix_take_iff.mpr ⟨hp, by omega⟩).trans (i.acked n))
      refine i.setLog ((i.rooted_full _).of_isPrefix hp) (fun e he => i.full_term (hp.subset he))
        ?_ ?_ ?_
      · intro h
        exact absurd (i.own h rfl ▸ hp) hnot
      · exact prefix_of_le (List.take_prefix _ _) hp (by simpa using .inl hshort.le)
      · intro T r hT hr hlen hend
        rcases i.kept n (hT.trans (Nat.lt_succ_self _)) hr hlen hend with h | h
        · by_cases hfirst : r <+: s.first (s.cur n)
          · left
            have hrf := hfirst.trans (i.first_full (s.cur n))
            refine prefix_of_le hrf hp ?_
            by_contra hcon
            exact hnot ((prefix_of_le hp hrf (by omega)).trans h)
          · exact .inr ⟨s.cur n, hT, Nat.lt_succ_self _, ⟨c, hc⟩, hfirst⟩
        · exact .inr h
  refine hset.confirm hp ?_
  simpa [State.setLog] using hpl

/-- A node that installs a committed prefix in place of a log that is no longer keeps what it has
confirmed. -/
lemma Inv.install (i : Inv q term s) {n : N} {p : List α} (hp : Committed q term s (s.cur n) p)
    (hlen : (s.log n).length ≤ p.length) : Inv q term (s.setLog n p) := by
  obtain ⟨T, w, hT, hw, hpw⟩ := id hp
  have hpT : p <+: s.full T := hpw.trans hw.1
  refine i.setLog ((i.rooted_full T).of_isPrefix hpT)
    (fun e he => (i.full_term (hpT.subset he)).trans hT) ?_ ?_ ?_
  · intro h
    exact (i.committed_full hp h).eq_of_length_le (i.own h rfl ▸ hlen)
  · rcases Nat.eq_zero_or_pos (s.ack n (s.cur n)) with h0 | hpos
    · rw [h0]
      exact List.nil_prefix
    · obtain ⟨c, hc⟩ := i.lead_of_ack hpos
      exact prefix_of_le (List.take_prefix _ _) (i.committed_full hp hc)
        ((i.acked n).length_le.trans hlen)
  · intro U r hU hr hrlen hend
    rcases i.kept n (hU.trans (Nat.lt_succ_self _)) hr hrlen hend with h | h
    · have hrp : r.length ≤ p.length := h.length_le.trans hlen
      rcases lt_trichotomy U T with hlt | rfl | hgt
      · -- the prefix was chosen later: its leader had what was confirmed, or lacked it
        obtain ⟨e, he, -⟩ := hw.2.1.mem
        obtain ⟨d, hd⟩ := i.lead_of_mem (hw.1.subset he)
        by_cases hfirst : r <+: s.first T
        · exact .inl (prefix_of_le (hfirst.trans (i.first_full T)) hpT hrp)
        · exact .inr ⟨T, hlt, by omega, ⟨d, hd⟩, hfirst⟩
      · exact .inl (prefix_of_le hr hpT hrp)
      · obtain ⟨c, hc⟩ := i.lead_of_ack (hend.length_pos.trans_le hrlen)
        have hpU : p <+: s.full U := hpw.trans ((i.complete hw hc hgt).trans (i.first_full U))
        exact .inl (prefix_of_le hr hpU hrp)
    · exact .inr h

/-- Every step preserves the invariant. -/
theorem Inv.step (i : Inv q term s) (st : Step q term s s') : Inv q term s' := by
  cases st with
  | advance hT => exact i.advance hT
  | vote h => exact i.vote h
  | elect hnone hQ hv =>
    refine (i.elect hnone hQ hv).confirm ?_ List.prefix_rfl
    simp [State.elect]
  | @extend c e hc he =>
    have hown : s.log c = s.full (s.cur c) := i.own hc rfl
    have h := (i.extend hc he).confirm (n := c) (p := s.log c ++ [e])
      (by simp [State.extend, hown]) (by simp [State.extend])
    simpa using h
  | accept hlead hp hm => exact i.accept hlead hp hm
  | install hp hlen => exact i.install hp hlen

/-- The invariant holds in every reachable state. -/
theorem Reachable.inv (h : Reachable q term s) : Inv q term s := by
  induction h with
  | initial => exact Inv.initial
  | step _ st ih => exact ih.step st

/-! ### What a run never undoes -/

/-- What a later state has kept of an earlier one. -/
structure Extends (s s' : State N α) : Prop extends Grows s s' where
  cur : ∀ n, s.cur n ≤ s'.cur n
  ack : ∀ n T, s.ack n T ≤ s'.ack n T
  ballot : ∀ {n T b}, s.ballot n T = some b → s'.ballot n T = some b

omit [DecidableEq N] in
/-- A state extends itself. -/
lemma Extends.refl (s : State N α) : Extends s s :=
  ⟨Grows.refl s, fun _ => le_rfl, fun _ _ => le_rfl, id⟩

omit [DecidableEq N] in
/-- Extending is transitive. -/
lemma Extends.trans (h : Extends s s') (h' : Extends s' s'') : Extends s s'' where
  lead := fun hl => ⟨(h'.lead (h.lead hl).1).1, (h'.lead (h.lead hl).1).2.trans (h.lead hl).2⟩
  full := fun T => (h.full T).trans (h'.full T)
  cur := fun n => (h.cur n).trans (h'.cur n)
  ack := fun n T => (h.ack n T).trans (h'.ack n T)
  ballot := fun hb => h'.ballot (h.ballot hb)

/-- A step leaves the history and everything confirmed in place. -/
lemma Inv.extends (i : Inv q term s) (st : Step q term s s') : Extends s s' := by
  have hconfirm : ∀ (t : State N α) n k, Extends t (t.confirm n k) := by
    intro t n k
    refine ⟨⟨fun h => ⟨h, rfl⟩, fun _ => List.prefix_rfl⟩, fun _ => le_rfl, fun m T => ?_, id⟩
    by_cases hm : m = n
    · subst hm
      by_cases hT : T = t.cur m
      · simp [State.confirm, hT]
      · simp [State.confirm, hT]
    · simp [State.confirm, hm]
  have hset : ∀ n l, Extends s (s.setLog n l) := fun n l =>
    ⟨⟨fun h => ⟨h, rfl⟩, fun _ => List.prefix_rfl⟩, fun _ => le_rfl, fun _ _ => le_rfl, id⟩
  cases st with
  | @advance n T hT =>
    refine ⟨⟨fun h => ⟨h, rfl⟩, fun _ => List.prefix_rfl⟩, fun m => ?_, fun _ _ => le_rfl, id⟩
    by_cases hm : m = n
    · subst hm; simpa [State.advance] using hT
    · simp [State.advance, hm]
  | @vote n c h =>
    refine ⟨⟨fun h => ⟨h, rfl⟩, fun _ => List.prefix_rfl⟩, fun _ => le_rfl, fun _ _ => le_rfl, ?_⟩
    intro m T b hb
    by_cases hm : m = n
    · subst hm
      have hT : T ≠ s.cur m := by rintro rfl; simp [h] at hb
      simpa [State.vote, hT] using hb
    · simpa [State.vote, hm] using hb
  | @elect c Q hnone hQ hv =>
    have helect : Extends s (s.elect c) := by
      refine ⟨⟨fun {T d} h => ?_, fun T => ?_⟩, fun _ => le_rfl, fun _ _ => le_rfl, id⟩
      · have hT : T ≠ s.cur c := by rintro rfl; simp [hnone] at h
        simpa [State.elect, hT] using h
      · by_cases hT : T = s.cur c
        · rw [hT, i.full_nil hnone]
          exact List.nil_prefix
        · simp [State.elect, hT]
    exact helect.trans (hconfirm _ _ _)
  | @extend c e hc he =>
    have hextend : Extends s (s.extend c e) := by
      refine ⟨⟨fun h => ⟨h, rfl⟩, fun T => ?_⟩, fun _ => le_rfl, fun _ _ => le_rfl, id⟩
      by_cases hT : T = s.cur c
      · simp [State.extend, hT]
      · simp [State.extend, hT]
    exact hextend.trans (hconfirm _ _ _)
  | accept hlead hp hm => exact (hset _ _).trans (hconfirm _ _ _)
  | install hp hlen => exact hset _ _

omit [DecidableEq N] in
/-- What is chosen stays chosen. -/
lemma Chosen.mono {T : ℕ} {p : List α} (g : Extends s s') (h : Chosen q term s T p) :
    Chosen q term s' T p := by
  obtain ⟨h1, h2, Q, hQ, h3⟩ := h
  exact ⟨h1.trans (g.full T), h2, Q, hQ, fun n hn => (h3 n hn).trans (g.ack n T)⟩

omit [DecidableEq N] in
/-- What is committed stays so, as do its beginnings. -/
lemma Committed.mono {U U' : ℕ} {p p' : List α} (g : Extends s s') (hU : U ≤ U') (hp : p' <+: p)
    (h : Committed q term s U p) : Committed q term s' U' p' := by
  obtain ⟨T, w, hT, hw, hpw⟩ := h
  exact ⟨T, w, hT.trans hU, hw.mono g, hp.trans hpw⟩

/-! ### Consequences of the invariant -/

omit [DecidableEq N]

/-- Log matching: two rooted logs with entries of the same term at one position agree up to it. -/
theorem Inv.matching {l m p r : List α} {e x : α} (hl : Rooted term s l) (hm : Rooted term s m)
    (hp : p ++ [e] <+: l) (hr : r ++ [x] <+: m) (hlen : p.length = r.length)
    (ht : term e = term x) : p ++ [e] = r ++ [x] :=
  prefix_eq (hl hp).2 (ht ▸ (hm hr).2) (by simp [hlen])

/-- Of two committed prefixes one is a prefix of the other. -/
theorem Inv.committed_agree (i : Inv q term s) {U V : ℕ} {p r : List α}
    (hp : Committed q term s U p) (hr : Committed q term s V r) (hlen : p.length ≤ r.length) :
    p <+: r := by
  obtain ⟨T, w, -, hw, hpw⟩ := hp
  obtain ⟨T', w', -, hw', hrw⟩ := hr
  have common : ∃ l, p <+: l ∧ r <+: l := by
    rcases le_total T T' with h | h
    · obtain ⟨e, he, -⟩ := hw'.2.1.mem
      obtain ⟨d, hd⟩ := i.lead_of_mem (hw'.1.subset he)
      exact ⟨_, i.committed_full ⟨T, w, h, hw, hpw⟩ hd, hrw.trans hw'.1⟩
    · obtain ⟨e, he, -⟩ := hw.2.1.mem
      obtain ⟨d, hd⟩ := i.lead_of_mem (hw.1.subset he)
      exact ⟨_, hpw.trans hw.1, i.committed_full ⟨T', w', h, hw', hrw⟩ hd⟩
  obtain ⟨l, h1, h2⟩ := common
  exact prefix_of_le h1 h2 hlen

end Consensus
