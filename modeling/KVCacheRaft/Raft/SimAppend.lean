import KVCacheRaft.Raft.SimVote

/-!
# `AppendEntries` simulates the protocol

Both locked parts of `AppendEntries` confirm a prefix of the leader's log: the first one the entries
of the request that the node already holds, the second one all of them. The second is a step of the
protocol only if no stale entries stay behind the writes (`Raft.LeavesNoSuffix`).
-/

namespace KVCacheRaft
open Consensus

variable {n : ℕ} {s : Cluster} {a : Abstract} {i : ℕ} {r r' : Raft}

/-- What may be applied in a term is in the log of its leader. -/
lemma Settled.full {U c : ℕ} {p : List LogEntry}
    (hinv : Inv (majority n) LogEntry.logterm a) (h : Settled n a U p) (hc : a.lead U = some c) :
    p <+: a.full U := by
  rcases h with rfl | h
  · exact List.nil_prefix
  · exact hinv.committed_full h hc

/-- A prefix whose length and last term the node finds in its log is a prefix of it. -/
lemma prefix_of_termAt {l p : List LogEntry} (hl : Rooted LogEntry.logterm a l)
    (hp : Rooted LogEntry.logterm a p) (hr : r.Holds l)
    (ht : r.termAt p.length = .ok (lastTerm LogEntry.logterm p)) :
    p <+: l ∧ r.lastSnapshotIndex ≤ p.length := by
  obtain ⟨hs, q, hq, hlen, hterm⟩ := hr.termAt ht
  refine ⟨?_, hs⟩
  rcases List.eq_nil_or_concat p with rfl | ⟨p, e, rfl⟩
  · exact List.nil_prefix
  rcases List.eq_nil_or_concat q with rfl | ⟨q, x, rfl⟩
  · simp at hlen
    omega
  rw [List.concat_eq_append] at *
  rw [List.concat_eq_append] at *
  simp only [lastTerm_concat] at hterm
  have hlen' : p.length = q.length := by
    simp only [List.length_append, List.length_singleton] at hlen
    omega
  rw [Inv.matching hp hl List.prefix_rfl hq hlen' hterm]
  exact hq

/-- A log matches that of every leader. -/
lemma Sim.matches (h : Sim s a) (i T : ℕ) : Matches (a.log i) (a.full T) :=
  fun _ _ _ _ hp hq hlen ht =>
    Inv.matching (h.reachable.inv.rooted_log i) (h.reachable.inv.rooted_full T) hp hq hlen ht

/-- A follower takes over the prefix `P` of the log of its leader and perhaps learns that a part of
it is settled. -/
lemma NodeStep.accept (h : Sim s a) {c : ℕ} {P l' : List LogEntry}
    (hlead : a.lead (a.cur i) = some c) (hP : P <+: a.full (a.cur i))
    (hm : Merged (a.log i) P l')
    (hcur : r.currentTerm = (s.nodes i).currentTerm) (hstate : r.state = .follower)
    (hvote : r.voteForId = (s.nodes i).voteForId) (hholds : r.Holds l')
    (hsnap : r.lastSnapshotIndex = (s.nodes i).lastSnapshotIndex)
    (hcommit : r.commitIndex = (s.nodes i).commitIndex ∨ ∃ w, w <+: P ∧
      Settled s.size a (a.cur i) w ∧ r.commitIndex = w.length ∧
      (s.nodes i).commitIndex ≤ r.commitIndex)
    (hstable : r.commitIndex ≤ r.stableLogIndex)
    (hchan : r.applyChan = (s.nodes i).applyChan) :
    NodeStep s a i r ((a.setLog i l').confirm i P.length) := by
  have hn := h.node i
  have hinv := h.reachable.inv
  have hmoves := hinv.accept_moves (by rw [hlead]; simp) hP hm
  set a' := (a.setLog i l').confirm i P.length with ha'
  have hlog : a'.log i = l' := by simp [ha', State.setLog, State.confirm]
  have hPl : P <+: l' := by
    rcases hm with ⟨h1, rfl⟩ | ⟨-, rfl⟩
    · exact h1
    · exact List.prefix_rfl
  exact {
    moves := hmoves
    indexed := h.indexed
    node := {
      cur := hcur.trans hn.cur
      holds := hlog.symm ▸ hholds
      commit := by
        rcases hcommit with hsame | ⟨w, hw, hset, hlen, -⟩
        · -- what was settled stays, since it is in the leader's log
          obtain ⟨p, h1, h2, h3⟩ := hn.commit
          refine ⟨p, ?_, hsame.trans h2, h3.mono hmoves.extends_ le_rfl List.prefix_rfl⟩
          rw [hlog]
          rcases hm with ⟨-, rfl⟩ | ⟨hnot, rfl⟩
          · exact h1
          · have hpf := h3.full hinv hlead
            refine prefix_of_le hpf hP ?_
            by_contra hcon
            exact hnot ((prefix_of_le hP hpf (by omega)).trans h1)
        · exact ⟨w, hlog.symm ▸ hw.trans hPl, hlen,
            hset.mono hmoves.extends_ le_rfl List.prefix_rfl⟩
      snapshot_le := by
        rw [hsnap]
        rcases hcommit with hsame | ⟨w, -, -, -, hle⟩
        · exact hsame.symm ▸ hn.snapshot_le
        · exact hn.snapshot_le.trans hle
      commit_le := hstable
      fresh := fun hv => hn.fresh (hvote ▸ hv)
      voted := fun d hd => hn.voted d (hvote ▸ hd)
      leader := fun hs => by rw [hstate] at hs; cases hs
      acked := fun hs => by rw [hstate] at hs; cases hs
      candidate := fun hs => by rw [hstate] at hs; cases hs
      matched := fun hs => by rw [hstate] at hs; cases hs }
    commit_le := by
      rcases hcommit with hsame | ⟨w, -, -, -, hle⟩
      · exact hsame.ge
      · exact hle
    candidate := fun hs => by rw [hstate] at hs; cases hs
    follower := fun _ _ => hstate
    ballot := fun hb => .inl hb
    pushed := fun msg hm => .inl (hchan ▸ hm) }

/-- What is confirmed is acknowledged. -/
lemma confirm_ack (a : Abstract) (i : ℕ) (l : List LogEntry) (k : ℕ) :
    k ≤ ((a.setLog i l).confirm i k).ack i (a.cur i) := by
  simp [State.confirm, State.setLog]

namespace Cluster

variable {s' : Cluster}

/-- What the follower knows in either part of `AppendEntries`: the request carries the entries
`p ++ entries` of the log of the leader of its term, and the node has `p`. -/
lemma append_prefix (h : Sim s a) {c : ℕ} {args : AppendEntriesArgs}
    (hr : r.Holds (a.log i)) (ha : AppendSim n a c args)
    (ht : r.termAt args.prevlogindex = .ok args.prevlogterm) :
    ∃ p w, p ++ args.entries <+: a.full args.term ∧ args.prevlogindex = p.length ∧
      p <+: a.log i ∧ r.lastSnapshotIndex ≤ p.length ∧ w <+: p ++ args.entries ∧
      args.leadercommit = w.length ∧ Settled n a args.term w := by
  obtain ⟨p, w, h1, h2, h3, h4, h5, h6⟩ := ha.entries
  have hinv := h.reachable.inv
  rw [h2, h3] at ht
  obtain ⟨h7, h8⟩ := prefix_of_termAt (hinv.rooted_log i)
    ((hinv.rooted_full args.term).of_isPrefix ((List.prefix_append _ _).trans h1)) hr ht
  exact ⟨p, w, h1, h2, h7, h8, h4, h5, h6⟩

/-- A node accepts the term of a request for its log. -/
lemma sim_acceptTerm (h : Sim s a) {T : ℕ} (hT : (s.nodes i).currentTerm ≤ T)
    (hview : r.view = ((s.nodes i).acceptTerm T).view) (hstate : r.state = .follower)
    (hstable : r.stableLogIndex = (s.nodes i).stableLogIndex) :
    ∃ a', Sim (s.setNode i r) a' ∧ Extends a a' ∧ a'.cur i = T := by
  obtain ⟨a', h1, h2, h3, -⟩ := h.catchUp (i := i) (r := r) (T := T) hT
    (fun hgt => by
      rw [Raft.acceptTerm, if_pos hgt] at hview
      exact ⟨hstate, hview⟩)
    (fun hgt => by
      rw [Raft.acceptTerm, if_neg hgt] at hview
      exact ⟨hview, .inr hstate⟩)
    hstable.ge
  exact ⟨a', h1, h2, h3⟩

/-- A reply of the first locked part is simulated. -/
lemma sim_appendEntries_replied (h : Sim s a) {id : ℕ} {c : Call} {args : AppendEntriesArgs}
    {rep : AppendEntriesReply} (hc : s.calls[id]? = some c)
    (hr : (s.nodes c.callee).appendEntries args = .ok (r', .replied rep)) :
    ∃ a', Sim ((s.setNode c.callee r').reply id (.appendEntries rep)) a' ∧ Extends a a' := by
  have hno : ∀ {b : Abstract} {rep : AppendEntriesReply}, rep.success = false →
      ReplySim b c (.appendEntries rep) := by
    intro b rep hno args _ hs
    rw [hno] at hs
    cases hs
  rcases Raft.appendEntries_cases hr with ⟨-, rfl, hp⟩ | ⟨hle, rfl, hint, hp⟩ |
    ⟨-, -, -, -, writes, -, hp⟩
  · cases hp
    exact ⟨a, (h.setNode (.touch h rfl (Int.le_refl _) (.inl rfl))).replied hc (hno rfl),
      Extends.refl a⟩
  · cases hp
    obtain ⟨a', h1, h2, -⟩ := sim_acceptTerm h hle
      (r := ((s.nodes c.callee).acceptTerm args.term).persistState) rfl (Raft.acceptTerm_state _ _)
      (Raft.acceptTerm_stableLogIndex _ _)
    exact ⟨a', h1.replied hc (hno rfl), h2⟩
  · cases hp

/-- A handler that releases the lock is simulated. -/
lemma sim_appendEntries_unlocked (h : Sim s a) {id : ℕ} {c : Call}
    {args : AppendEntriesArgs} {writes : List PendingLogWrite} (hc : s.calls[id]? = some c)
    (hreq : c.request = .appendEntries args)
    (hr : (s.nodes c.callee).appendEntries args = .ok (r', .unlocked writes)) :
    ∃ a', Sim { s.setNode c.callee r' with
      handlers := s.handlers ++ [{ call := id, node := c.callee, args, pendingWrites := writes }] }
      a' ∧ Extends a a' := by
  set i := c.callee with hi
  rcases Raft.appendEntries_cases hr with ⟨-, -, hp⟩ | ⟨-, -, hint, hp⟩ |
    ⟨hle, hr', -, hterm, writes', hw, hp⟩
  · cases hp
  · cases hp
  cases hp
  -- first the term, then the confirmation of what the node already holds
  obtain ⟨a₁, h₁, g₁, hcur⟩ := sim_acceptTerm h hle (r := r') (by rw [hr'])
    (by rw [hr']; exact Raft.acceptTerm_state _ _) (by rw [hr']; exact Raft.acceptTerm_stableLogIndex _ _)
  have hn := h₁.node i
  rw [setNode_self] at hn
  have ha : AppendSim s.size a₁ c.caller args := by
    have := h₁.call hc
    rwa [CallSim, hreq] at this
  obtain ⟨p, v, h2, h3, h4, h5, -⟩ := append_prefix h₁ hn.holds ha hterm
  rw [hn.holds.getLastLogIndex (h₁.indexed_log i)] at hw
  obtain ⟨m, rest, hes, hml, hpw⟩ := Raft.pendingWrites_eq hn.holds (h₁.matches i args.term)
    (h₁.indexed _) h4 h2 h5
  rw [hw] at hpw
  have hpm : p ++ m <+: a₁.full (a₁.cur i) := by
    rw [hcur]
    refine List.IsPrefix.trans ?_ h2
    rw [hes, ← List.append_assoc]
    exact List.prefix_append _ _
  have st := NodeStep.accept (r := r') h₁ (hcur ▸ ha.lead) hpm (.inl ⟨hml, rfl⟩)
    (by rw [setNode_self])
    (by rw [hr']; exact Raft.acceptTerm_state _ _) (by rw [setNode_self]) hn.holds
    (by rw [setNode_self]) (.inl (by rw [setNode_self])) hn.commit_le (by rw [setNode_self])
  have h' := h₁.setNode st
  rw [setNode_setNode] at h'
  refine ⟨_, h'.messages rfl rfl (fun hk => ⟨_, hk, Call.Later.refl _⟩)
    (fun hk => .inl ⟨_, hk, Call.Later.refl _⟩) (fun hrep => .inl hrep) (fun hh => ?_)
    (fun _ _ hm => .inl hm), g₁.trans st.moves.extends_⟩
  rcases List.mem_append.mp hh with hh | hh
  · exact .inl hh
  · rw [List.mem_singleton] at hh
    subst hh
    right
    have hack := confirm_ack a₁ i (a₁.log i) (p ++ m).length
    rw [hcur] at hack
    refine ⟨⟨c, hc, rfl, hreq⟩, hcur.ge, fun _ => ?_, m, rest, _, _, hes, ?_, Except.ok.inj hpw⟩
    · rw [setNode_self, hr']
      exact Raft.acceptTerm_state _ _
    · have hlen : (p ++ m).length = p.length + m.length := List.length_append
      simp only [h3]
      omega

/-- The second part: under the condition on the writes the node ends up with the leader's prefix. -/
lemma sim_resume (h : Sim s a) {k : ℕ} {stable : Bool} {q : Handler}
    {rep : AppendEntriesReply} (hq : s.handlers[k]? = some q)
    (hgood : stable = true → (s.nodes q.node).PassesChecks q.args q.pendingWrites →
      (s.nodes q.node).LeavesNoSuffix q.args q.pendingWrites)
    (hr : (s.nodes q.node).appendEntriesStable q.args q.pendingWrites stable = .ok (r', rep)) :
    ∃ a', Sim ({ s.setNode q.node r' with handlers := s.handlers.eraseIdx k }.reply q.call
      (.appendEntries rep)) a' ∧ Extends a a' := by
  have hs := h.handler (List.mem_of_getElem? hq)
  obtain ⟨c, hc, hnode, hreq⟩ := hs.call
  set i := q.node with hi
  -- the bookkeeping around the step of the node
  suffices hstep : ∃ a', Sim (s.setNode i r') a' ∧ Extends a a' ∧
      ReplySim a' c (.appendEntries rep) by
    obtain ⟨a', h', g, hrep⟩ := hstep
    refine ⟨a', Sim.replied (c := c) (h'.messages rfl rfl (fun hk => ⟨_, hk, Call.Later.refl _⟩)
      (fun hk => .inl ⟨_, hk, Call.Later.refl _⟩) (fun hr => .inl hr) (fun hh => .inl ?_)
      (fun _ _ hm => .inl hm)) hc hrep, g⟩
    exact List.mem_of_mem_eraseIdx hh
  rcases Raft.appendEntriesStable_cases hr with ⟨rfl, hno⟩ | ⟨hstable, hchecks, hr⟩
  · refine ⟨a, h.setNode (.touch h rfl (Int.le_refl _) (.inl rfl)), Extends.refl a, ?_⟩
    intro args _ hsucc
    rw [hno] at hsucc
    cases hsucc
  have hn := h.node i
  have hinv := h.reachable.inv
  have ⟨hterm, _, _, ht, hcheck⟩ := hchecks
  have hcur : a.cur i = q.args.term := hn.cur.symm.trans hterm
  have ha : AppendSim s.size a c.caller q.args := by
    have := h.call hc
    rwa [CallSim, hreq] at this
  obtain ⟨p, v, h1, h2, h3, h4, h5, h6, h7⟩ := append_prefix h hn.holds ha ht
  obtain ⟨m, rest, snapshot, last, hes, hack, hw⟩ := hs.writes
  -- the entries the first part found are still there, since the node confirmed them
  have hpm : p ++ m <+: a.full q.args.term := by
    refine List.IsPrefix.trans ?_ h1
    rw [hes, ← List.append_assoc]
    exact List.prefix_append _ _
  have hpml : p ++ m <+: a.log i := by
    refine List.IsPrefix.trans ?_ (hinv.acked i)
    rw [hcur, List.prefix_take_iff]
    refine ⟨hpm, ?_⟩
    rw [h2] at hack
    rw [List.length_append]
    exact_mod_cast hack
  have hP : p ++ m ++ rest = p ++ q.args.entries := by rw [hes, List.append_assoc]
  rw [hn.holds.getLastLogIndex (h.indexed_log i), hw] at hcheck
  have hgood := hgood hstable hchecks
  rw [hw] at hgood
  obtain ⟨l', hm, hholds⟩ := Raft.applyPending_merged hn.holds (h.indexed_log i)
    (h.matches i q.args.term) (h.indexed _) (by rw [hP]; exact h1) hpml
    (by simp only [List.length_append]; push_cast; omega) hcheck
    (by rw [h2, hP]; simp) hgood
  rw [hP] at hm
  obtain ⟨logs, lst, hlogs, hlast, hr', hle, hrep⟩ := Raft.applyEntries_cases hr
  rw [hw] at hlogs
  rw [← hlogs] at hholds
  have hrooted : Rooted LogEntry.logterm a l' := by
    rcases hm with ⟨-, rfl⟩ | ⟨-, rfl⟩
    · exact hinv.rooted_log i
    · exact (hinv.rooted_full _).of_isPrefix h1
  rw [hholds.getLastLogIndex (h.indexed_of_rooted hrooted)] at hlast
  have hPl : p ++ q.args.entries <+: l' := by
    rcases hm with ⟨h8, rfl⟩ | ⟨-, rfl⟩
    · exact h8
    · exact List.prefix_rfl
  have hvl : v.length ≤ l'.length := (h5.trans hPl).length_le
  have st := NodeStep.accept (r := r') h (hcur.symm ▸ ha.lead) (hcur.symm ▸ h1) hm
    (by rw [hr']; rfl)
    (by rw [hr']; exact hs.follower hcur)
    (by rw [hr']; rfl) (hholds.congr (by rw [hr']; rfl) (by rw [hr']; rfl) (by rw [hr']; rfl))
    (by rw [hr']; rfl)
    (by
      by_cases hlc : q.args.leadercommit > (s.nodes i).commitIndex
      · right
        refine ⟨v, h5, hcur.symm ▸ h7, ?_, ?_⟩
        · rw [hr']
          simp only [Raft.persistState, h6, hlast]
          omega
        · rw [hr']
          simp only [Raft.persistState, h6, hlast]
          omega
      · left
        rw [hr']
        simp only [Raft.persistState, if_neg hlc])
    (by
      rw [hr']
      rw [hr'] at hle
      exact le_max_of_le_right hle)
    (by rw [hr']; rfl)
  refine ⟨_, h.setNode st, st.moves.extends_, ?_⟩
  intro args hreq' _
  obtain rfl := Request.appendEntries.inj (hreq.symm.trans hreq')
  have hk := confirm_ack a i l' (p ++ q.args.entries).length
  rw [hcur] at hk
  refine ⟨by rw [hrep]; exact hterm, ?_⟩
  have hlen : (p ++ q.args.entries).length = p.length + q.args.entries.length :=
    List.length_append
  rw [h2, hnode]
  omega

end Cluster

end KVCacheRaft
