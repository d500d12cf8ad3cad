import KVCacheRaft.Raft.SimLeader

/-!
# Snapshots and the apply loop simulate the protocol

`Snapshot` moves the border between the snapshot and `m_logs`, `applierTicker` copies settled entries,
and `InstallSnapshot` installs a settled prefix. It keeps the entries behind the snapshot without
looking at the entry at its index, which is harmless only if that entry is of the snapshot's term.
-/

namespace KVCacheRaft
open Consensus

variable {s : Cluster} {a : Abstract} {i : ℕ} {r r' : Raft}

/-- The condition under which `InstallSnapshot` may keep what lies behind the snapshot. -/
def Raft.KeepsMatching (r : Raft) (args : InstallSnapshotRequest) : Prop :=
  r.currentTerm ≤ args.term → r.lastSnapshotIndex < args.lastsnapshotincludeindex →
    args.lastsnapshotincludeindex < r.getLastLogIndex →
    r.termAt args.lastsnapshotincludeindex = .ok args.lastsnapshotincludeterm

/-- A follower that installs a settled prefix in place of a log that is no longer. -/
lemma NodeStep.install (h : Sim s a) {p : List LogEntry}
    (hp : Committed (majority s.size) LogEntry.logterm a (a.cur i) p)
    (hlen : (a.log i).length ≤ p.length)
    (hcur : r.currentTerm = (s.nodes i).currentTerm) (hholds : r.Holds p)
    (hvote : r.voteForId = (s.nodes i).voteForId) (hstate : r.state = .follower)
    (hchan : r.applyChan = (s.nodes i).applyChan) (hcommit : r.commitIndex = p.length)
    (hstable : r.commitIndex ≤ r.stableLogIndex) :
    NodeStep s a i r (a.setLog i p) := by
  have hn := h.node i
  have hmoves := h.reachable.inv.install_moves hp hlen
  have hlog : (a.setLog i p).log i = p := by simp [State.setLog]
  exact {
    moves := hmoves
    indexed := h.indexed
    node := {
      cur := hcur.trans hn.cur
      holds := hlog.symm ▸ hholds
      commit := ⟨p, by rw [hlog], hcommit,
        .inr (hp.mono hmoves.extends_ le_rfl List.prefix_rfl)⟩
      snapshot_le := hcommit.symm ▸ hholds.snapshot_le
      commit_le := hstable
      fresh := fun hv => hn.fresh (hvote ▸ hv)
      voted := fun c hc => hn.voted c (hvote ▸ hc)
      leader := fun hs => by rw [hstate] at hs; cases hs
      acked := fun hs => by rw [hstate] at hs; cases hs
      candidate := fun hs => by rw [hstate] at hs; cases hs
      matched := fun hs => by rw [hstate] at hs; cases hs }
    commit_le := by
      obtain ⟨v, h1, h2, -⟩ := hn.commit
      have := h1.length_le
      omega
    candidate := fun hs => by rw [hstate] at hs; cases hs
    follower := fun _ _ => hstate
    ballot := fun hb => .inl hb
    pushed := fun msg hm => .inl (hchan ▸ hm) }

namespace Cluster

variable {s' : Cluster}

/-- Sending a snapshot is simulated. -/
lemma sim_leaderSendSnapShot (h : Sim s a) {k : ℕ} (hs : s.leaderSendSnapShot k = some s') :
    ∃ a', Sim s' a' ∧ Extends a a' := by
  obtain ⟨i, peer, hk, rfl⟩ := leaderSendSnapShot_cases hs
  have hn := h.node i
  refine ⟨a, h.frame.sent ?_, Extends.refl a⟩
  intro j q hq
  simp only [List.mem_singleton, Prod.mk.injEq] at hq
  obtain ⟨rfl, rfl⟩ := hq
  obtain ⟨p, h1, h2, h3⟩ := hn.holds
  obtain ⟨v, h4, h5, h6⟩ := hn.commit
  have hle := hn.snapshot_le
  have hpv : p <+: v := prefix_of_le (h1 ▸ List.prefix_append _ _) h4 (by omega)
  exact ⟨⟨p, h2, h3, h6.mono (Extends.refl a) hn.cur.ge hpv⟩, hle⟩

/-- The reply to a snapshot is simulated. -/
lemma sim_leaderSendSnapShotHandler (h : Sim s a) {id : ℕ} {c : Call}
    {args : InstallSnapshotRequest} {rep : InstallSnapshotResponse} (hc : s.calls[id]? = some c)
    (hreq : c.request = .installSnapshot args) :
    ∃ a', Sim ((s.completed id c).setNode c.caller
      ((s.nodes c.caller).leaderSendSnapShotHandler args rep c.callee)) a' ∧ Extends a a' := by
  have h₁ := h.completed hc
  have hcall := h.call hc
  rw [CallSim, hreq] at hcall
  set i := c.caller with hi
  have hn := h.node i
  rcases (s.nodes i).leaderSendSnapShotHandler_cases args rep c.callee with
    hr | ⟨hgt, hr⟩ | ⟨hs, -, hr⟩
  · rw [hr]
    exact ⟨a, h₁.setNode (.touch h₁ rfl (Int.le_refl _) (.inl rfl)), Extends.refl a⟩
  · have st := NodeStep.newTerm (r := ((s.nodes i).newTerm rep.term).persistState) h₁ (i := i)
      (T := rep.term) (by rw [← hn.cur]; exact hgt) rfl (Int.le_refl _) rfl
    rw [hr]
    exact ⟨_, h₁.setNode st, st.moves.extends_⟩
  · rw [hr]
    refine ⟨a, h₁.setNode (.keep h₁ rfl (hn.holds.congr rfl rfl rfl) rfl (.inl rfl) rfl hn.commit
      (Int.le_refl _) hn.snapshot_le hn.commit_le fun _ j hj hji => ?_), Extends.refl a⟩
    by_cases hjc : j = c.callee
    · subst hjc
      simp only [Function.update_self]
      exact le_max_of_le_right hcall.2
    · simpa [Function.update_of_ne hjc] using hn.matched hs j hj hji

/-- `applierTicker` is simulated. -/
lemma sim_applierTicker (h : Sim s a) (hs : s.applierTicker i = some s') :
    ∃ a', Sim s' a' ∧ Extends a a' := by
  obtain ⟨r, logs, hr, rfl⟩ := applierTicker_cases hs
  obtain ⟨rfl, hcopy⟩ := Raft.applierTicker_cases hr
  have hn := h.node i
  have h' := h.setNode (i := i) (r := { s.nodes i with lastApplied := (s.nodes i).commitIndex })
    (.touch h rfl (Int.le_refl _) (.inl rfl))
  refine ⟨a, h'.messages rfl rfl (fun hk => ⟨_, hk, Call.Later.refl _⟩)
    (fun hk => .inl ⟨_, hk, Call.Later.refl _⟩) (fun hr => .inl hr) (fun hw => .inl hw) ?_,
    Extends.refl a⟩
  intro j msg hm
  by_cases hj : j = i
  · subst hj
    simp only [Function.update_self] at hm
    obtain ⟨e, h1, h2, h3, h4⟩ := Raft.copyLogs_mem hcopy hm
    obtain ⟨-, q, hq, hidx⟩ := hn.holds.logAt h1
    obtain ⟨v, h5, h6, h7⟩ := hn.commit
    have hqv : q ++ [e] <+: v := prefix_of_le hq h5 (by
      simp only [List.length_append, List.length_singleton]
      omega)
    exact .inr ⟨q, e, h7.mono (Extends.refl a) le_rfl hqv, hidx, h2⟩
  · simp only [Function.update_of_ne hj] at hm
    exact .inl hm

/-- Pushing a message is simulated. -/
lemma sim_push (h : Sim s a) (hs : s.push i = some s') : ∃ a', Sim s' a' ∧ Extends a a' := by
  obtain ⟨msg, rest, hi, rfl⟩ := push_cases hs
  have hmsg := h.copied i msg (by rw [hi]; simp)
  have st := NodeStep.push (m := msg)
    (NodeStep.touch (r := s.nodes i) h rfl (Int.le_refl _) (.inl rfl)) fun _ => hmsg
  refine ⟨a, (h.setNode st).messages rfl rfl (fun hk => ⟨_, hk, Call.Later.refl _⟩)
    (fun hk => .inl ⟨_, hk, Call.Later.refl _⟩) (fun hr => .inl hr) (fun hw => .inl hw) ?_,
    Extends.refl a⟩
  intro j m hm
  left
  by_cases hj : j = i
  · subst hj
    simp only [Function.update_self] at hm
    change m ∈ s.copied j
    rw [hi]
    exact List.mem_cons_of_mem _ hm
  · simp only [Function.update_of_ne hj] at hm
    exact hm

/-- `Snapshot` is simulated. -/
lemma sim_snapshot (h : Sim s a) {index : ℤ} {data : Bytes}
    (hs : s.snapshot i index data = some s') : ∃ a', Sim s' a' ∧ Extends a a' := by
  obtain ⟨r, hr, rfl⟩ := snapshot_cases hs
  have hn := h.node i
  rcases Raft.snapshot_cases hr with rfl | ⟨hlt, hle, e, he, rfl⟩
  · exact ⟨a, h.setNode (.touch h rfl (Int.le_refl _) (.inl rfl)), Extends.refl a⟩
  obtain ⟨-, q, hq, hidx⟩ := hn.holds.logAt he
  obtain ⟨v, h1, h2, h3⟩ := hn.commit
  have hmax : max (s.nodes i).commitIndex index = (s.nodes i).commitIndex := max_eq_left hle
  have hstable := hn.commit_le
  refine ⟨a, h.setNode (.keep h rfl ?_ rfl (.inl rfl) rfl ⟨v, h1, hmax.trans h2, h3⟩ hmax.ge
    (hle.trans hmax.ge) ?_ ?_), Extends.refl a⟩
  · -- the border moves: the entries above `index` stay
    refine ⟨q ++ [e], ?_, by simp [Raft.persistState, hidx], by simp [Raft.persistState]⟩
    have hlast := hn.holds.getLastLogIndex (h.indexed_log i)
    have hsnap := hn.holds.snapshot_nonneg
    have hlen := hq.length_le
    simp only [List.length_append, List.length_singleton] at hlen
    have hdrop : (s.nodes i).logs.drop (index - (s.nodes i).lastSnapshotIndex).toNat =
        (a.log i).drop (q ++ [e]).length := by
      rw [hn.holds.logs_eq, List.drop_drop]
      congr 1
      simp only [List.length_append, List.length_singleton]
      omega
    have htake : ((a.log i).drop (q ++ [e]).length).take
        ((s.nodes i).getLastLogIndex - index).toNat = (a.log i).drop (q ++ [e]).length := by
      refine List.take_of_length_le ?_
      simp only [List.length_drop, List.length_append, List.length_singleton, hlast]
      omega
    simp only [Raft.persistState, hdrop, htake]
    conv_lhs => rw [← List.take_append_drop (q ++ [e]).length (a.log i)]
    rw [← List.prefix_iff_eq_take.mp hq]
  · simp only [Raft.persistState]
    omega
  · intro hs j hj hji
    have := hn.matched hs j hj hji
    simp only [Raft.persistState]
    omega

/-- `InstallSnapshot` is simulated. -/
lemma sim_installSnapshot (h : Sim s a) {id : ℕ} {c : Call} {args : InstallSnapshotRequest}
    {rep : InstallSnapshotResponse} (hc : s.calls[id]? = some c)
    (hreq : c.request = .installSnapshot args) (hgood : (s.nodes c.callee).KeepsMatching args)
    (hr : (s.nodes c.callee).installSnapshot args = .ok (r', rep)) :
    ∃ a', Sim ((s.setNode c.callee r').reply id (.installSnapshot rep)) a' ∧ Extends a a' := by
  set i := c.callee with hi
  suffices hstep : ∃ a', Sim (s.setNode i r') a' ∧ Extends a a' by
    obtain ⟨a', h', g⟩ := hstep
    exact ⟨a', h'.replied hc trivial, g⟩
  have hfollow : (s.nodes i).currentTerm ≤ args.term → ∃ a',
      Sim (s.setNode i ((s.nodes i).follow args.term)) a' ∧ Extends a a' ∧
        a'.cur i = args.term := by
    intro hle
    refine sim_acceptTerm h hle ?_ rfl ?_
    · unfold Raft.follow Raft.catchUp Raft.acceptTerm
      split_ifs <;> rfl
    · unfold Raft.follow Raft.catchUp
      split_ifs <;> rfl
  rcases Raft.installSnapshot_cases hr with ⟨-, rfl⟩ | ⟨hle, rfl⟩ | ⟨hle, hlt, rfl⟩
  · exact ⟨a, h.setNode (.touch h rfl (Int.le_refl _) (.inl rfl)), Extends.refl a⟩
  · obtain ⟨a', h', g, -⟩ := hfollow hle
    exact ⟨a', h', g⟩
  -- first the term, then the snapshot
  obtain ⟨a₁, h₁, g₁, hcur⟩ := hfollow hle
  have hgood := hgood hle hlt
  have hcall := h₁.call hc
  rw [CallSim, hreq] at hcall
  obtain ⟨⟨p, h2, h3, h4⟩, -⟩ := hcall
  have hn := h₁.node i
  rw [setNode_self] at hn
  have hsame : ((s.nodes i).follow args.term).lastSnapshotIndex = (s.nodes i).lastSnapshotIndex ∧
      ((s.nodes i).follow args.term).lastSnapshotTerm = (s.nodes i).lastSnapshotTerm ∧
      ((s.nodes i).follow args.term).logs = (s.nodes i).logs := by
    unfold Raft.follow Raft.catchUp
    split_ifs <;> exact ⟨rfl, rfl, rfl⟩
  set r := (s.nodes i).follow args.term with hrdef
  have hstate : r.state = .follower := rfl
  have hpos : 0 < args.lastsnapshotincludeindex := by
    have := hn.holds.snapshot_nonneg
    omega
  have hcom : Committed (majority s.size) LogEntry.logterm a₁ (a₁.cur i) p := by
    rcases h4 with rfl | h4
    · simp at h2
      omega
    · exact hcur ▸ h4
  have hinv := h₁.reachable.inv
  have hlast := hn.holds.getLastLogIndex (h₁.indexed_log i)
  obtain ⟨v, h5, h6, h7⟩ := hn.commit
  have hvlen := h5.length_le
  have hstable := hn.commit_le
  by_cases hbeyond : args.lastsnapshotincludeindex < r.getLastLogIndex
  · -- the entry at the snapshot's index is the snapshot's own, so what lies behind it is the log
    have hterm : r.termAt p.length = .ok (lastTerm LogEntry.logterm p) := by
      rw [← h2, ← h3]
      have : (s.nodes i).getLastLogIndex = r.getLastLogIndex := by
        simp only [Raft.getLastLogIndex, hsame]
      have hat := hgood (this ▸ hbeyond)
      rw [← hat]
      simp only [Raft.termAt, Raft.logAt, hsame]
    have hroot : Rooted LogEntry.logterm a₁ p := by
      obtain ⟨T, w, -, hw, hpw⟩ := hcom
      exact (hinv.rooted_full T).of_isPrefix (hpw.trans hw.1)
    obtain ⟨hpl, hsp⟩ := prefix_of_termAt (hinv.rooted_log i) hroot hn.holds hterm
    have hholds : (r.installed args).persistState.Holds (a₁.log i) := by
      refine ⟨p, ?_, h2, h3⟩
      have hdrop : r.logs.drop (args.lastsnapshotincludeindex - r.lastSnapshotIndex).toNat =
          (a₁.log i).drop p.length := by
        have hnn := hn.holds.snapshot_nonneg
        rw [hn.holds.logs_eq, List.drop_drop]
        congr 1
        omega
      simp only [Raft.persistState, Raft.installed, Raft.keptLogs, if_pos hbeyond, hdrop]
      conv_lhs => rw [← List.take_append_drop p.length (a₁.log i)]
      rw [← List.prefix_iff_eq_take.mp hpl]
    have st := NodeStep.push (m := Raft.snapshotMsg args)
      (NodeStep.keep (r := (r.installed args).persistState) h₁
      (by rw [setNode_self]; rfl) hholds (by rw [setNode_self]; rfl) (.inr hstate)
      (by rw [setNode_self]; rfl)
      (by
        rcases le_total r.commitIndex args.lastsnapshotincludeindex with hc | hc
        · exact ⟨p, hpl, by simp only [Raft.persistState, Raft.installed]; omega, .inr hcom⟩
        · exact ⟨v, h5, by simp only [Raft.persistState, Raft.installed]; omega, h7⟩)
      (by rw [setNode_self]; exact le_max_left _ _) (le_max_right _ _)
      (by simp only [Raft.persistState, Raft.installed]; omega)
      (fun hs => by
        have : r.state = .leader := hs
        rw [hstate] at this
        cases this)) fun hv => by cases hv
    have h' := h₁.setNode st
    rw [setNode_setNode] at h'
    exact ⟨_, h', g₁.trans st.moves.extends_⟩
  · have hholds : (r.installed args).persistState.Holds p :=
      ⟨p, by simp [Raft.persistState, Raft.installed, Raft.keptLogs, hbeyond], h2, h3⟩
    have hmax : max r.commitIndex args.lastsnapshotincludeindex = p.length := by omega
    have st := NodeStep.push (m := Raft.snapshotMsg args)
      (NodeStep.install (r := (r.installed args).persistState) h₁ hcom (by omega)
      (by rw [setNode_self]; rfl) hholds (by rw [setNode_self]; rfl) hstate
      (by rw [setNode_self]; rfl) hmax (by simp only [Raft.persistState, Raft.installed]; omega))
      fun hv => by cases hv
    have h' := h₁.setNode st
    rw [setNode_setNode] at h'
    exact ⟨_, h', g₁.trans st.moves.extends_⟩

end Cluster

end KVCacheRaft
