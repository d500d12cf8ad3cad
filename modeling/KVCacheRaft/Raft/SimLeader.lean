import KVCacheRaft.Raft.SimAppend

/-!
# The leader simulates the protocol

`Start` extends the leader's log, `doHeartBeat` hands out prefixes of it, and `advanceCommitIndex`
moves `m_commitIndex` only over what a majority has confirmed.
-/

namespace KVCacheRaft
open Consensus

variable {s : Cluster} {a : Abstract} {i : ℕ} {r r' : Raft}

/-- The log of a leader is the log of its term. -/
lemma Sim.leader_full (h : Sim s a) (hs : (s.nodes i).state = .leader) :
    a.full (a.cur i) = a.log i :=
  (h.reachable.inv.own ((h.node i).leader hs) rfl).symm

/-- A leader that appends an entry of its term. -/
lemma NodeStep.extend (h : Sim s a) (hs : (s.nodes i).state = .leader) {e : LogEntry}
    (hterm : e.logterm = a.cur i) (hindex : e.logindex = (a.log i).length + 1)
    (hview : r.view = { (s.nodes i).view with logs := (s.nodes i).logs ++ [e] })
    (hstable : (s.nodes i).stableLogIndex ≤ r.stableLogIndex) (hstate : r.state = .leader) :
    ∃ a', NodeStep s a i r a' := by
  have hn := h.node i
  have hlead := hn.leader hs
  have hmoves := h.reachable.inv.extend_moves hlead hterm
  set a' := (a.extend i e).confirm i ((a.log i).length + 1) with ha'
  have hlog : a'.log i = a.log i ++ [e] := by simp [ha', State.extend, State.confirm]
  have hcommit : r.commitIndex = (s.nodes i).commitIndex := congrArg View.commitIndex hview
  have hvote : r.voteForId = (s.nodes i).voteForId := congrArg View.voteForId hview
  have hmatch : r.matchIndex = (s.nodes i).matchIndex := congrArg View.matchIndex hview
  have hchan : r.applyChan = (s.nodes i).applyChan := congrArg View.applyChan hview
  have hsnap : r.lastSnapshotIndex = (s.nodes i).lastSnapshotIndex :=
    congrArg View.snapshotIndex hview
  have hlogs : r.logs = (s.nodes i).logs ++ [e] := congrArg View.logs hview
  have hsnapT : r.lastSnapshotTerm = (s.nodes i).lastSnapshotTerm :=
    congrArg View.snapshotTerm hview
  refine ⟨a', {
    moves := hmoves
    indexed := fun T => by
      by_cases hT : T = a.cur i
      · subst hT
        have : a'.full (a.cur i) = a.log i ++ [e] := by
          simp [ha', State.extend, State.confirm, h.leader_full hs]
        rw [this]
        exact (h.indexed_log i).concat hindex
      · simpa [ha', State.extend, State.confirm, hT] using h.indexed T
    node := {
      cur := (congrArg View.term hview : r.currentTerm = (s.nodes i).currentTerm).trans hn.cur
      holds := by
        obtain ⟨p, h1, h2, h3⟩ := hn.holds
        rw [hlog]
        exact ⟨p, by rw [h1, hlogs, List.append_assoc], hsnap.trans h2, hsnapT.trans h3⟩
      commit := hn.commit_mono hmoves.extends_ (hlog ▸ List.prefix_append _ _) hcommit
      snapshot_le := by rw [hsnap, hcommit]; exact hn.snapshot_le
      commit_le := by rw [hcommit]; exact hn.commit_le.trans hstable
      fresh := fun hv => hn.fresh (hvote ▸ hv)
      voted := fun c hc => hn.voted c (hvote ▸ hc)
      leader := fun _ => hlead
      acked := fun _ => by
        rw [hlog]
        simp [ha', State.extend, State.confirm]
      candidate := fun hc => by rw [hstate] at hc; cases hc
      matched := fun _ j hj hji => by
        rw [hmatch, hcommit]
        have h1 := hn.matched hs j hj hji
        have h2 : a'.cur i = a.cur i := rfl
        have h3 := hmoves.extends_.ack j (a.cur i)
        rw [h2]
        omega }
    commit_le := hcommit.ge
    candidate := fun hc => by rw [hstate] at hc; cases hc
    follower := fun _ hf => by rw [hs] at hf; cases hf
    ballot := fun hb => .inl hb
    pushed := fun msg hm => .inl (hchan ▸ hm) }⟩

/-- What a majority is known to hold, up to an entry of the current term, is chosen. -/
lemma Sim.chosen (h : Sim s a) (w : s.Wired) (hs : (s.nodes i).state = .leader) (hi : i < s.size)
    {matchIndex : ℕ → ℤ} {index : ℤ} {e : LogEntry}
    (hmatch : ∀ j, j < s.size → j ≠ i →
      matchIndex j ≤ max (a.ack j (a.cur i) : ℤ) (s.nodes i).commitIndex)
    (hlt : (s.nodes i).commitIndex < index)
    (hmaj : { s.nodes i with matchIndex }.replicated index ≥ s.size / 2 + 1)
    (he : (s.nodes i).logAt index = .ok e) (hterm : e.logterm = (s.nodes i).currentTerm) :
    ∃ p, p <+: a.log i ∧ index = p.length ∧ Settled s.size a (a.cur i) p := by
  have hn := h.node i
  obtain ⟨-, q, hq, hidx⟩ := hn.holds.logAt he
  have hlen : index = (q ++ [e]).length := by simpa using hidx
  refine ⟨q ++ [e], hq, hlen, .inr ⟨a.cur i, q ++ [e], le_rfl, ⟨?_, ⟨q, e, rfl, ?_⟩, ?_⟩,
    List.prefix_rfl⟩⟩
  · rw [h.leader_full hs]
    exact hq
  · rw [hterm, hn.cur]
  -- the quorum: the leader and the peers it counted
  set L := (List.range s.size).filter fun peer => peer ≠ i ∧ matchIndex peer ≥ index with hL
  have hcount : { s.nodes i with matchIndex }.replicated index = 1 + L.length := by
    simp only [Raft.replicated, (w.node i).1, (w.node i).2, hL]
  have hnodup : L.Nodup := List.Nodup.filter _ List.nodup_range
  have hmem : ∀ j ∈ L, j < s.size ∧ j ≠ i ∧ matchIndex j ≥ index := by
    intro j hj
    simpa [hL] using hj
  have hni : i ∉ L.toFinset := fun hi => (hmem i (List.mem_toFinset.mp hi)).2.1 rfl
  refine ⟨{j | j ∈ insert i L.toFinset}, ⟨insert i L.toFinset, ?_, fun _ hj => hj, ?_⟩, ?_⟩
  · intro j hj
    rw [Finset.mem_range]
    rcases Finset.mem_insert.mp hj with rfl | hj
    · exact hi
    · exact (hmem j (List.mem_toFinset.mp hj)).1
  · rw [Finset.card_insert_of_notMem hni, List.toFinset_card_of_nodup hnodup]
    omega
  · intro j (hj : j ∈ insert i L.toFinset)
    rcases Finset.mem_insert.mp hj with rfl | hj
    · exact hq.length_le.trans (hn.acked hs)
    · obtain ⟨h1, h2, h3⟩ := hmem j (List.mem_toFinset.mp hj)
      have := hmatch j h1 h2
      omega

namespace Cluster

variable {s' : Cluster}

/-- `Start` is simulated. -/
lemma sim_start (h : Sim s a) {command : Bytes} (hs : s.start i command = some s') :
    ∃ a', Sim s' a' ∧ Extends a a' := by
  obtain ⟨r, e, hr, rfl⟩ := start_cases hs
  obtain ⟨hl, he, rfl⟩ := Raft.start_cases hr
  obtain ⟨a', st⟩ := NodeStep.extend (r := { s.nodes i with
    logs := (s.nodes i).logs ++ [e] }.persistState) h hl (by rw [he]; exact (h.node i).cur)
    (by rw [he]; simp only [(h.node i).holds.getLastLogIndex (h.indexed_log i)]) rfl
    (Int.le_refl _) hl
  exact ⟨a', (h.setNode st).frame, st.moves.extends_⟩

/-- A success callback is simulated. -/
lemma sim_onLogStable (h : Sim s a) {k : ℕ} (hs : s.onLogStable k true = some s') :
    ∃ a', Sim s' a' ∧ Extends a a' := by
  obtain ⟨i, index, -, rfl⟩ := onLogStable_cases hs
  refine ⟨a, (h.setNode (i := i) ?_).frame, Extends.refl a⟩
  rcases (s.nodes i).onLogStable_cases index with hr | ⟨hlt, hr⟩
  · rw [hr]
    exact .touch h rfl (Int.le_refl _) (.inl rfl)
  · rw [hr]
    exact .touch h rfl (Int.le_of_lt hlt) (.inl rfl)

/-- A request of a leader carries a part of its log. -/
lemma HeartBeat.appendSim (h : Sim s a) (hs : (s.nodes i).state = .leader)
    {args : AppendEntriesArgs} (hb : (s.nodes i).HeartBeat args) :
    AppendSim s.size a i args := by
  have hn := h.node i
  have hterm : args.term = a.cur i := hb.term.trans hn.cur
  obtain ⟨-, p, hp, hlen, hpt⟩ := hn.holds.termAt hb.prev
  have hes : p ++ args.entries <+: a.log i := by
    have hdrop : (s.nodes i).logs.drop (args.prevlogindex - (s.nodes i).lastSnapshotIndex).toNat =
        (a.log i).drop p.length := by
      rw [hn.holds.logs_eq, List.drop_drop]
      congr 1
      have := hn.holds.snapshot_nonneg
      have := hb.snapshot_le
      omega
    have := hb.entries
    rw [hdrop] at this
    have hsplit : p ++ (a.log i).drop p.length = a.log i := by
      conv_rhs => rw [← List.take_append_drop p.length (a.log i)]
      rw [← List.prefix_iff_eq_take.mp hp]
    rw [← hsplit]
    exact (List.prefix_append_right_inj p).mpr this
  obtain ⟨v, h1, h2, h3⟩ := hn.commit
  refine ⟨hterm ▸ hn.leader hs, p, v, ?_, hlen, hpt, prefix_of_le h1 hes ?_,
    hb.leadercommit.trans h2, hterm ▸ h3⟩
  · rw [hterm, h.leader_full hs]
    exact hes
  · have h4 := hb.length
    have h5 := hn.commit_le
    simp only [List.length_append]
    omega

/-- A heartbeat is simulated. -/
lemma sim_doHeartBeat (h : Sim s a) (hs : s.doHeartBeat i = some s') :
    ∃ a', Sim s' a' ∧ Extends a a' := by
  obtain ⟨hl, r, requests, snapshots, hr, rfl⟩ := doHeartBeat_cases hs
  obtain ⟨⟨next, rfl⟩, hreq, -⟩ := Raft.heartBeatPeers_cases hr
  have h' := h.setNode (i := i) (r := { s.nodes i with nextIndex := next })
    (.touch h rfl (Int.le_refl _) (.inl rfl))
  refine ⟨a, h'.frame.sent ?_, Extends.refl a⟩
  intro j q hq
  simp only [List.mem_map, Prod.mk.injEq, Prod.exists] at hq
  obtain ⟨j, args, hj, rfl, rfl⟩ := hq
  exact HeartBeat.appendSim h hl (hreq j args hj).2

/-- A reply to an `AppendEntries` is simulated. -/
lemma sim_handleAppendEntries (w : Wired s) (h : Sim s a) {id : ℕ} {c : Call}
    {args : AppendEntriesArgs} {rep : AppendEntriesReply} (hc : s.calls[id]? = some c)
    (hrep : (id, .appendEntries rep) ∈ s.replies) (hreq : c.request = .appendEntries args)
    (hr : (s.nodes c.caller).handleAppendEntries c.callee args rep = .ok r') :
    ∃ a', Sim ((s.completed id c).setNode c.caller r') a' ∧ Extends a a' := by
  have h₁ := h.completed hc
  have hpeers := w.call hc
  set i := c.caller with hi
  have hn := h.node i
  rcases Raft.handleAppendEntries_cases hr with ⟨hgt, rfl⟩ | ⟨next, rfl⟩ | ⟨hterm, hs, hsucc, hadv⟩
  · have st := NodeStep.newTerm (r := (s.nodes i).newTerm rep.term) h₁ (i := i) (T := rep.term)
      (by rw [← hn.cur]; exact hgt) rfl (Int.le_refl _) rfl
    exact ⟨_, h₁.setNode st, st.moves.extends_⟩
  · exact ⟨a, h₁.setNode (.touch h₁ rfl (Int.le_refl _) (.inl rfl)), Extends.refl a⟩
  -- the peer has confirmed the entries of the request
  obtain ⟨c', hc', hsim⟩ := h.reply hrep
  obtain rfl := Option.some.inj (hc.symm.trans hc')
  obtain ⟨hterm', hack⟩ := hsim args hreq hsucc
  have hcur : a.cur i = args.term := by rw [← hn.cur, ← hterm, hterm']
  set index := args.prevlogindex + args.entries.length with hindex
  have hmatch : ∀ j, j < s.size → j ≠ i → ((s.nodes i).matched c.callee index).matchIndex j ≤
      max (a.ack j (a.cur i) : ℤ) (s.nodes i).commitIndex := by
    intro j hj hji
    have hold := hn.matched hs j hj hji
    by_cases hjc : j = c.callee
    · subst hjc
      rw [hcur] at hold ⊢
      simp only [Raft.matched, Function.update_self]
      omega
    · simpa [Raft.matched, hjc] using hold
  refine ⟨a, h₁.setNode ?_, Extends.refl a⟩
  rcases Raft.advanceCommitIndex_cases hadv with rfl | ⟨k, e, rfl, hlt, hk, hmaj, he, het⟩
  · exact NodeStep.keep h₁ rfl (hn.holds.congr rfl rfl rfl) rfl (.inl rfl) rfl hn.commit
      (Int.le_refl _) hn.snapshot_le hn.commit_le fun _ => hmatch
  · refine NodeStep.keep h₁ rfl (hn.holds.congr rfl rfl rfl) rfl (.inl rfl) rfl ?_
      (Int.le_of_lt hlt) (hn.snapshot_le.trans (Int.le_of_lt hlt)) hk fun _ => ?_
    · exact h.chosen w hs hpeers.1 hmatch hlt ((w.node i).2 ▸ hmaj) he het
    · intro j hj hji
      have h1 := hmatch j hj hji
      have h2 : (s.nodes i).commitIndex < k := hlt
      simp only
      omega

end Cluster

end KVCacheRaft
