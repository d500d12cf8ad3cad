import KVCacheRaft.Raft.Heartbeats
import KVCacheRaft.Raft.Refinement

/-!
# The stable index along a run

In every safe run `m_stableLogIndex` of a node stays between its snapshot and its last index, and no
`onLogStable` that is still to come is beyond the log. So a leader can always send what is stable.
-/

namespace KVCacheRaft

namespace Raft

variable {r r' : Raft}

/-- Bounds speak of the log and the indices only. -/
lemma Bounded.congr (h : r.Bounded) (hlogs : r'.logs = r.logs)
    (hsnap : r'.lastSnapshotIndex = r.lastSnapshotIndex) (happlied : r'.lastApplied = r.lastApplied)
    (hcommit : r'.commitIndex = r.commitIndex) (hstable : r'.stableLogIndex = r.stableLogIndex) :
    r'.Bounded where
  index := h.index.congr hlogs hsnap happlied hcommit
  snapshot_nonneg := hsnap ▸ h.snapshot_nonneg
  snapshot_le := by
    rw [hsnap, hstable]
    exact h.snapshot_le
  stable_le := by
    rw [hstable, getLastLogIndex, hlogs, hsnap]
    exact h.stable_le

/-- The stable index stays within the log, which does not get shorter. -/
structure Widens (r r' : Raft) : Prop where
  bounded : r'.Bounded
  last : r.getLastLogIndex ≤ r'.getLastLogIndex

/-- What grows keeps its last index. -/
lemma Grows.widens (h : r.Grows r') : r.Widens r' := ⟨h.bounded, h.last⟩

/-- What leaves log and indices keeps the last index. -/
lemma Bounded.widens (h : r.Bounded) (hlogs : r'.logs = r.logs)
    (hsnap : r'.lastSnapshotIndex = r.lastSnapshotIndex) (happlied : r'.lastApplied = r.lastApplied)
    (hcommit : r'.commitIndex = r.commitIndex) (hstable : r'.stableLogIndex = r.stableLogIndex) :
    r.Widens r' where
  bounded := h.congr hlogs hsnap happlied hcommit hstable
  last := by
    rw [getLastLogIndex, getLastLogIndex, hlogs, hsnap]

/-- A vote keeps the last index. -/
lemma Bounded.handleRequestVoteResponse (h : r.Bounded) (args : RequestVoteArgs)
    (reply : RequestVoteReply) (votedNum : ℕ) :
    r.Widens (r.handleRequestVoteResponse args reply votedNum).1 := by
  obtain ⟨-, heq⟩ | heq | ⟨-, -, -, -, heq | ⟨-, heq⟩⟩ :=
    r.handleRequestVoteResponse_cases args reply votedNum <;>
  · rw [heq]
    exact h.widens rfl rfl rfl rfl rfl

/-- A reply to an `AppendEntries` keeps the last index. -/
lemma Bounded.handleAppendEntries (h : r.Bounded) {server : ℕ} {args : AppendEntriesArgs}
    {reply : AppendEntriesReply} (hs : r.handleAppendEntries server args reply = .ok r') :
    r.Widens r' := by
  obtain ⟨-, rfl⟩ | ⟨next, rfl⟩ | ⟨-, -, -, hadvance⟩ := handleAppendEntries_cases hs
  · exact h.widens rfl rfl rfl rfl rfl
  · exact h.widens rfl rfl rfl rfl rfl
  · have hmatched : r.Widens (r.matched server (args.prevlogindex + args.entries.length)) :=
      h.widens rfl rfl rfl rfl rfl
    have hgrows := hmatched.bounded.advanceCommitIndex hadvance
    exact ⟨hgrows.bounded, Int.le_trans hmatched.last hgrows.last⟩

/-- A reply to a snapshot keeps the last index. -/
lemma Bounded.leaderSendSnapShotHandler (h : r.Bounded) (args : InstallSnapshotRequest)
    (reply : InstallSnapshotResponse) (i : ℕ) :
    r.Widens (r.leaderSendSnapShotHandler args reply i) := by
  obtain heq | ⟨-, heq⟩ | ⟨-, -, heq⟩ := r.leaderSendSnapShotHandler_cases args reply i <;>
  · rw [heq]
    exact h.widens rfl rfl rfl rfl rfl

end Raft

namespace Cluster

variable {s t : Cluster} {i : ℕ}

/-- The stable indices lie within the logs, as do the entries whose callbacks are to come. -/
structure Bounds (s : Cluster) : Prop where
  node : ∀ i, (s.nodes i).Bounded
  callback : ∀ {i index}, (i, index) ∈ s.callbacks → index ≤ (s.nodes i).getLastLogIndex

/-- A step of one node keeps the bounds of all. -/
lemma Bounds.setNode (h : s.Bounds) {r : Raft} (hnodes : t.nodes = Function.update s.nodes i r)
    (hr : (s.nodes i).Widens r) (hcallback : ∀ {k index}, (k, index) ∈ t.callbacks →
      (k, index) ∈ s.callbacks ∨ k = i ∧ index ≤ r.getLastLogIndex) : t.Bounds where
  node k := by
    rw [hnodes]
    by_cases hk : k = i
    · rw [hk, Function.update_self]
      exact hr.bounded
    · rw [Function.update_of_ne hk]
      exact h.node k
  callback {k index} hmem := by
    rw [hnodes]
    by_cases hk : k = i
    · subst hk
      rw [Function.update_self]
      obtain hold | ⟨-, hle⟩ := hcallback hmem
      · exact Int.le_trans (h.callback hold) hr.last
      · exact hle
    · rw [Function.update_of_ne hk]
      obtain hold | ⟨heq, -⟩ := hcallback hmem
      · exact h.callback hold
      · exact absurd heq hk

/-- Messages keep the bounds. -/
lemma Bounds.messages (h : s.Bounds) (hnodes : t.nodes = s.nodes)
    (hcallbacks : t.callbacks = s.callbacks) : t.Bounds where
  node k := by
    rw [hnodes]
    exact h.node k
  callback hmem := by
    rw [hnodes]
    exact h.callback (hcallbacks ▸ hmem)

/-- A fresh cluster is within its bounds. -/
lemma bounds_initial (n : ℕ) : (initial n).Bounds where
  node i := ⟨Raft.indexInv_init i n, Int.le_refl _, Int.le_refl _, Int.le_refl _⟩
  callback hmem := by cases hmem

/-- A step without a failure keeps the bounds. -/
lemma Bounds.step (h : s.Bounds) {a : Action} (ha : a.FailureFree) (hs : s.step a = some t) :
    t.Bounds := by
  cases a with
  | doElection i =>
    simp only [Cluster.step] at hs
    split_ifs at hs
    obtain ⟨-, r, requests, hr, rfl⟩ := doElection_cases hs
    exact h.setNode rfl ((h.node i).doElection hr).widens .inl
  | persistElection i =>
    simp only [Cluster.step] at hs
    split_ifs at hs
    cases hs
    exact h.setNode rfl ((h.node i).refl.persistState).widens .inl
  | deliver id =>
    obtain ⟨c, -, hd⟩ := deliver_cases hs
    cases hd with
    | requestVote _ => exact h.setNode rfl ((h.node _).requestVote _).widens .inl
    | installSnapshot _ hr => exact h.setNode rfl ((h.node _).installSnapshot hr).widens .inl
    | replied _ hr => exact h.setNode rfl ((h.node _).appendEntries hr).widens .inl
    | unlocked _ hr => exact h.setNode rfl ((h.node _).appendEntries hr).widens .inl
  | resume k stable =>
    obtain ⟨w, r, rep, -, hr, rfl⟩ := resume_cases hs
    exact h.setNode rfl ((h.node _).appendEntriesStable hr).widens .inl
  | complete k =>
    obtain ⟨id, rep, c, -, -, -, hd⟩ := complete_cases hs
    cases hd with
    | requestVote _ =>
      exact h.setNode rfl ((h.node c.caller).handleRequestVoteResponse _ _ _) .inl
    | appendEntries _ hr => exact h.setNode rfl ((h.node c.caller).handleAppendEntries hr) .inl
    | installSnapshot _ =>
      exact h.setNode rfl ((h.node c.caller).leaderSendSnapShotHandler _ _ _) .inl
  | fail id =>
    obtain ⟨c, -, rfl⟩ := fail_cases hs
    exact h.messages rfl rfl
  | start i command =>
    simp only [Cluster.step] at hs
    split_ifs at hs
    obtain ⟨r, e, hr, rfl⟩ := start_cases hs
    obtain ⟨hgrows, hindex⟩ := (h.node i).start hr
    refine h.setNode rfl hgrows.widens fun hmem => ?_
    obtain hold | hnew := List.mem_append.mp hmem
    · exact .inl hold
    · obtain ⟨rfl, rfl⟩ := Prod.mk.inj (List.mem_singleton.mp hnew)
      exact .inr ⟨rfl, Int.le_of_eq hindex⟩
  | onLogStable k ok =>
    obtain ⟨i, index, hk, rfl⟩ := onLogStable_cases hs
    obtain rfl : ok = true := ha
    have hle := h.callback (List.mem_of_getElem? hk)
    exact h.setNode rfl ((h.node i).onLogStable hle).widens fun hmem =>
      .inl (List.mem_of_mem_eraseIdx hmem)
  | doHeartBeat i =>
    simp only [Cluster.step] at hs
    split_ifs at hs
    obtain ⟨-, r, requests, snapshots, hr, rfl⟩ := doHeartBeat_cases hs
    obtain ⟨rfl, -⟩ := Raft.heartBeatPeers_requests hr
    exact h.setNode rfl (h.node i).refl.widens .inl
  | leaderSendSnapShot k =>
    obtain ⟨i, peer, -, rfl⟩ := leaderSendSnapShot_cases hs
    exact h.messages rfl rfl
  | applierTicker i =>
    simp only [Cluster.step] at hs
    split_ifs at hs
    obtain ⟨r, logs, hr, rfl⟩ := applierTicker_cases hs
    exact h.setNode rfl ((h.node i).applierTicker hr).widens .inl
  | push i =>
    obtain ⟨msg, rest, -, rfl⟩ := push_cases hs
    exact h.setNode rfl ((h.node i).widens rfl rfl rfl rfl rfl) .inl
  | snapshot i index data =>
    simp only [Cluster.step] at hs
    split_ifs at hs
    obtain ⟨r, hr, rfl⟩ := snapshot_cases hs
    exact h.setNode rfl ((h.node i).snapshot hr).widens .inl
  | restart i logs => exact ha.elim

/-- In every safe run the bounds hold. -/
lemma bounds_run (h : s.Bounds) (hr : Run Safe s t) : t.Bounds := by
  induction hr with
  | refl => exact h
  | step _ hsafe hs ih => exact ih.step hsafe.1 hs

end Cluster

end KVCacheRaft
