import KVCacheRaft.Wal.Saves

/-!
# The calls of a node and its snapshot

A call to the node takes or installs a snapshot, or keeps the one that is there. Between the calls the
mapped file holds the snapshot, with a commit index that covers it.
-/

namespace KVCacheRaft

/-! ### The calls of a node -/

/-- A call to the node, with what it is given: what it does while it holds `m_mtx`. The `persistState`
of `doElection` comes after that. -/
inductive NodeCall where
  | doElection
  | requestVote (request : RequestVoteArgs)
  | handleRequestVoteResponse (args : RequestVoteArgs) (reply : RequestVoteReply) (votedNum : ℕ)
  | start (command : Bytes)
  | onLogStable (ok : Bool) (logIndex : ℤ)
  | doHeartBeat
  | appendEntries (request : AppendEntriesArgs)
  | appendEntriesStable (request : AppendEntriesArgs) (pending : List PendingLogWrite)
    (stable : Bool)
  | handleAppendEntries (server : ℕ) (args : AppendEntriesArgs) (reply : AppendEntriesReply)
  | installSnapshot (args : InstallSnapshotRequest)
  | leaderSendSnapShotHandler (args : InstallSnapshotRequest) (reply : InstallSnapshotResponse)
    (i : ℕ)
  | snapshot (index : ℤ) (data : Bytes)
  | applierTicker
  | push (msg : ApplyMsg)

namespace NodeCall

/-- The node after the call; none when the call is not possible or ends the process. -/
def run (r : Raft) : NodeCall → Option Raft
  | .doElection => r.doElection.map (·.1)
  | .requestVote request => some (r.requestVote request).1
  | .handleRequestVoteResponse args reply votedNum =>
    some (r.handleRequestVoteResponse args reply votedNum).1
  | .start command => (r.start command).toOption.join.map (·.1)
  | .onLogStable ok logIndex => some (r.onLogStable ok logIndex)
  | .doHeartBeat => (r.heartBeatPeers r.others).toOption.map (·.1)
  | .appendEntries request => (r.appendEntries request).toOption.map (·.1)
  | .appendEntriesStable request pending stable =>
    (r.appendEntriesStable request pending stable).toOption.map (·.1)
  | .handleAppendEntries server args reply => (r.handleAppendEntries server args reply).toOption
  | .installSnapshot args => (r.installSnapshot args).toOption.map (·.1)
  | .leaderSendSnapShotHandler args reply i => some (r.leaderSendSnapShotHandler args reply i)
  | .snapshot index data => (r.snapshot index data).toOption
  | .applierTicker => r.applierTicker.toOption.map (·.1)
  | .push msg => some (r.push msg)

/-- The term with which a request overtakes the node, before the call does anything else. -/
def newTerm (r : Raft) : NodeCall → Option ℕ
  | .requestVote request => if request.term > r.currentTerm then some request.term else none
  | .installSnapshot args => if args.term > r.currentTerm then some args.term else none
  | _ => none

/-- The snapshot that the call takes or installs. -/
def taken (r : Raft) : NodeCall → Option (ℤ × ℕ)
  | .snapshot index data =>
    if (SnapshotCall.snapshot index data).Accepted r then
      (r.logAt index).toOption.map fun entry => (index, entry.logterm)
    else none
  | .installSnapshot args =>
    if (SnapshotCall.installSnapshot args).Accepted r then
      some (args.lastsnapshotincludeindex, args.lastsnapshotincludeterm)
    else none
  | _ => none

end NodeCall

/-! ### The snapshot between the calls -/

namespace Raft

variable {r r' : Raft}

/-- The index and the term of the last snapshot. -/
def lastSnapshot (r : Raft) : ℤ × ℕ := (r.lastSnapshotIndex, r.lastSnapshotTerm)

/-- The entries are at their places, the snapshot is committed, and the file holds the snapshot with a
commit index that covers it. -/
structure Sound (r : Raft) : Prop where
  aligned : Aligned r.lastSnapshotIndex r.logs
  nonneg : 0 ≤ r.lastSnapshotIndex
  snapshot_le : r.lastSnapshotIndex ≤ r.commitIndex
  stored_le : r.lastSnapshotIndex ≤ r.fmp.commit_index
  stored_index : r.fmp.snapshot_index = r.lastSnapshotIndex
  stored_term : r.fmp.snapshot_term = r.lastSnapshotTerm

/-- A node that stores its state is sound. -/
lemma sound_persistState (haligned : Aligned r.lastSnapshotIndex r.logs)
    (hnonneg : 0 ≤ r.lastSnapshotIndex) (hle : r.lastSnapshotIndex ≤ r.commitIndex) :
    r.persistState.Sound :=
  ⟨haligned, hnonneg, hle, hle, rfl, rfl⟩

namespace Sound

/-- Storing the state keeps a node sound. -/
lemma persistState (h : r.Sound) : r.persistState.Sound :=
  sound_persistState h.aligned h.nonneg h.snapshot_le

/-- What the other fields are is no matter, and the commit index may go up. -/
lemma congr (h : r.Sound) (hlogs : r'.logs = r.logs) (hsnapshot : r'.lastSnapshot = r.lastSnapshot)
    (hcommit : r.commitIndex ≤ r'.commitIndex) (hfmp : r'.fmp = r.fmp) : r'.Sound := by
  obtain ⟨hindex, hterm⟩ := Prod.mk.inj hsnapshot
  refine ⟨?_, ?_, ?_, ?_, ?_, ?_⟩
  · rw [hindex, hlogs]
    exact h.aligned
  · rw [hindex]
    exact h.nonneg
  · rw [hindex]
    exact Int.le_trans h.snapshot_le hcommit
  · rw [hindex, hfmp]
    exact h.stored_le
  · rw [hindex, hfmp]
    exact h.stored_index
  · rw [hterm, hfmp]
    exact h.stored_term

/-- A newer term keeps a node sound. -/
lemma newTerm (h : r.Sound) (term : ℕ) : (r.newTerm term).persistState.Sound :=
  persistState (h.congr rfl rfl (Int.le_refl _) rfl)

/-- Catching up with a term keeps a node sound, and its snapshot. -/
lemma catchUp (h : r.Sound) (term : ℕ) :
    (r.catchUp term).Sound ∧ (r.catchUp term).lastSnapshot = r.lastSnapshot := by
  rw [Raft.catchUp]
  split_ifs
  · exact ⟨h.newTerm term, rfl⟩
  · exact ⟨h, rfl⟩

/-- The last index of a sound node counts its entries. -/
lemma last_eq (h : r.Sound) : r.getLastLogIndex = r.lastSnapshotIndex + r.logs.length :=
  getLastLogIndex_of_aligned h.aligned

/-- `onLogStable` cuts the log, or saves. -/
lemma onLogStable (h : r.Sound) (ok : Bool) (logIndex : ℤ) :
    (r.onLogStable ok logIndex).Sound ∧ (r.onLogStable ok logIndex).lastSnapshot = r.lastSnapshot := by
  unfold Raft.onLogStable
  simp only
  split_ifs
  · exact ⟨⟨h.aligned.take _, h.nonneg, h.snapshot_le, h.stored_le, h.stored_index, h.stored_term⟩, rfl⟩
  · exact ⟨h, rfl⟩
  · exact ⟨h, rfl⟩
  · exact ⟨persistState (h.congr rfl rfl (Int.le_refl _) rfl), rfl⟩
  · exact ⟨h, rfl⟩

/-- Applying entries keeps a node sound, and its snapshot. -/
lemma applyEntries (h : r.Sound) {request : AppendEntriesArgs} {pending : List PendingLogWrite}
    {reply : AppendEntriesReply} (hcheck : r.checkPending r.getLastLogIndex pending = none)
    (hr : r.applyEntries request pending = .ok (r', reply)) :
    r'.Sound ∧ r'.lastSnapshot = r.lastSnapshot := by
  rw [h.last_eq] at hcheck
  obtain ⟨-, haligned, -⟩ := foldl_applyPending h.aligned h.aligned le_rfl hcheck
  obtain ⟨logs, last, rfl, rfl, rfl, -, -⟩ := applyEntries_cases hr
  refine ⟨sound_persistState haligned h.nonneg ?_, rfl⟩
  -- the log does not end in front of the snapshot
  have hlast : { r with logs := pending.foldl r.applyPending r.logs }.getLastLogIndex =
      r.lastSnapshotIndex + (pending.foldl r.applyPending r.logs).length :=
    getLastLogIndex_of_aligned haligned
  have hle := h.snapshot_le
  show r.lastSnapshotIndex ≤ if _ then _ else _
  rw [hlast]
  split_ifs
  · exact Int.le_min.mpr ⟨by omega, by omega⟩
  · exact hle

/-- Taking over a newer snapshot keeps a node sound. -/
lemma installed (h : r.Sound) {args : InstallSnapshotRequest}
    (hlt : r.lastSnapshotIndex < args.lastsnapshotincludeindex) : (r.installed args).persistState.Sound := by
  have hnonneg := h.nonneg
  have hlast := h.last_eq
  refine sound_persistState ?_ (by show 0 ≤ args.lastsnapshotincludeindex; omega) (Int.le_max_right _ _)
  exact aligned_keptLogs h.aligned hlt.le

end Sound

end Raft

/-! ### What a call does to the snapshot -/

namespace NodeCall

open Raft

variable {r r' : Raft} {c : NodeCall}

/-- `Snapshot` keeps a node sound and takes the snapshot it says. -/
lemma run_snapshot (h : r.Sound) {index : ℤ} {data : Bytes} (hr : r.snapshot index data = .ok r') :
    r'.Sound ∧ (r'.lastSnapshot = r.lastSnapshot ∧ (NodeCall.snapshot index data).taken r = none ∨
      (NodeCall.snapshot index data).taken r = some r'.lastSnapshot) := by
  by_cases haccepted : (SnapshotCall.snapshot index data).Accepted r
  · have hbounds : r.lastSnapshotIndex < index ∧ index ≤ r.commitIndex ∧
        r.getLastLogIndex < intMax := haccepted
    obtain ⟨hlt, hle, -⟩ := hbounds
    have hnonneg := h.nonneg
    obtain rfl | ⟨-, -, e, he, rfl⟩ := snapshot_cases hr
    · -- a snapshot that is taken moves the index
      rw [Raft.snapshot, if_neg (by omega)] at hr
      obtain ⟨e, -, hr⟩ := bind_eq_ok.mp hr
      obtain ⟨logs, -, hr⟩ := bind_eq_ok.mp hr
      split_ifs at hr
      have hindex : index = r'.lastSnapshotIndex :=
        congrArg Raft.lastSnapshotIndex (pure_eq_ok.mp hr)
      omega
    · refine ⟨sound_persistState ?_ (by show 0 ≤ index; omega) (Int.le_max_right _ _), .inr ?_⟩
      · exact (h.aligned.behind hlt.le).take _
      · rw [taken, if_pos haccepted, he]
        rfl
  · obtain rfl | ⟨hlt, hle, -⟩ := snapshot_cases hr
    · exact ⟨h, .inl ⟨rfl, if_neg haccepted⟩⟩
    · exact absurd ⟨hlt, hle, snapshot_last_lt hr hlt hle⟩ haccepted

/-- `InstallSnapshot` keeps a node sound and takes the snapshot it says. -/
lemma run_installSnapshot (h : r.Sound) {args : InstallSnapshotRequest}
    {reply : InstallSnapshotResponse} (hr : r.installSnapshot args = .ok (r', reply)) :
    r'.Sound ∧ (r'.lastSnapshot = r.lastSnapshot ∧ (NodeCall.installSnapshot args).taken r = none ∨
      (NodeCall.installSnapshot args).taken r = some r'.lastSnapshot) := by
  obtain ⟨hcatchUp, hsame⟩ := h.catchUp args.term
  have hfollow : (r.follow args.term).Sound := hcatchUp.congr rfl rfl (Int.le_refl _) rfl
  have hfollowed : (r.follow args.term).lastSnapshot = r.lastSnapshot := hsame
  obtain ⟨hindex, -⟩ := Prod.mk.inj hfollowed
  by_cases haccepted : (SnapshotCall.installSnapshot args).Accepted r
  · have hbounds :
        r.currentTerm ≤ args.term ∧ r.lastSnapshotIndex < args.lastsnapshotincludeindex := haccepted
    obtain ⟨hterm, hlt⟩ := hbounds
    rw [Raft.installSnapshot, if_neg (Nat.not_lt.mpr hterm)] at hr
    obtain ⟨s, hs, hr⟩ := bind_eq_ok.mp ((if_neg (Int.not_le.mpr (hindex ▸ hlt))).symm.trans hr)
    obtain ⟨rfl, -⟩ := Prod.mk.inj (pure_eq_ok.mp hr)
    obtain rfl := installAccepted_cases hs
    have hinstalled := hfollow.installed (hindex ▸ hlt)
    exact ⟨hinstalled.congr rfl rfl (Int.le_refl _) rfl, .inr (if_pos haccepted)⟩
  · obtain ⟨-, rfl⟩ | ⟨-, rfl⟩ | ⟨hterm, hlt, -⟩ := installSnapshot_cases hr
    · exact ⟨h, .inl ⟨rfl, if_neg haccepted⟩⟩
    · exact ⟨hfollow, .inl ⟨hfollowed, if_neg haccepted⟩⟩
    · exact absurd ⟨hterm, hlt⟩ haccepted

/-- A call takes or installs a snapshot, or keeps the one that is there. -/
lemma run_cases (h : r.Sound) (hr : c.run r = some r') :
    r'.Sound ∧ (r'.lastSnapshot = r.lastSnapshot ∧ c.taken r = none ∨
      c.taken r = some r'.lastSnapshot) := by
  have hcommit : ∀ {s s' : Raft}, s.Sound → s.lastSnapshot = r.lastSnapshot →
      s.advanceCommitIndex = .ok s' → s'.Sound ∧ s'.lastSnapshot = r.lastSnapshot := by
    intro s s' hs hsame hadvance
    obtain rfl | ⟨index, e, rfl, hlt, -⟩ := advanceCommitIndex_cases hadvance
    · exact ⟨hs, hsame⟩
    · exact ⟨hs.congr rfl rfl (Int.le_of_lt hlt) rfl, hsame⟩
  cases c with
  | doElection =>
    obtain ⟨⟨r', requests⟩, hcall, rfl⟩ := Option.map_eq_some_iff.mp hr
    obtain ⟨-, rfl, -⟩ := doElection_cases hcall
    exact ⟨h.congr rfl rfl (Int.le_refl _) rfl, .inl ⟨rfl, rfl⟩⟩
  | requestVote request =>
    obtain rfl := Option.some.inj hr
    obtain ⟨hcatchUp, hsame⟩ := h.catchUp request.term
    obtain ⟨-, heq, -⟩ | ⟨-, heq | heq, -⟩ | ⟨-, -, -, heq, -⟩ := requestVote_cases r request
    · rw [heq]
      exact ⟨h, .inl ⟨rfl, rfl⟩⟩
    · rw [heq]
      exact ⟨hcatchUp, .inl ⟨hsame, rfl⟩⟩
    · rw [heq]
      exact ⟨hcatchUp.persistState, .inl ⟨hsame, rfl⟩⟩
    · rw [heq]
      exact ⟨Sound.persistState (hcatchUp.congr rfl rfl (Int.le_refl _) rfl), .inl ⟨hsame, rfl⟩⟩
  | handleRequestVoteResponse args reply votedNum =>
    obtain rfl := Option.some.inj hr
    obtain ⟨-, heq⟩ | heq | ⟨-, -, -, -, heq | ⟨-, heq⟩⟩ :=
      handleRequestVoteResponse_cases r args reply votedNum
    · rw [heq]
      exact ⟨h.newTerm _, .inl ⟨rfl, rfl⟩⟩
    · rw [heq]
      exact ⟨h, .inl ⟨rfl, rfl⟩⟩
    · rw [heq]
      exact ⟨h, .inl ⟨rfl, rfl⟩⟩
    · rw [heq]
      exact ⟨Sound.persistState (h.congr rfl rfl (Int.le_refl _) rfl), .inl ⟨rfl, rfl⟩⟩
  | start command =>
    obtain ⟨⟨r', e⟩, hcall, rfl⟩ := Option.map_eq_some_iff.mp hr
    obtain ⟨-, rfl, rfl⟩ := start_cases (join_toOption_eq_some.mp hcall)
    refine ⟨sound_persistState (h.aligned.concat ?_) h.nonneg h.snapshot_le, .inl ⟨rfl, rfl⟩⟩
    show r.getLastLogIndex + 1 = _
    rw [h.last_eq]
    omega
  | onLogStable ok logIndex =>
    obtain rfl := Option.some.inj hr
    obtain ⟨hsound, hsame⟩ := h.onLogStable ok logIndex
    exact ⟨hsound, .inl ⟨hsame, rfl⟩⟩
  | doHeartBeat =>
    obtain ⟨⟨r', requests, snapshots⟩, hcall, rfl⟩ := Option.map_eq_some_iff.mp hr
    obtain ⟨⟨nextIndex, rfl⟩, -⟩ := heartBeatPeers_cases (toOption_eq_some.mp hcall)
    exact ⟨h.congr rfl rfl (Int.le_refl _) rfl, .inl ⟨rfl, rfl⟩⟩
  | appendEntries request =>
    obtain ⟨⟨r', phase⟩, hcall, rfl⟩ := Option.map_eq_some_iff.mp hr
    have haccept : (r.acceptTerm request.term).Sound ∧
        (r.acceptTerm request.term).lastSnapshot = r.lastSnapshot := by
      rw [acceptTerm_eq]
      exact ⟨h.congr rfl rfl (Int.le_refl _) rfl, rfl⟩
    obtain ⟨-, rfl, -⟩ | ⟨-, rfl, -⟩ | ⟨-, rfl, -⟩ := appendEntries_cases (toOption_eq_some.mp hcall)
    · exact ⟨h, .inl ⟨rfl, rfl⟩⟩
    · exact ⟨haccept.1.persistState, .inl ⟨haccept.2, rfl⟩⟩
    · exact ⟨haccept.1, .inl ⟨haccept.2, rfl⟩⟩
  | appendEntriesStable request pending stable =>
    obtain ⟨⟨r', reply⟩, hcall, rfl⟩ := Option.map_eq_some_iff.mp hr
    obtain ⟨rfl, -⟩ | ⟨-, ⟨-, -, -, -, hcheck⟩, happly⟩ :=
      appendEntriesStable_cases (toOption_eq_some.mp hcall)
    · exact ⟨h.persistState, .inl ⟨rfl, rfl⟩⟩
    · obtain ⟨hsound, hsame⟩ := h.applyEntries hcheck happly
      exact ⟨hsound, .inl ⟨hsame, rfl⟩⟩
  | handleAppendEntries server args reply =>
    obtain ⟨-, rfl⟩ | ⟨nextIndex, rfl⟩ | ⟨-, -, -, hadvance⟩ :=
      handleAppendEntries_cases (toOption_eq_some.mp hr)
    · exact ⟨h.congr rfl rfl (Int.le_refl _) rfl, .inl ⟨rfl, rfl⟩⟩
    · exact ⟨h.congr rfl rfl (Int.le_refl _) rfl, .inl ⟨rfl, rfl⟩⟩
    · have hmatched : (r.matched server (args.prevlogindex + args.entries.length)).Sound :=
        h.congr rfl rfl (Int.le_refl _) rfl
      obtain ⟨hsound, hsame⟩ := hcommit hmatched rfl hadvance
      exact ⟨hsound, .inl ⟨hsame, rfl⟩⟩
  | installSnapshot args =>
    obtain ⟨⟨r', reply⟩, hcall, rfl⟩ := Option.map_eq_some_iff.mp hr
    exact run_installSnapshot h (toOption_eq_some.mp hcall)
  | leaderSendSnapShotHandler args reply i =>
    obtain rfl := Option.some.inj hr
    obtain heq | ⟨-, heq⟩ | ⟨-, -, heq⟩ := leaderSendSnapShotHandler_cases r args reply i
    · rw [heq]
      exact ⟨h, .inl ⟨rfl, rfl⟩⟩
    · rw [heq]
      exact ⟨h.newTerm _, .inl ⟨rfl, rfl⟩⟩
    · rw [heq]
      exact ⟨h.congr rfl rfl (Int.le_refl _) rfl, .inl ⟨rfl, rfl⟩⟩
  | snapshot index data => exact run_snapshot h (toOption_eq_some.mp hr)
  | applierTicker =>
    obtain ⟨⟨r', msgs⟩, hcall, rfl⟩ := Option.map_eq_some_iff.mp hr
    obtain ⟨rfl, -⟩ := applierTicker_cases (toOption_eq_some.mp hcall)
    exact ⟨h.congr rfl rfl (Int.le_refl _) rfl, .inl ⟨rfl, rfl⟩⟩
  | push msg =>
    obtain rfl := Option.some.inj hr
    exact ⟨h.congr rfl rfl (Int.le_refl _) rfl, .inl ⟨rfl, rfl⟩⟩

end NodeCall

end KVCacheRaft
