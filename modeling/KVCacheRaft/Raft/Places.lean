import KVCacheRaft.Raft.Calls
import KVCacheRaft.Raft.Indices

/-!
# Entries at their places, snapshots from the server

What holds in every run, restarts included, if the WAL gives back logs that are at their places: so is
every log after every step, and the bytes of a snapshot, in a file or on their way, are bytes that a
server has handed to `Snapshot`.
-/

namespace KVCacheRaft

variable {P : Bytes → Prop}

namespace Raft

variable {r r' : Raft}

/-- The entries are at their places behind the snapshot, and what is known of its bytes. -/
structure Placed (P : Bytes → Prop) (r : Raft) : Prop where
  aligned : Aligned r.lastSnapshotIndex r.logs
  nonneg : 0 ≤ r.lastSnapshotIndex
  stored : 0 ≤ r.fmp.snapshot_index
  file : P r.snapshotFile

namespace Placed

/-- A step that leaves the log and the snapshot, and stores the metadata of the node if any. -/
lemma congr (h : r.Placed P) (hlogs : r'.logs = r.logs)
    (hsnap : r'.lastSnapshotIndex = r.lastSnapshotIndex) (hfile : r'.snapshotFile = r.snapshotFile)
    (hfmp : r'.fmp = r.fmp ∨ r'.fmp.snapshot_index = r.lastSnapshotIndex) : r'.Placed P where
  aligned := by rw [hlogs, hsnap]; exact h.aligned
  nonneg := by rw [hsnap]; exact h.nonneg
  stored := by
    obtain heq | heq := hfmp
    · rw [heq]
      exact h.stored
    · rw [heq]
      exact h.nonneg
  file := by rw [hfile]; exact h.file

lemma persistState (h : r.Placed P) : r.persistState.Placed P := h.congr rfl rfl rfl (.inr rfl)

/-- Catching up with a term leaves the places. -/
lemma catchUp (h : r.Placed P) (term : ℕ) : (r.catchUp term).Placed P := by
  rw [Raft.catchUp]
  split_ifs
  · exact h.congr rfl rfl rfl (.inr rfl)
  · exact h

/-- Accepting a term leaves the places. -/
lemma acceptTerm (h : r.Placed P) (term : ℕ) : (r.acceptTerm term).Placed P := by
  rw [acceptTerm_eq]
  exact h.congr rfl rfl rfl (.inl rfl)

/-- `RequestVote` leaves the places. -/
lemma requestVote (h : r.Placed P) (request : RequestVoteArgs) : (r.requestVote request).1.Placed P := by
  have hc := h.catchUp request.term
  obtain ⟨-, heq, -⟩ | ⟨-, heq | heq, -⟩ | ⟨-, -, -, heq, -⟩ := r.requestVote_cases request
  · rw [heq]
    exact h
  · rw [heq]
    exact hc
  · rw [heq]
    exact hc.persistState
  · rw [heq]
    exact hc.congr rfl rfl rfl (.inr rfl)

/-- A vote leaves the places. -/
lemma handleRequestVoteResponse (h : r.Placed P) (args : RequestVoteArgs) (reply : RequestVoteReply)
    (votedNum : ℕ) : (r.handleRequestVoteResponse args reply votedNum).1.Placed P := by
  obtain ⟨-, heq⟩ | heq | ⟨-, -, -, -, heq | ⟨-, heq⟩⟩ :=
    r.handleRequestVoteResponse_cases args reply votedNum
  · rw [heq]
    exact h.congr rfl rfl rfl (.inr rfl)
  · rw [heq]
    exact h
  · rw [heq]
    exact h
  · rw [heq]
    exact h.congr rfl rfl rfl (.inr rfl)

/-- `Start` puts its entry at the next place. -/
lemma start (h : r.Placed P) {command : Bytes} {e : LogEntry}
    (hr : r.start command = .ok (some (r', e))) : r'.Placed P := by
  obtain ⟨-, rfl, rfl⟩ := start_cases hr
  refine ⟨h.aligned.concat ?_, h.nonneg, h.nonneg, h.file⟩
  rw [getLastLogIndex_of_aligned h.aligned]
  show r.lastSnapshotIndex + r.logs.length + 1 = _
  omega

/-- The first locked part of `AppendEntries` leaves the places. -/
lemma appendEntries (h : r.Placed P) {request : AppendEntriesArgs} {phase : AppendPhase}
    (hr : r.appendEntries request = .ok (r', phase)) : r'.Placed P := by
  have ha := h.acceptTerm request.term
  obtain ⟨-, rfl, -⟩ | ⟨-, rfl, -⟩ | ⟨-, rfl, -⟩ := appendEntries_cases hr
  · exact h
  · exact ha.persistState
  · exact ha

/-- The second locked part of `AppendEntries` puts every entry at its place. -/
lemma appendEntriesStable (h : r.Placed P) {request : AppendEntriesArgs}
    {pending : List PendingLogWrite} {stable : Bool} {reply : AppendEntriesReply}
    (hr : r.appendEntriesStable request pending stable = .ok (r', reply)) : r'.Placed P := by
  obtain ⟨rfl, -⟩ | ⟨-, ⟨-, -, -, -, hcheck⟩, hr⟩ := appendEntriesStable_cases hr
  · exact h.persistState
  · rw [getLastLogIndex_of_aligned h.aligned] at hcheck
    obtain ⟨-, haligned, -⟩ := foldl_applyPending h.aligned h.aligned le_rfl hcheck
    obtain ⟨logs, last, rfl, -, rfl, -⟩ := applyEntries_cases hr
    exact ⟨haligned, h.nonneg, h.nonneg, h.file⟩

/-- A reply to an `AppendEntries` leaves the places. -/
lemma handleAppendEntries (h : r.Placed P) {server : ℕ} {args : AppendEntriesArgs}
    {reply : AppendEntriesReply} (hr : r.handleAppendEntries server args reply = .ok r') :
    r'.Placed P := by
  obtain ⟨-, rfl⟩ | ⟨next, rfl⟩ | ⟨-, -, -, hr⟩ := handleAppendEntries_cases hr
  · exact h.congr rfl rfl rfl (.inl rfl)
  · exact h.congr rfl rfl rfl (.inl rfl)
  · obtain rfl | ⟨index, e, rfl, -⟩ := advanceCommitIndex_cases hr
    · exact h.congr rfl rfl rfl (.inl rfl)
    · exact h.congr rfl rfl rfl (.inl rfl)

/-- A reply to a snapshot leaves the places. -/
lemma leaderSendSnapShotHandler (h : r.Placed P) (args : InstallSnapshotRequest)
    (reply : InstallSnapshotResponse) (i : ℕ) : (r.leaderSendSnapShotHandler args reply i).Placed P := by
  obtain heq | ⟨-, heq⟩ | ⟨-, -, heq⟩ := r.leaderSendSnapShotHandler_cases args reply i
  · rw [heq]
    exact h
  · rw [heq]
    exact h.congr rfl rfl rfl (.inr rfl)
  · rw [heq]
    exact h.congr rfl rfl rfl (.inl rfl)

/-- A callback of the writer leaves the places. -/
lemma onLogStable (h : r.Placed P) (ok : Bool) (index : ℤ) : (r.onLogStable ok index).Placed P := by
  rw [Raft.onLogStable]
  split_ifs
  · dsimp only
    split_ifs
    · exact ⟨h.aligned.take _, h.nonneg, h.stored, h.file⟩
    · exact h
  · exact h
  · exact h.congr rfl rfl rfl (.inr rfl)
  · exact h

/-- `Snapshot` drops the entries up to its index. -/
lemma snapshot (h : r.Placed P) {index : ℤ} {data : Bytes} (hdata : P data)
    (hr : r.snapshot index data = .ok r') : r'.Placed P := by
  obtain rfl | ⟨hgt, -, e, -, rfl⟩ := snapshot_cases hr
  · exact h
  · have hnonneg : 0 ≤ index := Int.le_trans h.nonneg (Int.le_of_lt hgt)
    exact ⟨(h.aligned.behind (Int.le_of_lt hgt)).take _, hnonneg, hnonneg, hdata⟩

/-- `InstallSnapshot` keeps what is behind the snapshot at its place. -/
lemma installSnapshot (h : r.Placed P) {args : InstallSnapshotRequest} {reply : InstallSnapshotResponse}
    (hdata : P args.data) (hr : r.installSnapshot args = .ok (r', reply)) : r'.Placed P := by
  have hfollow : (r.follow args.term).Placed P := (h.catchUp args.term).congr rfl rfl rfl (.inl rfl)
  have hsnap : (r.follow args.term).lastSnapshotIndex = r.lastSnapshotIndex :=
    (r.catchUp_frame args.term).lastSnapshotIndex
  obtain ⟨-, rfl⟩ | ⟨-, rfl⟩ | ⟨-, hgt, rfl⟩ := installSnapshot_cases hr
  · exact h
  · exact hfollow
  · have hle : (r.follow args.term).lastSnapshotIndex ≤ args.lastsnapshotincludeindex :=
      hsnap ▸ Int.le_of_lt hgt
    have hnonneg := Int.le_trans hfollow.nonneg hle
    exact ⟨aligned_keptLogs hfollow.aligned hle, hnonneg, hnonneg, hdata⟩

/-- A process that starts over the metadata and the snapshot of an earlier one. -/
lemma init (h : r.Placed P) (id peers : ℕ) {logs : List LogEntry}
    (hlogs : Aligned r.fmp.snapshot_index logs) :
    (Raft.init id peers r.fmp r.snapshotFile logs).Placed P :=
  ⟨hlogs, h.stored, h.stored, h.file⟩

end Placed

end Raft

namespace Cluster

variable {s s' : Cluster}

/-- Every node, and every snapshot on its way. -/
structure Placed (P : Bytes → Prop) (s : Cluster) : Prop where
  nodes : ∀ i, (s.nodes i).Placed P
  calls : ∀ c ∈ s.calls, ∀ args, c.request = .installSnapshot args → P args.data

/-- A node is replaced, and parts of the cluster other than its calls. -/
lemma Placed.node (h : s.Placed P) {i : ℕ} {r : Raft} (hnodes : s'.nodes = Function.update s.nodes i r)
    (hcalls : s'.calls = s.calls) (hr : r.Placed P) : s'.Placed P where
  nodes j := by
    rw [hnodes]
    by_cases hji : j = i
    · subst hji
      rw [Function.update_self]
      exact hr
    · rw [Function.update_of_ne hji]
      exact h.nodes j
  calls := hcalls ▸ h.calls

/-- Requests on their way have the snapshot of their sender. -/
lemma Placed.send (h : s.Placed P) (i : ℕ) {requests : List (ℕ × Request)}
    (hrequests : ∀ j args, (j, Request.installSnapshot args) ∈ requests → P args.data) :
    (s.send i requests).Placed P where
  nodes := h.nodes
  calls c hc args hargs := by
    obtain hc | hc := List.mem_append.mp hc
    · exact h.calls c hc args hargs
    · obtain ⟨⟨j, q⟩, hq, rfl⟩ := List.mem_map.mp hc
      obtain rfl : q = .installSnapshot args := hargs
      exact hrequests j args hq

/-- Completing a call leaves the places. -/
lemma Placed.completed (h : s.Placed P) {id : ℕ} {c : Call} (hc : s.calls[id]? = some c) :
    (s.completed id c).Placed P where
  nodes := h.nodes
  calls x hx := by
    obtain hx | rfl := List.mem_or_eq_of_mem_set hx
    · exact h.calls x hx
    · exact h.calls c (List.mem_of_getElem? hc)

/-- A restart over files in order puts every entry at its place. -/
lemma Placed.restart (h : s.Placed P) (i : ℕ) {logs : List LogEntry}
    (hlogs : Aligned (s.nodes i).fmp.snapshot_index logs) : (s.restart i logs).Placed P := by
  have hnode : (s.setNode i { Raft.init i s.size (s.nodes i).fmp (s.nodes i).snapshotFile logs with
      applyChan := (s.nodes i).applyChan }).Placed P :=
    h.node rfl rfl (((h.nodes i).init i s.size hlogs).congr rfl rfl rfl (.inl rfl))
  refine ⟨hnode.nodes, fun c hc => ?_⟩
  obtain ⟨x, hx, rfl⟩ := List.mem_map.mp hc
  split_ifs
  · exact h.calls x hx
  · exact h.calls x hx

/-- Only `Snapshot` brings snapshots into a cluster. -/
theorem Placed.step (h : s.Placed P) {a : Action}
    (hsnapshot : ∀ i index data, a = .snapshot i index data → P data)
    (hrestart : ∀ i logs, a = .restart i logs → Aligned (s.nodes i).fmp.snapshot_index logs)
    (hs : s.step a = some s') : s'.Placed P := by
  cases a with
  | doElection i =>
    rw [Cluster.step] at hs
    split_ifs at hs
    obtain ⟨-, r, requests, hr, rfl⟩ := doElection_cases hs
    obtain ⟨-, rfl, -⟩ := Raft.doElection_cases hr
    refine Placed.send ?_ i fun j args hargs => ?_
    · exact h.node rfl rfl ((h.nodes i).congr rfl rfl rfl (.inl rfl))
    · obtain ⟨x, -, heq⟩ := List.mem_map.mp hargs
      cases (Prod.mk.inj heq).2
  | persistElection i =>
    rw [Cluster.step] at hs
    split_ifs at hs
    obtain rfl := Option.some.inj hs
    exact h.node rfl rfl (h.nodes i).persistState
  | deliver id =>
    obtain ⟨c, hc, hd⟩ := deliver_cases hs
    cases hd with
    | requestVote hreq => exact h.node rfl rfl ((h.nodes _).requestVote _)
    | installSnapshot hreq hr =>
      exact h.node rfl rfl
        ((h.nodes _).installSnapshot (h.calls c (List.mem_of_getElem? hc) _ hreq) hr)
    | replied hreq hr => exact h.node rfl rfl ((h.nodes _).appendEntries hr)
    | unlocked hreq hr => exact h.node rfl rfl ((h.nodes _).appendEntries hr)
  | resume k stable =>
    obtain ⟨w, r, rep, hw, hr, rfl⟩ := resume_cases hs
    exact h.node rfl rfl ((h.nodes _).appendEntriesStable hr)
  | complete k =>
    obtain ⟨id, rep, c, -, hc, -, hd⟩ := complete_cases hs
    have hcompleted := h.completed hc
    cases hd with
    | requestVote hreq => exact hcompleted.node rfl rfl ((h.nodes _).handleRequestVoteResponse _ _ _)
    | appendEntries hreq hr => exact hcompleted.node rfl rfl ((h.nodes _).handleAppendEntries hr)
    | installSnapshot hreq => exact hcompleted.node rfl rfl ((h.nodes _).leaderSendSnapShotHandler _ _ _)
  | fail id =>
    obtain ⟨c, hc, rfl⟩ := fail_cases hs
    exact h.completed hc
  | start i command =>
    rw [Cluster.step] at hs
    split_ifs at hs
    obtain ⟨r, e, hr, rfl⟩ := start_cases hs
    exact h.node rfl rfl ((h.nodes i).start hr)
  | onLogStable k ok =>
    obtain ⟨i, index, -, rfl⟩ := onLogStable_cases hs
    exact h.node rfl rfl ((h.nodes i).onLogStable ok index)
  | doHeartBeat i =>
    rw [Cluster.step] at hs
    split_ifs at hs
    obtain ⟨-, r, requests, snapshots, hr, rfl⟩ := doHeartBeat_cases hs
    obtain ⟨⟨next, rfl⟩, -, -⟩ := Raft.heartBeatPeers_cases hr
    refine Placed.send ?_ i fun j args hargs => ?_
    · exact h.node rfl rfl ((h.nodes i).congr rfl rfl rfl (.inl rfl))
    · obtain ⟨x, -, heq⟩ := List.mem_map.mp hargs
      cases (Prod.mk.inj heq).2
  | leaderSendSnapShot k =>
    obtain ⟨i, peer, -, rfl⟩ := leaderSendSnapShot_cases hs
    refine Placed.send ?_ i fun j args hargs => ?_
    · exact ⟨h.nodes, h.calls⟩
    · cases List.mem_singleton.mp hargs
      exact (h.nodes i).file
  | applierTicker i =>
    rw [Cluster.step] at hs
    split_ifs at hs
    obtain ⟨r, logs, hr, rfl⟩ := applierTicker_cases hs
    obtain ⟨rfl, -⟩ := Raft.applierTicker_cases hr
    exact h.node rfl rfl ((h.nodes i).congr rfl rfl rfl (.inl rfl))
  | push i =>
    obtain ⟨msg, rest, -, rfl⟩ := push_cases hs
    exact h.node rfl rfl ((h.nodes i).congr rfl rfl rfl (.inl rfl))
  | snapshot i index data =>
    rw [Cluster.step] at hs
    split_ifs at hs
    obtain ⟨r, hr, rfl⟩ := snapshot_cases hs
    exact h.node rfl rfl ((h.nodes i).snapshot (hsnapshot i index data rfl) hr)
  | restart i logs =>
    rw [Cluster.step] at hs
    split_ifs at hs
    obtain rfl := Option.some.inj hs
    exact h.restart i (hrestart i logs rfl)

end Cluster

end KVCacheRaft
