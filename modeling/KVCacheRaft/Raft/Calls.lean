import KVCacheRaft.Raft.Steps
import Mathlib.Data.Finset.Card
import Mathlib.Data.Finset.Insert
import Mathlib.Data.List.Range

/-!
# Calls and the counting of votes

`Follows` says what every step, crashes included, does to the messages: calls keep who called whom for
what, replies stay. `Tally` is the invariant of the vote counters: the calls of one election go to
different nodes, so a counter that a granted reply raises never counts a voter twice.
-/

namespace KVCacheRaft

/-! ### The fields no handler touches -/

namespace Raft

variable {r r' : Raft}

/-- The same node of the same cluster. -/
def Same (r r' : Raft) : Prop := r'.id = r.id ∧ r'.peers = r.peers

/-- A node has its own id and peers. -/
lemma Same.refl (r : Raft) : r.Same r := ⟨rfl, rfl⟩

@[simp] lemma mem_others {j : ℕ} : j ∈ r.others ↔ j < r.peers ∧ j ≠ r.id := by
  simp [others]

/-- What the server sees of the node is the same, as are the fields no handler touches. -/
structure Frame (r r' : Raft) : Prop where
  same : r.Same r'
  lastApplied : r'.lastApplied = r.lastApplied
  applyChan : r'.applyChan = r.applyChan
  lastSnapshotIndex : r'.lastSnapshotIndex = r.lastSnapshotIndex
  snapshotFile : r'.snapshotFile = r.snapshotFile

/-- A node may stay as it is. -/
lemma Frame.refl (r : Raft) : r.Frame r := ⟨Same.refl r, rfl, rfl, rfl, rfl⟩

/-- Catching up with a term keeps what a frame keeps. -/
lemma catchUp_frame (r : Raft) (term : ℕ) : r.Frame (r.catchUp term) := by
  unfold catchUp
  split_ifs <;> exact ⟨⟨rfl, rfl⟩, rfl, rfl, rfl, rfl⟩

/-- Accepting a term keeps what a frame keeps. -/
lemma acceptTerm_frame (r : Raft) (term : ℕ) : r.Frame (r.acceptTerm term) := by
  rw [acceptTerm_eq]
  exact ⟨⟨rfl, rfl⟩, rfl, rfl, rfl, rfl⟩

/-- Storing the state keeps what a frame keeps. -/
lemma Frame.persistState (h : r.Frame r') : r.Frame r'.persistState :=
  ⟨h.same, h.lastApplied, h.applyChan, h.lastSnapshotIndex, h.snapshotFile⟩

/-- `RequestVote` keeps what a frame keeps. -/
lemma requestVote_frame (r : Raft) (request : RequestVoteArgs) :
    r.Frame (r.requestVote request).1 := by
  have hc := r.catchUp_frame request.term
  rcases r.requestVote_cases request with ⟨-, h, -⟩ | ⟨-, h | h, -⟩ | ⟨-, -, -, h, -⟩
  · rw [h]; exact Frame.refl r
  · rw [h]; exact hc
  · rw [h]; exact hc.persistState
  · rw [h]; exact ⟨hc.same, hc.lastApplied, hc.applyChan, hc.lastSnapshotIndex, hc.snapshotFile⟩

/-- Counting a vote keeps what a frame keeps. -/
lemma handleRequestVoteResponse_frame (r : Raft) (args : RequestVoteArgs)
    (reply : RequestVoteReply) (votedNum : ℕ) :
    r.Frame (r.handleRequestVoteResponse args reply votedNum).1 := by
  rcases r.handleRequestVoteResponse_cases args reply votedNum with
    ⟨-, h⟩ | h | ⟨-, -, -, -, h | ⟨-, h⟩⟩ <;> rw [h] <;> exact ⟨⟨rfl, rfl⟩, rfl, rfl, rfl, rfl⟩

/-- The first locked part of `AppendEntries` keeps what a frame keeps. -/
lemma appendEntries_frame {request : AppendEntriesArgs} {phase : AppendPhase}
    (h : r.appendEntries request = .ok (r', phase)) : r.Frame r' := by
  have ha := r.acceptTerm_frame request.term
  rcases appendEntries_cases h with ⟨-, rfl, -⟩ | ⟨-, rfl, -⟩ | ⟨-, rfl, -⟩
  · exact Frame.refl r'
  · exact ha.persistState
  · exact ha

/-- The second locked part of `AppendEntries` keeps what a frame keeps. -/
lemma appendEntriesStable_frame {request : AppendEntriesArgs} {pending : List PendingLogWrite}
    {stable : Bool} {reply : AppendEntriesReply}
    (h : r.appendEntriesStable request pending stable = .ok (r', reply)) : r.Frame r' := by
  rcases appendEntriesStable_cases h with ⟨rfl, -⟩ | ⟨-, -, h⟩
  · exact (Frame.refl r).persistState
  · obtain ⟨logs, last, -, -, rfl, -⟩ := applyEntries_cases h
    exact ⟨⟨rfl, rfl⟩, rfl, rfl, rfl, rfl⟩

/-- The reply to an `AppendEntries` keeps what a frame keeps. -/
lemma handleAppendEntries_frame {server : ℕ} {args : AppendEntriesArgs} {reply : AppendEntriesReply}
    (h : r.handleAppendEntries server args reply = .ok r') : r.Frame r' := by
  rcases handleAppendEntries_cases h with ⟨-, rfl⟩ | ⟨next, rfl⟩ | ⟨-, -, -, h⟩
  · exact ⟨⟨rfl, rfl⟩, rfl, rfl, rfl, rfl⟩
  · exact ⟨⟨rfl, rfl⟩, rfl, rfl, rfl, rfl⟩
  · rcases advanceCommitIndex_cases h with rfl | ⟨index, e, rfl, -⟩ <;>
      exact ⟨⟨rfl, rfl⟩, rfl, rfl, rfl, rfl⟩

/-- The reply to an `InstallSnapshot` keeps what a frame keeps. -/
lemma leaderSendSnapShotHandler_frame (r : Raft) (args : InstallSnapshotRequest)
    (reply : InstallSnapshotResponse) (i : ℕ) :
    r.Frame (r.leaderSendSnapShotHandler args reply i) := by
  rcases r.leaderSendSnapShotHandler_cases args reply i with h | ⟨-, h⟩ | ⟨-, -, h⟩ <;>
    rw [h] <;> exact ⟨⟨rfl, rfl⟩, rfl, rfl, rfl, rfl⟩

/-- A callback of the writer keeps what a frame keeps. -/
lemma onLogStable_frame (r : Raft) (ok : Bool) (index : ℤ) : r.Frame (r.onLogStable ok index) := by
  unfold onLogStable
  simp only
  split_ifs <;> exact ⟨⟨rfl, rfl⟩, rfl, rfl, rfl, rfl⟩

/-- `Snapshot` moves the snapshot, and keeps the id and the peers. -/
lemma snapshot_same {index : ℤ} {data : Bytes} (h : r.snapshot index data = .ok r') :
    r.Same r' := by
  rcases snapshot_cases h with rfl | ⟨-, -, e, -, rfl⟩
  · exact Same.refl r'
  · exact ⟨rfl, rfl⟩

/-- `InstallSnapshot` moves the snapshot, and keeps the id and the peers. -/
lemma installSnapshot_same {args : InstallSnapshotRequest} {reply : InstallSnapshotResponse}
    (h : r.installSnapshot args = .ok (r', reply)) : r.Same r' := by
  rcases installSnapshot_cases h with ⟨-, rfl⟩ | ⟨-, rfl⟩ | ⟨-, -, rfl⟩
  · exact Same.refl r'
  · exact (r.catchUp_frame args.term).same
  · exact (r.catchUp_frame args.term).same

end Raft

/-! ### What every step does to the messages -/

/-- The same call, perhaps no longer pending. -/
structure Call.Later (c c' : Call) : Prop where
  caller : c'.caller = c.caller
  callee : c'.callee = c.callee
  request : c'.request = c.request
  pending : c'.pending = true → c.pending = true

/-- A call is as far as itself. -/
lemma Call.Later.refl (c : Call) : c.Later c := ⟨rfl, rfl, rfl, id⟩

/-- The states of a call follow one another. -/
lemma Call.Later.trans {c d e : Call} (h : c.Later d) (h' : d.Later e) : c.Later e :=
  ⟨h'.caller.trans h.caller, h'.callee.trans h.callee, h'.request.trans h.request,
    fun hp => h.pending (h'.pending hp)⟩

namespace Cluster

variable {s s' : Cluster}

/-- Nodes `i` and `j` are different nodes of the cluster. -/
def Peers (s : Cluster) (i j : ℕ) : Prop := i < s.size ∧ j < s.size ∧ j ≠ i

/-- What `s'`, some steps after `s`, has kept of its messages and what may be new. -/
structure Follows (s s' : Cluster) : Prop where
  size : s'.size = s.size
  node : ∀ i, (s.nodes i).Same (s'.nodes i)
  old : ∀ {k : ℕ} {c : Call}, s.calls[k]? = some c → ∃ c', s'.calls[k]? = some c' ∧ c.Later c'
  new : ∀ {k : ℕ} {c' : Call}, s'.calls[k]? = some c' → (∃ c, s.calls[k]? = some c ∧ c.Later c') ∨
    s.Peers c'.caller c'.callee ∧ ∀ args e, c'.request = .requestVote args e →
      s.votedNum.length ≤ e ∧ e < s'.votedNum.length
  replies : ∀ {x}, x ∈ s.replies → x ∈ s'.replies
  thread : ∀ {i j}, (i, j) ∈ s'.snapshotThreads → (i, j) ∈ s.snapshotThreads ∨ s.Peers i j
  elected : ∀ {x}, x ∈ s.elected → x ∈ s'.elected

/-- A cluster follows itself. -/
lemma Follows.refl (s : Cluster) : Follows s s where
  size := rfl
  node _ := Raft.Same.refl _
  old h := ⟨_, h, Call.Later.refl _⟩
  new h := .inl ⟨_, h, Call.Later.refl _⟩
  replies h := h
  thread h := .inl h
  elected h := h

/-- A step of one node that makes no call. -/
lemma Follows.of_node {i : ℕ} (hsize : s'.size = s.size)
    (hnode : ∃ r, s'.nodes = Function.update s.nodes i r ∧ (s.nodes i).Same r)
    (hcalls : s'.calls = s.calls) (hreplies : s.replies <+: s'.replies)
    (hthread : ∀ {i j}, (i, j) ∈ s'.snapshotThreads → (i, j) ∈ s.snapshotThreads ∨ s.Peers i j)
    (helected : s.elected <+: s'.elected) : Follows s s' where
  size := hsize
  node j := by
    obtain ⟨r, hr, hsame⟩ := hnode
    by_cases hj : j = i
    · subst hj; simpa [hr] using hsame
    · simpa [hr, hj] using Raft.Same.refl _
  old h := ⟨_, hcalls ▸ h, Call.Later.refl _⟩
  new h := .inl ⟨_, hcalls ▸ h, Call.Later.refl _⟩
  replies h := hreplies.subset h
  thread := hthread
  elected h := helected.subset h

/-- Further calls of a node to its peers. -/
lemma Follows.send {i : ℕ} {requests : List (ℕ × Request)} (g : Follows s s')
    (h : ∀ {j q}, (j, q) ∈ requests → s.Peers i j ∧ ∀ args e, q = .requestVote args e →
      s.votedNum.length ≤ e ∧ e < s'.votedNum.length) : Follows s (s'.send i requests) where
  size := g.size
  node := g.node
  old hk := by
    obtain ⟨c', hc', hl⟩ := g.old hk
    have hlt := (List.getElem?_eq_some_iff.mp hc').1
    exact ⟨c', by simp [Cluster.send, List.getElem?_append_left hlt, hc'], hl⟩
  new {k c'} hk := by
    rcases send_cases hk with hk | ⟨-, j, q, hq, rfl⟩
    · exact g.new hk
    · exact .inr (h (List.mem_of_getElem? hq))
  replies := g.replies
  thread := g.thread
  elected := g.elected

/-- A call from before the completion of call `c` is the same call after it. -/
lemma completed_later {id k : ℕ} {c d : Call} (hc : s.calls[id]? = some c)
    (hk : s.calls[k]? = some d) : ∃ d', (s.completed id c).calls[k]? = some d' ∧ d.Later d' := by
  by_cases hid : id = k
  · subst hid
    obtain rfl : d = c := Option.some.inj (hk.symm.trans hc)
    have hlt := (List.getElem?_eq_some_iff.mp hc).1
    exact ⟨{ d with pending := false }, by simp [completed, hlt], rfl, rfl, rfl, fun h => by simp at h⟩
  · exact ⟨d, by simpa [completed, List.getElem?_set_ne hid] using hk, Call.Later.refl d⟩

/-- Completing one call leaves every other one as it was. -/
lemma completed_cases {id k : ℕ} {c d' : Call} (hc : s.calls[id]? = some c)
    (hk : (s.completed id c).calls[k]? = some d') : ∃ d, s.calls[k]? = some d ∧ d.Later d' := by
  by_cases hid : id = k
  · subst hid
    have hlt := (List.getElem?_eq_some_iff.mp hc).1
    have : { c with pending := false } = d' := by simpa [completed, hlt] using hk
    subst this
    exact ⟨c, hc, rfl, rfl, rfl, fun h => by simp at h⟩
  · exact ⟨d', by simpa [completed, List.getElem?_set_ne hid] using hk, Call.Later.refl d'⟩

/-- What follows the completion of a call follows the state before it. -/
lemma Follows.completed {id : ℕ} {c : Call} (hc : s.calls[id]? = some c)
    (g : Follows (s.completed id c) s') : Follows s s' where
  size := g.size
  node := g.node
  old hk := by
    obtain ⟨d, hd, hl⟩ := completed_later hc hk
    obtain ⟨d', hd', hl'⟩ := g.old hd
    exact ⟨d', hd', hl.trans hl'⟩
  new hk := by
    rcases g.new hk with ⟨d, hd, hl⟩ | h
    · obtain ⟨d', hd', hl'⟩ := completed_cases hc hd
      exact .inl ⟨d', hd', hl'.trans hl⟩
    · exact .inr h
  replies := g.replies
  thread := g.thread
  elected := g.elected

/-- What holds of nodes, calls and threads in every run. -/
structure Wired (s : Cluster) : Prop where
  node : ∀ i, (s.nodes i).id = i ∧ (s.nodes i).peers = s.size
  call : ∀ {k : ℕ} {c : Call}, s.calls[k]? = some c → s.Peers c.caller c.callee
  thread : ∀ {i j : ℕ}, (i, j) ∈ s.snapshotThreads → s.Peers i j

/-- The peers of a node are the other nodes of the cluster. -/
lemma Wired.mem_others (h : Wired s) {i j : ℕ} : j ∈ (s.nodes i).others ↔ j < s.size ∧ j ≠ i := by
  rw [Raft.mem_others, (h.node i).1, (h.node i).2]

/-- Ids and numbers of peers stay along the run. -/
lemma Wired.follows (h : Wired s) (g : Follows s s') : Wired s' where
  node i := by
    rw [(g.node i).1, (g.node i).2, g.size]
    exact h.node i
  call hk := by
    unfold Peers
    rw [g.size]
    rcases g.new hk with ⟨c, hc, hl⟩ | ⟨hp, -⟩
    · rw [hl.caller, hl.callee]
      exact h.call hc
    · exact hp
  thread ht := by
    unfold Peers
    rw [g.size]
    rcases g.thread ht with ht | ht
    · exact h.thread ht
    · exact ht

/-- The nodes of a fresh cluster know their ids. -/
lemma Wired.initial (n : ℕ) : Wired (Cluster.initial n) where
  node _ := ⟨rfl, rfl⟩
  call h := by simp [Cluster.initial] at h
  thread h := by simp [Cluster.initial] at h

/-- A restarted node is wired as before. -/
lemma restart_follows (s : Cluster) (i : ℕ) (logs : List LogEntry) (h : Wired s) :
    Follows s (s.restart i logs) where
  size := rfl
  node j := by
    by_cases hj : j = i
    · subst hj
      have ⟨h1, h2⟩ := h.node j
      exact ⟨by simp [Cluster.restart, setNode, Raft.init, h1],
        by simp [Cluster.restart, setNode, Raft.init, h2]⟩
    · simpa [Cluster.restart, setNode, hj] using Raft.Same.refl _
  old {k c} hk := by
    refine ⟨if c.caller = i then { c with pending := false } else c, by
      simp [Cluster.restart, setNode, hk], ?_⟩
    split_ifs
    · exact ⟨rfl, rfl, rfl, fun h => by simp at h⟩
    · exact Call.Later.refl c
  new {k c'} hk := by
    left
    simp only [Cluster.restart, setNode, List.getElem?_map, Option.map_eq_some_iff] at hk
    obtain ⟨c, hc, rfl⟩ := hk
    refine ⟨c, hc, ?_⟩
    split_ifs
    · exact ⟨rfl, rfl, rfl, fun h => by simp at h⟩
    · exact Call.Later.refl c
  replies h := h
  thread ht := .inl (List.mem_filter.mp ht).1
  elected h := h

/-- Every step leaves the messages in place. -/
theorem step_follows {a : Action} (h : Wired s) (hs : s.step a = some s') : Follows s s' := by
  have hsame : ∀ t : List (ℕ × ℕ), s.snapshotThreads = t →
      ∀ {i j}, (i, j) ∈ t → (i, j) ∈ s.snapshotThreads ∨ s.Peers i j := by
    rintro _ rfl i j ht
    exact .inl ht
  cases a with
  | doElection i =>
    simp only [Cluster.step] at hs
    split_ifs at hs with hi
    obtain ⟨-, r, requests, hr, rfl⟩ := doElection_cases hs
    obtain ⟨-, rfl, rfl⟩ := Raft.doElection_cases hr
    refine Follows.send (.of_node rfl ⟨_, rfl, rfl, rfl⟩ rfl List.prefix_rfl (hsame _ rfl)
      List.prefix_rfl) ?_
    intro j q hq
    simp only [List.map_map, List.mem_map, Function.comp_apply, Prod.mk.injEq] at hq
    obtain ⟨j, hj, rfl, rfl⟩ := hq
    rw [h.mem_others] at hj
    refine ⟨⟨hi, hj⟩, ?_⟩
    rintro args e heq
    cases heq
    exact ⟨le_rfl, by simp⟩
  | persistElection i =>
    simp only [Cluster.step] at hs
    split_ifs at hs with hd
    cases hs
    exact .of_node rfl ⟨_, rfl, rfl, rfl⟩ rfl List.prefix_rfl (hsame _ rfl)
      List.prefix_rfl
  | deliver id =>
    obtain ⟨c, hc, hd⟩ := deliver_cases hs
    cases hd with
    | requestVote hreq =>
      exact .of_node rfl ⟨_, rfl, (Raft.requestVote_frame _ _).same⟩ rfl (List.prefix_append _ _)
        (hsame _ rfl) List.prefix_rfl
    | installSnapshot hreq hr =>
      exact .of_node rfl ⟨_, rfl, Raft.installSnapshot_same hr⟩ rfl (List.prefix_append _ _)
        (hsame _ rfl) List.prefix_rfl
    | replied hreq hr =>
      exact .of_node rfl ⟨_, rfl, (Raft.appendEntries_frame hr).same⟩ rfl (List.prefix_append _ _)
        (hsame _ rfl) List.prefix_rfl
    | unlocked hreq hr =>
      exact .of_node rfl ⟨_, rfl, (Raft.appendEntries_frame hr).same⟩ rfl List.prefix_rfl (hsame _ rfl)
        List.prefix_rfl
  | resume k stable =>
    obtain ⟨w, r, rep, -, hr, rfl⟩ := resume_cases hs
    exact .of_node rfl ⟨_, rfl, (Raft.appendEntriesStable_frame hr).same⟩ rfl (List.prefix_append _ _)
      (hsame _ rfl) List.prefix_rfl
  | complete k =>
    obtain ⟨id, rep, c, -, hc, -, hd⟩ := complete_cases hs
    refine .completed hc ?_
    cases hd with
    | requestVote hreq =>
      refine .of_node rfl ⟨_, rfl, (Raft.handleRequestVoteResponse_frame _ _ _ _).same⟩ rfl
        List.prefix_rfl (hsame _ rfl) ?_
      simp only
      split_ifs
      · exact List.prefix_append _ _
      · exact List.prefix_rfl
    | appendEntries hreq hr =>
      exact .of_node rfl ⟨_, rfl, (Raft.handleAppendEntries_frame hr).same⟩ rfl List.prefix_rfl
        (hsame _ rfl) List.prefix_rfl
    | installSnapshot hreq =>
      exact .of_node rfl ⟨_, rfl, (Raft.leaderSendSnapShotHandler_frame _ _ _ _).same⟩ rfl
        List.prefix_rfl (hsame _ rfl) List.prefix_rfl
  | fail id =>
    obtain ⟨c, hc, rfl⟩ := fail_cases hs
    exact .completed hc (.of_node (i := 0) rfl ⟨_, (Function.update_eq_self 0 _).symm, rfl, rfl⟩ rfl
      List.prefix_rfl (hsame _ rfl) List.prefix_rfl)
  | start i command =>
    simp only [Cluster.step] at hs
    split_ifs at hs with hi
    obtain ⟨r, e, hr, rfl⟩ := start_cases hs
    obtain ⟨-, -, rfl⟩ := Raft.start_cases hr
    exact .of_node rfl ⟨_, rfl, rfl, rfl⟩ rfl List.prefix_rfl (hsame _ rfl)
      List.prefix_rfl
  | onLogStable k ok =>
    obtain ⟨i, index, -, rfl⟩ := onLogStable_cases hs
    exact .of_node rfl ⟨_, rfl, (Raft.onLogStable_frame _ _ _).same⟩ rfl List.prefix_rfl (hsame _ rfl)
      List.prefix_rfl
  | doHeartBeat i =>
    simp only [Cluster.step] at hs
    split_ifs at hs with hi
    obtain ⟨-, r, requests, snapshots, hr, rfl⟩ := doHeartBeat_cases hs
    obtain ⟨⟨next, rfl⟩, hreq, hsnap⟩ := Raft.heartBeatPeers_cases hr
    refine Follows.send (.of_node rfl ⟨_, rfl, rfl, rfl⟩ rfl List.prefix_rfl ?_ List.prefix_rfl) ?_
    · intro j k hjk
      rcases List.mem_append.mp hjk with hjk | hjk
      · exact .inl hjk
      · right
        simp only [List.mem_map, Prod.mk.injEq] at hjk
        obtain ⟨k, hk, rfl, rfl⟩ := hjk
        exact ⟨hi, h.mem_others.mp (hsnap k hk)⟩
    · intro j q hq
      simp only [List.mem_map, Prod.mk.injEq, Prod.exists] at hq
      obtain ⟨j, args, hj, rfl, rfl⟩ := hq
      exact ⟨⟨hi, h.mem_others.mp (hreq j args hj).1⟩, by simp⟩
  | leaderSendSnapShot k =>
    obtain ⟨i, peer, hk, rfl⟩ := leaderSendSnapShot_cases hs
    have hthread : ∀ {i j}, (i, j) ∈ s.snapshotThreads.eraseIdx k →
        (i, j) ∈ s.snapshotThreads ∨ s.Peers i j := fun ht => .inl (List.mem_of_mem_eraseIdx ht)
    refine Follows.send (.of_node (i := 0) rfl ⟨_, (Function.update_eq_self 0 _).symm, rfl, rfl⟩ rfl
      List.prefix_rfl hthread List.prefix_rfl) ?_
    intro j q hq
    simp only [List.mem_singleton, Prod.mk.injEq] at hq
    obtain ⟨rfl, rfl⟩ := hq
    exact ⟨h.thread (List.mem_of_getElem? hk), by simp⟩
  | applierTicker i =>
    simp only [Cluster.step] at hs
    split_ifs at hs with hi
    obtain ⟨r, logs, hr, rfl⟩ := applierTicker_cases hs
    obtain ⟨rfl, -⟩ := Raft.applierTicker_cases hr
    exact .of_node rfl ⟨_, rfl, rfl, rfl⟩ rfl List.prefix_rfl (hsame _ rfl)
      List.prefix_rfl
  | push i =>
    obtain ⟨msg, rest, -, rfl⟩ := push_cases hs
    exact .of_node rfl ⟨_, rfl, rfl, rfl⟩ rfl List.prefix_rfl (hsame _ rfl)
      List.prefix_rfl
  | snapshot i index data =>
    simp only [Cluster.step] at hs
    split_ifs at hs with hi
    obtain ⟨r, hr, rfl⟩ := snapshot_cases hs
    exact .of_node rfl ⟨_, rfl, Raft.snapshot_same hr⟩ rfl List.prefix_rfl (hsame _ rfl)
      List.prefix_rfl
  | restart i logs =>
    simp only [Cluster.step] at hs
    split_ifs at hs with hi
    cases hs
    exact restart_follows s i logs h

/-! ### Counting votes -/

/-- Node `j` has granted its vote in election `e`, by a call that has completed. -/
def Granted (s : Cluster) (e j : ℕ) : Prop :=
  ∃ k c args rep, s.calls[k]? = some c ∧ c.request = .requestVote args e ∧ c.callee = j ∧
    c.pending = false ∧ (k, .requestVote rep) ∈ s.replies ∧ rep.votegranted = true ∧
    rep.term = args.term

/-- A granted vote stays granted. -/
lemma Granted.follows {e j : ℕ} (g : Follows s s') (h : s.Granted e j) : s'.Granted e j := by
  obtain ⟨k, c, args, rep, hc, hreq, hj, hp, hrep, hrest⟩ := h
  obtain ⟨c', hc', hl⟩ := g.old hc
  refine ⟨k, c', args, rep, hc', hl.request.trans hreq, hl.callee.trans hj, ?_, g.replies hrep,
    hrest⟩
  by_contra hne
  simp [hl.pending (by simpa using hne)] at hp

/-- The calls of one election differ only in whom they ask, and its counter counts the candidate
and nodes that granted it their vote. -/
structure Tally (s : Cluster) : Prop where
  election_lt : ∀ {k : ℕ} {c : Call} {args e}, s.calls[k]? = some c →
    c.request = .requestVote args e → e < s.votedNum.length
  same : ∀ {k k' : ℕ} {c c' : Call} {args args' e}, s.calls[k]? = some c → s.calls[k']? = some c' →
    c.request = .requestVote args e → c'.request = .requestVote args' e →
    c.caller = c'.caller ∧ args = args' ∧ (c.callee = c'.callee → k = k')
  counted : ∀ {e v : ℕ}, s.votedNum[e]? = some v →
    ∃ V : Finset ℕ, v ≤ V.card + 1 ∧ ∀ j ∈ V, s.Granted e j

/-- Nobody has counted a vote in a fresh cluster. -/
lemma Tally.initial (n : ℕ) : Tally (Cluster.initial n) where
  election_lt h := by simp [Cluster.initial] at h
  same h := by simp [Cluster.initial] at h
  counted h := by simp [Cluster.initial] at h

/-- A step that starts no election and counts only what was granted. -/
lemma Tally.follows (h : Tally s) (g : Follows s s')
    (hlen : s'.votedNum.length = s.votedNum.length)
    (hcount : ∀ {e v : ℕ}, s'.votedNum[e]? = some v → s.votedNum[e]? = some v ∨
      ∃ V : Finset ℕ, v ≤ V.card + 1 ∧ ∀ j ∈ V, s'.Granted e j) : Tally s' := by
  have hold : ∀ {k : ℕ} {c' : Call} {args e}, s'.calls[k]? = some c' →
      c'.request = .requestVote args e → ∃ c, s.calls[k]? = some c ∧ c.Later c' := by
    intro k c' args e hk hreq
    rcases g.new hk with h | ⟨-, h⟩
    · exact h
    · have := h args e hreq
      omega
  refine ⟨fun hk hreq => ?_, fun hk hk' hreq hreq' => ?_, fun he => ?_⟩
  · obtain ⟨c, hc, hl⟩ := hold hk hreq
    rw [hlen]
    exact h.election_lt hc (hl.request ▸ hreq)
  · obtain ⟨c, hc, hl⟩ := hold hk hreq
    obtain ⟨d, hd, hl'⟩ := hold hk' hreq'
    rw [hl.caller, hl'.caller, hl.callee, hl'.callee]
    exact h.same hc hd (hl.request ▸ hreq) (hl'.request ▸ hreq')
  · rcases hcount he with he | he
    · obtain ⟨V, hV, hall⟩ := h.counted he
      exact ⟨V, hV, fun j hj => (hall j hj).follows g⟩
    · exact he

/-- A new election, whose calls go to different nodes and whose counter counts the candidate. -/
lemma Tally.doElection {i : ℕ} (h : Tally s) (g : Follows s s') (hs : s.doElection i = some s') :
    Tally s' := by
  obtain ⟨-, r, requests, hr, rfl⟩ := doElection_cases hs
  obtain ⟨-, rfl, rfl⟩ := Raft.doElection_cases hr
  -- a call of an election is an old one, or one to the peer at its position
  have hnew : ∀ {k : ℕ} {c : Call} {args e}, (Cluster.send
        { s.setNode i { s.nodes i with
            state := .candidate
            currentTerm := (s.nodes i).currentTerm + 1
            voteForId := (s.nodes i).id } with
          votedNum := s.votedNum ++ [1]
          deferred := Function.update s.deferred i true }
        i (((s.nodes i).others.map fun j => (j, (s.nodes i).candidacy)).map fun x =>
          (x.1, Request.requestVote x.2 s.votedNum.length))).calls[k]? = some c →
      c.request = .requestVote args e →
      s.calls[k]? = some c ∧ e < s.votedNum.length ∨
        e = s.votedNum.length ∧ s.calls.length ≤ k ∧ c.caller = i ∧
        args = (s.nodes i).candidacy ∧
        (s.nodes i).others[k - s.calls.length]? = some c.callee := by
    intro k c args e hk hreq
    rcases send_cases hk with hk | ⟨hge, j, q, hq, rfl⟩
    · exact .inl ⟨hk, h.election_lt hk hreq⟩
    · simp only [List.map_map, List.getElem?_map, Option.map_eq_some_iff, Function.comp_apply,
        Prod.mk.injEq] at hq
      obtain ⟨j, hj, rfl, rfl⟩ := hq
      cases hreq
      exact .inr ⟨rfl, hge, rfl, rfl, hj⟩
  have hnodup : (s.nodes i).others.Nodup := List.Nodup.filter _ List.nodup_range
  refine ⟨fun hk hreq => ?_, fun hk hk' hreq hreq' => ?_, fun {e v} he => ?_⟩
  · rcases hnew hk hreq with ⟨-, hlt⟩ | ⟨rfl, -⟩
    · simp [Cluster.send]; omega
    · simp [Cluster.send]
  · rcases hnew hk hreq with ⟨h1, hlt⟩ | ⟨rfl, h1, h2, h3, h4⟩
    · rcases hnew hk' hreq' with ⟨h1', -⟩ | ⟨rfl, -⟩
      · exact h.same h1 h1' hreq hreq'
      · omega
    · rcases hnew hk' hreq' with ⟨-, hlt⟩ | ⟨-, h1', h2', h3', h4'⟩
      · omega
      · refine ⟨h2.trans h2'.symm, h3.trans h3'.symm, fun hcallee => ?_⟩
        rw [← hcallee] at h4'
        obtain ⟨hlt, hj⟩ := List.getElem?_eq_some_iff.mp h4
        obtain ⟨hlt', hj'⟩ := List.getElem?_eq_some_iff.mp h4'
        have := hnodup.getElem_inj_iff.mp (hj.trans hj'.symm)
        omega
  · simp only [Cluster.send] at he
    rcases lt_or_ge e s.votedNum.length with hlt | hge
    · rw [List.getElem?_append_left hlt] at he
      obtain ⟨V, hV, hall⟩ := h.counted he
      exact ⟨V, hV, fun j hj => (hall j hj).follows g⟩
    · rw [List.getElem?_append_right hge] at he
      have := List.mem_of_getElem? he
      simp only [List.mem_singleton] at this
      exact ⟨∅, by omega, by simp⟩

/-- A reply raises the counter of its election at most by one, for a node not counted before. -/
lemma Tally.complete {id : ℕ} {c : Call} {rep : Reply} (h : Tally s) (g : Follows s s')
    (hc : s.calls[id]? = some c) (hp : c.pending = true) (hrep : (id, rep) ∈ s.replies)
    (hs : Completed s id c rep s') : Tally s' := by
  cases hs with
  | appendEntries hreq hr => exact h.follows g rfl fun he => .inl he
  | installSnapshot hreq => exact h.follows g rfl fun he => .inl he
  | @requestVote args e rep hreq =>
    refine h.follows g (by simp) fun {e' v} he => ?_
    by_cases hee : e' = e
    · subst hee
      have hlt := h.election_lt hc hreq
      set u := s.votedNum.getD e' 0 with hu
      have hold : s.votedNum[e']? = some u := by simp [hu, hlt]
      have hv : v = ((s.nodes c.caller).handleRequestVoteResponse args rep u).2 := by
        simpa [hlt, eq_comm] using he
      rcases (s.nodes c.caller).handleRequestVoteResponse_cases args rep u with
        ⟨-, h1⟩ | h1 | ⟨hterm, -, hargs, hgrant, h1⟩
      · left; rw [hold, hv, h1]
      · left; rw [hold, hv, h1]
      · right
        have hv : v = u + 1 := by
          rcases h1 with h1 | ⟨-, h1⟩ <;> rw [hv, h1]
        obtain ⟨V, hV, hall⟩ := h.counted hold
        have hnot : c.callee ∉ V := by
          intro hmem
          obtain ⟨k, d, args', rep', hd, hdreq, hcallee, hdp, -⟩ := hall _ hmem
          obtain rfl := (h.same hd hc hdreq hreq).2.2 hcallee
          simp [Option.some.inj (hc.symm.trans hd), hdp] at hp
        refine ⟨insert c.callee V, by rw [Finset.card_insert_of_notMem hnot]; omega, ?_⟩
        intro j hj
        rcases Finset.mem_insert.mp hj with rfl | hj
        · have hlt := (List.getElem?_eq_some_iff.mp hc).1
          exact ⟨id, { c with pending := false }, args, rep, by simp [completed, setNode, hlt],
            hreq, rfl, rfl, hrep, hgrant, by omega⟩
        · exact (hall j hj).follows g
    · left
      simpa [List.getElem?_set_ne (Ne.symm hee)] using he

/-- Both invariants hold along every run. -/
theorem tally_step {a : Action} (w : Wired s) (h : Tally s) (hs : s.step a = some s') :
    Tally s' := by
  have g := step_follows w hs
  cases a with
  | doElection i =>
    simp only [Cluster.step] at hs
    split_ifs at hs with hi
    exact h.doElection g hs
  | persistElection i =>
    simp only [Cluster.step] at hs
    split_ifs at hs with hd
    cases hs
    exact h.follows g rfl fun he => .inl he
  | deliver id =>
    obtain ⟨c, hc, hd⟩ := deliver_cases hs
    cases hd <;> exact h.follows g rfl fun he => .inl he
  | resume k stable =>
    obtain ⟨w, r, rep, -, hr, rfl⟩ := resume_cases hs
    exact h.follows g rfl fun he => .inl he
  | complete k =>
    obtain ⟨id, rep, c, hk, hc, hp, hd⟩ := complete_cases hs
    exact h.complete g hc hp (List.mem_of_getElem? hk) hd
  | fail id =>
    obtain ⟨c, hc, rfl⟩ := fail_cases hs
    exact h.follows g rfl fun he => .inl he
  | start i command =>
    simp only [Cluster.step] at hs
    split_ifs at hs with hi
    obtain ⟨r, e, hr, rfl⟩ := start_cases hs
    exact h.follows g rfl fun he => .inl he
  | onLogStable k ok =>
    obtain ⟨i, index, -, rfl⟩ := onLogStable_cases hs
    exact h.follows g rfl fun he => .inl he
  | doHeartBeat i =>
    simp only [Cluster.step] at hs
    split_ifs at hs with hi
    obtain ⟨-, r, requests, snapshots, hr, rfl⟩ := doHeartBeat_cases hs
    exact h.follows g rfl fun he => .inl he
  | leaderSendSnapShot k =>
    obtain ⟨i, peer, hk, rfl⟩ := leaderSendSnapShot_cases hs
    exact h.follows g rfl fun he => .inl he
  | applierTicker i =>
    simp only [Cluster.step] at hs
    split_ifs at hs with hi
    obtain ⟨r, logs, hr, rfl⟩ := applierTicker_cases hs
    exact h.follows g rfl fun he => .inl he
  | push i =>
    obtain ⟨msg, rest, -, rfl⟩ := push_cases hs
    exact h.follows g rfl fun he => .inl he
  | snapshot i index data =>
    simp only [Cluster.step] at hs
    split_ifs at hs with hi
    obtain ⟨r, hr, rfl⟩ := snapshot_cases hs
    exact h.follows g rfl fun he => .inl he
  | restart i logs =>
    simp only [Cluster.step] at hs
    split_ifs at hs with hi
    cases hs
    exact h.follows g rfl fun he => .inl he

end Cluster

end KVCacheRaft
