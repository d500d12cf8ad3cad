import KVCacheRaft.Raft.Election
import KVCacheRaft.Raft.Indices
import KVCacheRaft.Raft.Safety

/-!
# What is final

On a run without crashes no index of a node goes back. When the steps are safe besides, what a node has
committed stays where it is until a snapshot covers it, and no node ever commits anything else there;
and a leader changes nothing that stands in its log.
-/

namespace KVCacheRaft
open Consensus

namespace Raft

variable {r r' : Raft}

/-- A step that keeps the order of the indices and takes none of them back. -/
structure Onward (r r' : Raft) : Prop where
  index : r'.IndexInv
  term : r.currentTerm ≤ r'.currentTerm
  snapshot : r.lastSnapshotIndex ≤ r'.lastSnapshotIndex
  applied : r.lastApplied ≤ r'.lastApplied
  commit : r.commitIndex ≤ r'.commitIndex

/-- A node may stay as it is. -/
lemma Onward.refl (h : r.IndexInv) : r.Onward r :=
  ⟨h, Nat.le_refl _, Int.le_refl _, Int.le_refl _, Int.le_refl _⟩

/-- Going onward is transitive. -/
lemma Onward.trans {t : Raft} (h : r.Onward r') (h' : r'.Onward t) : r.Onward t where
  index := h'.index
  term := Nat.le_trans h.term h'.term
  snapshot := Int.le_trans h.snapshot h'.snapshot
  applied := Int.le_trans h.applied h'.applied
  commit := Int.le_trans h.commit h'.commit

/-- A step that does not touch the log. -/
lemma Onward.touch (h : r.IndexInv) (hterm : r.currentTerm ≤ r'.currentTerm)
    (hlogs : r'.logs = r.logs) (hsnap : r'.lastSnapshotIndex = r.lastSnapshotIndex)
    (happlied : r'.lastApplied = r.lastApplied) (hcommit : r'.commitIndex = r.commitIndex) :
    r.Onward r' :=
  ⟨h.congr hlogs hsnap happlied hcommit, hterm, hsnap.ge, happlied.ge, hcommit.ge⟩

/-- A step that moves neither the snapshot nor what is applied. -/
lemma Onward.of_frame (h : r'.IndexInv ∧ r.commitIndex ≤ r'.commitIndex) (hframe : r.Frame r')
    (hterm : r.currentTerm ≤ r'.currentTerm) : r.Onward r' :=
  ⟨h.1, hterm, hframe.lastSnapshotIndex.ge, hframe.lastApplied.ge, h.2⟩

/-- Who votes has no smaller term. -/
lemma Votes.term_le (h : r.Votes r') : r.currentTerm ≤ r'.currentTerm := by
  obtain hlt | ⟨heq, -⟩ := h.memory
  · exact Nat.le_of_lt hlt
  · exact Nat.le_of_eq heq.symm

/-! ### Handlers -/

/-- Catching up with a term goes onward. -/
lemma catchUp_onward (h : r.IndexInv) (term : ℕ) : r.Onward (r.catchUp term) := by
  rw [catchUp]
  split_ifs with hlt
  · exact .touch h (Nat.le_of_lt hlt) rfl rfl rfl rfl
  · exact .refl h

/-- `RequestVote` goes onward. -/
lemma requestVote_onward (h : r.IndexInv) (request : RequestVoteArgs) :
    r.Onward (r.requestVote request).1 := by
  have hc := catchUp_onward h request.term
  obtain ⟨-, heq, -⟩ | ⟨-, heq | heq, -⟩ | ⟨-, -, -, heq, -⟩ := r.requestVote_cases request
  · rw [heq]
    exact .refl h
  · rw [heq]
    exact hc
  · rw [heq]
    exact hc.trans (.touch hc.index (Nat.le_refl _) rfl rfl rfl rfl)
  · rw [heq]
    exact hc.trans (.touch hc.index (Nat.le_refl _) rfl rfl rfl rfl)

/-- A vote goes onward. -/
lemma handleRequestVoteResponse_onward (h : r.IndexInv) (args : RequestVoteArgs)
    (reply : RequestVoteReply) (votedNum : ℕ) :
    r.Onward (r.handleRequestVoteResponse args reply votedNum).1 := by
  obtain ⟨hgt, heq⟩ | heq | ⟨-, -, -, -, heq | ⟨-, heq⟩⟩ :=
    r.handleRequestVoteResponse_cases args reply votedNum
  · rw [heq]
    exact .touch h (Nat.le_of_lt hgt) rfl rfl rfl rfl
  · rw [heq]
    exact .refl h
  · rw [heq]
    exact .refl h
  · rw [heq]
    exact .touch h (Nat.le_refl _) rfl rfl rfl rfl

/-- A reply to an `AppendEntries` goes onward. -/
lemma handleAppendEntries_onward (h : r.IndexInv) {server : ℕ} {args : AppendEntriesArgs}
    {reply : AppendEntriesReply} (hr : r.handleAppendEntries server args reply = .ok r') :
    r.Onward r' := by
  obtain ⟨hgt, rfl⟩ | ⟨next, rfl⟩ | ⟨-, -, -, hadvance⟩ := handleAppendEntries_cases hr
  · exact .touch h (Nat.le_of_lt hgt) rfl rfl rfl rfl
  · exact .touch h (Nat.le_refl _) rfl rfl rfl rfl
  · have hmatched : (r.matched server (args.prevlogindex + args.entries.length)).IndexInv :=
      h.congr rfl rfl rfl rfl
    obtain ⟨t, ht, hindex, hcommit⟩ := hmatched.advanceCommitIndex
    obtain rfl := Except.ok.inj (hadvance.symm.trans ht)
    obtain rfl | ⟨index, e, rfl, -⟩ := advanceCommitIndex_cases hadvance
    · exact .touch h (Nat.le_refl _) rfl rfl rfl rfl
    · exact ⟨hindex, Nat.le_refl _, Int.le_refl _, Int.le_refl _, hcommit⟩

/-- A reply to a snapshot goes onward. -/
lemma leaderSendSnapShotHandler_onward (h : r.IndexInv) (args : InstallSnapshotRequest)
    (reply : InstallSnapshotResponse) (i : ℕ) :
    r.Onward (r.leaderSendSnapShotHandler args reply i) := by
  obtain heq | ⟨hgt, heq⟩ | ⟨-, -, heq⟩ := r.leaderSendSnapShotHandler_cases args reply i
  · rw [heq]
    exact .refl h
  · rw [heq]
    exact .touch h (Nat.le_of_lt hgt) rfl rfl rfl rfl
  · rw [heq]
    exact .touch h (Nat.le_refl _) rfl rfl rfl rfl

/-- `Snapshot` goes onward. -/
lemma snapshot_onward (h : r.IndexInv) {index : ℤ} {data : Bytes}
    (hr : r.snapshot index data = .ok r') : r.Onward r' := by
  obtain ⟨hindex, hcommit⟩ := h.snapshot hr
  obtain rfl | ⟨hlt, -, e, -, rfl⟩ := snapshot_cases hr
  · exact .refl h
  · exact ⟨hindex, Nat.le_refl _, Int.le_of_lt hlt, Int.le_max_left _ _, hcommit⟩

/-- `InstallSnapshot` goes onward. -/
lemma installSnapshot_onward (h : r.IndexInv) {args : InstallSnapshotRequest}
    {reply : InstallSnapshotResponse} (hr : r.installSnapshot args = .ok (r', reply)) :
    r.Onward r' := by
  obtain ⟨hindex, hcommit⟩ := h.installSnapshot hr
  have hterm := (installSnapshot_quiet hr).term_le
  have hframe := r.catchUp_frame args.term
  obtain ⟨-, rfl⟩ | ⟨-, rfl⟩ | ⟨-, hlt, rfl⟩ := installSnapshot_cases hr
  · exact .refl h
  · exact ⟨hindex, hterm, hframe.lastSnapshotIndex.ge, hframe.lastApplied.ge, hcommit⟩
  · refine ⟨hindex, hterm, Int.le_of_lt hlt, ?_, hcommit⟩
    have happlied : (r.follow args.term).lastApplied = r.lastApplied := hframe.lastApplied
    show r.lastApplied ≤ max (r.follow args.term).lastApplied args.lastsnapshotincludeindex
    rw [happlied]
    exact Int.le_max_left _ _

end Raft

namespace Cluster

variable {n : ℕ} {s s' t : Cluster}

/-! ### Indices -/

/-- A step of one node. -/
lemma onward_of_node (h : ∀ i, (s.nodes i).IndexInv) {i : ℕ} {r : Raft}
    (hnodes : s'.nodes = Function.update s.nodes i r) (hr : (s.nodes i).Onward r) (j : ℕ) :
    (s.nodes j).Onward (s'.nodes j) := by
  rw [hnodes, Function.update_apply]
  split_ifs with hj
  · exact hj ▸ hr
  · exact .refl (h j)

/-- No step but a restart takes an index of a node back. -/
lemma onward_step {a : Action} (h : ∀ i, (s.nodes i).IndexInv) (ha : a.CrashFree)
    (hs : s.step a = some s') (j : ℕ) : (s.nodes j).Onward (s'.nodes j) := by
  cases a with
  | doElection i =>
    simp only [Cluster.step] at hs
    split_ifs at hs
    obtain ⟨-, r, requests, hr, rfl⟩ := doElection_cases hs
    obtain ⟨-, rfl, -⟩ := Raft.doElection_cases hr
    refine onward_of_node h rfl ?_ j
    exact .touch (h i) (Nat.le_succ _) rfl rfl rfl rfl
  | persistElection i =>
    simp only [Cluster.step] at hs
    split_ifs at hs
    cases hs
    refine onward_of_node h rfl ?_ j
    exact .touch (h i) (Nat.le_refl _) rfl rfl rfl rfl
  | deliver id =>
    obtain ⟨c, -, hd⟩ := deliver_cases hs
    have hc := h c.callee
    cases hd with
    | requestVote hreq => exact onward_of_node h rfl (Raft.requestVote_onward hc _) j
    | installSnapshot hreq hr => exact onward_of_node h rfl (Raft.installSnapshot_onward hc hr) j
    | replied hreq hr =>
      exact onward_of_node h rfl (.of_frame (hc.appendEntries hr) (Raft.appendEntries_frame hr)
        (Raft.appendEntries_quiet hr).term_le) j
    | unlocked hreq hr =>
      exact onward_of_node h rfl (.of_frame (hc.appendEntries hr) (Raft.appendEntries_frame hr)
        (Raft.appendEntries_quiet hr).term_le) j
  | resume k stable =>
    obtain ⟨q, r, rep, -, hr, rfl⟩ := resume_cases hs
    obtain ⟨t, reply, ht, hindex⟩ :=
      (h q.node).appendEntriesStable q.args q.pendingWrites stable
    obtain ⟨rfl, -⟩ := Prod.mk.inj (Except.ok.inj (hr.symm.trans ht))
    exact onward_of_node h rfl (.of_frame hindex (Raft.appendEntriesStable_frame hr)
      (Raft.appendEntriesStable_quiet hr).term_le) j
  | complete k =>
    obtain ⟨id, rep, c, -, -, -, hd⟩ := complete_cases hs
    have hc := h c.caller
    cases hd with
    | requestVote hreq => exact onward_of_node h rfl (Raft.handleRequestVoteResponse_onward hc _ _ _) j
    | appendEntries hreq hr => exact onward_of_node h rfl (Raft.handleAppendEntries_onward hc hr) j
    | installSnapshot hreq =>
      exact onward_of_node h rfl (Raft.leaderSendSnapShotHandler_onward hc _ _ _) j
  | fail id =>
    obtain ⟨c, -, rfl⟩ := fail_cases hs
    exact .refl (h j)
  | start i command =>
    simp only [Cluster.step] at hs
    split_ifs at hs
    obtain ⟨r, e, hr, rfl⟩ := start_cases hs
    obtain ⟨hindex, hcommit⟩ := (h i).start hr
    obtain ⟨-, -, rfl⟩ := Raft.start_cases hr
    exact onward_of_node h rfl
      ⟨hindex, Nat.le_refl _, Int.le_refl _, Int.le_refl _, hcommit⟩ j
  | onLogStable k ok =>
    obtain ⟨i, index, -, rfl⟩ := onLogStable_cases hs
    exact onward_of_node h rfl (.of_frame ((h i).onLogStable ok index) (Raft.onLogStable_frame _ _ _)
      (Raft.onLogStable_quiet _ _ _).term_le) j
  | doHeartBeat i =>
    simp only [Cluster.step] at hs
    split_ifs at hs
    obtain ⟨-, r, requests, snapshots, hr, rfl⟩ := doHeartBeat_cases hs
    obtain ⟨⟨next, rfl⟩, -, -⟩ := Raft.heartBeatPeers_cases hr
    refine onward_of_node h rfl ?_ j
    exact .touch (h i) (Nat.le_refl _) rfl rfl rfl rfl
  | leaderSendSnapShot k =>
    obtain ⟨i, peer, -, rfl⟩ := leaderSendSnapShot_cases hs
    exact .refl (h j)
  | applierTicker i =>
    simp only [Cluster.step] at hs
    split_ifs at hs
    obtain ⟨r, logs, hr, rfl⟩ := applierTicker_cases hs
    obtain ⟨hindex, hcommit⟩ := (h i).applierTicker hr
    obtain ⟨rfl, -⟩ := Raft.applierTicker_cases hr
    exact onward_of_node h rfl ⟨hindex, Nat.le_refl _, Int.le_refl _, (h i).applied_le, hcommit⟩ j
  | push i =>
    obtain ⟨msg, rest, -, rfl⟩ := push_cases hs
    refine onward_of_node h rfl ?_ j
    exact .touch (h i) (Nat.le_refl _) rfl rfl rfl rfl
  | snapshot i index data =>
    simp only [Cluster.step] at hs
    split_ifs at hs
    obtain ⟨r, hr, rfl⟩ := snapshot_cases hs
    exact onward_of_node h rfl (Raft.snapshot_onward (h i) hr) j
  | restart i logs => exact ha.elim

/-- In every run without a restart all nodes go onward. -/
lemma onward_run {P : Cluster → Action → Prop} (hP : ∀ s a, P s a → a.CrashFree)
    (h : ∀ i, (s.nodes i).IndexInv) (hr : Run P s t) (j : ℕ) : (s.nodes j).Onward (t.nodes j) := by
  induction hr generalizing j with
  | refl => exact .refl (h j)
  | step _ hp hs ih => exact (ih j).trans (onward_step (fun i => (ih i).index) (hP _ _ hp) hs j)

/-- The indices of a fresh cluster are in order. -/
lemma indexInv_initial (n i : ℕ) : ((initial n).nodes i).IndexInv := Raft.indexInv_init i n

/-- In every run without a restart the indices of every node keep their order, the entries of its log
their places, and no term or index ever goes back. -/
theorem indices_never_go_back (hs : Run CrashFree (initial n) s) (ht : Run CrashFree s t) (i : ℕ) :
    (s.nodes i).IndexInv ∧ (s.nodes i).Onward (t.nodes i) := by
  have hindex : ∀ j, (s.nodes j).IndexInv := fun j =>
    (onward_run (fun _ _ h => h) (indexInv_initial n) hs j).index
  exact ⟨hindex i, onward_run (fun _ _ h => h) hindex ht i⟩

set_option maxRecDepth 10000 in
/-- Node `1` hears that the first entry is committed, applies it and starts an election. -/
theorem indices_never_go_back_replicated :
    ∃ s ∈ (initial 3).runIf CrashFree (replicated.take 10), ∃ t ∈ s.runIf CrashFree (replicated.drop 10),
      (s.nodes 1).lastApplied = 0 ∧ (t.nodes 1).lastApplied = 1 ∧ (s.nodes 1).IndexInv ∧
        (s.nodes 1).Onward (t.nodes 1) := by
  have h : ∃ s ∈ (initial 3).runIf CrashFree (replicated.take 10),
      ∃ t ∈ s.runIf CrashFree (replicated.drop 10),
      (s.nodes 1).lastApplied = 0 ∧ (t.nodes 1).lastApplied = 1 := by decide
  obtain ⟨s, hs, t, ht, happlied, happlied'⟩ := h
  exact ⟨s, hs, t, ht, happlied, happlied',
    indices_never_go_back (run_of_runIf hs) (run_of_runIf ht) 1⟩

/-! ### Safe runs -/

/-- In every safe run all nodes go onward. -/
lemma onward_safe (hs : Run Safe (initial n) s) (ht : Run Safe s t) (i : ℕ) :
    (s.nodes i).Onward (t.nodes i) :=
  onward_run (fun _ _ hsafe => hsafe.1.crashFree)
    (fun j => (onward_run (fun _ _ hsafe => hsafe.1.crashFree) (indexInv_initial n) hs j).index) ht i

/-- A node has committed the entry. -/
def HasCommitted (s : Cluster) (i : ℕ) (index : ℤ) (e : LogEntry) : Prop :=
  index ≤ (s.nodes i).commitIndex ∧ (s.nodes i).logAt index = .ok e

/-- A committed entry ends a settled prefix. -/
lemma HasCommitted.settled {a : Abstract} (hsim : Sim s a) {i : ℕ} {index : ℤ} {e : LogEntry}
    (h : s.HasCommitted i index e) : ∃ q, q ++ [e] <+: a.log i ∧ index = q.length + 1 ∧
      Consensus.Committed (majority s.size) LogEntry.logterm a (a.cur i) (q ++ [e]) := by
  have hn := hsim.node i
  obtain ⟨-, q, hq, hindex⟩ := hn.holds.logAt h.2
  obtain ⟨p, hp, hcommit, hsettled⟩ := hn.commit
  have hle := h.1
  have hqp : q ++ [e] <+: p := prefix_of_le hq hp (by
    simp only [List.length_append, List.length_singleton]
    omega)
  exact ⟨q, hq, hindex, (hsettled.mono (Extends.refl a) (Nat.le_refl _) hqp).resolve_left (by simp)⟩

/-- What a node has committed stays in its log until its snapshot covers it, and no node ever commits
another entry under the index. -/
theorem commit_final (hs : Run Safe (initial n) s) (ht : Run Safe s t) {i : ℕ} {index : ℤ}
    {e : LogEntry} (h : s.HasCommitted i index e) :
    (t.HasCommitted i index e ∨ index ≤ (t.nodes i).lastSnapshotIndex) ∧
      ∀ j x, t.HasCommitted j index x → x = e := by
  obtain ⟨a, w, y, hsim, -⟩ := sim_of_run hs
  obtain ⟨b, -, -, hsim', hextends, hsize⟩ := sim_run w y hsim ht
  have hinv := hsim'.reachable.inv
  obtain ⟨q, -, hindex, hq⟩ := h.settled hsim
  rw [← hsize] at hq
  have hq' := hq.mono hextends (hextends.cur i) List.prefix_rfl
  have honward := onward_safe hs ht i
  constructor
  · obtain ⟨p, hp, hcommit, hsettled⟩ := (hsim'.node i).commit
    have hle : index ≤ (t.nodes i).commitIndex := h.1.trans honward.commit
    have hlen : (q ++ [e]).length ≤ p.length := by
      simp only [List.length_append, List.length_singleton]
      omega
    have hp' := hsettled.resolve_left (by
      rintro rfl
      simp at hlen)
    have hlog := (hinv.committed_agree hq' hp' hlen).trans hp
    by_cases hsnap : (t.nodes i).lastSnapshotIndex ≤ q.length
    · exact .inl ⟨hle, hindex ▸ (hsim'.node i).holds.logAt_concat hlog hsnap⟩
    · exact .inr (by omega)
  · intro j x hx
    obtain ⟨q', -, hindex', hq''⟩ := hx.settled hsim'
    have hlen : (q ++ [e]).length = (q' ++ [x]).length := by
      simp only [List.length_append, List.length_singleton]
      omega
    have heq := (hinv.committed_agree hq' hq'' hlen.le).eq_of_length hlen
    exact (List.singleton_inj.mp (List.append_inj' heq rfl).2).symm

/-- The entry of `replicated`. -/
def seven : LogEntry where
  command := [7]
  logterm := 1
  logindex := 1

set_option maxRecDepth 10000 in
/-- Node `0` commits its entry, and node `1` does when it leads. -/
theorem commit_final_replicated :
    ∃ s ∈ (initial 3).runIf Safe (replicated.take 10), ∃ t ∈ s.runIf Safe (replicated.drop 10),
      (s.HasCommitted 0 1 seven ∧ (t.nodes 1).state = .leader ∧ t.HasCommitted 1 1 seven) ∧
        (t.HasCommitted 0 1 seven ∨ 1 ≤ (t.nodes 0).lastSnapshotIndex) ∧
        ∀ j x, t.HasCommitted j 1 x → x = seven := by
  have h : ∃ s ∈ (initial 3).runIf Safe (replicated.take 10), ∃ t ∈ s.runIf Safe (replicated.drop 10),
      (1 ≤ (s.nodes 0).commitIndex ∧ (s.nodes 0).logAt 1 = .ok seven) ∧
        (t.nodes 1).state = .leader ∧ 1 ≤ (t.nodes 1).commitIndex ∧
        (t.nodes 1).logAt 1 = .ok seven := by decide
  obtain ⟨s, hs, t, ht, hcommitted, hleader, hcommitted'⟩ := h
  exact ⟨s, hs, t, ht, ⟨hcommitted, hleader, hcommitted'⟩,
    commit_final (run_of_runIf hs) (run_of_runIf ht) hcommitted⟩

/-- As long as a node leads in a term it changes nothing in its log, and what any node holds of this
term stands where it stands there. -/
theorem leader_append_only (hs : Run Safe (initial n) s) (ht : Run Safe s t) {i : ℕ}
    (hleader : (s.nodes i).state = .leader) {index : ℤ} {e : LogEntry}
    (he : (s.nodes i).logAt index = .ok e) :
    ((t.nodes i).state = .leader → (t.nodes i).currentTerm = (s.nodes i).currentTerm →
      (t.nodes i).logAt index = .ok e ∨ index ≤ (t.nodes i).lastSnapshotIndex) ∧
      ∀ j x, (t.nodes j).logAt index = .ok x → x.logterm = (s.nodes i).currentTerm → x = e := by
  obtain ⟨a, w, y, hsim, -⟩ := sim_of_run hs
  obtain ⟨b, -, -, hsim', hextends, -⟩ := sim_run w y hsim ht
  have hinv := hsim'.reachable.inv
  have hcur := (hsim.node i).cur
  obtain ⟨-, q, hq, hindex⟩ := (hsim.node i).holds.logAt he
  have hfull : q ++ [e] <+: b.full (s.nodes i).currentTerm := by
    rw [hcur]
    rw [← hsim.leader_full hleader] at hq
    exact hq.trans (hextends.full _)
  constructor
  · intro hleader' hterm
    have hlog : q ++ [e] <+: b.log i := by
      rw [← hterm, (hsim'.node i).cur, hsim'.leader_full hleader'] at hfull
      exact hfull
    by_cases hsnap : (t.nodes i).lastSnapshotIndex ≤ q.length
    · exact .inl (hindex ▸ (hsim'.node i).holds.logAt_concat hlog hsnap)
    · exact .inr (by omega)
  · intro j x hx hterm
    obtain ⟨-, q', hq', hindex'⟩ := (hsim'.node j).holds.logAt hx
    have hroot := (hinv.rooted_log j hq').2
    rw [hterm] at hroot
    have heq := prefix_eq hroot hfull (by
      simp only [List.length_append, List.length_singleton]
      omega)
    exact List.singleton_inj.mp (List.append_inj' heq rfl).2

set_option maxRecDepth 10000 in
/-- Node `0` starts its entry, sends it to node `1`, and leads on. -/
theorem leader_append_only_replicated :
    ∃ s ∈ (initial 3).runIf Safe (replicated.take 5),
      ∃ t ∈ s.runIf Safe ((replicated.drop 5).take 10),
      (t.nodes 1).logAt 1 = .ok seven ∧
        ((t.nodes 0).logAt 1 = .ok seven ∨ 1 ≤ (t.nodes 0).lastSnapshotIndex) ∧
        ∀ j x, (t.nodes j).logAt 1 = .ok x → x.logterm = 1 → x = seven := by
  have h : ∃ s ∈ (initial 3).runIf Safe (replicated.take 5),
      ∃ t ∈ s.runIf Safe ((replicated.drop 5).take 10),
      (s.nodes 0).state = .leader ∧ (s.nodes 0).currentTerm = 1 ∧ (s.nodes 0).logAt 1 = .ok seven ∧
        (t.nodes 1).logAt 1 = .ok seven ∧ (t.nodes 0).state = .leader ∧ (t.nodes 0).currentTerm = 1 := by
    decide
  obtain ⟨s, hs, t, ht, hleader, hterm, he, he', hleader', hterm'⟩ := h
  have hall := leader_append_only (run_of_runIf hs) (run_of_runIf ht) hleader he
  rw [hterm] at hall
  exact ⟨s, hs, t, ht, he', hall.1 hleader' hterm', hall.2⟩

end Cluster

end KVCacheRaft
