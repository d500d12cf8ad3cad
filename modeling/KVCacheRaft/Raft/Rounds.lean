import KVCacheRaft.Raft.Lagging
import KVCacheRaft.Raft.Progress

/-!
# Heartbeat rounds between the nodes of a cluster

A round between a leader and one of its peers, as a run of the cluster: the leader sends its heartbeats,
the request or the snapshot arrives at the peer, and its reply at the leader. The other nodes and their
messages can wait.
-/

namespace KVCacheRaft

namespace Raft

variable {r r' : Raft} {i : ℕ} {m : AppendEntriesArgs} {reply : AppendEntriesReply}

/-- What a leader learns from peer `i`: the two indices of that peer, and what is committed. -/
structure Learns (r r' : Raft) (i : ℕ) : Prop where
  eq : r' = { r with
    nextIndex := r'.nextIndex, matchIndex := r'.matchIndex, commitIndex := r'.commitIndex }
  nextIndex : ∀ j, j ≠ i → r'.nextIndex j = r.nextIndex j
  matchIndex : ∀ j, j ≠ i → r'.matchIndex j = r.matchIndex j

/-- A leader may learn nothing. -/
lemma Learns.refl (r : Raft) (i : ℕ) : r.Learns r i := ⟨rfl, fun _ _ => rfl, fun _ _ => rfl⟩

/-- A leader learns indices of one peer, and what is committed. -/
lemma Learns.cases (h : r.Learns r' i) : ∃ nextIndex matchIndex commitIndex,
    r' = { r with nextIndex, matchIndex, commitIndex } ∧
      (∀ j, j ≠ i → nextIndex j = r.nextIndex j) ∧ ∀ j, j ≠ i → matchIndex j = r.matchIndex j :=
  ⟨_, _, _, h.eq, h.nextIndex, h.matchIndex⟩

/-- Indices of one peer are learned. -/
lemma Learns.update (r : Raft) (i : ℕ) (next index : ℤ) :
    r.Learns { r with
      nextIndex := Function.update r.nextIndex i next
      matchIndex := Function.update r.matchIndex i index } i where
  eq := rfl
  nextIndex _ hj := Function.update_of_ne hj _ _
  matchIndex _ hj := Function.update_of_ne hj _ _

/-- A commit index is learned. -/
lemma Learns.commit (h : r.Learns r' i) (index : ℤ) :
    r.Learns { r' with commitIndex := index } i where
  eq := congrArg (fun r' : Raft => { r' with commitIndex := index }) h.eq
  nextIndex := h.nextIndex
  matchIndex := h.matchIndex

/-- A success up to the last index makes the leader look for what to commit. -/
lemma handleAppendEntries_success (hterm : reply.term = r.currentTerm) (hstate : r.state = .leader)
    (hsuccess : reply.success = true) (hmatch : r.matchIndex i ≤ r.getLastLogIndex)
    (hend : m.prevlogindex + m.entries.length = r.getLastLogIndex) :
    r.handleAppendEntries i m reply = (r.matched i r.getLastLogIndex).advanceCommitIndex := by
  have hmax : max (r.matchIndex i) r.getLastLogIndex + 1 ≤
      (r.matched i r.getLastLogIndex).getLastLogIndex + 1 := by
    rw [Int.max_eq_right hmatch]
    exact Int.le_refl _
  rw [handleAppendEntries, if_neg (by omega), if_neg (by omega), if_neg (not_not.mpr hstate),
    if_neg (by rw [hsuccess]; exact Bool.false_ne_true), hend]
  exact if_pos hmax

end Raft

namespace Link

open Raft

variable {s t : Link} {i : ℕ} {done : Bool}

/-- The outcomes of a round. -/
inductive Rounded (s : Link) (i : ℕ) : Link → Bool → Prop where
  | replied {args follower reply leader} :
    s.leader.heartBeatPeer i = .ok (s.leader, some args) →
    s.follower.appendEntries args = .ok (follower, .replied reply) →
    s.leader.handleAppendEntries i args reply = .ok leader →
    Rounded s i { leader, follower } reply.success
  | unlocked {args pending follower follower' reply leader} :
    s.leader.heartBeatPeer i = .ok (s.leader, some args) →
    s.follower.appendEntries args = .ok (follower, .unlocked pending) →
    follower.appendEntriesStable args pending true = .ok (follower', reply) →
    s.leader.handleAppendEntries i args reply = .ok leader →
    Rounded s i { leader, follower := follower' } reply.success
  | installSnapshot {follower reply} :
    s.leader.heartBeatPeer i = .ok (s.leader, none) →
    s.follower.installSnapshot s.leader.leaderSendSnapShot = .ok (follower, reply) →
    Rounded s i
      { leader := s.leader.leaderSendSnapShotHandler s.leader.leaderSendSnapShot reply i, follower }
      false

/-- A round with a peer ends in one of the ways listed. -/
lemma round_cases (h : s.round i = .ok (t, done)) : Rounded s i t done := by
  rw [round] at h
  obtain ⟨⟨leader, request⟩, hrequest, h⟩ := bind_eq_ok.mp h
  obtain rfl := (heartBeatPeer_cases hrequest).1
  cases request with
  | none =>
    obtain ⟨⟨follower, reply⟩, hreply, h⟩ := bind_eq_ok.mp h
    obtain ⟨rfl, rfl⟩ := Prod.mk.inj (pure_eq_ok.mp h)
    exact .installSnapshot hrequest hreply
  | some args =>
    obtain ⟨⟨follower, phase⟩, hfirst, h⟩ := bind_eq_ok.mp h
    cases phase with
    | replied reply =>
      simp only [pure_bind] at h
      obtain ⟨leader, hleader, h⟩ := bind_eq_ok.mp h
      obtain ⟨rfl, rfl⟩ := Prod.mk.inj (pure_eq_ok.mp h)
      exact .replied hrequest hfirst hleader
    | unlocked pending =>
      obtain ⟨⟨follower', reply⟩, hsecond, h⟩ := bind_eq_ok.mp h
      obtain ⟨leader, hleader, h⟩ := bind_eq_ok.mp h
      obtain ⟨rfl, rfl⟩ := Prod.mk.inj (pure_eq_ok.mp h)
      exact .unlocked hrequest hfirst hsecond hleader

/-- A round is the last one, or it brings the follower closer. -/
lemma Lagging.round_next (h : s.Lagging i) :
    (∃ t, s.round i = .ok (t, true) ∧ t.CaughtUp i) ∨
      ∃ t, s.round i = .ok (t, false) ∧ t.Lagging i ∧ t.lag i < s.lag i := by
  obtain ⟨hrequest, hnext⟩ | ⟨args, hrequest, hb, hnext, hprev⟩ := h.heartBeatPeer
  · obtain ⟨t, ht, hlagging, hlt⟩ := h.round_snapshot hrequest hnext
    exact .inr ⟨t, ht, hlagging.1, hlt⟩
  · have hm := hb.sent h.leader
    have hexit : ∀ e ∈ args.entries, ∀ old ∈ s.follower.logs, old.logindex = e.logindex →
        old.logterm = e.logterm → old = e := fun e he old hold hindex hterm =>
      (h.log old hold e (hm.mem_of_entries he) hindex hterm).1
    obtain ⟨follower, phase, hfirst⟩ := appendEntries_ok h.follower hexit
    cases phase with
    | replied reply =>
      obtain ⟨t, ht, hlagging, hlt⟩ := h.round_rejected hrequest hb hnext hprev hfirst
      exact .inr ⟨t, ht, hlagging.1, hlt⟩
    | unlocked pending =>
      obtain ⟨t, ht, hcaught, -⟩ := h.round_success hrequest hb hfirst
      exact .inl ⟨t, ht, hcaught⟩

/-- A round leaves what the leader knows of its other peers; only the last one commits. -/
lemma Lagging.round_leader (h : s.Lagging i) (hround : s.round i = .ok (t, done)) :
    s.leader.Learns t.leader i ∧
      (done = false → t.leader.commitIndex = s.leader.commitIndex) ∧
      (done = true →
        (s.leader.matched i s.leader.getLastLogIndex).advanceCommitIndex = .ok t.leader) := by
  cases round_cases hround with
  | replied hrequest hfirst hhandle =>
    obtain ⟨hb, -⟩ := (heartBeatPeer_cases hrequest).2 _ rfl
    obtain ⟨-, hterm, hfail, hhint⟩ := appendEntries_hint h.follower (hb.term ▸ h.term) hfirst
    have hnonneg := h.follower_nonneg
    have habove := hhint.above
    rw [handleAppendEntries_rejected (hterm.trans hb.term) h.state hfail (by omega)] at hhandle
    obtain rfl := Except.ok.inj hhandle
    refine ⟨⟨rfl, fun j hj => Function.update_of_ne hj _ _, fun j hj => rfl⟩, fun _ => rfl,
      fun hsuccess => ?_⟩
    rw [hfail] at hsuccess
    cases hsuccess
  | unlocked hrequest hfirst hsecond hhandle =>
    obtain ⟨hb, -⟩ := (heartBeatPeer_cases hrequest).2 _ rfl
    obtain ⟨u, reply, hstable, hsuccess, hterm, -⟩ :=
      appendEntries_success h.follower h.log h.leader.aligned (hb.sent h.leader) hfirst
    obtain ⟨rfl, rfl⟩ := Prod.mk.inj (Except.ok.inj (hsecond.symm.trans hstable))
    rw [handleAppendEntries_success (hterm.trans hb.term) h.state hsuccess h.matchIndex
      (hb.length.trans h.stable)] at hhandle
    refine ⟨?_, fun hfail => ?_, fun _ => hhandle⟩
    · have hlearns := Learns.update s.leader i
        (max (s.leader.matchIndex i) s.leader.getLastLogIndex + 1)
        (max (s.leader.matchIndex i) s.leader.getLastLogIndex)
      obtain rfl | ⟨index, e, rfl, -⟩ := advanceCommitIndex_cases hhandle
      · exact hlearns
      · exact hlearns.commit index
    · rw [hsuccess] at hfail
      cases hfail
  | installSnapshot hrequest hinstall =>
    have hterm : s.follower.currentTerm ≤ s.leader.leaderSendSnapShot.term := h.term
    obtain ⟨u, hspec, -⟩ := installSnapshot_spec h.follower hterm
    obtain ⟨rfl, rfl⟩ := Prod.mk.inj (Except.ok.inj (hinstall.symm.trans hspec))
    obtain heq | ⟨hgt, -⟩ | ⟨-, -, heq⟩ := s.leader.leaderSendSnapShotHandler_cases
      s.leader.leaderSendSnapShot { term := s.leader.leaderSendSnapShot.term } i
    · rw [heq]
      exact ⟨.refl s.leader i, fun _ => rfl, fun hfalse => by cases hfalse⟩
    · exact absurd hgt (Nat.lt_irrefl _)
    · rw [heq]
      exact ⟨.update s.leader i _ _, fun _ => rfl, fun hfalse => by cases hfalse⟩

/-- What a leader learns from another peer does not matter for this one. -/
lemma Lagging.learns (h : s.Lagging i) {r : Raft} {j : ℕ} (hlearns : s.leader.Learns r j) (hij : i ≠ j)
    (hindex : r.IndexInv) : ({ s with leader := r } : Link).Lagging i := by
  obtain ⟨nextIndex, matchIndex, commitIndex, rfl, hnext, hmatch⟩ := hlearns.cases
  exact {
    leader := hindex
    leader_nonneg := h.leader_nonneg
    state := h.state
    stable := h.stable
    matchIndex := by
      show matchIndex i ≤ _
      rw [hmatch i hij]
      exact h.matchIndex
    next := by
      show 1 ≤ nextIndex i ∧ nextIndex i ≤ _
      rw [hnext i hij]
      exact h.next
    follower := h.follower
    follower_nonneg := h.follower_nonneg
    term := h.term
    log := h.log
    snapshot_le := h.snapshot_le
    snapshotTerm := h.snapshotTerm }

end Link

namespace Raft

/-- The loop of `doHeartBeat` comes to every peer. -/
lemma heartBeatPeers_mem {r r' : Raft} {i : ℕ} {peers : List ℕ}
    {requests : List (ℕ × AppendEntriesArgs)} {snapshots : List ℕ}
    (h : r.heartBeatPeers peers = .ok (r', requests, snapshots)) (hi : i ∈ peers)
    {request : Option AppendEntriesArgs} (hrequest : r.heartBeatPeer i = .ok (r, request)) :
    (∀ args ∈ request, (i, args) ∈ requests) ∧ (request = none → i ∈ snapshots) := by
  induction peers generalizing r' requests snapshots with
  | nil => cases hi
  | cons j peers ih =>
    rw [heartBeatPeers] at h
    obtain ⟨⟨s, head⟩, hs, htail⟩ := bind_eq_ok.mp h
    obtain ⟨⟨t, requests', snapshots'⟩, ht, hend⟩ := bind_eq_ok.mp htail
    obtain rfl := (heartBeatPeer_cases hs).1
    obtain hji | hi := List.mem_cons.mp hi
    · obtain rfl : request = head := by
        rw [← hji] at hs
        exact (Prod.mk.inj (Except.ok.inj (hrequest.symm.trans hs))).2
      cases request with
      | none =>
        obtain ⟨-, heq⟩ := Prod.mk.inj (pure_eq_ok.mp hend)
        obtain ⟨-, rfl⟩ := Prod.mk.inj heq
        refine ⟨fun args hargs => (by cases hargs), fun _ => ?_⟩
        rw [hji]
        exact List.mem_cons_self
      | some args =>
        obtain ⟨-, heq⟩ := Prod.mk.inj (pure_eq_ok.mp hend)
        obtain ⟨rfl, -⟩ := Prod.mk.inj heq
        refine ⟨fun args' hargs => ?_, fun hnone => by cases hnone⟩
        obtain rfl := Option.some.inj hargs
        rw [hji]
        exact List.mem_cons_self
    · obtain ⟨hrest, hsnap⟩ := ih ht hi
      cases head with
      | none =>
        obtain ⟨-, heq⟩ := Prod.mk.inj (pure_eq_ok.mp hend)
        obtain ⟨rfl, rfl⟩ := Prod.mk.inj heq
        exact ⟨hrest, fun hnone => List.mem_cons_of_mem _ (hsnap hnone)⟩
      | some args =>
        obtain ⟨-, heq⟩ := Prod.mk.inj (pure_eq_ok.mp hend)
        obtain ⟨rfl, rfl⟩ := Prod.mk.inj heq
        exact ⟨fun args' hargs => List.mem_cons_of_mem _ (hrest args' hargs), hsnap⟩

end Raft

namespace Cluster

variable {s t u : Cluster} {c j k : ℕ} {M : Finset ℕ}

/-- Nothing happens but at the nodes of `M` and between them. No process crashes, and what is logged
reaches the disk. -/
def Within (M : Finset ℕ) (s : Cluster) : Action → Prop
  | .doElection i | .persistElection i | .start i _ | .doHeartBeat i | .applierTicker i
  | .push i => i ∈ M
  | .deliver id => ∃ c, s.calls[id]? = some c ∧ c.caller ∈ M ∧ c.callee ∈ M
  | .resume k stable => stable = true ∧ ∃ h, s.handlers[k]? = some h ∧ h.node ∈ M
  | .complete k => ∃ id rep c, s.replies[k]? = some (id, rep) ∧ s.calls[id]? = some c ∧
    c.caller ∈ M ∧ c.callee ∈ M
  | .onLogStable k ok => ok = true ∧ ∃ i index, s.callbacks[k]? = some (i, index) ∧ i ∈ M
  | .leaderSendSnapShot k => ∃ i peer, s.snapshotThreads[k]? = some (i, peer) ∧ i ∈ M ∧ peer ∈ M
  | _ => False

/-- A call that has not completed. -/
def request (c j : ℕ) (request : Request) : Call where
  caller := c
  callee := j
  request
  pending := true

/-- What `doHeartBeat` sends to a peer, in a thread of its own when it is the snapshot. -/
def beat (r : Raft) : Option AppendEntriesArgs → Request
  | some args => .appendEntries args
  | none => .installSnapshot r.leaderSendSnapShot

/-- The leader sends its heartbeats, and so the one for peer `j`. -/
lemma exists_beat (hc : c < s.size) (hcM : c ∈ M) (hjM : j ∈ M) (hstate : (s.nodes c).state = .leader)
    {requests : List (ℕ × AppendEntriesArgs)} {snapshots : List ℕ}
    (hpeers : (s.nodes c).heartBeatPeers (s.nodes c).others = .ok (s.nodes c, requests, snapshots))
    (hj : j ∈ (s.nodes c).others) {beats : Option AppendEntriesArgs}
    (hbeat : (s.nodes c).heartBeatPeer j = .ok (s.nodes c, beats)) :
    ∃ t, Run (Within M) s t ∧ t.size = s.size ∧ t.nodes = s.nodes ∧
      ∃ k : ℕ, t.calls[k]? = some (request c j (beat (s.nodes c) beats)) := by
  obtain ⟨hrequests, hsnapshots⟩ := Raft.heartBeatPeers_mem hpeers hj hbeat
  let t := Cluster.send { s.setNode c (s.nodes c) with
    snapshotThreads := s.snapshotThreads ++ snapshots.map fun peer => (c, peer) } c
      (requests.map fun r => (r.1, .appendEntries r.2))
  have ht : s.step (.doHeartBeat c) = some t := by
    simp only [Cluster.step, if_pos hc, Cluster.doHeartBeat, hstate, hpeers]
    rfl
  have hrun : Run (Within M) s t := .step (a := .doHeartBeat c) .refl hcM ht
  have hnodes : t.nodes = s.nodes := Function.update_eq_self c s.nodes
  cases beats with
  | some args =>
    refine ⟨t, hrun, rfl, hnodes, List.mem_iff_getElem?.mp (List.mem_append_right _ ?_)⟩
    exact List.mem_map.mpr ⟨(j, .appendEntries args),
      List.mem_map.mpr ⟨(j, args), hrequests args rfl, rfl⟩, rfl⟩
  | none =>
    obtain ⟨k, hk⟩ : ∃ k : ℕ, t.snapshotThreads[k]? = some (c, j) :=
      List.mem_iff_getElem?.mp (List.mem_append_right _
        (List.mem_map.mpr ⟨j, hsnapshots rfl, rfl⟩))
    let u := Cluster.send { t with snapshotThreads := t.snapshotThreads.eraseIdx k } c
      [(j, .installSnapshot (t.nodes c).leaderSendSnapShot)]
    have hu : t.step (.leaderSendSnapShot k) = some u := by
      simp only [Cluster.step, Cluster.leaderSendSnapShot, hk]
      rfl
    have hwithin : Within M t (.leaderSendSnapShot k) := ⟨c, j, hk, hcM, hjM⟩
    refine ⟨u, hrun.step hwithin hu, rfl, hnodes, t.calls.length, ?_⟩
    have hlast : u.calls[t.calls.length]? =
        some (request c j (.installSnapshot (t.nodes c).leaderSendSnapShot)) :=
      List.getElem?_concat_length ..
    rw [hlast, hnodes]
    rfl

/-- Peer `j` answers the call at position `k`. -/
structure Replied (s : Cluster) (j k : ℕ) (r : Raft) (reply : Reply) (t : Cluster) : Prop where
  size : t.size = s.size
  nodes : t.nodes = Function.update s.nodes j r
  calls : t.calls = s.calls
  reply : ∃ m : ℕ, t.replies[m]? = some (k, reply)

/-- A request that is refused at once is replied to. -/
lemma exists_replied {args : AppendEntriesArgs} {r : Raft} {reply : AppendEntriesReply}
    (hc : c ∈ M) (hj : j ∈ M) (hk : s.calls[k]? = some (request c j (.appendEntries args)))
    (hr : (s.nodes j).appendEntries args = .ok (r, .replied reply)) :
    ∃ t, Run (Within M) s t ∧ Replied s j k r (.appendEntries reply) t := by
  have ht : s.step (.deliver k) = some ((s.setNode j r).reply k (.appendEntries reply)) := by
    simp only [Cluster.step, Cluster.deliver, hk, request, hr]
  have hwithin : Within M s (.deliver k) := ⟨_, hk, hc, hj⟩
  refine ⟨_, .step .refl hwithin ht, rfl, rfl, rfl, s.replies.length, ?_⟩
  exact List.getElem?_concat_length ..

/-- A request that is written is replied to. -/
lemma exists_replied_unlocked {args : AppendEntriesArgs} {r r' : Raft} {reply : AppendEntriesReply}
    {pending : List PendingLogWrite} (hc : c ∈ M) (hj : j ∈ M)
    (hk : s.calls[k]? = some (request c j (.appendEntries args)))
    (hr : (s.nodes j).appendEntries args = .ok (r, .unlocked pending))
    (hr' : r.appendEntriesStable args pending true = .ok (r', reply)) :
    ∃ t, Run (Within M) s t ∧ Replied s j k r' (.appendEntries reply) t := by
  let w : Handler := { call := k, node := j, args, pendingWrites := pending }
  let t : Cluster := { s.setNode j r with handlers := s.handlers ++ [w] }
  have ht : s.step (.deliver k) = some t := by
    simp only [Cluster.step, Cluster.deliver, hk, request, hr]
    rfl
  have hw : t.handlers[s.handlers.length]? = some w := List.getElem?_concat_length ..
  have hnode : t.nodes j = r := setNode_self _ _
  let u := Cluster.reply { t.setNode j r' with handlers := t.handlers.eraseIdx s.handlers.length } k
    (.appendEntries reply)
  have hu : t.step (.resume s.handlers.length true) = some u := by
    simp only [Cluster.step, Cluster.resume, hw]
    simp only [w, hnode, hr']
    rfl
  have hdeliver : Within M s (.deliver k) := ⟨_, hk, hc, hj⟩
  have hresume : Within M t (.resume s.handlers.length true) := ⟨rfl, w, hw, hj⟩
  refine ⟨u, .step (.step .refl hdeliver ht) hresume hu, rfl, ?_, rfl, s.replies.length, ?_⟩
  · exact Function.update_idem ..
  · exact List.getElem?_concat_length ..

/-- A snapshot request is replied to. -/
lemma exists_replied_snapshot {args : InstallSnapshotRequest} {r : Raft}
    {reply : InstallSnapshotResponse} (hc : c ∈ M) (hj : j ∈ M)
    (hk : s.calls[k]? = some (request c j (.installSnapshot args)))
    (hr : (s.nodes j).installSnapshot args = .ok (r, reply)) :
    ∃ t, Run (Within M) s t ∧ Replied s j k r (.installSnapshot reply) t := by
  have ht : s.step (.deliver k) = some ((s.setNode j r).reply k (.installSnapshot reply)) := by
    simp only [Cluster.step, Cluster.deliver, hk, request, hr]
  have hwithin : Within M s (.deliver k) := ⟨_, hk, hc, hj⟩
  refine ⟨_, .step .refl hwithin ht, rfl, rfl, rfl, s.replies.length, ?_⟩
  exact List.getElem?_concat_length ..

/-- A reply is handled. -/
lemma exists_handled {args : AppendEntriesArgs} {reply : AppendEntriesReply} {r : Raft} {m : ℕ}
    (hc : c ∈ M) (hj : j ∈ M) (hk : s.calls[k]? = some (request c j (.appendEntries args)))
    (hm : s.replies[m]? = some (k, .appendEntries reply))
    (hr : (s.nodes c).handleAppendEntries j args reply = .ok r) :
    ∃ t, Run (Within M) s t ∧ t.size = s.size ∧ t.nodes = Function.update s.nodes c r := by
  have ht : s.step (.complete m) =
      some ((s.completed k (request c j (.appendEntries args))).setNode c r) := by
    simp only [Cluster.step, Cluster.complete, hm, hk]
    simp only [request, Bool.not_true, Bool.false_eq_true, if_false, hr]
    rfl
  have hwithin : Within M s (.complete m) := ⟨_, _, _, hm, hk, hc, hj⟩
  exact ⟨_, .step .refl hwithin ht, rfl, rfl⟩

/-- A reply to a snapshot is handled. -/
lemma exists_handled_snapshot {args : InstallSnapshotRequest} {reply : InstallSnapshotResponse}
    {m : ℕ} (hc : c ∈ M) (hj : j ∈ M)
    (hk : s.calls[k]? = some (request c j (.installSnapshot args)))
    (hm : s.replies[m]? = some (k, .installSnapshot reply)) :
    ∃ t, Run (Within M) s t ∧ t.size = s.size ∧ t.nodes =
      Function.update s.nodes c ((s.nodes c).leaderSendSnapShotHandler args reply j) := by
  have ht : s.step (.complete m) =
      some ((s.completed k (request c j (.installSnapshot args))).setNode c
        ((s.nodes c).leaderSendSnapShotHandler args reply j)) := by
    simp only [Cluster.step, Cluster.complete, hm, hk]
    simp only [request, Bool.not_true, Bool.false_eq_true, if_false]
    rfl
  have hwithin : Within M s (.complete m) := ⟨_, _, _, hm, hk, hc, hj⟩
  exact ⟨_, .step .refl hwithin ht, rfl, rfl⟩

/-- A leader whose heartbeats pass their assertions. -/
structure Beats (s : Cluster) (c : ℕ) : Prop where
  leader : (s.nodes c).state = .leader
  index : (s.nodes c).IndexInv
  stable : (s.nodes c).stableLogIndex ≤ (s.nodes c).getLastLogIndex
  fits : ∀ j ∈ (s.nodes c).others, (s.nodes c).NextFits j

/-- A round of a leader and one of its peers is a run of the cluster. -/
theorem exists_round (h : Beats s c) (hw : Wired s) (hM : M ⊆ Finset.range s.size) (hc : c ∈ M)
    (hj : j ∈ M) (hjc : j ≠ c) {l : Link} {done : Bool}
    (hround : Link.round j { leader := s.nodes c, follower := s.nodes j } = .ok (l, done)) :
    ∃ t, Run (Within M) s t ∧ t.size = s.size ∧
      t.nodes = Function.update (Function.update s.nodes j l.follower) c l.leader := by
  have hcn : c < s.size := Finset.mem_range.mp (hM hc)
  have hjn : j ∈ (s.nodes c).others := hw.mem_others.mpr ⟨Finset.mem_range.mp (hM hj), hjc⟩
  obtain ⟨requests, snapshots, hpeers⟩ := Raft.heartBeatPeers_ok h.index h.stable h.fits
  cases Link.round_cases hround with
  | replied hrequest hfirst hhandle =>
    obtain ⟨t, ht, hsize, hnodes, k, hk⟩ := exists_beat hcn hc hj h.leader hpeers hjn hrequest
    obtain ⟨u, hu, hreplied⟩ := exists_replied hc hj hk (by rw [hnodes]; exact hfirst)
    obtain ⟨m, hm⟩ := hreplied.reply
    have hleader : u.nodes c = s.nodes c := by
      rw [hreplied.nodes, Function.update_of_ne hjc.symm, hnodes]
    obtain ⟨v, hv, hsize', hnodes'⟩ := exists_handled hc hj (hreplied.calls ▸ hk) hm
      (by rw [hleader]; exact hhandle)
    refine ⟨v, (ht.trans hu).trans hv, hsize'.trans (hreplied.size.trans hsize), ?_⟩
    rw [hnodes', hreplied.nodes, hnodes]
  | unlocked hrequest hfirst hsecond hhandle =>
    obtain ⟨t, ht, hsize, hnodes, k, hk⟩ := exists_beat hcn hc hj h.leader hpeers hjn hrequest
    obtain ⟨u, hu, hreplied⟩ :=
      exists_replied_unlocked hc hj hk (by rw [hnodes]; exact hfirst) hsecond
    obtain ⟨m, hm⟩ := hreplied.reply
    have hleader : u.nodes c = s.nodes c := by
      rw [hreplied.nodes, Function.update_of_ne hjc.symm, hnodes]
    obtain ⟨v, hv, hsize', hnodes'⟩ := exists_handled hc hj (hreplied.calls ▸ hk) hm
      (by rw [hleader]; exact hhandle)
    refine ⟨v, (ht.trans hu).trans hv, hsize'.trans (hreplied.size.trans hsize), ?_⟩
    rw [hnodes', hreplied.nodes, hnodes]
  | installSnapshot hrequest hinstall =>
    obtain ⟨t, ht, hsize, hnodes, k, hk⟩ := exists_beat hcn hc hj h.leader hpeers hjn hrequest
    obtain ⟨u, hu, hreplied⟩ := exists_replied_snapshot hc hj hk (by rw [hnodes]; exact hinstall)
    obtain ⟨m, hm⟩ := hreplied.reply
    have hleader : u.nodes c = s.nodes c := by
      rw [hreplied.nodes, Function.update_of_ne hjc.symm, hnodes]
    obtain ⟨v, hv, hsize', hnodes'⟩ :=
      exists_handled_snapshot hc hj (hreplied.calls ▸ hk) hm
    refine ⟨v, (ht.trans hu).trans hv, hsize'.trans (hreplied.size.trans hsize), ?_⟩
    rw [hnodes', hleader, hreplied.nodes, hnodes]

end Cluster

end KVCacheRaft
