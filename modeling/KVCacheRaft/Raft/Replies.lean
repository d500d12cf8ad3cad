import KVCacheRaft.Raft.Heartbeats

/-!
# A leader and the replies to it

One node with the requests it has sent, and the steps that other nodes, clients and its own
write-ahead log make it take. A reply answers a request of this node, and what it carries is what
some follower answers to that request.
-/

namespace KVCacheRaft

open Raft

/-- A node, the calls it has in the air and the entries that it has handed to its log. -/
structure Exchange where
  node : Raft
  /-- requests of `doHeartBeat`, with the peer -/
  sent : List (ℕ × AppendEntriesArgs)
  /-- requests of `leaderSendSnapShot`, with the peer -/
  snapshots : List (ℕ × InstallSnapshotRequest)
  /-- the indices of `Start` that `onLogStable` gets -/
  started : List ℤ

/-- Something that happens to the node. -/
inductive Exchange.Event where
  | doElection
  | handleRequestVoteResponse (args : RequestVoteArgs) (reply : RequestVoteReply) (votedNum : ℕ)
  | requestVote (request : RequestVoteArgs)
  | start (command : Bytes)
  | onLogStable (k : ℕ)
  | appendEntries (request : AppendEntriesArgs)
  | appendEntriesStable (request : AppendEntriesArgs) (pending : List PendingLogWrite)
    (stable : Bool)
  | installSnapshot (args : InstallSnapshotRequest)
  | snapshot (index : ℤ) (data : Bytes)
  | applierTicker
  | doHeartBeat
  | leaderSendSnapShot (peer : ℕ)
  | handleAppendEntries (k : ℕ) (reply : AppendEntriesReply)
  | leaderSendSnapShotHandler (k : ℕ) (reply : InstallSnapshotResponse)

namespace Exchange

/-- The exchange after a function of the node; none when the process died in it. -/
def call (s : Exchange) (node : Except Fault Raft) : Option Exchange :=
  node.toOption.map fun node => { s with node }

/-- What an event does; none when it cannot happen, or when the node dies. -/
def step (s : Exchange) : Event → Option Exchange
  | .doElection => s.node.doElection.map fun (node, _) => { s with node }
  | .handleRequestVoteResponse args reply votedNum =>
    some { s with node := (s.node.handleRequestVoteResponse args reply votedNum).1 }
  | .requestVote request => some { s with node := (s.node.requestVote request).1 }
  | .start command =>
    (s.node.start command).toOption.join.map fun (node, e) =>
      { s with node, started := s.started ++ [e.logindex] }
  | .onLogStable k => s.started[k]?.map fun index => { s with node := s.node.onLogStable true index }
  | .appendEntries request => s.call ((s.node.appendEntries request).map (·.1))
  | .appendEntriesStable request pending stable =>
    s.call ((s.node.appendEntriesStable request pending stable).map (·.1))
  | .installSnapshot args => s.call ((s.node.installSnapshot args).map (·.1))
  | .snapshot index data => s.call (s.node.snapshot index data)
  | .applierTicker => s.call (s.node.applierTicker.map (·.1))
  | .doHeartBeat =>
    if s.node.state ≠ .leader then none
    else (s.node.heartBeatPeers s.node.others).toOption.map fun (node, requests, _) =>
      { s with node, sent := s.sent ++ requests }
  | .leaderSendSnapShot peer =>
    some { s with snapshots := s.snapshots ++ [(peer, s.node.leaderSendSnapShot)] }
  | .handleAppendEntries k reply =>
    s.sent[k]?.bind fun (server, args) => s.call (s.node.handleAppendEntries server args reply)
  | .leaderSendSnapShotHandler k reply =>
    s.snapshots[k]?.map fun (peer, args) =>
      { s with node := s.node.leaderSendSnapShotHandler args reply peer }

/-- A run whose steps all meet `P`. -/
inductive Run (P : Exchange → Event → Prop) (s : Exchange) : Exchange → Prop where
  | refl : Run P s s
  | step {t u : Exchange} {e : Event} : Run P s t → P t e → t.step e = some u → Run P s u

end Exchange

namespace Raft

/-- A follower that runs `AppendEntries` can answer the request so. -/
def CanReply (request : AppendEntriesArgs) (reply : AppendEntriesReply) : Prop :=
  ∃ follower : Raft, follower.IndexInv ∧ 0 ≤ follower.lastSnapshotIndex ∧
    ((∃ s', follower.appendEntries request = .ok (s', .replied reply)) ∨
      ∃ pending stable s', follower.appendEntriesStable request pending stable = .ok (s', reply))

/-- What a rejection carries as `updatenextindex`. -/
def Hint (reply : AppendEntriesReply) : Prop :=
  reply.success = false → reply.updatenextindex = -100 ∨ 1 ≤ reply.updatenextindex

variable {s s' : Raft}

/-- A rejection with a positive hint. -/
lemma hint_rejected {index : ℤ} (h : 1 ≤ index) : Hint (s.rejected index) := fun _ => .inr h

/-- The first index of a conflicting term is positive. -/
lemma one_le_conflictIndex (h : 0 ≤ s.lastSnapshotIndex) {prevTerm k : ℕ} {hint : ℤ}
    (hs : s.conflictIndex prevTerm k = .ok hint) : 1 ≤ hint := by
  induction k with
  | zero =>
    rw [conflictIndex] at hs
    obtain rfl := Except.ok.inj hs
    omega
  | succ k ih =>
    rw [conflictIndex] at hs
    obtain ⟨term, -, hs⟩ := bind_eq_ok.mp hs
    split_ifs at hs
    · obtain rfl := pure_eq_ok.mp hs
      omega
    · exact ih hs

/-- The hint of a check that fails again is positive. -/
lemma one_le_checkPending (hlast : 0 ≤ s.getLastLogIndex)
    {pending : List PendingLogWrite} {last hint : ℤ} (hle : 0 ≤ last)
    (hs : s.checkPending last pending = some hint) : 1 ≤ hint := by
  induction pending generalizing last with
  | nil => cases hs
  | cons item rest ih =>
    rw [checkPending] at hs
    split_ifs at hs
    · exact ih hle hs
    · obtain rfl := Option.some.inj hs
      omega
    · exact ih (by omega) hs
    · obtain rfl := Option.some.inj hs
      omega
    · obtain rfl := Option.some.inj hs
      omega
    · exact ih hle hs

/-- A reply of the first locked part has a hint that a follower can give. -/
lemma hint_appendEntries (h : 0 ≤ s.lastSnapshotIndex) (hlast : 0 ≤ s.getLastLogIndex)
    {request : AppendEntriesArgs} {reply : AppendEntriesReply}
    (hs : s.appendEntries request = .ok (s', .replied reply)) : Hint reply := by
  have hsnap := s.acceptTerm_lastSnapshotIndex request.term
  have hlog := s.acceptTerm_getLastLogIndex request.term
  unfold appendEntries at hs
  simp only at hs
  split_ifs at hs
  · obtain ⟨-, hr⟩ := Prod.mk.inj (pure_eq_ok.mp hs)
    cases hr
    exact fun _ => .inl rfl
  · obtain ⟨-, hr⟩ := Prod.mk.inj (pure_eq_ok.mp hs)
    cases hr
    exact hint_rejected (by omega)
  · obtain ⟨-, hr⟩ := Prod.mk.inj (pure_eq_ok.mp hs)
    cases hr
    exact hint_rejected (by omega)
  · obtain ⟨term, -, hs⟩ := bind_eq_ok.mp hs
    split_ifs at hs
    · obtain ⟨writes, -, hs⟩ := bind_eq_ok.mp hs
      obtain ⟨-, hr⟩ := Prod.mk.inj (pure_eq_ok.mp hs)
      cases hr
    · obtain ⟨hint, hhint, hs⟩ := bind_eq_ok.mp hs
      obtain ⟨-, hr⟩ := Prod.mk.inj (pure_eq_ok.mp hs)
      cases hr
      exact hint_rejected (one_le_conflictIndex (by omega) hhint)

/-- A reply of the second locked part has a hint that a follower can give. -/
lemma hint_appendEntriesStable (h : 0 ≤ s.lastSnapshotIndex) (hlast : 0 ≤ s.getLastLogIndex)
    {request : AppendEntriesArgs} {pending : List PendingLogWrite} {stable : Bool}
    {reply : AppendEntriesReply}
    (hs : s.appendEntriesStable request pending stable = .ok (s', reply)) : Hint reply := by
  have hreject : ∀ {hint : ℤ}, hint = -100 ∨ 1 ≤ hint →
      (pure (s.persistState, s.rejected hint) : Except Fault _) = .ok (s', reply) → Hint reply := by
    intro hint hle hs
    obtain ⟨-, rfl⟩ := Prod.mk.inj (pure_eq_ok.mp hs)
    exact fun _ => hle
  unfold appendEntriesStable at hs
  simp only at hs
  split_ifs at hs
  · exact hreject (.inl rfl) hs
  · exact hreject (.inr (by omega)) hs
  · exact hreject (.inr (by omega)) hs
  · cases hterm : s.termAt request.prevlogindex with
    | error fault =>
      rw [hterm] at hs
      exact hreject (.inr (by omega)) hs
    | ok term =>
      rw [hterm] at hs
      simp only at hs
      split_ifs at hs
      · exact hreject (.inr (by omega)) hs
      · cases hcheck : s.checkPending s.getLastLogIndex pending with
        | some hint =>
          rw [hcheck] at hs
          exact hreject (.inr (one_le_checkPending hlast hlast hcheck)) hs
        | none =>
          rw [hcheck] at hs
          obtain ⟨-, -, -, -, -, -, rfl⟩ := applyEntries_cases hs
          exact fun _ => .inl rfl

/-- Every reply to a request has a hint that a follower can give. -/
lemma CanReply.hint {request : AppendEntriesArgs} {reply : AppendEntriesReply}
    (h : CanReply request reply) : Hint reply := by
  obtain ⟨follower, hindex, hsnap, ⟨s', hs⟩ | ⟨pending, stable, s', hs⟩⟩ := h
  all_goals
    have hlast : 0 ≤ follower.getLastLogIndex := by
      have := hindex.last_eq
      omega
  · exact hint_appendEntries hsnap hlast hs
  · exact hint_appendEntriesStable hsnap hlast hs

/-! ### What the steps keep -/

/-- A vote with which the node becomes leader. -/
def Elects (s : Raft) (args : RequestVoteArgs) (reply : RequestVoteReply) (votedNum : ℕ) : Prop :=
  reply.term = s.currentTerm ∧ s.state = .candidate ∧ args.term = s.currentTerm ∧
    reply.votegranted = true ∧ votedNum + 1 ≥ s.peers / 2 + 1

instance (s : Raft) (args : RequestVoteArgs) (reply : RequestVoteReply) (votedNum : ℕ) :
    Decidable (s.Elects args reply votedNum) := by
  unfold Elects
  infer_instance

/-- A rejection whose hint the node takes over. -/
def TakesHint (s : Raft) (reply : AppendEntriesReply) : Prop :=
  reply.term = s.currentTerm ∧ s.state = .leader ∧ reply.success = false ∧
    reply.updatenextindex ≠ -100

instance (s : Raft) (reply : AppendEntriesReply) : Decidable (s.TakesHint reply) := by
  unfold TakesHint
  infer_instance

end Raft

namespace Exchange

variable {s s' : Exchange}

/-- What holds of a node and its calls. -/
structure Inv (s : Exchange) : Prop where
  bounded : s.node.Bounded
  started : ∀ index ∈ s.started, index ≤ s.node.getLastLogIndex
  matchIndex : ∀ i, s.node.matchIndex i ≤ s.node.stableLogIndex
  sent : ∀ call ∈ s.sent, 0 ≤ call.2.prevlogindex ∧
    call.2.prevlogindex + call.2.entries.length ≤ s.node.stableLogIndex
  snapshots : ∀ call ∈ s.snapshots, 0 ≤ call.2.lastsnapshotincludeindex ∧
    call.2.lastsnapshotincludeindex ≤ s.node.lastSnapshotIndex
  nextIndex : s.node.state = .leader → ∀ i ∈ s.node.others, s.node.NextFits i

/-- The node is elected only with a stable log, and takes over hints up to the next stable index. -/
def Calm (s : Exchange) : Event → Prop
  | .handleRequestVoteResponse args reply votedNum =>
    s.node.Elects args reply votedNum → s.node.getLastLogIndex ≤ s.node.stableLogIndex
  | .handleAppendEntries _ reply =>
    s.node.TakesHint reply → reply.updatenextindex ≤ s.node.stableLogIndex + 1
  | _ => True

instance (s : Exchange) (e : Event) : Decidable (s.Calm e) := by
  unfold Calm
  split <;> infer_instance

/-- The replies are replies to the request. -/
def Answers (s : Exchange) : Event → Prop
  | .handleAppendEntries k reply => ∀ call, s.sent[k]? = some call → CanReply call.2 reply
  | _ => True

/-- A node after `init`. -/
structure Fresh (s : Exchange) : Prop where
  index : s.node.IndexInv
  snapshot_nonneg : 0 ≤ s.node.lastSnapshotIndex
  stable : s.node.stableLogIndex = s.node.getLastLogIndex
  matchIndex : ∀ i, s.node.matchIndex i = 0
  follower : s.node.state = .follower
  sent : s.sent = []
  snapshots : s.snapshots = []
  started : s.started = []

/-- A fresh node satisfies the invariant. -/
lemma Fresh.inv (h : s.Fresh) : s.Inv := by
  have hlast := h.index.last_eq
  have hstable := h.stable
  have hsnap := h.snapshot_nonneg
  refine ⟨⟨h.index, hsnap, by omega, by omega⟩, ?_, ?_, ?_, ?_, ?_⟩
  · rw [h.started]
    exact fun index hi => by cases hi
  · intro i
    rw [h.matchIndex i]
    omega
  · rw [h.sent]
    exact fun call hc => by cases hc
  · rw [h.snapshots]
    exact fun call hc => by cases hc
  · rw [h.follower]
    exact fun hl => by cases hl

/-- A step that leaves what is known of the peers. -/
lemma Inv.grows (h : s.Inv) {node : Raft} (hg : s.node.Grows node) : Inv { s with node } where
  bounded := hg.bounded
  started index hi := Int.le_trans (h.started index hi) hg.last
  matchIndex i := by
    show node.matchIndex i ≤ node.stableLogIndex
    rw [hg.matchIndex]
    exact Int.le_trans (h.matchIndex i) hg.stable
  sent call hc := ⟨(h.sent call hc).1, Int.le_trans (h.sent call hc).2 hg.stable⟩
  snapshots call hc :=
    ⟨(h.snapshots call hc).1, Int.le_trans (h.snapshots call hc).2 hg.snapshot⟩
  nextIndex hl i hi := by
    obtain ⟨hpos, hle⟩ := h.nextIndex (hg.leader hl) i (hg.others ▸ hi)
    have hstable := hg.stable
    have hnext : node.nextIndex i = s.node.nextIndex i := by rw [hg.nextIndex]
    exact ⟨by show 1 ≤ node.nextIndex i; omega,
      by show node.nextIndex i ≤ node.stableLogIndex + 1; omega⟩

/-- A newer term keeps the invariant. -/
lemma Inv.newTerm (h : s.Inv) (term : ℕ) : Inv { s with node := s.node.newTerm term } :=
  h.grows (h.bounded.refl.touch rfl rfl rfl rfl rfl rfl rfl rfl rfl fun hl => by cases hl)

/-- A leader whose log is stable satisfies the invariant. -/
lemma Inv.becomeLeader (h : s.Inv) (hstable : s.node.getLastLogIndex ≤ s.node.stableLogIndex) :
    Inv { s with node := s.node.becomeLeader } := by
  have hb := h.bounded
  have h₁ := hb.snapshot_nonneg
  have h₂ := hb.snapshot_le
  refine ⟨⟨hb.index.congr rfl rfl rfl rfl, h₁, h₂, hb.stable_le⟩, h.started, ?_, h.sent,
    h.snapshots, ?_⟩
  · intro i
    show (if i ∈ s.node.others then 0 else s.node.matchIndex i) ≤ s.node.stableLogIndex
    split_ifs
    · omega
    · exact h.matchIndex i
  · intro _ i hi
    have hnext : s.node.becomeLeader.nextIndex i = s.node.getLastLogIndex + 1 := if_pos hi
    have hle := hb.stable_le
    exact ⟨by show 1 ≤ s.node.becomeLeader.nextIndex i; omega,
      by show s.node.becomeLeader.nextIndex i ≤ s.node.stableLogIndex + 1; omega⟩

/-- An answer to a vote request keeps the invariant. -/
lemma Inv.handleRequestVoteResponse (h : s.Inv) {args : RequestVoteArgs} {reply : RequestVoteReply}
    {votedNum : ℕ}
    (hcalm : s.node.Elects args reply votedNum → s.node.getLastLogIndex ≤ s.node.stableLogIndex) :
    Inv { s with node := (s.node.handleRequestVoteResponse args reply votedNum).1 } := by
  obtain ⟨-, heq⟩ | heq | ⟨hterm, hstate, hargs, hgranted, heq | ⟨hvotes, heq⟩⟩ :=
    s.node.handleRequestVoteResponse_cases args reply votedNum
  · rw [heq]
    have hn := h.newTerm reply.term
    exact hn.grows hn.bounded.refl.persistState
  · rw [heq]
    exact h
  · rw [heq]
    exact h
  · rw [heq]
    have hl := h.becomeLeader (hcalm ⟨hterm, hstate, hargs, hgranted, hvotes⟩)
    exact hl.grows hl.bounded.refl.persistState

/-- A reply that sets what is known of one peer. -/
lemma Inv.update (h : s.Inv) {i : ℕ} {next : ℤ} (hpos : 1 ≤ next)
    (hle : next ≤ s.node.stableLogIndex + 1) :
    Inv { s with node := { s.node with nextIndex := Function.update s.node.nextIndex i next } } where
  bounded := ⟨h.bounded.index.congr rfl rfl rfl rfl, h.bounded.snapshot_nonneg,
    h.bounded.snapshot_le, h.bounded.stable_le⟩
  started := h.started
  matchIndex := h.matchIndex
  sent := h.sent
  snapshots := h.snapshots
  nextIndex hl j hj := by
    by_cases hij : j = i
    · subst hij
      have hnext : Function.update s.node.nextIndex j next j = next := Function.update_self ..
      exact ⟨by show 1 ≤ Function.update s.node.nextIndex j next j; omega,
        by show Function.update s.node.nextIndex j next j ≤ s.node.stableLogIndex + 1; omega⟩
    · have hnext : Function.update s.node.nextIndex i next j = s.node.nextIndex j :=
        Function.update_of_ne hij ..
      obtain ⟨h₁, h₂⟩ := h.nextIndex hl j hj
      exact ⟨by show 1 ≤ Function.update s.node.nextIndex i next j; omega,
        by show Function.update s.node.nextIndex i next j ≤ s.node.stableLogIndex + 1; omega⟩

/-- Raising `m_matchIndex` within the stable entries keeps the invariant. -/
lemma Inv.matched (h : s.Inv) {i : ℕ} {index : ℤ} (hpos : 0 ≤ index)
    (hle : index ≤ s.node.stableLogIndex) :
    Inv { s with node :=
      { s.node with
        matchIndex := Function.update s.node.matchIndex i index
        nextIndex := Function.update s.node.nextIndex i (index + 1) } } := by
  have hu := h.update (i := i) (by omega : 1 ≤ index + 1) (by omega)
  refine ⟨⟨h.bounded.index.congr rfl rfl rfl rfl, h.bounded.snapshot_nonneg,
    h.bounded.snapshot_le, h.bounded.stable_le⟩, h.started, ?_, h.sent, h.snapshots, hu.nextIndex⟩
  intro j
  show Function.update s.node.matchIndex i index j ≤ s.node.stableLogIndex
  by_cases hij : j = i
  · subst hij
    rw [Function.update_self]
    exact hle
  · rw [Function.update_of_ne hij]
    exact h.matchIndex j

/-- A reply to a request that was sent keeps the invariant. -/
lemma Inv.handleAppendEntries (h : s.Inv) {server : ℕ} {args : AppendEntriesArgs}
    {reply : AppendEntriesReply} {node : Raft} (hsent : (server, args) ∈ s.sent)
    (hhint : Hint reply)
    (hcalm : s.node.TakesHint reply → reply.updatenextindex ≤ s.node.stableLogIndex + 1)
    (hs : s.node.handleAppendEntries server args reply = .ok node) : Inv { s with node } := by
  unfold Raft.handleAppendEntries at hs
  simp only at hs
  split_ifs at hs with hgt hlt hstate hsucc hnone hle
  · obtain rfl := pure_eq_ok.mp hs
    exact h.newTerm reply.term
  · obtain rfl := pure_eq_ok.mp hs
    exact h
  · obtain rfl := pure_eq_ok.mp hs
    exact h
  · obtain rfl := pure_eq_ok.mp hs
    have hfail : reply.success = false := by simpa using hsucc
    have hterm : reply.term = s.node.currentTerm := by omega
    have hleader : s.node.state = .leader := not_not.mp hstate
    exact h.update ((hhint hfail).resolve_left hnone) (hcalm ⟨hterm, hleader, hfail, hnone⟩)
  · obtain rfl := pure_eq_ok.mp hs
    exact h
  · obtain ⟨hpos, hbound⟩ : 0 ≤ args.prevlogindex ∧
        args.prevlogindex + args.entries.length ≤ s.node.stableLogIndex := h.sent _ hsent
    have hnonneg : 0 ≤ max (s.node.matchIndex server)
        (args.prevlogindex + args.entries.length) := by omega
    have hm := h.matched (i := server) hnonneg (Int.max_le.mpr ⟨h.matchIndex server, hbound⟩)
    exact hm.grows (hm.bounded.advanceCommitIndex hs)

/-- A reply to a snapshot that was sent keeps the invariant. -/
lemma Inv.leaderSendSnapShotHandler (h : s.Inv) {peer : ℕ} {args : InstallSnapshotRequest}
    (hsent : (peer, args) ∈ s.snapshots) (reply : InstallSnapshotResponse) :
    Inv { s with node := s.node.leaderSendSnapShotHandler args reply peer } := by
  obtain heq | ⟨-, heq⟩ | ⟨-, -, heq⟩ := s.node.leaderSendSnapShotHandler_cases args reply peer
  · rw [heq]
    exact h
  · rw [heq]
    have hn := h.newTerm reply.term
    exact hn.grows hn.bounded.refl.persistState
  · rw [heq]
    obtain ⟨hpos, hle⟩ := h.snapshots _ hsent
    exact h.matched hpos (Int.le_trans hle h.bounded.snapshot_le)

/-- A heartbeat meets no assertion and sends well-formed requests only. -/
lemma Inv.doHeartBeat (h : s.Inv) (hleader : s.node.state = .leader) :
    ∃ requests snapshots,
      s.node.heartBeatPeers s.node.others = .ok (s.node, requests, snapshots) ∧
      ∀ call ∈ requests, s.node.WellFormedRequest call.2 := by
  obtain ⟨requests, snapshots, hr⟩ :=
    heartBeatPeers_ok h.bounded.index h.bounded.stable_le (h.nextIndex hleader)
  refine ⟨requests, snapshots, hr, fun call hc => ?_⟩
  exact ((heartBeatPeers_cases hr).2.1 call.1 call.2 hc).2.wellFormed h.bounded.index

/-- A call of the node that returns. -/
lemma call_eq_some {node : Except Fault Raft} (hs : s.call node = some s') :
    ∃ t, node = .ok t ∧ s' = { s with node := t } := by
  cases node with
  | error fault => cases hs
  | ok t => exact ⟨t, rfl, (Option.some.inj hs).symm⟩

/-- A call of the node that returns, with what it gives. -/
lemma map_eq_ok {α : Type} {node : Except Fault (Raft × α)} {t : Raft}
    (hs : node.map (·.1) = .ok t) : ∃ a, node = .ok (t, a) := by
  cases node with
  | error fault => cases hs
  | ok p =>
    obtain rfl := Except.ok.inj hs
    exact ⟨p.2, rfl⟩

/-- A calm step whose answer a follower can give keeps the invariant. -/
lemma Inv.step (h : s.Inv) {e : Event} (hanswers : s.Answers e) (hcalm : s.Calm e)
    (hs : s.step e = some s') : s'.Inv := by
  cases e with
  | doElection =>
    obtain ⟨⟨node, requests⟩, he, rfl⟩ := Option.map_eq_some_iff.mp hs
    exact h.grows (h.bounded.doElection he)
  | handleRequestVoteResponse args reply votedNum =>
    obtain rfl := Option.some.inj hs
    exact h.handleRequestVoteResponse hcalm
  | requestVote request =>
    obtain rfl := Option.some.inj hs
    exact h.grows (h.bounded.requestVote request)
  | start command =>
    obtain ⟨⟨node, e⟩, he, rfl⟩ := Option.map_eq_some_iff.mp hs
    obtain ⟨hg, hindex⟩ := h.bounded.start (join_toOption_eq_some.mp he)
    have hi := h.grows hg
    refine ⟨hi.bounded, fun index hmem => ?_, hi.matchIndex, hi.sent, hi.snapshots, hi.nextIndex⟩
    obtain hmem | hmem := List.mem_append.mp hmem
    · exact hi.started index hmem
    · obtain rfl := List.mem_singleton.mp hmem
      exact Int.le_of_eq hindex
  | onLogStable k =>
    obtain ⟨index, hindex, rfl⟩ := Option.map_eq_some_iff.mp hs
    exact h.grows (h.bounded.onLogStable (h.started index (List.mem_of_getElem? hindex)))
  | appendEntries request =>
    obtain ⟨t, ht, rfl⟩ := call_eq_some hs
    obtain ⟨phase, hphase⟩ := map_eq_ok ht
    exact h.grows (h.bounded.appendEntries hphase)
  | appendEntriesStable request pending stable =>
    obtain ⟨t, ht, rfl⟩ := call_eq_some hs
    obtain ⟨reply, hreply⟩ := map_eq_ok ht
    exact h.grows (h.bounded.appendEntriesStable hreply)
  | installSnapshot args =>
    obtain ⟨t, ht, rfl⟩ := call_eq_some hs
    obtain ⟨reply, hreply⟩ := map_eq_ok ht
    exact h.grows (h.bounded.installSnapshot hreply)
  | snapshot index data =>
    obtain ⟨t, ht, rfl⟩ := call_eq_some hs
    exact h.grows (h.bounded.snapshot ht)
  | applierTicker =>
    obtain ⟨t, ht, rfl⟩ := call_eq_some hs
    obtain ⟨msgs, hmsgs⟩ := map_eq_ok ht
    exact h.grows (h.bounded.applierTicker hmsgs)
  | doHeartBeat =>
    rw [Exchange.step] at hs
    split_ifs at hs with hleader
    obtain ⟨requests, snapshots, hr, -⟩ := h.doHeartBeat (not_not.mp hleader)
    rw [hr] at hs
    obtain rfl := Option.some.inj hs
    refine ⟨h.bounded, h.started, h.matchIndex, fun call hc => ?_, h.snapshots, h.nextIndex⟩
    obtain hc | hc := List.mem_append.mp hc
    · exact h.sent call hc
    · have hb := ((heartBeatPeers_cases hr).2.1 call.1 call.2 hc).2
      exact ⟨Int.le_trans h.bounded.snapshot_nonneg hb.snapshot_le, Int.le_of_eq hb.length⟩
  | leaderSendSnapShot peer =>
    obtain rfl := Option.some.inj hs
    refine ⟨h.bounded, h.started, h.matchIndex, h.sent, fun call hc => ?_, h.nextIndex⟩
    obtain hc | hc := List.mem_append.mp hc
    · exact h.snapshots call hc
    · obtain rfl := List.mem_singleton.mp hc
      exact ⟨h.bounded.snapshot_nonneg, Int.le_refl _⟩
  | handleAppendEntries k reply =>
    obtain ⟨⟨server, args⟩, hk, hs⟩ := Option.bind_eq_some_iff.mp hs
    obtain ⟨t, ht, rfl⟩ := call_eq_some hs
    exact h.handleAppendEntries (List.mem_of_getElem? hk) (hanswers _ hk).hint hcalm ht
  | leaderSendSnapShotHandler k reply =>
    obtain ⟨⟨peer, args⟩, hk, rfl⟩ := Option.map_eq_some_iff.mp hs
    exact h.leaderSendSnapShotHandler (List.mem_of_getElem? hk) reply

/-- The events of a run that meets the condition on elections and hints. -/
def Admits (s : Exchange) (e : Event) : Prop := s.Answers e ∧ s.Calm e

/-- In every run from a fresh node the invariant holds. -/
lemma Run.inv (h : s.Fresh) (hr : Run Admits s s') : s'.Inv := by
  induction hr with
  | refl => exact h.inv
  | step _ hP hs ih => exact ih.step hP.1 hP.2 hs

/-- The state after some events; none when one is not possible or does not meet `P`. -/
def runIf (P : Exchange → Event → Prop) [∀ s e, Decidable (P s e)] (s : Exchange) :
    List Event → Option Exchange
  | [] => some s
  | e :: rest => if P s e then (s.step e).bind fun t => t.runIf P rest else none

/-- A run may begin with one more step. -/
lemma Run.head {P : Exchange → Event → Prop} {t u : Exchange} {e : Event} (hP : P s e)
    (hs : s.step e = some t) (hr : Run P t u) : Run P s u := by
  induction hr with
  | refl => exact .step .refl hP hs
  | step _ hP' hs' ih => exact .step ih hP' hs'

/-- What is executed is a run. -/
lemma run_of_runIf {P : Exchange → Event → Prop} [∀ s e, Decidable (P s e)] {t : Exchange}
    {events : List Event} (h : s.runIf P events = some t) : Run P s t := by
  induction events generalizing s with
  | nil =>
    cases h
    exact .refl
  | cons e rest ih =>
    rw [runIf] at h
    split_ifs at h with hP
    obtain ⟨u, hu, hrest⟩ := Option.bind_eq_some_iff.mp h
    exact .head hP hu (ih hrest)

/-- A condition on the steps may be weakened. -/
lemma Run.mono {P Q : Exchange → Event → Prop} (hPQ : ∀ s e, P s e → Q s e) (hr : Run P s s') :
    Run Q s s' := by
  induction hr with
  | refl => exact .refl
  | step _ hP hs ih => exact .step ih (hPQ _ _ hP) hs

/-- The first process of node `id`. -/
def initial (id peers : ℕ) : Exchange where
  node := Raft.init id peers {} [] []
  sent := []
  snapshots := []
  started := []

/-- The initial node is fresh. -/
lemma fresh_initial (id peers : ℕ) : (initial id peers).Fresh where
  index := indexInv_init id peers
  snapshot_nonneg := Int.le_refl _
  stable := rfl
  matchIndex _ := rfl
  follower := rfl
  sent := rfl
  snapshots := rfl
  started := rfl

/-- No reply to `AppendEntries` comes in. -/
def Unanswered : Event → Prop
  | .handleAppendEntries .. => False
  | _ => True

instance (e : Event) : Decidable (Unanswered e) := by
  unfold Unanswered
  split <;> infer_instance

/-- Events other than replies answer nothing. -/
lemma answers_of_unanswered (s : Exchange) {e : Event} (h : Unanswered e) : s.Answers e := by
  cases e with
  | handleAppendEntries k reply => exact absurd h id
  | _ => trivial

/-- Node 0 of three is elected in `term` with the vote of one other node. -/
def elected (term : ℕ) : List Event :=
  [.doElection, .handleRequestVoteResponse ⟨term, 0, 0, 0⟩ ⟨term, true, .normal⟩ 1]

/-- A leader whose entry became stable gets the answer of a follower with an empty log. -/
def answered : List Event := elected 1 ++ [.start [5], .onLogStable 0, .doHeartBeat]

/-- A request for an entry on an empty log is answered by a follower with an empty log. -/
lemma canReply_initial : CanReply ⟨1, 0, 0, 0, [⟨[5], 1, 1⟩], 0⟩ ⟨1, true, -100⟩ := by
  refine ⟨(Raft.init 1 3 {} [] []).newTerm 1, (indexInv_init 1 3).congr rfl rfl rfl rfl,
    Int.le_refl _, .inr ⟨[⟨-1, true, ⟨[5], 1, 1⟩⟩], true, ?_⟩⟩
  exact ⟨_, rfl⟩

/-- The leader has sent its entry to both peers, and takes the answer of node 1. -/
lemma exists_answered : ∃ s, Run Admits (initial 0 3) s ∧ s.node.state = .leader ∧
    s.node.matchIndex 1 = 1 := by
  obtain ⟨s, hs⟩ := Option.isSome_iff_exists.mp
    (by decide : ((initial 0 3).runIf (fun s e => Unanswered e ∧ s.Calm e) answered).isSome)
  have hr : Run Admits (initial 0 3) s :=
    (run_of_runIf hs).mono fun s e h => ⟨answers_of_unanswered s h.1, h.2⟩
  have hsent : ∀ s ∈ (initial 0 3).runIf (fun s e => Unanswered e ∧ s.Calm e) answered,
      s.sent[0]? = some (1, ⟨1, 0, 0, 0, [⟨[5], 1, 1⟩], 0⟩) ∧
      ∃ t ∈ s.step (.handleAppendEntries 0 ⟨1, true, -100⟩),
        t.node.state = .leader ∧ t.node.matchIndex 1 = 1 := by decide
  obtain ⟨hcall, t, ht, hleader, hmatch⟩ := hsent s hs
  have hanswers : s.Answers (.handleAppendEntries 0 ⟨1, true, -100⟩) := by
    intro call hc
    obtain rfl := Option.some.inj (hcall.symm.trans hc)
    exact canReply_initial
  have hcalm : s.Calm (.handleAppendEntries 0 ⟨1, true, -100⟩) := by
    intro htakes
    cases htakes.2.2.1
  exact ⟨t, .step hr ⟨hanswers, hcalm⟩ ht, hleader, hmatch⟩

/-- A leader steps down before its entry is stable, and is elected again. -/
def reelected : List Event := elected 1 ++ [.start [5], .requestVote ⟨2, 1, 0, 0⟩] ++ elected 3

end Exchange

end KVCacheRaft
