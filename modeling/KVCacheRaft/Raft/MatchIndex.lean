import KVCacheRaft.Raft.Safety

/-!
# What a leader takes its peers to have

A leader raises `m_matchIndex` when a peer confirms entries, and sets it when a peer answers an
`InstallSnapshot`. As long as no stale entries stay in a log, it never passes what the peer has: the
entries confirmed in the term, or the peer's snapshot, which only moves up.
-/

namespace KVCacheRaft
open Consensus

namespace Raft

variable {r r' : Raft}

/-- The snapshot does not move down, and a leader takes its peers to have what it took them to have
before, or nothing. -/
structure KeepsMatchIndex (r r' : Raft) : Prop where
  snapshot_le : r.lastSnapshotIndex ≤ r'.lastSnapshotIndex
  matchIndex : r'.state = .leader → (∀ j ∈ r.others, r'.matchIndex j = 0) ∨
    r.state = .leader ∧ r'.currentTerm = r.currentTerm ∧ r'.matchIndex = r.matchIndex

namespace KeepsMatchIndex

/-- A node that does not lead has no match indices to keep. -/
lemma follower (hsnap : r.lastSnapshotIndex ≤ r'.lastSnapshotIndex) (hstate : r'.state ≠ .leader) :
    r.KeepsMatchIndex r' := ⟨hsnap, fun hs => absurd hs hstate⟩

/-- What leaves the match indices of a leader keeps them. -/
lemma same (hsnap : r.lastSnapshotIndex ≤ r'.lastSnapshotIndex) (hstate : r'.state = r.state)
    (hterm : r'.currentTerm = r.currentTerm) (hmatch : r'.matchIndex = r.matchIndex) :
    r.KeepsMatchIndex r' := ⟨hsnap, fun hs => .inr ⟨hstate ▸ hs, hterm, hmatch⟩⟩

/-- A node may stay as it is. -/
lemma refl (r : Raft) : r.KeepsMatchIndex r := same (Int.le_refl _) rfl rfl rfl

/-- Storing the state keeps the match indices. -/
lemma persistState (h : r.KeepsMatchIndex r') : r.KeepsMatchIndex r'.persistState :=
  ⟨h.snapshot_le, h.matchIndex⟩

end KeepsMatchIndex

/-- A newer term keeps the match indices. -/
lemma newTerm_keepsMatchIndex (r : Raft) (term : ℕ) : r.KeepsMatchIndex (r.newTerm term) :=
  .follower (Int.le_refl _) nofun

/-- Catching up with a term keeps the match indices. -/
lemma catchUp_keepsMatchIndex (r : Raft) (term : ℕ) : r.KeepsMatchIndex (r.catchUp term) := by
  rw [catchUp]
  split_ifs
  · exact (r.newTerm_keepsMatchIndex term).persistState
  · exact .refl r

/-- `RequestVote` keeps the match indices. -/
lemma requestVote_keepsMatchIndex (r : Raft) (request : RequestVoteArgs) :
    r.KeepsMatchIndex (r.requestVote request).1 := by
  have hc := r.catchUp_keepsMatchIndex request.term
  obtain ⟨-, heq, -⟩ | ⟨-, heq | heq, -⟩ | ⟨-, -, -, heq, -⟩ := r.requestVote_cases request
  · rw [heq]
    exact .refl r
  · rw [heq]
    exact hc
  · rw [heq]
    exact hc.persistState
  · rw [heq]
    exact ⟨hc.snapshot_le, hc.matchIndex⟩

/-- A vote keeps the match indices, or begins with new ones. -/
lemma handleRequestVoteResponse_keepsMatchIndex (r : Raft) (args : RequestVoteArgs)
    (reply : RequestVoteReply) (votedNum : ℕ) :
    r.KeepsMatchIndex (r.handleRequestVoteResponse args reply votedNum).1 := by
  obtain ⟨-, heq⟩ | heq | ⟨-, -, -, -, heq | ⟨-, heq⟩⟩ :=
    r.handleRequestVoteResponse_cases args reply votedNum
  · rw [heq]
    exact (r.newTerm_keepsMatchIndex _).persistState
  · rw [heq]
    exact .refl r
  · rw [heq]
    exact .refl r
  · -- the winner starts from zero
    rw [heq]
    refine ⟨Int.le_refl _, fun _ => .inl fun j hj => ?_⟩
    exact if_pos hj

/-- The first locked part of `AppendEntries` keeps the match indices. -/
lemma appendEntries_keepsMatchIndex {request : AppendEntriesArgs} {phase : AppendPhase}
    (h : r.appendEntries request = .ok (r', phase)) : r.KeepsMatchIndex r' := by
  have hsnap := (r.acceptTerm_frame request.term).lastSnapshotIndex
  have ha : r.KeepsMatchIndex (r.acceptTerm request.term) :=
    .follower hsnap.ge (by rw [acceptTerm_state]; nofun)
  obtain ⟨-, rfl, -⟩ | ⟨-, rfl, -⟩ | ⟨-, rfl, -⟩ := appendEntries_cases h
  · exact .refl r'
  · exact ha.persistState
  · exact ha

/-- The second locked part of `AppendEntries` keeps the match indices. -/
lemma appendEntriesStable_keepsMatchIndex {request : AppendEntriesArgs}
    {pending : List PendingLogWrite} {stable : Bool} {reply : AppendEntriesReply}
    (h : r.appendEntriesStable request pending stable = .ok (r', reply)) : r.KeepsMatchIndex r' := by
  obtain ⟨rfl, -⟩ | ⟨-, -, h⟩ := appendEntriesStable_cases h
  · exact (KeepsMatchIndex.refl r).persistState
  · obtain ⟨logs, last, -, -, rfl, -⟩ := applyEntries_cases h
    exact .same (Int.le_refl _) rfl rfl rfl

/-- A callback of the writer keeps the match indices. -/
lemma onLogStable_keepsMatchIndex (r : Raft) (ok : Bool) (index : ℤ) :
    r.KeepsMatchIndex (r.onLogStable ok index) := by
  rw [onLogStable]
  split_ifs
  · dsimp only
    split_ifs
    · exact .same (Int.le_refl _) rfl rfl rfl
    · exact .refl r
  · exact .refl r
  · exact .same (Int.le_refl _) rfl rfl rfl
  · exact .refl r

/-- `Snapshot` keeps the match indices. -/
lemma snapshot_keepsMatchIndex {index : ℤ} {data : Bytes} (h : r.snapshot index data = .ok r') :
    r.KeepsMatchIndex r' := by
  obtain rfl | ⟨hlt, -, e, -, rfl⟩ := snapshot_cases h
  · exact .refl r'
  · exact .same hlt.le rfl rfl rfl

/-- `InstallSnapshot` keeps the match indices. -/
lemma installSnapshot_keepsMatchIndex {args : InstallSnapshotRequest}
    {reply : InstallSnapshotResponse} (h : r.installSnapshot args = .ok (r', reply)) :
    r.KeepsMatchIndex r' := by
  have hsnap := (r.catchUp_frame args.term).lastSnapshotIndex
  obtain ⟨-, rfl⟩ | ⟨-, rfl⟩ | ⟨-, hlt, rfl⟩ := installSnapshot_cases h
  · exact .refl r'
  · exact .follower hsnap.ge nofun
  · exact .follower hlt.le nofun

/-- A node that does not answer with a later term has a snapshot no older than the one it was sent. -/
lemma installSnapshot_covers {args : InstallSnapshotRequest} {reply : InstallSnapshotResponse}
    (h : r.installSnapshot args = .ok (r', reply)) (hterm : reply.term ≤ args.term) :
    args.lastsnapshotincludeindex ≤ r'.lastSnapshotIndex := by
  rw [installSnapshot] at h
  by_cases hold : args.term < r.currentTerm
  · rw [if_pos hold] at h
    obtain ⟨-, rfl⟩ := Prod.mk.inj (pure_eq_ok.mp h)
    exact absurd hterm (Nat.not_le.mpr hold)
  rw [if_neg hold] at h
  dsimp only at h
  generalize (if args.term > r.currentTerm then (r.newTerm args.term).persistState else r) = t at h
  by_cases hle : args.lastsnapshotincludeindex ≤ t.lastSnapshotIndex
  · rw [if_pos hle] at h
    obtain ⟨rfl, -⟩ := Prod.mk.inj (pure_eq_ok.mp h)
    exact hle
  · rw [if_neg hle] at h
    obtain ⟨u, hu, h⟩ := bind_eq_ok.mp h
    obtain ⟨rfl, -⟩ := Prod.mk.inj (pure_eq_ok.mp h)
    rw [installAccepted_cases hu]
    exact Int.le_refl _

/-- The leader takes the peer to have the snapshot it was sent, unless it answered with a later
term. -/
lemma leaderSendSnapShotHandler_matchIndex (r : Raft) (args : InstallSnapshotRequest)
    (reply : InstallSnapshotResponse) (i : ℕ) :
    r.KeepsMatchIndex (r.leaderSendSnapShotHandler args reply i) ∨
      r.state = .leader ∧ reply.term ≤ args.term ∧
        r.leaderSendSnapShotHandler args reply i =
          { r with
            matchIndex := Function.update r.matchIndex i args.lastsnapshotincludeindex
            nextIndex := Function.update r.nextIndex i (args.lastsnapshotincludeindex + 1) } := by
  rw [leaderSendSnapShotHandler]
  split_ifs with h1 h2
  · exact .inl (.refl r)
  · exact .inl (r.newTerm_keepsMatchIndex _).persistState
  · push Not at h1
    exact .inr ⟨h1.1, by omega, rfl⟩

/-- A reply keeps the match indices or raises one to the end of its request. -/
lemma handleAppendEntries_matchIndex {server : ℕ} {args : AppendEntriesArgs}
    {reply : AppendEntriesReply} (h : r.handleAppendEntries server args reply = .ok r') :
    r.KeepsMatchIndex r' ∨ reply.term = r.currentTerm ∧ r.state = .leader ∧ reply.success = true ∧
      ∃ commitIndex, r' =
        { r.matched server (args.prevlogindex + args.entries.length) with commitIndex } := by
  obtain ⟨-, rfl⟩ | ⟨next, rfl⟩ | ⟨hterm, hs, hsucc, h⟩ := handleAppendEntries_cases h
  · exact .inl (r.newTerm_keepsMatchIndex _)
  · exact .inl (.same (Int.le_refl _) rfl rfl rfl)
  · refine .inr ⟨hterm, hs, hsucc, ?_⟩
    obtain rfl | ⟨index, e, rfl, -⟩ := advanceCommitIndex_cases h
    · exact ⟨_, rfl⟩
    · exact ⟨index, rfl⟩

end Raft

namespace Cluster

variable {s s' t : Cluster} {a a' : Abstract}

/-- A node that answered an `InstallSnapshot`, not with a later term, has the snapshot or one after
it. -/
def Installed (s : Cluster) (k : ℕ) (rep : InstallSnapshotResponse) : Prop :=
  ∃ c, s.calls[k]? = some c ∧ ∀ args, c.request = .installSnapshot args → rep.term ≤ args.term →
    args.lastsnapshotincludeindex ≤ (s.nodes c.callee).lastSnapshotIndex

/-- A leader takes no peer to have more than it confirmed in the term or covers with its snapshot. -/
structure Confirmed (s : Cluster) (a : Abstract) : Prop where
  matchIndex : ∀ i, (s.nodes i).state = .leader → ∀ j, j < s.size → j ≠ i →
    (s.nodes i).matchIndex j ≤
      max (a.ack j (s.nodes i).currentTerm : ℤ) (s.nodes j).lastSnapshotIndex
  installed : ∀ {k rep}, (k, Reply.installSnapshot rep) ∈ s.replies → s.Installed k rep

/-- Nothing is confirmed in a fresh cluster. -/
lemma confirmed_initial (n : ℕ) (a : Abstract) : (initial n).Confirmed a where
  matchIndex i hs := by cases hs
  installed hr := by cases hr

/-- A step of one node after which it still takes its peers to have no more than they have. -/
lemma Confirmed.update {i : ℕ} {r : Raft} (h : s.Confirmed a) (g : Follows s s') (e : Extends a a')
    (hnodes : s'.nodes = Function.update s.nodes i r)
    (hsnap : (s.nodes i).lastSnapshotIndex ≤ r.lastSnapshotIndex)
    (hmatch : r.state = .leader → ∀ j, j < s.size → j ≠ i →
      r.matchIndex j ≤ max (a.ack j r.currentTerm : ℤ) (s.nodes j).lastSnapshotIndex)
    (hreplies : ∀ {k rep}, (k, Reply.installSnapshot rep) ∈ s'.replies →
      (k, Reply.installSnapshot rep) ∈ s.replies ∨ s'.Installed k rep) : s'.Confirmed a' := by
  have hself : s'.nodes i = r := by rw [hnodes, Function.update_self]
  have hother : ∀ j, j ≠ i → s'.nodes j = s.nodes j := fun j hj => by
    rw [hnodes, Function.update_of_ne hj]
  have hmono : ∀ j, (s.nodes j).lastSnapshotIndex ≤ (s'.nodes j).lastSnapshotIndex := by
    intro j
    by_cases hj : j = i
    · subst hj
      rwa [hself]
    · rw [hother j hj]
  constructor
  · intro j hs k hk hkj
    rw [g.size] at hk
    have hold : (s'.nodes j).matchIndex k ≤
        max (a.ack k (s'.nodes j).currentTerm : ℤ) (s.nodes k).lastSnapshotIndex := by
      by_cases hj : j = i
      · subst hj
        rw [hself] at hs ⊢
        exact hmatch hs k hk hkj
      · rw [hother j hj] at hs ⊢
        exact h.matchIndex j hs k hk hkj
    have hack := e.ack k (s'.nodes j).currentTerm
    have hle := hmono k
    omega
  · intro k rep hr
    obtain hr | hr := hreplies hr
    · obtain ⟨c, hc, hinst⟩ := h.installed hr
      obtain ⟨c', hc', hl⟩ := g.old hc
      refine ⟨c', hc', fun args hreq hterm => ?_⟩
      rw [hl.callee]
      exact (hinst args (hl.request ▸ hreq) hterm).trans (hmono _)
    · exact hr

/-- What keeps the match indices keeps them confirmed. -/
lemma Confirmed.keeps {i : ℕ} {r : Raft} (h : s.Confirmed a) (w : Wired s)
    (hr : (s.nodes i).KeepsMatchIndex r) (hs : r.state = .leader) {j : ℕ} (hj : j < s.size)
    (hji : j ≠ i) :
    r.matchIndex j ≤ max (a.ack j r.currentTerm : ℤ) (s.nodes j).lastSnapshotIndex := by
  obtain hzero | ⟨hold, hterm, hmatch⟩ := hr.matchIndex hs
  · rw [hzero j (w.mem_others.mpr ⟨hj, hji⟩)]
    exact le_max_of_le_left (Int.natCast_nonneg _)
  · rw [hterm, hmatch]
    exact h.matchIndex i hold j hj hji

/-- A step of one node that learns nothing of its peers and answers no `InstallSnapshot`. -/
lemma Confirmed.node {i : ℕ} {r : Raft} (h : s.Confirmed a) (w : Wired s) (g : Follows s s')
    (e : Extends a a') (hnodes : s'.nodes = Function.update s.nodes i r)
    (hr : (s.nodes i).KeepsMatchIndex r)
    (hreplies : ∀ {k rep}, (k, Reply.installSnapshot rep) ∈ s'.replies →
      (k, Reply.installSnapshot rep) ∈ s.replies) : s'.Confirmed a' :=
  h.update g e hnodes hr.snapshot_le (fun hs _ hj hji => h.keeps w hr hs hj hji)
    fun hk => .inl (hreplies hk)

/-- A reply that is not one to `InstallSnapshot` is added. -/
lemma mem_replies_of_ne {k : ℕ} {rep : Reply} {l : List (ℕ × Reply)} {id : ℕ}
    {x : InstallSnapshotResponse} (hne : rep ≠ .installSnapshot x)
    (hm : (k, Reply.installSnapshot x) ∈ l ++ [(id, rep)]) : (k, Reply.installSnapshot x) ∈ l := by
  obtain hm | hm := List.mem_append.mp hm
  · exact hm
  · exact absurd (Prod.mk.inj (List.mem_singleton.mp hm)).2.symm hne

/-- Every step keeps the match indices confirmed. -/
theorem confirmed_step {x : Action} (w : Wired s) (h : Sim s a) (hc : s.Confirmed a)
    (e : Extends a a') (hcrash : x.FailureFree) (hs : s.step x = some s') : s'.Confirmed a' := by
  have g := step_follows w hs
  cases x with
  | doElection i =>
    rw [Cluster.step] at hs
    split_ifs at hs
    obtain ⟨-, r, requests, hr, rfl⟩ := doElection_cases hs
    obtain ⟨-, rfl, -⟩ := Raft.doElection_cases hr
    exact hc.node w g e rfl (.follower (Int.le_refl _) fun h => by cases h) id
  | persistElection i =>
    rw [Cluster.step] at hs
    split_ifs at hs
    obtain rfl := Option.some.inj hs
    exact hc.node w g e rfl (Raft.KeepsMatchIndex.refl _).persistState id
  | deliver id =>
    obtain ⟨c, hcall, hd⟩ := deliver_cases hs
    cases hd with
    | requestVote hreq =>
      exact hc.node w g e rfl (Raft.requestVote_keepsMatchIndex _ _) (mem_replies_of_ne fun h => by cases h)
    | @installSnapshot args r rep hreq hr =>
      have hk := Raft.installSnapshot_keepsMatchIndex hr
      refine hc.update g e rfl hk.snapshot_le (fun hs _ hj hji => hc.keeps w hk hs hj hji) ?_
      intro k x hx
      obtain hx | hx := List.mem_append.mp hx
      · exact .inl hx
      · obtain ⟨rfl, heq⟩ := Prod.mk.inj (List.mem_singleton.mp hx)
        obtain rfl := Reply.installSnapshot.inj heq
        refine .inr ⟨c, hcall, fun args' hreq' hterm => ?_⟩
        obtain rfl := Request.installSnapshot.inj (hreq.symm.trans hreq')
        have hnode : ((s.setNode c.callee r).reply k (.installSnapshot x)).nodes c.callee = r :=
          setNode_self _ _
        rw [hnode]
        exact Raft.installSnapshot_covers hr hterm
    | replied hreq hr =>
      exact hc.node w g e rfl (Raft.appendEntries_keepsMatchIndex hr) (mem_replies_of_ne fun h => by cases h)
    | unlocked hreq hr => exact hc.node w g e rfl (Raft.appendEntries_keepsMatchIndex hr) fun hm => hm
  | resume k stable =>
    obtain ⟨q, r, rep, hq, hr, rfl⟩ := resume_cases hs
    exact hc.node w g e rfl (Raft.appendEntriesStable_keepsMatchIndex hr) (mem_replies_of_ne fun h => by cases h)
  | complete k =>
    obtain ⟨id, rep, c, hk, hcall, -, hd⟩ := complete_cases hs
    have hrep := List.mem_of_getElem? hk
    cases hd with
    | requestVote hreq =>
      exact hc.node w g e rfl (Raft.handleRequestVoteResponse_keepsMatchIndex _ _ _ _) fun hm => hm
    | @appendEntries args rep r hreq hr =>
      obtain hr | ⟨hterm, hlead, hsucc, commitIndex, rfl⟩ := Raft.handleAppendEntries_matchIndex hr
      · exact hc.node w g e rfl hr fun hm => hm
      -- the peer has confirmed the entries of the request
      obtain ⟨c', hc', hsim⟩ := h.reply hrep
      obtain rfl := Option.some.inj (hcall.symm.trans hc')
      obtain ⟨hterm', hack⟩ := hsim args hreq hsucc
      refine hc.update (i := c.caller) g e rfl (Int.le_refl _) (fun _ j hj hji => ?_) .inl
      have hold := hc.matchIndex c.caller hlead j hj hji
      by_cases hjc : j = c.callee
      · subst hjc
        have hcur : (s.nodes c.caller).currentTerm = args.term := hterm.symm.trans hterm'
        simp only [Raft.matched, Function.update_self]
        rw [hcur] at hold ⊢
        omega
      · simpa [Raft.matched, Function.update_of_ne hjc] using hold
    | @installSnapshot args rep hreq =>
      obtain hr | ⟨hlead, hterm, hr⟩ :=
        (s.nodes c.caller).leaderSendSnapShotHandler_matchIndex args rep c.callee
      · exact hc.node w g e rfl hr fun hm => hm
      -- the peer has the snapshot, or one after it
      obtain ⟨c', hc', hinst⟩ := hc.installed hrep
      obtain rfl := Option.some.inj (hcall.symm.trans hc')
      have hcovers := hinst args hreq hterm
      refine hc.update (i := c.caller) g e rfl ?_ (fun _ j hj hji => ?_) .inl
      · rw [hr]
      · have hold := hc.matchIndex c.caller hlead j hj hji
        rw [hr]
        by_cases hjc : j = c.callee
        · subst hjc
          simp only [Function.update_self]
          exact le_max_of_le_right hcovers
        · simpa [Function.update_of_ne hjc] using hold
  | fail id =>
    obtain ⟨c, -, rfl⟩ := fail_cases hs
    exact hc.node (i := 0) w g e (Function.update_eq_self 0 s.nodes).symm (.refl _) fun hm => hm
  | start i command =>
    rw [Cluster.step] at hs
    split_ifs at hs
    obtain ⟨r, entry, hr, rfl⟩ := start_cases hs
    obtain ⟨-, -, rfl⟩ := Raft.start_cases hr
    exact hc.node w g e rfl (.same (Int.le_refl _) rfl rfl rfl) fun hm => hm
  | onLogStable k ok =>
    obtain ⟨i, index, -, rfl⟩ := onLogStable_cases hs
    exact hc.node w g e rfl (Raft.onLogStable_keepsMatchIndex _ _ _) fun hm => hm
  | doHeartBeat i =>
    rw [Cluster.step] at hs
    split_ifs at hs
    obtain ⟨-, r, requests, snapshots, hr, rfl⟩ := doHeartBeat_cases hs
    obtain ⟨⟨next, rfl⟩, -, -⟩ := Raft.heartBeatPeers_cases hr
    exact hc.node w g e rfl (.same (Int.le_refl _) rfl rfl rfl) fun hm => hm
  | leaderSendSnapShot k =>
    obtain ⟨i, peer, -, rfl⟩ := leaderSendSnapShot_cases hs
    exact hc.node (i := 0) w g e (Function.update_eq_self 0 s.nodes).symm (.refl _) fun hm => hm
  | applierTicker i =>
    rw [Cluster.step] at hs
    split_ifs at hs
    obtain ⟨r, logs, hr, rfl⟩ := applierTicker_cases hs
    obtain ⟨rfl, -⟩ := Raft.applierTicker_cases hr
    exact hc.node w g e rfl (.same (Int.le_refl _) rfl rfl rfl) fun hm => hm
  | push i =>
    obtain ⟨msg, rest, -, rfl⟩ := push_cases hs
    exact hc.node w g e rfl (.same (Int.le_refl _) rfl rfl rfl) fun hm => hm
  | snapshot i index data =>
    rw [Cluster.step] at hs
    split_ifs at hs
    obtain ⟨r, hr, rfl⟩ := snapshot_cases hs
    exact hc.node w g e rfl (Raft.snapshot_keepsMatchIndex hr) fun hm => hm
  | restart i logs => exact hcrash.elim

/-- What leaders take their peers to have is there along every run of safe steps. -/
theorem confirmed_of_run {n : ℕ} (hr : Run Safe (initial n) s) :
    ∃ a, Wired s ∧ Tally s ∧ Sim s a ∧ s.Confirmed a := by
  induction hr with
  | refl =>
    exact ⟨State.initial, Wired.initial n, Tally.initial n, sim_initial n, confirmed_initial n _⟩
  | step _ hsafe hs ih =>
    obtain ⟨a, w, t, h, hc⟩ := ih
    obtain ⟨a', h', g⟩ := sim_step w t h hsafe hs
    exact ⟨a', w.follows (step_follows w hs), tally_step w t hs, h',
      confirmed_step w h hc g hsafe.1 hs⟩

/-- Every entry that a leader takes a peer of its term to have, and that neither covers with its
snapshot, is in the log of both, of one term and with one command. -/
def MatchIndexSound (s : Cluster) : Prop :=
  ∀ i j, i < s.size → j < s.size → j ≠ i → (s.nodes i).state = .leader →
    (s.nodes j).currentTerm = (s.nodes i).currentTerm →
    ∀ index, (s.nodes i).lastSnapshotIndex < index → (s.nodes j).lastSnapshotIndex < index →
      index ≤ (s.nodes i).matchIndex j → ∃ e x, (s.nodes i).logAt index = .ok e ∧
        (s.nodes j).logAt index = .ok x ∧ x.logterm = e.logterm ∧ x.command = e.command

/-- In every safe run a leader's `m_matchIndex` is confirmed by its peer. -/
theorem matchIndex_sound {n : ℕ} (hr : Run Safe (initial n) s) : MatchIndexSound s := by
  obtain ⟨a, w, -, h, hc⟩ := confirmed_of_run hr
  intro i j hi hj hji hlead hterm index hsi hsj hle
  have hni := h.node i
  have hnj := h.node j
  have hinv := h.reachable.inv
  -- the index lies in what the peer has confirmed
  have hmatch := hc.matchIndex i hlead j hj hji
  have hack : index ≤ a.ack j (a.cur i) := by
    rw [hni.cur] at hmatch
    omega
  have hnonneg := hni.holds.snapshot_nonneg
  obtain ⟨k, rfl⟩ : ∃ k : ℕ, index = k + 1 := ⟨(index - 1).toNat, by omega⟩
  have hlen := hinv.ack_le j (a.cur i)
  obtain ⟨p, e, hp, rfl⟩ := exists_concat_prefix_at (l := a.full (a.cur i)) (k := k) (by omega)
  -- so the prefix that ends there is in the logs of both
  have hpi : p ++ [e] <+: a.log i := h.leader_full hlead ▸ hp
  have hpj : p ++ [e] <+: a.log j := by
    have hcur : a.cur j = a.cur i := by rw [← hnj.cur, hterm, hni.cur]
    have hacked := hinv.acked j
    rw [hcur] at hacked
    refine List.IsPrefix.trans (prefix_of_le hp (List.take_prefix _ _) ?_) hacked
    rw [List.length_take, List.length_append, List.length_singleton]
    omega
  exact ⟨e, e, hni.holds.logAt_concat hpi (by omega), hnj.holds.logAt_concat hpj (by omega), rfl, rfl⟩

set_option maxRecDepth 10000 in
/-- A leader of three nodes hears from one peer. -/
theorem matchIndex_sound_replicated :
    ∃ s ∈ (initial 3).runIf Safe (replicated.take 10), MatchIndexSound s ∧
      (s.nodes 0).state = .leader ∧ (s.nodes 0).matchIndex 1 = 1 ∧
      (s.nodes 1).logs = [{ command := [7], logterm := 1, logindex := 1 }] := by
  have h : ∃ s ∈ (initial 3).runIf Safe (replicated.take 10),
      (s.nodes 0).state = .leader ∧ (s.nodes 0).matchIndex 1 = 1 ∧
      (s.nodes 1).logs = [{ command := [7], logterm := 1, logindex := 1 }] := by decide
  obtain ⟨s, hs, hrest⟩ := h
  exact ⟨s, hs, matchIndex_sound (run_of_runIf hs), hrest⟩

set_option maxRecDepth 10000 in
/-- The leader of term `3` takes node `0` to have its first three entries: the last two are the same,
the first is the one that was overwritten. -/
theorem not_matchIndex_sound_staleSuffix :
    ∃ s, Run FailureFree (initial 5) s ∧ ¬ MatchIndexSound s := by
  have h : ∃ s ∈ (initial 5).runIf FailureFree (staleSuffix.take 47), s.size = 5 ∧
      (s.nodes 4).state = .leader ∧ (s.nodes 0).currentTerm = (s.nodes 4).currentTerm ∧
      (s.nodes 4).lastSnapshotIndex = 0 ∧ (s.nodes 0).lastSnapshotIndex = 0 ∧
      (s.nodes 4).matchIndex 0 = 3 ∧
      (s.nodes 4).logAt 1 = .ok { command := [1], logterm := 1, logindex := 1 } ∧
      (s.nodes 0).logAt 1 = .ok { command := [3], logterm := 2, logindex := 1 } := by decide
  obtain ⟨s, hs, hsize, hlead, hterm, hs4, hs0, hmatch, hat4, hat0⟩ := h
  refine ⟨s, run_of_runIf hs, fun hall => ?_⟩
  obtain ⟨e, x, he, hx, heq, -⟩ := hall 4 0 (by omega) (by omega) (by omega) hlead hterm 1
    (by omega) (by omega) (by omega)
  obtain rfl := Except.ok.inj (hat4.symm.trans he)
  obtain rfl := Except.ok.inj (hat0.symm.trans hx)
  cases heq

end Cluster

end KVCacheRaft
