import KVCacheRaft.Raft.Inversion
import KVCacheRaft.Raft.Cluster

/-!
# What a step of the cluster does

The actions of `Raft.Cluster` by their outcomes, one lemma for each.
-/

namespace KVCacheRaft

namespace Cluster

variable {s s' : Cluster}

@[simp] lemma setNode_self (i : ℕ) (r : Raft) : (s.setNode i r).nodes i = r := by simp [setNode]

/-- Changing one node leaves the others. -/
lemma setNode_ne {i j : ℕ} (h : j ≠ i) (r : Raft) : (s.setNode i r).nodes j = s.nodes j := by
  simp [setNode, h]

@[simp] lemma setNode_setNode (i : ℕ) (r r' : Raft) :
    (s.setNode i r).setNode i r' = s.setNode i r' := by
  simp [setNode]

/-- A call after a `send` is one from before or one of the requests. -/
lemma send_cases {i : ℕ} {requests : List (ℕ × Request)} {k : ℕ} {c : Call}
    (h : (s.send i requests).calls[k]? = some c) :
    s.calls[k]? = some c ∨ s.calls.length ≤ k ∧ ∃ j q,
      requests[k - s.calls.length]? = some (j, q) ∧
      c = { caller := i, callee := j, request := q, pending := true } := by
  rcases lt_or_ge k s.calls.length with hlt | hge
  · exact .inl (by simpa [send, List.getElem?_append_left hlt] using h)
  · simp only [send, List.getElem?_append_right hge, List.getElem?_map,
      Option.map_eq_some_iff] at h
    obtain ⟨⟨j, q⟩, hjq, rfl⟩ := h
    exact .inr ⟨hge, j, q, hjq, rfl⟩

/-! ### The actions by their outcomes -/

/-- A node that can be elected asks the others for their votes. -/
lemma doElection_cases {i : ℕ} (h : s.doElection i = some s') :
    s.deferred i = false ∧ ∃ r requests, (s.nodes i).doElection = some (r, requests) ∧
      s' = Cluster.send
        { s.setNode i r with
          votedNum := s.votedNum ++ [1]
          deferred := Function.update s.deferred i true }
        i (requests.map fun (peer, args) => (peer, .requestVote args s.votedNum.length)) := by
  unfold doElection at h
  split_ifs at h with hd
  cases hr : (s.nodes i).doElection with
  | none => simp [hr] at h
  | some x =>
    rw [hr] at h
    exact ⟨by simpa using hd, x.1, x.2, rfl, (Option.some.inj h).symm⟩

/-- The outcomes of the arrival of the request of call `c`, the one at position `id`. -/
inductive Delivered (s : Cluster) (id : ℕ) (c : Call) : Cluster → Prop where
  | requestVote {args e} :
    c.request = .requestVote args e →
    Delivered s id c ((s.setNode c.callee ((s.nodes c.callee).requestVote args).1).reply id
      (.requestVote ((s.nodes c.callee).requestVote args).2))
  | installSnapshot {args r rep} :
    c.request = .installSnapshot args →
    (s.nodes c.callee).installSnapshot args = .ok (r, rep) →
    Delivered s id c ((s.setNode c.callee r).reply id (.installSnapshot rep))
  | replied {args r rep} :
    c.request = .appendEntries args →
    (s.nodes c.callee).appendEntries args = .ok (r, .replied rep) →
    Delivered s id c ((s.setNode c.callee r).reply id (.appendEntries rep))
  | unlocked {args r pendingWrites} :
    c.request = .appendEntries args →
    (s.nodes c.callee).appendEntries args = .ok (r, .unlocked pendingWrites) →
    Delivered s id c { s.setNode c.callee r with
      handlers := s.handlers ++ [{ call := id, node := c.callee, args, pendingWrites }] }

/-- A request is handled by the handler of its kind. -/
lemma deliver_cases {id : ℕ} (h : s.deliver id = some s') :
    ∃ c, s.calls[id]? = some c ∧ Delivered s id c s' := by
  unfold deliver at h
  cases hc : s.calls[id]? with
  | none => simp [hc] at h
  | some c =>
    rw [hc] at h
    refine ⟨c, rfl, ?_⟩
    cases hreq : c.request with
    | requestVote args e =>
      simp only [hreq, Option.some.injEq] at h
      exact h ▸ .requestVote hreq
    | installSnapshot args =>
      cases hr : (s.nodes c.callee).installSnapshot args with
      | error e => simp [hreq, hr] at h
      | ok x =>
        simp only [hreq, hr, Option.some.injEq] at h
        exact h ▸ .installSnapshot hreq hr
    | appendEntries args =>
      cases hr : (s.nodes c.callee).appendEntries args with
      | error e => simp [hreq, hr] at h
      | ok x =>
        obtain ⟨r, phase⟩ := x
        cases phase with
        | replied rep =>
          simp only [hreq, hr, Option.some.injEq] at h
          exact h ▸ .replied hreq hr
        | unlocked writes =>
          simp only [hreq, hr, Option.some.injEq] at h
          exact h ▸ .unlocked hreq hr

/-- A handler that has lost the lock goes on and replies. -/
lemma resume_cases {k : ℕ} {stable : Bool} (h : s.resume k stable = some s') :
    ∃ w r rep, s.handlers[k]? = some w ∧
      (s.nodes w.node).appendEntriesStable w.args w.pendingWrites stable = .ok (r, rep) ∧
      s' = { s.setNode w.node r with handlers := s.handlers.eraseIdx k }.reply w.call
        (.appendEntries rep) := by
  unfold resume at h
  cases hw : s.handlers[k]? with
  | none => simp [hw] at h
  | some w =>
    cases hr : (s.nodes w.node).appendEntriesStable w.args w.pendingWrites stable with
    | error e => simp [hw, hr] at h
    | ok x =>
      simp only [hw, hr, Option.some.injEq] at h
      exact ⟨w, x.1, x.2, rfl, hr, h.symm⟩

/-- The calls once the one at position `id`, which is `c`, is no longer pending. -/
def completed (s : Cluster) (id : ℕ) (c : Call) : Cluster :=
  { s with calls := s.calls.set id { c with pending := false } }

/-- The outcomes of the arrival of a reply to call `c`, the one at position `id`. -/
inductive Completed (s : Cluster) (id : ℕ) (c : Call) : Reply → Cluster → Prop where
  | requestVote {args e rep} :
    c.request = .requestVote args e →
    Completed s id c (.requestVote rep)
      { (s.completed id c).setNode c.caller
          ((s.nodes c.caller).handleRequestVoteResponse args rep (s.votedNum.getD e 0)).1 with
        votedNum := s.votedNum.set e
          ((s.nodes c.caller).handleRequestVoteResponse args rep (s.votedNum.getD e 0)).2
        elected :=
          if (s.nodes c.caller).state ≠ .leader ∧
              ((s.nodes c.caller).handleRequestVoteResponse args rep
                (s.votedNum.getD e 0)).1.state = .leader then
            s.elected ++ [(c.caller, ((s.nodes c.caller).handleRequestVoteResponse args rep
              (s.votedNum.getD e 0)).1.currentTerm)]
          else s.elected }
  | appendEntries {args rep r} :
    c.request = .appendEntries args →
    (s.nodes c.caller).handleAppendEntries c.callee args rep = .ok r →
    Completed s id c (.appendEntries rep) ((s.completed id c).setNode c.caller r)
  | installSnapshot {args rep} :
    c.request = .installSnapshot args →
    Completed s id c (.installSnapshot rep) ((s.completed id c).setNode c.caller
      ((s.nodes c.caller).leaderSendSnapShotHandler args rep c.callee))

/-- A reply is handled once, by the handler of its call. -/
lemma complete_cases {k : ℕ} (h : s.complete k = some s') :
    ∃ id rep c, s.replies[k]? = some (id, rep) ∧ s.calls[id]? = some c ∧ c.pending = true ∧
      Completed s id c rep s' := by
  unfold complete at h
  cases hk : s.replies[k]? with
  | none => simp [hk] at h
  | some x =>
    obtain ⟨id, rep⟩ := x
    cases hc : s.calls[id]? with
    | none => simp [hk, hc] at h
    | some c =>
      simp only [hk, hc] at h
      split_ifs at h with hp
      refine ⟨id, rep, c, rfl, hc, by simpa using hp, ?_⟩
      obtain ⟨caller, callee, request, pending⟩ := c
      cases request with
      | requestVote args e =>
        cases rep with
        | requestVote rep => exact Option.some.inj h ▸ .requestVote rfl
        | appendEntries rep => simp at h
        | installSnapshot rep => simp at h
      | appendEntries args =>
        cases rep with
        | requestVote rep => simp at h
        | appendEntries rep =>
          cases hr : (s.nodes caller).handleAppendEntries callee args rep with
          | error e => simp [hr] at h
          | ok r =>
            simp only [hr, Option.some.injEq] at h
            exact h ▸ .appendEntries rfl hr
        | installSnapshot rep => simp at h
      | installSnapshot args =>
        cases rep with
        | requestVote rep => simp at h
        | appendEntries rep => simp at h
        | installSnapshot rep => exact Option.some.inj h ▸ .installSnapshot rfl

/-- A call that fails is completed. -/
lemma fail_cases {id : ℕ} (h : s.fail id = some s') :
    ∃ c, s.calls[id]? = some c ∧ s' = s.completed id c := by
  unfold fail at h
  cases hc : s.calls[id]? with
  | none => simp [hc] at h
  | some c =>
    simp only [hc] at h
    split_ifs at h with hp
    exact ⟨c, rfl, (Option.some.inj h).symm⟩

/-- `Start` at a leader appends an entry and leaves its callback to the writer. -/
lemma start_cases {i : ℕ} {command : Bytes} (h : s.start i command = some s') :
    ∃ r e, (s.nodes i).start command = .ok (some (r, e)) ∧
      s' = { s.setNode i r with callbacks := s.callbacks ++ [(i, e.logindex)] } := by
  unfold start at h
  cases hr : (s.nodes i).start command with
  | error fault => simp [hr] at h
  | ok x =>
    cases x with
    | none => simp [hr] at h
    | some x =>
      rw [hr] at h
      exact ⟨x.1, x.2, rfl, (Option.some.inj h).symm⟩

/-- A callback of the writer is run once. -/
lemma onLogStable_cases {k : ℕ} {ok : Bool} (h : s.onLogStable k ok = some s') :
    ∃ i index, s.callbacks[k]? = some (i, index) ∧
      s' = { s.setNode i ((s.nodes i).onLogStable ok index) with
        callbacks := s.callbacks.eraseIdx k } := by
  unfold onLogStable at h
  cases hk : s.callbacks[k]? with
  | none => simp [hk] at h
  | some x =>
    rw [hk] at h
    exact ⟨x.1, x.2, rfl, (Option.some.inj h).symm⟩

/-- The heartbeat of a leader sends requests and starts threads for snapshots. -/
lemma doHeartBeat_cases {i : ℕ} (h : s.doHeartBeat i = some s') :
    (s.nodes i).state = .leader ∧ ∃ r requests snapshots,
      (s.nodes i).heartBeatPeers (s.nodes i).others = .ok (r, requests, snapshots) ∧
      s' = Cluster.send
        { s.setNode i r with
          snapshotThreads := s.snapshotThreads ++ snapshots.map fun peer => (i, peer) }
        i (requests.map fun (peer, args) => (peer, .appendEntries args)) := by
  unfold doHeartBeat at h
  split_ifs at h with hs
  cases hr : (s.nodes i).heartBeatPeers (s.nodes i).others with
  | error e => simp [hr] at h
  | ok x =>
    obtain ⟨r, requests, snapshots⟩ := x
    rw [hr] at h
    exact ⟨by simpa using hs, r, requests, snapshots, rfl, (Option.some.inj h).symm⟩

/-- A thread for a snapshot sends it. -/
lemma leaderSendSnapShot_cases {k : ℕ} (h : s.leaderSendSnapShot k = some s') :
    ∃ i peer, s.snapshotThreads[k]? = some (i, peer) ∧
      s' = Cluster.send { s with snapshotThreads := s.snapshotThreads.eraseIdx k } i
        [(peer, .installSnapshot (s.nodes i).leaderSendSnapShot)] := by
  unfold leaderSendSnapShot at h
  cases hk : s.snapshotThreads[k]? with
  | none => simp [hk] at h
  | some x =>
    rw [hk] at h
    exact ⟨x.1, x.2, rfl, (Option.some.inj h).symm⟩

/-- `applierTicker` copies messages for the server. -/
lemma applierTicker_cases {i : ℕ} (h : s.applierTicker i = some s') :
    ∃ r logs, (s.nodes i).applierTicker = .ok (r, logs) ∧
      s' = { s.setNode i r with copied := Function.update s.copied i logs } := by
  unfold applierTicker at h
  split_ifs at h with hi
  cases hr : (s.nodes i).applierTicker with
  | error e => simp [hr] at h
  | ok x =>
    rw [hr] at h
    exact ⟨x.1, x.2, rfl, (Option.some.inj h).symm⟩

/-- The first copied message is pushed. -/
lemma push_cases {i : ℕ} (h : s.push i = some s') :
    ∃ msg rest, s.copied i = msg :: rest ∧
      s' = { s.setNode i ((s.nodes i).push msg) with
        copied := Function.update s.copied i rest } := by
  unfold push at h
  cases hi : s.copied i with
  | nil => simp [hi] at h
  | cons msg rest =>
    rw [hi] at h
    exact ⟨msg, rest, rfl, (Option.some.inj h).symm⟩

/-- `Snapshot` is a step of its node. -/
lemma snapshot_cases {i : ℕ} {index : ℤ} {data : Bytes} (h : s.snapshot i index data = some s') :
    ∃ r, (s.nodes i).snapshot index data = .ok r ∧ s' = s.setNode i r := by
  unfold snapshot at h
  cases hr : (s.nodes i).snapshot index data with
  | error e => simp [hr] at h
  | ok r =>
    rw [hr] at h
    exact ⟨r, rfl, (Option.some.inj h).symm⟩

end Cluster

end KVCacheRaft
