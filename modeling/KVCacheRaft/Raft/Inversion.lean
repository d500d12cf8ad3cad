import KVCacheRaft.Raft.Snapshot

/-!
# What a handler can do

One lemma for each handler, listing its outcomes: the branch taken, with what was checked on the way,
the new state and the reply. The invariants are argued from these and do not unfold the handlers.
-/

namespace KVCacheRaft

/-- A sequence of two computations succeeds by both succeeding. -/
lemma bind_eq_ok {α β : Type} {x : Except Fault α} {f : α → Except Fault β} {b : β} :
    x >>= f = .ok b ↔ ∃ a, x = .ok a ∧ f a = .ok b := by
  cases x with
  | error e => simp [bind, Except.bind]
  | ok a => simp [bind, Except.bind]

/-- A sequence of two computations fails by the failure of one of them. -/
lemma bind_eq_error {α β : Type} {x : Except Fault α} {f : α → Except Fault β} {e : Fault} :
    x >>= f = .error e ↔ x = .error e ∨ ∃ a, x = .ok a ∧ f a = .error e := by
  cases x with
  | error e => simp [bind, Except.bind]
  | ok a => simp [bind, Except.bind]

/-- What returns at once gives its argument. -/
lemma pure_eq_ok {α : Type} {a b : α} : (pure a : Except Fault α) = .ok b ↔ a = b := by
  simp [pure, Except.pure]

/-- A result that is kept by `toOption` is not an error. -/
lemma toOption_eq_some {ε α : Type} {x : Except ε α} {a : α} : x.toOption = some a ↔ x = .ok a := by
  cases x <;> simp [Except.toOption]

/-- A computation that may give nothing gives something. -/
lemma join_toOption_eq_some {ε α : Type} {x : Except ε (Option α)} {a : α} :
    x.toOption.join = some a ↔ x = .ok (some a) := by
  rw [Option.join_eq_some_iff, toOption_eq_some]

/-- What returns at once throws nothing. -/
lemma pure_ne_error {α : Type} {a : α} {e : Fault} :
    ¬ (pure a : Except Fault α) = .error e := by
  simp [pure, Except.pure]

@[simp] lemma throw_ne_ok {α : Type} {e : Fault} {b : α} :
    ¬ (throw e : Except Fault α) = .ok b := by
  simp [throw, throwThe, MonadExceptOf.throw]

namespace Raft

variable {r r' : Raft}

/-! ### Elections -/

/-- The request of a node in the election it starts. -/
def candidacy (r : Raft) : RequestVoteArgs where
  term := r.currentTerm + 1
  candidateid := r.id
  lastlogindex := r.getLastLogIndex
  lastlogterm := r.getLastLogTerm

/-- A node that is elected votes for itself in the next term, stores that, and asks every other node. -/
lemma doElection_cases {requests : List (ℕ × RequestVoteArgs)}
    (h : r.doElection = some (r', requests)) :
    r.state ≠ .leader ∧
      r' = { r with state := .candidate, currentTerm := r.currentTerm + 1, voteForId := r.id } ∧
      requests = r.others.map fun i => (i, r.candidacy) := by
  unfold doElection at h
  split_ifs at h with hs
  simp only [Option.some.injEq, Prod.mk.injEq] at h
  obtain ⟨rfl, rfl⟩ := h
  exact ⟨hs, rfl, rfl⟩

/-- The state in which `RequestVote` compares logs and votes. -/
def catchUp (r : Raft) (term : ℕ) : Raft :=
  if term > r.currentTerm then (r.newTerm term).persistState else r

/-- `RequestVote` refuses an old term, refuses in the term of the request, or grants and stores the
vote. -/
lemma requestVote_cases (r : Raft) (request : RequestVoteArgs) :
    request.term < r.currentTerm ∧ (r.requestVote request).1 = r ∧
        (r.requestVote request).2.votegranted = false ∨
      r.currentTerm ≤ request.term ∧
        ((r.requestVote request).1 = r.catchUp request.term ∨
          (r.requestVote request).1 = (r.catchUp request.term).persistState) ∧
        (r.requestVote request).2.votegranted = false ∨
      r.currentTerm ≤ request.term ∧ (r.catchUp request.term).upToDate request = true ∧
        ((r.catchUp request.term).voteForId = -1 ∨
          (r.catchUp request.term).voteForId = request.candidateid) ∧
        (r.requestVote request).1 =
          { r.catchUp request.term with voteForId := request.candidateid }.persistState ∧
        (r.requestVote request).2 =
          { term := (r.catchUp request.term).currentTerm, votegranted := true
            votestate := .normal } := by
  by_cases h1 : request.term < r.currentTerm
  · left
    simp [requestVote, h1]
  right
  have h1' : r.currentTerm ≤ request.term := by omega
  have heq : r.requestVote request =
      (fun s : Raft =>
        if !s.upToDate request then
          (s, { term := s.currentTerm, votegranted := false, votestate := .voted })
        else if s.voteForId ≠ -1 ∧ s.voteForId ≠ request.candidateid then
          (s.persistState, { term := s.currentTerm, votegranted := false, votestate := .voted })
        else
          ({ s with voteForId := request.candidateid }.persistState,
            { term := s.currentTerm, votegranted := true, votestate := .normal }))
        (r.catchUp request.term) := by
    rw [requestVote, if_neg h1]
    rfl
  rw [heq]
  generalize r.catchUp request.term = s
  cases hup : s.upToDate request with
  | false => left; simp [h1', hup]
  | true =>
    by_cases hv : s.voteForId ≠ -1 ∧ s.voteForId ≠ request.candidateid
    · left; simp [h1', hup, hv]
    · right
      exact ⟨h1', rfl, by tauto, by simp [hup, hv], by simp [hup, hv]⟩

/-- An answer makes the node follow a newer term, or counts as one more vote, or is ignored. -/
lemma handleRequestVoteResponse_cases (r : Raft) (args : RequestVoteArgs)
    (reply : RequestVoteReply) (votedNum : ℕ) :
    reply.term > r.currentTerm ∧ r.handleRequestVoteResponse args reply votedNum =
        ((r.newTerm reply.term).persistState, votedNum) ∨
      r.handleRequestVoteResponse args reply votedNum = (r, votedNum) ∨
      reply.term = r.currentTerm ∧ r.state = .candidate ∧ args.term = r.currentTerm ∧
        reply.votegranted = true ∧
        (r.handleRequestVoteResponse args reply votedNum = (r, votedNum + 1) ∨
          votedNum + 1 ≥ r.peers / 2 + 1 ∧
          r.handleRequestVoteResponse args reply votedNum =
            (r.becomeLeader.persistState, votedNum + 1)) := by
  unfold handleRequestVoteResponse
  split_ifs with h1 h2 h3 h4 h5
  · exact .inl ⟨h1, rfl⟩
  · exact .inr (.inl rfl)
  · exact .inr (.inl rfl)
  · exact .inr (.inl rfl)
  · push Not at h3
    exact .inr (.inr ⟨by omega, h3.1, h3.2, by simpa using h4, .inr ⟨h5, rfl⟩⟩)
  · push Not at h3
    exact .inr (.inr ⟨by omega, h3.1, h3.2, by simpa using h4, .inl rfl⟩)

/-! ### The follower's log -/

/-- The node follows, its term does not shrink, and nothing else changes but its vote. -/
lemma acceptTerm_eq (r : Raft) (term : ℕ) :
    r.acceptTerm term = { r with
      state := .follower
      currentTerm := max r.currentTerm term
      voteForId := if term > r.currentTerm then -1 else r.voteForId } := by
  unfold acceptTerm
  split_ifs with hlt
  · rw [Nat.max_eq_right (Nat.le_of_lt hlt)]
  · rw [Nat.max_eq_left (Nat.not_lt.mp hlt)]

@[simp] lemma acceptTerm_state (r : Raft) (term : ℕ) : (r.acceptTerm term).state = .follower := by
  rw [acceptTerm_eq]

@[simp] lemma acceptTerm_currentTerm (r : Raft) (term : ℕ) :
    (r.acceptTerm term).currentTerm = max r.currentTerm term := by
  rw [acceptTerm_eq]

@[simp] lemma acceptTerm_logs (r : Raft) (term : ℕ) : (r.acceptTerm term).logs = r.logs := by
  rw [acceptTerm_eq]

@[simp] lemma acceptTerm_lastSnapshotIndex (r : Raft) (term : ℕ) :
    (r.acceptTerm term).lastSnapshotIndex = r.lastSnapshotIndex := by
  rw [acceptTerm_eq]

@[simp] lemma acceptTerm_lastSnapshotTerm (r : Raft) (term : ℕ) :
    (r.acceptTerm term).lastSnapshotTerm = r.lastSnapshotTerm := by
  rw [acceptTerm_eq]

@[simp] lemma acceptTerm_commitIndex (r : Raft) (term : ℕ) :
    (r.acceptTerm term).commitIndex = r.commitIndex := by
  rw [acceptTerm_eq]

@[simp] lemma acceptTerm_stableLogIndex (r : Raft) (term : ℕ) :
    (r.acceptTerm term).stableLogIndex = r.stableLogIndex := by
  rw [acceptTerm_eq]

@[simp] lemma acceptTerm_fmp (r : Raft) (term : ℕ) : (r.acceptTerm term).fmp = r.fmp := by
  rw [acceptTerm_eq]

@[simp] lemma acceptTerm_getLastLogIndex (r : Raft) (term : ℕ) :
    (r.acceptTerm term).getLastLogIndex = r.getLastLogIndex := by
  rw [acceptTerm_eq]
  rfl

@[simp] lemma acceptTerm_termAt (r : Raft) (term : ℕ) (index : ℤ) :
    (r.acceptTerm term).termAt index = r.termAt index := by
  rw [acceptTerm_eq]
  rfl

/-- The first locked part replies in the old term, replies with a hint, or has entries to write. -/
lemma appendEntries_cases {request : AppendEntriesArgs} {phase : AppendPhase}
    (h : r.appendEntries request = .ok (r', phase)) :
    request.term < r.currentTerm ∧ r' = r ∧ phase = .replied (r.rejected (-100)) ∨
      r.currentTerm ≤ request.term ∧ r' = (r.acceptTerm request.term).persistState ∧
        (∃ hint, phase = .replied ((r.acceptTerm request.term).rejected hint)) ∨
      r.currentTerm ≤ request.term ∧ r' = r.acceptTerm request.term ∧
        r'.lastSnapshotIndex ≤ request.prevlogindex ∧
        r'.termAt request.prevlogindex = .ok request.prevlogterm ∧
        ∃ writes, r'.pendingWrites r'.getLastLogIndex request.entries = .ok writes ∧
          phase = .unlocked writes := by
  unfold appendEntries at h
  simp only at h
  split_ifs at h with h1 h2 h3
  · obtain ⟨rfl, rfl⟩ := Prod.mk.inj (pure_eq_ok.mp h)
    exact .inl ⟨h1, rfl, rfl⟩
  · obtain ⟨rfl, rfl⟩ := Prod.mk.inj (pure_eq_ok.mp h)
    exact .inr (.inl ⟨by omega, rfl, _, rfl⟩)
  · obtain ⟨rfl, rfl⟩ := Prod.mk.inj (pure_eq_ok.mp h)
    exact .inr (.inl ⟨by omega, rfl, _, rfl⟩)
  · obtain ⟨t, ht, h⟩ := bind_eq_ok.mp h
    split_ifs at h with h4
    · obtain ⟨writes, hw, h⟩ := bind_eq_ok.mp h
      obtain ⟨rfl, rfl⟩ := Prod.mk.inj (pure_eq_ok.mp h)
      exact .inr (.inr ⟨by omega, rfl, by omega, h4 ▸ ht, writes, hw, rfl⟩)
    · obtain ⟨hint, -, h⟩ := bind_eq_ok.mp h
      obtain ⟨rfl, rfl⟩ := Prod.mk.inj (pure_eq_ok.mp h)
      exact .inr (.inl ⟨by omega, rfl, hint, rfl⟩)

/-- Looking up a term does not exit. -/
lemma termAt_ne_exit (r : Raft) (index : ℤ) : r.termAt index ≠ .error .exit := by
  unfold termAt logAt vecGet
  split_ifs
  · simp
  · simp [Except.map]
  · cases r.logs[(index - r.lastSnapshotIndex - 1).toNat]? <;> simp [Except.map]

/-- The loop back to the first entry of the conflicting term does not exit. -/
lemma conflictIndex_ne_exit (r : Raft) (prevTerm k : ℕ) :
    r.conflictIndex prevTerm k ≠ .error .exit := by
  induction k with
  | zero => simp [conflictIndex]
  | succ k ih =>
    rw [conflictIndex]
    intro h
    rcases bind_eq_error.mp h with h | ⟨t, -, h⟩
    · exact r.termAt_ne_exit _ h
    · split_ifs at h
      · exact pure_ne_error h
      · exact ih h

/-- A handler that releases the lock leaves the node in the term of its request. -/
lemma appendEntries_unlocked_term {request : AppendEntriesArgs} {pending : List PendingLogWrite}
    (h : r.appendEntries request = .ok (r', .unlocked pending)) : r'.currentTerm = request.term := by
  obtain ⟨-, -, hphase⟩ | ⟨-, -, hint, hphase⟩ | ⟨hterm, rfl, -⟩ := appendEntries_cases h
  · cases hphase
  · cases hphase
  · rw [acceptTerm_currentTerm, Nat.max_eq_right hterm]

/-- The `exit(-1)` comes from the loop over the entries, after the previous entry has matched. -/
lemma appendEntries_exit {request : AppendEntriesArgs}
    (h : r.appendEntries request = .error .exit) :
    (r.acceptTerm request.term).termAt request.prevlogindex = .ok request.prevlogterm ∧
      (r.acceptTerm request.term).pendingWrites (r.acceptTerm request.term).getLastLogIndex
        request.entries = .error .exit := by
  unfold appendEntries at h
  simp only at h
  split_ifs at h with h1 h2 h3
  · exact absurd h pure_ne_error
  · exact absurd h pure_ne_error
  · exact absurd h pure_ne_error
  rcases bind_eq_error.mp h with h | ⟨t, ht, h⟩
  · exact absurd h (termAt_ne_exit _ _)
  · split_ifs at h with h4
    · rcases bind_eq_error.mp h with h | ⟨writes, -, h⟩
      · exact ⟨h4 ▸ ht, h⟩
      · cases h
    · rcases bind_eq_error.mp h with h | ⟨hint, -, h⟩
      · exact absurd h (conflictIndex_ne_exit _ _ _)
      · cases h

/-- What is applied is the fold of the pending writes, with the stable and the commit index raised after
it. -/
lemma applyEntries_cases {request : AppendEntriesArgs} {pending : List PendingLogWrite}
    {reply : AppendEntriesReply} (h : r.applyEntries request pending = .ok (r', reply)) :
    ∃ logs last, logs = pending.foldl r.applyPending r.logs ∧
      last = { r with logs }.getLastLogIndex ∧
      r' = { r with
        logs
        stableLogIndex := max r.stableLogIndex last
        commitIndex := if request.leadercommit > r.commitIndex then min request.leadercommit last
          else r.commitIndex }.persistState ∧
      r'.commitIndex ≤ last ∧
      reply = { term := r.currentTerm, success := true, updatenextindex := -100 } := by
  refine ⟨_, _, rfl, rfl, ?_⟩
  unfold applyEntries at h
  simp only at h
  split_ifs at h with h1 h2 h2
  · obtain ⟨rfl, rfl⟩ := Prod.mk.inj (pure_eq_ok.mp h)
    exact ⟨by rw [if_pos h1], h2, rfl⟩
  · obtain ⟨rfl, rfl⟩ := Prod.mk.inj (pure_eq_ok.mp h)
    exact ⟨by rw [if_neg h1], h2, rfl⟩

/-- The request passes the checks that `AppendEntries` makes when it has the lock again. -/
structure PassesChecks (s : Raft) (request : AppendEntriesArgs) (pending : List PendingLogWrite) :
    Prop where
  term_eq : s.currentTerm = request.term
  snapshot_le : s.lastSnapshotIndex ≤ request.prevlogindex
  le_last : request.prevlogindex ≤ s.getLastLogIndex
  prev : s.termAt request.prevlogindex = .ok request.prevlogterm
  pending : s.checkPending s.getLastLogIndex pending = none

instance (s : Raft) (request : AppendEntriesArgs) (pending : List PendingLogWrite) :
    Decidable (s.PassesChecks request pending) :=
  decidable_of_iff (s.currentTerm = request.term ∧ s.lastSnapshotIndex ≤ request.prevlogindex ∧
      request.prevlogindex ≤ s.getLastLogIndex ∧
      s.termAt request.prevlogindex = .ok request.prevlogterm ∧
      s.checkPending s.getLastLogIndex pending = none)
    ⟨fun h => ⟨h.1, h.2.1, h.2.2.1, h.2.2.2.1, h.2.2.2.2⟩,
      fun h => ⟨h.term_eq, h.snapshot_le, h.le_last, h.prev, h.pending⟩⟩

/-- Only a handler whose writes are stable and that passes its checks again applies its entries. -/
lemma appendEntriesStable_cases {request : AppendEntriesArgs} {pending : List PendingLogWrite}
    {stable : Bool} {reply : AppendEntriesReply}
    (h : r.appendEntriesStable request pending stable = .ok (r', reply)) :
    r' = r.persistState ∧ reply.success = false ∨
      stable = true ∧ r.PassesChecks request pending ∧
        r.applyEntries request pending = .ok (r', reply) := by
  have hreject : ∀ hint, (pure (r.persistState, r.rejected hint) : Except Fault _) = .ok (r', reply) →
      r' = r.persistState ∧ reply.success = false := by
    intro hint h
    obtain ⟨rfl, rfl⟩ := Prod.mk.inj (pure_eq_ok.mp h)
    exact ⟨rfl, rfl⟩
  unfold appendEntriesStable at h
  simp only at h
  split_ifs at h with h1 h2 h3
  · exact .inl (hreject _ h)
  · exact .inl (hreject _ h)
  · exact .inl (hreject _ h)
  · cases ht : r.termAt request.prevlogindex with
    | error e =>
      rw [ht] at h
      exact .inl (hreject _ h)
    | ok t =>
      rw [ht] at h
      simp only at h
      split_ifs at h with h4
      · exact .inl (hreject _ h)
      · cases hc : r.checkPending r.getLastLogIndex pending with
        | some hint =>
          rw [hc] at h
          exact .inl (hreject _ h)
        | none =>
          rw [hc] at h
          simp only [Bool.not_eq_eq_eq_not, Bool.not_true, ne_eq, not_or, not_not] at h1 h4
          exact .inr ⟨by simpa using h1.1, ⟨h1.2, by omega, by omega, by rw [ht, h4], hc⟩, h⟩

/-! ### The leader -/

/-- `advanceCommitIndex` leaves `m_commitIndex` or moves it up to an entry of the current term that
a majority is known to hold. -/
lemma advanceFrom_cases {k : ℕ} (h : r.advanceFrom k = .ok r') :
    r' = r ∨ ∃ index e, r' = { r with commitIndex := index } ∧ r.commitIndex < index ∧
      index ≤ r.commitIndex + k ∧ r.replicated index ≥ r.peers / 2 + 1 ∧
      r.logAt index = .ok e ∧ e.logterm = r.currentTerm := by
  induction k with
  | zero => exact .inl (pure_eq_ok.mp h).symm
  | succ k ih =>
    have hlower : r.advanceFrom k = .ok r' → r' = r ∨ ∃ index e,
        r' = { r with commitIndex := index } ∧ r.commitIndex < index ∧
        index ≤ r.commitIndex + (k + 1 : ℕ) ∧ r.replicated index ≥ r.peers / 2 + 1 ∧
        r.logAt index = .ok e ∧ e.logterm = r.currentTerm := by
      intro h
      rcases ih h with rfl | ⟨index, e, h1, h2, h3, h4⟩
      · exact .inl rfl
      · exact .inr ⟨index, e, h1, h2, by omega, h4⟩
    rw [advanceFrom] at h
    split_ifs at h with hq
    · obtain ⟨e, he, h⟩ := bind_eq_ok.mp h
      split_ifs at h with ht
      · exact .inr ⟨_, e, (pure_eq_ok.mp h).symm, by omega, by push_cast; omega, hq, he, ht⟩
      · exact hlower h
    · exact hlower h

/-- The commit index stays, or goes to a greater index of an entry of the current term. -/
lemma advanceCommitIndex_cases (h : r.advanceCommitIndex = .ok r') :
    r' = r ∨ ∃ index e, r' = { r with commitIndex := index } ∧ r.commitIndex < index ∧
      index ≤ r.stableLogIndex ∧ r.replicated index ≥ r.peers / 2 + 1 ∧
      r.logAt index = .ok e ∧ e.logterm = r.currentTerm := by
  rcases advanceFrom_cases h with rfl | ⟨index, e, h1, h2, h3, h4⟩
  · exact .inl rfl
  · exact .inr ⟨index, e, h1, h2, by omega, h4⟩

/-- The leader after a success reply of a peer, before it advances `m_commitIndex`. -/
def matched (r : Raft) (server : ℕ) (index : ℤ) : Raft :=
  { r with
    matchIndex := Function.update r.matchIndex server (max (r.matchIndex server) index)
    nextIndex := Function.update r.nextIndex server (max (r.matchIndex server) index + 1) }

/-- A reply ends the leadership, moves `m_nextIndex` back, or confirms the entries of the request. -/
lemma handleAppendEntries_cases {server : ℕ} {args : AppendEntriesArgs}
    {reply : AppendEntriesReply} (h : r.handleAppendEntries server args reply = .ok r') :
    reply.term > r.currentTerm ∧ r' = r.newTerm reply.term ∨
      (∃ nextIndex, r' = { r with nextIndex }) ∨
      reply.term = r.currentTerm ∧ r.state = .leader ∧ reply.success = true ∧
        (r.matched server (args.prevlogindex + args.entries.length)).advanceCommitIndex = .ok r' := by
  unfold handleAppendEntries at h
  simp only at h
  split_ifs at h with h1 h2 h3 h4 h5 h6
  · exact .inl ⟨h1, (pure_eq_ok.mp h).symm⟩
  · exact .inr (.inl ⟨_, (pure_eq_ok.mp h).symm⟩)
  · exact .inr (.inl ⟨_, (pure_eq_ok.mp h).symm⟩)
  · exact .inr (.inl ⟨_, (pure_eq_ok.mp h).symm⟩)
  · exact .inr (.inl ⟨_, (pure_eq_ok.mp h).symm⟩)
  · exact .inr (.inr ⟨by omega, by simpa using h3, by simpa using h4, h⟩)

/-- A request `doHeartBeat` builds: the entries between `prevlogindex` and `m_stableLogIndex`. -/
structure HeartBeat (r : Raft) (args : AppendEntriesArgs) : Prop where
  term : args.term = r.currentTerm
  leadercommit : args.leadercommit = r.commitIndex
  snapshot_le : r.lastSnapshotIndex ≤ args.prevlogindex
  prev : r.termAt args.prevlogindex = .ok args.prevlogterm
  entries : args.entries <+: r.logs.drop (args.prevlogindex - r.lastSnapshotIndex).toNat
  length : args.prevlogindex + args.entries.length = r.stableLogIndex

/-- A request begins right behind `m_nextIndex` of its peer, and nothing changes for it. -/
lemma heartBeatPeer_cases {i : ℕ} {request : Option AppendEntriesArgs}
    (h : r.heartBeatPeer i = .ok (r', request)) :
    r' = r ∧ ∀ args, request = some args → r.HeartBeat args ∧ r.lastSnapshotIndex < r.nextIndex i ∧
      args.prevlogindex = r.nextIndex i - 1 ∧ args.leaderid = r.id := by
  unfold heartBeatPeer at h
  split_ifs at h with h1 h2
  · obtain ⟨rfl, rfl⟩ := Prod.mk.inj (pure_eq_ok.mp h)
    exact ⟨rfl, fun _ h => by cases h⟩
  obtain ⟨⟨prevlogindex, prevlogterm⟩, hprev, h⟩ := bind_eq_ok.mp h
  obtain ⟨hindex, hle, hterm⟩ : prevlogindex = r.nextIndex i - 1 ∧
      r.lastSnapshotIndex ≤ prevlogindex ∧ r.termAt prevlogindex = .ok prevlogterm := by
    unfold getPrevLogInfo at hprev
    split_ifs at hprev with hn
    · obtain ⟨rfl, rfl⟩ := Prod.mk.inj (pure_eq_ok.mp hprev)
      exact ⟨by omega, Int.le_refl _, by simp [termAt]⟩
    · obtain ⟨e, he, hprev⟩ := bind_eq_ok.mp hprev
      obtain ⟨rfl, rfl⟩ := Prod.mk.inj (pure_eq_ok.mp hprev)
      have hne : ¬ r.nextIndex i - 1 = r.lastSnapshotIndex := by omega
      exact ⟨rfl, by omega, by simp [termAt, hne, he, Except.map]⟩
  simp only [pure_bind] at h
  by_cases hstable : prevlogindex > r.stableLogIndex
  · -- the request would keep a previous index above its entries
    rw [if_pos hstable] at h
    obtain ⟨x, -, h⟩ := bind_eq_ok.mp h
    split_ifs at h
    · omega
    · obtain ⟨_, h, -⟩ := bind_eq_ok.mp h
      exact absurd h throw_ne_ok
    · omega
  · rw [if_neg hstable] at h
    have hpass : ∀ entries : List LogEntry,
        entries <+: r.logs.drop (prevlogindex - r.lastSnapshotIndex).toNat →
        (if prevlogindex + entries.length = r.stableLogIndex then
            pure (r, some
              { term := r.currentTerm
                leaderid := r.id
                prevlogindex, prevlogterm, entries
                leadercommit := r.commitIndex })
          else throw .assertion : Except Fault _) = .ok (r', request) →
        r' = r ∧ ∀ args, request = some args → r.HeartBeat args ∧
          r.lastSnapshotIndex < r.nextIndex i ∧ args.prevlogindex = r.nextIndex i - 1 ∧
          args.leaderid = r.id := by
      intro entries hentries h
      split_ifs at h with hlen
      obtain ⟨rfl, rfl⟩ := Prod.mk.inj (pure_eq_ok.mp h)
      refine ⟨rfl, ?_⟩
      rintro _ ⟨⟩
      exact ⟨⟨rfl, rfl, hle, hterm, hentries, hlen⟩, Int.not_le.mp h2, hindex, rfl⟩
    by_cases hsnap : prevlogindex = r.lastSnapshotIndex
    · rw [if_neg (not_not.mpr hsnap)] at h
      refine hpass _ ?_ h
      rw [hsnap]
      simpa using List.takeWhile_prefix _
    · rw [if_pos hsnap, if_pos (by omega)] at h
      exact hpass _ (List.takeWhile_prefix _) h

/-- The loop of `doHeartBeat` builds the request of each peer by itself. -/
lemma heartBeatPeers_requests {peers : List ℕ} {requests : List (ℕ × AppendEntriesArgs)}
    {snapshots : List ℕ} (h : r.heartBeatPeers peers = .ok (r', requests, snapshots)) :
    r' = r ∧
      (∀ i args, (i, args) ∈ requests → i ∈ peers ∧ r.heartBeatPeer i = .ok (r, some args)) ∧
      ∀ i ∈ snapshots, i ∈ peers := by
  induction peers generalizing r' requests snapshots with
  | nil =>
    obtain ⟨rfl, hnil⟩ := Prod.mk.inj (pure_eq_ok.mp h)
    obtain ⟨rfl, rfl⟩ := Prod.mk.inj hnil
    exact ⟨rfl, fun _ _ hmem => (by cases hmem), fun _ hmem => by cases hmem⟩
  | cons i peers ih =>
    rw [heartBeatPeers] at h
    obtain ⟨⟨s, request⟩, hs, htail⟩ := bind_eq_ok.mp h
    obtain ⟨⟨t, requests', snapshots'⟩, ht, hend⟩ := bind_eq_ok.mp htail
    obtain rfl := (heartBeatPeer_cases hs).1
    obtain ⟨rfl, hrest, hsnap⟩ := ih ht
    have hrest' : ∀ j args, (j, args) ∈ requests' →
        j ∈ i :: peers ∧ t.heartBeatPeer j = .ok (t, some args) := fun j args hj =>
      ⟨List.mem_cons_of_mem _ (hrest j args hj).1, (hrest j args hj).2⟩
    cases request with
    | none =>
      obtain ⟨rfl, heq⟩ := Prod.mk.inj (pure_eq_ok.mp hend)
      obtain ⟨rfl, rfl⟩ := Prod.mk.inj heq
      refine ⟨rfl, hrest', fun j hj => ?_⟩
      rcases List.mem_cons.mp hj with rfl | hj
      · exact List.mem_cons_self
      · exact List.mem_cons_of_mem _ (hsnap j hj)
    | some args =>
      obtain ⟨rfl, heq⟩ := Prod.mk.inj (pure_eq_ok.mp hend)
      obtain ⟨rfl, rfl⟩ := Prod.mk.inj heq
      refine ⟨rfl, fun j args' hj => ?_, fun j hj => List.mem_cons_of_mem _ (hsnap j hj)⟩
      rcases List.mem_cons.mp hj with hj | hj
      · obtain ⟨rfl, rfl⟩ := Prod.mk.inj hj
        exact ⟨List.mem_cons_self, hs⟩
      · exact hrest' j args' hj

/-- A heartbeat moves `m_nextIndex` only, and asks each peer for what the node's log has. -/
lemma heartBeatPeers_cases {peers : List ℕ} {requests : List (ℕ × AppendEntriesArgs)}
    {snapshots : List ℕ} (h : r.heartBeatPeers peers = .ok (r', requests, snapshots)) :
    (∃ nextIndex, r' = { r with nextIndex }) ∧
      (∀ i args, (i, args) ∈ requests → i ∈ peers ∧ r.HeartBeat args) ∧
      ∀ i ∈ snapshots, i ∈ peers := by
  obtain ⟨rfl, hrequests, hsnap⟩ := heartBeatPeers_requests h
  refine ⟨⟨_, rfl⟩, fun i args hi => ?_, hsnap⟩
  obtain ⟨hmem, hs⟩ := hrequests i args hi
  exact ⟨hmem, ((heartBeatPeer_cases hs).2 args rfl).1⟩

/-! ### Clients, the apply loop and snapshots -/

/-- `Start` appends an entry of the current term behind the last one. -/
lemma start_cases {command : Bytes} {e : LogEntry} (h : r.start command = .ok (some (r', e))) :
    r.state = .leader ∧
      e = { command, logterm := r.currentTerm, logindex := r.getLastLogIndex + 1 } ∧
      r' = { r with logs := r.logs ++ [e] }.persistState := by
  unfold start at h
  split_ifs at h with hs hmax
  · cases pure_eq_ok.mp h
  · obtain ⟨rfl, rfl⟩ := Prod.mk.inj (Option.some.inj (pure_eq_ok.mp h))
    exact ⟨not_not.mp hs, rfl, rfl⟩

/-- A leader appends a command as long as there is a next index. -/
lemma start_eq (hs : r.state = .leader) (hmax : r.getLastLogIndex < intMax) {command : Bytes}
    {e : LogEntry}
    (he : e = { command, logterm := r.currentTerm, logindex := r.getLastLogIndex + 1 }) :
    r.start command = .ok (some ({ r with logs := r.logs ++ [e] }.persistState, e)) := by
  rw [start, if_neg (not_not.mpr hs), if_neg (Int.not_le.mpr hmax), ← he]
  rfl

/-- A success raises the stable index to the index it is for. -/
lemma onLogStable_cases (r : Raft) (index : ℤ) :
    r.onLogStable true index = r ∨ index > r.stableLogIndex ∧
      r.onLogStable true index = { r with stableLogIndex := index }.persistState := by
  unfold onLogStable
  by_cases hi : index > r.stableLogIndex
  · exact .inr ⟨hi, by simp [hi]⟩
  · exact .inl (by simp [hi])

/-- The messages `copyLogs` makes carry the entries of the log, each under its index. -/
lemma copyLogs_mem {start : ℤ} {count : ℕ} {msgs : List ApplyMsg}
    (h : r.copyLogs start count = .ok msgs) {msg : ApplyMsg} (hm : msg ∈ msgs) :
    ∃ e, r.logAt msg.CommandIndex = .ok e ∧ msg.Command = e.command ∧
      start ≤ msg.CommandIndex ∧ msg.CommandIndex < start + count := by
  induction count generalizing start msgs with
  | zero =>
    rw [copyLogs, pure_eq_ok] at h
    simp [← h] at hm
  | succ count ih =>
    rw [copyLogs] at h
    obtain ⟨e, he, h⟩ := bind_eq_ok.mp h
    split_ifs at h
    obtain ⟨rest, hrest, h⟩ := bind_eq_ok.mp h
    rw [pure_eq_ok] at h
    subst h
    rcases List.mem_cons.mp hm with rfl | hm
    · exact ⟨e, he, rfl, Int.le_refl _, by push_cast; omega⟩
    · obtain ⟨x, h1, h2, h3, h4⟩ := ih hrest hm
      exact ⟨x, h1, h2, by omega, by push_cast; omega⟩

/-- What is handed to the server is the part of the log up to the commit index. -/
lemma applierTicker_cases {msgs : List ApplyMsg} (h : r.applierTicker = .ok (r', msgs)) :
    r' = { r with lastApplied := r.commitIndex } ∧
      r.copyLogs (r.lastApplied + 1) (r.commitIndex - r.lastApplied).toNat = .ok msgs := by
  unfold applierTicker at h
  obtain ⟨logs, hlogs, h⟩ := bind_eq_ok.mp h
  obtain ⟨rfl, rfl⟩ := Prod.mk.inj (pure_eq_ok.mp h)
  exact ⟨rfl, hlogs⟩

/-- The loop of `Snapshot` copies the entries from `start` on as they stand. -/
lemma truncatedLogs_eq {start : ℤ} {count : ℕ} {logs : List LogEntry}
    (h : r.truncatedLogs start count = .ok logs) (hs : r.lastSnapshotIndex < start) :
    logs = (r.logs.drop (start - r.lastSnapshotIndex - 1).toNat).take count := by
  induction count generalizing start logs with
  | zero =>
    rw [truncatedLogs] at h
    split_ifs at h
    simpa using (pure_eq_ok.mp h).symm
  | succ count ih =>
    rw [truncatedLogs] at h
    obtain ⟨e, he, h⟩ := bind_eq_ok.mp h
    obtain ⟨rest, hrest, h⟩ := bind_eq_ok.mp h
    rw [pure_eq_ok] at h
    have hnext : (start + 1 - r.lastSnapshotIndex - 1).toNat =
        (start - r.lastSnapshotIndex - 1).toNat + 1 := by omega
    rw [← h, ih hrest (by omega), hnext]
    obtain ⟨hlt, hv⟩ := List.getElem?_eq_some_iff.mp (vecGet_eq_ok.mp he).2
    rw [List.drop_eq_getElem_cons hlt, List.take_succ_cons, hv]

/-- `Snapshot` cuts the log at an index that is committed. -/
lemma snapshot_cases {index : ℤ} {data : Bytes} (h : r.snapshot index data = .ok r') :
    r' = r ∨ r.lastSnapshotIndex < index ∧ index ≤ r.commitIndex ∧ ∃ e,
      r.logAt index = .ok e ∧
      r' = { r with
        lastSnapshotIndex := index
        lastSnapshotTerm := e.logterm
        logs := (r.logs.drop (index - r.lastSnapshotIndex).toNat).take
          (r.getLastLogIndex - index).toNat
        commitIndex := max r.commitIndex index
        stableLogIndex := max r.stableLogIndex index
        lastApplied := max r.lastApplied index
        snapshotFile := data }.persistState := by
  unfold snapshot at h
  split_ifs at h with h1
  · exact .inl (pure_eq_ok.mp h).symm
  · obtain ⟨e, he, h⟩ := bind_eq_ok.mp h
    obtain ⟨logs, hlogs, h⟩ := bind_eq_ok.mp h
    split_ifs at h with h2
    have hlogs' := truncatedLogs_eq hlogs (by omega)
    rw [show index + 1 - r.lastSnapshotIndex - 1 = index - r.lastSnapshotIndex by omega] at hlogs'
    subst hlogs'
    exact .inr ⟨by omega, by omega, e, he, (pure_eq_ok.mp h).symm⟩

/-- The loop of `Snapshot` ends only below `INT_MAX`. -/
lemma truncatedLogs_le {start : ℤ} {count : ℕ} {logs : List LogEntry}
    (h : r.truncatedLogs start count = .ok logs) : start + count ≤ intMax := by
  induction count generalizing start logs with
  | zero =>
    rw [truncatedLogs] at h
    split_ifs at h with hmax
    push_cast
    omega
  | succ count ih =>
    rw [truncatedLogs] at h
    obtain ⟨e, -, h⟩ := bind_eq_ok.mp h
    obtain ⟨rest, hrest, -⟩ := bind_eq_ok.mp h
    have hle := ih hrest
    push_cast
    omega

/-- `Snapshot` over a log that reaches `INT_MAX` does not return. -/
lemma snapshot_last_lt {index : ℤ} {data : Bytes} (h : r.snapshot index data = .ok r')
    (hlt : r.lastSnapshotIndex < index) (hle : index ≤ r.commitIndex) : r.getLastLogIndex < intMax := by
  rw [snapshot, if_neg (by omega)] at h
  obtain ⟨e, -, h⟩ := bind_eq_ok.mp h
  obtain ⟨logs, hlogs, -⟩ := bind_eq_ok.mp h
  have hle := truncatedLogs_le hlogs
  omega

/-- The reply to a snapshot ends the leadership or moves the indices of the peer up to it. -/
lemma leaderSendSnapShotHandler_cases (r : Raft) (args : InstallSnapshotRequest)
    (reply : InstallSnapshotResponse) (i : ℕ) :
    r.leaderSendSnapShotHandler args reply i = r ∨
      reply.term > r.currentTerm ∧
        r.leaderSendSnapShotHandler args reply i = (r.newTerm reply.term).persistState ∨
      r.state = .leader ∧ r.currentTerm = args.term ∧
        r.leaderSendSnapShotHandler args reply i =
          { r with
            matchIndex := Function.update r.matchIndex i args.lastsnapshotincludeindex
            nextIndex := Function.update r.nextIndex i (args.lastsnapshotincludeindex + 1) } := by
  unfold leaderSendSnapShotHandler
  split_ifs with h1 h2
  · exact .inl rfl
  · exact .inr (.inl ⟨h2, rfl⟩)
  · push Not at h1
    exact .inr (.inr ⟨h1.1, h1.2, rfl⟩)

/-- The log `InstallSnapshot` keeps behind the snapshot at `index`. -/
def keptLogs (r : Raft) (index : ℤ) : List LogEntry :=
  if r.getLastLogIndex > index then r.logs.drop (index - r.lastSnapshotIndex).toNat else []

/-- What is kept behind a snapshot was in the log. -/
lemma mem_of_mem_keptLogs {index : ℤ} {e : LogEntry} (he : e ∈ r.keptLogs index) : e ∈ r.logs := by
  rw [keptLogs] at he
  split_ifs at he
  · exact List.mem_of_mem_drop he
  · cases he

/-- The state of a node that installs a snapshot. -/
def installed (r : Raft) (args : InstallSnapshotRequest) : Raft :=
  { r with
    logs := r.keptLogs args.lastsnapshotincludeindex
    commitIndex := max r.commitIndex args.lastsnapshotincludeindex
    stableLogIndex := max r.stableLogIndex args.lastsnapshotincludeindex
    lastApplied := max r.lastApplied args.lastsnapshotincludeindex
    lastSnapshotIndex := args.lastsnapshotincludeindex
    lastSnapshotTerm := args.lastsnapshotincludeterm
    snapshotFile := args.data }

/-- An accepted snapshot is stored and pushed to the server. -/
lemma installAccepted_cases {args : InstallSnapshotRequest} (h : r.installAccepted args = .ok r') :
    r' = (r.installed args).persistState.push (snapshotMsg args) := by
  unfold installAccepted at h
  simp only at h
  obtain ⟨logs, hlogs, h⟩ := bind_eq_ok.mp h
  have hkept : logs = r.keptLogs args.lastsnapshotincludeindex := by
    unfold keptLogs
    split_ifs at hlogs ⊢ with h1 h2
    · exact (pure_eq_ok.mp hlogs).symm
    · exact (pure_eq_ok.mp hlogs).symm
  subst hkept
  exact (pure_eq_ok.mp h).symm

/-- The follower that answers a snapshot request of a term no older than its own. -/
def follow (r : Raft) (term : ℕ) : Raft :=
  { r.catchUp term with state := .follower }

/-- `InstallSnapshot` refuses an old term, or an old index, or accepts. -/
lemma installSnapshot_cases {args : InstallSnapshotRequest} {reply : InstallSnapshotResponse}
    (h : r.installSnapshot args = .ok (r', reply)) :
    args.term < r.currentTerm ∧ r' = r ∨
      r.currentTerm ≤ args.term ∧ r' = r.follow args.term ∨
      r.currentTerm ≤ args.term ∧ r.lastSnapshotIndex < args.lastsnapshotincludeindex ∧
        r' = ((r.follow args.term).installed args).persistState.push (snapshotMsg args) := by
  unfold installSnapshot at h
  by_cases h1 : args.term < r.currentTerm
  · rw [if_pos h1] at h
    obtain ⟨rfl, -⟩ := Prod.mk.inj (pure_eq_ok.mp h)
    exact .inl ⟨h1, rfl⟩
  · rw [if_neg h1] at h
    have hsnap : (r.catchUp args.term).lastSnapshotIndex = r.lastSnapshotIndex := by
      unfold catchUp
      split_ifs <;> rfl
    by_cases h2 : args.lastsnapshotincludeindex ≤ (r.follow args.term).lastSnapshotIndex
    · obtain ⟨rfl, -⟩ := Prod.mk.inj (pure_eq_ok.mp ((if_pos h2).symm.trans h))
      exact .inr (.inl ⟨by omega, rfl⟩)
    · obtain ⟨s, hs, h⟩ := bind_eq_ok.mp ((if_neg h2).symm.trans h)
      obtain ⟨rfl, -⟩ := Prod.mk.inj (pure_eq_ok.mp h)
      refine .inr (.inr ⟨by omega, ?_, installAccepted_cases hs⟩)
      rw [← hsnap]
      exact Int.not_le.mp h2

end Raft

end KVCacheRaft
