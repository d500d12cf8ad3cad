import KVCacheRaft.Machine.Rounds
import KVCacheRaft.Raft.Heartbeats
import KVCacheRaft.Raft.Matching

/-!
# A follower that lags behind

A leader sends its heartbeats to one peer, round by round: the follower handles the request, and the
leader its reply. A rejection carries a hint for `m_nextIndex`, which may move it down, or up to the
follower's snapshot; a peer that is behind the leader's snapshot is sent that. The hints lead to the
end of the leader's log after finitely many rounds.
-/

namespace KVCacheRaft

open Machine

namespace Raft

variable {s t r : Raft} {m : AppendEntriesArgs} {i : ℕ} {base : ℤ} {L : List LogEntry}

/-! ### What a follower answers -/

/-- The search for the start of a run of entries stays above the snapshot. -/
lemma conflictIndex_bounds {prevTerm k : ℕ} {hint : ℤ} (h : s.conflictIndex prevTerm k = .ok hint) :
    s.lastSnapshotIndex < hint ∧ hint ≤ s.lastSnapshotIndex + k + 1 := by
  induction k with
  | zero =>
    obtain rfl := Except.ok.inj h
    push_cast
    omega
  | succ k ih =>
    rw [conflictIndex] at h
    obtain ⟨term, -, h⟩ := bind_eq_ok.mp h
    split_ifs at h with hterm
    · obtain rfl := pure_eq_ok.mp h
      push_cast
      omega
    · have := ih h
      push_cast
      omega

/-- It begins at an entry of the run. -/
lemma conflictIndex_le {prevTerm k : ℕ} {hint : ℤ} (h : s.conflictIndex prevTerm k = .ok hint)
    (hterm : s.termAt (s.lastSnapshotIndex + k) = .ok prevTerm) (hpos : 0 < k) :
    hint ≤ s.lastSnapshotIndex + k := by
  obtain ⟨k, rfl⟩ := Nat.exists_eq_add_one.mpr hpos
  rw [conflictIndex] at h
  obtain ⟨term, hterm', h⟩ := bind_eq_ok.mp h
  obtain rfl : term = prevTerm := by
    push_cast at hterm
    exact Except.ok.inj (hterm'.symm.trans hterm)
  rw [if_neg (not_not.mpr rfl)] at h
  have := (conflictIndex_bounds h).2
  push_cast
  omega

/-- A hint: the end of the log, the place behind the snapshot, or a place in front of the entry that
differs. -/
structure LowerHint (s : Raft) (m : AppendEntriesArgs) (hint : ℤ) : Prop where
  above : s.lastSnapshotIndex < hint
  cases : hint ≤ m.prevlogindex ∨
    m.prevlogindex < s.lastSnapshotIndex ∧ hint = s.lastSnapshotIndex + 1 ∨
    m.prevlogindex = s.lastSnapshotIndex ∧ s.lastSnapshotTerm ≠ m.prevlogterm

/-- A refused request has a hint below its previous index. -/
lemma appendEntries_hint (hinv : s.IndexInv) (hterm : s.currentTerm ≤ m.term)
    {reply : AppendEntriesReply} (h : s.appendEntries m = .ok (t, .replied reply)) :
    t = (s.acceptTerm m.term).persistState ∧ reply.term = m.term ∧ reply.success = false ∧
      s.LowerHint m reply.updatenextindex := by
  have hacc := s.accepted_acceptTerm hterm
  have hinv' := hinv.acceptTerm m.term
  unfold appendEntries at h
  simp only [if_neg (Nat.not_lt.mpr hterm)] at h
  obtain ⟨a, ha⟩ : ∃ a, a = s.acceptTerm m.term := ⟨_, rfl⟩
  rw [← ha] at h hacc hinv' ⊢
  have hbounds := hinv'.snapshot_le_last
  have hsnapshot := hacc.snapshotIndex
  split_ifs at h with hlast hsnap
  · obtain ⟨rfl, hreply⟩ := Prod.mk.inj (pure_eq_ok.mp h)
    obtain rfl := AppendPhase.replied.inj hreply
    refine ⟨rfl, hacc.term, rfl, ?_, .inl ?_⟩
    · show s.lastSnapshotIndex < a.getLastLogIndex + 1
      omega
    · exact hlast
  · obtain ⟨rfl, hreply⟩ := Prod.mk.inj (pure_eq_ok.mp h)
    obtain rfl := AppendPhase.replied.inj hreply
    rw [hsnapshot] at hsnap
    refine ⟨rfl, hacc.term, rfl, ?_, .inr (.inl ⟨hsnap, ?_⟩)⟩
    · show s.lastSnapshotIndex < a.lastSnapshotIndex + 1
      omega
    · show a.lastSnapshotIndex + 1 = s.lastSnapshotIndex + 1
      omega
  · obtain ⟨term, hprev, h⟩ := bind_eq_ok.mp h
    split_ifs at h with hsame
    · obtain ⟨writes, -, h⟩ := bind_eq_ok.mp h
      cases (Prod.mk.inj (pure_eq_ok.mp h)).2
    · obtain ⟨hint, hconflict, h⟩ := bind_eq_ok.mp h
      obtain ⟨rfl, hreply⟩ := Prod.mk.inj (pure_eq_ok.mp h)
      obtain rfl := AppendPhase.replied.inj hreply
      rw [Int.not_lt] at hsnap
      have hplace : a.lastSnapshotIndex + ((m.prevlogindex - a.lastSnapshotIndex).toNat : ℤ) =
          m.prevlogindex := by omega
      refine ⟨rfl, hacc.term, rfl, ?_, ?_⟩
      · have := (conflictIndex_bounds hconflict).1
        rw [hsnapshot] at this
        exact this
      · by_cases heq : m.prevlogindex = s.lastSnapshotIndex
        · -- the follower's snapshot itself differs
          refine .inr (.inr ⟨heq, fun hne => hsame ?_⟩)
          rw [termAt, if_pos (by omega), hacc.snapshotTerm] at hprev
          rw [← hne, Except.ok.inj hprev]
        · have hle := conflictIndex_le hconflict (hplace.symm ▸ hprev) (by omega)
          rw [hplace] at hle
          exact .inl hle

/-- A request whose previous entry the follower agrees with ends with success. -/
lemma appendEntries_success (hinv : s.IndexInv) (hmatch : s.MatchesLog base L)
    (hL : Aligned base L) (hm : Sent base L m) {pending : List PendingLogWrite}
    (hfirst : s.appendEntries m = .ok (t, .unlocked pending)) :
    ∃ u reply, t.appendEntriesStable m pending true = .ok (u, reply) ∧ reply.success = true ∧
      reply.term = m.term ∧ s.Handled u m := by
  obtain ⟨-, -, hphase⟩ | ⟨-, -, hint, hphase⟩ | ⟨hterm, heq, hsnap, hprev, writes, hwrites, hphase⟩ :=
    appendEntries_cases hfirst
  · cases hphase
  · cases hphase
  obtain rfl := AppendPhase.unlocked.inj hphase
  have ht := (hinv.appendEntries hfirst).1
  have hacc := s.accepted_acceptTerm hterm
  rw [← heq] at hacc
  have hcheck : t.checkPending t.getLastLogIndex pending = none := by
    have := checkPending_newEntries ht.aligned (hm.aligned hL) hsnap
    rwa [Int.max_eq_left (ht.termAt_le_last hprev), ← pendingWrites_newEntries ht.aligned hwrites]
      at this
  obtain ⟨u, reply, happly, -⟩ := ht.applyEntries m hcheck
  have hsecond := (ht.appendEntriesStable_eq hacc.term hsnap hprev hcheck).trans happly
  obtain ⟨logs, last, -, -, -, -, hreply⟩ := applyEntries_cases happly
  have hsuccess : reply.success = true := by rw [hreply]
  refine ⟨u, reply, hsecond, hsuccess, ?_, ?_⟩
  · rw [hreply]
    exact hacc.term
  · exact handled_of_success hinv hmatch hL hm hfirst hsecond hsuccess

/-- A snapshot that is not older is installed if it reaches beyond the follower's. -/
lemma installSnapshot_eq {args : InstallSnapshotRequest} (hterm : s.currentTerm ≤ args.term) :
    s.installSnapshot args =
      if args.lastsnapshotincludeindex ≤ (s.follow args.term).lastSnapshotIndex then
        .ok (s.follow args.term, { term := (s.follow args.term).currentTerm })
      else (s.follow args.term).installAccepted args >>= fun t =>
        pure (t, { term := t.currentTerm }) := by
  rw [installSnapshot, if_neg (Nat.not_lt.mpr hterm)]
  rfl

/-- What `InstallSnapshot` leaves of the log. -/
lemma installSnapshot_spec (hinv : s.IndexInv) {args : InstallSnapshotRequest}
    (hterm : s.currentTerm ≤ args.term) :
    ∃ t, s.installSnapshot args = .ok (t, { term := args.term }) ∧ t.IndexInv ∧
      t.currentTerm = args.term ∧ (∀ e ∈ t.logs, e ∈ s.logs) ∧
      (args.lastsnapshotincludeindex ≤ s.lastSnapshotIndex ∧
          t.lastSnapshotIndex = s.lastSnapshotIndex ∧ t.lastSnapshotTerm = s.lastSnapshotTerm ∨
        s.lastSnapshotIndex < args.lastsnapshotincludeindex ∧
          t.lastSnapshotIndex = args.lastsnapshotincludeindex ∧
          t.lastSnapshotTerm = args.lastsnapshotincludeterm) := by
  have hinv' := hinv.follow args.term
  have hfollow : (s.follow args.term).logs = s.logs ∧
      (s.follow args.term).lastSnapshotIndex = s.lastSnapshotIndex ∧
      (s.follow args.term).lastSnapshotTerm = s.lastSnapshotTerm ∧
      (s.follow args.term).currentTerm = args.term := by
    rw [follow, catchUp]
    split_ifs with hgt
    · exact ⟨rfl, rfl, rfl, rfl⟩
    · exact ⟨rfl, rfl, rfl, Nat.le_antisymm hterm (Nat.not_lt.mp hgt)⟩
  obtain ⟨hlogs, hsnap, hsnapTerm, hcurrent⟩ := hfollow
  by_cases hle : args.lastsnapshotincludeindex ≤ s.lastSnapshotIndex
  · refine ⟨s.follow args.term, ?_, hinv', hcurrent, fun e he => hlogs ▸ he,
      .inl ⟨hle, hsnap, hsnapTerm⟩⟩
    rw [installSnapshot_eq hterm, if_pos (hsnap.symm ▸ hle), hcurrent]
  · rw [Int.not_le] at hle
    obtain ⟨t, reply, ht⟩ := hinv.installSnapshot_ok args
    have hindex := (hinv.installSnapshot ht).1
    rw [installSnapshot_eq hterm, if_neg (Int.not_le.mpr (hsnap.symm ▸ hle))] at ht ⊢
    obtain ⟨u, hu, ht⟩ := bind_eq_ok.mp ht
    obtain ⟨rfl, rfl⟩ := Prod.mk.inj (pure_eq_ok.mp ht)
    obtain rfl := installAccepted_cases hu
    refine ⟨_, ?_, hindex, hcurrent, fun e he => hlogs ▸ mem_of_mem_keptLogs he, .inr ⟨hle, rfl, rfl⟩⟩
    rw [hu]
    exact congrArg (fun term : ℕ => Except.ok (_, (⟨term⟩ : InstallSnapshotResponse))) hcurrent

/-- A rejection moves the next index. -/
lemma handleAppendEntries_rejected {reply : AppendEntriesReply} (hterm : reply.term = r.currentTerm)
    (hstate : r.state = .leader) (hfail : reply.success = false)
    (hhint : reply.updatenextindex ≠ -100) :
    r.handleAppendEntries i m reply =
      .ok { r with nextIndex := Function.update r.nextIndex i reply.updatenextindex } := by
  rw [handleAppendEntries, if_neg (by omega), if_neg (by omega), if_neg (not_not.mpr hstate),
    if_pos (by rw [hfail]; rfl), if_pos hhint]
  rfl

/-- A success up to the last index. -/
lemma handleAppendEntries_matched {reply : AppendEntriesReply} (hinv : r.IndexInv)
    (hterm : reply.term = r.currentTerm) (hstate : r.state = .leader) (hsuccess : reply.success = true)
    (hmatch : r.matchIndex i ≤ r.getLastLogIndex)
    (hend : m.prevlogindex + m.entries.length = r.getLastLogIndex) :
    ∃ r', r.handleAppendEntries i m reply = .ok r' ∧ r'.logs = r.logs ∧
      r'.lastSnapshotIndex = r.lastSnapshotIndex ∧ r'.matchIndex i = r.getLastLogIndex := by
  have hmax : max (r.matchIndex i) (m.prevlogindex + m.entries.length) = r.getLastLogIndex := by
    rw [hend, Int.max_eq_right hmatch]
  have hinv' : (r.matched i (m.prevlogindex + m.entries.length)).IndexInv :=
    hinv.congr rfl rfl rfl rfl
  obtain ⟨r', hr', -⟩ := hinv'.advanceCommitIndex
  refine ⟨r', ?_, ?_⟩
  · rw [handleAppendEntries, if_neg (by omega), if_neg (by omega), if_neg (not_not.mpr hstate),
      if_neg (by rw [hsuccess]; exact Bool.false_ne_true)]
    have hassert : max (r.matchIndex i) (m.prevlogindex + m.entries.length) + 1 ≤
        (r.matched i (m.prevlogindex + m.entries.length)).getLastLogIndex + 1 :=
      Int.add_le_add_right (Int.le_of_eq hmax) 1
    exact (if_pos hassert).trans hr'
  · obtain rfl | ⟨index, e, rfl, -⟩ := advanceCommitIndex_cases hr'
    · refine ⟨rfl, rfl, ?_⟩
      rw [matched, hmax]
      exact Function.update_self _ _ _
    · refine ⟨rfl, rfl, ?_⟩
      show Function.update r.matchIndex i _ i = _
      rw [hmax]
      exact Function.update_self _ _ _

/-- The requests of `doHeartBeat` have parts of the leader's log in memory. -/
lemma HeartBeat.sent (hb : r.HeartBeat m) (hinv : r.IndexInv) : Sent r.lastSnapshotIndex r.logs m where
  base_le := hb.snapshot_le
  prev := by
    obtain ⟨heq, -⟩ | ⟨-, x, hx, hterm⟩ := termAt_eq_ok.mp hb.prev
    · exact .inl heq
    · obtain ⟨hpos, hget⟩ := vecGet_eq_ok.mp hx
      have hindex := hinv.aligned _ x hget
      exact .inr ⟨x, List.mem_of_getElem? hget, by omega, hterm⟩
  entries := hb.entries

end Raft

/-! ### Rounds -/

/-- A leader and the follower that is one of its peers. -/
structure Link where
  leader : Raft
  follower : Raft

namespace Link

open Raft

/-- A heartbeat for the peer `i`, or the snapshot in its place, the follower's handler, and the
handler of the reply. The round is done when the reply is a success. -/
def round (i : ℕ) (s : Link) : Except Fault (Link × Bool) := do
  let (leader, request) ← s.leader.heartBeatPeer i
  match request with
  | some args =>
    let (follower, phase) ← s.follower.appendEntries args
    let (follower, reply) ← match phase with
      | .replied reply => pure (follower, reply)
      | .unlocked pending => follower.appendEntriesStable args pending true
    let leader ← leader.handleAppendEntries i args reply
    return ({ leader, follower }, reply.success)
  | none =>
    let args := leader.leaderSendSnapShot
    let (follower, reply) ← s.follower.installSnapshot args
    return ({ leader := leader.leaderSendSnapShotHandler args reply i, follower }, false)

/-- A leader whose log is stable, and a follower of a term no later whose log matches. -/
structure Facing (s : Link) (i : ℕ) : Prop where
  leader : s.leader.IndexInv
  leader_nonneg : 0 ≤ s.leader.lastSnapshotIndex
  state : s.leader.state = .leader
  stable : s.leader.stableLogIndex = s.leader.getLastLogIndex
  matchIndex : s.leader.matchIndex i ≤ s.leader.getLastLogIndex
  next : 1 ≤ s.leader.nextIndex i ∧ s.leader.nextIndex i ≤ s.leader.getLastLogIndex + 1
  follower : s.follower.IndexInv
  follower_nonneg : 0 ≤ s.follower.lastSnapshotIndex
  term : s.follower.currentTerm ≤ s.leader.currentTerm
  log : s.follower.MatchesLog s.leader.lastSnapshotIndex s.leader.logs
  snapshot_le : s.follower.lastSnapshotIndex ≤ s.leader.getLastLogIndex

/-- The follower's snapshot ends in the term that the leader has there, in its log or at the end of
its own snapshot. -/
structure Lagging (s : Link) (i : ℕ) : Prop extends s.Facing i where
  snapshotTerm : ∀ term, s.leader.termAt s.follower.lastSnapshotIndex = .ok term →
    s.follower.lastSnapshotTerm = term

/-- The leader knows that the follower has its log, and the follower has it. -/
structure CaughtUp (s : Link) (i : ℕ) : Prop where
  matchIndex : s.leader.matchIndex i = s.leader.getLastLogIndex
  logs : ∀ index, s.leader.lastSnapshotIndex < index → s.follower.lastSnapshotIndex < index →
    index ≤ s.leader.getLastLogIndex →
      ∃ e, s.leader.logAt index = .ok e ∧ s.follower.logAt index = .ok e

/-- How far the next index is from one that the follower accepts. -/
def lag (s : Link) (i : ℕ) : ℕ :=
  if s.follower.lastSnapshotIndex < s.leader.lastSnapshotIndex then
    (s.leader.nextIndex i).toNat + 1
  else if s.follower.lastSnapshotIndex < s.leader.nextIndex i then
    (s.leader.nextIndex i - s.follower.lastSnapshotIndex - 1).toNat
  else if s.leader.lastSnapshotIndex < s.leader.nextIndex i then 1
  else 2

variable {s : Link} {i : ℕ}

/-- The follower's log is cut, or its term raised. -/
lemma Lagging.setFollower (h : s.Lagging i) {follower : Raft} (hinv : follower.IndexInv)
    (hterm : follower.currentTerm ≤ s.leader.currentTerm)
    (hlogs : ∀ e ∈ follower.logs, e ∈ s.follower.logs)
    (hnonneg : 0 ≤ follower.lastSnapshotIndex)
    (hle : follower.lastSnapshotIndex ≤ s.leader.getLastLogIndex)
    (hsnap : ∀ term, s.leader.termAt follower.lastSnapshotIndex = .ok term →
      follower.lastSnapshotTerm = term) : ({ s with follower } : Link).Lagging i where
  leader := h.leader
  leader_nonneg := h.leader_nonneg
  state := h.state
  stable := h.stable
  matchIndex := h.matchIndex
  next := h.next
  follower := hinv
  follower_nonneg := hnonneg
  term := hterm
  log e he x hx hindex hterm := by
    obtain ⟨heq, hbelow⟩ := h.log e (hlogs e he) x hx hindex hterm
    exact ⟨heq, fun e' he' => hbelow e' (hlogs e' he')⟩
  snapshot_le := hle
  snapshotTerm := hsnap

/-- The leader looks at the log from another place. -/
lemma Lagging.setIndices (h : s.Lagging i) {nextIndex matchIndex : ℕ → ℤ}
    (hmatch : matchIndex i ≤ s.leader.getLastLogIndex) (hpos : 1 ≤ nextIndex i)
    (hle : nextIndex i ≤ s.leader.getLastLogIndex + 1) :
    ({ s with leader := { s.leader with nextIndex, matchIndex } } : Link).Lagging i where
  leader := h.leader.congr rfl rfl rfl rfl
  leader_nonneg := h.leader_nonneg
  state := h.state
  stable := h.stable
  matchIndex := hmatch
  next := ⟨hpos, hle⟩
  follower := h.follower
  follower_nonneg := h.follower_nonneg
  term := h.term
  log := h.log
  snapshot_le := h.snapshot_le
  snapshotTerm := h.snapshotTerm

/-- What `doHeartBeat` does for the peer. -/
lemma Lagging.heartBeatPeer (h : s.Lagging i) :
    s.leader.heartBeatPeer i = .ok (s.leader, none) ∧
        s.leader.nextIndex i ≤ s.leader.lastSnapshotIndex ∨
      ∃ args, s.leader.heartBeatPeer i = .ok (s.leader, some args) ∧ s.leader.HeartBeat args ∧
        s.leader.lastSnapshotIndex < s.leader.nextIndex i ∧
        args.prevlogindex = s.leader.nextIndex i - 1 := by
  have hfits : s.leader.NextFits i := ⟨h.next.1, h.stable ▸ h.next.2⟩
  obtain ⟨request, hrequest, ⟨rfl, hle⟩ | ⟨args, rfl, hlt, hprev⟩⟩ :=
    heartBeatPeer_ok h.leader (Int.le_of_eq h.stable) hfits
  · exact .inl ⟨hrequest, hle⟩
  · exact .inr ⟨args, hrequest, ((heartBeatPeer_cases hrequest).2 args rfl).1, hlt, hprev⟩

/-- The leader's snapshot puts the next index right behind it. -/
lemma Lagging.round_snapshot (h : s.Lagging i)
    (hrequest : s.leader.heartBeatPeer i = .ok (s.leader, none))
    (hnext : s.leader.nextIndex i ≤ s.leader.lastSnapshotIndex) :
    ∃ t, s.round i = .ok (t, false) ∧ (t.Lagging i ∧ t.leader.logs = s.leader.logs ∧
      t.leader.lastSnapshotIndex = s.leader.lastSnapshotIndex) ∧ t.lag i < s.lag i := by
  have hlast := h.leader.snapshot_le_last
  have hterm : s.follower.currentTerm ≤ s.leader.leaderSendSnapShot.term := h.term
  obtain ⟨follower, hinstall, hinv, hcurrent, hlogs, hsnap⟩ := installSnapshot_spec h.follower hterm
  have hhandler : s.leader.leaderSendSnapShotHandler s.leader.leaderSendSnapShot
      { term := s.leader.leaderSendSnapShot.term } i =
        { s.leader with
          matchIndex := Function.update s.leader.matchIndex i s.leader.lastSnapshotIndex
          nextIndex := Function.update s.leader.nextIndex i (s.leader.lastSnapshotIndex + 1) } := by
    have hlead : ¬ (s.leader.state ≠ .leader ∨
        s.leader.currentTerm ≠ s.leader.leaderSendSnapShot.term) :=
      not_or.mpr ⟨not_not.mpr h.state, not_not.mpr rfl⟩
    exact (if_neg hlead).trans (if_neg (Nat.lt_irrefl _))
  have hround : s.round i = .ok
      ({ leader :=
          { s.leader with
            matchIndex := Function.update s.leader.matchIndex i s.leader.lastSnapshotIndex
            nextIndex := Function.update s.leader.nextIndex i (s.leader.lastSnapshotIndex + 1) }
         follower }, false) := by
    rw [round, hrequest]
    simp only [bind, Except.bind, hinstall, hhandler]
    rfl
  have hfollower : ({ s with follower } : Link).Lagging i := by
    have hnonneg := h.follower_nonneg
    obtain ⟨hle, hindex, hsnapTerm⟩ | ⟨hlt, hindex, hsnapTerm⟩ := hsnap
    · refine h.setFollower hinv (Nat.le_of_eq hcurrent) hlogs (hindex ▸ hnonneg)
        (hindex ▸ h.snapshot_le) fun term hat => ?_
      rw [hsnapTerm]
      exact h.snapshotTerm term (hindex ▸ hat)
    · refine h.setFollower hinv (Nat.le_of_eq hcurrent) hlogs (hindex ▸ h.leader_nonneg)
        (hindex ▸ hlast) fun term hat => ?_
      rw [hindex, termAt] at hat
      rw [hsnapTerm]
      exact Except.ok.inj ((if_pos rfl).symm.trans hat)
  refine ⟨_, hround, ⟨hfollower.setIndices ?_ ?_ ?_, rfl, rfl⟩, ?_⟩
  · rw [Function.update_self]
    exact hlast
  · rw [Function.update_self]
    have := h.leader_nonneg
    omega
  · rw [Function.update_self]
    exact Int.add_le_add_right hlast 1
  · have hpos := h.next.1
    simp only [lag, Function.update_self]
    obtain ⟨hle, hindex, -⟩ | ⟨hlt, hindex, -⟩ := hsnap
    · have hle' : s.leader.lastSnapshotIndex ≤ s.follower.lastSnapshotIndex := hle
      rw [hindex]
      split_ifs <;> omega
    · have hlt' : s.follower.lastSnapshotIndex < s.leader.lastSnapshotIndex := hlt
      have hindex' : follower.lastSnapshotIndex = s.leader.lastSnapshotIndex := hindex
      rw [hindex']
      split_ifs <;> omega

/-- A rejection moves the next index towards one that is accepted. -/
lemma Lagging.round_rejected (h : s.Lagging i) {args : AppendEntriesArgs}
    (hrequest : s.leader.heartBeatPeer i = .ok (s.leader, some args))
    (hb : s.leader.HeartBeat args) (hnext : s.leader.lastSnapshotIndex < s.leader.nextIndex i)
    (hprev : args.prevlogindex = s.leader.nextIndex i - 1) {follower : Raft}
    {reply : AppendEntriesReply}
    (hreply : s.follower.appendEntries args = .ok (follower, .replied reply)) :
    ∃ t, s.round i = .ok (t, false) ∧ (t.Lagging i ∧ t.leader.logs = s.leader.logs ∧
      t.leader.lastSnapshotIndex = s.leader.lastSnapshotIndex) ∧ t.lag i < s.lag i := by
  have hterm : s.follower.currentTerm ≤ args.term := hb.term ▸ h.term
  obtain ⟨rfl, hreplyTerm, hfail, hhint⟩ := appendEntries_hint h.follower hterm hreply
  have hinv := (h.follower.appendEntries hreply).1
  have hacc := s.follower.accepted_acceptTerm hterm
  have hnonneg := h.follower_nonneg
  have habove := hhint.above
  have hhandler := handleAppendEntries_rejected (i := i) (m := args)
    (hreplyTerm.trans hb.term) h.state hfail (by omega)
  have hround : s.round i = .ok
      ({ leader :=
          { s.leader with
            nextIndex := Function.update s.leader.nextIndex i reply.updatenextindex }
         follower := (s.follower.acceptTerm args.term).persistState }, false) := by
    rw [round, hrequest]
    simp only [bind, Except.bind, hreply, pure, Except.pure, hhandler, hfail]
  -- the hint is not the index that was rejected
  have hmoves : reply.updatenextindex < s.leader.nextIndex i ∨
      s.leader.nextIndex i ≤ s.follower.lastSnapshotIndex ∧
        reply.updatenextindex = s.follower.lastSnapshotIndex + 1 := by
    obtain hle | ⟨hlt, heq⟩ | ⟨heq, hne⟩ := hhint.cases
    · exact .inl (by omega)
    · exact .inr ⟨by omega, heq⟩
    · exact absurd (h.snapshotTerm _ (heq ▸ hb.prev)) hne
  have hfollower : ({ s with follower := (s.follower.acceptTerm args.term).persistState } : Link).Lagging i :=
    h.setFollower hinv (Nat.le_of_eq (hacc.term.trans hb.term)) (fun e he => hacc.logs ▸ he)
      (Int.le_trans hnonneg (Int.le_of_eq hacc.snapshotIndex.symm))
      (Int.le_trans (Int.le_of_eq hacc.snapshotIndex) h.snapshot_le) fun term hat => by
        refine hacc.snapshotTerm.trans (h.snapshotTerm term ?_)
        rw [← hacc.snapshotIndex]
        exact hat
  have hle := h.snapshot_le
  have hfits := h.next
  refine ⟨_, hround, ⟨hfollower.setIndices h.matchIndex ?_ ?_, rfl, rfl⟩, ?_⟩
  · rw [Function.update_self]
    omega
  · rw [Function.update_self]
    show _ ≤ s.leader.getLastLogIndex + 1
    omega
  · have hsnap : (s.follower.acceptTerm args.term).persistState.lastSnapshotIndex =
        s.follower.lastSnapshotIndex := hacc.snapshotIndex
    simp only [lag, Function.update_self, hsnap]
    split_ifs <;> omega

/-- An accepted request brings the follower the rest of the log. -/
lemma Lagging.round_success (h : s.Lagging i) {args : AppendEntriesArgs}
    (hrequest : s.leader.heartBeatPeer i = .ok (s.leader, some args))
    (hb : s.leader.HeartBeat args) {follower : Raft} {pending : List PendingLogWrite}
    (hfirst : s.follower.appendEntries args = .ok (follower, .unlocked pending)) :
    ∃ t, s.round i = .ok (t, true) ∧ t.CaughtUp i ∧ t.leader.logs = s.leader.logs ∧
      t.leader.lastSnapshotIndex = s.leader.lastSnapshotIndex := by
  have hm := hb.sent h.leader
  obtain ⟨u, reply, hsecond, hsuccess, hterm, hhandled⟩ :=
    appendEntries_success h.follower h.log h.leader.aligned hm hfirst
  have hend : args.prevlogindex + args.entries.length = s.leader.getLastLogIndex :=
    hb.length.trans h.stable
  obtain ⟨leader, hleader, hlogs, hsnap, hmatch⟩ := handleAppendEntries_matched h.leader
    (hterm.trans hb.term) h.state hsuccess h.matchIndex hend
  have hround : s.round i = .ok (⟨leader, u⟩, true) := by
    rw [round, hrequest]
    simp only [bind, Except.bind, hfirst, hsecond, hleader, pure, Except.pure, hsuccess]
  have hlast : leader.getLastLogIndex = s.leader.getLastLogIndex := by
    rw [getLastLogIndex, getLastLogIndex, hlogs, hsnap]
  refine ⟨_, hround, ⟨hmatch.trans hlast.symm, fun index hlt hlt' hle => ?_⟩, hlogs, hsnap⟩
  simp only at hlt hlt' hle ⊢
  rw [hsnap] at hlt
  rw [hhandled.snapshotIndex] at hlt'
  rw [hlast] at hle
  obtain ⟨e, he, rfl⟩ := logAt_of_aligned h.leader.aligned index hlt hle
  refine ⟨e, ?_, ?_⟩
  · rw [logAt, hlogs, hsnap]
    exact he
  · have hmem := hhandled.mem_logs h.follower h.log h.leader.aligned hm
      ((mem_logs_iff h.leader.aligned).mp he) hlt' (hend ▸ hle)
    exact logAt_of_mem hhandled.index.aligned hmem

/-- Whatever the next index is that the leader begins with, the follower catches up. -/
theorem exists_caughtUp (h : s.Lagging i) :
    ∃ n t, rounds (round i) n s = .ok (t, true) ∧ t.CaughtUp i ∧
      t.leader.logs = s.leader.logs ∧ t.leader.lastSnapshotIndex = s.leader.lastSnapshotIndex := by
  refine ⟨s.lag i + 1, exists_rounds (I := fun t => t.Lagging i ∧ t.leader.logs = s.leader.logs ∧
    t.leader.lastSnapshotIndex = s.leader.lastSnapshotIndex) (f := fun t => t.lag i)
    (fun t ⟨ht, hlogs, hsnap⟩ => ?_) ⟨h, rfl, rfl⟩ (Nat.lt_succ_self _)⟩
  rw [← hlogs, ← hsnap]
  obtain ⟨hrequest, hnext⟩ | ⟨args, hrequest, hb, hnext, hprev⟩ := ht.heartBeatPeer
  · exact .inr (ht.round_snapshot hrequest hnext)
  · have hm := hb.sent ht.leader
    have hexit : ∀ e ∈ args.entries, ∀ old ∈ t.follower.logs, old.logindex = e.logindex →
        old.logterm = e.logterm → old = e := fun e he old hold hindex hterm =>
      (ht.log old hold e (hm.mem_of_entries he) hindex hterm).1
    obtain ⟨follower, phase, hfirst⟩ := appendEntries_ok ht.follower hexit
    cases phase with
    | replied reply => exact .inr (ht.round_rejected hrequest hb hnext hprev hfirst)
    | unlocked pending => exact .inl (ht.round_success hrequest hb hfirst)

/-- A follower without a log, and a leader that takes it for up to date. -/
def behind : Link where
  leader :=
    { Raft.init 0 3 { term := 1 } [] [⟨[1], 1, 1⟩, ⟨[2], 1, 2⟩] with
      state := .leader
      nextIndex := fun _ => 3 }
  follower := Raft.init 1 3 {} [] []

/-- The follower lags behind. -/
lemma lagging_behind : behind.Lagging 1 where
  leader := .of_length ((Aligned.nil.concat (e := ⟨[1], 1, 1⟩) rfl).concat (e := ⟨[2], 1, 2⟩) rfl)
    (Int.le_refl _) (Int.le_refl _) (by decide)
  leader_nonneg := Int.le_refl _
  state := rfl
  stable := rfl
  matchIndex := by decide
  next := by decide
  follower := indexInv_init 1 3
  follower_nonneg := Int.le_refl _
  term := by decide
  log _ he := by cases he
  snapshot_le := by decide
  snapshotTerm _ hat := Except.ok.inj hat

/-- From the end of its log the leader goes back to its first entry. -/
theorem exists_caughtUp_behind :
    ∃ n t, rounds (round 1) n behind = .ok (t, true) ∧ t.CaughtUp 1 ∧
      t.leader.logs = behind.leader.logs ∧
      t.leader.lastSnapshotIndex = behind.leader.lastSnapshotIndex :=
  exists_caughtUp lagging_behind

/-- Two snapshots at one index that end in different terms. -/
def disagreeing : Link where
  leader :=
    { Raft.init 0 3 { term := 2, commit_index := 1, snapshot_index := 1, snapshot_term := 2 } [] [] with
      state := .leader
      nextIndex := fun _ => 2 }
  follower := Raft.init 1 3
    { node_id := 1, term := 2, commit_index := 1, last_applied := 1, snapshot_index := 1,
      snapshot_term := 1 } [] []

/-- The follower disagrees and is faced by its leader. -/
lemma facing_disagreeing : disagreeing.Facing 1 where
  leader := .of_length Aligned.nil (Int.le_refl _) (Int.le_refl _) (by decide)
  leader_nonneg := by decide
  state := rfl
  stable := rfl
  matchIndex := by decide
  next := by decide
  follower := .of_length Aligned.nil (Int.le_refl _) (Int.le_refl _) (by decide)
  follower_nonneg := by decide
  term := by decide
  log _ he := by cases he
  snapshot_le := by decide

/-- The leader has no entry at the index of the follower's snapshot any more, but a snapshot that ends
there in another term: the hint is the index that was rejected. -/
theorem exists_never_caughtUp :
    ∃ s : Link, s.Facing 1 ∧
      (∀ e ∈ s.leader.logs, e.logindex = s.follower.lastSnapshotIndex →
        s.follower.lastSnapshotTerm = e.logterm) ∧
      ∀ n t, rounds (round 1) n s ≠ .ok (t, true) := by
  refine ⟨disagreeing, facing_disagreeing, (fun e he => by cases he), fun n t hn => ?_⟩
  have hstuck : disagreeing.round 1 = .ok (disagreeing, false) := by
    have hround : disagreeing.round 1 = .ok ({ disagreeing with
        leader := { disagreeing.leader with
          nextIndex := Function.update disagreeing.leader.nextIndex 1 2 } }, false) := rfl
    have hsame : Function.update disagreeing.leader.nextIndex 1 2 = disagreeing.leader.nextIndex :=
      Function.update_eq_self 1 disagreeing.leader.nextIndex
    rw [hround, hsame]
  cases (rounds_stuck hstuck n).symm.trans hn

end Link

end KVCacheRaft
