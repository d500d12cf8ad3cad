import KVCacheRaft.Wal.Metadata
import Mathlib.Tactic.IntervalCases

/-!
# A call operation by operation

`persistState` stores the fields of `NodeInfo` one after another into the mapped file, the snapshot
index first, then the snapshot term, then the commit index. A call under `m_mtx` is the list of its
writes to the members of the node and of these stores; `foldl_ops` says that together they are the call.
-/

namespace KVCacheRaft

open Machine Raft

/-! ### Stores -/

/-- The mapped file after `persistState` has stored field `k`. -/
def storeField (fmp info : NodeInfo) : ℕ → NodeInfo
  | 0 => { fmp with node_id := info.node_id }
  | 1 => { fmp with snapshot_index := info.snapshot_index }
  | 2 => { fmp with snapshot_term := info.snapshot_term }
  | 3 => { fmp with commit_index := info.commit_index }
  | 4 => { fmp with last_applied := info.last_applied }
  | 5 => { fmp with log_len := info.log_len }
  | 6 => { fmp with role := info.role }
  | 7 => { fmp with term := info.term }
  | 8 => { fmp with votedFor := info.votedFor }
  | _ => fmp

/-- These are the stores that `Snapshot` and `InstallSnapshot` make between their operations on files. -/
lemma storeInfo_eq (info : NodeInfo) :
    storeInfo info = (List.range 9).map fun k => .store (storeField · info k) := rfl

/-- What an operation of a call is to the memory of the node and to the mapped file. -/
inductive CallOp where
  /-- the members of the node are written; `settled` if index and term of the snapshot belong together -/
  | write (memory : Raft) (settled : Bool)
  /-- `persistState` loads and stores field `k` -/
  | store (k : ℕ)

namespace CallOp

def apply (r : Raft) : CallOp → Raft
  | .write memory _ => { memory with fmp := r.fmp }
  | .store k => { r with fmp := storeField r.fmp r.persistState.fmp k }

/-- The snapshot that the node has then. -/
def held : CallOp → List (ℤ × ℕ)
  | .write memory true => [memory.lastSnapshot]
  | .write _ false | .store _ => []

end CallOp

namespace NodeCall

/-- `persistState`. -/
def stores : List CallOp := (List.range 9).map .store

/-- The call ends with a `persistState` under the lock. -/
def persists (r : Raft) : NodeCall → Bool
  | .requestVote request =>
    r.currentTerm ≤ request.term && (r.catchUp request.term).upToDate request
  | .handleRequestVoteResponse args reply votedNum =>
    reply.term > r.currentTerm ∨ reply.term = r.currentTerm ∧ r.state = .candidate ∧
      args.term = r.currentTerm ∧ reply.votegranted = true ∧ votedNum + 1 ≥ r.peers / 2 + 1
  | .start _ | .appendEntriesStable _ _ _ => true
  | .onLogStable ok logIndex => ok && logIndex > r.stableLogIndex
  | .appendEntries request => r.currentTerm ≤ request.term &&
    match r.appendEntries request with
    | .ok (_, .replied _) => true
    | _ => false
  | .installSnapshot args => (SnapshotCall.installSnapshot args).Accepted r
  | .leaderSendSnapShotHandler args reply _ =>
    r.state == .leader && r.currentTerm == args.term && reply.term > r.currentTerm
  | .snapshot index data => (SnapshotCall.snapshot index data).Accepted r
  | .doElection | .doHeartBeat | .handleAppendEntries _ _ _ | .applierTicker | .push _ => false

/-- A request of a newer term is stored before the call does anything else. -/
def newTermOps (r : Raft) (c : NodeCall) : List CallOp :=
  match c.newTerm r with
  | none => []
  | some term => .write (r.newTerm term) true :: stores

/-- The writes to the members of the node, up to the result `r'`. Only those of a new snapshot are told
apart, in their order. -/
def writes (r r' : Raft) (c : NodeCall) : List CallOp :=
  match c, c.taken r with
  | .snapshot _ _, some (index, term) =>
    let indexed := { r with lastSnapshotIndex := index }
    let termed := { indexed with lastSnapshotTerm := term }
    let logged := { termed with logs := r'.logs }
    let committed := { logged with commitIndex := r'.commitIndex }
    [.write indexed false, .write termed true, .write logged true, .write committed true, .write r' true]
  | .installSnapshot args, some (index, _) =>
    let followed := r.follow args.term
    let logged := { followed with logs := r'.logs }
    let committed := { logged with commitIndex := r'.commitIndex }
    let applied := { committed with lastApplied := r'.lastApplied }
    let indexed := { applied with lastSnapshotIndex := index }
    [.write followed true, .write logged true, .write committed true, .write applied true,
      .write indexed false, .write r' true]
  | _, _ => [.write r' true]

/-- What a call that comes to `r'` does one after the other while it holds `m_mtx`. -/
def ops (r r' : Raft) (c : NodeCall) : List CallOp :=
  c.newTermOps r ++ c.writes r r' ++ if c.persists r then stores else []

end NodeCall

/-! ### A call by itself -/

/-- The three fields that tell of the snapshot. -/
lemma storeField_eq (fmp info : NodeInfo) (k : ℕ) :
    (storeField fmp info k).snapshot_index =
        (if k = 1 then info.snapshot_index else fmp.snapshot_index) ∧
      (storeField fmp info k).snapshot_term =
        (if k = 2 then info.snapshot_term else fmp.snapshot_term) ∧
      (storeField fmp info k).commit_index = (if k = 3 then info.commit_index else fmp.commit_index) := by
  obtain hlt | hge := Nat.lt_or_ge k 9
  · interval_cases k <;> exact ⟨rfl, rfl, rfl⟩
  · obtain ⟨k, rfl⟩ := Nat.exists_eq_add_of_le' hge
    rw [if_neg (by omega), if_neg (by omega), if_neg (by omega)]
    exact ⟨rfl, rfl, rfl⟩

namespace NodeCall

variable {r r' : Raft} {c : NodeCall}

/-- Stores change the mapped file only. -/
lemma foldl_store (r : Raft) (ks : List ℕ) :
    (ks.map CallOp.store).foldl CallOp.apply r =
      { r with fmp := ks.foldl (storeField · r.persistState.fmp ·) r.fmp } := by
  induction ks generalizing r with
  | nil => rfl
  | cons k ks ih =>
    rw [List.map_cons, List.foldl_cons, ih]
    rfl

/-- All stores together are `persistState`. -/
lemma foldl_stores (r : Raft) : stores.foldl CallOp.apply r = r.persistState := by
  have hall : ∀ fmp info : NodeInfo, (List.range 9).foldl (storeField · info ·) fmp = info := by
    intro fmp info
    have hrange : List.range 9 = [0, 1, 2, 3, 4, 5, 6, 7, 8] := rfl
    simp only [hrange, List.foldl_cons, List.foldl_nil, storeField]
  rw [stores, foldl_store, hall]
  rfl

/-- The three fields after some of the stores. -/
lemma foldl_take_stores (r : Raft) {k : ℕ} (hk : k ≤ 9) :
    ((stores.take k).foldl CallOp.apply r).fmp.snapshot_index =
        (if k < 2 then r.fmp.snapshot_index else r.lastSnapshotIndex) ∧
      ((stores.take k).foldl CallOp.apply r).fmp.snapshot_term =
        (if k < 3 then r.fmp.snapshot_term else r.lastSnapshotTerm) ∧
      ((stores.take k).foldl CallOp.apply r).fmp.commit_index =
        (if k < 4 then r.fmp.commit_index else r.commitIndex) := by
  have hsome : ∀ (fmp info : NodeInfo) (k : ℕ),
      ((List.range k).foldl (storeField · info ·) fmp).snapshot_index =
          (if k < 2 then fmp.snapshot_index else info.snapshot_index) ∧
        ((List.range k).foldl (storeField · info ·) fmp).snapshot_term =
          (if k < 3 then fmp.snapshot_term else info.snapshot_term) ∧
        ((List.range k).foldl (storeField · info ·) fmp).commit_index =
          (if k < 4 then fmp.commit_index else info.commit_index) := by
    intro fmp info k
    induction k with
    | zero => exact ⟨rfl, rfl, rfl⟩
    | succ k ih =>
      obtain ⟨hindex, hterm, hcommit⟩ := ih
      obtain ⟨hindex', hterm', hcommit'⟩ :=
        storeField_eq ((List.range k).foldl (storeField · info ·) fmp) info k
      rw [List.range_succ, List.foldl_append, List.foldl_cons, List.foldl_nil, hindex', hterm', hcommit',
        hindex, hterm, hcommit]
      refine ⟨?_, ?_, ?_⟩
      · split_ifs <;> first | rfl | omega
      · split_ifs <;> first | rfl | omega
      · split_ifs <;> first | rfl | omega
  rw [stores, ← List.map_take, List.take_range, Nat.min_eq_left hk, foldl_store]
  exact hsome r.fmp r.persistState.fmp k

/-- The first stores of a call are those of its newer term. -/
lemma foldl_newTermOps (r : Raft) (c : NodeCall) :
    (c.newTermOps r).foldl CallOp.apply r = match c.newTerm r with
      | none => r
      | some term => (r.newTerm term).persistState := by
  rw [newTermOps]
  cases c.newTerm r with
  | none => rfl
  | some term =>
    rw [List.foldl_cons, foldl_stores]
    rfl

/-- The last write is that of the result. -/
lemma exists_writes (r r' : Raft) (c : NodeCall) :
    ∃ init, c.writes r r' = init ++ [.write r' true] := by
  unfold writes
  split
  · exact ⟨[_, _, _, _], rfl⟩
  · exact ⟨[_, _, _, _, _], rfl⟩
  · exact ⟨[], rfl⟩

/-- A call that takes no snapshot writes once. -/
lemma writes_of_taken (htaken : c.taken r = none) : c.writes r r' = [.write r' true] := by
  unfold writes
  split <;> simp_all

/-- The writes leave the mapped file. -/
lemma foldl_writes_fmp (r r' x : Raft) (c : NodeCall) {before : List CallOp}
    (hbefore : before <+: c.writes r r') : (before.foldl CallOp.apply x).fmp = x.fmp := by
  have hwrites : ∀ op ∈ c.writes r r', ∃ memory settled, op = .write memory settled := by
    unfold writes
    split <;> simp
  refine foldl_eq (f := Raft.fmp) fun y op hop => ?_
  obtain ⟨memory, settled, rfl⟩ := hwrites op (hbefore.subset hop)
  rfl

/-- The writes of a call leave the memory that its handler leaves. -/
lemma foldl_writes (r r' x : Raft) (c : NodeCall) :
    (c.writes r r').foldl CallOp.apply x = { r' with fmp := x.fmp } := by
  have hfmp := foldl_writes_fmp r r' x c List.prefix_rfl
  obtain ⟨init, hinit⟩ := exists_writes r r' c
  rw [hinit, List.foldl_append] at hfmp ⊢
  simp only [List.foldl_cons, List.foldl_nil, CallOp.apply] at hfmp ⊢
  rw [hfmp]

/-- The mapped file behind the stores for a newer term. -/
def fmpOfTerm (r : Raft) (c : NodeCall) : NodeInfo :=
  match c.newTerm r with
  | none => r.fmp
  | some term => (r.newTerm term).persistState.fmp

/-- The mapped file that a call which comes to `r'` leaves. -/
def fmpAfter (r r' : Raft) (c : NodeCall) : NodeInfo :=
  if c.persists r then r'.persistState.fmp else c.fmpOfTerm r

/-- A vote request takes the node to its term first. -/
lemma fmpOfTerm_requestVote (r : Raft) (request : RequestVoteArgs) :
    (NodeCall.requestVote request).fmpOfTerm r = (r.catchUp request.term).fmp := by
  rw [Raft.catchUp, fmpOfTerm, newTerm]
  split_ifs <;> rfl

/-- A snapshot takes the node to its term first. -/
lemma fmpOfTerm_installSnapshot (r : Raft) (args : InstallSnapshotRequest) :
    (NodeCall.installSnapshot args).fmpOfTerm r = (r.catchUp args.term).fmp := by
  rw [Raft.catchUp, fmpOfTerm, newTerm]
  split_ifs <;> rfl

/-- A refusal stores nothing in an old term, and nothing more if the candidate is behind. -/
lemma fmp_requestVote (r : Raft) (request : RequestVoteArgs) :
    (r.requestVote request).1.fmp =
      (NodeCall.requestVote request).fmpAfter r (r.requestVote request).1 := by
  rw [fmpAfter, fmpOfTerm_requestVote, persists]
  by_cases hold : request.term < r.currentTerm
  · have hsame : r.catchUp request.term = r := if_neg (by omega)
    rw [Raft.requestVote, if_pos hold, hsame]
    simp [Nat.not_le.mpr hold]
  · have hrun : r.requestVote request = (fun s : Raft =>
        if !s.upToDate request then
          (s, { term := s.currentTerm, votegranted := false, votestate := .voted })
        else if s.voteForId ≠ -1 ∧ s.voteForId ≠ request.candidateid then
          (s.persistState, { term := s.currentTerm, votegranted := false, votestate := .voted })
        else
          ({ s with voteForId := request.candidateid }.persistState,
            { term := s.currentTerm, votegranted := true, votestate := .normal }))
        (r.catchUp request.term) := by
      rw [Raft.requestVote, if_neg hold]
      rfl
    rw [hrun]
    simp only [Nat.not_lt.mp hold, decide_true, Bool.true_and]
    cases hup : (r.catchUp request.term).upToDate request with
    | false => simp
    | true =>
      simp only [Bool.not_true, Bool.false_eq_true, if_false, if_true]
      split_ifs <;> rfl

/-- An answer is stored if it brings a newer term or the last vote that was needed. -/
lemma fmp_handleRequestVoteResponse (r : Raft) (args : RequestVoteArgs) (reply : RequestVoteReply)
    (votedNum : ℕ) :
    (r.handleRequestVoteResponse args reply votedNum).1.fmp =
      (NodeCall.handleRequestVoteResponse args reply votedNum).fmpAfter r
        (r.handleRequestVoteResponse args reply votedNum).1 := by
  rw [Raft.handleRequestVoteResponse, fmpAfter, persists]
  by_cases hnewer : reply.term > r.currentTerm
  · rw [if_pos hnewer, if_pos (decide_eq_true (.inl hnewer))]
    rfl
  rw [if_neg hnewer]
  by_cases hleader : reply.term = r.currentTerm ∧ r.state = .candidate ∧ args.term = r.currentTerm ∧
      reply.votegranted = true ∧ votedNum + 1 ≥ r.peers / 2 + 1
  · rw [if_pos (decide_eq_true (.inr hleader))]
    obtain ⟨hterm, hstate, hargs, hgranted, hmajority⟩ := hleader
    rw [if_neg (by omega), if_neg (by simp [hstate, hargs]), if_neg (by simp [hgranted]),
      if_pos hmajority]
    rfl
  · rw [decide_eq_false (not_or.mpr ⟨hnewer, hleader⟩), if_neg Bool.false_ne_true]
    split_ifs with holder hstate hgranted hmajority
    · rfl
    · rfl
    · rfl
    · push Not at hstate
      exact absurd ⟨by omega, hstate.1, hstate.2, by simpa using hgranted, hmajority⟩ hleader
    · rfl

/-- The first locked part of `AppendEntries` stores what it replies at once. -/
lemma fmp_appendEntries {request : AppendEntriesArgs} {phase : AppendPhase}
    (h : r.appendEntries request = .ok (r', phase)) :
    r'.fmp = (NodeCall.appendEntries request).fmpAfter r r' := by
  rw [fmpAfter, fmpOfTerm, persists, h]
  obtain ⟨hlt, rfl, -⟩ | ⟨hle, rfl, hint, rfl⟩ | ⟨-, rfl, -, -, writes, -, rfl⟩ :=
    appendEntries_cases h
  · simp [Nat.not_le.mpr hlt, newTerm]
  · simp only [hle, decide_true, Bool.and_self, if_true]
    rfl
  · simp [newTerm]

/-- An accepted snapshot of a leader is stored behind its term. -/
lemma fmp_installSnapshot {args : InstallSnapshotRequest} {reply : InstallSnapshotResponse}
    (h : r.installSnapshot args = .ok (r', reply)) :
    r'.fmp = (NodeCall.installSnapshot args).fmpAfter r r' := by
  rw [fmpAfter, fmpOfTerm_installSnapshot, persists]
  by_cases haccepted : (SnapshotCall.installSnapshot args).Accepted r
  · rw [if_pos (decide_eq_true haccepted)]
    have hbounds :
        r.currentTerm ≤ args.term ∧ r.lastSnapshotIndex < args.lastsnapshotincludeindex := haccepted
    obtain ⟨hterm, hlt⟩ := hbounds
    have hsame : (r.follow args.term).lastSnapshotIndex = r.lastSnapshotIndex := by
      show (r.catchUp args.term).lastSnapshotIndex = _
      rw [Raft.catchUp]
      split_ifs <;> rfl
    rw [Raft.installSnapshot, if_neg (Nat.not_lt.mpr hterm)] at h
    obtain ⟨s, hs, h⟩ := bind_eq_ok.mp ((if_neg (Int.not_le.mpr (hsame ▸ hlt))).symm.trans h)
    obtain ⟨rfl, -⟩ := Prod.mk.inj (pure_eq_ok.mp h)
    obtain rfl := installAccepted_cases hs
    rfl
  · rw [if_neg (by simpa using haccepted)]
    obtain ⟨hlt, rfl⟩ | ⟨-, rfl⟩ | ⟨hterm, hlt, -⟩ := installSnapshot_cases h
    · rw [Raft.catchUp, if_neg (by omega)]
    · rfl
    · exact absurd ⟨hterm, hlt⟩ haccepted

/-- An accepted snapshot of the server is stored. -/
lemma fmp_snapshot {index : ℤ} {data : Bytes} (h : r.snapshot index data = .ok r') :
    r'.fmp = (NodeCall.snapshot index data).fmpAfter r r' := by
  rw [fmpAfter, persists]
  by_cases haccepted : (SnapshotCall.snapshot index data).Accepted r
  · rw [if_pos (decide_eq_true haccepted)]
    have hbounds : r.lastSnapshotIndex < index ∧ index ≤ r.commitIndex ∧
      r.getLastLogIndex < intMax := haccepted
    rw [Raft.snapshot, if_neg (by omega)] at h
    obtain ⟨e, -, h⟩ := bind_eq_ok.mp h
    obtain ⟨logs, -, h⟩ := bind_eq_ok.mp h
    split_ifs at h
    obtain rfl := pure_eq_ok.mp h
    rfl
  · rw [if_neg (by simpa using haccepted)]
    obtain rfl | ⟨hlt, hle, -⟩ := snapshot_cases h
    · rfl
    · exact absurd ⟨hlt, hle, snapshot_last_lt h hlt hle⟩ haccepted

/-- What the handlers leave in the mapped file. -/
lemma fmp_of_run (hr : c.run r = some r') : r'.fmp = c.fmpAfter r r' := by
  cases c with
  | doElection =>
    obtain ⟨⟨r', requests⟩, hcall, rfl⟩ := Option.map_eq_some_iff.mp hr
    obtain ⟨-, rfl, -⟩ := doElection_cases hcall
    rfl
  | requestVote request =>
    obtain rfl := Option.some.inj hr
    exact fmp_requestVote r request
  | handleRequestVoteResponse args reply votedNum =>
    obtain rfl := Option.some.inj hr
    exact fmp_handleRequestVoteResponse r args reply votedNum
  | start command =>
    obtain ⟨⟨r', e⟩, hcall, rfl⟩ := Option.map_eq_some_iff.mp hr
    obtain ⟨-, rfl, rfl⟩ := start_cases (join_toOption_eq_some.mp hcall)
    rfl
  | onLogStable ok logIndex =>
    obtain rfl := Option.some.inj hr
    unfold Raft.onLogStable fmpAfter persists
    simp only
    split_ifs <;> simp_all [fmpOfTerm, newTerm, persistState]
    omega
  | doHeartBeat =>
    obtain ⟨⟨r', requests, snapshots⟩, hcall, rfl⟩ := Option.map_eq_some_iff.mp hr
    obtain ⟨⟨nextIndex, rfl⟩, -⟩ := heartBeatPeers_cases (toOption_eq_some.mp hcall)
    rfl
  | appendEntries request =>
    obtain ⟨⟨r', phase⟩, hcall, rfl⟩ := Option.map_eq_some_iff.mp hr
    exact fmp_appendEntries (toOption_eq_some.mp hcall)
  | appendEntriesStable request pending stable =>
    obtain ⟨⟨r', reply⟩, hcall, rfl⟩ := Option.map_eq_some_iff.mp hr
    obtain ⟨rfl, -⟩ | ⟨-, -, happly⟩ :=
      appendEntriesStable_cases (toOption_eq_some.mp hcall)
    · rfl
    · obtain ⟨logs, last, -, -, rfl, -⟩ := applyEntries_cases happly
      rfl
  | handleAppendEntries server args reply =>
    obtain ⟨-, rfl⟩ | ⟨nextIndex, rfl⟩ | ⟨-, -, -, hadvance⟩ :=
      handleAppendEntries_cases (toOption_eq_some.mp hr)
    · rfl
    · rfl
    · obtain rfl | ⟨index, e, rfl, -⟩ := advanceCommitIndex_cases hadvance <;> rfl
  | installSnapshot args =>
    obtain ⟨⟨r', reply⟩, hcall, rfl⟩ := Option.map_eq_some_iff.mp hr
    exact fmp_installSnapshot (toOption_eq_some.mp hcall)
  | leaderSendSnapShotHandler args reply i =>
    obtain rfl := Option.some.inj hr
    unfold Raft.leaderSendSnapShotHandler fmpAfter persists
    split_ifs <;> simp_all [fmpOfTerm, newTerm, persistState]
    omega
  | snapshot index data => exact fmp_snapshot (toOption_eq_some.mp hr)
  | applierTicker =>
    obtain ⟨⟨r', msgs⟩, hcall, rfl⟩ := Option.map_eq_some_iff.mp hr
    obtain ⟨rfl, -⟩ := applierTicker_cases (toOption_eq_some.mp hcall)
    rfl
  | push msg =>
    obtain rfl := Option.some.inj hr
    rfl

/-- A call that nothing comes in between of leaves what its handler does. -/
theorem foldl_ops (hr : c.run r = some r') : (c.ops r r').foldl CallOp.apply r = r' := by
  have hfmp := fmp_of_run hr
  have hbase : ((c.newTermOps r).foldl CallOp.apply r).fmp = c.fmpOfTerm r := by
    rw [foldl_newTermOps, fmpOfTerm]
    cases c.newTerm r <;> rfl
  rw [fmpAfter] at hfmp
  rw [ops, List.foldl_append, List.foldl_append, foldl_writes, hbase]
  split_ifs at hfmp ⊢
  · rw [foldl_stores]
    exact congrArg (fun fmp => { r' with fmp }) hfmp.symm
  · exact congrArg (fun fmp => { r' with fmp }) hfmp.symm

end NodeCall

end KVCacheRaft
