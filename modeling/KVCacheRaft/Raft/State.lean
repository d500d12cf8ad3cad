import Mathlib.Tactic.Common
import Mathlib.Data.Nat.Basic
import Mathlib.Logic.Function.Basic

/-!
# The state of a Raft node

The data of `class raft` (`include/raft/raft.h`), of the messages in `proto/raftRPC.proto` and of
`ApplyMsg`, under the source's names without the `m_` prefix. `int` fields that the code computes
offsets from are `ℤ`; terms, which only ever grow from `0`, are `ℕ`. A `std::string` is a list of
bytes.

A handler that fails an assertion, reads `m_logs` out of range or calls `exit(-1)` ends the process:
it returns a `Fault` instead of a state.
-/

namespace KVCacheRaft

/-- The contents of a `std::string`. -/
abbrev Bytes := List UInt8

/-- `raftRpcProctoc::LogEntry`. -/
structure LogEntry where
  command : Bytes
  logterm : ℕ
  logindex : ℤ
deriving DecidableEq

/-- `raft::Identity`. -/
inductive Identity where
  | follower | leader | candidate
deriving DecidableEq

/-- `raft::Vote`, the `VoteState` of a reply. -/
inductive Vote where
  | voted | normal | killed | expired
deriving DecidableEq

/-- `ApplyMsg`, what the Raft layer hands to the server. -/
structure ApplyMsg where
  CommandValid : Bool := false
  Command : Bytes := []
  CommandIndex : ℤ := -1
  SnapshotValid : Bool := false
  Snapshot : Bytes := []
  SnapshotTerm : ℤ := -1
  SnapshotIndex : ℤ := -1
deriving DecidableEq

/-! ### Messages -/

/-- `raftRpcProctoc::AppendEntriesArgs`. -/
structure AppendEntriesArgs where
  term : ℕ
  leaderid : ℤ
  prevlogindex : ℤ
  prevlogterm : ℕ
  entries : List LogEntry
  leadercommit : ℤ
deriving DecidableEq

/-- `raftRpcProctoc::AppendEntriesReply`. -/
structure AppendEntriesReply where
  term : ℕ
  success : Bool
  updatenextindex : ℤ
deriving DecidableEq

/-- `raftRpcProctoc::RequestVoteArgs`. -/
structure RequestVoteArgs where
  term : ℕ
  candidateid : ℤ
  lastlogindex : ℤ
  lastlogterm : ℕ
deriving DecidableEq

/-- `raftRpcProctoc::RequestVoteReply`. -/
structure RequestVoteReply where
  term : ℕ
  votegranted : Bool
  votestate : Vote
deriving DecidableEq

/-- `raftRpcProctoc::InstallSnapshotRequest`. -/
structure InstallSnapshotRequest where
  leaderid : ℤ
  term : ℕ
  lastsnapshotincludeindex : ℤ
  lastsnapshotincludeterm : ℕ
  data : Bytes
deriving DecidableEq

/-- `raftRpcProctoc::InstallSnapshotResponse`. -/
structure InstallSnapshotResponse where
  term : ℕ
deriving DecidableEq

/-! ### The node -/

/-- `Persister::NodeInfo`, the metadata mapped from `raftNode_<me>_info.txt`: what `persistState`
stores and `init` reads back. Its `uint32_t` fields are read back into the `int`s they were stored
from, so they are kept as those. -/
structure NodeInfo where
  node_id : ℕ := 0
  role : Identity := .follower
  commit_index : ℤ := 0
  last_applied : ℤ := 0
  log_len : ℕ := 0
  term : ℕ := 0
  snapshot_index : ℤ := 0
  snapshot_term : ℕ := 0
  votedFor : ℤ := 0
deriving DecidableEq

/-- `class raft`, with the part of its `Persister` that outlives the process: the mapped `NodeInfo`
(`fmp`) and the snapshot file. `applyChan` holds everything ever pushed, oldest first. -/
structure Raft where
  id : ℕ
  /-- `m_peers.size()`, the node itself included -/
  peers : ℕ
  logs : List LogEntry
  commitIndex : ℤ
  stableLogIndex : ℤ
  lastSnapshotIndex : ℤ
  lastSnapshotTerm : ℕ
  nextIndex : ℕ → ℤ
  matchIndex : ℕ → ℤ
  state : Identity
  currentTerm : ℕ
  voteForId : ℤ
  lastApplied : ℤ
  applyChan : List ApplyMsg
  fmp : NodeInfo
  snapshotFile : Bytes

/-- The ways in which a handler ends the process. -/
inductive Fault where
  /-- an `assert` that fails -/
  | assertion
  /-- an access beyond the ends of a vector -/
  | outOfRange
  /-- an `int` beyond `INT_MAX` -/
  | overflow
  /-- the `exit(-1)` of `AppendEntries` -/
  | exit
deriving DecidableEq

/-- `INT_MAX`. -/
def intMax : ℤ := 2147483647

/-- `v[i]` on a vector, with an `int` subscript. -/
def vecGet {α : Type} (v : List α) (i : ℤ) : Except Fault α :=
  if i < 0 then .error .outOfRange
  else match v[i.toNat]? with
    | some a => .ok a
    | none => .error .outOfRange

/-- An element is read at its place. -/
lemma vecGet_eq_ok {α : Type} {v : List α} {i : ℤ} {a : α} :
    vecGet v i = .ok a ↔ 0 ≤ i ∧ v[i.toNat]? = some a := by
  unfold vecGet
  split_ifs with h
  · simp; omega
  · cases hv : v[i.toNat]? with
    | none => simp
    | some b => simp; omega

namespace Raft

/-- `m_logs[index - m_lastSnapshotIndex - 1]`. -/
def logAt (s : Raft) (index : ℤ) : Except Fault LogEntry :=
  vecGet s.logs (index - s.lastSnapshotIndex - 1)

/-- `getLastLogIndex`, by `getLastLogIndexandTerm`. -/
def getLastLogIndex (s : Raft) : ℤ :=
  match s.logs.getLast? with
  | none => s.lastSnapshotIndex
  | some e => e.logindex

/-- `getLastLogTerm`, by `getLastLogIndexandTerm`. -/
def getLastLogTerm (s : Raft) : ℕ :=
  match s.logs.getLast? with
  | none => s.lastSnapshotTerm
  | some e => e.logterm

/-- The term at `index`: that of the snapshot at its own index, else that of the entry there. -/
def termAt (s : Raft) (index : ℤ) : Except Fault ℕ :=
  if index = s.lastSnapshotIndex then .ok s.lastSnapshotTerm
  else (s.logAt index).map (·.logterm)

/-- `persistState`. -/
def persistState (s : Raft) : Raft :=
  { s with
    fmp :=
      { node_id := s.id
        role := s.state
        commit_index := s.commitIndex
        last_applied := s.lastApplied
        log_len := s.logs.length
        term := s.currentTerm
        snapshot_index := s.lastSnapshotIndex
        snapshot_term := s.lastSnapshotTerm
        votedFor := s.voteForId } }

/-- `init` over the metadata of an earlier process and the log `ReadPersistedLogs` recovers. -/
def init (id peers : ℕ) (fmp : NodeInfo) (snapshotFile : Bytes) (logs : List LogEntry) : Raft :=
  let s : Raft :=
    { id, peers, logs
      commitIndex := fmp.commit_index
      stableLogIndex := 0
      lastSnapshotIndex := fmp.snapshot_index
      lastSnapshotTerm := fmp.snapshot_term
      nextIndex := fun _ => 0
      matchIndex := fun _ => 0
      state := .follower
      currentTerm := fmp.term
      voteForId := fmp.votedFor
      lastApplied := if fmp.snapshot_index > 0 then fmp.snapshot_index else 0
      applyChan := []
      fmp, snapshotFile }
  { s with stableLogIndex := s.getLastLogIndex }

end Raft

end KVCacheRaft
