import KVCacheRaft.Raft.Vote
import KVCacheRaft.Raft.Append

/-!
# Clients, snapshots and the apply loop

`Start`, `onLogStable`, `applierTicker`, `Snapshot`, `InstallSnapshot`, `leaderSendSnapShot` and its
handler of `src/raft/raft.cc`. `Persister::Save` of a snapshot is taken to succeed here; it stores the
snapshot file as a whole.
-/

namespace KVCacheRaft.Raft

/-! ### Client commands -/

/-- `Start` under its lock: the entry appended, or none when the node is not leader. -/
def start (s : Raft) (command : Bytes) : Except Fault (Option (Raft × LogEntry)) :=
  if s.state ≠ .leader then return none
  else if s.getLastLogIndex ≥ intMax then throw .overflow
  else
    let logEntry : LogEntry :=
      { command, logterm := s.currentTerm, logindex := s.getLastLogIndex + 1 }
    return some ({ s with logs := s.logs ++ [logEntry] }.persistState, logEntry)

/-- `onLogStable`. -/
def onLogStable (s : Raft) (ok : Bool) (logIndex : ℤ) : Raft :=
  if !ok then
    if logIndex > s.commitIndex ∧ logIndex > s.lastSnapshotIndex then
      let offset := (logIndex - s.lastSnapshotIndex - 1).toNat
      if s.logs[offset]?.map (·.logindex) = some logIndex then
        { s with logs := s.logs.take offset }
      else s
    else s
  else if logIndex > s.stableLogIndex then { s with stableLogIndex := logIndex }.persistState
  else s

/-! ### The apply loop -/

/-- `copyLogs`, for `count` entries from `start` on. -/
def copyLogs (s : Raft) (start : ℤ) : ℕ → Except Fault (List ApplyMsg)
  | 0 => return []
  | count + 1 => do
    let entry ← s.logAt start
    -- `start++` takes `INT_MAX` to `INT_MIN`, and the loop goes on with no such place in `m_logs`
    if start ≥ intMax then throw .outOfRange
    else
      let rest ← s.copyLogs (start + 1) count
      return { CommandValid := true, Command := entry.command, CommandIndex := start } :: rest

/-- The locked part of a round of `applierTicker`: the messages it goes on to push. -/
def applierTicker (s : Raft) : Except Fault (Raft × List ApplyMsg) := do
  let logs ← s.copyLogs (s.lastApplied + 1) (s.commitIndex - s.lastApplied).toNat
  return ({ s with lastApplied := s.commitIndex }, logs)

/-- `applyChan->Push`, also `pushMsgToKvServer`. -/
def push (s : Raft) (msg : ApplyMsg) : Raft :=
  { s with applyChan := s.applyChan ++ [msg] }

/-! ### Snapshots -/

/-- The loop of `Snapshot` that copies the `count` entries from `start` on. -/
def truncatedLogs (s : Raft) (start : ℤ) : ℕ → Except Fault (List LogEntry)
  -- behind `INT_MAX` the index is `INT_MIN`, so that the loop does not end and `m_logs` has no such place
  | 0 => if start > intMax then throw .outOfRange else return []
  | count + 1 => do
    let entry ← s.logAt start
    return entry :: (← s.truncatedLogs (start + 1) count)

/-- `Snapshot`. -/
def snapshot (s : Raft) (index : ℤ) (data : Bytes) : Except Fault Raft :=
  if s.lastSnapshotIndex ≥ index ∨ index > s.commitIndex then return s
  else do
    let lastLogIndex := s.getLastLogIndex
    let entry ← s.logAt index
    let logs ← s.truncatedLogs (index + 1) (lastLogIndex - index).toNat
    let s :=
      { s with
        lastSnapshotIndex := index
        lastSnapshotTerm := entry.logterm
        logs
        commitIndex := max s.commitIndex index
        stableLogIndex := max s.stableLogIndex index
        lastApplied := max s.lastApplied index
        snapshotFile := data }
    if logs.length + index = lastLogIndex then return s.persistState else throw .assertion

/-- `leaderSendSnapShot`, which runs in a thread of its own and looks at the node as it then is. -/
def leaderSendSnapShot (s : Raft) : InstallSnapshotRequest :=
  { leaderid := s.id
    term := s.currentTerm
    lastsnapshotincludeindex := s.lastSnapshotIndex
    lastsnapshotincludeterm := s.lastSnapshotTerm
    data := s.snapshotFile }

/-- `leaderSendSnapShotHandler` for a call that completed. -/
def leaderSendSnapShotHandler (s : Raft) (args : InstallSnapshotRequest)
    (reply : InstallSnapshotResponse) (i : ℕ) : Raft :=
  if s.state ≠ .leader ∨ s.currentTerm ≠ args.term then s
  else if reply.term > s.currentTerm then (s.newTerm reply.term).persistState
  else
    { s with
      matchIndex := Function.update s.matchIndex i args.lastsnapshotincludeindex
      nextIndex := Function.update s.nextIndex i (args.lastsnapshotincludeindex + 1) }

/-- The message that hands an installed snapshot to the server. -/
def snapshotMsg (args : InstallSnapshotRequest) : ApplyMsg where
  SnapshotValid := true
  Snapshot := args.data
  SnapshotIndex := args.lastsnapshotincludeindex
  SnapshotTerm := args.lastsnapshotincludeterm

/-- `InstallSnapshot` once the request is accepted: the log is cut, the snapshot saved and pushed. -/
def installAccepted (s : Raft) (args : InstallSnapshotRequest) : Except Fault Raft :=
  let index := args.lastsnapshotincludeindex
  let erased := (index - s.lastSnapshotIndex).toNat
  let logs : Except Fault (List LogEntry) :=
    if s.getLastLogIndex > index then
      if erased ≤ s.logs.length then return s.logs.drop erased else throw .outOfRange
    else return []
  do
    let s :=
      { s with
        logs := ← logs
        commitIndex := max s.commitIndex index
        stableLogIndex := max s.stableLogIndex index
        lastApplied := max s.lastApplied index
        lastSnapshotIndex := index
        lastSnapshotTerm := args.lastsnapshotincludeterm
        snapshotFile := args.data }
    return s.persistState.push (snapshotMsg args)

/-- `InstallSnapshot`. -/
def installSnapshot (s : Raft) (args : InstallSnapshotRequest) :
    Except Fault (Raft × InstallSnapshotResponse) :=
  if args.term < s.currentTerm then return (s, { term := s.currentTerm })
  else
    let s := if args.term > s.currentTerm then (s.newTerm args.term).persistState else s
    let s := { s with state := .follower }
    if args.lastsnapshotincludeindex ≤ s.lastSnapshotIndex then
      return (s, { term := s.currentTerm })
    else do
      let s ← s.installAccepted args
      return (s, { term := s.currentTerm })

end KVCacheRaft.Raft
