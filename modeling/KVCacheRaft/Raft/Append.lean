import KVCacheRaft.Raft.State

/-!
# Log replication

`AppendEntries`, `doHeartBeat`, `handleAppendEntries` and `advanceCommitIndex` of `src/raft/raft.cc`.
`AppendEntries` releases `m_mtx` while its batch is written to the WAL, so it is two functions:
`appendEntries` is the part up to the `unlock`, which either replies or leaves the writes it has
decided on, and `appendEntriesStable` is the part from the second `lock` on.
-/

namespace KVCacheRaft

/-- `PendingLogWrite` of `AppendEntries`. -/
structure PendingLogWrite where
  vecIndex : ℤ
  append : Bool
  log : LogEntry
deriving DecidableEq

/-- What the first locked part of `AppendEntries` ends with. -/
inductive AppendPhase where
  /-- a reply, without writing anything -/
  | replied (reply : AppendEntriesReply)
  /-- the writes to make stable before the lock is taken again -/
  | unlocked (pendingWrites : List PendingLogWrite)
deriving DecidableEq

namespace Raft

/-! ### The follower -/

/-- A rejection with a hint for the leader's `m_nextIndex`. -/
def rejected (s : Raft) (updatenextindex : ℤ) : AppendEntriesReply :=
  { term := s.currentTerm, success := false, updatenextindex }

/-- The loop of `AppendEntries` over the request's entries: what to append and what to replace.
`last` is the last index of the log. -/
def pendingWrites (s : Raft) (last : ℤ) : List LogEntry → Except Fault (List PendingLogWrite)
  | [] => .ok []
  | log :: rest =>
    if log.logindex ≤ s.lastSnapshotIndex then s.pendingWrites last rest
    else if log.logindex > last then
      return { vecIndex := -1, append := true, log } :: (← s.pendingWrites last rest)
    else do
      let old ← s.logAt log.logindex
      if old.logterm = log.logterm ∧ old.command ≠ log.command then throw .exit
      else if old.logterm ≠ log.logterm then
        return { vecIndex := log.logindex - s.lastSnapshotIndex - 1, append := false, log } ::
          (← s.pendingWrites last rest)
      else s.pendingWrites last rest

/-- The loop of `AppendEntries` that looks for the start of the run of entries of term `prevTerm`,
from the index `m_lastSnapshotIndex + k` down. -/
def conflictIndex (s : Raft) (prevTerm : ℕ) : ℕ → Except Fault ℤ
  | 0 => .ok (s.lastSnapshotIndex + 1)
  | k + 1 => do
    let term ← s.termAt (s.lastSnapshotIndex + (k + 1))
    if term ≠ prevTerm then return s.lastSnapshotIndex + (k + 1) + 1
    else s.conflictIndex prevTerm k

/-- The node after `AppendEntries` has accepted the term of the request. -/
def acceptTerm (s : Raft) (term : ℕ) : Raft :=
  if term > s.currentTerm then
    { s with state := .follower, currentTerm := term, voteForId := -1 }
  else { s with state := .follower }

/-- `AppendEntries` up to `lock.unlock()`. -/
def appendEntries (s : Raft) (request : AppendEntriesArgs) : Except Fault (Raft × AppendPhase) :=
  if request.term < s.currentTerm then return (s, .replied (s.rejected (-100)))
  else
    let s := s.acceptTerm request.term
    let last := s.getLastLogIndex
    if request.prevlogindex > last then
      return (s.persistState, .replied (s.rejected (last + 1)))
    else if request.prevlogindex < s.lastSnapshotIndex then
      return (s.persistState, .replied (s.rejected (s.lastSnapshotIndex + 1)))
    else do
      let prevLogTerm ← s.termAt request.prevlogindex
      if request.prevlogterm = prevLogTerm then
        return (s, .unlocked (← s.pendingWrites last request.entries))
      else
        let hint ← s.conflictIndex prevLogTerm
          (request.prevlogindex - s.lastSnapshotIndex).toNat
        return (s.persistState, .replied (s.rejected hint))

/-- The loop that checks that the pending writes can still be applied; `simulatedLastIndex` is the
last index after the ones before. A result is the hint of the rejection. -/
def checkPending (s : Raft) (simulatedLastIndex : ℤ) : List PendingLogWrite → Option ℤ
  | [] => none
  | item :: rest =>
    if item.log.logindex ≤ s.lastSnapshotIndex then s.checkPending simulatedLastIndex rest
    else if item.append then
      if item.log.logindex ≠ simulatedLastIndex + 1 then some (simulatedLastIndex + 1)
      else s.checkPending item.log.logindex rest
    else if item.vecIndex < 0 ∨ item.vecIndex ≥ s.logs.length then some (s.getLastLogIndex + 1)
    else if s.logs[item.vecIndex.toNat]?.map (·.logindex) ≠ some item.log.logindex then
      some (s.getLastLogIndex + 1)
    else s.checkPending simulatedLastIndex rest

/-- One round of the loop that applies the pending writes to `m_logs`. -/
def applyPending (s : Raft) (logs : List LogEntry) (item : PendingLogWrite) : List LogEntry :=
  if item.log.logindex ≤ s.lastSnapshotIndex then logs
  else if item.append then logs ++ [item.log]
  else logs.set item.vecIndex.toNat item.log

/-- The end of `AppendEntries`, once the writes are known to apply. -/
def applyEntries (s : Raft) (request : AppendEntriesArgs) (pending : List PendingLogWrite) :
    Except Fault (Raft × AppendEntriesReply) :=
  let s := { s with logs := pending.foldl s.applyPending s.logs }
  let last := s.getLastLogIndex
  let s := { s with stableLogIndex := max s.stableLogIndex last }
  let s :=
    if request.leadercommit > s.commitIndex then
      { s with commitIndex := min request.leadercommit last }
    else s
  if last ≥ s.commitIndex then
    return (s.persistState, { term := s.currentTerm, success := true, updatenextindex := -100 })
  else throw .assertion

/-- `AppendEntries` from the second `lock.lock()` on; `stable` is the result of
`AppendLogAndWaitStable`. -/
def appendEntriesStable (s : Raft) (request : AppendEntriesArgs) (pending : List PendingLogWrite)
    (stable : Bool) : Except Fault (Raft × AppendEntriesReply) :=
  let reject (hint : ℤ) : Except Fault (Raft × AppendEntriesReply) :=
    return (s.persistState, s.rejected hint)
  if !stable ∨ s.currentTerm ≠ request.term then reject (-100)
  else if request.prevlogindex > s.getLastLogIndex then reject (s.getLastLogIndex + 1)
  else if request.prevlogindex < s.lastSnapshotIndex then reject (s.lastSnapshotIndex + 1)
  else
    match s.termAt request.prevlogindex with
    | .error _ => reject (s.lastSnapshotIndex + 1)
    | .ok currentPrevLogTerm =>
      if currentPrevLogTerm ≠ request.prevlogterm then reject (s.lastSnapshotIndex + 1)
      else
        match s.checkPending s.getLastLogIndex pending with
        | some hint => reject hint
        | none => s.applyEntries request pending

/-! ### The leader -/

/-- `getPrevLogInfo`. -/
def getPrevLogInfo (s : Raft) (server : ℕ) : Except Fault (ℤ × ℕ) :=
  if s.nextIndex server = s.lastSnapshotIndex + 1 then
    return (s.lastSnapshotIndex, s.lastSnapshotTerm)
  else do
    let index := s.nextIndex server - 1
    return (index, (← s.logAt index).logterm)

/-- The body of the loop of `doHeartBeat` for peer `i`: the request for it, or none when a thread of
its own is to send the snapshot. -/
def heartBeatPeer (s : Raft) (i : ℕ) : Except Fault (Raft × Option AppendEntriesArgs) :=
  if s.nextIndex i < 1 then throw .assertion
  else if s.nextIndex i ≤ s.lastSnapshotIndex then return (s, none)
  else do
    let (prevlogindex, prevlogterm) ← s.getPrevLogInfo i
    let stableLogIndex := s.stableLogIndex
    -- moves `m_nextIndex` and the local previous index only: the request keeps the one above
    let (s, prev) ←
      if prevlogindex > stableLogIndex then do
        let s := { s with nextIndex := Function.update s.nextIndex i (stableLogIndex + 1) }
        let (prev, _) ← s.getPrevLogInfo i
        pure (s, prev)
      else pure (s, prevlogindex)
    let entries ←
      if prev ≠ s.lastSnapshotIndex then
        if prev > s.lastSnapshotIndex then
          pure ((s.logs.drop (prev - s.lastSnapshotIndex).toNat).takeWhile
            (·.logindex ≤ stableLogIndex))
        else throw .assertion
      else pure (s.logs.takeWhile (·.logindex ≤ stableLogIndex))
    if prevlogindex + entries.length = stableLogIndex then
      return (s, some
        { term := s.currentTerm
          leaderid := s.id
          prevlogindex, prevlogterm, entries
          leadercommit := s.commitIndex })
    else throw .assertion

/-- The loop of `doHeartBeat` over some peers: the requests built, and the peers that are sent the
snapshot instead. -/
def heartBeatPeers (s : Raft) :
    List ℕ → Except Fault (Raft × List (ℕ × AppendEntriesArgs) × List ℕ)
  | [] => return (s, [], [])
  | i :: rest => do
    let (s, request) ← s.heartBeatPeer i
    let (s, requests, snapshots) ← s.heartBeatPeers rest
    match request with
    | some args => return (s, (i, args) :: requests, snapshots)
    | none => return (s, requests, i :: snapshots)

/-- `advanceCommitIndex` counts the node itself and the peers known to hold `index`. -/
def replicated (s : Raft) (index : ℤ) : ℕ :=
  1 + ((List.range s.peers).filter fun peer => peer ≠ s.id ∧ s.matchIndex peer ≥ index).length

/-- The loop of `advanceCommitIndex`, from the index `m_commitIndex + k` down. -/
def advanceFrom (s : Raft) : ℕ → Except Fault Raft
  | 0 => return s
  | k + 1 =>
    let index := s.commitIndex + (k + 1)
    if s.replicated index ≥ s.peers / 2 + 1 then do
      if (← s.logAt index).logterm = s.currentTerm then return { s with commitIndex := index }
      else s.advanceFrom k
    else s.advanceFrom k

/-- `advanceCommitIndex`. -/
def advanceCommitIndex (s : Raft) : Except Fault Raft :=
  s.advanceFrom (min s.getLastLogIndex s.stableLogIndex - s.commitIndex).toNat

/-- `handleAppendEntries` for a call that completed. -/
def handleAppendEntries (s : Raft) (server : ℕ) (args : AppendEntriesArgs)
    (reply : AppendEntriesReply) : Except Fault Raft :=
  if reply.term > s.currentTerm then
    return { s with currentTerm := reply.term, state := .follower, voteForId := -1 }
  else if reply.term < s.currentTerm then return s
  else if s.state ≠ .leader then return s
  else if !reply.success then
    if reply.updatenextindex ≠ -100 then
      return { s with nextIndex := Function.update s.nextIndex server reply.updatenextindex }
    else return s
  else
    let matchIndex := max (s.matchIndex server) (args.prevlogindex + args.entries.length)
    let s :=
      { s with
        matchIndex := Function.update s.matchIndex server matchIndex
        nextIndex := Function.update s.nextIndex server (matchIndex + 1) }
    if matchIndex + 1 ≤ s.getLastLogIndex + 1 then s.advanceCommitIndex
    else throw .assertion

end Raft

end KVCacheRaft
