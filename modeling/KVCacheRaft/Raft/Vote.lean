import KVCacheRaft.Raft.State

/-!
# Elections

`doElection`, `RequestVote` and `handleRequestVoteResponse` of `src/raft/raft.cc`. `doElection` ends
with a `DeferClass` whose `persistState` runs after its requests were handed out, so it is not part
of `doElection` here; the cluster runs it as a step of its own.
-/

namespace KVCacheRaft.Raft

/-- The peers other than the node itself, in the order of the source's loops. -/
def others (s : Raft) : List ℕ :=
  (List.range s.peers).filter (· ≠ s.id)

/-- `doElection`: the new state and the requests handed out; none when the node is leader. -/
def doElection (s : Raft) : Option (Raft × List (ℕ × RequestVoteArgs)) :=
  if s.state = .leader then none
  else
    let s' : Raft :=
      { s with state := .candidate, currentTerm := s.currentTerm + 1, voteForId := s.id }
    let args : RequestVoteArgs :=
      { term := s'.currentTerm
        candidateid := s'.id
        lastlogindex := s'.getLastLogIndex
        lastlogterm := s'.getLastLogTerm }
    some (s', s'.others.map fun i => (i, args))

/-- A request of a later term makes the node a follower of that term that has not voted. -/
def newTerm (s : Raft) (term : ℕ) : Raft :=
  { s with state := .follower, currentTerm := term, voteForId := -1 }

/-- The lambda `whether` of `RequestVote`: the candidate's log is no older than the node's. -/
def upToDate (s : Raft) (request : RequestVoteArgs) : Bool :=
  request.lastlogterm > s.getLastLogTerm ||
    (request.lastlogterm == s.getLastLogTerm && request.lastlogindex ≥ s.getLastLogIndex)

/-- `RequestVote`. -/
def requestVote (s : Raft) (request : RequestVoteArgs) : Raft × RequestVoteReply :=
  if request.term < s.currentTerm then
    (s, { term := s.currentTerm, votegranted := false, votestate := .expired })
  else
    let s := if request.term > s.currentTerm then (s.newTerm request.term).persistState else s
    if !s.upToDate request then
      (s, { term := s.currentTerm, votegranted := false, votestate := .voted })
    else if s.voteForId ≠ -1 ∧ s.voteForId ≠ request.candidateid then
      (s.persistState, { term := s.currentTerm, votegranted := false, votestate := .voted })
    else
      let s := { s with voteForId := request.candidateid }
      (s.persistState, { term := s.currentTerm, votegranted := true, votestate := .normal })

/-- The part of `handleRequestVoteResponse` that makes the node leader. -/
def becomeLeader (s : Raft) : Raft :=
  let s := { s with state := .leader }
  { s with
    nextIndex := fun i => if i ∈ s.others then s.getLastLogIndex + 1 else s.nextIndex i
    matchIndex := fun i => if i ∈ s.others then 0 else s.matchIndex i }

/-- `handleRequestVoteResponse` for a call that completed; `votedNum` is the counter all calls of
one election share. -/
def handleRequestVoteResponse (s : Raft) (args : RequestVoteArgs) (reply : RequestVoteReply)
    (votedNum : ℕ) : Raft × ℕ :=
  if reply.term > s.currentTerm then ((s.newTerm reply.term).persistState, votedNum)
  else if reply.term < s.currentTerm then (s, votedNum)
  else if s.state ≠ .candidate ∨ args.term ≠ s.currentTerm then (s, votedNum)
  else if reply.votegranted = false then (s, votedNum)
  else if votedNum + 1 ≥ s.peers / 2 + 1 then (s.becomeLeader.persistState, votedNum + 1)
  else (s, votedNum + 1)

end KVCacheRaft.Raft
