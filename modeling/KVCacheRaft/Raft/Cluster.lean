import KVCacheRaft.Raft.Snapshot

/-!
# A cluster of Raft nodes

The nodes, the RPC calls between them and the threads that a handler leaves behind, with one
function `step` for everything that can happen. A request, once sent, can arrive at any later moment
and more than once, or never; so can the reply of each of its arrivals, except that a call completes
at most once at its caller. A handler runs under `m_mtx` and so is one step; `AppendEntries` is two,
with anything in between.

What the code leaves for later is kept explicitly: the `persistState` of `doElection`, the handlers
waiting for the WAL, the `leaderSendSnapShot` threads, the callbacks of `Start`, and the messages
`applierTicker` has copied and not pushed. A crash drops all of it, with the process.
-/

namespace KVCacheRaft

/-- The request of an RPC call; `election` names the counter the calls of one election share. -/
inductive Request where
  | requestVote (args : RequestVoteArgs) (election : ℕ)
  | appendEntries (args : AppendEntriesArgs)
  | installSnapshot (args : InstallSnapshotRequest)
deriving DecidableEq

/-- The reply of a handler. -/
inductive Reply where
  | requestVote (reply : RequestVoteReply)
  | appendEntries (reply : AppendEntriesReply)
  | installSnapshot (reply : InstallSnapshotResponse)
deriving DecidableEq

/-- An asynchronous RPC call; `pending` while its caller has not seen it complete. -/
structure Call where
  caller : ℕ
  callee : ℕ
  request : Request
  pending : Bool
deriving DecidableEq

/-- A handler of `AppendEntries` that has released `m_mtx` to wait for the WAL. -/
structure Handler where
  call : ℕ
  node : ℕ
  args : AppendEntriesArgs
  pendingWrites : List PendingLogWrite
deriving DecidableEq

/-- The nodes `0, …, size - 1` of a cluster and what is under way between them. -/
structure Cluster where
  size : ℕ
  nodes : ℕ → Raft
  /-- all calls ever made -/
  calls : List Call
  /-- all replies ever sent, with the calls they answer -/
  replies : List (ℕ × Reply)
  /-- the counter `votedNum` of each election -/
  votedNum : List ℕ
  handlers : List Handler
  /-- `leaderSendSnapShot` threads that have not run, by node and peer -/
  snapshotThreads : List (ℕ × ℕ)
  /-- entries of `Start` whose `onLogStable` has not run, by node and index -/
  callbacks : List (ℕ × ℤ)
  /-- nodes whose `doElection` has not run its `persistState` yet -/
  deferred : ℕ → Bool
  /-- messages copied by `applierTicker` and not pushed yet -/
  copied : ℕ → List ApplyMsg
  /-- every node that entered state leader, with the term -/
  elected : List (ℕ × ℕ)

/-- Everything that can happen in a cluster. -/
inductive Action where
  | doElection (i : ℕ)
  | persistElection (i : ℕ)
  /-- the request of a call arrives -/
  | deliver (call : ℕ)
  /-- a handler takes the lock again; `stable` is what the WAL reported -/
  | resume (handler : ℕ) (stable : Bool)
  /-- a reply arrives at the caller -/
  | complete (reply : ℕ)
  /-- a call fails at its caller -/
  | fail (call : ℕ)
  | start (i : ℕ) (command : Bytes)
  | onLogStable (callback : ℕ) (ok : Bool)
  | doHeartBeat (i : ℕ)
  | leaderSendSnapShot (thread : ℕ)
  | applierTicker (i : ℕ)
  | push (i : ℕ)
  | snapshot (i : ℕ) (index : ℤ) (data : Bytes)
  /-- the process of a node crashes and `init` starts it anew with the log the WAL gives back -/
  | restart (i : ℕ) (logs : List LogEntry)

namespace Cluster

/-- A new cluster: no node has any metadata, log or snapshot. -/
def initial (size : ℕ) : Cluster where
  size
  nodes i := Raft.init i size {} [] []
  calls := []
  replies := []
  votedNum := []
  handlers := []
  snapshotThreads := []
  callbacks := []
  deferred _ := false
  copied _ := []
  elected := []

/-- Replace the state of a node. -/
def setNode (s : Cluster) (i : ℕ) (r : Raft) : Cluster :=
  { s with nodes := Function.update s.nodes i r }

/-- A node sends requests. -/
def send (s : Cluster) (i : ℕ) (requests : List (ℕ × Request)) : Cluster :=
  { s with
    calls := s.calls ++ requests.map fun (callee, request) =>
      { caller := i, callee, request, pending := true } }

/-- A handler replies to a call. -/
def reply (s : Cluster) (call : ℕ) (r : Reply) : Cluster :=
  { s with replies := s.replies ++ [(call, r)] }

/-- `doElection`. -/
def doElection (s : Cluster) (i : ℕ) : Option Cluster :=
  if s.deferred i then none
  else
    match (s.nodes i).doElection with
    | none => none
    | some (r, requests) =>
      let election := s.votedNum.length
      let s := s.setNode i r
      let s := { s with
        votedNum := s.votedNum ++ [1]
        deferred := Function.update s.deferred i true }
      some (s.send i (requests.map fun (peer, args) => (peer, .requestVote args election)))

/-- A request arrives and its handler runs. -/
def deliver (s : Cluster) (id : ℕ) : Option Cluster :=
  match s.calls[id]? with
  | none => none
  | some c =>
    match c.request with
    | .requestVote args _ =>
      let (r, rep) := (s.nodes c.callee).requestVote args
      some ((s.setNode c.callee r).reply id (.requestVote rep))
    | .installSnapshot args =>
      match (s.nodes c.callee).installSnapshot args with
      | .error _ => none
      | .ok (r, rep) => some ((s.setNode c.callee r).reply id (.installSnapshot rep))
    | .appendEntries args =>
      match (s.nodes c.callee).appendEntries args with
      | .error _ => none
      | .ok (r, .replied rep) => some ((s.setNode c.callee r).reply id (.appendEntries rep))
      | .ok (r, .unlocked pendingWrites) =>
        let s := s.setNode c.callee r
        some { s with
          handlers := s.handlers ++ [{ call := id, node := c.callee, args, pendingWrites }] }

/-- A handler of `AppendEntries` takes the lock again. -/
def resume (s : Cluster) (k : ℕ) (stable : Bool) : Option Cluster :=
  match s.handlers[k]? with
  | none => none
  | some h =>
    match (s.nodes h.node).appendEntriesStable h.args h.pendingWrites stable with
    | .error _ => none
    | .ok (r, rep) =>
      let s := s.setNode h.node r
      some ({ s with handlers := s.handlers.eraseIdx k }.reply h.call (.appendEntries rep))

/-- A reply arrives and completes the call it answers, if that is still pending. -/
def complete (s : Cluster) (k : ℕ) : Option Cluster :=
  match s.replies[k]? with
  | none => none
  | some (id, rep) =>
    match s.calls[id]? with
    | none => none
    | some c =>
      if !c.pending then none
      else
        let s := { s with calls := s.calls.set id { c with pending := false } }
        match c.request, rep with
        | .requestVote args election, .requestVote rep =>
          let (r, voted) := (s.nodes c.caller).handleRequestVoteResponse args rep
            (s.votedNum.getD election 0)
          let won := (s.nodes c.caller).state ≠ .leader ∧ r.state = .leader
          let s := s.setNode c.caller r
          some { s with
            votedNum := s.votedNum.set election voted
            elected := if won then s.elected ++ [(c.caller, r.currentTerm)] else s.elected }
        | .appendEntries args, .appendEntries rep =>
          match (s.nodes c.caller).handleAppendEntries c.callee args rep with
          | .error _ => none
          | .ok r => some (s.setNode c.caller r)
        | .installSnapshot args, .installSnapshot rep =>
          some (s.setNode c.caller
            ((s.nodes c.caller).leaderSendSnapShotHandler args rep c.callee))
        | _, _ => none

/-- A pending call fails at its caller; the handlers of the reply return at once. -/
def fail (s : Cluster) (id : ℕ) : Option Cluster :=
  match s.calls[id]? with
  | none => none
  | some c =>
    if c.pending then some { s with calls := s.calls.set id { c with pending := false } } else none

/-- `Start`. -/
def start (s : Cluster) (i : ℕ) (command : Bytes) : Option Cluster :=
  match (s.nodes i).start command with
  | .error _ | .ok none => none
  | .ok (some (r, entry)) =>
    let s := s.setNode i r
    some { s with callbacks := s.callbacks ++ [(i, entry.logindex)] }

/-- The WAL writer runs the callback of an entry of `Start`. -/
def onLogStable (s : Cluster) (k : ℕ) (ok : Bool) : Option Cluster :=
  match s.callbacks[k]? with
  | none => none
  | some (i, index) =>
    let s := s.setNode i ((s.nodes i).onLogStable ok index)
    some { s with callbacks := s.callbacks.eraseIdx k }

/-- `doHeartBeat`. -/
def doHeartBeat (s : Cluster) (i : ℕ) : Option Cluster :=
  if (s.nodes i).state ≠ .leader then none
  else
    match (s.nodes i).heartBeatPeers (s.nodes i).others with
    | .error _ => none
    | .ok (r, requests, snapshots) =>
      let s := s.setNode i r
      let s := { s with
        snapshotThreads := s.snapshotThreads ++ snapshots.map fun peer => (i, peer) }
      some (s.send i (requests.map fun (peer, args) => (peer, .appendEntries args)))

/-- A `leaderSendSnapShot` thread runs. -/
def leaderSendSnapShot (s : Cluster) (k : ℕ) : Option Cluster :=
  match s.snapshotThreads[k]? with
  | none => none
  | some (i, peer) =>
    let s := { s with snapshotThreads := s.snapshotThreads.eraseIdx k }
    some (s.send i [(peer, .installSnapshot (s.nodes i).leaderSendSnapShot)])

/-- A round of `applierTicker` up to the unlock. -/
def applierTicker (s : Cluster) (i : ℕ) : Option Cluster :=
  if s.copied i = [] ∧ (s.nodes i).lastApplied < (s.nodes i).commitIndex then
    match (s.nodes i).applierTicker with
    | .error _ => none
    | .ok (r, logs) => some { s.setNode i r with copied := Function.update s.copied i logs }
  else none

/-- `applierTicker` pushes the next of the messages it copied. -/
def push (s : Cluster) (i : ℕ) : Option Cluster :=
  match s.copied i with
  | [] => none
  | msg :: rest =>
    some { s.setNode i ((s.nodes i).push msg) with copied := Function.update s.copied i rest }

/-- `Snapshot`. -/
def snapshot (s : Cluster) (i : ℕ) (index : ℤ) (data : Bytes) : Option Cluster :=
  match (s.nodes i).snapshot index data with
  | .error _ => none
  | .ok r => some (s.setNode i r)

/-- The process of a node crashes and starts anew: what is on disk stays, calls, handlers and
threads of the old process are gone. -/
def restart (s : Cluster) (i : ℕ) (logs : List LogEntry) : Cluster :=
  let r := s.nodes i
  let s := s.setNode i { Raft.init i s.size r.fmp r.snapshotFile logs with applyChan := r.applyChan }
  { s with
    calls := s.calls.map fun c => if c.caller = i then { c with pending := false } else c
    handlers := s.handlers.filter (·.node ≠ i)
    snapshotThreads := s.snapshotThreads.filter (·.1 ≠ i)
    callbacks := s.callbacks.filter (·.1 ≠ i)
    deferred := Function.update s.deferred i false
    copied := Function.update s.copied i [] }

/-- One step of the cluster; none when the action is not possible or ends the process. -/
def step (s : Cluster) : Action → Option Cluster
  | .doElection i => if i < s.size then s.doElection i else none
  | .persistElection i =>
    if s.deferred i then
      some { s.setNode i (s.nodes i).persistState with
        deferred := Function.update s.deferred i false }
    else none
  | .deliver id => s.deliver id
  | .resume k stable => s.resume k stable
  | .complete k => s.complete k
  | .fail id => s.fail id
  | .start i command => if i < s.size then s.start i command else none
  | .onLogStable k ok => s.onLogStable k ok
  | .doHeartBeat i => if i < s.size then s.doHeartBeat i else none
  | .leaderSendSnapShot k => s.leaderSendSnapShot k
  | .applierTicker i => if i < s.size then s.applierTicker i else none
  | .push i => s.push i
  | .snapshot i index data => if i < s.size then s.snapshot i index data else none
  | .restart i logs => if i < s.size then some (s.restart i logs) else none

/-- Runs of a cluster from `s`, all of whose steps satisfy `P`. -/
inductive Run (P : Cluster → Action → Prop) (s : Cluster) : Cluster → Prop where
  | refl : Run P s s
  | step {t u : Cluster} {a : Action} : Run P s t → P t a → t.step a = some u → Run P s u

/-- The state a list of actions leads to, as long as every one of them satisfies `P`. -/
def runIf (P : Cluster → Action → Prop) [∀ s a, Decidable (P s a)] (s : Cluster) :
    List Action → Option Cluster
  | [] => some s
  | a :: rest => if P s a then (s.step a).bind fun t => t.runIf P rest else none

/-- A run may begin with one more step. -/
lemma Run.head {P : Cluster → Action → Prop} {s t u : Cluster} {a : Action} (hP : P s a)
    (hs : s.step a = some t) (h : Run P t u) : Run P s u := by
  induction h with
  | refl => exact .step .refl hP hs
  | step _ hP' hs' ih => exact .step ih hP' hs'

/-- What is executed is a run. -/
lemma run_of_runIf {P : Cluster → Action → Prop} [∀ s a, Decidable (P s a)] {s t : Cluster}
    {actions : List Action} (h : s.runIf P actions = some t) : Run P s t := by
  induction actions generalizing s with
  | nil =>
    cases h
    exact .refl
  | cons a rest ih =>
    rw [runIf] at h
    split_ifs at h with hP
    obtain ⟨u, hu, hrest⟩ := Option.bind_eq_some_iff.mp h
    exact .head hP hu (ih hrest)

end Cluster

end KVCacheRaft
