import KVCacheRaft.Raft.Refinement
import KVCacheRaft.Server.Install
import KVCacheRaft.Server.Meaning

/-!
# Servers on a cluster

Each node of a cluster feeds a server through its `applyChan`. `ReadRaftApplyCommandLoop` pops one
message after the other; a command may be followed by a call of `raft::Snapshot` with a snapshot of
the server as it then is, which the loop makes before it pops the next message. Everything else
happens at any time in between.
-/

namespace KVCacheRaft

/-- A cluster with the servers of its nodes. -/
structure System where
  cluster : Cluster
  servers : ℕ → KvServer
  /-- how many messages of `applyChan` have been popped -/
  popped : ℕ → ℕ
  /-- the call of `raft::Snapshot` the loop is about to make -/
  snapshotCall : ℕ → Option (ℤ × Bytes)
  /-- the index of the last command executed or snapshot installed, whichever came last -/
  position : ℕ → ℤ

/-- What can happen in a system: a step of the cluster, a message popped, a call of
`raft::Snapshot`. -/
inductive SystemAction where
  | raft (a : Action)
  | pop (i : ℕ) (rand : ℕ → ℕ) (raftStateSize : ℤ)
  | snapshot (i : ℕ)

/-- Steps of a cluster that are no call of `raft::Snapshot` and no restart. -/
def Action.OfRaft : Action → Prop
  | .snapshot _ _ _ => False
  | .restart _ _ => False
  | _ => True

instance : (a : Action) → Decidable a.OfRaft
  | .snapshot _ _ _ | .restart _ _ => inferInstanceAs (Decidable False)
  | .doElection _ | .persistElection _ | .deliver _ | .resume _ _ | .complete _ | .fail _
  | .start _ _ | .onLogStable _ _ | .doHeartBeat _ | .leaderSendSnapShot _ | .applierTicker _
  | .push _ => inferInstanceAs (Decidable True)

/-- The message is a command that `GetCommandFromRaft` does not skip. -/
def KvServer.Executes (s : KvServer) (message : ApplyMsg) : Prop :=
  message.CommandValid = true ∧ s.lastSnapShotRaftLogIndex < message.CommandIndex

instance (s : KvServer) (message : ApplyMsg) : Decidable (s.Executes message) :=
  inferInstanceAs (Decidable (_ ∧ _))

/-- The body of the loop of `ReadRaftApplyCommandLoop` for one message, with the call of
`raft::Snapshot`, if there is one. -/
def KvServer.readRaftApplyCommand (A : Archives) (s : KvServer) (rand : ℕ → ℕ) (raftStateSize : ℤ)
    (message : ApplyMsg) : Option (KvServer × Option (ℤ × Bytes)) := do
  let (s, call) ←
    if message.CommandValid then s.getCommandFromRaft A (rand 0) raftStateSize message
    else some (s, none)
  let s ← if message.SnapshotValid then s.getSnapShotFromRaft A rand message else some s
  return (s, call)

namespace System

/-- New nodes with new servers. -/
def initial (size : ℕ) (maxraftstate : ℕ → ℤ) : System where
  cluster := .initial size
  servers i := .create (maxraftstate i)
  popped _ := 0
  snapshotCall _ := none
  position _ := 0

/-- The next message of `applyChan` on node `i`. -/
def nextMsg (s : System) (i : ℕ) : Option ApplyMsg := (s.cluster.nodes i).applyChan[s.popped i]?

/-- The position behind a message. -/
def positionAfter (s : System) (i : ℕ) (message : ApplyMsg) : ℤ :=
  if message.SnapshotValid then message.SnapshotIndex
  else if (s.servers i).Executes message then message.CommandIndex
  else s.position i

/-- The loop of node `i` pops a message. -/
def pop (A : Archives) (s : System) (i : ℕ) (rand : ℕ → ℕ) (raftStateSize : ℤ) : Option System :=
  if s.snapshotCall i ≠ none then none
  else
    (s.nextMsg i).bind fun message =>
      ((s.servers i).readRaftApplyCommand A rand raftStateSize message).map fun (server, call) =>
        { s with
          servers := Function.update s.servers i server
          popped := Function.update s.popped i (s.popped i + 1)
          snapshotCall := Function.update s.snapshotCall i call
          position := Function.update s.position i (s.positionAfter i message) }

/-- The loop of node `i` calls `raft::Snapshot`. -/
def snapshot (s : System) (i : ℕ) : Option System :=
  (s.snapshotCall i).bind fun (index, data) =>
    (s.cluster.step (.snapshot i index data)).map fun cluster =>
      { s with cluster, snapshotCall := Function.update s.snapshotCall i none }

/-- One step of the system. -/
def step (A : Archives) (s : System) : SystemAction → Option System
  | .raft a =>
    if a.OfRaft then (s.cluster.step a).map fun cluster => { s with cluster } else none
  | .pop i rand raftStateSize => s.pop A i rand raftStateSize
  | .snapshot i => s.snapshot i

/-- Runs of a system from `s`, all of whose steps satisfy `P`. -/
inductive Run (A : Archives) (P : System → SystemAction → Prop) (s : System) : System → Prop where
  | refl : Run A P s s
  | step {t u : System} {a : SystemAction} :
    Run A P s t → P t a → t.step A a = some u → Run A P s u

/-! ### What the applied stream should do -/

/-- The command was pushed under the index on some node. -/
def Committed (s : System) (index : ℤ) (command : Bytes) : Prop :=
  ∃ i, ∃ msg ∈ (s.cluster.nodes i).applyChan,
    msg.CommandValid = true ∧ msg.CommandIndex = index ∧ msg.Command = command

/-- The data after some commands. -/
def meaning (A : Archives) (commands : List Bytes) : KvState :=
  commands.foldl (fun σ command => ((A.op.load command).map σ.exec).getD σ) KvState.empty

/-- The server of node `i` has the data of the committed prefix that ends at its position. -/
def AtPrefix (A : Archives) (s : System) (i : ℕ) : Prop :=
  ∃ commands : List Bytes, s.position i = commands.length ∧
    (∀ (k : ℕ) command, commands[k]? = some command → s.Committed (k + 1) command) ∧
    (s.servers i).view = meaning A commands

/-- A message popped on node `i` does not take the server back, and a command that is not skipped is
the next one. -/
structure Advances (A : Archives) (s : System) (i : ℕ) (s' : System) : Prop where
  position_le : s.position i ≤ s'.position i
  next : ∀ message ∈ s.nextMsg i, (s.servers i).Executes message →
    message.CommandIndex = s.position i + 1
  atPrefix : AtPrefix A s' i

/-! ### Runs in which it does -/

end System

/-- Loading the dump does no harm to a server: what the server holds is dumped, and each dumped value
is the one the server has under the key, or, where it has none, the key. -/
def KvServer.LoadsDump (s : KvServer) (dumper : List Bytes × List Bytes) : Prop :=
  (∀ key ∈ s.skipList.dump.1, key ∈ dumper.1) ∧
    ∀ x ∈ dumper.1.zip dumper.2, (s.skipList.search_element x.1).getD x.1 = x.2

instance (s : KvServer) (dumper : List Bytes × List Bytes) : Decidable (s.LoadsDump dumper) :=
  inferInstanceAs (Decidable (_ ∧ _))

/-- A snapshot that the node accepts is not behind any message it has pushed. -/
def Raft.InstallsInOrder (r : Raft) (args : InstallSnapshotRequest) : Prop :=
  r.currentTerm ≤ args.term → r.lastSnapshotIndex < args.lastsnapshotincludeindex →
    ∀ msg ∈ r.applyChan, msg.CommandIndex ≤ args.lastsnapshotincludeindex ∧
      msg.SnapshotIndex ≤ args.lastsnapshotincludeindex

instance (r : Raft) (args : InstallSnapshotRequest) : Decidable (r.InstallsInOrder args) :=
  inferInstanceAs (Decidable (_ → _ → _))

/-- The request of a call, when it is a snapshot, is accepted in order only. -/
def Cluster.CallInOrder (s : Cluster) (c : Call) : Prop :=
  match c.request with
  | .installSnapshot args => (s.nodes c.callee).InstallsInOrder args
  | _ => True

instance (s : Cluster) (c : Call) : Decidable (s.CallInOrder c) :=
  match c with
  | ⟨_, callee, .installSnapshot args, _⟩ =>
    inferInstanceAs (Decidable ((s.nodes callee).InstallsInOrder args))
  | ⟨_, _, .requestVote _ _, _⟩ | ⟨_, _, .appendEntries _, _⟩ => inferInstanceAs (Decidable True)

/-- No snapshot is accepted behind a message pushed before. -/
def Cluster.InOrder (s : Cluster) : Action → Prop
  | .deliver id => ∀ c ∈ s.calls[id]?, s.CallInOrder c
  | _ => True

instance (s : Cluster) : (a : Action) → Decidable (s.InOrder a)
  | .deliver id => inferInstanceAs (Decidable (∀ c ∈ s.calls[id]?, _))
  | .resume _ _ | .doElection _ | .persistElection _ | .complete _ | .fail _ | .start _ _
  | .onLogStable _ _ | .doHeartBeat _ | .leaderSendSnapShot _ | .applierTicker _ | .push _
  | .snapshot _ _ _ | .restart _ _ => inferInstanceAs (Decidable True)

namespace System

/-- The steps of the runs in which every server follows the committed prefix. -/
def Orderly (A : Archives) (s : System) : SystemAction → Prop
  | .raft a => s.cluster.Safe a ∧ s.cluster.InOrder a
  | .pop i _ _ => ∀ message ∈ s.nextMsg i, message.SnapshotValid = true →
      ∀ d ∈ A.server.load message.Snapshot, ∀ dumper ∈ A.dump.load d.1,
        (s.servers i).LoadsDump dumper
  | .snapshot _ => True

instance (A : Archives) (s : System) : (a : SystemAction) → Decidable (Orderly A s a)
  | .raft a => inferInstanceAs (Decidable (s.cluster.Safe a ∧ s.cluster.InOrder a))
  | .pop i _ _ => inferInstanceAs (Decidable (∀ message ∈ s.nextMsg i, _))
  | .snapshot _ => inferInstanceAs (Decidable True)

/-- The state a list of actions leads to, as long as every one of them satisfies `P`. -/
def runIf (A : Archives) (P : System → SystemAction → Prop) [∀ s a, Decidable (P s a)]
    (s : System) : List SystemAction → Option System
  | [] => some s
  | a :: rest => if P s a then (s.step A a).bind fun t => t.runIf A P rest else none

variable {A : Archives} {P : System → SystemAction → Prop} {s t u : System}

/-- A run may begin with one more step. -/
lemma Run.head {a : SystemAction} (hP : P s a) (hs : s.step A a = some t) (h : Run A P t u) :
    Run A P s u := by
  induction h with
  | refl => exact .step .refl hP hs
  | step _ hP' hs' ih => exact .step ih hP' hs'

/-- What is executed is a run. -/
lemma run_of_runIf [∀ s a, Decidable (P s a)] {actions : List SystemAction}
    (h : s.runIf A P actions = some t) : Run A P s t := by
  induction actions generalizing s with
  | nil =>
    cases h
    exact .refl
  | cons a rest ih =>
    rw [runIf] at h
    split_ifs at h with hP
    obtain ⟨u, hu, hrest⟩ := Option.bind_eq_some_iff.mp h
    exact .head hP hu (ih hrest)

end System

end KVCacheRaft
