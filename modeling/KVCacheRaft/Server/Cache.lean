import KVCacheRaft.Server.Linearizable
import KVCacheRaft.Server.Streams

/-!
# The whole cache

The nodes, their servers and the clerks in one state: `Start` and `GetState` are those of the nodes, and
a server executes what its node has pushed. The log of the service is a history here, the commands that
nodes have pushed, and a run is a run of the service whose log it is. So what the clerks see is what one
store would do.
-/

namespace KVCacheRaft

open Machine

/-- Steps that neither a server nor a crash makes. -/
def Action.OfNodes : Action → Prop
  | .start _ _ | .snapshot _ _ _ | .restart _ _ => False
  | _ => True

instance : (a : Action) → Decidable a.OfNodes
  | .start _ _ | .snapshot _ _ _ | .restart _ _ => inferInstanceAs (Decidable False)
  | .doElection _ | .persistElection _ | .deliver _ | .resume _ _ | .complete _ | .fail _
  | .onLogStable _ _ | .doHeartBeat _ | .leaderSendSnapShot _ | .applierTicker _ | .push _ =>
    inferInstanceAs (Decidable True)

/-- Events of clerks and handlers that ask nothing of a node. -/
def Service.Event.OfClerks {κ : Type} : Service.Event κ → Prop
  | .start _ _ _ | .timeOut _ _ | .commit _ | .apply _ _ _ => False
  | _ => True

instance {κ : Type} : (e : Service.Event κ) → Decidable e.OfClerks
  | .start _ _ _ | .timeOut _ _ | .commit _ | .apply _ _ _ => inferInstanceAs (Decidable False)
  | .request _ _ | .fail _ | .receive _ | .register _ | .pop _ | .decide _ | .execute _ | .erase _ =>
    inferInstanceAs (Decidable True)

/-- The server behind a message, with what it has applied and executed. -/
def Replica.read (A : Archives) (r : Replica) (message : ApplyMsg) (kv : KvServer) : Replica :=
  if r.kv.Executes message then
    (A.op.load message.Command).elim { r with kv } fun op =>
      { kv
        applied := r.applied ++ [op]
        executed :=
          if r.kv.ifRequestDuplicate op.ClientId op.RequestId ∨ ¬ op.IsUpdate then r.executed
          else r.executed ++ [op] }
  else { r with kv }

/-- Reading a message into a replica leaves its server to the caller. -/
lemma Replica.read_kv (A : Archives) (r : Replica) (message : ApplyMsg) (kv : KvServer) :
    (r.read A message kv).kv = kv := by
  rw [read]
  split_ifs
  · cases A.op.load message.Command <;> rfl
  · rfl

namespace Observed

variable {κ : Type}

/-- A command is in the log. -/
def commit (o : Observed κ) (op : Op) : Observed κ :=
  { o with service := { o.service with log := o.service.log ++ [op] }, clock := o.clock + 1 }

/-- A server changes. -/
def setServer (o : Observed κ) (i : ℕ) (r : Replica) : Observed κ :=
  { o with service := o.service.setServer i r, clock := o.clock + 1 }

end Observed

/-- The nodes, their servers and the clerks. -/
structure KVCache (κ : Type) where
  cluster : Cluster
  /-- how many messages of `applyChan` have been popped -/
  popped : ℕ → ℕ
  /-- the call of `raft::Snapshot` the loop is about to make -/
  snapshotCall : ℕ → Option (ℤ × Bytes)
  /-- the servers and the clerks, with what the clerks have seen; the log is what nodes have pushed -/
  observed : Observed κ

namespace KVCache

/-- Something that happens. -/
inductive Event (κ : Type) where
  | node (a : Action)
  | clerk (e : Service.Event κ)
  /-- the handler calls `Start` -/
  | start (k : ℕ)
  /-- the time is up, and the handler calls `GetState` -/
  | timeOut (k : ℕ)
  /-- `ReadRaftApplyCommandLoop` pops a message -/
  | pop (i : ℕ) (rand : ℕ → ℕ) (raftStateSize : ℤ)
  /-- it calls `raft::Snapshot` -/
  | snapshot (i : ℕ)

variable {κ : Type}

def initial (size : ℕ) (maxraftstate : ℕ → ℤ) (rands : κ → ℕ → ℕ) : KVCache κ where
  cluster := .initial size
  popped _ := 0
  snapshotCall _ := none
  observed := .initial size maxraftstate rands

/-- The nodes with their servers. -/
def system (s : KVCache κ) : System where
  cluster := s.cluster
  servers i := (s.observed.service.servers i).kv
  popped := s.popped
  snapshotCall := s.snapshotCall
  position i := (s.observed.service.servers i).applied.length

/-- The command that a step of the nodes adds to what they have pushed. -/
def added (A : Archives) (s : KVCache κ) : Action → Option Op
  | .push i => (s.cluster.copied i).head?.bind fun msg =>
    if msg.CommandIndex = s.observed.service.log.length + 1 then A.op.load msg.Command else none
  | _ => none

/-- A step of the nodes. -/
def node (A : Archives) (s : KVCache κ) (a : Action) : Option (KVCache κ) :=
  if a.OfNodes then
    (s.cluster.step a).map fun cluster =>
      { s with cluster, observed := (s.added A a).elim s.observed s.observed.commit }
  else none

/-- A message is popped. -/
def pop (A : Archives) (s : KVCache κ) (i : ℕ) (rand : ℕ → ℕ) (raftStateSize : ℤ) :
    Option (KVCache κ) :=
  (s.system.nextMsg i).bind fun message =>
    (s.system.pop A i rand raftStateSize).map fun t =>
      { s with
        popped := t.popped
        snapshotCall := t.snapshotCall
        observed :=
          s.observed.setServer i ((s.observed.service.servers i).read A message (t.servers i)) }

/-- `raft::Snapshot` is called. -/
def snapshot (s : KVCache κ) (i : ℕ) : Option (KVCache κ) :=
  (s.system.snapshot i).map fun t =>
    { s with cluster := t.cluster, snapshotCall := t.snapshotCall }

variable [DecidableEq κ]

/-- What the clerks and the handlers do. -/
def observe (A : Archives) (s : KVCache κ) (e : Service.Event κ) : Option (KVCache κ) :=
  (s.observed.step A e).map fun observed => { s with observed }

/-- A handler calls `Start`, which gives no entry when the node is no leader. -/
def start (A : Archives) (s : KVCache κ) (k : ℕ) : Option (KVCache κ) :=
  s.observed.service.calls[k]?.bind fun call =>
    match (s.cluster.nodes call.server).start (A.op.save call.op) with
    | .error _ => none
    | .ok none => s.observe A (.start k false (-1))
    | .ok (some (_, entry)) =>
      (s.observe A (.start k true entry.logindex)).bind fun t =>
        (t.cluster.step (.start call.server (A.op.save call.op))).map fun cluster =>
          { t with cluster }

/-- A handler has waited for `CONSENSUS_TIMEOUT`. -/
def timeOut (A : Archives) (s : KVCache κ) (k : ℕ) : Option (KVCache κ) :=
  s.observed.service.calls[k]?.bind fun call =>
    s.observe A (.timeOut k ((s.cluster.nodes call.server).state = .leader))

/-- What an event does; none when it cannot happen. -/
def step (A : Archives) (s : KVCache κ) : Event κ → Option (KVCache κ)
  | .node a => s.node A a
  | .clerk e => if e.OfClerks then s.observe A e else none
  | .start k => s.start A k
  | .timeOut k => s.timeOut A k
  | .pop i rand raftStateSize => s.pop A i rand raftStateSize
  | .snapshot i => s.snapshot i

/-- The nodes keep one log, each `Get` is executed before a later request of its client, and no server
installs a snapshot. -/
def Orderly (s : KVCache κ) : Event κ → Prop
  | .node a => s.cluster.Safe a ∧ s.cluster.InOrder a
  | .clerk e => s.observed.service.InOrder e
  | .pop i _ _ => ∀ message ∈ s.system.nextMsg i, message.SnapshotValid = false
  | _ => True

instance (s : KVCache κ) : (e : Event κ) → Decidable (s.Orderly e)
  | .node a => inferInstanceAs (Decidable (s.cluster.Safe a ∧ s.cluster.InOrder a))
  | .clerk e => inferInstanceAs (Decidable (s.observed.service.InOrder e))
  | .pop i _ _ => inferInstanceAs (Decidable (∀ message ∈ s.system.nextMsg i, _))
  | .start _ | .timeOut _ | .snapshot _ => inferInstanceAs (Decidable True)

end KVCache

/-! ### Clerks and handlers -/

namespace Service

variable {κ : Type} {s t : Service κ}

/-- What a step leaves that neither commits nor applies a command. -/
structure Keeps (s t : Service κ) : Prop where
  log : t.log = s.log
  started : s.started ⊆ t.started
  applied : ∀ i, (t.servers i).applied = (s.servers i).applied
  snapshotIndex : ∀ i,
    (t.servers i).kv.lastSnapShotRaftLogIndex = (s.servers i).kv.lastSnapShotRaftLogIndex

/-- No server changes. -/
lemma Keeps.same (hlog : t.log = s.log) (hstarted : s.started ⊆ t.started)
    (hservers : t.servers = s.servers) : s.Keeps t :=
  ⟨hlog, hstarted, fun _ => by rw [hservers], fun _ => by rw [hservers]⟩

/-- A server changes, but for the commands that it has applied. -/
lemma Keeps.server {j : ℕ} {r : Replica} (happlied : r.applied = (s.servers j).applied)
    (hindex : r.kv.lastSnapShotRaftLogIndex = (s.servers j).kv.lastSnapShotRaftLogIndex) (k : ℕ)
    (phase : CallPhase) : s.Keeps ((s.setServer j r).setPhase k phase) := by
  refine ⟨rfl, List.Subset.refl _, fun i => ?_, fun i => ?_⟩
  · by_cases hij : i = j
    · subst hij
      simpa [setPhase, setServer] using happlied
    · simp [setPhase, setServer, hij]
  · by_cases hij : i = j
    · subst hij
      simpa [setPhase, setServer] using hindex
    · simp [setPhase, setServer, hij]

/-- Registering a queue applies nothing. -/
lemma keeps_register (r : Replica) (index : ℤ) : (r.register index).applied = r.applied ∧
    (r.register index).kv.lastSnapShotRaftLogIndex = r.kv.lastSnapShotRaftLogIndex := by
  rw [Replica.register]
  split <;> exact ⟨rfl, rfl⟩

/-- Popping a queue applies nothing. -/
lemma keeps_pop {r r' : Replica} {index : ℤ} {op : Op} (h : r.pop index = some (r', op)) :
    r'.applied = r.applied ∧ r'.kv.lastSnapShotRaftLogIndex = r.kv.lastSnapShotRaftLogIndex := by
  rw [Replica.pop] at h
  split at h
  · obtain ⟨rfl, -⟩ := Prod.mk.inj (Option.some.inj h)
    exact ⟨rfl, rfl⟩
  · cases h

/-- A handler that decides keeps the logs. -/
lemma keeps_decide {k : ℕ} {call : ClerkCall} (h : s.decide k call = some t) : s.Keeps t := by
  have hget : ∀ raftIndex ok, s.Keeps (s.replyGet k call raftIndex ok) := by
    intro raftIndex ok
    rw [replyGet]
    split_ifs <;> exact .same rfl (List.Subset.refl _) rfl
  rw [decide] at h
  split at h
  · obtain rfl := Option.some.inj h
    split_ifs
    · exact .same rfl (List.Subset.refl _) rfl
    · exact hget _ _
  · obtain rfl := Option.some.inj h
    split_ifs
    · exact .same rfl (List.Subset.refl _) rfl
    · exact hget _ _
  · cases h

variable [DecidableEq κ]

/-- A clerk that gets a reply keeps the logs. -/
lemma keeps_receive (i : κ) (r : ClerkRequest) (reply : ClerkReply) :
    s.Keeps (s.receive i r reply) := by
  rw [receive]
  split
  · exact .same rfl (List.Subset.refl _) rfl
  · split_ifs <;> exact .same rfl (List.Subset.refl _) rfl
  · exact .same rfl (List.Subset.refl _) rfl

/-- A step that neither commits nor applies keeps the logs. -/
lemma keeps_of_step {A : Archives} {e : Event κ} (hstep : s.step A e = some t)
    (hcommit : ∀ op, e ≠ .commit op) (happly : ∀ i rand size, e ≠ .apply i rand size) :
    s.Keeps t := by
  cases e with
  | request i ask =>
    simp only [step, request] at hstep
    split at hstep
    · cases hstep
    · obtain rfl := Option.some.inj hstep
      exact .same rfl (List.Subset.refl _) rfl
  | fail i =>
    obtain ⟨r, -, rfl⟩ := Option.map_eq_some_iff.mp hstep
    exact .same rfl (List.Subset.refl _) rfl
  | receive i =>
    obtain ⟨r, -, hstep⟩ := Option.bind_eq_some_iff.mp hstep
    obtain ⟨call, -, hstep⟩ := handle_cases hstep
    split at hstep
    · obtain rfl := Option.some.inj hstep
      exact keeps_receive i r _
    · cases hstep
  | start k isLeader raftIndex =>
    obtain ⟨call, -, hstep⟩ := handle_cases hstep
    split at hstep
    · obtain rfl := Option.some.inj hstep
      split_ifs
      · exact .same rfl (List.subset_append_left _ _) rfl
      · exact .same rfl (List.Subset.refl _) rfl
    · cases hstep
  | register k =>
    obtain ⟨call, -, hstep⟩ := handle_cases hstep
    split at hstep
    · obtain rfl := Option.some.inj hstep
      obtain ⟨happlied, hindex⟩ := keeps_register (s.servers call.server) _
      exact .server happlied hindex k _
    · cases hstep
  | pop k =>
    obtain ⟨call, -, hstep⟩ := handle_cases hstep
    split at hstep
    · obtain ⟨⟨r, op⟩, hpop, rfl⟩ := Option.map_eq_some_iff.mp hstep
      obtain ⟨happlied, hindex⟩ := keeps_pop hpop
      exact .server happlied hindex k _
    · cases hstep
  | timeOut k isLeader =>
    obtain ⟨call, -, hstep⟩ := handle_cases hstep
    split at hstep
    · obtain rfl := Option.some.inj hstep
      exact .same rfl (List.Subset.refl _) rfl
    · cases hstep
  | decide k =>
    obtain ⟨call, -, hstep⟩ := handle_cases hstep
    exact keeps_decide hstep
  | execute k =>
    obtain ⟨call, -, hstep⟩ := handle_cases hstep
    split at hstep
    · obtain rfl := Option.some.inj hstep
      let r : Replica := { s.servers call.server with
        kv := ((s.servers call.server).kv.executeGetOpOnKVDB call.op).1 }
      exact .server (r := r) rfl rfl k _
    · cases hstep
  | erase k =>
    obtain ⟨call, -, hstep⟩ := handle_cases hstep
    split at hstep
    · obtain rfl := Option.some.inj hstep
      exact .server (r := (s.servers call.server).erase _) rfl rfl k _
    · cases hstep
  | commit op => exact absurd rfl (hcommit op)
  | apply i rand size => exact absurd rfl (happly i rand size)

/-- What a handler gives to a leader is started. -/
lemma mem_started_of_step {A : Archives} {k : ℕ} {call : ClerkCall} {raftIndex : ℤ}
    (hcall : s.calls[k]? = some call) (hstep : s.step A (.start k true raftIndex) = some t) :
    call.op ∈ t.started := by
  obtain ⟨c, hc, hstep⟩ := handle_cases hstep
  obtain rfl := Option.some.inj (hcall.symm.trans hc)
  split at hstep
  · obtain rfl := Option.some.inj hstep
    rw [if_pos rfl]
    exact List.mem_append_right _ List.mem_cons_self
  · cases hstep

end Service

namespace KVCache

variable {κ : Type} [DecidableEq κ]

/-! ### The invariant -/

/-- The nodes have pushed the log, each server has popped as much as it has applied, and what is seen is
seen of a run of the service. -/
structure Inv (A : Archives) (size : ℕ) (maxraftstate : ℕ → ℤ) (rands : κ → ℕ → ℕ) (s : KVCache κ) :
    Prop where
  observed : Run (Observed.step A) (fun o e => o.service.InOrder e)
    (.initial size maxraftstate rands) s.observed
  cluster : Cluster.Run Cluster.Safe (.initial size) s.cluster
  commands : s.cluster.Commands fun command =>
    ∃ op ∈ s.observed.service.started, A.op.save op = command
  streams : s.cluster.Streams s.observed.service.log.length
  logs : s.system.Logs (s.observed.service.log.map A.op.save)
  consumed : ∀ i, System.Consumed (s.cluster.nodes i).applyChan (s.popped i) (s.system.position i)
    (s.system.servers i)
  call : ∀ i, ∀ x ∈ s.snapshotCall i, x.1 = s.system.position i

variable {A : Archives} {size : ℕ} {maxraftstate : ℕ → ℤ} {rands : κ → ℕ → ℕ} {s t : KVCache κ}

omit [DecidableEq κ] in
/-- At the start the log is empty. -/
lemma logs_initial : (initial size maxraftstate rands).system.Logs [] :=
  (System.Replicates.initial textArchives size maxraftstate).committed

/-- The invariant holds at the start. -/
lemma Inv.initial : (initial size maxraftstate rands).Inv A size maxraftstate rands where
  observed := .refl
  cluster := .refl
  commands := .initial _ size
  streams := .initial size
  logs := logs_initial
  consumed _ := ⟨Nat.le_refl _, rfl⟩
  call _ _ hx := by cases hx

/-- What is observed is a run of the service. -/
lemma Inv.watched (h : s.Inv A size maxraftstate rands)
    (hids : Function.Injective fun i => uuid (rands i)) : Watched s.observed :=
  h.observed.invariant (fun _ _ _ h horder hstep => h.step horder hstep)
    (.initial size maxraftstate hids)

/-- Clerks and handlers go on. -/
lemma Inv.observe {e : Service.Event κ} (h : s.Inv A size maxraftstate rands)
    (horder : s.observed.service.InOrder e) (hcommit : ∀ op, e ≠ .commit op)
    (happly : ∀ i rand size, e ≠ .apply i rand size) (hstep : s.observe A e = some t) :
    t.Inv A size maxraftstate rands := by
  obtain ⟨o, ho, rfl⟩ := Option.map_eq_some_iff.mp hstep
  have hrun := h.observed.step horder ho
  obtain ⟨u, hu, rfl⟩ := Option.map_eq_some_iff.mp ho
  have hkeeps := Service.keeps_of_step hu hcommit happly
  refine ⟨hrun, h.cluster, ?_, ?_, ?_, fun i => ⟨(h.consumed i).le, ?_⟩, fun i => ?_⟩
  · exact h.commands.mono fun _ ⟨op, hop, hsave⟩ => ⟨op, hkeeps.started hop, hsave⟩
  · dsimp only
    rw [hkeeps.log]
    exact h.streams
  · dsimp only
    rw [hkeeps.log]
    exact h.logs.same fun _ _ => Iff.rfl
  · simp only [system, hkeeps.applied, hkeeps.snapshotIndex]
    exact (h.consumed i).ends
  · simp only [system, hkeeps.applied]
    exact h.call i

/-- What a server has popped stays when its node pushes more. -/
lemma Inv.consumed_of_step {a : Action} {c : Cluster} (h : s.Inv A size maxraftstate rands)
    (hx : a.OfRaft) (hs : s.cluster.step a = some c) (i : ℕ) :
    System.Consumed (c.nodes i).applyChan (s.popped i) (s.system.position i) (s.system.servers i) := by
  obtain ⟨new, hnew⟩ := Cluster.applyChan_of_step hx hs i
  exact hnew ▸ (h.consumed i).append

/-- The nodes take a step at which the log stays as it is. -/
lemma Inv.raft {a : Action} {c : Cluster} (h : s.Inv A size maxraftstate rands) (hx : a.OfRaft)
    (hsafe : s.cluster.Safe a) (horder : s.cluster.InOrder a)
    (hstart : ∀ i command, a = .start i command →
      ∃ op ∈ s.observed.service.started, A.op.save op = command)
    (hs : s.cluster.step a = some c)
    (hlogs : { s with cluster := c }.system.Logs (s.observed.service.log.map A.op.save)) :
    { s with cluster := c }.Inv A size maxraftstate rands where
  observed := h.observed
  cluster := h.cluster.step hsafe hs
  commands := h.commands.step hx hstart hs
  streams := h.streams.step hx horder hs
  logs := hlogs
  consumed := h.consumed_of_step hx hs
  call := h.call

/-- What is started may go into the log. -/
lemma Inv.observed_commit {op : Op} (h : s.Inv A size maxraftstate rands)
    (hop : op ∈ s.observed.service.started) :
    Run (Observed.step A) (fun o e => o.service.InOrder e) (.initial size maxraftstate rands)
      (s.observed.commit op) := by
  have horder : s.observed.service.InOrder (.commit op) := trivial
  refine h.observed.step horder ?_
  rw [Observed.step, Service.step, if_pos hop]
  rfl

/-- A node pushes a command: the next one of the log, or one that another node has pushed. -/
lemma Inv.push {i : ℕ} {c : Cluster} (h : s.Inv A size maxraftstate rands)
    (hsafe : s.cluster.Safe (.push i)) (hs : s.cluster.step (.push i) = some c) :
    { s with
      cluster := c
      observed := (s.added A (.push i)).elim s.observed s.observed.commit }.Inv A size maxraftstate
        rands := by
  have hx : (Action.push i).OfRaft := trivial
  have hstart : ∀ j command, Action.push i = .start j command →
      ∃ op ∈ s.observed.service.started, A.op.save op = command := by
    intro j command heq
    cases heq
  obtain ⟨msg, rest, hmsg, hlogs⟩ := h.logs.step_push (by rw [List.length_map]; exact h.streams) hs
    (System.committed_unique (h.cluster.step hsafe hs))
  replace hmsg : s.cluster.copied i = msg :: rest := hmsg
  obtain ⟨op, hop, hsave⟩ := h.commands.copied i msg (hmsg ▸ List.mem_cons_self)
  have hadded : s.added A (.push i) =
      if msg.CommandIndex = s.observed.service.log.length + 1 then some op else none := by
    rw [added, hmsg, List.head?_cons, Option.bind_some, ← hsave, A.op.load_save]
  rw [System.record, List.length_map] at hlogs
  rw [hadded]
  split_ifs at hlogs ⊢ with hnext
  · -- the log grows, and with it the bound of the snapshots
    refine ⟨h.observed_commit hop, h.cluster.step hsafe hs, h.commands.step hx hstart hs,
      (h.streams.step hx trivial hs).mono (Int.ofNat_le.mpr (List.prefix_append _ _).length_le), ?_,
      h.consumed_of_step hx hs, h.call⟩
    show System.Logs _ ((s.observed.service.log ++ [op]).map A.op.save)
    rw [List.map_append, List.map_singleton, hsave]
    exact hlogs
  · exact h.raft hx hsafe trivial hstart hs hlogs

/-! ### Steps -/

omit [DecidableEq κ] in
/-- What the nodes do alone is a step of Raft. -/
lemma ofRaft_of_ofNodes {a : Action} (h : a.OfNodes) : a.OfRaft := by
  cases a with
  | start => exact h.elim
  | snapshot => exact h.elim
  | restart => exact h.elim
  | _ => trivial

/-- A step of the nodes keeps the invariant. -/
lemma Inv.node {a : Action} (h : s.Inv A size maxraftstate rands) (horder : s.Orderly (.node a))
    (hstep : s.node A a = some t) : t.Inv A size maxraftstate rands := by
  obtain ⟨ha, hstep⟩ := Option.ite_none_right_eq_some.mp hstep
  obtain ⟨c, hc, rfl⟩ := Option.map_eq_some_iff.mp hstep
  by_cases hpush : ∃ i, a = .push i
  · obtain ⟨i, rfl⟩ := hpush
    exact h.push horder.1 hc
  · have hadded : s.added A a = none := by
      unfold added
      split
      · exact absurd ⟨_, rfl⟩ hpush
      · rfl
    rw [hadded]
    have hx := ofRaft_of_ofNodes ha
    refine h.raft hx horder.1 horder.2 (fun i command heq => ?_) hc
      (h.logs.step hx (fun i hi => hpush ⟨i, hi⟩) hc)
    subst heq
    exact ha.elim

/-- `Start` on a leader is a step of its node, with a command that is then started. -/
lemma Inv.start {k : ℕ} (h : s.Inv A size maxraftstate rands) (hstep : s.start A k = some t) :
    t.Inv A size maxraftstate rands := by
  obtain ⟨call, hcall, hstep⟩ := Option.bind_eq_some_iff.mp hstep
  have horder : ∀ isLeader raftIndex, s.observed.service.InOrder (.start k isLeader raftIndex) :=
    fun _ _ => trivial
  split at hstep
  · cases hstep
  · exact h.observe (horder _ _) (fun _ => nofun) (fun _ _ _ => nofun) hstep
  · obtain ⟨u, hu, hstep⟩ := Option.bind_eq_some_iff.mp hstep
    obtain ⟨c, hc, rfl⟩ := Option.map_eq_some_iff.mp hstep
    have hnext := h.observe (horder _ _) (fun _ => nofun) (fun _ _ _ => nofun) hu
    obtain ⟨o, ho, rfl⟩ := Option.map_eq_some_iff.mp hu
    obtain ⟨v, hv, rfl⟩ := Option.map_eq_some_iff.mp ho
    have hx : (Action.start call.server (A.op.save call.op)).OfRaft := trivial
    refine hnext.raft hx ⟨trivial, trivial⟩ trivial (fun i command heq => ?_) hc
      (hnext.logs.step hx (fun _ => nofun) hc)
    obtain ⟨-, rfl⟩ := Action.start.inj heq
    exact ⟨call.op, Service.mem_started_of_step hcall hv, rfl⟩

/-- A handler that times out keeps the invariant. -/
lemma Inv.timeOut {k : ℕ} (h : s.Inv A size maxraftstate rands) (hstep : s.timeOut A k = some t) :
    t.Inv A size maxraftstate rands := by
  obtain ⟨call, -, hstep⟩ := Option.bind_eq_some_iff.mp hstep
  have horder : ∀ isLeader, s.observed.service.InOrder (.timeOut k isLeader) := fun _ => trivial
  exact h.observe (horder _) (fun _ => nofun) (fun _ _ _ => nofun) hstep

omit [DecidableEq κ] in
/-- A server that pops the next command of the log applies it. -/
lemma apply_eq_read {r : Replica} {log : List Op} {message : ApplyMsg} {op : Op} {rand : ℕ → ℕ}
    {raftStateSize : ℤ} {kv : KvServer} {call : Option (ℤ × Bytes)}
    (hop : log[r.applied.length]? = some op) (hsave : A.op.save op = message.Command)
    (hindex : message.CommandIndex = r.applied.length + 1) (hexec : r.kv.Executes message)
    (hno : message.SnapshotValid = false)
    (hread : r.kv.readRaftApplyCommand A rand raftStateSize message = some (kv, call)) :
    r.apply A log (rand 0) raftStateSize = some (r.read A message kv) ∧
      (r.read A message kv).applied = r.applied ++ [op] := by
  have hget : r.kv.getCommandFromRaft A (rand 0) raftStateSize
      { CommandValid := true
        Command := A.op.save op
        CommandIndex := r.applied.length + 1 } = some (kv, call) := by
    rw [← hread, KvServer.readRaftApplyCommand, if_pos hexec.1]
    simp [KvServer.getCommandFromRaft, hno, hsave, hindex]
  have hload : A.op.load message.Command = some op := hsave ▸ A.op.load_save op
  rw [Replica.read, if_pos hexec, hload, Option.elim_some]
  refine ⟨?_, rfl⟩
  rw [Replica.apply, hop, Option.bind_some]
  simp only [hget, Option.map_some]

/-- A server executes the next command of the log. -/
lemma Inv.pop {i : ℕ} {rand : ℕ → ℕ} {raftStateSize : ℤ} (h : s.Inv A size maxraftstate rands)
    (hids : Function.Injective fun i => uuid (rands i))
    (horder : s.Orderly (.pop i rand raftStateSize)) (hstep : s.pop A i rand raftStateSize = some t) :
    t.Inv A size maxraftstate rands := by
  obtain ⟨message, hmsg, hstep⟩ := Option.bind_eq_some_iff.mp hstep
  obtain ⟨u, hu, rfl⟩ := Option.map_eq_some_iff.mp hstep
  obtain ⟨-, m, kv, call, hm, hread, rfl⟩ := System.pop_cases hu
  obtain rfl := Option.some.inj (hmsg.symm.trans hm)
  have hno := horder message hmsg
  have hmem : message ∈ (s.cluster.nodes i).applyChan := List.mem_of_getElem? hmsg
  have hvalid : message.CommandValid = true := by simpa [hno] using h.streams.kind i message hmem
  have hsnap := ((h.watched hids).inv.replicas i).snapshot
  -- its index is behind what the server has applied, and it is the command of the log there
  obtain ⟨n, hn, hlog⟩ := (h.logs _ _).mp ⟨i, message, hmem, hvalid, rfl, rfl⟩
  have hexec : (s.observed.service.servers i).kv.Executes message :=
    ⟨hvalid, by rw [hsnap]; omega⟩
  obtain ⟨hfits, hends⟩ := (h.consumed i).next (h.streams.stream i).1 hmsg
  have hindex : message.CommandIndex = (s.observed.service.servers i).applied.length + 1 :=
    hfits.command hvalid hexec.2
  obtain rfl : n = (s.observed.service.servers i).applied.length := by omega
  obtain ⟨op, hop, hsave⟩ := Option.map_eq_some_iff.mp (List.getElem?_map ▸ hlog)
  obtain ⟨happly, happlied⟩ := apply_eq_read hop hsave hindex hexec hno hread
  have hobserved : s.observed.step A (.apply i (rand 0) raftStateSize) =
      some (s.observed.setServer i ((s.observed.service.servers i).read A message kv)) := by
    rw [Observed.step, Service.step, happly]
    rfl
  obtain ⟨hskip, -⟩ | ⟨-, hindex', -, -, -, hcall⟩ :=
    KvServer.readRaftApplyCommand_command hvalid hno hread
  · exact absurd hexec hskip
  have horder : s.observed.service.InOrder (.apply i (rand 0) raftStateSize) := trivial
  refine ⟨?_, h.cluster, h.commands, h.streams, h.logs.same fun _ _ => Iff.rfl, fun j => ?_,
    fun j => ?_⟩
  · simp only [system, Function.update_self]
    exact h.observed.step horder hobserved
  · by_cases hj : j = i
    · subst hj
      simp only [system, Observed.setServer, Service.setServer, Function.update_self, happlied,
        Replica.read_kv]
      refine ⟨(List.getElem?_eq_some_iff.mp hmsg).1, ?_⟩
      rw [hends, advance, hindex', if_neg (by rw [hno]; exact Bool.false_ne_true),
        if_pos ⟨hvalid, hexec.2⟩, hindex, List.length_append, List.length_singleton]
      rfl
    · simp only [system, Observed.setServer, Service.setServer, Function.update_of_ne hj]
      exact h.consumed j
  · by_cases hj : j = i
    · subst hj
      simp only [system, Observed.setServer, Service.setServer, Function.update_self, happlied]
      intro x hx
      rw [(hcall x hx).1, hindex, List.length_append, List.length_singleton]
      rfl
    · simp only [system, Observed.setServer, Service.setServer, Function.update_of_ne hj]
      exact h.call j

/-- A call of `raft::Snapshot` comes with the index that the server has reached. -/
lemma Inv.snapshot {i : ℕ} (h : s.Inv A size maxraftstate rands)
    (hids : Function.Injective fun i => uuid (rands i)) (hstep : s.snapshot i = some t) :
    t.Inv A size maxraftstate rands := by
  obtain ⟨u, hu, rfl⟩ := Option.map_eq_some_iff.mp hstep
  obtain ⟨⟨index, data⟩, hcall, hu⟩ := Option.bind_eq_some_iff.mp hu
  obtain ⟨c, hc, rfl⟩ := Option.map_eq_some_iff.mp hu
  have hindex : index = (s.observed.service.servers i).applied.length := h.call i _ hcall
  have hsafe : s.cluster.Safe (.snapshot i index data) := ⟨trivial, trivial⟩
  have hbound : index ≤ s.observed.service.log.length := by
    have := ((h.watched hids).inv.replicas i).applied.length_le
    omega
  have hends : index ≤ (ends (0, 0) (s.cluster.nodes i).applyChan).1 := by
    rw [hindex]
    exact (h.consumed i).le_ends (h.streams.stream i).1
  have hnodes := hc
  simp only [Cluster.step] at hnodes
  split_ifs at hnodes
  obtain ⟨r, hr, rfl⟩ := Cluster.snapshot_cases hnodes
  have hsame : ∀ j, j ≠ i → s.system.cluster.SameStream (s.system.cluster.setNode i r) j := fun j hj =>
    Cluster.sameStream_of_ne hj rfl (Function.update_eq_self _ _).symm
  have hchan : ∀ j, ((s.system.cluster.setNode i r).nodes j).applyChan =
      (s.system.cluster.nodes j).applyChan := by
    intro j
    by_cases hj : j = i
    · rw [hj, Cluster.setNode_self, Raft.snapshot_applyChan hr]
    · exact (hsame j hj).1.applyChan
  have hcommitted := System.committed_push hsame (l := []) ((hchan i).trans (List.append_nil _).symm)
  refine ⟨h.observed, h.cluster.step hsafe hc, h.commands.snapshot hc,
    h.streams.snapshot hends hbound hc,
    h.logs.same fun index command => (hcommitted index command).trans (by simp), fun j => ?_,
    fun j x hx => ?_⟩
  · show System.Consumed ((s.system.cluster.setNode i r).nodes j).applyChan _ _ _
    rw [hchan j]
    exact h.consumed j
  · replace hx : x ∈ Function.update s.snapshotCall i none j := hx
    by_cases hj : j = i
    · subst hj
      rw [Function.update_self] at hx
      cases hx
    · rw [Function.update_of_ne hj] at hx
      exact h.call j x hx

/-- An orderly step keeps the invariant. -/
theorem Inv.step {e : Event κ} (h : s.Inv A size maxraftstate rands)
    (hids : Function.Injective fun i => uuid (rands i)) (horder : s.Orderly e)
    (hstep : s.step A e = some t) : t.Inv A size maxraftstate rands := by
  cases e with
  | node a => exact h.node horder hstep
  | clerk e =>
    obtain ⟨he, hstep⟩ := Option.ite_none_right_eq_some.mp hstep
    refine h.observe horder (fun op heq => ?_) (fun i rand size heq => ?_) hstep
    · subst heq
      exact he.elim
    · subst heq
      exact he.elim
  | start k => exact h.start hstep
  | timeOut k => exact h.timeOut hstep
  | pop i rand raftStateSize => exact h.pop hids horder hstep
  | snapshot i => exact h.snapshot hids hstep

/-- What the clerks of a cache see is what one store does that carries out their requests one after
another, each between its beginning and its end: in every run in which the nodes keep one log, no `Get`
is executed behind a later request of its client, and no server installs a snapshot. -/
theorem cache_linearizable (A : Archives) (size : ℕ) (maxraftstate : ℕ → ℤ) (rands : κ → ℕ → ℕ)
    (hids : Function.Injective fun i => uuid (rands i)) {s : KVCache κ}
    (hrun : Run (step A) Orderly (initial size maxraftstate rands) s) :
    Linearizable store (s.observed.operations.map (·.call)) := by
  have hinv : s.Inv A size maxraftstate rands :=
    hrun.invariant (fun _ _ _ h horder hstep => h.step hids horder hstep) .initial
  exact (hinv.watched hids).points.linearizable

/-- Three nodes and two clerks: node `0` is elected, and the first clerk puts a value. -/
def onePut : List (Event Bool) :=
  [.node (.doElection 0), .node (.deliver 0), .node (.complete 0),
    .clerk (.request false (.put [1] [6])), .start 0, .clerk (.register 0),
    .node (.onLogStable 0 true), .node (.doHeartBeat 0), .node (.deliver 2), .node (.resume 0 true),
    .node (.complete 1), .node (.applierTicker 0), .node (.push 0), .pop 0 (fun _ => 0) 100,
    .snapshot 0, .clerk (.pop 0), .clerk (.decide 0), .clerk (.erase 0), .clerk (.receive false)]

/-- The second clerk gets it. -/
def oneGet : List (Event Bool) :=
  [.clerk (.request true (.get [1])), .start 1, .clerk (.register 1),
    .node (.onLogStable 0 true), .node (.doHeartBeat 0), .node (.deliver 4), .node (.resume 0 true),
    .node (.complete 2), .node (.applierTicker 0), .node (.push 0), .pop 0 (fun _ => 0) 0,
    .clerk (.pop 1), .clerk (.decide 1), .clerk (.execute 1), .clerk (.erase 1),
    .clerk (.receive true)]

set_option maxRecDepth 20000 in
/-- The `Get` returns what was put. -/
theorem cache_linearizable_oneGet :
    ∃ s : KVCache Bool,
      s.observed.operations.map (·.call.returned.map Prod.snd) = [some [], some [6]] ∧
      Linearizable store (s.observed.operations.map (·.call)) := by
  have hruns : ∃ s ∈ runIf (step textArchives) Orderly
      (initial 3 (fun _ => 10) fun (i : Bool) _ => i.toNat) (onePut ++ oneGet),
      s.observed.operations.map (·.call.returned.map Prod.snd) = [some [], some [6]] := by
    decide
  obtain ⟨s, hrun, hvalues⟩ := exists_run_of_runIf hruns
  have hids : ∀ i j : Bool, (uuid fun _ => i.toNat) = (uuid fun _ => j.toNat) → i = j := by decide
  exact ⟨s, hvalues, cache_linearizable textArchives 3 (fun _ => 10) (fun i _ => i.toNat)
    (fun i j => hids i j) hrun⟩

end KVCache

end KVCacheRaft
