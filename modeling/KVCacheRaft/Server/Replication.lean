import KVCacheRaft.Raft.Entries
import KVCacheRaft.Server.Follow

/-!
# One replicated log

What the nodes push is one log without gaps, whose commands were handed to `Start`; it only grows, and
each server has executed a prefix of it that only grows, by commands or by snapshots. `Replicated` is
the log with the length of each prefix, and every step of a system is at most one step of it.
-/

namespace KVCacheRaft
open Consensus Relation

variable {A : Archives} {P : Bytes → Prop}

/-! ### Streams -/

/-- What came last is a command or a snapshot. -/
lemma ends_le_of {x : ℤ × ℤ} {msgs : List ApplyMsg} {k : ℤ} (hx : x.1 ≤ k)
    (hcommand : ∀ msg ∈ msgs, msg.CommandValid = true → msg.CommandIndex ≤ k)
    (hsnapshot : ∀ msg ∈ msgs, msg.SnapshotValid = true → msg.SnapshotIndex ≤ k) :
    (ends x msgs).1 ≤ k := by
  induction msgs generalizing x with
  | nil => exact hx
  | cons msg msgs ih =>
    refine ih ?_ (fun m hm => hcommand m (List.mem_cons_of_mem _ hm))
      fun m hm => hsnapshot m (List.mem_cons_of_mem _ hm)
    unfold advance
    split_ifs with hs hc
    · exact hsnapshot msg List.mem_cons_self hs
    · exact hcommand msg List.mem_cons_self hc.1
    · exact hx

/-- The next command is at most the one behind what came last. -/
lemma OnStream.head_le {pushed copied : List ApplyMsg} {msg : ApplyMsg} {lastApplied : ℤ}
    (h : OnStream pushed (msg :: copied) lastApplied) :
    msg.CommandIndex ≤ (ends (0, 0) pushed).1 + 1 := by
  obtain ⟨-, j, hcopied, hj, -⟩ := h
  have hidx := (hcopied 0 msg rfl).2.2
  rcases hj with hj | ⟨hj, -⟩ <;> omega

/-! ### Where commands come from -/

/-- What is read from the log is in it. -/
lemma Raft.mem_of_logAt {r : Raft} {index : ℤ} {e : LogEntry} (h : r.logAt index = .ok e) :
    e ∈ r.logs :=
  List.mem_of_getElem? (vecGet_eq_ok.mp h).2

/-- `Snapshot` pushes nothing. -/
lemma Raft.snapshot_applyChan {r r' : Raft} {index : ℤ} {data : Bytes}
    (h : r.snapshot index data = .ok r') : r'.applyChan = r.applyChan := by
  rcases Raft.snapshot_cases h with rfl | ⟨-, -, e, -, rfl⟩
  · rfl
  · rfl

namespace Cluster

variable {s s' : Cluster}

/-- Every command in a cluster. -/
structure Commands (P : Bytes → Prop) (s : Cluster) : Prop where
  entries : s.Entries fun e => P e.command
  copied : ∀ i, ∀ msg ∈ s.copied i, P msg.Command
  pushed : ∀ i, ∀ msg ∈ (s.nodes i).applyChan, msg.CommandValid = true → P msg.Command

/-- A fresh cluster has no commands. -/
lemma Commands.initial (P : Bytes → Prop) (n : ℕ) : (initial n).Commands P where
  entries := {
    logs := fun _ _ he => by cases he
    calls := fun _ hc => by cases hc
    handlers := fun _ hh => by cases hh }
  copied _ _ hm := by cases hm
  pushed _ _ hm := by cases hm

/-- A step that changes a node and what it has copied. -/
lemma Commands.node (h : s.Commands P) (hentries : s'.Entries fun e => P e.command) (i : ℕ)
    (hsame : ∀ j, j ≠ i → s.SameStream s' j) (hcopied : ∀ msg ∈ s'.copied i, P msg.Command)
    (hpushed : ∀ msg ∈ (s'.nodes i).applyChan, msg.CommandValid = true → P msg.Command) :
    s'.Commands P where
  entries := hentries
  copied j := by
    by_cases hj : j = i
    · exact hj ▸ hcopied
    · exact (hsame j hj).2 ▸ h.copied j
  pushed j := by
    by_cases hj : j = i
    · exact hj ▸ hpushed
    · exact (hsame j hj).1.applyChan ▸ h.pushed j

/-- What is copied comes from the log. -/
lemma Commands.copyLogs (h : s.Commands P) {i : ℕ} {start : ℤ} {count : ℕ} {msgs : List ApplyMsg}
    (hcopy : (s.nodes i).copyLogs start count = .ok msgs) : ∀ msg ∈ msgs, P msg.Command := by
  intro msg hm
  obtain ⟨e, he, hcommand, -, -⟩ := Raft.copyLogs_mem hcopy hm
  rw [hcommand]
  exact h.entries.logs i e (Raft.mem_of_logAt he)

/-- Only `Start` brings commands into a cluster. -/
lemma Commands.step (h : s.Commands P) {x : Action} (hx : x.OfRaft)
    (hstart : ∀ i command, x = .start i command → P command) (hs : s.step x = some s') :
    s'.Commands P := by
  have hentries : s'.Entries fun e => P e.command := by
    refine h.entries.step (fun i command r e heq hr => ?_) (fun i logs heq => ?_) hs
    · obtain ⟨-, rfl, -⟩ := Raft.start_cases hr
      exact hstart i command heq
    · subst heq
      exact hx.elim
  obtain ⟨hstream, -⟩ := step_stream hx hs
  cases hstream with
  | none hsame =>
    refine h.node hentries 0 (fun j _ => hsame j) ?_ ?_
    · exact (hsame 0).2 ▸ h.copied 0
    · exact (hsame 0).1.applyChan ▸ h.pushed 0
  | applierTicker i msgs hsame _ hcopy _ hnode hcopied =>
    refine h.node hentries i hsame ?_ ?_
    · exact hcopied ▸ h.copyLogs hcopy
    · rw [hnode]
      exact h.pushed i
  | push i msg rest hsame hmsg hnode hcopied =>
    have hall := h.copied i
    rw [hmsg] at hall
    refine h.node hentries i hsame ?_ ?_
    · rw [hcopied]
      exact fun m hm => hall m (List.mem_cons_of_mem _ hm)
    · rw [hnode]
      refine List.forall_mem_append.mpr ⟨h.pushed i, fun m hm _ => ?_⟩
      exact List.mem_singleton.mp hm ▸ hall msg List.mem_cons_self
  | install i args hsame _ _ _ hnode hcopied =>
    refine h.node hentries i hsame ?_ ?_
    · exact hcopied ▸ h.copied i
    · rw [hnode]
      refine List.forall_mem_append.mpr ⟨?_, fun m hm hvalid => ?_⟩
      · have hframe := (s.nodes i).catchUp_frame args.term
        exact hframe.applyChan ▸ h.pushed i
      · rw [List.mem_singleton.mp hm] at hvalid
        cases hvalid

/-- `Snapshot` brings no command. -/
lemma Commands.snapshot (h : s.Commands P) {i : ℕ} {index : ℤ} {data : Bytes}
    (hs : s.step (.snapshot i index data) = some s') : s'.Commands P := by
  have hentries : s'.Entries fun e => P e.command :=
    h.entries.step (fun _ _ _ _ heq => by cases heq) (fun _ _ heq => by cases heq) hs
  simp only [Cluster.step] at hs
  split_ifs at hs
  obtain ⟨r, hr, rfl⟩ := snapshot_cases hs
  refine h.node hentries i (fun j hj => sameStream_of_ne hj rfl (Function.update_eq_self _ _).symm)
    (h.copied i) ?_
  rw [setNode_self, Raft.snapshot_applyChan hr]
  exact h.pushed i

end Cluster

/-! ### The log and the servers -/

/-- One log of commands, with how many of them each server has executed. -/
structure Replicated where
  log : List Bytes
  executed : ℕ → ℕ

namespace Replicated

def initial : Replicated where
  log := []
  executed _ := 0

/-- A command is added, or a server goes on. -/
inductive Step (r : Replicated) : Replicated → Prop where
  | commit (command : Bytes) : Step r { r with log := r.log ++ [command] }
  | execute (i k : ℕ) : r.executed i ≤ k → k ≤ r.log.length →
    Step r { r with executed := Function.update r.executed i k }

end Replicated

/-- The commands that an action hands to `Start`. -/
def SystemAction.command : SystemAction → Option Bytes
  | .raft (.start _ command) => some command
  | _ => none

namespace System

variable {s t : System} {r : Replicated} {size : ℕ} {maxraftstate : ℕ → ℤ}

/-- The commands committed are the log, and every server has the data of its prefix. -/
structure Replicates (A : Archives) (s : System) (r : Replicated) : Prop where
  committed : ∀ index command, s.Committed index command ↔
    ∃ k : ℕ, index = k + 1 ∧ r.log[k]? = some command
  position : ∀ i, s.position i = r.executed i
  executed_le : ∀ i, r.executed i ≤ r.log.length
  view : ∀ i, (s.servers i).view = meaning A (r.log.take (r.executed i))

/-- The steps of the runs whose commands are of `P`. -/
def OrderlyOf (A : Archives) (P : Bytes → Prop) (s : System) (x : SystemAction) : Prop :=
  Orderly A s x ∧ ∀ command ∈ x.command, P command

instance [DecidablePred P] (s : System) (x : SystemAction) : Decidable (OrderlyOf A P s x) :=
  inferInstanceAs (Decidable (_ ∧ _))

/-- A run over clients is orderly. -/
lemma Run.orderly (hr : Run A (OrderlyOf A P) s t) : Run A (Orderly A) s t := by
  induction hr with
  | refl => exact .refl
  | step _ hx hs ih => exact ih.step hx.1 hs

/-- Nothing is replicated at the start. -/
lemma Replicates.initial (A : Archives) (size : ℕ) (maxraftstate : ℕ → ℤ) :
    Replicates A (initial size maxraftstate) .initial where
  committed index command := by
    constructor
    · rintro ⟨i, msg, hmsg, -⟩
      cases hmsg
    · rintro ⟨k, -, hk⟩
      cases hk
  position _ := rfl
  executed_le _ := Nat.le_refl 0
  view _ := rfl

/-- The data of a committed prefix are those of the log up to there. -/
lemma Replicates.exists_take (h : s.Replicates A r) {index : ℤ} {σ : KvState}
    (hp : s.HasPrefix A index σ) : ∃ k : ℕ, index = k ∧ k ≤ r.log.length ∧
      σ = meaning A (r.log.take k) := by
  obtain ⟨commands, rfl, hall, rfl⟩ := hp
  have hget : ∀ (k : ℕ) command, commands[k]? = some command → r.log[k]? = some command := by
    intro k command hk
    obtain ⟨k', hk', hlog⟩ := (h.committed _ _).mp (hall k command hk)
    obtain rfl : k = k' := by omega
    exact hlog
  have hpre : commands <+: r.log := List.prefix_iff_getElem?.mpr fun k hk =>
    hget k _ (List.getElem?_eq_getElem hk)
  exact ⟨commands.length, rfl, hpre.length_le, by rw [← List.prefix_iff_eq_take.mp hpre]⟩

/-- Steps that push no command. -/
lemma Replicates.same (h : s.Replicates A r)
    (hcommitted : ∀ index command, t.Committed index command ↔ s.Committed index command)
    (hposition : t.position = s.position) (hservers : t.servers = s.servers) :
    t.Replicates A r where
  committed index command := (hcommitted index command).trans (h.committed index command)
  position i := hposition ▸ h.position i
  executed_le := h.executed_le
  view i := hservers ▸ h.view i

/-- A step at one node that pushes `l`. -/
lemma committed_push {c : Cluster} {i : ℕ} {l : List ApplyMsg}
    (hsame : ∀ j, j ≠ i → s.cluster.SameStream c j)
    (happly : (c.nodes i).applyChan = (s.cluster.nodes i).applyChan ++ l) (index : ℤ)
    (command : Bytes) :
    { s with cluster := c }.Committed index command ↔ s.Committed index command ∨
      ∃ msg ∈ l, msg.CommandValid = true ∧ msg.CommandIndex = index ∧ msg.Command = command := by
  constructor
  · rintro ⟨j, msg, hmsg, hrest⟩
    by_cases hj : j = i
    · subst hj
      have hmsg' : msg ∈ (s.cluster.nodes j).applyChan ++ l := happly ▸ hmsg
      obtain hold | hnew := List.mem_append.mp hmsg'
      · exact .inl ⟨j, msg, hold, hrest⟩
      · exact .inr ⟨msg, hnew, hrest⟩
    · exact .inl ⟨j, msg, (hsame j hj).1.applyChan ▸ hmsg, hrest⟩
  · rintro (⟨j, msg, hmsg, hrest⟩ | ⟨msg, hmsg, hrest⟩)
    · refine ⟨j, msg, ?_, hrest⟩
      show msg ∈ (c.nodes j).applyChan
      by_cases hj : j = i
      · subst hj
        exact happly ▸ List.mem_append_left _ hmsg
      · exact (hsame j hj).1.applyChan.symm ▸ hmsg
    · exact ⟨i, msg, happly.symm ▸ List.mem_append_right _ hmsg, hrest⟩

/-- The commands committed are the log. -/
def Logs (s : System) (log : List Bytes) : Prop :=
  ∀ index command, s.Committed index command ↔
    ∃ k : ℕ, index = k + 1 ∧ log[k]? = some command

/-- The log behind a command that is pushed: it is the next one, or there already. -/
def record (log : List Bytes) (msg : ApplyMsg) : List Bytes :=
  if msg.CommandIndex = log.length + 1 then log ++ [msg.Command] else log

variable {log : List Bytes}

/-- A committed index is within the log. -/
lemma Logs.index_le (h : s.Logs log) {index : ℤ} {command : Bytes} (hc : s.Committed index command) :
    index ≤ log.length := by
  obtain ⟨k, rfl, hk⟩ := (h _ _).mp hc
  have hlt := (List.getElem?_eq_some_iff.mp hk).1
  omega

/-- A step that commits nothing keeps the log. -/
lemma Logs.same {t : System} (h : s.Logs log)
    (hcommitted : ∀ index command, t.Committed index command ↔ s.Committed index command) :
    t.Logs log := fun index command => (hcommitted index command).trans (h index command)

/-- A step of the cluster commits nothing, or one node pushes a command that it has copied. -/
lemma Logs.of_stream {c : Cluster} {x : Action} (h : s.Logs log) (hstream : s.cluster.StreamStep x c) :
    { s with cluster := c }.Logs log ∨
      ∃ i msg rest, (∀ j, j ≠ i → s.cluster.SameStream c j) ∧ s.cluster.copied i = msg :: rest ∧
        c.nodes i = (s.cluster.nodes i).push msg ∧ c.copied i = rest := by
  cases hstream with
  | none hsame =>
    have hcommitted := committed_push (l := []) (fun j (_ : j ≠ 0) => hsame j)
      (by rw [(hsame 0).1.applyChan, List.append_nil])
    exact .inl (h.same fun index command => by simp [hcommitted])
  | applierTicker i msgs hsame _ _ _ hnode _ =>
    have hcommitted := committed_push (l := []) hsame (by rw [hnode, List.append_nil])
    exact .inl (h.same fun index command => by simp [hcommitted])
  | install i args hsame _ _ _ hnode _ =>
    have hframe := (s.cluster.nodes i).catchUp_frame args.term
    have hcommitted := committed_push (l := [Raft.snapshotMsg args]) hsame (by
      rw [hnode]
      exact congrArg (· ++ _) hframe.applyChan)
    exact .inl (h.same fun index command => by simp [hcommitted, Raft.snapshotMsg])
  | push i msg rest hsame hmsg hnode hcopied => exact .inr ⟨i, msg, rest, hsame, hmsg, hnode, hcopied⟩

/-- A command pushed at one node, which is not behind the next one, and no other one has its place. -/
lemma Logs.push {c : Cluster} {i : ℕ} {msg : ApplyMsg} (h : s.Logs log)
    (hsame : ∀ j, j ≠ i → s.cluster.SameStream c j)
    (hnode : c.nodes i = (s.cluster.nodes i).push msg) (hvalid : msg.CommandValid = true)
    (hle : msg.CommandIndex ≤ log.length + 1)
    (hpos : ∀ {index command}, { s with cluster := c }.Committed index command → 0 < index ∧
      ∀ command', { s with cluster := c }.Committed index command' → command = command') :
    { s with cluster := c }.Logs (record log msg) := by
  have hcommitted := committed_push (l := [msg]) hsame (by rw [hnode]; rfl)
  have hnew : { s with cluster := c }.Committed msg.CommandIndex msg.Command :=
    (hcommitted _ _).mpr (.inr ⟨msg, List.mem_singleton_self _, hvalid, rfl, rfl⟩)
  obtain ⟨hpos, hunique⟩ := hpos hnew
  intro index command
  rw [hcommitted, h, record]
  split_ifs with hnext
  · constructor
    · rintro (⟨k, rfl, hlog⟩ | ⟨m, hm, -, rfl, rfl⟩)
      · refine ⟨k, rfl, ?_⟩
        rw [List.getElem?_append_left (List.getElem?_eq_some_iff.mp hlog).1]
        exact hlog
      · rw [List.mem_singleton.mp hm]
        exact ⟨log.length, hnext, List.getElem?_concat_length⟩
    · rintro ⟨k, rfl, hlog⟩
      rcases Nat.lt_or_ge k log.length with hlt | hge
      · rw [List.getElem?_append_left hlt] at hlog
        exact .inl ⟨k, rfl, hlog⟩
      · have hlt := (List.getElem?_eq_some_iff.mp hlog).1
        rw [List.length_append, List.length_singleton] at hlt
        obtain rfl : k = log.length := by omega
        rw [List.getElem?_concat_length] at hlog
        exact .inr ⟨msg, List.mem_singleton_self _, hvalid, hnext, Option.some.inj hlog⟩
  · -- another node has pushed the command before
    obtain ⟨k, hk⟩ : ∃ k : ℕ, msg.CommandIndex = k + 1 := ⟨(msg.CommandIndex - 1).toNat, by omega⟩
    have hlt : k < log.length := by omega
    have hold : s.Committed msg.CommandIndex log[k] :=
      (h _ _).mpr ⟨k, hk, List.getElem?_eq_getElem hlt⟩
    have hcommand := hunique _ ((hcommitted _ _).mpr (.inl hold))
    rw [or_iff_left_of_imp]
    rintro ⟨m, hm, -, rfl, rfl⟩
    rw [List.mem_singleton.mp hm, hcommand]
    exact ⟨k, hk, List.getElem?_eq_getElem hlt⟩

/-- The stream of a node does not reach beyond the log. -/
lemma Replicates.ends_le (h : s.Replicates A r) {pushed : List ApplyMsg} (i : ℕ)
    (hmem : pushed ⊆ (s.cluster.nodes i).applyChan) (hsnap : s.Pushed A pushed) {x : ℤ × ℤ}
    (hx : x.1 ≤ r.log.length) : (ends x pushed).1 ≤ r.log.length := by
  refine ends_le_of hx (fun msg hmsg hvalid => ?_) fun msg hmsg hvalid => ?_
  · exact Logs.index_le h.committed ⟨i, msg, hmem hmsg, hvalid, rfl, rfl⟩
  · obtain ⟨source, -, hp⟩ := (hsnap msg hmsg).2 hvalid
    obtain ⟨k, hk, hle, -⟩ := h.exists_take hp
    omega

/-- No two commands are committed under one index, and none under an index that is not positive. -/
lemma committed_unique (hr : Cluster.Run Cluster.Safe (.initial size) s.cluster) {index : ℤ}
    {command : Bytes} (h : s.Committed index command) :
    0 < index ∧ ∀ command', s.Committed index command' → command = command' := by
  obtain ⟨a, -, -, hsim, -⟩ := Cluster.sim_of_run hr
  obtain ⟨i, m, hm, hv, hidx, rfl⟩ := h
  have happlies := hsim.pushed i m hm hv
  constructor
  · obtain ⟨p, e, -, hlen, -⟩ := happlies
    omega
  · rintro _ ⟨j, m', hm', hv', hidx', rfl⟩
    exact Cluster.Applies.agree hsim.reachable.inv happlies (hsim.pushed j m' hm' hv')
      (hidx.trans hidx'.symm)

/-- A step of the cluster commits at most one command, the next one. -/
lemma Replicates.raft {c : Cluster} {x : Action} (h : s.Replicates A r) (hflow : Flow A s)
    (hx : x.OfRaft) (hs : s.cluster.step x = some c)
    (hpos : ∀ {index command}, { s with cluster := c }.Committed index command → 0 < index ∧
      ∀ command', { s with cluster := c }.Committed index command' → command = command') :
    ∃ r', ReflTransGen Replicated.Step r r' ∧ { s with cluster := c }.Replicates A r' := by
  rcases Logs.of_stream h.committed (Cluster.step_stream hx hs).1 with
    hlogs | ⟨i, msg, rest, hsame, hmsg, hnode, -⟩
  · exact ⟨r, .refl, hlogs, h.position, h.executed_le, h.view⟩
  have hon := hflow.stream i
  rw [hmsg] at hon
  have hends := h.ends_le i (List.Subset.refl _) (hflow.pushed i) (x := (0, 0))
    (Int.natCast_nonneg _)
  have hlogs := Logs.push h.committed hsame hnode hon.head.1
    (hon.head_le.trans (Int.add_le_add_right hends 1)) hpos
  unfold record at hlogs
  split_ifs at hlogs
  · refine ⟨_, .single (.commit msg.Command), hlogs, h.position, fun j => ?_, fun j => ?_⟩
    · show r.executed j ≤ (r.log ++ [msg.Command]).length
      exact (h.executed_le j).trans (by simp)
    · show _ = meaning A ((r.log ++ [msg.Command]).take (r.executed j))
      rw [List.take_append_of_le_length (h.executed_le j)]
      exact h.view j
  · exact ⟨r, .refl, hlogs, h.position, h.executed_le, h.view⟩

/-- A message popped takes its server on in the log. -/
lemma Replicates.pop {i : ℕ} {rand : ℕ → ℕ} {raftStateSize : ℤ} (h : s.Replicates A r)
    (hflow : Flow A s) (hload : Orderly A s (.pop i rand raftStateSize))
    (hs : s.pop A i rand raftStateSize = some t) :
    ∃ r', ReflTransGen Replicated.Step r r' ∧ t.Replicates A r' := by
  obtain ⟨hflow', hadv⟩ := hflow.pop hload hs
  obtain ⟨-, message, server, call, -, -, rfl⟩ := pop_cases hs
  obtain ⟨k, hk, hle, hview⟩ := h.exists_take (hflow'.atPrefix i)
  have hgo : r.executed i ≤ k := by
    have hpos := hadv.position_le
    rw [hk, h.position i] at hpos
    exact Int.ofNat_le.mp hpos
  refine ⟨_, .single (.execute i k hgo hle), h.committed, fun j => ?_, fun j => ?_, fun j => ?_⟩
  · by_cases hj : j = i
    · subst hj
      simpa using hk
    · simpa [hj] using h.position j
  · by_cases hj : j = i
    · subst hj
      simpa using hle
    · simpa [hj] using h.executed_le j
  · by_cases hj : j = i
    · subst hj
      simpa using hview
    · simpa [hj] using h.view j

/-- A call of `raft::Snapshot` pushes nothing. -/
lemma Replicates.snapshot {i : ℕ} (h : s.Replicates A r) (hs : s.snapshot i = some t) :
    t.Replicates A r := by
  obtain ⟨⟨index, data⟩, -, hs⟩ := Option.bind_eq_some_iff.mp hs
  obtain ⟨c, hc, rfl⟩ := Option.map_eq_some_iff.mp hs
  simp only [Cluster.step] at hc
  split_ifs at hc
  obtain ⟨q, hq, rfl⟩ := Cluster.snapshot_cases hc
  have hsame : ∀ j, j ≠ i → s.cluster.SameStream (s.cluster.setNode i q) j := fun j hj =>
    Cluster.sameStream_of_ne hj rfl (Function.update_eq_self _ _).symm
  have hcommitted := committed_push hsame (l := []) (by
    rw [Cluster.setNode_self, Raft.snapshot_applyChan hq, List.append_nil])
  exact h.same (fun k command => (hcommitted k command).trans (by simp)) rfl rfl

/-! ### Runs -/

/-- Runs compose. -/
lemma Run.trans {u : System} {Q : System → SystemAction → Prop} (h : Run A Q s t)
    (h' : Run A Q t u) : Run A Q s u := by
  induction h' with
  | refl => exact h
  | step _ hx hs ih => exact ih.step hx hs

/-- Every command in a system was handed to `Start`. -/
lemma Run.commands (hr : Run A (OrderlyOf A P) (System.initial size maxraftstate) s) :
    s.cluster.Commands P := by
  induction hr with
  | refl => exact .initial P size
  | @step t u x _ hx hs ih =>
    cases x with
    | raft a =>
      simp only [System.step] at hs
      split_ifs at hs with ha
      obtain ⟨c, hc, rfl⟩ := Option.map_eq_some_iff.mp hs
      refine ih.step ha (fun i command heq => ?_) hc
      exact hx.2 command (heq ▸ rfl)
    | pop i rand raftStateSize =>
      obtain ⟨-, message, server, call, -, -, rfl⟩ := pop_cases hs
      exact ih
    | snapshot i =>
      obtain ⟨⟨index, data⟩, -, hs⟩ := Option.bind_eq_some_iff.mp hs
      obtain ⟨c, hc, rfl⟩ := Option.map_eq_some_iff.mp hs
      exact ih.snapshot hc

/-- Every step of a system is at most one step of the log. -/
lemma Replicates.run (h : s.Replicates A r)
    (hs : Run A (Orderly A) (System.initial size maxraftstate) s) (ht : Run A (Orderly A) s t) :
    ∃ r', ReflTransGen Replicated.Step r r' ∧ t.Replicates A r' := by
  induction ht with
  | refl => exact ⟨r, .refl, h⟩
  | @step t u x ht hx hstep ih =>
    obtain ⟨r', hsteps, h'⟩ := ih
    have hrun := hs.trans ht
    have hflow := (Flow.initial A size maxraftstate).run hrun
    have hu := hrun.step hx hstep
    have hnext : ∃ v, ReflTransGen Replicated.Step r' v ∧ u.Replicates A v := by
      cases x with
      | raft a =>
        simp only [step] at hstep
        split_ifs at hstep with ha
        obtain ⟨c, hc, rfl⟩ := Option.map_eq_some_iff.mp hstep
        exact h'.raft hflow ha hc (committed_unique hu.cluster)
      | pop i rand raftStateSize => exact h'.pop hflow hx hstep
      | snapshot i => exact ⟨r', .refl, h'.snapshot hstep⟩
    obtain ⟨v, hv, hreplicates⟩ := hnext
    exact ⟨v, hsteps.trans hv, hreplicates⟩

/-- A system is one replicated log: the commands committed are the log, every one of them was handed to
`Start`, every server has the data of its prefix, and a run only makes the log and the prefixes longer,
whether servers execute the commands or install snapshots. -/
theorem replicates_log (hs : Run A (OrderlyOf A P) (initial size maxraftstate) s)
    (ht : Run A (OrderlyOf A P) s t) :
    ∃ r r', ReflTransGen Replicated.Step .initial r ∧ ReflTransGen Replicated.Step r r' ∧
      s.Replicates A r ∧ t.Replicates A r' ∧ ∀ command ∈ r'.log, P command := by
  obtain ⟨r, hr, h⟩ := (Replicates.initial A size maxraftstate).run .refl hs.orderly
  obtain ⟨r', hr', h'⟩ := h.run hs.orderly ht.orderly
  refine ⟨r, r', hr, hr', h, h', fun command hcommand => ?_⟩
  obtain ⟨k, hk⟩ := List.getElem?_of_mem hcommand
  obtain ⟨i, msg, hmsg, hvalid, -, rfl⟩ := (h'.committed (k + 1) command).mpr ⟨k, rfl, hk⟩
  exact (hs.trans ht).commands.pushed i msg hmsg hvalid

set_option maxRecDepth 20000 in
/-- Server `0` has executed the one command, and server `2` installs the snapshot of it. -/
theorem replicates_log_snapshotted :
    ∃ (s t : System) (r r' : Replicated),
      (s.position 0 = 1 ∧ s.position 2 = 0 ∧ t.position 0 = 1 ∧ t.position 2 = 1) ∧
      ReflTransGen Replicated.Step .initial r ∧ ReflTransGen Replicated.Step r r' ∧
      s.Replicates textArchives r ∧ t.Replicates textArchives r' ∧
      ∀ command ∈ r'.log, command = textArchives.op.save (putOne 1) := by
  have h : ∃ s ∈ (initial 3 fun _ => 10).runIf textArchives
        (OrderlyOf textArchives fun c => c = textArchives.op.save (putOne 1)) snapshotted,
      ∃ t ∈ s.runIf textArchives
        (OrderlyOf textArchives fun c => c = textArchives.op.save (putOne 1))
        [.raft (.doHeartBeat 0), .raft (.leaderSendSnapShot 0), .raft (.deliver 5),
          .pop 2 (fun _ => 0) 0],
      s.position 0 = 1 ∧ s.position 2 = 0 ∧ t.position 0 = 1 ∧ t.position 2 = 1 := by
    decide
  obtain ⟨s, hs, t, ht, hpos⟩ := h
  obtain ⟨r, r', hlog⟩ := replicates_log (run_of_runIf hs) (run_of_runIf ht)
  exact ⟨s, t, r, r', hpos, hlog⟩

end System

end KVCacheRaft
