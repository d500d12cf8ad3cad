import KVCacheRaft.Raft.Safety
import KVCacheRaft.Server.Stream

/-!
# Servers follow the committed prefix

`Flow` is the invariant of the runs of `Orderly` steps: the stream of every node is good, what is
copied and not pushed goes on behind it or is skipped, and every server, every snapshot file, every
snapshot request and every snapshot message has the data of a settled prefix of its length.
-/

namespace KVCacheRaft
open Consensus

variable {A : Archives}

/-! ### One message -/

namespace KvServer

variable {s t source : KvServer} {message : ApplyMsg} {rand : ℕ → ℕ} {raftStateSize : ℤ}
  {call : Option (ℤ × Bytes)}

/-- What a map gives is in the list of its values. -/
lemma mem_zip_of_map {α β : Type} {f : α → Option β} {ks : List α} {vs : List β} {k : α} {v : β}
    (h : ks.map f = vs.map some) (hk : k ∈ ks) (hv : f k = some v) : (k, v) ∈ ks.zip vs := by
  induction ks generalizing vs with
  | nil => cases hk
  | cons k' ks ih =>
    cases vs with
    | nil => cases h
    | cons v' vs =>
      obtain ⟨h1, h2⟩ := List.cons.inj h
      rcases List.mem_cons.mp hk with rfl | hk
      · obtain rfl : v = v' := Option.some.inj (hv.symm.trans h1)
        exact List.mem_cons_self
      · exact List.mem_cons_of_mem _ (ih h2 hk)

/-- A server loads its own dump. -/
lemma loadsInto_of_dump (h : s.LoadsDump source.skipList.dump) : LoadsInto source s := by
  intro key
  have hzip : ∀ {v}, source.skipList.search_element key = some v →
      (s.skipList.search_element key).getD key = v := by
    intro v hv
    have hk : key ∈ source.skipList.dump.1 := source.wellFormed.mem_dump.mpr (by rw [hv]; rfl)
    exact h.2 _ (mem_zip_of_map source.wellFormed.dump_values hk hv)
  cases hs : s.skipList.search_element key with
  | some v =>
    have hk : key ∈ source.skipList.dump.1 :=
      h.1 key (s.wellFormed.mem_dump.mpr (by rw [hs]; rfl))
    obtain ⟨w, hw⟩ := Option.isSome_iff_exists.mp (source.wellFormed.mem_dump.mp hk)
    have := hzip hw
    rw [hs] at this
    exact hw.trans (congrArg some this.symm)
  | none =>
    intro v hv
    have := hzip hv
    rw [hs] at this
    exact this.symm

/-- A command that is skipped does nothing; any other is executed, and a call of `raft::Snapshot`
that follows it comes with a snapshot of the data then. -/
lemma readRaftApplyCommand_command (hc : message.CommandValid = true)
    (hn : message.SnapshotValid = false)
    (h : s.readRaftApplyCommand A rand raftStateSize message = some (t, call)) :
    ¬ s.Executes message ∧ t = s ∧ call = none ∨
      s.Executes message ∧ t.lastSnapShotRaftLogIndex = s.lastSnapShotRaftLogIndex ∧
      ∃ op, A.op.load message.Command = some op ∧ t.view = s.view.exec op ∧
        ∀ x ∈ call, x.1 = message.CommandIndex ∧
          ∃ source : KvServer, x.2 = source.makeSnapShot A ∧ source.view = t.view := by
  simp only [readRaftApplyCommand, hc, hn, if_true, getCommandFromRaft, Bool.false_eq_true,
    if_false] at h
  cases hop : A.op.load message.Command with
  | none => simp [hop] at h
  | some op =>
    by_cases hidx : message.CommandIndex ≤ s.lastSnapShotRaftLogIndex
    · left
      simp [hop, hidx] at h
      obtain ⟨rfl, rfl⟩ := h
      exact ⟨fun hex => absurd hex.2 (Int.not_lt.mpr hidx), rfl, rfl⟩
    · right
      simp [hop, hidx] at h
      obtain ⟨rfl, rfl⟩ := h
      obtain ⟨hview, hsnap⟩ :=
        sendMessageToWaitChan_same (s.executeCommand (rand 0) op) op message.CommandIndex
      rw [view_executeCommand] at hview
      refine ⟨⟨hc, Int.not_le.mp hidx⟩, hsnap.trans (executeCommand_snapshotIndex s _ op), op, rfl,
        hview, fun x hx => ?_⟩
      have hx' : x = (message.CommandIndex, (s.executeCommand (rand 0) op).makeSnapShot A) := by
        simp only [ifNeedToSendSnapShotCommand] at hx
        split_ifs at hx <;> simp at hx
        exact hx.symm
      subst hx'
      exact ⟨rfl, _, rfl, (view_executeCommand s _ op).trans hview.symm⟩

/-- A snapshot whose loading does no harm leaves its data. -/
lemma readRaftApplyCommand_snapshot (hc : message.CommandValid = false)
    (hn : message.SnapshotValid = true) (hdata : message.Snapshot = source.makeSnapShot A)
    (hload : ∀ d ∈ A.server.load message.Snapshot, ∀ dumper ∈ A.dump.load d.1, s.LoadsDump dumper)
    (h : s.readRaftApplyCommand A rand raftStateSize message = some (t, call)) :
    call = none ∧ t.lastSnapShotRaftLogIndex = message.SnapshotIndex ∧ t.view = source.view := by
  have hl : LoadsInto source s := by
    apply loadsInto_of_dump
    rw [hdata] at hload
    exact hload _ (A.server.load_save _) _ (A.dump.load_save _)
  obtain ⟨u, hu, -⟩ := readSnapShotToInstall_makeSnapShot (A := A) source s rand
  obtain ⟨hmap, htable⟩ := (sameData_iff hu).mpr hl
  simp [readRaftApplyCommand, hc, hn, getSnapShotFromRaft, hdata, hu] at h
  obtain ⟨rfl, rfl⟩ := h
  refine ⟨rfl, rfl, KvState.ext hmap ?_⟩
  funext client
  exact congrArg (AList.lookup client) htable

end KvServer

/-! ### The stream of one node -/

/-- What a node has pushed is good, and what it has copied and not pushed goes on behind it or is
skipped behind a snapshot. -/
def OnStream (pushed copied : List ApplyMsg) (lastApplied : ℤ) : Prop :=
  Good (0, 0) pushed ∧ ∃ j, Consecutive j copied ∧
    (j = (ends (0, 0) pushed).1 ∨
      j ≤ (ends (0, 0) pushed).1 ∧ (ends (0, 0) pushed).2 = (ends (0, 0) pushed).1) ∧
    lastApplied = max (j + copied.length) (ends (0, 0) pushed).1

section OnStream

variable {pushed copied : List ApplyMsg} {lastApplied : ℤ}

/-- Nothing is pushed at the start. -/
lemma OnStream.nil : OnStream [] [] 0 :=
  ⟨trivial, 0, fun k msg h => by simp at h, .inl rfl, rfl⟩

/-- What is pushed ends at or below `m_lastApplied`. -/
lemma OnStream.le_lastApplied (h : OnStream pushed copied lastApplied) :
    (ends (0, 0) pushed).1 ≤ lastApplied := by
  obtain ⟨-, j, -, -, rfl⟩ := h
  exact le_max_right _ _

/-- `applierTicker` copies the commands behind `lastApplied`. -/
lemma OnStream.copy {msgs : List ApplyMsg} (h : OnStream pushed [] lastApplied)
    (hmsgs : Consecutive lastApplied msgs) :
    OnStream pushed msgs (lastApplied + msgs.length) := by
  obtain ⟨hgood, j, -, hj, hlast⟩ := h
  have heq : lastApplied = (ends (0, 0) pushed).1 := by
    have hlast : lastApplied = max j (ends (0, 0) pushed).1 := by simpa using hlast
    rcases hj with hj | ⟨hj, -⟩
    · rw [hlast, hj, max_self]
    · rw [hlast, max_eq_right hj]
  refine ⟨hgood, lastApplied, hmsgs, .inl heq, ?_⟩
  rw [← heq]
  omega

/-- What is copied are commands. -/
lemma OnStream.head {msg : ApplyMsg} (h : OnStream pushed (msg :: copied) lastApplied) :
    msg.CommandValid = true ∧ msg.SnapshotValid = false := by
  obtain ⟨-, j, hcopied, -⟩ := h
  obtain ⟨hvalid, hno, -⟩ := hcopied 0 msg rfl
  exact ⟨hvalid, hno⟩

/-- A command pushed is the next one, or behind a snapshot. -/
lemma OnStream.push {msg : ApplyMsg} (h : OnStream pushed (msg :: copied) lastApplied) :
    OnStream (pushed ++ [msg]) copied lastApplied := by
  obtain ⟨hgood, j, hcopied, hj, hlast⟩ := h
  obtain ⟨hvalid, hno, hindex⟩ := hcopied 0 msg rfl
  replace hindex : msg.CommandIndex = j + 1 := by simpa using hindex
  have hle := hgood.snapshot_le le_rfl
  have hadv : advance (ends (0, 0) pushed) msg =
      if (ends (0, 0) pushed).2 < j + 1 then (j + 1, (ends (0, 0) pushed).2)
      else ends (0, 0) pushed := by
    simp [advance, hno, hvalid, hindex]
  refine ⟨good_concat.mpr ⟨hgood, fun hs => ?_, fun _ hlt => ?_⟩, j + 1, hcopied.tail, ?_, ?_⟩
  · rw [hno] at hs
    cases hs
  · omega
  · rw [ends_concat, hadv]
    split_ifs
    · exact .inl rfl
    · right
      omega
  · rw [ends_concat, hadv, hlast]
    push_cast [List.length_cons]
    split_ifs <;> omega

/-- A snapshot that is not behind what came last. -/
lemma OnStream.install (msg : ApplyMsg) (h : OnStream pushed copied lastApplied)
    (hvalid : msg.SnapshotValid = true) (hno : msg.CommandValid = false)
    (hle : (ends (0, 0) pushed).1 ≤ msg.SnapshotIndex) :
    OnStream (pushed ++ [msg]) copied (max lastApplied msg.SnapshotIndex) := by
  obtain ⟨hgood, j, hcopied, hj, hlast⟩ := h
  have hadv : advance (ends (0, 0) pushed) msg = (msg.SnapshotIndex, msg.SnapshotIndex) := by
    simp [advance, hvalid]
  refine ⟨good_concat.mpr ⟨hgood, fun _ => ⟨hno, hle⟩, fun hc => ?_⟩, j, hcopied, ?_, ?_⟩
  · rw [hno] at hc
    cases hc
  · rw [ends_concat, hadv]
    right
    exact ⟨by omega, rfl⟩
  · rw [ends_concat, hadv, hlast, max_assoc, max_eq_right hle]

end OnStream

/-! ### Settled prefixes -/

namespace System

/-- The data of a committed prefix of the length. -/
def HasPrefix (A : Archives) (s : System) (index : ℤ) (data : KvState) : Prop :=
  ∃ commands : List Bytes, index = commands.length ∧
    (∀ (k : ℕ) command, commands[k]? = some command → s.Committed (k + 1) command) ∧
    data = meaning A commands

/-- A snapshot of the data of a committed prefix of the length. -/
def IsSnapshot (A : Archives) (s : System) (index : ℤ) (data : Bytes) : Prop :=
  ∃ source : KvServer, data = source.makeSnapShot A ∧ s.HasPrefix A index source.view

/-- Each node has pushed what it had pushed before, and perhaps more. -/
def Grows (s t : System) : Prop :=
  ∀ i, (s.cluster.nodes i).applyChan ⊆ (t.cluster.nodes i).applyChan

variable {s t : System} {index : ℤ} {data : Bytes} {σ : KvState}

/-- A server has the data of a prefix as the log grows. -/
lemma HasPrefix.mono (h : s.HasPrefix A index σ) (g : s.Grows t) : t.HasPrefix A index σ := by
  obtain ⟨commands, hlen, hall, hdata⟩ := h
  refine ⟨commands, hlen, fun k command hk => ?_, hdata⟩
  obtain ⟨i, msg, hmsg, hrest⟩ := hall k command hk
  exact ⟨i, msg, g i hmsg, hrest⟩

/-- A snapshot stays one as the log grows. -/
lemma IsSnapshot.mono (h : s.IsSnapshot A index data) (g : s.Grows t) : t.IsSnapshot A index data := by
  obtain ⟨source, hdata, hp⟩ := h
  exact ⟨source, hdata, hp.mono g⟩

/-- The next command makes the prefix longer by one. -/
lemma HasPrefix.concat {command : Bytes} {op : Op} (h : s.HasPrefix A index σ)
    (hc : s.Committed (index + 1) command) (hop : A.op.load command = some op) :
    s.HasPrefix A (index + 1) (σ.exec op) := by
  obtain ⟨commands, rfl, hall, rfl⟩ := h
  refine ⟨commands ++ [command], by simp, fun k c hk => ?_, by simp [meaning, hop]⟩
  rcases Nat.lt_trichotomy k commands.length with hlt | rfl | hgt
  · rw [List.getElem?_append_left hlt] at hk
    exact hall k c hk
  · obtain rfl : command = c := by simpa using hk
    exact hc
  · rw [List.getElem?_eq_none (by simp; omega)] at hk
    cases hk

/-- What a server has popped, from where it is. -/
structure Consumed (pushed : List ApplyMsg) (popped : ℕ) (position : ℤ) (server : KvServer) :
    Prop where
  le : popped ≤ pushed.length
  ends : (position, server.lastSnapShotRaftLogIndex) = ends (0, 0) (pushed.take popped)

variable {pushed new : List ApplyMsg} {popped : ℕ} {position : ℤ} {server : KvServer}

/-- What is consumed stays so when more is pushed. -/
lemma Consumed.append (h : Consumed pushed popped position server) :
    Consumed (pushed ++ new) popped position server := by
  refine ⟨h.le.trans (by simp), ?_⟩
  rw [List.take_append_of_le_length h.le]
  exact h.ends

/-- The server is not in front of its node. -/
lemma Consumed.le_ends (h : Consumed pushed popped position server) (hgood : Good (0, 0) pushed) :
    position ≤ (KVCacheRaft.ends (0, 0) pushed).1 := by
  rw [← List.take_append_drop popped pushed] at hgood
  have hle := (good_append.mp hgood).2.le
  rw [← ends_append, List.take_append_drop, ← h.ends] at hle
  exact hle

/-! ### The invariant -/

/-- The messages of a node: commands, and snapshots of a committed prefix. -/
def Pushed (A : Archives) (s : System) (pushed : List ApplyMsg) : Prop :=
  ∀ msg ∈ pushed, msg.SnapshotValid = !msg.CommandValid ∧
    (msg.SnapshotValid = true → s.IsSnapshot A msg.SnapshotIndex msg.Snapshot)

/-- The snapshot file of a node. -/
def Filed (A : Archives) (s : System) (index : ℤ) (file : Bytes) : Prop :=
  0 ≤ index ∧ (0 < index → s.IsSnapshot A index file)

/-- What holds along orderly runs. -/
structure Flow (A : Archives) (s : System) : Prop where
  atPrefix : ∀ i, s.HasPrefix A (s.position i) (s.servers i).view
  file : ∀ i, s.Filed A (s.cluster.nodes i).lastSnapshotIndex (s.cluster.nodes i).snapshotFile
  request : ∀ c ∈ s.cluster.calls, ∀ args, c.request = .installSnapshot args →
    s.Filed A args.lastsnapshotincludeindex args.data
  pushed : ∀ i, s.Pushed A (s.cluster.nodes i).applyChan
  call : ∀ i index data, s.snapshotCall i = some (index, data) →
    index = s.position i ∧ s.IsSnapshot A index data
  stream : ∀ i, OnStream (s.cluster.nodes i).applyChan (s.cluster.copied i)
    (s.cluster.nodes i).lastApplied
  consumed : ∀ i, Consumed (s.cluster.nodes i).applyChan (s.popped i) (s.position i) (s.servers i)

/-- What is pushed stays as it is when the log grows. -/
lemma Pushed.mono (h : s.Pushed A pushed) (g : s.Grows t) : t.Pushed A pushed :=
  fun msg hmsg => ⟨(h msg hmsg).1, fun hs => ((h msg hmsg).2 hs).mono g⟩

/-- What is filed stays as it is when the log grows. -/
lemma Filed.mono (h : s.Filed A index data) (g : s.Grows t) : t.Filed A index data :=
  ⟨h.1, fun hpos => (h.2 hpos).mono g⟩

/-- Nothing flows at the start. -/
lemma Flow.initial (A : Archives) (size : ℕ) (maxraftstate : ℕ → ℤ) :
    Flow A (initial size maxraftstate) where
  atPrefix i := ⟨[], rfl, fun k command hk => by simp at hk, rfl⟩
  file i := ⟨le_rfl, fun h => absurd h (lt_irrefl _)⟩
  request c hc := by cases hc
  pushed i msg hmsg := by cases hmsg
  call i index data h := by cases h
  stream i := OnStream.nil
  consumed i := ⟨le_rfl, rfl⟩

/-! ### Steps of the cluster -/

variable {c : Cluster}

/-- A step of the cluster that pushes `new` at node `i` and nothing elsewhere. -/
lemma Flow.node (i : ℕ) (new : List ApplyMsg) (h : Flow A s) (hsame : ∀ j, j ≠ i → s.cluster.SameStream c j)
    (hcalls : s.cluster.SnapshotCalls c)
    (happly : (c.nodes i).applyChan = (s.cluster.nodes i).applyChan ++ new)
    (hfile : s.Filed A (c.nodes i).lastSnapshotIndex (c.nodes i).snapshotFile)
    (hnew : s.Pushed A new)
    (hstream : OnStream (c.nodes i).applyChan (c.copied i) (c.nodes i).lastApplied) :
    Flow A { s with cluster := c } := by
  have hchan : ∀ j, ∃ new, (c.nodes j).applyChan = (s.cluster.nodes j).applyChan ++ new := by
    intro j
    by_cases hj : j = i
    · exact hj ▸ ⟨new, happly⟩
    · exact ⟨[], by rw [(hsame j hj).1.applyChan, List.append_nil]⟩
  have hgrow : s.Grows { s with cluster := c } := by
    intro j
    obtain ⟨new, hnew⟩ := hchan j
    exact hnew ▸ List.subset_append_left _ _
  constructor
  case atPrefix => exact fun j => (h.atPrefix j).mono hgrow
  case file =>
    intro j
    by_cases hj : j = i
    · exact hj ▸ hfile.mono hgrow
    · have hf := (hsame j hj).1
      show Filed A _ (c.nodes j).lastSnapshotIndex (c.nodes j).snapshotFile
      rw [hf.lastSnapshotIndex, hf.snapshotFile]
      exact (h.file j).mono hgrow
  case request =>
    intro d hd args hreq
    rcases hcalls d hd args hreq with ⟨d, hd, hreq⟩ | ⟨j, rfl⟩
    · exact (h.request d hd args hreq).mono hgrow
    · exact (h.file j).mono hgrow
  case pushed =>
    intro j
    by_cases hj : j = i
    · subst hj
      show Pushed A _ (c.nodes j).applyChan
      rw [happly]
      exact List.forall_mem_append.mpr ⟨(h.pushed j).mono hgrow, hnew.mono hgrow⟩
    · show Pushed A _ (c.nodes j).applyChan
      rw [(hsame j hj).1.applyChan]
      exact (h.pushed j).mono hgrow
  case call =>
    intro j index data hj
    exact ⟨(h.call j index data hj).1, (h.call j index data hj).2.mono hgrow⟩
  case stream =>
    intro j
    by_cases hj : j = i
    · exact hj ▸ hstream
    · have hf := (hsame j hj).1
      show OnStream (c.nodes j).applyChan (c.copied j) (c.nodes j).lastApplied
      rw [hf.applyChan, hf.lastApplied, (hsame j hj).2]
      exact h.stream j
  case consumed =>
    intro j
    obtain ⟨new, hnew⟩ := hchan j
    show Consumed (c.nodes j).applyChan _ _ _
    exact hnew ▸ (h.consumed j).append

/-- A step of the nodes keeps the flow. -/
lemma Flow.raft {x : Action} (h : Flow A s) (hx : x.OfRaft) (hs : s.cluster.step x = some c)
    (horder : s.cluster.InOrder x) : Flow A { s with cluster := c } := by
  obtain ⟨hstep, hcalls⟩ := Cluster.step_stream hx hs
  cases hstep with
  | none hsame =>
    have hf := (hsame 0).1
    refine h.node 0 [] (fun j _ => hsame j) hcalls ?_ ?_ (fun msg hmsg => by cases hmsg) ?_
    · rw [hf.applyChan, List.append_nil]
    · rw [hf.lastSnapshotIndex, hf.snapshotFile]
      exact h.file 0
    · rw [hf.applyChan, hf.lastApplied, (hsame 0).2]
      exact h.stream 0
  | applierTicker i msgs hsame hempty hcopy hlt hnode hcopied =>
    obtain ⟨hmsgs, hlen⟩ := Raft.copyLogs_consecutive hcopy
    have hstream := h.stream i
    rw [hempty] at hstream
    refine h.node i [] hsame hcalls ?_ ?_ (fun msg hmsg => by cases hmsg) ?_
    · rw [hnode, List.append_nil]
    · rw [hnode]
      exact h.file i
    · have := hstream.copy (by simpa using hmsgs)
      rw [hnode, hcopied]
      convert this using 1
      simp only
      omega
  | push i msg rest hsame hmsg hnode hcopied =>
    have hstream := h.stream i
    rw [hmsg] at hstream
    obtain ⟨hvalid, hno⟩ := hstream.head
    refine h.node i [msg] hsame hcalls ?_ ?_ ?_ ?_
    · rw [hnode]
      rfl
    · rw [hnode]
      exact h.file i
    · intro m hm
      obtain rfl := List.mem_singleton.mp hm
      rw [hno, hvalid]
      exact ⟨rfl, fun hs => by cases hs⟩
    · rw [hnode, hcopied]
      exact hstream.push
  | install i args hsame hterm hidx hcall hnode hcopied =>
    obtain ⟨id, d, rfl, hd, rfl, hreq⟩ := hcall
    obtain ⟨hpos, hdata⟩ := h.request d (List.mem_of_getElem? hd) args hreq
    have hsnap := hdata ((h.file d.callee).1.trans_lt hidx)
    have hfollow := (s.cluster.nodes d.callee).catchUp_frame args.term
    -- nothing pushed before is in front of the snapshot
    have hle : (KVCacheRaft.ends (0, 0) (s.cluster.nodes d.callee).applyChan).1 ≤
        args.lastsnapshotincludeindex := by
      have hd := horder d hd
      rw [Cluster.CallInOrder, hreq] at hd
      exact ends_le hpos (hd hterm hidx)
    refine h.node d.callee [Raft.snapshotMsg args] hsame hcalls ?_ ?_ ?_ ?_
    · rw [hnode]
      exact congrArg (· ++ _) hfollow.applyChan
    · rw [hnode]
      exact ⟨hpos, fun _ => hsnap⟩
    · intro m hm
      obtain rfl := List.mem_singleton.mp hm
      exact ⟨rfl, fun _ => hsnap⟩
    · have := (h.stream d.callee).install (Raft.snapshotMsg args) rfl rfl hle
      rw [hnode, hcopied]
      rw [← hfollow.applyChan, ← hfollow.lastApplied] at this
      exact this

/-- A call of `raft::Snapshot` stores the data of the server where it stands. -/
lemma Flow.snapshot {i : ℕ} (h : Flow A s) (hs : s.snapshot i = some t) : Flow A t := by
  obtain ⟨⟨index, data⟩, hcall, hs⟩ := Option.bind_eq_some_iff.mp hs
  obtain ⟨c, hc, rfl⟩ := Option.map_eq_some_iff.mp hs
  obtain ⟨hidx, hdata⟩ := h.call i index data hcall
  simp only [Cluster.step] at hc
  split_ifs at hc
  obtain ⟨r, hr, rfl⟩ := Cluster.snapshot_cases hc
  have hflow : Flow A { s with cluster := s.cluster.setNode i r } := by
    have hsame : ∀ j, j ≠ i → s.cluster.SameStream (s.cluster.setNode i r) j := fun j hj =>
      Cluster.sameStream_of_ne hj rfl (Function.update_eq_self _ _).symm
    refine h.node i [] hsame (.of_eq rfl) ?_ ?_ (fun msg hmsg => by cases hmsg) ?_ <;>
      rw [Cluster.setNode_self] <;> rcases Raft.snapshot_cases hr with rfl | ⟨hlt, -, e, -, rfl⟩
    · exact (List.append_nil _).symm
    · exact (List.append_nil _).symm
    · exact h.file i
    · exact ⟨(h.file i).1.trans hlt.le, fun _ => hdata⟩
    · exact h.stream i
    · -- the server is not in front of what the node has handed out
      have hle : index ≤ (s.cluster.nodes i).lastApplied :=
        (hidx ▸ (h.consumed i).le_ends (h.stream i).1).trans (h.stream i).le_lastApplied
      have hmax : max (s.cluster.nodes i).lastApplied index = (s.cluster.nodes i).lastApplied :=
        max_eq_left hle
      show OnStream (s.cluster.nodes i).applyChan (s.cluster.copied i) (max _ index)
      rw [hmax]
      exact h.stream i
  refine { hflow with call := fun j k d hj => ?_ }
  by_cases hji : j = i
  · subst hji
    simp at hj
  · exact hflow.call j k d (by simpa [hji] using hj)

/-! ### Messages -/

/-- What a server finds behind the messages it has popped. -/
lemma Consumed.next {msg : ApplyMsg} (h : Consumed pushed popped position server)
    (hgood : Good (0, 0) pushed) (hmsg : pushed[popped]? = some msg) :
    Fits (position, server.lastSnapShotRaftLogIndex) msg ∧
      KVCacheRaft.ends (0, 0) (pushed.take (popped + 1)) =
        advance (position, server.lastSnapShotRaftLogIndex) msg := by
  have htake : pushed.take (popped + 1) = pushed.take popped ++ [msg] := by
    rw [List.take_add_one, hmsg]
    rfl
  rw [htake, ends_concat, h.ends]
  refine ⟨?_, rfl⟩
  rw [← List.take_append_drop (popped + 1) pushed, htake] at hgood
  exact (good_concat.mp (good_append.mp hgood).1).2

/-- What a message does to a server that pops it: the server has the data of the prefix behind it, and
a call of `raft::Snapshot` that follows stores these data. -/
lemma Flow.message {i : ℕ} {message : ApplyMsg} {rand : ℕ → ℕ} {raftStateSize : ℤ}
    {call : Option (ℤ × Bytes)} (h : Flow A s) (hmsg : s.nextMsg i = some message)
    (hload : Orderly A s (.pop i rand raftStateSize))
    (hs : (s.servers i).readRaftApplyCommand A rand raftStateSize message = some (server, call)) :
    s.HasPrefix A (s.positionAfter i message) server.view ∧
      (s.positionAfter i message, server.lastSnapShotRaftLogIndex) =
        advance (s.position i, (s.servers i).lastSnapShotRaftLogIndex) message ∧
      ∀ x ∈ call, x.1 = s.positionAfter i message ∧ s.IsSnapshot A x.1 x.2 := by
  have hmem := List.mem_of_getElem? hmsg
  obtain ⟨hkind, hsnap⟩ := h.pushed i message hmem
  obtain ⟨hfits, -⟩ := (h.consumed i).next (h.stream i).1 hmsg
  cases hvalid : message.SnapshotValid with
  | true =>
    have hno : message.CommandValid = false := by simpa [hvalid] using hkind
    obtain ⟨source, hdata, hp⟩ := hsnap hvalid
    obtain ⟨rfl, hidx, hview⟩ := KvServer.readRaftApplyCommand_snapshot hno hvalid hdata
      (hload message hmsg hvalid) hs
    have hpos : s.positionAfter i message = message.SnapshotIndex := if_pos hvalid
    rw [hpos, hidx, hview]
    exact ⟨hp, (if_pos hvalid).symm, fun x hx => by cases hx⟩
  | false =>
    have hc : message.CommandValid = true := by simpa [hvalid] using hkind
    have hnot : ¬ message.SnapshotValid = true := by simp [hvalid]
    rcases KvServer.readRaftApplyCommand_command hc hvalid hs with
      ⟨hskip, rfl, rfl⟩ | ⟨hexec, hidx, op, hop, hview, hcall⟩
    · have hpos : s.positionAfter i message = s.position i := by
        rw [positionAfter, if_neg hnot, if_neg hskip]
      rw [hpos]
      refine ⟨h.atPrefix i, ?_, fun x hx => by cases hx⟩
      rw [advance, if_neg hnot]
      exact (if_neg hskip).symm
    · have hpos : s.positionAfter i message = message.CommandIndex := by
        rw [positionAfter, if_neg hnot, if_pos hexec]
      have hnext : message.CommandIndex = s.position i + 1 := hfits.command hc hexec.2
      have hp : s.HasPrefix A message.CommandIndex server.view := by
        rw [hnext, hview]
        exact (h.atPrefix i).concat ⟨i, message, hmem, hc, hnext, rfl⟩ hop
      rw [hpos]
      refine ⟨hp, ?_, fun x hx => ?_⟩
      · rw [advance, if_neg hnot, hidx]
        exact (if_pos hexec).symm
      · obtain ⟨hx1, source, hx2, hsource⟩ := hcall x hx
        exact ⟨hx1, source, hx2, hx1 ▸ hsource ▸ hp⟩

/-- A pop hands the next message to the server. -/
lemma pop_cases {i : ℕ} {rand : ℕ → ℕ} {raftStateSize : ℤ}
    (hs : s.pop A i rand raftStateSize = some t) :
    s.snapshotCall i = none ∧ ∃ message server call, s.nextMsg i = some message ∧
      (s.servers i).readRaftApplyCommand A rand raftStateSize message = some (server, call) ∧
      t = { s with
        servers := Function.update s.servers i server
        popped := Function.update s.popped i (s.popped i + 1)
        snapshotCall := Function.update s.snapshotCall i call
        position := Function.update s.position i (s.positionAfter i message) } := by
  unfold pop at hs
  split_ifs at hs with hcall
  obtain ⟨message, hmsg, hs⟩ := Option.bind_eq_some_iff.mp hs
  obtain ⟨⟨server, call⟩, hread, rfl⟩ := Option.map_eq_some_iff.mp hs
  exact ⟨not_not.mp hcall, message, server, call, hmsg, hread, rfl⟩

/-- A message popped takes the server to the next prefix. -/
lemma Flow.pop {i : ℕ} {rand : ℕ → ℕ} {raftStateSize : ℤ} (h : Flow A s)
    (hload : Orderly A s (.pop i rand raftStateSize))
    (hs : s.pop A i rand raftStateSize = some t) : Flow A t ∧ Advances A s i t := by
  obtain ⟨-, message, server, call, hmsg, hread, rfl⟩ := pop_cases hs
  obtain ⟨hp, hadv, hcall⟩ := h.message hmsg hload hread
  obtain ⟨hfits, hends⟩ := (h.consumed i).next (h.stream i).1 hmsg
  have hflow : Flow A { s with
      servers := Function.update s.servers i server
      popped := Function.update s.popped i (s.popped i + 1)
      snapshotCall := Function.update s.snapshotCall i call
      position := Function.update s.position i (s.positionAfter i message) } := by
    refine { h with atPrefix := fun j => ?_, call := fun j k d hj => ?_, consumed := fun j => ?_ }
    · show s.HasPrefix A (Function.update s.position i _ j) (Function.update s.servers i server j).view
      by_cases hji : j = i
      · subst hji
        simpa using hp
      · simpa [hji] using h.atPrefix j
    · show k = Function.update s.position i _ j ∧ s.IsSnapshot A k d
      by_cases hji : j = i
      · subst hji
        simpa using hcall (k, d) (by simpa using hj)
      · simpa [hji] using h.call j k d (by simpa [hji] using hj)
    · by_cases hji : j = i
      · subst hji
        have hlt := (List.getElem?_eq_some_iff.mp hmsg).1
        simpa using (⟨hlt, hadv.trans hends.symm⟩ : Consumed _ _ _ _)
      · simpa [hji] using h.consumed j
  refine ⟨hflow, ?_, fun m hm hexec => ?_, hflow.atPrefix i⟩
  · have hle := hfits.le
    rw [← hadv] at hle
    simpa using hle
  · obtain rfl := Option.some.inj (hmsg.symm.trans hm)
    exact hfits.command hexec.1 hexec.2

/-! ### Runs -/

/-- The cluster of an orderly run has a safe run. -/
lemma Run.cluster (hr : Run A (Orderly A) s t) : Cluster.Run Cluster.Safe s.cluster t.cluster := by
  induction hr with
  | refl => exact .refl
  | @step t u x _ hx hs ih =>
    cases x with
    | raft a =>
      simp only [System.step] at hs
      split_ifs at hs
      obtain ⟨c, hc, rfl⟩ := Option.map_eq_some_iff.mp hs
      exact ih.step hx.1 hc
    | pop i rand raftStateSize =>
      obtain ⟨-, message, server, call, -, -, rfl⟩ := pop_cases hs
      exact ih
    | snapshot i =>
      obtain ⟨⟨index, data⟩, -, hs⟩ := Option.bind_eq_some_iff.mp hs
      obtain ⟨c, hc, rfl⟩ := Option.map_eq_some_iff.mp hs
      have hsafe : t.cluster.Safe (.snapshot i index data) := ⟨trivial, trivial⟩
      exact ih.step hsafe hc

/-- In every orderly run the flow is kept. -/
lemma Flow.run (h : Flow A s) (hr : Run A (Orderly A) s t) : Flow A t := by
  induction hr with
  | refl => exact h
  | @step t u x _ hx hs ih =>
    cases x with
    | raft a =>
      simp only [step] at hs
      split_ifs at hs with ha
      obtain ⟨c, hc, rfl⟩ := Option.map_eq_some_iff.mp hs
      exact ih.raft ha hc hx.2
    | pop i rand raftStateSize => exact (ih.pop hx hs).1
    | snapshot i => exact ih.snapshot hs

variable {size : ℕ} {maxraftstate : ℕ → ℤ}

/-- In every state of an orderly run each server has the data of the committed prefix that ends at its
position, at most one command is committed under an index, and the next message keeps it so and leads
on. -/
theorem follows_committed (hr : Run A (Orderly A) (initial size maxraftstate) s) :
    (∀ i, AtPrefix A s i) ∧
      (∀ index command command', s.Committed index command → s.Committed index command' →
        command = command') ∧
      ∀ i rand raftStateSize t, Orderly A s (.pop i rand raftStateSize) →
        s.step A (.pop i rand raftStateSize) = some t → Advances A s i t := by
  have hflow := (Flow.initial A size maxraftstate).run hr
  refine ⟨hflow.atPrefix, ?_, fun i rand raftStateSize t hx hs => (hflow.pop hx hs).2⟩
  rintro index _ _ ⟨i, m, hm, hv, hidx, rfl⟩ ⟨j, m', hm', hv', hidx', rfl⟩
  exact Cluster.applies_agree hr.cluster i j m hm m' hm' hv hv' (hidx.trans hidx'.symm)

/-- `Put` of value `[1]` under key `[1]`. -/
def putOne (requestId : ℤ) : Op :=
  { Operation := opPut, Key := [1], Value := [1], ClientId := [7], RequestId := requestId }

/-- A run of three nodes up to the snapshot of the leader's server: node `1` confirms the first
command, server `0` executes it and the leader stores a snapshot; the request that takes the command to
node `2` has not arrived. -/
def snapshotted : List SystemAction :=
  [.raft (.doElection 0), .raft (.deliver 0), .raft (.complete 0),
    .raft (.start 0 (textArchives.op.save (putOne 1))), .raft (.onLogStable 0 true),
    .raft (.doHeartBeat 0), .raft (.deliver 2), .raft (.resume 0 true), .raft (.complete 1),
    .raft (.applierTicker 0), .raft (.push 0), .pop 0 (fun _ => 0) 100, .snapshot 0]

set_option maxRecDepth 20000 in
/-- Server `2` installs the snapshot of server `0`. -/
theorem follows_committed_snapshotted :
    ∃ s t, AtPrefix textArchives s 0 ∧ s.position 0 = 1 ∧
      s.step textArchives (.pop 2 (fun _ => 0) 0) = some t ∧ Advances textArchives s 2 t ∧
      s.position 2 = 0 ∧ t.position 2 = 1 := by
  have h : ∃ s ∈ (initial 3 fun _ => 10).runIf textArchives (Orderly textArchives)
        (snapshotted ++ [.raft (.doHeartBeat 0), .raft (.leaderSendSnapShot 0), .raft (.deliver 5)]),
      Orderly textArchives s (.pop 2 (fun _ => 0) 0) ∧
      ∃ t ∈ s.step textArchives (.pop 2 (fun _ => 0) 0),
        s.position 0 = 1 ∧ s.position 2 = 0 ∧ t.position 2 = 1 := by
    decide
  obtain ⟨s, hs, hx, t, ht, h0, h2, h2'⟩ := h
  obtain ⟨hat, -, hadv⟩ := follows_committed (run_of_runIf hs)
  exact ⟨s, t, hat 0, h0, ht, hadv 2 _ _ t hx ht, h2, h2'⟩

/-! ### Runs with a late snapshot -/

/-- Orderly steps, and snapshots that are accepted behind messages pushed before. -/
def Disorderly (A : Archives) (s : System) : SystemAction → Prop
  | .raft a => s.cluster.Safe a
  | .pop i rand raftStateSize => Orderly A s (.pop i rand raftStateSize)
  | .snapshot i => Orderly A s (.snapshot i)

instance (A : Archives) (s : System) : (a : SystemAction) → Decidable (Disorderly A s a)
  | .raft a => inferInstanceAs (Decidable (s.cluster.Safe a))
  | .pop i rand raftStateSize => inferInstanceAs (Decidable (Orderly A s (.pop i rand raftStateSize)))
  | .snapshot i => inferInstanceAs (Decidable (Orderly A s (.snapshot i)))

/-- The leader sends its snapshot to node `2`, where it does not arrive; a second command is committed,
and both reach node `2`, whose server executes them. Then the snapshot arrives. -/
def lateSnapshot : List SystemAction :=
  [.raft (.start 0 (textArchives.op.save (putOne 2))), .raft (.onLogStable 0 true),
    .raft (.doHeartBeat 0), .raft (.leaderSendSnapShot 0),
    .raft (.deliver 4), .raft (.resume 0 true), .raft (.complete 2),
    .raft (.deliver 3), .raft (.resume 0 true), .raft (.complete 3),
    .raft (.doHeartBeat 0), .raft (.deliver 7), .raft (.resume 0 true),
    .raft (.applierTicker 2), .raft (.push 2), .raft (.push 2),
    .pop 2 (fun _ => 0) 0, .pop 2 (fun _ => 0) 0, .raft (.deliver 5)]

set_option maxRecDepth 20000 in
/-- The server pops the snapshot and goes back from the second command to the first. -/
theorem exists_goes_back :
    ∃ s t, Run textArchives (Disorderly textArchives) (initial 3 fun _ => 10) s ∧
      Disorderly textArchives s (.pop 2 (fun _ => 0) 0) ∧
      s.step textArchives (.pop 2 (fun _ => 0) 0) = some t ∧
      s.position 2 = 2 ∧ t.position 2 = 1 ∧ ¬ Advances textArchives s 2 t := by
  have h : ∃ s ∈ (initial 3 fun _ => 10).runIf textArchives (Disorderly textArchives)
        (snapshotted ++ lateSnapshot),
      Disorderly textArchives s (.pop 2 (fun _ => 0) 0) ∧
      ∃ t ∈ s.step textArchives (.pop 2 (fun _ => 0) 0), s.position 2 = 2 ∧ t.position 2 = 1 := by
    decide
  obtain ⟨s, hs, hx, t, ht, h2, h1⟩ := h
  refine ⟨s, t, run_of_runIf hs, hx, ht, h2, h1, fun hadv => ?_⟩
  have hle := hadv.position_le
  rw [h1, h2] at hle
  exact absurd hle (by decide)

end System

end KVCacheRaft
