import KVCacheRaft.Server.Replication

/-!
# Streams within a bound

What holds of the streams of a cluster when its servers call `raft::Snapshot` with whatever data, but
with no index behind the one they have reached: no snapshot is in front of the commands pushed, so that
no node pushes a command that is not the next one.
-/

namespace KVCacheRaft

namespace Cluster

variable {s s' : Cluster} {bound : ℤ}

/-- An index of a snapshot. -/
def UpTo (bound index : ℤ) : Prop := 0 ≤ index ∧ index ≤ bound

/-- The streams of the nodes are good, and no snapshot is in front of the bound. -/
structure Streams (bound : ℤ) (s : Cluster) : Prop where
  stream : ∀ i, OnStream (s.nodes i).applyChan (s.copied i) (s.nodes i).lastApplied
  kind : ∀ i, ∀ msg ∈ (s.nodes i).applyChan, msg.SnapshotValid = !msg.CommandValid
  pushed : ∀ i, ∀ msg ∈ (s.nodes i).applyChan, msg.SnapshotValid = true → UpTo bound msg.SnapshotIndex
  file : ∀ i, UpTo bound (s.nodes i).lastSnapshotIndex
  request : ∀ c ∈ s.calls, ∀ args, c.request = .installSnapshot args →
    UpTo bound args.lastsnapshotincludeindex

/-- A bound may be raised. -/
lemma UpTo.mono {bound' index : ℤ} (h : UpTo bound index) (hle : bound ≤ bound') :
    UpTo bound' index := ⟨h.1, h.2.trans hle⟩

/-- The bound of all streams may be raised. -/
lemma Streams.mono {bound' : ℤ} (h : s.Streams bound) (hle : bound ≤ bound') : s.Streams bound' :=
  { h with
    pushed := fun i msg hmsg hvalid => (h.pushed i msg hmsg hvalid).mono hle
    file := fun i => (h.file i).mono hle
    request := fun c hc args hreq => (h.request c hc args hreq).mono hle }

/-- A fresh cluster has empty streams. -/
lemma Streams.initial (n : ℕ) : (initial n).Streams 0 where
  stream _ := OnStream.nil
  kind _ _ hmsg := by cases hmsg
  pushed _ _ hmsg := by cases hmsg
  file _ := ⟨Int.le_refl _, Int.le_refl _⟩
  request _ hc := by cases hc

/-- A step that pushes `new` at node `i` and nothing elsewhere. -/
lemma Streams.node (h : s.Streams bound) (i : ℕ) (new : List ApplyMsg)
    (hsame : ∀ j, j ≠ i → s.SameStream s' j) (hcalls : s.SnapshotCalls s')
    (happly : (s'.nodes i).applyChan = (s.nodes i).applyChan ++ new)
    (hfile : UpTo bound (s'.nodes i).lastSnapshotIndex)
    (hkind : ∀ msg ∈ new, msg.SnapshotValid = !msg.CommandValid)
    (hpushed : ∀ msg ∈ new, msg.SnapshotValid = true → UpTo bound msg.SnapshotIndex)
    (hstream : OnStream (s'.nodes i).applyChan (s'.copied i) (s'.nodes i).lastApplied) :
    s'.Streams bound where
  stream j := by
    by_cases hj : j = i
    · exact hj ▸ hstream
    · have hf := (hsame j hj).1
      rw [hf.applyChan, hf.lastApplied, (hsame j hj).2]
      exact h.stream j
  kind j := by
    by_cases hj : j = i
    · rw [hj, happly]
      exact List.forall_mem_append.mpr ⟨h.kind i, hkind⟩
    · exact (hsame j hj).1.applyChan ▸ h.kind j
  pushed j := by
    by_cases hj : j = i
    · rw [hj, happly]
      exact List.forall_mem_append.mpr ⟨h.pushed i, hpushed⟩
    · exact (hsame j hj).1.applyChan ▸ h.pushed j
  file j := by
    by_cases hj : j = i
    · exact hj ▸ hfile
    · exact (hsame j hj).1.lastSnapshotIndex ▸ h.file j
  request d hd args hreq := by
    rcases hcalls d hd args hreq with ⟨d, hd, hreq⟩ | ⟨j, rfl⟩
    · exact h.request d hd args hreq
    · exact h.file j

/-- A step at which nothing is pushed but a snapshot. -/
lemma Streams.step {x : Action} (h : s.Streams bound) (hx : x.OfRaft) (horder : s.InOrder x)
    (hs : s.step x = some s') : s'.Streams bound := by
  obtain ⟨hstep, hcalls⟩ := step_stream hx hs
  cases hstep with
  | none hsame =>
    have hf := (hsame 0).1
    refine h.node 0 [] (fun j _ => hsame j) hcalls ?_ ?_ (List.forall_mem_nil _)
      (List.forall_mem_nil _) ?_
    · rw [hf.applyChan, List.append_nil]
    · exact hf.lastSnapshotIndex ▸ h.file 0
    · rw [hf.applyChan, hf.lastApplied, (hsame 0).2]
      exact h.stream 0
  | applierTicker i msgs hsame hempty hcopy hlt hnode hcopied =>
    obtain ⟨hmsgs, hlen⟩ := Raft.copyLogs_consecutive hcopy
    have hstream := h.stream i
    rw [hempty] at hstream
    refine h.node i [] hsame hcalls ?_ ?_ (List.forall_mem_nil _) (List.forall_mem_nil _) ?_
    · rw [hnode, List.append_nil]
    · exact hnode ▸ h.file i
    · have hnext := hstream.copy (Int.add_sub_cancel (s.nodes i).lastApplied 1 ▸ hmsgs)
      have hlast : (s.nodes i).lastApplied + msgs.length = (s.nodes i).commitIndex := by omega
      rw [hnode, hcopied]
      exact hlast ▸ hnext
  | push i msg rest hsame hmsg hnode hcopied =>
    have hstream := h.stream i
    rw [hmsg] at hstream
    obtain ⟨hvalid, hno⟩ := hstream.head
    refine h.node i [msg] hsame hcalls ?_ ?_ ?_ ?_ ?_
    · rw [hnode]
      rfl
    · exact hnode ▸ h.file i
    · rw [List.forall_mem_singleton, hno, hvalid]
      rfl
    · rw [List.forall_mem_singleton, hno]
      exact fun hs => by cases hs
    · rw [hnode, hcopied]
      exact hstream.push
  | install i args hsame hterm hidx hcall hnode hcopied =>
    obtain ⟨id, d, rfl, hd, rfl, hreq⟩ := hcall
    have hwithin := h.request d (List.mem_of_getElem? hd) args hreq
    have hfollow := (s.nodes d.callee).catchUp_frame args.term
    -- nothing pushed before is in front of the snapshot
    have hle : (ends (0, 0) (s.nodes d.callee).applyChan).1 ≤ args.lastsnapshotincludeindex := by
      have hd := horder d hd
      rw [CallInOrder, hreq] at hd
      exact ends_le hwithin.1 (hd hterm hidx)
    refine h.node d.callee [Raft.snapshotMsg args] hsame hcalls ?_ ?_ ?_ ?_ ?_
    · rw [hnode]
      exact congrArg (· ++ _) hfollow.applyChan
    · rw [hnode]
      exact hwithin
    · exact List.forall_mem_singleton.mpr rfl
    · exact List.forall_mem_singleton.mpr fun _ => hwithin
    · have hnext := (h.stream d.callee).install (Raft.snapshotMsg args) rfl rfl hle
      rw [hnode, hcopied]
      rw [← hfollow.applyChan, ← hfollow.lastApplied] at hnext
      exact hnext

/-- A call of `raft::Snapshot` with an index that the node has handed out. -/
lemma Streams.snapshot (h : s.Streams bound) {i : ℕ} {index : ℤ} {data : Bytes}
    (hends : index ≤ (ends (0, 0) (s.nodes i).applyChan).1) (hbound : index ≤ bound)
    (hs : s.step (.snapshot i index data) = some s') : s'.Streams bound := by
  simp only [Cluster.step] at hs
  split_ifs at hs
  obtain ⟨r, hr, rfl⟩ := snapshot_cases hs
  have hsame : ∀ j, j ≠ i → s.SameStream (s.setNode i r) j := fun j hj =>
    sameStream_of_ne hj rfl (Function.update_eq_self _ _).symm
  refine h.node i [] hsame (.of_eq rfl) ?_ ?_ (List.forall_mem_nil _) (List.forall_mem_nil _) ?_
  · rw [setNode_self, Raft.snapshot_applyChan hr, List.append_nil]
  · rw [setNode_self]
    rcases Raft.snapshot_cases hr with rfl | ⟨hlt, -, e, -, rfl⟩
    · exact h.file i
    · exact ⟨(h.file i).1.trans hlt.le, hbound⟩
  · have hle := hends.trans (h.stream i).le_lastApplied
    rw [setNode_self, Raft.snapshot_applyChan hr]
    rcases Raft.snapshot_cases hr with rfl | ⟨-, -, e, -, rfl⟩
    · exact h.stream i
    · have hmax : max (s.nodes i).lastApplied index = (s.nodes i).lastApplied := max_eq_left hle
      show OnStream (s.nodes i).applyChan (s.copied i) (max _ index)
      rw [hmax]
      exact h.stream i

/-! ### Pushing -/

/-- A step that is no push leaves what is copied, or there was nothing. -/
lemma copied_of_step {x : Action} (hx : x.OfRaft) (hpush : ∀ i, x ≠ .push i)
    (hs : s.step x = some s') (i : ℕ) : s'.copied i = s.copied i ∨ s.copied i = [] := by
  cases x with
  | doElection j =>
    simp only [Cluster.step] at hs
    split_ifs at hs
    obtain ⟨-, r, requests, -, rfl⟩ := doElection_cases hs
    exact .inl rfl
  | persistElection j =>
    simp only [Cluster.step] at hs
    split_ifs at hs
    cases hs
    exact .inl rfl
  | deliver id =>
    obtain ⟨c, -, hd⟩ := deliver_cases hs
    cases hd with
    | requestVote => exact .inl rfl
    | installSnapshot => exact .inl rfl
    | replied => exact .inl rfl
    | unlocked => exact .inl rfl
  | resume k stable =>
    obtain ⟨w, r, rep, -, -, rfl⟩ := resume_cases hs
    exact .inl rfl
  | complete k =>
    obtain ⟨id, rep, c, -, -, -, hd⟩ := complete_cases hs
    cases hd with
    | requestVote => exact .inl rfl
    | appendEntries => exact .inl rfl
    | installSnapshot => exact .inl rfl
  | fail id =>
    obtain ⟨c, -, rfl⟩ := fail_cases hs
    exact .inl rfl
  | start j command =>
    simp only [Cluster.step] at hs
    split_ifs at hs
    obtain ⟨r, e, -, rfl⟩ := start_cases hs
    exact .inl rfl
  | onLogStable k ok =>
    obtain ⟨j, index, -, rfl⟩ := onLogStable_cases hs
    exact .inl rfl
  | doHeartBeat j =>
    simp only [Cluster.step] at hs
    split_ifs at hs
    obtain ⟨-, r, requests, snapshots, -, rfl⟩ := doHeartBeat_cases hs
    exact .inl rfl
  | leaderSendSnapShot k =>
    obtain ⟨j, peer, -, rfl⟩ := leaderSendSnapShot_cases hs
    exact .inl rfl
  | applierTicker j =>
    simp only [Cluster.step, Cluster.applierTicker] at hs
    split_ifs at hs with hj hcond
    split at hs
    · cases hs
    · obtain rfl := Option.some.inj hs
      by_cases hij : i = j
      · exact .inr (hij ▸ hcond.1)
      · exact .inl (Function.update_of_ne hij _ _)
  | push j => exact absurd rfl (hpush j)
  | snapshot j index data => exact hx.elim
  | restart j logs => exact hx.elim

/-- What a node has pushed stays. -/
lemma applyChan_of_step {x : Action} (hx : x.OfRaft) (hs : s.step x = some s') (i : ℕ) :
    ∃ new, (s'.nodes i).applyChan = (s.nodes i).applyChan ++ new := by
  have hgrows : ∀ {j} new, (∀ l, l ≠ j → s.SameStream s' l) →
      (s'.nodes j).applyChan = (s.nodes j).applyChan ++ new →
      ∃ new, (s'.nodes i).applyChan = (s.nodes i).applyChan ++ new := by
    intro j new hsame hj
    by_cases hij : i = j
    · exact ⟨new, hij ▸ hj⟩
    · exact ⟨[], by rw [(hsame i hij).1.applyChan, List.append_nil]⟩
  obtain ⟨hstep, -⟩ := step_stream hx hs
  cases hstep with
  | none hsame => exact ⟨[], by rw [(hsame i).1.applyChan, List.append_nil]⟩
  | applierTicker j msgs hsame _ _ _ hnode _ =>
    exact hgrows [] hsame (by rw [hnode, List.append_nil])
  | push j msg rest hsame _ hnode _ => exact hgrows [msg] hsame (by rw [hnode]; rfl)
  | install j args hsame _ _ _ hnode _ =>
    have hframe := (s.nodes j).catchUp_frame args.term
    refine hgrows [Raft.snapshotMsg args] hsame ?_
    rw [hnode]
    exact congrArg (· ++ _) hframe.applyChan

/-- Commands of a larger kind. -/
lemma Commands.mono {P Q : Bytes → Prop} (h : s.Commands P) (hPQ : ∀ command, P command → Q command) :
    s.Commands Q where
  entries :=
    { logs := fun i e he => hPQ _ (h.entries.logs i e he)
      calls := fun c hc args hreq e he => hPQ _ (h.entries.calls c hc args hreq e he)
      handlers := fun w hw x hx => hPQ _ (h.entries.handlers w hw x hx) }
  copied i msg hmsg := hPQ _ (h.copied i msg hmsg)
  pushed i msg hmsg hvalid := hPQ _ (h.pushed i msg hmsg hvalid)

end Cluster

namespace System

variable {s : System} {c : Cluster} {log : List Bytes}

/-- A step that is no push commits nothing. -/
lemma Logs.step (h : s.Logs log) {x : Action} (hx : x.OfRaft) (hpush : ∀ i, x ≠ .push i)
    (hs : s.cluster.step x = some c) : { s with cluster := c }.Logs log := by
  rcases h.of_stream (Cluster.step_stream hx hs).1 with hlogs | ⟨i, msg, rest, -, hmsg, -, hcopied⟩
  · exact hlogs
  · rcases Cluster.copied_of_step hx hpush hs i with hsame | hnone
    · rw [hcopied, hmsg] at hsame
      exact absurd hsame.symm (List.cons_ne_self _ _)
    · rw [hmsg] at hnone
      cases hnone

/-- A push commits the next command, or one that another node has pushed before. -/
lemma Logs.step_push (h : s.Logs log) {i : ℕ} (hstreams : s.cluster.Streams log.length)
    (hs : s.cluster.step (.push i) = some c)
    (hpos : ∀ {index command}, { s with cluster := c }.Committed index command → 0 < index ∧
      ∀ command', { s with cluster := c }.Committed index command' → command = command') :
    ∃ msg rest, s.cluster.copied i = msg :: rest ∧ { s with cluster := c }.Logs (record log msg) := by
  obtain ⟨msg, rest, hmsg, rfl⟩ := Cluster.push_cases hs
  have hon := hstreams.stream i
  rw [hmsg] at hon
  have hends : (ends (0, 0) (s.cluster.nodes i).applyChan).1 ≤ log.length := by
    refine ends_le_of (Int.natCast_nonneg _) (fun m hm hvalid => ?_) fun m hm hvalid => ?_
    · exact h.index_le ⟨i, m, hm, hvalid, rfl, rfl⟩
    · exact (hstreams.pushed i m hm hvalid).2
  exact ⟨msg, rest, hmsg, h.push (fun j hj => Cluster.sameStream_of_ne hj rfl rfl)
    (Cluster.setNode_self _ _) hon.head.1 (hon.head_le.trans (Int.add_le_add_right hends 1)) hpos⟩

end System

end KVCacheRaft
