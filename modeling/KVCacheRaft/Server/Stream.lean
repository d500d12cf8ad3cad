import KVCacheRaft.Server.System

/-!
# The stream of messages of a node

`ends` follows a stream by the index of what came last and the index of the last snapshot, as the
server does; in a `Good` stream every command that is not skipped is the next one and no snapshot
goes back. `Cluster.StreamStep` says what a step of the cluster does to the streams, and
`readRaftApplyCommand_command` and `readRaftApplyCommand_snapshot` what a message does to a server.
-/

namespace KVCacheRaft

/-! ### Positions -/

/-- The index of what came last, and that of the last snapshot, behind a message. -/
def advance (x : ℤ × ℤ) (msg : ApplyMsg) : ℤ × ℤ :=
  if msg.SnapshotValid then (msg.SnapshotIndex, msg.SnapshotIndex)
  else if msg.CommandValid = true ∧ x.2 < msg.CommandIndex then (msg.CommandIndex, x.2)
  else x

/-- The indices behind a stream. -/
def ends (x : ℤ × ℤ) (msgs : List ApplyMsg) : ℤ × ℤ := msgs.foldl advance x

/-- A snapshot does not go back, and a command that is not skipped is the next one. -/
structure Fits (x : ℤ × ℤ) (msg : ApplyMsg) : Prop where
  snapshot : msg.SnapshotValid = true → msg.CommandValid = false ∧ x.1 ≤ msg.SnapshotIndex
  command : msg.CommandValid = true → x.2 < msg.CommandIndex → msg.CommandIndex = x.1 + 1

/-- Every message of the stream fits where it comes. -/
def Good : ℤ × ℤ → List ApplyMsg → Prop
  | _, [] => True
  | x, msg :: msgs => Fits x msg ∧ Good (advance x msg) msgs

variable {x : ℤ × ℤ} {msg : ApplyMsg} {msgs msgs' : List ApplyMsg}

/-- Messages move the end of the stream one after another. -/
lemma ends_append (x : ℤ × ℤ) (msgs msgs' : List ApplyMsg) :
    ends x (msgs ++ msgs') = ends (ends x msgs) msgs' := List.foldl_append

@[simp] lemma ends_concat (x : ℤ × ℤ) (msgs : List ApplyMsg) (msg : ApplyMsg) :
    ends x (msgs ++ [msg]) = advance (ends x msgs) msg := ends_append x msgs [msg]

/-- A stream is good if its parts are. -/
lemma good_append : Good x (msgs ++ msgs') ↔ Good x msgs ∧ Good (ends x msgs) msgs' := by
  induction msgs generalizing x with
  | nil => exact (and_iff_right trivial).symm
  | cons msg msgs ih =>
    rw [List.cons_append, Good, ih, Good, and_assoc]
    rfl

/-- A stream stays good behind a message that fits. -/
lemma good_concat : Good x (msgs ++ [msg]) ↔ Good x msgs ∧ Fits (ends x msgs) msg := by
  rw [good_append]
  exact and_congr_right fun _ => and_iff_left trivial

/-- A message that fits moves the end forward. -/
lemma Fits.le (h : Fits x msg) : x.1 ≤ (advance x msg).1 := by
  unfold advance
  split_ifs with hs hc
  · exact (h.snapshot hs).2
  · have := h.command hc.1 hc.2
    omega
  · exact Int.le_refl _

/-- A good stream moves the end forward. -/
lemma Good.le (h : Good x msgs) : x.1 ≤ (ends x msgs).1 := by
  induction msgs generalizing x with
  | nil => exact Int.le_refl _
  | cons msg msgs ih => exact h.1.le.trans (ih h.2)

/-- The snapshots do not overtake what came last. -/
lemma Good.snapshot_le (h : Good x msgs) (hx : x.2 ≤ x.1) : (ends x msgs).2 ≤ (ends x msgs).1 := by
  induction msgs generalizing x with
  | nil => exact hx
  | cons msg msgs ih =>
    refine ih h.2 ?_
    unfold advance
    split_ifs with hs hc
    · exact Int.le_refl _
    · exact hc.2.le
    · exact hx

/-- What came last is one of the messages. -/
lemma ends_le {k : ℤ} (hx : x.1 ≤ k) (h : ∀ msg ∈ msgs, msg.CommandIndex ≤ k ∧ msg.SnapshotIndex ≤ k) :
    (ends x msgs).1 ≤ k := by
  induction msgs generalizing x with
  | nil => exact hx
  | cons msg msgs ih =>
    refine ih ?_ fun m hm => h m (List.mem_cons_of_mem _ hm)
    obtain ⟨h1, h2⟩ := h msg List.mem_cons_self
    unfold advance
    split_ifs
    · exact h2
    · exact h1
    · exact hx

/-- The messages copied and not pushed: consecutive commands behind `j`. -/
def Consecutive (j : ℤ) (msgs : List ApplyMsg) : Prop :=
  ∀ (k : ℕ) msg, msgs[k]? = some msg →
    msg.CommandValid = true ∧ msg.SnapshotValid = false ∧ msg.CommandIndex = j + k + 1

/-- Behind the first one the messages are consecutive. -/
lemma Consecutive.tail {j : ℤ} (h : Consecutive j (msg :: msgs)) : Consecutive (j + 1) msgs := by
  intro k m hm
  obtain ⟨h1, h2, h3⟩ := h (k + 1) m hm
  exact ⟨h1, h2, by rw [h3]; push_cast; omega⟩

/-- Copied entries are consecutive messages. -/
lemma Raft.copyLogs_consecutive {r : Raft} {start : ℤ} {count : ℕ}
    (h : r.copyLogs start count = .ok msgs) :
    Consecutive (start - 1) msgs ∧ msgs.length = count := by
  induction count generalizing start msgs with
  | zero =>
    cases h
    exact ⟨fun k m hm => by simp at hm, rfl⟩
  | succ count ih =>
    rw [copyLogs] at h
    obtain ⟨e, -, h⟩ := bind_eq_ok.mp h
    split_ifs at h
    obtain ⟨rest, hrest, h⟩ := bind_eq_ok.mp h
    rw [pure_eq_ok] at h
    subst h
    obtain ⟨hc, hl⟩ := ih hrest
    refine ⟨fun k m hm => ?_, by simp [hl]⟩
    cases k with
    | zero =>
      cases hm
      exact ⟨rfl, rfl, by simp⟩
    | succ k =>
      obtain ⟨h1, h2, h3⟩ := hc k m hm
      exact ⟨h1, h2, by rw [h3]; push_cast; omega⟩

/-! ### What a step of the cluster does to the streams -/

namespace Cluster

variable {s s' : Cluster}

/-- Every snapshot request of `s'` is one of `s`, or made by a node of `s`. -/
def SnapshotCalls (s s' : Cluster) : Prop :=
  ∀ c' ∈ s'.calls, ∀ args, c'.request = .installSnapshot args →
    (∃ c ∈ s.calls, c.request = .installSnapshot args) ∨
      ∃ i, args = (s.nodes i).leaderSendSnapShot

/-- Nothing happens to the stream of node `j`. -/
def SameStream (s s' : Cluster) (j : ℕ) : Prop :=
  (s.nodes j).Frame (s'.nodes j) ∧ s'.copied j = s.copied j

/-- What a step does to the streams: nothing, or one thing at one node. -/
inductive StreamStep (s : Cluster) (x : Action) (s' : Cluster) : Prop where
  | none : (∀ j, s.SameStream s' j) → StreamStep s x s'
  | applierTicker (i : ℕ) (msgs : List ApplyMsg) :
    (∀ j, j ≠ i → s.SameStream s' j) → s.copied i = [] →
    (s.nodes i).copyLogs ((s.nodes i).lastApplied + 1)
      ((s.nodes i).commitIndex - (s.nodes i).lastApplied).toNat = .ok msgs →
    (s.nodes i).lastApplied < (s.nodes i).commitIndex →
    s'.nodes i = { s.nodes i with lastApplied := (s.nodes i).commitIndex } →
    s'.copied i = msgs → StreamStep s x s'
  | push (i : ℕ) (msg : ApplyMsg) (rest : List ApplyMsg) :
    (∀ j, j ≠ i → s.SameStream s' j) → s.copied i = msg :: rest →
    s'.nodes i = (s.nodes i).push msg → s'.copied i = rest → StreamStep s x s'
  | install (i : ℕ) (args : InstallSnapshotRequest) :
    (∀ j, j ≠ i → s.SameStream s' j) → (s.nodes i).currentTerm ≤ args.term →
    (s.nodes i).lastSnapshotIndex < args.lastsnapshotincludeindex →
    (∃ (id : ℕ) (c : Call), x = .deliver id ∧ s.calls[id]? = some c ∧ c.callee = i ∧
      c.request = .installSnapshot args) →
    s'.nodes i = (((s.nodes i).follow args.term).installed args).persistState.push
      (Raft.snapshotMsg args) → s'.copied i = s.copied i → StreamStep s x s'

/-- A node has its own stream. -/
lemma SameStream.refl (s : Cluster) (j : ℕ) : s.SameStream s j := ⟨Raft.Frame.refl _, rfl⟩

/-- A step of one node that does nothing to its stream. -/
lemma sameStream_of_node {i : ℕ} {r : Raft} (hnodes : s'.nodes = Function.update s.nodes i r)
    (hframe : (s.nodes i).Frame r) (hcopied : s'.copied = s.copied) (j : ℕ) :
    s.SameStream s' j := by
  refine ⟨?_, congrFun hcopied j⟩
  by_cases hj : j = i
  · subst hj
    rw [hnodes, Function.update_self]
    exact hframe
  · rw [hnodes, Function.update_of_ne hj]
    exact Raft.Frame.refl _

/-- A step of one node leaves the streams of the others. -/
lemma sameStream_of_ne {i j : ℕ} {r : Raft} {msgs : List ApplyMsg} (hj : j ≠ i)
    (hnodes : s'.nodes = Function.update s.nodes i r)
    (hcopied : s'.copied = Function.update s.copied i msgs) : s.SameStream s' j := by
  rw [SameStream, hnodes, hcopied, Function.update_of_ne hj, Function.update_of_ne hj]
  exact ⟨Raft.Frame.refl _, rfl⟩

/-- Requests that are no snapshots. -/
lemma SnapshotCalls.send {t : Cluster} {i : ℕ} {requests : List (ℕ × Request)}
    (ht : t.calls = s.calls)
    (h : ∀ {j q}, (j, q) ∈ requests → ∀ args, q = .installSnapshot args →
      ∃ i, args = (s.nodes i).leaderSendSnapShot) : s.SnapshotCalls (t.send i requests) := by
  intro c hc args hreq
  obtain ⟨k, hk⟩ := List.getElem?_of_mem hc
  rcases send_cases hk with hk | ⟨-, j, q, hq, rfl⟩
  · exact .inl ⟨c, ht ▸ List.mem_of_getElem? hk, hreq⟩
  · exact .inr (h (List.mem_of_getElem? hq) args hreq)

/-- A step without calls sends no snapshots. -/
lemma SnapshotCalls.of_eq (h : s'.calls = s.calls) : s.SnapshotCalls s' :=
  fun c hc _ hreq => .inl ⟨c, h ▸ hc, hreq⟩

/-- Completing a call sends no snapshots. -/
lemma SnapshotCalls.completed {t : Cluster} {id : ℕ} {c : Call} (hc : s.calls[id]? = some c)
    (ht : t.calls = (s.completed id c).calls) : s.SnapshotCalls t := by
  intro c' hc' args hreq
  obtain ⟨k, hk⟩ := List.getElem?_of_mem (ht ▸ hc')
  obtain ⟨d, hd, hl⟩ := completed_cases hc hk
  exact .inl ⟨d, List.mem_of_getElem? hd, hl.request ▸ hreq⟩

/-- What a step other than `Snapshot` and a restart does to the streams and the snapshot requests. -/
lemma step_stream {x : Action} (hx : x.OfRaft) (hs : s.step x = some s') :
    s.StreamStep x s' ∧ s.SnapshotCalls s' := by
  cases x with
  | doElection i =>
    simp only [Cluster.step] at hs
    split_ifs at hs
    obtain ⟨-, r, requests, hr, rfl⟩ := doElection_cases hs
    obtain ⟨-, rfl, rfl⟩ := Raft.doElection_cases hr
    refine ⟨.none (sameStream_of_node rfl ⟨⟨rfl, rfl⟩, rfl, rfl, rfl, rfl⟩ rfl), .send rfl ?_⟩
    intro j q hq args hreq
    simp only [List.mem_map, Prod.mk.injEq, Prod.exists] at hq
    obtain ⟨_, _, -, -, rfl⟩ := hq
    cases hreq
  | persistElection i =>
    simp only [Cluster.step] at hs
    split_ifs at hs
    cases hs
    exact ⟨.none (sameStream_of_node rfl (Raft.Frame.refl _).persistState rfl), .of_eq rfl⟩
  | deliver id =>
    obtain ⟨c, hc, hd⟩ := deliver_cases hs
    cases hd with
    | requestVote hreq =>
      exact ⟨.none (sameStream_of_node rfl (Raft.requestVote_frame _ _) rfl), .of_eq rfl⟩
    | @installSnapshot args r rep hreq hr =>
      refine ⟨?_, .of_eq rfl⟩
      have hc' := (s.nodes c.callee).catchUp_frame args.term
      rcases Raft.installSnapshot_cases hr with ⟨-, rfl⟩ | ⟨-, rfl⟩ | ⟨hterm, hidx, rfl⟩
      · exact .none (sameStream_of_node rfl (Raft.Frame.refl _) rfl)
      · exact .none (sameStream_of_node rfl ⟨hc'.same, hc'.lastApplied, hc'.applyChan,
          hc'.lastSnapshotIndex, hc'.snapshotFile⟩ rfl)
      · exact .install c.callee args
          (fun j hj => sameStream_of_ne hj rfl (Function.update_eq_self _ _).symm) hterm hidx
          ⟨id, c, rfl, hc, rfl, hreq⟩ (setNode_self _ _) rfl
    | replied hreq hr =>
      exact ⟨.none (sameStream_of_node rfl (Raft.appendEntries_frame hr) rfl), .of_eq rfl⟩
    | unlocked hreq hr =>
      exact ⟨.none (sameStream_of_node rfl (Raft.appendEntries_frame hr) rfl), .of_eq rfl⟩
  | resume k stable =>
    obtain ⟨w, r, rep, -, hr, rfl⟩ := resume_cases hs
    exact ⟨.none (sameStream_of_node rfl (Raft.appendEntriesStable_frame hr) rfl), .of_eq rfl⟩
  | complete k =>
    obtain ⟨id, rep, c, -, hc, -, hd⟩ := complete_cases hs
    cases hd with
    | requestVote hreq =>
      exact ⟨.none (sameStream_of_node rfl (Raft.handleRequestVoteResponse_frame _ _ _ _) rfl),
        .completed hc rfl⟩
    | appendEntries hreq hr =>
      exact ⟨.none (sameStream_of_node rfl (Raft.handleAppendEntries_frame hr) rfl),
        .completed hc rfl⟩
    | installSnapshot hreq =>
      exact ⟨.none (sameStream_of_node rfl (Raft.leaderSendSnapShotHandler_frame _ _ _ _) rfl),
        .completed hc rfl⟩
  | fail id =>
    obtain ⟨c, hc, rfl⟩ := fail_cases hs
    exact ⟨.none (fun j => SameStream.refl s j), .completed hc rfl⟩
  | start i command =>
    simp only [Cluster.step] at hs
    split_ifs at hs
    obtain ⟨r, e, hr, rfl⟩ := start_cases hs
    obtain ⟨-, -, rfl⟩ := Raft.start_cases hr
    exact ⟨.none (sameStream_of_node rfl ⟨⟨rfl, rfl⟩, rfl, rfl, rfl, rfl⟩ rfl), .of_eq rfl⟩
  | onLogStable k ok =>
    obtain ⟨i, index, -, rfl⟩ := onLogStable_cases hs
    exact ⟨.none (sameStream_of_node rfl (Raft.onLogStable_frame _ _ _) rfl), .of_eq rfl⟩
  | doHeartBeat i =>
    simp only [Cluster.step] at hs
    split_ifs at hs
    obtain ⟨-, r, requests, snapshots, hr, rfl⟩ := doHeartBeat_cases hs
    obtain ⟨⟨next, rfl⟩, -, -⟩ := Raft.heartBeatPeers_cases hr
    refine ⟨.none (sameStream_of_node rfl ⟨⟨rfl, rfl⟩, rfl, rfl, rfl, rfl⟩ rfl), .send rfl ?_⟩
    intro j q hq args hreq
    simp only [List.mem_map, Prod.mk.injEq, Prod.exists] at hq
    obtain ⟨_, _, -, -, rfl⟩ := hq
    cases hreq
  | leaderSendSnapShot k =>
    obtain ⟨i, peer, -, rfl⟩ := leaderSendSnapShot_cases hs
    refine ⟨.none (fun j => SameStream.refl s j), .send rfl ?_⟩
    intro j q hq args hreq
    simp only [List.mem_singleton, Prod.mk.injEq] at hq
    obtain ⟨-, rfl⟩ := hq
    cases hreq
    exact ⟨i, rfl⟩
  | applierTicker i =>
    simp only [Cluster.step] at hs
    split_ifs at hs
    have hcond : s.copied i = [] ∧ (s.nodes i).lastApplied < (s.nodes i).commitIndex := by
      unfold Cluster.applierTicker at hs
      split_ifs at hs with hcond
      exact hcond
    obtain ⟨r, logs, hr, rfl⟩ := applierTicker_cases hs
    obtain ⟨rfl, hcopy⟩ := Raft.applierTicker_cases hr
    exact ⟨.applierTicker i logs (fun j hj => sameStream_of_ne hj rfl rfl) hcond.1 hcopy hcond.2
      (setNode_self _ _) (Function.update_self _ _ _), .of_eq rfl⟩
  | push i =>
    obtain ⟨msg, rest, hcopied, rfl⟩ := push_cases hs
    exact ⟨.push i msg rest (fun j hj => sameStream_of_ne hj rfl rfl) hcopied
      (setNode_self _ _) (Function.update_self _ _ _), .of_eq rfl⟩
  | snapshot i index data => exact hx.elim
  | restart i logs => exact hx.elim

end Cluster

end KVCacheRaft
