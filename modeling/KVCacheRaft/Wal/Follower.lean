import KVCacheRaft.Raft.NewEntries
import KVCacheRaft.Wal.Order

/-!
# A follower and its log on disk

A follower that handles `AppendEntries` requests one after the other writes the entries it does not
have yet, and puts them into `m_logs`. On disk an entry cuts the log at its place; in memory it
replaces what is there and the rest stays. Both agree when a request that overwrites an entry
overwrites all entries behind it too.
-/

namespace KVCacheRaft

/-! ### Requests one after the other -/

/-- A follower with its write-ahead log. -/
structure Follower where
  node : Raft
  wal : Wal

namespace Follower

/-- `AppendLogAndWaitStable` when the writer has nothing else to write. -/
def appendLogAndWaitStable (w : Wal) (logs : List LogEntry) : Wal :=
  if logs = [] then w else w.writeGroup logs

/-- `AppendEntries` from its start to its reply, with the `Save` of `persistState`. -/
def handle (f : Follower) (request : AppendEntriesArgs) : Except Fault (Follower × AppendEntriesReply) := do
  let (node, phase) ← f.node.appendEntries request
  match phase with
  | .replied reply =>
    if request.term < f.node.currentTerm then return ({ f with node }, reply)
    else return ({ node, wal := f.wal.save node.fmp.snapshot_index.toNat }, reply)
  | .unlocked pending =>
    let wal := appendLogAndWaitStable f.wal (pending.map (·.log))
    let (node, reply) ← node.appendEntriesStable request pending true
    return ({ node, wal := wal.save node.fmp.snapshot_index.toNat }, reply)

/-- The request passes the checks of `AppendEntries` on its term and its previous entry. -/
def Accepts (s : Raft) (request : AppendEntriesArgs) : Prop :=
  s.currentTerm ≤ request.term ∧ s.termAt request.prevlogindex = .ok request.prevlogterm

/-- Requests of leaders: their entries follow the previous one, and are entries of `raft`. -/
structure WellFormed (request : AppendEntriesArgs) : Prop where
  entries : Aligned request.prevlogindex request.entries
  ints : Wal.Ints request.entries

/-- A request that overwrites an entry overwrites all behind it, and what it writes keeps the
segments in order. -/
def Agrees (f : Follower) (request : AppendEntriesArgs) : Prop :=
  Accepts f.node request →
    f.node.OverwritesSuffix request.entries ∧
    f.wal.KeepsOrder (f.node.newEntries request.entries)

/-- Requests handled to completion, each meeting `P` where it is handled. -/
inductive Run (P : Follower → AppendEntriesArgs → Prop) (f : Follower) : Follower → Prop where
  | refl : Run P f f
  | step {g g' : Follower} {request : AppendEntriesArgs} {reply : AppendEntriesReply} :
    Run P f g → P g request → g.handle request = .ok (g', reply) → Run P f g'

/-- The segments are in order, and hold the log. -/
structure Recovers (f : Follower) : Prop where
  index : f.node.IndexInv
  snapshot_nonneg : 0 ≤ f.node.lastSnapshotIndex
  holds : ∃ closed opened, f.wal.Holds closed opened ∧
    replayEntries f.node.lastSnapshotIndex.toNat (written closed opened) = f.node.logs

variable {f f' : Follower} {request : AppendEntriesArgs} {reply : AppendEntriesReply}

/-- What is recovered is the log of the node. -/
lemma Recovers.readPersistedLogs (h : f.Recovers) :
    (f.wal.readPersistedLogs f.node.lastSnapshotIndex.toNat).2 = f.node.logs := by
  obtain ⟨closed, opened, hw, hlogs⟩ := h.holds
  rw [hw.readPersistedLogs, hlogs]

/-- A step that leaves the log alone. -/
lemma Recovers.node (h : f.Recovers) {node : Raft} (hindex : node.IndexInv)
    (hsnap : node.lastSnapshotIndex = f.node.lastSnapshotIndex) (hlogs : node.logs = f.node.logs) :
    Recovers { f with node } where
  index := hindex
  snapshot_nonneg := hsnap ▸ h.snapshot_nonneg
  holds := by
    obtain ⟨closed, opened, hw, heq⟩ := h.holds
    exact ⟨closed, opened, hw, by rw [hsnap, heq, hlogs]⟩

/-- Saving keeps what is recovered. -/
lemma Recovers.save (h : f.Recovers) :
    Recovers { f with wal := f.wal.save f.node.lastSnapshotIndex.toNat } where
  index := h.index
  snapshot_nonneg := h.snapshot_nonneg
  holds := by
    obtain ⟨closed, opened, hw, heq⟩ := h.holds
    obtain ⟨closed', opened', hw', heq'⟩ := hw.save f.node.lastSnapshotIndex.toNat
    exact ⟨closed', opened', hw', heq'.trans heq⟩

/-- The entries to be written depend on the log only. -/
lemma newEntries_congr {s t : Raft} (hsnap : t.lastSnapshotIndex = s.lastSnapshotIndex)
    (hlogs : t.logs = s.logs) (entries : List LogEntry) :
    t.newEntries entries = s.newEntries entries := by
  refine List.filter_congr fun e _ => decide_eq_decide.mpr ?_
  rw [Raft.Overwrites, Raft.Overwrites, Raft.getLastLogIndex, Raft.getLastLogIndex, hsnap, hlogs]

/-- The entries that are written are the ones behind the place where they start. -/
lemma Recovers.write {s : Raft} {w : Wal} (h : Recovers ⟨s, w⟩) {news : List LogEntry} {k : ℕ}
    (hk : k ≤ s.logs.length) (hnews : Aligned (s.lastSnapshotIndex + k) news) (hints : Wal.Ints news)
    (horder : w.KeepsOrder news) (hne : news ≠ []) :
    ∃ closed opened, (w.writeGroup news).Holds closed opened ∧
      replayEntries s.lastSnapshotIndex.toNat (written closed opened) = s.logs.take k ++ news := by
  obtain ⟨closed, opened, hw, hlogs⟩ := h.holds
  have hsnap : ((s.lastSnapshotIndex.toNat : ℕ) : ℤ) = s.lastSnapshotIndex :=
    Int.toNat_of_nonneg h.snapshot_nonneg
  obtain ⟨closed', opened', hw', hwritten⟩ := hw.writeGroup
    (fun e he => ⟨(hints e he).1, (hints e he).2.1, (hints e he).2.2, horder.size_le e he⟩)
    horder.rolls
  refine ⟨closed', opened', hw', ?_⟩
  rw [hwritten, replayEntries, List.foldl_append]
  refine (congrArg (fun logs => news.foldl _ logs) hlogs).trans ?_
  exact foldl_replayEntry_aligned (hsnap.symm ▸ h.index.aligned) hk (hsnap.symm ▸ hnews) hne

/-- The second part of `AppendEntries` and its write. -/
lemma Recovers.append {s s' : Raft} {w : Wal} (h : Recovers ⟨s, w⟩) (hrequest : WellFormed request)
    (hterm : s.currentTerm = request.term) (hsnap : s.lastSnapshotIndex ≤ request.prevlogindex)
    (hprev : s.termAt request.prevlogindex = .ok request.prevlogterm)
    (hsuffix : s.OverwritesSuffix request.entries)
    (horder : w.KeepsOrder (s.newEntries request.entries))
    (hs : s.appendEntriesStable request ((s.newEntries request.entries).map
      (writeOf s.lastSnapshotIndex s.getLastLogIndex)) true = .ok (s', reply)) :
    Recovers ⟨s', (appendLogAndWaitStable w (s.newEntries request.entries)).save
      s'.fmp.snapshot_index.toNat⟩ := by
  have hindex : s.IndexInv := h.index
  have hlast := hindex.last_eq
  have hprevlast := hindex.termAt_le_last hprev
  -- the previous entry has its place in the log
  obtain ⟨j, hj⟩ : ∃ j : ℕ, request.prevlogindex = s.lastSnapshotIndex + j :=
    ⟨(request.prevlogindex - s.lastSnapshotIndex).toNat, by omega⟩
  have hentries : Aligned (s.lastSnapshotIndex + j) request.entries := hj ▸ hrequest.entries
  have hnews := Raft.newEntries_suffix hindex.aligned (by omega) hentries hsuffix
  have habove : ∀ e ∈ s.newEntries request.entries, s.lastSnapshotIndex < e.logindex := fun e he =>
    (of_decide_eq_true (List.mem_filter.mp he).2).1
  have hints : Wal.Ints (s.newEntries request.entries) := fun e he =>
    hrequest.ints e (List.mem_filter.mp he).1
  obtain ⟨news, heq⟩ : ∃ news, news = s.newEntries request.entries := ⟨_, rfl⟩
  rw [← heq] at hnews habove hints horder hs ⊢
  rw [hlast] at hs
  -- memory and disk after the writes
  obtain ⟨hcheck, hholds⟩ : s.checkPending s.getLastLogIndex
        (news.map (writeOf s.lastSnapshotIndex (s.lastSnapshotIndex + s.logs.length))) = none ∧
      ∃ closed opened, (appendLogAndWaitStable w news).Holds closed opened ∧
        replayEntries s.lastSnapshotIndex.toNat (written closed opened) =
          (news.map (writeOf s.lastSnapshotIndex (s.lastSnapshotIndex + s.logs.length))).foldl
            s.applyPending s.logs := by
    by_cases hne : news = []
    · subst hne
      obtain ⟨closed, opened, hw, hlogs⟩ := h.holds
      exact ⟨rfl, closed, opened, hw, hlogs⟩
    · obtain ⟨k, hk, hnews, hcover⟩ := hnews.resolve_left hne
      have hmax : s.logs.length = max s.logs.length k := (Nat.max_eq_left hk).symm
      refine ⟨Raft.checkPending_writeOf hindex.aligned hnews (hmax ▸ hlast), ?_⟩
      have hdrop : s.logs.drop (k + news.length) = [] := List.drop_eq_nil_of_le hcover
      rw [appendLogAndWaitStable, if_neg hne, Raft.foldl_writeOf habove hmax hnews, hdrop,
        List.append_nil]
      exact h.write hk hnews hints horder hne
  obtain ⟨t, reply', ht, hindex', -⟩ := hindex.appendEntriesStable request
    (news.map (writeOf s.lastSnapshotIndex (s.lastSnapshotIndex + s.logs.length))) true
  obtain ⟨rfl, rfl⟩ := Prod.mk.inj (Except.ok.inj (hs.symm.trans ht))
  rw [hindex.appendEntriesStable_eq hterm hsnap hprev hcheck] at hs
  obtain ⟨logs, last, rfl, -, rfl, -⟩ := Raft.applyEntries_cases hs
  exact Recovers.save (f := ⟨_, _⟩) ⟨hindex', h.snapshot_nonneg, hholds⟩

/-- A request whose old entries agree keeps the log recoverable. -/
lemma Recovers.handle (h : f.Recovers) (hrequest : WellFormed request) (hagrees : f.Agrees request)
    (hs : f.handle request = .ok (f', reply)) : f'.Recovers := by
  obtain ⟨⟨node, phase⟩, hnode, hs⟩ := bind_eq_ok.mp hs
  have hindex := (h.index.appendEntries hnode).1
  have hsnapshot := f.node.acceptTerm_lastSnapshotIndex request.term
  have hkept := f.node.acceptTerm_logs request.term
  obtain ⟨hlt, rfl, rfl⟩ | ⟨hle, rfl, hint, rfl⟩ | ⟨hle, rfl, hsnap, hprev, pending, hpending, rfl⟩ :=
    Raft.appendEntries_cases hnode
  · simp only [if_pos hlt] at hs
    obtain ⟨rfl, -⟩ := Prod.mk.inj (pure_eq_ok.mp hs)
    exact h
  · simp only [if_neg (Nat.not_lt.mpr hle)] at hs
    obtain ⟨rfl, -⟩ := Prod.mk.inj (pure_eq_ok.mp hs)
    exact (h.node hindex hsnapshot hkept).save
  · have hr := h.node hindex hsnapshot hkept
    have hnew := newEntries_congr hsnapshot hkept request.entries
    have haccepts : Accepts f.node request :=
      ⟨hle, (f.node.acceptTerm_termAt _ _).symm.trans hprev⟩
    obtain ⟨hsuffix, horder⟩ := hagrees haccepts
    obtain ⟨⟨node, reply'⟩, hstable, hs⟩ := bind_eq_ok.mp hs
    obtain ⟨rfl, rfl⟩ := Prod.mk.inj (pure_eq_ok.mp hs)
    obtain rfl := Raft.pendingWrites_newEntries hindex.aligned hpending
    have hlogs : (((f.node.acceptTerm request.term).newEntries request.entries).map
        (writeOf (f.node.acceptTerm request.term).lastSnapshotIndex
          (f.node.acceptTerm request.term).getLastLogIndex)).map (·.log) =
        (f.node.acceptTerm request.term).newEntries request.entries := by
      rw [List.map_map]
      exact (List.map_congr_left fun e _ => writeOf_log _ _ e).trans (List.map_id _)
    rw [hlogs]
    have hterm : (f.node.acceptTerm request.term).currentTerm = request.term := by
      rw [Raft.acceptTerm_currentTerm, Nat.max_eq_right hle]
    refine hr.append hrequest hterm hsnap hprev ?_ (hnew ▸ horder) hstable
    unfold Raft.OverwritesSuffix Raft.Overwrites
    rw [hkept]
    exact hsuffix

/-- In every run in which a request that overwrites an entry overwrites all behind it, and the
segments stay in order, a restart would recover the log in memory. -/
theorem readPersistedLogs_handled (h : f.Recovers)
    (hr : Run (fun f request => WellFormed request ∧ f.Agrees request) f f') :
    f'.node.logs = (f'.wal.readPersistedLogs f'.node.lastSnapshotIndex.toNat).2 := by
  have hrecovers : f'.Recovers := by
    induction hr with
    | refl => exact h
    | step _ hP hs ih => exact ih.handle hP.1 hP.2 hs
  exact hrecovers.readPersistedLogs.symm

/-- A follower that starts for the first time. -/
def initial (id peers : ℕ) : Follower where
  node := Raft.init id peers {} [] []
  wal := Wal.create []

/-- A fresh follower has nothing to recover. -/
lemma recovers_initial (id peers : ℕ) : (initial id peers).Recovers where
  index := Raft.indexInv_init id peers
  snapshot_nonneg := Int.le_refl _
  holds := ⟨[], [], Wal.Holds.create_nil, rfl⟩

/-- The follower after some requests; none when it dies or one does not meet `P`. -/
def runIf (P : Follower → AppendEntriesArgs → Prop) [∀ f request, Decidable (P f request)]
    (f : Follower) : List AppendEntriesArgs → Option Follower
  | [] => some f
  | request :: rest =>
    if P f request then (f.handle request).toOption.bind fun p => p.1.runIf P rest else none

/-- A run may begin with one more request. -/
lemma Run.head {P : Follower → AppendEntriesArgs → Prop} {g : Follower} (hP : P f request)
    (hs : f.handle request = .ok (g, reply)) (hr : Run P g f') : Run P f f' := by
  induction hr with
  | refl => exact .step .refl hP hs
  | step _ hP' hs' ih => exact .step ih hP' hs'

/-- What is executed is a run. -/
lemma run_of_runIf {P Q : Follower → AppendEntriesArgs → Prop}
    [∀ f request, Decidable (P f request)] {requests : List AppendEntriesArgs}
    (hPQ : ∀ f, ∀ request ∈ requests, P f request → Q f request)
    (hs : f.runIf P requests = some f') : Run Q f f' := by
  induction requests generalizing f with
  | nil =>
    obtain rfl := Option.some.inj hs
    exact .refl
  | cons request rest ih =>
    rw [runIf] at hs
    split_ifs at hs with hP
    obtain ⟨⟨next, reply⟩, hnext, hrest⟩ := Option.bind_eq_some_iff.mp hs
    have hok : f.handle request = .ok (next, reply) := by
      cases hh : f.handle request with
      | error fault =>
        rw [hh] at hnext
        cases hnext
      | ok p =>
        rw [hh] at hnext
        exact congrArg _ (Option.some.inj hnext)
    exact .head (hPQ f request List.mem_cons_self hP) hok
      (ih (fun f r hr => hPQ f r (List.mem_cons_of_mem _ hr)) hrest)

/-- Three entries of the leader of term 1. -/
def threeEntries : AppendEntriesArgs where
  term := 1
  leaderid := 0
  prevlogindex := 0
  prevlogterm := 0
  entries := [⟨[1], 1, 1⟩, ⟨[2], 1, 2⟩, ⟨[3], 1, 3⟩]
  leadercommit := 0

/-- The leader of term 2 has another entry at index 2, and nothing behind it. -/
def overwriteSecond : AppendEntriesArgs where
  term := 2
  leaderid := 2
  prevlogindex := 1
  prevlogterm := 1
  entries := [⟨[4], 2, 2⟩]
  leadercommit := 0

instance (request : AppendEntriesArgs) : Decidable (Wal.Ints request.entries) := by
  unfold Wal.Ints
  infer_instance

/-- The leader of term 2 has other entries at the indices 2 and 3. -/
def overwriteSuffix : AppendEntriesArgs where
  term := 2
  leaderid := 2
  prevlogindex := 1
  prevlogterm := 1
  entries := [⟨[4], 2, 2⟩, ⟨[5], 2, 3⟩]
  leadercommit := 0

/-- The places of a list, checked one by one. -/
lemma aligned_of_map {snap : ℤ} {logs : List LogEntry}
    (h : ∀ k < logs.length, (logs[k]?.map (·.logindex)) = some (snap + 1 + k)) :
    Aligned snap logs := by
  intro k e hk
  have := h k (List.getElem?_eq_some_iff.mp hk).1
  rw [hk] at this
  exact Option.some.inj this

/-- The requests of the example are well formed. -/
lemma wellFormed_requests : ∀ request ∈ [threeEntries, overwriteSecond, overwriteSuffix],
    WellFormed request := by
  intro request hr
  simp only [List.mem_cons, List.not_mem_nil, or_false] at hr
  obtain rfl | rfl | rfl := hr
  · exact ⟨aligned_of_map (by decide), by decide⟩
  · exact ⟨aligned_of_map (by decide), by decide⟩
  · exact ⟨aligned_of_map (by decide), by decide⟩

/-- The request overwrites a suffix, and what is written does not fill the segment. -/
def Small (f : Follower) (request : AppendEntriesArgs) : Prop :=
  f.node.OverwritesSuffix request.entries ∧
    (∀ e ∈ f.node.newEntries request.entries, e.serialize.length ≤ maxLogSize) ∧
    (f.wal.writeLogs (f.node.newEntries request.entries)).2 = false

instance (f : Follower) (request : AppendEntriesArgs) : Decidable (f.Small request) := by
  unfold Small
  infer_instance

/-- A small request agrees with what the follower holds. -/
lemma Small.agrees (h : f.Small request) : f.Agrees request := fun _ =>
  ⟨h.1, h.2.1, fun hroll => absurd hroll (by rw [h.2.2]; exact Bool.false_ne_true)⟩

/-- Three entries, of which the second and the third are overwritten. -/
theorem readPersistedLogs_overwriteSuffix :
    ∃ f : Follower, f.node.logs = [⟨[1], 1, 1⟩, ⟨[4], 2, 2⟩, ⟨[5], 2, 3⟩] ∧
      f.node.logs = (f.wal.readPersistedLogs f.node.lastSnapshotIndex.toNat).2 := by
  obtain ⟨f, hf⟩ := Option.isSome_iff_exists.mp
    (by decide : ((initial 1 3).runIf Small [threeEntries, overwriteSuffix]).isSome)
  have hlogs : ∀ f ∈ (initial 1 3).runIf Small [threeEntries, overwriteSuffix],
      f.node.logs = [⟨[1], 1, 1⟩, ⟨[4], 2, 2⟩, ⟨[5], 2, 3⟩] := by decide
  refine ⟨f, hlogs f hf, readPersistedLogs_handled (recovers_initial 1 3) (run_of_runIf ?_ hf)⟩
  intro f request hr hsmall
  refine ⟨wellFormed_requests request ?_, hsmall.agrees⟩
  obtain rfl | hr := List.mem_cons.mp hr
  · exact List.mem_cons_self
  · exact List.mem_cons_of_mem _ (List.mem_cons_of_mem _ hr)

/-- In memory the third entry stays behind the second one of term 2, on disk it is cut off. -/
theorem exists_diverged :
    ∃ f, Run (fun _ request => WellFormed request) (initial 1 3) f ∧
      f.node.logs ≠ (f.wal.readPersistedLogs f.node.lastSnapshotIndex.toNat).2 := by
  obtain ⟨f, hf⟩ := Option.isSome_iff_exists.mp
    (by decide : ((initial 1 3).runIf (fun _ _ => True) [threeEntries, overwriteSecond]).isSome)
  have hdiffers : ∀ f ∈ (initial 1 3).runIf (fun _ _ => True) [threeEntries, overwriteSecond],
      f.node.logs ≠ (f.wal.readPersistedLogs f.node.lastSnapshotIndex.toNat).2 := by decide
  refine ⟨f, run_of_runIf (fun f request hr _ => wellFormed_requests request ?_) hf, hdiffers f hf⟩
  obtain rfl | hr := List.mem_cons.mp hr
  · exact List.mem_cons_self
  · obtain rfl := List.mem_singleton.mp hr
    exact List.mem_cons_of_mem _ List.mem_cons_self

end Follower

end KVCacheRaft
