import KVCacheRaft.Raft.Inversion

/-!
# Indices and offsets

Every offset into `m_logs` is an index less the snapshot index and one. That is where the entry is
found as long as the entries carry their places, and the snapshot index, `m_lastApplied`,
`m_commitIndex` and the last index are in this order. Every step of a node keeps that, whatever the
requests carry, and finds all the entries it looks at.
-/

namespace KVCacheRaft

/-! ### Entries at their places -/

/-- The entries behind the index `snap` carry their indices. -/
def Aligned (snap : ℤ) (logs : List LogEntry) : Prop :=
  ∀ (k : ℕ) (e : LogEntry), logs[k]? = some e → e.logindex = snap + 1 + k

namespace Aligned

variable {snap : ℤ} {logs : List LogEntry} {e : LogEntry}

/-- An empty log is aligned. -/
lemma nil : Aligned snap [] := fun k e h => by simp at h

/-- Appending the next entry keeps a log aligned. -/
lemma concat (h : Aligned snap logs) (he : e.logindex = snap + 1 + logs.length) :
    Aligned snap (logs ++ [e]) := by
  intro k x hk
  rcases Nat.lt_trichotomy k logs.length with hlt | heq | hgt
  · rw [List.getElem?_append_left hlt] at hk
    exact h k x hk
  · subst heq
    rw [List.getElem?_concat_length] at hk
    cases hk
    exact he
  · rw [List.getElem?_eq_none (by simp; omega)] at hk
    cases hk

/-- Entries at their places are in the order of their indices. -/
lemma sorted (h : Aligned snap logs) : logs.Pairwise fun e e' => e.logindex < e'.logindex := by
  refine List.pairwise_iff_getElem.mpr fun i j hi hj hij => ?_
  have hei := h i _ (List.getElem?_eq_getElem hi)
  have hej := h j _ (List.getElem?_eq_getElem hj)
  omega

/-- A beginning of an aligned log is aligned. -/
lemma take (h : Aligned snap logs) (n : ℕ) : Aligned snap (logs.take n) := by
  intro k x hk
  rw [List.getElem?_take] at hk
  split_ifs at hk
  exact h k x hk

/-- Behind its first entries an aligned log is aligned to the last of them. -/
lemma drop (h : Aligned snap logs) (n : ℕ) : Aligned (snap + n) (logs.drop n) := by
  intro k x hk
  rw [List.getElem?_drop] at hk
  have := h (n + k) x hk
  push_cast at this
  omega

/-- What is left behind an index. -/
lemma behind (h : Aligned snap logs) {index : ℤ} (hle : snap ≤ index) :
    Aligned index (logs.drop (index - snap).toNat) := by
  have hdrop := h.drop (index - snap).toNat
  rwa [show snap + ((index - snap).toNat : ℤ) = index by omega] at hdrop

/-- Replacing an entry by one of its index keeps a log aligned. -/
lemma set (h : Aligned snap logs) {n : ℕ} {old : LogEntry} (hn : logs[n]? = some old)
    (he : e.logindex = old.logindex) : Aligned snap (logs.set n e) := by
  intro k x hk
  rw [List.getElem?_set] at hk
  split_ifs at hk with hnk hlt
  · cases hk
    subst hnk
    exact he.trans (h n old hn)
  · exact h k x hk

end Aligned

namespace Raft

/-- The order of the indices, and the entries at their places. -/
structure IndexInv (s : Raft) : Prop where
  snapshot_le : s.lastSnapshotIndex ≤ s.lastApplied
  applied_le : s.lastApplied ≤ s.commitIndex
  commit_le : s.commitIndex ≤ s.getLastLogIndex
  aligned : Aligned s.lastSnapshotIndex s.logs

variable {s s' : Raft} {index : ℤ}

/-- The last index is that of the entry appended last. -/
lemma getLastLogIndex_concat {logs : List LogEntry} {e : LogEntry} (h : s.logs = logs ++ [e]) :
    s.getLastLogIndex = e.logindex := by
  simp [getLastLogIndex, h]

/-- The last index of an aligned log counts its entries. -/
lemma getLastLogIndex_of_aligned (h : Aligned s.lastSnapshotIndex s.logs) :
    s.getLastLogIndex = s.lastSnapshotIndex + s.logs.length := by
  rw [getLastLogIndex]
  cases hlast : s.logs.getLast? with
  | none => simp [List.getLast?_eq_none_iff.mp hlast]
  | some e =>
    obtain ⟨logs, hlogs⟩ := List.getLast?_eq_some_iff.mp hlast
    have := h logs.length e (by rw [hlogs, List.getElem?_concat_length])
    simp only [this, hlogs, List.length_append, List.length_singleton]
    push_cast
    omega

/-- Above the snapshot and up to the last index every entry is found, and it is the right one. -/
lemma logAt_of_aligned (h : Aligned s.lastSnapshotIndex s.logs) (index : ℤ)
    (hlt : s.lastSnapshotIndex < index) (hle : index ≤ s.getLastLogIndex) :
    ∃ e, s.logAt index = .ok e ∧ e.logindex = index := by
  rw [getLastLogIndex_of_aligned h] at hle
  have hk : (index - s.lastSnapshotIndex - 1).toNat < s.logs.length := by omega
  refine ⟨s.logs[(index - s.lastSnapshotIndex - 1).toNat], ?_, ?_⟩
  · exact vecGet_eq_ok.mpr ⟨by omega, List.getElem?_eq_getElem hk⟩
  · have := h _ _ (List.getElem?_eq_getElem hk)
    omega

/-- An entry of an aligned log is read back at its index. -/
lemma logAt_of_mem (h : Aligned s.lastSnapshotIndex s.logs) {e : LogEntry} (he : e ∈ s.logs) :
    s.logAt e.logindex = .ok e := by
  obtain ⟨i, hi⟩ := List.getElem?_of_mem he
  have hei := h i e hi
  refine vecGet_eq_ok.mpr ⟨by omega, ?_⟩
  rw [show (e.logindex - s.lastSnapshotIndex - 1).toNat = i by omega]
  exact hi

/-- Between the snapshot and the last index every index has a term. -/
lemma termAt_of_aligned (h : Aligned s.lastSnapshotIndex s.logs) (index : ℤ)
    (hle : s.lastSnapshotIndex ≤ index) (hlast : index ≤ s.getLastLogIndex) :
    ∃ term, s.termAt index = .ok term := by
  rw [termAt]
  split_ifs with heq
  · exact ⟨_, rfl⟩
  · obtain ⟨e, he, -⟩ := logAt_of_aligned h index (by omega) hlast
    exact ⟨e.logterm, by rw [he]; rfl⟩

/-- What is kept behind a newer snapshot is aligned to it. -/
lemma aligned_keptLogs (h : Aligned s.lastSnapshotIndex s.logs) (hle : s.lastSnapshotIndex ≤ index) :
    Aligned index (s.keptLogs index) := by
  rw [keptLogs]
  split_ifs
  · exact h.behind hle
  · exact Aligned.nil

/-- The log that `InstallSnapshot` keeps ends where it did, or with the snapshot. -/
lemma length_keptLogs (h : Aligned s.lastSnapshotIndex s.logs) (hle : s.lastSnapshotIndex ≤ index) :
    index + ((s.keptLogs index).length : ℤ) = max s.getLastLogIndex index := by
  have hlast := getLastLogIndex_of_aligned h
  rw [keptLogs]
  split_ifs
  · rw [List.length_drop]
    omega
  · rw [List.length_nil]
    omega

namespace IndexInv

/-- The invariant looks at the log and four indices. -/
lemma congr (h : s.IndexInv) (hlogs : s'.logs = s.logs)
    (hsnap : s'.lastSnapshotIndex = s.lastSnapshotIndex) (happlied : s'.lastApplied = s.lastApplied)
    (hcommit : s'.commitIndex = s.commitIndex) : s'.IndexInv where
  snapshot_le := by rw [hsnap, happlied]; exact h.snapshot_le
  applied_le := by rw [happlied, hcommit]; exact h.applied_le
  commit_le := by
    have hlast : s'.getLastLogIndex = s.getLastLogIndex := by
      rw [getLastLogIndex, getLastLogIndex, hlogs, hsnap]
    rw [hcommit, hlast]
    exact h.commit_le
  aligned := by rw [hsnap, hlogs]; exact h.aligned

/-- The snapshot is not above the last index. -/
lemma snapshot_le_last (h : s.IndexInv) : s.lastSnapshotIndex ≤ s.getLastLogIndex :=
  Int.le_trans h.snapshot_le (Int.le_trans h.applied_le h.commit_le)

/-- The last index counts the entries behind the snapshot. -/
lemma last_eq (h : s.IndexInv) : s.getLastLogIndex = s.lastSnapshotIndex + s.logs.length :=
  getLastLogIndex_of_aligned h.aligned

/-- An index that has a term is not above the last one. -/
lemma termAt_le_last (h : s.IndexInv) {term : ℕ} (hterm : s.termAt index = .ok term) :
    index ≤ s.getLastLogIndex := by
  have hlast := h.last_eq
  rw [Raft.termAt] at hterm
  split_ifs at hterm with heq
  · omega
  · cases hlog : s.logAt index with
    | error fault =>
      rw [hlog] at hterm
      cases hterm
    | ok e =>
      obtain ⟨-, hget⟩ := vecGet_eq_ok.mp hlog
      have hlt := (List.getElem?_eq_some_iff.mp hget).1
      omega

/-- The invariant from the length of the log. -/
lemma of_length (ha : Aligned s.lastSnapshotIndex s.logs) (h₁ : s.lastSnapshotIndex ≤ s.lastApplied)
    (h₂ : s.lastApplied ≤ s.commitIndex)
    (h₃ : s.commitIndex ≤ s.lastSnapshotIndex + s.logs.length) : s.IndexInv :=
  ⟨h₁, h₂, by rwa [getLastLogIndex_of_aligned ha], ha⟩

/-- The commit index is within the log. -/
lemma commit_le_length (h : s.IndexInv) : s.commitIndex ≤ s.lastSnapshotIndex + s.logs.length :=
  h.last_eq ▸ h.commit_le

/-! ### Clients, the apply loop and the leader -/

/-- `Start` keeps the invariant and the commit index. -/
lemma start (h : s.IndexInv) {command : Bytes} {e : LogEntry}
    (hs : s.start command = .ok (some (s', e))) :
    s'.IndexInv ∧ s.commitIndex ≤ s'.commitIndex := by
  obtain ⟨-, rfl, rfl⟩ := start_cases hs
  have hlen := h.commit_le_length
  refine ⟨of_length ?_ h.snapshot_le h.applied_le ?_, Int.le_refl _⟩
  · apply h.aligned.concat
    show s.getLastLogIndex + 1 = _
    rw [h.last_eq]
    omega
  · show s.commitIndex ≤ s.lastSnapshotIndex + (s.logs ++ [_]).length
    simp only [List.length_append, List.length_singleton]
    push_cast
    omega

/-- A failed write takes away a suffix that is not committed. -/
lemma onLogStable (h : s.IndexInv) (ok : Bool) (index : ℤ) :
    (s.onLogStable ok index).IndexInv ∧ s.commitIndex ≤ (s.onLogStable ok index).commitIndex := by
  cases ok with
  | true =>
    obtain heq | ⟨-, heq⟩ := onLogStable_cases s index
    · rw [heq]
      exact ⟨h, Int.le_refl _⟩
    · rw [heq]
      exact ⟨h.congr rfl rfl rfl rfl, Int.le_refl _⟩
  | false =>
    unfold Raft.onLogStable
    simp only [Bool.not_false, if_true]
    split_ifs with hidx hoff
    · obtain ⟨e, he, hlog⟩ := Option.map_eq_some_iff.mp hoff
      obtain ⟨hlt, -⟩ := List.getElem?_eq_some_iff.mp he
      refine ⟨of_length (h.aligned.take _) h.snapshot_le h.applied_le ?_, Int.le_refl _⟩
      show s.commitIndex ≤ s.lastSnapshotIndex + (s.logs.take _).length
      rw [List.length_take]
      omega
    · exact ⟨h, Int.le_refl _⟩
    · exact ⟨h, Int.le_refl _⟩

/-- Copying a range of the log reads no entry out of range. -/
lemma copyLogs (h : s.IndexInv) (start : ℤ) (count : ℕ) (hs : s.lastSnapshotIndex < start)
    (hc : start + count ≤ s.getLastLogIndex + 1) (hmax : start + count ≤ intMax) :
    ∃ msgs, s.copyLogs start count = .ok msgs := by
  induction count generalizing start with
  | zero => exact ⟨[], rfl⟩
  | succ count ih =>
    push_cast at hc hmax
    obtain ⟨e, he, -⟩ := logAt_of_aligned h.aligned start hs (by omega)
    obtain ⟨msgs, hmsgs⟩ := ih (start + 1) (by omega) (by omega) (by omega)
    refine ⟨{ CommandValid := true, Command := e.command, CommandIndex := start } :: msgs, ?_⟩
    have hlt : ¬ start ≥ intMax := by omega
    rw [Raft.copyLogs, he]
    simp only [bind, Except.bind, if_neg hlt, hmsgs]
    rfl

/-- The loop of `copyLogs` ends, and finds every entry, when `m_commitIndex` is not the last `int`. -/
lemma applierTicker_ok (h : s.IndexInv) (hmax : s.commitIndex < intMax) :
    ∃ s' msgs, s.applierTicker = .ok (s', msgs) := by
  have h₁ := h.snapshot_le
  have h₂ := h.applied_le
  have h₃ := h.commit_le
  obtain ⟨msgs, hmsgs⟩ := h.copyLogs (s.lastApplied + 1)
    (s.commitIndex - s.lastApplied).toNat (by omega) (by omega) (by omega)
  refine ⟨{ s with lastApplied := s.commitIndex }, msgs, ?_⟩
  rw [Raft.applierTicker, hmsgs]
  rfl

/-- `applierTicker` keeps the invariant and the commit index. -/
lemma applierTicker (h : s.IndexInv) {msgs : List ApplyMsg} (hs : s.applierTicker = .ok (s', msgs)) :
    s'.IndexInv ∧ s.commitIndex ≤ s'.commitIndex := by
  obtain ⟨rfl, -⟩ := applierTicker_cases hs
  exact ⟨of_length h.aligned (Int.le_trans h.snapshot_le h.applied_le) (Int.le_refl _)
    h.commit_le_length, Int.le_refl _⟩

/-- Looking for an entry to commit reads none out of range. -/
lemma advanceFrom (h : s.IndexInv) (count : ℕ) (hc : s.commitIndex + count ≤ s.getLastLogIndex) :
    ∃ s', s.advanceFrom count = .ok s' := by
  induction count with
  | zero => exact ⟨s, rfl⟩
  | succ count ih =>
    push_cast at hc
    have hlower := ih (by omega)
    rw [Raft.advanceFrom]
    split_ifs
    · have := h.snapshot_le
      have := h.applied_le
      obtain ⟨e, he, -⟩ := logAt_of_aligned h.aligned (s.commitIndex + (count + 1))
        (by omega) (by omega)
      simp only [he, bind, Except.bind]
      split_ifs
      · exact ⟨_, rfl⟩
      · exact hlower
    · exact hlower

/-- `advanceCommitIndex` succeeds, keeps the invariant and never lowers the commit index. -/
lemma advanceCommitIndex (h : s.IndexInv) : ∃ s', s.advanceCommitIndex = .ok s' ∧
    s'.IndexInv ∧ s.commitIndex ≤ s'.commitIndex := by
  have h₃ := h.commit_le
  obtain ⟨s', hs⟩ := h.advanceFrom
    (min s.getLastLogIndex s.stableLogIndex - s.commitIndex).toNat (by omega)
  refine ⟨s', hs, ?_⟩
  obtain rfl | ⟨index, e, rfl, hlt, -, -, he, -⟩ := advanceCommitIndex_cases hs
  · exact ⟨h, Int.le_refl _⟩
  · obtain ⟨-, hget⟩ := vecGet_eq_ok.mp he
    obtain ⟨hk, -⟩ := List.getElem?_eq_some_iff.mp hget
    have := h.snapshot_le
    have := h.applied_le
    refine ⟨of_length h.aligned h.snapshot_le ?_ ?_, Int.le_of_lt hlt⟩
    · show s.lastApplied ≤ index
      omega
    · show index ≤ s.lastSnapshotIndex + s.logs.length
      omega

/-! ### Snapshots -/

/-- What `Snapshot` keeps of the log is read in range. -/
lemma truncatedLogs (h : s.IndexInv) (start : ℤ) (count : ℕ) (hs : s.lastSnapshotIndex < start)
    (hc : start + count ≤ s.getLastLogIndex + 1) (hmax : start + count ≤ intMax) :
    ∃ logs, s.truncatedLogs start count = .ok logs ∧ logs.length = count := by
  induction count generalizing start with
  | zero =>
    have hle : ¬ start > intMax := by omega
    exact ⟨[], if_neg hle, rfl⟩
  | succ count ih =>
    push_cast at hc hmax
    obtain ⟨e, he, -⟩ := logAt_of_aligned h.aligned start hs (by omega)
    obtain ⟨logs, hlogs, hlen⟩ := ih (start + 1) (by omega) (by omega) (by omega)
    refine ⟨e :: logs, ?_, by simp [hlen]⟩
    rw [Raft.truncatedLogs, he]
    simp only [bind, Except.bind, hlogs]
    rfl

/-- `Snapshot` finds all the entries it copies, and passes its assertion, when the last index is not
the last `int`. -/
lemma snapshot_ok (h : s.IndexInv) (hmax : s.getLastLogIndex < intMax) (index : ℤ) (data : Bytes) :
    ∃ s', s.snapshot index data = .ok s' := by
  have h₁ := h.snapshot_le
  have h₂ := h.applied_le
  have h₃ := h.commit_le
  rw [Raft.snapshot]
  split_ifs with hguard
  · exact ⟨s, rfl⟩
  · push Not at hguard
    obtain ⟨e, he, -⟩ := logAt_of_aligned h.aligned index (by omega) (by omega)
    obtain ⟨logs, hlogs, hlen⟩ := h.truncatedLogs (index + 1) (s.getLastLogIndex - index).toNat
      (by omega) (by omega) (by omega)
    have hassert : (logs.length : ℤ) + index = s.getLastLogIndex := by omega
    simp only [he, hlogs, bind, Except.bind, if_pos hassert]
    exact ⟨_, rfl⟩

/-- `Snapshot` keeps the invariant and never lowers the commit index. -/
lemma snapshot (h : s.IndexInv) {data : Bytes} (hs : s.snapshot index data = .ok s') :
    s'.IndexInv ∧ s.commitIndex ≤ s'.commitIndex := by
  obtain rfl | ⟨hlt, hle, e, -, rfl⟩ := snapshot_cases hs
  · exact ⟨h, Int.le_refl _⟩
  · have h₃ := h.commit_le_length
    have hlast := h.last_eq
    refine ⟨of_length ((h.aligned.behind (Int.le_of_lt hlt)).take _) (Int.le_max_right _ _) ?_ ?_,
      Int.le_max_left _ _⟩
    · show max s.lastApplied index ≤ max s.commitIndex index
      have := h.applied_le
      omega
    · show max s.commitIndex index ≤
        index + (List.take _ (s.logs.drop (index - s.lastSnapshotIndex).toNat)).length
      rw [List.length_take, List.length_drop]
      omega

/-- Becoming a follower keeps the invariant. -/
lemma follow (h : s.IndexInv) (term : ℕ) : (s.follow term).IndexInv := by
  rw [Raft.follow, catchUp]
  split_ifs
  · exact h.congr rfl rfl rfl rfl
  · exact h.congr rfl rfl rfl rfl

/-- Taking over a newer snapshot keeps the invariant. -/
lemma installed (h : s.IndexInv) {args : InstallSnapshotRequest}
    (hlt : s.lastSnapshotIndex < args.lastsnapshotincludeindex) : (s.installed args).IndexInv := by
  have h₂ := h.applied_le
  have h₃ := h.commit_le_length
  have hlast := h.last_eq
  generalize hidx : args.lastsnapshotincludeindex = index at hlt
  have hlogs : (s.installed args).logs = s.keptLogs index := by rw [← hidx]; rfl
  have hsnap : (s.installed args).lastSnapshotIndex = index := hidx
  have happlied : (s.installed args).lastApplied = max s.lastApplied index := by rw [← hidx]; rfl
  have hcommit : (s.installed args).commitIndex = max s.commitIndex index := by rw [← hidx]; rfl
  apply of_length
  · rw [hsnap, hlogs]
    exact aligned_keptLogs h.aligned (Int.le_of_lt hlt)
  · rw [hsnap, happlied]
    exact Int.le_max_right _ _
  · rw [happlied, hcommit]
    omega
  · rw [hcommit, hsnap, hlogs, length_keptLogs h.aligned (Int.le_of_lt hlt)]
    omega

/-- `InstallSnapshot` always replies. -/
lemma installSnapshot_ok (h : s.IndexInv) (args : InstallSnapshotRequest) :
    ∃ s' reply, s.installSnapshot args = .ok (s', reply) := by
  have hf := h.follow args.term
  have hlast := hf.last_eq
  unfold Raft.installSnapshot
  by_cases hterm : args.term < s.currentTerm
  · exact ⟨_, _, if_pos hterm⟩
  · rw [if_neg hterm]
    by_cases hle : args.lastsnapshotincludeindex ≤ (s.follow args.term).lastSnapshotIndex
    · exact ⟨_, _, if_pos hle⟩
    · have haccept : ∃ s', (s.follow args.term).installAccepted args = .ok s' := by
        rw [installAccepted]
        split_ifs with hkeep hlen
        · exact ⟨_, rfl⟩
        · omega
        · exact ⟨_, rfl⟩
      obtain ⟨s', hs'⟩ := haccept
      refine ⟨s', { term := s'.currentTerm }, (if_neg hle).trans ?_⟩
      show (Raft.installAccepted (s.follow args.term) args >>= fun s' =>
        pure (s', ({ term := s'.currentTerm } : InstallSnapshotResponse))) = _
      rw [hs']
      rfl

/-- `InstallSnapshot` keeps the invariant and never lowers the commit index. -/
lemma installSnapshot (h : s.IndexInv) {args : InstallSnapshotRequest}
    {reply : InstallSnapshotResponse} (hs : s.installSnapshot args = .ok (s', reply)) :
    s'.IndexInv ∧ s.commitIndex ≤ s'.commitIndex := by
  have hfollow : (s.follow args.term).commitIndex = s.commitIndex := by
    rw [Raft.follow, catchUp]
    split_ifs <;> rfl
  have hsnap : (s.follow args.term).lastSnapshotIndex = s.lastSnapshotIndex := by
    rw [Raft.follow, catchUp]
    split_ifs <;> rfl
  obtain ⟨-, rfl⟩ | ⟨-, rfl⟩ | ⟨-, hlt, rfl⟩ := installSnapshot_cases hs
  · exact ⟨h, Int.le_refl _⟩
  · exact ⟨h.follow _, hfollow ▸ Int.le_refl _⟩
  · refine ⟨((h.follow args.term).installed (hsnap ▸ hlt)).congr rfl rfl rfl rfl, ?_⟩
    rw [← hfollow]
    exact Int.le_max_left _ _

/-! ### The follower's log -/

/-- The loop over the entries of a request finds those it compares them with. -/
lemma pendingWrites (h : s.IndexInv) {entries : List LogEntry} {fault : Fault}
    (hs : s.pendingWrites s.getLastLogIndex entries = .error fault) : fault = .exit := by
  induction entries with
  | nil => cases hs
  | cons log rest ih =>
    rw [Raft.pendingWrites] at hs
    split_ifs at hs with hsnap hlast
    · exact ih hs
    · obtain hs | ⟨writes, -, hs⟩ := bind_eq_error.mp hs
      · exact ih hs
      · cases hs
    · obtain ⟨old, hold, -⟩ := logAt_of_aligned h.aligned log.logindex (by omega) (by omega)
      simp only [hold, bind, Except.bind] at hs
      split_ifs at hs
      · exact (Except.error.inj hs).symm
      · obtain hs | ⟨writes, -, hs⟩ := bind_eq_error.mp hs
        · exact ih hs
        · cases hs
      · exact ih hs

/-- The loop back to the first entry of a conflicting term reads in range. -/
lemma conflictIndex (h : s.IndexInv) (prevTerm : ℕ) (k : ℕ)
    (hk : s.lastSnapshotIndex + k ≤ s.getLastLogIndex) :
    ∃ hint, s.conflictIndex prevTerm k = .ok hint := by
  induction k with
  | zero => exact ⟨_, rfl⟩
  | succ k ih =>
    push_cast at hk
    obtain ⟨term, hterm⟩ := termAt_of_aligned h.aligned (s.lastSnapshotIndex + (k + 1))
      (by omega) (by omega)
    simp only [Raft.conflictIndex, hterm, bind, Except.bind]
    split_ifs
    · exact ⟨_, rfl⟩
    · exact ih (by omega)

/-- Accepting a term keeps the invariant. -/
lemma acceptTerm (h : s.IndexInv) (term : ℕ) : (s.acceptTerm term).IndexInv := by
  rw [acceptTerm_eq]
  exact h.congr rfl rfl rfl rfl

/-- The first part of `AppendEntries` finds all the entries it looks at. -/
lemma appendEntries_fault (h : s.IndexInv) {request : AppendEntriesArgs} {fault : Fault}
    (hs : s.appendEntries request = .error fault) : fault = .exit := by
  have hacc := h.acceptTerm request.term
  rw [Raft.appendEntries] at hs
  split_ifs at hs with hterm
  · exact absurd hs pure_ne_error
  · simp only at hs
    split_ifs at hs with hlast hsnap
    · exact absurd hs pure_ne_error
    · exact absurd hs pure_ne_error
    · obtain ⟨term, hprev⟩ := termAt_of_aligned hacc.aligned request.prevlogindex
        (Int.not_lt.mp hsnap) (Int.not_lt.mp hlast)
      simp only [hprev, bind, Except.bind] at hs
      split_ifs at hs
      · obtain hs | ⟨writes, -, hs⟩ := bind_eq_error.mp hs
        · exact hacc.pendingWrites hs
        · cases hs
      · obtain ⟨hint, hhint⟩ := hacc.conflictIndex term
          (request.prevlogindex - (s.acceptTerm request.term).lastSnapshotIndex).toNat (by omega)
        rw [acceptTerm_lastSnapshotIndex] at hhint
        simp [hhint, pure, Except.pure] at hs

/-- The first locked part of `AppendEntries` keeps the invariant and the commit index. -/
lemma appendEntries (h : s.IndexInv) {request : AppendEntriesArgs} {phase : AppendPhase}
    (hs : s.appendEntries request = .ok (s', phase)) :
    s'.IndexInv ∧ s.commitIndex ≤ s'.commitIndex := by
  have hcommit := s.acceptTerm_commitIndex request.term
  have hacc := h.acceptTerm request.term
  obtain ⟨-, rfl, -⟩ | ⟨-, rfl, -⟩ | ⟨-, rfl, -⟩ := appendEntries_cases hs
  · exact ⟨h, Int.le_refl _⟩
  · exact ⟨hacc.congr rfl rfl rfl rfl, hcommit ▸ Int.le_refl _⟩
  · exact ⟨hacc, hcommit ▸ Int.le_refl _⟩

end IndexInv

/-- `applyPending`, with the access to `m_logs` checked. -/
def applyPendingIn (s : Raft) (logs : List LogEntry) (item : PendingLogWrite) :
    Except Fault (List LogEntry) :=
  if item.log.logindex ≤ s.lastSnapshotIndex then .ok logs
  else if item.append then .ok (logs ++ [item.log])
  else if item.vecIndex < 0 ∨ item.vecIndex ≥ logs.length then .error .outOfRange
  else .ok (logs.set item.vecIndex.toNat item.log)

/-- Writes that pass the check, whatever they are, hit their places, and the log only gets longer. -/
lemma foldl_applyPending (h : Aligned s.lastSnapshotIndex s.logs)
    {pending : List PendingLogWrite} {logs : List LogEntry}
    (halign : Aligned s.lastSnapshotIndex logs) (hlen : s.logs.length ≤ logs.length)
    (hcheck : s.checkPending (s.lastSnapshotIndex + logs.length) pending = none) :
    pending.foldlM s.applyPendingIn logs = .ok (pending.foldl s.applyPending logs) ∧
      Aligned s.lastSnapshotIndex (pending.foldl s.applyPending logs) ∧
      s.logs.length ≤ (pending.foldl s.applyPending logs).length := by
  induction pending generalizing logs with
  | nil => exact ⟨rfl, halign, hlen⟩
  | cons item rest ih =>
    rw [checkPending] at hcheck
    rw [List.foldlM_cons, List.foldl_cons, applyPendingIn, applyPending]
    split_ifs at hcheck with hsnap happend hnext hrange hplace
    · rw [if_pos hsnap, if_pos hsnap]
      exact ih halign hlen hcheck
    · rw [if_neg hsnap, if_neg hsnap, if_pos happend, if_pos happend]
      have hnext' := not_not.mp hnext
      refine ih (halign.concat (by omega)) (by simp; omega) ?_
      rw [List.length_append, List.length_singleton]
      rw [hnext'] at hcheck
      push_cast
      rw [← Int.add_assoc]
      exact hcheck
    · -- the place in the log at hand is the one that was checked
      obtain ⟨old, hold, hidx⟩ := Option.map_eq_some_iff.mp (not_not.mp hplace)
      have hlt : item.vecIndex.toNat < logs.length := by omega
      have hplace' := h _ _ hold
      have hhere := halign _ _ (List.getElem?_eq_getElem hlt)
      rw [if_neg hsnap, if_neg hsnap, if_neg happend, if_neg happend, if_neg (by omega)]
      refine ih (halign.set (List.getElem?_eq_getElem hlt) (by omega)) (by simpa using hlen) ?_
      rw [List.length_set]
      exact hcheck

namespace IndexInv

/-- The last part of `AppendEntries` passes its assertion. -/
lemma applyEntries (h : s.IndexInv) (request : AppendEntriesArgs) {pending : List PendingLogWrite}
    (hcheck : s.checkPending s.getLastLogIndex pending = none) :
    ∃ s' reply, s.applyEntries request pending = .ok (s', reply) ∧ s'.IndexInv ∧
      s.commitIndex ≤ s'.commitIndex := by
  rw [h.last_eq] at hcheck
  obtain ⟨-, halign, hlen⟩ := foldl_applyPending h.aligned h.aligned le_rfl hcheck
  have hlast : { s with logs := pending.foldl s.applyPending s.logs }.getLastLogIndex =
      s.lastSnapshotIndex + (pending.foldl s.applyPending s.logs).length :=
    getLastLogIndex_of_aligned halign
  have hcommit := h.commit_le_length
  have happlied := h.applied_le
  unfold Raft.applyEntries
  simp only [hlast]
  split_ifs with hleader hassert hassert
  · refine ⟨_, _, rfl, of_length halign h.snapshot_le ?_ hassert, ?_⟩
    · show s.lastApplied ≤ min request.leadercommit _
      omega
    · show s.commitIndex ≤ min request.leadercommit _
      omega
  · exact absurd (Int.min_le_right _ _) hassert
  · exact ⟨_, _, rfl, of_length halign h.snapshot_le happlied hassert, Int.le_refl _⟩
  · refine absurd ?_ hassert
    show s.commitIndex ≤ s.lastSnapshotIndex + (pending.foldl s.applyPending s.logs).length
    omega

/-- The second part of `AppendEntries` when nothing happened since the first. -/
lemma appendEntriesStable_eq (h : s.IndexInv) {request : AppendEntriesArgs}
    {pending : List PendingLogWrite} (hterm : s.currentTerm = request.term)
    (hsnap : s.lastSnapshotIndex ≤ request.prevlogindex)
    (hprev : s.termAt request.prevlogindex = .ok request.prevlogterm)
    (hcheck : s.checkPending s.getLastLogIndex pending = none) :
    s.appendEntriesStable request pending true = s.applyEntries request pending := by
  have hlast := h.termAt_le_last hprev
  unfold Raft.appendEntriesStable
  simp only [hprev, hcheck, ne_eq, not_true_eq_false, if_false, hterm, Bool.not_true,
    Bool.false_eq_true, or_self]
  rw [if_neg (Int.not_lt.mpr hlast), if_neg (Int.not_lt.mpr hsnap)]

/-- The second part of `AppendEntries`, whatever writes it is left with. -/
lemma appendEntriesStable (h : s.IndexInv) (request : AppendEntriesArgs)
    (pending : List PendingLogWrite) (stable : Bool) :
    ∃ s' reply, s.appendEntriesStable request pending stable = .ok (s', reply) ∧ s'.IndexInv ∧
      s.commitIndex ≤ s'.commitIndex := by
  have hreject : ∀ hint, ∃ s' reply,
      (pure (s.persistState, s.rejected hint) : Except Fault (Raft × AppendEntriesReply)) =
        .ok (s', reply) ∧ s'.IndexInv ∧ s.commitIndex ≤ s'.commitIndex := fun hint =>
    ⟨_, _, rfl, h.congr rfl rfl rfl rfl, Int.le_refl _⟩
  unfold Raft.appendEntriesStable
  simp only
  split_ifs
  · exact hreject _
  · exact hreject _
  · exact hreject _
  · cases s.termAt request.prevlogindex with
    | error e => exact hreject _
    | ok term =>
      simp only
      split_ifs
      · exact hreject _
      · cases hcheck : s.checkPending s.getLastLogIndex pending with
        | some hint => exact hreject _
        | none => exact h.applyEntries request hcheck

end IndexInv

/-! ### Steps -/

/-- The steps of a running node that move the log or the indices. -/
inductive NodeAction where
  | start (command : Bytes)
  | onLogStable (ok : Bool) (logIndex : ℤ)
  | appendEntries (request : AppendEntriesArgs)
  | appendEntriesStable (request : AppendEntriesArgs) (pending : List PendingLogWrite)
    (stable : Bool)
  | installSnapshot (args : InstallSnapshotRequest)
  | snapshot (index : ℤ) (data : Bytes)
  | advanceCommitIndex
  | applierTicker

/-- One step. -/
def act (s : Raft) : NodeAction → Except Fault Raft
  | .start command => do
    match ← s.start command with
    | none => return s
    | some (s', _) => return s'
  | .onLogStable ok logIndex => return s.onLogStable ok logIndex
  | .appendEntries request => do return (← s.appendEntries request).1
  | .appendEntriesStable request pending stable => do
    return (← s.appendEntriesStable request pending stable).1
  | .installSnapshot args => do return (← s.installSnapshot args).1
  | .snapshot index data => s.snapshot index data
  | .advanceCommitIndex => s.advanceCommitIndex
  | .applierTicker => do return (← s.applierTicker).1

/-- Steps one after the other. -/
inductive Acts (s : Raft) : Raft → Prop where
  | refl : Acts s s
  | step {t u : Raft} {a : NodeAction} : Acts s t → t.act a = .ok u → Acts s u

/-- The steps that count up to the last index. -/
def NodeAction.CountsUp : NodeAction → Prop
  | .start _ | .snapshot _ _ | .applierTicker => True
  | _ => False

/-- The offsets into `m_logs` are not below zero, and a step that counts up to the last index can count
past it. -/
structure InRange (s : Raft) (a : NodeAction) : Prop where
  snapshot_nonneg : 0 ≤ s.lastSnapshotIndex
  last_lt : a.CountsUp → s.getLastLogIndex < intMax

/-- A step in range finds all places it reads and writes, passes its assertions, and takes no index past
`INT_MAX`: what is left is the `exit(-1)` of `AppendEntries`. -/
lemma IndexInv.act_fault (h : s.IndexInv) {a : NodeAction} (hrange : s.InRange a) {fault : Fault}
    (hs : s.act a = .error fault) : fault = .exit := by
  cases a with
  | start command =>
    obtain ⟨x, hstart⟩ : ∃ x, s.start command = .ok x := by
      rw [Raft.start, if_neg (Int.not_le.mpr (hrange.last_lt trivial))]
      split_ifs
      · exact ⟨_, rfl⟩
      · exact ⟨_, rfl⟩
    obtain hs | ⟨x, -, hs⟩ := bind_eq_error.mp hs
    · rw [hstart] at hs
      cases hs
    · cases x with
      | none => exact absurd hs pure_ne_error
      | some x => exact absurd hs pure_ne_error
  | onLogStable ok logIndex => exact absurd hs pure_ne_error
  | appendEntries request =>
    obtain hs | ⟨p, -, hs⟩ := bind_eq_error.mp hs
    · exact h.appendEntries_fault hs
    · exact absurd hs pure_ne_error
  | appendEntriesStable request pending stable =>
    obtain ⟨s', reply, hstable, -⟩ := h.appendEntriesStable request pending stable
    simp [act, hstable, bind, Except.bind, pure, Except.pure] at hs
  | installSnapshot args =>
    obtain ⟨s', reply, hinstall⟩ := h.installSnapshot_ok args
    simp [act, hinstall, bind, Except.bind, pure, Except.pure] at hs
  | snapshot index data =>
    obtain ⟨s', hsnapshot⟩ := h.snapshot_ok (hrange.last_lt trivial) index data
    simp [act, hsnapshot] at hs
  | advanceCommitIndex =>
    obtain ⟨s', hadvance, -⟩ := h.advanceCommitIndex
    simp [act, hadvance] at hs
  | applierTicker =>
    obtain ⟨s', msgs, hticker⟩ :=
      h.applierTicker_ok (Int.lt_of_le_of_lt h.commit_le (hrange.last_lt trivial))
    simp [act, hticker, bind, Except.bind, pure, Except.pure] at hs

/-- Every step keeps the invariant, and `m_commitIndex` never decreases. -/
lemma IndexInv.act (h : s.IndexInv) {a : NodeAction} (hs : s.act a = .ok s') :
    s'.IndexInv ∧ s.commitIndex ≤ s'.commitIndex := by
  cases a with
  | start command =>
    obtain ⟨x, hstart, hs⟩ := bind_eq_ok.mp hs
    cases x with
    | none =>
      obtain rfl := pure_eq_ok.mp hs
      exact ⟨h, Int.le_refl _⟩
    | some p =>
      obtain rfl := pure_eq_ok.mp hs
      exact h.start hstart
  | onLogStable ok logIndex =>
    obtain rfl := pure_eq_ok.mp hs
    exact h.onLogStable ok logIndex
  | appendEntries request =>
    obtain ⟨p, hp, hs⟩ := bind_eq_ok.mp hs
    obtain rfl := pure_eq_ok.mp hs
    exact h.appendEntries hp
  | appendEntriesStable request pending stable =>
    obtain ⟨p, hp, hs⟩ := bind_eq_ok.mp hs
    obtain rfl := pure_eq_ok.mp hs
    obtain ⟨t, reply, ht, hinv⟩ := h.appendEntriesStable request pending stable
    obtain rfl := Except.ok.inj (hp.symm.trans ht)
    exact hinv
  | installSnapshot args =>
    obtain ⟨p, hp, hs⟩ := bind_eq_ok.mp hs
    obtain rfl := pure_eq_ok.mp hs
    exact h.installSnapshot hp
  | snapshot index data => exact h.snapshot hs
  | advanceCommitIndex =>
    obtain ⟨t, ht, hinv⟩ := h.advanceCommitIndex
    obtain rfl := Except.ok.inj ((show s.advanceCommitIndex = .ok s' from hs).symm.trans ht)
    exact hinv
  | applierTicker =>
    obtain ⟨p, hp, hs⟩ := bind_eq_ok.mp hs
    obtain rfl := pure_eq_ok.mp hs
    exact h.applierTicker hp

/-- A run of a node keeps the invariant and never takes `m_commitIndex` back. -/
theorem Acts.indexInv (h : s.Acts s') (hinv : s.IndexInv) :
    s'.IndexInv ∧ s.commitIndex ≤ s'.commitIndex := by
  induction h with
  | refl => exact ⟨hinv, Int.le_refl _⟩
  | step _ hs ih =>
    obtain ⟨hmid, hle⟩ := ih
    obtain ⟨hlast, hle'⟩ := hmid.act hs
    exact ⟨hlast, Int.le_trans hle hle'⟩

/-- From every state with the invariant every step in range, unless it is an `AppendEntries` that ends
the process, finds the places it reads and writes, keeps the invariant, and does not take
`m_commitIndex` back. -/
theorem indexInv_step (h : s.IndexInv) {a : NodeAction} (hrange : s.InRange a) :
    (∀ fault, s.act a = .error fault → fault = .exit) ∧
      (∀ s', s.act a = .ok s' → s'.IndexInv ∧ s.commitIndex ≤ s'.commitIndex) ∧
      ∀ pending, s.checkPending s.getLastLogIndex pending = none →
        pending.foldlM s.applyPendingIn s.logs = .ok (pending.foldl s.applyPending s.logs) := by
  refine ⟨fun fault hs => h.act_fault hrange hs, fun s' hs => h.act hs, fun pending hcheck => ?_⟩
  rw [h.last_eq] at hcheck
  exact (foldl_applyPending h.aligned h.aligned le_rfl hcheck).1

/-- A node that starts with no state satisfies the invariant. -/
lemma indexInv_init (id peers : ℕ) : (Raft.init id peers {} [] []).IndexInv :=
  .of_length .nil (Int.le_refl _) (Int.le_refl _) (Int.le_refl _)

/-- A node applies its first entry. -/
theorem indexInv_step_init :
    let s := { Raft.init 0 3 {} [] [⟨[5], 1, 1⟩] with commitIndex := 1 }
    (∀ fault, s.act .applierTicker = .error fault → fault = .exit) ∧
      (∀ s', s.act .applierTicker = .ok s' → s'.IndexInv ∧ s.commitIndex ≤ s'.commitIndex) ∧
      ∀ pending, s.checkPending s.getLastLogIndex pending = none →
        pending.foldlM s.applyPendingIn s.logs = .ok (pending.foldl s.applyPending s.logs) :=
  indexInv_step
    (.of_length (Aligned.concat .nil rfl : Aligned 0 ([] ++ [⟨[5], 1, 1⟩])) (by decide) (by decide)
      (by decide))
    ⟨Int.le_refl 0, fun _ => by decide⟩

/-- A snapshot up to the last index but one of an `int`, and the last entry, committed: the loop of
`copyLogs` does not end at it. -/
theorem exists_outOfRange : ∃ s, (Raft.init 0 3 {} [] []).Acts s ∧ s.IndexInv ∧
    s.act .applierTicker = .error .outOfRange := by
  let entry : LogEntry := ⟨[5], 1, 2147483647⟩
  let request : AppendEntriesArgs := ⟨1, 1, 2147483646, 1, [entry], 2147483647⟩
  obtain ⟨s, hs, hfault⟩ : ∃ s, (Raft.init 0 3 {} [] []).Acts s ∧
      s.act .applierTicker = .error .outOfRange :=
    ⟨_, .step (.step (.step .refl
      (show (Raft.init 0 3 {} [] []).act (.installSnapshot ⟨1, 1, 2147483646, 1, []⟩) = .ok _ from rfl))
      (show Raft.act _ (.appendEntries request) = .ok _ from rfl))
      (show Raft.act _ (.appendEntriesStable request [⟨-1, true, entry⟩] true) = .ok _ from rfl), rfl⟩
  exact ⟨s, hs, (hs.indexInv (indexInv_init 0 3)).1, hfault⟩

end Raft

end KVCacheRaft
