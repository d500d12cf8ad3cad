import KVCacheRaft.Raft.Calls
import KVCacheRaft.Raft.Indices

/-!
# The requests of a leader

`doHeartBeat` builds its requests from `m_nextIndex` and `m_stableLogIndex`, and asserts that they fit
together. They do when every `m_nextIndex` is at most one above the stable index. Replies keep that,
but for two ways out: a node that is elected while a part of its log is not stable yet, and a hint
from a follower with a longer log.
-/

namespace KVCacheRaft

/-- The entries up to `m`, of a log whose entries are at their places. -/
lemma Aligned.length_takeWhile {snap m : ℤ} {logs : List LogEntry} (h : Aligned snap logs)
    (hle : m ≤ snap + logs.length) (hge : snap ≤ m) :
    (logs.takeWhile (·.logindex ≤ m)).length = m - snap := by
  induction logs generalizing snap with
  | nil =>
    have hle' : m ≤ snap + (0 : ℕ) := hle
    show ((0 : ℕ) : ℤ) = m - snap
    omega
  | cons e logs ih =>
    have he : e.logindex = snap + 1 := by simpa using h 0 e rfl
    have hrest : Aligned (snap + 1) logs := by simpa using h.drop 1
    rw [List.length_cons] at hle
    push_cast at hle
    rw [List.takeWhile_cons]
    by_cases hm : e.logindex ≤ m
    · have := ih hrest (by omega) (by omega)
      simp only [hm, decide_true, if_true, List.length_cons]
      push_cast
      omega
    · simp only [hm, decide_false, Bool.false_eq_true, if_false]
      show ((0 : ℕ) : ℤ) = m - snap
      omega

namespace Raft

variable {s s' : Raft}

/-! ### One round -/

/-- The next entry for a peer is at most one above the stable index. -/
def NextFits (s : Raft) (i : ℕ) : Prop := 1 ≤ s.nextIndex i ∧ s.nextIndex i ≤ s.stableLogIndex + 1

/-- For such a peer the assertions pass, and the request begins at its next index. -/
lemma heartBeatPeer_ok (h : s.IndexInv) (hstable : s.stableLogIndex ≤ s.getLastLogIndex) {i : ℕ}
    (hi : s.NextFits i) : ∃ request, s.heartBeatPeer i = .ok (s, request) ∧
      (request = none ∧ s.nextIndex i ≤ s.lastSnapshotIndex ∨
        ∃ args, request = some args ∧ s.lastSnapshotIndex < s.nextIndex i ∧
          args.prevlogindex = s.nextIndex i - 1) := by
  have hlast := h.last_eq
  have hpos : ¬ s.nextIndex i < 1 := Int.not_lt.mpr hi.1
  have hle := hi.2
  rw [heartBeatPeer, if_neg hpos]
  split_ifs with hsnap
  · exact ⟨none, rfl, .inl ⟨rfl, hsnap⟩⟩
  · rw [Int.not_le] at hsnap
    have hprev : ∃ term, s.getPrevLogInfo i = .ok (s.nextIndex i - 1, term) := by
      rw [getPrevLogInfo]
      split_ifs with heq
      · exact ⟨s.lastSnapshotTerm, by rw [heq]; simp [pure, Except.pure]⟩
      · obtain ⟨e, he, -⟩ := logAt_of_aligned h.aligned (s.nextIndex i - 1) (by omega) (by omega)
        exact ⟨e.logterm, by simp only [he]; rfl⟩
    obtain ⟨term, hterm⟩ := hprev
    have hnot : ¬ s.nextIndex i - 1 > s.stableLogIndex := by omega
    simp only [hterm, bind, Except.bind, if_neg hnot, pure, Except.pure]
    by_cases heq : s.nextIndex i - 1 = s.lastSnapshotIndex
    · have hlen := h.aligned.length_takeWhile (m := s.stableLogIndex) (by omega) (by omega)
      rw [if_neg (not_not.mpr heq), if_pos (by omega)]
      exact ⟨_, rfl, .inr ⟨_, rfl, hsnap, rfl⟩⟩
    · have hdrop := h.aligned.drop (s.nextIndex i - 1 - s.lastSnapshotIndex).toNat
      have hlen := hdrop.length_takeWhile (m := s.stableLogIndex)
        (by rw [List.length_drop]; omega) (by omega)
      rw [if_pos heq, if_pos (by omega), if_pos (by omega)]
      exact ⟨_, rfl, .inr ⟨_, rfl, hsnap, rfl⟩⟩

/-- Heartbeats succeed if every next index is within the log. -/
lemma heartBeatPeers_ok (h : s.IndexInv) (hstable : s.stableLogIndex ≤ s.getLastLogIndex)
    {peers : List ℕ} (hpeers : ∀ i ∈ peers, s.NextFits i) :
    ∃ requests snapshots, s.heartBeatPeers peers = .ok (s, requests, snapshots) := by
  induction peers with
  | nil => exact ⟨[], [], rfl⟩
  | cons i peers ih =>
    obtain ⟨request, hrequest, -⟩ := heartBeatPeer_ok h hstable (hpeers i List.mem_cons_self)
    obtain ⟨requests, snapshots, hrest⟩ := ih fun j hj => hpeers j (List.mem_cons_of_mem _ hj)
    simp only [heartBeatPeers, hrequest, hrest, bind, Except.bind]
    cases request with
    | none => exact ⟨_, _, rfl⟩
    | some args => exact ⟨_, _, rfl⟩

/-- A request of `doHeartBeat`: the term at its previous index, and the entries from there up to the
stable index. -/
structure WellFormedRequest (s : Raft) (args : AppendEntriesArgs) : Prop where
  prev : s.termAt args.prevlogindex = .ok args.prevlogterm
  length : (args.entries.length : ℤ) = s.stableLogIndex - args.prevlogindex
  entries : ∀ (k : ℕ) (e : LogEntry), args.entries[k]? = some e →
    e.logindex = args.prevlogindex + 1 + k ∧ s.logAt (args.prevlogindex + 1 + k) = .ok e

/-- What a heartbeat sends is well formed. -/
lemma HeartBeat.wellFormed {args : AppendEntriesArgs} (hb : s.HeartBeat args) (h : s.IndexInv) :
    s.WellFormedRequest args where
  prev := hb.prev
  length := by
    have := hb.length
    omega
  entries k e hk := by
    have hle := hb.snapshot_le
    obtain ⟨rest, hrest⟩ := hb.entries
    have hget : s.logs[(args.prevlogindex - s.lastSnapshotIndex).toNat + k]? = some e := by
      rw [← List.getElem?_drop, ← hrest]
      exact List.getElem?_append_left (List.getElem?_eq_some_iff.mp hk).1 ▸ hk
    refine ⟨?_, vecGet_eq_ok.mpr ⟨by omega, ?_⟩⟩
    · have := h.aligned _ _ hget
      push_cast at this
      omega
    · rw [← hget]
      congr 1
      omega

/-! ### Steps besides the replies -/

/-- The stable index between the snapshot and the last index. -/
structure Bounded (s : Raft) : Prop where
  index : s.IndexInv
  snapshot_nonneg : 0 ≤ s.lastSnapshotIndex
  snapshot_le : s.lastSnapshotIndex ≤ s.stableLogIndex
  stable_le : s.stableLogIndex ≤ s.getLastLogIndex

/-- A step that lets the indices grow and leaves what is known of the peers. -/
structure Grows (s s' : Raft) : Prop where
  bounded : s'.Bounded
  snapshot : s.lastSnapshotIndex ≤ s'.lastSnapshotIndex
  stable : s.stableLogIndex ≤ s'.stableLogIndex
  last : s.getLastLogIndex ≤ s'.getLastLogIndex
  nextIndex : s'.nextIndex = s.nextIndex
  matchIndex : s'.matchIndex = s.matchIndex
  others : s'.others = s.others
  leader : s'.state = .leader → s.state = .leader

/-- A step that does not touch the log. -/
lemma Bounded.keep (h : s.Bounded) (hindex : s'.IndexInv) (hlogs : s'.logs = s.logs)
    (hsnap : s'.lastSnapshotIndex = s.lastSnapshotIndex)
    (hstable : s'.stableLogIndex = s.stableLogIndex) (hnext : s'.nextIndex = s.nextIndex)
    (hmatch : s'.matchIndex = s.matchIndex) (hid : s'.id = s.id) (hpeers : s'.peers = s.peers)
    (hleader : s'.state = .leader → s.state = .leader) : s.Grows s' := by
  have hlast : s'.getLastLogIndex = s.getLastLogIndex := by
    rw [getLastLogIndex, getLastLogIndex, hlogs, hsnap]
  exact {
    bounded := ⟨hindex, hsnap ▸ h.snapshot_nonneg, by rw [hsnap, hstable]; exact h.snapshot_le,
      by rw [hstable, hlast]; exact h.stable_le⟩
    snapshot := hsnap ▸ Int.le_refl _
    stable := hstable ▸ Int.le_refl _
    last := hlast ▸ Int.le_refl _
    nextIndex := hnext
    matchIndex := hmatch
    others := by rw [Raft.others, Raft.others, hid, hpeers]
    leader := hleader }

/-- A bounded node may stay as it is. -/
lemma Bounded.refl (h : s.Bounded) : s.Grows s :=
  h.keep h.index rfl rfl rfl rfl rfl rfl rfl fun hl => hl

/-- Fields that the invariant does not look at. -/
lemma Grows.touch {t : Raft} (h : s.Grows t) (hlogs : s'.logs = t.logs)
    (hsnap : s'.lastSnapshotIndex = t.lastSnapshotIndex) (happlied : s'.lastApplied = t.lastApplied)
    (hcommit : s'.commitIndex = t.commitIndex) (hstable : s'.stableLogIndex = t.stableLogIndex)
    (hnext : s'.nextIndex = t.nextIndex) (hmatch : s'.matchIndex = t.matchIndex) (hid : s'.id = t.id)
    (hpeers : s'.peers = t.peers) (hleader : s'.state = .leader → t.state = .leader) : s.Grows s' := by
  have hlast : s'.getLastLogIndex = t.getLastLogIndex := by
    rw [getLastLogIndex, getLastLogIndex, hlogs, hsnap]
  have hb := h.bounded
  exact {
    bounded := ⟨hb.index.congr hlogs hsnap happlied hcommit, hsnap ▸ hb.snapshot_nonneg,
      by rw [hsnap, hstable]; exact hb.snapshot_le, by rw [hstable, hlast]; exact hb.stable_le⟩
    snapshot := hsnap ▸ h.snapshot
    stable := hstable ▸ h.stable
    last := hlast ▸ h.last
    nextIndex := hnext.trans h.nextIndex
    matchIndex := hmatch.trans h.matchIndex
    others := by rw [← h.others, Raft.others, Raft.others, hid, hpeers]
    leader := fun hl => h.leader (hleader hl) }

/-- Catching up with a term leaves the log. -/
lemma Bounded.catchUp (h : s.Bounded) (term : ℕ) : s.Grows (s.catchUp term) := by
  rw [Raft.catchUp]
  split_ifs
  · exact h.refl.touch rfl rfl rfl rfl rfl rfl rfl rfl rfl fun hl => by cases hl
  · exact h.refl

/-- Accepting a term leaves the log. -/
lemma Bounded.acceptTerm (h : s.Bounded) (term : ℕ) : s.Grows (s.acceptTerm term) := by
  rw [acceptTerm_eq]
  exact h.refl.touch rfl rfl rfl rfl rfl rfl rfl rfl rfl fun hl => by cases hl

/-- Storing the state leaves the log. -/
lemma Grows.persistState {t : Raft} (h : s.Grows t) : s.Grows t.persistState :=
  h.touch rfl rfl rfl rfl rfl rfl rfl rfl rfl fun hl => hl

/-- `RequestVote` leaves the log. -/
lemma Bounded.requestVote (h : s.Bounded) (request : RequestVoteArgs) :
    s.Grows (s.requestVote request).1 := by
  have hc := h.catchUp request.term
  obtain ⟨-, heq, -⟩ | ⟨-, heq | heq, -⟩ | ⟨-, -, -, heq, -⟩ := s.requestVote_cases request
  · rw [heq]
    exact h.refl
  · rw [heq]
    exact hc
  · rw [heq]
    exact hc.persistState
  · rw [heq]
    exact hc.touch rfl rfl rfl rfl rfl rfl rfl rfl rfl fun hl => hl

/-- An election leaves the log. -/
lemma Bounded.doElection (h : s.Bounded) {requests : List (ℕ × RequestVoteArgs)}
    (hs : s.doElection = some (s', requests)) : s.Grows s' := by
  obtain ⟨-, rfl, -⟩ := doElection_cases hs
  exact h.refl.touch rfl rfl rfl rfl rfl rfl rfl rfl rfl fun hl => by cases hl

/-- A log that grows behind the same snapshot has a greater last index. -/
lemma IndexInv.last_le (h : s.IndexInv) (h' : s'.IndexInv)
    (hsnap : s'.lastSnapshotIndex = s.lastSnapshotIndex) (hlen : s.logs.length ≤ s'.logs.length) :
    s.getLastLogIndex ≤ s'.getLastLogIndex := by
  rw [h.last_eq, h'.last_eq, hsnap]
  omega

/-- `Start` makes the log longer by the entry it appends. -/
lemma Bounded.start (h : s.Bounded) {command : Bytes} {e : LogEntry}
    (hs : s.start command = .ok (some (s', e))) : s.Grows s' ∧ e.logindex = s'.getLastLogIndex := by
  have hindex := (h.index.start hs).1
  obtain ⟨-, he, heq⟩ := start_cases hs
  have hlogs : s'.logs = s.logs ++ [e] := by rw [heq]; rfl
  have hsnap : s'.lastSnapshotIndex = s.lastSnapshotIndex := by rw [heq]; rfl
  have hlast := h.index.last_le hindex hsnap (by rw [hlogs, List.length_append]; omega)
  have hstable : s'.stableLogIndex = s.stableLogIndex := by rw [heq]; rfl
  refine ⟨?_, (getLastLogIndex_concat hlogs).symm⟩
  exact {
    bounded := ⟨hindex, hsnap ▸ h.snapshot_nonneg, by rw [hsnap, hstable]; exact h.snapshot_le,
      by rw [hstable]; exact Int.le_trans h.stable_le hlast⟩
    snapshot := hsnap ▸ Int.le_refl _
    stable := hstable ▸ Int.le_refl _
    last := hlast
    nextIndex := by rw [heq]; rfl
    matchIndex := by rw [heq]; rfl
    others := by rw [heq]; rfl
    leader := by rw [heq]; exact fun hl => hl }

/-- A success callback within the log keeps the node bounded. -/
lemma Bounded.onLogStable (h : s.Bounded) {index : ℤ} (hle : index ≤ s.getLastLogIndex) :
    s.Grows (s.onLogStable true index) := by
  have hindex := (h.index.onLogStable true index).1
  obtain heq | ⟨hgt, heq⟩ := onLogStable_cases s index
  · rw [heq]
    exact h.refl
  · rw [heq] at hindex ⊢
    have hsnap := h.snapshot_le
    exact {
      bounded := ⟨hindex, h.snapshot_nonneg, by show s.lastSnapshotIndex ≤ index; omega, hle⟩
      snapshot := Int.le_refl _
      stable := Int.le_of_lt hgt
      last := Int.le_refl _
      nextIndex := rfl
      matchIndex := rfl
      others := rfl
      leader := fun hl => hl }

/-- The first locked part of `AppendEntries` leaves the log. -/
lemma Bounded.appendEntries (h : s.Bounded) {request : AppendEntriesArgs} {phase : AppendPhase}
    (hs : s.appendEntries request = .ok (s', phase)) : s.Grows s' := by
  have hacc := h.acceptTerm request.term
  obtain ⟨-, rfl, -⟩ | ⟨-, rfl, -⟩ | ⟨-, rfl, -⟩ := appendEntries_cases hs
  · exact h.refl
  · exact hacc.persistState
  · exact hacc

/-- The second locked part of `AppendEntries` never makes the log shorter. -/
lemma Bounded.appendEntriesStable (h : s.Bounded) {request : AppendEntriesArgs}
    {pending : List PendingLogWrite} {stable : Bool} {reply : AppendEntriesReply}
    (hs : s.appendEntriesStable request pending stable = .ok (s', reply)) : s.Grows s' := by
  obtain ⟨t, reply', ht, hindex, -⟩ := h.index.appendEntriesStable request pending stable
  obtain ⟨rfl, rfl⟩ := Prod.mk.inj (Except.ok.inj (hs.symm.trans ht))
  obtain ⟨rfl, -⟩ | ⟨-, ⟨-, -, -, -, hcheck⟩, happly⟩ := appendEntriesStable_cases hs
  · exact h.refl.persistState
  · rw [h.index.last_eq] at hcheck
    obtain ⟨-, -, hlen⟩ := foldl_applyPending h.index.aligned h.index.aligned le_rfl hcheck
    obtain ⟨logs, last, rfl, rfl, rfl, -⟩ := applyEntries_cases happly
    have hle := h.index.last_le hindex rfl hlen
    have hsnap := h.snapshot_le
    have hstable := h.stable_le
    exact {
      bounded := ⟨hindex, h.snapshot_nonneg, Int.le_trans hsnap (Int.le_max_left _ _),
        Int.max_le.mpr ⟨Int.le_trans hstable hle, Int.le_refl _⟩⟩
      snapshot := Int.le_refl _
      stable := Int.le_max_left _ _
      last := hle
      nextIndex := rfl
      matchIndex := rfl
      others := rfl
      leader := fun hl => hl }

/-- `Snapshot` keeps the last index. -/
lemma Bounded.snapshot (h : s.Bounded) {index : ℤ} {data : Bytes}
    (hs : s.snapshot index data = .ok s') : s.Grows s' := by
  have hindex := (h.index.snapshot hs).1
  obtain rfl | ⟨hlt, hle, e, -, heq⟩ := snapshot_cases hs
  · exact h.refl
  · have hsnap : s'.lastSnapshotIndex = index := by rw [heq]; rfl
    have hstable : s'.stableLogIndex = max s.stableLogIndex index := by rw [heq]; rfl
    have hlogs : s'.logs = (s.logs.drop (index - s.lastSnapshotIndex).toNat).take
        (s.getLastLogIndex - index).toNat := by rw [heq]; rfl
    have hlast : s'.getLastLogIndex = s.getLastLogIndex := by
      have hcommit := h.index.commit_le
      have hold := h.index.last_eq
      rw [hindex.last_eq, hsnap, hlogs, List.length_take, List.length_drop]
      omega
    have h₁ := h.snapshot_nonneg
    have h₂ := h.snapshot_le
    have h₃ := h.stable_le
    have hcommit := h.index.commit_le
    exact {
      bounded := ⟨hindex, by omega, by omega, by omega⟩
      snapshot := by omega
      stable := by omega
      last := hlast ▸ Int.le_refl _
      nextIndex := by rw [heq]; rfl
      matchIndex := by rw [heq]; rfl
      others := by rw [heq]; rfl
      leader := by rw [heq]; exact fun hl => hl }

/-- Becoming a follower leaves the log. -/
lemma Bounded.follow (h : s.Bounded) (term : ℕ) : s.Grows (s.follow term) :=
  (h.catchUp term).touch rfl rfl rfl rfl rfl rfl rfl rfl rfl fun hl => by cases hl

/-- Taking over a snapshot never lowers the last index. -/
lemma Bounded.installed (h : s.Bounded) {args : InstallSnapshotRequest}
    (hlt : s.lastSnapshotIndex < args.lastsnapshotincludeindex) : s.Grows (s.installed args) := by
  have hindex := h.index.installed hlt
  have hlast : s.getLastLogIndex ≤ (s.installed args).getLastLogIndex ∧
      (args.lastsnapshotincludeindex ≤ (s.installed args).getLastLogIndex) := by
    have hkept : (s.installed args).getLastLogIndex = max s.getLastLogIndex _ :=
      hindex.last_eq.trans (length_keptLogs h.index.aligned hlt.le)
    rw [hkept]
    exact ⟨Int.le_max_left _ _, Int.le_max_right _ _⟩
  have h₁ := h.snapshot_nonneg
  have h₃ := h.stable_le
  exact {
    bounded := ⟨hindex, by show 0 ≤ args.lastsnapshotincludeindex; omega, Int.le_max_right _ _,
      Int.max_le.mpr ⟨Int.le_trans h₃ hlast.1, hlast.2⟩⟩
    snapshot := Int.le_of_lt hlt
    stable := Int.le_max_left _ _
    last := hlast.1
    nextIndex := rfl
    matchIndex := rfl
    others := rfl
    leader := fun hl => hl }

/-- Growing composes. -/
lemma Grows.trans {t : Raft} (h : s.Grows t) (h' : t.Grows s') : s.Grows s' where
  bounded := h'.bounded
  snapshot := Int.le_trans h.snapshot h'.snapshot
  stable := Int.le_trans h.stable h'.stable
  last := Int.le_trans h.last h'.last
  nextIndex := h'.nextIndex.trans h.nextIndex
  matchIndex := h'.matchIndex.trans h.matchIndex
  others := h'.others.trans h.others
  leader := fun hl => h.leader (h'.leader hl)

/-- `InstallSnapshot` never lowers the last index. -/
lemma Bounded.installSnapshot (h : s.Bounded) {args : InstallSnapshotRequest}
    {reply : InstallSnapshotResponse} (hs : s.installSnapshot args = .ok (s', reply)) :
    s.Grows s' := by
  have hf := h.follow args.term
  have hsnap : (s.follow args.term).lastSnapshotIndex = s.lastSnapshotIndex := by
    rw [Raft.follow, Raft.catchUp]
    split_ifs <;> rfl
  obtain ⟨-, rfl⟩ | ⟨-, rfl⟩ | ⟨-, hlt, rfl⟩ := installSnapshot_cases hs
  · exact h.refl
  · exact hf
  · have hi := hf.bounded.installed (hsnap ▸ hlt)
    exact (hf.trans hi).touch rfl rfl rfl rfl rfl rfl rfl rfl rfl fun hl => hl

/-- `applierTicker` leaves the log. -/
lemma Bounded.applierTicker (h : s.Bounded) {msgs : List ApplyMsg}
    (hs : s.applierTicker = .ok (s', msgs)) : s.Grows s' := by
  have hindex := (h.index.applierTicker hs).1
  obtain ⟨rfl, -⟩ := applierTicker_cases hs
  exact h.keep hindex rfl rfl rfl rfl rfl rfl rfl fun hl => hl

/-- `advanceCommitIndex` leaves the log. -/
lemma Bounded.advanceCommitIndex (h : s.Bounded) (hs : s.advanceCommitIndex = .ok s') :
    s.Grows s' := by
  obtain ⟨t, ht, hindex, -⟩ := h.index.advanceCommitIndex
  obtain rfl := Except.ok.inj (hs.symm.trans ht)
  obtain rfl | ⟨index, e, rfl, -⟩ := advanceCommitIndex_cases hs
  · exact h.refl
  · exact h.keep hindex rfl rfl rfl rfl rfl rfl rfl fun hl => hl

end Raft

end KVCacheRaft
