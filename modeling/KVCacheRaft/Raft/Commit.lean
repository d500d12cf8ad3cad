import KVCacheRaft.Raft.Indices
import Mathlib.Data.Finset.Card
import Mathlib.Data.Finset.Range
import Mathlib.Data.Nat.Find
import Mathlib.Order.Bounds.Basic

/-!
# The commit rule

`advanceCommitIndex` goes down from the last index that is on disk and stops at the first one that a
majority holds and that has an entry of the current term. With the indices in order that is the
greatest index that the leader may commit.
-/

namespace KVCacheRaft

namespace Raft

/-- The peers other than the node itself that are known to hold an index. -/
def holders (s : Raft) (index : ℤ) : Finset ℕ :=
  (Finset.range s.peers).filter fun peer => peer ≠ s.id ∧ index ≤ s.matchIndex peer

/-- An index that the leader may commit: it is new, on disk, of the current term, and half of the
cluster, rounded down, holds it beside the leader. -/
structure Committable (s : Raft) (index : ℤ) : Prop where
  commit_lt : s.commitIndex < index
  le_last : index ≤ s.getLastLogIndex
  le_stable : index ≤ s.stableLogIndex
  entry : ∃ e ∈ s.logs, e.logindex = index ∧ e.logterm = s.currentTerm
  held : s.peers / 2 ≤ (s.holders index).card

/-- The test of the loop of `advanceCommitIndex`. -/
def Advances (s : Raft) (index : ℤ) : Prop :=
  s.replicated index ≥ s.peers / 2 + 1 ∧ ∃ e, s.logAt index = .ok e ∧ e.logterm = s.currentTerm

variable {s s' : Raft} {index : ℤ}

/-- The leader counts itself and the peers that hold the index. -/
lemma replicated_eq (s : Raft) (index : ℤ) : s.replicated index = 1 + (s.holders index).card :=
  rfl

/-- An index that can be committed is above the commit index and stable. -/
lemma committable_iff (h : s.IndexInv) : s.Committable index ↔
    s.commitIndex < index ∧ index ≤ min s.getLastLogIndex s.stableLogIndex ∧ s.Advances index := by
  have hsnap := h.snapshot_le
  have happlied := h.applied_le
  rw [Advances, replicated_eq]
  constructor
  · rintro ⟨hcommit, hlast, hstable, ⟨e, he, rfl, hterm⟩, hheld⟩
    exact ⟨hcommit, Int.le_min.mpr ⟨hlast, hstable⟩, by omega, e, logAt_of_mem h.aligned he, hterm⟩
  · rintro ⟨hcommit, hle, hheld, e, he, hterm⟩
    obtain ⟨hlast, hstable⟩ := Int.le_min.mp hle
    obtain ⟨e', he', hindex⟩ := logAt_of_aligned h.aligned index (by omega) hlast
    obtain rfl := Except.ok.inj (he.symm.trans he')
    obtain ⟨-, hget⟩ := vecGet_eq_ok.mp he
    exact ⟨hcommit, hlast, hstable, ⟨e, List.mem_of_getElem? hget, hindex, hterm⟩, by omega⟩

open Classical in
/-- The loop finds the greatest index that passes its test, and reads the log only where it has
entries. -/
lemma advanceFrom_eq (h : s.IndexInv) {k : ℕ} (hk : s.commitIndex + k ≤ s.getLastLogIndex) :
    s.advanceFrom k = .ok { s with
      commitIndex := s.commitIndex + Nat.findGreatest (fun n => s.Advances (s.commitIndex + n)) k } := by
  have hsnap := h.snapshot_le
  have happlied := h.applied_le
  induction k with
  | zero => simp [advanceFrom, pure, Except.pure]
  | succ k ih =>
    push_cast at hk
    have hlower := ih (by omega)
    obtain ⟨e, he, -⟩ := logAt_of_aligned h.aligned (s.commitIndex + (k + 1)) (by omega) (by omega)
    have htest : s.Advances (s.commitIndex + (k + 1 : ℕ)) ↔
        s.replicated (s.commitIndex + (k + 1)) ≥ s.peers / 2 + 1 ∧ e.logterm = s.currentTerm := by
      rw [Advances]
      push_cast
      rw [he]
      refine and_congr_right fun _ => ⟨?_, fun hterm => ⟨e, rfl, hterm⟩⟩
      rintro ⟨_, heq, hterm⟩
      exact Except.ok.inj heq ▸ hterm
    rw [advanceFrom, Nat.findGreatest_succ]
    simp only [he, bind, Except.bind]
    split_ifs with hreplicated hterm htrue htrue htrue
    · push_cast
      rfl
    · exact absurd (htest.mpr ⟨hreplicated, hterm⟩) htrue
    · exact absurd (htest.mp htrue).2 hterm
    · exact hlower
    · exact absurd (htest.mp htrue).1 hreplicated
    · exact hlower

/-- `advanceCommitIndex` moves `m_commitIndex` to the greatest index that the leader may commit, and
changes nothing when there is none. It never reads outside of the log. -/
theorem advanceCommitIndex_exact (h : s.IndexInv) : ∃ s', s.advanceCommitIndex = .ok s' ∧
    ((∃ index, IsGreatest { index | s.Committable index } index ∧
      s' = { s with commitIndex := index }) ∨
    (∀ index, ¬ s.Committable index) ∧ s' = s) := by
  classical
  obtain ⟨k, hk⟩ : ∃ k, k = (min s.getLastLogIndex s.stableLogIndex - s.commitIndex).toNat := ⟨_, rfl⟩
  have hcommit := h.commit_le
  have hrun := advanceFrom_eq h (k := k) (by omega)
  obtain ⟨n, hn⟩ : ∃ n, n = Nat.findGreatest (fun n => s.Advances (s.commitIndex + n)) k := ⟨_, rfl⟩
  have hgreatest := Nat.findGreatest_eq_iff.mp hn.symm
  rw [← hn, hk] at hrun
  refine ⟨_, hrun, ?_⟩
  obtain ⟨hle, htest, hnone⟩ := hgreatest
  -- every index that may be committed is one that the loop comes to
  have hvisits : ∀ {index}, s.Committable index → ∃ m : ℕ, index = s.commitIndex + m ∧ 0 < m ∧ m ≤ n := by
    intro index hc
    obtain ⟨hlt, hmin, hadvances⟩ := (committable_iff h).mp hc
    obtain ⟨m, hm⟩ : ∃ m : ℕ, index = s.commitIndex + m :=
      ⟨(index - s.commitIndex).toNat, by omega⟩
    refine ⟨m, hm, by omega, Nat.not_lt.mp fun hmn => ?_⟩
    exact hnone hmn (by omega) (hm ▸ hadvances)
  cases n with
  | zero =>
    right
    refine ⟨fun index hc => ?_, ?_⟩
    · obtain ⟨m, -, hpos, hm⟩ := hvisits hc
      omega
    · simp
  | succ n =>
    left
    refine ⟨s.commitIndex + (n + 1 : ℕ), ⟨?_, fun index hc => ?_⟩, rfl⟩
    · exact (committable_iff h).mpr ⟨by omega, by omega, htest (Nat.succ_ne_zero n)⟩
    · obtain ⟨m, rfl, -, hm⟩ := hvisits hc
      omega

/-- A leader of term 2 of five nodes: half of the others have the entry at index 3, which is of an older
term again, and one more has the entry at index 2. -/
def scattered : Raft :=
  { init 0 5 { term := 2 } [] [⟨[1], 1, 1⟩, ⟨[2], 2, 2⟩, ⟨[3], 1, 3⟩] with
    state := .leader
    matchIndex := fun peer => if peer < 3 then 3 else if peer = 3 then 2 else 0 }

/-- The indices of the example are in order. -/
lemma indexInv_scattered : scattered.IndexInv where
  snapshot_le := Int.le_refl _
  applied_le := Int.le_refl _
  commit_le := (by decide : (0 : ℤ) ≤ 3)
  aligned := ((Aligned.nil.concat (e := ⟨[1], 1, 1⟩) rfl).concat (e := ⟨[2], 2, 2⟩) rfl).concat
    (e := ⟨[3], 1, 3⟩) rfl

/-- The leader passes over index 3 and commits index 2. -/
theorem advanceCommitIndex_exact_scattered : IsGreatest { index | scattered.Committable index } 2 := by
  have hcommit : ∀ s' ∈ scattered.advanceCommitIndex.toOption, s'.commitIndex = 2 := by decide
  obtain ⟨s', hs, ⟨index, hgreatest, rfl⟩ | ⟨-, rfl⟩⟩ := advanceCommitIndex_exact indexInv_scattered
  · obtain rfl : index = 2 := hcommit _ (toOption_eq_some.mpr hs)
    exact hgreatest
  · cases hcommit _ (toOption_eq_some.mpr hs)

end Raft

end KVCacheRaft
