import KVCacheRaft.Consensus.Log
import KVCacheRaft.Raft.Snapshot

/-!
# The whole log behind `m_logs`

A node keeps the entries above its snapshot in `m_logs` and only the index and term of the last
entry below. `Holds` relates a node to the whole log `l` it stands for. Over a log whose entries
carry their positions (`Indexed`) the accessors of `raft.h` are statements about prefixes of `l`.
-/

namespace KVCacheRaft
open Consensus

/-- Every entry carries its position, counted from `1`. -/
def Indexed (l : List LogEntry) : Prop :=
  ∀ ⦃p : List LogEntry⦄ ⦃e : LogEntry⦄, p ++ [e] <+: l → e.logindex = p.length + 1

/-- The empty log has its indices. -/
lemma Indexed.nil : Indexed [] := fun p e h => by simp at h

/-- A beginning of a log has its indices. -/
lemma Indexed.of_isPrefix {l m : List LogEntry} (h : Indexed m) (hl : l <+: m) : Indexed l :=
  fun _ _ hp => h (hp.trans hl)

/-- A log has its indices with the next entry. -/
lemma Indexed.concat {l : List LogEntry} {e : LogEntry} (h : Indexed l)
    (he : e.logindex = l.length + 1) : Indexed (l ++ [e]) := by
  intro p x hp
  rcases List.prefix_concat_iff.mp hp with h' | h'
  · obtain ⟨rfl, hx⟩ := List.append_inj' h' rfl
    cases hx
    exact he
  · exact h h'

/-- Below an entry of a later position there is an entry of every position. -/
lemma exists_concat_prefix_at {α : Type*} {l : List α} {k : ℕ} (hk : k < l.length) :
    ∃ p e, p ++ [e] <+: l ∧ p.length = k :=
  ⟨l.take k, l[k], by
    rw [List.take_append_getElem]; exact List.take_prefix _ _, by simp; omega⟩

namespace Raft

/-- The node stands for the whole log `l`: its snapshot covers a prefix, `m_logs` the rest. -/
def Holds (r : Raft) (l : List LogEntry) : Prop :=
  ∃ p, l = p ++ r.logs ∧ r.lastSnapshotIndex = p.length ∧
    r.lastSnapshotTerm = lastTerm LogEntry.logterm p

variable {r r' : Raft} {l : List LogEntry}

/-- `Holds` only looks at `m_logs` and the snapshot's index and term. -/
lemma Holds.congr (h : r.Holds l) (h1 : r'.logs = r.logs)
    (h2 : r'.lastSnapshotIndex = r.lastSnapshotIndex)
    (h3 : r'.lastSnapshotTerm = r.lastSnapshotTerm) : r'.Holds l := by
  obtain ⟨p, hp⟩ := h
  exact ⟨p, by rwa [h1, h2, h3]⟩

/-- The snapshot is within the log that is held. -/
lemma Holds.snapshot_le (h : r.Holds l) : r.lastSnapshotIndex ≤ l.length := by
  obtain ⟨p, rfl, h2, -⟩ := h
  simp only [h2, List.length_append]
  omega

/-- The snapshot index is not negative. -/
lemma Holds.snapshot_nonneg (h : r.Holds l) : 0 ≤ r.lastSnapshotIndex := by
  obtain ⟨p, -, h2, -⟩ := h
  omega

/-- `m_logs` is what lies above the snapshot. -/
lemma Holds.logs_eq (h : r.Holds l) : r.logs = l.drop r.lastSnapshotIndex.toNat := by
  obtain ⟨p, rfl, h2, -⟩ := h
  simp [h2]

/-- The last index is the length of the log that is held. -/
lemma Holds.getLastLogIndex (h : r.Holds l) (hl : Indexed l) : r.getLastLogIndex = l.length := by
  obtain ⟨p, rfl, h2, -⟩ := h
  cases hlast : r.logs.getLast? with
  | none =>
    rw [List.getLast?_eq_none_iff] at hlast
    simp [Raft.getLastLogIndex, hlast, h2]
  | some e =>
    obtain ⟨m, hm⟩ := List.getLast?_eq_some_iff.mp hlast
    have he : e.logindex = (p ++ m).length + 1 := hl (by rw [hm, List.append_assoc])
    simp only [Raft.getLastLogIndex, hlast]
    rw [he, hm]
    simp only [List.length_append, List.length_singleton]
    omega

/-- The last term is that of the log that is held. -/
lemma Holds.getLastLogTerm (h : r.Holds l) : r.getLastLogTerm = lastTerm LogEntry.logterm l := by
  obtain ⟨p, rfl, -, h3⟩ := h
  cases hlast : r.logs.getLast? with
  | none =>
    rw [List.getLast?_eq_none_iff] at hlast
    simp [Raft.getLastLogTerm, hlast, h3]
  | some e =>
    obtain ⟨m, hm⟩ := List.getLast?_eq_some_iff.mp hlast
    simp only [Raft.getLastLogTerm, hlast]
    rw [hm, ← List.append_assoc, lastTerm_concat]

/-- An entry read by its index is the entry of the whole log at that position. -/
lemma Holds.logAt (h : r.Holds l) {index : ℤ} {e : LogEntry} (he : r.logAt index = .ok e) :
    r.lastSnapshotIndex < index ∧ ∃ q, q ++ [e] <+: l ∧ index = q.length + 1 := by
  obtain ⟨p, rfl, h2, -⟩ := h
  obtain ⟨hpos, hget⟩ := vecGet_eq_ok.mp he
  obtain ⟨hlt, hv⟩ := List.getElem?_eq_some_iff.mp hget
  set k := (index - r.lastSnapshotIndex - 1).toNat with hk
  refine ⟨by omega, p ++ r.logs.take k, ?_, ?_⟩
  · rw [← hv, List.append_assoc, List.take_append_getElem]
    exact (List.prefix_append_right_inj p).mpr (List.take_prefix _ _)
  · simp; omega

/-- Every entry above the snapshot can be read. -/
lemma Holds.logAt_concat (h : r.Holds l) {q : List LogEntry} {e : LogEntry} (hq : q ++ [e] <+: l)
    (hs : r.lastSnapshotIndex ≤ q.length) : r.logAt (q.length + 1) = .ok e := by
  obtain ⟨p, rfl, h2, -⟩ := h
  obtain ⟨t, ht⟩ := hq
  refine vecGet_eq_ok.mpr ⟨by omega, ?_⟩
  have hk : ((q.length : ℤ) + 1 - r.lastSnapshotIndex - 1).toNat = q.length - p.length := by omega
  have : (p ++ r.logs)[q.length]? = some e := by simp [← ht]
  rw [hk, ← this, List.getElem?_append_right (by omega)]

/-- The term found at an index is the term in which the prefix of that length ends. -/
lemma Holds.termAt (h : r.Holds l) {index : ℤ} {t : ℕ} (ht : r.termAt index = .ok t) :
    r.lastSnapshotIndex ≤ index ∧
      ∃ q, q <+: l ∧ index = q.length ∧ t = lastTerm LogEntry.logterm q := by
  unfold Raft.termAt at ht
  split_ifs at ht with hi
  · obtain ⟨p, rfl, h2, h3⟩ := h
    cases ht
    exact ⟨by omega, p, List.prefix_append _ _, by omega, h3⟩
  · cases he : r.logAt index with
    | error f => rw [he] at ht; cases ht
    | ok e =>
      rw [he] at ht
      cases ht
      obtain ⟨h1, q, hq, hidx⟩ := h.logAt he
      exact ⟨Int.le_of_lt h1, q ++ [e], hq, by simp [hidx], by simp⟩

end Raft

end KVCacheRaft
