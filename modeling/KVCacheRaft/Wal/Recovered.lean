import KVCacheRaft.Wal.Filter
import KVCacheRaft.Wal.Writer

/-!
# What is recovered

Both `ReadPersistedLogs` and `CompactWal` go through the records of all segments with the same rule.
Whatever these are, the entries that come out are at their places, each is the last one of its index,
and none below it was written later.
-/

namespace KVCacheRaft

/-! ### The arithmetic of the loops -/

/-- A round of the loops of `ReadPersistedLogs` and `CompactWal`, with the casts of the `uint64_t`
`snapshotIndex`. -/
def replayInt32 (snapshotIndex : ℕ) (logs : List LogEntry) (entry : LogEntry) : List LogEntry :=
  if entry.logindex ≤ toInt32 snapshotIndex then logs
  else
    match logs.getLast? with
    | none => if entry.logindex ≠ toInt32 (snapshotIndex + 1) then logs else logs ++ [entry]
    | some back =>
      let expectedNext := back.logindex + 1
      if entry.logindex = expectedNext then logs ++ [entry]
      else if entry.logindex ≤ back.logindex then
        let vecIndex := entry.logindex - toInt32 snapshotIndex - 1
        if vecIndex ≥ 0 ∧ vecIndex < logs.length then logs.take vecIndex.toNat ++ [entry] else logs
      else logs

namespace Wal

/-- All records that can be read, in the order in which they are read. -/
def records (w : Wal) : List (WalEntryHeader × LogEntry) :=
  (listSegments w.files).flatMap fun file => readWalRecords (file.2.length + 1) file.2

/-- What the loops make of the entries that `ReadWalSegment` collects. -/
def recoveredInt32 (w : Wal) (snapshotIndex : ℕ) : List LogEntry :=
  (w.readWalSegments snapshotIndex).2.foldl (replayInt32 snapshotIndex) []

end Wal

variable {snapshotIndex : ℕ} {logs records : List LogEntry} {entry : LogEntry} {w : Wal}

/-- The casts do nothing to a snapshot index that is an `int` and to entries below `INT_MAX`. -/
lemma replayInt32_eq (h : snapshotIndex < 2 ^ 31) (hentry : entry.logindex < 2 ^ 31 - 1) :
    replayInt32 snapshotIndex logs entry = replayEntry snapshotIndex logs entry := by
  have hcast := toInt32_eq h
  rw [replayInt32, replayEntry, hcast]
  by_cases hle : entry.logindex ≤ snapshotIndex
  · rw [if_pos hle, if_pos hle]
  · have hnext := toInt32_eq (n := snapshotIndex + 1) (by omega)
    push_cast at hnext
    rw [if_neg hle, if_neg hle]
    cases logs.getLast? with
    | none => simp only [hnext]
    | some back => simp only

/-! ### The last of each index -/

/-- The entries of a log are at their places, and behind each of them no record has its index or one
below it that is above the snapshot. -/
structure Replayed (snapshotIndex : ℕ) (records logs : List LogEntry) : Prop where
  aligned : Aligned snapshotIndex logs
  last : ∀ e ∈ logs, ∃ before after, records = before ++ e :: after ∧ ∀ x ∈ after,
    x.logindex ≠ e.logindex ∧ ¬ ((snapshotIndex : ℤ) < x.logindex ∧ x.logindex < e.logindex)

/-- Nothing is replayed from the empty list. -/
lemma Replayed.nil : Replayed snapshotIndex records [] :=
  ⟨Aligned.nil, fun _ he => by cases he⟩

/-- One more record. -/
lemma Replayed.step (h : Replayed snapshotIndex records logs) (entry : LogEntry) :
    Replayed snapshotIndex (records ++ [entry]) (replayEntry snapshotIndex logs entry) := by
  refine ⟨h.aligned.replayEntry, fun e he => ?_⟩
  -- what stays of the log is not above the new record
  have hstays : ∀ {e}, e ∈ logs → entry.logindex ≤ snapshotIndex ∨ e.logindex < entry.logindex →
      ∃ before after, records ++ [entry] = before ++ e :: after ∧ ∀ x ∈ after,
        x.logindex ≠ e.logindex ∧ ¬ ((snapshotIndex : ℤ) < x.logindex ∧ x.logindex < e.logindex) := by
    intro e he hbelow
    obtain ⟨k, hk⟩ := List.getElem?_of_mem he
    have hindex := h.aligned k e hk
    obtain ⟨before, after, rfl, hafter⟩ := h.last e he
    refine ⟨before, after ++ [entry], by rw [List.append_assoc, List.cons_append], fun x hx => ?_⟩
    obtain hx | hx := List.mem_append.mp hx
    · exact hafter x hx
    · obtain rfl := List.mem_singleton.mp hx
      exact ⟨by omega, by omega⟩
  by_cases hadjoins : Adjoins snapshotIndex logs entry
  · rw [replayEntry_adjoins h.aligned hadjoins] at he
    obtain he | he := List.mem_append.mp he
    · obtain ⟨k, hk⟩ := List.getElem?_of_mem he
      rw [List.getElem?_take] at hk
      split_ifs at hk with hlt
      have hindex := h.aligned k e hk
      exact hstays (List.mem_of_mem_take he) (.inr (by omega))
    · obtain rfl := List.mem_singleton.mp he
      exact ⟨records, [], rfl, fun _ hx => by cases hx⟩
  · rw [replayEntry_of_not_adjoins h.aligned hadjoins] at he
    obtain ⟨k, hk⟩ := List.getElem?_of_mem he
    have hindex := h.aligned k e hk
    have hlt := (List.getElem?_eq_some_iff.mp hk).1
    rw [Adjoins] at hadjoins
    exact hstays he (by omega)

/-- Replay keeps of each index the last record, above the last cut. -/
lemma replayed_replayEntries (snapshotIndex : ℕ) (records : List LogEntry) :
    Replayed snapshotIndex records (replayEntries snapshotIndex records) := by
  induction records using List.reverseRecOn with
  | nil => exact Replayed.nil
  | append_singleton records entry ih =>
    rw [replayEntries, List.foldl_append]
    exact ih.step entry

/-! ### From the files -/

/-- `ReadWalSegment` leaves out records up to the snapshot only. -/
lemma replayEntries_records (w : Wal) (snapshotIndex : ℕ) :
    replayEntries snapshotIndex (w.readWalSegments snapshotIndex).2 =
      replayEntries snapshotIndex (w.records.map (·.2)) := by
  rw [← replayEntries_filter, ← replayEntries_filter (w.records.map (·.2)), Wal.records,
    List.map_flatMap]
  apply congrArg
  exact Wal.above_flatMap (fun file => Wal.above_readWalSegment (Nat.le_refl snapshotIndex) file.2)
    (listSegments w.files)

/-- An entry that is read has a record above the snapshot. -/
lemma mem_records_of_mem {e : LogEntry} (he : e ∈ (w.readWalSegments snapshotIndex).2) :
    ∃ r ∈ w.records, r.2 = e ∧ snapshotIndex < r.1.log_index := by
  obtain ⟨file, hfile, he⟩ := List.mem_flatMap.mp he
  obtain ⟨r, hr, rfl⟩ := List.mem_map.mp he
  obtain ⟨hr, habove⟩ := List.mem_filter.mp hr
  exact ⟨r, List.mem_flatMap.mpr ⟨file, hfile, hr⟩, rfl, of_decide_eq_true habove⟩

/-- The snapshot index is an `int`, or no record can be above it; no index reaches `INT_MAX`. -/
def Wal.InRange (w : Wal) (snapshotIndex : ℕ) : Prop :=
  (∀ r ∈ w.records, r.2.logindex < 2 ^ 31 - 1) ∧
    (snapshotIndex < 2 ^ 31 ∨ ∀ r ∈ w.records, r.1.log_index < 2 ^ 31)

/-- In range the casts of the code change nothing. -/
lemma recoveredInt32_eq (h : w.InRange snapshotIndex) :
    w.recoveredInt32 snapshotIndex =
      replayEntries snapshotIndex (w.readWalSegments snapshotIndex).2 := by
  obtain ⟨hentries, hsnap⟩ := h
  by_cases hlt : snapshotIndex < 2 ^ 31
  · refine List.foldl_ext _ _ _ fun logs e he => ?_
    obtain ⟨r, hr, rfl, -⟩ := mem_records_of_mem he
    exact replayInt32_eq hlt (hentries r hr)
  · -- nothing is read
    have hnone : (w.readWalSegments snapshotIndex).2 = [] := by
      refine List.eq_nil_iff_forall_not_mem.mpr fun e he => ?_
      obtain ⟨r, hr, -, habove⟩ := mem_records_of_mem he
      have := (hsnap.resolve_left hlt) r hr
      omega
    rw [Wal.recoveredInt32, hnone, List.foldl_nil, replayEntries, List.foldl_nil]

/-- Whatever the segments hold, the log that `ReadPersistedLogs` returns and the one that `CompactWal`
writes are the replay of their records: at position `k` is index `snapshotIndex + 1 + k`, every entry
is the last that was read with its index, and none above the snapshot and below it was read later. -/
theorem recovered_replayed (h : w.InRange snapshotIndex) :
    (w.readPersistedLogs snapshotIndex).2 = w.recoveredInt32 snapshotIndex ∧
    w.compacted snapshotIndex = w.recoveredInt32 snapshotIndex ∧
    Replayed snapshotIndex (w.records.map (·.2)) (w.recoveredInt32 snapshotIndex) := by
  have heq := recoveredInt32_eq h
  refine ⟨heq.symm, heq.symm, ?_⟩
  rw [heq, replayEntries_records]
  exact replayed_replayEntries snapshotIndex _

/-- A segment in which index 1 is written twice, and index 4 behind a gap. -/
def patchy : Wal where
  files := [(.inprogress 1, walRecords [⟨[1], 1, 1⟩, ⟨[2], 1, 2⟩, ⟨[3], 2, 1⟩, ⟨[4], 2, 4⟩])]

/-- Only the second entry with index 1 is recovered. -/
theorem recovered_replayed_patchy :
    patchy.recoveredInt32 0 = [⟨[3], 2, 1⟩] ∧
      Replayed 0 (patchy.records.map (·.2)) (patchy.recoveredInt32 0) := by
  have hrange : patchy.InRange 0 := ⟨by decide +kernel, .inl (by decide)⟩
  exact ⟨by decide +kernel, (recovered_replayed hrange).2.2⟩

end KVCacheRaft
