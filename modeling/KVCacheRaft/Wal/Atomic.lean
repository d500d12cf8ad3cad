import KVCacheRaft.Wal.Covers
import KVCacheRaft.Wal.Recovered

/-!
# Compaction that is cut off

`CompactWal` reads all segments, removes them and then writes what it keeps into a new one. A crash
leaves the directory at any of these operations, and a write that fails leaves it there too, as the
rest is given up. Where something is to be kept it is in no file for a while; so the log is the same
afterwards only if there was none. The snapshot index is any number of 64 bits, with the casts of the
code.
-/

namespace KVCacheRaft

open Machine

/-! ### Reading a part of a segment -/

/-- A record in a part of a segment is read in the segment. -/
lemma readWalRecord_of_prefix {part content : Bytes} (hpart : part <+: content)
    {r : WalEntryHeader × LogEntry} (h : readWalRecord part = some r) :
    readWalRecord content = some r ∧ headerSize + r.1.log_size ≤ part.length := by
  obtain ⟨rest, rfl⟩ := hpart
  unfold readWalRecord at h ⊢
  simp only at h ⊢
  split_ifs at h with hheader hsize hbody
  have hlen : headerSize ≤ part.length := Nat.not_lt.mp hheader
  have hdecode : WalEntryHeader.decode (part ++ rest) = WalEntryHeader.decode part := by
    rw [headerSize] at hlen
    unfold WalEntryHeader.decode
    rw [List.drop_append_of_le_length (by omega), List.drop_append_of_le_length (by omega),
      List.drop_append_of_le_length (by omega), List.take_append_of_le_length (by omega),
      List.take_append_of_le_length (by rw [List.length_drop]; omega),
      List.take_append_of_le_length (by rw [List.length_drop]; omega),
      List.take_append_of_le_length (by rw [List.length_drop]; omega)]
  have htake : ((part ++ rest).drop headerSize).take (WalEntryHeader.decode part).log_size =
      (part.drop headerSize).take (WalEntryHeader.decode part).log_size := by
    rw [List.drop_append_of_le_length hlen, List.take_append_of_le_length]
    rw [List.length_drop]
    omega
  rw [hdecode, htake, if_neg (by rw [List.length_append]; omega), if_neg hsize,
    if_neg (by rw [List.length_append]; omega)]
  refine ⟨h, ?_⟩
  split at h
  · cases h
  · rw [Option.ite_none_left_eq_some] at h
    rw [← Option.some.inj h.2]
    exact Nat.not_lt.mp hbody

/-- A part of a file has a part of its records. -/
lemma readWalRecords_of_prefix {part content : Bytes} (hpart : part <+: content) {fuel fuel' : ℕ}
    (hfuel : fuel ≤ fuel') : readWalRecords fuel part <+: readWalRecords fuel' content := by
  induction fuel generalizing part content fuel' with
  | zero => exact List.nil_prefix
  | succ fuel ih =>
    obtain ⟨fuel', rfl⟩ := Nat.exists_eq_add_of_le' hfuel
    rw [readWalRecords]
    split
    · exact List.nil_prefix
    · rename_i header entry hread
      obtain ⟨hcontent, hlen⟩ := readWalRecord_of_prefix hpart hread
      obtain ⟨rest, rfl⟩ := hpart
      have hdrop : part.drop (headerSize + header.log_size) <+:
          (part ++ rest).drop (headerSize + header.log_size) :=
        ⟨rest, (List.drop_append_of_le_length hlen).symm⟩
      rw [← Nat.add_assoc, readWalRecords, hcontent]
      exact List.cons_prefix_cons.mpr ⟨rfl, ih hdrop (by omega)⟩

/-- A part of a file has no other entries. -/
lemma readWalSegment_of_prefix {part content : Bytes} (hpart : part <+: content)
    (snapshotIndex : ℕ) :
    (readWalSegment snapshotIndex part).1 ⊆ (readWalSegment snapshotIndex content).1 := by
  have hrecords := readWalRecords_of_prefix hpart (Nat.succ_le_succ hpart.length_le)
  exact List.map_subset _ (List.filter_subset _ hrecords.subset)

/-! ### When nothing is kept -/

/-- A log that is not empty stays so. -/
lemma replayInt32_ne_nil {snapshotIndex : ℕ} {logs : List LogEntry} (h : logs ≠ []) (e : LogEntry) :
    replayInt32 snapshotIndex logs e ≠ [] := by
  rw [replayInt32]
  split
  · exact h
  · split
    · split
      · exact h
      · exact List.concat_ne_nil _ _
    · dsimp only
      split_ifs
      · exact List.concat_ne_nil _ _
      · exact List.concat_ne_nil _ _
      · exact h
      · exact h

/-- Replay that has begun leaves something. -/
lemma foldl_replayInt32_ne_nil {snapshotIndex : ℕ} {logs : List LogEntry} (h : logs ≠ [])
    (entries : List LogEntry) : entries.foldl (replayInt32 snapshotIndex) logs ≠ [] := by
  induction entries generalizing logs with
  | nil => exact h
  | cons e entries ih =>
    rw [List.foldl_cons]
    exact ih (replayInt32_ne_nil h e)

/-- The log begins with an entry that is above the snapshot index and right behind it, both as
`int32_t`. -/
lemma foldl_replayInt32_eq_nil {snapshotIndex : ℕ} {entries : List LogEntry} :
    entries.foldl (replayInt32 snapshotIndex) [] = [] ↔ ∀ e ∈ entries,
      toInt32 snapshotIndex < e.logindex → e.logindex ≠ toInt32 (snapshotIndex + 1) := by
  induction entries with
  | nil => exact iff_of_true rfl fun _ he => absurd he List.not_mem_nil
  | cons e entries ih =>
    rw [List.forall_mem_cons, ← ih, List.foldl_cons]
    by_cases he : toInt32 snapshotIndex < e.logindex ∧ e.logindex = toInt32 (snapshotIndex + 1)
    · have hfirst : replayInt32 snapshotIndex [] e = [e] := by
        rw [replayInt32, if_neg (Int.not_le.mpr he.1)]
        exact if_neg (not_not.mpr he.2)
      rw [hfirst]
      refine ⟨fun hnil => absurd hnil ?_, fun h => absurd he.2 (h.1 he.1)⟩
      exact foldl_replayInt32_ne_nil (List.cons_ne_nil _ _) _
    · have hskip : replayInt32 snapshotIndex [] e = [] := by
        rw [replayInt32]
        by_cases hle : e.logindex ≤ toInt32 snapshotIndex
        · rw [if_pos hle]
        · rw [if_neg hle]
          exact if_pos fun heq => he ⟨Int.not_le.mp hle, heq⟩
      rw [hskip]
      exact ⟨fun h => ⟨fun hlt heq => he ⟨hlt, heq⟩, h⟩, fun h => h.2⟩

namespace Wal

variable {w : Wal} {files : List SegmentFile} {snapshotIndex : ℕ}

/-- Every file holds a part of one that there was, or nothing. -/
def Parts (before files : List SegmentFile) : Prop :=
  ∀ file ∈ files, file.2 = [] ∨ ∃ file' ∈ before, file.2 <+: file'.2

/-- A directory is a part of itself. -/
lemma Parts.refl (files : List SegmentFile) : Parts files files := fun file hfile =>
  .inr ⟨file, hfile, List.prefix_rfl⟩

/-- Cutting a file leaves a part. -/
lemma Parts.take {before : List SegmentFile} (h : Parts before files) (name : SegmentName) (n : ℕ) :
    Parts before (modify files name (·.take n)) := by
  intro file hfile
  obtain ⟨x, hx, rfl⟩ := List.mem_map.mp hfile
  split
  · refine (h x hx).imp (fun hnil => ?_) fun ⟨file', hfile', hpart⟩ => ?_
    · show x.2.take n = []
      rw [hnil, List.take_nil]
    · exact ⟨file', hfile', (List.take_prefix _ _).trans hpart⟩
  · exact h x hx

/-- Opening a segment leaves a part. -/
lemma Parts.openSegment {before : List SegmentFile} (h : Parts before w.files) (firstIndex : ℕ) :
    Parts before (w.openSegment firstIndex).files := by
  intro file hfile
  unfold Wal.openSegment at hfile
  simp only at hfile
  split_ifs at hfile
  · exact h file hfile
  · obtain hfile | hfile := List.mem_append.mp hfile
    · exact h file hfile
    · exact .inl (congrArg Prod.snd (List.mem_singleton.mp hfile))

/-- A new process opens or cuts a segment. -/
lemma Parts.create {before : List SegmentFile} (h : Parts before files) :
    Parts before (Wal.create files).files := by
  show Parts before (reopenLatestSegment { files }).files
  rw [reopenLatestSegment]
  split
  · exact Parts.openSegment h 1
  · exact Parts.openSegment h _
  · exact h.take _ _

/-- The first index of the segment that `CompactWal` opens. -/
def firstIndexInt32 (w : Wal) (snapshotIndex : ℕ) : ℕ :=
  ((w.recoveredInt32 snapshotIndex).head?.map (toUInt64 ·.logindex)).getD
    ((snapshotIndex + 1) % 2 ^ 64)

/-- `CompactWal`: every segment is read and cut, then removed, and what is kept goes into a new one. -/
def compactOpsInt32 (w : Wal) (snapshotIndex : ℕ) : List FileOp :=
  Disk.removeOps w.files snapshotIndex ++
    [.openSegment (.inprogress (w.firstIndexInt32 snapshotIndex))] ++
    (walRecords (w.recoveredInt32 snapshotIndex)).map
      (.write (.inprogress (w.firstIndexInt32 snapshotIndex)))

/-- `CompactWal` when `RewriteWalFrom` fails at the entry `log` behind the entries `logs`, after `n`
bytes of its record. -/
def compactWalTornInt32 (w : Wal) (snapshotIndex : ℕ) (logs : List LogEntry) (log : LogEntry) (n : ℕ) :
    Wal :=
  let w := w.rewriteWalFrom (w.firstIndexInt32 snapshotIndex) logs
  { w with
    files := modify w.files w.openSegmentName (· ++ log.record.take n)
    compactedSnapshotIndex := snapshotIndex }

/-- No record that is read is above the snapshot index and right behind it, both as `int32_t`. -/
def NoneBehind (w : Wal) (snapshotIndex : ℕ) : Prop :=
  ∀ e ∈ (w.readWalSegments snapshotIndex).2,
    toInt32 snapshotIndex < e.logindex → e.logindex ≠ toInt32 (snapshotIndex + 1)

/-- What is read is in one of the files. -/
lemma mem_readWalSegments {e : LogEntry} :
    e ∈ (w.readWalSegments snapshotIndex).2 ↔
      ∃ file ∈ w.files, e ∈ (readWalSegment snapshotIndex file.2).1 := by
  have hperm := List.perm_insertionSort (fun a b : SegmentFile => b.1.before a.1 = false) w.files
  refine List.mem_flatMap.trans (exists_congr fun file => and_congr_left fun _ => ?_)
  exact hperm.mem_iff

/-- Nothing is behind the snapshot in a part of the files either. -/
lemma NoneBehind.of_parts (h : w.NoneBehind snapshotIndex) {v : Wal} (hparts : Parts w.files v.files) :
    v.NoneBehind snapshotIndex := by
  intro e he
  obtain ⟨file, hfile, he⟩ := mem_readWalSegments.mp he
  obtain hnil | ⟨file', hfile', hpart⟩ := hparts file hfile
  · rw [hnil] at he
    cases he
  · exact h e (mem_readWalSegments.mpr ⟨file', hfile', readWalSegment_of_prefix hpart _ he⟩)

/-- Nothing is recovered exactly if no record is right behind the snapshot. -/
lemma recoveredInt32_eq_nil : w.recoveredInt32 snapshotIndex = [] ↔ w.NoneBehind snapshotIndex :=
  foldl_replayInt32_eq_nil

/-- `ReadPersistedLogs` returns what it returned before, in the same process and in a new one. -/
def Unchanged (w : Wal) (snapshotIndex : ℕ) (files : List SegmentFile) : Prop :=
  { w with files }.recoveredInt32 snapshotIndex = w.recoveredInt32 snapshotIndex ∧
    (Wal.create files).recoveredInt32 snapshotIndex = w.recoveredInt32 snapshotIndex

/-- Where nothing is behind the snapshot, nothing changes. -/
lemma NoneBehind.unchanged (h : w.NoneBehind snapshotIndex) (hparts : Parts w.files files) :
    w.Unchanged snapshotIndex files := by
  have hbefore := recoveredInt32_eq_nil.mpr h
  have hsame : { w with files }.recoveredInt32 snapshotIndex = [] :=
    recoveredInt32_eq_nil.mpr (h.of_parts hparts)
  have hnew : (Wal.create files).recoveredInt32 snapshotIndex = [] :=
    recoveredInt32_eq_nil.mpr (h.of_parts hparts.create)
  exact ⟨hsame.trans hbefore.symm, hnew.trans hbefore.symm⟩

/-- With nothing to keep, nothing is written. -/
lemma NoneBehind.parts_compactOpsInt32 (h : w.NoneBehind snapshotIndex) {d : Disk} {op : FileOp}
    (hop : op ∈ w.compactOpsInt32 snapshotIndex) (hparts : Parts w.files d.files) :
    Parts w.files (d.apply op).files := by
  rw [compactOpsInt32, recoveredInt32_eq_nil.mpr h, walRecords_nil, List.map_nil, List.append_nil,
    List.mem_append, Disk.removeOps, List.mem_append, List.mem_map, List.mem_map,
    List.mem_singleton] at hop
  obtain (⟨file, -, rfl⟩ | ⟨file, -, rfl⟩) | rfl := hop
  · exact hparts.take _ _
  · exact fun x hx => hparts x (List.mem_filter.mp hx).1
  · exact Parts.openSegment (w := { files := d.files }) hparts _

/-- What a write that fails leaves in the directory is there between two operations too. -/
lemma exists_prefix_compactWalTornInt32 (d : Disk) (hfiles : d.files = w.files) {k n : ℕ}
    {log : LogEntry} (hlog : (w.recoveredInt32 snapshotIndex)[k]? = some log) :
    ∃ before, before <+: w.compactOpsInt32 snapshotIndex ∧
      (before.foldl Disk.apply d).files =
        (w.compactWalTornInt32 snapshotIndex ((w.recoveredInt32 snapshotIndex).take k) log n).files := by
  have hremove := d.foldl_removeOps snapshotIndex
  rw [hfiles] at hremove
  rw [compactOpsInt32, compactWalTornInt32]
  generalize w.firstIndexInt32 snapshotIndex = first
  generalize w.recoveredInt32 snapshotIndex = kept at hlog ⊢
  have hpart : walRecords (kept.take k) ++ log.record.take n <+: walRecords kept := by
    obtain ⟨hk, hget⟩ := List.getElem?_eq_some_iff.mp hlog
    have hsplit : kept = kept.take k ++ log :: kept.drop (k + 1) := by
      rw [← hget, List.cons_getElem_drop_succ, List.take_append_drop]
    have hrecords : walRecords kept =
        walRecords (kept.take k) ++ (log.record ++ walRecords (kept.drop (k + 1))) := by
      conv_lhs => rw [hsplit, walRecords_append]
      rfl
    rw [hrecords]
    exact (List.prefix_append_right_inj _).mpr ((List.take_prefix _ _).trans (List.prefix_append _ _))
  refine ⟨Disk.removeOps w.files snapshotIndex ++ [.openSegment (.inprogress first)] ++
    (walRecords (kept.take k) ++ log.record.take n).map (.write (.inprogress first)),
    (List.prefix_append_right_inj _).mpr (hpart.map _), ?_⟩
  have hopened : ((Disk.removeOps w.files snapshotIndex ++
      [FileOp.openSegment (.inprogress first)]).foldl Disk.apply d).files =
        [(.inprogress first, [])] := by
    rw [List.foldl_append, List.foldl_cons, List.foldl_nil, Disk.apply, hremove]
    rfl
  rw [List.foldl_append, Disk.foldl_write _ _ _ [] hopened, List.nil_append]
  have hrewrite := Disk.files_rewriteWalFrom w first (kept.take k)
  have hname : (w.rewriteWalFrom first (kept.take k)).openSegmentName = .inprogress first :=
    congrArg SegmentName.inprogress (foldl_eq (f := Wal.segmentFirstIndex) fun _ _ _ => rfl)
  simp only [hrewrite, hname]
  rw [modify, List.map_singleton, if_pos rfl]

/-- Wherever compaction is cut off, and wherever one of its writes fails, the log stays the same, just
when no record that is read is right behind the snapshot index. -/
theorem compactWal_unchanged_iff (w : Wal) (d : Disk) (snapshotIndex : ℕ) :
    (Survives Disk.apply (fun d => w.Unchanged snapshotIndex d.files) { d with files := w.files }
        (w.compactOpsInt32 snapshotIndex) ∧
      ∀ k n log, (w.recoveredInt32 snapshotIndex)[k]? = some log → n < log.record.length →
        w.Unchanged snapshotIndex (w.compactWalTornInt32 snapshotIndex
          ((w.recoveredInt32 snapshotIndex).take k) log n).files) ↔
      w.NoneBehind snapshotIndex := by
  constructor
  · rintro ⟨hsurvives, -⟩
    -- the segments are removed, and the new one is not there
    have hprefix : Disk.removeOps w.files snapshotIndex <+: w.compactOpsInt32 snapshotIndex :=
      (List.prefix_append _ _).trans (List.prefix_append _ _)
    have hremoved := hsurvives _ hprefix
    have hfiles := Disk.foldl_removeOps { d with files := w.files } snapshotIndex
    simp only at hremoved hfiles
    rw [hfiles] at hremoved
    exact recoveredInt32_eq_nil.mp hremoved.1.symm
  · intro h
    have hsurvives : Survives Disk.apply (fun d => w.Unchanged snapshotIndex d.files)
        { d with files := w.files } (w.compactOpsInt32 snapshotIndex) :=
      Survives.of_keeps (Q := fun d : Disk => Parts w.files d.files) (Parts.refl _)
        (fun d op hop hparts => h.parts_compactOpsInt32 hop hparts) fun d hparts => h.unchanged hparts
    refine ⟨hsurvives, fun k n log hlog _ => ?_⟩
    obtain ⟨before, hbefore, hfiles⟩ :=
      exists_prefix_compactWalTornInt32 { d with files := w.files } rfl (n := n) hlog
    rw [← hfiles]
    exact hsurvives before hbefore

/-- Two entries, and a snapshot of the first one: when the segment is removed, the second one is lost. -/
theorem exists_not_unchanged :
    ∃ (w : Wal) (d : Disk) (snapshotIndex : ℕ) (before : List FileOp),
      d.files = w.files ∧ before <+: w.compactOpsInt32 snapshotIndex ∧
        ¬ w.Unchanged snapshotIndex (before.foldl Disk.apply d).files := by
  let d : Disk := ⟨[], none, {}, segmentFiles [] 1 [⟨[1], 1, 1⟩, ⟨[2], 1, 2⟩]⟩
  have hfiles := Disk.foldl_removeOps { d with files := (Wal.create d.files).files } 1
  refine ⟨Wal.create d.files, { d with files := (Wal.create d.files).files }, 1,
    Disk.removeOps (Wal.create d.files).files 1, rfl,
    (List.prefix_append _ _).trans (List.prefix_append _ _), fun h => ?_⟩
  have hsame := h.1
  simp only at hfiles hsame
  rw [hfiles] at hsame
  have hlost : ({ Wal.create d.files with files := [] } : Wal).recoveredInt32 1 = [] := rfl
  rw [hlost] at hsame
  revert hsame
  decide +kernel

end Wal

end KVCacheRaft
