import KVCacheRaft.Wal.Rollback
import KVCacheRaft.Wal.Tails

/-!
# The size of the write-ahead log

`m_raftLogsFileSize` decides when a snapshot is taken. The writer adds what a group writes,
`RewriteWalFrom` what it writes again, and a new process counts the files. Nobody subtracts: bytes
that the recovery of a failed group removes beyond the group, a segment that loses its name to a new
one, and the part of a record that `RewriteWalFrom` could not finish are not accounted for.
-/

namespace KVCacheRaft

open Machine

/-! ### Bytes in files -/

namespace Wal

variable {w : Wal} {files : List SegmentFile} {name : SegmentName} {content : Bytes}

/-- The bytes in some files. -/
def bytes (files : List SegmentFile) : ℕ := (files.map (·.2.length)).sum

/-- `m_raftLogsFileSize` is the number of bytes in the files. -/
def Counted (w : Wal) : Prop := w.raftLogsFileSize = bytes w.files

instance (w : Wal) : Decidable w.Counted := by
  unfold Counted
  infer_instance

/-- The bytes of one more file. -/
lemma bytes_cons (file : SegmentFile) (files : List SegmentFile) :
    bytes (file :: files) = file.2.length + bytes files := by
  rw [bytes, List.map_cons, List.sum_cons, bytes]

/-- The bytes of two directories. -/
lemma bytes_append (files files' : List SegmentFile) :
    bytes (files ++ files') = bytes files + bytes files' := by
  rw [bytes, List.map_append, List.sum_append, bytes, bytes]

/-- A change of one file. -/
lemma bytes_modify (hnames : (files.map (·.1)).Nodup) (hfile : (name, content) ∈ files)
    (f : Bytes → Bytes) :
    bytes (modify files name f) + content.length = bytes files + (f content).length := by
  induction files with
  | nil => cases hfile
  | cons file files ih =>
    rw [List.map_cons, List.nodup_cons] at hnames
    obtain ⟨hnew, hnames⟩ := hnames
    rw [modify, List.map_cons, bytes_cons, bytes_cons, ← modify]
    obtain rfl | hfile := List.mem_cons.mp hfile
    · -- no other file has the name
      have hrest : modify files name f = files := by
        refine (List.map_congr_left fun other hother => ?_).trans (List.map_id _)
        exact if_neg fun heq => hnew (List.mem_map.mpr ⟨other, hother, heq⟩)
      rw [hrest, if_pos rfl]
      simp only
      omega
    · have hne : file.1 ≠ name := fun heq => hnew (List.mem_map.mpr ⟨_, hfile, heq.symm⟩)
      have hrest := ih hnames hfile
      rw [if_neg hne]
      omega

/-- A new segment is empty. -/
lemma bytes_openSegment (w : Wal) (firstIndex : ℕ) :
    bytes (w.openSegment firstIndex).files = bytes w.files := by
  rw [openSegment]
  simp only
  split_ifs
  · rfl
  · rw [bytes_append]
    rfl

/-- The files that stay and those that go have all the bytes. -/
lemma bytes_filter (files : List SegmentFile) (p : SegmentFile → Bool) :
    bytes (files.filter p) + bytes (files.filter (!p ·)) = bytes files := by
  induction files with
  | nil => rfl
  | cons file files ih =>
    rw [List.filter_cons, List.filter_cons, bytes_cons]
    cases p file with
    | true =>
      simp only [if_true, Bool.not_true, Bool.false_eq_true, if_false]
      rw [bytes_cons]
      omega
    | false =>
      simp only [if_true, Bool.not_false, Bool.false_eq_true, if_false]
      rw [bytes_cons]
      omega

/-- The files that have the name which the open segment gets when it is rolled. -/
def replaced (w : Wal) : List SegmentFile :=
  w.files.filter (·.1 = .closed w.segmentFirstIndex w.segmentLastIndex)

/-- A roll loses the bytes of a file that is replaced. -/
lemma bytes_renamed (w : Wal) : bytes w.renamed + bytes w.replaced = bytes w.files := by
  have hsplit := bytes_filter w.files
    (fun file => decide (file.1 ≠ .closed w.segmentFirstIndex w.segmentLastIndex))
  have hreplaced : w.files.filter (fun file =>
      !decide (file.1 ≠ .closed w.segmentFirstIndex w.segmentLastIndex)) = w.replaced :=
    List.filter_congr fun file _ => by simp
  have hlengths : bytes w.renamed = bytes (w.files.filter fun file =>
      decide (file.1 ≠ .closed w.segmentFirstIndex w.segmentLastIndex)) := by
    rw [bytes, bytes, renamed, List.map_map]
    refine congrArg List.sum (List.map_congr_left fun file _ => ?_)
    simp only [Function.comp_apply]
    split_ifs <;> rfl
  rw [hlengths, ← hreplaced]
  exact hsplit

/-- No bytes are left when every file is empty. -/
lemma bytes_eq_zero : bytes files = 0 ↔ ∀ file ∈ files, file.2 = [] := by
  rw [bytes, List.sum_eq_zero_iff_forall_eq_nat, List.forall_mem_map]
  simp only [List.length_eq_zero_iff]

/-! ### The operations -/

/-- Writing records leaves the counter to the caller. -/
lemma raftLogsFileSize_writeLogs (w : Wal) (logs : List LogEntry) :
    (w.writeLogs logs).1.raftLogsFileSize = w.raftLogsFileSize := by
  induction logs generalizing w with
  | nil => rfl
  | cons log rest ih => exact ih (w.writeLog log)

/-- Writing records adds their bytes to the directory. -/
lemma bytes_writeLogs (hnames : (w.files.map (·.1)).Nodup) (hopened : w.Opened) (logs : List LogEntry) :
    bytes (w.writeLogs logs).1.files = bytes w.files + (walRecords logs).length := by
  have hmodify := bytes_modify hnames hopened.mem (· ++ walRecords logs)
  rw [files_writeLogs]
  rw [List.length_append] at hmodify
  omega

/-- Writing records counts them. -/
lemma segmentEntryCount_writeLogs (w : Wal) (logs : List LogEntry) :
    (w.writeLogs logs).1.segmentEntryCount = w.segmentEntryCount + logs.length := by
  induction logs generalizing w with
  | nil => rfl
  | cons log rest ih =>
    refine (ih (w.writeLog log)).trans ?_
    show w.segmentEntryCount + 1 + rest.length = _
    rw [List.length_cons]
    omega

/-- Writing a WAL anew counts its bytes. -/
lemma raftLogsFileSize_rewriteWalFrom (w : Wal) (firstIndex : ℕ) (logs : List LogEntry) :
    (w.rewriteWalFrom firstIndex logs).raftLogsFileSize = (walRecords logs).length := by
  have hfold : ∀ w : Wal, (logs.foldl (fun w log =>
      { w.writeLog log with raftLogsFileSize := w.raftLogsFileSize + log.record.length })
      w).raftLogsFileSize = w.raftLogsFileSize + (walRecords logs).length := by
    induction logs with
    | nil => exact fun _ => rfl
    | cons log rest ih =>
      intro w
      rw [List.foldl_cons, ih]
      show w.raftLogsFileSize + log.record.length + _ = _ + (log.record ++ walRecords rest).length
      rw [List.length_append]
      omega
  exact (hfold _).trans (Nat.zero_add _)

/-- A WAL that is written anew is counted. -/
lemma counted_rewriteWalFrom (w : Wal) (firstIndex : ℕ) (logs : List LogEntry) :
    (w.rewriteWalFrom firstIndex logs).Counted := by
  rw [Counted, raftLogsFileSize_rewriteWalFrom, Disk.files_rewriteWalFrom]
  rfl

/-- `ReadPersistedLogs` counts what it leaves of the files. -/
lemma counted_readPersistedLogs (w : Wal) (snapshotIndex : ℕ) :
    (w.readPersistedLogs snapshotIndex).1.Counted := by
  show (w.files.map fun file => (readWalSegment snapshotIndex file.2).2).sum =
    ((w.files.map fun file => (file.1, file.2.take (readWalSegment snapshotIndex file.2).2)).map
      (·.2.length)).sum
  rw [List.map_map]
  refine congrArg List.sum (List.map_congr_left fun file _ => ?_)
  have hle : (readWalSegment snapshotIndex file.2).2 ≤ file.2.length := recordBytes_le
  exact (List.length_take_of_le hle).symm

end Wal

/-! ### Runs -/

/-- Whether the open file is there is a matter of the names. -/
lemma Wal.Opened.congr {v w : Wal} (h : w.Opened) (hnames : v.files.map (·.1) = w.files.map (·.1))
    (hname : v.openSegmentName = w.openSegmentName) : v.Opened := by
  obtain ⟨file, hfile, hopen⟩ := h
  have hmem : file.1 ∈ v.files.map (·.1) := hnames ▸ List.mem_map_of_mem hfile
  obtain ⟨file', hfile', heq⟩ := List.mem_map.mp hmem
  exact ⟨file', hfile', by rw [heq, hopen, hname]⟩

namespace WalWriter

variable {α β : Type} {s t : WalWriter α β}

/-- What happens to the process that counts: an event, a new process, or a new process that has read
the log too. -/
inductive Course (α β : Type) where
  | life (l : Life α β)
  | reopen (crash : Crash) (found : List SegmentFile) (snapshotIndex : ℕ)

def course (s : WalWriter α β) : Course α β → Option (WalWriter α β)
  | .life l => s.live l
  | .reopen crash found snapshotIndex => (s.live (.restart crash found)).map fun s =>
    { s with wal := (s.wal.readPersistedLogs snapshotIndex).1 }

/-- A group that fails is cut off where it started; a segment that is rolled takes its name from no file
with contents; and `RewriteWalFrom` does not fail within a record. -/
def Sized (s : WalWriter α β) : Course α β → Prop
  | .life (.event (.round o)) =>
    let (wal, need_roll) := s.wal.writeLogs (s.group.flatMap (·.logs))
    if o.torn.isSome then s.offset = s.wal.content.length
    else need_roll = true → o.sync_ok = true → ∀ file ∈ wal.replaced, file.2 = []
  | .life (.event (.compactWal _ torn)) => ∀ place ∈ torn, place.2 = 0
  | _ => True

instance (s : WalWriter α β) (c : Course α β) : Decidable (s.Sized c) := by
  unfold Sized
  split <;> infer_instance

/-- The files have names of their own, one of them is open, and the offset is in it. -/
structure Placed (s : WalWriter α β) : Prop where
  names : (s.wal.files.map (·.1)).Nodup
  opened : s.wal.Opened
  offset_le : s.offset ≤ s.wal.content.length

/-- No file operation makes two files of one name. -/
lemma nodup_apply {d : Disk} (h : (d.files.map (·.1)).Nodup) (op : FileOp) :
    ((d.apply op).files.map (·.1)).Nodup := by
  cases op with
  | ftruncate name length =>
    show ((Wal.modify d.files name _).map (·.1)).Nodup
    rw [Wal.map_fst_modify]
    exact h
  | write name b =>
    show ((Wal.modify d.files name (· ++ [b])).map (·.1)).Nodup
    rw [Wal.map_fst_modify]
    exact h
  | unlink name =>
    have hsub : (d.files.filter (·.1 ≠ name)).Sublist d.files := List.filter_sublist
    exact h.sublist (hsub.map _)
  | openSegment name => exact Wal.nodup_created h name
  | openTmp => exact h
  | writeTmp b => exact h
  | unlinkTmp => exact h
  | rename => exact h
  | store field => exact h

/-- Whatever a crash leaves, the files have names of their own. -/
lemma Placed.left (h : s.Placed) {crash : Crash} {files : List SegmentFile}
    (hleft : s.left crash = some files) : (files.map (·.1)).Nodup := by
  have hwritten : ∀ logs, ((s.wal.writeLogs logs).1.files.map (·.1)).Nodup := fun logs => by
    rw [Wal.files_writeLogs, Wal.map_fst_modify]
    exact h.names
  cases crash with
  | idle =>
    obtain rfl := Option.some.inj hleft
    exact h.names
  | writing torn =>
    obtain ⟨batch, -, hleft⟩ := Option.bind_eq_some_iff.mp hleft
    obtain ⟨log, -, hleft⟩ := Option.bind_eq_some_iff.mp hleft
    obtain ⟨-, hleft⟩ := Option.ite_none_right_eq_some.mp hleft
    obtain rfl := Option.some.inj hleft
    rw [Wal.map_fst_modify]
    exact hwritten _
  | written =>
    obtain rfl := Option.some.inj hleft
    exact hwritten _
  | renamed =>
    obtain ⟨-, hleft⟩ := Option.ite_none_right_eq_some.mp hleft
    obtain rfl := Option.some.inj hleft
    exact Wal.nodup_renamed (hwritten _)
  | compacting snapshotIndex operations =>
    obtain rfl := Option.some.inj hleft
    generalize (compactOps s.wal.files snapshotIndex).take operations = ops
    have hfold : ∀ d : Disk, (d.files.map (·.1)).Nodup →
        ((ops.foldl Disk.apply d).files.map (·.1)).Nodup := by
      induction ops with
      | nil => exact fun _ hd => hd
      | cons op ops ih => exact fun d hd => ih (d.apply op) (nodup_apply hd op)
    exact hfold ⟨[], none, {}, s.wal.files⟩ h.names

/-- A writer that starts is at its place. -/
lemma placed_started {files : List SegmentFile} (h : (files.map (·.1)).Nodup) :
    (started files : WalWriter α β).Placed := by
  have hreopen : ((Wal.reopenLatestSegment { files }).files.map (·.1)).Nodup ∧
      (Wal.reopenLatestSegment { files }).Opened := by
    rw [Wal.reopenLatestSegment]
    cases hlast : (listSegments files).getLast? with
    | none => exact ⟨Wal.nodup_openSegment h 1, Wal.opened_openSegment _ 1⟩
    | some file =>
      obtain ⟨name, content⟩ := file
      cases name with
      | closed first last => exact ⟨Wal.nodup_openSegment h _, Wal.opened_openSegment _ _⟩
      | inprogress first =>
        have hfile : (SegmentName.inprogress first, content) ∈ files :=
          (List.perm_insertionSort _ files).subset (List.mem_of_getLast? hlast)
        have hopened : ({ files := files, segmentFirstIndex := first } : Wal).Opened := ⟨_, hfile, rfl⟩
        have hnames := Wal.map_fst_modify files (.inprogress first)
          (·.take (readWalSegment 0 content).2)
        exact ⟨hnames.symm ▸ h, hopened.congr hnames rfl⟩
  exact ⟨hreopen.1, hreopen.2, Nat.zero_le _⟩

/-- `CompactWal` leaves one file. -/
lemma placed_rewritten {v w : Wal} {firstIndex : ℕ} {logs : List LogEntry}
    (hv : v.files.map (·.1) = (w.rewriteWalFrom firstIndex logs).files.map (·.1))
    (hname : v.openSegmentName = (w.rewriteWalFrom firstIndex logs).openSegmentName) :
    (v.files.map (·.1)).Nodup ∧ v.Opened := by
  refine ⟨?_, (Wal.opened_rewriteWalFrom w firstIndex logs).1.congr hv hname⟩
  rw [hv, Disk.files_rewriteWalFrom]
  exact List.nodup_singleton _

/-- A writer stays at its place while files, segment and offset do. -/
lemma Placed.congr (h : s.Placed) (hfiles : t.wal.files = s.wal.files)
    (hfirst : t.wal.segmentFirstIndex = s.wal.segmentFirstIndex) (hoffset : t.offset = s.offset) :
    t.Placed := by
  have hname : t.wal.openSegmentName = s.wal.openSegmentName := congrArg SegmentName.inprogress hfirst
  refine ⟨hfiles ▸ h.names, ?_, ?_⟩
  · exact h.opened.congr (by rw [hfiles]) hname
  · rw [Wal.content, hfiles, hname, hoffset]
    exact h.offset_le

/-- The writes of a group. -/
lemma Placed.written (h : s.Placed) : (s.pop.writeGroup s.group).Placed where
  names := by
    show ((s.wal.writeLogs _).1.files.map (·.1)).Nodup
    rw [Wal.files_writeLogs, Wal.map_fst_modify]
    exact h.names
  opened := by
    show (s.wal.writeLogs (s.group.flatMap (·.logs))).1.Opened
    exact (h.opened.writeLogs _).1
  offset_le := by
    have hcontent := (h.opened.writeLogs (s.group.flatMap (·.logs))).2
    show (if _ then s.offset else (s.wal.writeLogs _).1.content.length) ≤
      (s.wal.writeLogs (s.group.flatMap (·.logs))).1.content.length
    split_ifs
    · rw [hcontent, List.length_append]
      exact Nat.le_trans h.offset_le (Nat.le_add_right _ _)
    · exact Nat.le_refl _

/-- An empty segment is kept; any other is closed and the next one opened. -/
lemma rollSegment_cases (w : Wal) : w.segmentEntryCount = 0 ∧ w.rollSegment = w ∨
    w.segmentEntryCount ≠ 0 ∧
      w.rollSegment = { w with files := w.renamed }.openSegment (w.segmentLastIndex + 1) := by
  rw [Wal.rollSegment]
  split_ifs with hcount
  · exact .inl ⟨hcount, rfl⟩
  · exact .inr ⟨hcount, rfl⟩

/-- A roll leaves the writer at its place. -/
lemma Placed.rolled (h : s.Placed) (sync_ok : Bool) : (s.roll sync_ok).Placed := by
  cases sync_ok with
  | false => exact h.congr rfl rfl rfl
  | true =>
    have hroll : (s.wal.rollSegment.files.map (·.1)).Nodup ∧ s.wal.rollSegment.Opened := by
      obtain ⟨-, hw⟩ | ⟨-, hw⟩ := rollSegment_cases s.wal
      · rw [hw]
        exact ⟨h.names, h.opened⟩
      · rw [hw]
        exact ⟨Wal.nodup_openSegment (Wal.nodup_renamed h.names) _, Wal.opened_openSegment _ _⟩
    exact ⟨hroll.1, hroll.2, Nat.zero_le _⟩

/-- A step of the writer leaves it at its place. -/
lemma Placed.step (h : s.Placed) {e : Event α β} (ht : s.step e = some t) : t.Placed := by
  cases e with
  | push b =>
    obtain rfl := Option.some.inj ht
    split_ifs
    · exact h
    · exact h.congr rfl rfl rfl
  | round o =>
    obtain ⟨-, ht⟩ := Option.ite_none_right_eq_some.mp ht
    obtain ⟨torn, -, hfails⟩ | ⟨-, ⟨-, rfl⟩ | ⟨-, rfl⟩ | ⟨-, rfl⟩⟩ := round_cases ht
    · obtain ⟨rest, hrecovered⟩ := recovered_writeFails hfails
      obtain ⟨hopened, hcontent⟩ := hrecovered.content h.opened
      refine ⟨?_, hopened, ?_⟩
      · rw [hrecovered.files, Wal.map_fst_modify]
        exact h.names
      · rw [hrecovered.offset, hcontent, List.length_take, List.length_append]
        have hle := h.offset_le
        omega
    · exact h.written.rolled o.sync_ok
    · exact h.written.congr rfl rfl rfl
    · exact h.written
  | compactWal snapshotIndex torn =>
    cases torn with
    | none =>
      obtain rfl := Option.some.inj ht
      obtain ⟨hnames, hopened⟩ := placed_rewritten (v := s.wal.compactWal snapshotIndex) rfl rfl
      exact ⟨hnames, hopened, Nat.le_refl _⟩
    | some place =>
      obtain ⟨log, -, ht⟩ := Option.bind_eq_some_iff.mp ht
      obtain ⟨-, ht⟩ := Option.ite_none_right_eq_some.mp ht
      obtain rfl := Option.some.inj ht
      have hmodify : (s.wal.compactWalTorn snapshotIndex ((s.wal.compacted snapshotIndex).take place.1)
          log place.2).files.map (·.1) = (s.wal.rewriteWalFrom _ _).files.map (·.1) :=
        Wal.map_fst_modify _ _ (· ++ log.record.take place.2)
      obtain ⟨hnames, hopened⟩ := placed_rewritten hmodify rfl
      exact ⟨hnames, hopened, Nat.le_refl _⟩
  | shutdown sync_ok =>
    obtain ⟨-, ht⟩ := Option.ite_none_right_eq_some.mp ht
    obtain rfl := Option.some.inj ht
    split_ifs
    · exact h.congr rfl rfl rfl
    · exact h.congr rfl rfl rfl

/-- A step of the process leaves the writer at its place. -/
lemma Placed.live (h : s.Placed) {l : Life α β} (ht : s.live l = some t) : t.Placed := by
  cases l with
  | event e => exact h.step ht
  | restart crash found =>
    obtain ⟨files, hleft, ht⟩ := Option.bind_eq_some_iff.mp ht
    obtain ⟨hfound, ht⟩ := Option.ite_none_right_eq_some.mp ht
    obtain rfl := Option.some.inj ht
    exact placed_started ((hfound.map _).nodup_iff.mpr (h.left hleft))

/-- A step over restarts leaves the writer at its place. -/
lemma Placed.course (h : s.Placed) {c : Course α β} (ht : s.course c = some t) : t.Placed := by
  cases c with
  | life l => exact h.live ht
  | reopen crash found snapshotIndex =>
    obtain ⟨u, hu, rfl⟩ := Option.map_eq_some_iff.mp ht
    have hplaced := h.live hu
    have hnames : (u.wal.readPersistedLogs snapshotIndex).1.files.map (·.1) =
        u.wal.files.map (·.1) := List.map_map
    obtain ⟨files, -, hu⟩ := Option.bind_eq_some_iff.mp hu
    obtain ⟨-, hu⟩ := Option.ite_none_right_eq_some.mp hu
    have hoffset : u.offset = 0 := (congrArg offset (Option.some.inj hu)).symm
    refine ⟨?_, hplaced.opened.congr hnames rfl, ?_⟩
    · show ((u.wal.readPersistedLogs snapshotIndex).1.files.map (·.1)).Nodup
      rw [hnames]
      exact hplaced.names
    · show u.offset ≤ _
      rw [hoffset]
      exact Nat.zero_le _

/-! ### What keeps the count -/

/-- A group that is written is counted. -/
lemma counted_written (h : s.Placed) (hs : s.wal.Counted) : (s.pop.writeGroup s.group).wal.Counted := by
  have hsize := Wal.raftLogsFileSize_writeLogs s.wal (s.group.flatMap (·.logs))
  have hbytes := Wal.bytes_writeLogs h.names h.opened (s.group.flatMap (·.logs))
  show (s.wal.writeLogs _).1.raftLogsFileSize + _ = Wal.bytes (s.wal.writeLogs _).1.files
  rw [hsize, hbytes, hs]

/-- The recovery keeps the count just when it removes what the group has written and no more. -/
lemma counted_writeFails_iff (h : s.Placed) (hs : s.wal.Counted) {torn : Torn}
    (ht : s.pop.writeFails s.group torn = some t) :
    t.wal.Counted ↔ s.offset = s.wal.content.length := by
  have hsize : t.wal.raftLogsFileSize = s.wal.raftLogsFileSize := by
    obtain ⟨before, log, rfl⟩ := writeFails_cases ht
    rfl
  obtain ⟨rest, hrecovered⟩ := recovered_writeFails ht
  have hmodify := Wal.bytes_modify h.names h.opened.mem fun content =>
    (content ++ rest).take s.offset
  have hle := h.offset_le
  rw [Wal.Counted] at hs
  rw [Wal.Counted, hsize, hrecovered.files, hs]
  simp only [List.length_take, List.length_append] at hmodify
  omega

/-- A roll keeps it just when the new name is not that of a file with contents. -/
lemma counted_rollSegment_iff {w : Wal} (hcount : w.segmentEntryCount ≠ 0) (hw : w.Counted) :
    w.rollSegment.Counted ↔ ∀ file ∈ w.replaced, file.2 = [] := by
  have hbytes := w.bytes_renamed
  obtain ⟨hzero, -⟩ | ⟨-, hroll⟩ := rollSegment_cases w
  · exact absurd hzero hcount
  · have hopen := Wal.bytes_openSegment { w with files := w.renamed } (w.segmentLastIndex + 1)
    have hsize : w.rollSegment.raftLogsFileSize = w.raftLogsFileSize := by rw [hroll]; rfl
    rw [Wal.Counted] at hw
    rw [← Wal.bytes_eq_zero, Wal.Counted, hsize, hw, hroll, hopen]
    simp only
    omega

/-- A group with which a segment is to be rolled has written to it. -/
lemma segmentEntryCount_of_roll {w : Wal} {logs : List LogEntry} (hroll : (w.writeLogs logs).2 = true) :
    (w.writeLogs logs).1.segmentEntryCount ≠ 0 := by
  cases logs with
  | nil => cases hroll
  | cons log rest =>
    rw [Wal.segmentEntryCount_writeLogs, List.length_cons]
    exact Nat.succ_ne_zero _

/-- A round keeps the counter right exactly if it is sized. -/
lemma counted_round_iff (h : s.Placed) (hs : s.wal.Counted) {o : Outcome} (ht : s.round o = some t) :
    t.wal.Counted ↔ s.Sized (.life (.event (.round o))) := by
  have hwritten := counted_written h hs
  have hsized : s.Sized (.life (.event (.round o))) ↔
      if o.torn.isSome then s.offset = s.wal.content.length
      else (s.wal.writeLogs (s.group.flatMap (·.logs))).2 = true → o.sync_ok = true →
        ∀ file ∈ (s.wal.writeLogs (s.group.flatMap (·.logs))).1.replaced, file.2 = [] := Iff.rfl
  rw [hsized]
  rw [round] at ht
  cases htorn : o.torn with
  | some torn =>
    simp only [htorn] at ht
    exact counted_writeFails_iff h hs ht
  | none =>
    simp only [htorn] at ht
    simp only [Option.isSome_none, Bool.false_eq_true, if_false]
    split_ifs at ht with hroll hsync
    · obtain rfl := Option.some.inj ht
      have hcount := segmentEntryCount_of_roll hroll
      cases hok : o.sync_ok with
      | false => exact iff_of_true hwritten fun _ htrue => by cases htrue
      | true =>
        have hiff := counted_rollSegment_iff (w := (s.pop.writeGroup s.group).wal) hcount hwritten
        exact hiff.trans ⟨fun hnil _ _ => hnil, fun hnil => hnil hroll rfl⟩
    · obtain rfl := Option.some.inj ht
      exact iff_of_true hwritten fun htrue => absurd htrue hroll
    · obtain rfl := Option.some.inj ht
      exact iff_of_true hwritten fun htrue => absurd htrue hroll

/-- `RewriteWalFrom` does not count the part of a record that it could not finish. -/
lemma counted_compactWalTorn_iff (w : Wal) (snapshotIndex : ℕ) (logs : List LogEntry) {log : LogEntry}
    {n : ℕ} (hn : n < log.record.length) :
    (w.compactWalTorn snapshotIndex logs log n).Counted ↔ n = 0 := by
  obtain ⟨first, hfirst⟩ : ∃ first, first = ((w.compacted snapshotIndex).head?.map
    (toUInt64 ·.logindex)).getD (snapshotIndex + 1) := ⟨_, rfl⟩
  have hsize : (w.compactWalTorn snapshotIndex logs log n).raftLogsFileSize =
      (walRecords logs).length := Wal.raftLogsFileSize_rewriteWalFrom w _ logs
  have hopened := (Wal.opened_rewriteWalFrom w first logs).1
  have hfiles := Disk.files_rewriteWalFrom w first logs
  have hnames : ((w.rewriteWalFrom first logs).files.map (·.1)).Nodup := by
    rw [hfiles]
    exact List.nodup_singleton _
  have hmodify := Wal.bytes_modify hnames hopened.mem (· ++ log.record.take n)
  have hbytes : Wal.bytes (w.rewriteWalFrom first logs).files = (walRecords logs).length := by
    rw [hfiles]
    rfl
  have htorn : (w.compactWalTorn snapshotIndex logs log n).files =
      Wal.modify (w.rewriteWalFrom first logs).files (w.rewriteWalFrom first logs).openSegmentName
        (· ++ log.record.take n) := by
    rw [hfirst]
    rfl
  rw [Wal.Counted, hsize, htorn]
  rw [hbytes, List.length_append, List.length_take_of_le (Nat.le_of_lt hn)] at hmodify
  omega

/-- A step keeps the count just when it is sized. -/
lemma counted_course_iff (h : s.Placed) (hs : s.wal.Counted) {c : Course α β}
    (ht : s.course c = some t) : t.wal.Counted ↔ s.Sized c := by
  cases c with
  | reopen crash found snapshotIndex =>
    obtain ⟨u, -, rfl⟩ := Option.map_eq_some_iff.mp ht
    exact iff_of_true (Wal.counted_readPersistedLogs u.wal snapshotIndex) trivial
  | life l =>
    cases l with
    | restart crash found =>
      obtain ⟨files, -, ht⟩ := Option.bind_eq_some_iff.mp ht
      obtain ⟨-, ht⟩ := Option.ite_none_right_eq_some.mp ht
      obtain rfl := Option.some.inj ht
      exact iff_of_true rfl trivial
    | event e =>
      cases e with
      | push b =>
        obtain rfl := Option.some.inj ht
        refine iff_of_true ?_ trivial
        split_ifs
        · exact hs
        · exact hs
      | round o =>
        obtain ⟨-, ht⟩ := Option.ite_none_right_eq_some.mp ht
        exact counted_round_iff h hs ht
      | compactWal snapshotIndex torn =>
        cases torn with
        | none =>
          obtain rfl := Option.some.inj ht
          exact iff_of_true (Wal.counted_rewriteWalFrom _ _ _) fun _ hplace => by cases hplace
        | some place =>
          obtain ⟨log, -, ht⟩ := Option.bind_eq_some_iff.mp ht
          obtain ⟨hlt, ht⟩ := Option.ite_none_right_eq_some.mp ht
          obtain rfl := Option.some.inj ht
          refine (counted_compactWalTorn_iff s.wal snapshotIndex _ hlt).trans ⟨fun hzero p hp => ?_, ?_⟩
          · obtain rfl := Option.some.inj hp
            exact hzero
          · exact fun hzero => hzero place rfl
      | shutdown sync_ok =>
        obtain ⟨-, ht⟩ := Option.ite_none_right_eq_some.mp ht
        obtain rfl := Option.some.inj ht
        refine iff_of_true ?_ trivial
        split_ifs
        · exact hs
        · exact hs

/-- In every run whose steps are sized, from any directory, `m_raftLogsFileSize` is the number of bytes in
the segments; and it stays so with one more step just when that step is sized. -/
theorem raftLogsFileSize_exact {files : List SegmentFile} (hfiles : (files.map (·.1)).Nodup)
    {s : WalWriter α β} (hrun : Run course Sized (started files) s) :
    s.wal.Counted ∧ ∀ c t, s.course c = some t → (t.wal.Counted ↔ s.Sized c) := by
  have hinv : s.Placed ∧ s.wal.Counted :=
    hrun.invariant (I := fun s => s.Placed ∧ s.wal.Counted)
      (fun _ _ _ ⟨hplaced, hcounted⟩ hsized hstep =>
        ⟨hplaced.course hstep, (counted_course_iff hplaced hcounted hstep).mpr hsized⟩)
      ⟨placed_started hfiles, rfl⟩
  exact ⟨hinv.2, fun _ _ ht => counted_course_iff hinv.1 hinv.2 ht⟩

/-- Two groups, of which the second one fails. -/
theorem raftLogsFileSize_exact_written :
    ∃ s : WalWriter ℕ ℕ, s.wal.Counted ∧ s.wal.raftLogsFileSize = 31 ∧ s.answers.length = 2 := by
  have hruns : ∃ s ∈ runIf course Sized (started [] : WalWriter ℕ ℕ)
      [.life (.event (.push ⟨[⟨[1], 1, 1⟩], .waiter 0⟩)), .life (.event (.round ⟨none, true, true⟩)),
        .life (.event (.push ⟨[⟨[2], 1, 2⟩], .waiter 1⟩)),
        .life (.event (.round ⟨some ⟨0, 0, 5⟩, true, true⟩))],
      s.wal.raftLogsFileSize = 31 ∧ s.answers.length = 2 := by decide
  obtain ⟨s, hrun, hsize, hanswers⟩ := exists_run_of_runIf hruns
  have hnone : (([] : List SegmentFile).map (·.1)).Nodup := List.nodup_nil
  exact ⟨s, (raftLogsFileSize_exact hnone hrun).1, hsize, hanswers⟩

/-- A record is found by a new process, and its first group fails: the record is gone, and it is
counted. -/
theorem exists_miscounted :
    ∃ s : WalWriter ℕ ℕ, Run course (fun _ _ => True) (started []) s ∧ ¬ s.wal.Counted ∧
      Wal.bytes s.wal.files = 0 := by
  have hruns : ∃ s ∈ runIf course (fun _ _ => True) (started [] : WalWriter ℕ ℕ)
      [.life (.event (.push ⟨[⟨[1], 1, 1⟩], .waiter 0⟩)), .life (.event (.round ⟨none, true, true⟩)),
        .reopen .idle [(.inprogress 1, walRecords [⟨[1], 1, 1⟩])] 0,
        .life (.event (.push ⟨[⟨[2], 1, 2⟩], .waiter 1⟩)),
        .life (.event (.round ⟨some ⟨0, 0, 0⟩, true, true⟩))],
      ¬ s.wal.Counted ∧ Wal.bytes s.wal.files = 0 := by decide
  exact exists_run_of_runIf hruns

end WalWriter

end KVCacheRaft
