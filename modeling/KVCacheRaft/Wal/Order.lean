import KVCacheRaft.Wal.Segments

/-!
# Replay in the order of the writes

`ReadPersistedLogs` reads the segments in the order of the first indices in their names. That is the
order of the writes as long as every segment is closed at an index from which the next one starts no
lower, and no two segments are closed with one first index.
-/

namespace KVCacheRaft

/-- A closed segment with its entries. -/
structure Segment where
  first : ℕ
  last : ℕ
  entries : List LogEntry

namespace Segment

def name (s : Segment) : SegmentName := .closed s.first s.last

def file (s : Segment) : SegmentFile := (s.name, walRecords s.entries)

end Segment

/-- The files of some closed segments and an open one. -/
def segmentFiles (closed : List Segment) (first : ℕ) (opened : List LogEntry) : List SegmentFile :=
  closed.map Segment.file ++ [(.inprogress first, walRecords opened)]

/-- All entries, in the order in which they were written. -/
def written (closed : List Segment) (opened : List LogEntry) : List LogEntry :=
  closed.flatMap Segment.entries ++ opened

/-- Closed segments, in the order in which they were closed, in front of an open one. -/
structure InOrder (closed : List Segment) (first : ℕ) : Prop where
  increasing : closed.Pairwise fun s t => s.first < t.first
  first_le : ∀ s ∈ closed, s.first ≤ first

/-- Segments in order are ranked below the open one. -/
lemma InOrder.rank_lt' {closed : List Segment} {first : ℕ} (h : InOrder closed first)
    (content : Bytes) :
    (closed.map Segment.file ++ [(SegmentName.inprogress first, content)]).Pairwise
      fun a b => a.1.rank < b.1.rank := by
  rw [List.pairwise_append]
  refine ⟨?_, List.pairwise_singleton _ _, ?_⟩
  · rw [List.pairwise_map]
    refine h.increasing.imp fun {s t} hlt => ?_
    show 2 * s.first + 0 < 2 * t.first + 0
    omega
  · intro a ha b hb
    obtain ⟨s, hs, rfl⟩ := List.mem_map.mp ha
    obtain rfl := List.mem_singleton.mp hb
    have hle := h.first_le s hs
    show 2 * s.first + 0 < 2 * first + 1
    omega

/-- Segments in order are ranked one below the next. -/
lemma InOrder.rank_lt {closed : List Segment} {first : ℕ} (h : InOrder closed first)
    (opened : List LogEntry) :
    (segmentFiles closed first opened).Pairwise fun a b => a.1.rank < b.1.rank :=
  h.rank_lt' _

/-- Files in the order of their names are listed in that order, however the directory lists them. -/
lemma listSegments_of_perm {files sorted : List SegmentFile} (hperm : files.Perm sorted)
    (hsorted : sorted.Pairwise fun a b => a.1.rank < b.1.rank) : listSegments files = sorted := by
  have hrel : ∀ a b : SegmentFile, b.1.before a.1 = false ↔ a.1.rank ≤ b.1.rank := by
    intro a b
    rw [← Nat.not_lt, ← SegmentName.before_iff, Bool.not_eq_true]
  have hp := (List.perm_insertionSort (fun a b : SegmentFile => b.1.before a.1 = false) files).trans
    hperm
  have : Std.Total fun a b : SegmentFile => b.1.before a.1 = false :=
    ⟨fun a b => by rw [hrel, hrel]; exact Nat.le_total _ _⟩
  have : IsTrans SegmentFile fun a b => b.1.before a.1 = false :=
    ⟨fun a b c => by rw [hrel, hrel, hrel]; exact Nat.le_trans⟩
  have hpairwise := List.pairwise_insertionSort (fun a b : SegmentFile => b.1.before a.1 = false)
    files
  refine List.Perm.eq_of_pairwise ?_ hpairwise
    (hsorted.imp fun hlt => (hrel _ _).mpr (Nat.le_of_lt hlt)) hp
  intro a b ha hb hab hba
  have hab' := (hrel a b).mp hab
  have hba' := (hrel b a).mp hba
  have hone : ∀ x ∈ sorted, ∀ y ∈ sorted, x.1.rank = y.1.rank → x = y :=
    List.Pairwise.forall_of_forall_of_flip (fun _ _ _ => rfl)
      (hsorted.imp fun hlt heq => absurd heq (Nat.ne_of_lt hlt))
      (hsorted.imp fun hlt heq => absurd heq (Nat.ne_of_gt hlt))
  exact hone a (hp.subset ha) b hb (Nat.le_antisymm hab' hba')

/-- The segments on disk, with their entries, are `closed` and `opened`. -/
structure Wal.Holds (w : Wal) (closed : List Segment) (opened : List LogEntry) : Prop where
  files : w.files.Perm (segmentFiles closed w.segmentFirstIndex opened)
  order : InOrder closed w.segmentFirstIndex
  last : w.segmentLastIndex = (opened.getLast?.map (toUInt64 ·.logindex)).getD (w.segmentFirstIndex - 1)
  count : w.segmentEntryCount = opened.length
  bytes : w.segmentBytes = (walRecords opened).length
  admitted : ∀ e ∈ written closed opened, e.Admitted

namespace Wal.Holds

variable {w : Wal} {closed : List Segment} {opened : List LogEntry}

/-- The segments are listed in their order. -/
lemma listSegments (h : w.Holds closed opened) :
    listSegments w.files = segmentFiles closed w.segmentFirstIndex opened :=
  listSegments_of_perm h.files (h.order.rank_lt opened)

/-- No record is read from nothing. -/
lemma readWalRecord_nil : readWalRecord [] = none := rfl

/-- The entries of the open segment are read back. -/
lemma admitted_opened (h : w.Holds closed opened) : ∀ e ∈ opened, e.Admitted := fun e he =>
  h.admitted e (List.mem_append_right _ he)

/-- The entries of a closed segment are read back. -/
lemma admitted_closed (h : w.Holds closed opened) {s : Segment} (hs : s ∈ closed) :
    ∀ e ∈ s.entries, e.Admitted := fun e he =>
  h.admitted e (List.mem_append_left _ (List.mem_flatMap.mpr ⟨s, hs, he⟩))

/-- Every segment is read to its end. -/
lemma read_file (h : w.Holds closed opened) {file : SegmentFile} (hfile : file ∈ w.files)
    (snapshotIndex : ℕ) : (readWalSegment snapshotIndex file.2).2 = file.2.length := by
  have hmem := h.files.subset hfile
  have hread : ∀ {entries : List LogEntry}, (∀ e ∈ entries, e.Admitted) →
      (readWalSegment snapshotIndex (walRecords entries)).2 = (walRecords entries).length := by
    intro entries hentries
    have := readWalSegment_append hentries readWalRecord_nil snapshotIndex
    rw [List.append_nil] at this
    rw [this]
  obtain hmem | hmem := List.mem_append.mp hmem
  · obtain ⟨s, hs, rfl⟩ := List.mem_map.mp hmem
    exact hread (h.admitted_closed hs)
  · obtain rfl := List.mem_singleton.mp hmem
    exact hread h.admitted_opened

/-- The entries of all segments are read in the order of the writes. -/
lemma readWalSegments (h : w.Holds closed opened) (snapshotIndex : ℕ) :
    w.readWalSegments snapshotIndex =
      (w, (written closed opened).filter (·.logindex > (snapshotIndex : ℤ))) := by
  have hfiles : w.files.map (fun file =>
      (file.1, file.2.take (readWalSegment snapshotIndex file.2).2)) = w.files := by
    refine (List.map_congr_left fun file hfile => ?_).trans (List.map_id _)
    rw [h.read_file hfile, List.take_length]
    rfl
  have hread : ∀ {entries : List LogEntry}, (∀ e ∈ entries, e.Admitted) →
      (readWalSegment snapshotIndex (walRecords entries)).1 =
        entries.filter (·.logindex > (snapshotIndex : ℤ)) := by
    intro entries hentries
    have := readWalSegment_append hentries readWalRecord_nil snapshotIndex
    rw [List.append_nil] at this
    rw [this]
  have hclosed : ∀ segments : List Segment, (∀ s ∈ segments, ∀ e ∈ s.entries, e.Admitted) →
      (segments.map Segment.file).flatMap (fun file => (readWalSegment snapshotIndex file.2).1) =
        (segments.flatMap Segment.entries).filter (·.logindex > (snapshotIndex : ℤ)) := by
    intro segments hsegments
    induction segments with
    | nil => rfl
    | cons s segments ih =>
      have hs := hread (hsegments s List.mem_cons_self)
      have hrest := ih fun t ht => hsegments t (List.mem_cons_of_mem _ ht)
      rw [List.map_cons, List.flatMap_cons, hrest, List.flatMap_cons, List.filter_append]
      exact congrArg (· ++ _) hs
  unfold Wal.readWalSegments
  rw [hfiles, h.listSegments, segmentFiles, List.flatMap_append, List.flatMap_singleton,
    hclosed closed fun s hs => h.admitted_closed hs, hread h.admitted_opened, written,
    List.filter_append]

/-- The order in which files are listed does not matter. -/
lemma perm (h : w.Holds closed opened) {files : List SegmentFile} (hperm : files.Perm w.files) :
    Holds { w with files } closed opened where
  files := hperm.trans h.files
  order := h.order
  last := h.last
  count := h.count
  bytes := h.bytes
  admitted := h.admitted

/-- Only the open segment has its name. -/
lemma map_closed (closed : List Segment) (first : ℕ) (f : SegmentFile → SegmentFile) :
    ((closed.map Segment.file).map fun file => if file.1 = .inprogress first then f file else file) =
      closed.map Segment.file := by
  induction closed with
  | nil => rfl
  | cons s closed ih =>
    have hne : s.file.1 ≠ .inprogress first := fun heq => SegmentName.noConfusion heq
    rw [List.map_cons, List.map_cons, ih, if_neg hne]

/-- Changing the open segment leaves the closed ones. -/
lemma modify_opened (closed : List Segment) (first : ℕ) (content : Bytes) (f : Bytes → Bytes) :
    modify (closed.map Segment.file ++ [(.inprogress first, content)]) (.inprogress first) f =
      closed.map Segment.file ++ [(.inprogress first, f content)] := by
  rw [modify, List.map_append, map_closed closed first fun file => (file.1, f file.2)]
  exact congrArg (closed.map Segment.file ++ [·]) (if_pos rfl)

/-- Changing the open segment changes its records only. -/
lemma modify_segmentFiles (closed : List Segment) (first : ℕ) (opened : List LogEntry)
    (f : Bytes → Bytes) :
    modify (segmentFiles closed first opened) (.inprogress first) f =
      closed.map Segment.file ++ [(.inprogress first, f (walRecords opened))] :=
  modify_opened closed first _ f

/-- A record is written behind those of the open segment. -/
lemma writeLog (h : w.Holds closed opened) {log : LogEntry} (hlog : log.Admitted) :
    (w.writeLog log).Holds closed (opened ++ [log]) where
  files := by
    have hmap := h.files.map fun file : SegmentFile =>
      if file.1 = w.openSegmentName then (file.1, file.2 ++ log.record) else file
    refine hmap.trans (List.Perm.of_eq ?_)
    refine (modify_segmentFiles closed w.segmentFirstIndex opened (· ++ log.record)).trans ?_
    rw [segmentFiles, walRecords_append]
    show _ = _ ++ [(_, walRecords opened ++ (log.record ++ []))]
    rw [List.append_nil]
    rfl
  order := h.order
  last := by
    rw [List.getLast?_concat]
    rfl
  count := by
    rw [List.length_append, ← h.count]
    rfl
  bytes := by
    rw [walRecords_append, List.length_append, ← h.bytes]
    show _ = _ + (log.record ++ []).length
    rw [List.append_nil]
    rfl
  admitted := by
    intro e he
    rw [written, ← List.append_assoc, List.mem_append] at he
    obtain he | he := he
    · exact h.admitted e he
    · obtain rfl := List.mem_singleton.mp he
      exact hlog

/-- Records are written behind those of the open segment. -/
lemma writeLogs (h : w.Holds closed opened) {logs : List LogEntry} (hlogs : ∀ e ∈ logs, e.Admitted) :
    (w.writeLogs logs).1.Holds closed (opened ++ logs) ∧
      (w.writeLogs logs).1.segmentFirstIndex = w.segmentFirstIndex := by
  induction logs generalizing w opened with
  | nil =>
    rw [List.append_nil]
    exact ⟨h, rfl⟩
  | cons log rest ih =>
    have hwrite := h.writeLog (hlogs log List.mem_cons_self)
    have hrest := ih hwrite fun e he => hlogs e (List.mem_cons_of_mem _ he)
    rw [List.append_assoc] at hrest
    exact hrest

end Wal.Holds

/-- A roll that keeps the segments in order. -/
structure Wal.RollsInOrder (w : Wal) : Prop where
  le_next : w.segmentFirstIndex ≤ w.segmentLastIndex + 1
  fresh : ∀ file ∈ w.files, ∀ last, file.1 ≠ .closed w.segmentFirstIndex last

instance (w : Wal) : Decidable w.RollsInOrder :=
  decidable_of_iff (w.segmentFirstIndex ≤ w.segmentLastIndex + 1 ∧
    ∀ file ∈ w.files, file.1.first = w.segmentFirstIndex → file.1.isInprogress = true)
    ⟨fun h => ⟨h.1, fun file hfile last heq => by
        have := h.2 file hfile (by rw [heq]; rfl)
        rw [heq] at this
        cases this⟩,
      fun h => ⟨h.le_next, fun file hfile heq => by
        obtain ⟨name, content⟩ := file
        cases name with
        | closed first last =>
          obtain rfl : first = w.segmentFirstIndex := heq
          exact absurd rfl (h.fresh _ hfile last)
        | inprogress first => rfl⟩⟩

/-- The segment that a roll closes. -/
def Wal.closing (w : Wal) (opened : List LogEntry) : Segment where
  first := w.segmentFirstIndex
  last := w.segmentLastIndex
  entries := opened

namespace Wal.Holds

variable {w : Wal} {closed : List Segment} {opened : List LogEntry}

/-- The open segment comes behind the closed ones. -/
lemma first_lt (h : w.Holds closed opened) (hroll : w.RollsInOrder) :
    ∀ s ∈ closed, s.first < w.segmentFirstIndex := by
  intro s hs
  refine Nat.lt_of_le_of_ne (h.order.first_le s hs) fun heq => ?_
  have hfile : s.file ∈ w.files :=
    h.files.mem_iff.mpr (List.mem_append_left _ (List.mem_map.mpr ⟨s, hs, rfl⟩))
  exact hroll.fresh s.file hfile s.last (by rw [← heq]; rfl)

/-- The renamed file is behind the closed ones. -/
lemma rename (h : w.Holds closed opened) (hroll : w.RollsInOrder) :
    ((w.files.filter (·.1 ≠ .closed w.segmentFirstIndex w.segmentLastIndex)).map
      fun file => if file.1 = w.openSegmentName then
        (SegmentName.closed w.segmentFirstIndex w.segmentLastIndex, file.2) else file).Perm
      ((closed ++ [w.closing opened]).map Segment.file) := by
  have hkeep : (segmentFiles closed w.segmentFirstIndex opened).filter
      (·.1 ≠ .closed w.segmentFirstIndex w.segmentLastIndex) =
        segmentFiles closed w.segmentFirstIndex opened := by
    refine List.filter_eq_self.mpr fun file hfile => ?_
    rw [decide_eq_true_iff]
    obtain hfile | hfile := List.mem_append.mp hfile
    · obtain ⟨s, hs, rfl⟩ := List.mem_map.mp hfile
      intro heq
      exact Nat.ne_of_lt (h.first_lt hroll s hs) (congrArg SegmentName.first heq)
    · obtain rfl := List.mem_singleton.mp hfile
      exact fun heq => by cases heq
  have hperm := (h.files.filter (fun file : SegmentFile =>
    file.1 ≠ .closed w.segmentFirstIndex w.segmentLastIndex)).map fun file : SegmentFile =>
      if file.1 = w.openSegmentName then
        (SegmentName.closed w.segmentFirstIndex w.segmentLastIndex, file.2) else file
  rw [hkeep, segmentFiles, List.map_append] at hperm
  refine hperm.trans (List.Perm.of_eq ?_)
  have hclosed := map_closed closed w.segmentFirstIndex fun file =>
    (SegmentName.closed w.segmentFirstIndex w.segmentLastIndex, file.2)
  rw [List.map_append]
  refine congrArg₂ (· ++ ·) hclosed ?_
  exact congrArg (fun file => [file]) (if_pos rfl)

/-- The segments with the one that a roll closes are in order in front of the next one. -/
lemma closing_order (h : w.Holds closed opened) (hroll : w.RollsInOrder) :
    InOrder (closed ++ [w.closing opened]) (w.segmentLastIndex + 1) := by
  refine ⟨?_, fun s hs => ?_⟩
  · rw [List.pairwise_append]
    refine ⟨h.order.increasing, List.pairwise_singleton _ _, fun s hs t ht => ?_⟩
    obtain rfl := List.mem_singleton.mp ht
    exact h.first_lt hroll s hs
  · obtain hs | hs := List.mem_append.mp hs
    · exact Nat.le_trans (h.order.first_le s hs) hroll.le_next
    · obtain rfl := List.mem_singleton.mp hs
      exact hroll.le_next

/-- Closing a segment keeps what is written. -/
lemma written_closing (w : Wal) (closed : List Segment) (opened : List LogEntry) :
    written (closed ++ [w.closing opened]) [] = written closed opened := by
  rw [written, written, List.flatMap_append, List.flatMap_singleton, List.append_nil]
  rfl

/-- A roll in order closes the open segment. -/
lemma rollSegment (h : w.Holds closed opened) (hroll : w.RollsInOrder) (hopened : opened ≠ []) :
    w.rollSegment.Holds (closed ++ [w.closing opened]) [] := by
  have hcount : w.segmentEntryCount ≠ 0 := by
    rw [h.count]
    exact fun hzero => hopened (List.length_eq_zero_iff.mp hzero)
  have hnew : ∀ file ∈ (closed ++ [w.closing opened]).map Segment.file,
      file.1 ≠ .inprogress (w.segmentLastIndex + 1) := by
    intro file hfile
    obtain ⟨s, -, rfl⟩ := List.mem_map.mp hfile
    exact fun heq => by cases heq
  unfold Wal.rollSegment
  rw [if_neg hcount]
  refine ⟨?_, h.closing_order hroll, rfl, rfl, rfl, ?_⟩
  · unfold openSegment
    simp only
    rw [if_neg]
    · exact (h.rename hroll).append_right _
    · rw [List.any_eq_true]
      rintro ⟨file, hfile, hname⟩
      exact hnew file ((h.rename hroll).subset hfile) (by simpa using hname)
  · rw [written_closing]
    exact h.admitted

/-- A new process over segments in order, the open one with a part of a record at its end. -/
lemma create_torn {files : List SegmentFile} {first : ℕ} {tail : Bytes}
    (htail : readWalRecord tail = none)
    (hfiles : files.Perm (closed.map Segment.file ++
      [(.inprogress first, walRecords opened ++ tail)]))
    (horder : InOrder closed first) (hadmitted : ∀ e ∈ written closed opened, e.Admitted) :
    (Wal.create files).Holds closed opened := by
  have hopened : ∀ e ∈ opened, e.Admitted := fun e he => hadmitted e (List.mem_append_right _ he)
  have hread : readWalSegment 0 (walRecords opened ++ tail) =
      (opened, (walRecords opened).length) := by
    have hall : opened.filter (·.logindex > ((0 : ℕ) : ℤ)) = opened :=
      List.filter_eq_self.mpr fun e he => decide_eq_true (hopened e he).index_pos
    have := readWalSegment_append hopened htail 0
    rwa [hall] at this
  have hlast : (KVCacheRaft.listSegments files).getLast? =
      some (.inprogress first, walRecords opened ++ tail) := by
    rw [listSegments_of_perm hfiles (horder.rank_lt' _), List.getLast?_concat]
  have hmodify : (modify files (.inprogress first) (·.take (walRecords opened).length)).Perm
      (segmentFiles closed first opened) := by
    refine (hfiles.map _).trans (List.Perm.of_eq ?_)
    refine (modify_opened closed first _ _).trans ?_
    rw [List.take_left]
    rfl
  unfold Wal.create reopenLatestSegment
  simp only [hlast, hread]
  exact ⟨hmodify, horder, rfl, rfl, rfl, hadmitted⟩

/-- A new process over segments in order. -/
lemma create {files : List SegmentFile} {first : ℕ}
    (hfiles : files.Perm (segmentFiles closed first opened)) (horder : InOrder closed first)
    (hadmitted : ∀ e ∈ written closed opened, e.Admitted) :
    (Wal.create files).Holds closed opened := by
  refine create_torn readWalRecord_nil ?_ horder hadmitted
  rw [List.append_nil]
  exact hfiles

/-- An empty directory holds nothing. -/
lemma create_nil : (Wal.create []).Holds [] [] where
  files := List.Perm.refl _
  order := ⟨List.Pairwise.nil, fun _ hs => by cases hs⟩
  last := rfl
  count := rfl
  bytes := rfl
  admitted := fun _ he => by cases he

/-- A group of batches, and the roll behind it. -/
lemma writeGroup (h : w.Holds closed opened) {logs : List LogEntry} (hlogs : ∀ e ∈ logs, e.Admitted)
    (hroll : (w.writeLogs logs).2 = true → (w.writeLogs logs).1.RollsInOrder) :
    ∃ closed' opened', (w.writeGroup logs).Holds closed' opened' ∧
      written closed' opened' = written closed opened ++ logs := by
  have hw := (h.writeLogs hlogs).1
  obtain ⟨v, need, hv⟩ : ∃ v need, w.writeLogs logs = (v, need) := ⟨_, _, rfl⟩
  unfold Wal.writeGroup
  simp only [hv] at hw hroll ⊢
  have hsize : Holds { v with raftLogsFileSize :=
      v.raftLogsFileSize + (walRecords logs).length } closed (opened ++ logs) :=
    ⟨hw.files, hw.order, hw.last, hw.count, hw.bytes, hw.admitted⟩
  cases need with
  | false => exact ⟨closed, opened ++ logs, hsize, by rw [written, written, List.append_assoc]⟩
  | true =>
    have hne : logs ≠ [] := by
      rintro rfl
      cases hv
    have hnonempty : opened ++ logs ≠ [] := fun hnil => hne (List.append_eq_nil_iff.mp hnil).2
    refine ⟨_, [], hsize.rollSegment ⟨(hroll rfl).le_next, (hroll rfl).fresh⟩ hnonempty, ?_⟩
    rw [written, written, List.flatMap_append, List.flatMap_singleton, List.append_nil,
      List.append_assoc]
    rfl

/-- `ReadPersistedLogs` replays the entries in the order of the writes. -/
lemma readPersistedLogs (h : w.Holds closed opened) (snapshotIndex : ℕ) :
    (w.readPersistedLogs snapshotIndex).2 = replayEntries snapshotIndex (written closed opened) := by
  unfold Wal.readPersistedLogs
  rw [h.readWalSegments]
  exact replayEntries_filter _

/-- The log rewritten into one segment. -/
lemma rewriteWalFrom (w : Wal) (firstIndex : ℕ) {logs : List LogEntry}
    (hlogs : ∀ e ∈ logs, e.Admitted) : (w.rewriteWalFrom firstIndex logs).Holds [] logs := by
  have hfold : ∀ {v : Wal} {opened : List LogEntry} (logs : List LogEntry), v.Holds [] opened →
      (∀ e ∈ logs, e.Admitted) →
      (logs.foldl (fun w log => { w.writeLog log with
        raftLogsFileSize := w.raftLogsFileSize + log.record.length }) v).Holds [] (opened ++ logs) := by
    intro v opened logs hv hlogs
    induction logs generalizing v opened with
    | nil =>
      rw [List.append_nil]
      exact hv
    | cons log rest ih =>
      have hw := hv.writeLog (hlogs log List.mem_cons_self)
      have hrest := ih (v := { v.writeLog log with
        raftLogsFileSize := v.raftLogsFileSize + log.record.length })
        ⟨hw.files, hw.order, hw.last, hw.count, hw.bytes, hw.admitted⟩
        fun e he => hlogs e (List.mem_cons_of_mem _ he)
      rw [List.append_assoc] at hrest
      exact hrest
  have hopen : Holds { ({ w with files := [] }.openSegment firstIndex) with raftLogsFileSize := 0 }
      [] [] :=
    ⟨List.Perm.refl _, ⟨List.Pairwise.nil, fun _ hs => by cases hs⟩, rfl, rfl, rfl,
      fun _ he => by cases he⟩
  exact hfold logs hopen hlogs

/-- What is recovered is not changed by a compaction. -/
lemma compactWal (h : w.Holds closed opened) (snapshotIndex : ℕ) :
    (w.compactWal snapshotIndex).Holds [] (replayEntries snapshotIndex (written closed opened)) := by
  unfold Wal.compactWal
  simp only [h.readWalSegments, replayEntries_filter]
  have hlogs : ∀ e ∈ replayEntries snapshotIndex (written closed opened), e.Admitted := fun e he =>
    h.admitted e ((mem_foldl_replayEntry he).resolve_left fun hnil => by cases hnil)
  have hr := rewriteWalFrom w (((replayEntries snapshotIndex (written closed opened)).head?.map
    (toUInt64 ·.logindex)).getD (snapshotIndex + 1)) hlogs
  exact ⟨hr.files, hr.order, hr.last, hr.count, hr.bytes, hr.admitted⟩

/-- `Save` keeps what is replayed above the snapshot. -/
lemma save (h : w.Holds closed opened) (snapshotIndex : ℕ) :
    ∃ closed' opened', (w.save snapshotIndex).Holds closed' opened' ∧
      replayEntries snapshotIndex (written closed' opened') =
        replayEntries snapshotIndex (written closed opened) := by
  unfold Wal.save
  split_ifs
  · refine ⟨[], _, h.compactWal snapshotIndex, ?_⟩
    exact replayEntries_of_aligned (aligned_replayEntries snapshotIndex _)
  · exact ⟨closed, opened, h, rfl⟩

end Wal.Holds

namespace Wal

/-- What the log goes through: the writer takes a group of batches, the process is started again,
and the directory may list its files in any order. -/
inductive Step (w : Wal) : List LogEntry → Wal → Prop where
  | write (logs : List LogEntry) : Step w logs (w.writeGroup logs)
  | restart : Step w [] (create w.files)
  | list {files : List SegmentFile} : files.Perm w.files → Step w [] { w with files }

/-- Runs from an empty directory whose steps all meet `P`, with the entries written. -/
inductive Run (P : Wal → List LogEntry → Prop) : List LogEntry → Wal → Prop where
  | create : Run P [] (create [])
  | step {w w' : Wal} {history logs : List LogEntry} :
    Run P history w → P w logs → w.Step logs w' → Run P (history ++ logs) w'

/-- The entries of a group can be read back, and when the segment is rolled behind it the segments
stay in order. -/
structure KeepsOrder (w : Wal) (logs : List LogEntry) : Prop where
  size_le : ∀ e ∈ logs, e.serialize.length ≤ maxLogSize
  rolls : (w.writeLogs logs).2 = true → (w.writeLogs logs).1.RollsInOrder

instance (w : Wal) (logs : List LogEntry) : Decidable (w.KeepsOrder logs) :=
  decidable_of_iff ((∀ e ∈ logs, e.serialize.length ≤ maxLogSize) ∧
    ((w.writeLogs logs).2 = true → (w.writeLogs logs).1.RollsInOrder))
    ⟨fun h => ⟨h.1, h.2⟩, fun h => ⟨h.size_le, h.rolls⟩⟩

/-- Entries that `raft` writes: indices from 1 on, and indices and terms that fit in an `int`. -/
def Ints (logs : List LogEntry) : Prop :=
  ∀ e ∈ logs, 0 < e.logindex ∧ e.logindex < 2 ^ 31 ∧ e.logterm < 2 ^ 31

/-- A step in order appends its entries to what is written. -/
lemma Step.holds {w w' : Wal} {closed : List Segment} {opened logs : List LogEntry}
    (h : w.Holds closed opened) (horder : w.KeepsOrder logs) (hints : Ints logs) (hs : w.Step logs w') :
    ∃ closed' opened', w'.Holds closed' opened' ∧
      written closed' opened' = written closed opened ++ logs := by
  cases hs with
  | write =>
    refine h.writeGroup (fun e he => ?_) horder.rolls
    obtain ⟨hpos, hlt, hterm⟩ := hints e he
    exact ⟨hpos, hlt, hterm, horder.size_le e he⟩
  | restart =>
    exact ⟨closed, opened, Holds.create h.files h.order h.admitted, (List.append_nil _).symm⟩
  | list hperm => exact ⟨closed, opened, h.perm hperm, (List.append_nil _).symm⟩

/-- In every run in order what is written is the history. -/
lemma Run.holds {w : Wal} {history : List LogEntry} (hr : Run KeepsOrder history w)
    (hints : Ints history) :
    ∃ closed opened, w.Holds closed opened ∧ written closed opened = history := by
  induction hr with
  | create => exact ⟨[], [], Holds.create_nil, rfl⟩
  | step _ hP hs ih =>
    obtain ⟨closed, opened, h, hwritten⟩ := ih fun e he => hints e (List.mem_append_left _ he)
    obtain ⟨closed', opened', h', hwritten'⟩ :=
      hs.holds h hP fun e he => hints e (List.mem_append_right _ he)
    exact ⟨closed', opened', h', hwritten ▸ hwritten'⟩

/-- In every run whose rolls keep the segments in order, `ReadPersistedLogs(0)` applies the writes in
the order in which they were made. -/
theorem readPersistedLogs_run {w : Wal} {history : List LogEntry} (hr : Run KeepsOrder history w)
    (hhistory : History 0 [] history) (hints : Ints history) :
    (w.readPersistedLogs 0).2 = history.foldl overwrite [] := by
  obtain ⟨closed, opened, h, hwritten⟩ := hr.holds hints
  rw [h.readPersistedLogs, hwritten]
  exact hhistory.foldl_replayEntry .nil

/-- Two entries, a restart, and the second one overwritten. -/
theorem readPersistedLogs_overwritten :
    ((create ((create []).writeGroup [⟨[1], 1, 1⟩, ⟨[2], 1, 2⟩]).files).writeGroup
      [⟨[3], 2, 2⟩] |>.readPersistedLogs 0).2 = [⟨[1], 1, 1⟩, ⟨[3], 2, 2⟩] := by
  have h₁ : (create []).KeepsOrder [⟨[1], 1, 1⟩, ⟨[2], 1, 2⟩] :=
    ⟨by decide, fun hneed => absurd hneed (by decide)⟩
  have h₂ : (create ((create []).writeGroup [⟨[1], 1, 1⟩, ⟨[2], 1, 2⟩]).files).KeepsOrder
      [⟨[3], 2, 2⟩] := ⟨by decide, fun hneed => absurd hneed (by decide)⟩
  have hempty : ((create []).writeGroup [⟨[1], 1, 1⟩, ⟨[2], 1, 2⟩]).KeepsOrder [] :=
    ⟨(fun _ he => by cases he), (fun hneed => by cases hneed)⟩
  have hrun := ((Run.create.step h₁ (.write _)).step hempty .restart).step h₂ (.write _)
  exact readPersistedLogs_run hrun (by decide) (by unfold Ints; decide)

end Wal

end KVCacheRaft
