import Mathlib.Data.List.Sort
import KVCacheRaft.Wal.Replay

/-!
# Segments

The write-ahead log of `Persister` is a directory of segment files. One is in progress and named by
its first index; a closed one carries the index that was written last too. The operations are those
of a process in which all calls of the file system succeed.
-/

namespace KVCacheRaft

/-- `log_<first>_<last>` and `log_inprogress_<first>`. -/
inductive SegmentName where
  | closed (first last : ℕ)
  | inprogress (first : ℕ)
deriving DecidableEq

namespace SegmentName

def first : SegmentName → ℕ
  | closed first _ => first
  | inprogress first => first

def isInprogress : SegmentName → Bool
  | closed _ _ => false
  | inprogress _ => true

/-- The comparison `ListSegments` sorts with. -/
def before (a b : SegmentName) : Bool :=
  if a.first ≠ b.first then a.first < b.first else !a.isInprogress && b.isInprogress

/-- The place of a name in that order. -/
def rank (a : SegmentName) : ℕ := 2 * a.first + a.isInprogress.toNat

/-- Segments come before one another by their rank. -/
lemma before_iff {a b : SegmentName} : a.before b = true ↔ a.rank < b.rank := by
  rw [before, rank, rank]
  split_ifs with hne
  · rw [decide_eq_true_iff]
    have ha := Bool.toNat_le a.isInprogress
    have hb := Bool.toNat_le b.isInprogress
    omega
  · have heq : a.first = b.first := not_not.mp hne
    rw [heq]
    cases a.isInprogress <;> cases b.isInprogress <;> simp

end SegmentName

/-- A segment file. -/
abbrev SegmentFile := SegmentName × Bytes

/-- `ListSegments`, over the files in the order in which the directory lists them. -/
def listSegments (files : List SegmentFile) : List SegmentFile :=
  files.insertionSort fun a b => b.1.before a.1 = false

/-- The part of `Persister` that belongs to the write-ahead log. -/
structure Wal where
  /-- the files of `m_walDir`, as the directory lists them -/
  files : List SegmentFile := []
  segmentFirstIndex : ℕ := 1
  segmentLastIndex : ℕ := 0
  segmentEntryCount : ℕ := 0
  segmentBytes : ℕ := 0
  compactedSnapshotIndex : ℕ := 0
  raftLogsFileSize : ℕ := 0
deriving DecidableEq

/-- `kMaxSegmentNumEntries` -/
def kMaxSegmentNumEntries : ℕ := 1000

/-- `kMaxSegmentBytes` -/
def kMaxSegmentBytes : ℕ := 8 * 1024 * 1024

namespace Wal

/-- The segment that `log_fd` is open on. -/
def openSegmentName (w : Wal) : SegmentName := .inprogress w.segmentFirstIndex

/-- The file of that name with other contents. -/
def modify (files : List SegmentFile) (name : SegmentName) (f : Bytes → Bytes) :
    List SegmentFile :=
  files.map fun file => if file.1 = name then (file.1, f file.2) else file

/-- `OpenSegment`. -/
def openSegment (w : Wal) (firstIndex : ℕ) : Wal :=
  let name := SegmentName.inprogress firstIndex
  { w with
    segmentFirstIndex := firstIndex
    segmentLastIndex := firstIndex - 1
    segmentEntryCount := 0
    segmentBytes := 0
    files := if w.files.any (·.1 = name) then w.files else w.files ++ [(name, [])] }

/-- `RollSegment`; a file that has the new name is replaced. -/
def rollSegment (w : Wal) : Wal :=
  if w.segmentEntryCount = 0 then w
  else
    let closed := SegmentName.closed w.segmentFirstIndex w.segmentLastIndex
    let files := (w.files.filter (·.1 ≠ closed)).map fun file =>
      if file.1 = w.openSegmentName then (closed, file.2) else file
    { w with files }.openSegment (w.segmentLastIndex + 1)

/-- `ReadWalSegment` on all segments: they are cut to their whole records. -/
def readWalSegments (w : Wal) (snapshotIndex : ℕ) : Wal × List LogEntry :=
  ({ w with files := w.files.map fun file =>
      (file.1, file.2.take (readWalSegment snapshotIndex file.2).2) },
    (listSegments w.files).flatMap fun file => (readWalSegment snapshotIndex file.2).1)

/-- `ReadPersistedLogs`. -/
def readPersistedLogs (w : Wal) (snapshotIndex : ℕ) : Wal × List LogEntry :=
  let (w', replay) := w.readWalSegments snapshotIndex
  let validBytes := (w.files.map fun file => (readWalSegment snapshotIndex file.2).2).sum
  ({ w' with raftLogsFileSize := validBytes }, replayEntries snapshotIndex replay)

/-- `ReopenLatestSegment`. -/
def reopenLatestSegment (w : Wal) : Wal :=
  match (listSegments w.files).getLast? with
  | none => w.openSegment 1
  | some (.closed _ last, _) => w.openSegment (last + 1)
  | some (.inprogress first, content) =>
    let (logs, validBytes) := readWalSegment 0 content
    { w with
      files := modify w.files (.inprogress first) (·.take validBytes)
      segmentFirstIndex := first
      segmentLastIndex := (logs.getLast?.map (toUInt64 ·.logindex)).getD (first - 1)
      segmentEntryCount := logs.length
      segmentBytes := validBytes }

/-- The constructor of `Persister` over the files it finds. -/
def create (files : List SegmentFile) : Wal :=
  let w := reopenLatestSegment { files }
  { w with raftLogsFileSize := (w.files.map (·.2.length)).sum }

/-! ### The writer, while its writes succeed -/

/-- The writer appends one entry to the open segment. -/
def writeLog (w : Wal) (log : LogEntry) : Wal :=
  { w with
    files := modify w.files w.openSegmentName (· ++ log.record)
    segmentLastIndex := log.header.log_index
    segmentEntryCount := w.segmentEntryCount + 1
    segmentBytes := w.segmentBytes + log.record.length }

/-- The limit at which the writer rolls the segment. -/
def full (w : Wal) : Bool :=
  w.segmentEntryCount ≥ kMaxSegmentNumEntries || w.segmentBytes ≥ kMaxSegmentBytes

/-- The loops of the writer over the entries of a group of batches, with `need_roll`. -/
def writeLogs (w : Wal) : List LogEntry → Wal × Bool
  | [] => (w, false)
  | log :: rest =>
    let w := w.writeLog log
    let (w', need_roll) := w.writeLogs rest
    (w', w.full || need_roll)

/-- One round of the writer with a group of batches. -/
def writeGroup (w : Wal) (logs : List LogEntry) : Wal :=
  let (w, need_roll) := w.writeLogs logs
  let w := { w with raftLogsFileSize := w.raftLogsFileSize + (walRecords logs).length }
  if need_roll then w.rollSegment else w

/-! ### Compaction -/

/-- `RewriteWalFrom`. -/
def rewriteWalFrom (w : Wal) (firstIndex : ℕ) (logs : List LogEntry) : Wal :=
  let w := { w with files := [] }.openSegment firstIndex
  logs.foldl
    (fun w log => { w.writeLog log with raftLogsFileSize := w.raftLogsFileSize + log.record.length })
    { w with raftLogsFileSize := 0 }

/-- `CompactWal`. -/
def compactWal (w : Wal) (snapshotIndex : ℕ) : Wal :=
  let (w, logs) := w.readWalSegments snapshotIndex
  let compacted := replayEntries snapshotIndex logs
  let firstIndex := (compacted.head?.map (toUInt64 ·.logindex)).getD (snapshotIndex + 1)
  { w.rewriteWalFrom firstIndex compacted with compactedSnapshotIndex := snapshotIndex }

/-- `Save` for the metadata. -/
def save (w : Wal) (snapshotIndex : ℕ) : Wal :=
  if snapshotIndex > w.compactedSnapshotIndex then w.compactWal snapshotIndex else w

end Wal

end KVCacheRaft
