import KVCacheRaft.Machine.Crashes
import KVCacheRaft.Raft.Indices
import KVCacheRaft.Raft.Snapshot
import KVCacheRaft.Wal.Segments

/-!
# Saving a snapshot

`Snapshot` and `InstallSnapshot` save the snapshot file, store the metadata in the mapped memory and
compact the write-ahead log, as three separate procedures of file operations. `Save` for the snapshot
file may fail at each of its operations, and does not say so. A crash leaves what was done until then;
`init` takes the metadata from the mapped file and the log from the segments.
-/

namespace KVCacheRaft

open Machine

/-- The files of a node. -/
structure Disk where
  snapshotFile : Bytes
  /-- the file `Save` writes before it takes the name of the snapshot file -/
  tmp : Option Bytes
  fmp : NodeInfo
  files : List SegmentFile

/-- An operation on the files, or a store to the mapped memory. -/
inductive FileOp where
  | openTmp
  | writeTmp (b : UInt8)
  | unlinkTmp
  | rename
  | store (field : NodeInfo → NodeInfo)
  | ftruncate (name : SegmentName) (length : ℕ)
  | unlink (name : SegmentName)
  | openSegment (name : SegmentName)
  | write (name : SegmentName) (b : UInt8)

namespace Disk

def apply (d : Disk) : FileOp → Disk
  | .openTmp => { d with tmp := some [] }
  | .writeTmp b => { d with tmp := d.tmp.map (· ++ [b]) }
  | .unlinkTmp => { d with tmp := none }
  | .rename => { d with snapshotFile := d.tmp.getD d.snapshotFile, tmp := none }
  | .store field => { d with fmp := field d.fmp }
  | .ftruncate name length => { d with files := Wal.modify d.files name (·.take length) }
  | .unlink name => { d with files := d.files.filter (·.1 ≠ name) }
  | .openSegment name =>
    { d with files := if d.files.any (·.1 = name) then d.files else d.files ++ [(name, [])] }
  | .write name b => { d with files := Wal.modify d.files name (· ++ [b]) }

/-- The log that `init` recovers. -/
def recovered (d : Disk) : List LogEntry :=
  ((Wal.create d.files).readPersistedLogs d.fmp.snapshot_index.toNat).2

end Disk

/-- How `Save` ends for the snapshot file. -/
inductive SaveOutcome where
  | openFails
  /-- after some bytes -/
  | writeFails (n : ℕ)
  | fdatasyncFails
  | renameFails
  | succeeds

/-- `Save` for the snapshot file. Bytes are written one by one, so that a write may take any number of
them. -/
def saveSnapshot (data : Bytes) : SaveOutcome → List FileOp
  | .openFails => []
  | .writeFails n => [.openTmp] ++ (data.take n).map .writeTmp ++ [.unlinkTmp]
  | .fdatasyncFails => [.openTmp] ++ data.map .writeTmp ++ [.unlinkTmp]
  | .renameFails => [.openTmp] ++ data.map .writeTmp ++ [.unlinkTmp]
  | .succeeds => [.openTmp] ++ data.map .writeTmp ++ [.rename]

/-- What is in the snapshot file then. -/
def SaveOutcome.file (data file : Bytes) : SaveOutcome → Bytes
  | .succeeds => data
  | _ => file

/-- The stores of `persistState`, in its order. -/
def storeInfo (info : NodeInfo) : List FileOp :=
  [.store fun fmp => { fmp with node_id := info.node_id },
    .store fun fmp => { fmp with snapshot_index := info.snapshot_index },
    .store fun fmp => { fmp with snapshot_term := info.snapshot_term },
    .store fun fmp => { fmp with commit_index := info.commit_index },
    .store fun fmp => { fmp with last_applied := info.last_applied },
    .store fun fmp => { fmp with log_len := info.log_len },
    .store fun fmp => { fmp with role := info.role },
    .store fun fmp => { fmp with term := info.term },
    .store fun fmp => { fmp with votedFor := info.votedFor }]

/-- `CompactWal`: every segment is read and cut, then removed, and what is kept goes into a new one. -/
def compactOps (files : List SegmentFile) (snapshotIndex : ℕ) : List FileOp :=
  let segments := listSegments files
  let compacted := replayEntries snapshotIndex
    (segments.flatMap fun file => (readWalSegment snapshotIndex file.2).1)
  let firstIndex := (compacted.head?.map (toUInt64 ·.logindex)).getD (snapshotIndex + 1)
  segments.map (fun file => .ftruncate file.1 (readWalSegment snapshotIndex file.2).2) ++
    segments.map (fun file => .unlink file.1) ++
    [.openSegment (.inprogress firstIndex)] ++
    (walRecords compacted).map (.write (.inprogress firstIndex))

/-- `persistState`, with `m_compactedSnapshotIndex`. -/
def persistOps (compacted : ℕ) (files : List SegmentFile) (info : NodeInfo) : List FileOp :=
  storeInfo info ++
    if info.snapshot_index > compacted then compactOps files info.snapshot_index.toNat else []

/-- A call that saves a snapshot. -/
inductive SnapshotCall where
  | snapshot (index : ℤ) (data : Bytes)
  | installSnapshot (args : InstallSnapshotRequest)

namespace SnapshotCall

/-- The operations behind the checks of a call that ends with the state `s`. -/
def saveOps (compacted : ℕ) (files : List SegmentFile) (data : Bytes) (outcome : SaveOutcome)
    (s : Except Fault Raft) : List FileOp :=
  match s with
  | .error _ => []
  | .ok s => saveSnapshot data outcome ++ persistOps compacted files s.fmp

/-- A request of a newer term makes `InstallSnapshot` store that first. -/
def newTermOps (s : Raft) (compacted : ℕ) (files : List SegmentFile) (args : InstallSnapshotRequest) :
    List FileOp :=
  if args.term > s.currentTerm then
    persistOps compacted files (s.newTerm args.term).persistState.fmp
  else []

/-- `m_compactedSnapshotIndex` after it. -/
def newTermCompacted (s : Raft) (compacted : ℕ) (args : InstallSnapshotRequest) : ℕ :=
  if args.term > s.currentTerm ∧ s.lastSnapshotIndex > compacted then s.lastSnapshotIndex.toNat
  else compacted

/-- The call gets to `Save`; the loop of `Snapshot` over `m_logs` ends only below `INT_MAX`. -/
def Accepted (s : Raft) : SnapshotCall → Prop
  | .snapshot index _ =>
    s.lastSnapshotIndex < index ∧ index ≤ s.commitIndex ∧ s.getLastLogIndex < intMax
  | .installSnapshot args =>
    s.currentTerm ≤ args.term ∧ s.lastSnapshotIndex < args.lastsnapshotincludeindex

instance (s : Raft) (call : SnapshotCall) : Decidable (call.Accepted s) := by
  unfold Accepted
  split <;> infer_instance

/-- The file operations of a call. -/
def ops (s : Raft) (compacted : ℕ) (d : Disk) (outcome : SaveOutcome) (call : SnapshotCall) :
    List FileOp :=
  match call with
  | .snapshot index data =>
    if call.Accepted s then saveOps compacted d.files data outcome (s.snapshot index data) else []
  | .installSnapshot args =>
    if args.term < s.currentTerm then []
    else
      let first := newTermOps s compacted d.files args
      if call.Accepted s then
        first ++ saveOps (newTermCompacted s compacted args) (first.foldl Disk.apply d).files args.data
          outcome ((s.installSnapshot args).map (·.1))
      else first

end SnapshotCall

end KVCacheRaft
