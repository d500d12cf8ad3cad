import KVCacheRaft.Machine.Runs
import KVCacheRaft.Wal.Segments

/-!
# The writer

The task of `Persister` takes batches from its queue in groups and appends their entries to the open
segment. Whoever pushed a batch is told after a sync: the waiters and callbacks of the batches are
collected over the rounds and answered together, after a failed write, before the segment is rolled,
when a sync is due, and when the writer ends. Here writes and syncs may fail; a write that fails
leaves a part of its record.
-/

namespace KVCacheRaft

open Machine

/-- Who is told of a batch: a waiter of `AppendLogAndWaitStable` or a callback of `AppendLogAsync`. -/
inductive Ticket (α β : Type) where
  | waiter (a : α)
  | callback (b : β)
deriving DecidableEq

def Ticket.isWaiter {α β : Type} : Ticket α β → Bool
  | .waiter _ => true
  | .callback _ => false

/-- `LogBatch`. -/
structure LogBatch (α β : Type) where
  logs : List LogEntry
  ticket : Ticket α β
deriving DecidableEq

/-- `kSyncBatchCount` -/
def kSyncBatchCount : ℕ := 64

/-- `kSyncBatchBytes` -/
def kSyncBatchBytes : ℕ := 128 * 1024

namespace Wal

/-- What is in the open segment. -/
def content (w : Wal) : Bytes :=
  ((w.files.find? (·.1 = w.openSegmentName)).map (·.2)).getD []

/-- The entries `CompactWal` keeps. -/
def compacted (w : Wal) (snapshotIndex : ℕ) : List LogEntry :=
  replayEntries snapshotIndex (w.readWalSegments snapshotIndex).2

/-- `CompactWal` when `RewriteWalFrom` fails at the entry `log` behind the entries `logs`, after `n`
bytes of its record. -/
def compactWalTorn (w : Wal) (snapshotIndex : ℕ) (logs : List LogEntry) (log : LogEntry) (n : ℕ) :
    Wal :=
  let firstIndex := ((w.compacted snapshotIndex).head?.map (toUInt64 ·.logindex)).getD
    (snapshotIndex + 1)
  let w := w.rewriteWalFrom firstIndex logs
  { w with
    files := modify w.files w.openSegmentName (· ++ log.record.take n)
    compactedSnapshotIndex := snapshotIndex }

end Wal

/-- A batch that was answered. -/
structure Answer (α β : Type) where
  batch : LogBatch α β
  ok : Bool
  /-- what was in the file behind `log_fd` when `fdatasync` succeeded -/
  synced : Option Bytes
  /-- the largest index `CompactWal` was called with until then -/
  snapshot : ℕ

/-- With `ok`, the records of the batch are in the file that was synced, but for those that a snapshot
covers. -/
def Answer.Truthful {α β : Type} (a : Answer α β) : Prop :=
  a.ok = true → ∀ e ∈ a.batch.logs,
    e.logindex ≤ a.snapshot ∨ ∃ content ∈ a.synced, e.record <:+: content

/-- The writer and its part of `Persister`. -/
structure WalWriter (α β : Type) where
  wal : Wal
  /-- the offset of `log_fd`, which is opened with `O_APPEND`: `0` until the first write -/
  offset : ℕ
  queue : List (LogBatch α β)
  /-- the batches of the waiters that are collected -/
  waiters : List (LogBatch α β)
  /-- the batches of the callbacks that are collected -/
  callbacks : List (LogBatch α β)
  pending_count : ℕ
  pending_bytes : ℕ
  running : Bool
  /-- the largest index `CompactWal` was called with -/
  snapshot : ℕ
  /-- all batches ever taken from the queue -/
  taken : List (LogBatch α β)
  answers : List (Answer α β)

namespace WalWriter

variable {α β : Type}

/-- Where a write fails: in the entry `entry` of the batch `batch` of the group, after `bytes` bytes of
its record. -/
structure Torn where
  batch : ℕ
  entry : ℕ
  bytes : ℕ

/-- What decides the course of a round. -/
structure Outcome where
  torn : Option Torn
  sync_ok : Bool
  time_due : Bool

inductive Event (α β : Type) where
  | push (b : LogBatch α β)
  | round (o : Outcome)
  /-- `RewriteWalFrom` may fail in the entry at `.1`, after `.2` bytes of its record -/
  | compactWal (snapshotIndex : ℕ) (torn : Option (ℕ × ℕ))
  /-- the loop ends -/
  | shutdown (sync_ok : Bool)

/-- `NotifyWaiters` and `NotifyCallbacks`. -/
def notify (s : WalWriter α β) (ok : Bool) (synced : Option Bytes) : WalWriter α β :=
  { s with
    waiters := []
    callbacks := []
    answers := s.answers ++ (s.waiters ++ s.callbacks).map fun batch =>
      { batch, ok, synced, snapshot := s.snapshot } }

/-- The waiters and callbacks of some batches are collected. -/
def collect (s : WalWriter α β) (batches : List (LogBatch α β)) : WalWriter α β :=
  { s with
    waiters := s.waiters ++ batches.filter (·.ticket.isWaiter)
    callbacks := s.callbacks ++ batches.filter (!·.ticket.isWaiter) }

/-- The batches a round takes, by `timeOutPop` and `TryPopBulk`. -/
def group (s : WalWriter α β) : List (LogBatch α β) := s.queue.take kSyncBatchCount

/-- The group leaves the queue. -/
def pop (s : WalWriter α β) : WalWriter α β :=
  { s with queue := s.queue.drop kSyncBatchCount, taken := s.taken ++ s.group }

/-- A write of the group fails: the loop is left, and the file cut to the length that `lseek` gave. -/
def writeFails (s : WalWriter α β) (batches : List (LogBatch α β)) (torn : Torn) :
    Option (WalWriter α β) :=
  batches[torn.batch]?.bind fun batch => batch.logs[torn.entry]?.bind fun log =>
    if torn.bytes < log.record.length then
      let before := (batches.take torn.batch).flatMap (·.logs) ++ batch.logs.take torn.entry
      let wal := (s.wal.writeLogs before).1
      let files := Wal.modify wal.files wal.openSegmentName fun content =>
        (content ++ log.record.take torn.bytes).take s.offset
      let s := s.collect (batches.take (torn.batch + 1))
      let s := { s with wal := { s.wal with files }, pending_count := 0, pending_bytes := 0 }
      some (s.notify false none)
    else none

/-- All writes of the group succeed. -/
def writeGroup (s : WalWriter α β) (batches : List (LogBatch α β)) : WalWriter α β :=
  let logs := batches.flatMap (·.logs)
  let wal := (s.wal.writeLogs logs).1
  { s.collect batches with
    wal := { wal with raftLogsFileSize := wal.raftLogsFileSize + (walRecords logs).length }
    offset := if logs = [] then s.offset else wal.content.length
    pending_count := s.pending_count + logs.length
    pending_bytes := s.pending_bytes + (walRecords logs).length }

/-- What `fdatasync` on `log_fd` puts on disk. -/
def fdatasync (s : WalWriter α β) (sync_ok : Bool) : Option Bytes :=
  if sync_ok then some s.wal.content else none

/-- A sync for `need_roll`. -/
def roll (s : WalWriter α β) (sync_ok : Bool) : WalWriter α β :=
  let rolled := if sync_ok then { s with wal := s.wal.rollSegment, offset := 0 } else s
  { rolled with pending_count := 0, pending_bytes := 0 }.notify sync_ok
    (s.fdatasync sync_ok)

/-- `should_sync` -/
def should_sync (s : WalWriter α β) (time_due : Bool) : Bool :=
  s.pending_count > 0 &&
    (s.pending_count ≥ kSyncBatchCount || s.pending_bytes ≥ kSyncBatchBytes || time_due)

/-- One round of the loop. -/
def round (s : WalWriter α β) (o : Outcome) : Option (WalWriter α β) :=
  let batches := s.group
  match o.torn with
  | some torn => s.pop.writeFails batches torn
  | none =>
    let written := s.pop.writeGroup batches
    if (s.wal.writeLogs (batches.flatMap (·.logs))).2 then some (written.roll o.sync_ok)
    else if written.should_sync o.time_due then
      some ({ written with pending_count := 0, pending_bytes := 0 }.notify o.sync_ok
        (written.fdatasync o.sync_ok))
    else some written

/-- `CompactWal`. -/
def compactWal (s : WalWriter α β) (snapshotIndex : ℕ) : Option (ℕ × ℕ) → Option (WalWriter α β)
  | none =>
    let wal := s.wal.compactWal snapshotIndex
    some { s with wal, offset := wal.content.length, snapshot := max s.snapshot snapshotIndex }
  | some (k, n) => (s.wal.compacted snapshotIndex)[k]?.bind fun log =>
    if n < log.record.length then
      let wal := s.wal.compactWalTorn snapshotIndex ((s.wal.compacted snapshotIndex).take k) log n
      some { s with wal, offset := wal.content.length, snapshot := max s.snapshot snapshotIndex }
    else none

/-- What an event does; none when it cannot happen. -/
def step (s : WalWriter α β) : Event α β → Option (WalWriter α β)
  -- without entries nothing is pushed
  | .push b => some (if b.logs = [] then s else { s with queue := s.queue ++ [b] })
  | .round o => if s.running then s.round o else none
  | .compactWal snapshotIndex torn => s.compactWal snapshotIndex torn
  | .shutdown sync_ok =>
    if s.running then
      let s := { s with running := false }
      some (if s.pending_count > 0 then s.notify sync_ok (s.fdatasync sync_ok) else s)
    else none

/-- A writer that has just started. -/
structure Fresh (s : WalWriter α β) : Prop where
  opened : ∃ file ∈ s.wal.files, file.1 = s.wal.openSegmentName
  queue : s.queue = []
  waiters : s.waiters = []
  callbacks : s.callbacks = []
  pending_count : s.pending_count = 0
  taken : s.taken = []
  answers : s.answers = []

/-- The batches that are answered, and those whose waiters and callbacks are collected. -/
def accounted (s : WalWriter α β) : List (LogBatch α β) :=
  s.answers.map (·.batch) ++ (s.waiters ++ s.callbacks)

/-- A write fails in the last batch of its group only; and `CompactWal` writes again the entries of the
batches that are not answered, but for those that a snapshot covers. -/
def Calm (s : WalWriter α β) : Event α β → Prop
  | .round o => ∀ torn ∈ o.torn, torn.batch + 1 = s.group.length
  | .compactWal snapshotIndex torn => ∀ b ∈ s.waiters ++ s.callbacks, ∀ e ∈ b.logs,
    e.logindex ≤ (max s.snapshot snapshotIndex : ℕ) ∨
      e ∈ match torn with
        | none => s.wal.compacted snapshotIndex
        | some (k, _) => (s.wal.compacted snapshotIndex).take k
  | _ => True

end WalWriter

end KVCacheRaft
