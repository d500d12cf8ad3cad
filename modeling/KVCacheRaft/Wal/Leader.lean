import KVCacheRaft.Wal.Replay
import KVCacheRaft.Wal.Rounds
import KVCacheRaft.Raft.Inversion

/-!
# A leader and its log on disk

`Start` appends to `m_logs` under the lock and hands its entry to the writer after it, so the order in
the queue is that in which the calls get there. The writer tells `onLogStable` of an entry when its
group is synced. Replay drops an entry behind a gap and cuts the log at a smaller index: what is told
to be stable is recovered as long as the entries come to the queue in the order of their indices.
-/

namespace KVCacheRaft

open Machine

/-- A leader with its writer. -/
structure Leader where
  node : Raft
  /-- entries that `Start` has appended and not handed to the writer yet -/
  started : List LogEntry
  writer : WalWriter Empty LogEntry
  /-- how many answers of the writer have come to `onLogStable` -/
  reported : ℕ

namespace Leader

/-- Something that happens, while all writes and syncs succeed. -/
inductive Event where
  | start (command : Bytes)
  /-- `AppendLogAsync` for an entry of `Start` -/
  | push (k : ℕ)
  | round (time_due : Bool)
  | onLogStable
  | handleAppendEntries (server : ℕ) (args : AppendEntriesArgs) (reply : AppendEntriesReply)

/-- `Save` in `persistState`. -/
def save (s : Leader) : Leader :=
  { s with writer := s.writer.save s.node.fmp.snapshot_index.toNat }

/-- The batch of an entry of `Start`. -/
def batchOf (e : LogEntry) : LogBatch Empty LogEntry := { logs := [e], ticket := .callback e }

/-- The call of `onLogStable` for an answer. -/
def answer (s : Leader) (a : Answer Empty LogEntry) : Leader :=
  match a.batch.ticket with
  | .callback e =>
    let told : Leader :=
      { s with node := s.node.onLogStable a.ok e.logindex, reported := s.reported + 1 }
    if a.ok = true ∧ e.logindex > s.node.stableLogIndex then told.save else told

/-- What an event does; none when it cannot happen, or when the node dies. -/
def step (s : Leader) : Event → Option Leader
  | .start command => (s.node.start command).toOption.join.map fun (node, e) =>
    { s with node, started := s.started ++ [e] }.save
  | .push k => s.started[k]?.bind fun e => (s.writer.step (.push (batchOf e))).map fun writer =>
    { s with writer, started := s.started.eraseIdx k }
  | .round time_due =>
    -- the writer makes its calls before it goes on
    if s.reported < s.writer.answers.length then none
    else (s.writer.step (.round ⟨none, true, time_due⟩)).map fun writer => { s with writer }
  | .onLogStable => s.writer.answers[s.reported]?.map s.answer
  | .handleAppendEntries server args reply =>
    (s.node.handleAppendEntries server args reply).toOption.map fun node => { s with node }

/-- What the directory holds at some time during an event, in the order in which it lists its files. -/
def During (s : Leader) : Event → List SegmentFile → Prop
  | .round _, files => ∃ found, s.writer.wal.During (s.writer.group.flatMap (·.logs)) found ∧
    files.Perm found
  | _, files => files.Perm s.writer.wal.files

/-- A new process over some files, before the writer has anything to do. -/
def restart (s : Leader) (files : List SegmentFile) : Raft :=
  .init s.node.id s.node.peers s.node.fmp s.node.snapshotFile
    ((Wal.create files).readPersistedLogs s.node.fmp.snapshot_index.toNat).2

/-- A leader whose log is on disk and counted as stable, and whose metadata are saved. -/
structure Ready (s : Leader) : Prop where
  index : s.node.IndexInv
  snapshot_nonneg : 0 ≤ s.node.lastSnapshotIndex
  saved : s.node.fmp.snapshot_index = s.node.lastSnapshotIndex
  compacted : s.node.lastSnapshotIndex ≤ s.writer.wal.compactedSnapshotIndex
  commit_le : s.node.commitIndex ≤ s.node.stableLogIndex
  stable_le : s.node.stableLogIndex ≤ s.node.getLastLogIndex
  holds : ∃ closed opened, s.writer.wal.Holds closed opened ∧
    replayEntries s.node.lastSnapshotIndex.toNat (written closed opened) = s.node.logs
  started : s.started = []
  queue : s.writer.queue = []
  collected : s.writer.waiters ++ s.writer.callbacks = []
  answers : s.writer.answers = []

/-- The entries for which `onLogStable(true, i)` has run. -/
def stable (s : Leader) : List LogEntry :=
  ((s.writer.answers.take s.reported).filter (·.ok)).flatMap (·.batch.logs)

/-- `Start` hands an entry over only when those of earlier calls are handed over; the indices and terms
fit in an `int`; and what the writer writes can be read back and keeps the segments in order. -/
def Calm (s : Leader) : Event → Prop
  | .start _ => s.node.getLastLogIndex + 1 < 2 ^ 31 ∧ s.node.currentTerm < 2 ^ 31
  | .push k => k = 0
  | .round _ => s.writer.wal.KeepsOrder (s.writer.group.flatMap (·.logs))
  | _ => True

/-! ### The invariant -/

/-- What is recovered from disk, what is in the queue, and what is not handed over yet are the log. -/
structure Inv (s : Leader) (disk pending : List LogEntry) : Prop where
  index : s.node.IndexInv
  snapshot_nonneg : 0 ≤ s.node.lastSnapshotIndex
  saved : s.node.fmp.snapshot_index = s.node.lastSnapshotIndex
  compacted : s.node.lastSnapshotIndex ≤ s.writer.wal.compactedSnapshotIndex
  commit_le : s.node.commitIndex ≤ s.node.stableLogIndex
  stable_le : s.node.stableLogIndex ≤ s.node.lastSnapshotIndex + disk.length
  holds : ∃ closed opened, s.writer.wal.Holds closed opened ∧
    replayEntries s.node.lastSnapshotIndex.toNat (written closed opened) = disk
  logs : s.node.logs = disk ++ pending ++ s.started
  queue : s.writer.queue = pending.map batchOf
  ints : Wal.Ints (pending ++ s.started)
  collected : ∀ b ∈ s.writer.waiters ++ s.writer.callbacks, ∃ e ∈ disk, b = batchOf e
  answers : ∀ a ∈ s.writer.answers, a.ok = true ∧ ∃ e ∈ disk, a.batch = batchOf e

variable {s t : Leader} {disk pending : List LogEntry}

/-- A leader that is ready satisfies the invariant. -/
lemma Ready.inv (h : s.Ready) : s.Inv s.node.logs [] where
  index := h.index
  snapshot_nonneg := h.snapshot_nonneg
  saved := h.saved
  compacted := h.compacted
  commit_le := h.commit_le
  stable_le := h.index.last_eq ▸ h.stable_le
  holds := h.holds
  logs := by rw [h.started, List.append_nil, List.append_nil]
  queue := h.queue
  ints := by
    rw [h.started]
    exact fun e he => by cases he
  collected b hb := by
    rw [h.collected] at hb
    cases hb
  answers a ha := by
    rw [h.answers] at ha
    cases ha

/-- The entries on disk are at their places. -/
lemma Inv.aligned (h : s.Inv disk pending) : Aligned s.node.lastSnapshotIndex disk := by
  have := (h.index.aligned).take disk.length
  rwa [h.logs, List.append_assoc, List.take_left] at this

/-- The metadata are saved already: `Save` compacts nothing. -/
lemma Inv.save (h : s.Inv disk pending) : s.save = s := by
  have := h.compacted
  rw [Leader.save, h.saved, WalWriter.save, if_neg (by omega)]

/-- A step of the node that leaves the log alone and commits nothing that is not stable. -/
lemma Inv.node (h : s.Inv disk pending) {node : Raft} (hindex : node.IndexInv)
    (hlogs : node.logs = s.node.logs) (hsnap : node.lastSnapshotIndex = s.node.lastSnapshotIndex)
    (hfmp : node.fmp.snapshot_index = s.node.lastSnapshotIndex)
    (hcommit : node.commitIndex ≤ node.stableLogIndex)
    (hstable : node.stableLogIndex ≤ s.node.lastSnapshotIndex + disk.length) (reported : ℕ) :
    Inv { s with node, reported } disk pending where
  index := hindex
  snapshot_nonneg := hsnap ▸ h.snapshot_nonneg
  saved := hfmp.trans hsnap.symm
  compacted := hsnap ▸ h.compacted
  commit_le := hcommit
  stable_le := hsnap ▸ hstable
  holds := hsnap ▸ h.holds
  logs := hlogs.trans h.logs
  queue := h.queue
  ints := h.ints
  collected := h.collected
  answers := h.answers

/-- `Start` keeps the invariant. -/
lemma Inv.start (h : s.Inv disk pending) {command : Bytes} {node : Raft} {e : LogEntry}
    (hstart : s.node.start command = .ok (some (node, e))) (hcalm : s.Calm (.start command)) :
    Inv { s with node, started := s.started ++ [e] } disk pending := by
  have hindex := (h.index.start hstart).1
  obtain ⟨-, rfl, rfl⟩ := Raft.start_cases hstart
  refine
    { index := hindex, snapshot_nonneg := h.snapshot_nonneg, saved := rfl, compacted := h.compacted
      commit_le := h.commit_le, stable_le := h.stable_le, holds := h.holds, logs := ?_
      queue := h.queue, ints := ?_, collected := h.collected, answers := h.answers }
  · rw [← List.append_assoc, ← h.logs]
    rfl
  · intro x hx
    rw [← List.append_assoc] at hx
    obtain hx | hx := List.mem_append.mp hx
    · exact h.ints x hx
    · obtain rfl := List.mem_singleton.mp hx
      have := h.index.snapshot_le_last
      have := h.snapshot_nonneg
      refine ⟨?_, hcalm.1, hcalm.2⟩
      show 0 < s.node.getLastLogIndex + 1
      omega

/-- The first entry that is not handed over is the one behind the queue. -/
lemma Inv.push (h : s.Inv disk pending) {e : LogEntry} {rest : List LogEntry}
    (hstarted : s.started = e :: rest) :
    Inv { s with
      writer := { s.writer with queue := s.writer.queue ++ [batchOf e] }
      started := rest } disk (pending ++ [e]) where
  index := h.index
  snapshot_nonneg := h.snapshot_nonneg
  saved := h.saved
  compacted := h.compacted
  commit_le := h.commit_le
  stable_le := h.stable_le
  holds := h.holds
  logs := by
    rw [h.logs, hstarted]
    simp
  queue := by
    rw [List.map_append, ← h.queue]
    rfl
  ints := by
    have := h.ints
    rw [hstarted] at this
    rw [List.append_assoc]
    exact this
  collected := h.collected
  answers := h.answers

/-- Entries of the queue are recovered behind those on disk. -/
lemma Inv.replay (h : s.Inv disk pending) {logs before : List LogEntry} (hbefore : before <+: pending)
    (hlogs : replayEntries s.node.lastSnapshotIndex.toNat logs = disk) :
    replayEntries s.node.lastSnapshotIndex.toNat (logs ++ before) = disk ++ before := by
  have hsnap := Int.toNat_of_nonneg h.snapshot_nonneg
  cases before with
  | nil => rw [List.append_nil, List.append_nil, hlogs]
  | cons e rest =>
    have hplace : Aligned (s.node.lastSnapshotIndex + disk.length) (e :: rest) := by
      obtain ⟨behind, hbehind⟩ := hbefore
      have hdrop := (h.index.aligned.drop disk.length).take (e :: rest).length
      rw [h.logs, List.append_assoc, List.drop_left, ← hbehind, List.append_assoc,
        List.take_left] at hdrop
      exact hdrop
    rw [← hsnap] at hplace
    have haligned := h.aligned
    rw [← hsnap] at haligned
    have hfold := foldl_replayEntry_aligned haligned (Nat.le_refl _) hplace (List.cons_ne_nil _ _)
    rw [List.take_length] at hfold
    rw [replayEntries, List.foldl_append]
    rw [replayEntries] at hlogs
    rw [hlogs]
    exact hfold

/-- The entries of the first batches in the queue. -/
lemma Inv.group (h : s.Inv disk pending) :
    s.writer.group = (pending.take kSyncBatchCount).map batchOf := by
  rw [WalWriter.group, h.queue, List.map_take]

/-- The batches of `Start` have the entries it appended. -/
lemma flatMap_batchOf (logs : List LogEntry) : (logs.map batchOf).flatMap (·.logs) = logs := by
  induction logs with
  | nil => rfl
  | cons e logs ih =>
    rw [List.map_cons, List.flatMap_cons, ih]
    rfl

/-- A round of the writer takes the first batches to the disk. -/
lemma Inv.round (h : s.Inv disk pending) {time_due : Bool} {writer : WalWriter Empty LogEntry}
    (hround : s.writer.round ⟨none, true, time_due⟩ = some writer) (hcalm : s.Calm (.round time_due)) :
    Inv { s with writer } (disk ++ pending.take kSyncBatchCount) (pending.drop kSyncBatchCount) := by
  obtain ⟨hwal, hqueue, new, hanswers, hok, hperm⟩ := WalWriter.round_succeeds hround
  have hgroup : s.writer.group.flatMap (·.logs) = pending.take kSyncBatchCount := by
    rw [h.group, flatMap_batchOf]
  have hkeeps : s.writer.wal.KeepsOrder (pending.take kSyncBatchCount) := hgroup ▸ hcalm
  rw [hgroup] at hwal
  have hone : ∀ b ∈ s.writer.waiters ++ s.writer.callbacks ++ s.writer.group,
      ∃ e ∈ disk ++ pending.take kSyncBatchCount, b = batchOf e := by
    intro b hb
    obtain hb | hb := List.mem_append.mp hb
    · obtain ⟨e, he, hbe⟩ := h.collected b hb
      exact ⟨e, List.mem_append_left _ he, hbe⟩
    · rw [h.group] at hb
      obtain ⟨e, he, rfl⟩ := List.mem_map.mp hb
      exact ⟨e, List.mem_append_right _ he, rfl⟩
  have hadmitted : ∀ e ∈ pending.take kSyncBatchCount, e.Admitted := by
    intro e he
    obtain ⟨hpos, hlt, hterm⟩ := h.ints e (List.mem_append_left _ (List.mem_of_mem_take he))
    exact ⟨hpos, hlt, hterm, hkeeps.size_le e he⟩
  refine
    { index := h.index, snapshot_nonneg := h.snapshot_nonneg, saved := h.saved, compacted := ?_
      commit_le := h.commit_le, stable_le := ?_, holds := ?_, logs := ?_, queue := ?_, ints := ?_
      collected := fun b hb => hone b (hperm.subset (List.mem_append_right _ hb)), answers := ?_ }
  · show _ ≤ ((writer.wal.compactedSnapshotIndex : ℕ) : ℤ)
    rw [hwal, Wal.writeGroup_compacted]
    exact h.compacted
  · have := h.stable_le
    show s.node.stableLogIndex ≤ s.node.lastSnapshotIndex + _
    rw [List.length_append]
    push_cast
    omega
  · obtain ⟨closed, opened, hw, hdisk⟩ := h.holds
    obtain ⟨closed', opened', hw', hwritten⟩ := hw.writeGroup hadmitted hkeeps.rolls
    refine ⟨closed', opened', hwal ▸ hw', ?_⟩
    rw [hwritten]
    exact h.replay (List.take_prefix _ _) hdisk
  · rw [List.append_assoc disk, List.take_append_drop]
    exact h.logs
  · show writer.queue = _
    rw [hqueue, h.queue, List.map_drop]
  · intro e he
    refine h.ints e ?_
    obtain he | he := List.mem_append.mp he
    · exact List.mem_append_left _ (List.mem_of_mem_drop he)
    · exact List.mem_append_right _ he
  · intro a ha
    have ha : a ∈ writer.answers := ha
    rw [hanswers] at ha
    obtain ha | ha := List.mem_append.mp ha
    · obtain ⟨hok, e, he, hbatch⟩ := h.answers a ha
      exact ⟨hok, e, List.mem_append_left _ he, hbatch⟩
    · refine ⟨hok a ha, hone _ (hperm.subset (List.mem_append_left _ ?_))⟩
      exact List.mem_map.mpr ⟨a, ha, rfl⟩

/-- A call of `onLogStable` for an entry that is on disk. -/
lemma Inv.answer (h : s.Inv disk pending) {a : Answer Empty LogEntry} (ha : a ∈ s.writer.answers) :
    (s.answer a).Inv disk pending := by
  obtain ⟨hok, e, he, hbatch⟩ := h.answers a ha
  have hold : Inv { s with
      node := s.node.onLogStable true e.logindex, reported := s.reported + 1 } disk pending := by
    have hindex := (h.index.onLogStable true e.logindex).1
    obtain ⟨i, hi⟩ := List.getElem?_of_mem he
    have hei := h.aligned i e hi
    have hlt := (List.getElem?_eq_some_iff.mp hi).1
    have hcommit := h.commit_le
    obtain heq | ⟨hgt, heq⟩ := Raft.onLogStable_cases s.node e.logindex
    · rw [heq] at hindex ⊢
      exact h.node hindex rfl rfl h.saved hcommit h.stable_le _
    · rw [heq] at hindex ⊢
      refine h.node hindex rfl rfl rfl ?_ ?_ _
      · show s.node.commitIndex ≤ e.logindex
        omega
      · show e.logindex ≤ _
        omega
  have hticket : a.batch.ticket = .callback e := by rw [hbatch]; rfl
  rw [Leader.answer]
  simp only [hticket, hok]
  split_ifs
  · rw [hold.save]
    exact hold
  · exact hold

/-- A reply to an `AppendEntries` keeps the invariant. -/
lemma Inv.handleAppendEntries (h : s.Inv disk pending) {server : ℕ} {args : AppendEntriesArgs}
    {reply : AppendEntriesReply} {node : Raft}
    (hs : s.node.handleAppendEntries server args reply = .ok node) :
    Inv { s with node } disk pending := by
  obtain ⟨-, rfl⟩ | ⟨next, rfl⟩ | ⟨-, -, -, hadvance⟩ := Raft.handleAppendEntries_cases hs
  · have hindex : (s.node.newTerm reply.term).IndexInv := h.index.congr rfl rfl rfl rfl
    exact h.node hindex rfl rfl h.saved h.commit_le h.stable_le _
  · have hindex : Raft.IndexInv { s.node with nextIndex := next } := h.index.congr rfl rfl rfl rfl
    exact h.node hindex rfl rfl h.saved h.commit_le h.stable_le _
  · have hm : (s.node.matched server (args.prevlogindex + args.entries.length)).IndexInv :=
      h.index.congr rfl rfl rfl rfl
    obtain ⟨t, ht, hindex, -⟩ := hm.advanceCommitIndex
    obtain rfl := Except.ok.inj (hadvance.symm.trans ht)
    -- the commit index does not pass the stable one
    obtain rfl | ⟨index, e, rfl, -, hle, -⟩ := Raft.advanceCommitIndex_cases hadvance
    · exact h.node hindex rfl rfl h.saved h.commit_le h.stable_le _
    · exact h.node hindex rfl rfl h.saved hle h.stable_le _

/-- A calm step keeps the invariant. -/
theorem Inv.step (h : s.Inv disk pending) {e : Event} (hcalm : s.Calm e) (hs : s.step e = some t) :
    ∃ disk' pending', t.Inv disk' pending' := by
  cases e with
  | start command =>
    obtain ⟨⟨node, e⟩, hstart, rfl⟩ := Option.map_eq_some_iff.mp hs
    have hnext := h.start (join_toOption_eq_some.mp hstart) hcalm
    exact ⟨disk, pending, by simpa only [hnext.save] using hnext⟩
  | push k =>
    obtain ⟨e, he, hs⟩ := Option.bind_eq_some_iff.mp hs
    obtain ⟨writer, hwriter, rfl⟩ := Option.map_eq_some_iff.mp hs
    obtain rfl : k = 0 := hcalm
    obtain rfl := Option.some.inj hwriter
    cases hstarted : s.started with
    | nil =>
      rw [hstarted] at he
      cases he
    | cons x rest =>
      rw [hstarted] at he
      obtain rfl := Option.some.inj he
      exact ⟨disk, pending ++ [x], h.push hstarted⟩
  | round time_due =>
    rw [Leader.step] at hs
    split_ifs at hs
    obtain ⟨writer, hwriter, rfl⟩ := Option.map_eq_some_iff.mp hs
    rw [WalWriter.step] at hwriter
    split_ifs at hwriter
    exact ⟨_, _, h.round hwriter hcalm⟩
  | onLogStable =>
    obtain ⟨a, ha, rfl⟩ := Option.map_eq_some_iff.mp hs
    exact ⟨disk, pending, h.answer (List.mem_of_getElem? ha)⟩
  | handleAppendEntries server args reply =>
    obtain ⟨node, hnode, rfl⟩ := Option.map_eq_some_iff.mp hs
    exact ⟨disk, pending, h.handleAppendEntries (toOption_eq_some.mp hnode)⟩

/-! ### A crash -/

/-- A new process finds what is on disk, and perhaps entries of the queue behind it. -/
lemma Inv.recovered (h : s.Inv disk pending) {e : Event} (hcalm : s.Calm e) {files : List SegmentFile}
    (hfiles : s.During e files) :
    ∃ before, before <+: pending ∧ (s.restart files).logs = disk ++ before := by
  obtain ⟨closed, opened, hw, hdisk⟩ := h.holds
  have hidle : files.Perm s.writer.wal.files →
      ∃ before, before <+: pending ∧ (s.restart files).logs = disk ++ before := by
    intro hperm
    refine ⟨[], List.nil_prefix, ?_⟩
    rw [List.append_nil]
    show ((Wal.create files).readPersistedLogs _).2 = disk
    rw [hw.readPersistedLogs_create hperm, h.saved, hdisk]
  cases e with
  | round time_due =>
    obtain ⟨found, hduring, hperm⟩ := hfiles
    have hgroup : s.writer.group.flatMap (·.logs) = pending.take kSyncBatchCount := by
      rw [h.group, flatMap_batchOf]
    have hkeeps : s.writer.wal.KeepsOrder (pending.take kSyncBatchCount) := hgroup ▸ hcalm
    rw [hgroup] at hduring
    have hints : Wal.Ints (pending.take kSyncBatchCount) := fun e he =>
      h.ints e (List.mem_append_left _ (List.mem_of_mem_take he))
    obtain ⟨before, hbefore, hread⟩ := hw.readPersistedLogs_during hints hkeeps hduring hperm
      s.node.fmp.snapshot_index.toNat
    have hqueue := hbefore.trans (List.take_prefix _ _)
    refine ⟨before, hqueue, ?_⟩
    show ((Wal.create files).readPersistedLogs _).2 = disk ++ before
    rw [hread, h.saved]
    exact h.replay hqueue hdisk
  | start command => exact hidle hfiles
  | push k => exact hidle hfiles
  | onLogStable => exact hidle hfiles
  | handleAppendEntries server args reply => exact hidle hfiles

/-- As long as every step is calm, an entry that `onLogStable` was told of is at its index after a
crash, and the commit index is not above the last index that is recovered. -/
theorem stable_survives (h : s.Ready) (hrun : Run step Calm s t) {e : Event} (hcalm : t.Calm e)
    {files : List SegmentFile} (hfiles : t.During e files) :
    (∀ entry ∈ t.stable, (t.restart files).logAt entry.logindex = .ok entry) ∧
      t.node.commitIndex ≤ (t.restart files).getLastLogIndex := by
  obtain ⟨disk, pending, hinv⟩ := hrun.invariant (I := fun s => ∃ disk pending, s.Inv disk pending)
    (fun _ _ _ ⟨_, _, hs⟩ hcalm hstep => hs.step hcalm hstep) ⟨_, _, h.inv⟩
  obtain ⟨before, hbefore, hlogs⟩ := hinv.recovered hcalm hfiles
  have hsnap : (t.restart files).lastSnapshotIndex = t.node.lastSnapshotIndex := hinv.saved
  have haligned : Aligned (t.restart files).lastSnapshotIndex (t.restart files).logs := by
    obtain ⟨behind, rfl⟩ := hbefore
    have := hinv.index.aligned.take (disk ++ before).length
    rw [hinv.logs, ← List.append_assoc, List.append_assoc, List.take_left] at this
    rw [hsnap, hlogs]
    exact this
  refine ⟨fun entry hentry => ?_, ?_⟩
  · obtain ⟨a, ha, hbatch⟩ := List.mem_flatMap.mp hentry
    obtain ⟨-, e, he, heq⟩ := hinv.answers a (List.mem_of_mem_take (List.mem_filter.mp ha).1)
    rw [heq] at hbatch
    obtain rfl := List.mem_singleton.mp hbatch
    refine Raft.logAt_of_mem haligned ?_
    rw [hlogs]
    exact List.mem_append_left _ he
  · have hcommit := hinv.commit_le
    have hstable := hinv.stable_le
    rw [Raft.getLastLogIndex_of_aligned haligned, hsnap, hlogs, List.length_append]
    push_cast
    omega

/-! ### Two runs -/

instance (s : Leader) (e : Event) : Decidable (s.Calm e) := by
  unfold Calm
  split <;> infer_instance

/-- Node 0 of three over an empty directory, when it leads in term 1. -/
def elected : Leader where
  node := { Raft.init 0 3 {} [] [] with state := .leader, currentTerm := 1 }.persistState
  started := []
  writer :=
    { wal := .create [], offset := 0, queue := [], waiters := [], callbacks := [], pending_count := 0
      pending_bytes := 0, running := true, snapshot := 0, taken := [], answers := [] }
  reported := 0

/-- An elected leader is ready. -/
lemma ready_elected : elected.Ready where
  index := (Raft.indexInv_init 0 3).congr rfl rfl rfl rfl
  snapshot_nonneg := Int.le_refl _
  saved := rfl
  compacted := Int.le_refl _
  commit_le := Int.le_refl _
  stable_le := Int.le_refl _
  holds := ⟨[], [], Wal.Holds.create_nil, rfl⟩
  started := rfl
  queue := rfl
  collected := rfl
  answers := rfl

/-- Two calls of `Start` that hand their entries over in the order of `pushes`. -/
def twoStarts (pushes : List ℕ) : List Event :=
  [.start [5], .start [6]] ++ pushes.map .push ++ [.round true, .onLogStable, .onLogStable]

/-- In the order of the indices: both are recovered. -/
theorem stable_survives_started :
    ∃ t : Leader, t.stable = [⟨[5], 1, 1⟩, ⟨[6], 1, 2⟩] ∧
      ∀ entry ∈ t.stable, (t.restart t.writer.wal.files).logAt entry.logindex = .ok entry := by
  have hruns : ∃ t ∈ runIf step Calm elected (twoStarts [0, 0]),
      t.stable = [⟨[5], 1, 1⟩, ⟨[6], 1, 2⟩] := by decide
  obtain ⟨t, hrun, hstable⟩ := exists_run_of_runIf hruns
  have hcalm : t.Calm .onLogStable := trivial
  have hidle : t.During .onLogStable t.writer.wal.files := List.Perm.refl _
  exact ⟨t, hstable, (stable_survives ready_elected hrun hcalm hidle).1⟩

/-- The entry at index 2 comes to the writer first: it is told to be stable and committed, and a new
process does not find it. -/
theorem exists_stable_lost :
    ∃ t : Leader, Run step (fun _ _ => True) elected t ∧
      (∃ entry ∈ t.stable, (t.restart t.writer.wal.files).logAt entry.logindex ≠ .ok entry) ∧
      (t.restart t.writer.wal.files).getLastLogIndex < t.node.commitIndex :=
  have hruns : ∃ t ∈ runIf step (fun _ _ => True) elected (twoStarts [1, 0] ++
      [.handleAppendEntries 1 ⟨1, 0, 0, 0, [⟨[5], 1, 1⟩, ⟨[6], 1, 2⟩], 0⟩ ⟨1, true, 0⟩]),
      (∃ entry ∈ t.stable, (t.restart t.writer.wal.files).logAt entry.logindex ≠ .ok entry) ∧
      (t.restart t.writer.wal.files).getLastLogIndex < t.node.commitIndex := by decide
  exists_run_of_runIf hruns

end Leader

end KVCacheRaft
