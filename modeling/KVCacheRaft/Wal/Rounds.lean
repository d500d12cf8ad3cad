import KVCacheRaft.Wal.Order
import KVCacheRaft.Wal.Writer

/-!
# Rounds that succeed

When all writes and syncs succeed, a round of the writer appends a group of batches to the log and
answers batches with success. What was written stays when the process crashes: while the writer is at
a group, some of its entries are on disk and perhaps a part of the next record, and when it rolls the
segment, there may be no open one. A new process finds the entries of the group up to some place.
-/

namespace KVCacheRaft

namespace Wal

/-- The files of `RollSegment` between its `rename` and its `open`. -/
def renamed (w : Wal) : List SegmentFile :=
  let closed := SegmentName.closed w.segmentFirstIndex w.segmentLastIndex
  (w.files.filter (·.1 ≠ closed)).map fun file =>
    if file.1 = w.openSegmentName then (closed, file.2) else file

/-- What the directory holds at some time while the writer is at a group of batches. -/
inductive During (w : Wal) (logs : List LogEntry) : List SegmentFile → Prop where
  /-- in the record of an entry -/
  | writing {before rest : List LogEntry} {log : LogEntry} {n : ℕ} :
    logs = before ++ log :: rest → n < log.record.length →
    During w logs (modify (w.writeLogs before).1.files w.openSegmentName (· ++ log.record.take n))
  | written : During w logs (w.writeLogs logs).1.files
  | renamed : (w.writeLogs logs).2 = true → During w logs (w.writeLogs logs).1.renamed
  | rolled : During w logs (w.writeGroup logs).files

namespace Holds

variable {w : Wal} {closed : List Segment} {opened logs : List LogEntry} {files : List SegmentFile}

/-- A new process over closed segments only. -/
lemma create_closed {last : Segment} (hfiles : files.Perm ((closed ++ [last]).map Segment.file))
    (horder : InOrder (closed ++ [last]) (last.last + 1))
    (hadmitted : ∀ e ∈ written (closed ++ [last]) [], e.Admitted) :
    (Wal.create files).Holds (closed ++ [last]) [] := by
  have hsorted : ((closed ++ [last]).map Segment.file).Pairwise fun a b => a.1.rank < b.1.rank :=
    ((horder.rank_lt' []).sublist (List.sublist_append_left _ _))
  have hlast : (KVCacheRaft.listSegments files).getLast? = some last.file := by
    rw [listSegments_of_perm hfiles hsorted, List.map_append, List.map_singleton,
      List.getLast?_concat]
  have hnew : ¬ files.any fun file => file.1 = .inprogress (last.last + 1) := by
    rw [List.any_eq_true]
    rintro ⟨file, hfile, hname⟩
    obtain ⟨s, -, rfl⟩ := List.mem_map.mp (hfiles.subset hfile)
    cases of_decide_eq_true hname
  unfold Wal.create reopenLatestSegment
  simp only [hlast, Segment.file, Segment.name]
  unfold openSegment
  simp only [if_neg hnew]
  exact ⟨hfiles.append_right _, horder, rfl, rfl, rfl, hadmitted⟩

/-- A new process finds the entries of the group up to some place. -/
theorem create_during (h : w.Holds closed opened) (hints : Ints logs) (hkeeps : w.KeepsOrder logs)
    (hduring : w.During logs files) {found : List SegmentFile} (hfound : found.Perm files) :
    ∃ closed' opened' before, (Wal.create found).Holds closed' opened' ∧ before <+: logs ∧
      written closed' opened' = written closed opened ++ before := by
  have hadmitted : ∀ e ∈ logs, e.Admitted := fun e he =>
    ⟨(hints e he).1, (hints e he).2.1, (hints e he).2.2, hkeeps.size_le e he⟩
  cases hduring with
  | @writing before rest log n hlogs hn =>
    subst hlogs
    have hbefore : ∀ e ∈ before, e.Admitted := fun e he => hadmitted e (List.mem_append_left _ he)
    obtain ⟨hw, hfirst⟩ := h.writeLogs hbefore
    refine ⟨closed, opened ++ before, before, ?_, List.prefix_append _ _,
      (List.append_assoc _ _ _).symm⟩
    have htorn : readWalRecord (log.record.take n) = none := by
      have hlog := hadmitted log (List.mem_append_right _ List.mem_cons_self)
      refine hlog.read_torn (List.take_prefix _ _) fun heq => ?_
      have := congrArg List.length heq
      rw [List.length_take] at this
      omega
    refine create_torn htorn (hfound.trans ?_) (hfirst ▸ hw.order) hw.admitted
    refine (hw.files.map _).trans (List.Perm.of_eq ?_)
    rw [hfirst]
    exact modify_segmentFiles closed w.segmentFirstIndex (opened ++ before) (· ++ log.record.take n)
  | written =>
    obtain ⟨hw, -⟩ := h.writeLogs hadmitted
    exact ⟨closed, opened ++ logs, logs, create (hfound.trans hw.files) hw.order hw.admitted,
      List.prefix_refl _, (List.append_assoc _ _ _).symm⟩
  | renamed hneed =>
    obtain ⟨hw, -⟩ := h.writeLogs hadmitted
    have hroll := hkeeps.rolls hneed
    refine ⟨_, [], logs, create_closed (hfound.trans (hw.rename hroll)) (hw.closing_order hroll) ?_,
      List.prefix_refl _, ?_⟩
    · rw [written_closing]
      exact hw.admitted
    · rw [written_closing]
      exact (List.append_assoc _ _ _).symm
  | rolled =>
    obtain ⟨closed', opened', hw, hwritten⟩ := h.writeGroup hadmitted hkeeps.rolls
    exact ⟨closed', opened', logs, create (hfound.trans hw.files) hw.order hw.admitted,
      List.prefix_refl _, hwritten⟩

/-- What a new process reads, when nothing is being written. -/
lemma readPersistedLogs_create (h : w.Holds closed opened) (hfound : files.Perm w.files)
    (snapshotIndex : ℕ) : ((Wal.create files).readPersistedLogs snapshotIndex).2 =
      replayEntries snapshotIndex (written closed opened) :=
  (create (hfound.trans h.files) h.order h.admitted).readPersistedLogs snapshotIndex

/-- What a new process reads, when the writer was at a group of batches. -/
lemma readPersistedLogs_during (h : w.Holds closed opened) (hints : Ints logs)
    (hkeeps : w.KeepsOrder logs) (hduring : w.During logs files) {found : List SegmentFile}
    (hfound : found.Perm files) (snapshotIndex : ℕ) :
    ∃ before, before <+: logs ∧ ((Wal.create found).readPersistedLogs snapshotIndex).2 =
      replayEntries snapshotIndex (written closed opened ++ before) := by
  obtain ⟨closed', opened', before, hcreate, hbefore, hwritten⟩ :=
    h.create_during hints hkeeps hduring hfound
  refine ⟨before, hbefore, ?_⟩
  rw [hcreate.readPersistedLogs, hwritten]

end Holds

/-- Writing leaves `m_compactedSnapshotIndex`. -/
lemma writeLogs_compacted (w : Wal) (logs : List LogEntry) :
    (w.writeLogs logs).1.compactedSnapshotIndex = w.compactedSnapshotIndex := by
  induction logs generalizing w with
  | nil => rfl
  | cons log rest ih => exact ih (w.writeLog log)

/-- Writing a group leaves `m_compactedSnapshotIndex`. -/
lemma writeGroup_compacted (w : Wal) (logs : List LogEntry) :
    (w.writeGroup logs).compactedSnapshotIndex = w.compactedSnapshotIndex := by
  have hwrite := writeLogs_compacted w logs
  unfold Wal.writeGroup
  simp only
  split_ifs
  · unfold Wal.rollSegment
    split_ifs
    · exact hwrite
    · exact hwrite
  · exact hwrite

end Wal

namespace WalWriter

variable {α β : Type} {s t : WalWriter α β}

/-- `Save` for the metadata, in `persistState`. -/
def save (s : WalWriter α β) (snapshotIndex : ℕ) : WalWriter α β :=
  if snapshotIndex > s.wal.compactedSnapshotIndex then
    (s.compactWal snapshotIndex none).getD s
  else s

/-- What a round does when all writes and syncs succeed: the batches that were collected and those of
the group are answered or collected. -/
structure Rounded (s t : WalWriter α β) : Prop where
  wal : t.wal = s.wal.writeGroup (s.group.flatMap (·.logs))
  queue : t.queue = s.queue.drop kSyncBatchCount
  answers : ∃ new, t.answers = s.answers ++ new ∧ (∀ a ∈ new, a.ok = true) ∧
    (new.map (·.batch) ++ (t.waiters ++ t.callbacks)).Perm (s.waiters ++ s.callbacks ++ s.group)

/-- Batches that are collected wait or have a callback. -/
lemma collect_perm (s : WalWriter α β) (batches : List (LogBatch α β)) :
    ((s.collect batches).waiters ++ (s.collect batches).callbacks).Perm
      (s.waiters ++ s.callbacks ++ batches) := by
  have hsplit := List.filter_append_perm (fun b : LogBatch α β => b.ticket.isWaiter) batches
  have hcomm : (batches.filter (·.ticket.isWaiter) ++ s.callbacks).Perm
      (s.callbacks ++ batches.filter (·.ticket.isWaiter)) := List.perm_append_comm
  have hswap := hcomm.append_right (batches.filter (!·.ticket.isWaiter))
  show (s.waiters ++ batches.filter (·.ticket.isWaiter) ++
    (s.callbacks ++ batches.filter (!·.ticket.isWaiter))).Perm _
  rw [List.append_assoc, List.append_assoc, ← List.append_assoc (batches.filter _)]
  refine (hswap.append_left s.waiters).trans ?_
  rw [List.append_assoc]
  exact (hsplit.append_left s.callbacks).append_left s.waiters

/-- A round whose writes and sync succeed. -/
lemma round_succeeds {time_due : Bool} (h : s.round ⟨none, true, time_due⟩ = some t) :
    Rounded s t := by
  have hcollect := collect_perm s.pop s.group
  have hmap : ∀ batches : List (LogBatch α β), ((batches.map fun batch =>
      ({ batch, ok := true, synced := (s.pop.writeGroup s.group).fdatasync true
         snapshot := s.snapshot } : Answer α β)).map (·.batch)) = batches := by
    intro batches
    rw [List.map_map]
    exact List.map_id _
  have hok : ∀ batches : List (LogBatch α β), ∀ a ∈ batches.map fun batch =>
      ({ batch, ok := true, synced := (s.pop.writeGroup s.group).fdatasync true
         snapshot := s.snapshot } : Answer α β), a.ok = true := by
    intro batches a ha
    obtain ⟨b, hb, rfl⟩ := List.mem_map.mp ha
    rfl
  have hwal : s.wal.writeGroup (s.group.flatMap (·.logs)) =
      if (s.wal.writeLogs (s.group.flatMap (·.logs))).2 then
        (s.pop.writeGroup s.group).wal.rollSegment
      else (s.pop.writeGroup s.group).wal := rfl
  rw [round] at h
  simp only at h
  split_ifs at h with hroll hsync
  · obtain rfl := Option.some.inj h
    refine ⟨?_, rfl, _, rfl, hok _, ?_⟩
    · rw [hwal, if_pos hroll]
      rfl
    · refine List.Perm.trans (List.Perm.of_eq ?_) hcollect
      exact (List.append_nil _).trans (hmap _)
  · obtain rfl := Option.some.inj h
    refine ⟨?_, rfl, _, rfl, hok _, ?_⟩
    · rw [hwal, if_neg hroll]
      rfl
    · refine List.Perm.trans (List.Perm.of_eq ?_) hcollect
      exact (List.append_nil _).trans (hmap _)
  · obtain rfl := Option.some.inj h
    refine ⟨?_, rfl, [], (List.append_nil _).symm, (fun a ha => by cases ha), hcollect⟩
    rw [hwal, if_neg hroll]

end WalWriter

end KVCacheRaft
