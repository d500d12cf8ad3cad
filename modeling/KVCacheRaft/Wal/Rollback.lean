import KVCacheRaft.Wal.Beginnings

/-!
# A group of batches that fails

When a write of a group fails, the writer cuts the open segment to the offset that `lseek` gave before
the group. A segment that was opened and not written since has the offset `0`, whatever it holds, so
that the recovery removes all of it. The machine is the writer with processes that are killed at any
operation and started again over what the directory holds then.
-/

namespace KVCacheRaft

open Machine

namespace WalWriter

variable {α β : Type}

/-- What the process is at when it is killed. -/
inductive Crash where
  /-- between the rounds of the writer -/
  | idle
  /-- in a write of a group -/
  | writing (torn : Torn)
  /-- behind the writes of a group -/
  | written
  /-- in `RollSegment`, behind the `rename` -/
  | renamed
  /-- in `CompactWal`, behind some of its operations -/
  | compacting (snapshotIndex : ℕ) (operations : ℕ)

/-- What the directory holds then; none when the process cannot be there. -/
def left (s : WalWriter α β) : Crash → Option (List SegmentFile)
  | .idle => some s.wal.files
  | .writing torn => s.group[torn.batch]?.bind fun batch => batch.logs[torn.entry]?.bind fun log =>
    if torn.bytes < log.record.length then
      let before := (s.group.take torn.batch).flatMap (·.logs) ++ batch.logs.take torn.entry
      some (Wal.modify (s.wal.writeLogs before).1.files s.wal.openSegmentName
        (· ++ log.record.take torn.bytes))
    else none
  | .written => some (s.wal.writeLogs (s.group.flatMap (·.logs))).1.files
  | .renamed =>
    let (wal, need_roll) := s.wal.writeLogs (s.group.flatMap (·.logs))
    if need_roll then some wal.renamed else none
  | .compacting snapshotIndex operations =>
    some (((compactOps s.wal.files snapshotIndex).take operations).foldl Disk.apply
      ⟨[], none, {}, s.wal.files⟩).files

/-- A new process over the files of the directory. -/
def started (files : List SegmentFile) : WalWriter α β where
  wal := Wal.create files
  offset := 0
  queue := []
  waiters := []
  callbacks := []
  pending_count := 0
  pending_bytes := 0
  running := true
  snapshot := 0
  taken := []
  answers := []

/-- An event of the process, or a new process; the directory may list its files in any order. -/
inductive Life (α β : Type) where
  | event (e : Event α β)
  | restart (crash : Crash) (found : List SegmentFile)

def live (s : WalWriter α β) : Life α β → Option (WalWriter α β)
  | .event e => s.step e
  | .restart crash found => (s.left crash).bind fun files =>
    if found.Perm files then some (started found) else none

/-- A new process does not take a segment with contents for a new one. -/
def Reopens (found : List SegmentFile) : Prop :=
  match (listSegments found).getLast? with
  | some (.closed _ last, _) => Wal.Clean found (last + 1)
  | _ => True

instance (found : List SegmentFile) : Decidable (Reopens found) := by
  unfold Reopens
  split <;> infer_instance

/-- A group fails only behind a write to the open segment, or when it is empty; no segment with contents
is opened for a new one; and only writes of groups fail. -/
def Guarded (s : WalWriter α β) : Life α β → Prop
  | .event (.push b) => ∀ e ∈ b.logs, e.Encodable
  | .event (.round o) =>
    let (wal, need_roll) := s.wal.writeLogs (s.group.flatMap (·.logs))
    if o.torn.isSome then s.offset = s.wal.content.length
    else need_roll = true → o.sync_ok = true → Wal.Clean wal.renamed (wal.segmentLastIndex + 1)
  | .event (.compactWal _ torn) => torn = none
  | .event (.shutdown _) => True
  | .restart _ found => Reopens found

instance (s : WalWriter α β) (l : Life α β) : Decidable (s.Guarded l) := by
  unfold Guarded
  split <;> infer_instance

end WalWriter

/-! ### What a new segment and a new process describe -/

namespace Wal

variable {w : Wal} {files found : List SegmentFile} {logs opened : List LogEntry}

/-- The renamed file takes its name from another. -/
lemma nodup_renamed (h : (w.files.map (·.1)).Nodup) : (w.renamed.map (·.1)).Nodup := by
  have hfiltered : ((w.files.filter fun file =>
      decide (file.1 ≠ .closed w.segmentFirstIndex w.segmentLastIndex)).map (·.1)).Nodup :=
    h.sublist (List.filter_sublist.map _)
  have hmap : w.renamed.map (·.1) =
      ((w.files.filter fun file =>
        decide (file.1 ≠ .closed w.segmentFirstIndex w.segmentLastIndex)).map (·.1)).map
          fun name => if name = w.openSegmentName then
            .closed w.segmentFirstIndex w.segmentLastIndex else name := by
    rw [Wal.renamed, List.map_map, List.map_map]
    refine List.map_congr_left fun file _ => ?_
    simp only [Function.comp_apply]
    split_ifs <;> rfl
  rw [hmap]
  have hother : ∀ name ∈ (w.files.filter fun file =>
      decide (file.1 ≠ .closed w.segmentFirstIndex w.segmentLastIndex)).map (·.1),
      name ≠ .closed w.segmentFirstIndex w.segmentLastIndex := by
    intro name hname
    obtain ⟨file, hfile, rfl⟩ := List.mem_map.mp hname
    exact of_decide_eq_true (List.mem_filter.mp hfile).2
  refine hfiltered.map_on fun a ha b hb heq => ?_
  have hane := hother a ha
  have hbne := hother b hb
  split_ifs at heq with ha' hb' hb'
  · exact ha'.trans hb'.symm
  · exact absurd heq.symm hbne
  · exact absurd heq hane
  · exact heq

/-- Renaming the segment keeps the files beginnings. -/
lemma Begun.renamed (h : Begun w.files) : Begun w.renamed where
  names := nodup_renamed h.names
  contents file hfile := by
    obtain ⟨x, hx, rfl⟩ := List.mem_map.mp hfile
    have hcontent := h.contents x (List.mem_filter.mp hx).1
    split_ifs <;> exact hcontent

/-- What the writer holds in order: the files, the open segment and its description. -/
structure Kept (w : Wal) : Prop where
  opened : w.Opened
  begun : Begun w.files
  describes : ∃ opened, w.Describes opened ∧ ∀ e ∈ opened, e.Encodable

/-- The size of the log and the compacted index make no difference. -/
lemma Kept.counters (h : w.Kept) (compactedSnapshotIndex raftLogsFileSize : ℕ) :
    Kept { w with compactedSnapshotIndex, raftLogsFileSize } := by
  obtain ⟨opened, hdescribes, hopened⟩ := h.describes
  exact ⟨h.opened, h.begun, opened,
    ⟨hdescribes.content, hdescribes.last, hdescribes.count, hdescribes.bytes⟩, hopened⟩

/-- A new segment is kept. -/
lemma Kept.openSegment (h : Begun w.files) {firstIndex : ℕ} (hclean : Clean w.files firstIndex) :
    (w.openSegment firstIndex).Kept :=
  ⟨opened_openSegment w firstIndex, h.openSegment firstIndex, [], hclean.openSegment,
    fun _ he => by cases he⟩

/-- Records that are written are kept. -/
lemma Kept.writeLogs (h : w.Kept) (hlogs : ∀ e ∈ logs, e.Encodable) : (w.writeLogs logs).1.Kept := by
  obtain ⟨opened, hdescribes, hopened⟩ := h.describes
  exact ⟨(h.opened.writeLogs logs).1, h.begun.writeLogs hdescribes hopened hlogs, opened ++ logs,
    hdescribes.writeLogs h.opened logs, List.forall_mem_append.mpr ⟨hopened, hlogs⟩⟩

/-- A roll that finds no file in its way is kept. -/
lemma Kept.rollSegment (h : w.Kept) (hclean : Clean w.renamed (w.segmentLastIndex + 1)) :
    w.rollSegment.Kept := by
  rw [Wal.rollSegment]
  split_ifs
  · exact h
  · exact Kept.openSegment (w := { w with files := w.renamed }) h.begun.renamed hclean

/-- A WAL that is written anew is kept. -/
lemma Kept.rewriteWalFrom (w : Wal) (firstIndex : ℕ) (hlogs : ∀ e ∈ logs, e.Encodable) :
    (w.rewriteWalFrom firstIndex logs).Kept := by
  have hfold : ∀ {v : Wal}, v.Kept → (logs.foldl (fun w log => { w.writeLog log with
      raftLogsFileSize := w.raftLogsFileSize + log.record.length }) v).Kept := by
    induction logs with
    | nil => exact fun h => h
    | cons log rest ih =>
      intro v hv
      have hlog : ∀ e ∈ [log], e.Encodable := fun e he =>
        hlogs e (List.mem_cons.mpr (.inl (List.mem_singleton.mp he)))
      exact ih (fun e he => hlogs e (List.mem_cons_of_mem _ he)) ((hv.writeLogs hlog).counters _ _)
  refine hfold ⟨opened_openSegment { w with files := [] } firstIndex, ?_, [], ?_, fun _ he => by cases he⟩
  · exact begun_singleton beginning_nil
  · have hclean : Clean ({ w with files := [] } : Wal).files firstIndex := fun _ hfile => by cases hfile
    have hdescribes := hclean.openSegment
    exact ⟨hdescribes.content, rfl, rfl, rfl⟩

/-- `CompactWal` leaves a WAL that is kept. -/
lemma Kept.compactWal (h : w.Kept) (snapshotIndex : ℕ) : (w.compactWal snapshotIndex).Kept := by
  have hrewrite := Kept.rewriteWalFrom (w.readWalSegments snapshotIndex).1
    (((w.compacted snapshotIndex).head?.map (toUInt64 ·.logindex)).getD (snapshotIndex + 1))
    (h.begun.read snapshotIndex)
  exact hrewrite.counters _ _

/-- The open segment is cut to whole records. -/
lemma Kept.cut {v : Wal} {tail : Bytes} (h : Begun w.files) (hopened : w.Opened)
    (hlogs : ∀ e ∈ logs, e.Encodable) (hcontent : w.content = walRecords logs ++ tail)
    (hfiles : v.files = modify w.files w.openSegmentName (·.take (walRecords logs).length))
    (hname : v.openSegmentName = w.openSegmentName)
    (hlast : v.segmentLastIndex =
      (logs.getLast?.map (toUInt64 ·.logindex)).getD (v.segmentFirstIndex - 1))
    (hcount : v.segmentEntryCount = logs.length)
    (hbytes : v.segmentBytes = (walRecords logs).length) : v.Kept := by
  obtain ⟨hopened', hcut⟩ := hopened.modify (·.take (walRecords logs).length) hfiles hname
  refine ⟨hopened', ?_, logs, ⟨?_, hlast, hcount, hbytes⟩, hlogs⟩
  · rw [hfiles]
    exact h.modify fun c hc => (h.contents _ hc).take _
  · rw [hcut, hcontent, List.take_left]

/-- A new process over files that a crash left. -/
lemma Kept.create (h : Begun found) (hreopens : WalWriter.Reopens found) : (Wal.create found).Kept := by
  have hkept : (reopenLatestSegment { files := found }).Kept := by
    have hsame := List.perm_insertionSort (fun a b : SegmentFile => b.1.before a.1 = false) found
    rw [WalWriter.Reopens] at hreopens
    rw [reopenLatestSegment]
    cases hlast : (listSegments found).getLast? with
    | none =>
      refine Kept.openSegment (w := { files := found }) h fun file hfile => ?_
      have hnil := List.getLast?_eq_none_iff.mp hlast
      have hempty : found = [] := (hnil ▸ hsame.symm : found.Perm []).eq_nil
      have hfile' : file ∈ found := hfile
      rw [hempty] at hfile'
      cases hfile'
    | some file =>
      obtain ⟨name, content⟩ := file
      cases name with
      | closed first last =>
        rw [hlast] at hreopens
        exact Kept.openSegment (w := { files := found }) h hreopens
      | inprogress first =>
        have hfile : (SegmentName.inprogress first, content) ∈ found :=
          hsame.subset (List.mem_of_getLast? hlast)
        obtain ⟨entries, tail, hentries, hadmitted, hcontent, htail⟩ :
            ∃ entries tail, (∀ e ∈ entries, e.Encodable) ∧ (∀ e ∈ entries, e.Admitted) ∧
              content = walRecords entries ++ tail ∧ readWalRecord tail = none :=
          (h.contents _ hfile).split
        have hread : readWalSegment 0 content = (entries, (walRecords entries).length) := by
          have hall : entries.filter (·.logindex > ((0 : ℕ) : ℤ)) = entries :=
            List.filter_eq_self.mpr fun e he => decide_eq_true (hentries e he).index_pos
          have hsegment := readWalSegment_append hadmitted htail 0
          rw [hall, ← hcontent] at hsegment
          exact hsegment
        simp only [hread]
        have hcontent' : ({ files := found, segmentFirstIndex := first } : Wal).content =
            walRecords entries ++ tail :=
          (Begun.content_eq (w := { files := found, segmentFirstIndex := first }) h hfile).trans hcontent
        exact Kept.cut (w := { files := found, segmentFirstIndex := first }) h ⟨_, hfile, rfl⟩ hentries
          hcontent' rfl rfl rfl rfl rfl
  exact hkept.counters _ _

/-- Wherever `CompactWal` is cut off, the files are beginnings of records. -/
lemma Begun.compacting (h : Begun w.files) (d : Disk) (hd : d.files = w.files) (snapshotIndex : ℕ) :
    Survives Disk.apply (fun d => Begun d.files) d (compactOps w.files snapshotIndex) := by
  have hremove : Survives Disk.apply (fun d => Begun d.files) d
      (Disk.removeOps w.files snapshotIndex) := by
    refine Survives.of_keeps (Q := fun d : Disk => Begun d.files) (hd ▸ h) (fun d op hop hbegun => ?_)
      fun _ hbegun => hbegun
    obtain hop | hop := List.mem_append.mp hop
    · obtain ⟨file, -, rfl⟩ := List.mem_map.mp hop
      exact hbegun.modify fun c hc => (hbegun.contents _ hc).take _
    · obtain ⟨file, -, rfl⟩ := List.mem_map.mp hop
      exact hbegun.filter _
  obtain ⟨first, hfirst⟩ : ∃ first, first = (((w.compacted snapshotIndex).head?.map
    (toUInt64 ·.logindex)).getD (snapshotIndex + 1)) := ⟨_, rfl⟩
  have hops : compactOps w.files snapshotIndex = Disk.removeOps w.files snapshotIndex ++
      ([.openSegment (.inprogress first)] ++
        (walRecords (w.compacted snapshotIndex)).map (.write (.inprogress first))) := by
    rw [hfirst, ← List.append_assoc]
    rfl
  have hfiles := d.foldl_removeOps snapshotIndex
  rw [hd] at hfiles
  have hempty : Begun [(.inprogress first, [])] := begun_singleton beginning_nil
  rw [hops]
  refine survives_append.mpr ⟨hremove, survives_cons.mpr ⟨hremove.last, fun before hbefore => ?_⟩⟩
  obtain ⟨bytes, hbytes, rfl⟩ : ∃ bytes, bytes <+: walRecords (w.compacted snapshotIndex) ∧
      before = bytes.map (.write (.inprogress first)) := by
    have htake := List.prefix_iff_eq_take.mp hbefore
    exact ⟨_, List.take_prefix before.length _, htake.trans List.map_take.symm⟩
  rw [Disk.foldl_write _ _ bytes [] (by rw [Disk.apply, hfiles]; rfl), List.nil_append]
  exact begun_singleton ⟨_, h.read snapshotIndex, hbytes⟩

end Wal

namespace WalWriter

variable {α β : Type} {s t : WalWriter α β}

/-- What holds between the events. -/
structure Steady (s : WalWriter α β) : Prop where
  kept : s.wal.Kept
  offset_le : s.offset ≤ s.wal.content.length
  queue : ∀ b ∈ s.queue, ∀ e ∈ b.logs, e.Encodable

/-- The entries of a group fit. -/
lemma Steady.group (h : s.Steady) {batches : List (LogBatch α β)} (hbatches : batches ⊆ s.group) :
    ∀ e ∈ batches.flatMap (·.logs), e.Encodable := by
  intro e he
  obtain ⟨b, hb, he⟩ := List.mem_flatMap.mp he
  exact h.queue b (List.mem_of_mem_take (hbatches hb)) e he

/-- The entries written before a torn one fit. -/
lemma Steady.before (h : s.Steady) {torn : Torn} {batch : LogBatch α β}
    (hbatch : s.group[torn.batch]? = some batch) :
    ∀ e ∈ (s.group.take torn.batch).flatMap (·.logs) ++ batch.logs.take torn.entry, e.Encodable := by
  refine List.forall_mem_append.mpr ⟨h.group (List.take_subset _ _), fun e he => ?_⟩
  exact h.queue batch (List.mem_of_mem_take (List.mem_of_getElem? hbatch)) e (List.mem_of_mem_take he)

/-- A writer that starts over files it can go on with is steady. -/
lemma steady_started {files : List SegmentFile} (h : Wal.Begun files) (hreopens : Reopens files) :
    (started files : WalWriter α β).Steady :=
  ⟨Wal.Kept.create h hreopens, Nat.zero_le _, fun _ hb => by cases hb⟩

/-- What a crash leaves can be read by a new process. -/
lemma Steady.left (h : s.Steady) {crash : Crash} {files : List SegmentFile}
    (hleft : s.left crash = some files) : Wal.Begun files := by
  cases crash with
  | idle =>
    obtain rfl := Option.some.inj hleft
    exact h.kept.begun
  | writing torn =>
    obtain ⟨batch, hbatch, hleft⟩ := Option.bind_eq_some_iff.mp hleft
    obtain ⟨log, hlog, hleft⟩ := Option.bind_eq_some_iff.mp hleft
    obtain ⟨-, hleft⟩ := Option.ite_none_right_eq_some.mp hleft
    obtain rfl := Option.some.inj hleft
    have hlog' : log.Encodable := h.queue batch
      (List.mem_of_mem_take (List.mem_of_getElem? hbatch)) log (List.mem_of_getElem? hlog)
    have hwritten := h.kept.writeLogs (h.before hbatch)
    obtain ⟨opened, hdescribes, hopened⟩ := hwritten.describes
    refine hwritten.begun.modify fun content hfile => ?_
    have hname := Wal.openSegmentName_writeLogs s.wal
      ((s.group.take torn.batch).flatMap (·.logs) ++ batch.logs.take torn.entry)
    have hcontent := (hwritten.begun.content_eq (hname ▸ hfile)).symm.trans hdescribes.content
    refine ⟨opened ++ [log], List.forall_mem_append.mpr ⟨hopened, fun e he => ?_⟩, ?_⟩
    · exact List.mem_singleton.mp he ▸ hlog'
    · rw [hcontent, walRecords_append]
      refine (List.prefix_append_right_inj _).mpr ((List.take_prefix _ _).trans ?_)
      exact List.prefix_append log.record []
  | written =>
    obtain rfl := Option.some.inj hleft
    exact (h.kept.writeLogs (h.group (List.Subset.refl _))).begun
  | renamed =>
    obtain ⟨-, hleft⟩ := Option.ite_none_right_eq_some.mp hleft
    obtain rfl := Option.some.inj hleft
    exact (h.kept.writeLogs (h.group (List.Subset.refl _))).begun.renamed
  | compacting snapshotIndex operations =>
    obtain rfl := Option.some.inj hleft
    exact h.kept.begun.compacting _ rfl snapshotIndex _ (List.take_prefix _ _)

/-! ### The recovery -/

/-- What the recovery from a failed write leaves of the state before the group. -/
structure Recovered (s t : WalWriter α β) (rest : Bytes) : Prop where
  files : t.wal.files =
    Wal.modify s.wal.files s.wal.openSegmentName fun content => (content ++ rest).take s.offset
  first : t.wal.segmentFirstIndex = s.wal.segmentFirstIndex
  last : t.wal.segmentLastIndex = s.wal.segmentLastIndex
  count : t.wal.segmentEntryCount = s.wal.segmentEntryCount
  bytes : t.wal.segmentBytes = s.wal.segmentBytes
  offset : t.offset = s.offset
  queue : t.queue = s.queue.drop kSyncBatchCount

/-- A failing write is followed by the recovery. -/
lemma recovered_writeFails {torn : Torn} (ht : s.pop.writeFails s.group torn = some t) :
    ∃ rest, Recovered s t rest := by
  obtain ⟨before, log, rfl⟩ := writeFails_cases ht
  have hcompose : Wal.modify (s.wal.writeLogs before).1.files
      (s.wal.writeLogs before).1.openSegmentName
      (fun content => (content ++ log.record.take torn.bytes).take s.offset) =
      Wal.modify s.wal.files s.wal.openSegmentName fun content =>
        (content ++ (walRecords before ++ log.record.take torn.bytes)).take s.offset := by
    rw [Wal.openSegmentName_writeLogs, Wal.files_writeLogs, Wal.modify, Wal.modify, List.map_map]
    refine List.map_congr_left fun file _ => ?_
    by_cases hfile : file.1 = s.wal.openSegmentName
    · simp only [Function.comp_apply, if_pos hfile, List.append_assoc]
    · simp only [Function.comp_apply, if_neg hfile]
  exact ⟨_, hcompose, rfl, rfl, rfl, rfl, rfl, rfl⟩

/-- The recovery cuts the open segment at the offset. -/
lemma Recovered.content {rest : Bytes} (h : Recovered s t rest) (hopened : s.wal.Opened) :
    t.wal.Opened ∧ t.wal.content = (s.wal.content ++ rest).take s.offset :=
  hopened.modify (fun content => (content ++ rest).take s.offset) h.files
    (congrArg SegmentName.inprogress h.first)

/-- The files are as before just when the offset is the end of the open segment. -/
lemma Recovered.files_eq_iff {rest : Bytes} (h : Recovered s t rest) (hs : s.Steady) :
    t.wal.files = s.wal.files ↔ s.offset = s.wal.content.length := by
  obtain ⟨-, hcontent⟩ := h.content hs.kept.opened
  constructor
  · intro heq
    have hsame : t.wal.content = s.wal.content := by
      have hname : t.wal.openSegmentName = s.wal.openSegmentName :=
        congrArg SegmentName.inprogress h.first
      rw [Wal.content, Wal.content, heq, hname]
    rw [hsame] at hcontent
    have hlen := congrArg List.length hcontent
    rw [List.length_take] at hlen
    have hle := hs.offset_le
    omega
  · intro heq
    rw [h.files]
    refine (List.map_congr_left fun file hfile => ?_).trans (List.map_id _)
    split_ifs with hname
    · have hfile' : s.wal.content = file.2 := hs.kept.begun.content_eq (hname ▸ hfile)
      have hcut : (file.2 ++ rest).take s.offset = file.2 := by
        rw [heq, hfile', List.take_left]
      exact congrArg (Prod.mk file.1) hcut
    · rfl

/-- Behind the recovery the open segment holds what it held. -/
lemma Recovered.describes {rest : Bytes} (h : Recovered s t rest)
    (hoffset : s.offset = s.wal.content.length) (hopened : s.wal.Opened) {opened : List LogEntry}
    (hdescribes : s.wal.Describes opened) : t.wal.Describes opened where
  content := by
    rw [(h.content hopened).2, hoffset, List.take_left]
    exact hdescribes.content
  last := by
    rw [h.last, h.first]
    exact hdescribes.last
  count := h.count.trans hdescribes.count
  bytes := h.bytes.trans hdescribes.bytes

/-! ### Runs -/

/-- A writer stays steady while files, offset and queue do. -/
lemma Steady.congr (h : s.Steady) (hwal : t.wal = s.wal) (hoffset : t.offset = s.offset)
    (hqueue : t.queue = s.queue) : t.Steady where
  kept := hwal ▸ h.kept
  offset_le := by
    rw [hwal, hoffset]
    exact h.offset_le
  queue := hqueue ▸ h.queue

/-- A group that is written leaves the writer steady. -/
lemma Steady.written (h : s.Steady) : (s.pop.writeGroup s.group).Steady where
  kept := (h.kept.writeLogs (h.group (List.Subset.refl _))).counters _ _
  offset_le := by
    have hcontent := (h.kept.opened.writeLogs (s.group.flatMap (·.logs))).2
    show (if _ then s.offset else (s.wal.writeLogs _).1.content.length) ≤
      (s.wal.writeLogs (s.group.flatMap (·.logs))).1.content.length
    split_ifs with hnil
    · rw [hcontent, List.length_append]
      exact Nat.le_trans h.offset_le (Nat.le_add_right _ _)
    · exact Nat.le_refl _
  queue b hb := h.queue b (List.mem_of_mem_drop hb)

/-- A round keeps it, if a group that fails is cut where it started and a roll opens a segment without
contents. -/
lemma Steady.round (h : s.Steady) {o : Outcome} (hguarded : s.Guarded (.event (.round o)))
    (ht : s.round o = some t) : t.Steady := by
  have hguarded' : if o.torn.isSome then s.offset = s.wal.content.length
      else (s.wal.writeLogs (s.group.flatMap (·.logs))).2 = true → o.sync_ok = true →
        Wal.Clean (s.wal.writeLogs (s.group.flatMap (·.logs))).1.renamed
          ((s.wal.writeLogs (s.group.flatMap (·.logs))).1.segmentLastIndex + 1) := hguarded
  have hwritten := h.written
  obtain ⟨torn, htorn, hfails⟩ | ⟨htorn, hround⟩ := round_cases ht
  · rw [htorn] at hguarded'
    obtain ⟨rest, hrecovered⟩ := recovered_writeFails hfails
    obtain ⟨opened, hdescribes, hopened⟩ := h.kept.describes
    have hfiles := (hrecovered.files_eq_iff h).mpr hguarded'
    obtain ⟨hopened', hcontent⟩ := hrecovered.content h.kept.opened
    refine ⟨⟨hopened', hfiles ▸ h.kept.begun, opened,
      hrecovered.describes hguarded' h.kept.opened hdescribes, hopened⟩, ?_, fun b hb => ?_⟩
    · rw [hrecovered.offset, hcontent, hguarded', List.take_left]
    · rw [hrecovered.queue] at hb
      exact h.queue b (List.mem_of_mem_drop hb)
  · rw [htorn] at hguarded'
    obtain ⟨hroll, rfl⟩ | ⟨-, rfl⟩ | ⟨-, rfl⟩ := hround
    · cases hok : o.sync_ok with
      | true =>
        have hkept := hwritten.kept.rollSegment (hguarded' hroll hok)
        exact ⟨hkept, Nat.zero_le _, hwritten.queue⟩
      | false => exact hwritten.congr rfl rfl rfl
    · exact hwritten.congr rfl rfl rfl
    · exact hwritten

/-- A guarded step of the writer leaves it steady. -/
lemma Steady.step (h : s.Steady) {e : Event α β} (hguarded : s.Guarded (.event e))
    (ht : s.step e = some t) : t.Steady := by
  cases e with
  | push b =>
    obtain rfl := Option.some.inj ht
    split_ifs
    · exact h
    · refine ⟨h.kept, h.offset_le, fun x hx => ?_⟩
      obtain hx | hx := List.mem_append.mp hx
      · exact h.queue x hx
      · exact List.mem_singleton.mp hx ▸ hguarded
  | round o =>
    obtain ⟨-, ht⟩ := Option.ite_none_right_eq_some.mp ht
    exact h.round hguarded ht
  | compactWal snapshotIndex torn =>
    obtain rfl : torn = none := hguarded
    obtain rfl := Option.some.inj ht
    exact ⟨h.kept.compactWal snapshotIndex, Nat.le_refl _, h.queue⟩
  | shutdown sync_ok =>
    obtain ⟨-, ht⟩ := Option.ite_none_right_eq_some.mp ht
    obtain rfl := Option.some.inj ht
    split_ifs
    · exact h.congr rfl rfl rfl
    · exact h.congr rfl rfl rfl

/-- A guarded step of the process leaves the writer steady. -/
lemma Steady.live (h : s.Steady) {l : Life α β} (hguarded : s.Guarded l) (ht : s.live l = some t) :
    t.Steady := by
  cases l with
  | event e => exact h.step hguarded ht
  | restart crash found =>
    obtain ⟨files, hleft, ht⟩ := Option.bind_eq_some_iff.mp ht
    obtain ⟨hfound, ht⟩ := Option.ite_none_right_eq_some.mp ht
    obtain rfl := Option.some.inj ht
    exact steady_started ((h.left hleft).perm hfound) hguarded

/-- Wherever a run from an empty directory has come to, a group that fails leaves the files as they
were, and fields that describe the open segment, just when the offset before it is the end of the open
segment. -/
theorem round_fails_iff {s : WalWriter α β} (hrun : Run live Guarded (started []) s) {o : Outcome}
    {t : WalWriter α β} (htorn : o.torn.isSome) (ht : s.live (.event (.round o)) = some t) :
    (t.wal.files = s.wal.files ∧ ∃ opened, t.wal.Describes opened) ↔
      s.offset = s.wal.content.length := by
  have hstart : (started [] : WalWriter α β).Steady :=
    steady_started ⟨List.nodup_nil, fun _ hfile => by cases hfile⟩ trivial
  have hs := hrun.invariant (fun _ _ _ h hguarded hstep => Steady.live h hguarded hstep) hstart
  obtain ⟨-, hround⟩ := Option.ite_none_right_eq_some.mp ht
  obtain ⟨torn, -, hfails⟩ | ⟨hnone, -⟩ := round_cases hround
  · obtain ⟨rest, hrecovered⟩ := recovered_writeFails hfails
    obtain ⟨opened, hdescribes, -⟩ := hs.kept.describes
    refine ⟨fun h => (hrecovered.files_eq_iff hs).mp h.1, fun h => ?_⟩
    exact ⟨(hrecovered.files_eq_iff hs).mpr h, opened,
      hrecovered.describes h hs.kept.opened hdescribes⟩
  · rw [hnone] at htorn
    cases htorn

/-- Two batches in two groups; the write of the second one fails. -/
theorem round_fails_iff_written :
    ∃ s t : WalWriter ℕ ℕ, s.wal.content ≠ [] ∧ t.wal.files = s.wal.files ∧
      ∃ opened, t.wal.Describes opened := by
  have hruns : ∃ s ∈ runIf live Guarded (started [] : WalWriter ℕ ℕ)
      [.event (.push ⟨[⟨[1], 1, 1⟩], .waiter 0⟩), .event (.round ⟨none, true, true⟩),
        .event (.push ⟨[⟨[2], 1, 2⟩], .waiter 1⟩)],
      (s.live (.event (.round ⟨some ⟨0, 0, 5⟩, true, true⟩))).isSome = true ∧
        s.offset = s.wal.content.length ∧ s.wal.content ≠ [] := by decide
  obtain ⟨s, hrun, hstep, hoffset, hcontent⟩ := exists_run_of_runIf hruns
  obtain ⟨t, ht⟩ := Option.isSome_iff_exists.mp hstep
  exact ⟨s, t, hcontent, (round_fails_iff hrun rfl ht).mpr hoffset⟩

/-- An entry is written, the process is started again, and the first write fails: the entry is gone. -/
theorem exists_removed :
    ∃ s t : WalWriter ℕ ℕ, Run live (fun _ _ => True) (started []) s ∧
      s.live (.event (.round ⟨some ⟨0, 0, 0⟩, true, true⟩)) = some t ∧
      s.wal.content = walRecords [⟨[1], 1, 1⟩] ∧ t.wal.content = [] := by
  have hruns : ∃ s ∈ runIf live (fun _ _ => True) (started [] : WalWriter ℕ ℕ)
      [.event (.push ⟨[⟨[1], 1, 1⟩], .waiter 0⟩), .event (.round ⟨none, true, true⟩),
        .restart .idle [(.inprogress 1, walRecords [⟨[1], 1, 1⟩])],
        .event (.push ⟨[⟨[2], 1, 2⟩], .waiter 1⟩)],
      s.wal.content = walRecords [⟨[1], 1, 1⟩] ∧
        ∃ t ∈ s.live (.event (.round ⟨some ⟨0, 0, 0⟩, true, true⟩)), t.wal.content = [] := by decide
  obtain ⟨s, hrun, hcontent, t, ht, hnil⟩ := exists_run_of_runIf hruns
  exact ⟨s, t, hrun, ht, hcontent, hnil⟩

end WalWriter

end KVCacheRaft
