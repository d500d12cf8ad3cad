import KVCacheRaft.Wal.Writer

/-!
# Every batch is answered

A batch that the writer has taken is answered once or still collected, unless a write failed in front
of it in its group: then nobody is told of it any more. A batch that is answered with success is in
the file that was synced, unless the log was compacted in between without it.
-/

namespace KVCacheRaft

open Machine

namespace Wal

variable {w : Wal}

/-- The file behind `log_fd` is there. -/
def Opened (w : Wal) : Prop := ∃ file ∈ w.files, file.1 = w.openSegmentName

/-- A file is found after a change under its name. -/
lemma find?_modify (files : List SegmentFile) (name : SegmentName) (f : Bytes → Bytes) :
    (modify files name f).find? (·.1 = name) =
      (files.find? (·.1 = name)).map fun file => (file.1, f file.2) := by
  induction files with
  | nil => rfl
  | cons file files ih =>
    rw [modify, List.map_cons, List.find?_cons, List.find?_cons]
    split_ifs with hname
    · simp [hname]
    · simp only [hname, decide_false]
      exact ih

/-- The open segment is found. -/
lemma Opened.find? (h : w.Opened) : ∃ file, w.files.find? (·.1 = w.openSegmentName) = some file := by
  obtain ⟨file, hmem, hname⟩ := h
  exact Option.isSome_iff_exists.mp
    (List.find?_isSome.mpr ⟨file, hmem, decide_eq_true hname⟩)

/-- A change of the open file. -/
lemma Opened.modify (h : w.Opened) (f : Bytes → Bytes) {w' : Wal}
    (hfiles : w'.files = Wal.modify w.files w.openSegmentName f)
    (hname : w'.openSegmentName = w.openSegmentName) : w'.Opened ∧ w'.content = f w.content := by
  obtain ⟨file, hfile⟩ := h.find?
  have hfind : w'.files.find? (·.1 = w'.openSegmentName) = some (file.1, f file.2) := by
    rw [hname, hfiles, find?_modify, hfile]
    rfl
  refine ⟨⟨_, List.mem_of_find?_eq_some hfind, ?_⟩, ?_⟩
  · have hsome := List.find?_some hfind
    exact of_decide_eq_true hsome
  · rw [content, content, hfind, hfile]
    rfl

/-- A segment that is opened is there. -/
lemma opened_openSegment (w : Wal) (firstIndex : ℕ) : (w.openSegment firstIndex).Opened := by
  rw [openSegment]
  by_cases hany : w.files.any (·.1 = SegmentName.inprogress firstIndex)
  · obtain ⟨file, hfile, hname⟩ := List.any_eq_true.mp hany
    refine ⟨file, ?_, of_decide_eq_true hname⟩
    simp only [hany, if_true]
    exact hfile
  · refine ⟨(.inprogress firstIndex, []), ?_, rfl⟩
    simp only [hany]
    exact List.mem_append_right _ List.mem_cons_self

/-- Behind a roll a segment is open. -/
lemma Opened.rollSegment (h : w.Opened) : w.rollSegment.Opened := by
  rw [Wal.rollSegment]
  split_ifs
  · exact h
  · exact opened_openSegment _ _

/-- Records are written behind what the open segment has. -/
lemma Opened.writeLogs (h : w.Opened) (logs : List LogEntry) :
    (w.writeLogs logs).1.Opened ∧ (w.writeLogs logs).1.content = w.content ++ walRecords logs := by
  induction logs generalizing w with
  | nil => exact ⟨h, (List.append_nil _).symm⟩
  | cons log rest ih =>
    obtain ⟨hopened, hcontent⟩ : (w.writeLog log).Opened ∧ _ :=
      h.modify (· ++ log.record) rfl rfl
    obtain ⟨hrest, heq⟩ := ih hopened
    refine ⟨hrest, heq.trans ?_⟩
    rw [hcontent, List.append_assoc]
    rfl

/-- Writing keeps the segment. -/
lemma openSegmentName_writeLogs (w : Wal) (logs : List LogEntry) :
    (w.writeLogs logs).1.openSegmentName = w.openSegmentName := by
  induction logs generalizing w with
  | nil => rfl
  | cons log rest ih => exact ih (w.writeLog log)

/-- A WAL that is written anew has the records in its open segment. -/
lemma opened_rewriteWalFrom (w : Wal) (firstIndex : ℕ) (logs : List LogEntry) :
    (w.rewriteWalFrom firstIndex logs).Opened ∧
      (w.rewriteWalFrom firstIndex logs).content = walRecords logs := by
  have hfold : ∀ {w : Wal}, w.Opened →
      let w' := logs.foldl (fun w log =>
        { w.writeLog log with raftLogsFileSize := w.raftLogsFileSize + log.record.length }) w
      w'.Opened ∧ w'.content = w.content ++ walRecords logs := by
    induction logs with
    | nil => exact fun h => ⟨h, (List.append_nil _).symm⟩
    | cons log rest ih =>
      intro w h
      obtain ⟨hopened, hcontent⟩ : Opened { w.writeLog log with
          raftLogsFileSize := w.raftLogsFileSize + log.record.length } ∧ _ :=
        h.modify (· ++ log.record) rfl rfl
      obtain ⟨hrest, heq⟩ := ih hopened
      refine ⟨hrest, heq.trans ?_⟩
      rw [hcontent, List.append_assoc]
      rfl
  have hopened := opened_openSegment { w with files := [] } firstIndex
  have hcontent : (({ w with files := [] } : Wal).openSegment firstIndex).content = [] := by
    simp [content, openSegment, openSegmentName]
  obtain ⟨hopened', hcontent'⟩ := hfold (w := { ({ w with files := [] } : Wal).openSegment firstIndex
    with raftLogsFileSize := 0 }) hopened
  refine ⟨hopened', hcontent'.trans ?_⟩
  exact congrArg (· ++ _) hcontent

/-- The record of an entry is among the records. -/
lemma record_infix {e : LogEntry} {logs : List LogEntry} (he : e ∈ logs) :
    e.record <:+: walRecords logs := by
  obtain ⟨before, behind, rfl⟩ := List.append_of_mem he
  exact ⟨walRecords before, walRecords behind, by simp [walRecords]⟩

end Wal

namespace WalWriter

variable {α β : Type} {s t : WalWriter α β}

/-! ### Which batches are answered -/

/-- Callbacks leave the batches accounted for. -/
lemma accounted_notify (s : WalWriter α β) (ok : Bool) (synced : Option Bytes) :
    (s.notify ok synced).accounted = s.accounted := by
  simp [accounted, notify, Function.comp_def]

/-- Batches that are collected are accounted for. -/
lemma accounted_collect (s : WalWriter α β) (batches : List (LogBatch α β)) :
    (s.collect batches).accounted.Perm (s.accounted ++ batches) := by
  rw [accounted, accounted, List.append_assoc]
  refine List.Perm.append_left _ ?_
  show ((s.waiters ++ batches.filter (·.ticket.isWaiter)) ++
    (s.callbacks ++ batches.filter (!·.ticket.isWaiter))).Perm _
  have hswap := List.perm_append_comm_assoc (batches.filter (·.ticket.isWaiter)) s.callbacks
    (batches.filter (!·.ticket.isWaiter))
  have hfilter := List.filter_append_perm (fun b => b.ticket.isWaiter) batches
  simp only [List.append_assoc]
  exact (hswap.trans (hfilter.append_left _)).append_left _

/-- The batches that a step takes, and those of them that are answered or collected. -/
structure Takes (s t : WalWriter α β) (group kept : List (LogBatch α β)) : Prop where
  taken : t.taken = s.taken ++ group
  accounted : t.accounted.Perm (s.accounted ++ kept)
  kept : kept <+: group

/-- A step that takes no batch. -/
lemma Takes.nothing (htaken : t.taken = s.taken) (haccounted : t.accounted = s.accounted) :
    Takes s t [] [] where
  taken := htaken.trans (List.append_nil _).symm
  accounted := by rw [haccounted, List.append_nil]
  kept := List.prefix_rfl

/-- The records of the entries before a failed write are written, and a part of its own record; only
the files change. -/
lemma writeFails_cases {batches : List (LogBatch α β)} {torn : Torn}
    (h : s.writeFails batches torn = some t) : ∃ (before : List LogEntry) (log : LogEntry),
      t = notify { s.collect (batches.take (torn.batch + 1)) with
        wal := { s.wal with
          files := Wal.modify (s.wal.writeLogs before).1.files
            (s.wal.writeLogs before).1.openSegmentName fun content =>
              (content ++ log.record.take torn.bytes).take s.offset }
        pending_count := 0
        pending_bytes := 0 } false none := by
  obtain ⟨batch, -, h⟩ := Option.bind_eq_some_iff.mp h
  obtain ⟨log, -, h⟩ := Option.bind_eq_some_iff.mp h
  obtain ⟨-, h⟩ := Option.ite_none_right_eq_some.mp h
  exact ⟨_, log, (Option.some.inj h).symm⟩

/-- A failed write leaves the batches behind it to nobody. -/
lemma writeFails_takes {torn : Torn} (h : s.pop.writeFails s.group torn = some t) :
    Takes s t s.group (s.group.take (torn.batch + 1)) := by
  obtain ⟨before, log, rfl⟩ := writeFails_cases h
  refine ⟨rfl, ?_, List.take_prefix _ _⟩
  rw [accounted_notify]
  exact s.pop.accounted_collect _

/-- A group that is written is taken. -/
lemma written_takes (s : WalWriter α β) : Takes s (s.pop.writeGroup s.group) s.group s.group where
  taken := rfl
  accounted := s.pop.accounted_collect s.group
  kept := List.prefix_rfl

/-- A group is told and still taken. -/
lemma Takes.notify {group kept : List (LogBatch α β)} {ok : Bool} {synced : Option Bytes}
    {u : WalWriter α β} (h : Takes s t group kept) (htaken : u.taken = t.taken)
    (haccounted : u.accounted = t.accounted) : Takes s (u.notify ok synced) group kept where
  taken := htaken.trans h.taken
  accounted := by rw [accounted_notify, haccounted]; exact h.accounted
  kept := h.kept

/-- A roll behind a group takes the group. -/
lemma roll_takes (s : WalWriter α β) (sync_ok : Bool) :
    Takes s ((s.pop.writeGroup s.group).roll sync_ok) s.group s.group := by
  cases sync_ok
  · exact s.written_takes.notify rfl rfl
  · exact s.written_takes.notify rfl rfl

/-- The rounds by their ends. -/
lemma round_cases {o : Outcome} (h : s.round o = some t) :
    (∃ torn, o.torn = some torn ∧ s.pop.writeFails s.group torn = some t) ∨
    o.torn = none ∧
      ((s.wal.writeLogs (s.group.flatMap (·.logs))).2 = true ∧
          t = (s.pop.writeGroup s.group).roll o.sync_ok ∨
        (s.pop.writeGroup s.group).should_sync o.time_due = true ∧
          t = notify { s.pop.writeGroup s.group with pending_count := 0, pending_bytes := 0 }
            o.sync_ok ((s.pop.writeGroup s.group).fdatasync o.sync_ok) ∨
        (s.pop.writeGroup s.group).should_sync o.time_due = false ∧
          t = s.pop.writeGroup s.group) := by
  rw [round] at h
  cases htorn : o.torn with
  | some torn =>
    simp only [htorn] at h
    exact .inl ⟨torn, rfl, h⟩
  | none =>
    simp only [htorn] at h
    refine .inr ⟨rfl, ?_⟩
    split_ifs at h with hroll hsync
    · exact .inl ⟨hroll, (Option.some.inj h).symm⟩
    · exact .inr (.inl ⟨hsync, (Option.some.inj h).symm⟩)
    · exact .inr (.inr ⟨Bool.eq_false_iff.mpr hsync, (Option.some.inj h).symm⟩)

/-- What a step takes; all of it is kept, when the step is calm. -/
lemma step_takes {e : Event α β} (h : s.step e = some t) :
    ∃ group kept, Takes s t group kept ∧ (s.Calm e → kept = group) := by
  cases e with
  | push b =>
    obtain rfl := Option.some.inj h
    refine ⟨[], [], Takes.nothing ?_ ?_, fun _ => rfl⟩ <;> split_ifs <;> rfl
  | round o =>
    obtain ⟨-, h⟩ := Option.ite_none_right_eq_some.mp h
    obtain ⟨torn, htorn, hfails⟩ | ⟨htorn, ⟨-, rfl⟩ | ⟨-, rfl⟩ | ⟨-, rfl⟩⟩ := round_cases h
    · refine ⟨_, _, writeFails_takes hfails, fun hcalm => ?_⟩
      rw [hcalm torn htorn]
      exact List.take_length
    · exact ⟨_, _, s.roll_takes o.sync_ok, fun _ => rfl⟩
    · exact ⟨_, _, s.written_takes.notify rfl rfl, fun _ => rfl⟩
    · exact ⟨_, _, s.written_takes, fun _ => rfl⟩
  | compactWal snapshotIndex torn =>
    cases torn with
    | none =>
      obtain rfl := Option.some.inj h
      exact ⟨[], [], Takes.nothing rfl rfl, fun _ => rfl⟩
    | some torn =>
      obtain ⟨log, -, h⟩ := Option.bind_eq_some_iff.mp h
      obtain ⟨-, h⟩ := Option.ite_none_right_eq_some.mp h
      obtain rfl := Option.some.inj h
      exact ⟨[], [], Takes.nothing rfl rfl, fun _ => rfl⟩
  | shutdown sync_ok =>
    obtain ⟨-, h⟩ := Option.ite_none_right_eq_some.mp h
    obtain rfl := Option.some.inj h
    refine ⟨[], [], Takes.nothing ?_ ?_, fun _ => rfl⟩
    · split_ifs <;> rfl
    · split_ifs
      · exact accounted_notify _ _ _
      · rfl

/-- A batch that is lost stays lost. -/
lemma lost_of_step {e : Event α β} (h : s.step e = some t)
    (hlost : s.accounted.length < s.taken.length) : t.accounted.length < t.taken.length := by
  obtain ⟨group, kept, htakes, -⟩ := step_takes h
  rw [htakes.taken, htakes.accounted.length_eq, List.length_append, List.length_append]
  have := htakes.kept.length_le
  omega

/-! ### What an answer says -/

/-- The records of the collected batches are in the open segment, or covered by a snapshot. -/
structure Inv (s : WalWriter α β) : Prop where
  opened : s.wal.Opened
  nonempty : ∀ b ∈ s.queue, b.logs ≠ []
  count : s.pending_count = 0 → s.waiters ++ s.callbacks = []
  held : ∀ b ∈ s.waiters ++ s.callbacks, ∀ e ∈ b.logs,
    e.logindex ≤ s.snapshot ∨ e.record <:+: s.wal.content
  truthful : ∀ a ∈ s.answers, a.Truthful

/-- A fresh writer satisfies the invariant. -/
lemma Fresh.inv (h : s.Fresh) : s.Inv where
  opened := h.opened
  nonempty b hb := by
    rw [h.queue] at hb
    cases hb
  count _ := by rw [h.waiters, h.callbacks]; rfl
  held b hb := by
    rw [h.waiters, h.callbacks] at hb
    cases hb
  truthful a ha := by
    rw [h.answers] at ha
    cases ha

/-- All collected batches are answered after a sync; the segment may have been rolled. -/
lemma Inv.notify (h : s.Inv) {wal : Wal} (hopened : wal.Opened)
    {offset pending_count pending_bytes : ℕ} {running : Bool} (sync_ok : Bool) :
    (notify { s with wal, offset, pending_count, pending_bytes, running } sync_ok
      (s.fdatasync sync_ok)).Inv := by
  refine ⟨hopened, h.nonempty, fun _ => rfl, (fun b hb => by cases hb), fun a ha => ?_⟩
  obtain ha | ha := List.mem_append.mp ha
  · exact h.truthful a ha
  · obtain ⟨b, hb, rfl⟩ := List.mem_map.mp ha
    intro hok e he
    obtain rfl : sync_ok = true := hok
    exact (h.held b hb e he).imp_right fun hrecord => ⟨s.wal.content, rfl, hrecord⟩

/-- The records of the group go to the end of the open segment. -/
lemma Inv.writeGroup (h : s.Inv) : (s.pop.writeGroup s.group).Inv := by
  obtain ⟨hopened, hcontent⟩ := h.opened.writeLogs (s.group.flatMap (·.logs))
  have hcontent' : (s.pop.writeGroup s.group).wal.content =
      s.wal.content ++ walRecords (s.group.flatMap (·.logs)) := hcontent
  refine ⟨hopened, fun b hb => h.nonempty b (List.mem_of_mem_drop hb), ?_, ?_, h.truthful⟩
  · intro hcount
    have hcount' : s.pending_count + (s.group.flatMap (·.logs)).length = 0 := hcount
    have hnone := h.count (by omega)
    have hlogs : s.group.flatMap (·.logs) = [] := List.length_eq_zero_iff.mp (by omega)
    have hgroup : s.group = [] := by
      refine List.eq_nil_iff_forall_not_mem.mpr fun b hb => ?_
      exact h.nonempty b (List.mem_of_mem_take hb) (List.flatMap_eq_nil_iff.mp hlogs b hb)
    show (s.waiters ++ s.group.filter _) ++ (s.callbacks ++ s.group.filter _) = []
    obtain ⟨hwaiters, hcallbacks⟩ := List.append_eq_nil_iff.mp hnone
    rw [hgroup, hwaiters, hcallbacks]
    rfl
  · intro b hb e he
    rw [hcontent']
    have hb' : b ∈ s.waiters ++ s.callbacks ∨ b ∈ s.group := by
      have hmem : b ∈ (s.waiters ++ s.group.filter (·.ticket.isWaiter)) ++
        (s.callbacks ++ s.group.filter (!·.ticket.isWaiter)) := hb
      simp only [List.mem_append, List.mem_filter] at hmem ⊢
      tauto
    obtain hb | hb := hb'
    · refine (h.held b hb e he).imp_right fun hrecord => hrecord.trans ?_
      exact (List.prefix_append _ _).isInfix
    · refine .inr ((Wal.record_infix (List.mem_flatMap.mpr ⟨b, hb, he⟩)).trans ?_)
      exact (List.suffix_append _ _).isInfix

/-- A failing write keeps the invariant. -/
lemma Inv.writeFails (h : s.Inv) {torn : Torn} (ht : s.pop.writeFails s.group torn = some t) :
    t.Inv := by
  obtain ⟨before, log, rfl⟩ := writeFails_cases ht
  refine ⟨?_, fun b hb => h.nonempty b (List.mem_of_mem_drop hb), fun _ => rfl,
    (fun b hb => by cases hb), ?_⟩
  · -- the counters are those before the writes, and they name the same file
    obtain ⟨hopened, -⟩ := h.opened.writeLogs before
    refine (Wal.Opened.modify hopened
      (fun content => (content ++ log.record.take torn.bytes).take s.offset) rfl ?_).1
    exact (s.wal.openSegmentName_writeLogs _).symm
  · intro a ha
    obtain ha | ha := List.mem_append.mp ha
    · exact h.truthful a ha
    · obtain ⟨b, hb, rfl⟩ := List.mem_map.mp ha
      exact fun hok => by cases hok

/-- `CompactWal` writes what it keeps into a new segment. -/
lemma Inv.compactWal (h : s.Inv) {snapshotIndex : ℕ} {torn : Option (ℕ × ℕ)}
    (hcalm : s.Calm (.compactWal snapshotIndex torn))
    (ht : s.compactWal snapshotIndex torn = some t) : t.Inv := by
  cases torn with
  | none =>
    obtain rfl := Option.some.inj ht
    obtain ⟨hopened, hcontent⟩ := Wal.opened_rewriteWalFrom (s.wal.readWalSegments snapshotIndex).1
      (((s.wal.compacted snapshotIndex).head?.map (toUInt64 ·.logindex)).getD (snapshotIndex + 1))
      (s.wal.compacted snapshotIndex)
    refine ⟨hopened, h.nonempty, h.count, fun b hb e he => ?_, h.truthful⟩
    refine (hcalm b hb e he).imp_right fun hkept => ?_
    show e.record <:+: Wal.content _
    exact hcontent ▸ Wal.record_infix hkept
  | some torn =>
    obtain ⟨log, -, ht⟩ := Option.bind_eq_some_iff.mp ht
    obtain ⟨-, ht⟩ := Option.ite_none_right_eq_some.mp ht
    obtain rfl := Option.some.inj ht
    obtain ⟨hopened, hcontent⟩ := Wal.opened_rewriteWalFrom s.wal
      (((s.wal.compacted snapshotIndex).head?.map (toUInt64 ·.logindex)).getD (snapshotIndex + 1))
      ((s.wal.compacted snapshotIndex).take torn.1)
    obtain ⟨hopened', hcontent'⟩ : (s.wal.compactWalTorn snapshotIndex
        ((s.wal.compacted snapshotIndex).take torn.1) log torn.2).Opened ∧ _ :=
      hopened.modify (· ++ log.record.take torn.2) rfl rfl
    refine ⟨hopened', h.nonempty, h.count, fun b hb e he => ?_, h.truthful⟩
    refine (hcalm b hb e he).imp_right fun hkept => ?_
    show e.record <:+: Wal.content _
    rw [hcontent', hcontent]
    exact (Wal.record_infix hkept).trans (List.prefix_append _ _).isInfix

/-- A calm step keeps the invariant. -/
lemma Inv.step (h : s.Inv) {e : Event α β} (hcalm : s.Calm e) (ht : s.step e = some t) : t.Inv := by
  cases e with
  | push b =>
    obtain rfl := Option.some.inj ht
    split_ifs with hlogs
    · exact h
    · refine ⟨h.opened, fun x hx => ?_, h.count, h.held, h.truthful⟩
      obtain hx | hx := List.mem_append.mp hx
      · exact h.nonempty x hx
      · obtain rfl := List.mem_singleton.mp hx
        exact hlogs
  | round o =>
    obtain ⟨-, ht⟩ := Option.ite_none_right_eq_some.mp ht
    have hwritten := h.writeGroup
    obtain ⟨torn, -, hfails⟩ | ⟨-, ⟨-, rfl⟩ | ⟨-, rfl⟩ | ⟨-, rfl⟩⟩ := round_cases ht
    · exact h.writeFails hfails
    · rw [roll]
      split_ifs with hok
      · exact hwritten.notify hwritten.opened.rollSegment o.sync_ok
      · exact hwritten.notify hwritten.opened o.sync_ok
    · exact hwritten.notify hwritten.opened o.sync_ok
    · exact hwritten
  | compactWal snapshotIndex torn => exact h.compactWal hcalm ht
  | shutdown sync_ok =>
    obtain ⟨-, ht⟩ := Option.ite_none_right_eq_some.mp ht
    obtain rfl := Option.some.inj ht
    split_ifs
    · exact h.notify h.opened sync_ok
    · exact ⟨h.opened, h.nonempty, h.count, h.held, h.truthful⟩

/-- A round with a sync that is due leaves nobody waiting. -/
lemma Inv.round_due (h : s.Inv) {o : Outcome} (hdue : o.time_due = true) (ht : s.round o = some t) :
    t.waiters ++ t.callbacks = [] := by
  obtain ⟨torn, -, hfails⟩ | ⟨-, ⟨-, rfl⟩ | ⟨-, rfl⟩ | ⟨hsync, rfl⟩⟩ := round_cases ht
  · obtain ⟨batch, -, hfails⟩ := Option.bind_eq_some_iff.mp hfails
    obtain ⟨log, -, hfails⟩ := Option.bind_eq_some_iff.mp hfails
    obtain ⟨-, hfails⟩ := Option.ite_none_right_eq_some.mp hfails
    obtain rfl := Option.some.inj hfails
    rfl
  · rfl
  · rfl
  · refine h.writeGroup.count ?_
    rw [should_sync, hdue] at hsync
    simpa using hsync

/-! ### Answered once, and truthfully -/

/-- In a run of calm steps every batch that the writer takes is answered once or still collected, the
answers are truthful, and with every round in which a sync is due all batches are answered. -/
theorem answered_once (h : s.Fresh) (hrun : Run step Calm s t) :
    t.accounted.Perm t.taken ∧ (∀ a ∈ t.answers, a.Truthful) ∧
      ∀ o u, o.time_due = true → t.Calm (.round o) → t.step (.round o) = some u →
        (u.answers.map (·.batch)).Perm u.taken := by
  have hkeep : ∀ (s : WalWriter α β) e t, s.Inv ∧ s.accounted.Perm s.taken → s.Calm e →
      s.step e = some t → t.Inv ∧ t.accounted.Perm t.taken := by
    rintro s e t ⟨hinv, hperm⟩ hcalm ht
    obtain ⟨group, kept, htakes, hkept⟩ := step_takes ht
    obtain rfl := hkept hcalm
    refine ⟨hinv.step hcalm ht, ?_⟩
    rw [htakes.taken]
    exact htakes.accounted.trans (hperm.append_right _)
  have hfresh : s.accounted.Perm s.taken := by
    rw [accounted, h.answers, h.waiters, h.callbacks, h.taken]
    exact .refl _
  have hend := hrun.invariant hkeep ⟨h.inv, hfresh⟩
  refine ⟨hend.2, hend.1.truthful, fun o u hdue hcalm hu => ?_⟩
  obtain ⟨-, hperm⟩ := hkeep t _ u hend hcalm hu
  obtain ⟨-, hround⟩ := Option.ite_none_right_eq_some.mp hu
  have hnone := hend.1.round_due hdue hround
  rw [accounted, hnone, List.append_nil] at hperm
  exact hperm

/-- A writer over an empty directory. -/
def initial : WalWriter ℕ ℕ where
  wal := Wal.create []
  offset := 0
  queue := []
  waiters := []
  callbacks := []
  pending_count := 0
  pending_bytes := 0
  running := true
  snapshot := 0
  taken := []
  answers := []

/-- The initial writer is fresh. -/
lemma fresh_initial : initial.Fresh where
  opened := ⟨(.inprogress 1, []), List.mem_cons_self, rfl⟩
  queue := rfl
  waiters := rfl
  callbacks := rfl
  pending_count := rfl
  taken := rfl
  answers := rfl

/-- A batch of a handler and one of `Start` are pushed. -/
def pushed : List (Event ℕ ℕ) :=
  [.push ⟨[⟨[1], 1, 1⟩], .waiter 0⟩, .push ⟨[⟨[2], 1, 2⟩], .callback 0⟩]

instance (s : WalWriter α β) (e : Event α β) : Decidable (s.Calm e) := by
  unfold Calm
  split <;> infer_instance

/-- Both are answered after a sync. -/
theorem answered_once_pushed :
    ∃ s : WalWriter ℕ ℕ, s.answers.map (·.ok) = [true, true] ∧ s.accounted.Perm s.taken ∧
      (∀ a ∈ s.answers, a.Truthful) ∧
      ∀ o u, o.time_due = true → s.Calm (.round o) → s.step (.round o) = some u →
        (u.answers.map (·.batch)).Perm u.taken := by
  have hruns : ∃ s ∈ runIf step Calm initial (pushed ++ [.round ⟨none, true, true⟩]),
      s.answers.map (·.ok) = [true, true] := by decide
  obtain ⟨s, hrun, hok⟩ := exists_run_of_runIf hruns
  exact ⟨s, hok, answered_once fresh_initial hrun⟩

/-- The write of the first one fails: nobody is told of the second one, whatever happens later. -/
theorem exists_never_answered :
    ∃ s : WalWriter ℕ ℕ, Run step (fun _ _ => True) initial s ∧ s.running = true ∧
      ∀ t, Run step (fun _ _ => True) s t → ¬ t.accounted.Perm t.taken := by
  have hruns : ∃ s ∈ runIf step (fun _ _ => True) initial
      (pushed ++ [.round ⟨some ⟨0, 0, 0⟩, true, true⟩]),
      s.running = true ∧ s.accounted.length < s.taken.length := by decide
  obtain ⟨s, hrun, hrunning, hlost⟩ := exists_run_of_runIf hruns
  refine ⟨s, hrun, hrunning, fun t ht hperm => ?_⟩
  have hlost' := ht.invariant (fun _ _ _ hs _ hstep => lost_of_step hstep hs) hlost
  exact Nat.ne_of_lt hlost' hperm.length_eq

end WalWriter

end KVCacheRaft
