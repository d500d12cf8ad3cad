import KVCacheRaft.Wal.Order

/-!
# Rolls that break the order

A follower that overwrites a suffix rolls a segment below its own first index. The next segment then
sorts in front of it, although its entries come later.
-/

namespace KVCacheRaft

namespace Wal

variable {w : Wal} {log : LogEntry}

/-- The writer with one entry that fills the segment. -/
lemma writeGroup_full (hfull : kMaxSegmentBytes ≤ w.segmentBytes + log.record.length) :
    w.writeGroup [log] =
      { w.writeLog log with raftLogsFileSize := w.raftLogsFileSize + log.record.length }.rollSegment := by
  have hneed : (w.writeLog log).full = true := by
    rw [full, Bool.or_eq_true]
    exact .inr (decide_eq_true hfull)
  unfold writeGroup writeLogs
  simp only [writeLogs, hneed, Bool.true_or, if_true, walRecords, List.flatMap_cons,
    List.flatMap_nil, List.append_nil]
  rfl

/-- A record that fills nothing is written without a roll. -/
lemma writeGroup_small (hcount : w.segmentEntryCount + 1 < kMaxSegmentNumEntries)
    (hbytes : w.segmentBytes + log.record.length < kMaxSegmentBytes) :
    (w.writeGroup [log]).files = (w.writeLog log).files := by
  have hneed : (w.writeLog log).full = false := by
    rw [full, Bool.or_eq_false_iff]
    exact ⟨decide_eq_false (Nat.not_le.mpr hcount), decide_eq_false (Nat.not_le.mpr hbytes)⟩
  unfold writeGroup writeLogs
  simp only [writeLogs, hneed, Bool.or_self, Bool.false_eq_true, if_false]

/-- Two entries in segments of their own, the first one again, and the second one again. -/
lemma files_of_rolls {a b c d : LogEntry} (ha : a.header.log_index = 1) (hb : b.header.log_index = 2)
    (hc : c.header.log_index = 1) (hafull : kMaxSegmentBytes ≤ a.record.length)
    (hbfull : kMaxSegmentBytes ≤ b.record.length) (hcfull : kMaxSegmentBytes ≤ c.record.length)
    (hdsmall : d.record.length < kMaxSegmentBytes) :
    (((((create []).writeGroup [a]).writeGroup [b]).writeGroup [c]).writeGroup [d]).files =
      [(.closed 1 1, a.record), (.closed 2 2, b.record), (.closed 3 1, c.record),
        (.inprogress 2, d.record)] := by
  have h₁ : (create []).writeGroup [a] =
      ⟨[(.closed 1 1, a.record), (.inprogress 2, [])], 2, 1, 0, 0, 0, a.record.length⟩ := by
    rw [writeGroup_full (by simpa using Nat.le_trans hafull (Nat.le_add_left _ _))]
    simp [rollSegment, openSegment, writeLog, create, reopenLatestSegment, listSegments, modify,
      openSegmentName, ha]
  have h₂ : ((create []).writeGroup [a]).writeGroup [b] =
      ⟨[(.closed 1 1, a.record), (.closed 2 2, b.record), (.inprogress 3, [])], 3, 2, 0, 0, 0,
        a.record.length + b.record.length⟩ := by
    rw [h₁, writeGroup_full (by simpa using hbfull)]
    simp [rollSegment, openSegment, writeLog, modify, openSegmentName, hb]
  have h₃ : (((create []).writeGroup [a]).writeGroup [b]).writeGroup [c] =
      ⟨[(.closed 1 1, a.record), (.closed 2 2, b.record), (.closed 3 1, c.record),
        (.inprogress 2, [])], 2, 1, 0, 0, 0,
        a.record.length + b.record.length + c.record.length⟩ := by
    rw [h₂, writeGroup_full (by simpa using hcfull)]
    simp [rollSegment, openSegment, writeLog, modify, openSegmentName, hc]
  rw [h₃, writeGroup_small (by show 0 + 1 < 1000; omega) (by simpa using hdsmall)]
  simp [writeLog, modify, openSegmentName]


/-- Four segments in the order of their names are replayed one over another. -/
lemma readPersistedLogs_of_rolls {a b c d : LogEntry} {w : Wal}
    (hfiles : w.files = [(.closed 1 1, a.record), (.closed 2 2, b.record), (.closed 3 1, c.record),
      (.inprogress 2, d.record)])
    (hadmitted : ∀ e ∈ [a, b, c, d], e.Admitted) (ha : a.logindex = 1) (hb : b.logindex = 2)
    (hc : c.logindex = 1) (hd : d.logindex = 2) : (w.readPersistedLogs 0).2 = [c] := by
  have hread : ∀ e ∈ [a, b, c, d], (readWalSegment 0 e.record).1 = [e] := by
    intro e he
    have h := hadmitted e he
    have hone : ∀ e' ∈ [e], e'.Admitted := fun e' he' => List.mem_singleton.mp he' ▸ h
    have hr := readWalSegment_append hone Holds.readWalRecord_nil 0
    have hrecord : walRecords [e] ++ [] = e.record := by
      show (e.record ++ []) ++ [] = e.record
      rw [List.append_nil, List.append_nil]
    have hfilter : [e].filter (·.logindex > ((0 : ℕ) : ℤ)) = [e] :=
      List.filter_eq_self.mpr fun e' he' => decide_eq_true (hone e' he').index_pos
    rw [hrecord, hfilter] at hr
    rw [hr]
  have hsorted : listSegments w.files = [(.closed 1 1, a.record), (.closed 2 2, b.record),
      (.inprogress 2, d.record), (.closed 3 1, c.record)] := by
    refine listSegments_of_perm (hfiles ▸ ?_) ?_
    · exact .cons _ (.cons _ (.swap _ _ _))
    · simp [SegmentName.rank, SegmentName.first, SegmentName.isInprogress]
  have hentries : (w.readWalSegments 0).2 = [a, b, d, c] := by
    show (listSegments w.files).flatMap _ = _
    rw [hsorted]
    simp [hread]
  show replayEntries 0 (w.readWalSegments 0).2 = [c]
  rw [hentries]
  simp [replayEntries, replayEntry, ha, hb, hc, hd]

/-- An entry that fills a segment. -/
def big (logterm : ℕ) (logindex : ℤ) : LogEntry where
  command := List.replicate kMaxSegmentBytes 0
  logterm := logterm
  logindex := logindex

/-- The command is as large as a segment. -/
lemma length_command_big (logterm : ℕ) (logindex : ℤ) :
    (big logterm logindex).command.length = kMaxSegmentBytes :=
  List.length_replicate

/-- Its record fills a segment. -/
lemma big_full (logterm : ℕ) (logindex : ℤ) :
    kMaxSegmentBytes ≤ (big logterm logindex).record.length := by
  have hcommand := (big logterm logindex).length_command_le
  rw [length_command_big] at hcommand
  rw [LogEntry.length_record]
  omega

/-- It is within the bound on an entry. -/
lemma big_size_le (logterm : ℕ) (logindex : ℤ) :
    (big logterm logindex).serialize.length ≤ maxLogSize := by
  have hlen := (big logterm logindex).length_serialize_le
  rw [length_command_big] at hlen
  exact Nat.le_trans hlen (by decide)

/-- The entry at index 2 of term 2 is read before the one at index 1 that was written first. -/
theorem exists_wrong_order :
    ∃ history w, Run (fun _ logs => ∀ e ∈ logs, e.serialize.length ≤ maxLogSize) history w ∧
      History 0 [] history ∧ Ints history ∧
      (w.readPersistedLogs 0).2 ≠ history.foldl overwrite [] := by
  have hsmall : (⟨[5], 2, 2⟩ : LogEntry).record.length < kMaxSegmentBytes := by decide
  have hadmitted : ∀ e ∈ [big 1 1, big 1 2, big 2 1, ⟨[5], 2, 2⟩], e.Admitted := by
    simp only [List.forall_mem_cons, List.not_mem_nil, false_imp_iff, implies_true, and_true]
    refine ⟨⟨?_, ?_, ?_, big_size_le 1 1⟩, ⟨?_, ?_, ?_, big_size_le 1 2⟩,
      ⟨?_, ?_, ?_, big_size_le 2 1⟩, ⟨?_, ?_, ?_, ?_⟩⟩
    all_goals decide
  have hone : ∀ {e}, e ∈ [big 1 1, big 1 2, big 2 1, ⟨[5], 2, 2⟩] → ∀ e' ∈ [e],
      e'.serialize.length ≤ maxLogSize := fun he e' he' =>
    List.mem_singleton.mp he' ▸ (hadmitted _ he).size_le
  have hfiles := files_of_rolls (a := big 1 1) (b := big 1 2) (c := big 2 1) (d := ⟨[5], 2, 2⟩)
    rfl rfl rfl (big_full 1 1) (big_full 1 2) (big_full 2 1) hsmall
  have hread := readPersistedLogs_of_rolls hfiles hadmitted rfl rfl rfl rfl
  have hrun := (((Run.create (P := fun _ logs => ∀ e ∈ logs, e.serialize.length ≤ maxLogSize)).step
    (hone (by simp)) (.write [big 1 1])).step (hone (by simp)) (.write [big 1 2])).step
      (hone (by simp)) (.write [big 2 1]) |>.step (hone (by simp)) (.write [⟨[5], 2, 2⟩])
  refine ⟨_, _, hrun, ?_, ?_, ?_⟩
  · show History 0 [] [big 1 1, big 1 2, big 2 1, ⟨[5], 2, 2⟩]
    simp [History, Adjoins, overwrite, big]
  · intro e he
    have := hadmitted e he
    exact ⟨this.index_pos, this.index_lt, this.term_lt⟩
  · rw [hread]
    intro heq
    have := congrArg List.length heq
    simp [overwrite, big] at this

end Wal

end KVCacheRaft
