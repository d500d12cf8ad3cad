import KVCacheRaft.Wal.Order
import KVCacheRaft.Wal.Writer

/-!
# Replay behind a snapshot

`ReadWalSegment` drops the records up to the snapshot index before the replay sees them. A record up to
the index that overwrites the log takes all entries behind it away; without it they stay, until a
record right behind the snapshot index comes.
-/

namespace KVCacheRaft

namespace Wal

variable {snapshotIndex : ℕ} {logs kept history : List LogEntry} {e : LogEntry}

/-- The entries behind the snapshot index. -/
def above (snapshotIndex : ℕ) (logs : List LogEntry) : List LogEntry :=
  logs.filter (·.logindex > (snapshotIndex : ℤ))

/-- What is kept is the log behind the snapshot index, or the log ends before it and something is kept
that it no longer has. -/
def Behind (snapshotIndex : ℕ) (logs kept : List LogEntry) : Prop :=
  kept = above snapshotIndex logs ∨
    kept ≠ [] ∧ ∀ e ∈ logs, e.logindex ≤ snapshotIndex

/-- Nothing is above the snapshot exactly if every index is at or below it. -/
lemma above_eq_nil : above snapshotIndex logs = [] ↔ ∀ e ∈ logs, e.logindex ≤ snapshotIndex := by
  rw [above, List.filter_eq_nil_iff]
  refine forall₂_congr fun e _ => ?_
  rw [decide_eq_true_iff, not_lt]

/-- What is above the snapshot has an index above it. -/
lemma mem_above : e ∈ above snapshotIndex logs ↔ e ∈ logs ∧ (snapshotIndex : ℤ) < e.logindex := by
  rw [above, List.mem_filter, decide_eq_true_iff]

/-- Filtering takes the parts of a list one by one. -/
lemma above_append (snapshotIndex : ℕ) (logs logs' : List LogEntry) :
    above snapshotIndex (logs ++ logs') = above snapshotIndex logs ++ above snapshotIndex logs' :=
  List.filter_append ..

/-- Behind an entry that is written nothing is left. -/
lemma overwrite_le (logs : List LogEntry) (e : LogEntry) :
    ∀ x ∈ overwrite logs e, x.logindex ≤ e.logindex := by
  intro x hx
  obtain hx | hx := List.mem_append.mp hx
  · exact Int.le_of_lt (of_decide_eq_true (List.mem_filter.mp hx).2)
  · obtain rfl := List.mem_singleton.mp hx
    exact Int.le_refl _

/-- Filtering and overwriting above the snapshot commute. -/
lemma above_overwrite (he : (snapshotIndex : ℤ) < e.logindex) :
    above snapshotIndex (overwrite logs e) = overwrite (above snapshotIndex logs) e := by
  have hlast : [e].filter (·.logindex > (snapshotIndex : ℤ)) = [e] :=
    List.filter_eq_self.mpr fun x hx => by
      obtain rfl := List.mem_singleton.mp hx
      exact decide_eq_true he
  rw [above, overwrite, List.filter_append, hlast, overwrite, above, List.filter_filter,
    List.filter_filter]
  refine congrArg (· ++ [e]) (List.filter_congr fun x _ => ?_)
  exact Bool.and_comm _ _

/-- Behind the snapshot index is what is left of a log that starts at the first index. -/
lemma length_above (h : Aligned 0 logs) (snapshotIndex : ℕ) :
    (above snapshotIndex logs).length = logs.length - snapshotIndex := by
  have hdrop : above snapshotIndex logs = logs.drop snapshotIndex := by
    have hsplit := List.take_append_drop snapshotIndex logs
    have htake : above snapshotIndex (logs.take snapshotIndex) = [] := by
      refine above_eq_nil.mpr fun x hx => ?_
      obtain ⟨k, hk⟩ := List.getElem?_of_mem hx
      have hxk := h.take snapshotIndex k x hk
      have hlt := (List.getElem?_eq_some_iff.mp hk).1
      rw [List.length_take] at hlt
      omega
    have hrest : above snapshotIndex (logs.drop snapshotIndex) = logs.drop snapshotIndex := by
      refine List.filter_eq_self.mpr fun x hx => decide_eq_true ?_
      obtain ⟨k, hk⟩ := List.getElem?_of_mem hx
      have hxk := h.drop snapshotIndex k x hk
      show (snapshotIndex : ℤ) < x.logindex
      omega
    rw [above] at htake hrest ⊢
    rw [← hsplit, List.filter_append, htake, hrest, List.nil_append, hsplit]
  rw [hdrop, List.length_drop]

/-- One record more. -/
lemma Behind.step (h : Behind snapshotIndex logs kept) (hlogs : Aligned 0 logs)
    (hkept : Aligned snapshotIndex kept) (he : Adjoins 0 logs e) :
    Behind snapshotIndex (overwrite logs e) (replayEntry snapshotIndex kept e) := by
  obtain ⟨hpos, hle⟩ := he
  obtain hbelow | habove := le_or_gt e.logindex (snapshotIndex : ℤ)
  · -- the replay does not see it
    have hend : ∀ x ∈ overwrite logs e, x.logindex ≤ (snapshotIndex : ℤ) := fun x hx =>
      Int.le_trans (overwrite_le logs e x hx) hbelow
    rw [replayEntry, if_pos hbelow]
    cases kept with
    | nil => exact .inl (above_eq_nil.mpr hend).symm
    | cons x kept => exact .inr ⟨List.cons_ne_nil _ _, hend⟩
  · left
    rw [above_overwrite habove]
    obtain rfl | ⟨-, hend⟩ := h
    · have hlength := length_above hlogs snapshotIndex
      exact replayEntry_eq_overwrite hkept ⟨habove, by omega⟩
    · -- it is the one right behind the snapshot index, and cuts what was kept
      have hnone := above_eq_nil.mpr hend
      have hlength := length_above hlogs snapshotIndex
      rw [hnone, List.length_nil] at hlength
      have hfirst : e.logindex = snapshotIndex + 1 := by omega
      rw [replayEntry_adjoins hkept ⟨habove, by omega⟩, hnone, hfirst]
      have hplace : (((snapshotIndex : ℤ) + 1 - snapshotIndex - 1)).toNat = 0 := by omega
      rw [hplace]
      rfl

/-- Replay with the filter stays behind replay without it. -/
lemma Behind.foldl (h : Behind snapshotIndex logs kept) (hlogs : Aligned 0 logs)
    (hkept : Aligned snapshotIndex kept) (hhistory : History 0 logs history) :
    Behind snapshotIndex (history.foldl overwrite logs)
      (history.foldl (replayEntry snapshotIndex) kept) := by
  induction history generalizing logs kept with
  | nil => exact h
  | cons e history ih =>
    obtain ⟨he, hrest⟩ := hhistory
    have hnext : Aligned ((0 : ℕ) : ℤ) (overwrite logs e) := by
      have hlogs' : Aligned ((0 : ℕ) : ℤ) logs := hlogs
      rw [← replayEntry_eq_overwrite hlogs' he]
      exact hlogs'.replayEntry
    exact ih (h.step hlogs hkept he) hnext hkept.replayEntry hrest

/-- Replay with the filter is behind replay without it. -/
lemma Behind.replayEntries (hhistory : History 0 [] history) (snapshotIndex : ℕ) :
    Behind snapshotIndex (history.foldl overwrite []) (replayEntries snapshotIndex history) :=
  Behind.foldl (.inl rfl) .nil .nil hhistory

/-- Nothing is kept only of a history with nothing behind the snapshot index. -/
lemma replayEntries_ne_nil (hhistory : History 0 logs history) (hlogs : Aligned 0 logs)
    (hkept : Aligned snapshotIndex kept) (hbehind : Behind snapshotIndex logs kept)
    (habove : kept ≠ [] ∨ ∃ e ∈ history, (snapshotIndex : ℤ) < e.logindex) :
    history.foldl (replayEntry snapshotIndex) kept ≠ [] := by
  induction history generalizing logs kept with
  | nil =>
    refine habove.resolve_right ?_
    rintro ⟨_, he, -⟩
    cases he
  | cons e history ih =>
    obtain ⟨he, hrest⟩ := hhistory
    have hnext : Aligned ((0 : ℕ) : ℤ) (overwrite logs e) := by
      have hlogs' : Aligned ((0 : ℕ) : ℤ) logs := hlogs
      rw [← replayEntry_eq_overwrite hlogs' he]
      exact hlogs'.replayEntry
    refine ih hrest hnext hkept.replayEntry (hbehind.step hlogs hkept he) ?_
    obtain hbelow | hlt := le_or_gt e.logindex (snapshotIndex : ℤ)
    · rw [replayEntry, if_pos hbelow]
      refine habove.imp_right ?_
      rintro ⟨x, hx, hlt⟩
      obtain rfl | hx := List.mem_cons.mp hx
      · exact absurd hlt (Int.not_lt.mpr hbelow)
      · exact ⟨x, hx, hlt⟩
    · left
      have hnew := hbehind.step hlogs hkept he
      intro hnil
      rw [hnil] at hnew
      obtain hnew | ⟨hne, -⟩ := hnew
      · have hmem : e ∈ above snapshotIndex (overwrite logs e) :=
          mem_above.mpr ⟨List.mem_append_right _ List.mem_cons_self, hlt⟩
        rw [← hnew] at hmem
        cases hmem
      · exact hne rfl

/-- A number is not below the `int` made of it. -/
lemma toInt32_le (n : ℕ) : toInt32 n ≤ n := by
  obtain hlt | hge := Nat.lt_or_ge n (2 ^ 31)
  · exact Int.le_of_eq (toInt32_eq hlt)
  · have hbound : toInt32 n < ((2 ^ 32 : ℕ) + 1) / 2 := Int.bmod_lt (Nat.two_pow_pos 32)
    have hhalf : (((2 ^ 32 : ℕ) : ℤ) + 1) / 2 = ((2 ^ 31 : ℕ) : ℤ) := by decide
    rw [hhalf] at hbound
    exact Int.le_of_lt (Int.lt_of_lt_of_le hbound (Int.ofNat_le.mpr hge))

/-- A record that is read has the index of its header, as an `int32_t`. -/
lemma logindex_le_of_read {input : Bytes} {r : WalEntryHeader × LogEntry}
    (h : readWalRecord input = some r) : r.2.logindex ≤ r.1.log_index := by
  unfold readWalRecord at h
  simp only at h
  split_ifs at h
  split at h
  · cases h
  · rw [Option.ite_none_left_eq_some] at h
    obtain ⟨hne, h⟩ := h
    rw [← Option.some.inj h]
    rw [not_or, not_not] at hne
    exact Int.le_trans (Int.le_of_eq hne.1) (toInt32_le _)

/-- The index of a body that is read is not above that of its header. -/
lemma logindex_le_of_mem {fuel : ℕ} {input : Bytes} {r : WalEntryHeader × LogEntry}
    (h : r ∈ readWalRecords fuel input) : r.2.logindex ≤ r.1.log_index := by
  induction fuel generalizing input with
  | zero => cases h
  | succ fuel ih =>
    rw [readWalRecords] at h
    split at h
    · cases h
    · rename_i hread
      obtain rfl | h := List.mem_cons.mp h
      · exact logindex_le_of_read hread
      · exact ih h

/-- Segments that agree above the snapshot index. -/
lemma above_flatMap {f g : SegmentFile → List LogEntry}
    (h : ∀ file, above snapshotIndex (f file) = above snapshotIndex (g file))
    (files : List SegmentFile) :
    above snapshotIndex (files.flatMap f) = above snapshotIndex (files.flatMap g) := by
  induction files with
  | nil => rfl
  | cons file files ih => rw [List.flatMap_cons, List.flatMap_cons, above_append, above_append, h, ih]

/-- `ReadWalSegment` leaves out nothing above its snapshot index. -/
lemma above_readWalSegment {k : ℕ} (hk : k ≤ snapshotIndex) (content : Bytes) :
    above snapshotIndex (readWalSegment k content).1 =
      above snapshotIndex ((readWalRecords (content.length + 1) content).map (·.2)) := by
  unfold readWalSegment above
  simp only [List.filter_map, List.filter_filter]
  refine congrArg (List.map _) (List.filter_congr fun r hr => ?_)
  have hle := logindex_le_of_mem hr
  rw [Bool.eq_iff_iff]
  simp only [Bool.and_eq_true, Function.comp, decide_eq_true_iff]
  omega

/-- The replay behind a snapshot index of all records. -/
lemma replayEntries_readWalSegments (w : Wal) (snapshotIndex : ℕ) :
    replayEntries snapshotIndex (w.readWalSegments snapshotIndex).2 =
      replayEntries snapshotIndex (w.readWalSegments 0).2 := by
  have hflat := above_flatMap (fun file : SegmentFile =>
    (above_readWalSegment (Nat.le_refl snapshotIndex) file.2).trans
      (above_readWalSegment (Nat.zero_le _) file.2).symm) (listSegments w.files)
  rw [← replayEntries_filter, ← replayEntries_filter (w.readWalSegments 0).2]
  exact congrArg (replayEntries snapshotIndex) hflat

/-- The replay of the records behind the snapshot index is what the whole replay has behind it just
when that has something there, or never had. -/
theorem readPersistedLogs_above_iff (w : Wal) (hhistory : History 0 [] (w.readWalSegments 0).2)
    (snapshotIndex : ℕ) :
    ((w.readPersistedLogs snapshotIndex).2 = above snapshotIndex (w.readPersistedLogs 0).2 ∧
        w.compacted snapshotIndex = above snapshotIndex (w.readPersistedLogs 0).2) ↔
      (∃ e ∈ (w.readWalSegments 0).2.foldl overwrite [], (snapshotIndex : ℤ) < e.logindex) ∨
        ∀ e ∈ (w.readWalSegments 0).2, e.logindex ≤ snapshotIndex := by
  have hcompacted : w.compacted snapshotIndex = (w.readPersistedLogs snapshotIndex).2 := rfl
  have hread : (w.readPersistedLogs snapshotIndex).2 =
      replayEntries snapshotIndex (w.readWalSegments 0).2 := replayEntries_readWalSegments w _
  have hall : (w.readPersistedLogs 0).2 = (w.readWalSegments 0).2.foldl overwrite [] :=
    hhistory.foldl_replayEntry .nil
  rw [hcompacted, and_self, hread, hall]
  generalize (w.readWalSegments 0).2 = history at hhistory
  have hbehind := Behind.replayEntries hhistory snapshotIndex
  constructor
  · intro heq
    by_cases hnone : ∀ e ∈ history, e.logindex ≤ snapshotIndex
    · exact .inr hnone
    · left
      push Not at hnone
      have hne := replayEntries_ne_nil hhistory .nil .nil (.inl rfl) (.inr hnone)
      rw [replayEntries] at heq
      rw [heq] at hne
      obtain ⟨e, he⟩ := List.exists_mem_of_ne_nil _ hne
      exact ⟨e, mem_above.mp he⟩
  · rintro (⟨e, he, hlt⟩ | hnone)
    · refine hbehind.resolve_right fun ⟨_, hend⟩ => ?_
      exact absurd hlt (Int.not_lt.mpr (hend e he))
    · refine hbehind.resolve_right fun ⟨hne, _⟩ => ?_
      obtain ⟨e, he⟩ := List.exists_mem_of_ne_nil _ hne
      have hmem : e ∈ history := (mem_foldl_replayEntry he).resolve_left fun hnil => by cases hnil
      have hlt : (snapshotIndex : ℤ) < e.logindex := by
        obtain ⟨k, hk⟩ := List.getElem?_of_mem he
        have := aligned_replayEntries snapshotIndex history k e hk
        omega
      exact absurd hlt (Int.not_lt.mpr (hnone e hmem))

/-- Two entries, and the first one overwritten. -/
def overwritten : Wal :=
  create (segmentFiles [] 1 [⟨[1], 1, 1⟩, ⟨[2], 1, 2⟩, ⟨[3], 2, 1⟩])

/-- The records that overwrite are in the WAL. -/
lemma overwritten_holds :
    overwritten.Holds [] [⟨[1], 1, 1⟩, ⟨[2], 1, 2⟩, ⟨[3], 2, 1⟩] := by
  refine Holds.create (List.Perm.refl _) ⟨List.Pairwise.nil, fun _ hs => by cases hs⟩ ?_
  simp only [written, List.flatMap_nil, List.nil_append, List.forall_mem_cons, List.not_mem_nil,
    false_imp_iff, implies_true, and_true]
  refine ⟨⟨?_, ?_, ?_, ?_⟩, ⟨?_, ?_, ?_, ?_⟩, ⟨?_, ?_, ?_, ?_⟩⟩
  all_goals decide

/-- They are read in the order in which they were written. -/
lemma overwritten_records :
    (overwritten.readWalSegments 0).2 = [⟨[1], 1, 1⟩, ⟨[2], 1, 2⟩, ⟨[3], 2, 1⟩] := by
  rw [overwritten_holds.readWalSegments]
  rfl

/-- Two entries, and the second one overwritten. -/
def rewritten : Wal :=
  create (segmentFiles [] 1 [⟨[1], 1, 1⟩, ⟨[2], 1, 2⟩, ⟨[3], 2, 2⟩])

/-- The records that are written again are in the WAL. -/
lemma rewritten_holds :
    rewritten.Holds [] [⟨[1], 1, 1⟩, ⟨[2], 1, 2⟩, ⟨[3], 2, 2⟩] := by
  refine Holds.create (List.Perm.refl _) ⟨List.Pairwise.nil, fun _ hs => by cases hs⟩ ?_
  simp only [written, List.flatMap_nil, List.nil_append, List.forall_mem_cons, List.not_mem_nil,
    false_imp_iff, implies_true, and_true]
  refine ⟨⟨?_, ?_, ?_, ?_⟩, ⟨?_, ?_, ?_, ?_⟩, ⟨?_, ?_, ?_, ?_⟩⟩
  all_goals decide

/-- A snapshot of the first entry leaves the new second one. -/
theorem overwritten_above_iff :
    History 0 [] (rewritten.readWalSegments 0).2 ∧
      (rewritten.readPersistedLogs 1).2 = above 1 (rewritten.readPersistedLogs 0).2 ∧
        rewritten.compacted 1 = above 1 (rewritten.readPersistedLogs 0).2 := by
  have hrecords : (rewritten.readWalSegments 0).2 = [⟨[1], 1, 1⟩, ⟨[2], 1, 2⟩, ⟨[3], 2, 2⟩] := by
    rw [rewritten_holds.readWalSegments]
    rfl
  have hhistory : History 0 [] (rewritten.readWalSegments 0).2 := by
    rw [hrecords]
    decide
  refine ⟨hhistory, (readPersistedLogs_above_iff rewritten hhistory 1).mpr (.inl ?_)⟩
  rw [hrecords]
  decide

/-- The first two entries make a prefix of the history whose log ends behind the snapshot; the second
one is gone when the first is overwritten, and comes back. -/
theorem exists_not_above :
    ∃ (w : Wal) (before after : List LogEntry) (snapshotIndex : ℕ),
      (w.readWalSegments 0).2 = before ++ after ∧ History 0 [] (before ++ after) ∧
        (∃ e ∈ before.foldl overwrite [], (snapshotIndex : ℤ) ≤ e.logindex) ∧
        (w.readPersistedLogs snapshotIndex).2 ≠ above snapshotIndex (w.readPersistedLogs 0).2 := by
  refine ⟨overwritten, [⟨[1], 1, 1⟩, ⟨[2], 1, 2⟩], [⟨[3], 2, 1⟩], 1, overwritten_records, by decide,
    by decide, ?_⟩
  have hread : ∀ s : ℕ, (overwritten.readPersistedLogs s).2 =
      replayEntries s [⟨[1], 1, 1⟩, ⟨[2], 1, 2⟩, ⟨[3], 2, 1⟩] := fun s =>
    overwritten_holds.readPersistedLogs s
  rw [hread, hread]
  decide

end Wal

end KVCacheRaft
