import KVCacheRaft.Wal.Record

/-!
# Torn tails

`ReadWalSegment` with its counters and with what it does to the file: the file is cut behind the last
record that it can read. Reading once more finds the same records and cuts nothing, whatever the file
holds, and of a file that the writer has left in the middle of a record no whole record is lost.
-/

namespace KVCacheRaft

/-- What `ReadWalSegment` gives back. -/
structure SegmentRead where
  logs : List LogEntry := []
  validOffset : ℕ := 0
  validBytes : ℕ := 0
deriving DecidableEq

/-- The loop of `ReadWalSegment` from `validOffset` on, with `input` behind it. -/
def SegmentRead.loop (snapshotIndex : ℕ) : ℕ → Bytes → SegmentRead → SegmentRead
  | 0, _, read => read
  | fuel + 1, input, read =>
    match readWalRecord input with
    | none => read
    | some (header, entry) =>
      let entrySize := headerSize + header.log_size
      SegmentRead.loop snapshotIndex fuel (input.drop entrySize)
        { logs := if header.log_index > snapshotIndex then read.logs ++ [entry] else read.logs
          validOffset := read.validOffset + entrySize
          validBytes := read.validBytes + entrySize }

/-- `ReadWalSegment`, and what `ftruncate` leaves of the file. -/
def readSegment (snapshotIndex : ℕ) (content : Bytes) : SegmentRead × Bytes :=
  let read := SegmentRead.loop snapshotIndex (content.length + 1) content {}
  (read, content.take read.validOffset)

/-- The bytes of some records. -/
def recordBytes (records : List (WalEntryHeader × LogEntry)) : ℕ :=
  (records.map (headerSize + ·.1.log_size)).sum

variable {snapshotIndex : ℕ} {content : Bytes} {header : WalEntryHeader} {entry : LogEntry}

/-- The loop adds what is in its records. -/
lemma SegmentRead.loop_eq (fuel : ℕ) (input : Bytes) (read : SegmentRead) :
    SegmentRead.loop snapshotIndex fuel input read =
      { logs := read.logs ++ ((readWalRecords fuel input).filter
          (·.1.log_index > snapshotIndex)).map (·.2)
        validOffset := read.validOffset + recordBytes (readWalRecords fuel input)
        validBytes := read.validBytes + recordBytes (readWalRecords fuel input) } := by
  induction fuel generalizing input read with
  | zero => simp [loop, readWalRecords, recordBytes]
  | succ fuel ih =>
    rw [loop, readWalRecords]
    cases hread : readWalRecord input with
    | none => simp [recordBytes]
    | some r =>
      obtain ⟨header, entry⟩ := r
      simp only [ih, recordBytes, List.map_cons, List.sum_cons, Nat.add_assoc]
      split_ifs with hsnap
      · rw [List.filter_cons, if_pos (by simpa using hsnap), List.map_cons, List.append_assoc,
          List.singleton_append]
      · rw [List.filter_cons, if_neg (by simpa using hsnap)]

/-- Reading a segment gives its entries and how far they reach. -/
lemma readSegment_eq (snapshotIndex : ℕ) (content : Bytes) :
    readSegment snapshotIndex content =
      ({ logs := (readWalSegment snapshotIndex content).1
         validOffset := (readWalSegment snapshotIndex content).2
         validBytes := (readWalSegment snapshotIndex content).2 },
        content.take (readWalSegment snapshotIndex content).2) := by
  rw [readSegment]
  simp only [SegmentRead.loop_eq, List.nil_append, Nat.zero_add]
  rfl

/-! ### Reading again -/

/-- A record ends within the input. -/
lemma length_of_readWalRecord (h : readWalRecord content = some (header, entry)) :
    headerSize + header.log_size ≤ content.length := by
  unfold readWalRecord at h
  simp only at h
  split_ifs at h with hheader hsize hbody
  split at h
  · cases h
  · split_ifs at h
    obtain ⟨rfl, -⟩ := Prod.mk.inj (Option.some.inj h)
    exact Nat.not_lt.mp hbody

/-- A record is read from any part of the input that has all of it. -/
lemma readWalRecord_take (h : readWalRecord content = some (header, entry)) (k : ℕ) :
    readWalRecord (content.take (headerSize + header.log_size + k)) = some (header, entry) := by
  have hlen := length_of_readWalRecord h
  obtain ⟨n, hn⟩ : ∃ n, n = headerSize + header.log_size + k := ⟨_, rfl⟩
  have hheaderSize : headerSize = 24 := rfl
  have hdecode : WalEntryHeader.decode (content.take n) = WalEntryHeader.decode content := by
    unfold WalEntryHeader.decode
    simp only [List.drop_take, List.take_take]
    rw [Nat.min_eq_left (by omega), Nat.min_eq_left (by omega), Nat.min_eq_left (by omega),
      Nat.min_eq_left (by omega)]
  have hheader : WalEntryHeader.decode content = header := by
    unfold readWalRecord at h
    simp only at h
    split_ifs at h
    split at h
    · cases h
    · split_ifs at h
      exact (Prod.mk.inj (Option.some.inj h)).1
  have hbody : ((content.take n).drop headerSize).take header.log_size =
      (content.drop headerSize).take header.log_size := by
    rw [List.drop_take, List.take_take, Nat.min_eq_left (by omega)]
  rw [← hn]
  unfold readWalRecord at h ⊢
  simp only [hheader, hdecode, hbody, List.length_take] at h ⊢
  rw [if_neg (by omega)] at h
  rw [if_neg (by omega)]
  split_ifs at h with hsize hshort
  rw [if_neg hsize, if_neg (by omega)]
  exact h

/-- The records of the part that is kept. -/
lemma readWalRecords_cut {fuel fuel' : ℕ} (hfuel : content.length < fuel)
    (hfuel' : recordBytes (readWalRecords fuel content) < fuel') :
    readWalRecords fuel' (content.take (recordBytes (readWalRecords fuel content))) =
      readWalRecords fuel content := by
  induction fuel generalizing content fuel' with
  | zero => cases hfuel
  | succ fuel ih =>
    cases fuel' with
    | zero => cases hfuel'
    | succ fuel' =>
      cases hread : readWalRecord content with
      | none =>
        have hrecords : readWalRecords (fuel + 1) content = [] := by rw [readWalRecords, hread]
        rw [hrecords]
        rfl
      | some r =>
        obtain ⟨header, entry⟩ := r
        obtain ⟨rest, hrest⟩ : ∃ rest, rest =
            readWalRecords fuel (content.drop (headerSize + header.log_size)) := ⟨_, rfl⟩
        have hrecords : readWalRecords (fuel + 1) content = (header, entry) :: rest := by
          rw [readWalRecords, hread, hrest]
        have hbytes : recordBytes ((header, entry) :: rest) =
            headerSize + header.log_size + recordBytes rest := rfl
        have hlen := length_of_readWalRecord hread
        have hheaderSize : headerSize = 24 := rfl
        rw [hrecords, hbytes] at hfuel' ⊢
        have hagain := @ih (content.drop (headerSize + header.log_size)) fuel'
          (by rw [List.length_drop]; omega) (by rw [← hrest]; omega)
        rw [← hrest] at hagain
        rw [readWalRecords, readWalRecord_take hread]
        simp only
        rw [List.drop_take, Nat.add_sub_cancel_left, hagain]

/-- The records are no longer than the file. -/
lemma recordBytes_le {fuel : ℕ} : recordBytes (readWalRecords fuel content) ≤ content.length := by
  induction fuel generalizing content with
  | zero => exact Nat.zero_le _
  | succ fuel ih =>
    rw [readWalRecords]
    cases hread : readWalRecord content with
    | none => exact Nat.zero_le _
    | some r =>
      have hlen := length_of_readWalRecord hread
      have hrest := @ih (content.drop (headerSize + r.1.log_size))
      rw [List.length_drop] at hrest
      simp only [recordBytes, List.map_cons, List.sum_cons] at hrest ⊢
      omega

/-- Whatever a file holds, reading it again has the same result and cuts nothing. -/
theorem readSegment_again (snapshotIndex : ℕ) (content : Bytes) :
    readSegment snapshotIndex (readSegment snapshotIndex content).2 =
      readSegment snapshotIndex content := by
  obtain ⟨n, hn⟩ : ∃ n, n = recordBytes (readWalRecords (content.length + 1) content) := ⟨_, rfl⟩
  have hle : n ≤ content.length := hn ▸ recordBytes_le
  have hlen : (content.take n).length = n := List.length_take_of_le hle
  have hagain : readWalRecords (n + 1) (content.take n) =
      readWalRecords (content.length + 1) content := by
    rw [hn]
    exact readWalRecords_cut (Nat.lt_succ_self _) (Nat.lt_succ_self _)
  have hsegment : readWalSegment snapshotIndex (content.take n) =
      readWalSegment snapshotIndex content := by
    unfold readWalSegment
    rw [hlen, hagain]
  have hbytes : (readWalSegment snapshotIndex content).2 = n := hn.symm
  rw [readSegment_eq snapshotIndex content, hbytes, readSegment_eq, hsegment, hbytes,
    List.take_take, Nat.min_self]

/-! ### A record that is cut off -/

/-- Of whole records and a part of one more, the whole records are kept: the entries above the
snapshot come back in their order, offset and size are the bytes of the records, and the file is cut
there, once and for all. -/
theorem readSegment_torn {entries : List LogEntry} (h : ∀ e ∈ entries, e.Admitted)
    (hentry : entry.Admitted) {torn : Bytes} (htorn : torn <+: entry.record)
    (hne : torn ≠ entry.record) (snapshotIndex : ℕ) :
    readSegment snapshotIndex (walRecords entries ++ torn) =
      ({ logs := entries.filter (·.logindex > (snapshotIndex : ℤ))
         validOffset := (walRecords entries).length
         validBytes := (walRecords entries).length }, walRecords entries) ∧
    readSegment snapshotIndex (walRecords entries) =
      readSegment snapshotIndex (walRecords entries ++ torn) := by
  have hread := readWalSegment_append h (hentry.read_torn htorn hne) snapshotIndex
  have hsegment := readSegment_eq snapshotIndex (walRecords entries ++ torn)
  rw [hread, List.take_left] at hsegment
  refine ⟨hsegment, ?_⟩
  have hagain := readSegment_again snapshotIndex (walRecords entries ++ torn)
  rw [hsegment] at hagain
  exact hagain.trans hsegment.symm

/-- Two records, of which the first is below the snapshot, and all but one byte of a third. -/
theorem readSegment_torn_third :
    let entries : List LogEntry := [⟨[1], 1, 1⟩, ⟨[2], 1, 2⟩]
    let torn := (⟨[3], 1, 3⟩ : LogEntry).record.take 30
    readSegment 1 (walRecords entries ++ torn) =
      ({ logs := [⟨[2], 1, 2⟩], validOffset := 62, validBytes := 62 }, walRecords entries) ∧
    readSegment 1 (walRecords entries) = readSegment 1 (walRecords entries ++ torn) := by
  have hadmitted : ∀ e ∈ [(⟨[1], 1, 1⟩ : LogEntry), ⟨[2], 1, 2⟩, ⟨[3], 1, 3⟩], e.Admitted := by
    intro e he
    simp only [List.mem_cons, List.not_mem_nil, or_false] at he
    obtain rfl | rfl | rfl := he
    · exact ⟨by decide, by decide, by decide, by decide⟩
    · exact ⟨by decide, by decide, by decide, by decide⟩
    · exact ⟨by decide, by decide, by decide, by decide⟩
  have hentries : ∀ e ∈ [(⟨[1], 1, 1⟩ : LogEntry), ⟨[2], 1, 2⟩], e.Admitted := fun e he =>
    hadmitted e (List.mem_append_left [_] he)
  exact readSegment_torn hentries (hadmitted _ (by simp)) (List.take_prefix _ _) (by decide) 1

end KVCacheRaft
