import KVCacheRaft.Rpc.Requests
import KVCacheRaft.Wal.Beginnings

/-!
# The sizes of entries that are read

`ReadWalSegment` bounds the size of a record, and no encoding of an entry is smaller than the one that
is written. So an entry that was read from any file at all can be written again.
-/

namespace KVCacheRaft

open Codecs

/-- An entry whose record is within the bound of `ReadWalSegment` on `log_size`. -/
def LogEntry.Recordable (e : LogEntry) : Prop :=
  e.header.log_size ≠ 0 ∧ e.header.log_size ≤ maxLogSize

/-- The size of a field with a number, unless it is the default. -/
def varintFieldSize (number n : ℕ) : ℕ := if n = 0 then 0 else Field.size ⟨number, .varint n⟩

/-- A smaller number takes no more bytes. -/
lemma varintFieldSize_le {m n : ℕ} (h : m ≤ n) (number : ℕ) :
    varintFieldSize number m ≤ Field.size ⟨number, .varint n⟩ := by
  rw [varintFieldSize]
  split_ifs
  · exact Nat.zero_le _
  · exact Nat.add_le_add_left (varintSize_mono h 10) _

/-- A field of bytes takes no more than it does on the wire. -/
lemma bytesSize_le (number : ℕ) (bs : Bytes) :
    bytesSize number bs.length ≤ Field.size ⟨number, .bytes bs⟩ := by
  rw [bytesSize]
  split_ifs
  · exact Nat.zero_le _
  · exact Nat.le_refl _

/-- The size of an entry, field by field. -/
lemma LogEntry.byteSizeLong_eq (e : LogEntry) :
    e.byteSizeLong = bytesSize 1 e.command.length + varintFieldSize 2 e.logterm +
      messageSize (if e.logindex = 0 then [] else [⟨3, .varint (toUInt64 e.logindex)⟩]) := by
  have hfields : e.fields = bytesField 1 e.command ++
      (if e.logterm = 0 then [] else [⟨2, .varint e.logterm⟩]) ++
      (if e.logindex = 0 then [] else [⟨3, .varint (toUInt64 e.logindex)⟩]) := rfl
  have hterm : messageSize (if e.logterm = 0 then [] else [⟨2, .varint e.logterm⟩]) =
      varintFieldSize 2 e.logterm := by
    rw [varintFieldSize]
    split_ifs <;> rfl
  rw [byteSizeLong, hfields, messageSize_append, messageSize_append, messageSize_bytesField, hterm]

/-- An entry with an index is not empty. -/
lemma LogEntry.byteSizeLong_ne_zero {e : LogEntry} (h : e.logindex ≠ 0) : e.byteSizeLong ≠ 0 := by
  have htag : varintSize 5 (8 * 3 + 0) = 1 := rfl
  have hfield : messageSize (if e.logindex = 0 then [] else [⟨3, .varint (toUInt64 e.logindex)⟩]) =
      1 + varintSize 10 (toUInt64 e.logindex) := by
    rw [if_neg h]
    rfl
  rw [e.byteSizeLong_eq, hfield]
  omega

/-- The command is no longer than the entry. -/
lemma LogEntry.le_byteSizeLong (e : LogEntry) : e.command.length ≤ e.byteSizeLong :=
  e.length_serialize ▸ e.length_command_le

namespace LogEntryMessage

/-- The size of a message without negative numbers. -/
def size (m : LogEntryMessage) : ℕ :=
  bytesSize 1 m.command.length + varintFieldSize 2 m.logterm.toNat + varintFieldSize 3 m.logindex.toNat

/-- An `int` made of a number is not above it. -/
lemma toNat_toInt32_le (n : ℕ) : (toInt32 n).toNat ≤ n := by
  have hdef : toInt32 n = if (n : ℤ) % 4294967296 < 2147483648 then (n : ℤ) % 4294967296
      else (n : ℤ) % 4294967296 - 4294967296 := Int.bmod_def n (2 ^ 32)
  rw [hdef]
  split_ifs <;> omega

/-- One more field makes a message larger by its own size at most. -/
lemma size_withField (m : LogEntryMessage) (f : Field) : (m.withField f).size ≤ m.size + f.size := by
  unfold withField
  split
  · rename_i bs
    have := bytesSize_le 1 bs
    simp only [size]
    omega
  · rename_i n
    have := varintFieldSize_le (toNat_toInt32_le n) 2
    simp only [size]
    omega
  · rename_i n
    have := varintFieldSize_le (toNat_toInt32_le n) 3
    simp only [size]
    omega
  · exact Nat.le_add_right _ _

/-- Fields that are read make a message no larger than they are. -/
lemma size_foldl_withField (fields : List Field) (m : LogEntryMessage) :
    (fields.foldl withField m).size ≤ m.size + messageSize fields := by
  induction fields generalizing m with
  | nil => exact Nat.le_refl _
  | cons f fields ih =>
    have hfirst := m.size_withField f
    have hrest := ih (m.withField f)
    rw [List.foldl_cons, messageSize_cons]
    omega

/-- A message that is parsed is no larger than its body. -/
lemma size_le_of_parse {m : LogEntryMessage} {body : Bytes} (h : parse body = some m) :
    m.size ≤ body.length := by
  obtain ⟨fields, hread, rfl⟩ := Option.map_eq_some_iff.mp h
  have hfold := size_foldl_withField fields {}
  have hle := messageSize_le_of_readMessage hread
  have hempty : size {} = 0 := rfl
  omega

/-- The entry of a message is no larger than it. -/
lemma byteSizeLong_toEntry {m : LogEntryMessage} (h : 0 ≤ m.logindex) :
    m.toEntry.byteSizeLong ≤ m.size := by
  have hle : toUInt64 m.logindex ≤ m.logindex.toNat := by
    rw [toUInt64]
    omega
  have hindex : messageSize (if m.logindex = 0 then [] else [⟨3, .varint (toUInt64 m.logindex)⟩]) ≤
      varintFieldSize 3 m.logindex.toNat := by
    rw [varintFieldSize]
    by_cases hzero : m.logindex = 0
    · rw [if_pos hzero]
      exact Nat.zero_le _
    · rw [if_neg hzero, if_neg (by omega)]
      exact Nat.add_le_add_left (varintSize_mono hle 10) _
  rw [LogEntry.byteSizeLong_eq, size]
  exact Nat.add_le_add_left hindex _

end LogEntryMessage

/-- An entry of a record can be written again. -/
lemma byteSizeLong_of_readWalRecord {input : Bytes} {header : WalEntryHeader} {e : LogEntry}
    (h : readWalRecord input = some (header, e)) (hindex : 0 ≤ e.logindex) :
    e.byteSizeLong ≤ maxLogSize := by
  rw [readWalRecord] at h
  split_ifs at h with hhead hsize hbody
  cases hparse : LogEntryMessage.parse
      ((input.drop headerSize).take (WalEntryHeader.decode input).log_size) with
  | none =>
    rw [hparse] at h
    cases h
  | some m =>
    rw [hparse] at h
    dsimp only at h
    split_ifs at h with hfits
    obtain ⟨rfl, rfl⟩ := Prod.mk.inj (Option.some.inj h)
    have hle := LogEntryMessage.size_le_of_parse hparse
    have hentry := LogEntryMessage.byteSizeLong_toEntry hindex
    rw [List.length_take] at hle
    rw [not_or] at hsize
    omega

/-- An entry that is read is within the bound on its size. -/
lemma byteSizeLong_of_mem_readWalRecords {fuel : ℕ} {input : Bytes} {r : WalEntryHeader × LogEntry}
    (h : r ∈ readWalRecords fuel input) (hindex : 0 ≤ r.2.logindex) :
    r.2.byteSizeLong ≤ maxLogSize := by
  induction fuel generalizing input with
  | zero => cases h
  | succ fuel ih =>
    rw [readWalRecords] at h
    cases hread : readWalRecord input with
    | none =>
      rw [hread] at h
      cases h
    | some x =>
      rw [hread] at h
      obtain rfl | h := List.mem_cons.mp h
      · exact byteSizeLong_of_readWalRecord hread hindex
      · exact ih h

/-- What replay keeps of the segments can be written again, whatever is in the files. -/
lemma recordable_of_mem_replayEntries {w : Wal} {snapshotIndex : ℕ} {e : LogEntry}
    (h : e ∈ replayEntries snapshotIndex (w.readWalSegments snapshotIndex).2) : e.Recordable := by
  obtain ⟨k, hk⟩ := List.getElem?_of_mem h
  have hindex := aligned_replayEntries snapshotIndex _ k e hk
  have hread := (mem_foldl_replayEntry h).resolve_left fun hnil => by cases hnil
  obtain ⟨file, -, he⟩ := Wal.mem_readWalSegments.mp hread
  obtain ⟨r, hr, rfl⟩ := List.mem_map.mp he
  have hne : r.2.header.log_size ≠ 0 := by
    show r.2.serialize.length ≠ 0
    rw [r.2.length_serialize]
    exact LogEntry.byteSizeLong_ne_zero (by omega)
  refine ⟨hne, ?_⟩
  show r.2.serialize.length ≤ maxLogSize
  rw [r.2.length_serialize]
  exact byteSizeLong_of_mem_readWalRecords (List.mem_filter.mp hr).1 (by omega)

end KVCacheRaft
