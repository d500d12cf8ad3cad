import KVCacheRaft.Codec.Wire
import KVCacheRaft.Raft.State

/-!
# The records of the write-ahead log

A segment (`persist/Persister.h`) is a sequence of records: a header of 24 bytes and the serialized
`LogEntry`. `ReadWalSegment` reads records up to the first that is torn or does not fit its header.
-/

namespace KVCacheRaft

open Codecs

/-! ### Serialized entries -/

/-- The 64 bits of an integer. -/
def toUInt64 (z : ℤ) : ℕ := (z % 2 ^ 64).toNat

/-- `static_cast<int32_t>`. -/
def toInt32 (n : ℕ) : ℤ := Int.bmod n (2 ^ 32)

/-- An `int` that is not negative keeps its value as an unsigned number. -/
lemma toUInt64_eq {z : ℤ} (h : 0 ≤ z) (hlt : z < 2 ^ 31) : (toUInt64 z : ℤ) = z := by
  rw [toUInt64]
  omega

/-- A small unsigned number keeps its value as an `int`. -/
lemma toInt32_eq {n : ℕ} (h : n < 2 ^ 31) : toInt32 n = n :=
  Int.bmod_eq_of_le (by omega) (by omega)

/-- An `int` that is not negative comes back from the header. -/
lemma toInt32_toUInt64 {z : ℤ} (h : 0 ≤ z) (hlt : z < 2 ^ 31) : toInt32 (toUInt64 z) = z := by
  have heq := toUInt64_eq h hlt
  rw [toInt32_eq (by omega), heq]

/-- A parsed `raftRpcProctoc::LogEntry`, whose term may be any `int32`. -/
structure LogEntryMessage where
  command : Bytes := []
  logterm : ℤ := 0
  logindex : ℤ := 0
deriving DecidableEq

def LogEntryMessage.toEntry (m : LogEntryMessage) : LogEntry where
  command := m.command
  logterm := m.logterm.toNat
  logindex := m.logindex

namespace LogEntry

/-- The fields of an entry that are not defaults. -/
def fields (e : LogEntry) : List Field :=
  (if e.command = [] then [] else [⟨1, .bytes e.command⟩]) ++
    (if e.logterm = 0 then [] else [⟨2, .varint e.logterm⟩]) ++
    (if e.logindex = 0 then [] else [⟨3, .varint (toUInt64 e.logindex)⟩])

/-- `SerializePartialToString`. -/
def serialize (e : LogEntry) : Bytes := encodeMessage e.fields

end LogEntry

/-- The message after one more field; fields that it does not know are skipped. -/
def LogEntryMessage.withField (m : LogEntryMessage) (f : Field) : LogEntryMessage :=
  match f with
  | ⟨1, .bytes bs⟩ => { m with command := bs }
  | ⟨2, .varint n⟩ => { m with logterm := toInt32 n }
  | ⟨3, .varint n⟩ => { m with logindex := toInt32 n }
  | _ => m

/-- `ParseFromString`. -/
def LogEntryMessage.parse (body : Bytes) : Option LogEntryMessage :=
  (readMessage kRecursionLimit body).map fun fields => fields.foldl LogEntryMessage.withField {}

/-! ### Records -/

/-- `WalEntryHeader`. -/
structure WalEntryHeader where
  log_index : ℕ
  log_term : ℕ
  log_size : ℕ
  command_crc : ℕ
deriving DecidableEq

/-- `sizeof(WalEntryHeader)`. -/
def headerSize : ℕ := 24

/-- The bound of `ReadWalSegment` on `log_size`. -/
def maxLogSize : ℕ := 16 * 1024 * 1024

def WalEntryHeader.encode (h : WalEntryHeader) : Bytes :=
  littleEndian 8 h.log_index ++ (littleEndian 8 h.log_term ++
    (littleEndian 4 h.log_size ++ littleEndian 4 h.command_crc))

def WalEntryHeader.decode (bs : Bytes) : WalEntryHeader where
  log_index := ofLittleEndian (bs.take 8)
  log_term := ofLittleEndian ((bs.drop 8).take 8)
  log_size := ofLittleEndian ((bs.drop 16).take 4)
  command_crc := ofLittleEndian ((bs.drop 20).take 4)

namespace LogEntry

/-- The header the writer puts in front of an entry. -/
def header (e : LogEntry) : WalEntryHeader where
  log_index := toUInt64 e.logindex
  log_term := toUInt64 e.logterm
  log_size := e.serialize.length
  command_crc := 0

/-- What the writer writes for an entry. -/
def record (e : LogEntry) : Bytes := e.header.encode ++ e.serialize

end LogEntry

/-- One round of the loop of `ReadWalSegment`; none where it breaks. -/
def readWalRecord (input : Bytes) : Option (WalEntryHeader × LogEntry) :=
  let header := WalEntryHeader.decode input
  if input.length < headerSize then none
  else if header.log_size = 0 ∨ header.log_size > maxLogSize then none
  else if input.length < headerSize + header.log_size then none
  else
    match LogEntryMessage.parse ((input.drop headerSize).take header.log_size) with
    | none => none
    | some entry =>
      if entry.logindex ≠ toInt32 header.log_index ∨ entry.logterm ≠ toInt32 header.log_term then none
      else some (header, entry.toEntry)

/-- The loop of `ReadWalSegment`; `fuel` is above the number of records. -/
def readWalRecords : ℕ → Bytes → List (WalEntryHeader × LogEntry)
  | 0, _ => []
  | fuel + 1, input =>
    match readWalRecord input with
    | none => []
    | some (header, entry) =>
      (header, entry) :: readWalRecords fuel (input.drop (headerSize + header.log_size))

/-- `ReadWalSegment` on the contents of a segment: the entries above the snapshot, and the length
that it cuts the file to. -/
def readWalSegment (snapshotIndex : ℕ) (content : Bytes) : List LogEntry × ℕ :=
  let records := readWalRecords (content.length + 1) content
  ((records.filter (·.1.log_index > snapshotIndex)).map (·.2),
    (records.map (headerSize + ·.1.log_size)).sum)

/-! ### What is written is read -/

namespace LogEntry

/-- An entry whose record is read back. -/
structure Admitted (e : LogEntry) : Prop where
  index_pos : 0 < e.logindex
  index_lt : e.logindex < 2 ^ 31
  term_lt : e.logterm < 2 ^ 31
  size_le : e.serialize.length ≤ maxLogSize

variable {e : LogEntry}

/-- The command is no longer than the entry. -/
lemma length_command_le (e : LogEntry) : e.command.length ≤ e.serialize.length := by
  rw [serialize, fields]
  by_cases hc : e.command = []
  · rw [hc]
    exact Nat.zero_le _
  · rw [if_neg hc, List.append_assoc, List.singleton_append]
    show e.command.length ≤ (Field.encode ⟨1, .bytes e.command⟩ ++ encodeMessage _).length
    rw [List.length_append, Field.encode, List.length_append, WireValue.encode, List.length_append]
    omega

/-- An entry is at most forty bytes longer than its command. -/
lemma length_serialize_le (e : LogEntry) : e.serialize.length ≤ e.command.length + 40 := by
  have hbytes : (Field.encode ⟨1, .bytes e.command⟩).length ≤ e.command.length + 10 := by
    have hvalue : (WireValue.bytes e.command).encode.length ≤ 5 + e.command.length := by
      rw [WireValue.encode, List.length_append]
      exact Nat.add_le_add_right (length_varint_le 5 _) _
    have := Field.length_encode_le 1 (.bytes e.command)
    omega
  have hvarint : ∀ number n, (Field.encode ⟨number, .varint n⟩).length ≤ 15 := by
    intro number n
    have hvalue : (WireValue.varint n).encode.length ≤ 10 := length_varint_le 10 n
    have := Field.length_encode_le number (.varint n)
    omega
  have hterm := hvarint 2 e.logterm
  have hindex := hvarint 3 (toUInt64 e.logindex)
  rw [serialize, fields, encodeMessage, List.flatMap_append, List.flatMap_append,
    List.length_append, List.length_append]
  split_ifs <;> simp only [List.flatMap_nil, List.flatMap_singleton, List.length_nil] <;> omega

/-- The fields of an admitted entry fit. -/
lemma Admitted.fits (h : e.Admitted) : ∀ f ∈ e.fields, f.Fits := by
  have hsize := h.size_le
  have hlen := e.length_command_le
  have hterm := h.term_lt
  have hindex := toUInt64_eq (Int.le_of_lt h.index_pos) h.index_lt
  have hlt := h.index_lt
  rw [maxLogSize] at hsize
  intro f hf
  rw [fields, List.append_assoc, List.mem_append, List.mem_append] at hf
  obtain hf | hf | hf := hf
  · split_ifs at hf
    · cases hf
    · obtain rfl := List.mem_singleton.mp hf
      exact ⟨by simp, by show 1 < 2 ^ 29; omega, by show e.command.length < 2 ^ 31; omega⟩
  · split_ifs at hf
    · cases hf
    · obtain rfl := List.mem_singleton.mp hf
      exact ⟨by simp, by show 2 < 2 ^ 29; omega, by show e.logterm < 2 ^ 64; omega⟩
  · split_ifs at hf
    · cases hf
    · obtain rfl := List.mem_singleton.mp hf
      exact ⟨by simp, by show 3 < 2 ^ 29; omega, by show toUInt64 e.logindex < 2 ^ 64; omega⟩

/-- The body of a record is read back. -/
lemma Admitted.parse (h : e.Admitted) :
    LogEntryMessage.parse e.serialize = some ⟨e.command, e.logterm, e.logindex⟩ := by
  have hindex := toInt32_toUInt64 (Int.le_of_lt h.index_pos) h.index_lt
  have hterm := toInt32_eq h.term_lt
  rw [LogEntryMessage.parse, serialize, readMessage_encode h.fits, Option.map_some, fields,
    List.foldl_append, List.foldl_append]
  have hne : e.logindex ≠ 0 := by
    have := h.index_pos
    omega
  by_cases hc : e.command = []
  · by_cases ht : e.logterm = 0
    · simp [LogEntryMessage.withField, hc, ht, hne, hindex]
    · simp [LogEntryMessage.withField, hc, ht, hne, hindex, hterm]
  · by_cases ht : e.logterm = 0
    · simp [LogEntryMessage.withField, hc, ht, hne, hindex]
    · simp [LogEntryMessage.withField, hc, ht, hne, hindex, hterm]

/-- An admitted entry is not empty. -/
lemma Admitted.serialize_ne_nil (h : e.Admitted) : e.serialize ≠ [] := by
  intro hnil
  have hparse := h.parse
  rw [hnil] at hparse
  have hzero : (0 : ℤ) = e.logindex := congrArg LogEntryMessage.logindex (Option.some.inj hparse)
  have hpos := h.index_pos
  omega

end LogEntry

/-- A header whose fields fit is read off the front of a record. -/
lemma WalEntryHeader.decode_encode {h : WalEntryHeader} (hindex : h.log_index < 2 ^ 64)
    (hterm : h.log_term < 2 ^ 64) (hsize : h.log_size < 2 ^ 32) (hcrc : h.command_crc < 2 ^ 32)
    (rest : Bytes) : decode (h.encode ++ rest) = h := by
  obtain ⟨log_index, log_term, log_size, command_crc⟩ := h
  have h₁ := ofLittleEndian_littleEndian (k := 8) (n := log_index) hindex
  have h₂ := ofLittleEndian_littleEndian (k := 8) (n := log_term) hterm
  have h₃ := ofLittleEndian_littleEndian (k := 4) (n := log_size) hsize
  have h₄ := ofLittleEndian_littleEndian (k := 4) (n := command_crc) hcrc
  simp [decode, encode, List.drop_append, List.drop_eq_nil_of_le, h₁, h₂, h₃, h₄]

@[simp]
lemma WalEntryHeader.length_encode (h : WalEntryHeader) : h.encode.length = headerSize := by
  simp [encode, headerSize]

namespace LogEntry

variable {e : LogEntry}

/-- A record is a header and the entry. -/
lemma length_record (e : LogEntry) : e.record.length = headerSize + e.serialize.length := by
  rw [record, List.length_append, WalEntryHeader.length_encode]

/-- The header of an admitted entry is read back. -/
lemma Admitted.decode (h : e.Admitted) (rest : Bytes) :
    WalEntryHeader.decode (e.header.encode ++ rest) = e.header := by
  have hindex := toUInt64_eq (Int.le_of_lt h.index_pos) h.index_lt
  have hterm := h.term_lt
  have htoterm := toUInt64_eq (z := e.logterm) (Int.natCast_nonneg _) (by omega)
  have hlt := h.index_lt
  have hsize := h.size_le
  rw [maxLogSize] at hsize
  exact WalEntryHeader.decode_encode (by show toUInt64 e.logindex < _; omega)
    (by show toUInt64 e.logterm < _; omega) (by show e.serialize.length < _; omega)
    (Nat.two_pow_pos 32) rest

/-- A record in front of anything is read. -/
lemma Admitted.read (h : e.Admitted) (rest : Bytes) :
    readWalRecord (e.record ++ rest) = some (e.header, e) := by
  have hdecode := h.decode (e.serialize ++ rest)
  have hindex := toInt32_toUInt64 (Int.le_of_lt h.index_pos) h.index_lt
  have hterm := toInt32_toUInt64 (z := e.logterm) (Int.natCast_nonneg _)
    (by have := h.term_lt; omega)
  have hpos := List.length_pos_iff.mpr h.serialize_ne_nil
  have hle := h.size_le
  have hsize : e.header.log_size = e.serialize.length := rfl
  have hheader := e.header.length_encode
  have hlen : (e.header.encode ++ (e.serialize ++ rest)).length =
      headerSize + e.serialize.length + rest.length := by
    rw [List.length_append, List.length_append, hheader, Nat.add_assoc]
  have hbody : ((e.header.encode ++ (e.serialize ++ rest)).drop headerSize).take
      e.header.log_size = e.serialize := by
    rw [hsize, ← hheader, List.drop_left, List.take_left]
  unfold readWalRecord
  rw [record, List.append_assoc]
  simp only [hdecode, hlen, hbody, h.parse]
  rw [if_neg (by omega), if_neg (by omega), if_neg (by omega),
    if_neg (by simp only [header, hindex, hterm]; simp)]
  exact congrArg some (Prod.ext rfl (by simp [LogEntryMessage.toEntry]))

/-- A record that is torn is not read. -/
lemma Admitted.read_torn (h : e.Admitted) {torn : Bytes} (htorn : torn <+: e.record)
    (hne : torn ≠ e.record) : readWalRecord torn = none := by
  obtain ⟨lost, hlost⟩ := htorn
  have hpos : 0 < lost.length := by
    apply List.length_pos_iff.mpr
    rintro rfl
    exact hne (by rw [← hlost, List.append_nil])
  have hlen := congrArg List.length hlost
  rw [List.length_append, length_record] at hlen
  unfold readWalRecord
  simp only
  by_cases hshort : torn.length < headerSize
  · rw [if_pos hshort]
  · -- the header is whole, the body is not
    have hheader := e.header.length_encode
    have hdecode : WalEntryHeader.decode torn = e.header := by
      have hsplit : torn = e.header.encode ++ torn.drop headerSize := by
        have htake : torn.take headerSize = e.header.encode := by
          have := congrArg (List.take headerSize) hlost
          rw [List.take_append_of_le_length (by omega), record, ← hheader, List.take_left] at this
          rw [← hheader]
          exact this
        rw [← htake, List.take_append_drop]
      rw [hsplit]
      exact h.decode _
    have hsize : e.header.log_size = e.serialize.length := rfl
    rw [hdecode, if_neg hshort]
    split_ifs with hbad hbody
    · rfl
    · rfl
    · omega

end LogEntry

/-! ### Segments -/

/-- The records of some entries. -/
def walRecords (entries : List LogEntry) : Bytes := entries.flatMap LogEntry.record

@[simp]
lemma walRecords_nil : walRecords [] = [] := rfl

/-- The records of two lists. -/
lemma walRecords_append (entries entries' : List LogEntry) :
    walRecords (entries ++ entries') = walRecords entries ++ walRecords entries' :=
  List.flatMap_append

/-- The length of the records. -/
lemma length_walRecords (entries : List LogEntry) :
    (walRecords entries).length =
      (entries.map (headerSize + ·.header.log_size)).sum := by
  induction entries with
  | nil => rfl
  | cons e entries ih =>
    show (e.record ++ walRecords entries).length = _
    rw [List.length_append, ih, LogEntry.length_record, List.map_cons, List.sum_cons]
    rfl

/-- There are no more records than bytes. -/
lemma length_le_walRecords (entries : List LogEntry) :
    entries.length ≤ (walRecords entries).length := by
  induction entries with
  | nil => exact Nat.le_refl 0
  | cons e entries ih =>
    show entries.length + 1 ≤ (e.record ++ walRecords entries).length
    rw [List.length_append, LogEntry.length_record, headerSize]
    omega

/-- The records in front of an unreadable tail are read. -/
lemma readWalRecords_append {entries : List LogEntry} (h : ∀ e ∈ entries, e.Admitted)
    {tail : Bytes} (htail : readWalRecord tail = none) {fuel : ℕ} (hfuel : entries.length < fuel) :
    readWalRecords fuel (walRecords entries ++ tail) = entries.map fun e => (e.header, e) := by
  induction entries generalizing fuel with
  | nil =>
    cases fuel with
    | zero => cases hfuel
    | succ fuel =>
      show readWalRecords (fuel + 1) tail = []
      rw [readWalRecords, htail]
  | cons e entries ih =>
    cases fuel with
    | zero => cases hfuel
    | succ fuel =>
      have hsplit : walRecords (e :: entries) ++ tail = e.record ++ (walRecords entries ++ tail) :=
        List.append_assoc ..
      have hrest := ih (fun e' he => h e' (List.mem_cons_of_mem _ he)) (Nat.lt_of_succ_lt_succ hfuel)
      have hdrop : (e.record ++ (walRecords entries ++ tail)).drop
          (headerSize + e.header.log_size) = walRecords entries ++ tail := by
        have hlen : headerSize + e.header.log_size = e.record.length := e.length_record.symm
        rw [hlen, List.drop_left]
      rw [hsplit, readWalRecords, (h e List.mem_cons_self).read]
      simp only [hdrop, hrest, List.map_cons]

/-- A segment of whole records, with a torn one behind them or not. -/
theorem readWalSegment_append {entries : List LogEntry} (h : ∀ e ∈ entries, e.Admitted)
    {tail : Bytes} (htail : readWalRecord tail = none) (snapshotIndex : ℕ) :
    readWalSegment snapshotIndex (walRecords entries ++ tail) =
      (entries.filter (·.logindex > (snapshotIndex : ℤ)), (walRecords entries).length) := by
  have hcount := length_le_walRecords entries
  have hfuel : entries.length < (walRecords entries ++ tail).length + 1 := by
    rw [List.length_append]
    omega
  have hrecords := readWalRecords_append h htail hfuel
  unfold readWalSegment
  simp only [hrecords]
  refine Prod.ext ?_ ?_
  · show ((entries.map fun e => (e.header, e)).filter _).map _ = _
    rw [List.filter_map, List.map_map]
    have hfilter : entries.filter ((fun r : WalEntryHeader × LogEntry =>
        decide (r.1.log_index > snapshotIndex)) ∘ fun e => (e.header, e)) =
        entries.filter (·.logindex > (snapshotIndex : ℤ)) := by
      apply List.filter_congr
      intro e he
      have hindex := toUInt64_eq (Int.le_of_lt (h e he).index_pos) (h e he).index_lt
      show decide (toUInt64 e.logindex > snapshotIndex) = decide (e.logindex > snapshotIndex)
      rw [decide_eq_decide]
      omega
    rw [hfilter]
    exact List.map_id _
  · show ((entries.map fun e => (e.header, e)).map _).sum = _
    rw [List.map_map, length_walRecords]
    rfl

end KVCacheRaft
