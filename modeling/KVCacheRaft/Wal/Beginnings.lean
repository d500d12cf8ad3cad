import KVCacheRaft.Wal.Answers
import KVCacheRaft.Wal.Atomic
import KVCacheRaft.Wal.Rounds

/-!
# Beginnings of records

Whenever the process is killed, every segment file is the beginning of the records of some entries:
whole ones, and perhaps a part of the next one. A new process reads the whole ones up to the first
that is too large to be read.
-/

namespace KVCacheRaft

open Machine

namespace LogEntry

/-- An entry that can be written: its index and term are `int32` fields, and the serialized message
has less than two GiB. -/
structure Encodable (e : LogEntry) : Prop where
  index_pos : 0 < e.logindex
  index_lt : e.logindex < 2 ^ 31
  term_lt : e.logterm < 2 ^ 31
  size_lt : e.serialize.length < 2 ^ 31

instance (e : LogEntry) : Decidable e.Encodable :=
  decidable_of_iff (0 < e.logindex ∧ e.logindex < 2 ^ 31 ∧ e.logterm < 2 ^ 31 ∧
    e.serialize.length < 2 ^ 31)
    ⟨fun ⟨h₁, h₂, h₃, h₄⟩ => ⟨h₁, h₂, h₃, h₄⟩,
      fun h => ⟨h.index_pos, h.index_lt, h.term_lt, h.size_lt⟩⟩

variable {e : LogEntry}

/-- An entry whose bytes are within the bound is read back. -/
lemma Encodable.admitted (h : e.Encodable) (hsize : e.serialize.length ≤ maxLogSize) : e.Admitted :=
  ⟨h.index_pos, h.index_lt, h.term_lt, hsize⟩

/-- Once the header of a record is whole, it is read. -/
lemma Encodable.decode (h : e.Encodable) {content rest : Bytes}
    (hcontent : content <+: e.record ++ rest) (hlen : headerSize ≤ content.length) :
    WalEntryHeader.decode content = e.header := by
  have hheader := e.header.length_encode
  have htake : content.take headerSize = e.header.encode := by
    obtain ⟨behind, hbehind⟩ := hcontent
    have hboth := congrArg (List.take headerSize) hbehind
    rw [List.take_append_of_le_length hlen, record, List.append_assoc, ← hheader,
      List.take_left] at hboth
    rw [← hheader]
    exact hboth
  have hindex := toUInt64_eq (Int.le_of_lt h.index_pos) h.index_lt
  have hindex_lt := h.index_lt
  have hterm_lt := h.term_lt
  have hterm := toUInt64_eq (z := e.logterm) (Int.natCast_nonneg _) (by omega)
  have hsize := h.size_lt
  rw [← List.take_append_drop headerSize content, htake]
  exact WalEntryHeader.decode_encode (by show toUInt64 e.logindex < _; omega)
    (by show toUInt64 e.logterm < _; omega) (by show e.serialize.length < _; omega)
    (Nat.two_pow_pos 32) _

/-- A record that is too large is not read, whether it is whole or not. -/
lemma Encodable.read_large (h : e.Encodable) (hsize : maxLogSize < e.serialize.length)
    {content rest : Bytes} (hcontent : content <+: e.record ++ rest) :
    readWalRecord content = none := by
  unfold readWalRecord
  by_cases hlen : content.length < headerSize
  · exact if_pos hlen
  · simp only
    rw [if_neg hlen, h.decode hcontent (Nat.not_lt.mp hlen)]
    exact if_pos (.inr hsize)

end LogEntry

namespace Wal

variable {w : Wal} {content : Bytes} {files found : List SegmentFile} {logs opened : List LogEntry}

/-- The beginning of the records of some entries. -/
def Beginning (content : Bytes) : Prop :=
  ∃ entries, (∀ e ∈ entries, e.Encodable) ∧ content <+: walRecords entries

/-- An empty file is a beginning. -/
lemma beginning_nil : Beginning [] := ⟨[], (fun _ he => by cases he), List.prefix_rfl⟩

/-- A file of records is a beginning. -/
lemma beginning_walRecords (h : ∀ e ∈ logs, e.Encodable) : Beginning (walRecords logs) :=
  ⟨logs, h, List.prefix_rfl⟩

/-- What is left of a beginning is one. -/
lemma Beginning.take (h : Beginning content) (n : ℕ) : Beginning (content.take n) := by
  obtain ⟨entries, hentries, hprefix⟩ := h
  exact ⟨entries, hentries, (List.take_prefix _ _).trans hprefix⟩

/-- What is read of a segment: some of its whole records, and what comes behind them is not read. -/
lemma Beginning.split (h : Beginning content) :
    ∃ entries tail, (∀ e ∈ entries, e.Encodable) ∧ (∀ e ∈ entries, e.Admitted) ∧
      content = walRecords entries ++ tail ∧ readWalRecord tail = none := by
  obtain ⟨entries, hentries, hprefix⟩ := h
  induction entries generalizing content with
  | nil =>
    obtain rfl := List.prefix_nil.mp hprefix
    exact ⟨[], [], (fun _ he => by cases he), (fun _ he => by cases he), rfl, rfl⟩
  | cons e entries ih =>
    have he := hentries e List.mem_cons_self
    have hsplit : content <+: e.record ++ walRecords entries := hprefix
    have hnone : readWalRecord content = none → ∃ entries tail, (∀ e ∈ entries, e.Encodable) ∧
        (∀ e ∈ entries, e.Admitted) ∧ content = walRecords entries ++ tail ∧
          readWalRecord tail = none := fun hread =>
      ⟨[], content, (fun _ he => by cases he), (fun _ he => by cases he), rfl, hread⟩
    obtain hsize | hsize := Nat.lt_or_ge maxLogSize e.serialize.length
    · exact hnone (he.read_large hsize hsplit)
    · have hadmitted := he.admitted hsize
      obtain hshort | hlong := List.prefix_or_prefix_of_prefix hsplit (List.prefix_append e.record _)
      · by_cases heq : content = e.record
        · refine ⟨[e], [], ?_, ?_, ?_, rfl⟩
          · exact fun x hx => List.mem_singleton.mp hx ▸ he
          · exact fun x hx => List.mem_singleton.mp hx ▸ hadmitted
          · rw [List.append_nil, heq]
            exact (List.append_nil _).symm
        · exact hnone (hadmitted.read_torn hshort heq)
      · obtain ⟨rest, rfl⟩ := hlong
        obtain ⟨read, tail, hread, hadm, hrest, htail⟩ := ih
          (fun x hx => hentries x (List.mem_cons_of_mem _ hx))
          ((List.prefix_append_right_inj e.record).mp hsplit)
        refine ⟨e :: read, tail, List.forall_mem_cons.mpr ⟨he, hread⟩,
          List.forall_mem_cons.mpr ⟨hadmitted, hadm⟩, ?_, htail⟩
        rw [hrest]
        exact (List.append_assoc _ _ _).symm

/-- Every file of the directory is the beginning of some records, and has its name for itself. -/
structure Begun (files : List SegmentFile) : Prop where
  names : (files.map (·.1)).Nodup
  contents : ∀ file ∈ files, Beginning file.2

/-- The order in which files are listed does not matter. -/
lemma Begun.perm (h : Begun files) (hperm : found.Perm files) : Begun found where
  names := (hperm.map _).nodup_iff.mpr h.names
  contents file hfile := h.contents file (hperm.subset hfile)

/-- Changing a file keeps the names. -/
lemma map_fst_modify (files : List SegmentFile) (name : SegmentName) (f : Bytes → Bytes) :
    (modify files name f).map (·.1) = files.map (·.1) := by
  rw [modify, List.map_map]
  refine List.map_congr_left fun file _ => ?_
  show (if file.1 = name then (file.1, f file.2) else file).1 = file.1
  split_ifs <;> rfl

/-- A file may change to another beginning. -/
lemma Begun.modify (h : Begun files) {name : SegmentName} {f : Bytes → Bytes}
    (hf : ∀ content, (name, content) ∈ files → Beginning (f content)) :
    Begun (modify files name f) where
  names := by
    rw [map_fst_modify]
    exact h.names
  contents file hfile := by
    obtain ⟨x, hx, rfl⟩ := List.mem_map.mp hfile
    split_ifs with hname
    · exact hf x.2 (hname ▸ hx)
    · exact h.contents x hx

/-- Files may be removed. -/
lemma Begun.filter (h : Begun files) (p : SegmentFile → Bool) : Begun (files.filter p) where
  names := h.names.sublist (List.filter_sublist.map _)
  contents file hfile := h.contents file (List.mem_filter.mp hfile).1

/-- A file is created only when there is none of its name. -/
lemma nodup_created {files : List SegmentFile} (h : (files.map (·.1)).Nodup) (name : SegmentName) :
    ((if files.any (·.1 = name) then files else files ++ [(name, [])]).map (·.1)).Nodup := by
  split_ifs with hany
  · exact h
  · rw [List.map_append, List.nodup_append]
    refine ⟨h, List.nodup_singleton _, fun name' hname other hother heq => hany ?_⟩
    obtain ⟨file, hfile, rfl⟩ := List.mem_map.mp hname
    rw [List.map_singleton, List.mem_singleton] at hother
    exact List.any_eq_true.mpr ⟨file, hfile, decide_eq_true (heq.trans hother)⟩

/-- A new segment has a name of its own. -/
lemma nodup_openSegment (h : (w.files.map (·.1)).Nodup) (firstIndex : ℕ) :
    ((w.openSegment firstIndex).files.map (·.1)).Nodup := nodup_created h _

/-- A new segment is a beginning. -/
lemma Begun.openSegment (h : Begun w.files) (firstIndex : ℕ) :
    Begun (w.openSegment firstIndex).files := by
  refine ⟨nodup_openSegment h.names firstIndex, ?_⟩
  rw [Wal.openSegment]
  simp only
  split_ifs with hany
  · exact h.contents
  · intro file hfile
    obtain hfile | hfile := List.mem_append.mp hfile
    · exact h.contents file hfile
    · obtain rfl := List.mem_singleton.mp hfile
      exact beginning_nil

/-- A directory of one file. -/
lemma begun_singleton {name : SegmentName} (h : Beginning content) : Begun [(name, content)] :=
  ⟨List.nodup_singleton _, fun _ hfile => List.mem_singleton.mp hfile ▸ h⟩

/-- The entries that are read can be written again. -/
lemma Begun.read (h : Begun w.files) (snapshotIndex : ℕ) :
    ∀ e ∈ w.compacted snapshotIndex, e.Encodable := by
  intro e he
  have hread := (mem_foldl_replayEntry he).resolve_left fun hnil => by cases hnil
  obtain ⟨file, hfile, he⟩ := mem_readWalSegments.mp hread
  obtain ⟨entries, tail, hentries, hadmitted, hcontent, htail⟩ := (h.contents file hfile).split
  rw [hcontent, readWalSegment_append hadmitted htail] at he
  exact hentries e (List.mem_filter.mp he).1

/-! ### The open segment -/

/-- The fields of `Persister` describe the open segment, which holds the records of `opened`. -/
structure Describes (w : Wal) (opened : List LogEntry) : Prop where
  content : w.content = walRecords opened
  last : w.segmentLastIndex =
    (opened.getLast?.map (toUInt64 ·.logindex)).getD (w.segmentFirstIndex - 1)
  count : w.segmentEntryCount = opened.length
  bytes : w.segmentBytes = (walRecords opened).length

/-- With a name for itself, the open file is what `log_fd` is open on. -/
lemma content_of_mem (h : (w.files.map (·.1)).Nodup) (hfile : (w.openSegmentName, content) ∈ w.files) :
    w.content = content := by
  have hfind : w.files.find? (·.1 = w.openSegmentName) = some (w.openSegmentName, content) := by
    have hone := List.inj_on_of_nodup_map h
    cases hget : w.files.find? (·.1 = w.openSegmentName) with
    | none => exact absurd (List.find?_eq_none.mp hget _ hfile) (by simp)
    | some file =>
      have hname : file.1 = w.openSegmentName := by simpa using List.find?_some hget
      rw [hone (List.mem_of_find?_eq_some hget) hfile hname]
  rw [Wal.content, hfind]
  rfl

/-- The open segment is the file of its name. -/
lemma Begun.content_eq (h : Begun w.files) (hfile : (w.openSegmentName, content) ∈ w.files) :
    w.content = content :=
  content_of_mem h.names hfile

/-- The open segment is one of the files. -/
lemma Opened.mem (h : w.Opened) : (w.openSegmentName, w.content) ∈ w.files := by
  obtain ⟨file, hfile⟩ := h.find?
  have hname : file.1 = w.openSegmentName := by simpa using List.find?_some hfile
  have hmem := List.mem_of_find?_eq_some hfile
  rw [content, hfile, ← hname]
  exact hmem

/-- A record is written behind what the open segment has. -/
lemma Opened.writeLog (h : w.Opened) (log : LogEntry) :
    (w.writeLog log).Opened ∧ (w.writeLog log).content = w.content ++ log.record :=
  h.modify (· ++ log.record) rfl rfl

/-- The entries of the open segment grow by the one written. -/
lemma Describes.writeLog (h : w.Describes opened) (hopened : w.Opened) (log : LogEntry) :
    (w.writeLog log).Describes (opened ++ [log]) where
  content := by
    rw [(hopened.writeLog log).2, h.content, walRecords_append]
    exact congrArg _ (List.append_nil _).symm
  last := by
    rw [List.getLast?_concat]
    rfl
  count := by
    rw [List.length_append, ← h.count]
    rfl
  bytes := by
    rw [walRecords_append, List.length_append, ← h.bytes]
    show _ = _ + (log.record ++ []).length
    rw [List.append_nil]
    rfl

/-- The entries of the open segment grow by those written. -/
lemma Describes.writeLogs (h : w.Describes opened) (hopened : w.Opened) (logs : List LogEntry) :
    (w.writeLogs logs).1.Describes (opened ++ logs) := by
  induction logs generalizing w opened with
  | nil =>
    rw [List.append_nil]
    exact h
  | cons log rest ih =>
    have hrest := ih (h.writeLog hopened log) (hopened.writeLog log).1
    rw [List.append_assoc] at hrest
    exact hrest

/-- The files are changed in the open one only. -/
lemma files_writeLogs (w : Wal) (logs : List LogEntry) :
    (w.writeLogs logs).1.files = modify w.files w.openSegmentName (· ++ walRecords logs) := by
  induction logs generalizing w with
  | nil =>
    refine (List.map_id _).symm.trans (List.map_congr_left fun file _ => ?_)
    show file = if file.1 = w.openSegmentName then (file.1, file.2 ++ []) else file
    rw [List.append_nil, ite_self]
  | cons log rest ih =>
    refine (ih (w.writeLog log)).trans ?_
    show modify (modify w.files w.openSegmentName (· ++ log.record)) w.openSegmentName _ = _
    rw [modify, modify, List.map_map]
    refine List.map_congr_left fun file _ => ?_
    by_cases hname : file.1 = w.openSegmentName
    · simp only [Function.comp_apply, if_pos hname, List.append_assoc]
      rfl
    · simp only [Function.comp_apply, if_neg hname]

/-- Files of records stay so when records are written. -/
lemma Begun.writeLogs (h : Begun w.files) (hdescribes : w.Describes opened)
    (hopened : ∀ e ∈ opened, e.Encodable) (hlogs : ∀ e ∈ logs, e.Encodable) :
    Begun (w.writeLogs logs).1.files := by
  rw [files_writeLogs]
  refine h.modify fun content hfile => ?_
  have hcontent : content = walRecords opened := (h.content_eq hfile).symm.trans hdescribes.content
  rw [hcontent, ← walRecords_append]
  exact beginning_walRecords (List.forall_mem_append.mpr ⟨hopened, hlogs⟩)

/-- `OpenSegment` would open a file that holds nothing. -/
def Clean (files : List SegmentFile) (firstIndex : ℕ) : Prop :=
  ∀ file ∈ files, file.1 = .inprogress firstIndex → file.2 = []

instance (files : List SegmentFile) (firstIndex : ℕ) : Decidable (Clean files firstIndex) := by
  unfold Clean
  infer_instance

/-- A new segment holds no entries. -/
lemma Clean.openSegment {firstIndex : ℕ} (h : Clean w.files firstIndex) :
    (w.openSegment firstIndex).Describes [] := by
  have hopened := opened_openSegment w firstIndex
  refine ⟨?_, rfl, rfl, rfl⟩
  have hmem := hopened.mem
  have hname : (w.openSegment firstIndex).openSegmentName = .inprogress firstIndex := rfl
  rw [hname] at hmem
  generalize (w.openSegment firstIndex).content = content at hmem ⊢
  unfold Wal.openSegment at hmem
  simp only at hmem
  split_ifs at hmem with hany
  · exact h _ hmem rfl
  · obtain hmem | hmem := List.mem_append.mp hmem
    · exact h _ hmem rfl
    · exact congrArg Prod.snd (List.mem_singleton.mp hmem)

end Wal

end KVCacheRaft
