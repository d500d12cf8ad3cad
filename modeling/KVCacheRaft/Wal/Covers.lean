import KVCacheRaft.Wal.Saves

/-!
# What a snapshot covers

After a crash the snapshot file and the recovered log have to hold every command up to the stored
commit index. While the log is compacted it is nowhere, and once the metadata is stored the log starts
behind the new snapshot: a call is safe exactly when the snapshot file that is then on disk holds all
committed commands by itself.
-/

namespace KVCacheRaft

open Machine

/-- The snapshot file is that of the commands up to `included`; with the entries that `init` recovers
it covers the commands up to the stored commit index. -/
structure Disk.Covers (included : Bytes → ℤ) (command : ℤ → Bytes) (d : Disk) : Prop where
  noGap : ∀ e ∈ d.recovered.head?, e.logindex ≤ included d.snapshotFile + 1
  covered : ∀ i, 0 < i → i ≤ d.fmp.commit_index →
    i ≤ included d.snapshotFile ∨ ∃ e ∈ d.recovered, e.logindex = i ∧ e.command = command i

/-- A node whose files cover its commit index, before a call. -/
structure Consistent (included : Bytes → ℤ) (command : ℤ → Bytes) (s : Raft) (compacted : ℕ)
    (d : Disk) : Prop where
  index : s.IndexInv
  snapshot_nonneg : 0 ≤ s.lastSnapshotIndex
  compacted_le : compacted ≤ s.lastSnapshotIndex
  snapshot_index : d.fmp.snapshot_index = s.lastSnapshotIndex
  commit_index : d.fmp.commit_index ≤ s.commitIndex
  snapshotFile : s.lastSnapshotIndex ≤ included d.snapshotFile
  covers : Disk.Covers included command
    { d with fmp := { d.fmp with commit_index := s.commitIndex } }

namespace SnapshotCall

/-- The snapshot of the call is that of the commands up to its index. -/
def Folds (included : Bytes → ℤ) : SnapshotCall → Prop
  | .snapshot index data => included data = index
  | .installSnapshot args => included args.data = args.lastsnapshotincludeindex

/-- The snapshot file that is on disk when the metadata is stored holds all committed commands. -/
def Safe (included : Bytes → ℤ) (s : Raft) (compacted : ℕ) (d : Disk) (outcome : SaveOutcome)
    (call : SnapshotCall) : Prop :=
  match call with
  | .snapshot _ data =>
    call.Accepted s → s.commitIndex ≤ included (outcome.file data d.snapshotFile)
  | .installSnapshot args =>
    (s.currentTerm < args.term → s.lastSnapshotIndex ≤ compacted ∨
      s.commitIndex ≤ included d.snapshotFile) ∧
    (call.Accepted s →
      max s.commitIndex args.lastsnapshotincludeindex ≤
        included (outcome.file args.data d.snapshotFile))

end SnapshotCall

namespace Disk

variable {included : Bytes → ℤ} {command : ℤ → Bytes} {d d' : Disk} {info : NodeInfo}
  {compacted : ℕ}

/-- What is recovered is aligned to the stored snapshot. -/
lemma aligned_recovered (d : Disk) : Aligned d.fmp.snapshot_index.toNat d.recovered :=
  aligned_replayEntries _ _

/-- The recovered log depends on the segments and the snapshot index. -/
lemma recovered_congr (hfiles : d'.files = d.files)
    (hindex : d'.fmp.snapshot_index = d.fmp.snapshot_index) : d'.recovered = d.recovered := by
  rw [recovered, recovered, hfiles, hindex]

/-- The snapshot file is enough by itself. -/
lemma covers_of_le (hnonneg : 0 ≤ d.fmp.snapshot_index)
    (hindex : d.fmp.snapshot_index ≤ included d.snapshotFile)
    (hcommit : d.fmp.commit_index ≤ included d.snapshotFile) : d.Covers included command := by
  refine ⟨fun e he => ?_, fun i _ hi => .inl (Int.le_trans hi hcommit)⟩
  rw [List.head?_eq_getElem?] at he
  have halign := d.aligned_recovered 0 e he
  omega

/-- A lower commit index is covered with a higher one. -/
lemma Covers.of_commit_le (h : d.Covers included command) (hfile : d'.snapshotFile = d.snapshotFile)
    (hfiles : d'.files = d.files) (hindex : d'.fmp.snapshot_index = d.fmp.snapshot_index)
    (hcommit : d'.fmp.commit_index ≤ d.fmp.commit_index) : d'.Covers included command := by
  have hrecovered := recovered_congr hfiles hindex
  refine ⟨by rw [hrecovered, hfile]; exact h.noGap, fun i hpos hi => ?_⟩
  rw [hrecovered, hfile]
  exact h.covered i hpos (Int.le_trans hi hcommit)

/-- Covering speaks of the files and the stored indices only. -/
lemma Covers.congr (h : d.Covers included command) (hfile : d'.snapshotFile = d.snapshotFile)
    (hfiles : d'.files = d.files) (hindex : d'.fmp.snapshot_index = d.fmp.snapshot_index)
    (hcommit : d'.fmp.commit_index = d.fmp.commit_index) : d'.Covers included command :=
  h.of_commit_le hfile hfiles hindex (Int.le_of_eq hcommit)

/-- Without segments only the snapshot file counts. -/
lemma Covers.commit_le (h : d.Covers included command) (hfiles : d.files = [])
    (hpos : 0 < d.fmp.commit_index) : d.fmp.commit_index ≤ included d.snapshotFile := by
  have hrecovered : d.recovered = [] := by
    rw [recovered, hfiles]
    rfl
  obtain hle | ⟨e, he, -⟩ := h.covered _ hpos (Int.le_refl _)
  · exact hle
  · rw [hrecovered] at he
    cases he

/-! ### The procedures -/

/-- Bytes written to the temporary file are appended to it. -/
lemma foldl_writeTmp (d : Disk) (data tmp : Bytes) (htmp : d.tmp = some tmp) :
    (data.map FileOp.writeTmp).foldl apply d = { d with tmp := some (tmp ++ data) } := by
  induction data generalizing d tmp with
  | nil =>
    rw [List.append_nil, ← htmp]
    rfl
  | cons b data ih =>
    have hb : (d.apply (.writeTmp b)).tmp = some (tmp ++ [b]) := by
      show d.tmp.map (· ++ [b]) = _
      rw [htmp]
      rfl
    rw [List.map_cons, List.foldl_cons, ih _ _ hb, List.append_assoc]
    rfl

/-- What `Save` does to the snapshot file. -/
structure Saved (d d' : Disk) (file : Bytes) : Prop where
  snapshotFile : d'.snapshotFile = file
  fmp : d'.fmp = d.fmp
  files : d'.files = d.files

/-- `Save` changes the snapshot file only. -/
lemma saved_saveSnapshot (d : Disk) (data : Bytes) (outcome : SaveOutcome) :
    Saved d ((saveSnapshot data outcome).foldl apply d) (outcome.file data d.snapshotFile) := by
  cases outcome with
  | openFails => exact ⟨rfl, rfl, rfl⟩
  | writeFails n =>
    rw [saveSnapshot, List.foldl_append, List.foldl_append,
      foldl_writeTmp ([FileOp.openTmp].foldl apply d) (data.take n) [] rfl]
    exact ⟨rfl, rfl, rfl⟩
  | fdatasyncFails =>
    rw [saveSnapshot, List.foldl_append, List.foldl_append,
      foldl_writeTmp ([FileOp.openTmp].foldl apply d) data [] rfl]
    exact ⟨rfl, rfl, rfl⟩
  | renameFails =>
    rw [saveSnapshot, List.foldl_append, List.foldl_append,
      foldl_writeTmp ([FileOp.openTmp].foldl apply d) data [] rfl]
    exact ⟨rfl, rfl, rfl⟩
  | succeeds =>
    rw [saveSnapshot, List.foldl_append, List.foldl_append,
      foldl_writeTmp ([FileOp.openTmp].foldl apply d) data [] rfl]
    exact ⟨rfl, rfl, rfl⟩

/-- Until its last operation `Save` leaves the files that count. -/
lemma survives_saveSnapshot (d : Disk) (data : Bytes) (outcome : SaveOutcome)
    (h : d.Covers included command)
    (hsaved : ∀ d', Saved d d' (outcome.file data d.snapshotFile) → d'.Covers included command) :
    Survives apply (Covers included command) d (saveSnapshot data outcome) := by
  have hlast := hsaved _ (saved_saveSnapshot d data outcome)
  have hfront : ∀ ops : List FileOp, (∀ op ∈ ops, op = FileOp.openTmp ∨ ∃ b, op = FileOp.writeTmp b) →
      Survives apply (Covers included command) d ops := by
    intro ops hops
    refine Survives.of_keeps (Q := fun s => Saved d s d.snapshotFile) ⟨rfl, rfl, rfl⟩ ?_ ?_
    · intro s op hop hs
      obtain rfl | ⟨b, rfl⟩ := hops op hop
      · exact ⟨hs.snapshotFile, hs.fmp, hs.files⟩
      · exact ⟨hs.snapshotFile, hs.fmp, hs.files⟩
    · intro s hs
      exact h.congr hs.snapshotFile hs.files (by rw [hs.fmp]) (by rw [hs.fmp])
  have hwrites : ∀ (bytes : Bytes) (op : FileOp),
      Covers included command (([FileOp.openTmp] ++ bytes.map FileOp.writeTmp ++ [op]).foldl apply d) →
      Survives apply (Covers included command) d ([FileOp.openTmp] ++ bytes.map FileOp.writeTmp ++ [op]) := by
    intro bytes op hend
    rw [List.foldl_append] at hend
    have hops : Survives apply (Covers included command) d ([FileOp.openTmp] ++ bytes.map FileOp.writeTmp) := by
      refine hfront _ fun op hop => ?_
      obtain hop | hop := List.mem_append.mp hop
      · exact .inl (List.mem_singleton.mp hop)
      · obtain ⟨b, -, rfl⟩ := List.mem_map.mp hop
        exact .inr ⟨b, rfl⟩
    exact survives_append.mpr ⟨hops, survives_cons.mpr ⟨hops.last, survives_nil.mpr hend⟩⟩
  cases outcome with
  | openFails => exact survives_nil.mpr h
  | writeFails n => exact hwrites _ _ hlast
  | fdatasyncFails => exact hwrites _ _ hlast
  | renameFails => exact hwrites _ _ hlast
  | succeeds => exact hwrites _ _ hlast

/-- The stores leave what was to be stored. -/
lemma foldl_storeInfo (d : Disk) (info : NodeInfo) :
    (storeInfo info).foldl apply d = { d with fmp := info } := by
  simp only [storeInfo, List.foldl_cons, List.foldl_nil, apply]

/-- Stores to other fields. -/
lemma survives_stores (stores : List (NodeInfo → NodeInfo))
    (hstores : ∀ field ∈ stores, ∀ fmp, (field fmp).snapshot_index = fmp.snapshot_index ∧
      (field fmp).commit_index = fmp.commit_index) (h : d.Covers included command) :
    Survives apply (Covers included command) d (stores.map .store) := by
  induction stores generalizing d with
  | nil => exact survives_nil.mpr h
  | cons field stores ih =>
    refine survives_cons.mpr ⟨h, ih (fun x hx => hstores x (List.mem_cons_of_mem _ hx)) ?_⟩
    obtain ⟨hindex, hcommit⟩ := hstores field List.mem_cons_self d.fmp
    exact h.congr rfl rfl hindex hcommit

/-- The snapshot index is stored before the commit index. -/
lemma survives_storeInfo (h : d.Covers included command)
    (hindex : Covers included command
      { d with fmp := { d.fmp with snapshot_index := info.snapshot_index } })
    (hinfo : Covers included command { d with fmp := info }) :
    Survives apply (Covers included command) d (storeInfo info) := by
  refine survives_cons.mpr ⟨h, survives_cons.mpr ⟨?_, survives_cons.mpr ⟨?_, survives_cons.mpr
    ⟨?_, survives_stores [_, _, _, _, _] ?_ ?_⟩⟩⟩⟩
  · exact h.congr rfl rfl rfl rfl
  · exact hindex.congr rfl rfl rfl rfl
  · exact hindex.congr rfl rfl rfl rfl
  · simp
  · exact hinfo.congr rfl rfl rfl rfl

/-! ### Compaction -/

/-- Unlinking removes the files of these names. -/
lemma foldl_unlink (d : Disk) (names : List SegmentName) :
    ((names.map FileOp.unlink).foldl apply d).files = d.files.filter (·.1 ∉ names) := by
  induction names generalizing d with
  | nil => simp
  | cons name names ih =>
    rw [List.map_cons, List.foldl_cons, ih, apply, List.filter_filter]
    refine List.filter_congr fun file _ => ?_
    simp [Bool.and_comm]

/-- The operations of `CompactWal` are on segments only. -/
lemma compactOps_keeps {files : List SegmentFile} {snapshotIndex : ℕ} {op : FileOp}
    (hop : op ∈ compactOps files snapshotIndex) (s : Disk) :
    (s.apply op).snapshotFile = s.snapshotFile ∧ (s.apply op).fmp = s.fmp := by
  simp only [compactOps, List.mem_append, List.mem_map, List.mem_singleton] at hop
  obtain ((⟨file, -, rfl⟩ | ⟨file, -, rfl⟩) | rfl) | ⟨b, -, rfl⟩ := hop
  · exact ⟨rfl, rfl⟩
  · exact ⟨rfl, rfl⟩
  · exact ⟨rfl, rfl⟩
  · exact ⟨rfl, rfl⟩

/-- What `CompactWal` does until all segments are removed. -/
def removeOps (files : List SegmentFile) (snapshotIndex : ℕ) : List FileOp :=
  (listSegments files).map (fun file => .ftruncate file.1 (readWalSegment snapshotIndex file.2).2) ++
    (listSegments files).map (fun file => .unlink file.1)

/-- `CompactWal` removes before it writes. -/
lemma removeOps_prefix (files : List SegmentFile) (snapshotIndex : ℕ) :
    removeOps files snapshotIndex <+: compactOps files snapshotIndex :=
  (List.prefix_append _ _).trans (List.prefix_append _ _)

/-- The removals leave no segment. -/
lemma foldl_removeOps (d : Disk) (snapshotIndex : ℕ) :
    ((removeOps d.files snapshotIndex).foldl apply d).files = [] := by
  let cuts := (listSegments d.files).map fun file =>
    FileOp.ftruncate file.1 (readWalSegment snapshotIndex file.2).2
  have hnames : ((cuts.foldl apply d).files.map (·.1)) = d.files.map (·.1) := by
    refine foldl_eq (f := fun s : Disk => s.files.map (·.1)) fun s op hop => ?_
    obtain ⟨file, -, rfl⟩ := List.mem_map.mp hop
    show (Wal.modify s.files _ _).map (·.1) = _
    rw [Wal.modify, List.map_map]
    refine List.map_congr_left fun x _ => ?_
    simp only [Function.comp_apply]
    split_ifs <;> rfl
  have hunlink : (listSegments d.files).map (fun file => FileOp.unlink file.1) =
      ((listSegments d.files).map (·.1)).map FileOp.unlink := by
    rw [List.map_map]
    rfl
  rw [removeOps, List.foldl_append, hunlink, foldl_unlink, List.filter_eq_nil_iff]
  intro file hfile
  have hmem : file.1 ∈ d.files.map (·.1) := hnames ▸ List.mem_map_of_mem hfile
  obtain ⟨x, hx, hname⟩ := List.mem_map.mp hmem
  have hlisted : x ∈ listSegments d.files := (List.perm_insertionSort _ _).mem_iff.mpr hx
  have : file.1 ∈ (listSegments d.files).map (·.1) := hname ▸ List.mem_map_of_mem hlisted
  simpa using this

/-- Bytes written to a segment are appended to it. -/
lemma foldl_write (d : Disk) (name : SegmentName) (bytes content : Bytes)
    (h : d.files = [(name, content)]) :
    ((bytes.map (FileOp.write name)).foldl apply d).files = [(name, content ++ bytes)] := by
  induction bytes generalizing d content with
  | nil => rw [List.append_nil, ← h]; rfl
  | cons b bytes ih =>
    have hb : (d.apply (.write name b)).files = [(name, content ++ [b])] := by
      simp [apply, h, Wal.modify]
    rw [List.map_cons, List.foldl_cons, ih _ _ hb, List.append_assoc]
    rfl

/-- A WAL that is written anew is one segment. -/
lemma files_rewriteWalFrom (w : Wal) (firstIndex : ℕ) (logs : List LogEntry) :
    (w.rewriteWalFrom firstIndex logs).files = [(.inprogress firstIndex, walRecords logs)] := by
  have hfold : ∀ (w : Wal) (content : Bytes), w.segmentFirstIndex = firstIndex →
      w.files = [(.inprogress firstIndex, content)] →
      (logs.foldl (fun w log =>
        { w.writeLog log with raftLogsFileSize := w.raftLogsFileSize + log.record.length }) w).files =
        [(.inprogress firstIndex, content ++ walRecords logs)] := by
    induction logs with
    | nil =>
      intro w content _ hfiles
      rw [walRecords_nil, List.append_nil]
      exact hfiles
    | cons log rest ih =>
      intro w content hfirst hfiles
      have hwrite : (w.writeLog log).files = [(.inprogress firstIndex, content ++ log.record)] := by
        simp [Wal.writeLog, Wal.openSegmentName, Wal.modify, hfirst, hfiles]
      rw [List.foldl_cons]
      refine (ih _ (content ++ log.record) ?_ ?_).trans ?_
      · exact hfirst
      · exact hwrite
      · rw [List.append_assoc]
        rfl
  exact hfold _ [] rfl rfl

/-- There is a time at which all segments are removed and the new one is not there. -/
lemma Survives.unlinked {snapshotIndex : ℕ}
    (h : Survives apply (Covers included command) d (compactOps d.files snapshotIndex)) :
    Covers included command { d with files := [] } := by
  have hremoved := removeOps_prefix d.files snapshotIndex
  have hfiles := d.foldl_removeOps snapshotIndex
  have hfile := foldl_eq (f := Disk.snapshotFile) (s := d) fun s op hop =>
    (compactOps_keeps (hremoved.subset hop) s).1
  have hfmp := foldl_eq (f := Disk.fmp) (s := d) fun s op hop =>
    (compactOps_keeps (hremoved.subset hop) s).2
  refine (h _ hremoved).congr hfile.symm hfiles.symm ?_ ?_
  · rw [hfmp]
  · rw [hfmp]

/-- With all committed commands in the snapshot file the log can be removed. -/
lemma survives_compactOps {snapshotIndex : ℕ} (hnonneg : 0 ≤ d.fmp.snapshot_index)
    (hindex : d.fmp.snapshot_index ≤ included d.snapshotFile)
    (hcommit : d.fmp.commit_index ≤ included d.snapshotFile) :
    Survives apply (Covers included command) d (compactOps d.files snapshotIndex) := by
  refine Survives.of_keeps (Q := fun s : Disk => s.snapshotFile = d.snapshotFile ∧ s.fmp = d.fmp)
    ⟨rfl, rfl⟩ (fun s op hop hs => ?_) fun s hs => ?_
  · obtain ⟨hfile, hfmp⟩ := compactOps_keeps hop s
    exact ⟨hfile.trans hs.1, hfmp.trans hs.2⟩
  · apply covers_of_le
    · rw [hs.2]
      exact hnonneg
    · rw [hs.1, hs.2]
      exact hindex
    · rw [hs.1, hs.2]
      exact hcommit

/-- `persistState` when it compacts the log and a commit index is stored. -/
lemma commit_le_of_survives_persistOps (hcompact : (compacted : ℤ) < info.snapshot_index)
    (hpos : 0 < info.commit_index)
    (h : Survives apply (Covers included command) d (persistOps compacted d.files info)) :
    info.commit_index ≤ included d.snapshotFile := by
  rw [persistOps, if_pos hcompact, survives_append, foldl_storeInfo] at h
  exact Covers.commit_le (Survives.unlinked h.2) rfl hpos

/-- `persistState` with a snapshot file that holds all committed commands. -/
lemma survives_persistOps (h : d.Covers included command) (hnonneg : 0 ≤ info.snapshot_index)
    (hindex : info.snapshot_index ≤ included d.snapshotFile)
    (hcommit : d.fmp.commit_index ≤ included d.snapshotFile)
    (hinfo : info.commit_index ≤ included d.snapshotFile) :
    Survives apply (Covers included command) d (persistOps compacted d.files info) := by
  have hstored : Survives apply (Covers included command) d (storeInfo info) :=
    survives_storeInfo h (covers_of_le hnonneg hindex hcommit) (covers_of_le hnonneg hindex hinfo)
  rw [persistOps, survives_append, foldl_storeInfo]
  refine ⟨hstored, ?_⟩
  split_ifs
  · exact survives_compactOps hnonneg hindex hinfo
  · have hlast := hstored.last
    rw [foldl_storeInfo] at hlast
    exact survives_nil.mpr hlast

/-- `persistState` at an unchanged snapshot index that does not compact the log. -/
lemma survives_persistOps_same (h : d.Covers included command)
    (hsame : info.snapshot_index = d.fmp.snapshot_index)
    (hkept : ¬ (compacted : ℤ) < info.snapshot_index)
    (hinfo : Covers included command { d with fmp := { d.fmp with commit_index := info.commit_index } }) :
    Survives apply (Covers included command) d (persistOps compacted d.files info) := by
  rw [persistOps, if_neg hkept, List.append_nil]
  exact survives_storeInfo h (h.congr rfl rfl hsame rfl) (hinfo.congr rfl rfl hsame rfl)

end Disk

/-- What a consistent node has stored is covered. -/
lemma Consistent.covers_stored {included : Bytes → ℤ} {command : ℤ → Bytes} {s : Raft} {compacted : ℕ}
    {d : Disk} (h : Consistent included command s compacted d) :
    d.Covers included command :=
  h.covers.of_commit_le rfl rfl rfl h.commit_index

namespace SnapshotCall

variable {included : Bytes → ℤ} {command : ℤ → Bytes} {s : Raft} {compacted : ℕ} {d : Disk}

/-- The metadata at the end of an accepted call. -/
lemma fmp_snapshot {index : ℤ} {data : Bytes} {t : Raft}
    (haccepted : (SnapshotCall.snapshot index data).Accepted s)
    (ht : s.snapshot index data = .ok t) :
    t.fmp.snapshot_index = index ∧ t.fmp.commit_index = s.commitIndex := by
  obtain ⟨hlt, hle, -⟩ := haccepted
  rw [Raft.snapshot, if_neg (by omega)] at ht
  obtain ⟨e, -, ht⟩ := bind_eq_ok.mp ht
  obtain ⟨logs, -, ht⟩ := bind_eq_ok.mp ht
  split_ifs at ht
  obtain rfl := pure_eq_ok.mp ht
  exact ⟨rfl, Int.max_eq_left hle⟩

/-- An accepted snapshot is stored with the larger commit index. -/
lemma fmp_installSnapshot {args : InstallSnapshotRequest} {t : Raft} {reply : InstallSnapshotResponse}
    (haccepted : (SnapshotCall.installSnapshot args).Accepted s)
    (ht : s.installSnapshot args = .ok (t, reply)) :
    t.fmp.snapshot_index = args.lastsnapshotincludeindex ∧
      t.fmp.commit_index = max s.commitIndex args.lastsnapshotincludeindex := by
  obtain ⟨hterm, hlt⟩ := haccepted
  have hfollow : (s.follow args.term).commitIndex = s.commitIndex ∧
      (s.follow args.term).lastSnapshotIndex = s.lastSnapshotIndex := by
    rw [Raft.follow, Raft.catchUp]
    split_ifs <;> exact ⟨rfl, rfl⟩
  have hnewer : ¬ args.lastsnapshotincludeindex ≤ (s.follow args.term).lastSnapshotIndex := by
    rw [hfollow.2]
    omega
  rw [Raft.installSnapshot, if_neg (by omega)] at ht
  obtain ⟨u, hu, ht⟩ := bind_eq_ok.mp ((if_neg hnewer).symm.trans ht)
  obtain ⟨rfl, -⟩ := Prod.mk.inj (pure_eq_ok.mp ht)
  obtain rfl := Raft.installAccepted_cases hu
  refine ⟨rfl, ?_⟩
  rw [← hfollow.1]
  rfl

/-- The end of an accepted call is survived when the snapshot file holds all committed commands, and
only then. -/
lemma survives_saveOps {files : List SegmentFile} {data : Bytes} {outcome : SaveOutcome} {t : Raft}
    (hfiles : files = d.files) (hbefore : d.Covers included command)
    (hsnapshot : 0 ≤ d.fmp.snapshot_index)
    (hcompact : (compacted : ℤ) < t.fmp.snapshot_index)
    (hlt : d.fmp.snapshot_index < t.fmp.snapshot_index)
    (hdata : included data = t.fmp.snapshot_index)
    (hcommit : t.fmp.snapshot_index ≤ t.fmp.commit_index)
    (hgrows : d.fmp.commit_index ≤ t.fmp.commit_index) :
    Survives Disk.apply (Disk.Covers included command) d
        (saveOps compacted files data outcome (.ok t)) ↔
      t.fmp.commit_index ≤ included (outcome.file data d.snapshotFile) := by
  have hsaved := Disk.saved_saveSnapshot d data outcome
  have hpersist : persistOps compacted files t.fmp =
      persistOps compacted ((saveSnapshot data outcome).foldl Disk.apply d).files t.fmp := by
    rw [hsaved.files, hfiles]
  rw [saveOps, hpersist, survives_append, ← hsaved.snapshotFile]
  refine ⟨fun h => Disk.commit_le_of_survives_persistOps hcompact (by omega) h.2, fun h => ?_⟩
  have hcovers : ∀ d', Disk.Saved d d' (outcome.file data d.snapshotFile) →
      d'.Covers included command := by
    intro d' hd'
    rw [hsaved.snapshotFile] at h
    apply Disk.covers_of_le
    · rw [hd'.fmp]
      exact hsnapshot
    · rw [hd'.fmp, hd'.snapshotFile]
      omega
    · rw [hd'.fmp, hd'.snapshotFile]
      omega
  refine ⟨Disk.survives_saveSnapshot d data outcome hbefore hcovers, ?_⟩
  refine Disk.survives_persistOps (hcovers _ hsaved) (by omega) (by omega) ?_ h
  rw [hsaved.fmp]
  omega

/-- `InstallSnapshot` stores a newer term. -/
lemma survives_newTermOps (h : Consistent included command s compacted d)
    (args : InstallSnapshotRequest) :
    Survives Disk.apply (Disk.Covers included command) d (newTermOps s compacted d.files args) ↔
      (s.currentTerm < args.term → s.lastSnapshotIndex ≤ compacted ∨
        s.commitIndex ≤ included d.snapshotFile) := by
  have hnonneg := h.snapshot_nonneg
  have hindex := h.snapshot_index
  have hfile := h.snapshotFile
  have hcommit := h.commit_index
  have happlied := Int.le_trans h.index.snapshot_le h.index.applied_le
  rw [newTermOps]
  split_ifs with hterm
  · constructor
    · intro hsurvives _
      by_cases hcompact : s.lastSnapshotIndex ≤ compacted
      · exact .inl hcompact
      · by_cases hpos : 0 < s.commitIndex
        · exact .inr (Disk.commit_le_of_survives_persistOps (by exact Int.not_le.mp hcompact)
            (by exact hpos) hsurvives)
        · exact .inr (by omega)
    · intro hsafe
      obtain hkept | hle := hsafe hterm
      · exact Disk.survives_persistOps_same h.covers_stored hindex.symm (Int.not_lt.mpr hkept)
          h.covers
      · refine Disk.survives_persistOps h.covers_stored hnonneg hfile ?_ hle
        omega
  · exact iff_of_true (survives_nil.mpr h.covers_stored) fun hlt => absurd hlt hterm

/-- The files after that. -/
lemma foldl_newTermOps (h : Consistent included command s compacted d)
    (args : InstallSnapshotRequest) :
    let d' := (newTermOps s compacted d.files args).foldl Disk.apply d
    d'.snapshotFile = d.snapshotFile ∧ d'.fmp.snapshot_index = s.lastSnapshotIndex ∧
      d'.fmp.commit_index ≤ s.commitIndex := by
  rw [newTermOps]
  split_ifs with hterm
  · rw [persistOps, List.foldl_append, Disk.foldl_storeInfo]
    split_ifs
    · have hkeeps := fun (t : Disk) (op : FileOp)
        (hop : op ∈ compactOps d.files (s.newTerm args.term).persistState.fmp.snapshot_index.toNat) =>
        Disk.compactOps_keeps hop t
      have hfile := foldl_eq (f := Disk.snapshotFile)
        (s := { d with fmp := (s.newTerm args.term).persistState.fmp })
        fun t op hop => (hkeeps t op hop).1
      have hfmp := foldl_eq (f := Disk.fmp)
        (s := { d with fmp := (s.newTerm args.term).persistState.fmp })
        fun t op hop => (hkeeps t op hop).2
      refine ⟨hfile, ?_, ?_⟩
      · rw [hfmp]
        rfl
      · rw [hfmp]
        exact Int.le_refl _
    · exact ⟨rfl, rfl, Int.le_refl _⟩
  · exact ⟨rfl, h.snapshot_index, h.commit_index⟩

/-- Whatever the files do and wherever the process dies, the snapshot file and the recovered log cover
the stored commit index, exactly when the snapshot file that is there once the metadata is stored
holds all committed commands. -/
theorem survives_ops_iff (h : Consistent included command s compacted d) (call : SnapshotCall)
    (hfolds : call.Folds included) (outcome : SaveOutcome) :
    Survives Disk.apply (Disk.Covers included command) d (call.ops s compacted d outcome) ↔
      call.Safe included s compacted d outcome := by
  have hnonneg := h.snapshot_nonneg
  have hindex := h.snapshot_index
  have hcompacted := h.compacted_le
  have hcommit := h.commit_index
  cases call with
  | snapshot index data =>
    rw [ops, Safe]
    split_ifs with haccepted
    · obtain ⟨t, ht⟩ := h.index.snapshot_ok haccepted.2.2 index data
      obtain ⟨hinfo, hinfo'⟩ := fmp_snapshot haccepted ht
      obtain ⟨hlt, hle, hmax⟩ := haccepted
      have hdata : included data = t.fmp.snapshot_index := hinfo ▸ hfolds
      rw [ht]
      refine (survives_saveOps rfl h.covers_stored ?_ ?_ ?_ hdata ?_ ?_).trans ?_
      iterate 5 omega
      rw [hinfo']
      exact ⟨fun hsafe _ => hsafe, fun hsafe => hsafe ⟨hlt, hle, hmax⟩⟩
    · exact iff_of_true (survives_nil.mpr h.covers_stored) fun haccept => absurd haccept haccepted
  | installSnapshot args =>
    rw [ops, Safe]
    split_ifs with hold haccepted
    · refine iff_of_true (survives_nil.mpr h.covers_stored) ⟨fun hlt => ?_, fun haccept => ?_⟩
      · omega
      · exact absurd haccept.1 (by omega)
    · obtain ⟨t, reply, ht⟩ := h.index.installSnapshot_ok args
      obtain ⟨hinfo, hinfo'⟩ := fmp_installSnapshot haccepted ht
      obtain ⟨hterm, hlt⟩ := haccepted
      obtain ⟨hfile, hindex', hcommit'⟩ := foldl_newTermOps h args
      have hcompacted' : (newTermCompacted s compacted args : ℤ) ≤ s.lastSnapshotIndex := by
        rw [newTermCompacted]
        split_ifs <;> omega
      rw [survives_append, survives_newTermOps h args, ht]
      refine and_congr_right fun hfirst => ?_
      have hcovers := ((survives_newTermOps h args).mpr hfirst).last
      have hdata : included args.data = t.fmp.snapshot_index := hinfo ▸ hfolds
      refine (survives_saveOps rfl hcovers ?_ ?_ ?_ hdata ?_ ?_).trans ?_
      iterate 5 omega
      rw [hinfo', hfile]
      exact ⟨fun hsafe _ => hsafe, fun hsafe => hsafe ⟨hterm, hlt⟩⟩
    · rw [survives_newTermOps h args]
      exact (and_iff_left fun haccept => absurd haccept haccepted).symm

/-- A node that has committed and executed one entry. -/
def executed : Raft :=
  { Raft.init 0 3 { commit_index := 1 } [] [⟨[5], 1, 1⟩] with lastApplied := 1 }

/-- Its files, without a snapshot. -/
def executedDisk : Disk where
  snapshotFile := []
  tmp := none
  fmp := { commit_index := 1 }
  files := [(.inprogress 1, walRecords [⟨[5], 1, 1⟩])]

/-- The length of the snapshot files here is the number of their commands. -/
lemma consistent_executed :
    Consistent (fun file => file.length) (fun _ => [5]) executed 0 executedDisk where
  index :=
    { snapshot_le := by decide
      applied_le := by decide
      commit_le := by decide
      aligned := by
        intro k e hk
        cases k with
        | zero =>
          obtain rfl := Option.some.inj hk
          rfl
        | succ k => cases hk }
  snapshot_nonneg := by decide
  compacted_le := by decide
  snapshot_index := rfl
  commit_index := by decide
  snapshotFile := by decide
  covers := by
    refine ⟨by decide, fun i hpos hi => .inr ?_⟩
    have hi' : i ≤ 1 := hi
    obtain rfl : i = 1 := by omega
    decide

/-- A snapshot of all committed commands that is saved. -/
theorem survives_ops_iff_executed :
    Survives Disk.apply (Disk.Covers (fun file => file.length) fun _ => [5]) executedDisk
      ((SnapshotCall.snapshot 1 [7]).ops executed 0 executedDisk .succeeds) :=
  (survives_ops_iff consistent_executed (.snapshot 1 [7]) rfl .succeeds).mpr fun _ => by decide

/-- The file for the snapshot cannot be opened: the metadata is stored all the same and the log
compacted, and the command is nowhere. -/
theorem exists_lost :
    ∃ included command s compacted d, Consistent included command s compacted d ∧
      ∃ (call : SnapshotCall) (outcome : SaveOutcome), call.Folds included ∧
        ¬ Survives Disk.apply (Disk.Covers included command) d
          (call.ops s compacted d outcome) := by
  refine ⟨_, _, executed, 0, executedDisk, consistent_executed, .snapshot 1 [7], .openFails, rfl, ?_⟩
  intro hsurvives
  have hlost : ∀ d ∈ some (((SnapshotCall.snapshot 1 [7]).ops executed 0 executedDisk
      .openFails).foldl Disk.apply executedDisk),
      1 ≤ d.fmp.commit_index ∧ d.snapshotFile = [] ∧ d.recovered = [] := by decide
  obtain ⟨hcommit, hfile, hrecovered⟩ := hlost _ rfl
  obtain hle | ⟨e, he, -⟩ := hsurvives.last.covered 1 (by decide) hcommit
  · rw [hfile] at hle
    exact absurd hle (by decide)
  · rw [hrecovered] at he
    cases he

end SnapshotCall

end KVCacheRaft
