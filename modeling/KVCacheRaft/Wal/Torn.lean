import KVCacheRaft.Machine.Runs
import KVCacheRaft.Wal.Stores

/-!
# Metadata that are stored field by field

A crash between the stores of `persistState` leaves a mixture of two states in the mapped file, which
`init` reads as one. The `persistState` of `doElection` runs when `m_mtx` is unlocked again: its loads
and stores may come between any two operations of the call that has the mutex then.
-/

namespace KVCacheRaft

open Machine Raft

/-! ### Runs -/

/-- A call that holds `m_mtx`: the node that it has found, and what it has still to do. -/
structure InsideCall where
  call : NodeCall
  entry : Raft
  rest : List CallOp

/-- A `persistState` that runs without `m_mtx`: how many fields it has stored, and what it has loaded for
the next one. -/
structure UnlockedPersist where
  stored : ℕ := 0
  loaded : Option NodeInfo := none

/-- A node through its processes, with the snapshots that it has had. -/
structure NodeHistory where
  node : Raft
  held : List (ℤ × ℕ)
  inside : Option InsideCall := none
  /-- the `persistState` of the last `doElection` -/
  election : Option UnlockedPersist := none

namespace UnlockedPersist

/-- It has loaded the snapshot index, and not stored the commit index. -/
def Amid (p : UnlockedPersist) : Prop :=
  p.stored = 1 ∧ p.loaded.isSome ∨ p.stored = 2 ∨ p.stored = 3

/-- Its next load or store is one of the snapshot index, the snapshot term or the commit index. -/
def AtSnapshot (p : UnlockedPersist) : Prop := p.stored = 1 ∨ p.stored = 2 ∨ p.stored = 3

instance (p : UnlockedPersist) : Decidable p.Amid := inferInstanceAs (Decidable (_ ∨ _))

instance (p : UnlockedPersist) : Decidable p.AtSnapshot := inferInstanceAs (Decidable (_ ∨ _))

/-- What a `persistState` without the lock has loaded is as in `r`. -/
def Agrees (p : UnlockedPersist) (r : Raft) : Prop :=
  ∀ info ∈ p.loaded, (p.stored = 1 → info.snapshot_index = r.lastSnapshotIndex) ∧
    (p.stored = 2 → info.snapshot_term = r.lastSnapshotTerm) ∧
    (p.stored = 3 → r.lastSnapshotIndex ≤ info.commit_index)

/-- A thread that is not amid its stores agrees with any node. -/
lemma agrees_of_not_amid {p : UnlockedPersist} (h : ¬ p.Amid) (r : Raft) :
    p.Agrees r := by
  intro info hinfo
  have hsome : p.loaded.isSome := Option.isSome_of_mem hinfo
  rw [Amid, not_or, not_or, not_and] at h
  obtain ⟨hindex, hterm, hcommit⟩ := h
  exact ⟨fun hk => absurd hsome (hindex hk), fun hk => absurd hk hterm, fun hk => absurd hk hcommit⟩

end UnlockedPersist

namespace NodeHistory

inductive Event where
  /-- a call gets `m_mtx` -/
  | enter (c : NodeCall)
  /-- its next operation, or its return -/
  | advance
  /-- the next load or store of the `persistState` of `doElection` -/
  | persistElection
  /-- the process dies, and a new one starts over the mapped file and whatever other files there are;
  of `info` the fields that tell of the snapshot are those of the file -/
  | crash (info : NodeInfo) (files : List SegmentFile) (snapshotFile : Bytes)

/-- The node that `init` makes of the files. -/
def restarted (s : NodeHistory) (fmp : NodeInfo) (files : List SegmentFile) (snapshotFile : Bytes) :
    Raft :=
  .init s.node.id s.node.peers fmp snapshotFile
    ((Wal.create files).readPersistedLogs fmp.snapshot_index.toNat).2

/-- A call gets `m_mtx`; the timer thread is at its next `doElection` when the last one has returned. -/
def enter (s : NodeHistory) (c : NodeCall) : Option NodeHistory :=
  match c, s.inside, s.election with
  | _, some _, _ => none
  | .doElection, none, some _ => none
  | c, none, _ => (c.run s.node).map fun r' =>
    { s with inside := some ⟨c, s.node, c.ops s.node r'⟩ }

/-- The call goes on. When `doElection` has unlocked `m_mtx`, its `persistState` is to come. -/
def advance (s : NodeHistory) : Option NodeHistory :=
  s.inside.map fun i =>
    match i.rest with
    | op :: rest =>
      { s with node := op.apply s.node, held := s.held ++ op.held, inside := some { i with rest } }
    | [] =>
      match i.call with
      | .doElection => { s with inside := none, election := some {} }
      | _ => { s with inside := none }

/-- The `persistState` of `doElection` loads a field or stores it. -/
def persistElection (s : NodeHistory) : Option NodeHistory :=
  s.election.map fun p =>
    match p.loaded with
    | none => { s with election := some { p with loaded := some s.node.persistState.fmp } }
    | some info =>
      { s with
        node := { s.node with fmp := storeField s.node.fmp info p.stored }
        election := if p.stored + 1 < 9 then some { stored := p.stored + 1 } else none }

def step (s : NodeHistory) : Event → Option NodeHistory
  | .enter c => s.enter c
  | .advance => s.advance
  | .persistElection => s.persistElection
  | .crash info files snapshotFile =>
    if info.snapshot_index = s.node.fmp.snapshot_index ∧ info.snapshot_term = s.node.fmp.snapshot_term ∧
        info.commit_index = s.node.fmp.commit_index then
      some { node := s.restarted info files snapshotFile, held := s.held }
    else none

/-- The node starts for the first time. -/
def first (id peers : ℕ) : NodeHistory where
  node := .init id peers {} [] []
  held := [(0, 0)]

/-- The snapshot of the node is committed, and is one that it has had. -/
def Whole (s : NodeHistory) : Prop :=
  s.node.lastSnapshotIndex ≤ s.node.commitIndex ∧ s.node.lastSnapshot ∈ s.held

instance (s : NodeHistory) : Decidable s.Whole := inferInstanceAs (Decidable (_ ∧ _))

/-- The last `persistState` of a call with a new snapshot is not between the store of the snapshot index
and that of the commit index, unless the commit index that was stored before the call took its snapshot
covers it; nor in front of the store of the snapshot term, unless that does not change or goes back to
an earlier snapshot. -/
def Uncut (s : NodeHistory) : Prop :=
  ∀ i ∈ s.inside, ∀ taken ∈ i.call.taken i.entry,
    (i.rest.length = 7 ∨ i.rest.length = 6 → taken.1 ≤
      -- a request of a newer term has stored all fields before
      if (i.call.newTerm i.entry).isSome then i.entry.commitIndex else i.entry.fmp.commit_index) ∧
    (i.rest.length = 7 →
      i.entry.lastSnapshotTerm = taken.2 ∨ (taken.1, i.entry.lastSnapshotTerm) ∈ s.held)

instance (s : NodeHistory) : Decidable s.Uncut := by
  unfold Uncut
  infer_instance

/-- No call with a new snapshot begins while the `persistState` of `doElection` is between its load of the
snapshot index and its store of the commit index, and none of these loads and stores comes while such a
call has `m_mtx`; and the process does not die where its last `persistState` is cut. -/
def Calm (s : NodeHistory) : Event → Prop
  | .enter c => (c.taken s.node).isSome → ∀ p ∈ s.election, ¬ p.Amid
  | .persistElection =>
    ∀ i ∈ s.inside, (i.call.taken i.entry).isSome → ∀ p ∈ s.election, ¬ p.AtSnapshot
  | .crash _ _ _ => s.Uncut
  | .advance => True

instance (s : NodeHistory) (e : Event) : Decidable (s.Calm e) := by
  unfold Calm
  split <;> infer_instance

/-! ### What holds in a call -/

/-- Two states of a node that differ in the mapped file only. -/
def SameMemory (x y : Raft) : Prop := { x with fmp := y.fmp } = y

/-- An operation does the same to nodes with the same memory. -/
lemma SameMemory.apply {x y : Raft} (h : SameMemory x y) (op : CallOp) :
    SameMemory (op.apply x) (op.apply y) := by
  cases op with
  | write memory settled => rfl
  | store k =>
    rw [SameMemory] at h
    rw [← h]
    rfl

/-- Operations do the same to nodes with the same memory. -/
lemma SameMemory.foldl {x y : Raft} (h : SameMemory x y) (ops : List CallOp) :
    SameMemory (ops.foldl CallOp.apply x) (ops.foldl CallOp.apply y) := by
  induction ops generalizing x y with
  | nil => exact h
  | cons op ops ih => exact ih (h.apply op)

/-- Having the same memory is transitive. -/
lemma SameMemory.trans {x y z : Raft} (h : SameMemory x y) (h' : SameMemory y z) : SameMemory x z := by
  rw [SameMemory] at h h'
  rw [SameMemory, ← h', ← h]

/-- Two mapped files that tell the same of the snapshot. -/
structure SameSnapshot (fmp fmp' : NodeInfo) : Prop where
  index : fmp.snapshot_index = fmp'.snapshot_index
  term : fmp.snapshot_term = fmp'.snapshot_term
  commit : fmp.commit_index = fmp'.commit_index

/-- An operation stores the same snapshot in files that have the same one. -/
lemma SameSnapshot.apply {x y : Raft} (hmemory : SameMemory x y) (h : SameSnapshot x.fmp y.fmp)
    (op : CallOp) : SameSnapshot (op.apply x).fmp (op.apply y).fmp := by
  cases op with
  | write memory settled => exact h
  | store k =>
    have hinfo : x.persistState.fmp = y.persistState.fmp := by
      rw [SameMemory] at hmemory
      rw [← hmemory]
      rfl
    obtain ⟨hindex, hterm, hcommit⟩ := storeField_eq x.fmp x.persistState.fmp k
    obtain ⟨hindex', hterm', hcommit'⟩ := storeField_eq y.fmp y.persistState.fmp k
    refine ⟨?_, ?_, ?_⟩
    · exact hindex.trans (by rw [hinfo, h.index, ← hindex']; rfl)
    · exact hterm.trans (by rw [hinfo, h.term, ← hterm']; rfl)
    · exact hcommit.trans (by rw [hinfo, h.commit, ← hcommit']; rfl)

/-- The members of `x` have the snapshot of `r`, and it is committed. -/
structure Keeps (r x : Raft) : Prop where
  snapshot : x.lastSnapshot = r.lastSnapshot
  commit : r.lastSnapshotIndex ≤ x.commitIndex

/-- The mapped file has the snapshot of `r`, with a commit index that covers it. -/
structure Filed (r : Raft) (fmp : NodeInfo) : Prop where
  index : fmp.snapshot_index = r.lastSnapshotIndex
  term : fmp.snapshot_term = r.lastSnapshotTerm
  commit : r.lastSnapshotIndex ≤ fmp.commit_index

/-- An operation that writes no other snapshot. -/
def Tame (r : Raft) (op : CallOp) : Prop := ∀ memory settled, op = .write memory settled → Keeps r memory

variable {r r' x : Raft} {fmp info : NodeInfo} {op : CallOp}

/-- The file of a sound node has its snapshot. -/
lemma Filed.of_sound (h : r.Sound) : Filed r r.fmp := ⟨h.stored_index, h.stored_term, h.stored_le⟩

/-- A store of what the node has keeps the file. -/
lemma Filed.storeField (h : Filed r fmp) {k : ℕ}
    (hindex : k = 1 → info.snapshot_index = r.lastSnapshotIndex)
    (hterm : k = 2 → info.snapshot_term = r.lastSnapshotTerm)
    (hcommit : k = 3 → r.lastSnapshotIndex ≤ info.commit_index) :
    Filed r (storeField fmp info k) := by
  obtain ⟨heqindex, heqterm, heqcommit⟩ := storeField_eq fmp info k
  refine ⟨?_, ?_, ?_⟩
  · rw [heqindex]
    split_ifs with hk
    · exact hindex hk
    · exact h.index
  · rw [heqterm]
    split_ifs with hk
    · exact hterm hk
    · exact h.term
  · rw [heqcommit]
    split_ifs with hk
    · exact hcommit hk
    · exact h.commit

/-- An operation that writes no other snapshot leaves the one that is there. -/
lemma Tame.apply (hop : Tame r op) (hkeeps : Keeps r x) (hfiled : Filed r x.fmp) :
    Keeps r (op.apply x) ∧ Filed r (op.apply x).fmp := by
  cases op with
  | write memory settled =>
    obtain ⟨hsnapshot, hcommit⟩ := hop memory settled rfl
    exact ⟨⟨hsnapshot, hcommit⟩, hfiled⟩
  | store k =>
    obtain ⟨hindex, hterm⟩ := Prod.mk.inj hkeeps.snapshot
    exact ⟨⟨hkeeps.snapshot, hkeeps.commit⟩,
      hfiled.storeField (fun _ => hindex) (fun _ => hterm) fun _ => hkeeps.commit⟩

/-- Tame operations keep the file. -/
lemma Filed.foldl {ops : List CallOp} (hops : ∀ op ∈ ops, Tame r op) (hkeeps : Keeps r x)
    (hfiled : Filed r x.fmp) : Filed r (ops.foldl CallOp.apply x).fmp := by
  induction ops generalizing x with
  | nil => exact hfiled
  | cons op ops ih =>
    obtain ⟨hkeeps, hfiled⟩ := (hops op List.mem_cons_self).apply hkeeps hfiled
    exact ih (fun op hop => hops op (List.mem_cons_of_mem _ hop)) hkeeps hfiled

/-- A `persistState` is tame. -/
lemma tame_stores (r : Raft) : ∀ op ∈ NodeCall.stores, Tame r op := by
  intro op hop memory settled hwrite
  obtain ⟨k, -, hk⟩ := List.mem_map.mp hop
  rw [hwrite] at hk
  cases hk

/-- The operations for a newer term are tame. -/
lemma tame_newTermOps (h : r.Sound) (c : NodeCall) : ∀ op ∈ c.newTermOps r, Tame r op := by
  intro op hop
  rw [NodeCall.newTermOps] at hop
  split at hop
  · cases hop
  · obtain rfl | hop := List.mem_cons.mp hop
    · rintro memory settled ⟨⟩
      exact ⟨rfl, h.snapshot_le⟩
    · exact tame_stores r op hop

/-- A call without a new snapshot writes none. -/
lemma tame_ops (h : r.Sound) {c : NodeCall} (hr : r'.Sound) (hsame : r'.lastSnapshot = r.lastSnapshot)
    (htaken : c.taken r = none) : ∀ op ∈ c.ops r r', Tame r op := by
  intro op hop
  rw [NodeCall.ops, NodeCall.writes_of_taken htaken, List.append_assoc] at hop
  obtain hop | hop := List.mem_append.mp hop
  · exact tame_newTermOps h c op hop
  obtain hop | hop := List.mem_append.mp hop
  · obtain rfl := List.mem_singleton.mp hop
    rintro memory settled ⟨⟩
    have hindex : r'.lastSnapshotIndex = r.lastSnapshotIndex := congrArg Prod.fst hsame
    exact ⟨hsame, hindex ▸ hr.snapshot_le⟩
  · split_ifs at hop
    · exact tame_stores r op hop
    · cases hop

/-- A call that takes no snapshot: what it has still to do leaves the snapshot, and comes to its
result. -/
structure Keeping (s : NodeHistory) (i : InsideCall) (r' : Raft) : Prop where
  taken : i.call.taken i.entry = none
  tame : ∀ op ∈ i.rest, Tame i.entry op
  keeps : Keeps i.entry s.node
  filed : Filed i.entry s.node.fmp
  result : SameMemory (i.rest.foldl CallOp.apply s.node) r'
  election : ∀ p ∈ s.election, p.Agrees i.entry

/-- A call that takes a snapshot: up to other fields of the mapped file the node is as its operations
alone have made it. -/
structure Taking (s : NodeHistory) (i : InsideCall) (r' : Raft) (before : List CallOp) : Prop where
  taken : i.call.taken i.entry = some r'.lastSnapshot
  ops : i.call.ops i.entry r' = before ++ i.rest
  memory : SameMemory s.node (before.foldl CallOp.apply i.entry)
  snapshot : SameSnapshot s.node.fmp (before.foldl CallOp.apply i.entry).fmp
  held : i.rest.length ≤ 9 → r'.lastSnapshot ∈ s.held
  election : ∀ p ∈ s.election, ¬ p.Amid

/-- What holds between the events. -/
def Inv (s : NodeHistory) : Prop :=
  match s.inside with
  | none => s.node.Sound ∧ s.node.lastSnapshot ∈ s.held ∧ ∀ p ∈ s.election, p.Agrees s.node
  | some i => i.entry.Sound ∧ i.entry.lastSnapshot ∈ s.held ∧ ∃ r', i.call.run i.entry = some r' ∧
    (s.Keeping i r' ∨ ∃ before, s.Taking i r' before)

variable {s t : NodeHistory} {c : NodeCall} {i : InsideCall}

/-- The last operation of a call with a new snapshot in front of its last `persistState`, and what the
operations up to there leave in the mapped file. -/
lemma ops_of_taken (h : r.Sound) (hr : c.run r = some r') (htaken : c.taken r = some r'.lastSnapshot) :
    ∃ front, c.ops r r' = front ++ [.write r' true] ++ NodeCall.stores ∧
      (∀ before, before <+: front ++ [.write r' true] →
        Filed r (before.foldl CallOp.apply r).fmp) ∧
      ((front ++ [.write r' true]).foldl CallOp.apply r).fmp.commit_index =
        if (c.newTerm r).isSome then r.commitIndex else r.fmp.commit_index := by
  have hpersists : c.persists r = true := by
    cases c with
    | snapshot index data =>
      rw [NodeCall.taken] at htaken
      split_ifs at htaken with haccepted
      exact decide_eq_true haccepted
    | installSnapshot args =>
      rw [NodeCall.taken] at htaken
      split_ifs at htaken with haccepted
      exact decide_eq_true haccepted
    | _ => cases htaken
  obtain ⟨init, hinit⟩ := NodeCall.exists_writes r r' c
  have hfront : c.newTermOps r ++ init ++ [.write r' true] = c.newTermOps r ++ c.writes r r' := by
    rw [hinit, List.append_assoc]
  refine ⟨c.newTermOps r ++ init, ?_, fun before hbefore => ?_, ?_⟩
  · rw [hfront, NodeCall.ops, if_pos hpersists]
  · rw [hfront] at hbefore
    have hkeeps : Keeps r r := ⟨rfl, h.snapshot_le⟩
    obtain hshort | ⟨w, rfl⟩ := List.prefix_or_prefix_of_prefix hbefore (List.prefix_append ..)
    · exact Filed.foldl (fun op hop => tame_newTermOps h c op (hshort.subset hop)) hkeeps
        (.of_sound h)
    · rw [List.foldl_append,
        NodeCall.foldl_writes_fmp r r' _ c ((List.prefix_append_right_inj _).mp hbefore)]
      exact Filed.foldl (tame_newTermOps h c) hkeeps (.of_sound h)
  · rw [hfront, List.foldl_append, NodeCall.foldl_writes_fmp r r' _ c List.prefix_rfl,
      NodeCall.foldl_newTermOps]
    cases c.newTerm r <;> rfl

/-- A calm call that begins keeps the invariant. -/
lemma Inv.enter (h : s.Inv) (hcalm : s.Calm (.enter c)) (ht : s.enter c = some t) : t.Inv := by
  have hfree : s.inside = none ∧ ∃ r', c.run s.node = some r' ∧
      t = { s with inside := some ⟨c, s.node, c.ops s.node r'⟩ } := by
    unfold NodeHistory.enter at ht
    split at ht
    · cases ht
    · cases ht
    · rename_i hinside _
      obtain ⟨r', hr, rfl⟩ := Option.map_eq_some_iff.mp ht
      exact ⟨hinside, r', hr, rfl⟩
  obtain ⟨hinside, r', hr, rfl⟩ := hfree
  rw [Inv, hinside] at h
  obtain ⟨hsound, hheld, helection⟩ := h
  refine ⟨hsound, hheld, r', hr, ?_⟩
  obtain ⟨hr', ⟨hsame, htaken⟩ | htaken⟩ := NodeCall.run_cases hsound hr
  · refine .inl ⟨htaken, tame_ops hsound hr' hsame htaken, ⟨rfl, hsound.snapshot_le⟩,
      .of_sound hsound, ?_, helection⟩
    show SameMemory ((c.ops s.node r').foldl CallOp.apply s.node) r'
    rw [NodeCall.foldl_ops hr]
    rfl
  · refine .inr ⟨[], htaken, rfl, rfl, ⟨rfl, rfl, rfl⟩, fun hlen => ?_, fun p hp => ?_⟩
    · -- the last write is still to come
      obtain ⟨front, hops, -⟩ := ops_of_taken hsound hr htaken
      have hlen' : (c.ops s.node r').length ≤ 9 := hlen
      rw [hops, List.length_append, List.length_append] at hlen'
      have hstores : NodeCall.stores.length = 9 := rfl
      have hone : [CallOp.write r' true].length = 1 := rfl
      omega
    · exact hcalm (by rw [htaken]; rfl) p hp

/-- The next operation of a call. -/
lemma Inv.advance_op (h : s.Inv) {op : CallOp} {rest : List CallOp} (hinside : s.inside = some i)
    (hrest : i.rest = op :: rest) :
    Inv { s with node := op.apply s.node, held := s.held ++ op.held, inside := some { i with rest } } := by
  rw [Inv, hinside] at h
  obtain ⟨hsound, hheld, r', hr, h⟩ := h
  refine ⟨hsound, List.mem_append_left _ hheld, r', hr, ?_⟩
  obtain hkeeping | ⟨before, htaking⟩ := h
  · have htame := hkeeping.tame
    have hresult := hkeeping.result
    rw [hrest] at htame hresult
    obtain ⟨hkeeps, hfiled⟩ := (htame op List.mem_cons_self).apply hkeeping.keeps hkeeping.filed
    exact .inl ⟨hkeeping.taken, fun op hop => htame op (List.mem_cons_of_mem _ hop), hkeeps, hfiled,
      hresult, hkeeping.election⟩
  · have hops := htaking.ops
    rw [hrest] at hops
    refine .inr ⟨before ++ [op], htaking.taken, ?_, ?_, ?_, fun hlen => ?_, htaking.election⟩
    · rw [hops, List.append_assoc, List.singleton_append]
    · rw [List.foldl_append]
      exact htaking.memory.apply op
    · rw [List.foldl_append]
      exact htaking.snapshot.apply htaking.memory op
    · have hlen : rest.length ≤ 9 := hlen
      obtain hle | hge := Nat.lt_or_ge rest.length 9
      · exact List.mem_append_left _ (htaking.held (by rw [hrest, List.length_cons]; omega))
      · -- this is the last write
        obtain ⟨front, hfront, -⟩ := ops_of_taken hsound hr htaking.taken
        have hsplit : op :: rest = [op] ++ rest := rfl
        rw [hfront, hsplit, ← List.append_assoc] at hops
        have hstores : NodeCall.stores.length = 9 := rfl
        obtain ⟨hwrite, -⟩ := List.append_inj' hops (by rw [hstores]; omega)
        obtain ⟨-, hop⟩ := List.append_inj' hwrite rfl
        obtain rfl := List.singleton_inj.mp hop
        exact List.mem_append_right _ List.mem_cons_self

/-- The call returns. -/
lemma Inv.leave (h : s.Inv) (hinside : s.inside = some i) (hrest : i.rest = []) :
    s.node.Sound ∧ s.node.lastSnapshot ∈ s.held ∧ ∀ p ∈ s.election, p.Agrees s.node := by
  rw [Inv, hinside] at h
  obtain ⟨hsound, hheld, r', hr, h⟩ := h
  obtain ⟨hr', hcases⟩ := NodeCall.run_cases hsound hr
  obtain hkeeping | ⟨before, htaking⟩ := h
  · have hmemory := hkeeping.result
    rw [hrest, List.foldl_nil, SameMemory] at hmemory
    have hsame : s.node.lastSnapshot = i.entry.lastSnapshot := hkeeping.keeps.snapshot
    obtain ⟨hindex, hterm⟩ := Prod.mk.inj hsame
    obtain ⟨hfiledindex, hfiledterm, hfiledcommit⟩ := hkeeping.filed
    refine ⟨⟨?_, ?_, ?_, ?_, ?_, ?_⟩, hsame ▸ hheld, fun p hp => ?_⟩
    · have haligned := hr'.aligned
      rw [← hmemory] at haligned
      exact haligned
    · rw [hindex]
      exact hsound.nonneg
    · rw [hindex]
      exact hkeeping.keeps.commit
    · rw [hindex]
      exact hfiledcommit
    · rw [hindex, hfiledindex]
    · rw [hterm, hfiledterm]
    · intro info hinfo
      rw [hindex, hterm]
      exact hkeeping.election p hp info hinfo
  · have hops := htaking.ops
    have hmemory := htaking.memory
    have hsnapshot := htaking.snapshot
    rw [hrest, List.append_nil] at hops
    rw [← hops, NodeCall.foldl_ops hr] at hmemory hsnapshot
    rw [SameMemory] at hmemory
    have hheld' := htaking.held (by rw [hrest]; exact Nat.zero_le _)
    obtain ⟨hindex, hterm, hcommit⟩ := hsnapshot
    rw [← hmemory] at hr' hheld'
    refine ⟨⟨hr'.aligned, hr'.nonneg, hr'.snapshot_le, ?_, ?_, ?_⟩, hheld', fun p hp => ?_⟩
    · rw [hcommit]
      exact hr'.stored_le
    · rw [hindex]
      exact hr'.stored_index
    · rw [hterm]
      exact hr'.stored_term
    · exact p.agrees_of_not_amid (htaking.election p hp) s.node

/-- An operation of the call keeps the invariant. -/
lemma Inv.advance (h : s.Inv) (ht : s.advance = some t) : t.Inv := by
  obtain ⟨i, hinside, rfl⟩ := Option.map_eq_some_iff.mp ht
  cases hrest : i.rest with
  | cons op rest => exact h.advance_op hinside hrest
  | nil =>
    obtain ⟨hsound, hheld, helection⟩ := h.leave hinside hrest
    simp only
    split
    · refine ⟨hsound, hheld, fun p hp info hinfo => ?_⟩
      obtain rfl := Option.some.inj hp
      cases hinfo
    · exact ⟨hsound, hheld, helection⟩

/-- The `persistState` of `doElection` loads or stores a field. -/
lemma Inv.persistElection (h : s.Inv) (hcalm : s.Calm .persistElection)
    (ht : s.persistElection = some t) : t.Inv := by
  obtain ⟨p, hp, rfl⟩ := Option.map_eq_some_iff.mp ht
  cases hloaded : p.loaded with
  | none =>
    cases hinside : s.inside with
    | none =>
      rw [Inv, hinside] at h
      obtain ⟨hsound, hheld, -⟩ := h
      simp only [Inv]
      refine ⟨hsound, hheld, fun q hq info hinfo => ?_⟩
      obtain rfl := Option.some.inj hq
      obtain rfl := Option.some.inj hinfo
      exact ⟨fun _ => rfl, fun _ => rfl, fun _ => hsound.snapshot_le⟩
    | some i =>
      rw [Inv, hinside] at h
      obtain ⟨hsound, hheld, r', hr, h⟩ := h
      simp only [Inv]
      refine ⟨hsound, hheld, r', hr, ?_⟩
      obtain hkeeping | ⟨before, htaking⟩ := h
      · refine .inl { hkeeping with election := fun q hq info hinfo => ?_ }
        obtain rfl := Option.some.inj hq
        obtain rfl := Option.some.inj hinfo
        obtain ⟨hindex, hterm⟩ := Prod.mk.inj hkeeping.keeps.snapshot
        exact ⟨fun _ => hindex, fun _ => hterm, fun _ => hkeeping.keeps.commit⟩
      · refine .inr ⟨before, { htaking with election := fun q hq hamid => ?_ }⟩
        obtain rfl := Option.some.inj hq
        have hnot := hcalm i hinside (by rw [htaking.taken]; rfl) p hp
        exact hnot (hamid.imp_left fun hone => hone.1)
  | some info =>
    have hnew : ∀ q ∈ (if p.stored + 1 < 9 then some ({ stored := p.stored + 1 } : UnlockedPersist)
        else none), q = { stored := p.stored + 1 } := by
      intro q hq
      split_ifs at hq
      · exact (Option.some.inj hq).symm
      · cases hq
    have hmemory : SameMemory { s.node with fmp := storeField s.node.fmp info p.stored } s.node := rfl
    cases hinside : s.inside with
    | none =>
      rw [Inv, hinside] at h
      obtain ⟨hsound, hheld, hagrees⟩ := h
      obtain ⟨hindex, hterm, hcommit⟩ := hagrees p hp info hloaded
      obtain ⟨hfiledindex, hfiledterm, hfiledcommit⟩ :=
        (Filed.of_sound hsound).storeField hindex hterm hcommit
      simp only [Inv]
      refine ⟨⟨hsound.aligned, hsound.nonneg, hsound.snapshot_le, hfiledcommit, hfiledindex,
        hfiledterm⟩, hheld, fun q hq info' hinfo => ?_⟩
      obtain rfl := hnew q hq
      cases hinfo
    | some i =>
      rw [Inv, hinside] at h
      obtain ⟨hsound, hheld, r', hr, h⟩ := h
      simp only [Inv]
      refine ⟨hsound, hheld, r', hr, ?_⟩
      obtain hkeeping | ⟨before, htaking⟩ := h
      · obtain ⟨hindex, hterm, hcommit⟩ := hkeeping.election p hp info hloaded
        refine .inl ⟨hkeeping.taken, hkeeping.tame, ⟨hkeeping.keeps.snapshot, hkeeping.keeps.commit⟩,
          hkeeping.filed.storeField hindex hterm hcommit,
          (hmemory.foldl i.rest).trans hkeeping.result, fun q hq info' hinfo => ?_⟩
        obtain rfl := hnew q hq
        cases hinfo
      · have hnot := hcalm i hinside (by rw [htaking.taken]; rfl) p hp
        rw [UnlockedPersist.AtSnapshot, not_or, not_or] at hnot
        obtain ⟨hone, htwo, hthree⟩ := hnot
        obtain ⟨hindex, hterm, hcommit⟩ := storeField_eq s.node.fmp info p.stored
        rw [if_neg hone] at hindex
        rw [if_neg htwo] at hterm
        rw [if_neg hthree] at hcommit
        obtain ⟨hsameindex, hsameterm, hsamecommit⟩ := htaking.snapshot
        refine .inr ⟨before, htaking.taken, htaking.ops, hmemory.trans htaking.memory,
          ⟨hindex.trans hsameindex, hterm.trans hsameterm, hcommit.trans hsamecommit⟩, htaking.held,
          fun q hq hamid => ?_⟩
        obtain rfl := hnew q hq
        obtain ⟨-, hsome⟩ | htwo' | hthree' := hamid
        · cases hsome
        · exact hone (Nat.succ.inj htwo')
        · exact htwo (Nat.succ.inj hthree')

/-- What is in the mapped file: a snapshot that is committed, or, in the last `persistState` of a call that
takes a snapshot, what the stores until then have made of the old snapshot. -/
lemma Inv.stored (h : s.Inv) :
    (∃ r : Raft, 0 ≤ r.lastSnapshotIndex ∧ r.lastSnapshot ∈ s.held ∧ Filed r s.node.fmp ∧ s.Uncut) ∨
    ∃ (i : InsideCall) (r' : Raft) (k : ℕ), s.inside = some i ∧
      i.call.taken i.entry = some r'.lastSnapshot ∧
      i.entry.Sound ∧ r'.Sound ∧ i.entry.lastSnapshot ∈ s.held ∧ r'.lastSnapshot ∈ s.held ∧
      i.rest.length + k = 9 ∧
      s.node.fmp.snapshot_index = (if k < 2 then i.entry.lastSnapshotIndex else r'.lastSnapshotIndex) ∧
      s.node.fmp.snapshot_term = (if k < 3 then i.entry.lastSnapshotTerm else r'.lastSnapshotTerm) ∧
      s.node.fmp.commit_index = (if k < 4 then
        if (i.call.newTerm i.entry).isSome then i.entry.commitIndex else i.entry.fmp.commit_index
        else r'.commitIndex) := by
  cases hinside : s.inside with
  | none =>
    rw [Inv, hinside] at h
    obtain ⟨hsound, hheld, -⟩ := h
    refine .inl ⟨s.node, hsound.nonneg, hheld, .of_sound hsound, fun i hi => ?_⟩
    rw [hinside] at hi
    cases hi
  | some i =>
    rw [Inv, hinside] at h
    obtain ⟨hsound, hheld, r', hr, hkeeping | ⟨before, htaking⟩⟩ := h
    · refine .inl ⟨i.entry, hsound.nonneg, hheld, hkeeping.filed, fun j hj taken htaken => ?_⟩
      rw [hinside] at hj
      obtain rfl := Option.some.inj hj
      rw [hkeeping.taken] at htaken
      cases htaken
    · obtain ⟨front, hops, hfront, hcommit⟩ := ops_of_taken hsound hr htaking.taken
      obtain ⟨hsameindex, hsameterm, hsamecommit⟩ := htaking.snapshot
      obtain ⟨done, rfl, hstores⟩ | ⟨left, hfrontier, hrest⟩ :=
        List.append_eq_append_iff.mp (hops.symm.trans htaking.ops)
      · -- in the last `persistState`
        have hlen : done.length + i.rest.length = 9 := by
          rw [← List.length_append, ← hstores]
          rfl
        have hdone : done = NodeCall.stores.take done.length := by rw [hstores, List.take_left]
        obtain ⟨x, hx⟩ : ∃ x, x = (front ++ [CallOp.write r' true]).foldl CallOp.apply i.entry :=
          ⟨_, rfl⟩
        have hfiled := hfront _ List.prefix_rfl
        obtain ⟨hindex, hterm, hlast⟩ := NodeCall.foldl_take_stores x (k := done.length) (by omega)
        rw [List.foldl_append, ← hx, hdone] at hsameindex hsameterm hsamecommit
        rw [← hx] at hfiled hcommit
        have hwritten : x = { r' with fmp := x.fmp } := by
          rw [hx, List.foldl_append]
          rfl
        have hxindex : x.lastSnapshotIndex = r'.lastSnapshotIndex := by rw [hwritten]
        have hxterm : x.lastSnapshotTerm = r'.lastSnapshotTerm := by rw [hwritten]
        have hxcommit : x.commitIndex = r'.commitIndex := by rw [hwritten]
        rw [hfiled.index, hxindex] at hindex
        rw [hfiled.term, hxterm] at hterm
        rw [hcommit, hxcommit] at hlast
        exact .inr ⟨i, r', done.length, rfl, htaking.taken, hsound, (NodeCall.run_cases hsound hr).1,
          hheld, htaking.held (by omega), by omega, hsameindex.trans hindex, hsameterm.trans hterm,
          hsamecommit.trans hlast⟩
      · -- nothing of the snapshot is stored
        obtain ⟨hindex, hterm, hle⟩ := hfront before ⟨left, hfrontier.symm⟩
        refine .inl ⟨i.entry, hsound.nonneg, hheld,
          ⟨hsameindex.trans hindex, hsameterm.trans hterm, hsamecommit ▸ hle⟩, fun j hj taken _ => ?_⟩
        rw [hinside] at hj
        obtain rfl := Option.some.inj hj
        have hlen : 9 ≤ i.rest.length := by
          rw [hrest, List.length_append]
          exact Nat.le_add_left _ _
        exact ⟨fun hcut => by omega, fun hcut => by omega⟩

/-- What the next process reads is whole just when the process does not die in the store of a new
snapshot. -/
lemma Inv.whole_iff (h : s.Inv) {files : List SegmentFile} {snapshotFile : Bytes}
    (ht : s.step (.crash info files snapshotFile) = some t) : t.Whole ↔ s.Uncut := by
  obtain ⟨⟨hindex, hterm, hcommit⟩, ht⟩ := Option.ite_none_right_eq_some.mp ht
  obtain rfl := Option.some.inj ht
  have hwhole : Whole { node := s.restarted info files snapshotFile, held := s.held } ↔
      info.snapshot_index ≤ info.commit_index ∧ (info.snapshot_index, info.snapshot_term) ∈ s.held :=
    Iff.rfl
  rw [hwhole, hindex, hterm, hcommit]
  obtain ⟨r, -, hheld, ⟨hfindex, hfterm, hle⟩, huncut⟩ |
    ⟨i, r', k, hinside, htaken, hsound, hsound', hheld, hheld', hk, hi, htm, hc⟩ := h.stored
  · refine iff_of_true ⟨?_, ?_⟩ huncut
    · rw [hfindex]
      exact hle
    · rw [hfindex, hfterm]
      exact hheld
  · generalize hbase : (if (i.call.newTerm i.entry).isSome then i.entry.commitIndex
      else i.entry.fmp.commit_index) = base at hc
    have hbasele : i.entry.lastSnapshotIndex ≤ base := by
      rw [← hbase]
      split_ifs
      · exact hsound.snapshot_le
      · exact hsound.stored_le
    have huncut : s.Uncut ↔ (k = 2 ∨ k = 3 → r'.lastSnapshotIndex ≤ base) ∧
        (k = 2 → i.entry.lastSnapshotTerm = r'.lastSnapshotTerm ∨
          (r'.lastSnapshotIndex, i.entry.lastSnapshotTerm) ∈ s.held) := by
      have hseven : i.rest.length = 7 ↔ k = 2 := by omega
      have hsix : i.rest.length = 6 ↔ k = 3 := by omega
      rw [Uncut, hinside]
      refine ⟨fun h => ?_, fun h j hj taken hmem => ?_⟩
      · have h := h i rfl _ htaken
        rw [hseven, hsix, hbase] at h
        exact h
      · obtain rfl := Option.some.inj hj
        rw [htaken] at hmem
        obtain rfl := Option.some.inj hmem
        rw [hseven, hsix, hbase]
        exact h
    have hle' : r'.lastSnapshotIndex ≤ r'.commitIndex := hsound'.snapshot_le
    rw [huncut, hi, htm, hc]
    by_cases hfour : 4 ≤ k
    · -- all fields of the new snapshot are stored
      rw [if_neg (by omega), if_neg (by omega), if_neg (by omega)]
      exact iff_of_true ⟨hle', hheld'⟩ ⟨fun _ => by omega, fun _ => by omega⟩
    rw [if_pos (Nat.not_le.mp hfour)]
    by_cases hthree : k = 3
    · rw [if_neg (by omega), if_neg (by omega)]
      exact ⟨fun h => ⟨fun _ => h.1, fun _ => by omega⟩, fun h => ⟨h.1 (.inr hthree), hheld'⟩⟩
    by_cases htwo : k = 2
    · rw [if_neg (by omega), if_pos (by omega)]
      refine ⟨fun h => ⟨fun _ => h.1, fun _ => .inr h.2⟩, fun h => ⟨h.1 (.inl htwo), ?_⟩⟩
      obtain hsame | hmem := h.2 htwo
      · rw [hsame]
        exact hheld'
      · exact hmem
    · -- nothing of the snapshot is stored
      rw [if_pos (by omega), if_pos (by omega)]
      exact iff_of_true ⟨hbasele, hheld⟩ ⟨fun _ => by omega, fun _ => by omega⟩

/-- The stored snapshot index is not negative. -/
lemma Inv.stored_nonneg (h : s.Inv) : 0 ≤ s.node.fmp.snapshot_index := by
  obtain ⟨r, hnonneg, -, ⟨hindex, -, -⟩, -⟩ |
    ⟨i, r', k, -, -, hsound, hsound', -, -, -, hindex, -⟩ := h.stored
  · rw [hindex]
    exact hnonneg
  · rw [hindex]
    split_ifs
    · exact hsound.nonneg
    · exact hsound'.nonneg

/-- A calm event keeps it. -/
lemma Inv.step (h : s.Inv) {e : Event} (hcalm : s.Calm e) (ht : s.step e = some t) : t.Inv := by
  cases e with
  | enter c => exact h.enter hcalm ht
  | advance => exact h.advance ht
  | persistElection => exact h.persistElection hcalm ht
  | crash info files snapshotFile =>
    obtain ⟨hle, hheld⟩ := (h.whole_iff ht).mpr hcalm
    obtain ⟨⟨hindex, -, -⟩, ht⟩ := Option.ite_none_right_eq_some.mp ht
    obtain rfl := Option.some.inj ht
    have hnonneg : 0 ≤ info.snapshot_index := hindex ▸ h.stored_nonneg
    refine ⟨⟨?_, hnonneg, hle, hle, rfl, rfl⟩, hheld, fun p hp => by cases hp⟩
    have haligned := aligned_replayEntries info.snapshot_index.toNat
      ((Wal.create files).readWalSegments info.snapshot_index.toNat).2
    rw [Int.toNat_of_nonneg hnonneg] at haligned
    exact haligned

/-- The invariant holds of the first process. -/
lemma inv_first (id peers : ℕ) : (first id peers).Inv :=
  ⟨⟨Aligned.nil, Int.le_refl _, Int.le_refl _, Int.le_refl _, rfl, rfl⟩, List.mem_cons_self,
    fun _ hp => by cases hp⟩

/-- In every run of a node through its processes in which no `persistState` of an election gets between the
operations of a call with a new snapshot, and no process dies in the store of one, what the next process
reads is whole: the snapshot index is not above the commit index, and index and term are those of a
snapshot that the node has had. With one more crash it is so just when that is not in the store of a new
snapshot either. -/
theorem metadata_whole {id peers : ℕ} (hrun : Run step Calm (first id peers) s)
    {info : NodeInfo} {files : List SegmentFile} {snapshotFile : Bytes}
    (ht : s.step (.crash info files snapshotFile) = some t) : t.Whole ↔ s.Uncut := by
  have hinv := hrun.invariant (I := Inv) (fun _ _ _ h hcalm hstep => h.step hcalm hstep)
    (inv_first id peers)
  exact hinv.whole_iff ht

/-- A call of so many operations, from beginning to end. -/
def calling (c : NodeCall) (ops : ℕ) : List Event := .enter c :: List.replicate (ops + 1) .advance

/-- Node 0 of three becomes leader of term 1 and commits an entry, which the file does not tell. -/
def committing : List Event :=
  calling .doElection 1 ++ List.replicate 18 .persistElection ++
    calling (.handleRequestVoteResponse ⟨1, 0, 0, 0⟩ ⟨1, true, .normal⟩ 1) 10 ++
    calling (.start [5]) 10 ++ calling (.onLogStable true 1) 10 ++
    calling (.handleAppendEntries 1 ⟨1, 0, 0, 0, [⟨[5], 1, 1⟩], 0⟩ ⟨1, true, -100⟩) 1

/-- A snapshot up to some of its operations, of which the first five are writes to the members. -/
def snapshotting (ops : ℕ) : List Event := .enter (.snapshot 1 []) :: List.replicate ops .advance

/-- The commit index is stored with the next entry, and the process dies in the snapshot, in front of the
store of the commit index. -/
theorem metadata_whole_stored :
    ∃ s t : NodeHistory, Run step Calm (first 0 3) s ∧
      s.step (.crash { snapshot_index := 1, snapshot_term := 1, commit_index := 1 } [] []) = some t ∧
      t.Whole := by
  have hruns : ∃ s ∈ runIf step Calm (first 0 3)
        (committing ++ calling (.start [6]) 10 ++ snapshotting 8),
      s.Uncut ∧
      ∃ t ∈ s.step (.crash { snapshot_index := 1, snapshot_term := 1, commit_index := 1 } [] []),
        t.held ≠ [] := by decide +kernel
  obtain ⟨s, hrun, huncut, t, ht, -⟩ := exists_run_of_runIf hruns
  exact ⟨s, t, hrun, ht, (metadata_whole hrun ht).mpr huncut⟩

/-- The process dies behind the store of the snapshot index: the next one reads index 1 with term 0, and
commit index 0. -/
theorem exists_torn :
    ∃ s t : NodeHistory, Run step (fun _ _ => True) (first 0 3) s ∧
      s.step (.crash { snapshot_index := 1 } [] []) = some t ∧ ¬ t.Whole ∧
      t.node.commitIndex < t.node.lastSnapshotIndex ∧ t.node.lastSnapshot ∉ t.held := by
  have hruns : ∃ s ∈ runIf step (fun _ _ => True) (first 0 3) (committing ++ snapshotting 7),
      ∃ t ∈ s.step (.crash { snapshot_index := 1 } [] []), ¬ t.Whole ∧
      t.node.commitIndex < t.node.lastSnapshotIndex ∧ t.node.lastSnapshot ∉ t.held := by decide +kernel
  obtain ⟨s, hrun, t, ht, htorn⟩ := exists_run_of_runIf hruns
  exact ⟨s, t, hrun, ht, htorn⟩

/-- The `persistState` of an election loads the snapshot index in front of a snapshot and stores it behind
it: the next process reads index 0 with the term of the new snapshot, though no call was cut. -/
example :
    ∃ s t : NodeHistory, Run step (fun _ _ => True) (first 0 3) s ∧ s.Uncut ∧
      s.step (.crash { snapshot_term := 1, commit_index := 1 } [] []) = some t ∧ ¬ t.Whole := by
  have hruns : ∃ s ∈ runIf step (fun _ _ => True) (first 0 3)
        (calling (.appendEntries ⟨1, 1, 0, 0, [⟨[5], 1, 1⟩], 1⟩) 1 ++
          calling (.appendEntriesStable ⟨1, 1, 0, 0, [⟨[5], 1, 1⟩], 1⟩ [⟨0, true, ⟨[5], 1, 1⟩⟩] true) 10 ++
          calling .doElection 1 ++ List.replicate 3 .persistElection ++
          calling (.snapshot 1 []) 14 ++ [.persistElection]),
      s.Uncut ∧ ∃ t ∈ s.step (.crash { snapshot_term := 1, commit_index := 1 } [] []), ¬ t.Whole := by
    decide +kernel
  obtain ⟨s, hrun, huncut, t, ht, htorn⟩ := exists_run_of_runIf hruns
  exact ⟨s, t, hrun, huncut, ht, htorn⟩

end NodeHistory

end KVCacheRaft
