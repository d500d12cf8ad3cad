import KVCacheRaft.Raft.Snapshot

/-!
# The two mutexes of a node

`raft::m_mtx` and `Persister::m_mtx`, the threads that run the functions of `raft.cc`, and the thread
that writes the WAL. A thread waits, takes, holds and releases; between two such moments it does what
the function does under its locks. `persistState` comes to `CompactWal`, which takes
`Persister::m_mtx`, when the snapshot index has moved above `m_compactedSnapshotIndex`; the writer
runs the callbacks of `Start` under `Persister::m_mtx`, and each of them takes `raft::m_mtx`. What
the files give back and when a sync is due is left open.
-/

namespace KVCacheRaft

/-! ### What is done under `raft::m_mtx` -/

/-- A function that takes `raft::m_mtx`, with its arguments. -/
inductive Task where
  | start (command : Bytes)
  | snapshot (index : ℤ) (data : Bytes)
  | installSnapshot (args : InstallSnapshotRequest)
  | appendEntries (request : AppendEntriesArgs)
  /-- `AppendEntries` from the second `lock.lock()` on -/
  | appendEntriesStable (request : AppendEntriesArgs) (pending : List PendingLogWrite)
    (stable : Bool)
  | requestVote (request : RequestVoteArgs)
  | doElection
  | handleRequestVoteResponse (args : RequestVoteArgs) (reply : RequestVoteReply) (votedNum : ℕ)
  | handleAppendEntries (server : ℕ) (args : AppendEntriesArgs) (reply : AppendEntriesReply)
  | leaderSendSnapShotHandler (args : InstallSnapshotRequest) (reply : InstallSnapshotResponse)
    (i : ℕ)
  | applierTicker

/-- Whether a thread can call it: the second part of `AppendEntries` comes behind the first. -/
def Task.isCall : Task → Bool
  | .appendEntriesStable _ _ _ => false
  | _ => true

/-- What a function goes on with once it has released `raft::m_mtx`. -/
inductive After where
  | done
  /-- `Start` gives its entry to the writer -/
  | appendLogAsync (index : ℤ)
  /-- `AppendEntries` gives its entries to the writer and waits for them -/
  | appendLogAndWaitStable (request : AppendEntriesArgs) (pending : List PendingLogWrite)
  /-- the `DeferClass` of `doElection`, which outlives the lock -/
  | persistState

/-- A function under `raft::m_mtx`: the node it leaves, the snapshot index at each of its calls of
`persistState`, and what comes after. -/
structure Section where
  node : Raft
  saves : List ℤ
  after : After

/-- The calls of `persistState` by `RequestVote`. -/
def Raft.requestVoteSaves (r : Raft) (request : RequestVoteArgs) : List ℤ :=
  if request.term < r.currentTerm then []
  else
    (if request.term > r.currentTerm then [r.lastSnapshotIndex] else []) ++
      if r.upToDate request then [r.lastSnapshotIndex] else []

/-- The calls of `persistState` by `InstallSnapshot`. -/
def Raft.installSnapshotSaves (r : Raft) (args : InstallSnapshotRequest) : List ℤ :=
  if args.term < r.currentTerm then []
  else
    (if args.term > r.currentTerm then [r.lastSnapshotIndex] else []) ++
      if args.lastsnapshotincludeindex ≤ r.lastSnapshotIndex then []
      else [args.lastsnapshotincludeindex]

/-- The calls of `persistState` by `handleRequestVoteResponse`: when the reply has a later term, and
when the vote makes the node leader. -/
def Raft.handleRequestVoteResponseSaves (r : Raft) (args : RequestVoteArgs) (reply : RequestVoteReply)
    (votedNum : ℕ) : List ℤ :=
  if reply.term > r.currentTerm then [r.lastSnapshotIndex]
  else if reply.term < r.currentTerm ∨ r.state ≠ .candidate ∨ args.term ≠ r.currentTerm ∨
    reply.votegranted = false then []
  else if votedNum + 1 ≥ r.peers / 2 + 1 then [r.lastSnapshotIndex] else []

/-- A function under `raft::m_mtx`. -/
def Task.section (r : Raft) : Task → Except Fault Section
  | .start command => do
    match ← r.start command with
    | none => return ⟨r, [], .done⟩
    | some (r', entry) => return ⟨r', [r.lastSnapshotIndex], .appendLogAsync entry.logindex⟩
  | .snapshot index data => do
    let saves := if r.lastSnapshotIndex ≥ index ∨ index > r.commitIndex then [] else [index]
    return ⟨← r.snapshot index data, saves, .done⟩
  | .installSnapshot args => do
    let (r', _) ← r.installSnapshot args
    return ⟨r', r.installSnapshotSaves args, .done⟩
  | .appendEntries request => do
    match ← r.appendEntries request with
    | (r', .replied _) =>
      let saves := if request.term < r.currentTerm then [] else [r.lastSnapshotIndex]
      return ⟨r', saves, .done⟩
    | (r', .unlocked pending) => return ⟨r', [], .appendLogAndWaitStable request pending⟩
  | .appendEntriesStable request pending stable => do
    let (r', _) ← r.appendEntriesStable request pending stable
    return ⟨r', [r.lastSnapshotIndex], .done⟩
  | .requestVote request => return ⟨(r.requestVote request).1, r.requestVoteSaves request, .done⟩
  | .doElection =>
    match r.doElection with
    | none => return ⟨r, [], .done⟩
    | some (r', _) => return ⟨r', [], .persistState⟩
  | .handleRequestVoteResponse args reply votedNum =>
    return ⟨(r.handleRequestVoteResponse args reply votedNum).1,
      r.handleRequestVoteResponseSaves args reply votedNum, .done⟩
  | .handleAppendEntries server args reply => do
    return ⟨← r.handleAppendEntries server args reply, [], .done⟩
  | .leaderSendSnapShotHandler args reply i =>
    let saves :=
      if r.state = .leader ∧ r.currentTerm = args.term ∧ reply.term > r.currentTerm then
        [r.lastSnapshotIndex]
      else []
    return ⟨r.leaderSendSnapShotHandler args reply i, saves, .done⟩
  | .applierTicker => do
    if r.lastApplied < r.commitIndex then return ⟨(← r.applierTicker).1, [], .done⟩
    else return ⟨r, [], .done⟩

/-! ### Threads -/

/-- A thread: the writer, or one that calls the functions. -/
inductive Thread where
  | writer
  | caller (t : ℕ)
deriving DecidableEq

/-- Where a thread that calls the functions is. `rest` is what is left to do under `raft::m_mtx`,
and none when that is not held. -/
inductive Phase where
  | idle
  /-- waits for `raft::m_mtx` -/
  | wantRaft (task : Task)
  /-- holds `raft::m_mtx` -/
  | inRaft (saves : List ℤ) (after : After)
  /-- waits for `Persister::m_mtx` in `CompactWal(index)` -/
  | wantWal (rest : Option (List ℤ × After)) (index : ℤ)
  /-- holds `Persister::m_mtx` in `CompactWal(index)` -/
  | inWal (rest : Option (List ℤ × After)) (index : ℤ)
  /-- has `persistState` to run without a lock -/
  | deferred
  /-- waits for the writer in `AppendLogAndWaitStable` -/
  | waiting (request : AppendEntriesArgs) (pending : List PendingLogWrite)

/-- A batch in the queue of the writer. -/
inductive Batch where
  | waiter (t : ℕ)
  | callback (index : ℤ)

/-- Where the writer is. -/
inductive Writer where
  /-- in `timeOutPop` -/
  | popping
  /-- waits for `Persister::m_mtx` -/
  | wantWal (first : Option Batch)
  /-- holds it and has written; `failed` when a write failed -/
  | inWal (failed : Bool)
  /-- holds it in `NotifyCallbacks(callbacks, ok)` -/
  | notifying (ok : Bool)
  /-- holds it and waits for `raft::m_mtx` in `onLogStable(ok, index)` -/
  | wantRaft (ok : Bool) (index : ℤ)
  /-- holds both in `onLogStable` -/
  | inRaft (ok : Bool) (saves : List ℤ)
  /-- holds both, and waits for `Persister::m_mtx` in `CompactWal(index)` -/
  | wantWalAgain (ok : Bool) (index : ℤ)

/-- The threads of a node. -/
structure Process where
  threads : ℕ
  node : Raft
  /-- `m_compactedSnapshotIndex` -/
  compacted : ℤ
  raftMutex : Option Thread
  walMutex : Option Thread
  phase : ℕ → Phase
  writer : Writer
  queue : List Batch
  waiters : List ℕ
  callbacks : List ℤ

/-- A thread calls a function, a thread goes on, or the writer does: `failing` is the batch of the
group whose write fails, if one does, and `sync` the result of the `fdatasync`, if one is due. -/
inductive Move where
  | call (t : ℕ) (task : Task)
  | thread (t : ℕ)
  | writer (failing : Option ℕ) (sync : Option Bool)

namespace Process

/-- The threads of a node that has run `init`. -/
def initial (threads : ℕ) (node : Raft) : Process where
  threads
  node
  compacted := 0
  raftMutex := none
  walMutex := none
  phase _ := .idle
  writer := .popping
  queue := []
  waiters := []
  callbacks := []

/-- A thread gets to a phase. -/
def goto (s : Process) (t : ℕ) (p : Phase) : Process :=
  { s with phase := Function.update s.phase t p }

/-- The release of `raft::m_mtx`, and what comes after. -/
def release (s : Process) (t : ℕ) : After → Process
  | .done => { s with raftMutex := none }.goto t .idle
  | .appendLogAsync index =>
    { s with raftMutex := none, queue := s.queue ++ [Batch.callback index] }.goto t .idle
  | .persistState => { s with raftMutex := none }.goto t .deferred
  | .appendLogAndWaitStable request pending =>
    if pending = [] then
      { s with raftMutex := none }.goto t (.wantRaft (.appendEntriesStable request [] true))
    else
      { s with raftMutex := none, queue := s.queue ++ [Batch.waiter t] }.goto t (.waiting request pending)

/-- A thread goes on. -/
def threadStep (s : Process) (t : ℕ) : Option Process :=
  match s.phase t with
  | .idle | .waiting _ _ => none
  | .wantRaft task =>
    match s.raftMutex, task.section s.node with
    | none, .ok c =>
      some ({ s with raftMutex := some (.caller t), node := c.node }.goto t (.inRaft c.saves c.after))
    | _, _ => none
  | .inRaft [] after => some (s.release t after)
  | .inRaft (index :: saves) after =>
    if index > s.compacted then some (s.goto t (.wantWal (some (saves, after)) index))
    else some (s.goto t (.inRaft saves after))
  | .deferred =>
    let s := { s with node := s.node.persistState }
    if s.node.lastSnapshotIndex > s.compacted then
      some (s.goto t (.wantWal none s.node.lastSnapshotIndex))
    else some (s.goto t .idle)
  | .wantWal rest index =>
    match s.walMutex with
    | none => some ({ s with walMutex := some (.caller t) }.goto t (.inWal rest index))
    | some _ => none
  | .inWal (some (saves, after)) index =>
    some ({ s with walMutex := none, compacted := index }.goto t (.inRaft saves after))
  | .inWal none index => some ({ s with walMutex := none, compacted := index }.goto t .idle)

/-- The writer takes over the waiters and the callbacks of a group of batches. -/
def gather (s : Process) : List Batch → Process
  | [] => s
  | .waiter t :: group => { s with waiters := s.waiters ++ [t] }.gather group
  | .callback index :: group => { s with callbacks := s.callbacks ++ [index] }.gather group

/-- `NotifyWaiters`: the threads go on with the second part of `AppendEntries`. -/
def notifyWaiters (s : Process) (ok : Bool) : Process :=
  { s with
    waiters := []
    phase := fun t =>
      match s.phase t with
      | .waiting request pending =>
        if t ∈ s.waiters then .wantRaft (.appendEntriesStable request pending ok)
        else .waiting request pending
      | p => p }

/-- The writer has `Persister::m_mtx` and writes: the group is the batch it has popped and up to 63
more, and ends with the batch whose write fails. -/
def writeGroup (s : Process) (first : Option Batch) (failing : Option ℕ) : Process :=
  match first with
  | none => { s with writer := .inWal false }
  | some batch =>
    let group := batch :: s.queue.take 63
    let s := { s with queue := s.queue.drop 63 }
    match failing with
    | none => { s.gather group with writer := .inWal false }
    | some k => { s.gather (group.take (k + 1)) with writer := .inWal true }

/-- The writer goes on. -/
def writerStep (s : Process) (failing : Option ℕ) (sync : Option Bool) : Option Process :=
  match s.writer with
  | .popping => some { s with writer := .wantWal s.queue.head?, queue := s.queue.tail }
  | .wantWal first =>
    match s.walMutex with
    | none => some ({ s with walMutex := some .writer }.writeGroup first failing)
    | some _ => none
  | .inWal true => some { s.notifyWaiters false with writer := .notifying false }
  | .inWal false =>
    match sync with
    | none => some { s with walMutex := none, writer := .popping }
    | some ok => some { s.notifyWaiters ok with writer := .notifying ok }
  | .notifying ok =>
    match s.callbacks with
    | [] => some { s with walMutex := none, writer := .popping }
    | index :: callbacks => some { s with writer := .wantRaft ok index, callbacks }
  | .wantRaft ok index =>
    match s.raftMutex with
    | none =>
      let saves :=
        if ok ∧ index > s.node.stableLogIndex then [s.node.lastSnapshotIndex] else []
      some { s with
        raftMutex := some .writer
        node := s.node.onLogStable ok index
        writer := .inRaft ok saves }
    | some _ => none
  | .inRaft ok [] => some { s with raftMutex := none, writer := .notifying ok }
  | .inRaft ok (index :: saves) =>
    if index > s.compacted then some { s with writer := .wantWalAgain ok index }
    else some { s with writer := .inRaft ok saves }
  | .wantWalAgain _ _ => none

/-- One move; none when it is not possible. -/
def step (s : Process) : Move → Option Process
  | .call t task =>
    match s.phase t with
    | .idle => if t < s.threads ∧ task.isCall then some (s.goto t (.wantRaft task)) else none
    | _ => none
  | .thread t => if t < s.threads then s.threadStep t else none
  | .writer failing sync => s.writerStep failing sync

/-- Runs, all of whose moves satisfy `P`. -/
inductive Run (P : Process → Move → Prop) (s : Process) : Process → Prop where
  | refl : Run P s s
  | step {t u : Process} {m : Move} : Run P s t → P t m → t.step m = some u → Run P s u

/-- The state a list of moves leads to, as long as every one of them satisfies `P`. -/
def runIf (P : Process → Move → Prop) [∀ s m, Decidable (P s m)] (s : Process) :
    List Move → Option Process
  | [] => some s
  | m :: rest => if P s m then (s.step m).bind fun t => t.runIf P rest else none

/-- A run may begin with one more move. -/
lemma Run.head {P : Process → Move → Prop} {s t u : Process} {m : Move} (hP : P s m)
    (hs : s.step m = some t) (h : Run P t u) : Run P s u := by
  induction h with
  | refl => exact .step .refl hP hs
  | step _ hP' hs' ih => exact .step ih hP' hs'

/-- What is executed is a run. -/
lemma run_of_runIf {P : Process → Move → Prop} [∀ s m, Decidable (P s m)] {s t : Process}
    {moves : List Move} (h : s.runIf P moves = some t) : Run P s t := by
  induction moves generalizing s with
  | nil =>
    cases h
    exact .refl
  | cons m rest ih =>
    rw [runIf] at h
    split_ifs at h with hP
    obtain ⟨u, hu, hrest⟩ := Option.bind_eq_some_iff.mp h
    exact .head hP hu (ih hrest)

end Process

end KVCacheRaft
