import KVCacheRaft.Raft.Locks

/-!
# Deadlocks between the two mutexes

A thread in `raft::m_mtx` that comes to `CompactWal` and the writer that runs the callbacks of `Start`
take the two mutexes in opposite orders. Runs in which no compaction is due while the writer runs
callbacks are free of deadlocks; there are runs that end in one.
-/

namespace KVCacheRaft

/-! ### What a phase holds and waits for -/

namespace Phase

def holdsRaft : Phase → Bool
  | .inRaft _ _ | .wantWal (some _) _ | .inWal (some _) _ => true
  | _ => false

def holdsWal : Phase → Bool
  | .inWal _ _ => true
  | _ => false

def waitsRaft : Phase → Bool
  | .wantRaft _ => true
  | _ => false

def waitsWal : Phase → Bool
  | .wantWal _ _ => true
  | _ => false

variable {p : Phase}

/-- Who holds the node's mutex does not wait for it. -/
lemma not_waitsRaft_of_holdsRaft (h : p.holdsRaft) : p.waitsRaft = false := by
  cases p with
  | wantRaft task => cases h
  | _ => rfl

/-- Who holds the mutex of the WAL does not wait for the node's. -/
lemma not_waitsRaft_of_holdsWal (h : p.holdsWal) : p.waitsRaft = false := by
  cases p with
  | wantRaft task => cases h
  | _ => rfl

/-- Who holds the mutex of the WAL does not wait for it. -/
lemma not_waitsWal_of_holdsWal (h : p.holdsWal) : p.waitsWal = false := by
  cases p with
  | wantWal rest index => cases h
  | _ => rfl

end Phase

namespace Writer

def holdsRaft : Writer → Bool
  | .inRaft _ _ | .wantWalAgain _ _ => true
  | _ => false

def holdsWal : Writer → Bool
  | .popping | .wantWal _ => false
  | _ => true

def waitsRaft : Writer → Bool
  | .wantRaft _ _ => true
  | _ => false

def waitsWal : Writer → Bool
  | .wantWal _ | .wantWalAgain _ _ => true
  | _ => false

end Writer

namespace Process

/-- A thread waits for `raft::m_mtx`. -/
def waitsRaft (s : Process) : Thread → Bool
  | .writer => s.writer.waitsRaft
  | .caller t => (s.phase t).waitsRaft

/-- A thread waits for `Persister::m_mtx`. -/
def waitsWal (s : Process) : Thread → Bool
  | .writer => s.writer.waitsWal
  | .caller t => (s.phase t).waitsWal

/-- A thread holds `raft::m_mtx` and waits for `Persister::m_mtx`, which a thread holds that waits for
`raft::m_mtx`. -/
def Deadlock (s : Process) : Prop :=
  ∃ a b, s.raftMutex = some a ∧ s.waitsWal a ∧ s.walMutex = some b ∧ s.waitsRaft b

/-- A thread waits for a mutex it holds. -/
def SelfWait (s : Process) : Prop :=
  ∃ a, s.raftMutex = some a ∧ s.waitsRaft a ∨ s.walMutex = some a ∧ s.waitsWal a

/-- The writer has callbacks to run before it releases `Persister::m_mtx`, or runs one. -/
def runsCallbacks (s : Process) : Bool :=
  match s.writer with
  | .notifying _ => !s.callbacks.isEmpty
  | .wantRaft _ _ | .inRaft _ _ | .wantWalAgain _ _ => true
  | _ => false

/-- The writer goes on to `NotifyCallbacks` with callbacks to run. -/
def startsCallbacks (s : Process) (sync : Option Bool) : Bool :=
  match s.writer with
  | .inWal failed => (failed || sync.isSome) && !s.callbacks.isEmpty
  | _ => false

/-- A thread holds `raft::m_mtx` and waits for `Persister::m_mtx`. -/
def compacting (s : Process) (t : ℕ) : Bool := (s.phase t).holdsRaft && (s.phase t).waitsWal

/-- In `raft::m_mtx` a `persistState` is due that finds the snapshot index above the compacted one. -/
def compactsNext (s : Process) (t : ℕ) : Bool :=
  match s.phase t with
  | .inRaft (index :: _) _ => index > s.compacted
  | _ => false

/-- The same in a callback. -/
def writerCompactsNext (s : Process) : Bool :=
  match s.writer with
  | .inRaft _ (index :: _) => index > s.compacted
  | _ => false

/-- No compaction comes due under `raft::m_mtx` while the writer runs callbacks, the writer starts no
callbacks while one waits, and no callback finds one due. -/
def Careful (s : Process) : Move → Prop
  | .call _ _ => True
  | .thread t => s.compactsNext t → s.runsCallbacks = false
  | .writer _ sync =>
    (s.startsCallbacks sync → ∀ t < s.threads, s.compacting t = false) ∧
      s.writerCompactsNext = false

instance (s : Process) (m : Move) : Decidable (s.Careful m) := by
  cases m <;> unfold Careful <;> infer_instance

/-! ### The invariant -/

/-- The mutexes are with the threads that hold them, and no thread in `raft::m_mtx` waits for
`Persister::m_mtx` while the writer runs callbacks. -/
structure Inv (s : Process) : Prop where
  idle : ∀ t, s.threads ≤ t → (s.phase t).holdsRaft = false
  raft_caller : ∀ t, (s.phase t).holdsRaft ↔ s.raftMutex = some (.caller t)
  raft_writer : s.writer.holdsRaft ↔ s.raftMutex = some .writer
  wal_caller : ∀ t, (s.phase t).holdsWal ↔ s.walMutex = some (.caller t)
  wal_writer : s.writer.holdsWal ↔ s.walMutex = some .writer
  apart : s.runsCallbacks → ∀ t, s.compacting t = false
  again : ∀ ok index, s.writer ≠ .wantWalAgain ok index

variable {s s' : Process} {t : ℕ}

/-- Where the invariant holds there is no deadlock. -/
lemma Inv.not_deadlock (h : s.Inv) : ¬ s.Deadlock := by
  rintro ⟨a, b, ha, hwal, hb, hraft⟩
  cases a with
  | writer =>
    -- a writer with both mutexes does not wait
    have hholds := h.raft_writer.mpr ha
    have hwaits : s.writer.waitsWal := hwal
    cases hw : s.writer with
    | wantWalAgain ok index => exact h.again ok index hw
    | inRaft ok saves => simp [hw, Writer.waitsWal] at hwaits
    | _ => simp [hw, Writer.holdsRaft] at hholds
  | caller t =>
    have hholds := (h.raft_caller t).mpr ha
    have hwaits : (s.phase t).waitsWal := hwal
    cases b with
    | caller u =>
      have := Phase.not_waitsRaft_of_holdsWal ((h.wal_caller u).mpr hb)
      exact absurd hraft (by simp [waitsRaft, this])
    | writer =>
      have hruns : s.runsCallbacks := by
        have hwriter : s.writer.waitsRaft := hraft
        cases hw : s.writer with
        | wantRaft ok index => simp [runsCallbacks, hw]
        | _ => simp [hw, Writer.waitsRaft] at hwriter
      have := h.apart hruns t
      simp [compacting, hholds, hwaits] at this

/-- No thread waits for itself. -/
lemma Inv.not_selfWait (h : s.Inv) : ¬ s.SelfWait := by
  rintro ⟨a, ⟨ha, hwaits⟩ | ⟨ha, hwaits⟩⟩
  · cases a with
    | caller t =>
      have := Phase.not_waitsRaft_of_holdsRaft ((h.raft_caller t).mpr ha)
      exact absurd hwaits (by simp [waitsRaft, this])
    | writer =>
      have hholds := h.raft_writer.mpr ha
      have hwriter : s.writer.waitsRaft := hwaits
      cases hw : s.writer <;> simp [hw, Writer.holdsRaft, Writer.waitsRaft] at hholds hwriter
  · cases a with
    | caller t =>
      have := Phase.not_waitsWal_of_holdsWal ((h.wal_caller t).mpr ha)
      exact absurd hwaits (by simp [waitsWal, this])
    | writer =>
      have hholds := h.wal_writer.mpr ha
      have hwriter : s.writer.waitsWal := hwaits
      cases hw : s.writer with
      | wantWalAgain ok index => exact h.again ok index hw
      | _ => simp [hw, Writer.holdsWal, Writer.waitsWal] at hholds hwriter

/-- At the start no thread holds anything. -/
lemma Inv.initial (threads : ℕ) (node : Raft) : (Process.initial threads node).Inv where
  idle _ _ := rfl
  raft_caller _ := by simp [Process.initial, Phase.holdsRaft]
  raft_writer := by simp [Process.initial, Writer.holdsRaft]
  wal_caller _ := by simp [Process.initial, Phase.holdsWal]
  wal_writer := by simp [Process.initial, Writer.holdsWal]
  apart h := by simp [Process.initial, runsCallbacks] at h
  again _ _ := by simp [Process.initial]

/-! ### Moves of a thread -/

/-- A thread gets to phase `p`, and takes or releases mutexes for itself. -/
lemma Inv.of_thread {p : Phase} (h : s.Inv) (ht : t < s.threads) (hthreads : s'.threads = s.threads)
    (hphase : s'.phase = Function.update s.phase t p) (hwriter : s'.writer = s.writer)
    (hcallbacks : s'.callbacks = s.callbacks)
    (hraft : ∀ o ≠ .caller t, (s'.raftMutex = some o ↔ s.raftMutex = some o))
    (hraft' : p.holdsRaft ↔ s'.raftMutex = some (.caller t))
    (hwal : ∀ o ≠ .caller t, (s'.walMutex = some o ↔ s.walMutex = some o))
    (hwal' : p.holdsWal ↔ s'.walMutex = some (.caller t))
    (hsafe : p.holdsRaft → p.waitsWal → s.runsCallbacks = false) : s'.Inv := by
  have hother : ∀ u ≠ t, s'.phase u = s.phase u := fun u hu => by
    rw [hphase, Function.update_of_ne hu]
  have hself : s'.phase t = p := by rw [hphase, Function.update_self]
  have hne : ∀ u ≠ t, Thread.caller u ≠ .caller t := fun u hu heq => hu (Thread.caller.inj heq)
  have hruns : s'.runsCallbacks = s.runsCallbacks := by
    rw [runsCallbacks, runsCallbacks, hwriter, hcallbacks]
  exact {
    idle := fun u hu => by
      rw [hthreads] at hu
      rw [hother u (by omega)]
      exact h.idle u hu
    raft_caller := fun u => by
      cases eq_or_ne u t with
      | inl heq => rw [heq, hself, hraft']
      | inr hu => rw [hother u hu, hraft _ (hne u hu), h.raft_caller u]
    raft_writer := by rw [hwriter, hraft _ (by simp), h.raft_writer]
    wal_caller := fun u => by
      cases eq_or_ne u t with
      | inl heq => rw [heq, hself, hwal']
      | inr hu => rw [hother u hu, hwal _ (hne u hu), h.wal_caller u]
    wal_writer := by rw [hwriter, hwal _ (by simp), h.wal_writer]
    apart := fun hr u => by
      rw [hruns] at hr
      cases eq_or_ne u t with
      | inl heq =>
        rw [heq, compacting, hself, Bool.and_eq_false_iff]
        cases hholds : p.holdsRaft with
        | false => exact .inl rfl
        | true =>
          refine .inr (Bool.eq_false_iff.mpr fun hwaits => ?_)
          rw [hsafe hholds hwaits] at hr
          cases hr
      | inr hu =>
        rw [compacting, hother u hu]
        exact h.apart hr u
    again := fun ok index => hwriter ▸ h.again ok index }

/-- A thread gets to a phase that holds the same mutexes. -/
lemma Inv.of_goto {p : Phase} (h : s.Inv) (ht : t < s.threads) (node : Raft)
    (hraft : p.holdsRaft = (s.phase t).holdsRaft) (hwal : p.holdsWal = (s.phase t).holdsWal)
    (hsafe : p.holdsRaft → p.waitsWal → s.runsCallbacks = false) :
    Inv (Process.goto { s with node } t p) := by
  have hr := h.raft_caller t
  have hw := h.wal_caller t
  rw [← hraft] at hr
  rw [← hwal] at hw
  exact h.of_thread ht rfl rfl rfl rfl (fun _ _ => Iff.rfl) hr (fun _ _ => Iff.rfl) hw hsafe

/-- A mutex that a caller takes is not another's. -/
lemma take_iff {m : Option Thread} (hm : m = none) (o : Thread) (ho : o ≠ .caller t) :
    some (Thread.caller t) = some o ↔ m = some o := by
  subst hm
  simp [ho.symm]

/-- A mutex that a caller drops was not another's. -/
lemma drop_iff {m : Option Thread} (hm : m = some (.caller t)) (o : Thread) (ho : o ≠ .caller t) :
    none = some o ↔ m = some o := by
  subst hm
  simp [ho.symm]

/-- A thread releases `raft::m_mtx` for a phase that holds nothing. -/
lemma Inv.leave {p : Phase} {saves : List ℤ} {after : After} (h : s.Inv) (ht : t < s.threads)
    (hp : s.phase t = .inRaft saves after) (hraft : p.holdsRaft = false) (hwal : p.holdsWal = false)
    (hthreads : s'.threads = s.threads) (hphase : s'.phase = Function.update s.phase t p)
    (hwriter : s'.writer = s.writer) (hcallbacks : s'.callbacks = s.callbacks)
    (hnone : s'.raftMutex = none) (hsame : s'.walMutex = s.walMutex) : s'.Inv := by
  have hr : s.raftMutex = some (.caller t) := (h.raft_caller t).mp (by rw [hp]; rfl)
  have hw : s.walMutex ≠ some (.caller t) := fun heq => by
    simpa [hp, Phase.holdsWal] using (h.wal_caller t).mpr heq
  apply h.of_thread ht hthreads hphase hwriter hcallbacks
  · rw [hnone]
    exact drop_iff hr
  · simp [hraft, hnone]
  · simp [hsame]
  · simpa [hwal, hsame] using hw
  · simp [hraft]

/-- A caller that drops the mutex keeps the invariant. -/
lemma Inv.release (h : s.Inv) (ht : t < s.threads) {after : After}
    (hp : s.phase t = .inRaft [] after) : (s.release t after).Inv := by
  cases after with
  | done => exact h.leave ht hp rfl rfl rfl rfl rfl rfl rfl rfl
  | appendLogAsync index => exact h.leave ht hp rfl rfl rfl rfl rfl rfl rfl rfl
  | persistState => exact h.leave ht hp rfl rfl rfl rfl rfl rfl rfl rfl
  | appendLogAndWaitStable request pending =>
    rw [Process.release]
    split_ifs
    · exact h.leave ht hp rfl rfl rfl rfl rfl rfl rfl rfl
    · exact h.leave ht hp rfl rfl rfl rfl rfl rfl rfl rfl

/-- A careful step of a thread keeps the invariant. -/
lemma Inv.threadStep (h : s.Inv) (ht : t < s.threads)
    (hcareful : s.compactsNext t → s.runsCallbacks = false) (hs : s.threadStep t = some s') :
    s'.Inv := by
  have hr := h.raft_caller t
  have hw := h.wal_caller t
  rw [Process.threadStep] at hs
  cases hp : s.phase t with
  | idle => simp [hp] at hs
  | waiting request pending => simp [hp] at hs
  | wantRaft task =>
    simp only [hp] at hs
    cases hm : s.raftMutex with
    | some o => simp [hm] at hs
    | none =>
      cases hc : task.section s.node with
      | error e => simp [hm, hc] at hs
      | ok c =>
        simp only [hm, hc, Option.some.injEq] at hs
        subst hs
        simp only [hp, Phase.holdsWal] at hw
        exact h.of_thread ht rfl rfl rfl rfl (take_iff hm) (by simp [goto, Phase.holdsRaft])
          (fun _ _ => Iff.rfl) (by simpa [goto, Phase.holdsWal] using hw)
          (fun _ hwaits => by cases hwaits)
  | inRaft saves after =>
    cases saves with
    | nil =>
      simp only [hp, Option.some.injEq] at hs
      exact hs ▸ h.release ht hp
    | cons index saves =>
      simp only [hp] at hs
      split_ifs at hs with hdue
      · obtain rfl := Option.some.inj hs
        have hsafe := hcareful (by simp [compactsNext, hp, hdue])
        exact h.of_goto ht s.node (by rw [hp]; rfl) (by rw [hp]; rfl) (fun _ _ => hsafe)
      · obtain rfl := Option.some.inj hs
        exact h.of_goto ht s.node (by rw [hp]; rfl) (by rw [hp]; rfl) (fun _ hwaits => by cases hwaits)
  | deferred =>
    simp only [hp] at hs
    split_ifs at hs
    · obtain rfl := Option.some.inj hs
      exact h.of_goto ht _ (by rw [hp]; rfl) (by rw [hp]; rfl) (fun hholds => by cases hholds)
    · obtain rfl := Option.some.inj hs
      exact h.of_goto ht _ (by rw [hp]; rfl) (by rw [hp]; rfl) (fun hholds => by cases hholds)
  | wantWal rest index =>
    simp only [hp] at hs
    cases hm : s.walMutex with
    | some o => simp [hm] at hs
    | none =>
      simp only [hm, Option.some.injEq] at hs
      subst hs
      have hrest : (Phase.inWal rest index).holdsRaft = (Phase.wantWal rest index).holdsRaft := by
        cases rest <;> rfl
      rw [hp] at hr
      exact h.of_thread ht rfl rfl rfl rfl (fun _ _ => Iff.rfl) (by rw [hrest]; exact hr)
        (take_iff hm) (by simp [goto, Phase.holdsWal]) (fun _ hwaits => by cases hwaits)
  | inWal rest index =>
    have hm : s.walMutex = some (.caller t) := hw.mp (by rw [hp]; rfl)
    cases rest with
    | none =>
      simp only [hp, Option.some.injEq] at hs
      subst hs
      simp only [hp, Phase.holdsRaft] at hr
      exact h.of_thread ht rfl rfl rfl rfl (fun _ _ => Iff.rfl)
        (by simpa [goto, Phase.holdsRaft] using hr) (drop_iff hm)
        (by simp [goto, Phase.holdsWal]) (fun hholds => by cases hholds)
    | some rest =>
      simp only [hp, Option.some.injEq] at hs
      subst hs
      simp only [hp, Phase.holdsRaft] at hr
      exact h.of_thread ht rfl rfl rfl rfl (fun _ _ => Iff.rfl)
        (by simpa [goto, Phase.holdsRaft] using hr) (drop_iff hm)
        (by simp [goto, Phase.holdsWal]) (fun _ hwaits => by cases hwaits)

/-! ### Moves of the writer -/

/-- `s'` has the threads of `s` in phases that hold and wait for the same. -/
structure SameThreads (s s' : Process) : Prop where
  threads : s'.threads = s.threads
  holdsRaft : ∀ t, (s'.phase t).holdsRaft = (s.phase t).holdsRaft
  holdsWal : ∀ t, (s'.phase t).holdsWal = (s.phase t).holdsWal
  waitsWal : ∀ t, (s'.phase t).waitsWal = (s.phase t).waitsWal

/-- Threads whose phases stay are the same. -/
lemma SameThreads.of_eq (hthreads : s'.threads = s.threads) (hphase : s'.phase = s.phase) :
    SameThreads s s' := ⟨hthreads, fun _ => by rw [hphase], fun _ => by rw [hphase],
  fun _ => by rw [hphase]⟩

/-- Waking the waiters lets no thread hold a mutex that it did not hold. -/
lemma sameThreads_notifyWaiters (s : Process) (ok : Bool) (w : Writer) :
    SameThreads s { s.notifyWaiters ok with writer := w } := by
  have hphase : ∀ t, (s.notifyWaiters ok).phase t = s.phase t ∨
      ((s.phase t).holdsRaft = false ∧ (s.phase t).holdsWal = false ∧ (s.phase t).waitsWal = false ∧
        ∃ task, (s.notifyWaiters ok).phase t = .wantRaft task) := by
    intro t
    cases hp : s.phase t with
    | waiting request pending =>
      by_cases hmem : t ∈ s.waiters
      · exact .inr ⟨rfl, rfl, rfl, _, by simp [notifyWaiters, hp, hmem]; rfl⟩
      · exact .inl (by simp [notifyWaiters, hp, hmem])
    | _ => exact .inl (by simp [notifyWaiters, hp])
  refine ⟨rfl, fun t => ?_, fun t => ?_, fun t => ?_⟩
  · show ((s.notifyWaiters ok).phase t).holdsRaft = _
    obtain heq | ⟨h, -, -, task, heq⟩ := hphase t
    · rw [heq]
    · rw [heq, h]; rfl
  · show ((s.notifyWaiters ok).phase t).holdsWal = _
    obtain heq | ⟨-, h, -, task, heq⟩ := hphase t
    · rw [heq]
    · rw [heq, h]; rfl
  · show ((s.notifyWaiters ok).phase t).waitsWal = _
    obtain heq | ⟨-, -, h, task, heq⟩ := hphase t
    · rw [heq]
    · rw [heq, h]; rfl

/-- Gathering a group changes no thread and no mutex. -/
lemma gather_same (s : Process) (group : List Batch) :
    (s.gather group).threads = s.threads ∧ (s.gather group).phase = s.phase ∧
      (s.gather group).raftMutex = s.raftMutex ∧ (s.gather group).walMutex = s.walMutex := by
  induction group generalizing s with
  | nil => exact ⟨rfl, rfl, rfl, rfl⟩
  | cons batch group ih =>
    cases batch with
    | waiter t => exact ih _
    | callback index => exact ih _

/-- Writing changes nothing that threads hold or wait for. -/
lemma writeGroup_same (s : Process) (first : Option Batch) (failing : Option ℕ) :
    ∃ failed, (s.writeGroup first failing).writer = .inWal failed ∧
      SameThreads s (s.writeGroup first failing) ∧
      (s.writeGroup first failing).raftMutex = s.raftMutex ∧
      (s.writeGroup first failing).walMutex = s.walMutex := by
  cases first with
  | none => exact ⟨false, rfl, .of_eq rfl rfl, rfl, rfl⟩
  | some batch =>
    cases failing with
    | none =>
      obtain ⟨h1, h2, h3, h4⟩ := gather_same { s with queue := s.queue.drop 63 }
        (batch :: s.queue.take 63)
      exact ⟨false, rfl, .of_eq h1 h2, h3, h4⟩
    | some k =>
      obtain ⟨h1, h2, h3, h4⟩ := gather_same { s with queue := s.queue.drop 63 }
        ((batch :: s.queue.take 63).take (k + 1))
      exact ⟨true, rfl, .of_eq h1 h2, h3, h4⟩

/-- The writer goes on, and takes or releases mutexes for itself. -/
lemma Inv.of_writer (h : s.Inv) (hsame : SameThreads s s')
    (hraft : ∀ o ≠ .writer, (s'.raftMutex = some o ↔ s.raftMutex = some o))
    (hraft' : s'.writer.holdsRaft ↔ s'.raftMutex = some .writer)
    (hwal : ∀ o ≠ .writer, (s'.walMutex = some o ↔ s.walMutex = some o))
    (hwal' : s'.writer.holdsWal ↔ s'.walMutex = some .writer)
    (hsafe : s'.runsCallbacks → ∀ t, s.compacting t = false)
    (hagain : ∀ ok index, s'.writer ≠ .wantWalAgain ok index) : s'.Inv where
  idle t ht := by
    rw [hsame.threads] at ht
    rw [hsame.holdsRaft]
    exact h.idle t ht
  raft_caller t := by rw [hsame.holdsRaft, hraft _ (by simp), h.raft_caller t]
  raft_writer := hraft'
  wal_caller t := by rw [hsame.holdsWal, hwal _ (by simp), h.wal_caller t]
  wal_writer := hwal'
  apart hr t := by
    rw [compacting, hsame.holdsRaft, hsame.waitsWal]
    exact hsafe hr t
  again := hagain

/-- The writer may start callbacks when no thread inside waits. -/
lemma Inv.not_compacting (h : s.Inv) (hcareful : ∀ t < s.threads, s.compacting t = false) (t : ℕ) :
    s.compacting t = false := by
  cases lt_or_ge t s.threads with
  | inl hlt => exact hcareful t hlt
  | inr hge => rw [compacting, h.idle t hge, Bool.false_and]

/-- A careful step of the writer keeps the invariant. -/
lemma Inv.writerStep (h : s.Inv) {failing : Option ℕ} {sync : Option Bool}
    (hstart : s.startsCallbacks sync → ∀ t < s.threads, s.compacting t = false)
    (hdue : s.writerCompactsNext = false) (hs : s.writerStep failing sync = some s') : s'.Inv := by
  have hr := h.raft_writer
  have hw := h.wal_writer
  have hsame : ∀ {u : Process}, u.threads = s.threads → u.phase = s.phase → SameThreads s u :=
    SameThreads.of_eq
  unfold Process.writerStep at hs
  cases hwr : s.writer with
  | popping =>
    simp only [hwr, Option.some.injEq] at hs
    subst hs
    simp only [hwr, Writer.holdsRaft, Writer.holdsWal] at hr hw
    exact h.of_writer (hsame rfl rfl) (fun _ _ => Iff.rfl) hr (fun _ _ => Iff.rfl) hw
      (fun hruns => by cases hruns) (fun _ _ => nofun)
  | wantWal first =>
    simp only [hwr] at hs
    cases hm : s.walMutex with
    | some o => simp [hm] at hs
    | none =>
      simp only [hm, Option.some.injEq] at hs
      subst hs
      simp only [hwr, Writer.holdsRaft] at hr
      obtain ⟨failed, hwriter, hthreads, hraft, hwal⟩ :=
        writeGroup_same { s with walMutex := some .writer, writer := .wantWal first } first failing
      refine h.of_writer ⟨hthreads.1, hthreads.2, hthreads.3, hthreads.4⟩ (fun o _ => ?_) ?_
        (fun o ho => ?_) ?_ (fun hruns => ?_) (fun ok index => ?_)
      · rw [hraft]
      · rw [hwriter, hraft]
        exact hr
      · rw [hwal, hm]
        simp [ho.symm]
      · rw [hwriter, hwal]
        simp [Writer.holdsWal]
      · rw [runsCallbacks, hwriter] at hruns
        cases hruns
      · rw [hwriter]
        nofun
  | inWal failed =>
    have hm : s.walMutex = some .writer := hw.mp (by rw [hwr]; rfl)
    simp only [hwr, Writer.holdsRaft] at hr
    have hnotify : ∀ ok, (failed || sync.isSome) →
        Inv { s.notifyWaiters ok with writer := .notifying ok } := by
      intro ok hgo
      refine h.of_writer (sameThreads_notifyWaiters s ok _) (fun _ _ => Iff.rfl) hr
        (fun _ _ => Iff.rfl) (iff_of_true rfl hm) (fun hruns => ?_) (fun _ _ => nofun)
      have hcb : s.callbacks.isEmpty = false := by simpa [runsCallbacks, notifyWaiters] using hruns
      have hst : s.startsCallbacks sync := by
        rw [startsCallbacks, hwr]
        simp [hgo, hcb]
      exact h.not_compacting (hstart hst)
    cases failed with
    | true =>
      simp only [hwr, Option.some.injEq] at hs
      exact hs ▸ hnotify false rfl
    | false =>
      cases sync with
      | none =>
        simp only [hwr, Option.some.injEq] at hs
        subst hs
        exact h.of_writer (hsame rfl rfl) (fun _ _ => Iff.rfl) hr (fun o ho => by simp [hm, ho.symm])
          (by simp [Writer.holdsWal]) (fun hruns => by cases hruns) (fun _ _ => nofun)
      | some ok =>
        simp only [hwr, Option.some.injEq] at hs
        exact hs ▸ hnotify ok rfl
  | notifying ok =>
    have hm : s.walMutex = some .writer := hw.mp (by rw [hwr]; rfl)
    simp only [hwr, Writer.holdsRaft] at hr
    cases hcb : s.callbacks with
    | nil =>
      simp only [hwr, hcb, Option.some.injEq] at hs
      subst hs
      exact h.of_writer (hsame rfl rfl) (fun _ _ => Iff.rfl) hr (fun o ho => by simp [hm, ho.symm])
        (by simp [Writer.holdsWal]) (fun hruns => by cases hruns) (fun _ _ => nofun)
    | cons index callbacks =>
      simp only [hwr, hcb, Option.some.injEq] at hs
      subst hs
      have hruns : s.runsCallbacks := by simp [runsCallbacks, hwr, hcb]
      exact h.of_writer (hsame rfl rfl) (fun _ _ => Iff.rfl) hr (fun _ _ => Iff.rfl)
        (iff_of_true rfl hm) (fun _ => h.apart hruns) (fun _ _ => nofun)
  | wantRaft ok index =>
    have hm : s.walMutex = some .writer := hw.mp (by rw [hwr]; rfl)
    have hruns : s.runsCallbacks := by simp [runsCallbacks, hwr]
    simp only [hwr] at hs
    cases hrm : s.raftMutex with
    | some o => simp [hrm] at hs
    | none =>
      simp only [hrm, Option.some.injEq] at hs
      subst hs
      exact h.of_writer (hsame rfl rfl) (fun o ho => by simp [hrm, ho.symm])
        (by simp [Writer.holdsRaft]) (fun _ _ => Iff.rfl) (iff_of_true rfl hm)
        (fun _ => h.apart hruns) (fun _ _ => nofun)
  | inRaft ok saves =>
    have hm : s.walMutex = some .writer := hw.mp (by rw [hwr]; rfl)
    have hrm : s.raftMutex = some .writer := hr.mp (by rw [hwr]; rfl)
    have hruns : s.runsCallbacks := by simp [runsCallbacks, hwr]
    cases saves with
    | nil =>
      simp only [hwr, Option.some.injEq] at hs
      subst hs
      exact h.of_writer (hsame rfl rfl) (fun o ho => by simp [hrm, ho.symm])
        (by simp [Writer.holdsRaft]) (fun _ _ => Iff.rfl) (iff_of_true rfl hm)
        (fun _ => h.apart hruns) (fun _ _ => nofun)
    | cons index saves =>
      have hnot : ¬ index > s.compacted := by simpa [writerCompactsNext, hwr] using hdue
      simp only [hwr, if_neg hnot, Option.some.injEq] at hs
      subst hs
      exact h.of_writer (hsame rfl rfl) (fun _ _ => Iff.rfl)
        (iff_of_true rfl hrm) (fun _ _ => Iff.rfl)
        (iff_of_true rfl hm) (fun _ => h.apart hruns) (fun _ _ => nofun)
  | wantWalAgain ok index => exact absurd hwr (h.again ok index)

/-! ### Runs -/

/-- A careful move keeps the invariant. -/
lemma Inv.step (h : s.Inv) {m : Move} (hcareful : s.Careful m) (hs : s.step m = some s') : s'.Inv := by
  cases m with
  | call t task =>
    rw [Process.step] at hs
    cases hp : s.phase t with
    | idle =>
      simp only [hp] at hs
      split_ifs at hs with ht
      obtain rfl := Option.some.inj hs
      exact h.of_goto ht.1 s.node (by rw [hp]; rfl) (by rw [hp]; rfl) (fun hholds => by cases hholds)
    | _ => simp [hp] at hs
  | thread t =>
    rw [Process.step] at hs
    split_ifs at hs with ht
    exact h.threadStep ht hcareful hs
  | writer failing sync => exact h.writerStep hcareful.1 hcareful.2 hs

/-- In careful runs no state is a deadlock, and no thread waits for a mutex it holds. -/
theorem no_deadlock {threads : ℕ} {node : Raft} (h : Run Careful (initial threads node) s) :
    ¬ s.Deadlock ∧ ¬ s.SelfWait := by
  have hinv : s.Inv := by
    induction h with
    | refl => exact Inv.initial threads node
    | step _ hcareful hs ih => exact ih.step hcareful hs
  exact ⟨hinv.not_deadlock, hinv.not_selfWait⟩

/-! ### A snapshot at the wrong moment -/

/-- Node `0` of three becomes leader, and starts a command that is written, synced and committed. -/
def committing : List Move :=
  [.call 0 .doElection, .thread 0, .thread 0, .thread 0,
    .call 1 (.handleRequestVoteResponse ⟨1, 0, 0, 0⟩ ⟨1, true, .normal⟩ 1), .thread 1, .thread 1,
    .thread 1,
    .call 0 (.start [1]), .thread 0, .thread 0, .thread 0,
    .writer none none, .writer none none, .writer none (some true), .writer none none,
    .writer none none, .writer none none, .writer none none, .writer none none,
    .call 1 (.handleAppendEntries 1 ⟨1, 0, 0, 0, [⟨[1], 1, 1⟩], 0⟩ ⟨1, true, -100⟩), .thread 1,
    .thread 1, .call 1 .applierTicker, .thread 1, .thread 1]

/-- Its server makes a snapshot while the writer has no callbacks. -/
def calmSnapshot : List Move :=
  [.call 1 (.snapshot 1 [9]), .thread 1, .thread 1, .thread 1, .thread 1, .thread 1]

/-- A second command is started, and the writer is about to run its callback when the server makes a
snapshot. -/
def lateSnapshot : List Move :=
  [.call 0 (.start [2]), .thread 0, .thread 0, .thread 0, .writer none none, .writer none none,
    .writer none (some true), .writer none none,
    .call 1 (.snapshot 1 [9]), .thread 1, .thread 1]

/-- With the snapshot at the right moment there is no deadlock. -/
theorem no_deadlock_calmSnapshot :
    ∃ s, s ∈ (initial 2 (Raft.init 0 3 {} [] [])).runIf Careful (committing ++ calmSnapshot) ∧
      ¬ s.Deadlock ∧ ¬ s.SelfWait := by
  obtain ⟨s, hs⟩ := Option.isSome_iff_exists.mp
    (by decide : ((initial 2 (Raft.init 0 3 {} [] [])).runIf Careful
      (committing ++ calmSnapshot)).isSome)
  exact ⟨s, hs, no_deadlock (run_of_runIf hs)⟩

/-- With the snapshot at the wrong moment there is one. -/
theorem exists_deadlock :
    ∃ s, Run (fun _ _ => True) (initial 2 (Raft.init 0 3 {} [] [])) s ∧ s.Deadlock := by
  obtain ⟨s, hs⟩ := Option.isSome_iff_exists.mp
    (by decide : ((initial 2 (Raft.init 0 3 {} [] [])).runIf (fun _ _ => True)
      (committing ++ lateSnapshot)).isSome)
  have hwaits : ∀ s ∈ (initial 2 (Raft.init 0 3 {} [] [])).runIf (fun _ _ => True)
      (committing ++ lateSnapshot), s.raftMutex = some (.caller 1) ∧ s.waitsWal (.caller 1) ∧
        s.walMutex = some .writer ∧ s.waitsRaft .writer := by decide
  exact ⟨s, run_of_runIf hs, .caller 1, .writer, hwaits s hs⟩

end Process

end KVCacheRaft
