import KVCacheRaft.Server.Fresh
import KVCacheRaft.Server.System
import KVCacheRaft.Wal.Metadata

/-!
# Wait channels

A handler of `Get` or `PutAppend` (`kvserver/KvServer.cc`) waits at the queue of the index that `Start`
gave it, which it makes when `waitApplyCh` has none, and deletes the queue of this index when it is done.
`Start` gives an index again when the entry there was erased: behind a record that could not be written,
or by another leader. The handler that got it first may still be there then.
-/

namespace KVCacheRaft

open Machine

/-- How far a handler is. -/
inductive HandlerPhase where
  /-- `Start` gave it the index -/
  | started (raftIndex : ℤ)
  /-- it is at `timeOutPop` of the `ch`-th queue made for the index, which it has since so many commands
  were applied -/
  | waiting (raftIndex : ℤ) (ch since : ℕ)
  /-- it got a message when `till` commands were applied -/
  | popped (raftIndex : ℤ) (since till : ℕ) (raftCommitOp : Op)
  | timedOut (raftIndex : ℤ)
  | returned
deriving DecidableEq

/-- The index whose queue a handler is going to delete. -/
def HandlerPhase.held : HandlerPhase → Option ℤ
  | .waiting raftIndex _ _ | .popped raftIndex _ _ _ | .timedOut raftIndex => some raftIndex
  | .started _ | .returned => none

/-- A call of `Get` or `PutAppend`. -/
structure KvHandler where
  op : Op
  phase : HandlerPhase

/-- A node, its server and the handlers of the server. -/
structure ServerNode where
  raft : Raft
  kv : KvServer
  /-- how many messages of `applyChan` have been popped -/
  popped : ℕ := 0
  handlers : List KvHandler := []
  /-- how many queues were made for an index; `waitApplyCh` has the last one, if it has any -/
  made : ℤ → ℕ := fun _ => 0
  /-- the commands that `SendMessageToWaitChan` was called with, and their indices -/
  applied : List (ℤ × Op) := []

namespace ServerNode

inductive Event where
  /-- any call to the node but `Start` -/
  | raft (c : NodeCall)
  /-- the `persistState` of `doElection` stores something in the mapped file -/
  | store (fmp : NodeInfo)
  /-- a request comes, and its handler calls `Start` -/
  | start (op : Op)
  /-- the handler finds or makes the queue of its index -/
  | register (k : ℕ)
  /-- `timeOutPop` gets a message -/
  | pop (k : ℕ)
  | timeOut (k : ℕ)
  /-- a `Get` looks at the data, or leaves it, by what its wait came to -/
  | execute (k : ℕ)
  /-- the handler deletes the queue of its index and returns -/
  | erase (k : ℕ)
  /-- `ReadRaftApplyCommandLoop` pops a message -/
  | apply (rand : ℕ → ℕ) (raftStateSize : ℤ)

/-- A handler goes on. -/
def setPhase (s : ServerNode) (k : ℕ) (phase : HandlerPhase) : ServerNode :=
  { s with handlers := s.handlers.modify k fun h => { h with phase } }

/-- `waitApplyCh` changes. -/
def setChannels (s : ServerNode) (waitApplyCh : UnorderedMap ℤ (List Op)) : ServerNode :=
  { s with kv := { s.kv with waitApplyCh } }

/-- `Start`, with which a handler begins. -/
def start (A : Archives) (s : ServerNode) (op : Op) : Option ServerNode :=
  (s.raft.start (A.op.save op)).toOption.map fun
    | none => { s with handlers := s.handlers ++ [{ op, phase := .returned }] }
    | some (raft, logEntry) =>
      { s with raft, handlers := s.handlers ++ [{ op, phase := .started logEntry.logindex }] }

/-- The handler finds or makes the queue of its index. -/
def register (s : ServerNode) (k : ℕ) (raftIndex : ℤ) : ServerNode :=
  let s := match s.kv.waitApplyCh.lookup raftIndex with
    | some _ => s
    | none =>
      { s.setChannels (s.kv.waitApplyCh.insert raftIndex []) with
        made := Function.update s.made raftIndex (s.made raftIndex + 1) }
  s.setPhase k (.waiting raftIndex (s.made raftIndex) s.applied.length)

/-- `timeOutPop` gets a message; a queue that was deleted gives none. -/
def pop (s : ServerNode) (k : ℕ) (raftIndex : ℤ) (ch since : ℕ) : Option ServerNode :=
  if s.made raftIndex = ch then
    match s.kv.waitApplyCh.lookup raftIndex with
    | some (op :: rest) =>
      some ((s.setChannels (s.kv.waitApplyCh.insert raftIndex rest)).setPhase k
        (.popped raftIndex since s.applied.length op))
    | _ => none
  else none

/-- The command that the loop hands on to a handler. -/
def handedOn (A : Archives) (kv : KvServer) (message : ApplyMsg) : List (ℤ × Op) :=
  if kv.Executes message then
    ((A.op.load message.Command).map fun op => (message.CommandIndex, op)).toList
  else []

/-- What an event does; none when it cannot happen, or when the process exits. -/
def step (A : Archives) (s : ServerNode) : Event → Option ServerNode
  | .raft c =>
    match c with
    | .start _ => none
    | c => (c.run s.raft).map fun raft => { s with raft }
  | .store fmp => some { s with raft := { s.raft with fmp } }
  | .start op => s.start A op
  | .register k => s.handlers[k]?.bind fun h =>
    match h.phase with
    | .started raftIndex => some (s.register k raftIndex)
    | _ => none
  | .pop k => s.handlers[k]?.bind fun h =>
    match h.phase with
    | .waiting raftIndex ch since => s.pop k raftIndex ch since
    | _ => none
  | .timeOut k => s.handlers[k]?.bind fun h =>
    match h.phase with
    | .waiting raftIndex _ _ => some (s.setPhase k (.timedOut raftIndex))
    | _ => none
  | .execute k => s.handlers[k]?.bind fun h =>
    match h.phase with
    | .popped _ _ _ _ | .timedOut _ =>
      if h.op.IsUpdate then none else some { s with kv := (s.kv.executeGetOpOnKVDB h.op).1 }
    | _ => none
  | .erase k => s.handlers[k]?.bind fun h =>
    match h.phase with
    | .popped raftIndex _ _ _ | .timedOut raftIndex =>
      some ((s.setChannels (s.kv.waitApplyCh.erase raftIndex)).setPhase k .returned)
    | _ => none
  | .apply rand raftStateSize => s.raft.applyChan[s.popped]?.bind fun message =>
    (s.kv.readRaftApplyCommand A rand raftStateSize message).map fun (kv, _) =>
      { s with kv, popped := s.popped + 1, applied := s.applied ++ handedOn A s.kv message }

variable {A : Archives} {s t : ServerNode} {k : ℕ} {i : ℤ} {p q : HandlerPhase}

/-! ### Whose the queues are -/

/-- How far the handler `k` is. -/
def phase (s : ServerNode) (k : ℕ) : Option HandlerPhase := s.handlers[k]?.map (·.phase)

/-- The index whose queue the handler `k` is going to delete. -/
def held (s : ServerNode) (k : ℕ) : Option ℤ := (s.phase k).bind HandlerPhase.held

/-- The queues belong to one handler each. -/
structure Belong (s : ServerNode) : Prop where
  /-- the queue that a handler waits at is not deleted -/
  kept : ∀ k i ch since, s.phase k = some (.waiting i ch since) →
    s.made i = ch ∧ (s.kv.waitApplyCh.lookup i).isSome
  /-- what a handler took was applied at its index while it waited -/
  own : ∀ k i since till op, s.phase k = some (.popped i since till op) →
    (i, op) ∈ (s.applied.take till).drop since
  /-- no two handlers have one queue -/
  one : ∀ k k' i, s.held k = some i → s.held k' = some i → k = k'

/-- A handler waits at a queue that was deleted. -/
def Orphaned (s : ServerNode) : Prop :=
  ∃ k i ch since, s.phase k = some (.waiting i ch since) ∧ s.kv.waitApplyCh.lookup i = none

/-- A handler that finds its queue is not let on: no other handler has it. -/
def Unshared (s : ServerNode) : Event → Prop
  | .register k =>
    match s.phase k with
    | some (.started raftIndex) => s.kv.waitApplyCh.lookup raftIndex = none
    | _ => True
  | _ => True

instance (s : ServerNode) (e : Event) : Decidable (s.Unshared e) := by
  unfold Unshared
  split
  · split <;> infer_instance
  · infer_instance

structure Inv (s : ServerNode) : Prop where
  holder : ∀ i, (s.kv.waitApplyCh.lookup i).isSome → ∃ k, s.held k = some i
  kept : ∀ k i, s.held k = some i → (s.kv.waitApplyCh.lookup i).isSome
  one : ∀ k k' i, s.held k = some i → s.held k' = some i → k = k'
  waiting : ∀ k i ch since, s.phase k = some (.waiting i ch since) →
    s.made i = ch ∧ since ≤ s.applied.length ∧
      ∀ queue ∈ s.kv.waitApplyCh.lookup i, ∀ op ∈ queue, (i, op) ∈ s.applied.drop since
  own : ∀ k i since till op, s.phase k = some (.popped i since till op) →
    till ≤ s.applied.length ∧ (i, op) ∈ (s.applied.take till).drop since

/-- What a handler holds follows from its phase. -/
lemma held_of_phase (h : s.phase k = some p) : s.held k = p.held := by
  rw [held, h, Option.bind_some]

/-- In a state with the invariant the queues belong to one handler each. -/
lemma Inv.belong (h : s.Inv) : s.Belong where
  kept := fun k i ch since hk => ⟨(h.waiting k i ch since hk).1, h.kept k i (held_of_phase hk)⟩
  own := fun k i since till op hk => (h.own k i since till op hk).2
  one := h.one

/-! ### Steps -/

/-- The phase of a handler. -/
lemma phase_of_handler {h : KvHandler} (hk : s.handlers[k]? = some h) : s.phase k = some h.phase := by
  rw [phase, hk, Option.map_some]

/-- Setting one phase leaves the others. -/
lemma phase_setPhase (hk : s.phase k = some p) (q : HandlerPhase) :
    (s.setPhase k q).phase = Function.update s.phase k (some q) := by
  funext j
  rw [phase, setPhase, List.getElem?_modify]
  by_cases hj : j = k
  · subst hj
    obtain ⟨h, hh, -⟩ := Option.map_eq_some_iff.mp hk
    rw [Function.update_self, hh]
    simp
  · rw [Function.update_of_ne hj, phase]
    have hne : ¬ k = j := fun heq => hj heq.symm
    cases s.handlers[j]? <;> simp [hne]

/-- Steps that no handler and no queue takes part in. -/
lemma Inv.congr (h : s.Inv) (hphase : t.phase = s.phase)
    (hchannels : t.kv.waitApplyCh = s.kv.waitApplyCh) (hmade : t.made = s.made)
    (happlied : t.applied = s.applied) : t.Inv := by
  have hheld : t.held = s.held := by
    funext k
    rw [held, held, hphase]
  exact ⟨by rw [hchannels, hheld]; exact h.holder, by rw [hchannels, hheld]; exact h.kept,
    by rw [hheld]; exact h.one, by rw [hphase, hmade, happlied, hchannels]; exact h.waiting,
    by rw [hphase, happlied]; exact h.own⟩

/-- One handler's phase changes what that handler holds only. -/
lemma held_update (hphase : t.phase = Function.update s.phase k (some q)) :
    t.held = Function.update s.held k q.held := by
  funext j
  rw [held, hphase]
  by_cases hj : j = k
  · subst hj
    rw [Function.update_self, Function.update_self, Option.bind_some]
  · rw [Function.update_of_ne hj, Function.update_of_ne hj, held]

/-- One handler goes on, the others are where they were. -/
lemma phase_cases (hphase : t.phase = Function.update s.phase k (some q)) {j : ℕ}
    (hj : t.phase j = some p) : j = k ∧ q = p ∨ j ≠ k ∧ s.phase j = some p := by
  rw [hphase] at hj
  by_cases heq : j = k
  · rw [heq, Function.update_self] at hj
    exact .inl ⟨heq, Option.some.inj hj⟩
  · rw [Function.update_of_ne heq] at hj
    exact .inr ⟨heq, hj⟩

/-- A handler goes on with the queue it has, or with none. -/
lemma Inv.move (h : s.Inv) (hk : s.held k = q.held)
    (hphase : t.phase = Function.update s.phase k (some q))
    (hchannels : ∀ i, (t.kv.waitApplyCh.lookup i).isSome = (s.kv.waitApplyCh.lookup i).isSome)
    (hqueues : ∀ i, ∀ queue ∈ t.kv.waitApplyCh.lookup i, ∀ op ∈ queue,
      ∃ queue ∈ s.kv.waitApplyCh.lookup i, op ∈ queue)
    (hmade : t.made = s.made) (happlied : t.applied = s.applied)
    (hwaiting : ∀ i ch since, q ≠ .waiting i ch since)
    (hown : ∀ i since till op, q = .popped i since till op →
      till ≤ s.applied.length ∧ (i, op) ∈ (s.applied.take till).drop since) : t.Inv := by
  have hheld : t.held = s.held := by
    rw [held_update hphase, ← hk, Function.update_eq_self]
  refine ⟨fun i hi => ?_, fun j i hj => ?_, by rw [hheld]; exact h.one, fun j i ch since hj => ?_,
    fun j i since till op hj => ?_⟩
  · rw [hchannels] at hi
    rw [hheld]
    exact h.holder i hi
  · rw [hheld] at hj
    rw [hchannels]
    exact h.kept j i hj
  · obtain ⟨-, heq⟩ | ⟨-, hold⟩ := phase_cases hphase hj
    · exact absurd heq (hwaiting i ch since)
    · obtain ⟨hch, hsince, hall⟩ := h.waiting j i ch since hold
      rw [hmade, happlied]
      refine ⟨hch, hsince, fun queue hq op hop => ?_⟩
      obtain ⟨queue', hq', hop'⟩ := hqueues i queue hq op hop
      exact hall queue' hq' op hop'
  · rw [happlied]
    obtain ⟨-, heq⟩ | ⟨-, hold⟩ := phase_cases hphase hj
    · exact hown i since till op heq
    · exact h.own j i since till op hold

/-- A handler makes the queue of its index. -/
lemma Inv.register (h : s.Inv) (hk : s.phase k = some (.started i))
    (hnone : s.kv.waitApplyCh.lookup i = none) : (s.register k i).Inv := by
  obtain ⟨made, hmade⟩ : ∃ made, made = Function.update s.made i (s.made i + 1) := ⟨_, rfl⟩
  have hregister : s.register k i =
      { s.setChannels (s.kv.waitApplyCh.insert i []) with made }.setPhase k
        (.waiting i (made i) s.applied.length) := by
    simp only [ServerNode.register, hnone, hmade]
    rfl
  have hphase : (s.register k i).phase =
      Function.update s.phase k (some (.waiting i (made i) s.applied.length)) := by
    rw [hregister]
    exact phase_setPhase hk _
  have hheld := held_update hphase
  have hlookup : ∀ j, (s.register k i).kv.waitApplyCh.lookup j =
      if j = i then some [] else s.kv.waitApplyCh.lookup j := by
    intro j
    rw [hregister]
    show (s.kv.waitApplyCh.insert i []).lookup j = _
    split_ifs with hj
    · rw [hj, AList.lookup_insert]
    · rw [AList.lookup_insert_ne hj]
  have hmade' : (s.register k i).made = made := by rw [hregister]; rfl
  have happlied : (s.register k i).applied = s.applied := by rw [hregister]; rfl
  have hfree : s.held k = none := by rw [held_of_phase hk, HandlerPhase.held]
  -- nobody has the index so far
  have hnobody : ∀ j, s.held j ≠ some i := fun j hj => by
    have hsome := h.kept j i hj
    rw [hnone] at hsome
    cases hsome
  have hother : ∀ j l, s.held j = some l → (s.register k i).held j = some l := fun j l hj => by
    have hne : j ≠ k := by
      rintro rfl
      rw [hfree] at hj
      cases hj
    rw [hheld, Function.update_of_ne hne, hj]
  have hcases : ∀ j l, (s.register k i).held j = some l → j = k ∧ l = i ∨ s.held j = some l ∧ l ≠ i := by
    intro j l hj
    rw [hheld] at hj
    by_cases heq : j = k
    · rw [heq, Function.update_self] at hj
      exact .inl ⟨heq, (Option.some.inj hj).symm⟩
    · rw [Function.update_of_ne heq] at hj
      refine .inr ⟨hj, ?_⟩
      rintro rfl
      exact hnobody j hj
  refine ⟨fun l hl => ?_, fun j l hj => ?_, fun j j' l hj hj' => ?_, fun j l ch since hj => ?_,
    fun j l since till op hj => ?_⟩
  · rw [hlookup] at hl
    split_ifs at hl with hli
    · exact ⟨k, by rw [hheld, Function.update_self, hli, HandlerPhase.held]⟩
    · obtain ⟨j, hj⟩ := h.holder l hl
      exact ⟨j, hother j l hj⟩
  · rw [hlookup]
    obtain ⟨-, rfl⟩ | ⟨hj, hne⟩ := hcases j l hj
    · rw [if_pos rfl, Option.isSome_some]
    · rw [if_neg hne]
      exact h.kept j l hj
  · obtain ⟨rfl, rfl⟩ | ⟨hj, hne⟩ := hcases j l hj
    · obtain ⟨rfl, -⟩ | ⟨-, hne⟩ := hcases j' l hj'
      · rfl
      · exact absurd rfl hne
    · obtain ⟨-, rfl⟩ | ⟨hj', -⟩ := hcases j' l hj'
      · exact absurd rfl hne
      · exact h.one j j' l hj hj'
  · rw [happlied, hmade']
    obtain ⟨-, heq⟩ | ⟨-, hold⟩ := phase_cases hphase hj
    · obtain ⟨rfl, rfl, rfl⟩ := HandlerPhase.waiting.inj heq
      refine ⟨rfl, Nat.le_refl _, fun queue hq op hop => ?_⟩
      rw [hlookup, if_pos rfl] at hq
      obtain rfl := Option.some.inj hq
      cases hop
    · have hne : l ≠ i := by
        rintro rfl
        exact hnobody j (held_of_phase hold)
      obtain ⟨hch, hsince, hall⟩ := h.waiting j l ch since hold
      rw [hlookup, if_neg hne, hmade, Function.update_of_ne hne]
      exact ⟨hch, hsince, hall⟩
  · rw [happlied]
    obtain ⟨-, heq⟩ | ⟨-, hold⟩ := phase_cases hphase hj
    · cases heq
    · exact h.own j l since till op hold

/-- A handler deletes its own queue. -/
lemma Inv.erase (h : s.Inv) (hk : s.phase k = some p) (hheld : p.held = some i) :
    ((s.setChannels (s.kv.waitApplyCh.erase i)).setPhase k .returned).Inv := by
  obtain ⟨t, ht⟩ : ∃ t, t = (s.setChannels (s.kv.waitApplyCh.erase i)).setPhase k .returned := ⟨_, rfl⟩
  have hphase : t.phase = Function.update s.phase k (some .returned) := ht ▸ phase_setPhase hk _
  have hown : s.held k = some i := (held_of_phase hk).trans hheld
  have hlookup : ∀ j, t.kv.waitApplyCh.lookup j = if j = i then none else s.kv.waitApplyCh.lookup j := by
    intro j
    rw [ht]
    show (s.kv.waitApplyCh.erase i).lookup j = _
    split_ifs with hj
    · rw [hj, AList.lookup_erase]
    · rw [AList.lookup_erase_ne hj]
  have hcases : ∀ j l, t.held j = some l → j ≠ k ∧ l ≠ i ∧ s.held j = some l := by
    intro j l hj
    rw [held_update hphase] at hj
    by_cases heq : j = k
    · rw [heq, Function.update_self] at hj
      cases hj
    · rw [Function.update_of_ne heq] at hj
      refine ⟨heq, ?_, hj⟩
      rintro rfl
      exact heq (h.one j k l hj hown)
  have hstays : ∀ j, j ≠ k → t.phase j = s.phase j := fun j hj => by
    rw [hphase, Function.update_of_ne hj]
  rw [← ht]
  refine ⟨fun l hl => ?_, fun j l hj => ?_, fun j j' l hj hj' => ?_, fun j l ch since hj => ?_,
    fun j l since till op hj => ?_⟩
  · rw [hlookup] at hl
    split_ifs at hl with hli
    · cases hl
    · obtain ⟨j, hj⟩ := h.holder l hl
      have hne : j ≠ k := by
        rintro rfl
        exact hli (Option.some.inj (hj.symm.trans hown))
      exact ⟨j, by rw [held, hstays j hne]; exact hj⟩
  · obtain ⟨-, hne, hj⟩ := hcases j l hj
    rw [hlookup, if_neg hne]
    exact h.kept j l hj
  · exact h.one j j' l (hcases j l hj).2.2 (hcases j' l hj').2.2
  · obtain ⟨hne, hli, -⟩ := hcases j l (held_of_phase hj)
    rw [hstays j hne] at hj
    rw [hlookup, if_neg hli, ht]
    exact h.waiting j l ch since hj
  · obtain ⟨hne, -, -⟩ := hcases j l (held_of_phase hj)
    rw [hstays j hne] at hj
    rw [ht]
    exact h.own j l since till op hj

/-- Installing a snapshot leaves the queues. -/
lemma getSnapShotFromRaft_waitApplyCh {kv kv' : KvServer} {rand : ℕ → ℕ} {message : ApplyMsg}
    (h : kv.getSnapShotFromRaft A rand message = some kv') : kv'.waitApplyCh = kv.waitApplyCh := by
  obtain ⟨kv₁, hread, rfl⟩ := Option.map_eq_some_iff.mp h
  show kv₁.waitApplyCh = kv.waitApplyCh
  rw [KvServer.readSnapShotToInstall] at hread
  split_ifs at hread with hnil
  · rw [Option.some.inj hread]
  · obtain ⟨⟨serializedKVDate, last_RequestId⟩, -, hread⟩ := Option.bind_eq_some_iff.mp hread
    dsimp only at hread
    rw [KvServer.loadFile] at hread
    split_ifs at hread
    · rw [← Option.some.inj hread]
    · obtain ⟨dumper, -, rfl⟩ := Option.map_eq_some_iff.mp hread
      rfl

/-- `SendMessageToWaitChan` puts the command behind the others of its index. -/
lemma lookup_sendMessageToWaitChan (kv : KvServer) (op : Op) (raftIndex : ℤ) (i : ℤ) :
    (kv.sendMessageToWaitChan op raftIndex).waitApplyCh.lookup i =
      (kv.waitApplyCh.lookup i).map fun queue => if i = raftIndex then queue ++ [op] else queue := by
  rw [KvServer.sendMessageToWaitChan]
  cases hlookup : kv.waitApplyCh.lookup raftIndex with
  | none =>
    by_cases hi : i = raftIndex
    · rw [hi, hlookup]
      rfl
    · simp [hi]
  | some queue =>
    by_cases hi : i = raftIndex
    · subst hi
      rw [hlookup, Option.map_some, if_pos rfl]
      exact AList.lookup_insert _
    · simp only [if_neg hi, Option.map_id']
      exact AList.lookup_insert_ne hi

/-- `ReadRaftApplyCommandLoop` sends a command to the queue of its index, and changes no other. -/
lemma lookup_readRaftApplyCommand {kv kv' : KvServer} {rand : ℕ → ℕ} {raftStateSize : ℤ}
    {message : ApplyMsg} {call : Option (ℤ × Bytes)}
    (h : kv.readRaftApplyCommand A rand raftStateSize message = some (kv', call)) (i : ℤ) :
    (kv'.waitApplyCh.lookup i).isSome = (kv.waitApplyCh.lookup i).isSome ∧
      ∀ queue ∈ kv'.waitApplyCh.lookup i, ∃ old ∈ kv.waitApplyCh.lookup i, ∀ op ∈ queue,
        op ∈ old ∨ (i, op) ∈ handedOn A kv message := by
  have hsnapshot : ∀ kv₁ : KvServer, ∀ call₁ : Option (ℤ × Bytes),
      (if message.SnapshotValid = true then
          (kv₁.getSnapShotFromRaft A rand message).bind fun s => pure (s, call₁)
        else (some kv₁).bind fun s => pure (s, call₁)) = some (kv', call) →
      kv'.waitApplyCh = kv₁.waitApplyCh := by
    intro kv₁ call₁ h
    split_ifs at h
    · obtain ⟨kv₂, hread, h⟩ := Option.bind_eq_some_iff.mp h
      obtain ⟨rfl, -⟩ := Prod.mk.inj (Option.some.inj h)
      exact getSnapShotFromRaft_waitApplyCh hread
    · obtain ⟨rfl, -⟩ := Prod.mk.inj (Option.some.inj h)
      rfl
  have hkept : kv'.waitApplyCh = kv.waitApplyCh →
      (kv'.waitApplyCh.lookup i).isSome = (kv.waitApplyCh.lookup i).isSome ∧
      ∀ queue ∈ kv'.waitApplyCh.lookup i, ∃ old ∈ kv.waitApplyCh.lookup i, ∀ op ∈ queue,
        op ∈ old ∨ (i, op) ∈ handedOn A kv message := fun heq => by
    rw [heq]
    exact ⟨rfl, fun queue hq => ⟨queue, hq, fun op hop => .inl hop⟩⟩
  rw [KvServer.readRaftApplyCommand] at h
  simp only [Option.bind_eq_bind] at h
  by_cases hvalid : message.CommandValid = true
  · rw [if_pos hvalid] at h
    obtain ⟨⟨kv₁, call₁⟩, hcommand, h⟩ := Option.bind_eq_some_iff.mp h
    have hsame := hsnapshot kv₁ call₁ h
    obtain ⟨op, hload, hop⟩ := Option.map_eq_some_iff.mp hcommand
    split_ifs at hop with hskip
    · obtain ⟨rfl, -⟩ := Prod.mk.inj hop
      exact hkept hsame
    · have hkv₁ := (Prod.mk.inj hop).1
      have hhanded : handedOn A kv message = [(message.CommandIndex, op)] := by
        rw [handedOn, if_pos ⟨hvalid, Int.not_le.mp hskip⟩, hload]
        rfl
      rw [hsame, ← hkv₁, lookup_sendMessageToWaitChan, Service.executeCommand_waitApplyCh, hhanded]
      refine ⟨Option.isSome_map .., fun queue hq => ?_⟩
      obtain ⟨old, hold, rfl⟩ := Option.map_eq_some_iff.mp hq
      refine ⟨old, hold, fun op' hop' => ?_⟩
      split_ifs at hop' with hi
      · obtain hop' | hop' := List.mem_append.mp hop'
        · exact .inl hop'
        · obtain rfl := List.mem_singleton.mp hop'
          exact .inr (hi ▸ List.mem_singleton_self _)
      · exact .inl hop'
  · rw [if_neg hvalid] at h
    exact hkept (hsnapshot kv none h)

/-- The loop takes a message. -/
lemma Inv.apply (h : s.Inv) {kv : KvServer} {rand : ℕ → ℕ} {raftStateSize : ℤ} {message : ApplyMsg}
    {call : Option (ℤ × Bytes)}
    (hkv : s.kv.readRaftApplyCommand A rand raftStateSize message = some (kv, call)) :
    Inv { s with kv, popped := s.popped + 1, applied := s.applied ++ handedOn A s.kv message } where
  holder := fun i hi => h.holder i ((lookup_readRaftApplyCommand hkv i).1 ▸ hi)
  kept := fun k i hk => (lookup_readRaftApplyCommand hkv i).1.symm ▸ h.kept k i hk
  one := h.one
  waiting := fun k i ch since hk => by
    obtain ⟨hch, hsince, hall⟩ := h.waiting k i ch since hk
    rw [List.length_append]
    refine ⟨hch, Nat.le_add_right_of_le hsince, fun queue hq op hop => ?_⟩
    obtain ⟨old, hold, hqueue⟩ := (lookup_readRaftApplyCommand hkv i).2 queue hq
    rw [List.drop_append_of_le_length hsince]
    obtain hop | hop := hqueue op hop
    · exact List.mem_append_left _ (hall old hold op hop)
    · exact List.mem_append_right _ hop
  own := fun k i since till op hk => by
    obtain ⟨htill, hmem⟩ := h.own k i since till op hk
    rw [List.length_append, List.take_append_of_le_length htill]
    exact ⟨Nat.le_add_right_of_le htill, hmem⟩

/-- `Start` keeps the invariant. -/
lemma Inv.start (h : s.Inv) {op : Op} (hs : s.start A op = some t) : t.Inv := by
  have hphase : ∀ (raft : Raft) (p : HandlerPhase),
      phase { s with raft, handlers := s.handlers ++ [{ op, phase := p }] } =
        Function.update s.phase s.handlers.length (some p) := by
    intro raft p
    funext j
    rw [phase]
    obtain hlt | rfl | hgt := Nat.lt_trichotomy j s.handlers.length
    · rw [Function.update_of_ne (Nat.ne_of_lt hlt), phase, List.getElem?_append_left hlt]
    · rw [Function.update_self, List.getElem?_concat_length, Option.map_some]
    · rw [Function.update_of_ne (Nat.ne_of_gt hgt), phase, List.getElem?_eq_none (Nat.le_of_lt hgt),
        List.getElem?_eq_none]
      rw [List.length_append, List.length_singleton]
      exact hgt
  have hfree : s.held s.handlers.length = none := by
    rw [held, phase, List.getElem?_eq_none (Nat.le_refl _)]
    rfl
  have hmove : ∀ (raft : Raft) (p : HandlerPhase), p.held = none →
      (∀ i ch since, p ≠ .waiting i ch since) → (∀ i since till op, p ≠ .popped i since till op) →
      Inv { s with raft, handlers := s.handlers ++ [{ op, phase := p }] } :=
    fun raft p hp hwaiting hpopped => h.move (hfree.trans hp.symm) (hphase raft p) (fun _ => rfl)
      (fun i queue hq op hop => ⟨queue, hq, hop⟩) rfl rfl hwaiting
      (fun i since till op heq => absurd heq (hpopped i since till op))
  obtain ⟨started, -, rfl⟩ := Option.map_eq_some_iff.mp hs
  cases started with
  | none => exact hmove _ _ rfl nofun nofun
  | some started => exact hmove _ _ rfl nofun nofun

/-- A handler takes a message from its own queue. -/
lemma Inv.pop (h : s.Inv) {ch since : ℕ} (hk : s.phase k = some (.waiting i ch since))
    (ht : s.pop k i ch since = some t) : t.Inv := by
  rw [ServerNode.pop] at ht
  split_ifs at ht with hmade
  split at ht
  · rename_i op rest hlookup
    obtain rfl := Option.some.inj ht
    obtain ⟨-, hsince, hall⟩ := h.waiting k i ch since hk
    have hcases : ∀ j queue, (s.kv.waitApplyCh.insert i rest).lookup j = some queue →
        j = i ∧ queue = rest ∨ s.kv.waitApplyCh.lookup j = some queue :=
      fun j queue hq => Service.lookup_insert_cases hq
    have hheld : s.held k = (HandlerPhase.popped i since s.applied.length op).held := by
      rw [held_of_phase hk]
      rfl
    refine h.move hheld (phase_setPhase hk _) (fun j => ?_) (fun j queue hq op' hop => ?_)
      rfl rfl nofun (fun j since' till op' heq => ?_)
    · show ((s.kv.waitApplyCh.insert i rest).lookup j).isSome = _
      by_cases hj : j = i
      · rw [hj, AList.lookup_insert, hlookup]
        rfl
      · rw [AList.lookup_insert_ne hj]
    · obtain ⟨rfl, rfl⟩ | hq := hcases j queue hq
      · exact ⟨_, hlookup, List.mem_cons_of_mem _ hop⟩
      · exact ⟨queue, hq, hop⟩
    · obtain ⟨rfl, rfl, rfl, rfl⟩ := HandlerPhase.popped.inj heq
      rw [List.take_length]
      exact ⟨Nat.le_refl _, hall _ hlookup _ List.mem_cons_self⟩
  · cases ht

/-! ### Runs -/

/-- Only a handler that `Start` has answered comes to `waitApplyCh`. -/
lemma step_register (hs : s.step A (.register k) = some t) :
    ∃ raftIndex, s.phase k = some (.started raftIndex) ∧ t = s.register k raftIndex := by
  obtain ⟨handler, hk, hs⟩ := Option.bind_eq_some_iff.mp hs
  have hphase := phase_of_handler hk
  split at hs
  · rename_i raftIndex hstarted
    rw [hstarted] at hphase
    exact ⟨raftIndex, hphase, (Option.some.inj hs).symm⟩
  · cases hs

/-- A handler that is let on shares no queue. -/
lemma Inv.step (h : s.Inv) {e : Event} (hunshared : s.Unshared e) (hs : s.step A e = some t) : t.Inv := by
  cases e with
  | raft c =>
    simp only [ServerNode.step] at hs
    split at hs
    · cases hs
    · obtain ⟨raft, -, rfl⟩ := Option.map_eq_some_iff.mp hs
      exact h.congr rfl rfl rfl rfl
  | store fmp =>
    obtain rfl := Option.some.inj hs
    exact h.congr rfl rfl rfl rfl
  | start op =>
    exact h.start hs
  | register k =>
    obtain ⟨raftIndex, hphase, rfl⟩ := step_register hs
    rw [Unshared, hphase] at hunshared
    exact h.register hphase hunshared
  | pop k =>
    obtain ⟨handler, hk, hs⟩ := Option.bind_eq_some_iff.mp hs
    have hphase := phase_of_handler hk
    split at hs
    · rename_i raftIndex ch since hwaiting
      rw [hwaiting] at hphase
      exact h.pop hphase hs
    · cases hs
  | timeOut k =>
    obtain ⟨handler, hk, hs⟩ := Option.bind_eq_some_iff.mp hs
    have hphase := phase_of_handler hk
    split at hs
    · rename_i raftIndex ch since hwaiting
      obtain rfl := Option.some.inj hs
      rw [hwaiting] at hphase
      have hheld : s.held k = (HandlerPhase.timedOut raftIndex).held := by
        rw [held_of_phase hphase]
        rfl
      exact h.move hheld (phase_setPhase hphase _) (fun _ => rfl)
        (fun i queue hq op hop => ⟨queue, hq, hop⟩) rfl rfl nofun nofun
    · cases hs
  | execute k =>
    obtain ⟨handler, hk, hs⟩ := Option.bind_eq_some_iff.mp hs
    split at hs
    · split_ifs at hs
      obtain rfl := Option.some.inj hs
      exact h.congr rfl rfl rfl rfl
    · split_ifs at hs
      obtain rfl := Option.some.inj hs
      exact h.congr rfl rfl rfl rfl
    · cases hs
  | erase k =>
    obtain ⟨handler, hk, hs⟩ := Option.bind_eq_some_iff.mp hs
    have hphase := phase_of_handler hk
    split at hs
    · rename_i raftIndex since till op hpopped
      obtain rfl := Option.some.inj hs
      exact h.erase hphase (by rw [hpopped]; rfl)
    · rename_i raftIndex htimedOut
      obtain rfl := Option.some.inj hs
      exact h.erase hphase (by rw [htimedOut]; rfl)
    · cases hs
  | apply rand raftStateSize =>
    obtain ⟨message, -, hs⟩ := Option.bind_eq_some_iff.mp hs
    obtain ⟨⟨kv, call⟩, hkv, rfl⟩ := Option.map_eq_some_iff.mp hs
    exact h.apply hkv

/-- A handler that is done deletes the queue that another one waits at. -/
lemma exists_orphaned_erase {j ch since : ℕ} (hk : s.phase k = some (.waiting i ch since))
    (hj : s.phase j = some p) (hp : (∃ since till op, p = .popped i since till op) ∨ p = .timedOut i) :
    ∃ u, s.step A (.erase j) = some u ∧ u.Orphaned := by
  have hne : k ≠ j := by
    rintro rfl
    obtain rfl := Option.some.inj (hk.symm.trans hj)
    obtain ⟨_, _, _, hp⟩ | hp := hp <;> cases hp
  refine ⟨(s.setChannels (s.kv.waitApplyCh.erase i)).setPhase j .returned, ?_, k, i, ch, since, ?_, ?_⟩
  · obtain ⟨h, hh, rfl⟩ := Option.map_eq_some_iff.mp hj
    rw [step, hh, Option.bind_some]
    obtain ⟨_, _, _, hp⟩ | hp := hp <;> rw [hp]
  · rw [phase_setPhase (s := s.setChannels (s.kv.waitApplyCh.erase i)) hj, Function.update_of_ne hne]
    exact hk
  · exact AList.lookup_erase i s.kv.waitApplyCh

/-- Of two handlers with one queue the one can time out and delete the queue while the other waits. -/
lemma exists_orphaned {j ch since : ℕ} (hk : s.phase k = some (.waiting i ch since))
    (hj : s.held j = some i) (hne : j ≠ k) :
    ∃ u, Run (step A) (fun _ _ => True) s u ∧ u.Orphaned := by
  obtain ⟨p, hp, hheld⟩ := Option.bind_eq_some_iff.mp hj
  cases p with
  | started raftIndex => cases hheld
  | returned => cases hheld
  | popped raftIndex since till op =>
    obtain rfl := Option.some.inj hheld
    obtain ⟨u, hu, horphaned⟩ := exists_orphaned_erase (A := A) hk hp (.inl ⟨_, _, _, rfl⟩)
    exact ⟨u, .step .refl trivial hu, horphaned⟩
  | timedOut raftIndex =>
    obtain rfl := Option.some.inj hheld
    obtain ⟨u, hu, horphaned⟩ := exists_orphaned_erase (A := A) hk hp (.inr rfl)
    exact ⟨u, .step .refl trivial hu, horphaned⟩
  | waiting raftIndex ch' since' =>
    obtain rfl := Option.some.inj hheld
    have htimeOut : s.step A (.timeOut j) = some (s.setPhase j (.timedOut raftIndex)) := by
      obtain ⟨h, hh, hphase⟩ := Option.map_eq_some_iff.mp hp
      rw [step, hh, Option.bind_some, hphase]
    have hk' : (s.setPhase j (.timedOut raftIndex)).phase k = some (.waiting raftIndex ch since) := by
      rw [phase_setPhase hp, Function.update_of_ne (Ne.symm hne), hk]
    have hj' : (s.setPhase j (.timedOut raftIndex)).phase j = some (.timedOut raftIndex) := by
      rw [phase_setPhase hp, Function.update_self]
    obtain ⟨u, hu, horphaned⟩ := exists_orphaned_erase (A := A) hk' hj' (.inr rfl)
    exact ⟨u, .step (.step .refl trivial htimeOut) trivial hu, horphaned⟩

/-- A queue that a handler finds belongs to another one. -/
lemma Inv.shared (h : s.Inv) {e : Event} (hs : s.step A e = some t) (hshared : ¬ s.Unshared e) :
    ∃ j k i ch since, j ≠ k ∧ t.held j = some i ∧ t.phase k = some (.waiting i ch since) := by
  cases e with
  | register k =>
    obtain ⟨raftIndex, hphase, rfl⟩ := step_register hs
    rw [Unshared, hphase] at hshared
    obtain ⟨queue, hqueue⟩ := Option.ne_none_iff_exists'.mp hshared
    obtain ⟨j, hj⟩ := h.holder raftIndex (by rw [hqueue]; rfl)
    have hne : j ≠ k := by
      rintro rfl
      rw [held_of_phase hphase, HandlerPhase.held] at hj
      cases hj
    have hnext : (s.register k raftIndex).phase = Function.update s.phase k
        (some (.waiting raftIndex (s.made raftIndex) s.applied.length)) := by
      simp only [ServerNode.register, hqueue]
      exact phase_setPhase hphase _
    refine ⟨j, k, raftIndex, s.made raftIndex, s.applied.length, hne, ?_, ?_⟩
    · rw [held_update hnext, Function.update_of_ne hne, hj]
    · rw [hnext, Function.update_self]
  | raft c => exact absurd trivial hshared
  | store fmp => exact absurd trivial hshared
  | start op => exact absurd trivial hshared
  | pop k => exact absurd trivial hshared
  | timeOut k => exact absurd trivial hshared
  | execute k => exact absurd trivial hshared
  | erase k => exact absurd trivial hshared
  | apply rand raftStateSize => exact absurd trivial hshared

/-- A node whose server has no handlers yet. -/
def initial (raft : Raft) (kv : KvServer) : ServerNode := { raft, kv := { kv with waitApplyCh := ∅ } }

/-- The invariant holds at the start. -/
lemma inv_initial (raft : Raft) (kv : KvServer) : (initial raft kv).Inv where
  holder := fun _ hi => by cases hi
  kept := fun _ _ hk => by cases hk
  one := fun _ _ _ hk => by cases hk
  waiting := fun _ _ _ _ hk => by cases hk
  own := fun _ _ _ _ _ hk => by cases hk

/-- As long as no handler finds a queue for its index, every queue belongs to one handler; the first
handler that finds one shares it with another, and one of the two can then wait at a deleted queue. -/
theorem channels_belong {raft : Raft} {kv : KvServer}
    (hrun : Run (step A) Unshared (initial raft kv) s) :
    s.Belong ∧ ∀ e t, s.step A e = some t → (t.Belong ↔ s.Unshared e) ∧
      (¬ s.Unshared e → ∃ u, Run (step A) (fun _ _ => True) t u ∧ u.Orphaned) := by
  have hinv : s.Inv := hrun.invariant (fun _ _ _ h hunshared hstep => h.step hunshared hstep)
    (inv_initial raft kv)
  refine ⟨hinv.belong, fun e t ht => ⟨⟨fun hbelong => ?_, fun hunshared => ?_⟩, fun hshared => ?_⟩⟩
  · by_contra hshared
    obtain ⟨j, k, i, ch, since, hne, hj, hk⟩ := hinv.shared ht hshared
    exact hne (hbelong.one j k i hj (by rw [held_of_phase hk]; rfl))
  · exact (hinv.step hunshared ht).belong
  · obtain ⟨j, k, i, ch, since, hne, hj, hk⟩ := hinv.shared ht hshared
    exact exists_orphaned hk hj hne

/-- Node 0 of three becomes leader of term 1. -/
def elected : List Event :=
  [.raft .doElection, .store { term := 1, role := .candidate },
    .raft (.handleRequestVoteResponse ⟨1, 0, 0, 0⟩ ⟨1, true, .normal⟩ 1)]

/-- Two handlers of `Put` wait. The first takes its command from its queue while the second still waits
at its own. -/
theorem channels_belong_put : ∃ s : ServerNode,
    (s.phase 0 = some (.popped 1 0 1 ⟨opPut, [1], [5], [9], 1⟩) ∧
      s.phase 1 = some (.waiting 2 1 0) ∧ s.applied = [(1, ⟨opPut, [1], [5], [9], 1⟩)]) ∧ s.Belong := by
  have hruns : ∃ s ∈ runIf (step textArchives) Unshared
      (initial (.init 0 3 {} [] []) (.create (-1)))
      (elected ++ [.start ⟨opPut, [1], [5], [9], 1⟩, .register 0, .start ⟨opPut, [2], [6], [8], 1⟩,
        .register 1, .raft (.onLogStable true 1), .raft (.onLogStable true 2),
        .raft (.handleAppendEntries 1
          ⟨1, 0, 0, 0, [⟨textArchives.op.save ⟨opPut, [1], [5], [9], 1⟩, 1, 1⟩], 0⟩ ⟨1, true, -100⟩),
        .raft .applierTicker,
        .raft (.push
          { CommandValid := true
            Command := textArchives.op.save ⟨opPut, [1], [5], [9], 1⟩
            CommandIndex := 1 }),
        .apply (fun _ => 0) 0, .pop 0]),
      s.phase 0 = some (.popped 1 0 1 ⟨opPut, [1], [5], [9], 1⟩) ∧
        s.phase 1 = some (.waiting 2 1 0) ∧ s.applied = [(1, ⟨opPut, [1], [5], [9], 1⟩)] := by decide
  obtain ⟨s, hrun, hs⟩ := exists_run_of_runIf hruns
  exact ⟨s, hs, (channels_belong hrun).1⟩

/-- The record of a first `Put` cannot be written, and its entry is erased while its handler waits.
`Start` gives the same index for a second one, whose handler finds the queue; the first handler deletes
it when its time is up. -/
theorem exists_queue_deleted : ∃ s : ServerNode,
    Run (step textArchives) (fun _ _ => True) (initial (.init 0 3 {} [] []) (.create (-1))) s ∧
      s.phase 0 = some .returned ∧ s.phase 1 = some (.waiting 1 1 0) ∧
      s.kv.waitApplyCh.lookup 1 = none ∧ ¬ s.Belong := by
  have hruns : ∃ s ∈ runIf (step textArchives) (fun _ _ => True)
      (initial (.init 0 3 {} [] []) (.create (-1)))
      (elected ++ [.start ⟨opPut, [1], [5], [9], 1⟩, .register 0, .raft (.onLogStable false 1),
        .start ⟨opPut, [1], [6], [8], 1⟩, .register 1, .timeOut 0, .erase 0]),
      s.phase 0 = some .returned ∧ s.phase 1 = some (.waiting 1 1 0) ∧
        s.kv.waitApplyCh.lookup 1 = none := by decide
  obtain ⟨s, hrun, hfirst, hsecond, hnone⟩ := exists_run_of_runIf hruns
  refine ⟨s, hrun, hfirst, hsecond, hnone, fun hbelong => ?_⟩
  obtain ⟨-, hsome⟩ := hbelong.kept 1 1 1 0 hsecond
  rw [hnone] at hsome
  cases hsome

end ServerNode

end KVCacheRaft
