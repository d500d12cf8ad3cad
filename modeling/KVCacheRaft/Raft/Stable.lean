import KVCacheRaft.Raft.Calls
import KVCacheRaft.Raft.Indices
import KVCacheRaft.Wal.Writer

/-!
# The stable index

One node and its write-ahead log, as the list of the records in it. `Start` appends to `m_logs` under
the lock and hands its batch to the writer after it; an `AppendEntries` handler hands its batch over
with the lock released and takes it again when the batch is on disk. The writer takes batches in
groups and answers them after a sync, the callbacks of `Start` one by one. An entry counts as stable
when its callback has run, or when a handler of `AppendEntries` has applied its writes: for this to be
true no other entry may be written over one on whose record something still relies.
-/

namespace KVCacheRaft

open Machine

/-- A handler of `AppendEntries` that has released the lock. -/
structure Unlocked where
  request : AppendEntriesArgs
  pending : List PendingLogWrite
  pushed : Bool
  answer : Option Bool

/-- A node with its write-ahead log. A waiter is that of the handler of its number, and a callback that
of an entry of `Start`. -/
structure Durable where
  node : Raft
  /-- entries that `Start` has appended and not handed to the writer yet -/
  started : List LogEntry
  handlers : List Unlocked
  /-- `m_queue_log` -/
  queue : List (LogBatch ℕ LogEntry)
  /-- the records on disk in the order of the writes, with whether they are synced -/
  records : List (LogEntry × Bool)
  /-- the batches that are written and not answered -/
  unsynced : List (Ticket ℕ LogEntry)
  /-- calls of `onLogStable` that the writer has still to make -/
  notices : List (Bool × LogEntry)
  /-- while nothing was written to the segment that was reopened: the number of records in the
  segments before it, to which a failed write cuts the log -/
  reopened : Option ℕ

namespace Durable

/-- Something that happens. -/
inductive Event where
  | doElection
  | handleRequestVoteResponse (args : RequestVoteArgs) (reply : RequestVoteReply) (votedNum : ℕ)
  | requestVote (request : RequestVoteArgs)
  | handleAppendEntries (server : ℕ) (args : AppendEntriesArgs) (reply : AppendEntriesReply)
  | start (command : Bytes)
  /-- `AppendLogAsync` for an entry of `Start` -/
  | push (k : ℕ)
  | appendEntries (request : AppendEntriesArgs)
  /-- `AppendLogAndWaitStable` of a handler -/
  | pushWrites (k : ℕ)
  /-- a handler that was answered takes the lock again -/
  | resume (k : ℕ)
  /-- the writer writes the next batch of its group -/
  | write
  /-- the writer takes a group of `n` batches and fails to write the one at `j` -/
  | writeFails (n j : ℕ)
  | sync (ok : Bool)
  /-- the writer calls `onLogStable` -/
  | onLogStable

/-- `NotifyWaiters` and `NotifyCallbacks`, but for the calls themselves. -/
def notify (s : Durable) (ok : Bool) : List (Ticket ℕ LogEntry) → Durable
  | [] => s
  | .callback e :: rest => { s with notices := s.notices ++ [(ok, e)] }.notify ok rest
  | .waiter k :: rest =>
    { s with handlers := s.handlers.modify k fun h => { h with answer := some ok } }.notify ok rest

/-- What an event does; none when it cannot happen, or when the node dies. -/
def step (s : Durable) : Event → Option Durable
  | .doElection => s.node.doElection.map fun (node, _) => { s with node }
  | .handleRequestVoteResponse args reply votedNum =>
    some { s with node := (s.node.handleRequestVoteResponse args reply votedNum).1 }
  | .requestVote request => some { s with node := (s.node.requestVote request).1 }
  | .handleAppendEntries server args reply =>
    (s.node.handleAppendEntries server args reply).toOption.map fun node => { s with node }
  | .start command => (s.node.start command).toOption.join.map fun (node, e) =>
    { s with node, started := s.started ++ [e] }
  | .push k => s.started[k]?.map fun e =>
    { s with
      started := s.started.eraseIdx k
      queue := s.queue ++ [{ logs := [e], ticket := .callback e }] }
  | .appendEntries request => (s.node.appendEntries request).toOption.map fun (node, phase) =>
    match phase with
    | .replied _ => { s with node }
    | .unlocked pending =>
      -- without writes there is nothing to wait for
      { s with
        node
        handlers := s.handlers ++
          [{ request, pending, pushed := pending.isEmpty
             answer := if pending = [] then some true else none }] }
  | .pushWrites k => s.handlers[k]?.bind fun h =>
    if h.pushed then none
    else some
      { s with
        handlers := s.handlers.modify k fun h => { h with pushed := true }
        queue := s.queue ++ [{ logs := h.pending.map (·.log), ticket := .waiter k }] }
  | .resume k => s.handlers[k]?.bind fun h => h.answer.bind fun stable =>
    (s.node.appendEntriesStable h.request h.pending stable).toOption.map fun (node, _) =>
      { s with node, handlers := s.handlers.modify k fun h => { h with answer := none } }
  | .write =>
    match s.queue with
    | [] => none
    | b :: queue =>
      if s.notices ≠ [] then none
      else some
        { s with
          queue
          records := s.records ++ b.logs.map fun e => (e, false)
          unsynced := s.unsynced ++ [b.ticket]
          reopened := if b.logs = [] then s.reopened else none }
  | .writeFails n j =>
    if s.notices ≠ [] ∨ n ≤ j then none
    else
      let group := s.queue.take n
      let failed : Durable :=
        { s with
          queue := s.queue.drop n
          records := match s.reopened with
            | some closed => s.records.take closed
            | none => s.records
          unsynced := []
          reopened := none }
      -- the batches behind the one that failed are dropped with no answer
      some (failed.notify false (s.unsynced ++ (group.take (j + 1)).map (·.ticket)))
  | .sync ok =>
    if s.notices ≠ [] then none
    else
      let records := if ok then s.records.map fun r => (r.1, true) else s.records
      let synced : Durable := { s with records, unsynced := [] }
      some (synced.notify ok s.unsynced)
  | .onLogStable =>
    match s.notices with
    | [] => none
    | (ok, e) :: rest =>
      some { s with node := s.node.onLogStable ok e.logindex, notices := rest }

/-! ### What the stable index says -/

/-- The last record with an index. -/
def newest (records : List (LogEntry × Bool)) (index : ℤ) : Option LogEntry :=
  (records.filter (·.1.logindex = index)).getLast?.map (·.1)

/-- The entry is synced, and no other one was written with its index since. -/
def OnDisk (records : List (LogEntry × Bool)) (e : LogEntry) : Prop :=
  (e, true) ∈ records ∧ newest records e.logindex = some e

/-- The stable index is not above the last one, and the entries up to it are on disk. -/
structure Truthful (node : Raft) (records : List (LogEntry × Bool)) : Prop where
  stable_le : node.stableLogIndex ≤ node.getLastLogIndex
  onDisk : ∀ e ∈ node.logs, e.logindex ≤ node.stableLogIndex → OnDisk records e

instance (records : List (LogEntry × Bool)) (e : LogEntry) : Decidable (OnDisk records e) := by
  unfold OnDisk
  infer_instance

/-- The handler passes the checks that it makes when it has the lock again. -/
def Applies (s : Raft) (h : Unlocked) : Prop :=
  h.answer = some true ∧ s.PassesChecks h.request h.pending

/-! ### Calm steps -/

/-- The entries of a handler of the current term; one of an earlier term will apply nothing. -/
def writes (s : Durable) (h : Unlocked) : List LogEntry :=
  if h.request.term = s.node.currentTerm then h.pending.map (·.log) else []

/-- The entries of the batch with a ticket. -/
def ticketLogs (s : Durable) : Ticket ℕ LogEntry → List LogEntry
  | .callback e => [e]
  | .waiter k => s.handlers[k]?.elim [] s.writes

/-- The entries that are written and that something still relies on: a batch that is not answered, or
a handler that has its answer and not the lock. -/
def awaited (s : Durable) : List LogEntry :=
  s.unsynced.flatMap s.ticketLogs ++ (s.handlers.filter (·.answer = some true)).flatMap s.writes

/-- The entries of the log up to the stable index. -/
def stable (s : Durable) : List LogEntry :=
  s.node.logs.filter (·.logindex ≤ s.node.stableLogIndex)

/-- What has to hold of an event.

* The writer writes no other entry over one of the log up to the stable index, over one that is
  awaited, or over one of the same batch.
* No write fails in a reopened segment that holds records.
* A callback of success above the stable index is for the next index, and for an entry that is still
  in the log; a callback of failure that erases entries is for an index above the stable one.
* A handler of `AppendEntries` applies its writes only if they replace every entry above the stable
  index. -/
def Calm (s : Durable) : Event → Prop
  | .write => ∀ b ∈ s.queue.head?, ∀ e ∈ b.logs, ∀ x ∈ s.stable ++ s.awaited ++ b.logs,
    x.logindex = e.logindex → x = e
  | .writeFails _ _ => ∀ closed ∈ s.reopened, s.records.length ≤ closed
  | .onLogStable => ∀ notice ∈ s.notices.head?,
    if notice.1 then
      s.node.stableLogIndex < notice.2.logindex →
        notice.2.logindex = s.node.stableLogIndex + 1 ∧ notice.2 ∈ s.node.logs
    else
      s.node.commitIndex < notice.2.logindex → notice.2.logindex ≤ s.node.getLastLogIndex →
        s.node.stableLogIndex < notice.2.logindex
  | .resume k => ∀ h ∈ s.handlers[k]?, Applies s.node h →
    ∀ e ∈ s.node.logs, s.node.stableLogIndex < e.logindex →
      ∃ item ∈ h.pending, item.log.logindex = e.logindex
  | _ => True

/-! ### Records -/

section

variable {records records' : List (LogEntry × Bool)} {e : LogEntry} {index : ℤ}

/-- The newest record of an index is one of the records. -/
lemma newest_mem (h : newest records index = some e) :
    e.logindex = index ∧ ∃ synced, (e, synced) ∈ records := by
  obtain ⟨r, hr, rfl⟩ := Option.map_eq_some_iff.mp h
  obtain ⟨hmem, hindex⟩ := List.mem_filter.mp (List.mem_of_getLast? hr)
  exact ⟨of_decide_eq_true hindex, r.2, hmem⟩

/-- Later records count, where there are any with the index. -/
lemma newest_append (records records' : List (LogEntry × Bool)) (index : ℤ) :
    newest (records ++ records') index = (newest records' index).or (newest records index) := by
  rw [newest, newest, newest, List.filter_append, List.getLast?_append]
  cases (records'.filter (·.1.logindex = index)).getLast? <;> rfl

/-- Syncing the records keeps the newest one. -/
lemma newest_synced (records : List (LogEntry × Bool)) (index : ℤ) :
    newest (records.map fun r => (r.1, true)) index = newest records index := by
  rw [newest, newest, List.filter_map, List.getLast?_map, Option.map_map]
  rfl

/-- An entry on disk stays so when the records are synced. -/
lemma OnDisk.sync (h : OnDisk records e) : OnDisk (records.map fun r => (r.1, true)) e :=
  ⟨List.mem_map.mpr ⟨_, h.1, rfl⟩, by rw [newest_synced]; exact h.2⟩

/-- Some record with the index of a record is the last one. -/
lemma exists_newest {synced : Bool} (h : (e, synced) ∈ records) :
    ∃ x, newest records e.logindex = some x := by
  have hmem : (e, synced) ∈ records.filter (·.1.logindex = e.logindex) :=
    List.mem_filter.mpr ⟨h, decide_eq_true rfl⟩
  exact ⟨_, congrArg (Option.map fun r : LogEntry × Bool => r.1)
    (List.getLast?_eq_getLast_of_ne_nil (List.ne_nil_of_mem hmem))⟩

/-- The last entry written with its index stays the last one when later records with that index are
records of the same entry. -/
lemma newest_append_same (h : newest records e.logindex = some e)
    (hsame : ∀ r ∈ records', r.1.logindex = e.logindex → r.1 = e) :
    newest (records ++ records') e.logindex = some e := by
  rw [newest_append]
  cases hnew : newest records' e.logindex with
  | none => exact h
  | some x =>
    obtain ⟨hindex, synced, hx⟩ := newest_mem hnew
    exact congrArg some (hsame _ hx hindex)

/-- A record that no other one with its index follows in its batch is the last one. -/
lemma newest_append_mem {synced : Bool} (h : (e, synced) ∈ records')
    (hsame : ∀ r ∈ records', r.1.logindex = e.logindex → r.1 = e) :
    newest (records ++ records') e.logindex = some e := by
  obtain ⟨x, hnew⟩ := exists_newest h
  obtain ⟨hindex, b, hx⟩ := newest_mem hnew
  obtain rfl : x = e := hsame _ hx hindex
  rw [newest_append, hnew]
  rfl

/-- An entry on disk stays so behind records of no other entry of its index. -/
lemma OnDisk.append (h : OnDisk records e)
    (hsame : ∀ r ∈ records', r.1.logindex = e.logindex → r.1 = e) :
    OnDisk (records ++ records') e :=
  ⟨List.mem_append_left _ h.1, newest_append_same h.2 hsame⟩

end

/-! ### The invariant -/

/-- What holds of a node, its handlers and the writer. -/
structure Inv (s : Durable) : Prop where
  index : s.node.IndexInv
  truthful : Truthful s.node s.records
  terms : ∀ u ∈ s.handlers, u.request.term ≤ s.node.currentTerm
  /-- nothing is written over what is awaited -/
  awaited : ∀ e ∈ s.awaited, newest s.records e.logindex = some e
  /-- the writer writes nothing while it makes its calls -/
  notices : ∀ e, (true, e) ∈ s.notices →
    newest s.records e.logindex = some e ∧ ∀ r ∈ s.records, r.2 = true
  answered : ∀ (k : ℕ) h, s.handlers[k]? = some h → h.answer = some true →
    ∀ item ∈ h.pending, (item.log, true) ∈ s.records
  unsynced : ∀ (k : ℕ), .waiter k ∈ s.unsynced → ∃ h, s.handlers[k]? = some h ∧
    ∀ item ∈ h.pending, ∃ synced, (item.log, synced) ∈ s.records
  queue : ∀ b ∈ s.queue, ∀ (k : ℕ), b.ticket = .waiter k → ∃ h, s.handlers[k]? = some h ∧
    b.logs = h.pending.map (·.log)
  callbacks : ∀ b ∈ s.queue, ∀ e, b.ticket = .callback e → b.logs = [e]

variable {s s' : Durable} {e : LogEntry}

/-- What a handler writes, as long as its term is the current one. -/
lemma mem_writes {u : Unlocked} :
    e ∈ s.writes u ↔ u.request.term = s.node.currentTerm ∧ ∃ item ∈ u.pending, item.log = e := by
  unfold writes
  split_ifs with hterm <;> simp [hterm]

/-- What is awaited is awaited by a callback or by a handler. -/
lemma mem_awaited : e ∈ s.awaited ↔ .callback e ∈ s.unsynced ∨
    ∃ (k : ℕ) (u : Unlocked), s.handlers[k]? = some u ∧
      (.waiter k ∈ s.unsynced ∨ u.answer = some true) ∧ e ∈ s.writes u := by
  rw [awaited, List.mem_append, List.mem_flatMap, List.mem_flatMap]
  constructor
  · rintro (⟨ticket, hticket, he⟩ | ⟨u, hu, he⟩)
    · cases ticket with
      | callback x =>
        obtain rfl := List.mem_singleton.mp he
        exact .inl hticket
      | waiter k =>
        rw [ticketLogs] at he
        cases hk : s.handlers[k]? with
        | none =>
          rw [hk] at he
          cases he
        | some u =>
          rw [hk] at he
          exact .inr ⟨k, u, hk, .inl hticket, he⟩
    · obtain ⟨hmem, hanswer⟩ := List.mem_filter.mp hu
      obtain ⟨k, hk⟩ := List.getElem?_of_mem hmem
      exact .inr ⟨k, u, hk, .inr (of_decide_eq_true hanswer), he⟩
  · rintro (hticket | ⟨k, u, hk, hticket | hanswer, he⟩)
    · exact .inl ⟨_, hticket, List.mem_singleton.mpr rfl⟩
    · refine .inl ⟨_, hticket, ?_⟩
      rw [ticketLogs, hk]
      exact he
    · exact .inr ⟨u, List.mem_filter.mpr ⟨List.mem_of_getElem? hk, decide_eq_true hanswer⟩, he⟩

/-- What is awaited of a node that has moved on was awaited before: a handler of an earlier term is
not one of the new term. -/
lemma Inv.awaited_node (h : s.Inv) {node : Raft} (hterm : s.node.currentTerm ≤ node.currentTerm)
    (he : e ∈ Durable.awaited { s with node }) : e ∈ s.awaited := by
  obtain hticket | ⟨k, u, hk, hu, he⟩ := mem_awaited.mp he
  · exact mem_awaited.mpr (.inl hticket)
  · obtain ⟨hnow, hitem⟩ := mem_writes.mp he
    have hle := h.terms u (List.mem_of_getElem? hk)
    exact mem_awaited.mpr (.inr ⟨k, u, hk, hu,
      mem_writes.mpr ⟨Nat.le_antisymm hle (hnow ▸ hterm), hitem⟩⟩)

/-- A step of the node that leaves the log and the stable index. -/
lemma Inv.node (h : s.Inv) {node : Raft} (hindex : node.IndexInv)
    (hterm : s.node.currentTerm ≤ node.currentTerm) (hlogs : node.logs = s.node.logs)
    (hsnap : node.lastSnapshotIndex = s.node.lastSnapshotIndex)
    (hstable : node.stableLogIndex = s.node.stableLogIndex) : Inv { s with node } where
  index := hindex
  truthful := by
    refine ⟨?_, fun e he hle => h.truthful.onDisk e (hlogs ▸ he) (hstable ▸ hle)⟩
    have := h.truthful.stable_le
    rw [Raft.getLastLogIndex] at this ⊢
    rw [hlogs, hsnap, hstable]
    exact this
  terms u hu := Nat.le_trans (h.terms u hu) hterm
  awaited e he := h.awaited e (h.awaited_node hterm he)
  notices := h.notices
  answered := h.answered
  unsynced := h.unsynced
  queue := h.queue
  callbacks := h.callbacks

/-- What `notify` does. -/
structure Notified (s s' : Durable) (ok : Bool) (tickets : List (Ticket ℕ LogEntry)) : Prop where
  node : s'.node = s.node
  queue : s'.queue = s.queue
  records : s'.records = s.records
  unsynced : s'.unsynced = s.unsynced
  notices : ∀ b e, (b, e) ∈ s'.notices → (b, e) ∈ s.notices ∨ b = ok ∧ .callback e ∈ tickets
  handlers : ∀ (k : ℕ) h', s'.handlers[k]? = some h' → ∃ h, s.handlers[k]? = some h ∧
    h'.request = h.request ∧ h'.pending = h.pending ∧
    (h'.answer = some true → h.answer = some true ∨ ok = true ∧ .waiter k ∈ tickets)
  kept : ∀ (k : ℕ) h, s.handlers[k]? = some h → ∃ h', s'.handlers[k]? = some h' ∧
    h'.pending = h.pending

/-- The callbacks of a group, one after another. -/
lemma notified (s : Durable) (ok : Bool) (tickets : List (Ticket ℕ LogEntry)) :
    Notified s (s.notify ok tickets) ok tickets := by
  induction tickets generalizing s with
  | nil =>
    exact ⟨rfl, rfl, rfl, rfl, fun b e hb => .inl hb, fun k h' hk => ⟨h', hk, rfl, rfl, .inl⟩,
      fun k h hk => ⟨h, hk, rfl⟩⟩
  | cons ticket rest ih =>
    cases ticket with
    | callback e =>
      have hr := ih { s with notices := s.notices ++ [(ok, e)] }
      refine ⟨hr.node, hr.queue, hr.records, hr.unsynced, fun b x hb => ?_, fun k h' hk => ?_, hr.kept⟩
      · obtain hb | hb := hr.notices b x hb
        · obtain hb | hb := List.mem_append.mp hb
          · exact .inl hb
          · obtain ⟨rfl, rfl⟩ := Prod.mk.inj (List.mem_singleton.mp hb)
            exact .inr ⟨rfl, List.mem_cons_self⟩
        · exact .inr ⟨hb.1, List.mem_cons_of_mem _ hb.2⟩
      · obtain ⟨h, hh, hrequest, hpending, hanswer⟩ := hr.handlers k h' hk
        exact ⟨h, hh, hrequest, hpending, fun ht => (hanswer ht).imp_right fun hw =>
          ⟨hw.1, List.mem_cons_of_mem _ hw.2⟩⟩
    | waiter j =>
      have hr := ih { s with handlers := s.handlers.modify j fun h => { h with answer := some ok } }
      refine ⟨hr.node, hr.queue, hr.records, hr.unsynced, fun b x hb => ?_, fun k h' hk => ?_,
        fun k h hk => ?_⟩
      · exact (hr.notices b x hb).imp_right fun hx => ⟨hx.1, List.mem_cons_of_mem _ hx.2⟩
      · obtain ⟨h, hh, hrequest, hpending, hanswer⟩ := hr.handlers k h' hk
        rw [List.getElem?_modify] at hh
        obtain ⟨h₀, hh₀, rfl⟩ := Option.map_eq_some_iff.mp hh
        by_cases hjk : j = k
        · subst hjk
          rw [if_pos rfl] at hrequest hpending hanswer
          refine ⟨h₀, hh₀, hrequest, hpending, fun ht => .inr ?_⟩
          obtain ht | hw := hanswer ht
          · exact ⟨Option.some.inj ht, List.mem_cons_self⟩
          · exact ⟨hw.1, List.mem_cons_self⟩
        · rw [if_neg hjk] at hrequest hpending hanswer
          exact ⟨h₀, hh₀, hrequest, hpending, fun ht => (hanswer ht).imp_right fun hw =>
            ⟨hw.1, List.mem_cons_of_mem _ hw.2⟩⟩
      · have hmod : (s.handlers.modify j fun h => { h with answer := some ok })[k]? =
            some (if j = k then { h with answer := some ok } else h) := by
          rw [List.getElem?_modify, hk]
          rfl
        obtain ⟨h', hh', hpending⟩ := hr.kept k _ hmod
        refine ⟨h', hh', hpending.trans ?_⟩
        split_ifs <;> rfl

/-- The entries of the log after the writes of a handler: its own, and old ones at other indices. -/
lemma mem_foldl_applyPending {r : Raft} (h : r.IndexInv) {pending : List PendingLogWrite}
    {logs : List LogEntry} (haligned : Aligned r.lastSnapshotIndex logs)
    (hlen : r.logs.length ≤ logs.length)
    (hcheck : r.checkPending (r.lastSnapshotIndex + logs.length) pending = none) {e : LogEntry}
    (he : e ∈ pending.foldl r.applyPending logs) :
    (∃ item ∈ pending, r.lastSnapshotIndex < item.log.logindex ∧ e = item.log) ∨
      e ∈ logs ∧ ∀ item ∈ pending, r.lastSnapshotIndex < item.log.logindex →
        item.log.logindex ≠ e.logindex := by
  induction pending generalizing logs with
  | nil => exact .inr ⟨he, fun item hi => by cases hi⟩
  | cons item rest ih =>
    rw [Raft.checkPending] at hcheck
    rw [List.foldl_cons, Raft.applyPending] at he
    have hlater : (∃ x ∈ rest, r.lastSnapshotIndex < x.log.logindex ∧ e = x.log) →
        ∃ x ∈ item :: rest, r.lastSnapshotIndex < x.log.logindex ∧ e = x.log := by
      rintro ⟨x, hx, hsnap, heq⟩
      exact ⟨x, List.mem_cons_of_mem _ hx, hsnap, heq⟩
    split_ifs at hcheck with hsnap happend hnext hrange hplace
    · -- below the snapshot nothing is written
      rw [if_pos hsnap] at he
      obtain hitem | ⟨hmem, hother⟩ := ih haligned hlen hcheck he
      · exact .inl (hlater hitem)
      · refine .inr ⟨hmem, fun x hx habove => ?_⟩
        obtain rfl | hx := List.mem_cons.mp hx
        · exact absurd hsnap (Int.not_le.mpr habove)
        · exact hother x hx habove
    · rw [if_neg hsnap, if_pos happend] at he
      have hnext' := not_not.mp hnext
      have hconcat : Aligned r.lastSnapshotIndex (logs ++ [item.log]) :=
        haligned.concat (by omega)
      have hcheck' : r.checkPending (r.lastSnapshotIndex + (logs ++ [item.log]).length) rest =
          none := by
        rw [List.length_append, List.length_singleton]
        rw [hnext'] at hcheck
        push_cast
        rw [← Int.add_assoc]
        exact hcheck
      obtain hitem | ⟨hmem, hother⟩ := ih hconcat (by simp; omega) hcheck' he
      · exact .inl (hlater hitem)
      · obtain hold | hmem := List.mem_append.mp hmem
        · refine .inr ⟨hold, fun x hx habove => ?_⟩
          obtain rfl | hx := List.mem_cons.mp hx
          · obtain ⟨i, hi⟩ := List.getElem?_of_mem hold
            have hindex := haligned i e hi
            have hlt := (List.getElem?_eq_some_iff.mp hi).1
            omega
          · exact hother x hx habove
        · obtain rfl := List.mem_singleton.mp hmem
          exact .inl ⟨item, List.mem_cons_self, Int.not_le.mp hsnap, rfl⟩
    · rw [if_neg hsnap, if_neg happend] at he
      obtain ⟨old, hold, hidx⟩ := Option.map_eq_some_iff.mp (not_not.mp hplace)
      have hlt : item.vecIndex.toNat < logs.length := by omega
      have hplace' := h.aligned _ _ hold
      have hhere := haligned _ _ (List.getElem?_eq_getElem hlt)
      have hset : Aligned r.lastSnapshotIndex (logs.set item.vecIndex.toNat item.log) :=
        haligned.set (List.getElem?_eq_getElem hlt) (by omega)
      obtain hitem | ⟨hmem, hother⟩ := ih hset (by simpa using hlen)
        (by rw [List.length_set]; exact hcheck) he
      · exact .inl (hlater hitem)
      · obtain ⟨i, hi⟩ := List.getElem?_of_mem hmem
        have hindex := hset i e hi
        rw [List.getElem?_set] at hi
        split_ifs at hi with hik
        · obtain rfl := Option.some.inj hi
          exact .inl ⟨item, List.mem_cons_self, Int.not_le.mp hsnap, rfl⟩
        · refine .inr ⟨List.mem_of_getElem? hi, fun x hx habove => ?_⟩
          obtain rfl | hx := List.mem_cons.mp hx
          · omega
          · exact hother x hx habove

/-- A handler that takes the lock again. -/
lemma Inv.resume (h : s.Inv) {u : Unlocked} {k : ℕ} (hk : s.handlers[k]? = some u)
    (hcalm : Applies s.node u → ∀ e ∈ s.node.logs, s.node.stableLogIndex < e.logindex →
      ∃ item ∈ u.pending, item.log.logindex = e.logindex)
    {stable : Bool} (hanswer : u.answer = some stable) {node : Raft} {reply : AppendEntriesReply}
    (hs : s.node.appendEntriesStable u.request u.pending stable = .ok (node, reply)) :
    Inv { s with node } := by
  have hindex := h.index
  obtain ⟨t, reply', ht, hindex', -⟩ := hindex.appendEntriesStable u.request u.pending stable
  obtain ⟨rfl, rfl⟩ := Prod.mk.inj (Except.ok.inj (hs.symm.trans ht))
  obtain ⟨rfl, -⟩ | ⟨rfl, hchecks, happly⟩ := Raft.appendEntriesStable_cases hs
  · exact h.node hindex' le_rfl rfl rfl rfl
  · have hreplaces := hcalm ⟨hanswer, hchecks⟩
    have hcheck := hchecks.pending
    rw [hindex.last_eq] at hcheck
    obtain ⟨-, haligned, hlen⟩ := Raft.foldl_applyPending hindex.aligned hindex.aligned le_rfl hcheck
    obtain ⟨logs, last, rfl, rfl, rfl, -⟩ := Raft.applyEntries_cases happly
    have hold := hindex.last_eq
    have hnew := hindex'.last_eq
    have hstable := h.truthful.stable_le
    refine ⟨hindex', ⟨?_, fun e he hle => ?_⟩, h.terms,
      fun e he => h.awaited e (h.awaited_node le_rfl he), h.notices, h.answered, h.unsynced, h.queue,
      h.callbacks⟩
    · refine Int.max_le.mpr ⟨Int.le_trans hstable ?_, Int.le_refl _⟩
      rw [hold]
      refine Int.le_trans ?_ (Int.le_of_eq hnew.symm)
      exact Int.add_le_add_left (Int.ofNat_le.mpr hlen) _
    · obtain ⟨item, hitem, habove, rfl⟩ | ⟨hmem, hother⟩ :=
        mem_foldl_applyPending hindex hindex.aligned le_rfl hcheck he
      · -- its batch is awaited until now
        exact ⟨h.answered k u hk hanswer item hitem, h.awaited _ (mem_awaited.mpr
          (.inr ⟨k, u, hk, .inr hanswer, mem_writes.mpr ⟨hchecks.term_eq.symm, item, hitem, rfl⟩⟩))⟩
      · obtain hgt | hle' := lt_or_ge s.node.stableLogIndex e.logindex
        · obtain ⟨item, hitem, heq⟩ := hreplaces e hmem hgt
          obtain ⟨i, hi⟩ := List.getElem?_of_mem hmem
          have hei := hindex.aligned i e hi
          exact absurd heq (hother item hitem (by omega))
        · exact h.truthful.onDisk e hmem hle'

/-- Marks on a handler that its writes do not depend on. -/
lemma Inv.modify (h : s.Inv) (k : ℕ) {f : Unlocked → Unlocked}
    (hrequest : ∀ u, (f u).request = u.request) (hpending : ∀ u, (f u).pending = u.pending)
    (hanswer : ∀ u, (f u).answer = some true → u.answer = some true) :
    Inv { s with handlers := s.handlers.modify k f } := by
  have hkept : ∀ (j : ℕ) u, s.handlers[j]? = some u →
      ∃ u', (s.handlers.modify k f)[j]? = some u' ∧ u'.pending = u.pending := by
    intro j u hj
    refine ⟨if k = j then f u else u, by rw [List.getElem?_modify, hj]; rfl, ?_⟩
    split_ifs
    · exact hpending u
    · rfl
  have hold : ∀ (j : ℕ) u', (s.handlers.modify k f)[j]? = some u' → ∃ u, s.handlers[j]? = some u ∧
      u'.request = u.request ∧ u'.pending = u.pending ∧
        (u'.answer = some true → u.answer = some true) := by
    intro j u' hj
    rw [List.getElem?_modify] at hj
    obtain ⟨u, hu, rfl⟩ := Option.map_eq_some_iff.mp hj
    refine ⟨u, hu, ?_⟩
    split_ifs
    · exact ⟨hrequest u, hpending u, hanswer u⟩
    · exact ⟨rfl, rfl, id⟩
  refine ⟨h.index, h.truthful, fun u' hu' => ?_, fun e he => ?_, h.notices, fun j u' hj ht => ?_,
    fun j hj => ?_, fun b hb j hj => ?_, h.callbacks⟩
  · obtain ⟨j, hj⟩ := List.getElem?_of_mem hu'
    obtain ⟨u, hu, hr, -⟩ := hold j u' hj
    rw [hr]
    exact h.terms u (List.mem_of_getElem? hu)
  · refine h.awaited e (mem_awaited.mpr ((mem_awaited.mp he).imp_right ?_))
    rintro ⟨j, u', hj, hu', he⟩
    obtain ⟨u, hu, hr, hp, ha⟩ := hold j u' hj
    refine ⟨j, u, hu, hu'.imp_right ha, mem_writes.mpr ?_⟩
    rw [← hr, ← hp]
    exact mem_writes.mp he
  · obtain ⟨u, hu, -, hp, ha⟩ := hold j u' hj
    rw [hp]
    exact h.answered j u hu (ha ht)
  · obtain ⟨u, hu, hrecords⟩ := h.unsynced j hj
    obtain ⟨u', hu', hp⟩ := hkept j u hu
    exact ⟨u', hu', hp ▸ hrecords⟩
  · obtain ⟨u, hu, hlogs⟩ := h.queue b hb j hj
    obtain ⟨u', hu', hp⟩ := hkept j u hu
    exact ⟨u', hu', hp ▸ hlogs⟩

/-- `Start` keeps the invariant. -/
lemma Inv.start (h : s.Inv) {command : Bytes} {node : Raft} {e : LogEntry}
    (hs : s.node.start command = .ok (some (node, e))) :
    Inv { s with node, started := s.started ++ [e] } := by
  have hindex := (h.index.start hs).1
  have hstable := h.truthful.stable_le
  obtain ⟨-, he, rfl⟩ := Raft.start_cases hs
  have hlast : { s.node with logs := s.node.logs ++ [e] }.persistState.getLastLogIndex =
      s.node.getLastLogIndex + 1 := by
    rw [Raft.getLastLogIndex_concat rfl]
    exact congrArg LogEntry.logindex he
  refine ⟨hindex, ⟨?_, fun x hx hle => ?_⟩, h.terms,
    fun x hx => h.awaited x (h.awaited_node le_rfl hx), h.notices, h.answered, h.unsynced, h.queue,
    h.callbacks⟩
  · show s.node.stableLogIndex ≤ _
    rw [hlast]
    omega
  · -- the new entry is behind the last one
    obtain hx | hx := List.mem_append.mp hx
    · exact h.truthful.onDisk x hx hle
    · obtain rfl := List.mem_singleton.mp hx
      have hle' : x.logindex ≤ s.node.stableLogIndex := hle
      rw [he] at hle'
      have hle'' : s.node.getLastLogIndex + 1 ≤ s.node.stableLogIndex := hle'
      omega

/-- The first locked part of `AppendEntries` keeps the invariant. -/
lemma Inv.appendEntries (h : s.Inv) {request : AppendEntriesArgs} {node : Raft} {phase : AppendPhase}
    (hs : s.node.appendEntries request = .ok (node, phase)) : Inv { s with node } := by
  have hindex := (h.index.appendEntries hs).1
  have hlogs := s.node.acceptTerm_logs request.term
  have hsnap := s.node.acceptTerm_lastSnapshotIndex request.term
  have hstable := s.node.acceptTerm_stableLogIndex request.term
  have hgrows : s.node.currentTerm ≤ (s.node.acceptTerm request.term).currentTerm := by
    rw [Raft.acceptTerm_currentTerm]
    exact Nat.le_max_left _ _
  obtain ⟨-, rfl, -⟩ | ⟨-, rfl, -⟩ | ⟨-, rfl, -⟩ := Raft.appendEntries_cases hs
  · exact h
  · exact h.node hindex hgrows hlogs hsnap hstable
  · exact h.node hindex hgrows hlogs hsnap hstable

/-- One more handler, which waits for its writes or has none. -/
lemma Inv.unlock (h : s.Inv) {u : Unlocked} (hterm : u.request.term ≤ s.node.currentTerm)
    (hanswer : u.answer = some true → u.pending = []) :
    Inv { s with handlers := s.handlers ++ [u] } := by
  have hkept : ∀ (k : ℕ) x, s.handlers[k]? = some x → (s.handlers ++ [u])[k]? = some x := by
    intro k x hk
    rw [List.getElem?_append_left (List.getElem?_eq_some_iff.mp hk).1]
    exact hk
  have hold : ∀ (k : ℕ) x, (s.handlers ++ [u])[k]? = some x →
      s.handlers[k]? = some x ∨ s.handlers[k]? = none ∧ x = u := by
    intro k x hk
    obtain hlt | hge := Nat.lt_or_ge k s.handlers.length
    · rw [List.getElem?_append_left hlt] at hk
      exact .inl hk
    · rw [List.getElem?_append_right hge] at hk
      exact .inr ⟨List.getElem?_eq_none hge, List.mem_singleton.mp (List.mem_of_getElem? hk)⟩
  refine ⟨h.index, h.truthful, fun x hx => ?_, fun e he => ?_, h.notices, fun k x hk ht => ?_,
    fun k hk => ?_, fun b hb k hk => ?_, h.callbacks⟩
  · obtain hx | hx := List.mem_append.mp hx
    · exact h.terms x hx
    · obtain rfl := List.mem_singleton.mp hx
      exact hterm
  · refine h.awaited e (mem_awaited.mpr ((mem_awaited.mp he).imp_right ?_))
    rintro ⟨k, x, hk, hx, he⟩
    obtain hk | ⟨hnone, rfl⟩ := hold k x hk
    · exact ⟨k, x, hk, hx, he⟩
    · -- nothing is awaited of the new one
      obtain ⟨-, item, hitem, -⟩ := mem_writes.mp he
      obtain hticket | ht := hx
      · obtain ⟨y, hy, -⟩ := h.unsynced k hticket
        rw [hnone] at hy
        cases hy
      · rw [hanswer ht] at hitem
        cases hitem
  · obtain hk | ⟨-, rfl⟩ := hold k x hk
    · exact h.answered k x hk ht
    · rw [hanswer ht]
      exact fun item hi => by cases hi
  · obtain ⟨x, hx, hrecords⟩ := h.unsynced k hk
    exact ⟨x, hkept k x hx, hrecords⟩
  · obtain ⟨x, hx, hlogs⟩ := h.queue b hb k hk
    exact ⟨x, hkept k x hx, hlogs⟩

/-- A vote keeps the invariant. -/
lemma Inv.handleRequestVoteResponse (h : s.Inv) (args : RequestVoteArgs) (reply : RequestVoteReply)
    (votedNum : ℕ) :
    Inv { s with node := (s.node.handleRequestVoteResponse args reply votedNum).1 } := by
  obtain ⟨hgt, heq⟩ | heq | ⟨-, -, -, -, heq | ⟨-, heq⟩⟩ :=
    s.node.handleRequestVoteResponse_cases args reply votedNum
  · rw [heq]
    exact h.node (h.index.congr rfl rfl rfl rfl) (Nat.le_of_lt hgt) rfl rfl rfl
  · rw [heq]
    exact h
  · rw [heq]
    exact h
  · rw [heq]
    exact h.node (h.index.congr rfl rfl rfl rfl) le_rfl rfl rfl rfl

/-- `RequestVote` keeps the invariant. -/
lemma Inv.requestVote (h : s.Inv) (request : RequestVoteArgs) :
    Inv { s with node := (s.node.requestVote request).1 } := by
  have hcatch : Inv { s with node := s.node.catchUp request.term } := by
    rw [Raft.catchUp]
    split_ifs with hgt
    · exact h.node (h.index.congr rfl rfl rfl rfl) (Nat.le_of_lt hgt) rfl rfl rfl
    · exact h
  obtain ⟨-, heq, -⟩ | ⟨-, heq | heq, -⟩ | ⟨-, -, -, heq, -⟩ := s.node.requestVote_cases request
  · rw [heq]
    exact h
  · rw [heq]
    exact hcatch
  · rw [heq]
    exact hcatch.node (hcatch.index.congr rfl rfl rfl rfl) le_rfl rfl rfl rfl
  · rw [heq]
    exact hcatch.node (hcatch.index.congr rfl rfl rfl rfl) le_rfl rfl rfl rfl

/-- A reply to an `AppendEntries` keeps the invariant. -/
lemma Inv.handleAppendEntries (h : s.Inv) {server : ℕ} {args : AppendEntriesArgs}
    {reply : AppendEntriesReply} {node : Raft}
    (hs : s.node.handleAppendEntries server args reply = .ok node) : Inv { s with node } := by
  obtain ⟨hgt, rfl⟩ | ⟨next, rfl⟩ | ⟨-, -, -, hadvance⟩ := Raft.handleAppendEntries_cases hs
  · exact h.node (h.index.congr rfl rfl rfl rfl) (Nat.le_of_lt hgt) rfl rfl rfl
  · exact h.node (h.index.congr rfl rfl rfl rfl) le_rfl rfl rfl rfl
  · have hm : (s.node.matched server (args.prevlogindex + args.entries.length)).IndexInv :=
      h.index.congr rfl rfl rfl rfl
    obtain ⟨t, ht, hindex, -⟩ := hm.advanceCommitIndex
    obtain rfl := Except.ok.inj (hadvance.symm.trans ht)
    obtain rfl | ⟨index, e, rfl, -⟩ := Raft.advanceCommitIndex_cases hadvance
    · exact h.node hindex le_rfl rfl rfl rfl
    · exact h.node hindex le_rfl rfl rfl rfl

/-- A call of `onLogStable`. -/
lemma Inv.onLogStable (h : s.Inv) {ok : Bool} {rest : List (Bool × LogEntry)}
    (hnotices : s.notices = (ok, e) :: rest) (hcalm : s.Calm .onLogStable) :
    Inv { s with node := s.node.onLogStable ok e.logindex, notices := rest } := by
  have hnotice : (ok, e) ∈ s.notices := hnotices ▸ List.mem_cons_self
  have hlater : ∀ x, (true, x) ∈ rest → newest s.records x.logindex = some x ∧
      ∀ r ∈ s.records, r.2 = true := fun x hx =>
    h.notices x (hnotices ▸ List.mem_cons_of_mem _ hx)
  have hc := hcalm (ok, e) (by rw [hnotices]; rfl)
  have hindex := (h.index.onLogStable ok e.logindex).1
  have hterm : (s.node.onLogStable ok e.logindex).currentTerm = s.node.currentTerm := by
    unfold Raft.onLogStable
    simp only
    split_ifs <;> rfl
  have hawaited : ∀ x, x ∈ Durable.awaited { s with node := s.node.onLogStable ok e.logindex } →
      newest s.records x.logindex = some x := fun x hx =>
    h.awaited x (h.awaited_node (Nat.le_of_eq hterm.symm) hx)
  have hterms : ∀ u ∈ s.handlers, u.request.term ≤ (s.node.onLogStable ok e.logindex).currentTerm :=
    fun u hu => Nat.le_trans (h.terms u hu) (Nat.le_of_eq hterm.symm)
  refine ⟨hindex, ?_, hterms, hawaited, hlater, h.answered, h.unsynced, h.queue, h.callbacks⟩
  cases ok with
  | true =>
    rw [if_pos rfl] at hc
    obtain heq | ⟨hgt, heq⟩ := Raft.onLogStable_cases s.node e.logindex
    · rw [heq]
      exact h.truthful
    · rw [heq]
      obtain ⟨hnext, hmem⟩ := hc hgt
      have hlast := h.index.last_eq
      obtain ⟨i, hi⟩ := List.getElem?_of_mem hmem
      have hei := h.index.aligned i e hi
      have hlt := (List.getElem?_eq_some_iff.mp hi).1
      refine ⟨?_, fun x hx hle => ?_⟩
      · show e.logindex ≤ s.node.getLastLogIndex
        omega
      · have hle' : x.logindex ≤ e.logindex := hle
        obtain hle'' | hgt' := le_or_gt x.logindex s.node.stableLogIndex
        · exact h.truthful.onDisk x hx hle''
        · -- only the entry of the callback is new
          obtain rfl : x = e := by
            obtain ⟨j, hj⟩ := List.getElem?_of_mem hx
            have hxj := h.index.aligned j x hj
            have hnext' : e.logindex = s.node.stableLogIndex + 1 := hnext
            obtain rfl : j = i := by omega
            exact Option.some.inj (hj.symm.trans hi)
          obtain ⟨hnewest, hsynced⟩ := h.notices x hnotice
          obtain ⟨-, synced, hrecord⟩ := newest_mem hnewest
          exact ⟨hsynced _ hrecord ▸ hrecord, hnewest⟩
  | false =>
    rw [if_neg Bool.false_ne_true] at hc
    unfold Raft.onLogStable
    simp only [Bool.not_false, if_true]
    have hlast := h.index.last_eq
    split_ifs with habove hplace
    · obtain ⟨x, hx, hxe⟩ := Option.map_eq_some_iff.mp hplace
      have hlt := (List.getElem?_eq_some_iff.mp hx).1
      have hgt : s.node.stableLogIndex < e.logindex := hc habove.1 (by show e.logindex ≤ _; omega)
      refine ⟨?_, fun y hy hle => h.truthful.onDisk y (List.mem_of_mem_take hy) hle⟩
      rw [Raft.getLastLogIndex_of_aligned (h.index.aligned.take _), List.length_take]
      show s.node.stableLogIndex ≤ s.node.lastSnapshotIndex + _
      omega
    · exact h.truthful
    · exact h.truthful

/-- The writer writes a batch: over nothing that is stable or awaited. -/
lemma Inv.write (h : s.Inv) {b : LogBatch ℕ LogEntry} {queue : List (LogBatch ℕ LogEntry)}
    (hqueue : s.queue = b :: queue) (hquiet : s.notices = []) (hcalm : s.Calm .write)
    (reopened : Option ℕ) :
    Inv { s with
      queue
      records := s.records ++ b.logs.map fun e => (e, false)
      unsynced := s.unsynced ++ [b.ticket]
      reopened } := by
  have hb : b ∈ s.queue := hqueue ▸ List.mem_cons_self
  have hrest : ∀ x ∈ queue, x ∈ s.queue := fun x hx => hqueue ▸ List.mem_cons_of_mem _ hx
  have hover : ∀ x ∈ s.stable ++ s.awaited ++ b.logs, ∀ r ∈ b.logs.map (fun e => (e, false)),
      r.1.logindex = x.logindex → r.1 = x := by
    intro x hx r hr heq
    obtain ⟨e, he, rfl⟩ := List.mem_map.mp hr
    exact (hcalm b (by rw [hqueue]; rfl) e he x hx heq.symm).symm
  have hwaiter : ∀ (k : ℕ) u, s.handlers[k]? = some u → b.ticket = .waiter k →
      b.logs = u.pending.map (·.log) := by
    intro k u hk hticket
    obtain ⟨u', hk', hlogs⟩ := h.queue b hb k hticket
    obtain rfl := Option.some.inj (hk.symm.trans hk')
    exact hlogs
  refine ⟨h.index, ⟨h.truthful.stable_le, fun e he hle => ?_⟩, h.terms, fun e he => ?_, ?_, ?_, ?_,
    fun x hx => h.queue x (hrest x hx), fun x hx => h.callbacks x (hrest x hx)⟩
  · refine (h.truthful.onDisk e he hle).append (hover e (List.mem_append_left _ ?_))
    exact List.mem_append_left _ (List.mem_filter.mpr ⟨he, decide_eq_true hle⟩)
  · -- awaited before, or of the batch
    have hcases : e ∈ s.awaited ∨ e ∈ b.logs := by
      obtain hticket | ⟨k, u, hk, hu, he⟩ := mem_awaited.mp he
      · obtain hold | hnew := List.mem_append.mp hticket
        · exact .inl (mem_awaited.mpr (.inl hold))
        · rw [h.callbacks b hb e (List.mem_singleton.mp hnew).symm]
          exact .inr (List.mem_singleton.mpr rfl)
      · obtain hticket | hanswer := hu
        · obtain hold | hnew := List.mem_append.mp hticket
          · exact .inl (mem_awaited.mpr (.inr ⟨k, u, hk, .inl hold, he⟩))
          · rw [hwaiter k u hk (List.mem_singleton.mp hnew).symm]
            exact .inr (List.mem_map.mpr (mem_writes.mp he).2)
        · exact .inl (mem_awaited.mpr (.inr ⟨k, u, hk, .inr hanswer, he⟩))
    obtain hold | hnew := hcases
    · exact newest_append_same (h.awaited e hold)
        (hover e (List.mem_append_left _ (List.mem_append_right _ hold)))
    · exact newest_append_mem (List.mem_map.mpr ⟨e, hnew, rfl⟩)
        (hover e (List.mem_append_right _ hnew))
  · intro e he
    rw [show s.notices = [] from hquiet] at he
    cases he
  · exact fun k u hk ht item hi => List.mem_append_left _ (h.answered k u hk ht item hi)
  · intro k hk
    obtain hk | hk := List.mem_append.mp hk
    · obtain ⟨u, hu, hrecords⟩ := h.unsynced k hk
      refine ⟨u, hu, fun item hi => ?_⟩
      obtain ⟨synced, hs⟩ := hrecords item hi
      exact ⟨synced, List.mem_append_left _ hs⟩
    · obtain ⟨u, hu, hlogs⟩ := h.queue b hb k (List.mem_singleton.mp hk).symm
      refine ⟨u, hu, fun item hi => ⟨false, List.mem_append_right _ ?_⟩⟩
      refine List.mem_map.mpr ⟨item.log, ?_, rfl⟩
      rw [hlogs]
      exact List.mem_map.mpr ⟨item, hi, rfl⟩

/-- The writer answers some batches. -/
lemma Inv.notify (h : s.Inv) {ok : Bool} {tickets : List (Ticket ℕ LogEntry)}
    {queue : List (LogBatch ℕ LogEntry)}
    {records : List (LogEntry × Bool)} {reopened : Option ℕ} (hquiet : s.notices = [])
    (hqueue : ∀ b ∈ queue, b ∈ s.queue)
    (htruthful : Truthful s.node records)
    (hnewest : ∀ index, newest records index = newest s.records index)
    (hkept : ∀ e, (e, true) ∈ s.records → (e, true) ∈ records)
    (hsynced : ok = true → records = s.records.map fun r => (r.1, true))
    (htickets : ok = true → ∀ t ∈ tickets, t ∈ s.unsynced) :
    (notify { s with queue, records, reopened, unsynced := [] } ok tickets).Inv := by
  have hn := notified { s with queue, records, reopened, unsynced := [] } ok tickets
  have hall : ok = true → ∀ r ∈ records, r.2 = true := by
    intro hok r hr
    rw [hsynced hok] at hr
    obtain ⟨r', -, rfl⟩ := List.mem_map.mp hr
    rfl
  refine ⟨by rw [hn.node]; exact h.index, by rw [hn.node, hn.records]; exact htruthful, ?_, ?_, ?_,
    ?_, ?_, ?_, ?_⟩
  · intro u' hu'
    obtain ⟨k, hk⟩ := List.getElem?_of_mem hu'
    obtain ⟨u, hu, hrequest, -⟩ := hn.handlers k u' hk
    rw [hrequest, hn.node]
    exact h.terms u (List.mem_of_getElem? hu)
  · intro e he
    rw [hn.records]
    refine (hnewest _).trans (h.awaited e (mem_awaited.mpr ?_))
    obtain hticket | ⟨k, u', hk, hu', he⟩ := mem_awaited.mp he
    · rw [hn.unsynced] at hticket
      cases hticket
    · obtain ⟨u, hu, hrequest, hpending, hanswer⟩ := hn.handlers k u' hk
      refine .inr ⟨k, u, hu, ?_, ?_⟩
      · obtain hticket | ht := hu'
        · rw [hn.unsynced] at hticket
          cases hticket
        · exact (hanswer ht).elim .inr fun hw => .inl (htickets hw.1 _ hw.2)
      · rw [mem_writes, hrequest, hpending, hn.node] at he
        exact mem_writes.mpr he
  · intro e he
    rw [hn.records]
    obtain he | ⟨hok, hticket⟩ := hn.notices true e he
    · have he' : (true, e) ∈ s.notices := he
      rw [hquiet] at he'
      cases he'
    · exact ⟨(hnewest _).trans (h.awaited e (mem_awaited.mpr (.inl (htickets hok.symm _ hticket)))),
        hall hok.symm⟩
  · intro k u' hk ht item hi
    rw [hn.records]
    obtain ⟨u, hu, -, hpending, hanswer⟩ := hn.handlers k u' hk
    rw [hpending] at hi
    obtain hold | ⟨hok, hticket⟩ := hanswer ht
    · exact hkept item.log (h.answered k u hu hold item hi)
    · -- the batch of the handler is written, and everything is synced
      obtain ⟨u₀, hu₀, hrecords⟩ := h.unsynced k (htickets hok _ hticket)
      obtain rfl := Option.some.inj (hu.symm.trans hu₀)
      obtain ⟨synced, hs⟩ := hrecords item hi
      show (item.log, true) ∈ records
      rw [hsynced hok]
      exact List.mem_map.mpr ⟨_, hs, rfl⟩
  · intro k hk
    rw [hn.unsynced] at hk
    cases hk
  · intro b hb k hk
    rw [hn.queue] at hb
    obtain ⟨u, hu, hlogs⟩ := h.queue b (hqueue b hb) k hk
    obtain ⟨u', hu', hpending⟩ := hn.kept k u hu
    exact ⟨u', hu', by rw [hpending]; exact hlogs⟩
  · intro b hb
    rw [hn.queue] at hb
    exact h.callbacks b (hqueue b hb)

/-- Batches go to the end of the queue. -/
lemma Inv.push (h : s.Inv) {b : LogBatch ℕ LogEntry} {started : List LogEntry}
    (hb : ∀ (k : ℕ), b.ticket = .waiter k → ∃ u, s.handlers[k]? = some u ∧
      b.logs = u.pending.map (·.log))
    (hcallback : ∀ e, b.ticket = .callback e → b.logs = [e]) :
    Inv { s with started, queue := s.queue ++ [b] } := by
  refine ⟨h.index, h.truthful, h.terms, h.awaited, h.notices, h.answered, h.unsynced,
    fun x hx => ?_, fun x hx => ?_⟩
  · obtain hx | hx := List.mem_append.mp hx
    · exact h.queue x hx
    · obtain rfl := List.mem_singleton.mp hx
      exact hb
  · obtain hx | hx := List.mem_append.mp hx
    · exact h.callbacks x hx
    · obtain rfl := List.mem_singleton.mp hx
      exact hcallback

/-- Every step that is calm keeps the invariant. -/
lemma Inv.step (h : s.Inv) {e : Event} (hcalm : s.Calm e) (hs : s.step e = some s') : s'.Inv := by
  cases e with
  | doElection =>
    obtain ⟨⟨node, requests⟩, hnode, rfl⟩ := Option.map_eq_some_iff.mp hs
    obtain ⟨-, rfl, -⟩ := Raft.doElection_cases hnode
    exact h.node (h.index.congr rfl rfl rfl rfl) (Nat.le_succ _) rfl rfl rfl
  | handleRequestVoteResponse args reply votedNum =>
    obtain rfl := Option.some.inj hs
    exact h.handleRequestVoteResponse args reply votedNum
  | requestVote request =>
    obtain rfl := Option.some.inj hs
    exact h.requestVote request
  | handleAppendEntries server args reply =>
    obtain ⟨node, hnode, rfl⟩ := Option.map_eq_some_iff.mp hs
    exact h.handleAppendEntries (toOption_eq_some.mp hnode)
  | start command =>
    obtain ⟨⟨node, e⟩, hnode, rfl⟩ := Option.map_eq_some_iff.mp hs
    exact h.start (join_toOption_eq_some.mp hnode)
  | push k =>
    obtain ⟨e, -, rfl⟩ := Option.map_eq_some_iff.mp hs
    refine h.push (fun k hk => by cases hk) fun x hx => ?_
    rw [Ticket.callback.inj hx]
  | appendEntries request =>
    obtain ⟨⟨node, phase⟩, hnode, rfl⟩ := Option.map_eq_some_iff.mp hs
    have hphase := toOption_eq_some.mp hnode
    have hn := h.appendEntries hphase
    cases phase with
    | replied reply => exact hn
    | unlocked pending =>
      have hterm := Raft.appendEntries_unlocked_term hphase
      refine hn.unlock (Nat.le_of_eq hterm.symm) fun hanswer => ?_
      by_contra hne
      rw [if_neg hne] at hanswer
      cases hanswer
  | pushWrites k =>
    obtain ⟨u, hu, hs⟩ := Option.bind_eq_some_iff.mp hs
    split_ifs at hs
    obtain rfl := Option.some.inj hs
    have hm : Inv { s with handlers := s.handlers.modify k fun u => { u with pushed := true } } :=
      h.modify k (fun _ => rfl) (fun _ => rfl) fun _ => id
    refine hm.push (fun j hj => ?_) fun x hx => by cases hx
    obtain rfl : k = j := Ticket.waiter.inj hj
    exact ⟨{ u with pushed := true }, by rw [List.getElem?_modify, hu]; simp, rfl⟩
  | resume k =>
    obtain ⟨u, hu, hs⟩ := Option.bind_eq_some_iff.mp hs
    obtain ⟨stable, hanswer, hs⟩ := Option.bind_eq_some_iff.mp hs
    obtain ⟨⟨node, reply⟩, hnode, rfl⟩ := Option.map_eq_some_iff.mp hs
    have hn := h.resume hu (hcalm u hu) hanswer (toOption_eq_some.mp hnode)
    exact hn.modify k (fun _ => rfl) (fun _ => rfl) fun _ hsome => by cases hsome
  | write =>
    rw [Durable.step] at hs
    split at hs
    · cases hs
    · rename_i b queue hqueue
      obtain ⟨hquiet, hs⟩ := Option.ite_none_left_eq_some.mp hs
      obtain rfl := Option.some.inj hs
      exact h.write hqueue (not_not.mp hquiet) hcalm _
  | writeFails n j =>
    obtain ⟨hquiet, hs⟩ := Option.ite_none_left_eq_some.mp hs
    obtain rfl := Option.some.inj hs
    -- the log is cut to its length
    have hrecords : (match s.reopened with
        | some closed => s.records.take closed
        | none => s.records) = s.records := by
      cases hr : s.reopened with
      | none => rfl
      | some closed => exact List.take_of_length_le (hcalm closed hr)
    rw [hrecords]
    exact h.notify (not_not.mp (not_or.mp hquiet).1) (fun b => List.mem_of_mem_drop) h.truthful
      (fun _ => rfl) (fun _ => id) (fun hok => by cases hok) fun hok => by cases hok
  | sync ok =>
    obtain ⟨hquiet, hs⟩ := Option.ite_none_left_eq_some.mp hs
    obtain rfl := Option.some.inj hs
    refine h.notify (not_not.mp hquiet) (fun _ => id) ?_ (fun index => ?_) ?_ (fun hok => if_pos hok)
      fun _ _ => id
    · cases ok with
      | true => exact ⟨h.truthful.stable_le, fun e he hle => (h.truthful.onDisk e he hle).sync⟩
      | false => exact h.truthful
    · cases ok with
      | true => exact newest_synced _ _
      | false => rfl
    · intro e he
      cases ok with
      | true => exact List.mem_map.mpr ⟨_, he, rfl⟩
      | false => exact he
  | onLogStable =>
    rw [Durable.step] at hs
    split at hs
    · cases hs
    · rename_i ok e rest hnotices
      obtain rfl := Option.some.inj hs
      exact h.onLogStable hnotices hcalm

/-! ### The stable index tells the truth -/

/-- A node that has just started: nothing is on its way to the writer. -/
structure Started (s : Durable) : Prop where
  index : s.node.IndexInv
  truthful : Truthful s.node s.records
  started : s.started = []
  handlers : s.handlers = []
  queue : s.queue = []
  unsynced : s.unsynced = []
  notices : s.notices = []

/-- A node that has started satisfies the invariant. -/
lemma Started.inv (h : s.Started) : s.Inv where
  index := h.index
  truthful := h.truthful
  terms u hu := by
    rw [h.handlers] at hu
    cases hu
  awaited e he := by
    rw [Durable.awaited, h.unsynced, h.handlers] at he
    cases he
  notices e he := by
    rw [h.notices] at he
    cases he
  answered k u hk := by
    rw [h.handlers] at hk
    cases hk
  unsynced k hk := by
    rw [h.unsynced] at hk
    cases hk
  queue b hb := by
    rw [h.queue] at hb
    cases hb
  callbacks b hb := by
    rw [h.queue] at hb
    cases hb

instance (s : Raft) (h : Unlocked) : Decidable (Applies s h) := by
  unfold Applies
  infer_instance

instance (s : Durable) (e : Event) : Decidable (s.Calm e) := by
  unfold Calm
  split <;> infer_instance

/-- The first process of node `id`, over an empty directory. -/
def initial (id peers : ℕ) : Durable where
  node := Raft.init id peers {} [] []
  started := []
  handlers := []
  queue := []
  records := []
  unsynced := []
  notices := []
  reopened := none

/-- The initial node has started. -/
lemma started_initial (id peers : ℕ) : (initial id peers).Started where
  index := Raft.indexInv_init id peers
  truthful := ⟨Int.le_refl _, fun _ he => by cases he⟩
  started := rfl
  handlers := rfl
  queue := rfl
  unsynced := rfl
  notices := rfl

/-- Node 0 of three is elected in term 1 and takes a command. -/
def commanded : List Event :=
  [.doElection, .handleRequestVoteResponse ⟨1, 0, 0, 0⟩ ⟨1, true, .normal⟩ 1, .start [5]]

end Durable

end KVCacheRaft
