import KVCacheRaft.Raft.Unlocked
import KVCacheRaft.Wal.Follower
import KVCacheRaft.Wal.Rounds

/-!
# Handlers at once

A handler of `AppendEntries` decides on its writes under the lock, releases it while the writer puts
them on disk, and takes it again to put them into `m_logs`. Replay lets the last write of an index win
and cuts the log there, whoever made it: what the log on disk holds depends on the order in which the
handlers come to the queue, and a handler that is turned away when it takes the lock again has written
its entries all the same.
-/

namespace KVCacheRaft

open Machine

/-- How far a call of `AppendEntries` is that was not rejected at once. -/
inductive CallState where
  | unlocked
  /-- in `AppendLogAndWaitStable` -/
  | waiting
  | answered (stable : Bool)
  | replied (reply : AppendEntriesReply)
deriving DecidableEq

/-- A call of `AppendEntries`. -/
structure AppendCall where
  request : AppendEntriesArgs
  pending : List PendingLogWrite
  state : CallState

/-- The writes of the call are handed over, and the handler does not have the lock again. -/
def AppendCall.InFlight (c : AppendCall) : Prop :=
  c.pending ≠ [] ∧
    match c.state with
    | .waiting => True
    | .answered _ => True
    | _ => False

instance (c : AppendCall) : Decidable c.InFlight := by
  unfold AppendCall.InFlight
  cases c.state <;> infer_instance

/-- The entries that the call writes. -/
def AppendCall.news (c : AppendCall) : List LogEntry := c.pending.map (·.log)

/-- A call in flight has entries to write. -/
lemma AppendCall.InFlight.news_ne_nil {c : AppendCall} (h : c.InFlight) : c.news ≠ [] := fun hnil =>
  h.1 (List.map_eq_nil_iff.mp hnil)

/-- The call replaces entries of the log. -/
def AppendCall.Overwrites (c : AppendCall) : Prop := ∃ w ∈ c.pending, w.append = false

instance (c : AppendCall) : Decidable c.Overwrites := by
  unfold AppendCall.Overwrites
  infer_instance

/-- A follower with its handlers and its writer. -/
structure Acceptor where
  node : Raft
  calls : List AppendCall
  writer : WalWriter ℕ Empty
  /-- how many answers of the writer have come to their waiters -/
  reported : ℕ
  /-- the requests that were answered with success, each with the log then -/
  acks : List (AppendEntriesArgs × List LogEntry)

namespace Acceptor

/-- Something that happens, while all writes and syncs succeed. -/
inductive Event where
  | appendEntries (request : AppendEntriesArgs)
  /-- `AppendLogAndWaitStable` of a call -/
  | push (k : ℕ)
  | round (time_due : Bool)
  /-- the writer tells a waiter -/
  | notify
  /-- a handler takes the lock again -/
  | resume (k : ℕ)

/-- The writes of call `k` for the writer. -/
def batchOf (k : ℕ) (c : AppendCall) : LogBatch ℕ Empty :=
  { logs := c.news, ticket := .waiter k }

/-- `Save` in `persistState`. -/
def save (s : Acceptor) : Acceptor :=
  { s with writer := s.writer.save s.node.fmp.snapshot_index.toNat }

/-- A call goes on. -/
def setState (s : Acceptor) (k : ℕ) (state : CallState) : Acceptor :=
  { s with calls := s.calls.modify k fun c => { c with state } }

/-- The writer tells the waiter of an answer. -/
def tell (s : Acceptor) (a : Answer ℕ Empty) : Acceptor :=
  match a.batch.ticket with
  | .waiter k => { s.setState k (.answered a.ok) with reported := s.reported + 1 }

/-- A handler replies. -/
def reply (s : Acceptor) (k : ℕ) (request : AppendEntriesArgs) (reply : AppendEntriesReply) : Acceptor :=
  { s.setState k (.replied reply) with
    acks := if reply.success then s.acks ++ [(request, s.node.logs)] else s.acks }

/-- What an event does; none when it cannot happen, or when the node dies. -/
def step (s : Acceptor) : Event → Option Acceptor
  | .appendEntries request => (s.node.appendEntries request).toOption.map fun (node, phase) =>
    match phase with
    | .replied _ =>
      if request.term < s.node.currentTerm then { s with node } else { s with node }.save
    | .unlocked pending =>
      { s with node, calls := s.calls ++ [{ request, pending, state := .unlocked }] }
  | .push k => s.calls[k]?.bind fun c =>
    if c.state ≠ .unlocked then none
    -- without entries `AppendLogAndWaitStable` returns at once
    else if c.pending = [] then some (s.setState k (.answered true))
    else (s.writer.step (.push (batchOf k c))).map fun writer =>
      { s.setState k .waiting with writer }
  | .round time_due =>
    -- the writer tells all waiters before it goes on
    if s.reported < s.writer.answers.length then none
    else (s.writer.step (.round ⟨none, true, time_due⟩)).map fun writer => { s with writer }
  | .notify => s.writer.answers[s.reported]?.map s.tell
  | .resume k => s.calls[k]?.bind fun c =>
    match c.state with
    | .answered stable =>
      (s.node.appendEntriesStable c.request c.pending stable).toOption.map fun (node, reply) =>
        ({ s with node }.reply k c.request reply).save
    | _ => none

/-- What the directory holds at some time during an event, in the order in which it lists its files. -/
def During (s : Acceptor) : Event → List SegmentFile → Prop
  | .round _, files => ∃ found, s.writer.wal.During (s.writer.group.flatMap (·.logs)) found ∧
    files.Perm found
  | _, files => files.Perm s.writer.wal.files

/-- A new process over some files. -/
def restart (s : Acceptor) (files : List SegmentFile) : Raft :=
  .init s.node.id s.node.peers s.node.fmp s.node.snapshotFile
    ((Wal.create files).readPersistedLogs s.node.fmp.snapshot_index.toNat).2

/-- A follower whose log is on disk, and whose metadata are saved. -/
structure Ready (s : Acceptor) : Prop where
  index : s.node.IndexInv
  snapshot_nonneg : 0 ≤ s.node.lastSnapshotIndex
  saved : s.node.fmp.snapshot_index = s.node.lastSnapshotIndex
  compacted : s.node.lastSnapshotIndex ≤ s.writer.wal.compactedSnapshotIndex
  holds : ∃ closed opened, s.writer.wal.Holds closed opened ∧
    replayEntries s.node.lastSnapshotIndex.toNat (written closed opened) = s.node.logs
  calls : s.calls = []
  queue : s.writer.queue = []
  collected : s.writer.waiters ++ s.writer.callbacks = []
  answers : s.writer.answers = []
  reported : s.reported = 0
  acks : s.acks = []

/-- The entry differs in its term from one that the request covers, or from one below it in the log. -/
def Conflicts (request : AppendEntriesArgs) (logs : List LogEntry) (x : LogEntry) : Prop :=
  (∃ e ∈ request.entries, e.logindex = x.logindex ∧ e.logterm ≠ x.logterm) ∨
    x.logindex ≤ request.prevlogindex ∧ ∃ e ∈ logs, e.logindex = x.logindex ∧ e.logterm ≠ x.logterm

instance (request : AppendEntriesArgs) (logs : List LogEntry) (x : LogEntry) :
    Decidable (Conflicts request logs x) := by
  unfold Conflicts
  infer_instance

/-- The request passes its checks, and the writes of the call are the ones it needs. -/
def Current (s : Raft) (c : AppendCall) : Prop :=
  s.currentTerm = c.request.term ∧ s.lastSnapshotIndex ≤ c.request.prevlogindex ∧
    s.termAt c.request.prevlogindex = .ok c.request.prevlogterm ∧
    s.pendingWrites s.getLastLogIndex c.request.entries = .ok c.pending

/-- Requests are those of leaders, and none of a larger term comes while entries are being replaced. A
handler hands over its writes when they are still the ones that its request needs, replace all entries
from the first on that they replace, and begin with those of every call of its term in flight. What is
written can be read back and keeps the segments in order. A handler makes its writes when nothing is in
the queue; one with nothing to write finds that the log still has its entries. -/
def Calm (s : Acceptor) : Event → Prop
  | .appendEntries request => Follower.WellFormed request ∧
    ((∃ c ∈ s.calls, c.InFlight ∧ c.Overwrites) → request.term ≤ s.node.currentTerm)
  | .push k => ∀ c ∈ s.calls[k]?, c.pending ≠ [] →
    (∀ d ∈ s.calls, d.InFlight → d.request.term = s.node.currentTerm → d.news <+: c.news) ∧
      Current s.node c ∧ s.node.OverwritesSuffix c.request.entries
  | .round _ => s.writer.wal.KeepsOrder (s.writer.group.flatMap (·.logs))
  | .notify => True
  | .resume k => ∀ c ∈ s.calls[k]?, s.node.currentTerm = c.request.term →
    s.node.termAt c.request.prevlogindex = .ok c.request.prevlogterm →
    if c.pending = [] then s.node.pendingWrites s.node.getLastLogIndex c.request.entries = .ok []
    else s.writer.queue = []

/-! ### What was acknowledged -/

/-- A request that was answered with success, and the log then. -/
structure Acked (snap : ℤ) (request : AppendEntriesArgs) (logs : List LogEntry) : Prop where
  aligned : Aligned snap logs
  wellFormed : Aligned request.prevlogindex request.entries
  entries : ∀ e ∈ request.entries, e ∈ logs

/-- The log still has all that the request vouched for. -/
def Intact (request : AppendEntriesArgs) (logs now : List LogEntry) : Prop :=
  ∀ x ∈ logs, x.logindex ≤ request.prevlogindex + request.entries.length → x ∈ now

variable {snap : ℤ} {request : AppendEntriesArgs} {logs now news : List LogEntry}

/-- A cut at an entry that is replaced by one of another term spares what a request vouched for, unless
the new entry is in conflict with the request. -/
lemma Acked.take (h : Acked snap request logs) (hnow : Aligned snap now)
    (hintact : Intact request logs now) {j : ℕ}
    (hfirst : ∀ old, now[j]? = some old → ∃ e ∈ news, e.logindex = old.logindex ∧
      old.logterm ≠ e.logterm)
    (hnone : ∀ e ∈ news, ¬ Conflicts request logs e) : Intact request logs (now.take j) := by
  intro x hx hle
  have hmem := hintact x hx hle
  obtain ⟨i, hi⟩ := List.getElem?_of_mem hmem
  have hxi := hnow i x hi
  by_cases hij : i < j
  · refine List.mem_of_getElem? (i := i) ?_
    rw [List.getElem?_take, if_pos hij]
    exact hi
  -- the entry at the cut was vouched for too
  have hilt := (List.getElem?_eq_some_iff.mp hi).1
  obtain ⟨old, hold⟩ : ∃ old, now[j]? = some old := ⟨_, List.getElem?_eq_getElem (by omega)⟩
  have holdindex := hnow j old hold
  obtain ⟨i', hi'⟩ := List.getElem?_of_mem hx
  have hxi' := h.aligned i' x hi'
  have hilt' := (List.getElem?_eq_some_iff.mp hi').1
  obtain ⟨y, hy⟩ : ∃ y, logs[j]? = some y := ⟨_, List.getElem?_eq_getElem (by omega)⟩
  have hyindex := h.aligned j y hy
  have hymem := List.mem_of_getElem? hy
  have hynow := hintact y hymem (by omega)
  obtain rfl := Raft.eq_of_aligned hnow hynow (List.mem_of_getElem? hold) (by omega)
  obtain ⟨e, he, heq, hterm⟩ := hfirst y hold
  refine absurd ?_ (hnone e he)
  by_cases hprev : e.logindex ≤ request.prevlogindex
  · exact .inr ⟨hprev, y, hymem, heq.symm, hterm⟩
  · -- it is an entry of the request itself
    obtain ⟨m, hm⟩ : ∃ m : ℕ, e.logindex = request.prevlogindex + 1 + m :=
      ⟨(e.logindex - request.prevlogindex - 1).toNat, by omega⟩
    obtain ⟨z, hz⟩ : ∃ z, request.entries[m]? = some z :=
      ⟨_, List.getElem?_eq_getElem (by omega)⟩
    have hzindex := h.wellFormed m z hz
    have hzmem := List.mem_of_getElem? hz
    obtain rfl := Raft.eq_of_aligned h.aligned (h.entries z hzmem) hymem (by omega)
    exact .inl ⟨z, hzmem, heq.symm, hterm⟩

/-! ### What a call writes -/

/-- Entries to be written: they start in the log or right behind it, leave nothing of it behind them, and
one of them differs in its term from the entry that they start at. -/
structure Places (r : Raft) (news : List LogEntry) (j : ℕ) : Prop where
  le : j ≤ r.logs.length
  aligned : Aligned (r.lastSnapshotIndex + j) news
  covers : r.logs.length ≤ j + news.length
  first : ∀ old, r.logs[j]? = some old → ∃ e ∈ news, e.logindex = old.logindex ∧
    old.logterm ≠ e.logterm

/-- The first of the entries is not in the log. -/
lemma Places.head_not_mem {r : Raft} {j : ℕ} (h : Places r news j)
    (haligned : Aligned r.lastSnapshotIndex r.logs) : ∀ e ∈ news.head?, e ∉ r.logs := by
  intro e he hmem
  have hget : news[0]? = some e := by rw [← List.head?_eq_getElem?]; exact he
  have hindex := h.aligned 0 e hget
  obtain ⟨i, hi⟩ := List.getElem?_of_mem hmem
  have hi' := haligned i e hi
  obtain rfl : i = j := by omega
  obtain ⟨x, hx, hxindex, hxterm⟩ := h.first e hi
  exact hxterm (congrArg LogEntry.logterm (Raft.eq_of_aligned h.aligned hx
    (List.mem_of_getElem? hget) hxindex)).symm

/-- Entries that begin with the same one have the same place. -/
lemma Places.eq_of_prefix {r : Raft} {j j' : ℕ} {news' : List LogEntry} (h : Places r news j)
    (h' : Places r news' j') (hne : news ≠ []) (hfront : news <+: news') : j = j' := by
  obtain ⟨e, rest, rfl⟩ := List.exists_cons_of_ne_nil hne
  obtain ⟨behind, rfl⟩ := hfront
  have hindex := h.aligned 0 e rfl
  have hindex' := h'.aligned 0 e rfl
  omega

/-- What is not to be written is in the log. -/
lemma mem_logs_of_pendingWrites {r : Raft} (h : Aligned r.lastSnapshotIndex r.logs)
    {entries : List LogEntry} {pending : List PendingLogWrite}
    (hp : r.pendingWrites r.getLastLogIndex entries = .ok pending) {e : LogEntry} (he : e ∈ entries)
    (hnew : e ∉ r.newEntries entries) (hsnap : r.lastSnapshotIndex < e.logindex) : e ∈ r.logs := by
  have hfilter : ¬ (r.getLastLogIndex < e.logindex ∨ r.Overwrites e) := fun hor =>
    hnew (List.mem_filter.mpr ⟨he, decide_eq_true ⟨hsnap, hor⟩⟩)
  clear hnew
  induction entries generalizing pending with
  | nil => cases he
  | cons x entries ih =>
    rw [Raft.pendingWrites] at hp
    obtain rfl | he := List.mem_cons.mp he
    · -- the loop has found an entry with the same term and command
      rw [if_neg (Int.not_le.mpr hsnap), if_neg fun hlt => hfilter (.inl hlt)] at hp
      obtain ⟨old, hold, hp⟩ := bind_eq_ok.mp hp
      have hover := Raft.overwrites_iff h hold
      obtain ⟨hpos, hget⟩ := vecGet_eq_ok.mp hold
      have hindex := h _ old hget
      split_ifs at hp with hexit hterm
      · exact absurd (.inr (hover.mpr hterm)) hfilter
      · rw [not_not] at hterm
        have hcommand : old.command = e.command := by
          by_contra hne
          exact hexit ⟨hterm, hne⟩
        have heq : old.logindex = e.logindex := by omega
        obtain ⟨command, logterm, logindex⟩ := old
        obtain rfl : (⟨command, logterm, logindex⟩ : LogEntry) = e := by
          cases e
          simp only at hterm hcommand heq
          rw [hterm, hcommand, heq]
        exact List.mem_of_getElem? hget
    · split_ifs at hp
      · exact ih hp he
      · obtain ⟨rest, hrest, -⟩ := bind_eq_ok.mp hp
        exact ih hrest he
      · obtain ⟨old, -, hp⟩ := bind_eq_ok.mp hp
        split_ifs at hp
        · obtain ⟨rest, hrest, -⟩ := bind_eq_ok.mp hp
          exact ih hrest he
        · exact ih hp he

/-- Where the writes of a call have their place. -/
lemma Current.places {r : Raft} {c : AppendCall} (h : Current r c) (hindex : r.IndexInv)
    (hrequest : Follower.WellFormed c.request) (hsuffix : r.OverwritesSuffix c.request.entries)
    (hne : c.pending ≠ []) :
    ∃ j, Places r c.news j ∧
      c.pending = c.news.map (writeOf r.lastSnapshotIndex (r.lastSnapshotIndex + r.logs.length)) ∧
      (∀ e ∈ c.news, e ∈ c.request.entries ∧ r.lastSnapshotIndex < e.logindex) ∧
      ∀ e ∈ c.request.entries, e ∈ r.logs.take j ++ c.news := by
  obtain ⟨-, hsnap, hprev, hpending⟩ := h
  have hlast := hindex.last_eq
  have hprevlast := hindex.termAt_le_last hprev
  obtain ⟨i, hi⟩ : ∃ i : ℕ, c.request.prevlogindex = r.lastSnapshotIndex + i :=
    ⟨(c.request.prevlogindex - r.lastSnapshotIndex).toNat, by omega⟩
  have hentries : Aligned (r.lastSnapshotIndex + i) c.request.entries := hi ▸ hrequest.entries
  have hnews := Raft.pendingWrites_newEntries hindex.aligned hpending
  obtain ⟨news, hnewseq⟩ : ∃ news, news = r.newEntries c.request.entries := ⟨_, rfl⟩
  rw [← hnewseq, hlast] at hnews
  have hlogs : c.news = news := by
    rw [AppendCall.news, hnews, List.map_map]
    exact (List.map_congr_left fun e _ => writeOf_log _ _ e).trans (List.map_id _)
  have hnonempty : news ≠ [] := fun hnil => hne (by rw [hnews, hnil, List.map_nil])
  have hmem : ∀ e ∈ news, e ∈ c.request.entries ∧ r.lastSnapshotIndex < e.logindex ∧
      (r.getLastLogIndex < e.logindex ∨ r.Overwrites e) := fun e he => by
    obtain ⟨hentry, hnew⟩ := List.mem_filter.mp (hnewseq ▸ he)
    exact ⟨hentry, of_decide_eq_true hnew⟩
  obtain ⟨j, hj, haligned, hcovers⟩ :=
    (Raft.newEntries_suffix hindex.aligned (by omega) hentries hsuffix).resolve_left (hnewseq ▸ hnonempty)
  rw [← hnewseq] at haligned hcovers
  rw [hlogs]
  refine ⟨j, ⟨hj, haligned, hcovers, fun old hold => ?_⟩, hnews,
    fun e he => ⟨(hmem e he).1, (hmem e he).2.1⟩, fun e he => ?_⟩
  · -- the first entry is not behind the log, so it replaces one
    obtain ⟨e, rest, heq⟩ := List.exists_cons_of_ne_nil hnonempty
    have hemem : e ∈ news := heq ▸ List.mem_cons_self
    have heindex : e.logindex = r.lastSnapshotIndex + j + 1 := by
      simpa using haligned 0 e (by rw [heq]; rfl)
    have holdindex := hindex.aligned j old hold
    have hlt := (List.getElem?_eq_some_iff.mp hold).1
    obtain ⟨x, hx, hxindex, hxterm⟩ := (hmem e hemem).2.2.resolve_left (by omega)
    obtain rfl := Raft.eq_of_aligned hindex.aligned hx (List.mem_of_getElem? hold) (by omega)
    exact ⟨e, hemem, hxindex.symm, hxterm⟩
  · by_cases hnew : e ∈ news
    · exact List.mem_append_right _ hnew
    refine List.mem_append_left _ ?_
    obtain ⟨m, hm⟩ := List.getElem?_of_mem he
    have hem := hentries m e hm
    have hold := mem_logs_of_pendingWrites hindex.aligned hpending he (hnewseq ▸ hnew) (by omega)
    obtain ⟨n, hn⟩ := List.getElem?_of_mem hold
    have hen := hindex.aligned n e hn
    have hnlt := (List.getElem?_eq_some_iff.mp hn).1
    by_cases hnj : n < j
    · refine List.mem_of_getElem? (i := n) ?_
      rw [List.getElem?_take, if_pos hnj]
      exact hn
    · -- from the first new entry on all are new
      obtain ⟨x, hx⟩ : ∃ x, news[n - j]? = some x := ⟨_, List.getElem?_eq_getElem (by omega)⟩
      have hxindex := haligned _ x hx
      have hxmem := List.mem_of_getElem? hx
      obtain rfl := Raft.eq_of_aligned hentries he (hmem x hxmem).1 (by omega)
      exact absurd hxmem hnew

end Acceptor

end KVCacheRaft
