import KVCacheRaft.Wal.Handlers

/-!
# Acknowledged entries on disk

As long as handlers do not hand over writes that others have overtaken, what is recovered from disk
holds the log, or at least the log in front of the place where the handlers in flight replace it. With
that, what a handler has vouched for is recovered until an entry in conflict with it is handed over.
-/

namespace KVCacheRaft

open Machine

namespace Acceptor

/-- The batches that are handed over and whose waiters have not been told. -/
def outstanding (s : Acceptor) : List (LogBatch ℕ Empty) :=
  (s.writer.answers.drop s.reported).map (·.batch) ++ (s.writer.waiters ++ s.writer.callbacks) ++
    s.writer.queue

/-- The entries in the queue. -/
def queued (s : Acceptor) : List LogEntry := s.writer.queue.flatMap (·.logs)

/-- What is recovered when some entries are written behind those on disk. -/
def replayed (s : Acceptor) (disk entries : List LogEntry) : List LogEntry :=
  entries.foldl (replayEntry s.node.lastSnapshotIndex.toNat) disk

/-- The call is in flight and of the current term. -/
def InTerm (s : Acceptor) (c : AppendCall) : Prop :=
  c.InFlight ∧ c.request.term = s.node.currentTerm

/-- A call whose request still passes, and whose entries, from the place `j` of the log on, are those that
will be on disk when the queue is written. -/
structure Active (s : Acceptor) (disk : List LogEntry) (j : ℕ) (c : AppendCall) : Prop where
  snapshot_le : s.node.lastSnapshotIndex ≤ c.request.prevlogindex
  prev : s.node.termAt c.request.prevlogindex = .ok c.request.prevlogterm
  places : Places s.node c.news j
  pending : c.pending = c.news.map (writeOf s.node.lastSnapshotIndex
    (s.node.lastSnapshotIndex + s.node.logs.length))
  news : ∀ e ∈ c.news, e ∈ c.request.entries ∧ s.node.lastSnapshotIndex < e.logindex
  entries : ∀ e ∈ c.request.entries, e ∈ s.node.logs.take j ++ c.news
  onDisk : s.node.logs.take j ++ c.news <+: s.replayed disk s.queued

/-- A call behind another one that has made the same writes, or begun with them: its entries are on disk
already, the first one is in the log too, and nothing is in the queue. -/
structure Overtaken (s : Acceptor) (disk : List LogEntry) (c : AppendCall) : Prop where
  queue : s.writer.queue = []
  first : ∃ e ∈ c.news.head?, e ∈ s.node.logs
  pending : ∃ snap last, c.pending = c.news.map (writeOf snap last)
  sorted : c.news.Pairwise fun e e' => e.logindex < e'.logindex
  news : ∀ e ∈ c.news, s.node.lastSnapshotIndex < e.logindex ∧ e ∈ disk
  entries : ∀ e ∈ c.request.entries, e ∈ s.node.logs ∨ e ∈ c.news

/-- The log is on disk, and stays there however much of the queue is written. -/
structure Settled (s : Acceptor) (disk : List LogEntry) : Prop where
  onDisk : ∀ p, p <+: s.queued → s.node.logs <+: s.replayed disk p
  overtaken : ∀ c ∈ s.calls, s.InTerm c → s.Overtaken disk c

/-- Some calls in flight write from one place of the log on; in front of it, the log stays on disk. -/
structure Writing (s : Acceptor) (disk : List LogEntry) (j : ℕ) : Prop where
  call : ∃ c ∈ s.calls, s.InTerm c
  onDisk : ∀ p, p <+: s.queued → s.node.logs.take j <+: s.replayed disk p
  active : ∀ c ∈ s.calls, s.InTerm c → s.Active disk j c

/-- The log is on disk, or will be when the queue is written; and it has all that was acknowledged and
not overwritten since. -/
structure Inv (s : Acceptor) (disk : List LogEntry) : Prop where
  index : s.node.IndexInv
  snapshot_nonneg : 0 ≤ s.node.lastSnapshotIndex
  saved : s.node.fmp.snapshot_index = s.node.lastSnapshotIndex
  compacted : s.node.lastSnapshotIndex ≤ s.writer.wal.compactedSnapshotIndex
  holds : ∃ closed opened, s.writer.wal.Holds closed opened ∧
    replayEntries s.node.lastSnapshotIndex.toNat (written closed opened) = disk
  requests : ∀ c ∈ s.calls, Follower.WellFormed c.request
  ints : Wal.Ints s.queued
  reported_le : s.reported ≤ s.writer.answers.length
  tickets : (s.outstanding.map (·.ticket)).Nodup
  waits : ∀ b ∈ s.outstanding, ∃ k c, b = batchOf k c ∧ s.calls[k]? = some c ∧ c.state = .waiting
  answers : ∀ a ∈ s.writer.answers, a.ok = true
  answered : ∀ c ∈ s.calls, ∀ stable, c.state = .answered stable → stable = true
  older : ∀ c ∈ s.calls, c.InFlight → c.request.term ≤ s.node.currentTerm
  phase : s.Settled disk ∨ ∃ j, s.Writing disk j
  acks : ∀ {before request logs after}, s.acks = before ++ (request, logs) :: after →
    Acked s.node.lastSnapshotIndex request logs ∧
      ((∀ later ∈ after, ∀ x ∈ later.1.entries, ¬ Conflicts request logs x) →
        Intact request logs s.node.logs)

variable {s t : Acceptor} {disk : List LogEntry}

/-- A follower that is ready satisfies the invariant. -/
lemma Ready.inv (h : s.Ready) : s.Inv s.node.logs where
  index := h.index
  snapshot_nonneg := h.snapshot_nonneg
  saved := h.saved
  compacted := h.compacted
  holds := h.holds
  requests c hc := by
    rw [h.calls] at hc
    cases hc
  ints e he := by
    rw [queued, h.queue] at he
    cases he
  reported_le := by rw [h.reported]; exact Nat.zero_le _
  tickets := by
    rw [outstanding, h.answers, h.collected, h.queue, List.drop_nil]
    exact List.nodup_nil
  waits b hb := by
    rw [outstanding, h.answers, h.collected, h.queue, List.drop_nil] at hb
    cases hb
  answers a ha := by
    rw [h.answers] at ha
    cases ha
  answered c hc := by
    rw [h.calls] at hc
    cases hc
  older c hc := by
    rw [h.calls] at hc
    cases hc
  phase := by
    refine .inl ⟨fun p hp => ?_, fun c hc => ?_⟩
    · rw [queued, h.queue] at hp
      obtain rfl := List.prefix_nil.mp hp
      exact List.prefix_rfl
    · rw [h.calls] at hc
      cases hc
  acks {before} _ _ _ heq := by
    rw [h.acks] at heq
    exact absurd heq.symm (List.append_ne_nil_of_right_ne_nil before (List.cons_ne_nil _ _))

/-- The metadata are saved already: `Save` compacts nothing. -/
lemma Inv.save (h : s.Inv disk) : s.save = s := by
  have := h.compacted
  rw [Acceptor.save, h.saved, WalWriter.save, if_neg (by omega)]

/-- The snapshot index is not negative. -/
lemma Inv.toNat_snapshot (h : s.Inv disk) :
    ((s.node.lastSnapshotIndex.toNat : ℕ) : ℤ) = s.node.lastSnapshotIndex :=
  Int.toNat_of_nonneg h.snapshot_nonneg

/-- What is replayed is aligned to the snapshot. -/
lemma Inv.aligned_replayed (h : s.Inv disk) (p : List LogEntry) :
    Aligned s.node.lastSnapshotIndex (s.replayed disk p) := by
  obtain ⟨closed, opened, -, hdisk⟩ := h.holds
  have haligned := aligned_replayEntries s.node.lastSnapshotIndex.toNat (written closed opened)
  rw [hdisk] at haligned
  have hreplayed := haligned.foldl_replayEntry p
  rw [h.toNat_snapshot] at hreplayed
  exact hreplayed

/-! ### Steps of the node and of the calls -/

/-- The log and the snapshot are the same: so are the checks on the previous entry. -/
lemma termAt_congr {r r' : Raft} (hlogs : r'.logs = r.logs)
    (hsnap : r'.lastSnapshotIndex = r.lastSnapshotIndex)
    (hsnapTerm : r'.lastSnapshotTerm = r.lastSnapshotTerm) (index : ℤ) :
    r'.termAt index = r.termAt index := by
  simp only [Raft.termAt, Raft.logAt, hlogs, hsnap, hsnapTerm]

/-- A call that replaces nothing starts behind the log. -/
lemma Active.le {j : ℕ} {c : AppendCall} (h : s.Active disk j c) (hflight : c.InFlight)
    (hc : ¬ c.Overwrites) : s.node.logs.length ≤ j := by
  obtain ⟨e, rest, heq⟩ := List.exists_cons_of_ne_nil hflight.news_ne_nil
  have heindex : e.logindex = s.node.lastSnapshotIndex + j + 1 := by
    simpa using h.places.aligned 0 e (by rw [heq]; rfl)
  by_contra hlt
  refine hc ⟨writeOf _ _ e, h.pending ▸ List.mem_map.mpr ⟨e, heq ▸ List.mem_cons_self, rfl⟩, ?_⟩
  rw [writeOf, if_neg (by omega)]

/-- When the calls in flight replace nothing, the log stays on disk. -/
lemma Writing.onDisk_logs {j : ℕ} (h : s.Writing disk j)
    (hnone : ∀ c ∈ s.calls, c.InFlight → ¬ c.Overwrites) :
    ∀ p, p <+: s.queued → s.node.logs <+: s.replayed disk p := by
  obtain ⟨c, hc, hinterm⟩ := h.call
  have hle := (h.active c hc hinterm).le hinterm.1 (hnone c hc hinterm.1)
  have hfront := h.onDisk
  rw [List.take_of_length_le hle] at hfront
  exact hfront

/-- Calls may come and go on, as long as one that leaves the flight leaves the log settled. -/
lemma phase_of_calls (h : s.Settled disk ∨ ∃ j, s.Writing disk j) (hnode : t.node = s.node)
    (hqueue : t.writer.queue = s.writer.queue)
    (hcalls : ∀ c ∈ t.calls, t.InTerm c →
      ∃ d ∈ s.calls, s.InTerm d ∧ d.request = c.request ∧ d.pending = c.pending)
    (hsome : (∃ c ∈ s.calls, s.InTerm c) → (∃ c ∈ t.calls, t.InTerm c) ∨ s.Settled disk) :
    t.Settled disk ∨ ∃ j, t.Writing disk j := by
  have hqueued : t.queued = s.queued := by rw [queued, queued, hqueue]
  have hreplayed : ∀ p, t.replayed disk p = s.replayed disk p := fun p => by
    rw [replayed, replayed, hnode]
  have hsettled : s.Settled disk → t.Settled disk := by
    refine fun h => ⟨fun p hp => ?_, fun c hc hinterm => ?_⟩
    · rw [hreplayed, hnode]
      exact h.onDisk p (hqueued ▸ hp)
    · obtain ⟨d, hd, hold, hrequest, hpending⟩ := hcalls c hc hinterm
      obtain ⟨h1, h2, h3, h4, h5, h6⟩ := h.overtaken d hd hold
      have hnews : d.news = c.news := by rw [AppendCall.news, AppendCall.news, hpending]
      rw [hnews] at h2 h3 h4 h5 h6
      rw [hrequest] at h6
      rw [hpending] at h3
      exact ⟨hqueue.trans h1, hnode ▸ h2, h3, h4, hnode ▸ h5, hnode ▸ h6⟩
  obtain h | ⟨j, h⟩ := h
  · exact .inl (hsettled h)
  · obtain hsome | hsome := hsome h.call
    · refine .inr ⟨j, hsome, fun p hp => ?_, fun c hc hinterm => ?_⟩
      · rw [hreplayed, hnode]
        exact h.onDisk p (hqueued ▸ hp)
      · obtain ⟨d, hd, hold, hrequest, hpending⟩ := hcalls c hc hinterm
        obtain ⟨h1, h2, h3, h4, h5, h6, h7⟩ := h.active d hd hold
        have hnews : d.news = c.news := by rw [AppendCall.news, AppendCall.news, hpending]
        rw [hnews] at h3 h4 h5 h6 h7
        rw [hrequest] at h1 h2 h5 h6
        rw [hpending] at h4
        refine ⟨hnode ▸ h1, hnode ▸ h2, hnode ▸ h3, hnode ▸ h4, hnode ▸ h5, hnode ▸ h6, ?_⟩
        rw [hreplayed, hqueued, hnode]
        exact h7
    · exact .inl (hsettled hsome)

/-- A step of the node that leaves the log alone. A new term makes calls in flight late, which must not
replace entries then. -/
lemma Inv.node (h : s.Inv disk) {node : Raft} (hindex : node.IndexInv)
    (hlogs : node.logs = s.node.logs) (hsnap : node.lastSnapshotIndex = s.node.lastSnapshotIndex)
    (hsnapTerm : node.lastSnapshotTerm = s.node.lastSnapshotTerm)
    (hsaved : node.fmp.snapshot_index = s.node.lastSnapshotIndex)
    (hterm : node.currentTerm = s.node.currentTerm ∨ s.node.currentTerm < node.currentTerm ∧
      ∀ c ∈ s.calls, c.InFlight → ¬ c.Overwrites) : Inv { s with node } disk := by
  have hreplayed : ∀ p, replayed { s with node } disk p = s.replayed disk p := fun p => by
    rw [replayed, replayed, hsnap]
  -- a call in the new term is one in the old term
  have hin : ∀ c ∈ s.calls, InTerm { s with node } c →
      s.InTerm c ∧ node.currentTerm = s.node.currentTerm := by
    intro c hc hinterm
    have hle := h.older c hc hinterm.1
    have heq : c.request.term = node.currentTerm := hinterm.2
    obtain hsame | ⟨hlt, -⟩ := hterm
    · exact ⟨⟨hinterm.1, heq.trans hsame⟩, hsame⟩
    · omega
  refine
    { index := hindex, snapshot_nonneg := hsnap ▸ h.snapshot_nonneg, saved := hsaved.trans hsnap.symm
      compacted := hsnap ▸ h.compacted, holds := hsnap ▸ h.holds, requests := h.requests
      ints := h.ints, reported_le := h.reported_le, tickets := h.tickets, waits := h.waits
      answers := h.answers, answered := h.answered, older := ?_, phase := ?_, acks := ?_ }
  · intro c hc hflight
    have hle := h.older c hc hflight
    show c.request.term ≤ node.currentTerm
    omega
  · have hsettled : (∀ p, p <+: s.queued → s.node.logs <+: s.replayed disk p) →
        ∀ p, p <+: queued { s with node } → node.logs <+: replayed { s with node } disk p := by
      intro hdisk p hp
      rw [hreplayed, hlogs]
      exact hdisk p hp
    obtain hphase | ⟨j, hphase⟩ := h.phase
    · refine .inl ⟨hsettled hphase.onDisk, fun c hc hinterm => ?_⟩
      obtain ⟨h1, h2, h3, h4, h5, h6⟩ := hphase.overtaken c hc (hin c hc hinterm).1
      exact ⟨h1, hlogs ▸ h2, h3, h4, hsnap ▸ h5, hlogs ▸ h6⟩
    · obtain hsame | ⟨hlt, hlate⟩ := hterm
      · obtain ⟨c, hc, hinterm⟩ := hphase.call
        refine .inr ⟨j, ⟨c, hc, hinterm.1, hinterm.2.trans hsame.symm⟩, fun p hp => ?_,
          fun c hc hinterm => ?_⟩
        · rw [hreplayed]
          show node.logs.take j <+: _
          rw [hlogs]
          exact hphase.onDisk p hp
        · obtain ⟨h1, h2, ⟨h3, h4, h5, h6⟩, h7, h8, h9, h10⟩ :=
            hphase.active c hc (hin c hc hinterm).1
          refine ⟨hsnap ▸ h1, (termAt_congr hlogs hsnap hsnapTerm _).trans h2,
            ⟨hlogs ▸ h3, hsnap ▸ h4, hlogs ▸ h5, hlogs ▸ h6⟩, ?_, hsnap ▸ h8, hlogs ▸ h9, ?_⟩
          · show c.pending = c.news.map (writeOf node.lastSnapshotIndex _)
            rw [hsnap, hlogs]
            exact h7
          · rw [hreplayed]
            show node.logs.take j ++ c.news <+: _
            rw [hlogs]
            exact h10
      · -- the calls that were in their term are late now
        refine .inl ⟨hsettled (hphase.onDisk_logs hlate), fun c hc hinterm => ?_⟩
        have := (hin c hc hinterm).2
        omega
  · intro before request logs after heq
    show Acked node.lastSnapshotIndex request logs ∧ (_ → Intact request logs node.logs)
    rw [hsnap, hlogs]
    exact h.acks heq

/-- A new call has handed over nothing. -/
lemma Inv.unlocked (h : s.Inv disk) {c₀ : AppendCall} (hrequest : Follower.WellFormed c₀.request)
    (hstate : c₀.state = .unlocked) : Inv { s with calls := s.calls ++ [c₀] } disk := by
  have hnot : ¬ c₀.InFlight := by
    rw [AppendCall.InFlight, hstate]
    exact fun hc => hc.2
  have hold : ∀ {k : ℕ} {c : AppendCall}, (s.calls ++ [c₀])[k]? = some c → c.InFlight →
      s.calls[k]? = some c := by
    intro k c hk hflight
    rw [List.getElem?_append] at hk
    split_ifs at hk
    · exact hk
    · obtain rfl := List.mem_singleton.mp (List.mem_of_getElem? hk)
      exact absurd hflight hnot
  have hnew : ∀ {P : AppendCall → Prop}, (∀ c ∈ s.calls, P c) → P c₀ → ∀ c ∈ s.calls ++ [c₀], P c := by
    intro P hcalls hc₀ c hc
    obtain hc | hc := List.mem_append.mp hc
    · exact hcalls c hc
    · exact List.mem_singleton.mp hc ▸ hc₀
  refine
    { index := h.index, snapshot_nonneg := h.snapshot_nonneg, saved := h.saved
      compacted := h.compacted, holds := h.holds, requests := hnew h.requests hrequest
      ints := h.ints, reported_le := h.reported_le, tickets := h.tickets, waits := ?_
      answers := h.answers, answered := hnew h.answered ?_
      older := hnew h.older fun hc => absurd hc hnot, phase := ?_, acks := h.acks }
  · intro b hb
    obtain ⟨k, c, hbatch, hk, hwaiting⟩ := h.waits b hb
    exact ⟨k, c, hbatch, List.getElem?_append_left (List.getElem?_eq_some_iff.mp hk).1 ▸ hk, hwaiting⟩
  · intro stable heq
    rw [hstate] at heq
    cases heq
  · refine phase_of_calls h.phase rfl rfl (fun c hc hinterm => ?_) fun ⟨c, hc, hinterm⟩ =>
      .inl ⟨c, List.mem_append_left _ hc, hinterm⟩
    obtain ⟨k, hk⟩ := List.getElem?_of_mem hc
    exact ⟨c, List.mem_of_getElem? (hold hk hinterm.1), hinterm, rfl, rfl⟩

/-- The calls after one of them has gone on. -/
lemma setState_cases {k i : ℕ} {state : CallState} {c : AppendCall}
    (h : (s.setState k state).calls[i]? = some c) :
    i = k ∧ (∃ d, s.calls[k]? = some d ∧ c = { d with state }) ∨ i ≠ k ∧ s.calls[i]? = some c := by
  by_cases hik : k = i
  · subst hik
    obtain ⟨d, hd, rfl⟩ := Option.map_eq_some_iff.mp ((List.getElem?_modify_eq _ k s.calls).symm.trans h)
    exact .inl ⟨rfl, d, hd, rfl⟩
  · exact .inr ⟨Ne.symm hik, (List.getElem?_modify_ne _ s.calls hik).symm.trans h⟩

/-- Setting the state of one call leaves the others. -/
lemma setState_ne {k i : ℕ} (hik : i ≠ k) (state : CallState) :
    (s.setState k state).calls[i]? = s.calls[i]? :=
  List.getElem?_modify_ne _ s.calls (Ne.symm hik)

/-- The calls of a changed list, when the changed one has the property too. -/
lemma forall_setState {P : AppendCall → Prop} {k : ℕ} {state : CallState}
    (hcalls : ∀ c ∈ s.calls, P c) (hk : ∀ c, s.calls[k]? = some c → P { c with state }) :
    ∀ c ∈ (s.setState k state).calls, P c := by
  intro c hc
  obtain ⟨i, hi⟩ := List.getElem?_of_mem hc
  obtain ⟨-, d, hd, rfl⟩ | ⟨-, hi⟩ := setState_cases hi
  · exact hk d hd
  · exact hcalls c (List.mem_of_getElem? hi)

/-- A batch is still waited for when a call that it is not of, or that does not wait, goes on. -/
lemma waits_setState {k : ℕ} {state : CallState} {b : LogBatch ℕ Empty}
    (hb : ∃ i c, b = batchOf i c ∧ s.calls[i]? = some c ∧ c.state = .waiting)
    (hk : ∀ c, b = batchOf k c → s.calls[k]? = some c → c.state ≠ .waiting) :
    ∃ i c, b = batchOf i c ∧ (s.setState k state).calls[i]? = some c ∧ c.state = .waiting := by
  obtain ⟨i, c, rfl, hi, hwaiting⟩ := hb
  refine ⟨i, c, rfl, (setState_ne ?_ state).trans hi, hwaiting⟩
  rintro rfl
  exact hk c rfl hi hwaiting

/-- A call goes on that the writer has no batch of, and is not in flight then. -/
lemma Inv.goes_on (h : s.Inv disk) {k : ℕ} {c : AppendCall} {state : CallState}
    (hk : s.calls[k]? = some c) (hwaiting : c.state ≠ .waiting) (hold : s.InTerm c → s.Settled disk)
    (hnew : ¬ AppendCall.InFlight { c with state })
    (hanswered : ∀ stable, state = .answered stable → stable = true) : Inv (s.setState k state) disk := by
  have hthe : ∀ d, s.calls[k]? = some d → d = c := fun d hd => Option.some.inj (hd.symm.trans hk)
  refine
    { index := h.index, snapshot_nonneg := h.snapshot_nonneg, saved := h.saved
      compacted := h.compacted, holds := h.holds
      requests := forall_setState h.requests fun d hd => h.requests d (List.mem_of_getElem? hd)
      ints := h.ints, reported_le := h.reported_le, tickets := h.tickets, waits := ?_
      answers := h.answers, answered := forall_setState h.answered fun _ _ => hanswered
      older := forall_setState h.older fun d hd hflight => absurd (hthe d hd ▸ hflight) hnew
      phase := ?_, acks := h.acks }
  · exact fun b hb => waits_setState (h.waits b hb) fun d _ hd => hthe d hd ▸ hwaiting
  · refine phase_of_calls h.phase rfl rfl (fun d hd hinterm => ?_) fun ⟨d, hd, hinterm⟩ => ?_
    · obtain ⟨i, hi⟩ := List.getElem?_of_mem hd
      obtain ⟨-, x, hx, rfl⟩ | ⟨-, hi⟩ := setState_cases hi
      · exact absurd (hthe x hx ▸ hinterm.1) hnew
      · exact ⟨d, List.mem_of_getElem? hi, hinterm, rfl, rfl⟩
    · obtain ⟨i, hi⟩ := List.getElem?_of_mem hd
      by_cases hik : i = k
      · subst hik
        exact .inr (hold (hthe d hi ▸ hinterm))
      · exact .inl ⟨d, List.mem_of_getElem? ((setState_ne hik state).trans hi), hinterm⟩

/-- An element of a list with one more is that one or stands in front of it. -/
lemma concat_eq_append_cons {α : Type*} {l before after : List α} {x y : α}
    (h : l ++ [x] = before ++ y :: after) :
    (∃ after', after = after' ++ [x] ∧ l = before ++ y :: after') ∨ after = [] ∧ y = x := by
  cases hafter : after.getLast? with
  | none =>
    obtain rfl := List.getLast?_eq_none_iff.mp hafter
    exact .inr ⟨rfl, (List.singleton_inj.mp (List.append_inj' h rfl).2).symm⟩
  | some last =>
    obtain ⟨after', rfl⟩ := List.getLast?_eq_some_iff.mp hafter
    have h' : l ++ [x] = (before ++ y :: after') ++ [last] := by
      rw [List.append_assoc, List.cons_append]
      exact h
    obtain ⟨hfront, hlast⟩ := List.append_inj' h' rfl
    exact .inl ⟨after', by rw [List.singleton_inj.mp hlast], hfront⟩

/-- A handler replies success, with its entries in the log. -/
lemma Inv.acknowledge (h : s.Inv disk) {request : AppendEntriesArgs}
    (hrequest : Follower.WellFormed request) (hentries : ∀ e ∈ request.entries, e ∈ s.node.logs) :
    Inv { s with acks := s.acks ++ [(request, s.node.logs)] } disk where
  index := h.index
  snapshot_nonneg := h.snapshot_nonneg
  saved := h.saved
  compacted := h.compacted
  holds := h.holds
  requests := h.requests
  ints := h.ints
  reported_le := h.reported_le
  tickets := h.tickets
  waits := h.waits
  answers := h.answers
  answered := h.answered
  older := h.older
  phase := phase_of_calls h.phase rfl rfl (fun c hc hinterm => ⟨c, hc, hinterm, rfl, rfl⟩) .inl
  acks {before request' logs after} heq := by
    obtain ⟨after', rfl, hacks⟩ | ⟨rfl, hlast⟩ := concat_eq_append_cons heq
    · obtain ⟨hacked, hintact⟩ := h.acks hacks
      exact ⟨hacked, fun hnone => hintact fun later hlater =>
        hnone later (List.mem_append_left _ hlater)⟩
    · obtain ⟨rfl, rfl⟩ := Prod.mk.inj hlast
      exact ⟨⟨h.index.aligned, hrequest.entries, hentries⟩, fun _ x hx _ => hx⟩

/-! ### The writer -/

/-- A longer list begins as the shorter one does. -/
lemma take_of_isPrefix {α : Type*} {l l' : List α} (h : l <+: l') {j : ℕ} (hj : j ≤ l.length) :
    l'.take j = l.take j := by
  obtain ⟨behind, rfl⟩ := h
  exact List.take_append_of_le_length hj

/-- Entries at their place, behind those that are handed over, cut what is recovered there. -/
lemma Inv.replayed_append (h : s.Inv disk) {j : ℕ} {news : List LogEntry}
    (hj : j ≤ (s.replayed disk s.queued).length)
    (haligned : Aligned (s.node.lastSnapshotIndex + j) news) (hne : news ≠ []) :
    s.replayed disk (s.queued ++ news) = (s.replayed disk s.queued).take j ++ news := by
  have hreplayed := h.aligned_replayed s.queued
  rw [← h.toNat_snapshot] at hreplayed haligned
  rw [replayed, List.foldl_append]
  exact foldl_replayEntry_aligned hreplayed hj haligned hne

/-- When a call hands over what its request needs, the calls of its term in flight write from the same
place on as it does. -/
lemma Inv.active_push (h : s.Inv disk) {c : AppendCall} {j : ℕ} (hplaces : Places s.node c.news j)
    (hbegin : ∀ d ∈ s.calls, d.InFlight → d.request.term = s.node.currentTerm → d.news <+: c.news) :
    (∀ p, p <+: s.queued → s.node.logs.take j <+: s.replayed disk p) ∧
      ∀ d ∈ s.calls, s.InTerm d → s.Active disk j d := by
  obtain hphase | ⟨i, hphase⟩ := h.phase
  · refine ⟨fun p hp => (List.take_prefix _ _).trans (hphase.onDisk p hp), fun d hd hinterm => ?_⟩
    -- the first entry of the other call is in the log, that of this one is not
    obtain ⟨e, he, hmem⟩ := (hphase.overtaken d hd hinterm).first
    obtain ⟨behind, heq⟩ := hbegin d hd hinterm.1 hinterm.2
    refine absurd hmem (hplaces.head_not_mem h.index.aligned e ?_)
    rw [← heq, List.head?_append, he]
    rfl
  · obtain ⟨d, hd, hinterm⟩ := hphase.call
    obtain rfl := (hphase.active d hd hinterm).places.eq_of_prefix hplaces hinterm.1.news_ne_nil
      (hbegin d hd hinterm.1 hinterm.2)
    exact ⟨hphase.onDisk, hphase.active⟩

/-- The call waits, and its batch is the last in the queue. -/
def pushed (s : Acceptor) (k : ℕ) (c : AppendCall) : Acceptor :=
  { s.setState k .waiting with
    writer := { s.writer with queue := s.writer.queue ++ [batchOf k c] } }

/-- The entries of the call are behind those in the queue. -/
lemma queued_pushed (s : Acceptor) (k : ℕ) (c : AppendCall) :
    (s.pushed k c).queued = s.queued ++ c.news := by
  rw [pushed, queued, queued, List.flatMap_append, List.flatMap_singleton, batchOf]

/-- The batch of the call is behind those that are outstanding. -/
lemma outstanding_pushed (s : Acceptor) (k : ℕ) (c : AppendCall) :
    (s.pushed k c).outstanding = s.outstanding ++ [batchOf k c] :=
  (List.append_assoc _ _ _).symm

/-- Nothing is outstanding for a call that has not handed over its batch. -/
lemma Inv.ticket_ne (h : s.Inv disk) {k : ℕ} {c : AppendCall} (hk : s.calls[k]? = some c)
    (hstate : c.state = .unlocked) : ∀ b ∈ s.outstanding, b.ticket ≠ .waiter k := by
  intro b hb hticket
  obtain ⟨i, d, rfl, hi, hwaiting⟩ := h.waits b hb
  obtain rfl : i = k := Ticket.waiter.inj hticket
  rw [Option.some.inj (hi.symm.trans hk), hstate] at hwaiting
  cases hwaiting

/-- Every outstanding batch is one that its call waits for. -/
lemma Inv.waits_pushed (h : s.Inv disk) {k : ℕ} {c : AppendCall} (hk : s.calls[k]? = some c)
    (hstate : c.state = .unlocked) : ∀ b ∈ (s.pushed k c).outstanding, ∃ i d, b = batchOf i d ∧
      (s.pushed k c).calls[i]? = some d ∧ d.state = .waiting := by
  intro b hb
  rw [outstanding_pushed] at hb
  obtain hold | hnew := List.mem_append.mp hb
  · exact waits_setState (h.waits b hold) fun d hbd _ =>
      absurd (hbd ▸ rfl) (h.ticket_ne hk hstate b hold)
  · obtain rfl := List.mem_singleton.mp hnew
    refine ⟨k, { c with state := .waiting }, rfl, ?_, rfl⟩
    rw [pushed, setState, List.getElem?_modify_eq, hk]
    rfl

/-- Behind the push the calls of the term write from the place of the new one on. -/
lemma Inv.writing_pushed (h : s.Inv disk) {k : ℕ} {c : AppendCall} {j : ℕ} (hk : s.calls[k]? = some c)
    (hne : c.pending ≠ []) (hcurrent : Current s.node c) (hplaces : Places s.node c.news j)
    (hpending : c.pending = c.news.map (writeOf s.node.lastSnapshotIndex
      (s.node.lastSnapshotIndex + s.node.logs.length)))
    (hnews : ∀ e ∈ c.news, e ∈ c.request.entries ∧ s.node.lastSnapshotIndex < e.logindex)
    (hentries : ∀ e ∈ c.request.entries, e ∈ s.node.logs.take j ++ c.news)
    (hbegin : ∀ d ∈ s.calls, d.InFlight → d.request.term = s.node.currentTerm → d.news <+: c.news) :
    (s.pushed k c).Writing disk j := by
  have hnonempty : c.news ≠ [] := fun hnil => hne (List.map_eq_nil_iff.mp hnil)
  obtain ⟨hfront, hactive⟩ := h.active_push hplaces hbegin
  have hlength : (s.node.logs.take j).length = j := List.length_take_of_le hplaces.le
  have hall := hfront s.queued List.prefix_rfl
  have hjle : j ≤ (s.replayed disk s.queued).length := hlength ▸ hall.length_le
  have hcut : (s.replayed disk s.queued).take j = s.node.logs.take j := by
    rw [take_of_isPrefix hall hlength.ge, List.take_of_length_le hlength.le]
  refine ⟨?_, fun p hp => ?_, fun d hd hinterm => ?_⟩
  · refine ⟨{ c with state := .waiting }, List.mem_of_getElem? (i := k) ?_, ⟨hne, trivial⟩,
      hcurrent.1.symm⟩
    rw [pushed, setState, List.getElem?_modify_eq, hk]
    rfl
  · show s.node.logs.take j <+: s.replayed disk p
    rw [queued_pushed] at hp
    obtain hp | hp := List.prefix_or_prefix_of_prefix hp (List.prefix_append s.queued c.news)
    · exact hfront p hp
    · -- some of its own entries are written
      obtain ⟨own, rfl⟩ := hp
      have hown := (List.prefix_append_right_inj s.queued).mp hp
      cases own with
      | nil =>
        rw [List.append_nil]
        exact hall
      | cons e own =>
        rw [h.replayed_append hjle _ (List.cons_ne_nil _ _), hcut]
        · exact List.prefix_append _ _
        · rw [List.prefix_iff_eq_take.mp hown]
          exact hplaces.aligned.take _
  · have hdisk : (s.pushed k c).replayed disk (s.pushed k c).queued =
        s.node.logs.take j ++ c.news := by
      show s.replayed disk _ = _
      rw [queued_pushed, h.replayed_append hjle hplaces.aligned hnonempty, hcut]
    obtain ⟨i, hi⟩ := List.getElem?_of_mem hd
    obtain ⟨-, x, hx, rfl⟩ | ⟨-, hi⟩ := setState_cases hi
    · obtain rfl := Option.some.inj (hx.symm.trans hk)
      exact ⟨hcurrent.2.1, hcurrent.2.2.1, hplaces, hpending, hnews, hentries,
        hdisk ▸ List.prefix_rfl⟩
    · -- the others write the beginning of it
      have hold : s.InTerm d := hinterm
      obtain ⟨h1, h2, h3, h4, h5, h6, -⟩ := hactive d (List.mem_of_getElem? hi) hold
      refine ⟨h1, h2, h3, h4, h5, h6, ?_⟩
      rw [hdisk]
      exact (List.prefix_append_right_inj _).mpr (hbegin d (List.mem_of_getElem? hi) hold.1 hold.2)

/-- A call hands over what its request needs. -/
lemma Inv.push (h : s.Inv disk) {k : ℕ} {c : AppendCall} (hk : s.calls[k]? = some c)
    (hstate : c.state = .unlocked) (hne : c.pending ≠ []) (hcalm : s.Calm (.push k)) :
    Inv (s.pushed k c) disk := by
  have hthe : ∀ d, s.calls[k]? = some d → d = c := fun d hd => Option.some.inj (hd.symm.trans hk)
  obtain ⟨hbegin, hcurrent, hsuffix⟩ := hcalm c hk hne
  have hrequest := h.requests c (List.mem_of_getElem? hk)
  obtain ⟨j, hplaces, hpending, hnews, hentries⟩ := hcurrent.places h.index hrequest hsuffix hne
  refine
    { index := h.index, snapshot_nonneg := h.snapshot_nonneg, saved := h.saved
      compacted := h.compacted, holds := h.holds
      requests := forall_setState h.requests fun d hd => h.requests d (List.mem_of_getElem? hd)
      ints := ?_, reported_le := h.reported_le, tickets := ?_, waits := h.waits_pushed hk hstate
      answers := h.answers
      answered := forall_setState h.answered fun d hd stable heq => by cases heq
      older := forall_setState h.older fun d hd _ => by rw [hthe d hd]; exact hcurrent.1.ge
      phase := .inr ⟨j, h.writing_pushed hk hne hcurrent hplaces hpending hnews hentries hbegin⟩
      acks := h.acks }
  · rw [queued_pushed]
    intro e he
    obtain he | he := List.mem_append.mp he
    · exact h.ints e he
    · exact hrequest.ints e (hnews e he).1
  · rw [outstanding_pushed, List.map_append]
    refine List.nodup_append.mpr ⟨h.tickets, List.nodup_singleton _, ?_⟩
    intro ticket hticket x hx
    obtain rfl := List.mem_singleton.mp hx
    obtain ⟨b, hb, rfl⟩ := List.mem_map.mp hticket
    exact h.ticket_ne hk hstate b hb

/-- The queue is the next group and what is left behind it. -/
lemma queued_eq (s : Acceptor) : s.queued =
    s.writer.group.flatMap (·.logs) ++ (s.writer.queue.drop kSyncBatchCount).flatMap (·.logs) := by
  rw [queued, WalWriter.group, ← List.flatMap_append, List.take_append_drop]

/-- A round takes the group from the queue. -/
lemma queued_round {writer : WalWriter ℕ Empty}
    (hqueue : writer.queue = s.writer.queue.drop kSyncBatchCount) :
    s.queued = s.writer.group.flatMap (·.logs) ++ queued { s with writer } := by
  rw [queued_eq, queued, hqueue]

/-- A round leaves the same batches outstanding. -/
lemma Inv.outstanding_round (h : s.Inv disk) {time_due : Bool} {writer : WalWriter ℕ Empty}
    (hround : s.writer.round ⟨none, true, time_due⟩ = some writer) :
    (outstanding { s with writer }).Perm s.outstanding := by
  obtain ⟨-, hqueue, new, hanswers, -, hperm⟩ := WalWriter.round_succeeds hround
  rw [outstanding, outstanding, hanswers, hqueue,
    List.drop_append_of_le_length h.reported_le, List.map_append]
  have hcollected := hperm.append_left ((s.writer.answers.drop s.reported).map (·.batch))
  refine List.Perm.trans (List.Perm.of_eq ?_) ((hcollected.append_right
    (s.writer.queue.drop kSyncBatchCount)).trans (List.Perm.of_eq ?_))
  · rw [List.append_assoc (List.map _ _)]
  · have htake : s.writer.group ++ s.writer.queue.drop kSyncBatchCount = s.writer.queue :=
      List.take_append_drop _ _
    rw [← List.append_assoc, List.append_assoc, htake]

/-- What is on disk behind a round, and the rest of the queue, is what the queue was to leave there. -/
lemma Inv.phase_round (h : s.Inv disk) {writer : WalWriter ℕ Empty}
    (hqueue : writer.queue = s.writer.queue.drop kSyncBatchCount) :
    Settled { s with writer } (s.replayed disk (s.writer.group.flatMap (·.logs))) ∨
      ∃ j, Writing { s with writer } (s.replayed disk (s.writer.group.flatMap (·.logs))) j := by
  have hreplayed : ∀ p, replayed { s with writer }
      (s.replayed disk (s.writer.group.flatMap (·.logs))) p =
        s.replayed disk (s.writer.group.flatMap (·.logs) ++ p) := fun p => by
    rw [replayed, replayed, replayed, List.foldl_append]
  have hextend : ∀ {p}, p <+: queued { s with writer } →
      s.writer.group.flatMap (·.logs) ++ p <+: s.queued := fun hp => by
    rw [queued_round hqueue]
    exact (List.prefix_append_right_inj _).mpr hp
  obtain hphase | ⟨j, hphase⟩ := h.phase
  · refine .inl ⟨fun p hp => ?_, fun c hc hin => ?_⟩
    · rw [hreplayed]
      exact hphase.onDisk _ (hextend hp)
    · -- there was nothing to write
      obtain ⟨h1, h2, h3, h4, h5, h6⟩ := hphase.overtaken c hc hin
      have hgroup : s.writer.group = [] := by rw [WalWriter.group, h1, List.take_nil]
      refine ⟨?_, h2, h3, h4, ?_, h6⟩
      · show writer.queue = []
        rw [hqueue, h1, List.drop_nil]
      · rw [hgroup]
        exact h5
  · refine .inr ⟨j, hphase.call, fun p hp => ?_, fun c hc hin => ?_⟩
    · rw [hreplayed]
      exact hphase.onDisk _ (hextend hp)
    · obtain ⟨h1, h2, h3, h4, h5, h6, h7⟩ := hphase.active c hc hin
      refine ⟨h1, h2, h3, h4, h5, h6, ?_⟩
      rw [hreplayed, ← queued_round hqueue]
      exact h7

/-- A round moves the group from the queue to the disk. -/
lemma Inv.round (h : s.Inv disk) {time_due : Bool} {writer : WalWriter ℕ Empty}
    (hround : s.writer.round ⟨none, true, time_due⟩ = some writer) (hcalm : s.Calm (.round time_due)) :
    Inv { s with writer } (s.replayed disk (s.writer.group.flatMap (·.logs))) := by
  obtain ⟨hwal, hqueue, new, hanswers, hok, -⟩ := WalWriter.round_succeeds hround
  have hkeeps : s.writer.wal.KeepsOrder (s.writer.group.flatMap (·.logs)) := hcalm
  have hqueued := queued_round hqueue
  have houtstanding := h.outstanding_round hround
  have hadmitted : ∀ e ∈ s.writer.group.flatMap (·.logs), e.Admitted := by
    intro e he
    obtain ⟨hpos, hlt, hterm⟩ := h.ints e (hqueued ▸ List.mem_append_left _ he)
    exact ⟨hpos, hlt, hterm, hkeeps.size_le e he⟩
  refine
    { index := h.index, snapshot_nonneg := h.snapshot_nonneg, saved := h.saved
      compacted := ?_, holds := ?_, requests := h.requests
      ints := fun e he => h.ints e (hqueued ▸ List.mem_append_right _ he)
      reported_le := ?_, tickets := (houtstanding.map _).nodup_iff.mpr h.tickets
      waits := fun b hb => h.waits b (houtstanding.subset hb), answers := ?_
      answered := h.answered, older := h.older, phase := h.phase_round hqueue, acks := h.acks }
  · show s.node.lastSnapshotIndex ≤ writer.wal.compactedSnapshotIndex
    rw [hwal, Wal.writeGroup_compacted]
    exact h.compacted
  · obtain ⟨closed, opened, hw, hdisk⟩ := h.holds
    obtain ⟨closed', opened', hw', hwritten⟩ := hw.writeGroup hadmitted hkeeps.rolls
    refine ⟨closed', opened', hwal ▸ hw', ?_⟩
    rw [hwritten, replayEntries, List.foldl_append, replayed, ← hdisk, replayEntries]
  · show s.reported ≤ writer.answers.length
    rw [hanswers, List.length_append]
    exact h.reported_le.trans (Nat.le_add_right _ _)
  · intro a ha
    have hmem : a ∈ s.writer.answers ++ new := hanswers ▸ ha
    obtain ha | ha := List.mem_append.mp hmem
    · exact h.answers a ha
    · exact hok a ha

/-- The writer tells a waiter: the batch of its call has left the queue. -/
lemma Inv.tell (h : s.Inv disk) {a : Answer ℕ Empty} (ha : s.writer.answers[s.reported]? = some a) :
    (s.tell a).Inv disk := by
  obtain ⟨hlt, hget⟩ := List.getElem?_eq_some_iff.mp ha
  have hok := h.answers a (List.mem_of_getElem? ha)
  have houtstanding : s.outstanding =
      a.batch :: Acceptor.outstanding { s with reported := s.reported + 1 } := by
    rw [outstanding, List.drop_eq_getElem_cons hlt, hget]
    rfl
  obtain ⟨k, c, hbatch, hk, hwaiting⟩ := h.waits a.batch (houtstanding ▸ List.mem_cons_self)
  have hthe : ∀ d, s.calls[k]? = some d → d = c := fun d hd => Option.some.inj (hd.symm.trans hk)
  have htickets := h.tickets
  rw [houtstanding, List.map_cons] at htickets
  obtain ⟨hfresh, hnodup⟩ := List.nodup_cons.mp htickets
  have hgone : ∀ b ∈ Acceptor.outstanding { s with reported := s.reported + 1 }, ∀ d,
      b ≠ batchOf k d := fun b hb d heq => by
    refine hfresh (List.mem_map.mpr ⟨b, hb, ?_⟩)
    rw [heq, hbatch]
    rfl
  have htell : s.tell a = { s.setState k (.answered true) with reported := s.reported + 1 } := by
    have hticket : a.batch.ticket = .waiter k := by rw [hbatch]; rfl
    rw [Acceptor.tell, hticket, hok]
  have hflight : c.pending ≠ [] → c.InFlight := fun hne => by
    rw [AppendCall.InFlight, hwaiting]
    exact ⟨hne, trivial⟩
  rw [htell]
  refine
    { index := h.index, snapshot_nonneg := h.snapshot_nonneg, saved := h.saved
      compacted := h.compacted, holds := h.holds
      requests := forall_setState h.requests fun d hd => h.requests d (List.mem_of_getElem? hd)
      ints := h.ints, reported_le := hlt, tickets := hnodup, waits := fun b hb => ?_
      answers := h.answers
      answered := forall_setState h.answered fun d _ stable heq => (CallState.answered.inj heq).symm
      older := forall_setState h.older fun d hd hnow => h.older d (List.mem_of_getElem? hd) ?_
      phase := ?_, acks := h.acks }
  · exact waits_setState (h.waits b (houtstanding ▸ List.mem_cons_of_mem _ hb)) fun d hbd _ =>
      absurd hbd (hgone b hb d)
  · rw [hthe d hd] at hnow ⊢
    exact hflight hnow.1
  · refine phase_of_calls h.phase rfl rfl (fun d hd hinterm => ?_) fun ⟨d, hd, hold⟩ => ?_
    · obtain ⟨i, hi⟩ := List.getElem?_of_mem hd
      obtain ⟨-, x, hx, rfl⟩ | ⟨-, hi⟩ := setState_cases hi
      · rw [hthe x hx] at hinterm ⊢
        exact ⟨c, List.mem_of_getElem? hk, ⟨hflight hinterm.1.1, hinterm.2⟩, rfl, rfl⟩
      · exact ⟨d, List.mem_of_getElem? hi, hinterm, rfl, rfl⟩
    · obtain ⟨i, hi⟩ := List.getElem?_of_mem hd
      by_cases hik : i = k
      · subst hik
        obtain rfl := hthe d hi
        refine .inl ⟨{ d with state := .answered true }, List.mem_of_getElem? (i := i) ?_,
          ⟨hold.1.1, trivial⟩, hold.2⟩
        rw [setState, List.getElem?_modify_eq, hi]
        rfl
      · exact .inl ⟨d, List.mem_of_getElem? (i := i) ((setState_ne hik _).trans hi), hold⟩

/-! ### A handler takes the lock again -/

/-- A handler whose writes are in the log replies success. -/
lemma Inv.succeeds (h : s.Inv disk) {k : ℕ} {c : AppendCall} {stable : Bool} {node : Raft}
    {rep : AppendEntriesReply} (hk : s.calls[k]? = some c) (hstate : c.state = .answered stable)
    (hindex : node.IndexInv) (hsnap : node.lastSnapshotIndex = s.node.lastSnapshotIndex)
    (hsaved : node.fmp.snapshot_index = node.lastSnapshotIndex)
    (hterm : node.currentTerm = s.node.currentTerm) (hsuccess : rep.success = true)
    (hentries : ∀ e ∈ c.request.entries, e ∈ node.logs)
    (hintact : ∀ request logs, Acked s.node.lastSnapshotIndex request logs →
      Intact request logs s.node.logs → (∀ x ∈ c.request.entries, ¬ Conflicts request logs x) →
      Intact request logs node.logs)
    (hsettled : (Acceptor.reply { s with node } k c.request rep).Settled disk) :
    (Acceptor.reply { s with node } k c.request rep).Inv disk := by
  refine
    { index := hindex, snapshot_nonneg := hsnap.symm ▸ h.snapshot_nonneg, saved := hsaved
      compacted := hsnap.symm ▸ h.compacted, holds := hsnap.symm ▸ h.holds
      requests := forall_setState h.requests fun d hd => h.requests d (List.mem_of_getElem? hd)
      ints := h.ints, reported_le := h.reported_le, tickets := h.tickets, waits := ?_
      answers := h.answers, answered := forall_setState h.answered fun d _ _ heq => by cases heq
      older := forall_setState (fun d hd hflight => hterm.symm ▸ h.older d hd hflight)
        fun d _ hd => hd.2.elim
      phase := .inl hsettled, acks := ?_ }
  · refine fun b hb => waits_setState (h.waits b hb) fun d _ hd => ?_
    rw [Option.some.inj (hd.symm.trans hk), hstate]
    exact fun heq => by cases heq
  · intro before request logs after heq
    have heq' : s.acks ++ [(c.request, node.logs)] = before ++ (request, logs) :: after := by
      rw [← heq, Acceptor.reply, if_pos hsuccess]
    show Acked node.lastSnapshotIndex request logs ∧ (_ → Intact request logs node.logs)
    rw [hsnap]
    obtain ⟨after', rfl, hacks⟩ | ⟨rfl, hnow⟩ := concat_eq_append_cons heq'
    · obtain ⟨hacked, hbefore⟩ := h.acks hacks
      refine ⟨hacked, fun hnone => ?_⟩
      exact hintact request logs hacked
        (hbefore fun later hlater => hnone later (List.mem_append_left _ hlater))
        (hnone _ (List.mem_append_right _ (List.mem_singleton_self _)))
    · obtain ⟨rfl, rfl⟩ := Prod.mk.inj hnow
      exact ⟨⟨hsnap ▸ hindex.aligned, (h.requests c (List.mem_of_getElem? hk)).entries, hentries⟩,
        fun _ x hx _ => hx⟩

/-- The calls in flight behind a reply are calls that were in flight. -/
lemma mem_of_reply {k : ℕ} {rep : AppendEntriesReply} {d : AppendCall}
    (hcalls : t.calls = (s.setState k (.replied rep)).calls)
    (hterm : t.node.currentTerm = s.node.currentTerm) (hd : d ∈ t.calls) (hinterm : t.InTerm d) :
    d ∈ s.calls ∧ s.InTerm d := by
  rw [hcalls] at hd
  obtain ⟨i, hi⟩ := List.getElem?_of_mem hd
  obtain ⟨-, x, hx, rfl⟩ | ⟨-, hi⟩ := setState_cases hi
  · exact hinterm.1.2.elim
  · exact ⟨List.mem_of_getElem? hi, hinterm.1, hinterm.2.trans hterm⟩

/-- The first of the calls in flight makes its writes: the log is on disk then, and the other calls are
overtaken. -/
lemma Inv.applied (h : s.Inv disk) {j k : ℕ} (hphase : s.Writing disk j) {c : AppendCall}
    {stable : Bool} {node : Raft} {rep : AppendEntriesReply} (hk : s.calls[k]? = some c)
    (hstate : c.state = .answered stable) (hinterm : s.InTerm c) (hqueue : s.writer.queue = [])
    (hs : s.node.appendEntriesStable c.request c.pending stable = .ok (node, rep)) :
    (Acceptor.reply { s with node } k c.request rep).Inv disk := by
  have hmem := List.mem_of_getElem? hk
  have hqueued : s.queued = [] := by rw [queued, hqueue, List.flatMap_nil]
  have honDisk : ∀ d ∈ s.calls, s.InTerm d → s.node.logs.take j ++ d.news <+: disk := by
    intro d hd hin
    have hd' := (hphase.active d hd hin).onDisk
    rw [hqueued] at hd'
    exact hd'
  obtain ⟨hle, hprev, hplaces, hpending, hnews, hentries, -⟩ := hphase.active c hmem hinterm
  obtain rfl := h.answered c hmem stable hstate
  obtain ⟨t, reply', ht, hindex, -⟩ := h.index.appendEntriesStable c.request c.pending true
  obtain ⟨rfl, rfl⟩ := Prod.mk.inj (Except.ok.inj (hs.symm.trans ht))
  have hmax : s.node.logs.length = max s.node.logs.length j := (Nat.max_eq_left hplaces.le).symm
  have hcheck : s.node.checkPending s.node.getLastLogIndex c.pending = none := by
    rw [hpending]
    exact Raft.checkPending_writeOf h.index.aligned hplaces.aligned (hmax ▸ h.index.last_eq)
  rw [h.index.appendEntriesStable_eq hinterm.2.symm hle hprev hcheck] at hs
  obtain ⟨logs, last, hlogs, -, rfl, -, rfl⟩ := Raft.applyEntries_cases hs
  have hdrop : s.node.logs.drop (j + c.news.length) = [] := List.drop_eq_nil_of_le hplaces.covers
  rw [hpending, Raft.foldl_writeOf (fun e he => (hnews e he).2) hmax hplaces.aligned, hdrop,
    List.append_nil] at hlogs
  have hlogsDisk : logs <+: disk := hlogs ▸ honDisk c hmem hinterm
  refine h.succeeds hk hstate hindex rfl rfl rfl rfl (fun e he => ?_) (fun request logs' hacked hbefore
    hthis => ?_) ⟨fun p hp => ?_, fun d hd hin => ?_⟩
  · exact hlogs ▸ hentries e he
  · have hcut := hacked.take h.index.aligned hbefore hplaces.first fun e he => hthis e (hnews e he).1
    intro x hx hxle
    exact hlogs ▸ List.mem_append_left _ (hcut x hx hxle)
  · have hp' : p <+: s.queued := hp
    rw [hqueued] at hp'
    obtain rfl := List.prefix_nil.mp hp'
    exact hlogsDisk
  · obtain ⟨hd, hin⟩ := mem_of_reply rfl rfl hd hin
    obtain ⟨-, -, hplaces', hpending', hnews', hentries', -⟩ := hphase.active d hd hin
    refine ⟨hqueue, ?_, ⟨_, _, hpending'⟩, hplaces'.aligned.sorted, fun e he => ⟨(hnews' e he).2, ?_⟩,
      fun e he => ?_⟩
    · -- both calls have written their first entries at the same place
      obtain ⟨e, rest, heq⟩ := List.exists_cons_of_ne_nil hin.1.news_ne_nil
      have hfirst : s.node.logs.take j ++ [e] <+: disk := by
        refine List.IsPrefix.trans ?_ (honDisk d hd hin)
        rw [heq, List.prefix_append_right_inj]
        exact List.prefix_append [e] rest
      refine ⟨e, by rw [heq]; rfl, (List.prefix_of_prefix_length_le hfirst hlogsDisk ?_).subset
        (List.mem_append_right _ (List.mem_singleton_self e))⟩
      rw [hlogs, List.length_append, List.length_append, List.length_singleton]
      exact Nat.add_le_add_left (List.length_pos_of_ne_nil hinterm.1.news_ne_nil) _
    · exact (honDisk d hd hin).subset (List.mem_append_right _ he)
    · obtain he | he := List.mem_append.mp (hentries' e he)
      · exact .inl (hlogs ▸ List.mem_append_left _ he)
      · exact .inr he

/-- A list of entries at their places is the beginning of another one that has them all. -/
lemma prefix_of_subset {snap : ℤ} {l l' : List LogEntry} (hl : Aligned snap l) (hl' : Aligned snap l')
    (hsub : ∀ e ∈ l, e ∈ l') : l <+: l' := by
  rw [List.prefix_iff_getElem?]
  intro i hi
  have hget := List.getElem?_eq_getElem hi
  obtain ⟨k, hk⟩ := List.getElem?_of_mem (hsub _ (List.getElem_mem hi))
  have h1 := hl i _ hget
  have h2 := hl' k _ hk
  obtain rfl : i = k := by omega
  exact hk

/-- A call that was overtaken makes its writes once more: the log stays, or grows by entries that are on
disk. -/
lemma Inv.applied_again (h : s.Inv disk) {k : ℕ} (hphase : s.Settled disk) {c : AppendCall}
    {stable : Bool} {node : Raft} {rep : AppendEntriesReply} (hk : s.calls[k]? = some c)
    (hstate : c.state = .answered stable) (hinterm : s.InTerm c)
    (hchecks : s.node.PassesChecks c.request c.pending) (hindex : node.IndexInv)
    (happly : s.node.applyEntries c.request c.pending = .ok (node, rep)) :
    (Acceptor.reply { s with node } k c.request rep).Inv disk := by
  obtain ⟨hqueue, -, ⟨snap, last, hpending⟩, hsorted, hnews, hentries⟩ :=
    hphase.overtaken c (List.mem_of_getElem? hk) hinterm
  obtain ⟨logs, last', hlogs, -, rfl, -, rfl⟩ := Raft.applyEntries_cases happly
  have hcheck := hchecks.pending
  rw [h.index.last_eq] at hcheck
  obtain ⟨-, haligned, hlen⟩ := Raft.foldl_applyPending h.index.aligned h.index.aligned le_rfl hcheck
  rw [hpending] at hcheck hlogs
  obtain ⟨-, hlands⟩ := Raft.foldl_applyPending_lands h.index.aligned le_rfl h.index.aligned
    (fun e he => (hnews e he).1) hsorted hcheck
  rw [hpending, ← hlogs] at haligned hlen
  rw [← hlogs] at hlands
  have hold : s.node.logs <+: disk := hphase.onDisk [] List.nil_prefix
  have hnew : logs <+: disk := by
    refine prefix_of_subset haligned (h.aligned_replayed []) fun e he => ?_
    exact (hlands.only e he).elim (fun he => hold.subset he) fun he => (hnews e he).2
  have hgrow : s.node.logs <+: logs := List.prefix_of_prefix_length_le hold hnew hlen
  refine h.succeeds hk hstate hindex rfl rfl rfl rfl (fun e he => ?_) (fun request logs' _ hbefore _ x
    hx hle => hgrow.subset (hbefore x hx hle)) ⟨fun p hp => ?_, fun d hd hin => ?_⟩
  · exact (hentries e he).elim (fun he => hgrow.subset he) (hlands.new e)
  · have hp' : p <+: s.queued := hp
    rw [queued, hqueue, List.flatMap_nil] at hp'
    obtain rfl := List.prefix_nil.mp hp'
    exact hnew
  · obtain ⟨hd, hin⟩ := mem_of_reply rfl rfl hd hin
    obtain ⟨h1, ⟨e, he, hmem⟩, h3, h4, h5, h6⟩ := hphase.overtaken d hd hin
    exact ⟨h1, ⟨e, he, hgrow.subset hmem⟩, h3, h4, h5, fun e he =>
      (h6 e he).imp_left fun he => hgrow.subset he⟩

/-- A call that is turned away leaves the log alone. -/
lemma Inv.turned_away (h : s.Inv disk) {k : ℕ} {c : AppendCall} {stable : Bool}
    {rep : AppendEntriesReply} (hk : s.calls[k]? = some c) (hstate : c.state = .answered stable)
    (hsettled : s.InTerm c → s.Settled disk) (hindex : s.node.persistState.IndexInv)
    (hfail : rep.success = false) :
    (Acceptor.reply { s with node := s.node.persistState } k c.request rep).Inv disk := by
  have hmoved : Inv (s.setState k (.replied rep)) disk := h.goes_on hk
    (by rw [hstate]; exact fun heq => by cases heq) hsettled (fun hflight => hflight.2)
    fun stable heq => by cases heq
  have hnode := hmoved.node hindex rfl rfl rfl rfl (.inl rfl)
  rw [Acceptor.reply, hfail]
  exact hnode

/-- A call with nothing to write finds its entries. -/
lemma Inv.returns (h : s.Inv disk) {k : ℕ} {c : AppendCall} {stable : Bool} {node : Raft}
    {rep : AppendEntriesReply} (hk : s.calls[k]? = some c) (hstate : c.state = .answered stable)
    (hnil : c.pending = []) (hchecks : s.node.PassesChecks c.request c.pending)
    (hpending : s.node.pendingWrites s.node.getLastLogIndex c.request.entries = .ok [])
    (hindex : node.IndexInv) (happly : s.node.applyEntries c.request c.pending = .ok (node, rep)) :
    (Acceptor.reply { s with node } k c.request rep).Inv disk := by
  have hrequest := h.requests c (List.mem_of_getElem? hk)
  have hentries : ∀ e ∈ c.request.entries, e ∈ s.node.logs := by
    intro e he
    obtain ⟨i, hi⟩ := List.getElem?_of_mem he
    have hindex' := hrequest.entries i e hi
    have hle := hchecks.snapshot_le
    refine mem_logs_of_pendingWrites h.index.aligned hpending he ?_ (by omega)
    rw [List.map_eq_nil_iff.mp (Raft.pendingWrites_newEntries h.index.aligned hpending).symm]
    exact List.not_mem_nil
  obtain ⟨logs, last, hlogs, -, rfl, -, rfl⟩ := Raft.applyEntries_cases happly
  rw [hnil, List.foldl_nil] at hlogs
  subst hlogs
  have hmoved : Inv (s.setState k (.replied ⟨s.node.currentTerm, true, -100⟩)) disk := h.goes_on hk
    (by rw [hstate]; exact fun heq => by cases heq) (fun hinterm => absurd hnil hinterm.1.1)
    (fun hflight => hflight.2) fun stable heq => by cases heq
  exact (hmoved.node hindex rfl rfl rfl rfl (.inl rfl)).acknowledge hrequest hentries

/-- A handler takes the lock again. -/
lemma Inv.resume (h : s.Inv disk) {k : ℕ} {c : AppendCall} {stable : Bool} {node : Raft}
    {rep : AppendEntriesReply} (hk : s.calls[k]? = some c) (hstate : c.state = .answered stable)
    (hcalm : s.Calm (.resume k))
    (hs : s.node.appendEntriesStable c.request c.pending stable = .ok (node, rep)) :
    (Acceptor.reply { s with node } k c.request rep).Inv disk := by
  have hmem := List.mem_of_getElem? hk
  obtain ⟨t, reply', ht, hindex, -⟩ := h.index.appendEntriesStable c.request c.pending stable
  obtain ⟨rfl, rfl⟩ := Prod.mk.inj (Except.ok.inj (hs.symm.trans ht))
  have hcalm := hcalm c hk
  by_cases hwriting : s.InTerm c ∧ ¬ s.Settled disk
  · obtain ⟨hinterm, hnot⟩ := hwriting
    obtain ⟨j, hphase⟩ := h.phase.resolve_left hnot
    have hcalm := hcalm hinterm.2.symm (hphase.active c hmem hinterm).prev
    rw [if_neg hinterm.1.1] at hcalm
    exact h.applied hphase hk hstate hinterm hcalm hs
  · have hsettled : s.InTerm c → s.Settled disk := fun hinterm =>
      not_not.mp fun hnot => hwriting ⟨hinterm, hnot⟩
    obtain ⟨rfl, hfail⟩ | ⟨-, hchecks, happly⟩ := Raft.appendEntriesStable_cases hs
    · exact h.turned_away hk hstate hsettled hindex hfail
    · have hcalm := hcalm hchecks.term_eq hchecks.prev
      by_cases hnil : c.pending = []
      · rw [if_pos hnil] at hcalm
        exact h.returns hk hstate hnil hchecks hcalm hindex happly
      · have hinterm : s.InTerm c := by
          refine ⟨⟨hnil, ?_⟩, hchecks.term_eq.symm⟩
          rw [hstate]
          trivial
        exact h.applied_again (hsettled hinterm) hk hstate hinterm hchecks hindex happly

/-- The first part of a handler. -/
lemma Inv.accepts (h : s.Inv disk) {request : AppendEntriesArgs} {node : Raft} {phase : AppendPhase}
    (hcalm : s.Calm (.appendEntries request)) (hs : s.node.appendEntries request = .ok (node, phase)) :
    Inv { s with node } disk := by
  have hindex := (h.index.appendEntries hs).1
  have hlogs := s.node.acceptTerm_logs request.term
  have hsnap := s.node.acceptTerm_lastSnapshotIndex request.term
  have hsnapTerm := s.node.acceptTerm_lastSnapshotTerm request.term
  have hfmp := s.node.acceptTerm_fmp request.term
  have hterms : (s.node.acceptTerm request.term).currentTerm = s.node.currentTerm ∨
      s.node.currentTerm < (s.node.acceptTerm request.term).currentTerm ∧
        ∀ c ∈ s.calls, c.InFlight → ¬ c.Overwrites := by
    rw [Raft.acceptTerm_currentTerm]
    by_cases hlt : s.node.currentTerm < request.term
    · refine .inr ⟨by omega, fun c hc hflight hover => ?_⟩
      have := hcalm.2 ⟨c, hc, hflight, hover⟩
      omega
    · exact .inl (by omega)
  obtain ⟨-, rfl, -⟩ | ⟨-, rfl, -⟩ | ⟨-, rfl, -⟩ := Raft.appendEntries_cases hs
  · exact h
  · exact h.node hindex hlogs hsnap hsnapTerm hsnap hterms
  · exact h.node hindex hlogs hsnap hsnapTerm (hfmp ▸ h.saved) hterms

/-- A calm step keeps the invariant. -/
theorem Inv.step (h : s.Inv disk) {e : Event} (hcalm : s.Calm e) (hs : s.step e = some t) :
    ∃ disk', t.Inv disk' := by
  cases e with
  | appendEntries request =>
    obtain ⟨⟨node, phase⟩, hnode, rfl⟩ := Option.map_eq_some_iff.mp hs
    have hnext := h.accepts hcalm (toOption_eq_some.mp hnode)
    cases phase with
    | replied rep =>
      refine ⟨disk, ?_⟩
      dsimp only
      split_ifs
      · exact hnext
      · rw [hnext.save]
        exact hnext
    | unlocked pending => exact ⟨disk, hnext.unlocked hcalm.1 rfl⟩
  | push k =>
    obtain ⟨c, hk, hs⟩ := Option.bind_eq_some_iff.mp hs
    split_ifs at hs with hstate hnil
    · obtain rfl := Option.some.inj hs
      rw [not_not] at hstate
      refine ⟨disk, h.goes_on hk ?_ ?_ (fun hflight => hflight.1 hnil) fun stable heq => ?_⟩
      · rw [hstate]
        exact fun heq => by cases heq
      · exact fun hinterm => absurd hnil hinterm.1.1
      · exact (CallState.answered.inj heq).symm
    · rw [not_not] at hstate
      obtain ⟨writer, hwriter, rfl⟩ := Option.map_eq_some_iff.mp hs
      have hlogs : (batchOf k c).logs ≠ [] := fun heq => hnil (List.map_eq_nil_iff.mp heq)
      obtain rfl := Option.some.inj hwriter
      rw [if_neg hlogs]
      exact ⟨disk, h.push hk hstate hnil hcalm⟩
  | round time_due =>
    rw [Acceptor.step] at hs
    split_ifs at hs
    obtain ⟨writer, hwriter, rfl⟩ := Option.map_eq_some_iff.mp hs
    rw [WalWriter.step] at hwriter
    split_ifs at hwriter
    exact ⟨_, h.round hwriter hcalm⟩
  | notify =>
    obtain ⟨a, ha, rfl⟩ := Option.map_eq_some_iff.mp hs
    exact ⟨disk, h.tell ha⟩
  | resume k =>
    obtain ⟨c, hk, hs⟩ := Option.bind_eq_some_iff.mp hs
    cases hstate : c.state with
    | unlocked => simp [hstate] at hs
    | waiting => simp [hstate] at hs
    | replied rep => simp [hstate] at hs
    | answered stable =>
      simp only [hstate] at hs
      obtain ⟨⟨node, rep⟩, hnode, rfl⟩ := Option.map_eq_some_iff.mp hs
      have hnode := toOption_eq_some.mp hnode
      have hnext := h.resume hk hstate hcalm hnode
      refine ⟨disk, ?_⟩
      dsimp only
      rw [hnext.save]
      exact hnext

/-! ### A crash -/

/-- A new process finds what is on disk, and perhaps entries of the queue. -/
lemma Inv.recovered (h : s.Inv disk) {e : Event} (hcalm : s.Calm e) {files : List SegmentFile}
    (hfiles : s.During e files) :
    ∃ p, p <+: s.queued ∧ (s.restart files).logs = s.replayed disk p := by
  obtain ⟨closed, opened, hw, hdisk⟩ := h.holds
  have hidle : files.Perm s.writer.wal.files →
      ∃ p, p <+: s.queued ∧ (s.restart files).logs = s.replayed disk p := by
    intro hperm
    refine ⟨[], List.nil_prefix, ?_⟩
    show ((Wal.create files).readPersistedLogs _).2 = disk
    rw [hw.readPersistedLogs_create hperm, h.saved, hdisk]
  cases e with
  | round time_due =>
    obtain ⟨found, hduring, hperm⟩ := hfiles
    have hgroup : s.writer.group.flatMap (·.logs) <+: s.queued := by
      rw [queued_eq]
      exact List.prefix_append _ _
    have hints : Wal.Ints (s.writer.group.flatMap (·.logs)) := fun e he =>
      h.ints e (hgroup.subset he)
    obtain ⟨p, hp, hread⟩ := hw.readPersistedLogs_during hints hcalm hduring hperm
      s.node.fmp.snapshot_index.toNat
    refine ⟨p, hp.trans hgroup, ?_⟩
    show ((Wal.create files).readPersistedLogs _).2 = _
    rw [hread, h.saved, replayEntries, List.foldl_append, replayed, ← hdisk, replayEntries]
  | appendEntries request => exact hidle hfiles
  | push k => exact hidle hfiles
  | notify => exact hidle hfiles
  | resume k => exact hidle hfiles

/-- As long as every step is calm, a crash leaves every entry of a request that was answered with
success at its index, unless an entry in conflict with it was answered with success later or is being
written by a handler in flight. -/
theorem acks_survive (h : s.Ready) (hrun : Run step Calm s t) {e : Event} (hcalm : t.Calm e)
    {files : List SegmentFile} (hfiles : t.During e files)
    {before after : List (AppendEntriesArgs × List LogEntry)} {request : AppendEntriesArgs}
    {logs : List LogEntry} (hacks : t.acks = before ++ (request, logs) :: after)
    (hlater : ∀ later ∈ after, ∀ x ∈ later.1.entries, ¬ Conflicts request logs x)
    (hflight : ∀ c ∈ t.calls, c.InFlight → ∀ w ∈ c.pending, ¬ Conflicts request logs w.log) :
    ∀ x ∈ request.entries, (t.restart files).logAt x.logindex = .ok x := by
  obtain ⟨disk, hinv⟩ := hrun.invariant (I := fun s => ∃ disk, s.Inv disk)
    (fun _ _ _ ⟨_, hs⟩ hcalm hstep => hs.step hcalm hstep) ⟨_, h.inv⟩
  obtain ⟨p, hp, hlogs⟩ := hinv.recovered hcalm hfiles
  obtain ⟨hacked, hintact⟩ := hinv.acks hacks
  have hintact := hintact hlater
  have hsnap : (t.restart files).lastSnapshotIndex = t.node.lastSnapshotIndex := hinv.saved
  have haligned : Aligned (t.restart files).lastSnapshotIndex (t.restart files).logs := by
    rw [hsnap, hlogs]
    exact hinv.aligned_replayed p
  have hrecovered : Intact request logs (t.replayed disk p) := by
    obtain hphase | ⟨j, hphase⟩ := hinv.phase
    · exact fun x hx hle => (hphase.onDisk p hp).subset (hintact x hx hle)
    · -- a handler may be about to replace a part of the log
      obtain ⟨c, hc, hinterm⟩ := hphase.call
      have hactive := hphase.active c hc hinterm
      have hcut := hacked.take hinv.index.aligned hintact hactive.places.first fun e he => by
        obtain ⟨w, hw, rfl⟩ := List.mem_map.mp he
        exact hflight c hc hinterm.1 w hw
      exact fun x hx hle => (hphase.onDisk p hp).subset (hcut x hx hle)
  intro x hx
  obtain ⟨i, hi⟩ := List.getElem?_of_mem hx
  have hxindex := hacked.wellFormed i x hi
  have hlt := (List.getElem?_eq_some_iff.mp hi).1
  refine Raft.logAt_of_mem haligned ?_
  rw [hlogs]
  exact hrecovered x (hacked.entries x hx) (by omega)

/-! ### Two handlers at once -/

instance (snap : ℤ) (logs : List LogEntry) : Decidable (Aligned snap logs) :=
  decidable_of_iff (∀ k < logs.length, (logs[k]?.map (·.logindex)) = some (snap + 1 + k))
    ⟨Follower.aligned_of_map, fun h k hk => by
      rw [List.getElem?_eq_getElem hk, Option.map_some, h k _ (List.getElem?_eq_getElem hk)]⟩

instance (request : AppendEntriesArgs) : Decidable (Follower.WellFormed request) :=
  decidable_of_iff (Aligned request.prevlogindex request.entries ∧ Wal.Ints request.entries)
    ⟨fun h => ⟨h.1, h.2⟩, fun h => ⟨h.entries, h.ints⟩⟩

instance (s : Raft) (c : AppendCall) : Decidable (Current s c) := by
  unfold Current
  infer_instance

instance (s : Acceptor) (e : Event) : Decidable (s.Calm e) := by
  unfold Calm
  split <;> infer_instance

/-- Node 1 of three over an empty directory. -/
def fresh : Acceptor where
  node := Raft.init 1 3 {} [] []
  calls := []
  writer :=
    { wal := .create [], offset := 0, queue := [], waiters := [], callbacks := [], pending_count := 0
      pending_bytes := 0, running := true, snapshot := 0, taken := [], answers := [] }
  reported := 0
  acks := []

/-- A fresh follower is ready. -/
lemma ready_fresh : fresh.Ready where
  index := Raft.indexInv_init 1 3
  snapshot_nonneg := Int.le_refl _
  saved := rfl
  compacted := Int.le_refl _
  holds := ⟨[], [], Wal.Holds.create_nil, rfl⟩
  calls := rfl
  queue := rfl
  collected := rfl
  answers := rfl
  reported := rfl
  acks := rfl

/-- The first entries of a leader. -/
def beginning (term : ℕ) (entries : List LogEntry) : AppendEntriesArgs where
  term := term
  leaderid := 0
  prevlogindex := 0
  prevlogterm := 0
  entries := entries
  leadercommit := 0

/-- The first entry of a new leader. -/
def next (term : ℕ) (e : LogEntry) : AppendEntriesArgs where
  term := term
  leaderid := 2
  prevlogindex := 2
  prevlogterm := 1
  entries := [e]
  leadercommit := 0

/-- A request is sent again with one more entry while the first is on its way. The second call makes its
writes, the first one is turned away, and a new leader adds an entry. -/
theorem acks_survive_twice :
    ∃ t : Acceptor, t.acks.map (·.1) =
        [beginning 1 [⟨[1], 1, 1⟩, ⟨[2], 1, 2⟩], next 2 ⟨[3], 2, 3⟩] ∧
      (t.restart t.writer.wal.files).logAt 1 = .ok ⟨[1], 1, 1⟩ ∧
      (t.restart t.writer.wal.files).logAt 2 = .ok ⟨[2], 1, 2⟩ := by
  have hruns : ∃ t ∈ runIf step Calm fresh
      [.appendEntries (beginning 1 [⟨[1], 1, 1⟩]),
        .appendEntries (beginning 1 [⟨[1], 1, 1⟩, ⟨[2], 1, 2⟩]), .push 0, .push 1, .round true, .notify,
        .notify, .resume 1, .resume 0, .appendEntries (next 2 ⟨[3], 2, 3⟩), .push 2, .round true,
        .notify, .resume 2],
      t.acks = [] ++ (beginning 1 [⟨[1], 1, 1⟩, ⟨[2], 1, 2⟩], [⟨[1], 1, 1⟩, ⟨[2], 1, 2⟩]) ::
          [(next 2 ⟨[3], 2, 3⟩, [⟨[1], 1, 1⟩, ⟨[2], 1, 2⟩, ⟨[3], 2, 3⟩])] ∧
        ∀ c ∈ t.calls, ¬ c.InFlight := by decide
  obtain ⟨t, hrun, hacks, hflight⟩ := exists_run_of_runIf hruns
  have hcalm : t.Calm .notify := trivial
  have hidle : t.During .notify t.writer.wal.files := List.Perm.refl _
  have hsurvive := acks_survive ready_fresh hrun hcalm hidle hacks (by decide)
    fun c hc hinflight => absurd hinflight (hflight c hc)
  exact ⟨t, by rw [hacks]; rfl, hsurvive _ List.mem_cons_self,
    hsurvive _ (List.mem_cons_of_mem _ List.mem_cons_self)⟩

/-- The call with two entries overtakes the one with the first of them only, and is answered with
success. The writes of the other call are then behind its own on disk, and a new process finds one
entry. -/
theorem exists_ack_lost :
    ∃ t : Acceptor, Run step (fun _ _ => True) fresh t ∧ ∃ request logs,
      t.acks = [(request, logs)] ∧
      (∀ c ∈ t.calls, ∀ x ∈ c.request.entries, ¬ Conflicts request logs x) ∧
      ∃ x ∈ request.entries, (t.restart t.writer.wal.files).logAt x.logindex ≠ .ok x := by
  have hruns : ∃ t ∈ runIf step (fun _ _ => True) fresh
      [.appendEntries (beginning 1 [⟨[1], 1, 1⟩]),
        .appendEntries (beginning 1 [⟨[1], 1, 1⟩, ⟨[2], 1, 2⟩]), .push 1, .round true, .notify,
        .resume 1, .push 0, .round true],
      t.acks = [(beginning 1 [⟨[1], 1, 1⟩, ⟨[2], 1, 2⟩], [⟨[1], 1, 1⟩, ⟨[2], 1, 2⟩])] ∧
      (∀ c ∈ t.calls, ∀ x ∈ c.request.entries, ¬ Conflicts
        (beginning 1 [⟨[1], 1, 1⟩, ⟨[2], 1, 2⟩]) [⟨[1], 1, 1⟩, ⟨[2], 1, 2⟩] x) ∧
      (t.restart t.writer.wal.files).logAt 2 ≠ .ok ⟨[2], 1, 2⟩ := by decide
  obtain ⟨t, hrun, hacks, hconflicts, hlost⟩ := exists_run_of_runIf hruns
  exact ⟨t, hrun, _, _, hacks, hconflicts, ⟨[2], 1, 2⟩, List.mem_cons_of_mem _ List.mem_cons_self, hlost⟩

end Acceptor

end KVCacheRaft
