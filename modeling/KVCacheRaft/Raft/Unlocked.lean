import KVCacheRaft.Raft.NewEntries

/-!
# What a success reply says

`AppendEntries` decides under the lock which entries of a request are missing, releases the lock, and
checks when it has it again that the writes it decided on still apply. It does not look again at the
entries that the log had before: a success says that they are there only if nothing took them away
while the lock was released.
-/

namespace KVCacheRaft

namespace Raft

variable {s s' t u : Raft} {entries news logs : List LogEntry} {request : AppendEntriesArgs}

/-- Every entry of the second list is somewhere in the first one, and an entry of the log whose place
they leave alone is there too; nothing else is. -/
structure Lands (logs news logs' : List LogEntry) : Prop where
  new : ∀ e ∈ news, e ∈ logs'
  old : ∀ x ∈ logs, (∀ e ∈ news, e.logindex ≠ x.logindex) → x ∈ logs'
  only : ∀ x ∈ logs', x ∈ logs ∨ x ∈ news

/-- One write that passes its check puts its entry at its place. -/
lemma applyPending_lands (halign : Aligned t.lastSnapshotIndex logs)
    (hlen : t.logs.length ≤ logs.length) (ht : Aligned t.lastSnapshotIndex t.logs)
    {snap last : ℤ} {e : LogEntry} {rest : List PendingLogWrite} (habove : t.lastSnapshotIndex < e.logindex)
    (hcheck : t.checkPending (t.lastSnapshotIndex + logs.length) (writeOf snap last e :: rest) = none) :
    ∃ logs', t.applyPending logs (writeOf snap last e) = logs' ∧
      Aligned t.lastSnapshotIndex logs' ∧ t.logs.length ≤ logs'.length ∧
      t.checkPending (t.lastSnapshotIndex + logs'.length) rest = none ∧ Lands logs [e] logs' := by
  rw [checkPending, writeOf_log, if_neg (Int.not_le.mpr habove)] at hcheck
  rw [applyPending, writeOf_log, if_neg (Int.not_le.mpr habove)]
  by_cases hbehind : e.logindex > last
  · -- behind the log
    have hwrite : writeOf snap last e = ⟨-1, true, e⟩ := if_pos hbehind
    rw [hwrite] at hcheck ⊢
    simp only [if_true] at hcheck ⊢
    split_ifs at hcheck with hnext
    rw [not_not] at hnext
    have hlength : (logs ++ [e]).length = logs.length + 1 := List.length_append
    refine ⟨logs ++ [e], rfl, halign.concat (by omega), by omega, ?_, ?_, ?_, ?_⟩
    · rw [hlength]
      push_cast
      rw [hnext] at hcheck
      rw [← Int.add_assoc]
      exact hcheck
    · exact fun x hx => List.mem_append_right _ hx
    · exact fun x hx _ => List.mem_append_left _ hx
    · exact fun x hx => List.mem_append.mp hx
  · -- at a place that still has its index
    have hwrite : writeOf snap last e = ⟨e.logindex - snap - 1, false, e⟩ := if_neg hbehind
    rw [hwrite] at hcheck ⊢
    simp only [Bool.false_eq_true, if_false] at hcheck ⊢
    split_ifs at hcheck with hrange hplace
    rw [not_or] at hrange
    rw [not_not] at hplace
    obtain ⟨old, hold, hindex⟩ := Option.map_eq_some_iff.mp hplace
    have holdindex := ht _ old hold
    have hk : (e.logindex - snap - 1).toNat < logs.length := by omega
    obtain ⟨k, hkeq⟩ : ∃ k, k = (e.logindex - snap - 1).toNat := ⟨_, rfl⟩
    rw [← hkeq] at hk holdindex ⊢
    have hget := halign k logs[k] (List.getElem?_eq_getElem hk)
    refine ⟨logs.set k e, rfl, halign.set (List.getElem?_eq_getElem hk) (by omega),
      by rw [List.length_set]; exact hlen, by rw [List.length_set]; exact hcheck, ?_, ?_, ?_⟩
    · intro x hx
      obtain rfl := List.mem_singleton.mp hx
      exact List.mem_set hk _
    · intro x hx hne
      obtain ⟨i, hi⟩ := List.getElem?_of_mem hx
      have hxi := halign i x hi
      have hik : k ≠ i := by
        rintro rfl
        exact hne e (List.mem_singleton_self e) (by omega)
      refine List.mem_of_getElem? (i := i) ?_
      rw [List.getElem?_set_ne hik]
      exact hi
    · exact fun x hx => (List.mem_or_eq_of_mem_set hx).imp_right List.mem_singleton.mpr

/-- The writes that pass their checks put their entries at their places. -/
lemma foldl_applyPending_lands (halign : Aligned t.lastSnapshotIndex logs)
    (hlen : t.logs.length ≤ logs.length) (ht : Aligned t.lastSnapshotIndex t.logs) {snap last : ℤ}
    (habove : ∀ e ∈ news, t.lastSnapshotIndex < e.logindex)
    (hsorted : news.Pairwise fun e e' => e.logindex < e'.logindex)
    (hcheck : t.checkPending (t.lastSnapshotIndex + logs.length) (news.map (writeOf snap last)) = none) :
    Aligned t.lastSnapshotIndex ((news.map (writeOf snap last)).foldl t.applyPending logs) ∧
      Lands logs news ((news.map (writeOf snap last)).foldl t.applyPending logs) := by
  induction news generalizing logs with
  | nil => exact ⟨halign, (fun _ he => by cases he), fun _ hx _ => hx, fun _ hx => .inl hx⟩
  | cons e news ih =>
    obtain ⟨hfirst, hrest⟩ := List.pairwise_cons.mp hsorted
    obtain ⟨logs', happly, halign', hlen', hcheck', hone⟩ :=
      applyPending_lands halign hlen ht (habove e List.mem_cons_self) hcheck
    obtain ⟨halign'', hall⟩ :=
      ih halign' hlen' (fun x hx => habove x (List.mem_cons_of_mem _ hx)) hrest hcheck'
    rw [List.map_cons, List.foldl_cons, happly]
    refine ⟨halign'', fun x hx => ?_, fun x hx hne => ?_, fun x hx => ?_⟩
    · obtain rfl | hx := List.mem_cons.mp hx
      · refine hall.old x (hone.new x (List.mem_singleton_self x)) fun e' he' => ?_
        exact Int.ne_of_gt (hfirst e' he')
      · exact hall.new x hx
    · refine hall.old x (hone.old x hx fun e' he' => ?_) fun e' he' =>
        hne e' (List.mem_cons_of_mem _ he')
      exact hne e' (List.mem_cons.mpr (.inl (List.mem_singleton.mp he')))
    · obtain hx | hx := hall.only x hx
      · exact (hone.only x hx).imp_right fun hx => List.mem_cons.mpr (.inl (List.mem_singleton.mp hx))
      · exact .inr (List.mem_cons_of_mem _ hx)

/-- An entry of the log is found by its index. -/
lemma mem_logs_iff (h : Aligned s.lastSnapshotIndex s.logs) {e : LogEntry} :
    s.logAt e.logindex = .ok e ↔ e ∈ s.logs :=
  ⟨fun hget => List.mem_of_getElem? (vecGet_eq_ok.mp hget).2, logAt_of_mem h⟩

/-- A term is that of the snapshot or of an entry. -/
lemma termAt_eq_ok {index : ℤ} {term : ℕ} :
    s.termAt index = .ok term ↔ index = s.lastSnapshotIndex ∧ s.lastSnapshotTerm = term ∨
      index ≠ s.lastSnapshotIndex ∧ ∃ e, s.logAt index = .ok e ∧ e.logterm = term := by
  rw [termAt]
  by_cases heq : index = s.lastSnapshotIndex
  · simp [heq]
  · cases hget : s.logAt index with
    | error fault => simp [heq, Except.map]
    | ok e => simp [heq, Except.map]

/-- What a success reply has to say: the log agrees with the request at `prevlogindex`, and has its
entries above the snapshot. -/
structure Agrees (s : Raft) (request : AppendEntriesArgs) : Prop where
  prev : s.termAt request.prevlogindex = .ok request.prevlogterm
  entries : ∀ e ∈ request.entries, s.lastSnapshotIndex < e.logindex → s.logAt e.logindex = .ok e

/-- The log still has the entries of the request that it had when the lock was released: those that
were not to be written. -/
def StillHas (s t : Raft) (request : AppendEntriesArgs) : Prop :=
  ∀ e ∈ request.entries, e ∉ s.newEntries request.entries → t.lastSnapshotIndex < e.logindex →
    t.logAt e.logindex = .ok e

/-- The handler ends with success: `s` is the node when the lock is released, `t` when it is taken
again. -/
lemma appendEntriesStable_agrees_iff (hs : s.IndexInv) (ht : t.IndexInv)
    (hentries : Aligned request.prevlogindex request.entries) {pending : List PendingLogWrite}
    (hpending : s.pendingWrites s.getLastLogIndex request.entries = .ok pending) {stable : Bool}
    {reply : AppendEntriesReply}
    (hu : t.appendEntriesStable request pending stable = .ok (u, reply))
    (hsuccess : reply.success = true) : u.Agrees request ↔ s.StillHas t request := by
  obtain ⟨-, hfail⟩ | ⟨-, ⟨-, hsnap, -, hprev, hcheck⟩, happly⟩ := appendEntriesStable_cases hu
  · rw [hsuccess] at hfail
    cases hfail
  obtain ⟨logs, last, hlogs, -, rfl, -, -⟩ := applyEntries_cases happly
  have hnews := pendingWrites_newEntries hs.aligned hpending
  obtain ⟨news, hnewseq⟩ : ∃ news, news = s.newEntries request.entries := ⟨_, rfl⟩
  have hsub : ∀ e ∈ news, e ∈ request.entries := fun e he =>
    (List.mem_filter.mp (hnewseq ▸ he)).1
  have habove : ∀ e ∈ request.entries, t.lastSnapshotIndex < e.logindex := by
    intro e he
    obtain ⟨k, hk⟩ := List.getElem?_of_mem he
    have := hentries k e hk
    omega
  have hsorted : news.Pairwise fun e e' => e.logindex < e'.logindex := by
    rw [hnewseq]
    exact hentries.sorted.sublist List.filter_sublist
  rw [← hnewseq] at hnews
  rw [ht.last_eq, hnews] at hcheck
  obtain ⟨halign, hlands⟩ := foldl_applyPending_lands ht.aligned (Nat.le_refl _) ht.aligned
    (fun e he => habove e (hsub e he)) hsorted hcheck
  rw [← hnews, ← hlogs] at halign hlands
  constructor
  · intro h e he hnew hsnap'
    have hmem := (mem_logs_iff halign).mp (h.entries e he hsnap')
    refine (mem_logs_iff ht.aligned).mpr ((hlands.only e hmem).resolve_right ?_)
    exact hnewseq ▸ hnew
  · intro h
    refine ⟨?_, fun e he hsnap' => (mem_logs_iff halign).mpr ?_⟩
    · -- no write is at the place before the entries
      refine termAt_eq_ok.mpr ((termAt_eq_ok.mp hprev).imp_right fun ⟨hne, x, hx, hterm⟩ => ?_)
      obtain ⟨hpos, hget⟩ := vecGet_eq_ok.mp hx
      have hindex := ht.aligned _ x hget
      have hxprev : x.logindex = request.prevlogindex := by omega
      have hmem : x ∈ logs := by
        refine hlands.old x (List.mem_of_getElem? hget) fun e he => ?_
        obtain ⟨k, hk⟩ := List.getElem?_of_mem (hsub e he)
        have := hentries k e hk
        omega
      refine ⟨hne, x, ?_, hterm⟩
      rw [← hxprev]
      exact logAt_of_mem halign hmem
    · by_cases hnew : e ∈ news
      · exact hlands.new e hnew
      · have hold := (mem_logs_iff ht.aligned).mp (h e he (hnewseq ▸ hnew) hsnap')
        refine hlands.old e hold fun e' he' heq => hnew ?_
        rw [eq_of_aligned hentries he (hsub e' he') heq.symm]
        exact he'

/-- Whatever the node does while the lock is released, a handler that ends with success leaves a log
that agrees with the request just when the entries that were there before are still there. -/
theorem agrees_iff_stillHas (hinv : s.IndexInv)
    (hentries : Aligned request.prevlogindex request.entries) {pending : List PendingLogWrite}
    (hfirst : s.appendEntries request = .ok (s', .unlocked pending)) (hgap : s'.Acts t)
    {stable : Bool} {reply : AppendEntriesReply}
    (hsecond : t.appendEntriesStable request pending stable = .ok (u, reply))
    (hsuccess : reply.success = true) : u.Agrees request ↔ s'.StillHas t request := by
  have hinv' := (hinv.appendEntries hfirst).1
  have ht := (hgap.indexInv hinv').1
  obtain ⟨-, -, hphase⟩ | ⟨-, -, hint, hphase⟩ | ⟨-, -, -, -, writes, hwrites, hphase⟩ :=
    appendEntries_cases hfirst
  · cases hphase
  · cases hphase
  · obtain rfl := AppendPhase.unlocked.inj hphase
    exact appendEntriesStable_agrees_iff hinv' ht hentries hwrites hsecond hsuccess

/-- A follower with one entry, which it may have written as a leader. -/
def oneEntry : Raft := Raft.init 0 3 { term := 1 } [] [⟨[1], 1, 1⟩]

/-- The indices of the example are in order. -/
lemma indexInv_oneEntry : oneEntry.IndexInv := by
  refine .of_length ?_ (Int.le_refl _) (Int.le_refl _) (by decide)
  intro k e hk
  obtain ⟨hlt, rfl⟩ := List.getElem?_eq_some_iff.mp hk
  obtain rfl : k = 0 := Nat.lt_one_iff.mp hlt
  rfl

/-- The request with that entry and one more. -/
def twoEntries : AppendEntriesArgs := ⟨1, 1, 0, 0, [⟨[1], 1, 1⟩, ⟨[2], 1, 2⟩], 0⟩

/-- The entries of the request are in order. -/
lemma aligned_twoEntries : Aligned twoEntries.prevlogindex twoEntries.entries :=
  (Aligned.nil.concat (e := ⟨[1], 1, 1⟩) rfl).concat (e := ⟨[2], 1, 2⟩) rfl

/-- A request without entries that commits the first one. -/
def heartbeat : AppendEntriesArgs := ⟨1, 1, 1, 1, [], 1⟩

/-- While the lock is released, the handler of a heartbeat commits the first entry, and the applier takes
it. -/
theorem agrees_iff_stillHas_twoEntries :
    ∃ t u, (oneEntry.acceptTerm 1).Acts t ∧ t.lastApplied = 1 ∧
      t.appendEntriesStable twoEntries [⟨-1, true, ⟨[2], 1, 2⟩⟩] true = .ok (u, ⟨1, true, -100⟩) ∧
        (u.Agrees twoEntries ↔ (oneEntry.acceptTerm 1).StillHas t twoEntries) := by
  obtain ⟨t, hgap, happlied, u, hu⟩ : ∃ t, (oneEntry.acceptTerm 1).Acts t ∧ t.lastApplied = 1 ∧
      ∃ u, t.appendEntriesStable twoEntries [⟨-1, true, ⟨[2], 1, 2⟩⟩] true =
        .ok (u, ⟨1, true, -100⟩) := by
    refine ⟨_, .step (a := .applierTicker) (.step (a := .appendEntriesStable heartbeat [] true)
      (.step (a := .appendEntries heartbeat) .refl rfl) rfl) rfl, rfl, _, rfl⟩
  exact ⟨t, u, hgap, happlied, hu,
    agrees_iff_stillHas indexInv_oneEntry aligned_twoEntries rfl hgap hu rfl⟩

/-- The write of the entry fails while the lock is released: the entry is taken off the log, and the
handler, which had nothing to write, replies success. -/
theorem exists_success_without_entry :
    ∃ (s s' t u : Raft) (request : AppendEntriesArgs) (reply : AppendEntriesReply),
      s.IndexInv ∧ Aligned request.prevlogindex request.entries ∧
        s.appendEntries request = .ok (s', .unlocked []) ∧ s'.act (.onLogStable false 1) = .ok t ∧
        t.appendEntriesStable request [] true = .ok (u, reply) ∧ reply.success = true ∧
        ¬ u.Agrees request := by
  refine ⟨oneEntry, oneEntry.acceptTerm 1, (oneEntry.acceptTerm 1).onLogStable false 1, _,
    ⟨1, 1, 0, 0, [⟨[1], 1, 1⟩], 0⟩, _, indexInv_oneEntry,
    Aligned.nil.concat (e := ⟨[1], 1, 1⟩) rfl, rfl, rfl, rfl, rfl, fun h => ?_⟩
  cases h.entries ⟨[1], 1, 1⟩ List.mem_cons_self (by decide)

end Raft

end KVCacheRaft
