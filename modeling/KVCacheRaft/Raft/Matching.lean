import KVCacheRaft.Raft.Unlocked

/-!
# A follower whose log matches that of the leader

Two logs match when entries of one index and term are the same entry, and so are the entries in front
of them. To such a follower a request that carries a part of the leader's log is simple: what it does
to `m_logs` can be said entry by entry.
-/

namespace KVCacheRaft

open Consensus

/-- Entries with their indices are aligned to the start. -/
lemma Indexed.aligned {l : List LogEntry} (h : Indexed l) : Aligned 0 l := by
  intro k e hk
  obtain ⟨hlt, rfl⟩ := List.getElem?_eq_some_iff.mp hk
  have hprefix : l.take k ++ [l[k]] <+: l := by
    rw [List.take_append_getElem]
    exact List.take_prefix _ _
  have := h hprefix
  rw [List.length_take] at this
  omega

/-- Entries at their places are determined by which entries there are. -/
lemma Aligned.ext {snap : ℤ} {l l' : List LogEntry} (h : Aligned snap l) (h' : Aligned snap l')
    (hmem : ∀ x, x ∈ l ↔ x ∈ l') : l = l' := by
  have hhalf : ∀ {l l' : List LogEntry}, Aligned snap l → Aligned snap l' → l ⊆ l' →
      ∀ (k : ℕ) (e : LogEntry), l[k]? = some e → l'[k]? = some e := by
    intro l l' h h' hsub k e hk
    obtain ⟨i, hi⟩ := List.getElem?_of_mem (hsub (List.mem_of_getElem? hk))
    have hek := h k e hk
    have hei := h' i e hi
    obtain rfl : i = k := by omega
    exact hi
  refine List.ext_getElem? fun k => Option.ext fun e => ?_
  exact ⟨hhalf h h' (fun x hx => (hmem x).mp hx) k e, hhalf h' h (fun x hx => (hmem x).mpr hx) k e⟩

/-- A request with a part of the log `L`, whose entries are those above the index `base`. -/
structure Sent (base : ℤ) (L : List LogEntry) (m : AppendEntriesArgs) : Prop where
  base_le : base ≤ m.prevlogindex
  prev : m.prevlogindex = base ∨ ∃ x ∈ L, x.logindex = m.prevlogindex ∧ x.logterm = m.prevlogterm
  entries : m.entries <+: L.drop (m.prevlogindex - base).toNat

namespace Sent

variable {base : ℤ} {L : List LogEntry} {m : AppendEntriesArgs}

/-- What was sent of a log is sent of a longer one. -/
lemma mono {L' : List LogEntry} (h : Sent base L m) (hL : L <+: L') : Sent base L' m where
  base_le := h.base_le
  prev := h.prev.imp_right fun ⟨x, hx, heq⟩ => ⟨x, hL.subset hx, heq⟩
  entries := h.entries.trans (hL.drop _)

/-- The entries of a request follow its previous index. -/
lemma aligned (h : Sent base L m) (hL : Aligned base L) : Aligned m.prevlogindex m.entries := by
  have hle := h.base_le
  have hdrop := (hL.drop (m.prevlogindex - base).toNat).take m.entries.length
  have hprev : base + ((m.prevlogindex - base).toNat : ℤ) = m.prevlogindex := by omega
  rwa [← List.prefix_iff_eq_take.mp h.entries, hprev]
    at hdrop

/-- The entries of a request are in the log. -/
lemma mem_of_entries (h : Sent base L m) {e : LogEntry} (he : e ∈ m.entries) : e ∈ L :=
  List.mem_of_mem_drop (h.entries.subset he)

/-- An entry of the request is in its range. -/
lemma index_of_mem (h : Sent base L m) (hL : Aligned base L) {e : LogEntry} (he : e ∈ m.entries) :
    m.prevlogindex < e.logindex ∧ e.logindex ≤ m.prevlogindex + m.entries.length := by
  obtain ⟨k, hk⟩ := List.getElem?_of_mem he
  have hindex := h.aligned hL k e hk
  have hlt := (List.getElem?_eq_some_iff.mp hk).1
  omega

/-- It has all entries of its part. -/
lemma mem_entries (h : Sent base L m) (hL : Aligned base L) {e : LogEntry} (he : e ∈ L)
    (hlt : m.prevlogindex < e.logindex) (hle : e.logindex ≤ m.prevlogindex + m.entries.length) :
    e ∈ m.entries := by
  obtain ⟨k, hk⟩ : ∃ k : ℕ, e.logindex = m.prevlogindex + 1 + k :=
    ⟨(e.logindex - m.prevlogindex - 1).toNat, by omega⟩
  have hget := List.getElem?_eq_getElem (show k < m.entries.length by omega)
  have hindex := h.aligned hL k _ hget
  have hmem := List.mem_of_getElem? hget
  rw [Raft.eq_of_aligned hL he (h.mem_of_entries hmem) (hk.trans hindex.symm)]
  exact hmem

end Sent

namespace Raft

variable {s t u : Raft} {base : ℤ} {L : List LogEntry} {m : AppendEntriesArgs}
  {reply : AppendEntriesReply}

/-- Log matching, for the log in memory and a log whose entries are those above the index `base`. -/
def MatchesLog (s : Raft) (base : ℤ) (L : List LogEntry) : Prop :=
  ∀ e ∈ s.logs, ∀ x ∈ L, e.logindex = x.logindex → e.logterm = x.logterm →
    e = x ∧ ∀ e' ∈ s.logs, base < e'.logindex → e'.logindex ≤ e.logindex → e' ∈ L

/-- Matching depends on the entries only. -/
lemma MatchesLog.congr (h : s.MatchesLog base L) (hlogs : t.logs = s.logs) : t.MatchesLog base L := by
  rw [MatchesLog, hlogs]
  exact h

/-- Up to a previous index that it agrees at, the follower has the leader's entries. -/
lemma MatchesLog.mem_of_prev (h : s.MatchesLog base L) (hinv : s.IndexInv) (hm : Sent base L m)
    (hprev : s.termAt m.prevlogindex = .ok m.prevlogterm) {e : LogEntry} (he : e ∈ s.logs)
    (habove : base < e.logindex) (hle : e.logindex ≤ m.prevlogindex) : e ∈ L := by
  obtain ⟨i, hi⟩ := List.getElem?_of_mem he
  have hei := hinv.aligned i e hi
  obtain ⟨heq, -⟩ | ⟨-, x, hx, hterm⟩ := termAt_eq_ok.mp hprev
  · omega
  · obtain ⟨hpos, hget⟩ := vecGet_eq_ok.mp hx
    have hindex := hinv.aligned _ x hget
    obtain heq | ⟨y, hy, hyindex, hyterm⟩ := hm.prev
    · omega
    · exact (h x (List.mem_of_getElem? hget) y hy (by omega) (hterm.trans hyterm.symm)).2 e he
        habove (by omega)

/-- Above its snapshot and up to its last index, the follower has an entry at every index. -/
lemma IndexInv.exists_mem (hinv : s.IndexInv) {index : ℤ} (hlt : s.lastSnapshotIndex < index)
    (hle : index ≤ s.getLastLogIndex) : ∃ e ∈ s.logs, e.logindex = index := by
  obtain ⟨e, he, hindex⟩ := logAt_of_aligned hinv.aligned index hlt hle
  exact ⟨e, List.mem_of_getElem? (vecGet_eq_ok.mp he).2, hindex⟩

/-- The entries of a log are between its snapshot and its last index. -/
lemma IndexInv.mem_le_last (hinv : s.IndexInv) {e : LogEntry} (he : e ∈ s.logs) :
    s.lastSnapshotIndex < e.logindex ∧ e.logindex ≤ s.getLastLogIndex := by
  obtain ⟨i, hi⟩ := List.getElem?_of_mem he
  have hei := hinv.aligned i e hi
  have hlt := (List.getElem?_eq_some_iff.mp hi).1
  have hlast := hinv.last_eq
  omega

/-- What a request does that ends with success. -/
structure Handled (s u : Raft) (m : AppendEntriesArgs) : Prop where
  index : u.IndexInv
  snapshot_le : s.lastSnapshotIndex ≤ m.prevlogindex
  prev : s.termAt m.prevlogindex = .ok m.prevlogterm
  logs : ∀ x, x ∈ u.logs ↔
    x ∈ m.entries ∨ x ∈ s.logs ∧
      (x.logindex ≤ m.prevlogindex ∨ m.prevlogindex + m.entries.length < x.logindex)
  snapshotIndex : u.lastSnapshotIndex = s.lastSnapshotIndex
  snapshotTerm : u.lastSnapshotTerm = s.lastSnapshotTerm
  stable : u.stableLogIndex = max s.stableLogIndex u.getLastLogIndex
  commit : u.commitIndex =
    if m.leadercommit > s.commitIndex then min m.leadercommit u.getLastLogIndex else s.commitIndex
  term : s.currentTerm ≤ m.term ∧ u.currentTerm = m.term
  stored : u.fmp.snapshot_index = s.lastSnapshotIndex

/-- Accepting a term leaves the log and the indices. -/
structure Accepted (s t : Raft) (term : ℕ) : Prop where
  logs : t.logs = s.logs
  snapshotIndex : t.lastSnapshotIndex = s.lastSnapshotIndex
  snapshotTerm : t.lastSnapshotTerm = s.lastSnapshotTerm
  stable : t.stableLogIndex = s.stableLogIndex
  commit : t.commitIndex = s.commitIndex
  applied : t.lastApplied = s.lastApplied
  term : t.currentTerm = term

/-- Accepting a term is accepting it as a follower. -/
lemma accepted_acceptTerm (s : Raft) {term : ℕ} (hterm : s.currentTerm ≤ term) :
    s.Accepted (s.acceptTerm term) term := by
  rw [acceptTerm_eq]
  exact ⟨rfl, rfl, rfl, rfl, rfl, rfl, Nat.max_eq_right hterm⟩

/-- Accepting a term leaves the terms of the entries. -/
lemma Accepted.termAt {term : ℕ} (h : s.Accepted t term) (index : ℤ) :
    t.termAt index = s.termAt index := by
  rw [Raft.termAt, Raft.termAt, Raft.logAt, Raft.logAt, h.logs, h.snapshotIndex, h.snapshotTerm]

/-- An entry of the request that is not written is in the log. -/
lemma mem_logs_of_not_new (hinv : s.IndexInv) (hmatch : s.MatchesLog base L) (hm : Sent base L m)
    {e : LogEntry} (he : e ∈ m.entries) (habove : s.lastSnapshotIndex < e.logindex)
    (hnew : e ∉ s.newEntries m.entries) :
    e ∈ s.logs := by
  have hold : ¬ (s.lastSnapshotIndex < e.logindex ∧
      (s.getLastLogIndex < e.logindex ∨ s.Overwrites e)) := fun h =>
    hnew (List.mem_filter.mpr ⟨he, decide_eq_true h⟩)
  rw [not_and, not_or] at hold
  obtain ⟨hbehind, hover⟩ := hold habove
  obtain ⟨x, hx, hindex⟩ := hinv.exists_mem habove (Int.not_lt.mp hbehind)
  have hterm : x.logterm = e.logterm := by
    by_contra hne
    exact hover ⟨x, hx, hindex, hne⟩
  rw [← (hmatch x hx e (hm.mem_of_entries he) hindex hterm).1]
  exact hx

/-- A handler that replies success has handled the request. -/
lemma handled_of_success (hinv : s.IndexInv) (hmatch : s.MatchesLog base L) (hL : Aligned base L)
    (hm : Sent base L m) {pending : List PendingLogWrite}
    (hfirst : s.appendEntries m = .ok (t, .unlocked pending)) {stable : Bool}
    (hsecond : t.appendEntriesStable m pending stable = .ok (u, reply))
    (hsuccess : reply.success = true) : s.Handled u m := by
  have hentries := hm.aligned hL
  have ht := (hinv.appendEntries hfirst).1
  obtain ⟨u', reply', hu, hinvu, -⟩ := ht.appendEntriesStable m pending stable
  obtain ⟨rfl, rfl⟩ := Prod.mk.inj (Except.ok.inj (hsecond.symm.trans hu))
  obtain ⟨-, -, hphase⟩ | ⟨-, -, hint, hphase⟩ | ⟨hterm, rfl, -, -, writes, hwrites, hphase⟩ :=
    appendEntries_cases hfirst
  · cases hphase
  · cases hphase
  obtain rfl := AppendPhase.unlocked.inj hphase
  obtain ⟨-, hfail⟩ | ⟨-, ⟨hterm', hsnap, -, hprev, hcheck⟩, happly⟩ :=
    appendEntriesStable_cases hsecond
  · rw [hsuccess] at hfail
    cases hfail
  obtain ⟨logs, last, hlogs, hlast, rfl, -, -⟩ := applyEntries_cases happly
  have haccepted := s.accepted_acceptTerm hterm
  obtain ⟨t, ht'⟩ : ∃ t, t = s.acceptTerm m.term := ⟨_, rfl⟩
  rw [← ht'] at ht hwrites hsnap hprev hcheck hlogs hlast hinvu haccepted ⊢
  have hmatch' : t.MatchesLog base L := hmatch.congr haccepted.logs
  have hplace : ∀ e ∈ m.entries,
      m.prevlogindex < e.logindex ∧ e.logindex ≤ m.prevlogindex + m.entries.length := fun e he =>
    hm.index_of_mem hL he
  have hnews := pendingWrites_newEntries ht.aligned hwrites
  obtain ⟨news, hnewseq⟩ : ∃ news, news = t.newEntries m.entries := ⟨_, rfl⟩
  have hsub : ∀ e ∈ news, e ∈ m.entries := fun e he => (List.mem_filter.mp (hnewseq ▸ he)).1
  have hsorted : news.Pairwise fun e e' => e.logindex < e'.logindex := by
    rw [hnewseq]
    exact hentries.sorted.sublist List.filter_sublist
  rw [← hnewseq] at hnews
  rw [ht.last_eq, hnews] at hcheck
  obtain ⟨halign, hlands⟩ := foldl_applyPending_lands ht.aligned (Nat.le_refl _) ht.aligned
    (fun e he => Int.lt_of_le_of_lt hsnap (hplace e (hsub e he)).1) hsorted hcheck
  rw [← hnews, ← hlogs] at halign hlands
  have hall : ∀ e ∈ m.entries, e ∈ logs := by
    intro e he
    by_cases hnew : e ∈ news
    · exact hlands.new e hnew
    · have hold := mem_logs_of_not_new ht hmatch' hm he
        (Int.lt_of_le_of_lt hsnap (hplace e he).1) (hnewseq ▸ hnew)
      refine hlands.old e hold fun e' he' heq => hnew ?_
      rw [eq_of_aligned hentries he (hsub e' he') heq.symm]
      exact he'
  refine ⟨hinvu, haccepted.snapshotIndex ▸ hsnap, (haccepted.termAt _).symm.trans hprev, fun x => ?_,
    haccepted.snapshotIndex, haccepted.snapshotTerm, ?_, ?_, ⟨hterm, haccepted.term⟩,
    haccepted.snapshotIndex⟩
  · rw [← haccepted.logs]
    constructor
    · intro hx
      by_cases hin : x.logindex ≤ m.prevlogindex ∨ m.prevlogindex + m.entries.length < x.logindex
      · obtain hold | hnew := hlands.only x hx
        · exact .inr ⟨hold, hin⟩
        · exact .inl (hsub x hnew)
      · -- the request has an entry there
        rw [not_or, Int.not_le, Int.not_lt] at hin
        obtain ⟨k, hk⟩ : ∃ k : ℕ, x.logindex = m.prevlogindex + 1 + k :=
          ⟨(x.logindex - m.prevlogindex - 1).toNat, by omega⟩
        have hget := List.getElem?_eq_getElem (show k < m.entries.length by omega)
        have hmem := List.mem_of_getElem? hget
        rw [eq_of_aligned halign hx (hall _ hmem) (hk.trans (hentries k _ hget).symm)]
        exact .inl hmem
    · rintro (hx | ⟨hx, hout⟩)
      · exact hall x hx
      · refine hlands.old x hx fun e he heq => ?_
        have := hplace e (hsub e he)
        omega
  · rw [← haccepted.stable]
    exact congrArg (max t.stableLogIndex) hlast
  · rw [← haccepted.commit]
    rw [hlast]
    rfl

/-- The last index is that of the request, or still the one from before. -/
lemma Handled.last_eq (h : s.Handled u m) (hinv : s.IndexInv) (hL : Aligned base L)
    (hm : Sent base L m) :
    u.getLastLogIndex = max s.getLastLogIndex (m.prevlogindex + m.entries.length) := by
  have hsnap := h.snapshotIndex
  have hprev := hinv.termAt_le_last h.prev
  have hentries := hm.aligned hL
  have hbounds := h.index.snapshot_le_last
  refine Int.le_antisymm ?_ ?_
  · by_cases hempty : u.getLastLogIndex ≤ u.lastSnapshotIndex
    · have := hinv.snapshot_le_last
      omega
    · obtain ⟨e, he, hindex⟩ := h.index.exists_mem (Int.not_le.mp hempty) (Int.le_refl _)
      obtain hnew | ⟨hold, -⟩ := (h.logs e).mp he
      · have := (hm.index_of_mem hL hnew).2
        omega
      · have := (hinv.mem_le_last hold).2
        omega
  · by_cases hlast : s.getLastLogIndex < m.prevlogindex + m.entries.length ∨
      s.getLastLogIndex = m.prevlogindex + m.entries.length ∧ 0 < m.entries.length
    · -- the last entry of the request
      obtain ⟨k, hk⟩ : ∃ k, m.entries.length = k + 1 := Nat.exists_eq_add_one.mpr (by omega)
      have hget := List.getElem?_eq_getElem (show k < m.entries.length by omega)
      have hindex := hentries k _ hget
      have := (h.index.mem_le_last ((h.logs _).mpr (.inl (List.mem_of_getElem? hget)))).2
      omega
    · -- the last entry of the log
      by_cases hempty : s.getLastLogIndex ≤ s.lastSnapshotIndex
      · omega
      · obtain ⟨e, he, hindex⟩ := hinv.exists_mem (Int.not_le.mp hempty) (Int.le_refl _)
        have := (h.index.mem_le_last ((h.logs e).mpr (.inr ⟨he, by omega⟩))).2
        omega

/-- Up to the last entry of the request the log has only entries of the leader's. -/
lemma Handled.mem_of_le (h : s.Handled u m) (hinv : s.IndexInv) (hmatch : s.MatchesLog base L)
    (hm : Sent base L m) {e : LogEntry} (he : e ∈ u.logs) (habove : base < e.logindex)
    (hle : e.logindex ≤ m.prevlogindex + m.entries.length) : e ∈ L := by
  obtain hnew | ⟨hold, hprev | hlt⟩ := (h.logs e).mp he
  · exact hm.mem_of_entries hnew
  · exact hmatch.mem_of_prev hinv hm h.prev hold habove hprev
  · omega

/-- And it has all of them that are above the snapshot. -/
lemma Handled.mem_logs (h : s.Handled u m) (hinv : s.IndexInv) (hmatch : s.MatchesLog base L)
    (hL : Aligned base L) (hm : Sent base L m) {e : LogEntry} (he : e ∈ L)
    (habove : s.lastSnapshotIndex < e.logindex)
    (hle : e.logindex ≤ m.prevlogindex + m.entries.length) : e ∈ u.logs := by
  refine (h.logs e).mpr ?_
  by_cases hprev : e.logindex ≤ m.prevlogindex
  · right
    have hlast := hinv.termAt_le_last h.prev
    obtain ⟨x, hx, hindex⟩ := hinv.exists_mem habove (Int.le_trans hprev hlast)
    obtain ⟨k, hk⟩ := List.getElem?_of_mem he
    have hbase := hL k e hk
    have hmem := hmatch.mem_of_prev hinv hm h.prev hx (by omega) (by omega)
    rw [← eq_of_aligned hL hmem he hindex]
    exact ⟨hx, .inl (by omega)⟩
  · exact .inl (hm.mem_entries hL he (Int.not_le.mp hprev) hle)

/-- The logs still match. -/
lemma Handled.matchesLog (h : s.Handled u m) (hinv : s.IndexInv) (hmatch : s.MatchesLog base L)
    (hL : Aligned base L) (hm : Sent base L m) : u.MatchesLog base L := by
  intro e he x hx hindex hterm
  obtain ⟨k, hk⟩ := List.getElem?_of_mem hx
  have hbase := hL k x hk
  by_cases hle : e.logindex ≤ m.prevlogindex + m.entries.length
  · have hmem := h.mem_of_le hinv hmatch hm he (by omega) hle
    refine ⟨eq_of_aligned hL hmem hx hindex, fun e' he' habove hle' => ?_⟩
    exact h.mem_of_le hinv hmatch hm he' habove (Int.le_trans hle' hle)
  · -- an entry that the request did not reach
    obtain hnew | ⟨hold, -⟩ := (h.logs e).mp he
    · exact absurd (hm.index_of_mem hL hnew).2 hle
    · obtain ⟨heq, hbelow⟩ := hmatch e hold x hx hindex hterm
      refine ⟨heq, fun e' he' habove hle' => ?_⟩
      obtain hnew | ⟨hold', -⟩ := (h.logs e').mp he'
      · exact hm.mem_of_entries hnew
      · exact hbelow e' hold' habove hle'

/-- No entry of the request makes the node exit. -/
lemma pendingWrites_ok (hinv : s.IndexInv) {entries : List LogEntry}
    (hexit : ∀ e ∈ entries, ∀ old ∈ s.logs, old.logindex = e.logindex → old.logterm = e.logterm →
      old = e) : ∃ writes, s.pendingWrites s.getLastLogIndex entries = .ok writes := by
  induction entries with
  | nil => exact ⟨[], rfl⟩
  | cons e entries ih =>
    obtain ⟨rest, hrest⟩ := ih fun x hx => hexit x (List.mem_cons_of_mem _ hx)
    rw [pendingWrites, hrest]
    split_ifs with hsnap hlast
    · exact ⟨rest, rfl⟩
    · exact ⟨_, rfl⟩
    · obtain ⟨old, hold, hindex⟩ :=
        logAt_of_aligned hinv.aligned e.logindex (Int.not_le.mp hsnap) (Int.not_lt.mp hlast)
      have hmem := List.mem_of_getElem? (vecGet_eq_ok.mp hold).2
      simp only [hold, bind, Except.bind]
      split_ifs with hsame hterm
      · exact absurd (congrArg LogEntry.command
          (hexit e List.mem_cons_self old hmem hindex hsame.1)) hsame.2
      · exact ⟨_, rfl⟩
      · exact ⟨rest, rfl⟩

/-- The first part of `AppendEntries` does not end the process, whatever the request's entries are,
as long as none of them differs from one of the log in its command only. -/
lemma appendEntries_ok (hinv : s.IndexInv)
    (hexit : ∀ e ∈ m.entries, ∀ old ∈ s.logs, old.logindex = e.logindex →
      old.logterm = e.logterm → old = e) : ∃ t phase, s.appendEntries m = .ok (t, phase) := by
  have hacc := hinv.acceptTerm m.term
  have hlogs := s.acceptTerm_logs m.term
  obtain ⟨writes, hwrites⟩ := pendingWrites_ok hacc (hlogs.symm ▸ hexit)
  rw [appendEntries]
  split_ifs with hterm
  · exact ⟨_, _, rfl⟩
  · simp only
    split_ifs with hlast hsnap
    · exact ⟨_, _, rfl⟩
    · exact ⟨_, _, rfl⟩
    · obtain ⟨term, hprev⟩ := termAt_of_aligned hacc.aligned m.prevlogindex
        (Int.not_lt.mp hsnap) (Int.not_lt.mp hlast)
      simp only [hprev, bind, Except.bind]
      split_ifs
      · rw [hwrites]
        exact ⟨_, _, rfl⟩
      · obtain ⟨hint, hhint⟩ := hacc.conflictIndex term
          (m.prevlogindex - (s.acceptTerm m.term).lastSnapshotIndex).toNat (by omega)
        rw [hhint]
        exact ⟨_, _, rfl⟩

/-- What is in the log already is not written again. -/
lemma newEntries_of_mem (hinv : s.IndexInv) {entries : List LogEntry}
    (hmem : ∀ e ∈ entries, s.lastSnapshotIndex < e.logindex → e ∈ s.logs) :
    s.newEntries entries = [] := by
  refine List.filter_eq_nil_iff.mpr fun e he hnew => ?_
  obtain ⟨habove, hbehind | ⟨old, hold, hindex, hne⟩⟩ := of_decide_eq_true hnew
  · have := (hinv.mem_le_last (hmem e he habove)).2
    omega
  · rw [eq_of_aligned hinv.aligned hold (hmem e he habove) hindex] at hne
    exact hne rfl

end Raft

end KVCacheRaft
