import KVCacheRaft.Raft.Indices
import KVCacheRaft.Raft.Pending

/-!
# The new entries of a request

`AppendEntries` writes the entries of a request that are behind the log or differ from it in their term.
The writes are decided on before the lock is released.
-/

namespace KVCacheRaft

namespace Raft

variable {s s' : Raft} {entries : List LogEntry}

/-- The log has another entry at the place of this one. -/
def Overwrites (s : Raft) (e : LogEntry) : Prop :=
  ∃ old ∈ s.logs, old.logindex = e.logindex ∧ old.logterm ≠ e.logterm

instance (s : Raft) (e : LogEntry) : Decidable (s.Overwrites e) := by
  unfold Overwrites
  infer_instance

/-- Some entries overwrite all of the log from the first one on that they overwrite. -/
def OverwritesSuffix (s : Raft) (entries : List LogEntry) : Prop :=
  ∀ e ∈ entries, s.Overwrites e → ∀ old ∈ s.logs, e.logindex ≤ old.logindex →
    ∃ e' ∈ entries, e'.logindex = old.logindex ∧ old.logterm ≠ e'.logterm

instance (s : Raft) (entries : List LogEntry) : Decidable (s.OverwritesSuffix entries) := by
  unfold OverwritesSuffix
  infer_instance

/-- The entries that are behind the log or overwrite it. -/
def newEntries (s : Raft) (entries : List LogEntry) : List LogEntry :=
  entries.filter fun e =>
    s.lastSnapshotIndex < e.logindex ∧ (s.getLastLogIndex < e.logindex ∨ s.Overwrites e)

/-- Two entries at one place are one entry. -/
lemma eq_of_aligned {snap : ℤ} {logs : List LogEntry} (h : Aligned snap logs) {e x : LogEntry}
    (he : e ∈ logs) (hx : x ∈ logs) (heq : e.logindex = x.logindex) : e = x := by
  obtain ⟨i, hi⟩ := List.getElem?_of_mem he
  obtain ⟨j, hj⟩ := List.getElem?_of_mem hx
  have hei := h i e hi
  have hxj := h j x hj
  obtain rfl : i = j := by omega
  exact Option.some.inj (hi.symm.trans hj)

/-- An entry overwrites one of another term. -/
lemma overwrites_iff (h : Aligned s.lastSnapshotIndex s.logs) {e old : LogEntry}
    (hold : s.logAt e.logindex = .ok old) : s.Overwrites e ↔ old.logterm ≠ e.logterm := by
  obtain ⟨hpos, hget⟩ := vecGet_eq_ok.mp hold
  have hindex := h _ _ hget
  have hmem := List.mem_of_getElem? hget
  have heq : old.logindex = e.logindex := by omega
  constructor
  · rintro ⟨x, hx, hxe, hne⟩
    rw [eq_of_aligned h hmem hx (heq.trans hxe.symm)]
    exact hne
  · exact fun hne => ⟨old, hmem, heq, hne⟩

/-- What `AppendEntries` decides to write. -/
lemma pendingWrites_newEntries (h : Aligned s.lastSnapshotIndex s.logs)
    {pending : List PendingLogWrite}
    (hp : s.pendingWrites s.getLastLogIndex entries = .ok pending) :
    pending = (s.newEntries entries).map (writeOf s.lastSnapshotIndex s.getLastLogIndex) := by
  induction entries generalizing pending with
  | nil => exact (Except.ok.inj hp).symm
  | cons e entries ih =>
    rw [pendingWrites] at hp
    split_ifs at hp with hsnap hlast
    · have hdrop : s.newEntries (e :: entries) = s.newEntries entries :=
        List.filter_cons_of_neg (by simp only [decide_eq_true_eq]; omega)
      rw [hdrop]
      exact ih hp
    · have hkeep : s.newEntries (e :: entries) = e :: s.newEntries entries :=
        List.filter_cons_of_pos (decide_eq_true ⟨by omega, .inl hlast⟩)
      obtain ⟨rest, hrest, hp⟩ := bind_eq_ok.mp hp
      obtain rfl := pure_eq_ok.mp hp
      rw [hkeep, List.map_cons, ← ih hrest, writeOf, if_pos hlast]
    · obtain ⟨old, hold, hp⟩ := bind_eq_ok.mp hp
      have hover := overwrites_iff h hold
      split_ifs at hp with hexit hterm
      · have hkeep : s.newEntries (e :: entries) = e :: s.newEntries entries :=
          List.filter_cons_of_pos (decide_eq_true ⟨by omega, .inr (hover.mpr hterm)⟩)
        obtain ⟨rest, hrest, hp⟩ := bind_eq_ok.mp hp
        obtain rfl := pure_eq_ok.mp hp
        rw [hkeep, List.map_cons, ← ih hrest, writeOf, if_neg hlast]
      · have hdrop : s.newEntries (e :: entries) = s.newEntries entries := by
          refine List.filter_cons_of_neg ?_
          simp only [decide_eq_true_eq, hover]
          omega
        rw [hdrop]
        exact ih hp

/-- The entries that are written start somewhere in the log, and leave nothing of it behind them. -/
lemma newEntries_suffix (h : Aligned s.lastSnapshotIndex s.logs) {j : ℕ} (hj : j ≤ s.logs.length)
    (hentries : Aligned (s.lastSnapshotIndex + j) entries) (hsuffix : s.OverwritesSuffix entries) :
    s.newEntries entries = [] ∨ ∃ k ≤ s.logs.length,
      Aligned (s.lastSnapshotIndex + k) (s.newEntries entries) ∧
      s.logs.length ≤ k + (s.newEntries entries).length := by
  have hlast := getLastLogIndex_of_aligned h
  induction entries generalizing j with
  | nil => exact .inl rfl
  | cons e entries ih =>
    have he : e.logindex = s.lastSnapshotIndex + j + 1 := by simpa using hentries 0 e rfl
    by_cases hnew : s.getLastLogIndex < e.logindex ∨ s.Overwrites e
    · -- from here on all entries are written
      right
      have hall : s.newEntries (e :: entries) = e :: entries := by
        refine List.filter_eq_self.mpr fun x hx => decide_eq_true ?_
        obtain ⟨i, hi⟩ := List.getElem?_of_mem hx
        have hxi := hentries i x hi
        refine ⟨by omega, ?_⟩
        by_cases hbehind : s.getLastLogIndex < x.logindex
        · exact .inl hbehind
        · right
          obtain ⟨old, hold, hindex⟩ := logAt_of_aligned h x.logindex (by omega) (by omega)
          have hmem := List.mem_of_getElem? (vecGet_eq_ok.mp hold).2
          have hover := hnew.resolve_left (by omega)
          obtain ⟨x', hx', hindex', hterm⟩ := hsuffix e List.mem_cons_self hover old hmem (by omega)
          obtain rfl := eq_of_aligned hentries hx' hx (hindex'.trans hindex)
          exact ⟨old, hmem, hindex, hterm⟩
      rw [hall]
      refine ⟨j, hj, hentries, ?_⟩
      rw [List.length_cons]
      by_cases hbehind : s.getLastLogIndex < e.logindex
      · omega
      · obtain ⟨old, hold, hindex⟩ :=
          logAt_of_aligned h s.getLastLogIndex (by omega) (Int.le_refl _)
        have hmem := List.mem_of_getElem? (vecGet_eq_ok.mp hold).2
        obtain ⟨x, hx, hxindex, -⟩ :=
          hsuffix e List.mem_cons_self (hnew.resolve_left hbehind) old hmem (by omega)
        obtain ⟨i, hi⟩ := List.getElem?_of_mem hx
        have hxi := hentries i x hi
        have hlt := (List.getElem?_eq_some_iff.mp hi).1
        rw [List.length_cons] at hlt
        omega
    · rw [not_or] at hnew
      have hdrop : s.newEntries (e :: entries) = s.newEntries entries := by
        refine List.filter_cons_of_neg fun hmem => ?_
        obtain ⟨-, hbehind | hover⟩ := of_decide_eq_true hmem
        · exact hnew.1 hbehind
        · exact hnew.2 hover
      have hrest : Aligned (s.lastSnapshotIndex + ((j + 1 : ℕ) : ℤ)) entries := by
        have := hentries.drop 1
        rw [Int.add_assoc] at this
        exact this
      rw [hdrop]
      refine ih (by omega) hrest fun x hx hover old hold hle => ?_
      obtain ⟨x', hx', hindex, hterm⟩ := hsuffix x (List.mem_cons_of_mem _ hx) hover old hold hle
      obtain rfl | hx' := List.mem_cons.mp hx'
      · obtain ⟨i, hi⟩ := List.getElem?_of_mem hx
        have hxi := hrest i x hi
        omega
      · exact ⟨x', hx', hindex, hterm⟩

/-! ### The log in memory -/

/-- The length of the log does not decide whether a write is made, only how. -/
lemma foldl_writeOf (hsnap : ∀ e ∈ entries, s.lastSnapshotIndex < e.logindex) {len k : ℕ}
    {logs : List LogEntry} (hlen : logs.length = max len k)
    (hentries : Aligned (s.lastSnapshotIndex + k) entries) :
    (entries.map (writeOf s.lastSnapshotIndex (s.lastSnapshotIndex + len))).foldl s.applyPending logs =
      logs.take k ++ entries ++ logs.drop (k + entries.length) := by
  induction entries generalizing logs k with
  | nil => simp
  | cons e entries ih =>
    have he : e.logindex = s.lastSnapshotIndex + k + 1 := by simpa using hentries 0 e rfl
    have hrest : Aligned (s.lastSnapshotIndex + ((k + 1 : ℕ) : ℤ)) entries := by
      have := hentries.drop 1
      rw [Int.add_assoc] at this
      exact this
    have habove : ¬ e.logindex ≤ s.lastSnapshotIndex :=
      Int.not_le.mpr (hsnap e List.mem_cons_self)
    have ih := fun {logs : List LogEntry} (hlen : logs.length = max len (k + 1)) =>
      ih (fun x hx => hsnap x (List.mem_cons_of_mem _ hx)) hlen hrest
    have hnext : k + (e :: entries).length = k + 1 + entries.length := by
      rw [List.length_cons]
      omega
    rw [List.map_cons, List.foldl_cons, hnext, applyPending, writeOf_log, if_neg habove]
    by_cases hbehind : e.logindex > s.lastSnapshotIndex + len
    · have hlogs : (logs ++ [e]).length = max len (k + 1) := by
        rw [List.length_append, List.length_singleton]
        omega
      have hall : logs.length ≤ k := by omega
      rw [writeOf, if_pos hbehind, if_pos rfl, ih hlogs,
        List.take_of_length_le (by rw [hlogs]; omega), List.drop_eq_nil_of_le (by rw [hlogs]; omega),
        List.take_of_length_le hall, List.drop_eq_nil_of_le (by omega)]
      simp
    · have hlogs : (logs.set k e).length = max len (k + 1) := by
        rw [List.length_set]
        omega
      have hplace : (e.logindex - s.lastSnapshotIndex - 1).toNat = k := by omega
      have htake : (logs.set k e).take (k + 1) = logs.take k ++ [e] := by
        rw [List.take_add_one, List.take_set_of_le (Nat.le_refl k),
          List.getElem?_set_self (by omega)]
        rfl
      have hdrop : (logs.set k e).drop (k + 1 + entries.length) =
          logs.drop (k + 1 + entries.length) := List.drop_set_of_lt (by omega)
      rw [writeOf, if_neg hbehind, if_neg Bool.false_ne_true, hplace, ih hlogs, htake, hdrop]
      simp

/-- The writes of some entries apply as long as nothing behind the log is left out. -/
lemma checkPending_filter (h : Aligned s.lastSnapshotIndex s.logs) {prev : ℤ}
    {p : LogEntry → Bool} (hentries : Aligned prev entries) (hsnap : s.lastSnapshotIndex ≤ prev)
    (hp : ∀ e ∈ entries, s.getLastLogIndex < e.logindex → p e = true) :
    s.checkPending (max s.getLastLogIndex prev)
      ((entries.filter p).map (writeOf s.lastSnapshotIndex s.getLastLogIndex)) = none := by
  have hlast := getLastLogIndex_of_aligned h
  induction entries generalizing prev with
  | nil => rfl
  | cons e entries ih =>
    have he : e.logindex = prev + 1 := by simpa using hentries 0 e rfl
    have hrest : Aligned (prev + 1) entries := by simpa using hentries.drop 1
    have ih := ih hrest (by omega) fun x hx => hp x (List.mem_cons_of_mem _ hx)
    have hnext : ¬ e.logindex > s.getLastLogIndex →
        max s.getLastLogIndex (prev + 1) = max s.getLastLogIndex prev := by omega
    cases hkeep : p e with
    | true =>
      rw [List.filter_cons_of_pos hkeep, List.map_cons, checkPending, writeOf_log,
        if_neg (by omega)]
      by_cases hbehind : e.logindex > s.getLastLogIndex
      · rw [writeOf, if_pos hbehind, if_pos rfl, if_neg (by omega)]
        rwa [show max s.getLastLogIndex (prev + 1) = e.logindex by omega] at ih
      · obtain ⟨old, hold, hindex⟩ :=
          logAt_of_aligned h e.logindex (by omega) (Int.not_lt.mp hbehind)
        have hget := (vecGet_eq_ok.mp hold).2
        have hrange : ¬ (e.logindex - s.lastSnapshotIndex - 1 < 0 ∨
            e.logindex - s.lastSnapshotIndex - 1 ≥ s.logs.length) := by omega
        rw [writeOf, if_neg hbehind, if_neg Bool.false_ne_true, if_neg hrange, hget,
          if_neg (by simpa using hindex)]
        rwa [hnext hbehind] at ih
    | false =>
      have hbehind : ¬ e.logindex > s.getLastLogIndex := by
        intro hbehind
        rw [hp e List.mem_cons_self hbehind] at hkeep
        cases hkeep
      rw [List.filter_cons_of_neg (by simp [hkeep])]
      rwa [hnext hbehind] at ih

/-- The writes still apply when the log has not changed. -/
lemma checkPending_writeOf (h : Aligned s.lastSnapshotIndex s.logs) {k : ℕ}
    (hentries : Aligned (s.lastSnapshotIndex + k) entries) {last : ℤ}
    (hlast : last = s.lastSnapshotIndex + (max s.logs.length k : ℕ)) :
    s.checkPending last
      (entries.map (writeOf s.lastSnapshotIndex (s.lastSnapshotIndex + s.logs.length))) = none := by
  have hcheck := checkPending_filter (p := fun _ => true) h hentries (by omega) fun _ _ _ => rfl
  rw [getLastLogIndex_of_aligned h, List.filter_true] at hcheck
  rwa [show last = max (s.lastSnapshotIndex + s.logs.length) (s.lastSnapshotIndex + k) by omega]

/-- So do those of the new entries. -/
lemma checkPending_newEntries (h : Aligned s.lastSnapshotIndex s.logs) {prev : ℤ}
    (hentries : Aligned prev entries) (hsnap : s.lastSnapshotIndex ≤ prev) :
    s.checkPending (max s.getLastLogIndex prev)
      ((s.newEntries entries).map (writeOf s.lastSnapshotIndex s.getLastLogIndex)) = none := by
  refine checkPending_filter h hentries hsnap fun e he hbehind => decide_eq_true ⟨?_, .inl hbehind⟩
  obtain ⟨i, hi⟩ := List.getElem?_of_mem he
  have := hentries i e hi
  omega

end Raft

end KVCacheRaft
