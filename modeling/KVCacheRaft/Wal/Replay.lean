import KVCacheRaft.Raft.Indices
import KVCacheRaft.Wal.Record

/-!
# Replay

`ReadPersistedLogs` and `CompactWal` rebuild a log from the entries of all segments with one rule: an
entry behind the last one is appended, an entry at or below it cuts the log at its place, and an
entry behind a gap is dropped. The result is a log whose entries are at their places, whatever was
read.
-/

namespace KVCacheRaft

/-- One round of the loop of `ReadPersistedLogs` over the entries of the segments. -/
def replayEntry (snapshotIndex : ℕ) (logs : List LogEntry) (entry : LogEntry) : List LogEntry :=
  if entry.logindex ≤ snapshotIndex then logs
  else
    match logs.getLast? with
    | none => if entry.logindex ≠ snapshotIndex + 1 then logs else logs ++ [entry]
    | some back =>
      if entry.logindex = back.logindex + 1 then logs ++ [entry]
      else if entry.logindex ≤ back.logindex then
        let vecIndex := entry.logindex - snapshotIndex - 1
        if vecIndex ≥ 0 ∧ vecIndex < logs.length then logs.take vecIndex.toNat ++ [entry] else logs
      else logs

/-- The loop of `ReadPersistedLogs`. -/
def replayEntries (snapshotIndex : ℕ) (entries : List LogEntry) : List LogEntry :=
  entries.foldl (replayEntry snapshotIndex) []

/-- A write to a log: it first drops every entry with an equal or larger index. -/
def overwrite (logs : List LogEntry) (entry : LogEntry) : List LogEntry :=
  logs.filter (·.logindex < entry.logindex) ++ [entry]

/-- An entry at a place of the log or right behind it. -/
def Adjoins (snap : ℤ) (logs : List LogEntry) (entry : LogEntry) : Prop :=
  snap < entry.logindex ∧ entry.logindex ≤ snap + logs.length + 1

instance (snap : ℤ) (logs : List LogEntry) (entry : LogEntry) :
    Decidable (Adjoins snap logs entry) := by
  unfold Adjoins
  infer_instance

section

variable {snapshotIndex : ℕ} {logs : List LogEntry} {entry : LogEntry}

/-- The last entry of an aligned log counts the entries. -/
lemma Aligned.getLast {snap : ℤ} {back : LogEntry} (h : Aligned snap logs)
    (hlast : logs.getLast? = some back) : back.logindex = snap + logs.length := by
  obtain ⟨front, rfl⟩ := List.getLast?_eq_some_iff.mp hlast
  have := h front.length back List.getElem?_concat_length
  rw [List.length_append, List.length_singleton]
  push_cast
  omega

/-- An entry that adjoins the log cuts it at its place. -/
lemma replayEntry_adjoins (h : Aligned snapshotIndex logs) (he : Adjoins snapshotIndex logs entry) :
    replayEntry snapshotIndex logs entry =
      logs.take (entry.logindex - snapshotIndex - 1).toNat ++ [entry] := by
  obtain ⟨hlt, hle⟩ := he
  rw [replayEntry, if_neg (by omega)]
  cases hlast : logs.getLast? with
  | none =>
    obtain rfl := List.getLast?_eq_none_iff.mp hlast
    rw [List.length_nil] at hle
    simp only
    rw [if_neg (by omega), List.take_nil]
  | some back =>
    have hback := h.getLast hlast
    simp only
    split_ifs with hnext hcut hplace
    · rw [List.take_of_length_le (by omega)]
    · rfl
    · exact absurd ⟨by omega, by omega⟩ hplace
    · omega

/-- Any other entry is dropped. -/
lemma replayEntry_of_not_adjoins (h : Aligned snapshotIndex logs)
    (he : ¬ Adjoins snapshotIndex logs entry) : replayEntry snapshotIndex logs entry = logs := by
  rw [replayEntry]
  by_cases hle : entry.logindex ≤ snapshotIndex
  · rw [if_pos hle]
  · have hgap : snapshotIndex + logs.length + 1 < entry.logindex := by
      rw [Adjoins] at he
      omega
    rw [if_neg hle]
    cases hlast : logs.getLast? with
    | none => exact if_pos (by omega)
    | some back =>
      have hback := h.getLast hlast
      simp only
      rw [if_neg (by omega), if_neg (by omega)]

/-- A log that is cut at an entry is aligned with it. -/
lemma Aligned.cut {snap : ℤ} (h : Aligned snap logs) (he : Adjoins snap logs entry) :
    Aligned snap (logs.take (entry.logindex - snap - 1).toNat ++ [entry]) := by
  obtain ⟨hlt, hle⟩ := he
  refine (h.take _).concat ?_
  rw [List.length_take]
  omega

/-- A replayed entry keeps the log aligned. -/
lemma Aligned.replayEntry (h : Aligned snapshotIndex logs) :
    Aligned snapshotIndex (replayEntry snapshotIndex logs entry) := by
  by_cases he : Adjoins snapshotIndex logs entry
  · rw [replayEntry_adjoins h he]
    exact h.cut he
  · rw [replayEntry_of_not_adjoins h he]
    exact h

/-- Replayed entries keep the log aligned. -/
lemma Aligned.foldl_replayEntry (h : Aligned snapshotIndex logs) (entries : List LogEntry) :
    Aligned snapshotIndex (entries.foldl (KVCacheRaft.replayEntry snapshotIndex) logs) := by
  induction entries generalizing logs with
  | nil => exact h
  | cons e entries ih => exact ih h.replayEntry

/-- Whatever the segments hold, the entries that are recovered are at their places. -/
theorem aligned_replayEntries (snapshotIndex : ℕ) (entries : List LogEntry) :
    Aligned snapshotIndex (replayEntries snapshotIndex entries) :=
  Aligned.nil.foldl_replayEntry entries

/-- Dropping the entries from an index on is a cut at its place. -/
lemma Aligned.filter_lt {snap m : ℤ} (h : Aligned snap logs) (hm : snap < m) :
    logs.filter (·.logindex < m) = logs.take (m - snap - 1).toNat := by
  induction logs generalizing snap with
  | nil => rw [List.filter_nil, List.take_nil]
  | cons e logs ih =>
    have he : e.logindex = snap + 1 := by simpa using h 0 e rfl
    have hrest : Aligned (snap + 1) logs := by simpa using h.drop 1
    by_cases hlt : e.logindex < m
    · have hsucc : (m - snap - 1).toNat = (m - (snap + 1) - 1).toNat + 1 := by omega
      rw [List.filter_cons_of_pos (by simpa using hlt), hsucc, List.take_succ_cons,
        ih hrest (by omega)]
    · have hzero : (m - snap - 1).toNat = 0 := by omega
      rw [hzero, List.take_zero, List.filter_eq_nil_iff]
      intro x hx hxm
      obtain ⟨k, hk⟩ := List.getElem?_of_mem hx
      have hxk := h k x hk
      have hxm' : x.logindex < m := by simpa using hxm
      omega

/-- An entry that adjoins the log is written over what it has from there. -/
lemma replayEntry_eq_overwrite (h : Aligned snapshotIndex logs)
    (he : Adjoins snapshotIndex logs entry) :
    replayEntry snapshotIndex logs entry = overwrite logs entry := by
  rw [replayEntry_adjoins h he, overwrite, h.filter_lt he.1]

/-- A history of writes, each at a place of the log so far or right behind it. -/
def History (snap : ℤ) : List LogEntry → List LogEntry → Prop
  | _, [] => True
  | logs, e :: rest => Adjoins snap logs e ∧ History snap (overwrite logs e) rest

instance decidableHistory (snap : ℤ) : ∀ logs entries, Decidable (History snap logs entries)
  | _, [] => inferInstanceAs (Decidable True)
  | logs, e :: rest =>
    have : Decidable (History snap (overwrite logs e) rest) := decidableHistory snap _ rest
    inferInstanceAs (Decidable (Adjoins snap logs e ∧ History snap (overwrite logs e) rest))

/-- Replay in the order of the writes gives the log that was written. -/
lemma History.foldl_replayEntry {entries : List LogEntry} (h : Aligned snapshotIndex logs)
    (hentries : History snapshotIndex logs entries) :
    entries.foldl (replayEntry snapshotIndex) logs = entries.foldl overwrite logs := by
  induction entries generalizing logs with
  | nil => rfl
  | cons e entries ih =>
    obtain ⟨he, hrest⟩ := hentries
    have heq := replayEntry_eq_overwrite h he
    rw [List.foldl_cons, List.foldl_cons, heq]
    exact ih (heq ▸ h.replayEntry) hrest

/-- What is replayed was there or is one of the entries. -/
lemma mem_foldl_replayEntry {e : LogEntry} {entries : List LogEntry}
    (he : e ∈ entries.foldl (replayEntry snapshotIndex) logs) : e ∈ logs ∨ e ∈ entries := by
  induction entries generalizing logs with
  | nil => exact .inl he
  | cons x entries ih =>
    obtain he | he := ih he
    · -- what one entry leaves is the log, or a part of it and the entry
      have hmem : e ∈ logs ∨ e = x := by
        rw [replayEntry] at he
        split at he
        · exact .inl he
        · split at he
          · split at he
            · exact .inl he
            · exact (List.mem_append.mp he).imp_right List.mem_singleton.mp
          · split at he
            · exact (List.mem_append.mp he).imp_right List.mem_singleton.mp
            · split at he
              · simp only at he
                split at he
                · exact (List.mem_append.mp he).imp List.mem_of_mem_take List.mem_singleton.mp
                · exact .inl he
              · exact .inl he
      exact hmem.imp_right fun heq : e = x => heq ▸ List.mem_cons_self
    · exact .inr (List.mem_cons_of_mem _ he)

/-- Entries behind the log at their places cut it where they start. -/
lemma foldl_replayEntry_aligned (h : Aligned snapshotIndex logs) {k : ℕ} {entries : List LogEntry}
    (hk : k ≤ logs.length) (hentries : Aligned (snapshotIndex + k) entries) (hne : entries ≠ []) :
    entries.foldl (replayEntry snapshotIndex) logs = logs.take k ++ entries := by
  induction entries generalizing logs k with
  | nil => exact absurd rfl hne
  | cons e entries ih =>
    have he : e.logindex = snapshotIndex + k + 1 := by simpa using hentries 0 e rfl
    have hadjoins : Adjoins snapshotIndex logs e := ⟨by omega, by omega⟩
    have hplace : (e.logindex - snapshotIndex - 1).toNat = k := by omega
    have hcut := h.cut hadjoins
    have hstep := replayEntry_adjoins h hadjoins
    rw [hplace] at hcut hstep
    rw [List.foldl_cons, hstep]
    cases entries with
    | nil => rfl
    | cons x entries =>
      have hlen : (logs.take k ++ [e]).length = k + 1 := by
        rw [List.length_append, List.length_take, List.length_singleton]
        omega
      have hrest : Aligned (snapshotIndex + ((k + 1 : ℕ) : ℤ)) (x :: entries) := by
        have := hentries.drop 1
        rw [Int.add_assoc] at this
        exact this
      rw [ih hcut (Nat.le_of_eq hlen.symm) hrest (List.cons_ne_nil _ _),
        List.take_of_length_le (Nat.le_of_eq hlen), List.append_assoc, List.singleton_append]

/-- A recovered log is recovered again. -/
lemma replayEntries_of_aligned (h : Aligned snapshotIndex logs) :
    replayEntries snapshotIndex logs = logs := by
  cases logs with
  | nil => rfl
  | cons e logs =>
    have h' : Aligned (snapshotIndex + ((0 : ℕ) : ℤ)) (e :: logs) := by simpa using h
    exact foldl_replayEntry_aligned .nil (Nat.le_refl 0) h' (List.cons_ne_nil _ _)

/-- Entries up to the snapshot are dropped, whether they are read or not. -/
lemma replayEntries_filter (entries : List LogEntry) :
    replayEntries snapshotIndex (entries.filter (·.logindex > (snapshotIndex : ℤ))) =
      replayEntries snapshotIndex entries := by
  have hfold : ∀ logs, (entries.filter (·.logindex > (snapshotIndex : ℤ))).foldl
      (replayEntry snapshotIndex) logs = entries.foldl (replayEntry snapshotIndex) logs := by
    induction entries with
    | nil => exact fun _ => rfl
    | cons e entries ih =>
      intro logs
      by_cases he : e.logindex > snapshotIndex
      · rw [List.filter_cons_of_pos (by simpa using he), List.foldl_cons, List.foldl_cons, ih]
      · have hdrop : replayEntry snapshotIndex logs e = logs := if_pos (Int.not_lt.mp he)
        rw [List.filter_cons_of_neg (by simpa using he), List.foldl_cons, hdrop, ih]
  exact hfold []

end

end KVCacheRaft
