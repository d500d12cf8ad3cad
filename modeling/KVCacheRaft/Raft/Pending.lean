import KVCacheRaft.Raft.Log

/-!
# What `AppendEntries` does to the log

The request carries the entries `p ++ es` of a leader's log `F` after a previous index `|p|`. The
first locked part finds the longest part `m` of `es` that the node already holds and decides to
write the rest (`pendingWrites_eq`); the second applies these writes to whatever the log then is
(`applyPending_eq`). The writes replace single slots, so entries behind the last one stay: only when
none is left (`LeavesNoSuffix`) does the node end up with the log the protocol wants (`Merged`).
-/

namespace KVCacheRaft
open Consensus

/-- Two logs with entries of the same term at one position agree up to it. -/
def Matches (l m : List LogEntry) : Prop :=
  ∀ ⦃p q : List LogEntry⦄ ⦃e x : LogEntry⦄, p ++ [e] <+: l → q ++ [x] <+: m →
    p.length = q.length → e.logterm = x.logterm → p ++ [e] = q ++ [x]

/-- The write `AppendEntries` decides on for an entry that does not match. -/
def writeOf (snapshot last : ℤ) (e : LogEntry) : PendingLogWrite :=
  if e.logindex > last then { vecIndex := -1, append := true, log := e }
  else { vecIndex := e.logindex - snapshot - 1, append := false, log := e }

@[simp] lemma writeOf_log (snapshot last : ℤ) (e : LogEntry) :
    (writeOf snapshot last e).log = e := by
  unfold writeOf
  split_ifs <;> rfl

namespace Raft

variable {r r' : Raft} {l F : List LogEntry} {req : AppendEntriesArgs}

/-- The condition under which a replacing write is harmless: an entry of another term is replaced
only when the log does not reach beyond the entries of the request. -/
def LeavesNoSuffix (r : Raft) (req : AppendEntriesArgs) (pending : List PendingLogWrite) : Prop :=
  ∀ item ∈ pending, item.append = false →
    ∀ old ∈ r.logs[item.vecIndex.toNat]?, old.logterm ≠ item.log.logterm →
      r.getLastLogIndex ≤ req.prevlogindex + req.entries.length

/-! ### The first part -/

/-- Entries behind a part that the log lacks are all written. -/
lemma pendingWrites_of_not_prefix (h : r.Holds l) (hM : Matches l F) (hF : Indexed F)
    {w es : List LogEntry} (hw : w ≠ []) (hwl : ¬ w <+: l) (hes : w ++ es <+: F)
    (hs : r.lastSnapshotIndex ≤ w.length) :
    r.pendingWrites l.length es = .ok (es.map (writeOf r.lastSnapshotIndex l.length)) := by
  induction es generalizing w with
  | nil => rfl
  | cons e es ih =>
    have hpre : w ++ [e] <+: F := (by simp : w ++ [e] <+: w ++ e :: es).trans hes
    have hidx := hF hpre
    have hrest := ih (w := w ++ [e]) (by simp)
      (fun hc => hwl ((List.prefix_append _ _).trans hc)) (by simpa using hes) (by simp; omega)
    have hns : ¬ e.logindex ≤ r.lastSnapshotIndex := by omega
    by_cases hlast : e.logindex > (l.length : ℤ)
    · simp [pendingWrites, hns, hlast, hrest, writeOf, bind, Except.bind, pure, Except.pure]
    · obtain ⟨q, old, hq, hqlen⟩ := exists_concat_prefix_at (l := l) (k := w.length) (by omega)
      have hold : r.logAt e.logindex = .ok old := by
        rw [hidx, ← hqlen]
        exact h.logAt_concat hq (by omega)
      have hne : old.logterm ≠ e.logterm := by
        intro ht
        have := hM hq hpre hqlen ht
        exact hwl ((List.prefix_append w [e]).trans (this ▸ hq))
      simp [pendingWrites, hns, hlast, hrest, writeOf, hold, hne, bind, Except.bind, pure,
        Except.pure]

/-- The first part keeps the longest prefix the node holds and decides to write the rest. -/
lemma pendingWrites_eq (h : r.Holds l) (hM : Matches l F) (hF : Indexed F) {w es : List LogEntry}
    (hwl : w <+: l) (hes : w ++ es <+: F) (hs : r.lastSnapshotIndex ≤ w.length) :
    ∃ m rest, es = m ++ rest ∧ w ++ m <+: l ∧
      r.pendingWrites l.length es = .ok (rest.map (writeOf r.lastSnapshotIndex l.length)) := by
  induction es generalizing w with
  | nil => exact ⟨[], [], rfl, by simpa using hwl, rfl⟩
  | cons e es ih =>
    have hpre : w ++ [e] <+: F := (by simp : w ++ [e] <+: w ++ e :: es).trans hes
    have hidx := hF hpre
    by_cases hel : w ++ [e] <+: l
    · -- the node holds this entry already
      obtain ⟨m, rest, rfl, hml, hp⟩ := ih (w := w ++ [e]) hel (by simpa using hes) (by simp; omega)
      refine ⟨e :: m, rest, rfl, by simpa using hml, ?_⟩
      have hlen := hel.length_le
      simp only [List.length_append, List.length_singleton] at hlen
      have hns : ¬ e.logindex ≤ r.lastSnapshotIndex := by omega
      have hnl : ¬ e.logindex > (l.length : ℤ) := by omega
      have hold : r.logAt e.logindex = .ok e := by
        rw [hidx]
        exact h.logAt_concat hel hs
      simp [pendingWrites, hns, hnl, hold, hp, bind, Except.bind]
    · refine ⟨[], e :: es, rfl, by simpa using hwl, ?_⟩
      have hrest := pendingWrites_of_not_prefix h hM hF (w := w ++ [e]) (by simp) hel
        (by simpa using hes) (by simp; omega)
      have hns : ¬ e.logindex ≤ r.lastSnapshotIndex := by omega
      by_cases hlast : e.logindex > (l.length : ℤ)
      · simp [pendingWrites, hns, hlast, hrest, writeOf, bind, Except.bind, pure, Except.pure]
      · obtain ⟨q, old, hq, hqlen⟩ := exists_concat_prefix_at (l := l) (k := w.length) (by omega)
        have hold : r.logAt e.logindex = .ok old := by
          rw [hidx, ← hqlen]
          exact h.logAt_concat hq (by omega)
        have hne : old.logterm ≠ e.logterm := fun ht => hel (hM hq hpre hqlen ht ▸ hq)
        simp [pendingWrites, hns, hlast, hrest, writeOf, hold, hne, bind, Except.bind, pure,
          Except.pure]

/-! ### The second part -/

/-- What the check says about a write that replaces a slot. -/
lemma checkPending_replace (h : r.Holds l) (hl : Indexed l) {snapshot last sim : ℤ} {e : LogEntry}
    {rest : List PendingLogWrite} (hs : r.lastSnapshotIndex < e.logindex)
    (hlast : ¬ e.logindex > last)
    (hc : r.checkPending sim (writeOf snapshot last e :: rest) = none) :
    (e.logindex - snapshot - 1).toNat = (e.logindex - r.lastSnapshotIndex - 1).toNat ∧
      e.logindex ≤ l.length ∧ r.checkPending sim rest = none := by
  have hns : ¬ e.logindex ≤ r.lastSnapshotIndex := by omega
  simp only [checkPending, writeOf, hlast, if_false, hns, Bool.false_eq_true] at hc
  split_ifs at hc with hr hi
  obtain ⟨p, rfl, h2, -⟩ := h
  push Not at hr hi
  set k := (e.logindex - snapshot - 1).toNat with hk
  obtain ⟨old, hold, hidx⟩ := Option.map_eq_some_iff.mp hi
  obtain ⟨hklt, hv⟩ := List.getElem?_eq_some_iff.mp hold
  have hpos : old.logindex = (p ++ r.logs.take k).length + 1 := by
    apply hl
    rw [← hv, List.append_assoc, List.take_append_getElem]
    exact (List.prefix_append_right_inj p).mpr (List.take_prefix _ _)
  simp only [List.length_append, List.length_take] at hpos ⊢
  refine ⟨by omega, by omega, hc⟩

/-- What the check says about a write that appends. -/
lemma checkPending_append {snapshot last sim : ℤ} {e : LogEntry} {rest : List PendingLogWrite}
    (hs : r.lastSnapshotIndex < e.logindex) (hlast : e.logindex > last)
    (hc : r.checkPending sim (writeOf snapshot last e :: rest) = none) :
    e.logindex = sim + 1 ∧ r.checkPending e.logindex rest = none := by
  have hns : ¬ e.logindex ≤ r.lastSnapshotIndex := by omega
  simp only [checkPending, writeOf, hlast, if_true, hns, if_false] at hc
  split_ifs at hc with hi
  exact ⟨by omega, hc⟩

/-- The writes leave the entries of the request followed by what was behind them. Here `q` is the
part of the log under the snapshot, `c` the rest of the log the earlier writes have left and `w` the
entries up to the next write. -/
lemma applyPending_eq (h : r.Holds l) (hl : Indexed l) {snapshot last : ℤ}
    {q c w rest : List LogEntry} (hF : Indexed (w ++ rest)) (hq : r.lastSnapshotIndex = q.length)
    (hqw : q.length ≤ w.length) (hw : w <+: q ++ c) (hlen : l.length ≤ (q ++ c).length)
    (hc : r.checkPending (q ++ c).length (rest.map (writeOf snapshot last)) = none) :
    q ++ (rest.map (writeOf snapshot last)).foldl r.applyPending c =
      w ++ rest ++ (q ++ c).drop (w ++ rest).length := by
  induction rest generalizing c w with
  | nil =>
    obtain ⟨t, ht⟩ := hw
    simp [← ht]
  | cons e rest ih =>
    have hidx : e.logindex = w.length + 1 := hF (by simp)
    have hs : r.lastSnapshotIndex < e.logindex := by omega
    have hns : ¬ e.logindex ≤ r.lastSnapshotIndex := by omega
    rw [List.map_cons] at hc
    by_cases hlast : e.logindex > last
    · -- an append: the log ends where the entry goes
      obtain ⟨h1, h2⟩ := checkPending_append hs hlast hc
      have hcw : w = q ++ c := hw.eq_of_length (by omega)
      have hstep : r.applyPending c (writeOf snapshot last e) = c ++ [e] := by
        simp [applyPending, writeOf, hlast, hns]
      have := ih (c := c ++ [e]) (w := w ++ [e]) (by simpa using hF) (by simp; omega)
        (by rw [hcw]; simp) (by simp at hlen ⊢; omega)
        (by rw [← h2]; congr 1; simp at h1 ⊢; omega)
      rw [List.map_cons, List.foldl_cons, hstep, this]
      simp [hcw]
    · -- a replacement: it goes over the slot of its own index
      obtain ⟨h1, h2, h3⟩ := checkPending_replace h hl hs hlast hc
      have hstep : r.applyPending c (writeOf snapshot last e) = c.set (w.length - q.length) e := by
        simp only [applyPending, writeOf, hlast, hns, if_false, Bool.false_eq_true, h1]
        congr 1
        omega
      have hset : q ++ c.set (w.length - q.length) e = (q ++ c).set w.length e := by
        rw [List.set_append_right _ _ hqw]
      have hlt : w.length < (q ++ c).length := by omega
      have hw' : w ++ [e] <+: q ++ c.set (w.length - q.length) e := by
        rw [hset]
        obtain ⟨t, ht⟩ := hw
        rw [← ht] at hlt ⊢
        rw [List.set_append_right _ _ le_rfl, Nat.sub_self]
        cases t with
        | nil => simp at hlt
        | cons x t => simp
      have := ih (c := c.set (w.length - q.length) e) (w := w ++ [e]) (by simpa using hF)
        (by simp; omega) hw' (by simpa using hlen) (by simpa using h3)
      rw [List.map_cons, List.foldl_cons, hstep, this, hset]
      simp [List.drop_set]

/-- An append that passes the check goes above the log. -/
lemma checkPending_append_index {snapshot last sim : ℤ} {rest : List LogEntry} {e : LogEntry}
    {w : List LogEntry} (hF : Indexed (w ++ rest)) (hs : r.lastSnapshotIndex ≤ w.length)
    (hc : r.checkPending sim (rest.map (writeOf snapshot last)) = none) (he : e ∈ rest)
    (hlast : e.logindex > last) : e.logindex > sim := by
  induction rest generalizing w sim with
  | nil => simp at he
  | cons x rest ih =>
    have hidx : x.logindex = w.length + 1 := hF (by simp)
    have hxs : r.lastSnapshotIndex < x.logindex := by omega
    have hF' : Indexed ((w ++ [x]) ++ rest) := by simpa using hF
    have hs' : r.lastSnapshotIndex ≤ (w ++ [x]).length := by simp; omega
    rw [List.map_cons] at hc
    by_cases hx : x.logindex > last
    · obtain ⟨h1, h2⟩ := checkPending_append hxs hx hc
      rcases List.mem_cons.mp he with rfl | he
      · omega
      · have := ih hF' hs' h2 he
        omega
    · rcases List.mem_cons.mp he with rfl | he
      · exact absurd hlast hx
      · have hns : ¬ x.logindex ≤ r.lastSnapshotIndex := by omega
        simp only [checkPending, writeOf, hx, if_false, hns, Bool.false_eq_true] at hc
        split_ifs at hc
        exact ih hF' hs' hc he

/-- The check looks at the last write of a list as it would look at it alone. -/
lemma checkPending_last {snapshot last sim : ℤ} {m : List LogEntry} {e : LogEntry}
    {w : List LogEntry} (hF : Indexed (w ++ (m ++ [e]))) (hs : r.lastSnapshotIndex ≤ w.length)
    (hc : r.checkPending sim ((m ++ [e]).map (writeOf snapshot last)) = none) :
    ∃ sim', r.checkPending sim' [writeOf snapshot last e] = none := by
  induction m generalizing w sim with
  | nil => exact ⟨sim, hc⟩
  | cons x m ih =>
    have hidx : x.logindex = w.length + 1 := hF (by simp)
    have hns : ¬ x.logindex ≤ r.lastSnapshotIndex := by omega
    have hF' : Indexed ((w ++ [x]) ++ (m ++ [e])) := by simpa using hF
    have hs' : r.lastSnapshotIndex ≤ (w ++ [x]).length := by simp; omega
    rw [List.cons_append, List.map_cons] at hc
    by_cases hx : x.logindex > last
    · exact ih hF' hs' (checkPending_append (by omega) hx hc).2
    · simp only [checkPending, writeOf, hx, if_false, hns, Bool.false_eq_true] at hc
      split_ifs at hc
      exact ih hF' hs' hc

/-- When no stale entries are left behind the writes, the node ends up with a log that has the
leader's prefix `w ++ rest`: the one it had if that has the prefix, the prefix itself otherwise. -/
lemma applyPending_merged (h : r.Holds l) (hl : Indexed l) (hM : Matches l F) (hF : Indexed F)
    {snapshot last : ℤ} {w rest : List LogEntry} (hes : w ++ rest <+: F) (hw : w <+: l)
    (hs : r.lastSnapshotIndex ≤ w.length)
    (hc : r.checkPending l.length (rest.map (writeOf snapshot last)) = none)
    (hreq : req.prevlogindex + req.entries.length = (w ++ rest).length)
    (hgood : r.LeavesNoSuffix req (rest.map (writeOf snapshot last))) :
    ∃ l', Merged l (w ++ rest) l' ∧
      { r with logs := (rest.map (writeOf snapshot last)).foldl r.applyPending r.logs }.Holds l' := by
  have ⟨q, hlq, h2, h3⟩ := h
  have hFr : Indexed (w ++ rest) := hF.of_isPrefix hes
  have happly := applyPending_eq (c := r.logs) h hl hFr h2 (by omega) (hlq ▸ hw) (by rw [hlq])
    (by rwa [← hlq])
  rw [← hlq] at happly
  refine ⟨_, ?_, q, happly.symm, h2, h3⟩
  by_cases hP : w ++ rest <+: l
  · have ⟨t, ht⟩ := hP
    refine .inl ⟨hP, ?_⟩
    rw [← ht]
    simp
  · refine .inr ⟨hP, ?_⟩
    suffices hle : l.length ≤ (w ++ rest).length by
      rw [List.drop_eq_nil_of_le hle, List.append_nil]
    have hne : rest ≠ [] := by
      rintro rfl
      exact hP (by simpa using hw)
    obtain ⟨m, e, rfl⟩ := exists_concat hne
    have hidx : e.logindex = (w ++ m).length + 1 := hFr (by simp)
    have hlen : ((w ++ (m ++ [e])).length : ℤ) = e.logindex := by
      rw [hidx]
      simp only [List.length_append, List.length_singleton]
      omega
    by_cases hlast : e.logindex > last
    · have := checkPending_append_index hFr hs hc (by simp) hlast
      omega
    -- the last write replaces an entry, which is of another term
    · by_contra hcon
      obtain ⟨p, old, hp, hplen⟩ := exists_concat_prefix_at (l := l) (k := (w ++ m).length) (by omega)
      have hold : r.logAt e.logindex = .ok old := by
        rw [hidx, ← hplen]
        exact h.logAt_concat hp (by simp at hplen; omega)
      have hterm : old.logterm ≠ e.logterm := by
        intro ht
        rw [hM hp (by simpa using hes : w ++ m ++ [e] <+: F) hplen ht] at hp
        exact hP (by simpa using hp)
      have hmem : writeOf snapshot last e ∈ (m ++ [e]).map (writeOf snapshot last) := by simp
      have hslot : (writeOf snapshot last e).vecIndex = e.logindex - snapshot - 1 := by
        simp [writeOf, hlast]
      obtain ⟨sim, hce⟩ : ∃ sim, r.checkPending sim [writeOf snapshot last e] = none :=
        checkPending_last (w := w) hFr hs hc
      have hse : r.lastSnapshotIndex < e.logindex := by
        rw [hidx, List.length_append]
        omega
      obtain ⟨h1, -, -⟩ := checkPending_replace h hl hse hlast hce
      have := hgood _ hmem (by simp [writeOf, hlast]) old
        (by rw [hslot, h1]; exact (vecGet_eq_ok.mp hold).2) (by simpa using hterm)
      rw [h.getLastLogIndex hl] at this
      omega

end Raft

end KVCacheRaft
