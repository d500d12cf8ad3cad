import KVCacheRaft.Raft.Heartbeats
import KVCacheRaft.Raft.Matching
import KVCacheRaft.Wal.Follower

/-!
# Requests that come late

All requests of a leader have parts of one log, which only grows while it leads. A follower that has
handled a later request with success has everything that an earlier one could bring, whatever the
places are where the two begin: the earlier one finds nothing to write, nothing to commit and nothing
to make stable.
-/

namespace KVCacheRaft

open Consensus

namespace Raft

variable {r₁ r₂ r₁' r₂' s u : Raft} {l₁ l₂ : List LogEntry} {m : AppendEntriesArgs}

/-- The requests of `doHeartBeat` have parts of the log that the leader stands for. -/
lemma HeartBeat.sent_whole {l : List LogEntry} (hb : s.HeartBeat m) (h : s.Holds l)
    (hl : Indexed l) : Sent 0 l m := by
  obtain ⟨hle, q, hq, hindex, hterm⟩ := h.termAt hb.prev
  have hnonneg := h.snapshot_nonneg
  have hentries := hb.entries
  rw [h.logs_eq, List.drop_drop, show s.lastSnapshotIndex.toNat +
    (m.prevlogindex - s.lastSnapshotIndex).toNat = (m.prevlogindex - 0).toNat by omega] at hentries
  refine ⟨by omega, ?_, hentries⟩
  obtain rfl | ⟨p, x, rfl⟩ := q.eq_nil_or_concat'
  · exact .inl hindex
  · right
    refine ⟨x, mem_of_concat_prefix hq, ?_, ?_⟩
    · rw [hl hq, hindex, List.length_append, List.length_singleton]
      push_cast
      rfl
    · rw [hterm, lastTerm_concat]

/-- A leader at two moments of its term. -/
structure Later (r₁ r₂ : Raft) (l₁ l₂ : List LogEntry) : Prop where
  holds₁ : r₁.Holds l₁
  holds₂ : r₂.Holds l₂
  indexed : Indexed l₂
  log : l₁ <+: l₂
  term : r₁.currentTerm = r₂.currentTerm
  stable : r₁.stableLogIndex ≤ r₂.stableLogIndex
  commit : r₁.commitIndex ≤ r₂.commitIndex

/-- The earlier request first, and then the later one: the log is that of the later one alone. -/
lemma Handled.logs_eq {m₁ m₂ : AppendEntriesArgs} {base : ℤ} {L : List LogEntry} {u₁ u₂ : Raft}
    (h : s.Handled u m₂) (h₁ : s.Handled u₁ m₁) (h₂ : u₁.Handled u₂ m₂) (hinv : s.IndexInv)
    (hmatch : s.MatchesLog base L) (hL : Aligned base L)
    (hm₁ : Sent base L m₁) (hm₂ : Sent base L m₂)
    (hle : m₁.prevlogindex + m₁.entries.length ≤ m₂.prevlogindex + m₂.entries.length) :
    u₂.logs = u.logs := by
  have hu₂ := h₂.index.aligned
  rw [h₂.snapshotIndex, h₁.snapshotIndex, ← h.snapshotIndex] at hu₂
  refine hu₂.ext h.index.aligned fun x => ?_
  have habove : ∀ x ∈ u₂.logs, s.lastSnapshotIndex < x.logindex := by
    intro x hx
    have := (h₂.index.mem_le_last hx).1
    rwa [h₂.snapshotIndex, h₁.snapshotIndex] at this
  constructor
  · intro hx
    obtain hnew | ⟨hold, hplace⟩ := (h₂.logs x).mp hx
    · exact (h.logs x).mpr (.inl hnew)
    · obtain hearlier | ⟨hold, -⟩ := (h₁.logs x).mp hold
      · have hrange := hm₁.index_of_mem hL hearlier
        exact h.mem_logs hinv hmatch hL hm₂ (hm₁.mem_of_entries hearlier) (habove x hx)
          (Int.le_trans hrange.2 hle)
      · exact (h.logs x).mpr (.inr ⟨hold, hplace⟩)
  · intro hx
    refine (h₂.logs x).mpr ?_
    obtain hnew | ⟨hold, hplace⟩ := (h.logs x).mp hx
    · exact .inl hnew
    · refine .inr ⟨(h₁.logs x).mpr ?_, hplace⟩
      by_cases hbetween : x.logindex ≤ m₁.prevlogindex ∨
        m₁.prevlogindex + m₁.entries.length < x.logindex
      · exact .inr ⟨hold, hbetween⟩
      · -- it is one of the earlier request's
        rw [not_or, Int.not_le, Int.not_lt] at hbetween
        have hbase := hm₁.base_le
        have hmem := hmatch.mem_of_prev hinv hm₂ h.prev hold (by omega) (by omega)
        exact .inl (hm₁.mem_entries hL hmem hbetween.1 hbetween.2)

/-- The commit index is that of the later request too. -/
lemma Handled.commit_eq {m₁ m₂ : AppendEntriesArgs} {base : ℤ} {L : List LogEntry} {u₁ u₂ : Raft}
    (h : s.Handled u m₂) (h₁ : s.Handled u₁ m₁) (h₂ : u₁.Handled u₂ m₂) (hinv : s.IndexInv)
    (hL : Aligned base L) (hm₁ : Sent base L m₁) (hm₂ : Sent base L m₂) (hlogs : u₂.logs = u.logs)
    (hcommit : m₁.leadercommit ≤ m₂.leadercommit) : u₂.commitIndex = u.commitIndex := by
  have hlast : u₂.getLastLogIndex = u.getLastLogIndex := by
    rw [getLastLogIndex, getLastLogIndex, hlogs, h₂.snapshotIndex, h₁.snapshotIndex,
      h.snapshotIndex]
  have hlast₁ := h₁.last_eq hinv hL hm₁
  have hlast₂ := h₂.last_eq h₁.index hL hm₂
  have hc := h.commit
  have hc₁ := h₁.commit
  have hc₂ := h₂.commit
  split_ifs at hc hc₁ hc₂ <;> omega

end Raft

namespace Wal

/-- To save the same index again compacts nothing. -/
lemma save_save (w : Wal) (snapshotIndex : ℕ) :
    (w.save snapshotIndex).save snapshotIndex = w.save snapshotIndex := by
  obtain ⟨v, hv⟩ : ∃ v, v = w.save snapshotIndex := ⟨_, rfl⟩
  rw [← hv]
  have hle : snapshotIndex ≤ v.compactedSnapshotIndex := by
    rw [hv, save]
    split_ifs with hgt
    · exact Nat.le_refl _
    · exact Nat.not_lt.mp hgt
  rw [save, if_neg (Nat.not_lt.mpr hle)]

end Wal

namespace Follower

variable {f g : Follower} {m : AppendEntriesArgs} {reply : AppendEntriesReply}

/-- The log in memory, its indices and the log on disk are the same. -/
structure SameLog (f g : Follower) : Prop where
  logs : g.node.logs = f.node.logs
  commit : g.node.commitIndex = f.node.commitIndex
  stable : g.node.stableLogIndex = f.node.stableLogIndex
  wal : g.wal = f.wal

/-- A request handled with success. -/
lemma handled_of_handle {base : ℤ} {L : List LogEntry} (hinv : f.node.IndexInv)
    (hmatch : f.node.MatchesLog base L)
    (hL : Aligned base L) (hm : Sent base L m) (hs : f.handle m = .ok (g, reply))
    (hsuccess : reply.success = true) :
    f.node.Handled g.node m ∧ g.wal.save g.node.lastSnapshotIndex.toNat = g.wal := by
  obtain ⟨⟨t, phase⟩, hnode, hs⟩ := bind_eq_ok.mp hs
  cases phase with
  | replied reply' =>
    have hreply : reply' = reply := by
      simp only at hs
      split_ifs at hs
      · exact (Prod.mk.inj (pure_eq_ok.mp hs)).2
      · exact (Prod.mk.inj (pure_eq_ok.mp hs)).2
    obtain ⟨-, -, hphase⟩ | ⟨-, -, hint, hphase⟩ | ⟨-, -, -, -, writes, -, hphase⟩ :=
      Raft.appendEntries_cases hnode
    · rw [← hreply, AppendPhase.replied.inj hphase] at hsuccess
      cases hsuccess
    · rw [← hreply, AppendPhase.replied.inj hphase] at hsuccess
      cases hsuccess
    · cases hphase
  | unlocked pending =>
    obtain ⟨⟨u, reply'⟩, hstable, hs⟩ := bind_eq_ok.mp hs
    obtain ⟨rfl, rfl⟩ := Prod.mk.inj (pure_eq_ok.mp hs)
    have hhandled := Raft.handled_of_success hinv hmatch hL hm hnode hstable hsuccess
    refine ⟨hhandled, ?_⟩
    show ((Wal.save _ u.fmp.snapshot_index.toNat).save u.lastSnapshotIndex.toNat) = _
    rw [hhandled.stored, hhandled.snapshotIndex]
    exact Wal.save_save _ _

/-- A request that brings nothing new changes nothing, whether it is accepted or not. -/
lemma handle_of_mem (hinv : f.node.IndexInv)
    (hsaved : f.wal.save f.node.lastSnapshotIndex.toNat = f.wal)
    (hmem : ∀ e ∈ m.entries, f.node.lastSnapshotIndex < e.logindex → e ∈ f.node.logs)
    (hcommit : m.leadercommit ≤ f.node.commitIndex ∨ f.node.commitIndex = f.node.getLastLogIndex)
    (hstable : f.node.getLastLogIndex ≤ f.node.stableLogIndex) :
    ∃ g reply, f.handle m = .ok (g, reply) ∧ f.SameLog g := by
  have hexit : ∀ e ∈ m.entries, ∀ old ∈ f.node.logs, old.logindex = e.logindex →
      old.logterm = e.logterm → old = e := by
    intro e he old hold hindex _
    have habove := (hinv.mem_le_last hold).1
    exact Raft.eq_of_aligned hinv.aligned hold (hmem e he (by omega)) hindex
  obtain ⟨t, phase, hnode⟩ := Raft.appendEntries_ok hinv hexit
  rw [handle, hnode]
  obtain ⟨hlt, rfl, rfl⟩ | ⟨hle, rfl, hint, rfl⟩ | ⟨hle, rfl, hsnap, hprev, pending, hpending, rfl⟩ :=
    Raft.appendEntries_cases hnode
  · simp only [bind, Except.bind, if_pos hlt]
    exact ⟨_, _, rfl, rfl, rfl, rfl, rfl⟩
  · have hacc := f.node.accepted_acceptTerm hle
    simp only [bind, Except.bind, if_neg (Nat.not_lt.mpr hle)]
    refine ⟨_, _, rfl, hacc.logs, hacc.commit, hacc.stable, ?_⟩
    show f.wal.save (f.node.acceptTerm m.term).lastSnapshotIndex.toNat = f.wal
    rw [hacc.snapshotIndex]
    exact hsaved
  · have hacc := f.node.accepted_acceptTerm hle
    have hinv' := hinv.acceptTerm m.term
    obtain ⟨t, ht⟩ : ∃ t, t = f.node.acceptTerm m.term := ⟨_, rfl⟩
    rw [← ht] at hacc hinv' hsnap hprev hpending ⊢
    have hnone : t.newEntries m.entries = [] := by
      refine Raft.newEntries_of_mem hinv' ?_
      rw [hacc.snapshotIndex, hacc.logs]
      exact hmem
    obtain rfl : pending = [] := by
      rw [Raft.pendingWrites_newEntries hinv'.aligned hpending, hnone]
      rfl
    have hcheck : t.checkPending t.getLastLogIndex [] = none := rfl
    obtain ⟨u, reply, happly, -⟩ := hinv'.applyEntries m hcheck
    have hsecond := (hinv'.appendEntriesStable_eq hacc.term hsnap hprev rfl).trans happly
    obtain ⟨logs, last, hlogs, hlast, rfl, -, -⟩ := Raft.applyEntries_cases happly
    obtain rfl : logs = t.logs := hlogs
    have hlast' : last = f.node.getLastLogIndex := by
      rw [hlast, Raft.getLastLogIndex, Raft.getLastLogIndex, hacc.logs]
      simp only [hacc.snapshotIndex]
    have hstable' := hacc.stable
    have hcommit' := hacc.commit
    simp only [bind, Except.bind, hsecond]
    refine ⟨_, _, rfl, hacc.logs, ?_, ?_, ?_⟩
    · show (if m.leadercommit > t.commitIndex then min m.leadercommit last else t.commitIndex) = _
      split_ifs <;> omega
    · show max t.stableLogIndex last = _
      omega
    · show f.wal.save t.lastSnapshotIndex.toNat = f.wal
      rw [hacc.snapshotIndex]
      exact hsaved

variable {r₁ r₂ r₁' r₂' : Raft} {l₁ l₂ : List LogEntry} {i : ℕ} {m₁ m₂ : AppendEntriesArgs}
  {requests₁ requests₂ : List (ℕ × AppendEntriesArgs)} {snapshots₁ snapshots₂ : List ℕ}

/-- A request that comes after a later one of the same leader, or once more, changes nothing; and if it
comes before, it makes no difference. -/
theorem handle_late (hlater : r₁.Later r₂ l₁ l₂)
    (hs₁ : r₁.heartBeatPeers r₁.others = .ok (r₁', requests₁, snapshots₁))
    (hs₂ : r₂.heartBeatPeers r₂.others = .ok (r₂', requests₂, snapshots₂))
    (hi₁ : (i, m₁) ∈ requests₁) (hi₂ : (i, m₂) ∈ requests₂) (hinv : f.node.IndexInv)
    (hmatch : f.node.MatchesLog 0 l₂) (hs : f.handle m₂ = .ok (g, reply)) (hsuccess : reply.success = true) :
    (∀ m ∈ [m₁, m₂], ∃ g' reply', g.handle m = .ok (g', reply') ∧ g.SameLog g') ∧
      ∀ {f₁ f₂ : Follower} {reply₁ reply₂ : AppendEntriesReply},
        f.handle m₁ = .ok (f₁, reply₁) → reply₁.success = true →
        f₁.handle m₂ = .ok (f₂, reply₂) → reply₂.success = true →
        f₂.node.logs = g.node.logs ∧ f₂.node.commitIndex = g.node.commitIndex := by
  have hb₁ := ((Raft.heartBeatPeers_cases hs₁).2.1 i m₁ hi₁).2
  have hb₂ := ((Raft.heartBeatPeers_cases hs₂).2.1 i m₂ hi₂).2
  have hm₁ := (hb₁.sent_whole hlater.holds₁ (hlater.indexed.of_isPrefix hlater.log)).mono hlater.log
  have hm₂ := hb₂.sent_whole hlater.holds₂ hlater.indexed
  have hL := hlater.indexed.aligned
  have hle : m₁.prevlogindex + m₁.entries.length ≤ m₂.prevlogindex + m₂.entries.length := by
    rw [hb₁.length, hb₂.length]
    exact hlater.stable
  have hcommit : m₁.leadercommit ≤ m₂.leadercommit := by
    rw [hb₁.leadercommit, hb₂.leadercommit]
    exact hlater.commit
  obtain ⟨h, hsaved⟩ := handled_of_handle hinv hmatch hL hm₂ hs hsuccess
  refine ⟨fun m hm => ?_, fun hf₁ hsuccess₁ hf₂ hsuccess₂ => ?_⟩
  · -- of both requests the follower has all entries, and has committed what it can
    have hm' : Sent 0 l₂ m ∧ m.prevlogindex + m.entries.length ≤
        m₂.prevlogindex + m₂.entries.length ∧ m.leadercommit ≤ m₂.leadercommit := by
      obtain rfl | hm := List.mem_cons.mp hm
      · exact ⟨hm₁, hle, hcommit⟩
      · obtain rfl := List.mem_singleton.mp hm
        exact ⟨hm₂, Int.le_refl _, Int.le_refl _⟩
    refine handle_of_mem h.index hsaved (fun e he habove => ?_) ?_ ?_
    · rw [h.snapshotIndex] at habove
      exact h.mem_logs hinv hmatch hL hm₂ (hm'.1.mem_of_entries he) habove
        (Int.le_trans (hm'.1.index_of_mem hL he).2 hm'.2.1)
    · have hc := h.commit
      split_ifs at hc <;> omega
    · rw [h.stable]
      exact Int.le_max_right _ _
  · obtain ⟨h₁, -⟩ := handled_of_handle hinv hmatch hL hm₁ hf₁ hsuccess₁
    have hmatch₁ := h₁.matchesLog hinv hmatch hL hm₁
    obtain ⟨h₂, -⟩ := handled_of_handle h₁.index hmatch₁ hL hm₂ hf₂ hsuccess₂
    have hlogs := h.logs_eq h₁ h₂ hinv hmatch hL hm₁ hm₂ hle
    exact ⟨hlogs, h.commit_eq h₁ h₂ hinv hL hm₁ hm₂ hlogs hcommit⟩

/-- A leader of term 1 that has these entries, and whose peers have none. -/
def leading (logs : List LogEntry) (stable commit : ℤ) : Raft :=
  { Raft.init 0 3 { term := 1 } [] logs with
    state := .leader
    stableLogIndex := stable
    commitIndex := commit
    nextIndex := fun _ => 1 }

/-- The request with one entry comes after the request with two. -/
theorem handle_late_twoRequests :
    ∃ g reply, (initial 1 3).handle ⟨1, 0, 0, 0, [⟨[1], 1, 1⟩, ⟨[2], 1, 2⟩], 1⟩ = .ok (g, reply) ∧
      ∃ g' reply', g.handle ⟨1, 0, 0, 0, [⟨[1], 1, 1⟩], 0⟩ = .ok (g', reply') ∧ g.SameLog g' := by
  obtain ⟨⟨g, reply⟩, hg⟩ := Option.isSome_iff_exists.mp
    (by decide : ((initial 1 3).handle
      ⟨1, 0, 0, 0, [⟨[1], 1, 1⟩, ⟨[2], 1, 2⟩], 1⟩).toOption.isSome)
  have hsuccess : ∀ p ∈ ((initial 1 3).handle
      ⟨1, 0, 0, 0, [⟨[1], 1, 1⟩, ⟨[2], 1, 2⟩], 1⟩).toOption, p.2.success = true := by decide
  have hindexed : Indexed [(⟨[1], 1, 1⟩ : LogEntry), ⟨[2], 1, 2⟩] :=
    (Indexed.nil.concat (e := ⟨[1], 1, 1⟩) rfl).concat (e := ⟨[2], 1, 2⟩) rfl
  have hlater : (leading [⟨[1], 1, 1⟩] 1 0).Later (leading [⟨[1], 1, 1⟩, ⟨[2], 1, 2⟩] 2 1)
      [⟨[1], 1, 1⟩] [⟨[1], 1, 1⟩, ⟨[2], 1, 2⟩] :=
    ⟨⟨[], rfl, rfl, rfl⟩, ⟨[], rfl, rfl, rfl⟩, hindexed, ⟨[⟨[2], 1, 2⟩], rfl⟩, rfl, by decide,
      by decide⟩
  have hmatch : (initial 1 3).node.MatchesLog 0 [⟨[1], 1, 1⟩, ⟨[2], 1, 2⟩] := fun _ he => by cases he
  have hlate := handle_late hlater rfl rfl (i := 1) List.mem_cons_self List.mem_cons_self
    (Raft.indexInv_init 1 3) hmatch (toOption_eq_some.mp hg) (hsuccess _ hg)
  exact ⟨g, reply, toOption_eq_some.mp hg, hlate.1 _ List.mem_cons_self⟩

end Follower

end KVCacheRaft
