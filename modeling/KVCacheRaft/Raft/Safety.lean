import KVCacheRaft.Raft.Refinement

/-!
# Safety of crash-free runs

State machine safety, leader completeness and log matching. All three hold in every state of a run of
safe steps, since such a run refines the protocol of `Consensus`, and all three fail in the run
`staleSuffix`, where an overwritten entry leaves the entries of an old leader behind it.
-/

namespace KVCacheRaft
open Consensus

/-- A run of five nodes. Node `0`, leader of term `1`, logs two entries and reaches node `4` with
them; node `1`, leader of term `2`, overwrites the first entry of node `0` and commits its own; node
`0` still ends in an entry of term `1`, votes for node `4`, which then leads in term `3` without the
committed entry. -/
def staleSuffix : List Action :=
  [.doElection 0, .deliver 0, .deliver 1, .deliver 2, .complete 1, .complete 2,
    .start 0 [1], .start 0 [2], .onLogStable 0 true, .onLogStable 0 true,
    .doHeartBeat 0, .deliver 7, .resume 0 true,
    .doElection 1, .deliver 9, .deliver 10, .deliver 11, .complete 4, .complete 5,
    .start 1 [3], .onLogStable 0 true,
    .doHeartBeat 1, .deliver 12, .resume 0 true, .deliver 13, .resume 0 true,
    .complete 7, .complete 8, .applierTicker 1, .push 1,
    .doElection 4, .deliver 16, .deliver 19, .complete 9, .complete 10,
    .start 4 [4], .onLogStable 0 true,
    .doHeartBeat 4, .deliver 20, .resume 0 true, .complete 11, .deliver 23, .complete 12,
    .doHeartBeat 4, .deliver 27, .resume 0 true, .complete 13,
    .applierTicker 4, .push 4, .push 4, .push 4]

/-- A run of three nodes: an election, a command that is replicated, committed and applied by two
nodes, and a leader of the next term. -/
def replicated : List Action :=
  [.doElection 0, .persistElection 0, .deliver 0, .complete 0,
    .start 0 [7], .onLogStable 0 true, .doHeartBeat 0, .deliver 2, .resume 0 true, .complete 1,
    .applierTicker 0, .push 0, .doHeartBeat 0, .deliver 4, .resume 0 true, .applierTicker 1, .push 1,
    .doElection 1, .deliver 7, .complete 3]

namespace Cluster

/-- The steps of a run without a restart. -/
def CrashFree (_ : Cluster) (a : Action) : Prop := a.CrashFree

instance (s : Cluster) (a : Action) : Decidable (s.CrashFree a) :=
  inferInstanceAs (Decidable a.CrashFree)

/-- The steps of a run without a restart in which the entries of `Start` reach the disk. -/
def FailureFree (_ : Cluster) (a : Action) : Prop := a.FailureFree

instance (s : Cluster) (a : Action) : Decidable (s.FailureFree a) :=
  inferInstanceAs (Decidable a.FailureFree)

variable {n : ℕ} {s s' t : Cluster}

/-! ### State machine safety -/

/-- No two nodes push different commands under one index. -/
def AppliesAgree (s : Cluster) : Prop :=
  ∀ i j, ∀ m ∈ (s.nodes i).applyChan, ∀ m' ∈ (s.nodes j).applyChan,
    m.CommandValid = true → m'.CommandValid = true → m.CommandIndex = m'.CommandIndex →
    m.Command = m'.Command

/-- What two nodes may apply under one index is the same command. -/
lemma Applies.agree {a : Abstract} (hinv : Inv (majority n) LogEntry.logterm a) {U V : ℕ}
    {m m' : ApplyMsg} (h : Applies n a U m) (h' : Applies n a V m')
    (hidx : m.CommandIndex = m'.CommandIndex) : m.Command = m'.Command := by
  obtain ⟨p, e, hs, h1, h2⟩ := h
  obtain ⟨q, x, hs', h1', h2'⟩ := h'
  have hlen : (p ++ [e]).length = (q ++ [x]).length := by
    simp only [List.length_append, List.length_singleton]
    omega
  have hp := hs.resolve_left (by simp)
  have hq := hs'.resolve_left (by simp)
  have heq := (hinv.committed_agree hp hq hlen.le).eq_of_length hlen
  obtain ⟨-, hex⟩ := List.append_inj' heq rfl
  cases hex
  rw [h2, h2']

/-- In every safe run no two nodes push different commands under one index. -/
theorem applies_agree (hr : Run Safe (initial n) s) : AppliesAgree s := by
  obtain ⟨a, -, -, h, -⟩ := sim_of_run hr
  intro i j m hm m' hm' hv hv' hidx
  exact Applies.agree h.reachable.inv (h.pushed i m hm hv) (h.pushed j m' hm' hv') hidx

set_option maxRecDepth 10000 in
/-- One command is committed and pushed by two nodes. -/
theorem applies_agree_replicated :
    ∃ s ∈ (initial 3).runIf Safe replicated, AppliesAgree s ∧
      (s.nodes 0).applyChan = [{ CommandValid := true, Command := [7], CommandIndex := 1 }] ∧
      (s.nodes 1).applyChan = (s.nodes 0).applyChan := by
  have h : ∃ s ∈ (initial 3).runIf Safe replicated,
      (s.nodes 0).applyChan = [{ CommandValid := true, Command := [7], CommandIndex := 1 }] ∧
      (s.nodes 1).applyChan = (s.nodes 0).applyChan := by decide
  obtain ⟨s, hs, hrest⟩ := h
  exact ⟨s, hs, applies_agree (run_of_runIf hs), hrest⟩

set_option maxRecDepth 10000 in
/-- Without the condition two nodes push different commands. -/
theorem not_applies_agree_staleSuffix :
    ∃ s, Run FailureFree (initial 5) s ∧ ¬ AppliesAgree s := by
  have h : ∃ s ∈ (initial 5).runIf FailureFree staleSuffix,
      ∃ m ∈ (s.nodes 1).applyChan, ∃ m' ∈ (s.nodes 4).applyChan,
        m.CommandValid = true ∧ m'.CommandValid = true ∧ m.CommandIndex = m'.CommandIndex ∧
        m.Command ≠ m'.Command := by decide
  obtain ⟨s, hs, m, hm, m', hm', h1, h2, h3, h4⟩ := h
  exact ⟨s, run_of_runIf hs, fun hall => h4 (hall 1 4 m hm m' hm' h1 h2 h3)⟩

/-! ### Leader completeness -/

/-- A reply makes `advanceCommitIndex` of node `i`, leader of term `T`, move the commit index to or
beyond its entry `e` at `index`. -/
structure Commits (s s' : Cluster) (i T : ℕ) (index : ℤ) (e : LogEntry) : Prop where
  complete : ∃ k, s.step (.complete k) = some s'
  leader : (s'.nodes i).state = .leader
  term : (s'.nodes i).currentTerm = T
  advanced : (s.nodes i).commitIndex < (s'.nodes i).commitIndex
  covers : index ≤ (s'.nodes i).commitIndex
  entry : (s'.nodes i).logAt index = .ok e

/-- A leader of a term after `T` has the entry, or has it below its snapshot. -/
def LeadersHave (s : Cluster) (T : ℕ) (index : ℤ) (e : LogEntry) : Prop :=
  ∀ j, (s.nodes j).state = .leader → T < (s.nodes j).currentTerm →
    (s.nodes j).logAt index = .ok e ∨ index ≤ (s.nodes j).lastSnapshotIndex

/-- In every safe run every later leader has what was committed. -/
theorem leaders_have {i T : ℕ} {index : ℤ} {e : LogEntry} (hr : Run Safe (initial n) s)
    (hc : Commits s s' i T index e) (ht : Run Safe s' t) : LeadersHave t T index e := by
  obtain ⟨k, hk⟩ := hc.complete
  have hsafe : s.Safe (.complete k) := ⟨trivial, trivial⟩
  obtain ⟨a, w, ta, h, -⟩ := sim_of_run (hr.step hsafe hk)
  obtain ⟨b, -, -, h', g, hsize⟩ := sim_run w ta h ht
  -- the entry ends a settled prefix of the log of node `i`
  have hn := h.node i
  obtain ⟨-, q, hq, hidx⟩ := hn.holds.logAt hc.entry
  obtain ⟨v, h1, h2, h3⟩ := hn.commit
  have hcov := hc.covers
  have hqv : q ++ [e] <+: v := prefix_of_le hq h1 (by
    simp only [List.length_append, List.length_singleton]
    omega)
  have hset : Settled t.size b T (q ++ [e]) := by
    rw [hsize]
    exact h3.mono g (by rw [← hn.cur, hc.term]) hqv
  intro j hj hT
  have hn' := h'.node j
  have hqj : q ++ [e] <+: b.log j := by
    have := Settled.full h'.reachable.inv
      (hset.mono (Extends.refl b) (hn'.cur ▸ hT.le) List.prefix_rfl) (hn'.leader hj)
    rwa [h'.leader_full hj] at this
  by_cases hs : (t.nodes j).lastSnapshotIndex ≤ q.length
  · exact .inl (hidx ▸ hn'.holds.logAt_concat hqj hs)
  · exact .inr (by omega)

set_option maxRecDepth 10000 in
/-- Node `0` commits in term 1, and node `1` leads in term 2 with the entry. -/
theorem leaders_have_replicated :
    ∃ s t, Commits s t 0 1 1 { command := [7], logterm := 1, logindex := 1 } ∧
      ∃ u ∈ t.runIf Safe (replicated.drop 10), (u.nodes 1).state = .leader ∧
        (u.nodes 1).currentTerm = 2 ∧
        LeadersHave u 1 1 { command := [7], logterm := 1, logindex := 1 } := by
  have h : ∃ s ∈ (initial 3).runIf Safe (replicated.take 9), ∃ t ∈ s.step (.complete 1),
      ((t.nodes 0).state = .leader ∧ (t.nodes 0).currentTerm = 1 ∧
        (s.nodes 0).commitIndex < (t.nodes 0).commitIndex ∧ 1 ≤ (t.nodes 0).commitIndex ∧
        (t.nodes 0).logAt 1 = .ok { command := [7], logterm := 1, logindex := 1 }) ∧
      ∃ u ∈ t.runIf Safe (replicated.drop 10), (u.nodes 1).state = .leader ∧
        (u.nodes 1).currentTerm = 2 := by decide
  obtain ⟨s, hs, t, ht, ⟨h1, h2, h3, h4, h5⟩, u, hu, h6, h7⟩ := h
  have hc : Commits s t 0 1 1 { command := [7], logterm := 1, logindex := 1 } :=
    ⟨⟨1, ht⟩, h1, h2, h3, h4, h5⟩
  exact ⟨s, t, hc, u, hu, h6, h7, leaders_have (run_of_runIf hs) hc (run_of_runIf hu)⟩

set_option maxRecDepth 10000 in
/-- Without the condition a later leader does not have it. -/
theorem not_leaders_have_staleSuffix :
    ∃ s s' t e, Run FailureFree (initial 5) s ∧ Commits s s' 1 2 1 e ∧ Run FailureFree s' t ∧
      ¬ LeadersHave t 2 1 e := by
  have h : ∃ s ∈ (initial 5).runIf FailureFree (staleSuffix.take 27), ∃ t ∈ s.step (.complete 8),
      ((t.nodes 1).state = .leader ∧ (t.nodes 1).currentTerm = 2 ∧
        (s.nodes 1).commitIndex < (t.nodes 1).commitIndex ∧ 1 ≤ (t.nodes 1).commitIndex ∧
        (t.nodes 1).logAt 1 = .ok { command := [3], logterm := 2, logindex := 1 }) ∧
      ∃ u ∈ t.runIf FailureFree ((staleSuffix.drop 28).take 7), (u.nodes 4).state = .leader ∧
        2 < (u.nodes 4).currentTerm ∧
        (u.nodes 4).logAt 1 = .ok { command := [1], logterm := 1, logindex := 1 } ∧
        (u.nodes 4).lastSnapshotIndex = 0 := by decide
  obtain ⟨s, hs, t, ht, ⟨h1, h2, h3, h4, h5⟩, u, hu, h6, h7, h8, h9⟩ := h
  refine ⟨s, t, u, _, run_of_runIf hs, ⟨⟨8, ht⟩, h1, h2, h3, h4, h5⟩, run_of_runIf hu, ?_⟩
  intro hall
  rcases hall 4 h6 h7 with hat | hsnap
  · rw [h8] at hat
    cases hat
  · omega

/-! ### Log matching -/

/-- Entries of one index and term on two nodes have the same command, and the logs agree below. -/
def LogsMatch (s : Cluster) : Prop :=
  ∀ i j, ∀ e ∈ (s.nodes i).logs, ∀ x ∈ (s.nodes j).logs,
    e.logindex = x.logindex → e.logterm = x.logterm →
    e.command = x.command ∧ ∀ e' ∈ (s.nodes i).logs, ∀ x' ∈ (s.nodes j).logs,
      e'.logindex < e.logindex → e'.logindex = x'.logindex → e' = x'

/-- No request that can arrive makes `AppendEntries` call `exit(-1)`. -/
def NeverExits (s : Cluster) : Prop :=
  ∀ c ∈ s.calls, ∀ args, c.request = .appendEntries args →
    (s.nodes c.callee).appendEntries args ≠ .error .exit

/-- An entry of `m_logs` stands at its index in the whole log. -/
lemma exists_prefix_of_mem {a : Abstract} {i : ℕ} {e : LogEntry} (h : Sim s a)
    (he : e ∈ (s.nodes i).logs) : ∃ p, p ++ [e] <+: a.log i ∧ e.logindex = p.length + 1 := by
  obtain ⟨p, hl, -, -⟩ := (h.node i).holds
  obtain ⟨q, hq⟩ := exists_concat_prefix (hl ▸ List.mem_append_right p he)
  exact ⟨q, hq, h.indexed_log i hq⟩

/-- In every safe run logs that share an entry are the same up to it, and no node exits. -/
theorem logs_match (hr : Run Safe (initial n) s) : LogsMatch s ∧ NeverExits s := by
  obtain ⟨a, w, -, h, -⟩ := sim_of_run hr
  have hinv := h.reachable.inv
  constructor
  · intro i j e he x hx hidx hterm
    obtain ⟨p, hp, hpi⟩ := exists_prefix_of_mem h he
    obtain ⟨q, hq, hqi⟩ := exists_prefix_of_mem h hx
    have heq := Inv.matching (hinv.rooted_log i) (hinv.rooted_log j) hp hq (by omega) hterm
    obtain ⟨-, hex⟩ := List.append_inj' heq rfl
    refine ⟨by cases hex; rfl, fun e' he' x' hx' hlt hidx' => ?_⟩
    -- both entries lie in the common prefix that ends in `e`
    obtain ⟨p', hp', hpi'⟩ := exists_prefix_of_mem h he'
    obtain ⟨q', hq', hqi'⟩ := exists_prefix_of_mem h hx'
    have h1 : p' ++ [e'] <+: p ++ [e] := prefix_of_le hp' hp (by
      simp only [List.length_append, List.length_singleton]
      omega)
    have h2 : q' ++ [x'] <+: p ++ [e] := heq ▸ prefix_of_le hq' hq (by
      simp only [List.length_append, List.length_singleton]
      omega)
    have heq' := prefix_eq h1 h2 (by
      simp only [List.length_append, List.length_singleton]
      omega)
    obtain ⟨-, hex'⟩ := List.append_inj' heq' rfl
    cases hex'
    rfl
  · intro c hc args hreq hexit
    obtain ⟨k, hk⟩ := List.getElem?_of_mem hc
    obtain ⟨ht, hw⟩ := Raft.appendEntries_exit hexit
    have ha : AppendSim s.size a c.caller args := by
      have := h.call hk
      rwa [CallSim, hreq] at this
    have hn := h.node c.callee
    have hholds : ((s.nodes c.callee).acceptTerm args.term).Holds (a.log c.callee) := by
      rw [Raft.acceptTerm_eq]
      exact hn.holds.congr rfl rfl rfl
    obtain ⟨p, v, h1, -, h2, h3, -⟩ := append_prefix h hholds ha ht
    rw [hholds.getLastLogIndex (h.indexed_log _)] at hw
    obtain ⟨m, rest, -, -, hok⟩ := Raft.pendingWrites_eq hholds (h.matches c.callee args.term)
      (h.indexed _) h2 h1 h3
    rw [hw] at hok
    cases hok

set_option maxRecDepth 10000 in
/-- Two nodes hold the same entry. -/
theorem logs_match_replicated :
    ∃ s ∈ (initial 3).runIf Safe replicated, LogsMatch s ∧ NeverExits s ∧
      (s.nodes 0).logs = [{ command := [7], logterm := 1, logindex := 1 }] ∧
      (s.nodes 1).logs = (s.nodes 0).logs := by
  have h : ∃ s ∈ (initial 3).runIf Safe replicated,
      (s.nodes 0).logs = [{ command := [7], logterm := 1, logindex := 1 }] ∧
      (s.nodes 1).logs = (s.nodes 0).logs := by decide
  obtain ⟨s, hs, hrest⟩ := h
  have hm := logs_match (run_of_runIf hs)
  exact ⟨s, hs, hm.1, hm.2, hrest⟩

set_option maxRecDepth 10000 in
/-- Without the condition logs share an entry and differ below it. -/
theorem not_logs_match_staleSuffix :
    ∃ s, Run FailureFree (initial 5) s ∧ ¬ LogsMatch s := by
  have h : ∃ s ∈ (initial 5).runIf FailureFree (staleSuffix.take 24),
      ∃ e ∈ (s.nodes 0).logs, ∃ x ∈ (s.nodes 4).logs,
        (e.logindex = x.logindex ∧ e.logterm = x.logterm) ∧
        ∃ e' ∈ (s.nodes 0).logs, ∃ x' ∈ (s.nodes 4).logs,
          e'.logindex < e.logindex ∧ e'.logindex = x'.logindex ∧ e' ≠ x' := by decide
  obtain ⟨s, hs, e, he, x, hx, ⟨h1, h2⟩, e', he', x', hx', h3, h4, h5⟩ := h
  exact ⟨s, run_of_runIf hs, fun hall => h5 ((hall 0 4 e he x hx h1 h2).2 e' he' x' hx' h3 h4)⟩

end Cluster

end KVCacheRaft
