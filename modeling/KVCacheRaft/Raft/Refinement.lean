import KVCacheRaft.Raft.SimSnapshot

/-!
# Runs without failures refine the protocol

`Harmless` is the condition on a step under which the cluster stays an instance of the protocol of
`Consensus`: a replacing write of `AppendEntries` leaves no stale entries behind, and
`InstallSnapshot` keeps entries only behind an entry of the snapshot's term. `sim_run` carries `Sim`
along every run of such steps in which no process crashes and no write of the entries of `Start` fails.
-/

namespace KVCacheRaft
open Consensus

/-- No process crashes. -/
def Action.CrashFree : Action → Prop
  | .restart _ _ => False
  | _ => True

instance : (a : Action) → Decidable a.CrashFree
  | .restart _ _ => inferInstanceAs (Decidable False)
  | .doElection _ | .persistElection _ | .deliver _ | .resume _ _ | .complete _ | .fail _
  | .start _ _ | .onLogStable _ _ | .doHeartBeat _ | .leaderSendSnapShot _ | .applierTicker _
  | .push _ | .snapshot _ _ _ => inferInstanceAs (Decidable True)

/-- No process crashes, and the entries of `Start` reach the disk. -/
def Action.FailureFree : Action → Prop
  | .restart _ _ => False
  | .onLogStable _ ok => ok = true
  | _ => True

instance : (a : Action) → Decidable a.FailureFree
  | .restart _ _ => inferInstanceAs (Decidable False)
  | .onLogStable _ ok => inferInstanceAs (Decidable (ok = true))
  | .doElection _ | .persistElection _ | .deliver _ | .resume _ _ | .complete _ | .fail _
  | .start _ _ | .doHeartBeat _ | .leaderSendSnapShot _ | .applierTicker _ | .push _
  | .snapshot _ _ _ => inferInstanceAs (Decidable True)

instance (r : Raft) (req : AppendEntriesArgs) (pending : List PendingLogWrite) :
    Decidable (r.LeavesNoSuffix req pending) :=
  inferInstanceAs (Decidable (∀ item ∈ pending, item.append = false →
    ∀ old ∈ r.logs[item.vecIndex.toNat]?, old.logterm ≠ item.log.logterm →
      r.getLastLogIndex ≤ req.prevlogindex + req.entries.length))

instance (r : Raft) (args : InstallSnapshotRequest) : Decidable (r.KeepsMatching args) :=
  inferInstanceAs (Decidable (_ → _ → _ → _))

/-- A step without a failure is one without a crash. -/
lemma Action.FailureFree.crashFree {a : Action} (h : a.FailureFree) : a.CrashFree := by
  cases a with
  | restart i logs => exact h.elim
  | _ => trivial

namespace Cluster

variable {s s' t : Cluster} {a : Abstract}

/-- The request of a call does no harm at its callee. -/
def CallHarmless (s : Cluster) (c : Call) : Prop :=
  match c.request with
  | .installSnapshot args => (s.nodes c.callee).KeepsMatching args
  | _ => True

/-- A step after which no stale entries stay in a log. -/
def Harmless (s : Cluster) : Action → Prop
  | .resume k true =>
    ∀ h ∈ s.handlers[k]?, (s.nodes h.node).PassesChecks h.args h.pendingWrites →
      (s.nodes h.node).LeavesNoSuffix h.args h.pendingWrites
  | .deliver id => ∀ c ∈ s.calls[id]?, s.CallHarmless c
  | _ => True

instance (s : Cluster) (c : Call) : Decidable (s.CallHarmless c) := by
  unfold CallHarmless
  split <;> infer_instance

instance (s : Cluster) : (a : Action) → Decidable (s.Harmless a)
  | .resume k true => inferInstanceAs (Decidable (∀ h ∈ s.handlers[k]?, _))
  | .deliver id => inferInstanceAs (Decidable (∀ c ∈ s.calls[id]?, _))
  | .resume _ false | .doElection _ | .persistElection _ | .complete _ | .fail _ | .start _ _
  | .onLogStable _ _ | .doHeartBeat _ | .leaderSendSnapShot _ | .applierTicker _ | .push _
  | .snapshot _ _ _ | .restart _ _ => inferInstanceAs (Decidable True)

/-- The steps of the runs that refine the protocol. -/
def Safe (s : Cluster) (a : Action) : Prop := a.FailureFree ∧ s.Harmless a

instance (s : Cluster) (a : Action) : Decidable (s.Safe a) := inferInstanceAs (Decidable (_ ∧ _))

/-! ### The simulation along a run -/

/-- A fresh cluster simulates the initial state. -/
lemma sim_initial (n : ℕ) : Sim (initial n) State.initial where
  reachable := .initial
  indexed _ := Indexed.nil
  node i := {
    cur := rfl
    holds := ⟨[], rfl, rfl, rfl⟩
    commit := ⟨[], List.nil_prefix, rfl, Settled.nil _ _ _⟩
    snapshot_le := Int.le_refl _
    commit_le := Int.le_refl _
    fresh := fun _ => rfl
    voted := fun _ _ hpos => absurd hpos (Nat.lt_irrefl _)
    leader := fun hs => by cases hs
    acked := fun hs => by cases hs
    candidate := fun hs => by cases hs
    matched := fun hs => by cases hs }
  ballot hb := by cases hb
  call hk := by simp [initial] at hk
  reply hr := by simp [initial] at hr
  handler hw := by simp [initial] at hw
  copied i msg hm := by simp [initial] at hm
  pushed i msg hm := by simp [initial, Raft.init] at hm

/-- A safe step of the cluster is a step, or some, of the protocol. -/
theorem sim_step {x : Action} (w : Wired s) (t : Tally s) (h : Sim s a) (hsafe : s.Safe x)
    (hs : s.step x = some s') : ∃ a', Sim s' a' ∧ Extends a a' := by
  have t' := tally_step w t hs
  cases x with
  | doElection i =>
    simp only [Cluster.step] at hs
    split_ifs at hs with hi
    exact sim_doElection w h hs
  | persistElection i =>
    simp only [Cluster.step] at hs
    split_ifs at hs with hd
    cases hs
    have h' := h.setNode (i := i) (r := (s.nodes i).persistState)
      (.touch h rfl (Int.le_refl _) (.inl rfl))
    exact ⟨a, h'.frame, Extends.refl a⟩
  | deliver id =>
    obtain ⟨c, hc, hd⟩ := deliver_cases hs
    have hharm := hsafe.2 c hc
    cases hd with
    | requestVote hreq => exact sim_requestVote h hc hreq
    | installSnapshot hreq hr =>
      rw [CallHarmless, hreq] at hharm
      exact sim_installSnapshot h hc hreq hharm hr
    | replied hreq hr => exact sim_appendEntries_replied h hc hr
    | unlocked hreq hr => exact sim_appendEntries_unlocked h hc hreq hr
  | resume k stable =>
    obtain ⟨q, r, rep, hq, hr, rfl⟩ := resume_cases hs
    refine sim_resume h hq (fun hst => ?_) hr
    subst hst
    exact hsafe.2 q hq
  | complete k =>
    obtain ⟨id, rep, c, hk, hc, -, hd⟩ := complete_cases hs
    cases hd with
    | requestVote hreq => exact sim_handleRequestVoteResponse w t' h hc hreq rfl
    | appendEntries hreq hr =>
      exact sim_handleAppendEntries w h hc (List.mem_of_getElem? hk) hreq hr
    | installSnapshot hreq => exact sim_leaderSendSnapShotHandler h hc hreq
  | fail id =>
    obtain ⟨c, hc, rfl⟩ := fail_cases hs
    exact ⟨a, h.completed hc, Extends.refl a⟩
  | start i command =>
    simp only [Cluster.step] at hs
    split_ifs at hs with hi
    exact sim_start h hs
  | onLogStable k ok =>
    obtain rfl : ok = true := hsafe.1
    exact sim_onLogStable h hs
  | doHeartBeat i =>
    simp only [Cluster.step] at hs
    split_ifs at hs with hi
    exact sim_doHeartBeat h hs
  | leaderSendSnapShot k => exact sim_leaderSendSnapShot h hs
  | applierTicker i =>
    simp only [Cluster.step] at hs
    split_ifs at hs with hi
    exact sim_applierTicker h hs
  | push i => exact sim_push h hs
  | snapshot i index data =>
    simp only [Cluster.step] at hs
    split_ifs at hs with hi
    exact sim_snapshot h hs
  | restart i logs => exact hsafe.1.elim

/-- Safe runs stay with the protocol, and what is committed stays committed. -/
theorem sim_run (w : Wired s) (t : Tally s) (h : Sim s a) (hr : Run Safe s s') :
    ∃ a', Wired s' ∧ Tally s' ∧ Sim s' a' ∧ Extends a a' ∧ s'.size = s.size := by
  induction hr with
  | refl => exact ⟨a, w, t, h, Extends.refl a, rfl⟩
  | step _ hsafe hs ih =>
    obtain ⟨a₁, w₁, t₁, h₁, g₁, hsize⟩ := ih
    obtain ⟨a₂, h₂, g₂⟩ := sim_step w₁ t₁ h₁ hsafe hs
    have g := step_follows w₁ hs
    exact ⟨a₂, w₁.follows g, tally_step w₁ t₁ hs, h₂, g₁.trans g₂, g.size.trans hsize⟩

/-- Every safe run is simulated. -/
theorem sim_of_run {n : ℕ} (hr : Run Safe (initial n) s) :
    ∃ a, Wired s ∧ Tally s ∧ Sim s a ∧ s.size = n := by
  obtain ⟨a, w, t, h, -, hsize⟩ :=
    sim_run (Wired.initial n) (Tally.initial n) (sim_initial n) hr
  exact ⟨a, w, t, h, hsize⟩

end Cluster

end KVCacheRaft
