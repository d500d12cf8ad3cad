import KVCacheRaft.Raft.Bounds
import KVCacheRaft.Raft.Commit
import KVCacheRaft.Raft.Final
import KVCacheRaft.Raft.Rounds

/-!
# A majority can commit

From every state of a safe run the nodes of a majority can commit any command, whatever was lost before
and without the other nodes: one of them is elected, starts the command, and brings its log to the others
round by round.
-/

namespace KVCacheRaft
open Consensus

namespace Cluster

variable {s t u : Cluster} {c d i j n : ℕ} {M : Finset ℕ}

/-! ### The election -/

/-- A step of an election is safe. -/
lemma Canvass.safe {a : Action} (h : Canvass M s a) : s.Safe a := by
  cases a with
  | doElection i => exact ⟨trivial, trivial⟩
  | persistElection i => exact ⟨trivial, trivial⟩
  | deliver id =>
    obtain ⟨c, args, e, hc, hrequest, -⟩ := h
    refine ⟨trivial, fun c' hc' => ?_⟩
    obtain rfl := Option.some.inj (hc.symm.trans hc')
    rw [CallHarmless, hrequest]
    exact trivial
  | complete k => exact ⟨trivial, trivial⟩
  | _ => exact h.elim

/-- A step of an election is one of the members'. -/
lemma Canvass.within {a : Action} (h : Canvass M s a) : Within M s a := by
  cases a with
  | doElection i => exact h
  | persistElection i => exact h
  | deliver id =>
    obtain ⟨c, args, e, hc, -, hcaller, hcallee⟩ := h
    exact ⟨c, hc, hcaller, hcallee⟩
  | complete k =>
    obtain ⟨id, rep, c, args, e, hk, hc, -, hcaller, hcallee⟩ := h
    exact ⟨id, rep, c, hk, hc, hcaller, hcallee⟩
  | _ => exact h.elim

end Cluster

namespace Raft

variable {r r' : Raft}

/-- An election leaves the log and what is applied of it. -/
structure KeepsLog (r r' : Raft) : Prop where
  logs : r'.logs = r.logs
  snapshotIndex : r'.lastSnapshotIndex = r.lastSnapshotIndex
  snapshotTerm : r'.lastSnapshotTerm = r.lastSnapshotTerm
  applied : r'.lastApplied = r.lastApplied

/-- A node may stay as it is. -/
lemma KeepsLog.refl (r : Raft) : r.KeepsLog r := ⟨rfl, rfl, rfl, rfl⟩

/-- Keeping the log is transitive. -/
lemma KeepsLog.trans {t : Raft} (h : r.KeepsLog r') (h' : r'.KeepsLog t) : r.KeepsLog t :=
  ⟨h'.logs.trans h.logs, h'.snapshotIndex.trans h.snapshotIndex, h'.snapshotTerm.trans h.snapshotTerm,
    h'.applied.trans h.applied⟩

/-- A kept log has its last index. -/
lemma KeepsLog.last (h : r.KeepsLog r') : r'.getLastLogIndex = r.getLastLogIndex := by
  rw [getLastLogIndex, getLastLogIndex, h.logs, h.snapshotIndex]

/-- A kept log has its position. -/
lemma KeepsLog.position (h : r.KeepsLog r') : r'.position = r.position := by
  rw [Raft.position, Raft.position, h.last, getLastLogTerm, getLastLogTerm, h.logs, h.snapshotTerm]

/-- Storing the state keeps the log. -/
lemma persistState_keepsLog (r : Raft) : r.KeepsLog r.persistState := ⟨rfl, rfl, rfl, rfl⟩

/-- An election keeps the log. -/
lemma doElection_keepsLog {requests : List (ℕ × RequestVoteArgs)}
    (h : r.doElection = some (r', requests)) : r.KeepsLog r' := by
  obtain ⟨-, rfl, -⟩ := doElection_cases h
  exact ⟨rfl, rfl, rfl, rfl⟩

/-- Catching up with a term keeps the log. -/
lemma catchUp_keepsLog (r : Raft) (term : ℕ) : r.KeepsLog (r.catchUp term) := by
  rw [catchUp]
  split_ifs
  · exact ⟨rfl, rfl, rfl, rfl⟩
  · exact .refl r

/-- `RequestVote` keeps the log. -/
lemma requestVote_keepsLog (r : Raft) (request : RequestVoteArgs) :
    r.KeepsLog (r.requestVote request).1 := by
  have hc := r.catchUp_keepsLog request.term
  obtain ⟨-, heq, -⟩ | ⟨-, heq | heq, -⟩ | ⟨-, -, -, heq, -⟩ := r.requestVote_cases request
  · rw [heq]
    exact .refl r
  · rw [heq]
    exact hc
  · rw [heq]
    exact hc.trans (persistState_keepsLog _)
  · rw [heq]
    exact hc.trans ⟨rfl, rfl, rfl, rfl⟩

/-- A vote keeps the log. -/
lemma handleRequestVoteResponse_keepsLog (r : Raft) (args : RequestVoteArgs)
    (reply : RequestVoteReply) (votedNum : ℕ) :
    r.KeepsLog (r.handleRequestVoteResponse args reply votedNum).1 := by
  obtain ⟨-, heq⟩ | heq | ⟨-, -, -, -, heq | ⟨-, heq⟩⟩ :=
    r.handleRequestVoteResponse_cases args reply votedNum <;>
  · rw [heq]
    exact ⟨rfl, rfl, rfl, rfl⟩

/-- A request of a later term ends the rule of a leader. -/
lemma requestVote_follower {request : RequestVoteArgs} (hterm : r.currentTerm < request.term) :
    (r.requestVote request).1.state = .follower := by
  have hc : (r.catchUp request.term).state = .follower := by
    rw [catchUp, if_pos hterm]
    rfl
  obtain ⟨hlt, -⟩ | ⟨-, heq | heq, -⟩ | ⟨-, -, -, heq, -⟩ := r.requestVote_cases request
  · exact absurd hlt (Nat.lt_asymm hterm)
  · rw [heq]
    exact hc
  · rw [heq]
    exact hc
  · rw [heq]
    exact hc

end Raft

namespace Cluster

variable {s t u : Cluster} {c d i j n : ℕ} {M : Finset ℕ}

/-- A step that keeps the log of its node keeps all logs. -/
lemma keepsLog_update {r : Raft} (hnodes : t.nodes = Function.update s.nodes i r)
    (hr : (s.nodes i).KeepsLog r) (j : ℕ) : (s.nodes j).KeepsLog (t.nodes j) := by
  rw [hnodes]
  by_cases hj : j = i
  · rw [hj, Function.update_self]
    exact hr
  · rw [Function.update_of_ne hj]
    exact .refl _

/-- Elections keep all logs. -/
lemma keepsLog_canvass (hr : Run (Canvass M) s t) (j : ℕ) : (s.nodes j).KeepsLog (t.nodes j) := by
  induction hr with
  | refl => exact .refl _
  | @step t u a _ hP hs ih =>
    refine ih.trans ?_
    cases a with
    | doElection i =>
      simp only [Cluster.step] at hs
      split_ifs at hs
      obtain ⟨-, r, requests, hr, rfl⟩ := doElection_cases hs
      exact keepsLog_update rfl (Raft.doElection_keepsLog hr) j
    | persistElection i =>
      simp only [Cluster.step] at hs
      split_ifs at hs
      cases hs
      exact keepsLog_update rfl (t.nodes i).persistState_keepsLog j
    | deliver id =>
      obtain ⟨c, args, e, hc, hrequest, -⟩ := hP
      obtain ⟨c', hc', hd⟩ := deliver_cases hs
      obtain rfl := Option.some.inj (hc.symm.trans hc')
      cases hd with
      | requestVote _ => exact keepsLog_update rfl (Raft.requestVote_keepsLog _ _) j
      | installSnapshot hreq _ => cases hrequest.symm.trans hreq
      | replied hreq _ => cases hrequest.symm.trans hreq
      | unlocked hreq _ => cases hrequest.symm.trans hreq
    | complete k =>
      obtain ⟨id, rep, c, args, e, hk, hc, hrequest, -⟩ := hP
      obtain ⟨id', rep', c', hk', hc', -, hd⟩ := complete_cases hs
      obtain ⟨rfl, rfl⟩ := Prod.mk.inj (Option.some.inj (hk.symm.trans hk'))
      obtain rfl := Option.some.inj (hc.symm.trans hc')
      cases hd with
      | requestVote _ => exact keepsLog_update rfl (Raft.handleRequestVoteResponse_keepsLog _ _ _ _) j
      | appendEntries hreq _ => cases hrequest.symm.trans hreq
      | installSnapshot hreq => cases hrequest.symm.trans hreq
    | _ => exact hP.elim

/-- A node that does not lead can depose one that does. -/
lemma exists_deposed (hw : Wired s) (hM : M ⊆ Finset.range s.size) (hd : d ∈ M) (hc : c ∈ M)
    (hcd : c ≠ d) (hrole : (s.nodes d).state ≠ .leader) :
    ∃ t, Run (Canvass M) s t ∧ t.size = s.size ∧ (t.nodes c).state ≠ .leader := by
  have hdn : d < s.size := Finset.mem_range.mp (hM hd)
  have hcn : c < s.size := Finset.mem_range.mp (hM hc)
  obtain ⟨t, ht, hready, hwt, hterm⟩ := exists_term hw hdn hd hrole (s.nodes c).currentTerm
  obtain ⟨u, hu, husize, hother, hnode, -, hcalls⟩ :=
    exists_election hwt (hready.size ▸ hdn) hd hready.deferred hready.role
  obtain ⟨k, hk⟩ := hcalls c (hready.size ▸ hcn) hcd
  have hsame : u.nodes c = s.nodes c := (hother c hcd).trans (hready.other c hcd)
  have hlt : (u.nodes c).currentTerm < (t.nodes d).candidacy.term := by
    rw [hsame]
    exact Nat.lt_succ_of_le hterm
  let v := (u.setNode c ((u.nodes c).requestVote (t.nodes d).candidacy).1).reply k
    (.requestVote ((u.nodes c).requestVote (t.nodes d).candidacy).2)
  have hv : u.step (.deliver k) = some v := by
    simp only [Cluster.step, Cluster.deliver, hk, ballot]
    rfl
  have hcanvass : Canvass M u (.deliver k) := ⟨_, _, _, hk, rfl, hd, hc⟩
  have hself : v.nodes c = ((u.nodes c).requestVote (t.nodes d).candidacy).1 := setNode_self _ _
  refine ⟨v, (ht.trans hu).step hcanvass hv, husize.trans hready.size, ?_⟩
  rw [hself, Raft.requestVote_follower hlt]
  exact fun hleader => by cases hleader

/-- A majority that does not only consist of leaders can elect the one with the newest log. -/
lemma exists_elected_newest (hw : Wired s) (hn : 2 ≤ s.size) (hM : M ⊆ Finset.range s.size)
    (hmajority : s.size / 2 + 1 ≤ M.card) (hrole : ∃ d ∈ M, (s.nodes d).state ≠ .leader) :
    ∃ t c, Run (Canvass M) s t ∧ c ∈ M ∧ Elected M t c := by
  have hne : M.Nonempty := Finset.card_pos.mp (by omega)
  obtain ⟨c, hc, hmax⟩ := M.exists_max_image (fun j => (s.nodes j).position) hne
  by_cases hleads : (s.nodes c).state = .leader
  · obtain ⟨d, hd, hfollows⟩ := hrole
    have hcd : c ≠ d := fun heq => hfollows (heq ▸ hleads)
    obtain ⟨t, ht, hsize, hdeposed⟩ := exists_deposed hw hM hd hc hcd hfollows
    have hposition : ∀ j, (t.nodes j).position = (s.nodes j).position := fun j =>
      (keepsLog_canvass ht j).position
    obtain ⟨u, hu, helected⟩ := exists_elected (wired_run hw ht).1 (hsize ▸ hn) (hsize ▸ hM)
      (hsize ▸ hmajority) hc (fun j hj => by
        rw [hposition, hposition]
        exact hmax j hj) hdeposed
    exact ⟨u, c, ht.trans hu, hc, helected⟩
  · obtain ⟨t, ht, helected⟩ := exists_elected hw hn hM hmajority hc hmax hleads
    exact ⟨t, c, ht, hc, helected⟩

end Cluster

/-! ### The followers of a leader -/

section

variable {s : Cluster} {c j : ℕ}

/-- Log matching, as the leader and a follower need it. -/
lemma Sim.matchesLog {a : Abstract} (h : Sim s a) (i j : ℕ) :
    (s.nodes j).MatchesLog (s.nodes i).lastSnapshotIndex (s.nodes i).logs := by
  have hinv := h.reachable.inv
  intro e he x hx hindex hterm
  obtain ⟨p, hp, hpe⟩ := Cluster.exists_prefix_of_mem h he
  obtain ⟨q, hq, hqx⟩ := Cluster.exists_prefix_of_mem h hx
  have heq := Inv.matching (hinv.rooted_log j) (hinv.rooted_log i) hp hq (by omega) hterm
  refine ⟨(List.concat_inj.mp (by simpa using heq)).2, fun e' he' habove hle => ?_⟩
  obtain ⟨p', hp', hpe'⟩ := Cluster.exists_prefix_of_mem h he'
  have hbelow : p' ++ [e'] <+: p ++ [e] := prefix_of_le hp' hp (by
    simp only [List.length_append, List.length_singleton]
    omega)
  have hat := (h.node i).holds.logAt_concat (hbelow.trans (heq ▸ hq)) (by omega)
  exact List.mem_of_getElem? (vecGet_eq_ok.mp hat).2

/-- The log of a leader begins with what the snapshots of earlier terms cover. -/
lemma Sim.snapshot_prefix {a : Abstract} (h : Sim s a) (hleader : (s.nodes c).state = .leader)
    (hterm : (s.nodes j).currentTerm ≤ (s.nodes c).currentTerm) :
    ∃ p, p <+: a.log c ∧ (s.nodes j).lastSnapshotIndex = p.length ∧
      (s.nodes j).lastSnapshotTerm = lastTerm LogEntry.logterm p := by
  have hj := h.node j
  obtain ⟨p, hlog, hindex, hsnapshot⟩ := hj.holds
  obtain ⟨q, hq, hcommit, hsettled⟩ := hj.commit
  have hpq : p <+: q := prefix_of_le (hlog ▸ List.prefix_append _ _) hq (by
    have := hj.snapshot_le
    omega)
  rw [hj.cur, (h.node c).cur] at hterm
  have hfull := (hsettled.mono (Extends.refl a) hterm hpq).full h.reachable.inv
    ((h.node c).leader hleader)
  rw [h.leader_full hleader] at hfull
  exact ⟨p, hfull, hindex, hsnapshot⟩

/-- Heartbeats bring a follower of a term no later up to date. -/
lemma Sim.lagging {a : Abstract} (h : Sim s a) (hb : s.Bounds)
    (hleader : (s.nodes c).state = .leader)
    (hstable : (s.nodes c).stableLogIndex = (s.nodes c).getLastLogIndex)
    (hmatch : (s.nodes c).matchIndex j ≤ (s.nodes c).getLastLogIndex)
    (hnext : 1 ≤ (s.nodes c).nextIndex j ∧
      (s.nodes c).nextIndex j ≤ (s.nodes c).getLastLogIndex + 1)
    (hterm : (s.nodes j).currentTerm ≤ (s.nodes c).currentTerm) :
    ({ leader := s.nodes c, follower := s.nodes j } : Link).Lagging j := by
  obtain ⟨p, hp, hindex, hsnapshot⟩ := h.snapshot_prefix hleader hterm
  have hlast := (h.node c).holds.getLastLogIndex (h.indexed_log c)
  exact {
    leader := (hb.node c).index
    leader_nonneg := (hb.node c).snapshot_nonneg
    state := hleader
    stable := hstable
    matchIndex := hmatch
    next := hnext
    follower := (hb.node j).index
    follower_nonneg := (hb.node j).snapshot_nonneg
    term := hterm
    log := h.matchesLog c j
    snapshot_le := by
      show (s.nodes j).lastSnapshotIndex ≤ (s.nodes c).getLastLogIndex
      have := hp.length_le
      omega
    snapshotTerm := fun term hat => by
      obtain ⟨-, q, hq, hqindex, hqterm⟩ := (h.node c).holds.termAt hat
      have hpq := prefix_eq hp hq (by
        have : (s.nodes j).lastSnapshotIndex = q.length := hqindex
        omega)
      exact hsnapshot.trans (hpq ▸ hqterm.symm) }

end

/-! ### The leader -/

namespace Raft

variable {r r' : Raft} {e : LogEntry} {i : ℕ}

/-- The entry that `Start` makes of a command. -/
def entry (r : Raft) (command : Bytes) : LogEntry where
  command
  logterm := r.currentTerm
  logindex := r.getLastLogIndex + 1

/-- The leader once an entry of `Start` is on the disk. -/
def logged (r : Raft) (e : LogEntry) : Raft :=
  { { r with logs := r.logs ++ [e] }.persistState with stableLogIndex := e.logindex }.persistState

/-- A leader whose log ends with an entry of its term that it has not applied. -/
structure Leads (r : Raft) (e : LogEntry) : Prop where
  leader : r.state = .leader
  index : r.IndexInv
  last : r.getLastLogIndex = e.logindex
  stable : r.stableLogIndex = e.logindex
  entry : r.logAt e.logindex = .ok e
  term : e.logterm = r.currentTerm
  unapplied : r.lastApplied < e.logindex

/-- A leader that learns of a peer's log still leads. -/
lemma Leads.learns (h : r.Leads e) (hlearns : r.Learns r' i) (hindex : r'.IndexInv) : r'.Leads e := by
  obtain ⟨nextIndex, matchIndex, commitIndex, rfl, -, -⟩ := hlearns.cases
  exact ⟨h.leader, hindex, h.last, h.stable, h.entry, h.term, h.unapplied⟩

/-- An entry of the term that a majority holds is committed. -/
lemma Leads.advanceCommitIndex (h : r.Leads e) (hheld : r.peers / 2 ≤ (r.holders e.logindex).card)
    (hr : r.advanceCommitIndex = .ok r') : r'.commitIndex = e.logindex := by
  classical
  have hcommit := h.index.commit_le
  have hlast := h.last
  obtain ⟨k, hk⟩ : ∃ k : ℕ, k = (min r.getLastLogIndex r.stableLogIndex - r.commitIndex).toNat :=
    ⟨_, rfl⟩
  have hat : r.commitIndex + k = e.logindex := by
    rw [hk, hlast, h.stable]
    omega
  have hadvances : r.Advances (r.commitIndex + k) := by
    rw [hat, Advances, replicated_eq]
    exact ⟨by omega, e, h.entry, h.term⟩
  have heq := advanceFrom_eq h.index (k := k) (by omega)
  rw [Nat.findGreatest_eq hadvances, hat] at heq
  rw [Raft.advanceCommitIndex, ← hk, heq] at hr
  obtain rfl := Except.ok.inj hr
  rfl

/-- `copyLogs` makes a message of every entry it comes to. -/
lemma mem_copyLogs {start index : ℤ} {count : ℕ} {msgs : List ApplyMsg}
    (h : r.copyLogs start count = .ok msgs) (hle : start ≤ index) (hlt : index < start + count)
    (he : r.logAt index = .ok e) :
    { CommandValid := true, Command := e.command, CommandIndex := index } ∈ msgs := by
  induction count generalizing start msgs with
  | zero =>
    push_cast at hlt
    omega
  | succ count ih =>
    rw [copyLogs] at h
    obtain ⟨x, hx, h⟩ := bind_eq_ok.mp h
    split_ifs at h
    obtain ⟨rest, hrest, h⟩ := bind_eq_ok.mp h
    obtain rfl := pure_eq_ok.mp h
    by_cases heq : index = start
    · subst heq
      obtain rfl := Except.ok.inj (he.symm.trans hx)
      exact List.mem_cons_self
    · refine List.mem_cons_of_mem _ (ih hrest (by omega) ?_)
      push_cast at hlt
      omega

end Raft

namespace Cluster

variable {s t u : Cluster} {c j n : ℕ} {M : Finset ℕ} {e : LogEntry}

/-- A new leader starts the command, and its log comes to the disk. -/
lemma exists_started (hb : s.Bounds) (hc : c < s.size) (hcM : c ∈ M)
    (hleader : (s.nodes c).state = .leader) (hmax : (s.nodes c).getLastLogIndex < intMax)
    (command : Bytes) :
    ∃ t, Run (fun s a => Within M s a ∧ s.Safe a) s t ∧ t.size = s.size ∧
      t.nodes = Function.update s.nodes c ((s.nodes c).logged ((s.nodes c).entry command)) := by
  let e := (s.nodes c).entry command
  let r := ({ s.nodes c with logs := (s.nodes c).logs ++ [e] } : Raft).persistState
  let t : Cluster := { s.setNode c r with callbacks := s.callbacks ++ [(c, e.logindex)] }
  have hr : (s.nodes c).start command = .ok (some (r, e)) := Raft.start_eq hleader hmax rfl
  have ht : s.step (.start c command) = some t := by
    simp only [Cluster.step, if_pos hc, Cluster.start, hr]
    rfl
  have hk : t.callbacks[s.callbacks.length]? = some (c, e.logindex) := List.getElem?_concat_length ..
  have hnode : t.nodes c = r := setNode_self _ _
  have hgt : e.logindex > r.stableLogIndex := Int.lt_add_one_of_le (hb.node c).stable_le
  have hlogged : r.onLogStable true e.logindex = (s.nodes c).logged e :=
    (if_neg (by simp)).trans (if_pos hgt)
  let u : Cluster := { t.setNode c ((s.nodes c).logged e) with
    callbacks := t.callbacks.eraseIdx s.callbacks.length }
  have hu : t.step (.onLogStable s.callbacks.length true) = some u := by
    simp only [Cluster.step, Cluster.onLogStable, hk, hnode, hlogged]
    rfl
  have hstart : Within M s (.start c command) ∧ s.Safe (.start c command) :=
    ⟨hcM, trivial, trivial⟩
  have hstable : Within M t (.onLogStable s.callbacks.length true) ∧
      t.Safe (.onLogStable s.callbacks.length true) := ⟨⟨rfl, c, _, hk, hcM⟩, rfl, trivial⟩
  refine ⟨u, .step (.step .refl hstart ht) hstable hu, rfl, ?_⟩
  exact Function.update_idem ..

/-- The leader `c` brings its log, with the entry `e` at the end, to the nodes of `left`. Those of
`heard` have confirmed it. -/
structure Spreading (M : Finset ℕ) (s : Cluster) (c : ℕ) (e : LogEntry) (heard : Finset ℕ)
    (left : List ℕ) : Prop where
  wired : Wired s
  within : M ⊆ Finset.range s.size
  leads : (s.nodes c).Leads e
  fits : ∀ j ∈ (s.nodes c).others, (s.nodes c).NextFits j
  confirmed : ∀ j ∈ heard, j ∈ (s.nodes c).others ∧ (s.nodes c).matchIndex j = e.logindex
  committed : s.size / 2 ≤ heard.card → (s.nodes c).commitIndex = e.logindex
  waiting : ∀ j ∈ left, j ∈ M ∧ j ≠ c ∧ j ∉ heard
  lagging : ∀ j ∈ left, ({ leader := s.nodes c, follower := s.nodes j } : Link).Lagging j
  nodup : left.Nodup

variable {heard : Finset ℕ} {left : List ℕ} {l : Link}

/-- A round with `j` leaves what the leader knows of the others. -/
lemma Spreading.learn (h : Spreading M s c e heard (j :: left)) (hw : Wired t) (hsize : t.size = s.size)
    (hnodes : t.nodes = Function.update (Function.update s.nodes j l.follower) c l.leader)
    (hlearns : (s.nodes c).Learns l.leader j) (hindex : l.leader.IndexInv) (hfits : l.leader.NextFits j)
    (hcommit : s.size / 2 ≤ heard.card → l.leader.commitIndex = e.logindex) :
    Spreading M t c e heard left := by
  have hleader : t.nodes c = l.leader := by rw [hnodes, Function.update_self]
  have hother : ∀ k, k ≠ c → k ≠ j → t.nodes k = s.nodes k := fun k hkc hkj => by
    rw [hnodes, Function.update_of_ne hkc, Function.update_of_ne hkj]
  have hothers : (t.nodes c).others = (s.nodes c).others := by
    rw [hleader, hlearns.eq]
    rfl
  have hstable : l.leader.stableLogIndex = (s.nodes c).stableLogIndex := by rw [hlearns.eq]
  have hj : ∀ k ∈ heard, k ≠ j := fun k hk hkj => (h.waiting j List.mem_cons_self).2.2 (hkj ▸ hk)
  have hjleft : ∀ k ∈ left, k ≠ j := fun k hk hkj => (List.nodup_cons.mp h.nodup).1 (hkj ▸ hk)
  exact {
    wired := hw
    within := hsize ▸ h.within
    leads := hleader ▸ h.leads.learns hlearns hindex
    fits := fun k hk => by
      rw [hothers] at hk
      rw [hleader]
      by_cases hkj : k = j
      · exact hkj ▸ hfits
      · have := h.fits k hk
        rw [Raft.NextFits, hlearns.nextIndex k hkj, hstable]
        exact this
    confirmed := fun k hk => by
      rw [hothers, hleader, hlearns.matchIndex k (hj k hk)]
      exact h.confirmed k hk
    committed := by
      rw [hsize, hleader]
      exact hcommit
    waiting := fun k hk => h.waiting k (List.mem_cons_of_mem _ hk)
    lagging := fun k hk => by
      have hmem := List.mem_cons_of_mem j hk
      rw [hleader, hother k (h.waiting k hmem).2.1 (hjleft k hk)]
      exact (h.lagging k hmem).learns hlearns (hjleft k hk) hindex
    nodup := (List.nodup_cons.mp h.nodup).2 }

/-- A round that is not the last one. -/
lemma Spreading.rejected (h : Spreading M s c e heard (j :: left)) (hw : Wired t)
    (hsize : t.size = s.size)
    (hnodes : t.nodes = Function.update (Function.update s.nodes j l.follower) c l.leader)
    (hround : Link.round j { leader := s.nodes c, follower := s.nodes j } = .ok (l, false))
    (hlagging : l.Lagging j) : Spreading M t c e heard (j :: left) := by
  obtain ⟨hlearns, hcommit, -⟩ := (h.lagging j List.mem_cons_self).round_leader hround
  have hfits : l.leader.NextFits j := ⟨hlagging.next.1, hlagging.stable ▸ hlagging.next.2⟩
  have hnext := h.learn hw hsize hnodes hlearns hlagging.leader hfits fun hmajority =>
    (hcommit rfl).trans (h.committed hmajority)
  have hjc := (h.waiting j List.mem_cons_self).2.1
  have hleader : t.nodes c = l.leader := by rw [hnodes, Function.update_self]
  have hfollower : t.nodes j = l.follower := by
    rw [hnodes, Function.update_of_ne hjc, Function.update_self]
  exact { hnext with
    waiting := h.waiting
    lagging := fun k hk => by
      obtain rfl | hk := List.mem_cons.mp hk
      · rw [hleader, hfollower]
        exact hlagging
      · exact hnext.lagging k hk
    nodup := h.nodup }

/-- The last round with `j`. -/
lemma Spreading.success (h : Spreading M s c e heard (j :: left)) (hw : Wired t)
    (hsize : t.size = s.size)
    (hnodes : t.nodes = Function.update (Function.update s.nodes j l.follower) c l.leader)
    (hround : Link.round j { leader := s.nodes c, follower := s.nodes j } = .ok (l, true))
    (hcaught : l.CaughtUp j) : Spreading M t c e (insert j heard) left := by
  obtain ⟨hjM, hjc, hjheard⟩ := h.waiting j List.mem_cons_self
  obtain ⟨hlearns, -, hadvance⟩ := (h.lagging j List.mem_cons_self).round_leader hround
  have hadvance := hadvance rfl
  have hjothers : j ∈ (s.nodes c).others :=
    h.wired.mem_others.mpr ⟨Finset.mem_range.mp (h.within hjM), hjc⟩
  let m := (s.nodes c).matched j (s.nodes c).getLastLogIndex
  have hmatched : m.Leads e :=
    h.leads.learns (.update (s.nodes c) j _ _) (h.leads.index.congr rfl rfl rfl rfl)
  obtain ⟨r, hr, hindex, -⟩ := hmatched.index.advanceCommitIndex
  obtain rfl := Except.ok.inj (hadvance.symm.trans hr)
  have hleads := h.leads.learns hlearns hindex
  have hindices : l.leader.nextIndex = m.nextIndex := by
    obtain heq | ⟨index, x, heq, -⟩ := Raft.advanceCommitIndex_cases hr <;> rw [heq]
  have hmatch : l.leader.matchIndex j = e.logindex := hcaught.matchIndex.trans hleads.last
  have hfits : l.leader.NextFits j := by
    have hle := (h.lagging j List.mem_cons_self).matchIndex
    have hself : m.nextIndex j =
        max ((s.nodes c).matchIndex j) (s.nodes c).getLastLogIndex + 1 := Function.update_self ..
    have hpos := h.leads.unapplied
    have hsnap := h.leads.index.snapshot_le
    have hnonneg := (h.lagging j List.mem_cons_self).leader_nonneg
    simp only at hle hnonneg
    rw [Raft.NextFits, hindices, hself, Int.max_eq_right hle, hleads.stable, h.leads.last]
    omega
  -- the nodes that have confirmed the entry hold it
  have hheld : insert j heard ⊆ m.holders e.logindex := by
    intro k hk
    obtain rfl | hk := Finset.mem_insert.mp hk
    · have hself : m.matchIndex k =
          max ((s.nodes c).matchIndex k) (s.nodes c).getLastLogIndex := Function.update_self ..
      obtain ⟨hlt, hne⟩ := Raft.mem_others.mp hjothers
      refine Finset.mem_filter.mpr ⟨Finset.mem_range.mpr hlt, hne, ?_⟩
      rw [hself, h.leads.last]
      exact Int.le_max_right _ _
    · obtain ⟨hothers, hindex⟩ := h.confirmed k hk
      obtain ⟨hlt, hne⟩ := Raft.mem_others.mp hothers
      have hkj : k ≠ j := fun heq => hjheard (heq ▸ hk)
      have hself : m.matchIndex k = (s.nodes c).matchIndex k := Function.update_of_ne hkj ..
      refine Finset.mem_filter.mpr ⟨Finset.mem_range.mpr hlt, hne, ?_⟩
      rw [hself, hindex]
  have hcommit : s.size / 2 ≤ (insert j heard).card → l.leader.commitIndex = e.logindex := by
    intro hmajority
    have hpeers : m.peers = s.size := (h.wired.node c).2
    exact hmatched.advanceCommitIndex (by
      rw [hpeers]
      exact hmajority.trans (Finset.card_le_card hheld)) hr
  have hnext := h.learn hw hsize hnodes hlearns hindex hfits fun hmajority =>
    hcommit (hmajority.trans (Finset.card_le_card (Finset.subset_insert j heard)))
  have hleader : t.nodes c = l.leader := by rw [hnodes, Function.update_self]
  have hothers : (t.nodes c).others = (s.nodes c).others := by
    rw [hleader, hlearns.eq]
    rfl
  exact { hnext with
    confirmed := fun k hk => by
      obtain rfl | hk := Finset.mem_insert.mp hk
      · rw [hothers, hleader]
        exact ⟨hjothers, hmatch⟩
      · exact hnext.confirmed k hk
    committed := by
      rw [hsize, hleader]
      exact hcommit
    waiting := fun k hk => by
      obtain ⟨hkM, hkc, hkheard⟩ := hnext.waiting k hk
      refine ⟨hkM, hkc, fun hmem => ?_⟩
      obtain rfl | hmem := Finset.mem_insert.mp hmem
      · exact (List.nodup_cons.mp h.nodup).1 hk
      · exact hkheard hmem }

/-- Round by round the leader comes to the next confirmation. -/
lemma Spreading.reach (h : Spreading M s c e heard (j :: left)) (hc : c ∈ M) :
    ∃ t, Run (Within M) s t ∧ t.size = s.size ∧ Spreading M t c e (insert j heard) left := by
  induction hlag : ({ leader := s.nodes c, follower := s.nodes j } : Link).lag j
    using Nat.strong_induction_on generalizing s with
  | _ n ih =>
    obtain ⟨hjM, hjc, -⟩ := h.waiting j List.mem_cons_self
    have hbeats : Beats s c :=
      ⟨h.leads.leader, h.leads.index, by rw [h.leads.stable, h.leads.last], h.fits⟩
    have hrun : ∀ {l : Link} {done : Bool},
        Link.round j { leader := s.nodes c, follower := s.nodes j } = .ok (l, done) →
        ∃ t, Run (Within M) s t ∧ Wired t ∧ t.size = s.size ∧
          t.nodes = Function.update (Function.update s.nodes j l.follower) c l.leader := by
      intro l done hround
      obtain ⟨t, ht, hsize, hnodes⟩ := exists_round hbeats h.wired h.within hc hjM hjc hround
      exact ⟨t, ht, (wired_run h.wired ht).1, hsize, hnodes⟩
    obtain ⟨l, hround, hcaught⟩ | ⟨l, hround, hlagging, hlt⟩ :=
      (h.lagging j List.mem_cons_self).round_next
    · obtain ⟨t, ht, hw, hsize, hnodes⟩ := hrun hround
      exact ⟨t, ht, hsize, h.success hw hsize hnodes hround hcaught⟩
    · obtain ⟨t, ht, hw, hsize, hnodes⟩ := hrun hround
      have hlink : ({ leader := t.nodes c, follower := t.nodes j } : Link) = l := by
        rw [hnodes, Function.update_self, Function.update_of_ne hjc, Function.update_self]
      obtain ⟨u, hu, hsize', hspread⟩ := ih (l.lag j) (hlag ▸ hlt)
        (h.rejected hw hsize hnodes hround hlagging) (congrArg (Link.lag · j) hlink)
      exact ⟨u, ht.trans hu, hsize'.trans hsize, hspread⟩

/-- And from one node to the next. -/
lemma Spreading.spread (h : Spreading M s c e heard left) (hc : c ∈ M) :
    ∃ t, Run (Within M) s t ∧ t.size = s.size ∧ Spreading M t c e (heard ∪ left.toFinset) [] := by
  induction left generalizing s heard with
  | nil => exact ⟨s, .refl, rfl, by simpa using h⟩
  | cons j left ih =>
    obtain ⟨t, ht, hsize, hnext⟩ := h.reach hc
    obtain ⟨u, hu, hsize', hspread⟩ := ih hnext
    refine ⟨u, ht.trans hu, hsize'.trans hsize, ?_⟩
    have hunion : insert j heard ∪ left.toFinset = heard ∪ (j :: left).toFinset := by
      rw [List.toFinset_cons, Finset.insert_union, Finset.union_insert]
    rwa [hunion] at hspread

/-- A leader of a new term that has started a command can bring it to all of `M`. -/
lemma spreading_started (hs : Run Safe (initial n) s) (hn : 2 ≤ n) (hM : M ⊆ Finset.range n)
    {r : Raft} (hr : r.Bounded) (hnode : s.nodes c = r.logged e) (he : ∃ command, e = r.entry command)
    (hleader : r.state = .leader) (hnext : ∀ j ∈ r.others, r.nextIndex j = r.getLastLogIndex + 1)
    (hmatch : ∀ j ∈ r.others, r.matchIndex j = 0)
    (hbehind : ∀ j ∈ M, (s.nodes j).currentTerm ≤ r.currentTerm) :
    Spreading M s c e ∅ (M.erase c).toList := by
  obtain ⟨a, hw, -, hsim, hsize⟩ := sim_of_run hs
  have hb := bounds_run (bounds_initial n) hs
  obtain ⟨command, rfl⟩ := he
  have hlast : (s.nodes c).getLastLogIndex = r.getLastLogIndex + 1 := by
    have hlogs : (r.logged (r.entry command)).logs = r.logs ++ [r.entry command] := rfl
    rw [hnode]
    exact Raft.getLastLogIndex_concat hlogs
  have hstable : (s.nodes c).stableLogIndex = r.getLastLogIndex + 1 := by
    rw [hnode]
    rfl
  have hothers : (s.nodes c).others = r.others := by
    rw [hnode]
    rfl
  have hzero : 0 ≤ r.getLastLogIndex := Int.le_trans hr.snapshot_nonneg hr.index.snapshot_le_last
  have hfits : ∀ j ∈ r.others, (s.nodes c).nextIndex j = r.getLastLogIndex + 1 ∧
      (s.nodes c).matchIndex j = 0 := fun j hj => by
    rw [hnode]
    exact ⟨hnext j hj, hmatch j hj⟩
  have hwaiting : ∀ j ∈ (M.erase c).toList, j ∈ M ∧ j ≠ c := fun j hj =>
    (Finset.mem_erase.mp (Finset.mem_toList.mp hj)).symm
  exact {
    wired := hw
    within := hsize ▸ hM
    leads := {
      leader := hnode ▸ hleader
      index := (hb.node c).index
      last := hlast
      stable := hstable
      entry := Raft.logAt_of_mem (hb.node c).index.aligned (by
        rw [hnode]
        exact List.mem_concat_self)
      term := by
        rw [hnode]
        rfl
      unapplied := by
        have happlied : (s.nodes c).lastApplied = r.lastApplied := by
          rw [hnode]
          rfl
        have hle := Int.le_trans hr.index.applied_le hr.index.commit_le
        rw [happlied]
        exact Int.lt_add_one_of_le hle }
    fits := fun j hj => by
      obtain ⟨hnext, -⟩ := hfits j (hothers ▸ hj)
      rw [Raft.NextFits, hnext, hstable]
      omega
    confirmed := fun j hj => absurd hj (Finset.notMem_empty j)
    committed := fun hmajority => by
      rw [Finset.card_empty, hsize] at hmajority
      omega
    waiting := fun j hj => ⟨(hwaiting j hj).1, (hwaiting j hj).2, Finset.notMem_empty j⟩
    lagging := fun j hj => by
      obtain ⟨hjM, hjc⟩ := hwaiting j hj
      have hjothers : j ∈ r.others :=
        hothers ▸ hw.mem_others.mpr ⟨hsize ▸ Finset.mem_range.mp (hM hjM), hjc⟩
      obtain ⟨hnext, hmatch⟩ := hfits j hjothers
      have hterm : (s.nodes c).currentTerm = r.currentTerm := by
        rw [hnode]
        rfl
      exact hsim.lagging hb (hnode ▸ hleader) (hstable.trans hlast.symm) (by omega) (by omega)
        (hterm ▸ hbehind j hjM)
    nodup := Finset.nodup_toList _ }

/-! ### The server of the leader -/

/-- A node pushes all the messages it has copied. -/
lemma exists_pushed (hc : c ∈ M) : ∃ t, Run (Within M) s t ∧ t.size = s.size ∧ t.copied c = [] ∧
    t.nodes c = { s.nodes c with applyChan := (s.nodes c).applyChan ++ s.copied c } := by
  induction hcopied : s.copied c generalizing s with
  | nil => exact ⟨s, .refl, rfl, hcopied, by rw [List.append_nil]⟩
  | cons msg rest ih =>
    let t : Cluster := { s.setNode c ((s.nodes c).push msg) with
      copied := Function.update s.copied c rest }
    have ht : s.step (.push c) = some t := by
      simp only [Cluster.step, Cluster.push, hcopied]
      rfl
    have hnode : t.nodes c = (s.nodes c).push msg := setNode_self _ _
    obtain ⟨u, hu, hsize, hnone, hchan⟩ := ih (s := t) (Function.update_self ..)
    refine ⟨u, .head (a := .push c) hc ht hu, hsize, hnone, ?_⟩
    rw [hchan, hnode, Raft.push, List.append_assoc]
    rfl

/-- What a leader has committed comes to its server. -/
lemma exists_applied (hc : c ∈ M) (hcn : c < s.size) (h : (s.nodes c).Leads e)
    (hcommit : (s.nodes c).commitIndex = e.logindex) (hmax : e.logindex < intMax) :
    ∃ t, Run (Within M) s t ∧ (t.nodes c).state = .leader ∧
      (t.nodes c).currentTerm = (s.nodes c).currentTerm ∧ t.HasCommitted c e.logindex e ∧
      { CommandValid := true, Command := e.command, CommandIndex := e.logindex } ∈
        (t.nodes c).applyChan := by
  obtain ⟨t, ht, hsize, hnone, hnode⟩ := exists_pushed (s := s) hc
  have hindex : (t.nodes c).IndexInv := by
    rw [hnode]
    exact h.index.congr rfl rfl rfl rfl
  have hlt : (t.nodes c).commitIndex < intMax := by
    rw [hnode]
    exact hcommit ▸ hmax
  obtain ⟨r, msgs, hr⟩ := hindex.applierTicker_ok hlt
  obtain ⟨hr', hcopy⟩ := Raft.applierTicker_cases hr
  let u : Cluster := { t.setNode c r with copied := Function.update t.copied c msgs }
  have happlied : (t.nodes c).lastApplied < (t.nodes c).commitIndex := by
    rw [hnode]
    exact hcommit ▸ h.unapplied
  have hu : t.step (.applierTicker c) = some u := by
    simp only [Cluster.step, if_pos (hsize ▸ hcn), Cluster.applierTicker,
      if_pos (And.intro hnone happlied), hr]
    rfl
  obtain ⟨v, hv, -, -, hchan⟩ := exists_pushed (s := u) hc
  have hu' : u.nodes c = r := setNode_self _ _
  have hcopied : u.copied c = msgs := Function.update_self ..
  have hmsg : { CommandValid := true, Command := e.command, CommandIndex := e.logindex } ∈ msgs := by
    rw [hnode] at hcopy happlied
    simp only [hcommit] at hcopy happlied
    exact Raft.mem_copyLogs hcopy (by omega) (by omega) h.entry
  refine ⟨v, (ht.step (a := .applierTicker c) hc hu).trans hv, ?_, ?_, ⟨?_, ?_⟩, ?_⟩ <;>
    rw [hchan, hu', hr', hnode]
  · exact h.leader
  · exact Int.le_of_eq hcommit.symm
  · exact h.entry
  · rw [hcopied]
    exact List.mem_append_right _ hmsg

/-- From every state of a safe run the nodes of a majority, unless all of them lead, can elect a leader
among them that commits a given command in its term and hands it to its server, as long as their logs
have room for it below `INT_MAX`. No other node takes part, and no process crashes. -/
theorem exists_commit (hn : 2 ≤ n) (hs : Run Safe (initial n) s) {M : Finset ℕ}
    (hM : M ⊆ Finset.range n) (hmajority : n / 2 + 1 ≤ M.card)
    (hrole : ∃ d ∈ M, (s.nodes d).state ≠ .leader)
    (hroom : ∀ c ∈ M, (s.nodes c).getLastLogIndex + 1 < intMax) (command : Bytes) :
    ∃ t, Run (Within M) s t ∧ ∃ c ∈ M, (t.nodes c).state = .leader ∧
      ∃ e : LogEntry, e.command = command ∧ e.logterm = (t.nodes c).currentTerm ∧
        e.logindex = (s.nodes c).getLastLogIndex + 1 ∧ t.HasCommitted c e.logindex e ∧
        { CommandValid := true, Command := command, CommandIndex := e.logindex } ∈
          (t.nodes c).applyChan := by
  obtain ⟨-, hw, -, -, hsize⟩ := sim_of_run hs
  -- the election
  obtain ⟨t, c, hst, hc, helected⟩ := exists_elected_newest hw (hsize.symm ▸ hn) (hsize.symm ▸ hM)
    (hsize.symm ▸ hmajority) hrole
  have hrun : Run Safe (initial n) t := hs.trans (hst.mono fun _ _ hstep => hstep.safe)
  have hb := bounds_run (bounds_initial n) hrun
  have hsizet : t.size = n := (wired_run hw hst).2.trans hsize
  have hcn : c < n := Finset.mem_range.mp (hM hc)
  have hlast := (keepsLog_canvass hst c).last
  have hmax : ((t.nodes c).entry command).logindex < intMax := by
    show (t.nodes c).getLastLogIndex + 1 < intMax
    rw [hlast]
    exact hroom c hc
  -- the command
  obtain ⟨u, htu, hsizeu, hnodes⟩ :=
    exists_started hb (hsizet.symm ▸ hcn) hc helected.leader (Int.lt_of_add_one_le hmax.le) command
  have hrun' : Run Safe (initial n) u := hrun.trans (htu.mono fun _ _ hstep => hstep.2)
  have hnode : u.nodes c = (t.nodes c).logged ((t.nodes c).entry command) := by
    rw [hnodes, Function.update_self]
  have hspreading := spreading_started hrun' hn hM (hb.node c) hnode ⟨command, rfl⟩ helected.leader
    helected.nextIndex helected.matchIndex fun j hj => by
      by_cases hjc : j = c
      · rw [hjc, hnode]
        exact Nat.le_refl _
      · rw [hnodes, Function.update_of_ne hjc]
        exact helected.behind j hj
  -- the rounds
  obtain ⟨v, huv, hsizev, hspread⟩ := hspreading.spread hc
  have hsizev' : v.size = n := hsizev.trans (hsizeu.trans hsizet)
  have hcommit := hspread.committed (by
    rw [Finset.empty_union, Finset.toList_toFinset, Finset.card_erase_of_mem hc, hsizev']
    omega)
  obtain ⟨w, hvw, hleader, hterm, hcommitted, hmsg⟩ :=
    exists_applied hc (hsizev'.symm ▸ hcn) hspread.leads hcommit hmax
  have hbegin : Run (Within M) s u := (hst.mono fun _ _ hstep => hstep.within).trans
    (htu.mono fun _ _ hstep => hstep.1)
  refine ⟨w, (hbegin.trans huv).trans hvw, c, hc, hleader, (t.nodes c).entry command, rfl,
    hspread.leads.term.trans hterm.symm, ?_, hcommitted, hmsg⟩
  exact congrArg (· + 1) hlast

/-- Node `0` leads with an entry that no one else has, and falls silent. -/
theorem exists_commit_without :
    ∃ s ∈ (initial 3).runIf Safe [.doElection 0, .deliver 0, .complete 0, .start 0 [7]],
      (s.nodes 0).state = .leader ∧ ∃ t, Run (Within {1, 2}) s t ∧
        ∃ c ∈ ({1, 2} : Finset ℕ), (t.nodes c).state = .leader ∧
          ∃ e : LogEntry, e.command = [8] ∧ e.logterm = (t.nodes c).currentTerm ∧
            e.logindex = (s.nodes c).getLastLogIndex + 1 ∧ t.HasCommitted c e.logindex e ∧
            { CommandValid := true, Command := [8], CommandIndex := e.logindex } ∈
              (t.nodes c).applyChan := by
  have hrun : ∃ s ∈ (initial 3).runIf Safe [.doElection 0, .deliver 0, .complete 0, .start 0 [7]],
      (s.nodes 0).state = .leader ∧ (s.nodes 1).state ≠ .leader ∧
        ∀ c ∈ ({1, 2} : Finset ℕ), (s.nodes c).getLastLogIndex + 1 < intMax := by decide
  obtain ⟨s, hs, hleader, hrole, hroom⟩ := hrun
  exact ⟨s, hs, hleader, exists_commit (by decide) (run_of_runIf hs) (by decide) (by decide)
    ⟨1, by decide, hrole⟩ hroom [8]⟩

end Cluster

end KVCacheRaft
