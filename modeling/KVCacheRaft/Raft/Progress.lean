import KVCacheRaft.Raft.Election
import Mathlib.Data.Finset.Max
import Mathlib.Data.Prod.Lex

/-!
# A leader can be elected

In every state that crashes, losses and delays may lead to, the nodes of a majority can elect a leader
among themselves: the one with the newest log starts elections until its term is beyond those of all
others, and then each of them grants it its vote. Only a node without peers never leads, as the votes are
counted when a reply comes.
-/

namespace KVCacheRaft

namespace Raft

variable {r : Raft} {request : RequestVoteArgs}

/-- What `RequestVote` compares of two logs: the term of the last entry, then its index. -/
def position (r : Raft) : ℕ ×ₗ ℤ := toLex (r.getLastLogTerm, r.getLastLogIndex)

/-- A candidate whose last entry is not behind is up to date. -/
lemma upToDate_of_le (h : r.position ≤ toLex (request.lastlogterm, request.lastlogindex)) :
    r.upToDate request = true := by
  rw [upToDate, Bool.or_eq_true, Bool.and_eq_true, decide_eq_true_iff, decide_eq_true_iff, beq_iff_eq]
  obtain hlt | ⟨heq, hle⟩ := Prod.Lex.toLex_le_toLex.mp h
  · exact .inl hlt
  · exact .inr ⟨heq.symm, hle⟩

/-- The reply that grants a vote. -/
def grant (request : RequestVoteArgs) : RequestVoteReply where
  term := request.term
  votegranted := true
  votestate := .normal

/-- A node of an earlier term grants its vote to a log that is as new as its own. -/
lemma requestVote_behind (hterm : r.currentTerm < request.term) (hup : r.upToDate request = true) :
    (r.requestVote request).2 = grant request := by
  have hup' : (r.newTerm request.term).persistState.upToDate request = true := hup
  rw [requestVote, if_neg (Nat.not_lt.mpr (Nat.le_of_lt hterm))]
  simp only [if_pos hterm, hup', Bool.not_true, Bool.false_eq_true, if_false]
  rfl

/-- A vote takes the node to the term of the request at most. -/
lemma requestVote_term_le (hle : r.currentTerm ≤ request.term) :
    (r.requestVote request).1.currentTerm ≤ request.term := by
  have hc : (r.catchUp request.term).currentTerm ≤ request.term := by
    rw [catchUp]
    split_ifs
    · exact Nat.le_refl _
    · exact hle
  obtain ⟨-, heq, -⟩ | ⟨-, heq | heq, -⟩ | ⟨-, -, -, heq, -⟩ := r.requestVote_cases request
  · rw [heq]
    exact hle
  · rw [heq]
    exact hc
  · rw [heq]
    exact hc
  · rw [heq]
    exact hc

end Raft

namespace Cluster

variable {s t u : Cluster} {c e n votes : ℕ} {args : RequestVoteArgs} {left : List ℕ} {M : Finset ℕ}

/-- Elections among the nodes of `M`: nothing else happens, and the messages are votes and requests for
them between these nodes. -/
def Canvass (M : Finset ℕ) (s : Cluster) : Action → Prop
  | .doElection i | .persistElection i => i ∈ M
  | .deliver id => ∃ c args e, s.calls[id]? = some c ∧ c.request = .requestVote args e ∧
    c.caller ∈ M ∧ c.callee ∈ M
  | .complete k => ∃ id rep c args e, s.replies[k]? = some (id, rep) ∧ s.calls[id]? = some c ∧
    c.request = .requestVote args e ∧ c.caller ∈ M ∧ c.callee ∈ M
  | _ => False

/-- A condition on the steps may be weakened. -/
lemma Run.mono {P Q : Cluster → Action → Prop} (hPQ : ∀ s a, P s a → Q s a) (h : Run P s t) :
    Run Q s t := by
  induction h with
  | refl => exact .refl
  | step _ hP hs ih => exact .step ih (hPQ _ _ hP) hs

/-- Runs compose. -/
lemma Run.trans {P : Cluster → Action → Prop} (h : Run P s t) (h' : Run P t u) : Run P s u := by
  induction h' with
  | refl => exact h
  | step _ hP hs ih => exact .step ih hP hs

/-- In every run the nodes stay wired, and are as many. -/
lemma wired_run {P : Cluster → Action → Prop} (h : Wired s) (hr : Run P s t) :
    Wired t ∧ t.size = s.size := by
  induction hr with
  | refl => exact ⟨h, rfl⟩
  | step _ _ hs ih =>
    have g := step_follows ih.1 hs
    exact ⟨ih.1.follows g, g.size.trans ih.2⟩

/-- The call of a candidate in election `e`. -/
def ballot (c j : ℕ) (args : RequestVoteArgs) (e : ℕ) : Call where
  caller := c
  callee := j
  request := .requestVote args e
  pending := true

/-- A new leader of a term that no node of `M` is beyond, which knows nothing of its peers yet. -/
structure Elected (M : Finset ℕ) (s : Cluster) (c : ℕ) : Prop where
  leader : (s.nodes c).state = .leader
  nextIndex : ∀ j ∈ (s.nodes c).others, (s.nodes c).nextIndex j = (s.nodes c).getLastLogIndex + 1
  matchIndex : ∀ j ∈ (s.nodes c).others, (s.nodes c).matchIndex j = 0
  behind : ∀ j ∈ M, (s.nodes j).currentTerm ≤ (s.nodes c).currentTerm

/-- A candidate whose election has `votes` votes, and can get those of the nodes of `left`. -/
structure Campaign (M : Finset ℕ) (s : Cluster) (c : ℕ) (args : RequestVoteArgs) (e votes : ℕ)
    (left : List ℕ) : Prop where
  candidate : (s.nodes c).state = .candidate
  term : (s.nodes c).currentTerm = args.term
  peers : (s.nodes c).peers = s.size
  counter : s.votedNum[e]? = some votes
  /-- the count has not come to a majority -/
  few : votes < s.size / 2 + 1
  calls : ∀ j ∈ left, ∃ k : ℕ, s.calls[k]? = some (ballot c j args e)
  voters : ∀ j ∈ left, j ≠ c ∧ (s.nodes j).currentTerm < args.term ∧ (s.nodes j).upToDate args = true
  nodup : left.Nodup
  behind : ∀ j ∈ M, (s.nodes j).currentTerm ≤ args.term

/-- The request to the next node arrives, and its reply does. -/
lemma Campaign.next {j : ℕ} (h : Campaign M s c args e votes (j :: left)) (hc : c ∈ M) (hj : j ∈ M) :
    ∃ t, Run (Canvass M) s t ∧ t.size = s.size ∧
      (Elected M t c ∨ Campaign M t c args e (votes + 1) left) := by
  obtain ⟨k, hk⟩ := h.calls j List.mem_cons_self
  obtain ⟨hjc, hterm, hup⟩ := h.voters j List.mem_cons_self
  have hgrant := Raft.requestVote_behind hterm hup
  -- the request arrives
  let t := (s.setNode j ((s.nodes j).requestVote args).1).reply k (.requestVote (Raft.grant args))
  have ht : s.step (.deliver k) = some t := by
    simp only [Cluster.step, Cluster.deliver, hk, ballot, hgrant, t]
  have hreply : t.replies[s.replies.length]? = some (k, .requestVote (Raft.grant args)) :=
    List.getElem?_concat_length ..
  have hcall : t.calls[k]? = some (ballot c j args e) := hk
  have hnode : t.nodes c = s.nodes c := setNode_ne hjc.symm _
  have hcounter : t.votedNum.getD e 0 = votes := by
    rw [List.getD_eq_getElem?_getD]
    exact congrArg (Option.getD · 0) h.counter
  -- its reply arrives
  let x := (t.nodes c).handleRequestVoteResponse args (Raft.grant args) votes
  have hx : x = if votes + 1 ≥ s.size / 2 + 1 then ((s.nodes c).becomeLeader.persistState, votes + 1)
      else (s.nodes c, votes + 1) := by
    simp only [x, hnode, Raft.handleRequestVoteResponse, h.term, h.candidate, h.peers, Raft.grant]
    simp
  let v : Cluster := { (t.completed k (ballot c j args e)).setNode c x.1 with
    votedNum := t.votedNum.set e x.2
    elected := if (t.nodes c).state ≠ .leader ∧ x.1.state = .leader
      then t.elected ++ [(c, x.1.currentTerm)] else t.elected }
  have hv : t.step (.complete s.replies.length) = some v := by
    simp only [Cluster.step, Cluster.complete, hreply, hcall]
    simp only [ballot, Bool.not_true, Bool.false_eq_true, if_false, hcounter]
    rfl
  have hdeliver : Canvass M s (.deliver k) := ⟨_, _, _, hk, rfl, hc, hj⟩
  have hcomplete : Canvass M t (.complete s.replies.length) :=
    ⟨_, _, _, _, _, hreply, hcall, rfl, hc, hj⟩
  have hxterm : x.1.currentTerm = args.term := by
    rw [hx]
    split_ifs <;> exact h.term
  have hjterm : ((s.nodes j).requestVote args).1.currentTerm ≤ args.term :=
    Raft.requestVote_term_le (Nat.le_of_lt hterm)
  have hbehind : ∀ i ∈ M, (v.nodes i).currentTerm ≤ args.term := by
    intro i hi
    by_cases hic : i = c
    · have hself : v.nodes c = x.1 := setNode_self _ _
      rw [hic, hself, hxterm]
    · have hvi : v.nodes i = t.nodes i := setNode_ne hic _
      rw [hvi]
      by_cases hij : i = j
      · have hself : t.nodes j = ((s.nodes j).requestVote args).1 := setNode_self _ _
        rw [hij, hself]
        exact hjterm
      · have hti : t.nodes i = s.nodes i := setNode_ne hij _
        rw [hti]
        exact h.behind i hi
  refine ⟨v, .step (.step .refl hdeliver ht) hcomplete hv, rfl, ?_⟩
  by_cases hwon : votes + 1 ≥ s.size / 2 + 1
  · left
    have hvc : v.nodes c = (s.nodes c).becomeLeader.persistState := by
      have hself : v.nodes c = x.1 := setNode_self _ _
      rw [hself, hx, if_pos hwon]
    have hterm' : (v.nodes c).currentTerm = args.term := hvc ▸ h.term
    refine ⟨hvc ▸ rfl, fun i hi => ?_, fun i hi => ?_, fun i hi => hterm' ▸ hbehind i hi⟩
    · rw [hvc] at hi ⊢
      exact if_pos hi
    · rw [hvc] at hi ⊢
      exact if_pos hi
  · right
    have hx1 : x = (s.nodes c, votes + 1) := by rw [hx, if_neg hwon]
    have hvc : v.nodes c = s.nodes c := (setNode_self _ _).trans (congrArg Prod.fst hx1)
    have hother : ∀ i ∈ left, i ≠ c ∧ i ≠ j := fun i hi =>
      ⟨(h.voters i (List.mem_cons_of_mem _ hi)).1,
        fun hij => (List.nodup_cons.mp h.nodup).1 (hij ▸ hi)⟩
    refine ⟨hvc ▸ h.candidate, hvc ▸ h.term, hvc ▸ h.peers, ?_, Nat.not_le.mp hwon, fun i hi => ?_,
      fun i hi => ?_, (List.nodup_cons.mp h.nodup).2, hbehind⟩
    · have hlt := (List.getElem?_eq_some_iff.mp h.counter).1
      change (s.votedNum.set e x.2)[e]? = some (votes + 1)
      rw [hx1, List.getElem?_set_self hlt]
    · obtain ⟨l, hl⟩ := h.calls i (List.mem_cons_of_mem _ hi)
      refine ⟨l, ?_⟩
      have hne : k ≠ l := by
        rintro rfl
        have := Option.some.inj (hk.symm.trans hl)
        exact (hother i hi).2 (congrArg Call.callee this).symm
      change (s.calls.set k _)[l]? = _
      rw [List.getElem?_set_ne hne]
      exact hl
    · obtain ⟨hic, hij⟩ := hother i hi
      have hvi : v.nodes i = s.nodes i := (setNode_ne hic _).trans (setNode_ne hij _)
      rw [hvi]
      exact h.voters i (List.mem_cons_of_mem _ hi)

/-- A candidate that can get a majority is elected. -/
lemma Campaign.win (h : Campaign M s c args e votes left) (hc : c ∈ M) (hleft : ∀ j ∈ left, j ∈ M)
    (hmajority : s.size / 2 + 1 ≤ votes + left.length) :
    ∃ t, Run (Canvass M) s t ∧ Elected M t c := by
  induction left generalizing s votes with
  | nil => exact absurd hmajority (Nat.not_le.mpr h.few)
  | cons j left ih =>
    obtain ⟨t, ht, hsize, hleader | hnext⟩ := h.next hc (hleft j List.mem_cons_self)
    · exact ⟨t, ht, hleader⟩
    · obtain ⟨u, hu, hleader⟩ := ih hnext (fun i hi => hleft i (List.mem_cons_of_mem _ hi)) (by
        rw [hsize]
        rw [List.length_cons] at hmajority
        omega)
      exact ⟨u, ht.trans hu, hleader⟩

/-- The node, but for its term and its vote. -/
structure Ready (s : Cluster) (c : ℕ) (t : Cluster) : Prop where
  size : t.size = s.size
  other : ∀ j, j ≠ c → t.nodes j = s.nodes j
  position : (t.nodes c).position = (s.nodes c).position
  role : (t.nodes c).state ≠ .leader
  deferred : t.deferred c = false

/-- The `persistState` of an election that a node has started. -/
lemma exists_ready (hc : c ∈ M) (hrole : (s.nodes c).state ≠ .leader) :
    ∃ t, Run (Canvass M) s t ∧ Ready s c t ∧ (t.nodes c).currentTerm = (s.nodes c).currentTerm := by
  cases hd : s.deferred c with
  | false => exact ⟨s, .refl, ⟨rfl, fun _ _ => rfl, rfl, hrole, hd⟩, rfl⟩
  | true =>
    have hstep : s.step (.persistElection c) = some { s.setNode c (s.nodes c).persistState with
        deferred := Function.update s.deferred c false } := if_pos hd
    generalize ht : { s.setNode c (s.nodes c).persistState with
        deferred := Function.update s.deferred c false } = t at hstep
    have hnode : t.nodes c = (s.nodes c).persistState := ht ▸ setNode_self _ _
    have hother : ∀ j, j ≠ c → t.nodes j = s.nodes j := fun j hj => ht ▸ setNode_ne hj _
    have hdeferred : t.deferred c = false := ht ▸ Function.update_self ..
    refine ⟨t, .step (a := .persistElection c) .refl hc hstep,
      ⟨ht ▸ rfl, hother, ?_, ?_, hdeferred⟩, ?_⟩
    · rw [hnode]
      rfl
    · rw [hnode]
      exact hrole
    · rw [hnode]
      rfl

/-- A node starts an election. -/
lemma exists_election (h : Wired s) (hc : c < s.size) (hcM : c ∈ M) (hd : s.deferred c = false)
    (hrole : (s.nodes c).state ≠ .leader) :
    ∃ t, Run (Canvass M) s t ∧ t.size = s.size ∧ (∀ j, j ≠ c → t.nodes j = s.nodes j) ∧
      t.nodes c = { s.nodes c with
        state := .candidate, currentTerm := (s.nodes c).currentTerm + 1, voteForId := (s.nodes c).id } ∧
      t.votedNum[s.votedNum.length]? = some 1 ∧
      ∀ j < s.size, j ≠ c → ∃ k : ℕ, t.calls[k]? =
        some (ballot c j (s.nodes c).candidacy s.votedNum.length) := by
  have hstep : ∃ t, s.step (.doElection c) = some t := by
    simp only [Cluster.step, if_pos hc, Cluster.doElection, hd, Raft.doElection, if_neg hrole]
    exact ⟨_, rfl⟩
  obtain ⟨t, ht⟩ := hstep
  refine ⟨t, .step (a := .doElection c) .refl hcM ht, ?_⟩
  simp only [Cluster.step, if_pos hc] at ht
  obtain ⟨-, r, requests, hr, rfl⟩ := doElection_cases ht
  obtain ⟨-, rfl, rfl⟩ := Raft.doElection_cases hr
  refine ⟨rfl, fun j hj => setNode_ne hj _, setNode_self _ _, List.getElem?_concat_length ..,
    fun j hj hjc => ?_⟩
  refine List.mem_iff_getElem?.mp (List.mem_append_right _ (List.mem_map.mpr ⟨(j, _), ?_, rfl⟩))
  refine List.mem_map.mpr ⟨(j, _), List.mem_map.mpr ⟨j, h.mem_others.mpr ⟨hj, hjc⟩, rfl⟩, rfl⟩

/-- A node that does not lead can come to any term. -/
lemma exists_term (h : Wired s) (hc : c < s.size) (hcM : c ∈ M)
    (hrole : (s.nodes c).state ≠ .leader) (T : ℕ) :
    ∃ t, Run (Canvass M) s t ∧ Ready s c t ∧ Wired t ∧ T ≤ (t.nodes c).currentTerm := by
  induction T with
  | zero =>
    obtain ⟨t, ht, hready, -⟩ := exists_ready hcM hrole
    exact ⟨t, ht, hready, (wired_run h ht).1, Nat.zero_le _⟩
  | succ T ih =>
    obtain ⟨t, ht, hready, hw, hT⟩ := ih
    obtain ⟨u, hu, husize, hother, hnode, -, -⟩ :=
      exists_election hw (hready.size ▸ hc) hcM hready.deferred hready.role
    obtain ⟨v, hv, hready', hterm⟩ := exists_ready (s := u) hcM (by rw [hnode]; exact nofun)
    refine ⟨v, (ht.trans hu).trans hv, ⟨?_, fun j hj => ?_, ?_, hready'.role, hready'.deferred⟩,
      (wired_run hw (hu.trans hv)).1, ?_⟩
    · exact hready'.size.trans (husize.trans hready.size)
    · exact (hready'.other j hj).trans ((hother j hj).trans (hready.other j hj))
    · rw [hready'.position, hnode]
      exact hready.position
    · rw [hterm, hnode]
      exact Nat.succ_le_succ hT

/-- The node of a majority whose log is the newest is elected, unless it leads already. -/
lemma exists_elected (hw : Wired s) (hn : 2 ≤ s.size) (hM : M ⊆ Finset.range s.size)
    (hmajority : s.size / 2 + 1 ≤ M.card) (hc : c ∈ M)
    (hmax : ∀ j ∈ M, (s.nodes j).position ≤ (s.nodes c).position)
    (hrole : (s.nodes c).state ≠ .leader) : ∃ t, Run (Canvass M) s t ∧ Elected M t c := by
  have hcn : c < s.size := Finset.mem_range.mp (hM hc)
  obtain ⟨t, ht, hready, hwt, hterm⟩ := exists_term hw hcn hc hrole
    (M.sup fun j => (s.nodes j).currentTerm)
  obtain ⟨u, hu, husize, hother, hnode, hcounter, hcalls⟩ :=
    exists_election hwt (hready.size ▸ hcn) hc hready.deferred hready.role
  have husize' : u.size = s.size := husize.trans hready.size
  have hsame : ∀ j, j ≠ c → u.nodes j = s.nodes j := fun j hj =>
    (hother j hj).trans (hready.other j hj)
  have hbelow : ∀ j ∈ M, (s.nodes j).currentTerm < (t.nodes c).candidacy.term := fun j hj =>
    Nat.lt_succ_of_le ((Finset.le_sup (f := fun j => (s.nodes j).currentTerm) hj).trans hterm)
  have hcampaign : Campaign M u c (t.nodes c).candidacy t.votedNum.length 1 (M.erase c).toList := by
    refine ⟨by rw [hnode], by rw [hnode]; rfl, ((wired_run hwt hu).1.node c).2, hcounter, ?_,
      fun j hj => ?_, fun j hj => ?_, Finset.nodup_toList _, fun j hj => ?_⟩
    · rw [husize']
      omega
    · obtain ⟨hjc, hjM⟩ := Finset.mem_erase.mp (Finset.mem_toList.mp hj)
      exact hcalls j (hready.size ▸ Finset.mem_range.mp (hM hjM)) hjc
    · obtain ⟨hjc, hjM⟩ := Finset.mem_erase.mp (Finset.mem_toList.mp hj)
      rw [hsame j hjc]
      refine ⟨hjc, hbelow j hjM, Raft.upToDate_of_le ?_⟩
      exact (hmax j hjM).trans hready.position.ge
    · by_cases hjc : j = c
      · rw [hjc, hnode]
        exact Nat.le_refl _
      · rw [hsame j hjc]
        exact Nat.le_of_lt (hbelow j hj)
  obtain ⟨v, hv, helected⟩ := hcampaign.win hc
    (fun j hj => Finset.mem_of_mem_erase (Finset.mem_toList.mp hj)) (by
      rw [husize', Finset.length_toList, Finset.card_erase_of_mem hc]
      omega)
  exact ⟨v, (ht.trans hu).trans hv, helected⟩

/-- From every state of every run, crashes and lost messages included, the nodes of any majority can
elect one of them, without any other node and without other steps than those of elections. -/
theorem exists_leader (hn : 2 ≤ n) (hs : Run Any (initial n) s) {M : Finset ℕ}
    (hM : M ⊆ Finset.range n) (hmajority : n / 2 + 1 ≤ M.card) :
    ∃ t, Run (Canvass M) s t ∧ ∃ c ∈ M, (t.nodes c).state = .leader := by
  obtain ⟨hw, hsize⟩ := wired_run (.initial n) hs
  by_cases hleads : ∃ c ∈ M, (s.nodes c).state = .leader
  · exact ⟨s, .refl, hleads⟩
  -- the candidate has the newest log of them
  have hne : M.Nonempty := Finset.card_pos.mp (by omega)
  obtain ⟨c, hc, hmax⟩ := M.exists_max_image (fun j => (s.nodes j).position) hne
  obtain ⟨t, ht, helected⟩ := exists_elected hw (hsize.symm ▸ hn) (hsize.symm ▸ hM)
    (hsize.symm ▸ hmajority) hc hmax fun h => hleads ⟨c, hc, h⟩
  exact ⟨t, ht, c, hc, helected.leader⟩

/-- Three nodes, of which the leader crashes and comes back without its log. -/
theorem exists_leader_restarted :
    ∃ s ∈ (Cluster.initial 3).runIf Any
        [.doElection 0, .deliver 0, .complete 0, .start 0 [7], .restart 0 []],
      (∀ i < 3, (s.nodes i).state ≠ .leader) ∧
        ∃ t, Run (Canvass {1, 2}) s t ∧ ∃ c ∈ ({1, 2} : Finset ℕ), (t.nodes c).state = .leader := by
  have hrun : ∃ s ∈ (Cluster.initial 3).runIf Any
      [.doElection 0, .deliver 0, .complete 0, .start 0 [7], .restart 0 []],
      ∀ i < 3, (s.nodes i).state ≠ .leader := by decide
  obtain ⟨s, hs, hnone⟩ := hrun
  exact ⟨s, hs, hnone, exists_leader (by decide) (run_of_runIf hs) (by decide) (by decide)⟩

/-! ### A node without peers -/

/-- Leaders are counted when a call completes. -/
lemma elected_step {a : Action} (hs : s.step a = some t) (ha : ∀ k, a ≠ .complete k) :
    t.elected = s.elected := by
  cases a with
  | doElection i =>
    simp only [Cluster.step] at hs
    split_ifs at hs
    obtain ⟨-, r, requests, -, rfl⟩ := doElection_cases hs
    rfl
  | persistElection i =>
    simp only [Cluster.step] at hs
    split_ifs at hs
    cases hs
    rfl
  | deliver id =>
    obtain ⟨c, -, hd⟩ := deliver_cases hs
    cases hd <;> rfl
  | resume k stable =>
    obtain ⟨w, r, rep, -, -, rfl⟩ := resume_cases hs
    rfl
  | complete k => exact absurd rfl (ha k)
  | fail id =>
    obtain ⟨c, -, rfl⟩ := fail_cases hs
    rfl
  | start i command =>
    simp only [Cluster.step] at hs
    split_ifs at hs
    obtain ⟨r, e, -, rfl⟩ := start_cases hs
    rfl
  | onLogStable k ok =>
    obtain ⟨i, index, -, rfl⟩ := onLogStable_cases hs
    rfl
  | doHeartBeat i =>
    simp only [Cluster.step] at hs
    split_ifs at hs
    obtain ⟨-, r, requests, snapshots, -, rfl⟩ := doHeartBeat_cases hs
    rfl
  | leaderSendSnapShot k =>
    obtain ⟨i, peer, -, rfl⟩ := leaderSendSnapShot_cases hs
    rfl
  | applierTicker i =>
    simp only [Cluster.step] at hs
    split_ifs at hs
    obtain ⟨r, logs, -, rfl⟩ := applierTicker_cases hs
    rfl
  | push i =>
    obtain ⟨msg, rest, -, rfl⟩ := push_cases hs
    rfl
  | snapshot i index data =>
    simp only [Cluster.step] at hs
    split_ifs at hs
    obtain ⟨r, -, rfl⟩ := snapshot_cases hs
    rfl
  | restart i logs =>
    simp only [Cluster.step] at hs
    split_ifs at hs
    cases hs
    rfl

/-- A cluster of one node never has a leader: the node sends no request, so that no reply makes it
count its own vote. -/
theorem no_leader_alone (hs : Run Any (initial 1) s) (i : ℕ) : (s.nodes i).state ≠ .leader := by
  have helected : Wired s ∧ s.size = 1 ∧ s.elected = [] := by
    induction hs with
    | refl => exact ⟨.initial 1, rfl, rfl⟩
    | @step t u a _ _ hs ih =>
      obtain ⟨hw, hsize, hnone⟩ := ih
      have g := step_follows hw hs
      refine ⟨hw.follows g, g.size.trans hsize, ?_⟩
      rw [elected_step hs, hnone]
      rintro k rfl
      obtain ⟨id, rep, c, -, hc, -, -⟩ := complete_cases hs
      obtain ⟨hcaller, hcallee, hne⟩ := hw.call hc
      omega
  intro hleader
  obtain ⟨-, -, h, -⟩ := elections_run (.initial 1) (.initial 1) (.initial 1) hs
  have := h.leader i hleader
  rw [helected.2.2] at this
  cases this

/-- It stays candidate, in the term of its last election. -/
theorem no_leader_alone_twice :
    ∃ s ∈ (Cluster.initial 1).runIf Any [.doElection 0, .persistElection 0, .doElection 0],
      (s.nodes 0).state = .candidate ∧ (s.nodes 0).currentTerm = 2 ∧ (s.nodes 0).state ≠ .leader := by
  have hrun : ∃ s ∈ (Cluster.initial 1).runIf Any [.doElection 0, .persistElection 0, .doElection 0],
      (s.nodes 0).state = .candidate ∧ (s.nodes 0).currentTerm = 2 := by decide
  obtain ⟨s, hs, hcandidate, hterm⟩ := hrun
  exact ⟨s, hs, hcandidate, hterm, no_leader_alone (run_of_runIf hs) 0⟩

end Cluster

end KVCacheRaft
