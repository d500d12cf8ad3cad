import KVCacheRaft.Raft.Simulation

/-!
# Elections simulate the protocol

Changes of the term, votes and the election of a leader as steps of the protocol. A node that reaches
a majority of granted replies is elected there, since every granted reply stands for a vote.
-/

namespace KVCacheRaft
open Consensus

/-- What the protocol sees of a node, besides its role. -/
structure View where
  term : ℕ
  logs : List LogEntry
  snapshotIndex : ℤ
  snapshotTerm : ℕ
  commitIndex : ℤ
  voteForId : ℤ
  matchIndex : ℕ → ℤ
  applyChan : List ApplyMsg

def Raft.view (r : Raft) : View where
  term := r.currentTerm
  logs := r.logs
  snapshotIndex := r.lastSnapshotIndex
  snapshotTerm := r.lastSnapshotTerm
  commitIndex := r.commitIndex
  voteForId := r.voteForId
  matchIndex := r.matchIndex
  applyChan := r.applyChan

variable {s : Cluster} {a : Abstract} {i : ℕ} {r : Raft}

/-- A step that leaves the term, the log and the votes as they are. -/
lemma NodeStep.keep (h : Sim s a) (hcur : r.currentTerm = (s.nodes i).currentTerm)
    (hholds : r.Holds (a.log i)) (hvote : r.voteForId = (s.nodes i).voteForId)
    (hstate : r.state = (s.nodes i).state ∨ r.state = .follower)
    (hchan : r.applyChan = (s.nodes i).applyChan)
    (hcommit : ∃ p, p <+: a.log i ∧ r.commitIndex = p.length ∧ Settled s.size a (a.cur i) p)
    (hle : (s.nodes i).commitIndex ≤ r.commitIndex)
    (hsnap : r.lastSnapshotIndex ≤ r.commitIndex) (hstable : r.commitIndex ≤ r.stableLogIndex)
    (hmatch : r.state = .leader → ∀ j, j < s.size → j ≠ i →
      r.matchIndex j ≤ max (a.ack j (a.cur i) : ℤ) r.commitIndex) : NodeStep s a i r a := by
  have hn := h.node i
  have hrole : ∀ {x}, r.state = x → x ≠ .follower → (s.nodes i).state = x := by
    rintro x rfl hx
    exact (hstate.resolve_right hx).symm
  exact {
    moves := Moves.refl i a
    indexed := h.indexed
    node := {
      cur := hcur.trans hn.cur
      holds := hholds
      commit := hcommit
      snapshot_le := hsnap
      commit_le := hstable
      fresh := fun hv => hn.fresh (hvote ▸ hv)
      voted := fun c hc => hn.voted c (hvote ▸ hc)
      leader := fun hs => hn.leader (hrole hs (by simp))
      acked := fun hs => hn.acked (hrole hs (by simp))
      candidate := fun hs => hn.candidate (hrole hs (by simp))
      matched := hmatch }
    commit_le := hle
    candidate := fun hs => .inr ⟨hrole hs (by simp), rfl, rfl⟩
    follower := fun _ hf => hstate.elim (fun hs => hs.trans hf) (fun hs => hs)
    ballot := fun hb => .inl hb
    pushed := fun msg hm => .inl (hchan ▸ hm) }

/-- A step that changes nothing the protocol sees, except that the node may become follower. -/
lemma NodeStep.touch (h : Sim s a) (hview : r.view = (s.nodes i).view)
    (hstable : (s.nodes i).stableLogIndex ≤ r.stableLogIndex)
    (hstate : r.state = (s.nodes i).state ∨ r.state = .follower) : NodeStep s a i r a := by
  have hn := h.node i
  have hcommit : r.commitIndex = (s.nodes i).commitIndex := congrArg View.commitIndex hview
  have hsnap : r.lastSnapshotIndex = (s.nodes i).lastSnapshotIndex :=
    congrArg View.snapshotIndex hview
  have hmatch : r.matchIndex = (s.nodes i).matchIndex := congrArg View.matchIndex hview
  refine .keep h (congrArg View.term hview)
    (hn.holds.congr (congrArg View.logs hview) hsnap (congrArg View.snapshotTerm hview))
    (congrArg View.voteForId hview) hstate (congrArg View.applyChan hview)
    (hcommit.symm ▸ hn.commit) hcommit.ge (by rw [hsnap, hcommit]; exact hn.snapshot_le)
    (by rw [hcommit]; exact hn.commit_le.trans hstable) fun hs j hj hji => ?_
  rw [hmatch, hcommit]
  refine hn.matched ?_ j hj hji
  rcases hstate with h1 | h1
  · exact h1 ▸ hs
  · rw [h1] at hs
    cases hs

/-- A message pushed to the server along with a step. -/
lemma NodeStep.push {a' : Abstract} {m : ApplyMsg} (st : NodeStep s a i r a')
    (hm : m.CommandValid = true → Applies s.size a' (a'.cur i) m) :
    NodeStep s a i (r.push m) a' where
  moves := st.moves
  indexed := st.indexed
  node := ⟨st.node.cur, st.node.holds, st.node.commit, st.node.snapshot_le, st.node.commit_le,
    st.node.fresh, st.node.voted, st.node.leader, st.node.acked, st.node.candidate,
    st.node.matched⟩
  commit_le := st.commit_le
  candidate := st.candidate
  follower := st.follower
  ballot hb := by
    rcases st.ballot hb with hold | ⟨h1, h2⟩
    · exact .inl hold
    · refine .inr ⟨h1, fun hc hs => h2 hc ?_⟩
      rename_i T c l
      by_cases hci : c = i
      · subst hci
        rw [Cluster.setNode_self] at hs ⊢
        exact hs
      · rw [Cluster.setNode_ne hci] at hs ⊢
        exact hs
  pushed msg hmem := by
    rcases List.mem_append.mp hmem with hmem | hmem
    · exact st.pushed msg hmem
    · rw [List.mem_singleton] at hmem
      exact .inr (hmem ▸ hm)

/-- A node that moves on to a later term, as a follower that has not voted there. -/
lemma NodeStep.newTerm (h : Sim s a) {T : ℕ} (hT : a.cur i < T)
    (hview : r.view = { (s.nodes i).view with term := T, voteForId := -1 })
    (hstable : (s.nodes i).stableLogIndex ≤ r.stableLogIndex) (hstate : r.state = .follower) :
    NodeStep s a i r (a.advance i T) := by
  have hn := h.node i
  have hinv := h.reachable.inv
  have hmoves := hinv.advance_moves (n := i) hT.le
  have hcur : (a.advance i T).cur i = T := by simp [State.advance]
  have hcommit : r.commitIndex = (s.nodes i).commitIndex := congrArg View.commitIndex hview
  have hvote : r.voteForId = -1 := congrArg View.voteForId hview
  have hchan : r.applyChan = (s.nodes i).applyChan := congrArg View.applyChan hview
  have hsnap : r.lastSnapshotIndex = (s.nodes i).lastSnapshotIndex :=
    congrArg View.snapshotIndex hview
  have hnone : (a.advance i T).ballot i T = none := by
    by_contra hne
    obtain ⟨b, hb⟩ := Option.ne_none_iff_exists'.mp hne
    have := hinv.ballot_cur hb
    omega
  exact {
    moves := hmoves
    indexed := h.indexed
    node := {
      cur := (congrArg View.term hview : r.currentTerm = T).trans hcur.symm
      holds := hn.holds.congr (congrArg View.logs hview) hsnap (congrArg View.snapshotTerm hview)
      commit := hn.commit_mono hmoves.extends_ List.prefix_rfl hcommit
      snapshot_le := by rw [hsnap, hcommit]; exact hn.snapshot_le
      commit_le := by rw [hcommit]; exact hn.commit_le.trans hstable
      fresh := fun _ => by rw [hcur]; exact hnone
      voted := fun c hc => by rw [hvote] at hc; omega
      leader := fun hs => by rw [hstate] at hs; cases hs
      acked := fun hs => by rw [hstate] at hs; cases hs
      candidate := fun hs => by rw [hstate] at hs; cases hs
      matched := fun hs => by rw [hstate] at hs; cases hs }
    commit_le := hcommit.ge
    candidate := fun hs => by rw [hstate] at hs; cases hs
    follower := fun hc => by rw [hcur] at hc; omega
    ballot := fun hb => .inl hb
    pushed := fun msg hm => .inl (hchan ▸ hm) }

/-- A node votes for `c`, unless it has done so already. -/
lemma Sim.vote (h : Sim s a) {c : ℕ} (hpos : 0 < a.cur i)
    (hfree : (s.nodes i).voteForId = -1 ∨ (s.nodes i).voteForId = c) (hcur : a.cur i ≤ a.cur c)
    (hlog : a.cur c = a.cur i → (s.nodes c).state = .candidate →
      UpToDate LogEntry.logterm (a.log c) (a.log i))
    (hview : r.view = { (s.nodes i).view with voteForId := c })
    (hstable : (s.nodes i).stableLogIndex ≤ r.stableLogIndex)
    (hstate : r.state = (s.nodes i).state) :
    ∃ a', Sim (s.setNode i r) a' ∧ Extends a a' ∧ a'.cur = a.cur ∧
      ∃ l, a'.ballot i (a.cur i) = some (c, l) := by
  have hn := h.node i
  rcases hfree with hnone | hsame
  · -- a vote of the protocol
    have hb := hn.fresh hnone
    have hmoves := h.reachable.inv.vote_moves (c := c) hb
    have hself : (a.vote i c).ballot i (a.cur i) = some (c, a.log i) := by simp [State.vote]
    refine ⟨a.vote i c, h.setNode (i := i) ?_, hmoves.extends_, rfl, a.log i, hself⟩
    have hcommit : r.commitIndex = (s.nodes i).commitIndex := congrArg View.commitIndex hview
    have hmatch : r.matchIndex = (s.nodes i).matchIndex := congrArg View.matchIndex hview
    have hvote : r.voteForId = c := congrArg View.voteForId hview
    have hchan : r.applyChan = (s.nodes i).applyChan := congrArg View.applyChan hview
    have hsnap : r.lastSnapshotIndex = (s.nodes i).lastSnapshotIndex :=
      congrArg View.snapshotIndex hview
    exact {
      moves := hmoves
      indexed := h.indexed
      node := {
        cur := (congrArg View.term hview : r.currentTerm = (s.nodes i).currentTerm).trans hn.cur
        holds := hn.holds.congr (congrArg View.logs hview) hsnap (congrArg View.snapshotTerm hview)
        commit := hn.commit_mono hmoves.extends_ List.prefix_rfl hcommit
        snapshot_le := by rw [hsnap, hcommit]; exact hn.snapshot_le
        commit_le := by rw [hcommit]; exact hn.commit_le.trans hstable
        fresh := fun hv => by rw [hvote] at hv; omega
        voted := fun d hd _ => by
          obtain rfl : d = c := by rw [hvote] at hd; omega
          exact ⟨a.log i, hself⟩
        leader := fun hs => hn.leader (hstate ▸ hs)
        acked := fun hs => hn.acked (hstate ▸ hs)
        candidate := fun hs => by
          -- a candidate has voted for itself, so it could not vote again
          obtain ⟨-, l, hl⟩ := hn.candidate (hstate ▸ hs)
          rw [hb] at hl
          cases hl
        matched := fun hs j hj hji => by
          rw [hmatch, hcommit]
          exact hn.matched (hstate ▸ hs) j hj hji }
      commit_le := hcommit.ge
      candidate := fun hs => .inr ⟨hstate ▸ hs, rfl, rfl⟩
      follower := fun _ hf => hstate.trans hf
      ballot := fun {T d l} hbal => by
        by_cases hT : T = a.cur i
        · subst hT
          obtain ⟨rfl, rfl⟩ := Prod.mk.inj (Option.some.inj (hself.symm.trans hbal))
          refine .inr ⟨hcur, fun hc hs => hlog hc ?_⟩
          by_cases hci : c = i
          · subst hci
            rw [Cluster.setNode_self, hstate] at hs
            exact hs
          · rwa [Cluster.setNode_ne hci] at hs
        · exact .inl (by simpa [State.vote, hT] using hbal)
      pushed := fun msg hm => .inl (hchan ▸ hm) }
  · -- the same vote again
    have hself : { (s.nodes i).view with voteForId := (c : ℤ) } = (s.nodes i).view := by
      rw [← hsame]
      rfl
    refine ⟨a, h.setNode (.touch h (hview.trans hself) hstable (.inl hstate)), Extends.refl a, rfl,
      hn.voted c hsame hpos⟩

/-- A node that catches up with the term of a request; it can also become a follower in its own. -/
lemma Sim.catchUp (h : Sim s a) {T : ℕ} (hT : (s.nodes i).currentTerm ≤ T)
    (hnew : T > (s.nodes i).currentTerm → r.state = .follower ∧
      r.view = { (s.nodes i).view with term := T, voteForId := -1 })
    (hold : ¬ T > (s.nodes i).currentTerm → r.view = (s.nodes i).view ∧
      (r.state = (s.nodes i).state ∨ r.state = .follower))
    (hstable : (s.nodes i).stableLogIndex ≤ r.stableLogIndex) :
    ∃ a', Sim (s.setNode i r) a' ∧ Extends a a' ∧ a'.cur i = T ∧ (∀ j, a.cur j ≤ a'.cur j) ∧
      a'.log = a.log := by
  have hcur := (h.node i).cur
  by_cases hgt : T > (s.nodes i).currentTerm
  · obtain ⟨h1, h2⟩ := hnew hgt
    have st := NodeStep.newTerm h (hcur ▸ hgt) h2 hstable h1
    exact ⟨_, h.setNode st, st.moves.extends_, by simp [State.advance], st.moves.extends_.cur, rfl⟩
  · obtain ⟨h1, h2⟩ := hold hgt
    exact ⟨a, h.setNode (.touch h h1 hstable h2), Extends.refl a, by omega, fun _ => le_rfl, rfl⟩

/-- A candidate of a new term, which has voted for itself. -/
lemma NodeStep.doElection (h : Sim s a) (hstate : r.state = .candidate)
    (hview : r.view = { (s.nodes i).view with
      term := (s.nodes i).currentTerm + 1, voteForId := (i : ℤ) })
    (hstable : (s.nodes i).stableLogIndex ≤ r.stableLogIndex) :
    ∃ a', NodeStep s a i r a' ∧ a'.log = a.log := by
  have hn := h.node i
  have hinv := h.reachable.inv
  set T := a.cur i + 1 with hT
  have hadv := hinv.advance_moves (n := i) (T := T) (by omega)
  have hcur : (a.advance i T).cur i = T := by simp [State.advance]
  have hnone : (a.advance i T).ballot i ((a.advance i T).cur i) = none := by
    rw [hcur]
    by_contra hne
    obtain ⟨b, hb⟩ := Option.ne_none_iff_exists'.mp hne
    have := hinv.ballot_cur (n := i) (T := T) hb
    omega
  have hvote := (hadv.reachable h.reachable).inv.vote_moves (c := i) hnone
  have hmoves := hadv.trans hvote
  set a' := (a.advance i T).vote i i with ha'
  have hcur' : a'.cur i = T := hcur
  have hself : a'.ballot i T = some (i, a.log i) := by simp [ha', State.vote, State.advance]
  have hlead : a'.lead T ≠ some i := by
    intro hl
    have := hinv.lead_cur (T := T) (c := i) hl
    omega
  have hcommit : r.commitIndex = (s.nodes i).commitIndex := congrArg View.commitIndex hview
  have hsnap : r.lastSnapshotIndex = (s.nodes i).lastSnapshotIndex :=
    congrArg View.snapshotIndex hview
  have hfor : r.voteForId = i := congrArg View.voteForId hview
  have hchan : r.applyChan = (s.nodes i).applyChan := congrArg View.applyChan hview
  refine ⟨a', {
    moves := hmoves
    indexed := h.indexed
    node := {
      cur := by
        rw [hcur', hT, ← hn.cur]
        exact congrArg View.term hview
      holds := hn.holds.congr (congrArg View.logs hview) hsnap (congrArg View.snapshotTerm hview)
      commit := hn.commit_mono hmoves.extends_ List.prefix_rfl hcommit
      snapshot_le := by rw [hsnap, hcommit]; exact hn.snapshot_le
      commit_le := by rw [hcommit]; exact hn.commit_le.trans hstable
      fresh := fun hv => by rw [hfor] at hv; omega
      voted := fun c hc _ => by
        obtain rfl : c = i := by rw [hfor] at hc; omega
        exact ⟨a.log c, by rw [hcur']; exact hself⟩
      leader := fun hs => by rw [hstate] at hs; cases hs
      acked := fun hs => by rw [hstate] at hs; cases hs
      candidate := fun _ => by rw [hcur']; exact ⟨hlead, a.log i, hself⟩
      matched := fun hs => by rw [hstate] at hs; cases hs }
    commit_le := hcommit.ge
    candidate := fun _ => .inl (by omega)
    follower := fun hc => by omega
    ballot := fun {U c l} hb => by
      by_cases hU : U = T
      · subst hU
        obtain ⟨rfl, rfl⟩ := Prod.mk.inj (Option.some.inj (hself.symm.trans hb))
        exact .inr ⟨hcur'.ge, fun _ _ => UpToDate.refl _⟩
      · left
        simpa [ha', State.vote, State.advance, hU] using hb
    pushed := fun msg hm => .inl (hchan ▸ hm) }, rfl⟩

/-- A candidate that a majority voted for is elected. -/
lemma NodeStep.elect (h : Sim s a) (hcand : (s.nodes i).state = .candidate) {V : Finset ℕ}
    (hV : V ⊆ Finset.range s.size) (hcard : s.size / 2 + 1 ≤ V.card)
    (hvotes : ∀ j ∈ V, ∃ l, a.ballot j (a.cur i) = some (i, l))
    (hview : ∃ matchIndex : ℕ → ℤ, (∀ j, j < s.size → j ≠ i → matchIndex j = 0) ∧
      r.view = { (s.nodes i).view with matchIndex })
    (hstable : (s.nodes i).stableLogIndex ≤ r.stableLogIndex) (hstate : r.state = .leader) :
    ∃ a', NodeStep s a i r a' := by
  have hn := h.node i
  have hinv := h.reachable.inv
  have hQ : (majority s.size).IsQuorum {j | j ∈ V} := ⟨V, hV, fun _ hj => hj, hcard⟩
  have hnone : a.lead (a.cur i) = none := by
    by_contra hne
    obtain ⟨d, hd⟩ := Option.ne_none_iff_exists'.mp hne
    obtain ⟨R, hR, hRvotes⟩ := hinv.elected hd
    obtain ⟨j, hjV, hjR⟩ := (majority s.size).inter hQ hR
    obtain ⟨l, hl⟩ := hvotes j hjV
    obtain ⟨l', hl', -⟩ := hRvotes j hjR
    rw [hl] at hl'
    obtain ⟨rfl, -⟩ := Prod.mk.inj (Option.some.inj hl')
    exact (hn.candidate hcand).1 hd
  have hup : ∀ j ∈ {j | j ∈ V}, ∃ l, a.ballot j (a.cur i) = some (i, l) ∧
      UpToDate LogEntry.logterm (a.log i) l := by
    intro j hj
    obtain ⟨l, hl⟩ := hvotes j hj
    exact ⟨l, hl, (h.ballot hl).2 rfl hcand⟩
  have hmoves := hinv.elect_moves hnone hQ hup
  set a' := (a.elect i).confirm i (a.log i).length with ha'
  have hlead : a'.lead (a.cur i) = some i := by simp [ha', State.elect, State.confirm]
  obtain ⟨matchIndex, hzero, hview⟩ := hview
  have hcommit : r.commitIndex = (s.nodes i).commitIndex := congrArg View.commitIndex hview
  have hsnap : r.lastSnapshotIndex = (s.nodes i).lastSnapshotIndex :=
    congrArg View.snapshotIndex hview
  have hvote : r.voteForId = (s.nodes i).voteForId := congrArg View.voteForId hview
  have hmatch : r.matchIndex = matchIndex := congrArg View.matchIndex hview
  have hchan : r.applyChan = (s.nodes i).applyChan := congrArg View.applyChan hview
  refine ⟨a', {
    moves := hmoves
    indexed := fun T => by
      by_cases hT : T = a.cur i
      · subst hT
        simpa [ha', State.elect, State.confirm] using h.indexed_log i
      · simpa [ha', State.elect, State.confirm, hT] using h.indexed T
    node := {
      cur := (congrArg View.term hview : r.currentTerm = (s.nodes i).currentTerm).trans hn.cur
      holds := hn.holds.congr (congrArg View.logs hview) hsnap (congrArg View.snapshotTerm hview)
      commit := hn.commit_mono hmoves.extends_ List.prefix_rfl hcommit
      snapshot_le := by rw [hsnap, hcommit]; exact hn.snapshot_le
      commit_le := by rw [hcommit]; exact hn.commit_le.trans hstable
      fresh := fun hv => hn.fresh (hvote ▸ hv)
      voted := fun c hc => hn.voted c (hvote ▸ hc)
      leader := fun _ => hlead
      acked := fun _ => by simp [ha', State.elect, State.confirm]
      candidate := fun hs => by rw [hstate] at hs; cases hs
      matched := fun _ j hj hji => by
        rw [hmatch, hzero j hj hji, hcommit]
        exact le_max_of_le_right hn.commit_nonneg }
    commit_le := hcommit.ge
    candidate := fun hs => by rw [hstate] at hs; cases hs
    follower := fun _ hf => by rw [hcand] at hf; cases hf
    ballot := fun hb => .inl hb
    pushed := fun msg hm => .inl (hchan ▸ hm) }⟩

/-! ### The handlers -/

namespace Cluster

variable {s' : Cluster}

/-- An election that begins is simulated. -/
lemma sim_doElection (w : Wired s) (h : Sim s a) (hs : s.doElection i = some s') :
    ∃ a', Sim s' a' ∧ Extends a a' := by
  obtain ⟨-, r, requests, hr, rfl⟩ := doElection_cases hs
  obtain ⟨-, rfl, rfl⟩ := Raft.doElection_cases hr
  have hn := h.node i
  have hid := (w.node i).1
  obtain ⟨a', st, hlog⟩ := NodeStep.doElection (r := { s.nodes i with
    state := .candidate, currentTerm := (s.nodes i).currentTerm + 1, voteForId := (s.nodes i).id })
    h rfl (by rw [hid]; rfl) (Int.le_refl _)
  have h' := h.setNode st
  refine ⟨a', h'.frame.sent ?_, st.moves.extends_⟩
  intro j q hq
  simp only [List.map_map, List.mem_map, Function.comp_apply, Prod.mk.injEq] at hq
  obtain ⟨j, -, rfl, rfl⟩ := hq
  have hcur : (s.nodes i).currentTerm + 1 = a'.cur i := by simpa using (h'.node i).cur
  exact ⟨Nat.succ_pos _, congrArg Int.ofNat hid, hcur.le, fun _ _ => ⟨by
    rw [hlog]; exact hn.holds.getLastLogIndex (h.indexed_log i), by
    rw [hlog]; exact hn.holds.getLastLogTerm⟩⟩

/-- The check of `RequestVote` is the comparison of logs of the protocol. -/
lemma upToDate_iff (h : Sim s a) {args : RequestVoteArgs} {l : List LogEntry}
    (hlen : args.lastlogindex = l.length) (hterm : args.lastlogterm = lastTerm LogEntry.logterm l)
    (hup : (s.nodes i).upToDate args = true) : UpToDate LogEntry.logterm l (a.log i) := by
  have hn := h.node i
  simp only [Raft.upToDate, hn.holds.getLastLogTerm, hn.holds.getLastLogIndex (h.indexed_log i),
    hlen, hterm, Bool.or_eq_true, Bool.and_eq_true, decide_eq_true_eq, beq_iff_eq] at hup
  rcases hup with hup | ⟨h1, h2⟩
  · exact .inl hup
  · exact .inr ⟨h1, by omega⟩

/-- `RequestVote` is simulated. -/
lemma sim_requestVote (h : Sim s a) {id e : ℕ} {c : Call} {args : RequestVoteArgs}
    (hc : s.calls[id]? = some c) (hreq : c.request = .requestVote args e) :
    ∃ a', Sim ((s.setNode c.callee ((s.nodes c.callee).requestVote args).1).reply id
      (.requestVote ((s.nodes c.callee).requestVote args).2)) a' ∧ Extends a a' := by
  have hvs : ∀ {t b}, Sim t b → t.calls[id]? = some c → VoteSim t b c.caller args := by
    intro t b ht hc
    have := ht.call hc
    rwa [CallSim, hreq] at this
  have hnot : ∀ {b} {rep : RequestVoteReply}, rep.votegranted = false →
      ReplySim b c (.requestVote rep) := by
    intro b rep hno args e _ hgrant
    rw [hno] at hgrant
    cases hgrant
  set n := c.callee with hn
  have hcatch : (s.nodes n).currentTerm ≤ args.term → ∀ r', r'.view = ((s.nodes n).catchUp
      args.term).view → r'.state = ((s.nodes n).catchUp args.term).state →
      r'.stableLogIndex = ((s.nodes n).catchUp args.term).stableLogIndex →
      ∃ a', Sim (s.setNode n r') a' ∧ Extends a a' ∧ a'.cur n = args.term := by
    intro hle r' hview hstate hstable
    obtain ⟨a', h1, h2, h3, -⟩ := h.catchUp (i := n) (r := r') (T := args.term) hle
      (fun hgt => by
        rw [Raft.catchUp, if_pos hgt] at hview hstate
        exact ⟨hstate, hview⟩)
      (fun hgt => by
        rw [Raft.catchUp, if_neg hgt] at hview hstate
        exact ⟨hview, .inl hstate⟩)
      (by rw [hstable]; unfold Raft.catchUp; split_ifs <;> exact Int.le_refl _)
    exact ⟨a', h1, h2, h3⟩
  rcases (s.nodes n).requestVote_cases args with ⟨-, h1, h2⟩ | ⟨hle, h1, h2⟩ |
    ⟨hle, hup, hfree, h1, h2⟩
  · rw [h1]
    exact ⟨a, (h.setNode (.touch h rfl (Int.le_refl _) (.inl rfl))).replied hc (hnot h2),
      Extends.refl a⟩
  · obtain ⟨a', h3, h4, -⟩ := hcatch hle ((s.nodes n).requestVote args).1
      (h1.elim (fun h1 => by rw [h1]) fun h1 => by rw [h1]; rfl)
      (h1.elim (fun h1 => by rw [h1]) fun h1 => by rw [h1]; rfl)
      (h1.elim (fun h1 => by rw [h1]) fun h1 => by rw [h1]; rfl)
    exact ⟨a', h3.replied hc (hnot h2), h4⟩
  · obtain ⟨a₁, h3, h4, hcur⟩ := hcatch hle _ rfl rfl rfl
    have hv := hvs h3 hc
    obtain ⟨a', h5, h6, -, l, hl⟩ := h3.vote (i := n) (c := c.caller)
      (r := ((s.nodes n).requestVote args).1) (by rw [hcur]; exact hv.term_pos)
      (by rw [setNode_self, ← hv.candidate]; exact hfree)
      (by rw [hcur]; exact hv.term_le)
      (fun hct hst => by
        obtain ⟨h7, h8⟩ := hv.log (by rw [hct, hcur]) hst
        exact upToDate_iff h3 h7 h8 (by rw [setNode_self]; exact hup))
      (by rw [h1, setNode_self, ← hv.candidate]; rfl) (by rw [h1, setNode_self]; exact Int.le_refl _)
      (by rw [h1, setNode_self]; rfl)
    rw [setNode_setNode] at h5
    refine ⟨a', h5.replied hc ?_, h4.trans h6⟩
    intro args' e' hreq' _
    obtain ⟨rfl, -⟩ := Request.requestVote.inj (hreq.symm.trans hreq')
    exact ⟨l, hcur ▸ hl⟩

/-- The nodes counted in the election of a candidate have voted for it. -/
lemma Granted.ballot (h : Sim s a) (w : Wired s) (t : Tally s') (hcalls : s'.calls = s.calls)
    (hreplies : s'.replies = s.replies) {k e j : ℕ} {c : Call} {args : RequestVoteArgs}
    (hc : s.calls[k]? = some c) (hreq : c.request = .requestVote args e) (hg : s'.Granted e j) :
    s.Peers c.caller j ∧ ∃ l, a.ballot j args.term = some (c.caller, l) := by
  obtain ⟨k', c', args', rep, hc', hreq', rfl, -, hrep, hgrant, -⟩ := hg
  obtain ⟨hcaller, rfl, -⟩ := t.same hc' (hcalls.symm ▸ hc) hreq' hreq
  rw [hcalls] at hc'
  rw [hreplies] at hrep
  obtain ⟨c'', hc'', hr⟩ := h.reply hrep
  obtain rfl := Option.some.inj (hc'.symm.trans hc'')
  rw [← hcaller]
  exact ⟨w.call hc', hr args' e hreq' hgrant⟩

/-- A vote that is counted is simulated. -/
lemma sim_handleRequestVoteResponse (w : Wired s) (t' : Tally s') (h : Sim s a) {id e : ℕ}
    {c : Call} {args : RequestVoteArgs} {rep : RequestVoteReply} (hc : s.calls[id]? = some c)
    (hreq : c.request = .requestVote args e)
    (hs : s' = { (s.completed id c).setNode c.caller
        ((s.nodes c.caller).handleRequestVoteResponse args rep (s.votedNum.getD e 0)).1 with
      votedNum := s.votedNum.set e
        ((s.nodes c.caller).handleRequestVoteResponse args rep (s.votedNum.getD e 0)).2
      elected := s'.elected }) :
    ∃ a', Sim s' a' ∧ Extends a a' := by
  have h₁ := h.completed hc
  set i := c.caller with hi
  set v := s.votedNum.getD e 0 with hv
  have hsame : ∀ {r'}, r' = s.nodes i → ∃ a', Sim ((s.completed id c).setNode i r') a' ∧
      Extends a a' := by
    rintro r' rfl
    exact ⟨a, h₁.setNode (.touch h₁ rfl (Int.le_refl _) (.inl rfl)), Extends.refl a⟩
  suffices hset : ∃ a', Sim ((s.completed id c).setNode i
      ((s.nodes i).handleRequestVoteResponse args rep v).1) a' ∧ Extends a a' by
    obtain ⟨a', h2, h3⟩ := hset
    rw [hs]
    exact ⟨a', h2.frame, h3⟩
  rcases (s.nodes i).handleRequestVoteResponse_cases args rep v with
    ⟨hgt, hr⟩ | hr | ⟨-, hcand, hargs, -, hr | ⟨hmaj, hr⟩⟩
  · have st := NodeStep.newTerm (r := ((s.nodes i).newTerm rep.term).persistState) h₁
      (i := i) (T := rep.term) (by rw [← (h₁.node i).cur]; exact hgt) rfl (Int.le_refl _) rfl
    rw [hr]
    exact ⟨_, h₁.setNode st, st.moves.extends_⟩
  · exact hsame (by rw [hr])
  · exact hsame (by rw [hr])
  · -- the counter has reached a majority: all counted nodes and the candidate voted for it
    obtain ⟨d, hd, hl⟩ := completed_later hc hc
    have hcalls : s'.calls = (s.completed id c).calls := by rw [hs]; rfl
    have hlen : e < s'.votedNum.length := t'.election_lt (hcalls ▸ hd) (hl.request.trans hreq)
    have hcount : s'.votedNum[e]? = some (v + 1) := by
      rw [hs] at hlen ⊢
      rw [List.length_set] at hlen
      simp [hr, hlen]
    obtain ⟨V, hcard, hV⟩ := t'.counted hcount
    have hvotes : ∀ j ∈ V, s.Peers i j ∧ ∃ l, a.ballot j args.term = some (i, l) := by
      intro j hj
      have := Granted.ballot (h.completed hc) (w.follows (.completed hc (.refl _))) t' hcalls
        (by rw [hs]; rfl) hd (hl.request.trans hreq) (hV j hj)
      rwa [hl.caller] at this
    have hni : i ∉ V := fun hmem => (hvotes i hmem).1.2.2 rfl
    have hcur : args.term = a.cur i := hargs.trans (h.node i).cur
    obtain ⟨a', st⟩ := NodeStep.elect (i := i) (V := insert i V)
      (r := (s.nodes i).becomeLeader.persistState) h₁ hcand
      (fun j hj => by
        rcases Finset.mem_insert.mp hj with rfl | hj
        · exact Finset.mem_range.mpr (w.call hc).1
        · exact Finset.mem_range.mpr (hvotes j hj).1.2.1)
      (by
        rw [Finset.card_insert_of_notMem hni]
        rw [(w.node i).2] at hmaj
        exact hmaj.le.trans hcard)
      (fun j hj => by
        rcases Finset.mem_insert.mp hj with rfl | hj
        · exact ((h.node _).candidate hcand).2
        · exact hcur ▸ (hvotes j hj).2)
      ⟨_, fun j hj hji => if_pos (w.mem_others.mpr ⟨hj, hji⟩), rfl⟩ (Int.le_refl _) rfl
    rw [hr]
    exact ⟨a', h₁.setNode st, st.moves.extends_⟩

end Cluster

end KVCacheRaft
