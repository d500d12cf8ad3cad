import KVCacheRaft.Consensus.Majority
import KVCacheRaft.Raft.Pending
import KVCacheRaft.Raft.Calls

/-!
# The cluster as an instance of the replicated-log protocol

`Sim s a` relates a cluster `s` to a state `a` of the protocol of `Consensus`: what each node holds
(`NodeSim`), and what the requests, the replies and the waiting handlers promise. A promise speaks of
things that never go away, such as leaders' logs and confirmations, so messages may be as late as
they like. `Sim.setNode` reduces a step of a node to what it does to that node.
-/

namespace KVCacheRaft
open Consensus

/-- The logs of the protocol are lists of entries, a quorum is a majority of the nodes. -/
abbrev Abstract := State ℕ LogEntry

/-- A prefix that may be applied in term `U`: the empty one, or one committed in a term up to `U`. -/
def Settled (n : ℕ) (a : Abstract) (U : ℕ) (p : List LogEntry) : Prop :=
  p = [] ∨ Committed (majority n) LogEntry.logterm a U p

/-- The message carries the last command of a settled prefix, under its index. -/
def Applies (n : ℕ) (a : Abstract) (U : ℕ) (msg : ApplyMsg) : Prop :=
  ∃ p e, Settled n a U (p ++ [e]) ∧ msg.CommandIndex = p.length + 1 ∧ msg.Command = e.command

/-- What a node stands for in the protocol. -/
structure NodeSim (n : ℕ) (a : Abstract) (i : ℕ) (r : Raft) : Prop where
  cur : r.currentTerm = a.cur i
  holds : r.Holds (a.log i)
  commit : ∃ p, p <+: a.log i ∧ r.commitIndex = p.length ∧ Settled n a (a.cur i) p
  snapshot_le : r.lastSnapshotIndex ≤ r.commitIndex
  commit_le : r.commitIndex ≤ r.stableLogIndex
  fresh : r.voteForId = -1 → a.ballot i (a.cur i) = none
  voted : ∀ c : ℕ, r.voteForId = c → 0 < a.cur i → ∃ l, a.ballot i (a.cur i) = some (c, l)
  leader : r.state = .leader → a.lead (a.cur i) = some i
  acked : r.state = .leader → (a.log i).length ≤ a.ack i (a.cur i)
  candidate : r.state = .candidate →
    a.lead (a.cur i) ≠ some i ∧ ∃ l, a.ballot i (a.cur i) = some (i, l)
  matched : r.state = .leader → ∀ j, j < n → j ≠ i →
    r.matchIndex j ≤ max (a.ack j (a.cur i) : ℤ) r.commitIndex

/-- What an `AppendEntries` request of node `c` promises: entries `p ++ entries` of the log of the
leader of its term, which is `c`, and a settled prefix of them. -/
structure AppendSim (n : ℕ) (a : Abstract) (c : ℕ) (args : AppendEntriesArgs) : Prop where
  lead : a.lead args.term = some c
  entries : ∃ p w, p ++ args.entries <+: a.full args.term ∧ args.prevlogindex = p.length ∧
    args.prevlogterm = lastTerm LogEntry.logterm p ∧ w <+: p ++ args.entries ∧
    args.leadercommit = w.length ∧ Settled n a args.term w

/-- What an `InstallSnapshot` request promises: its snapshot covers a settled prefix. -/
def SnapshotSim (n : ℕ) (a : Abstract) (args : InstallSnapshotRequest) : Prop :=
  ∃ p, args.lastsnapshotincludeindex = p.length ∧
    args.lastsnapshotincludeterm = lastTerm LogEntry.logterm p ∧ Settled n a args.term p

/-- What a `RequestVote` request of node `c` promises, as long as `c` is candidate in its term. -/
structure VoteSim (s : Cluster) (a : Abstract) (c : ℕ) (args : RequestVoteArgs) : Prop where
  term_pos : 0 < args.term
  candidate : args.candidateid = c
  term_le : args.term ≤ a.cur c
  log : a.cur c = args.term → (s.nodes c).state = .candidate →
    args.lastlogindex = (a.log c).length ∧
    args.lastlogterm = lastTerm LogEntry.logterm (a.log c)

/-- What the request of a call promises. -/
def CallSim (s : Cluster) (a : Abstract) (c : Call) : Prop :=
  match c.request with
  | .requestVote args _ => VoteSim s a c.caller args
  | .appendEntries args => AppendSim s.size a c.caller args
  | .installSnapshot args => SnapshotSim s.size a args ∧
      args.lastsnapshotincludeindex ≤ (s.nodes c.caller).commitIndex

/-- What a reply to a call promises: the vote granted, or the entries confirmed. -/
def ReplySim (a : Abstract) (c : Call) : Reply → Prop
  | .requestVote rep => ∀ args e, c.request = .requestVote args e → rep.votegranted = true →
      ∃ l, a.ballot c.callee args.term = some (c.caller, l)
  | .appendEntries rep => ∀ args, c.request = .appendEntries args → rep.success = true →
      rep.term = args.term ∧
        args.prevlogindex + args.entries.length ≤ a.ack c.callee args.term
  | .installSnapshot _ => True

/-- What a handler of `AppendEntries` knows when it waits for the WAL: the entries of the request
that the node confirmed, and the writes for the others. -/
structure HandlerSim (s : Cluster) (a : Abstract) (h : Handler) : Prop where
  call : ∃ c, s.calls[h.call]? = some c ∧ c.callee = h.node ∧ c.request = .appendEntries h.args
  term_le : h.args.term ≤ a.cur h.node
  follower : a.cur h.node = h.args.term → (s.nodes h.node).state = .follower
  writes : ∃ m rest snapshot last, h.args.entries = m ++ rest ∧
    h.args.prevlogindex + m.length ≤ a.ack h.node h.args.term ∧
    h.pendingWrites = rest.map (writeOf snapshot last)

/-- The cluster `s` does what the protocol does in state `a`. -/
structure Sim (s : Cluster) (a : Abstract) : Prop where
  reachable : Reachable (majority s.size) LogEntry.logterm a
  indexed : ∀ T, Indexed (a.full T)
  node : ∀ i, NodeSim s.size a i (s.nodes i)
  ballot : ∀ {j T c l}, a.ballot j T = some (c, l) → T ≤ a.cur c ∧
    (a.cur c = T → (s.nodes c).state = .candidate → UpToDate LogEntry.logterm (a.log c) l)
  call : ∀ {k : ℕ} {c : Call}, s.calls[k]? = some c → CallSim s a c
  reply : ∀ {k rep}, (k, rep) ∈ s.replies → ∃ c, s.calls[k]? = some c ∧ ReplySim a c rep
  handler : ∀ {h}, h ∈ s.handlers → HandlerSim s a h
  copied : ∀ i, ∀ msg ∈ s.copied i, Applies s.size a (a.cur i) msg
  pushed : ∀ i, ∀ msg ∈ (s.nodes i).applyChan, msg.CommandValid = true →
    Applies s.size a (a.cur i) msg

variable {n : ℕ} {s : Cluster} {a a' : Abstract} {i : ℕ} {r : Raft}

/-! ### Promises are kept -/

/-- The empty prefix is settled. -/
lemma Settled.nil (n : ℕ) (a : Abstract) (U : ℕ) : Settled n a U [] := .inl rfl

/-- A settled prefix stays settled, as do its beginnings. -/
lemma Settled.mono {U U' : ℕ} {p p' : List LogEntry} (g : Extends a a') (hU : U ≤ U')
    (hp : p' <+: p) (h : Settled n a U p) : Settled n a' U' p' := by
  rcases h with rfl | h
  · exact .inl (List.prefix_nil.mp hp)
  · exact .inr (h.mono g hU hp)

/-- A message that applies stays true. -/
lemma Applies.mono {U U' : ℕ} {msg : ApplyMsg} (g : Extends a a') (hU : U ≤ U')
    (h : Applies n a U msg) : Applies n a' U' msg := by
  obtain ⟨p, e, hs, h1, h2⟩ := h
  exact ⟨p, e, hs.mono g hU List.prefix_rfl, h1, h2⟩

/-- A request stays true of its leader. -/
lemma AppendSim.mono {c : ℕ} {args : AppendEntriesArgs} (g : Extends a a')
    (h : AppendSim n a c args) : AppendSim n a' c args := by
  obtain ⟨p, w, h1, h2, h3, h4, h5, h6⟩ := h.entries
  exact ⟨(g.lead h.lead).1, p, w, h1.trans (g.full _), h2, h3, h4, h5,
    h6.mono g le_rfl List.prefix_rfl⟩

/-- A snapshot on its way stays committed. -/
lemma SnapshotSim.mono {args : InstallSnapshotRequest} (g : Extends a a')
    (h : SnapshotSim n a args) : SnapshotSim n a' args := by
  obtain ⟨p, h1, h2, h3⟩ := h
  exact ⟨p, h1, h2, h3.mono g le_rfl List.prefix_rfl⟩

/-- A reply stays true of its call. -/
lemma ReplySim.mono {c c' : Call} {rep : Reply} (g : Extends a a') (hl : c.Later c')
    (h : ReplySim a c rep) : ReplySim a' c' rep := by
  cases rep with
  | requestVote rep =>
    intro args e hreq hgrant
    rw [hl.caller, hl.callee]
    obtain ⟨l, hb⟩ := h args e (hl.request ▸ hreq) hgrant
    exact ⟨l, g.ballot hb⟩
  | appendEntries rep =>
    intro args hreq hsucc
    rw [hl.callee]
    obtain ⟨h1, h2⟩ := h args (hl.request ▸ hreq) hsucc
    have := g.ack c.callee args.term
    exact ⟨h1, by omega⟩
  | installSnapshot rep => trivial

/-- The commit index is not negative. -/
lemma NodeSim.commit_nonneg (h : NodeSim n a i r) : 0 ≤ r.commitIndex := by
  obtain ⟨p, -, hp, -⟩ := h.commit
  omega

/-- What a node has committed stays committed while its log grows. -/
lemma NodeSim.commit_mono {r' : Raft} (h : NodeSim n a i r) (g : Extends a a')
    (hlog : a.log i <+: a'.log i) (hcommit : r'.commitIndex = r.commitIndex) :
    ∃ p, p <+: a'.log i ∧ r'.commitIndex = p.length ∧ Settled n a' (a'.cur i) p := by
  obtain ⟨p, h1, h2, h3⟩ := h.commit
  exact ⟨p, h1.trans hlog, hcommit.trans h2, h3.mono g (g.cur i) List.prefix_rfl⟩

/-- A node is not touched by steps of others. -/
lemma NodeSim.of_moves {j : ℕ} (m : Moves (majority n) LogEntry.logterm i a a') (hj : j ≠ i)
    (h : NodeSim n a j r) : NodeSim n a' j r where
  cur := (m.cur j hj).symm ▸ h.cur
  holds := (m.log j hj).symm ▸ h.holds
  commit := h.commit_mono m.extends_ (m.log j hj ▸ List.prefix_rfl) rfl
  snapshot_le := h.snapshot_le
  commit_le := h.commit_le
  fresh hv := by
    rw [m.ballot j hj, m.cur j hj]
    exact h.fresh hv
  voted c hc := by
    rw [m.ballot j hj, m.cur j hj]
    exact h.voted c hc
  leader hs := by
    rw [m.cur j hj]
    exact (m.extends_.lead (h.leader hs)).1
  acked hs := by
    rw [m.log j hj, m.cur j hj]
    exact (h.acked hs).trans (m.extends_.ack j (a.cur j))
  candidate hs := by
    rw [m.ballot j hj, m.cur j hj]
    obtain ⟨h1, h2⟩ := h.candidate hs
    exact ⟨fun hl => h1 (m.lead hj hl), h2⟩
  matched hs k hk hkj := by
    rw [m.cur j hj]
    have := h.matched hs k hk hkj
    have := m.extends_.ack k (a.cur j)
    omega

/-- What a step of node `i` has to do, from `a` to `a'`, leaving the node as `r`. -/
structure NodeStep (s : Cluster) (a : Abstract) (i : ℕ) (r : Raft) (a' : Abstract) : Prop where
  moves : Moves (majority s.size) LogEntry.logterm i a a'
  indexed : ∀ T, Indexed (a'.full T)
  node : NodeSim s.size a' i r
  commit_le : (s.nodes i).commitIndex ≤ r.commitIndex
  candidate : r.state = .candidate → a.cur i < a'.cur i ∨
    (s.nodes i).state = .candidate ∧ a'.cur i = a.cur i ∧ a'.log i = a.log i
  follower : a'.cur i = a.cur i → (s.nodes i).state = .follower → r.state = .follower
  ballot : ∀ {T c l}, a'.ballot i T = some (c, l) → a.ballot i T = some (c, l) ∨
    T ≤ a'.cur c ∧ (a'.cur c = T → ((s.setNode i r).nodes c).state = .candidate →
      UpToDate LogEntry.logterm (a'.log c) l)
  pushed : ∀ msg ∈ r.applyChan, msg ∈ (s.nodes i).applyChan ∨
    (msg.CommandValid = true → Applies s.size a' (a'.cur i) msg)

/-- While a node is candidate in its old term, it has its old log. -/
lemma NodeStep.of_candidate (st : NodeStep s a i r a') {c T : ℕ} (hT : T ≤ a.cur c)
    (hc : a'.cur c = T) (hs : ((s.setNode i r).nodes c).state = .candidate) :
    a.cur c = T ∧ (s.nodes c).state = .candidate ∧ a'.log c = a.log c := by
  by_cases hci : c = i
  · subst hci
    rw [Cluster.setNode_self] at hs
    rcases st.candidate hs with h | ⟨h1, h2, h3⟩
    · omega
    · exact ⟨h2 ▸ hc, h1, h3⟩
  · rw [Cluster.setNode_ne hci] at hs
    exact ⟨st.moves.cur c hci ▸ hc, hs, st.moves.log c hci⟩

/-- A call stays true when a node takes a step. -/
lemma CallSim.setNode {c : Call} (st : NodeStep s a i r a') (h : CallSim s a c) :
    CallSim (s.setNode i r) a' c := by
  unfold CallSim at *
  have g := st.moves.extends_
  split at h
  · refine ⟨h.term_pos, h.candidate, h.term_le.trans (g.cur _), fun hc hs => ?_⟩
    obtain ⟨h1, h2, h3⟩ := st.of_candidate h.term_le hc hs
    rw [h3]
    exact h.log h1 h2
  · exact h.mono g
  · refine ⟨h.1.mono g, ?_⟩
    by_cases hci : c.caller = i
    · rw [hci, Cluster.setNode_self]
      exact (hci ▸ h.2).trans st.commit_le
    · rw [Cluster.setNode_ne hci]
      exact h.2

/-- A handler stays true when a node takes a step. -/
lemma HandlerSim.setNode {h : Handler} (st : NodeStep s a i r a') (hs : HandlerSim s a h) :
    HandlerSim (s.setNode i r) a' h where
  call := hs.call
  term_le := hs.term_le.trans (st.moves.extends_.cur _)
  follower hc := by
    by_cases hi : h.node = i
    · rw [hi, Cluster.setNode_self]
      have hcur : a'.cur i = a.cur i := by
        have h1 := hs.term_le
        have h2 := st.moves.extends_.cur i
        rw [hi] at h1 hc
        omega
      have h3 := hs.follower (by rw [hi]; rw [hi] at hc; omega)
      exact st.follower hcur (hi ▸ h3)
    · rw [Cluster.setNode_ne hi]
      exact hs.follower (st.moves.cur _ hi ▸ hc)
  writes := by
    obtain ⟨m, rest, snapshot, last, h1, h2, h3⟩ := hs.writes
    have := st.moves.extends_.ack h.node h.args.term
    exact ⟨m, rest, snapshot, last, h1, by omega, h3⟩

/-- The entries of a log made of pieces of leaders' logs carry their positions. -/
lemma Sim.indexed_of_rooted (h : Sim s a) {l : List LogEntry}
    (hl : Rooted LogEntry.logterm a l) : Indexed l :=
  fun _ _ hp => h.indexed _ (hl hp).2

/-- The entries of an abstract log have their indices. -/
lemma Sim.indexed_log (h : Sim s a) (i : ℕ) : Indexed (a.log i) :=
  h.indexed_of_rooted (h.reachable.inv.rooted_log i)

/-- The simulation survives a step of one node. -/
lemma Sim.setNode (h : Sim s a) (st : NodeStep s a i r a') : Sim (s.setNode i r) a' where
  reachable := st.moves.reachable h.reachable
  indexed := st.indexed
  node j := by
    by_cases hj : j = i
    · subst hj
      rw [Cluster.setNode_self]
      exact st.node
    · rw [Cluster.setNode_ne hj]
      exact (h.node j).of_moves st.moves hj
  ballot {j T c l} hb := by
    have hold : a.ballot j T = some (c, l) ∨ T ≤ a'.cur c ∧ (a'.cur c = T →
        ((s.setNode i r).nodes c).state = .candidate → UpToDate LogEntry.logterm (a'.log c) l) := by
      by_cases hj : j = i
      · subst hj
        exact st.ballot hb
      · exact .inl (st.moves.ballot j hj ▸ hb)
    rcases hold with hold | hnew
    · obtain ⟨h1, h2⟩ := h.ballot hold
      refine ⟨h1.trans (st.moves.extends_.cur c), fun hc hs => ?_⟩
      obtain ⟨h3, h4, h5⟩ := st.of_candidate h1 hc hs
      rw [h5]
      exact h2 h3 h4
    · exact hnew
  call hk := (h.call hk).setNode st
  reply hr := by
    obtain ⟨c, hc, hrep⟩ := h.reply hr
    exact ⟨c, hc, hrep.mono st.moves.extends_ (Call.Later.refl c)⟩
  handler hw := (h.handler hw).setNode st
  copied j msg hm := (h.copied j msg hm).mono st.moves.extends_ (st.moves.extends_.cur j)
  pushed j msg hm hv := by
    by_cases hj : j = i
    · subst hj
      rw [Cluster.setNode_self] at hm
      rcases st.pushed msg hm with hold | hnew
      · exact (h.pushed j msg hold hv).mono st.moves.extends_ (st.moves.extends_.cur j)
      · exact hnew hv
    · rw [Cluster.setNode_ne hj] at hm
      exact (h.pushed j msg hm hv).mono st.moves.extends_ (st.moves.extends_.cur j)

/-- A call stays true as it goes on. -/
lemma CallSim.later {c c' : Call} (hl : c.Later c') (h : CallSim s a c) : CallSim s a c' := by
  unfold CallSim
  rw [hl.request, hl.caller]
  exact h

/-- The simulation survives new messages that keep what they promise. -/
lemma Sim.messages {s' : Cluster} (h : Sim s a) (hsize : s'.size = s.size)
    (hnodes : s'.nodes = s.nodes)
    (hold : ∀ {k : ℕ} {c : Call}, s.calls[k]? = some c → ∃ c', s'.calls[k]? = some c' ∧ c.Later c')
    (hcall : ∀ {k : ℕ} {c' : Call}, s'.calls[k]? = some c' →
      (∃ c, s.calls[k]? = some c ∧ c.Later c') ∨ CallSim s a c')
    (hreply : ∀ {k rep}, (k, rep) ∈ s'.replies → (k, rep) ∈ s.replies ∨
      ∃ c, s.calls[k]? = some c ∧ ReplySim a c rep)
    (hhandler : ∀ {w}, w ∈ s'.handlers → w ∈ s.handlers ∨ HandlerSim s a w)
    (hcopied : ∀ i, ∀ msg ∈ s'.copied i, msg ∈ s.copied i ∨ Applies s.size a (a.cur i) msg) :
    Sim s' a where
  reachable := hsize.symm ▸ h.reachable
  indexed := h.indexed
  node i := by
    rw [hsize, hnodes]
    exact h.node i
  ballot hb := by
    rw [hnodes]
    exact h.ballot hb
  call hk := by
    have hcs : ∀ {c}, CallSim s a c → CallSim s' a c := by
      intro c hc
      unfold CallSim at *
      split at hc
      · exact ⟨hc.term_pos, hc.candidate, hc.term_le, by rw [hnodes]; exact hc.log⟩
      · exact hsize.symm ▸ hc
      · rw [hsize, hnodes]
        exact hc
    rcases hcall hk with ⟨c, hc, hl⟩ | hnew
    · exact hcs ((h.call hc).later hl)
    · exact hcs hnew
  reply {k rep} hr := by
    have hrep : ∃ c, s.calls[k]? = some c ∧ ReplySim a c rep := (hreply hr).elim h.reply id
    obtain ⟨c, hc, hrep⟩ := hrep
    obtain ⟨c', hc', hl⟩ := hold hc
    exact ⟨c', hc', hrep.mono (Extends.refl a) hl⟩
  handler {w} hw := by
    have hs : HandlerSim s a w := (hhandler hw).elim h.handler id
    obtain ⟨c, hc, h1, h2⟩ := hs.call
    obtain ⟨c', hc', hl⟩ := hold hc
    exact ⟨⟨c', hc', hl.callee.trans h1, hl.request.trans h2⟩, hs.term_le,
      by rw [hnodes]; exact hs.follower, hs.writes⟩
  copied i msg hm := by
    rw [hsize]
    exact (hcopied i msg hm).elim (h.copied i msg) id
  pushed i := by
    rw [hsize, hnodes]
    exact h.pushed i

/-- The simulation does not look at the rest of the cluster. -/
lemma Sim.frame {votedNum : List ℕ} {snapshotThreads elected : List (ℕ × ℕ)}
    {callbacks : List (ℕ × ℤ)} {deferred : ℕ → Bool} (h : Sim s a) :
    Sim { s with votedNum, snapshotThreads, callbacks, deferred, elected } a :=
  h.messages rfl rfl (fun hk => ⟨_, hk, Call.Later.refl _⟩)
    (fun hk => .inl ⟨_, hk, Call.Later.refl _⟩) (fun hr => .inl hr) (fun hw => .inl hw)
    (fun _ _ hm => .inl hm)

/-- A handler replies. -/
lemma Sim.replied {k : ℕ} {c : Call} {rep : Reply} (h : Sim s a) (hc : s.calls[k]? = some c)
    (hrep : ReplySim a c rep) : Sim (s.reply k rep) a :=
  h.messages rfl rfl (fun hk => ⟨_, hk, Call.Later.refl _⟩)
    (fun hk => .inl ⟨_, hk, Call.Later.refl _⟩)
    (fun hr => by
      rcases List.mem_append.mp hr with hr | hr
      · exact .inl hr
      · obtain ⟨rfl, rfl⟩ := Prod.mk.inj (List.mem_singleton.mp hr)
        exact .inr ⟨c, hc, hrep⟩)
    (fun hw => .inl hw) (fun _ _ hm => .inl hm)

/-- A node sends requests. -/
lemma Sim.sent {requests : List (ℕ × Request)} (h : Sim s a)
    (hreq : ∀ {j q}, (j, q) ∈ requests →
      CallSim s a { caller := i, callee := j, request := q, pending := true }) :
    Sim (s.send i requests) a :=
  h.messages rfl rfl
    (fun hk => ⟨_, by
      have hlt := (List.getElem?_eq_some_iff.mp hk).1
      simpa [Cluster.send, List.getElem?_append_left hlt] using hk, Call.Later.refl _⟩)
    (fun hk => by
      rcases Cluster.send_cases hk with hk | ⟨-, j, q, hq, rfl⟩
      · exact .inl ⟨_, hk, Call.Later.refl _⟩
      · exact .inr (hreq (List.mem_of_getElem? hq)))
    (fun hr => .inl hr) (fun hw => .inl hw) (fun _ _ hm => .inl hm)

/-- A call is no longer pending. -/
lemma Sim.completed {k : ℕ} {c : Call} (h : Sim s a) (hc : s.calls[k]? = some c) :
    Sim (s.completed k c) a :=
  h.messages rfl rfl (Cluster.completed_later hc) (fun hk => .inl (Cluster.completed_cases hc hk))
    (fun hr => .inl hr) (fun hw => .inl hw) (fun _ _ hm => .inl hm)

end KVCacheRaft
