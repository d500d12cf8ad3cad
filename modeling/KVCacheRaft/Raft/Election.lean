import KVCacheRaft.Consensus.Majority
import KVCacheRaft.Raft.Calls

/-!
# Election safety

At most one node leads in a term, in every run, whatever crashes. A node that granted its vote in a
term, or became leader in it, has stored that (`Raft.Keeps`), in memory and in the mapped metadata,
so it never pledges the same term to another node, not even after a restart. A candidate's own vote
may be lost with the process that cast it, but then its calls are gone too and it never leads.
-/

namespace KVCacheRaft

namespace Raft

variable {r r' : Raft}

/-- Having voted for `c` in term `T` is remembered, as long as the term lasts. -/
structure Keeps (r : Raft) (T c : ℕ) : Prop where
  memory : T < r.currentTerm ∨ T = r.currentTerm ∧ r.voteForId = c
  disk : T < r.fmp.term ∨ T = r.fmp.term ∧ r.fmp.votedFor = c

/-- A step of a node that does not take a vote back. -/
structure Votes (r r' : Raft) : Prop where
  memory : r.currentTerm < r'.currentTerm ∨ r'.currentTerm = r.currentTerm ∧
    (r.voteForId ≠ -1 → r'.voteForId = r.voteForId)
  disk : r'.fmp = r.fmp ∨ r'.fmp.term = r'.currentTerm ∧ r'.fmp.votedFor = r'.voteForId

/-- A vote that is kept is kept by what votes no differently. -/
lemma Keeps.votes {T c : ℕ} (h : r.Keeps T c) (hv : r.Votes r') : r'.Keeps T c := by
  have hmem : T < r'.currentTerm ∨ T = r'.currentTerm ∧ r'.voteForId = c := by
    rcases h.memory with h1 | ⟨h1, h2⟩
    · left
      rcases hv.memory with h3 | ⟨h3, -⟩ <;> omega
    · rcases hv.memory with h3 | ⟨h3, h4⟩
      · left; omega
      · exact .inr ⟨by omega, (h4 (by omega)).trans h2⟩
  refine ⟨hmem, ?_⟩
  rcases hv.disk with h1 | ⟨h1, h2⟩
  · rw [h1]
    exact h.disk
  · rw [h1, h2]
    exact hmem

/-- A restarted node keeps the vote that is stored. -/
lemma Keeps.restart {T c : ℕ} (h : r.Keeps T c) (id peers : ℕ) (logs : List LogEntry) :
    { Raft.init id peers r.fmp r.snapshotFile logs with applyChan := r.applyChan }.Keeps T c :=
  ⟨h.disk, h.disk⟩

/-- A step that elects nobody: the node becomes follower, or keeps its role and term. -/
structure Quiet (r r' : Raft) : Prop extends Votes r r' where
  role : r'.state = .follower ∨ r'.state = r.state ∧ r'.currentTerm = r.currentTerm

/-- A node may stay as it is. -/
lemma Quiet.refl (r : Raft) : r.Quiet r := ⟨⟨.inr ⟨rfl, fun _ => rfl⟩, .inl rfl⟩, .inr ⟨rfl, rfl⟩⟩

/-- A step that leaves the role, the term, the vote and the metadata alone. -/
lemma Quiet.of_eq (h1 : r'.state = r.state) (h2 : r'.currentTerm = r.currentTerm)
    (h3 : r'.voteForId = r.voteForId) (h4 : r'.fmp = r.fmp) : r.Quiet r' :=
  ⟨⟨.inr ⟨h2, fun _ => h3⟩, .inl h4⟩, .inr ⟨h1, h2⟩⟩

/-- A step that leaves the role, the term and the vote alone and stores them. -/
lemma Quiet.stored (h1 : r'.state = r.state) (h2 : r'.currentTerm = r.currentTerm)
    (h3 : r'.voteForId = r.voteForId)
    (h4 : r'.fmp.term = r'.currentTerm ∧ r'.fmp.votedFor = r'.voteForId) : r.Quiet r' :=
  ⟨⟨.inr ⟨h2, fun _ => h3⟩, .inr h4⟩, .inr ⟨h1, h2⟩⟩

/-- Storing the state is quiet. -/
lemma Quiet.persistState (h : r.Quiet r') : r.Quiet r'.persistState :=
  ⟨⟨h.memory, .inr ⟨rfl, rfl⟩⟩, h.role⟩

/-- Becoming a follower is quiet. -/
lemma Quiet.follower (h : r.Quiet r') : r.Quiet { r' with state := .follower } :=
  ⟨⟨h.memory, h.disk⟩, .inl rfl⟩

/-- A newer term is quiet. -/
lemma Quiet.newTerm {T : ℕ} (h : r.currentTerm < T) : r.Quiet (r.newTerm T) :=
  ⟨⟨.inl h, .inl rfl⟩, .inl rfl⟩

/-- Catching up with a term is quiet. -/
lemma catchUp_quiet (r : Raft) (T : ℕ) : r.Quiet (r.catchUp T) := by
  unfold catchUp
  split_ifs with h
  · exact (Quiet.newTerm h).persistState
  · exact Quiet.refl r

/-- Accepting a term is quiet. -/
lemma acceptTerm_quiet (r : Raft) (T : ℕ) : r.Quiet (r.acceptTerm T) := by
  unfold acceptTerm
  split_ifs with h
  · exact Quiet.newTerm h
  · exact (Quiet.refl r).follower

/-- `RequestVote` is quiet: it elects nobody. -/
lemma requestVote_quiet (r : Raft) (request : RequestVoteArgs) :
    r.Quiet (r.requestVote request).1 := by
  have hc := r.catchUp_quiet request.term
  rcases r.requestVote_cases request with ⟨-, h, -⟩ | ⟨-, h | h, -⟩ | ⟨-, -, hv, h, -⟩
  · rw [h]
    exact Quiet.refl r
  · rw [h]
    exact hc
  · rw [h]
    exact hc.persistState
  · rw [h]
    refine ⟨⟨?_, .inr ⟨rfl, rfl⟩⟩, hc.role⟩
    -- the vote is only cast when none was, or again
    rcases hc.memory with h1 | ⟨h1, h2⟩
    · exact .inl h1
    · refine .inr ⟨h1, fun hne => ?_⟩
      have := h2 hne
      rcases hv with hv | hv
      · omega
      · exact hv.symm.trans this

/-- A granted vote is the one the node holds, in the term of the request, and it is stored. -/
lemma requestVote_granted {request : RequestVoteArgs}
    (h : (r.requestVote request).2.votegranted = true) :
    (r.requestVote request).1.currentTerm = request.term ∧
      (r.requestVote request).1.voteForId = request.candidateid ∧
      (r.requestVote request).1.fmp.term = request.term ∧
      (r.requestVote request).1.fmp.votedFor = request.candidateid := by
  rcases r.requestVote_cases request with ⟨-, -, hno⟩ | ⟨-, -, hno⟩ | ⟨hle, -, -, hr, -⟩
  · rw [hno] at h
    cases h
  · rw [hno] at h
    cases h
  · have hcur : (r.catchUp request.term).currentTerm = request.term := by
      unfold catchUp
      split_ifs with hgt
      · rfl
      · omega
    rw [hr]
    exact ⟨hcur, rfl, hcur, rfl⟩

/-- The first locked part of `AppendEntries` is quiet. -/
lemma appendEntries_quiet {request : AppendEntriesArgs} {phase : AppendPhase}
    (h : r.appendEntries request = .ok (r', phase)) : r.Quiet r' := by
  rcases appendEntries_cases h with ⟨-, rfl, -⟩ | ⟨-, rfl, -⟩ | ⟨-, rfl, -⟩
  · exact Quiet.refl r'
  · exact (r.acceptTerm_quiet request.term).persistState
  · exact r.acceptTerm_quiet request.term

/-- The second locked part of `AppendEntries` is quiet. -/
lemma appendEntriesStable_quiet {request : AppendEntriesArgs} {pending : List PendingLogWrite}
    {stable : Bool} {reply : AppendEntriesReply}
    (h : r.appendEntriesStable request pending stable = .ok (r', reply)) : r.Quiet r' := by
  rcases appendEntriesStable_cases h with ⟨rfl, -⟩ | ⟨-, -, h⟩
  · exact (Quiet.refl r).persistState
  · obtain ⟨logs, last, -, -, rfl, -⟩ := applyEntries_cases h
    exact Quiet.stored rfl rfl rfl ⟨rfl, rfl⟩

/-- A reply to an `AppendEntries` is quiet. -/
lemma handleAppendEntries_quiet {server : ℕ} {args : AppendEntriesArgs} {reply : AppendEntriesReply}
    (h : r.handleAppendEntries server args reply = .ok r') : r.Quiet r' := by
  rcases handleAppendEntries_cases h with ⟨hgt, rfl⟩ | ⟨next, rfl⟩ | ⟨-, -, -, h⟩
  · exact Quiet.newTerm hgt
  · exact .of_eq rfl rfl rfl rfl
  · rcases advanceCommitIndex_cases h with rfl | ⟨index, e, rfl, -⟩ <;> exact .of_eq rfl rfl rfl rfl

/-- A callback of the writer is quiet. -/
lemma onLogStable_quiet (r : Raft) (ok : Bool) (index : ℤ) : r.Quiet (r.onLogStable ok index) := by
  unfold onLogStable
  simp only
  split_ifs
  · exact .of_eq rfl rfl rfl rfl
  · exact Quiet.refl r
  · exact Quiet.refl r
  · exact Quiet.stored rfl rfl rfl ⟨rfl, rfl⟩
  · exact Quiet.refl r

/-- `Snapshot` is quiet. -/
lemma snapshot_quiet {index : ℤ} {data : Bytes} (h : r.snapshot index data = .ok r') :
    r.Quiet r' := by
  rcases snapshot_cases h with rfl | ⟨-, -, e, -, rfl⟩
  · exact Quiet.refl r'
  · exact Quiet.stored rfl rfl rfl ⟨rfl, rfl⟩

/-- A reply to a snapshot is quiet. -/
lemma leaderSendSnapShotHandler_quiet (r : Raft) (args : InstallSnapshotRequest)
    (reply : InstallSnapshotResponse) (i : ℕ) :
    r.Quiet (r.leaderSendSnapShotHandler args reply i) := by
  rcases r.leaderSendSnapShotHandler_cases args reply i with h | ⟨hgt, h⟩ | ⟨-, -, h⟩
  · rw [h]
    exact Quiet.refl r
  · rw [h]
    exact (Quiet.newTerm hgt).persistState
  · rw [h]
    exact .of_eq rfl rfl rfl rfl

/-- `InstallSnapshot` is quiet. -/
lemma installSnapshot_quiet {args : InstallSnapshotRequest} {reply : InstallSnapshotResponse}
    (h : r.installSnapshot args = .ok (r', reply)) : r.Quiet r' := by
  have hf : r.Quiet (r.follow args.term) := (r.catchUp_quiet args.term).follower
  rcases installSnapshot_cases h with ⟨-, rfl⟩ | ⟨-, rfl⟩ | ⟨-, -, rfl⟩
  · exact Quiet.refl r'
  · exact hf
  · exact ⟨⟨hf.memory, .inr ⟨rfl, rfl⟩⟩, hf.role⟩

end Raft

namespace Cluster

variable {s s' t : Cluster} {n : ℕ}

/-- Node `x` is bound to `c` in term `T`: it granted its vote, or it became leader itself. -/
def Pledged (s : Cluster) (x T c : ℕ) : Prop :=
  (∃ k call args e rep, s.calls[k]? = some call ∧ call.request = .requestVote args e ∧
    call.callee = x ∧ call.caller = c ∧ args.term = T ∧ (k, .requestVote rep) ∈ s.replies ∧
    rep.votegranted = true) ∨
  c = x ∧ (x, T) ∈ s.elected

/-- The invariant of elections. -/
structure Elections (s : Cluster) : Prop where
  request : ∀ {k : ℕ} {c : Call} {args e}, s.calls[k]? = some c →
    c.request = .requestVote args e → args.candidateid = c.caller
  answered : ∀ {k rep}, (k, Reply.requestVote rep) ∈ s.replies → k < s.calls.length
  keeps : ∀ {x T c}, s.Pledged x T c → (s.nodes x).Keeps T c
  unique : ∀ {x T c d}, s.Pledged x T c → s.Pledged x T d → c = d
  candidate : ∀ i, (s.nodes i).state = .candidate → (s.nodes i).voteForId = i
  leader : ∀ i, (s.nodes i).state = .leader → (i, (s.nodes i).currentTerm) ∈ s.elected
  won : ∀ {i T}, (i, T) ∈ s.elected →
    ∃ V : Finset ℕ, V ⊆ Finset.range s.size ∧ s.size / 2 + 1 ≤ V.card ∧ ∀ j ∈ V, s.Pledged j T i

/-- A pledged vote stays pledged. -/
lemma Pledged.follows {x T c : ℕ} (g : Follows s s') (he : ∀ {y}, y ∈ s.elected → y ∈ s'.elected)
    (h : s.Pledged x T c) : s'.Pledged x T c := by
  rcases h with ⟨k, call, args, e, rep, h1, h2, h3, h4, h5, h6, h7⟩ | ⟨h1, h2⟩
  · obtain ⟨call', hc, hl⟩ := g.old h1
    exact .inl ⟨k, call', args, e, rep, hc, hl.request.trans h2, hl.callee.trans h3,
      hl.caller.trans h4, h5, g.replies h6, h7⟩
  · exact .inr ⟨h1, he h2⟩

/-- A step preserves the invariant if no node takes a vote back and every new pledge is the vote the
node holds. -/
lemma Elections.step (h : Elections s) (g : Follows s s')
    (he : ∀ {y}, y ∈ s.elected → y ∈ s'.elected)
    (hreq : ∀ {k : ℕ} {c' : Call} {args e}, s'.calls[k]? = some c' →
      c'.request = .requestVote args e →
      (∃ c, s.calls[k]? = some c ∧ c.Later c') ∨ args.candidateid = c'.caller)
    (hans : ∀ {k rep}, (k, Reply.requestVote rep) ∈ s'.replies →
      (k, Reply.requestVote rep) ∈ s.replies ∨ k < s.calls.length)
    (hkeeps : ∀ {i T c}, (s.nodes i).Keeps T c → (s'.nodes i).Keeps T c)
    (hnew : ∀ {x T c}, s'.Pledged x T c → s.Pledged x T c ∨
      (s'.nodes x).currentTerm = T ∧ (s'.nodes x).voteForId = c ∧ (s'.nodes x).Keeps T c)
    (hcand : ∀ i, (s'.nodes i).state = .candidate → (s'.nodes i).voteForId = i)
    (hlead : ∀ i, (s'.nodes i).state = .leader → (i, (s'.nodes i).currentTerm) ∈ s'.elected)
    (hwon : ∀ {i T}, (i, T) ∈ s'.elected → (i, T) ∈ s.elected ∨
      ∃ V : Finset ℕ, V ⊆ Finset.range s.size ∧ s.size / 2 + 1 ≤ V.card ∧
        ∀ j ∈ V, s'.Pledged j T i) : Elections s' := by
  have hk : ∀ {x T c}, s'.Pledged x T c → (s'.nodes x).Keeps T c := by
    intro x T c hp
    rcases hnew hp with hold | ⟨-, -, hk⟩
    · exact hkeeps (h.keeps hold)
    · exact hk
  -- the vote a node holds in its term is the only one it is pledged to
  have hheld : ∀ {x T c d}, (s'.nodes x).currentTerm = T → (s'.nodes x).voteForId = (c : ℕ) →
      s'.Pledged x T d → c = d := by
    intro x T c d hT hc hp
    rcases (hk hp).memory with hlt | ⟨-, hd⟩ <;> omega
  refine ⟨fun hc hr => ?_, fun hr => ?_, hk, fun hp hq => ?_, hcand, hlead, fun hi => ?_⟩
  · rcases hreq hc hr with ⟨c, hold, hl⟩ | hnew
    · rw [hl.caller]
      exact h.request hold (hl.request ▸ hr)
    · exact hnew
  · have hlt := (hans hr).elim h.answered id
    obtain ⟨c', hc', -⟩ := g.old (List.getElem?_eq_getElem hlt)
    exact (List.getElem?_eq_some_iff.mp hc').1
  · rcases hnew hp with hp' | ⟨hT, hc, -⟩
    · rcases hnew hq with hq' | ⟨hT, hd, -⟩
      · exact h.unique hp' hq'
      · exact (hheld hT hd hp).symm
    · exact hheld hT hc hq
  · rw [g.size]
    rcases hwon hi with hold | hnew
    · obtain ⟨V, h1, h2, h3⟩ := h.won hold
      exact ⟨V, h1, h2, fun j hj => (h3 j hj).follows g he⟩
    · exact hnew

/-- A candidate has voted for itself, and no quiet step changes that. -/
lemma Elections.quiet_candidate (h : Elections s) {i : ℕ} {r : Raft} (hq : (s.nodes i).Quiet r)
    (hr : r.state = .candidate) : r.voteForId = i := by
  rcases hq.role with hf | ⟨hs, hT⟩
  · rw [hf] at hr
    cases hr
  · have hold := h.candidate i (hs ▸ hr)
    rcases hq.memory with hlt | ⟨-, hv⟩
    · omega
    · exact (hv (by omega)).trans hold

/-- A leader behind a quiet step was elected before it. -/
lemma Elections.quiet_leader (h : Elections s) {i : ℕ} {r : Raft} (hq : (s.nodes i).Quiet r)
    (hr : r.state = .leader) : (i, r.currentTerm) ∈ s.elected := by
  rcases hq.role with hf | ⟨hs, hT⟩
  · rw [hf] at hr
    cases hr
  · rw [hT]
    exact h.leader i (hs ▸ hr)

/-- A step that elects nobody and grants no vote. -/
lemma Elections.quiet (h : Elections s) (g : Follows s s') (he : s'.elected = s.elected)
    (hnode : ∀ i, (s.nodes i).Quiet (s'.nodes i))
    (hreq : ∀ {k : ℕ} {c' : Call} {args e}, s'.calls[k]? = some c' →
      c'.request = .requestVote args e → ∃ c, s.calls[k]? = some c ∧ c.Later c')
    (hrep : ∀ {k rep}, (k, Reply.requestVote rep) ∈ s'.replies →
      (k, Reply.requestVote rep) ∈ s.replies) : Elections s' := by
  refine h.step g (fun hy => he ▸ hy) (fun hc hr => .inl (hreq hc hr))
    (fun hr => .inl (hrep hr)) (fun hk => hk.votes (hnode _).toVotes)
    (fun hp => .inl ?_) (fun i hi => h.quiet_candidate (hnode i) hi)
    (fun i hi => he ▸ h.quiet_leader (hnode i) hi) (fun hi => .inl (he ▸ hi))
  rcases hp with ⟨k, call, args, e, rep, h1, h2, h3, h4, h5, h6, h7⟩ | ⟨h1, h2⟩
  · obtain ⟨c, hc, hl⟩ := hreq h1 h2
    exact .inl ⟨k, c, args, e, rep, hc, hl.request ▸ h2, hl.callee ▸ h3, hl.caller ▸ h4, h5,
      hrep h6, h7⟩
  · exact .inr ⟨h1, he ▸ h2⟩

/-- Calls of a node that are no vote requests. -/
lemma send_quiet {i : ℕ} {requests : List (ℕ × Request)}
    (h : ∀ {j q}, (j, q) ∈ requests → ∀ args e, q ≠ .requestVote args e) {k : ℕ} {c' : Call}
    {args : RequestVoteArgs} {e : ℕ} (hc : (s.send i requests).calls[k]? = some c')
    (hr : c'.request = .requestVote args e) : ∃ c, s.calls[k]? = some c ∧ c.Later c' := by
  rcases send_cases hc with hc | ⟨-, j, q, hq, rfl⟩
  · exact ⟨_, hc, Call.Later.refl _⟩
  · exact absurd hr (h (List.mem_of_getElem? hq) args e)

/-- A quiet step of one node. -/
lemma quiet_setNode {i : ℕ} {r : Raft} (h : (s.nodes i).Quiet r) (j : ℕ) :
    (s.nodes j).Quiet ((s.setNode i r).nodes j) := by
  by_cases hj : j = i
  · subst hj
    rw [setNode_self]
    exact h
  · rw [setNode_ne hj]
    exact Raft.Quiet.refl _

/-- Other replies bring no votes. -/
lemma other_reply {id k : ℕ} {x : Reply} {rep : RequestVoteReply} {l : List (ℕ × Reply)}
    (hx : ∀ vote, x ≠ .requestVote vote) (hr : (k, .requestVote rep) ∈ l ++ [(id, x)]) :
    (k, .requestVote rep) ∈ l := by
  rcases List.mem_append.mp hr with hr | hr
  · exact hr
  · exact absurd (Prod.mk.inj (List.mem_singleton.mp hr)).2.symm (hx rep)

/-- `RequestVote` answers a call, perhaps with a vote. -/
lemma Elections.requestVote (h : Elections s) {id e : ℕ} {c : Call} {args : RequestVoteArgs}
    (hc : s.calls[id]? = some c) (hreq : c.request = .requestVote args e)
    (hs : s' = (s.setNode c.callee ((s.nodes c.callee).requestVote args).1).reply id
      (.requestVote ((s.nodes c.callee).requestVote args).2)) (g : Follows s s') :
    Elections s' := by
  have hid := (List.getElem?_eq_some_iff.mp hc).1
  have hnode : ∀ j, (s.nodes j).Quiet (s'.nodes j) := by
    rw [hs]
    exact quiet_setNode ((s.nodes c.callee).requestVote_quiet args)
  have hself : s'.nodes c.callee = ((s.nodes c.callee).requestVote args).1 := by
    rw [hs]
    exact setNode_self _ _
  have hcalls : s'.calls = s.calls := by rw [hs]; rfl
  have helected : s'.elected = s.elected := by rw [hs]; rfl
  have hrep : ∀ {k : ℕ} {rep : Reply}, (k, rep) ∈ s'.replies → (k, rep) ∈ s.replies ∨
      k = id ∧ rep = .requestVote ((s.nodes c.callee).requestVote args).2 := by
    intro k rep hmem
    rw [hs] at hmem
    rcases List.mem_append.mp hmem with hmem | hmem
    · exact .inl hmem
    · exact .inr (Prod.mk.inj (List.mem_singleton.mp hmem))
  refine h.step g (fun hy => helected ▸ hy)
    (fun hk _ => .inl ⟨_, hcalls ▸ hk, Call.Later.refl _⟩)
    (fun hr => by
      rcases hrep hr with hold | ⟨rfl, -⟩
      · exact .inl hold
      · exact .inr hid)
    (fun hk => hk.votes (hnode _).toVotes) (fun {x T d} hp => ?_)
    (fun i hi => h.quiet_candidate (hnode i) hi)
    (fun i hi => helected ▸ h.quiet_leader (hnode i) hi) (fun hi => .inl (helected ▸ hi))
  rcases hp with ⟨k, call, args', e', rep, h1, h2, h3, h4, h5, h6, h7⟩ | ⟨h1, h2⟩
  · rw [hcalls] at h1
    rcases hrep h6 with hold | ⟨rfl, heq⟩
    · exact .inl (.inl ⟨k, call, args', e', rep, h1, h2, h3, h4, h5, hold, h7⟩)
    · -- the new pledge
      right
      obtain rfl := Option.some.inj (hc.symm.trans h1)
      obtain ⟨rfl, -⟩ := Request.requestVote.inj (hreq.symm.trans h2)
      cases heq
      obtain ⟨h8, h9, h10, h11⟩ := Raft.requestVote_granted h7
      rw [h.request hc hreq] at h9 h11
      subst h3 h4 h5
      rw [hself]
      exact ⟨h8, h9, ⟨.inr ⟨h8.symm, h9⟩, .inr ⟨h10.symm, h11⟩⟩⟩
  · exact .inl (.inr ⟨h1, helected ▸ h2⟩)

/-- A new candidate, which votes for itself in a term it was never in. -/
lemma Elections.doElection (h : Elections s) (w : Wired s) {i : ℕ} (g : Follows s s')
    (hs : s.doElection i = some s') : Elections s' := by
  obtain ⟨-, r, requests, hr, rfl⟩ := doElection_cases hs
  obtain ⟨-, rfl, rfl⟩ := Raft.doElection_cases hr
  have hid := (w.node i).1
  set r' : Raft := { s.nodes i with
    state := .candidate, currentTerm := (s.nodes i).currentTerm + 1, voteForId := (s.nodes i).id }
    with hr'
  have hself : (s.setNode i r').nodes i = r' := setNode_self _ _
  have hvotes : ∀ j, (s.nodes j).Votes ((s.setNode i r').nodes j) := by
    intro j
    by_cases hj : j = i
    · subst hj
      rw [hself]
      exact ⟨.inl (Nat.lt_succ_self _), .inl rfl⟩
    · rw [setNode_ne hj]
      exact (Raft.Quiet.refl _).toVotes
  refine h.step g (fun hy => hy) (fun {k c' args e} hk hq => ?_) (fun hr => .inl hr)
    (fun hk => hk.votes (hvotes _)) (fun {x T c} hp => .inl ?_) (fun j hj => ?_) (fun j hj => ?_)
    (fun hi => .inl hi)
  · rcases send_cases hk with hk | ⟨-, j, q, hmem, rfl⟩
    · exact .inl ⟨_, hk, Call.Later.refl _⟩
    · right
      have hmem := List.mem_of_getElem? hmem
      simp only [List.map_map, List.mem_map, Function.comp_apply, Prod.mk.injEq] at hmem
      obtain ⟨j, -, rfl, rfl⟩ := hmem
      cases hq
      exact congrArg Int.ofNat hid
  · rcases hp with ⟨k, call, args, e, rep, h1, h2, h3, h4, h5, h6, h7⟩ | hp
    · rcases send_cases h1 with h1 | ⟨hge, -⟩
      · exact .inl ⟨k, call, args, e, rep, h1, h2, h3, h4, h5, h6, h7⟩
      · have hlt := h.answered h6
        change s.calls.length ≤ k at hge
        omega
    · exact .inr hp
  · by_cases hji : j = i
    · subst hji
      change ((s.setNode j r').nodes j).voteForId = j
      rw [hself, hr', hid]
    · change ((s.setNode i r').nodes j).state = .candidate at hj
      change ((s.setNode i r').nodes j).voteForId = j
      rw [setNode_ne hji] at hj ⊢
      exact h.candidate j hj
  · by_cases hji : j = i
    · subst hji
      change ((s.setNode j r').nodes j).state = .leader at hj
      rw [hself] at hj
      cases hj
    · change ((s.setNode i r').nodes j).state = .leader at hj
      change (j, ((s.setNode i r').nodes j).currentTerm) ∈ s.elected
      rw [setNode_ne hji] at hj ⊢
      exact h.leader j hj

/-- The nodes counted in an election are pledged to its candidate. -/
lemma Granted.pledged (t : Tally s) {k e j : ℕ} {c : Call} {args : RequestVoteArgs}
    (hc : s.calls[k]? = some c) (hreq : c.request = .requestVote args e) (hg : s.Granted e j) :
    s.Pledged j args.term c.caller := by
  obtain ⟨k', c', args', rep, hc', hreq', rfl, -, hrep, hgrant, -⟩ := hg
  obtain ⟨hcaller, rfl, -⟩ := t.same hc' hc hreq' hreq
  exact .inl ⟨k', c', args', e, rep, hc', hreq', rfl, hcaller, rfl, hrep, hgrant⟩

/-- A reply arrives at a candidate, which perhaps becomes leader. -/
lemma Elections.complete (h : Elections s) (w : Wired s) (t' : Tally s') {id e : ℕ} {c : Call}
    {args : RequestVoteArgs} {rep : RequestVoteReply} (hc : s.calls[id]? = some c)
    (hreq : c.request = .requestVote args e)
    (hd : Completed s id c (.requestVote rep) s') (g : Follows s s') : Elections s' := by
  cases hd with
  | @requestVote args' e' _ hreq' =>
  obtain ⟨rfl, rfl⟩ := Request.requestVote.inj (hreq.symm.trans hreq')
  set i := c.caller with hi
  set v := s.votedNum.getD e 0 with hv
  set x := (s.nodes i).handleRequestVoteResponse args rep v with hx
  -- every outcome but the election is a quiet step
  have hq : (s.nodes i).Quiet x.1 → ∀ {s'}, s'.calls = (s.completed id c).calls →
      s'.replies = s.replies → s'.elected = s.elected → s'.nodes = (s.setNode i x.1).nodes →
      Follows s s' → Elections s' := by
    intro hquiet s' h1 h2 h3 h4 g
    refine h.quiet g h3 (fun j => h4 ▸ quiet_setNode hquiet j) (fun hk _ => ?_)
      fun hr => h2 ▸ hr
    rw [h1] at hk
    exact completed_cases hc hk
  have hnot : (s.nodes i).Quiet x.1 →
      ¬ ((s.nodes i).state ≠ .leader ∧ x.1.state = .leader) := by
    rintro hquiet ⟨h1, h2⟩
    rcases hquiet.role with hf | ⟨hs, -⟩
    · rw [hf] at h2
      cases h2
    · exact h1 (hs ▸ h2)
  rcases (s.nodes i).handleRequestVoteResponse_cases args rep v with
    ⟨hgt, hr⟩ | hr | ⟨-, hcand, hargs, -, hr | ⟨hmaj, hr⟩⟩
  · have hquiet : (s.nodes i).Quiet x.1 := by
      rw [hx, hr]
      exact (Raft.Quiet.newTerm hgt).persistState
    exact hq hquiet rfl rfl (if_neg (hnot hquiet)) rfl g
  · have hquiet : (s.nodes i).Quiet x.1 := by
      rw [hx, hr]
      exact Raft.Quiet.refl _
    exact hq hquiet rfl rfl (if_neg (hnot hquiet)) rfl g
  · have hquiet : (s.nodes i).Quiet x.1 := by
      rw [hx, hr]
      exact Raft.Quiet.refl _
    exact hq hquiet rfl rfl (if_neg (hnot hquiet)) rfl g
  -- the candidate becomes leader, and stores the vote it cast for itself
  have hvote := h.candidate i hcand
  have hx1 : x.1 = (s.nodes i).becomeLeader.persistState := by rw [hx, hr]
  have hx2 : x.2 = v + 1 := by rw [hx, hr]
  have hcur : x.1.currentTerm = args.term := by
    rw [hx1]
    exact hargs.symm
  have hvote' : x.1.voteForId = i := by
    rw [hx1]
    exact hvote
  have hwon : (s.nodes i).state ≠ .leader ∧ x.1.state = .leader := by
    rw [hcand, hx1]
    exact ⟨by simp, rfl⟩
  rw [if_pos hwon] at g t' ⊢
  have hvotes : ∀ j, (s.nodes j).Votes ((s.setNode i x.1).nodes j) := by
    intro j
    by_cases hj : j = i
    · subst hj
      rw [setNode_self, hx1]
      exact ⟨.inr ⟨rfl, fun _ => rfl⟩, .inr ⟨rfl, rfl⟩⟩
    · rw [setNode_ne hj]
      exact (Raft.Quiet.refl _).toVotes
  obtain ⟨d, hd, hl⟩ := completed_later hc hc
  refine h.step g (fun hy => List.mem_append_left _ hy)
    (fun hk _ => .inl (completed_cases hc hk)) (fun hr => .inl hr)
    (fun hk => hk.votes (hvotes _)) (fun {y T b} hp => ?_) (fun j hj => ?_) (fun j hj => ?_)
    (fun {j T} hj => ?_)
  · rcases hp with ⟨k, call, args', e', rep', h1, h2, h3, h4, h5, h6, h7⟩ | ⟨rfl, hy⟩
    · obtain ⟨b', hb', hlb⟩ := completed_cases hc h1
      exact .inl (.inl ⟨k, b', args', e', rep', hb', hlb.request ▸ h2, hlb.callee ▸ h3,
        hlb.caller ▸ h4, h5, h6, h7⟩)
    · rcases List.mem_append.mp hy with hy | hy
      · exact .inl (.inr ⟨rfl, hy⟩)
      · right
        obtain ⟨rfl, rfl⟩ := Prod.mk.inj (List.mem_singleton.mp hy)
        change ((s.setNode i x.1).nodes i).currentTerm = _ ∧
          ((s.setNode i x.1).nodes i).voteForId = _ ∧ ((s.setNode i x.1).nodes i).Keeps _ _
        rw [setNode_self]
        refine ⟨rfl, hvote', ⟨.inr ⟨rfl, hvote'⟩, .inr ?_⟩⟩
        rw [hx1]
        exact ⟨rfl, hvote⟩
  · change ((s.setNode i x.1).nodes j).state = .candidate at hj
    change ((s.setNode i x.1).nodes j).voteForId = j
    by_cases hji : j = i
    · subst hji
      rw [setNode_self]
      exact hvote'
    · rw [setNode_ne hji] at hj ⊢
      exact h.candidate j hj
  · change ((s.setNode i x.1).nodes j).state = .leader at hj
    change (j, ((s.setNode i x.1).nodes j).currentTerm) ∈ _
    by_cases hji : j = i
    · subst hji
      rw [setNode_self]
      exact List.mem_append_right _ (by simp)
    · rw [setNode_ne hji] at hj ⊢
      exact List.mem_append_left _ (h.leader j hj)
  · rcases List.mem_append.mp hj with hj | hj
    · exact .inl hj
    · -- the counted nodes and the candidate are a majority
      right
      obtain ⟨rfl, rfl⟩ := Prod.mk.inj (List.mem_singleton.mp hj)
      have hlt := t'.election_lt hd (hl.request.trans hreq)
      obtain ⟨V, hcard, hV⟩ := t'.counted (e := e) (v := v + 1) (by
        simp only [List.length_set] at hlt
        simp [hlt, hx2])
      have hpledged : ∀ j ∈ V, s.Peers i j := by
        intro j hj
        obtain ⟨k', c', args', rep', hc', hreq', rfl, -⟩ := hV j hj
        obtain ⟨hcaller, -⟩ := t'.same hc' hd hreq' (hl.request.trans hreq)
        obtain ⟨b, hb, hlb⟩ := completed_cases hc hc'
        have := w.call hb
        rw [← hlb.caller, ← hlb.callee, hcaller, hl.caller] at this
        exact this
      have hni : i ∉ V := fun hmem => (hpledged i hmem).2.2 rfl
      refine ⟨insert i V, fun j hj => ?_, ?_, fun j hj => ?_⟩
      · rw [Finset.mem_range]
        rcases Finset.mem_insert.mp hj with rfl | hj
        · exact (w.call hc).1
        · exact (hpledged j hj).2.1
      · rw [Finset.card_insert_of_notMem hni]
        rw [(w.node i).2] at hmaj
        exact hmaj.le.trans hcard
      · rcases Finset.mem_insert.mp hj with rfl | hj
        · exact .inr ⟨rfl, List.mem_append_right _ (by simp)⟩
        · have := Granted.pledged t' hd (hl.request.trans hreq) (hV j hj)
          rw [hl.caller, ← hcur] at this
          exact this

/-- A restart keeps what is known of the elections. -/
lemma Elections.restart (h : Elections s) (i : ℕ) (logs : List LogEntry)
    (g : Follows s (s.restart i logs)) : Elections (s.restart i logs) := by
  have hnode : ∀ j, (s.restart i logs).nodes j = s.nodes j ∨
      (s.restart i logs).nodes j = { Raft.init j s.size (s.nodes j).fmp (s.nodes j).snapshotFile
        logs with applyChan := (s.nodes j).applyChan } := by
    intro j
    by_cases hj : j = i
    · subst hj
      right
      simp [Cluster.restart, setNode]
    · left
      simp [Cluster.restart, setNode, hj]
  have hold : ∀ {k : ℕ} {c' : Call}, (s.restart i logs).calls[k]? = some c' →
      ∃ c, s.calls[k]? = some c ∧ c.Later c' := by
    intro k c' hk
    simp only [Cluster.restart, setNode, List.getElem?_map, Option.map_eq_some_iff] at hk
    obtain ⟨c, hc, rfl⟩ := hk
    refine ⟨c, hc, ?_⟩
    split_ifs
    · exact ⟨rfl, rfl, rfl, fun h => by simp at h⟩
    · exact Call.Later.refl c
  refine h.step g (fun hy => hy) (fun hk _ => .inl (hold hk)) (fun hr => .inl hr)
    (fun {j T c} hk => ?_) (fun hp => .inl ?_) (fun j hj => ?_) (fun j hj => ?_) (fun hi => .inl hi)
  · rcases hnode j with hj | hj
    · rw [hj]
      exact hk
    · rw [hj]
      exact hk.restart j s.size logs
  · rcases hp with ⟨k, call, args', e', rep', h1, h2, h3, h4, h5, h6, h7⟩ | hp
    · obtain ⟨b', hb', hlb⟩ := hold h1
      exact .inl ⟨k, b', args', e', rep', hb', hlb.request ▸ h2, hlb.callee ▸ h3,
        hlb.caller ▸ h4, h5, h6, h7⟩
    · exact .inr hp
  · rcases hnode j with hn | hn
    · rw [hn] at hj ⊢
      exact h.candidate j hj
    · rw [hn] at hj
      cases hj
  · rcases hnode j with hn | hn
    · rw [hn] at hj ⊢
      exact h.leader j hj
    · rw [hn] at hj
      cases hj

/-- Nobody is elected in a fresh cluster. -/
lemma Elections.initial (n : ℕ) : Elections (Cluster.initial n) where
  request hk := by simp [Cluster.initial] at hk
  answered hr := by simp [Cluster.initial] at hr
  keeps hp := by
    rcases hp with ⟨k, call, args, e, rep, h1, -⟩ | ⟨-, h⟩
    · simp [Cluster.initial] at h1
    · simp [Cluster.initial] at h
  unique hp := by
    rcases hp with ⟨k, call, args, e, rep, h1, -⟩ | ⟨-, h⟩
    · simp [Cluster.initial] at h1
    · simp [Cluster.initial] at h
  candidate i hi := by cases hi
  leader i hi := by cases hi
  won hi := by simp [Cluster.initial] at hi

/-- Every step preserves the invariant of elections. -/
theorem elections_step {a : Action} (w : Wired s) (t : Tally s) (h : Elections s)
    (hs : s.step a = some s') : Elections s' := by
  have g := step_follows w hs
  have t' := tally_step w t hs
  cases a with
  | doElection i =>
    simp only [Cluster.step] at hs
    split_ifs at hs with hi
    exact h.doElection w g hs
  | persistElection i =>
    simp only [Cluster.step] at hs
    split_ifs at hs with hd
    cases hs
    exact h.quiet g rfl (quiet_setNode (Raft.Quiet.refl _).persistState)
      (fun hk _ => ⟨_, hk, Call.Later.refl _⟩) fun hr => hr
  | deliver id =>
    obtain ⟨c, hc, hd⟩ := deliver_cases hs
    cases hd with
    | requestVote hreq => exact h.requestVote hc hreq rfl g
    | installSnapshot hreq hr =>
      exact h.quiet g rfl (quiet_setNode (Raft.installSnapshot_quiet hr))
        (fun hk _ => ⟨_, hk, Call.Later.refl _⟩) fun hr => other_reply (by simp) hr
    | replied hreq hr =>
      exact h.quiet g rfl (quiet_setNode (Raft.appendEntries_quiet hr))
        (fun hk _ => ⟨_, hk, Call.Later.refl _⟩) fun hr => other_reply (by simp) hr
    | unlocked hreq hr =>
      exact h.quiet g rfl (quiet_setNode (Raft.appendEntries_quiet hr))
        (fun hk _ => ⟨_, hk, Call.Later.refl _⟩) fun hr => hr
  | resume k stable =>
    obtain ⟨q, r, rep, -, hr, rfl⟩ := resume_cases hs
    exact h.quiet g rfl (quiet_setNode (s := s) (Raft.appendEntriesStable_quiet hr))
      (fun hk _ => ⟨_, hk, Call.Later.refl _⟩) fun hr => other_reply (by simp) hr
  | complete k =>
    obtain ⟨id, rep, c, hk, hc, -, hd⟩ := complete_cases hs
    cases hd with
    | requestVote hreq => exact h.complete w t' hc hreq (.requestVote hreq) g
    | appendEntries hreq hr =>
      exact h.quiet g rfl (quiet_setNode (s := s) (Raft.handleAppendEntries_quiet hr))
        (fun hk _ => completed_cases hc hk) fun hr => hr
    | installSnapshot hreq =>
      exact h.quiet g rfl
        (quiet_setNode (s := s) (Raft.leaderSendSnapShotHandler_quiet _ _ _ _))
        (fun hk _ => completed_cases hc hk) fun hr => hr
  | fail id =>
    obtain ⟨c, hc, rfl⟩ := fail_cases hs
    exact h.quiet g rfl (fun _ => Raft.Quiet.refl _) (fun hk _ => completed_cases hc hk)
      fun hr => hr
  | start i command =>
    simp only [Cluster.step] at hs
    split_ifs at hs with hi
    obtain ⟨r, e, hr, rfl⟩ := start_cases hs
    obtain ⟨-, -, rfl⟩ := Raft.start_cases hr
    exact h.quiet g rfl (quiet_setNode (Raft.Quiet.stored rfl rfl rfl ⟨rfl, rfl⟩))
      (fun hk _ => ⟨_, hk, Call.Later.refl _⟩) fun hr => hr
  | onLogStable k ok =>
    obtain ⟨i, index, -, rfl⟩ := onLogStable_cases hs
    exact h.quiet g rfl (quiet_setNode (Raft.onLogStable_quiet _ _ _))
      (fun hk _ => ⟨_, hk, Call.Later.refl _⟩) fun hr => hr
  | doHeartBeat i =>
    simp only [Cluster.step] at hs
    split_ifs at hs with hi
    obtain ⟨-, r, requests, snapshots, hr, rfl⟩ := doHeartBeat_cases hs
    obtain ⟨⟨next, rfl⟩, -, -⟩ := Raft.heartBeatPeers_cases hr
    refine h.quiet g rfl (quiet_setNode (s := s) (.of_eq rfl rfl rfl rfl))
      (fun hk hq => send_quiet (fun hmem args e => ?_) hk hq) fun hr => hr
    simp only [List.mem_map, Prod.mk.injEq, Prod.exists] at hmem
    obtain ⟨_, _, -, -, rfl⟩ := hmem
    simp
  | leaderSendSnapShot k =>
    obtain ⟨i, peer, hk, rfl⟩ := leaderSendSnapShot_cases hs
    refine h.quiet g rfl (fun _ => Raft.Quiet.refl _)
      (fun hk hq => send_quiet (fun hmem args e => ?_) hk hq) fun hr => hr
    obtain ⟨-, rfl⟩ := Prod.mk.inj (List.mem_singleton.mp hmem)
    simp
  | applierTicker i =>
    simp only [Cluster.step] at hs
    split_ifs at hs with hi
    obtain ⟨r, logs, hr, rfl⟩ := applierTicker_cases hs
    obtain ⟨rfl, -⟩ := Raft.applierTicker_cases hr
    exact h.quiet g rfl (quiet_setNode (.of_eq rfl rfl rfl rfl))
      (fun hk _ => ⟨_, hk, Call.Later.refl _⟩) fun hr => hr
  | push i =>
    obtain ⟨msg, rest, -, rfl⟩ := push_cases hs
    exact h.quiet g rfl (quiet_setNode (.of_eq rfl rfl rfl rfl))
      (fun hk _ => ⟨_, hk, Call.Later.refl _⟩) fun hr => hr
  | snapshot i index data =>
    simp only [Cluster.step] at hs
    split_ifs at hs with hi
    obtain ⟨r, hr, rfl⟩ := snapshot_cases hs
    exact h.quiet g rfl (quiet_setNode (Raft.snapshot_quiet hr))
      (fun hk _ => ⟨_, hk, Call.Later.refl _⟩) fun hr => hr
  | restart i logs =>
    simp only [Cluster.step] at hs
    split_ifs at hs with hi
    cases hs
    exact h.restart i logs g

/-! ### One leader for each term -/

/-- Every step there is. -/
def Any (_ : Cluster) (_ : Action) : Prop := True

instance (s : Cluster) (a : Action) : Decidable (s.Any a) := inferInstanceAs (Decidable True)

/-- In every run wiring, votes and elections stay in order, and who was elected stays so. -/
lemma elections_run (w : Wired s) (t : Tally s) (h : Elections s) (hr : Run Any s s') :
    Wired s' ∧ Tally s' ∧ Elections s' ∧ ∀ y ∈ s.elected, y ∈ s'.elected := by
  induction hr with
  | refl => exact ⟨w, t, h, fun _ hy => hy⟩
  | step _ _ hs ih =>
    obtain ⟨w₁, t₁, h₁, he⟩ := ih
    have g := step_follows w₁ hs
    exact ⟨w₁.follows g, tally_step w₁ t₁ hs, elections_step w₁ t₁ h₁ hs,
      fun y hy => g.elected (he y hy)⟩

/-- Two nodes elected in one term share a voter, so they are the same node. -/
lemma Elections.elected_unique (h : Elections s) {i j T : ℕ} (hi : (i, T) ∈ s.elected)
    (hj : (j, T) ∈ s.elected) : i = j := by
  obtain ⟨V, hV, hVc, hVp⟩ := h.won hi
  obtain ⟨W, hW, hWc, hWp⟩ := h.won hj
  obtain ⟨x, hxV, hxW⟩ := (Consensus.majority s.size).inter (Q := {x | x ∈ V}) (R := {x | x ∈ W})
    ⟨V, hV, fun _ hx => hx, hVc⟩ ⟨W, hW, fun _ hx => hx, hWc⟩
  exact h.unique (hVp x hxV) (hWp x hxW)

/-- In no run, with crashes and restarts, do two different nodes lead in one term, be it at the same
time or one after the other. -/
theorem one_leader {i j : ℕ} (hs : Run Any (initial n) s) (ht : Run Any s t)
    (hi : (s.nodes i).state = .leader) (hj : (t.nodes j).state = .leader)
    (hT : (s.nodes i).currentTerm = (t.nodes j).currentTerm) : i = j := by
  obtain ⟨w, y, h, -⟩ := elections_run (Wired.initial n) (Tally.initial n) (Elections.initial n) hs
  obtain ⟨-, -, h', he⟩ := elections_run w y h ht
  exact h'.elected_unique (he _ (h.leader i hi)) (hT ▸ h'.leader j hj)

/-- Node `0` is elected by node `1`, which crashes, gets the request again and refuses node `2`. -/
theorem one_leader_restarted :
    ∃ s ∈ (Cluster.initial 3).runIf Any [.doElection 0, .deliver 0, .complete 0],
      ∃ t ∈ s.runIf Any [.restart 1 [], .deliver 0, .doElection 2, .deliver 3, .complete 2],
        (t.nodes 2).state = .candidate ∧ (t.nodes 2).currentTerm = 1 ∧
        ∃ i j, (s.nodes i).state = .leader ∧ (t.nodes j).state = .leader ∧
          (s.nodes i).currentTerm = (t.nodes j).currentTerm ∧ i = j := by
  have h : ∃ s ∈ (Cluster.initial 3).runIf Any [.doElection 0, .deliver 0, .complete 0],
      ∃ t ∈ s.runIf Any [.restart 1 [], .deliver 0, .doElection 2, .deliver 3, .complete 2],
        (t.nodes 2).state = .candidate ∧ (t.nodes 2).currentTerm = 1 ∧
        (s.nodes 0).state = .leader ∧ (t.nodes 0).state = .leader ∧
          (s.nodes 0).currentTerm = (t.nodes 0).currentTerm := by decide
  obtain ⟨s, hs, t, ht, h1, h2, h3, h4, h5⟩ := h
  exact ⟨s, hs, t, ht, h1, h2, 0, 0, h3, h4, h5,
    one_leader (run_of_runIf hs) (run_of_runIf ht) h3 h4 h5⟩

end Cluster

end KVCacheRaft
