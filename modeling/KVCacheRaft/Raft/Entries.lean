import KVCacheRaft.Raft.Steps

/-!
# Where entries come from

Every entry in a log, in a request or in the hands of a handler was made by `Start` or given back by the
WAL: what holds of these holds of all of them.
-/

namespace KVCacheRaft

variable {P : LogEntry → Prop}

namespace Raft

variable {r r' : Raft}

/-- Every entry of the log. -/
def AllLogs (P : LogEntry → Prop) (r : Raft) : Prop := ∀ e ∈ r.logs, P e

/-- Catching up with a term leaves the entries. -/
lemma AllLogs.catchUp (h : r.AllLogs P) (term : ℕ) : (r.catchUp term).AllLogs P := by
  rw [Raft.catchUp]
  split_ifs
  · exact h
  · exact h

/-- Accepting a term leaves the entries. -/
lemma AllLogs.acceptTerm (h : r.AllLogs P) (term : ℕ) : (r.acceptTerm term).AllLogs P := by
  rw [acceptTerm_eq]
  exact h

/-- `RequestVote` leaves the entries. -/
lemma AllLogs.requestVote (h : r.AllLogs P) (request : RequestVoteArgs) :
    (r.requestVote request).1.AllLogs P := by
  have hc := h.catchUp request.term
  obtain ⟨-, heq, -⟩ | ⟨-, heq | heq, -⟩ | ⟨-, -, -, heq, -⟩ := r.requestVote_cases request
  · rw [heq]
    exact h
  · rw [heq]
    exact hc
  · rw [heq]
    exact hc
  · rw [heq]
    exact hc

/-- A vote leaves the entries. -/
lemma AllLogs.handleRequestVoteResponse (h : r.AllLogs P) (args : RequestVoteArgs)
    (reply : RequestVoteReply) (votedNum : ℕ) :
    (r.handleRequestVoteResponse args reply votedNum).1.AllLogs P := by
  obtain ⟨-, heq⟩ | heq | ⟨-, -, -, -, heq | ⟨-, heq⟩⟩ :=
    r.handleRequestVoteResponse_cases args reply votedNum
  · rw [heq]
    exact h
  · rw [heq]
    exact h
  · rw [heq]
    exact h
  · rw [heq]
    exact h

/-- What is to be written comes from the request. -/
lemma pendingWrites_mem {last : ℤ} {entries : List LogEntry} {writes : List PendingLogWrite}
    (h : r.pendingWrites last entries = .ok writes) {w : PendingLogWrite} (hw : w ∈ writes) :
    w.log ∈ entries := by
  induction entries generalizing writes with
  | nil =>
    obtain rfl := pure_eq_ok.mp h
    cases hw
  | cons log rest ih =>
    have hrest : ∀ {writes}, r.pendingWrites last rest = .ok writes → w ∈ writes → w.log ∈ log :: rest :=
      fun hr hw => List.mem_cons_of_mem _ (ih hr hw)
    have hcons : ∀ {item : PendingLogWrite} {tail}, item.log = log →
        r.pendingWrites last rest = .ok tail → w ∈ item :: tail → w.log ∈ log :: rest := by
      rintro item tail rfl htail hw
      obtain rfl | hw := List.mem_cons.mp hw
      · exact List.mem_cons_self
      · exact hrest htail hw
    rw [pendingWrites] at h
    split_ifs at h
    · exact hrest h hw
    · obtain ⟨tail, htail, h⟩ := bind_eq_ok.mp h
      obtain rfl := pure_eq_ok.mp h
      exact hcons rfl htail hw
    · obtain ⟨old, -, h⟩ := bind_eq_ok.mp h
      split_ifs at h
      · obtain ⟨tail, htail, h⟩ := bind_eq_ok.mp h
        obtain rfl := pure_eq_ok.mp h
        exact hcons rfl htail hw
      · exact hrest h hw

/-- The first locked part of `AppendEntries` leaves the entries. -/
lemma AllLogs.appendEntries (h : r.AllLogs P) {request : AppendEntriesArgs} {phase : AppendPhase}
    (hr : r.appendEntries request = .ok (r', phase)) : r'.AllLogs P := by
  have ha := h.acceptTerm request.term
  obtain ⟨-, rfl, -⟩ | ⟨-, rfl, -⟩ | ⟨-, rfl, -⟩ := appendEntries_cases hr
  · exact h
  · exact ha
  · exact ha

/-- Pending writes are of entries of the request. -/
lemma appendEntries_mem {request : AppendEntriesArgs} {writes : List PendingLogWrite}
    (hr : r.appendEntries request = .ok (r', .unlocked writes)) {w : PendingLogWrite}
    (hw : w ∈ writes) : w.log ∈ request.entries := by
  obtain ⟨-, -, heq⟩ | ⟨-, -, hint, heq⟩ | ⟨-, -, -, -, writes', hwrites, heq⟩ := appendEntries_cases hr
  · cases heq
  · cases heq
  · cases heq
    exact pendingWrites_mem hwrites hw

/-- What a pending write leaves in the log was there or is its entry. -/
lemma applyPending_mem {logs : List LogEntry} {item : PendingLogWrite} {e : LogEntry}
    (he : e ∈ r.applyPending logs item) : e ∈ logs ∨ e = item.log := by
  rw [applyPending] at he
  split_ifs at he
  · exact .inl he
  · exact (List.mem_append.mp he).imp_right List.mem_singleton.mp
  · exact List.mem_or_eq_of_mem_set he

/-- What all pending writes leave in the log was there or is an entry of them. -/
lemma foldl_applyPending_mem {writes : List PendingLogWrite} {logs : List LogEntry}
    (hlogs : ∀ e ∈ logs, P e) (hwrites : ∀ w ∈ writes, P w.log) :
    ∀ e ∈ writes.foldl r.applyPending logs, P e := by
  induction writes generalizing logs with
  | nil => exact hlogs
  | cons w writes ih =>
    refine ih (fun e he => ?_) fun x hx => hwrites x (List.mem_cons_of_mem _ hx)
    obtain he | rfl := applyPending_mem he
    · exact hlogs e he
    · exact hwrites w List.mem_cons_self

/-- The second locked part of `AppendEntries` brings entries of the request only. -/
lemma AllLogs.appendEntriesStable (h : r.AllLogs P) {request : AppendEntriesArgs}
    {pending : List PendingLogWrite} {stable : Bool} {reply : AppendEntriesReply}
    (hpending : ∀ w ∈ pending, P w.log)
    (hr : r.appendEntriesStable request pending stable = .ok (r', reply)) : r'.AllLogs P := by
  obtain ⟨rfl, -⟩ | ⟨-, -, hr⟩ := appendEntriesStable_cases hr
  · exact h
  · obtain ⟨logs, last, hlogs, -, rfl, -⟩ := applyEntries_cases hr
    intro e he
    have he' : e ∈ logs := he
    rw [hlogs] at he'
    exact foldl_applyPending_mem h hpending e he'

/-- A reply to an `AppendEntries` leaves the entries. -/
lemma AllLogs.handleAppendEntries (h : r.AllLogs P) {server : ℕ} {args : AppendEntriesArgs}
    {reply : AppendEntriesReply} (hr : r.handleAppendEntries server args reply = .ok r') :
    r'.AllLogs P := by
  obtain ⟨-, rfl⟩ | ⟨next, rfl⟩ | ⟨-, -, -, hr⟩ := handleAppendEntries_cases hr
  · exact h
  · exact h
  · obtain rfl | ⟨index, e, rfl, -⟩ := advanceCommitIndex_cases hr
    · exact h
    · exact h

/-- A reply to a snapshot leaves the entries. -/
lemma AllLogs.leaderSendSnapShotHandler (h : r.AllLogs P) (args : InstallSnapshotRequest)
    (reply : InstallSnapshotResponse) (i : ℕ) :
    (r.leaderSendSnapShotHandler args reply i).AllLogs P := by
  obtain heq | ⟨-, heq⟩ | ⟨-, -, heq⟩ := r.leaderSendSnapShotHandler_cases args reply i
  · rw [heq]
    exact h
  · rw [heq]
    exact h
  · rw [heq]
    exact h

/-- A callback of the writer brings no entry. -/
lemma AllLogs.onLogStable (h : r.AllLogs P) (ok : Bool) (index : ℤ) :
    (r.onLogStable ok index).AllLogs P := by
  rw [Raft.onLogStable]
  split_ifs
  · dsimp only
    split_ifs
    · exact fun e he => h e (List.mem_of_mem_take he)
    · exact h
  · exact h
  · exact h
  · exact h

/-- `Snapshot` brings no entry. -/
lemma AllLogs.snapshot (h : r.AllLogs P) {index : ℤ} {data : Bytes}
    (hr : r.snapshot index data = .ok r') : r'.AllLogs P := by
  obtain rfl | ⟨-, -, e, -, rfl⟩ := snapshot_cases hr
  · exact h
  · exact fun x hx => h x (List.mem_of_mem_drop (List.mem_of_mem_take hx))

/-- `InstallSnapshot` brings no entry. -/
lemma AllLogs.installSnapshot (h : r.AllLogs P) {args : InstallSnapshotRequest}
    {reply : InstallSnapshotResponse} (hr : r.installSnapshot args = .ok (r', reply)) :
    r'.AllLogs P := by
  have hfollow : (r.follow args.term).AllLogs P := h.catchUp args.term
  obtain ⟨-, rfl⟩ | ⟨-, rfl⟩ | ⟨-, -, rfl⟩ := installSnapshot_cases hr
  · exact h
  · exact hfollow
  · exact fun e he => hfollow e (mem_of_mem_keptLogs he)

end Raft

namespace Cluster

variable {s s' : Cluster}

/-- Every entry in a cluster. -/
structure Entries (P : LogEntry → Prop) (s : Cluster) : Prop where
  logs : ∀ i, (s.nodes i).AllLogs P
  calls : ∀ c ∈ s.calls, ∀ args, c.request = .appendEntries args → ∀ e ∈ args.entries, P e
  handlers : ∀ h ∈ s.handlers, ∀ w ∈ h.pendingWrites, P w.log

/-- What holds of all entries may be weakened. -/
lemma Entries.mono {Q : LogEntry → Prop} (h : s.Entries P) (hPQ : ∀ e, P e → Q e) : s.Entries Q where
  logs i e he := hPQ e (h.logs i e he)
  calls c hc args hargs e he := hPQ e (h.calls c hc args hargs e he)
  handlers x hx w hw := hPQ _ (h.handlers x hx w hw)

/-- A node is replaced, and parts of the cluster that hold no entries. -/
lemma Entries.node (h : s.Entries P) {i : ℕ} {r : Raft} (hnodes : s'.nodes = Function.update s.nodes i r)
    (hcalls : s'.calls = s.calls) (hhandlers : s'.handlers = s.handlers) (hr : r.AllLogs P) :
    s'.Entries P where
  logs j := by
    rw [hnodes]
    by_cases hji : j = i
    · subst hji
      rw [Function.update_self]
      exact hr
    · rw [Function.update_of_ne hji]
      exact h.logs j
  calls := hcalls ▸ h.calls
  handlers := hhandlers ▸ h.handlers

/-- Requests on their way have entries of their sender. -/
lemma Entries.send (h : s.Entries P) (i : ℕ) {requests : List (ℕ × Request)}
    (hrequests : ∀ j args, (j, Request.appendEntries args) ∈ requests → ∀ e ∈ args.entries, P e) :
    (s.send i requests).Entries P where
  logs := h.logs
  calls c hc args hargs := by
    obtain hc | hc := List.mem_append.mp hc
    · exact h.calls c hc args hargs
    · obtain ⟨⟨j, q⟩, hq, rfl⟩ := List.mem_map.mp hc
      obtain rfl : q = .appendEntries args := hargs
      exact hrequests j args hq
  handlers := h.handlers

/-- Completing a call brings no entry. -/
lemma Entries.completed (h : s.Entries P) {id : ℕ} {c : Call} (hc : s.calls[id]? = some c) :
    (s.completed id c).Entries P where
  logs := h.logs
  calls x hx := by
    obtain hx | rfl := List.mem_or_eq_of_mem_set hx
    · exact h.calls x hx
    · exact h.calls c (List.mem_of_getElem? hc)
  handlers := h.handlers

/-- A restart brings the entries of the files. -/
lemma Entries.restart (h : s.Entries P) (i : ℕ) {logs : List LogEntry} (hlogs : ∀ e ∈ logs, P e) :
    (s.restart i logs).Entries P := by
  have hnode : (s.setNode i { Raft.init i s.size (s.nodes i).fmp (s.nodes i).snapshotFile logs with
      applyChan := (s.nodes i).applyChan }).Entries P := h.node rfl rfl rfl hlogs
  exact {
    logs := hnode.logs
    calls := fun c hc => by
      obtain ⟨x, hx, rfl⟩ := List.mem_map.mp hc
      split_ifs
      · exact h.calls x hx
      · exact h.calls x hx
    handlers := fun x hx => h.handlers x (List.mem_filter.mp hx).1 }

/-- Only `Start` and `restart` bring entries into a cluster. -/
theorem Entries.step (h : s.Entries P) {a : Action}
    (hstart : ∀ i command r e, a = .start i command → (s.nodes i).start command = .ok (some (r, e)) → P e)
    (hrestart : ∀ i logs, a = .restart i logs → ∀ e ∈ logs, P e) (hs : s.step a = some s') :
    s'.Entries P := by
  cases a with
  | doElection i =>
    rw [Cluster.step] at hs
    split_ifs at hs
    obtain ⟨-, r, requests, hr, rfl⟩ := doElection_cases hs
    obtain ⟨-, rfl, -⟩ := Raft.doElection_cases hr
    refine Entries.send ?_ i fun j args hargs => ?_
    · exact h.node rfl rfl rfl (h.logs i)
    · obtain ⟨x, -, heq⟩ := List.mem_map.mp hargs
      cases (Prod.mk.inj heq).2
  | persistElection i =>
    rw [Cluster.step] at hs
    split_ifs at hs
    obtain rfl := Option.some.inj hs
    exact h.node rfl rfl rfl (h.logs i)
  | deliver id =>
    obtain ⟨c, hc, hd⟩ := deliver_cases hs
    cases hd with
    | requestVote hreq => exact h.node rfl rfl rfl ((h.logs _).requestVote _)
    | installSnapshot hreq hr => exact h.node rfl rfl rfl ((h.logs _).installSnapshot hr)
    | replied hreq hr => exact h.node rfl rfl rfl ((h.logs _).appendEntries hr)
    | unlocked hreq hr =>
      have hnode : (s.setNode c.callee _).Entries P :=
        h.node rfl rfl rfl ((h.logs _).appendEntries hr)
      refine ⟨hnode.logs, hnode.calls, fun x hx w hw => ?_⟩
      obtain hx | hx := List.mem_append.mp hx
      · exact h.handlers x hx w hw
      · obtain rfl := List.mem_singleton.mp hx
        exact h.calls c (List.mem_of_getElem? hc) _ hreq _ (Raft.appendEntries_mem hr hw)
  | resume k stable =>
    obtain ⟨w, r, rep, hw, hr, rfl⟩ := resume_cases hs
    have hnode : (s.setNode w.node r).Entries P := h.node rfl rfl rfl
      ((h.logs _).appendEntriesStable (h.handlers w (List.mem_of_getElem? hw)) hr)
    exact ⟨hnode.logs, hnode.calls, fun x hx => h.handlers x (List.mem_of_mem_eraseIdx hx)⟩
  | complete k =>
    obtain ⟨id, rep, c, -, hc, -, hd⟩ := complete_cases hs
    have hcompleted := h.completed hc
    cases hd with
    | requestVote hreq =>
      exact hcompleted.node rfl rfl rfl ((h.logs _).handleRequestVoteResponse _ _ _)
    | appendEntries hreq hr => exact hcompleted.node rfl rfl rfl ((h.logs _).handleAppendEntries hr)
    | installSnapshot hreq => exact hcompleted.node rfl rfl rfl ((h.logs _).leaderSendSnapShotHandler _ _ _)
  | fail id =>
    obtain ⟨c, hc, rfl⟩ := fail_cases hs
    exact h.completed hc
  | start i command =>
    rw [Cluster.step] at hs
    split_ifs at hs
    obtain ⟨r, e, hr, rfl⟩ := start_cases hs
    have hnew := hstart i command r e rfl hr
    obtain ⟨-, -, rfl⟩ := Raft.start_cases hr
    refine h.node rfl rfl rfl fun x hx => ?_
    obtain hx | hx := List.mem_append.mp hx
    · exact h.logs i x hx
    · exact List.mem_singleton.mp hx ▸ hnew
  | onLogStable k ok =>
    obtain ⟨i, index, -, rfl⟩ := onLogStable_cases hs
    exact h.node rfl rfl rfl ((h.logs i).onLogStable ok index)
  | doHeartBeat i =>
    rw [Cluster.step] at hs
    split_ifs at hs
    obtain ⟨-, r, requests, snapshots, hr, rfl⟩ := doHeartBeat_cases hs
    obtain ⟨⟨next, rfl⟩, hrequests, -⟩ := Raft.heartBeatPeers_cases hr
    refine Entries.send ?_ i fun j args hargs e he => ?_
    · exact h.node rfl rfl rfl (h.logs i)
    · obtain ⟨⟨j', args'⟩, hmem, heq⟩ := List.mem_map.mp hargs
      simp only [Prod.mk.injEq, Request.appendEntries.injEq] at heq
      obtain ⟨rfl, rfl⟩ := heq
      exact h.logs i e (List.mem_of_mem_drop ((hrequests _ _ hmem).2.entries.subset he))
  | leaderSendSnapShot k =>
    obtain ⟨i, peer, -, rfl⟩ := leaderSendSnapShot_cases hs
    refine Entries.send ?_ i fun j args hargs => ?_
    · exact ⟨h.logs, h.calls, h.handlers⟩
    · cases List.mem_singleton.mp hargs
  | applierTicker i =>
    rw [Cluster.step] at hs
    split_ifs at hs
    obtain ⟨r, logs, hr, rfl⟩ := applierTicker_cases hs
    obtain ⟨rfl, -⟩ := Raft.applierTicker_cases hr
    exact h.node rfl rfl rfl (h.logs i)
  | push i =>
    obtain ⟨msg, rest, -, rfl⟩ := push_cases hs
    exact h.node rfl rfl rfl (h.logs i)
  | snapshot i index data =>
    rw [Cluster.step] at hs
    split_ifs at hs
    obtain ⟨r, hr, rfl⟩ := snapshot_cases hs
    exact h.node rfl rfl rfl ((h.logs i).snapshot hr)
  | restart i logs =>
    rw [Cluster.step] at hs
    split_ifs at hs
    obtain rfl := Option.some.inj hs
    exact h.restart i (hrestart i logs rfl)

end Cluster

end KVCacheRaft
