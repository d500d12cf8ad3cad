import Mathlib.Data.List.Dedup
import KVCacheRaft.Machine.Runs
import KVCacheRaft.Raft.Entries
import KVCacheRaft.Raft.Places
import KVCacheRaft.Rpc.Delivery
import KVCacheRaft.Server.Archive
import KVCacheRaft.Wal.Rollback
import KVCacheRaft.Wal.Sizes

/-!
# The limits on sizes

`OnMessage` refuses a frame of more than 16 MiB, and `ReadWalSegment` a record of more. Between a
client's request and the last log it comes to, nothing else looks at a size: a request of `doHeartBeat`
has all entries that a peer may not have, one of `leaderSendSnapShot` the whole snapshot, and `Start`
makes a record out of an archive. Everything that is sent or written has come in before, as a client's
request or as the dump of a server: as long as the requests since the snapshot of a leader fit into one
frame, and every dump does, so does everything that is sent.
-/

namespace KVCacheRaft

open Codecs Machine

/-! ### What is sent -/

namespace Raft

variable {r r' : Raft}

/-- The entries from `m_nextIndex` up to the stable index. -/
def backlog (r : Raft) (i : ℕ) : List LogEntry :=
  (r.logs.drop (r.nextIndex i - 1 - r.lastSnapshotIndex).toNat).take
    (r.stableLogIndex - (r.nextIndex i - 1)).toNat

/-- The size of a request with the backlog of a peer. -/
def backlogSize (r : Raft) (i : ℕ) : ℕ :=
  AppendEntriesArgs.byteSizeLong r.currentTerm r.id (r.nextIndex i - 1)
    ((r.termAt (r.nextIndex i - 1)).toOption.getD 0) (r.backlog i) r.commitIndex

/-- The size of a request with the snapshot. -/
def snapshotSize (r : Raft) : ℕ :=
  InstallSnapshotRequest.byteSizeLong r.id r.currentTerm r.lastSnapshotIndex r.lastSnapshotTerm
    r.snapshotFile.length

/-- Room for the fields of a request other than its entries or its data, and for its frame. -/
def envelopeSize : ℕ := 128

/-- A backlog is encoded in little more than its entries. -/
lemma backlogSize_le (r : Raft) (i : ℕ) : r.backlogSize i ≤ entriesSize (r.backlog i) + 55 := by
  have hterm := messageSize_int32Field_le (show 1 < 16 by omega) r.currentTerm
  have hid := messageSize_int32Field_le (show 2 < 16 by omega) r.id
  have hprev := messageSize_int32Field_le (show 3 < 16 by omega) (r.nextIndex i - 1)
  have hprevterm := messageSize_int32Field_le (show 4 < 16 by omega)
    ((r.termAt (r.nextIndex i - 1)).toOption.getD 0 : ℕ)
  have hcommit := messageSize_int32Field_le (show 6 < 16 by omega) r.commitIndex
  rw [backlogSize, AppendEntriesArgs.byteSizeLong]
  omega

/-- A snapshot request is encoded in little more than the dump. -/
lemma snapshotSize_le (r : Raft) : r.snapshotSize ≤ r.snapshotFile.length + 54 := by
  have hid := messageSize_int32Field_le (show 1 < 16 by omega) r.id
  have hterm := messageSize_int32Field_le (show 2 < 16 by omega) r.currentTerm
  have hindex := messageSize_int32Field_le (show 3 < 16 by omega) r.lastSnapshotIndex
  have hsnapterm := messageSize_int32Field_le (show 4 < 16 by omega) r.lastSnapshotTerm
  have hdata := bytesSize_le_add 5 r.snapshotFile.length
  rw [snapshotSize, InstallSnapshotRequest.byteSizeLong]
  omega

/-- The backlog of a peer is no larger than any list that holds all entries of the log. -/
lemma entriesSize_backlog_le {entries : List LogEntry} (h : Aligned r.lastSnapshotIndex r.logs)
    (hsubset : r.logs ⊆ entries) (i : ℕ) : entriesSize (r.backlog i) ≤ entriesSize entries := by
  have hsublist : (r.backlog i).Sublist r.logs :=
    (List.take_sublist _ _).trans (List.drop_sublist _ _)
  have hnodup : (r.backlog i).Nodup := by
    refine (h.sorted.sublist hsublist).imp fun hlt heq => ?_
    rw [heq] at hlt
    exact Int.lt_irrefl _ hlt
  exact entriesSize_le_of_subset hnodup fun e he => hsubset (hsublist.subset he)

/-- A request of `doHeartBeat` carries the backlog of its peer. -/
lemma heartBeatPeers_request {peers : List ℕ} {requests : List (ℕ × AppendEntriesArgs)}
    {snapshots : List ℕ} (h : r.heartBeatPeers peers = .ok (r', requests, snapshots)) :
    r' = r ∧ ∀ i args, (i, args) ∈ requests → args.serialize.length = r.backlogSize i := by
  obtain ⟨rfl, hrequests, -⟩ := heartBeatPeers_requests h
  refine ⟨rfl, fun i args hi => ?_⟩
  obtain ⟨-, hs⟩ := hrequests i args hi
  obtain ⟨hb, -, hprev, hid⟩ := (heartBeatPeer_cases hs).2 args rfl
  have hlen := hb.length
  have hentries : args.entries = r'.backlog i := by
    have htake := List.prefix_iff_eq_take.mp hb.entries
    have hcount : args.entries.length = (r'.stableLogIndex - (r'.nextIndex i - 1)).toNat := by omega
    rw [hcount, hprev] at htake
    exact htake
  have hterm : (r'.termAt (r'.nextIndex i - 1)).toOption.getD 0 = args.prevlogterm := by
    rw [← hprev, hb.prev]
    rfl
  rw [args.length_serialize, backlogSize, hterm, hb.term, hb.leadercommit, hid, hprev, hentries]

/-- A snapshot request has the size that is counted. -/
lemma length_leaderSendSnapShot (r : Raft) :
    r.leaderSendSnapShot.serialize.length = r.snapshotSize :=
  InstallSnapshotRequest.length_serialize _

end Raft

/-! ### What is written -/

/-- The entries whose records an event of a writer writes, the torn one included. -/
def WalWriter.records {α β : Type} (s : WalWriter α β) : WalWriter.Event α β → List LogEntry
  | .round ⟨none, _, _⟩ => s.group.flatMap (·.logs)
  | .round ⟨some torn, _, _⟩ => (s.group.take torn.batch).flatMap (·.logs) ++
    (s.group[torn.batch]?.map (·.logs.take (torn.entry + 1))).getD []
  | .compactWal snapshotIndex none => s.wal.compacted snapshotIndex
  | .compactWal snapshotIndex (some (k, _)) => (s.wal.compacted snapshotIndex).take (k + 1)
  | _ => []

/-- Every entry in the queue of a writer. -/
def WalWriter.Queued {α β : Type} (P : LogEntry → Prop) (s : WalWriter α β) : Prop :=
  ∀ b ∈ s.queue, ∀ e ∈ b.logs, P e

namespace WalWriter

variable {α β : Type} {s t : WalWriter α β}

/-- What is written comes from the queue or from the segments. -/
lemma Queued.records (h : s.Queued LogEntry.Recordable) (e : Event α β) :
    ∀ x ∈ s.records e, x.Recordable := by
  have hgroup : ∀ b ∈ s.group, ∀ x ∈ b.logs, x.Recordable := fun b hb => h b (List.mem_of_mem_take hb)
  intro x hx
  cases e with
  | push b => cases hx
  | round o =>
    obtain ⟨_ | torn, sync_ok, time_due⟩ := o
    · obtain ⟨b, hb, hx⟩ := List.mem_flatMap.mp hx
      exact hgroup b hb x hx
    · obtain hx | hx := List.mem_append.mp hx
      · obtain ⟨b, hb, hx⟩ := List.mem_flatMap.mp hx
        exact hgroup b (List.mem_of_mem_take hb) x hx
      · cases hbatch : s.group[torn.batch]? with
        | none =>
          rw [hbatch] at hx
          cases hx
        | some b =>
          rw [hbatch] at hx
          exact hgroup b (List.mem_of_getElem? hbatch) x (List.mem_of_mem_take hx)
  | compactWal snapshotIndex torn =>
    obtain _ | ⟨k, n⟩ := torn
    · exact recordable_of_mem_replayEntries hx
    · exact recordable_of_mem_replayEntries (List.mem_of_mem_take hx)
  | shutdown sync_ok => cases hx

/-- The entries that wait are as before, and those of the batch. -/
lemma Queued.push {P : LogEntry → Prop} (h : s.Queued P) {b : LogBatch α β} (hb : ∀ e ∈ b.logs, P e)
    (ht : s.step (.push b) = some t) : t.Queued P := by
  obtain rfl := Option.some.inj ht
  split_ifs
  · exact h
  · intro x hx
    obtain hx | hx := List.mem_append.mp hx
    · exact h x hx
    · exact List.mem_singleton.mp hx ▸ hb

/-- Behind a round no other entries wait. -/
lemma Queued.round {P : LogEntry → Prop} (h : s.Queued P) {o : Outcome} (ht : s.round o = some t) :
    t.Queued P := by
  have hpop : ∀ b ∈ s.queue.drop kSyncBatchCount, ∀ e ∈ b.logs, P e := fun b hb =>
    h b (List.mem_of_mem_drop hb)
  obtain ⟨torn, -, hfails⟩ | ⟨-, ⟨-, rfl⟩ | ⟨-, rfl⟩ | ⟨-, rfl⟩⟩ := round_cases ht
  · obtain ⟨rest, hrecovered⟩ := recovered_writeFails hfails
    intro b hb
    rw [hrecovered.queue] at hb
    exact hpop b hb
  · cases hok : o.sync_ok with
    | true => exact hpop
    | false => exact hpop
  · exact hpop
  · exact hpop

/-- Only `push` brings entries into the queue. -/
lemma Queued.step {P : LogEntry → Prop} (h : s.Queued P) {e : Event α β} (hpush : ∀ b, e ≠ .push b)
    (ht : s.step e = some t) : t.Queued P := by
  cases e with
  | push b => exact absurd rfl (hpush b)
  | round o =>
    obtain ⟨-, ht⟩ := Option.ite_none_right_eq_some.mp ht
    exact h.round ht
  | compactWal snapshotIndex torn =>
    obtain _ | ⟨k, n⟩ := torn
    · obtain rfl := Option.some.inj ht
      exact h
    · obtain ⟨log, -, ht⟩ := Option.bind_eq_some_iff.mp ht
      obtain ⟨-, ht⟩ := Option.ite_none_right_eq_some.mp ht
      obtain rfl := Option.some.inj ht
      exact h
  | shutdown sync_ok =>
    obtain ⟨-, ht⟩ := Option.ite_none_right_eq_some.mp ht
    obtain rfl := Option.some.inj ht
    split_ifs
    · exact h
    · exact h

end WalWriter

/-! ### A cluster with its writers -/

/-- The frame of a request that was sent. -/
structure SentFrame where
  /-- the place of the call -/
  call : ℕ
  request_id : ℕ
  frame_str : Bytes

/-- A client's request that `OnMessage` takes. -/
structure AdmittedRequest where
  request : KvRequest
  request_id : ℕ
  admitted : FrameSize (request.frame request_id).serialize

/-- A cluster, the writer of each node, and what was sent and written so far. -/
structure Deployment where
  cluster : Cluster
  writers : ℕ → WalWriter Unit Unit
  /-- batches of `Start` and of handlers that are not in the queue yet, by node -/
  unpushed : List (ℕ × LogBatch Unit Unit) := []
  /-- the entries that came in: those of requests, and those read back at a restart -/
  entries : List LogEntry := []
  frames : List SentFrame := []
  /-- the entries whose records were written -/
  records : List LogEntry := []

namespace Deployment

inductive Event where
  /-- a step of the cluster that is none of those below -/
  | act (a : Action)
  /-- a client's request comes in -/
  | request (i : ℕ) (request : AdmittedRequest)
  /-- with the ids that the channels give to the requests -/
  | doHeartBeat (i : ℕ) (request_ids : ℕ → ℕ)
  | leaderSendSnapShot (thread request_id : ℕ)
  /-- a batch comes to the queue of its node -/
  | push (k : ℕ)
  | writer (i : ℕ) (e : WalWriter.Event Unit Unit)
  /-- the process of a node starts over any files -/
  | restart (i : ℕ) (files : List SegmentFile)

/-- `OnMessage` of the callee takes the frame of the call. -/
def Arrives (s : Deployment) (k : ℕ) : Prop :=
  ∀ c ∈ s.cluster.calls[k]?, c.request.frame 0 = none ∨ ∃ x ∈ s.frames, x.call = k ∧
    ∃ frame ∈ c.request.frame x.request_id, FrameSize frame.serialize

instance (s : Deployment) (k : ℕ) : Decidable (s.Arrives k) := by
  unfold Arrives
  infer_instance

/-- The frames of the calls of `t` that are not in `s`. -/
def newFrames (s t : Cluster) (request_ids : ℕ → ℕ) : List SentFrame :=
  (t.calls.zipIdx.drop s.calls.length).filterMap fun (c, call) =>
    let request_id := request_ids c.callee
    (c.request.frame request_id).map fun frame => ⟨call, request_id, frame.serialize⟩

/-- The batches of the handlers of `t` that are not in `s`. -/
def newBatches (s t : Cluster) : List (ℕ × LogBatch Unit Unit) :=
  (t.handlers.drop s.handlers.length).map fun h =>
    (h.node, { logs := h.pendingWrites.map (·.log), ticket := .waiter () })

/-- What an event does; none when it cannot happen. -/
def step (A : Archives) (s : Deployment) : Event → Option Deployment
  | .act (.deliver k) =>
    if s.Arrives k then (s.cluster.step (.deliver k)).map fun cluster =>
      { s with cluster, unpushed := s.unpushed ++ newBatches s.cluster cluster }
    else none
  | .act (.start _ _) | .act (.doHeartBeat _) | .act (.leaderSendSnapShot _) | .act (.restart _ _) => none
  | .act a => (s.cluster.step a).map fun cluster => { s with cluster }
  | .request i request =>
    let command := A.op.save request.request.op
    ((s.cluster.nodes i).start command).toOption.join.bind fun (_, e) =>
      (s.cluster.step (.start i command)).map fun cluster =>
        { s with
          cluster
          unpushed := s.unpushed ++ [(i, { logs := [e], ticket := .callback () })]
          entries := s.entries ++ [e] }
  | .doHeartBeat i request_ids => (s.cluster.step (.doHeartBeat i)).map fun cluster =>
    { s with cluster, frames := s.frames ++ newFrames s.cluster cluster request_ids }
  | .leaderSendSnapShot k request_id => (s.cluster.step (.leaderSendSnapShot k)).map fun cluster =>
    { s with cluster, frames := s.frames ++ newFrames s.cluster cluster fun _ => request_id }
  | .push k => s.unpushed[k]?.bind fun (i, b) => ((s.writers i).step (.push b)).map fun writer =>
    { s with writers := Function.update s.writers i writer, unpushed := s.unpushed.eraseIdx k }
  | .writer _ (.push _) => none
  | .writer i e => ((s.writers i).step e).map fun writer =>
    { s with
      writers := Function.update s.writers i writer
      records := s.records ++ (s.writers i).records e }
  | .restart i files =>
    let logs := ((Wal.create files).readPersistedLogs (s.cluster.nodes i).fmp.snapshot_index.toNat).2
    (s.cluster.step (.restart i logs)).map fun cluster =>
      { s with
        cluster
        writers := Function.update s.writers i (.started files)
        unpushed := s.unpushed.filter (·.1 ≠ i)
        entries := s.entries ++ logs }

/-- New nodes over empty directories. -/
def initial (size : ℕ) : Deployment where
  cluster := .initial size
  writers _ := .started []

/-- The entries behind an index that came in. -/
def since (s : Deployment) (index : ℤ) : List LogEntry :=
  (s.entries.filter (index < ·.logindex)).dedup

/-- The entry of a request is within the limit of `ReadWalSegment`; the dump of a server fits into a
frame; and so do, when a leader sends heartbeats, the entries behind its snapshot that came in. -/
def Fits (A : Archives) (s : Deployment) : Event → Prop
  | .request i request =>
    LogEntry.byteSizeLong
      { command := A.op.save request.request.op
        logterm := (s.cluster.nodes i).currentTerm
        logindex := (s.cluster.nodes i).getLastLogIndex + 1 } ≤ maxLogSize
  | .act (.snapshot _ _ data) => data.length + Raft.envelopeSize ≤ kMaxFrameSize
  | .doHeartBeat i _ =>
    entriesSize (s.since (s.cluster.nodes i).lastSnapshotIndex) + Raft.envelopeSize ≤ kMaxFrameSize
  | _ => True

instance (A : Archives) (s : Deployment) (e : Event) : Decidable (Fits A s e) := by
  unfold Fits
  split <;> infer_instance

variable {A : Archives} {s t : Deployment}

/-! ### What arrives -/

/-- A client's request that is admitted is scheduled by the provider of the server. -/
lemma scheduled_admitted (request : AdmittedRequest) (hfits : request.request.Fits)
    (hid : request.request_id < 2 ^ 64) {pieces : List Bytes}
    (hpieces : pieces.flatten = wireString (request.request.frame request.request_id).serialize) :
    pieces.foldl RpcProvider.ofKvServer.onMessage ({}, []) =
      ({ frames := [(request.request.frame request.request_id).serialize],
         tasks := [(request.request.call request.request_id).context] }, []) :=
  KvRequest.scheduled hfits hid request.admitted hpieces

/-! ### The invariant -/

/-- Entries are not empty, those on their way to a record are within its limit, and snapshots are
dumps that fit. -/
structure Inv (s : Deployment) : Prop where
  placed : s.cluster.Placed fun data => data.length + Raft.envelopeSize ≤ kMaxFrameSize
  /-- every entry in the cluster came in -/
  entries : s.cluster.Entries (· ∈ s.entries)
  nonempty : ∀ e ∈ s.entries, e.byteSizeLong ≠ 0
  unpushed : ∀ x ∈ s.unpushed, ∀ e ∈ x.2.logs, e.Recordable
  queued : ∀ i, (s.writers i).Queued LogEntry.Recordable
  frames : ∀ x ∈ s.frames, FrameSize x.frame_str
  records : ∀ e ∈ s.records, e.Recordable

/-- A recordable entry is not empty and is within the bound on its size. -/
lemma recordable_iff {e : LogEntry} :
    e.Recordable ↔ e.byteSizeLong ≠ 0 ∧ e.byteSizeLong ≤ maxLogSize := by
  rw [← e.length_serialize]
  rfl

/-- An entry of a request that arrives is no larger than its frame. -/
lemma Arrives.byteSizeLong_le {k : ℕ} (h : s.Arrives k) {c : Call} (hc : s.cluster.calls[k]? = some c)
    {args : AppendEntriesArgs} (hargs : c.request = .appendEntries args) {e : LogEntry}
    (he : e ∈ args.entries) : e.byteSizeLong ≤ maxLogSize := by
  have harrives := h c hc
  rw [hargs] at harrives
  obtain hnone | ⟨x, -, -, frame, hframe, hsize⟩ := harrives
  · cases hnone
  · obtain rfl := Option.some.inj hframe
    have hle := hsize.2
    rw [RpcRequestFrame.length_serialize] at hle
    dsimp only at hle
    have hpayload := le_frameSize x.request_id raftRpc methodAppendEntries args.serialize.length
    have hentries := byteSizeLong_le_entriesSize he
    have hargs := args.length_serialize
    rw [AppendEntriesArgs.byteSizeLong] at hargs
    rw [maxLogSize]
    rw [kMaxFrameSize] at hle
    omega

/-- A frame that is sent is that of a new call. -/
lemma mem_newFrames {u v : Cluster} {request_ids : ℕ → ℕ} {x : SentFrame}
    (h : x ∈ newFrames u v request_ids) :
    ∃ c ∈ v.calls.drop u.calls.length, v.calls[x.call]? = some c ∧
      ∃ frame ∈ c.request.frame x.request_id, x.frame_str = frame.serialize := by
  obtain ⟨⟨c, call⟩, hmem, hx⟩ := List.mem_filterMap.mp h
  obtain ⟨frame, hframe, rfl⟩ := Option.map_eq_some_iff.mp hx
  obtain ⟨k, hk⟩ := List.getElem?_of_mem hmem
  rw [List.getElem?_drop, List.getElem?_zipIdx] at hk
  obtain ⟨c', hc', heq⟩ := Option.map_eq_some_iff.mp hk
  obtain ⟨rfl, rfl⟩ := Prod.mk.inj heq
  exact ⟨c', List.mem_of_getElem? (List.getElem?_drop ▸ hc'), by rw [Nat.zero_add]; exact hc',
    frame, hframe, rfl⟩

/-- The new calls of a send. -/
lemma mem_drop_send {u : Cluster} {i : ℕ} {requests : List (ℕ × Request)} {calls : List Call} {c : Call}
    (hc : c ∈ (u.send i requests).calls.drop calls.length) (hcalls : u.calls = calls) :
    ∃ callee request, (callee, request) ∈ requests ∧
      c = { caller := i, callee, request, pending := true } := by
  rw [← hcalls, Cluster.send, List.drop_left] at hc
  obtain ⟨⟨callee, request⟩, hmem, rfl⟩ := List.mem_map.mp hc
  exact ⟨callee, request, hmem, rfl⟩

/-- A frame has the name of its service. -/
lemma frameSize_pos (request_id : ℕ) (method_name : Bytes) (payload : ℕ) :
    0 < frameSize request_id raftRpc method_name payload := by
  have hname := le_bytesSize 2 raftRpc.length
  have hlen : raftRpc.length = 7 := rfl
  rw [frameSize]
  omega

/-- Every entry of a log of the cluster came in behind its snapshot. -/
lemma Inv.logs_subset (h : s.Inv) (i : ℕ) :
    (s.cluster.nodes i).logs ⊆ s.since (s.cluster.nodes i).lastSnapshotIndex := by
  intro e he
  obtain ⟨k, hk⟩ := List.getElem?_of_mem he
  have hindex := (h.placed.nodes i).aligned k e hk
  exact List.mem_dedup.mpr (List.mem_filter.mpr ⟨h.entries.logs i e he, decide_eq_true (by omega)⟩)

/-- A step of the cluster that brings in nothing. -/
lemma Inv.cluster (h : s.Inv) {a : Action} {cluster : Cluster} (hstep : s.cluster.step a = some cluster)
    (hstart : ∀ i command, a ≠ .start i command) (hrestart : ∀ i logs, a ≠ .restart i logs)
    (hsnapshot : ∀ i index data, a = .snapshot i index data →
      data.length + Raft.envelopeSize ≤ kMaxFrameSize) : Inv { s with cluster } where
  placed := h.placed.step hsnapshot (fun i logs ha => absurd ha (hrestart i logs)) hstep
  entries := h.entries.step (fun i command _ _ ha => absurd ha (hstart i command))
    (fun i logs ha => absurd ha (hrestart i logs)) hstep
  nonempty := h.nonempty
  unpushed := h.unpushed
  queued := h.queued
  frames := h.frames
  records := h.records

/-- A step of the nodes keeps the invariant. -/
lemma Inv.act (h : s.Inv) {a : Action} (hfits : Fits A s (.act a)) (hs : s.step A (.act a) = some t) :
    t.Inv := by
  cases a with
  | deliver k =>
    obtain ⟨harrives, hs⟩ := Option.ite_none_right_eq_some.mp hs
    obtain ⟨cluster, hstep, rfl⟩ := Option.map_eq_some_iff.mp hs
    have hnext := h.cluster hstep (fun _ _ => nofun) (fun _ _ => nofun) fun _ _ _ => nofun
    refine ⟨hnext.placed, hnext.entries, h.nonempty, fun x hx e he => ?_, h.queued, h.frames,
      h.records⟩
    obtain hx | hx := List.mem_append.mp hx
    · exact h.unpushed x hx e he
    · obtain ⟨handler, hhandler, rfl⟩ := List.mem_map.mp hx
      obtain ⟨w, hw, rfl⟩ := List.mem_map.mp he
      obtain ⟨c, hc, hd⟩ := Cluster.deliver_cases hstep
      have hnone : ∀ handlers, handlers = s.cluster.handlers →
          handler ∉ handlers.drop s.cluster.handlers.length := by
        rintro handlers rfl hmem
        rw [List.drop_length] at hmem
        cases hmem
      cases hd with
      | requestVote hreq => exact absurd hhandler (hnone _ rfl)
      | installSnapshot hreq hr => exact absurd hhandler (hnone _ rfl)
      | replied hreq hr => exact absurd hhandler (hnone _ rfl)
      | unlocked hreq hr =>
        have hmem : handler ∈ (s.cluster.handlers ++ [_]).drop s.cluster.handlers.length := hhandler
        rw [List.drop_left] at hmem
        obtain rfl := List.mem_singleton.mp hmem
        have he := Raft.appendEntries_mem hr hw
        have hin := h.entries.calls c (List.mem_of_getElem? hc) _ hreq _ he
        exact recordable_iff.mpr ⟨h.nonempty _ hin, harrives.byteSizeLong_le hc hreq he⟩
  | start i command => cases hs
  | doHeartBeat i => cases hs
  | leaderSendSnapShot k => cases hs
  | restart i logs => cases hs
  | snapshot i index data =>
    obtain ⟨cluster, hstep, rfl⟩ := Option.map_eq_some_iff.mp hs
    refine h.cluster hstep (fun _ _ => nofun) (fun _ _ => nofun) fun j x d hd => ?_
    obtain ⟨-, -, rfl⟩ := Action.snapshot.inj hd
    exact hfits
  | doElection i | persistElection i | resume i stable | complete k | fail id | onLogStable k ok
  | applierTicker i | push i =>
    obtain ⟨cluster, hstep, rfl⟩ := Option.map_eq_some_iff.mp hs
    exact h.cluster hstep (fun _ _ => nofun) (fun _ _ => nofun) fun _ _ _ => nofun

/-- An admitted request keeps the invariant. -/
lemma Inv.request (h : s.Inv) {i : ℕ} {request : AdmittedRequest}
    (hfits : Fits A s (.request i request)) (hs : s.step A (.request i request) = some t) : t.Inv := by
  obtain ⟨⟨r, e⟩, hr, hs⟩ := Option.bind_eq_some_iff.mp hs
  obtain ⟨cluster, hstep, rfl⟩ := Option.map_eq_some_iff.mp hs
  have hr := join_toOption_eq_some.mp hr
  obtain ⟨-, he, -⟩ := Raft.start_cases hr
  have hcommand := List.length_pos_iff.mpr (A.op.save_ne_nil request.request.op)
  have hle := e.le_byteSizeLong
  have hne : e.byteSizeLong ≠ 0 := by
    rw [he] at hle ⊢
    exact Nat.ne_of_gt (Nat.lt_of_lt_of_le hcommand hle)
  have hrecordable : e.Recordable := recordable_iff.mpr ⟨hne, by rw [he]; exact hfits⟩
  have hgrown : s.cluster.Entries (· ∈ s.entries ++ [e]) :=
    h.entries.mono fun x hx => List.mem_append_left _ hx
  have hentries := hgrown.step (a := .start i (A.op.save request.request.op))
    (fun j command r' e' ha hr' => by
      obtain ⟨rfl, rfl⟩ := Action.start.inj ha
      obtain ⟨-, rfl⟩ := Prod.mk.inj (Option.some.inj (Except.ok.inj (hr.symm.trans hr')))
      exact List.mem_append_right _ (List.mem_singleton.mpr rfl))
    (fun _ _ ha => by cases ha) hstep
  have hplaced := h.placed.step (fun _ _ _ ha => by cases ha) (fun _ _ ha => by cases ha) hstep
  refine ⟨hplaced, hentries, fun x hx => ?_, fun x hx e' he' => ?_, h.queued, h.frames, h.records⟩
  · obtain hx | hx := List.mem_append.mp hx
    · exact h.nonempty x hx
    · obtain rfl := List.mem_singleton.mp hx
      exact hne
  · obtain hx | hx := List.mem_append.mp hx
    · exact h.unpushed x hx e' he'
    · obtain rfl := List.mem_singleton.mp hx
      obtain rfl := List.mem_singleton.mp he'
      exact hrecordable

/-- The frames of heartbeats: the backlog of a peer came in since the snapshot. -/
lemma Inv.doHeartBeat (h : s.Inv) {i : ℕ} {request_ids : ℕ → ℕ}
    (hfits : Fits A s (.doHeartBeat i request_ids))
    (hs : s.step A (.doHeartBeat i request_ids) = some t) : t.Inv := by
  obtain ⟨cluster, hstep, rfl⟩ := Option.map_eq_some_iff.mp hs
  have hnext := h.cluster hstep (fun _ _ => nofun) (fun _ _ => nofun) fun _ _ _ => nofun
  refine ⟨hnext.placed, hnext.entries, h.nonempty, h.unpushed, h.queued, fun x hx => ?_, h.records⟩
  obtain hx | hx := List.mem_append.mp hx
  · exact h.frames x hx
  rw [Cluster.step] at hstep
  split_ifs at hstep
  obtain ⟨-, r, requests, snapshots, hr, rfl⟩ := Cluster.doHeartBeat_cases hstep
  obtain ⟨-, hrequests⟩ := Raft.heartBeatPeers_request hr
  obtain ⟨c, hc, -, frame, hframe, hx⟩ := mem_newFrames hx
  obtain ⟨j, request, hmem, rfl⟩ := mem_drop_send hc rfl
  obtain ⟨⟨j', args⟩, hargs, heq⟩ := List.mem_map.mp hmem
  simp only [Prod.mk.injEq] at heq
  obtain ⟨rfl, rfl⟩ := heq
  have hlen := hrequests _ _ hargs
  obtain rfl := Option.some.inj hframe
  rw [hx, FrameSize, RpcRequestFrame.length_serialize]
  refine ⟨frameSize_pos .., ?_⟩
  have hframe := frameSize_le x.request_id methodAppendEntries args.serialize.length
  have hname : methodAppendEntries.length = 13 := rfl
  have hbacklog := (s.cluster.nodes i).backlogSize_le j'
  have hin := Raft.entriesSize_backlog_le (h.placed.nodes i).aligned (h.logs_subset i) j'
  have hsize : entriesSize (s.since (s.cluster.nodes i).lastSnapshotIndex) + 128 ≤ kMaxFrameSize := hfits
  exact Nat.le_trans hframe (by omega)

/-- The frame of a snapshot: its data is the dump of a server. -/
lemma Inv.leaderSendSnapShot (h : s.Inv) {k request_id : ℕ}
    (hs : s.step A (.leaderSendSnapShot k request_id) = some t) : t.Inv := by
  obtain ⟨cluster, hstep, rfl⟩ := Option.map_eq_some_iff.mp hs
  have hnext := h.cluster hstep (fun _ _ => nofun) (fun _ _ => nofun) fun _ _ _ => nofun
  refine ⟨hnext.placed, hnext.entries, h.nonempty, h.unpushed, h.queued, fun x hx => ?_, h.records⟩
  obtain hx | hx := List.mem_append.mp hx
  · exact h.frames x hx
  obtain ⟨i, peer, hk, rfl⟩ := Cluster.leaderSendSnapShot_cases hstep
  obtain ⟨c, hc, -, frame, hframe, hx⟩ := mem_newFrames hx
  obtain ⟨j, request, hmem, rfl⟩ := mem_drop_send hc rfl
  obtain ⟨rfl, rfl⟩ := Prod.mk.inj (List.mem_singleton.mp hmem)
  obtain rfl := Option.some.inj hframe
  rw [hx, FrameSize, RpcRequestFrame.length_serialize]
  refine ⟨frameSize_pos .., ?_⟩
  have hframe := frameSize_le x.request_id methodInstallSnapshot
    (s.cluster.nodes i).leaderSendSnapShot.serialize.length
  have hname : methodInstallSnapshot.length = 15 := rfl
  have hlen := (s.cluster.nodes i).length_leaderSendSnapShot
  have hsnapshot := (s.cluster.nodes i).snapshotSize_le
  have hsize : (s.cluster.nodes i).snapshotFile.length + 128 ≤ kMaxFrameSize := (h.placed.nodes i).file
  exact Nat.le_trans hframe (by omega)

/-- A step of a writer keeps the invariant. -/
lemma Inv.writer (h : s.Inv) {i : ℕ} {e : WalWriter.Event Unit Unit}
    (hs : s.step A (.writer i e) = some t) : t.Inv := by
  have hwriter : ∀ writer, (∀ b, e ≠ .push b) → (s.writers i).step e = some writer →
      Inv { s with
        writers := Function.update s.writers i writer
        records := s.records ++ (s.writers i).records e } := by
    intro writer hpush hstep
    refine ⟨h.placed, h.entries, h.nonempty, h.unpushed, fun j => ?_, h.frames, fun x hx => ?_⟩
    · by_cases hji : j = i
      · subst hji
        simp only [Function.update_self]
        exact (h.queued j).step hpush hstep
      · simp only [Function.update_of_ne hji]
        exact h.queued j
    · obtain hx | hx := List.mem_append.mp hx
      · exact h.records x hx
      · exact (h.queued i).records e x hx
  cases e with
  | push b => cases hs
  | round o | compactWal snapshotIndex torn | shutdown sync_ok =>
    obtain ⟨writer, hstep, rfl⟩ := Option.map_eq_some_iff.mp hs
    exact hwriter writer (fun _ => nofun) hstep

/-- A node starts over the entries that its segments give back, whatever is in them. -/
lemma Inv.restart (h : s.Inv) {i : ℕ} {files : List SegmentFile}
    (hs : s.step A (.restart i files) = some t) : t.Inv := by
  obtain ⟨cluster, hstep, rfl⟩ := Option.map_eq_some_iff.mp hs
  have hgrown := h.entries.mono fun x hx => List.mem_append_left
    ((Wal.create files).readPersistedLogs (s.cluster.nodes i).fmp.snapshot_index.toNat).2 hx
  have hentries := hgrown.step (a := .restart i _) (fun _ _ _ _ => nofun) (fun j logs ha e he => by
    obtain ⟨rfl, rfl⟩ := Action.restart.inj ha
    exact List.mem_append_right _ he) hstep
  have hplaced := h.placed.step (a := .restart i _) (fun _ _ _ => nofun) (fun j logs ha => by
    obtain ⟨rfl, rfl⟩ := Action.restart.inj ha
    have haligned := aligned_replayEntries (s.cluster.nodes i).fmp.snapshot_index.toNat
      ((Wal.create files).readWalSegments (s.cluster.nodes i).fmp.snapshot_index.toNat).2
    rwa [Int.toNat_of_nonneg (h.placed.nodes i).stored] at haligned) hstep
  refine ⟨hplaced, hentries, fun e he => ?_, fun x hx => h.unpushed x (List.mem_filter.mp hx).1,
    fun j => ?_, h.frames, h.records⟩
  · obtain he | he := List.mem_append.mp he
    · exact h.nonempty e he
    · exact (recordable_iff.mp (recordable_of_mem_replayEntries he)).1
  · by_cases hji : j = i
    · subst hji
      simp only [Function.update_self]
      exact fun b hb => by cases hb
    · simp only [Function.update_of_ne hji]
      exact h.queued j

/-- What fits keeps every size within its limit. -/
lemma Inv.step (h : s.Inv) {e : Event} (hfits : Fits A s e) (hs : s.step A e = some t) : t.Inv := by
  cases e with
  | act a => exact h.act hfits hs
  | request i request => exact h.request hfits hs
  | doHeartBeat i request_ids => exact h.doHeartBeat hfits hs
  | leaderSendSnapShot k request_id => exact h.leaderSendSnapShot hs
  | push k =>
    obtain ⟨⟨i, b⟩, hk, hs⟩ := Option.bind_eq_some_iff.mp hs
    obtain ⟨writer, hstep, rfl⟩ := Option.map_eq_some_iff.mp hs
    refine ⟨h.placed, h.entries, h.nonempty, fun x hx => h.unpushed x (List.mem_of_mem_eraseIdx hx),
      fun j => ?_, h.frames, h.records⟩
    by_cases hji : j = i
    · subst hji
      simp only [Function.update_self]
      exact (h.queued j).push (h.unpushed _ (List.mem_of_getElem? hk)) hstep
    · simp only [Function.update_of_ne hji]
      exact h.queued j
  | writer i e => exact h.writer hs
  | restart i files => exact h.restart hs

/-- The invariant holds at the start. -/
lemma inv_initial (size : ℕ) : (initial size).Inv where
  placed := ⟨fun _ => ⟨.nil, Int.le_refl 0, Int.le_refl 0, show 128 ≤ kMaxFrameSize by decide⟩,
    fun _ hc => by cases hc⟩
  entries := ⟨fun _ _ he => (by cases he), fun _ hc => (by cases hc), fun _ hh => by cases hh⟩
  nonempty := fun _ he => by cases he
  unpushed := fun _ hx => by cases hx
  queued := fun _ _ hb => by cases hb
  frames := fun _ hx => by cases hx
  records := fun _ he => by cases he

/-! ### Frames and their calls -/

/-- The provider of a server schedules the frame as the call that it was sent for, however its bytes are
cut, as long as the numbers in it are in the range of their types. -/
def Scheduled (s : Deployment) (x : SentFrame) : Prop :=
  ∃ c ∈ s.cluster.calls[x.call]?, c.request.Fits → x.request_id < 2 ^ 64 →
    ∀ pieces : List Bytes, pieces.flatten = wireString x.frame_str →
      pieces.foldl RpcProvider.ofKvServer.onMessage ({}, []) =
        ({ frames := [x.frame_str], tasks := [(c.request.call x.request_id).context] }, [])

/-- Every frame is that of a call. -/
structure Calling (s : Deployment) : Prop where
  wired : s.cluster.Wired
  sent : ∀ x ∈ s.frames, ∃ c, s.cluster.calls[x.call]? = some c ∧
    ∃ frame ∈ c.request.frame x.request_id, x.frame_str = frame.serialize

/-- An event leaves the cluster and the frames, or takes a step of the cluster and sends the frames of
the new calls at most. -/
lemma step_frames {e : Event} (hs : s.step A e = some t) :
    t.cluster = s.cluster ∧ t.frames = s.frames ∨ ∃ a, s.cluster.step a = some t.cluster ∧
      (t.frames = s.frames ∨ ∃ request_ids,
        t.frames = s.frames ++ newFrames s.cluster t.cluster request_ids) := by
  cases e with
  | act a =>
    cases a with
    | deliver k =>
      obtain ⟨-, hs⟩ := Option.ite_none_right_eq_some.mp hs
      obtain ⟨cluster, hstep, rfl⟩ := Option.map_eq_some_iff.mp hs
      exact .inr ⟨_, hstep, .inl rfl⟩
    | start i command => cases hs
    | doHeartBeat i => cases hs
    | leaderSendSnapShot k => cases hs
    | restart i logs => cases hs
    | doElection i | persistElection i | resume i stable | complete k | fail id | onLogStable k ok
    | applierTicker i | push i | snapshot i index data =>
      obtain ⟨cluster, hstep, rfl⟩ := Option.map_eq_some_iff.mp hs
      exact .inr ⟨_, hstep, .inl rfl⟩
  | request i request =>
    obtain ⟨⟨r, e⟩, -, hs⟩ := Option.bind_eq_some_iff.mp hs
    obtain ⟨cluster, hstep, rfl⟩ := Option.map_eq_some_iff.mp hs
    exact .inr ⟨_, hstep, .inl rfl⟩
  | doHeartBeat i request_ids =>
    obtain ⟨cluster, hstep, rfl⟩ := Option.map_eq_some_iff.mp hs
    exact .inr ⟨_, hstep, .inr ⟨request_ids, rfl⟩⟩
  | leaderSendSnapShot k request_id =>
    obtain ⟨cluster, hstep, rfl⟩ := Option.map_eq_some_iff.mp hs
    exact .inr ⟨_, hstep, .inr ⟨fun _ => request_id, rfl⟩⟩
  | push k =>
    obtain ⟨⟨i, b⟩, -, hs⟩ := Option.bind_eq_some_iff.mp hs
    obtain ⟨writer, -, rfl⟩ := Option.map_eq_some_iff.mp hs
    exact .inl ⟨rfl, rfl⟩
  | writer i e =>
    cases e with
    | push b => cases hs
    | round o | compactWal snapshotIndex torn | shutdown sync_ok =>
      obtain ⟨writer, -, rfl⟩ := Option.map_eq_some_iff.mp hs
      exact .inl ⟨rfl, rfl⟩
  | restart i files =>
    obtain ⟨cluster, hstep, rfl⟩ := Option.map_eq_some_iff.mp hs
    exact .inr ⟨_, hstep, .inl rfl⟩

/-- A call keeps its request, so an old frame stays that of its call; a new one is that of a new call. -/
lemma Calling.step (h : s.Calling) {e : Event} (hs : s.step A e = some t) : t.Calling := by
  obtain ⟨hcluster, hframes⟩ | ⟨a, hstep, hframes⟩ := step_frames hs
  · exact ⟨hcluster ▸ h.wired, by rw [hcluster, hframes]; exact h.sent⟩
  · have hfollows := Cluster.step_follows h.wired hstep
    have hold : ∀ x ∈ s.frames, ∃ c, t.cluster.calls[x.call]? = some c ∧
        ∃ frame ∈ c.request.frame x.request_id, x.frame_str = frame.serialize := by
      intro x hx
      obtain ⟨c, hc, hframe⟩ := h.sent x hx
      obtain ⟨c', hc', hlater⟩ := hfollows.old hc
      exact ⟨c', hc', by rw [hlater.request]; exact hframe⟩
    refine ⟨h.wired.follows hfollows, fun x hx => ?_⟩
    obtain hsame | ⟨request_ids, hnew⟩ := hframes
    · exact hold x (hsame ▸ hx)
    · rw [hnew] at hx
      obtain hx | hx := List.mem_append.mp hx
      · exact hold x hx
      · obtain ⟨c, -, hc, hframe⟩ := mem_newFrames hx
        exact ⟨c, hc, hframe⟩

/-- No frame is sent at the start. -/
lemma calling_initial (size : ℕ) : (initial size).Calling :=
  ⟨Cluster.Wired.initial size, fun _ hx => by cases hx⟩

/-- A frame of a call whose size is admitted is scheduled. -/
lemma Calling.scheduled (h : s.Calling) {x : SentFrame} (hx : x ∈ s.frames)
    (hsize : FrameSize x.frame_str) : s.Scheduled x := by
  obtain ⟨c, hc, frame, hframe, hstr⟩ := h.sent x hx
  refine ⟨c, hc, fun hfits hid pieces hpieces => ?_⟩
  rw [hstr] at hsize hpieces ⊢
  exact Request.scheduled hframe hfits hid hsize hpieces

/-- In a run in which every new entry, every dump, and the entries since the snapshot of a leader that
sends heartbeats fit, `OnMessage` admits every frame that is sent and schedules it, and `ReadWalSegment`
admits the size of every record. -/
theorem sizes_agree {size : ℕ} (h : Run (step A) (Fits A) (initial size) s) :
    (∀ x ∈ s.frames, FrameSize x.frame_str ∧ s.Scheduled x) ∧ ∀ e ∈ s.records, e.Recordable := by
  have hinv : s.Inv := h.invariant (fun _ _ _ hu hP hstep => hu.step hP hstep) (inv_initial size)
  have hcalling : s.Calling :=
    h.invariant (fun _ _ _ hu _ hstep => hu.step hstep) (calling_initial size)
  exact ⟨fun x hx => ⟨hinv.frames x hx, hcalling.scheduled hx (hinv.frames x hx)⟩, hinv.records⟩

/-- One request of a client, and the heartbeat with its entry. -/
theorem sizes_agree_one : ∃ s,
    Run (step textArchives) (Fits textArchives) (initial 2) s ∧
      (s.frames.length = 1 ∧ s.records.length = 1) ∧
      (∀ x ∈ s.frames, FrameSize x.frame_str ∧ s.Scheduled x) ∧ ∀ e ∈ s.records, e.Recordable := by
  have hruns : ∃ s ∈ runIf (step textArchives) (Fits textArchives) (initial 2)
      [.act (.doElection 0), .act (.deliver 0), .act (.complete 0),
        .request 0 ⟨.putAppend [107] [118] opPut [99] 1, 0, by decide⟩, .push 0,
        .writer 0 (.round ⟨none, true, true⟩), .act (.onLogStable 0 true), .doHeartBeat 0 fun _ => 0],
      s.frames.length = 1 ∧ s.records.length = 1 := by decide +kernel
  obtain ⟨s, hrun, hlen⟩ := exists_run_of_runIf hruns
  exact ⟨s, hrun, hlen, sizes_agree hrun⟩

/-! ### Two large values -/

/-- The events before the writer of the leader has anything to write. -/
def startTwice (request : AdmittedRequest) : List Event :=
  [.act (.doElection 0), .act (.deliver 0), .act (.complete 0), .request 0 request,
    .request 0 request, .push 0, .push 0]

def startedTwice (A : Archives) (request : AdmittedRequest) : Deployment :=
  (runIf (step A) (fun _ _ => True) (initial 2) (startTwice request)).getD (initial 2)

/-- The state after a round of that writer. -/
def wroteBoth (A : Archives) (request : AdmittedRequest) (writer : WalWriter Unit Unit) : Deployment :=
  let s := startedTwice A request
  { s with
    writers := Function.update s.writers 0 writer
    records := s.records ++ (s.writers 0).records (.round ⟨none, true, true⟩) }

/-- Without a failure a round gets to its end. -/
lemma round_ok {α β : Type} (s : WalWriter α β) (sync_ok time_due : Bool) :
    ∃ t, s.round ⟨none, sync_ok, time_due⟩ = some t := by
  rw [WalWriter.round]
  dsimp only
  split_ifs
  · exact ⟨_, rfl⟩
  · exact ⟨_, rfl⟩
  · exact ⟨_, rfl⟩

/-- The first heartbeat after the two entries became stable has both. -/
lemma exists_both_sent (A : Archives) (request : AdmittedRequest) : ∃ s,
    Run (step A) (fun _ _ => True) (initial 2) s ∧
      s.frames = [⟨1, 0, RpcRequestFrame.serialize ⟨0, raftRpc, methodAppendEntries,
        AppendEntriesArgs.serialize ⟨1, 0, 0, 0,
          [⟨A.op.save request.request.op, 1, 1⟩, ⟨A.op.save request.request.op, 1, 2⟩], 0⟩⟩⟩] := by
  have hevents : runIf (step A) (fun _ _ => True) (initial 2) (startTwice request) =
      some (startedTwice A request) := rfl
  have hstarted := run_of_runIf hevents
  -- what the round does does not matter
  obtain ⟨writer, hwriter⟩ := round_ok ((startedTwice A request).writers 0) true true
  have hround : step A (startedTwice A request) (.writer 0 (.round ⟨none, true, true⟩)) =
      some (wroteBoth A request writer) := congrArg (Option.map _) hwriter
  have hruns : ∃ s ∈ runIf (step A) (fun _ _ => True) (wroteBoth A request writer)
      [.act (.onLogStable 0 true), .act (.onLogStable 0 true), .doHeartBeat 0 fun _ => 0],
      s.frames = [⟨1, 0, RpcRequestFrame.serialize ⟨0, raftRpc, methodAppendEntries,
        AppendEntriesArgs.serialize ⟨1, 0, 0, 0,
          [⟨A.op.save request.request.op, 1, 1⟩, ⟨A.op.save request.request.op, 1, 2⟩], 0⟩⟩⟩] :=
    ⟨_, rfl, rfl⟩
  obtain ⟨s, hs, hframes⟩ := exists_run_of_runIf hruns
  exact ⟨s, (hstarted.step trivial hround).trans hs, hframes⟩

/-- A request with a value below the limit, in a frame that `OnMessage` takes. -/
def largeRequest (value : Bytes) (h : value.length ≤ 16000000) : AdmittedRequest where
  request := .putAppend [107] value opPut [99] 1
  request_id := 0
  admitted := by
    have hvalue := bytesSize_le_add 2 value.length
    have hpayload : (KvRequest.putAppend [107] value opPut [99] 1).serialize.length =
        3 + bytesSize 2 value.length + 5 + 3 + 2 := by
      rw [KvRequest.serialize, length_encodeMessage, KvRequest.fields, messageSize_append,
        messageSize_append, messageSize_append, messageSize_append, messageSize_bytesField 2]
      rfl
    have hframe : frameSize 0 (KvRequest.frame (.putAppend [107] value opPut [99] 1) 0).service_name
        (KvRequest.frame (.putAppend [107] value opPut [99] 1) 0).method_name
        (KvRequest.putAppend [107] value opPut [99] 1).serialize.length =
          0 + 13 + 11 + bytesSize 4 (KvRequest.putAppend [107] value opPut [99] 1).serialize.length := rfl
    have hsize := bytesSize_le_add 4 (KvRequest.putAppend [107] value opPut [99] 1).serialize.length
    rw [FrameSize, RpcRequestFrame.length_serialize]
    refine ⟨?_, ?_⟩
    · exact Nat.lt_of_lt_of_eq (by omega) hframe.symm
    · refine Nat.le_trans (Nat.le_of_eq hframe) ?_
      rw [kMaxFrameSize]
      omega

/-- The value is no longer than its archive. -/
lemma le_length_save (op : Op) : op.Value.length ≤ (textArchives.op.save op).length := by
  have hsave : textArchives.op.save op = archiveHeader ++ (Codec.bytes.encode op.Operation ++
      (Codec.bytes.encode op.Key ++ (Codec.nat.encode op.Value.length ++ (op.Value ++ [32]) ++
        (Codec.bytes.encode op.ClientId ++ Codec.int.encode op.RequestId)))) := rfl
  rw [hsave]
  simp only [List.length_append]
  omega

/-- Requests are no smaller than the commands in them. -/
lemma commands_le_entriesSize (entries : List LogEntry) :
    (entries.map (·.command.length)).sum ≤ entriesSize entries := by
  induction entries with
  | nil => exact Nat.le_refl 0
  | cons e entries ih =>
    have hcons : entriesSize (e :: entries) =
        1 + (varintSize 5 e.byteSizeLong + e.byteSizeLong) + entriesSize entries := rfl
    have hle := e.le_byteSizeLong
    rw [List.map_cons, List.sum_cons]
    omega

/-- Two values of 9 MiB come in one by one; the first heartbeat with both is refused. -/
theorem exists_refused : ∃ s, Run (step textArchives) (fun _ _ => True) (initial 2) s ∧
    ∃ x ∈ s.frames, ¬ FrameSize x.frame_str := by
  obtain ⟨value, hvalue⟩ : ∃ value : Bytes, value.length = 9437184 :=
    ⟨List.replicate 9437184 0, List.length_replicate⟩
  have hbound : value.length ≤ 16000000 := by omega
  obtain ⟨s, hrun, hframes⟩ := exists_both_sent textArchives (largeRequest value hbound)
  refine ⟨s, hrun, _, hframes ▸ List.mem_singleton_self _, fun hsize => ?_⟩
  have hcommand : value.length ≤ (textArchives.op.save (largeRequest value hbound).request.op).length :=
    le_length_save (largeRequest value hbound).request.op
  generalize textArchives.op.save (largeRequest value hbound).request.op = command at hsize hcommand
  have hpayload := le_frameSize 0 raftRpc methodAppendEntries
    (AppendEntriesArgs.serialize ⟨1, 0, 0, 0, [⟨command, 1, 1⟩, ⟨command, 1, 2⟩], 0⟩).length
  have hcommands := commands_le_entriesSize [⟨command, 1, 1⟩, ⟨command, 1, 2⟩]
  have hle : frameSize 0 raftRpc methodAppendEntries
      (AppendEntriesArgs.serialize ⟨1, 0, 0, 0, [⟨command, 1, 1⟩, ⟨command, 1, 2⟩], 0⟩).length ≤
        kMaxFrameSize := by
    rw [← RpcRequestFrame.length_serialize ⟨0, raftRpc, methodAppendEntries, _⟩]
    exact hsize.2
  have hargs := AppendEntriesArgs.length_serialize ⟨1, 0, 0, 0, [⟨command, 1, 1⟩, ⟨command, 1, 2⟩], 0⟩
  simp only [AppendEntriesArgs.byteSizeLong] at hargs
  simp only [List.map_cons, List.map_nil, List.sum_cons, List.sum_nil] at hcommands
  rw [kMaxFrameSize] at hle
  omega

end Deployment

end KVCacheRaft
