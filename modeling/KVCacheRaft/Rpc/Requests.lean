import Mathlib.Algebra.Order.BigOperators.Group.List
import Mathlib.Data.List.Perm.Subperm
import KVCacheRaft.Codec.Sizes
import KVCacheRaft.Rpc.Frame
import KVCacheRaft.Raft.Cluster
import KVCacheRaft.Server.KvServer
import KVCacheRaft.Wal.Record

/-!
# Requests as frames

The requests of Raft nodes and of clients as they are sent: the arguments of the call, serialized
(`proto/raftRPC.proto`, `proto/kvServerRPC.proto`), are the payload of a frame.
-/

namespace KVCacheRaft

open Codecs

/-! ### Fields without their defaults -/

def int32Field (number : ℕ) (z : ℤ) : List Field :=
  if z = 0 then [] else [⟨number, .varint (toUInt64 z)⟩]

def bytesField (number : ℕ) (bs : Bytes) : List Field :=
  if bs = [] then [] else [⟨number, .bytes bs⟩]

/-- The size of a field with so many bytes. -/
def bytesSize (number length : ℕ) : ℕ :=
  if length = 0 then 0 else varintSize 5 (8 * number + 2) + (varintSize 5 length + length)

/-- A field of bytes has its size. -/
lemma messageSize_bytesField (number : ℕ) (bs : Bytes) :
    messageSize (bytesField number bs) = bytesSize number bs.length := by
  rw [bytesField, bytesSize]
  by_cases hbs : bs = []
  · rw [if_pos hbs, hbs]
    rfl
  · rw [if_neg hbs, if_neg fun hlen => hbs (List.length_eq_zero_iff.mp hlen)]
    rfl

/-- A field is at least as large as its bytes. -/
lemma le_bytesSize (number length : ℕ) : length ≤ bytesSize number length := by
  rw [bytesSize]
  split_ifs <;> omega

/-- A field of bytes is at most ten bytes longer than they are. -/
lemma bytesSize_le_add (number length : ℕ) : bytesSize number length ≤ length + 10 := by
  have htag := varintSize_le 5 (8 * number + 2)
  have hlen := varintSize_le 5 length
  rw [bytesSize]
  split_ifs <;> omega

/-- A number takes a tag of one byte and ten bytes at most. -/
lemma messageSize_int32Field_le {number : ℕ} (hnumber : number < 16) (z : ℤ) :
    messageSize (int32Field number z) ≤ 11 := by
  rw [int32Field]
  split_ifs
  · exact Nat.zero_le _
  · have hle := varintSize_le 10 (toUInt64 z)
    have htag : varintSize 5 (8 * number + 0) = 1 := if_pos (by omega)
    rw [messageSize_cons, messageSize_nil, Field.size, WireValue.size, WireValue.wireType, htag]
    omega

/-! ### The requests of a leader -/

namespace AppendEntriesArgs

def fields (args : AppendEntriesArgs) : List Field :=
  int32Field 1 args.term ++ int32Field 2 args.leaderid ++ int32Field 3 args.prevlogindex ++
    int32Field 4 args.prevlogterm ++ args.entries.map (fun e => ⟨5, .bytes e.serialize⟩) ++
    int32Field 6 args.leadercommit

/-- `SerializePartialToString`. -/
def serialize (args : AppendEntriesArgs) : Bytes := encodeMessage args.fields

end AppendEntriesArgs

namespace InstallSnapshotRequest

def fields (args : InstallSnapshotRequest) : List Field :=
  int32Field 1 args.leaderid ++ int32Field 2 args.term ++ int32Field 3 args.lastsnapshotincludeindex ++
    int32Field 4 args.lastsnapshotincludeterm ++ bytesField 5 args.data

@[inherit_doc AppendEntriesArgs.serialize]
def serialize (args : InstallSnapshotRequest) : Bytes := encodeMessage args.fields

end InstallSnapshotRequest

/-- `"raftRpc"` and the names of its methods. -/
def raftRpc : Bytes := [114, 97, 102, 116, 82, 112, 99]

@[inherit_doc raftRpc]
def methodAppendEntries : Bytes := [65, 112, 112, 101, 110, 100, 69, 110, 116, 114, 105, 101, 115]

@[inherit_doc raftRpc]
def methodInstallSnapshot : Bytes :=
  [73, 110, 115, 116, 97, 108, 108, 83, 110, 97, 112, 115, 104, 111, 116]

/-- The frame of a request; the frames of `RequestVote` are left out. -/
def Request.frame (request_id : ℕ) : Request → Option RpcRequestFrame
  | .requestVote _ _ => none
  | .appendEntries args => some
    { request_id, service_name := raftRpc, method_name := methodAppendEntries,
      payload := args.serialize }
  | .installSnapshot args => some
    { request_id, service_name := raftRpc, method_name := methodInstallSnapshot,
      payload := args.serialize }

/-! ### The requests of clients -/

/-- The arguments of a client's call: `GetArgs` and `PutAppendArgs`. -/
inductive KvRequest where
  | get (Key ClientId : Bytes) (RequestId : ℤ)
  | putAppend (Key Value Op ClientId : Bytes) (RequestId : ℤ)
deriving DecidableEq

namespace KvRequest

def fields : KvRequest → List Field
  | .get Key ClientId RequestId =>
    bytesField 1 Key ++ bytesField 2 ClientId ++ int32Field 3 RequestId
  | .putAppend Key Value Op ClientId RequestId =>
    bytesField 1 Key ++ bytesField 2 Value ++ bytesField 3 Op ++ bytesField 4 ClientId ++
      int32Field 5 RequestId

@[inherit_doc AppendEntriesArgs.serialize]
def serialize (request : KvRequest) : Bytes := encodeMessage request.fields

/-- `"Get"` and `"PutAppend"`. -/
def method_name : KvRequest → Bytes
  | .get _ _ _ => [71, 101, 116]
  | .putAppend _ _ _ _ _ => [80, 117, 116, 65, 112, 112, 101, 110, 100]

/-- The frame of a call; the service is `"kvServerRpc"`. -/
def frame (request : KvRequest) (request_id : ℕ) : RpcRequestFrame where
  request_id
  service_name := [107, 118, 83, 101, 114, 118, 101, 114, 82, 112, 99]
  method_name := request.method_name
  payload := request.serialize

/-- The command that `Get` and `PutAppend` of `KvServer` start. -/
def op : KvRequest → Op
  | .get Key ClientId RequestId =>
    { Operation := opGet, Key, Value := [], ClientId, RequestId }
  | .putAppend Key Value Op ClientId RequestId =>
    { Operation := Op, Key, Value, ClientId, RequestId }

end KvRequest

/-! ### Sizes -/

/-- The size of a frame by that of its payload. -/
def frameSize (request_id : ℕ) (service_name method_name : Bytes) (payload : ℕ) : ℕ :=
  messageSize (if request_id = 0 then [] else [⟨1, .varint request_id⟩]) +
    bytesSize 2 service_name.length + bytesSize 3 method_name.length + bytesSize 4 payload

/-- A frame has as many bytes as its size says. -/
lemma RpcRequestFrame.length_serialize (frame : RpcRequestFrame) :
    frame.serialize.length =
      frameSize frame.request_id frame.service_name frame.method_name frame.payload.length := by
  have hfields : frame.fields = (if frame.request_id = 0 then [] else [⟨1, .varint frame.request_id⟩]) ++
      bytesField 2 frame.service_name ++ bytesField 3 frame.method_name ++
      bytesField 4 frame.payload := rfl
  rw [serialize, length_encodeMessage, hfields, messageSize_append, messageSize_append,
    messageSize_append, messageSize_bytesField, messageSize_bytesField, messageSize_bytesField, frameSize]

/-- The payload is no longer than its frame. -/
lemma le_frameSize (request_id : ℕ) (service_name method_name : Bytes) (payload : ℕ) :
    payload ≤ frameSize request_id service_name method_name payload := by
  have hle := le_bytesSize 4 payload
  rw [frameSize]
  omega

/-- A frame of the Raft service is little longer than its payload. -/
lemma frameSize_le (request_id : ℕ) (method_name : Bytes) (payload : ℕ) :
    frameSize request_id raftRpc method_name payload ≤ payload + method_name.length + 40 := by
  have hid : messageSize (if request_id = 0 then [] else [⟨1, .varint request_id⟩]) ≤ 11 := by
    split_ifs
    · exact Nat.zero_le _
    · have hle := varintSize_le 10 request_id
      rw [messageSize_cons, messageSize_nil, Field.size, WireValue.size]
      exact Nat.add_le_add_left hle 1
  have hservice : bytesSize 2 raftRpc.length = 9 := rfl
  have hmethod := bytesSize_le_add 3 method_name.length
  have hpayload := bytesSize_le_add 4 payload
  rw [frameSize]
  omega

/-- The size of an entry, by its fields. -/
def LogEntry.byteSizeLong (e : LogEntry) : ℕ := messageSize e.fields

/-- An entry has as many bytes as its size says. -/
lemma LogEntry.length_serialize (e : LogEntry) : e.serialize.length = e.byteSizeLong :=
  length_encodeMessage e.fields

/-- The size of entries as a field of a request. -/
def entriesSize (entries : List LogEntry) : ℕ :=
  (entries.map fun e => 1 + (varintSize 5 e.byteSizeLong + e.byteSizeLong)).sum

/-- The entries of a request have their sizes. -/
lemma messageSize_entries (entries : List LogEntry) :
    messageSize (entries.map fun e => ⟨5, .bytes e.serialize⟩) = entriesSize entries := by
  induction entries with
  | nil => rfl
  | cons e entries ih =>
    have hfield : Field.size ⟨5, .bytes e.serialize⟩ =
        1 + (varintSize 5 e.byteSizeLong + e.byteSizeLong) := by
      rw [Field.size, WireValue.size, e.length_serialize]
      rfl
    rw [List.map_cons, messageSize_cons, ih, hfield]
    rfl

/-- One entry is no longer than all of them. -/
lemma byteSizeLong_le_entriesSize {entries : List LogEntry} {e : LogEntry} (he : e ∈ entries) :
    e.byteSizeLong ≤ entriesSize entries := by
  induction entries with
  | nil => cases he
  | cons x entries ih =>
    have hcons : entriesSize (x :: entries) =
        1 + (varintSize 5 x.byteSizeLong + x.byteSizeLong) + entriesSize entries := rfl
    obtain rfl | he := List.mem_cons.mp he
    · omega
    · have := ih he
      omega

/-- Entries that are all different are no larger than a list that has each of them. -/
lemma entriesSize_le_of_subset {entries entries' : List LogEntry} (hnodup : entries.Nodup)
    (h : entries ⊆ entries') : entriesSize entries ≤ entriesSize entries' := by
  obtain ⟨l, hperm, hsublist⟩ := hnodup.subperm h
  rw [entriesSize, entriesSize, ← (hperm.map _).sum_eq]
  exact (hsublist.map _).sum_le_sum fun _ _ => Nat.zero_le _

/-- The size of the arguments of `AppendEntries`. -/
def AppendEntriesArgs.byteSizeLong (term : ℕ) (leaderid prevlogindex : ℤ) (prevlogterm : ℕ)
    (entries : List LogEntry) (leadercommit : ℤ) : ℕ :=
  messageSize (int32Field 1 term) + messageSize (int32Field 2 leaderid) +
    messageSize (int32Field 3 prevlogindex) + messageSize (int32Field 4 prevlogterm) +
    entriesSize entries + messageSize (int32Field 6 leadercommit)

/-- A request has as many bytes as its size says. -/
lemma AppendEntriesArgs.length_serialize (args : AppendEntriesArgs) :
    args.serialize.length = byteSizeLong args.term args.leaderid args.prevlogindex args.prevlogterm
      args.entries args.leadercommit := by
  rw [serialize, length_encodeMessage, fields, messageSize_append, messageSize_append,
    messageSize_append, messageSize_append, messageSize_append, messageSize_entries, byteSizeLong]

/-- The size of the arguments of `InstallSnapshot`. -/
def InstallSnapshotRequest.byteSizeLong (leaderid : ℤ) (term : ℕ) (index : ℤ) (snapshotTerm data : ℕ) :
    ℕ :=
  messageSize (int32Field 1 leaderid) + messageSize (int32Field 2 term) +
    messageSize (int32Field 3 index) + messageSize (int32Field 4 snapshotTerm) + bytesSize 5 data

/-- A snapshot request has as many bytes as its size says. -/
lemma InstallSnapshotRequest.length_serialize (args : InstallSnapshotRequest) :
    args.serialize.length = byteSizeLong args.leaderid args.term args.lastsnapshotincludeindex
      args.lastsnapshotincludeterm args.data.length := by
  rw [serialize, length_encodeMessage, fields, messageSize_append, messageSize_append,
    messageSize_append, messageSize_append, messageSize_bytesField, byteSizeLong]

end KVCacheRaft
