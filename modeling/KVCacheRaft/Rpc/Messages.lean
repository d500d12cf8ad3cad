import KVCacheRaft.Codec.Message
import KVCacheRaft.Rpc.Requests
import KVCacheRaft.Rpc.Responses

/-!
# The messages of the services

The messages of `proto/raftRPC.proto`, `proto/kvServerRPC.proto` and `proto/rpcheader.proto`, as the
generated classes write and read them, and the methods that they are the requests and responses of. An
`int32` of a message is any integer; one in its range is read back.
-/

namespace KVCacheRaft

open Codecs

/-! ### `raftRPC.proto` -/

structure AppendEntriesArgsMessage where
  term : ℤ := 0
  leaderid : ℤ := 0
  prevlogindex : ℤ := 0
  prevlogterm : ℤ := 0
  entries : List LogEntryMessage := []
  leadercommit : ℤ := 0
deriving DecidableEq

structure AppendEntriesReplyMessage where
  term : ℤ := 0
  success : Bool := false
  updatenextindex : ℤ := 0
  appstate : ℤ := 0
deriving DecidableEq

structure RequestVoteArgsMessage where
  term : ℤ := 0
  candidateid : ℤ := 0
  lastlogindex : ℤ := 0
  lastlogterm : ℤ := 0
deriving DecidableEq

structure RequestVoteReplyMessage where
  term : ℤ := 0
  votegranted : Bool := false
  votestate : ℤ := 0
deriving DecidableEq

structure InstallSnapshotRequestMessage where
  leaderid : ℤ := 0
  term : ℤ := 0
  lastsnapshotincludeindex : ℤ := 0
  lastsnapshotincludeterm : ℤ := 0
  data : Bytes := []
deriving DecidableEq

structure InstallSnapshotResponseMessage where
  term : ℤ := 0
deriving DecidableEq

namespace LogEntryMessage

def type : MessageType LogEntryMessage where
  empty := {}
  parts := [⟨1, .bytes, command, fun v m => { m with command := v }⟩,
    ⟨2, .int32, logterm, fun v m => { m with logterm := v }⟩,
    ⟨3, .int32, logindex, fun v m => { m with logindex := v }⟩]

/-- The fields of an entry have numbers of their own. -/
lemma lawful : type.Lawful := by
  constructor <;> simp [type, Kind.int32, Kind.bytes]

end LogEntryMessage

namespace AppendEntriesArgsMessage

def type : MessageType AppendEntriesArgsMessage where
  empty := {}
  parts := [⟨1, .int32, term, fun v m => { m with term := v }⟩,
    ⟨2, .int32, leaderid, fun v m => { m with leaderid := v }⟩,
    ⟨3, .int32, prevlogindex, fun v m => { m with prevlogindex := v }⟩,
    ⟨4, .int32, prevlogterm, fun v m => { m with prevlogterm := v }⟩,
    ⟨5, .repeated LogEntryMessage.type LogEntryMessage.lawful, entries,
      fun v m => { m with entries := v }⟩,
    ⟨6, .int32, leadercommit, fun v m => { m with leadercommit := v }⟩]

/-- The fields of an `AppendEntries` request have numbers of their own. -/
lemma lawful : type.Lawful := by
  constructor <;> simp [type, Kind.int32, Kind.repeated]

end AppendEntriesArgsMessage

namespace AppendEntriesReplyMessage

def type : MessageType AppendEntriesReplyMessage where
  empty := {}
  parts := [⟨1, .int32, term, fun v m => { m with term := v }⟩,
    ⟨2, .bool, success, fun v m => { m with success := v }⟩,
    ⟨3, .int32, updatenextindex, fun v m => { m with updatenextindex := v }⟩,
    ⟨4, .int32, appstate, fun v m => { m with appstate := v }⟩]

/-- The fields of its reply have numbers of their own. -/
lemma lawful : type.Lawful := by
  constructor <;> simp [type, Kind.int32, Kind.bool]

end AppendEntriesReplyMessage

namespace RequestVoteArgsMessage

def type : MessageType RequestVoteArgsMessage where
  empty := {}
  parts := [⟨1, .int32, term, fun v m => { m with term := v }⟩,
    ⟨2, .int32, candidateid, fun v m => { m with candidateid := v }⟩,
    ⟨3, .int32, lastlogindex, fun v m => { m with lastlogindex := v }⟩,
    ⟨4, .int32, lastlogterm, fun v m => { m with lastlogterm := v }⟩]

/-- The fields of a vote request have numbers of their own. -/
lemma lawful : type.Lawful := by
  constructor <;> simp [type, Kind.int32]

end RequestVoteArgsMessage

namespace RequestVoteReplyMessage

def type : MessageType RequestVoteReplyMessage where
  empty := {}
  parts := [⟨1, .int32, term, fun v m => { m with term := v }⟩,
    ⟨2, .bool, votegranted, fun v m => { m with votegranted := v }⟩,
    ⟨3, .int32, votestate, fun v m => { m with votestate := v }⟩]

/-- The fields of its reply have numbers of their own. -/
lemma lawful : type.Lawful := by
  constructor <;> simp [type, Kind.int32, Kind.bool]

end RequestVoteReplyMessage

namespace InstallSnapshotRequestMessage

def type : MessageType InstallSnapshotRequestMessage where
  empty := {}
  parts := [⟨1, .int32, leaderid, fun v m => { m with leaderid := v }⟩,
    ⟨2, .int32, term, fun v m => { m with term := v }⟩,
    ⟨3, .int32, lastsnapshotincludeindex, fun v m => { m with lastsnapshotincludeindex := v }⟩,
    ⟨4, .int32, lastsnapshotincludeterm, fun v m => { m with lastsnapshotincludeterm := v }⟩,
    ⟨5, .bytes, data, fun v m => { m with data := v }⟩]

/-- The fields of a snapshot request have numbers of their own. -/
lemma lawful : type.Lawful := by
  constructor <;> simp [type, Kind.int32, Kind.bytes]

end InstallSnapshotRequestMessage

namespace InstallSnapshotResponseMessage

def type : MessageType InstallSnapshotResponseMessage where
  empty := {}
  parts := [⟨1, .int32, term, fun v m => { m with term := v }⟩]

/-- The field of its reply has a number. -/
lemma lawful : type.Lawful := by
  constructor <;> simp [type, Kind.int32]

end InstallSnapshotResponseMessage

/-! ### `kvServerRPC.proto` -/

structure GetArgsMessage where
  key : Bytes := []
  clientid : Bytes := []
  requestid : ℤ := 0
deriving DecidableEq

structure GetReplyMessage where
  err : Bytes := []
  value : Bytes := []
deriving DecidableEq

structure PutAppendArgsMessage where
  key : Bytes := []
  value : Bytes := []
  op : Bytes := []
  clientid : Bytes := []
  requestid : ℤ := 0
deriving DecidableEq

structure PutAppendReplyMessage where
  err : Bytes := []
deriving DecidableEq

namespace GetArgsMessage

def type : MessageType GetArgsMessage where
  empty := {}
  parts := [⟨1, .bytes, key, fun v m => { m with key := v }⟩,
    ⟨2, .bytes, clientid, fun v m => { m with clientid := v }⟩,
    ⟨3, .int32, requestid, fun v m => { m with requestid := v }⟩]

/-- The fields of a `Get` request have numbers of their own. -/
lemma lawful : type.Lawful := by
  constructor <;> simp [type, Kind.int32, Kind.bytes]

end GetArgsMessage

namespace GetReplyMessage

def type : MessageType GetReplyMessage where
  empty := {}
  parts := [⟨1, .bytes, err, fun v m => { m with err := v }⟩,
    ⟨2, .bytes, value, fun v m => { m with value := v }⟩]

/-- The fields of its reply have numbers of their own. -/
lemma lawful : type.Lawful := by
  constructor <;> simp [type, Kind.bytes]

end GetReplyMessage

namespace PutAppendArgsMessage

def type : MessageType PutAppendArgsMessage where
  empty := {}
  parts := [⟨1, .bytes, key, fun v m => { m with key := v }⟩,
    ⟨2, .bytes, value, fun v m => { m with value := v }⟩,
    ⟨3, .bytes, op, fun v m => { m with op := v }⟩,
    ⟨4, .bytes, clientid, fun v m => { m with clientid := v }⟩,
    ⟨5, .int32, requestid, fun v m => { m with requestid := v }⟩]

/-- The fields of a `PutAppend` request have numbers of their own. -/
lemma lawful : type.Lawful := by
  constructor <;> simp [type, Kind.int32, Kind.bytes]

end PutAppendArgsMessage

namespace PutAppendReplyMessage

def type : MessageType PutAppendReplyMessage where
  empty := {}
  parts := [⟨1, .bytes, err, fun v m => { m with err := v }⟩]

/-- The fields of its reply have numbers of their own. -/
lemma lawful : type.Lawful := by
  constructor <;> simp [type, Kind.bytes]

end PutAppendReplyMessage

/-! ### `rpcheader.proto` -/

namespace RpcRequestFrame

def type : MessageType RpcRequestFrame where
  empty := {}
  parts := [⟨1, .uint64, request_id, fun v m => { m with request_id := v }⟩,
    ⟨2, .bytes, service_name, fun v m => { m with service_name := v }⟩,
    ⟨3, .bytes, method_name, fun v m => { m with method_name := v }⟩,
    ⟨4, .bytes, payload, fun v m => { m with payload := v }⟩]

/-- The fields of a frame have numbers of their own. -/
lemma lawful : type.Lawful := by
  constructor <;> simp [type, Kind.uint64, Kind.bytes]

end RpcRequestFrame

end KVCacheRaft
