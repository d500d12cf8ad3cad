import Mathlib.Data.List.AList
import Mathlib.Data.List.Lex
import KVCacheRaft.Raft.State
import KVCacheRaft.Store.Contents

/-!
# The key-value server

`KvServer` of `src/kvserver/KvServer.cc`: the skip list, the table of the last request of each
client, the commands and snapshots that come from the Raft layer, and the snapshots it makes. The
boost text archives are a parameter: they give back what was saved, and are never empty. An archive
that cannot be read throws, which ends the process: then there is no next state.
-/

namespace KVCacheRaft

instance linearOrderUInt8 : LinearOrder UInt8 where
  le_refl := UInt8.le_refl
  le_trans _ _ _ := UInt8.le_trans
  le_antisymm _ _ := UInt8.le_antisymm
  le_total := UInt8.le_total
  lt_iff_le_not_ge _ _ := by
    rw [UInt8.not_le]
    exact ⟨fun h => ⟨UInt8.le_of_lt h, h⟩, fun h => h.2⟩
  toDecidableLE := inferInstance

/-- `std::unordered_map<K, V>`. -/
abbrev UnorderedMap (K V : Type) := AList fun _ : K => V

/-- `class Op`. -/
structure Op where
  Operation : Bytes
  Key : Bytes
  Value : Bytes
  ClientId : Bytes
  RequestId : ℤ
deriving DecidableEq

/-- `"Get"`, `"Put"` and `"Append"`, the values of `Operation`. -/
def opGet : Bytes := [71, 101, 116]

@[inherit_doc opGet] def opPut : Bytes := [80, 117, 116]

@[inherit_doc opGet] def opAppend : Bytes := [65, 112, 112, 101, 110, 100]

/-! ### Archives -/

/-- A boost text archive of one object. -/
structure Format (α : Type) where
  save : α → Bytes
  load : Bytes → Option α
  load_save : ∀ a, load (save a) = some a
  save_ne_nil : ∀ a, save a ≠ []

/-- The objects that are archived: an `Op`, a `SkipListDump` with its two vectors, and a `KvServer`
with `m_serializedKVDate` and `m_last_RequestId`. -/
structure Archives where
  op : Format Op
  dump : Format (List Bytes × List Bytes)
  server : Format (Bytes × UnorderedMap Bytes ℤ)

/-! ### The server -/

/-- `class KvServer`, with the skip list in order. -/
structure KvServer where
  skipList : SkipList Bytes Bytes
  wellFormed : skipList.WellFormed
  last_RequestId : UnorderedMap Bytes ℤ
  lastSnapShotRaftLogIndex : ℤ
  maxRaftState : ℤ
  waitApplyCh : UnorderedMap ℤ (List Op)

namespace KvServer

/-- The members before the constructor reads a snapshot. -/
def create (maxraftstate : ℤ) : KvServer where
  skipList := SkipList.create 6
  wellFormed := SkipList.wellFormed_create 6
  last_RequestId := ∅
  lastSnapShotRaftLogIndex := 0
  maxRaftState := maxraftstate
  waitApplyCh := ∅

/-- `m_skipList.insert_set_element`, with the level `rand` gives. -/
def insertSetElement (s : KvServer) (rand : ℕ) (key value : Bytes) : KvServer :=
  { s with
    skipList := s.skipList.insert_set_element rand key value
    wellFormed := s.wellFormed.insert_set_element rand key value }

/-- `m_last_RequestId[op.ClientId] = op.RequestId`. -/
def setLastRequestId (s : KvServer) (op : Op) : KvServer :=
  { s with last_RequestId := s.last_RequestId.insert op.ClientId op.RequestId }

/-- `ExecuteAppendOpOnKVDB`. -/
def executeAppendOpOnKVDB (s : KvServer) (rand : ℕ) (op : Op) : KvServer :=
  (s.insertSetElement rand op.Key op.Value).setLastRequestId op

/-- `ExecutePutOpOnKVDB`. -/
def executePutOpOnKVDB (s : KvServer) (rand : ℕ) (op : Op) : KvServer :=
  (s.insertSetElement rand op.Key op.Value).setLastRequestId op

/-- `ExecuteGetOpOnKVDB`, with the value when it exists. -/
def executeGetOpOnKVDB (s : KvServer) (op : Op) : KvServer × Option Bytes :=
  (s.setLastRequestId op, s.skipList.search_element op.Key)

/-- `ifRequestDuplicate`. -/
def ifRequestDuplicate (s : KvServer) (clientId : Bytes) (requestId : ℤ) : Bool :=
  match s.last_RequestId.lookup clientId with
  | none => false
  | some last => requestId ≤ last

/-! ### Snapshots -/

variable (A : Archives)

/-- `MakeSnapShot`: `getSnapShotData` with the `dump_file` of the skip list. -/
def makeSnapShot (s : KvServer) : Bytes :=
  A.server.save (A.dump.save s.skipList.dump, s.last_RequestId)

/-- `m_skipList.load_file`. -/
def loadFile (s : KvServer) (rand : ℕ → ℕ) (dumpStr : Bytes) : Option KvServer :=
  if dumpStr = [] then some s
  else (A.dump.load dumpStr).map fun dumper =>
    { s with
      skipList := s.skipList.load rand dumper.1
      wellFormed := s.wellFormed.load rand }

/-- `parseFromString`. -/
def parseFromString (s : KvServer) (rand : ℕ → ℕ) (str : Bytes) : Option KvServer :=
  (A.server.load str).bind fun (serializedKVDate, last_RequestId) =>
    { s with last_RequestId }.loadFile A rand serializedKVDate

/-- `ReadSnapShotToInstall`. -/
def readSnapShotToInstall (s : KvServer) (rand : ℕ → ℕ) (snapshot : Bytes) : Option KvServer :=
  if snapshot = [] then some s else s.parseFromString A rand snapshot

/-- `GetSnapShotFromRaft`. -/
def getSnapShotFromRaft (s : KvServer) (rand : ℕ → ℕ) (message : ApplyMsg) : Option KvServer :=
  (s.readSnapShotToInstall A rand message.Snapshot).map fun s =>
    { s with lastSnapShotRaftLogIndex := message.SnapshotIndex }

/-- `IfNeedToSendSnapShotCommand`: the arguments of the call of `raft::Snapshot`, if there is one. -/
def ifNeedToSendSnapShotCommand (s : KvServer) (raftStateSize raftIndex proportion : ℤ) :
    Option (ℤ × Bytes) :=
  if raftStateSize > s.maxRaftState.tdiv proportion then some (raftIndex, s.makeSnapShot A)
  else none

/-! ### Commands -/

/-- `SendMessageToWaitChan`. -/
def sendMessageToWaitChan (s : KvServer) (op : Op) (raftIndex : ℤ) : KvServer :=
  match s.waitApplyCh.lookup raftIndex with
  | none => s
  | some queue => { s with waitApplyCh := s.waitApplyCh.insert raftIndex (queue ++ [op]) }

/-- The part of `GetCommandFromRaft` that executes a command that is not a duplicate. -/
def executeCommand (s : KvServer) (rand : ℕ) (op : Op) : KvServer :=
  if s.ifRequestDuplicate op.ClientId op.RequestId then s
  else
    let s := if op.Operation = opPut then s.executePutOpOnKVDB rand op else s
    if op.Operation = opAppend then s.executeAppendOpOnKVDB rand op else s

/-- `GetCommandFromRaft`, with the arguments of the call of `raft::Snapshot`, if there is one. -/
def getCommandFromRaft (s : KvServer) (rand : ℕ) (raftStateSize : ℤ) (message : ApplyMsg) :
    Option (KvServer × Option (ℤ × Bytes)) :=
  (A.op.load message.Command).map fun op =>
    if message.CommandIndex ≤ s.lastSnapShotRaftLogIndex then (s, none)
    else
      let s := s.executeCommand rand op
      let snapshot :=
        if s.maxRaftState ≠ -1 then
          s.ifNeedToSendSnapShotCommand A raftStateSize message.CommandIndex 9
        else none
      (s.sendMessageToWaitChan op message.CommandIndex, snapshot)

end KvServer

end KVCacheRaft
