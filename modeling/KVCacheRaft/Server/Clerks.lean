import KVCacheRaft.Machine.Runs
import KVCacheRaft.Server.Requests

/-!
# Clerks

Clerks send their requests to servers that share one log: `Start` puts a request on its way, some of
what was started is appended to the log, and every server applies the log in order. A handler waits on
the channel of the index that `Start` gave it, or until its time is up. What `Start` and `GetState` say
of leadership, and the index, may be anything, so that servers may act as leaders that are deposed. A
handler whose channel another one has deleted gets nothing more.
-/

namespace KVCacheRaft

open Machine

/-- `std::to_string`, of a value of `rand`. -/
def toDecimal (n : ℕ) : Bytes := (Nat.toDigits 10 n).map fun c => c.toNat.toUInt8

/-- `Uuid`; the call of `rand` in its operand `k` gives `rand k`, whichever operand comes first. -/
def uuid (rand : ℕ → ℕ) : Bytes :=
  toDecimal (rand 0) ++ toDecimal (rand 1) ++ toDecimal (rand 2) ++ toDecimal (rand 3)

/-- The field `err` of a reply. -/
inductive Err where
  | ok | errNoKey | errWrongLeader
deriving DecidableEq

/-- A reply, with what the server had done when it was set: the commands of the log it had applied, and
those that it had executed. -/
structure ClerkReply where
  err : Err
  value : Bytes
  applied : List Op
  executed : List Op
deriving DecidableEq

/-- How far the handler of a call is. -/
inductive CallPhase where
  | sent
  | started (raftIndex : ℤ)
  | waiting (raftIndex : ℤ)
  | popped (raftIndex : ℤ) (raftCommitOp : Op)
  | timedOut (raftIndex : ℤ) (isLeader : Bool)
  /-- a `Get` that is about to look at the data -/
  | reading (raftIndex : ℤ)
  /-- the reply is set -/
  | replied (raftIndex : ℤ) (reply : ClerkReply)
  | returned (reply : ClerkReply)
deriving DecidableEq

/-- The reply, once it is set. -/
def CallPhase.reply : CallPhase → Option ClerkReply
  | .replied _ reply => some reply
  | .returned reply => some reply
  | _ => none

/-- A call of `Get` or `PutAppend` on a server. -/
structure ClerkCall where
  server : ℕ
  op : Op
  /-- the requests of `PutAppend` that were answered before the request was first sent -/
  before : List Op
  phase : CallPhase

/-- The request a clerk waits for. -/
structure ClerkRequest where
  op : Op
  before : List Op
  server : ℕ
  /-- the position of the present call -/
  call : ℕ

/-- `class Clerk`. -/
structure Clerk where
  clientId : Bytes
  requestId : ℤ
  recentLeaderId : ℕ
  request : Option ClerkRequest

/-- The constructor of `Clerk`. -/
def Clerk.create (rand : ℕ → ℕ) : Clerk where
  clientId := uuid rand
  requestId := 0
  recentLeaderId := 0
  request := none

/-- `Clerk::Get`, `Clerk::Put` and `Clerk::Append`. -/
inductive Ask where
  | get (key : Bytes)
  | put (key value : Bytes)
  | append (key value : Bytes)

/-- The operation that the server makes of a request. -/
def Ask.op (ClientId : Bytes) (RequestId : ℤ) : Ask → Op
  | .get Key => { Operation := opGet, Key, Value := [], ClientId, RequestId }
  | .put Key Value => { Operation := opPut, Key, Value, ClientId, RequestId }
  | .append Key Value => { Operation := opAppend, Key, Value, ClientId, RequestId }

/-- A server, with the part of the log that it has applied and the commands that it has executed. -/
structure Replica where
  kv : KvServer
  applied : List Op
  executed : List Op

/-- Servers, clerks and the log. -/
structure Service (κ : Type) where
  log : List Op
  /-- what `Start` was called with -/
  started : List Op
  /-- `m_servers.size()` -/
  size : ℕ
  servers : ℕ → Replica
  clerks : κ → Clerk
  calls : List ClerkCall
  /-- every request with what was answered before it was first sent -/
  issued : List (Op × List Op)
  /-- the requests of `PutAppend` that some server has answered with `OK` -/
  answered : List Op

namespace Replica

/-- A reply that is set now. -/
def reply (r : Replica) (err : Err) (value : Bytes) : ClerkReply :=
  { err, value, applied := r.applied, executed := r.executed }

/-- The handler finds or makes the channel of its index. -/
def register (r : Replica) (raftIndex : ℤ) : Replica :=
  match r.kv.waitApplyCh.lookup raftIndex with
  | some _ => r
  | none => { r with kv := { r.kv with waitApplyCh := r.kv.waitApplyCh.insert raftIndex [] } }

/-- `timeOutPop`, when there is something. -/
def pop (r : Replica) (raftIndex : ℤ) : Option (Replica × Op) :=
  match r.kv.waitApplyCh.lookup raftIndex with
  | some (op :: rest) =>
    some ({ r with kv := { r.kv with waitApplyCh := r.kv.waitApplyCh.insert raftIndex rest } }, op)
  | _ => none

/-- The handler deletes the channel. -/
def erase (r : Replica) (raftIndex : ℤ) : Replica :=
  { r with kv := { r.kv with waitApplyCh := r.kv.waitApplyCh.erase raftIndex } }

/-- `ReadRaftApplyCommandLoop` with the next command of the log. -/
def apply (A : Archives) (r : Replica) (log : List Op) (rand : ℕ) (raftStateSize : ℤ) :
    Option Replica :=
  log[r.applied.length]?.bind fun op =>
    let message : ApplyMsg :=
      { CommandValid := true
        Command := A.op.save op
        CommandIndex := r.applied.length + 1 }
    (r.kv.getCommandFromRaft A rand raftStateSize message).map fun (kv, _) =>
      { kv
        applied := r.applied ++ [op]
        executed :=
          if r.kv.ifRequestDuplicate op.ClientId op.RequestId ∨ ¬ op.IsUpdate then r.executed
          else r.executed ++ [op] }

end Replica

namespace Service

variable {κ : Type} [DecidableEq κ]

/-- Something that happens. -/
inductive Event (κ : Type) where
  /-- a clerk sends a new request -/
  | request (i : κ) (ask : Ask)
  /-- the call of a clerk fails, and it tries the next server -/
  | fail (i : κ)
  /-- a clerk gets the reply of its call -/
  | receive (i : κ)
  /-- the handler calls `Start` -/
  | start (k : ℕ) (isLeader : Bool) (raftIndex : ℤ)
  | register (k : ℕ)
  | pop (k : ℕ)
  /-- the time is up; `GetState` then says `isLeader` -/
  | timeOut (k : ℕ) (isLeader : Bool)
  /-- the handler looks at what it got, or, when its time is up, for a duplicate -/
  | decide (k : ℕ)
  /-- `ExecuteGetOpOnKVDB` -/
  | execute (k : ℕ)
  | erase (k : ℕ)
  /-- something that was started goes into the log -/
  | commit (op : Op)
  | apply (server rand : ℕ) (raftStateSize : ℤ)

/-- A clerk calls a server with its request. -/
def send (s : Service κ) (i : κ) (op : Op) (before : List Op) (server : ℕ) : Service κ :=
  { s with
    calls := s.calls ++ [{ server, op, before, phase := .sent }]
    clerks := Function.update s.clerks i
      { s.clerks i with request := some { op, before, server, call := s.calls.length } } }

/-- A clerk is done with its request. -/
def finish (s : Service κ) (i : κ) (recentLeaderId : ℕ) : Service κ :=
  { s with
    clerks := Function.update s.clerks i { s.clerks i with recentLeaderId, request := none } }

/-- `m_requestId++`, and the first call. -/
def request (s : Service κ) (i : κ) (ask : Ask) : Option (Service κ) :=
  match (s.clerks i).request with
  | some _ => none
  | none =>
    let op := ask.op (s.clerks i).clientId ((s.clerks i).requestId + 1)
    let counted : Service κ :=
      { s with
        clerks := Function.update s.clerks i
          { s.clerks i with requestId := (s.clerks i).requestId + 1 }
        issued := s.issued ++ [(op, s.answered)] }
    some (counted.send i op s.answered (s.clerks i).recentLeaderId)

/-- The body of the loops of `Clerk::Get` and `Clerk::PutAppend` for a reply. -/
def receive (s : Service κ) (i : κ) (r : ClerkRequest) (reply : ClerkReply) : Service κ :=
  match reply.err with
  | .errWrongLeader => s.send i r.op r.before ((r.server + 1) % s.size)
  | .errNoKey =>
    if r.op.IsUpdate then s.send i r.op r.before r.server
    else s.finish i (s.clerks i).recentLeaderId
  | .ok => s.finish i r.server

/-- The handler of a call goes on. -/
def setPhase (s : Service κ) (k : ℕ) (phase : CallPhase) : Service κ :=
  { s with calls := s.calls.modify k fun call => { call with phase } }

/-- The server of a call changes. -/
def setServer (s : Service κ) (i : ℕ) (r : Replica) : Service κ :=
  { s with servers := Function.update s.servers i r }

/-- The reply of a `PutAppend` is set. -/
def replyPutAppend (s : Service κ) (k : ℕ) (call : ClerkCall) (raftIndex : ℤ) (ok : Bool) :
    Service κ :=
  let reply := (s.servers call.server).reply (if ok then .ok else .errWrongLeader) []
  { s.setPhase k (.replied raftIndex reply) with
    answered := if ok then s.answered ++ [call.op] else s.answered }

/-- A `Get` may look at the data, or replies that this is not the leader. -/
def replyGet (s : Service κ) (k : ℕ) (call : ClerkCall) (raftIndex : ℤ) (ok : Bool) : Service κ :=
  if ok then s.setPhase k (.reading raftIndex)
  else s.setPhase k (.replied raftIndex ((s.servers call.server).reply .errWrongLeader []))

/-- A handler at its wait, by what it got. -/
def decide (s : Service κ) (k : ℕ) (call : ClerkCall) : Option (Service κ) :=
  match call.phase with
  | .popped raftIndex raftCommitOp =>
    let same := raftCommitOp.ClientId = call.op.ClientId ∧ raftCommitOp.RequestId = call.op.RequestId
    some (if call.op.IsUpdate then s.replyPutAppend k call raftIndex same
      else s.replyGet k call raftIndex same)
  | .timedOut raftIndex isLeader =>
    let duplicate :=
      (s.servers call.server).kv.ifRequestDuplicate call.op.ClientId call.op.RequestId
    some (if call.op.IsUpdate then s.replyPutAppend k call raftIndex duplicate
      else s.replyGet k call raftIndex (duplicate && isLeader))
  | _ => none

/-- A `Get` looks at the data. -/
def execute (s : Service κ) (k : ℕ) (call : ClerkCall) (raftIndex : ℤ) : Service κ :=
  let r := s.servers call.server
  let (kv, value) := r.kv.executeGetOpOnKVDB call.op
  let reply := match value with
    | some value => r.reply .ok value
    | none => r.reply .errNoKey []
  (s.setServer call.server { r with kv }).setPhase k (.replied raftIndex reply)

/-- A step of the handler of call `k`. -/
def handle (s : Service κ) (k : ℕ) (f : ClerkCall → Option (Service κ)) : Option (Service κ) :=
  s.calls[k]?.bind f

/-- What an event does; none when it cannot happen. -/
def step (A : Archives) (s : Service κ) : Event κ → Option (Service κ)
  | .request i ask => s.request i ask
  | .fail i => (s.clerks i).request.map fun r => s.send i r.op r.before ((r.server + 1) % s.size)
  | .receive i => (s.clerks i).request.bind fun r => s.handle r.call fun call =>
    match call.phase with
    | .returned reply => some (s.receive i r reply)
    | _ => none
  | .start k isLeader raftIndex => s.handle k fun call =>
    match call.phase with
    | .sent =>
      some (if isLeader then
          { s.setPhase k (.started raftIndex) with started := s.started ++ [call.op] }
        else s.setPhase k (.returned ((s.servers call.server).reply .errWrongLeader [])))
    | _ => none
  | .register k => s.handle k fun call =>
    match call.phase with
    | .started raftIndex =>
      some ((s.setServer call.server ((s.servers call.server).register raftIndex)).setPhase k
        (.waiting raftIndex))
    | _ => none
  | .pop k => s.handle k fun call =>
    match call.phase with
    | .waiting raftIndex => ((s.servers call.server).pop raftIndex).map fun (r, op) =>
      (s.setServer call.server r).setPhase k (.popped raftIndex op)
    | _ => none
  | .timeOut k isLeader => s.handle k fun call =>
    match call.phase with
    | .waiting raftIndex => some (s.setPhase k (.timedOut raftIndex isLeader))
    | _ => none
  | .decide k => s.handle k fun call => s.decide k call
  | .execute k => s.handle k fun call =>
    match call.phase with
    | .reading raftIndex => some (s.execute k call raftIndex)
    | _ => none
  | .erase k => s.handle k fun call =>
    match call.phase with
    | .replied raftIndex reply =>
      some ((s.setServer call.server ((s.servers call.server).erase raftIndex)).setPhase k
        (.returned reply))
    | _ => none
  | .commit op => if op ∈ s.started then some { s with log := s.log ++ [op] } else none
  | .apply server rand raftStateSize =>
    ((s.servers server).apply A s.log rand raftStateSize).map fun r => s.setServer server r

/-- New servers and clerks; `rands` is what `rand` gives to each clerk. -/
def initial (size : ℕ) (maxraftstate : ℕ → ℤ) (rands : κ → ℕ → ℕ) : Service κ where
  log := []
  started := []
  size
  servers i := { kv := .create (maxraftstate i), applied := [], executed := [] }
  clerks i := .create (rands i)
  calls := []
  issued := []
  answered := []

/-- What a reply says: a `PutAppend` is answered with `OK` behind a command of its client and request,
and a `Get` from the data of commands among which are those of every `PutAppend` answered before it
was sent. -/
def Answers (call : ClerkCall) (reply : ClerkReply) : Prop :=
  if call.op.IsUpdate then
    reply.err = .ok → ∃ op ∈ reply.applied,
      op.ClientId = call.op.ClientId ∧ op.RequestId = call.op.RequestId
  else reply.err ≠ .errWrongLeader →
    (∀ op ∈ call.before, op ∈ reply.executed) ∧
      (if reply.err = .ok then some reply.value else none) =
        reply.executed.foldl replace (fun _ => none) call.op.Key

end Service

end KVCacheRaft
