import KVCacheRaft.Rpc.Messages

/-!
# From a stub to a handler

A stub serializes the request of a call and sends it in a frame; the provider finds the method that the
frame names, parses the payload as a request of that method, and schedules the call. The provider of a
server has the services of its `KvServer` and of its Raft node.
-/

namespace KVCacheRaft

open Codecs Framing Machine Sockets

/-! ### The methods -/

/-- The methods of `raftRpc` and `kvServerRpc`. -/
inductive RpcMethod where
  | appendEntries
  | installSnapshot
  | requestVote
  | putAppend
  | get
deriving DecidableEq

namespace RpcMethod

/-- `"kvServerRpc"`. -/
def kvServerRpc : Bytes := [107, 118, 83, 101, 114, 118, 101, 114, 82, 112, 99]

def service_name : RpcMethod → Bytes
  | appendEntries | installSnapshot | requestVote => raftRpc
  | putAppend | get => kvServerRpc

/-- `"RequestVote"`, `"PutAppend"`, `"Get"` and the names of the other methods. -/
def method_name : RpcMethod → Bytes
  | appendEntries => methodAppendEntries
  | installSnapshot => methodInstallSnapshot
  | requestVote => [82, 101, 113, 117, 101, 115, 116, 86, 111, 116, 101]
  | putAppend => [80, 117, 116, 65, 112, 112, 101, 110, 100]
  | get => [71, 101, 116]

/-- The request of a method. -/
def Request : RpcMethod → Type
  | appendEntries => AppendEntriesArgsMessage
  | installSnapshot => InstallSnapshotRequestMessage
  | requestVote => RequestVoteArgsMessage
  | putAppend => PutAppendArgsMessage
  | get => GetArgsMessage

/-- The class of the request: `GetRequestPrototype`. -/
def request : (method : RpcMethod) → MessageType method.Request
  | appendEntries => AppendEntriesArgsMessage.type
  | installSnapshot => InstallSnapshotRequestMessage.type
  | requestVote => RequestVoteArgsMessage.type
  | putAppend => PutAppendArgsMessage.type
  | get => GetArgsMessage.type

/-- The response of a method. -/
def Response : RpcMethod → Type
  | appendEntries => AppendEntriesReplyMessage
  | installSnapshot => InstallSnapshotResponseMessage
  | requestVote => RequestVoteReplyMessage
  | putAppend => PutAppendReplyMessage
  | get => GetReplyMessage

/-- The class of the response: `GetResponsePrototype`. -/
def response : (method : RpcMethod) → MessageType method.Response
  | appendEntries => AppendEntriesReplyMessage.type
  | installSnapshot => InstallSnapshotResponseMessage.type
  | requestVote => RequestVoteReplyMessage.type
  | putAppend => PutAppendReplyMessage.type
  | get => GetReplyMessage.type

/-- The request of every method has a format. -/
lemma lawful_request (method : RpcMethod) : method.request.Lawful := by
  cases method with
  | appendEntries => exact AppendEntriesArgsMessage.lawful
  | installSnapshot => exact InstallSnapshotRequestMessage.lawful
  | requestVote => exact RequestVoteArgsMessage.lawful
  | putAppend => exact PutAppendArgsMessage.lawful
  | get => exact GetArgsMessage.lawful

/-- The response of every method has a format. -/
lemma lawful_response (method : RpcMethod) : method.response.Lawful := by
  cases method with
  | appendEntries => exact AppendEntriesReplyMessage.lawful
  | installSnapshot => exact InstallSnapshotResponseMessage.lawful
  | requestVote => exact RequestVoteReplyMessage.lawful
  | putAppend => exact PutAppendReplyMessage.lawful
  | get => exact GetReplyMessage.lawful

end RpcMethod

/-- A method and its request. -/
abbrev RpcRequest := (method : RpcMethod) × method.Request

/-- A call: its id, its method and its request. -/
structure RpcCall where
  request_id : ℕ
  method : RpcMethod
  request : method.Request

namespace RpcCall

/-- The frame of a call, as `CallMethod` makes it. -/
def frame (c : RpcCall) : RpcRequestFrame where
  request_id := c.request_id
  service_name := c.method.service_name
  method_name := c.method.method_name
  payload := c.method.request.serialize c.request

/-- A call whose numbers fit and whose frame is not too large. -/
structure Fits (c : RpcCall) : Prop where
  request_id : c.request_id < 2 ^ 64
  request : c.method.request.Fits c.request
  frame : c.frame.serialize.length ≤ kMaxFrameSize

instance (c : RpcCall) : Decidable c.Fits :=
  decidable_of_iff (c.request_id < 2 ^ 64 ∧ c.method.request.Fits c.request ∧
      c.frame.serialize.length ≤ kMaxFrameSize)
    ⟨fun h => ⟨h.1, h.2.1, h.2.2⟩, fun h => ⟨h.request_id, h.request, h.frame⟩⟩

end RpcCall

/-! ### The provider of a server -/

namespace RpcProvider

variable {ρ : Type}

/-- `NotifyService`; a service that is there already stays, as a method does. -/
def notifyService (p : RpcProvider ρ) (service_name : Bytes)
    (methods : List (Bytes × (Bytes → Option ρ))) : RpcProvider ρ :=
  { p with
    serviceMap := fun name => (p.serviceMap name).or (if name = service_name then
      some { methodMap := fun name => (methods.find? (·.1 = name)).map (·.2) } else none) }

/-- `ParseFromString` of the request of a method. -/
def parseRequest (method : RpcMethod) (args_str : Bytes) :
    Option RpcRequest :=
  (method.request.parse args_str).map fun request => ⟨method, request⟩

/-- The methods of a service, by their names. -/
def methodsOf (methods : List RpcMethod) :
    List (Bytes × (Bytes → Option RpcRequest)) :=
  methods.map fun method => (method.method_name, parseRequest method)

/-- The provider that the constructor of `KvServer` runs. -/
def ofKvServer : RpcProvider RpcRequest :=
  (({ serviceMap := fun _ => none, parseFromString := RpcRequestFrame.parse } :
      RpcProvider RpcRequest).notifyService RpcMethod.kvServerRpc
    (methodsOf [.putAppend, .get])).notifyService raftRpc
    (methodsOf [.appendEntries, .installSnapshot, .requestVote])

/-- The provider of a `KvServer` has every method. -/
lemma call_ofKvServer (method : RpcMethod) :
    ∃ service, ofKvServer.serviceMap method.service_name = some service ∧
      service.methodMap method.method_name = some (parseRequest method) := by
  cases method <;> exact ⟨_, rfl, rfl⟩

end RpcProvider

/-! ### A frame is read back -/

namespace RpcRequestFrame

/-- The fields of the type are those of the frame. -/
lemma fields_type (frame : RpcRequestFrame) : type.fields frame = frame.fields := by
  simp only [MessageType.fields, type, List.flatMap_cons, List.flatMap_nil, Kind.uint64, Kind.bytes,
    List.append_nil, fields, List.append_assoc]
  split_ifs <;> rfl

/-- The type takes a field as the frame does. -/
lemma withField_type (frame : RpcRequestFrame) (f : Field) :
    type.withField frame f = some (frame.withField f) := by
  obtain ⟨number, value⟩ := f
  by_cases h1 : number = 1
  · subst h1
    cases value <;> rfl
  by_cases h2 : number = 2
  · subst h2
    cases value <;> rfl
  by_cases h3 : number = 3
  · subst h3
    cases value <;> rfl
  by_cases h4 : number = 4
  · subst h4
    cases value <;> rfl
  have hnone : type.parts.find? (·.number = number) = none := by
    simp [type, Ne.symm h1, Ne.symm h2, Ne.symm h3, Ne.symm h4]
  rw [MessageType.withField, hnone]
  cases value <;> simp [withField, h1, h2, h3, h4]

/-- The type parses as the frame does. -/
lemma parse_type (body : Bytes) : type.parse body = parse body := by
  rw [MessageType.parse, MessageType.parseWithin, parse]
  cases readMessage kRecursionLimit body with
  | none => rfl
  | some fields =>
    show fields.foldlM type.withField type.empty = some (fields.foldl withField {})
    have hfold : ∀ frame : RpcRequestFrame, fields.foldlM type.withField frame =
        some (fields.foldl withField frame) := by
      induction fields with
      | nil => exact fun _ => rfl
      | cons f fields ih =>
        intro frame
        rw [List.foldlM_cons, withField_type]
        exact ih _
    exact hfold {}

end RpcRequestFrame

namespace RpcCall

variable {c : RpcCall}

/-- The request is no longer than its frame. -/
lemma length_payload_le (c : RpcCall) :
    (c.method.request.serialize c.request).length ≤ c.frame.serialize.length := by
  rw [RpcRequestFrame.length_serialize]
  exact le_frameSize _ _ _ _

/-- What the provider makes of the frame of a call. -/
lemma parse_frame (h : c.Fits) : RpcRequestFrame.parse c.frame.serialize = some c.frame := by
  have hpayload := c.length_payload_le.trans h.frame
  have hbytes : ∀ {bs : Bytes}, bs.length ≤ kMaxFrameSize → Kind.bytes.Fits bs := by
    intro bs hbs
    show bs.length < 2 ^ 31
    rw [kMaxFrameSize] at hbs
    omega
  have hfits : RpcRequestFrame.type.Fits c.frame := by
    simp only [MessageType.Fits, RpcRequestFrame.type, List.forall_mem_cons]
    refine ⟨h.request_id, hbytes ?_, hbytes ?_, hbytes hpayload, fun _ hp => by cases hp⟩
    · show c.method.service_name.length ≤ _
      cases c.method <;> decide
    · show c.method.method_name.length ≤ _
      cases c.method <;> decide
  have hread := MessageType.parse_serialize RpcRequestFrame.lawful hfits
  rw [RpcRequestFrame.parse_type, MessageType.serialize, RpcRequestFrame.fields_type] at hread
  exact hread

/-- A request frame that fits has a size that the provider admits. -/
lemma frameSize (h : c.Fits) : FrameSize c.frame.serialize := by
  refine ⟨?_, h.frame⟩
  rw [RpcRequestFrame.length_serialize]
  have hname : 0 < c.method.service_name.length := by cases c.method <;> decide
  have hle := le_bytesSize 2 c.method.service_name.length
  show 0 < KVCacheRaft.frameSize c.request_id c.method.service_name c.method.method_name _
  rw [KVCacheRaft.frameSize]
  omega

/-- The call that the provider schedules. -/
def context (c : RpcCall) : RpcCallContext RpcRequest :=
  ⟨c.request_id, c.method.service_name, c.method.method_name, ⟨c.method, c.request⟩⟩

/-- The provider makes of a call's frame the call's context. -/
lemma call_frame (h : c.Fits) : RpcProvider.ofKvServer.call c.frame = some c.context := by
  obtain ⟨service, hservice, hmethod⟩ := RpcProvider.call_ofKvServer c.method
  have hread := MessageType.parse_serialize c.method.lawful_request h.request
  rw [RpcProvider.call]
  show (RpcProvider.ofKvServer.serviceMap c.method.service_name).bind _ = _
  rw [hservice, Option.bind_some]
  show (service.methodMap c.method.method_name).bind _ = _
  rw [hmethod, Option.bind_some]
  show (RpcProvider.parseRequest c.method (c.method.request.serialize c.request)).map _ = _
  rw [RpcProvider.parseRequest, hread]
  rfl

end RpcCall

/-! ### Runs of `OnMessage` -/

namespace RpcProvider

variable {calls : List RpcCall} {pieces : List Bytes} {tail : Bytes}

/-- What the provider makes of the frames of some calls. -/
lemma filterMap_frames (h : ∀ c ∈ calls, c.Fits) :
    ((calls.map (·.frame.serialize)).filterMap ofKvServer.parseFromString).filterMap
      ofKvServer.call = calls.map RpcCall.context := by
  induction calls with
  | nil => rfl
  | cons c calls ih =>
    have hc := h c List.mem_cons_self
    have hparse : ofKvServer.parseFromString c.frame.serialize = some c.frame := RpcCall.parse_frame hc
    rw [List.map_cons, List.filterMap_cons_some hparse,
      List.filterMap_cons_some (RpcCall.call_frame hc),
      ih fun c hc => h c (List.mem_cons_of_mem _ hc), List.map_cons]

/-- However the bytes of some calls and of a part of one more are cut, the provider of a server
schedules these calls in order, each on its method and with the request that the stub was given. -/
lemma foldl_ofKvServer (h : ∀ c ∈ calls, c.Fits)
    (htail : Receiver.Unfinished wireString FrameSize tail)
    (hpieces : pieces.flatten = (calls.map (·.frame.serialize)).flatMap wireString ++ tail) :
    pieces.foldl ofKvServer.onMessage ({}, []) =
      ({ frames := calls.map (·.frame.serialize), tasks := calls.map RpcCall.context }, tail) := by
  have hparse : ∀ body ∈ calls.map (·.frame.serialize), (ofKvServer.parseFromString body).isSome := by
    intro body hbody
    obtain ⟨c, hc, rfl⟩ := List.mem_map.mp hbody
    exact Option.isSome_iff_exists.mpr ⟨_, RpcCall.parse_frame (h c hc)⟩
  have hsize : ∀ body ∈ calls.map (·.frame.serialize), FrameSize body := by
    intro body hbody
    obtain ⟨c, hc, rfl⟩ := List.mem_map.mp hbody
    exact RpcCall.frameSize (h c hc)
  have hgo : ∀ conn, ∀ body ∈ calls.map (·.frame.serialize),
      (ofKvServer.receiver.handle conn body).2 = true := by
    intro conn body hbody
    obtain ⟨frame, hframe⟩ := Option.isSome_iff_exists.mp (hparse body hbody)
    show (ofKvServer.handle conn body).2 = true
    rw [handle]
    simp only [hframe]
  refine (ofKvServer.reads_receiver.foldl_receive hsize hgo htail hpieces {}).trans ?_
  refine congrArg (·, tail) ((ofKvServer.foldl_handle hparse {}).trans ?_)
  rw [filterMap_frames h]
  rfl

end RpcProvider

/-! ### The requests of Raft nodes and of clients -/

/-- A number that is written is an `int32` field. -/
lemma map_write_int32 (number : ℕ) (z : ℤ) :
    (Kind.int32.write z).map (Codecs.Field.mk number) = int32Field number z := by
  show (if z = 0 then [] else [WireValue.varint (toUInt64 z)]).map (Codecs.Field.mk number) = _
  rw [int32Field]
  split_ifs <;> rfl

/-- Bytes that are written are a field of bytes. -/
lemma map_write_bytes (number : ℕ) (bs : Bytes) :
    (Kind.bytes.write bs).map (Codecs.Field.mk number) = bytesField number bs := by
  show (if bs = [] then [] else [WireValue.bytes bs]).map (Codecs.Field.mk number) = _
  rw [bytesField]
  split_ifs <;> rfl

/-- An entry as a message. -/
def LogEntry.message (e : LogEntry) : LogEntryMessage where
  command := e.command
  logterm := e.logterm
  logindex := e.logindex

/-- A log entry is serialized as its message is. -/
lemma LogEntry.serialize_message {e : LogEntry} (h : e.logterm < 2 ^ 64) :
    LogEntryMessage.type.serialize e.message = e.serialize := by
  have hterm : toUInt64 e.logterm = e.logterm := by
    rw [toUInt64]
    omega
  have hfields : LogEntryMessage.type.fields e.message = e.fields := by
    simp only [MessageType.fields, LogEntryMessage.type, List.flatMap_cons, List.flatMap_nil,
      map_write_int32, map_write_bytes, List.append_nil]
    simp only [fields, message, int32Field, bytesField, hterm, Int.natCast_eq_zero, List.append_assoc]
    rfl
  rw [MessageType.serialize, hfields]
  rfl

/-- A request of a Raft node as a call. -/
def Request.call (request_id : ℕ) : Request → RpcCall
  | .requestVote args _ => ⟨request_id, .requestVote,
    { term := args.term, candidateid := args.candidateid, lastlogindex := args.lastlogindex,
      lastlogterm := args.lastlogterm }⟩
  | .appendEntries args => ⟨request_id, .appendEntries,
    { term := args.term, leaderid := args.leaderid, prevlogindex := args.prevlogindex,
      prevlogterm := args.prevlogterm, entries := args.entries.map LogEntry.message,
      leadercommit := args.leadercommit }⟩
  | .installSnapshot args => ⟨request_id, .installSnapshot,
    { leaderid := args.leaderid, term := args.term,
      lastsnapshotincludeindex := args.lastsnapshotincludeindex,
      lastsnapshotincludeterm := args.lastsnapshotincludeterm, data := args.data }⟩

/-- The numbers of the request are in the ranges of its fields. -/
def Request.Fits (request : Request) : Prop :=
  (request.call 0).method.request.Fits (request.call 0).request

/-- The frames of `AppendEntries` and of `InstallSnapshot` are frames of calls. -/
lemma Request.frame_call {request : Request} {request_id : ℕ} {frame : RpcRequestFrame}
    (h : request.frame request_id = some frame) (hfits : request.Fits) :
    frame = (request.call request_id).frame := by
  cases request with
  | requestVote args election => cases h
  | appendEntries args =>
    obtain rfl := Option.some.inj h
    have hterms : ∀ e ∈ args.entries, e.logterm < 2 ^ 64 := by
      intro e he
      have hentries : ∀ m ∈ args.entries.map LogEntry.message, LogEntryMessage.type.Fits m ∧ _ :=
        hfits _ (List.mem_of_getElem? (i := 4) rfl)
      have hterm : -2 ^ 31 ≤ (e.logterm : ℤ) ∧ (e.logterm : ℤ) < 2 ^ 31 :=
        (hentries e.message (List.mem_map_of_mem he)).1 _ (List.mem_of_getElem? (i := 1) rfl)
      omega
    have hentries : (Kind.write (Kind.repeated LogEntryMessage.type LogEntryMessage.lawful)
        (args.entries.map LogEntry.message)).map (Codecs.Field.mk 5) =
        args.entries.map fun e => ⟨5, .bytes e.serialize⟩ := by
      show ((args.entries.map LogEntry.message).map _).map _ = _
      rw [List.map_map, List.map_map]
      exact List.map_congr_left fun e he =>
        congrArg (Codecs.Field.mk 5 <| .bytes ·) (LogEntry.serialize_message (hterms e he))
    have hfields : AppendEntriesArgsMessage.type.fields
        ((Request.appendEntries args).call request_id).request = args.fields := by
      simp only [MessageType.fields, AppendEntriesArgsMessage.type, List.flatMap_cons,
        List.flatMap_nil, map_write_int32, List.append_nil]
      rw [AppendEntriesArgs.fields, ← hentries]
      simp only [List.append_assoc]
      rfl
    rw [RpcCall.frame]
    show _ = RpcRequestFrame.mk _ _ _ (encodeMessage (AppendEntriesArgsMessage.type.fields _))
    rw [hfields]
    rfl
  | installSnapshot args =>
    obtain rfl := Option.some.inj h
    have hfields : InstallSnapshotRequestMessage.type.fields
        ((Request.installSnapshot args).call request_id).request = args.fields := by
      simp only [MessageType.fields, InstallSnapshotRequestMessage.type, List.flatMap_cons,
        List.flatMap_nil, map_write_int32, map_write_bytes, List.append_nil]
      rw [InstallSnapshotRequest.fields]
      simp only [List.append_assoc]
      rfl
    rw [RpcCall.frame]
    show _ = RpcRequestFrame.mk _ _ _ (encodeMessage (InstallSnapshotRequestMessage.type.fields _))
    rw [hfields]
    rfl

/-- A request of a client as a call. -/
def KvRequest.call (request_id : ℕ) : KvRequest → RpcCall
  | .get Key ClientId RequestId => ⟨request_id, .get,
    { key := Key, clientid := ClientId, requestid := RequestId }⟩
  | .putAppend Key Value Op ClientId RequestId => ⟨request_id, .putAppend,
    { key := Key, value := Value, op := Op, clientid := ClientId, requestid := RequestId }⟩

@[inherit_doc Request.Fits]
def KvRequest.Fits (request : KvRequest) : Prop :=
  (request.call 0).method.request.Fits (request.call 0).request

/-- The frames of a client's requests are frames of calls. -/
lemma KvRequest.frame_call (request : KvRequest) (request_id : ℕ) :
    request.frame request_id = (request.call request_id).frame := by
  cases request with
  | get Key ClientId RequestId =>
    have hfields : GetArgsMessage.type.fields
        ((KvRequest.get Key ClientId RequestId).call request_id).request =
        (KvRequest.get Key ClientId RequestId).fields := by
      simp only [MessageType.fields, GetArgsMessage.type, List.flatMap_cons, List.flatMap_nil,
        map_write_int32, map_write_bytes, List.append_nil]
      rw [KvRequest.fields]
      simp only [List.append_assoc]
      rfl
    rw [RpcCall.frame]
    show _ = RpcRequestFrame.mk _ _ _ (encodeMessage (GetArgsMessage.type.fields _))
    rw [hfields]
    rfl
  | putAppend Key Value Op ClientId RequestId =>
    have hfields : PutAppendArgsMessage.type.fields
        ((KvRequest.putAppend Key Value Op ClientId RequestId).call request_id).request =
        (KvRequest.putAppend Key Value Op ClientId RequestId).fields := by
      simp only [MessageType.fields, PutAppendArgsMessage.type, List.flatMap_cons, List.flatMap_nil,
        map_write_int32, map_write_bytes, List.append_nil]
      rw [KvRequest.fields]
      simp only [List.append_assoc]
      rfl
    rw [RpcCall.frame]
    show _ = RpcRequestFrame.mk _ _ _ (encodeMessage (PutAppendArgsMessage.type.fields _))
    rw [hfields]
    rfl

/-- However the bytes of a frame are cut, the provider of a server schedules the call. -/
lemma RpcCall.scheduled {c : RpcCall} (h : c.Fits) {pieces : List Bytes}
    (hpieces : pieces.flatten = wireString c.frame.serialize) :
    pieces.foldl RpcProvider.ofKvServer.onMessage ({}, []) =
      ({ frames := [c.frame.serialize], tasks := [c.context] }, []) := by
  have hsize := c.frameSize h
  have htail : Receiver.Unfinished wireString FrameSize [] :=
    ⟨c.frame.serialize, hsize, List.nil_prefix, fun hnil =>
      varint_ne_nil (by omega) _ (List.append_eq_nil_iff.mp hnil.symm).1⟩
  refine RpcProvider.foldl_ofKvServer (List.forall_mem_singleton.mpr h) htail ?_
  rw [hpieces, List.map_singleton, List.flatMap_singleton, List.append_nil]

/-- A request of the Raft nodes that comes in whatever parts is scheduled. -/
lemma Request.scheduled {request : Request} {request_id : ℕ} {frame : RpcRequestFrame}
    (hframe : request.frame request_id = some frame) (hfits : request.Fits)
    (hid : request_id < 2 ^ 64) (hsize : FrameSize frame.serialize) {pieces : List Bytes}
    (hpieces : pieces.flatten = wireString frame.serialize) :
    pieces.foldl RpcProvider.ofKvServer.onMessage ({}, []) =
      ({ frames := [frame.serialize], tasks := [(request.call request_id).context] }, []) := by
  obtain rfl := request.frame_call hframe hfits
  refine RpcCall.scheduled ⟨?_, ?_, hsize.2⟩ hpieces
  · cases request <;> exact hid
  · cases request <;> exact hfits

/-- A request of a clerk that comes in whatever parts is scheduled. -/
lemma KvRequest.scheduled {request : KvRequest} {request_id : ℕ} (hfits : request.Fits)
    (hid : request_id < 2 ^ 64) (hsize : FrameSize (request.frame request_id).serialize)
    {pieces : List Bytes} (hpieces : pieces.flatten = wireString (request.frame request_id).serialize) :
    pieces.foldl RpcProvider.ofKvServer.onMessage ({}, []) =
      ({ frames := [(request.frame request_id).serialize],
         tasks := [(request.call request_id).context] }, []) := by
  rw [KvRequest.frame_call] at hsize hpieces ⊢
  refine RpcCall.scheduled ⟨?_, ?_, hsize.2⟩ hpieces
  · cases request <;> exact hid
  · cases request <;> exact hfits

/-! ### Responses -/

/-- A call and the response that its handler gives. -/
structure RpcAnswer where
  call : RpcCall
  response : call.method.Response

namespace RpcAnswer

/-- `SerializeToString` of the response. -/
def payload (a : RpcAnswer) : Bytes := a.call.method.response.serialize a.response

/-- The frame of the response, as `SendRpcResponse` makes it. -/
def frame (a : RpcAnswer) : RpcResponseFrame where
  request_id := a.call.request_id
  payload := a.payload

/-- An answer whose numbers fit and whose frame is neither empty nor too large. -/
structure Fits (a : RpcAnswer) : Prop where
  call : a.call.Fits
  response : a.call.method.response.Fits a.response
  frame : FrameSize a.frame.serialize

instance (a : RpcAnswer) : Decidable a.Fits :=
  decidable_of_iff (a.call.Fits ∧ a.call.method.response.Fits a.response ∧
      FrameSize a.frame.serialize)
    ⟨fun h => ⟨h.1, h.2.1, h.2.2⟩, fun h => ⟨h.call, h.response, h.frame⟩⟩

variable {a : RpcAnswer}

/-- `SendRpcResponse` sends the frame of the answer. -/
lemma sendRpcResponse_context (h : a.Fits) :
    RpcProvider.sendRpcResponse a.call.context (some a.payload) =
      some (wireString a.frame.serialize) := by
  obtain ⟨-, hmax⟩ := h.frame
  rw [kMaxFrameSize] at hmax
  exact if_neg (by show ¬ 2 ^ 31 ≤ a.frame.serialize.length; omega)

/-- What the caller makes of the payload. -/
lemma parse_payload (h : a.call.method.response.Fits a.response) :
    a.call.method.response.parse a.payload = some a.response :=
  MessageType.parse_serialize a.call.method.lawful_response h

end RpcAnswer

namespace MrpcchannelMultiReq

/-- Some rounds of `recvLoop`. -/
def recvRounds (parses : ℕ → Bytes → Bool) :
    ℕ → MrpcchannelMultiReq → Socket UInt8 → Option (MrpcchannelMultiReq × Socket UInt8)
  | 0, s, socket => some (s, socket)
  | k + 1, s, socket =>
    (s.recvRound parses socket).bind fun (s, socket) => recvRounds parses k s socket

variable {parses : ℕ → Bytes → Bool} {s : MrpcchannelMultiReq} {socket : Socket UInt8}
  {behind : Bytes} {answers : List RpcAnswer} {a : RpcAnswer}

/-- The call that an answer is for. -/
def Awaits (s : MrpcchannelMultiReq) (a : RpcAnswer) (task : PendingCall × Bytes) : Prop :=
  task.1 ∈ s.pendings ∧ task.1.requestId = a.call.request_id ∧
    a.call.method.response.parse task.2 = some a.response

/-- A round in which an answer is read. -/
lemma recvRound_answer (parses : ℕ → Bytes → Bool) (hfits : a.Fits)
    (hid : a.call.request_id ∈ s.pendings.map (·.requestId))
    (hfailing : s.failing .recipient = none) (hconnecting : s.connecting = none)
    (hsocket : stream socket = wireString a.frame.serialize ++ behind) :
    ∃ pending rest, s.Awaits a (pending, a.payload) ∧ stream rest = behind ∧
      s.recvRound parses socket = some ({ s with
        frames := s.frames ++ [(a.call.request_id, a.payload)]
        pendings := s.pendings.erase pending
        tasks := s.tasks ++ [(pending, a.payload)] }, rest) := by
  obtain ⟨rest, hread, hrest⟩ := recvFrame_wireString hfits.call.request_id hfits.frame hsocket
  have hfound : (s.pendings.find? (·.requestId = a.call.request_id)).isSome := by
    obtain ⟨p, hp, hpid⟩ := List.mem_map.mp hid
    exact List.find?_isSome.mpr ⟨p, hp, by simpa using hpid⟩
  obtain ⟨pending, hpending⟩ := Option.isSome_iff_exists.mp hfound
  have hown : pending.requestId = a.call.request_id := by simpa using List.find?_some hpending
  have hbusy : ¬ ((s.failing .recipient).isSome ∨ s.connecting.isSome) := by
    rw [hfailing, hconnecting]
    rintro (h | h) <;> cases h
  refine ⟨pending, rest, ⟨List.mem_of_find?_eq_some hpending, hown,
    RpcAnswer.parse_payload hfits.response⟩, hrest, ?_⟩
  rw [recvRound, hread]
  show (s.step parses (.recv (some (a.call.request_id, a.payload)))).map _ = _
  rw [step, if_neg hbusy, completeResponse]
  simp only [hpending, Option.map_some]

/-- Rounds in which some answers are read. -/
lemma recvRounds_answers (hfits : ∀ a ∈ answers, a.Fits)
    (hnodup : (answers.map (·.call.request_id)).Nodup) (hpendings : (s.pendings.map (·.requestId)).Nodup)
    (hids : ∀ a ∈ answers, a.call.request_id ∈ s.pendings.map (·.requestId))
    (hfailing : s.failing .recipient = none) (hconnecting : s.connecting = none)
    (hsocket : stream socket = answers.flatMap (fun a => wireString a.frame.serialize) ++ behind) :
    ∃ t rest tasks, recvRounds parses answers.length s socket = some (t, rest) ∧ stream rest = behind ∧
      t.pendings = s.pendings.filter (·.requestId ∉ answers.map (·.call.request_id)) ∧
      t.tasks = s.tasks ++ tasks ∧ List.Forall₂ s.Awaits answers tasks := by
  induction answers generalizing s socket with
  | nil =>
    refine ⟨s, socket, [], rfl, hsocket, ?_, (List.append_nil _).symm, .nil⟩
    rw [List.filter_eq_self.mpr]
    exact fun _ _ => by simp
  | cons a answers ih =>
    rw [List.flatMap_cons, List.append_assoc] at hsocket
    rw [List.map_cons, List.nodup_cons] at hnodup
    obtain ⟨pending, rest, hawaits, hrest, hround⟩ := recvRound_answer parses
      (hfits a List.mem_cons_self) (hids a List.mem_cons_self) hfailing hconnecting hsocket
    obtain ⟨hmem, hown, hpayload⟩ : pending ∈ s.pendings ∧
      pending.requestId = a.call.request_id ∧ _ := hawaits
    have hother : ∀ p ∈ s.pendings, p ≠ pending → p.requestId ≠ a.call.request_id := by
      intro p hp hne heq
      exact hne (List.inj_on_of_nodup_map hpendings hp hmem (heq.trans hown.symm))
    have hdistinct := List.Nodup.of_map _ hpendings
    have hleft : ∀ b ∈ answers,
        b.call.request_id ∈ (s.pendings.erase pending).map (·.requestId) := by
      intro b hb
      obtain ⟨p, hp, hpid⟩ := List.mem_map.mp (hids b (List.mem_cons_of_mem _ hb))
      refine List.mem_map.mpr ⟨p, hdistinct.mem_erase_iff.mpr ⟨?_, hp⟩, hpid⟩
      rintro rfl
      exact hnodup.1 (List.mem_map.mpr ⟨b, hb, hpid.symm.trans hown⟩)
    obtain ⟨t, rest', tasks, hrounds, hrest', hpend, htasks, hall⟩ :=
      ih (s := { s with
        frames := s.frames ++ [(a.call.request_id, a.payload)]
        pendings := s.pendings.erase pending
        tasks := s.tasks ++ [(pending, a.payload)] })
      (fun b hb => hfits b (List.mem_cons_of_mem _ hb)) hnodup.2
      (hpendings.sublist ((List.erase_sublist ..).map _)) hleft hfailing hconnecting hrest
    refine ⟨t, rest', (pending, a.payload) :: tasks, ?_, hrest', ?_, ?_, ?_⟩
    · rw [List.length_cons, recvRounds, hround]
      exact hrounds
    · rw [hpend]
      show (s.pendings.erase pending).filter _ = _
      rw [hdistinct.erase_eq_filter, List.filter_filter]
      refine List.filter_congr fun p hp => ?_
      have hiff : p = pending ↔ p.requestId = a.call.request_id :=
        ⟨fun heq => heq ▸ hown, fun heq => by_contra fun hne => hother p hp hne heq⟩
      rw [Bool.eq_iff_iff]
      simp [hiff, and_comm]
    · rw [htasks, List.append_assoc]
      rfl
    · refine .cons ⟨hmem, hown, hpayload⟩ (hall.imp fun b task hb => ?_)
      exact ⟨List.mem_of_mem_erase hb.1, hb.2⟩

/-- Some calls are sent, their bytes cut in any way; the handlers of some of the calls that the provider
schedules run in any order, and `recvLoop` gets what `SendRpcResponse` sends, in whatever parts: each of
these calls is handed to a worker, with a payload that parses to the response of its own handler. -/
theorem calls_answered {calls : List RpcCall} {pieces : List Bytes} {tail : Bytes}
    (hcalls : ∀ c ∈ calls, c.Fits) (htail : Receiver.Unfinished wireString FrameSize tail)
    (hpieces : pieces.flatten = (calls.map (·.frame.serialize)).flatMap wireString ++ tail)
    (hanswers : ∀ a ∈ answers, a.Fits)
    (hrun : (answers.map (·.call.context)).Subperm
      (pieces.foldl RpcProvider.ofKvServer.onMessage ({}, [])).1.tasks)
    (hnodup : (calls.map (·.request_id)).Nodup) (hpendings : (s.pendings.map (·.requestId)).Nodup)
    (hids : ∀ c ∈ calls, c.request_id ∈ s.pendings.map (·.requestId))
    (hfailing : s.failing .recipient = none) (hconnecting : s.connecting = none)
    (hsocket : stream socket = (answers.filterMap fun a =>
      RpcProvider.sendRpcResponse a.call.context (some a.payload)).flatten ++ behind) :
    ∃ t rest tasks, recvRounds parses answers.length s socket = some (t, rest) ∧ stream rest = behind ∧
      t.pendings = s.pendings.filter (·.requestId ∉ answers.map (·.call.request_id)) ∧
      t.tasks = s.tasks ++ tasks ∧ List.Forall₂ s.Awaits answers tasks := by
  rw [RpcProvider.foldl_ofKvServer hcalls htail hpieces] at hrun
  obtain ⟨contexts, hperm, hsublist⟩ := hrun
  have hperm' : (contexts.map RpcCallContext.requestId).Perm (answers.map (·.call.request_id)) := by
    have hmap := hperm.map RpcCallContext.requestId
    rwa [List.map_map] at hmap
  have hsublist' : (contexts.map RpcCallContext.requestId).Sublist (calls.map (·.request_id)) := by
    have hmap := hsublist.map RpcCallContext.requestId
    rwa [List.map_map] at hmap
  have hdistinct : (answers.map (·.call.request_id)).Nodup :=
    hperm'.nodup_iff.mp (hnodup.sublist hsublist')
  have hown : ∀ a ∈ answers, a.call.request_id ∈ s.pendings.map (·.requestId) := by
    intro a ha
    have hmem := hsublist'.subset (hperm'.mem_iff.mpr (List.mem_map_of_mem ha))
    obtain ⟨c, hc, hid⟩ := List.mem_map.mp hmem
    exact hid ▸ hids c hc
  have hsent : (answers.filterMap fun a =>
      RpcProvider.sendRpcResponse a.call.context (some a.payload)).flatten =
      answers.flatMap fun a => wireString a.frame.serialize := by
    rw [List.filterMap_congr fun a ha => RpcAnswer.sendRpcResponse_context (hanswers a ha),
      List.filterMap_eq_map', List.flatMap_def]
  rw [hsent] at hsocket
  exact recvRounds_answers hanswers hdistinct hpendings hown hfailing hconnecting hsocket

/-- A vote and a `Get`; the `Get` is answered first. -/
theorem calls_answered_two :
    let vote : RpcCall := ⟨1, .requestVote, { term := 3, candidateid := 1 }⟩
    let get : RpcCall := ⟨2, .get, { key := [107] }⟩
    let answers : List RpcAnswer := [⟨get, { value := [5] }⟩, ⟨vote, { term := 3, votegranted := true }⟩]
    let s : MrpcchannelMultiReq := { clientFd := 3, pendings := [⟨6, 1⟩, ⟨7, 2⟩] }
    ∃ t rest tasks, recvRounds (fun _ _ => true) 2 s
        [.part [7, 8, 2, 18], .interrupted, .part [3, 18, 1, 5, 8, 8, 1, 18, 4], .part [8, 3, 16, 1]] =
          some (t, rest) ∧ stream rest = [] ∧
      t.pendings = s.pendings.filter (·.requestId ∉ answers.map (·.call.request_id)) ∧
      t.tasks = s.tasks ++ tasks ∧ List.Forall₂ s.Awaits answers tasks := by
  intro vote get answers s
  have hcalls : ∀ c ∈ [vote, get], c.Fits := by decide
  have hanswers : ∀ a ∈ answers, a.Fits := by decide
  have htail : Receiver.Unfinished wireString FrameSize [] :=
    ⟨[1], by decide, List.nil_prefix, by decide⟩
  have hpieces : [([vote, get].map (·.frame.serialize)).flatMap wireString].flatten =
      ([vote, get].map (·.frame.serialize)).flatMap wireString ++ [] := by simp
  refine calls_answered hcalls htail hpieces hanswers ?_ (by decide) (by decide) (by decide) rfl rfl
    (by decide)
  rw [RpcProvider.foldl_ofKvServer hcalls htail hpieces]
  exact (List.Perm.swap ..).subperm

end MrpcchannelMultiReq

end KVCacheRaft
