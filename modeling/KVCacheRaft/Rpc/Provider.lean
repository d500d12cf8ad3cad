import KVCacheRaft.Rpc.Frame

/-!
# The frames that a provider gets

`OnMessage` (`rpc/rpcprovider.cc`) is called with the buffer of a connection whenever bytes have
arrived. It takes whole frames off the buffer and schedules the calls in them, and leaves a frame that
is not whole where it is. Bytes arrive in pieces of any size.
-/

namespace KVCacheRaft

open Codecs Framing

/-- `RpcCallContext`, with what the loop has read of it. -/
structure RpcCallContext (ρ : Type) where
  requestId : ℕ
  service_name : Bytes
  method_name : Bytes
  request : ρ

/-- A service: for each method `ParseFromString` of its request prototype. -/
structure ServiceInfo (ρ : Type) where
  methodMap : Bytes → Option (Bytes → Option ρ)

/-- What `OnMessage` uses of `RpcProvider` and of the generated code. -/
structure RpcProvider (ρ : Type) where
  serviceMap : Bytes → Option (ServiceInfo ρ)
  /-- `ParseFromString` of `RpcRequestFrame` -/
  parseFromString : Bytes → Option RpcRequestFrame

/-- A connection, apart from its buffer. -/
structure Connection (ρ : Type) where
  /-- the strings that were retrieved from the buffer as frames -/
  frames : List Bytes := []
  /-- the calls that are scheduled -/
  tasks : List (RpcCallContext ρ) := []
  shutdown : Bool := false

namespace RpcProvider

variable {ρ : Type}

/-- The checks at the front of the buffer. -/
def front (buffer : Bytes) : Front Bytes UInt8 :=
  match tryReadVarint32 buffer with
  | .needMore => .more
  | .badFormat => .refused
  | .ok frameSize varintLen =>
    if frameSize = 0 ∨ frameSize > kMaxFrameSize then .refused
    else if buffer.length < varintLen + frameSize then .more
    else
      let buffer := buffer.drop varintLen
      .item (buffer.take frameSize) (buffer.drop frameSize)

/-- The call in a frame, when service and method are known and the arguments can be read. -/
def call (p : RpcProvider ρ) (frame : RpcRequestFrame) : Option (RpcCallContext ρ) :=
  (p.serviceMap frame.service_name).bind fun service =>
    (service.methodMap frame.method_name).bind fun parse =>
      (parse frame.payload).map fun request =>
        ⟨frame.request_id, frame.service_name, frame.method_name, request⟩

/-- A frame that was retrieved. -/
def handle (p : RpcProvider ρ) (conn : Connection ρ) (rpc_req_frame_str : Bytes) :
    Connection ρ × Bool :=
  let conn := { conn with frames := conn.frames ++ [rpc_req_frame_str] }
  match p.parseFromString rpc_req_frame_str with
  | none => ({ conn with shutdown := true }, false)
  | some frame => ({ conn with tasks := conn.tasks ++ (p.call frame).toList }, true)

/-- The loop of `OnMessage`. -/
def receiver (p : RpcProvider ρ) : Receiver (Connection ρ) Bytes UInt8 where
  front := front
  handle := p.handle
  refuse conn := { conn with shutdown := true }

/-- `OnMessage`, after bytes were appended to the buffer. -/
def onMessage (p : RpcProvider ρ) (conn : Connection ρ × Bytes) (bytes : Bytes) :
    Connection ρ × Bytes :=
  p.receiver.receive conn bytes

/-- A body that is admitted has a length that is kept. -/
lemma length_mod_of_frameSize {body : Bytes} (h : FrameSize body) :
    body.length % 2 ^ 32 = body.length := by
  obtain ⟨-, hle⟩ := h
  rw [kMaxFrameSize] at hle
  omega

/-- A frame in front is taken off. -/
lemma front_wireString {body : Bytes} (h : FrameSize body) (rest : Bytes) :
    front (wireString body ++ rest) = .item body rest := by
  have hmod := length_mod_of_frameSize h
  obtain ⟨hpos, hle⟩ := h
  have hlt : body.length < 2 ^ 32 := by
    rw [kMaxFrameSize] at hle
    omega
  have hread := tryReadVarint32_varint hlt (body ++ rest)
  rw [front, wireString, hmod, List.append_assoc, hread]
  simp only
  rw [if_neg (by omega), if_neg (by rw [List.length_append, List.length_append]; omega),
    List.drop_left, List.take_left, List.drop_left]

/-- A part of a frame is left in the buffer, wherever it ends. -/
lemma front_part {body part : Bytes} (h : FrameSize body) (hpart : part <+: wireString body)
    (hne : part ≠ wireString body) : front part = .more := by
  have hmod := length_mod_of_frameSize h
  have hlt : part.length < (wireString body).length :=
    Nat.lt_of_le_of_ne hpart.length_le fun heq => hne (hpart.eq_of_length heq)
  obtain ⟨hpos, hle⟩ := h
  rw [wireString, hmod] at hpart hlt
  have hsize : body.length < 2 ^ 32 := by
    rw [kMaxFrameSize] at hle
    omega
  by_cases hwhole : varint 5 body.length <+: part
  · -- the body is not whole
    obtain ⟨behind, rfl⟩ := hwhole
    rw [List.length_append, List.length_append] at hlt
    rw [front, tryReadVarint32_varint hsize behind]
    simp only
    rw [if_neg (by omega), if_pos (by rw [List.length_append]; omega)]
  · -- the length is not whole
    have hshort : part <+: varint 5 body.length :=
      (List.prefix_or_prefix_of_prefix hpart (List.prefix_append _ _)).resolve_right hwhole
    have hpartial : part ≠ varint 5 body.length := fun heq => hwhole (heq ▸ List.prefix_rfl)
    rw [front, tryReadVarint32_part hshort hpartial]

/-- The receiver reads what was sent, whatever the parts. -/
lemma reads_receiver (p : RpcProvider ρ) : p.receiver.Reads wireString FrameSize where
  whole _ rest hbody := front_wireString hbody rest
  part _ _ hbody hpart hne := front_part hbody hpart hne
  nonempty _ _ hnil := varint_ne_nil (by omega) _ (List.append_eq_nil_iff.mp hnil).1

/-- What the frames leave, when all of them can be read. -/
lemma foldl_handle (p : RpcProvider ρ) {bodies : List Bytes}
    (hparse : ∀ body ∈ bodies, (p.parseFromString body).isSome) (conn : Connection ρ) :
    bodies.foldl (fun conn body => (p.handle conn body).1) conn =
      { conn with
        frames := conn.frames ++ bodies
        tasks := conn.tasks ++ (bodies.filterMap p.parseFromString).filterMap p.call } := by
  induction bodies generalizing conn with
  | nil => simp
  | cons body bodies ih =>
    obtain ⟨frame, hframe⟩ := Option.isSome_iff_exists.mp (hparse body List.mem_cons_self)
    have hhandle : (p.handle conn body).1 =
        { conn with
          frames := conn.frames ++ [body]
          tasks := conn.tasks ++ (p.call frame).toList } := by
      rw [handle]
      simp only [hframe]
    rw [List.foldl_cons, ih (fun x hx => hparse x (List.mem_cons_of_mem _ hx)), hhandle,
      List.filterMap_cons_some hframe, List.filterMap_cons]
    cases p.call frame <;> simp

/-- However the bytes of some frames and of a part of one more are cut, `OnMessage` retrieves these
frames in order, schedules their calls, keeps the part and does not shut the connection down. -/
theorem foldl_onMessage (p : RpcProvider ρ) {bodies : List Bytes} {tail : Bytes}
    (hparse : ∀ body ∈ bodies, (p.parseFromString body).isSome)
    (hsize : ∀ body ∈ bodies, FrameSize body)
    (htail : Receiver.Unfinished wireString FrameSize tail) {pieces : List Bytes}
    (hpieces : pieces.flatten = bodies.flatMap wireString ++ tail) :
    pieces.foldl p.onMessage ({}, []) =
      ({ frames := bodies, tasks := (bodies.filterMap p.parseFromString).filterMap p.call }, tail) := by
  have hgo : ∀ conn, ∀ body ∈ bodies, (p.receiver.handle conn body).2 = true := by
    intro conn body hbody
    obtain ⟨frame, hframe⟩ := Option.isSome_iff_exists.mp (hparse body hbody)
    show (p.handle conn body).2 = true
    rw [handle]
    simp only [hframe]
  refine (p.reads_receiver.foldl_receive hsize hgo htail hpieces {}).trans ?_
  refine congrArg (·, tail) ((p.foldl_handle hparse {}).trans ?_)
  simp

/-- A provider of one service with one method, whose request may be any bytes. -/
def single (service_name method_name : Bytes) : RpcProvider Bytes where
  serviceMap name :=
    if name = service_name then
      some { methodMap := fun name => if name = method_name then some some else none }
    else none
  parseFromString := RpcRequestFrame.parse

/-- Two frames and the length of a third one, byte by byte. -/
theorem foldl_onMessage_bytewise :
    let bodies := [RpcRequestFrame.serialize ⟨1, [115], [109], [7]⟩,
      RpcRequestFrame.serialize ⟨2, [115], [110], []⟩]
    ((bodies.flatMap wireString ++ [200]).map ([·])).foldl (single [115] [109]).onMessage ({}, []) =
      ({ frames := bodies, tasks := [⟨1, [115], [109], [7]⟩] }, [200]) := by
  refine foldl_onMessage _ (by decide) (by decide) ⟨List.replicate 200 0, ?_, ?_, ?_⟩ (by decide)
  · rw [FrameSize, List.length_replicate, kMaxFrameSize]
    omega
  · rw [wireString, List.length_replicate]
    exact List.IsPrefix.trans (by decide) (List.prefix_append _ _)
  · intro hall
    have hlen := congrArg List.length hall
    rw [wireString, List.length_append, List.length_replicate, List.length_singleton] at hlen
    omega

end RpcProvider

end KVCacheRaft
