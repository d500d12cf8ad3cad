import KVCacheRaft.Codec.Sizes
import KVCacheRaft.Codec.Sockets
import KVCacheRaft.Rpc.Channel
import KVCacheRaft.Rpc.Provider

/-!
# Responses

`SendRpcResponse` (`rpc/rpcprovider.cc`) writes the length of a serialized `RpcResponseFrame` as a varint,
and the frame. `recvLoop` (`rpc/MrpcchannelMultiReq.cc`) reads it off its socket, finds the pending call
with the id of the frame and lets a worker complete it. A frame with nothing but defaults has no bytes at
all, and `recvLoop` takes a length of zero for an error.
-/

namespace KVCacheRaft

open Codecs Machine Sockets

/-- `RPC::RpcResponseFrame`. -/
structure RpcResponseFrame where
  request_id : ℕ := 0
  payload : Bytes := []
deriving DecidableEq

namespace RpcResponseFrame

/-- The fields of a frame that are not defaults. -/
def fields (frame : RpcResponseFrame) : List Field :=
  (if frame.request_id = 0 then [] else [⟨1, .varint frame.request_id⟩]) ++
    (if frame.payload = [] then [] else [⟨2, .bytes frame.payload⟩])

/-- `SerializeToString`. -/
def serialize (frame : RpcResponseFrame) : Bytes := encodeMessage frame.fields

/-- The frame after one more field; fields that it does not know are skipped. -/
def withField (frame : RpcResponseFrame) (f : Field) : RpcResponseFrame :=
  match f with
  | ⟨1, .varint n⟩ => { frame with request_id := n }
  | ⟨2, .bytes bs⟩ => { frame with payload := bs }
  | _ => frame

/-- `ParseFromString`. -/
def parse (body : Bytes) : Option RpcResponseFrame :=
  (readMessage kRecursionLimit body).map fun fields => fields.foldl withField {}

variable {frame : RpcResponseFrame}

/-- Only a frame of defaults has no bytes. -/
lemma serialize_eq_nil_iff : frame.serialize = [] ↔ frame.request_id = 0 ∧ frame.payload = [] := by
  rw [serialize, encodeMessage, List.flatMap_eq_nil_iff]
  constructor
  · intro h
    have hfields : ∀ f, f ∉ frame.fields := fun f hf => f.encode_ne_nil (h f hf)
    rw [← List.eq_nil_iff_forall_not_mem, fields, List.append_eq_nil_iff] at hfields
    obtain ⟨hid, hpayload⟩ := hfields
    constructor
    · by_contra hne
      rw [if_neg hne] at hid
      cases hid
    · by_contra hne
      rw [if_neg hne] at hpayload
      cases hpayload
  · rintro ⟨hid, hpayload⟩ f hf
    rw [fields, if_pos hid, if_pos hpayload] at hf
    cases hf

/-- A frame is at least as large as its payload. -/
lemma length_payload_le (frame : RpcResponseFrame) : frame.payload.length ≤ frame.serialize.length := by
  rw [serialize, length_encodeMessage, fields, messageSize_append]
  refine Nat.le_trans ?_ (Nat.le_add_left _ _)
  split_ifs with hpayload
  · rw [hpayload]
    exact Nat.zero_le _
  · rw [messageSize_cons, Field.size, WireValue.size]
    omega

/-- The fields of a frame that fits fit. -/
lemma fits_fields (hid : frame.request_id < 2 ^ 64) (hpayload : frame.payload.length < 2 ^ 31) :
    ∀ f ∈ frame.fields, f.Fits := by
  intro f hf
  rw [fields, List.mem_append] at hf
  obtain hf | hf := hf
  · split_ifs at hf
    · cases hf
    · obtain rfl := List.mem_singleton.mp hf
      exact ⟨Nat.zero_lt_one, by dsimp only; omega, hid⟩
  · split_ifs at hf
    · cases hf
    · obtain rfl := List.mem_singleton.mp hf
      exact ⟨Nat.zero_lt_two, by dsimp only; omega, hpayload⟩

/-- A frame is read back. -/
lemma parse_serialize (hid : frame.request_id < 2 ^ 64) (hpayload : frame.payload.length < 2 ^ 31) :
    parse frame.serialize = some frame := by
  rw [parse, serialize, readMessage_encode (fits_fields hid hpayload), Option.map_some]
  refine congrArg some ?_
  obtain ⟨request_id, payload⟩ := frame
  rw [fields, List.foldl_append]
  dsimp only
  split_ifs with h1 h2 h2
  · rw [h1, h2]
    rfl
  · rw [h1]
    rfl
  · rw [h2]
    rfl
  · rfl

end RpcResponseFrame

/-- What `SendRpcResponse` sends for a call; `serialized` is what `SerializeToString` gives for the
response, if it succeeds. -/
def RpcProvider.sendRpcResponse {ρ : Type} (ctx : RpcCallContext ρ) (serialized : Option Bytes) :
    Option Bytes :=
  serialized.bind fun responsePayload =>
    let frameBody :=
      RpcResponseFrame.serialize { request_id := ctx.requestId, payload := responsePayload }
    -- a message of more than `INT_MAX` bytes cannot be serialized
    if 2 ^ 31 ≤ frameBody.length then none else some (wireString frameBody)

namespace MrpcchannelMultiReq

/-! ### `recvLoop` -/

/-- The loop of `recvVarint32`, with `k` bytes left; `shift` is `7 * i`. -/
def recvVarint32Loop : ℕ → ℕ → ℕ → Socket UInt8 → Option (ℕ × Socket UInt8)
  | 0, _, _, _ => none
  | k + 1, i, value, socket =>
    (recvExact socket 1).bind fun (read, socket) =>
      read.head?.bind fun byte =>
        let value := value ||| (byte.toNat &&& 0x7f) <<< (7 * i) % 2 ^ 32
        if byte.toNat &&& 0x80 = 0 then some (value, socket)
        else recvVarint32Loop k (i + 1) value socket

/-- `recvVarint32`. -/
def recvVarint32 (socket : Socket UInt8) : Option (ℕ × Socket UInt8) :=
  recvVarint32Loop 5 0 0 socket

/-- What `recvLoop` reads in a round; none when it closes the connection. -/
def recvFrame (socket : Socket UInt8) : Option (RpcResponseFrame × Socket UInt8) :=
  (recvVarint32 socket).bind fun (frameSize, socket) =>
    if frameSize = 0 ∨ frameSize > kMaxFrameSize then none
    else
      (recvExact socket frameSize).bind fun (frameBody, socket) =>
        (RpcResponseFrame.parse frameBody).map fun frame => (frame, socket)

/-- A round of `recvLoop` on an open connection. -/
def recvRound (parses : ℕ → Bytes → Bool) (s : MrpcchannelMultiReq) (socket : Socket UInt8) :
    Option (MrpcchannelMultiReq × Socket UInt8) :=
  match recvFrame socket with
  | none => (s.step parses (.recv none)).map fun s => (s, [])
  | some (frame, socket) =>
    (s.step parses (.recv (some (frame.request_id, frame.payload)))).map fun s => (s, socket)

/-- `recvVarint32` reads what is left of a length. -/
lemma recvVarint32Loop_reading {n i k value : ℕ} {left behind : Bytes} {socket : Socket UInt8}
    (h : Reading n i value left) (hn : n < 2 ^ 32) (hk : i + k = 5)
    (hsocket : stream socket = left ++ behind) :
    ∃ rest, recvVarint32Loop k i value socket = some (n, rest) ∧ stream rest = behind := by
  induction k generalizing i value left socket with
  | zero =>
    obtain ⟨hi, -⟩ := h.step hn
    omega
  | succ k ih =>
    obtain ⟨-, byte, left', rfl, hstep⟩ := h.step hn
    obtain ⟨rest, hread, hrest⟩ := recvExact_append [byte] hsocket
    rw [List.length_singleton] at hread
    rw [recvVarint32Loop, hread, Option.bind_some]
    dsimp only
    rw [List.head?_cons, Option.bind_some]
    obtain ⟨hzero, rfl, hvalue⟩ | ⟨hzero, hnext⟩ := hstep
    · refine ⟨rest, ?_, hrest⟩
      rw [if_pos hzero, hvalue]
    · obtain ⟨rest', hloop, hrest'⟩ := ih hnext (by omega) hrest
      refine ⟨rest', ?_, hrest'⟩
      rw [if_neg hzero, hloop]

/-- The length in front of a frame is read, in whatever parts it arrives. -/
lemma recvVarint32_wireString {body behind : Bytes} {socket : Socket UInt8}
    (hbody : body.length < 2 ^ 32) (hsocket : stream socket = wireString body ++ behind) :
    ∃ rest, recvVarint32 socket = some (body.length, rest) ∧ stream rest = body ++ behind := by
  rw [wireString, Nat.mod_eq_of_lt hbody, List.append_assoc] at hsocket
  exact recvVarint32Loop_reading (.start hbody) hbody rfl hsocket

variable {ρ : Type} {parses : ℕ → Bytes → Bool} {s : MrpcchannelMultiReq} {pending : PendingCall}
  {payload wire behind : Bytes} {socket : Socket UInt8}

/-- A response frame that is not too large and not empty is read, and nothing behind it. -/
lemma recvFrame_wireString {frame : RpcResponseFrame} (hid : frame.request_id < 2 ^ 64)
    (hsize : FrameSize frame.serialize) (hsocket : stream socket = wireString frame.serialize ++ behind) :
    ∃ rest, recvFrame socket = some (frame, rest) ∧ stream rest = behind := by
  obtain ⟨hpos, hmax⟩ := hsize
  have hlt : frame.serialize.length < 2 ^ 31 := by
    rw [kMaxFrameSize] at hmax
    omega
  obtain ⟨socket', hlength, hsocket'⟩ := recvVarint32_wireString (by omega) hsocket
  obtain ⟨rest, hbody, hrest⟩ := recvExact_append _ hsocket'
  have hparse := RpcResponseFrame.parse_serialize hid (Nat.lt_of_le_of_lt frame.length_payload_le hlt)
  refine ⟨rest, ?_, hrest⟩
  rw [recvFrame, hlength, Option.bind_some]
  dsimp only
  rw [if_neg (by omega), hbody, Option.bind_some]
  dsimp only
  rw [hparse, Option.map_some]

/-- A length of zero is an error. -/
lemma recvFrame_nil (hsocket : stream socket = wireString [] ++ behind) : recvFrame socket = none := by
  obtain ⟨socket', hlength, -⟩ := recvVarint32_wireString (by decide) hsocket
  rw [recvFrame, hlength, Option.bind_some]
  exact if_pos (.inl rfl)

/-- `recvLoop` decodes the frame of a response, and the worker completes the pending call with its
payload; nothing else changes, and what is behind the frame stays in the stream. -/
def Reaches (parses : ℕ → Bytes → Bool) (s : MrpcchannelMultiReq) (pending : PendingCall)
    (payload : Bytes) (socket : Socket UInt8) (behind : Bytes) : Prop :=
  ∃ rest t, recvFrame socket = some ({ request_id := pending.requestId, payload }, rest) ∧
    stream rest = behind ∧ s.recvRound parses socket = some (t, rest) ∧
    t = { s with
      frames := s.frames ++ [(pending.requestId, payload)]
      pendings := s.pendings.erase pending
      tasks := s.tasks ++ [(pending, payload)] } ∧
    t.complete parses s.tasks.length = some { t with
      tasks := s.tasks
      ran := s.ran ++
        [{ call := pending, ok := pending.controll ∉ s.failed, payload := some payload }] }

/-- The last task is taken. -/
lemma complete_last {t : MrpcchannelMultiReq} {tasks : List (PendingCall × Bytes)}
    (htasks : t.tasks = tasks ++ [(pending, payload)]) (hparses : parses pending.controll payload = true) :
    t.complete parses tasks.length = some { t with
      tasks
      ran := t.ran ++
        [{ call := pending, ok := pending.controll ∉ t.failed, payload := some payload }] } := by
  have herase : t.tasks.eraseIdx tasks.length = tasks := by
    rw [htasks, List.eraseIdx_append_of_length_le (Nat.le_refl _), Nat.sub_self]
    exact List.append_nil _
  have hlast : t.tasks[tasks.length]? = some (pending, payload) := by
    rw [htasks, List.getElem?_append_right (Nat.le_refl _), Nat.sub_self]
    rfl
  rw [complete, hlast, Option.bind_some]
  simp only [hparses, if_true, herase]

/-- The response to a pending call reaches it, however its bytes are cut, if and only if the id of the
call is not zero or the response has any bytes. -/
theorem reaches_iff (ctx : RpcCallContext ρ) (hid : ctx.requestId < 2 ^ 64)
    (hsize : (RpcResponseFrame.serialize { request_id := ctx.requestId, payload }).length ≤ kMaxFrameSize)
    (hsend : RpcProvider.sendRpcResponse ctx (some payload) = some wire)
    (hsocket : stream socket = wire ++ behind)
    (hpending : s.pendings.find? (·.requestId = ctx.requestId) = some pending)
    (hparses : parses pending.controll payload = true)
    (hfailing : s.failing .recipient = none) (hconnecting : s.connecting = none) :
    s.Reaches parses pending payload socket behind ↔ ctx.requestId ≠ 0 ∨ payload ≠ [] := by
  have hown : pending.requestId = ctx.requestId := by simpa using List.find?_some hpending
  have hwire : wire =
      wireString (RpcResponseFrame.serialize { request_id := ctx.requestId, payload }) := by
    rw [RpcProvider.sendRpcResponse, Option.bind_some] at hsend
    dsimp only at hsend
    split_ifs at hsend
    exact (Option.some.inj hsend).symm
  rw [hwire] at hsocket
  constructor
  · rintro ⟨rest, t, hread, -⟩
    by_contra hdefault
    rw [not_or, not_not, not_not] at hdefault
    rw [RpcResponseFrame.serialize_eq_nil_iff.mpr hdefault] at hsocket
    rw [recvFrame_nil hsocket] at hread
    cases hread
  · intro hsome
    have hpos : 0 < (RpcResponseFrame.serialize
        { request_id := ctx.requestId, payload }).length := by
      refine List.length_pos_iff.mpr fun hnil => ?_
      obtain ⟨hzero, hempty⟩ := RpcResponseFrame.serialize_eq_nil_iff.mp hnil
      exact hsome.elim (absurd hzero) (absurd hempty)
    obtain ⟨rest, hread, hrest⟩ := recvFrame_wireString hid ⟨hpos, hsize⟩ hsocket
    rw [← hown] at hread hpending
    refine ⟨rest, _, hread, hrest, ?_, rfl, complete_last rfl hparses⟩
    have hbusy : ¬ ((s.failing .recipient).isSome ∨ s.connecting.isSome) := by
      rw [hfailing, hconnecting]
      rintro (h | h) <;> cases h
    rw [recvRound, hread]
    dsimp only
    rw [step, if_neg hbusy, completeResponse]
    simp only [hpending, Option.map_some]

/-- The response `[16, 1]` to the second of three calls, in two parts and with more behind it. -/
theorem reaches_parts :
    let calls : List PendingCall := [⟨6, 0⟩, ⟨7, 1⟩, ⟨8, 2⟩]
    Reaches (fun _ _ => true) { clientFd := 3, pendings := calls } ⟨7, 1⟩ [16, 1]
      [.part [6, 8, 1], .interrupted, .part [18, 2, 16, 1, 5]] [5] :=
  (reaches_iff (⟨1, [], [], ()⟩ : RpcCallContext Unit) (by decide) (by decide) rfl rfl rfl rfl rfl rfl).mpr
    (.inl Nat.one_ne_zero)

/-- The first call on a connection, with a response of defaults: what `SendRpcResponse` sends is the
length zero, for which `recvLoop` closes the connection and fails this call and every other one. -/
theorem exists_not_reaches :
    let s : MrpcchannelMultiReq := { clientFd := 3, pendings := [⟨6, 0⟩, ⟨7, 1⟩] }
    RpcProvider.sendRpcResponse (⟨0, [], [], ()⟩ : RpcCallContext Unit) (some []) = some [0] ∧
      ¬ s.Reaches (fun _ _ => true) ⟨6, 0⟩ [] [.part [0]] [] ∧
      ∃ t, s.recvRound (fun _ _ => true) [.part [0]] = some (t, []) ∧ t.clientFd = -1 ∧
        ∃ u ∈ runIf (step fun _ _ => true) (fun _ _ => True) t
          [.failAllPending .recipient, .failAllPending .recipient, .failAllPending .recipient],
          u.pendings = [] ∧ u.failed = [6, 7] ∧ u.ran.map (·.ok) = [false, false] := by
  refine ⟨rfl, ?_, _, rfl, rfl, by decide⟩
  rintro ⟨rest, t, hread, -⟩
  cases hread

end MrpcchannelMultiReq

end KVCacheRaft
