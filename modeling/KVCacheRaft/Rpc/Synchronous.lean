import Mathlib.Data.List.Nodup
import Mathlib.Data.List.Perm.Basic
import KVCacheRaft.Machine.Runs
import KVCacheRaft.Rpc.Responses

/-!
# Synchronous calls

`CallMethodImplFrame` of `Mrpcchannel` (`rpc/mrpcchannel.cc`) sends a request and reads the next frame on
its connection as the response; the id in the frame is not compared. Whatever goes wrong between the
first byte sent and the last byte read closes the connection, and whatever goes wrong before or afterwards
leaves nothing under way. A provider answers the requests of all connections when it likes.
-/

namespace KVCacheRaft

open Codecs Machine

/-- How far a `CallMethodImplFrame` is. -/
inductive CallStage where
  /-- there is no call -/
  | idle
  /-- `left` is to be sent -/
  | sending (requestId : ℕ) (left : Bytes)
  /-- in `recvVarint32`, before the byte `i` -/
  | recvVarint32 (requestId i value : ℕ)
  /-- in `recvExact`, with a part of the frame -/
  | recvBody (requestId frameSize : ℕ) (received : Bytes)
deriving DecidableEq

/-- A channel, and what the provider does with its connections. -/
structure Mrpcchannel where
  /-- the number of the connection; none for -1 -/
  clientFd : Option ℕ := none
  request_id : ℕ := 0
  stage : CallStage := .idle
  /-- the calls that have returned without `SetFailed`: the id of the request, and what the response was
  parsed from -/
  returned : List (ℕ × Bytes) := []
  /-- how many connections there were -/
  connections : ℕ := 0
  /-- the connections and ids of the requests that have arrived and are not answered -/
  unanswered : List (ℕ × ℕ) := []
  /-- what was sent to the channel on each connection and is not read -/
  streams : ℕ → Bytes := fun _ => []
  /-- the frames that were sent for the requests -/
  answers : List (ℕ × Bytes) := []

namespace Mrpcchannel

inductive Event where
  /-- the next call, with what `SerializePartialToString` gives for its request; `connects` is whether a
  `newConnect` succeeds -/
  | callMethod (connects : Bool) (service_name method_name : Bytes) (args_str : Option Bytes)
  /-- `send` takes `n` bytes; an error or a timeout for 0 -/
  | send (n : ℕ)
  /-- `recv` gives `n` bytes; an error, a timeout or the end of the connection for 0 -/
  | recv (n : ℕ)
  /-- the provider sends a frame for a request -/
  | answer (fd requestId : ℕ) (frameBody : Bytes)

/-- The call closes the connection and returns with `SetFailed`. -/
def close (s : Mrpcchannel) : Mrpcchannel := { s with clientFd := none, stage := .idle }

/-- `newConnect`, if there is no connection. -/
def connect (s : Mrpcchannel) : Mrpcchannel :=
  match s.clientFd with
  | some _ => s
  | none => { s with clientFd := some s.connections, connections := s.connections + 1 }

/-- A call up to its first `send`. -/
def callMethod (s : Mrpcchannel) (service_name method_name : Bytes) (args_str : Option Bytes) :
    Mrpcchannel :=
  match args_str with
  | none => s
  | some args_str =>
    let frame : RpcRequestFrame :=
      { request_id := s.request_id, service_name, method_name, payload := args_str }
    let s := { s with request_id := s.request_id + 1 }
    -- a message of more than `INT_MAX` bytes cannot be serialized
    if 2 ^ 31 ≤ frame.serialize.length then s
    else { s with stage := .sending frame.request_id (wireString frame.serialize) }

/-- A round of the loop over `send`; the provider has a request when its last byte was sent. -/
def send (s : Mrpcchannel) (fd requestId : ℕ) (left : Bytes) (n : ℕ) : Option Mrpcchannel :=
  if n = 0 then some s.close
  else if left.length < n then none
  else if left.length = n then
    some { s with
      unanswered := s.unanswered ++ [(fd, requestId)]
      stage := .recvVarint32 requestId 0 0 }
  else some { s with stage := .sending requestId (left.drop n) }

/-- The byte `i` of the length; behind the last one its value is checked. -/
def recvByte (s : Mrpcchannel) (fd requestId i value : ℕ) : Option Mrpcchannel :=
  match s.streams fd with
  | [] => none
  | byte :: rest =>
    let s := { s with streams := Function.update s.streams fd rest }
    let value := value ||| (byte.toNat &&& 0x7f) <<< (7 * i) % 2 ^ 32
    if byte.toNat &&& 0x80 = 0 then
      if value = 0 ∨ value > kMaxFrameSize then some s.close
      else some { s with stage := .recvBody requestId value [] }
    else if i + 1 < 5 then some { s with stage := .recvVarint32 requestId (i + 1) value }
    else some s.close

/-- The call returns after its frame was read; `parse` is `ParseFromString` of `RpcResponseFrame`, and
`parses` is whether the response can be parsed. -/
def finish (parse : Bytes → Option RpcResponseFrame) (parses : ℕ → Bytes → Bool)
    (s : Mrpcchannel) (requestId : ℕ) (frameBody : Bytes) : Mrpcchannel :=
  let s := { s with stage := .idle }
  match parse frameBody with
  | none => s
  | some frame =>
    if parses requestId frame.payload then
      { s with returned := s.returned ++ [(requestId, frame.payload)] }
    else s

/-- A round of `recvExact` in the frame. -/
def recvPart (parse : Bytes → Option RpcResponseFrame) (parses : ℕ → Bytes → Bool)
    (s : Mrpcchannel) (fd requestId frameSize : ℕ) (received : Bytes) (n : ℕ) : Option Mrpcchannel :=
  if (s.streams fd).length < n ∨ frameSize < received.length + n then none
  else
    let frameBody := received ++ (s.streams fd).take n
    let s := { s with streams := Function.update s.streams fd ((s.streams fd).drop n) }
    if frameBody.length = frameSize then some (s.finish parse parses requestId frameBody)
    else some { s with stage := .recvBody requestId frameSize frameBody }

/-- What an event does; none when it cannot happen. -/
def step (parse : Bytes → Option RpcResponseFrame) (parses : ℕ → Bytes → Bool)
    (s : Mrpcchannel) : Event → Option Mrpcchannel
  | .callMethod connects service_name method_name args_str =>
    match s.stage with
    | .idle =>
      if s.clientFd = none ∧ connects = false then some s
      else some (s.connect.callMethod service_name method_name args_str)
    | _ => none
  | .send n => s.clientFd.bind fun fd =>
    match s.stage with
    | .sending requestId left => s.send fd requestId left n
    | _ => none
  | .recv n => s.clientFd.bind fun fd =>
    match s.stage with
    | .recvVarint32 requestId i value =>
      match n with
      | 0 => some s.close
      | 1 => s.recvByte fd requestId i value
      | _ => none
    | .recvBody requestId frameSize received =>
      if n = 0 then some s.close
      else s.recvPart parse parses fd requestId frameSize received n
    | _ => none
  -- what is sent on a connection that was closed is not read by anyone
  | .answer fd requestId frameBody =>
    if (fd, requestId) ∈ s.unanswered ∧ frameBody.length < 2 ^ 31 then
      some { s with
        unanswered := s.unanswered.erase (fd, requestId)
        streams := Function.update s.streams fd (s.streams fd ++ wireString frameBody)
        answers := s.answers ++ [(requestId, frameBody)] }
    else none

variable {parse : Bytes → Option RpcResponseFrame} {parses : ℕ → Bytes → Bool}
  {s t : Mrpcchannel} {fd id i value n : ℕ}

/-! ### What is under way -/

/-- No request and no frame is under way on a connection. -/
def Quiet (s : Mrpcchannel) (fd : ℕ) : Prop :=
  s.streams fd = [] ∧ ∀ id, (fd, id) ∉ s.unanswered

/-- The frame for a request was sent, and `left` of its length is to be read. -/
def Arriving (s : Mrpcchannel) (fd id i value : ℕ) : Prop :=
  (∀ id, (fd, id) ∉ s.unanswered) ∧ ∃ frameBody left, (id, frameBody) ∈ s.answers ∧
    frameBody.length < 2 ^ 31 ∧ Reading frameBody.length i value left ∧
    s.streams fd = left ++ frameBody

/-- Of what a call may read, all belongs to its own request. -/
def Awaits (s : Mrpcchannel) (fd : ℕ) : CallStage → Prop
  | .idle => s.Quiet fd
  | .sending _ _ => s.Quiet fd
  | .recvVarint32 id i value =>
    (s.streams fd = [] ∧ i = 0 ∧ value = 0 ∧ ∀ id', (fd, id') ∈ s.unanswered → id' = id) ∨
      s.Arriving fd id i value
  | .recvBody id frameSize received =>
    (∀ id, (fd, id) ∉ s.unanswered) ∧ ∃ frameBody, (id, frameBody) ∈ s.answers ∧
      frameBody.length = frameSize ∧ received ++ s.streams fd = frameBody

/-- The id of a request that has not arrived. -/
def stageIds : CallStage → List ℕ
  | .sending id _ => [id]
  | .idle | .recvVarint32 _ _ _ | .recvBody _ _ _ => []

/-- The ids of all requests that have arrived or may arrive. -/
def requestIds (s : Mrpcchannel) : List ℕ :=
  s.answers.map (·.1) ++ (s.unanswered.map (·.2) ++ stageIds s.stage)

/-- The response of a call was parsed from the frame that was sent for its request. -/
def OwnFrame (parse : Bytes → Option RpcResponseFrame) (s : Mrpcchannel) (id : ℕ)
    (payload : Bytes) : Prop :=
  ∃ frameBody frame, (id, frameBody) ∈ s.answers ∧ parse frameBody = some frame ∧
    frame.payload = payload

structure Inv (parse : Bytes → Option RpcResponseFrame) (s : Mrpcchannel) : Prop where
  fd_lt : ∀ fd ∈ s.clientFd, fd < s.connections
  unanswered_lt : ∀ x ∈ s.unanswered, x.1 < s.connections
  unused : ∀ fd, s.connections ≤ fd → s.streams fd = []
  nodup : s.requestIds.Nodup
  ids_lt : ∀ id ∈ s.requestIds, id < s.request_id
  awaits : ∀ fd ∈ s.clientFd, s.Awaits fd s.stage
  returned : ∀ x ∈ s.returned, s.OwnFrame parse x.1 x.2

/-- Closing the connection makes no new ids. -/
lemma requestIds_close (s : Mrpcchannel) : s.close.requestIds.Sublist s.requestIds :=
  List.Sublist.append_left (List.Sublist.append_left (List.nil_sublist _) _) _

/-- Closing the connection keeps the invariant. -/
lemma Inv.close (h : s.Inv parse) : s.close.Inv parse where
  fd_lt := fun _ hfd => by cases hfd
  unanswered_lt := h.unanswered_lt
  unused := h.unused
  nodup := h.nodup.sublist s.requestIds_close
  ids_lt := fun id hid => h.ids_lt id (s.requestIds_close.subset hid)
  awaits := fun _ hfd => by cases hfd
  returned := h.returned

/-- A connection that was not used is quiet. -/
lemma Inv.quiet (h : s.Inv parse) (hfd : s.connections ≤ fd) : s.Quiet fd :=
  ⟨h.unused fd hfd, fun _ hid => Nat.not_le_of_lt (h.unanswered_lt _ hid) hfd⟩

/-- A new connection keeps the invariant. -/
lemma Inv.connect (h : s.Inv parse) (hidle : s.stage = .idle) :
    s.connect.Inv parse ∧ s.connect.stage = .idle := by
  rw [Mrpcchannel.connect]
  cases hfd : s.clientFd with
  | some fd => exact ⟨h, hidle⟩
  | none =>
    refine ⟨⟨?_, fun x hx => Nat.lt_succ_of_lt (h.unanswered_lt x hx),
      fun fd hle => h.unused fd (Nat.le_of_succ_le hle), h.nodup, h.ids_lt, ?_, h.returned⟩, hidle⟩
    · rintro _ ⟨⟩
      exact Nat.lt_succ_self _
    · rintro _ ⟨⟩
      simp only [hidle]
      exact h.quiet (Nat.le_refl _)

/-- A call that begins keeps the invariant. -/
lemma Inv.callMethod (h : s.Inv parse) (hidle : s.stage = .idle)
    (service_name method_name : Bytes) (args_str : Option Bytes) :
    (s.callMethod service_name method_name args_str).Inv parse := by
  cases args_str with
  | none => exact h
  | some args_str =>
    have hnext : Inv parse { s with request_id := s.request_id + 1 } :=
      ⟨h.fd_lt, h.unanswered_lt, h.unused, h.nodup, fun id hid => Nat.lt_succ_of_lt (h.ids_lt id hid),
        h.awaits, h.returned⟩
    rw [Mrpcchannel.callMethod]
    split_ifs with hlarge
    · exact hnext
    · have hids : s.requestIds = s.answers.map (·.1) ++ s.unanswered.map (·.2) := by
        rw [requestIds, hidle, stageIds, List.append_nil]
      refine ⟨h.fd_lt, h.unanswered_lt, h.unused, ?_, fun id hid => ?_, fun fd hfd => ?_, h.returned⟩
      · rw [requestIds, stageIds, ← List.append_assoc, ← hids]
        refine List.nodup_append.mpr ⟨h.nodup, List.nodup_singleton _, ?_⟩
        rintro id hid _ hlast rfl
        obtain rfl := List.mem_singleton.mp hlast
        exact Nat.lt_irrefl _ (h.ids_lt _ hid)
      · rw [requestIds, stageIds, ← List.append_assoc, ← hids] at hid
        obtain hid | hid := List.mem_append.mp hid
        · exact Nat.lt_succ_of_lt (h.ids_lt id hid)
        · obtain rfl := List.mem_singleton.mp hid
          exact Nat.lt_succ_self _
      · have hquiet := h.awaits fd hfd
        rw [hidle] at hquiet
        exact hquiet

/-- A request goes out, or the connection is closed. -/
lemma Inv.send (h : s.Inv parse) {left : Bytes} (hstage : s.stage = .sending id left)
    (hfd : s.clientFd = some fd) (hs : s.send fd id left n = some t) : t.Inv parse := by
  rw [Mrpcchannel.send] at hs
  split_ifs at hs with hzero hmore hall
  · obtain rfl := Option.some.inj hs
    exact h.close
  · obtain rfl := Option.some.inj hs
    have hquiet := h.awaits fd hfd
    rw [hstage] at hquiet
    have hids : requestIds { s with
        unanswered := s.unanswered ++ [(fd, id)]
        stage := .recvVarint32 id 0 0 } = s.requestIds := by
      rw [requestIds, requestIds, hstage, stageIds, stageIds, List.map_append, List.append_nil]
      rfl
    refine ⟨h.fd_lt, fun x hx => ?_, h.unused, hids ▸ h.nodup, hids ▸ h.ids_lt, ?_, h.returned⟩
    · obtain hx | hx := List.mem_append.mp hx
      · exact h.unanswered_lt x hx
      · obtain rfl := List.mem_singleton.mp hx
        exact h.fd_lt fd hfd
    · rintro fd' hfd'
      obtain rfl := Option.some.inj (hfd.symm.trans hfd')
      refine .inl ⟨hquiet.1, rfl, rfl, fun id' hid' => ?_⟩
      obtain hid' | hid' := List.mem_append.mp hid'
      · exact absurd hid' (hquiet.2 id')
      · exact (Prod.mk.inj (List.mem_singleton.mp hid')).2
  · obtain rfl := Option.some.inj hs
    have hids : requestIds { s with stage := .sending id (left.drop n) } = s.requestIds := by
      rw [requestIds, requestIds, hstage]
      rfl
    refine ⟨h.fd_lt, h.unanswered_lt, h.unused, hids ▸ h.nodup, hids ▸ h.ids_lt, fun fd' hfd' => ?_,
      h.returned⟩
    have hquiet := h.awaits fd' hfd'
    rw [hstage] at hquiet
    exact hquiet

/-- A stream that is used leaves the unused ones empty. -/
lemma Inv.unused_update (h : s.Inv parse) (hlt : fd < s.connections) (stream : Bytes) :
    ∀ fd', s.connections ≤ fd' → Function.update s.streams fd stream fd' = [] := by
  intro fd' hle
  have hne : fd' ≠ fd := fun heq => Nat.not_le_of_lt hlt (heq ▸ hle)
  exact (Function.update_of_ne hne _ _).trans (h.unused fd' hle)

/-- A call has read some bytes and goes on. -/
lemma Inv.read (h : s.Inv parse) (hfd : s.clientFd = some fd) (hstage : stageIds s.stage = [])
    (rest : Bytes) (stage : CallStage) (hstage' : stageIds stage = [])
    (hawaits : Awaits { s with streams := Function.update s.streams fd rest } fd stage) :
    Inv parse { s with streams := Function.update s.streams fd rest, stage } := by
  have hids : requestIds { s with streams := Function.update s.streams fd rest, stage } = s.requestIds := by
    rw [requestIds, requestIds, hstage, hstage']
  refine ⟨h.fd_lt, h.unanswered_lt, h.unused_update (h.fd_lt fd hfd) rest, hids ▸ h.nodup,
    hids ▸ h.ids_lt, fun fd' hfd' => ?_, h.returned⟩
  obtain rfl := Option.some.inj (hfd.symm.trans hfd')
  cases stage <;> exact hawaits

/-- A call has read some bytes and closes the connection. -/
lemma Inv.read_close (h : s.Inv parse) (hfd : s.clientFd = some fd) (rest : Bytes) :
    Inv parse (Mrpcchannel.close { s with streams := Function.update s.streams fd rest }) where
  fd_lt := h.close.fd_lt
  unanswered_lt := h.unanswered_lt
  unused := h.unused_update (h.fd_lt fd hfd) rest
  nodup := h.close.nodup
  ids_lt := h.close.ids_lt
  awaits := fun _ hfd => by cases hfd
  returned := h.returned

/-- A byte of the length that is read keeps the invariant. -/
lemma Inv.recvByte (h : s.Inv parse) (hstage : s.stage = .recvVarint32 id i value)
    (hfd : s.clientFd = some fd) (hs : s.recvByte fd id i value = some t) : t.Inv parse := by
  have hids : stageIds s.stage = [] := by rw [hstage, stageIds]
  have hawaits := h.awaits fd hfd
  rw [hstage] at hawaits
  rw [Mrpcchannel.recvByte] at hs
  cases hstream : s.streams fd with
  | nil =>
    rw [hstream] at hs
    cases hs
  | cons byte rest =>
    rw [hstream] at hs
    dsimp only at hs
    obtain ⟨hempty, -⟩ | ⟨hanswered, frameBody, left, hmem, hlt, hreading, hleft⟩ := hawaits
    · -- nothing was sent for the request
      rw [hempty] at hstream
      cases hstream
    obtain ⟨hi, byte', left', rfl, hstep⟩ := hreading.step (by omega)
    rw [hstream, List.cons_append] at hleft
    obtain ⟨rfl, rfl⟩ := List.cons.inj hleft
    have hself : Function.update s.streams fd (left' ++ frameBody) fd = left' ++ frameBody :=
      Function.update_self ..
    obtain ⟨hzero, rfl, hvalue⟩ | ⟨hzero, hnext⟩ := hstep
    · rw [if_pos hzero, hvalue] at hs
      split_ifs at hs with hsize
      · obtain rfl := Option.some.inj hs
        exact h.read_close hfd _
      · obtain rfl := Option.some.inj hs
        exact h.read hfd hids _ _ rfl ⟨hanswered, frameBody, hmem, rfl, hself⟩
    · rw [if_neg hzero] at hs
      split_ifs at hs with hmore
      · obtain rfl := Option.some.inj hs
        exact h.read hfd hids _ _ rfl (.inr ⟨hanswered, frameBody, left', hmem, hlt, hnext, hself⟩)
      · obtain rfl := Option.some.inj hs
        exact h.read_close hfd _

/-- What a call returns comes from the frame that it has read. -/
lemma Inv.finish (h : Inv parse { s with stage := .idle }) {frameBody : Bytes}
    (hmem : (id, frameBody) ∈ s.answers) : (s.finish parse parses id frameBody).Inv parse := by
  rw [Mrpcchannel.finish]
  dsimp only
  cases hparse : parse frameBody with
  | none => exact h
  | some frame =>
    dsimp only
    split_ifs with hparses
    · refine ⟨h.fd_lt, h.unanswered_lt, h.unused, h.nodup, h.ids_lt, h.awaits, fun x hx => ?_⟩
      obtain hx | hx := List.mem_append.mp hx
      · exact h.returned x hx
      · obtain rfl := List.mem_singleton.mp hx
        exact ⟨frameBody, frame, hmem, hparse, rfl⟩
    · exact h

/-- A call that has read its whole frame leaves nothing behind. -/
lemma Inv.recvPart (h : s.Inv parse) {frameSize : ℕ} {received : Bytes}
    (hstage : s.stage = .recvBody id frameSize received) (hfd : s.clientFd = some fd)
    (hs : s.recvPart parse parses fd id frameSize received n = some t) : t.Inv parse := by
  have hids : stageIds s.stage = [] := by rw [hstage, stageIds]
  have hawaits := h.awaits fd hfd
  rw [hstage] at hawaits
  obtain ⟨hanswered, frameBody, hmem, hlen, hbody⟩ := hawaits
  have hsplit : received ++ (s.streams fd).take n ++ (s.streams fd).drop n = frameBody := by
    rw [List.append_assoc, List.take_append_drop, hbody]
  have hself : Function.update s.streams fd ((s.streams fd).drop n) fd = (s.streams fd).drop n :=
    Function.update_self ..
  rw [Mrpcchannel.recvPart] at hs
  dsimp only at hs
  split_ifs at hs with hmore hwhole
  · obtain rfl := Option.some.inj hs
    have hrest : (s.streams fd).drop n = [] := by
      have hcount := congrArg List.length hsplit
      rw [List.length_append, hwhole, hlen] at hcount
      exact List.length_eq_zero_iff.mp (by omega)
    have hread : received ++ (s.streams fd).take n = frameBody := by
      rw [← hsplit, hrest, List.append_nil]
    rw [hread]
    exact Inv.finish (h.read hfd hids _ .idle rfl ⟨hself.trans hrest, hanswered⟩) hmem
  · obtain rfl := Option.some.inj hs
    refine h.read hfd hids _ _ rfl ⟨hanswered, frameBody, hmem, hlen, ?_⟩
    exact (congrArg _ hself).trans hsplit

/-- What happens on other connections makes no difference to a call. -/
lemma Awaits.mono {stage : CallStage} (h : s.Awaits fd stage) (hstream : t.streams fd = s.streams fd)
    (hunanswered : ∀ id, (fd, id) ∈ t.unanswered → (fd, id) ∈ s.unanswered)
    (hanswers : ∀ x ∈ s.answers, x ∈ t.answers) : t.Awaits fd stage := by
  have hquiet : s.Quiet fd → t.Quiet fd := fun hquiet =>
    ⟨hstream.trans hquiet.1, fun id hid => hquiet.2 id (hunanswered id hid)⟩
  cases stage with
  | idle => exact hquiet h
  | sending id left => exact hquiet h
  | recvVarint32 id i value =>
    obtain ⟨hempty, hi, hvalue, hown⟩ | ⟨hanswered, frameBody, left, hmem, hlt, hreading, hleft⟩ := h
    · exact .inl ⟨hstream.trans hempty, hi, hvalue, fun id' hid' => hown id' (hunanswered id' hid')⟩
    · exact .inr ⟨fun id' hid' => hanswered id' (hunanswered id' hid'), frameBody, left, hanswers _ hmem,
        hlt, hreading, hstream.trans hleft⟩
  | recvBody id frameSize received =>
    obtain ⟨hanswered, frameBody, hmem, hlen, hbody⟩ := h
    exact ⟨fun id' hid' => hanswered id' (hunanswered id' hid'), frameBody, hanswers _ hmem, hlen,
      hstream.symm ▸ hbody⟩

/-- The request that a call waits for is answered: its frame begins with its length. -/
lemma Awaits.answer {stage : CallStage} {frameBody : Bytes} (h : s.Awaits fd stage)
    (hmem : (fd, id) ∈ s.unanswered) (hlt : frameBody.length < 2 ^ 31)
    (hstream : t.streams fd = s.streams fd ++ wireString frameBody)
    (hunanswered : ∀ id', (fd, id') ∈ t.unanswered → (fd, id') ∈ s.unanswered ∧ id' ≠ id)
    (hanswers : (id, frameBody) ∈ t.answers) : t.Awaits fd stage := by
  cases stage with
  | idle => exact absurd hmem (h.2 id)
  | sending id' left => exact absurd hmem (h.2 id)
  | recvVarint32 id' i value =>
    obtain ⟨hempty, rfl, rfl, hown⟩ | ⟨hanswered, -⟩ := h
    · obtain rfl := hown id hmem
      refine .inr ⟨fun id' hid' => ?_, frameBody, varint 5 frameBody.length, hanswers, hlt,
        .start (by omega), ?_⟩
      · obtain ⟨hid', hne⟩ := hunanswered id' hid'
        exact hne (hown id' hid')
      · rw [hstream, hempty, wireString, Nat.mod_eq_of_lt (by omega), List.nil_append]
    · exact absurd hmem (hanswered id)
  | recvBody id' frameSize received => exact absurd hmem (h.1 id)

/-- The provider sends a frame on the connection of the call that waits for it, or on one that was
closed. -/
lemma Inv.answer (h : s.Inv parse) {frameBody : Bytes} (hmem : (fd, id) ∈ s.unanswered)
    (hlt : frameBody.length < 2 ^ 31) :
    Inv parse { s with
      unanswered := s.unanswered.erase (fd, id)
      streams := Function.update s.streams fd (s.streams fd ++ wireString frameBody)
      answers := s.answers ++ [(id, frameBody)] } := by
  have hperm : (requestIds { s with
      unanswered := s.unanswered.erase (fd, id)
      streams := Function.update s.streams fd (s.streams fd ++ wireString frameBody)
      answers := s.answers ++ [(id, frameBody)] }).Perm s.requestIds := by
    have herase := ((List.perm_cons_erase hmem).map (·.2)).append_right (stageIds s.stage)
    rw [requestIds, requestIds, List.map_append, List.append_assoc]
    exact List.Perm.append_left _ herase.symm
  have hids : (s.unanswered.map (·.2)).Nodup :=
    (h.nodup.of_append_right).of_append_left
  have hne : ∀ id', (fd, id') ∈ s.unanswered.erase (fd, id) → id' ≠ id := by
    rintro _ hid' rfl
    exact hids.of_map.not_mem_erase hid'
  refine ⟨h.fd_lt, fun x hx => h.unanswered_lt x (List.mem_of_mem_erase hx),
    h.unused_update (h.unanswered_lt _ hmem) _, hperm.nodup_iff.mpr h.nodup,
    fun id' hid' => h.ids_lt id' (hperm.subset hid'), fun fd' hfd' => ?_, fun x hx => ?_⟩
  · by_cases hfd : fd' = fd
    · subst hfd
      exact (h.awaits fd' hfd').answer hmem hlt (Function.update_self ..)
        (fun id' hid' => ⟨List.mem_of_mem_erase hid', hne id' hid'⟩)
        (List.mem_append_right _ (List.mem_singleton_self _))
    · exact (h.awaits fd' hfd').mono (Function.update_of_ne hfd ..)
        (fun id' hid' => List.mem_of_mem_erase hid') (fun x hx => List.mem_append_left _ hx)
  · obtain ⟨frameBody', frame, hmem', hparse⟩ := h.returned x hx
    exact ⟨frameBody', frame, List.mem_append_left _ hmem', hparse⟩

/-! ### Runs -/

/-- Every step keeps the invariant. -/
lemma Inv.step (h : s.Inv parse) {e : Event} (hs : s.step parse parses e = some t) :
    t.Inv parse := by
  cases e with
  | callMethod connects service_name method_name args_str =>
    rw [Mrpcchannel.step] at hs
    split at hs
    · rename_i hstage
      split_ifs at hs with hfailed
      · obtain rfl := Option.some.inj hs
        exact h
      · obtain rfl := Option.some.inj hs
        obtain ⟨hconnect, hidle⟩ := h.connect hstage
        exact hconnect.callMethod hidle service_name method_name args_str
    · cases hs
  | send n =>
    obtain ⟨fd, hfd, hs⟩ := Option.bind_eq_some_iff.mp hs
    split at hs
    · rename_i hstage
      exact h.send hstage hfd hs
    · cases hs
  | recv n =>
    obtain ⟨fd, hfd, hs⟩ := Option.bind_eq_some_iff.mp hs
    split at hs
    · rename_i hstage
      split at hs
      · obtain rfl := Option.some.inj hs
        exact h.close
      · exact h.recvByte hstage hfd hs
      · cases hs
    · rename_i hstage
      split_ifs at hs with hzero
      · obtain rfl := Option.some.inj hs
        exact h.close
      · exact h.recvPart hstage hfd hs
    · cases hs
  | answer fd id frameBody =>
    rw [Mrpcchannel.step] at hs
    split_ifs at hs with hanswer
    obtain rfl := Option.some.inj hs
    exact h.answer hanswer.1 hanswer.2

/-- A channel that is made, with or without a connection. -/
def initial (connectNow : Bool) : Mrpcchannel := if connectNow then connect {} else {}

/-- The invariant holds at the start. -/
lemma inv_initial (connectNow : Bool) : (initial connectNow).Inv parse := by
  have hempty : Inv parse {} :=
    ⟨fun _ hfd => (by cases hfd), fun _ hx => (by cases hx), fun _ _ => rfl, .nil, fun _ hid => (by cases hid),
      fun _ hfd => (by cases hfd), fun _ hx => by cases hx⟩
  cases connectNow with
  | false => exact hempty
  | true => exact (hempty.connect rfl).1

/-- Whenever a call has returned without `SetFailed`, its response was parsed from the frame that was
sent for its own request, the only one for this request. -/
theorem returned_own {connectNow : Bool}
    (h : Run (step parse parses) (fun _ _ => True) (initial connectNow) s) :
    (∀ x ∈ s.returned, s.OwnFrame parse x.1 x.2) ∧ (s.answers.map (·.1)).Nodup := by
  have hinv : s.Inv parse := h.invariant (fun _ _ _ hu _ hstep => hu.step hstep) (inv_initial connectNow)
  exact ⟨hinv.returned, hinv.nodup.of_append_left⟩

/-- A call that times out, its frame on the connection that was closed, and a second call, whose frame
has some other id. -/
theorem returned_own_late : ∃ s,
    Run (step RpcResponseFrame.parse fun _ _ => true) (fun _ _ => True) (initial true) s ∧
      (s.answers = [(0, [18, 1, 9]), (1, [8, 7, 18, 1, 5])] ∧ s.returned = [(1, [5])]) ∧
      s.OwnFrame RpcResponseFrame.parse 1 [5] := by
  have hruns : ∃ s ∈ runIf (step RpcResponseFrame.parse fun _ _ => true) (fun _ _ => True)
      (initial true)
      [.callMethod true [115] [109] (some [1]), .send 10, .recv 0, .answer 0 0 [18, 1, 9],
        .callMethod true [115] [109] (some [1]), .send 5, .send 7, .answer 1 1 [8, 7, 18, 1, 5], .recv 1,
        .recv 2, .recv 3],
      s.answers = [(0, [18, 1, 9]), (1, [8, 7, 18, 1, 5])] ∧ s.returned = [(1, [5])] := by decide
  obtain ⟨s, hrun, hs⟩ := exists_run_of_runIf hruns
  have hown := (returned_own hrun).1 (1, [5]) (by rw [hs.2]; exact List.mem_singleton_self _)
  exact ⟨s, hrun, hs, hown⟩

end Mrpcchannel

end KVCacheRaft
