import KVCacheRaft.Rpc.Delivery

/-!
# A channel and a provider

The `MrpcchannelMultiReq` of one node and the `RpcProvider` of another, on one connection. The stubs make
calls on the channel at any time; bytes of requests and of responses arrive whenever they do and in
pieces of any size; the handlers of the provider run in any order. A call that completes well has the
response that its own request was answered with.
-/

namespace KVCacheRaft

open Codecs Framing Machine Sockets

/-- `SerializePartialToString` of a request. -/
def RpcRequest.serialized (request : RpcRequest) : Option Bytes :=
  request.1.request.serializeToString request.2

/-- A channel, a connection and the provider at its other end. -/
structure RpcSession where
  channel : MrpcchannelMultiReq
  /-- the requests that the stubs were given, by their controllers -/
  asked : List (ℕ × RpcRequest) := []
  /-- the task that has `m_sendMutex`, and how much of its string was sent -/
  sending : Option (ℕ × ℕ) := none
  /-- bytes that were sent and have not arrived -/
  requests : Bytes := []
  /-- the connection of the provider and its buffer -/
  conn : Connection RpcRequest × Bytes := ({}, [])
  /-- the tasks of the provider whose handler has run -/
  finished : List ℕ := []
  answers : List RpcAnswer := []
  /-- bytes that `recvLoop` has not read -/
  responses : Bytes := []

namespace RpcSession

inductive Event where
  /-- a stub registers a call -/
  | registerCall (controller : ℕ) (request : RpcRequest)
  /-- and calls its method -/
  | callMethod (controller : ℕ)
  | fetchAdd (thread : ℕ)
  | insert (thread : ℕ)
  | schedule (thread : ℕ)
  /-- a task of `m_sender` gets `m_sendMutex` -/
  | lock (task : ℕ)
  /-- `send` takes so many bytes -/
  | send (size : ℕ)
  /-- `sendAll` returns -/
  | sendAll (ok : Bool)
  /-- bytes arrive at the provider -/
  | arrive (size : ℕ)
  /-- a task of the provider runs, with what the services make of requests at that time -/
  | handle (task : ℕ) (handler : (method : RpcMethod) → method.Request → method.Response)
  /-- a round of `recvLoop`, with what has arrived at its socket -/
  | recv (socket : Socket UInt8)
  | failAllPending (loop : Loop)
  | complete (task : ℕ)

/-- `ParseFromString` of the response that a controller was registered with. -/
def parses (s : RpcSession) (controller : ℕ) (payload : Bytes) : Bool :=
  (s.asked.find? (·.1 = controller)).any fun a => (a.2.1.response.parse payload).isSome

/-- A step of the channel alone. -/
def onChannel (s : RpcSession) (e : MrpcchannelMultiReq.Event) : Option RpcSession :=
  (s.channel.step s.parses e).map fun channel => { s with channel }

/-- The handler of a call returns, and `SendRpcResponse` sends its response. -/
def answer (s : RpcSession) (a : RpcAnswer) : RpcSession :=
  { s with
    answers := s.answers ++ [a]
    responses := s.responses ++ (RpcProvider.sendRpcResponse a.call.context
      (a.call.method.response.serializeToString a.response)).getD [] }

/-- The call of a context. -/
def callOf (ctx : RpcCallContext RpcRequest) : RpcCall := ⟨ctx.requestId, ctx.request.1, ctx.request.2⟩

/-- What an event does; none when it cannot happen. There is no other connection after this one. -/
def step (s : RpcSession) : Event → Option RpcSession
  | .registerCall controller request =>
    (s.onChannel (.registerCall { controller, request := request.serialized })).map fun s =>
      { s with asked := s.asked ++ [(controller, request)] }
  | .callMethod controller =>
    (s.asked.find? (·.1 = controller)).bind fun a =>
      s.onChannel (.callMethod controller a.2.1.service_name a.2.1.method_name)
  | .fetchAdd k => s.onChannel (.fetchAdd k)
  | .insert k => s.onChannel (.insert k)
  | .schedule k => s.onChannel (.schedule k)
  | .lock task =>
    -- the task before this one keeps `m_sendMutex` until its `failAllPending` returns
    if s.sending.isSome ∨ (s.channel.failing .sender).isSome ∨ s.channel.sendTasks.length ≤ task then none
    else some { s with sending := some (task, 0) }
  | .send size =>
    s.sending.bind fun (task, sent) =>
      s.channel.sendTasks[task]?.bind fun wire =>
        if s.channel.clientFd = -1 ∨ wire.length < sent + size then none
        else some { s with
          requests := s.requests ++ (wire.drop sent).take size
          sending := some (task, sent + size) }
  | .sendAll ok =>
    s.sending.bind fun (task, sent) =>
      s.channel.sendTasks[task]?.bind fun wire =>
        if ok = true ↔ sent = wire.length then
          (s.onChannel (.sendAll task ok)).map fun s => { s with sending := none }
        else none
  | .arrive size =>
    if s.requests.length < size then none
    else some { s with
      conn := RpcProvider.ofKvServer.onMessage s.conn (s.requests.take size)
      requests := s.requests.drop size }
  | .handle task handler =>
    if task ∈ s.finished then none
    else s.conn.1.tasks[task]?.map fun ctx =>
      { s with finished := s.finished ++ [task] }.answer
        ⟨callOf ctx, handler ctx.request.1 ctx.request.2⟩
  | .recv socket =>
    if s.channel.clientFd ≠ -1 ∧ stream socket <+: s.responses then
      (s.channel.recvRound s.parses socket).map fun (channel, rest) =>
        { s with
          channel
          responses := s.responses.drop ((stream socket).length - (stream rest).length) }
    else none
  | .failAllPending loop => s.onChannel (.failAllPending loop)
  | .complete task => s.onChannel (.complete task)

/-- The call that a thread is about to send fits. -/
def Sendable (s : RpcSession) (t : CallThread) : Prop :=
  match t.phase with
  | .inserted requestId _ =>
    ∀ a ∈ s.asked, a.1 = t.controller → RpcCall.Fits ⟨requestId, a.2.1, a.2.2⟩
  | _ => True

/-- The channel is connected when `CallMethod` begins, and numbers and frames are not too large. -/
def Fits (s : RpcSession) : Event → Prop
  | .callMethod _ => s.channel.clientFd ≠ -1
  | .schedule k => ∀ t ∈ s.channel.threads[k]?, s.Sendable t
  | .handle task handler => ∀ ctx ∈ s.conn.1.tasks[task]?,
    ctx.request.1.response.Fits (handler ctx.request.1 ctx.request.2)
  | _ => True

def initial (fd : ℤ) : RpcSession := { channel := .initial fd }

variable {s t : RpcSession}

/-! ### What is on the way -/

/-- A call that was put into `m_pendings` with its request. -/
def Issued (s : RpcSession) (c : RpcCall) : Prop :=
  c.Fits ∧ ∃ controller, ⟨controller, c.request_id⟩ ∈ s.channel.inserted ∧
    (controller, ⟨c.method, c.request⟩) ∈ s.asked

/-- The calls in the maps of the channel and in its threads have requests. -/
structure Asked (s : RpcSession) : Prop where
  registered : s.asked.map (·.1) = s.channel.registered
  lifetime : ∀ ctx ∈ s.channel.rpc_calllifetime, ∃ request, (ctx.controller, request) ∈ s.asked ∧
    ctx.request = request.serialized
  threads : ∀ t ∈ s.channel.threads, ∃ request, (t.controller, request) ∈ s.asked ∧
    t.service_name = request.1.service_name ∧ t.method_name = request.1.method_name
  inserted : ∀ t ∈ s.channel.threads, ∀ requestId ctx, t.phase = .inserted requestId ctx →
    ⟨t.controller, requestId⟩ ∈ s.channel.inserted ∧
      ∃ request, (t.controller, request) ∈ s.asked ∧ ctx.request = request.serialized

/-- What the task with `m_sendMutex` has sent. -/
def partSent (s : RpcSession) : Bytes :=
  match s.sending with
  | some (task, sent) => (s.channel.sendTasks[task]?.getD []).take sent
  | none => []

/-- The provider gets the frames of calls, and of these only. -/
structure Flowing (s : RpcSession) : Prop where
  sendTasks : ∀ wire ∈ s.channel.sendTasks, ∃ c, s.Issued c ∧ wire = wireString c.frame.serialize
  sending : ∀ task sent, s.sending = some (task, sent) →
    ∃ wire, s.channel.sendTasks[task]? = some wire ∧ sent ≤ wire.length
  stream : ∃ (pieces : List Bytes) (calls : List RpcCall) (part : Bytes),
    s.conn = pieces.foldl RpcProvider.ofKvServer.onMessage ({}, []) ∧ (∀ c ∈ calls, s.Issued c) ∧
      pieces.flatten ++ s.requests = (calls.map (·.frame.serialize)).flatMap wireString ++ part ∧
      (part = [] ∨ ∃ c, s.Issued c ∧ part <+: wireString c.frame.serialize) ∧
      (s.channel.clientFd ≠ -1 → part = s.partSent)

/-- The channel gets the responses to calls, and these only. -/
structure Returning (s : RpcSession) : Prop where
  answers : ∀ a ∈ s.answers, s.Issued a.call ∧ a.call.method.response.Fits a.response
  unread : s.channel.clientFd ≠ -1 → ∃ unread : List RpcAnswer,
    (∀ a ∈ unread, a ∈ s.answers ∧ a.frame.serialize.length < 2 ^ 31) ∧
      s.responses = unread.flatMap fun a => wireString a.frame.serialize
  frames : ∀ f ∈ s.channel.frames, ∃ a ∈ s.answers, f = (a.call.request_id, a.payload)

structure Inv (s : RpcSession) : Prop where
  channel : s.channel.Inv
  asked : s.Asked
  flowing : s.Flowing
  returning : s.Returning

/-! ### What later steps do not touch -/

/-- A call that a stub has registered stays registered. -/
lemma Issued.mono {c : RpcCall} (h : s.Issued c) (hinserted : s.channel.inserted ⊆ t.channel.inserted)
    (hasked : s.asked ⊆ t.asked) : t.Issued c := by
  obtain ⟨hfits, controller, hins, hask⟩ := h
  exact ⟨hfits, controller, hinserted hins, hasked hask⟩

/-- What flows to the provider still does when calls are added and nothing is sent. -/
lemma Flowing.mono (h : s.Flowing) (hinserted : s.channel.inserted ⊆ t.channel.inserted)
    (hasked : s.asked ⊆ t.asked)
    (hsend : t.channel.sendTasks = s.channel.sendTasks) (hsending : t.sending = s.sending)
    (hconn : t.conn = s.conn) (hrequests : t.requests = s.requests)
    (hfd : t.channel.clientFd ≠ -1 → s.channel.clientFd ≠ -1) : t.Flowing where
  sendTasks wire hwire := by
    obtain ⟨c, hc, heq⟩ := h.sendTasks wire (hsend ▸ hwire)
    exact ⟨c, hc.mono hinserted hasked, heq⟩
  sending := by
    rw [hsending, hsend]
    exact h.sending
  stream := by
    obtain ⟨pieces, calls, part, hrun, hcalls, hstream, hpart, hopen⟩ := h.stream
    refine ⟨pieces, calls, part, hconn.trans hrun, fun c hc => (hcalls c hc).mono hinserted hasked,
      hrequests ▸ hstream, ?_, fun hfd' => ?_⟩
    · obtain rfl | ⟨c, hc, hpre⟩ := hpart
      · exact .inl rfl
      · exact .inr ⟨c, hc.mono hinserted hasked, hpre⟩
    · rw [hopen (hfd hfd'), partSent, partSent, hsending, hsend]

/-- What comes back still does when calls are added and nothing is answered. -/
lemma Returning.mono (h : s.Returning) (hinserted : s.channel.inserted ⊆ t.channel.inserted)
    (hasked : s.asked ⊆ t.asked)
    (hanswers : t.answers = s.answers) (hresponses : t.responses = s.responses)
    (hframes : ∀ f ∈ t.channel.frames, ∃ a ∈ s.answers, f = (a.call.request_id, a.payload))
    (hfd : t.channel.clientFd ≠ -1 → s.channel.clientFd ≠ -1) : t.Returning where
  answers a ha := by
    obtain ⟨hc, hfits⟩ := h.answers a (hanswers ▸ ha)
    exact ⟨hc.mono hinserted hasked, hfits⟩
  unread hopen := by
    rw [hanswers, hresponses]
    exact h.unread (hfd hopen)
  frames := by
    rw [hanswers]
    exact hframes

/-- Steps of the channel that leave calls, threads, strings and frames alone. -/
lemma Inv.keep (h : s.Inv) {c : MrpcchannelMultiReq} (hc : c.Inv)
    (hregistered : c.registered = s.channel.registered)
    (hlifetime : c.rpc_calllifetime = s.channel.rpc_calllifetime)
    (hthreads : c.threads = s.channel.threads) (hinserted : c.inserted = s.channel.inserted)
    (hsend : c.sendTasks = s.channel.sendTasks)
    (hframes : ∀ f ∈ c.frames, ∃ a ∈ s.answers, f = (a.call.request_id, a.payload))
    (hfd : c.clientFd ≠ -1 → s.channel.clientFd ≠ -1) : Inv { s with channel := c } := by
  have hsub : s.channel.inserted ⊆ c.inserted := fun _ hp => hinserted ▸ hp
  refine ⟨hc, ⟨?_, ?_, ?_, ?_⟩, h.flowing.mono hsub (List.Subset.refl _) hsend rfl rfl rfl hfd,
    h.returning.mono hsub (List.Subset.refl _) rfl rfl hframes hfd⟩
  · exact h.asked.registered.trans hregistered.symm
  · rw [hlifetime]
    exact h.asked.lifetime
  · rw [hthreads]
    exact h.asked.threads
  · rw [hthreads, hinserted]
    exact h.asked.inserted

/-- Steps of a thread in `CallMethod` that send nothing. -/
lemma Inv.thread (h : s.Inv) {c : MrpcchannelMultiReq} (hc : c.Inv)
    (hasked : Asked { s with channel := c }) (hinserted : s.channel.inserted ⊆ c.inserted)
    (hsend : c.sendTasks = s.channel.sendTasks) (hframes : c.frames = s.channel.frames)
    (hfd : c.clientFd = s.channel.clientFd) : Inv { s with channel := c } := by
  have hopen : c.clientFd ≠ -1 → s.channel.clientFd ≠ -1 := fun hne => hfd ▸ hne
  have hread : ∀ f ∈ c.frames, ∃ a ∈ s.answers, f = (a.call.request_id, a.payload) := by
    rw [hframes]
    exact h.returning.frames
  exact ⟨hc, hasked, h.flowing.mono hinserted (List.Subset.refl _) hsend rfl rfl rfl hopen,
    h.returning.mono hinserted (List.Subset.refl _) rfl rfl hread hopen⟩

/-- The requests that the controllers were registered with. -/
lemma Inv.nodup_asked (h : s.Inv) : (s.asked.map (·.1)).Nodup :=
  h.asked.registered ▸ h.channel.placed.nodup

/-- Two requests of one controller are the same. -/
lemma Inv.asked_unique (h : s.Inv) {controller : ℕ} {a b : RpcRequest} (ha : (controller, a) ∈ s.asked)
    (hb : (controller, b) ∈ s.asked) : a = b :=
  (Prod.mk.inj (List.inj_on_of_nodup_map h.nodup_asked ha hb rfl)).2

/-! ### Calls are made -/

/-- A stub registers its call. -/
lemma Inv.registerCall (h : s.Inv) {controller : ℕ} {request : RpcRequest}
    (hs : s.step (.registerCall controller request) = some t) : t.Inv := by
  obtain ⟨u, hu, rfl⟩ := Option.map_eq_some_iff.mp hs
  obtain ⟨c, hc, rfl⟩ := Option.map_eq_some_iff.mp hu
  have hinv := h.channel.step (e := .registerCall _) trivial hc
  rw [MrpcchannelMultiReq.step] at hc
  split_ifs at hc with hold
  obtain rfl := Option.some.inj hc
  have hsub : s.asked ⊆ s.asked ++ [(controller, request)] := List.subset_append_left ..
  refine ⟨hinv, ⟨?_, ?_, ?_, ?_⟩, h.flowing.mono (List.Subset.refl _) hsub rfl rfl rfl rfl id,
    h.returning.mono (List.Subset.refl _) hsub rfl rfl h.returning.frames id⟩
  · show (s.asked ++ [(controller, request)]).map (·.1) = s.channel.registered ++ [controller]
    rw [List.map_append, h.asked.registered]
    rfl
  · intro ctx hctx
    obtain hctx | hctx := List.mem_append.mp hctx
    · obtain ⟨r, hr, heq⟩ := h.asked.lifetime ctx hctx
      exact ⟨r, hsub hr, heq⟩
    · obtain rfl := List.mem_singleton.mp hctx
      exact ⟨request, List.mem_append_right _ List.mem_cons_self, rfl⟩
  · intro th hth
    obtain ⟨r, hr, hnames⟩ := h.asked.threads th hth
    exact ⟨r, hsub hr, hnames⟩
  · intro th hth requestId ctx hphase
    obtain ⟨hins, r, hr, heq⟩ := h.asked.inserted th hth requestId ctx hphase
    exact ⟨hins, r, hsub hr, heq⟩

/-- `CallMethod` finds the channel connected. -/
lemma Inv.callMethod (h : s.Inv) {controller : ℕ} (hopen : s.channel.clientFd ≠ -1)
    (hs : s.step (.callMethod controller) = some t) : t.Inv := by
  obtain ⟨a, ha, hs⟩ := Option.bind_eq_some_iff.mp hs
  obtain ⟨c, hc, rfl⟩ := Option.map_eq_some_iff.mp hs
  have hinv := h.channel.step (e := .callMethod ..) hopen hc
  rw [MrpcchannelMultiReq.step, if_neg hopen] at hc
  split_ifs at hc with hreg
  obtain rfl := Option.some.inj hc
  refine h.thread hinv ⟨h.asked.registered, h.asked.lifetime, ?_, ?_⟩ (List.Subset.refl _) rfl rfl rfl
  · intro th hth
    obtain hth | hth := List.mem_append.mp hth
    · exact h.asked.threads th hth
    · obtain rfl := List.mem_singleton.mp hth
      have hown : a.1 = controller := by simpa using List.find?_some ha
      exact ⟨a.2, hown ▸ List.mem_of_find?_eq_some ha, rfl, rfl⟩
  · intro th hth requestId ctx hphase
    obtain hth | hth := List.mem_append.mp hth
    · exact h.asked.inserted th hth requestId ctx hphase
    · obtain rfl := List.mem_singleton.mp hth
      cases hphase

/-- A thread in `CallMethod` goes on to another phase. -/
lemma Asked.setPhase (h : s.Asked) {k : ℕ} {th : CallThread} (hk : s.channel.threads[k]? = some th)
    {phase : ThreadPhase} {c : MrpcchannelMultiReq}
    (hphase : ∀ requestId ctx, phase = .inserted requestId ctx →
      ⟨th.controller, requestId⟩ ∈ c.inserted ∧
        ∃ request, (th.controller, request) ∈ s.asked ∧ ctx.request = request.serialized)
    (hthreads : c.threads = s.channel.threads.set k { th with phase })
    (hregistered : c.registered = s.channel.registered)
    (hlifetime : c.rpc_calllifetime ⊆ s.channel.rpc_calllifetime)
    (hinserted : s.channel.inserted ⊆ c.inserted) : Asked { s with channel := c } where
  registered := h.registered.trans hregistered.symm
  lifetime ctx hctx := h.lifetime ctx (hlifetime hctx)
  threads x hx := by
    rw [hthreads] at hx
    obtain hx | rfl := List.mem_or_eq_of_mem_set hx
    · exact h.threads x hx
    · exact h.threads th (List.mem_of_getElem? hk)
  inserted x hx requestId ctx hx' := by
    rw [hthreads] at hx
    obtain hx | rfl := List.mem_or_eq_of_mem_set hx
    · obtain ⟨hins, hask⟩ := h.inserted x hx requestId ctx hx'
      exact ⟨hinserted hins, hask⟩
    · exact hphase requestId ctx hx'

/-- A thread in `CallMethod` returns. -/
lemma Asked.return_ (h : s.Asked) {k : ℕ} {c : MrpcchannelMultiReq}
    (hthreads : c.threads = s.channel.threads.eraseIdx k)
    (hregistered : c.registered = s.channel.registered)
    (hlifetime : c.rpc_calllifetime = s.channel.rpc_calllifetime)
    (hinserted : c.inserted = s.channel.inserted) : Asked { s with channel := c } where
  registered := h.registered.trans hregistered.symm
  lifetime := by
    rw [hlifetime]
    exact h.lifetime
  threads x hx := h.threads x (List.mem_of_mem_eraseIdx (hthreads ▸ hx))
  inserted x hx := by
    rw [hinserted]
    exact h.inserted x (List.mem_of_mem_eraseIdx (hthreads ▸ hx))

/-- A call takes its request id. -/
lemma Inv.fetchAdd (h : s.Inv) {k : ℕ} (hs : s.step (.fetchAdd k) = some t) : t.Inv := by
  obtain ⟨c, hc, rfl⟩ := Option.map_eq_some_iff.mp hs
  have hinv := h.channel.step (e := .fetchAdd _) trivial hc
  obtain ⟨th, hk, hc⟩ := Option.bind_eq_some_iff.mp hc
  cases hphase : th.phase with
  | connected =>
    simp only [hphase] at hc
    obtain rfl := Option.some.inj hc
    refine h.thread hinv ?_ (List.Subset.refl _) rfl rfl rfl
    refine h.asked.setPhase hk (fun _ _ hne => ?_) rfl rfl (List.Subset.refl _) (List.Subset.refl _)
    cases hne
  | numbered requestId =>
    rw [hphase] at hc
    cases hc
  | inserted requestId ctx =>
    rw [hphase] at hc
    cases hc

/-- A call is put among the pending ones, and its bytes are computed. -/
lemma Inv.insert (h : s.Inv) {k : ℕ} (hs : s.step (.insert k) = some t) : t.Inv := by
  obtain ⟨c, hc, rfl⟩ := Option.map_eq_some_iff.mp hs
  have hinv := h.channel.step (e := .insert _) trivial hc
  obtain ⟨th, hk, hc⟩ := Option.bind_eq_some_iff.mp hc
  cases hphase : th.phase with
  | connected =>
    rw [hphase] at hc
    cases hc
  | inserted requestId ctx =>
    rw [hphase] at hc
    cases hc
  | numbered requestId =>
    simp only [hphase] at hc
    cases hfind : s.channel.rpc_calllifetime.find? (·.controller = th.controller) with
    | none =>
      rw [hfind] at hc
      obtain rfl := Option.some.inj hc
      exact h.thread hinv (h.asked.return_ rfl rfl rfl rfl) (List.Subset.refl _) rfl rfl rfl
    | some ctx =>
      rw [hfind] at hc
      obtain rfl := Option.some.inj hc
      have hsub : s.channel.inserted ⊆ s.channel.inserted ++ [⟨ctx.controller, requestId⟩] :=
        List.subset_append_left ..
      refine h.thread hinv ?_ hsub rfl rfl rfl
      refine h.asked.setPhase hk (fun id ctx' heq => ?_) rfl rfl List.erase_subset hsub
      obtain ⟨rfl, rfl⟩ := ThreadPhase.inserted.inj heq
      have hown : ctx.controller = th.controller := by simpa using List.find?_some hfind
      obtain ⟨request, hask, hrequest⟩ := h.asked.lifetime ctx (List.mem_of_find?_eq_some hfind)
      refine ⟨?_, request, hown ▸ hask, hrequest⟩
      rw [← hown]
      exact List.mem_append_right _ List.mem_cons_self

/-- A request that serializes has the bytes of its message. -/
lemma RpcRequest.serialized_eq_some {request : RpcRequest} {bytes : Bytes}
    (h : request.serialized = some bytes) : bytes = request.1.request.serialize request.2 := by
  rw [RpcRequest.serialized, MessageType.serializeToString] at h
  split_ifs at h
  exact (Option.some.inj h).symm

/-- One more string is to be sent. -/
lemma Flowing.push (h : s.Flowing) {c : RpcCall} (hc : s.Issued c) {channel : MrpcchannelMultiReq}
    (hsend : channel.sendTasks = s.channel.sendTasks ++ [wireString c.frame.serialize])
    (hinserted : channel.inserted = s.channel.inserted) (hfd : channel.clientFd = s.channel.clientFd) :
    Flowing { s with channel } := by
  have hissued : ∀ x, s.Issued x → Issued { s with channel } x := fun x hx =>
    hx.mono (fun _ hp => hinserted ▸ hp) (List.Subset.refl _)
  have hget : ∀ task sent, s.sending = some (task, sent) →
      channel.sendTasks[task]? = s.channel.sendTasks[task]? := by
    intro task sent hsending
    obtain ⟨wire, hwire, -⟩ := h.sending task sent hsending
    rw [hsend, List.getElem?_append_left (List.getElem?_eq_some_iff.mp hwire).1]
  refine ⟨fun wire hwire => ?_, fun task sent hsending => ?_, ?_⟩
  · rw [hsend] at hwire
    obtain hwire | hwire := List.mem_append.mp hwire
    · obtain ⟨x, hx, heq⟩ := h.sendTasks wire hwire
      exact ⟨x, hissued x hx, heq⟩
    · exact ⟨c, hissued c hc, List.mem_singleton.mp hwire⟩
  · rw [hget task sent hsending]
    exact h.sending task sent hsending
  · obtain ⟨pieces, calls, part, hrun, hcalls, hstream, hpart, hopen⟩ := h.stream
    refine ⟨pieces, calls, part, hrun, fun x hx => hissued x (hcalls x hx), hstream, ?_, fun hfd' => ?_⟩
    · obtain rfl | ⟨x, hx, hpre⟩ := hpart
      · exact .inl rfl
      · exact .inr ⟨x, hissued x hx, hpre⟩
    · rw [hopen (hfd ▸ hfd'), partSent, partSent]
      cases hsending : s.sending with
      | none => rfl
      | some x => simp only [hget x.1 x.2 hsending]

/-- A sending task is scheduled. -/
lemma Inv.schedule (h : s.Inv) {k : ℕ} (hfits : s.Fits (.schedule k))
    (hs : s.step (.schedule k) = some t) : t.Inv := by
  obtain ⟨c, hc, rfl⟩ := Option.map_eq_some_iff.mp hs
  have hinv := h.channel.step (e := .schedule _) trivial hc
  obtain ⟨th, hk, hc⟩ := Option.bind_eq_some_iff.mp hc
  have hmem := List.mem_of_getElem? hk
  have hsendable : s.Sendable th := hfits th hk
  rw [Sendable] at hsendable
  cases hphase : th.phase with
  | connected =>
    rw [hphase] at hc
    cases hc
  | numbered requestId =>
    rw [hphase] at hc
    cases hc
  | inserted requestId ctx =>
    simp only [hphase] at hc hsendable
    cases hrequest : ctx.request with
    | none =>
      rw [hrequest] at hc
      obtain rfl := Option.some.inj hc
      exact h.thread hinv (h.asked.return_ rfl rfl rfl rfl) (List.Subset.refl _) rfl rfl rfl
    | some req_str =>
      simp only [hrequest] at hc
      split_ifs at hc with hlarge
      · obtain rfl := Option.some.inj hc
        exact h.thread hinv (h.asked.return_ rfl rfl rfl rfl) (List.Subset.refl _) rfl rfl rfl
      · obtain rfl := Option.some.inj hc
        obtain ⟨hins, request, hask, heq⟩ := h.asked.inserted th hmem requestId ctx hphase
        obtain ⟨request', hask', hservice, hmethod⟩ := h.asked.threads th hmem
        obtain rfl := h.asked_unique hask hask'
        obtain rfl := RpcRequest.serialized_eq_some (heq.symm.trans hrequest)
        have hissued : s.Issued ⟨requestId, request.1, request.2⟩ :=
          ⟨hsendable _ hask rfl, th.controller, hins, hask⟩
        refine ⟨hinv, h.asked.return_ rfl rfl rfl rfl, h.flowing.push hissued ?_ rfl rfl,
          h.returning.mono (List.Subset.refl _) (List.Subset.refl _) rfl rfl h.returning.frames id⟩
        show s.channel.sendTasks ++ [_] = _
        rw [hservice, hmethod]
        rfl

/-! ### Requests are sent and arrive -/

/-- A task takes the mutex of the socket. -/
lemma Inv.lock (h : s.Inv) {task : ℕ} (hs : s.step (.lock task) = some t) : t.Inv := by
  rw [step] at hs
  split_ifs at hs with hbusy
  obtain rfl := Option.some.inj hs
  rw [not_or, not_or, not_le] at hbusy
  obtain ⟨hnone, -, hlt⟩ := hbusy
  refine ⟨h.channel, ⟨h.asked.1, h.asked.2, h.asked.3, h.asked.4⟩, ⟨h.flowing.sendTasks, ?_, ?_⟩,
    ⟨h.returning.1, h.returning.2, h.returning.3⟩⟩
  · rintro _ _ ⟨rfl, rfl⟩
    exact ⟨_, List.getElem?_eq_getElem hlt, Nat.zero_le _⟩
  · obtain ⟨pieces, calls, part, hrun, hcalls, hstream, hpart, hopen⟩ := h.flowing.stream
    refine ⟨pieces, calls, part, hrun, hcalls, hstream, hpart, fun hfd => ?_⟩
    rw [hopen hfd, partSent, Option.not_isSome_iff_eq_none.mp hnone]
    show [] = (s.channel.sendTasks[task]?.getD []).take 0
    rw [List.take_zero]

/-- A part of the bytes is sent. -/
lemma Inv.send (h : s.Inv) {size : ℕ} (hs : s.step (.send size) = some t) : t.Inv := by
  obtain ⟨⟨task, sent⟩, hsending, hs⟩ := Option.bind_eq_some_iff.mp hs
  obtain ⟨wire, hwire, hs⟩ := Option.bind_eq_some_iff.mp hs
  split_ifs at hs with hclosed
  obtain rfl := Option.some.inj hs
  rw [not_or, not_lt] at hclosed
  obtain ⟨hopen, hle⟩ := hclosed
  refine ⟨h.channel, ⟨h.asked.1, h.asked.2, h.asked.3, h.asked.4⟩, ⟨h.flowing.sendTasks, ?_, ?_⟩,
    ⟨h.returning.1, h.returning.2, h.returning.3⟩⟩
  · rintro _ _ ⟨rfl, rfl⟩
    exact ⟨wire, hwire, hle⟩
  · obtain ⟨pieces, calls, part, hrun, hcalls, hstream, hpart, hpartSent⟩ := h.flowing.stream
    have hold : part = wire.take sent := by
      rw [hpartSent hopen, partSent, hsending]
      simp only [hwire, Option.getD_some]
    have hnew : wire.take sent ++ (wire.drop sent).take size = wire.take (sent + size) :=
      List.take_add.symm
    refine ⟨pieces, calls, wire.take (sent + size), hrun, hcalls, ?_, .inr ?_, fun _ => ?_⟩
    · rw [← List.append_assoc, hstream, hold, List.append_assoc, hnew]
    · obtain ⟨c, hc, rfl⟩ := h.flowing.sendTasks wire (List.mem_of_getElem? hwire)
      exact ⟨c, hc, List.take_prefix ..⟩
    · show _ = (s.channel.sendTasks[task]?.getD []).take (sent + size)
      rw [hwire, Option.getD_some]

/-- A task is done with its bytes. -/
lemma Inv.sendAll (h : s.Inv) {ok : Bool} (hs : s.step (.sendAll ok) = some t) : t.Inv := by
  obtain ⟨⟨task, sent⟩, hsending, hs⟩ := Option.bind_eq_some_iff.mp hs
  obtain ⟨wire, hwire, hs⟩ := Option.bind_eq_some_iff.mp hs
  split_ifs at hs with hok
  obtain ⟨u, hu, rfl⟩ := Option.map_eq_some_iff.mp hs
  obtain ⟨c, hc, rfl⟩ := Option.map_eq_some_iff.mp hu
  have hinv := h.channel.step (e := .sendAll ..) trivial hc
  rw [MrpcchannelMultiReq.step] at hc
  have herase : ∀ w ∈ s.channel.sendTasks.eraseIdx task, ∃ c, s.Issued c ∧
      w = wireString c.frame.serialize := fun w hw =>
    h.flowing.sendTasks w (List.mem_of_mem_eraseIdx hw)
  obtain ⟨pieces, calls, part, hrun, hcalls, hstream, hpart, hopen⟩ := h.flowing.stream
  split_ifs at hc with hfailing hall
  · -- the whole string was sent
    rw [hwire] at hc
    obtain rfl := Option.some.inj hc
    refine ⟨hinv, ⟨h.asked.1, h.asked.2, h.asked.3, h.asked.4⟩, ⟨herase, ?_, ?_⟩,
      ⟨h.returning.1, h.returning.2, h.returning.3⟩⟩
    · rintro _ _ ⟨⟩
    · by_cases hfd : s.channel.clientFd = -1
      · exact ⟨pieces, calls, part, hrun, hcalls, hstream, hpart, absurd hfd⟩
      · obtain ⟨c, hc, hwhole⟩ := h.flowing.sendTasks wire (List.mem_of_getElem? hwire)
        have hpartSent : part = wireString c.frame.serialize := by
          rw [hopen hfd, partSent, hsending]
          simp only [hwire, Option.getD_some]
          rw [hok.mp hall, List.take_length, hwhole]
        refine ⟨pieces, calls ++ [c], [], hrun, fun x hx => ?_, ?_, .inl rfl, fun _ => rfl⟩
        · obtain hx | hx := List.mem_append.mp hx
          · exact hcalls x hx
          · exact List.mem_singleton.mp hx ▸ hc
        · rw [hstream, hpartSent, List.map_append, List.flatMap_append, List.append_nil]
          simp
  · rw [hwire] at hc
    obtain rfl := Option.some.inj hc
    refine ⟨hinv, ⟨h.asked.1, h.asked.2, h.asked.3, h.asked.4⟩, ⟨herase, ?_, ?_⟩,
      ⟨h.returning.1, fun hfd => absurd rfl hfd, h.returning.3⟩⟩
    · rintro _ _ ⟨⟩
    · exact ⟨pieces, calls, part, hrun, hcalls, hstream, hpart, fun hfd => absurd rfl hfd⟩

/-- Bytes arrive, and the provider schedules the requests that are complete. -/
lemma Inv.arrive (h : s.Inv) {size : ℕ} (hs : s.step (.arrive size) = some t) : t.Inv := by
  rw [step] at hs
  split_ifs at hs
  obtain rfl := Option.some.inj hs
  refine ⟨h.channel, ⟨h.asked.1, h.asked.2, h.asked.3, h.asked.4⟩,
    ⟨h.flowing.sendTasks, h.flowing.sending, ?_⟩, ⟨h.returning.1, h.returning.2, h.returning.3⟩⟩
  obtain ⟨pieces, calls, part, hrun, hcalls, hstream, hpart, hopen⟩ := h.flowing.stream
  refine ⟨pieces ++ [s.requests.take size], calls, part, ?_, hcalls, ?_, hpart, hopen⟩
  · rw [List.foldl_append, ← hrun]
    rfl
  · rw [List.flatten_append, List.append_assoc, ← hstream]
    simp

/-! ### Calls are answered -/

/-- The frame of a call is not too large, whatever part of it has arrived. -/
lemma unfinished_part {part : Bytes}
    (h : part = [] ∨ ∃ c, s.Issued c ∧ part <+: wireString c.frame.serialize) :
    Receiver.Unfinished wireString FrameSize part ∨
      ∃ c, s.Issued c ∧ part = wireString c.frame.serialize := by
  obtain rfl | ⟨c, hc, hpre⟩ := h
  · exact .inl ⟨[1], by decide, List.nil_prefix, by decide⟩
  · by_cases heq : part = wireString c.frame.serialize
    · exact .inr ⟨c, hc, heq⟩
    · exact .inl ⟨_, RpcCall.frameSize hc.1, hpre, heq⟩

/-- What the provider has scheduled. -/
lemma Flowing.tasks (h : s.Flowing) {ctx : RpcCallContext RpcRequest} (hctx : ctx ∈ s.conn.1.tasks) :
    ∃ c, s.Issued c ∧ ctx = c.context := by
  obtain ⟨pieces, calls, part, hrun, hcalls, hstream, hpart, -⟩ := h.stream
  -- a part that is whole is one more call
  have hwhole : ∃ (calls : List RpcCall) (tail : Bytes), (∀ c ∈ calls, s.Issued c) ∧
      Receiver.Unfinished wireString FrameSize tail ∧
      pieces.flatten ++ s.requests = (calls.map (·.frame.serialize)).flatMap wireString ++ tail := by
    obtain htail | ⟨c, hc, rfl⟩ := unfinished_part hpart
    · exact ⟨calls, part, hcalls, htail, hstream⟩
    · refine ⟨calls ++ [c], [], fun x hx => ?_, ⟨[1], by decide, List.nil_prefix, by decide⟩, ?_⟩
      · obtain hx | hx := List.mem_append.mp hx
        · exact hcalls x hx
        · exact List.mem_singleton.mp hx ▸ hc
      · rw [hstream]
        simp
  obtain ⟨calls, tail, hcalls, htail, hstream⟩ := hwhole
  have hsize : ∀ body ∈ calls.map (·.frame.serialize), FrameSize body := by
    intro body hbody
    obtain ⟨c, hc, rfl⟩ := List.mem_map.mp hbody
    exact RpcCall.frameSize (hcalls c hc).1
  obtain ⟨done, left, tail', hsplit, hpieces, htail'⟩ :=
    Receiver.exists_unfinished hsize htail ⟨_, hstream⟩
  obtain ⟨doneCalls, leftCalls, rfl, rfl, rfl⟩ := List.map_eq_append_iff.mp hsplit
  have hdone : ∀ c ∈ doneCalls, s.Issued c := fun c hc => hcalls c (List.mem_append_left _ hc)
  rw [hrun, RpcProvider.foldl_ofKvServer (fun c hc => (hdone c hc).1) htail' hpieces] at hctx
  obtain ⟨c, hc, rfl⟩ := List.mem_map.mp hctx
  exact ⟨c, hdone c hc, rfl⟩

/-- What `SendRpcResponse` sends, if it sends anything. -/
lemma sent_answer (a : RpcAnswer) : ∃ sent : List RpcAnswer,
    (∀ x ∈ sent, x = a ∧ x.frame.serialize.length < 2 ^ 31) ∧
      (RpcProvider.sendRpcResponse a.call.context
        (a.call.method.response.serializeToString a.response)).getD [] =
        sent.flatMap fun x => wireString x.frame.serialize := by
  rw [MessageType.serializeToString]
  split_ifs with hpayload
  · exact ⟨[], List.forall_mem_nil _, rfl⟩
  rw [RpcProvider.sendRpcResponse, Option.bind_some]
  by_cases hframe : 2 ^ 31 ≤ a.frame.serialize.length
  · exact ⟨[], List.forall_mem_nil _, congrArg (Option.getD · []) (if_pos hframe)⟩
  · refine ⟨[a], fun x hx => ?_, ?_⟩
    · obtain rfl := List.mem_singleton.mp hx
      exact ⟨rfl, Nat.lt_of_not_le hframe⟩
    · refine (congrArg (Option.getD · []) (if_neg hframe)).trans ?_
      rw [List.flatMap_singleton]
      rfl

/-- A response goes on its way back. -/
lemma Inv.answer (h : s.Inv) {a : RpcAnswer} (hcall : s.Issued a.call)
    (hfits : a.call.method.response.Fits a.response) : (s.answer a).Inv := by
  refine ⟨h.channel, ⟨h.asked.1, h.asked.2, h.asked.3, h.asked.4⟩,
    ⟨h.flowing.sendTasks, h.flowing.sending, h.flowing.stream⟩, ⟨fun x hx => ?_, fun hfd => ?_, ?_⟩⟩
  · obtain hx | hx := List.mem_append.mp hx
    · exact h.returning.answers x hx
    · obtain rfl := List.mem_singleton.mp hx
      exact ⟨hcall, hfits⟩
  · obtain ⟨unread, hall, hresponses⟩ := h.returning.unread hfd
    obtain ⟨sent, hsent, hwire⟩ := sent_answer a
    refine ⟨unread ++ sent, fun x hx => ?_, ?_⟩
    · obtain hx | hx := List.mem_append.mp hx
      · exact ⟨List.mem_append_left _ (hall x hx).1, (hall x hx).2⟩
      · obtain ⟨rfl, hsize⟩ := hsent x hx
        exact ⟨List.mem_append_right _ List.mem_cons_self, hsize⟩
    · rw [List.flatMap_append, ← hresponses, ← hwire]
      rfl
  · intro f hf
    obtain ⟨x, hx, heq⟩ := h.returning.frames f hf
    exact ⟨x, List.mem_append_left _ hx, heq⟩

/-- A handler runs and its response is sent. -/
lemma Inv.handle (h : s.Inv) {task : ℕ} {handler : (method : RpcMethod) → method.Request → method.Response}
    (hfits : s.Fits (.handle task handler)) (hs : s.step (.handle task handler) = some t) : t.Inv := by
  rw [step] at hs
  split_ifs at hs
  obtain ⟨ctx, hctx, rfl⟩ := Option.map_eq_some_iff.mp hs
  obtain ⟨c, hc, rfl⟩ := h.flowing.tasks (List.mem_of_getElem? hctx)
  have hfinished : Inv { s with finished := s.finished ++ [task] } :=
    ⟨h.channel, ⟨h.asked.1, h.asked.2, h.asked.3, h.asked.4⟩,
      ⟨h.flowing.sendTasks, h.flowing.sending, h.flowing.stream⟩,
      ⟨h.returning.1, h.returning.2, h.returning.3⟩⟩
  exact hfinished.answer hc (hfits _ hctx)

/-! ### Responses are read -/

/-- What `recvVarint32` reads is the number that was written. -/
lemma recvVarint32Loop_eq_some {n i k value v : ℕ} {left behind : Bytes} {socket rest : Socket UInt8}
    (h : Reading n i value left) (hn : n < 2 ^ 32) (hsocket : stream socket <+: left ++ behind)
    (hread : MrpcchannelMultiReq.recvVarint32Loop k i value socket = some (v, rest)) :
    v = n ∧ stream socket = left ++ stream rest := by
  induction k generalizing i value left socket with
  | zero => cases hread
  | succ k ih =>
    obtain ⟨-, byte, left', rfl, hstep⟩ := h.step hn
    rw [MrpcchannelMultiReq.recvVarint32Loop] at hread
    obtain ⟨⟨bytes, next⟩, hexact, hread⟩ := Option.bind_eq_some_iff.mp hread
    obtain ⟨hlen, hstream⟩ := recvExact_eq_some hexact
    obtain ⟨b, rfl⟩ := List.length_eq_one_iff.mp hlen
    rw [hstream, List.singleton_append, List.cons_append, List.cons_prefix_cons] at hsocket
    obtain ⟨rfl, hnext⟩ := hsocket
    dsimp only at hread
    rw [List.head?_cons, Option.bind_some] at hread
    obtain ⟨hzero, rfl, hvalue⟩ | ⟨hzero, hmore⟩ := hstep
    · rw [if_pos hzero] at hread
      obtain ⟨rfl, rfl⟩ := Prod.mk.inj (Option.some.inj hread)
      exact ⟨hvalue, hstream⟩
    · rw [if_neg hzero] at hread
      obtain ⟨rfl, hrest⟩ := ih hmore hnext hread
      exact ⟨rfl, by rw [hstream, hrest]; rfl⟩

/-- What `recvLoop` reads is the frame at the front of the stream. -/
lemma recvFrame_eq_some {body behind : Bytes} {socket rest : Socket UInt8} {frame : RpcResponseFrame}
    (hbody : body.length < 2 ^ 31) (hsocket : stream socket <+: wireString body ++ behind)
    (hread : MrpcchannelMultiReq.recvFrame socket = some (frame, rest)) :
    RpcResponseFrame.parse body = some frame ∧ stream socket = wireString body ++ stream rest := by
  rw [wireString, Nat.mod_eq_of_lt (by omega)] at *
  rw [List.append_assoc] at hsocket
  obtain ⟨⟨size, next⟩, hsize, hbytes⟩ := Option.bind_eq_some_iff.mp hread
  obtain ⟨rfl, hstream⟩ := recvVarint32Loop_eq_some (.start (by omega)) (by omega) hsocket hsize
  dsimp only at hbytes
  split_ifs at hbytes with hbad
  obtain ⟨⟨bytes, rest'⟩, hexact, hframe⟩ := Option.bind_eq_some_iff.mp hbytes
  obtain ⟨hlen, hnext⟩ := recvExact_eq_some hexact
  rw [hstream, List.prefix_append_right_inj, hnext] at hsocket
  obtain ⟨more, hmore⟩ := hsocket
  rw [List.append_assoc] at hmore
  obtain ⟨rfl, -⟩ := List.append_inj hmore hlen
  obtain ⟨frame', hparse, heq⟩ := Option.map_eq_some_iff.mp hframe
  obtain ⟨rfl, rfl⟩ := Prod.mk.inj heq
  exact ⟨hparse, by rw [hstream, hnext, List.append_assoc]⟩

/-- Nothing is read from an empty socket. -/
lemma recvFrame_empty {socket : Socket UInt8} (h : stream socket = []) :
    MrpcchannelMultiReq.recvFrame socket = none := by
  rw [Option.eq_none_iff_forall_ne_some]
  rintro ⟨frame, rest⟩ hread
  have hpre : stream socket <+: wireString [] ++ [] := h ▸ List.nil_prefix
  obtain ⟨-, hstream⟩ := recvFrame_eq_some (by decide) hpre hread
  rw [h] at hstream
  cases hstream

/-- The channel after a response frame. -/
lemma Inv.completeResponse (h : s.Inv) {a : RpcAnswer} (ha : a ∈ s.answers)
    {c : MrpcchannelMultiReq}
    (hc : s.channel.step s.parses (.recv (some (a.call.request_id, a.payload))) = some c) :
    Inv { s with channel := c } ∧ c.clientFd = s.channel.clientFd := by
  have hinv := h.channel.step (e := .recv _) trivial hc
  rw [MrpcchannelMultiReq.step] at hc
  split_ifs at hc
  obtain rfl := Option.some.inj hc
  have hframes : ∀ f ∈ s.channel.frames ++ [(a.call.request_id, a.payload)],
      ∃ a ∈ s.answers, f = (a.call.request_id, a.payload) := by
    intro f hf
    obtain hf | hf := List.mem_append.mp hf
    · exact h.returning.frames f hf
    · exact ⟨a, ha, List.mem_singleton.mp hf⟩
  rw [MrpcchannelMultiReq.completeResponse] at hinv ⊢
  cases hfind : s.channel.pendings.find? (·.requestId = a.call.request_id) with
  | none =>
    simp only [hfind] at hinv ⊢
    exact ⟨h.keep hinv rfl rfl rfl rfl rfl hframes id, trivial⟩
  | some pending =>
    simp only [hfind] at hinv ⊢
    exact ⟨h.keep hinv rfl rfl rfl rfl rfl hframes id, trivial⟩

/-- `recvLoop` reads a response. -/
lemma Inv.recv (h : s.Inv) {socket : Socket UInt8} (hs : s.step (.recv socket) = some t) : t.Inv := by
  rw [step] at hs
  split_ifs at hs with hopen
  obtain ⟨hfd, hpre⟩ := hopen
  obtain ⟨⟨c, rest⟩, hround, rfl⟩ := Option.map_eq_some_iff.mp hs
  rw [MrpcchannelMultiReq.recvRound] at hround
  cases hread : MrpcchannelMultiReq.recvFrame socket with
  | none =>
    simp only [hread] at hround
    obtain ⟨c', hc, heq⟩ := Option.map_eq_some_iff.mp hround
    obtain ⟨rfl, rfl⟩ := Prod.mk.inj heq
    have hinv := h.channel.step (e := .recv none) trivial hc
    rw [MrpcchannelMultiReq.step] at hc
    split_ifs at hc
    obtain rfl := Option.some.inj hc
    have hkeep := h.keep hinv rfl rfl rfl rfl rfl h.returning.frames fun _ => hfd
    exact ⟨hkeep.channel, ⟨hkeep.asked.1, hkeep.asked.2, hkeep.asked.3, hkeep.asked.4⟩,
      ⟨hkeep.flowing.1, hkeep.flowing.2, hkeep.flowing.3⟩,
      ⟨hkeep.returning.1, fun hclosed => absurd rfl hclosed, hkeep.returning.3⟩⟩
  | some read =>
    obtain ⟨frame, next⟩ := read
    simp only [hread] at hround
    obtain ⟨c', hc, heq⟩ := Option.map_eq_some_iff.mp hround
    obtain ⟨rfl, rfl⟩ := Prod.mk.inj heq
    obtain ⟨unread, hall, hresponses⟩ := h.returning.unread hfd
    cases unread with
    | nil =>
      rw [hresponses, List.flatMap_nil, List.prefix_nil] at hpre
      rw [recvFrame_empty hpre] at hread
      cases hread
    | cons a unread =>
      obtain ⟨ha, hsize⟩ := hall a List.mem_cons_self
      rw [hresponses, List.flatMap_cons] at hpre
      obtain ⟨hparse, hstream⟩ := recvFrame_eq_some hsize hpre hread
      have hid := (h.returning.answers a ha).1.1.request_id
      rw [RpcResponseFrame.parse_serialize hid (Nat.lt_of_le_of_lt a.frame.length_payload_le hsize)]
        at hparse
      obtain rfl := Option.some.inj hparse
      obtain ⟨hkeep, hfd'⟩ := h.completeResponse ha hc
      have hdrop : s.responses.drop ((stream socket).length - (stream next).length) =
          unread.flatMap fun a => wireString a.frame.serialize := by
        rw [hresponses, hstream, List.length_append, Nat.add_sub_cancel, List.flatMap_cons, List.drop_left]
      exact ⟨hkeep.channel, ⟨hkeep.asked.1, hkeep.asked.2, hkeep.asked.3, hkeep.asked.4⟩,
        ⟨hkeep.flowing.1, hkeep.flowing.2, hkeep.flowing.3⟩,
        ⟨hkeep.returning.1, fun _ => ⟨unread, fun x hx => hall x (List.mem_cons_of_mem _ hx), hdrop⟩,
          hkeep.returning.3⟩⟩

/-- All pending calls fail. -/
lemma Inv.failAllPending (h : s.Inv) {loop : Loop} (hs : s.step (.failAllPending loop) = some t) :
    t.Inv := by
  obtain ⟨c, hc, rfl⟩ := Option.map_eq_some_iff.mp hs
  have hinv := h.channel.step (e := .failAllPending _) trivial hc
  rw [MrpcchannelMultiReq.step, MrpcchannelMultiReq.failAllPending] at hc
  split at hc
  · cases hc
  all_goals
    obtain rfl := Option.some.inj hc
    exact h.keep hinv rfl rfl rfl rfl rfl h.returning.frames id

/-- A worker completes a call. -/
lemma Inv.complete (h : s.Inv) {task : ℕ} (hs : s.step (.complete task) = some t) : t.Inv := by
  obtain ⟨c, hc, rfl⟩ := Option.map_eq_some_iff.mp hs
  have hinv := h.channel.step (e := .complete _) trivial hc
  obtain ⟨⟨pending, payload⟩, -, hc⟩ := Option.bind_eq_some_iff.mp hc
  dsimp only at hc
  obtain rfl := Option.some.inj hc
  split_ifs at hinv ⊢
  · exact h.keep hinv rfl rfl rfl rfl rfl h.returning.frames id
  · exact h.keep hinv rfl rfl rfl rfl rfl h.returning.frames id

/-! ### Runs -/

/-- Every step keeps the requests, the responses and their calls together. -/
lemma Inv.step (h : s.Inv) {e : Event} (hfits : s.Fits e) (hs : s.step e = some t) : t.Inv := by
  cases e with
  | registerCall controller request => exact h.registerCall hs
  | callMethod controller => exact h.callMethod hfits hs
  | fetchAdd k => exact h.fetchAdd hs
  | insert k => exact h.insert hs
  | schedule k => exact h.schedule hfits hs
  | lock task => exact h.lock hs
  | send size => exact h.send hs
  | sendAll ok => exact h.sendAll hs
  | arrive size => exact h.arrive hs
  | handle task handler => exact h.handle hfits hs
  | recv socket => exact h.recv hs
  | failAllPending loop => exact h.failAllPending hs
  | complete task => exact h.complete hs

/-- A fresh session satisfies the invariant. -/
lemma inv_initial (fd : ℤ) : (initial fd).Inv where
  channel := MrpcchannelMultiReq.inv_initial fd
  asked := ⟨rfl, List.forall_mem_nil _, List.forall_mem_nil _, List.forall_mem_nil _⟩
  flowing := ⟨List.forall_mem_nil _, by rintro _ _ ⟨⟩,
    ⟨[], [], [], rfl, List.forall_mem_nil _, rfl, .inl rfl, fun _ => rfl⟩⟩
  returning := ⟨List.forall_mem_nil _, fun _ => ⟨[], List.forall_mem_nil _, rfl⟩,
    List.forall_mem_nil _⟩

/-- A completion has the response with which the provider answered the request of its controller. -/
def OwnResponse (s : RpcSession) (x : Completion) : Prop :=
  ∃ a ∈ s.answers, a.call.request_id = x.call.requestId ∧
    (x.call.controll, ⟨a.call.method, a.call.request⟩) ∈ s.asked ∧
      ∃ payload, x.payload = some payload ∧ a.call.method.response.parse payload = some a.response

/-- A call that completes without `SetFailed` has the response to its own request. -/
lemma Inv.ownResponse (h : s.Inv) {x : Completion} (hx : x ∈ s.channel.ran) (hok : x.ok = true) :
    s.OwnResponse x := by
  obtain ⟨payload, hpayload⟩ := Option.isSome_iff_exists.mp (h.channel.answered.ok x hx hok)
  obtain ⟨a, ha, heq⟩ := h.returning.frames _ (h.channel.answered.ran x hx payload hpayload)
  obtain ⟨hid, rfl⟩ := Prod.mk.inj heq
  obtain ⟨⟨-, controller, hinserted, hasked⟩, hfits⟩ := h.returning.answers a ha
  have hcall : x.call ∈ s.channel.inserted := by
    refine h.channel.placed.inserted.subset ?_
    exact List.mem_append_right _ (List.mem_append_right _ (List.mem_map_of_mem hx))
  -- no two calls have one id
  have hsame := List.inj_on_of_nodup_map h.channel.numbered.nodup.of_append_left hinserted hcall hid.symm
  refine ⟨a, ha, hid.symm, ?_, a.payload, hpayload, RpcAnswer.parse_payload hfits⟩
  rw [← hsame]
  exact hasked

/-- In every run the provider schedules only requests that stubs have made, and a call that completes
without `SetFailed` has the response of its own request, and not that of another call. -/
theorem own_response {fd : ℤ} (h : Run step Fits (initial fd) s) :
    (∀ ctx ∈ s.conn.1.tasks, ∃ controller, ⟨controller, ctx.requestId⟩ ∈ s.channel.inserted ∧
        (controller, ctx.request) ∈ s.asked) ∧
      ∀ x ∈ s.channel.ran, x.ok = true → s.OwnResponse x := by
  have hinv : s.Inv := h.invariant (fun _ _ _ hu hP hstep => hu.step hP hstep) (inv_initial fd)
  refine ⟨fun ctx hctx => ?_, fun x hx hok => hinv.ownResponse hx hok⟩
  obtain ⟨c, ⟨-, hissued⟩, rfl⟩ := hinv.flowing.tasks hctx
  exact hissued

instance (s : RpcSession) (t : CallThread) : Decidable (s.Sendable t) :=
  match h : t.phase with
  | .inserted requestId _ =>
    decidable_of_iff (∀ a ∈ s.asked, a.1 = t.controller → RpcCall.Fits ⟨requestId, a.2.1, a.2.2⟩)
      (by rw [Sendable, h])
  | .connected => isTrue (by rw [Sendable, h]; trivial)
  | .numbered _ => isTrue (by rw [Sendable, h]; trivial)

instance (s : RpcSession) (e : Event) : Decidable (s.Fits e) :=
  match e with
  | .callMethod _ => inferInstanceAs (Decidable (s.channel.clientFd ≠ -1))
  | .schedule k => inferInstanceAs (Decidable (∀ t ∈ s.channel.threads[k]?, s.Sendable t))
  | .handle task handler => inferInstanceAs (Decidable (∀ ctx ∈ s.conn.1.tasks[task]?,
      ctx.request.1.response.Fits (handler ctx.request.1 ctx.request.2)))
  | .registerCall _ _ | .fetchAdd _ | .insert _ | .lock _ | .send _ | .sendAll _ | .arrive _
  | .recv _ | .failAllPending _ | .complete _ => inferInstanceAs (Decidable True)

/-- Votes are granted, and all else has the response of defaults. -/
def granting : (method : RpcMethod) → method.Request → method.Response
  | .requestVote, request => { term := request.term, votegranted := true }
  | .appendEntries, _ => {}
  | .installSnapshot, _ => {}
  | .putAppend, _ => {}
  | .get, _ => {}

/-- A vote, with its bytes in two pieces on the way there. -/
theorem own_response_vote : ∃ s, Run step Fits (initial 3) s ∧
    s.channel.ran.map (·.ok) = [true] ∧ ∀ x ∈ s.channel.ran, x.ok = true → s.OwnResponse x := by
  have hruns : ∃ s ∈ runIf step Fits (initial 3)
      [.registerCall 7 ⟨.requestVote, { term := 3, candidateid := 1 }⟩, .callMethod 7, .fetchAdd 0,
        .insert 0, .schedule 0, .lock 0, .send 10, .arrive 10, .send 19, .sendAll true, .arrive 19,
        .handle 0 granting, .recv [.part [6, 18, 4, 8], .interrupted, .part [3, 16, 1]], .complete 0],
      s.channel.ran.map (·.ok) = [true] := by decide
  obtain ⟨s, hrun, hs⟩ := exists_run_of_runIf hruns
  exact ⟨s, hrun, hs, (own_response hrun).2⟩

end RpcSession

end KVCacheRaft
