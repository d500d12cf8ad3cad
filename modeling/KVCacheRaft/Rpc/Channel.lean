import Mathlib.Data.List.Nodup
import Mathlib.Data.List.Perm.Basic
import KVCacheRaft.Machine.Runs
import KVCacheRaft.Rpc.Frame

/-!
# Asynchronous calls

`MrpcchannelMultiReq` (`src/rpc/MrpcchannelMultiReq.cc`) has any number of calls under way on one
connection. A call is registered first; `CallMethod` moves it from `m_rpc_calllifetime` to
`m_pendings`, from where a response or the end of the connection takes it. Callers, the tasks that send,
`recvLoop` and the tasks that complete calls take their steps in any order.
-/

namespace KVCacheRaft

open Machine

/-- `RpcCallLifetime`. The response and the closure `done` belong to the controller, which is made for
one call. -/
structure RpcCallLifetime where
  controller : ℕ
  /-- what `SerializePartialToString` gives for the request, if it succeeds -/
  request : Option Bytes
deriving DecidableEq

/-- `PendingCall`. -/
structure PendingCall where
  controll : ℕ
  requestId : ℕ
deriving DecidableEq

/-- How far a `CallMethod` is. -/
inductive ThreadPhase where
  /-- the channel was connected -/
  | connected
  | numbered (requestId : ℕ)
  /-- the call is in `m_pendings` -/
  | inserted (requestId : ℕ) (ctx : RpcCallLifetime)

/-- A thread in `CallMethod`. -/
structure CallThread where
  controller : ℕ
  service_name : Bytes
  method_name : Bytes
  phase : ThreadPhase

/-- The threads that fail calls. -/
inductive Loop where
  | sender
  | recipient
deriving DecidableEq

/-- How far a `failAllPending` is. -/
inductive Failing where
  | swapping
  | running (pending : List PendingCall)

/-- A run of `done`. -/
structure Completion where
  call : PendingCall
  /-- `!controller->Failed()` -/
  ok : Bool
  /-- what the response was parsed from -/
  payload : Option Bytes

structure MrpcchannelMultiReq where
  clientFd : ℤ
  /-- `recvLoop` is in `connect`, with this descriptor -/
  connecting : Option ℤ := none
  /-- a `uint64_t`, which does not get to its end -/
  nextRequset_id : ℕ := 0
  rpc_calllifetime : List RpcCallLifetime := []
  pendings : List PendingCall := []
  threads : List CallThread := []
  /-- the strings that are to be sent -/
  sendTasks : List Bytes := []
  failing : Loop → Option Failing := fun _ => none
  /-- the tasks of `completeResponse` -/
  tasks : List (PendingCall × Bytes) := []
  /-- the controllers after `SetFailed` -/
  failed : List ℕ := []
  /-- all controllers ever registered -/
  registered : List ℕ := []
  /-- the calls that `CallMethod` has returned for -/
  returned : List ℕ := []
  /-- the calls that were put into `m_pendings` -/
  inserted : List PendingCall := []
  /-- all response frames ever received -/
  frames : List (ℕ × Bytes) := []
  ran : List Completion := []

namespace MrpcchannelMultiReq

inductive Event where
  | registerCall (ctx : RpcCallLifetime)
  | callMethod (controller : ℕ) (service_name method_name : Bytes)
  /-- `m_nextRequset_id.fetch_add` -/
  | fetchAdd (thread : ℕ)
  /-- the part of `CallMethod` under `lifetime_mutex` -/
  | insert (thread : ℕ)
  /-- the rest of it -/
  | schedule (thread : ℕ)
  | sendAll (task : ℕ) (ok : Bool)
  /-- `recvLoop` gets a socket in `newConnect`; without one it may try again -/
  | socket (fd : ℤ) (retry : Bool)
  /-- `connect` returns -/
  | connect (ok retry : Bool)
  /-- `recvLoop` reads a response frame, or cannot read one -/
  | recv (frame : Option (ℕ × Bytes))
  /-- a step of `failAllPending` -/
  | failAllPending (loop : Loop)
  /-- a task of `completeResponse` runs -/
  | complete (task : ℕ)

/-- `SetFailed`. -/
def setFailed (s : MrpcchannelMultiReq) (controller : ℕ) : MrpcchannelMultiReq :=
  { s with failed := s.failed ++ [controller] }

/-- `CallMethod` returns. -/
def return_ (s : MrpcchannelMultiReq) (k controller : ℕ) : MrpcchannelMultiReq :=
  { s with threads := s.threads.eraseIdx k, returned := s.returned ++ [controller] }

/-- The part of `CallMethod` under `lifetime_mutex`. -/
def insert (s : MrpcchannelMultiReq) (k : ℕ) : Option MrpcchannelMultiReq :=
  s.threads[k]?.bind fun t =>
    match t.phase with
    | .numbered requestId =>
      match s.rpc_calllifetime.find? (·.controller = t.controller) with
      | none => some ((s.setFailed t.controller).return_ k t.controller)
      | some ctx =>
        let pending : PendingCall := { controll := ctx.controller, requestId }
        some { s with
          pendings := if s.pendings.any (·.requestId = requestId) then s.pendings
            else s.pendings ++ [pending]
          rpc_calllifetime := s.rpc_calllifetime.erase ctx
          threads := s.threads.set k { t with phase := .inserted requestId ctx }
          inserted := s.inserted ++ [pending] }
    | _ => none

/-- The rest of `CallMethod`. -/
def schedule (s : MrpcchannelMultiReq) (k : ℕ) : Option MrpcchannelMultiReq :=
  s.threads[k]?.bind fun t =>
    match t.phase with
    | .inserted requestId ctx =>
      match ctx.request with
      | none => some ((s.setFailed t.controller).return_ k t.controller)
      | some req_str =>
        let frame : RpcRequestFrame :=
          { request_id := requestId, service_name := t.service_name, method_name := t.method_name,
            payload := req_str }
        -- a message of more than `INT_MAX` bytes cannot be serialized
        if 2 ^ 31 ≤ frame.serialize.length then
          some ((s.setFailed t.controller).return_ k t.controller)
        else some ({ s with sendTasks := s.sendTasks ++ [wireString frame.serialize] }.return_ k
          t.controller)
    | _ => none

/-- A loop closes the connection and begins to fail all calls. -/
def closeAndFail (s : MrpcchannelMultiReq) (loop : Loop) : MrpcchannelMultiReq :=
  { s with clientFd := -1, failing := Function.update s.failing loop (some .swapping) }

/-- `completeResponse`. -/
def completeResponse (s : MrpcchannelMultiReq) (requestId : ℕ) (payload : Bytes) :
    MrpcchannelMultiReq :=
  match s.pendings.find? (·.requestId = requestId) with
  | none => s
  | some pending =>
    { s with pendings := s.pendings.erase pending, tasks := s.tasks ++ [(pending, payload)] }

/-- A step of `failAllPending`: the swap, or one round of its loop. -/
def failAllPending (s : MrpcchannelMultiReq) (loop : Loop) : Option MrpcchannelMultiReq :=
  match s.failing loop with
  | none => none
  | some .swapping =>
    some { s with
      pendings := []
      failing := Function.update s.failing loop (some (.running s.pendings)) }
  | some (.running []) => some { s with failing := Function.update s.failing loop none }
  | some (.running (pending :: rest)) =>
    let s := s.setFailed pending.controll
    some { s with
      failing := Function.update s.failing loop (some (.running rest))
      ran := s.ran ++ [{ call := pending, ok := false, payload := none }] }

/-- A task of `completeResponse`; `parses` is whether the response can be parsed. -/
def complete (parses : ℕ → Bytes → Bool) (s : MrpcchannelMultiReq) (k : ℕ) :
    Option MrpcchannelMultiReq :=
  s.tasks[k]?.bind fun (pending, payload) =>
    let s := { s with tasks := s.tasks.eraseIdx k }
    let s := if parses pending.controll payload then s else s.setFailed pending.controll
    some { s with
      ran := s.ran ++
        [{ call := pending, ok := pending.controll ∉ s.failed, payload := some payload }] }

/-- What an event does; none when it cannot happen, or when the process exits. -/
def step (parses : ℕ → Bytes → Bool) (s : MrpcchannelMultiReq) : Event → Option MrpcchannelMultiReq
  | .registerCall ctx =>
    -- a controller is made for one call, so that the `exit` for one that is there is not taken
    if ctx.controller ∈ s.registered then none
    else some { s with
      rpc_calllifetime := s.rpc_calllifetime ++ [ctx]
      registered := s.registered ++ [ctx.controller] }
  -- a call is registered before `CallMethod` is called for it
  | .callMethod controller service_name method_name =>
    if controller ∉ s.registered then none
    else if s.clientFd = -1 then
      some { s.setFailed controller with returned := s.returned ++ [controller] }
    else some { s with
      threads := s.threads ++ [{ controller, service_name, method_name, phase := .connected }] }
  | .fetchAdd k => s.threads[k]?.bind fun t =>
    match t.phase with
    | .connected => some { s with
        threads := s.threads.set k { t with phase := .numbered s.nextRequset_id }
        nextRequset_id := s.nextRequset_id + 1 }
    | _ => none
  | .insert k => s.insert k
  | .schedule k => s.schedule k
  | .sendAll k ok =>
    if (s.failing .sender).isSome then none
    else s.sendTasks[k]?.map fun _ =>
      let s := { s with sendTasks := s.sendTasks.eraseIdx k }
      if ok then s else s.closeAndFail .sender
  | .socket fd retry =>
    if (s.failing .recipient).isSome ∨ s.connecting.isSome ∨ s.clientFd ≠ -1 then none
    else if fd ≠ -1 then some { s with clientFd := fd, connecting := some fd }
    else if retry then some s
    else some (s.closeAndFail .recipient)
  | .connect ok retry =>
    if (s.failing .recipient).isSome then none
    else s.connecting.map fun fd =>
      if ok then { s with clientFd := fd, connecting := none }
      else if retry then { s with clientFd := -1, connecting := none }
      else { s with connecting := none }.closeAndFail .recipient
  | .recv frame =>
    if (s.failing .recipient).isSome ∨ s.connecting.isSome then none
    else match frame with
      | none => some (s.closeAndFail .recipient)
      | some (requestId, payload) =>
        some ({ s with frames := s.frames ++ [(requestId, payload)] }.completeResponse requestId
          payload)
  | .failAllPending loop => s.failAllPending loop
  | .complete k => s.complete parses k

variable {parses : ℕ → Bytes → Bool} {s t : MrpcchannelMultiReq} {k c : ℕ} {loop : Loop}

/-! ### Where a call is -/

/-- The calls a `failAllPending` has taken. -/
def taken : Option Failing → List PendingCall
  | some (.running pending) => pending
  | _ => []

/-- The calls whose `done` is about to run. -/
def scheduled (s : MrpcchannelMultiReq) : List PendingCall :=
  taken (s.failing .sender) ++ taken (s.failing .recipient) ++ s.tasks.map (·.1)

/-- The ids that threads in `CallMethod` were given and have not used. -/
def numberedIds (threads : List CallThread) : List ℕ :=
  threads.filterMap fun t =>
    match t.phase with
    | .numbered requestId => some requestId
    | _ => none

/-- A call that was put into `m_pendings` is still there, or about to be completed, or completed; all
others are in `m_rpc_calllifetime`. -/
structure Placed (s : MrpcchannelMultiReq) : Prop where
  inserted : (s.pendings ++ (s.scheduled ++ s.ran.map (·.call))).Perm s.inserted
  registered : (s.rpc_calllifetime.map (·.controller) ++ s.inserted.map (·.controll)).Perm s.registered
  nodup : s.registered.Nodup

/-- No two calls have one id. -/
structure Numbered (s : MrpcchannelMultiReq) : Prop where
  nodup : (s.inserted.map (·.requestId) ++ numberedIds s.threads).Nodup
  lt : ∀ id ∈ s.inserted.map (·.requestId) ++ numberedIds s.threads, id < s.nextRequset_id

/-- What completes a call is a frame with its id. -/
structure Answered (s : MrpcchannelMultiReq) : Prop where
  tasks : ∀ x ∈ s.tasks, (x.1.requestId, x.2) ∈ s.frames
  ran : ∀ x ∈ s.ran, ∀ payload ∈ x.payload, (x.call.requestId, payload) ∈ s.frames
  ok : ∀ x ∈ s.ran, x.ok = true → x.payload.isSome

/-- `CallMethod` leaves no call in `m_rpc_calllifetime`. -/
structure Moved (s : MrpcchannelMultiReq) : Prop where
  threads : ∀ t ∈ s.threads, t.controller ∈ s.registered
  inserted : ∀ t ∈ s.threads, ∀ requestId ctx, t.phase = .inserted requestId ctx →
    t.controller ∉ s.rpc_calllifetime.map (·.controller)
  returned : ∀ c ∈ s.returned, c ∈ s.registered ∧ c ∉ s.rpc_calllifetime.map (·.controller)

structure Inv (s : MrpcchannelMultiReq) : Prop where
  placed : s.Placed
  numbered : s.Numbered
  answered : s.Answered
  moved : s.Moved

/-- A list is cut at one of its elements. -/
lemma exists_split {α : Type*} {l : List α} {x : α} (h : l[k]? = some x) :
    ∃ a b, l = a ++ x :: b ∧ l.eraseIdx k = a ++ b ∧ ∀ y, l.set k y = a ++ y :: b := by
  obtain ⟨hlt, rfl⟩ := List.getElem?_eq_some_iff.mp h
  refine ⟨l.take k, l.drop (k + 1), ?_, List.eraseIdx_eq_take_drop_succ .., fun y => ?_⟩
  · rw [List.getElem_cons_drop, List.take_append_drop]
  · rw [List.set_eq_take_append_cons_drop, if_pos hlt]

/-- A returning thread. -/
lemma Inv.return_ (h : s.Inv) {th : CallThread} (hk : s.threads[k]? = some th)
    (hgone : th.controller ∉ s.rpc_calllifetime.map (·.controller)) :
    (s.return_ k th.controller).Inv := by
  obtain ⟨a, b, hthreads, herase, -⟩ := exists_split hk
  have hsub : (s.threads.eraseIdx k).Sublist s.threads := List.eraseIdx_sublist ..
  have hmem := List.mem_of_getElem? hk
  have hnumbered : (numberedIds (s.threads.eraseIdx k)).Sublist (numberedIds s.threads) := hsub.filterMap _
  exact {
    placed := ⟨h.placed.inserted, h.placed.registered, h.placed.nodup⟩
    numbered := ⟨h.numbered.nodup.sublist ((List.Sublist.refl _).append hnumbered), fun id hid =>
      h.numbered.lt id (((List.Sublist.refl _).append hnumbered).subset hid)⟩
    answered := ⟨h.answered.tasks, h.answered.ran, h.answered.ok⟩
    moved := {
      threads := fun t ht => h.moved.threads t (hsub.subset ht)
      inserted := fun t ht => h.moved.inserted t (hsub.subset ht)
      returned := fun c hc => by
        obtain hc | hc := List.mem_append.mp hc
        · exact h.moved.returned c hc
        · obtain rfl := List.mem_singleton.mp hc
          exact ⟨h.moved.threads th hmem, hgone⟩ } }

/-- Only what `SetFailed` looks at. -/
lemma Inv.setFailed (h : s.Inv) (controller : ℕ) : (s.setFailed controller).Inv where
  placed := ⟨h.placed.inserted, h.placed.registered, h.placed.nodup⟩
  numbered := ⟨h.numbered.nodup, h.numbered.lt⟩
  answered := ⟨h.answered.tasks, h.answered.ran, h.answered.ok⟩
  moved := ⟨h.moved.threads, h.moved.inserted, h.moved.returned⟩

/-- Registering a call keeps the invariant. -/
lemma Inv.registerCall (h : s.Inv) {ctx : RpcCallLifetime} (hnew : ctx.controller ∉ s.registered) :
    Inv { s with
      rpc_calllifetime := s.rpc_calllifetime ++ [ctx]
      registered := s.registered ++ [ctx.controller] } where
  placed := {
    inserted := h.placed.inserted
    registered := by
      rw [List.map_append, List.append_assoc]
      refine (List.Perm.append_left _ List.perm_append_comm).trans ?_
      rw [← List.append_assoc]
      exact h.placed.registered.append_right _
    nodup := List.nodup_append.mpr ⟨h.placed.nodup, List.nodup_singleton _, by
      rintro x hx y hy rfl
      exact hnew (List.mem_singleton.mp hy ▸ hx)⟩ }
  numbered := ⟨h.numbered.nodup, h.numbered.lt⟩
  answered := ⟨h.answered.tasks, h.answered.ran, h.answered.ok⟩
  moved := by
    have hother : ∀ c, c ∈ s.registered → c ∉ s.rpc_calllifetime.map (·.controller) →
        c ∉ (s.rpc_calllifetime ++ [ctx]).map (·.controller) := by
      intro c hc hgone hmem
      rw [List.map_append, List.mem_append] at hmem
      obtain hmem | hmem := hmem
      · exact hgone hmem
      · obtain rfl := List.mem_singleton.mp hmem
        exact hnew hc
    exact {
      threads := fun t ht => List.mem_append_left _ (h.moved.threads t ht)
      inserted := fun t ht id ctx' hphase =>
        hother _ (h.moved.threads t ht) (h.moved.inserted t ht id ctx' hphase)
      returned := fun c hc => by
        obtain ⟨hreg, hgone⟩ := h.moved.returned c hc
        exact ⟨List.mem_append_left _ hreg, hother c hreg hgone⟩ }

/-- The ids that were numbered, around one thread. -/
lemma numberedIds_split {a b : List CallThread} (th : CallThread) :
    numberedIds (a ++ th :: b) = numberedIds a ++ (numberedIds [th] ++ numberedIds b) := by
  rw [numberedIds, List.filterMap_append, ← List.singleton_append, List.filterMap_append]
  rfl

/-- A call that finds the channel connected keeps the invariant. -/
lemma Inv.callMethod (h : s.Inv) {controller : ℕ} (hreg : controller ∈ s.registered)
    (service_name method_name : Bytes) :
    Inv { s with
      threads := s.threads ++ [{ controller, service_name, method_name, phase := .connected }] } where
  placed := ⟨h.placed.inserted, h.placed.registered, h.placed.nodup⟩
  numbered := by
    have heq : numberedIds (s.threads ++
        [{ controller, service_name, method_name, phase := .connected }]) = numberedIds s.threads := by
      rw [numberedIds, List.filterMap_append]
      exact List.append_nil _
    exact ⟨heq.symm ▸ h.numbered.nodup, heq.symm ▸ h.numbered.lt⟩
  answered := ⟨h.answered.tasks, h.answered.ran, h.answered.ok⟩
  moved := {
    threads := fun t ht => by
      obtain ht | ht := List.mem_append.mp ht
      · exact h.moved.threads t ht
      · obtain rfl := List.mem_singleton.mp ht
        exact hreg
    inserted := fun t ht id ctx hphase => by
      obtain ht | ht := List.mem_append.mp ht
      · exact h.moved.inserted t ht id ctx hphase
      · obtain rfl := List.mem_singleton.mp ht
        cases hphase
    returned := h.moved.returned }

/-- A thread takes the next id. -/
lemma Inv.fetchAdd (h : s.Inv) {th : CallThread} (hk : s.threads[k]? = some th)
    (hphase : th.phase = .connected) :
    Inv { s with
      threads := s.threads.set k { th with phase := .numbered s.nextRequset_id }
      nextRequset_id := s.nextRequset_id + 1 } := by
  obtain ⟨a, b, hthreads, -, hset⟩ := exists_split hk
  have hnone : numberedIds [th] = [] := by
    rw [numberedIds, List.filterMap_cons, hphase]
    rfl
  have hids : numberedIds s.threads = numberedIds a ++ numberedIds b := by
    rw [hthreads, numberedIds_split, hnone, List.nil_append]
  have hids' : numberedIds (s.threads.set k { th with phase := .numbered s.nextRequset_id }) =
      numberedIds a ++ s.nextRequset_id :: numberedIds b := by
    rw [hset, numberedIds_split]
    rfl
  have hperm : (s.inserted.map (·.requestId) ++
      (numberedIds a ++ s.nextRequset_id :: numberedIds b)).Perm
        (s.nextRequset_id :: (s.inserted.map (·.requestId) ++ numberedIds s.threads)) := by
    rw [hids, ← List.append_assoc, ← List.append_assoc]
    exact List.perm_middle
  have hmem := List.mem_of_getElem? hk
  exact {
    placed := ⟨h.placed.inserted, h.placed.registered, h.placed.nodup⟩
    numbered := {
      nodup := by
        simp only [hids', hperm.nodup_iff, List.nodup_cons]
        exact ⟨fun hin => Nat.lt_irrefl _ (h.numbered.lt _ hin), h.numbered.nodup⟩
      lt := fun id hid => by
        simp only [hids'] at hid
        obtain rfl | hid := List.mem_cons.mp (hperm.subset hid)
        · exact Nat.lt_succ_self _
        · exact Nat.lt_succ_of_lt (h.numbered.lt id hid) }
    answered := ⟨h.answered.tasks, h.answered.ran, h.answered.ok⟩
    moved := {
      threads := fun t ht => by
        obtain ht | rfl := List.mem_or_eq_of_mem_set ht
        · exact h.moved.threads t ht
        · exact h.moved.threads th hmem
      inserted := fun t ht id ctx ht' => by
        obtain ht | rfl := List.mem_or_eq_of_mem_set ht
        · exact h.moved.inserted t ht id ctx ht'
        · cases ht'
      returned := h.moved.returned } }

/-- A call moves to `m_pendings`. -/
lemma Inv.insert (h : s.Inv) (hs : s.insert k = some t) : t.Inv := by
  obtain ⟨th, hk, hs⟩ := Option.bind_eq_some_iff.mp hs
  cases hphase : th.phase with
  | connected =>
    rw [hphase] at hs
    cases hs
  | inserted requestId ctx =>
    rw [hphase] at hs
    cases hs
  | numbered requestId =>
    simp only [hphase] at hs
    cases hfind : s.rpc_calllifetime.find? (·.controller = th.controller) with
    | none =>
      rw [hfind] at hs
      obtain rfl := Option.some.inj hs
      refine (h.setFailed th.controller).return_ hk fun hmem => ?_
      obtain ⟨ctx, hctx, heq⟩ := List.mem_map.mp hmem
      exact absurd heq (by simpa using List.find?_eq_none.mp hfind ctx hctx)
    | some ctx =>
      rw [hfind] at hs
      obtain rfl := Option.some.inj hs
      obtain ⟨a, b, hthreads, -, hset⟩ := exists_split hk
      have hctx := List.mem_of_find?_eq_some hfind
      have hcontroller : ctx.controller = th.controller := by
        simpa using List.find?_some hfind
      have hmem := List.mem_of_getElem? hk
      -- the id is new
      have hone : numberedIds [th] = [requestId] := by
        rw [numberedIds, List.filterMap_cons, hphase]
        rfl
      have hids : numberedIds s.threads = numberedIds a ++ requestId :: numberedIds b := by
        rw [hthreads, numberedIds_split, hone, List.singleton_append]
      have hids' : numberedIds (s.threads.set k { th with phase := .inserted requestId ctx }) =
          numberedIds a ++ numberedIds b := by
        rw [hset, numberedIds_split]
        rfl
      have hperm : (s.inserted.map (·.requestId) ++ [requestId] ++
          (numberedIds a ++ numberedIds b)).Perm
            (s.inserted.map (·.requestId) ++ numberedIds s.threads) := by
        rw [hids, List.append_assoc, List.singleton_append]
        exact List.Perm.append_left _ List.perm_middle.symm
      have hnew : ¬ s.pendings.any (·.requestId = requestId) := by
        intro hany
        obtain ⟨p, hp, heq⟩ := List.any_eq_true.mp hany
        have hin := List.mem_map_of_mem (f := (·.requestId))
          (h.placed.inserted.subset (List.mem_append_left _ hp))
        have hnodup := (hperm.nodup_iff.mpr h.numbered.nodup).of_append_left
        rw [List.nodup_append] at hnodup
        exact hnodup.2.2 _ hin requestId (List.mem_singleton_self _) (of_decide_eq_true heq)
      -- and the call leaves its place
      have herase := List.perm_cons_erase hctx
      have hlife : (s.rpc_calllifetime.map (·.controller)).Perm
          (ctx.controller :: (s.rpc_calllifetime.erase ctx).map (·.controller)) := herase.map _
      have hnodup : (s.rpc_calllifetime.map (·.controller)).Nodup :=
        (h.placed.registered.nodup_iff.mpr h.placed.nodup).of_append_left
      have hgone : ctx.controller ∉ (s.rpc_calllifetime.erase ctx).map (·.controller) :=
        (List.nodup_cons.mp (hlife.nodup_iff.mp hnodup)).1
      have hsub : ∀ c, c ∉ s.rpc_calllifetime.map (·.controller) →
          c ∉ (s.rpc_calllifetime.erase ctx).map (·.controller) := fun c hc hin =>
        hc ((List.erase_sublist.map _).subset hin)
      exact {
        placed := {
          inserted := by
            simp only [if_neg hnew]
            rw [List.append_assoc]
            refine (List.Perm.append_left _ List.perm_append_comm).trans ?_
            rw [← List.append_assoc]
            exact h.placed.inserted.append_right _
          registered := by
            refine List.Perm.trans ?_ h.placed.registered
            rw [List.map_append, ← List.append_assoc]
            refine List.perm_append_comm.trans ?_
            exact (hlife.symm.append_right _)
          nodup := h.placed.nodup }
        numbered := {
          nodup := by
            simp only [hids', List.map_append]
            exact hperm.nodup_iff.mpr h.numbered.nodup
          lt := fun id hid => by
            simp only [hids', List.map_append] at hid
            exact h.numbered.lt id (hperm.subset hid) }
        answered := ⟨h.answered.tasks, h.answered.ran, h.answered.ok⟩
        moved := {
          threads := fun t ht => by
            obtain ht | rfl := List.mem_or_eq_of_mem_set ht
            · exact h.moved.threads t ht
            · exact h.moved.threads th hmem
          inserted := fun t ht id ctx' ht' => by
            obtain ht | rfl := List.mem_or_eq_of_mem_set ht
            · exact hsub _ (h.moved.inserted t ht id ctx' ht')
            · exact hcontroller ▸ hgone
          returned := fun c hc => ⟨(h.moved.returned c hc).1, hsub c (h.moved.returned c hc).2⟩ } }

/-- A call is on its way when `CallMethod` returns. -/
lemma Inv.schedule (h : s.Inv) (hs : s.schedule k = some t) : t.Inv := by
  obtain ⟨th, hk, hs⟩ := Option.bind_eq_some_iff.mp hs
  cases hphase : th.phase with
  | connected =>
    rw [hphase] at hs
    cases hs
  | numbered requestId =>
    rw [hphase] at hs
    cases hs
  | inserted requestId ctx =>
    simp only [hphase] at hs
    have hgone := h.moved.inserted th (List.mem_of_getElem? hk) requestId ctx hphase
    cases hrequest : ctx.request with
    | none =>
      rw [hrequest] at hs
      obtain rfl := Option.some.inj hs
      exact (h.setFailed th.controller).return_ hk hgone
    | some req_str =>
      rw [hrequest] at hs
      dsimp only at hs
      split_ifs at hs with hlarge
      · obtain rfl := Option.some.inj hs
        exact (h.setFailed th.controller).return_ hk hgone
      obtain rfl := Option.some.inj hs
      have hr := h.return_ hk hgone
      exact {
        placed := ⟨hr.placed.inserted, hr.placed.registered, hr.placed.nodup⟩
        numbered := ⟨hr.numbered.nodup, hr.numbered.lt⟩
        answered := ⟨hr.answered.tasks, hr.answered.ran, hr.answered.ok⟩
        moved := ⟨hr.moved.threads, hr.moved.inserted, hr.moved.returned⟩ }

/-- The calls that one loop has taken, and the rest. -/
lemma scheduled_split (s : MrpcchannelMultiReq) (loop : Loop) :
    ∃ rest, s.scheduled.Perm (taken (s.failing loop) ++ rest) ∧
      ∀ x, (taken (Function.update s.failing loop x .sender) ++
        taken (Function.update s.failing loop x .recipient) ++ s.tasks.map (·.1)).Perm
          (taken x ++ rest) := by
  cases loop with
  | sender =>
    refine ⟨taken (s.failing .recipient) ++ s.tasks.map (·.1), ?_, fun x => ?_⟩
    · rw [scheduled, List.append_assoc]
    · rw [Function.update_self, Function.update_of_ne (by decide), List.append_assoc]
  | recipient =>
    refine ⟨taken (s.failing .sender) ++ s.tasks.map (·.1), ?_, fun x => ?_⟩
    · rw [scheduled, ← List.append_assoc]
      exact List.perm_append_comm.append_right _
    · rw [Function.update_self, Function.update_of_ne (by decide), ← List.append_assoc]
      exact List.perm_append_comm.append_right _

/-- Calls that stay among those inserted. -/
lemma Inv.place (h : s.Inv) {u : MrpcchannelMultiReq}
    (hperm : (u.pendings ++ (u.scheduled ++ u.ran.map (·.call))).Perm
      (s.pendings ++ (s.scheduled ++ s.ran.map (·.call)))) (hanswered : u.Answered)
    (hinserted : u.inserted = s.inserted) (hlife : u.rpc_calllifetime = s.rpc_calllifetime)
    (hregistered : u.registered = s.registered) (hthreads : u.threads = s.threads)
    (hnext : u.nextRequset_id = s.nextRequset_id) (hreturned : u.returned = s.returned) : u.Inv where
  placed := ⟨hinserted ▸ hperm.trans h.placed.inserted,
    by rw [hlife, hinserted, hregistered]; exact h.placed.registered,
    hregistered ▸ h.placed.nodup⟩
  numbered := ⟨by rw [hinserted, hthreads]; exact h.numbered.nodup,
    by rw [hinserted, hthreads, hnext]; exact h.numbered.lt⟩
  answered := hanswered
  moved := ⟨by rw [hthreads, hregistered]; exact h.moved.threads,
    by rw [hthreads, hlife]; exact h.moved.inserted,
    by rw [hreturned, hregistered, hlife]; exact h.moved.returned⟩

/-- Closing the connection and failing what is pending keeps the invariant. -/
lemma Inv.closeAndFail (h : s.Inv) (hloop : s.failing loop = none) : (s.closeAndFail loop).Inv := by
  obtain ⟨rest, hold, hnew⟩ := scheduled_split s loop
  rw [hloop] at hold
  refine h.place ?_ ⟨h.answered.tasks, h.answered.ran, h.answered.ok⟩ rfl rfl rfl rfl rfl rfl
  exact List.Perm.append_left _ (((hnew (some .swapping)).trans hold.symm).append_right _)

/-- A response takes its call. -/
lemma Inv.completeResponse (h : s.Inv) (requestId : ℕ) (payload : Bytes) :
    ({ s with frames := s.frames ++ [(requestId, payload)] }.completeResponse requestId
      payload).Inv := by
  have hframes : ∀ x ∈ s.frames, x ∈ s.frames ++ [(requestId, payload)] := fun x hx =>
    List.mem_append_left _ hx
  have hanswered : ∀ x ∈ s.ran, ∀ payload' ∈ x.payload,
      (x.call.requestId, payload') ∈ s.frames ++ [(requestId, payload)] := fun x hx payload' hp =>
    hframes _ (h.answered.ran x hx payload' hp)
  rw [MrpcchannelMultiReq.completeResponse]
  cases hfind : s.pendings.find? (·.requestId = requestId) with
  | none =>
    refine h.place (.refl _) ⟨fun x hx => hframes _ (h.answered.tasks x hx), hanswered,
      h.answered.ok⟩ rfl rfl rfl rfl rfl rfl
  | some pending =>
    have hid : pending.requestId = requestId := by simpa using List.find?_some hfind
    have herase := List.perm_cons_erase (List.mem_of_find?_eq_some hfind)
    refine h.place ?_ ⟨fun x hx => ?_, hanswered, h.answered.ok⟩ rfl rfl rfl rfl rfl rfl
    · -- from the pending calls to the tasks
      show (s.pendings.erase pending ++ ((taken (s.failing .sender) ++ taken (s.failing .recipient) ++
        (s.tasks ++ [(pending, payload)]).map (·.1)) ++ s.ran.map (·.call))).Perm _
      rw [List.map_append, ← List.append_assoc (taken (s.failing .sender) ++ _), List.append_assoc _ _
        (s.ran.map (·.call))]
      show (s.pendings.erase pending ++ (s.scheduled ++ pending :: s.ran.map (·.call))).Perm _
      refine (List.Perm.append_left _ List.perm_middle).trans ?_
      exact List.perm_middle.trans (herase.symm.append_right _)
    · obtain hx | hx := List.mem_append.mp hx
      · exact hframes _ (h.answered.tasks x hx)
      · obtain rfl := List.mem_singleton.mp hx
        exact List.mem_append_right _ (List.mem_singleton.mpr (by rw [hid]))

/-- `failAllPending` takes all pending calls, and runs the closure of each. -/
lemma Inv.failAllPending (h : s.Inv) (hs : s.failAllPending loop = some t) : t.Inv := by
  obtain ⟨rest, hold, hnew⟩ := scheduled_split s loop
  rw [MrpcchannelMultiReq.failAllPending] at hs
  cases hfailing : s.failing loop with
  | none =>
    rw [hfailing] at hs
    cases hs
  | some phase =>
    rw [hfailing] at hs hold
    cases phase with
    | swapping =>
      obtain rfl := Option.some.inj hs
      refine h.place ?_ ⟨h.answered.tasks, h.answered.ran, h.answered.ok⟩ rfl rfl rfl rfl rfl rfl
      refine ((hnew (some (.running s.pendings))).append_right _).trans ?_
      rw [List.append_assoc]
      exact List.Perm.append_left _ (hold.symm.append_right _)
    | running calls =>
      cases calls with
      | nil =>
        obtain rfl := Option.some.inj hs
        refine h.place ?_ ⟨h.answered.tasks, h.answered.ran, h.answered.ok⟩ rfl rfl rfl rfl rfl rfl
        exact List.Perm.append_left _ (((hnew none).trans hold.symm).append_right _)
      | cons pending calls =>
        obtain rfl := Option.some.inj hs
        refine h.place ?_ ⟨h.answered.tasks, fun x hx => ?_, fun x hx => ?_⟩ rfl rfl rfl rfl rfl rfl
        · -- from the loop to the calls that were completed
          refine List.Perm.append_left _ ?_
          refine ((hnew (some (.running calls))).append_right _).trans ?_
          refine List.Perm.trans ?_ (hold.symm.append_right _)
          simp only [List.map_append, List.map_cons, List.map_nil]
          show (calls ++ rest ++ (s.ran.map (·.call) ++ [pending])).Perm
            (pending :: (calls ++ rest) ++ s.ran.map (·.call))
          rw [← List.append_assoc, List.cons_append]
          exact List.perm_append_singleton ..
        · obtain hx | hx := List.mem_append.mp hx
          · exact h.answered.ran x hx
          · obtain rfl := List.mem_singleton.mp hx
            exact fun _ hp => by cases hp
        · obtain hx | hx := List.mem_append.mp hx
          · exact h.answered.ok x hx
          · obtain rfl := List.mem_singleton.mp hx
            exact fun hok => by cases hok

/-- A task runs the closure of its call. -/
lemma Inv.complete (h : s.Inv) (hs : s.complete parses k = some t) : t.Inv := by
  obtain ⟨⟨pending, payload⟩, hk, hs⟩ := Option.bind_eq_some_iff.mp hs
  obtain ⟨a, b, htasks, herase, -⟩ := exists_split hk
  have hmem := List.mem_of_getElem? hk
  have hframe := h.answered.tasks _ hmem
  obtain ⟨failed, hfailed⟩ : ∃ failed, t = { s with
      tasks := s.tasks.eraseIdx k
      failed
      ran := s.ran ++ [{ call := pending, ok := pending.controll ∉ failed, payload := some payload }] } := by
    obtain rfl := Option.some.inj hs
    by_cases hparses : parses pending.controll payload
    · refine ⟨s.failed, ?_⟩
      simp only [hparses, if_true]
    · refine ⟨s.failed ++ [pending.controll], ?_⟩
      simp only [hparses, Bool.false_eq_true, if_false]
      rfl
  obtain rfl := hfailed
  refine h.place ?_ ⟨fun x hx => h.answered.tasks x (List.mem_of_mem_eraseIdx hx), fun x hx => ?_,
    fun x hx => ?_⟩ rfl rfl rfl rfl rfl rfl
  · refine List.Perm.append_left _ ?_
    have hscheduled : s.scheduled = taken (s.failing .sender) ++ taken (s.failing .recipient) ++
        (a ++ (pending, payload) :: b).map (·.1) := by
      rw [scheduled, htasks]
    rw [hscheduled, scheduled]
    simp only [herase, List.map_append, List.map_cons, List.map_nil, ← List.append_assoc]
    refine (List.perm_append_singleton ..).trans ?_
    rw [List.append_assoc _ (pending :: _), List.cons_append, List.append_assoc _ (b.map _)]
    exact List.perm_middle.symm
  · obtain hx | hx := List.mem_append.mp hx
    · exact h.answered.ran x hx
    · obtain rfl := List.mem_singleton.mp hx
      rintro payload' hp
      obtain rfl := Option.some.inj hp
      exact hframe
  · obtain hx | hx := List.mem_append.mp hx
    · exact h.answered.ok x hx
    · obtain rfl := List.mem_singleton.mp hx
      exact fun _ => rfl

/-! ### Runs -/

/-- The channel is connected when `CallMethod` begins. -/
def Connected (s : MrpcchannelMultiReq) : Event → Prop
  | .callMethod _ _ _ => s.clientFd ≠ -1
  | _ => True

instance (s : MrpcchannelMultiReq) (e : Event) : Decidable (Connected s e) :=
  match e with
  | .callMethod _ _ _ => inferInstanceAs (Decidable (s.clientFd ≠ -1))
  | .registerCall _ | .fetchAdd _ | .insert _ | .schedule _ | .sendAll _ _ | .socket _ _
  | .connect _ _ | .recv _ | .failAllPending _ | .complete _ => inferInstanceAs (Decidable True)

/-- Every step leaves each call in its one place, if `CallMethod` does not return at once. -/
lemma Inv.step (h : s.Inv) {e : Event} (hconnected : Connected s e) (hs : s.step parses e = some t) :
    t.Inv := by
  cases e with
  | registerCall ctx =>
    rw [MrpcchannelMultiReq.step] at hs
    split_ifs at hs with hnew
    obtain rfl := Option.some.inj hs
    exact h.registerCall hnew
  | callMethod controller service_name method_name =>
    rw [MrpcchannelMultiReq.step] at hs
    split_ifs at hs with hreg hfd
    · exact absurd hfd hconnected
    · obtain rfl := Option.some.inj hs
      exact h.callMethod hreg service_name method_name
  | fetchAdd k =>
    obtain ⟨th, hk, hs⟩ := Option.bind_eq_some_iff.mp hs
    cases hphase : th.phase with
    | connected =>
      simp only [hphase] at hs
      obtain rfl := Option.some.inj hs
      exact h.fetchAdd hk hphase
    | numbered requestId =>
      rw [hphase] at hs
      cases hs
    | inserted requestId ctx =>
      rw [hphase] at hs
      cases hs
  | insert k => exact h.insert hs
  | schedule k => exact h.schedule hs
  | sendAll k ok =>
    have hsent : Inv { s with sendTasks := s.sendTasks.eraseIdx k } :=
      h.place (.refl _) ⟨h.answered.tasks, h.answered.ran, h.answered.ok⟩ rfl rfl rfl rfl rfl rfl
    rw [MrpcchannelMultiReq.step] at hs
    split_ifs at hs with hfailing hok
    · obtain ⟨_, -, rfl⟩ := Option.map_eq_some_iff.mp hs
      exact hsent
    · obtain ⟨_, -, rfl⟩ := Option.map_eq_some_iff.mp hs
      exact hsent.closeAndFail (Option.not_isSome_iff_eq_none.mp hfailing)
  | socket fd retry =>
    rw [MrpcchannelMultiReq.step] at hs
    split_ifs at hs with hbusy hfd hretry
    · obtain rfl := Option.some.inj hs
      exact h.place (.refl _) ⟨h.answered.tasks, h.answered.ran, h.answered.ok⟩ rfl rfl rfl rfl rfl rfl
    · obtain rfl := Option.some.inj hs
      exact h
    · obtain rfl := Option.some.inj hs
      exact h.closeAndFail (Option.not_isSome_iff_eq_none.mp (not_or.mp hbusy).1)
  | connect ok retry =>
    have hother : ∀ fd, Inv { s with clientFd := fd, connecting := none } := fun fd =>
      h.place (.refl _) ⟨h.answered.tasks, h.answered.ran, h.answered.ok⟩ rfl rfl rfl rfl rfl rfl
    rw [MrpcchannelMultiReq.step] at hs
    split_ifs at hs with hfailing hok hretry
    · obtain ⟨fd, -, rfl⟩ := Option.map_eq_some_iff.mp hs
      exact hother fd
    · obtain ⟨_, -, rfl⟩ := Option.map_eq_some_iff.mp hs
      exact hother (-1)
    · obtain ⟨_, -, rfl⟩ := Option.map_eq_some_iff.mp hs
      exact (hother s.clientFd).closeAndFail (Option.not_isSome_iff_eq_none.mp hfailing)
  | recv frame =>
    cases frame with
    | none =>
      rw [MrpcchannelMultiReq.step] at hs
      split_ifs at hs with hbusy
      obtain rfl := Option.some.inj hs
      exact h.closeAndFail (Option.not_isSome_iff_eq_none.mp (not_or.mp hbusy).1)
    | some frame =>
      obtain ⟨requestId, payload⟩ := frame
      rw [MrpcchannelMultiReq.step] at hs
      split_ifs at hs with hbusy
      obtain rfl := Option.some.inj hs
      exact h.completeResponse requestId payload
  | failAllPending loop => exact h.failAllPending hs
  | complete k => exact h.complete hs

/-- A channel before its first call. -/
def initial (fd : ℤ) : MrpcchannelMultiReq := { clientFd := fd }

/-- The invariant holds at the start. -/
lemma inv_initial (fd : ℤ) : (initial fd).Inv where
  placed := ⟨.refl _, .refl _, .nil⟩
  numbered := ⟨.nil, fun _ hid => by cases hid⟩
  answered := ⟨fun _ hx => (by cases hx), fun _ hx => (by cases hx), fun _ hx => by cases hx⟩
  moved := ⟨fun _ ht => (by cases ht), fun _ ht => (by cases ht), fun _ hc => by cases hc⟩

/-- A call that `CallMethod` has returned for is in `m_pendings`, or its `done` is scheduled, or `done`
has run, and no two of these; `m_rpc_calllifetime` does not have it. -/
def Owned (s : MrpcchannelMultiReq) (c : ℕ) : Prop :=
  (s.pendings.map (·.controll)).count c + (s.scheduled.map (·.controll)).count c +
      (s.ran.map (·.call.controll)).count c = 1 ∧
    c ∉ s.rpc_calllifetime.map (·.controller)

/-- A completion without `SetFailed` has the payload of a frame with the id of its call. -/
def OwnPayload (s : MrpcchannelMultiReq) (x : Completion) : Prop :=
  x.ok = true → ∃ payload, x.payload = some payload ∧ (x.call.requestId, payload) ∈ s.frames

instance (s : MrpcchannelMultiReq) (c : ℕ) : Decidable (s.Owned c) :=
  inferInstanceAs (Decidable (_ ∧ _))

/-- A call that was inserted is pending, scheduled or completed. -/
lemma Placed.count_eq (h : s.Placed) (c : ℕ) :
    (s.pendings.map (·.controll)).count c + (s.scheduled.map (·.controll)).count c +
      (s.ran.map (·.call.controll)).count c = (s.inserted.map (·.controll)).count c := by
  have hcount := (h.inserted.map (·.controll)).count_eq c
  simp only [List.map_append, List.count_append, List.map_map] at hcount
  rw [← hcount, Nat.add_assoc]
  rfl

/-- A call is inserted at most once. -/
lemma Placed.count_le (h : s.Placed) (c : ℕ) : (s.inserted.map (·.controll)).count c ≤ 1 := by
  have hcount := h.registered.count_eq c
  rw [List.count_append] at hcount
  have hle := List.nodup_iff_count_le_one.mp h.nodup c
  omega

/-- A call that has returned is owned by the channel. -/
lemma Inv.owned (h : s.Inv) (hc : c ∈ s.returned) : s.Owned c := by
  obtain ⟨hreg, hgone⟩ := h.moved.returned c hc
  have hcount := h.placed.registered.count_eq c
  rw [List.count_append, List.count_eq_zero.mpr hgone, Nat.zero_add] at hcount
  refine ⟨?_, hgone⟩
  rw [h.placed.count_eq, hcount]
  exact List.count_eq_one_of_mem h.placed.nodup hreg

/-- In a run in which no `CallMethod` finds the channel closed, every call that was returned for has its
one place; `done` runs at most once for a call, and with a response to this call. -/
theorem completed_once {fd : ℤ} (h : Run (step parses) Connected (initial fd) s) :
    (∀ c ∈ s.returned, s.Owned c) ∧ (∀ c, (s.ran.map (·.call.controll)).count c ≤ 1) ∧
      (∀ x ∈ s.ran, s.OwnPayload x) ∧ (s.inserted.map (·.requestId)).Nodup := by
  have hinv : s.Inv := h.invariant (fun _ _ _ hu hP hstep => hu.step hP hstep) (inv_initial fd)
  refine ⟨fun c hc => hinv.owned hc, fun c => ?_, fun x hx hok => ?_, ?_⟩
  · have hcount := hinv.placed.count_eq c
    have hle := hinv.placed.count_le c
    omega
  · obtain ⟨payload, hpayload⟩ := Option.isSome_iff_exists.mp (hinv.answered.ok x hx hok)
    exact ⟨payload, hpayload, hinv.answered.ran x hx payload hpayload⟩
  · exact hinv.numbered.nodup.of_append_left

/-- Two calls, of which the second is numbered first. One of them is answered, and the connection is lost
before the other is. -/
theorem completed_once_answered : ∃ s,
    Run (step fun _ _ => true) Connected (initial 3) s ∧
      (((∀ c < 2, c ∈ s.returned) ∧
        s.ran.map (fun x => (x.call.controll, x.call.requestId, x.ok)) = [(1, 0, false), (0, 1, true)]) ∧
      ∀ c < 2, s.Owned c) := by
  have hruns : ∃ s ∈ runIf (step fun _ _ => true) Connected (initial 3)
      [.registerCall ⟨0, some [8, 1]⟩, .registerCall ⟨1, some [8, 2]⟩, .callMethod 0 [] [],
        .callMethod 1 [] [], .fetchAdd 1, .fetchAdd 0, .insert 0, .insert 1, .schedule 0, .schedule 0,
        .sendAll 1 true, .sendAll 0 true, .recv (some (1, [16, 1])), .recv none,
        .failAllPending .recipient, .failAllPending .recipient, .complete 0,
        .failAllPending .recipient],
      (∀ c < 2, c ∈ s.returned) ∧
        s.ran.map (fun x => (x.call.controll, x.call.requestId, x.ok)) =
          [(1, 0, false), (0, 1, true)] := by decide
  obtain ⟨s, hrun, hs⟩ := exists_run_of_runIf hruns
  exact ⟨s, hrun, hs, fun c hc => (completed_once hrun).1 c (hs.1 c hc)⟩

/-- A call that finds the connection closed: its `done` has not run and is not going to, and its entry
stays in `m_rpc_calllifetime`. -/
theorem exists_not_owned : ∃ s,
    Run (step fun _ _ => true) (fun _ _ => True) (initial 3) s ∧
      0 ∈ s.registered ∧ 0 ∈ s.returned ∧ 0 ∈ s.rpc_calllifetime.map (·.controller) ∧
      s.pendings = [] ∧ s.scheduled = [] ∧ s.ran = [] ∧ ¬ s.Owned 0 := by
  have hruns : ∃ s ∈ runIf (step fun _ _ => true) (fun _ _ => True) (initial 3)
      [.recv none, .registerCall ⟨0, some [8, 1]⟩, .callMethod 0 [] []],
      0 ∈ s.registered ∧ 0 ∈ s.returned ∧ 0 ∈ s.rpc_calllifetime.map (·.controller) ∧
      s.pendings = [] ∧ s.scheduled = [] ∧ s.ran = [] ∧ ¬ s.Owned 0 := by decide
  exact exists_run_of_runIf hruns

end MrpcchannelMultiReq

end KVCacheRaft
