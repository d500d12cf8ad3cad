import KVCacheRaft.Machine.Linearizable
import KVCacheRaft.Server.Once

/-!
# The service is linearizable

What the clerks see of the service, with the moments at which their calls begin and end, is what one
store would do that carries out their requests one after another. An update takes effect at its first
place in the log, and a `Get` behind the last command that the server which answers it has applied: that
is behind the command of the `Get` itself, which is in the log only after the call has begun.
-/

namespace KVCacheRaft

open Machine

/-- A store that carries out requests one after another. An `Append` replaces the value, as a `Put`
does, and a key that is not there has the empty value. -/
def store : Sequential (Bytes → Option Bytes) Op Bytes where
  init := fun _ => none
  exec map op := if op.IsUpdate then (replace map op, []) else (map, (map op.Key).getD [])

/-- What `Clerk::Get` returns for a reply; `Clerk::PutAppend` returns nothing. -/
def ClerkReply.result (reply : ClerkReply) (op : Op) : Bytes :=
  if ¬ op.IsUpdate ∧ reply.err = .ok then reply.value else []

/-- A call of a clerk. What is below its moments is not seen by anyone: the length of the log when it
began, and the place of the last command that the answering server had applied. -/
structure Operation (κ : Type) where
  clerk : κ
  call : Timed Op Bytes
  since : ℕ
  read : Option ℕ

/-- The service, and what its clerks have seen. -/
structure Observed (κ : Type) where
  service : Service κ
  clock : ℕ
  operations : List (Operation κ)

variable {κ : Type}

/-- A call of the clerk that has not ended ends now, with a reply. -/
def Operation.finish [DecidableEq κ] (i : κ) (clock : ℕ) (reply : ClerkReply) (x : Operation κ) :
    Operation κ :=
  if x.clerk = i ∧ x.call.returned = none then
    { x with
      call := { x.call with returned := some (clock, reply.result x.call.op) }
      read := some (reply.applied.length - 1) }
  else x

namespace Observed

variable [DecidableEq κ]

/-- The reply that a clerk gets. -/
def reply (o : Observed κ) (i : κ) : Option ClerkReply :=
  (o.service.clerks i).request.bind fun r => o.service.calls[r.call]?.bind (·.phase.reply)

/-- What is seen of an event that leads to `t`: the call of a clerk begins with its request, and ends
when the clerk waits for nothing any more. -/
def see (o : Observed κ) (t : Service κ) : Service.Event κ → List (Operation κ)
  | .request i ask =>
    o.operations ++ [{
      clerk := i
      call := {
        op := ask.op (o.service.clerks i).clientId ((o.service.clerks i).requestId + 1)
        invoked := o.clock
        returned := none }
      since := o.service.log.length
      read := none }]
  | .receive i =>
    match (t.clerks i).request, o.reply i with
    | none, some reply => o.operations.map (·.finish i o.clock reply)
    | _, _ => o.operations
  | _ => o.operations

def step (A : Archives) (o : Observed κ) (e : Service.Event κ) : Option (Observed κ) :=
  (o.service.step A e).map fun t => { service := t, clock := o.clock + 1, operations := o.see t e }

def initial (size : ℕ) (maxraftstate : ℕ → ℤ) (rands : κ → ℕ → ℕ) : Observed κ where
  service := .initial size maxraftstate rands
  clock := 0
  operations := []

end Observed

/-- What a log leaves in the store. -/
def stored (log : List Op) : Bytes → Option Bytes := (updates log).foldl replace fun _ => none

/-- Where a call takes effect. -/
def Operation.point (log : List Op) (x : Operation κ) : Option ℕ :=
  if x.call.op.IsUpdate then (if x.call.op ∈ log then some (log.idxOf x.call.op) else none)
  else x.read

/-- What holds of a call that has ended. -/
def Operation.Right (log : List Op) (x : Operation κ) (result : Bytes) : Prop :=
  if x.call.op.IsUpdate then x.call.op ∈ log ∧ result = []
  else ∃ n ∈ x.read, result = (stored (log.take (n + 1)) x.call.op.Key).getD []

/-- How the calls and the log go together. -/
structure Timeline (log : List Op) (issued : List (Op × List Op)) (clock : ℕ)
    (operations : List (Operation κ)) : Prop where
  clock : ∀ x ∈ operations, x.call.invoked < clock
  invoked : (operations.map fun x => x.call.invoked).Nodup
  sent : ∀ x ∈ operations, ∃ before, (x.call.op, before) ∈ issued
  known : ∀ y ∈ issued, ∃ x ∈ operations, x.call.op = y.1
  distinct : ∀ x ∈ operations, ∀ y ∈ operations, x.call.op = y.call.op →
    x.call.invoked = y.call.invoked
  /-- the commands of a call, and those of later ones of its clerk, come behind its beginning -/
  since : ∀ x ∈ operations, x.since ≤ log.length ∧
    ∀ n o, log[n]? = some o → o.ClientId = x.call.op.ClientId →
      x.call.op.RequestId ≤ o.RequestId → x.since ≤ n
  read : ∀ x ∈ operations, ∀ n ∈ x.read, x.since ≤ n ∧ n < log.length
  results : ∀ x ∈ operations, ∀ r ∈ x.call.returned, x.Right log r.2
  realtime : ∀ x ∈ operations, ∀ y ∈ operations, x.call.Precedes y.call →
    ∀ n ∈ x.point log, n < y.since

/-- What holds of the service and what is seen of it. -/
structure Watched (o : Observed κ) : Prop where
  inv : o.service.Inv
  faithful : o.service.Faithful
  /-- a call that has not ended is what its clerk waits for -/
  opened : ∀ x ∈ o.operations, x.call.returned = none →
    ∃ r ∈ (o.service.clerks x.clerk).request, r.op = x.call.op
  timeline : Timeline o.service.log o.service.issued o.clock o.operations

/-! ### Logs -/

variable {log log' : List Op} {op : Op} {issued : List (Op × List Op)} {clock : ℕ}
  {operations : List (Operation κ)} {x : Operation κ} {i : κ}

/-- The next command replaces a value if it is an update and no copy came before. -/
lemma stored_concat : stored (log ++ [op]) =
    if op.IsUpdate ∧ ∀ y ∈ log, y.IsUpdate → y.ClientId = op.ClientId → y.RequestId ≠ op.RequestId
    then replace (stored log) op else stored log := by
  rw [stored, updates_concat]
  split_ifs
  · exact List.foldl_concat ..
  · rfl

/-- A right result stays right in a longer log. -/
lemma Operation.Right.mono {result : Bytes} (h : x.Right log result) (hlog : log <+: log')
    (hread : ∀ n ∈ x.read, n < log.length) : x.Right log' result := by
  obtain ⟨rest, rfl⟩ := hlog
  unfold Right at h ⊢
  split_ifs at h ⊢
  · exact ⟨List.mem_append_left _ h.1, h.2⟩
  · obtain ⟨n, hn, hresult⟩ := h
    refine ⟨n, hn, ?_⟩
    rwa [List.take_append_of_le_length (hread n hn)]

/-- The place of a call that has ended is settled. -/
lemma Operation.Right.point_eq {result : Bytes} (h : x.Right log result) (hlog : log <+: log') :
    x.point log' = x.point log := by
  obtain ⟨rest, rfl⟩ := hlog
  rw [Right] at h
  rw [point, point]
  by_cases hup : x.call.op.IsUpdate
  · rw [if_pos hup] at h
    rw [if_pos hup, if_pos hup, if_pos h.1, if_pos (List.mem_append_left _ h.1),
      List.idxOf_append_of_mem h.1]
  · rw [if_neg hup, if_neg hup]

namespace Timeline

/-- A longer log. -/
lemma mono (h : Timeline log issued clock operations) (hlog : log <+: log') :
    Timeline log' issued (clock + 1) operations := by
  have hlength : log.length ≤ log'.length := hlog.length_le
  refine { h with
    clock := fun x hx => Nat.lt_succ_of_lt (h.clock x hx)
    since := fun x hx => ⟨Nat.le_trans (h.since x hx).1 hlength, fun n o hn hclient hle => ?_⟩
    read := fun x hx n hn => ⟨(h.read x hx n hn).1, Nat.lt_of_lt_of_le (h.read x hx n hn).2 hlength⟩
    results := fun x hx r hr => (h.results x hx r hr).mono hlog fun n hn => (h.read x hx n hn).2
    realtime := fun x hx y hy hprec n hn => ?_ }
  · obtain hlt | hge := Nat.lt_or_ge n log.length
    · refine (h.since x hx).2 n o ?_ hclient hle
      rwa [List.prefix_iff_getElem?.mp hlog n hlt, ← List.getElem?_eq_getElem hlt] at hn
    · exact Nat.le_trans (h.since x hx).1 hge
  · obtain ⟨r, hr, -⟩ := id hprec
    rw [(h.results x hx r hr).point_eq hlog] at hn
    exact h.realtime x hx y hy hprec n hn

/-- A new call, with a request whose number is above those of its clerk. -/
lemma request (h : Timeline log issued clock operations)
    (hcommitted : ∀ o ∈ log, ∃ before, (o, before) ∈ issued) {before : List Op}
    (hnew : ∀ y ∈ issued, y.1.ClientId = op.ClientId → y.1.RequestId < op.RequestId) :
    Timeline log (issued ++ [(op, before)]) (clock + 1) (operations ++ [{
      clerk := i, call := { op, invoked := clock, returned := none }
      since := log.length, read := none }]) := by
  have hold : ∀ x ∈ operations, x.call.op ≠ op := by
    rintro x hx rfl
    obtain ⟨b, hb⟩ := h.sent x hx
    exact absurd (hnew _ hb rfl) (Int.lt_irrefl _)
  refine ⟨?_, ?_, ?_, ?_, ?_, ?_, ?_, ?_, ?_⟩
  · rw [List.forall_mem_append, List.forall_mem_singleton]
    exact ⟨fun x hx => Nat.lt_succ_of_lt (h.clock x hx), Nat.lt_succ_self _⟩
  · rw [List.map_append, List.map_singleton, List.nodup_append]
    refine ⟨h.invoked, List.nodup_singleton _, fun n hn m hm hnm => ?_⟩
    obtain ⟨x, hx, rfl⟩ := List.mem_map.mp hn
    obtain rfl := List.mem_singleton.mp hm
    exact absurd hnm (Nat.ne_of_lt (h.clock x hx))
  · rw [List.forall_mem_append, List.forall_mem_singleton]
    refine ⟨fun x hx => ?_, before, List.mem_append_right _ List.mem_cons_self⟩
    obtain ⟨b, hb⟩ := h.sent x hx
    exact ⟨b, List.mem_append_left _ hb⟩
  · rw [List.forall_mem_append, List.forall_mem_singleton]
    refine ⟨fun y hy => ?_, _, List.mem_append_right _ List.mem_cons_self, rfl⟩
    obtain ⟨x, hx, hop⟩ := h.known y hy
    exact ⟨x, List.mem_append_left _ hx, hop⟩
  · simp only [List.forall_mem_append, List.forall_mem_singleton]
    exact ⟨fun x hx => ⟨h.distinct x hx, fun hop => absurd hop (hold x hx)⟩,
      fun y hy hop => absurd hop.symm (hold y hy), fun _ => trivial⟩
  · rw [List.forall_mem_append, List.forall_mem_singleton]
    refine ⟨h.since, Nat.le_refl _, fun n o hn hclient hle => ?_⟩
    obtain ⟨b, hb⟩ := hcommitted o (List.mem_of_getElem? hn)
    exact absurd (hnew _ hb hclient) (Int.not_lt.mpr hle)
  · rw [List.forall_mem_append, List.forall_mem_singleton]
    exact ⟨h.read, fun n hn => by cases hn⟩
  · rw [List.forall_mem_append, List.forall_mem_singleton]
    exact ⟨h.results, fun r hr => by cases hr⟩
  · -- what has ended took effect in the log that the new call finds
    have hplace : ∀ x ∈ operations, ∀ n ∈ x.point log, n < log.length := by
      intro x hx n hn
      rw [Operation.point] at hn
      split_ifs at hn with hup hmem
      · obtain rfl := Option.some.inj hn
        exact List.idxOf_lt_length_of_mem hmem
      · cases hn
      · exact (h.read x hx n hn).2
    simp only [List.forall_mem_append, List.forall_mem_singleton]
    refine ⟨fun x hx => ⟨h.realtime x hx, fun _ => hplace x hx⟩, fun y hy hprec => ?_, fun hprec => ?_⟩
    · obtain ⟨r, hr, -⟩ := hprec
      cases hr
    · obtain ⟨r, hr, -⟩ := hprec
      cases hr

end Timeline

/-- What a reply says of a call that ends with it. -/
structure ClerkAnswer (log : List Op) (reply : ClerkReply) (op : Op) : Prop where
  applied : reply.applied <+: log
  reached : ∃ o ∈ reply.applied, o.ClientId = op.ClientId ∧ op.RequestId ≤ o.RequestId
  update : op.IsUpdate → op ∈ log
  value : ¬ op.IsUpdate → reply.result op = (stored reply.applied op.Key).getD []

/-- A server that answers has applied the command. -/
lemma ClerkAnswer.length_pos {reply : ClerkReply} (h : ClerkAnswer log reply op) : 0 < reply.applied.length := by
  obtain ⟨o, ho, -⟩ := h.reached
  exact List.length_pos_of_mem ho

/-- The result that a clerk gets is right. -/
lemma ClerkAnswer.right {reply : ClerkReply} (h : ClerkAnswer log reply x.call.op)
    (hread : x.read = some (reply.applied.length - 1)) : x.Right log (reply.result x.call.op) := by
  rw [Operation.Right]
  split_ifs with hup
  · exact ⟨h.update hup, if_neg fun hget => hget.1 hup⟩
  · refine ⟨_, hread, ?_⟩
    rw [Nat.sub_add_cancel h.length_pos, ← List.prefix_iff_eq_take.mp h.applied]
    exact h.value hup

namespace Timeline

variable [DecidableEq κ]

/-- A call ends. -/
lemma finish (h : Timeline log issued clock operations) {reply : ClerkReply}
    (hreply : ∀ x ∈ operations, x.clerk = i → x.call.returned = none → ClerkAnswer log reply x.call.op) :
    Timeline log issued (clock + 1) (operations.map (·.finish i clock reply)) := by
  have hcall : ∀ x : Operation κ, (x.finish i clock reply).call.op = x.call.op ∧
      (x.finish i clock reply).call.invoked = x.call.invoked ∧
      (x.finish i clock reply).since = x.since := by
    intro x
    rw [Operation.finish]
    split_ifs <;> exact ⟨rfl, rfl, rfl⟩
  -- a call that ends now, or one that stays as it is
  have hcases : ∀ x ∈ operations,
      ClerkAnswer log reply x.call.op ∧ (x.finish i clock reply).read = some (reply.applied.length - 1) ∧
        (x.finish i clock reply).call.returned = some (clock, reply.result x.call.op) ∨
      x.finish i clock reply = x := by
    intro x hx
    by_cases hends : x.clerk = i ∧ x.call.returned = none
    · refine .inl ⟨hreply x hx hends.1 hends.2, ?_⟩
      rw [Operation.finish, if_pos hends]
      exact ⟨rfl, rfl⟩
    · exact .inr (if_neg hends)
  refine ⟨?_, ?_, ?_, ?_, ?_, ?_, ?_, ?_, ?_⟩
  · rw [List.forall_mem_map]
    intro x hx
    rw [(hcall x).2.1]
    exact Nat.lt_succ_of_lt (h.clock x hx)
  · have hsame : (fun x : Operation κ => x.call.invoked) ∘ Operation.finish i clock reply =
        fun x : Operation κ => x.call.invoked := funext fun x => (hcall x).2.1
    rw [List.map_map, hsame]
    exact h.invoked
  · rw [List.forall_mem_map]
    intro x hx
    rw [(hcall x).1]
    exact h.sent x hx
  · intro y hy
    obtain ⟨x, hx, hop⟩ := h.known y hy
    exact ⟨_, List.mem_map_of_mem hx, (hcall x).1.trans hop⟩
  · simp only [List.forall_mem_map, hcall]
    exact h.distinct
  · simp only [List.forall_mem_map, hcall]
    exact h.since
  · rw [List.forall_mem_map]
    intro x hx n hn
    obtain ⟨hanswer, hread, -⟩ | hsame := hcases x hx
    · obtain rfl := Option.some.inj (hread.symm.trans hn)
      rw [(hcall x).2.2]
      obtain ⟨o, ho, hclient, hle⟩ := hanswer.reached
      obtain ⟨p, hp, hop⟩ := List.getElem_of_mem ho
      have hlog : log[p]? = some o := by
        rw [List.prefix_iff_getElem?.mp hanswer.applied p hp, hop]
      have := (h.since x hx).2 p o hlog hclient hle
      have := hanswer.applied.length_le
      omega
    · rw [hsame] at hn ⊢
      exact h.read x hx n hn
  · rw [List.forall_mem_map]
    intro x hx r hr
    obtain ⟨hanswer, hread, hreturned⟩ | hsame := hcases x hx
    · obtain rfl := Option.some.inj (hreturned.symm.trans hr)
      rw [← (hcall x).1] at hanswer ⊢
      exact hanswer.right hread
    · rw [hsame] at hr ⊢
      exact h.results x hx r hr
  · simp only [List.forall_mem_map]
    intro x hx y hy hprec n hn
    obtain ⟨r, hr, hlt⟩ := hprec
    rw [(hcall y).2.1] at hlt
    rw [(hcall y).2.2]
    obtain ⟨-, -, hreturned⟩ | hsame := hcases x hx
    · obtain rfl := Option.some.inj (hreturned.symm.trans hr)
      exact absurd (h.clock y hy) (Nat.not_lt.mpr (Nat.le_of_lt hlt))
    · rw [hsame] at hr hn
      exact h.realtime x hx y hy ⟨r, hr, hlt⟩ n hn

end Timeline

/-! ### Steps -/

namespace Service

variable [DecidableEq κ] {s t : Service κ}

/-- What a step that is no new request leaves of the log and the clerks: a clerk waits for the request
that it waited for, or has got a reply that ends its call. -/
structure Frame (s t : Service κ) (e : Event κ) : Prop where
  issued : t.issued = s.issued
  log : s.log <+: t.log
  requests : ∀ j, (t.clerks j).request.map (·.op) = (s.clerks j).request.map (·.op) ∨
    (t.clerks j).request = none ∧ e = .receive j

omit [DecidableEq κ] in
/-- A step of a handler or of a server. -/
lemma Frame.same {e : Event κ} (hissued : t.issued = s.issued) (hlog : t.log = s.log)
    (hclerks : t.clerks = s.clerks) : Frame s t e :=
  ⟨hissued, hlog ▸ List.prefix_rfl, fun _ => .inl (by rw [hclerks])⟩

/-- The request of a clerk is sent once more. -/
lemma Frame.send {e : Event κ} {r : ClerkRequest} (hr : r ∈ (s.clerks i).request) (server : ℕ) :
    Frame s (s.send i r.op r.before server) e := by
  refine ⟨rfl, List.prefix_rfl, fun j => .inl ?_⟩
  simp only [Service.send, Function.update_apply]
  split_ifs with hj
  · rw [hj, hr]
    rfl
  · rfl

/-- The call of a clerk ends. -/
lemma Frame.finish (leader : ℕ) : Frame s (s.finish i leader) (.receive i) := by
  refine ⟨rfl, List.prefix_rfl, fun j => ?_⟩
  by_cases hj : j = i
  · subst hj
    refine .inr ⟨?_, rfl⟩
    simp only [Service.finish, Function.update_self]
  · refine .inl ?_
    simp only [Service.finish, Function.update_of_ne hj]

/-- A step that begins no call keeps what is observed. -/
lemma frame_of_step {A : Archives} {e : Event κ} (hstep : s.step A e = some t)
    (hnew : ∀ i ask, e ≠ .request i ask) : Frame s t e := by
  cases e with
  | request i ask => exact absurd rfl (hnew i ask)
  | fail i =>
    obtain ⟨r, hr, rfl⟩ := Option.map_eq_some_iff.mp hstep
    exact .send hr _
  | receive i =>
    obtain ⟨r, hr, hstep⟩ := Option.bind_eq_some_iff.mp hstep
    obtain ⟨call, -, hstep⟩ := handle_cases hstep
    split at hstep
    · obtain rfl := Option.some.inj hstep
      rw [Service.receive]
      split
      · exact .send hr _
      · split_ifs
        · exact .send hr _
        · exact .finish _
      · exact .finish _
    · cases hstep
  | start k isLeader raftIndex =>
    obtain ⟨call, -, hstep⟩ := handle_cases hstep
    split at hstep
    · obtain rfl := Option.some.inj hstep
      split_ifs
      · exact .same rfl rfl rfl
      · exact .same rfl rfl rfl
    · cases hstep
  | register k =>
    obtain ⟨call, -, hstep⟩ := handle_cases hstep
    split at hstep
    · obtain rfl := Option.some.inj hstep
      exact .same rfl rfl rfl
    · cases hstep
  | pop k =>
    obtain ⟨call, -, hstep⟩ := handle_cases hstep
    split at hstep
    · obtain ⟨⟨r, op⟩, -, rfl⟩ := Option.map_eq_some_iff.mp hstep
      exact .same rfl rfl rfl
    · cases hstep
  | timeOut k isLeader =>
    obtain ⟨call, -, hstep⟩ := handle_cases hstep
    split at hstep
    · obtain rfl := Option.some.inj hstep
      exact .same rfl rfl rfl
    · cases hstep
  | decide k =>
    obtain ⟨call, -, hstep⟩ := handle_cases hstep
    have hget : ∀ raftIndex ok, Frame s (s.replyGet k call raftIndex ok) (.decide k) := by
      intro raftIndex ok
      rw [Service.replyGet]
      split_ifs
      · exact .same rfl rfl rfl
      · exact .same rfl rfl rfl
    rw [Service.decide] at hstep
    split at hstep
    · obtain rfl := Option.some.inj hstep
      split_ifs
      · exact .same rfl rfl rfl
      · exact hget _ _
    · obtain rfl := Option.some.inj hstep
      split_ifs
      · exact .same rfl rfl rfl
      · exact hget _ _
    · cases hstep
  | execute k =>
    obtain ⟨call, -, hstep⟩ := handle_cases hstep
    split at hstep
    · obtain rfl := Option.some.inj hstep
      exact .same rfl rfl rfl
    · cases hstep
  | erase k =>
    obtain ⟨call, -, hstep⟩ := handle_cases hstep
    split at hstep
    · obtain rfl := Option.some.inj hstep
      exact .same rfl rfl rfl
    · cases hstep
  | commit op =>
    obtain ⟨-, hstep⟩ := Option.ite_none_right_eq_some.mp hstep
    obtain rfl := Option.some.inj hstep
    exact ⟨rfl, List.prefix_append _ _, fun _ => .inl rfl⟩
  | apply server rand raftStateSize =>
    obtain ⟨r, -, rfl⟩ := Option.map_eq_some_iff.mp hstep
    exact .same rfl rfl rfl

omit [DecidableEq κ] in
/-- A reply that ends the call of a clerk answers its request. -/
lemma Inv.answer_of_reply (h : Inv s) (hfaithful : Faithful s) {r : ClerkRequest} {call : ClerkCall}
    {reply : ClerkReply} (hr : r ∈ (s.clerks i).request) (hcall : s.calls[r.call]? = some call)
    (hphase : call.phase = .returned reply)
    (hends : reply.err = .ok ∨ reply.err = .errNoKey ∧ ¬ r.op.IsUpdate) : ClerkAnswer s.log reply r.op := by
  obtain ⟨hissued, hclient, hnumber, c, hc, hop⟩ := h.requests i r hr
  obtain rfl := Option.some.inj (hcall.symm.trans hc)
  have hmem := List.mem_of_getElem? hcall
  have hreply : reply ∈ call.phase.reply := by rw [hphase]; rfl
  obtain ⟨-, -, -, hcallreply⟩ := h.calls call hmem
  have hanswers := (hcallreply reply hreply).2
  have htold := hfaithful.replies call hmem reply hreply
  rw [hop] at htold
  rw [Answers, hop] at hanswers
  by_cases hup : r.op.IsUpdate
  · rw [if_pos hup] at hanswers
    have hok := hends.resolve_right fun h => h.2 hup
    obtain ⟨o, ho, hclient', hnumber'⟩ := hanswers hok
    refine ⟨htold.applied, ⟨o, ho, hclient', Int.le_of_eq hnumber'.symm⟩, fun _ => ?_, absurd hup⟩
    have hlog := htold.applied.subset ho
    have hsame : o = r.op := h.same hissued hlog hclient' hnumber'
    exact hsame ▸ hlog
  · rw [if_neg hup] at hanswers
    have herr : reply.err ≠ .errWrongLeader := by
      intro hwrong
      obtain hok | ⟨hno, -⟩ := hends
      · cases hwrong.symm.trans hok
      · cases hwrong.symm.trans hno
    refine ⟨htold.applied, htold.reached hup herr, fun hup' => absurd hup' hup, fun _ => ?_⟩
    rw [stored, ← htold.executed, ← (hanswers herr).2, ClerkReply.result]
    by_cases hok : reply.err = .ok
    · rw [if_pos ⟨hup, hok⟩, if_pos hok, Option.getD_some]
    · rw [if_neg fun h => hok h.2, if_neg hok, Option.getD_none]

end Service

namespace Watched

variable {A : Archives} {o p : Observed κ} {t : Service κ} {e : Service.Event κ}

/-- What is observed at the start. -/
lemma initial (size : ℕ) (maxraftstate : ℕ → ℤ) {rands : κ → ℕ → ℕ}
    (hids : Function.Injective fun i => uuid (rands i)) :
    Watched (.initial size maxraftstate rands) where
  inv := .initial size maxraftstate hids
  faithful := .initial size maxraftstate rands
  opened _ hx := by cases hx
  timeline :=
    { clock := fun _ hx => by cases hx
      invoked := List.nodup_nil
      sent := fun _ hx => by cases hx
      known := fun _ hy => by cases hy
      distinct := fun _ hx => by cases hx
      since := fun _ hx => by cases hx
      read := fun _ hx => by cases hx
      results := fun _ hx => by cases hx
      realtime := fun _ hx => by cases hx }

/-- Nothing is seen. -/
lemma frame (h : Watched o) (hinv : t.Inv) (hfaithful : t.Faithful) (hframe : o.service.Frame t e)
    (hopen : ∀ i, e = .receive i → (t.clerks i).request ≠ none) :
    Watched { service := t, clock := o.clock + 1, operations := o.operations } := by
  refine ⟨hinv, hfaithful, fun x hx hreturned => ?_, ?_⟩
  · obtain ⟨q, hq, hqop⟩ := h.opened x hx hreturned
    obtain hsame | ⟨hnone, hreceive⟩ := hframe.requests x.clerk
    · rw [Option.mem_def.mp hq] at hsame
      obtain ⟨q', hq', hop'⟩ := Option.map_eq_some_iff.mp hsame
      exact ⟨q', hq', hop'.trans hqop⟩
    · exact absurd hnone (hopen _ hreceive)
  · dsimp only
    rw [hframe.issued]
    exact h.timeline.mono hframe.log

variable [DecidableEq κ]

/-- A clerk sends a new request. -/
lemma request (h : Watched o) {ask : Ask} (hreq : o.service.request i ask = some t) (hinv : t.Inv)
    (hfaithful : t.Faithful) :
    Watched { service := t, clock := o.clock + 1, operations := o.see t (.request i ask) } := by
  rw [Service.request] at hreq
  split at hreq
  · cases hreq
  rename_i hnone
  obtain rfl := Option.some.inj hreq
  have hnew : ∀ y ∈ o.service.issued,
      y.1.ClientId = (ask.op (o.service.clerks i).clientId ((o.service.clerks i).requestId + 1)).ClientId →
      y.1.RequestId <
        (ask.op (o.service.clerks i).clientId ((o.service.clerks i).requestId + 1)).RequestId := by
    intro y hy hyc
    rw [Service.Ask.op_clientId] at hyc
    rw [Service.Ask.op_requestId]
    exact Int.lt_add_one_of_le (h.inv.counted y hy i hyc)
  refine ⟨hinv, hfaithful, fun x hx hopen => ?_, ?_⟩
  · obtain hx | hx := List.mem_append.mp hx
    · obtain ⟨r, hr, hrop⟩ := h.opened x hx hopen
      have hne : x.clerk ≠ i := by
        rintro rfl
        rw [hnone] at hr
        cases hr
      refine ⟨r, ?_, hrop⟩
      simp only [Service.send, Function.update_of_ne hne]
      exact hr
    · obtain rfl := List.mem_singleton.mp hx
      simp only [Service.send, Function.update_self]
      exact ⟨_, rfl, rfl⟩
  · exact h.timeline.request h.inv.committed hnew

/-- A clerk gets a reply that ends its call. -/
lemma finish (h : Watched o) (hstep : o.service.step A (.receive i) = some t) (hinv : t.Inv)
    (hfaithful : t.Faithful) (hframe : o.service.Frame t (.receive i))
    (hnone : (t.clerks i).request = none) :
    Watched { service := t, clock := o.clock + 1, operations := o.see t (.receive i) } := by
  obtain ⟨r, hr, hstep⟩ := Option.bind_eq_some_iff.mp hstep
  obtain ⟨call, hcall, hstep⟩ := Service.handle_cases hstep
  split at hstep
  swap
  · cases hstep
  rename_i reply hphase
  obtain rfl := Option.some.inj hstep
  have hreply : o.reply i = some reply := by
    rw [Observed.reply, hr, Option.bind_some, hcall, Option.bind_some, hphase]
    rfl
  -- the other replies are followed by another call
  have hends : reply.err = .ok ∨ reply.err = .errNoKey ∧ ¬ r.op.IsUpdate := by
    rw [Service.receive] at hnone
    split at hnone
    · simp [Service.send] at hnone
    · rename_i herr
      split_ifs at hnone with hup
      · simp [Service.send] at hnone
      · exact .inr ⟨herr, hup⟩
    · rename_i herr
      exact .inl herr
  have hanswer := h.inv.answer_of_reply h.faithful hr hcall hphase hends
  rw [Observed.see, hnone, hreply]
  refine ⟨hinv, hfaithful, fun x hx hopen => ?_, ?_⟩
  · obtain ⟨y, hy, rfl⟩ := List.mem_map.mp hx
    rw [Operation.finish] at hopen ⊢
    split_ifs at hopen ⊢ with hcond
    obtain ⟨q, hq, hqop⟩ := h.opened y hy hopen
    have hne : y.clerk ≠ i := fun heq => hcond ⟨heq, hopen⟩
    obtain hsame | ⟨-, hreceive⟩ := hframe.requests y.clerk
    · rw [Option.mem_def.mp hq] at hsame
      obtain ⟨q', hq', hop'⟩ := Option.map_eq_some_iff.mp hsame
      exact ⟨q', hq', hop'.trans hqop⟩
    · exact absurd (Service.Event.receive.inj hreceive).symm hne
  · have hlog : (o.service.receive i r reply).log = o.service.log := by
      rw [Service.receive]
      split
      · rfl
      · split_ifs <;> rfl
      · rfl
    dsimp only
    rw [hframe.issued, hlog]
    refine h.timeline.finish fun x hx hclerk hopen => ?_
    obtain ⟨q, hq, hqop⟩ := h.opened x hx hopen
    rw [hclerk] at hq
    obtain rfl := Option.some.inj (hr.symm.trans hq)
    exact hqop ▸ hanswer

/-- A step in order keeps what is observed. -/
theorem step (h : Watched o) (horder : o.service.InOrder e) (hstep : o.step A e = some p) :
    Watched p := by
  obtain ⟨t, ht, rfl⟩ := Option.map_eq_some_iff.mp hstep
  have hinv := h.inv.step ht
  have hfaithful := h.faithful.step h.inv horder ht
  cases e with
  | request i ask => exact h.request ht hinv hfaithful
  | receive i =>
    have hframe := Service.frame_of_step ht (fun _ _ => nofun)
    cases hnone : (t.clerks i).request with
    | none => exact h.finish ht hinv hfaithful hframe hnone
    | some r =>
      rw [Observed.see, hnone]
      refine h.frame hinv hfaithful hframe fun j hj => ?_
      rw [← Service.Event.receive.inj hj, hnone]
      exact nofun
  | _ => exact h.frame hinv hfaithful (Service.frame_of_step ht fun _ _ => nofun) fun _ => nofun

end Watched

/-! ### Linearization -/

/-- A command of the log at its first place, or one that changes nothing. -/
lemma stored_take_succ {s : Service κ} (h : s.Inv) {n : ℕ} (hn : n < s.log.length) :
    s.log[n].IsUpdate ∧ s.log[n] ∉ s.log.take n ∧
        stored (s.log.take (n + 1)) = replace (stored (s.log.take n)) s.log[n] ∨
      (s.log[n].IsUpdate → s.log[n] ∈ s.log.take n) ∧
        stored (s.log.take (n + 1)) = stored (s.log.take n) := by
  rw [List.take_succ_eq_append_getElem hn, stored_concat]
  split_ifs with hcond
  · exact .inl ⟨hcond.1, fun hmem => hcond.2 _ hmem hcond.1 rfl rfl, rfl⟩
  · refine .inr ⟨fun hup => ?_, rfl⟩
    by_contra hmem
    refine hcond ⟨hup, fun y hy _ hclient hrequest => hmem ?_⟩
    obtain ⟨before, hbefore⟩ := h.committed _ (List.getElem_mem hn)
    have hsame : y = s.log[n] := h.same hbefore (List.mem_of_mem_take hy) hclient hrequest
    exact hsame ▸ hy

namespace Watched

variable {o : Observed κ}

/-- A writer takes effect at the first place of its command. -/
lemma point_writer {log : List Op} {n : ℕ} (hup : x.call.op.IsUpdate) :
    n ∈ x.point log ↔ ∃ hn : n < log.length, log[n] = x.call.op ∧ x.call.op ∉ log.take n := by
  rw [Operation.point, if_pos hup]
  constructor
  · intro hpoint
    split_ifs at hpoint with hmem
    · obtain rfl := Option.some.inj hpoint
      have hn := List.idxOf_lt_length_of_mem hmem
      refine ⟨hn, List.getElem_idxOf hn, fun htake => ?_⟩
      have hlt := List.idxOf_lt_length_of_mem htake
      rw [List.length_take_of_le (Nat.le_of_lt hn), ← List.idxOf_append_of_mem htake,
        List.take_append_drop] at hlt
      exact Nat.lt_irrefl _ hlt
    · cases hpoint
  · rintro ⟨hn, hget, hfirst⟩
    have hmem : x.call.op ∈ log := hget ▸ List.getElem_mem hn
    have hidx : (log.take n ++ log.drop n).idxOf x.call.op = n := by
      rw [List.idxOf_append_of_notMem hfirst, List.drop_eq_getElem_cons hn, hget,
        List.idxOf_cons_self, List.length_take_of_le (Nat.le_of_lt hn), Nat.add_zero]
    rw [List.take_append_drop] at hidx
    rw [if_pos hmem, hidx]
    rfl

/-- A `Get` takes effect where it is read. -/
lemma read_point {log : List Op} (hget : ¬ x.call.op.IsUpdate) : x.point log = x.read := if_neg hget

/-- Every call takes effect between its beginning and its end. -/
lemma points (h : Watched o) : Points store o.operations (·.call) (·.call.op.IsUpdate)
    (·.point o.service.log) (fun n => stored (o.service.log.take n)) o.service.log.length := by
  have htime := h.timeline
  refine ⟨htime.invoked, rfl, fun x hx hret => ?_, fun x hx y hy hprec n hn m hm => ?_,
    fun n hn => ?_, fun x hx y hy hwx hwy n hn hn' => ?_, fun x hx hup n _ r hr => ?_,
    fun x hx hget n hn => ?_⟩
  · obtain ⟨r, hr⟩ := Option.isSome_iff_exists.mp hret
    have hright := htime.results x hx r hr
    rw [Operation.Right] at hright
    by_cases hup : x.call.op.IsUpdate
    · rw [if_pos hup] at hright
      rw [Operation.point, if_pos hup, if_pos hright.1]
      exact ⟨_, rfl, List.idxOf_lt_length_of_mem hright.1⟩
    · rw [if_neg hup] at hright
      obtain ⟨n, hn, -⟩ := hright
      exact ⟨n, (read_point hup).trans hn, (htime.read x hx n hn).2⟩
  · have hlt := htime.realtime x hx y hy hprec n hn
    refine Nat.lt_of_lt_of_le hlt ?_
    by_cases hup : y.call.op.IsUpdate
    · obtain ⟨hlen, hget, -⟩ := (point_writer hup).mp hm
      refine (htime.since y hy).2 m _ (List.getElem?_eq_getElem hlen) ?_ ?_
      · rw [hget]
      · rw [hget]
    · rw [read_point hup] at hm
      exact (htime.read y hy m hm).1
  · obtain ⟨hup, hfirst, hstored⟩ | ⟨hseen, hstored⟩ := stored_take_succ h.inv hn
    · obtain ⟨before, hbefore⟩ := h.inv.committed _ (List.getElem_mem hn)
      obtain ⟨x, hx, hop⟩ := htime.known _ hbefore
      have hop : x.call.op = o.service.log[n] := hop
      rw [← hop] at hup hfirst hstored
      refine .inl ⟨x, hx, hup, (point_writer hup).mpr ⟨hn, hop.symm, hfirst⟩, ?_⟩
      rw [hstored]
      exact congrArg Prod.fst (if_pos hup)
    · refine .inr ⟨fun x hx hup hpoint => ?_, hstored⟩
      obtain ⟨_, hget, hfirst⟩ := (point_writer hup).mp hpoint
      rw [hget] at hseen
      exact hfirst (hseen hup)
  · obtain ⟨hlen, hget, -⟩ := (point_writer hwx).mp hn
    obtain ⟨_, hget', -⟩ := (point_writer hwy).mp hn'
    exact List.inj_on_of_nodup_map htime.invoked hx hy (htime.distinct x hx y hy (hget.symm.trans hget'))
  · have hright := htime.results x hx r hr
    have hexec : ∀ map, store.exec map x.call.op = (replace map x.call.op, []) := fun map => if_pos hup
    rw [Operation.Right, if_pos hup] at hright
    rw [hexec]
    exact hright.2
  · have hexec : ∀ map, store.exec map x.call.op = (map, (map x.call.op.Key).getD []) :=
      fun map => if_neg hget
    rw [read_point hget] at hn
    rw [hexec]
    refine ⟨rfl, fun r hr => ?_⟩
    have hright := htime.results x hx r hr
    rw [Operation.Right, if_neg hget] at hright
    obtain ⟨m, hm, hresult⟩ := hright
    obtain rfl := Option.some.inj (hm.symm.trans hn)
    exact hresult

end Watched

/-- What the clerks see is what one store does that carries out their requests one after another, each
between its beginning and its end. -/
theorem service_linearizable [DecidableEq κ] (A : Archives) (size : ℕ) (maxraftstate : ℕ → ℤ)
    (rands : κ → ℕ → ℕ) (hids : Function.Injective fun i => uuid (rands i)) {o : Observed κ}
    (hrun : Run (Observed.step A) (fun o e => o.service.InOrder e)
      (.initial size maxraftstate rands) o) :
    Linearizable store (o.operations.map (·.call)) := by
  have hwatched : Watched o := hrun.invariant (fun _ _ _ h horder hstep => h.step horder hstep)
    (.initial size maxraftstate hids)
  exact hwatched.points.linearizable

/-- Two `Put` and a `Get` of two clerks, the `Get` with its reply. -/
theorem service_linearizable_puts :
    ∃ o : Observed (Fin 2), o.operations.map (·.call.returned.map Prod.snd) =
        [some [], some [], some [6]] ∧
      Linearizable store (o.operations.map (·.call)) := by
  have hruns : ∃ o ∈ runIf (Observed.step textArchives) (fun o e => o.service.InOrder e)
      (.initial 1 (fun _ => -1) fun i _ => i.val)
      (Service.twoPuts (uuid fun _ => 0) (uuid fun _ => 1) ++ Service.returned 0 2),
      o.operations.map (·.call.returned.map Prod.snd) = [some [], some [], some [6]] := by decide
  obtain ⟨o, hrun, hvalues⟩ := exists_run_of_runIf hruns
  have hids : ∀ i j : Fin 2, (uuid fun _ => i.val) = (uuid fun _ => j.val) → i = j := by decide
  exact ⟨o, hvalues, service_linearizable textArchives 1 (fun _ => -1) (fun i _ => i.val)
    (fun i j => hids i j) hrun⟩

end KVCacheRaft
