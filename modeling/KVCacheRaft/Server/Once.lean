import KVCacheRaft.Server.Fresh

/-!
# Updates are executed once

`ExecuteGetOpOnKVDB` takes the table of last requests back when it comes behind a later request of its
client; then a copy of that request is executed again. As long as it never does, a server executes the
updates of the log that it applies, each at its first place, and every reply is set by a server that
has done just that.
-/

namespace KVCacheRaft

open Machine

/-- The updates of a log, each at its first place. -/
def updates (log : List Op) : List Op := firsts (log.filter fun op => op.IsUpdate)

/-- One more command is among the first ones if no copy of it came before. -/
lemma firstsFrom_concat {seen ops : List Op} {op : Op} : firstsFrom seen (ops ++ [op]) =
    if ∃ y ∈ seen ++ ops, y.ClientId = op.ClientId ∧ y.RequestId = op.RequestId
    then firstsFrom seen ops else firstsFrom seen ops ++ [op] := by
  induction ops generalizing seen with
  | nil => simp [firstsFrom]
  | cons x ops ih =>
    rw [List.cons_append, firstsFrom, firstsFrom]
    by_cases hx : ∃ y ∈ seen, y.ClientId = x.ClientId ∧ y.RequestId = x.RequestId
    · rw [if_pos hx, if_pos hx, ih]
      refine if_congr ?_ rfl rfl
      obtain ⟨y, hy, hclient, hrequest⟩ := hx
      constructor
      · rintro ⟨z, hz, hsame⟩
        refine ⟨z, ?_, hsame⟩
        grind
      · rintro ⟨z, hz, hsame⟩
        obtain hz | hz := List.mem_append.mp hz
        · exact ⟨z, List.mem_append_left _ hz, hsame⟩
        · obtain rfl | hz := List.mem_cons.mp hz
          · exact ⟨y, List.mem_append_left _ hy, hclient.trans hsame.1, hrequest.trans hsame.2⟩
          · exact ⟨z, List.mem_append_right _ hz, hsame⟩
    · rw [if_neg hx, if_neg hx, ih, List.append_assoc, List.singleton_append]
      split_ifs <;> rfl

/-- A command that the log has not had is performed behind the others. -/
lemma updates_concat {log : List Op} {op : Op} : updates (log ++ [op]) =
    if op.IsUpdate ∧ ∀ y ∈ log, y.IsUpdate → y.ClientId = op.ClientId → y.RequestId ≠ op.RequestId
    then updates log ++ [op] else updates log := by
  have hlast : [op].filter (fun op => op.IsUpdate) = if op.IsUpdate then [op] else [] := by
    split_ifs with hup <;> simp [hup]
  rw [updates, List.filter_append, updates, hlast]
  by_cases hup : op.IsUpdate
  · rw [if_pos hup, firsts, firsts, firstsFrom_concat, List.nil_append]
    split_ifs with hseen hnew hnew
    · obtain ⟨y, hy, hclient, hrequest⟩ := hseen
      obtain ⟨hlog, hyup⟩ := List.mem_filter.mp hy
      exact absurd hrequest (hnew.2 y hlog (of_decide_eq_true hyup) hclient)
    · rfl
    · rfl
    · refine absurd ⟨hup, fun y hy hyup hclient hrequest => hseen ?_⟩ hnew
      exact ⟨y, List.mem_filter.mpr ⟨hy, decide_eq_true hyup⟩, hclient, hrequest⟩
  · rw [if_neg hup, List.append_nil, if_neg fun h => hup h.1]

/-- The updates of a log are commands of it. -/
lemma updates_subset {log : List Op} : updates log ⊆ log := fun _ ho =>
  List.mem_of_mem_filter (firstsFrom_subset ho)

/-- The updates of a log are updates. -/
lemma updates_isUpdate {log : List Op} {op : Op} (h : op ∈ updates log) : op.IsUpdate :=
  of_decide_eq_true (List.mem_filter.mp (firstsFrom_subset h)).2

/-- No update is listed twice. -/
lemma nodup_updates (log : List Op) : (updates log).Nodup := by
  induction log using List.reverseRecOn with
  | nil => exact List.nodup_nil
  | append_singleton log op ih =>
    rw [updates_concat]
    split_ifs with hnew
    · refine List.nodup_append.mpr ⟨ih, List.nodup_singleton _, fun x hx y hy hxy => ?_⟩
      obtain rfl := List.mem_singleton.mp hy
      subst hxy
      exact hnew.2 x (updates_subset hx) (updates_isUpdate hx) rfl rfl
    · exact ih

/-- The updates of a beginning are a beginning of the updates. -/
lemma updates_prefix {log log' : List Op} (h : log <+: log') : updates log <+: updates log' := by
  obtain ⟨rest, rfl⟩ := h
  induction rest using List.reverseRecOn with
  | nil => rw [List.append_nil]
  | append_singleton rest op ih =>
    rw [← List.append_assoc, updates_concat]
    split_ifs
    · exact ih.trans (List.prefix_append _ _)
    · exact ih

namespace Service

variable {κ : Type} {s t : Service κ}

/-- A `Get` is executed when the server has recorded no later request of its client. -/
def InOrder (s : Service κ) : Event κ → Prop
  | .execute k => ∀ call ∈ s.calls[k]?, ∀ l ∈ (s.servers call.server).kv.last call.op.ClientId,
    l ≤ call.op.RequestId
  | _ => True

instance (s : Service κ) (e : Event κ) : Decidable (s.InOrder e) := by
  unfold InOrder
  split <;> infer_instance

/-- The server has executed each update of what it has applied at its first place, and its table says
so. -/
structure Exact (r : Replica) : Prop where
  executed : r.executed = updates r.applied
  recorded : ∀ o ∈ r.applied, o.IsUpdate → ∃ l ∈ r.kv.last o.ClientId, o.RequestId ≤ l

/-- The reply is set by a server that has applied a beginning of the log, with the command of the
request when it is the answer of a `Get`. -/
structure Told (log : List Op) (op : Op) (reply : ClerkReply) : Prop where
  applied : reply.applied <+: log
  executed : reply.executed = updates reply.applied
  reached : ¬ op.IsUpdate → reply.err ≠ .errWrongLeader →
    ∃ o ∈ reply.applied, o.ClientId = op.ClientId ∧ op.RequestId ≤ o.RequestId

/-- So it is of every server and every reply. -/
structure Faithful (s : Service κ) : Prop where
  servers : ∀ i, Exact (s.servers i)
  replies : ∀ call ∈ s.calls, ∀ reply ∈ call.phase.reply, Told s.log call.op reply

/-! ### Servers -/

variable {r r' : Replica} {log : List Op} {call : ClerkCall} {op : Op} {i : κ} {k : ℕ}

/-- Exactness speaks of the commands and the table only. -/
lemma Exact.congr (h : Exact r) (happlied : r'.applied = r.applied)
    (hexecuted : r'.executed = r.executed) (hlast : r'.kv.last = r.kv.last) : Exact r' where
  executed := by rw [hexecuted, happlied, h.executed]
  recorded := by
    rw [happlied, hlast]
    exact h.recorded

/-- Registering a queue executes nothing. -/
lemma Exact.register (h : Exact r) (index : ℤ) : Exact (r.register index) := by
  rw [Replica.register]
  split
  · exact h
  · exact h.congr rfl rfl rfl

/-- Popping a queue executes nothing. -/
lemma Exact.pop (h : Exact r) {index : ℤ} (hpop : r.pop index = some (r', op)) : Exact r' := by
  rw [Replica.pop] at hpop
  split at hpop
  · obtain ⟨rfl, -⟩ := Prod.mk.inj (Option.some.inj hpop)
    exact h.congr rfl rfl rfl
  · cases hpop

/-- `ExecuteGetOpOnKVDB` does not take the table back. -/
lemma Exact.execute (h : Exact r) (hle : ∀ l ∈ r.kv.last op.ClientId, l ≤ op.RequestId) :
    Exact { r with kv := (r.kv.executeGetOpOnKVDB op).1 } := by
  refine { h with recorded := fun o ho hup => ?_ }
  obtain ⟨l, hl, hle'⟩ := h.recorded o ho hup
  rw [KvServer.executeGetOpOnKVDB, KvServer.last_setLastRequestId]
  by_cases hc : o.ClientId = op.ClientId
  · rw [hc, Function.update_self]
    exact ⟨_, rfl, Int.le_trans hle' (hle l (hc ▸ hl))⟩
  · rw [Function.update_of_ne hc]
    exact ⟨l, hl, hle'⟩

/-- The next command is executed unless it was before. -/
lemma Exact.apply {A : Archives} {rand : ℕ} {raftStateSize : ℤ} (h : Exact r) (hr : ReplicaInv log r)
    (happly : r.apply A log rand raftStateSize = some r')
    (hreached : ∀ op, r.applied ++ [op] <+: log → op.IsUpdate → Reached r op → op ∈ r.applied) :
    Exact r' := by
  obtain ⟨op, hop, happlied, hkv, hexecuted⟩ := apply_cases hr happly
  have hview := (KvServer.sendMessageToWaitChan_same (r.kv.executeCommand rand op) op
    (r.applied.length + 1)).1
  rw [← hkv, KvServer.view_executeCommand] at hview
  have htable : r'.kv.last = (r.kv.view.exec op).table := congrArg KvState.table hview
  -- an update is skipped when it has been applied before
  have hskip : op.IsUpdate → (r.kv.ifRequestDuplicate op.ClientId op.RequestId ↔
      ∃ y ∈ r.applied, y.IsUpdate ∧ y.ClientId = op.ClientId ∧ y.RequestId = op.RequestId) := by
    intro hup
    rw [KvServer.ifRequestDuplicate_iff]
    constructor
    · rintro ⟨l, hl, hle⟩
      obtain ⟨x, hx, hclient, hle'⟩ := hr.last _ l hl
      exact ⟨op, hreached op hop hup ⟨x, hx, hclient, Int.le_trans hle hle'⟩, hup, rfl, rfl⟩
    · rintro ⟨y, hy, hyup, hclient, hrequest⟩
      rw [← hclient, ← hrequest]
      exact h.recorded y hy hyup
  constructor
  · rw [hexecuted, happlied, updates_concat, h.executed]
    by_cases hup : op.IsUpdate
    · by_cases hdup : r.kv.ifRequestDuplicate op.ClientId op.RequestId
      · obtain ⟨y, hy, hyup, hclient, hrequest⟩ := (hskip hup).mp hdup
        rw [if_pos (.inl hdup), if_neg]
        exact fun hnew => hnew.2 y hy hyup hclient hrequest
      · rw [if_neg (not_or.mpr ⟨hdup, not_not.mpr hup⟩), if_pos]
        exact ⟨hup, fun y hy hyup hclient hrequest =>
          hdup ((hskip hup).mpr ⟨y, hy, hyup, hclient, hrequest⟩)⟩
    · rw [if_pos (.inr hup), if_neg fun hnew => hup hnew.1]
  · intro o ho hup
    rw [htable]
    rw [happlied] at ho
    obtain ⟨hskip, hexec⟩ | ⟨hskip, -, hexec⟩ := exec_cases r.kv op
    · rw [hexec]
      obtain ho | ho := List.mem_append.mp ho
      · exact h.recorded o ho hup
      · obtain rfl := List.mem_singleton.mp ho
        obtain hdup | hnot := hskip
        · exact KvServer.ifRequestDuplicate_iff.mp hdup
        · exact absurd hup hnot
    · rw [hexec]
      by_cases hc : o.ClientId = op.ClientId
      · simp only [hc, Function.update_self]
        refine ⟨_, rfl, ?_⟩
        obtain ho | ho := List.mem_append.mp ho
        · obtain ⟨l, hl, hle⟩ := h.recorded o ho hup
          have hall := KvServer.ifRequestDuplicate_eq_false.mp
            (Bool.eq_false_iff.mpr (not_or.mp hskip).1)
          exact Int.le_trans hle (Int.le_of_lt (hall l (hc ▸ hl)))
        · exact Int.le_of_eq (congrArg Op.RequestId (List.mem_singleton.mp ho))
      · simp only [Function.update_of_ne hc]
        obtain ho | ho := List.mem_append.mp ho
        · exact h.recorded o ho hup
        · exact absurd (congrArg Op.ClientId (List.mem_singleton.mp ho)) hc

/-! ### Steps -/

/-- What a clerk was told stays true of a longer log. -/
lemma Told.mono {reply : ClerkReply} {log' : List Op} (h : Told log op reply) (hlog : log <+: log') :
    Told log' op reply :=
  { h with applied := h.applied.trans hlog }

/-- A reply that is set now. -/
lemma Told.now (hr : ReplicaInv log r) (h : Exact r) {err : Err} {value : Bytes}
    (hreached : ¬ op.IsUpdate → err ≠ .errWrongLeader → Reached r op) :
    Told log op (r.reply err value) :=
  ⟨hr.applied, h.executed, hreached⟩

/-- A server may change as long as it stays exact. -/
lemma Faithful.setServer (h : Faithful s) {j : ℕ} (hr : Exact r) : Faithful (s.setServer j r) := by
  refine ⟨fun l => ?_, h.replies⟩
  simp only [Service.setServer, Function.update_apply]
  split_ifs
  · exact hr
  · exact h.servers l

/-- A call may go on as long as its reply is true. -/
lemma Faithful.setPhase (h : Faithful s) (hcall : s.calls[k]? = some call) {phase : CallPhase}
    (hphase : ∀ reply ∈ phase.reply, Told s.log call.op reply) : Faithful (s.setPhase k phase) := by
  refine ⟨h.servers, fun c hc => ?_⟩
  obtain ⟨l, hl⟩ := List.mem_iff_getElem?.mp hc
  simp only [Service.setPhase, List.getElem?_modify] at hl
  obtain ⟨old, hold, rfl⟩ := Option.map_eq_some_iff.mp hl
  split_ifs with hkl
  · obtain rfl := hkl
    obtain rfl := Option.some.inj (hcall.symm.trans hold)
    exact hphase
  · exact h.replies old (List.mem_of_getElem? hold)

/-- A phase without a reply. -/
lemma Faithful.setPlain (h : Faithful s) (hcall : s.calls[k]? = some call) {phase : CallPhase}
    (hphase : phase.reply = none) : Faithful (s.setPhase k phase) :=
  h.setPhase hcall fun reply hreply => by
    rw [hphase] at hreply
    cases hreply

/-- What a server replies when it is no leader, or to a `PutAppend`. -/
lemma Faithful.setReply (h : Faithful s) (hinv : Inv s) (hcall : s.calls[k]? = some call)
    {phase : CallPhase} {err : Err} {value : Bytes}
    (hphase : phase.reply = some ((s.servers call.server).reply err value))
    (herr : call.op.IsUpdate ∨ err = .errWrongLeader) : Faithful (s.setPhase k phase) := by
  refine h.setPhase hcall fun reply hreply => ?_
  obtain rfl := Option.some.inj (hphase.symm.trans hreply)
  refine Told.now (hinv.replicas _) (h.servers _) fun hget hne => ?_
  obtain hup | herr := herr
  · exact absurd hup hget
  · exact absurd herr hne

/-- A `PutAppend` handler replies the truth. -/
lemma Faithful.replyPutAppend (h : Faithful s) (hinv : Inv s) (hcall : s.calls[k]? = some call)
    (hup : call.op.IsUpdate) (raftIndex : ℤ) (ok : Bool) :
    Faithful (s.replyPutAppend k call raftIndex ok) := by
  have hset : Faithful (s.setPhase k (.replied raftIndex
      ((s.servers call.server).reply (if ok then .ok else .errWrongLeader) []))) :=
    h.setReply hinv hcall rfl (.inl hup)
  exact ⟨hset.servers, hset.replies⟩

/-- A `Get` handler replies the truth. -/
lemma Faithful.replyGet (h : Faithful s) (hinv : Inv s) (hcall : s.calls[k]? = some call)
    (raftIndex : ℤ) (ok : Bool) : Faithful (s.replyGet k call raftIndex ok) := by
  rw [Service.replyGet]
  split_ifs
  · exact h.setPlain hcall rfl
  · exact h.setReply hinv hcall rfl (.inr rfl)

/-- A handler that decides on its reply replies the truth. -/
lemma Faithful.decide (h : Faithful s) (hinv : Inv s) (hcall : s.calls[k]? = some call)
    (hdec : s.decide k call = some t) : Faithful t := by
  rw [Service.decide] at hdec
  split at hdec
  · obtain rfl := Option.some.inj hdec
    split_ifs with hup
    · exact h.replyPutAppend hinv hcall hup _ _
    · exact h.replyGet hinv hcall _ _
  · obtain rfl := Option.some.inj hdec
    split_ifs with hup
    · exact h.replyPutAppend hinv hcall hup _ _
    · exact h.replyGet hinv hcall _ _
  · cases hdec

/-- A `Get` that is executed returns what the log gives it. -/
lemma Faithful.execute (h : Faithful s) (hinv : Inv s) (hcall : s.calls[k]? = some call)
    {raftIndex : ℤ} (hphase : call.phase = .reading raftIndex)
    (hle : ∀ l ∈ (s.servers call.server).kv.last call.op.ClientId, l ≤ call.op.RequestId) :
    Faithful (s.execute k call raftIndex) := by
  obtain ⟨-, -, hreading, -⟩ := hinv.calls call (List.mem_of_getElem? hcall)
  obtain ⟨-, hreached⟩ := hreading raftIndex hphase
  have hserver := h.setServer (j := call.server) ((h.servers call.server).execute hle)
  refine hserver.setPhase hcall fun reply hreply => ?_
  have htold : ∀ err value, Told s.log call.op ((s.servers call.server).reply err value) :=
    fun _ _ => .now (hinv.replicas _) (h.servers _) fun _ _ => hreached
  obtain rfl := Option.some.inj hreply
  split <;> exact htold _ _

variable [DecidableEq κ]

/-- Sending a request promises nothing. -/
lemma Faithful.send (h : Faithful s) (op : Op) (before : List Op) (server : ℕ) :
    Faithful (s.send i op before server) := by
  refine ⟨h.servers, fun c hc reply hreply => ?_⟩
  obtain hc | hc := List.mem_append.mp hc
  · exact h.replies c hc reply hreply
  · obtain rfl := List.mem_singleton.mp hc
    cases hreply

/-- A clerk that gets a reply changes no server. -/
lemma Faithful.receive (h : Faithful s) (q : ClerkRequest) (reply : ClerkReply) :
    Faithful (s.receive i q reply) := by
  have hfinish : ∀ leader, Faithful (s.finish i leader) := fun _ => ⟨h.servers, h.replies⟩
  rw [Service.receive]
  split
  · exact h.send _ _ _
  · split_ifs
    · exact h.send _ _ _
    · exact hfinish _
  · exact hfinish _

/-- A step at which no `Get` is executed behind a later request of its client. -/
lemma Faithful.step {A : Archives} {e : Event κ} (h : Faithful s) (hinv : Inv s)
    (horder : s.InOrder e) (hstep : s.step A e = some t) : Faithful t := by
  cases e with
  | request j ask =>
    rw [Service.step, Service.request] at hstep
    split at hstep
    · cases hstep
    · obtain rfl := Option.some.inj hstep
      apply Faithful.send
      exact ⟨h.servers, h.replies⟩
  | fail j =>
    obtain ⟨q, -, rfl⟩ := Option.map_eq_some_iff.mp hstep
    exact h.send _ _ _
  | receive j =>
    obtain ⟨q, -, hstep⟩ := Option.bind_eq_some_iff.mp hstep
    obtain ⟨call, -, hstep⟩ := handle_cases hstep
    split at hstep
    · obtain rfl := Option.some.inj hstep
      exact h.receive q _
    · cases hstep
  | start k isLeader raftIndex =>
    obtain ⟨call, hcall, hstep⟩ := handle_cases hstep
    split at hstep
    · obtain rfl := Option.some.inj hstep
      split_ifs
      · have hset : Faithful (s.setPhase k (.started raftIndex)) := h.setPlain hcall rfl
        exact ⟨hset.servers, hset.replies⟩
      · exact h.setReply hinv hcall rfl (.inr rfl)
    · cases hstep
  | register k =>
    obtain ⟨call, hcall, hstep⟩ := handle_cases hstep
    split at hstep
    · obtain rfl := Option.some.inj hstep
      exact (h.setServer ((h.servers call.server).register _)).setPlain hcall rfl
    · cases hstep
  | pop k =>
    obtain ⟨call, hcall, hstep⟩ := handle_cases hstep
    split at hstep
    · obtain ⟨⟨r, op⟩, hpop, rfl⟩ := Option.map_eq_some_iff.mp hstep
      exact (h.setServer ((h.servers call.server).pop hpop)).setPlain hcall rfl
    · cases hstep
  | timeOut k isLeader =>
    obtain ⟨call, hcall, hstep⟩ := handle_cases hstep
    split at hstep
    · obtain rfl := Option.some.inj hstep
      exact h.setPlain hcall rfl
    · cases hstep
  | decide k =>
    obtain ⟨call, hcall, hstep⟩ := handle_cases hstep
    exact h.decide hinv hcall hstep
  | execute k =>
    obtain ⟨call, hcall, hstep⟩ := handle_cases hstep
    split at hstep
    · rename_i raftIndex hphase
      obtain rfl := Option.some.inj hstep
      exact h.execute hinv hcall hphase (horder call hcall)
    · cases hstep
  | erase k =>
    obtain ⟨call, hcall, hstep⟩ := handle_cases hstep
    split at hstep
    · rename_i raftIndex reply hphase
      obtain rfl := Option.some.inj hstep
      have hexact : Exact ((s.servers call.server).erase raftIndex) :=
        (h.servers call.server).congr rfl rfl rfl
      have hserver := h.setServer (j := call.server) hexact
      refine hserver.setPhase hcall fun reply' hreply => ?_
      obtain rfl := Option.some.inj hreply
      exact h.replies call (List.mem_of_getElem? hcall) reply (by rw [hphase]; rfl)
    · cases hstep
  | commit op =>
    obtain ⟨-, hstep⟩ := Option.ite_none_right_eq_some.mp hstep
    obtain rfl := Option.some.inj hstep
    exact ⟨h.servers, fun c hc reply hreply =>
      (h.replies c hc reply hreply).mono (List.prefix_append _ _)⟩
  | apply server rand raftStateSize =>
    obtain ⟨r, hr, rfl⟩ := Option.map_eq_some_iff.mp hstep
    refine h.setServer ((h.servers server).apply (hinv.replicas server) hr fun op hop hup hreached => ?_)
    have hlog : op ∈ s.log := hop.subset (List.mem_append_right _ List.mem_cons_self)
    obtain ⟨before, hbefore⟩ := hinv.committed op hlog
    exact hinv.mem_applied hbefore hup hreached

omit [DecidableEq κ] in
/-- At the start nothing was executed or told. -/
lemma Faithful.initial (size : ℕ) (maxraftstate : ℕ → ℤ) (rands : κ → ℕ → ℕ) :
    Faithful (initial size maxraftstate rands) where
  servers _ := ⟨rfl, fun _ ho => by cases ho⟩
  replies _ hc := by cases hc

/-- In runs in which no `Get` is executed behind a later request of its client, a server executes each
update that it applies once, servers execute the same updates in the same order, and those that have
applied as many commands hold the same data. -/
theorem updates_executed_once (A : Archives) (size : ℕ) (maxraftstate : ℕ → ℤ) (rands : κ → ℕ → ℕ)
    (hids : Function.Injective fun i => uuid (rands i)) {s : Service κ}
    (hrun : Run (step A) InOrder (Service.initial size maxraftstate rands) s) (i j : ℕ) :
    (s.servers i).executed.Nodup ∧
      (∀ op, op ∈ (s.servers i).executed ↔ op ∈ (s.servers i).applied ∧ op.IsUpdate) ∧
      ((s.servers i).applied.length ≤ (s.servers j).applied.length →
        (s.servers i).executed <+: (s.servers j).executed) ∧
      ((s.servers i).applied.length = (s.servers j).applied.length →
        (s.servers i).kv.skipList.search_element = (s.servers j).kv.skipList.search_element) := by
  obtain ⟨hinv, hfaithful⟩ := hrun.invariant (I := fun s => Inv s ∧ Faithful s)
    (fun _ _ _ h horder hstep => ⟨h.1.step hstep, h.2.step h.1 horder hstep⟩)
    ⟨.initial size maxraftstate hids, .initial size maxraftstate rands⟩
  have hi := (hfaithful.servers i).executed
  have hj := (hfaithful.servers j).executed
  have hpre : (s.servers i).applied.length ≤ (s.servers j).applied.length →
      (s.servers i).applied <+: (s.servers j).applied :=
    List.prefix_of_prefix_length_le (hinv.replicas i).applied (hinv.replicas j).applied
  refine ⟨hi ▸ nodup_updates _, fun op => ⟨fun hop => ?_, fun hop => ?_⟩, fun hle => ?_, fun heq => ?_⟩
  · rw [hi] at hop
    exact ⟨updates_subset hop, updates_isUpdate hop⟩
  · exact (hinv.replicas i).executed op hop.1 hop.2
  · rw [hi, hj]
    exact updates_prefix (hpre hle)
  · have happlied := (hpre heq.le).eq_of_length heq
    rw [(hinv.replicas i).map, (hinv.replicas j).map, hi, hj, happlied]

/-- A `Put` whose call fails once, so that it comes to the log twice, and two servers. -/
theorem updates_executed_once_retry :
    ∃ s : Service (Fin 1), (s.servers 0).applied.length = 2 ∧ (s.servers 0).executed.length = 1 ∧
      (s.servers 0).executed.Nodup ∧
      (s.servers 0).kv.skipList.search_element = (s.servers 1).kv.skipList.search_element := by
  have hruns : ∃ s ∈ runIf (step textArchives) InOrder (Service.initial 2 (fun _ => -1) fun _ _ => 0)
      (let op := (Ask.put [1] [5]).op (uuid fun _ => 0) 1
       [.request (0 : Fin 1) (.put [1] [5]), .start 0 true 1, .fail 0, .start 1 true 2, .commit op, .commit op,
        .apply 0 0 0, .apply 0 0 0, .apply 1 0 0, .apply 1 1 0]),
      (s.servers 0).applied.length = 2 ∧ (s.servers 0).executed.length = 1 ∧
        (s.servers 0).applied.length = (s.servers 1).applied.length := by decide
  obtain ⟨s, hrun, happlied, hexecuted, hlength⟩ := exists_run_of_runIf hruns
  obtain ⟨hnodup, -, -, hmap⟩ := updates_executed_once textArchives 2 (fun _ => -1) (fun _ _ => 0)
    (fun i j _ => Subsingleton.elim i j) hrun 0 1
  exact ⟨s, happlied, hexecuted, hnodup, hmap hlength⟩

end Service

end KVCacheRaft
