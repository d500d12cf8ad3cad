import KVCacheRaft.Server.Clerks

/-!
# Fresh reads

As long as no two clerks have the same id, a server that has recorded a request of a client has applied
a command of the client that is no earlier. A clerk sends its next request when the one before is
answered, and what is answered is in the log; so the commands in front of that one in the log are all
that the answer needs.
-/

namespace KVCacheRaft

open Machine

namespace Service

variable {κ : Type} {s t : Service κ}

/-- What a server has done is in the log, and its table and its channels say no more than it has
applied. -/
structure ReplicaInv (log : List Op) (r : Replica) : Prop where
  snapshot : r.kv.lastSnapShotRaftLogIndex = 0
  applied : r.applied <+: log
  last : ∀ c, ∀ l ∈ r.kv.last c, ∃ o ∈ r.applied, o.ClientId = c ∧ l ≤ o.RequestId
  executed : ∀ o ∈ r.applied, o.IsUpdate → o ∈ r.executed
  map : r.kv.skipList.search_element = r.executed.foldl replace fun _ => none
  channels : ∀ index queue, r.kv.waitApplyCh.lookup index = some queue →
    ∀ o ∈ queue, o ∈ r.applied

/-- The server has applied a command of the client that is no earlier. -/
def Reached (r : Replica) (op : Op) : Prop :=
  ∃ o ∈ r.applied, o.ClientId = op.ClientId ∧ op.RequestId ≤ o.RequestId

/-- What holds of a call at its phase. -/
def CallInv (r : Replica) (call : ClerkCall) : Prop :=
  (∀ index o, call.phase = .popped index o → o ∈ r.applied) ∧
    (∀ index, call.phase = .reading index → ¬ call.op.IsUpdate ∧ Reached r call.op) ∧
    ∀ reply ∈ call.phase.reply, reply.applied ⊆ r.applied ∧ Answers call reply

/-- What holds of the log, the clerks and the servers. -/
structure Inv (s : Service κ) : Prop where
  ids : ∀ i j, (s.clerks i).clientId = (s.clerks j).clientId → i = j
  owner : ∀ x ∈ s.issued, ∃ i, x.1.ClientId = (s.clerks i).clientId
  counted : ∀ x ∈ s.issued, ∀ i, x.1.ClientId = (s.clerks i).clientId →
    x.1.RequestId ≤ (s.clerks i).requestId
  unique : ∀ x ∈ s.issued, ∀ y ∈ s.issued, x.1.ClientId = y.1.ClientId →
    x.1.RequestId = y.1.RequestId → x = y
  requests : ∀ i, ∀ r ∈ (s.clerks i).request, (r.op, r.before) ∈ s.issued ∧
    r.op.ClientId = (s.clerks i).clientId ∧ r.op.RequestId = (s.clerks i).requestId ∧
    ∃ call, s.calls[r.call]? = some call ∧ call.op = r.op
  calls : ∀ call ∈ s.calls, (call.op, call.before) ∈ s.issued ∧
    CallInv (s.servers call.server) call
  started : ∀ o ∈ s.started, ∃ before, (o, before) ∈ s.issued
  committed : ∀ o ∈ s.log, ∃ before, (o, before) ∈ s.issued
  answered : ∀ o ∈ s.answered, o ∈ s.log ∧ o.IsUpdate
  before : ∀ x ∈ s.issued, ∀ o ∈ x.2, o ∈ s.log ∧ o.IsUpdate
  /-- the requests of a clerk but for the one it waits for -/
  done : ∀ i, ∀ x ∈ s.issued, x.1.IsUpdate → x.1.ClientId = (s.clerks i).clientId →
    (x.1.RequestId = (s.clerks i).requestId → (s.clerks i).request = none) → x.1 ∈ s.log
  ordered : ∀ x ∈ s.issued, ∀ pre o, pre ++ [o] <+: s.log → o.ClientId = x.1.ClientId →
    (x.1.IsUpdate → x.1.RequestId < o.RequestId → x.1 ∈ pre) ∧
    (x.1.RequestId ≤ o.RequestId → ∀ p ∈ x.2, p ∈ pre)
  replicas : ∀ i, ReplicaInv s.log (s.servers i)

/-! ### Servers -/

variable {r r' : Replica} {log : List Op} {call : ClerkCall}

/-- What holds of a call still does when its server has applied more. -/
lemma CallInv.mono (h : CallInv r call) (happlied : r.applied ⊆ r'.applied) : CallInv r' call := by
  obtain ⟨hpopped, hreading, hreply⟩ := h
  refine ⟨fun index o ho => happlied (hpopped index o ho), fun index hi => ?_, fun reply hr => ?_⟩
  · obtain ⟨hget, o, ho, hle⟩ := hreading index hi
    exact ⟨hget, o, happlied ho, hle⟩
  · obtain ⟨hsub, hanswers⟩ := hreply reply hr
    exact ⟨fun o ho => happlied (hsub ho), hanswers⟩

/-- A server of a log serves a longer one. -/
lemma ReplicaInv.append (h : ReplicaInv log r) (op : Op) : ReplicaInv (log ++ [op]) r :=
  { h with applied := h.applied.trans (List.prefix_append _ _) }

/-- Other channels, with nothing new in them. -/
lemma ReplicaInv.channel (h : ReplicaInv log r) (waitApplyCh : UnorderedMap ℤ (List Op))
    (hchannels : ∀ index queue, waitApplyCh.lookup index = some queue → ∀ o ∈ queue, o ∈ r.applied) :
    ReplicaInv log { r with kv := { r.kv with waitApplyCh } } :=
  { h with channels := hchannels }

/-- A queue found behind an insertion is the new one or an old one. -/
lemma lookup_insert_cases {m : UnorderedMap ℤ (List Op)} {index j : ℤ} {queue q : List Op}
    (h : (m.insert index queue).lookup j = some q) : j = index ∧ q = queue ∨ m.lookup j = some q := by
  by_cases hj : j = index
  · subst hj
    rw [AList.lookup_insert] at h
    exact .inl ⟨rfl, (Option.some.inj h).symm⟩
  · rw [AList.lookup_insert_ne hj] at h
    exact .inr h

/-- Registering a queue keeps what holds of a server. -/
lemma ReplicaInv.register (h : ReplicaInv log r) (index : ℤ) : ReplicaInv log (r.register index) := by
  rw [Replica.register]
  split
  · exact h
  · refine h.channel _ fun j q hq o ho => ?_
    obtain ⟨-, rfl⟩ | hq := lookup_insert_cases hq
    · cases ho
    · exact h.channels j q hq o ho

/-- A command that is popped was applied. -/
lemma ReplicaInv.pop (h : ReplicaInv log r) {index : ℤ} {op : Op}
    (hpop : r.pop index = some (r', op)) :
    ReplicaInv log r' ∧ r'.applied = r.applied ∧ op ∈ r.applied := by
  rw [Replica.pop] at hpop
  split at hpop
  · rename_i x rest hlookup
    obtain ⟨rfl, rfl⟩ := Prod.mk.inj (Option.some.inj hpop)
    have hqueue := h.channels index _ hlookup
    refine ⟨h.channel _ fun j q hq o ho => ?_, rfl, hqueue _ List.mem_cons_self⟩
    obtain ⟨-, rfl⟩ | hq := lookup_insert_cases hq
    · exact hqueue o (List.mem_cons_of_mem _ ho)
    · exact h.channels j q hq o ho
  · cases hpop

/-- Deleting a queue keeps what holds of a server. -/
lemma ReplicaInv.erase (h : ReplicaInv log r) (index : ℤ) : ReplicaInv log (r.erase index) := by
  refine h.channel _ fun j q hq o ho => ?_
  by_cases hj : j = index
  · rw [hj, AList.lookup_erase] at hq
    cases hq
  · rw [AList.lookup_erase_ne hj] at hq
    exact h.channels j q hq o ho

/-- `ExecuteGetOpOnKVDB` records a request that the server has reached. -/
lemma ReplicaInv.execute (h : ReplicaInv log r) {op : Op} (hreached : Reached r op) :
    ReplicaInv log { r with kv := (r.kv.executeGetOpOnKVDB op).1 } := by
  refine { h with last := fun c l hl => ?_ }
  rw [KvServer.executeGetOpOnKVDB, KvServer.last_setLastRequestId] at hl
  by_cases hc : c = op.ClientId
  · subst hc
    rw [Function.update_self] at hl
    obtain rfl := Option.some.inj hl
    exact hreached
  · rw [Function.update_of_ne hc] at hl
    exact h.last c l hl

/-- Executing a command leaves the queues. -/
lemma executeCommand_waitApplyCh (kv : KvServer) (rand : ℕ) (op : Op) :
    (kv.executeCommand rand op).waitApplyCh = kv.waitApplyCh := by
  unfold KvServer.executeCommand
  simp only
  split_ifs <;> rfl

/-- A command that is executed is an update that no recorded request is as late as. -/
lemma exec_cases (kv : KvServer) (op : Op) :
    (kv.ifRequestDuplicate op.ClientId op.RequestId ∨ ¬ op.IsUpdate) ∧ kv.view.exec op = kv.view ∨
      ¬ (kv.ifRequestDuplicate op.ClientId op.RequestId ∨ ¬ op.IsUpdate) ∧ op.IsUpdate ∧
        kv.view.exec op =
          { map := replace kv.view.map op
            table := Function.update kv.view.table op.ClientId (some op.RequestId) } := by
  by_cases hskip : kv.ifRequestDuplicate op.ClientId op.RequestId ∨ ¬ op.IsUpdate
  · refine .inl ⟨hskip, if_neg ?_⟩
    rintro ⟨hup, hall⟩
    obtain hdup | hnot := hskip
    · obtain ⟨l, hl, hle⟩ := KvServer.ifRequestDuplicate_iff.mp hdup
      exact absurd (hall l hl) (Int.not_lt.mpr hle)
    · exact hnot hup
  · obtain ⟨hdup, hup⟩ := not_or.mp hskip
    have hall := KvServer.ifRequestDuplicate_eq_false.mp (Bool.eq_false_iff.mpr hdup)
    exact .inr ⟨hskip, not_not.mp hup, if_pos ⟨not_not.mp hup, hall⟩⟩

/-- The next command of the log. -/
lemma apply_cases {A : Archives} {rand : ℕ} {raftStateSize : ℤ}
    (h : ReplicaInv log r) (happly : r.apply A log rand raftStateSize = some r') :
    ∃ op, r.applied ++ [op] <+: log ∧ r'.applied = r.applied ++ [op] ∧
      r'.kv = (r.kv.executeCommand rand op).sendMessageToWaitChan op (r.applied.length + 1) ∧
      r'.executed = if r.kv.ifRequestDuplicate op.ClientId op.RequestId ∨ ¬ op.IsUpdate
        then r.executed else r.executed ++ [op] := by
  obtain ⟨op, hop, happly⟩ := Option.bind_eq_some_iff.mp happly
  obtain ⟨⟨kv, call⟩, hkv, rfl⟩ := Option.map_eq_some_iff.mp happly
  have hindex : ¬ ((r.applied.length : ℤ) + 1 ≤ r.kv.lastSnapShotRaftLogIndex) := by
    rw [h.snapshot]
    omega
  rw [KvServer.getCommandFromRaft, A.op.load_save, Option.map_some] at hkv
  simp only [if_neg hindex, Option.some.injEq, Prod.mk.injEq] at hkv
  refine ⟨op, ?_, rfl, hkv.1.symm, rfl⟩
  obtain ⟨rest, rfl⟩ := h.applied
  rw [List.getElem?_append_right (Nat.le_refl _), Nat.sub_self] at hop
  cases rest with
  | nil => cases hop
  | cons x rest =>
    obtain rfl := Option.some.inj hop
    exact ⟨rest, by simp⟩

/-- Applying the next command keeps what holds of a server. -/
lemma ReplicaInv.apply {A : Archives} {rand : ℕ} {raftStateSize : ℤ} (h : ReplicaInv log r)
    (happly : r.apply A log rand raftStateSize = some r')
    (hreached : ∀ op, r.applied ++ [op] <+: log → op.IsUpdate → Reached r op → op ∈ r.applied) :
    ReplicaInv log r' ∧ r.applied ⊆ r'.applied := by
  obtain ⟨op, hop, happlied, hkv, hexecuted⟩ := apply_cases h happly
  obtain ⟨hview, hsnap⟩ := KvServer.sendMessageToWaitChan_same (r.kv.executeCommand rand op) op
    (r.applied.length + 1)
  rw [← hkv, KvServer.view_executeCommand] at hview
  rw [← hkv, KvServer.executeCommand_snapshotIndex] at hsnap
  have hsub : r.applied ⊆ r'.applied := by
    rw [happlied]
    exact List.subset_append_left _ _
  have hlast : op ∈ r'.applied := by
    rw [happlied]
    exact List.mem_append_right _ List.mem_cons_self
  have hchannels : ∀ index queue, r'.kv.waitApplyCh.lookup index = some queue →
      ∀ o ∈ queue, o ∈ r'.applied := by
    intro index queue hq o ho
    have hold : ∀ index queue, (r.kv.executeCommand rand op).waitApplyCh.lookup index = some queue →
        ∀ o ∈ queue, o ∈ r'.applied := by
      intro index queue hq o ho
      rw [executeCommand_waitApplyCh] at hq
      exact hsub (h.channels index queue hq o ho)
    rw [hkv, KvServer.sendMessageToWaitChan] at hq
    split at hq
    · exact hold index queue hq o ho
    · rename_i present hpresent
      obtain ⟨rfl, rfl⟩ | hq := lookup_insert_cases hq
      · obtain ho | ho := List.mem_append.mp ho
        · exact hold _ _ hpresent o ho
        · exact List.mem_singleton.mp ho ▸ hlast
      · exact hold index queue hq o ho
  refine ⟨⟨hsnap.trans h.snapshot, happlied ▸ hop, ?_, ?_, ?_, hchannels⟩, hsub⟩
  · intro c l hl
    have htable : r'.kv.last = (r.kv.view.exec op).table := congrArg KvState.table hview
    rw [htable] at hl
    obtain ⟨-, hexec⟩ | ⟨-, -, hexec⟩ := exec_cases r.kv op
    · rw [hexec] at hl
      obtain ⟨o, ho, hle⟩ := h.last c l hl
      exact ⟨o, hsub ho, hle⟩
    · rw [hexec] at hl
      by_cases hc : c = op.ClientId
      · subst hc
        simp only [Function.update_self] at hl
        obtain rfl := Option.some.inj hl
        exact ⟨op, hlast, rfl, Int.le_refl _⟩
      · simp only [Function.update_of_ne hc] at hl
        obtain ⟨o, ho, hle⟩ := h.last c l hl
        exact ⟨o, hsub ho, hle⟩
  · intro o ho hup
    rw [happlied] at ho
    rw [hexecuted]
    obtain ho | ho := List.mem_append.mp ho
    · split_ifs
      · exact h.executed o ho hup
      · exact List.mem_append_left _ (h.executed o ho hup)
    · obtain rfl := List.mem_singleton.mp ho
      split_ifs with hskip
      · -- what is recorded is a command behind a first copy of this one
        obtain hdup | hnot := hskip
        · obtain ⟨l, hl, hle⟩ := KvServer.ifRequestDuplicate_iff.mp hdup
          obtain ⟨x, hx, hclient, hle'⟩ := h.last _ l hl
          exact h.executed o (hreached o hop hup ⟨x, hx, hclient, Int.le_trans hle hle'⟩) hup
        · exact absurd hup hnot
      · exact List.mem_append_right _ List.mem_cons_self
  · have hmap : r'.kv.skipList.search_element = (r.kv.view.exec op).map := congrArg KvState.map hview
    rw [hmap, hexecuted]
    obtain ⟨hskip, hexec⟩ | ⟨hskip, -, hexec⟩ := exec_cases r.kv op
    · rw [hexec, if_pos hskip]
      exact h.map
    · rw [hexec, if_neg hskip, List.foldl_concat, ← h.map]
      rfl

/-! ### Steps -/

variable {i : κ} {op : Op} {k : ℕ}

/-- A command that is recorded at a server has been applied there. -/
lemma Inv.mem_applied (h : Inv s) {x : Op × List Op} (hx : x ∈ s.issued) (hup : x.1.IsUpdate) {j : ℕ}
    (hreached : Reached (s.servers j) x.1) : x.1 ∈ (s.servers j).applied := by
  obtain ⟨o, ho, hclient, hle⟩ := hreached
  have hlog := (h.replicas j).applied
  obtain heq | hlt := Int.le_iff_eq_or_lt.mp hle
  · obtain ⟨before, hbefore⟩ := h.committed o (hlog.subset ho)
    have := h.unique x hx _ hbefore hclient.symm heq
    rwa [this]
  · obtain ⟨pre, post, hsplit⟩ := List.append_of_mem ho
    have hpre : pre ++ [o] <+: s.log := by
      refine List.IsPrefix.trans ⟨post, ?_⟩ hlog
      rw [hsplit, List.append_assoc, List.singleton_append]
    have := (h.ordered x hx pre o hpre hclient).1 hup hlt
    rw [hsplit]
    exact List.mem_append_left _ this

/-- What was answered before a request that is recorded at a server has been applied there. -/
lemma Inv.before_applied (h : Inv s) {x : Op × List Op} (hx : x ∈ s.issued) {j : ℕ}
    (hreached : Reached (s.servers j) x.1) : ∀ p ∈ x.2, p ∈ (s.servers j).applied := by
  intro p hp
  obtain ⟨o, ho, hclient, hle⟩ := hreached
  obtain ⟨pre, post, hsplit⟩ := List.append_of_mem ho
  have hpre : pre ++ [o] <+: s.log := by
    refine List.IsPrefix.trans ⟨post, ?_⟩ (h.replicas j).applied
    rw [hsplit, List.append_assoc, List.singleton_append]
  rw [hsplit]
  exact List.mem_append_left _ ((h.ordered x hx pre o hpre hclient).2 hle p hp)

/-- A command with the client and the number of a request is that request. -/
lemma Inv.same (h : Inv s) {x : Op × List Op} (hx : x ∈ s.issued) {o : Op} (ho : o ∈ s.log)
    (hclient : o.ClientId = x.1.ClientId) (hnumber : o.RequestId = x.1.RequestId) : o = x.1 := by
  obtain ⟨before, hbefore⟩ := h.committed o ho
  exact congrArg Prod.fst (h.unique _ hbefore x hx hclient hnumber)

/-- A server may change as long as it has applied no less. -/
lemma Inv.setServer (h : Inv s) {j : ℕ} {r : Replica} (hr : ReplicaInv s.log r)
    (hsub : (s.servers j).applied ⊆ r.applied) : Inv (s.setServer j r) := by
  refine { h with calls := fun call hc => ⟨(h.calls call hc).1, ?_⟩, replicas := fun l => ?_ }
  · have hcall := (h.calls call hc).2
    simp only [Service.setServer, Function.update_apply]
    split_ifs with hl
    · exact hcall.mono (hl ▸ hsub)
    · exact hcall
  · simp only [Service.setServer, Function.update_apply]
    split_ifs
    · exact hr
    · exact h.replicas l

/-- A call may go on as long as its phase is true of its server. -/
lemma Inv.setPhase (h : Inv s) (hcall : s.calls[k]? = some call) {phase : CallPhase}
    (hphase : CallInv (s.servers call.server) { call with phase }) : Inv (s.setPhase k phase) := by
  refine { h with requests := fun j r hr => ?_, calls := fun c hc => ?_ }
  · obtain ⟨hissued, hclient, hrequest, c, hc, hop⟩ := h.requests j r hr
    refine ⟨hissued, hclient, hrequest, ?_⟩
    simp only [Service.setPhase, List.getElem?_modify, hc]
    refine ⟨_, rfl, ?_⟩
    split_ifs <;> exact hop
  · obtain ⟨l, hl⟩ := List.mem_iff_getElem?.mp hc
    simp only [Service.setPhase, List.getElem?_modify] at hl
    obtain ⟨old, hold, rfl⟩ := Option.map_eq_some_iff.mp hl
    obtain ⟨hissued, hinv⟩ := h.calls old (List.mem_of_getElem? hold)
    split_ifs with hkl
    · obtain rfl := hkl
      obtain rfl := Option.some.inj (hcall.symm.trans hold)
      exact ⟨hissued, hphase⟩
    · exact ⟨hissued, hinv⟩

/-- Nothing is promised to a call that is on its way. -/
lemma CallInv.sent (r : Replica) (server : ℕ) (op : Op) (before : List Op) :
    CallInv r { server, op, before, phase := .sent } :=
  ⟨fun _ _ ho => (by cases ho), fun _ hi => (by cases hi), fun _ hr => (by cases hr)⟩

/-- A phase that says nothing. -/
lemma CallInv.plain {r : Replica} {call : ClerkCall} (hpopped : ∀ index o, call.phase ≠ .popped index o)
    (hreading : ∀ index, call.phase ≠ .reading index) (hreply : call.phase.reply = none) :
    CallInv r call := by
  refine ⟨fun index o ho => absurd ho (hpopped index o),
    fun index hi => absurd hi (hreading index), fun reply hr => ?_⟩
  rw [hreply] at hr
  cases hr

/-- Something that was started goes into the log. -/
lemma Inv.commit (h : Inv s) (hop : op ∈ s.started) : Inv { s with log := s.log ++ [op] } := by
  have hmono : s.log ⊆ s.log ++ [op] := List.subset_append_left _ _
  refine { h with
    committed := fun o ho => ?_
    answered := fun o ho => ⟨hmono (h.answered o ho).1, (h.answered o ho).2⟩
    before := fun x hx o ho => ⟨hmono (h.before x hx o ho).1, (h.before x hx o ho).2⟩
    done := fun j x hx hup hj hnone => hmono (h.done j x hx hup hj hnone)
    ordered := fun x hx pre o hpre hclient => ?_
    replicas := fun j => (h.replicas j).append op }
  · obtain ho | ho := List.mem_append.mp ho
    · exact h.committed o ho
    · exact List.mem_singleton.mp ho ▸ h.started op hop
  · obtain heq | hpre := List.prefix_concat_iff.mp hpre
    · obtain ⟨rfl, hlast⟩ := List.append_inj' heq rfl
      obtain rfl := List.singleton_inj.mp hlast
      refine ⟨fun hup hlt => ?_, fun _ p hp => (h.before x hx p hp).1⟩
      -- the clerk has sent a later request, so this one is answered
      obtain ⟨before, hbefore⟩ := h.started o hop
      obtain ⟨j, hj⟩ := h.owner x hx
      have hcounted : o.RequestId ≤ (s.clerks j).requestId :=
        h.counted _ hbefore j (hclient.trans hj)
      exact h.done j x hx hup hj fun heq => absurd (heq ▸ hlt) (Int.not_lt.mpr hcounted)
    · exact h.ordered x hx pre o hpre hclient

/-- A handler calls `Start`. -/
lemma Inv.start (h : Inv s) (hcall : call ∈ s.calls) :
    Inv { s with started := s.started ++ [call.op] } := by
  refine { h with started := fun o ho => ?_ }
  obtain ho | ho := List.mem_append.mp ho
  · exact h.started o ho
  · obtain rfl := List.mem_singleton.mp ho
    exact ⟨_, (h.calls call hcall).1⟩

/-- A `PutAppend` is answered with `OK`. -/
lemma Inv.answer (h : Inv s) (hlog : op ∈ s.log) (hup : op.IsUpdate) :
    Inv { s with answered := s.answered ++ [op] } := by
  refine { h with answered := fun o ho => ?_ }
  obtain ho | ho := List.mem_append.mp ho
  · exact h.answered o ho
  · obtain rfl := List.mem_singleton.mp ho
    exact ⟨hlog, hup⟩

/-- The reply of a `PutAppend`: `OK` says that the server has recorded the request. -/
lemma Inv.replyPutAppend (h : Inv s) (hcall : s.calls[k]? = some call) (hup : call.op.IsUpdate)
    {ok : Bool} (hok : ok → Reached (s.servers call.server) call.op) (raftIndex : ℤ) :
    Inv (s.replyPutAppend k call raftIndex ok) := by
  have hissued := (h.calls call (List.mem_of_getElem? hcall)).1
  have hmem : ok → call.op ∈ (s.servers call.server).applied :=
    fun hok' => h.mem_applied hissued hup (hok hok')
  rw [Service.replyPutAppend]
  have hset : Inv (s.setPhase k (.replied raftIndex
      ((s.servers call.server).reply (if ok then .ok else .errWrongLeader) []))) := by
    refine h.setPhase hcall ⟨fun _ _ ho => (by cases ho), fun _ hi => (by cases hi), fun reply hr => ?_⟩
    obtain rfl := Option.some.inj hr
    refine ⟨List.Subset.refl _, ?_⟩
    rw [Answers, if_pos hup]
    intro herr
    cases ok with
    | true => exact ⟨call.op, hmem rfl, rfl, rfl⟩
    | false => cases herr
  cases ok with
  | true => exact hset.answer ((h.replicas call.server).applied.subset (hmem rfl)) hup
  | false => exact hset

/-- The reply of a `Get` that finds that this is not the leader, or the look at the data. -/
lemma Inv.replyGet (h : Inv s) (hcall : s.calls[k]? = some call) (hget : ¬ call.op.IsUpdate)
    {ok : Bool} (hok : ok → Reached (s.servers call.server) call.op) (raftIndex : ℤ) :
    Inv (s.replyGet k call raftIndex ok) := by
  rw [Service.replyGet]
  split_ifs with hok'
  · refine h.setPhase hcall ⟨fun _ _ ho => (by cases ho), fun _ _ => ⟨hget, hok hok'⟩,
      fun _ hr => (by cases hr)⟩
  · refine h.setPhase hcall ⟨fun _ _ ho => (by cases ho), fun _ hi => (by cases hi), fun reply hr => ?_⟩
    obtain rfl := Option.some.inj hr
    refine ⟨List.Subset.refl _, ?_⟩
    rw [Answers, if_neg hget]
    exact fun herr => absurd rfl herr

/-- A handler looks at what it got, or for a duplicate. -/
lemma Inv.decide (h : Inv s) (hcall : s.calls[k]? = some call) (hdec : s.decide k call = some t) :
    Inv t := by
  obtain ⟨-, hpopped, -, -⟩ := h.calls call (List.mem_of_getElem? hcall)
  rw [Service.decide] at hdec
  split at hdec
  · rename_i raftIndex o hphase
    obtain rfl := Option.some.inj hdec
    have hreached :
        Decidable.decide (o.ClientId = call.op.ClientId ∧ o.RequestId = call.op.RequestId) →
        Reached (s.servers call.server) call.op := fun hsame =>
      ⟨o, hpopped raftIndex o hphase, (of_decide_eq_true hsame).1,
        Int.le_of_eq (of_decide_eq_true hsame).2.symm⟩
    split_ifs with hup
    · exact h.replyPutAppend hcall hup hreached _
    · exact h.replyGet hcall hup hreached _
  · rename_i raftIndex isLeader hphase
    obtain rfl := Option.some.inj hdec
    have hreached : (s.servers call.server).kv.ifRequestDuplicate call.op.ClientId
        call.op.RequestId = true → Reached (s.servers call.server) call.op := by
      intro hdup
      obtain ⟨l, hl, hle⟩ := KvServer.ifRequestDuplicate_iff.mp hdup
      obtain ⟨o, ho, hclient, hle'⟩ := (h.replicas call.server).last _ l hl
      exact ⟨o, ho, hclient, Int.le_trans hle hle'⟩
    split_ifs with hup
    · exact h.replyPutAppend hcall hup hreached _
    · exact h.replyGet hcall hup (fun hok => hreached (Bool.and_eq_true_iff.mp hok).1) _
  · cases hdec

/-- A `Get` looks at the data of a server that has recorded it. -/
lemma Inv.execute (h : Inv s) (hcall : s.calls[k]? = some call) {raftIndex : ℤ}
    (hphase : call.phase = .reading raftIndex) : Inv (s.execute k call raftIndex) := by
  obtain ⟨hissued, -, hreading, -⟩ := h.calls call (List.mem_of_getElem? hcall)
  obtain ⟨hget, hreached⟩ := hreading raftIndex hphase
  have hr := h.replicas call.server
  have hserver := h.setServer (hr.execute hreached) (List.Subset.refl _)
  refine hserver.setPhase hcall ⟨fun _ _ ho => (by cases ho), fun _ hi => (by cases hi),
    fun reply hreply => ?_⟩
  have hbefore : ∀ o ∈ call.before, o ∈ (s.servers call.server).executed := fun o ho =>
    hr.executed o (h.before_applied hissued hreached o ho) (h.before _ hissued o ho).2
  have hmap := congrFun hr.map call.op.Key
  obtain rfl := Option.some.inj hreply
  rw [KvServer.executeGetOpOnKVDB]
  simp only [Service.setServer, Function.update_self, Answers, if_neg hget]
  cases hvalue : (s.servers call.server).kv.skipList.search_element call.op.Key with
  | some value => exact ⟨List.Subset.refl _, fun _ => ⟨hbefore, hvalue.symm.trans hmap⟩⟩
  | none => exact ⟨List.Subset.refl _, fun _ => ⟨hbefore, hvalue.symm.trans hmap⟩⟩

/-! ### Clerks -/

/-- The handler of a call, by its record. -/
lemma handle_cases {f : ClerkCall → Option (Service κ)} (h : s.handle k f = some t) :
    ∃ call, s.calls[k]? = some call ∧ f call = some t :=
  Option.bind_eq_some_iff.mp h

variable [DecidableEq κ]

/-- A clerk with the id and the counter that it had. -/
lemma update_clerk {clerks : κ → Clerk} {c : Clerk} (hid : c.clientId = (clerks i).clientId) (j : κ) :
    (Function.update clerks i c j).clientId = (clerks j).clientId := by
  rw [Function.update_apply]
  split_ifs with hj
  · rw [hj, hid]
  · rfl

/-- A clerk whose counter stays leaves all counters. -/
lemma update_counter {clerks : κ → Clerk} {c : Clerk} (hid : c.requestId = (clerks i).requestId)
    (j : κ) : (Function.update clerks i c j).requestId = (clerks j).requestId := by
  rw [Function.update_apply]
  split_ifs with hj
  · rw [hj, hid]
  · rfl

/-- The request of a clerk is sent once more. -/
lemma Inv.send (h : Inv s) {before : List Op} (hissued : (op, before) ∈ s.issued)
    (hclient : op.ClientId = (s.clerks i).clientId)
    (hrequest : op.RequestId = (s.clerks i).requestId) (server : ℕ) :
    Inv (s.send i op before server) := by
  have hid : ∀ j, ((s.send i op before server).clerks j).clientId = (s.clerks j).clientId :=
    update_clerk rfl
  have hcounter : ∀ j, ((s.send i op before server).clerks j).requestId = (s.clerks j).requestId :=
    update_counter rfl
  refine { h with
    ids := fun a b hab => h.ids a b ((hid a).symm.trans (hab.trans (hid b)))
    owner := fun x hx => ?_, counted := fun x hx j hj => ?_, requests := fun j r hr => ?_
    calls := fun c hc => ?_, done := fun j x hx hup hj hnone => ?_ }
  · obtain ⟨j, hj⟩ := h.owner x hx
    exact ⟨j, hj.trans (hid j).symm⟩
  · rw [hcounter]
    exact h.counted x hx j (hj.trans (hid j))
  · rw [hid, hcounter]
    simp only [Service.send, Function.update_apply] at hr ⊢
    split_ifs at hr with hj
    · obtain rfl := hj
      obtain rfl := Option.some.inj hr
      exact ⟨hissued, hclient, hrequest, _, List.getElem?_concat_length .., rfl⟩
    · obtain ⟨hissued', hclient', hrequest', c, hc, hop⟩ := h.requests j r hr
      refine ⟨hissued', hclient', hrequest', c, ?_, hop⟩
      rw [List.getElem?_append_left (List.getElem?_eq_some_iff.mp hc).1]
      exact hc
  · obtain hc | hc := List.mem_append.mp hc
    · exact h.calls c hc
    · obtain rfl := List.mem_singleton.mp hc
      exact ⟨hissued, .sent ..⟩
  · rw [hid] at hj
    rw [hcounter] at hnone
    refine h.done j x hx hup hj fun heq => ?_
    have := hnone heq
    simp only [Service.send, Function.update_apply] at this
    split_ifs at this
    exact this

/-- The request of a clerk is answered. -/
lemma Inv.finish (h : Inv s)
    (hdone : ∀ x ∈ s.issued, x.1.IsUpdate → x.1.ClientId = (s.clerks i).clientId →
      x.1.RequestId = (s.clerks i).requestId → x.1 ∈ s.log) (recentLeaderId : ℕ) :
    Inv (s.finish i recentLeaderId) := by
  have hid : ∀ j, ((s.finish i recentLeaderId).clerks j).clientId = (s.clerks j).clientId :=
    update_clerk rfl
  have hcounter : ∀ j, ((s.finish i recentLeaderId).clerks j).requestId = (s.clerks j).requestId :=
    update_counter rfl
  refine { h with
    ids := fun a b hab => h.ids a b ((hid a).symm.trans (hab.trans (hid b)))
    owner := fun x hx => ?_, counted := fun x hx j hj => ?_, requests := fun j r hr => ?_
    done := fun j x hx hup hj hnone => ?_ }
  · obtain ⟨j, hj⟩ := h.owner x hx
    exact ⟨j, hj.trans (hid j).symm⟩
  · rw [hcounter]
    exact h.counted x hx j (hj.trans (hid j))
  · rw [hid, hcounter]
    simp only [Service.finish, Function.update_apply] at hr ⊢
    split_ifs at hr with hj
    · cases hr
    · exact h.requests j r hr
  · rw [hid] at hj
    rw [hcounter] at hnone
    by_cases heq : x.1.RequestId = (s.clerks j).requestId
    · by_cases hij : j = i
      · exact hdone x hx hup (hij ▸ hj) (hij ▸ heq)
      · refine h.done j x hx hup hj fun heq => ?_
        have := hnone heq
        simp only [Service.finish, Function.update_of_ne hij] at this
        exact this
    · exact h.done j x hx hup hj fun heq' => absurd heq' heq

/-- The command of a call has the id of its clerk. -/
lemma Ask.op_clientId (ask : Ask) (c : Bytes) (r : ℤ) : (ask.op c r).ClientId = c := by
  cases ask <;> rfl

/-- The command of a call has the number it was given. -/
lemma Ask.op_requestId (ask : Ask) (c : Bytes) (r : ℤ) : (ask.op c r).RequestId = r := by
  cases ask <;> rfl

/-- A clerk that waits for nothing sends a request with the next number. -/
lemma Inv.request (h : Inv s) {ask : Ask} (hreq : s.request i ask = some t) : Inv t := by
  rw [Service.request] at hreq
  split at hreq
  · cases hreq
  rename_i hnone
  generalize hop : ask.op (s.clerks i).clientId ((s.clerks i).requestId + 1) = op at hreq
  have hclient : op.ClientId = (s.clerks i).clientId := hop ▸ Ask.op_clientId ..
  have hnumber : op.RequestId = (s.clerks i).requestId + 1 := hop ▸ Ask.op_requestId ..
  -- nothing of the clerk has this number yet
  have hnew : ∀ x ∈ s.issued, x.1.ClientId = op.ClientId → x.1.RequestId < op.RequestId := by
    intro x hx hxc
    have := h.counted x hx i (hxc.trans hclient)
    omega
  obtain rfl := Option.some.inj hreq
  generalize ht : Service.send _ i op s.answered (s.clerks i).recentLeaderId = t
  have hissued : t.issued = s.issued ++ [(op, s.answered)] := ht ▸ rfl
  have hcalls : t.calls = s.calls ++ [{ server := (s.clerks i).recentLeaderId
                                        op, before := s.answered, phase := .sent }] := ht ▸ rfl
  have hlog : t.log = s.log := ht ▸ rfl
  have hother : ∀ j, j ≠ i → t.clerks j = s.clerks j := by
    intro j hj
    subst ht
    simp only [Service.send, Function.update_of_ne hj]
  have hself : t.clerks i = { s.clerks i with
      requestId := (s.clerks i).requestId + 1
      request := some { op, before := s.answered, server := (s.clerks i).recentLeaderId
                        call := s.calls.length } } := by
    subst ht
    simp only [Service.send, Function.update_self]
  have hid : ∀ j, (t.clerks j).clientId = (s.clerks j).clientId := by
    intro j
    by_cases hj : j = i
    · rw [hj, hself]
    · rw [hother j hj]
  have hle : ∀ j, (s.clerks j).requestId ≤ (t.clerks j).requestId := by
    intro j
    by_cases hj : j = i
    · rw [hj, hself]
      exact Int.le.intro 1 rfl
    · rw [hother j hj]
  have hold : ∀ x ∈ s.issued, x ∈ t.issued := fun x hx => hissued ▸ List.mem_append_left _ hx
  have hcases : ∀ x ∈ t.issued, x ∈ s.issued ∨ x = (op, s.answered) := by
    intro x hx
    rw [hissued] at hx
    obtain hx | hx := List.mem_append.mp hx
    · exact .inl hx
    · exact .inr (List.mem_singleton.mp hx)
  refine
    { ids := fun a b hab => h.ids a b ((hid a).symm.trans (hab.trans (hid b)))
      owner := ?_, counted := ?_, unique := ?_, requests := ?_, calls := ?_, started := ?_
      committed := ?_, answered := ?_, before := ?_, done := ?_, ordered := ?_, replicas := ?_ }
  · intro x hx
    obtain hx | rfl := hcases x hx
    · obtain ⟨j, hj⟩ := h.owner x hx
      exact ⟨j, hj.trans (hid j).symm⟩
    · exact ⟨i, hclient.trans (hid i).symm⟩
  · intro x hx j hj
    rw [hid] at hj
    obtain hx | rfl := hcases x hx
    · exact Int.le_trans (h.counted x hx j hj) (hle j)
    · obtain rfl := h.ids i j (hclient.symm.trans hj)
      rw [hself]
      exact Int.le_of_eq hnumber
  · intro x hx y hy hc hr
    obtain hx | rfl := hcases x hx <;> obtain hy | rfl := hcases y hy
    · exact h.unique x hx y hy hc hr
    · exact absurd hr (Int.ne_of_lt (hnew x hx hc))
    · exact absurd hr.symm (Int.ne_of_lt (hnew y hy hc.symm))
    · rfl
  · intro j r hr
    by_cases hj : j = i
    · rw [hj, hself] at hr ⊢
      obtain rfl := Option.some.inj hr
      refine ⟨?_, hclient, hnumber, _, hcalls ▸ List.getElem?_concat_length .., rfl⟩
      rw [hissued]
      exact List.mem_append_right _ List.mem_cons_self
    · rw [hother j hj] at hr ⊢
      obtain ⟨hissued', hclient', hrequest', c, hc, hop⟩ := h.requests j r hr
      refine ⟨hold _ hissued', hclient', hrequest', c, ?_, hop⟩
      rw [hcalls, List.getElem?_append_left (List.getElem?_eq_some_iff.mp hc).1]
      exact hc
  · intro c hc
    rw [hcalls] at hc
    obtain hc | hc := List.mem_append.mp hc
    · exact ⟨hold _ (h.calls c hc).1, ht ▸ (h.calls c hc).2⟩
    · obtain rfl := List.mem_singleton.mp hc
      refine ⟨?_, .sent ..⟩
      rw [hissued]
      exact List.mem_append_right _ List.mem_cons_self
  · intro o ho
    obtain ⟨before, hb⟩ := h.started o (by rwa [← ht] at ho)
    exact ⟨before, hold _ hb⟩
  · intro o ho
    obtain ⟨before, hb⟩ := h.committed o (hlog ▸ ho)
    exact ⟨before, hold _ hb⟩
  · intro o ho
    rw [hlog]
    exact h.answered o (by rwa [← ht] at ho)
  · intro x hx o ho
    rw [hlog]
    obtain hx | rfl := hcases x hx
    · exact h.before x hx o ho
    · exact h.answered o ho
  · intro j x hx hup hj hnone
    rw [hlog]
    rw [hid] at hj
    obtain hx | rfl := hcases x hx
    · refine h.done j x hx hup hj fun heq => ?_
      by_cases hji : j = i
      · rw [hji]
        assumption
      · rw [hother j hji] at hnone
        exact hnone heq
    · obtain rfl := h.ids i j (hclient.symm.trans hj)
      rw [hself] at hnone
      cases hnone hnumber
  · intro x hx pre o hpre hc
    rw [hlog] at hpre
    obtain hx | rfl := hcases x hx
    · exact h.ordered x hx pre o hpre hc
    · -- the log has nothing of the clerk with a number that is as high
      obtain ⟨before, hb⟩ := h.committed o (hpre.subset (List.mem_append_right _ List.mem_cons_self))
      have hlt := hnew _ hb hc
      exact ⟨fun _ hlt' => absurd hlt' (Int.not_lt.mpr (Int.le_of_lt hlt)),
        fun hle' => absurd hlt (Int.not_lt.mpr hle')⟩
  · intro j
    rw [hlog, ← ht]
    exact h.replicas j

/-- A clerk gets a reply. -/
lemma Inv.receive (h : Inv s) {r : ClerkRequest} {reply : ClerkReply} (hr : r ∈ (s.clerks i).request)
    (hcall : s.calls[r.call]? = some call) (hphase : call.phase = .returned reply) :
    Inv (s.receive i r reply) := by
  obtain ⟨hissued, hclient, hnumber, c, hc, hop⟩ := h.requests i r hr
  obtain rfl := Option.some.inj (hcall.symm.trans hc)
  obtain ⟨-, -, -, hreply⟩ := h.calls call (List.mem_of_getElem? hcall)
  obtain ⟨hsub, hanswers⟩ := hreply reply (by rw [hphase]; rfl)
  have hsame : ∀ x ∈ s.issued, x.1.ClientId = (s.clerks i).clientId →
      x.1.RequestId = (s.clerks i).requestId → x.1 = r.op := fun x hx hxc hxn =>
    congrArg Prod.fst (h.unique x hx _ hissued (hxc.trans hclient.symm) (hxn.trans hnumber.symm))
  rw [Service.receive]
  split
  · exact h.send hissued hclient hnumber _
  · split_ifs with hup
    · exact h.send hissued hclient hnumber _
    · refine h.finish (fun x hx hxup hxc hxn => ?_) _
      exact absurd (hsame x hx hxc hxn ▸ hxup) hup
  · rename_i hok
    refine h.finish (fun x hx hxup hxc hxn => ?_) _
    have hxr := hsame x hx hxc hxn
    rw [Answers, hop, if_pos (hxr ▸ hxup)] at hanswers
    obtain ⟨o, ho, hoc, hon⟩ := hanswers hok
    have hlog := (h.replicas call.server).applied.subset (hsub ho)
    rw [← hxr] at hoc hon
    exact h.same hx hlog hoc hon ▸ hlog

/-- A refusal answers any call. -/
lemma answers_errWrongLeader {call : ClerkCall} {reply : ClerkReply} (herr : reply.err = .errWrongLeader) :
    Answers call reply := by
  rw [Answers]
  split
  · exact fun hok => (by cases herr.symm.trans hok)
  · exact fun hne => absurd herr hne

/-- Registering a queue applies nothing. -/
lemma applied_register (r : Replica) (index : ℤ) : (r.register index).applied = r.applied := by
  rw [Replica.register]
  split <;> rfl

/-- Every step keeps the invariant. -/
theorem Inv.step {A : Archives} {e : Event κ} (h : Inv s) (hstep : s.step A e = some t) : Inv t := by
  cases e with
  | request i ask => exact h.request hstep
  | fail i =>
    obtain ⟨r, hr, rfl⟩ := Option.map_eq_some_iff.mp hstep
    obtain ⟨hissued, hclient, hnumber, -⟩ := h.requests i r hr
    exact h.send hissued hclient hnumber _
  | receive i =>
    obtain ⟨r, hr, hstep⟩ := Option.bind_eq_some_iff.mp hstep
    obtain ⟨call, hcall, hstep⟩ := handle_cases hstep
    split at hstep
    · rename_i reply hphase
      obtain rfl := Option.some.inj hstep
      exact h.receive hr hcall hphase
    · cases hstep
  | start k isLeader raftIndex =>
    obtain ⟨call, hcall, hstep⟩ := handle_cases hstep
    split at hstep
    · obtain rfl := Option.some.inj hstep
      split_ifs
      · have hcalls := h.start (List.mem_of_getElem? hcall)
        exact hcalls.setPhase hcall (.plain (fun _ _ => nofun) (fun _ => nofun) rfl)
      · refine h.setPhase hcall ⟨fun _ _ ho => (by cases ho), fun _ hi => (by cases hi),
          fun reply hreply => ?_⟩
        obtain rfl := Option.some.inj hreply
        exact ⟨List.Subset.refl _, answers_errWrongLeader rfl⟩
    · cases hstep
  | register k =>
    obtain ⟨call, hcall, hstep⟩ := handle_cases hstep
    split at hstep
    · rename_i raftIndex hphase
      obtain rfl := Option.some.inj hstep
      have hr := (h.replicas call.server).register raftIndex
      have hsub : (s.servers call.server).applied ⊆
          ((s.servers call.server).register raftIndex).applied := by
        rw [applied_register]
        exact List.Subset.refl _
      have hserver := h.setServer hr hsub
      exact hserver.setPhase hcall (.plain (fun _ _ => nofun) (fun _ => nofun) rfl)
    · cases hstep
  | pop k =>
    obtain ⟨call, hcall, hstep⟩ := handle_cases hstep
    split at hstep
    · rename_i raftIndex hphase
      obtain ⟨⟨r, op⟩, hpop, rfl⟩ := Option.map_eq_some_iff.mp hstep
      obtain ⟨hr, happlied, hop⟩ := (h.replicas call.server).pop hpop
      have hsub : (s.servers call.server).applied ⊆ r.applied := by
        rw [happlied]
        exact List.Subset.refl _
      have hserver := h.setServer hr hsub
      refine hserver.setPhase hcall ⟨fun index o ho => ?_, fun _ hi => (by cases hi),
        fun _ hr => (by cases hr)⟩
      obtain ⟨-, rfl⟩ := CallPhase.popped.inj ho
      simp only [Service.setServer, Function.update_self, happlied]
      exact hop
    · cases hstep
  | timeOut k isLeader =>
    obtain ⟨call, hcall, hstep⟩ := handle_cases hstep
    split at hstep
    · obtain rfl := Option.some.inj hstep
      exact h.setPhase hcall (.plain (fun _ _ => nofun) (fun _ => nofun) rfl)
    · cases hstep
  | decide k =>
    obtain ⟨call, hcall, hstep⟩ := handle_cases hstep
    exact h.decide hcall hstep
  | execute k =>
    obtain ⟨call, hcall, hstep⟩ := handle_cases hstep
    split at hstep
    · rename_i raftIndex hphase
      obtain rfl := Option.some.inj hstep
      exact h.execute hcall hphase
    · cases hstep
  | erase k =>
    obtain ⟨call, hcall, hstep⟩ := handle_cases hstep
    split at hstep
    · rename_i raftIndex reply hphase
      obtain rfl := Option.some.inj hstep
      have hserver := h.setServer ((h.replicas call.server).erase raftIndex) (List.Subset.refl _)
      refine hserver.setPhase hcall ⟨fun _ _ ho => (by cases ho), fun _ hi => (by cases hi),
        fun reply' hreply => ?_⟩
      obtain rfl := Option.some.inj hreply
      obtain ⟨-, -, -, hinv⟩ := h.calls call (List.mem_of_getElem? hcall)
      simp only [Service.setServer, Function.update_self]
      exact hinv reply (by rw [hphase]; rfl)
    · cases hstep
  | commit op =>
    obtain ⟨hop, hstep⟩ := Option.ite_none_right_eq_some.mp hstep
    obtain rfl := Option.some.inj hstep
    exact h.commit hop
  | apply server rand raftStateSize =>
    obtain ⟨r, hr, rfl⟩ := Option.map_eq_some_iff.mp hstep
    obtain ⟨hinv, hsub⟩ := (h.replicas server).apply hr fun op hop hup hreached => by
      have hlog : op ∈ s.log := hop.subset (List.mem_append_right _ List.mem_cons_self)
      obtain ⟨before, hbefore⟩ := h.committed op hlog
      exact h.mem_applied hbefore hup hreached
    exact h.setServer hinv hsub

omit [DecidableEq κ] in
/-- The invariant holds at the start. -/
lemma Inv.initial (size : ℕ) (maxraftstate : ℕ → ℤ) {rands : κ → ℕ → ℕ}
    (hids : Function.Injective fun i => uuid (rands i)) : Inv (initial size maxraftstate rands) where
  ids _ _ hij := hids hij
  owner _ hx := by cases hx
  counted _ hx := by cases hx
  unique _ hx := by cases hx
  requests _ _ hr := by cases hr
  calls _ hc := by cases hc
  started _ ho := by cases ho
  committed _ ho := by cases ho
  answered _ ho := by cases ho
  before _ hx := by cases hx
  done _ _ hx := by cases hx
  ordered _ hx := by cases hx
  replicas i :=
    { snapshot := rfl
      applied := List.nil_prefix
      last := fun _ _ hl => by cases hl
      executed := fun _ ho => by cases ho
      map := congrArg KvState.map (KvServer.view_create (maxraftstate i))
      channels := fun _ _ hq => by cases hq }

/-- As long as no two clerks have the same id, what the servers reply is so. -/
theorem replies_answer (A : Archives) (size : ℕ) (maxraftstate : ℕ → ℤ) (rands : κ → ℕ → ℕ)
    (hids : Function.Injective fun i => uuid (rands i)) {s : Service κ}
    (hrun : Run (step A) (fun _ _ => True) (initial size maxraftstate rands) s) :
    ∀ call ∈ s.calls, ∀ reply ∈ call.phase.reply, Answers call reply := by
  have hinv : Inv s := hrun.invariant (fun _ _ _ h _ hstep => h.step hstep)
    (.initial size maxraftstate hids)
  intro call hcall reply hreply
  obtain ⟨-, -, -, hanswers⟩ := hinv.calls call hcall
  exact (hanswers reply hreply).2

/-- A request of a clerk that is carried out at server `0` while nothing else happens. -/
def carried (i : Fin 2) (ask : Ask) (op : Op) (k : ℕ) : List (Event (Fin 2)) :=
  [.request i ask, .start k true (k + 1), .register k, .commit op, .apply 0 0 0, .pop k, .decide k]

/-- The handler of a call returns. -/
def returned (i : Fin 2) (k : ℕ) : List (Event (Fin 2)) := [.erase k, .receive i]

/-- A `Put` of each of two clerks, and a `Get`. -/
def twoPuts (client client' : Bytes) : List (Event (Fin 2)) :=
  carried 0 (.put [1] [5]) ((Ask.put [1] [5]).op client 1) 0 ++ returned 0 0 ++
    carried 1 (.put [1] [6]) ((Ask.put [1] [6]).op client' 1) 1 ++ returned 1 1 ++
    carried 0 (.get [1]) ((Ask.get [1]).op client 2) 2 ++ [.execute 2]

/-- Two clerks with ids of their own: the `Get` sees the second `Put`. -/
theorem replies_answer_puts :
    ∃ s : Service (Fin 2), (s.calls[2]?.bind (·.phase.reply)).map (·.value) = some [6] ∧
      ∀ call ∈ s.calls, ∀ reply ∈ call.phase.reply, Answers call reply := by
  have hruns : ∃ s ∈ runIf (step textArchives) (fun _ _ => True)
      (initial 1 (fun _ => -1) fun i _ => i.val) (twoPuts (uuid fun _ => 0) (uuid fun _ => 1)),
      (s.calls[2]?.bind (·.phase.reply)).map (·.value) = some [6] := by decide
  obtain ⟨s, hrun, hvalue⟩ := exists_run_of_runIf hruns
  have hids : ∀ i j : Fin 2, (uuid fun _ => i.val) = (uuid fun _ => j.val) → i = j := by decide
  exact ⟨s, hvalue, replies_answer textArchives 1 (fun _ => -1) (fun i _ => i.val)
    (fun i j => hids i j) hrun⟩

/-- Two clerks to whom `rand` gives the same: the second `Put` is taken for the first one. -/
theorem exists_unseen_put :
    ∃ s : Service (Fin 2),
      Run (step textArchives) (fun _ _ => True) (initial 1 (fun _ => -1) fun _ k => k) s ∧
      ∃ call ∈ s.calls, ∃ reply ∈ call.phase.reply, ¬ Answers call reply := by
  have hruns : ∃ s ∈ runIf (step textArchives) (fun _ _ => True)
      (initial 1 (fun _ => -1) fun _ k => k) (twoPuts (uuid id) (uuid id)),
      ∃ call ∈ s.calls, ∃ reply ∈ call.phase.reply, ¬ call.op.IsUpdate ∧ reply.err = .ok ∧
        ∃ op ∈ call.before, op ∉ reply.executed := by decide
  obtain ⟨s, hrun, call, hcall, reply, hreply, hget, hok, op, hop, hunseen⟩ :=
    exists_run_of_runIf hruns
  refine ⟨s, hrun, call, hcall, reply, hreply, fun hanswers => ?_⟩
  rw [Answers, if_neg hget, hok] at hanswers
  exact hunseen ((hanswers nofun).1 op hop)

end Service

end KVCacheRaft
