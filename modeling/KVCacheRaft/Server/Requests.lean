import KVCacheRaft.Server.Replicas

/-!
# Requests and what they do

What clients mean by their requests: the first copy of each is performed, `Put` replaces the value of
its key, and `Append` adds to it. A server performs the first copies too, but its `Append` replaces
what is there; so it holds what the clients mean when no key is left with an `Append` to something.
-/

namespace KVCacheRaft

/-! ### Performing requests -/

/-- A `Put` under a key. -/
def Op.Puts (op : Op) (key : Bytes) : Prop := op.Operation = opPut ∧ op.Key = key

/-- `Put` replaces the value, `Append` adds to the present one or to the empty string. -/
def perform (map : Bytes → Option Bytes) (op : Op) : Bytes → Option Bytes :=
  if op.Operation = opPut then Function.update map op.Key (some op.Value)
  else if op.Operation = opAppend then
    Function.update map op.Key (some ((map op.Key).getD [] ++ op.Value))
  else map

/-- Both replace the value. -/
def replace (map : Bytes → Option Bytes) (op : Op) : Bytes → Option Bytes :=
  Function.update map op.Key (some op.Value)

/-- The requests that are no copies of a request of `seen` or of one before them. -/
def firstsFrom (seen : List Op) : List Op → List Op
  | [] => []
  | op :: ops =>
    if ∃ y ∈ seen, y.ClientId = op.ClientId ∧ y.RequestId = op.RequestId then firstsFrom seen ops
    else op :: firstsFrom (seen ++ [op]) ops

/-- The first copy of each request. -/
def firsts (ops : List Op) : List Op := firstsFrom [] ops

/-- The requests of a client increase. -/
def Increasing (ops : List Op) : Prop :=
  ops.Pairwise fun x y => x.ClientId = y.ClientId → x.RequestId < y.RequestId

/-- What is written under a key since the last `Put` is empty. -/
def Blank (key : Bytes) : List Op → Prop
  | [] => True
  | op :: ops => (op.Key = key → op.Value = [] ∨ ∃ p ∈ ops, p.Puts key) ∧ Blank key ops

/-- An `Append` that is the last request on its key finds nothing, or the empty string. -/
def LastsReplace (ops : List Op) : Prop :=
  ∀ pre op post, ops = pre ++ op :: post → op.Operation = opAppend →
    (∀ w ∈ post, w.Key ≠ op.Key) → Blank op.Key pre

instance (ops : List Op) : Decidable (Increasing ops) := by unfold Increasing; infer_instance

variable {map : Bytes → Option Bytes} {op : Op} {ops : List Op} {key : Bytes}

/-- A command leaves the other keys. -/
lemma perform_ne (h : op.Key ≠ key) : perform map op key = map key := by
  rw [perform]
  split_ifs
  · exact Function.update_of_ne h.symm _ _
  · exact Function.update_of_ne h.symm _ _
  · rfl

/-- A `Put` sets its key. -/
lemma perform_put (h : op.Puts key) : perform map op key = some op.Value := by
  obtain ⟨hop, rfl⟩ := h
  rw [perform, if_pos hop, Function.update_self]

/-- An `Append` appends to the value of its key. -/
lemma perform_append (h : op.Operation = opAppend) (hk : op.Key = key) :
    perform map op key = some ((map key).getD [] ++ op.Value) := by
  have hne : op.Operation ≠ opPut := h ▸ by decide
  subst hk
  rw [perform, if_neg hne, if_pos h, Function.update_self]

/-- The text under a key, after some updates, is empty when what is written since the last `Put` is,
and what was there before is, or is replaced. -/
lemma text_eq_nil (h : ∀ op ∈ ops, op.IsUpdate) :
    ((ops.foldl perform map) key).getD [] = [] ↔
      Blank key ops ∧ ((map key).getD [] = [] ∨ ∃ p ∈ ops, p.Puts key) := by
  induction ops generalizing map with
  | nil => simp [Blank]
  | cons op ops ih =>
    have hops : ∀ o ∈ ops, o.IsUpdate := fun o ho => h o (List.mem_cons_of_mem _ ho)
    rw [List.foldl_cons, ih hops, Blank]
    by_cases hk : op.Key = key
    · cases h op List.mem_cons_self with
      | inl hput =>
        rw [perform_put ⟨hput, hk⟩]
        simp [hk, Op.Puts, hput]
        tauto
      | inr happ =>
        have hne : op.Operation ≠ opPut := happ ▸ by decide
        rw [perform_append happ hk]
        simp [hk, Op.Puts, hne]
        tauto
    · rw [perform_ne hk]
      simp [hk, Op.Puts]

/-- A command that replaces leaves the other keys. -/
lemma replace_ne (h : op.Key ≠ key) : replace map op key = map key :=
  Function.update_of_ne h.symm _ _

/-- The last request on a key makes the difference: a `Put` or the first value is the same for both. -/
lemma replace_eq_perform_at (h : ∀ op ∈ ops, op.IsUpdate) (key : Bytes) :
    (ops.foldl replace fun _ => none) key = (ops.foldl perform fun _ => none) key ↔
      ∀ pre op post, ops = pre ++ op :: post → op.Key = key → op.Operation = opAppend →
        (∀ w ∈ post, w.Key ≠ key) → Blank key pre := by
  induction ops using List.reverseRecOn with
  | nil => simp
  | append_singleton ops op ih =>
    have hops : ∀ o ∈ ops, o.IsUpdate := fun o ho => h o (List.mem_append_left _ ho)
    rw [List.foldl_concat, List.foldl_concat]
    by_cases hk : op.Key = key
    · -- there is no other place than the end
      have hend : ∀ pre o post, ops ++ [op] = pre ++ o :: post → (∀ w ∈ post, w.Key ≠ key) →
          pre = ops ∧ o = op := by
        intro pre o post heq hpost
        cases post using List.reverseRecOn with
        | nil =>
          obtain ⟨hpre, ho⟩ := List.append_inj' heq rfl
          exact ⟨hpre.symm, (List.cons.inj ho).1.symm⟩
        | append_singleton post w =>
          rw [← List.cons_append, ← List.append_assoc] at heq
          have hw : op = w := (List.cons.inj (List.append_inj' heq rfl).2).1
          exact absurd hk (hw ▸ hpost w (by simp))
      have hrep : replace (ops.foldl replace fun _ => none) op key = some op.Value := by
        rw [← hk, replace, Function.update_self]
      rw [hrep]
      cases h op (by simp) with
      | inl hput =>
        rw [perform_put ⟨hput, hk⟩]
        refine iff_of_true rfl fun pre o post heq _ happ hpost => ?_
        obtain ⟨-, rfl⟩ := hend pre o post heq hpost
        exact absurd (hput.symm.trans happ) (by decide)
      | inr happ =>
        have htext : ((ops.foldl perform fun _ => none) key).getD [] = [] ↔ _ := text_eq_nil hops
        rw [perform_append happ hk, Option.some_inj, List.self_eq_append_left, htext]
        constructor
        · rintro ⟨hblank, -⟩ pre o post heq - - hpost
          obtain ⟨rfl, rfl⟩ := hend pre o post heq hpost
          exact hblank
        · intro hall
          exact ⟨hall ops op [] rfl hk happ (by simp), .inl rfl⟩
    · rw [replace_ne hk, perform_ne hk, ih hops]
      constructor
      · intro hall pre o post heq ho happ hpost
        cases post using List.reverseRecOn with
        | nil =>
          obtain ⟨-, heq'⟩ := List.append_inj' heq rfl
          exact absurd ho ((List.cons.inj heq').1 ▸ hk)
        | append_singleton post w =>
          rw [← List.cons_append, ← List.append_assoc] at heq
          exact hall pre o post (List.append_inj' heq rfl).1 ho happ fun x hx =>
            hpost x (List.mem_append_left _ hx)
      · intro hall pre o post heq ho happ hpost
        refine hall pre o (post ++ [op]) (by simp [heq]) ho happ fun x hx => ?_
        cases List.mem_append.mp hx with
        | inl hmem => exact hpost x hmem
        | inr hmem => exact List.mem_singleton.mp hmem ▸ hk

/-- Replacing does what is meant as long as no key is left with an `Append` to something. -/
lemma replace_eq_perform_iff (h : ∀ op ∈ ops, op.IsUpdate) :
    (ops.foldl replace fun _ => none) = (ops.foldl perform fun _ => none) ↔ LastsReplace ops := by
  rw [funext_iff]
  constructor
  · intro hall pre op post heq happ hpost
    exact (replace_eq_perform_at h op.Key).mp (hall op.Key) pre op post heq rfl happ hpost
  · intro hlast key
    apply (replace_eq_perform_at h key).mpr
    rintro pre op post heq rfl happ hpost
    exact hlast pre op post heq happ hpost

/-! ### Copies -/

/-- The first copies are among the commands. -/
lemma firstsFrom_subset {seen : List Op} : firstsFrom seen ops ⊆ ops := by
  induction ops generalizing seen with
  | nil => exact List.Subset.refl _
  | cons op ops ih =>
    rw [firstsFrom]
    split_ifs
    · exact List.subset_cons_of_subset _ ih
    · exact List.cons_subset_cons _ ih

/-- The table holds a request of each client of `seen` that is as late as all of them. -/
structure Records (table : Bytes → Option ℤ) (seen : List Op) : Prop where
  covers : ∀ y ∈ seen, ∃ r ∈ table y.ClientId, y.RequestId ≤ r
  source : ∀ c, ∀ r ∈ table c, ∃ y ∈ seen, y.ClientId = c ∧ y.RequestId = r

/-- With increasing requests a server skips the copies and nothing else. -/
lemma foldl_exec {σ : KvState} {seen : List Op} (h : ∀ op ∈ ops, op.IsUpdate)
    (hinc : Increasing (seen ++ firstsFrom seen ops)) (hrec : Records σ.table seen) :
    (ops.foldl KvState.exec σ).map = (firstsFrom seen ops).foldl replace σ.map := by
  induction ops generalizing σ seen with
  | nil => rfl
  | cons op ops ih =>
    have hops : ∀ o ∈ ops, o.IsUpdate := fun o ho => h o (List.mem_cons_of_mem _ ho)
    rw [List.foldl_cons]
    rw [firstsFrom] at hinc ⊢
    by_cases hseen : ∃ y ∈ seen, y.ClientId = op.ClientId ∧ y.RequestId = op.RequestId
    · rw [if_pos hseen] at hinc ⊢
      obtain ⟨y, hy, hc, hid⟩ := hseen
      have hskip : σ.exec op = σ := by
        obtain ⟨r, hr, hle⟩ := hrec.covers y hy
        apply if_neg
        rintro ⟨-, hall⟩
        have := hall r (hc ▸ hr)
        omega
      rw [hskip]
      exact ih hops hinc hrec
    · rw [if_neg hseen] at hinc ⊢
      have hlt : ∀ y ∈ seen, y.ClientId = op.ClientId → y.RequestId < op.RequestId := fun y hy =>
        (List.pairwise_append.mp hinc).2.2 y hy op List.mem_cons_self
      have hexec : σ.exec op = { map := replace σ.map op
                                 table := Function.update σ.table op.ClientId (some op.RequestId) } := by
        apply if_pos
        refine ⟨h op List.mem_cons_self, fun r hr => ?_⟩
        obtain ⟨y, hy, hc, rfl⟩ := hrec.source _ r hr
        exact hlt y hy hc
      rw [hexec, List.foldl_cons]
      refine ih hops (by simpa using hinc) ⟨fun y hy => ?_, fun c r hr => ?_⟩
      · by_cases hc : y.ClientId = op.ClientId
        · refine ⟨op.RequestId, by simp [hc], ?_⟩
          cases List.mem_append.mp hy with
          | inl hmem => exact (hlt y hmem hc).le
          | inr hmem => exact (List.mem_singleton.mp hmem ▸ le_rfl)
        · simp only [Function.update_of_ne hc]
          cases List.mem_append.mp hy with
          | inl hmem => exact hrec.covers y hmem
          | inr hmem => exact absurd (List.mem_singleton.mp hmem ▸ rfl) hc
      · by_cases hc : c = op.ClientId
        · subst hc
          obtain rfl : op.RequestId = r := by simpa using hr
          exact ⟨op, by simp, rfl, rfl⟩
        · simp only [Function.update_of_ne hc] at hr
          obtain ⟨y, hy, hyc⟩ := hrec.source c r hr
          exact ⟨y, List.mem_append_left _ hy, hyc⟩

/-! ### A server that consumes requests -/

namespace KvServer

/-- The commands behind index `i`, with what the server reads elsewhere at each of them. -/
def committedFrom (rand : ℕ → ℕ) (raftStateSize : ℕ → ℤ) : ℕ → List Op → List Event
  | _, [] => []
  | i, op :: ops =>
    .command (i + 1) op (rand i) (raftStateSize i) :: committedFrom rand raftStateSize (i + 1) ops

variable {A : Archives} {s : KvServer} {rand : ℕ → ℕ} {raftStateSize : ℕ → ℤ}

/-- Without a snapshot a server does what each command says. -/
lemma run_committedFrom (A : Archives) (hs : s.lastSnapShotRaftLogIndex = 0) (i : ℕ) (ops : List Op) :
    ∃ t, s.run A (committedFrom rand raftStateSize i ops) = some t ∧
      t.view = ops.foldl KvState.exec s.view := by
  induction ops generalizing s i with
  | nil => exact ⟨s, rfl, rfl⟩
  | cons op ops ih =>
    have hidx : ¬ ((i : ℤ) + 1 ≤ s.lastSnapShotRaftLogIndex) := by omega
    obtain ⟨hview, hsnap⟩ :=
      sendMessageToWaitChan_same (s.executeCommand (rand i) op) op ((i : ℤ) + 1)
    rw [view_executeCommand] at hview
    have hstep : s.step A (.command (i + 1) op (rand i) (raftStateSize i)) =
        some ((s.executeCommand (rand i) op).sendMessageToWaitChan op (i + 1)) := by
      rw [step, getCommandFromRaft, A.op.load_save]
      simp [hidx]
    have hs' := hsnap.trans ((executeCommand_snapshotIndex s (rand i) op).trans hs)
    obtain ⟨t, hrun, ht⟩ := ih hs' (i + 1)
    refine ⟨t, ?_, ?_⟩
    · rw [committedFrom, run, hstep]
      exact hrun
    · rw [ht, hview, List.foldl_cons]

/-- From the empty state the committed requests leave what they mean if and only if no key is left
with an `Append` to a value that is not empty. -/
theorem run_committed_iff (A : Archives) (maxraftstate : ℤ) (rand : ℕ → ℕ) (raftStateSize : ℕ → ℤ)
    {ops : List Op} (hup : ∀ op ∈ ops, op.IsUpdate) (hinc : Increasing (firsts ops)) :
    ∃ t, (create maxraftstate).run A (committedFrom rand raftStateSize 0 ops) = some t ∧
      (t.skipList.search_element = ((firsts ops).foldl perform fun _ => none) ↔
        LastsReplace (firsts ops)) := by
  have hsnap : (create maxraftstate).lastSnapShotRaftLogIndex = 0 := rfl
  obtain ⟨t, hrun, hview⟩ := run_committedFrom A hsnap 0 ops
  have hrec : Records (create maxraftstate).view.table [] := by
    rw [view_create]
    exact ⟨by simp, by simp [KvState.empty]⟩
  have hinc' : Increasing ([] ++ firstsFrom [] ops) := hinc
  have hmap := foldl_exec hup hinc' hrec
  rw [← hview, view_create] at hmap
  have hfirsts : ∀ op ∈ firsts ops, op.IsUpdate := fun op hop => hup op (firstsFrom_subset hop)
  refine ⟨t, hrun, ?_⟩
  rw [← replace_eq_perform_iff hfirsts]
  exact Eq.congr_left hmap

/-- A key gets a value, a copy of the request, and a second key something added to nothing. -/
def requests : List Op :=
  [{ Operation := opPut, Key := [1], Value := [5], ClientId := [7], RequestId := 1 },
    { Operation := opAppend, Key := [2], Value := [6], ClientId := [8], RequestId := 1 },
    { Operation := opPut, Key := [1], Value := [5], ClientId := [7], RequestId := 1 }]

theorem run_committed_requests :
    ∃ t, (create 10).run textArchives (committedFrom id (fun _ => 0) 0 requests) = some t ∧
      (t.skipList.search_element = ((firsts requests).foldl perform fun _ => none) ↔
        LastsReplace (firsts requests)) :=
  run_committed_iff textArchives 10 id (fun _ => 0) (by decide) (by decide)

/-- A `Put` of `[5]` and an `Append` of `[6]` to it. -/
def appended : List Op :=
  [{ Operation := opPut, Key := [1], Value := [5], ClientId := [7], RequestId := 1 },
    { Operation := opAppend, Key := [1], Value := [6], ClientId := [7], RequestId := 2 }]

/-- The `Append` replaces the value. -/
theorem not_run_appended :
    (∀ op ∈ appended, op.IsUpdate) ∧ Increasing (firsts appended) ∧
      ¬ ∃ t, (create (-1)).run textArchives (committedFrom id (fun _ => 0) 0 appended) = some t ∧
        t.skipList.search_element = (firsts appended).foldl perform fun _ => none := by
  refine ⟨by decide, by decide, ?_⟩
  rintro ⟨t, hrun, hmap⟩
  have hvalue : ∀ t ∈ (create (-1)).run textArchives (committedFrom id (fun _ => 0) 0 appended),
      t.skipList.search_element [1] = some [6] := by decide
  have hmeant : ((firsts appended).foldl perform fun _ => none) [1] = some [5, 6] := by decide
  have := congrFun hmap [1]
  rw [hvalue t hrun, hmeant] at this
  exact absurd this (by decide)

end KvServer

end KVCacheRaft
