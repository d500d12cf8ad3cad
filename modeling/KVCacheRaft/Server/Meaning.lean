import KVCacheRaft.Server.KvServer

/-!
# What commands mean

The data a server replicates is a map from keys to values and the last request of each client.
`KvState.exec` says what one operation does to it, and a server that executes a command does just
that to what it holds (`view_executeCommand`), whatever the shape of its skip list.
-/

namespace KVCacheRaft

/-- A `Put` or `Append`. -/
def Op.IsUpdate (op : Op) : Prop := op.Operation = opPut ∨ op.Operation = opAppend

instance (op : Op) : Decidable op.IsUpdate := inferInstanceAs (Decidable (_ ∨ _))

/-- The data of a server, as functions. -/
@[ext] structure KvState where
  map : Bytes → Option Bytes
  table : Bytes → Option ℤ

/-- No data. -/
def KvState.empty : KvState := ⟨fun _ => none, fun _ => none⟩

/-- A duplicate, and what is no update, does nothing. -/
def KvState.exec (σ : KvState) (op : Op) : KvState :=
  if op.IsUpdate ∧ ∀ r ∈ σ.table op.ClientId, r < op.RequestId then
    { map := Function.update σ.map op.Key (some op.Value)
      table := Function.update σ.table op.ClientId (some op.RequestId) }
  else σ

namespace KvServer

variable {s : KvServer} {op : Op}

/-- `m_last_RequestId` of a client. -/
def last (s : KvServer) (client : Bytes) : Option ℤ := s.last_RequestId.lookup client

/-- The data of a server. -/
def view (s : KvServer) : KvState := ⟨s.skipList.search_element, s.last⟩

/-- An empty server has the empty state. -/
lemma view_create (maxraftstate : ℤ) : (create maxraftstate).view = KvState.empty := by
  ext1
  · exact funext fun key => SkipList.search_create 6 key
  · rfl

/-- A request is a duplicate if its client has a last one that is not below it. -/
lemma ifRequestDuplicate_iff {client : Bytes} {r : ℤ} :
    s.ifRequestDuplicate client r ↔ ∃ l ∈ s.last client, r ≤ l := by
  rw [ifRequestDuplicate, ← last]
  cases s.last client with
  | none => simp
  | some l => simp

/-- A request is new if its client has no last one that is not below it. -/
lemma ifRequestDuplicate_eq_false {client : Bytes} {r : ℤ} :
    s.ifRequestDuplicate client r = false ↔ ∀ l ∈ s.last client, l < r := by
  rw [← Bool.not_eq_true, ifRequestDuplicate_iff]
  push Not
  rfl

/-- Setting the last request changes its client's entry only. -/
lemma last_setLastRequestId (s : KvServer) (op : Op) :
    (s.setLastRequestId op).last = Function.update s.last op.ClientId (some op.RequestId) := by
  funext client
  by_cases hc : client = op.ClientId
  · subst hc
    rw [Function.update_self]
    exact AList.lookup_insert _
  · rw [Function.update_of_ne hc]
    exact AList.lookup_insert_ne hc

/-- `insert_set_element` changes its key's value only. -/
lemma search_insertSetElement (s : KvServer) (rand : ℕ) (key value : Bytes) :
    (s.insertSetElement rand key value).skipList.search_element =
      Function.update s.skipList.search_element key (some value) := by
  funext k
  by_cases hk : k = key
  · subst hk
    rw [Function.update_self]
    exact s.wellFormed.search_insert_set_element_self rand k value
  · rw [Function.update_of_ne hk]
    exact s.wellFormed.search_insert_set_element_ne rand value hk

/-- `Put` and `Append` do the same. -/
lemma view_put (s : KvServer) (rand : ℕ) (op : Op) :
    ((s.insertSetElement rand op.Key op.Value).setLastRequestId op).view =
      { map := Function.update s.view.map op.Key (some op.Value)
        table := Function.update s.view.table op.ClientId (some op.RequestId) } := by
  ext1
  · exact search_insertSetElement s rand op.Key op.Value
  · exact last_setLastRequestId _ op

/-- Executing a command is what the command means. -/
theorem view_executeCommand (s : KvServer) (rand : ℕ) (op : Op) :
    (s.executeCommand rand op).view = s.view.exec op := by
  have hput : opPut ≠ opAppend := by decide
  rw [executeCommand, KvState.exec]
  cases hdup : s.ifRequestDuplicate op.ClientId op.RequestId with
  | true =>
    obtain ⟨l, hl, hle⟩ := ifRequestDuplicate_iff.mp hdup
    rw [if_pos rfl, if_neg]
    rintro ⟨-, hall⟩
    exact absurd (hall l hl) (Int.not_lt.mpr hle)
  | false =>
    have hall := ifRequestDuplicate_eq_false.mp hdup
    rw [if_neg Bool.false_ne_true]
    by_cases hop : op.Operation = opPut
    · have hne : op.Operation ≠ opAppend := hop ▸ hput
      rw [if_pos hop, if_neg hne, if_pos ⟨.inl hop, hall⟩]
      exact view_put s rand op
    · rw [if_neg hop]
      by_cases happ : op.Operation = opAppend
      · rw [if_pos happ, if_pos ⟨.inr happ, hall⟩]
        exact view_put s rand op
      · have hup : ¬ op.IsUpdate := not_or.mpr ⟨hop, happ⟩
        rw [if_neg happ, if_neg fun h => hup h.1]

/-- Answering at a queue leaves data and table. -/
lemma sendMessageToWaitChan_same (s : KvServer) (op : Op) (index : ℤ) :
    (s.sendMessageToWaitChan op index).view = s.view ∧
      (s.sendMessageToWaitChan op index).lastSnapShotRaftLogIndex = s.lastSnapShotRaftLogIndex := by
  unfold sendMessageToWaitChan
  split
  · exact ⟨rfl, rfl⟩
  · exact ⟨rfl, rfl⟩

/-- Executing a command leaves the snapshot index. -/
lemma executeCommand_snapshotIndex (s : KvServer) (rand : ℕ) (op : Op) :
    (s.executeCommand rand op).lastSnapShotRaftLogIndex = s.lastSnapShotRaftLogIndex := by
  unfold executeCommand
  simp only
  split_ifs <;> rfl

end KvServer

end KVCacheRaft
