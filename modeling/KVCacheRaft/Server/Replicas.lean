import KVCacheRaft.Server.Archive
import KVCacheRaft.Server.Meaning

/-!
# Replicas and the log

Two servers that consume the same commands, with the `ExecuteGetOpOnKVDB` calls of their `Get`
handlers placed anywhere behind the commands they belong to. `ExecuteGetOpOnKVDB` writes the table of
last requests outside the log, and whatever stands there. As long as no handler does so behind a later
request of its client, a server does what `replay` says, a function of the log alone.
-/

namespace KVCacheRaft

/-- What happens on a server: it consumes a command, or a handler of `Get` executes its operation.
`rand` and `raftStateSize` are what the server reads elsewhere. -/
inductive Event where
  | command (index : ℤ) (op : Op) (rand : ℕ) (raftStateSize : ℤ)
  | get (op : Op)

/-- The command of an event, with its index. -/
def Event.command? : Event → Option (ℤ × Op)
  | .command index op _ _ => some (index, op)
  | .get _ => none

/-- The client and the request an event may write into the table of a server with snapshot index
`snap`. -/
def Event.records (snap : ℤ) : Event → Option (Bytes × ℤ)
  | .command index op _ _ =>
    if snap < index ∧ op.IsUpdate then some (op.ClientId, op.RequestId) else none
  | .get op => some (op.ClientId, op.RequestId)

/-- The commands of some events. -/
def commands (es : List Event) : List (ℤ × Op) := es.filterMap Event.command?

/-- The operations of the commands behind the snapshot index. -/
def applied (snap : ℤ) (cs : List (ℤ × Op)) : List Op :=
  (cs.filter fun c => snap < c.1).map Prod.snd

namespace KvServer

/-- One event; the message of a command carries `op.asString()`. -/
def step (A : Archives) (s : KvServer) : Event → Option KvServer
  | .command index op rand raftStateSize =>
    (s.getCommandFromRaft A rand raftStateSize
      { CommandValid := true, Command := A.op.save op, CommandIndex := index }).map Prod.fst
  | .get op => some (s.executeGetOpOnKVDB op).1

/-- The events, one after the other. -/
def run (A : Archives) (s : KvServer) : List Event → Option KvServer
  | [] => some s
  | e :: es => (s.step A e).bind fun t => t.run A es

/-- Whether a server executes a command. -/
def executes (s : KvServer) (index : ℤ) (op : Op) : Bool :=
  s.lastSnapShotRaftLogIndex < index && !s.ifRequestDuplicate op.ClientId op.RequestId

/-- Whether the server executes the command of an event, for a `Put` or `Append`. -/
def outcome (s : KvServer) : Event → List Bool
  | .command index op _ _ => if op.IsUpdate then [s.executes index op] else []
  | .get _ => []

/-- Which of the `Put` and `Append` commands of some events are executed. -/
def outcomes (A : Archives) (s : KvServer) : List Event → List Bool
  | [] => []
  | e :: es => s.outcome e ++ ((s.step A e).map fun t => t.outcomes A es).getD []

/-- No entry of the table of `s` is larger than, or missing from, that of `t`. -/
def TableLe (s t : KvServer) : Prop := ∀ c r, s.last c = some r → ∃ r', t.last c = some r' ∧ r ≤ r'

/-- `m_last_RequestId` never decreases for any client. -/
def NeverDecreases (A : Archives) (s : KvServer) : List Event → Prop
  | [] => True
  | e :: es => ∀ t ∈ s.step A e, s.TableLe t ∧ t.NeverDecreases A es

/-- Two servers with the same map, table and snapshot index. -/
structure SameState (s₁ s₂ : KvServer) : Prop where
  map : s₁.skipList.search_element = s₂.skipList.search_element
  table : s₁.last = s₂.last
  snap : s₁.lastSnapShotRaftLogIndex = s₂.lastSnapShotRaftLogIndex

/-- The two servers execute the same commands, their tables never decrease, and their maps are equal
at the end. -/
def Agree (A : Archives) (s₁ s₂ : KvServer) (es₁ es₂ : List Event) : Prop :=
  (∃ t₁ ∈ s₁.run A es₁, ∃ t₂ ∈ s₂.run A es₂,
    t₁.skipList.search_element = t₂.skipList.search_element) ∧
  s₁.outcomes A es₁ = s₂.outcomes A es₂ ∧ s₁.NeverDecreases A es₁ ∧ s₂.NeverDecreases A es₂

/-- Each handler of `Get` runs behind its own command. -/
def Placed (snap : ℤ) (es : List Event) : Prop :=
  ∀ pre op post, es = pre ++ .get op :: post →
    op.Operation = opGet ∧ op ∈ applied snap (commands pre)

/-- Clients issue one request after the other: a `Put` or `Append` is a copy of one before it, or
recorded in the table already, or later than everything of its client before it. -/
def Sequential (table : Bytes → Option ℤ) (ops : List Op) : Prop :=
  ∀ pre op post, ops = pre ++ op :: post → op.IsUpdate → op ∈ pre ∨
    (∃ r ∈ table op.ClientId, op.RequestId ≤ r) ∨
    ∀ y ∈ pre, y.ClientId = op.ClientId → y.RequestId < op.RequestId

/-- No later request of the client of `op` is recorded in the table or by the events before. -/
def TimelyAt (table : Bytes → Option ℤ) (snap : ℤ) (pre : List Event) (op : Op) : Prop :=
  (∀ r ∈ table op.ClientId, r ≤ op.RequestId) ∧
    ∀ e ∈ pre, ∀ r, e.records snap = some (op.ClientId, r) → r ≤ op.RequestId

/-- Each handler of `Get` runs before a later request of its client is recorded. -/
def Timely (table : Bytes → Option ℤ) (snap : ℤ) (es : List Event) : Prop :=
  ∀ pre op post, es = pre ++ .get op :: post → TimelyAt table snap pre op

/-! ### What the log means -/

/-- A command behind the snapshot index that is new to the table and to the operations before it. -/
def accepts (table : Bytes → Option ℤ) (snap : ℤ) (seen : List Op) (c : ℤ × Op) : Bool :=
  snap < c.1 && c.2 ∉ seen && (table c.2.ClientId).all (· < c.2.RequestId)

/-- The commands that are executed behind the operations `seen`, and the map in the end. -/
def replay (table : Bytes → Option ℤ) (snap : ℤ) (seen : List Op) (map : Bytes → Option Bytes) :
    List (ℤ × Op) → List Bool × (Bytes → Option Bytes)
  | [] => ([], map)
  | c :: cs =>
    let ok := accepts table snap seen c
    let map := if c.2.IsUpdate ∧ ok then Function.update map c.2.Key (some c.2.Value) else map
    let (oks, map) := replay table snap (seen ++ applied snap [c]) map cs
    (if c.2.IsUpdate then ok :: oks else oks, map)

/-! ### One event -/

variable {A : Archives} {s t : KvServer} {index : ℤ} {op : Op} {rand : ℕ} {raftStateSize : ℤ}

/-- A command is executed above the snapshot and above the last request of its client. -/
lemma executes_iff : s.executes index op ↔ s.lastSnapShotRaftLogIndex < index ∧
    ∀ r ∈ s.last op.ClientId, r < op.RequestId := by
  rw [executes, Bool.and_eq_true, decide_eq_true_eq, Bool.not_eq_true', ifRequestDuplicate_eq_false]

/-- A command changes the map and the table when it is an update that the server executes, and
neither of them when it is not. -/
lemma step_command (s : KvServer) (index : ℤ) (op : Op) (rand : ℕ) (raftStateSize : ℤ) :
    ∃ t, s.step A (.command index op rand raftStateSize) = some t ∧
      t.lastSnapShotRaftLogIndex = s.lastSnapShotRaftLogIndex ∧
      t.skipList.search_element = (if op.IsUpdate ∧ s.executes index op then
        Function.update s.skipList.search_element op.Key (some op.Value)
        else s.skipList.search_element) ∧
      t.last = if op.IsUpdate ∧ s.executes index op then
        Function.update s.last op.ClientId (some op.RequestId) else s.last := by
  rw [step, getCommandFromRaft, A.op.load_save]
  by_cases hidx : index ≤ s.lastSnapShotRaftLogIndex
  · have hex : s.executes index op = false := by simp [executes, hidx]
    exact ⟨s, by simp [hidx], rfl, by simp [hex], by simp [hex]⟩
  · have hex : (op.IsUpdate ∧ s.executes index op = true) ↔
        op.IsUpdate ∧ ∀ r ∈ s.last op.ClientId, r < op.RequestId := by
      rw [executes_iff]
      exact and_congr_right fun _ => and_iff_right (Int.not_le.mp hidx)
    obtain ⟨hview, hsnap⟩ := sendMessageToWaitChan_same (s.executeCommand rand op) op index
    rw [view_executeCommand] at hview
    refine ⟨(s.executeCommand rand op).sendMessageToWaitChan op index, by simp [hidx],
      hsnap.trans (executeCommand_snapshotIndex s rand op), ?_, ?_⟩
    · have hmap := congrArg KvState.map hview
      simp only [KvState.exec, apply_ite KvState.map] at hmap
      simp only [hex]
      exact hmap
    · have htable := congrArg KvState.table hview
      simp only [KvState.exec, apply_ite KvState.table] at htable
      simp only [hex]
      exact htable

/-! ### What the table stands for -/

variable {s₀ : KvServer} {pre es : List Event} {e : Event}

@[simp] lemma commands_append (es es' : List Event) :
    commands (es ++ es') = commands es ++ commands es' := List.filterMap_append

@[simp] lemma applied_append (snap : ℤ) (cs cs' : List (ℤ × Op)) :
    applied snap (cs ++ cs') = applied snap cs ++ applied snap cs' := by
  simp [applied]

/-- A command above the snapshot is applied. -/
lemma applied_command {snap : ℤ} (h : snap < index) (es : List Event) :
    applied snap (commands (.command index op rand raftStateSize :: es)) =
      op :: applied snap (commands es) := by
  simp [applied, commands, Event.command?, h]

/-- The table of `s`, some events after `s₀`, holds the largest requests that were recorded. -/
structure Tracks (s₀ : KvServer) (pre : List Event) (s : KvServer) : Prop where
  snap : s.lastSnapShotRaftLogIndex = s₀.lastSnapShotRaftLogIndex
  mono : s₀.TableLe s
  covers : ∀ e ∈ pre, ∀ c r, e.records s₀.lastSnapShotRaftLogIndex = some (c, r) →
    ∃ r' ∈ s.last c, r ≤ r'
  source : ∀ c, ∀ r ∈ s.last c, s₀.last c = some r ∨
    ∃ e ∈ pre, e.records s₀.lastSnapShotRaftLogIndex = some (c, r)

/-- A server has its own table. -/
lemma TableLe.refl (s : KvServer) : s.TableLe s := fun _ r h => ⟨r, h, le_rfl⟩

/-- A server tracks itself before it has applied anything. -/
lemma Tracks.initial (s : KvServer) : s.Tracks [] s where
  snap := rfl
  mono := TableLe.refl s
  covers := by simp
  source _ _ hr := .inl hr

/-- An event that writes nothing into the table. -/
lemma Tracks.silent (h : s₀.Tracks pre s) (hsnap : t.lastSnapShotRaftLogIndex = s.lastSnapShotRaftLogIndex)
    (hlast : t.last = s.last) (hrec : ∀ c r, e.records s₀.lastSnapShotRaftLogIndex = some (c, r) →
      ∃ r' ∈ s.last c, r ≤ r') : s₀.Tracks (pre ++ [e]) t where
  snap := hsnap.trans h.snap
  mono c r hr := hlast ▸ h.mono c r hr
  covers e' he' c r hr := by
    rw [hlast]
    rcases List.mem_append.mp he' with he' | he'
    · exact h.covers e' he' c r hr
    · obtain rfl := List.mem_singleton.mp he'
      exact hrec c r hr
  source c r hr := by
    rw [hlast] at hr
    rcases h.source c r hr with h0 | ⟨e', he', hr'⟩
    · exact .inl h0
    · exact .inr ⟨e', List.mem_append_left _ he', hr'⟩

/-- An event that writes a request into the table, not a smaller one than is there. -/
lemma Tracks.record (h : s₀.Tracks pre s)
    (hsnap : t.lastSnapShotRaftLogIndex = s.lastSnapShotRaftLogIndex)
    (hlast : t.last = Function.update s.last op.ClientId (some op.RequestId))
    (hle : ∀ r ∈ s.last op.ClientId, r ≤ op.RequestId)
    (hrec : e.records s₀.lastSnapShotRaftLogIndex = some (op.ClientId, op.RequestId)) :
    s₀.Tracks (pre ++ [e]) t := by
  -- what stands in the old table is covered by the new one
  have hup : ∀ c, ∀ r ∈ s.last c, ∃ r' ∈ t.last c, r ≤ r' := by
    intro c r hr
    rw [hlast]
    by_cases hc : c = op.ClientId
    · subst hc
      exact ⟨op.RequestId, by simp, hle r hr⟩
    · exact ⟨r, by simpa [hc] using hr, le_rfl⟩
  constructor
  · exact hsnap.trans h.snap
  · intro c r hr
    obtain ⟨r₁, h1, h2⟩ := h.mono c r hr
    obtain ⟨r₂, h3, h4⟩ := hup c r₁ h1
    exact ⟨r₂, h3, h2.trans h4⟩
  · intro e' he' c r hr
    rcases List.mem_append.mp he' with he' | he'
    · obtain ⟨r₁, h1, h2⟩ := h.covers e' he' c r hr
      obtain ⟨r₂, h3, h4⟩ := hup c r₁ h1
      exact ⟨r₂, h3, h2.trans h4⟩
    · obtain rfl := List.mem_singleton.mp he'
      obtain ⟨rfl, rfl⟩ := Prod.mk.inj (Option.some.inj (hrec.symm.trans hr))
      exact ⟨_, by rw [hlast]; simp, le_rfl⟩
  · intro c r hr
    by_cases hc : c = op.ClientId
    · subst hc
      rw [hlast, Function.update_self] at hr
      cases hr
      exact .inr ⟨e, by simp, hrec⟩
    · rw [hlast, Function.update_of_ne hc] at hr
      rcases h.source c r hr with h0 | ⟨e', he', hr'⟩
      · exact .inl h0
      · exact .inr ⟨e', List.mem_append_left _ he', hr'⟩

/-- A command keeps the table in step. -/
lemma Tracks.command (h : s₀.Tracks pre s)
    (hs : s.step A (.command index op rand raftStateSize) = some t) :
    s.TableLe t ∧ s₀.Tracks (pre ++ [.command index op rand raftStateSize]) t := by
  obtain ⟨t', ht, hsnap, -, hlast⟩ := s.step_command (A := A) index op rand raftStateSize
  obtain rfl : t' = t := Option.some.inj (ht.symm.trans hs)
  by_cases hex : op.IsUpdate ∧ s.executes index op
  · rw [if_pos hex] at hlast
    obtain ⟨hlt, hle⟩ := executes_iff.mp hex.2
    refine ⟨fun c r hr => ?_, h.record hsnap hlast (fun r hr => (hle r hr).le) ?_⟩
    · by_cases hc : c = op.ClientId
      · subst hc
        exact ⟨op.RequestId, by rw [hlast]; simp, (hle r hr).le⟩
      · exact ⟨r, by rw [hlast]; simpa [hc] using hr, le_rfl⟩
    · rw [Event.records, if_pos ⟨h.snap ▸ hlt, hex.1⟩]
  · rw [if_neg hex] at hlast
    refine ⟨fun c r hr => ⟨r, hlast ▸ hr, le_rfl⟩, h.silent hsnap hlast fun c r hr => ?_⟩
    rw [Event.records] at hr
    split_ifs at hr with hrec
    cases hr
    by_contra hnone
    push Not at hnone
    exact hex ⟨hrec.2, executes_iff.mpr ⟨h.snap ▸ hrec.1, hnone⟩⟩

/-- A handler of `Get` keeps the table in step when it does not make it smaller. -/
lemma Tracks.get (h : s₀.Tracks pre s) (hle : s.TableLe (s.executeGetOpOnKVDB op).1) :
    s₀.Tracks (pre ++ [.get op]) (s.executeGetOpOnKVDB op).1 := by
  refine h.record rfl (last_setLastRequestId s op) (fun r hr => ?_) rfl
  obtain ⟨r', hr', hrr⟩ := hle op.ClientId r hr
  have hl : (s.executeGetOpOnKVDB op).1.last = Function.update s.last op.ClientId (some op.RequestId) :=
    last_setLastRequestId s op
  rw [hl, Function.update_self] at hr'
  cases hr'
  exact hrr

/-- A handler of `Get` does not make the table smaller exactly when it is timely. -/
lemma Tracks.get_iff (h : s₀.Tracks pre s) (op : Op) :
    s.TableLe (s.executeGetOpOnKVDB op).1 ↔
      TimelyAt s₀.last s₀.lastSnapShotRaftLogIndex pre op := by
  have hlast : (s.executeGetOpOnKVDB op).1.last =
      Function.update s.last op.ClientId (some op.RequestId) := last_setLastRequestId s op
  constructor
  · intro hle
    have hle' : ∀ r ∈ s.last op.ClientId, r ≤ op.RequestId := by
      intro r hr
      obtain ⟨r', hr', hrr⟩ := hle op.ClientId r hr
      rw [hlast, Function.update_self] at hr'
      cases hr'
      exact hrr
    constructor
    · intro r hr
      obtain ⟨r', hr', hrr⟩ := h.mono op.ClientId r hr
      exact hrr.trans (hle' r' hr')
    · intro e he r hr
      obtain ⟨r', hr', hrr⟩ := h.covers e he op.ClientId r hr
      exact hrr.trans (hle' r' hr')
  · rintro ⟨h0, hpre⟩ c r hr
    rw [hlast]
    by_cases hc : c = op.ClientId
    · subst hc
      refine ⟨op.RequestId, by simp, ?_⟩
      rcases h.source _ r hr with hr | ⟨e, he, hr⟩
      · exact h0 r hr
      · exact hpre e he r hr
    · exact ⟨r, by simpa [hc] using hr, le_rfl⟩

/-- The table never decreases exactly when every handler of `Get` is timely. -/
lemma Tracks.neverDecreases_iff (h : s₀.Tracks pre s) :
    s.NeverDecreases A es ↔ ∀ pre' op post, es = pre' ++ .get op :: post →
      TimelyAt s₀.last s₀.lastSnapShotRaftLogIndex (pre ++ pre') op := by
  induction es generalizing pre s with
  | nil => simp [NeverDecreases]
  | cons e es ih =>
    cases e with
    | command index op rand raftStateSize =>
      obtain ⟨t, ht, -⟩ := s.step_command (A := A) index op rand raftStateSize
      obtain ⟨hle, h'⟩ := h.command ht
      have hnd : s.NeverDecreases A (.command index op rand raftStateSize :: es) ↔
          t.NeverDecreases A es := by
        simp [NeverDecreases, ht, hle]
      rw [hnd, ih h']
      constructor
      · rintro hall (_ | ⟨e', pre'⟩) op' post heq
        · simp at heq
        · obtain ⟨rfl, hrest⟩ := List.cons.inj heq
          simpa using hall pre' op' post hrest
      · intro hall pre' op' post heq
        simpa using hall (_ :: pre') op' post (congrArg _ heq)
    | get op =>
      have hnd : s.NeverDecreases A (.get op :: es) ↔
          s.TableLe (s.executeGetOpOnKVDB op).1 ∧
            (s.executeGetOpOnKVDB op).1.NeverDecreases A es := by
        simp [NeverDecreases, step]
      rw [hnd]
      constructor
      · rintro ⟨hle, hrest⟩ (_ | ⟨e', pre'⟩) op' post heq
        · obtain ⟨hop, -⟩ := List.cons.inj heq
          cases hop
          simpa using (h.get_iff op).mp hle
        · obtain ⟨rfl, htail⟩ := List.cons.inj heq
          simpa using (ih (h.get hle)).mp hrest pre' op' post htail
      · intro hall
        have hle := (h.get_iff op).mpr (by simpa using hall [] op es rfl)
        refine ⟨hle, (ih (h.get hle)).mpr fun pre' op' post heq => ?_⟩
        simpa using hall (.get op :: pre') op' post (congrArg _ heq)

/-! ### A timely server follows the log -/

/-- An update behind the snapshot index is recorded. -/
lemma exists_records {snap : ℤ} (hop : op ∈ applied snap (commands pre)) (hup : op.IsUpdate) :
    ∃ e ∈ pre, e.records snap = some (op.ClientId, op.RequestId) := by
  simp only [applied, commands, List.mem_map, List.mem_filter, List.mem_filterMap] at hop
  obtain ⟨⟨i, x⟩, ⟨⟨e, he, hc⟩, hi⟩, rfl⟩ := hop
  cases e with
  | get op => cases hc
  | command index op rand raftStateSize =>
    cases hc
    exact ⟨_, he, if_pos ⟨by simpa using hi, hup⟩⟩

/-- What is recorded belongs to a command that was consumed. -/
lemma exists_applied {snap : ℤ} (hp : Placed snap (pre ++ es)) (he : e ∈ pre) {c : Bytes} {r : ℤ}
    (hr : e.records snap = some (c, r)) :
    ∃ op ∈ applied snap (commands pre), op.ClientId = c ∧ op.RequestId = r := by
  obtain ⟨pre₁, pre₂, rfl⟩ := List.append_of_mem he
  cases e with
  | get op =>
    cases hr
    have hop := (hp pre₁ op (pre₂ ++ es) (by simp)).2
    exact ⟨op, by simp [hop], rfl, rfl⟩
  | command index op rand raftStateSize =>
    rw [Event.records] at hr
    split_ifs at hr with hcond
    cases hr
    exact ⟨op, by simp [applied, commands, Event.command?, hcond.1], rfl, rfl⟩

/-- Which updates a timely server executes depends on the log alone. -/
lemma Tracks.executes_eq (h : s₀.Tracks pre s)
    (hp : Placed s₀.lastSnapShotRaftLogIndex (pre ++ es))
    (hseq : s₀.lastSnapShotRaftLogIndex < index →
      op ∈ applied s₀.lastSnapShotRaftLogIndex (commands pre) ∨
      (∃ r ∈ s₀.last op.ClientId, op.RequestId ≤ r) ∨
      ∀ y ∈ applied s₀.lastSnapShotRaftLogIndex (commands pre), y.ClientId = op.ClientId →
        y.RequestId < op.RequestId) (hup : op.IsUpdate) :
    s.executes index op = accepts s₀.last s₀.lastSnapShotRaftLogIndex
      (applied s₀.lastSnapShotRaftLogIndex (commands pre)) (index, op) := by
  rw [Bool.eq_iff_iff, executes_iff, h.snap]
  simp only [accepts, Bool.and_eq_true, decide_eq_true_eq, Option.all_eq_true]
  constructor
  · rintro ⟨hidx, hlt⟩
    refine ⟨⟨hidx, fun hop => ?_⟩, fun r hr => ?_⟩
    · -- a copy that was consumed is covered by the table
      obtain ⟨e, he, hrec⟩ := exists_records hop hup
      obtain ⟨r, hr, hle⟩ := h.covers e he _ _ hrec
      exact absurd (hlt r hr) (not_lt.mpr hle)
    · obtain ⟨r', hr', hle⟩ := h.mono op.ClientId r hr
      exact hle.trans_lt (hlt r' hr')
  · rintro ⟨⟨hidx, hnew⟩, htable⟩
    refine ⟨hidx, fun r hr => ?_⟩
    rcases hseq hidx with hop | ⟨r', hr', hle⟩ | hall
    · exact absurd hop hnew
    · exact absurd (htable r' hr') (not_lt.mpr hle)
    · rcases h.source _ r hr with h0 | ⟨e, he, hrec⟩
      · exact htable r h0
      · obtain ⟨y, hy, hc, rfl⟩ := exists_applied hp he hrec
        exact hall y hy hc

/-- The server executes what `replay` says, and ends with its map. -/
lemma Tracks.run_replay (h : s₀.Tracks pre s)
    (hp : Placed s₀.lastSnapShotRaftLogIndex (pre ++ es))
    (hseq : Sequential s₀.last (applied s₀.lastSnapShotRaftLogIndex (commands (pre ++ es))))
    (hnd : s.NeverDecreases A es) :
    ∃ t, s.run A es = some t ∧ (s.outcomes A es, t.skipList.search_element) =
      replay s₀.last s₀.lastSnapShotRaftLogIndex
        (applied s₀.lastSnapShotRaftLogIndex (commands pre)) s.skipList.search_element
        (commands es) := by
  induction es generalizing pre s with
  | nil => exact ⟨s, rfl, rfl⟩
  | cons e es ih =>
    have hassoc : pre ++ e :: es = (pre ++ [e]) ++ es := by simp
    cases e with
    | get op =>
      obtain ⟨hle, hrest⟩ := hnd _ rfl
      obtain ⟨t, ht, heq⟩ := ih (h.get hle) (hassoc ▸ hp) (hassoc ▸ hseq) hrest
      have hcmd : commands (pre ++ [.get op]) = commands pre := by simp [commands, Event.command?]
      rw [hcmd] at heq
      exact ⟨t, ht, heq⟩
    | command index op rand raftStateSize =>
      obtain ⟨t, ht, hsnap, hmap, hlast⟩ := s.step_command (A := A) index op rand raftStateSize
      obtain ⟨-, h'⟩ := h.command ht
      obtain ⟨u, hu, heq⟩ := ih h' (hassoc ▸ hp) (hassoc ▸ hseq) (hnd t ht).2
      refine ⟨u, by simp [run, ht, hu], ?_⟩
      have hcmd : commands (pre ++ [.command index op rand raftStateSize]) =
          commands pre ++ [(index, op)] := by simp [commands, Event.command?]
      rw [hcmd, applied_append, hmap] at heq
      change _ = replay _ _ _ _ ((index, op) :: commands es)
      rw [replay, outcomes, outcome, ht]
      by_cases hup : op.IsUpdate
      · have hex := h.executes_eq hp (fun hidx => hseq _ op
          (applied s₀.lastSnapShotRaftLogIndex (commands es))
          (by rw [commands_append, applied_append, applied_command hidx]) hup) hup
        simp only [hup, true_and, if_true, ← hex] at heq ⊢
        rw [← heq]
        rfl
      · simp only [hup, false_and, if_false] at heq ⊢
        rw [← heq]
        rfl

variable {s₁ s₂ : KvServer} {es₁ es₂ : List Event}

/-- Requests never decrease if they come in time. -/
lemma neverDecreases_iff :
    s.NeverDecreases A es ↔ Timely s.last s.lastSnapShotRaftLogIndex es :=
  (Tracks.initial s).neverDecreases_iff

/-- Two servers agree if and only if the handlers of `Get` are timely on both. -/
theorem agree_iff (A : Archives) (hstate : SameState s₁ s₂) (hlog : commands es₁ = commands es₂)
    (hp₁ : Placed s₁.lastSnapShotRaftLogIndex es₁) (hp₂ : Placed s₂.lastSnapShotRaftLogIndex es₂)
    (hseq : Sequential s₁.last (applied s₁.lastSnapShotRaftLogIndex (commands es₁))) :
    Agree A s₁ s₂ es₁ es₂ ↔ Timely s₁.last s₁.lastSnapShotRaftLogIndex es₁ ∧
      Timely s₂.last s₂.lastSnapShotRaftLogIndex es₂ := by
  constructor
  · rintro ⟨-, -, hnd₁, hnd₂⟩
    exact ⟨neverDecreases_iff.mp hnd₁, neverDecreases_iff.mp hnd₂⟩
  · rintro ⟨ht₁, ht₂⟩
    have hnd₁ := neverDecreases_iff (A := A) |>.mpr ht₁
    have hnd₂ := neverDecreases_iff (A := A) |>.mpr ht₂
    have hseq₂ : Sequential s₂.last (applied s₂.lastSnapShotRaftLogIndex (commands es₂)) := by
      rwa [← hstate.table, ← hstate.snap, ← hlog]
    obtain ⟨t₁, hr₁, h₁⟩ := (Tracks.initial s₁).run_replay hp₁ hseq hnd₁
    obtain ⟨t₂, hr₂, h₂⟩ := (Tracks.initial s₂).run_replay hp₂ hseq₂ hnd₂
    rw [← hstate.table, ← hstate.snap, ← hstate.map, ← hlog] at h₂
    obtain ⟨hout, hmap⟩ := Prod.mk.inj (h₁.trans h₂.symm)
    exact ⟨⟨t₁, hr₁, t₂, hr₂, hmap⟩, hout, hnd₁, hnd₂⟩

/-! ### A handler that comes late -/

/-- Client `[7]` gets key `[1]`, -/
def getOp : Op := { Operation := opGet, Key := [1], Value := [], ClientId := [7], RequestId := 1 }

/-- then puts `[5]` under it, -/
def putOp : Op := { Operation := opPut, Key := [1], Value := [5], ClientId := [7], RequestId := 2 }

/-- and client `[8]` puts `[6]` under it. -/
def otherOp : Op := { Operation := opPut, Key := [1], Value := [6], ClientId := [8], RequestId := 1 }

/-- A server consumes these commands, with a copy of the first `Put` at the end. -/
def logEvents : List Event :=
  [.command 1 getOp 0 0, .command 2 putOp 0 0, .command 3 otherOp 0 0, .command 4 putOp 0 0]

/-- The handler of the `Get` runs right behind its command. -/
def promptEvents : List Event :=
  [.command 1 getOp 0 0, .get getOp, .command 2 putOp 0 0, .command 3 otherOp 0 0,
    .command 4 putOp 0 0]

/-- The handler of the `Get` runs behind the `Put` of its client. -/
def lateEvents : List Event :=
  [.command 1 getOp 0 0, .command 2 putOp 0 0, .get getOp, .command 3 otherOp 0 0,
    .command 4 putOp 0 0]

/-- The commands of the events come one client after another. -/
lemma sequential_logEvents :
    Sequential (create (-1)).last (applied 0 (commands logEvents)) := by
  intro pre op post h _
  have h' : [getOp, putOp, otherOp, putOp] = pre ++ op :: post := h
  simp only [List.cons_eq_append_iff, List.cons.injEq, List.nil_eq_append_iff, reduceCtorEq,
    and_false, exists_false, or_false] at h'
  rcases h' with ⟨rfl, rfl, -⟩ | ⟨_, rfl, ⟨rfl, rfl, -⟩ | ⟨_, rfl, ⟨rfl, rfl, -⟩ | ⟨_, rfl, rfl, rfl, -⟩⟩⟩
  · exact .inr (.inr (by decide))
  · exact .inr (.inr (by decide))
  · exact .inr (.inr (by decide))
  · exact .inl (by decide)

/-- The only `Get` of the prompt events is behind its own command. -/
lemma get_of_prompt {pre post : List Event} {op : Op} (h : promptEvents = pre ++ .get op :: post) :
    pre = [.command 1 getOp 0 0] ∧ op = getOp := by
  simp only [promptEvents, List.cons_eq_append_iff, List.cons.injEq, List.nil_eq_append_iff,
    reduceCtorEq, and_false, false_and, exists_false, or_false, false_or, Event.get.injEq] at h
  obtain ⟨_, rfl, rfl, rfl, -⟩ := h
  exact ⟨rfl, rfl⟩

/-- The only `Get` of the late events is behind a later `Put`. -/
lemma get_of_late {pre post : List Event} {op : Op} (h : lateEvents = pre ++ .get op :: post) :
    pre = [.command 1 getOp 0 0, .command 2 putOp 0 0] ∧ op = getOp := by
  simp only [lateEvents, List.cons_eq_append_iff, List.cons.injEq, List.nil_eq_append_iff,
    reduceCtorEq, and_false, false_and, exists_false, or_false, false_or, Event.get.injEq] at h
  obtain ⟨_, rfl, _, rfl, rfl, rfl, -⟩ := h
  exact ⟨rfl, rfl⟩

/-- The prompt events have indices in order. -/
lemma placed_promptEvents : Placed 0 promptEvents := by
  intro pre op post h
  obtain ⟨rfl, rfl⟩ := get_of_prompt h
  decide

/-- The late events have indices in order. -/
lemma placed_lateEvents : Placed 0 lateEvents := by
  intro pre op post h
  obtain ⟨rfl, rfl⟩ := get_of_late h
  decide

/-- With a prompt handler on one server, and none on the other, the two agree. -/
theorem agree_promptEvents :
    Agree textArchives (create (-1)) (create (-1)) promptEvents logEvents := by
  have hstate : SameState (create (-1)) (create (-1)) := ⟨rfl, rfl, rfl⟩
  have hlog : commands promptEvents = commands logEvents := rfl
  have hnone : ∀ {pre op post}, logEvents ≠ pre ++ .get op :: post := by
    simp [logEvents, List.cons_eq_append_iff]
  have hplaced : Placed 0 logEvents := fun _ _ _ h => absurd h hnone
  have hseq : Sequential (create (-1)).last (applied 0 (commands promptEvents)) :=
    hlog ▸ sequential_logEvents
  have hiff := agree_iff textArchives hstate hlog placed_promptEvents hplaced hseq
  refine hiff.mpr ⟨fun pre op post h => ?_, fun _ _ _ h => absurd h hnone⟩
  obtain ⟨rfl, rfl⟩ := get_of_prompt h
  refine ⟨by simp [last, create], fun e he r hr => ?_⟩
  obtain rfl := List.mem_singleton.mp he
  simp [Event.records, getOp, Op.IsUpdate, opGet, opPut, opAppend] at hr

/-- With a late handler on one server, the copy of the `Put` is executed there and on the other it is
skipped. -/
theorem not_agree_lateEvents :
    SameState (create (-1)) (create (-1)) ∧ commands promptEvents = commands lateEvents ∧
      Placed 0 promptEvents ∧ Placed 0 lateEvents ∧
      Sequential (create (-1)).last (applied 0 (commands promptEvents)) ∧
      ¬ Agree textArchives (create (-1)) (create (-1)) promptEvents lateEvents := by
  refine ⟨⟨rfl, rfl, rfl⟩, rfl, placed_promptEvents, placed_lateEvents, sequential_logEvents, ?_⟩
  rintro ⟨⟨t₁, h₁, t₂, h₂, hmap⟩, -⟩
  have hprompt : ∀ t ∈ (create (-1)).run textArchives promptEvents,
      t.skipList.search_element [1] = some [6] := by decide
  have hlate : ∀ t ∈ (create (-1)).run textArchives lateEvents,
      t.skipList.search_element [1] = some [5] := by decide
  have := congrFun hmap [1]
  rw [hprompt t₁ h₁, hlate t₂ h₂] at this
  exact absurd this (by decide)

end KvServer

end KVCacheRaft
