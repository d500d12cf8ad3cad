import Mathlib.Data.List.Nodup
import Mathlib.Tactic.Common

/-!
# Linearizability

A history is a list of calls with the moments at which they were invoked and returned. It is
linearizable when the calls that returned, and perhaps some that did not, can be carried out one after
another with the same results, such that no call is carried out behind one that was invoked only after
it had returned. `Points.linearizable` finds the order from a log: each call takes effect at a place of
the log, those that change the object at a place of their own.
-/

namespace Machine

variable {σ ω ρ ι : Type*}

/-- An object that carries out operations one after another. -/
structure Sequential (σ ω ρ : Type*) where
  init : σ
  exec : σ → ω → σ × ρ

/-- A call, with the moment of its invocation and, when it has returned, that of its return and the
result. -/
structure Timed (ω ρ : Type*) where
  op : ω
  invoked : ℕ
  returned : Option (ℕ × ρ)

/-- `a` had returned when `b` was invoked. -/
def Timed.Precedes (a b : Timed ω ρ) : Prop := ∃ x ∈ a.returned, x.1 < b.invoked

namespace Sequential

variable {O : Sequential σ ω ρ} {s : σ} {c : Timed ω ρ} {l l₁ l₂ : List (Timed ω ρ)}

/-- The calls, carried out from `s` in this order, get the results they returned. -/
def Legal (O : Sequential σ ω ρ) : σ → List (Timed ω ρ) → Prop
  | _, [] => True
  | s, c :: rest => (∀ x ∈ c.returned, x.2 = (O.exec s c.op).2) ∧ O.Legal (O.exec s c.op).1 rest

/-- The object after the calls. -/
def after (O : Sequential σ ω ρ) (s : σ) (l : List (Timed ω ρ)) : σ :=
  l.foldl (fun s c => (O.exec s c.op).1) s

/-- Calls are carried out one after another. -/
lemma after_append : O.after s (l₁ ++ l₂) = O.after (O.after s l₁) l₂ := List.foldl_append

/-- Calls are legal if the first ones are, and the others behind them. -/
lemma legal_append : O.Legal s (l₁ ++ l₂) ↔ O.Legal s l₁ ∧ O.Legal (O.after s l₁) l₂ := by
  induction l₁ generalizing s with
  | nil => exact ⟨fun h => ⟨trivial, h⟩, fun h => h.2⟩
  | cons c l₁ ih =>
    rw [List.cons_append, Legal, Legal, ih, and_assoc]
    rfl

/-- One call is legal if it returned what the object gives. -/
lemma legal_singleton : O.Legal s [c] ↔ ∀ x ∈ c.returned, x.2 = (O.exec s c.op).2 :=
  and_iff_left trivial

/-- Calls that leave the object as it is. -/
lemma legal_of_read (hread : ∀ c ∈ l, (O.exec s c.op).1 = s ∧ ∀ x ∈ c.returned, x.2 = (O.exec s c.op).2) :
    O.Legal s l ∧ O.after s l = s := by
  induction l with
  | nil => exact ⟨trivial, rfl⟩
  | cons c l ih =>
    obtain ⟨hsame, hresult⟩ := hread c List.mem_cons_self
    obtain ⟨hlegal, hafter⟩ := ih fun d hd => hread d (List.mem_cons_of_mem _ hd)
    exact ⟨⟨hresult, hsame.symm ▸ hlegal⟩, (congrArg (O.after · l) hsame).trans hafter⟩

end Sequential

/-- `order` is a linearization of a history. -/
structure Linearization (O : Sequential σ ω ρ) (history order : List (Timed ω ρ)) : Prop where
  nodup : order.Nodup
  subset : order ⊆ history
  returned : ∀ c ∈ history, c.returned.isSome → c ∈ order
  realtime : order.Pairwise fun a b => ¬ b.Precedes a
  legal : O.Legal O.init order

/-- A history of calls invoked at moments of their own that has a linearization. -/
def Linearizable (O : Sequential σ ω ρ) (history : List (Timed ω ρ)) : Prop :=
  (history.map (·.invoked)).Nodup ∧ ∃ order, Linearization O history order

/-! ### Places in a log -/

/-- Calls that take effect at places of a log: `states n` is the object in front of place `n`, and a call
that is not a `writer` takes effect behind the writer of its place. -/
structure Points (O : Sequential σ ω ρ) (records : List ι) (call : ι → Timed ω ρ) (writer : ι → Prop)
    (point : ι → Option ℕ) (states : ℕ → σ) (size : ℕ) : Prop where
  invoked : (records.map fun x => (call x).invoked).Nodup
  start : states 0 = O.init
  returned : ∀ x ∈ records, (call x).returned.isSome → ∃ n ∈ point x, n < size
  realtime : ∀ x ∈ records, ∀ y ∈ records, (call x).Precedes (call y) →
    ∀ n ∈ point x, ∀ m ∈ point y, n < m
  write : ∀ n < size,
    (∃ x ∈ records, writer x ∧ point x = some n ∧ (O.exec (states n) (call x).op).1 = states (n + 1)) ∨
      (∀ x ∈ records, writer x → point x ≠ some n) ∧ states (n + 1) = states n
  unique : ∀ x ∈ records, ∀ y ∈ records, writer x → writer y → ∀ n ∈ point x, n ∈ point y → x = y
  wrote : ∀ x ∈ records, writer x → ∀ n ∈ point x, ∀ r ∈ (call x).returned,
    r.2 = (O.exec (states n) (call x).op).2
  read : ∀ x ∈ records, ¬ writer x → ∀ n ∈ point x,
    (O.exec (states (n + 1)) (call x).op).1 = states (n + 1) ∧
      ∀ r ∈ (call x).returned, r.2 = (O.exec (states (n + 1)) (call x).op).2

namespace Points

variable {O : Sequential σ ω ρ} {records : List ι} {call : ι → Timed ω ρ} {writer : ι → Prop}
  [DecidablePred writer] {point : ι → Option ℕ} {states : ℕ → σ} {size : ℕ} {n : ℕ}

/-- The writer of a place. -/
def writers (records : List ι) (writer : ι → Prop) [DecidablePred writer] (point : ι → Option ℕ)
    (n : ℕ) : List ι :=
  records.filter fun x => writer x ∧ point x = some n

/-- The other calls of a place. -/
def readers (records : List ι) (writer : ι → Prop) [DecidablePred writer] (point : ι → Option ℕ)
    (n : ℕ) : List ι :=
  records.filter fun x => ¬ writer x ∧ point x = some n

/-- The calls by their places. -/
def order (records : List ι) (writer : ι → Prop) [DecidablePred writer] (point : ι → Option ℕ)
    (size : ℕ) : List ι :=
  (List.range size).flatMap fun n => writers records writer point n ++ readers records writer point n

/-- The writers at a point. -/
lemma mem_writers {x : ι} : x ∈ writers records writer point n ↔
    x ∈ records ∧ writer x ∧ point x = some n := by
  simp [writers]

/-- The readers at a point. -/
lemma mem_readers {x : ι} : x ∈ readers records writer point n ↔
    x ∈ records ∧ ¬ writer x ∧ point x = some n := by
  simp [readers]

/-- The calls at a point. -/
lemma mem_block {x : ι} :
    x ∈ writers records writer point n ++ readers records writer point n ↔
      x ∈ records ∧ point x = some n := by
  rw [List.mem_append, mem_writers, mem_readers]
  tauto

/-- The calls in the order are those with a point. -/
lemma mem_order {x : ι} : x ∈ order records writer point size ↔
    x ∈ records ∧ ∃ n < size, point x = some n := by
  rw [order, List.mem_flatMap]
  constructor
  · rintro ⟨n, hn, hx⟩
    obtain ⟨hrecord, hpoint⟩ := mem_block.mp hx
    exact ⟨hrecord, n, List.mem_range.mp hn, hpoint⟩
  · rintro ⟨hrecord, n, hn, hpoint⟩
    exact ⟨n, List.mem_range.mpr hn, mem_block.mpr ⟨hrecord, hpoint⟩⟩

/-- The order continues with the calls of the next point. -/
lemma order_succ : order records writer point (n + 1) =
    order records writer point n ++
      (writers records writer point n ++ readers records writer point n) := by
  rw [order, List.range_succ, List.flatMap_append, List.flatMap_singleton]
  rfl

/-- A place has one writer or none. -/
lemma writers_eq (h : Points O records call writer point states size) (hn : n < size) :
    (∃ x ∈ records, writer x ∧ point x = some n ∧ writers records writer point n = [x] ∧
      (O.exec (states n) (call x).op).1 = states (n + 1)) ∨
        writers records writer point n = [] ∧ states (n + 1) = states n := by
  obtain ⟨x, hx, hwriter, hpoint, hexec⟩ | ⟨hnone, hsame⟩ := h.write n hn
  · refine .inl ⟨x, hx, hwriter, hpoint, ?_, hexec⟩
    have hmem : x ∈ writers records writer point n := mem_writers.mpr ⟨hx, hwriter, hpoint⟩
    have hall : ∀ y ∈ writers records writer point n, y = x := by
      intro y hy
      obtain ⟨hrecord, hwriter', hpoint'⟩ := mem_writers.mp hy
      exact h.unique y hrecord x hx hwriter' hwriter n hpoint' hpoint
    have hnodup : (writers records writer point n).Nodup := (h.invoked.of_map _).filter _
    cases hlist : writers records writer point n with
    | nil => simp [hlist] at hmem
    | cons y rest =>
      rw [hlist] at hall hnodup
      obtain rfl := hall y List.mem_cons_self
      cases rest with
      | nil => rfl
      | cons z rest =>
        obtain rfl := hall z (by simp)
        simp at hnodup
  · refine .inr ⟨List.filter_eq_nil_iff.mpr fun x hx => ?_, hsame⟩
    simpa using hnone x hx

/-- Up to a place the order is legal, and leaves the object that is in front of the next one. -/
lemma legal_order (h : Points O records call writer point states size) (hn : n ≤ size) :
    O.Legal O.init ((order records writer point n).map call) ∧
      O.after O.init ((order records writer point n).map call) = states n := by
  induction n with
  | zero => exact ⟨trivial, h.start.symm⟩
  | succ n ih =>
    obtain ⟨hlegal, hafter⟩ := ih (Nat.le_of_succ_le hn)
    have hread := O.legal_of_read (s := states (n + 1))
      (l := (readers records writer point n).map call) fun c hc => by
        obtain ⟨x, hx, rfl⟩ := List.mem_map.mp hc
        obtain ⟨hrecord, hwriter, hpoint⟩ := mem_readers.mp hx
        exact h.read x hrecord hwriter n hpoint
    have hwrite : O.Legal (states n) ((writers records writer point n).map call) ∧
        O.after (states n) ((writers records writer point n).map call) = states (n + 1) := by
      obtain ⟨x, hx, hwriter, hpoint, hlist, hexec⟩ | ⟨hlist, hsame⟩ := h.writers_eq hn
      · rw [hlist]
        exact ⟨Sequential.legal_singleton.mpr (h.wrote x hx hwriter n hpoint), hexec⟩
      · rw [hlist]
        exact ⟨trivial, hsame.symm⟩
    rw [order_succ, List.map_append, List.map_append, Sequential.legal_append,
      Sequential.legal_append, Sequential.after_append, Sequential.after_append, hafter, hwrite.2]
    exact ⟨⟨hlegal, hwrite.1, hread.1⟩, hread.2⟩

/-- Calls that take effect at places of a log are linearizable. -/
theorem linearizable (h : Points O records call writer point states size) :
    Linearizable O (records.map call) := by
  have hinvoked : ((records.map call).map (·.invoked)).Nodup := by
    rw [List.map_map]
    exact h.invoked
  have hrecords : records.Nodup := h.invoked.of_map _
  have hinj : ∀ x ∈ records, ∀ y ∈ records, call x = call y → x = y := fun x hx y hy hxy =>
    List.inj_on_of_nodup_map h.invoked hx hy (congrArg Timed.invoked hxy)
  refine ⟨hinvoked, (order records writer point size).map call, ?_, fun c hc => ?_, fun c hc hret => ?_,
    ?_, (h.legal_order (Nat.le_refl _)).1⟩
  · refine List.Nodup.map_on (fun x hx y hy => hinj x (mem_order.mp hx).1 y (mem_order.mp hy).1) ?_
    refine List.nodup_flatMap.mpr ⟨fun n _ => ?_, ?_⟩
    · refine List.nodup_append.mpr ⟨hrecords.filter _, hrecords.filter _, fun x hx y hy hxy => ?_⟩
      subst hxy
      exact (mem_readers.mp hy).2.1 (mem_writers.mp hx).2.1
    · refine (List.nodup_range (n := size)).imp fun hne => ?_
      intro x hx hy
      exact hne (Option.some.inj ((mem_block.mp hx).2.symm.trans (mem_block.mp hy).2))
  · obtain ⟨x, hx, rfl⟩ := List.mem_map.mp hc
    exact List.mem_map_of_mem (mem_order.mp hx).1
  · obtain ⟨x, hx, rfl⟩ := List.mem_map.mp hc
    obtain ⟨n, hpoint, hn⟩ := h.returned x hx hret
    exact List.mem_map_of_mem (mem_order.mpr ⟨hx, n, hn, hpoint⟩)
  · rw [List.pairwise_map, order, List.pairwise_flatMap]
    constructor
    · refine fun n _ => List.pairwise_of_forall_mem_list fun x hx y hy hprec => ?_
      obtain ⟨hrx, hpx⟩ := mem_block.mp hx
      obtain ⟨hry, hpy⟩ := mem_block.mp hy
      exact Nat.lt_irrefl n (h.realtime y hry x hrx hprec n hpy n hpx)
    · refine List.pairwise_lt_range.imp fun {n m} hlt x hx y hy hprec => ?_
      obtain ⟨hrx, hpx⟩ := mem_block.mp hx
      obtain ⟨hry, hpy⟩ := mem_block.mp hy
      exact Nat.lt_asymm hlt (h.realtime y hry x hrx hprec m hpy n hpx)

end Points

end Machine
