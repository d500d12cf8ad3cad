import Mathlib.Data.List.Infix

/-!
# Crashes

A procedure is a list of operations on what outlives it. A crash leaves what the operations in front
of it did, so that a property survives crashes when it holds after every number of operations.
-/

namespace Machine

variable {σ ι : Type*} {apply : σ → ι → σ} {P : σ → Prop} {s : σ} {op : ι} {ops ops' : List ι}

/-- The property holds wherever the operations are cut off. -/
def Survives (apply : σ → ι → σ) (P : σ → Prop) (s : σ) (ops : List ι) : Prop :=
  ∀ before, before <+: ops → P (before.foldl apply s)

/-- Nothing is done before the first operation. -/
lemma survives_nil : Survives apply P s [] ↔ P s := by
  refine ⟨fun h => h [] List.prefix_rfl, fun h before hbefore => ?_⟩
  obtain rfl := List.prefix_nil.mp hbefore
  exact h

/-- A crash comes before the first operation or behind it. -/
lemma survives_cons :
    Survives apply P s (op :: ops) ↔ P s ∧ Survives apply P (apply s op) ops := by
  refine ⟨fun h => ⟨h [] (List.nil_prefix), fun before hbefore => ?_⟩, fun h before hbefore => ?_⟩
  · exact h (op :: before) (List.cons_prefix_cons.mpr ⟨rfl, hbefore⟩)
  · cases before with
    | nil => exact h.1
    | cons op' before =>
      obtain ⟨rfl, hrest⟩ := List.cons_prefix_cons.mp hbefore
      exact h.2 before hrest

/-- Procedures one after another. -/
lemma survives_append :
    Survives apply P s (ops ++ ops') ↔
      Survives apply P s ops ∧ Survives apply P (ops.foldl apply s) ops' := by
  induction ops generalizing s with
  | nil =>
    rw [List.nil_append, survives_nil]
    exact ⟨fun h => ⟨h [] List.nil_prefix, h⟩, fun h => h.2⟩
  | cons op ops ih => rw [List.cons_append, survives_cons, survives_cons, ih, and_assoc, List.foldl_cons]

/-- What survives every crash holds at the end. -/
lemma Survives.last (h : Survives apply P s ops) : P (ops.foldl apply s) := h ops List.prefix_rfl

/-- What no operation changes. -/
lemma foldl_eq {α : Type*} {f : σ → α} (h : ∀ s, ∀ op ∈ ops, f (apply s op) = f s) :
    f (ops.foldl apply s) = f s := by
  induction ops generalizing s with
  | nil => rfl
  | cons op ops ih =>
    rw [List.foldl_cons, ih fun s x hx => h s x (List.mem_cons_of_mem _ hx)]
    exact h s op List.mem_cons_self

/-- A property that no operation spoils. -/
lemma Survives.of_keeps {Q : σ → Prop} (hs : Q s) (hkeeps : ∀ s, ∀ op ∈ ops, Q s → Q (apply s op))
    (hP : ∀ s, Q s → P s) : Survives apply P s ops := by
  induction ops generalizing s with
  | nil => exact survives_nil.mpr (hP s hs)
  | cons op ops ih =>
    refine survives_cons.mpr ⟨hP s hs, ih (hkeeps s op List.mem_cons_self hs) ?_⟩
    exact fun s x hx => hkeeps s x (List.mem_cons_of_mem _ hx)

end Machine
