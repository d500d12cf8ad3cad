import Mathlib.Tactic.Common
import Mathlib.Data.List.Infix
import Mathlib.Data.List.Nodup
import Mathlib.Logic.Function.Basic

/-!
# Singly linked chains

A successor function `next : α → Option α` and the list of what lies behind an address. Inserting
behind an address and taking a successor out change `next` at one or two places, and the list in one.
-/

namespace Chains

variable {α : Type} {next next' : α → Option α} {a x : α} {l l₁ l₂ : List α}

/-- Following `next` from behind `a` passes through `l` and ends. -/
def Chain (next : α → Option α) : α → List α → Prop
  | a, [] => next a = none
  | a, b :: l => next a = some b ∧ Chain next b l

/-- The last address up to which `l₁` goes, when it starts behind `a`. -/
def final (a : α) (l₁ : List α) : α := (a :: l₁).getLast (List.cons_ne_nil a l₁)

@[simp] lemma final_nil (a : α) : final a [] = a := rfl

@[simp] lemma final_cons (a b : α) (l : List α) : final a (b :: l) = final b l := by
  simp [final]

/-- The end of two chains. -/
lemma final_append (a : α) (l₁ l₂ : List α) : final a (l₁ ++ l₂) = final (final a l₁) l₂ := by
  induction l₁ generalizing a with
  | nil => rfl
  | cons b l₁ ih => simpa using ih b

/-- The end of a chain is on it. -/
lemma final_mem (a : α) (l : List α) : final a l ∈ a :: l := List.getLast_mem _

/-- Every address on the way is the last one of a part of it. -/
lemma exists_final {c : α} (h : c ∈ a :: l) : ∃ l₁ l₂, l = l₁ ++ l₂ ∧ final a l₁ = c := by
  induction l generalizing a with
  | nil =>
    obtain rfl := List.mem_singleton.mp h
    exact ⟨[], [], rfl, rfl⟩
  | cons b l ih =>
    rcases List.mem_cons.mp h with rfl | hc
    · exact ⟨[], b :: l, rfl, rfl⟩
    · obtain ⟨l₁, l₂, rfl, hfin⟩ := ih hc
      exact ⟨b :: l₁, l₂, rfl, by simpa using hfin⟩

/-! ### Reading a chain -/

/-- What is behind a part of a chain is a chain. -/
lemma Chain.behind (h : Chain next a (l₁ ++ l₂)) : Chain next (final a l₁) l₂ := by
  induction l₁ generalizing a with
  | nil => exact h
  | cons b l₁ ih =>
    rw [final_cons]
    exact ih h.2

/-- The next element of a chain is its first. -/
lemma Chain.next_eq (h : Chain next a l) : next a = l.head? := by
  cases l with
  | nil => exact h
  | cons b l => exact h.1

/-- The addresses behind `a`, as long as the fuel lasts. -/
def collect (next : α → Option α) : ℕ → α → List α
  | 0, _ => []
  | fuel + 1, a =>
    match next a with
    | none => []
    | some b => b :: collect next fuel b

/-- A chain is collected in its order. -/
lemma Chain.collect (h : Chain next a l) {fuel : ℕ} (hf : l.length ≤ fuel) :
    collect next fuel a = l := by
  induction l generalizing a fuel with
  | nil =>
    cases fuel with
    | zero => rfl
    | succ fuel => rw [Chains.collect, h.next_eq]; rfl
  | cons b l ih =>
    cases fuel with
    | zero => simp at hf
    | succ fuel =>
      rw [Chains.collect, h.next_eq]
      exact congrArg (b :: ·) (ih h.2 (by simpa using hf))

/-- Go on while the next address satisfies `p`, as long as the fuel lasts. -/
def walk (next : α → Option α) (p : α → Bool) : ℕ → α → α
  | 0, a => a
  | fuel + 1, a =>
    match next a with
    | none => a
    | some b => if p b then walk next p fuel b else a

/-- A walk ends where the addresses that satisfy `p` end. -/
lemma Chain.walk {p : α → Bool} (h : Chain next a (l₁ ++ l₂)) (h₁ : ∀ b ∈ l₁, p b)
    (h₂ : ∀ b ∈ l₂, p b = false) {fuel : ℕ} (hf : l₁.length ≤ fuel) :
    walk next p fuel a = final a l₁ := by
  induction l₁ generalizing a fuel with
  | nil =>
    cases fuel with
    | zero => rfl
    | succ fuel =>
      rw [Chains.walk, h.next_eq]
      cases l₂ with
      | nil => rfl
      | cons b l₂ => simp [h₂ b]
  | cons b l₁ ih =>
    cases fuel with
    | zero => simp at hf
    | succ fuel =>
      rw [Chains.walk, h.next_eq, final_cons]
      simp only [List.cons_append, List.head?_cons, h₁ b List.mem_cons_self, if_true]
      exact ih h.2 (fun c hc => h₁ c (List.mem_cons_of_mem _ hc)) (by simpa using hf)

/-- `walk` when `next` may fail. It fails with it, and where the fuel does not last. -/
def walkIn (next : α → Option (Option α)) (p : α → Bool) : ℕ → α → Option α
  | 0, _ => none
  | fuel + 1, a =>
    match next a with
    | none => none
    | some none => some a
    | some (some b) => if p b then walkIn next p fuel b else some a

/-- A walk along a chain ends where the condition does. -/
lemma Chain.walkIn {nextIn : α → Option (Option α)} {p : α → Bool}
    (h : Chain next a (l₁ ++ l₂)) (hin : ∀ b ∈ a :: l₁, nextIn b = some (next b))
    (h₁ : ∀ b ∈ l₁, p b) (h₂ : ∀ b ∈ l₂, p b = false) {fuel : ℕ} (hf : l₁.length < fuel) :
    walkIn nextIn p fuel a = some (final a l₁) := by
  induction l₁ generalizing a fuel with
  | nil =>
    cases fuel with
    | zero => simp at hf
    | succ fuel =>
      rw [Chains.walkIn, hin a List.mem_cons_self, h.next_eq]
      cases l₂ with
      | nil => rfl
      | cons b l₂ => simp [h₂ b]
  | cons b l₁ ih =>
    cases fuel with
    | zero => simp at hf
    | succ fuel =>
      rw [Chains.walkIn, hin a List.mem_cons_self, h.next_eq, final_cons]
      simp only [List.cons_append, List.head?_cons, h₁ b List.mem_cons_self, if_true]
      exact ih h.2 (fun c hc => hin c (List.mem_cons_of_mem _ hc))
        (fun c hc => h₁ c (List.mem_cons_of_mem _ hc)) (by simpa using hf)

/-! ### Changing a chain -/

/-- A chain does not see changes elsewhere. -/
lemma Chain.congr (h : Chain next a l) (heq : ∀ b ∈ a :: l, next' b = next b) :
    Chain next' a l := by
  induction l generalizing a with
  | nil => exact (heq a List.mem_cons_self).trans h
  | cons b l ih =>
    exact ⟨(heq a List.mem_cons_self).trans h.1,
      ih h.2 fun c hc => heq c (List.mem_cons_of_mem _ hc)⟩

/-- Change what lies behind the end of `l₁`. -/
lemma Chain.relink {l₂' : List α} (h : Chain next a (l₁ ++ l₂)) (hnd : (a :: l₁).Nodup)
    (heq : ∀ b ∈ a :: l₁, b ≠ final a l₁ → next' b = next b)
    (hnew : Chain next' (final a l₁) l₂') : Chain next' a (l₁ ++ l₂') := by
  induction l₁ generalizing a with
  | nil => exact hnew
  | cons b l₁ ih =>
    obtain ⟨hab, hrest⟩ := h
    have hne : a ≠ final b l₁ := fun hab => (List.nodup_cons.mp hnd).1 (hab ▸ final_mem b l₁)
    refine ⟨(heq a List.mem_cons_self hne).trans hab, ?_⟩
    exact ih hrest (List.nodup_cons.mp hnd).2
      (fun c hc hcn => heq c (List.mem_cons_of_mem _ hc) hcn) hnew

variable [DecidableEq α]

/-- An element is taken out of the middle. -/
lemma filter_ne_eq (h : (l₁ ++ x :: l₂).Nodup) : (l₁ ++ x :: l₂).filter (· ≠ x) = l₁ ++ l₂ := by
  obtain ⟨h₁, h₂⟩ := List.nodup_middle.mp h |> List.nodup_cons.mp
  have hall : ∀ b ∈ l₁ ++ l₂, b ≠ x := fun b hb hbx => h₁ (hbx ▸ hb)
  rw [List.filter_append, List.filter_cons_of_neg (by simp), ← List.filter_append]
  exact List.filter_eq_self.mpr fun b hb => by simpa using hall b hb

/-- An element that is not there is not taken out. -/
lemma filter_ne_of_notMem (h : x ∉ l) : l.filter (· ≠ x) = l :=
  List.filter_eq_self.mpr fun b hb => by simpa using fun hbx : b = x => h (hbx ▸ hb)

/-- One element less is left. -/
lemma length_filter_ne (h : l.Nodup) (hx : x ∈ l) : (l.filter (· ≠ x)).length + 1 = l.length := by
  obtain ⟨l₁, l₂, rfl⟩ := List.append_of_mem hx
  rw [filter_ne_eq h]
  simp [Nat.add_assoc]

/-- A new address `x` is linked in behind the end of `l₁`. -/
lemma Chain.insert (h : Chain next a (l₁ ++ l₂)) (hnd : (a :: (l₁ ++ l₂)).Nodup)
    (hx : x ∉ a :: (l₁ ++ l₂)) :
    Chain (Function.update (Function.update next x (next (final a l₁))) (final a l₁) (some x)) a
      (l₁ ++ x :: l₂) := by
  have hfin : final a l₁ ∈ a :: (l₁ ++ l₂) := by
    simpa using List.mem_append_left l₂ (final_mem a l₁)
  have hsplit : (a :: l₁).Nodup ∧ l₂.Nodup ∧ (a :: l₁).Disjoint l₂ := by
    simpa using List.nodup_append'.mp (List.cons_append ▸ hnd : ((a :: l₁) ++ l₂).Nodup)
  have hne : ∀ b ∈ a :: (l₁ ++ l₂), b ≠ x := fun b hb hbx => hx (hbx ▸ hb)
  refine h.relink hsplit.1 (fun b hb hbn => ?_) ⟨by simp, ?_⟩
  · have hb' : b ∈ a :: (l₁ ++ l₂) := by simpa using List.mem_append_left l₂ hb
    simp [hbn, hne b hb']
  · -- behind `x` comes what came behind the end of `l₁`
    have hx' : x ≠ final a l₁ := fun hxf => hx (hxf ▸ hfin)
    have hl₂ : ∀ b ∈ l₂, b ≠ x ∧ b ≠ final a l₁ := fun b hb =>
      ⟨hne b (List.mem_cons_of_mem _ (List.mem_append_right _ hb)),
        fun hbf => hsplit.2.2 (final_mem a l₁) (hbf ▸ hb)⟩
    have hb := h.behind
    cases l₂ with
    | nil => simpa [Chain, hx'] using hb
    | cons b l₂ =>
      refine ⟨by simpa [hx'] using hb.1, hb.2.congr fun c hc => ?_⟩
      simp [hl₂ c hc]

/-- The address `x` behind the end of `l₁` is taken out. -/
lemma Chain.remove (h : Chain next a (l₁ ++ x :: l₂)) (hnd : (a :: (l₁ ++ x :: l₂)).Nodup) :
    Chain (Function.update next (final a l₁) (next x)) a (l₁ ++ l₂) := by
  have hsplit : (a :: l₁).Nodup ∧ (x :: l₂).Nodup ∧ (a :: l₁).Disjoint (x :: l₂) := by
    simpa using List.nodup_append'.mp (List.cons_append ▸ hnd : ((a :: l₁) ++ x :: l₂).Nodup)
  refine h.relink hsplit.1 (fun b _ hbn => Function.update_of_ne hbn _ _) ?_
  have hb := h.behind.2
  have hne : ∀ b ∈ l₂, b ≠ final a l₁ := fun b hbl hbf =>
    hsplit.2.2 (final_mem a l₁) (hbf ▸ List.mem_cons_of_mem x hbl)
  cases l₂ with
  | nil => simpa [Chain] using hb
  | cons b l₂ =>
    refine ⟨by simpa using hb.1, hb.2.congr fun c hc => ?_⟩
    exact Function.update_of_ne (hne c hc) _ _

end Chains
