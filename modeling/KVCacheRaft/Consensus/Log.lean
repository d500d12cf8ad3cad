import Mathlib.Tactic.Common
import Mathlib.Data.List.Infix
import Mathlib.Order.Basic
import Mathlib.Data.Nat.Basic

/-!
# Logs as lists of terms

A replicated log is a list of entries, each of which carries a term. This file compares such logs
by their last entry (`UpToDate`, the order in which votes are granted) and collects the prefix
facts that the protocol of `Consensus.Protocol` is argued with. Entries are of an arbitrary type
`α`; only `term : α → ℕ` is known about them.
-/

namespace Consensus

variable {α : Type*} {term : α → ℕ}

/-- The term of the last entry of a log, `0` for the empty log. -/
def lastTerm (term : α → ℕ) (l : List α) : ℕ :=
  (l.getLast?.map term).getD 0

@[simp] lemma lastTerm_nil : lastTerm term [] = 0 := rfl

@[simp] lemma lastTerm_concat (l : List α) (e : α) : lastTerm term (l ++ [e]) = term e := by
  simp [lastTerm]

/-- `l` is at least as up to date as `m`: a larger last term, or the same one and no fewer entries. -/
def UpToDate (term : α → ℕ) (l m : List α) : Prop :=
  lastTerm term m < lastTerm term l ∨ lastTerm term l = lastTerm term m ∧ m.length ≤ l.length

/-- A log is up to date with itself. -/
lemma UpToDate.refl (l : List α) : UpToDate term l l := .inr ⟨rfl, le_rfl⟩

/-- `p` ends in an entry of term `T`. -/
def EndsIn (term : α → ℕ) (T : ℕ) (p : List α) : Prop :=
  ∃ q e, p = q ++ [e] ∧ term e = T

/-- A log with a last entry is not empty. -/
lemma EndsIn.length_pos {T : ℕ} {p : List α} (h : EndsIn term T p) : 0 < p.length := by
  obtain ⟨r, e, rfl, -⟩ := h
  simp

/-- The last entry is in the log. -/
lemma EndsIn.mem {T : ℕ} {p : List α} (h : EndsIn term T p) : ∃ e ∈ p, term e = T := by
  obtain ⟨r, e, rfl, he⟩ := h
  exact ⟨e, by simp, he⟩

/-- What a node makes of its log `l` when it is to hold the prefix `p` of a leader's log: it keeps
a log that has the prefix already and takes over `p` otherwise. -/
def Merged (l p l' : List α) : Prop :=
  p <+: l ∧ l' = l ∨ ¬ p <+: l ∧ l' = p

/-- A nonempty log ends in a single entry. -/
lemma exists_concat {l : List α} (h : l ≠ []) : ∃ p e, l = p ++ [e] :=
  ⟨l.dropLast, l.getLast h, (List.dropLast_append_getLast h).symm⟩

/-- Two prefixes of one log are ordered by their lengths. -/
lemma prefix_of_le {p q l : List α} (hp : p <+: l) (hq : q <+: l) (h : p.length ≤ q.length) :
    p <+: q :=
  List.prefix_of_prefix_length_le hp hq h

/-- Two prefixes of one log of the same length are the same. -/
lemma prefix_eq {p q l : List α} (hp : p <+: l) (hq : q <+: l) (h : p.length = q.length) :
    p = q :=
  (prefix_of_le hp hq h.le).eq_of_length h

/-- The member at the end of a prefix is a member of the log. -/
lemma mem_of_concat_prefix {p l : List α} {e : α} (h : p ++ [e] <+: l) : e ∈ l :=
  h.subset (by simp)

/-- Every member of a log ends one of its prefixes. -/
lemma exists_concat_prefix {l : List α} {e : α} (h : e ∈ l) : ∃ p, p ++ [e] <+: l := by
  obtain ⟨p, q, rfl⟩ := List.append_of_mem h
  exact ⟨p, q, by simp⟩

end Consensus
