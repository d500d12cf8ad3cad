import KVCacheRaft.Consensus.Log
import Mathlib.Logic.Function.Basic
import Mathlib.Data.Set.Basic

/-!
# A replicated-log protocol with terms

The protocol behind leader-based log replication, over an arbitrary type `N` of nodes and `α` of
entries. A node has a current term and a log; a leader of a term is elected by a quorum, extends
its own log, and the other nodes copy prefixes of it. Besides what nodes hold, a state keeps the
history the safety argument needs: who was elected in each term, the log it was elected with
(`first`) and what that log has grown to (`full`), the votes with the log the voter held, and how
much of the leader's log each node has confirmed in each term (`ack`).

Nothing is said about messages: an implementation sends and delays them as it likes, as long as
every change it makes to a node is one of the steps below.
-/

namespace Consensus
open Function

variable {N α : Type*}

/-- A family of quorums, any two of which meet. -/
structure QuorumSystem (N : Type*) where
  IsQuorum : Set N → Prop
  inter : ∀ {Q R : Set N}, IsQuorum Q → IsQuorum R → ∃ n, n ∈ Q ∧ n ∈ R

/-- A state of the protocol with its history. -/
structure State (N α : Type*) where
  /-- the current term of a node -/
  cur : N → ℕ
  /-- the log of a node -/
  log : N → List α
  /-- the leader elected in a term -/
  lead : ℕ → Option N
  /-- the log with which the leader of a term was elected -/
  first : ℕ → List α
  /-- the log of the leader of a term, as far as it has grown -/
  full : ℕ → List α
  /-- how much of the leader's log a node has confirmed in a term -/
  ack : N → ℕ → ℕ
  /-- the vote of a node in a term, with the log it held when it voted -/
  ballot : N → ℕ → Option (N × List α)

/-- Every node in term `0` with an empty log. -/
def State.initial : State N α where
  cur _ := 0
  log _ := []
  lead _ := none
  first _ := []
  full _ := []
  ack _ _ := 0
  ballot _ _ := none

namespace State

variable [DecidableEq N]

/-- Replace the log of a node. -/
def setLog (s : State N α) (n : N) (l : List α) : State N α :=
  { s with log := update s.log n l }

/-- Confirm the first `k` entries of the leader's log of the current term of `n`. -/
def confirm (s : State N α) (n : N) (k : ℕ) : State N α :=
  { s with ack := update s.ack n (update (s.ack n) (s.cur n) (max (s.ack n (s.cur n)) k)) }

/-- Move a node to term `T`. -/
def advance (s : State N α) (n : N) (T : ℕ) : State N α :=
  { s with cur := update s.cur n T }

/-- Record a vote of `n` for `c` in the current term of `n`. -/
def vote (s : State N α) (n c : N) : State N α :=
  { s with ballot := update s.ballot n (update (s.ballot n) (s.cur n) (some (c, s.log n))) }

/-- Make `c` the leader of its current term. -/
def elect (s : State N α) (c : N) : State N α :=
  { s with
    lead := update s.lead (s.cur c) (some c)
    first := update s.first (s.cur c) (s.log c)
    full := update s.full (s.cur c) (s.log c) }

/-- Let the leader `c` of its current term extend its log by `e`. -/
def extend (s : State N α) (c : N) (e : α) : State N α :=
  { s with
    log := update s.log c (s.log c ++ [e])
    full := update s.full (s.cur c) (s.full (s.cur c) ++ [e]) }

end State

/-- A quorum has confirmed the prefix `p` of the log of the leader of term `T`, and the last entry
of `p` was made in that term. -/
def Chosen (q : QuorumSystem N) (term : α → ℕ) (s : State N α) (T : ℕ) (p : List α) : Prop :=
  p <+: s.full T ∧ EndsIn term T p ∧ ∃ Q, q.IsQuorum Q ∧ ∀ n ∈ Q, p.length ≤ s.ack n T

/-- `p` lies within something chosen in a term up to `U`. -/
def Committed (q : QuorumSystem N) (term : α → ℕ) (s : State N α) (U : ℕ) (p : List α) : Prop :=
  ∃ T c, T ≤ U ∧ Chosen q term s T c ∧ p <+: c

open State

variable [DecidableEq N]

/-- The steps of the protocol. -/
inductive Step (q : QuorumSystem N) (term : α → ℕ) : State N α → State N α → Prop where
  | advance {s : State N α} {n : N} {T : ℕ} :
    s.cur n ≤ T →
    Step q term s (s.advance n T)
  | vote {s : State N α} {n c : N} :
    s.ballot n (s.cur n) = none →
    Step q term s (s.vote n c)
  | elect {s : State N α} {c : N} {Q : Set N} :
    s.lead (s.cur c) = none →
    q.IsQuorum Q →
    (∀ n ∈ Q, ∃ l, s.ballot n (s.cur c) = some (c, l) ∧ UpToDate term (s.log c) l) →
    Step q term s ((s.elect c).confirm c (s.log c).length)
  | extend {s : State N α} {c : N} {e : α} :
    s.lead (s.cur c) = some c →
    term e = s.cur c →
    Step q term s ((s.extend c e).confirm c ((s.log c).length + 1))
  | accept {s : State N α} {n : N} {p l : List α} :
    s.lead (s.cur n) ≠ none →
    p <+: s.full (s.cur n) →
    Merged (s.log n) p l →
    Step q term s ((s.setLog n l).confirm n p.length)
  | install {s : State N α} {n : N} {p : List α} :
    Committed q term s (s.cur n) p →
    (s.log n).length ≤ p.length →
    Step q term s (s.setLog n p)

/-- The states a protocol run reaches from the initial one. -/
inductive Reachable (q : QuorumSystem N) (term : α → ℕ) : State N α → Prop where
  | initial : Reachable q term State.initial
  | step {s s' : State N α} : Reachable q term s → Step q term s s' → Reachable q term s'

end Consensus
