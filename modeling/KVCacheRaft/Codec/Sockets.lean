import Mathlib.Tactic.Common
import Mathlib.Data.List.Basic

/-!
# Sockets

What arrives at a socket comes in parts of any size. A call of `recv` returns a part that has arrived,
or as much of it as was asked for, and a loop over `recv` reads what it needs however the stream is cut.
-/

namespace Sockets

variable {β : Type*}

/-- What a call of `recv` finds. -/
inductive Arrival (β : Type*) where
  /-- bytes; none of them is the end of the stream -/
  | part (bytes : List β)
  /-- `EINTR` -/
  | interrupted
  /-- another error -/
  | failed
deriving DecidableEq

/-- All that arrives at a socket, in this order, up to the end of the stream. -/
abbrev Socket (β : Type*) := List (Arrival β)

/-- The bytes that can be read from a socket. -/
def stream : Socket β → List β
  | [] => []
  | .part [] :: _ => []
  | .part (b :: bytes) :: rest => b :: bytes ++ stream rest
  | .interrupted :: rest => stream rest
  | .failed :: _ => []

/-- Read `size` bytes with any number of calls of `recv`, and again when one is interrupted. -/
def recvExact : Socket β → ℕ → Option (List β × Socket β)
  | socket, 0 => some ([], socket)
  | [], _ + 1 => none
  | .part [] :: _, _ + 1 => none
  | .part (b :: bytes) :: rest, size + 1 =>
    if size < bytes.length then
      some (b :: bytes.take size, .part (bytes.drop size) :: rest)
    else (recvExact rest (size - bytes.length)).map fun (read, rest) => (b :: bytes ++ read, rest)
  | .interrupted :: rest, size + 1 => recvExact rest (size + 1)
  | .failed :: _, _ + 1 => none

/-- What is at the front of the stream is read, in whatever parts it arrives. -/
theorem recvExact_append {socket : Socket β} (bytes : List β) {behind : List β}
    (h : stream socket = bytes ++ behind) :
    ∃ rest, recvExact socket bytes.length = some (bytes, rest) ∧ stream rest = behind := by
  induction socket generalizing bytes with
  | nil =>
    obtain ⟨rfl, rfl⟩ := List.append_eq_nil_iff.mp h.symm
    exact ⟨[], rfl, rfl⟩
  | cons arrival socket ih =>
    cases bytes with
    | nil => exact ⟨arrival :: socket, by rw [List.length_nil, recvExact], h⟩
    | cons a bytes =>
      rw [List.length_cons, List.cons_append] at *
      cases arrival with
      | part chunk =>
        cases chunk with
        | nil => cases h
        | cons b chunk =>
          rw [stream, List.cons_append] at h
          obtain ⟨rfl, htail⟩ := List.cons.inj h
          rw [recvExact]
          split_ifs with hlt
          · -- the part has more than was asked for
            obtain ⟨more, rfl, -⟩ | ⟨more, rfl, rfl⟩ := List.append_eq_append_iff.mp htail
            · rw [List.length_append] at hlt
              omega
            · refine ⟨.part more :: socket, by rw [List.take_left, List.drop_left], ?_⟩
              cases more with
              | nil =>
                rw [List.append_nil] at hlt
                omega
              | cons c more => rfl
          · obtain ⟨more, rfl, hmore⟩ | ⟨more, rfl, rfl⟩ := List.append_eq_append_iff.mp htail
            · obtain ⟨rest, hread, hrest⟩ := ih more hmore
              refine ⟨rest, ?_, hrest⟩
              rw [List.length_append, Nat.add_sub_cancel_left, hread]
              rfl
            · cases more with
              | nil =>
                obtain ⟨rest, hread, hrest⟩ := ih [] rfl
                refine ⟨rest, ?_, hrest⟩
                rw [List.append_nil, Nat.sub_self, ← List.length_nil, hread]
                simp
              | cons c more =>
                rw [List.length_append, List.length_cons] at hlt
                omega
      | interrupted =>
        obtain ⟨rest, hread, hrest⟩ := ih (a :: bytes) h
        exact ⟨rest, by rw [recvExact, ← List.length_cons, hread], hrest⟩
      | failed => cases h

/-- What is read was at the front of the stream. -/
theorem recvExact_eq_some {socket rest : Socket β} {size : ℕ} {read : List β}
    (h : recvExact socket size = some (read, rest)) :
    read.length = size ∧ stream socket = read ++ stream rest := by
  induction socket generalizing size read with
  | nil =>
    cases size with
    | zero =>
      obtain ⟨rfl, rfl⟩ := Prod.mk.inj (Option.some.inj h)
      exact ⟨rfl, rfl⟩
    | succ size => cases h
  | cons arrival socket ih =>
    cases size with
    | zero =>
      rw [recvExact] at h
      obtain ⟨rfl, rfl⟩ := Prod.mk.inj (Option.some.inj h)
      exact ⟨rfl, rfl⟩
    | succ size =>
      cases arrival with
      | part chunk =>
        cases chunk with
        | nil => cases h
        | cons b chunk =>
          rw [recvExact] at h
          split_ifs at h with hlt
          · -- a part is left of the chunk
            obtain ⟨rfl, rfl⟩ := Prod.mk.inj (Option.some.inj h)
            refine ⟨by rw [List.length_cons, List.length_take]; omega, ?_⟩
            cases hleft : chunk.drop size with
            | nil =>
              have hlen := congrArg List.length hleft
              rw [List.length_drop, List.length_nil] at hlen
              omega
            | cons c left =>
              rw [stream, stream, ← hleft, ← List.append_assoc]
              simp only [List.cons_append, List.take_append_drop]
          · obtain ⟨⟨more, rest'⟩, hread, heq⟩ := Option.map_eq_some_iff.mp h
            obtain ⟨rfl, rfl⟩ := Prod.mk.inj heq
            obtain ⟨hlen, hstream⟩ := ih hread
            refine ⟨by rw [List.cons_append, List.length_cons, List.length_append]; omega, ?_⟩
            rw [stream, hstream]
            simp only [List.cons_append, List.append_assoc]
      | interrupted => exact ih h
      | failed => cases h

end Sockets
