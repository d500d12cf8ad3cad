import Mathlib.Tactic.Common
import Mathlib.Data.List.Infix
import Mathlib.Data.Nat.Init

/-!
# Codecs that decode in front of anything

A codec writes values as bytes and reads one back off the front of its input, whatever follows.
Such codecs compose: pairs, lists and fields are read one after the other.
-/

namespace Codecs

/-- A format for the values of `α` that can be followed by anything. -/
structure Codec (α : Type) where
  encode : α → List UInt8
  decode : List UInt8 → Option (α × List UInt8)
  decode_encode : ∀ a rest, decode (encode a ++ rest) = some (a, rest)

variable {α β : Type}

namespace Codec

/-- What is encoded alone is decoded with nothing left. -/
lemma decode_encode_nil (c : Codec α) (a : α) : c.decode (c.encode a) = some (a, []) := by
  simpa using c.decode_encode a []

/-- Fixed bytes, such as a header. -/
def const (bs : List UInt8) : Codec Unit where
  encode _ := bs
  decode input := if bs <+: input then some ((), input.drop bs.length) else none
  decode_encode _ rest := by simp

/-- One value after another. -/
def pair (c : Codec α) (d : Codec β) : Codec (α × β) where
  encode x := c.encode x.1 ++ d.encode x.2
  decode input := (c.decode input).bind fun (a, input) =>
    (d.decode input).map fun (b, rest) => ((a, b), rest)
  decode_encode x rest := by simp [List.append_assoc, c.decode_encode, d.decode_encode]

/-- The values of `β` by way of those of `α`. -/
def via (c : Codec α) (f : α → Option β) (g : β → α) (h : ∀ b, f (g b) = some b) : Codec β where
  encode b := c.encode (g b)
  decode input := (c.decode input).bind fun (a, rest) => (f a).map fun b => (b, rest)
  decode_encode b rest := by simp [c.decode_encode, h]

/-! ### Numbers -/

/-- The decimal digits of a number below `fuel`, in ASCII. -/
def digits : ℕ → ℕ → List UInt8
  | 0, _ => []
  | fuel + 1, n =>
    if n < 10 then [UInt8.ofNat (48 + n)]
    else digits fuel (n / 10) ++ [UInt8.ofNat (48 + n % 10)]

/-- Read digits up to a blank. -/
def readDigits (acc : ℕ) : List UInt8 → Option (ℕ × List UInt8)
  | [] => none
  | b :: rest =>
    if b = 32 then some (acc, rest)
    else if 48 ≤ b.toNat ∧ b.toNat < 58 then readDigits (10 * acc + (b.toNat - 48)) rest
    else none

/-- The next digit is read. -/
lemma readDigits_digit (acc : ℕ) {d : ℕ} (hd : d < 10) (rest : List UInt8) :
    readDigits acc (UInt8.ofNat (48 + d) :: rest) = readDigits (10 * acc + d) rest := by
  have htoNat : (UInt8.ofNat (48 + d)).toNat = 48 + d := by
    rw [UInt8.toNat_ofNat']
    omega
  have hne : UInt8.ofNat (48 + d) ≠ 32 := by
    intro heq
    have h32 := congrArg UInt8.toNat heq
    rw [htoNat] at h32
    have : (32 : UInt8).toNat = 32 := rfl
    omega
  rw [readDigits, if_neg hne, htoNat, if_pos (by omega), Nat.add_sub_cancel_left]

/-- The digits of a number are read. -/
lemma readDigits_digits {fuel n : ℕ} (hn : n < fuel) (rest : List UInt8) :
    readDigits 0 (digits fuel n ++ rest) = readDigits n rest := by
  induction fuel generalizing n rest with
  | zero => omega
  | succ fuel ih =>
    rw [digits]
    split_ifs with h10
    · rw [List.singleton_append, readDigits_digit 0 h10]
      simp
    · rw [List.append_assoc, ih (by omega), List.singleton_append,
        readDigits_digit _ (Nat.mod_lt n (by omega)), Nat.div_add_mod]

/-- A number in decimal, and a blank. -/
def nat : Codec ℕ where
  encode n := digits (n + 1) n ++ [32]
  decode := readDigits 0
  decode_encode n rest := by
    rw [List.append_assoc, readDigits_digits (Nat.lt_succ_self n), List.singleton_append,
      readDigits, if_pos rfl]

/-- A number begins with a digit. -/
lemma digits_head {fuel n : ℕ} (hn : n < fuel) :
    ∃ b rest, digits fuel n = b :: rest ∧ b ≠ 45 := by
  induction fuel generalizing n with
  | zero => omega
  | succ fuel ih =>
    rw [digits]
    split_ifs with h10
    · refine ⟨_, [], rfl, fun heq => ?_⟩
      have h45 := congrArg UInt8.toNat heq
      rw [UInt8.toNat_ofNat'] at h45
      have : (45 : UInt8).toNat = 45 := rfl
      omega
    · obtain ⟨b, rest, hb, hne⟩ := ih (n := n / 10) (by omega)
      exact ⟨b, rest ++ [_], by rw [hb]; rfl, hne⟩

/-- An integer in decimal, with a `-` in front when it is negative. -/
def int : Codec ℤ where
  encode
    | .ofNat n => nat.encode n
    | .negSucc n => 45 :: nat.encode (n + 1)
  decode
    | 45 :: rest => (nat.decode rest).map fun (n, rest) => (-(n : ℤ), rest)
    | input => (nat.decode input).map fun (n, rest) => ((n : ℤ), rest)
  decode_encode z rest := by
    cases z with
    | ofNat n =>
      obtain ⟨b, tail, hb, hne⟩ := digits_head (Nat.lt_succ_self n)
      have hn := nat.decode_encode n rest
      simp only [nat, hb, List.cons_append] at hn ⊢
      split
      · next heq => exact absurd (List.cons.inj heq).1 hne
      · rw [hn]
        rfl
    | negSucc n =>
      simp only [List.cons_append]
      rw [nat.decode_encode]
      rfl

/-! ### Strings and lists -/

/-- A string: its length, its bytes and a blank. -/
def bytes : Codec (List UInt8) where
  encode bs := nat.encode bs.length ++ (bs ++ [32])
  decode input := (nat.decode input).bind fun (n, input) =>
    if (input.drop n).head? = some 32 then some (input.take n, input.drop (n + 1)) else none
  decode_encode bs rest := by
    rw [List.append_assoc, nat.decode_encode, List.append_assoc]
    simp [List.drop_append]

/-- The first `n` values of the input. -/
def readMany (c : Codec α) : ℕ → List UInt8 → Option (List α × List UInt8)
  | 0, input => some ([], input)
  | n + 1, input => (c.decode input).bind fun (a, input) =>
    (c.readMany n input).map fun (l, rest) => (a :: l, rest)

/-- As many values as were encoded are read. -/
lemma readMany_encode (c : Codec α) (l : List α) (rest : List UInt8) :
    c.readMany l.length ((l.map c.encode).flatten ++ rest) = some (l, rest) := by
  induction l with
  | nil => rfl
  | cons a l ih => simp [readMany, List.append_assoc, c.decode_encode, ih]

/-- The values of a list behind their number. -/
def list (c : Codec α) : Codec (List α) where
  encode l := nat.encode l.length ++ (l.map c.encode).flatten
  decode input := (nat.decode input).bind fun (n, input) => c.readMany n input
  decode_encode l rest := by
    rw [List.append_assoc, nat.decode_encode]
    exact c.readMany_encode l rest

end Codec

end Codecs
