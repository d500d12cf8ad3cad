import Mathlib.Data.Char
import Mathlib.Data.List.TakeWhile
import Mathlib.Data.Nat.Digits.Defs

/-!
# Numbers in text

Numbers as `std::to_string` writes them and as `atoi` and `std::stoull` read them back, which skip
white space before the number, accept a sign, and stop at the first character that is no digit. Text is
a list of characters.
-/

namespace Codecs

/-- `std::to_string`. -/
def toText (n : ℤ) : List Char :=
  if n < 0 then '-' :: Nat.toDigits 10 n.natAbs else Nat.toDigits 10 n.natAbs

/-- `std::isspace`. -/
def isSpace (c : Char) : Bool := c = ' ' || (9 ≤ c.toNat && c.toNat ≤ 13)

/-- The digits at the beginning. -/
def readDigits (s : List Char) : List Char := s.takeWhile Char.isDigit

/-- The digits behind a sign, if there is one, and whether the sign is a minus. -/
def readSign : List Char → Bool × List Char
  | '-' :: s => (true, readDigits s)
  | '+' :: s => (false, readDigits s)
  | s => (false, readDigits s)

/-- `atoi`. -/
def atoi (s : List Char) : ℤ :=
  let (minus, digits) := readSign (s.dropWhile isSpace)
  let n : ℤ := Nat.ofDigitChars 10 digits 0
  if minus then -n else n

/-- `std::stoull`; none when it throws. A number behind a minus is subtracted from zero. -/
def stoull (s : List Char) : Option ℕ :=
  let (minus, digits) := readSign (s.dropWhile isSpace)
  let n := Nat.ofDigitChars 10 digits 0
  if digits = [] ∨ 2 ^ 64 ≤ n then none
  else some (if minus then (2 ^ 64 - n) % 2 ^ 64 else n)

variable {n : ℕ} {r : List Char}

/-- The digits of a number are digits. -/
lemma isDigit_of_mem {c : Char} (hc : c ∈ Nat.toDigits 10 n) : c.isDigit = true :=
  Nat.isDigit_of_mem_toDigits (by decide) (by decide) hc

/-- A number begins with a digit. -/
lemma exists_toDigits (n : ℕ) : ∃ c s, Nat.toDigits 10 n = c :: s ∧ c.isDigit = true := by
  cases hs : Nat.toDigits 10 n with
  | nil => exact absurd hs Nat.toDigits_ne_nil
  | cons c s => exact ⟨c, s, rfl, isDigit_of_mem (hs ▸ List.mem_cons_self)⟩

/-- A digit is no space. -/
lemma isSpace_eq_false {c : Char} (h : c.isDigit = true) : isSpace c = false := by
  have hval : 48 ≤ c.toNat ∧ c.toNat ≤ 57 := by
    simpa [Char.isDigit, UInt32.le_iff_toNat_le] using h
  have hspace : c ≠ ' ' := by
    rintro rfl
    exact absurd hval (by decide)
  simp [isSpace, hspace]
  omega

/-- The digits in front are read. -/
lemma readDigits_append (hrest : ∀ c ∈ r.head?, c.isDigit = false) :
    readDigits (Nat.toDigits 10 n ++ r) = Nat.toDigits 10 n := by
  rw [readDigits, List.takeWhile_append_of_pos fun _ hc => isDigit_of_mem hc]
  cases r with
  | nil => exact List.append_nil _
  | cons c r => rw [List.takeWhile_cons_of_neg (by simp [hrest c rfl]), List.append_nil]

/-- A number has no sign. -/
lemma readSign_append (hrest : ∀ c ∈ r.head?, c.isDigit = false) :
    readSign ((Nat.toDigits 10 n ++ r).dropWhile isSpace) = (false, Nat.toDigits 10 n) := by
  have hread := readDigits_append (n := n) hrest
  obtain ⟨c, s, hs, hc⟩ := exists_toDigits n
  rw [hs] at hread ⊢
  rw [List.cons_append, List.dropWhile_cons_of_neg (by simp [isSpace_eq_false hc])]
  have hminus : c ≠ '-' := by
    rintro rfl
    exact absurd hc (by decide)
  have hplus : c ≠ '+' := by
    rintro rfl
    exact absurd hc (by decide)
  rw [readSign, ← List.cons_append, hread]
  · intro s' heq
    exact hminus (List.cons.inj heq).1
  · intro s' heq
    exact hplus (List.cons.inj heq).1

/-- `stoull` reads back what `to_string` has written. -/
theorem stoull_append (hn : n < 2 ^ 64) (hrest : ∀ c ∈ r.head?, c.isDigit = false) :
    stoull (Nat.toDigits 10 n ++ r) = some n := by
  rw [stoull, readSign_append hrest]
  simp [Nat.toDigits_ne_nil, Nat.ofDigitChars_ten_toDigits]
  omega

/-- `atoi` reads back what `to_string` has written. -/
theorem atoi_toText (n : ℤ) (hrest : ∀ c ∈ r.head?, c.isDigit = false) :
    atoi (toText n ++ r) = n := by
  rw [toText]
  split_ifs with hn
  · have hread := readDigits_append (n := n.natAbs) hrest
    have hsign : readSign (('-' :: Nat.toDigits 10 n.natAbs ++ r).dropWhile isSpace) =
        (true, Nat.toDigits 10 n.natAbs) := by
      rw [List.cons_append, List.dropWhile_cons_of_neg (by decide), readSign, hread]
    rw [atoi, hsign]
    simp only [Nat.ofDigitChars_ten_toDigits, if_true]
    omega
  · rw [atoi, readSign_append hrest]
    simp only [Nat.ofDigitChars_ten_toDigits, Bool.false_eq_true, if_false]
    omega

/-- Different numbers are written differently. -/
lemma toDigits_inj {m : ℕ} (h : Nat.toDigits 10 m = Nat.toDigits 10 n) : m = n := by
  rw [← Nat.ofDigitChars_ten_toDigits (n := m), h, Nat.ofDigitChars_ten_toDigits]

end Codecs
