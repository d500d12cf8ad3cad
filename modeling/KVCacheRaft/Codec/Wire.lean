import Mathlib.Tactic.Common
import Mathlib.Data.List.Infix
import Mathlib.Data.Nat.Init
import Mathlib.Algebra.Order.Ring.Nat

/-!
# The wire format of protocol buffers

Varints, fields and the messages that are sequences of them. A message is read field by field up to
the end of its bytes. Groups are not written; one that is read is passed over.
-/

namespace Codecs

/-! ### Numbers of a fixed size -/

/-- The `k` low bytes of a number, the lowest first. -/
def littleEndian : ℕ → ℕ → List UInt8
  | 0, _ => []
  | k + 1, n => UInt8.ofNat (n % 256) :: littleEndian k (n / 256)

/-- The number with the bytes, the lowest first. -/
def ofLittleEndian : List UInt8 → ℕ
  | [] => 0
  | b :: rest => b.toNat + 256 * ofLittleEndian rest

@[simp]
lemma length_littleEndian (k n : ℕ) : (littleEndian k n).length = k := by
  induction k generalizing n with
  | zero => rfl
  | succ k ih => rw [littleEndian, List.length_cons, ih]

/-- A number that fits comes back from its bytes. -/
lemma ofLittleEndian_littleEndian {k n : ℕ} (h : n < 256 ^ k) :
    ofLittleEndian (littleEndian k n) = n := by
  induction k generalizing n with
  | zero =>
    rw [Nat.pow_zero] at h
    rw [littleEndian, ofLittleEndian]
    omega
  | succ k ih =>
    have hbyte : (UInt8.ofNat (n % 256)).toNat = n % 256 := by
      rw [UInt8.toNat_ofNat']
      omega
    have hrest : n / 256 < 256 ^ k := by
      rw [Nat.pow_succ] at h
      exact Nat.div_lt_of_lt_mul (by rw [Nat.mul_comm]; exact h)
    rw [littleEndian, ofLittleEndian, hbyte, ih hrest, Nat.mod_add_div]

/-! ### Varints -/

/-- A number below `2 ^ (7 * k)`, seven bits a byte. -/
def varint : ℕ → ℕ → List UInt8
  | 0, _ => []
  | k + 1, n =>
    if n < 128 then [UInt8.ofNat n] else UInt8.ofNat (128 + n % 128) :: varint k (n / 128)

/-- Read a varint of at most `k` bytes. -/
def readVarint : ℕ → List UInt8 → Option (ℕ × List UInt8)
  | 0, _ => none
  | _ + 1, [] => none
  | k + 1, b :: rest =>
    if b.toNat < 128 then some (b.toNat, rest)
    else (readVarint k rest).map fun (n, rest) => (b.toNat - 128 + 128 * n, rest)

/-- A number that fits comes back from its varint. -/
lemma readVarint_varint {k n : ℕ} (h : n < 128 ^ k) (hk : k ≠ 0) (rest : List UInt8) :
    readVarint k (varint k n ++ rest) = some (n, rest) := by
  induction k generalizing n with
  | zero => exact absurd rfl hk
  | succ k ih =>
    rw [varint]
    split_ifs with hn
    · have hbyte : (UInt8.ofNat n).toNat = n := by
        rw [UInt8.toNat_ofNat']
        omega
      rw [List.singleton_append, readVarint, hbyte, if_pos hn]
    · have hbyte : (UInt8.ofNat (128 + n % 128)).toNat = 128 + n % 128 := by
        rw [UInt8.toNat_ofNat']
        omega
      have hrest : n / 128 < 128 ^ k := by
        rw [Nat.pow_succ] at h
        exact Nat.div_lt_of_lt_mul (by rw [Nat.mul_comm]; exact h)
      have hk' : k ≠ 0 := by
        rintro rfl
        rw [Nat.zero_add, Nat.pow_one] at h
        omega
      rw [List.cons_append, readVarint, hbyte, if_neg (by omega), ih hrest hk']
      show some (128 + n % 128 - 128 + 128 * (n / 128), rest) = some (n, rest)
      rw [Nat.add_sub_cancel_left, Nat.mod_add_div]

/-- A varint is not empty. -/
lemma varint_ne_nil {k : ℕ} (hk : k ≠ 0) (n : ℕ) : varint k n ≠ [] := by
  cases k with
  | zero => exact absurd rfl hk
  | succ k =>
    rw [varint]
    split_ifs <;> exact List.cons_ne_nil _ _

/-- A varint has at most `k` bytes. -/
lemma length_varint_le (k n : ℕ) : (varint k n).length ≤ k := by
  induction k generalizing n with
  | zero => exact Nat.le_refl 0
  | succ k ih =>
    rw [varint]
    split_ifs
    · exact Nat.le_add_left 1 k
    · rw [List.length_cons]
      exact Nat.succ_le_succ (ih (n / 128))

/-- A reader of varints takes at least one byte. -/
lemma length_of_readVarint {k n : ℕ} {input rest : List UInt8}
    (h : readVarint k input = some (n, rest)) : rest.length < input.length := by
  induction k generalizing input n with
  | zero => cases h
  | succ k ih =>
    cases input with
    | nil => cases h
    | cons b input =>
      rw [readVarint] at h
      split_ifs at h
      · obtain ⟨-, rfl⟩ := Prod.mk.inj (Option.some.inj h)
        exact Nat.lt_succ_self _
      · obtain ⟨⟨m, rest'⟩, hr, heq⟩ := Option.map_eq_some_iff.mp h
        obtain ⟨-, rfl⟩ := Prod.mk.inj heq
        exact Nat.lt_succ_of_lt (ih hr)

/-! ### Fields -/

/-- What a field carries. -/
inductive WireValue where
  | varint (n : ℕ)
  | fixed64 (bs : List UInt8)
  | bytes (bs : List UInt8)
  /-- The fields of a group, with the tag that ends it. -/
  | group (bs : List UInt8)
  | fixed32 (bs : List UInt8)
deriving DecidableEq

/-- A field of a message. -/
structure Field where
  number : ℕ
  value : WireValue
deriving DecidableEq

/-- Varints are numbers of 64 bits, in up to ten bytes; lengths and tags are numbers of 32 bits. There
are no groups in the messages that are written. -/
def Field.Fits (f : Field) : Prop :=
  0 < f.number ∧ f.number < 2 ^ 29 ∧
    match f.value with
    | .varint n => n < 2 ^ 64
    | .fixed64 bs => bs.length = 8
    | .bytes bs => bs.length < 2 ^ 31
    | .group _ => False
    | .fixed32 bs => bs.length = 4

def WireValue.wireType : WireValue → ℕ
  | .varint _ => 0
  | .fixed64 _ => 1
  | .bytes _ => 2
  | .group _ => 3
  | .fixed32 _ => 5

def WireValue.encode : WireValue → List UInt8
  | .varint n => Codecs.varint 10 n
  | .fixed64 bs => bs
  | .bytes bs => Codecs.varint 5 bs.length ++ bs
  | .group bs => bs
  | .fixed32 bs => bs

def Field.encode (f : Field) : List UInt8 :=
  Codecs.varint 5 (8 * f.number + f.value.wireType) ++ f.value.encode

/-- The first `n` bytes. -/
def readBytes (n : ℕ) (input : List UInt8) : Option (List UInt8 × List UInt8) :=
  if n ≤ input.length then some (input.take n, input.drop n) else none

/-- Bytes that are in front are read. -/
lemma readBytes_append (bs rest : List UInt8) :
    readBytes bs.length (bs ++ rest) = some (bs, rest) := by
  rw [readBytes, if_pos (by rw [List.length_append]; exact Nat.le_add_right _ _),
    List.take_left, List.drop_left]

/-- A tag is a number of 32 bits. -/
def readTag (input : List UInt8) : Option (ℕ × List UInt8) :=
  (readVarint 5 input).map fun (tag, rest) => (tag % 2 ^ 32, rest)

/-- The value of a field that is no group; numbers above 64 bits lose their high bits. -/
def readScalar (wireType : ℕ) (input : List UInt8) : Option (WireValue × List UInt8) :=
  match wireType with
  | 0 => (readVarint 10 input).map fun (n, rest) => (.varint (n % 2 ^ 64), rest)
  | 1 => (readBytes 8 input).map fun (bs, rest) => (.fixed64 bs, rest)
  | 2 => (readVarint 5 input).bind fun (n, rest) =>
    (readBytes n rest).map fun (bs, rest) => (.bytes bs, rest)
  | 5 => (readBytes 4 input).map fun (bs, rest) => (.fixed32 bs, rest)
  | _ => none

/-- How deep messages and groups may be inside each other. -/
def kRecursionLimit : ℕ := 100

/-- What is behind the group of the field `number`, which its own end tag ends; up to `depth` groups may
be open inside it, and `fuel` is above the number of bytes. -/
def skipGroup : ℕ → ℕ → ℕ → List UInt8 → Option (List UInt8)
  | 0, _, _, _ => none
  | fuel + 1, depth, number, input =>
    (readTag input).bind fun (tag, rest) =>
      if tag % 8 = 4 then if tag / 8 = number then some rest else none
      else if tag / 8 = 0 then none
      else if tag % 8 = 3 then
        if depth = 0 then none
        else (skipGroup fuel (depth - 1) (tag / 8) rest).bind (skipGroup fuel depth number)
      else (readScalar (tag % 8) rest).bind fun (_, rest) => skipGroup fuel depth number rest

/-- The value of the field `number`, with room for `depth` groups. -/
def readValue (depth number wireType : ℕ) (input : List UInt8) : Option (WireValue × List UInt8) :=
  if wireType = 3 then
    if depth = 0 then none
    else (skipGroup (input.length + 1) (depth - 1) number input).map fun rest =>
      (.group (input.take (input.length - rest.length)), rest)
  else readScalar wireType input

/-- There is no field with the number 0. -/
def readField (depth : ℕ) (input : List UInt8) : Option (Field × List UInt8) :=
  (readTag input).bind fun (tag, rest) =>
    if tag / 8 = 0 then none
    else (readValue depth (tag / 8) (tag % 8) rest).map fun (value, rest) =>
      ({ number := tag / 8, value }, rest)

/-- A scalar that fits is read back. -/
lemma readScalar_encode {f : Field} (h : f.Fits) (rest : List UInt8) :
    readScalar f.value.wireType (f.value.encode ++ rest) = some (f.value, rest) := by
  obtain ⟨number, value⟩ := f
  obtain ⟨-, -, hv⟩ := h
  cases value with
  | varint n =>
    have hn : n < 2 ^ 64 := hv
    have hread := readVarint_varint (k := 10) (n := n) (by omega) (by omega) rest
    simp only [WireValue.wireType, WireValue.encode, readScalar, hread, Option.map_some,
      Nat.mod_eq_of_lt hn]
  | fixed64 bs =>
    have hlen : bs.length = 8 := hv
    have hread := readBytes_append bs rest
    rw [hlen] at hread
    simp only [WireValue.wireType, WireValue.encode, readScalar, hread, Option.map_some]
  | bytes bs =>
    have hlen : bs.length < 2 ^ 31 := hv
    have hread := readVarint_varint (k := 5) (n := bs.length) (by omega) (by omega) (bs ++ rest)
    simp only [WireValue.wireType, WireValue.encode, readScalar, List.append_assoc, hread,
      Option.bind_some, readBytes_append, Option.map_some]
  | group bs => exact hv.elim
  | fixed32 bs =>
    have hlen : bs.length = 4 := hv
    have hread := readBytes_append bs rest
    rw [hlen] at hread
    simp only [WireValue.wireType, WireValue.encode, readScalar, hread, Option.map_some]

/-- A value that fits is read back. -/
lemma readValue_encode {f : Field} (h : f.Fits) (depth : ℕ) (rest : List UInt8) :
    readValue depth f.number f.value.wireType (f.value.encode ++ rest) = some (f.value, rest) := by
  have hgroup : f.value.wireType ≠ 3 := by
    obtain ⟨number, value⟩ := f
    obtain ⟨-, -, hv⟩ := h
    cases value with
    | group bs => exact hv.elim
    | _ => simp [WireValue.wireType]
  rw [readValue, if_neg hgroup, readScalar_encode h]

/-- A wire type takes three bits. -/
lemma WireValue.wireType_lt (v : WireValue) : v.wireType < 8 := by
  cases v <;> simp [wireType]

/-- A field that fits is read back. -/
lemma readField_encode {f : Field} (h : f.Fits) (depth : ℕ) (rest : List UInt8) :
    readField depth (f.encode ++ rest) = some (f, rest) := by
  obtain ⟨hpos, hnumber, -⟩ := id h
  have htype := f.value.wireType_lt
  have hvarint := readVarint_varint (k := 5) (n := 8 * f.number + f.value.wireType) (by omega)
    (by omega) (f.value.encode ++ rest)
  have hcut : (8 * f.number + f.value.wireType) % 2 ^ 32 = 8 * f.number + f.value.wireType :=
    Nat.mod_eq_of_lt (by omega)
  have htag : readTag (f.encode ++ rest) =
      some (8 * f.number + f.value.wireType, f.value.encode ++ rest) := by
    rw [readTag, Field.encode, List.append_assoc, hvarint, Option.map_some]
    dsimp only
    rw [hcut]
  have hmod : (8 * f.number + f.value.wireType) % 8 = f.value.wireType := by omega
  have hdiv : (8 * f.number + f.value.wireType) / 8 = f.number := by omega
  rw [readField, htag]
  simp only [Option.bind_some, hmod, hdiv, if_neg (Nat.ne_of_gt hpos), readValue_encode h,
    Option.map_some]

/-! ### Messages -/

/-- The fields of a message, read one after the other; `fuel` is above the number of bytes. -/
def readFields (depth : ℕ) : ℕ → List UInt8 → Option (List Field)
  | 0, _ => none
  | fuel + 1, input =>
    if input = [] then some []
    else (readField depth input).bind fun (f, rest) => (readFields depth fuel rest).map (f :: ·)

/-- The fields of a message, in which `depth` messages or groups may be inside each other. -/
def readMessage (depth : ℕ) (input : List UInt8) : Option (List Field) :=
  readFields depth (input.length + 1) input

def encodeMessage (fields : List Field) : List UInt8 := fields.flatMap Field.encode

/-- A field is not empty. -/
lemma Field.encode_ne_nil (f : Field) : f.encode ≠ [] := by
  intro h
  exact varint_ne_nil (by omega) _ (List.append_eq_nil_iff.mp h).1

/-- The tag is at most five bytes. -/
lemma Field.length_encode_le (number : ℕ) (value : WireValue) :
    (Field.encode ⟨number, value⟩).length ≤ 5 + value.encode.length := by
  rw [Field.encode, List.length_append]
  exact Nat.add_le_add_right (length_varint_le 5 _) _

/-- A message whose fields fit is read back. -/
lemma readFields_encode {fields : List Field} (h : ∀ f ∈ fields, f.Fits) (depth : ℕ) {fuel : ℕ}
    (hfuel : (encodeMessage fields).length < fuel) :
    readFields depth fuel (encodeMessage fields) = some fields := by
  induction fields generalizing fuel with
  | nil =>
    cases fuel with
    | zero => cases hfuel
    | succ fuel => rfl
  | cons f fields ih =>
    cases fuel with
    | zero => cases hfuel
    | succ fuel =>
      have henc : encodeMessage (f :: fields) = f.encode ++ encodeMessage fields := rfl
      have hpos := List.length_pos_iff.mpr f.encode_ne_nil
      rw [henc, List.length_append] at hfuel
      have hne : f.encode ++ encodeMessage fields ≠ [] := by
        intro hnil
        exact f.encode_ne_nil (List.append_eq_nil_iff.mp hnil).1
      have hfuel : (encodeMessage fields).length < fuel := by omega
      have hrest := ih (fun g hg => h g (List.mem_cons_of_mem _ hg)) hfuel
      rw [henc, readFields, if_neg hne, readField_encode (h f List.mem_cons_self)]
      simp only [Option.bind_some, hrest, Option.map_some]

/-- What was encoded is read back. -/
theorem readMessage_encode {fields : List Field} (h : ∀ f ∈ fields, f.Fits) (depth : ℕ) :
    readMessage depth (encodeMessage fields) = some fields :=
  readFields_encode h depth (Nat.lt_succ_self _)

/-- A group of an unknown field, inside it a number and another group, in front of a number. -/
example : readMessage kRecursionLimit [83, 8, 1, 91, 92, 84, 16, 7] =
    some [⟨10, .group [8, 1, 91, 92, 84]⟩, ⟨2, .varint 7⟩] := by decide

end Codecs
