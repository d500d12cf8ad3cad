import KVCacheRaft.Codec.Wire

/-!
# Types of messages

A type of messages is a list of parts, each a field with its number, its kind, and the lens to its value
in a message. What a generated class does follows from the parts: it writes the values that are no
defaults in the order of the parts, and reads fields in any order into a new message, passing over those
it does not know. What is written is read back when the parts are independent of each other.
-/

namespace Codecs

/-! ### Kinds of fields -/

/-- The sizes that a value must keep to, as in `Field.Fits`. -/
def WireValue.Fits : WireValue → Prop
  | .varint n => n < 2 ^ 64
  | .fixed64 bs => bs.length = 8
  | .bytes bs => bs.length < 2 ^ 31
  | .group _ => False
  | .fixed32 bs => bs.length = 4

/-- A field with a number in range fits if its value does. -/
lemma Field.fits_of {number : ℕ} {value : WireValue} (hpos : 0 < number) (hlt : number < 2 ^ 29)
    (h : value.Fits) : Field.Fits ⟨number, value⟩ := by
  refine ⟨hpos, hlt, ?_⟩
  cases value with
  | varint n => exact h
  | fixed64 bs => exact h
  | bytes bs => exact h
  | group bs => exact h
  | fixed32 bs => exact h

/-- How values of a field are written, and what is left of them when the field is read once more. A
value of another wire type than the field has is passed over. -/
structure Kind (β : Type) where
  default : β
  write : β → List WireValue
  read : β → WireValue → Option β
  Fits : β → Prop
  decFits : DecidablePred Fits
  read_write : ∀ b, Fits b → (write b).foldlM read default = some b
  fits : ∀ b, Fits b → ∀ v ∈ write b, v.Fits

namespace Kind

instance {β : Type} (k : Kind β) : DecidablePred k.Fits := k.decFits

/-- `int32`: the 64 bits of the number, of which reading keeps 32. -/
def int32 : Kind ℤ where
  default := 0
  write z := if z = 0 then [] else [.varint (z % 2 ^ 64).toNat]
  read
    | _, .varint n => some (Int.bmod n (2 ^ 32))
    | z, _ => some z
  Fits z := -2 ^ 31 ≤ z ∧ z < 2 ^ 31
  decFits _ := instDecidableAnd
  read_write z hz := by
    obtain ⟨hle, hlt⟩ := hz
    split_ifs with h
    · rw [h]
      rfl
    · have hmod : ((z % 2 ^ 64).toNat : ℤ) = z % 2 ^ 64 :=
        Int.toNat_of_nonneg (Int.emod_nonneg _ (by decide))
      have hread : Int.bmod ((z % 2 ^ 64).toNat : ℤ) (2 ^ 32) = z := by
        rw [hmod, Int.bmod_def]
        split_ifs <;> omega
      rw [List.foldlM_cons]
      simp only [hread]
      rfl
  fits z hz v hv := by
    split_ifs at hv with h
    · cases hv
    · rw [List.mem_singleton.mp hv]
      show (z % 2 ^ 64).toNat < 2 ^ 64
      omega

/-- `bool`. -/
def bool : Kind Bool where
  default := false
  write b := if b then [.varint 1] else []
  read
    | _, .varint n => some (n != 0)
    | b, _ => some b
  Fits _ := True
  decFits _ := instDecidableTrue
  read_write b _ := by cases b <;> rfl
  fits b _ v hv := by
    cases b with
    | false => cases hv
    | true =>
      rw [List.mem_singleton.mp hv]
      show 1 < 2 ^ 64
      omega

/-- `uint64`. -/
def uint64 : Kind ℕ where
  default := 0
  write n := if n = 0 then [] else [.varint n]
  read
    | _, .varint n => some n
    | n, _ => some n
  Fits n := n < 2 ^ 64
  decFits n := Nat.decLt n (2 ^ 64)
  read_write n _ := by
    split_ifs with h
    · rw [h]
      rfl
    · rfl
  fits n hn v hv := by
    split_ifs at hv with h
    · cases hv
    · rw [List.mem_singleton.mp hv]
      exact hn

/-- `bytes`. -/
def bytes : Kind (List UInt8) where
  default := []
  write bs := if bs = [] then [] else [.bytes bs]
  read
    | _, .bytes bs => some bs
    | bs, _ => some bs
  Fits bs := bs.length < 2 ^ 31
  decFits bs := Nat.decLt bs.length (2 ^ 31)
  read_write bs _ := by
    split_ifs with h
    · rw [h]
      rfl
    · rfl
  fits bs hbs v hv := by
    split_ifs at hv with h
    · cases hv
    · rw [List.mem_singleton.mp hv]
      exact hbs

end Kind

/-! ### Messages -/

/-- A field of a type of messages. -/
structure Part (α : Type) where
  number : ℕ
  {β : Type}
  kind : Kind β
  get : α → β
  set : β → α → α

/-- A type of messages: a new one, and the fields in the order in which they are written. -/
structure MessageType (α : Type) where
  empty : α
  parts : List (Part α)

namespace MessageType

variable {α : Type} {T : MessageType α}

/-- The fields of a message that are written. -/
def fields (T : MessageType α) (m : α) : List Field :=
  T.parts.flatMap fun p => (p.kind.write (p.get m)).map (Field.mk p.number)

/-- A message as it is written. -/
def serialize (T : MessageType α) (m : α) : List UInt8 := encodeMessage (T.fields m)

/-- `SerializeToString`, which fails for a message of more than `INT_MAX` bytes. -/
def serializeToString (T : MessageType α) (m : α) : Option (List UInt8) :=
  if 2 ^ 31 ≤ (T.serialize m).length then none else some (T.serialize m)

/-- The message after one more field. -/
def withField (T : MessageType α) (m : α) (f : Field) : Option α :=
  match T.parts.find? (·.number = f.number) with
  | some p => (p.kind.read (p.get m) f.value).map (p.set · m)
  | none => some m

/-- A message in which `depth` messages or groups may be inside each other. -/
def parseWithin (T : MessageType α) (depth : ℕ) (body : List UInt8) : Option α :=
  (readMessage depth body).bind fun fields => fields.foldlM T.withField T.empty

/-- `ParseFromString`. -/
def parse (T : MessageType α) (body : List UInt8) : Option α := T.parseWithin kRecursionLimit body

/-- The parts are independent of each other, and make up a message. -/
structure Lawful (T : MessageType α) : Prop where
  number : ∀ p ∈ T.parts, 0 < p.number ∧ p.number < 2 ^ 29
  nodup : T.parts.Pairwise fun p q => p.number ≠ q.number
  get_empty : ∀ p ∈ T.parts, p.get T.empty = p.kind.default
  get_set : ∀ p ∈ T.parts, ∀ b m, p.get (p.set b m) = b
  set_set : ∀ p ∈ T.parts, ∀ b b' m, p.set b (p.set b' m) = p.set b m
  set_get : ∀ p ∈ T.parts, ∀ m, p.set (p.get m) m = m
  get_set_ne : T.parts.Pairwise fun p q => ∀ b m, q.get (p.set b m) = q.get m
  ext : ∀ m, T.parts.foldl (fun x p => p.set (p.get m) x) T.empty = m

/-- Every value of the message is one of its kind. -/
def Fits (T : MessageType α) (m : α) : Prop := ∀ p ∈ T.parts, p.kind.Fits (p.get m)

instance (T : MessageType α) : DecidablePred T.Fits := fun m =>
  inferInstanceAs (Decidable (∀ p ∈ T.parts, p.kind.Fits (p.get m)))

/-- A part is found by its number. -/
lemma find?_number {ps : List (Part α)} (h : ps.Pairwise fun p q => p.number ≠ q.number) {p : Part α}
    (hp : p ∈ ps) : ps.find? (·.number = p.number) = some p := by
  induction ps with
  | nil => cases hp
  | cons q ps ih =>
    obtain ⟨hq, hps⟩ := List.pairwise_cons.mp h
    rcases List.mem_cons.mp hp with rfl | hp
    · rw [List.find?_cons_of_pos (by simp)]
    · rw [List.find?_cons_of_neg (by simpa using hq p hp), ih hps hp]

/-- Reading the values of one part. -/
lemma foldlM_part (h : T.Lawful) {p : Part α} (hp : p ∈ T.parts) (vs : List WireValue) (x : α) :
    (vs.map (Field.mk p.number)).foldlM T.withField x =
      (vs.foldlM p.kind.read (p.get x)).map (p.set · x) := by
  induction vs generalizing x with
  | nil => exact congrArg some (h.set_get p hp x).symm
  | cons v vs ih =>
    rw [List.map_cons, List.foldlM_cons, List.foldlM_cons, withField]
    simp only [find?_number h.nodup hp]
    cases p.kind.read (p.get x) v with
    | none => rfl
    | some b =>
      refine (ih (p.set b x)).trans ?_
      rw [h.get_set p hp]
      simp only [h.set_set p hp]
      rfl

/-- Reading the values of some parts of a message into one that has none of them yet. -/
lemma foldlM_parts (h : T.Lawful) {m : α} (hm : T.Fits m) {ps : List (Part α)}
    (hps : ∀ p ∈ ps, p ∈ T.parts) (hne : ps.Pairwise fun p q => ∀ b x, q.get (p.set b x) = q.get x)
    {x : α} (hx : ∀ p ∈ ps, p.get x = p.kind.default) :
    (ps.flatMap fun p => (p.kind.write (p.get m)).map (Field.mk p.number)).foldlM T.withField x =
      some (ps.foldl (fun x p => p.set (p.get m) x) x) := by
  induction ps generalizing x with
  | nil => rfl
  | cons p ps ih =>
    obtain ⟨hp, hne⟩ := List.pairwise_cons.mp hne
    have hpT := hps p List.mem_cons_self
    have hrest : ∀ q ∈ ps, q.get (p.set (p.get m) x) = q.kind.default := fun q hq =>
      (hp q hq (p.get m) x).trans (hx q (List.mem_cons_of_mem _ hq))
    rw [List.flatMap_cons, List.foldlM_append, foldlM_part h hpT, hx p List.mem_cons_self,
      p.kind.read_write _ (hm p hpT)]
    exact ih (fun q hq => hps q (List.mem_cons_of_mem _ hq)) hne hrest

/-- The fields of a message that fits fit. -/
lemma fits_fields (h : T.Lawful) {m : α} (hm : T.Fits m) : ∀ f ∈ T.fields m, f.Fits := by
  intro f hf
  obtain ⟨p, hp, hf⟩ := List.mem_flatMap.mp hf
  obtain ⟨v, hv, rfl⟩ := List.mem_map.mp hf
  obtain ⟨hpos, hlt⟩ := h.number p hp
  exact Field.fits_of hpos hlt (p.kind.fits _ (hm p hp) v hv)

/-- What is written is read back. -/
theorem parseWithin_serialize (h : T.Lawful) {m : α} (hm : T.Fits m) (depth : ℕ) :
    T.parseWithin depth (T.serialize m) = some m := by
  rw [parseWithin, serialize, readMessage_encode (fits_fields h hm)]
  refine (foldlM_parts h hm (fun p hp => hp) h.get_set_ne h.get_empty).trans ?_
  rw [h.ext]

/-- A message that fits is parsed back. -/
theorem parse_serialize (h : T.Lawful) {m : α} (hm : T.Fits m) : T.parse (T.serialize m) = some m :=
  parseWithin_serialize h hm kRecursionLimit

end MessageType

/-- A repeated field of messages: each time it is read one more message is added. The messages of the
repository are at most one deep inside each other. -/
def Kind.repeated {α : Type} (T : MessageType α) (h : T.Lawful) : Kind (List α) where
  default := []
  write ms := ms.map fun m => .bytes (T.serialize m)
  read
    | ms, .bytes bs => (T.parseWithin (kRecursionLimit - 1) bs).map fun m => ms ++ [m]
    | ms, _ => some ms
  Fits ms := ∀ m ∈ ms, T.Fits m ∧ (T.serialize m).length < 2 ^ 31
  decFits ms := inferInstanceAs (Decidable (∀ m ∈ ms, T.Fits m ∧ (T.serialize m).length < 2 ^ 31))
  read_write ms hms := by
    suffices hall : ∀ done : List α, (ms.map fun m => WireValue.bytes (T.serialize m)).foldlM
        (fun ms v => match ms, v with
          | ms, .bytes bs => (T.parseWithin (kRecursionLimit - 1) bs).map fun m => ms ++ [m]
          | ms, _ => some ms) done = some (done ++ ms) from hall []
    induction ms with
    | nil => exact fun done => congrArg some (List.append_nil done).symm
    | cons m ms ih =>
      intro done
      have hm := T.parseWithin_serialize h (hms m List.mem_cons_self).1 (kRecursionLimit - 1)
      rw [List.map_cons, List.foldlM_cons]
      simp only [hm, Option.map_some]
      refine (ih (fun x hx => hms x (List.mem_cons_of_mem _ hx)) (done ++ [m])).trans ?_
      rw [List.append_assoc, List.singleton_append]
  fits ms hms v hv := by
    obtain ⟨m, hm, rfl⟩ := List.mem_map.mp hv
    exact (hms m hm).2

end Codecs
