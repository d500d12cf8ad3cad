import KVCacheRaft.Codec.Wire

/-!
# The sizes of messages

The size of a message is known from the sizes of what it carries. No encoding of a message is smaller
than the one that is written.
-/

namespace Codecs

/-! ### Varints -/

/-- The number of bytes of a varint. -/
def varintSize : ℕ → ℕ → ℕ
  | 0, _ => 0
  | k + 1, n => if n < 128 then 1 else 1 + varintSize k (n / 128)

/-- A varint has as many bytes as its size says. -/
lemma length_varint (k n : ℕ) : (varint k n).length = varintSize k n := by
  induction k generalizing n with
  | zero => rfl
  | succ k ih =>
    rw [varint, varintSize]
    split_ifs
    · rfl
    · rw [List.length_cons, ih, Nat.add_comm]

/-- A varint of at most `k` bytes. -/
lemma varintSize_le (k n : ℕ) : varintSize k n ≤ k := length_varint k n ▸ length_varint_le k n

/-- A larger number takes no fewer bytes. -/
lemma varintSize_mono {m n : ℕ} (h : m ≤ n) (k : ℕ) : varintSize k m ≤ varintSize k n := by
  induction k generalizing m n with
  | zero => exact Nat.le_refl 0
  | succ k ih =>
    rw [varintSize, varintSize]
    split_ifs with hm hn
    · exact Nat.le_refl 1
    · exact Nat.le_add_right 1 _
    · omega
    · exact Nat.add_le_add_left (ih (Nat.div_le_div_right h)) 1

/-- A number is not read from fewer bytes than are written for it. -/
lemma varintSize_le_of_readVarint {k n : ℕ} {input rest : List UInt8}
    (h : readVarint k input = some (n, rest)) : varintSize k n + rest.length ≤ input.length := by
  induction k generalizing input n with
  | zero => cases h
  | succ k ih =>
    have hlt := length_of_readVarint h
    cases input with
    | nil => cases h
    | cons b input =>
      rw [varintSize]
      split_ifs with hn
      · omega
      rw [readVarint] at h
      split_ifs at h with hb
      · obtain ⟨rfl, -⟩ := Prod.mk.inj (Option.some.inj h)
        exact absurd hb hn
      · obtain ⟨⟨m, rest'⟩, hr, heq⟩ := Option.map_eq_some_iff.mp h
        obtain ⟨rfl, rfl⟩ := Prod.mk.inj heq
        have hbyte := b.toNat_lt
        have hdiv : (b.toNat - 128 + 128 * m) / 128 = m := by omega
        have hrest := ih hr
        rw [hdiv, List.length_cons]
        omega

/-! ### Fields and messages -/

def WireValue.size : WireValue → ℕ
  | .varint n => varintSize 10 n
  | .fixed64 bs => bs.length
  | .bytes bs => varintSize 5 bs.length + bs.length
  | .group bs => bs.length
  | .fixed32 bs => bs.length

def Field.size (f : Field) : ℕ := varintSize 5 (8 * f.number + f.value.wireType) + f.value.size

/-- `ByteSizeLong` of a message with these fields. -/
def messageSize (fields : List Field) : ℕ := (fields.map Field.size).sum

/-- A value has as many bytes as its size says. -/
lemma WireValue.length_encode (v : WireValue) : v.encode.length = v.size := by
  cases v with
  | varint n => exact length_varint 10 n
  | fixed64 bs => rfl
  | bytes bs => rw [encode, size, List.length_append, length_varint]
  | group bs => rfl
  | fixed32 bs => rfl

/-- A field has as many bytes as its size says. -/
lemma Field.length_encode (f : Field) : f.encode.length = f.size := by
  rw [encode, size, List.length_append, length_varint, f.value.length_encode]

/-- A message has as many bytes as its size says. -/
lemma length_encodeMessage (fields : List Field) :
    (encodeMessage fields).length = messageSize fields := by
  induction fields with
  | nil => rfl
  | cons f fields ih =>
    show (f.encode ++ encodeMessage fields).length = f.size + messageSize fields
    rw [List.length_append, f.length_encode, ih]

@[simp]
lemma messageSize_nil : messageSize [] = 0 := rfl

@[simp]
lemma messageSize_cons (f : Field) (fields : List Field) :
    messageSize (f :: fields) = f.size + messageSize fields := rfl

@[simp]
lemma messageSize_append (fields fields' : List Field) :
    messageSize (fields ++ fields') = messageSize fields + messageSize fields' := by
  rw [messageSize, List.map_append, List.sum_append, messageSize, messageSize]

/-- Reading bytes takes as many as it gives. -/
lemma readBytes_size {n : ℕ} {input bs rest : List UInt8} (h : readBytes n input = some (bs, rest)) :
    bs.length = n ∧ bs.length + rest.length = input.length := by
  rw [readBytes] at h
  split_ifs at h with hle
  obtain ⟨rfl, rfl⟩ := Prod.mk.inj (Option.some.inj h)
  rw [List.length_take, List.length_drop]
  omega

/-- A scalar that is read takes at least its size. -/
lemma size_le_of_readScalar {wireType : ℕ} {v : WireValue} {input rest : List UInt8}
    (h : readScalar wireType input = some (v, rest)) :
    v.wireType = wireType ∧ v.size + rest.length ≤ input.length := by
  unfold readScalar at h
  split at h
  · obtain ⟨⟨n, rest'⟩, hread, heq⟩ := Option.map_eq_some_iff.mp h
    obtain ⟨rfl, rfl⟩ := Prod.mk.inj heq
    have hsize := varintSize_le_of_readVarint hread
    have hmono := varintSize_mono (Nat.mod_le n (2 ^ 64)) 10
    exact ⟨rfl, by rw [WireValue.size]; omega⟩
  · obtain ⟨⟨bs, rest'⟩, hread, heq⟩ := Option.map_eq_some_iff.mp h
    obtain ⟨rfl, rfl⟩ := Prod.mk.inj heq
    exact ⟨rfl, Nat.le_of_eq (readBytes_size hread).2⟩
  · obtain ⟨⟨n, rest'⟩, hread, h⟩ := Option.bind_eq_some_iff.mp h
    obtain ⟨⟨bs, rest''⟩, hread', heq⟩ := Option.map_eq_some_iff.mp h
    obtain ⟨rfl, rfl⟩ := Prod.mk.inj heq
    obtain ⟨hlen, hsum⟩ := readBytes_size hread'
    have hsize := varintSize_le_of_readVarint hread
    refine ⟨rfl, ?_⟩
    rw [WireValue.size, hlen]
    omega
  · obtain ⟨⟨bs, rest'⟩, hread, heq⟩ := Option.map_eq_some_iff.mp h
    obtain ⟨rfl, rfl⟩ := Prod.mk.inj heq
    exact ⟨rfl, Nat.le_of_eq (readBytes_size hread).2⟩
  · cases h

/-- A tag that is read takes at least its size. -/
lemma size_le_of_readTag {tag : ℕ} {input rest : List UInt8} (h : readTag input = some (tag, rest)) :
    varintSize 5 tag + rest.length ≤ input.length := by
  obtain ⟨⟨n, rest'⟩, hread, heq⟩ := Option.map_eq_some_iff.mp h
  obtain ⟨rfl, rfl⟩ := Prod.mk.inj heq
  have hsize := varintSize_le_of_readVarint hread
  have hmono := varintSize_mono (Nat.mod_le n (2 ^ 32)) 5
  omega

/-- A group ends where its bytes do, or before. -/
lemma length_of_skipGroup {fuel depth number : ℕ} {input rest : List UInt8}
    (h : skipGroup fuel depth number input = some rest) : rest.length ≤ input.length := by
  induction fuel generalizing depth number input rest with
  | zero => cases h
  | succ fuel ih =>
    obtain ⟨⟨tag, behind⟩, htag, h⟩ := Option.bind_eq_some_iff.mp h
    have hle := size_le_of_readTag htag
    dsimp only at h
    split_ifs at h
    · obtain rfl := Option.some.inj h
      omega
    · obtain ⟨inner, hinner, h⟩ := Option.bind_eq_some_iff.mp h
      have hin := ih hinner
      have hout := ih h
      omega
    · obtain ⟨⟨v, inner⟩, hscalar, h⟩ := Option.bind_eq_some_iff.mp h
      have hin := (size_le_of_readScalar hscalar).2
      have hout : rest.length ≤ inner.length := ih h
      omega

/-- A value that is read takes at least its size. -/
lemma size_le_of_readValue {depth number wireType : ℕ} {v : WireValue} {input rest : List UInt8}
    (h : readValue depth number wireType input = some (v, rest)) :
    v.wireType = wireType ∧ v.size + rest.length ≤ input.length := by
  rw [readValue] at h
  split_ifs at h with hgroup
  · obtain ⟨rest', hskip, heq⟩ := Option.map_eq_some_iff.mp h
    obtain ⟨rfl, rfl⟩ := Prod.mk.inj heq
    have hle := length_of_skipGroup hskip
    refine ⟨hgroup.symm, ?_⟩
    rw [WireValue.size, List.length_take]
    omega
  · exact size_le_of_readScalar h

/-- A field that is read takes at least its size. -/
lemma size_le_of_readField {depth : ℕ} {f : Field} {input rest : List UInt8}
    (h : readField depth input = some (f, rest)) : f.size + rest.length ≤ input.length := by
  obtain ⟨⟨tag, rest'⟩, hread, h⟩ := Option.bind_eq_some_iff.mp h
  dsimp only at h
  split_ifs at h with hzero
  obtain ⟨⟨value, rest''⟩, hvalue, heq⟩ := Option.map_eq_some_iff.mp h
  simp only [Prod.mk.injEq] at heq
  obtain ⟨rfl, rfl⟩ := heq
  obtain ⟨htype, hsize⟩ := size_le_of_readValue hvalue
  have htag := size_le_of_readTag hread
  have heq : 8 * (tag / 8) + tag % 8 = tag := Nat.div_add_mod tag 8
  have hfield : Field.size ⟨tag / 8, value⟩ = varintSize 5 tag + value.size := by
    rw [Field.size, htype, heq]
  rw [hfield]
  omega

/-- A message that is read is no longer than its input. -/
lemma size_le_of_readFields {depth fuel : ℕ} {fields : List Field} {input : List UInt8}
    (h : readFields depth fuel input = some fields) : messageSize fields ≤ input.length := by
  induction fuel generalizing input fields with
  | zero => cases h
  | succ fuel ih =>
    rw [readFields] at h
    split_ifs at h with hnil
    · obtain rfl := Option.some.inj h
      exact Nat.zero_le _
    · obtain ⟨⟨f, rest⟩, hread, h⟩ := Option.bind_eq_some_iff.mp h
      obtain ⟨fields', hrest, rfl⟩ := Option.map_eq_some_iff.mp h
      have hfield := size_le_of_readField hread
      have hfields := ih hrest
      rw [messageSize_cons]
      omega

/-- No encoding of the fields of a message is smaller than the one that is written. -/
theorem messageSize_le_of_readMessage {depth : ℕ} {fields : List Field} {input : List UInt8}
    (h : readMessage depth input = some fields) : messageSize fields ≤ input.length :=
  size_le_of_readFields h

end Codecs
