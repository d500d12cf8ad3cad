import Mathlib.Data.Nat.Bitwise
import KVCacheRaft.Codec.Frames
import KVCacheRaft.Codec.Wire
import KVCacheRaft.Raft.State

/-!
# Request frames

A request on the wire (`rpc/MrpcchannelMultiReq.cc`) is the length of a serialized `RpcRequestFrame` as
a varint, and the frame. `TryReadVarint32` (`rpc/rpcprovider.h`) reads the length off the bytes that
have arrived so far.
-/

namespace KVCacheRaft

open Codecs

/-- `RPC::RpcRequestFrame`. -/
structure RpcRequestFrame where
  request_id : ℕ := 0
  service_name : Bytes := []
  method_name : Bytes := []
  payload : Bytes := []
deriving DecidableEq

namespace RpcRequestFrame

/-- The fields of a frame that are not defaults. -/
def fields (frame : RpcRequestFrame) : List Field :=
  (if frame.request_id = 0 then [] else [⟨1, .varint frame.request_id⟩]) ++
    (if frame.service_name = [] then [] else [⟨2, .bytes frame.service_name⟩]) ++
    (if frame.method_name = [] then [] else [⟨3, .bytes frame.method_name⟩]) ++
    (if frame.payload = [] then [] else [⟨4, .bytes frame.payload⟩])

/-- `SerializePartialToString`. -/
def serialize (frame : RpcRequestFrame) : Bytes := encodeMessage frame.fields

/-- The frame after one more field; fields that it does not know are skipped. -/
def withField (frame : RpcRequestFrame) (f : Field) : RpcRequestFrame :=
  match f with
  | ⟨1, .varint n⟩ => { frame with request_id := n }
  | ⟨2, .bytes bs⟩ => { frame with service_name := bs }
  | ⟨3, .bytes bs⟩ => { frame with method_name := bs }
  | ⟨4, .bytes bs⟩ => { frame with payload := bs }
  | _ => frame

/-- `ParseFromString`. -/
def parse (body : Bytes) : Option RpcRequestFrame :=
  (readMessage kRecursionLimit body).map fun fields => fields.foldl withField {}

end RpcRequestFrame

/-- `kMaxFrameSize` -/
def kMaxFrameSize : ℕ := 16 * 1024 * 1024

/-- What `CallMethod` sends for a frame; its size is cast to `uint32_t`. -/
def wireString (frame_str : Bytes) : Bytes := varint 5 (frame_str.length % 2 ^ 32) ++ frame_str

/-- A size that `OnMessage` takes. -/
def FrameSize (frame_str : Bytes) : Prop := 0 < frame_str.length ∧ frame_str.length ≤ kMaxFrameSize

instance (frame_str : Bytes) : Decidable (FrameSize frame_str) := by
  unfold FrameSize
  infer_instance

/-! ### `TryReadVarint32` -/

inductive VarintReadResult where
  | ok (value varintLen : ℕ)
  | needMore
  | badFormat
deriving DecidableEq

/-- The loop of `TryReadVarint32` at the byte `i` of `len`. -/
def tryReadVarint32Loop (len : ℕ) : ℕ → ℕ → Bytes → VarintReadResult
  | i, result, byte :: rest =>
    if i < 5 then
      let result := result ||| (byte.toNat &&& 0x7f) <<< (7 * i) % 2 ^ 32
      if byte.toNat &&& 0x80 = 0 then .ok result (i + 1)
      else tryReadVarint32Loop len (i + 1) result rest
    else if len < 5 then .needMore
    else .badFormat
  | _, _, [] => if len < 5 then .needMore else .badFormat

/-- `TryReadVarint32`. -/
def tryReadVarint32 (data : Bytes) : VarintReadResult := tryReadVarint32Loop data.length 0 0 data

/-- The bits of a byte of a varint. -/
lemma byte_bits : ∀ n < 256, n &&& 0x7f = n % 128 ∧ (n &&& 0x80 = 0 ↔ n < 128) := by
  decide +kernel

/-- A decoder has read `i` bytes of the length `n`, and `left` is to come. -/
structure Reading (n i value : ℕ) (left : Bytes) : Prop where
  lt : value < 2 ^ (7 * i)
  left : ∃ k m, k ≠ 0 ∧ i + k = 5 ∧ m < 128 ^ k ∧ value + 2 ^ (7 * i) * m = n ∧ left = varint k m

/-- At the start all of the varint is left. -/
lemma Reading.start {n : ℕ} (hn : n < 2 ^ 32) : Reading n 0 0 (varint 5 n) where
  lt := Nat.zero_lt_one
  left := ⟨5, n, by omega, rfl, by omega, by rw [Nat.mul_zero, Nat.pow_zero]; omega, rfl⟩

/-- The next byte is the last one, or there are more to come. -/
lemma Reading.step {n i value : ℕ} {left : Bytes} (h : Reading n i value left) (hn : n < 2 ^ 32) :
    i < 5 ∧ ∃ byte left', left = byte :: left' ∧
      (byte.toNat &&& 0x80 = 0 ∧ left' = [] ∧
          value ||| (byte.toNat &&& 0x7f) <<< (7 * i) % 2 ^ 32 = n ∨
        byte.toNat &&& 0x80 ≠ 0 ∧
          Reading n (i + 1) (value ||| (byte.toNat &&& 0x7f) <<< (7 * i) % 2 ^ 32) left') := by
  obtain ⟨hvalue, k, m, hpos, hk, hm, hsum, rfl⟩ := h
  have hor : ∀ a, value ||| 2 ^ (7 * i) * a = value + 2 ^ (7 * i) * a := fun a => by
    rw [Nat.or_comm, ← Nat.two_pow_add_eq_or_of_lt hvalue, Nat.add_comm]
  have hpow : 2 ^ (7 * (i + 1)) = 2 ^ (7 * i) * 128 := by
    rw [Nat.mul_succ, Nat.pow_add]
  cases k with
  | zero => exact absurd rfl hpos
  | succ k =>
    refine ⟨by omega, ?_⟩
    rw [varint]
    split_ifs with hlast
    · have hbyte : (UInt8.ofNat m).toNat = m := by
        rw [UInt8.toNat_ofNat']
        omega
      obtain ⟨hlow, hhigh⟩ := byte_bits m (by omega)
      have hfit : 2 ^ (7 * i) * m < 2 ^ 32 := by omega
      refine ⟨UInt8.ofNat m, [], rfl, .inl ?_⟩
      rw [hbyte, hlow, Nat.mod_eq_of_lt hlast, Nat.shiftLeft_eq, Nat.mul_comm m,
        Nat.mod_eq_of_lt hfit, hor]
      exact ⟨hhigh.mpr hlast, rfl, hsum⟩
    · have hbyte : (UInt8.ofNat (128 + m % 128)).toNat = 128 + m % 128 := by
        rw [UInt8.toNat_ofNat']
        omega
      obtain ⟨hlow, hhigh⟩ := byte_bits (128 + m % 128) (by omega)
      have hlow' : (128 + m % 128) % 128 = m % 128 := by omega
      have hsplit : 2 ^ (7 * i) * m = 2 ^ (7 * i) * (m % 128) + 2 ^ (7 * (i + 1)) * (m / 128) := by
        rw [hpow, Nat.mul_assoc, ← Nat.mul_add, Nat.mod_add_div]
      have hdiv : m / 128 < 128 ^ k := by
        rw [Nat.pow_succ] at hm
        exact Nat.div_lt_of_lt_mul (by rw [Nat.mul_comm]; exact hm)
      have hk' : k ≠ 0 := by
        rintro rfl
        rw [Nat.zero_add, Nat.pow_one] at hm
        omega
      have hnext : value + 2 ^ (7 * i) * (m % 128) < 2 ^ (7 * (i + 1)) := by
        have hmod : m % 128 + 1 ≤ 128 := Nat.mod_lt _ (by omega)
        have hmul := Nat.mul_le_mul_left (2 ^ (7 * i)) hmod
        rw [Nat.mul_succ] at hmul
        omega
      have hfit : 2 ^ (7 * i) * (m % 128) < 2 ^ 32 := by omega
      refine ⟨_, _, rfl, .inr ?_⟩
      rw [hbyte, hlow, hlow', Nat.shiftLeft_eq, Nat.mul_comm (m % 128), Nat.mod_eq_of_lt hfit, hor]
      refine ⟨fun hzero => ?_, hnext, k, m / 128, hk', by omega, hdiv, by omega, rfl⟩
      have := hhigh.mp hzero
      omega

/-- What is left of a varint is read. -/
lemma tryReadVarint32Loop_reading {len n i value : ℕ} {left : Bytes} (h : Reading n i value left)
    (hn : n < 2 ^ 32) (rest : Bytes) :
    tryReadVarint32Loop len i value (left ++ rest) = .ok n (i + left.length) := by
  induction left generalizing i value with
  | nil =>
    obtain ⟨-, byte, left', hleft, -⟩ := h.step hn
    cases hleft
  | cons byte left ih =>
    obtain ⟨hi, byte, left', hleft, hstep⟩ := h.step hn
    obtain ⟨rfl, rfl⟩ := List.cons.inj hleft
    rw [List.cons_append, tryReadVarint32Loop, if_pos hi, List.length_cons]
    obtain ⟨hzero, rfl, hvalue⟩ | ⟨hzero, hnext⟩ := hstep
    · simp only
      rw [if_pos hzero, hvalue]
      rfl
    · simp only
      rw [if_neg hzero, ih hnext, Nat.add_assoc, Nat.add_comm 1]

/-- A length is read whatever comes behind it. -/
lemma tryReadVarint32_varint {n : ℕ} (hn : n < 2 ^ 32) (rest : Bytes) :
    tryReadVarint32 (varint 5 n ++ rest) = .ok n (varint 5 n).length := by
  rw [tryReadVarint32, tryReadVarint32Loop_reading (.start hn) hn, Nat.zero_add]

/-- While a length is not whole, no byte ends it. -/
lemma tryReadVarint32Loop_part {len i k result m : ℕ} (hlen : len < 5) {part : Bytes}
    (hpart : part <+: varint k m) (hne : part ≠ varint k m) :
    tryReadVarint32Loop len i result part = .needMore := by
  induction k generalizing i result m part with
  | zero =>
    rw [varint] at hpart hne
    exact absurd (List.prefix_nil.mp hpart) hne
  | succ k ih =>
    cases part with
    | nil => exact if_pos hlen
    | cons byte part =>
      rw [varint] at hpart hne
      split_ifs at hpart hne with hlast
      · obtain ⟨rfl, hnil⟩ := List.cons_prefix_cons.mp hpart
        exact absurd (congrArg _ (List.prefix_nil.mp hnil)) hne
      · obtain ⟨rfl, hrest⟩ := List.cons_prefix_cons.mp hpart
        have hbyte : (UInt8.ofNat (128 + m % 128)).toNat = 128 + m % 128 := by
          rw [UInt8.toNat_ofNat']
          omega
        obtain ⟨-, hhigh⟩ := byte_bits (128 + m % 128) (by omega)
        rw [tryReadVarint32Loop, hbyte]
        by_cases hi : i < 5
        · rw [if_pos hi]
          simp only
          rw [if_neg (fun hzero => by have := hhigh.mp hzero; omega)]
          exact ih hrest fun heq => hne (by rw [heq])
        · rw [if_neg hi, if_pos hlen]

/-- A part of a varint needs more bytes. -/
lemma tryReadVarint32_part {n : ℕ} {part : Bytes} (hpart : part <+: varint 5 n)
    (hne : part ≠ varint 5 n) : tryReadVarint32 part = .needMore := by
  have hlt : part.length < (varint 5 n).length := by
    refine Nat.lt_of_le_of_ne hpart.length_le fun heq => hne (hpart.eq_of_length heq)
  exact tryReadVarint32Loop_part (Nat.lt_of_lt_of_le hlt (length_varint_le 5 n)) hpart hne

end KVCacheRaft
