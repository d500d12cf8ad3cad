import KVCacheRaft.Codec.Prefix
import KVCacheRaft.Server.KvServer

/-!
# Text archives

Archives in the manner of `boost::archive::text_oarchive`: a header, numbers in decimal, strings
behind their length, containers behind their size.
-/

namespace KVCacheRaft
open Codecs

/-- The signature at the front of a text archive. -/
def archiveHeader : Bytes :=
  -- "22 serialization::archive 19 "
  [50, 50, 32, 115, 101, 114, 105, 97, 108, 105, 122, 97, 116, 105, 111, 110, 58, 58, 97, 114, 99,
    104, 105, 118, 101, 32, 49, 57, 32]

/-- The archive of one object behind the header. -/
def Format.ofCodec {α : Type} (c : Codec α) : Format α where
  save a := ((Codec.const archiveHeader).pair c).encode ((), a)
  load bs := (((Codec.const archiveHeader).pair c).decode bs).map fun x => x.1.2
  load_save a := by rw [Codec.decode_encode_nil]; rfl
  save_ne_nil a := by simp [Codec.pair, Codec.const, archiveHeader]

/-- `Op::serialize`. -/
def opCodec : Codec Op :=
  (Codec.bytes.pair (Codec.bytes.pair (Codec.bytes.pair (Codec.bytes.pair Codec.int)))).via
    (fun (Operation, Key, Value, ClientId, RequestId) =>
      some { Operation, Key, Value, ClientId, RequestId })
    (fun op => (op.Operation, op.Key, op.Value, op.ClientId, op.RequestId)) fun _ => rfl

/-- The elements of a map, one by one. -/
def mapCodec : Codec (UnorderedMap Bytes ℤ) :=
  (Codec.bytes.pair Codec.int).list.via
    (fun l =>
      let entries : List (Sigma fun _ : Bytes => ℤ) := l.map fun e => ⟨e.1, e.2⟩
      if h : entries.keys.Nodup then some ⟨entries, h⟩ else none)
    (fun m => m.entries.map fun e => (e.1, e.2)) fun m => by
      have h : m.entries.keys.Nodup := m.nodupKeys
      simp [Function.comp_def, h]

/-- Archives that give back what was saved. -/
def textArchives : Archives where
  op := .ofCodec opCodec
  dump := .ofCodec (Codec.bytes.list.pair Codec.bytes.list)
  server := .ofCodec (Codec.bytes.pair mapCodec)

end KVCacheRaft
