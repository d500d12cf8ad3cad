import Mathlib.Order.Lattice
import KVCacheRaft.Store.Chain

/-!
# The skip list

`SkipList<K, V>` of `include/common/skipList.h` with its nodes on a heap: a node is an address, its
`forward` array holds addresses, and address `0` is `_header`. A deleted node stays on the heap,
unreachable, so that no address is used twice. What `rand()` gives is an argument. Loops that follow
pointers get as much fuel as there are addresses in use.
-/

namespace KVCacheRaft
open Chains

/-- `Node<K, V>`. An entry of `forward` beyond `node_level` is never looked at, and null here. -/
structure Node (K V : Type) where
  key : K
  value : V
  node_level : ℕ
  forward : ℕ → Option ℕ

/-- `SkipList<K, V>`. -/
structure SkipList (K V : Type) where
  max_level : ℕ
  skip_list_level : ℕ
  element_count : ℤ
  nodes : ℕ → Node K V
  /-- the first address not in use -/
  fresh : ℕ

namespace SkipList

variable {K V : Type}

/-- `_header`. -/
abbrev header : ℕ := 0

/-- `SkipList(int)`; the header gets a default key and value. -/
def create [Inhabited K] [Inhabited V] (max_level : ℕ) : SkipList K V where
  max_level
  skip_list_level := 0
  element_count := 0
  nodes _ := { key := default, value := default, node_level := max_level, forward := fun _ => none }
  fresh := 1

/-- `a->get_key()`. -/
def get_key (s : SkipList K V) (a : ℕ) : K := (s.nodes a).key

/-- `a->get_value()`. -/
def get_value (s : SkipList K V) (a : ℕ) : V := (s.nodes a).value

/-- `a->forward[i]`. -/
def next (s : SkipList K V) (i a : ℕ) : Option ℕ := (s.nodes a).forward i

/-- `a->forward[i] = b`. -/
def setNext (s : SkipList K V) (i a : ℕ) (b : Option ℕ) : SkipList K V :=
  let node := s.nodes a
  { s with
    nodes := Function.update s.nodes a { node with forward := Function.update node.forward i b } }

/-- `create_node`, at the address `s.fresh`. -/
def create_node (s : SkipList K V) (key : K) (value : V) (node_level : ℕ) : SkipList K V :=
  { s with
    nodes := Function.update s.nodes s.fresh
      { key, value, node_level, forward := fun _ => none }
    fresh := s.fresh + 1 }

/-- `get_random_level`, when `rand() % 2` is `1` for `flips` times and then `0`. -/
def get_random_level (s : SkipList K V) (flips : ℕ) : ℕ :=
  if flips + 1 < s.max_level then flips + 1 else s.max_level

section Order

variable [LinearOrder K]

/-- The loops of every operation down from level `i`: at each level go on from `current` while the
next key is smaller, and note in `update` where that ends. -/
def descend (s : SkipList K V) (key : K) : ℕ → ℕ → (ℕ → ℕ) → ℕ → ℕ
  | 0, current, update =>
    Function.update update 0 (walk (s.next 0) (fun b => s.get_key b < key) s.fresh current)
  | i + 1, current, update =>
    let current := walk (s.next (i + 1)) (fun b => s.get_key b < key) s.fresh current
    s.descend key i current (Function.update update (i + 1) current)

/-- The node with `key` behind the end of the search, if it has that key. -/
def found (s : SkipList K V) (key : K) (update : ℕ → ℕ) : Option ℕ :=
  match s.next 0 (update 0) with
  | none => none
  | some current => if s.get_key current = key then some current else none

/-- The array `update` after the loops. Its entries above `_skip_list_level` start as null; they are
read only once `insert_element` has set them to the header, which stands there from the start. -/
def search (s : SkipList K V) (key : K) : ℕ → ℕ :=
  s.descend key s.skip_list_level header fun _ => header

/-- `search_element`: the value, if the key is found. -/
def search_element (s : SkipList K V) (key : K) : Option V :=
  (s.found key (s.search key)).map s.get_value

/-- The loop of `insert_element` that links `inserted_node` in at the levels below `count`. -/
def link (s : SkipList K V) (update : ℕ → ℕ) (inserted_node : ℕ) : ℕ → SkipList K V
  | 0 => s
  | i + 1 =>
    let s := s.link update inserted_node i
    let s := s.setNext i inserted_node (s.next i (update i))
    s.setNext i (update i) (some inserted_node)

/-- `insert_element`, with what it returns: `1` when the key exists, else `0`. -/
def insert_element (s : SkipList K V) (flips : ℕ) (key : K) (value : V) : SkipList K V × ℤ :=
  let update := s.search key
  match s.found key update with
  | some _ => (s, 1)
  | none =>
    let random_level := s.get_random_level flips
    let update : ℕ → ℕ := fun i =>
      if s.skip_list_level < i ∧ i < random_level + 1 then header else update i
    let inserted_node := s.fresh
    let s := { s with
      skip_list_level :=
        if random_level > s.skip_list_level then random_level else s.skip_list_level }
    let s := s.create_node key value random_level
    let s := s.link update inserted_node (random_level + 1)
    ({ s with element_count := s.element_count + 1 }, 0)

/-- The loop of `delete_element` that takes `current` out of the levels from `i` on; it stops where
`current` is not the next node. -/
def unlink (s : SkipList K V) (update : ℕ → ℕ) (current i : ℕ) : ℕ → SkipList K V
  | 0 => s
  | count + 1 =>
    if s.next i (update i) ≠ some current then s
    else (s.setNext i (update i) (s.next i current)).unlink update current (i + 1) count

/-- The loop of `delete_element` that drops empty levels. -/
def shrink (s : SkipList K V) : ℕ → ℕ
  | 0 => 0
  | level + 1 => if s.next (level + 1) header = none then s.shrink level else level + 1

/-- `delete_element`. -/
def delete_element (s : SkipList K V) (key : K) : SkipList K V :=
  let update := s.search key
  match s.found key update with
  | none => s
  | some current =>
    let s := s.unlink update current 0 (s.skip_list_level + 1)
    { s with
      skip_list_level := s.shrink s.skip_list_level
      element_count := s.element_count - 1 }

/-- `insert_set_element`. -/
def insert_set_element (s : SkipList K V) (flips : ℕ) (key : K) (value : V) : SkipList K V :=
  let s := if (s.search_element key).isSome then s.delete_element key else s
  (s.insert_element flips key value).1

end Order

/-- The vectors `keyDumpVt_` and `valDumpVt_` of the `SkipListDump` that `dump_file` fills. -/
def dump (s : SkipList K V) : List K × List V :=
  let visited := collect (s.next 0) s.fresh header
  (visited.map s.get_key, visited.map s.get_value)

/-- The loop of `load_file` over `keyDumpVt_`. Both arguments of `insert_element` are the key. -/
def load [LinearOrder K] (s : SkipList K K) (flips : ℕ → ℕ) : List K → SkipList K K
  | [] => s
  | key :: keys => (s.insert_element (flips 0) key key).1.load (flips ∘ Nat.succ) keys

end SkipList

end KVCacheRaft
