import Mathlib.Data.Finset.Card
import KVCacheRaft.Store.Arrays

/-!
# The memory of the nodes

The operations of the skip list a third time, with the set of the nodes that are allocated. A node
is looked at, changed and deleted only while it is in the set, and the local array `update` starts
with null pointers, which are not followed. A run from an empty skip list never does otherwise, and
the destructor leaves no node behind.
-/

namespace KVCacheRaft.SkipList
open Chains

/-! ### Operations on allocated nodes -/

namespace Live

variable {K V : Type} (live : Finset ℕ) (s : SkipList K V)

/-- `a->forward[i]`. -/
def next (i a : ℕ) : Option (Option ℕ) := if a ∈ live then Checked.next s i a else none

/-- `a->forward[i] = b`. -/
def setNext (i a : ℕ) (b : Option ℕ) : Option (SkipList K V) :=
  if a ∈ live then Checked.setNext s i a b else none

/-- `a->get_key()`. -/
def get_key (a : ℕ) : Option K := if a ∈ live then some (s.get_key a) else none

/-- `a->get_value()`. -/
def get_value (a : ℕ) : Option V := if a ∈ live then some (s.get_value a) else none

/-- `delete a`. -/
def free (a : ℕ) : Option (Finset ℕ) := if a ∈ live then some (live.erase a) else none

/-- `update[i]`, where it is followed. -/
def look (update : ℕ → Option ℕ) (i : ℕ) : Option ℕ := if i ≤ s.max_level then update i else none

/-- `update[i] = a`. -/
def note (update : ℕ → Option ℕ) (i a : ℕ) : Option (ℕ → Option ℕ) :=
  if i ≤ s.max_level then some (Function.update update i (some a)) else none

/-- The loop of `insert_element` that sets `count` entries of `update` to the header. -/
def raise (update : ℕ → Option ℕ) (i : ℕ) : ℕ → Option (ℕ → Option ℕ)
  | 0 => some update
  | count + 1 => do raise (← note s update i header) (i + 1) count

/-- The loop of `insert_element` that links `inserted_node` in. -/
def link (update : ℕ → Option ℕ) (inserted_node : ℕ) : ℕ → Option (SkipList K V)
  | 0 => some s
  | i + 1 => do
    let a ← look s update i
    let s ← link update inserted_node i
    let s ← setNext live s i inserted_node (← next live s i a)
    setNext live s i a (some inserted_node)

/-- The loop of `delete_element` that takes `current` out. -/
def unlink (s : SkipList K V) (update : ℕ → Option ℕ) (current i : ℕ) :
    ℕ → Option (SkipList K V)
  | 0 => some s
  | count + 1 => do
    let a ← look s update i
    if (← next live s i a) ≠ some current then return s
    let s ← setNext live s i a (← next live s i current)
    unlink s update current (i + 1) count

/-- The loop of `delete_element` that drops empty levels. -/
def shrink : ℕ → Option ℕ
  | 0 => some 0
  | level + 1 => do
    if (← next live s (level + 1) header) = none then shrink level else some (level + 1)

/-- The loop of `dump_file` from `node` on. -/
def collect : ℕ → Option ℕ → Option (List K × List V)
  | _, none => some ([], [])
  | 0, some _ => none
  | fuel + 1, some node => do
    let key ← get_key live s node
    let value ← get_value live s node
    let dumper ← collect fuel (← next live s 0 node)
    return (key :: dumper.1, value :: dumper.2)

/-- `dump_file`, up to the archive. -/
def dump_file : Option (List K × List V) := do collect live s s.fresh (← next live s 0 header)

/-- `clear`: first the nodes behind `cur`, then `cur`. -/
def clear (live : Finset ℕ) : ℕ → ℕ → Option (Finset ℕ)
  | 0, _ => none
  | fuel + 1, cur => do
    match ← next live s 0 cur with
    | none => free live cur
    | some b => free (← clear live fuel b) cur

/-- `~SkipList()`. -/
def destroy : Option (Finset ℕ) := do
  match ← next live s 0 header with
  | none => free live header
  | some b => free (← clear s live s.fresh b) header

variable [LinearOrder K]

/-- The loop of every operation at level `i`. -/
def walk (key : K) (i : ℕ) : ℕ → ℕ → Option ℕ
  | 0, _ => none
  | fuel + 1, current => do
    match ← next live s i current with
    | none => return current
    | some b => if (← get_key live s b) < key then walk key i fuel b else return current

/-- The loops down from level `i`: where they end, and `update`. -/
def descend (key : K) : ℕ → ℕ → (ℕ → Option ℕ) → Option (ℕ × (ℕ → Option ℕ))
  | 0, current, update => do
    let current ← walk live s key 0 s.fresh current
    return (current, ← note s update 0 current)
  | i + 1, current, update => do
    let current ← walk live s key (i + 1) s.fresh current
    descend key i current (← note s update (i + 1) current)

/-- The loops of `insert_element` and `delete_element`. -/
def search (key : K) : Option (ℕ × (ℕ → Option ℕ)) :=
  descend live s key s.skip_list_level header fun _ => none

/-- The loops of `search_element`, which has no `update`. -/
def seek (key : K) : ℕ → ℕ → Option ℕ
  | 0, current => walk live s key 0 s.fresh current
  | i + 1, current => do seek key i (← walk live s key (i + 1) s.fresh current)

/-- The node with `key` behind `current`. -/
def found (key : K) (current : ℕ) : Option (Option ℕ) := do
  match ← next live s 0 current with
  | none => return none
  | some b => return if (← get_key live s b) = key then some b else none

/-- `search_element`. -/
def search_element (key : K) : Option (Option V) := do
  match ← found live s key (← seek live s key s.skip_list_level header) with
  | none => return none
  | some current => return some (← get_value live s current)

/-- `insert_element`. -/
def insert_element (flips : ℕ) (key : K) (value : V) :
    Option (Finset ℕ × SkipList K V × ℤ) := do
  let searched ← search live s key
  match ← found live s key searched.1 with
  | some _ => return (live, s, 1)
  | none =>
    let random_level := s.get_random_level flips
    let update ← raise s searched.2 (s.skip_list_level + 1) (random_level - s.skip_list_level)
    let inserted_node := s.fresh
    let s := { s with
      skip_list_level :=
        if random_level > s.skip_list_level then random_level else s.skip_list_level }
    let s := s.create_node key value random_level
    let live := insert inserted_node live
    let s ← link live s update inserted_node (random_level + 1)
    return (live, { s with element_count := s.element_count + 1 }, 0)

/-- `delete_element`. -/
def delete_element (key : K) : Option (Finset ℕ × SkipList K V) := do
  let searched ← search live s key
  match ← found live s key searched.1 with
  | none => return (live, s)
  | some current =>
    let s ← unlink live s searched.2 current 0 (s.skip_list_level + 1)
    let skip_list_level ← shrink live s s.skip_list_level
    let live ← free live current
    return (live, { s with skip_list_level, element_count := s.element_count - 1 })

/-- `insert_set_element`. -/
def insert_set_element (flips : ℕ) (key : K) (value : V) :
    Option (Finset ℕ × SkipList K V) := do
  let deleted ←
    if (← search_element live s key).isSome then delete_element live s key else some (live, s)
  let inserted ← insert_element deleted.1 deleted.2 flips key value
  return (inserted.1, inserted.2.1)

end Live

/-! ### Allocated nodes behave as before -/

section Pointers

variable {K V : Type} {live : Finset ℕ} {s : SkipList K V} {update : ℕ → Option ℕ} {u : ℕ → ℕ}
  {a x i : ℕ}

lemma next_live (h : a ∈ live) : Live.next live s i a = Checked.next s i a := if_pos h

lemma setNext_live (h : a ∈ live) (b : Option ℕ) :
    Live.setNext live s i a b = Checked.setNext s i a b := if_pos h

lemma get_key_live (h : a ∈ live) : Live.get_key live s a = some (s.get_key a) := if_pos h

lemma get_value_live (h : a ∈ live) : Live.get_value live s a = some (s.get_value a) := if_pos h

lemma free_live (h : a ∈ live) : Live.free live a = some (live.erase a) := if_pos h

lemma look_eq (h : i ≤ s.max_level) : Live.look s update i = update i := if_pos h

lemma note_eq (h : i ≤ s.max_level) :
    Live.note s update i a = some (Function.update update i (some a)) := if_pos h

/-- Changing a link leaves the level of the list. -/
lemma max_level_setNext {t : SkipList K V} {b : Option ℕ}
    (h : Checked.setNext s i a b = some t) : t.max_level = s.max_level := by
  rw [Checked.setNext] at h
  split_ifs at h
  obtain rfl := Option.some.inj h
  rfl

/-- The header is noted on the levels that the list grows by. -/
lemma raise_eq {count : ℕ} (h : i + count ≤ s.max_level + 1) :
    ∃ raised, Live.raise s update i count = some raised ∧
      ∀ j, raised j = if i ≤ j ∧ j < i + count then some header else update j := by
  induction count generalizing update i with
  | zero => exact ⟨update, rfl, fun j => (if_neg (by omega)).symm⟩
  | succ count ih =>
    obtain ⟨raised, hraised, hj⟩ := ih (by omega : i + 1 + count ≤ s.max_level + 1)
    refine ⟨raised, ?_, fun j => ?_⟩
    · rw [Live.raise, note_eq (by omega)]
      exact hraised
    · rw [hj]
      by_cases hji : j = i
      · subst hji
        rw [if_neg (by omega), if_pos (by omega), Function.update_self]
      · rw [Function.update_of_ne hji]
        exact if_congr (by omega) rfl rfl

/-- A new node is linked in if all that it is linked to is allocated. -/
lemma link_live {count : ℕ} (hx : x ∈ live)
    (hu : ∀ i < count, Live.look s update i = some (u i) ∧ u i ∈ live) :
    Live.link live s update x count = Checked.link s u x count := by
  induction count with
  | zero => rfl
  | succ i ih =>
    obtain ⟨hlook, hui⟩ := hu i i.lt_succ_self
    rw [Live.link, Checked.link, hlook, ih fun j hj => hu j (hj.trans i.lt_succ_self)]
    simp only [Option.bind_eq_bind, Option.bind_some, next_live hui, setNext_live hx,
      setNext_live hui]

/-- A node is taken out if all that points at it is allocated. -/
lemma unlink_live {count : ℕ} (hx : x ∈ live)
    (hu : ∀ j, i ≤ j → j < i + count → Live.look s update j = some (u j) ∧ u j ∈ live) :
    Live.unlink live s update x i count = Checked.unlink s u x i count := by
  induction count generalizing s i with
  | zero => rfl
  | succ count ih =>
    obtain ⟨hlook, hui⟩ := hu i le_rfl (by omega)
    rw [Live.unlink, Checked.unlink, hlook]
    simp only [Option.bind_eq_bind, Option.bind_some, next_live hui, next_live hx,
      setNext_live hui]
    refine Option.bind_congr fun b _ => ?_
    split_ifs
    · rfl
    · refine Option.bind_congr fun c _ => Option.bind_congr fun t ht => ih fun j hj hlt => ?_
      rw [Live.look, max_level_setNext ht]
      exact hu j (by omega) (by omega)

/-- The level is lowered through the allocated header. -/
lemma shrink_live (h : header ∈ live) (level : ℕ) :
    Live.shrink live s level = Checked.shrink s level := by
  induction level with
  | zero => rfl
  | succ level ih => rw [Live.shrink, Checked.shrink, next_live h, ih]

/-- The next node of a chain, read from an allocated one. -/
lemma next_chain {l : List ℕ} (h : Chain (s.next 0) a l) (ha : a ∈ live) :
    Live.next live s 0 a = some l.head? := by
  rw [next_live ha, checked_next (Nat.zero_le _), h.next_eq]

/-- `clear` deletes the nodes from `a` on, each of them once. -/
lemma clear_eq {l : List ℕ} (h : Chain (s.next 0) a l) (hnd : (a :: l).Nodup)
    (hlive : ∀ b ∈ a :: l, b ∈ live) {fuel : ℕ} (hf : l.length < fuel) :
    ∃ rest, Live.clear s live fuel a = some rest ∧ ∀ b, b ∈ rest ↔ b ∈ live ∧ b ∉ a :: l := by
  have ha := hlive a List.mem_cons_self
  induction l generalizing a fuel with
  | nil =>
    cases fuel with
    | zero => exact absurd hf (Nat.not_lt_zero _)
    | succ fuel =>
      refine ⟨live.erase a, ?_, fun b => ?_⟩
      · rw [Live.clear, next_chain h ha]
        exact free_live ha
      · rw [Finset.mem_erase, List.mem_singleton, and_comm]
  | cons b l ih =>
    cases fuel with
    | zero => exact absurd hf (Nat.not_lt_zero _)
    | succ fuel =>
      obtain ⟨hanot, hnd'⟩ := List.nodup_cons.mp hnd
      have hlive' : ∀ c ∈ b :: l, c ∈ live := fun c hc => hlive c (List.mem_cons_of_mem a hc)
      obtain ⟨rest, hrest, hmem⟩ := ih h.2 hnd' hlive' (Nat.lt_of_succ_lt_succ hf)
        (hlive' b List.mem_cons_self)
      refine ⟨rest.erase a, ?_, fun c => ?_⟩
      · rw [Live.clear, next_chain h ha]
        show Option.bind (Live.clear s live fuel b) _ = _
        rw [hrest]
        exact free_live ((hmem a).mpr ⟨ha, hanot⟩)
      · rw [Finset.mem_erase, hmem, @List.mem_cons _ a]
        tauto

/-- The keys and values of a chain of allocated nodes are collected. -/
lemma collect_eq {l : List ℕ} (h : Chain (s.next 0) a l) (hlive : ∀ b ∈ l, b ∈ live) {fuel : ℕ}
    (hf : l.length ≤ fuel) :
    Live.collect live s fuel (s.next 0 a) = some (l.map s.get_key, l.map s.get_value) := by
  induction l generalizing a fuel with
  | nil =>
    rw [h.next_eq, List.head?_nil, Live.collect.eq_def]
    cases fuel <;> rfl
  | cons b l ih =>
    cases fuel with
    | zero => simp at hf
    | succ fuel =>
      have hb := hlive b List.mem_cons_self
      rw [h.1, Live.collect, get_key_live hb, get_value_live hb, next_live hb,
        checked_next (Nat.zero_le _)]
      simp only [Option.bind_eq_bind, Option.bind_some]
      rw [ih h.2 (fun c hc => hlive c (List.mem_cons_of_mem b hc)) (by simpa using hf)]
      rfl

end Pointers

/-! ### The allocated nodes are those of row `0` -/

variable {K V : Type} [LinearOrder K] {live : Finset ℕ} {s : SkipList K V} {rows : ℕ → List ℕ}
  {update : ℕ → Option ℕ} {flips : ℕ} {key : K} {value : V} {a x i : ℕ}

/-- The allocated nodes are the header and the nodes of row `0`. -/
structure Owns (live : Finset ℕ) (s : SkipList K V) (rows : ℕ → List ℕ) : Prop
    extends Rows s rows where
  headerTop : s.HeaderTop
  mem : ∀ a, a ∈ live ↔ a ∈ header :: rows 0

namespace Owns

/-- A list that owns its nodes is sound. -/
lemma sound (h : Owns live s rows) : s.Sound := ⟨⟨rows, h.toRows⟩, h.headerTop⟩

/-- The nodes of a row are allocated. -/
lemma live_row (h : Owns live s rows) (ha : a ∈ header :: rows i) : a ∈ live :=
  (h.mem a).mpr (List.cons_subset_cons _ (h.sublist_zero i).subset ha)

/-- The header is allocated. -/
lemma header_live (h : Owns live s rows) : header ∈ live := (h.mem _).mpr List.mem_cons_self

/-- There is one node more than elements. -/
lemma card (h : Owns live s rows) : (live.card : ℤ) = s.element_count + 1 := by
  have heq : live = (header :: rows 0).toFinset := by
    ext a
    rw [h.mem, List.mem_toFinset]
  rw [heq, List.toFinset_card_of_nodup (h.nodup 0), h.count, List.length_cons]
  push_cast
  rfl

/-- The next node of a row is read. -/
lemma next_row (h : Owns live s rows) (hi : i ≤ s.max_level) (ha : a ∈ header :: rows i) :
    Live.next live s i a = some (s.next i a) := by
  rw [next_live (h.live_row ha), checked_next (h.in_array h.headerTop hi ha)]

/-- Along a row every node is allocated, and so is the node whose key ends the loop. -/
lemma walk_chain (h : Owns live s rows) (hi : i ≤ s.max_level) {l₁ l₂ : List ℕ}
    (hchain : Chain (s.next i) a (l₁ ++ l₂)) (ha : a ∈ header :: rows i)
    (hsub : l₁ ++ l₂ ⊆ rows i) (h₁ : ∀ b ∈ l₁, s.get_key b < key)
    (h₂ : ∀ b ∈ l₂, ¬s.get_key b < key) {fuel : ℕ} (hf : l₁.length < fuel) :
    Live.walk live s key i fuel a = some (final a l₁) := by
  have hnext := h.next_row hi ha
  induction l₁ generalizing a fuel with
  | nil =>
    cases fuel with
    | zero => exact absurd hf (Nat.not_lt_zero _)
    | succ fuel =>
      rw [Live.walk, hnext, hchain.next_eq]
      cases l₂ with
      | nil => rfl
      | cons b l₂ =>
        have hb : b ∈ header :: rows i := List.mem_cons_of_mem _ (hsub List.mem_cons_self)
        simp [get_key_live (h.live_row hb), h₂ b List.mem_cons_self]
  | cons b l₁ ih =>
    cases fuel with
    | zero => exact absurd hf (Nat.not_lt_zero _)
    | succ fuel =>
      have hb : b ∈ header :: rows i := List.mem_cons_of_mem _ (hsub List.mem_cons_self)
      rw [Live.walk, hnext, hchain.next_eq, final_cons]
      simp only [List.cons_append, List.head?_cons, Option.bind_eq_bind, Option.bind_some,
        get_key_live (h.live_row hb), h₁ b List.mem_cons_self, if_true]
      exact ih hchain.2 hb (fun c hc => hsub (List.mem_cons_of_mem b hc))
        (fun c hc => h₁ c (List.mem_cons_of_mem b hc)) (Nat.lt_of_succ_lt_succ hf)
        (h.next_row hi hb)

/-- The walk along a row stays within the allocated nodes. -/
lemma walk_eq (h : Owns live s rows) (hi : i ≤ s.max_level) {current : ℕ}
    (hc : current ∈ header :: s.below key (rows i)) :
    Live.walk live s key i s.fresh current = some (final header (s.below key (rows i))) := by
  obtain ⟨rest, hchain, hfinal, hsub, hlen⟩ := h.exists_rest hc
  have hbelow : s.below key (rows i) ⊆ rows i := List.filter_subset_self _
  rw [hfinal]
  apply h.walk_chain hi hchain (List.cons_subset_cons _ hbelow hc)
  · exact List.append_subset.mpr ⟨List.Subset.trans hsub hbelow, List.filter_subset_self _⟩
  · intro b hb
    exact (mem_below.mp (hsub hb)).2
  · intro b hb
    exact (mem_above.mp hb).2.not_gt
  · exact hlen.trans_lt (h.length_lt i)

/-- At every level the loops end behind the smaller keys, and note that in `update`. -/
lemma descend_eq (h : Owns live s rows) (hi : i ≤ s.max_level) {current : ℕ}
    (hc : current ∈ header :: s.below key (rows i)) :
    ∃ noted, Live.descend live s key i current update =
        some (final header (s.below key (rows 0)), noted) ∧
      ∀ j, noted j = if j ≤ i then some (final header (s.below key (rows j))) else update j := by
  induction i generalizing current update with
  | zero =>
    refine ⟨Function.update update 0 (some (final header (s.below key (rows 0)))), ?_, fun j => ?_⟩
    · rw [Live.descend, h.walk_eq hi hc]
      simp only [Option.bind_eq_bind, Option.bind_some, note_eq hi]
      rfl
    · by_cases hj : j = 0
      · subst hj
        rw [Function.update_self, if_pos le_rfl]
      · rw [Function.update_of_ne hj, if_neg (by omega)]
  | succ i ih =>
    have hc' := h.below_subset i (final_mem header (s.below key (rows (i + 1))))
    obtain ⟨noted, heq, hnoted⟩ := ih (by omega) hc'
    refine ⟨noted, ?_, fun j => ?_⟩
    · rw [Live.descend, h.walk_eq hi hc]
      simp only [Option.bind_eq_bind, Option.bind_some, note_eq hi]
      exact heq
    · rw [hnoted]
      by_cases hj : j = i + 1
      · subst hj
        rw [if_neg (by omega), if_pos le_rfl, Function.update_self]
      · rw [Function.update_of_ne hj]
        exact if_congr (by omega) rfl rfl

/-- The search notes on each level the node it turned down at. -/
lemma search_eq (h : Owns live s rows) (key : K) :
    ∃ noted, Live.search live s key = some (s.search key 0, noted) ∧
      ∀ j ≤ s.skip_list_level, noted j = some (s.search key j) := by
  obtain ⟨noted, heq, hnoted⟩ := h.descend_eq h.level_max List.mem_cons_self
  refine ⟨noted, ?_, fun j hj => ?_⟩
  · rw [h.toRows.search_eq]
    exact heq
  · rw [hnoted, if_pos hj, h.toRows.search_eq]

/-- The search that notes nothing ends at the same node. -/
lemma seek_eq (h : Owns live s rows) (hi : i ≤ s.max_level) {current : ℕ}
    (hc : current ∈ header :: s.below key (rows i)) :
    Live.seek live s key i current = some (final header (s.below key (rows 0))) := by
  induction i generalizing current with
  | zero => exact h.walk_eq hi hc
  | succ i ih =>
    rw [Live.seek, h.walk_eq hi hc]
    exact ih (by omega) (h.below_subset i (final_mem _ _))

/-- What is behind the node found is read. -/
lemma found_eq (h : Owns live s rows) (key : K) :
    Live.found live s key (s.search key 0) = some (s.found key (s.search key)) := by
  rw [Live.found, h.next_row (Nat.zero_le _) (h.search_mem key 0), found]
  cases hnext : s.next 0 (s.search key 0) with
  | none => rfl
  | some b =>
    rw [h.toRows.search_eq, (h.chain_cut key 0).behind.next_eq] at hnext
    have hb : b ∈ rows 0 := (mem_above.mp (List.mem_of_mem_head? hnext)).1
    simp only [Option.bind_eq_bind, Option.bind_some,
      get_key_live (h.live_row (List.mem_cons_of_mem _ hb))]
    rfl

/-- `search_element` does what the unchecked one does. -/
lemma search_element_eq (h : Owns live s rows) (key : K) :
    Live.search_element live s key = some (s.search_element key) := by
  have hseek : Live.seek live s key s.skip_list_level header = some (s.search key 0) := by
    rw [h.seek_eq h.level_max List.mem_cons_self, h.toRows.search_eq]
  rw [Live.search_element, hseek, SkipList.search_element]
  simp only [Option.bind_eq_bind, Option.bind_some, h.found_eq]
  cases hf : s.found key (s.search key) with
  | none => rfl
  | some x =>
    have hx := (h.mem_of_found hf).1
    simp only [get_value_live (h.live_row (List.mem_cons_of_mem _ hx))]
    rfl

/-- `dump_file` does what the unchecked one does. -/
lemma dump_file_eq (h : Owns live s rows) : Live.dump_file live s = some s.dump := by
  rw [Live.dump_file, h.next_row (Nat.zero_le _) List.mem_cons_self, dump,
    (h.chain 0).collect (h.length_le 0)]
  exact collect_eq (h.chain 0) (fun b hb => h.live_row (List.mem_cons_of_mem _ hb)) (h.length_le 0)

/-- The destructor deletes every allocated node, each of them once. -/
lemma destroy_eq (h : Owns live s rows) : Live.destroy live s = some ∅ := by
  have hchain := h.chain 0
  have hnd := h.nodup 0
  have hlt := h.length_lt 0
  rw [Live.destroy, next_chain hchain h.header_live]
  cases hrow : rows 0 with
  | nil =>
    have hlive : live = {header} := by
      ext a
      rw [h.mem, hrow, List.mem_singleton, Finset.mem_singleton]
    show Live.free live header = some ∅
    rw [free_live h.header_live, hlive, Finset.erase_singleton]
  | cons b l =>
    rw [hrow] at hchain hnd hlt
    obtain ⟨hnot, hnd'⟩ := List.nodup_cons.mp hnd
    have hlive : ∀ c ∈ b :: l, c ∈ live := fun c hc =>
      h.live_row (hrow.symm ▸ List.mem_cons_of_mem _ hc : c ∈ header :: rows 0)
    obtain ⟨rest, hclear, hrest⟩ :=
      clear_eq hchain.2 hnd' hlive (Nat.lt_of_succ_lt hlt)
    have heq : rest = {header} := by
      ext a
      rw [hrest, h.mem, hrow, Finset.mem_singleton, List.mem_cons (l := b :: l)]
      constructor
      · rintro ⟨ha | ha, hnot'⟩
        · exact ha
        · exact absurd ha hnot'
      · rintro rfl
        exact ⟨Or.inl rfl, hnot⟩
    rw [heq] at hclear
    show Option.bind (Live.clear s live s.fresh b) _ = _
    rw [hclear, Option.bind_some, free_live (Finset.mem_singleton_self _), Finset.erase_singleton]

/-! ### Inserting and deleting -/

/-- What `insert_element` links behind: at every level of the new node an allocated node. -/
lemma raise_search (h : Owns live s rows) {noted : ℕ → Option ℕ}
    (hnoted : ∀ j ≤ s.skip_list_level, noted j = some (s.search key j)) (flips : ℕ) :
    ∃ raised, Live.raise s noted (s.skip_list_level + 1)
        (s.get_random_level flips - s.skip_list_level) = some raised ∧
      ∀ i < s.get_random_level flips + 1, ∃ a ∈ live, Live.look s raised i = some a ∧
        a = if s.skip_list_level < i ∧ i < s.get_random_level flips + 1 then header
          else s.search key i := by
  have hrandom := s.get_random_level_le flips
  have hmax := h.level_max
  have htop : s.skip_list_level + 1 + (s.get_random_level flips - s.skip_list_level) ≤
      s.max_level + 1 := by omega
  obtain ⟨raised, hraise, hraised⟩ := @raise_eq K V s noted _ _ htop
  refine ⟨raised, hraise, fun i hi => ⟨_, ?_, ?_, rfl⟩⟩
  · split_ifs
    · exact h.header_live
    · exact h.live_row (h.search_mem key i)
  · rw [look_eq (by omega), hraised]
    split_ifs
    · rfl
    · omega
    · omega
    · exact hnoted i (by omega)

/-- `insert_element` does what the unchecked one does, and the list owns its nodes afterwards. -/
lemma insert_element_eq (h : Owns live s rows) (flips : ℕ) (key : K) (value : V) :
    ∃ live' rows', Live.insert_element live s flips key value =
        some (live', s.insert_element flips key value) ∧
      Owns live' (s.insert_element flips key value).1 rows' := by
  obtain ⟨noted, hsearch, hnoted⟩ := h.search_eq key
  cases hf : s.found key (s.search key) with
  | some x =>
    refine ⟨live, rows, ?_, ?_⟩
    · rw [Live.insert_element, hsearch]
      simp only [Option.bind_eq_bind, Option.bind_some, h.found_eq, hf,
        insert_element_of_found hf]
      rfl
    · rw [insert_element_of_found hf]
      exact h
  | none =>
    refine ⟨insert s.fresh live, insertRows s rows key (s.get_random_level flips), ?_,
      h.toRows.insert_element hf flips value,
      h.headerTop.insert_element h.toRows flips key value, fun a => ?_⟩
    · obtain ⟨raised, hraise, hlook⟩ := h.raise_search hnoted flips
      have hlink : Live.link (insert s.fresh live) (s.created flips key value) raised s.fresh
          (s.get_random_level flips + 1) = Checked.link (s.created flips key value)
            (fun i => if s.skip_list_level < i ∧ i < s.get_random_level flips + 1 then header
              else s.search key i) s.fresh (s.get_random_level flips + 1) := by
        apply link_live (Finset.mem_insert_self s.fresh live)
        intro i hi
        obtain ⟨a, ha, hraised, heq⟩ := hlook i hi
        exact ⟨heq ▸ hraised, heq ▸ Finset.mem_insert_of_mem ha⟩
      have hchecked := h.checked_insert_element h.headerTop flips key value
      rw [Checked.insert_element, h.checked_search h.headerTop] at hchecked
      simp only [Option.bind_eq_bind, Option.bind_some, h.checked_found h.headerTop, hf]
        at hchecked
      obtain ⟨t, ht, hins⟩ := Option.bind_eq_some_iff.mp hchecked
      rw [Live.insert_element, hsearch]
      simp only [Option.bind_eq_bind, Option.bind_some, h.found_eq, hf, hraise]
      show Option.bind (Live.link (insert s.fresh live) (s.created flips key value) raised s.fresh
        (s.get_random_level flips + 1)) _ = _
      rw [hlink.trans ht, ← Option.some.inj hins]
      rfl
    · rw [Finset.mem_insert, h.mem, List.mem_cons, List.mem_cons, h.mem_insertRows]
      have := Nat.zero_le (s.get_random_level flips)
      tauto

/-- `delete_element` does what the unchecked one does, and the list owns its nodes afterwards. -/
lemma delete_element_eq (h : Owns live s rows) (key : K) :
    ∃ live' rows', Live.delete_element live s key = some (live', s.delete_element key) ∧
      Owns live' (s.delete_element key) rows' := by
  obtain ⟨noted, hsearch, hnoted⟩ := h.search_eq key
  cases hf : s.found key (s.search key) with
  | none =>
    have hs : s.delete_element key = s := by simp only [SkipList.delete_element, hf]
    refine ⟨live, rows, ?_, hs.symm ▸ h⟩
    rw [Live.delete_element, hsearch, hs]
    simp only [Option.bind_eq_bind, Option.bind_some, h.found_eq, hf]
    rfl
  | some x =>
    have hx := (h.mem_of_found hf).1
    have hlive : x ∈ live := h.live_row (List.mem_cons_of_mem header hx)
    refine ⟨live.erase x, fun i => (rows i).filter (· ≠ x), ?_, h.toRows.delete_element hf,
      h.headerTop.delete_element h.toRows key, fun a => ?_⟩
    · have hunlink : Live.unlink live s noted x 0 (s.skip_list_level + 1) =
          Checked.unlink s (s.search key) x 0 (s.skip_list_level + 1) := by
        apply unlink_live hlive
        intro j _ hj
        have hmax := h.level_max
        rw [look_eq (by omega), hnoted j (by omega)]
        exact ⟨rfl, h.live_row (h.search_mem key j)⟩
      have hchecked := h.checked_delete_element h.headerTop key
      rw [Checked.delete_element, h.checked_search h.headerTop] at hchecked
      simp only [Option.bind_eq_bind, Option.bind_some, h.checked_found h.headerTop, hf]
        at hchecked
      obtain ⟨t, ht, hshrunk⟩ := Option.bind_eq_some_iff.mp hchecked
      obtain ⟨level, hlevel, hdel⟩ := Option.bind_eq_some_iff.mp hshrunk
      rw [Live.delete_element, hsearch]
      simp only [Option.bind_eq_bind, Option.bind_some, h.found_eq, hf, hunlink, ht,
        shrink_live h.header_live, hlevel, free_live hlive]
      rw [← Option.some.inj hdel]
      rfl
    · have hpos : header ≠ x := (h.pos x hx).ne
      rw [Finset.mem_erase, h.mem, List.mem_cons, List.mem_cons, List.mem_filter]
      constructor
      · rintro ⟨hne, ha | ha⟩
        · exact Or.inl ha
        · exact Or.inr ⟨ha, decide_eq_true hne⟩
      · rintro (rfl | ⟨ha, hne⟩)
        · exact ⟨hpos, Or.inl rfl⟩
        · exact ⟨of_decide_eq_true hne, Or.inr ha⟩

/-- `insert_set_element` does what the unchecked one does, and the list owns its nodes afterwards. -/
lemma insert_set_element_eq (h : Owns live s rows) (flips : ℕ) (key : K) (value : V) :
    ∃ live' rows', Live.insert_set_element live s flips key value =
        some (live', s.insert_set_element flips key value) ∧
      Owns live' (s.insert_set_element flips key value) rows' := by
  rw [Live.insert_set_element, SkipList.insert_set_element]
  simp only [h.search_element_eq, Option.bind_eq_bind, Option.bind_some]
  split_ifs
  · obtain ⟨live₁, rows₁, hdel, h₁⟩ := h.delete_element_eq key
    obtain ⟨live₂, rows₂, hins, h₂⟩ := h₁.insert_element_eq flips key value
    refine ⟨live₂, rows₂, ?_, h₂⟩
    rw [hdel, Option.bind_some, hins]
    rfl
  · obtain ⟨live₁, rows₁, hins, h₁⟩ := h.insert_element_eq flips key value
    refine ⟨live₁, rows₁, ?_, h₁⟩
    rw [hins]
    rfl

end Owns

/-! ### Runs -/

/-- One call after the other, as long as only allocated nodes are touched. -/
def runLive (live : Finset ℕ) (s : SkipList K V) : List (Call K V) →
    Option (Finset ℕ × SkipList K V)
  | [] => some (live, s)
  | .insert_element flips key value :: calls => do
    let inserted ← Live.insert_element live s flips key value
    runLive inserted.1 inserted.2.1 calls
  | .delete_element key :: calls => do
    let deleted ← Live.delete_element live s key
    runLive deleted.1 deleted.2 calls
  | .insert_set_element flips key value :: calls => do
    let inserted ← Live.insert_set_element live s flips key value
    runLive inserted.1 inserted.2 calls

/-- In a run from a list whose allocated nodes are those of row `0` they stay so. -/
lemma Owns.runLive (h : Owns live s rows) (calls : List (Call K V)) :
    ∃ live' t rows', runLive live s calls = some (live', t) ∧ Owns live' t rows' ∧
      runChecked s calls = some t := by
  induction calls generalizing live s rows with
  | nil => exact ⟨live, s, rows, rfl, h, rfl⟩
  | cons call calls ih =>
    cases call with
    | insert_element flips key value =>
      obtain ⟨live₁, rows₁, heq, h₁⟩ := h.insert_element_eq flips key value
      obtain ⟨live₂, t, rows₂, hrun, h₂, hchecked⟩ := ih h₁
      refine ⟨live₂, t, rows₂, ?_, h₂, ?_⟩
      · rw [SkipList.runLive, heq]
        exact hrun
      · rw [SkipList.runChecked, (h.sound.insert_element flips key value).1]
        exact hchecked
    | delete_element key =>
      obtain ⟨live₁, rows₁, heq, h₁⟩ := h.delete_element_eq key
      obtain ⟨live₂, t, rows₂, hrun, h₂, hchecked⟩ := ih h₁
      refine ⟨live₂, t, rows₂, ?_, h₂, ?_⟩
      · rw [SkipList.runLive, heq]
        exact hrun
      · rw [SkipList.runChecked, (h.sound.delete_element key).1]
        exact hchecked
    | insert_set_element flips key value =>
      obtain ⟨live₁, rows₁, heq, h₁⟩ := h.insert_set_element_eq flips key value
      obtain ⟨live₂, t, rows₂, hrun, h₂, hchecked⟩ := ih h₁
      refine ⟨live₂, t, rows₂, ?_, h₂, ?_⟩
      · rw [SkipList.runLive, heq]
        exact hrun
      · rw [SkipList.runChecked, (h.sound.insert_set_element flips key value).1]
        exact hchecked

/-- An empty list owns its header. -/
lemma owns_create [Inhabited K] [Inhabited V] (max_level : ℕ) :
    ∃ rows, Owns {header} (create max_level : SkipList K V) rows := by
  obtain ⟨rows, hr⟩ := wellFormed_create (K := K) (V := V) max_level
  have hrow : rows 0 = [] := List.length_eq_zero_iff.mp (Int.natCast_eq_zero.mp hr.count.symm)
  refine ⟨rows, hr, rfl, fun a => ?_⟩
  rw [hrow, Finset.mem_singleton, List.mem_singleton]

/-- Whatever the calls and the random levels, only allocated nodes are touched, the calls do what
they do without the checks, as many nodes are allocated as there are elements and the header, and
the destructor deletes each of them once. -/
theorem runLive_create [Inhabited K] [Inhabited V] (max_level : ℕ) (calls : List (Call K V)) :
    ∃ (live : Finset ℕ) (t : SkipList K V),
      SkipList.runLive {header} (create max_level) calls = some (live, t) ∧
      SkipList.runChecked (create max_level) calls = some t ∧
      (live.card : ℤ) = t.element_count + 1 ∧
      (∀ key, Live.search_element live t key = some (t.search_element key)) ∧
      Live.dump_file live t = some t.dump ∧
      Live.destroy live t = some ∅ := by
  obtain ⟨rows₀, h₀⟩ := owns_create (K := K) (V := V) max_level
  obtain ⟨live, t, rows, hrun, h, hchecked⟩ := h₀.runLive calls
  exact ⟨live, t, hrun, hchecked, h.card, h.search_element_eq, h.dump_file_eq, h.destroy_eq⟩

end KVCacheRaft.SkipList
