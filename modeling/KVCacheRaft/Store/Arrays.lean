import Mathlib.Data.Finmap
import KVCacheRaft.Store.Contents

/-!
# The forward arrays

The operations of the skip list once more, with every look at `forward[i]` and every change of it
checked: outside the array of the node there is no result. A run from an empty skip list always has
one, and it is the run of the unchecked operations.
-/

namespace KVCacheRaft.SkipList
open Chains

/-! ### Checked operations -/

namespace Checked

variable {K V : Type}

/-- `a->forward[i]`. -/
def next (s : SkipList K V) (i a : ℕ) : Option (Option ℕ) :=
  if i ≤ (s.nodes a).node_level then some (s.next i a) else none

/-- `a->forward[i] = b`. -/
def setNext (s : SkipList K V) (i a : ℕ) (b : Option ℕ) : Option (SkipList K V) :=
  if i ≤ (s.nodes a).node_level then some (s.setNext i a b) else none

/-- The loop of `insert_element` that links `inserted_node` in. -/
def link (s : SkipList K V) (update : ℕ → ℕ) (inserted_node : ℕ) : ℕ → Option (SkipList K V)
  | 0 => some s
  | i + 1 => do
    let s ← link s update inserted_node i
    let s ← setNext s i inserted_node (← next s i (update i))
    setNext s i (update i) (some inserted_node)

/-- The loop of `delete_element` that takes `current` out. -/
def unlink (s : SkipList K V) (update : ℕ → ℕ) (current i : ℕ) : ℕ → Option (SkipList K V)
  | 0 => some s
  | count + 1 => do
    if (← next s i (update i)) ≠ some current then return s
    let s ← setNext s i (update i) (← next s i current)
    unlink s update current (i + 1) count

/-- The loop of `delete_element` that drops empty levels. -/
def shrink (s : SkipList K V) : ℕ → Option ℕ
  | 0 => some 0
  | level + 1 => do
    if (← next s (level + 1) header) = none then shrink s level else some (level + 1)

variable [LinearOrder K]

/-- The loops down from level `i`. -/
def descend (s : SkipList K V) (key : K) : ℕ → ℕ → (ℕ → ℕ) → Option (ℕ → ℕ)
  | 0, current, update => do
    let current ← walkIn (next s 0) (fun b => s.get_key b < key) s.fresh current
    return Function.update update 0 current
  | i + 1, current, update => do
    let current ← walkIn (next s (i + 1)) (fun b => s.get_key b < key) s.fresh current
    descend s key i current (Function.update update (i + 1) current)

/-- The array `update` after the loops. -/
def search (s : SkipList K V) (key : K) : Option (ℕ → ℕ) :=
  descend s key s.skip_list_level header fun _ => header

/-- The node with `key` behind the end of the search. -/
def found (s : SkipList K V) (key : K) (update : ℕ → ℕ) : Option (Option ℕ) := do
  match ← next s 0 (update 0) with
  | none => return none
  | some current => return if s.get_key current = key then some current else none

/-- `search_element`. -/
def search_element (s : SkipList K V) (key : K) : Option (Option V) := do
  let update ← search s key
  return (← found s key update).map s.get_value

/-- `insert_element`. -/
def insert_element (s : SkipList K V) (flips : ℕ) (key : K) (value : V) :
    Option (SkipList K V × ℤ) := do
  let update ← search s key
  match ← found s key update with
  | some _ => return (s, 1)
  | none =>
    let random_level := s.get_random_level flips
    let update : ℕ → ℕ := fun i =>
      if s.skip_list_level < i ∧ i < random_level + 1 then header else update i
    let inserted_node := s.fresh
    let s := { s with
      skip_list_level :=
        if random_level > s.skip_list_level then random_level else s.skip_list_level }
    let s := s.create_node key value random_level
    let s ← link s update inserted_node (random_level + 1)
    return ({ s with element_count := s.element_count + 1 }, 0)

/-- `delete_element`. -/
def delete_element (s : SkipList K V) (key : K) : Option (SkipList K V) := do
  let update ← search s key
  match ← found s key update with
  | none => return s
  | some current =>
    let s ← unlink s update current 0 (s.skip_list_level + 1)
    let skip_list_level ← shrink s s.skip_list_level
    return { s with skip_list_level, element_count := s.element_count - 1 }

/-- `insert_set_element`. -/
def insert_set_element (s : SkipList K V) (flips : ℕ) (key : K) (value : V) :
    Option (SkipList K V) := do
  let s ← if (← search_element s key).isSome then delete_element s key else some s
  return (← insert_element s flips key value).1

end Checked

/-! ### The checks pass -/

section Pointers

variable {K V : Type} {s : SkipList K V} {update : ℕ → ℕ} {a x i : ℕ}

/-- The array of the header reaches up to the maximal level. -/
def HeaderTop (s : SkipList K V) : Prop := (s.nodes header).node_level = s.max_level

/-- A level that the node has is read. -/
lemma checked_next (h : i ≤ (s.nodes a).node_level) : Checked.next s i a = some (s.next i a) :=
  if_pos h

/-- A level that the node has is written. -/
lemma checked_setNext (h : i ≤ (s.nodes a).node_level) (b : Option ℕ) :
    Checked.setNext s i a b = some (s.setNext i a b) := if_pos h

/-- A new node is linked in on levels that both sides have. -/
lemma checked_link {count : ℕ} (hx : ∀ i < count, i ≤ (s.nodes x).node_level)
    (hu : ∀ i < count, i ≤ (s.nodes (update i)).node_level) :
    Checked.link s update x count = some (s.link update x count) := by
  induction count with
  | zero => rfl
  | succ i ih =>
    have hlink := ih (fun j hj => hx j (hj.trans i.lt_succ_self))
      fun j hj => hu j (hj.trans i.lt_succ_self)
    have hd := sameData_link s update x i
    have hd' := sameData_setNext (s.link update x i) i x ((s.link update x i).next i (update i))
    have hxi : i ≤ ((s.link update x i).nodes x).node_level :=
      (hd.node_level x).symm ▸ hx i i.lt_succ_self
    have hui : i ≤ ((s.link update x i).nodes (update i)).node_level :=
      (hd.node_level _).symm ▸ hu i i.lt_succ_self
    rw [Checked.link, hlink, Option.bind_eq_bind, Option.bind_some, checked_next hui]
    simp only [Option.bind_eq_bind, Option.bind_some, checked_setNext hxi]
    exact checked_setNext ((hd'.node_level _).symm ▸ hui) _

/-- A node is taken out on levels that both sides have. -/
lemma checked_unlink {count : ℕ}
    (hu : ∀ j, i ≤ j → j < i + count → j ≤ (s.nodes (update j)).node_level)
    (hx : ∀ j, i ≤ j → j < i + count → s.next j (update j) = some x → j ≤ (s.nodes x).node_level) :
    Checked.unlink s update x i count = some (s.unlink update x i count) := by
  induction count generalizing s i with
  | zero => rfl
  | succ count ih =>
    have hui := hu i le_rfl (by omega)
    rw [Checked.unlink, unlink, checked_next hui]
    simp only [Option.bind_eq_bind, Option.bind_some]
    split_ifs with hne
    · rfl
    · have hxi := hx i le_rfl (by omega) (not_not.mp hne)
      have hd := sameData_setNext s i (update i) (s.next i x)
      rw [checked_next hxi, Option.bind_some, checked_setNext hui, Option.bind_some]
      apply ih
      · intro j hj hlt
        rw [hd.node_level]
        exact hu j (by omega) (by omega)
      · intro j hj hlt
        -- the levels above are as they were
        rw [hd.node_level, next_setNext_ne (by omega : j ≠ i)]
        exact hx j (by omega) (by omega)

/-- The header has the levels that the list is lowered by. -/
lemma checked_shrink {level : ℕ} (h : level ≤ (s.nodes header).node_level) :
    Checked.shrink s level = some (s.shrink level) := by
  induction level with
  | zero => rfl
  | succ level ih =>
    rw [Checked.shrink, shrink, checked_next h]
    simp only [Option.bind_eq_bind, Option.bind_some]
    split_ifs
    · exact ih (by omega)
    · rfl

end Pointers

variable {K V : Type} [LinearOrder K] {s : SkipList K V} {m : Finmap fun _ : K => V}
  {rows : ℕ → List ℕ} {update : ℕ → ℕ} {flips : ℕ} {key : K} {value : V} {a x i : ℕ}

namespace Rows

/-- A row is inside the arrays of its nodes and of the header. -/
lemma in_array (h : s.Rows rows) (ht : s.HeaderTop) (hi : i ≤ s.max_level)
    (ha : a ∈ header :: rows i) : i ≤ (s.nodes a).node_level := by
  cases List.mem_cons.mp ha with
  | inl heq => exact heq ▸ (ht.symm ▸ hi : i ≤ (s.nodes header).node_level)
  | inr hmem => exact h.level_le i a hmem

/-- A row is shorter than the number of nodes ever made. -/
lemma length_lt (h : s.Rows rows) (i : ℕ) : (rows i).length < s.fresh := by
  have hsub : header :: rows i ⊆ List.range s.fresh := by
    intro a ha
    apply List.mem_range.mpr
    cases List.mem_cons.mp ha with
    | inl heq => exact heq ▸ h.fresh_pos
    | inr hmem => exact h.lt_fresh a ((h.sublist_zero i).subset hmem)
  have hle := ((h.nodup i).subperm hsub).length_le
  rw [List.length_cons, List.length_range] at hle
  exact hle

/-- The checked walk along a row is the unchecked one. -/
lemma walkIn_eq (h : s.Rows rows) (ht : s.HeaderTop) (hi : i ≤ s.max_level) {current : ℕ}
    (hc : current ∈ header :: s.below key (rows i)) :
    walkIn (Checked.next s i) (fun b => s.get_key b < key) s.fresh current =
      some (walk (s.next i) (fun b => s.get_key b < key) s.fresh current) := by
  rw [h.walk_eq hc]
  obtain ⟨rest, hchain, hfinal, hsub, hlen⟩ := h.exists_rest hc
  rw [hfinal]
  have hbelow : header :: s.below key (rows i) ⊆ header :: rows i :=
    List.cons_subset_cons _ (List.filter_subset_self _)
  apply hchain.walkIn
  · intro b hb
    apply checked_next
    apply h.in_array ht hi
    cases List.mem_cons.mp hb with
    | inl heq => exact heq ▸ hbelow hc
    | inr hmem => exact hbelow (List.mem_cons_of_mem _ (hsub hmem))
  · intro b hb
    exact decide_eq_true (mem_below.mp (hsub hb)).2
  · intro b hb
    exact decide_eq_false (mem_above.mp hb).2.not_gt
  · exact hlen.trans_lt (h.length_lt i)

/-- The checked descent is the unchecked one. -/
lemma checked_descend (h : s.Rows rows) (ht : s.HeaderTop) (hi : i ≤ s.max_level) {current : ℕ}
    (hc : current ∈ header :: s.below key (rows i)) :
    Checked.descend s key i current update = some (s.descend key i current update) := by
  induction i generalizing current update with
  | zero =>
    rw [Checked.descend, h.walkIn_eq ht hi hc]
    rfl
  | succ i ih =>
    rw [Checked.descend, h.walkIn_eq ht hi hc]
    show Checked.descend s key i _ _ = some (s.descend key i _ _)
    rw [h.walk_eq hc]
    exact ih (by omega) (h.below_subset i (final_mem _ _))

/-- The checked search is the unchecked one. -/
lemma checked_search (h : s.Rows rows) (ht : s.HeaderTop) (key : K) :
    Checked.search s key = some (s.search key) :=
  h.checked_descend ht h.level_max List.mem_cons_self

/-- The search ends on each level at the header or at a node of the row. -/
lemma search_mem (h : s.Rows rows) (key : K) (i : ℕ) : s.search key i ∈ header :: rows i := by
  rw [h.search_eq]
  exact List.cons_subset_cons _ (List.filter_subset_self _) (final_mem _ _)

/-- What is behind the node found is read in range. -/
lemma checked_found (h : s.Rows rows) (ht : s.HeaderTop) (key : K) :
    Checked.found s key (s.search key) = some (s.found key (s.search key)) := by
  have h0 := h.in_array ht (Nat.zero_le _) (h.search_mem key 0)
  rw [Checked.found, found, checked_next h0]
  cases s.next 0 (s.search key 0) with
  | none => rfl
  | some current => rfl

/-- `search_element` reads in range. -/
theorem checked_search_element (h : s.Rows rows) (ht : s.HeaderTop) (key : K) :
    Checked.search_element s key = some (s.search_element key) := by
  rw [Checked.search_element, h.checked_search ht, Option.bind_eq_bind, Option.bind_some,
    h.checked_found ht]
  rfl

/-- `insert_element` reads and writes in range. -/
lemma checked_insert_element (h : s.Rows rows) (ht : s.HeaderTop) (flips : ℕ) (key : K)
    (value : V) :
    Checked.insert_element s flips key value = some (s.insert_element flips key value) := by
  rw [Checked.insert_element, h.checked_search ht, Option.bind_eq_bind, Option.bind_some,
    h.checked_found ht, Option.bind_eq_bind, Option.bind_some]
  cases hf : s.found key (s.search key) with
  | some x =>
    rw [insert_element_of_found hf]
    rfl
  | none =>
    have hlevel : ∀ a, ((s.created flips key value).nodes a).node_level =
        if a = s.fresh then s.get_random_level flips else (s.nodes a).node_level := by
      intro a
      rw [created, create_node]
      by_cases ha : a = s.fresh
      · subst ha; simp
      · simp [ha]
    have hrandom := s.get_random_level_le flips
    have hx : ∀ i < s.get_random_level flips + 1,
        i ≤ ((s.created flips key value).nodes s.fresh).node_level := by
      intro i hi
      rw [hlevel, if_pos rfl]
      exact Nat.lt_succ_iff.mp hi
    have hu : ∀ i < s.get_random_level flips + 1, i ≤ ((s.created flips key value).nodes
        (if s.skip_list_level < i ∧ i < s.get_random_level flips + 1 then header
          else s.search key i)).node_level := by
      intro i hi
      have hmem : (if s.skip_list_level < i ∧ i < s.get_random_level flips + 1 then header
          else s.search key i) ∈ header :: rows i := by
        split_ifs
        · exact List.mem_cons_self
        · exact h.search_mem key i
      have hne : (if s.skip_list_level < i ∧ i < s.get_random_level flips + 1 then header
          else s.search key i) ≠ s.fresh := fun heq => h.fresh_notMem i (heq ▸ hmem)
      rw [hlevel, if_neg hne]
      exact h.in_array ht (by omega) hmem
    simp only [SkipList.insert_element, hf]
    show Option.bind (Checked.link (s.created flips key value) _ _ _) _ = _
    rw [checked_link hx hu]
    rfl

/-- `delete_element` reads and writes in range. -/
lemma checked_delete_element (h : s.Rows rows) (ht : s.HeaderTop) (key : K) :
    Checked.delete_element s key = some (s.delete_element key) := by
  rw [Checked.delete_element, h.checked_search ht, Option.bind_eq_bind, Option.bind_some,
    h.checked_found ht, Option.bind_eq_bind, Option.bind_some]
  cases hf : s.found key (s.search key) with
  | none =>
    simp only [SkipList.delete_element, hf]
    rfl
  | some x =>
    have hk := (h.mem_of_found hf).2
    have hd := sameData_unlink s (s.search key) x 0 (s.skip_list_level + 1)
    have hunlink : Checked.unlink s (s.search key) x 0 (s.skip_list_level + 1) =
        some (s.unlink (s.search key) x 0 (s.skip_list_level + 1)) := by
      apply checked_unlink
      · intro j _ hj
        exact h.in_array ht (h.level_max.trans' (by omega)) (h.search_mem key j)
      · intro j _ _ hnext
        rw [h.search_eq, (h.chain_cut key j).behind.next_eq, h.head_above hk] at hnext
        exact h.level_le j x hnext
    have hlevel : (s.unlink (s.search key) x 0 (s.skip_list_level + 1)).skip_list_level ≤
        ((s.unlink (s.search key) x 0 (s.skip_list_level + 1)).nodes header).node_level := by
      rw [hd.skip_list_level, hd.node_level, ht]
      exact h.level_max
    simp only [SkipList.delete_element, hf]
    rw [hunlink, Option.bind_eq_bind, Option.bind_some, checked_shrink hlevel]
    rfl

end Rows

/-! ### The array of the header -/

/-- An insertion keeps the header on every level. -/
lemma HeaderTop.insert_element (ht : s.HeaderTop) (h : s.Rows rows) (flips : ℕ) (key : K)
    (value : V) : (s.insert_element flips key value).1.HeaderTop := by
  cases hf : s.found key (s.search key) with
  | some x =>
    rw [insert_element_of_found hf]
    exact ht
  | none =>
    obtain ⟨t, hins, hd, -⟩ := insert_element_cases h hf flips value
    have hne : header ≠ s.fresh := h.fresh_pos.ne
    rw [hins]
    show (t.nodes header).node_level = t.max_level
    rw [hd.node_level, hd.max_level, created, create_node]
    show (Function.update s.nodes s.fresh _ header).node_level = s.max_level
    rw [Function.update_of_ne hne]
    exact ht

/-- A deletion keeps the header on every level. -/
lemma HeaderTop.delete_element (ht : s.HeaderTop) (h : s.Rows rows) (key : K) :
    (s.delete_element key).HeaderTop := by
  cases hf : s.found key (s.search key) with
  | none =>
    have hs : s.delete_element key = s := by simp only [SkipList.delete_element, hf]
    exact hs.symm ▸ ht
  | some x =>
    obtain ⟨t, hdel, hd, -⟩ := h.delete_element_cases hf
    rw [hdel]
    show (t.nodes header).node_level = t.max_level
    rw [hd.node_level, hd.max_level]
    exact ht

/-- A skip list that is well formed, with an array of full length at the header. -/
def Sound (s : SkipList K V) : Prop := s.WellFormed ∧ s.HeaderTop

namespace Sound

/-- An insertion into a sound list is in range and leaves it sound. -/
lemma insert_element (h : s.Sound) (flips : ℕ) (key : K) (value : V) :
    Checked.insert_element s flips key value = some (s.insert_element flips key value) ∧
      (s.insert_element flips key value).1.Sound := by
  obtain ⟨hwf, ht⟩ := h
  have hwf' := hwf.insert_element flips key value
  obtain ⟨rows, hr⟩ := hwf
  exact ⟨hr.checked_insert_element ht flips key value, hwf', ht.insert_element hr flips key value⟩

/-- A deletion from a sound list is in range and leaves it sound. -/
lemma delete_element (h : s.Sound) (key : K) :
    Checked.delete_element s key = some (s.delete_element key) ∧ (s.delete_element key).Sound := by
  obtain ⟨hwf, ht⟩ := h
  have hwf' := hwf.delete_element key
  obtain ⟨rows, hr⟩ := hwf
  exact ⟨hr.checked_delete_element ht key, hwf', ht.delete_element hr key⟩

/-- A search in a sound list is in range. -/
lemma search_element (h : s.Sound) (key : K) :
    Checked.search_element s key = some (s.search_element key) := by
  obtain ⟨⟨rows, hr⟩, ht⟩ := h
  exact hr.checked_search_element ht key

/-- `insert_set_element` on a sound list is in range and leaves it sound. -/
lemma insert_set_element (h : s.Sound) (flips : ℕ) (key : K) (value : V) :
    Checked.insert_set_element s flips key value = some (s.insert_set_element flips key value) ∧
      (s.insert_set_element flips key value).Sound := by
  rw [Checked.insert_set_element, h.search_element, SkipList.insert_set_element]
  simp only [Option.bind_eq_bind, Option.bind_some]
  split_ifs
  · obtain ⟨hdel, h'⟩ := h.delete_element key
    obtain ⟨hins, h''⟩ := h'.insert_element flips key value
    rw [hdel, Option.bind_some, hins]
    exact ⟨rfl, h''⟩
  · obtain ⟨hins, h'⟩ := h.insert_element flips key value
    rw [hins]
    exact ⟨rfl, h'⟩

end Sound

/-! ### Runs -/

/-- A call, with what `rand()` gives in it. -/
inductive Call (K V : Type)
  | insert_element (flips : ℕ) (key : K) (value : V)
  | delete_element (key : K)
  | insert_set_element (flips : ℕ) (key : K) (value : V)

/-- One call after the other, as long as every access is inside its array. -/
def runChecked (s : SkipList K V) : List (Call K V) → Option (SkipList K V)
  | [] => some s
  | .insert_element flips key value :: calls => do
    runChecked (← Checked.insert_element s flips key value).1 calls
  | .delete_element key :: calls => do
    runChecked (← Checked.delete_element s key) calls
  | .insert_set_element flips key value :: calls => do
    runChecked (← Checked.insert_set_element s flips key value) calls

/-- A call on a finite map: `insert_element` keeps a value that is there. -/
def Call.onMap (m : Finmap fun _ : K => V) : Call K V → Finmap fun _ : K => V
  | .insert_element _ key value => if key ∈ m then m else m.insert key value
  | .delete_element key => m.erase key
  | .insert_set_element _ key value => m.insert key value

/-- The keys and values of a skip list are those of a finite map. -/
def Holds (s : SkipList K V) (m : Finmap fun _ : K => V) : Prop :=
  ∀ key, s.search_element key = m.lookup key

/-- The keys of the map are those found in the list. -/
lemma Holds.mem (hm : s.Holds m) : key ∈ m ↔ (s.search_element key).isSome := by
  rw [hm key, Finmap.lookup_isSome]

/-- A new list holds nothing. -/
lemma holds_create [Inhabited K] [Inhabited V] (max_level : ℕ) :
    (create max_level : SkipList K V).Holds ∅ := by
  intro key
  rw [search_create, Finmap.lookup_empty]

/-- `insert_set_element` puts the value under the key. -/
lemma Holds.insert_set_element (hm : s.Holds m) (h : s.WellFormed) (flips : ℕ) (key : K)
    (value : V) : (s.insert_set_element flips key value).Holds (m.insert key value) := by
  intro k
  cases eq_or_ne k key with
  | inl heq => rw [heq, h.search_insert_set_element_self, Finmap.lookup_insert]
  | inr hne => rw [h.search_insert_set_element_ne _ _ hne, Finmap.lookup_insert_of_ne _ hne, hm k]

/-- `delete_element` takes the key out. -/
lemma Holds.delete_element (hm : s.Holds m) (h : s.WellFormed) (key : K) :
    (s.delete_element key).Holds (m.erase key) := by
  intro k
  rw [h.search_delete_element]
  cases eq_or_ne k key with
  | inl heq => rw [heq, Function.update_self, Finmap.lookup_erase]
  | inr hne => rw [Function.update_of_ne hne, Finmap.lookup_erase_ne hne, hm k]

/-- `insert_element` puts the value under a key that is not there yet. -/
lemma Holds.insert_element (hm : s.Holds m) (h : s.WellFormed) (flips : ℕ) (key : K) (value : V) :
    (s.insert_element flips key value).1.Holds (if key ∈ m then m else m.insert key value) := by
  intro k
  rw [h.search_insert_element]
  cases hs : s.search_element key with
  | some v =>
    have hmem : key ∈ m := hm.mem.mpr (by rw [hs]; rfl)
    rw [if_pos hmem, Option.some_or, ← hs, Function.update_eq_self, hm k]
  | none =>
    have hmem : key ∉ m := fun hmem => by simpa [hs] using hm.mem.mp hmem
    rw [if_neg hmem, Option.none_or]
    cases eq_or_ne k key with
    | inl heq => rw [heq, Function.update_self, Finmap.lookup_insert]
    | inr hne => rw [Function.update_of_ne hne, Finmap.lookup_insert_of_ne _ hne, hm k]

/-- A run stays inside the arrays and does to the map what it does to the skip list. -/
lemma Sound.runChecked (h : s.Sound) (hm : s.Holds m) (calls : List (Call K V)) :
    ∃ t, runChecked s calls = some t ∧ t.Sound ∧ t.Holds (calls.foldl Call.onMap m) := by
  induction calls generalizing s m with
  | nil => exact ⟨s, rfl, h, hm⟩
  | cons call calls ih =>
    cases call with
    | insert_element flips key value =>
      obtain ⟨heq, h'⟩ := h.insert_element flips key value
      obtain ⟨t, hrun, ht⟩ := ih h' (hm.insert_element h.1 flips key value)
      refine ⟨t, ?_, ht⟩
      rw [SkipList.runChecked, heq]
      exact hrun
    | delete_element key =>
      obtain ⟨heq, h'⟩ := h.delete_element key
      obtain ⟨t, hrun, ht⟩ := ih h' (hm.delete_element h.1 key)
      refine ⟨t, ?_, ht⟩
      rw [SkipList.runChecked, heq]
      exact hrun
    | insert_set_element flips key value =>
      obtain ⟨heq, h'⟩ := h.insert_set_element flips key value
      obtain ⟨t, hrun, ht⟩ := ih h' (hm.insert_set_element h.1 flips key value)
      refine ⟨t, ?_, ht⟩
      rw [SkipList.runChecked, heq]
      exact hrun

/-- Whatever the calls and the random levels, no access is outside its array, the levels are
increasing chains that get thinner, and what is found is what a finite map holds. -/
theorem runChecked_create [Inhabited K] [Inhabited V] (max_level : ℕ) (calls : List (Call K V)) :
    ∃ (t : SkipList K V) (rows : ℕ → List ℕ),
      SkipList.runChecked (create max_level) calls = some t ∧
      (∀ i, Chain (t.next i) header (rows i)) ∧
      (∀ i, (rows i).Pairwise fun a b => t.get_key a < t.get_key b) ∧
      (∀ i, (rows (i + 1)).Sublist (rows i)) ∧
      t.element_count = (rows 0).length ∧
      ∀ key, Checked.search_element t key = some ((calls.foldl Call.onMap ∅).lookup key) := by
  have hsound : (create max_level : SkipList K V).Sound := ⟨wellFormed_create max_level, rfl⟩
  obtain ⟨t, hrun, ht, hm⟩ := hsound.runChecked (holds_create max_level) calls
  obtain ⟨rows, hr⟩ := ht.1
  refine ⟨t, rows, hrun, hr.chain, hr.sorted_row, hr.sublist, hr.count, fun key => ?_⟩
  rw [ht.search_element, hm key]

end KVCacheRaft.SkipList
