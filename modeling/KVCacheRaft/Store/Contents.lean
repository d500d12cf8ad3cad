import KVCacheRaft.Store.Updates

/-!
# A skip list is a map

Whatever the levels of the nodes, the operations on a well-formed skip list act on the map
`search_element`: `insert_element` sets keys that are not there, `insert_set_element` sets any key,
`dump_file` lists the keys in order with their values, and `load_file` sets the dumped keys that are
not there, each to itself.
-/

namespace KVCacheRaft.SkipList
open Chains

variable {K V : Type} [LinearOrder K] {s : SkipList K V} {flips : ℕ} {key : K} {value : V}

/-- A key is found by both searches or by neither. -/
lemma found_eq_none_iff : s.found key (s.search key) = none ↔ s.search_element key = none := by
  rw [search_element, Option.map_eq_none_iff]

/-- A key that is there is left as it is. -/
lemma insert_element_of_found {x : ℕ} (hf : s.found key (s.search key) = some x) :
    s.insert_element flips key value = (s, 1) := by
  simp only [SkipList.insert_element, hf]

/-- An empty list is well formed. -/
theorem wellFormed_create [Inhabited K] [Inhabited V] (max_level : ℕ) :
    (create max_level : SkipList K V).WellFormed :=
  ⟨fun _ => [], {
    chain := fun _ => rfl
    sublist := fun _ => List.Sublist.refl _
    sorted := List.Pairwise.nil
    pos := by simp
    fresh_pos := Nat.one_pos
    lt_fresh := by simp
    level_le := by simp
    empty := fun _ _ => rfl
    level_max := Nat.zero_le _
    count := rfl }⟩

/-- Nothing is found in an empty list. -/
lemma search_create [Inhabited K] [Inhabited V] (max_level : ℕ) (key : K) :
    (create max_level : SkipList K V).search_element key = none := by
  simp [search_element, found, next, create]

namespace WellFormed

/-- An insertion leaves the list well formed. -/
lemma insert_element (h : s.WellFormed) (flips : ℕ) (key : K) (value : V) :
    (s.insert_element flips key value).1.WellFormed := by
  obtain ⟨rows, hr⟩ := h
  cases hf : s.found key (s.search key) with
  | none => exact ⟨_, hr.insert_element hf flips value⟩
  | some x =>
    rw [insert_element_of_found hf]
    exact ⟨rows, hr⟩

/-- `insert_element` refuses existing keys. -/
lemma search_insert_element (h : s.WellFormed) (flips : ℕ) (key : K) (value : V) :
    (s.insert_element flips key value).1.search_element =
      Function.update s.search_element key ((s.search_element key).or (some value)) := by
  obtain ⟨rows, hr⟩ := h
  cases hf : s.found key (s.search key) with
  | none =>
    rw [hr.search_insert_element hf flips value, found_eq_none_iff.mp hf]
    rfl
  | some x =>
    have hsome : (s.search_element key).or (some value) = s.search_element key := by
      rw [search_element, hf]
      rfl
    rw [insert_element_of_found hf, hsome, Function.update_eq_self]

/-- A deletion leaves the list well formed. -/
lemma delete_element (h : s.WellFormed) (key : K) : (s.delete_element key).WellFormed := by
  obtain ⟨rows, hr⟩ := h
  cases hf : s.found key (s.search key) with
  | none =>
    have hs : s.delete_element key = s := by simp only [SkipList.delete_element, hf]
    exact hs.symm ▸ ⟨rows, hr⟩
  | some x => exact ⟨_, hr.delete_element hf⟩

/-- A deletion takes its key out and no other. -/
lemma search_delete_element (h : s.WellFormed) (key : K) :
    (s.delete_element key).search_element = Function.update s.search_element key none := by
  obtain ⟨rows, hr⟩ := h
  cases hf : s.found key (s.search key) with
  | none =>
    have hs : s.delete_element key = s := by simp only [SkipList.delete_element, hf]
    rw [hs, ← found_eq_none_iff.mp hf, Function.update_eq_self]
  | some x => exact hr.search_delete_element hf

/-- `insert_set_element` leaves the list well formed. -/
lemma insert_set_element (h : s.WellFormed) (flips : ℕ) (key : K) (value : V) :
    (s.insert_set_element flips key value).WellFormed := by
  unfold SkipList.insert_set_element
  split_ifs
  · exact (h.delete_element key).insert_element _ _ _
  · exact h.insert_element _ _ _

/-- `insert_set_element` sets a key, whether it exists or not. -/
lemma search_insert_set_element (h : s.WellFormed) (flips : ℕ) (key : K) (value : V) :
    (s.insert_set_element flips key value).search_element =
      Function.update s.search_element key (some value) := by
  unfold SkipList.insert_set_element
  split_ifs with hsome
  · rw [(h.delete_element key).search_insert_element, h.search_delete_element]
    simp
  · rw [h.search_insert_element, Option.not_isSome_iff_eq_none.mp hsome]
    rfl

/-- The value that was set is found. -/
lemma search_insert_set_element_self (h : s.WellFormed) (flips : ℕ) (key : K) (value : V) :
    (s.insert_set_element flips key value).search_element key = some value := by
  rw [h.search_insert_set_element, Function.update_self]

/-- Other keys keep their values. -/
lemma search_insert_set_element_ne (h : s.WellFormed) (flips : ℕ) (value : V) {k : K}
    (hk : k ≠ key) :
    (s.insert_set_element flips key value).search_element k = s.search_element k := by
  rw [h.search_insert_set_element, Function.update_of_ne hk]

/-! ### Dumping and loading -/

/-- The keys of a dump are those that are found. -/
lemma mem_dump (h : s.WellFormed) : key ∈ s.dump.1 ↔ (s.search_element key).isSome := by
  obtain ⟨rows, hr⟩ := h
  rw [dump, (hr.chain 0).collect (hr.length_le 0), Option.isSome_iff_ne_none, ne_eq,
    hr.search_element_eq_none]
  simp

/-- Each key is dumped with its value. -/
theorem dump_values (h : s.WellFormed) : s.dump.1.map s.search_element = s.dump.2.map some := by
  obtain ⟨rows, hr⟩ := h
  rw [dump, (hr.chain 0).collect (hr.length_le 0), List.map_map, List.map_map]
  refine List.map_congr_left fun a ha => ?_
  exact hr.mem_search_element.mpr ⟨a, ha, rfl, rfl⟩

variable {t : SkipList K K} {keys : List K}

/-- Loading a dump leaves the list well formed. -/
lemma load (h : t.WellFormed) (flips : ℕ → ℕ) : (t.load flips keys).WellFormed := by
  induction keys generalizing t flips with
  | nil => exact h
  | cons k keys ih => exact ih (h.insert_element _ _ _) _

/-- `load_file` keeps what is there and sets the other keys of the dump to themselves. -/
theorem search_load (h : t.WellFormed) (flips : ℕ → ℕ) (key : K) :
    (t.load flips keys).search_element key =
      (t.search_element key).or (if key ∈ keys then some key else none) := by
  induction keys generalizing t flips with
  | nil => simp [SkipList.load]
  | cons k keys ih =>
    rw [SkipList.load, ih (h.insert_element _ _ _), h.search_insert_element]
    by_cases hk : key = k
    · subst hk
      cases t.search_element key <;> simp
    · rw [Function.update_of_ne hk]
      simp [hk]

end WellFormed

end KVCacheRaft.SkipList
