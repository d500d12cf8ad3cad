import KVCacheRaft.Store.Rows

/-!
# Inserting and deleting keeps the rows

`link` and `unlink` are the loops that change pointers; each changes level `i` at the place where the
search ended there. With the rows they leave behind, `insert_element`, `delete_element` and
`insert_set_element` are the updates of a map.
-/

namespace KVCacheRaft.SkipList
open Chains

variable {K V : Type}

/-! ### The pointer loops -/

section Pointers

variable {s s' s'' : SkipList K V} {update : ℕ → ℕ} {i j a x : ℕ} {b : Option ℕ}

/-- `s'` differs from `s` in pointers only. -/
structure SameData (s s' : SkipList K V) : Prop where
  max_level : s'.max_level = s.max_level
  skip_list_level : s'.skip_list_level = s.skip_list_level
  element_count : s'.element_count = s.element_count
  fresh : s'.fresh = s.fresh
  get_key : s'.get_key = s.get_key
  get_value : s'.get_value = s.get_value
  node_level : ∀ a, (s'.nodes a).node_level = (s.nodes a).node_level

/-- A list has its own data. -/
lemma SameData.refl (s : SkipList K V) : SameData s s := ⟨rfl, rfl, rfl, rfl, rfl, rfl, fun _ => rfl⟩

/-- Having the same data is transitive. -/
lemma SameData.trans (h : SameData s s') (h' : SameData s' s'') : SameData s s'' where
  max_level := h'.max_level.trans h.max_level
  skip_list_level := h'.skip_list_level.trans h.skip_list_level
  element_count := h'.element_count.trans h.element_count
  fresh := h'.fresh.trans h.fresh
  get_key := h'.get_key.trans h.get_key
  get_value := h'.get_value.trans h.get_value
  node_level a := (h'.node_level a).trans (h.node_level a)

/-- A link that is set is read back. -/
lemma next_setNext_self (s : SkipList K V) (i a : ℕ) (b : Option ℕ) :
    (s.setNext i a b).next i = Function.update (s.next i) a b := by
  funext c
  by_cases hc : c = a
  · subst hc; simp [next, setNext]
  · simp [next, setNext, hc]

/-- A link on another level stays. -/
lemma next_setNext_ne (h : j ≠ i) : (s.setNext i a b).next j = s.next j := by
  funext c
  by_cases hc : c = a
  · subst hc; simp [next, setNext, h]
  · simp [next, setNext, hc]

/-- Setting a link leaves the data. -/
lemma sameData_setNext (s : SkipList K V) (i a : ℕ) (b : Option ℕ) :
    SameData s (s.setNext i a b) := by
  have hdata : ∀ c, ((s.setNext i a b).nodes c).key = (s.nodes c).key ∧
      ((s.setNext i a b).nodes c).value = (s.nodes c).value ∧
      ((s.setNext i a b).nodes c).node_level = (s.nodes c).node_level := by
    intro c
    by_cases hc : c = a
    · subst hc; simp [setNext]
    · simp [setNext, hc]
  exact ⟨rfl, rfl, rfl, rfl, funext fun c => (hdata c).1, funext fun c => (hdata c).2.1,
    fun c => (hdata c).2.2⟩

/-- Linking a node in leaves the data. -/
lemma sameData_link (s : SkipList K V) (update : ℕ → ℕ) (x count : ℕ) :
    SameData s (s.link update x count) := by
  induction count with
  | zero => exact SameData.refl s
  | succ i ih => exact (ih.trans (sameData_setNext _ _ _ _)).trans (sameData_setNext _ _ _ _)

/-- Linking a node in changes two pointers at every level below `count`. -/
lemma next_link (s : SkipList K V) (update : ℕ → ℕ) (x count j : ℕ) :
    (s.link update x count).next j = if j < count then
      Function.update (Function.update (s.next j) x (s.next j (update j))) (update j) (some x)
      else s.next j := by
  induction count with
  | zero => simp [link]
  | succ i ih =>
    rw [link]
    by_cases hji : j = i
    · subst hji
      rw [if_neg (Nat.lt_irrefl j)] at ih
      rw [next_setNext_self, next_setNext_self, ih, if_pos (Nat.lt_succ_self j)]
    · rw [next_setNext_ne hji, next_setNext_ne hji, ih]
      by_cases hj : j < i
      · rw [if_pos hj, if_pos (by omega)]
      · rw [if_neg hj, if_neg (by omega)]

/-- Taking a node out leaves the data. -/
lemma sameData_unlink (s : SkipList K V) (update : ℕ → ℕ) (x i count : ℕ) :
    SameData s (s.unlink update x i count) := by
  induction count generalizing s i with
  | zero => exact SameData.refl s
  | succ count ih =>
    rw [unlink]
    split_ifs
    · exact SameData.refl s
    · exact (sameData_setNext s _ _ _).trans (ih _ _)

/-- Levels below `i` are not touched any more. -/
lemma next_unlink_of_lt (h : j < i) (count : ℕ) :
    (s.unlink update x i count).next j = s.next j := by
  induction count generalizing s i with
  | zero => rfl
  | succ count ih =>
    rw [unlink]
    split_ifs
    · rfl
    · rw [ih (by omega), next_setNext_ne (by omega)]

/-- Where the node follows `update j` at the levels below `top` and at no others, it is taken out at
just these. -/
lemma next_unlink {top count : ℕ} (hi : i ≤ top) (htop : top ≤ i + count)
    (hin : ∀ j, i ≤ j → j < top → s.next j (update j) = some x)
    (hout : ∀ j, top ≤ j → j < i + count → s.next j (update j) ≠ some x) (hij : i ≤ j) :
    (s.unlink update x i count).next j = if j < top then
      Function.update (s.next j) (update j) (s.next j x) else s.next j := by
  induction count generalizing s i with
  | zero => rw [unlink, if_neg (by omega)]
  | succ count ih =>
    rw [unlink]
    rcases Nat.lt_or_ge i top with hit | hit
    · rw [if_neg (not_not.mpr (hin i le_rfl hit))]
      rcases Nat.lt_or_ge i j with hj | hj
      · have hne : ∀ k, i + 1 ≤ k → (s.setNext i (update i) (s.next i x)).next k = s.next k :=
          fun k hk => next_setNext_ne (by omega)
        rw [ih hit (by omega) (fun k hk hkt => by rw [hne k hk]; exact hin k (by omega) hkt)
          (fun k hk hkc => ?_) hj, hne j hj]
        rw [hne k (by omega)]
        exact hout k hk (by omega)
      · obtain rfl : j = i := by omega
        rw [next_unlink_of_lt (Nat.lt_succ_self j), next_setNext_self, if_pos hit]
    · rw [if_pos (hout i hit (by omega)), if_neg (by omega)]

/-- The level is only ever lowered. -/
lemma shrink_le (s : SkipList K V) (level : ℕ) : s.shrink level ≤ level := by
  induction level with
  | zero => exact le_rfl
  | succ level ih =>
    rw [shrink]
    split_ifs
    · omega
    · exact le_rfl

/-- Only empty levels are dropped. -/
lemma shrink_empty {rows : ℕ → List ℕ}
    (hchain : ∀ i, Chain (s.next i) header (rows i)) {level : ℕ}
    (hl : s.shrink level < i) (hi : i ≤ level) : rows i = [] := by
  induction level with
  | zero => omega
  | succ level ih =>
    rw [shrink] at hl
    split_ifs at hl with hnone
    · rcases Nat.lt_or_ge level i with hlt | hge
      · obtain rfl : i = level + 1 := by omega
        rw [(hchain _).next_eq, List.head?_eq_none_iff] at hnone
        exact hnone
      · exact ih hl hge
    · omega

end Pointers

/-! ### Inserting -/

section Create

variable {s : SkipList K V} {key : K} {value : V} {node_level : ℕ}

/-- A random level is not above the highest. -/
lemma get_random_level_le (s : SkipList K V) (flips : ℕ) :
    s.get_random_level flips ≤ s.max_level := by
  unfold get_random_level
  split_ifs <;> omega

/-- A new node points nowhere. -/
lemma next_create_node (j : ℕ) :
    (s.create_node key value node_level).next j = Function.update (s.next j) s.fresh none := by
  funext a
  by_cases ha : a = s.fresh
  · subst ha; simp [next, create_node]
  · simp [next, create_node, ha]

/-- A new node has its key. -/
lemma get_key_create_node :
    (s.create_node key value node_level).get_key = Function.update s.get_key s.fresh key := by
  funext a
  by_cases ha : a = s.fresh
  · subst ha; simp [get_key, create_node]
  · simp [get_key, create_node, ha]

/-- A new node has its value. -/
lemma get_value_create_node :
    (s.create_node key value node_level).get_value = Function.update s.get_value s.fresh value := by
  funext a
  by_cases ha : a = s.fresh
  · subst ha; simp [get_value, create_node]
  · simp [get_value, create_node, ha]

end Create

variable [LinearOrder K] {s s' : SkipList K V} {rows : ℕ → List ℕ} {key : K} {value : V}
  {i : ℕ}

/-- The list with its level raised for a new node, and the node created. -/
def created (s : SkipList K V) (flips : ℕ) (key : K) (value : V) : SkipList K V :=
  { s with
    skip_list_level :=
      if s.get_random_level flips > s.skip_list_level then s.get_random_level flips
      else s.skip_list_level }.create_node key value (s.get_random_level flips)

/-- `insert_element` of a key that is not there changes the pointers of the created list. -/
lemma insert_element_cases (h : s.Rows rows) (hf : s.found key (s.search key) = none) (flips : ℕ)
    (value : V) :
    ∃ t : SkipList K V,
      s.insert_element flips key value = ({ t with element_count := t.element_count + 1 }, 0) ∧
      SameData (s.created flips key value) t ∧
      ∀ j, t.next j = if j ≤ s.get_random_level flips then
        Function.update (Function.update ((s.created flips key value).next j) s.fresh
          ((s.created flips key value).next j (final header (s.below key (rows j)))))
          (final header (s.below key (rows j))) (some s.fresh)
        else (s.created flips key value).next j := by
  have hupdate : (fun i => if s.skip_list_level < i ∧ i < s.get_random_level flips + 1 then header
      else s.search key i) = fun i => final header (s.below key (rows i)) := by
    funext i
    split_ifs with hi
    · rw [h.empty i hi.1]
      rfl
    · exact h.search_eq key i
  refine ⟨(s.created flips key value).link (fun i => final header (s.below key (rows i))) s.fresh
    (s.get_random_level flips + 1), ?_, sameData_link _ _ _ _, fun j => ?_⟩
  · simp only [insert_element, hf, hupdate]
    rfl
  · rw [next_link]
    simp only [Nat.lt_succ_iff]

/-- The rows with a new node of `random_level` linked in. -/
def insertRows (s : SkipList K V) (rows : ℕ → List ℕ) (key : K) (random_level i : ℕ) : List ℕ :=
  if i ≤ random_level then s.below key (rows i) ++ s.fresh :: s.above key (rows i) else rows i

namespace Rows

/-- A new node is in no row. -/
lemma fresh_notMem (h : s.Rows rows) (i : ℕ) : s.fresh ∉ header :: rows i := by
  intro hm
  rcases List.mem_cons.mp hm with hm | hm
  · exact h.fresh_pos.ne' hm
  · exact Nat.lt_irrefl _ (h.lt_fresh _ ((h.sublist_zero i).subset hm))

/-- A new node is in the rows up to its level, and every old one where it was. -/
lemma mem_insertRows (h : s.Rows rows) {random_level a : ℕ} :
    a ∈ insertRows s rows key random_level i ↔ a ∈ rows i ∨ i ≤ random_level ∧ a = s.fresh := by
  rw [insertRows]
  split_ifs with hi
  · conv_rhs => rw [← h.cut key i]
    simp only [List.mem_append, List.mem_cons]
    tauto
  · tauto

/-- The rows with a new node still thin out. -/
lemma sublist_insertRows (h : s.Rows rows) (random_level : ℕ) :
    (insertRows s rows key random_level (i + 1)).Sublist (insertRows s rows key random_level i) := by
  have hs := h.sublist i
  rw [insertRows, insertRows]
  split_ifs with h1 h2
  · exact (hs.filter _).append ((hs.filter _).cons_cons _)
  · omega
  · refine hs.trans ?_
    conv_lhs => rw [← h.cut key i]
    exact (List.Sublist.refl _).append (List.sublist_cons_self _ _)
  · exact hs

/-- The keys are in order again. -/
lemma sorted_insertRows (h : s.Rows rows) (hf : s.found key (s.search key) = none)
    (random_level : ℕ) : (insertRows s rows key random_level 0).Pairwise fun a b =>
      Function.update s.get_key s.fresh key a < Function.update s.get_key s.fresh key b := by
  have hne : ∀ a ∈ rows 0, a ≠ s.fresh := fun a ha => (h.lt_fresh a ha).ne
  have hkey : ∀ a ∈ rows 0, s.get_key a ≠ key := by
    rw [h.found_eq, List.find?_eq_none] at hf
    simpa using hf
  have hmem : ∀ a, a ∈ s.below key (rows 0) ∨ a ∈ s.above key (rows 0) → a ∈ rows 0 := by
    rintro a (ha | ha)
    · exact (mem_below.mp ha).1
    · exact (mem_above.mp ha).1
  have hsorted := h.cut key 0 ▸ h.sorted
  obtain ⟨h1, h2, h3⟩ := List.pairwise_append.mp hsorted
  have hold : ∀ {l : List ℕ}, (∀ a ∈ l, a ∈ rows 0) → l.Pairwise (fun a b => s.get_key a < s.get_key b) →
      l.Pairwise fun a b =>
        Function.update s.get_key s.fresh key a < Function.update s.get_key s.fresh key b := by
    intro l hl hp
    refine hp.imp_of_mem fun ha hb hab => ?_
    rwa [Function.update_of_ne (hne _ (hl _ ha)), Function.update_of_ne (hne _ (hl _ hb))]
  rw [insertRows, if_pos (Nat.zero_le _)]
  refine List.pairwise_append.mpr ⟨hold (fun a ha => hmem a (.inl ha)) h1,
    List.pairwise_cons.mpr ⟨fun a ha => ?_, hold (fun a ha => hmem a (.inr ha)) h2⟩,
    fun a ha b hb => ?_⟩
  · have hr := hmem a (.inr ha)
    have hge := (mem_above.mp ha).2
    rw [Function.update_self, Function.update_of_ne (hne a hr)]
    exact hge.lt_of_ne' (hkey a hr)
  · have hr := hmem a (.inl ha)
    rw [Function.update_of_ne (hne a hr)]
    rcases List.mem_cons.mp hb with rfl | hb
    · rw [Function.update_self]
      exact (mem_below.mp ha).2
    · rw [Function.update_of_ne (hne b (hmem b (.inr hb)))]
      exact h3 a ha b hb

/-- `insert_element` of a key that is not there links a node for it into the rows. -/
lemma insert_element (h : s.Rows rows) (hf : s.found key (s.search key) = none) (flips : ℕ)
    (value : V) :
    (s.insert_element flips key value).1.Rows
      (insertRows s rows key (s.get_random_level flips)) := by
  obtain ⟨t, ht, hd, hnext⟩ := insert_element_cases h hf flips value
  rw [ht]
  have hkey : t.get_key = Function.update s.get_key s.fresh key :=
    hd.get_key.trans get_key_create_node
  have hlevel : ∀ a, (t.nodes a).node_level =
      if a = s.fresh then s.get_random_level flips else (s.nodes a).node_level := by
    intro a
    rw [hd.node_level, created, create_node]
    by_cases ha : a = s.fresh
    · subst ha; simp
    · simp [ha]
  -- the pointers of the old nodes are those of the created list
  have hold : ∀ j, Chain ((s.created flips key value).next j) header (rows j) := by
    intro j
    rw [created, next_create_node]
    refine (h.chain j).congr fun b hb => ?_
    have hne : b ≠ s.fresh := fun hb' => h.fresh_notMem j (hb' ▸ hb)
    exact Function.update_of_ne hne _ _
  exact {
    chain := fun j => by
      change Chain (t.next j) header _
      rw [hnext j, insertRows]
      split_ifs with hj
      · have hrow := hold j
        rw [← h.cut key j] at hrow
        exact hrow.insert (by rw [h.cut]; exact h.nodup j) (by rw [h.cut]; exact h.fresh_notMem j)
      · exact hold j
    sublist := fun j => h.sublist_insertRows _
    sorted := by
      change (insertRows s rows key (s.get_random_level flips) 0).Pairwise
        fun a b => t.get_key a < t.get_key b
      rw [hkey]
      exact h.sorted_insertRows hf _
    pos := fun a ha => by
      rcases h.mem_insertRows.mp ha with ha | ⟨-, rfl⟩
      · exact h.pos a ha
      · exact h.fresh_pos
    fresh_pos := hd.fresh.symm ▸ Nat.succ_pos _
    lt_fresh := fun a ha => by
      change a < t.fresh
      rw [hd.fresh]
      rcases h.mem_insertRows.mp ha with ha | ⟨-, rfl⟩
      · exact (h.lt_fresh a ha).trans (Nat.lt_succ_self _)
      · exact Nat.lt_succ_self _
    level_le := fun j a ha => by
      change j ≤ (t.nodes a).node_level
      rw [hlevel]
      rcases h.mem_insertRows.mp ha with ha | ⟨hj, rfl⟩
      · have hne : a ≠ s.fresh := fun hb => h.fresh_notMem j (hb ▸ List.mem_cons_of_mem _ ha)
        rw [if_neg hne]
        exact h.level_le j a ha
      · rwa [if_pos rfl]
    empty := fun j hj => by
      change t.skip_list_level < j at hj
      rw [hd.skip_list_level] at hj
      have hj' : s.get_random_level flips < j ∧ s.skip_list_level < j := by
        simp only [created, create_node] at hj
        split_ifs at hj <;> omega
      rw [insertRows, if_neg (by omega)]
      exact h.empty j hj'.2
    level_max := by
      change t.skip_list_level ≤ t.max_level
      rw [hd.skip_list_level, hd.max_level]
      have h1 := get_random_level_le s flips
      have h2 := h.level_max
      simp only [created, create_node]
      split_ifs <;> omega
    count := by
      change t.element_count + 1 = _
      have hcount : t.element_count = s.element_count := hd.element_count
      have hlen := congrArg List.length (h.cut key 0)
      have := h.count
      rw [insertRows, if_pos (Nat.zero_le _)]
      simp only [List.length_append, List.length_cons] at hlen ⊢
      omega }

/-- A new key gets its value and no other key changes. -/
lemma search_insert_element (h : s.Rows rows) (hf : s.found key (s.search key) = none) (flips : ℕ)
    (value : V) :
    (s.insert_element flips key value).1.search_element =
      Function.update s.search_element key (some value) := by
  have h' := h.insert_element hf flips value
  obtain ⟨t, ht, hd, -⟩ := insert_element_cases h hf flips value
  have hkey : t.get_key = Function.update s.get_key s.fresh key :=
    hd.get_key.trans get_key_create_node
  have hvalue : t.get_value = Function.update s.get_value s.fresh value :=
    hd.get_value.trans get_value_create_node
  rw [ht] at h' ⊢
  have hne : ∀ a ∈ rows 0, a ≠ s.fresh := fun a ha => (h.lt_fresh a ha).ne
  have hnone : ∀ a ∈ rows 0, s.get_key a ≠ key := by
    rw [h.found_eq, List.find?_eq_none] at hf
    simpa using hf
  funext k
  apply Option.ext
  intro v
  rw [h'.mem_search_element]
  change (∃ a ∈ _, t.get_key a = k ∧ t.get_value a = v) ↔ _
  by_cases hk : k = key
  · subst hk
    rw [Function.update_self, hkey, hvalue]
    constructor
    · rintro ⟨a, ha, hak, hav⟩
      rcases h.mem_insertRows.mp ha with ha | ⟨-, rfl⟩
      · rw [Function.update_of_ne (hne a ha)] at hak
        exact absurd hak (hnone a ha)
      · simpa using hav
    · intro hv
      exact ⟨s.fresh, h.mem_insertRows.mpr (.inr ⟨Nat.zero_le _, rfl⟩), by simp, by simpa using hv⟩
  · rw [Function.update_of_ne hk, h.mem_search_element, hkey, hvalue]
    constructor
    · rintro ⟨a, ha, hak, hav⟩
      rcases h.mem_insertRows.mp ha with ha | ⟨-, rfl⟩
      · rw [Function.update_of_ne (hne a ha)] at hak hav
        exact ⟨a, ha, hak, hav⟩
      · exact absurd (by simpa using hak.symm) hk
    · rintro ⟨a, ha, hak, hav⟩
      refine ⟨a, h.mem_insertRows.mpr (.inl ha), ?_⟩
      rw [Function.update_of_ne (hne a ha), Function.update_of_ne (hne a ha)]
      exact ⟨hak, hav⟩

/-! ### Deleting -/

variable {x : ℕ}

/-- A node that is found is in the lowest row and has the key. -/
lemma mem_of_found (h : s.Rows rows) (hf : s.found key (s.search key) = some x) :
    x ∈ rows 0 ∧ s.get_key x = key := by
  rw [h.found_eq] at hf
  exact ⟨List.mem_of_find?_eq_some hf, by simpa using List.find?_some hf⟩

/-- At the levels of the node with the key, and only there, it is the next one. -/
lemma head_above (h : s.Rows rows) (hk : s.get_key x = key) (j : ℕ) :
    (s.above key (rows j)).head? = some x ↔ x ∈ rows j := by
  constructor
  · intro hhead
    exact (mem_above.mp (List.mem_of_mem_head? hhead)).1
  · intro hxj
    have hxa : x ∈ s.above key (rows j) := mem_above.mpr ⟨hxj, hk.ge⟩
    have hsorted : (s.above key (rows j)).Pairwise fun a b => s.get_key a < s.get_key b :=
      (h.sorted_row j).sublist List.filter_sublist
    cases habove : s.above key (rows j) with
    | nil => simp [habove] at hxa
    | cons b l =>
      rw [habove] at hxa hsorted
      rcases List.mem_cons.mp hxa with rfl | hxl
      · rfl
      · have hb : b ∈ s.above key (rows j) := habove ▸ List.mem_cons_self
        have hge := (mem_above.mp hb).2
        have hlt := (List.pairwise_cons.mp hsorted).1 x hxl
        exact absurd (hk ▸ hlt) hge.not_gt

/-- The levels of a node are those below some level. -/
lemma exists_top (h : s.Rows rows) (x : ℕ) :
    ∃ top ≤ s.skip_list_level + 1, ∀ j, x ∈ rows j ↔ j < top := by
  have hex : ∃ j, x ∉ rows j :=
    ⟨s.skip_list_level + 1, by simp [h.empty _ (Nat.lt_succ_self _)]⟩
  have hanti : ∀ {j k : ℕ}, j ≤ k → x ∈ rows k → x ∈ rows j := by
    intro j k hjk
    induction hjk with
    | refl => exact id
    | step _ ih => exact fun hx => ih ((h.sublist _).subset hx)
  refine ⟨Nat.find hex, Nat.find_le ?_, fun j => ⟨fun hx => ?_, fun hj => ?_⟩⟩
  · simp [h.empty _ (Nat.lt_succ_self _)]
  · by_contra hge
    exact Nat.find_spec hex (hanti (not_lt.mp hge) hx)
  · exact not_not.mp (Nat.find_min hex hj)

/-- The pointers after the loop of `delete_element`. -/
lemma next_unlink_search (h : s.Rows rows) (hk : s.get_key x = key) (j : ℕ) :
    (s.unlink (s.search key) x 0 (s.skip_list_level + 1)).next j = if x ∈ rows j then
      Function.update (s.next j) (final header (s.below key (rows j))) (s.next j x)
      else s.next j := by
  obtain ⟨top, htop, hmem⟩ := h.exists_top x
  have hnext : ∀ j, s.next j (s.search key j) = some x ↔ j < top := by
    intro j
    rw [h.search_eq, (h.chain_cut key j).behind.next_eq, h.head_above hk, hmem]
  have hun : (s.unlink (s.search key) x 0 (s.skip_list_level + 1)).next j = if j < top then
      Function.update (s.next j) (s.search key j) (s.next j x) else s.next j :=
    next_unlink (Nat.zero_le top) (by omega) (fun j _ hj => (hnext j).mpr hj)
      (fun j hj _ heq => by have := (hnext j).mp heq; omega) (Nat.zero_le j)
  rw [hun, h.search_eq]
  simp only [hmem]

/-- `delete_element` of a key that is there changes pointers, the level and the count. -/
lemma delete_element_cases (h : s.Rows rows) (hf : s.found key (s.search key) = some x) :
    ∃ t : SkipList K V, s.delete_element key = { t with
        skip_list_level := t.shrink t.skip_list_level
        element_count := t.element_count - 1 } ∧
      SameData s t ∧ ∀ j, t.next j = if x ∈ rows j then
        Function.update (s.next j) (final header (s.below key (rows j))) (s.next j x)
        else s.next j := by
  refine ⟨s.unlink (s.search key) x 0 (s.skip_list_level + 1), ?_, sameData_unlink _ _ _ _ _,
    h.next_unlink_search (h.mem_of_found hf).2⟩
  simp only [SkipList.delete_element, hf]

/-- `delete_element` of a key that is there takes its node out of every row. -/
lemma delete_element (h : s.Rows rows) (hf : s.found key (s.search key) = some x) :
    (s.delete_element key).Rows fun i => (rows i).filter (· ≠ x) := by
  obtain ⟨hx, hk⟩ := h.mem_of_found hf
  obtain ⟨t, hdel, hd, hnext⟩ := h.delete_element_cases hf
  have hchain : ∀ j, Chain (t.next j) header ((rows j).filter (· ≠ x)) := by
    intro j
    rw [hnext]
    split_ifs with hxj
    · obtain ⟨rest, hrest⟩ := List.head?_eq_some_iff.mp ((h.head_above hk j).mpr hxj)
      have hc := h.chain_cut key j
      have hcut := h.cut key j
      have hnd := h.nodup j
      rw [hrest] at hc hcut
      rw [← hcut] at hnd
      have hfilter := filter_ne_eq (List.nodup_cons.mp hnd).2
      rw [hcut] at hfilter
      rw [hfilter]
      exact hc.remove hnd
    · rw [filter_ne_of_notMem hxj]
      exact h.chain j
  have hsub : ∀ {j : ℕ} {a : ℕ}, a ∈ (rows j).filter (· ≠ x) → a ∈ rows j :=
    fun ha => (List.mem_filter.mp ha).1
  rw [hdel]
  exact {
    chain := hchain
    sublist := fun j => (h.sublist j).filter _
    sorted := by
      change ((rows 0).filter (· ≠ x)).Pairwise fun a b => t.get_key a < t.get_key b
      rw [hd.get_key]
      exact h.sorted.sublist List.filter_sublist
    pos := fun a ha => h.pos a (hsub ha)
    fresh_pos := hd.fresh.symm ▸ h.fresh_pos
    lt_fresh := fun a ha => hd.fresh.symm ▸ h.lt_fresh a (hsub ha)
    level_le := fun j a ha => by
      change j ≤ (t.nodes a).node_level
      rw [hd.node_level]
      exact h.level_le j a (hsub ha)
    empty := fun j hj => by
      change t.shrink t.skip_list_level < j at hj
      rcases Nat.lt_or_ge t.skip_list_level j with hlt | hge
      · rw [hd.skip_list_level] at hlt
        rw [h.empty j hlt]
        rfl
      · exact shrink_empty hchain hj hge
    level_max := by
      change t.shrink t.skip_list_level ≤ t.max_level
      have := h.level_max
      rw [hd.max_level]
      exact (shrink_le t _).trans (hd.skip_list_level.le.trans h.level_max)
    count := by
      change t.element_count - 1 = _
      have hlen := length_filter_ne (List.nodup_cons.mp (h.nodup 0)).2 hx
      rw [hd.element_count, h.count]
      omega }

/-- The key is gone and no other key changes. -/
lemma search_delete_element (h : s.Rows rows) (hf : s.found key (s.search key) = some x) :
    (s.delete_element key).search_element = Function.update s.search_element key none := by
  obtain ⟨hx, hk⟩ := h.mem_of_found hf
  have h' := h.delete_element hf
  obtain ⟨t, hdel, hd, -⟩ := h.delete_element_cases hf
  rw [hdel] at h' ⊢
  funext k
  apply Option.ext
  intro v
  rw [h'.mem_search_element]
  change (∃ a ∈ _, t.get_key a = k ∧ t.get_value a = v) ↔ _
  rw [hd.get_key, hd.get_value]
  by_cases hkk : k = key
  · subst hkk
    rw [Function.update_self]
    constructor
    · rintro ⟨a, ha, hak, -⟩
      obtain ⟨ha, hax⟩ := List.mem_filter.mp ha
      exact absurd (h.key_inj ha hx (hak.trans hk.symm)) (by simpa using hax)
    · intro hv
      cases hv
  · rw [Function.update_of_ne hkk, h.mem_search_element]
    constructor
    · rintro ⟨a, ha, hak⟩
      exact ⟨a, (List.mem_filter.mp ha).1, hak⟩
    · rintro ⟨a, ha, hak, hav⟩
      have hax : a ≠ x := fun hax => hkk (by rw [← hak, hax, hk])
      exact ⟨a, List.mem_filter.mpr ⟨ha, by simpa using hax⟩, hak, hav⟩

end Rows

end KVCacheRaft.SkipList
