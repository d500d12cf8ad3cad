import Mathlib.Data.List.Sort
import Mathlib.Data.List.Perm.Subperm
import KVCacheRaft.Store.SkipList

/-!
# What a skip list holds

`Rows s rows` says that level `i` of a skip list is the chain `rows i` behind the header. The rows
get thinner with the level, the keys in them increase, and so every search ends behind the nodes of
row `0` with smaller keys. Searching and dumping are read off row `0`; inserting and deleting give a
skip list with other rows.
-/

namespace KVCacheRaft.SkipList
open Chains

variable {K V : Type} [LinearOrder K]

/-- Level `i` of the skip list is `rows i`. -/
structure Rows (s : SkipList K V) (rows : ℕ → List ℕ) : Prop where
  chain : ∀ i, Chain (s.next i) header (rows i)
  sublist : ∀ i, (rows (i + 1)).Sublist (rows i)
  sorted : (rows 0).Pairwise fun a b => s.get_key a < s.get_key b
  pos : ∀ a ∈ rows 0, 0 < a
  fresh_pos : 0 < s.fresh
  lt_fresh : ∀ a ∈ rows 0, a < s.fresh
  /-- the pointers of level `i` are inside their arrays -/
  level_le : ∀ i, ∀ a ∈ rows i, i ≤ (s.nodes a).node_level
  empty : ∀ i, s.skip_list_level < i → rows i = []
  level_max : s.skip_list_level ≤ s.max_level
  count : s.element_count = (rows 0).length

/-- A skip list whose levels are rows. -/
def WellFormed (s : SkipList K V) : Prop := ∃ rows, s.Rows rows

/-- The nodes of a row with smaller keys. -/
def below (s : SkipList K V) (key : K) (row : List ℕ) : List ℕ :=
  row.filter fun a => s.get_key a < key

/-- The nodes of a row with keys that are not smaller. -/
def above (s : SkipList K V) (key : K) (row : List ℕ) : List ℕ :=
  row.filter fun a => key ≤ s.get_key a

variable {s s' : SkipList K V} {rows : ℕ → List ℕ} {key : K} {i : ℕ}

/-- What is below the key has a smaller one. -/
lemma mem_below {row : List ℕ} {a : ℕ} : a ∈ s.below key row ↔ a ∈ row ∧ s.get_key a < key := by
  simp [below]

/-- What is above the key has none smaller. -/
lemma mem_above {row : List ℕ} {a : ℕ} : a ∈ s.above key row ↔ a ∈ row ∧ key ≤ s.get_key a := by
  simp [above]

/-- An increasing row is cut in two by a key. -/
lemma below_append_above {row : List ℕ} (h : row.Pairwise fun a b => s.get_key a < s.get_key b) :
    s.below key row ++ s.above key row = row := by
  induction row with
  | nil => rfl
  | cons a row ih =>
    obtain ⟨ha, hrow⟩ := List.pairwise_cons.mp h
    rcases lt_or_ge (s.get_key a) key with hlt | hge
    · simpa [below, above, hlt, hlt.not_ge] using ih hrow
    · -- all the keys behind are larger still
      have hall : ∀ b ∈ row, key ≤ s.get_key b := fun b hb => hge.trans (ha b hb).le
      have hnil : s.below key (a :: row) = [] := by simpa [below, hge] using hall
      have habove : s.above key (a :: row) = a :: row := by simpa [above, hge] using hall
      rw [hnil, habove, List.nil_append]

namespace Rows

/-- Every row is a part of the lowest. -/
lemma sublist_zero (h : s.Rows rows) (i : ℕ) : (rows i).Sublist (rows 0) := by
  induction i with
  | zero => exact List.Sublist.refl _
  | succ i ih => exact (h.sublist i).trans ih

/-- Every row is sorted. -/
lemma sorted_row (h : s.Rows rows) (i : ℕ) :
    (rows i).Pairwise fun a b => s.get_key a < s.get_key b := h.sorted.sublist (h.sublist_zero i)

/-- The key cuts a row in two. -/
lemma cut (h : s.Rows rows) (key : K) (i : ℕ) :
    s.below key (rows i) ++ s.above key (rows i) = rows i := below_append_above (h.sorted_row i)

/-- No node is twice in a row. -/
lemma nodup (h : s.Rows rows) (i : ℕ) : (header :: rows i).Nodup := by
  refine List.nodup_cons.mpr ⟨fun hm => ?_, ?_⟩
  · exact Nat.lt_irrefl 0 (h.pos 0 ((h.sublist_zero i).subset hm))
  · exact (h.sorted_row i).imp fun hlt heq => (heq ▸ hlt).false

/-- The addresses in use are enough fuel for a row. -/
lemma length_le (h : s.Rows rows) (i : ℕ) : (rows i).length ≤ s.fresh := by
  have hsub : rows i ⊆ List.range s.fresh := fun a ha =>
    List.mem_range.mpr (h.lt_fresh a ((h.sublist_zero i).subset ha))
  have := ((List.nodup_cons.mp (h.nodup i)).2.subperm hsub).length_le
  simpa using this

/-- The links of a level are cut in two by the key. -/
lemma chain_cut (h : s.Rows rows) (key : K) (i : ℕ) :
    Chain (s.next i) header (s.below key (rows i) ++ s.above key (rows i)) := by
  rw [h.cut]
  exact h.chain i

/-- No two nodes have the same key. -/
lemma key_inj (h : s.Rows rows) {a b : ℕ} (ha : a ∈ rows 0) (hb : b ∈ rows 0)
    (heq : s.get_key a = s.get_key b) : a = b := by
  have hnd : ((rows 0).map s.get_key).Nodup :=
    List.pairwise_map.mpr (h.sorted.imp fun hlt => hlt.ne)
  exact List.inj_on_of_nodup_map hnd ha hb heq

/-! ### Searching -/

/-- Behind a node from which a search goes on are the rest of the smaller keys and the others. -/
lemma exists_rest (h : s.Rows rows) {current : ℕ} (hc : current ∈ header :: s.below key (rows i)) :
    ∃ rest, Chain (s.next i) current (rest ++ s.above key (rows i)) ∧
      final header (s.below key (rows i)) = final current rest ∧
      rest ⊆ s.below key (rows i) ∧ rest.length ≤ (rows i).length := by
  obtain ⟨l₁, l₂, hl, rfl⟩ := exists_final hc
  have hchain := h.chain_cut key i
  rw [hl, List.append_assoc] at hchain
  refine ⟨l₂, hchain.behind, by rw [hl, final_append], hl ▸ List.subset_append_right l₁ l₂, ?_⟩
  calc l₂.length ≤ (s.below key (rows i)).length := by rw [hl]; simp
    _ ≤ (rows i).length := List.length_filter_le _ _

/-- At one level, from anywhere behind the smaller keys, the loop gets to the last of them. -/
lemma walk_eq (h : s.Rows rows) {current : ℕ} (hc : current ∈ header :: s.below key (rows i)) :
    walk (s.next i) (fun b => s.get_key b < key) s.fresh current =
      final header (s.below key (rows i)) := by
  obtain ⟨rest, hchain, hfinal, hsub, hlen⟩ := h.exists_rest hc
  rw [hfinal]
  apply hchain.walk
  · intro b hb
    exact decide_eq_true (mem_below.mp (hsub hb)).2
  · intro b hb
    exact decide_eq_false (mem_above.mp hb).2.not_gt
  · exact hlen.trans (h.length_le i)

/-- What is below the key on one level is below it on the next lower one. -/
lemma below_subset (h : s.Rows rows) (i : ℕ) :
    header :: s.below key (rows (i + 1)) ⊆ header :: s.below key (rows i) :=
  List.cons_subset_cons _ ((h.sublist i).filter _).subset

/-- The descent turns down on each level behind what is below the key. -/
lemma descend_eq (h : s.Rows rows) {current : ℕ} {update : ℕ → ℕ}
    (hc : current ∈ header :: s.below key (rows i)) (j : ℕ) :
    s.descend key i current update j =
      if j ≤ i then final header (s.below key (rows j)) else update j := by
  induction i generalizing current update with
  | zero =>
    rw [descend, h.walk_eq hc]
    by_cases hj : j = 0
    · subst hj; simp
    · rw [Function.update_of_ne hj, if_neg (by omega)]
  | succ i ih =>
    rw [descend, h.walk_eq hc, ih (h.below_subset i (final_mem _ _))]
    by_cases hj : j ≤ i
    · rw [if_pos hj, if_pos (by omega)]
    · rw [if_neg hj]
      by_cases hji : j = i + 1
      · subst hji; simp
      · rw [Function.update_of_ne hji, if_neg (by omega)]

/-- At every level the search ends behind the smaller keys. -/
lemma search_eq (h : s.Rows rows) (key : K) (j : ℕ) :
    s.search key j = final header (s.below key (rows j)) := by
  rw [search, h.descend_eq List.mem_cons_self]
  by_cases hj : j ≤ s.skip_list_level
  · rw [if_pos hj]
  · rw [if_neg hj, h.empty j (by omega)]
    rfl

/-- What the search has found is the node of row `0` with the key. -/
lemma found_eq (h : s.Rows rows) (key : K) :
    s.found key (s.search key) = (rows 0).find? fun a => s.get_key a = key := by
  have hnext : s.next 0 (s.search key 0) = (s.above key (rows 0)).head? := by
    rw [h.search_eq]
    exact (h.chain_cut key 0).behind.next_eq
  have hbelow : (s.below key (rows 0)).find? (fun a => s.get_key a = key) = none := by
    rw [List.find?_eq_none]
    intro a ha heq
    simp only [decide_eq_true_eq] at heq
    exact (mem_below.mp ha).2.ne heq
  have hfind : (rows 0).find? (fun a => s.get_key a = key) =
      (s.above key (rows 0)).find? fun a => s.get_key a = key := by
    conv_lhs => rw [← h.cut key 0, List.find?_append, hbelow, Option.none_or]
  have hsorted : (s.above key (rows 0)).Pairwise fun a b => s.get_key a < s.get_key b :=
    h.sorted.sublist List.filter_sublist
  have hge : ∀ b ∈ s.above key (rows 0), key ≤ s.get_key b := fun b hb => (mem_above.mp hb).2
  rw [found, hnext, hfind]
  cases habove : s.above key (rows 0) with
  | nil => rfl
  | cons b l =>
    rw [habove] at hsorted hge
    obtain ⟨hb, -⟩ := List.pairwise_cons.mp hsorted
    by_cases hk : s.get_key b = key
    · simp [hk]
    · have hlt : key < s.get_key b := (hge b List.mem_cons_self).lt_of_ne' hk
      have hnone : (b :: l).find? (fun a => s.get_key a = key) = none := by
        rw [List.find?_eq_none]
        intro c hc
        rcases List.mem_cons.mp hc with rfl | hc
        · simpa using hk
        · simpa using (hlt.trans (hb c hc)).ne'
      rw [hnone]
      simp [hk]

/-- `search_element` looks the key up in row `0`. -/
lemma search_element_eq (h : s.Rows rows) (key : K) :
    s.search_element key = ((rows 0).find? fun a => s.get_key a = key).map s.get_value := by
  rw [search_element, h.found_eq]

/-- Row `0` as the map it stands for. -/
lemma mem_search_element (h : s.Rows rows) {value : V} :
    s.search_element key = some value ↔ ∃ a ∈ rows 0, s.get_key a = key ∧ s.get_value a = value := by
  rw [h.search_element_eq, Option.map_eq_some_iff]
  constructor
  · rintro ⟨a, ha, hv⟩
    exact ⟨a, List.mem_of_find?_eq_some ha, by simpa using List.find?_some ha, hv⟩
  · rintro ⟨a, ha, hk, hv⟩
    cases hfind : (rows 0).find? fun a => s.get_key a = key with
    | none => exact absurd hk (by simpa using List.find?_eq_none.mp hfind a ha)
    | some b =>
      have hb : s.get_key b = key := by simpa using List.find?_some hfind
      have hmem := List.mem_of_find?_eq_some hfind
      have heq : b = a := h.key_inj hmem ha (hb.trans hk.symm)
      exact ⟨b, rfl, heq ▸ hv⟩

/-- No value is found for a key that no node has. -/
lemma search_element_eq_none (h : s.Rows rows) :
    s.search_element key = none ↔ ∀ a ∈ rows 0, s.get_key a ≠ key := by
  rw [h.search_element_eq, Option.map_eq_none_iff, List.find?_eq_none]
  simp

end Rows

end KVCacheRaft.SkipList
