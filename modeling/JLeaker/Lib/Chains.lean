import Mathlib.Data.List.GetD
import Mathlib.Data.List.Nodup

/-!
# Items in chains

A table keeps items that have a key in a list of chains: an item stands in the chain of the slot of
its key, and no two items have the same key.  Read one after another, the chains are one list of items
with a key each, and an operation on the chain of a key is the same operation on that list: up to the
order of the items for one that adds an item.
-/

namespace Chains

variable {K Item : Type*} [DecidableEq K] {key : Item → K} {items items' : List Item} {k : K}
  {x : Item}

/-! ## Lists of items -/

/-- The first item of a key. -/
def find (key : Item → K) (items : List Item) (k : K) : Option Item :=
  items.find? fun x => decide (key x = k)

theorem find_cons : find key (x :: items) k = if key x = k then some x else find key items k := by
  unfold find
  rw [List.find?_cons]
  by_cases h : key x = k
  · rw [if_pos h, decide_eq_true h]
  · rw [if_neg h, decide_eq_false h]

theorem find_eq_none_iff : find key items k = none ↔ k ∉ items.map key := by
  simp [find]

/-- Where every key has one item, looking for a key finds its item. -/
theorem find_eq_some_iff (keyed : (items.map key).Nodup) :
    find key items k = some x ↔ x ∈ items ∧ key x = k := by
  induction items with
  | nil => simp [find]
  | cons y items ih =>
    rw [List.map_cons, List.nodup_cons] at keyed
    rw [find_cons, List.mem_cons]
    by_cases h : key y = k
    · rw [if_pos h, Option.some.injEq]
      constructor
      · rintro rfl
        exact ⟨.inl rfl, h⟩
      · rintro ⟨rfl | hx, hk⟩
        · rfl
        · exact absurd (List.mem_map_of_mem (f := key) hx) (h.trans hk.symm ▸ keyed.1)
    · rw [if_neg h, ih keyed.2]
      constructor
      · exact fun ⟨hx, hk⟩ => ⟨.inr hx, hk⟩
      · rintro ⟨rfl | hx, hk⟩
        · exact absurd hk h
        · exact ⟨hx, hk⟩

/-- The order of the items does not matter. -/
theorem find_perm (perm : items.Perm items') (keyed : (items.map key).Nodup) :
    find key items k = find key items' k := by
  apply Option.ext
  intro x
  rw [find_eq_some_iff keyed, find_eq_some_iff ((perm.map key).nodup_iff.1 keyed), perm.mem_iff]

/-- A function that keeps the keys. -/
theorem find_map {Item' : Type*} {key' : Item' → K} (f : Item → Item')
    (keeps : ∀ x, key' (f x) = key x) : find key' (items.map f) k = (find key items k).map f := by
  induction items with
  | nil => rfl
  | cons y items ih =>
    rw [List.map_cons, find_cons, find_cons, keeps, ih]
    split_ifs <;> rfl

omit [DecidableEq K] in
theorem keys_map {Item' : Type*} {key' : Item' → K} (f : Item → Item')
    (keeps : ∀ x, key' (f x) = key x) : (items.map f).map key' = items.map key := by
  rw [List.map_map]
  exact List.map_congr_left fun x _ => keeps x

/-! ## Chains -/

variable {slot : K → ℕ} {chains : List (List Item)} {i : ℕ} {chain : List Item}

/-- Each item stands in the chain of its slot, and no two items of a chain have the same key. -/
structure Placed (key : Item → K) (slot : K → ℕ) (chains : List (List Item)) : Prop where
  slot_eq : ∀ i, ∀ x ∈ chains.getD i [], slot (key x) = i
  nodup : ∀ i, ((chains.getD i []).map key).Nodup

theorem getD_set (hi : i < chains.length) (j : ℕ) :
    (chains.set i chain).getD j [] = if j = i then chain else chains.getD j [] := by
  rw [List.getD_eq_getElem?_getD, List.getD_eq_getElem?_getD, List.getElem?_set]
  by_cases h : i = j
  · subst h
    rw [if_pos rfl, if_pos rfl, if_pos hi, Option.getD_some]
  · rw [if_neg h, if_neg fun h' => h h'.symm]

omit [DecidableEq K] in
theorem mem_flatten_iff : x ∈ chains.flatten ↔ ∃ i, x ∈ chains.getD i [] := by
  rw [List.mem_flatten]
  constructor
  · rintro ⟨c, hc, hx⟩
    obtain ⟨i, hi, rfl⟩ := List.mem_iff_getElem.1 hc
    exact ⟨i, by rwa [List.getD_eq_getElem _ _ hi]⟩
  · rintro ⟨i, hx⟩
    by_cases hi : i < chains.length
    · rw [List.getD_eq_getElem _ _ hi] at hx
      exact ⟨_, List.getElem_mem hi, hx⟩
    · rw [List.getD_eq_default _ _ (by omega)] at hx
      cases hx

namespace Placed

omit [DecidableEq K] in
/-- Empty chains. -/
theorem replicate (n : ℕ) : Placed key slot (List.replicate n []) := by
  have empty : ∀ i, (List.replicate n ([] : List Item)).getD i [] = [] := by
    intro i
    rw [List.getD_eq_getElem?_getD, List.getElem?_replicate]
    split_ifs <;> rfl
  refine ⟨fun i x hx => ?_, fun i => ?_⟩
  · rw [empty] at hx
    cases hx
  · rw [empty]
    exact List.nodup_nil

omit [DecidableEq K] in
/-- A chain is exchanged for one with items of the same slot. -/
theorem set (placed : Placed key slot chains) (hi : i < chains.length)
    (slots : ∀ x ∈ chain, slot (key x) = i) (nodup : (chain.map key).Nodup) :
    Placed key slot (chains.set i chain) := by
  refine ⟨fun j x hx => ?_, fun j => ?_⟩
  · rw [getD_set hi] at hx
    split_ifs at hx with h
    · exact h ▸ slots x hx
    · exact placed.slot_eq j x hx
  · rw [getD_set hi]
    split_ifs
    · exact nodup
    · exact placed.nodup j

omit [DecidableEq K] in
/-- Over all chains every key has one item. -/
theorem nodup_flatten (placed : Placed key slot chains) : (chains.flatten.map key).Nodup := by
  rw [List.map_flatten, List.nodup_flatten]
  refine ⟨fun keys hkeys => ?_, ?_⟩
  · obtain ⟨c, hc, rfl⟩ := List.mem_map.1 hkeys
    obtain ⟨i, hi, rfl⟩ := List.mem_iff_getElem.1 hc
    have := placed.nodup i
    rwa [List.getD_eq_getElem _ _ hi] at this
  · rw [List.pairwise_map, List.pairwise_iff_getElem]
    intro i j hi hj hij k hk hk'
    obtain ⟨x, hx, rfl⟩ := List.mem_map.1 hk
    obtain ⟨y, hy, same⟩ := List.mem_map.1 hk'
    rw [← List.getD_eq_getElem _ [] hi] at hx
    rw [← List.getD_eq_getElem _ [] hj] at hy
    have := placed.slot_eq i x hx
    have := placed.slot_eq j y hy
    rw [same] at this
    omega

/-- A key is looked for in the chain of its slot only. -/
theorem find_flatten (placed : Placed key slot chains) :
    find key chains.flatten k = find key (chains.getD (slot k) []) k := by
  apply Option.ext
  intro x
  rw [find_eq_some_iff placed.nodup_flatten, find_eq_some_iff (placed.nodup _), mem_flatten_iff]
  constructor
  · rintro ⟨⟨i, hx⟩, rfl⟩
    exact ⟨placed.slot_eq i x hx ▸ hx, rfl⟩
  · exact fun ⟨hx, hk⟩ => ⟨⟨slot k, hx⟩, hk⟩

end Placed

/-! ## Changing one chain -/

omit [DecidableEq K] in
/-- An item is added to a chain. -/
theorem flatten_set_append (hi : i < chains.length) :
    ((chains.set i (chains.getD i [] ++ [x])).flatten).Perm (chains.flatten ++ [x]) := by
  induction chains generalizing i with
  | nil => exact absurd hi (Nat.not_lt_zero i)
  | cons c chains ih =>
    cases i with
    | zero =>
      rw [List.set_cons_zero, List.flatten_cons, List.flatten_cons, List.getD_cons_zero,
        List.append_assoc, List.append_assoc]
      exact List.perm_append_comm.append_left c
    | succ i =>
      rw [List.set_cons_succ, List.flatten_cons, List.flatten_cons, List.getD_cons_succ,
        List.append_assoc]
      exact (ih (Nat.lt_of_succ_lt_succ hi)).append_left c

omit [DecidableEq K] in
/-- The items of a chain are changed, by a function that leaves those of other slots alone. -/
theorem Placed.flatten_set_map (placed : Placed key slot chains) (f : Item → Item)
    (others : ∀ x, slot (key x) ≠ i → f x = x) :
    (chains.set i ((chains.getD i []).map f)).flatten = chains.flatten.map f := by
  have same : ∀ j, j ≠ i → (chains.getD j []).map f = chains.getD j [] := by
    intro j hj
    refine (List.map_congr_left fun x hx => others x ?_).trans (List.map_id _)
    rw [placed.slot_eq j x hx]
    exact hj
  rw [List.map_flatten]
  congr 1
  apply List.ext_getElem
  · rw [List.length_set, List.length_map]
  · intro j hj hj'
    rw [List.length_set] at hj
    rw [List.getElem_map, List.getElem_set]
    by_cases h : i = j
    · subst h
      rw [if_pos rfl, List.getD_eq_getElem _ _ hj]
    · have := same j fun h' => h h'.symm
      rw [List.getD_eq_getElem _ _ hj] at this
      rw [if_neg h, this]

omit [DecidableEq K] in
/-- What belongs to the items of a list, when one of them is exchanged. -/
theorem flatMap_set_perm {α β : Type*} {items : List α} {old : α} {i : ℕ}
    (hold : items[i]? = some old) (new : α) (f : α → List β) :
    (f old ++ (items.set i new).flatMap f).Perm (f new ++ items.flatMap f) := by
  induction items generalizing i with
  | nil => cases hold
  | cons x items ih =>
    cases i with
    | zero =>
      cases hold
      rw [List.set_cons_zero, List.flatMap_cons, List.flatMap_cons, ← List.append_assoc,
        ← List.append_assoc]
      exact List.perm_append_comm.append_right _
    | succ i =>
      rw [List.set_cons_succ, List.flatMap_cons, List.flatMap_cons]
      refine (List.perm_append_comm_assoc _ _ _).trans ?_
      exact ((ih hold).append_left _).trans (List.perm_append_comm_assoc _ _ _)

end Chains
