import Mathlib.Data.List.Chain
import Mathlib.Data.List.Nodup

/-!
# Doubly linked lists

The cells of a linked structure point to each other through two partial functions `next` and
`prev`.  `DoublyLinked next prev l` says that the cells of `l` are distinct and that neighbours
point to each other; cells outside of `l` may point anywhere.  Inserting and unlinking a cell are
described by what they change of the two functions.
-/

namespace LinkedList

variable {α : Type*} {next prev next' prev' link link' : α → Option α} {l m : List α}
  {a b p x n z : α}

/-- The links lead from `a` through the cells of the list to `z`. -/
def Follows (link : α → Option α) : α → List α → α → Prop
  | a, [], z => link a = some z
  | a, b :: l, z => link a = some b ∧ Follows link b l z

/-- Distinct cells, each linked to the one after it and back. -/
structure DoublyLinked (next prev : α → Option α) (l : List α) : Prop where
  nodup : l.Nodup
  linked : l.IsChain fun x y => next x = some y ∧ prev y = some x

/-! ## Following the links -/

theorem follows_of_isChain (linked : (a :: (l ++ [z])).IsChain fun x y => link x = some y) :
    Follows link a l z := by
  induction l generalizing a with
  | nil => exact (List.isChain_cons_cons.1 linked).1
  | cons b l ih =>
    obtain ⟨first, rest⟩ := List.isChain_cons_cons.1 linked
    exact ⟨first, ih rest⟩

theorem DoublyLinked.follows_next (list : DoublyLinked next prev (a :: (l ++ [z]))) :
    Follows next a l z :=
  follows_of_isChain (list.linked.imp fun _ _ h => h.1)

theorem DoublyLinked.follows_prev (list : DoublyLinked next prev (a :: (l ++ [z]))) :
    Follows prev z l.reverse a := by
  have reversed : (a :: (l ++ [z])).reverse = z :: (l.reverse ++ [a]) := by simp
  apply follows_of_isChain
  rw [← reversed, List.isChain_reverse]
  exact list.linked.imp fun _ _ h => h.2

theorem Follows.congr (walk : Follows link a l z) (same : ∀ y ∈ a :: l, link' y = link y) :
    Follows link' a l z := by
  induction l generalizing a with
  | nil => exact (same a (by simp)).trans walk
  | cons b l ih =>
    refine ⟨(same a (by simp)).trans walk.1, ?_⟩
    exact ih walk.2 fun y hy => same y (List.mem_cons_of_mem _ hy)

/-- The walk after the first cell has been taken out. -/
theorem Follows.drop_first (walk : Follows link a (b :: l) z) (nodup : (a :: b :: l).Nodup)
    (first : link' a = link b) (others : ∀ y, y ≠ a → y ≠ b → link' y = link y) :
    Follows link' a l z := by
  cases l with
  | nil => exact first.trans walk.2
  | cons c l =>
    refine ⟨first.trans walk.2.1, walk.2.2.congr fun y hy => others y ?_ ?_⟩
    · rintro rfl
      exact (List.nodup_cons.1 nodup).1 (List.mem_cons_of_mem _ hy)
    · rintro rfl
      exact (List.nodup_cons.1 (List.nodup_cons.1 nodup).2).1 hy

/-! ## Changing the list -/

/-- Cells whose links are as before stay linked. -/
theorem isChain_congr (linked : l.IsChain fun x y => next x = some y ∧ prev y = some x)
    (same_next : ∀ x ∈ l, ∀ y ∈ l, next x = some y → next' x = next x)
    (same_prev : ∀ x ∈ l, ∀ y ∈ l, prev y = some x → prev' y = prev y) :
    l.IsChain fun x y => next' x = some y ∧ prev' y = some x := by
  refine linked.imp_of_mem_imp fun x y hx hy h => ⟨?_, ?_⟩
  · rw [same_next x hx y hy h.1]
    exact h.1
  · rw [same_prev x hx y hy h.2]
    exact h.2

/-- Two cells that point to each other. -/
theorem doublyLinked_pair (distinct : a ≠ z) (hnext : next a = some z) (hprev : prev z = some a) :
    DoublyLinked next prev [a, z] where
  nodup := by simpa using distinct
  linked := List.isChain_pair.2 ⟨hnext, hprev⟩

/-- The neighbours of a cell. -/
theorem DoublyLinked.neighbours (list : DoublyLinked next prev (l ++ p :: x :: n :: m)) :
    next p = some x ∧ prev x = some p ∧ next x = some n ∧ prev n = some x := by
  obtain ⟨-, before, rest⟩ := List.isChain_append_cons_cons.1 list.linked
  exact ⟨before.1, before.2, (List.isChain_cons_cons.1 rest).1⟩

/-- A new cell goes in before the last one. -/
theorem DoublyLinked.insert (list : DoublyLinked next prev (l ++ [p, z])) (new : x ∉ l ++ [p, z])
    (next_p : next' p = some x) (next_x : next' x = some z) (prev_x : prev' x = some p)
    (prev_z : prev' z = some x) (next_others : ∀ y, y ≠ p → y ≠ x → next' y = next y)
    (prev_others : ∀ y, y ≠ z → y ≠ x → prev' y = prev y) :
    DoublyLinked next' prev' (l ++ [p, x, z]) where
  nodup := by
    have nodup := list.nodup
    simp only [List.nodup_append, List.nodup_cons, List.mem_append, List.mem_cons,
      List.not_mem_nil, or_false, not_or] at nodup new ⊢
    grind
  linked := by
    obtain ⟨front, ends, -⟩ := List.isChain_append_cons_cons.1 list.linked
    have z_notMem : z ∉ l ++ [p] := by
      have nodup := list.nodup
      rw [show l ++ [p, z] = (l ++ [p]) ++ [z] by simp, List.nodup_append] at nodup
      exact fun h => nodup.2.2 z h z (by simp) rfl
    have x_notMem : x ∉ l ++ [p] := fun h => new (by simp at h ⊢; tauto)
    refine List.isChain_append_cons_cons.2 ⟨?_, ⟨next_p, prev_x⟩, List.isChain_pair.2
      ⟨next_x, prev_z⟩⟩
    refine isChain_congr front (fun u hu v hv huv => ?_) fun u hu v hv huv => ?_
    · -- the cell `p` is followed by `z` only
      refine next_others u ?_ fun h => x_notMem (h ▸ hu)
      rintro rfl
      rw [ends.1] at huv
      exact z_notMem (Option.some.inj huv ▸ hv)
    · exact prev_others v (fun h => z_notMem (h ▸ hv)) fun h => x_notMem (h ▸ hv)

/-- The cell `x` is taken out. -/
theorem DoublyLinked.unlink (list : DoublyLinked next prev (l ++ p :: x :: n :: m))
    (next_p : next' p = some n) (prev_n : prev' n = some p)
    (next_others : ∀ y, y ≠ p → y ≠ x → next' y = next y)
    (prev_others : ∀ y, y ≠ n → y ≠ x → prev' y = prev y) :
    DoublyLinked next' prev' (l ++ p :: n :: m) where
  nodup := by
    refine list.nodup.sublist (List.Sublist.append_left ?_ l)
    exact List.Sublist.cons_cons p (List.sublist_cons_self x _)
  linked := by
    have nodup := list.nodup
    obtain ⟨front, before, rest⟩ := List.isChain_append_cons_cons.1 list.linked
    obtain ⟨after, back⟩ := List.isChain_cons_cons.1 rest
    have split : (l ++ [p]) ++ (x :: n :: m) = l ++ p :: x :: n :: m := by simp
    rw [← split, List.nodup_append] at nodup
    obtain ⟨-, nodup_back, apart⟩ := nodup
    have p_mem : p ∈ l ++ [p] := by simp
    refine List.isChain_append_cons_cons.2 ⟨?_, ⟨next_p, prev_n⟩, ?_⟩
    · refine isChain_congr front (fun u hu v hv huv => ?_) fun u hu v hv huv => ?_
      · -- the cell `p` is followed by `x` only
        refine next_others u ?_ fun h => apart u hu x (by simp) h
        rintro rfl
        rw [before.1] at huv
        exact apart v hv x (by simp) (Option.some.inj huv).symm
      · exact prev_others v (fun h => apart v hv n (by simp) h) fun h => apart v hv x (by simp) h
    · have x_notMem : x ∉ n :: m := (List.nodup_cons.1 nodup_back).1
      refine isChain_congr back (fun u hu v hv huv => ?_) fun u hu v hv huv => ?_
      · refine next_others u (fun h => ?_) fun h => x_notMem (h ▸ hu)
        exact apart p p_mem u (List.mem_cons_of_mem _ hu) h.symm
      · -- the cell `n` is preceded by `x` only
        refine prev_others v ?_ fun h => x_notMem (h ▸ hv)
        rintro rfl
        rw [after.2] at huv
        exact x_notMem (Option.some.inj huv ▸ hu)

end LinkedList
