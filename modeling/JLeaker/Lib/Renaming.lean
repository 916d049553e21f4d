import JLeaker.Lib.CHeap
import Mathlib.Data.Finset.Image
import Mathlib.Logic.Equiv.Basic

/-!
# Renaming the addresses of a heap

A renaming permutes the addresses and keeps null.  A heap whose records are moved and rewritten takes
its operations with it; a renaming is extended to the place where the next record is put, wherever
either of two allocators puts it.
-/

/-- A permutation of the addresses that keeps null. -/
structure Renaming where
  perm : Equiv.Perm ℕ
  null : perm 0 = 0

namespace Renaming

instance : CoeFun Renaming fun _ => ℕ → ℕ := ⟨fun π => π.perm⟩

variable (π : Renaming)

/-- The renaming that renames nothing. -/
def refl : Renaming := ⟨Equiv.refl ℕ, rfl⟩

@[simp] theorem refl_apply (a : ℕ) : refl a = a := rfl

theorem injective : Function.Injective π := π.perm.injective

@[simp] theorem apply_eq_iff (a b : ℕ) : π a = π b ↔ a = b := π.perm.apply_eq_iff_eq

@[simp] theorem apply_eq_zero_iff (a : ℕ) : π a = 0 ↔ a = 0 := by
  conv_lhs => rw [← π.null]
  exact π.apply_eq_iff a 0

/-- The renaming that takes `a` to `b` and leaves the others, but the one that had `b`, where they
were. -/
def extend (a b : ℕ) (ha : a ≠ 0) (hb : b ≠ 0) : Renaming where
  perm := π.perm.trans (Equiv.swap (π a) b)
  null := by
    rw [Equiv.trans_apply, π.null]
    exact Equiv.swap_apply_of_ne_of_ne (mt (π.apply_eq_zero_iff a).1 ha ∘ Eq.symm) hb.symm

theorem extend_new {a b : ℕ} (ha : a ≠ 0) (hb : b ≠ 0) : π.extend a b ha hb a = b :=
  Equiv.swap_apply_left _ _

theorem extend_old {a b c : ℕ} (ha : a ≠ 0) (hb : b ≠ 0) (hca : c ≠ a) (hcb : π c ≠ b) :
    π.extend a b ha hb c = π c :=
  Equiv.swap_apply_of_ne_of_ne (mt (π.apply_eq_iff c a).1 hca) hcb

/-- The renamings agree on these addresses. -/
def AgreeOn (dom : Finset ℕ) (π' : Renaming) : Prop := ∀ a ∈ dom, π' a = π a

end Renaming

namespace CHeap

variable {α : Type*} (h : CHeap α) (π : Renaming) (g : α → α)

/-- The heap with its records moved, and rewritten by `g`. -/
def rename : CHeap α where
  get? a := (h.get? (π.perm.symm a)).map g
  dom := h.dom.map π.perm.toEmbedding
  clock := h.clock
  mem_dom a := by
    rw [Finset.mem_map_equiv, h.mem_dom, Option.isSome_map]
  zero_notMem mem := by
    rw [Finset.mem_map_equiv] at mem
    have zero : π.perm.symm 0 = 0 := by rw [Equiv.symm_apply_eq, π.null]
    exact h.zero_notMem (zero ▸ mem)

@[simp] theorem get?_rename (a : ℕ) : (h.rename π g).get? (π a) = (h.get? a).map g := by
  simp [rename]

@[simp] theorem card_dom_rename : (h.rename π g).dom.card = h.dom.card := Finset.card_map _

theorem mem_dom_rename (a : ℕ) : π a ∈ (h.rename π g).dom ↔ a ∈ h.dom := by
  rw [mem_dom, mem_dom, get?_rename, Option.isSome_map]

/-- Heaps that hold the same records and were allocated alike are equal. -/
theorem ext_get? {h h' : CHeap α} (get : ∀ a, h.get? a = h'.get? a) (clock : h.clock = h'.clock) :
    h = h' := by
  refine ext (funext get) (Finset.ext fun a => ?_) clock
  rw [mem_dom, mem_dom, get]

/-- It is enough to look where the renaming leads. -/
theorem ext_rename {h h' : CHeap α} (get : ∀ a, h.get? (π a) = h'.get? (π a))
    (clock : h.clock = h'.clock) : h = h' := by
  refine ext_get? (fun a => ?_) clock
  obtain ⟨b, rfl⟩ := π.perm.surjective a
  exact get b

theorem empty_rename : (empty : CHeap α).rename π g = empty :=
  ext_rename π (fun a => by rw [get?_rename]; rfl) rfl

/-- A record is rewritten in its new place. -/
theorem rename_modify {a : ℕ} {f f' : α → α} (same : ∀ x, g (f x) = f' (g x)) :
    (h.modify a f).rename π g = (h.rename π g).modify (π a) f' := by
  refine ext_rename π (fun b => ?_) rfl
  simp only [get?_rename, get?_modify, π.apply_eq_iff]
  split_ifs
  · cases h.get? b with
    | none => rfl
    | some x => exact congrArg some (same x)
  · rfl

theorem rename_free (a : ℕ) : (h.free a).rename π g = (h.rename π g).free (π a) := by
  refine ext_rename π (fun b => ?_) rfl
  simp only [get?_rename, get?_free, π.apply_eq_iff]
  split_ifs <;> rfl

theorem get?_rename_eq_some {a : ℕ} {y : α} :
    (h.rename π g).get? a = some y ↔ ∃ b x, π b = a ∧ h.get? b = some x ∧ g x = y := by
  obtain ⟨b, rfl⟩ := π.perm.surjective a
  simp [get?_rename, Option.map_eq_some_iff]

variable {h π g} {π' : Renaming} {g' : α → α}

/-- Renamings that agree on what the heap holds rename it alike. -/
theorem rename_congr (place : π.AgreeOn h.dom π')
    (record : ∀ a x, h.get? a = some x → g' x = g x) : h.rename π' g' = h.rename π g := by
  refine ext_get? (fun a => Option.ext fun y => ?_) rfl
  rw [get?_rename_eq_some, get?_rename_eq_some]
  refine exists_congr fun b => exists_congr fun x => ?_
  constructor
  · rintro ⟨rfl, hx, rfl⟩
    exact ⟨(place b (h.mem_dom_of_get? hx)).symm, hx, (record b x hx).symm⟩
  · rintro ⟨rfl, hx, rfl⟩
    exact ⟨place b (h.mem_dom_of_get? hx), hx, record b x hx⟩

variable (h π g) (m m' : Malloc)

/-- The renaming extended to where one allocator and the other put the next record. -/
def renamingOfNext : Renaming :=
  π.extend (h.fresh m) ((h.rename π g).fresh m') (h.fresh_ne_zero m) (CHeap.fresh_ne_zero _ m')

theorem renamingOfNext_fresh : h.renamingOfNext π g m m' (h.fresh m) = (h.rename π g).fresh m' :=
  π.extend_new _ _

theorem agreeOn_renamingOfNext : π.AgreeOn h.dom (h.renamingOfNext π g m m') := fun a mem =>
  π.extend_old _ _ (h.ne_fresh_of_mem m mem)
    (ne_fresh_of_mem _ m' ((h.mem_dom_rename π g a).2 mem))

variable {h π g m m'}

/-- Placing a record and renaming the heap is renaming it and placing the renamed record. -/
theorem rename_alloc {x : α} (record : ∀ a y, h.get? a = some y → g' y = g y) :
    (h.alloc m x).rename (h.renamingOfNext π g m m') g' = (h.rename π g).alloc m' (g' x) := by
  have old : ∀ a, a ≠ h.fresh m → h.renamingOfNext π g m m' a ≠ (h.rename π g).fresh m' := by
    intro a ne eq
    rw [← h.renamingOfNext_fresh π g m m', Renaming.apply_eq_iff] at eq
    exact ne eq
  refine ext_rename (h.renamingOfNext π g m m') (fun a => ?_) rfl
  rw [get?_rename]
  by_cases new : a = h.fresh m
  · rw [new, renamingOfNext_fresh, get?_alloc_self, get?_alloc_self, Option.map_some]
  · rw [get?_alloc, if_neg new, get?_alloc, if_neg (old a new)]
    rw [← rename_congr (h.agreeOn_renamingOfNext π g m m') record, get?_rename]

end CHeap
