import Mathlib.Algebra.BigOperators.Group.Finset.Basic
import Mathlib.Data.Finset.Lattice.Fold
import Mathlib.Logic.Function.Basic
import Mathlib.Order.Lattice.Nat

/-!
# A C heap of records of one type

`CHeap α` is the part of a C heap that holds records of type `α`: a finite partial map from
addresses to records that never uses the null address.  Where a new record is placed is decided by
a `Malloc`, which may hand out an address again once its record has been freed; it sees how many
allocations were made before, so every sequence of answers a real allocator gives is the sequence
of some `Malloc`.
-/

/-- The answers of an allocator: never null, and never the address of a live record. -/
structure Malloc where
  next : ℕ → Finset ℕ → ℕ
  next_ne_zero : ∀ clock live, next clock live ≠ 0
  next_notMem : ∀ clock live, next clock live ∉ live

namespace Malloc

/-- The allocator that places each record just above all live ones. -/
def above : Malloc where
  next _ live := live.sup id + 1
  next_ne_zero _ _ := by omega
  next_notMem _ live h := by
    have := Finset.le_sup (f := id) h
    simp only [id] at this
    omega

end Malloc

/-- A finite partial map from non-null addresses to records. -/
structure CHeap (α : Type*) where
  get? : ℕ → Option α
  dom : Finset ℕ
  clock : ℕ
  mem_dom : ∀ a, a ∈ dom ↔ (get? a).isSome
  zero_notMem : 0 ∉ dom

namespace CHeap

variable {α : Type*} (h : CHeap α)

/-- The heap before any allocation. -/
def empty : CHeap α where
  get? _ := none
  dom := ∅
  clock := 0
  mem_dom _ := by simp
  zero_notMem := by simp

/-- Rewrite the record at `a` in place; nothing happens where no record lives. -/
def modify (a : ℕ) (f : α → α) : CHeap α where
  get? := Function.update h.get? a ((h.get? a).map f)
  dom := h.dom
  clock := h.clock
  mem_dom b := by
    rcases eq_or_ne b a with rfl | hb
    · simp [h.mem_dom]
    · simp [Function.update_of_ne hb, h.mem_dom]
  zero_notMem := h.zero_notMem

/-- The address at which the next record will be placed. -/
def fresh (m : Malloc) : ℕ := m.next h.clock h.dom

/-- Place a new record where the allocator says. -/
def alloc (m : Malloc) (x : α) : CHeap α where
  get? := Function.update h.get? (h.fresh m) (some x)
  dom := insert (h.fresh m) h.dom
  clock := h.clock + 1
  mem_dom b := by
    rcases eq_or_ne b (h.fresh m) with rfl | hb
    · simp
    · simp [h.mem_dom, hb]
  zero_notMem := by
    simp only [Finset.mem_insert, not_or]
    exact ⟨(m.next_ne_zero _ _).symm, h.zero_notMem⟩

/-- The same records, with the allocations counted from here on. -/
def restart : CHeap α := { h with clock := 0 }

/-- Give the record at `a` back. -/
def free (a : ℕ) : CHeap α where
  get? := Function.update h.get? a none
  dom := h.dom.erase a
  clock := h.clock
  mem_dom b := by
    rcases eq_or_ne b a with rfl | hb
    · simp
    · simp [h.mem_dom, hb]
  zero_notMem hm := h.zero_notMem (Finset.mem_of_mem_erase hm)

/-! ## Addresses -/

theorem fresh_ne_zero (m : Malloc) : h.fresh m ≠ 0 := m.next_ne_zero _ _

theorem fresh_notMem (m : Malloc) : h.fresh m ∉ h.dom := m.next_notMem _ _

theorem get?_fresh (m : Malloc) : h.get? (h.fresh m) = none := by
  have := mt (h.mem_dom _).2 (h.fresh_notMem m)
  simpa using this

theorem mem_dom_of_get? {a : ℕ} {x : α} (hx : h.get? a = some x) : a ∈ h.dom :=
  (h.mem_dom a).2 (by simp [hx])

theorem exists_get?_of_mem {a : ℕ} (ha : a ∈ h.dom) : ∃ x, h.get? a = some x :=
  Option.isSome_iff_exists.1 ((h.mem_dom a).1 ha)

theorem get?_of_notMem {a : ℕ} (ha : a ∉ h.dom) : h.get? a = none := by
  have := mt (h.mem_dom a).2 ha
  simpa using this

theorem ne_zero_of_mem {a : ℕ} (ha : a ∈ h.dom) : a ≠ 0 := by
  rintro rfl
  exact h.zero_notMem ha

theorem ne_fresh_of_mem {a : ℕ} (m : Malloc) (ha : a ∈ h.dom) : a ≠ h.fresh m := by
  rintro rfl
  exact h.fresh_notMem m ha

/-! ## What each operation leaves behind -/

@[simp] theorem get?_empty (a : ℕ) : (empty : CHeap α).get? a = none := rfl

@[simp] theorem dom_empty : (empty : CHeap α).dom = ∅ := rfl

@[simp] theorem dom_modify (a : ℕ) (f : α → α) : (h.modify a f).dom = h.dom := rfl

@[simp] theorem clock_modify (a : ℕ) (f : α → α) : (h.modify a f).clock = h.clock := rfl

@[simp] theorem fresh_modify (a : ℕ) (f : α → α) (m : Malloc) :
    (h.modify a f).fresh m = h.fresh m := rfl

theorem get?_modify (a b : ℕ) (f : α → α) :
    (h.modify a f).get? b = if b = a then (h.get? b).map f else h.get? b := by
  simp only [modify, Function.update_apply]
  split_ifs with hb
  · rw [hb]
  · rfl

@[simp] theorem get?_modify_self (a : ℕ) (f : α → α) :
    (h.modify a f).get? a = (h.get? a).map f := by simp [get?_modify]

theorem get?_modify_of_ne {a b : ℕ} (hb : b ≠ a) (f : α → α) :
    (h.modify a f).get? b = h.get? b := by simp [get?_modify, hb]

@[simp] theorem dom_alloc (m : Malloc) (x : α) : (h.alloc m x).dom = insert (h.fresh m) h.dom := rfl

theorem get?_alloc (m : Malloc) (x : α) (b : ℕ) :
    (h.alloc m x).get? b = if b = h.fresh m then some x else h.get? b := by
  simp only [alloc, Function.update_apply]

@[simp] theorem get?_alloc_self (m : Malloc) (x : α) :
    (h.alloc m x).get? (h.fresh m) = some x := by simp [get?_alloc]

theorem get?_alloc_of_mem {m : Malloc} {x : α} {b : ℕ} (hb : b ∈ h.dom) :
    (h.alloc m x).get? b = h.get? b := by
  rw [get?_alloc, if_neg (h.ne_fresh_of_mem m hb)]

@[simp] theorem dom_free (a : ℕ) : (h.free a).dom = h.dom.erase a := rfl

theorem get?_free (a b : ℕ) : (h.free a).get? b = if b = a then none else h.get? b := by
  simp only [free, Function.update_apply]

/-! ## Equal heaps -/

theorem ext {h h' : CHeap α} (get : h.get? = h'.get?) (dom : h.dom = h'.dom)
    (clock : h.clock = h'.clock) : h = h' := by
  cases h; cases h'; cases get; cases dom; cases clock; rfl

theorem modify_congr {a : ℕ} {f g : α → α} (same : ∀ x, h.get? a = some x → f x = g x) :
    h.modify a f = h.modify a g := by
  refine ext ?_ rfl rfl
  funext b
  rw [h.get?_modify, h.get?_modify]
  split_ifs with hb
  · subst hb
    rcases hx : h.get? b with _ | x
    · rfl
    · simp [same x hx]
  · rfl

theorem modify_eq_self {a : ℕ} {f : α → α} (same : ∀ x, h.get? a = some x → f x = x) :
    h.modify a f = h := by
  refine ext ?_ rfl rfl
  funext b
  rw [h.get?_modify]
  split_ifs with hb
  · subst hb
    rcases hx : h.get? b with _ | x
    · rfl
    · simp [same x hx]
  · rfl

/-- A heap without records starts again like the empty one. -/
theorem restart_of_dom_eq_empty (none : h.dom = ∅) : h.restart = empty := by
  refine ext (funext fun a => ?_) none rfl
  exact h.get?_of_notMem (none ▸ Finset.notMem_empty a)

/-! ## Changing one record -/

/-- Only the record at `a` has changed, from `x` to `x'`. -/
structure ChangedAt (a : ℕ) (x x' : α) (h h' : CHeap α) : Prop where
  dom : h'.dom = h.dom
  old : h.get? a = some x
  new : h'.get? a = some x'
  others : ∀ b, b ≠ a → h'.get? b = h.get? b

namespace ChangedAt

variable {a : ℕ} {x x' x'' : α} {h h' h'' : CHeap α}

theorem modify (f : α → α) (ha : h.get? a = some x) : ChangedAt a x (f x) h (h.modify a f) where
  dom := rfl
  old := ha
  new := by rw [get?_modify_self, ha, Option.map_some]
  others _ hb := h.get?_modify_of_ne hb f

theorem trans (first : ChangedAt a x x' h h') (second : ChangedAt a x' x'' h' h'') :
    ChangedAt a x x'' h h'' where
  dom := second.dom.trans first.dom
  old := first.old
  new := second.new
  others b hb := (second.others b hb).trans (first.others b hb)

theorem mem (change : ChangedAt a x x' h h') : a ∈ h.dom := h.mem_dom_of_get? change.old

end ChangedAt

/-! ## Sums over the live records -/

variable {M : Type*} [AddCommMonoid M]

/-- What `f` gives for the record at `a`: nothing where no record lives. -/
def valueAt (f : ℕ → α → M) (a : ℕ) : M := (h.get? a).elim 0 (f a)

/-- The sum of `f` over all live records. -/
def total (f : ℕ → α → M) : M := ∑ a ∈ h.dom, h.valueAt f a

variable {h} {f : ℕ → α → M}

theorem valueAt_of_get? {a : ℕ} {x : α} (hx : h.get? a = some x) : h.valueAt f a = f a x := by
  simp [valueAt, hx]

theorem valueAt_of_notMem {a : ℕ} (ha : a ∉ h.dom) : h.valueAt f a = 0 := by
  simp [valueAt, h.get?_of_notMem ha]

theorem total_congr {h' : CHeap α} (dom : h'.dom = h.dom)
    (value : ∀ a, h'.valueAt f a = h.valueAt f a) : h'.total f = h.total f := by
  rw [total, dom]
  exact Finset.sum_congr rfl fun a _ => value a

theorem ChangedAt.valueAt {h' : CHeap α} {a : ℕ} {x x' : α} (f : ℕ → α → M)
    (change : ChangedAt a x x' h h') {b : ℕ} (hb : b ≠ a) : h'.valueAt f b = h.valueAt f b := by
  rw [CHeap.valueAt, CHeap.valueAt, change.others b hb]

/-- Two heaps over the same addresses whose values differ at `a` only. -/
theorem total_add_valueAt {h' : CHeap α} {a : ℕ} (dom : h'.dom = h.dom) (ha : a ∈ h.dom)
    (value : ∀ b, b ≠ a → h'.valueAt f b = h.valueAt f b) :
    h'.total f + h.valueAt f a = h.total f + h'.valueAt f a := by
  have rest : ∑ b ∈ h.dom.erase a, h'.valueAt f b = ∑ b ∈ h.dom.erase a, h.valueAt f b :=
    Finset.sum_congr rfl fun b hb => value b (Finset.ne_of_mem_erase hb)
  rw [total, total, dom, ← Finset.add_sum_erase _ _ ha, ← Finset.add_sum_erase _ _ ha, rest,
    add_right_comm, add_comm (h'.valueAt f a), add_right_comm]

/-- What the sum loses and gains when one record changes. -/
theorem ChangedAt.total {h' : CHeap α} {a : ℕ} {x x' : α} (f : ℕ → α → M)
    (change : ChangedAt a x x' h h') : h'.total f + f a x = h.total f + f a x' := by
  have := total_add_valueAt change.dom change.mem fun b hb => change.valueAt f hb
  rwa [valueAt_of_get? change.old, valueAt_of_get? change.new] at this

theorem total_alloc (m : Malloc) (x : α) :
    (h.alloc m x).total f = h.total f + f (h.fresh m) x := by
  have old : ∀ a ∈ h.dom, (h.alloc m x).valueAt f a = h.valueAt f a := fun a ha => by
    rw [valueAt, valueAt, h.get?_alloc_of_mem ha]
  rw [total, dom_alloc, Finset.sum_insert (h.fresh_notMem m), Finset.sum_congr rfl old,
    valueAt_of_get? (h.get?_alloc_self m x), add_comm, total]

theorem total_free {a : ℕ} (ha : a ∈ h.dom) :
    (h.free a).total f + h.valueAt f a = h.total f := by
  have rest : ∀ b ∈ h.dom.erase a, (h.free a).valueAt f b = h.valueAt f b := fun b hb => by
    rw [valueAt, valueAt, get?_free, if_neg (Finset.ne_of_mem_erase hb)]
  rw [total, dom_free, Finset.sum_congr rfl rest, add_comm, Finset.add_sum_erase _ _ ha, total]

end CHeap
