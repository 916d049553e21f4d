import Mathlib.Order.Bounds.Defs
import JLeaker.Proof.SizeCalls

/-!
# The candidates among the instances

The first pass reads the tags of class objects while it writes the tags of all other objects.  The
tags of the loaded classes stay as `generateTagForClass` set them, so what an instance has at the end
depends on its class alone: neither on its old tag nor on when and how often it is reported.
-/

namespace JLeaker

variable {Obj : Type} [DecidableEq Obj]

/-! ## The tag of a class -/

/-- The instances of the class are examined if it is an instance of a sizeable class. -/
structure Eligible (jvm : Jvm Obj) (info : ClassInfo Obj) (ignoreClasses : String → Bool)
    (theClass : Obj) : Prop where
  not_interface : info.isInterface theClass = false
  not_array : info.isArrayClass theClass = false
  not_enclosed : info.enclosingClass theClass = none
  not_ignored : ignoreClasses (jvm.className theClass) = false

variable {jvm : Jvm Obj} {info : ClassInfo Obj} {ignoreClasses : String → Bool} {theClass : Obj}

omit [DecidableEq Obj] in
theorem ClassInfo.isSizeable_iff {j : ℕ} : info.IsSizeable j theClass ↔
    ∃ h : j < info.sizeableClasses.length,
      info.sizeableClasses[j].any (info.isAssignableFrom theClass) = true := by
  constructor
  · rintro ⟨klass, hk, hassign⟩
    obtain ⟨hj, hk⟩ := List.getElem?_eq_some_iff.1 hk
    exact ⟨hj, (Option.any_eq_true _ _).2 ⟨klass, hk, hassign⟩⟩
  · rintro ⟨hj, hany⟩
    obtain ⟨klass, hk, hassign⟩ := (Option.any_eq_true _ _).1 hany
    exact ⟨klass, List.getElem?_eq_some_iff.2 ⟨hj, hk⟩, hassign⟩

omit [DecidableEq Obj] in
/-- The loop over the sizeable classes stops at the first that fits. -/
theorem ClassInfo.findIdx?_eq_some {j : ℕ} (least : IsLeast {i | info.IsSizeable i theClass} j) :
    info.sizeableClasses.findIdx? (·.any (info.isAssignableFrom theClass)) = some j := by
  obtain ⟨hj, hany⟩ := ClassInfo.isSizeable_iff.1 least.1
  apply List.findIdx?_eq_some_iff_getElem.2
  refine ⟨hj, hany, fun i hi hfit => ?_⟩
  have : j ≤ i := least.2 (ClassInfo.isSizeable_iff.2 ⟨hi.trans hj, hfit⟩)
  omega

omit [DecidableEq Obj] in
theorem ClassInfo.findIdx?_eq_none (unfit : ∀ j, ¬ info.IsSizeable j theClass) :
    info.sizeableClasses.findIdx? (·.any (info.isAssignableFrom theClass)) = none := by
  apply List.findIdx?_eq_none_iff.2
  intro x hx
  by_contra hany
  obtain ⟨j, hj, rfl⟩ := List.mem_iff_getElem.1 hx
  exact unfit j (ClassInfo.isSizeable_iff.2 ⟨hj, Bool.of_not_eq_false hany⟩)

theorem generateTagForClass_of_eligible (hclass : theClass ≠ jvm.classClass)
    (eligible : Eligible jvm info ignoreClasses theClass) {j : ℕ}
    (least : IsLeast {i | info.IsSizeable i theClass} j) :
    generateTagForClass jvm info ignoreClasses theClass = initialClassTag + j := by
  unfold generateTagForClass
  rw [if_neg hclass, eligible.not_interface, eligible.not_array, eligible.not_enclosed,
    eligible.not_ignored, ClassInfo.findIdx?_eq_some least]
  rfl

theorem generateTagForClass_eq_zero (hclass : theClass ≠ jvm.classClass)
    (other : Eligible jvm info ignoreClasses theClass → ∀ j, ¬ info.IsSizeable j theClass) :
    generateTagForClass jvm info ignoreClasses theClass = 0 := by
  unfold generateTagForClass
  rw [if_neg hclass]
  split_ifs with h₁ h₂ h₃ h₄
  · rfl
  · rfl
  · rfl
  · rfl
  · have eligible : Eligible jvm info ignoreClasses theClass :=
      ⟨Bool.of_not_eq_true h₁, Bool.of_not_eq_true h₂, Option.not_isSome_iff_eq_none.1 h₃,
        Bool.of_not_eq_true h₄⟩
    rw [ClassInfo.findIdx?_eq_none (other eligible)]

/-! ## The tag of an instance -/

/-- The first pass gives an instance the tag of its class or zero, whatever the old tags are. -/
theorem tagAllMapsAndCollections_apply (d : DumpInput Obj)
    (covered : ∀ o ∈ d.reported, d.agent.jvm.classOf o ∈ d.loadedClasses)
    (classes : ∀ o ∈ d.reported,
      d.agent.jvm.classOf (d.agent.jvm.classOf o) = d.agent.jvm.classClass)
    (tags : Obj → ℕ) {o : Obj} (ho : o ∈ d.reported)
    (hclass : d.agent.jvm.classOf o ≠ d.agent.jvm.classClass) :
    d.tagAllMapsAndCollections tags o = instanceTag d.agent.gdata.sizeableClassesNum
      (generateTagForClass d.agent.jvm d.info d.ignoreClasses (d.agent.jvm.classOf o)) := by
  have loaded := fun k hk => (tagLoadedClasses_apply
    (generateTagForClass d.agent.jvm d.info d.ignoreClasses) d.loadedClasses tags k).trans (if_pos hk)
  unfold DumpInput.tagAllMapsAndCollections
  rw [firstHeapIteration_apply _ _ ?_ classes ?_, if_pos ⟨ho, hclass⟩, loaded _ (covered o ho)]
  · intro x hx hxclass
    rw [loaded _ (hxclass ▸ covered x hx)]
    exact if_pos rfl
  · intro x hx hxclass
    rw [loaded _ (covered x hx)]
    exact generateTagForClass_ne _ _ _ hxclass

/-- Candidate selection is exact on instances. -/
theorem instance_tags_exact (d : DumpInput Obj)
    (sizeable : d.agent.gdata.sizeableClassesNum = classDescriptors.length)
    (covered : ∀ o ∈ d.reported, d.agent.jvm.classOf o ∈ d.loadedClasses)
    (classes : ∀ o ∈ d.reported,
      d.agent.jvm.classOf (d.agent.jvm.classOf o) = d.agent.jvm.classClass)
    (tags : Obj → ℕ) (o : Obj) (ho : o ∈ d.reported)
    (hclass : d.agent.jvm.classOf o ≠ d.agent.jvm.classClass) :
    (∀ j, Eligible d.agent.jvm d.info d.ignoreClasses (d.agent.jvm.classOf o) →
      IsLeast {i | d.info.IsSizeable i (d.agent.jvm.classOf o)} j →
        d.tagAllMapsAndCollections tags o = initialClassTag + j) ∧
    ((Eligible d.agent.jvm d.info d.ignoreClasses (d.agent.jvm.classOf o) →
      ∀ j, ¬ d.info.IsSizeable j (d.agent.jvm.classOf o)) →
        d.tagAllMapsAndCollections tags o = 0) := by
  rw [tagAllMapsAndCollections_apply d covered classes tags ho hclass]
  constructor
  · intro j eligible least
    rw [generateTagForClass_of_eligible hclass eligible least]
    obtain ⟨hj, -⟩ := ClassInfo.isSizeable_iff.1 least.1
    simp only [ClassInfo.sizeableClasses, List.length_map] at hj
    unfold instanceTag
    rw [if_pos]
    omega
  · intro other
    rw [generateTagForClass_eq_zero hclass other, instanceTag]
    exact ite_self 0

/-- The leak is an instance of the second sizeable class. -/
theorem instance_tags_exact_heldByJni :
    Sample.heldByJniDumps.tagAllMapsAndCollections (fun _ => 0) 3 = initialClassTag + 1 := by
  refine (instance_tags_exact Sample.heldByJniDumps rfl (by decide) (by decide) (fun _ => 0) 3
    (by decide) (by decide)).1 1 ⟨by decide, by decide, by decide, by decide⟩ ⟨?_, ?_⟩
  · exact ⟨11, by decide, by decide⟩
  · rintro i ⟨klass, hk, -⟩
    match i with
    | 0 => exact absurd hk (by decide +revert)
    | i + 1 => exact Nat.succ_pos i

end JLeaker
