import JLeaker.Proof.StaleTags

/-!
# The objects whose `size()` is called

`searchObjectsForLeaks` picks the method by the tag of an object.  The first heap pass gives an
instance the tag of its class, which has it from `generateTagForClass`; but the class objects have
the same tags, since `cbHeapObject` leaves them alone, and an object the pass does not reach keeps
what an earlier dump left.
-/

namespace JLeaker

variable {Obj : Type} [DecidableEq Obj]

/-! ## The calls -/

/-- The calls of `size()` in `searchObjectsForLeaks`: the index of the method, and the object. -/
def sizeCalls (env : Agent Obj) (candidates : List (Obj × ℕ)) : List (ℕ × Obj) :=
  candidates.filterMap fun (obj, tag) =>
    let idx : ℤ := (tag : ℤ) - initialClassTag
    if 0 ≤ idx ∧ idx < env.gdata.sizeableClassesNum then some (idx.toNat, obj) else none

omit [DecidableEq Obj] in
theorem mem_sizeCalls {env : Agent Obj} {candidates : List (Obj × ℕ)} {j : ℕ} {o : Obj} :
    (j, o) ∈ sizeCalls env candidates ↔
      (o, initialClassTag + j) ∈ candidates ∧ j < env.gdata.sizeableClassesNum := by
  simp only [sizeCalls, List.mem_filterMap]
  constructor
  · rintro ⟨⟨obj, tag⟩, hmem, hcall⟩
    split_ifs at hcall with hidx
    obtain ⟨rfl, rfl⟩ := Prod.mk.inj (Option.some.inj hcall)
    have htag : initialClassTag + ((tag : ℤ) - initialClassTag).toNat = tag := by omega
    exact ⟨htag.symm ▸ hmem, by omega⟩
  · rintro ⟨hmem, hj⟩
    refine ⟨_, hmem, ?_⟩
    have hidx : ((initialClassTag + j : ℕ) : ℤ) - initialClassTag = j := by omega
    simp only [hidx]
    rw [if_pos (by omega), Int.toNat_natCast]

/-! ## Instances -/

/-- Objects of the class `theClass` are instances of the sizeable class `j`. -/
def ClassInfo.IsSizeable (info : ClassInfo Obj) (j : ℕ) (theClass : Obj) : Prop :=
  ∃ klass, info.sizeableClasses[j]? = some (some klass) ∧ info.isAssignableFrom theClass klass = true

/-- A class gets the tag of a class it is assignable to. -/
theorem isSizeable_of_generateTagForClass {jvm : Jvm Obj} {info : ClassInfo Obj}
    {ignoreClasses : String → Bool} {theClass : Obj} {j : ℕ} (hj : j < classDescriptors.length)
    (htag : generateTagForClass jvm info ignoreClasses theClass = initialClassTag + j) :
    info.IsSizeable j theClass := by
  have hsmall : j < 3 := hj
  have hclass : classClassInitialTag ≠ initialClassTag + j := by
    unfold classClassInitialTag initialClassTag
    omega
  have hzero : 0 ≠ initialClassTag + j := by
    unfold initialClassTag
    omega
  unfold generateTagForClass at htag
  split_ifs at htag with h₁ h₂ h₃ h₄ h₅
  · exact absurd htag hclass
  · exact absurd htag hzero
  · exact absurd htag hzero
  · exact absurd htag hzero
  · exact absurd htag hzero
  · split at htag
    · rename_i i hi
      obtain rfl := Nat.add_left_cancel htag
      obtain ⟨hlt, hany, -⟩ := List.findIdx?_eq_some_iff_getElem.1 hi
      obtain ⟨klass, hk, hassign⟩ := (Option.any_eq_true _ _).1 hany
      exact ⟨klass, by rw [List.getElem?_eq_getElem hlt, hk], hassign⟩
    · exact absurd htag hzero

namespace DumpInput

variable (d : DumpInput Obj)

/-- Every call of `size()` is for an instance, and an object of `java.lang.Class` is examined only if
that class is sizeable. -/
structure SizesInstances (w : World Obj) : Prop where
  calls : ∀ c ∈ sizeCalls d.agent (d.candidates (d.begin w).tags),
    d.info.IsSizeable c.1 (d.agent.jvm.classOf c.2)
  classObjects : ∀ c ∈ d.candidates (d.begin w).tags,
    d.agent.jvm.classOf c.1 = d.agent.jvm.classClass →
      ∃ j, d.info.IsSizeable j d.agent.jvm.classClass

/-- No loaded class has the tag of a sizeable class, unless `java.lang.Class` is assignable to it, and
no object which the first pass leaves alone has an old tag of that kind, unless it is an instance. -/
structure TagsOnInstances (w : World Obj) : Prop where
  loaded : ∀ k ∈ d.loadedClasses, k ∈ d.objects → ∀ j < d.agent.gdata.sizeableClassesNum,
    generateTagForClass d.agent.jvm d.info d.ignoreClasses k = initialClassTag + j →
      d.info.IsSizeable j d.agent.jvm.classClass
  old : ∀ o ∈ d.objects, o ∉ d.loadedClasses →
    (o ∈ d.reported → d.agent.jvm.classOf o = d.agent.jvm.classClass) →
      ∀ j < d.agent.gdata.sizeableClassesNum, d.afterGc w.tags o = initialClassTag + j →
        d.info.IsSizeable j (d.agent.jvm.classOf o)

variable {d} {w : World Obj}

omit [DecidableEq Obj] in
theorem mem_candidates_iff {tags : Obj → ℕ} {c : Obj × ℕ} : c ∈ d.candidates tags ↔
    c.1 ∈ d.objects ∧ c.2 = tags c.1 ∧
      ∃ j < d.agent.gdata.sizeableClassesNum, tags c.1 = initialClassTag + j := by
  obtain ⟨o, tag⟩ := c
  simp only [candidates, getObjectsWithTags, candidateTags, List.mem_map, List.mem_filter,
    decide_eq_true_eq, List.mem_range, Prod.mk.injEq]
  constructor
  · rintro ⟨x, ⟨hx, j, hj, htag⟩, rfl, rfl⟩
    exact ⟨hx, rfl, j, hj, htag.symm⟩
  · rintro ⟨ho, rfl, j, hj, htag⟩
    exact ⟨o, ⟨ho, j, hj, htag.symm⟩, rfl, rfl⟩

/-- The calls go to the objects that have the tag of a sizeable class after the first pass. -/
theorem sizesInstances_iff_tags : d.SizesInstances w ↔
    ∀ o ∈ d.objects, ∀ j < d.agent.gdata.sizeableClassesNum,
      (d.begin w).tags o = initialClassTag + j → d.info.IsSizeable j (d.agent.jvm.classOf o) := by
  constructor
  · intro sizes o ho j hj htag
    refine sizes.calls (j, o) (mem_sizeCalls.2 ⟨?_, hj⟩)
    exact mem_candidates_iff.2 ⟨ho, htag.symm, j, hj, htag⟩
  · intro tags
    refine ⟨fun ⟨j, o⟩ hcall => ?_, fun ⟨o, tag⟩ hmem hclass => ?_⟩
    · obtain ⟨hmem, hj⟩ := mem_sizeCalls.1 hcall
      obtain ⟨ho, htag, -⟩ := mem_candidates_iff.1 hmem
      exact tags o ho j hj htag.symm
    · obtain ⟨ho, -, j, hj, htag⟩ := mem_candidates_iff.1 hmem
      exact ⟨j, hclass ▸ tags o ho j hj htag⟩

end DumpInput

/-- Every dump calls `size()` on instances only if and only if neither a class object nor an object
the first pass leaves alone has the tag of a sizeable class that it is no instance of. -/
theorem size_on_instances_iff (d : DumpInput Obj) (facts : d.JvmFacts) (w : World Obj) :
    d.SizesInstances w ↔ d.TagsOnInstances w := by
  rw [DumpInput.sizesInstances_iff_tags]
  constructor
  · intro tags
    refine ⟨fun k hk ho j hj htag => ?_, fun o ho hk hclass j hj htag => ?_⟩
    · have hclass := facts.class_of_class k hk
      apply hclass ▸ tags k ho j hj
      rw [facts.tags_begin, if_neg fun h => h.2 hclass, if_pos hk, htag]
    · apply tags o ho j hj
      rw [facts.tags_begin, if_neg fun h => h.2 (hclass h.1), if_neg hk, htag]
  · intro kept o ho j hj htag
    rw [facts.tags_begin] at htag
    split_ifs at htag with hreported hk
    · -- an instance has the tag of its class
      have hne : initialClassTag + j ≠ 0 := by
        unfold initialClassTag
        omega
      rw [instanceTag] at htag
      split_ifs at htag
      · exact isSizeable_of_generateTagForClass (facts.sizeable ▸ hj) htag
      · exact absurd htag.symm hne
    · rw [facts.class_of_class o hk]
      exact kept.loaded o hk ho j hj htag
    · refine kept.old o ho hk (fun h => ?_) j hj htag
      by_contra hclass
      exact hreported ⟨h, hclass⟩

/-- The same dump with every class ignored. -/
def Sample.ignoringAll : DumpInput (Fin 12) :=
  { heldByJniDumps with ignoreClasses := fun _ => true }

theorem size_on_instances_iff_ignoringAll : Sample.ignoringAll.SizesInstances .init := by
  have facts := Sample.heldByJniDumps_fresh .init |>.facts
  refine (size_on_instances_iff Sample.ignoringAll ⟨facts.sizeable, facts.objects_nodup,
    facts.uncollected, facts.referee, facts.referrer, facts.classClass_loaded, facts.class_loaded,
    facts.class_of_class⟩ .init).2 ⟨fun k hk _ j hj htag => ?_, fun o _ _ _ j _ htag => ?_⟩
  · have noTag : ∀ k ∈ Sample.ignoringAll.loadedClasses, ∀ j < 3,
        generateTagForClass Sample.mapJvm Sample.mapInfo (fun _ => true) k ≠ initialClassTag + j := by
      decide +kernel
    exact absurd htag (noTag k hk j hj)
  · have hzero : 0 = initialClassTag + j := htag
    unfold initialClassTag at hzero
    omega

/-- `size()` is called on the class object of the maps. -/
theorem size_on_class_object :
    Sample.heldByJniDumps.JvmFacts ∧ ¬ Sample.heldByJniDumps.SizesInstances .init := by
  refine ⟨(Sample.heldByJniDumps_fresh .init).facts, fun sizes => ?_⟩
  obtain ⟨klass, hklass, hassign⟩ := sizes.calls (1, 1) (by decide +kernel)
  obtain rfl : 11 = klass := by
    have hmap : Sample.mapInfo.sizeableClasses[1]? = some (some 11) := by decide +kernel
    exact Option.some.inj (Option.some.inj (hmap.symm.trans hklass))
  exact absurd hassign (by decide)

end JLeaker
