import JLeaker.Model.Dumper

/-!
# The first heap pass

The first pass gives every reported object that is no class object the tag of its class if that is
the tag of a sizeable class, and zero otherwise.  Class objects keep the tags they have: loaded ones
have just been tagged, and one that `GetLoadedClasses` omits keeps what an earlier dump left.
-/

namespace JLeaker

variable {Obj : Type} [DecidableEq Obj]

/-! ## The tags of classes -/

theorem tagLoadedClasses_apply (tagFor : Obj → ℕ) (classes : List Obj) (tags : Obj → ℕ) (o : Obj) :
    tagLoadedClasses tagFor classes tags o = if o ∈ classes then tagFor o else tags o := by
  unfold tagLoadedClasses
  induction classes generalizing tags with
  | nil => simp
  | cons klass rest ih =>
    rw [List.foldl_cons, ih]
    by_cases hrest : o ∈ rest
    · simp [hrest]
    · by_cases ho : o = klass
      · simp [ho]
      · simp [ho, hrest]

/-- Only `java.lang.Class` gets its own tag. -/
theorem generateTagForClass_ne (jvm : Jvm Obj) (info : ClassInfo Obj) (ignoreClasses : String → Bool)
    {theClass : Obj} (h : theClass ≠ jvm.classClass) :
    generateTagForClass jvm info ignoreClasses theClass ≠ classClassInitialTag := by
  unfold generateTagForClass
  rw [if_neg h]
  split_ifs
  · decide
  · decide
  · decide
  · decide
  · split
    · rename_i j hj
      have hlt := (List.findIdx?_eq_some_iff_findIdx_eq.1 hj).1
      simp only [ClassInfo.sizeableClasses, classDescriptors, List.length_map, List.length_cons,
        List.length_nil] at hlt
      unfold initialClassTag classClassInitialTag
      omega
    · decide

/-! ## The tags of other objects -/

/-- The tag the first pass gives an object whose class has the tag `classTag`. -/
def instanceTag (sizeableClassesNum classTag : ℕ) : ℕ :=
  if initialClassTag ≤ classTag ∧ classTag - initialClassTag < sizeableClassesNum then classTag else 0

theorem cbHeapObject_of_ne {num classTag tag : ℕ} (h : classTag ≠ classClassInitialTag) :
    cbHeapObject num classTag tag = instanceTag num classTag := if_neg h

/-- The tags after the first pass. -/
theorem firstHeapIteration_apply {jvm : Jvm Obj} (num : ℕ) (reported : List Obj) {tags : Obj → ℕ}
    (initial : ∀ o ∈ reported, jvm.classOf o = jvm.classClass →
      tags jvm.classClass = classClassInitialTag)
    (classes : ∀ o ∈ reported, jvm.classOf (jvm.classOf o) = jvm.classClass)
    (others : ∀ o ∈ reported, jvm.classOf o ≠ jvm.classClass →
      tags (jvm.classOf o) ≠ classClassInitialTag) (o : Obj) :
    firstHeapIteration jvm num reported tags o =
      if o ∈ reported ∧ jvm.classOf o ≠ jvm.classClass then instanceTag num (tags (jvm.classOf o))
      else tags o := by
  unfold firstHeapIteration
  induction reported generalizing tags with
  | nil => simp
  | cons first rest ih =>
    rw [List.foldl_cons]
    set tags' := Function.update tags first
      (cbHeapObject num (tags (jvm.classOf first)) (tags first)) with htags'
    -- a report leaves the tags of class objects as they are
    have keep : ∀ k, jvm.classOf k = jvm.classClass → tags' k = tags k := by
      intro k hk
      by_cases h : k = first
      · subst h
        rw [htags', Function.update_self, hk, initial k (List.mem_cons_self ..) hk]
        rfl
      · rw [htags', Function.update_of_ne h]
    have step := @ih tags'
      (fun x hx hclass => by
        have classClass := classes x (List.mem_cons_of_mem _ hx)
        rw [hclass] at classClass
        rw [keep _ classClass]
        exact initial x (List.mem_cons_of_mem _ hx) hclass)
      (fun x hx => classes x (List.mem_cons_of_mem _ hx)) fun x hx hclass => by
        rw [keep _ (classes x (List.mem_cons_of_mem _ hx))]
        exact others x (List.mem_cons_of_mem _ hx) hclass
    rw [step]
    by_cases hclass : jvm.classOf o = jvm.classClass
    · simp [hclass, keep o hclass]
    by_cases hrest : o ∈ rest
    · simp [hclass, hrest, keep _ (classes o (List.mem_cons_of_mem _ hrest))]
    by_cases ho : o = first
    · subst ho
      have := others o (by simp) hclass
      simp [hclass, hrest, htags', cbHeapObject_of_ne this]
    · simp [hrest, ho, htags']

/-! ## What a dump starts from -/

/-- What the JVM promises about the answers it gives during a dump: `reported` are the reachable
objects, and all their classes are loaded. -/
structure DumpInput.JvmFacts (d : DumpInput Obj) : Prop where
  sizeable : d.agent.gdata.sizeableClassesNum = classDescriptors.length
  objects_nodup : d.objects.Nodup
  uncollected : ∀ o ∈ d.reported, o ∈ d.objects
  referee : ∀ i, ∀ r ∈ d.order i, r.referee ∈ d.reported
  referrer : ∀ i, ∀ r ∈ d.order i, ∀ o, r.referrer = some o → o ∈ d.reported
  classClass_loaded : d.agent.jvm.classClass ∈ d.loadedClasses
  class_loaded : ∀ o ∈ d.reported, d.agent.jvm.classOf o ∈ d.loadedClasses
  class_of_class : ∀ k ∈ d.loadedClasses, d.agent.jvm.classOf k = d.agent.jvm.classClass

namespace DumpInput

variable {d : DumpInput Obj}

/-- The tags after the first pass of a dump. -/
theorem JvmFacts.tags_begin (facts : d.JvmFacts) (w : World Obj) (o : Obj) :
    (d.begin w).tags o =
      if o ∈ d.reported ∧ d.agent.jvm.classOf o ≠ d.agent.jvm.classClass then
        instanceTag d.agent.gdata.sizeableClassesNum
          (generateTagForClass d.agent.jvm d.info d.ignoreClasses (d.agent.jvm.classOf o))
      else if o ∈ d.loadedClasses then
        generateTagForClass d.agent.jvm d.info d.ignoreClasses o
      else d.afterGc w.tags o := by
  have loaded := fun k hk => (tagLoadedClasses_apply
    (generateTagForClass d.agent.jvm d.info d.ignoreClasses) d.loadedClasses (d.afterGc w.tags)
    k).trans (if_pos hk)
  have first := firstHeapIteration_apply d.agent.gdata.sizeableClassesNum d.reported
    (fun _ _ _ => (loaded _ facts.classClass_loaded).trans (if_pos rfl))
    (fun o ho => facts.class_of_class _ (facts.class_loaded o ho))
    (fun o ho hclass => by
      rw [loaded _ (facts.class_loaded o ho)]
      exact generateTagForClass_ne _ _ _ hclass) o
  apply first.trans
  split_ifs with h hk
  · rw [loaded _ (facts.class_loaded o h.1)]
  · exact loaded o hk
  · rw [tagLoadedClasses_apply, if_neg hk]

omit [DecidableEq Obj] in
theorem mem_candidates {tags : Obj → ℕ} {o : Obj} (ho : o ∈ d.objects)
    (htag : tags o ∈ d.candidateTags) : o ∈ (d.candidates tags).map Prod.fst := by
  simp only [candidates, getObjectsWithTags, List.map_map, List.mem_map, List.mem_filter,
    decide_eq_true_eq]
  exact ⟨o, ⟨ho, htag⟩, rfl⟩

theorem instanceTag_cases (num classTag : ℕ) : instanceTag num classTag = 0 ∨
    instanceTag num classTag ∈ (List.range num).map (initialClassTag + ·) := by
  unfold instanceTag
  split_ifs with h
  · refine .inr (List.mem_map.2 ⟨classTag - initialClassTag, List.mem_range.2 h.2, ?_⟩)
    omega
  · exact .inl rfl

/-- The objects whose old tags the dump has replaced when the passes begin. -/
def Retagged (d : DumpInput Obj) (w : World Obj) (o : Obj) : Prop :=
  (d.begin w).tags o = 0 ∨ o ∈ d.loadedClasses ∨ o ∈ (d.candidates (d.begin w).tags).map Prod.fst

instance (d : DumpInput Obj) (w : World Obj) : DecidablePred (d.Retagged w) := fun _ =>
  inferInstanceAs (Decidable (_ ∨ _ ∨ _))

/-- The old tag of a reachable object survives only on a class object that `GetLoadedClasses`
omits. -/
theorem JvmFacts.retagged (facts : d.JvmFacts) (w : World Obj) {o : Obj} (ho : o ∈ d.reported)
    (mirror : d.agent.jvm.classOf o = d.agent.jvm.classClass → o ∉ d.loadedClasses →
      w.tags o = 0) : d.Retagged w o := by
  by_cases hk : o ∈ d.loadedClasses
  · exact .inr (.inl hk)
  have htag := facts.tags_begin w o
  by_cases hclass : d.agent.jvm.classOf o = d.agent.jvm.classClass
  · refine .inl ?_
    rw [htag, if_neg fun h => h.2 hclass, if_neg hk, afterGc]
    have := mirror hclass hk
    split_ifs
    · simp [this]
    · exact this
  · rw [if_pos ⟨ho, hclass⟩] at htag
    rcases instanceTag_cases d.agent.gdata.sizeableClassesNum (generateTagForClass d.agent.jvm d.info
      d.ignoreClasses (d.agent.jvm.classOf o)) with h | h
    · exact .inl (htag.trans h)
    · exact .inr (.inr (mem_candidates (facts.uncollected o ho) (htag ▸ h)))

end DumpInput

end JLeaker
