import JLeaker.Proof.SearchInvariant

/-!
# Class nodes

`addReferenceClass` ends the JVM when the class of a referrer is tagged with the node of an object.
The class of `java.lang.Class` itself is the only one without a class node, so this happens exactly
after the object `java.lang.Class` has been met as an untagged referrer.
-/

namespace JLeaker

variable {Obj : Type} [DecidableEq Obj]

/-- What the JVM guarantees of its classes: the class of every object is loaded, and loaded classes
are instances of `java.lang.Class`. -/
structure ClassesLoaded (jvm : Jvm Obj) (loadedClasses : List Obj) : Prop where
  classOf_mem : ∀ o, jvm.classOf o ∈ loadedClasses
  classOf_klass : ∀ klass ∈ loadedClasses, jvm.classOf klass = jvm.classClass

omit [DecidableEq Obj] in
theorem ClassesLoaded.classClass_mem {jvm : Jvm Obj} {loadedClasses : List Obj}
    (loaded : ClassesLoaded jvm loadedClasses) : jvm.classClass ∈ loadedClasses := by
  have h := loaded.classOf_klass _ (loaded.classOf_mem jvm.classClass)
  exact h ▸ loaded.classOf_mem _

/-- Every loaded class but `java.lang.Class` is tagged with its class node. -/
structure ClassesTagged (jvm : Jvm Obj) (ignoreFields : Obj → List IgnoreField)
    (loadedClasses : List Obj) (s : AgentState Obj) : Prop where
  node : ∀ klass ∈ loadedClasses, klass ≠ jvm.classClass →
    ∃ nd, s.nodes.get? (s.tags klass) = some nd ∧ nd.classNode = true ∧ nd.obj = some klass ∧
      nd.ignoreFields = ignoreFields klass

/-- The report does not give the object `java.lang.Class` a node. -/
def KeepsClassUntagged (env : Agent Obj) (s : Search Obj) (r : HeapReference Obj) : Prop :=
  ∀ thisNode, Records env s r thisNode → r.referrer = some env.jvm.classClass →
    s.tags env.jvm.classClass ≠ 0

namespace ClassesTagged

variable {ignoreFields : Obj → List IgnoreField} {loadedClasses : List Obj} {env : Agent Obj}
  {s s' : Search Obj} {r : HeapReference Obj}

/-- Reports keep the tags that are set. -/
theorem tags_outcome (out : Outcome env s r s') {o : Obj} (h : s.tags o ≠ 0) :
    s'.tags o = s.tags o := by
  cases out with
  | skipped => rfl
  | dropped => rfl
  | recorded thisNode => exact tags_recorded_of_ne_zero env s r thisNode h

theorem outcome (classes : ClassesTagged env.jvm ignoreFields loadedClasses s.toAgentState)
    (out : Outcome env s r s') :
    ClassesTagged env.jvm ignoreFields loadedClasses s'.toAgentState where
  node klass hk hne := by
    obtain ⟨nd, hnd, hclass, hobj, hign⟩ := classes.node klass hk hne
    have htag : s'.tags klass = s.tags klass :=
      tags_outcome out (s.nodes.ne_zero_of_mem (s.nodes.mem_dom_of_get? hnd))
    show ∃ nd', s'.nodes.get? (s'.tags klass) = some nd' ∧ _
    rw [htag]
    cases out with
    | skipped => exact ⟨nd, hnd, hclass, hobj, hign⟩
    | dropped =>
      rw [get?_countFanIn, hnd]
      exact ⟨_, rfl, hclass, hobj, hign⟩
    | recorded thisNode records =>
      rw [get?_recorded_of_get? records.node hnd]
      exact ⟨_, rfl, hclass, hobj, hign⟩

omit [DecidableEq Obj] in
/-- While `java.lang.Class` is untagged, every non-zero class tag is a class node. -/
theorem classTagOk (classes : ClassesTagged env.jvm ignoreFields loadedClasses s.toAgentState)
    (untagged : s.tags env.jvm.classClass = 0)
    (loaded : ClassesLoaded env.jvm loadedClasses) : ClassTagOk env s r := by
  intro htag
  unfold referrerClassTag at htag ⊢
  rcases hr : r.referrer with _ | o
  · simp [hr] at htag
  · simp only [hr] at htag ⊢
    have hne : env.jvm.classOf o ≠ env.jvm.classClass := fun heq => htag (heq ▸ untagged)
    obtain ⟨nd, hnd, hclass, _⟩ := classes.node _ (loaded.classOf_mem o) hne
    exact ⟨nd, hnd, hclass⟩

end ClassesTagged

theorem classClass_untagged {env : Agent Obj} {s s' : Search Obj} {r : HeapReference Obj}
    (keeps : KeepsClassUntagged env s r) (out : Outcome env s r s')
    (untagged : s.tags env.jvm.classClass = 0) : s'.tags env.jvm.classClass = 0 := by
  cases out with
  | skipped => exact untagged
  | dropped => exact untagged
  | recorded thisNode records =>
    simp only [Search.recorded]
    rcases hr : r.referrer with _ | o
    · exact untagged
    · have hne : env.jvm.classClass ≠ o := by
        rintro rfl
        exact keeps thisNode records hr untagged
      by_cases htag : s.tags o = 0
      · simpa [htag, Function.update_of_ne hne] using untagged
      · simpa [htag] using untagged

theorem Dump.classesTagged_start (d : Dump Obj) :
    ClassesTagged d.agent.jvm d.ignoreFields d.loadedClasses d.start.toAgentState where
  node klass hk hne :=
    ⟨_, (d.classNodes_tagged.klass klass hk hne).2, rfl, rfl, rfl⟩

/-- A report under the invariants returns. -/
theorem reportReference_succeeds {numberOfLeaks : ℕ} {env : Agent Obj} {s : Search Obj}
    {r : HeapReference Obj} (ok : SearchOk numberOfLeaks s) (classTag : ClassTagOk env s r) :
    ∃ s', reportReference env s r = .ok s' ∧ Outcome env s r s' :=
  reportReference_ok (fun h => s.nodes.exists_get?_of_mem (ok.tagged.mem _ h)) classTag
    fun o _ h => s.nodes.exists_get?_of_mem (ok.tagged.mem o h)

/-- A search that reads only class nodes as class tags returns. -/
theorem Dump.run_succeeds (d : Dump Obj) (meets : d.Meets (ClassTagOk d.agent)) :
    ∃ s, d.run = .ok s := by
  obtain ⟨s, hrun, _⟩ := heapIterations_succeeds (I := SearchOk d.leaks.length)
    (fun _ ok => ok.resetNodesFound) (fun s r ok classTag => by
      obtain ⟨s', hrun, out⟩ := reportReference_succeeds ok classTag
      exact ⟨s', hrun, ok.outcome out⟩) meets d.searchOk_start
  exact ⟨s, hrun⟩

/-- In every run that never gives the object `java.lang.Class` a node, every non-zero class tag a
report reads is a class node, and the search returns. -/
theorem classTags_are_classNodes (d : Dump Obj)
    (loaded : ClassesLoaded d.agent.jvm d.loadedClasses)
    (meets : d.Meets (KeepsClassUntagged d.agent)) :
    d.Meets (ClassTagOk d.agent) ∧ ∃ s, d.run = .ok s := by
  let I : Search Obj → Prop := fun s =>
    ClassesTagged d.agent.jvm d.ignoreFields d.loadedClasses s.toAgentState ∧
      s.tags d.agent.jvm.classClass = 0
  have init : I d.start :=
    ⟨d.classesTagged_start, d.classNodes_tagged.classClass loaded.classClass_mem⟩
  have classTags : d.Meets (ClassTagOk d.agent) :=
    IterationsMeet.of_invariant (I := I) (fun _ h => h)
      (fun _ _ _ h keeps hrun =>
        have out := reportReference_outcome hrun
        ⟨h.1.outcome out, classClass_untagged keeps out h.2⟩)
      (fun _ _ h _ => h.1.classTagOk h.2 loaded) meets init
  exact ⟨classTags, d.run_succeeds classTags⟩

theorem Sample.classesLoaded : ClassesLoaded jvm [0, 1, 2] :=
  ⟨by decide +kernel, by decide +kernel⟩

/-- A leak held by a field of an object that a static field holds. -/
def Sample.heldByField : Dump (Fin 12) :=
  dump [(3, 1000)] [field 3 8 0, staticField 8 2 0] fun _ => []

theorem classTags_are_classNodes_heldByField :
    Sample.heldByField.Meets (ClassTagOk Sample.heldByField.agent) ∧
      ∃ s, Sample.heldByField.run = .ok s := by
  refine classTags_are_classNodes Sample.heldByField Sample.classesLoaded
    (Dump.meets_of_forall fun s i r hr thisNode _ href => ?_)
  have hr' : r = Sample.field 3 8 0 ∨ r = Sample.staticField 8 2 0 := by
    simpa [Sample.heldByField, Sample.dump] using hr
  rcases hr' with rfl | rfl
  · exact absurd href (by decide)
  · exact absurd href (by decide)

/-- A leak held by fields of the objects `java.lang.Class` and `java.util.HashMap.class`. -/
def Sample.heldByClass : Dump (Fin 12) := dump [(3, 1000)] [field 3 0 0, field 3 1 0] fun _ => []

/-- The first reference gives `java.lang.Class` the node of an object, and the second report takes
it for a class node. -/
theorem classClass_referrer_fatal :
    ClassesLoaded Sample.heldByClass.agent.jvm Sample.heldByClass.loadedClasses ∧
      ¬ Sample.heldByClass.Meets (ClassTagOk Sample.heldByClass.agent) ∧
      Sample.heldByClass.run = .error .fatalError := by
  have fatal : Sample.heldByClass.run = .error .fatalError :=
    Run.eq_error_of_error? (by decide +kernel)
  refine ⟨Sample.classesLoaded, fun meets => ?_, fatal⟩
  obtain ⟨s, run⟩ := Sample.heldByClass.run_succeeds meets
  rw [fatal] at run
  cases run

end JLeaker
