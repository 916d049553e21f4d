import JLeaker.Proof.Finished
import JLeaker.Proof.FirstPass
import JLeaker.Proof.Masking
import JLeaker.Proof.Teardown

/-!
# Tags across dumps

The tag of an object is the address of a node, and it may outlive the node.  When the passes of a
dump begin, an old tag is left only on objects that are unreachable and on class objects that
`GetLoadedClasses` omits.  Without the tags of these objects the dump is one in a JVM without tags
(`masked_start`), so its invariants hold as long as no callback reads such a tag, and the lookups
find one object as long as no new node gets the address in such a tag.
-/

namespace JLeaker

variable {Obj : Type} [DecidableEq Obj]

/-! ## Setting up among old tags -/

/-- Two states that differ in the tags of the objects that are not `done`: one has the old tags, the
other none. -/
structure Retags (old : Obj → ℕ) (done : List Obj) (s s' : AgentState Obj) : Prop where
  nodes : s.nodes = s'.nodes
  numberOfLeaks : s.numberOfLeaks = s'.numberOfLeaks
  nodesAllocated : s.nodesAllocated = s'.nodesAllocated
  nodesFreed : s.nodesFreed = s'.nodesFreed
  tags : ∀ o, if o ∈ done then s.tags o = s'.tags o else s.tags o = old o ∧ s'.tags o = 0

namespace Retags

variable {old : Obj → ℕ} {done : List Obj} {s s' : AgentState Obj} {env : Agent Obj}

theorem update (retags : Retags old done s s') (o : Obj) (tag : ℕ) (x : Obj) :
    if x ∈ o :: done then Function.update s.tags o tag x = Function.update s'.tags o tag x
    else Function.update s.tags o tag x = old x ∧ Function.update s'.tags o tag x = 0 := by
  by_cases hx : x = o
  · subst hx
    simp
  · have := retags.tags x
    simpa [hx] using this

theorem searchObject {st st' : List LeakingNode × AgentState Obj} (leaks : st.1 = st'.1)
    (retags : Retags old done st.2 st'.2) (size : ℕ → Obj → ℤ) (c : Obj × ℕ) :
    (searchObject env size st c).1 = (searchObject env size st' c).1 ∧
      Retags old (c.1 :: done) (searchObject env size st c).2 (searchObject env size st' c).2 := by
  obtain ⟨leaks₁, s⟩ := st
  obtain ⟨leaks₂, s'⟩ := st'
  obtain rfl : leaks₁ = leaks₂ := leaks
  have nodes : s.nodes = s'.nodes := retags.nodes
  have number : s.numberOfLeaks = s'.numberOfLeaks := retags.numberOfLeaks
  simp only [searchObject_eq, newLeak, nodes, number]
  split_ifs
  · refine ⟨rfl, rfl, rfl, ?_, retags.nodesFreed, fun x => retags.update c.1 _ x⟩
    exact congrArg (· + 1) retags.nodesAllocated
  · exact ⟨rfl, rfl, rfl, retags.nodesAllocated, retags.nodesFreed,
      fun x => retags.update c.1 0 x⟩

theorem searchObjectsForLeaks (retags : Retags old done s s') (size : ℕ → Obj → ℤ)
    (candidates : List (Obj × ℕ)) :
    (searchObjectsForLeaks env size candidates s).1 =
        (searchObjectsForLeaks env size candidates s').1 ∧
      Retags old ((candidates.map Prod.fst).reverse ++ done)
        (searchObjectsForLeaks env size candidates s).2
        (searchObjectsForLeaks env size candidates s').2 := by
  have fold : ∀ (candidates : List (Obj × ℕ)) done (st st' : List LeakingNode × AgentState Obj),
      st.1 = st'.1 → Retags old done st.2 st'.2 →
      (candidates.foldl (JLeaker.searchObject env size) st).1 =
        (candidates.foldl (JLeaker.searchObject env size) st').1 ∧
      Retags old ((candidates.map Prod.fst).reverse ++ done)
        (candidates.foldl (JLeaker.searchObject env size) st).2
        (candidates.foldl (JLeaker.searchObject env size) st').2 := by
    intro candidates
    induction candidates with
    | nil => exact fun _ _ _ leaks retags => ⟨leaks, retags⟩
    | cons c rest ih =>
      intro done st st' leaks retags
      obtain ⟨leaks₁, retags₁⟩ := retags.searchObject leaks size c
      simpa using ih _ _ _ leaks₁ retags₁
  exact fold candidates done ([], s) ([], s') rfl retags

theorem tagClass {st st' : List ℕ × AgentState Obj} (classNodes : st.1 = st'.1)
    (retags : Retags old done st.2 st'.2) (ignoreFields : Obj → List IgnoreField) (klass : Obj) :
    (tagClass env ignoreFields st klass).1 = (tagClass env ignoreFields st' klass).1 ∧
      Retags old (klass :: done) (tagClass env ignoreFields st klass).2
        (tagClass env ignoreFields st' klass).2 := by
  obtain ⟨nodes₁, s⟩ := st
  obtain ⟨nodes₂, s'⟩ := st'
  obtain rfl : nodes₁ = nodes₂ := classNodes
  have nodes : s.nodes = s'.nodes := retags.nodes
  have number : s.numberOfLeaks = s'.numberOfLeaks := retags.numberOfLeaks
  simp only [tagClass_eq, nodes, number]
  split_ifs
  · exact ⟨rfl, rfl, rfl, retags.nodesAllocated, retags.nodesFreed,
      fun x => retags.update klass 0 x⟩
  · refine ⟨rfl, rfl, rfl, ?_, retags.nodesFreed,
      fun x => retags.update klass _ x⟩
    exact congrArg (· + 1) retags.nodesAllocated

theorem tagAllClasses (retags : Retags old done s s') (ignoreFields : Obj → List IgnoreField)
    (classes : List Obj) :
    (tagAllClasses env ignoreFields classes s).1 = (tagAllClasses env ignoreFields classes s').1 ∧
      Retags old (classes.reverse ++ done) (tagAllClasses env ignoreFields classes s).2
        (tagAllClasses env ignoreFields classes s').2 := by
  have fold : ∀ (classes : List Obj) done (st st' : List ℕ × AgentState Obj),
      st.1 = st'.1 → Retags old done st.2 st'.2 →
      (classes.foldl (JLeaker.tagClass env ignoreFields) st).1 =
        (classes.foldl (JLeaker.tagClass env ignoreFields) st').1 ∧
      Retags old (classes.reverse ++ done)
        (classes.foldl (JLeaker.tagClass env ignoreFields) st).2
        (classes.foldl (JLeaker.tagClass env ignoreFields) st').2 := by
    intro classes
    induction classes with
    | nil => exact fun _ _ _ nodes retags => ⟨nodes, retags⟩
    | cons klass rest ih =>
      intro done st st' nodes retags
      obtain ⟨nodes₁, retags₁⟩ := retags.tagClass nodes ignoreFields klass
      simpa using ih _ _ _ nodes₁ retags₁
  exact fold classes done ([], s) ([], s') rfl retags

end Retags

namespace DumpInput

/-- The dump as it would be in a JVM without tags. -/
def toDump (d : DumpInput Obj) (w : World Obj) : Dump Obj where
  agent := d.agent
  candidates := d.candidates (d.begin w).tags
  size := d.size
  loadedClasses := d.loadedClasses
  ignoreFields := d.ignoreFields
  order := d.order

/-- The state when the passes of a dump begin. -/
def start (d : DumpInput Obj) (w : World Obj) : Search Obj := Search.start (d.tagged w).2

variable (d : DumpInput Obj) {w : World Obj}

theorem searched_eq (empty : w.nodes.dom = ∅) :
    (d.searched w).1 = (d.toDump w).leaks ∧
      Retags (d.begin w).tags (((d.candidates (d.begin w).tags).map Prod.fst).reverse ++ [])
        (d.searched w).2 (d.toDump w).searched.2 := by
  have begun : Retags (d.begin w).tags [] (d.begin w) .init :=
    ⟨w.nodes.restart_of_dom_eq_empty empty, rfl, rfl, rfl, fun o => ⟨rfl, rfl⟩⟩
  exact begun.searchObjectsForLeaks d.size (d.candidates (d.begin w).tags)

theorem tagged_eq (empty : w.nodes.dom = ∅) :
    (d.tagged w).1 = (d.toDump w).classNodes ∧
      Retags (d.begin w).tags (d.loadedClasses.reverse ++
          (((d.candidates (d.begin w).tags).map Prod.fst).reverse ++ []))
        (d.tagged w).2 (d.toDump w).tagged.2 :=
  (d.searched_eq empty).2.tagAllClasses d.ignoreFields d.loadedClasses

/-- Without the old tags the passes begin as in a JVM without tags. -/
theorem masked_start (empty : w.nodes.dom = ∅) :
    (d.start w).masked (d.Retagged w) = (d.toDump w).start := by
  obtain ⟨_, retags⟩ := d.tagged_eq empty
  refine Search.eq_of_fields (funext fun o => ?_) retags.nodes retags.numberOfLeaks
    retags.nodesAllocated retags.nodesFreed (congrArg BitmaskSet.new retags.numberOfLeaks)
    (congrArg (List.replicate · 0) retags.numberOfLeaks)
  have tags := retags.tags o
  split_ifs at tags with hdone
  · have ho : d.Retagged w o := by
      simp only [List.append_nil, List.mem_append, List.mem_reverse] at hdone
      exact .inr hdone
    exact (tags_masked ho).trans tags
  · refine Eq.trans ?_ tags.2.symm
    by_cases ho : d.Retagged w o
    · rw [tags_masked ho]
      simp only [List.append_nil, List.mem_append, List.mem_reverse] at hdone
      exact tags.1.trans (ho.resolve_right hdone)
    · exact tags_masked_of_not ho

/-- An object whose old tag the dump has not replaced carries it when the passes begin. -/
theorem tags_start_of_not_retagged (empty : w.nodes.dom = ∅) {o : Obj} (ho : ¬ d.Retagged w o) :
    (d.start w).tags o ≠ 0 := by
  obtain ⟨_, retags⟩ := d.tagged_eq empty
  have tags := retags.tags o
  obtain ⟨hne, hdone⟩ := not_or.1 ho
  rw [if_neg (by simpa using hdone)] at tags
  rw [start, Search.start, tags.1]
  exact hne

end DumpInput

/-! ## The tags a callback reads -/

/-- The callback for the reference dereferences the tag of the object. -/
inductive Dereferences (env : Agent Obj) (s : Search Obj) (r : HeapReference Obj) : Obj → Prop
  | referee (reported : Reported env s r)
      (notLocal : localReferenceOfThisThread env.threadId r.kind r.info = false) :
      Dereferences env s r r.referee
  | referrerClass (thisNode : MemoryNode Obj) (reported : Reported env s r)
      (passes : Passes env s r thisNode) (o : Obj) (referrer : r.referrer = some o)
      (tagged : s.tags (env.jvm.classOf o) ≠ 0) : Dereferences env s r (env.jvm.classOf o)
  | referrer (thisNode : MemoryNode Obj) (reported : Reported env s r)
      (passes : Passes env s r thisNode) (classTag : ClassTagOk env s r)
      (goOn : ¬ DropsByClass env s r thisNode) (o : Obj) (referrer : r.referrer = some o)
      (tagged : s.tags o ≠ 0) : Dereferences env s r o

/-- Every tag the callback dereferences is the address of a node that lives. -/
def DereferencesLive (env : Agent Obj) (s : Search Obj) (r : HeapReference Obj) : Prop :=
  ∀ o, Dereferences env s r o → s.tags o ∈ s.nodes.dom

theorem Dereferences.tagged {env : Agent Obj} {s : Search Obj} {r : HeapReference Obj} {o : Obj}
    (reads : Dereferences env s r o) : s.tags o ≠ 0 := by
  cases reads with
  | referee reported => exact reported.tagged
  | referrerClass _ _ _ _ _ tagged => exact tagged
  | referrer _ _ _ _ _ _ _ tagged => exact tagged

namespace DumpInput

variable (d : DumpInput Obj) (w : World Obj)

/-- The callback reads the tag of no class object that `GetLoadedClasses` omits and that carries a
tag since before the dump. -/
def MirrorsFresh (s : Search Obj) (r : HeapReference Obj) : Prop :=
  ∀ o, Dereferences d.agent s r o → d.agent.jvm.classOf o = d.agent.jvm.classClass →
    o ∉ d.loadedClasses → w.tags o = 0

/-- A new node for a referrer is not placed at an address that an uncollected object has as tag. -/
def AddressFresh (s : Search Obj) (r : HeapReference Obj) : Prop :=
  ∀ thisNode o, Records d.agent s r thisNode → r.referrer = some o → s.tags o = 0 →
    ∀ x ∈ d.objects, s.tags x ≠ s.nodes.fresh d.agent.malloc

/-- The objects of the reference are reachable. -/
def Reachable (r : HeapReference Obj) : Prop :=
  r.referee ∈ d.reported ∧ ∀ o, r.referrer = some o → o ∈ d.reported

/-- Every report of the dump, if it makes passes at all, starts in a state that satisfies `P`. -/
def Meets (P : Search Obj → HeapReference Obj → Prop) : Prop :=
  (d.searched w).1 ≠ [] →
    IterationsMeet d.agent d.order P d.agent.gdata.referenceChainLength.toNat 0 (d.start w)

/-- A dump whose first report fails does not meet `P`. -/
theorem not_meets {d : DumpInput Obj} {w : World Obj} {P : Search Obj → HeapReference Obj → Prop}
    (leaks : (d.searched w).1 ≠ []) (passes : 0 < d.agent.gdata.referenceChainLength.toNat)
    {r : HeapReference Obj} {rest : List (HeapReference Obj)} (reports : d.order 0 = r :: rest)
    (fails : ¬ P (d.start w).resetNodesFound r) : ¬ d.Meets w P :=
  fun meets => fails (IterationsMeet.first (meets leaks) passes reports)

/-- The tags of the objects whose old tags are replaced are good ones, the other objects have their
old tags, and no old tag is the address of a node whose object is not known yet. -/
structure TagsCurrent (s : Search Obj) : Prop where
  search : SearchOk (d.toDump w).leaks.length (s.masked (d.Retagged w))
  held : HeldByLists (d.toDump w).leaks (d.toDump w).classNodes (s.masked (d.Retagged w))
  old : ∀ o, ¬ d.Retagged w o → s.tags o ≠ 0
  unshared : ∀ a nd, s.nodes.get? a = some nd → nd.obj = none → ∀ o ∈ d.objects,
    ¬ d.Retagged w o → s.tags o ≠ a

variable {d w} {s s' : Search Obj} {r : HeapReference Obj}

theorem tagsCurrent_start (empty : w.nodes.dom = ∅) : d.TagsCurrent w (d.start w) where
  search := d.masked_start empty ▸ (d.toDump w).searchOk_start
  held := d.masked_start empty ▸ (d.toDump w).heldByLists_start
  old o ho := d.tags_start_of_not_retagged empty ho
  unshared a nd h hobj := by
    have hnode : (d.toDump w).start.nodes.get? a = some nd := by
      rw [← d.masked_start empty]
      exact h
    rcases (d.toDump w).node_cases hnode with ⟨_, _, o, _, rfl⟩ | ⟨klass, _, _, rfl⟩
    · cases hobj
    · cases hobj

theorem TagsCurrent.resetNodesFound (current : d.TagsCurrent w s) :
    d.TagsCurrent w s.resetNodesFound where
  search := current.search.resetNodesFound
  held := ⟨current.held.owned, current.held.labelled, current.held.allocated, current.held.freed⟩
  old := current.old
  unshared := current.unshared

/-- The objects whose tags the callback reads have good ones. -/
theorem JvmFacts.retagged_of_dereferences (facts : d.JvmFacts) (reachable : d.Reachable r)
    (mirrors : d.MirrorsFresh w s r) {o : Obj} (reads : Dereferences d.agent s r o) :
    d.Retagged w o := by
  have mirror := mirrors o reads
  cases reads with
  | referee => exact facts.retagged w reachable.1 mirror
  | referrerClass _ _ _ o hr => exact .inr (.inl (facts.class_loaded o (reachable.2 o hr)))
  | referrer _ _ _ _ _ _ hr => exact facts.retagged w (reachable.2 o hr) mirror

theorem JvmFacts.seen (facts : d.JvmFacts) (reachable : d.Reachable r)
    (referee : d.Retagged w r.referee) :
    Seen (d.Retagged w) d.agent r where
  referee := referee
  refereeClass := .inr (.inl (facts.class_loaded _ reachable.1))
  referrerClass o hr := .inr (.inl (facts.class_loaded o (reachable.2 o hr)))

/-- A tag the callback reads is the address of a node. -/
theorem TagsCurrent.dereferencesLive (current : d.TagsCurrent w s) (facts : d.JvmFacts)
    (reachable : d.Reachable r) (mirrors : d.MirrorsFresh w s r) : DereferencesLive d.agent s r := by
  intro o reads
  have ho := facts.retagged_of_dereferences reachable mirrors reads
  have hmem := current.search.tagged.mem o
  change (s.masked (d.Retagged w)).tags o ≠ 0 → (s.masked (d.Retagged w)).tags o ∈ s.nodes.dom at hmem
  rw [tags_masked ho] at hmem
  exact hmem reads.tagged

theorem TagsCurrent.countFanIn (current : d.TagsCurrent w s) (seen : Seen (d.Retagged w) d.agent r) :
    d.TagsCurrent w (s.countFanIn d.agent r) where
  search := countFanIn_masked seen ▸ current.search.countFanIn
  held := countFanIn_masked seen ▸ current.held.countFanIn
  old := current.old
  unshared a nd' h hobj := by
    rw [get?_countFanIn, Option.map_eq_some_iff] at h
    obtain ⟨nd, hnd, rfl⟩ := h
    exact current.unshared a nd hnd hobj

theorem TagsCurrent.recorded (current : d.TagsCurrent w s) (seen : Seen (d.Retagged w) d.agent r)
    (referrer : ∀ o, r.referrer = some o → d.Retagged w o) {thisNode : MemoryNode Obj}
    (records : Records d.agent s r thisNode) (referrerTag : ReferrerTagOk s r)
    (address : d.AddressFresh s r) : d.TagsCurrent w (s.recorded d.agent r thisNode) where
  search := by
    rw [← recorded_masked seen referrer]
    exact current.search.recorded (records.masked seen referrer).node (referrerTag.masked referrer)
  held := by
    rw [← recorded_masked seen referrer]
    exact current.held.recorded (records.masked seen referrer) (referrerTag.masked referrer)
  old o ho := by
    have hne := current.old o ho
    rwa [tags_recorded_of_ne_zero d.agent s r thisNode hne]
  unshared a nd' h hobj o ho hold := by
    rw [tags_recorded_of_ne_zero d.agent s r thisNode (current.old o hold)]
    obtain ⟨nd, rfl, hnd | ⟨⟨referrer, hnew⟩, rfl⟩⟩ := get?_recorded_eq_some records.node h
    · exact current.unshared a nd hnd hobj o ho hold
    · rw [hnew.addr]
      exact address thisNode referrer records hnew.referrer hnew.untagged o ho

/-- One report. -/
theorem TagsCurrent.report (current : d.TagsCurrent w s) (facts : d.JvmFacts)
    (reachable : d.Reachable r) (mirrors : d.MirrorsFresh w s r) (address : d.AddressFresh s r)
    (hreport : reportReference d.agent s r = .ok s') : d.TagsCurrent w s' := by
  have retagged : ∀ o, Dereferences d.agent s r o → d.Retagged w o := fun o =>
    facts.retagged_of_dereferences reachable mirrors
  cases reportReference_outcome hreport with
  | skipped => exact current
  | dropped thisNode reported passes =>
    exact current.countFanIn (facts.seen reachable (retagged _ (.referee reported passes.notLocal)))
  | recorded thisNode records classTag referrerTag =>
    have seen := facts.seen reachable (retagged _ (.referee records.toReported records.notLocal))
    refine current.recorded seen (fun o hr => ?_) records referrerTag address
    by_contra hold
    exact hold (retagged o (.referrer thisNode records.toReported records.toPasses classTag
      records.byClass o hr (current.old o hold)))

/-! ## The end of a dump -/

variable (d w) in
/-- What a dump needs for its tags to be current: the JVM keeps its promises, no callback reads the
old tag of an omitted class object, and no new node is placed at the address in an old tag. -/
structure TagsFresh : Prop where
  facts : d.JvmFacts
  mirrors : d.Meets w (d.MirrorsFresh w)
  addresses : d.Meets w d.AddressFresh

/-- Every report of the dump concerns reachable objects and meets both conditions. -/
theorem TagsFresh.meets (fresh : d.TagsFresh w) : d.Meets w fun s r =>
    d.Reachable r ∧ d.MirrorsFresh w s r ∧ d.AddressFresh s r := fun leaks =>
  (iterationsMeet_of_forall (fun _ i r hr =>
    ⟨fresh.facts.referee i r hr, fresh.facts.referrer i r hr⟩) _ _ _).and
    ((fresh.mirrors leaks).and (fresh.addresses leaks))

theorem TagsFresh.tagsCurrent (fresh : d.TagsFresh w) (empty : w.nodes.dom = ∅)
    (leaks : (d.searched w).1 ≠ []) (run : d.passes w = .ok s) : d.TagsCurrent w s :=
  heapIterations_invariant (fun _ current => current.resetNodesFound)
    (fun _ _ _ current cond hreport =>
      current.report fresh.facts cond.1 cond.2.1 cond.2.2 hreport)
    (fresh.meets leaks) (tagsCurrent_start empty) run

/-- No two uncollected objects carry the tag of a node whose object is not known. -/
theorem TagsCurrent.unique (current : d.TagsCurrent w s) (facts : d.JvmFacts) (a : ℕ)
    (nd : MemoryNode Obj) (hnd : s.nodes.get? a = some nd) (hobj : nd.obj = none) :
    (d.objectsWithTag s.tags a).length ≤ 1 := by
  have hlist : d.objectsWithTag s.tags a = d.objects.filter fun o => decide (s.tags o ∈ [a]) := by
    simp [objectsWithTag, getObjectsWithTags, Function.comp_def]
  have hmem : ∀ o ∈ d.objectsWithTag s.tags a, d.Retagged w o ∧ s.tags o = a := by
    intro o ho
    rw [hlist, List.mem_filter, decide_eq_true_eq, List.mem_singleton] at ho
    refine ⟨?_, ho.2⟩
    by_contra hold
    exact current.unshared a nd hnd hobj o ho.1 hold ho.2
  refine length_le_one_of_nodup (hlist ▸ facts.objects_nodup.filter _) fun o ho o' ho' => ?_
  obtain ⟨hr, htag⟩ := hmem o ho
  obtain ⟨hr', htag'⟩ := hmem o' ho'
  have hinj := current.search.tagged.inj o o'
  change (s.masked (d.Retagged w)).tags o ≠ 0 → (s.masked (d.Retagged w)).tags o =
    (s.masked (d.Retagged w)).tags o' → o = o' at hinj
  rw [tags_masked hr, tags_masked hr', htag, htag'] at hinj
  exact hinj (s.nodes.ne_zero_of_mem (s.nodes.mem_dom_of_get? hnd)) rfl

/-- Printing returns. -/
theorem TagsCurrent.printed (current : d.TagsCurrent w s) (facts : d.JvmFacts)
    (empty : w.nodes.dom = ∅) :
    ∃ chains st, d.printed w s = .ok (chains, st) ∧ Printed s.nodes st.nodes := by
  have ok := current.search.graphOk_of_unique (current.unique facts)
  have leaks : ∀ leak ∈ (d.toDump w).leaks, leak.node ∈ s.nodes.dom := fun leak hleak =>
    current.held.owned.counted.mem _ (Multiset.mem_add.2 (.inl (Multiset.mem_add.2
      (.inl (Multiset.mem_coe.2 (List.mem_map_of_mem hleak))))))
  have numbers : ((d.toDump w).leaks.map (·.leakNumber)).Nodup := by
    rw [(d.toDump w).leaks_searched.numbers]
    exact List.nodup_range
  unfold DumpInput.printed
  rw [(d.searched_eq empty).1]
  by_cases passes : d.agent.gdata.referenceChainLength > 0
  · rw [decide_eq_true passes]
    obtain ⟨chains, st, hrun, printed, _⟩ := printReferencesChainForLeakingNodes_answers d.agent
      (d.toDump w).leaks ⟨s.nodes, []⟩ current.search.allClear ok current.search.targetsIn leaks
      numbers _ (Nat.lt_succ_self _)
    exact ⟨chains, st, hrun, printed⟩
  · rw [decide_eq_false passes]
    obtain ⟨chains, st, hrun, printed, _⟩ := printReferencesChainForLeakingNodes_none d.agent
      (d.toDump w).leaks ⟨s.nodes, []⟩ ok leaks (s.nodes.dom.card + 1)
    exact ⟨chains, st, hrun, printed⟩

/-- When the passes return, the dump does, and it has freed all nodes. -/
theorem TagsFresh.returns (fresh : d.TagsFresh w) (empty : w.nodes.dom = ∅)
    (leaks : (d.searched w).1 ≠ []) (run : d.passes w = .ok s) :
    ∃ w', d.dumperThreadMain w = .ok w' ∧ w'.nodes.dom = ∅ := by
  have current := fresh.tagsCurrent empty leaks run
  obtain ⟨chains, st, hprinted, printed⟩ := current.printed fresh.facts empty
  have enough : st.nodes.dom.card < s.nodes.dom.card + 1 := by
    rw [printed.dom]
    exact Nat.lt_succ_self _
  obtain ⟨st₁, st₂, hleaks, hclasses, hdom, _⟩ :=
    (current.held.owned.printed printed).teardown enough s.nodesFreed
  refine ⟨⟨d.untagClasses s.tags, st₂.nodes⟩, ?_, hdom⟩
  have hlist : (d.searched w).1.isEmpty = false := by simpa using leaks
  rw [← (d.searched_eq empty).1] at hleaks
  rw [← (d.tagged_eq empty).1] at hclasses
  unfold dumperThreadMain
  simp only [hlist, Bool.false_eq_true, if_false, run, hprinted, hleaks, hclasses, Run.ok_bind]
  rfl

/-- A dump that returns has freed all nodes. -/
theorem TagsFresh.dom_eq_empty (fresh : d.TagsFresh w) (empty : w.nodes.dom = ∅) {w' : World Obj}
    (dump : d.dumperThreadMain w = .ok w') : w'.nodes.dom = ∅ := by
  by_cases leaks : (d.searched w).1 = []
  · have hw : w' = ⟨(d.searched w).2.tags, (d.searched w).2.nodes⟩ := by
      unfold dumperThreadMain at dump
      simp only [leaks, List.isEmpty_nil, if_true] at dump
      exact (Except.ok.inj dump).symm
    obtain ⟨hleaks, retags⟩ := d.searched_eq empty
    refine Finset.eq_empty_of_forall_notMem fun a ha => ?_
    rw [hw] at ha
    have := ((d.toDump w).leaks_searched.mem a).1 (retags.nodes ▸ ha)
    rw [← hleaks, leaks] at this
    cases this
  · obtain ⟨s, run⟩ : ∃ s, d.passes w = .ok s := by
      unfold dumperThreadMain at dump
      have hlist : (d.searched w).1.isEmpty = false := by simpa using leaks
      simp only [hlist, Bool.false_eq_true, if_false] at dump
      obtain ⟨s, run, _⟩ := Run.bind_eq_ok.1 dump
      exact ⟨s, run⟩
    obtain ⟨w₁, hw₁, hdom⟩ := fresh.returns empty leaks run
    obtain rfl := Except.ok.inj (hw₁.symm.trans dump)
    exact hdom

end DumpInput

/-! ## Runs of dumps -/

/-- Between two dumps objects are collected and created, so that tags get lost. -/
structure World.Evolves (w w' : World Obj) : Prop where
  nodes : w'.nodes = w.nodes
  tags : ∀ o, w'.tags o = w.tags o ∨ w'.tags o = 0

/-- The worlds that runs lead to whose dumps all satisfy `P`. -/
inductive World.Reached (P : DumpInput Obj → World Obj → Prop) : World Obj → Prop
  | init : Reached P .init
  | evolved {w w' : World Obj} (reached : Reached P w) (evolves : w.Evolves w') : Reached P w'
  | dumped {w w' : World Obj} (d : DumpInput Obj) (reached : Reached P w) (meets : P d w)
      (dump : d.dumperThreadMain w = .ok w') : Reached P w'

/-- After every dump all nodes are freed. -/
theorem World.Reached.dom_eq_empty {w : World Obj} (reached : World.Reached DumpInput.TagsFresh w) :
    w.nodes.dom = ∅ := by
  induction reached with
  | init => rfl
  | evolved _ evolves ih => rw [evolves.nodes, ih]
  | dumped d _ fresh dump ih => exact fresh.dom_eq_empty ih dump

/-- In every run of dumps whose tags are fresh, every tag a callback reads is a node of its dump, and
every lookup of an object finds at most one, so that printing returns and with it the dump. -/
theorem tags_current {w : World Obj} (reached : World.Reached DumpInput.TagsFresh w)
    {d : DumpInput Obj} (fresh : d.TagsFresh w) :
    w.nodes.dom = ∅ ∧
      d.Meets w (DereferencesLive d.agent) ∧
      ((d.searched w).1 ≠ [] → ∀ s, d.passes w = .ok s →
        (∀ a nd, s.nodes.get? a = some nd → nd.obj = none →
          (d.objectsWithTag s.tags a).length ≤ 1) ∧
        (∃ chains st, d.printed w s = .ok (chains, st)) ∧
        ∃ w', d.dumperThreadMain w = .ok w') := by
  have empty := reached.dom_eq_empty
  refine ⟨empty, fun leaks => ?_, fun leaks s run => ?_⟩
  · exact (fresh.meets leaks).of_invariant (fun _ current => current.resetNodesFound)
      (fun _ _ _ current cond hreport =>
        current.report fresh.facts cond.1 cond.2.1 cond.2.2 hreport)
      (fun _ _ current cond => current.dereferencesLive fresh.facts cond.1 cond.2.1)
      (DumpInput.tagsCurrent_start empty)
  · have current := fresh.tagsCurrent empty leaks run
    obtain ⟨chains, st, hprinted, _⟩ := current.printed fresh.facts empty
    obtain ⟨w', dump, _⟩ := fresh.returns empty leaks run
    exact ⟨current.unique fresh.facts, ⟨chains, st, hprinted⟩, w', dump⟩

namespace Sample

/-- A JVM whose class `1` is a map, `10` a primitive class and `11` the interface `java.util.Map`. -/
def mapJvm : Jvm (Fin 12) where
  classOf o := if o < 3 ∨ 10 ≤ o then 0 else if o < 8 then 1 else 2
  classClass := 0
  className := jvm.className

def mapInfo : ClassInfo (Fin 12) where
  findClass name := if name = "java/util/Map" then some 11 else none
  isInterface klass := klass = 11
  isArrayClass _ := false
  enclosingClass _ := none
  isAssignableFrom klass super := klass = super ∨ klass = 1 ∧ super = 11

/-- A dump in that JVM in which object `3` is a leak; `10` is omitted from the loaded classes. -/
def dumping (reported : List (Fin 12)) (refs : List (HeapReference (Fin 12))) :
    DumpInput (Fin 12) where
  agent := ⟨mapJvm, { gdata with sizeableClassesNum := 3 }, 7, .above⟩
  info := mapInfo
  ignoreClasses _ := false
  runGc := false
  objects := List.finRange 12
  reported := reported
  loadedClasses := [0, 1, 2, 11]
  size _ o := if o = 3 then 1000 else 0
  ignoreFields _ := []
  order _ := refs

theorem dumping_facts {reported : List (Fin 12)} {refs : List (HeapReference (Fin 12))}
    (reachable : ∀ r ∈ refs, r.referee ∈ reported ∧ ∀ o, r.referrer = some o → o ∈ reported)
    (loaded : ∀ o ∈ reported, mapJvm.classOf o ∈ [0, 1, 2, (11 : Fin 12)]) :
    (dumping reported refs).JvmFacts where
  sizeable := rfl
  objects_nodup := List.nodup_finRange 12
  uncollected _ _ := List.mem_finRange _
  referee _ r hr := (reachable r hr).1
  referrer _ r hr := (reachable r hr).2
  classClass_loaded := List.mem_cons_self
  class_loaded := loaded
  class_of_class := (by decide : ∀ k ∈ [0, 1, 2, (11 : Fin 12)], mapJvm.classOf k = 0)

/-- The leak is held by a JNI global reference. -/
def heldByJniDumps : DumpInput (Fin 12) := dumping [0, 1, 2, 3, 11] [jniGlobal 3]

theorem heldByJniDumps_fresh (w : World (Fin 12)) : heldByJniDumps.TagsFresh w where
  facts := dumping_facts (by decide) (by decide)
  mirrors _ := iterationsMeet_of_forall (fun s _ r hr o reads hclass _ => by
    obtain rfl : r = jniGlobal 3 := List.mem_singleton.1 hr
    cases reads with
    | referee => cases hclass
    | referrerClass _ _ _ _ hr => cases hr
    | referrer _ _ _ _ _ _ hr => cases hr) _ _ _
  addresses _ := iterationsMeet_of_forall (fun s _ r hr _ o _ ho => by
    obtain rfl : r = jniGlobal 3 := List.mem_singleton.1 hr
    cases ho) _ _ _

/-- The leak is held by a field of the primitive class, in every dump. -/
def heldByMirror : DumpInput (Fin 12) := dumping [0, 1, 2, 3, 10, 11] [field 3 10 0]

/-- The leak is held by object `8`; in the dump after that, `8` is unreachable and object `9` holds
the leak. -/
def heldByEight : DumpInput (Fin 12) := dumping [0, 1, 2, 3, 8, 11] [field 3 8 0]
def heldByNine : DumpInput (Fin 12) := dumping [0, 1, 2, 3, 9, 11] [field 3 9 0, staticField 9 2 0]

/-- The callback dereferences the tag of the primitive class. -/
theorem not_dereferencesLive {s : Search (Fin 12)} (h0 : s.tags 0 = 0) (h1 : s.tags 1 ≠ 0)
    (h3 : s.tags 3 ≠ 0) (h10 : s.tags 10 ≠ 0) (hdom : s.tags 10 ∉ s.nodes.dom)
    {nd : MemoryNode (Fin 12)} (hnd : s.nodes.get? (s.tags 3) = some nd)
    (unfinished : s.leaksFinished.containsAll nd.leaksRelated = false)
    (nonempty : nd.leaksRelated.isEmpty = false) :
    ¬ DereferencesLive heldByMirror.agent s (field 3 10 0) := by
  intro live
  have noClassTag : referrerClassTag mapJvm s.tags (field 3 10 0) = 0 := h0
  refine hdom (live 10 (.referrer nd ⟨h3, h1⟩ ⟨rfl, hnd, unfinished, nonempty⟩ ?_ ?_ 10 rfl h10))
  · exact fun hne => absurd noClassTag hne
  · exact fun ⟨_, hne, _⟩ => hne noClassTag

end Sample

/-- The second of two dumps. -/
theorem tags_current_heldByJni :
    ∃ w, Sample.heldByJniDumps.dumperThreadMain .init = .ok w ∧ w.nodes.dom = ∅ ∧
      Sample.heldByJniDumps.Meets w (DereferencesLive Sample.heldByJniDumps.agent) := by
  obtain ⟨w, dump, _⟩ := Run.exists_ok_of_any
    (x := Sample.heldByJniDumps.dumperThreadMain .init) (p := fun _ => true) (by decide +kernel)
  obtain ⟨empty, current, _⟩ := tags_current
    (.dumped _ .init (Sample.heldByJniDumps_fresh .init) dump) (Sample.heldByJniDumps_fresh w)
  exact ⟨w, dump, empty, current⟩

/-- The callback reads the tag an earlier dump left on an omitted class object, and a lookup finds an
object that carries the tag of an earlier dump beside the one that carries the node's. -/
theorem stale_tags :
    (∃ w, World.Reached (fun d _ => d.JvmFacts) w ∧ Sample.heldByMirror.JvmFacts ∧
      ¬ Sample.heldByMirror.Meets w (DereferencesLive Sample.heldByMirror.agent)) ∧
    ∃ w s, World.Reached (fun d _ => d.JvmFacts) w ∧ Sample.heldByNine.JvmFacts ∧
      Sample.heldByNine.passes w = .ok s ∧
      (Sample.heldByNine.objectsWithTag s.tags (s.tags 9)).length = 2 ∧
      Sample.heldByNine.printed w s = .error .fatalError := by
  have mirror : Sample.heldByMirror.JvmFacts := Sample.dumping_facts (by decide) (by decide)
  have eight : Sample.heldByEight.JvmFacts := Sample.dumping_facts (by decide) (by decide)
  have nine : Sample.heldByNine.JvmFacts := Sample.dumping_facts (by decide) (by decide)
  refine ⟨?_, ?_⟩
  · obtain ⟨w, dump, hw⟩ := Run.exists_ok_of_any
      (x := Sample.heldByMirror.dumperThreadMain .init) (p := fun w =>
        let s := (Sample.heldByMirror.start w).resetNodesFound
        !(Sample.heldByMirror.searched w).1.isEmpty && decide (s.tags 0 = 0) &&
        decide (s.tags 1 ≠ 0) && decide (s.tags 3 ≠ 0) && decide (s.tags 10 ≠ 0) &&
        decide (s.tags 10 ∉ s.nodes.dom) && (s.nodes.get? (s.tags 3)).any fun nd =>
          !s.leaksFinished.containsAll nd.leaksRelated && !nd.leaksRelated.isEmpty)
      (by decide +kernel)
    simp only [Bool.and_eq_true, Bool.not_eq_true', decide_eq_true_eq] at hw
    obtain ⟨⟨⟨⟨⟨⟨leaks, h0⟩, h1⟩, h3⟩, h10⟩, hdom⟩, hnode⟩ := hw
    obtain ⟨nd, hnd, hlabels⟩ := (Option.any_eq_true _ _).1 hnode
    simp only [Bool.and_eq_true, Bool.not_eq_true'] at hlabels
    have leaks : (Sample.heldByMirror.searched w).1 ≠ [] := by simpa using leaks
    exact ⟨w, .dumped _ .init mirror dump, mirror, DumpInput.not_meets leaks (by decide) rfl
      (Sample.not_dereferencesLive h0 h1 h3 h10 hdom hnd hlabels.1 hlabels.2)⟩
  · obtain ⟨w, dump, hw⟩ := Run.exists_ok_of_any
      (x := Sample.heldByEight.dumperThreadMain .init) (p := fun w =>
        (Sample.heldByNine.passes w).toOption.any fun s =>
          decide ((Sample.heldByNine.objectsWithTag s.tags (s.tags 9)).length = 2) &&
          decide (Run.error? (Sample.heldByNine.printed w s) = some .fatalError))
      (by decide +kernel)
    obtain ⟨s, run, hs⟩ := Run.exists_ok_of_any hw
    simp only [Bool.and_eq_true, decide_eq_true_eq] at hs
    exact ⟨w, s, .dumped _ .init eight dump, nine, run, hs.1, Run.eq_error_of_error? hs.2⟩

end JLeaker
