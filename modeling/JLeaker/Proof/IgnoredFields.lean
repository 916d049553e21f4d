import JLeaker.Proof.ClassNodes
import JLeaker.Proof.Finished

/-!
# Ignored fields

The callback compares a field's threshold with the `leak_size` of the referenced node, which is the
largest size of all leaks that reached it so far.  So a chain can pass a field whose threshold is
larger than its own leak, but only where a leak at least as large as the threshold reaches the same
node.
-/

namespace JLeaker

variable {Obj : Type} [DecidableEq Obj]

/-- The recorded reference goes through a field that is configured for the class of its referrer, or
for the referrer itself where the field is static. -/
def Configured (jvm : Jvm Obj) (ignoreFields : Obj → List IgnoreField) (loadedClasses : List Obj)
    (tags : Obj → ℕ) (ref : MemoryReferer) (ig : IgnoreField) : Prop :=
  ∃ o klass, ref.node = some (tags o) ∧ klass ∈ loadedClasses ∧ klass ≠ jvm.classClass ∧
    ig ∈ ignoreFields klass ∧ ig.field = ref.info.index ∧
    (ref.kind = .field ∧ jvm.classOf o = klass ∨ ref.kind = .staticField ∧ o = klass)

/-- Every configured field that is recorded has a threshold the node's size meets, and the size of a
node is that of a leak that reaches it. -/
structure ThresholdsMet (jvm : Jvm Obj) (ignoreFields : Obj → List IgnoreField)
    (loadedClasses : List Obj) (leaks : List LeakingNode) (s : Search Obj) : Prop where
  met : ∀ a nd, s.nodes.get? a = some nd → ∀ ref ∈ nd.start, ∀ ig,
    Configured jvm ignoreFields loadedClasses s.tags ref ig → ig.threshold ≤ nd.leakSize
  size : ∀ a nd, s.nodes.get? a = some nd →
    nd.leakSize ≤ 0 ∨ ∃ leak ∈ leaks, nd.leakSize ≤ leak.leakSize ∧ Reaches s.nodes leak.node a

omit [DecidableEq Obj] in
theorem isFieldIgnored_eq_false {classNode thisNode : MemoryNode Obj} {index : ℤ} :
    isFieldIgnored classNode thisNode index = false ↔
      ∀ ig ∈ classNode.ignoreFields, ig.field = index → ig.threshold ≤ thisNode.leakSize := by
  simp [isFieldIgnored]

/-- A field the callback lets through has a threshold that the referenced node's size meets. -/
theorem threshold_le_of_records {env : Agent Obj} {s : Search Obj} {r : HeapReference Obj}
    {thisNode : MemoryNode Obj} {ignoreFields : Obj → List IgnoreField} {loadedClasses : List Obj}
    (classes : ClassesTagged env.jvm ignoreFields loadedClasses s.toAgentState)
    (records : Records env s r thisNode) {o klass : Obj} (ho : r.referrer = some o)
    (hk : klass ∈ loadedClasses) (hne : klass ≠ env.jvm.classClass) {ig : IgnoreField}
    (hig : ig ∈ ignoreFields klass) (hfield : ig.field = (r.info.getD {}).index)
    (hkind : r.kind = .field ∧ env.jvm.classOf o = klass ∨ r.kind = .staticField ∧ o = klass) :
    ig.threshold ≤ thisNode.leakSize := by
  obtain ⟨nd, hnd, _, _, hfields⟩ := classes.node klass hk hne
  have htag := s.nodes.ne_zero_of_mem (s.nodes.mem_dom_of_get? hnd)
  refine isFieldIgnored_eq_false.1 ?_ ig (hfields ▸ hig) hfield
  rcases hkind with ⟨hkind, rfl⟩ | ⟨hkind, rfl⟩
  · have htag' : referrerClassTag env.jvm s.tags r = s.tags (env.jvm.classOf o) := by
      simp [referrerClassTag, ho]
    by_contra hignored
    exact records.byClass ⟨nd, htag' ▸ htag, htag' ▸ hnd, .inr ⟨hkind, by simpa using hignored⟩⟩
  · by_contra hignored
    exact records.byReferrer ⟨o, nd, ho, htag, hnd, .inl ⟨hkind, by simpa using hignored⟩⟩

namespace ThresholdsMet

variable {ignoreFields : Obj → List IgnoreField} {loadedClasses : List Obj}
  {leaks : List LeakingNode} {env : Agent Obj} {s s' : Search Obj} {r : HeapReference Obj}
  {thisNode : MemoryNode Obj} {numberOfLeaks : ℕ}

theorem countFanIn (ok : ThresholdsMet env.jvm ignoreFields loadedClasses leaks s) :
    ThresholdsMet env.jvm ignoreFields loadedClasses leaks (s.countFanIn env r) where
  met a nd' h := by
    rw [get?_countFanIn, Option.map_eq_some_iff] at h
    obtain ⟨nd, hnd, rfl⟩ := h
    exact ok.met a nd hnd
  size a nd' h := by
    rw [get?_countFanIn, Option.map_eq_some_iff] at h
    obtain ⟨nd, hnd, rfl⟩ := h
    unfold Reaches PointsTo
    rw [referencesOf_countFanIn]
    exact ok.size a nd hnd

/-- A record of a node that was there before goes to an object that was tagged before. -/
theorem configured_of_recorded {ref : MemoryReferer} {ig : IgnoreField}
    (target : ∀ b, ref.node = some b → b ∈ s.nodes.dom)
    (h : Configured env.jvm ignoreFields loadedClasses (s.recorded env r thisNode).tags ref ig) :
    Configured env.jvm ignoreFields loadedClasses s.tags ref ig := by
  obtain ⟨o, klass, hnode, hrest⟩ := h
  refine ⟨o, klass, ?_, hrest⟩
  have hmem := target _ hnode
  rw [hnode]
  simp only [Search.recorded] at hmem ⊢
  rcases hr : r.referrer with _ | o'
  · rfl
  · by_cases htag : s.tags o' = 0
    · by_cases ho : o = o'
      · subst ho
        simp only [hr, htag, ne_eq, not_true_eq_false, if_false, Function.update_self] at hmem
        exact absurd hmem (s.nodes.fresh_notMem env.malloc)
      · simp [htag, Function.update_of_ne ho]
    · simp [htag]

theorem recorded (ok : ThresholdsMet env.jvm ignoreFields loadedClasses leaks s)
    (search : SearchOk numberOfLeaks s)
    (classes : ClassesTagged env.jvm ignoreFields loadedClasses s.toAgentState)
    (records : Records env s r thisNode) (referrerTag : ReferrerTagOk s r) :
    ThresholdsMet env.jvm ignoreFields loadedClasses leaks (s.recorded env r thisNode) where
  met a nd' h ref href ig hconf := by
    obtain ⟨nd, rfl, hnd⟩ := get?_recorded_eq_some records.node h
    have hle : nd.leakSize ≤ (recordedNode env s r thisNode a nd).leakSize := by
      simp only [recordedNode]
      split_ifs
      · exact le_max_left _ _
      · exact le_rfl
    have hold : ∀ ref ∈ nd.start, Configured env.jvm ignoreFields loadedClasses
        (s.recorded env r thisNode).tags ref ig →
        ig.threshold ≤ (recordedNode env s r thisNode a nd).leakSize := by
      intro ref href hconf
      rcases hnd with hnd | ⟨_, rfl⟩
      · exact (ok.met a nd hnd ref href ig (configured_of_recorded
          ((search.node a nd hnd).target ref href) hconf)).trans hle
      · simp [newMemoryNode] at href
    rcases mem_start_recordedNode.1 href with href | ⟨rfl, rfl⟩
    · exact hold ref href hconf
    · obtain rfl := eq_thisNode records.node hnd
      obtain ⟨o, klass, hnode, hk, hne, hig, hfield, hkind⟩ := hconf
      obtain ⟨o', ho', _⟩ := Option.map_eq_some_iff.1 hnode
      have htag : (s.recorded env r nd).tags o' = (s.recorded env r nd).tags o :=
        Option.some.inj ((refNodeOf_eq_tags env s nd ho').symm.trans hnode)
      have hmem : (s.recorded env r nd).tags o ∈ (s.recorded env r nd).nodes.dom := by
        rw [dom_recorded]
        exact refNodeOf_mem referrerTag hnode
      have hne0 := CHeap.ne_zero_of_mem _ hmem
      obtain rfl : o' = o :=
        (search.tagged.recorded records.node).inj o' o (htag ▸ hne0) htag
      exact (threshold_le_of_records classes records ho' hk hne hig hfield hkind).trans hle
  size a nd' h := by
    obtain ⟨nd, rfl, hnd⟩ := get?_recorded_eq_some records.node h
    have hold : nd.leakSize ≤ 0 ∨ ∃ leak ∈ leaks, nd.leakSize ≤ leak.leakSize ∧
        Reaches (s.recorded env r thisNode).nodes leak.node a := by
      rcases hnd with hnd | ⟨_, rfl⟩
      · rcases ok.size a nd hnd with h | ⟨leak, hleak, hle, hreach⟩
        · exact .inl h
        · exact .inr ⟨leak, hleak, hle, hreach.recorded records.node⟩
      · exact .inl le_rfl
    simp only [recordedNode]
    split_ifs with href
    · rcases le_total thisNode.leakSize nd.leakSize with hmax | hmax
      · rw [max_eq_left hmax]
        exact hold
      · rw [max_eq_right hmax]
        rcases ok.size _ thisNode records.node with h | ⟨leak, hleak, hle, hreach⟩
        · exact .inl h
        · exact .inr ⟨leak, hleak, hle, hreach.tail_recorded records.node href⟩
    · exact hold

theorem outcome (ok : ThresholdsMet env.jvm ignoreFields loadedClasses leaks s)
    (search : SearchOk numberOfLeaks s)
    (classes : ClassesTagged env.jvm ignoreFields loadedClasses s.toAgentState)
    (out : Outcome env s r s') :
    ThresholdsMet env.jvm ignoreFields loadedClasses leaks s' := by
  cases out with
  | skipped => exact ok
  | dropped => exact ok.countFanIn
  | recorded thisNode records _ referrerTag =>
    exact ok.recorded search classes records referrerTag

end ThresholdsMet

theorem Dump.thresholdsMet_run (d : Dump Obj) {s : Search Obj} (run : d.run = .ok s) :
    ThresholdsMet d.agent.jvm d.ignoreFields d.loadedClasses d.leaks s := by
  let I : Search Obj → Prop := fun s => SearchOk d.leaks.length s ∧
    ClassesTagged d.agent.jvm d.ignoreFields d.loadedClasses s.toAgentState ∧
    ThresholdsMet d.agent.jvm d.ignoreFields d.loadedClasses d.leaks s
  have init : I d.start := by
    refine ⟨d.searchOk_start, d.classesTagged_start, fun a nd h ref href => ?_, fun a nd h => ?_⟩
    · rcases d.node_cases h with ⟨leak, _, o, _, rfl⟩ | ⟨klass, _, _, rfl⟩
      · simp [leakNode, newMemoryNode] at href
      · simp [classNode, newMemoryNode] at href
    · rcases d.node_cases h with ⟨leak, hleak, o, rfl, rfl⟩ | ⟨klass, _, _, rfl⟩
      · exact .inr ⟨leak, hleak, le_rfl, .refl⟩
      · exact .inl le_rfl
  exact (run_invariant (I := I) (fun s h => ⟨h.1.resetNodesFound, h.2.1, h.2.2.1, h.2.2.2⟩)
    (fun s r s' h _ hreport =>
      have out := reportReference_outcome hreport
      ⟨h.1.outcome out, h.2.1.outcome out, h.2.2.outcome h.1 h.2.1 out⟩)
    d.meets_true init run).2.2

omit [DecidableEq Obj] in
/-- A configured field on a recorded reference has a threshold that some leak meets from whose node
the referenced node is reached. -/
theorem ThresholdsMet.exists_leak {jvm : Jvm Obj} {ignoreFields : Obj → List IgnoreField}
    {loadedClasses : List Obj} {leaks : List LeakingNode} {s : Search Obj}
    (ok : ThresholdsMet jvm ignoreFields loadedClasses leaks s) {a : ℕ} {ref : MemoryReferer}
    (href : ref ∈ referencesOf s.nodes a) {ig : IgnoreField} (positive : 0 < ig.threshold)
    (conf : Configured jvm ignoreFields loadedClasses s.tags ref ig) :
    ∃ leak ∈ leaks, ig.threshold ≤ leak.leakSize ∧ Reaches s.nodes leak.node a := by
  unfold referencesOf at href
  split at href
  · rename_i nd hnd
    have hle := ok.met a nd hnd ref href ig conf
    rcases ok.size a nd hnd with h | ⟨leak, hleak, hsize, hreach⟩
    · omega
    · exact ⟨leak, hleak, hle.trans hsize, hreach⟩
  · cases href

omit [DecidableEq Obj] in
/-- Every reference of a chain is recorded at the node where the chain takes it. -/
theorem IsChain.recorded_at {g : GlobalData} {refs : ℕ → List MemoryReferer} {A : Set ℕ}
    {path : List MemoryReferer} {node : ℕ} (chain : IsChain g refs A node path) {a : ℕ}
    {ref : MemoryReferer} (hmem : (a, ref) ∈ (chainNodes node path).zip path) : ref ∈ refs a := by
  induction path generalizing node with
  | nil => exact chain.elim
  | cons ref' rest ih =>
    obtain ⟨_, hr, _, hrest⟩ := chain
    simp only [chainNodes, List.zip_cons_cons, List.mem_cons, Prod.mk.injEq] at hmem
    rcases hmem with ⟨rfl, rfl⟩ | hmem
    · exact hr
    · split_ifs at hrest
      · subst hrest
        simp [chainNodes] at hmem
      · obtain ⟨b, hb, hchain⟩ := hrest
        rw [hb] at hmem
        exact ih hchain hmem

/-- A chain passes a field with a positive threshold only at nodes that a leak at least as large as
the threshold reaches. -/
theorem chain_respects_thresholds (d : Dump Obj) {s : Search Obj} (run : d.run = .ok s)
    {objectsWithTag : ℕ → List Obj} (lookup : TagLookup objectsWithTag s.tags) {fuel : ℕ}
    (enough : s.nodes.dom.card < fuel) {chains : List (Option (List MemoryReferer))}
    {st : ChainState Obj} (printed : d.chains objectsWithTag fuel s = .ok (chains, st))
    {leak : LeakingNode} {path : List MemoryReferer}
    (hpath : (leak, some path) ∈ d.leaks.zip chains) {a : ℕ} {ref : MemoryReferer}
    (href : (a, ref) ∈ (chainNodes leak.node path).zip path) {ig : IgnoreField}
    (positive : 0 < ig.threshold)
    (conf : Configured d.agent.jvm d.ignoreFields d.loadedClasses s.tags ref ig) :
    ∃ leak' ∈ d.leaks, ig.threshold ≤ leak'.leakSize ∧ Reaches s.nodes leak'.node a := by
  by_cases passes : d.agent.gdata.referenceChainLength > 0
  · obtain ⟨chains', st', printed', hall⟩ := d.chains_answers run passes lookup enough
    obtain ⟨rfl, rfl⟩ := Prod.mk.inj (Except.ok.inj (printed'.symm.trans printed))
    have hchain : IsChain _ _ _ leak.node path := List.forall₂_zip hall hpath
    exact (d.thresholdsMet_run run).exists_leak (hchain.recorded_at href) positive conf
  · obtain ⟨chains', st', printed', _, hnone⟩ := printReferencesChainForLeakingNodes_none d.agent
      d.leaks ⟨s.nodes, []⟩ ((d.searchOk_run run).graphOk lookup)
      (fun leak hleak => d.leak_mem_run run hleak) fuel
    rw [Dump.chains, decide_eq_false passes] at printed
    obtain ⟨rfl, rfl⟩ := Prod.mk.inj (Except.ok.inj (printed'.symm.trans printed))
    have := hnone _ (List.of_mem_zip hpath).2
    cases this

/-- The fields configured for the class `2`. -/
def Sample.ignoreFields (o : Fin 12) : List IgnoreField := if o = 2 then [⟨0, "value", 500⟩] else []

/-- Two leaks of sizes 1000 and 400 held by one object, which an ignored field holds. -/
def Sample.heldByIgnored : Dump (Fin 12) :=
  dump [(3, 1000), (4, 400)] [field 3 5 0, field 4 5 0, field 5 8 0, staticField 8 1 0]
    ignoreFields

/-- The chain of both leaks. -/
def Sample.ignoredPath : List MemoryReferer :=
  [⟨.field, {}, some 5⟩, ⟨.field, {}, some 6⟩, ⟨.staticField, {}, some 3⟩]

/-- Both leaks get the chain through the ignored field. -/
theorem Sample.heldByIgnored_chains :
    ∃ s chains st, heldByIgnored.run = .ok s ∧
      heldByIgnored.chains (objectsWithTag s.tags) (s.nodes.dom.card + 1) s = .ok (chains, st) ∧
      (⟨1, 1000, 0⟩, some ignoredPath) ∈ heldByIgnored.leaks.zip chains ∧
      (⟨2, 400, 1⟩, some ignoredPath) ∈ heldByIgnored.leaks.zip chains ∧
      Configured jvm ignoreFields [0, 1, 2] s.tags ⟨.field, {}, some 6⟩ ⟨0, "value", 500⟩ := by
  obtain ⟨s, run, hs⟩ := Run.exists_ok_of_any (x := heldByIgnored.run) (p := fun s =>
    decide (s.tags 8 = 6) && (heldByIgnored.chains (objectsWithTag s.tags)
      (s.nodes.dom.card + 1) s).toOption.any fun res => decide (
        (⟨1, 1000, 0⟩, some ignoredPath) ∈ heldByIgnored.leaks.zip res.1 ∧
        (⟨2, 400, 1⟩, some ignoredPath) ∈ heldByIgnored.leaks.zip res.1)) (by decide +kernel)
  obtain ⟨htag, hchains⟩ := Bool.and_eq_true_iff.1 hs
  obtain ⟨⟨chains, st⟩, printed, hmem⟩ := Run.exists_ok_of_any hchains
  obtain ⟨h₁, h₂⟩ := of_decide_eq_true hmem
  refine ⟨s, chains, st, run, printed, h₁, h₂, 8, 2, ?_, by decide, by decide, by decide, rfl,
    .inl ⟨rfl, by decide⟩⟩
  rw [of_decide_eq_true htag]

/-- The chain of the larger leak passes the field. -/
theorem chain_respects_thresholds_heldByIgnored :
    ∃ s, Sample.heldByIgnored.run = .ok s ∧
      ∃ leak ∈ Sample.heldByIgnored.leaks, 500 ≤ leak.leakSize ∧ Reaches s.nodes leak.node 5 := by
  obtain ⟨s, chains, st, run, printed, hpath, _, conf⟩ := Sample.heldByIgnored_chains
  have href : (5, (⟨.field, {}, some 6⟩ : MemoryReferer)) ∈
      (chainNodes 1 Sample.ignoredPath).zip Sample.ignoredPath := by decide
  have positive : 0 < (⟨0, "value", 500⟩ : IgnoreField).threshold := by decide
  exact ⟨s, run, chain_respects_thresholds Sample.heldByIgnored run
    (Sample.allAlive s.tags).toTagLookup (Nat.lt_succ_self _) printed hpath href positive conf⟩

/-- The chain of the smaller leak, of size 400, passes a field with the threshold 500. -/
theorem ignored_field_in_chain :
    ∃ s chains st leak path, Sample.heldByIgnored.run = .ok s ∧
      Sample.heldByIgnored.chains (Sample.objectsWithTag s.tags) (s.nodes.dom.card + 1) s =
        .ok (chains, st) ∧
      (leak, some path) ∈ Sample.heldByIgnored.leaks.zip chains ∧
      ∃ ref ∈ path, ∃ ig, Configured Sample.jvm Sample.ignoreFields [0, 1, 2] s.tags ref ig ∧
        leak.leakSize < ig.threshold := by
  obtain ⟨s, chains, st, run, printed, _, hpath, conf⟩ := Sample.heldByIgnored_chains
  exact ⟨s, chains, st, _, _, run, printed, hpath, _, by decide, _, conf, by decide⟩

end JLeaker
