import JLeaker.Proof.SearchComplete

/-!
# Printed chains are paths in the heap

A chain is read off the records on the nodes.  Every record stands for a reference that a pass has
reported, and its node is the one the referrer still has, so a chain that is printed for a leak is a
path of reported references: it starts at the object of the leak and ends with a root.
-/

namespace JLeaker

variable {Obj : Type} [DecidableEq Obj]

/-! ## Paths -/

/-- A pass of the dump may report the reference, and the dump considers it. -/
structure Dump.Considers (d : Dump Obj) (r : HeapReference Obj) : Prop where
  reported : ∃ pass, r ∈ d.order pass
  considered : shouldConsiderThisReference d.agent.gdata r.kind = true
  notLocal : localReferenceOfThisThread d.agent.threadId r.kind r.info = false

/-- Such references from the object on to a root: each is held by the referrer of the one before. -/
inductive Dump.PathToRoot (d : Dump Obj) : Obj → List (HeapReference Obj) → Prop
  | root {r : HeapReference Obj} (considers : d.Considers r)
      (isRoot : isRootReference r.kind = true) : PathToRoot d r.referee [r]
  | step {r : HeapReference Obj} {o : Obj} {rest : List (HeapReference Obj)}
      (considers : d.Considers r) (isRoot : isRootReference r.kind = false)
      (referrer : r.referrer = some o) (path : PathToRoot d o rest) :
    PathToRoot d r.referee (r :: rest)

/-- The record of a reference, with the tag of its referrer. -/
def recordOf (tags : Obj → ℕ) (r : HeapReference Obj) : MemoryReferer :=
  ⟨r.kind, r.info.getD {}, r.referrer.map tags⟩

/-! ## What the records stand for -/

/-- The record on a node is that of the reference, which a pass may report. -/
structure IsRecordOf (d : Dump Obj) (tags : Obj → ℕ) (a : ℕ) (ref : MemoryReferer)
    (r : HeapReference Obj) : Prop where
  reported : ∃ pass, r ∈ d.order pass
  notLocal : localReferenceOfThisThread d.agent.threadId r.kind r.info = false
  referee : tags r.referee = a
  tagged : a ≠ 0
  referrer : ∀ o, r.referrer = some o → tags o ≠ 0
  eq : ref = recordOf tags r

/-- Every record on a node is that of a reported reference. -/
def RecordsReported (d : Dump Obj) (s : Search Obj) : Prop :=
  ∀ a, ∀ ref ∈ referencesOf s.nodes a, ∃ r, IsRecordOf d s.tags a ref r

omit [DecidableEq Obj] in
/-- Records stand for the same references while the tags that are set are kept. -/
theorem IsRecordOf.keep {d : Dump Obj} {tags tags' : Obj → ℕ} {a : ℕ} {ref : MemoryReferer}
    {r : HeapReference Obj} (record : IsRecordOf d tags a ref r)
    (kept : ∀ o, tags o ≠ 0 → tags' o = tags o) : IsRecordOf d tags' a ref r where
  reported := record.reported
  notLocal := record.notLocal
  referee := by
    rw [kept _ (record.referee ▸ record.tagged)]
    exact record.referee
  tagged := record.tagged
  referrer o ho := by
    rw [kept o (record.referrer o ho)]
    exact record.referrer o ho
  eq := by
    rw [record.eq]
    unfold recordOf
    rcases hr : r.referrer with _ | o
    · rfl
    · rw [Option.map_some, Option.map_some, kept o (record.referrer o hr)]

/-- What a report adds is the record of its reference. -/
theorem isRecordOf_newReferer {d : Dump Obj} {s : Search Obj} {r : HeapReference Obj}
    {thisNode : MemoryNode Obj} (hr : ∃ pass, r ∈ d.order pass)
    (records : Records d.agent s r thisNode) :
    IsRecordOf d (s.recorded d.agent r thisNode).tags (s.tags r.referee)
      (newReferer d.agent s r) r where
  reported := hr
  notLocal := records.notLocal
  referee := tags_recorded_of_ne_zero d.agent s r thisNode
    (s.nodes.ne_zero_of_mem (s.nodes.mem_dom_of_get? records.node))
  tagged := s.nodes.ne_zero_of_mem (s.nodes.mem_dom_of_get? records.node)
  referrer o ho := by
    rw [tags_recorded]
    split_ifs with h
    · exact s.nodes.fresh_ne_zero d.agent.malloc
    · exact fun h0 => h ⟨ho, h0⟩
  eq := by
    unfold newReferer recordOf
    rcases ho : r.referrer with _ | o
    · rw [refNodeOf, ho]
      rfl
    · rw [refNodeOf_eq_tags d.agent s thisNode ho]
      rfl

theorem RecordsReported.recorded {d : Dump Obj} {s : Search Obj} {r : HeapReference Obj}
    {thisNode : MemoryNode Obj} (reported : RecordsReported d s) (hr : ∃ pass, r ∈ d.order pass)
    (records : Records d.agent s r thisNode) :
    RecordsReported d (s.recorded d.agent r thisNode) := by
  have old : ∀ a, ∀ ref ∈ referencesOf s.nodes a, ∃ r',
      IsRecordOf d (s.recorded d.agent r thisNode).tags a ref r' := by
    intro a ref href
    obtain ⟨r', record⟩ := reported a ref href
    exact ⟨r', record.keep fun o h => tags_recorded_of_ne_zero d.agent s r thisNode h⟩
  intro a ref href
  rw [referencesOf_recorded records.node] at href
  split_ifs at href with ha
  · rcases List.mem_append.1 href with href | href
    · exact old a ref href
    · rw [List.mem_singleton.1 href, ha]
      exact ⟨r, isRecordOf_newReferer hr records⟩
  · exact old a ref href

theorem Dump.recordsReported_run (d : Dump Obj) {s : Search Obj} (run : d.run = .ok s) :
    RecordsReported d s := by
  refine run_invariant (P := fun _ r => ∃ pass, r ∈ d.order pass) (fun _ h => h)
    (fun s r s' reported hr hreport => ?_) (meets_of_forall fun _ i _ hr => ⟨i, hr⟩) ?_ run
  · cases reportReference_outcome hreport with
    | skipped => exact reported
    | dropped =>
      intro a ref href
      rw [referencesOf_countFanIn] at href
      exact reported a ref href
    | recorded thisNode records => exact reported.recorded hr records
  · intro a ref href
    rw [d.referencesOf_start] at href
    cases href

omit [DecidableEq Obj] in
/-- A chain from the node of an object on stands for a path from the object. -/
theorem IsChain.pathToRoot {d : Dump Obj} {s : Search Obj} (reported : RecordsReported d s)
    (tagged : WellTagged s.toAgentState) {A : Set ℕ} {path : List MemoryReferer} {a : ℕ}
    (chain : IsChain d.agent.gdata (referencesOf s.nodes) A a path) :
    ∃ o refs, a = s.tags o ∧ d.PathToRoot o refs ∧ path = refs.map (recordOf s.tags) := by
  induction path generalizing a with
  | nil => exact chain.elim
  | cons ref rest ih =>
    obtain ⟨-, href, considered, hrest⟩ := chain
    obtain ⟨r, record⟩ := reported a ref href
    have ha := record.referee.symm
    obtain rfl := record.eq
    have considers : d.Considers r := ⟨record.reported, considered, record.notLocal⟩
    refine ⟨r.referee, ?_⟩
    split_ifs at hrest with hroot
    · subst hrest
      exact ⟨[r], ha, .root considers hroot, rfl⟩
    · obtain ⟨b, hb, hchain⟩ := hrest
      obtain ⟨o, refs, rfl, path, rfl⟩ := ih hchain
      obtain ⟨o', ho', same⟩ := Option.map_eq_some_iff.1 hb
      -- the record names the node of the referrer, and no other object has its tag
      obtain rfl := tagged.inj o' o (record.referrer o' ho') same
      exact ⟨r :: refs, ha, .step considers (Bool.eq_false_of_not_eq_true hroot) ho' path, rfl⟩

/-! ## The object of a leak -/

/-- No other object has the tag of a node that names its object. -/
structure ObjectsNamed (s : AgentState Obj) : Prop where
  mem : ∀ o, s.tags o ≠ 0 → s.tags o ∈ s.nodes.dom
  owner : ∀ a nd o, s.nodes.get? a = some nd → nd.obj = some o → ∀ o', s.tags o' = a → o' = o

namespace ObjectsNamed

variable {s s' : AgentState Obj} (named : ObjectsNamed s) {env : Agent Obj} {o : Obj}

include named

theorem retag {nd : MemoryNode Obj} (obj : nd.obj = some o)
    (nodes : s'.nodes = s.nodes.alloc env.malloc nd)
    (tags : s'.tags = Function.update s.tags o (s.nodes.fresh env.malloc)) : ObjectsNamed s' where
  mem o' h := by
    rw [tags] at h ⊢
    rw [nodes, CHeap.dom_alloc]
    by_cases ho : o' = o
    · rw [ho, Function.update_self]
      exact Finset.mem_insert_self _ _
    · rw [Function.update_of_ne ho] at h ⊢
      exact Finset.mem_insert_of_mem (named.mem o' h)
  owner a x p hx hp o' ho' := by
    rw [nodes, CHeap.get?_alloc] at hx
    rw [tags] at ho'
    split_ifs at hx with ha
    · cases hx
      obtain rfl := Option.some.inj (obj.symm.trans hp)
      by_contra hne
      rw [Function.update_of_ne hne, ha] at ho'
      have mem := named.mem o' (ho' ▸ s.nodes.fresh_ne_zero env.malloc)
      exact s.nodes.fresh_notMem env.malloc (ho' ▸ mem)
    · have hne : o' ≠ o := by
        rintro rfl
        rw [Function.update_self] at ho'
        exact ha ho'.symm
      rw [Function.update_of_ne hne] at ho'
      exact named.owner a x p hx hp o' ho'

theorem untag (nodes : s'.nodes = s.nodes) (tags : s'.tags = Function.update s.tags o 0) :
    ObjectsNamed s' where
  mem o' h := by
    rw [tags] at h ⊢
    rw [nodes]
    by_cases ho : o' = o
    · rw [ho, Function.update_self] at h
      exact absurd rfl h
    · rw [Function.update_of_ne ho] at h ⊢
      exact named.mem o' h
  owner a x p hx hp o' ho' := by
    rw [nodes] at hx
    rw [tags] at ho'
    have hne : o' ≠ o := by
      rintro rfl
      rw [Function.update_self] at ho'
      exact s.nodes.ne_zero_of_mem (s.nodes.mem_dom_of_get? hx) ho'.symm
    rw [Function.update_of_ne hne] at ho'
    exact named.owner a x p hx hp o' ho'

theorem searchObject (size : ℕ → Obj → ℤ) (leaks : List LeakingNode) (c : Obj × ℕ) :
    ObjectsNamed (searchObject env size (leaks, s) c).2 := by
  rw [searchObject_eq]
  split_ifs
  · exact named.retag rfl rfl rfl
  · exact named.untag rfl rfl

theorem tagClass (ignoreFields : Obj → List IgnoreField) (classNodes : List ℕ) (klass : Obj) :
    ObjectsNamed (tagClass env ignoreFields (classNodes, s) klass).2 := by
  rw [tagClass_eq]
  split_ifs
  · exact named.untag rfl rfl
  · exact named.retag rfl rfl rfl

end ObjectsNamed

namespace Dump

variable (d : Dump Obj)

theorem objectsNamed_start : ObjectsNamed d.start.toAgentState := by
  have init : ObjectsNamed (AgentState.init : AgentState Obj) :=
    ⟨fun o h => absurd rfl h, fun a nd o h => by simp [AgentState.init] at h⟩
  have searched : ObjectsNamed d.searched.2 := by
    have fold : ∀ (cs : List (Obj × ℕ)) (st : List LeakingNode × AgentState Obj),
        ObjectsNamed st.2 → ObjectsNamed (cs.foldl (searchObject d.agent d.size) st).2 := by
      intro cs
      induction cs with
      | nil => exact fun _ h => h
      | cons c cs ih => exact fun st h => ih _ (h.searchObject d.size st.1 c)
    exact fold d.candidates ([], .init) init
  have fold : ∀ (classes : List Obj) (st : List ℕ × AgentState Obj),
      ObjectsNamed st.2 → ObjectsNamed (classes.foldl (tagClass d.agent d.ignoreFields) st).2 := by
    intro classes
    induction classes with
    | nil => exact fun _ h => h
    | cons c cs ih => exact fun st h => ih _ (h.tagClass d.ignoreFields st.1 c)
  exact fold d.loadedClasses ([], d.searched.2) searched

/-- The candidate that became the leak: the object it was found at, larger than the threshold. -/
structure IsLeak (leak : LeakingNode) (o : Obj) : Prop where
  object : d.LeakingObject leak o
  candidate : ∃ tag, (o, tag) ∈ d.candidates ∧ leak.leakSize = candidateSize d.agent d.size (o, tag)
  large : leak.leakSize > d.agent.gdata.sizeThreshold

/-- After the passes only the object of the leak can have the tag of its node. -/
theorem exists_leakOwner {s : Search Obj} (run : d.run = .ok s) {leak : LeakingNode}
    (hleak : leak ∈ d.leaks) : ∃ o, d.IsLeak leak o ∧ ∀ o', s.tags o' = leak.node → o' = o := by
  obtain ⟨k, hk, rfl⟩ := List.getElem_of_mem hleak
  have hnode := d.leaks_searched.node
  have hlen := hnode.length_eq
  have hk' : k < (leakingCandidates d.agent d.size d.candidates).length := by omega
  obtain ⟨hget, hsize⟩ := (List.forall₂_iff_get.1 hnode).2 k hk' hk
  have hmem := List.getElem_mem hk'
  obtain ⟨candidate, large⟩ := List.mem_filter.1 hmem
  rw [List.get_eq_getElem, List.get_eq_getElem] at hget hsize
  have hdom := CHeap.mem_dom_of_get? _ hget
  have start : d.start.nodes.get? d.leaks[k].node = d.searched.2.nodes.get? d.leaks[k].node :=
    d.classNodes_tagged.old _ hdom
  refine ⟨(leakingCandidates d.agent d.size d.candidates)[k].1,
    ⟨⟨_, start.trans hget, rfl⟩, ⟨_, candidate, hsize⟩, ?_⟩, ?_⟩
  · rw [hsize]
    exact of_decide_eq_true large
  · have init := d.objectsNamed_start.owner _ _ _ (start.trans hget) rfl
    refine (run_invariant (I := fun s => d.leaks[k].node ∈ s.nodes.dom ∧
      ∀ o', s.tags o' = d.leaks[k].node → o' = _) (fun _ h => h) (fun s r s' kept _ hreport => ?_)
      d.meets_true ⟨CHeap.mem_dom_of_get? _ (start.trans hget), init⟩ run).2
    cases reportReference_outcome hreport with
    | skipped => exact kept
    | dropped => exact kept
    | recorded thisNode records =>
      refine ⟨?_, fun o' ho' => ?_⟩
      · rw [dom_recorded]
        exact dom_subset_grownHeap _ _ _ kept.1
      · rw [tags_recorded] at ho'
        split_ifs at ho' with hnew
        · exact absurd ho'.symm (s.nodes.ne_fresh_of_mem _ kept.1)
        · exact kept.2 o' ho'

end Dump

/-! ## What is printed -/

/-- Every chain that is printed for a leak is a path of reported references, from the object of the leak
to a root. -/
theorem printedChains_inHeap (d : Dump Obj) {s : Search Obj} (run : d.run = .ok s)
    {objectsWithTag : ℕ → List Obj} (lookup : TagLookup objectsWithTag s.tags) {fuel : ℕ}
    (enough : s.nodes.dom.card < fuel) (passes : d.agent.gdata.referenceChainLength > 0) :
    ∃ chains st, d.chains objectsWithTag fuel s = .ok (chains, st) ∧
      chains.length = d.leaks.length ∧
      ∀ leak path, (leak, some path) ∈ d.leaks.zip chains → ∃ o refs, d.IsLeak leak o ∧
        d.PathToRoot o refs ∧ path = refs.map (recordOf s.tags) := by
  obtain ⟨chains, st, hrun, hall⟩ := d.chains_answers run passes lookup enough
  refine ⟨chains, st, hrun, hall.length_eq.symm, fun leak path hmem => ?_⟩
  have answers : Answers d.agent.gdata objectsWithTag s.nodes leak (some path) :=
    List.forall₂_zip hall hmem
  obtain ⟨o, refs, htag, hpath, rfl⟩ := IsChain.pathToRoot (d.recordsReported_run run)
    (d.searchOk_run run).tagged answers
  obtain ⟨o', isLeak, owner⟩ := d.exists_leakOwner run (List.of_mem_zip hmem).1
  obtain rfl := owner o htag.symm
  exact ⟨o, refs, isLeak, hpath, rfl⟩

theorem printedChains_inHeap_sharedHolder :
    ∃ s chains st path o refs, Sample.sharedHolder.run = .ok s ∧ Sample.sharedHolder.chains
        (Sample.objectsWithTag s.tags) (s.nodes.dom.card + 1) s = .ok (chains, st) ∧
      (⟨1, 1000, 0⟩, some path) ∈ Sample.sharedHolder.leaks.zip chains ∧ path.length = 4 ∧
      Sample.sharedHolder.IsLeak ⟨1, 1000, 0⟩ o ∧ Sample.sharedHolder.PathToRoot o refs ∧
      path = refs.map (recordOf s.tags) := by
  obtain ⟨s, run, h⟩ := Run.exists_ok_of_any (x := Sample.sharedHolder.run)
    (p := fun s => (Sample.sharedHolder.chains (Sample.objectsWithTag s.tags)
      (s.nodes.dom.card + 1) s).toOption.any fun r =>
        Sample.startsWithChain 4 r.1) (by decide +kernel)
  obtain ⟨⟨chains, st⟩, hrun, h⟩ := Run.exists_ok_of_any h
  obtain ⟨path, rest, rfl, length, mem⟩ := Sample.of_startsWithChain h
  obtain ⟨chains', st', hrun', -, all⟩ := printedChains_inHeap Sample.sharedHolder run
    (Sample.allAlive s.tags).toTagLookup (Nat.lt_succ_self _) (by decide)
  obtain ⟨rfl, rfl⟩ := Prod.mk.inj (Except.ok.inj (hrun.symm.trans hrun'))
  obtain ⟨o, refs, isLeak, isPath, eq⟩ := all _ path mem
  exact ⟨s, _, st, path, o, refs, run, hrun, mem, length, isLeak, isPath, eq⟩

end JLeaker
