import JLeaker.Lib.Lockstep
import JLeaker.Lib.Renaming
import JLeaker.Model.PrintReference
import JLeaker.Proof.SearchInvariant

/-!
# Where the nodes are placed

The tags of objects are addresses of nodes, and the search compares and follows them; what is printed
names objects only.  A renaming of the addresses takes every part of the search with it, so the report
does not depend on where `malloc` puts the nodes.
-/

namespace JLeaker

variable {Obj : Type}

/-! ## Renamed states -/

def MemoryReferer.rename (π : Renaming) (ref : MemoryReferer) : MemoryReferer :=
  { ref with node := ref.node.map π }

def MemoryNode.rename (π : Renaming) (nd : MemoryNode Obj) : MemoryNode Obj :=
  { nd with start := nd.start.map (·.rename π) }

def LeakingNode.rename (π : Renaming) (leak : LeakingNode) : LeakingNode :=
  { leak with node := π leak.node }

/-- The nodes at other addresses. -/
def renameNodes (π : Renaming) (nodes : CHeap (MemoryNode Obj)) : CHeap (MemoryNode Obj) :=
  nodes.rename π (·.rename π)

def AgentState.rename (π : Renaming) (s : AgentState Obj) : AgentState Obj :=
  { s with tags := fun o => π (s.tags o), nodes := renameNodes π s.nodes }

def Search.rename (π : Renaming) (s : Search Obj) : Search Obj :=
  { s with toAgentState := s.toAgentState.rename π }

def ChainState.rename (π : Renaming) (st : ChainState Obj) : ChainState Obj where
  nodes := renameNodes π st.nodes
  cells := st.cells.map fun cell => { cell with ref := cell.ref.rename π }

/-- Tags and records name live nodes only. -/
structure AgentState.Closed (s : AgentState Obj) : Prop where
  tags : ∀ o, s.tags o ≠ 0 → s.tags o ∈ s.nodes.dom
  records : ∀ a nd, s.nodes.get? a = some nd → ∀ ref ∈ nd.start, ∀ b, ref.node = some b →
    b ∈ s.nodes.dom

section

variable {dom : Finset ℕ} {π π' : Renaming} {s : AgentState Obj}

theorem MemoryReferer.rename_congr (agree : π.AgreeOn dom π') {ref : MemoryReferer}
    (live : ∀ b, ref.node = some b → b ∈ dom) : ref.rename π' = ref.rename π := by
  unfold MemoryReferer.rename
  cases node : ref.node with
  | none => rfl
  | some b => rw [Option.map_some, Option.map_some, agree b (live b node)]

theorem MemoryNode.rename_congr (agree : π.AgreeOn dom π') {nd : MemoryNode Obj}
    (live : ∀ ref ∈ nd.start, ∀ b, ref.node = some b → b ∈ dom) : nd.rename π' = nd.rename π := by
  have same : nd.start.map (·.rename π') = nd.start.map (·.rename π) :=
    List.map_congr_left fun ref mem => MemoryReferer.rename_congr agree (live ref mem)
  unfold MemoryNode.rename
  rw [same]

theorem MemoryNode.rename_of_start (π : Renaming) {nd : MemoryNode Obj} (start : nd.start = []) :
    nd.rename π = nd := by
  cases nd
  cases start
  rfl

theorem LeakingNode.map_rename_congr (agree : π.AgreeOn dom π') {leaks : List LeakingNode}
    (live : ∀ leak ∈ leaks, leak.node ∈ dom) : leaks.map (·.rename π') = leaks.map (·.rename π) := by
  refine List.map_congr_left fun leak mem => ?_
  unfold LeakingNode.rename
  rw [agree _ (live leak mem)]

theorem AgentState.Closed.rename_congr (closed : s.Closed) (agree : π.AgreeOn s.nodes.dom π') :
    s.rename π' = s.rename π := by
  have nodes : renameNodes π' s.nodes = renameNodes π s.nodes :=
    CHeap.rename_congr agree fun a nd h => MemoryNode.rename_congr agree (closed.records a nd h)
  have tags : (fun o => π' (s.tags o)) = fun o => π (s.tags o) := by
    funext o
    by_cases tagged : s.tags o = 0
    · rw [tagged, π.null, π'.null]
    · exact agree _ (closed.tags o tagged)
  unfold AgentState.rename
  rw [nodes, tags]

@[simp] theorem tags_rename (π : Renaming) (s : AgentState Obj) (o : Obj) :
    (s.rename π).tags o = π (s.tags o) := rfl

theorem get?_renameNodes (π : Renaming) (nodes : CHeap (MemoryNode Obj)) (a : ℕ) :
    (renameNodes π nodes).get? (π a) = (nodes.get? a).map (·.rename π) := nodes.get?_rename π _ a

/-- A node is changed in its new place. -/
theorem renameNodes_modify (π : Renaming) (nodes : CHeap (MemoryNode Obj)) (a : ℕ)
    {f g : MemoryNode Obj → MemoryNode Obj} (same : ∀ nd, (f nd).rename π = g (nd.rename π)) :
    renameNodes π (nodes.modify a f) = (renameNodes π nodes).modify (π a) g :=
  nodes.rename_modify π _ same

theorem lockstep_deref (π : Renaming) (nodes : CHeap (MemoryNode Obj)) (a : ℕ) :
    Lockstep (fun nd nd' => nodes.get? a = some nd ∧ nd' = nd.rename π) (deref nodes a)
      (deref (renameNodes π nodes) (π a)) := by
  unfold deref
  rw [get?_renameNodes]
  cases h : nodes.get? a with
  | none => exact .error _
  | some nd => exact .ok ⟨rfl, rfl⟩

end

/-! ## A new node -/

/-- The object gets a node, placed by `malloc`. -/
def AgentState.place [DecidableEq Obj] (m : Malloc) (s : AgentState Obj) (o : Obj)
    (nd : MemoryNode Obj) : AgentState Obj :=
  { s with
    nodes := s.nodes.alloc m nd
    nodesAllocated := s.nodesAllocated + 1
    tags := Function.update s.tags o (s.nodes.fresh m) }

section

variable [DecidableEq Obj] {s : AgentState Obj} {o : Obj} {nd : MemoryNode Obj}

theorem AgentState.Closed.place (closed : s.Closed) (m : Malloc) (start : nd.start = []) :
    (s.place m o nd).Closed where
  tags o' tagged := by
    simp only [AgentState.place] at tagged ⊢
    by_cases eq : o' = o
    · rw [eq, Function.update_self]
      exact Finset.mem_insert_self _ _
    · rw [Function.update_of_ne eq] at tagged ⊢
      exact Finset.mem_insert_of_mem (closed.tags o' tagged)
  records a x h ref mem b hb := by
    change (s.nodes.alloc m nd).get? a = some x at h
    rw [CHeap.get?_alloc] at h
    split_ifs at h
    · rw [← Option.some.inj h, start] at mem
      cases mem
    · exact Finset.mem_insert_of_mem (closed.records a x h ref mem b hb)

/-- Wherever the two allocators place the node, a renaming leads from one state to the other. -/
theorem AgentState.Closed.rename_place (closed : s.Closed) (π : Renaming) (m m' : Malloc)
    (start : nd.start = []) :
    ∃ π' : Renaming, π.AgreeOn s.nodes.dom π' ∧
      π' (s.nodes.fresh m) = (renameNodes π s.nodes).fresh m' ∧
      (s.place m o nd).rename π' = (s.rename π).place m' o nd := by
  have agree := s.nodes.agreeOn_renamingOfNext π (·.rename π) m m'
  refine ⟨_, agree, s.nodes.renamingOfNext_fresh π _ m m', ?_⟩
  have old := closed.rename_congr agree
  have nodes : renameNodes (s.nodes.renamingOfNext π (·.rename π) m m') (s.nodes.alloc m nd) =
      (renameNodes π s.nodes).alloc m' nd := by
    refine (CHeap.rename_alloc fun a x h =>
      MemoryNode.rename_congr agree (closed.records a x h)).trans ?_
    rw [MemoryNode.rename_of_start _ start]
    rfl
  have tags : (fun o' => s.nodes.renamingOfNext π (·.rename π) m m'
      (Function.update s.tags o (s.nodes.fresh m) o')) =
      Function.update (s.rename π).tags o ((renameNodes π s.nodes).fresh m') := by
    funext o'
    by_cases eq : o' = o
    · rw [eq, Function.update_self, Function.update_self]
      exact s.nodes.renamingOfNext_fresh π _ m m'
    · rw [Function.update_of_ne eq, Function.update_of_ne eq]
      exact congrFun (congrArg AgentState.tags old) o'
  unfold AgentState.place AgentState.rename at *
  rw [nodes, tags]

end

/-- The object has no node any more. -/
def AgentState.untag [DecidableEq Obj] (s : AgentState Obj) (o : Obj) : AgentState Obj :=
  { s with tags := Function.update s.tags o 0 }

section

variable [DecidableEq Obj] {s : AgentState Obj}

theorem AgentState.Closed.untag (closed : s.Closed) (o : Obj) : (s.untag o).Closed where
  tags o' tagged := by
    simp only [AgentState.untag] at tagged ⊢
    by_cases eq : o' = o
    · rw [eq, Function.update_self] at tagged
      exact absurd rfl tagged
    · rw [Function.update_of_ne eq] at tagged ⊢
      exact closed.tags o' tagged
  records := closed.records

theorem AgentState.rename_untag (s : AgentState Obj) (π : Renaming) (o : Obj) :
    (s.untag o).rename π = (s.rename π).untag o := by
  have tags : (fun o' => π (Function.update s.tags o 0 o')) =
      Function.update (s.rename π).tags o 0 := by
    funext o'
    by_cases eq : o' = o
    · rw [eq, Function.update_self, Function.update_self, π.null]
    · rw [Function.update_of_ne eq, Function.update_of_ne eq, tags_rename]
  unfold AgentState.untag AgentState.rename at *
  rw [tags]

end

/-! ## Leaks and classes -/

/-- The agent with another allocator. -/
def Agent.withMalloc (env : Agent Obj) (m : Malloc) : Agent Obj := { env with malloc := m }

section

variable [DecidableEq Obj] (env : Agent Obj) (m' : Malloc)

/-- A renaming leads from one state of `searchObjectsForLeaks` to the other. -/
def SearchedAlike (st st' : List LeakingNode × AgentState Obj) : Prop :=
  st.2.Closed ∧ (∀ leak ∈ st.1, leak.node ∈ st.2.nodes.dom) ∧
    ∃ π : Renaming, st' = (st.1.map (·.rename π), st.2.rename π)

theorem searchObject_alike (size : ℕ → Obj → ℤ) {st st' : List LeakingNode × AgentState Obj}
    (alike : SearchedAlike st st') (c : Obj × ℕ) :
    SearchedAlike (searchObject env size st c) (searchObject (env.withMalloc m') size st' c) := by
  obtain ⟨leaks, s⟩ := st
  obtain ⟨closed, live, π, rfl⟩ := alike
  rw [searchObject_eq, searchObject_eq]
  have sameSize : candidateSize (env.withMalloc m') size c = candidateSize env size c := rfl
  rw [sameSize]
  by_cases large : candidateSize env size c > env.gdata.sizeThreshold
  · rw [if_pos large, if_pos (show _ > (env.withMalloc m').gdata.sizeThreshold from large)]
    -- the state with the new node, before the leaks are counted
    have start : (leakNode (newLeak env size s c) c.1).start = [] := rfl
    obtain ⟨π', agree, fresh, placed⟩ := closed.rename_place (o := c.1) π env.malloc m' start
    have counted : ∀ t : AgentState Obj, t.Closed →
        { t with numberOfLeaks := s.numberOfLeaks + 1 }.Closed := fun t h => ⟨h.tags, h.records⟩
    refine ⟨counted _ (closed.place env.malloc (o := c.1) start), fun leak mem => ?_, π', ?_⟩
    · rcases List.mem_append.1 mem with old | new
      · exact Finset.mem_insert_of_mem (live leak old)
      · rw [List.mem_singleton.1 new]
        exact Finset.mem_insert_self _ _
    · have leaf : (newLeak env size s c).rename π' =
          newLeak (env.withMalloc m') size (s.rename π) c := by
        simp only [newLeak, LeakingNode.rename, fresh]
        rfl
      rw [List.map_append, LeakingNode.map_rename_congr agree live, List.map_singleton, leaf]
      refine Prod.ext rfl ?_
      exact (congrArg (fun t : AgentState Obj => { t with numberOfLeaks := s.numberOfLeaks + 1 })
        placed).symm
  · rw [if_neg large, if_neg (show ¬ _ > (env.withMalloc m').gdata.sizeThreshold from large)]
    exact ⟨closed.untag c.1, live, π, Prod.ext rfl (s.rename_untag π c.1).symm⟩

theorem searchObjectsForLeaks_alike (size : ℕ → Obj → ℤ) (candidates : List (Obj × ℕ)) :
    SearchedAlike (searchObjectsForLeaks env size candidates .init)
      (searchObjectsForLeaks (env.withMalloc m') size candidates .init) := by
  refine List.foldl_rel ?_ fun c _ st st' alike => searchObject_alike env m' size alike c
  refine ⟨⟨fun o tagged => absurd rfl tagged, fun a nd h => ?_⟩, fun _ h => ?_, .refl, Prod.ext rfl ?_⟩
  · cases h
  · cases h
  · have nodes : renameNodes .refl (CHeap.empty : CHeap (MemoryNode Obj)) = .empty :=
      CHeap.empty_rename _ _
    simp only [AgentState.rename, AgentState.init, nodes]
    rfl

/-- A renaming that agrees with `π` on the addresses `dom` leads from one state of `tagAllClasses` to
the other. -/
def TaggedAlike (dom : Finset ℕ) (π : Renaming) (st st' : List ℕ × AgentState Obj) : Prop :=
  st.2.Closed ∧ dom ⊆ st.2.nodes.dom ∧ (∀ a ∈ st.1, a ∈ st.2.nodes.dom) ∧
    ∃ π' : Renaming, π.AgreeOn dom π' ∧ st' = (st.1.map π', st.2.rename π')

theorem tagClass_alike (ignoreFields : Obj → List IgnoreField) {dom : Finset ℕ} {π : Renaming}
    {st st' : List ℕ × AgentState Obj} (alike : TaggedAlike dom π st st') (klass : Obj) :
    TaggedAlike dom π (tagClass env ignoreFields st klass)
      (tagClass (env.withMalloc m') ignoreFields st' klass) := by
  obtain ⟨classNodes, s⟩ := st
  obtain ⟨closed, sub, live, π₁, agree₁, rfl⟩ := alike
  rw [tagClass_eq, tagClass_eq]
  by_cases isClass : klass = env.jvm.classClass
  · rw [if_pos isClass, if_pos (show _ = (env.withMalloc m').jvm.classClass from isClass)]
    exact ⟨closed.untag klass, sub, live, π₁, agree₁, Prod.ext rfl (s.rename_untag π₁ klass).symm⟩
  · rw [if_neg isClass, if_neg (show ¬ _ = (env.withMalloc m').jvm.classClass from isClass)]
    have start : (classNode s.numberOfLeaks ignoreFields klass).start = [] := rfl
    obtain ⟨π', agree, fresh, placed⟩ := closed.rename_place (o := klass) π₁ env.malloc m' start
    refine ⟨closed.place env.malloc rfl, sub.trans (Finset.subset_insert _ _), fun a mem => ?_, π',
      fun a mem => (agree a (sub mem)).trans (agree₁ a mem), ?_⟩
    · rcases List.mem_append.1 mem with old | new
      · exact Finset.mem_insert_of_mem (live a old)
      · rw [List.mem_singleton.1 new]
        exact Finset.mem_insert_self _ _
    · have old : classNodes.map π' = classNodes.map π₁ :=
        List.map_congr_left fun a mem => agree a (live a mem)
      rw [List.map_append, old, List.map_singleton, fresh]
      exact Prod.ext rfl placed.symm

theorem tagAllClasses_alike (ignoreFields : Obj → List IgnoreField) (classes : List Obj)
    {s : AgentState Obj} (closed : s.Closed) (π : Renaming) :
    TaggedAlike s.nodes.dom π (tagAllClasses env ignoreFields classes s)
      (tagAllClasses (env.withMalloc m') ignoreFields classes (s.rename π)) := by
  refine List.foldl_rel ?_ fun klass _ st st' alike => tagClass_alike env m' ignoreFields alike klass
  exact ⟨closed, Finset.Subset.refl _, fun _ h => absurd h List.not_mem_nil, π, fun _ _ => rfl, rfl⟩

end

/-! ## One report -/

section

variable [DecidableEq Obj] {env : Agent Obj} (m' : Malloc) (π : Renaming) {s : Search Obj}
  (r : HeapReference Obj)

omit [DecidableEq Obj] in
theorem referrerClassTag_rename (jvm : Jvm Obj) (s : Search Obj) :
    referrerClassTag jvm (s.rename π).tags r = π (referrerClassTag jvm s.tags r) := by
  unfold referrerClassTag
  cases r.referrer with
  | none => exact π.null.symm
  | some o => rfl

omit [DecidableEq Obj] in
theorem hasReferenceBetweenObjects_rename (nd : MemoryNode Obj) (a : ℕ) (kind : HeapReferenceKind)
    (info : Option HeapReferenceInfo) : hasReferenceBetweenObjects (nd.rename π) (π a) kind info =
      hasReferenceBetweenObjects nd a kind info := by
  unfold hasReferenceBetweenObjects MemoryNode.rename
  rw [List.any_map]
  refine congrArg nd.start.any (funext fun ref => ?_)
  have node : (ref.node.map π == some (π a)) = (ref.node == some a) := by
    cases ref.node with
    | none => rfl
    | some b =>
      rw [Option.map_some, Bool.eq_iff_iff, beq_iff_eq, beq_iff_eq, Option.some_inj, Option.some_inj]
      exact π.apply_eq_iff b a
  simp only [Function.comp, MemoryReferer.rename, node]

/-- The two states after the referrer's class is counted. -/
theorem admitReferrerClass_lockstep (closed : s.toAgentState.Closed) (this : ℕ) :
    Lockstep (fun a b => a.2.toAgentState.Closed ∧ a.2.nodes.dom = s.nodes.dom ∧
        b = (a.1, a.2.rename π))
      (admitReferrerClass env r this s)
      (admitReferrerClass (env.withMalloc m') r (π this) (s.rename π)) := by
  unfold admitReferrerClass
  simp only [Agent.withMalloc, referrerClassTag_rename, π.apply_eq_zero_iff]
  split_ifs with noClass
  · exact .ok ⟨closed, rfl, rfl⟩
  refine (lockstep_deref π s.nodes this).bind ?_
  rintro thisNode _ ⟨hthis, rfl⟩
  refine (lockstep_deref π s.nodes _).bind ?_
  rintro classNode _ ⟨-, rfl⟩
  have counted : Lockstep (fun a b => (∃ fanIn, a.2 = { thisNode with fanIn := fanIn }) ∧
      b = (a.1, a.2.rename π)) (addReferenceClass thisNode classNode)
      (addReferenceClass (thisNode.rename π) (classNode.rename π)) :=
    Lockstep.ite Iff.rfl (fun _ => .error _) fun _ => .ok ⟨⟨_, rfl⟩, rfl⟩
  refine counted.bind ?_
  rintro ⟨count, nd⟩ _ ⟨⟨fanIn, rfl⟩, rfl⟩
  have moved := renameNodes_modify π s.nodes this
    (f := fun _ => { thisNode with fanIn := fanIn })
    (g := fun _ => { thisNode.rename π with fanIn := fanIn }) fun _ => rfl
  have after : ({ s with nodes := s.nodes.modify this fun _ => { thisNode with fanIn := fanIn } } :
      Search Obj).rename π = { s.rename π with nodes := (renameNodes π s.nodes).modify (π this) fun _ =>
        { thisNode.rename π with fanIn := fanIn } } := by
    unfold Search.rename AgentState.rename
    rw [moved]
  have kept : ({ s with nodes := s.nodes.modify this fun _ => { thisNode with fanIn := fanIn } } :
      Search Obj).toAgentState.Closed := by
    refine ⟨closed.tags, fun a nd h => ?_⟩
    change (s.nodes.modify this _).get? a = some nd at h
    rw [CHeap.get?_modify] at h
    split_ifs at h with ha
    · obtain ⟨old, hold, rfl⟩ := Option.map_eq_some_iff.1 h
      exact closed.records this thisNode hthis
    · exact closed.records a nd h
  refine Lockstep.ite Iff.rfl (fun _ => .ok ⟨kept, rfl, ?_⟩) fun _ => Lockstep.ite Iff.rfl
    (fun _ => .ok ⟨kept, rfl, ?_⟩) fun _ => .ok ⟨kept, rfl, ?_⟩
  · exact Prod.ext rfl after.symm
  · exact Prod.ext rfl after.symm
  · exact Prod.ext rfl after.symm

/-- The two states when the referrer's node is found or made, under a renaming that agrees with `π` on
the nodes before. -/
theorem referrerNode_lockstep (closed : s.toAgentState.Closed) (this : ℕ) :
    Lockstep (fun a b => s.nodes.dom ⊆ a.2.nodes.dom ∧ ∃ π' : Renaming, π.AgreeOn s.nodes.dom π' ∧
        b = (a.1.map (Option.map π'), a.2.rename π'))
      (referrerNode env r this s)
      (referrerNode (env.withMalloc m') r (π this) (s.rename π)) := by
  have sub := Finset.Subset.refl s.nodes.dom
  have same : π.AgreeOn s.nodes.dom π := fun _ _ => rfl
  unfold referrerNode
  cases r.referrer with
  | none => exact .ok ⟨sub, π, same, rfl⟩
  | some referrer =>
    refine Lockstep.ite (not_congr (π.apply_eq_zero_iff _).symm) (fun tagged => ?_) fun untagged => ?_
    · refine (lockstep_deref π s.nodes _).bind ?_
      rintro refNode _ ⟨-, rfl⟩
      refine (lockstep_deref π s.nodes this).bind ?_
      rintro thisNode _ ⟨-, rfl⟩
      refine Lockstep.ite Iff.rfl (fun _ => .ok ⟨sub, π, same, rfl⟩) fun _ => ?_
      refine Lockstep.ite ?_ (fun _ => .ok ⟨sub, π, same, rfl⟩) fun _ => .ok ⟨sub, π, same, ?_⟩
      · rw [show (s.rename π).tags referrer = π (s.tags referrer) from rfl,
          hasReferenceBetweenObjects_rename]
      · have moved := renameNodes_modify π s.nodes (s.tags referrer)
          (f := fun n => { n with referencePointingToMe := n.referencePointingToMe + 1 })
          (g := fun n => { n with referencePointingToMe := n.referencePointingToMe + 1 }) fun _ => rfl
        refine Prod.ext rfl ?_
        unfold Search.rename AgentState.rename
        rw [moved]
    · have start : (newMemoryNode s.numberOfLeaks : MemoryNode Obj).start = [] := rfl
      obtain ⟨π', agree, fresh, placed⟩ := closed.rename_place (o := referrer) π env.malloc m' start
      refine .ok ⟨Finset.subset_insert _ _, π', agree, Prod.ext ?_ ?_⟩
      · exact congrArg (fun a => some (some a)) fresh.symm
      · exact (congrArg (fun t : AgentState Obj => { s with toAgentState := t }) placed).symm

omit [DecidableEq Obj] in
/-- The two states when the reference is recorded. -/
theorem recordReference_lockstep (this : ℕ) (refNode : Option ℕ) :
    Lockstep (fun s' t' => t' = s'.rename π) (recordReference r this refNode s)
      (recordReference r (π this) (refNode.map π) (s.rename π)) := by
  unfold recordReference
  refine (lockstep_deref π s.nodes this).bind ?_
  rintro thisNode _ ⟨-, rfl⟩
  have recorded := fun nodes : CHeap (MemoryNode Obj) => renameNodes_modify π nodes this
    (f := fun n => { n with start := n.start ++ [⟨r.kind, r.info.getD {}, refNode⟩] })
    (g := fun n => { n with start := n.start ++ [⟨r.kind, r.info.getD {}, refNode.map π⟩] })
    fun n => by simp only [MemoryNode.rename, List.map_append, List.map_singleton, MemoryReferer.rename]
  have inherited := fun addr => renameNodes_modify π s.nodes addr
    (f := thisNode.inherit s.leaksFinished) (g := (thisNode.rename π).inherit s.leaksFinished)
    fun _ => rfl
  have finish : ∀ nodes nodes' : CHeap (MemoryNode Obj), nodes' = renameNodes π nodes →
      Lockstep (fun s' t' : Search Obj => t' = s'.rename π)
        (deref nodes this >>= fun nd => .ok { s with
          nodes := nodes
          nodesFound := countNodesFound nd.leaksRelated s.leaksFinished s.nodesFound
          leaksFinished := if isRootReference r.kind then s.leaksFinished.addAll nd.leaksRelated
            else s.leaksFinished })
        (deref nodes' (π this) >>= fun nd => .ok { s.rename π with
          nodes := nodes'
          nodesFound := countNodesFound nd.leaksRelated s.leaksFinished s.nodesFound
          leaksFinished := if isRootReference r.kind then s.leaksFinished.addAll nd.leaksRelated
            else s.leaksFinished }) := by
    rintro nodes _ rfl
    refine (lockstep_deref π nodes this).bind ?_
    rintro nd _ ⟨-, rfl⟩
    exact .ok rfl
  cases refNode with
  | none => exact finish _ _ (recorded s.nodes).symm
  | some addr =>
    refine finish _ _ ((recorded _).trans ?_).symm
    rw [inherited]
    rfl

/-- The two states after a report, under a renaming that agrees with `π` on the nodes before. -/
theorem cbObjectTagReferrer_lockstep (closed : s.toAgentState.Closed) :
    Lockstep (fun s' t' => ∃ π' : Renaming, π.AgreeOn s.nodes.dom π' ∧ t' = s'.rename π')
      (cbObjectTagReferrer env s r) (cbObjectTagReferrer (env.withMalloc m') (s.rename π) r) := by
  have same : π.AgreeOn s.nodes.dom π := fun _ _ => rfl
  unfold cbObjectTagReferrer
  refine Lockstep.ite Iff.rfl (fun _ => .ok ⟨π, same, rfl⟩) fun _ => ?_
  refine (lockstep_deref π s.nodes _).bind ?_
  rintro thisNode _ ⟨hthis, rfl⟩
  refine Lockstep.ite Iff.rfl (fun _ => .ok ⟨π, same, rfl⟩) fun _ => ?_
  refine Lockstep.ite Iff.rfl (fun _ => .ok ⟨π, same, rfl⟩) fun _ => ?_
  refine (admitReferrerClass_lockstep m' π r closed _).bind ?_
  rintro ⟨goOn, s₁⟩ _ ⟨closed₁, dom₁, rfl⟩
  refine Lockstep.ite Iff.rfl (fun _ => .ok ⟨π, same, rfl⟩) fun _ => ?_
  refine (referrerNode_lockstep m' π r closed₁ _).bind ?_
  rintro ⟨refNode?, s₂⟩ _ ⟨sub, π', agree, rfl⟩
  rw [dom₁] at agree
  have mem := s.nodes.mem_dom_of_get? hthis
  cases refNode? with
  | none => exact .ok ⟨π', agree, rfl⟩
  | some refNode =>
    have recorded := recordReference_lockstep π' r (s := s₂) (s.tags r.referee) refNode
    rw [agree _ mem] at recorded
    exact recorded.mono fun a b eq => ⟨π', agree, eq⟩

/-- `FollowReferences` passes over the same references. -/
theorem reportReference_lockstep (closed : s.toAgentState.Closed) :
    Lockstep (fun s' t' => ∃ π' : Renaming, π.AgreeOn s.nodes.dom π' ∧ t' = s'.rename π')
      (reportReference env s r) (reportReference (env.withMalloc m') (s.rename π) r) := by
  refine Lockstep.ite ?_ (fun _ => .ok ⟨π, fun _ _ => rfl, rfl⟩) fun _ =>
    cbObjectTagReferrer_lockstep m' π r closed
  exact or_congr (π.apply_eq_zero_iff _).symm (π.apply_eq_zero_iff _).symm

end

/-! ## The passes -/

section

variable [DecidableEq Obj] (env : Agent Obj) (m' : Malloc) (n : ℕ) (dom : Finset ℕ) (π : Renaming)

/-- A renaming that agrees with `π` on the addresses `dom` leads from one state of the passes to the
other. -/
def PassesAlike (s t : Search Obj) : Prop :=
  SearchOk n s ∧ dom ⊆ s.nodes.dom ∧ ∃ π' : Renaming, π.AgreeOn dom π' ∧ t = s.rename π'

variable {n dom π}

omit [DecidableEq Obj] in
theorem SearchOk.closed {s : Search Obj} (ok : SearchOk n s) : s.toAgentState.Closed :=
  ⟨ok.tagged.mem, fun a nd h => (ok.node a nd h).target⟩

theorem dom_subset_outcome {s s' : Search Obj} {r : HeapReference Obj} (out : Outcome env s r s') :
    s.nodes.dom ⊆ s'.nodes.dom := by
  cases out with
  | skipped => exact Finset.Subset.refl _
  | dropped => exact Finset.Subset.refl _
  | recorded thisNode =>
    rw [dom_recorded]
    exact dom_subset_grownHeap env s r

theorem reportReference_alike {s t : Search Obj} (alike : PassesAlike n dom π s t)
    (r : HeapReference Obj) : Lockstep (PassesAlike n dom π) (reportReference env s r)
      (reportReference (env.withMalloc m') t r) := by
  obtain ⟨ok, sub, π₁, agree₁, rfl⟩ := alike
  refine ((reportReference_lockstep m' π₁ r ok.closed).and_left
    (P := fun s' => SearchOk n s' ∧ s.nodes.dom ⊆ s'.nodes.dom) fun s' run => ?_).mono ?_
  · have out := reportReference_outcome run
    exact ⟨ok.outcome out, dom_subset_outcome env out⟩
  · rintro s' _ ⟨⟨ok', grown⟩, π', agree, rfl⟩
    exact ⟨ok', sub.trans grown, π', fun a mem => (agree a (sub mem)).trans (agree₁ a mem), rfl⟩

theorem heapIterations_alike (order : ℕ → List (HeapReference Obj)) {k i : ℕ} {s t : Search Obj}
    (alike : PassesAlike n dom π s t) : Lockstep (PassesAlike n dom π) (heapIterations env order k i s)
      (heapIterations (env.withMalloc m') order k i t) := by
  induction k generalizing i s t with
  | zero => exact .ok alike
  | succ k ih =>
    have reset : PassesAlike n dom π s.resetNodesFound t.resetNodesFound := by
      obtain ⟨ok, sub, π', agree, rfl⟩ := alike
      exact ⟨ok.resetNodesFound, sub, π', agree, rfl⟩
    unfold heapIterations
    refine (Lockstep.foldlM (fun _ _ alike r => reportReference_alike env m' alike r) reset
      (order i)).bind fun s₁ t₁ alike₁ => ?_
    have unfinished : t₁.hasUnfinished = s₁.hasUnfinished := by
      obtain ⟨-, -, π', -, rfl⟩ := alike₁
      rfl
    rw [unfinished]
    exact Lockstep.ite Iff.rfl (fun _ => .ok alike₁) fun _ => ih alike₁

end

end JLeaker
