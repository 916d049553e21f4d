import JLeaker.Model.XmlReport
import JLeaker.Proof.Placement

/-!
# The report does not depend on the placement

The chains are searched and printed, and the nodes freed, in lockstep for nodes at other addresses.  So
a dump prints the same and leaves as many nodes behind, wherever `malloc` puts them.
-/

namespace JLeaker

open CString

variable {Obj : Type}

/-! ## The chains -/

section

variable (π : Renaming) {objectsWithTag objectsWithTag' : ℕ → List Obj}

/-- `GetObjectsWithTags` is asked for renamed tags. -/
def LooksUpAlike (objectsWithTag objectsWithTag' : ℕ → List Obj) : Prop :=
  ∀ a, objectsWithTag' (π a) = objectsWithTag a

variable {π} (lookup : LooksUpAlike π objectsWithTag objectsWithTag')

include lookup

theorem fillClassInMemoryNode_lockstep (jvm : Jvm Obj) (a : ℕ) (nodes : CHeap (MemoryNode Obj)) :
    Lockstep (fun x y => y = renameNodes π x) (fillClassInMemoryNode jvm objectsWithTag a nodes)
      (fillClassInMemoryNode jvm objectsWithTag' (π a) (renameNodes π nodes)) := by
  unfold fillClassInMemoryNode
  refine (lockstep_deref π nodes a).bind ?_
  rintro nd _ ⟨-, rfl⟩
  refine Lockstep.ite Iff.rfl (fun _ => .ok rfl) fun _ => ?_
  refine Lockstep.ite Iff.rfl (fun _ => .ok rfl) fun _ => ?_
  have found : ∀ o, renameNodes π (nodes.modify a fun nd => { nd with
        obj := some o, klass := some (jvm.classOf o)
        classname := some (jvm.className (jvm.classOf o)) }) =
      (renameNodes π nodes).modify (π a) fun nd => { nd with
        obj := some o, klass := some (jvm.classOf o)
        classname := some (jvm.className (jvm.classOf o)) } := fun o =>
    renameNodes_modify π nodes a fun _ => rfl
  have dead : renameNodes π (nodes.modify a fun nd => { nd with dead := true }) =
      (renameNodes π nodes).modify (π a) fun nd => { nd with dead := true } :=
    renameNodes_modify π nodes a fun _ => rfl
  rw [lookup a, show (nd.rename π).obj = nd.obj from rfl]
  rcases nd.obj with _ | o
  · rcases objectsWithTag a with _ | ⟨o, _ | ⟨o', rest⟩⟩
    · exact .ok dead.symm
    · exact .ok (found o).symm
    · exact .error _
  · exact .ok (found o).symm

omit lookup in
theorem single_rename (π : Renaming) (st : ChainState Obj) (ref : MemoryReferer) :
    (st.rename π).single (ref.rename π) = ((st.single ref).1, (st.single ref).2.rename π) := by
  simp only [ChainState.single, ChainState.rename, List.length_map, List.map_append, List.map_singleton]

omit lookup in
theorem insertAfter_rename (π : Renaming) (st : ChainState Obj) (last : ℕ) (ref : MemoryReferer) :
    (st.rename π).insertAfter last (ref.rename π) = (st.insertAfter last ref).rename π := by
  simp only [ChainState.insertAfter, ChainState.rename, List.getElem?_map]
  cases st.cells[last]? with
  | none => rfl
  | some cell =>
    simp only [Option.map_some, List.length_map, List.map_append, List.map_singleton, List.map_set]

/-- The state of one search for a chain is that of the other, renamed; the cell found is the same. -/
def ChainAlike (π : Renaming) (a b : Option ℕ × ChainState Obj) : Prop := b = (a.1, a.2.rename π)

omit lookup in
theorem scanReferences_lockstep (g : GlobalData) (leakNumber : ℕ)
    {visit visit' : ℕ → ChainState Obj → Except Fault (Option ℕ × ChainState Obj)}
    (visits : ∀ next st, Lockstep (ChainAlike π) (visit next st) (visit' (π next) (st.rename π)))
    (node : ℕ) (refs : List MemoryReferer) (st : ChainState Obj) :
    Lockstep (ChainAlike π) (scanReferences g leakNumber visit node refs st)
      (scanReferences g leakNumber visit' (π node) (refs.map (·.rename π)) (st.rename π)) := by
  induction refs generalizing st with
  | nil => exact .ok rfl
  | cons ref rest ih =>
    rw [List.map_cons]
    unfold scanReferences
    refine Lockstep.ite Iff.rfl (fun _ => ih st) fun _ => ?_
    refine Lockstep.ite Iff.rfl (fun _ => ?_) fun _ => .ok ?_
    · rcases target : ref.node with _ | next
      · rw [show (ref.rename π).node = none by simp [MemoryReferer.rename, target]]
        exact .error _
      rw [show (ref.rename π).node = some (π next) by simp [MemoryReferer.rename, target]]
      refine (visits next st).bind ?_
      rintro ⟨orderedRefs, st₁⟩ _ rfl
      cases orderedRefs with
      | none =>
        have removed := renameNodes_modify π st₁.nodes node
          (f := fun nd => { nd with leaksRelated := nd.leaksRelated.remove leakNumber })
          (g := fun nd => { nd with leaksRelated := nd.leaksRelated.remove leakNumber }) fun _ => rfl
        have next := ih { st₁ with nodes := st₁.nodes.modify node fun nd =>
          { nd with leaksRelated := nd.leaksRelated.remove leakNumber } }
        simp only [ChainState.rename, removed] at next
        exact next
      | some last => exact .ok (Prod.ext rfl (insertAfter_rename π st₁ last ref))
    · exact congrArg (fun x => (some x.1, x.2)) (single_rename π st ref)

theorem generateReferencesChainForNode_lockstep (env : Agent Obj) (m' : Malloc) (fuel node leak : ℕ)
    (st : ChainState Obj) : Lockstep (ChainAlike π)
      (generateReferencesChainForNode env objectsWithTag fuel node leak st)
      (generateReferencesChainForNode (env.withMalloc m') objectsWithTag' fuel (π node) leak
        (st.rename π)) := by
  induction fuel generalizing node st with
  | zero => exact .error _
  | succ fuel ih =>
    unfold generateReferencesChainForNode
    refine (lockstep_deref π st.nodes node).bind ?_
    rintro nd _ ⟨-, rfl⟩
    refine Lockstep.ite Iff.rfl (fun _ => .ok rfl) fun _ => ?_
    refine Lockstep.ite Iff.rfl (fun _ => .ok rfl) fun _ => ?_
    have visited := renameNodes_modify π st.nodes node (f := fun nd => { nd with visited := true })
      (g := fun nd => { nd with visited := true }) fun _ => rfl
    have filled := fillClassInMemoryNode_lockstep lookup env.jvm node
      (st.nodes.modify node fun nd => { nd with visited := true })
    rw [visited] at filled
    refine filled.bind ?_
    rintro nodes _ rfl
    refine (lockstep_deref π nodes node).bind ?_
    rintro nd _ ⟨-, rfl⟩
    have last : ∀ (orderedRefs : Option ℕ) (st₁ : ChainState Obj), ChainAlike π
        (orderedRefs, { st₁ with
          nodes := st₁.nodes.modify node fun nd => { nd with visited := false } })
        (orderedRefs, { st₁.rename π with
          nodes := (renameNodes π st₁.nodes).modify (π node) fun nd =>
            { nd with visited := false } }) := by
      intro orderedRefs st₁
      have unvisited := renameNodes_modify π st₁.nodes node
        (f := fun nd => { nd with visited := false }) (g := fun nd => { nd with visited := false }) fun _ => rfl
      simp only [ChainAlike, ChainState.rename, unvisited]
    refine Lockstep.ite Iff.rfl (fun _ => ?_) fun _ => .ok (last none { st with nodes := nodes })
    refine (scanReferences_lockstep env.gdata leak (fun next st => ih next st) node nd.start
      { st with nodes := nodes }).bind ?_
    rintro ⟨orderedRefs, st₁⟩ _ rfl
    exact .ok (last orderedRefs st₁)

/-! ## What is printed -/

omit lookup in
theorem readChain_rename (π : Renaming) (cells : List OrderedReferences) (last fuel i : ℕ) :
    readChain (cells.map fun cell => { cell with ref := cell.ref.rename π }) last fuel i =
      (readChain cells last fuel i).map (List.map (·.rename π)) := by
  induction fuel generalizing i with
  | zero => rfl
  | succ fuel ih =>
    simp only [readChain, List.getElem?_map]
    cases cells[i]? with
    | none => rfl
    | some cell =>
      simp only [Option.map_some, Option.bind_eq_bind, Option.bind_some]
      split_ifs
      · rfl
      · rw [ih]
        cases readChain cells last fuel cell.next <;> rfl

omit lookup in
theorem printedChain_rename (π : Renaming) (st : ChainState Obj) (orderedRefs : ℕ) :
    printedChain (st.rename π) orderedRefs =
      (printedChain st orderedRefs).map (List.map (·.rename π)) := by
  simp only [printedChain, ChainState.rename, List.getElem?_map, List.length_map]
  cases st.cells[orderedRefs]? with
  | none => rfl
  | some cell =>
    simp only [Option.map_some, Option.bind_eq_bind, Option.bind_some]
    exact readChain_rename π st.cells orderedRefs st.cells.length cell.next

namespace Printer

variable [DecidableEq Obj] (pr : Printer Obj)

omit lookup in
/-- The text of a reference names no addresses. -/
theorem message_lockstep (π : Renaming) (nodes : CHeap (MemoryNode Obj)) (ref : MemoryReferer) :
    Lockstep Eq (pr.message nodes ref) (pr.message (renameNodes π nodes) (ref.rename π)) := by
  have target : (ref.rename π).node.getD 0 = π (ref.node.getD 0) := by
    unfold MemoryReferer.rename
    cases ref.node with
    | none => exact π.null.symm
    | some a => rfl
  have found := lockstep_deref π nodes (ref.node.getD 0)
  rw [← target] at found
  unfold message
  rw [show (ref.rename π).kind = ref.kind from rfl, show (ref.rename π).info = ref.info from rfl]
  cases ref.kind with
  | staticField =>
    refine found.bind ?_
    rintro nd _ ⟨-, rfl⟩
    rw [show (nd.rename π).obj = nd.obj from rfl]
    cases nd.obj with
    | none => exact .error _
    | some klass => exact .ok rfl
  | field =>
    refine found.bind ?_
    rintro nd _ ⟨-, rfl⟩
    rw [show (nd.rename π).klass = nd.klass from rfl,
      show (nd.rename π).classname = nd.classname from rfl]
    rcases nd.klass with _ | klass
    · exact .error _
    rcases nd.classname with _ | classname
    · exact .error _
    · exact .ok rfl
  | arrayElement =>
    refine found.bind ?_
    rintro nd _ ⟨-, rfl⟩
    rw [show (nd.rename π).classname = nd.classname from rfl]
    cases nd.classname with
    | none => exact .error _
    | some classname => exact .ok rfl
  | klass | classLoader | signers | protectionDomain | interface | constantPool | superclass | jniGlobal
  | systemClass | monitor | stackLocal | jniLocal | thread | other => exact .ok rfl

/-- The same is printed, and the nodes are renamed. -/
def PrintedAlike {α : Type} (π : Renaming) (a b : α × CHeap (MemoryNode Obj)) : Prop :=
  b = (a.1, renameNodes π a.2)

theorem printSingleReference_lockstep (nodes : CHeap (MemoryNode Obj)) (ref : MemoryReferer) :
    Lockstep (PrintedAlike π) (pr.printSingleReference objectsWithTag nodes ref)
      (pr.printSingleReference objectsWithTag' (renameNodes π nodes) (ref.rename π)) := by
  have filled : Lockstep (fun x y => y = renameNodes π x)
      (ref.node.elim (.ok nodes) fun node => fillClassInMemoryNode pr.jvm objectsWithTag node nodes)
      ((ref.rename π).node.elim (.ok (renameNodes π nodes)) fun node =>
        fillClassInMemoryNode pr.jvm objectsWithTag' node (renameNodes π nodes)) := by
    unfold MemoryReferer.rename
    cases ref.node with
    | none => exact .ok rfl
    | some a => exact fillClassInMemoryNode_lockstep lookup pr.jvm a nodes
  refine filled.bind ?_
  rintro nodes _ rfl
  refine (pr.message_lockstep π nodes ref).bind ?_
  rintro msg _ rfl
  exact .ok rfl

theorem printEach_lockstep (refs : List MemoryReferer) (nodes : CHeap (MemoryNode Obj)) :
    Lockstep (PrintedAlike π) (pr.printEach objectsWithTag refs nodes)
      (pr.printEach objectsWithTag' (refs.map (·.rename π)) (renameNodes π nodes)) := by
  induction refs generalizing nodes with
  | nil => exact .ok rfl
  | cons ref refs ih =>
    refine (pr.printSingleReference_lockstep lookup nodes ref).bind ?_
    rintro ⟨element, nodes⟩ _ rfl
    refine (ih nodes).bind ?_
    rintro ⟨elements, nodes⟩ _ rfl
    exact .ok rfl

/-- References to be printed at other addresses. -/
def renameRefs (π : Renaming) :
    Option (Str × List MemoryReferer) → Option (Str × List MemoryReferer) :=
  Option.map fun list => (list.1, list.2.map (·.rename π))

theorem printReferences_lockstep (refs : Option (Str × List MemoryReferer))
    (nodes : CHeap (MemoryNode Obj)) :
    Lockstep (PrintedAlike π) (pr.printReferences objectsWithTag refs nodes)
      (pr.printReferences objectsWithTag' (renameRefs π refs) (renameNodes π nodes)) := by
  cases refs with
  | none => exact .ok rfl
  | some list =>
    refine (pr.printEach_lockstep lookup list.2 nodes).bind ?_
    rintro ⟨elements, nodes⟩ _ rfl
    exact .ok rfl

omit [DecidableEq Obj] in
theorem findLeak_lockstep (env : Agent Obj) (m' : Malloc) (fuel : ℕ) (isNeedReferences : Bool)
    (leak : LeakingNode) (st : ChainState Obj) :
    Lockstep (fun a b => b = (a.1.map fun found => (found.1, found.2.1, renameRefs π found.2.2),
        a.2.rename π))
      (pr.findLeak env objectsWithTag fuel isNeedReferences leak st)
      (pr.findLeak (env.withMalloc m') objectsWithTag' fuel isNeedReferences (leak.rename π)
        (st.rename π)) := by
  unfold findLeak
  cases isNeedReferences with
  | false =>
    simp only [Bool.false_eq_true, if_false, Run.ok_bind]
    refine Lockstep.ite Iff.rfl (fun _ => ?_) fun _ => .ok rfl
    refine (fillClassInMemoryNode_lockstep lookup pr.jvm leak.node st.nodes).bind ?_
    rintro nodes _ rfl
    refine (lockstep_deref π nodes leak.node).bind ?_
    rintro nd _ ⟨-, rfl⟩
    rw [show (nd.rename π).classname = nd.classname from rfl, show (nd.rename π).obj = nd.obj from rfl]
    rcases nd.classname with _ | classname
    · exact .error _
    rcases nd.obj with _ | obj
    · exact .error _
    · exact .ok rfl
  | true =>
    simp only [if_true]
    refine (generateReferencesChainForNode_lockstep lookup env m' fuel leak.node leak.leakNumber
      st).bind ?_
    rintro ⟨orderedRefs, st₁⟩ _ rfl
    refine Lockstep.ite Iff.rfl (fun _ => ?_) fun _ => .ok rfl
    refine (fillClassInMemoryNode_lockstep lookup pr.jvm leak.node st₁.nodes).bind ?_
    rintro nodes _ rfl
    refine (lockstep_deref π nodes leak.node).bind ?_
    rintro nd _ ⟨-, rfl⟩
    rw [show (nd.rename π).classname = nd.classname from rfl, show (nd.rename π).obj = nd.obj from rfl]
    rcases nd.classname with _ | classname
    · exact .error _
    rcases nd.obj with _ | obj
    · exact .error _
    have chain : orderedRefs.bind (printedChain (st₁.rename π)) =
        (orderedRefs.bind (printedChain st₁)).map (List.map (·.rename π)) := by
      cases orderedRefs with
      | none => rfl
      | some last => exact printedChain_rename π st₁ last
    simp only [chain]
    cases orderedRefs.bind (printedChain st₁) <;> exact .ok rfl

end Printer

/-- The same is reported, and the state of the searches is renamed. -/
def ReportedAlike {α : Type} (π : Renaming) (a b : α × Str × ℕ × ChainState Obj) : Prop :=
  b = (a.1, a.2.1, a.2.2.1, a.2.2.2.rename π)

section

variable [DecidableEq Obj] (pr : Printer Obj) (methods : JavaMethods Obj) (f : OutputStream)
  (numElementsToDump : ℤ)

theorem reportLeak_lockstep (env : Agent Obj) (m' : Malloc) (fuel : ℕ) (isNeedReferences : Bool)
    (idx : ℕ) (leak : LeakingNode) (xmlDepth : ℕ) (st : ChainState Obj) : Lockstep (ReportedAlike π)
      (reportLeak methods f numElementsToDump pr env objectsWithTag fuel isNeedReferences idx leak
        xmlDepth st)
      (reportLeak methods f numElementsToDump pr (env.withMalloc m') objectsWithTag' fuel
        isNeedReferences idx (leak.rename π) xmlDepth (st.rename π)) := by
  refine ((pr.findLeak_lockstep lookup env m' fuel isNeedReferences leak st).mapError _).bind ?_
  rintro ⟨found, st⟩ _ rfl
  cases found with
  | none => exact .ok rfl
  | some found =>
    -- what `print_fn` prints depends on the object only
    have same := Lockstep.refl
      ((printFn methods f numElementsToDump idx (openXmlElement f xmlDepth "leaking-object".toList
        [("class".toList, found.1.toList), ("size".toList, snprintf 32 (decimal leak.leakSize))]).2
          found.2.1).mapError DumpFault.print)
    refine same.bind ?_
    rintro contents _ rfl
    refine ((pr.printReferences_lockstep lookup found.2.2 st.nodes).mapError _).bind ?_
    rintro ⟨references, nodes⟩ _ rfl
    exact .ok rfl

theorem reportLeaks_lockstep (env : Agent Obj) (m' : Malloc) (fuel : ℕ) (isNeedReferences : Bool)
    (leaks : List (ℕ × LeakingNode)) (xmlDepth : ℕ) (st : ChainState Obj) :
    Lockstep (ReportedAlike π)
      (reportLeaks methods f numElementsToDump pr env objectsWithTag fuel isNeedReferences leaks
        xmlDepth st)
      (reportLeaks methods f numElementsToDump pr (env.withMalloc m') objectsWithTag' fuel
        isNeedReferences (leaks.map fun leak => (leak.1, leak.2.rename π)) xmlDepth
        (st.rename π)) := by
  induction leaks generalizing xmlDepth st with
  | nil => exact .ok rfl
  | cons leak leaks ih =>
    refine (reportLeak_lockstep lookup pr methods f numElementsToDump env m' fuel isNeedReferences
      leak.1 leak.2 xmlDepth st).bind ?_
    rintro ⟨printed, text, xmlDepth, st⟩ _ rfl
    refine (ih xmlDepth st).bind ?_
    rintro ⟨printeds, texts, xmlDepth, st⟩ _ rfl
    exact .ok rfl

end

end

/-! ## Freeing -/

def FreeState.rename (π : Renaming) (st : FreeState Obj) : FreeState Obj where
  nodes := renameNodes π st.nodes
  nodesFreed := st.nodesFreed
  freedReferers := st.freedReferers.map fun freed => (π freed.1, freed.2.rename π)

/-- Freeing answers the same, and its state is renamed. -/
def FreedAlike {α : Type} (π : Renaming) (a b : α × FreeState Obj) : Prop :=
  b = (a.1, a.2.rename π)

section

variable (π : Renaming)

theorem renameNodes_free (nodes : CHeap (MemoryNode Obj)) (a : ℕ) :
    renameNodes π (nodes.free a) = (renameNodes π nodes).free (π a) := nodes.rename_free π _ a

theorem freeReferers_lockstep {free : Option ℕ → FreeState Obj → Except Fault (Bool × FreeState Obj)}
    (frees : ∀ node st, Lockstep (FreedAlike π) (free node st) (free (node.map π) (st.rename π)))
    (node : ℕ) (refs : List MemoryReferer) (st : FreeState Obj) :
    Lockstep (fun a b => b = a.rename π) (freeReferers free node refs st)
      (freeReferers free (π node) (refs.map (·.rename π)) (st.rename π)) := by
  induction refs generalizing st with
  | nil => exact .ok rfl
  | cons ref refs ih =>
    refine (frees ref.node st).bind ?_
    rintro ⟨-, st₁⟩ _ rfl
    have next := ih { st₁ with freedReferers := st₁.freedReferers ++ [(node, ref)] }
    simp only [FreeState.rename, List.map_append, List.map_singleton] at next
    exact next

theorem freeMemoryNode_lockstep (fuel : ℕ) (node : Option ℕ) (st : FreeState Obj) :
    Lockstep (FreedAlike π) (freeMemoryNode fuel node st)
      (freeMemoryNode fuel (node.map π) (st.rename π)) := by
  induction fuel generalizing node st with
  | zero => exact .error _
  | succ fuel ih =>
    cases node with
    | none => exact .ok rfl
    | some node =>
      rw [Option.map_some]
      unfold freeMemoryNode
      refine (lockstep_deref π st.nodes node).bind ?_
      rintro nd _ ⟨-, rfl⟩
      have counted : ∀ nodes : CHeap (MemoryNode Obj), renameNodes π (nodes.modify node fun nd =>
          { nd with referencePointingToMe := nd.referencePointingToMe - 1 }) =
          (renameNodes π nodes).modify (π node) fun nd =>
            { nd with referencePointingToMe := nd.referencePointingToMe - 1 } := fun nodes =>
        renameNodes_modify π nodes node fun _ => rfl
      have emptied : ∀ nodes : CHeap (MemoryNode Obj), renameNodes π (nodes.modify node fun nd =>
          { nd with
            visited := true, classname := none, klass := none, obj := none, ignoreFields := []
            leaksRelated := .new 0 }) =
          (renameNodes π nodes).modify (π node) fun nd =>
            { nd with
              visited := true, classname := none, klass := none, obj := none, ignoreFields := []
              leaksRelated := .new 0 } := fun nodes =>
        renameNodes_modify π nodes node fun _ => rfl
      have listed : ∀ nodes : CHeap (MemoryNode Obj), renameNodes π (nodes.modify node fun nd =>
          { nd with start := [], fanIn := [] }) =
          (renameNodes π nodes).modify (π node) fun nd => { nd with start := [], fanIn := [] } :=
        fun nodes => renameNodes_modify π nodes node fun _ => rfl
      have unvisited : ∀ nodes : CHeap (MemoryNode Obj), renameNodes π (nodes.modify node fun nd =>
          { nd with visited := false }) =
          (renameNodes π nodes).modify (π node) fun nd => { nd with visited := false } :=
        fun nodes => renameNodes_modify π nodes node fun _ => rfl
      refine Lockstep.ite Iff.rfl (fun _ => .ok ?_) fun _ => ?_
      · simp only [FreedAlike, FreeState.rename, counted]
      have loop := freeReferers_lockstep π ih node nd.start
        { st with nodes := (st.nodes.modify node fun nd =>
            { nd with referencePointingToMe := nd.referencePointingToMe - 1 }).modify node fun nd =>
              { nd with
                visited := true, classname := none, klass := none, obj := none, ignoreFields := []
                leaksRelated := .new 0 } }
      simp only [FreeState.rename, emptied, counted] at loop
      refine loop.bind ?_
      rintro st₁ _ rfl
      rw [← listed]
      refine (lockstep_deref π _ node).bind ?_
      rintro nd₁ _ ⟨-, rfl⟩
      refine Lockstep.ite Iff.rfl (fun _ => .ok ?_) fun _ => .ok ?_
      · simp only [FreedAlike, FreeState.rename, unvisited, listed]
      · simp only [FreedAlike, FreeState.rename, renameNodes_free, listed]

theorem freeMemoryForLeakList_lockstep (fuel : ℕ) (leaks : List LeakingNode) (st : FreeState Obj) :
    Lockstep (fun a b => b = a.rename π) (freeMemoryForLeakList fuel leaks st)
      (freeMemoryForLeakList fuel (leaks.map (·.rename π)) (st.rename π)) := by
  induction leaks generalizing st with
  | nil => exact .ok rfl
  | cons leak leaks ih =>
    refine (freeMemoryNode_lockstep π fuel (some leak.node) st).bind ?_
    rintro ⟨-, st⟩ _ rfl
    exact ih st

theorem freeClassNodes_lockstep (fuel : ℕ) (classNodes : List ℕ) (st : FreeState Obj) :
    Lockstep (fun a b => b = (a.1.map π, a.2.rename π)) (freeClassNodes fuel classNodes st)
      (freeClassNodes fuel (classNodes.map π) (st.rename π)) := by
  induction classNodes generalizing st with
  | nil => exact .ok rfl
  | cons node classNodes ih =>
    refine (freeMemoryNode_lockstep π fuel (some node) st).bind ?_
    rintro ⟨freed, st⟩ _ rfl
    refine (ih st).bind ?_
    rintro ⟨notFreed, st⟩ _ rfl
    cases freed <;> exact .ok rfl

end

/-! ## The whole dump -/

namespace Dump

variable [DecidableEq Obj] (d : Dump Obj) (pr : Printer Obj) (methods : JavaMethods Obj)
  (f : OutputStream) (numElementsToDump : ℤ) (alive : List Obj)

/-- The dump with another allocator. -/
def withMalloc (m : Malloc) : Dump Obj := { d with agent := d.agent.withMalloc m }

theorem searched_withMalloc (m : Malloc) : SearchedAlike d.searched (d.withMalloc m).searched :=
  searchObjectsForLeaks_alike d.agent m d.size d.candidates

/-- A renaming leads from the leaks, the classes and the first state of the passes to those of the dump
with another allocator. -/
theorem exists_renaming (m : Malloc) : ∃ π : Renaming,
    (d.withMalloc m).leaks = d.leaks.map (·.rename π) ∧
      (d.withMalloc m).classNodes = d.classNodes.map π ∧ (d.withMalloc m).start = d.start.rename π := by
  obtain ⟨closed, live, π, searched⟩ := d.searched_withMalloc m
  obtain ⟨-, -, -, π', agree, tagged⟩ :=
    tagAllClasses_alike d.agent m d.ignoreFields d.loadedClasses closed π
  have same : (d.withMalloc m).tagged = (d.tagged.1.map π', d.tagged.2.rename π') := by
    refine Eq.trans ?_ tagged
    exact congrArg (tagAllClasses (d.agent.withMalloc m) d.ignoreFields d.loadedClasses)
      (congrArg Prod.snd searched)
  refine ⟨π', ?_, congrArg Prod.fst same, ?_⟩
  · exact (congrArg Prod.fst searched).trans (LeakingNode.map_rename_congr agree live).symm
  · exact congrArg (fun st : List ℕ × AgentState Obj => Search.start st.2) same

/-- The passes of the two dumps. -/
theorem run_lockstep (m : Malloc) {π : Renaming} (start : (d.withMalloc m).start = d.start.rename π) :
    Lockstep (PassesAlike d.leaks.length d.start.nodes.dom π) d.run (d.withMalloc m).run := by
  have alike : PassesAlike d.leaks.length d.start.nodes.dom π d.start (d.withMalloc m).start :=
    ⟨d.searchOk_start, Finset.Subset.refl _, π, fun _ _ => rfl, start⟩
  exact heapIterations_alike d.agent m d.order alike

/-- Wherever `malloc` puts the nodes, a dump fails alike, or writes the same report on its leaks, reports
as many classes as not freed and frees and leaves as many nodes. -/
theorem outcome_withMalloc (m : Malloc) :
    (d.withMalloc m).outcome methods f numElementsToDump pr alive =
      d.outcome methods f numElementsToDump pr alive := by
  obtain ⟨π, leaks, classNodes, start⟩ := d.exists_renaming m
  obtain ⟨-, -, πs, searched⟩ := d.searched_withMalloc m
  refine Eq.symm (Lockstep.eq ?_)
  unfold outcome
  refine Lockstep.ite ?_ (fun _ => .ok ?_) fun _ => ?_
  · rw [leaks, List.isEmpty_map]
  · rw [searched]
    exact congrArg (DumpOutcome.mk [] _ 0 d.searched.2.nodesFreed)
      (CHeap.card_dom_rename _ πs _).symm
  refine ((d.run_lockstep m start).mapError _).bind ?_
  rintro s _ ⟨-, sub, π', agree, rfl⟩
  have sameLeaks : (d.withMalloc m).leaks = d.leaks.map (·.rename π') := by
    rw [leaks]
    refine (LeakingNode.map_rename_congr agree fun leak mem => ?_).symm
    obtain ⟨o, node⟩ := d.get?_leak mem
    exact CHeap.mem_dom_of_get? _ node
  have sameClassNodes : (d.withMalloc m).classNodes = d.classNodes.map π' := by
    rw [classNodes]
    exact List.map_congr_left fun a mem =>
      (agree a ((d.classNodes_tagged.mem a).2 (.inr mem))).symm
  have lookup : LooksUpAlike π' (aliveWithTag alive s.tags)
      (aliveWithTag alive (s.rename π').tags) := fun a => List.filter_congr fun o _ => by
    rw [show (s.rename π').tags o = π' (s.tags o) from rfl, decide_eq_decide]
    exact π'.apply_eq_iff _ _
  have described : (d.withMalloc m).describedLeaks =
      d.describedLeaks.map fun leak => (leak.1, leak.2.rename π') := by
    unfold describedLeaks
    rw [sameLeaks, List.zip_map_right]
    rfl
  have fuel : (s.rename π').nodes.dom.card = s.nodes.dom.card := CHeap.card_dom_rename _ π' _
  rw [sameLeaks, sameClassNodes, described, fuel]
  refine (reportLeaks_lockstep lookup pr methods f numElementsToDump d.agent m (s.nodes.dom.card + 1)
    (decide (d.agent.gdata.referenceChainLength > 0)) d.describedLeaks _ ⟨s.nodes, []⟩).bind ?_
  rintro ⟨printed, texts, xmlDepth, st⟩ _ rfl
  refine ((freeMemoryForLeakList_lockstep π' (s.nodes.dom.card + 1) d.leaks
    ⟨st.nodes, s.nodesFreed, []⟩).mapError _).bind ?_
  rintro freed _ rfl
  refine ((freeClassNodes_lockstep π' (s.nodes.dom.card + 1) d.classNodes freed).mapError _).bind ?_
  rintro ⟨notFreed, freed⟩ _ rfl
  refine .ok ?_
  rw [List.length_map]
  exact congrArg (DumpOutcome.mk printed _ notFreed.length freed.nodesFreed)
    (CHeap.card_dom_rename _ π' _).symm

end Dump

end JLeaker
