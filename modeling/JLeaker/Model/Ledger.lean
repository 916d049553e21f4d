import JLeaker.Model.Attach
import JLeaker.Model.Dumper
import JLeaker.Model.FieldIndex

/-!
# `allocator.c`: the blocks of a dump

`_myAlloc` and `myFree` count their calls, and `findInternalMallocsLeaks` compares the two counts when
a dump is over.  The functions here run those of the dump, and count the blocks the source allocates
and frees on the way.
-/

namespace JLeaker

open CString

/-- The counters of the allocator, and how often `printSingleReference` took the case
`JVMTI_HEAP_REFERENCE_JNI_LOCAL`. -/
structure Ledger where
  counters : Counters
  jniLocals : ℕ

/-- So many calls of `_myAlloc`. -/
def Ledger.alloc (l : Ledger) (n : ℕ) : Ledger := { l with counters := l.counters.count n 0 }

/-- So many calls of `myFree`. -/
def Ledger.free (l : Ledger) (n : ℕ) : Ledger := { l with counters := l.counters.count 0 n }

/-- What one dump gets from the JVM. -/
structure JvmDump (Obj : Type) where
  jvm : Jvm Obj
  info : ClassInfo Obj
  hierarchy : ClassHierarchy Obj
  /-- `GetClassStatus` says that the class is initialized, prepared and verified. -/
  ready : Obj → Bool
  threadId : ℤ
  malloc : Malloc
  /-- The tags of the objects when the dump begins. -/
  tags : Obj → ℕ
  objects : List Obj
  reported : List Obj
  loadedClasses : List Obj
  /-- `GetLoadedClasses` lists a class once. -/
  loadedClasses_nodup : loadedClasses.Nodup
  size : ℕ → Obj → ℤ
  order : ℕ → List (HeapReference Obj)
  /-- The text `printSingleReference` makes for a reference. -/
  location : MemoryReferer → Str
  /-- The attribute values of the elements that `print_fn` prints for an object. -/
  elements : Obj → List (List Str)

variable {Obj : Type} [DecidableEq Obj]

/-! ## Names, field indices and elements -/

/-- `generateTagForClass` frees the name of the class before it returns. -/
def Ledger.generateTagForClass (d : JvmDump Obj) (l : Ledger) (theClass : Obj) : Ledger :=
  if theClass = d.jvm.classClass then l
  else if d.info.isInterface theClass then l
  else if d.info.isArrayClass theClass then l
  else if (d.info.enclosingClass theClass).isSome then l
  else (l.alloc 1).free 1

/-- `freeInterfaceList` frees the head of the list and its other cells, one for each interface that
`findInterfaceInList` has put there. -/
def Ledger.interfaceList (l : Ledger) (lstIntr : List Obj) : Ledger :=
  (l.alloc (1 + lstIntr.length)).free (1 + lstIntr.length)

/-- `getFieldOffset`. -/
def Ledger.getFieldOffset (H : ClassHierarchy Obj) (klass : Obj) (l : Ledger) (name : String) :
    Ledger := l.interfaceList (getFieldOffsetInternal H klass name (0, [])).2.2

/-- `getFieldNameByIndex`: whether it returns a name, which is a block of its own. -/
def Ledger.getFieldNameByIndex (H : ClassHierarchy Obj) (klass : Obj) (idx : ℤ) (l : Ledger) :
    Bool × Ledger :=
  let (res, _, lstIntr) := getFieldNameByIndexInternal H klass (idx, [])
  let l := l.interfaceList lstIntr
  if res.isSome then (true, l.alloc 1) else (false, l)

/-- `echo_xml_element`: `escapeString` allocates for the values with a quote only. -/
def Ledger.echoXmlElement (l : Ledger) (values : List Str) : Ledger :=
  let escaped := values.countP fun value => '"' ∈ value
  (l.alloc escaped).free escaped

/-! ## The ignored fields (`leak_detect.c`) -/

/-- `fillClassIgnoreList`, for the classes one after another: the lists the class nodes got so far,
and what is left in `ignore_referenced_by`. -/
def JvmDump.fillClassIgnoreList (d : JvmDump Obj)
    (st : List (Obj × List IgnoreField) × StrMap (List IgnoreField) × Ledger) (klass : Obj) :
    List (Obj × List IgnoreField) × StrMap (List IgnoreField) × Ledger :=
  let (lists, ignoreReferencedBy, l) := st
  if !d.ready klass then st
  else
    let classname := (d.jvm.className klass).toList
    let l := l.alloc 1
    match (smGet ignoreReferencedBy classname).getD [] with
    | [] => (lists, ignoreReferencedBy, l.free 1)
    | field :: fields =>
      let l := (field :: fields).foldl (fun l e => l.getFieldOffset d.hierarchy klass e.fieldName) l
      (lists ++ [(klass, (field :: fields).map fun e =>
          { e with field := getFieldOffset d.hierarchy klass e.fieldName })],
        smPut ignoreReferencedBy classname [], l.free 1)

/-- The classes that get a node. -/
def JvmDump.nodeClasses (d : JvmDump Obj) : List Obj :=
  d.loadedClasses.filter fun klass => decide (klass ≠ d.jvm.classClass)

/-- The calls of `fillClassIgnoreList` in `tagAllClasses`. -/
def JvmDump.fillClassIgnoreLists (d : JvmDump Obj) (ignoreReferencedBy : StrMap (List IgnoreField))
    (l : Ledger) : List (Obj × List IgnoreField) × StrMap (List IgnoreField) × Ledger :=
  d.nodeClasses.foldl d.fillClassIgnoreList ([], ignoreReferencedBy, l)

/-! ## The passes (`leak_detect.c`) -/

/-- `newMemoryNode`: the node, and the two blocks of its set. -/
def newMemoryNodeBlocks : ℕ := 3

/-- `addReferenceClass` allocates a counter for a class without one. -/
def addReferenceClassBlocks (node classNode : MemoryNode Obj) : ℕ :=
  if node.fanIn.any fun rCount => decide (rCount.klass = classNode.obj) then 0 else 1

/-- The blocks allocated under `if (0L != referrer_class_tag)`. -/
def admitReferrerClassBlocks (env : Agent Obj) (r : HeapReference Obj) (this : ℕ) (s : Search Obj) :
    Except Fault ℕ := do
  let classTag := referrerClassTag env.jvm s.tags r
  if classTag = 0 then
    return 0
  let thisNode ← deref s.nodes this
  let classNode ← deref s.nodes classTag
  return addReferenceClassBlocks thisNode classNode

/-- The blocks `cbObjectTagReferrer` allocates. -/
def cbObjectTagReferrerBlocks (env : Agent Obj) (s : Search Obj) (r : HeapReference Obj) :
    Except Fault ℕ := do
  if localReferenceOfThisThread env.threadId r.kind r.info then
    return 0
  let this := s.tags r.referee
  let thisNode ← deref s.nodes this
  if s.leaksFinished.containsAll thisNode.leaksRelated then
    return 0
  if thisNode.leaksRelated.isEmpty then
    return 0
  let counted ← admitReferrerClassBlocks env r this s
  let (goOn, s) ← admitReferrerClass env r this s
  if !goOn then
    return counted
  let made := if r.referrer.any fun o => decide (s.tags o = 0) then newMemoryNodeBlocks else 0
  let (refNode?, _) ← referrerNode env r this s
  match refNode? with
  | none => return counted
  | some _ => return counted + made + 1

/-- `FollowReferences` with `cbObjectTagReferrer`, for one reference. -/
def reportReferenceCounted (env : Agent Obj) (st : Search Obj × Ledger) (r : HeapReference Obj) :
    Except Fault (Search Obj × Ledger) := do
  let (s, l) := st
  let s' ← reportReference env s r
  if s.tags r.referee = 0 ∨ s.tags (env.jvm.classOf r.referee) = 0 then
    return (s', l)
  let blocks ← cbObjectTagReferrerBlocks env s r
  return (s', l.alloc blocks)

/-- The loop of `tagReferencesChain`. -/
def heapIterationsCounted (env : Agent Obj) (order : ℕ → List (HeapReference Obj)) :
    ℕ → ℕ → Search Obj × Ledger → Except Fault (Search Obj × Ledger)
  | 0, _, st => .ok st
  | n + 1, i, (s, l) => do
    let (s, l) ← (order i).foldlM (reportReferenceCounted env) (s.resetNodesFound, l)
    if !s.hasUnfinished then
      return (s, l)
    heapIterationsCounted env order n (i + 1) (s, l)

/-! ## Printing (`jvm_reference.c`) -/

/-- The nodes and the cells of the chains, with the ledger. -/
structure Printing (Obj : Type) extends ChainState Obj where
  ledger : Ledger

/-- `fillClassInMemoryNode` keeps the name of the class it finds in the node. -/
def fillClassInMemoryNodeCounted (jvm : Jvm Obj) (objectsWithTag : ℕ → List Obj) (node : ℕ)
    (p : Printing Obj) : Except Fault (Printing Obj) := do
  let nodes ← fillClassInMemoryNode jvm objectsWithTag node p.nodes
  let nd ← deref p.nodes node
  let named := !nd.dead && nd.klass.isNone && (nd.obj.isSome || (objectsWithTag node).length = 1)
  return { p with nodes := nodes, ledger := if named then p.ledger.alloc 1 else p.ledger }

/-- The loop of `generateReferencesChainForNode`. -/
def scanReferencesCounted (g : GlobalData) (leakNumber : ℕ)
    (visit : ℕ → Printing Obj → Except Fault (Option ℕ × Printing Obj)) (node : ℕ) :
    List MemoryReferer → Printing Obj → Except Fault (Option ℕ × Printing Obj)
  | [], p => .ok (none, p)
  | ref :: rest, p =>
    if !shouldConsiderThisReference g ref.kind then
      scanReferencesCounted g leakNumber visit node rest p
    else if !isRootReference ref.kind then
      match ref.node with
      | none => .error .fatalError
      | some next => do
        let (orderedRefs, p) ← visit next p
        match orderedRefs with
        | none =>
          let nodes := p.nodes.modify node fun nd =>
            { nd with leaksRelated := nd.leaksRelated.remove leakNumber }
          scanReferencesCounted g leakNumber visit node rest { p with nodes := nodes }
        | some last =>
          .ok (some last, ⟨p.toChainState.insertAfter last ref, p.ledger.alloc 1⟩)
    else
      let (last, st) := p.toChainState.single ref
      .ok (some last, ⟨st, p.ledger.alloc 1⟩)

/-- `generateReferencesChainForNode`: a block for each cell. -/
def generateReferencesChainForNodeCounted (env : Agent Obj) (objectsWithTag : ℕ → List Obj) :
    ℕ → ℕ → ℕ → Printing Obj → Except Fault (Option ℕ × Printing Obj)
  | 0, _, _, _ => .error .outOfFuel
  | fuel + 1, node, leakNumber, p => do
    let nd ← deref p.nodes node
    if nd.visited then
      return (none, p)
    if !nd.leaksRelated.contains leakNumber then
      return (none, p)
    let nodes := p.nodes.modify node fun nd => { nd with visited := true }
    let p ← fillClassInMemoryNodeCounted env.jvm objectsWithTag node { p with nodes := nodes }
    let nd ← deref p.nodes node
    let (orderedRefs, p) ←
      if !nd.dead then
        scanReferencesCounted env.gdata leakNumber
          (fun next p =>
            generateReferencesChainForNodeCounted env objectsWithTag fuel next leakNumber p)
          node nd.start p
      else .ok (none, p)
    let nodes := p.nodes.modify node fun nd => { nd with visited := false }
    return (orderedRefs, { p with nodes := nodes })

/-- `complete_xml_element` for the text of a reference, which is freed after it. -/
def Ledger.printMessage (l : Ledger) (msg : Str) : Ledger := (l.echoXmlElement [msg]).free 1

/-- `printSingleReference`. -/
def printSingleReference (d : JvmDump Obj) (objectsWithTag : ℕ → List Obj) (p : Printing Obj)
    (ref : MemoryReferer) : Except Fault (Printing Obj) := do
  let p ← ref.node.elim (.ok p) fun node =>
    fillClassInMemoryNodeCounted d.jvm objectsWithTag node p
  let l := p.ledger
  let msg := d.location ref
  match ref.kind with
  | .staticField =>
    let nd ← deref p.nodes (ref.node.getD 0)
    match nd.obj with
    | none => .error .fatalError
    | some klass =>
      -- the names of the class and of the field are freed when the text is made
      let (named, l) := (l.alloc 1).getFieldNameByIndex d.hierarchy klass ref.info.index
      let l := l.alloc 1
      let l := if named then l.free 1 else l
      return { p with ledger := (l.free 1).printMessage msg }
  | .field =>
    let nd ← deref p.nodes (ref.node.getD 0)
    match nd.klass with
    | none => .error .invalidPointer
    | some klass =>
      let (named, l) := l.getFieldNameByIndex d.hierarchy klass ref.info.index
      let l := l.alloc 1
      let l := if named then l.free 1 else l
      return { p with ledger := l.printMessage msg }
  | .arrayElement =>
    let nd ← deref p.nodes (ref.node.getD 0)
    match nd.classname with
    | none => .error .invalidPointer
    | some _ => return { p with ledger := (l.alloc 1).printMessage msg }
  | .constantPool => return { p with ledger := (l.alloc 1).printMessage msg }
  | .stackLocal =>
    -- the name of the class of the method, and the text
    let l := ((l.alloc 1).alloc 1).free 1
    return { p with ledger := l.printMessage msg }
  | .jniLocal =>
    -- without a `break`, the text of the next case takes the place of the one made here
    let l := { l.alloc 1 with jniLocals := l.jniLocals + 1 }
    return { p with ledger := (l.alloc 1).printMessage msg }
  | .jniGlobal | .systemClass | .monitor | .thread | .other =>
    return { p with ledger := (l.alloc 1).printMessage msg }
  | .klass | .classLoader | .signers | .protectionDomain | .interface | .superclass => return p

/-- The loop of `printReferenceChainToNode`, which frees each cell after its reference. -/
def printChainCells (d : JvmDump Obj) (objectsWithTag : ℕ → List Obj) (refs : List MemoryReferer)
    (p : Printing Obj) : Except Fault (Printing Obj) :=
  refs.foldlM (fun p ref => do
    let p ← printSingleReference d objectsWithTag p ref
    return { p with ledger := p.ledger.free 1 }) p

/-- One turn of the loop of `printReferencesChainForLeakingNodes`. -/
def printLeakCounted (d : JvmDump Obj) (env : Agent Obj) (objectsWithTag : ℕ → List Obj) (fuel : ℕ)
    (isNeedReferences : Bool) (p : Printing Obj) (leak : LeakingNode) :
    Except Fault (Printing Obj) := do
  let (orderedRefs, p) ←
    (if isNeedReferences then
      generateReferencesChainForNodeCounted env objectsWithTag fuel leak.node leak.leakNumber p
    else .ok (none, p))
  let chain := orderedRefs.bind (printedChain p.toChainState)
  if orderedRefs.isSome || env.gdata.showUnreachables then
    let p ← fillClassInMemoryNodeCounted d.jvm objectsWithTag leak.node p
    let n ← deref p.nodes leak.node
    match n.classname, n.obj with
    | some classname, some obj =>
      let l := p.ledger.echoXmlElement [classname.toList, (toString leak.leakSize).toList]
      let p := { p with ledger := (d.elements obj).foldl Ledger.echoXmlElement l }
      if isNeedReferences then
        match chain with
        | none => n.start.foldlM (printSingleReference d objectsWithTag) p
        | some refs => printChainCells d objectsWithTag refs p
      else return p
    | _, _ => .error .invalidPointer
  else return p

/-! ## Freeing (`data_struct.c`) -/

/-- The state of freeing, with the ledger. -/
structure Freeing (Obj : Type) extends FreeState Obj where
  ledger : Ledger

/-- The loop of `freeMemoryNode` over the references of `node`. -/
def freeReferersCounted
    (free : Option ℕ → Freeing Obj → Except Fault (Bool × Freeing Obj)) (node : ℕ) :
    List MemoryReferer → Freeing Obj → Except Fault (Freeing Obj)
  | [], st => .ok st
  | ref :: rest, st => do
    let (_, st) ← free ref.node st
    freeReferersCounted free node rest
      { st with freedReferers := st.freedReferers ++ [(node, ref)], ledger := st.ledger.free 1 }

/-- The blocks of a node that `freeMemoryNode` frees before the loop over its references: its class
name, its ignored fields and its set. -/
def MemoryNode.namedBlocks (nd : MemoryNode Obj) : ℕ :=
  (if nd.classname.isSome then 1 else 0) + 2 * nd.ignoreFields.length +
    if nd.leaksRelated.size = 0 then 0 else 2

/-- `freeMemoryNode`. -/
def freeMemoryNodeCounted : ℕ → Option ℕ → Freeing Obj → Except Fault (Bool × Freeing Obj)
  | 0, _, _ => .error .outOfFuel
  | _ + 1, none, st => .ok (false, st)
  | fuel + 1, some node, st => do
    let nd ← deref st.nodes node
    let nodes := st.nodes.modify node fun nd =>
      { nd with referencePointingToMe := nd.referencePointingToMe - 1 }
    if nd.visited then
      return (false, { st with nodes := nodes })
    let nodes := nodes.modify node fun nd =>
      { nd with
        visited := true, classname := none, klass := none, obj := none, ignoreFields := []
        leaksRelated := .new 0 }
    let st ← freeReferersCounted (freeMemoryNodeCounted fuel) node nd.start
      { st with nodes := nodes, ledger := st.ledger.free nd.namedBlocks }
    let listed ← deref st.nodes node
    let st := { st with ledger := st.ledger.free listed.fanIn.length }
    let nodes := st.nodes.modify node fun nd => { nd with start := [], fanIn := [] }
    let nd ← deref nodes node
    if (0 : ℤ) < nd.referencePointingToMe then
      return (false, { st with nodes := nodes.modify node fun nd => { nd with visited := false } })
    return (true, { st with
      nodes := nodes.free node, nodesFreed := st.nodesFreed + 1, ledger := st.ledger.free 1 })

/-- `freeMemoryForLeakList`. -/
def freeMemoryForLeakListCounted (fuel : ℕ) :
    List LeakingNode → Freeing Obj → Except Fault (Freeing Obj)
  | [], st => .ok st
  | leak :: rest, st => do
    let (_, st) ← freeMemoryNodeCounted fuel (some leak.node) st
    freeMemoryForLeakListCounted fuel rest { st with ledger := st.ledger.free 1 }

/-- The loop of `untagAllClasses` over `classNodes`; the name of a class that is not freed is printed
and freed. -/
def freeClassNodesCounted (fuel : ℕ) :
    List ℕ → Freeing Obj → Except Fault (Freeing Obj)
  | [], st => .ok st
  | node :: rest, st => do
    let (freed, st) ← freeMemoryNodeCounted fuel (some node) st
    freeClassNodesCounted fuel rest
      { st with ledger := if freed then st.ledger else (st.ledger.alloc 1).free 1 }

/-! ## A dump -/

/-- The agent between two dumps. -/
structure AgentMemory (Obj : Type) where
  globals : AgentGlobals
  nodes : CHeap (MemoryNode Obj)
  jniLocals : ℕ

/-- The agent that was just loaded. -/
def AgentMemory.loaded : AgentMemory Obj := ⟨.loaded, .empty, 0⟩

/-- The entries of an `ignore_referenced_by` map; each is two blocks. -/
def entriesIn (ignoreReferencedBy : StrMap (List IgnoreField)) : ℕ :=
  (ignoreReferencedBy.map fun pair => pair.2.length).sum

/-- The entries of the global map; there is none between a dump and the next attach. -/
def entriesOf (ignoreReferencedBy : Option (IgnoreMap (List IgnoreField))) : ℕ :=
  entriesIn (ignoreReferencedBy.elim [] (·.pairs))

/-- The dump that the options and the lists of ignored fields make of the JVM. -/
def JvmDump.input (d : JvmDump Obj) (g : AgentGlobals) (ignoreFields : Obj → List IgnoreField) :
    DumpInput Obj where
  agent :=
    { jvm := d.jvm
      gdata :=
        { sizeableClassesNum := classDescriptors.length
          sizeThreshold := g.settings.sizeThreshold
          maxFanIn := g.settings.maxFanIn
          referenceChainLength := g.settings.referenceChainLength
          considerLocalReferences := g.settings.considerLocalReferences
          showUnreachables := g.settings.showUnreachables }
      threadId := d.threadId
      malloc := d.malloc }
  info := d.info
  ignoreClasses name := g.ignoreClasses.any fun map => (smGet map.pairs name.toList).isSome
  runGc := g.settings.runGc
  objects := d.objects
  reported := d.reported
  loadedClasses := d.loadedClasses
  size := d.size
  ignoreFields := ignoreFields
  order := d.order

/-- `findLeaksInTaggedObjects`, after `tagAllMapsAndCollections`: the nodes and the entries that are
left, and the ledger. -/
def JvmDump.findLeaksInTaggedObjects (d : JvmDump Obj) (g : AgentGlobals)
    (nodes : CHeap (MemoryNode Obj)) (l : Ledger) :
    Except Fault (CHeap (MemoryNode Obj) × StrMap (List IgnoreField) × Ledger) := do
  let w : World Obj := ⟨d.tags, nodes⟩
  let ignoreReferencedBy := g.ignoreReferencedBy.elim [] (·.pairs)
  -- `tags`, `sizeMethods`, and for each leak a `LeakingNodes` and its node
  let lst := ((d.input g fun _ => []).searched w).1
  let l := (l.alloc 2).alloc ((1 + newMemoryNodeBlocks) * lst.length)
  if lst.isEmpty then
    return (((d.input g fun _ => []).searched w).2.nodes, ignoreReferencedBy, l.free 2)
  -- `classNodes` and the nodes in it, then `bms` and `nodes_found`
  let (lists, ignoreReferencedBy, l) := d.fillClassIgnoreLists ignoreReferencedBy l
  let input := d.input g fun o => (lists.lookup o).getD []
  let l := (l.alloc 1).alloc (newMemoryNodeBlocks * d.nodeClasses.length)
  let (s, l) ← heapIterationsCounted input.agent input.order
    input.agent.gdata.referenceChainLength.toNat 0 (Search.start (input.tagged w).2, l.alloc 3)
  let fuel := s.nodes.dom.card + 1
  let p ← lst.foldlM (printLeakCounted d input.agent (input.objectsWithTag s.tags) fuel
    (decide (input.agent.gdata.referenceChainLength > 0))) ⟨⟨s.nodes, []⟩, l.free 3⟩
  let st ← freeMemoryForLeakListCounted fuel lst ⟨⟨p.nodes, s.nodesFreed, []⟩, p.ledger⟩
  let st ← freeClassNodesCounted fuel (input.tagged w).1 { st with ledger := st.ledger.free 2 }
  return (st.nodes, ignoreReferencedBy, st.ledger.free 1)

/-- `dumperThreadMain`, where no other dump is in progress. -/
def JvmDump.dumperThreadMain (d : JvmDump Obj) (m : AgentMemory Obj) :
    Except Fault (AgentMemory Obj) := do
  let l : Ledger := ⟨m.globals.counters, m.jniLocals⟩
  -- `initThreadData` allocates `sizeableClasses`, `releaseThreadData` frees it
  let l := d.loadedClasses.foldl (Ledger.generateTagForClass d) (l.alloc 1)
  let (nodes, ignoreReferencedBy, l) ← d.findLeaksInTaggedObjects m.globals m.nodes l
  let l := (l.free (2 * entriesIn ignoreReferencedBy)).free 1
  return {
    globals := { m.globals with
      ignoreClasses := none, ignoreReferencedBy := none, counters := l.counters }
    nodes := nodes
    jniLocals := l.jniLocals }

/-- An attach, and the dump it starts if it is accepted, to its end. -/
def AgentMemory.attach (cp : CPlatform) (m : AgentMemory Obj) (e : Attach × JvmDump Obj) :
    Except Fault (AgentMemory Obj) := do
  let (accepted, globals) ← initAgent cp m.globals e.1
  if accepted then e.2.dumperThreadMain { m with globals := globals }
  else return { m with globals := globals }

end JLeaker
