import Mathlib.Data.List.Basic
import JLeaker.Model.DataStruct

/-!
# `leak_detect.c`: finding the leaks and tagging the chains to them

`searchObjectsForLeaks` gives every large enough object a node, `tagAllClasses` gives every loaded
class a node, and `tagReferencesChain` then asks the JVM for all references again and again.  Each
pass calls `cbObjectTagReferrer` once for every reference to a tagged object of a tagged class; the
callback hands the leaks of the referenced object on to its referrer.
-/

namespace JLeaker

variable {Obj : Type}

/-- What the JVM says about objects and classes; classes are objects too. -/
structure Jvm (Obj : Type) where
  /-- The class object of an object. -/
  classOf : Obj → Obj
  /-- The class object of `java.lang.Class`. -/
  classClass : Obj
  className : Obj → String

/-- The settings of one dump: the JVM, the options, the id of the dumping thread, the allocator. -/
structure Agent (Obj : Type) where
  jvm : Jvm Obj
  gdata : GlobalData
  threadId : ℤ
  malloc : Malloc

/-- The kinds `FollowReferences` reports without a referrer. -/
def HeapReferenceKind.isHeapRoot : HeapReferenceKind → Bool
  | .jniGlobal | .systemClass | .monitor | .stackLocal | .jniLocal | .thread | .other => true
  | _ => false

/-- One reference reported by `FollowReferences`; heap roots, and only they, have no referrer. -/
structure HeapReference (Obj : Type) where
  kind : HeapReferenceKind
  info : Option HeapReferenceInfo
  referee : Obj
  referrer : Option Obj
  referrer_isNone : referrer.isNone = kind.isHeapRoot

/-- `FollowReferencesData` together with the state the callback works on. -/
structure Search (Obj : Type) extends AgentState Obj where
  leaksFinished : BitmaskSet
  nodesFound : List ℕ

/-! ## Kinds of references (`jvm_reference.c`) -/

/-- `localReferenceOfThisThread`. -/
def localReferenceOfThisThread (threadId : ℤ) (kind : HeapReferenceKind)
    (info : Option HeapReferenceInfo) : Bool :=
  match kind with
  | .stackLocal | .jniLocal => (info.getD {}).threadId == threadId
  | _ => false

/-- `shouldConsiderThisReference`. -/
def shouldConsiderThisReference (g : GlobalData) : HeapReferenceKind → Bool
  | .stackLocal | .jniLocal => g.considerLocalReferences
  | _ => true

/-- `isRootReference`. -/
def isRootReference : HeapReferenceKind → Bool
  | .stackLocal | .jniLocal | .constantPool | .staticField | .monitor | .thread | .other
  | .systemClass | .jniGlobal => true
  | _ => false

/-! ## The candidates -/

/-- `INITIAL_CLASS_TAG`. -/
def initialClassTag : ℕ := 0xBadCafe

/-- `CLASS_CLASS_INITIAL_TAG`. -/
def classClassInitialTag : ℕ := 0xFeedDad

/-- One turn of the loop of `searchObjectsForLeaks`, for an object and its tag.  `size idx obj` is
what calling the `size()` method of the sizeable class `idx` on the object returns. -/
def searchObject [DecidableEq Obj] (env : Agent Obj) (size : ℕ → Obj → ℤ)
    (st : List LeakingNode × AgentState Obj) (candidate : Obj × ℕ) :
    List LeakingNode × AgentState Obj :=
  let (res, s) := st
  let (obj, tag) := candidate
  let idx : ℤ := (tag : ℤ) - initialClassTag
  let size := if 0 ≤ idx ∧ idx < env.gdata.sizeableClassesNum then size idx.toNat obj else 0
  if size > env.gdata.sizeThreshold then
    let leakNumber := s.numberOfLeaks
    let node := newMemoryNode (leakNumber + 1)
    let addr := s.nodes.fresh env.malloc
    let node := { node with
      leaksRelated := node.leaksRelated.add leakNumber, obj := some obj, leakSize := size }
    (res ++ [⟨addr, size, leakNumber⟩],
      { s with
        numberOfLeaks := leakNumber + 1
        nodes := s.nodes.alloc env.malloc node
        nodesAllocated := s.nodesAllocated + 1
        tags := Function.update s.tags obj addr })
  else
    (res, { s with tags := Function.update s.tags obj 0 })

/-- `searchObjectsForLeaks`. -/
def searchObjectsForLeaks [DecidableEq Obj] (env : Agent Obj) (size : ℕ → Obj → ℤ)
    (candidates : List (Obj × ℕ)) (s : AgentState Obj) : List LeakingNode × AgentState Obj :=
  candidates.foldl (searchObject env size) ([], s)

/-! ## The class nodes -/

/-- One turn of the loop of `tagAllClasses`.  `ignoreFields` is the list `fillClassIgnoreList`
attaches to the node of a class. -/
def tagClass [DecidableEq Obj] (env : Agent Obj) (ignoreFields : Obj → List IgnoreField)
    (st : List ℕ × AgentState Obj) (klass : Obj) : List ℕ × AgentState Obj :=
  let (classNodes, s) := st
  if klass = env.jvm.classClass then
    (classNodes, { s with tags := Function.update s.tags klass 0 })
  else
    let addr := s.nodes.fresh env.malloc
    let node := { newMemoryNode s.numberOfLeaks with
      obj := some klass, classNode := true, ignoreFields := ignoreFields klass }
    (classNodes ++ [addr],
      { s with
        nodes := s.nodes.alloc env.malloc node
        nodesAllocated := s.nodesAllocated + 1
        tags := Function.update s.tags klass addr })

/-- `tagAllClasses`: the list `classNodes` and the new state. -/
def tagAllClasses [DecidableEq Obj] (env : Agent Obj) (ignoreFields : Obj → List IgnoreField)
    (classes : List Obj) (s : AgentState Obj) : List ℕ × AgentState Obj :=
  classes.foldl (tagClass env ignoreFields) ([], s)

/-! ## The callback -/

/-- `isFieldIgnored`. -/
def isFieldIgnored (refClassNode thisNode : MemoryNode Obj) (fieldIndex : ℤ) : Bool :=
  refClassNode.ignoreFields.any fun ig =>
    ig.field == fieldIndex && decide (thisNode.leakSize < ig.threshold)

/-- The tag of the class of the referrer: zero for a heap root. -/
def referrerClassTag (jvm : Jvm Obj) (tags : Obj → ℕ) (r : HeapReference Obj) : ℕ :=
  match r.referrer with
  | none => 0
  | some o => tags (jvm.classOf o)

/-- The part of `cbObjectTagReferrer` under `if (0L != referrer_class_tag)`: count the referrer's
class and say whether to go on. -/
def admitReferrerClass [DecidableEq Obj] (env : Agent Obj) (r : HeapReference Obj) (this : ℕ)
    (s : Search Obj) : Except Fault (Bool × Search Obj) := do
  let classTag := referrerClassTag env.jvm s.tags r
  if classTag = 0 then
    return (true, s)
  let thisNode ← deref s.nodes this
  let classNode ← deref s.nodes classTag
  let (refsFromSameClass, thisNode) ← addReferenceClass thisNode classNode
  let s := { s with nodes := s.nodes.modify this fun _ => thisNode }
  if refsFromSameClass ≥ env.gdata.maxFanIn then
    return (false, s)
  if r.kind = .field ∧ isFieldIgnored classNode thisNode (r.info.getD {}).index then
    return (false, s)
  return (true, s)

/-- The part of `cbObjectTagReferrer` that finds or makes the node of the referrer: `none` when the
callback returns here, else the pointer `refNode` (null for a heap root). -/
def referrerNode [DecidableEq Obj] (env : Agent Obj) (r : HeapReference Obj) (this : ℕ)
    (s : Search Obj) : Except Fault (Option (Option ℕ) × Search Obj) := do
  match r.referrer with
  | none => return (some none, s)
  | some referrer =>
    let tag := s.tags referrer
    if tag ≠ 0 then
      let refNode ← deref s.nodes tag
      let thisNode ← deref s.nodes this
      if r.kind = .staticField ∧ isFieldIgnored refNode thisNode (r.info.getD {}).index then
        return (none, s)
      if hasReferenceBetweenObjects thisNode tag r.kind r.info then
        return (none, s)
      let nodes := s.nodes.modify tag fun n =>
        { n with referencePointingToMe := n.referencePointingToMe + 1 }
      return (some (some tag), { s with nodes := nodes })
    else
      let addr := s.nodes.fresh env.malloc
      return (some (some addr), { s with
        nodes := s.nodes.alloc env.malloc (newMemoryNode s.numberOfLeaks)
        nodesAllocated := s.nodesAllocated + 1
        tags := Function.update s.tags referrer addr })

/-- The union of the leaks of the referenced node into those of its referrer. -/
def MemoryNode.inherit (thisNode : MemoryNode Obj) (leaksFinished : BitmaskSet)
    (refNode : MemoryNode Obj) : MemoryNode Obj :=
  { refNode with
    leaksRelated := refNode.leaksRelated.addAllWithExclusion thisNode.leaksRelated leaksFinished
    leakSize := if refNode.leakSize < thisNode.leakSize then thisNode.leakSize
      else refNode.leakSize }

/-- The loop over `nodes_found`. -/
def countNodesFound (leaksRelated leaksFinished : BitmaskSet) (nodesFound : List ℕ) : List ℕ :=
  nodesFound.mapIdx fun i found =>
    if leaksRelated.contains i && !leaksFinished.contains i then found + 1 else found

/-- The rest of `cbObjectTagReferrer`: hand the leaks on, record the reference, count it, and finish
the leaks of the node if the reference is a root. -/
def recordReference (r : HeapReference Obj) (this : ℕ) (refNode : Option ℕ) (s : Search Obj) :
    Except Fault (Search Obj) := do
  let thisNode ← deref s.nodes this
  let nodes := match refNode with
    | none => s.nodes
    | some addr => s.nodes.modify addr (thisNode.inherit s.leaksFinished)
  let ref : MemoryReferer := ⟨r.kind, r.info.getD {}, refNode⟩
  let nodes := nodes.modify this fun n => { n with start := n.start ++ [ref] }
  let thisNode ← deref nodes this
  return { s with
    nodes := nodes
    nodesFound := countNodesFound thisNode.leaksRelated s.leaksFinished s.nodesFound
    leaksFinished := if isRootReference r.kind then s.leaksFinished.addAll thisNode.leaksRelated
      else s.leaksFinished }

/-- `cbObjectTagReferrer`, which always asks the JVM to go on. -/
def cbObjectTagReferrer [DecidableEq Obj] (env : Agent Obj) (s : Search Obj)
    (r : HeapReference Obj) : Except Fault (Search Obj) := do
  if localReferenceOfThisThread env.threadId r.kind r.info then
    return s
  let this := s.tags r.referee
  let thisNode ← deref s.nodes this
  if s.leaksFinished.containsAll thisNode.leaksRelated then
    return s
  if thisNode.leaksRelated.isEmpty then
    return s
  let (goOn, s) ← admitReferrerClass env r this s
  if !goOn then
    return s
  let (refNode?, s) ← referrerNode env r this s
  match refNode? with
  | none => return s
  | some refNode => recordReference r this refNode s

/-! ## The passes -/

/-- What `FollowReferences` does with one reference: the callback is not told about untagged objects
(`JVMTI_HEAP_FILTER_UNTAGGED`) and objects of untagged classes
(`JVMTI_HEAP_FILTER_CLASS_UNTAGGED`). -/
def reportReference [DecidableEq Obj] (env : Agent Obj) (s : Search Obj) (r : HeapReference Obj) :
    Except Fault (Search Obj) :=
  if s.tags r.referee = 0 ∨ s.tags (env.jvm.classOf r.referee) = 0 then
    .ok s
  else
    cbObjectTagReferrer env s r

/-- `memset(nodes_found, 0, ...)`. -/
def Search.resetNodesFound (s : Search Obj) : Search Obj :=
  { s with nodesFound := s.nodesFound.map fun _ => 0 }

/-- The test `hasUnfinished` after a pass: some leak is neither finished nor without new nodes. -/
def Search.hasUnfinished (s : Search Obj) : Bool :=
  (List.range s.numberOfLeaks).any fun j =>
    !(s.leaksFinished.contains j || s.nodesFound.getD j 0 == 0)

/-- The loop of `tagReferencesChain` from pass number `i` on, with `n` passes left; `order i` lists
the references in the order pass `i` reports them. -/
def heapIterations [DecidableEq Obj] (env : Agent Obj) (order : ℕ → List (HeapReference Obj)) :
    ℕ → ℕ → Search Obj → Except Fault (Search Obj)
  | 0, _, s => .ok s
  | n + 1, i, s => do
    let s ← (order i).foldlM (reportReference env) s.resetNodesFound
    if !s.hasUnfinished then
      return s
    heapIterations env order n (i + 1) s

/-- The `FollowReferencesData` that `tagReferencesChain` sets up. -/
def Search.start (s : AgentState Obj) : Search Obj :=
  { s with
    leaksFinished := .new s.numberOfLeaks
    nodesFound := List.replicate s.numberOfLeaks 0 }

/-- `tagReferencesChain` after its call of `tagAllClasses`. -/
def tagReferencesChain [DecidableEq Obj] (env : Agent Obj)
    (order : ℕ → List (HeapReference Obj)) (s : AgentState Obj) : Except Fault (Search Obj) :=
  heapIterations env order env.gdata.referenceChainLength.toNat 0 (Search.start s)

/-! ## The end of a dump -/

/-- The loop of `untagAllClasses` over `classNodes`: the nodes reported as "class not freed". -/
def freeClassNodes (fuel : ℕ) :
    List ℕ → FreeState Obj → Except Fault (List ℕ × FreeState Obj)
  | [], st => .ok ([], st)
  | node :: rest, st => do
    let (freed, st) ← freeMemoryNode fuel (some node) st
    let (notFreed, st) ← freeClassNodes fuel rest st
    return (if freed then notFreed else node :: notFreed, st)

end JLeaker
