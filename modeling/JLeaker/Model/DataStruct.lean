import JLeaker.Lib.CHeap
import JLeaker.Lib.Run
import JLeaker.Model.BitmaskSet

/-!
# `data_struct.c`: the nodes of the reference graph

The agent keeps one `MemoryNode` for every object it has tagged.  A node lists the references that
were found to its object (`start`), the leaks that reach it (`leaksRelated`) and how many
`MemoryReferer` records and lists point to it.  The tag of an object is the address of its node.
-/

namespace JLeaker

/-- The ways a modelled function can fail to return. -/
inductive Fault where
  /-- `fatal_error`, which ends the host JVM. -/
  | fatalError
  /-- A null pointer or the address of a freed record was dereferenced. -/
  | invalidPointer
  /-- The recursion bound of the model was too small. -/
  | outOfFuel
  deriving DecidableEq, Repr

/-- `jvmtiHeapReferenceKind`. -/
inductive HeapReferenceKind where
  | klass
  | field
  | arrayElement
  | classLoader
  | signers
  | protectionDomain
  | interface
  | staticField
  | constantPool
  | superclass
  | jniGlobal
  | systemClass
  | monitor
  | stackLocal
  | jniLocal
  | thread
  | other
  deriving DecidableEq, Repr

/-- `jvmtiHeapReferenceInfo`.  The union is flattened: every kind reads its own fields, the others
are zero, and `index` is the first field of `field`, `array` and `constant_pool` alike. -/
structure HeapReferenceInfo where
  index : ℤ := 0
  threadTag : ℤ := 0
  threadId : ℤ := 0
  depth : ℤ := 0
  method : ℕ := 0
  location : ℤ := 0
  slot : ℤ := 0
  deriving DecidableEq, Repr

/-- `MemoryReferer`; `node` is null for the reference of a heap root that has no object. -/
structure MemoryReferer where
  kind : HeapReferenceKind
  info : HeapReferenceInfo
  node : Option ℕ
  deriving DecidableEq, Repr

/-- `ClassReferenceCount`. -/
structure ClassReferenceCount (Obj : Type) where
  klass : Option Obj
  count : ℤ

/-- `IgnoreField`: references through the field are dropped for leaks smaller than `threshold`. -/
structure IgnoreField where
  field : ℤ
  fieldName : String
  threshold : ℤ
  deriving DecidableEq, Repr

/-- `MemoryNode`.  The linked lists `start`, `fan_in` and `ignore_fields` are lists. -/
structure MemoryNode (Obj : Type) where
  visited : Bool
  dead : Bool
  classNode : Bool
  klass : Option Obj
  obj : Option Obj
  leakSize : ℤ
  classname : Option String
  start : List MemoryReferer
  leaksRelated : BitmaskSet
  referencePointingToMe : ℤ
  fanIn : List (ClassReferenceCount Obj)
  ignoreFields : List IgnoreField

/-- `LeakingNodes` without the print function. -/
structure LeakingNode where
  node : ℕ
  leakSize : ℤ
  leakNumber : ℕ
  deriving DecidableEq, Repr

/-- The options of `GlobalData` that the search and the printing read. -/
structure GlobalData where
  sizeableClassesNum : ℕ
  sizeThreshold : ℤ
  maxFanIn : ℤ
  referenceChainLength : ℤ
  considerLocalReferences : Bool
  showUnreachables : Bool

variable {Obj : Type}

/-- `newMemoryNode`: everything zero, an empty set for the leaks known so far, one pointer to it. -/
def newMemoryNode (numberOfLeaks : ℕ) : MemoryNode Obj where
  visited := false
  dead := false
  classNode := false
  klass := none
  obj := none
  leakSize := 0
  classname := none
  start := []
  leaksRelated := .new numberOfLeaks
  referencePointingToMe := 1
  fanIn := []
  ignoreFields := []

/-- `hasReferenceBetweenObjects`. -/
def hasReferenceBetweenObjects (n1 : MemoryNode Obj) (n2 : ℕ) (kind : HeapReferenceKind)
    (info : Option HeapReferenceInfo) : Bool :=
  n1.start.any fun ref =>
    ref.kind == kind && (info.isNone || info == some ref.info) && ref.node == some n2

/-- The walk of `addReferenceClass` along the fan-in list: the new count and the new list. -/
def countReference [DecidableEq Obj] (theClass : Option Obj) :
    List (ClassReferenceCount Obj) → ℤ × List (ClassReferenceCount Obj)
  | [] => (1, [⟨theClass, 1⟩])
  | rCount :: rest =>
    if rCount.klass = theClass then
      (rCount.count + 1, { rCount with count := rCount.count + 1 } :: rest)
    else
      let (count, rest) := countReference theClass rest
      (count, rCount :: rest)

/-- `addReferenceClass`: the count and the updated node. -/
def addReferenceClass [DecidableEq Obj] (node classNode : MemoryNode Obj) :
    Except Fault (ℤ × MemoryNode Obj) :=
  if !classNode.classNode then
    .error .fatalError
  else
    let (count, fanIn) := countReference classNode.obj node.fanIn
    .ok (count, { node with fanIn := fanIn })

/-- What the agent has in memory and in the JVM's tag table during a dump. -/
structure AgentState (Obj : Type) where
  tags : Obj → ℕ
  nodes : CHeap (MemoryNode Obj)
  numberOfLeaks : ℕ
  nodesAllocated : ℕ
  nodesFreed : ℕ

namespace AgentState

/-- The start of a dump: no object is tagged and no node lives. -/
def init : AgentState Obj where
  tags _ := 0
  nodes := .empty
  numberOfLeaks := 0
  nodesAllocated := 0
  nodesFreed := 0

end AgentState

/-- Read the record a pointer refers to. -/
def deref {α : Type} (h : CHeap α) (a : ℕ) : Except Fault α :=
  match h.get? a with
  | some x => .ok x
  | none => .error .invalidPointer

@[simp] theorem deref_eq_ok {α : Type} {h : CHeap α} {a : ℕ} {x : α} :
    deref h a = .ok x ↔ h.get? a = some x := by
  unfold deref
  cases h.get? a <;> simp

/-! ## Freeing the graph -/

/-- What freeing works on.  `freedReferers` lists the `MemoryReferer` records freed so far, each with
the node whose list it was in. -/
structure FreeState (Obj : Type) where
  nodes : CHeap (MemoryNode Obj)
  nodesFreed : ℕ
  freedReferers : List (ℕ × MemoryReferer)

/-- The loop of `freeMemoryNode` over the references of `node`; `free` is the recursive call. -/
def freeReferers
    (free : Option ℕ → FreeState Obj → Except Fault (Bool × FreeState Obj)) (node : ℕ) :
    List MemoryReferer → FreeState Obj → Except Fault (FreeState Obj)
  | [], st => .ok st
  | ref :: rest, st => do
    let (_, st) ← free ref.node st
    freeReferers free node rest { st with freedReferers := st.freedReferers ++ [(node, ref)] }

/-- `freeMemoryNode`; the first argument bounds the depth of the recursion. -/
def freeMemoryNode : ℕ → Option ℕ → FreeState Obj → Except Fault (Bool × FreeState Obj)
  | 0, _, _ => .error .outOfFuel
  | _ + 1, none, st => .ok (false, st)
  | fuel + 1, some node, st => do
    let nd ← deref st.nodes node
    let nodes := st.nodes.modify node fun nd =>
      { nd with referencePointingToMe := nd.referencePointingToMe - 1 }
    if nd.visited then
      return (false, { st with nodes := nodes })
    -- the empty set stands for the null pointer that `bitMaskSet_free` leaves
    let nodes := nodes.modify node fun nd =>
      { nd with
        visited := true, classname := none, klass := none, obj := none, ignoreFields := []
        leaksRelated := .new 0 }
    let st ← freeReferers (freeMemoryNode fuel) node nd.start { st with nodes := nodes }
    let nodes := st.nodes.modify node fun nd => { nd with start := [], fanIn := [] }
    let nd ← deref nodes node
    if 0 < nd.referencePointingToMe then
      return (false, { st with nodes := nodes.modify node fun nd => { nd with visited := false } })
    return (true, { st with nodes := nodes.free node, nodesFreed := st.nodesFreed + 1 })

/-- `freeMemoryForLeakList`. -/
def freeMemoryForLeakList (fuel : ℕ) :
    List LeakingNode → FreeState Obj → Except Fault (FreeState Obj)
  | [], st => .ok st
  | leak :: rest, st => do
    let (_, st) ← freeMemoryNode fuel (some leak.node) st
    freeMemoryForLeakList fuel rest st

end JLeaker
