import JLeaker.Model.Dump

/-!
# One dump after another

`dumperThreadMain` runs a whole dump.  Tags stay in the JVM when the dump is over, and the first heap
pass of the next one (`tagAllMapsAndCollections`) sets the tags of what it reaches anew.  Between two
dumps objects are collected and created; which ones the JVM reports, lists or omits is part of the
input of a dump.
-/

namespace JLeaker

variable {Obj : Type}

/-! ## The first heap pass (`leak_detect.c`) -/

/-- The names in `classDescriptors` of `jobject_print.c`. -/
def classDescriptors : List String :=
  ["java/util/Collection", "java/util/Map", "com/google/common/collect/Multimap"]

/-- What the JVM says about classes.  A predicate is also true where the call fails. -/
structure ClassInfo (Obj : Type) where
  findClass : String → Option Obj
  isInterface : Obj → Bool
  isArrayClass : Obj → Bool
  enclosingClass : Obj → Option Obj
  isAssignableFrom : Obj → Obj → Bool

/-- The classes of `ThreadData.sizeableClasses`; one that is not there is null. -/
def ClassInfo.sizeableClasses (info : ClassInfo Obj) : List (Option Obj) :=
  classDescriptors.map info.findClass

/-- `generateTagForClass`; `ignoreClasses` says which names are keys of `ignore_classes`. -/
def generateTagForClass [DecidableEq Obj] (jvm : Jvm Obj) (info : ClassInfo Obj)
    (ignoreClasses : String → Bool) (theClass : Obj) : ℕ :=
  if theClass = jvm.classClass then classClassInitialTag
  else if info.isInterface theClass then 0
  else if info.isArrayClass theClass then 0
  else if (info.enclosingClass theClass).isSome then 0
  else if ignoreClasses (jvm.className theClass) then 0
  else
    match info.sizeableClasses.findIdx? (·.any (info.isAssignableFrom theClass)) with
    | some j => initialClassTag + j
    | none => 0

/-- `cbHeapObject`: the new tag of an object. -/
def cbHeapObject (sizeableClassesNum classTag tag : ℕ) : ℕ :=
  if classTag = classClassInitialTag then tag
  else if initialClassTag ≤ classTag ∧ classTag - initialClassTag < sizeableClassesNum then classTag
  else 0

/-- The loop of `tagAllMapsAndCollections` over the loaded classes. -/
def tagLoadedClasses [DecidableEq Obj] (tagFor : Obj → ℕ) (classes : List Obj) (tags : Obj → ℕ) :
    Obj → ℕ :=
  classes.foldl (fun tags klass => Function.update tags klass (tagFor klass)) tags

/-- `FollowReferences` with `cbHeapObject`, for the objects it reports one after another. -/
def firstHeapIteration [DecidableEq Obj] (jvm : Jvm Obj) (sizeableClassesNum : ℕ)
    (reported : List Obj) (tags : Obj → ℕ) : Obj → ℕ :=
  reported.foldl (fun tags o => Function.update tags o
    (cbHeapObject sizeableClassesNum (tags (jvm.classOf o)) (tags o))) tags

/-- `GetObjectsWithTags`: the uncollected objects with one of the tags, and their tags. -/
def getObjectsWithTags (objects : List Obj) (tags : Obj → ℕ) (asked : List ℕ) : List (Obj × ℕ) :=
  (objects.filter fun o => decide (tags o ∈ asked)).map fun o => (o, tags o)

/-! ## A dump in its JVM -/

/-- What a dump reads of the options and of the JVM. -/
structure DumpInput (Obj : Type) where
  agent : Agent Obj
  info : ClassInfo Obj
  ignoreClasses : String → Bool
  runGc : Bool
  /-- The objects that are not collected yet, the unreachable ones included. -/
  objects : List Obj
  /-- The objects the first heap pass reports, one for each reference. -/
  reported : List Obj
  /-- The answer of `GetLoadedClasses`. -/
  loadedClasses : List Obj
  size : ℕ → Obj → ℤ
  ignoreFields : Obj → List IgnoreField
  /-- The references each later pass reports. -/
  order : ℕ → List (HeapReference Obj)

/-- What a dump leaves behind: the tags in the JVM and the nodes it has not freed. -/
structure World (Obj : Type) where
  tags : Obj → ℕ
  nodes : CHeap (MemoryNode Obj)

/-- The JVM before the first dump. -/
def World.init : World Obj where
  tags _ := 0
  nodes := .empty

namespace DumpInput

variable [DecidableEq Obj] (d : DumpInput Obj)

/-- `ForceGarbageCollection`, if the dump asks for it: unreachable objects lose their tags. -/
def afterGc (tags : Obj → ℕ) : Obj → ℕ :=
  if d.runGc then fun o => if o ∈ d.reported then tags o else 0 else tags

/-- `tagAllMapsAndCollections`. -/
def tagAllMapsAndCollections (tags : Obj → ℕ) : Obj → ℕ :=
  firstHeapIteration d.agent.jvm d.agent.gdata.sizeableClassesNum d.reported
    (tagLoadedClasses (generateTagForClass d.agent.jvm d.info d.ignoreClasses) d.loadedClasses tags)

/-- The tags `findLeaksInTaggedObjects` asks for. -/
def candidateTags : List ℕ :=
  (List.range d.agent.gdata.sizeableClassesNum).map (initialClassTag + ·)

/-- The objects `findLeaksInTaggedObjects` gets. -/
def candidates (tags : Obj → ℕ) : List (Obj × ℕ) :=
  getObjectsWithTags d.objects tags d.candidateTags

/-- The state when the first heap pass is over; the counters start anew with each dump. -/
def begin (w : World Obj) : AgentState Obj where
  tags := d.tagAllMapsAndCollections (d.afterGc w.tags)
  nodes := w.nodes.restart
  numberOfLeaks := 0
  nodesAllocated := 0
  nodesFreed := 0

/-- The result of `searchObjectsForLeaks`. -/
def searched (w : World Obj) : List LeakingNode × AgentState Obj :=
  searchObjectsForLeaks d.agent d.size (d.candidates (d.begin w).tags) (d.begin w)

/-- The result of `tagAllClasses`. -/
def tagged (w : World Obj) : List ℕ × AgentState Obj :=
  tagAllClasses d.agent d.ignoreFields d.loadedClasses (d.searched w).2

/-- The result of `tagReferencesChain`. -/
def passes (w : World Obj) : Except Fault (Search Obj) :=
  tagReferencesChain d.agent d.order (d.tagged w).2

/-- What `GetObjectsWithTags` answers for one tag while the chains are printed. -/
def objectsWithTag (tags : Obj → ℕ) (tag : ℕ) : List Obj :=
  (getObjectsWithTags d.objects tags [tag]).map Prod.fst

/-- `printReferencesChainForLeakingNodes` after the passes have left the state `s`. -/
def printed (w : World Obj) (s : Search Obj) :
    Except Fault (List (Option (List MemoryReferer)) × ChainState Obj) :=
  printReferencesChainForLeakingNodes d.agent (d.objectsWithTag s.tags) (s.nodes.dom.card + 1)
    (decide (d.agent.gdata.referenceChainLength > 0)) (d.searched w).1 ⟨s.nodes, []⟩

/-- The loop of `untagAllClasses` over the loaded classes. -/
def untagClasses (tags : Obj → ℕ) : Obj → ℕ := tagLoadedClasses (fun _ => 0) d.loadedClasses tags

/-- `dumperThreadMain` with `findLeaksInTaggedObjects`; without a leak the classes are not tagged and
`untagAllClasses` returns at once. -/
def dumperThreadMain (w : World Obj) : Except Fault (World Obj) := do
  let (lst, begun) := d.searched w
  if lst.isEmpty then
    return ⟨begun.tags, begun.nodes⟩
  let s ← d.passes w
  let (_, st) ← d.printed w s
  let fuel := s.nodes.dom.card + 1
  let st ← freeMemoryForLeakList fuel lst ⟨st.nodes, s.nodesFreed, []⟩
  let (_, st) ← freeClassNodes fuel (d.tagged w).1 st
  return ⟨d.untagClasses s.tags, st.nodes⟩

end DumpInput

end JLeaker
