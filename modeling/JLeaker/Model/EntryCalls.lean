import JLeaker.Lib.Logged
import JLeaker.Model.Ledger

/-!
# The `IgnoreField` records of an attach

`ini_handler` makes the records and puts each into the list of a class name in
`ignore_referenced_by`; `fillClassIgnoreList` hands such a list to the node of a class,
`freeMemoryNode` frees the list of its node, and `sm_delete` what is left in the map.  The functions
here are those of an attach and its dump, which write down these calls in their order, up to the fault
if there is one; `EntryMemory.after` is what they leave.
-/

namespace JLeaker

open CString

/-! ## Lists of records -/

/-- An `IgnoreField` record.  The number of records made before it stands for its address, and for
that of its `fieldName`. -/
structure Entry where
  id : ℕ
  contents : IgnoreField

/-- The records, each in the list it is in, and what `myFree` got. -/
structure EntryMemory where
  /-- How many records `ini_handler` has made. -/
  created : ℕ
  ignoreReferencedBy : StrMap (List Entry)
  /-- The list `ignore_fields` of the node at an address. -/
  ignoreFields : ℕ → List Entry
  freedNames : List ℕ
  freedEntries : List ℕ

/-- The calls that change the lists. -/
inductive EntryCall
  /-- `ini_handler`, with a new element for the list of a class. -/
  | iniHandler (classname : Str) (newElement : IgnoreField)
  /-- `fillClassIgnoreList` for the node of a class, with what `getFieldOffset` returns for it. -/
  | fillClassIgnoreList (node : ℕ) (classname : Str) (fieldOffset : String → ℤ)
  /-- The loop of `freeMemoryNode` over `ignore_fields`. -/
  | freeMemoryNode (node : ℕ)
  /-- `sm_delete(gdata->ignore_referenced_by)`. -/
  | smDelete

namespace EntryMemory

/-- `sm_new` has made the map. -/
def init : EntryMemory := ⟨0, [], fun _ => [], [], []⟩

/-- `myFree(e->fieldName)` and `myFree(e)`. -/
def freeEntry (mem : EntryMemory) (e : Entry) : EntryMemory :=
  { mem with freedNames := mem.freedNames ++ [e.id], freedEntries := mem.freedEntries ++ [e.id] }

/-- `free_referenced_by_limit`, and the loop of `freeMemoryNode`. -/
def freeList (mem : EntryMemory) (entries : List Entry) : EntryMemory := entries.foldl freeEntry mem

/-- What a call does. -/
def step (mem : EntryMemory) : EntryCall → EntryMemory
  | .iniHandler classname newElement =>
    let old := (smGet mem.ignoreReferencedBy classname).getD []
    { mem with
      created := mem.created + 1
      ignoreReferencedBy :=
        smPut mem.ignoreReferencedBy classname (⟨mem.created, newElement⟩ :: old) }
  | .fillClassIgnoreList node classname fieldOffset =>
    let ignoreFields := (smGet mem.ignoreReferencedBy classname).getD []
    if ignoreFields.isEmpty then mem
    else { mem with
      ignoreFields := Function.update mem.ignoreFields node (ignoreFields.map fun e =>
        { e with contents := { e.contents with field := fieldOffset e.contents.fieldName } })
      ignoreReferencedBy := smPut mem.ignoreReferencedBy classname [] }
  | .freeMemoryNode node =>
    { mem.freeList (mem.ignoreFields node) with
      ignoreFields := Function.update mem.ignoreFields node [] }
  | .smDelete =>
    { mem.ignoreReferencedBy.foldl (fun mem pair => mem.freeList pair.2) mem with
      ignoreReferencedBy := [] }

/-- The memory after some calls. -/
def after (calls : List EntryCall) : EntryMemory := calls.foldl step init

end EntryMemory

/-! ## The attach (`jleaker.c`) -/

/-- `ini_handler`. -/
def iniHandlerLogged (cp : CPlatform) (calls : List EntryCall) (sectionName name value : Str) :
    Bool × List EntryCall :=
  if sectionName = "ignore_classes".toList then (true, calls)
  else if sectionName = "ignore_referenced_by".toList then
    let (v, endptr) := strtol cp.longBits value
    if endptr ≠ [] then (false, calls)
    else
      match splitAtLastDot name with
      | none => (false, calls)
      | some (classname, fieldName) =>
        if fieldName = [] then (false, calls)
        else (true, calls ++ [.iniHandler classname ⟨0, String.ofList fieldName, toInt v⟩])
  else (true, calls)

/-- `parse_agent_options`, for the calls of `ini_parse` in it. -/
def Attach.entryCalls (cp : CPlatform) (g : AgentGlobals) (a : Attach) : List EntryCall :=
  match parseAgentOptions cp (a.iniResult cp) g.start.settings a.options with
  | .returned _ _ iniFiles =>
    iniFiles.foldl (fun calls name => (iniParse (iniHandlerLogged cp) a.files name calls).2) []
  | _ => []

/-! ## The class nodes (`leak_detect.c`) -/

variable {Obj : Type} [DecidableEq Obj]

/-- One turn of the loop of `tagAllClasses`; `fillClassIgnoreList` returns at once for a class that
is not ready. -/
def JvmDump.tagClassLogged (d : JvmDump Obj) (env : Agent Obj)
    (ignoreFields : Obj → List IgnoreField) (st : List ℕ × AgentState Obj) (klass : Obj) :
    Logged Fault EntryCall (List ℕ × AgentState Obj) :=
  let node := st.2.nodes.fresh env.malloc
  let call := EntryCall.fillClassIgnoreList node (d.jvm.className klass).toList
    (getFieldOffset d.hierarchy klass)
  ⟨.ok (tagClass env ignoreFields st klass),
    if klass ≠ d.jvm.classClass ∧ d.ready klass then [call] else []⟩

/-- `tagAllClasses`. -/
def JvmDump.tagAllClassesLogged (d : JvmDump Obj) (env : Agent Obj)
    (ignoreFields : Obj → List IgnoreField) (classes : List Obj) (s : AgentState Obj) :
    Logged Fault EntryCall (List ℕ × AgentState Obj) :=
  classes.foldlM (d.tagClassLogged env ignoreFields) ([], s)

/-! ## Freeing (`data_struct.c`) -/

/-- The loop of `freeMemoryNode` over the references of `node`. -/
def freeReferersLogged
    (free : Option ℕ → Freeing Obj → Logged Fault EntryCall (Bool × Freeing Obj)) (node : ℕ) :
    List MemoryReferer → Freeing Obj → Logged Fault EntryCall (Freeing Obj)
  | [], st => pure st
  | ref :: rest, st => do
    let (_, st) ← free ref.node st
    freeReferersLogged free node rest
      { st with freedReferers := st.freedReferers ++ [(node, ref)], ledger := st.ledger.free 1 }

/-- `freeMemoryNode`. -/
def freeMemoryNodeLogged :
    ℕ → Option ℕ → Freeing Obj → Logged Fault EntryCall (Bool × Freeing Obj)
  | 0, _, _ => liftM (Except.error Fault.outOfFuel)
  | _ + 1, none, st => pure (false, st)
  | fuel + 1, some node, st => do
    let nd ← deref st.nodes node
    let nodes := st.nodes.modify node fun nd =>
      { nd with referencePointingToMe := nd.referencePointingToMe - 1 }
    if nd.visited then
      return (false, { st with nodes := nodes })
    let nodes := nodes.modify node fun nd =>
      { nd with
        visited := true, classname := none, klass := none, obj := none, ignoreFields := []
        leaksRelated := .new 0 }
    Logged.emit (.freeMemoryNode node)
    let st ← freeReferersLogged (freeMemoryNodeLogged fuel) node nd.start
      { st with nodes := nodes, ledger := st.ledger.free nd.namedBlocks }
    let listed ← deref st.nodes node
    let st := { st with ledger := st.ledger.free listed.fanIn.length }
    let nodes := st.nodes.modify node fun nd => { nd with start := [], fanIn := [] }
    let nd ← deref nodes node
    if (0 : ℤ) < nd.referencePointingToMe then
      return (false, { st with nodes := nodes.modify node fun nd => { nd with visited := false } })
    return (true, { st with
      nodes := nodes.free node, nodesFreed := st.nodesFreed + 1, ledger := st.ledger.free 1 })

/-- `freeMemoryForLeakList`. -/
def freeMemoryForLeakListLogged (fuel : ℕ) :
    List LeakingNode → Freeing Obj → Logged Fault EntryCall (Freeing Obj)
  | [], st => pure st
  | leak :: rest, st => do
    let (_, st) ← freeMemoryNodeLogged fuel (some leak.node) st
    freeMemoryForLeakListLogged fuel rest { st with ledger := st.ledger.free 1 }

/-- The loop of `untagAllClasses` over `classNodes`. -/
def freeClassNodesLogged (fuel : ℕ) :
    List ℕ → Freeing Obj → Logged Fault EntryCall (Freeing Obj)
  | [], st => pure st
  | node :: rest, st => do
    let (freed, st) ← freeMemoryNodeLogged fuel (some node) st
    freeClassNodesLogged fuel rest
      { st with ledger := if freed then st.ledger else (st.ledger.alloc 1).free 1 }

/-! ## The dump -/

/-- `findLeaksInTaggedObjects`. -/
def JvmDump.findLeaksInTaggedObjectsLogged (d : JvmDump Obj) (g : AgentGlobals)
    (nodes : CHeap (MemoryNode Obj)) (l : Ledger) :
    Logged Fault EntryCall (CHeap (MemoryNode Obj) × StrMap (List IgnoreField) × Ledger) := do
  let w : World Obj := ⟨d.tags, nodes⟩
  let ignoreReferencedBy := g.ignoreReferencedBy.elim [] (·.pairs)
  let lst := ((d.input g fun _ => []).searched w).1
  let l := (l.alloc 2).alloc ((1 + newMemoryNodeBlocks) * lst.length)
  if lst.isEmpty then
    return (((d.input g fun _ => []).searched w).2.nodes, ignoreReferencedBy, l.free 2)
  let (lists, ignoreReferencedBy, l) := d.fillClassIgnoreLists ignoreReferencedBy l
  let input := d.input g fun o => (lists.lookup o).getD []
  let tagged ← d.tagAllClassesLogged input.agent input.ignoreFields input.loadedClasses
    (input.searched w).2
  let l := (l.alloc 1).alloc (newMemoryNodeBlocks * d.nodeClasses.length)
  let (s, l) ← heapIterationsCounted input.agent input.order
    input.agent.gdata.referenceChainLength.toNat 0 (Search.start tagged.2, l.alloc 3)
  let fuel := s.nodes.dom.card + 1
  let p ← (lst.foldlM (printLeakCounted d input.agent (input.objectsWithTag s.tags) fuel
    (decide (input.agent.gdata.referenceChainLength > 0))) ⟨⟨s.nodes, []⟩, l.free 3⟩ :
      Except Fault (Printing Obj))
  let st ← freeMemoryForLeakListLogged fuel lst ⟨⟨p.nodes, s.nodesFreed, []⟩, p.ledger⟩
  let st ← freeClassNodesLogged fuel tagged.1 { st with ledger := st.ledger.free 2 }
  return (st.nodes, ignoreReferencedBy, st.ledger.free 1)

/-- `dumperThreadMain`; `releaseThreadData` deletes the map. -/
def JvmDump.dumperThreadMainLogged (d : JvmDump Obj) (m : AgentMemory Obj) :
    Logged Fault EntryCall (AgentMemory Obj) := do
  let l : Ledger := ⟨m.globals.counters, m.jniLocals⟩
  let l := d.loadedClasses.foldl (Ledger.generateTagForClass d) (l.alloc 1)
  let (nodes, ignoreReferencedBy, l) ← d.findLeaksInTaggedObjectsLogged m.globals m.nodes l
  Logged.emit .smDelete
  let l := (l.free (2 * entriesIn ignoreReferencedBy)).free 1
  return {
    globals := { m.globals with
      ignoreClasses := none, ignoreReferencedBy := none, counters := l.counters }
    nodes := nodes
    jniLocals := l.jniLocals }

/-- The calls of an accepted attach, and of its dump to its end or up to a fault. -/
def Attach.dumpCalls (cp : CPlatform) (a : Attach) (d : JvmDump Obj) (m : AgentMemory Obj)
    (g : AgentGlobals) : List EntryCall :=
  a.entryCalls cp m.globals ++ (d.dumperThreadMainLogged { m with globals := g }).log

end JLeaker
