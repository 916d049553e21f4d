import JLeaker.Model.JobjectPrint
import JLeaker.Model.PrintReference

/-!
# The report of a dump

`dumperThreadMain` prints one XML document: the declaration, and a `memory-leaks` element with a
`leaking-object` element for each leak that is printed.  The functions here put the texts of the other
modules together in the order of the source; `xml_depth` is passed from call to call.
-/

namespace JLeaker

open CString

variable {Obj : Type} (methods : JavaMethods Obj) (f : OutputStream) (numElementsToDump : ℤ)

/-- `begin_xml_output`. -/
def beginXmlOutput : Str := myPrintf f "<?xml version=\"1.0\" encoding=\"ISO-8859-1\"?>\n".toList

/-- The `print_fn` of the class descriptor with that index; a NULL `print_fn` is called for others. -/
def printFn (idx : ℕ) (xmlDepth : ℕ) (obj : Obj) : Except PrintFault Str :=
  match idx with
  | 0 => printCollection methods f xmlDepth numElementsToDump obj
  | 1 => printMap methods f xmlDepth numElementsToDump obj
  | 2 => printMultiMap methods f xmlDepth numElementsToDump obj
  | _ => .error .nullReceiver

/-- `printAllReferencesToNode` and `printReferenceChainToNode`: the text, and the new depth. -/
def printReferenceElements (xmlDepth : ℕ) (tag : Str) (elements : List XmlElement) : Str × ℕ :=
  let (opening, xmlDepth) := openXmlElement f xmlDepth tag []
  let texts := elements.flatMap fun e => completeXmlElement f xmlDepth e.tag e.attrs
  let (closing, xmlDepth) := closeXmlElement f xmlDepth tag
  (opening ++ texts ++ closing, xmlDepth)

/-- The part under `if (isNeedReferences)`. -/
def printReferencesOf (xmlDepth : ℕ) : Option (Str × List XmlElement) → Str × ℕ
  | none => ([], xmlDepth)
  | some (tag, elements) => printReferenceElements f xmlDepth tag elements

/-- The text of one turn of the loop of `printReferencesChainForLeakingNodes`, for a leak it prints,
and the new depth. -/
def printLeakingObject (xmlDepth : ℕ) (leak : ℕ × LeakingObject Obj) :
    Except PrintFault (Str × ℕ) := do
  let (idx, lo) := leak
  let (opening, xmlDepth) := openXmlElement f xmlDepth "leaking-object".toList
    [("class".toList, lo.classname.toList), ("size".toList, snprintf 32 (decimal lo.leakSize))]
  let contents ← printFn methods f numElementsToDump idx xmlDepth lo.obj
  let (references, xmlDepth) := printReferencesOf f xmlDepth lo.references
  let (closing, xmlDepth) := closeXmlElement f xmlDepth "leaking-object".toList
  return (opening ++ contents ++ references ++ closing, xmlDepth)

/-- The loop of `printReferencesChainForLeakingNodes`. -/
def printLeakingObjects : List (ℕ × LeakingObject Obj) → ℕ → Except PrintFault (Str × ℕ)
  | [], xmlDepth => .ok ([], xmlDepth)
  | leak :: leaks, xmlDepth => do
    let (text, xmlDepth) ← printLeakingObject methods f numElementsToDump xmlDepth leak
    let (texts, xmlDepth) ← printLeakingObjects leaks xmlDepth
    return (text ++ texts, xmlDepth)

/-- What `dumperThreadMain` prints around the elements for the leaks, and the last depth. -/
def reportText (texts : Str) (xmlDepth : ℕ) : Str × ℕ :=
  let (opening, _) := openXmlElement f 0 "memory-leaks".toList []
  let (closing, xmlDepth) := closeXmlElement f xmlDepth "memory-leaks".toList
  (beginXmlOutput f ++ opening ++ texts ++ closing, xmlDepth)

/-- What `dumperThreadMain` prints, and the last depth; `establish_connection` has set `xml_depth` to
zero. -/
def printReport (leaks : List (ℕ × LeakingObject Obj)) : Except PrintFault (Str × ℕ) := do
  let (texts, xmlDepth) ← printLeakingObjects methods f numElementsToDump leaks
    (openXmlElement f 0 "memory-leaks".toList []).2
  return reportText f texts xmlDepth

/-- The indices of the class descriptors whose `print_fn` the leaks of `searchObjectsForLeaks` get. -/
def leakDescriptors (env : Agent Obj) (size : ℕ → Obj → ℤ) (candidates : List (Obj × ℕ)) : List ℕ :=
  candidates.filterMap fun (obj, tag) =>
    let idx : ℤ := (tag : ℤ) - initialClassTag
    let size := if 0 ≤ idx ∧ idx < env.gdata.sizeableClassesNum then size idx.toNat obj else 0
    if size > env.gdata.sizeThreshold then some idx.toNat else none

/-- The leaks that are printed, each with its class descriptor. -/
def printedLeaks (descriptors : List ℕ) (printed : List (Option (LeakingObject Obj))) :
    List (ℕ × LeakingObject Obj) :=
  (descriptors.zip printed).filterMap fun (idx, leak) => leak.map (idx, ·)

/-! ## A whole dump -/

/-- What ends a dump: a fault of the agent's own functions, or one of a `print_fn`. -/
inductive DumpFault
  | agent (fault : Fault)
  | print (fault : PrintFault)
deriving DecidableEq

section

variable [DecidableEq Obj] (pr : Printer Obj) (env : Agent Obj) (objectsWithTag : ℕ → List Obj)
  (fuel : ℕ) (isNeedReferences : Bool)

/-- One turn of the loop of `printReferencesChainForLeakingNodes` with its text: `print_fn` is called
after the chain has been searched for, and before the references are printed. -/
def reportLeak (idx : ℕ) (leak : LeakingNode) (xmlDepth : ℕ) (st : ChainState Obj) :
    Except DumpFault (Option (LeakingObject Obj) × Str × ℕ × ChainState Obj) := do
  let (found, st) ← (pr.findLeak env objectsWithTag fuel isNeedReferences leak st).mapError .agent
  match found with
  | none => return (none, [], xmlDepth, st)
  | some (classname, obj, refs) =>
    let (opening, xmlDepth) := openXmlElement f xmlDepth "leaking-object".toList
      [("class".toList, classname.toList), ("size".toList, snprintf 32 (decimal leak.leakSize))]
    let contents ← (printFn methods f numElementsToDump idx xmlDepth obj).mapError .print
    let (references, nodes) ← (pr.printReferences objectsWithTag refs st.nodes).mapError .agent
    let (texts, xmlDepth) := printReferencesOf f xmlDepth references
    let (closing, xmlDepth) := closeXmlElement f xmlDepth "leaking-object".toList
    return (some ⟨classname, leak.leakSize, obj, references⟩, opening ++ contents ++ texts ++ closing,
      xmlDepth, { st with nodes := nodes })

/-- `printReferencesChainForLeakingNodes` with its text; each leak comes with the index of the class
descriptor its `print_fn` is from. -/
def reportLeaks : List (ℕ × LeakingNode) → ℕ → ChainState Obj →
    Except DumpFault (List (Option (LeakingObject Obj)) × Str × ℕ × ChainState Obj)
  | [], xmlDepth, st => .ok ([], [], xmlDepth, st)
  | (idx, leak) :: rest, xmlDepth, st => do
    let (printed, text, xmlDepth, st) ← reportLeak methods f numElementsToDump pr env objectsWithTag
      fuel isNeedReferences idx leak xmlDepth st
    let (printeds, texts, xmlDepth, st) ← reportLeaks rest xmlDepth st
    return (printed :: printeds, text ++ texts, xmlDepth, st)

end

/-- What is seen of a dump: the leaks that are printed, the text of the report and the last depth, the
number of classes reported as not freed, and the nodes that were freed and that are left in the end. -/
structure DumpOutcome (Obj : Type) where
  printed : List (Option (LeakingObject Obj))
  report : Str × ℕ
  classesNotFreed : ℕ
  nodesFreed : ℕ
  nodesLeft : ℕ

namespace Dump

variable [DecidableEq Obj] (d : Dump Obj) (pr : Printer Obj) (alive : List Obj)

/-- What `GetObjectsWithTags` answers for one tag, while the objects `alive` are not collected. -/
def aliveWithTag (tags : Obj → ℕ) (tag : ℕ) : List Obj := alive.filter fun o => tags o = tag

/-- The leaks in their order, each with its class descriptor. -/
def describedLeaks : List (ℕ × LeakingNode) :=
  (leakDescriptors d.agent d.size d.candidates).zip d.leaks

/-- `findLeaksInTaggedObjects` with its report. -/
def outcome : Except DumpFault (DumpOutcome Obj) := do
  let xmlDepth := (openXmlElement f 0 "memory-leaks".toList []).2
  if d.leaks.isEmpty then
    return ⟨[], reportText f [] xmlDepth, 0, d.searched.2.nodesFreed, d.searched.2.nodes.dom.card⟩
  let s ← d.run.mapError .agent
  let fuel := s.nodes.dom.card + 1
  let (printed, texts, xmlDepth, st) ← reportLeaks methods f numElementsToDump pr d.agent
    (aliveWithTag alive s.tags) fuel (decide (d.agent.gdata.referenceChainLength > 0))
    d.describedLeaks xmlDepth ⟨s.nodes, []⟩
  let st ← (freeMemoryForLeakList fuel d.leaks ⟨st.nodes, s.nodesFreed, []⟩).mapError .agent
  let (notFreed, st) ← (freeClassNodes fuel d.classNodes st).mapError .agent
  return ⟨printed, reportText f texts xmlDepth, notFreed.length, st.nodesFreed, st.nodes.dom.card⟩

end Dump

namespace Sample

/-- Every object is its own iterator over nothing but itself, with the text `"x"`. -/
def javaMethods : JavaMethods (Fin 12) where
  toString o := some o
  getKey o := some o
  getValue o := some o
  entrySet o := some o
  entries o := some o
  iterator o := some [some o]
  getStringUTFChars _ := some "\"x\"".toList

end Sample

end JLeaker
