import JLeaker.Model.AgentOptions
import JLeaker.Model.FieldIndex
import JLeaker.Model.Dump
import JLeaker.Model.XmlOutput

/-!
# `jvm_reference.c`: the texts of references

`printSingleReference` looks up the node of the referrer and describes the reference in a buffer whose
size it computes from the lengths of the names.  The characters of a name stand for its bytes.
-/

namespace JLeaker

open CString

variable {Obj : Type}

/-- What JVMTI says about a method. -/
structure MethodInfo (Obj : Type) where
  declaringClass : Obj
  /-- `JVM_ACC_STATIC` is among the modifiers. -/
  isStatic : Bool
  methodName : Str
  methodDesc : Str
  argumentsSize : ℤ

/-- What printing asks the JVM, and the platform it runs on. -/
structure Printer (Obj : Type) where
  jvm : Jvm Obj
  hierarchy : ClassHierarchy Obj
  methods : ℕ → MethodInfo Obj
  platform : CPlatform

/-- An element as `complete_xml_element` is called for it. -/
structure XmlElement where
  tag : Str
  attrs : List (Str × Str)
deriving DecidableEq

/-- A `leaking-object` element: the object `print_fn` is called on, and the tag and the elements of the
list of references, if one is printed. -/
structure LeakingObject (Obj : Type) where
  classname : String
  leakSize : ℤ
  obj : Obj
  references : Option (Str × List XmlElement)

/-- `UNKNOWN_FIELD_NAME`. -/
def UNKNOWN_FIELD_NAME : Str := "<Unknown>".toList

/-- `snprintf` of a text that is formatted already, into a buffer of `sz` bytes. -/
def snprintf (sz : ℕ) (text : Str) : Str := text.take (sz - 1)

/-- `%lx` of a thread id that was converted to a `long`. -/
def hexadecimal (longBits : ℕ) (n : ℤ) : Str := Nat.toDigits 16 (n % 2 ^ longBits).toNat

namespace Printer

variable [DecidableEq Obj] (pr : Printer Obj)

/-- `get_class_name`. -/
def className (klass : Obj) : Str := (pr.jvm.className klass).toList

/-- The name of a field, or `UNKNOWN_FIELD_NAME`. -/
def fieldName (klass : Obj) (idx : ℤ) : Str :=
  (getFieldNameByIndex pr.hierarchy klass idx).elim UNKNOWN_FIELD_NAME String.toList

omit [DecidableEq Obj] in
/-- The method of a frame, as the texts name it. -/
def methodText (m : MethodInfo Obj) : Str :=
  pr.className m.declaringClass ++ ".".toList ++ m.methodName ++ m.methodDesc

omit [DecidableEq Obj] in
/-- The text of a local variable; `threadId` is the printed id. -/
def stackLocalText (m : MethodInfo Obj) (slot : ℤ) (threadId : Str) : Str :=
  if !m.isStatic ∧ slot = 0 then
    "'this' reference on invocation of method ".toList ++ pr.methodText m ++
      " (thread ID ".toList ++ threadId ++ ")".toList
  else if slot < m.argumentsSize then
    "Argument number ".toList ++ decimal slot ++ " for method invocation of ".toList ++
      pr.methodText m ++ " (thread ID ".toList ++ threadId ++ ")".toList
  else
    "Local variable from method ".toList ++ pr.methodText m ++ " (thread ID ".toList ++ threadId ++
      ", local arg #".toList ++ decimal (slot - m.argumentsSize) ++ ")".toList

/-- The switch of `printSingleReference`: the text it makes, if any. -/
def message (nodes : CHeap (MemoryNode Obj)) (ref : MemoryReferer) : Except Fault (Option Str) := do
  match ref.kind with
  | .staticField =>
    let node ← deref nodes (ref.node.getD 0)
    match node.obj with
    | none => .error .fatalError
    | some klass =>
      let classname := pr.className klass
      let fieldname := pr.fieldName klass ref.info.index
      let sz := classname.length + fieldname.length + 32
      return some (snprintf sz (classname ++ ".".toList ++ fieldname ++ " (Static)".toList))
  | .field =>
    let node ← deref nodes (ref.node.getD 0)
    match node.klass, node.classname with
    | some klass, some classname =>
      let classname := classname.toList
      let fieldname := pr.fieldName klass ref.info.index
      let sz := classname.length + fieldname.length + 32
      return some (snprintf sz (classname ++ ".".toList ++ fieldname))
    | _, _ => .error .invalidPointer
  | .arrayElement =>
    let node ← deref nodes (ref.node.getD 0)
    match node.classname with
    | none => .error .invalidPointer
    | some classname =>
      let classname := classname.toList
      let sz := 48 + classname.length
      return some (snprintf sz (classname ++ " element number ".toList ++ decimal ref.info.index))
  | .constantPool => return some (snprintf 16 ("#".toList ++ decimal ref.info.index))
  | .stackLocal =>
    let m := pr.methods ref.info.method
    let threadId := hexadecimal pr.platform.longBits ref.info.threadId
    let sz := 64 + m.methodDesc.length + m.methodName.length +
      (pr.className m.declaringClass).length
    return some (snprintf sz (pr.stackLocalText m ref.info.slot threadId))
  -- without a `break`, the text made for a JNI local reference is replaced by that of the next case
  | .jniLocal | .jniGlobal => return some "JNI global reference".toList
  | .systemClass => return some "System class heap root reference".toList
  | .monitor => return some "Monitor heap root reference".toList
  | .thread => return some "Thread heap root reference".toList
  | .other => return some "Unknown heap root reference".toList
  | .klass | .classLoader | .signers | .protectionDomain | .interface | .superclass => return none

/-- `printSingleReference`: the elements it prints, and the nodes after the lookup. -/
def printSingleReference (objectsWithTag : ℕ → List Obj) (nodes : CHeap (MemoryNode Obj))
    (ref : MemoryReferer) : Except Fault (List XmlElement × CHeap (MemoryNode Obj)) := do
  let nodes ← ref.node.elim (.ok nodes) fun node =>
    fillClassInMemoryNode pr.jvm objectsWithTag node nodes
  let msg ← pr.message nodes ref
  return (msg.toList.map fun msg => ⟨"reference".toList, [("location".toList, msg)]⟩, nodes)

/-- The loops of `printAllReferencesToNode` and of `printReferenceChainToNode`. -/
def printEach (objectsWithTag : ℕ → List Obj) : List MemoryReferer → CHeap (MemoryNode Obj) →
    Except Fault (List XmlElement × CHeap (MemoryNode Obj))
  | [], nodes => .ok ([], nodes)
  | ref :: refs, nodes => do
    let (element, nodes) ← pr.printSingleReference objectsWithTag nodes ref
    let (elements, nodes) ← printEach objectsWithTag refs nodes
    return (element ++ elements, nodes)

/-- `printAllReferencesToNode` and `printReferenceChainToNode`; none without `isNeedReferences`. -/
def printReferences (objectsWithTag : ℕ → List Obj) :
    Option (Str × List MemoryReferer) → CHeap (MemoryNode Obj) →
      Except Fault (Option (Str × List XmlElement) × CHeap (MemoryNode Obj))
  | none, nodes => .ok (none, nodes)
  | some (tag, refs), nodes => do
    let (elements, nodes) ← pr.printEach objectsWithTag refs nodes
    return (some (tag, elements), nodes)

/-- One turn of the loop of `printReferencesChainForLeakingNodes`, up to the call of `print_fn`: for a
leak that is printed its class, its object, and the references to be printed with their tag. -/
def findLeak (env : Agent Obj) (objectsWithTag : ℕ → List Obj) (fuel : ℕ) (isNeedReferences : Bool)
    (leak : LeakingNode) (st : ChainState Obj) :
    Except Fault (Option (String × Obj × Option (Str × List MemoryReferer)) × ChainState Obj) := do
  let (orderedRefs, st) ←
    if isNeedReferences then
      generateReferencesChainForNode env objectsWithTag fuel leak.node leak.leakNumber st
    else .ok (none, st)
  if orderedRefs.isSome || env.gdata.showUnreachables then
    let nodes ← fillClassInMemoryNode pr.jvm objectsWithTag leak.node st.nodes
    let n ← deref nodes leak.node
    match n.classname, n.obj with
    | some classname, some obj =>
      let refs := if isNeedReferences then
          match orderedRefs.bind (printedChain st) with
          | none => some ("references".toList, n.start)
          | some chain => some ("reference-chain-to-root".toList, chain)
        else none
      return (some (classname, obj, refs), { st with nodes := nodes })
    | _, _ => .error .invalidPointer
  return (none, st)

/-- One turn of the loop of `printReferencesChainForLeakingNodes`, apart from the call of `print_fn`. -/
def printLeak (env : Agent Obj) (objectsWithTag : ℕ → List Obj) (fuel : ℕ) (isNeedReferences : Bool)
    (leak : LeakingNode) (st : ChainState Obj) :
    Except Fault (Option (LeakingObject Obj) × ChainState Obj) := do
  let (found, st) ← pr.findLeak env objectsWithTag fuel isNeedReferences leak st
  match found with
  | none => return (none, st)
  | some (classname, obj, refs) =>
    let (references, nodes) ← pr.printReferences objectsWithTag refs st.nodes
    return (some ⟨classname, leak.leakSize, obj, references⟩, { st with nodes := nodes })

/-- `printReferencesChainForLeakingNodes`, apart from the calls of `print_fn`: what is printed for each
leak. -/
def printReferencesChainForLeakingNodes (env : Agent Obj) (objectsWithTag : ℕ → List Obj) (fuel : ℕ)
    (isNeedReferences : Bool) : List LeakingNode → ChainState Obj →
      Except Fault (List (Option (LeakingObject Obj)) × ChainState Obj)
  | [], st => .ok ([], st)
  | leak :: rest, st => do
    let (printed, st) ← pr.printLeak env objectsWithTag fuel isNeedReferences leak st
    let (printeds, st) ←
      printReferencesChainForLeakingNodes env objectsWithTag fuel isNeedReferences rest st
    return (printed :: printeds, st)

end Printer

namespace Sample

/-- The small JVM with one method; its classes have no supertypes. -/
def printer : Printer (Fin 12) where
  jvm := jvm
  hierarchy := flat
  methods _ := ⟨1, false, "run".toList, "(I)V".toList, 2⟩
  platform := unix64

end Sample

end JLeaker
