import JLeaker.Model.JvmReference
import Mathlib.Algebra.GroupWithZero.Nat

/-!
# One dump

`findLeaksInTaggedObjects` runs the parts of a dump one after another: the leaks are found, the
classes tagged, the references followed, the chains printed, and the graph is freed.
-/

namespace JLeaker

/-- What a dump reads of the JVM: the answer of `GetObjectsWithTags` with the sizes of the objects,
the loaded classes with their ignored fields, and the references each pass reports. -/
structure Dump (Obj : Type) where
  agent : Agent Obj
  candidates : List (Obj × ℕ)
  size : ℕ → Obj → ℤ
  loadedClasses : List Obj
  ignoreFields : Obj → List IgnoreField
  order : ℕ → List (HeapReference Obj)

namespace Dump

variable {Obj : Type} [DecidableEq Obj] (d : Dump Obj)

/-- The result of `searchObjectsForLeaks`. -/
def searched : List LeakingNode × AgentState Obj :=
  searchObjectsForLeaks d.agent d.size d.candidates .init

/-- The leak list. -/
def leaks : List LeakingNode := d.searched.1

/-- The result of `tagAllClasses`. -/
def tagged : List ℕ × AgentState Obj :=
  tagAllClasses d.agent d.ignoreFields d.loadedClasses d.searched.2

/-- The list `classNodes`. -/
def classNodes : List ℕ := d.tagged.1

/-- The state when the passes begin. -/
def start : Search Obj := Search.start d.tagged.2

/-- The state when `tagReferencesChain` returns. -/
def run : Except Fault (Search Obj) := tagReferencesChain d.agent d.order d.tagged.2

/-- The chains printed for the leaks when the passes have left the state `s`. -/
def chains (objectsWithTag : ℕ → List Obj) (fuel : ℕ) (s : Search Obj) :
    Except Fault (List (Option (List MemoryReferer)) × ChainState Obj) :=
  printReferencesChainForLeakingNodes d.agent objectsWithTag fuel
    (decide (d.agent.gdata.referenceChainLength > 0)) d.leaks ⟨s.nodes, []⟩

end Dump

/-! ## A small JVM -/

namespace Sample

instance objects : NeZero 12 := ⟨by decide⟩

/-- Twelve objects: `0` is `java.lang.Class`, `1` and `2` are classes, `3` to `7` are objects of the
first class and the others of the second. -/
def jvm : Jvm (Fin 12) where
  classOf o := if o < 3 then 0 else if o < 8 then 1 else 2
  classClass := 0
  className o := if o = 0 then "java.lang.Class" else if o = 1 then "java.util.HashMap" else "Holder"

/-- Options under which objects larger than 100 are leaks. -/
def gdata : GlobalData where
  sizeableClassesNum := 1
  sizeThreshold := 100
  maxFanIn := 100
  referenceChainLength := 5
  considerLocalReferences := false
  showUnreachables := false

/-- A dump of that JVM: the leaking objects with their sizes, and the references of every pass. -/
def dump (leaking : List (Fin 12 × ℤ)) (refs : List (HeapReference (Fin 12)))
    (ignoreFields : Fin 12 → List IgnoreField) : Dump (Fin 12) where
  agent := ⟨jvm, gdata, 7, .above⟩
  candidates := leaking.map fun l => (l.1, initialClassTag)
  size _ o := (leaking.lookup o).getD 0
  loadedClasses := [0, 1, 2]
  ignoreFields := ignoreFields
  order _ := refs

/-- A reference through field number `index`. -/
def field (referee referrer : Fin 12) (index : ℤ) : HeapReference (Fin 12) where
  kind := .field
  info := some { index := index }
  referee := referee
  referrer := some referrer
  referrer_isNone := rfl

/-- A reference through static field number `index` of a class. -/
def staticField (referee klass : Fin 12) (index : ℤ) : HeapReference (Fin 12) where
  kind := .staticField
  info := some { index := index }
  referee := referee
  referrer := some klass
  referrer_isNone := rfl

/-- A local variable of thread `threadId`. -/
def stackLocal (referee : Fin 12) (threadId : ℤ) : HeapReference (Fin 12) where
  kind := .stackLocal
  info := some { threadId := threadId }
  referee := referee
  referrer := none
  referrer_isNone := rfl

/-- A JNI local reference of thread `9`. -/
def jniLocal (referee : Fin 12) : HeapReference (Fin 12) where
  kind := .jniLocal
  info := some { threadId := 9 }
  referee := referee
  referrer := none
  referrer_isNone := rfl

/-- A JNI global reference. -/
def jniGlobal (referee : Fin 12) : HeapReference (Fin 12) where
  kind := .jniGlobal
  info := none
  referee := referee
  referrer := none
  referrer_isNone := rfl

/-- What `GetObjectsWithTags` answers while all objects are alive. -/
def objectsWithTag (tags : Fin 12 → ℕ) (tag : ℕ) : List (Fin 12) :=
  (List.finRange 12).filter fun o => tags o = tag

end Sample

end JLeaker
