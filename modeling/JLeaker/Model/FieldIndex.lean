import Mathlib.Data.Int.Notation
import Mathlib.Data.List.Basic

/-!
# `jvm_reference.c`: field indices

JVMTI numbers the fields of a class: first come the fields of all interfaces the class and its
superclasses implement, then those of the superclasses from the topmost one down, then its own.
`getFieldOffset` computes the number of a field from its name, `getFieldNameByIndex` the name from
the number.
-/

namespace JLeaker

/-- What `GetSuperclass`, `GetImplementedInterfaces` and `GetClassFields` answer.  The rank witnesses
that the hierarchy is acyclic. -/
structure ClassHierarchy (Class : Type) where
  superclass : Class → Option Class
  /-- The direct superinterfaces. -/
  implementedInterfaces : Class → List Class
  /-- The names of the fields the class itself declares. -/
  classFields : Class → List String
  rank : Class → ℕ
  rank_superclass : ∀ klass super, superclass klass = some super → rank super < rank klass
  rank_interface : ∀ klass, ∀ intr ∈ implementedInterfaces klass, rank intr < rank klass

variable {Class : Type} [DecidableEq Class] (H : ClassHierarchy Class)

/-- `findInterfaceInList`: whether the interface is in the list, and the list with it. -/
def findInterfaceInList (lstIntr : List Class) (intr : Class) : Bool × List Class :=
  if intr ∈ lstIntr then (true, lstIntr) else (false, lstIntr ++ [intr])

/-- `removeImplementedInterfacesFromIndex`: the index and the list of the interfaces seen. -/
def removeImplementedInterfacesFromIndex (klass : Class) (st : ℤ × List Class) : ℤ × List Class :=
  (H.implementedInterfaces klass).attach.foldl (fun (idx, lstIntr) ⟨intr, _⟩ =>
    match findInterfaceInList lstIntr intr with
    | (true, lstIntr) => (idx, lstIntr)
    | (false, lstIntr) =>
      let (idx, lstIntr) := removeImplementedInterfacesFromIndex intr (idx, lstIntr)
      (idx - (H.classFields intr).length, lstIntr)) st
termination_by H.rank klass
decreasing_by exact H.rank_interface klass intr ‹_›

/-- The part of `getFieldOffsetInternal` after the superclass: the fields of the class itself. -/
def findFieldOfClass (klass : Class) (name : String) (st : ℤ × List Class) :
    Bool × ℤ × List Class :=
  match (H.classFields klass).findIdx? (· == name) with
  | some i => (true, st.1 + i, st.2)
  | none => (false, st.1 + (H.classFields klass).length, st.2)

/-- `getFieldOffsetInternal`: whether the field was found, the index and the interfaces seen. -/
def getFieldOffsetInternal (klass : Class) (name : String) (st : ℤ × List Class) :
    Bool × ℤ × List Class :=
  let (tmpIdx, lstIntr) := removeImplementedInterfacesFromIndex H klass (0, st.2)
  let idx := st.1 - tmpIdx
  match _h : H.superclass klass with
  | none => findFieldOfClass H klass name (idx, lstIntr)
  | some super =>
    match getFieldOffsetInternal super name (idx, lstIntr) with
    | (true, st) => (true, st)
    | (false, st) => findFieldOfClass H klass name st
termination_by H.rank klass
decreasing_by exact H.rank_superclass klass super ‹_›

/-- `getFieldOffset`. -/
def getFieldOffset (klass : Class) (name : String) : ℤ :=
  let (res, idx, _) := getFieldOffsetInternal H klass name (0, [])
  if res then idx else -1

/-- The part of `getFieldNameByIndexInternal` after the superclass. -/
def fieldNameOfClass (klass : Class) (st : ℤ × List Class) : Option String × ℤ × List Class :=
  let fields := H.classFields klass
  if st.1 < 0 then (none, st)
  else if st.1 < fields.length then (fields[st.1.toNat]?, st)
  else (none, st.1 - fields.length, st.2)

/-- `getFieldNameByIndexInternal`: the name, the index that is left and the interfaces seen. -/
def getFieldNameByIndexInternal (klass : Class) (st : ℤ × List Class) :
    Option String × ℤ × List Class :=
  let st := removeImplementedInterfacesFromIndex H klass st
  match _h : H.superclass klass with
  | none => fieldNameOfClass H klass st
  | some super =>
    match getFieldNameByIndexInternal super st with
    | (some field, st) => (some field, st)
    | (none, st) => fieldNameOfClass H klass st
termination_by H.rank klass
decreasing_by exact H.rank_superclass klass super ‹_›

/-- `getFieldNameByIndex`, without the index it leaves in `*idx`. -/
def getFieldNameByIndex (klass : Class) (idx : ℤ) : Option String :=
  (getFieldNameByIndexInternal H klass (idx, [])).1

namespace Sample

/-- Classes with three fields each, and without superclasses and interfaces. -/
def flat : ClassHierarchy (Fin 12) where
  superclass _ := none
  implementedInterfaces _ := []
  classFields _ := ["table", "next", "owner"]
  rank _ := 0
  rank_superclass _ _ h := absurd h.symm (Option.some_ne_none _)
  rank_interface _ _ h := absurd h List.not_mem_nil

end Sample

/-- Class 1 hides the field `map` of its superclass 0 behind one of its own. -/
def Sample.hiding : ClassHierarchy (Fin 2) where
  superclass klass := if klass = 1 then some 0 else none
  implementedInterfaces _ := []
  classFields klass := if klass = 1 then ["size", "map"] else ["lock", "map"]
  rank klass := klass
  rank_superclass klass super h := by
    split_ifs at h with hklass
    cases h
    rw [hklass]
    decide
  rank_interface _ _ h := absurd h List.not_mem_nil

end JLeaker
