import JLeaker.Model.FieldIndex

/-!
# `jvm_reference.c`: the local references of a field lookup

The functions of `FieldIndex` with the JNI local references they work on.  `GetSuperclass` and
`GetImplementedInterfaces` hand out new references, numbered in the order they come; what is passed
to `DeleteLocalRef` is recorded.
-/

namespace JLeaker

namespace Jni

/-- A local reference: its number and the class it refers to. -/
structure LocalRef (Class : Type) where
  id : ℕ
  referent : Class

/-- The state of a lookup: the index, the references in the list of interfaces, the number of the
next reference and the numbers of those deleted. -/
structure Lookup (Class : Type) where
  idx : ℤ
  lstIntr : List (LocalRef Class)
  next : ℕ
  deleted : List ℕ

variable {Class : Type}

/-- `DeleteLocalRef`. -/
def Lookup.deleteLocalRef (st : Lookup Class) (ref : LocalRef Class) : Lookup Class :=
  { st with deleted := st.deleted ++ [ref.id] }

/-- New references to the classes. -/
def Lookup.newRefs (st : Lookup Class) (classes : List Class) : List (LocalRef Class) :=
  classes.mapIdx fun i klass => ⟨st.next + i, klass⟩

/-- `n` new references were handed out. -/
def Lookup.handOut (st : Lookup Class) (n : ℕ) : Lookup Class := { st with next := st.next + n }

theorem Lookup.referent_mem {st : Lookup Class} {classes : List Class} {ref : LocalRef Class}
    (h : ref ∈ st.newRefs classes) : ref.referent ∈ classes := by
  obtain ⟨i, hi, rfl⟩ := List.mem_mapIdx.1 h
  exact List.getElem_mem hi

variable [DecidableEq Class] (H : ClassHierarchy Class)

/-- `findInterfaceInList`: a reference to an interface that is in the list is deleted, another one
goes into the list. -/
def findInterfaceInList (intr : LocalRef Class) (st : Lookup Class) : Bool × Lookup Class :=
  if intr.referent ∈ st.lstIntr.map LocalRef.referent then (true, st.deleteLocalRef intr)
  else (false, { st with lstIntr := st.lstIntr ++ [intr] })

/-- `removeImplementedInterfacesFromIndex`. -/
def removeImplementedInterfacesFromIndex (klass : LocalRef Class) (st : Lookup Class) :
    Lookup Class :=
  let intrPtr := st.newRefs (H.implementedInterfaces klass.referent)
  intrPtr.attach.foldl (fun st ⟨intr, _⟩ =>
    match findInterfaceInList intr st with
    | (true, st) => st
    | (false, st) =>
      let st := removeImplementedInterfacesFromIndex intr st
      { st with idx := st.idx - (H.classFields intr.referent).length })
    (st.handOut intrPtr.length)
termination_by H.rank klass.referent
decreasing_by exact H.rank_interface klass.referent intr.referent (Lookup.referent_mem ‹_›)

/-- The part of `getFieldOffsetInternal` after the superclass: the fields of the class itself. -/
def findFieldOfClass (klass : LocalRef Class) (name : String) (st : Lookup Class) :
    Bool × Lookup Class :=
  match (H.classFields klass.referent).findIdx? (· == name) with
  | some i => (true, { st with idx := st.idx + i })
  | none => (false, { st with idx := st.idx + (H.classFields klass.referent).length })

/-- `getFieldOffsetInternal`. -/
def getFieldOffsetInternal (klass : LocalRef Class) (name : String) (st : Lookup Class) :
    Bool × Lookup Class :=
  let removed := removeImplementedInterfacesFromIndex H klass { st with idx := 0 }
  let st := { removed with idx := st.idx - removed.idx }
  match _h : H.superclass klass.referent with
  | none => findFieldOfClass H klass name st
  | some super =>
    match getFieldOffsetInternal ⟨st.next, super⟩ name (st.handOut 1) with
    | (true, st) => (true, st)
    | (false, st) => findFieldOfClass H klass name st
termination_by H.rank klass.referent
decreasing_by exact H.rank_superclass klass.referent super ‹_›

/-- `freeInterfaceList`. -/
def freeInterfaceList (st : Lookup Class) : Lookup Class :=
  { st.lstIntr.foldl Lookup.deleteLocalRef st with lstIntr := [] }

/-- `getFieldOffset`, with `first` references handed out before the call. -/
def getFieldOffset (klass : LocalRef Class) (name : String) (first : ℕ) : ℤ × Lookup Class :=
  let (res, st) := getFieldOffsetInternal H klass name ⟨0, [], first, []⟩
  let st := freeInterfaceList st
  if res then (st.idx, st) else (-1, st)

/-- The part of `getFieldNameByIndexInternal` after the superclass. -/
def fieldNameOfClass (klass : LocalRef Class) (st : Lookup Class) :
    Option String × Lookup Class :=
  let fields := H.classFields klass.referent
  if st.idx < 0 then (none, st)
  else if st.idx < fields.length then (fields[st.idx.toNat]?, st)
  else (none, { st with idx := st.idx - fields.length })

/-- `getFieldNameByIndexInternal`. -/
def getFieldNameByIndexInternal (klass : LocalRef Class) (st : Lookup Class) :
    Option String × Lookup Class :=
  let st := removeImplementedInterfacesFromIndex H klass st
  match _h : H.superclass klass.referent with
  | none => fieldNameOfClass H klass st
  | some super =>
    match getFieldNameByIndexInternal ⟨st.next, super⟩ (st.handOut 1) with
    | (some field, st) => (some field, st)
    | (none, st) => fieldNameOfClass H klass st
termination_by H.rank klass.referent
decreasing_by exact H.rank_superclass klass.referent super ‹_›

/-- `getFieldNameByIndex`, with `first` references handed out before the call. -/
def getFieldNameByIndex (klass : LocalRef Class) (idx : ℤ) (first : ℕ) :
    Option String × Lookup Class :=
  let (res, st) := getFieldNameByIndexInternal H klass ⟨idx, [], first, []⟩
  (res, freeInterfaceList st)

end Jni

end JLeaker
