import JLeaker.Model.LeakDetect
import JLeaker.Proof.FieldIndex

/-!
# Hidden fields

A class may declare a field under a name that one of its superclasses uses as well.
`getFieldOffset` numbers the fields from the topmost class down and stops at the first one that has
the name, so the entry of such a field stands for the field of the superclass.
-/

namespace JLeaker

variable {Class : Type}

namespace ClassHierarchy

variable (H : ClassHierarchy Class)

/-- The names of the fields of the superclasses, from the topmost one down. -/
def inheritedFields (klass : Class) : List String := (H.superclass klass).elim [] H.allFields

/-- The position among all fields of field number `i` of the class itself. -/
def ownPosition (klass : Class) (i : ℕ) : ℕ := (H.inheritedFields klass).length + i

/-- The index JVMTI gives to the field at a position. -/
noncomputable def fieldNumber (klass : Class) (position : ℕ) : ℤ :=
  H.interfaceFields klass + position

theorem fieldNumber_inj {klass : Class} {position position' : ℕ} :
    H.fieldNumber klass position = H.fieldNumber klass position' ↔ position = position' := by
  unfold fieldNumber
  omega

theorem allFields_eq (klass : Class) :
    H.allFields klass = H.inheritedFields klass ++ H.classFields klass := by
  unfold inheritedFields
  rcases super : H.superclass klass with _ | super
  · exact H.allFields_of_none super
  · rw [H.allFields_of_some super]
    rfl

end ClassHierarchy

/-- The first position of a name, in a list that has it at position `i`. -/
theorem exists_findIdx?_of_getElem? {fields : List String} {name : String} {i : ℕ}
    (declared : fields[i]? = some name) :
    ∃ first, fields.findIdx? (· == name) = some first ∧
      (first = i ↔ ∀ j < i, fields[j]? ≠ some name) := by
  rcases found : fields.findIdx? (· == name) with _ | first
  · have absent := List.findIdx?_eq_none_iff.1 found name (List.mem_of_getElem? declared)
    simp at absent
  · obtain ⟨inside, same, before⟩ := List.findIdx?_eq_some_iff_getElem.1 found
    refine ⟨first, rfl, ?_, fun none_before => ?_⟩
    · rintro rfl j hj again
      have other := before j hj
      rw [List.getElem?_eq_getElem (hj.trans inside), Option.some.injEq] at again
      simp [again] at other
    · rcases lt_trichotomy first i with less | equal | greater
      · refine absurd ?_ (none_before first less)
        rw [List.getElem?_eq_getElem inside, eq_of_beq same]
      · exact equal
      · have other := before i greater
        rw [List.getElem?_eq_getElem (greater.trans inside), Option.some.injEq] at declared
        simp [declared] at other

variable (H : ClassHierarchy Class)

/-- An entry with the index of a field drops the references through this field. -/
theorem isFieldIgnored_iff {klass : Class} {classNode thisNode : MemoryNode Class}
    {before after : List IgnoreField} {name : String} {threshold : ℤ} {own position : ℕ}
    (fields : classNode.ignoreFields =
      before ++ ⟨H.fieldNumber klass own, name, threshold⟩ :: after) :
    isFieldIgnored classNode thisNode (H.fieldNumber klass position) = true ↔
      position = own ∧ thisNode.leakSize < threshold ∨
      isFieldIgnored { classNode with ignoreFields := before ++ after } thisNode
        (H.fieldNumber klass position) = true := by
  simp only [isFieldIgnored, fields, List.any_append, List.any_cons, Bool.or_eq_true,
    Bool.and_eq_true, beq_iff_eq, decide_eq_true_eq, H.fieldNumber_inj, eq_comm (a := own)]
  exact or_left_comm

variable [DecidableEq Class]

/-- The index of the own field is found unless the name comes earlier. -/
theorem getFieldOffset_eq_own_iff {klass : Class} {name : String} {i : ℕ}
    (declared : (H.classFields klass)[i]? = some name) :
    getFieldOffset H klass name = H.fieldNumber klass (H.ownPosition klass i) ↔
      name ∉ H.inheritedFields klass ∧ ∀ j < i, (H.classFields klass)[j]? ≠ some name := by
  rw [getFieldOffset_eq, H.allFields_eq, List.findIdx?_append]
  rcases inherited : (H.inheritedFields klass).findIdx? (· == name) with _ | position
  · have absent : name ∉ H.inheritedFields klass := by
      intro mem
      have other := List.findIdx?_eq_none_iff.1 inherited name mem
      simp at other
    obtain ⟨first, found, first_iff⟩ := exists_findIdx?_of_getElem? declared
    rw [found, ← first_iff]
    show H.fieldNumber klass (first + (H.inheritedFields klass).length) = _ ↔ _
    rw [H.fieldNumber_inj, ClassHierarchy.ownPosition]
    simp only [absent, not_false_eq_true, true_and]
    omega
  · obtain ⟨inside, same, -⟩ := List.findIdx?_eq_some_iff_getElem.1 inherited
    have hidden : name ∈ H.inheritedFields klass := eq_of_beq same ▸ List.getElem_mem inside
    show H.fieldNumber klass position = _ ↔ _
    rw [H.fieldNumber_inj, ClassHierarchy.ownPosition]
    simp only [hidden, not_true_eq_false, false_and, iff_false]
    omega

/-- The entry of a field in the list of a class: it stands for the field number `i` that the class
itself declares, and among the entries of the class it is the one that drops the references through
this field. -/
structure MeansOwnField (klass : Class) (name : String) (i : ℕ) : Prop where
  offset : getFieldOffset H klass name = H.fieldNumber klass (H.ownPosition klass i)
  ignored : ∀ (classNode thisNode : MemoryNode Class) (before after : List IgnoreField)
    (threshold : ℤ) (position : ℕ),
    classNode.ignoreFields = before ++ ⟨getFieldOffset H klass name, name, threshold⟩ :: after →
    (isFieldIgnored classNode thisNode (H.fieldNumber klass position) = true ↔
      position = H.ownPosition klass i ∧ thisNode.leakSize < threshold ∨
      isFieldIgnored { classNode with ignoreFields := before ++ after } thisNode
        (H.fieldNumber klass position) = true)

/-- An entry means the own field of the class if and only if no superclass declares a field of that
name and the class itself declares none before it. -/
theorem meansOwnField_iff (klass : Class) (name : String) (i : ℕ)
    (declared : (H.classFields klass)[i]? = some name) :
    MeansOwnField H klass name i ↔
      name ∉ H.inheritedFields klass ∧ ∀ j < i, (H.classFields klass)[j]? ≠ some name := by
  rw [← getFieldOffset_eq_own_iff H declared]
  constructor
  · exact fun means => means.offset
  · intro offset
    refine ⟨offset, fun classNode thisNode before after threshold position fields => ?_⟩
    rw [offset] at fields
    exact isFieldIgnored_iff H fields

theorem Sample.inheritedFields_hiding : hiding.inheritedFields 1 = ["lock", "map"] := by
  rw [ClassHierarchy.inheritedFields, show hiding.superclass 1 = some 0 from rfl, Option.elim_some,
    hiding.allFields_of_none rfl]
  rfl

/-- No superclass has a field of the name `size`. -/
theorem meansOwnField_iff_size : MeansOwnField Sample.hiding 1 "size" 0 := by
  apply (meansOwnField_iff Sample.hiding 1 "size" 0 rfl).2
  rw [Sample.inheritedFields_hiding]
  exact ⟨by decide, fun j hj => absurd hj (Nat.not_lt_zero j)⟩

/-- The entry of the field `map` of the subclass stands for the field of the superclass. -/
theorem hidden_field_matched :
    (Sample.hiding.classFields 1)[1]? = some "map" ∧ ¬ MeansOwnField Sample.hiding 1 "map" 1 := by
  refine ⟨rfl, fun means => ?_⟩
  have own := (getFieldOffset_eq_own_iff Sample.hiding (i := 1) rfl).1 means.offset
  refine own.1 ?_
  rw [Sample.inheritedFields_hiding]
  decide

end JLeaker
