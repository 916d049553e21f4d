import Mathlib.Algebra.BigOperators.Finprod
import Mathlib.Logic.Relation
import JLeaker.Model.FieldIndex

/-!
# Field indices

`interfaceFields` and `allFields` are what JVMTI numbers: the fields of the distinct interfaces, then
those of the classes.  Each of the two recursions collects every interface of the class and its
superclasses once (`Collects`) before it looks at a field, so both agree with that numbering and with
each other.
-/

namespace JLeaker

variable {Class : Type}

namespace ClassHierarchy

variable (H : ClassHierarchy Class)

/-- The class and its superclasses, from the topmost one down. -/
def ancestry (klass : Class) : List Class :=
  match _h : H.superclass klass with
  | none => [klass]
  | some super => ancestry super ++ [klass]
termination_by H.rank klass
decreasing_by exact H.rank_superclass klass super ‹_›

/-- The names of the fields of the class and its superclasses, from the topmost one down. -/
def allFields (klass : Class) : List String := (H.ancestry klass).flatMap H.classFields

/-- The interface is a direct superinterface. -/
def Extends (klass intr : Class) : Prop := intr ∈ H.implementedInterfaces klass

/-- The class or one of its superclasses implements the interface. -/
def Implements (klass intr : Class) : Prop :=
  ∃ c ∈ H.ancestry klass, Relation.TransGen H.Extends c intr

/-- The number of fields of all interfaces the class or its superclasses implement. -/
noncomputable def interfaceFields (klass : Class) : ℕ :=
  ∑ᶠ intr ∈ {intr | H.Implements klass intr}, (H.classFields intr).length

/-- The direct superinterfaces of the class and its superclasses. -/
def directInterfaces (klass : Class) : List Class :=
  (H.ancestry klass).flatMap H.implementedInterfaces

/-- The number of fields of a list of interfaces. -/
def fieldCount (intrs : List Class) : ℕ := (intrs.map fun intr => (H.classFields intr).length).sum

theorem ancestry_of_none {klass : Class} (h : H.superclass klass = none) :
    H.ancestry klass = [klass] := by
  rw [ancestry]
  split
  · rfl
  · rename_i super hs
    cases h.symm.trans hs

theorem ancestry_of_some {klass super : Class} (h : H.superclass klass = some super) :
    H.ancestry klass = H.ancestry super ++ [klass] := by
  rw [ancestry]
  split
  · rename_i hs
    cases h.symm.trans hs
  · rename_i super' hs
    cases h.symm.trans hs
    rfl

theorem allFields_of_none {klass : Class} (h : H.superclass klass = none) :
    H.allFields klass = H.classFields klass := by
  simp [allFields, H.ancestry_of_none h]

theorem allFields_of_some {klass super : Class} (h : H.superclass klass = some super) :
    H.allFields klass = H.allFields super ++ H.classFields klass := by
  simp [allFields, H.ancestry_of_some h]

theorem directInterfaces_of_none {klass : Class} (h : H.superclass klass = none) :
    H.directInterfaces klass = H.implementedInterfaces klass := by
  simp [directInterfaces, H.ancestry_of_none h]

theorem directInterfaces_of_some {klass super : Class} (h : H.superclass klass = some super) :
    H.directInterfaces klass = H.directInterfaces super ++ H.implementedInterfaces klass := by
  simp [directInterfaces, H.ancestry_of_some h]

theorem fieldCount_append (l l' : List Class) :
    H.fieldCount (l ++ l') = H.fieldCount l + H.fieldCount l' := by
  simp [fieldCount]

/-! ## Collecting the interfaces -/

/-- The interfaces `new` are those the roots lead to that are not in the list yet, each once. -/
structure Collects (roots lst new : List Class) : Prop where
  nodup : lst.Nodup → (lst ++ new).Nodup
  covers : ∀ i ∈ roots, i ∈ lst ++ new
  closed : ∀ i ∈ new, ∀ j, H.Extends i j → j ∈ lst ++ new
  sound : ∀ i ∈ new, ∃ r ∈ roots, Relation.ReflTransGen H.Extends r i

namespace Collects

variable {H} {roots roots' lst new new' : List Class}

theorem nil (lst : List Class) : H.Collects [] lst [] where
  nodup h := by rwa [List.append_nil]
  covers := by simp
  closed := by simp
  sound := by simp

theorem known {intr : Class} (h : intr ∈ lst) : H.Collects [intr] lst [] where
  nodup hl := by rwa [List.append_nil]
  covers := by simpa using h
  closed := by simp
  sound := by simp

/-- A new interface goes into the list before its own superinterfaces. -/
theorem unknown {intr : Class} (h : intr ∉ lst)
    (rec : H.Collects (H.implementedInterfaces intr) (lst ++ [intr]) new) :
    H.Collects [intr] lst (intr :: new) where
  nodup hl := by
    have : (lst ++ [intr]).Nodup := List.nodup_append.2 ⟨hl, by simp, by
      rintro a ha b hb rfl
      exact h (List.mem_singleton.1 hb ▸ ha)⟩
    simpa using rec.nodup this
  covers := by simp
  closed i hi j hj := by
    have hmem : j ∈ lst ++ [intr] ++ new := by
      rcases List.mem_cons.1 hi with rfl | hi
      · exact rec.covers j hj
      · exact rec.closed i hi j hj
    simpa using hmem
  sound i hi := by
    refine ⟨intr, by simp, ?_⟩
    rcases List.mem_cons.1 hi with rfl | hi
    · exact .refl
    · obtain ⟨r, hr, hpath⟩ := rec.sound i hi
      exact hpath.head hr

theorem append (first : H.Collects roots lst new) (second : H.Collects roots' (lst ++ new) new') :
    H.Collects (roots' ++ roots) lst (new ++ new') where
  nodup h := by
    rw [← List.append_assoc]
    exact second.nodup (first.nodup h)
  covers i hi := by
    rw [← List.append_assoc]
    rcases List.mem_append.1 hi with hi | hi
    · exact second.covers i hi
    · exact List.mem_append_left _ (first.covers i hi)
  closed i hi j hj := by
    rw [← List.append_assoc]
    rcases List.mem_append.1 hi with hi | hi
    · exact List.mem_append_left _ (first.closed i hi j hj)
    · exact second.closed i hi j hj
  sound i hi := by
    rcases List.mem_append.1 hi with hi | hi
    · obtain ⟨r, hr, hpath⟩ := first.sound i hi
      exact ⟨r, List.mem_append_right _ hr, hpath⟩
    · obtain ⟨r, hr, hpath⟩ := second.sound i hi
      exact ⟨r, List.mem_append_left _ hr, hpath⟩

theorem congr (collects : H.Collects roots lst new) (same : ∀ i, i ∈ roots' ↔ i ∈ roots) :
    H.Collects roots' lst new :=
  { collects with
    covers := fun i hi => collects.covers i ((same i).1 hi)
    sound := fun i hi =>
      have ⟨r, hr, hpath⟩ := collects.sound i hi
      ⟨r, (same r).2 hr, hpath⟩ }

/-- Collecting from all direct superinterfaces gives exactly the implemented interfaces. -/
theorem mem_iff {klass : Class} (collects : H.Collects (H.directInterfaces klass) [] new)
    (i : Class) : i ∈ new ↔ H.Implements klass i := by
  constructor
  · intro hi
    obtain ⟨r, hr, hpath⟩ := collects.sound i hi
    obtain ⟨c, hc, hr⟩ := List.mem_flatMap.1 hr
    exact ⟨c, hc, .head' hr hpath⟩
  · rintro ⟨c, hc, hpath⟩
    induction hpath with
    | single h => exact collects.covers _ (List.mem_flatMap.2 ⟨c, hc, h⟩)
    | tail _ h ih => exact collects.closed _ ih _ h

theorem fieldCount_eq [DecidableEq Class] {klass : Class}
    (collects : H.Collects (H.directInterfaces klass) [] new) :
    H.fieldCount new = H.interfaceFields klass := by
  have nodup : new.Nodup := collects.nodup List.nodup_nil
  have set : {intr | H.Implements klass intr} = ↑new.toFinset := by
    ext i
    simp [collects.mem_iff]
  rw [interfaceFields, set, finsum_mem_coe_finset, List.sum_toFinset _ nodup, fieldCount]

end Collects

end ClassHierarchy

/-! ## The recursions -/

variable [DecidableEq Class] (H : ClassHierarchy Class)

/-- One turn of the loop of `removeImplementedInterfacesFromIndex`. -/
def removeInterface (st : ℤ × List Class) (intr : Class) : ℤ × List Class :=
  if intr ∈ st.2 then st
  else
    let st := removeImplementedInterfacesFromIndex H intr (st.1, st.2 ++ [intr])
    (st.1 - (H.classFields intr).length, st.2)

theorem removeImplementedInterfacesFromIndex_eq (klass : Class) (st : ℤ × List Class) :
    removeImplementedInterfacesFromIndex H klass st =
      (H.implementedInterfaces klass).foldl (removeInterface H) st := by
  rw [removeImplementedInterfacesFromIndex,
    ← List.foldl_attach (l := H.implementedInterfaces klass) (f := removeInterface H)]
  congr 1
  funext ⟨idx, lstIntr⟩ ⟨intr, _⟩
  by_cases h : intr ∈ lstIntr <;> simp [findInterfaceInList, removeInterface, h]

/-- The loop collects the interfaces and subtracts their fields, if its calls do. -/
theorem foldl_removeInterface (intrs : List Class)
    (calls : ∀ intr ∈ intrs, ∀ lst, ∃ new, H.Collects (H.implementedInterfaces intr) lst new ∧
      ∀ idx, removeImplementedInterfacesFromIndex H intr (idx, lst) =
        (idx - H.fieldCount new, lst ++ new)) (lst : List Class) :
    ∃ new, H.Collects intrs lst new ∧ ∀ idx,
      intrs.foldl (removeInterface H) (idx, lst) = (idx - H.fieldCount new, lst ++ new) := by
  induction intrs generalizing lst with
  | nil => exact ⟨[], .nil lst, fun idx => by simp [ClassHierarchy.fieldCount]⟩
  | cons intr rest ih =>
    have first : ∃ new, H.Collects [intr] lst new ∧ ∀ idx,
        removeInterface H (idx, lst) intr = (idx - H.fieldCount new, lst ++ new) := by
      by_cases h : intr ∈ lst
      · exact ⟨[], .known h, fun idx => by simp [removeInterface, h, ClassHierarchy.fieldCount]⟩
      · obtain ⟨new, collects, hcall⟩ := calls intr (by simp) (lst ++ [intr])
        refine ⟨intr :: new, .unknown h collects, fun idx => ?_⟩
        simp only [removeInterface, if_neg h, hcall, ClassHierarchy.fieldCount, List.map_cons,
          List.sum_cons, List.append_assoc, List.singleton_append]
        refine Prod.ext ?_ rfl
        simp only [Nat.cast_add]
        omega
    obtain ⟨new, collects, hstep⟩ := first
    obtain ⟨new', collects', hrest⟩ :=
      ih (fun i hi => calls i (List.mem_cons_of_mem _ hi)) (lst ++ new)
    refine ⟨new ++ new', (collects.append collects').congr fun i => ?_, fun idx => ?_⟩
    · simp [or_comm]
    · rw [List.foldl_cons, hstep, hrest, H.fieldCount_append, List.append_assoc]
      refine Prod.ext ?_ rfl
      simp only [Nat.cast_add]
      omega

/-- A call subtracts the fields of the interfaces it is the first to see. -/
theorem removeImplementedInterfacesFromIndex_collects (klass : Class) (lst : List Class) :
    ∃ new, H.Collects (H.implementedInterfaces klass) lst new ∧ ∀ idx,
      removeImplementedInterfacesFromIndex H klass (idx, lst) =
        (idx - H.fieldCount new, lst ++ new) := by
  induction hrank : H.rank klass using Nat.strong_induction_on generalizing klass lst with
  | _ n ih =>
    simp only [removeImplementedInterfacesFromIndex_eq]
    refine foldl_removeInterface H _ (fun intr hintr lst => ?_) lst
    exact ih (H.rank intr) (hrank ▸ H.rank_interface klass intr hintr) intr lst rfl

theorem getFieldOffsetInternal_eq (klass : Class) (name : String) (st : ℤ × List Class) :
    getFieldOffsetInternal H klass name st =
      let removed := removeImplementedInterfacesFromIndex H klass (0, st.2)
      let st := (st.1 - removed.1, removed.2)
      match H.superclass klass with
      | none => findFieldOfClass H klass name st
      | some super =>
        match getFieldOffsetInternal H super name st with
        | (true, st) => (true, st)
        | (false, st) => findFieldOfClass H klass name st := by
  rw [getFieldOffsetInternal]
  rcases H.superclass klass with _ | super
  · rfl
  · rfl

theorem getFieldNameByIndexInternal_eq (klass : Class) (st : ℤ × List Class) :
    getFieldNameByIndexInternal H klass st =
      let st := removeImplementedInterfacesFromIndex H klass st
      match H.superclass klass with
      | none => fieldNameOfClass H klass st
      | some super =>
        match getFieldNameByIndexInternal H super st with
        | (some field, st) => (some field, st)
        | (none, st) => fieldNameOfClass H klass st := by
  rw [getFieldNameByIndexInternal]
  rcases H.superclass klass with _ | super
  · rfl
  · rfl

/-! ## From names to indices -/

omit [DecidableEq Class] in
/-- Looking a name up in one list of fields. -/
def scanFields (fields : List String) (name : String) (st : ℤ × List Class) :
    Bool × ℤ × List Class :=
  match fields.findIdx? (· == name) with
  | some i => (true, st.1 + i, st.2)
  | none => (false, st.1 + fields.length, st.2)

omit [DecidableEq Class] in
/-- Looking a name up in one list after another. -/
theorem scanFields_append (fields fields' : List String) (name : String) (st : ℤ × List Class) :
    scanFields (fields ++ fields') name st =
      match scanFields fields name st with
      | (true, st) => (true, st)
      | (false, st) => scanFields fields' name st := by
  unfold scanFields
  rw [List.findIdx?_append]
  rcases fields.findIdx? (· == name) with _ | i
  · rcases fields'.findIdx? (· == name) with _ | j
    · simp [add_assoc]
    · simp [add_assoc, add_comm (j : ℤ)]
  · rfl

theorem getFieldOffsetInternal_collects (klass : Class) (name : String) (lst : List Class) :
    ∃ new, H.Collects (H.directInterfaces klass) lst new ∧ ∀ idx,
      getFieldOffsetInternal H klass name (idx, lst) =
        scanFields (H.allFields klass) name (idx + H.fieldCount new, lst ++ new) := by
  induction hrank : H.rank klass using Nat.strong_induction_on generalizing klass lst with
  | _ n ih =>
    obtain ⟨new, collects, hremove⟩ := removeImplementedInterfacesFromIndex_collects H klass lst
    simp only [getFieldOffsetInternal_eq H klass, hremove]
    rcases hsuper : H.superclass klass with _ | super
    · refine ⟨new, H.directInterfaces_of_none hsuper ▸ collects, fun idx => ?_⟩
      rw [H.allFields_of_none hsuper, zero_sub, sub_neg_eq_add]
      rfl
    · have hlt := H.rank_superclass klass super hsuper
      obtain ⟨new', collects', hcall⟩ := ih (H.rank super) (hrank ▸ hlt) super (lst ++ new) rfl
      refine ⟨new ++ new', H.directInterfaces_of_some hsuper ▸ collects.append collects',
        fun idx => ?_⟩
      have hcount : idx + ↑(H.fieldCount (new ++ new')) =
          idx - (0 - ↑(H.fieldCount new)) + ↑(H.fieldCount new') := by
        rw [H.fieldCount_append]
        omega
      simp only [hcall, H.allFields_of_some hsuper, scanFields_append, hcount, List.append_assoc]
      rfl

/-! ## From indices to names -/

omit [DecidableEq Class] in
/-- Looking an index up in one list of fields. -/
def pickField (fields : List String) (st : ℤ × List Class) : Option String × ℤ × List Class :=
  if st.1 < 0 then (none, st)
  else if st.1 < fields.length then (fields[st.1.toNat]?, st)
  else (none, st.1 - fields.length, st.2)

omit [DecidableEq Class] in
/-- Two results agree, up to the index that is left when a name was found. -/
def SameName (res res' : Option String × ℤ × List Class) : Prop :=
  res.1 = res'.1 ∧ (res.1 = none → res.2 = res'.2)

omit [DecidableEq Class] in
/-- Looking an index up in one list after another. -/
theorem pickField_append (fields fields' : List String) (st : ℤ × List Class)
    {res : Option String × ℤ × List Class} (same : SameName res (pickField fields st)) :
    SameName (match res with
      | (some field, st) => (some field, st)
      | (none, st) => pickField fields' st) (pickField (fields ++ fields') st) := by
  obtain ⟨idx, lst⟩ := st
  obtain ⟨name, left⟩ := res
  obtain ⟨hname, hleft⟩ := same
  simp only [pickField] at hname hleft
  rcases lt_or_ge idx 0 with hneg | hneg
  · simp only [if_pos hneg] at hname hleft
    obtain rfl := hname
    obtain rfl := hleft rfl
    simp only [pickField, if_pos hneg]
    exact ⟨rfl, fun _ => rfl⟩
  obtain ⟨n, rfl⟩ := Int.eq_ofNat_of_zero_le hneg
  simp only [if_neg (not_lt.2 hneg)] at hname hleft
  rcases lt_or_ge n fields.length with hn | hn
  · have hlt : (n : ℤ) < fields.length := by omega
    simp only [if_pos hlt, Int.toNat_natCast, List.getElem?_eq_getElem hn] at hname
    obtain rfl := hname
    have hlt' : (n : ℤ) < (fields ++ fields').length := by
      rw [List.length_append]
      omega
    simp only [pickField, if_neg (not_lt.2 hneg), if_pos hlt', Int.toNat_natCast]
    rw [List.getElem?_append_left hn, List.getElem?_eq_getElem hn]
    exact ⟨rfl, fun h => by cases h⟩
  · have hge : ¬ (n : ℤ) < fields.length := by omega
    simp only [if_neg hge] at hname hleft
    obtain rfl := hname
    obtain rfl := hleft rfl
    have hsub : (n : ℤ) - fields.length = ((n - fields.length : ℕ) : ℤ) := by omega
    have hlen : ((n - fields.length : ℕ) : ℤ) < fields'.length ↔
        (n : ℤ) < (fields ++ fields').length := by
      rw [List.length_append]
      omega
    simp only [pickField, hsub, if_neg (not_lt.2 hneg), if_neg (not_lt.2 (Int.natCast_nonneg _)),
      hlen, Int.toNat_natCast]
    split_ifs
    · rw [List.getElem?_append_right hn]
      -- the index is in range, so a name is found
      have hlt : n - fields.length < fields'.length := by omega
      rw [List.getElem?_eq_getElem hlt]
      exact ⟨rfl, fun hnone => by cases hnone⟩
    · refine ⟨rfl, fun _ => Prod.ext ?_ rfl⟩
      show ((n - fields.length : ℕ) : ℤ) - fields'.length = n - (fields ++ fields').length
      rw [List.length_append]
      omega

theorem getFieldNameByIndexInternal_collects (klass : Class) (lst : List Class) :
    ∃ new, H.Collects (H.directInterfaces klass) lst new ∧ ∀ idx,
      SameName (getFieldNameByIndexInternal H klass (idx, lst))
        (pickField (H.allFields klass) (idx - H.fieldCount new, lst ++ new)) := by
  induction hrank : H.rank klass using Nat.strong_induction_on generalizing klass lst with
  | _ n ih =>
    obtain ⟨new, collects, hremove⟩ := removeImplementedInterfacesFromIndex_collects H klass lst
    simp only [getFieldNameByIndexInternal_eq H klass, hremove]
    rcases hsuper : H.superclass klass with _ | super
    · refine ⟨new, H.directInterfaces_of_none hsuper ▸ collects, fun idx => ?_⟩
      rw [H.allFields_of_none hsuper]
      exact ⟨rfl, fun _ => rfl⟩
    · have hlt := H.rank_superclass klass super hsuper
      obtain ⟨new', collects', hcall⟩ := ih (H.rank super) (hrank ▸ hlt) super (lst ++ new) rfl
      refine ⟨new ++ new', H.directInterfaces_of_some hsuper ▸ collects.append collects',
        fun idx => ?_⟩
      have hcount : idx - ↑(H.fieldCount (new ++ new')) =
          idx - ↑(H.fieldCount new) - ↑(H.fieldCount new') := by
        rw [H.fieldCount_append]
        omega
      rw [H.allFields_of_some hsuper, hcount, ← List.append_assoc]
      exact pickField_append _ _ _ (hcall (idx - H.fieldCount new))

/-! ## The numbering -/

theorem getFieldOffset_eq (klass : Class) (name : String) :
    getFieldOffset H klass name =
      match (H.allFields klass).findIdx? (· == name) with
      | some position => (H.interfaceFields klass : ℤ) + position
      | none => -1 := by
  obtain ⟨new, collects, hcall⟩ := getFieldOffsetInternal_collects H klass name []
  rw [getFieldOffset, hcall, collects.fieldCount_eq, scanFields]
  rcases (H.allFields klass).findIdx? (· == name) with _ | position
  · rfl
  · simp

theorem getFieldNameByIndex_eq (klass : Class) (idx : ℤ) :
    getFieldNameByIndex H klass idx =
      if idx < H.interfaceFields klass then none
      else (H.allFields klass)[(idx - H.interfaceFields klass).toNat]? := by
  obtain ⟨new, collects, hcall⟩ := getFieldNameByIndexInternal_collects H klass []
  rw [getFieldNameByIndex, (hcall idx).1, collects.fieldCount_eq]
  by_cases hneg : idx < H.interfaceFields klass
  · rw [if_pos hneg, pickField, if_pos (by omega)]
  · rw [if_neg hneg, pickField, if_neg (by omega)]
    split_ifs with hlt
    · rfl
    · rw [List.getElem?_eq_none (by omega)]

/-- Encoding and decoding agree with the numbering of JVMTI and with each other. -/
theorem fieldIndex_correct (klass : Class) :
    (∀ name, getFieldOffset H klass name =
      match (H.allFields klass).findIdx? (· == name) with
      | some position => (H.interfaceFields klass : ℤ) + position
      | none => -1) ∧
    (∀ idx, getFieldNameByIndex H klass idx =
      if idx < H.interfaceFields klass then none
      else (H.allFields klass)[(idx - H.interfaceFields klass).toNat]?) ∧
    ∀ name, getFieldOffset H klass name ≠ -1 →
      getFieldNameByIndex H klass (getFieldOffset H klass name) = some name := by
  refine ⟨getFieldOffset_eq H klass, getFieldNameByIndex_eq H klass, fun name found => ?_⟩
  rw [getFieldOffset_eq] at found ⊢
  rcases hfind : (H.allFields klass).findIdx? (· == name) with _ | position
  · rw [hfind] at found
    exact absurd rfl found
  · obtain ⟨hlt, hname, _⟩ := List.findIdx?_eq_some_iff_getElem.1 hfind
    have hge : ¬ (H.interfaceFields klass : ℤ) + position < H.interfaceFields klass := by omega
    have hsub : ((H.interfaceFields klass : ℤ) + position - H.interfaceFields klass).toNat =
        position := by omega
    rw [getFieldNameByIndex_eq, if_neg hge, hsub, List.getElem?_eq_getElem hlt]
    exact congrArg some (eq_of_beq hname)

end JLeaker
