import JLeaker.Model.Dump
import JLeaker.Model.LocalRefs
import JLeaker.Proof.FieldIndex

/-!
# Local references of the field lookups

A reference to an interface is deleted at once when the interface is known already, and with the
list at the end otherwise.  A reference to a superclass is never deleted (`Loses`), so a lookup
returns what it obtained just for the classes without a superclass.
-/

namespace JLeaker

variable {Class : Type}

theorem ClassHierarchy.mem_ancestry_self (H : ClassHierarchy Class) (klass : Class) :
    klass ∈ H.ancestry klass := by
  rcases hsuper : H.superclass klass with _ | super
  · rw [H.ancestry_of_none hsuper]
    exact List.mem_singleton_self klass
  · rw [H.ancestry_of_some hsuper]
    exact List.mem_append_right _ (List.mem_singleton_self klass)

namespace Jni

/-! ## Where the references are -/

/-- Each reference from `first` on is held by the callers, in the list or deleted, and that once. -/
structure Accounted (first : ℕ) (held : List ℕ) (st : Lookup Class) : Prop where
  le : first ≤ st.next
  count : ∀ id, held.count id + (st.lstIntr.map LocalRef.id).count id + st.deleted.count id =
    if first ≤ id ∧ id < st.next then 1 else 0

namespace Accounted

variable {first : ℕ} {held : List ℕ} {st : Lookup Class}

theorem start (idx : ℤ) (first : ℕ) : Accounted first [] (⟨idx, [], first, []⟩ : Lookup Class) where
  le := le_rfl
  count id := by
    rw [if_neg (by show ¬ (first ≤ id ∧ id < first); omega)]
    rfl

/-- The index says nothing about the references. -/
theorem setIdx (h : Accounted first held st) (idx : ℤ) :
    Accounted first held { st with idx := idx } :=
  ⟨h.le, h.count⟩

theorem map_id_newRefs (st : Lookup Class) (classes : List Class) :
    (st.newRefs classes).map LocalRef.id = List.range' st.next classes.length := by
  apply List.ext_getElem
  · simp [Lookup.newRefs]
  · intro i hi hi'
    simp [Lookup.newRefs]

/-- New references are held by the function that obtains them. -/
theorem handOut (h : Accounted first held st) (n : ℕ) :
    Accounted first (List.range' st.next n ++ held) (st.handOut n) where
  le := h.le.trans (Nat.le_add_right _ _)
  count id := by
    have before := h.count id
    have hle := h.le
    show (List.range' st.next n ++ held).count id + (st.lstIntr.map LocalRef.id).count id +
      st.deleted.count id = if first ≤ id ∧ id < st.next + n then 1 else 0
    rw [List.count_append, List.count_range_1']
    split_ifs at before ⊢ <;> omega

/-- A reference that is no longer held went into the list or was deleted. -/
theorem findInterfaceInList [DecidableEq Class] {intr : LocalRef Class}
    (h : Accounted first (intr.id :: held) st) :
    Accounted first held (findInterfaceInList intr st).2 := by
  unfold Jni.findInterfaceInList
  split_ifs
  · refine ⟨h.le, fun id => Eq.trans ?_ (h.count id)⟩
    show held.count id + (st.lstIntr.map LocalRef.id).count id +
      (st.deleted ++ [intr.id]).count id = _
    simp only [List.count_append, List.count_cons, List.count_nil]
    omega
  · refine ⟨h.le, fun id => Eq.trans ?_ (h.count id)⟩
    show held.count id + ((st.lstIntr ++ [intr]).map LocalRef.id).count id +
      st.deleted.count id = _
    simp only [List.map_append, List.map_cons, List.map_nil, List.count_append, List.count_cons,
      List.count_nil]
    omega

theorem deleteLocalRefs (refs : List (LocalRef Class)) (st : Lookup Class) :
    refs.foldl Lookup.deleteLocalRef st =
      { st with deleted := st.deleted ++ refs.map LocalRef.id } := by
  induction refs generalizing st with
  | nil => simp
  | cons ref refs ih =>
    rw [List.foldl_cons, ih]
    simp [Lookup.deleteLocalRef]

/-- After the list is freed, a reference is deleted or still held. -/
theorem freeInterfaceList (h : Accounted first held st) (id : ℕ) :
    held.count id + (freeInterfaceList st).deleted.count id =
      if first ≤ id ∧ id < (Jni.freeInterfaceList st).next then 1 else 0 := by
  unfold Jni.freeInterfaceList
  rw [deleteLocalRefs]
  show held.count id + (st.deleted ++ st.lstIntr.map LocalRef.id).count id =
    if first ≤ id ∧ id < st.next then 1 else 0
  rw [← h.count id, List.count_append]
  omega

end Accounted

/-! ## The recursions -/

variable [DecidableEq Class] (H : ClassHierarchy Class)

/-- One turn of the loop of `removeImplementedInterfacesFromIndex`. -/
def removeInterface (st : Lookup Class) (intr : LocalRef Class) : Lookup Class :=
  match findInterfaceInList intr st with
  | (true, st) => st
  | (false, st) =>
    let st := removeImplementedInterfacesFromIndex H intr st
    { st with idx := st.idx - (H.classFields intr.referent).length }

theorem removeImplementedInterfacesFromIndex_eq (klass : LocalRef Class) (st : Lookup Class) :
    removeImplementedInterfacesFromIndex H klass st =
      (st.newRefs (H.implementedInterfaces klass.referent)).foldl (removeInterface H)
        (st.handOut (H.implementedInterfaces klass.referent).length) := by
  rw [removeImplementedInterfacesFromIndex, Lookup.newRefs, List.length_mapIdx, ← Lookup.newRefs]
  rw [← List.foldl_attach (f := removeInterface H)]
  rfl

/-- What `getFieldOffsetInternal` does before it looks at the superclass. -/
def removeFromOffset (klass : LocalRef Class) (st : Lookup Class) : Lookup Class :=
  let removed := removeImplementedInterfacesFromIndex H klass { st with idx := 0 }
  { removed with idx := st.idx - removed.idx }

theorem getFieldOffsetInternal_eq (klass : LocalRef Class) (name : String) (st : Lookup Class) :
    getFieldOffsetInternal H klass name st =
      let st := removeFromOffset H klass st
      match H.superclass klass.referent with
      | none => findFieldOfClass H klass name st
      | some super =>
        match getFieldOffsetInternal H ⟨st.next, super⟩ name (st.handOut 1) with
        | (true, st) => (true, st)
        | (false, st) => findFieldOfClass H klass name st := by
  rw [getFieldOffsetInternal]
  rcases H.superclass klass.referent with _ | super
  · rfl
  · rfl

theorem getFieldNameByIndexInternal_eq (klass : LocalRef Class) (st : Lookup Class) :
    getFieldNameByIndexInternal H klass st =
      let st := removeImplementedInterfacesFromIndex H klass st
      match H.superclass klass.referent with
      | none => fieldNameOfClass H klass st
      | some super =>
        match getFieldNameByIndexInternal H ⟨st.next, super⟩ (st.handOut 1) with
        | (some field, st) => (some field, st)
        | (none, st) => fieldNameOfClass H klass st := by
  rw [getFieldNameByIndexInternal]
  rcases H.superclass klass.referent with _ | super
  · rfl
  · rfl

/-! ## Without the references -/

/-- The index and the interfaces of the list, without the references. -/
def Lookup.erase (st : Lookup Class) : ℤ × List Class := (st.idx, st.lstIntr.map LocalRef.referent)

omit [DecidableEq Class] in
theorem map_referent_newRefs (st : Lookup Class) (classes : List Class) :
    (st.newRefs classes).map LocalRef.referent = classes := by
  apply List.ext_getElem
  · simp [Lookup.newRefs]
  · intro i hi hi'
    simp [Lookup.newRefs]

/-- One turn of the loop, if its call does the same. -/
theorem removeInterface_erase {intr : LocalRef Class}
    (call : ∀ st, (removeImplementedInterfacesFromIndex H intr st).erase =
      JLeaker.removeImplementedInterfacesFromIndex H intr.referent st.erase) (st : Lookup Class) :
    (removeInterface H st intr).erase = JLeaker.removeInterface H st.erase intr.referent := by
  unfold removeInterface findInterfaceInList JLeaker.removeInterface
  by_cases known : intr.referent ∈ st.lstIntr.map LocalRef.referent
  · rw [if_pos known, if_pos (show intr.referent ∈ st.erase.2 from known)]
    rfl
  · rw [if_neg known, if_neg (show intr.referent ∉ st.erase.2 from known)]
    have added := call { st with lstIntr := st.lstIntr ++ [intr] }
    have erased : Lookup.erase { st with lstIntr := st.lstIntr ++ [intr] } =
        (st.erase.1, st.erase.2 ++ [intr.referent]) := by
      simp [Lookup.erase]
    rw [erased] at added
    simp only [← added]
    rfl

theorem removeImplementedInterfacesFromIndex_erase (klass : LocalRef Class) (st : Lookup Class) :
    (removeImplementedInterfacesFromIndex H klass st).erase =
      JLeaker.removeImplementedInterfacesFromIndex H klass.referent st.erase := by
  induction hrank : H.rank klass.referent using Nat.strong_induction_on generalizing klass st with
  | _ n ih =>
    rw [removeImplementedInterfacesFromIndex_eq, JLeaker.removeImplementedInterfacesFromIndex_eq]
    have turns : ∀ refs : List (LocalRef Class),
        (∀ ref ∈ refs, ref.referent ∈ H.implementedInterfaces klass.referent) → ∀ st,
        (refs.foldl (removeInterface H) st).erase =
          (refs.map LocalRef.referent).foldl (JLeaker.removeInterface H) st.erase := by
      intro refs
      induction refs with
      | nil => exact fun _ _ => rfl
      | cons intr rest ihrest =>
        intro mem st
        have hlt := H.rank_interface klass.referent intr.referent (mem intr List.mem_cons_self)
        rw [List.foldl_cons, List.map_cons, List.foldl_cons,
          ihrest fun ref href => mem ref (List.mem_cons_of_mem _ href),
          removeInterface_erase H fun st => ih _ (hrank ▸ hlt) intr st rfl]
    rw [turns _ fun ref href => Lookup.referent_mem href, map_referent_newRefs]
    rfl

theorem removeFromOffset_erase (klass : LocalRef Class) (st : Lookup Class) :
    (removeFromOffset H klass st).erase =
      let removed :=
        JLeaker.removeImplementedInterfacesFromIndex H klass.referent (0, st.erase.2)
      (st.erase.1 - removed.1, removed.2) := by
  have removed := removeImplementedInterfacesFromIndex_erase H klass { st with idx := 0 }
  exact congrArg (fun removed : ℤ × List Class => (st.idx - removed.1, removed.2)) removed

omit [DecidableEq Class] in
theorem findFieldOfClass_erase (klass : LocalRef Class) (name : String) (st : Lookup Class) :
    Prod.map id Lookup.erase (findFieldOfClass H klass name st) =
      JLeaker.findFieldOfClass H klass.referent name st.erase := by
  unfold findFieldOfClass JLeaker.findFieldOfClass
  rcases (H.classFields klass.referent).findIdx? (· == name) with _ | i
  · rfl
  · rfl

omit [DecidableEq Class] in
theorem fieldNameOfClass_erase (klass : LocalRef Class) (st : Lookup Class) :
    Prod.map id Lookup.erase (fieldNameOfClass H klass st) =
      JLeaker.fieldNameOfClass H klass.referent st.erase := by
  have idx : st.erase.1 = st.idx := rfl
  simp only [fieldNameOfClass, JLeaker.fieldNameOfClass, idx]
  split_ifs
  · rfl
  · rfl
  · rfl

theorem getFieldOffsetInternal_erase (klass : LocalRef Class) (name : String)
    (st : Lookup Class) :
    Prod.map id Lookup.erase (getFieldOffsetInternal H klass name st) =
      JLeaker.getFieldOffsetInternal H klass.referent name st.erase := by
  induction hrank : H.rank klass.referent using Nat.strong_induction_on generalizing klass st with
  | _ n ih =>
    rw [getFieldOffsetInternal_eq, JLeaker.getFieldOffsetInternal_eq]
    simp only [← removeFromOffset_erase]
    generalize removeFromOffset H klass st = st'
    rcases hsuper : H.superclass klass.referent with _ | super
    · exact findFieldOfClass_erase H klass name st'
    · have hlt := H.rank_superclass klass.referent super hsuper
      have call := ih _ (hrank ▸ hlt) ⟨st'.next, super⟩ (st'.handOut 1) rfl
      have erased : (st'.handOut 1).erase = st'.erase := rfl
      rw [erased] at call
      simp only [← call]
      rcases getFieldOffsetInternal H ⟨st'.next, super⟩ name (st'.handOut 1) with ⟨_ | _, st''⟩
      · exact findFieldOfClass_erase H klass name st''
      · rfl

theorem getFieldNameByIndexInternal_erase (klass : LocalRef Class) (st : Lookup Class) :
    Prod.map id Lookup.erase (getFieldNameByIndexInternal H klass st) =
      JLeaker.getFieldNameByIndexInternal H klass.referent st.erase := by
  induction hrank : H.rank klass.referent using Nat.strong_induction_on generalizing klass st with
  | _ n ih =>
    rw [getFieldNameByIndexInternal_eq, JLeaker.getFieldNameByIndexInternal_eq]
    simp only [← removeImplementedInterfacesFromIndex_erase]
    generalize removeImplementedInterfacesFromIndex H klass st = st'
    rcases hsuper : H.superclass klass.referent with _ | super
    · exact fieldNameOfClass_erase H klass st'
    · have hlt := H.rank_superclass klass.referent super hsuper
      have call := ih _ (hrank ▸ hlt) ⟨st'.next, super⟩ (st'.handOut 1) rfl
      have erased : (st'.handOut 1).erase = st'.erase := rfl
      rw [erased] at call
      simp only [← call]
      rcases getFieldNameByIndexInternal H ⟨st'.next, super⟩ (st'.handOut 1) with ⟨_ | _, st''⟩
      · exact fieldNameOfClass_erase H klass st''
      · rfl

omit [DecidableEq Class] in
theorem freeInterfaceList_idx (st : Lookup Class) : (freeInterfaceList st).idx = st.idx := by
  rw [freeInterfaceList, Accounted.deleteLocalRefs]

/-- The lookup finds the same index whatever references it works on. -/
theorem getFieldOffset_erase (klass : LocalRef Class) (name : String) (first : ℕ) :
    (getFieldOffset H klass name first).1 = JLeaker.getFieldOffset H klass.referent name := by
  have call := getFieldOffsetInternal_erase H klass name ⟨0, [], first, []⟩
  have erased : (⟨0, [], first, []⟩ : Lookup Class).erase = (0, []) := rfl
  rw [erased] at call
  simp only [getFieldOffset, JLeaker.getFieldOffset, ← call]
  rcases getFieldOffsetInternal H klass name ⟨0, [], first, []⟩ with ⟨_ | _, st⟩
  · rfl
  · exact freeInterfaceList_idx st

theorem getFieldNameByIndex_erase (klass : LocalRef Class) (idx : ℤ) (first : ℕ) :
    (getFieldNameByIndex H klass idx first).1 =
      JLeaker.getFieldNameByIndex H klass.referent idx := by
  have call := getFieldNameByIndexInternal_erase H klass ⟨idx, [], first, []⟩
  exact congrArg Prod.fst call

/-! ## The account of a call -/

/-- The loop puts every reference of its array away, if its calls keep the account. -/
theorem foldl_removeInterface_accounted {first : ℕ} {held : List ℕ} {st : Lookup Class}
    (refs : List (LocalRef Class))
    (calls : ∀ intr ∈ refs, ∀ held st, Accounted first held st →
      Accounted first held (removeImplementedInterfacesFromIndex H intr st))
    (h : Accounted first (refs.map LocalRef.id ++ held) st) :
    Accounted first held (refs.foldl (removeInterface H) st) := by
  induction refs generalizing st with
  | nil => exact h
  | cons intr rest ih =>
    rw [List.foldl_cons]
    apply ih fun i hi => calls i (List.mem_cons_of_mem _ hi)
    have found : Accounted first (rest.map LocalRef.id ++ held) (findInterfaceInList intr st).2 :=
      Accounted.findInterfaceInList h
    unfold removeInterface
    rcases hfind : findInterfaceInList intr st with ⟨_ | _, st'⟩
    · rw [hfind] at found
      exact (calls intr List.mem_cons_self _ st' found).setIdx _
    · rw [hfind] at found
      exact found

theorem removeImplementedInterfacesFromIndex_accounted {first : ℕ} (klass : LocalRef Class)
    (held : List ℕ) (st : Lookup Class) (h : Accounted first held st) :
    Accounted first held (removeImplementedInterfacesFromIndex H klass st) := by
  induction hrank : H.rank klass.referent using Nat.strong_induction_on
    generalizing klass held st with
  | _ n ih =>
    rw [removeImplementedInterfacesFromIndex_eq]
    apply foldl_removeInterface_accounted
    · intro intr hintr held st h
      have hlt := H.rank_interface klass.referent intr.referent (Lookup.referent_mem hintr)
      exact ih _ (hrank ▸ hlt) intr held st h rfl
    · rw [Accounted.map_id_newRefs]
      exact h.handOut _

omit [DecidableEq Class] in
theorem findFieldOfClass_accounted {first : ℕ} {held : List ℕ} {st : Lookup Class}
    (h : Accounted first held st) (klass : LocalRef Class) (name : String) :
    Accounted first held (findFieldOfClass H klass name st).2 := by
  unfold findFieldOfClass
  split
  · exact h.setIdx _
  · exact h.setIdx _

omit [DecidableEq Class] in
theorem fieldNameOfClass_accounted {first : ℕ} {held : List ℕ} {st : Lookup Class}
    (h : Accounted first held st) (klass : LocalRef Class) :
    Accounted first held (fieldNameOfClass H klass st).2 := by
  unfold fieldNameOfClass
  simp only
  split_ifs
  · exact h
  · exact h
  · exact h.setIdx _

/-- The references to the superclasses are still held when the recursion ends. -/
def Loses (first : ℕ) (held : List ℕ) (klass : LocalRef Class) (st : Lookup Class) : Prop :=
  ∃ lost : List ℕ, lost.length + 1 = (H.ancestry klass.referent).length ∧
    Accounted first (lost ++ held) st

namespace Loses

variable {H} {first : ℕ} {held : List ℕ} {klass : LocalRef Class} {st st' : Lookup Class}

omit [DecidableEq Class]

theorem top (hsuper : H.superclass klass.referent = none) (h : Accounted first held st) :
    Loses H first held klass st :=
  ⟨[], by rw [H.ancestry_of_none hsuper]; rfl, h⟩

/-- The function that obtains the reference to the superclass does not delete it. -/
theorem descend (ref : LocalRef Class)
    (hsuper : H.superclass klass.referent = some ref.referent)
    (h : Loses H first (ref.id :: held) ref st) : Loses H first held klass st := by
  obtain ⟨lost, length, accounted⟩ := h
  refine ⟨lost ++ [ref.id], ?_, ?_⟩
  · rw [H.ancestry_of_some hsuper, List.length_append, List.length_append, ← length]
    rfl
  · rw [List.append_assoc]
    exact accounted

theorem mono (h : Loses H first held klass st)
    (keeps : ∀ held, Accounted first held st → Accounted first held st') :
    Loses H first held klass st' := by
  obtain ⟨lost, length, accounted⟩ := h
  exact ⟨lost, length, keeps _ accounted⟩

end Loses

theorem getFieldOffsetInternal_loses {first : ℕ} (klass : LocalRef Class) (name : String)
    (held : List ℕ) (st : Lookup Class) (h : Accounted first held st) :
    Loses H first held klass (getFieldOffsetInternal H klass name st).2 := by
  induction hrank : H.rank klass.referent using Nat.strong_induction_on
    generalizing klass held st with
  | _ n ih =>
    have removed : Accounted first held (removeFromOffset H klass st) :=
      (removeImplementedInterfacesFromIndex_accounted H klass held _ (h.setIdx 0)).setIdx _
    rw [getFieldOffsetInternal_eq]
    generalize removeFromOffset H klass st = st' at removed
    rcases hsuper : H.superclass klass.referent with _ | super
    · exact .top hsuper (findFieldOfClass_accounted H removed klass name)
    · have hlt := H.rank_superclass klass.referent super hsuper
      have call := ih _ (hrank ▸ hlt) ⟨st'.next, super⟩ _ _ (removed.handOut 1) rfl
      apply Loses.descend ⟨st'.next, super⟩ hsuper
      rcases hcall : getFieldOffsetInternal H ⟨st'.next, super⟩ name (st'.handOut 1) with
        ⟨_ | _, st''⟩
      · rw [hcall] at call
        simp only [hcall]
        exact call.mono fun held h => findFieldOfClass_accounted H h klass name
      · rw [hcall] at call
        simp only [hcall]
        exact call

theorem getFieldNameByIndexInternal_loses {first : ℕ} (klass : LocalRef Class)
    (held : List ℕ) (st : Lookup Class) (h : Accounted first held st) :
    Loses H first held klass (getFieldNameByIndexInternal H klass st).2 := by
  induction hrank : H.rank klass.referent using Nat.strong_induction_on
    generalizing klass held st with
  | _ n ih =>
    have removed := removeImplementedInterfacesFromIndex_accounted H klass held st h
    rw [getFieldNameByIndexInternal_eq]
    generalize removeImplementedInterfacesFromIndex H klass st = st' at removed
    rcases hsuper : H.superclass klass.referent with _ | super
    · exact .top hsuper (fieldNameOfClass_accounted H removed klass)
    · have hlt := H.rank_superclass klass.referent super hsuper
      have call := ih _ (hrank ▸ hlt) ⟨st'.next, super⟩ _ _ (removed.handOut 1) rfl
      apply Loses.descend ⟨st'.next, super⟩ hsuper
      rcases hcall : getFieldNameByIndexInternal H ⟨st'.next, super⟩ (st'.handOut 1) with
        ⟨_ | _, st''⟩
      · rw [hcall] at call
        simp only [hcall]
        exact call.mono fun held h => fieldNameOfClass_accounted H h klass
      · rw [hcall] at call
        simp only [hcall]
        exact call

/-! ## What a lookup returns -/

/-- The lookup deleted the references it obtained once each, and not the one of its caller. -/
structure ReturnsReferences (klass : LocalRef Class) (first : ℕ) (st : Lookup Class) : Prop where
  once : ∀ id, first ≤ id → id < st.next → st.deleted.count id = 1
  caller : klass.id ∉ st.deleted

omit [DecidableEq Class] in
/-- Freeing the list returns everything if no superclass was looked at. -/
theorem Loses.returns_iff {first : ℕ} {klass : LocalRef Class} {st : Lookup Class}
    (h : Loses H first [] klass st) (existing : klass.id < first) :
    ReturnsReferences klass first (freeInterfaceList st) ↔
      H.superclass klass.referent = none := by
  obtain ⟨lost, length, accounted⟩ := h
  rw [List.append_nil] at accounted
  have count := accounted.freeInterfaceList
  have nothing : lost = [] ↔ H.superclass klass.referent = none := by
    rcases hsuper : H.superclass klass.referent with _ | super
    · rw [H.ancestry_of_none hsuper] at length
      simpa using length
    · rw [H.ancestry_of_some hsuper, List.length_append, List.length_singleton] at length
      have pos := List.length_pos_of_mem (H.mem_ancestry_self super)
      rw [← List.length_eq_zero_iff]
      exact ⟨fun zero => by omega, fun absent => by cases absent⟩
  rw [← nothing]
  constructor
  · intro returns
    rw [List.eq_nil_iff_forall_not_mem]
    intro id hid
    have held := List.count_pos_iff.2 hid
    have counted := count id
    split_ifs at counted with hrange
    · have once := returns.once id hrange.1 hrange.2
      omega
    · omega
  · rintro rfl
    constructor
    · intro id hfirst hnext
      have counted := count id
      rw [if_pos ⟨hfirst, hnext⟩, List.count_nil] at counted
      omega
    · have counted := count klass.id
      rw [if_neg (by omega), List.count_nil] at counted
      exact List.count_eq_zero.1 (by omega)

end Jni

open Jni

variable {Class : Type} [DecidableEq Class] (H : ClassHierarchy Class)

/-- A lookup returns its references if and only if the class has no superclass. -/
theorem localRefs_returned_iff (klass : LocalRef Class) (first : ℕ) (existing : klass.id < first) :
    (∀ name, ReturnsReferences klass first (Jni.getFieldOffset H klass name first).2 ↔
      H.superclass klass.referent = none) ∧
    ∀ idx, ReturnsReferences klass first (Jni.getFieldNameByIndex H klass idx first).2 ↔
      H.superclass klass.referent = none := by
  constructor
  · intro name
    have loses := getFieldOffsetInternal_loses H klass name [] _ (.start 0 first)
    rw [← loses.returns_iff H existing, Jni.getFieldOffset]
    simp only
    split_ifs
    · exact Iff.rfl
    · exact Iff.rfl
  · intro idx
    have loses := getFieldNameByIndexInternal_loses H klass [] _ (.start idx first)
    exact loses.returns_iff H existing

/-- A class without superclass over two interfaces that extend a third one. -/
def Sample.diamond : ClassHierarchy (Fin 4) where
  superclass _ := none
  implementedInterfaces klass := if klass = 3 then [1, 2] else if klass = 0 then [] else [0]
  classFields klass := if klass = 3 then ["size"] else ["FLAG"]
  rank klass := if klass = 3 then 2 else if klass = 0 then 0 else 1
  rank_superclass _ _ h := absurd h.symm (Option.some_ne_none _)
  rank_interface := by decide

/-- Four references are obtained, two of them to the interface 0. -/
theorem localRefs_returned_iff_diamond :
    (Jni.getFieldOffset Sample.diamond ⟨0, 3⟩ "size" 1).2.next = 5 ∧
      ReturnsReferences (⟨0, 3⟩ : LocalRef (Fin 4)) 1
        (Jni.getFieldOffset Sample.diamond ⟨0, 3⟩ "size" 1).2 :=
  ⟨by decide +kernel,
    ((localRefs_returned_iff Sample.diamond ⟨0, 3⟩ 1 (by decide)).1 "size").2 rfl⟩

/-- The reference to the superclass 0 of class 1 gets the number 1 and is never deleted. -/
theorem superclass_reference_left :
    ¬ ReturnsReferences (⟨0, 1⟩ : LocalRef (Fin 2)) 1
      (Jni.getFieldOffset Sample.hiding ⟨0, 1⟩ "map" 1).2 := by
  have noInterfaces : ∀ (klass : LocalRef (Fin 2)) st,
      removeFromOffset Sample.hiding klass st = { st with idx := st.idx - 0 } := by
    intro klass st
    rw [removeFromOffset, Jni.removeImplementedInterfacesFromIndex_eq]
    rfl
  have final : (Jni.getFieldOffset Sample.hiding ⟨0, 1⟩ "map" 1).2 = ⟨1, [], 2, []⟩ := by
    rw [Jni.getFieldOffset, Jni.getFieldOffsetInternal_eq, noInterfaces,
      show Sample.hiding.superclass 1 = some 0 from rfl]
    simp only
    rw [Jni.getFieldOffsetInternal_eq, noInterfaces]
    rfl
  rw [final]
  intro returns
  exact absurd (returns.once 1 le_rfl (by decide)) (by decide)

end JLeaker
