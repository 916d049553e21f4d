import Mathlib.Data.List.Perm.Basic
import JLeaker.Proof.Balance

/-!
# The entries of `ignore_referenced_by`

`ini_handler` collects the accepted entries of a class under its name.  `fillClassIgnoreList` takes the
whole list out of the map for the first class of that name that is ready, so a second class of the name,
from another class loader, gets none.
-/

namespace JLeaker

open CString

/-! ## Reading entries -/

/-- A call of `ini_handler`. -/
structure IniEntry where
  sectionName : Str
  name : Str
  value : Str

/-- The calls of `ini_handler`, one after another. -/
def readEntries (cp : CPlatform) (entries : List IniEntry) (conf : Configuration) : Configuration :=
  entries.foldl (fun conf e => (iniHandler cp conf e.sectionName e.name e.value).2) conf

/-- What `ignore_referenced_by` is to hold for an entry: the name of a class, and a field of it with its
threshold.  The value is a number, and the name has a last dot with something after it. -/
def acceptedEntry (cp : CPlatform) (e : IniEntry) : Option (Str × IgnoreField) :=
  if e.sectionName = "ignore_referenced_by".toList ∧ (strtol cp.longBits e.value).2 = [] then
    (splitAtLastDot e.name).bind fun parts =>
      if parts.2 = [] then none
      else some (parts.1, ⟨0, String.ofList parts.2, toInt (strtol cp.longBits e.value).1⟩)
  else none

/-- The accepted entries of a class, in the order in which they are read. -/
def entriesOfClass (cp : CPlatform) (entries : List IniEntry) (classname : Str) : List IgnoreField :=
  ((entries.filterMap (acceptedEntry cp)).filter (·.1 = classname)).map Prod.snd

theorem iniHandler_ignoreReferencedBy (cp : CPlatform) (conf : Configuration) (e : IniEntry) :
    (iniHandler cp conf e.sectionName e.name e.value).2.ignoreReferencedBy =
      (acceptedEntry cp e).elim conf.ignoreReferencedBy fun accepted =>
        smPut conf.ignoreReferencedBy accepted.1
          (accepted.2 :: (smGet conf.ignoreReferencedBy accepted.1).getD []) := by
  unfold iniHandler acceptedEntry
  by_cases hclasses : e.sectionName = "ignore_classes".toList
  · have hne : e.sectionName ≠ "ignore_referenced_by".toList := by
      rw [hclasses]
      decide
    rw [if_pos hclasses, if_neg fun h => hne h.1]
    rfl
  rw [if_neg hclasses]
  by_cases hsection : e.sectionName = "ignore_referenced_by".toList
  · rw [if_pos hsection]
    dsimp only
    by_cases hend : (strtol cp.longBits e.value).2 = []
    · rw [if_neg (not_not_intro hend), if_pos ⟨hsection, hend⟩]
      rcases splitAtLastDot e.name with _ | ⟨classname, fieldName⟩
      · rfl
      · rw [Option.bind_some]
        dsimp only
        split_ifs
        · rfl
        · rfl
    · rw [if_pos hend, if_neg fun h => hend h.2]
      rfl
  · rw [if_neg hsection, if_neg fun h => hsection h.1]
    rfl

/-- The list of a class holds its accepted entries, the last one first. -/
theorem smGet_readEntries (cp : CPlatform) (entries : List IniEntry) (counters : Counters)
    (classname : Str) :
    (smGet (readEntries cp entries ⟨[], [], counters⟩).ignoreReferencedBy classname).getD [] =
      (entriesOfClass cp entries classname).reverse := by
  unfold readEntries entriesOfClass
  induction entries using List.reverseRecOn with
  | nil => rfl
  | append_singleton entries e ih =>
    rw [List.foldl_append, List.foldl_cons, List.foldl_nil, iniHandler_ignoreReferencedBy,
      List.filterMap_append]
    rcases haccepted : acceptedEntry cp e with _ | ⟨known, field⟩
    · rw [Option.elim_none, ih, List.filterMap_cons_none haccepted, List.filterMap_nil,
        List.append_nil]
    · rw [Option.elim_some, smGet_smPut, List.filterMap_cons_some haccepted, List.filterMap_nil,
        List.filter_append, List.map_append, List.reverse_append]
      by_cases heq : classname = known
      · rw [if_pos heq, ← heq, ih]
        simp
      · rw [if_neg heq, ih]
        simp [Ne.symm heq]

/-! ## Handing the lists out -/

variable {Obj : Type} [DecidableEq Obj]

/-- The entries as they are put into the node of the class. -/
def JvmDump.resolved (d : JvmDump Obj) (klass : Obj) (fields : List IgnoreField) : List IgnoreField :=
  fields.map fun e => { e with field := getFieldOffset d.hierarchy klass e.fieldName }

/-- The classes that ask for the list of a name. -/
def JvmDump.asks (d : JvmDump Obj) (classname : Str) (klass : Obj) : Bool :=
  d.ready klass && decide ((d.jvm.className klass).toList = classname)

section

variable {d : JvmDump Obj} {klass other : Obj}
  {st : List (Obj × List IgnoreField) × StrMap (List IgnoreField) × Ledger}

theorem lookup_append_singleton {lists : List (Obj × List IgnoreField)} {fields : List IgnoreField}
    (new : lists.lookup klass = none) : (lists ++ [(klass, fields)]).lookup other =
      if other = klass then some fields else lists.lookup other := by
  rw [List.lookup_append, List.lookup_cons, List.lookup_nil]
  by_cases h : other = klass
  · rw [if_pos h, h, new, beq_self_eq_true]
    rfl
  · rw [if_neg h, beq_false_of_ne h, Option.or_none]

/-- A class that asks for the list of its name gets what is there. -/
theorem lookup_fillClassIgnoreList (new : st.1.lookup klass = none) :
    ((d.fillClassIgnoreList st klass).1.lookup other).getD [] =
      if other = klass ∧ d.ready klass = true then
        d.resolved klass ((smGet st.2.1 (d.jvm.className klass).toList).getD [])
      else (st.1.lookup other).getD [] := by
  unfold JvmDump.fillClassIgnoreList JvmDump.resolved
  dsimp only
  by_cases hready : d.ready klass = true
  · rw [if_neg (by simp [hready])]
    cases hfields : (smGet st.2.1 (d.jvm.className klass).toList).getD [] with
    | nil =>
      by_cases heq : other = klass
      · rw [if_pos ⟨heq, hready⟩, heq, new]
        rfl
      · rw [if_neg fun h => heq h.1]
    | cons field fields =>
      dsimp only
      rw [lookup_append_singleton new]
      by_cases heq : other = klass
      · rw [if_pos heq, if_pos ⟨heq, hready⟩]
        rfl
      · rw [if_neg heq, if_neg fun h => heq h.1]
  · rw [if_pos (by simp [hready]), if_neg fun h => hready h.2]

/-- A class that asks for a list leaves none. -/
theorem smGet_fillClassIgnoreList (classname : Str) :
    (smGet (d.fillClassIgnoreList st klass).2.1 classname).getD [] =
      if d.asks classname klass then [] else (smGet st.2.1 classname).getD [] := by
  unfold JvmDump.fillClassIgnoreList JvmDump.asks
  dsimp only
  by_cases hready : d.ready klass = true
  · rw [if_neg (by simp [hready]), hready, Bool.true_and]
    cases hfields : (smGet st.2.1 (d.jvm.className klass).toList).getD [] with
    | nil =>
      by_cases heq : (d.jvm.className klass).toList = classname
      · rw [if_pos (by simpa using heq), ← heq, hfields]
      · rw [if_neg (by simpa using heq)]
    | cons field fields =>
      dsimp only
      rw [smGet_smPut]
      by_cases heq : (d.jvm.className klass).toList = classname
      · rw [if_pos heq.symm, if_pos (by simpa using heq)]
        rfl
      · rw [if_neg (Ne.symm heq), if_neg (by simpa using heq)]
  · rw [if_pos (by simp [hready]), if_neg (by simp [hready])]

/-- The other classes stay without a list. -/
theorem lookup_fillClassIgnoreList_of_ne (hne : other ≠ klass) (new : st.1.lookup other = none) :
    (d.fillClassIgnoreList st klass).1.lookup other = none := by
  unfold JvmDump.fillClassIgnoreList
  dsimp only
  split_ifs
  · exact new
  · split
    · exact new
    · rw [List.lookup_append, new, List.lookup_cons, beq_false_of_ne hne]
      rfl

/-- What the classes `done` have got: the first class that asks for a list has it whole. -/
structure Distributed (d : JvmDump Obj) (map : StrMap (List IgnoreField)) (done : List Obj)
    (st : List (Obj × List IgnoreField) × StrMap (List IgnoreField) × Ledger) : Prop where
  new : ∀ klass, klass ∉ done → st.1.lookup klass = none
  left : ∀ classname, (smGet st.2.1 classname).getD [] =
    if done.any (d.asks classname) then [] else (smGet map classname).getD []
  got : ∀ klass ∈ done, (st.1.lookup klass).getD [] =
    if done.find? (d.asks (d.jvm.className klass).toList) = some klass then
      d.resolved klass ((smGet map (d.jvm.className klass).toList).getD [])
    else []

omit [DecidableEq Obj] in
theorem find?_append_new {p : Obj → Bool} {done : List Obj} (new : klass ∉ done) :
    (done ++ [klass]).find? p = some klass ↔ p klass = true ∧ done.any p = false := by
  rw [List.find?_append]
  cases hfind : done.find? p with
  | none =>
    have none : done.any p = false := List.any_eq_false.2 fun x hx => List.find?_eq_none.1 hfind x hx
    rw [none, Option.none_or, List.find?_cons]
    cases p klass <;> simp
  | some x =>
    have hx := List.mem_of_find?_eq_some hfind
    have any : done.any p = true := List.any_eq_true.2 ⟨x, hx, List.find?_some hfind⟩
    rw [any, Option.some_or]
    refine iff_of_false (fun h => ?_) fun h => by cases h.2
    obtain rfl := Option.some.inj h
    exact new hx

omit [DecidableEq Obj] in
theorem find?_append_old {p : Obj → Bool} {done : List Obj} (hne : other ≠ klass) :
    (done ++ [klass]).find? p = some other ↔ done.find? p = some other := by
  rw [List.find?_append]
  cases done.find? p with
  | none =>
    rw [Option.none_or]
    refine iff_of_false (fun h => ?_) fun h => by cases h
    exact hne (by simpa using List.mem_of_find?_eq_some h)
  | some x => rw [Option.some_or]

theorem Distributed.step {map : StrMap (List IgnoreField)} {done : List Obj}
    (distributed : Distributed d map done st) (new : klass ∉ done) :
    Distributed d map (done ++ [klass]) (d.fillClassIgnoreList st klass) where
  new k hk := by
    rw [List.mem_append, List.mem_singleton, not_or] at hk
    exact lookup_fillClassIgnoreList_of_ne hk.2 (distributed.new k hk.1)
  left classname := by
    rw [smGet_fillClassIgnoreList, distributed.left, List.any_append, List.any_cons, List.any_nil,
      Bool.or_false]
    cases d.asks classname klass <;> cases done.any (d.asks classname) <;> rfl
  got k hk := by
    rw [lookup_fillClassIgnoreList (distributed.new klass new)]
    by_cases heq : k = klass
    · subst heq
      simp only [find?_append_new new, true_and]
      by_cases hready : d.ready k = true
      · have asks : d.asks (d.jvm.className k).toList k = true := by simp [JvmDump.asks, hready]
        rw [if_pos hready, distributed.left, asks]
        cases done.any (d.asks (d.jvm.className k).toList) <;> rfl
      · have silent : d.asks (d.jvm.className k).toList k = false := by simp [JvmDump.asks, hready]
        rw [if_neg hready, distributed.new k new, silent]
        rfl
    · have hmem : k ∈ done := by simpa [heq] using hk
      rw [if_neg fun h => heq h.1, distributed.got k hmem]
      simp only [find?_append_old heq]

/-- The lists after all classes have asked. -/
theorem fillClassIgnoreLists_distributed (d : JvmDump Obj) (map : StrMap (List IgnoreField))
    (l : Ledger) : Distributed d map d.nodeClasses (d.fillClassIgnoreLists map l) := by
  apply fillClassIgnoreLists_invariant
  · exact ⟨fun _ _ => rfl, fun _ => rfl, fun _ h => by cases h⟩
  · exact fun done st klass distributed new => distributed.step new

end

/-! ## The class nodes -/

/-- `tagAllClasses` gives each class a node with the list for it. -/
theorem get?_tagAllClasses (env : Agent Obj) (ignoreFields : Obj → List IgnoreField)
    (s : AgentState Obj) (classes : List Obj) :
    (tagAllClasses env ignoreFields classes s).2.numberOfLeaks = s.numberOfLeaks ∧
      ∀ klass ∈ classes, klass ≠ env.jvm.classClass →
        (tagAllClasses env ignoreFields classes s).2.nodes.get?
          ((tagAllClasses env ignoreFields classes s).2.tags klass) =
            some (classNode s.numberOfLeaks ignoreFields klass) := by
  unfold tagAllClasses
  induction classes using List.reverseRecOn with
  | nil => exact ⟨rfl, fun _ h => by cases h⟩
  | append_singleton classes c ih =>
    rw [List.foldl_append, List.foldl_cons, List.foldl_nil]
    generalize classes.foldl (tagClass env ignoreFields) ([], s) = st at ih
    obtain ⟨classNodes, s₁⟩ := st
    obtain ⟨number, nodes⟩ := ih
    dsimp only at number nodes
    rw [tagClass_eq]
    by_cases hc : c = env.jvm.classClass
    · rw [if_pos hc]
      refine ⟨number, fun klass hk hne => ?_⟩
      have hne' : klass ≠ c := hc ▸ hne
      simp only [Function.update_of_ne hne']
      exact nodes klass (by simpa [hne'] using hk) hne
    · rw [if_neg hc]
      refine ⟨number, fun klass hk hne => ?_⟩
      by_cases heq : klass = c
      · subst heq
        simp only [Function.update_self, CHeap.get?_alloc_self, number]
      · simp only [Function.update_of_ne heq]
        have old := nodes klass (by simpa [heq] using hk) hne
        rw [s₁.nodes.get?_alloc_of_mem (s₁.nodes.mem_dom_of_get? old), old]

/-- The state after `tagAllClasses`. -/
def JvmDump.classesTagged (d : JvmDump Obj) (g : AgentGlobals)
    (ignoreReferencedBy : StrMap (List IgnoreField)) (l : Ledger) (s : AgentState Obj) :
    AgentState Obj :=
  let lists := (d.fillClassIgnoreLists ignoreReferencedBy l).1
  let input := d.input g fun o => (lists.lookup o).getD []
  (tagAllClasses input.agent input.ignoreFields input.loadedClasses s).2

theorem JvmDump.get?_classesTagged (d : JvmDump Obj) (g : AgentGlobals)
    (map : StrMap (List IgnoreField)) (l : Ledger) (s : AgentState Obj) {klass : Obj}
    (hklass : klass ∈ d.nodeClasses) :
    (d.classesTagged g map l s).nodes.get? ((d.classesTagged g map l s).tags klass) =
      some (classNode s.numberOfLeaks
        (fun o => ((d.fillClassIgnoreLists map l).1.lookup o).getD []) klass) := by
  obtain ⟨hloaded, hne⟩ := List.mem_filter.1 hklass
  apply (get?_tagAllClasses _ _ s d.loadedClasses).2 klass hloaded
  exact of_decide_eq_true hne

/-- The node of the class has exactly the entries that were accepted for its name. -/
def HasItsEntries (cp : CPlatform) (d : JvmDump Obj) (entries : List IniEntry) (s : AgentState Obj)
    (klass : Obj) : Prop :=
  ∃ nd, s.nodes.get? (s.tags klass) = some nd ∧ nd.obj = some klass ∧
    nd.ignoreFields.Perm (d.resolved klass (entriesOfClass cp entries (d.jvm.className klass).toList))

/-- A class has its entries if it is the first that asks for them, or there are none. -/
theorem hasItsEntries_iff (cp : CPlatform) (d : JvmDump Obj) (entries : List IniEntry)
    (counters : Counters) (g : AgentGlobals) (l : Ledger) (s : AgentState Obj) {klass : Obj}
    (hklass : klass ∈ d.nodeClasses) :
    HasItsEntries cp d entries (d.classesTagged g
        (readEntries cp entries ⟨[], [], counters⟩).ignoreReferencedBy l s) klass ↔
      d.nodeClasses.find? (d.asks (d.jvm.className klass).toList) = some klass ∨
        entriesOfClass cp entries (d.jvm.className klass).toList = [] := by
  have got := (fillClassIgnoreLists_distributed d
    (readEntries cp entries ⟨[], [], counters⟩).ignoreReferencedBy l).got klass hklass
  rw [smGet_readEntries] at got
  have node := d.get?_classesTagged g (readEntries cp entries ⟨[], [], counters⟩).ignoreReferencedBy
    l s hklass
  constructor
  · rintro ⟨nd, hnd, -, perm⟩
    obtain rfl := Option.some.inj (node.symm.trans hnd)
    by_contra hnot
    obtain ⟨hfind, entered⟩ := not_or.1 hnot
    rw [if_neg hfind] at got
    rw [classNode, got, List.nil_perm, JvmDump.resolved, List.map_eq_nil_iff] at perm
    exact entered perm
  · intro h
    refine ⟨_, node, rfl, ?_⟩
    show (((d.fillClassIgnoreLists _ l).1.lookup klass).getD []).Perm _
    rw [got]
    split_ifs with hfind
    · rw [JvmDump.resolved, List.map_reverse]
      exact List.reverse_perm _
    · rw [h.resolve_left hfind]
      exact .nil

/-- Every class that is ready has its entries if and only if no two such classes share a name for which
there are entries. -/
theorem configured_fields_reach_iff (cp : CPlatform) (entries : List IniEntry) (counters : Counters)
    (d : JvmDump Obj) (g : AgentGlobals) (l : Ledger) (s : AgentState Obj) :
    (∀ klass ∈ d.nodeClasses, d.ready klass = true → HasItsEntries cp d entries (d.classesTagged g
        (readEntries cp entries ⟨[], [], counters⟩).ignoreReferencedBy l s) klass) ↔
      ∀ klass ∈ d.nodeClasses, ∀ other ∈ d.nodeClasses, d.ready klass = true → d.ready other = true →
        d.jvm.className klass = d.jvm.className other →
          entriesOfClass cp entries (d.jvm.className klass).toList ≠ [] → klass = other := by
  have first : ∀ klass ∈ d.nodeClasses, _ := fun klass hklass =>
    hasItsEntries_iff cp d entries counters g l s hklass
  constructor
  · intro all klass hklass other hother hready hready' hname entered
    have hfind := ((first klass hklass).1 (all klass hklass hready)).resolve_right entered
    have hfind' := ((first other hother).1 (all other hother hready')).resolve_right (hname ▸ entered)
    rw [hname, hfind'] at hfind
    exact (Option.some.inj hfind).symm
  · intro unique klass hklass hready
    apply (first klass hklass).2
    by_cases entered : entriesOfClass cp entries (d.jvm.className klass).toList = []
    · exact .inr entered
    · have asks : d.asks (d.jvm.className klass).toList klass = true := by simp [JvmDump.asks, hready]
      cases hfind : d.nodeClasses.find? (d.asks (d.jvm.className klass).toList) with
      | none => exact absurd asks (List.find?_eq_none.1 hfind klass hklass)
      | some other =>
        have hasks : d.asks (d.jvm.className klass).toList other = true := List.find?_some hfind
        obtain ⟨hready', hname⟩ := Bool.and_eq_true_iff.1 hasks
        have hname' := String.toList_inj.1 (of_decide_eq_true hname)
        obtain rfl := unique klass hklass other (List.mem_of_find?_eq_some hfind) hready hready'
          hname'.symm entered
        exact .inl rfl

/-- The second of two classes with the name `Holder` gets no entry. -/
theorem configured_fields_missed : ∃ klass ∈ (Sample.jvmDump []).nodeClasses,
    (Sample.jvmDump []).ready klass = true ∧
    ¬ HasItsEntries Sample.unix64 (Sample.jvmDump [])
      [⟨"ignore_referenced_by".toList, "Holder.next".toList, "5".toList⟩]
      ((Sample.jvmDump []).classesTagged .loaded (readEntries Sample.unix64
        [⟨"ignore_referenced_by".toList, "Holder.next".toList, "5".toList⟩]
        ⟨[], [], ⟨0, 0⟩⟩).ignoreReferencedBy ⟨⟨0, 0⟩, 0⟩ .init) klass := by
  refine ⟨11, by decide, rfl, ?_⟩
  rw [hasItsEntries_iff _ _ _ _ _ _ _ (by decide)]
  decide +kernel

end JLeaker
