import JLeaker.Proof.EntryOwners

/-!
# Ignored fields are freed once

Along an attach and its dump the records stay in the lists of the map and of the nodes: reading a
configuration fills the map, a class node takes the list of its name, the passes and printing change
no list, and a call of `freeMemoryNode` that marks its node frees the list of the node.
-/

namespace JLeaker

open CString

variable {Obj : Type} {cp : CPlatform}

/-! ## The attach -/

section

variable {calls : List EntryCall} {map : StrMap (List IgnoreField)} {nodes : CHeap (MemoryNode Obj)}

theorem EntriesKept.iniHandler (kept : EntriesKept calls map nodes) (classname : Str)
    (newElement : IgnoreField) : EntriesKept (calls ++ [.iniHandler classname newElement])
      (smPut map classname (newElement :: (smGet map classname).getD [])) nodes where
  exact := kept.exact.append _ trivial
  map := by
    rw [EntryMemory.after_append_singleton]
    show contentsOf (smPut _ _ _) = _
    rw [smPut_contentsOf, List.map_cons, ← smGet_contentsOf, kept.map]
  nodes a := by
    rw [EntryMemory.after_append_singleton]
    exact kept.nodes a

theorem iniHandlerLogged_agree (cp : CPlatform) (nodes : CHeap (MemoryNode Obj)) :
    HandlersAgree
      (fun calls (conf : Configuration) => EntriesKept calls conf.ignoreReferencedBy nodes)
      (iniHandlerLogged cp) (iniHandler cp) := by
  intro calls conf sectionName name value kept
  unfold iniHandlerLogged JLeaker.iniHandler
  dsimp only
  split_ifs
  · exact ⟨rfl, kept⟩
  · exact ⟨rfl, kept⟩
  · rcases splitAtLastDot name with _ | ⟨classname, fieldName⟩
    · exact ⟨rfl, kept⟩
    · dsimp only
      split_ifs
      · exact ⟨rfl, kept⟩
      · exact ⟨rfl, kept.iniHandler classname _⟩
  · exact ⟨rfl, kept⟩

/-- Reading some files. -/
theorem readConfFiles_entriesKept (files : Str → Option Str) (iniFiles : List Str)
    (conf : Configuration) (kept : EntriesKept calls conf.ignoreReferencedBy nodes) :
    EntriesKept (iniFiles.foldl (fun calls name =>
        (iniParse (iniHandlerLogged cp) files name calls).2) calls)
      (iniFiles.foldl (readConfFile cp files) conf).ignoreReferencedBy nodes := by
  induction iniFiles generalizing calls conf with
  | nil => exact kept
  | cons name iniFiles ih =>
    exact ih _ (iniParse_related (iniHandlerLogged_agree cp nodes) files name kept).2

/-- The records of an attach are those of its map. -/
theorem Attach.entryCalls_entriesKept {g g' : AgentGlobals} {a : Attach} {accepted : Bool}
    (none : nodes.dom = ∅) (h : initAgent cp g a = .ok (accepted, g')) :
    EntriesKept (a.entryCalls cp g) (g'.ignoreReferencedBy.elim [] (·.pairs)) nodes := by
  obtain ⟨settings, iniFiles, parsed, rfl⟩ := initAgent_eq_ok_iff.1 h
  unfold Attach.entryCalls
  rw [parseAgentOptions_eq_map, parsed]
  exact readConfFiles_entriesKept a.files iniFiles ⟨[], [], g.start.counters⟩ (.init none)

end

/-! ## The class nodes -/

section

variable {nodes : CHeap (MemoryNode Obj)}

/-- A new node without ignored fields changes no list. -/
theorem ignoreFieldsAt_alloc_nil (m : Malloc) {nd : MemoryNode Obj} (none : nd.ignoreFields = [])
    (a : ℕ) : ignoreFieldsAt (nodes.alloc m nd) a = ignoreFieldsAt nodes a := by
  rw [ignoreFieldsAt_alloc]
  split_ifs with h
  · rw [none, h, ignoreFieldsAt_of_notMem (nodes.fresh_notMem m)]
  · rfl

variable [DecidableEq Obj]

theorem ignoreFieldsAt_searched (env : Agent Obj) (size : ℕ → Obj → ℤ)
    (candidates : List (Obj × ℕ)) (s : AgentState Obj) (a : ℕ) :
    ignoreFieldsAt (searchObjectsForLeaks env size candidates s).2.nodes a =
      ignoreFieldsAt s.nodes a := by
  unfold searchObjectsForLeaks
  induction candidates using List.reverseRecOn with
  | nil => rfl
  | append_singleton candidates c ih =>
    rw [List.foldl_append, List.foldl_cons, List.foldl_nil, ← ih]
    generalize candidates.foldl (searchObject env size) ([], s) = st
    obtain ⟨leaks, s₁⟩ := st
    rw [searchObject_eq]
    split_ifs
    · exact ignoreFieldsAt_alloc_nil env.malloc rfl a
    · rfl

variable {d : JvmDump Obj} {klass : Obj} {calls : List EntryCall}
  {st : List (Obj × List IgnoreField) × StrMap (List IgnoreField) × Ledger}

/-- What `fillClassIgnoreList` leaves in the map. -/
theorem fillClassIgnoreList_map (d : JvmDump Obj) (klass : Obj)
    (st : List (Obj × List IgnoreField) × StrMap (List IgnoreField) × Ledger) :
    (d.fillClassIgnoreList st klass).2.1 =
      if d.ready klass = true ∧ (smGet st.2.1 (d.jvm.className klass).toList).getD [] ≠ [] then
        smPut st.2.1 (d.jvm.className klass).toList []
      else st.2.1 := by
  unfold JvmDump.fillClassIgnoreList
  dsimp only
  by_cases hready : d.ready klass = true
  · rw [if_neg (by simp [hready])]
    cases hfields : (smGet st.2.1 (d.jvm.className klass).toList).getD [] with
    | nil => rw [if_neg fun h => h.2 rfl]
    | cons field fields => rw [if_pos ⟨hready, List.cons_ne_nil _ _⟩]
  · rw [if_pos (by simp [hready]), if_neg fun h => hready h.1]

/-- The node of a class gets the list of its name. -/
theorem EntriesKept.tagClass (kept : EntriesKept calls st.2.1 nodes) (m : Malloc) (klass : Obj)
    {nd : MemoryNode Obj} (fields : nd.ignoreFields = if d.ready klass then
      d.resolved klass ((smGet st.2.1 (d.jvm.className klass).toList).getD []) else []) :
    EntriesKept
      (if d.ready klass then calls ++ [.fillClassIgnoreList (nodes.fresh m)
        (d.jvm.className klass).toList (getFieldOffset d.hierarchy klass)] else calls)
      (d.fillClassIgnoreList st klass).2.1 (nodes.alloc m nd) := by
  rw [fillClassIgnoreList_map]
  by_cases hready : d.ready klass = true
  · rw [if_pos hready] at fields ⊢
    have free : (EntryMemory.after calls).ignoreFields (nodes.fresh m) = [] :=
      kept.ignoreFields_eq_nil (ignoreFieldsAt_of_notMem (nodes.fresh_notMem m))
    have got := smGet_contentsOf (EntryMemory.after calls).ignoreReferencedBy
      (d.jvm.className klass).toList
    rw [kept.map] at got
    rw [got] at fields ⊢
    simp only [ne_eq, List.map_eq_nil_iff]
    refine ⟨kept.exact.append _ free, ?_, fun a => ?_⟩
    all_goals
      rw [EntryMemory.after_append_singleton, EntryMemory.step]
      dsimp only
    · by_cases none : (smGet (EntryMemory.after calls).ignoreReferencedBy
          (d.jvm.className klass).toList).getD [] = []
      · rw [if_pos (List.isEmpty_iff.2 none), if_neg fun h => h.2 none]
        exact kept.map
      · rw [if_neg (mt List.isEmpty_iff.1 none), if_pos ⟨hready, none⟩]
        rw [smPut_contentsOf, kept.map, List.map_nil]
    · rw [ignoreFieldsAt_alloc]
      split_ifs with none ha ha
      · rw [ha, fields, List.isEmpty_iff.1 none, free]
        rfl
      · exact kept.nodes a
      · simp [ha, fields, JvmDump.resolved]
      · simp only [Function.update_of_ne ha]
        exact kept.nodes a
  · rw [if_neg hready] at fields ⊢
    rw [if_neg fun h => hready h.1]
    exact kept.of_ignoreFieldsAt (ignoreFieldsAt_alloc_nil m fields)

/-- A class that has not asked has no list. -/
theorem lookup_foldl_fillClassIgnoreList (d : JvmDump Obj)
    (st : List (Obj × List IgnoreField) × StrMap (List IgnoreField) × Ledger) {classes : List Obj}
    {klass : Obj} (new : klass ∉ classes) (none : st.1.lookup klass = none) :
    (classes.foldl d.fillClassIgnoreList st).1.lookup klass = Option.none := by
  induction classes generalizing st with
  | nil => exact none
  | cons c classes ih =>
    rw [List.mem_cons, not_or] at new
    exact ih _ new.2 (lookup_fillClassIgnoreList_of_ne new.1 none)

/-- Writing the calls down changes nothing else. -/
theorem tagAllClassesLogged_result (env : Agent Obj) (ignoreFields : Obj → List IgnoreField)
    (classes : List Obj) (s : AgentState Obj) :
    (d.tagAllClassesLogged env ignoreFields classes s).result =
      .ok (tagAllClasses env ignoreFields classes s) := by
  unfold JvmDump.tagAllClassesLogged tagAllClasses
  generalize ([], s) = st
  induction classes generalizing st with
  | nil => rfl
  | cons klass classes ih =>
    rw [List.foldlM_cons, Logged.result_bind]
    exact ih _

theorem tagAllClassesLogged_append (env : Agent Obj) (ignoreFields : Obj → List IgnoreField)
    (classes : List Obj) (klass : Obj) (s : AgentState Obj) :
    (d.tagAllClassesLogged env ignoreFields (classes ++ [klass]) s).log =
      (d.tagAllClassesLogged env ignoreFields classes s).log ++
        (d.tagClassLogged env ignoreFields (tagAllClasses env ignoreFields classes s) klass).log := by
  have before := tagAllClassesLogged_result (d := d) env ignoreFields classes s
  unfold JvmDump.tagAllClassesLogged at before ⊢
  rw [List.foldlM_append, Logged.log_bind_of_ok before, List.foldlM_cons]
  exact congrArg _ (Logged.log_bind_pure _ id)

section

variable {env : Agent Obj} {ignoreFields : Obj → List IgnoreField}
  {map : StrMap (List IgnoreField)} {nodesSt : List ℕ × AgentState Obj}

/-- `java.lang.Class` gets no node. -/
theorem EntriesKept.tagClassClass (kept : EntriesKept calls map nodesSt.2.nodes)
    (jvm : env.jvm = d.jvm) :
    EntriesKept (calls ++ (d.tagClassLogged env ignoreFields nodesSt d.jvm.classClass).log) map
      (JLeaker.tagClass env ignoreFields nodesSt d.jvm.classClass).2.nodes := by
  obtain ⟨classNodes, s⟩ := nodesSt
  simp only [JvmDump.tagClassLogged, tagClass_eq, jvm, ne_eq, not_true_eq_false, false_and,
    if_false, if_true, List.append_nil]
  exact kept

/-- Any other class gets a node, with the list of its name. -/
theorem EntriesKept.tagClassLogged (kept : EntriesKept calls st.2.1 nodesSt.2.nodes)
    (jvm : env.jvm = d.jvm) (named : klass ≠ d.jvm.classClass)
    (fields : ignoreFields klass = if d.ready klass then
      d.resolved klass ((smGet st.2.1 (d.jvm.className klass).toList).getD []) else []) :
    EntriesKept (calls ++ (d.tagClassLogged env ignoreFields nodesSt klass).log)
      (d.fillClassIgnoreList st klass).2.1
      (JLeaker.tagClass env ignoreFields nodesSt klass).2.nodes := by
  obtain ⟨classNodes, s⟩ := nodesSt
  have next := EntriesKept.tagClass kept env.malloc klass
    (show (classNode s.numberOfLeaks ignoreFields klass).ignoreFields = _ from fields)
  simp only [JvmDump.tagClassLogged, tagClass_eq, jvm, named, ne_eq, not_false_eq_true, true_and,
    if_false]
  split_ifs at next ⊢ with ready
  · exact next
  · rw [List.append_nil]
    exact next

end

/-- The class nodes have the lists that `fillClassIgnoreList` gave their classes. -/
theorem tagAllClassesLogged_entriesKept (env : Agent Obj) (jvm : env.jvm = d.jvm)
    (ignoreFields : Obj → List IgnoreField) {map : StrMap (List IgnoreField)} (l : Ledger)
    {s : AgentState Obj} (kept : EntriesKept calls map s.nodes) {classes : List Obj}
    (nodup : classes.Nodup)
    (lists : ∀ klass ∈ classes, klass ≠ d.jvm.classClass → ignoreFields klass =
      (((classes.filter fun klass => decide (klass ≠ d.jvm.classClass)).foldl d.fillClassIgnoreList
        ([], map, l)).1.lookup klass).getD []) :
    EntriesKept (calls ++ (d.tagAllClassesLogged env ignoreFields classes s).log)
      ((classes.filter fun klass => decide (klass ≠ d.jvm.classClass)).foldl d.fillClassIgnoreList
        ([], map, l)).2.1
      (tagAllClasses env ignoreFields classes s).2.nodes := by
  induction classes using List.reverseRecOn with
  | nil =>
    show EntriesKept (calls ++ []) map s.nodes
    rwa [List.append_nil]
  | append_singleton classes klass ih =>
    obtain ⟨nodup', -, different⟩ := List.nodup_append.1 nodup
    have new : klass ∉ classes := fun h =>
      different klass h klass (List.mem_singleton_self klass) rfl
    have last : tagAllClasses env ignoreFields (classes ++ [klass]) s =
        JLeaker.tagClass env ignoreFields (tagAllClasses env ignoreFields classes s) klass :=
      List.foldl_concat ..
    rw [tagAllClassesLogged_append, last, ← List.append_assoc]
    rw [List.filter_append, List.filter_singleton] at lists ⊢
    by_cases hclass : klass = d.jvm.classClass
    · have skipped : (bif decide (klass ≠ d.jvm.classClass) then [klass] else []) = [] := by
        simp [hclass]
      rw [skipped, List.append_nil] at lists ⊢
      have before := ih nodup' fun k hk => lists k (List.mem_append_left _ hk)
      rw [hclass]
      exact before.tagClassClass jvm
    · have asked : (bif decide (klass ≠ d.jvm.classClass) then [klass] else []) = [klass] := by
        simp [hclass]
      have hnew : klass ∉ classes.filter fun klass => decide (klass ≠ d.jvm.classClass) :=
        fun h => new (List.mem_filter.1 h).1
      have fresh := lookup_foldl_fillClassIgnoreList d ([], map, l) hnew rfl
      rw [asked, List.foldl_append, List.foldl_cons, List.foldl_nil] at lists ⊢
      simp only [lookup_fillClassIgnoreList fresh] at lists
      -- the lists of the classes so far are those they had before this one
      have before := ih nodup' fun k hk hne => by
        have hk' : k ≠ klass := fun h => new (h ▸ hk)
        rw [lists k (List.mem_append_left _ hk) hne, if_neg fun h => hk' h.1]
      have here := lists klass (List.mem_append_right _ (List.mem_singleton_self klass)) hclass
      rw [fresh] at here
      simp only [true_and, Option.getD_none] at here
      exact before.tagClassLogged jvm hclass here

end

/-! ## The passes and printing -/

section

variable {h h' : CHeap (MemoryNode Obj)}

theorem Printed.ignoreFieldsAt_eq (printed : Printed h h') (a : ℕ) :
    ignoreFieldsAt h' a = ignoreFieldsAt h a := by
  rcases hnd : h.get? a with _ | nd
  · have none : a ∉ h.dom := by simp [h.mem_dom, hnd]
    rw [ignoreFieldsAt_of_notMem none, ignoreFieldsAt_of_notMem (printed.dom ▸ none)]
  · obtain ⟨nd', hnd', heq⟩ := printed.node a nd hnd
    rw [ignoreFieldsAt, hnd', Option.elim_some, heq, ignoreFieldsAt, hnd, Option.elim_some]

variable [DecidableEq Obj] {env : Agent Obj} {s s' : Search Obj} {r : HeapReference Obj}

omit [DecidableEq Obj] in
theorem ignoreFieldsAt_grownHeap (env : Agent Obj) (s : Search Obj) (r : HeapReference Obj)
    (a : ℕ) : ignoreFieldsAt (grownHeap env s r) a = ignoreFieldsAt s.nodes a := by
  unfold grownHeap
  split
  · rfl
  · split_ifs
    · rfl
    · exact ignoreFieldsAt_alloc_nil env.malloc rfl a

theorem Outcome.ignoreFieldsAt_eq (out : Outcome env s r s') (a : ℕ) :
    ignoreFieldsAt s'.nodes a = ignoreFieldsAt s.nodes a := by
  cases out with
  | skipped => rfl
  | dropped =>
    unfold ignoreFieldsAt
    rw [get?_countFanIn]
    cases s.nodes.get? a <;> rfl
  | recorded thisNode records =>
    rw [← ignoreFieldsAt_grownHeap env s r a]
    unfold ignoreFieldsAt
    rw [get?_recorded records.node]
    cases (grownHeap env s r).get? a <;> rfl

/-- The passes change no list. -/
theorem ignoreFieldsAt_heapIterations {order : ℕ → List (HeapReference Obj)} {n i : ℕ}
    (run : heapIterations env order n i s = .ok s') (a : ℕ) :
    ignoreFieldsAt s'.nodes a = ignoreFieldsAt s.nodes a := by
  apply heapIterations_invariant (P := fun _ _ => True)
    (I := fun s₁ => ignoreFieldsAt s₁.nodes a = ignoreFieldsAt s.nodes a) (fun _ h => h)
    (fun _ _ _ h _ report => ((reportReference_outcome report).ignoreFieldsAt_eq a).trans h)
    (iterationsMeet_of_forall (fun _ _ _ _ => trivial) _ _ _) rfl run

end

/-! ## Parts of the dump -/

/-- Along a part of the dump each record has one owner, up to a fault if there is one; and where it
returns, the lists are those of the map and the nodes it leaves. -/
structure KeepsEntries {α : Type} (calls : List EntryCall) (part : Logged Fault EntryCall α)
    (map : α → StrMap (List IgnoreField)) (nodes : α → CHeap (MemoryNode Obj)) : Prop where
  exact : AlwaysExact (calls ++ part.log)
  kept : ∀ r, part.result = .ok r → EntriesKept (calls ++ part.log) (map r) (nodes r)

section

variable {α β : Type} {calls : List EntryCall} {part : Logged Fault EntryCall α}
  {rest : α → Logged Fault EntryCall β} {map : β → StrMap (List IgnoreField)}
  {nodes : β → CHeap (MemoryNode Obj)}

theorem KeepsEntries.bind (first : AlwaysExact (calls ++ part.log))
    (next : ∀ r, part.result = .ok r → KeepsEntries (calls ++ part.log) (rest r) map nodes) :
    KeepsEntries calls (part >>= rest) map nodes := by
  rcases run : part.result with e | r
  · have log := Logged.log_bind_of_error run rest
    refine ⟨log ▸ first, fun r h => ?_⟩
    rw [Logged.result_bind_of_error run] at h
    cases h
  · obtain ⟨exact, kept⟩ := next r run
    rw [List.append_assoc] at exact kept
    have log := Logged.log_bind_of_ok run rest
    refine ⟨log ▸ exact, fun r' h => ?_⟩
    rw [Logged.result_bind_of_ok run] at h
    exact log ▸ kept r' h

theorem KeepsEntries.pure {r : β} (kept : EntriesKept calls (map r) (nodes r)) :
    KeepsEntries calls (Pure.pure r : Logged Fault EntryCall β) map nodes := by
  rw [← List.append_nil calls] at kept
  refine ⟨kept.exact, ?_⟩
  rintro r' ⟨⟩
  exact kept

/-- A part that makes no calls. -/
theorem KeepsEntries.lift {part : Except Fault α} (exact : AlwaysExact calls)
    (next : ∀ r, part = .ok r → KeepsEntries calls (rest r) map nodes) :
    KeepsEntries calls (liftM part >>= rest) map nodes := by
  refine .bind (by rwa [Logged.log_lift, List.append_nil]) fun r run => ?_
  rw [Logged.log_lift, List.append_nil]
  exact next r run

end

/-! ## Freeing -/

/-- A part of the freeing: the records follow the lists of the nodes, and no list comes back. -/
structure FreesLists {α : Type} (st : Freeing Obj) (part : Logged Fault EntryCall α)
    (state : α → Freeing Obj) : Prop where
  keeps : ∀ calls map, EntriesKept calls map st.nodes →
    KeepsEntries calls part (fun _ => map) fun r => (state r).nodes
  empty : ∀ r, part.result = .ok r → ∀ a, ignoreFieldsAt st.nodes a = [] →
    ignoreFieldsAt (state r).nodes a = []

namespace FreesLists

variable {α β : Type} {st : Freeing Obj} {part : Logged Fault EntryCall α} {state : α → Freeing Obj}
  {rest : α → Logged Fault EntryCall β} {state' : β → Freeing Obj}

/-- A part that makes no calls and changes no list. -/
theorem of_log_nil (log : part.log = []) (same : ∀ r, part.result = .ok r → ∀ a,
    ignoreFieldsAt (state r).nodes a = ignoreFieldsAt st.nodes a) : FreesLists st part state where
  keeps calls map kept := by
    refine ⟨?_, fun r run => ?_⟩
    · rw [log, List.append_nil]
      exact kept.exact
    · rw [log, List.append_nil]
      exact kept.of_ignoreFieldsAt (same r run)
  empty r run a none := (same r run a).trans none

/-- A part that returns at once. -/
theorem pure {a : α} (same : (state a).nodes = st.nodes) :
    FreesLists st (Pure.pure a : Logged Fault EntryCall α) state := by
  refine of_log_nil rfl ?_
  rintro r ⟨⟩ b
  rw [same]

theorem bind (first : FreesLists st part state)
    (next : ∀ r, part.result = .ok r → FreesLists (state r) (rest r) state') :
    FreesLists st (part >>= rest) state' where
  keeps calls map kept := by
    obtain ⟨exact, done⟩ := first.keeps calls map kept
    exact .bind exact fun r run => (next r run).keeps _ map (done r run)
  empty r' run a none := by
    rw [Logged.result_bind] at run
    obtain ⟨r, first', rest'⟩ := Run.bind_eq_ok.1 run
    exact (next r first').empty r' rest' a (first.empty r first' a none)

theorem lift {part : Except Fault α} (next : ∀ r, part = .ok r → FreesLists st (rest r) state') :
    FreesLists st (liftM part >>= rest) state' :=
  have lifted : FreesLists st (liftM part : Logged Fault EntryCall α) fun _ => st :=
    of_log_nil rfl fun _ _ _ => rfl
  lifted.bind next

end FreesLists

/-- Freeing, and what follows it. -/
theorem FreesLists.keepsEntries {α β : Type} {st : Freeing Obj} {part : Logged Fault EntryCall α}
    {state : α → Freeing Obj} (frees : FreesLists st part state) {calls : List EntryCall}
    {left : StrMap (List IgnoreField)} (kept : EntriesKept calls left st.nodes)
    {rest : α → Logged Fault EntryCall β} {map : β → StrMap (List IgnoreField)}
    {nodes : β → CHeap (MemoryNode Obj)}
    (next : ∀ r, EntriesKept (calls ++ part.log) left (state r).nodes →
      KeepsEntries (calls ++ part.log) (rest r) map nodes) :
    KeepsEntries calls (part >>= rest) map nodes := by
  obtain ⟨exact, done⟩ := frees.keeps calls left kept
  exact .bind exact fun r run => next r (done r run)

theorem freeReferersLogged_frees
    {free : Option ℕ → Freeing Obj → Logged Fault EntryCall (Bool × Freeing Obj)}
    (frees : ∀ p st, FreesLists st (free p st) Prod.snd) (node : ℕ) (refs : List MemoryReferer)
    (st : Freeing Obj) : FreesLists st (freeReferersLogged free node refs st) id := by
  induction refs generalizing st with
  | nil => exact .pure rfl
  | cons ref rest ih =>
    refine (frees ref.node st).bind fun r _ => ?_
    obtain ⟨keeps, empty⟩ := ih { r.2 with
      freedReferers := r.2.freedReferers ++ [(node, ref)], ledger := r.2.ledger.free 1 }
    exact ⟨keeps, empty⟩

theorem freeMemoryNodeLogged_of_fresh {fuel a : ℕ} {st : Freeing Obj} {nd : MemoryNode Obj}
    (hnd : st.nodes.get? a = some nd) (fresh : nd.visited = false) :
    freeMemoryNodeLogged (fuel + 1) (some a) st = (do
      Logged.emit (.freeMemoryNode a)
      let st ← freeReferersLogged (freeMemoryNodeLogged fuel) a nd.start { st with
        nodes := st.nodes.modify a MemoryNode.dismantled
        ledger := st.ledger.free nd.namedBlocks }
      finishNodeCounted a st) := by
  simp only [freeMemoryNodeLogged, deref_eq_ok.2 hnd, Logged.lift_ok_bind, fresh, Bool.false_eq_true,
    if_false, modify_dismantled]
  refine bind_congr fun _ => bind_congr fun st' => ?_
  rw [finishNodeCounted, Logged.lift_bind]
  refine bind_congr fun listed => ?_
  rw [Logged.lift_bind]
  refine bind_congr fun nd' => ?_
  split_ifs
  · rfl
  · rfl

/-- The list of a node is freed when the node is marked. -/
theorem frees_dismantled {a : ℕ} {st : Freeing Obj} {nd : MemoryNode Obj}
    (hnd : st.nodes.get? a = some nd) :
    FreesLists st (Logged.emit (.freeMemoryNode a)) fun _ => { st with
      nodes := st.nodes.modify a MemoryNode.dismantled
      ledger := st.ledger.free nd.namedBlocks } := by
  have lists : ∀ b, ignoreFieldsAt (st.nodes.modify a MemoryNode.dismantled) b =
      if b = a then [] else ignoreFieldsAt st.nodes b := by
    intro b
    unfold ignoreFieldsAt
    by_cases hb : b = a
    · rw [if_pos hb, hb, CHeap.get?_modify_self, hnd]
      rfl
    · rw [if_neg hb, CHeap.get?_modify_of_ne _ hb]
  refine ⟨fun calls map kept => ?_, fun _ _ b hb => ?_⟩
  · have exact := kept.exact.append (.freeMemoryNode a) trivial
    refine ⟨exact, fun _ _ => ⟨exact, ?_, fun b => ?_⟩⟩
    · rw [Logged.log_emit, EntryMemory.after_append_singleton, EntryMemory.step_freeMemoryNode]
      exact kept.map
    · rw [Logged.log_emit, EntryMemory.after_append_singleton, EntryMemory.step_freeMemoryNode, lists,
        ← kept.nodes b]
      dsimp only
      rw [Function.update_apply]
      split_ifs
      · rfl
      · rfl
  · rw [lists, hb]
    split_ifs <;> rfl

/-- The end of a call changes no list: that of its node is empty. -/
theorem ignoreFieldsAt_finishNodeCounted {a : ℕ} {st st' : Freeing Obj} {freed : Bool}
    (empty : ignoreFieldsAt st.nodes a = []) (h : finishNodeCounted a st = .ok (freed, st')) (b : ℕ) :
    ignoreFieldsAt st'.nodes b = ignoreFieldsAt st.nodes b := by
  have emptied : ignoreFieldsAt (st.nodes.modify a fun nd =>
      { nd with start := [], fanIn := [] }) b = ignoreFieldsAt st.nodes b := by
    apply ignoreFieldsAt_modify
    exact fun _ => rfl
  obtain ⟨listed, -, h⟩ := Run.bind_eq_ok.1 h
  obtain ⟨nd, -, h⟩ := Run.bind_eq_ok.1 h
  split_ifs at h
  · cases h
    rw [← emptied]
    apply ignoreFieldsAt_modify
    exact fun _ => rfl
  · cases h
    dsimp only
    rw [ignoreFieldsAt_free, emptied]
    split_ifs with hb
    · rw [hb, empty]
    · rfl

theorem freeMemoryNodeLogged_frees (fuel : ℕ) : ∀ p (st : Freeing Obj),
    FreesLists st (freeMemoryNodeLogged fuel p st) Prod.snd := by
  induction fuel with
  | zero =>
    intro p st
    refine .of_log_nil rfl ?_
    rintro r ⟨⟩
  | succ fuel ih =>
    intro p st
    rcases p with _ | a
    · exact .pure rfl
    rcases hnd : st.nodes.get? a with _ | nd
    · simp only [freeMemoryNodeLogged, deref, hnd]
      refine .of_log_nil rfl ?_
      rintro r ⟨⟩
    by_cases fresh : nd.visited = false
    · rw [freeMemoryNodeLogged_of_fresh hnd fresh]
      refine (frees_dismantled hnd).bind fun _ _ => ?_
      refine (freeReferersLogged_frees ih a nd.start _).bind fun st' loop => ?_
      refine .of_log_nil rfl ?_
      rintro ⟨freed, st''⟩ finish
      -- the loop has not filled the list that was freed before it
      refine ignoreFieldsAt_finishNodeCounted ?_ finish
      refine (freeReferersLogged_frees ih a nd.start _).empty st' loop a ?_
      unfold ignoreFieldsAt
      dsimp only
      rw [CHeap.get?_modify_self, hnd]
      rfl
    · have visited : nd.visited = true := by simpa using fresh
      simp only [freeMemoryNodeLogged, deref_eq_ok.2 hnd, Logged.lift_ok_bind, visited, if_true]
      refine .of_log_nil rfl ?_
      rintro r ⟨⟩
      apply ignoreFieldsAt_modify
      exact fun _ => rfl

theorem freeMemoryForLeakListLogged_frees (fuel : ℕ) (leaks : List LeakingNode) (st : Freeing Obj) :
    FreesLists st (freeMemoryForLeakListLogged fuel leaks st) id := by
  induction leaks generalizing st with
  | nil => exact .pure rfl
  | cons leak rest ih =>
    refine (freeMemoryNodeLogged_frees fuel _ st).bind fun r _ => ?_
    obtain ⟨keeps, empty⟩ := ih { r.2 with ledger := r.2.ledger.free 1 }
    exact ⟨keeps, empty⟩

theorem freeClassNodesLogged_frees (fuel : ℕ) (classNodes : List ℕ) (st : Freeing Obj) :
    FreesLists st (freeClassNodesLogged fuel classNodes st) id := by
  induction classNodes generalizing st with
  | nil => exact .pure rfl
  | cons node rest ih =>
    refine (freeMemoryNodeLogged_frees fuel _ st).bind fun r _ => ?_
    obtain ⟨keeps, empty⟩ := ih { r.2 with
      ledger := if r.1 then r.2.ledger else (r.2.ledger.alloc 1).free 1 }
    exact ⟨keeps, empty⟩

/-! ## Without the log -/

theorem freeReferersLogged_result
    (free : Option ℕ → Freeing Obj → Logged Fault EntryCall (Bool × Freeing Obj)) (node : ℕ)
    (refs : List MemoryReferer) (st : Freeing Obj) :
    (freeReferersLogged free node refs st).result =
      freeReferersCounted (fun p st => (free p st).result) node refs st := by
  induction refs generalizing st with
  | nil => rfl
  | cons ref rest ih => exact Logged.result_bind_eq rfl fun r => ih _

theorem freeMemoryNodeLogged_result (fuel : ℕ) (p : Option ℕ) (st : Freeing Obj) :
    (freeMemoryNodeLogged fuel p st).result = freeMemoryNodeCounted fuel p st := by
  induction fuel generalizing p st with
  | zero => rfl
  | succ fuel ih =>
    cases p with
    | none => rfl
    | some a =>
      rw [freeMemoryNodeLogged, freeMemoryNodeCounted]
      refine Logged.result_bind_eq rfl fun nd => ?_
      split_ifs
      · rfl
      rw [Logged.result_bind, Logged.result_emit, Run.ok_bind]
      refine Logged.result_bind_eq ?_ fun st' => ?_
      · rw [freeReferersLogged_result]
        simp only [ih]
      refine Logged.result_bind_eq rfl fun listed => Logged.result_bind_eq rfl fun nd' => ?_
      split_ifs
      · rfl
      · rfl

theorem freeMemoryForLeakListLogged_result (fuel : ℕ) (leaks : List LeakingNode) (st : Freeing Obj) :
    (freeMemoryForLeakListLogged fuel leaks st).result =
      freeMemoryForLeakListCounted fuel leaks st := by
  induction leaks generalizing st with
  | nil => rfl
  | cons leak rest ih =>
    exact Logged.result_bind_eq (freeMemoryNodeLogged_result fuel _ st) fun r => ih _

theorem freeClassNodesLogged_result (fuel : ℕ) (classNodes : List ℕ) (st : Freeing Obj) :
    (freeClassNodesLogged fuel classNodes st).result = freeClassNodesCounted fuel classNodes st := by
  induction classNodes generalizing st with
  | nil => rfl
  | cons node rest ih =>
    exact Logged.result_bind_eq (freeMemoryNodeLogged_result fuel _ st) fun r => ih _

/-! ## The dump -/

section

variable {map : StrMap (List IgnoreField)} {calls : List EntryCall}

variable [DecidableEq Obj] {d : JvmDump Obj} {g : AgentGlobals}

/-- Writing the calls down changes nothing of the dump. -/
theorem findLeaksInTaggedObjectsLogged_result (d : JvmDump Obj) (g : AgentGlobals)
    (nodes : CHeap (MemoryNode Obj)) (l : Ledger) :
    (d.findLeaksInTaggedObjectsLogged g nodes l).result = d.findLeaksInTaggedObjects g nodes l := by
  unfold JvmDump.findLeaksInTaggedObjectsLogged JvmDump.findLeaksInTaggedObjects
  dsimp only
  split_ifs
  · rfl
  generalize d.fillClassIgnoreLists _ _ = filling
  obtain ⟨lists, left, l₀⟩ := filling
  rw [Logged.result_bind_of_ok (tagAllClassesLogged_result ..)]
  refine Logged.result_bind_eq rfl fun passed => Logged.result_bind_eq rfl fun p => ?_
  refine Logged.result_bind_eq (freeMemoryForLeakListLogged_result ..) fun st => ?_
  exact Logged.result_bind_eq (freeClassNodesLogged_result ..) fun st => rfl

theorem dumperThreadMainLogged_result (d : JvmDump Obj) (m : AgentMemory Obj) :
    (d.dumperThreadMainLogged m).result = d.dumperThreadMain m :=
  Logged.result_bind_eq (findLeaksInTaggedObjectsLogged_result ..) fun _ => rfl

/-- The class nodes of a dump. -/
theorem EntriesKept.tagged {w : World Obj} (l : Ledger)
    (kept : EntriesKept calls map w.nodes) {lists : List (Obj × List IgnoreField)}
    {left : StrMap (List IgnoreField)} {l' : Ledger}
    (filled : d.fillClassIgnoreLists map l = (lists, left, l')) :
    EntriesKept (calls ++ (d.tagAllClassesLogged (d.input g fun o => (lists.lookup o).getD []).agent
        (d.input g fun o => (lists.lookup o).getD []).ignoreFields
        (d.input g fun o => (lists.lookup o).getD []).loadedClasses
        ((d.input g fun o => (lists.lookup o).getD []).searched w).2).log) left
      ((d.input g fun o => (lists.lookup o).getD []).tagged w).2.nodes := by
  let input := d.input g fun o => (lists.lookup o).getD []
  have searched : EntriesKept calls map (input.searched w).2.nodes :=
    kept.of_ignoreFieldsAt (ignoreFieldsAt_searched _ _ _ _)
  have lookup : ∀ klass, (lists.lookup klass).getD [] =
      ((d.nodeClasses.foldl d.fillClassIgnoreList ([], map, l)).1.lookup klass).getD [] := by
    intro klass
    rw [show d.nodeClasses.foldl d.fillClassIgnoreList ([], map, l) = _ from filled]
  have tagged := tagAllClassesLogged_entriesKept input.agent rfl
    (fun o => (lists.lookup o).getD []) l searched d.loadedClasses_nodup
    fun klass _ _ => lookup klass
  rw [show (d.loadedClasses.filter _).foldl d.fillClassIgnoreList ([], map, l) = _ from filled]
    at tagged
  exact tagged

variable {nodes nodes' : CHeap (MemoryNode Obj)} {l l' : Ledger} {left : StrMap (List IgnoreField)}

/-- The passes and printing change no list. -/
theorem EntriesKept.printed {ignoreFields : Obj → List IgnoreField} (empty : nodes.dom = ∅)
    (leaks : ((d.input g ignoreFields).searched ⟨d.tags, nodes⟩).1 ≠ [])
    (kept : EntriesKept calls map ((d.input g ignoreFields).tagged ⟨d.tags, nodes⟩).2.nodes)
    {s : Search Obj} {l₁ l₂ l₃ : Ledger} {fuel : ℕ} {isNeedReferences : Bool} {p : Printing Obj}
    (hpasses : heapIterationsCounted (d.input g ignoreFields).agent (d.input g ignoreFields).order
      (d.input g ignoreFields).agent.gdata.referenceChainLength.toNat 0
      (Search.start ((d.input g ignoreFields).tagged ⟨d.tags, nodes⟩).2, l₁) = .ok (s, l₂))
    (hprint : ((d.input g ignoreFields).searched ⟨d.tags, nodes⟩).1.foldlM
      (printLeakCounted d (d.input g ignoreFields).agent
        ((d.input g ignoreFields).objectsWithTag s.tags) fuel isNeedReferences)
      ⟨⟨s.nodes, []⟩, l₃⟩ = .ok p) : EntriesKept calls map p.nodes := by
  obtain ⟨some, -⟩ := blocksIn_start leaks empty
  obtain ⟨run, -⟩ := heapIterationsCounted_tracks some hpasses
  obtain ⟨-, unnamed⟩ := DumpInput.passes_held _ empty run
  have prints := foldlM_printLeakCounted_prints (p := ⟨⟨s.nodes, []⟩, l₃⟩) unnamed.namesOk hprint
  have passed := kept.of_ignoreFieldsAt (ignoreFieldsAt_heapIterations run)
  exact passed.of_ignoreFieldsAt prints.printed.ignoreFieldsAt_eq

/-- The records stay in the lists of the map and of the nodes to the end of the dump, and up to its end
or a fault each of them has one owner. -/
theorem findLeaksInTaggedObjectsLogged_keeps (empty : nodes.dom = ∅)
    (kept : EntriesKept calls (g.ignoreReferencedBy.elim [] (·.pairs)) nodes) :
    KeepsEntries calls (d.findLeaksInTaggedObjectsLogged g nodes l) (·.2.1) (·.1) := by
  unfold JvmDump.findLeaksInTaggedObjectsLogged
  dsimp only
  by_cases hleaks : ((d.input g fun _ => []).searched ⟨d.tags, nodes⟩).1.isEmpty = true
  · rw [if_pos hleaks]
    exact .pure (kept.of_ignoreFieldsAt (ignoreFieldsAt_searched _ _ _ _))
  · rw [if_neg hleaks]
    generalize hfilled : d.fillClassIgnoreLists _ _ = filling
    obtain ⟨lists, left, l₀⟩ := filling
    have tagged := EntriesKept.tagged (w := ⟨d.tags, nodes⟩) (g := g) _ kept hfilled
    have leaks : ((d.input g fun o => (lists.lookup o).getD []).searched ⟨d.tags, nodes⟩).1 ≠ [] :=
      fun none => hleaks (List.isEmpty_iff.2 none)
    refine .bind tagged.exact fun classes run => ?_
    obtain rfl := Except.ok.inj ((tagAllClassesLogged_result ..).symm.trans run)
    refine .lift tagged.exact ?_
    rintro ⟨s, l₁⟩ hpasses
    refine .lift tagged.exact fun p hprint => ?_
    have printed := tagged.printed empty leaks hpasses hprint
    refine (freeMemoryForLeakListLogged_frees ..).keepsEntries printed fun st freed => ?_
    refine (freeClassNodesLogged_frees _ _
      { st with ledger := st.ledger.free 2 }).keepsEntries freed fun st' freed' => ?_
    exact .pure freed'

theorem dumperThreadMainLogged_alwaysExact {m : AgentMemory Obj} (empty : m.nodes.dom = ∅)
    (kept : EntriesKept calls (m.globals.ignoreReferencedBy.elim [] (·.pairs)) m.nodes) :
    AlwaysExact (calls ++ (d.dumperThreadMainLogged m).log) := by
  have found := findLeaksInTaggedObjectsLogged_keeps (d := d) (l := d.loadedClasses.foldl
    (Ledger.generateTagForClass d) (Ledger.alloc ⟨m.globals.counters, m.jniLocals⟩ 1)) empty kept
  unfold JvmDump.dumperThreadMainLogged
  dsimp only
  revert found
  generalize d.findLeaksInTaggedObjectsLogged m.globals m.nodes _ = part
  intro found
  rcases run : part.result with e | r
  · rw [Logged.log_bind_of_error run]
    exact found.exact
  · rw [Logged.log_bind_of_ok run, ← List.append_assoc]
    exact found.exact.append .smDelete trivial

/-- Along an accepted attach and its dump, after any attaches that came to their end before it, each
record that `ini_handler` has made is at all times in one list, once, until it is freed with its
name, once; at the end of the dump all of them are freed.  The calls written down are those of the dump,
and the lists they leave are those of the map and of the nodes, after the configuration is read and when
the search for leaks has ended. -/
theorem ignored_fields_freed_once (cp : CPlatform) {earlier : List (Attach × JvmDump Obj)}
    {m : AgentMemory Obj} (run : earlier.foldlM (AgentMemory.attach cp) .loaded = .ok m)
    {a : Attach} {g : AgentGlobals} (accepted : initAgent cp m.globals a = .ok (true, g))
    (d : JvmDump Obj) :
    (d.dumperThreadMainLogged { m with globals := g }).result =
        d.dumperThreadMain { m with globals := g } ∧
      contentsOf (EntryMemory.after (a.entryCalls cp m.globals)).ignoreReferencedBy =
        g.ignoreReferencedBy.elim [] (·.pairs) ∧
      (∀ l nodes left l', d.findLeaksInTaggedObjects g m.nodes l = .ok (nodes, left, l') →
        contentsOf (EntryMemory.after (a.entryCalls cp m.globals ++
          (d.findLeaksInTaggedObjectsLogged g m.nodes l).log)).ignoreReferencedBy = left ∧
        ∀ node, ((EntryMemory.after (a.entryCalls cp m.globals ++
          (d.findLeaksInTaggedObjectsLogged g m.nodes l).log)).ignoreFields node).map (·.contents) =
            ignoreFieldsAt nodes node) ∧
      (∀ k, ∀ i < (EntryMemory.after ((a.dumpCalls cp d m g).take k)).created,
        (EntryMemory.after ((a.dumpCalls cp d m g).take k)).InOneList i ∨
          (EntryMemory.after ((a.dumpCalls cp d m g).take k)).FreedOnce i) ∧
      ∀ m', d.dumperThreadMain { m with globals := g } = .ok m' →
        ∀ i < (EntryMemory.after (a.dumpCalls cp d m g)).created,
          (EntryMemory.after (a.dumpCalls cp d m g)).FreedOnce i := by
  obtain ⟨idle, -, -⟩ := AgentMemory.idle_loaded.run_lost run
  obtain ⟨keys, -, -⟩ := initAgent_lost idle.fresh accepted
  have read := Attach.entryCalls_entriesKept idle.empty accepted
  have exact := dumperThreadMainLogged_alwaysExact (d := d) (m := { m with globals := g })
    idle.empty read
  have found : ∀ l nodes left l', d.findLeaksInTaggedObjects g m.nodes l = .ok (nodes, left, l') →
      EntriesKept (a.entryCalls cp m.globals ++ (d.findLeaksInTaggedObjectsLogged g m.nodes l).log)
        left nodes := by
    intro l nodes left l' find
    rw [← findLeaksInTaggedObjectsLogged_result] at find
    exact (findLeaksInTaggedObjectsLogged_keeps idle.empty read).kept _ find
  refine ⟨dumperThreadMainLogged_result .., read.map, fun l nodes left l' find =>
    ⟨(found l nodes left l' find).map, (found l nodes left l' find).nodes⟩,
    fun k i hi => (exact k).owned hi, fun m' dump => ?_⟩
  obtain ⟨⟨nodes, left, l⟩, find, -⟩ := Run.bind_eq_ok.1 dump
  have kept := found _ nodes left l find
  obtain ⟨none, -⟩ := findLeaksInTaggedObjects_tracks idle.empty keys find
  have calls : a.dumpCalls cp d m g = a.entryCalls cp m.globals ++
      (d.findLeaksInTaggedObjectsLogged g m.nodes (d.loadedClasses.foldl
        (Ledger.generateTagForClass d) (Ledger.alloc ⟨g.counters, m.jniLocals⟩ 1))).log ++
          [.smDelete] := by
    have find' := (findLeaksInTaggedObjectsLogged_result ..).trans find
    rw [List.append_assoc]
    exact congrArg _ (Logged.log_bind_of_ok find' _)
  rw [calls]
  intro i hi
  have last := kept.exact.after.step .smDelete trivial
  rw [EntryMemory.after_append_singleton] at hi ⊢
  refine last.freed (fun o => ?_) hi
  rw [EntryMemory.step_smDelete]
  cases o with
  | key classname => rfl
  | node address =>
    have empty := kept.ignoreFields_eq_nil
      (ignoreFieldsAt_of_notMem (none ▸ Finset.notMem_empty address))
    exact congrArg (List.map (·.id)) empty

end

/-- The one entry of a configuration goes to the node of its class, and is freed with it. -/
theorem ignored_fields_freed_once_holder : ∃ g m',
    initAgent Sample.unix64 (AgentMemory.loaded : AgentMemory (Fin 12)).globals
      ⟨some "reference_chain_length=5,conf_file=fields".toList, Sample.oneEntry⟩ = .ok (true, g) ∧
    (Sample.jvmDump [Sample.jniGlobal 3]).dumperThreadMain
      { AgentMemory.loaded with globals := g } = .ok m' ∧
    (EntryMemory.after (Attach.dumpCalls Sample.unix64
      ⟨some "reference_chain_length=5,conf_file=fields".toList, Sample.oneEntry⟩
        (Sample.jvmDump [Sample.jniGlobal 3]) .loaded g)).created = 1 ∧
    (EntryMemory.after (Attach.dumpCalls Sample.unix64
      ⟨some "reference_chain_length=5,conf_file=fields".toList, Sample.oneEntry⟩
        (Sample.jvmDump [Sample.jniGlobal 3]) .loaded g)).FreedOnce 0 := by
  obtain ⟨⟨accepted, g⟩, attached, h⟩ := Run.exists_ok_of_any
    (x := initAgent Sample.unix64 (AgentMemory.loaded : AgentMemory (Fin 12)).globals
      ⟨some "reference_chain_length=5,conf_file=fields".toList, Sample.oneEntry⟩)
    (p := fun r : Bool × AgentGlobals => r.1 &&
      (((Sample.jvmDump [Sample.jniGlobal 3]).dumperThreadMain
        { AgentMemory.loaded with globals := r.2 }).toOption.any fun _ => true) &&
      decide ((EntryMemory.after (Attach.dumpCalls Sample.unix64
        ⟨some "reference_chain_length=5,conf_file=fields".toList, Sample.oneEntry⟩
          (Sample.jvmDump [Sample.jniGlobal 3]) .loaded r.2)).created = 1))
    (by decide +kernel)
  obtain ⟨h, created⟩ := Bool.and_eq_true_iff.1 h
  obtain ⟨haccepted, hdump⟩ := Bool.and_eq_true_iff.1 h
  obtain rfl : accepted = true := haccepted
  obtain ⟨m', dump, -⟩ := Run.exists_ok_of_any hdump
  have one := of_decide_eq_true created
  have run : ([] : List (Attach × JvmDump (Fin 12))).foldlM (AgentMemory.attach Sample.unix64)
    .loaded = .ok .loaded := rfl
  obtain ⟨-, -, -, -, ends⟩ := ignored_fields_freed_once Sample.unix64 run attached
    (Sample.jvmDump [Sample.jniGlobal 3])
  exact ⟨g, m', attached, dump, one, ends m' dump 0 (by rw [one]; exact Nat.one_pos)⟩

end JLeaker
