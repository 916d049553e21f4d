import JLeaker.Proof.FreeBlocks
import JLeaker.Proof.Ini
import JLeaker.Proof.PrintBlocks
import JLeaker.Proof.StaleTags

/-!
# The blocks of a dump

Setting up a dump makes a node for each leak and each class; the entries of `ignore_referenced_by` that
a class takes are as many blocks in its node as they were in the map.  What the passes add and
printing leaves is in the graph, which is freed completely.  So a dump frees what it allocates and
the entries it was given, but for the texts of JNI local references (`dumperThreadMain_tracks`).
-/

namespace JLeaker

open CString

variable {Obj : Type}

/-! ## The entries of a map -/

/-- The keys of a map are different. -/
def KeysNodup {V : Type} (map : StrMap V) : Prop := (map.map Prod.fst).Nodup

section

variable {V : Type} {map : StrMap V} {key : Str} {value : V}

theorem keysNodup_nil : KeysNodup ([] : StrMap V) := List.nodup_nil

theorem KeysNodup.smPut (keys : KeysNodup map) (key : Str) (value : V) :
    KeysNodup (smPut map key value) := by
  unfold KeysNodup JLeaker.smPut
  split_ifs with known
  · have same : (map.map fun pair => if pair.1 = key then (key, value) else pair).map Prod.fst =
        map.map Prod.fst := by
      rw [List.map_map]
      refine List.map_congr_left fun pair _ => ?_
      simp only [Function.comp]
      split_ifs with h
      · exact h.symm
      · rfl
    rw [same]
    exact keys
  · rw [List.map_append, List.nodup_append]
    refine ⟨keys, by simp, ?_⟩
    rintro a ha b hb rfl
    obtain ⟨pair, hpair, rfl⟩ := List.mem_map.1 ha
    refine known (List.any_eq_true.2 ⟨pair, hpair, ?_⟩)
    simpa using hb

theorem smPut_cons_self (old : V) (unknown : key ∉ map.map Prod.fst) :
    smPut ((key, old) :: map) key value = (key, value) :: map := by
  have same : (map.map fun pair => if pair.1 = key then (key, value) else pair) = map := by
    refine (List.map_congr_left fun pair hpair => ?_).trans (List.map_id map)
    exact if_neg fun h : pair.1 = key => unknown (h ▸ List.mem_map_of_mem hpair)
  unfold smPut
  rw [List.any_cons, beq_self_eq_true, Bool.true_or, if_pos rfl, List.map_cons, if_pos rfl, same]

end

/-- A new value takes the place of the old one. -/
theorem entriesIn_smPut {map : StrMap (List IgnoreField)} (keys : KeysNodup map) (key : Str)
    (fields : List IgnoreField) :
    entriesIn (smPut map key fields) + ((smGet map key).getD []).length =
      entriesIn map + fields.length := by
  induction map with
  | nil => simp [entriesIn, smPut, smGet]
  | cons pair rest ih =>
    obtain ⟨known, old⟩ := pair
    obtain ⟨unknown, keys'⟩ := List.nodup_cons.1 keys
    by_cases heq : known = key
    · subst heq
      rw [smPut_cons_self old unknown]
      simp only [smGet, List.lookup_cons_self, Option.getD_some, entriesIn, List.map_cons,
        List.sum_cons]
      omega
    · have ih := ih keys'
      have hne : (key == known) = false := beq_false_of_ne (Ne.symm heq)
      rw [smPut_cons_of_ne heq]
      simp only [smGet, List.lookup_cons, hne, entriesIn, List.map_cons, List.sum_cons] at ih ⊢
      omega

/-! ## The ignored fields -/

section

variable [DecidableEq Obj] {d : JvmDump Obj}

/-- What `fillClassIgnoreList` has done for the classes `done`: the entries are in the lists of these
classes or still in the map. -/
structure ListsFilled (map : StrMap (List IgnoreField)) (l : Ledger) (done : List Obj)
    (st : List (Obj × List IgnoreField) × StrMap (List IgnoreField) × Ledger) : Prop where
  keys : KeysNodup st.2.1
  classes : ∀ klass, klass ∉ done → st.1.lookup klass = none
  entries : (done.map fun klass => ((st.1.lookup klass).getD []).length).sum + entriesIn st.2.1 =
    entriesIn map
  tracks : ∀ n, Tracks l n st.2.2 n

variable {map : StrMap (List IgnoreField)} {l : Ledger} {done : List Obj}
  {st : List (Obj × List IgnoreField) × StrMap (List IgnoreField) × Ledger}

/-- A class that gets no list. -/
theorem ListsFilled.none (filled : ListsFilled map l done st) {klass : Obj} (new : klass ∉ done)
    {l' : Ledger} (tracks : ∀ n, Tracks st.2.2 n l' n) :
    ListsFilled map l (done ++ [klass]) (st.1, st.2.1, l') where
  keys := filled.keys
  classes k hk := filled.classes k fun h => hk (List.mem_append_left _ h)
  entries := by
    rw [List.map_append, List.sum_append, List.map_singleton, filled.classes klass new]
    exact filled.entries
  tracks n := (filled.tracks n).trans (tracks n)

/-- A class that gets the list of its name. -/
theorem ListsFilled.some (filled : ListsFilled map l done st) {klass : Obj} (new : klass ∉ done)
    (classname : Str) {fields : List IgnoreField}
    (length : fields.length = ((smGet st.2.1 classname).getD []).length) {l' : Ledger}
    (tracks : ∀ n, Tracks st.2.2 n l' n) :
    ListsFilled map l (done ++ [klass])
      (st.1 ++ [(klass, fields)], smPut st.2.1 classname [], l') where
  keys := filled.keys.smPut classname []
  classes k hk := by
    rw [List.mem_append, List.mem_singleton, not_or] at hk
    have hne : (k == klass) = false := beq_false_of_ne hk.2
    rw [List.lookup_append, filled.classes k hk.1, List.lookup_cons, hne]
    rfl
  entries := by
    have taken := entriesIn_smPut filled.keys classname []
    have here : (st.1 ++ [(klass, fields)]).lookup klass = .some fields := by
      rw [List.lookup_append, filled.classes klass new, List.lookup_cons_self]
      rfl
    have old : (done.map fun k => (((st.1 ++ [(klass, fields)]).lookup k).getD []).length) =
        done.map fun k => ((st.1.lookup k).getD []).length := by
      refine List.map_congr_left fun k hk => ?_
      have hne : (k == klass) = false := beq_false_of_ne fun h => new (h ▸ hk)
      rw [List.lookup_append, List.lookup_cons, hne]
      cases st.1.lookup k <;> rfl
    have entries := filled.entries
    rw [List.map_append, List.sum_append, old, List.map_singleton, here]
    simp only [Option.getD_some, List.sum_singleton, List.length_nil] at taken ⊢
    omega
  tracks n := (filled.tracks n).trans (tracks n)

theorem ListsFilled.step (filled : ListsFilled map l done st) {klass : Obj} (new : klass ∉ done) :
    ListsFilled map l (done ++ [klass]) (d.fillClassIgnoreList st klass) := by
  unfold JvmDump.fillClassIgnoreList
  dsimp only
  split_ifs
  · exact filled.none new fun n => .refl _ n
  cases hfields : (smGet st.2.1 (d.jvm.className klass).toList).getD [] with
  | nil => exact filled.none new fun n => .allocFree _ n 1
  | cons field fields =>
    refine filled.some new _ (by rw [hfields, List.length_map]) fun n => ?_
    have indices := Tracks.foldl (n := n + 1)
      (fun l (e : IgnoreField) => tracks_getFieldOffset l (n + 1) d.hierarchy klass e.fieldName)
      (field :: fields) (st.2.2.alloc 1)
    exact ((Tracks.alloc _ n 1).trans indices).trans (.free _ n 1)

/-- What holds before the first class, and after each new class if it held before, holds after the
last one. -/
theorem fillClassIgnoreLists_invariant (d : JvmDump Obj) (map : StrMap (List IgnoreField))
    (l : Ledger)
    {P : List Obj → List (Obj × List IgnoreField) × StrMap (List IgnoreField) × Ledger → Prop}
    (init : P [] ([], map, l)) (step : ∀ done st klass, P done st → klass ∉ done →
      P (done ++ [klass]) (d.fillClassIgnoreList st klass)) :
    P d.nodeClasses (d.fillClassIgnoreLists map l) := by
  have nodup : d.nodeClasses.Nodup := d.loadedClasses_nodup.filter _
  unfold JvmDump.fillClassIgnoreLists
  generalize d.nodeClasses = classes at nodup
  induction classes using List.reverseRecOn with
  | nil => exact init
  | append_singleton classes klass ih =>
    obtain ⟨nodup, _, different⟩ := List.nodup_append.1 nodup
    rw [List.foldl_append]
    refine step _ _ klass (ih nodup) fun h => ?_
    exact different klass h klass (List.mem_singleton_self klass) rfl

/-- No entry is lost while the class nodes are made. -/
theorem fillClassIgnoreLists_filled (d : JvmDump Obj) (keys : KeysNodup map) (l : Ledger) :
    ListsFilled map l d.nodeClasses (d.fillClassIgnoreLists map l) := by
  apply fillClassIgnoreLists_invariant
  · exact ⟨keys, fun _ _ => rfl, Nat.zero_add _, fun n => .refl l n⟩
  · exact fun done st klass filled new => filled.step new

end

/-! ## Setting up -/

theorem blocks_leakNode (leak : LeakingNode) (o : Obj) :
    (leakNode leak o).blocks = newMemoryNodeBlocks := by
  simp [leakNode, MemoryNode.blocks, MemoryNode.namedBlocks, newMemoryNode, newMemoryNodeBlocks]

theorem blocks_classNode {numberOfLeaks : ℕ} (some : 0 < numberOfLeaks)
    (ignoreFields : Obj → List IgnoreField) (klass : Obj) :
    (classNode numberOfLeaks ignoreFields klass).blocks =
      newMemoryNodeBlocks + 2 * (ignoreFields klass).length := by
  have : numberOfLeaks ≠ 0 := by omega
  simp only [classNode, MemoryNode.blocks, MemoryNode.namedBlocks, newMemoryNode,
    newMemoryNodeBlocks, BitmaskSet.size_new, this, if_false, Option.isSome_none,
    Bool.false_eq_true, List.length_nil]
  omega

section

variable [DecidableEq Obj] (env : Agent Obj) {s : AgentState Obj}

/-- Each leak is a node of its own. -/
theorem searchObjectsForLeaks_blocks (size : ℕ → Obj → ℤ) (candidates : List (Obj × ℕ))
    (s : AgentState Obj) :
    (searchObjectsForLeaks env size candidates s).2.numberOfLeaks =
        s.numberOfLeaks + (searchObjectsForLeaks env size candidates s).1.length ∧
      blocksIn (searchObjectsForLeaks env size candidates s).2.nodes = blocksIn s.nodes +
        newMemoryNodeBlocks * (searchObjectsForLeaks env size candidates s).1.length := by
  unfold searchObjectsForLeaks
  induction candidates using List.reverseRecOn with
  | nil => exact ⟨rfl, rfl⟩
  | append_singleton candidates c ih =>
    rw [List.foldl_append, List.foldl_cons, List.foldl_nil]
    generalize candidates.foldl (searchObject env size) ([], s) = st at ih
    obtain ⟨leaks, s₁⟩ := st
    obtain ⟨number, blocks⟩ := ih
    rw [searchObject_eq]
    split_ifs
    · refine ⟨?_, ?_⟩
      · rw [List.length_append, ← Nat.add_assoc, ← number]
        rfl
      · show blocksIn (s₁.nodes.alloc env.malloc _) = _
        rw [blocksIn, CHeap.total_alloc, blocks_leakNode, List.length_append, Nat.mul_add,
          ← Nat.add_assoc, ← blocks]
        rfl
    · exact ⟨number, blocks⟩

/-- Each class but one is a node with its entries. -/
theorem tagAllClasses_blocks (leaks : 0 < s.numberOfLeaks) (ignoreFields : Obj → List IgnoreField)
    (classes : List Obj) :
    (tagAllClasses env ignoreFields classes s).2.numberOfLeaks = s.numberOfLeaks ∧
      blocksIn (tagAllClasses env ignoreFields classes s).2.nodes = blocksIn s.nodes +
        ((classes.filter fun klass => decide (klass ≠ env.jvm.classClass)).map fun klass =>
          newMemoryNodeBlocks + 2 * (ignoreFields klass).length).sum := by
  unfold tagAllClasses
  induction classes using List.reverseRecOn with
  | nil => exact ⟨rfl, rfl⟩
  | append_singleton classes klass ih =>
    rw [List.foldl_append, List.foldl_cons, List.foldl_nil, List.filter_append, List.map_append,
      List.sum_append, ← Nat.add_assoc, ← ih.2]
    generalize classes.foldl (tagClass env ignoreFields) ([], s) = st at ih
    obtain ⟨classNodes, s₁⟩ := st
    obtain ⟨number, -⟩ := ih
    dsimp only at number ⊢
    rw [tagClass_eq, List.filter_singleton]
    by_cases h : klass = env.jvm.classClass
    · simp only [h, ne_eq, not_true_eq_false, decide_false, if_true]
      exact ⟨number, rfl⟩
    · simp only [h, ne_eq, not_false_eq_true, decide_true, if_false, cond_true]
      refine ⟨number, ?_⟩
      show blocksIn (s₁.nodes.alloc env.malloc _) = _
      rw [blocksIn, CHeap.total_alloc, blocks_classNode (number ▸ leaks), List.map_singleton,
        List.sum_singleton]
      rfl

end

/-! ## The passes -/

/-- No node has a class name before printing. -/
def Unnamed (h : CHeap (MemoryNode Obj)) : Prop :=
  ∀ a nd, h.get? a = some nd → nd.classname = none

theorem Unnamed.namesOk {h : CHeap (MemoryNode Obj)} (unnamed : Unnamed h) : NamesOk h :=
  fun a nd hnd _ => unnamed a nd hnd

section

variable [DecidableEq Obj] {env : Agent Obj} {s s' : Search Obj} {r : HeapReference Obj}

theorem Unnamed.outcome (unnamed : Unnamed s.nodes) (out : Outcome env s r s') :
    Unnamed s'.nodes := by
  intro a nd' h
  cases out with
  | skipped => exact unnamed a nd' h
  | dropped =>
    rw [get?_countFanIn, Option.map_eq_some_iff] at h
    obtain ⟨nd, hnd, rfl⟩ := h
    exact unnamed a nd hnd
  | recorded thisNode records =>
    obtain ⟨nd, rfl, hnd | ⟨_, rfl⟩⟩ := get?_recorded_eq_some records.node h
    · exact unnamed a nd hnd
    · rfl

variable (d : DumpInput Obj) {w : World Obj}

/-- The lists hold the nodes of a dump that starts without nodes, whatever the tags are. -/
theorem DumpInput.heldByLists_start (empty : w.nodes.dom = ∅) :
    HeldByLists (d.searched w).1 (d.tagged w).1 (d.start w) := by
  have held := (d.toDump w).heldByLists_start
  rw [← d.masked_start empty, ← (d.searched_eq empty).1, ← (d.tagged_eq empty).1] at held
  exact ⟨held.owned, held.labelled, held.allocated, held.freed⟩

theorem DumpInput.unnamed_start (empty : w.nodes.dom = ∅) : Unnamed (d.start w).nodes := by
  intro a nd h
  have hnode : (d.toDump w).start.nodes.get? a = some nd := by
    rw [← d.masked_start empty]
    exact h
  rcases (d.toDump w).node_cases hnode with ⟨_, _, o, _, rfl⟩ | ⟨klass, _, _, rfl⟩
  · rfl
  · rfl

/-- What the passes leave to printing and freeing. -/
theorem DumpInput.passes_held (empty : w.nodes.dom = ∅) (run : d.passes w = .ok s) :
    Owned (d.searched w).1 (d.tagged w).1 s.nodes ∧ Unnamed s.nodes := by
  have start : HeldByLists (d.searched w).1 (d.tagged w).1 (d.start w) ∧ Unnamed (d.start w).nodes :=
    ⟨d.heldByLists_start empty, d.unnamed_start empty⟩
  have kept := heapIterations_invariant (P := fun _ _ => True)
    (I := fun s => HeldByLists (d.searched w).1 (d.tagged w).1 s ∧ Unnamed s.nodes)
    (fun _ h => ⟨h.1.resetNodesFound, h.2⟩)
    (fun _ _ _ h _ report =>
      ⟨h.1.outcome (reportReference_outcome report), h.2.outcome (reportReference_outcome report)⟩)
    (iterationsMeet_of_forall (fun _ _ _ _ => trivial) _ _ _) start run
  exact ⟨kept.1.owned, kept.2⟩

end

/-! ## The dump -/

section

variable [DecidableEq Obj] {d : JvmDump Obj} {g : AgentGlobals}
  {nodes nodes' : CHeap (MemoryNode Obj)} {l l' : Ledger} {left : StrMap (List IgnoreField)}

/-- The blocks of the graph when the passes begin. -/
theorem blocksIn_start {g : AgentGlobals} {w : World Obj} {lists : Obj → List IgnoreField}
    (leaks : ((d.input g lists).searched w).1 ≠ []) (empty : w.nodes.dom = ∅) :
    0 < ((d.input g lists).start w).numberOfLeaks ∧
      blocksIn ((d.input g lists).start w).nodes =
        newMemoryNodeBlocks * ((d.input g lists).searched w).1.length +
          (d.nodeClasses.map fun klass => newMemoryNodeBlocks + 2 * (lists klass).length).sum := by
  let input := d.input g lists
  obtain ⟨number, blocks⟩ := searchObjectsForLeaks_blocks input.agent input.size
    (input.candidates (input.begin w).tags) (input.begin w)
  have some : 0 < (input.searched w).2.numberOfLeaks :=
    lt_of_lt_of_eq (Nat.add_pos_right _ (List.length_pos_of_ne_nil leaks)) number.symm
  obtain ⟨number', blocks'⟩ := tagAllClasses_blocks input.agent some lists d.loadedClasses
  have none : blocksIn (input.begin w).nodes = 0 := by
    show blocksIn w.nodes.restart = 0
    rw [w.nodes.restart_of_dom_eq_empty empty]
    rfl
  rw [none, Nat.zero_add] at blocks
  refine ⟨lt_of_lt_of_eq some number'.symm, ?_⟩
  exact blocks'.trans (congrArg (· + _) blocks)

omit [DecidableEq Obj] in
/-- The nodes of the classes and the entries in them. -/
theorem sum_classNodes (classes : List Obj) (f : Obj → ℕ) :
    (classes.map fun klass => newMemoryNodeBlocks + 2 * f klass).sum =
      newMemoryNodeBlocks * classes.length + 2 * (classes.map f).sum := by
  induction classes with
  | nil => rfl
  | cons klass classes ih =>
    simp only [List.map_cons, List.sum_cons, ih, List.length_cons, Nat.mul_succ]
    omega

omit [DecidableEq Obj] in
/-- Freeing the list of leaks, which has a block for each, and the class nodes. -/
theorem tracks_teardown {leaks : List LeakingNode} {classNodes : List ℕ} {p : Printing Obj}
    {st₁ st₂ : Freeing Obj} (owned : Owned leaks classNodes p.nodes) {fuel nodesFreed : ℕ}
    (enough : p.nodes.dom.card < fuel)
    (hleaks : freeMemoryForLeakListCounted fuel leaks ⟨⟨p.nodes, nodesFreed, []⟩, p.ledger⟩ =
      .ok st₁)
    (hclasses : freeClassNodesCounted fuel classNodes { st₁ with ledger := st₁.ledger.free 2 } =
      .ok st₂) :
    st₂.nodes.dom = ∅ ∧ Tracks p.ledger (blocksIn p.nodes + leaks.length + 2) st₂.ledger 0 := by
  obtain ⟨hplain, blocks⟩ := freeMemoryForLeakListCounted_frees hleaks
  obtain ⟨⟨kept, hplain'⟩, blocks'⟩ := freeClassNodesCounted_frees hclasses
  obtain ⟨st, st', hst, hst', none, -⟩ := owned.teardown enough nodesFreed
  obtain rfl := Except.ok.inj (hst.symm.trans hplain)
  obtain rfl := (Prod.mk.inj (Except.ok.inj (hst'.symm.trans hplain'))).2
  refine ⟨none, ?_⟩
  have left := blocksLeft_of_dom_eq_empty none
  have all := blocksLeft_of_unmarked owned.unmarked
  have first := blocks.tracks.add 2
  have second : Tracks st₁.ledger (blocksLeft st₁.nodes + 2) (st₁.ledger.free 2)
      (blocksLeft st₁.nodes) := .free _ _ 2
  have third := blocks'.tracks
  rw [left] at third
  rw [← all]
  exact (first.trans second).trans third

/-- Nothing is left of the graph, and no entry is lost. -/
theorem findLeaksInTaggedObjects_tracks (empty : nodes.dom = ∅)
    (keys : KeysNodup (g.ignoreReferencedBy.elim [] (·.pairs)))
    (h : d.findLeaksInTaggedObjects g nodes l = .ok (nodes', left, l')) :
    nodes'.dom = ∅ ∧
      Tracks l (2 * entriesOf g.ignoreReferencedBy) l' (2 * entriesIn left) := by
  unfold JvmDump.findLeaksInTaggedObjects at h
  dsimp only at h
  by_cases hleaks : ((d.input g fun _ => []).searched ⟨d.tags, nodes⟩).1.isEmpty = true
  · rw [if_pos hleaks] at h
    cases h
    have none : ((d.input g fun _ => []).searched ⟨d.tags, nodes⟩).1 = [] := by simpa using hleaks
    refine ⟨?_, ?_⟩
    · obtain ⟨same, retags⟩ := (d.input g fun _ => []).searched_eq (w := ⟨d.tags, nodes⟩) empty
      rw [retags.nodes]
      refine Finset.eq_empty_of_forall_notMem fun a ha => ?_
      have listed := (Dump.leaks_searched _).mem a |>.1 ha
      rw [← same, none] at listed
      cases listed
    · rw [none]
      exact .allocFree _ _ 2
  · rw [if_neg hleaks] at h
    obtain ⟨⟨s, l₁⟩, hpasses, h⟩ := Run.bind_eq_ok.1 h
    obtain ⟨p, hprint, h⟩ := Run.bind_eq_ok.1 h
    obtain ⟨st₁, hleakList, h⟩ := Run.bind_eq_ok.1 h
    obtain ⟨st₂, hclassNodes, h⟩ := Run.bind_eq_ok.1 h
    cases h
    have filled := fillClassIgnoreLists_filled d keys ((l.alloc 2).alloc ((1 + newMemoryNodeBlocks) *
      ((d.input g fun _ => []).searched ⟨d.tags, nodes⟩).1.length))
    generalize d.fillClassIgnoreLists _ _ = filling at *
    obtain ⟨lists, left, l₀⟩ := filling
    have leaks : ((d.input g fun o => (lists.lookup o).getD []).searched ⟨d.tags, nodes⟩).1 ≠ [] :=
      fun none => hleaks (List.isEmpty_iff.2 none)
    obtain ⟨some, start⟩ := blocksIn_start leaks empty
    rw [sum_classNodes] at start
    rw [show ((d.input g fun o => (lists.lookup o).getD []).searched ⟨d.tags, nodes⟩).1 =
      ((d.input g fun _ => []).searched ⟨d.tags, nodes⟩).1 from rfl] at start
    obtain ⟨run, passed⟩ := heapIterationsCounted_tracks some hpasses
    obtain ⟨owned, unnamed⟩ := DumpInput.passes_held _ empty run
    have owned : Owned ((d.input g fun _ => []).searched ⟨d.tags, nodes⟩).1 _ _ := owned
    have printed := foldlM_printLeakCounted_prints
      (p := ⟨⟨s.nodes, []⟩, l₁.free 3⟩) unnamed.namesOk hprint
    have enough : p.nodes.dom.card < s.nodes.dom.card + 1 := by
      rw [printed.printed.dom]
      exact Nat.lt_succ_self _
    obtain ⟨none, freed⟩ :=
      tracks_teardown (owned.printed printed.printed) enough hleakList hclassNodes
    have entries : _ = entriesOf g.ignoreReferencedBy := filled.entries
    have filled := filled.tracks 0
    have printed := printed.tracks
    refine ⟨none, ?_, ?_⟩
    · -- every block is one of a list, of the graph, of the passes or of an entry
      have h₁ := filled.owed
      have h₂ := passed.owed
      have h₃ := printed.owed
      have h₄ := freed.owed
      simp only [Ledger.owed_alloc, Ledger.owed_free, newMemoryNodeBlocks] at h₁ h₂ h₃ h₄ start ⊢
      dsimp only at entries
      omega
    · exact ((filled.jniLocals.trans passed.jniLocals).trans printed.jniLocals).trans
        freed.jniLocals

/-- A dump frees what it allocates and the entries it was given. -/
theorem dumperThreadMain_tracks {m m' : AgentMemory Obj} (empty : m.nodes.dom = ∅)
    (keys : KeysNodup (m.globals.ignoreReferencedBy.elim [] (·.pairs)))
    (h : d.dumperThreadMain m = .ok m') :
    m'.nodes.dom = ∅ ∧ m'.globals.ignoreReferencedBy = none ∧
      m'.globals.vmStarted = m.globals.vmStarted ∧
      Tracks ⟨m.globals.counters, m.jniLocals⟩ (2 * entriesOf m.globals.ignoreReferencedBy)
        ⟨m'.globals.counters, m'.jniLocals⟩ 0 := by
  unfold JvmDump.dumperThreadMain at h
  obtain ⟨⟨nodes, left, l⟩, hfind, h⟩ := Run.bind_eq_ok.1 h
  cases h
  obtain ⟨none, found⟩ := findLeaksInTaggedObjects_tracks empty keys hfind
  let l₀ : Ledger := ⟨m.globals.counters, m.jniLocals⟩
  let n := 2 * entriesOf m.globals.ignoreReferencedBy
  have classes : Tracks (l₀.alloc 1) (n + 1) (d.loadedClasses.foldl (Ledger.generateTagForClass d)
      (l₀.alloc 1)) (n + 1) :=
    .foldl (fun l klass => tracks_generateTagForClass l (n + 1) d klass) _ _
  have tagged : Tracks l₀ n _ (n + 1) := (Tracks.alloc l₀ n 1).trans classes
  refine ⟨none, rfl, rfl, ?_⟩
  have released : Tracks l (2 * entriesIn left + 1)
      ((l.free (2 * entriesIn left)).free 1) 0 := by
    rw [Nat.add_comm]
    exact (Tracks.free l 1 _).trans (.free _ 0 1)
  exact (tagged.trans (found.add 1)).trans released

end

end JLeaker
