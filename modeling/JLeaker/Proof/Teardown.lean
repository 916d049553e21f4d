import JLeaker.Proof.PrintLeaks
import JLeaker.Proof.Release
import JLeaker.Proof.SearchInvariant

/-!
# The end of a dump

The leak list holds one pointer to each of its nodes and `classNodes` one to each class node; every
other pointer is a record, in the list of a node that some leak node reaches.  So freeing the leak
list empties every list, and each class node is freed by its own entry of `classNodes`.
-/

namespace JLeaker

variable {Obj : Type}

/-- The graph as `findLeaksInTaggedObjects` owns it: counters that count the records and the two
lists, and records on nodes that the leaks reach. -/
structure Owned (leaks : List LeakingNode) (classNodes : List ℕ) (h : CHeap (MemoryNode Obj)) :
    Prop where
  counted : Counted (↑(leaks.map (·.node)) + ↑classNodes) h
  unmarked : ∀ a nd, h.get? a = some nd → nd.visited = false
  reached : ∀ a, referencesOf h a ≠ [] → ∃ leak ∈ leaks, Reaches h leak.node a
  nodup : classNodes.Nodup

/-! ## Freeing the two lists -/

theorem Released.unmarked {taken : Multiset (ℕ × MemoryReferer)} {st st' : FreeState Obj}
    (released : Released taken st st')
    (unmarked : ∀ a nd, st.nodes.get? a = some nd → nd.visited = false) :
    ∀ a nd, st'.nodes.get? a = some nd → nd.visited = false := by
  intro a nd' h
  obtain ⟨nd, hnd, hv⟩ := released.survivor a nd' h
  exact hv.symm.trans (unmarked a nd hnd)

theorem freeMemoryForLeakList_releases {fuel : ℕ} (leaks : List LeakingNode) {owed : Multiset ℕ}
    {st : FreeState Obj} (counted : Counted (↑(leaks.map (·.node)) + owed) st.nodes)
    (enough : (unvisited st.nodes).card < fuel) :
    ∃ st', freeMemoryForLeakList fuel leaks st = .ok st' ∧ Counted owed st'.nodes ∧
      Released 0 st st' ∧ ∀ leak ∈ leaks, st'.nodes.valueAt unfreedOf leak.node = 0 := by
  induction leaks generalizing st with
  | nil =>
    have counted' : Counted owed st.nodes := by
      have h : (↑(List.map (·.node) ([] : List LeakingNode)) : Multiset ℕ) + owed = owed :=
        zero_add owed
      rwa [h] at counted
    exact ⟨st, rfl, counted', .refl st, by simp⟩
  | cons leak rest ih =>
    rw [List.map_cons, ← Multiset.cons_coe, ← Multiset.singleton_add, add_assoc] at counted
    obtain ⟨freed, st₁, hfree, gives⟩ :=
      freeMemoryNode_frees fuel (some leak.node) _ st counted enough
    have enough' : (unvisited st₁.nodes).card < fuel :=
      lt_of_le_of_lt (Finset.card_le_card gives.released.unvisited_subset) enough
    obtain ⟨st', hrest, counted', released, lists⟩ := ih gives.counted enough'
    refine ⟨st', ?_, counted', gives.released.trans released, fun l hl => ?_⟩
    · rw [freeMemoryForLeakList, hfree, Run.ok_bind]
      exact hrest
    · rcases List.mem_cons.1 hl with rfl | hl
      · exact released.list_eq_zero (gives.list _ rfl)
      · exact lists l hl

theorem unfreed_eq_zero {h : CHeap (MemoryNode Obj)} (lists : ∀ a, h.valueAt unfreedOf a = 0) :
    unfreed h = 0 := Finset.sum_eq_zero fun a _ => lists a

/-- Without records only the nodes that pointers are owed to live. -/
theorem Counted.mem_owed {owed : Multiset ℕ} {h : CHeap (MemoryNode Obj)}
    (counted : Counted owed h) (unmarked : ∀ a nd, h.get? a = some nd → nd.visited = false)
    (lists : ∀ a, h.valueAt unfreedOf a = 0) {a : ℕ} (ha : a ∈ h.dom) : a ∈ owed := by
  obtain ⟨nd, hnd⟩ := h.exists_get?_of_mem ha
  have positive := counted.held a nd hnd (unmarked a nd hnd)
  have hcount := counted.count a nd hnd
  rw [unfreed_eq_zero lists, pointees, Multiset.filterMap_zero, add_zero] at hcount
  exact Multiset.count_pos.1 (by omega)

/-- When all lists are empty, every class node is freed by its own entry. -/
theorem freeClassNodes_releases {fuel : ℕ} {classNodes : List ℕ} {st : FreeState Obj}
    (counted : Counted ↑classNodes st.nodes) (nodup : classNodes.Nodup)
    (unmarked : ∀ a nd, st.nodes.get? a = some nd → nd.visited = false)
    (lists : ∀ a, st.nodes.valueAt unfreedOf a = 0) (enough : (unvisited st.nodes).card < fuel) :
    ∃ st', freeClassNodes fuel classNodes st = .ok ([], st') ∧ Released 0 st st' ∧
      st'.nodes.dom = ∅ := by
  induction classNodes generalizing st with
  | nil =>
    refine ⟨st, rfl, .refl st, Finset.eq_empty_of_forall_notMem fun a ha => ?_⟩
    exact Multiset.notMem_zero a (counted.mem_owed unmarked lists ha)
  | cons node rest ih =>
    rw [← Multiset.cons_coe, ← Multiset.singleton_add] at counted
    obtain ⟨hnode, nodup'⟩ := List.nodup_cons.1 nodup
    obtain ⟨freed, st₁, hfree, gives⟩ := freeMemoryNode_frees fuel (some node) _ st counted enough
    have unmarked₁ := gives.released.unmarked unmarked
    have lists₁ : ∀ a, st₁.nodes.valueAt unfreedOf a = 0 := fun a =>
      gives.released.list_eq_zero (lists a)
    have enough₁ : (unvisited st₁.nodes).card < fuel :=
      lt_of_le_of_lt (Finset.card_le_card gives.released.unvisited_subset) enough
    have hfreed : freed = true := (gives.freed node rfl).2 fun hmem =>
      hnode (gives.counted.mem_owed unmarked₁ lists₁ hmem)
    obtain ⟨st', hrest, released, hdom⟩ := ih gives.counted nodup' unmarked₁ lists₁ enough₁
    refine ⟨st', ?_, gives.released.trans released, hdom⟩
    rw [freeClassNodes, hfree, Run.ok_bind]
    simp only [hrest, Run.ok_bind, hfreed, if_true]
    rfl

/-! ## The whole graph -/

section

variable {h : CHeap (MemoryNode Obj)}
  (unmarked : ∀ a nd, h.get? a = some nd → nd.visited = false)
include unmarked

theorem valueAt_unfreedOf (a : ℕ) :
    h.valueAt unfreedOf a = ↑((referencesOf h a).map (Prod.mk a)) := by
  unfold referencesOf
  rcases hnd : h.get? a with _ | nd
  · simp [CHeap.valueAt, hnd]
  · exact valueAt_of_unvisited hnd (unmarked a nd hnd)

/-- The number of times a record is in the lists of the graph. -/
theorem count_unfreed (a : ℕ) (ref : MemoryReferer) :
    (unfreed h).count (a, ref) = (Multiset.ofList (referencesOf h a)).count ref := by
  have elsewhere : ∀ b ∈ h.dom, b ≠ a → (h.valueAt unfreedOf b).count (a, ref) = 0 := by
    intro b _ hb
    rw [valueAt_unfreedOf unmarked, Multiset.count_eq_zero]
    simp [hb]
  have nowhere : a ∉ h.dom → (h.valueAt unfreedOf a).count (a, ref) = 0 := by
    intro ha
    rw [CHeap.valueAt_of_notMem ha, Multiset.count_zero]
  rw [unfreed, CHeap.total, Multiset.count_sum', Finset.sum_eq_single a elsewhere nowhere,
    valueAt_unfreedOf unmarked, ← Multiset.map_coe]
  exact Multiset.count_map_eq_count' _ _ (Prod.mk_right_injective a) _

end

namespace Owned

variable {leaks : List LeakingNode} {classNodes : List ℕ} {h : CHeap (MemoryNode Obj)}

/-- Once the lists of the leak nodes are empty, so are those of all nodes they reach. -/
theorem list_of_reaches (owned : Owned leaks classNodes h) {nodesFreed : ℕ} {st : FreeState Obj}
    (released : Released 0 ⟨h, nodesFreed, []⟩ st) {a b : ℕ}
    (list : st.nodes.valueAt unfreedOf a = 0) (reaches : Reaches h a b) :
    st.nodes.valueAt unfreedOf b = 0 := by
  induction reaches with
  | refl => exact list
  | tail _ step ih =>
    obtain ⟨ref, href, hnode⟩ := step
    refine released.followed _ ref _ ?_ ih hnode
    rw [valueAt_unfreedOf owned.unmarked]
    exact List.mem_map_of_mem href

/-- Freeing both lists frees every node and every record once. -/
theorem teardown (owned : Owned leaks classNodes h) {fuel : ℕ} (enough : h.dom.card < fuel)
    (nodesFreed : ℕ) :
    ∃ st st', freeMemoryForLeakList fuel leaks ⟨h, nodesFreed, []⟩ = .ok st ∧
      freeClassNodes fuel classNodes st = .ok ([], st') ∧ st'.nodes.dom = ∅ ∧
      st'.nodesFreed = nodesFreed + h.dom.card ∧
      ∀ a ref, (Multiset.ofList st'.freedReferers).count (a, ref) =
        (Multiset.ofList (referencesOf h a)).count ref := by
  let st₀ : FreeState Obj := ⟨h, nodesFreed, []⟩
  have enough₀ : (unvisited st₀.nodes).card < fuel :=
    lt_of_le_of_lt (card_unvisited_le st₀.nodes) enough
  have counted₀ : Counted (↑(leaks.map (·.node)) + ↑classNodes) st₀.nodes := owned.counted
  obtain ⟨st, hleaks, counted, released, leakLists⟩ :=
    freeMemoryForLeakList_releases leaks counted₀ enough₀
  have lists : ∀ a, st.nodes.valueAt unfreedOf a = 0 := by
    intro a
    by_cases hlist : referencesOf h a = []
    · apply released.list_eq_zero
      rw [valueAt_unfreedOf owned.unmarked, hlist]
      rfl
    · obtain ⟨leak, hleak, hreach⟩ := owned.reached a hlist
      exact owned.list_of_reaches released (leakLists leak hleak) hreach
  have enough₁ : (unvisited st.nodes).card < fuel :=
    lt_of_le_of_lt (Finset.card_le_card released.unvisited_subset) enough₀
  obtain ⟨st', hclasses, released', hdom⟩ := freeClassNodes_releases counted owned.nodup
    (released.unmarked owned.unmarked) lists enough₁
  have all := released.trans released'
  refine ⟨st, st', hleaks, hclasses, hdom, ?_, fun a ref => ?_⟩
  · have := all.nodes
    rwa [hdom, Finset.card_empty, Nat.add_zero] at this
  · have lists' : unfreed st'.nodes = 0 := unfreed_eq_zero fun b => released'.list_eq_zero (lists b)
    have hlog : Multiset.ofList st'.freedReferers = unfreed h := by
      have := all.referers
      rw [lists', add_zero, add_zero, add_zero] at this
      exact this.trans (zero_add (unfreed h))
    rw [hlog, count_unfreed owned.unmarked]

end Owned

/-! ## Printing in between -/

theorem Printed.unfreed_eq {h h' : CHeap (MemoryNode Obj)} (printed : Printed h h') :
    unfreed h' = unfreed h := by
  refine CHeap.total_congr printed.dom fun a => ?_
  unfold CHeap.valueAt
  rcases hnd' : h'.get? a with _ | nd'
  · have ha : a ∉ h.dom := by
      rw [← printed.dom, h'.mem_dom, hnd']
      simp
    rw [h.get?_of_notMem ha]
  · obtain ⟨nd, hnd, hvisited, hstart, _⟩ := printed.node_back hnd'
    rw [hnd]
    simp only [Option.elim_some, unfreedOf, hvisited, hstart]

/-- Printing takes nothing from the graph. -/
theorem Owned.printed {leaks : List LeakingNode} {classNodes : List ℕ}
    {h h' : CHeap (MemoryNode Obj)} (owned : Owned leaks classNodes h) (printed : Printed h h') :
    Owned leaks classNodes h' where
  counted :=
    { count := fun a nd' h => by
        obtain ⟨nd, hnd, _, _, hcount⟩ := printed.node_back h
        rw [printed.unfreed_eq, hcount]
        exact owned.counted.count a nd hnd
      mem := fun a ha => by
        rw [printed.unfreed_eq] at ha
        exact printed.dom ▸ owned.counted.mem a ha
      held := fun a nd' h hv => by
        obtain ⟨nd, hnd, hvisited, _, hcount⟩ := printed.node_back h
        rw [hcount]
        exact owned.counted.held a nd hnd (hvisited.symm.trans hv) }
  unmarked a nd' h := by
    obtain ⟨nd, hnd, hvisited, _⟩ := printed.node_back h
    exact hvisited.trans (owned.unmarked a nd hnd)
  reached a ha := by
    unfold Reaches PointsTo
    rw [printed.referencesOf_eq] at ha ⊢
    exact owned.reached a ha
  nodup := owned.nodup

/-! ## The graph during the passes -/

/-- What the reports keep of `Owned`: labels and records only where the leaks reach. -/
structure HeldByLists (leaks : List LeakingNode) (classNodes : List ℕ) (s : Search Obj) : Prop where
  owned : Owned leaks classNodes s.nodes
  labelled : ∀ a nd, s.nodes.get? a = some nd → nd.leaksRelated.isEmpty = false →
    ∃ leak ∈ leaks, Reaches s.nodes leak.node a
  allocated : s.nodesAllocated = s.nodes.dom.card
  freed : s.nodesFreed = 0

section

variable [DecidableEq Obj] {env : Agent Obj} {s s' : Search Obj} {r : HeapReference Obj}
  {thisNode : MemoryNode Obj} {leaks : List LeakingNode} {classNodes : List ℕ}

theorem unfreed_countFanIn : unfreed (s.countFanIn env r).nodes = unfreed s.nodes := by
  refine CHeap.total_congr (dom_countFanIn env s r) fun a => ?_
  simp only [CHeap.valueAt, get?_countFanIn]
  cases s.nodes.get? a <;> rfl

theorem HeldByLists.countFanIn (held : HeldByLists leaks classNodes s) :
    HeldByLists leaks classNodes (s.countFanIn env r) := by
  have back : ∀ {a nd'}, (s.countFanIn env r).nodes.get? a = some nd' →
      ∃ nd, s.nodes.get? a = some nd ∧ nd' = { nd with fanIn := nd'.fanIn } := by
    intro a nd' h
    rw [get?_countFanIn, Option.map_eq_some_iff] at h
    obtain ⟨nd, hnd, rfl⟩ := h
    exact ⟨nd, hnd, rfl⟩
  have reaches : ∀ a b, Reaches s.nodes a b → Reaches (s.countFanIn env r).nodes a b := by
    unfold Reaches PointsTo
    rw [referencesOf_countFanIn]
    exact fun _ _ h => h
  refine ⟨⟨⟨fun a nd' h => ?_, ?_, fun a nd' h => ?_⟩, fun a nd' h => ?_, fun a ha => ?_,
    held.owned.nodup⟩, fun a nd' h hl => ?_, held.allocated, held.freed⟩
  · obtain ⟨nd, hnd, heq⟩ := back h
    rw [unfreed_countFanIn, heq]
    exact held.owned.counted.count a nd hnd
  · rw [unfreed_countFanIn]
    exact held.owned.counted.mem
  · obtain ⟨nd, hnd, heq⟩ := back h
    rw [heq]
    exact held.owned.counted.held a nd hnd
  · obtain ⟨nd, hnd, heq⟩ := back h
    rw [heq]
    exact held.owned.unmarked a nd hnd
  · rw [referencesOf_countFanIn] at ha
    obtain ⟨leak, hleak, hreach⟩ := held.owned.reached a ha
    exact ⟨leak, hleak, reaches _ _ hreach⟩
  · obtain ⟨nd, hnd, heq⟩ := back h
    rw [heq] at hl
    obtain ⟨leak, hleak, hreach⟩ := held.labelled a nd hnd hl
    exact ⟨leak, hleak, reaches _ _ hreach⟩

omit [DecidableEq Obj] in
theorem unfreed_grownHeap (env : Agent Obj) (s : Search Obj) (r : HeapReference Obj) :
    unfreed (grownHeap env s r) = unfreed s.nodes := by
  unfold grownHeap
  split
  · rfl
  · split_ifs
    · rfl
    · rw [unfreed, CHeap.total_alloc]
      exact add_zero _

/-- The report adds its record to the unfreed ones. -/
theorem unfreed_recorded (hthis : s.nodes.get? (s.tags r.referee) = some thisNode)
    (unmarked : thisNode.visited = false) :
    unfreed (s.recorded env r thisNode).nodes =
      {(s.tags r.referee, newReferer env s r)} + unfreed s.nodes := by
  have hold : (grownHeap env s r).get? (s.tags r.referee) = some thisNode :=
    get?_grownHeap.2 (.inl hthis)
  have hnew : (s.recorded env r thisNode).nodes.get? (s.tags r.referee) = some _ :=
    get?_recorded_of_get? hthis hthis
  have others : ∀ b, b ≠ s.tags r.referee →
      (s.recorded env r thisNode).nodes.valueAt unfreedOf b =
        (grownHeap env s r).valueAt unfreedOf b := by
    intro b hb
    simp only [CHeap.valueAt, get?_recorded hthis]
    rcases (grownHeap env s r).get? b with _ | nd
    · rfl
    · simp [unfreedOf, recordedNode, hb]
  have total := CHeap.total_add_valueAt (dom_recorded env s r thisNode)
    (CHeap.mem_dom_of_get? _ hold) others
  have gain : (s.recorded env r thisNode).nodes.valueAt unfreedOf (s.tags r.referee) =
      {(s.tags r.referee, newReferer env s r)} +
        (grownHeap env s r).valueAt unfreedOf (s.tags r.referee) := by
    rw [valueAt_of_unvisited hnew unmarked, valueAt_of_unvisited hold unmarked]
    simp only [recordedNode, if_true, List.map_append, List.map_cons, List.map_nil]
    rw [← Multiset.coe_add, add_comm, Multiset.coe_singleton]
  rw [gain, ← add_assoc] at total
  rw [unfreed, add_right_cancel total, add_comm, ← unfreed_grownHeap env s r]
  rfl

omit [DecidableEq Obj] in
/-- At an old address the record points where the counter goes up. -/
theorem knownReferrer_eq_some_iff (env : Agent Obj) (r : HeapReference Obj) {a : ℕ}
    (ha : a ∈ s.nodes.dom) : knownReferrer s r = some a ↔
    refNodeOf env s r = some a := by
  unfold knownReferrer refNodeOf
  rcases r.referrer with _ | o
  · simp
  · by_cases htag : s.tags o = 0
    · have hne := (s.nodes.ne_fresh_of_mem env.malloc ha).symm
      simp [htag, hne]
    · simp [htag]

theorem pointees_singleton (a : ℕ) (ref : MemoryReferer) :
    pointees {(a, ref)} = pointee ref.node := by
  have := pointees_map a [ref]
  rw [targets_cons] at this
  simpa [targets] using this

theorem Counted.recorded {owed : Multiset ℕ} (counted : Counted owed s.nodes)
    (unmarked : ∀ a nd, s.nodes.get? a = some nd → nd.visited = false)
    (hthis : s.nodes.get? (s.tags r.referee) = some thisNode) (referrerTag : ReferrerTagOk s r) :
    Counted owed (s.recorded env r thisNode).nodes := by
  have sum : owed + pointees (unfreed (s.recorded env r thisNode).nodes) =
      pointee (refNodeOf env s r) + (owed + pointees (unfreed s.nodes)) := by
    rw [unfreed_recorded hthis (unmarked _ _ hthis), pointees_add, pointees_singleton]
    exact add_left_comm _ _ _
  refine ⟨fun a nd' h => ?_, fun a ha => ?_, fun a nd' h _ => ?_⟩
  · rw [sum, Multiset.count_add]
    obtain ⟨nd, rfl, hnd | ⟨⟨o, hnew⟩, rfl⟩⟩ := get?_recorded_eq_some hthis h
    · have hknown := knownReferrer_eq_some_iff env r (s.nodes.mem_dom_of_get? hnd)
      simp only [recordedNode, hknown, counted.count a nd hnd, count_pointee]
      split_ifs <;> omega
    · have hknown : knownReferrer s r ≠ some a := by
        simp [knownReferrer, hnew.referrer, hnew.untagged]
      have href : refNodeOf env s r = some a := by
        simp [refNodeOf, hnew.referrer, hnew.untagged, hnew.addr]
      have hold : (owed + pointees (unfreed s.nodes)).count a = 0 := by
        exact Multiset.count_eq_zero.2 fun hmem => hnew.notMem (counted.mem a hmem)
      rw [hold, count_pointee, if_pos href]
      simp only [recordedNode, if_neg hknown]
      rfl
  · rw [sum, Multiset.mem_add] at ha
    rw [dom_recorded]
    rcases ha with ha | ha
    · exact refNodeOf_mem referrerTag (mem_pointee.1 ha)
    · exact dom_subset_grownHeap env s r (counted.mem a ha)
  · obtain ⟨nd, rfl, hnd⟩ := get?_recorded_eq_some hthis h
    have positive : 0 < nd.referencePointingToMe := by
      rcases hnd with hnd | ⟨_, rfl⟩
      · exact counted.held a nd hnd (unmarked a nd hnd)
      · exact Int.one_pos
    simp only [recordedNode]
    split_ifs <;> omega

theorem HeldByLists.recorded (held : HeldByLists leaks classNodes s)
    (records : Records env s r thisNode) (referrerTag : ReferrerTagOk s r) :
    HeldByLists leaks classNodes (s.recorded env r thisNode) where
  owned :=
    { counted := held.owned.counted.recorded held.owned.unmarked records.node referrerTag
      unmarked := fun a nd' h => by
        obtain ⟨nd, rfl, hnd | ⟨_, rfl⟩⟩ := get?_recorded_eq_some records.node h
        · exact held.owned.unmarked a nd hnd
        · rfl
      reached := fun a ha => by
        rw [referencesOf_recorded records.node] at ha
        have old : referencesOf s.nodes a ≠ [] ∨ a = s.tags r.referee := by
          split_ifs at ha with heq
          · exact .inr heq
          · exact .inl ha
        rcases old with hne | rfl
        · obtain ⟨leak, hleak, hreach⟩ := held.owned.reached a hne
          exact ⟨leak, hleak, hreach.recorded records.node⟩
        · obtain ⟨leak, hleak, hreach⟩ := held.labelled _ _ records.node records.nonempty
          exact ⟨leak, hleak, hreach.recorded records.node⟩
      nodup := held.owned.nodup }
  labelled a nd' h hl := by
    obtain ⟨nd, rfl, hnd⟩ := get?_recorded_eq_some records.node h
    -- a label is new only at the referrer, which the report links to the labelled referee
    by_cases href : refNodeOf env s r = some a
    · obtain ⟨leak, hleak, hreach⟩ := held.labelled _ _ records.node records.nonempty
      exact ⟨leak, hleak, hreach.tail_recorded records.node href⟩
    · rcases hnd with hnd | ⟨⟨o, hnew⟩, rfl⟩
      · simp only [recordedNode, if_neg href] at hl
        obtain ⟨leak, hleak, hreach⟩ := held.labelled a nd hnd hl
        exact ⟨leak, hleak, hreach.recorded records.node⟩
      · refine absurd ?_ href
        simp [refNodeOf, hnew.referrer, hnew.untagged, hnew.addr]
  allocated := by
    rw [dom_recorded]
    simp only [Search.recorded, grownHeap]
    rcases r.referrer with _ | o
    · exact held.allocated
    · by_cases htag : s.tags o = 0
      · simp [htag, held.allocated, s.nodes.fresh_notMem]
      · simp [htag, held.allocated]
  freed := held.freed

theorem HeldByLists.outcome (held : HeldByLists leaks classNodes s) (out : Outcome env s r s') :
    HeldByLists leaks classNodes s' := by
  cases out with
  | skipped => exact held
  | dropped => exact held.countFanIn
  | recorded thisNode records _ referrerTag => exact held.recorded records referrerTag

omit [DecidableEq Obj] in
theorem HeldByLists.resetNodesFound (held : HeldByLists leaks classNodes s) :
    HeldByLists leaks classNodes s.resetNodesFound :=
  ⟨held.owned, held.labelled, held.allocated, held.freed⟩

end

namespace Dump

variable [DecidableEq Obj] (d : Dump Obj)

/-- The two lists together hold every node once. -/
theorem lists_nodup : (d.leaks.map (·.node) ++ d.classNodes).Nodup := by
  refine List.nodup_append.2 ⟨d.leaks_searched.nodup, d.classNodes_tagged.nodup, ?_⟩
  rintro a ha b hb rfl
  exact d.classNodes_tagged.notMem a hb ((d.leaks_searched.mem a).2 ha)

theorem mem_lists {a : ℕ} : a ∈ d.start.nodes.dom ↔ a ∈ d.leaks.map (·.node) ++ d.classNodes := by
  rw [List.mem_append, ← d.leaks_searched.mem]
  exact d.classNodes_tagged.mem a

theorem counted_start : Counted (↑(d.leaks.map (·.node)) + ↑d.classNodes) d.start.nodes := by
  have unlisted : unfreed d.start.nodes = 0 := by
    refine unfreed_eq_zero fun a => ?_
    rw [valueAt_unfreedOf fun a nd h => (d.searchOk_start.node a nd h).visited, d.referencesOf_start]
    rfl
  have sum : (↑(d.leaks.map (·.node)) + ↑d.classNodes : Multiset ℕ) +
      pointees (unfreed d.start.nodes) = ↑(d.leaks.map (·.node) ++ d.classNodes) := by
    rw [unlisted, pointees, Multiset.filterMap_zero, add_zero, Multiset.coe_add]
  have one : ∀ a nd, d.start.nodes.get? a = some nd → nd.referencePointingToMe = 1 := by
    intro a nd h
    rcases d.node_cases h with ⟨leak, _, o, _, rfl⟩ | ⟨klass, _, _, rfl⟩
    · rfl
    · rfl
  refine ⟨fun a nd h => ?_, fun a ha => ?_, fun a nd h _ => ?_⟩
  · have hmem := d.mem_lists.1 (CHeap.mem_dom_of_get? _ h)
    rw [sum, one a nd h, Multiset.coe_count, List.count_eq_one_of_mem d.lists_nodup hmem]
    rfl
  · rw [sum, Multiset.mem_coe] at ha
    exact d.mem_lists.2 ha
  · rw [one a nd h]
    exact Int.one_pos

theorem heldByLists_start : HeldByLists d.leaks d.classNodes d.start where
  owned :=
    { counted := d.counted_start
      unmarked := fun a nd h => (d.searchOk_start.node a nd h).visited
      reached := fun a ha => absurd (d.referencesOf_start a) ha
      nodup := d.classNodes_tagged.nodup }
  labelled a nd h hl := by
    rcases d.node_cases h with ⟨leak, hleak, o, rfl, rfl⟩ | ⟨klass, _, _, rfl⟩
    · exact ⟨leak, hleak, .refl⟩
    · have hempty : (BitmaskSet.new d.leaks.length).isEmpty = true :=
        (BitmaskSet.isEmpty_iff _).2 fun n => BitmaskSet.bit_new _ _
      exact absurd (hempty.symm.trans hl) (by decide)
  allocated := d.classNodes_tagged.allocated
  freed := d.classNodes_tagged.freed.trans d.leaks_searched.freed

theorem heldByLists_run {s : Search Obj} (run : d.run = .ok s) :
    HeldByLists d.leaks d.classNodes s :=
  run_invariant (I := HeldByLists d.leaks d.classNodes) (fun _ h => h.resetNodesFound)
    (fun _ _ _ h _ hreport => h.outcome (reportReference_outcome hreport)) d.meets_true
    d.heldByLists_start run

end Dump

variable [DecidableEq Obj]

/-- Freeing the leak list and then the class nodes frees every node and every record of the graph
exactly once, with no access to a freed node and no class node left over. -/
theorem teardown_exact (d : Dump Obj) {s : Search Obj} (run : d.run = .ok s) {fuel : ℕ}
    (enough : s.nodes.dom.card < fuel) :
    ∃ st st', freeMemoryForLeakList fuel d.leaks ⟨s.nodes, s.nodesFreed, []⟩ = .ok st ∧
      freeClassNodes fuel d.classNodes st = .ok ([], st') ∧ st'.nodes.dom = ∅ ∧
      st'.nodesFreed = s.nodesAllocated ∧
      ∀ a ref, (Multiset.ofList st'.freedReferers).count (a, ref) =
        (Multiset.ofList (referencesOf s.nodes a)).count ref := by
  have held := d.heldByLists_run run
  obtain ⟨st, st', hleaks, hclasses, hdom, hfreed, hlog⟩ := held.owned.teardown enough s.nodesFreed
  exact ⟨st, st', hleaks, hclasses, hdom, by rw [hfreed, held.freed, held.allocated, zero_add], hlog⟩

/-- Two leaks that share a holder; the holder refers to itself and the first leak to the holder. -/
def Sample.sharedCycle : Dump (Fin 12) :=
  dump [(3, 1000), (4, 400)]
    [field 3 8 0, field 4 8 1, field 8 8 2, field 8 3 0, staticField 8 1 0] fun _ => []

/-- The dump of the shared holder is freed completely. -/
theorem teardown_exact_sharedCycle :
    ∃ s, Sample.sharedCycle.run = .ok s ∧ s.nodesAllocated = 5 ∧
      ∃ st st', freeMemoryForLeakList (s.nodes.dom.card + 1) Sample.sharedCycle.leaks
          ⟨s.nodes, s.nodesFreed, []⟩ = .ok st ∧
        freeClassNodes (s.nodes.dom.card + 1) Sample.sharedCycle.classNodes st = .ok ([], st') ∧
        st'.nodes.dom = ∅ ∧ st'.nodesFreed = s.nodesAllocated ∧
        ∀ a ref, (Multiset.ofList st'.freedReferers).count (a, ref) =
          (Multiset.ofList (referencesOf s.nodes a)).count ref := by
  obtain ⟨s, run, hs⟩ := Run.exists_ok_of_any (x := Sample.sharedCycle.run)
    (p := fun s => decide (s.nodesAllocated = 5)) (by decide +kernel)
  exact ⟨s, run, of_decide_eq_true hs,
    teardown_exact Sample.sharedCycle run (Nat.lt_succ_self s.nodes.dom.card)⟩

end JLeaker
