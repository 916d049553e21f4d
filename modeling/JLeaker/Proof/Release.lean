import Mathlib.Data.Multiset.Filter
import JLeaker.Proof.ChainSearch

/-!
# Freeing one node

A `MemoryReferer` is unfreed while it is in the list of a node that `freeMemoryNode` has not marked
visited; the lists of the visited nodes belong to the loops on the stack.  `Counted owed` says that
every counter is the number of unfreed records that point to the node plus the pointers `owed` by
the callers; a call that starts with one more pointer gives it back (`freeMemoryNode_releases`).
-/

namespace JLeaker

variable {Obj : Type}

/-! ## Counting the records -/

/-- The records in the list of the node at `a`, none while the node is marked visited. -/
def unfreedOf (a : ℕ) (nd : MemoryNode Obj) : Multiset (ℕ × MemoryReferer) :=
  if nd.visited then 0 else ↑(nd.start.map (Prod.mk a))

/-- The records no call has taken over, each with the node whose list it is in. -/
def unfreed (h : CHeap (MemoryNode Obj)) : Multiset (ℕ × MemoryReferer) := h.total unfreedOf

/-- The nodes that records point to. -/
def pointees (records : Multiset (ℕ × MemoryReferer)) : Multiset ℕ :=
  records.filterMap fun r => r.2.node

/-- The node a pointer points to. -/
def pointee (p : Option ℕ) : Multiset ℕ := p.elim 0 fun a => {a}

/-- The nodes the references of a list point to. -/
def targets (refs : List MemoryReferer) : Multiset ℕ := ↑(refs.filterMap (·.node))

/-- Every counter is right, no pointer dangles, and only nodes with pointers to them live. -/
structure Counted (owed : Multiset ℕ) (h : CHeap (MemoryNode Obj)) : Prop where
  count : ∀ a nd, h.get? a = some nd →
    nd.referencePointingToMe = ((owed + pointees (unfreed h)).count a : ℕ)
  mem : ∀ a ∈ owed + pointees (unfreed h), a ∈ h.dom
  held : ∀ a nd, h.get? a = some nd → nd.visited = false → 0 < nd.referencePointingToMe

/-- What has been freed between two states; `taken` are the records that were in no list when the
first one was reached. -/
structure Released (taken : Multiset (ℕ × MemoryReferer)) (st st' : FreeState Obj) : Prop where
  survivor : ∀ a nd', st'.nodes.get? a = some nd' →
    ∃ nd, st.nodes.get? a = some nd ∧ nd.visited = nd'.visited
  visited : ∀ a nd, st.nodes.get? a = some nd → nd.visited = true → a ∈ st'.nodes.dom
  nodes : st'.nodesFreed + st'.nodes.dom.card = st.nodesFreed + st.nodes.dom.card
  referers : Multiset.ofList st'.freedReferers + unfreed st'.nodes =
    st.freedReferers + unfreed st.nodes + taken
  list : ∀ a, st'.nodes.valueAt unfreedOf a = 0 ∨
    st'.nodes.valueAt unfreedOf a = st.nodes.valueAt unfreedOf a
  followed : ∀ a ref b, (a, ref) ∈ st.nodes.valueAt unfreedOf a →
    st'.nodes.valueAt unfreedOf a = 0 → ref.node = some b → st'.nodes.valueAt unfreedOf b = 0

/-- A call has given the pointer `p` back and emptied the list of its node. -/
structure GivesBack (p : Option ℕ) (owed : Multiset ℕ) (st : FreeState Obj) (freed : Bool)
    (st' : FreeState Obj) : Prop where
  counted : Counted owed st'.nodes
  released : Released 0 st st'
  list : ∀ a, p = some a → st'.nodes.valueAt unfreedOf a = 0
  freed : ∀ a, p = some a → (freed = true ↔ a ∉ st'.nodes.dom)

/-- `free` gives every pointer back while fewer than `bound` nodes are not marked visited. -/
def Frees (free : Option ℕ → FreeState Obj → Except Fault (Bool × FreeState Obj)) (bound : ℕ) :
    Prop :=
  ∀ p owed st, Counted (pointee p + owed) st.nodes → (unvisited st.nodes).card < bound →
    ∃ freed st', free p st = .ok (freed, st') ∧ GivesBack p owed st freed st'

/-! ## Records and pointers -/

theorem pointees_add (m m' : Multiset (ℕ × MemoryReferer)) :
    pointees (m + m') = pointees m + pointees m' := Multiset.filterMap_add _ _ _

theorem pointees_map (a : ℕ) (refs : List MemoryReferer) :
    pointees ↑(refs.map (Prod.mk a)) = targets refs := by
  simp only [pointees, targets, Multiset.filterMap_coe, List.filterMap_map]
  rfl

theorem count_pointee (p : Option ℕ) (a : ℕ) :
    (pointee p).count a = if p = some a then 1 else 0 := by
  cases p with
  | none => simp [pointee]
  | some b => simp [pointee, Multiset.count_singleton, eq_comm]

theorem mem_pointee {p : Option ℕ} {a : ℕ} : a ∈ pointee p ↔ p = some a := by
  rw [← Multiset.count_pos, count_pointee]
  split_ifs with h <;> simp [h]

theorem targets_cons (ref : MemoryReferer) (refs : List MemoryReferer) :
    targets (ref :: refs) = pointee ref.node + targets refs := by
  unfold targets pointee
  cases h : ref.node with
  | none => simp [h]
  | some a => simp [h, ← Multiset.cons_coe, Multiset.singleton_add]

theorem valueAt_of_visited {h : CHeap (MemoryNode Obj)} {a : ℕ} {nd : MemoryNode Obj}
    (ha : h.get? a = some nd) (visited : nd.visited = true) : h.valueAt unfreedOf a = 0 := by
  rw [CHeap.valueAt_of_get? ha, unfreedOf, if_pos visited]

theorem valueAt_of_unvisited {h : CHeap (MemoryNode Obj)} {a : ℕ} {nd : MemoryNode Obj}
    (ha : h.get? a = some nd) (fresh : nd.visited = false) :
    h.valueAt unfreedOf a = ↑(nd.start.map (Prod.mk a)) := by
  rw [CHeap.valueAt_of_get? ha, unfreedOf, fresh]
  rfl

/-! ## One counter at a time -/

section

variable {a : ℕ} {nd nd' : MemoryNode Obj} {h h' : CHeap (MemoryNode Obj)}

/-- The list at `a` is as unfreed as before, so all lists are. -/
theorem unfreed_of_changedAt (change : CHeap.ChangedAt a nd nd' h h')
    (list : unfreedOf a nd' = unfreedOf a nd) :
    unfreed h' = unfreed h := by
  have := change.total unfreedOf
  rw [list] at this
  exact add_right_cancel this

/-- Marking a node takes its records out of the lists. -/
theorem unfreed_taken (change : CHeap.ChangedAt a nd nd' h h') (fresh : nd.visited = false)
    (marked : nd'.visited = true) : unfreed h = unfreed h' + ↑(nd.start.map (Prod.mk a)) := by
  have := change.total unfreedOf
  rw [← CHeap.valueAt_of_get? (f := unfreedOf) change.old, valueAt_of_unvisited change.old fresh,
    ← CHeap.valueAt_of_get? (f := unfreedOf) change.new, valueAt_of_visited change.new marked,
    add_zero] at this
  exact this.symm

/-- The counters stay right when the pointers that are gone are those the counter at `a` lost. -/
theorem Counted.of_changedAt {owed owed' : Multiset ℕ} (counted : Counted owed h)
    (change : CHeap.ChangedAt a nd nd' h h') (gone : Multiset ℕ)
    (sum : owed + pointees (unfreed h) = gone + (owed' + pointees (unfreed h')))
    (here : nd'.referencePointingToMe = nd.referencePointingToMe - gone.count a)
    (elsewhere : ∀ b, b ≠ a → gone.count b = 0)
    (held : nd'.visited = false → 0 < nd'.referencePointingToMe) : Counted owed' h' where
  count b x hx := by
    by_cases hb : b = a
    · subst hb
      obtain rfl := Option.some.inj (change.new.symm.trans hx)
      have := counted.count b nd change.old
      rw [sum, Multiset.count_add] at this
      omega
    · have := counted.count b x ((change.others b hb).symm.trans hx)
      rw [sum, Multiset.count_add, elsewhere b hb, Nat.zero_add] at this
      exact this
  mem b hb := by
    rw [change.dom]
    apply counted.mem b
    rw [sum]
    exact Multiset.mem_add.2 (.inr hb)
  held b x hx hv := by
    by_cases hb : b = a
    · subst hb
      obtain rfl := Option.some.inj (change.new.symm.trans hx)
      exact held hv
    · exact counted.held b x ((change.others b hb).symm.trans hx) hv

end

/-! ## What is freed -/

namespace Released

variable {taken taken' : Multiset (ℕ × MemoryReferer)} {st st' st'' : FreeState Obj}

theorem refl (st : FreeState Obj) : Released 0 st st where
  survivor a nd h := ⟨nd, h, rfl⟩
  visited a nd h _ := st.nodes.mem_dom_of_get? h
  nodes := rfl
  referers := (add_zero _).symm
  list _ := .inr rfl
  followed a ref b hmem hzero _ := by
    rw [hzero] at hmem
    exact absurd hmem (Multiset.notMem_zero _)

theorem trans (first : Released taken st st') (second : Released taken' st' st'') :
    Released (taken + taken') st st'' where
  survivor a nd'' h := by
    obtain ⟨nd', hnd', hv'⟩ := second.survivor a nd'' h
    obtain ⟨nd, hnd, hv⟩ := first.survivor a nd' hnd'
    exact ⟨nd, hnd, hv.trans hv'⟩
  visited a nd h hv := by
    obtain ⟨nd', hnd'⟩ := st'.nodes.exists_get?_of_mem (first.visited a nd h hv)
    obtain ⟨old, hold, heq⟩ := first.survivor a nd' hnd'
    obtain rfl := Option.some.inj (h.symm.trans hold)
    exact second.visited a nd' hnd' (heq ▸ hv)
  nodes := second.nodes.trans first.nodes
  referers := by rw [second.referers, first.referers, add_assoc]
  list a := by
    rcases second.list a with h | h
    · exact .inl h
    · rw [h]
      exact first.list a
  followed a ref b hmem hzero hb := by
    have kept : st'.nodes.valueAt unfreedOf b = 0 → st''.nodes.valueAt unfreedOf b = 0 := by
      intro h
      rcases second.list b with hb | hb
      · exact hb
      · exact hb.trans h
    -- the list of `a` was emptied by the first part or is still there for the second
    rcases first.list a with h | h
    · exact kept (first.followed a ref b hmem h hb)
    · exact second.followed a ref b (h.symm ▸ hmem) hzero hb

/-- A list that is empty stays empty. -/
theorem list_eq_zero (released : Released taken st st') {a : ℕ}
    (h : st.nodes.valueAt unfreedOf a = 0) : st'.nodes.valueAt unfreedOf a = 0 := by
  rcases released.list a with h' | h'
  · exact h'
  · exact h'.trans h

theorem unvisited_subset (released : Released taken st st') :
    unvisited st'.nodes ⊆ unvisited st.nodes := by
  intro a ha
  obtain ⟨nd', hnd', hv⟩ := mem_unvisited.1 ha
  obtain ⟨nd, hnd, heq⟩ := released.survivor a nd' hnd'
  exact mem_unvisited.2 ⟨nd, hnd, heq.trans hv⟩

/-- The record a loop has just freed is in the log. -/
theorem log (released : Released 0 st st') (record : ℕ × MemoryReferer) :
    Released {record} st { st' with freedReferers := st'.freedReferers ++ [record] } :=
  { released with
    referers := by
      show Multiset.ofList (st'.freedReferers ++ [record]) + unfreed st'.nodes = _
      rw [← Multiset.coe_add, add_right_comm, released.referers, add_zero]
      rfl }

/-- Only the counter at `a` and other fields that are not read here have changed. -/
theorem of_changedAt {a : ℕ} {nd nd' : MemoryNode Obj}
    (change : CHeap.ChangedAt a nd nd' st.nodes st'.nodes) (visited : nd'.visited = nd.visited)
    (start : nd'.start = nd.start) (nodesFreed : st'.nodesFreed = st.nodesFreed)
    (freedReferers : st'.freedReferers = st.freedReferers) : Released 0 st st' := by
  have list : unfreedOf a nd' = unfreedOf a nd := by simp only [unfreedOf, visited, start]
  have lists : ∀ b, st'.nodes.valueAt unfreedOf b = st.nodes.valueAt unfreedOf b := by
    intro b
    by_cases hb : b = a
    · rw [hb, CHeap.valueAt_of_get? change.new, CHeap.valueAt_of_get? change.old, list]
    · exact change.valueAt unfreedOf hb
  refine ⟨fun b x hx => ?_, fun b x hx _ => ?_, ?_, ?_, fun b => .inr (lists b), ?_⟩
  · by_cases hb : b = a
    · subst hb
      obtain rfl := Option.some.inj (change.new.symm.trans hx)
      exact ⟨nd, change.old, visited.symm⟩
    · exact ⟨x, (change.others b hb).symm.trans hx, rfl⟩
  · rw [change.dom]
    exact st.nodes.mem_dom_of_get? hx
  · rw [nodesFreed, change.dom]
  · rw [freedReferers, unfreed_of_changedAt change list, add_zero]
  · intro b ref c hmem hzero _
    rw [← lists b, hzero] at hmem
    exact absurd hmem (Multiset.notMem_zero _)

end Released

/-! ## The loop over the references -/

theorem freeReferers_releases {free : Option ℕ → FreeState Obj → Except Fault (Bool × FreeState Obj)}
    {bound : ℕ} (frees : Frees free bound) (node : ℕ) (refs : List MemoryReferer)
    {owed : Multiset ℕ} {st : FreeState Obj} (counted : Counted (targets refs + owed) st.nodes)
    (enough : (unvisited st.nodes).card < bound) :
    ∃ st', freeReferers free node refs st = .ok st' ∧ Counted owed st'.nodes ∧
      Released ↑(refs.map (Prod.mk node)) st st' ∧
      ∀ ref ∈ refs, ∀ b, ref.node = some b → st'.nodes.valueAt unfreedOf b = 0 := by
  induction refs generalizing st with
  | nil =>
    have counted' : Counted owed st.nodes := by
      have h : targets [] + owed = owed := zero_add owed
      rwa [h] at counted
    exact ⟨st, rfl, counted', .refl st, by simp⟩
  | cons ref rest ih =>
    rw [targets_cons, add_assoc] at counted
    obtain ⟨freed, st₁, hfree, gives⟩ := frees ref.node _ st counted enough
    let st₂ : FreeState Obj := { st₁ with freedReferers := st₁.freedReferers ++ [(node, ref)] }
    have logged : Released {(node, ref)} st st₂ := gives.released.log (node, ref)
    have enough' : (unvisited st₂.nodes).card < bound :=
      lt_of_le_of_lt (Finset.card_le_card logged.unvisited_subset) enough
    have counted₂ : Counted (targets rest + owed) st₂.nodes := gives.counted
    obtain ⟨st', hrest, counted', released, lists⟩ := ih counted₂ enough'
    refine ⟨st', ?_, counted', ?_, ?_⟩
    · rw [freeReferers, hfree, Run.ok_bind]
      exact hrest
    · exact logged.trans released
    · intro r hr b hb
      rcases List.mem_cons.1 hr with rfl | hr
      · exact released.list_eq_zero (gives.list b hb)
      · exact lists r hr b hb

/-! ## The call -/

/-- The end of a call: the node at `a`, whose list is empty now, is unmarked or freed. -/
structure Closes (a : ℕ) (st st' : FreeState Obj) : Prop where
  others : ∀ b, b ≠ a → st'.nodes.get? b = st.nodes.get? b
  here : st'.nodes.valueAt unfreedOf a = 0
  unmarked : ∀ nd, st'.nodes.get? a = some nd → nd.visited = false
  nodes : st'.nodesFreed + st'.nodes.dom.card = st.nodesFreed + st.nodes.dom.card
  unfreed : unfreed st'.nodes = unfreed st.nodes
  freedReferers : st'.freedReferers = st.freedReferers

theorem Closes.valueAt_eq_zero {a b : ℕ} {st st' : FreeState Obj} (closes : Closes a st st')
    (h : st.nodes.valueAt unfreedOf b = 0) : st'.nodes.valueAt unfreedOf b = 0 := by
  by_cases hb : b = a
  · rw [hb]
    exact closes.here
  · rw [CHeap.valueAt, closes.others b hb]
    exact h

/-- A call on an unmarked node: the node is marked, its records are freed one by one, and the node is
unmarked or freed. -/
theorem Released.of_call {a : ℕ} {nd nd₁ : MemoryNode Obj} {st st₁ st₂ st₃ : FreeState Obj}
    (fresh : nd.visited = false) (marks : CHeap.ChangedAt a nd nd₁ st.nodes st₁.nodes)
    (marked : nd₁.visited = true) (nodesFreed : st₁.nodesFreed = st.nodesFreed)
    (freedReferers : st₁.freedReferers = st.freedReferers)
    (loop : Released ↑(nd.start.map (Prod.mk a)) st₁ st₂)
    (lists : ∀ ref ∈ nd.start, ∀ b, ref.node = some b → st₂.nodes.valueAt unfreedOf b = 0)
    (closes : Closes a st₂ st₃) : Released 0 st st₃ := by
  have records := valueAt_of_unvisited marks.old fresh
  refine ⟨fun b x hx => ?_, fun b x hx hv => ?_, ?_, ?_, fun b => ?_, fun b ref c hmem hzero hc => ?_⟩
  · by_cases hb : b = a
    · subst hb
      exact ⟨nd, marks.old, fresh.trans (closes.unmarked x hx).symm⟩
    · obtain ⟨x₁, hx₁, hv⟩ := loop.survivor b x ((closes.others b hb).symm.trans hx)
      exact ⟨x₁, (marks.others b hb).symm.trans hx₁, hv⟩
  · have hb : b ≠ a := by
      rintro rfl
      obtain rfl := Option.some.inj (marks.old.symm.trans hx)
      rw [fresh] at hv
      cases hv
    obtain ⟨x₂, hx₂⟩ := st₂.nodes.exists_get?_of_mem
      (loop.visited b x ((marks.others b hb).trans hx) hv)
    exact st₃.nodes.mem_dom_of_get? ((closes.others b hb).trans hx₂)
  · rw [closes.nodes, loop.nodes, nodesFreed, marks.dom]
  · rw [closes.freedReferers, closes.unfreed, loop.referers, freedReferers,
      unfreed_taken marks fresh marked, add_zero, add_assoc]
  · by_cases hb : b = a
    · exact .inl (hb ▸ closes.here)
    · rcases loop.list b with h | h
      · exact .inl (closes.valueAt_eq_zero h)
      · right
        rw [CHeap.valueAt, closes.others b hb]
        exact h.trans (marks.valueAt unfreedOf hb)
  · by_cases hb : b = a
    · subst hb
      rw [records, Multiset.mem_coe, List.mem_map] at hmem
      obtain ⟨r, hr, heq⟩ := hmem
      obtain rfl : r = ref := (Prod.mk.inj heq).2
      exact closes.valueAt_eq_zero (lists r hr c hc)
    · rw [CHeap.valueAt, closes.others b hb] at hzero
      rw [← marks.valueAt unfreedOf hb] at hmem
      exact closes.valueAt_eq_zero (loop.followed b ref c hmem hzero hc)

/-- A node without pointers to it can go. -/
theorem Counted.free {owed : Multiset ℕ} {h : CHeap (MemoryNode Obj)} (counted : Counted owed h)
    {a : ℕ} {nd : MemoryNode Obj} (ha : h.get? a = some nd) (list : h.valueAt unfreedOf a = 0)
    (unused : ¬ 0 < nd.referencePointingToMe) : Counted owed (h.free a) := by
  have unfreed_eq : unfreed (h.free a) = unfreed h := by
    have := CHeap.total_free (f := unfreedOf) (h.mem_dom_of_get? ha)
    rwa [list, add_zero] at this
  have none : a ∉ owed + pointees (unfreed h) := by
    have := counted.count a nd ha
    exact fun hmem => absurd (Multiset.count_pos.2 hmem) (by omega)
  refine ⟨fun b x hx => ?_, fun b hb => ?_, fun b x hx => ?_⟩
  · rw [CHeap.get?_free] at hx
    split_ifs at hx
    rw [unfreed_eq]
    exact counted.count b x hx
  · rw [unfreed_eq] at hb
    refine Finset.mem_erase.2 ⟨?_, counted.mem b hb⟩
    rintro rfl
    exact none hb
  · rw [CHeap.get?_free] at hx
    split_ifs at hx
    exact counted.held b x hx

/-- A node with one pointer less. -/
def MemoryNode.unlinked (nd : MemoryNode Obj) : MemoryNode Obj :=
  { nd with referencePointingToMe := nd.referencePointingToMe - 1 }

/-- A node while its records are freed. -/
def MemoryNode.dismantled (nd : MemoryNode Obj) : MemoryNode Obj :=
  { nd.unlinked with
    visited := true, classname := none, klass := none, obj := none, ignoreFields := []
    leaksRelated := .new 0 }

/-- The part of `freeMemoryNode` after the loop over the references. -/
def finishNode (node : ℕ) (st : FreeState Obj) : Except Fault (Bool × FreeState Obj) := do
  let nodes := st.nodes.modify node fun nd => { nd with start := [], fanIn := [] }
  let nd ← deref nodes node
  if 0 < nd.referencePointingToMe then
    return (false, { st with nodes := nodes.modify node fun nd => { nd with visited := false } })
  return (true, { st with nodes := nodes.free node, nodesFreed := st.nodesFreed + 1 })

theorem freeMemoryNode_of_visited {fuel a : ℕ} {st : FreeState Obj} {nd : MemoryNode Obj}
    (hnd : st.nodes.get? a = some nd) (visited : nd.visited = true) :
    freeMemoryNode (fuel + 1) (some a) st =
      .ok (false, { st with nodes := st.nodes.modify a MemoryNode.unlinked }) := by
  simp only [freeMemoryNode, deref_eq_ok.2 hnd, Run.ok_bind, visited, if_true]
  rfl

/-- The two updates of a node whose records are about to be freed. -/
theorem modify_dismantled (h : CHeap (MemoryNode Obj)) (a : ℕ) :
    ((h.modify a fun nd =>
      { nd with referencePointingToMe := nd.referencePointingToMe - 1 }).modify a fun nd =>
      { nd with
        visited := true, classname := none, klass := none, obj := none, ignoreFields := []
        leaksRelated := .new 0 }) = h.modify a MemoryNode.dismantled := by
  refine CHeap.ext (funext fun b => ?_) rfl rfl
  simp only [CHeap.get?_modify]
  split_ifs
  · rw [Option.map_map]
    rfl
  · rfl

theorem freeMemoryNode_of_fresh {fuel a : ℕ} {st : FreeState Obj} {nd : MemoryNode Obj}
    (hnd : st.nodes.get? a = some nd) (fresh : nd.visited = false) :
    freeMemoryNode (fuel + 1) (some a) st =
      freeReferers (freeMemoryNode fuel) a nd.start
        { st with nodes := st.nodes.modify a MemoryNode.dismantled } >>= finishNode a := by
  simp only [freeMemoryNode, deref_eq_ok.2 hnd, Run.ok_bind, fresh, Bool.false_eq_true, if_false,
    modify_dismantled]
  rfl

/-- The end of the call frees the node if no pointer to it is left. -/
theorem finishNode_closes {a : ℕ} {owed : Multiset ℕ} {st : FreeState Obj} {nd : MemoryNode Obj}
    (counted : Counted owed st.nodes) (hnd : st.nodes.get? a = some nd)
    (marked : nd.visited = true) :
    ∃ freed st', finishNode a st = .ok (freed, st') ∧ Counted owed st'.nodes ∧ Closes a st st' ∧
      (freed = true ↔ a ∉ st'.nodes.dom) := by
  let empty : MemoryNode Obj → MemoryNode Obj := fun nd => { nd with start := [], fanIn := [] }
  let unmark : MemoryNode Obj → MemoryNode Obj := fun nd => { nd with visited := false }
  have empties : CHeap.ChangedAt a nd (empty nd) st.nodes (st.nodes.modify a empty) :=
    .modify empty hnd
  have list : unfreedOf a (empty nd) = unfreedOf a nd := by
    simp only [empty, unfreedOf, marked, if_true]
  have counted₁ : Counted owed (st.nodes.modify a empty) :=
    counted.of_changedAt empties 0 (by rw [unfreed_of_changedAt empties list, zero_add])
      (by simp [empty])
      (by simp) fun h => by simp [empty, marked] at h
  by_cases hrc : 0 < nd.referencePointingToMe
  · have unmarks := empties.trans (.modify unmark empties.new)
    have list' : unfreedOf a (unmark (empty nd)) = unfreedOf a nd := by
      simp [empty, unmark, unfreedOf, marked]
    refine ⟨false, { st with nodes := (st.nodes.modify a empty).modify a unmark }, ?_, ?_, ?_, ?_⟩
    · simp only [finishNode]
      rw [deref_eq_ok.2 empties.new, Run.ok_bind, if_pos hrc]
      rfl
    · exact counted.of_changedAt unmarks 0 (by rw [unfreed_of_changedAt unmarks list', zero_add])
        (by simp [empty, unmark]) (by simp) fun _ => hrc
    · refine ⟨unmarks.others, ?_, fun x hx => ?_, rfl, unfreed_of_changedAt unmarks list', rfl⟩
      · rw [CHeap.valueAt_of_get? unmarks.new, list', unfreedOf, if_pos marked]
      · obtain rfl := Option.some.inj (unmarks.new.symm.trans hx)
        rfl
    · exact iff_of_false Bool.false_ne_true fun h => h unmarks.mem
  · have here := valueAt_of_visited (h := st.nodes.modify a empty) empties.new marked
    refine ⟨true, { st with
      nodes := (st.nodes.modify a empty).free a, nodesFreed := st.nodesFreed + 1 }, ?_, ?_, ?_, ?_⟩
    · simp only [finishNode]
      rw [deref_eq_ok.2 empties.new, Run.ok_bind, if_neg hrc]
      rfl
    · exact counted₁.free empties.new here hrc
    · refine ⟨fun b hb => ?_, ?_, fun x hx => ?_, ?_, ?_, rfl⟩
      · simp only [CHeap.get?_free, if_neg hb, empties.others b hb]
      · exact CHeap.valueAt_of_notMem (by simp)
      · simp [CHeap.get?_free] at hx
      · have := Finset.card_erase_add_one empties.mem
        simp only [CHeap.dom_free, CHeap.dom_modify]
        omega
      · rw [← unfreed_of_changedAt empties list]
        have := CHeap.total_free (f := unfreedOf) (CHeap.mem_dom_of_get? _ empties.new)
        rwa [here, add_zero] at this
    · simp

/-- Freeing a node gives back one pointer to it. -/
theorem freeMemoryNode_frees (fuel : ℕ) :
    Frees (freeMemoryNode fuel : Option ℕ → FreeState Obj → _) fuel := by
  induction fuel with
  | zero => exact fun p owed st _ enough => absurd enough (Nat.not_lt_zero _)
  | succ fuel ih =>
    intro p owed st counted enough
    rcases p with _ | a
    · have counted' : Counted owed st.nodes := by
        have h : pointee none + owed = owed := zero_add owed
        rwa [h] at counted
      exact ⟨false, st, rfl, counted', .refl st, by simp, by simp⟩
    have hmem : a ∈ st.nodes.dom := by
      refine counted.mem a (Multiset.mem_add.2 (.inl (Multiset.mem_add.2 (.inl ?_))))
      simp [pointee]
    obtain ⟨nd, hnd⟩ := st.nodes.exists_get?_of_mem hmem
    have count : ∀ b, b ≠ a → (pointee (some a)).count b = 0 := fun b hb => by
      simp [pointee, hb]
    by_cases fresh : nd.visited = false
    · have marks := CHeap.ChangedAt.modify MemoryNode.dismantled hnd
      have hmarked : (MemoryNode.dismantled nd).visited = true := rfl
      let st₁ : FreeState Obj := { st with nodes := st.nodes.modify a MemoryNode.dismantled }
      -- the call now owes the pointers of the records it has taken over
      have counted₁ : Counted (targets nd.start + owed) st₁.nodes := by
        refine counted.of_changedAt marks (pointee (some a)) ?_ ?_ count fun h => by cases h
        · rw [unfreed_taken marks fresh hmarked, pointees_add, pointees_map]
          ac_rfl
        · simp [pointee, MemoryNode.dismantled, MemoryNode.unlinked]
      have marks₁ : CHeap.ChangedAt a nd nd.dismantled st.nodes st₁.nodes := marks
      have enough₁ : (unvisited st₁.nodes).card < fuel :=
        lt_of_lt_of_le (card_unvisited_lt marks₁ fresh hmarked) (Nat.lt_succ_iff.1 enough)
      obtain ⟨st₂, hloop, counted₂, loop, lists⟩ :=
        freeReferers_releases ih a nd.start counted₁ enough₁
      obtain ⟨nd₂, hnd₂⟩ := st₂.nodes.exists_get?_of_mem (loop.visited a _ marks.new hmarked)
      have hmarked₂ : nd₂.visited = true := by
        obtain ⟨old, hold, heq⟩ := loop.survivor a nd₂ hnd₂
        obtain rfl := Option.some.inj (marks.new.symm.trans hold)
        exact heq.symm.trans hmarked
      obtain ⟨freed, st₃, hfinish, counted₃, closes, hfreed⟩ :=
        finishNode_closes counted₂ hnd₂ hmarked₂
      refine ⟨freed, st₃, ?_, counted₃, ?_, ?_, ?_⟩
      · rw [freeMemoryNode_of_fresh hnd fresh, hloop, Run.ok_bind, hfinish]
      · exact Released.of_call fresh marks₁ hmarked rfl rfl loop lists closes
      · rintro b hb
        obtain rfl := Option.some.inj hb
        exact closes.here
      · rintro b hb
        obtain rfl := Option.some.inj hb
        exact hfreed
    · have visited : nd.visited = true := by simpa using fresh
      have unlinks := CHeap.ChangedAt.modify MemoryNode.unlinked hnd
      refine ⟨false, _, freeMemoryNode_of_visited hnd visited, ?_, ?_, ?_, ?_⟩
      · refine counted.of_changedAt unlinks (pointee (some a)) ?_ ?_ count fun h => absurd h fresh
        · rw [unfreed_of_changedAt unlinks rfl, add_assoc]
        · simp [pointee, MemoryNode.unlinked]
      · exact Released.of_changedAt unlinks rfl rfl rfl rfl
      · rintro b hb
        obtain rfl := Option.some.inj hb
        exact valueAt_of_visited unlinks.new visited
      · rintro b hb
        obtain rfl := Option.some.inj hb
        exact iff_of_false Bool.false_ne_true fun h => h hmem

end JLeaker
