import Mathlib.Data.Finset.Card
import Mathlib.Data.Set.Basic
import JLeaker.Lib.DeadEnds
import JLeaker.Proof.BitmaskSet
import JLeaker.Model.JvmReference

/-!
# The depth-first search for a chain

`generateReferencesChainForNode` is sound and complete on the recorded graph.  While it runs, the
nodes it may still enter (`avail`) shrink: the nodes on the stack are marked visited, and failed
nodes lose the leak.  The invariant is that every node dropped for good leads nowhere (`Prunes`).
-/

namespace JLeaker

open DeadEnds

variable {Obj : Type}

/-! ## The recorded graph -/

/-- The references recorded to the object of a node. -/
def referencesOf (nodes : CHeap (MemoryNode Obj)) (a : ℕ) : List MemoryReferer :=
  match nodes.get? a with
  | some nd => nd.start
  | none => []

/-- The node carries the leak. -/
def Carries (nodes : CHeap (MemoryNode Obj)) (leakNumber a : ℕ) : Prop :=
  ∃ nd, nodes.get? a = some nd ∧ nd.leaksRelated.contains leakNumber = true

/-- `fillClassInMemoryNode` finds the object of the node alive. -/
def MemoryNode.live (objectsWithTag : ℕ → List Obj) (a : ℕ) (nd : MemoryNode Obj) : Bool :=
  !nd.dead && (nd.klass.isSome || nd.obj.isSome || !(objectsWithTag a).isEmpty)

/-- The node's object is alive. -/
def Live (objectsWithTag : ℕ → List Obj) (nodes : CHeap (MemoryNode Obj)) (a : ℕ) : Prop :=
  ∃ nd, nodes.get? a = some nd ∧ nd.live objectsWithTag a = true

/-- A considered reference that is not a root leads from node `a` on to node `b`. -/
def LinkedTo (g : GlobalData) (refs : ℕ → List MemoryReferer) (a b : ℕ) : Prop :=
  ∃ ref ∈ refs a, shouldConsiderThisReference g ref.kind = true ∧
    isRootReference ref.kind = false ∧ ref.node = some b

/-- Node `a` holds a considered root reference. -/
def HoldsRoot (g : GlobalData) (refs : ℕ → List MemoryReferer) (a : ℕ) : Prop :=
  ∃ ref ∈ refs a, shouldConsiderThisReference g ref.kind = true ∧ isRootReference ref.kind = true

/-- A chain of considered references from node `a` through `A` to a root reference. -/
def IsChain (g : GlobalData) (refs : ℕ → List MemoryReferer) (A : Set ℕ) :
    ℕ → List MemoryReferer → Prop
  | _, [] => False
  | a, ref :: rest =>
    a ∈ A ∧ ref ∈ refs a ∧ shouldConsiderThisReference g ref.kind = true ∧
      if isRootReference ref.kind then rest = []
      else ∃ b, ref.node = some b ∧ IsChain g refs A b rest

/-- The nodes a chain visits, in order. -/
def chainNodes : ℕ → List MemoryReferer → List ℕ
  | _, [] => []
  | a, ref :: rest => a :: chainNodes (ref.node.getD 0) rest

theorem IsChain.mono {g : GlobalData} {refs : ℕ → List MemoryReferer} {A B : Set ℕ}
    (sub : A ⊆ B) {path : List MemoryReferer} {a : ℕ} (chain : IsChain g refs A a path) :
    IsChain g refs B a path := by
  induction path generalizing a with
  | nil => exact chain
  | cons ref rest ih =>
    obtain ⟨ha, hr, hc, hrest⟩ := chain
    refine ⟨sub ha, hr, hc, ?_⟩
    split_ifs at hrest ⊢ with hroot
    · exact hrest
    · obtain ⟨b, hb, hchain⟩ := hrest
      exact ⟨b, hb, ih hchain⟩

theorem IsChain.chainNodes_subset {g : GlobalData} {refs : ℕ → List MemoryReferer} {A : Set ℕ}
    {path : List MemoryReferer} {a : ℕ} (chain : IsChain g refs A a path) :
    ∀ x ∈ chainNodes a path, x ∈ A := by
  induction path generalizing a with
  | nil => intro x hx; cases hx
  | cons ref rest ih =>
    obtain ⟨ha, _, _, hrest⟩ := chain
    intro x hx
    rcases List.mem_cons.1 hx with rfl | hx
    · exact ha
    · split_ifs at hrest with hroot
      · subst hrest
        cases hx
      · obtain ⟨b, hb, hchain⟩ := hrest
        rw [hb] at hx
        exact ih hchain x hx

/-- A chain is a path that leads to a goal, and back. -/
theorem leads_iff_exists_isChain {g : GlobalData} {refs : ℕ → List MemoryReferer} {A : Set ℕ}
    {a : ℕ} : Leads (LinkedTo g refs) (HoldsRoot g refs) A a ↔ ∃ path, IsChain g refs A a path := by
  constructor
  · intro leads
    induction leads with
    | @here v hv hg =>
      obtain ⟨ref, hr, hc, hroot⟩ := hg
      exact ⟨[ref], hv, hr, hc, by simp [hroot]⟩
    | @step v w hv he _ ih =>
      obtain ⟨ref, hr, hc, hroot, hnode⟩ := he
      obtain ⟨path, hpath⟩ := ih
      exact ⟨ref :: path, hv, hr, hc, by simp [hroot, hnode, hpath]⟩
  · rintro ⟨path, chain⟩
    induction path generalizing a with
    | nil => exact chain.elim
    | cons ref rest ih =>
      obtain ⟨ha, hr, hc, hrest⟩ := chain
      split_ifs at hrest with hroot
      · exact .here ha ⟨ref, hr, hc, hroot⟩
      · obtain ⟨b, hb, hchain⟩ := hrest
        exact .step ha ⟨ref, hr, hc, by simpa using hroot, hb⟩ (ih hchain)

/-! ## Circular lists of cells -/

/-- Reading on from the cell at `i` up to the cell `last` gives the references. -/
def Segment (cells : List OrderedReferences) (last : ℕ) : ℕ → List MemoryReferer → Prop
  | _, [] => False
  | i, [ref] => i = last ∧ ∃ c, cells[i]? = some c ∧ c.ref = ref
  | i, ref :: rest => i ≠ last ∧ ∃ c, cells[i]? = some c ∧ c.ref = ref ∧ Segment cells last c.next rest

/-- The circular list whose last cell is `last` holds the references, first to last. -/
structure Ring (cells : List OrderedReferences) (last : ℕ) (path : List MemoryReferer) : Prop where
  segment : ∃ c, cells[last]? = some c ∧ Segment cells last c.next path
  length_le : path.length ≤ cells.length

theorem readChain_of_segment {cells : List OrderedReferences} {last : ℕ}
    {path : List MemoryReferer} {i fuel : ℕ} (segment : Segment cells last i path)
    (enough : path.length ≤ fuel) : readChain cells last fuel i = some path := by
  induction path generalizing i fuel with
  | nil => exact segment.elim
  | cons ref rest ih =>
    obtain ⟨fuel, rfl⟩ : ∃ k, fuel = k + 1 := ⟨fuel - 1, by simp at enough; omega⟩
    cases rest with
    | nil =>
      obtain ⟨rfl, c, hc, rfl⟩ := segment
      simp [readChain, hc]
    | cons ref' rest =>
      obtain ⟨hne, c, hc, rfl, hseg⟩ := segment
      have hrest := @ih c.next fuel hseg (by simpa using enough)
      simp [readChain, hc, hne, hrest]

theorem Ring.printedChain {st : ChainState Obj} {last : ℕ} {path : List MemoryReferer}
    (ring : Ring st.cells last path) : printedChain st last = some path := by
  obtain ⟨⟨c, hc, hseg⟩, hlen⟩ := ring
  simp [JLeaker.printedChain, hc, readChain_of_segment hseg hlen]

theorem Segment.congr {cells cells' : List OrderedReferences} {last : ℕ}
    (same : ∀ i c, cells[i]? = some c →
      ∃ c', cells'[i]? = some c' ∧ c'.ref = c.ref ∧ (i ≠ last → c'.next = c.next))
    {path : List MemoryReferer} {i : ℕ} (segment : Segment cells last i path) :
    Segment cells' last i path := by
  induction path generalizing i with
  | nil => exact segment.elim
  | cons ref rest ih =>
    cases rest with
    | nil =>
      obtain ⟨rfl, c, hc, rfl⟩ := segment
      obtain ⟨c', hc', href, _⟩ := same i c hc
      exact ⟨rfl, c', hc', href⟩
    | cons ref' rest =>
      obtain ⟨hne, c, hc, rfl, hseg⟩ := segment
      obtain ⟨c', hc', href, hnext⟩ := same i c hc
      exact ⟨hne, c', hc', href, by rw [hnext hne]; exact ih hseg⟩

theorem ring_single (st : ChainState Obj) (ref : MemoryReferer) :
    Ring (st.single ref).2.cells (st.single ref).1 [ref] := by
  refine ⟨⟨⟨ref, st.cells.length⟩, by simp [ChainState.single], ?_⟩, by simp [ChainState.single]⟩
  exact ⟨rfl, ⟨ref, st.cells.length⟩, by simp [ChainState.single], rfl⟩

theorem nodes_insertAfter (st : ChainState Obj) (last : ℕ) (ref : MemoryReferer) :
    (st.insertAfter last ref).nodes = st.nodes := by
  unfold ChainState.insertAfter
  split <;> rfl

theorem Ring.insertAfter {st : ChainState Obj} {last : ℕ} {path : List MemoryReferer}
    (ring : Ring st.cells last path) (ref : MemoryReferer) :
    Ring (st.insertAfter last ref).cells last (ref :: path) := by
  obtain ⟨⟨c, hc, hseg⟩, hlen⟩ := ring
  have hlt : last < st.cells.length := by
    by_contra h
    rw [List.getElem?_eq_none (by omega)] at hc
    cases hc
  have hcells : (st.insertAfter last ref).cells =
      st.cells.set last { c with next := st.cells.length } ++ [⟨ref, c.next⟩] := by
    simp [ChainState.insertAfter, hc]
  rw [hcells]
  have hnew : (st.cells.set last { c with next := st.cells.length } ++
      [(⟨ref, c.next⟩ : OrderedReferences)])[st.cells.length]? = some ⟨ref, c.next⟩ := by
    rw [List.getElem?_append_right (by simp)]
    simp
  have hlast : (st.cells.set last { c with next := st.cells.length } ++
      [(⟨ref, c.next⟩ : OrderedReferences)])[last]? = some { c with next := st.cells.length } := by
    rw [List.getElem?_append_left (by simpa using hlt)]
    simp [hlt]
  have hold : Segment (st.cells.set last { c with next := st.cells.length } ++
      [(⟨ref, c.next⟩ : OrderedReferences)]) last c.next path := by
    refine hseg.congr fun i d hd => ?_
    have hi : i < st.cells.length := by
      by_contra h
      rw [List.getElem?_eq_none (by omega)] at hd
      cases hd
    by_cases hil : i = last
    · subst hil
      obtain rfl : c = d := Option.some.inj (hc.symm.trans hd)
      exact ⟨_, hlast, rfl, fun h => absurd rfl h⟩
    · refine ⟨d, ?_, rfl, fun _ => rfl⟩
      rw [List.getElem?_append_left (by simpa using hi), List.getElem?_set_ne (Ne.symm hil), hd]
  refine ⟨⟨_, hlast, ?_⟩, by simpa using hlen⟩
  cases path with
  | nil => exact hseg.elim
  | cons ref' rest => exact ⟨hlt.ne', _, hnew, rfl, hold⟩

/-! ## What the search leaves alone -/

/-- The search for one leak changes a node only in the fields it fills in from the object and in the
bit of that leak, which it may clear. -/
structure NodeFrame (objectsWithTag : ℕ → List Obj) (leakNumber a : ℕ) (nd nd' : MemoryNode Obj) :
    Prop where
  eq : nd' = { nd with
    dead := nd'.dead, klass := nd'.klass, obj := nd'.obj, classname := nd'.classname,
    leaksRelated := nd'.leaksRelated }
  live : nd'.live objectsWithTag a = nd.live objectsWithTag a
  obj : ∀ o, nd.obj = some o → nd'.obj = some o
  size : nd'.leaksRelated.size = nd.leaksRelated.size
  bit : ∀ n, n ≠ leakNumber → nd'.leaksRelated.bit n = nd.leaksRelated.bit n
  leak : nd'.leaksRelated.bit leakNumber = true → nd.leaksRelated.bit leakNumber = true

namespace NodeFrame

variable {objectsWithTag : ℕ → List Obj} {leakNumber a : ℕ} {nd nd' nd'' : MemoryNode Obj}

theorem refl (nd : MemoryNode Obj) : NodeFrame objectsWithTag leakNumber a nd nd :=
  ⟨rfl, rfl, fun _ h => h, rfl, fun _ _ => rfl, id⟩

theorem known (frame : NodeFrame objectsWithTag leakNumber a nd nd') (h : nd'.obj = none) :
    nd.obj = none := by
  by_contra some
  obtain ⟨o, ho⟩ := Option.ne_none_iff_exists'.1 some
  cases h.symm.trans (frame.obj o ho)

theorem trans (first : NodeFrame objectsWithTag leakNumber a nd nd')
    (second : NodeFrame objectsWithTag leakNumber a nd' nd'') :
    NodeFrame objectsWithTag leakNumber a nd nd'' where
  eq := by rw [second.eq, first.eq]
  live := second.live.trans first.live
  obj o h := second.obj o (first.obj o h)
  size := second.size.trans first.size
  bit n hn := (second.bit n hn).trans (first.bit n hn)
  leak h := first.leak (second.leak h)

theorem visited (frame : NodeFrame objectsWithTag leakNumber a nd nd') :
    nd'.visited = nd.visited := by rw [frame.eq]

theorem start (frame : NodeFrame objectsWithTag leakNumber a nd nd') : nd'.start = nd.start := by
  rw [frame.eq]

theorem contains (frame : NodeFrame objectsWithTag leakNumber a nd nd')
    (h : nd'.leaksRelated.contains leakNumber = true) :
    nd.leaksRelated.contains leakNumber = true := by
  rw [BitmaskSet.contains_iff, frame.size] at h
  exact (BitmaskSet.contains_iff _ _).2 ⟨h.1, frame.leak h.2⟩

end NodeFrame

/-- The search for one leak leaves the graph as it is up to `NodeFrame`. -/
structure GraphFrame (objectsWithTag : ℕ → List Obj) (leakNumber : ℕ)
    (h h' : CHeap (MemoryNode Obj)) : Prop where
  dom : h'.dom = h.dom
  node : ∀ a nd, h.get? a = some nd →
    ∃ nd', h'.get? a = some nd' ∧ NodeFrame objectsWithTag leakNumber a nd nd'

/-- The nodes the search for a leak may still enter. -/
def avail (objectsWithTag : ℕ → List Obj) (leakNumber : ℕ) (h : CHeap (MemoryNode Obj)) : Set ℕ :=
  { a | ∃ nd, h.get? a = some nd ∧ nd.visited = false ∧
    nd.leaksRelated.contains leakNumber = true ∧ nd.live objectsWithTag a = true }

/-- The nodes not on the stack of the search. -/
def unvisited (h : CHeap (MemoryNode Obj)) : Finset ℕ :=
  h.dom.filter fun a => (h.get? a).any (fun nd => !nd.visited)

/-- What the search needs of the graph: references that are not roots have live nodes, and no two
objects carry the tag of a node whose object is not known yet. -/
structure GraphOk (objectsWithTag : ℕ → List Obj) (h : CHeap (MemoryNode Obj)) : Prop where
  target : ∀ a, ∀ ref ∈ referencesOf h a, isRootReference ref.kind = false →
    ∃ b ∈ h.dom, ref.node = some b
  unique : ∀ a nd, h.get? a = some nd → nd.obj = none → (objectsWithTag a).length ≤ 1

namespace GraphFrame

variable {objectsWithTag : ℕ → List Obj} {leakNumber : ℕ} {h h' h'' : CHeap (MemoryNode Obj)}

theorem refl (h : CHeap (MemoryNode Obj)) : GraphFrame objectsWithTag leakNumber h h :=
  ⟨rfl, fun _ nd hnd => ⟨nd, hnd, .refl nd⟩⟩

theorem trans (first : GraphFrame objectsWithTag leakNumber h h')
    (second : GraphFrame objectsWithTag leakNumber h' h'') :
    GraphFrame objectsWithTag leakNumber h h'' where
  dom := second.dom.trans first.dom
  node a nd hnd := by
    obtain ⟨nd', hnd', frame'⟩ := first.node a nd hnd
    obtain ⟨nd'', hnd'', frame''⟩ := second.node a nd' hnd'
    exact ⟨nd'', hnd'', frame'.trans frame''⟩

/-- Every node of the later graph comes from one of the earlier graph. -/
theorem node_back (frame : GraphFrame objectsWithTag leakNumber h h') {a : ℕ}
    {nd' : MemoryNode Obj} (hnd' : h'.get? a = some nd') :
    ∃ nd, h.get? a = some nd ∧ NodeFrame objectsWithTag leakNumber a nd nd' := by
  have ha : a ∈ h.dom := frame.dom ▸ h'.mem_dom_of_get? hnd'
  obtain ⟨nd, hnd⟩ := h.exists_get?_of_mem ha
  obtain ⟨nd₂, hnd₂, hframe⟩ := frame.node a nd hnd
  obtain rfl : nd₂ = nd' := Option.some.inj (hnd₂.symm.trans hnd')
  exact ⟨nd, hnd, hframe⟩

theorem referencesOf_eq (frame : GraphFrame objectsWithTag leakNumber h h') :
    referencesOf h' = referencesOf h := by
  funext a
  unfold referencesOf
  rcases hnd : h.get? a with _ | nd
  · have ha : a ∉ h'.dom := by
      rw [frame.dom, h.mem_dom, hnd]
      simp
    rw [h'.get?_of_notMem ha]
  · obtain ⟨nd', hnd', hframe⟩ := frame.node a nd hnd
    rw [hnd']
    exact hframe.start

theorem avail_subset (frame : GraphFrame objectsWithTag leakNumber h h') :
    avail objectsWithTag leakNumber h' ⊆ avail objectsWithTag leakNumber h := by
  rintro a ⟨nd', hnd', hv, hc, hl⟩
  obtain ⟨nd, hnd, hframe⟩ := frame.node_back hnd'
  exact ⟨nd, hnd, hframe.visited ▸ hv, hframe.contains hc, hframe.live ▸ hl⟩

theorem unvisited_eq (frame : GraphFrame objectsWithTag leakNumber h h') :
    unvisited h' = unvisited h := by
  unfold unvisited
  rw [frame.dom]
  refine Finset.filter_congr fun a ha => ?_
  obtain ⟨nd, hnd⟩ := h.exists_get?_of_mem ha
  obtain ⟨nd', hnd', hframe⟩ := frame.node a nd hnd
  simp [hnd, hnd', hframe.visited]

theorem graphOk (frame : GraphFrame objectsWithTag leakNumber h h')
    (ok : GraphOk objectsWithTag h) : GraphOk objectsWithTag h' := by
  refine ⟨?_, ?_⟩
  · rw [frame.referencesOf_eq, frame.dom]
    exact ok.target
  · intro a nd' hnd' hobj
    obtain ⟨nd, hnd, hframe⟩ := frame.node_back hnd'
    exact ok.unique a nd hnd (hframe.known hobj)

end GraphFrame

/-! ## The steps of one call -/

/-- Set or clear the visited flag of a node. -/
def mark (visited : Bool) (h : CHeap (MemoryNode Obj)) (a : ℕ) : CHeap (MemoryNode Obj) :=
  h.modify a fun nd => { nd with visited := visited }

variable {objectsWithTag : ℕ → List Obj} {leakNumber : ℕ}

theorem referencesOf_mark (visited : Bool) (h : CHeap (MemoryNode Obj)) (a : ℕ) :
    referencesOf (mark visited h a) = referencesOf h := by
  funext b
  unfold referencesOf mark
  rw [h.get?_modify]
  split_ifs with hb
  · cases h.get? b <;> rfl
  · rfl

theorem graphOk_mark {h : CHeap (MemoryNode Obj)} (visited : Bool) (a : ℕ)
    (ok : GraphOk objectsWithTag h) : GraphOk objectsWithTag (mark visited h a) := by
  refine ⟨?_, fun b nd' hnd' hobj => ?_⟩
  · rw [referencesOf_mark]
    exact ok.target
  · rw [mark, h.get?_modify] at hnd'
    split_ifs at hnd'
    · obtain ⟨nd, hnd, rfl⟩ := Option.map_eq_some_iff.1 hnd'
      exact ok.unique b nd hnd hobj
    · exact ok.unique b nd' hnd' hobj

theorem avail_mark_true (h : CHeap (MemoryNode Obj)) (a : ℕ) :
    avail objectsWithTag leakNumber (mark true h a) =
      avail objectsWithTag leakNumber h \ {a} := by
  ext b
  simp only [avail, mark, Set.mem_ofPred_eq, Set.mem_sdiff, Set.mem_singleton_iff]
  by_cases hb : b = a
  · subst hb
    rw [h.get?_modify_self]
    cases h.get? b <;> simp
  · rw [h.get?_modify_of_ne hb]
    simp [hb]

theorem mem_unvisited {h : CHeap (MemoryNode Obj)} {a : ℕ} :
    a ∈ unvisited h ↔ ∃ nd, h.get? a = some nd ∧ nd.visited = false := by
  rw [unvisited, Finset.mem_filter, h.mem_dom]
  cases h.get? a <;> simp

theorem card_unvisited_le (h : CHeap (MemoryNode Obj)) : (unvisited h).card ≤ h.dom.card :=
  Finset.card_filter_le _ _

theorem card_unvisited_lt {h h' : CHeap (MemoryNode Obj)} {a : ℕ} {nd nd' : MemoryNode Obj}
    (change : CHeap.ChangedAt a nd nd' h h') (fresh : nd.visited = false)
    (marked : nd'.visited = true) : (unvisited h').card < (unvisited h).card := by
  apply Finset.card_lt_card
  have hsub : unvisited h' ⊆ unvisited h := by
    intro b hb
    obtain ⟨x, hx, hv⟩ := mem_unvisited.1 hb
    apply mem_unvisited.2
    by_cases hba : b = a
    · exact ⟨nd, hba ▸ change.old, fresh⟩
    · exact ⟨x, (change.others b hba).symm.trans hx, hv⟩
  refine (Finset.ssubset_iff_of_subset hsub).2
    ⟨a, mem_unvisited.2 ⟨nd, change.old, fresh⟩, fun ha => ?_⟩
  obtain ⟨x, hx, hv⟩ := mem_unvisited.1 ha
  obtain rfl := Option.some.inj (change.new.symm.trans hx)
  rw [marked] at hv
  cases hv

/-- What `fillClassInMemoryNode` does to the graph: it finds out whether the object is alive. -/
structure Filled (objectsWithTag : ℕ → List Obj) (leakNumber : ℕ) (h h' : CHeap (MemoryNode Obj))
    (a : ℕ) (nd : MemoryNode Obj) : Prop where
  dom : h'.dom = h.dom
  others : ∀ b, b ≠ a → h'.get? b = h.get? b
  node : ∃ nd', h'.get? a = some nd' ∧ nd'.leaksRelated = nd.leaksRelated ∧
    nd'.dead = !nd.live objectsWithTag a ∧ NodeFrame objectsWithTag leakNumber a nd nd'

theorem Filled.graphFrame {h h' : CHeap (MemoryNode Obj)} {a : ℕ} {nd : MemoryNode Obj}
    (hnd : h.get? a = some nd) (filled : Filled objectsWithTag leakNumber h h' a nd) :
    GraphFrame objectsWithTag leakNumber h h' where
  dom := filled.dom
  node b nb hnb := by
    by_cases hb : b = a
    · subst hb
      obtain rfl : nd = nb := Option.some.inj (hnd.symm.trans hnb)
      obtain ⟨nd', hnd', _, _, frame⟩ := filled.node
      exact ⟨nd', hnd', frame⟩
    · exact ⟨nb, by rw [filled.others b hb, hnb], .refl nb⟩

theorem filled_modify {h : CHeap (MemoryNode Obj)} {a : ℕ} {nd : MemoryNode Obj}
    (hnd : h.get? a = some nd) {f : MemoryNode Obj → MemoryNode Obj}
    (leaks : (f nd).leaksRelated = nd.leaksRelated) (dead : (f nd).dead = !nd.live objectsWithTag a)
    (frame : NodeFrame objectsWithTag leakNumber a nd (f nd)) :
    Filled objectsWithTag leakNumber h (h.modify a f) a nd :=
  ⟨rfl, fun _ hb => h.get?_modify_of_ne hb f, f nd, by simp [hnd], leaks, dead, frame⟩

/-- A node that is known already, or known to be dead, is not looked up. -/
theorem filled_known {h : CHeap (MemoryNode Obj)} {a : ℕ} {nd : MemoryNode Obj}
    (hnd : h.get? a = some nd) (known : nd.dead = true ∨ nd.dead = false ∧ nd.klass.isSome = true) :
    Filled objectsWithTag leakNumber h h a nd := by
  refine ⟨rfl, fun _ _ => rfl, nd, hnd, rfl, ?_, .refl nd⟩
  rcases known with dead | ⟨alive, known⟩
  · simp [MemoryNode.live, dead]
  · simp [MemoryNode.live, alive, known]

theorem fillClassInMemoryNode_spec (leakNumber : ℕ) (jvm : Jvm Obj)
    {h : CHeap (MemoryNode Obj)} {a : ℕ}
    {nd : MemoryNode Obj} (hnd : h.get? a = some nd)
    (unique : nd.obj = none → (objectsWithTag a).length ≤ 1) :
    ∃ h', fillClassInMemoryNode jvm objectsWithTag a h = .ok h' ∧
      Filled objectsWithTag leakNumber h h' a nd := by
  have hread : deref h a = .ok nd := deref_eq_ok.2 hnd
  by_cases hdead : nd.dead = true
  · refine ⟨h, ?_, filled_known hnd (.inl hdead)⟩
    simp [fillClassInMemoryNode, hread, hdead, pure, Except.pure]
  have hdead' : nd.dead = false := by simpa using hdead
  by_cases hklass : nd.klass.isSome = true
  · refine ⟨h, ?_, filled_known hnd (.inr ⟨hdead', hklass⟩)⟩
    simp [fillClassInMemoryNode, hread, hdead', hklass, pure, Except.pure]
  have hfound : ∀ o, (nd.obj = some o ∨ nd.obj = none ∧ objectsWithTag a = [o]) →
      ∃ h', fillClassInMemoryNode jvm objectsWithTag a h = .ok h' ∧
        Filled objectsWithTag leakNumber h h' a nd := by
    intro o ho
    have hlive : nd.live objectsWithTag a = true := by
      rcases ho with ho | ⟨_, ht⟩
      · simp [MemoryNode.live, hdead', ho]
      · simp [MemoryNode.live, hdead', ht]
    refine ⟨_, ?_, filled_modify hnd (f := fun nd => { nd with
      obj := some o, klass := some (jvm.classOf o),
      classname := some (jvm.className (jvm.classOf o)) }) rfl (by simp [hlive, hdead'])
      ⟨rfl, ?_, fun o' ho' => ?_, rfl, fun _ _ => rfl, id⟩⟩
    · rcases ho with ho | ⟨ho, ht⟩
      · simp [fillClassInMemoryNode, hread, hdead', hklass, ho, pure, Except.pure]
      · simp [fillClassInMemoryNode, hread, hdead', hklass, ho, ht, pure, Except.pure]
    · rw [hlive]
      simp [MemoryNode.live, hdead']
    · rcases ho with ho | ⟨ho, -⟩
      · exact ho.symm.trans ho'
      · cases ho.symm.trans ho'
  rcases hobj : nd.obj with _ | o
  · rcases htag : objectsWithTag a with _ | ⟨o, os⟩
    · have hlive : nd.live objectsWithTag a = false := by
        have : nd.klass.isSome = false := by simpa using hklass
        simp [MemoryNode.live, hobj, htag, this]
      refine ⟨_, ?_, filled_modify hnd (f := fun nd => { nd with dead := true }) rfl (by simp [hlive])
        ⟨rfl, ?_, fun _ h => h, rfl, fun _ _ => rfl, id⟩⟩
      · simp [fillClassInMemoryNode, hread, hdead', hklass, hobj, htag, pure, Except.pure]
      · rw [hlive]
        simp [MemoryNode.live]
    · have one := unique hobj
      rw [htag] at one
      obtain rfl : os = [] := by cases os <;> simp at one ⊢
      exact hfound o (.inr ⟨hobj, htag⟩)
  · exact hfound o (.inl hobj)

end JLeaker
