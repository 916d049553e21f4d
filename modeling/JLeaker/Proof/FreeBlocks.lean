import JLeaker.Proof.Blocks

/-!
# The blocks of freeing

A call of `freeMemoryNode` takes over the blocks of the node it marks visited: it frees the class name,
the ignored fields and the set at once, the records one by one in its loop, and the fan-in list and
the node at the end.  So what is freed is what the nodes own less (`FreesBlocks`), and nothing is left
when no node is.
-/

namespace JLeaker

variable {Obj : Type}

/-! ## Nodes that are marked visited -/

/-- The blocks of a node that no call has freed or taken over. -/
def MemoryNode.blocksLeft (nd : MemoryNode Obj) : ℕ :=
  if nd.visited then 1 + nd.fanIn.length else nd.blocks

/-- The blocks of all nodes that no call has freed or taken over. -/
def blocksLeft (h : CHeap (MemoryNode Obj)) : ℕ := h.total fun _ nd => nd.blocksLeft

/-- The nodes marked visited are as before, but for their counters. -/
def KeepsVisited (h h' : CHeap (MemoryNode Obj)) : Prop :=
  ∀ a nd, h.get? a = some nd → nd.visited = true →
    ∃ n, h'.get? a = some { nd with referencePointingToMe := n }

/-- A part of the freeing: the ledger has followed it; `k` are the records a loop still has to
free. -/
structure FreesBlocks (st : Freeing Obj) (k : ℕ) (st' : Freeing Obj) : Prop where
  keeps : KeepsVisited st.nodes st'.nodes
  tracks : Tracks st.ledger (blocksLeft st.nodes + k) st'.ledger (blocksLeft st'.nodes)

/-- The counted call does what the call does, and frees the blocks it takes from the nodes. -/
def FreesAs (free : Option ℕ → Freeing Obj → Except Fault (Bool × Freeing Obj))
    (plain : Option ℕ → FreeState Obj → Except Fault (Bool × FreeState Obj)) : Prop :=
  ∀ p st freed st', free p st = .ok (freed, st') →
    plain p st.toFreeState = .ok (freed, st'.toFreeState) ∧ FreesBlocks st 0 st'

section

variable {h h' h'' : CHeap (MemoryNode Obj)}

theorem KeepsVisited.refl (h : CHeap (MemoryNode Obj)) : KeepsVisited h h :=
  fun _ nd hnd _ => ⟨nd.referencePointingToMe, hnd⟩

theorem KeepsVisited.trans (first : KeepsVisited h h') (second : KeepsVisited h' h'') :
    KeepsVisited h h'' := by
  intro a nd hnd visited
  obtain ⟨n, hnd'⟩ := first a nd hnd visited
  exact second a { nd with referencePointingToMe := n } hnd' visited

/-- A change of a node that was not marked visited before. -/
theorem KeepsVisited.of_changedAt {a : ℕ} {nd nd' : MemoryNode Obj}
    (change : CHeap.ChangedAt a nd nd' h h') (fresh : nd.visited = false) : KeepsVisited h h' := by
  intro b x hx visited
  have hb : b ≠ a := by
    rintro rfl
    obtain rfl := Option.some.inj (change.old.symm.trans hx)
    rw [fresh] at visited
    cases visited
  exact ⟨x.referencePointingToMe, (change.others b hb).trans hx⟩

theorem blocksLeft_of_unmarked (unmarked : ∀ a nd, h.get? a = some nd → nd.visited = false) :
    blocksLeft h = blocksIn h := by
  refine Finset.sum_congr rfl fun a ha => ?_
  obtain ⟨nd, hnd⟩ := h.exists_get?_of_mem ha
  rw [CHeap.valueAt_of_get? hnd, CHeap.valueAt_of_get? hnd, MemoryNode.blocksLeft,
    unmarked a nd hnd]
  rfl

theorem blocksLeft_of_dom_eq_empty (none : h.dom = ∅) : blocksLeft h = 0 := by
  rw [blocksLeft, CHeap.total, none, Finset.sum_empty]

end

namespace FreesBlocks

variable {st st' st'' : Freeing Obj} {k k' : ℕ}

theorem refl (st : Freeing Obj) : FreesBlocks st 0 st := ⟨.refl _, .refl _ _⟩

theorem trans (first : FreesBlocks st k st') (second : FreesBlocks st' k' st'') :
    FreesBlocks st (k + k') st'' where
  keeps := first.keeps.trans second.keeps
  tracks := by
    have := first.tracks.add k'
    rw [Nat.add_assoc] at this
    exact this.trans second.tracks

end FreesBlocks

/-! ## The loop over the references -/

theorem freeReferersCounted_frees
    {free : Option ℕ → Freeing Obj → Except Fault (Bool × Freeing Obj)}
    {plain : Option ℕ → FreeState Obj → Except Fault (Bool × FreeState Obj)}
    (frees : FreesAs free plain) {node : ℕ} {refs : List MemoryReferer} {st st' : Freeing Obj}
    (h : freeReferersCounted free node refs st = .ok st') :
    freeReferers plain node refs st.toFreeState = .ok st'.toFreeState ∧
      FreesBlocks st refs.length st' := by
  induction refs generalizing st with
  | nil =>
    cases h
    exact ⟨rfl, .refl st'⟩
  | cons ref rest ih =>
    obtain ⟨⟨freed, st₁⟩, hfree, hrest⟩ := Run.bind_eq_ok.1 h
    obtain ⟨hplain, blocks⟩ := frees ref.node st freed st₁ hfree
    obtain ⟨hplain', blocks'⟩ := ih hrest
    refine ⟨?_, ?_⟩
    · rw [freeReferers, hplain, Run.ok_bind]
      exact hplain'
    · -- the record itself is freed after the call
      have record : FreesBlocks st₁ 1 { st₁ with
          freedReferers := st₁.freedReferers ++ [(node, ref)], ledger := st₁.ledger.free 1 } :=
        ⟨.refl st₁.nodes, .free _ _ 1⟩
      have all := (blocks.trans record).trans blocks'
      rwa [Nat.zero_add, Nat.add_comm] at all

/-! ## The call -/

theorem blocksLeft_modify {h : CHeap (MemoryNode Obj)} {a : ℕ} {nd : MemoryNode Obj}
    (f : MemoryNode Obj → MemoryNode Obj) (hnd : h.get? a = some nd) :
    blocksLeft (h.modify a f) + nd.blocksLeft = blocksLeft h + (f nd).blocksLeft :=
  (CHeap.ChangedAt.modify f hnd).total _

/-- A node that is marked keeps one block and its fan-in list. -/
theorem tracks_dismantled {a : ℕ} {nd : MemoryNode Obj} {h : CHeap (MemoryNode Obj)} (l : Ledger)
    (hnd : h.get? a = some nd) (fresh : nd.visited = false) :
    Tracks l (blocksLeft h) (l.free nd.namedBlocks)
      (blocksLeft (h.modify a MemoryNode.dismantled) + nd.start.length) := by
  have change := blocksLeft_modify MemoryNode.dismantled hnd
  have before : nd.blocksLeft = 1 + nd.namedBlocks + nd.start.length + nd.fanIn.length := by
    rw [MemoryNode.blocksLeft, fresh]
    rfl
  have after : nd.dismantled.blocksLeft = 1 + nd.fanIn.length := rfl
  have same : blocksLeft h =
      blocksLeft (h.modify a MemoryNode.dismantled) + nd.start.length + nd.namedBlocks := by
    omega
  rw [same]
  exact .free l _ _

/-- The part of `freeMemoryNode` after the loop over the references, counted. -/
def finishNodeCounted (node : ℕ) (st : Freeing Obj) : Except Fault (Bool × Freeing Obj) := do
  let listed ← deref st.nodes node
  let st := { st with ledger := st.ledger.free listed.fanIn.length }
  let nodes := st.nodes.modify node fun nd => { nd with start := [], fanIn := [] }
  let nd ← deref nodes node
  if (0 : ℤ) < nd.referencePointingToMe then
    return (false, { st with nodes := nodes.modify node fun nd => { nd with visited := false } })
  return (true, { st with
    nodes := nodes.free node, nodesFreed := st.nodesFreed + 1, ledger := st.ledger.free 1 })

theorem freeMemoryNodeCounted_of_fresh {fuel a : ℕ} {st : Freeing Obj} {nd : MemoryNode Obj}
    (hnd : st.nodes.get? a = some nd) (fresh : nd.visited = false) :
    freeMemoryNodeCounted (fuel + 1) (some a) st =
      freeReferersCounted (freeMemoryNodeCounted fuel) a nd.start { st with
        nodes := st.nodes.modify a MemoryNode.dismantled
        ledger := st.ledger.free nd.namedBlocks } >>= finishNodeCounted a := by
  simp only [freeMemoryNodeCounted, deref_eq_ok.2 hnd, Run.ok_bind, fresh, Bool.false_eq_true,
    if_false, modify_dismantled]
  rfl

/-- The end of a call takes the last blocks of the node it has emptied. -/
theorem finishNodeCounted_frees {a : ℕ} {st st' : Freeing Obj} {nd : MemoryNode Obj} {freed : Bool}
    (hnd : st.nodes.get? a = some nd) (marked : nd.visited = true) (unnamed : nd.namedBlocks = 0)
    (h : finishNodeCounted a st = .ok (freed, st')) :
    finishNode a st.toFreeState = .ok (freed, st'.toFreeState) ∧
      (∀ b, b ≠ a → st'.nodes.get? b = st.nodes.get? b) ∧
      Tracks st.ledger (blocksLeft st.nodes) st'.ledger (blocksLeft st'.nodes) := by
  let empty : MemoryNode Obj → MemoryNode Obj := fun nd => { nd with start := [], fanIn := [] }
  let unmark : MemoryNode Obj → MemoryNode Obj := fun nd => { nd with visited := false }
  have empties : CHeap.ChangedAt a nd (empty nd) st.nodes (st.nodes.modify a empty) :=
    .modify empty hnd
  have left : nd.blocksLeft = 1 + nd.fanIn.length := by rw [MemoryNode.blocksLeft, marked]; rfl
  have emptied : (empty nd).blocksLeft = 1 := by rw [MemoryNode.blocksLeft]; simp [empty, marked]
  have change := blocksLeft_modify empty hnd
  have listed : Tracks st.ledger (blocksLeft st.nodes) (st.ledger.free nd.fanIn.length)
      (blocksLeft (st.nodes.modify a empty)) := by
    have same : blocksLeft st.nodes = blocksLeft (st.nodes.modify a empty) + nd.fanIn.length := by
      omega
    rw [same]
    exact .free _ _ _
  simp only [finishNodeCounted, deref_eq_ok.2 hnd, Run.ok_bind] at h
  rw [deref_eq_ok.2 empties.new, Run.ok_bind] at h
  simp only [finishNode]
  rw [deref_eq_ok.2 empties.new, Run.ok_bind]
  split_ifs at h ⊢ with hrc
  · cases h
    refine ⟨rfl, (empties.trans (.modify unmark empties.new)).others, ?_⟩
    have change' := blocksLeft_modify unmark empties.new
    have unmarked : (unmark (empty nd)).blocksLeft = 1 := by
      show 1 + nd.namedBlocks + 0 + 0 = 1
      rw [unnamed]
    have same : blocksLeft ((st.nodes.modify a empty).modify a unmark) =
        blocksLeft (st.nodes.modify a empty) := by omega
    exact same.symm ▸ listed
  · cases h
    refine ⟨rfl, fun b hb => ?_, ?_⟩
    · simp only [CHeap.get?_free, if_neg hb]
      exact empties.others b hb
    · have gone := CHeap.total_free (f := fun _ (nd : MemoryNode Obj) => nd.blocksLeft)
        (CHeap.mem_dom_of_get? _ empties.new)
      rw [CHeap.valueAt_of_get? empties.new, emptied] at gone
      apply listed.trans
      show Tracks _ (CHeap.total _ _) _ (CHeap.total _ _)
      rw [← gone]
      exact .free _ _ 1

theorem freeMemoryNodeCounted_frees (fuel : ℕ) :
    FreesAs (freeMemoryNodeCounted fuel : Option ℕ → Freeing Obj → _) (freeMemoryNode fuel) := by
  induction fuel with
  | zero =>
    intro p st freed st' h
    cases h
  | succ fuel ih =>
    intro p st freed st' h
    rcases p with _ | a
    · cases h
      exact ⟨rfl, .refl st⟩
    rcases hnd : st.nodes.get? a with _ | nd
    · simp only [freeMemoryNodeCounted, deref, hnd] at h
      cases h
    by_cases fresh : nd.visited = false
    · rw [freeMemoryNodeCounted_of_fresh hnd fresh] at h
      rw [freeMemoryNode_of_fresh hnd fresh]
      obtain ⟨st₂, hloop, hfinish⟩ := Run.bind_eq_ok.1 h
      obtain ⟨hplain, blocks⟩ := freeReferersCounted_frees ih hloop
      have marks := CHeap.ChangedAt.modify MemoryNode.dismantled hnd
      -- the node is still marked when the loop is over, and its blocks are freed
      obtain ⟨n, hnd₂⟩ := blocks.keeps a nd.dismantled marks.new rfl
      obtain ⟨hplain', others, tracks⟩ := finishNodeCounted_frees hnd₂ rfl rfl hfinish
      refine ⟨?_, fun b x hx visited => ?_, ?_⟩
      · rw [hplain, Run.ok_bind]
        exact hplain'
      · have hb : b ≠ a := by
          rintro rfl
          obtain rfl := Option.some.inj (hnd.symm.trans hx)
          rw [fresh] at visited
          cases visited
        obtain ⟨n, hx₂⟩ := blocks.keeps b x ((marks.others b hb).trans hx) visited
        exact ⟨n, (others b hb).trans hx₂⟩
      · exact ((tracks_dismantled st.ledger hnd fresh).trans blocks.tracks).trans tracks
    · have visited : nd.visited = true := by simpa using fresh
      rw [freeMemoryNode_of_visited hnd visited]
      simp only [freeMemoryNodeCounted, deref_eq_ok.2 hnd, Run.ok_bind, visited, if_true] at h
      cases h
      refine ⟨rfl, fun b x hx _ => ?_, ?_⟩
      · by_cases hb : b = a
        · subst hb
          obtain rfl := Option.some.inj (hnd.symm.trans hx)
          exact ⟨_, (CHeap.ChangedAt.modify MemoryNode.unlinked hnd).new⟩
        · exact ⟨_, (st.nodes.get?_modify_of_ne hb _).trans hx⟩
      · have change := blocksLeft_modify MemoryNode.unlinked hnd
        have same : nd.unlinked.blocksLeft = nd.blocksLeft := rfl
        have same' : blocksLeft (st.nodes.modify a MemoryNode.unlinked) = blocksLeft st.nodes := by
          omega
        show Tracks _ _ _ (blocksLeft (st.nodes.modify a MemoryNode.unlinked))
        rw [same']
        exact .refl _ _

/-! ## The two lists -/

/-- The leak list, with its own cells. -/
theorem freeMemoryForLeakListCounted_frees {fuel : ℕ} {leaks : List LeakingNode}
    {st st' : Freeing Obj} (h : freeMemoryForLeakListCounted fuel leaks st = .ok st') :
    freeMemoryForLeakList fuel leaks st.toFreeState = .ok st'.toFreeState ∧
      FreesBlocks st leaks.length st' := by
  induction leaks generalizing st with
  | nil =>
    cases h
    exact ⟨rfl, .refl st'⟩
  | cons leak rest ih =>
    obtain ⟨⟨freed, st₁⟩, hfree, hrest⟩ := Run.bind_eq_ok.1 h
    obtain ⟨hplain, blocks⟩ := freeMemoryNodeCounted_frees fuel _ _ _ _ hfree
    obtain ⟨hplain', blocks'⟩ := ih hrest
    refine ⟨?_, ?_⟩
    · rw [freeMemoryForLeakList, hplain, Run.ok_bind]
      exact hplain'
    · have cell : FreesBlocks st₁ 1 { st₁ with ledger := st₁.ledger.free 1 } :=
        ⟨.refl st₁.nodes, .free _ _ 1⟩
      have all := (blocks.trans cell).trans blocks'
      rwa [Nat.zero_add, Nat.add_comm] at all

/-- The class nodes. -/
theorem freeClassNodesCounted_frees {fuel : ℕ} {classNodes : List ℕ} {st st' : Freeing Obj}
    (h : freeClassNodesCounted fuel classNodes st = .ok st') :
    (∃ kept, freeClassNodes fuel classNodes st.toFreeState = .ok (kept, st'.toFreeState)) ∧
      FreesBlocks st 0 st' := by
  induction classNodes generalizing st with
  | nil =>
    cases h
    exact ⟨⟨[], rfl⟩, .refl st'⟩
  | cons node rest ih =>
    obtain ⟨⟨freed, st₁⟩, hfree, hrest⟩ := Run.bind_eq_ok.1 h
    obtain ⟨hplain, blocks⟩ := freeMemoryNodeCounted_frees fuel _ _ _ _ hfree
    obtain ⟨⟨kept, hplain'⟩, blocks'⟩ := ih hrest
    have name : FreesBlocks st₁ 0 { st₁ with
        ledger := if freed then st₁.ledger else (st₁.ledger.alloc 1).free 1 } := by
      refine ⟨.refl st₁.nodes, ?_⟩
      cases freed
      · exact .allocFree _ _ 1
      · exact .refl _ _
    refine ⟨⟨if freed then kept else node :: kept, ?_⟩, (blocks.trans name).trans blocks'⟩
    rw [freeClassNodes, hplain, Run.ok_bind]
    dsimp only
    rw [show freeClassNodes fuel rest st₁.toFreeState = _ from hplain', Run.ok_bind]
    rfl

end JLeaker
