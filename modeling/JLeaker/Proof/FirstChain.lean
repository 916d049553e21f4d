import JLeaker.Proof.ChainCorrect

/-!
# The chain that is found

The search takes the references of a node in the order in which they were recorded, so of all chains
it finds the first: at every node the first considered reference behind which a root lies.  The
labels it clears on the way to success are those of nodes at which a reference before that one
failed.
-/

namespace JLeaker

open DeadEnds

variable {Obj : Type} {objectsWithTag : ℕ → List Obj} {leakNumber : ℕ} {g : GlobalData}
  {refs : ℕ → List MemoryReferer} {A B : Set ℕ} {a b : ℕ} {ref : MemoryReferer}
  {l rest path path' : List MemoryReferer}

/-! ## The first chain -/

/-- No chain through `A` begins with the reference. -/
def PassedOver (g : GlobalData) (refs : ℕ → List MemoryReferer) (A : Set ℕ) (ref : MemoryReferer) :
    Prop :=
  shouldConsiderThisReference g ref.kind = true → isRootReference ref.kind = false ∧
    ∀ b, ref.node = some b → ¬ Leads (LinkedTo g refs) (HoldsRoot g refs) A b

/-- The first chain through `A` that begins with one of the references of a list. -/
inductive FirstAmong (g : GlobalData) (refs : ℕ → List MemoryReferer) :
    Set ℕ → List MemoryReferer → List MemoryReferer → Prop
  | root {A : Set ℕ} {ref : MemoryReferer} {rest : List MemoryReferer}
      (considered : shouldConsiderThisReference g ref.kind = true)
      (isRoot : isRootReference ref.kind = true) : FirstAmong g refs A (ref :: rest) [ref]
  | through {A : Set ℕ} {ref : MemoryReferer} {rest path : List MemoryReferer} {b : ℕ}
      (considered : shouldConsiderThisReference g ref.kind = true)
      (notRoot : isRootReference ref.kind = false) (node : ref.node = some b) (inside : b ∈ A)
      (chain : FirstAmong g refs (A \ {b}) (refs b) path) :
      FirstAmong g refs A (ref :: rest) (ref :: path)
  | pass {A : Set ℕ} {ref : MemoryReferer} {rest path : List MemoryReferer}
      (passed : PassedOver g refs A ref) (chain : FirstAmong g refs A rest path) :
      FirstAmong g refs A (ref :: rest) path

/-- The first chain from a node. -/
def FirstChain (g : GlobalData) (refs : ℕ → List MemoryReferer) (A : Set ℕ) (a : ℕ)
    (path : List MemoryReferer) : Prop :=
  a ∈ A ∧ FirstAmong g refs (A \ {a}) (refs a) path

theorem FirstAmong.leads (first : FirstAmong g refs A l path) :
    ∃ ref ∈ l, shouldConsiderThisReference g ref.kind = true ∧ (isRootReference ref.kind = true ∨
      isRootReference ref.kind = false ∧
        ∃ b, ref.node = some b ∧ Leads (LinkedTo g refs) (HoldsRoot g refs) A b) := by
  induction first with
  | @root A ref rest considered isRoot =>
    exact ⟨ref, List.mem_cons_self .., considered, .inl isRoot⟩
  | @through A ref rest path b considered notRoot node inside chain ih =>
    refine ⟨ref, List.mem_cons_self .., considered, .inr ⟨notRoot, b, node, ?_⟩⟩
    obtain ⟨r, hr, hcons, hroot | ⟨hroot, c, hc, leads⟩⟩ := ih
    · exact .here inside ⟨r, hr, hcons, hroot⟩
    · exact .step inside ⟨r, hr, hcons, hroot, hc⟩ (leads.mono fun _ h => h.1)
  | pass passed chain ih =>
    obtain ⟨r, hr, hleads⟩ := ih
    exact ⟨r, List.mem_cons_of_mem _ hr, hleads⟩

theorem FirstChain.leads (first : FirstChain g refs A a path) :
    Leads (LinkedTo g refs) (HoldsRoot g refs) A a := by
  obtain ⟨r, hr, hcons, hroot | ⟨hroot, c, hc, leads⟩⟩ := first.2.leads
  · exact .here first.1 ⟨r, hr, hcons, hroot⟩
  · exact .step first.1 ⟨r, hr, hcons, hroot, hc⟩ (leads.mono fun _ h => h.1)

/-- There is only one first chain. -/
theorem FirstAmong.unique (first : FirstAmong g refs A l path)
    (second : FirstAmong g refs A l path') : path = path' := by
  induction first generalizing path' with
  | root considered isRoot =>
    cases second with
    | root => rfl
    | through _ notRoot =>
      rw [isRoot] at notRoot
      cases notRoot
    | pass passed =>
      have notRoot := (passed considered).1
      rw [isRoot] at notRoot
      cases notRoot
  | @through A ref rest path b considered notRoot node inside chain ih =>
    cases second with
    | root _ isRoot =>
      rw [isRoot] at notRoot
      cases notRoot
    | through _ _ node' _ chain' =>
      obtain rfl := Option.some.inj (node.symm.trans node')
      rw [ih chain']
    | pass passed =>
      have leads : Leads (LinkedTo g refs) (HoldsRoot g refs) A b :=
        FirstChain.leads ⟨inside, chain⟩
      exact absurd leads ((passed considered).2 b node)
  | @pass A ref rest path passed chain ih =>
    cases second with
    | root considered isRoot =>
      have notRoot := (passed considered).1
      rw [isRoot] at notRoot
      cases notRoot
    | @through _ _ _ _ b considered _ node inside chain' =>
      have leads : Leads (LinkedTo g refs) (HoldsRoot g refs) A b :=
        FirstChain.leads ⟨inside, chain'⟩
      exact absurd leads ((passed considered).2 b node)
    | pass _ chain' => exact ih chain'

theorem FirstChain.unique (first : FirstChain g refs A a path)
    (second : FirstChain g refs A a path') : path = path' :=
  first.2.unique second.2

/-- Vertices that lead nowhere do not matter. -/
theorem FirstAmong.of_prunes (prunes : Prunes (LinkedTo g refs) (HoldsRoot g refs) A B)
    (first : FirstAmong g refs B l path) : FirstAmong g refs A l path := by
  induction first generalizing A with
  | root considered isRoot => exact .root considered isRoot
  | through considered notRoot node inside _ ih =>
    exact .through considered notRoot node (prunes.sub inside) (ih (prunes.sdiff _))
  | pass passed _ ih =>
    refine .pass (fun considered => ?_) (ih prunes)
    obtain ⟨notRoot, nowhere⟩ := passed considered
    exact ⟨notRoot, fun b hb leads => nowhere b hb (prunes.leads leads)⟩

/-! ## Chains of first references -/

/-- The first considered reference of the list begins a chain through `A` on which every node is left
by its first considered reference. -/
inductive StraightAmong (g : GlobalData) (refs : ℕ → List MemoryReferer) :
    Set ℕ → List MemoryReferer → Prop
  | root {A : Set ℕ} {ref : MemoryReferer} {rest : List MemoryReferer}
      (considered : shouldConsiderThisReference g ref.kind = true)
      (isRoot : isRootReference ref.kind = true) : StraightAmong g refs A (ref :: rest)
  | through {A : Set ℕ} {ref : MemoryReferer} {rest : List MemoryReferer} {b : ℕ}
      (considered : shouldConsiderThisReference g ref.kind = true)
      (notRoot : isRootReference ref.kind = false) (node : ref.node = some b) (inside : b ∈ A)
      (chain : StraightAmong g refs (A \ {b}) (refs b)) : StraightAmong g refs A (ref :: rest)
  | skip {A : Set ℕ} {ref : MemoryReferer} {rest : List MemoryReferer}
      (ignored : shouldConsiderThisReference g ref.kind = false)
      (chain : StraightAmong g refs A rest) : StraightAmong g refs A (ref :: rest)

/-- From the node on, the first considered reference of every node leads to a root. -/
def LeadsStraight (g : GlobalData) (refs : ℕ → List MemoryReferer) (A : Set ℕ) (a : ℕ) : Prop :=
  a ∈ A ∧ StraightAmong g refs (A \ {a}) (refs a)

theorem StraightAmong.exists_first (straight : StraightAmong g refs A l) :
    ∃ path, FirstAmong g refs A l path := by
  induction straight with
  | root considered isRoot => exact ⟨_, .root considered isRoot⟩
  | through considered notRoot node inside _ ih =>
    obtain ⟨path, chain⟩ := ih
    exact ⟨_, .through considered notRoot node inside chain⟩
  | skip ignored _ ih =>
    obtain ⟨path, chain⟩ := ih
    refine ⟨path, .pass (fun considered => ?_) chain⟩
    rw [ignored] at considered
    cases considered

theorem LeadsStraight.leads (straight : LeadsStraight g refs A a) :
    Leads (LinkedTo g refs) (HoldsRoot g refs) A a := by
  obtain ⟨path, chain⟩ := straight.2.exists_first
  exact FirstChain.leads ⟨straight.1, chain⟩

theorem straightAmong_skip_iff (ignored : shouldConsiderThisReference g ref.kind = false) :
    StraightAmong g refs A (ref :: rest) ↔ StraightAmong g refs A rest := by
  constructor
  · intro straight
    cases straight with
    | root considered =>
      rw [ignored] at considered
      cases considered
    | through considered =>
      rw [ignored] at considered
      cases considered
    | skip _ chain => exact chain
  · exact .skip ignored

theorem straightAmong_through_iff (considered : shouldConsiderThisReference g ref.kind = true)
    (notRoot : isRootReference ref.kind = false) (node : ref.node = some b) :
    StraightAmong g refs A (ref :: rest) ↔ LeadsStraight g refs A b := by
  constructor
  · intro straight
    cases straight with
    | root _ isRoot =>
      rw [isRoot] at notRoot
      cases notRoot
    | through _ _ node' inside chain =>
      obtain rfl := Option.some.inj (node.symm.trans node')
      exact ⟨inside, chain⟩
    | skip ignored =>
      rw [ignored] at considered
      cases considered
  · exact fun straight => .through considered notRoot node straight.1 straight.2

/-! ## The labels a successful search clears -/

/-- No node has lost the leak. -/
def KeepsLabels (leakNumber : ℕ) (h h' : CHeap (MemoryNode Obj)) : Prop :=
  ∀ a, Carries h leakNumber a → Carries h' leakNumber a

theorem KeepsLabels.trans {h h' h'' : CHeap (MemoryNode Obj)} (first : KeepsLabels leakNumber h h')
    (second : KeepsLabels leakNumber h' h'') : KeepsLabels leakNumber h h'' :=
  fun a carries => second a (first a carries)

theorem GraphFrame.carries {h h' : CHeap (MemoryNode Obj)}
    (frame : GraphFrame objectsWithTag leakNumber h h') {a : ℕ}
    (carries : Carries h' leakNumber a) : Carries h leakNumber a := by
  obtain ⟨nd', hnd', hcontains⟩ := carries
  obtain ⟨nd, hnd, hframe⟩ := frame.node_back hnd'
  exact ⟨nd, hnd, hframe.contains hcontains⟩

theorem keepsLabels_mark (visited : Bool) (h : CHeap (MemoryNode Obj)) (a : ℕ) :
    KeepsLabels leakNumber h (mark visited h a) := by
  rintro b ⟨nd, hnd, hcontains⟩
  by_cases hb : b = a
  · subst hb
    exact ⟨{ nd with visited := visited }, by simp [mark, hnd], hcontains⟩
  · exact ⟨nd, by rw [mark, h.get?_modify_of_ne hb, hnd], hcontains⟩

theorem carries_mark {visited : Bool} {h : CHeap (MemoryNode Obj)} {a b : ℕ}
    (carries : Carries (mark visited h a) leakNumber b) : Carries h leakNumber b := by
  obtain ⟨nd', hnd', hcontains⟩ := carries
  by_cases hb : b = a
  · subst hb
    rw [mark, h.get?_modify_self] at hnd'
    obtain ⟨nd, hnd, rfl⟩ := Option.map_eq_some_iff.1 hnd'
    exact ⟨nd, hnd, hcontains⟩
  · rw [mark, h.get?_modify_of_ne hb] at hnd'
    exact ⟨nd', hnd', hcontains⟩

theorem Filled.keepsLabels {h h' : CHeap (MemoryNode Obj)} {nd : MemoryNode Obj}
    (hnd : h.get? a = some nd) (filled : Filled objectsWithTag leakNumber h h' a nd) :
    KeepsLabels leakNumber h h' := by
  rintro b ⟨nb, hnb, hcontains⟩
  by_cases hb : b = a
  · subst hb
    obtain rfl : nd = nb := Option.some.inj (hnd.symm.trans hnb)
    obtain ⟨nd', hnd', hleaks, -⟩ := filled.node
    exact ⟨nd', hnd', hleaks ▸ hcontains⟩
  · exact ⟨nb, (filled.others b hb).trans hnb, hcontains⟩

theorem not_carries_remove (h : CHeap (MemoryNode Obj)) (a : ℕ) :
    ¬ Carries (h.modify a fun nd =>
      { nd with leaksRelated := nd.leaksRelated.remove leakNumber }) leakNumber a := by
  rintro ⟨nd', hnd', hcontains⟩
  rw [h.get?_modify_self] at hnd'
  obtain ⟨nd, hnd, rfl⟩ := Option.map_eq_some_iff.1 hnd'
  obtain ⟨hsize, hbit⟩ := (BitmaskSet.contains_iff _ _).1 hcontains
  rw [BitmaskSet.size_remove] at hsize
  simp [BitmaskSet.bit_remove, hsize] at hbit

/-! ## The search -/

/-- What a call for node `a` has done that returns the list `last`. -/
structure FindsFirst (g : GlobalData) (objectsWithTag : ℕ → List Obj) (leakNumber a : ℕ)
    (st st' : ChainState Obj) (last : ℕ) : Prop where
  chain : ∃ path, FirstChain g (referencesOf st.nodes)
    (avail objectsWithTag leakNumber st.nodes) a path ∧ Ring st'.cells last path
  straight : LeadsStraight g (referencesOf st.nodes) (avail objectsWithTag leakNumber st.nodes) a →
    KeepsLabels leakNumber st.nodes st'.nodes
  unlabelled : ¬ LeadsStraight g (referencesOf st.nodes)
      (avail objectsWithTag leakNumber st.nodes) a →
    ∃ v, Leads (LinkedTo g (referencesOf st.nodes)) (HoldsRoot g (referencesOf st.nodes))
      (avail objectsWithTag leakNumber st.nodes) v ∧ ¬ Carries st'.nodes leakNumber v

/-- What the loop of a call for `node` over the references `l` has done. -/
structure ScansFirst (g : GlobalData) (objectsWithTag : ℕ → List Obj) (leakNumber node : ℕ)
    (l : List MemoryReferer) (st st' : ChainState Obj) (last : ℕ) : Prop where
  chain : ∃ path, FirstAmong g (referencesOf st.nodes)
    (avail objectsWithTag leakNumber st.nodes) l path ∧ Ring st'.cells last path
  straight : StraightAmong g (referencesOf st.nodes) (avail objectsWithTag leakNumber st.nodes) l →
    KeepsLabels leakNumber st.nodes st'.nodes
  unlabelled : ¬ StraightAmong g (referencesOf st.nodes)
      (avail objectsWithTag leakNumber st.nodes) l →
    ∃ v, (v = node ∨ Leads (LinkedTo g (referencesOf st.nodes)) (HoldsRoot g (referencesOf st.nodes))
      (avail objectsWithTag leakNumber st.nodes) v) ∧ ¬ Carries st'.nodes leakNumber v

theorem ScansFirst.skip {node last : ℕ} {st st' : ChainState Obj}
    (ignored : shouldConsiderThisReference g ref.kind = false)
    (scans : ScansFirst g objectsWithTag leakNumber node rest st st' last) :
    ScansFirst g objectsWithTag leakNumber node (ref :: rest) st st' last := by
  refine ⟨?_, ?_, ?_⟩
  · obtain ⟨path, first, ring⟩ := scans.chain
    refine ⟨path, .pass (fun considered => ?_) first, ring⟩
    rw [ignored] at considered
    cases considered
  · rw [straightAmong_skip_iff ignored]
    exact scans.straight
  · rw [straightAmong_skip_iff ignored]
    exact scans.unlabelled

/-- A reference to a node that leads nowhere clears the leak at the node of the loop. -/
theorem ScansFirst.pass {node last : ℕ} {st st₁ st' : ChainState Obj}
    (considered : shouldConsiderThisReference g ref.kind = true)
    (notRoot : isRootReference ref.kind = false) (hnode : ref.node = some b)
    (frame₁ : GraphFrame objectsWithTag leakNumber st.nodes st₁.nodes)
    (hnone : ¬ Leads (LinkedTo g (referencesOf st.nodes)) (HoldsRoot g (referencesOf st.nodes))
      (avail objectsWithTag leakNumber st.nodes) b)
    (hprune : Prunes (LinkedTo g (referencesOf st.nodes)) (HoldsRoot g (referencesOf st.nodes))
      (avail objectsWithTag leakNumber st.nodes) (avail objectsWithTag leakNumber st₁.nodes))
    (cleared : ¬ Carries st'.nodes leakNumber node)
    (scans : ScansFirst g objectsWithTag leakNumber node rest st₁ st' last) :
    ScansFirst g objectsWithTag leakNumber node (ref :: rest) st st' last := by
  refine ⟨?_, fun straight => ?_, fun _ => ⟨node, .inl rfl, cleared⟩⟩
  · obtain ⟨path, first, ring⟩ := scans.chain
    rw [frame₁.referencesOf_eq] at first
    refine ⟨path, .pass (fun _ => ⟨notRoot, fun c hc => ?_⟩) (first.of_prunes hprune), ring⟩
    obtain rfl := Option.some.inj (hnode.symm.trans hc)
    exact hnone
  · exact absurd ((straightAmong_through_iff considered notRoot hnode).1 straight).leads hnone

theorem FindsFirst.scansFirst {node last : ℕ} {st st' : ChainState Obj}
    (considered : shouldConsiderThisReference g ref.kind = true)
    (notRoot : isRootReference ref.kind = false) (hnode : ref.node = some b)
    (finds : FindsFirst g objectsWithTag leakNumber b st st' last) :
    ScansFirst g objectsWithTag leakNumber node (ref :: rest) st (st'.insertAfter last ref) last := by
  have hnodes : (st'.insertAfter last ref).nodes = st'.nodes := by
    unfold ChainState.insertAfter
    split
    · rfl
    · rfl
  refine ⟨?_, ?_, ?_⟩
  · obtain ⟨path, first, ring⟩ := finds.chain
    exact ⟨ref :: path, .through considered notRoot hnode first.1 first.2, ring.insertAfter ref⟩
  · rw [straightAmong_through_iff considered notRoot hnode, hnodes]
    exact finds.straight
  · rw [straightAmong_through_iff considered notRoot hnode, hnodes]
    intro bent
    obtain ⟨v, leads, cleared⟩ := finds.unlabelled bent
    exact ⟨v, .inr leads, cleared⟩

theorem scansFirst_root {node : ℕ} (st : ChainState Obj)
    (considered : shouldConsiderThisReference g ref.kind = true)
    (isRoot : isRootReference ref.kind = true) :
    ScansFirst g objectsWithTag leakNumber node (ref :: rest) st (st.single ref).2
      (st.single ref).1 where
  chain := ⟨[ref], .root considered isRoot, ring_single st ref⟩
  straight _ _ carries := carries
  unlabelled bent := absurd (.root considered isRoot) bent

/-- The loop finds the first chain when the recursive calls do. -/
theorem scanReferences_first (g : GlobalData)
    (visit : ℕ → ChainState Obj → Except Fault (Option ℕ × ChainState Obj)) (node : ℕ) {bound : ℕ}
    (hvisit : ∀ b st, GraphOk objectsWithTag st.nodes → b ∈ st.nodes.dom →
      (unvisited st.nodes).card < bound → Explores g objectsWithTag leakNumber b st (visit b st))
    (hfirst : ∀ b st, GraphOk objectsWithTag st.nodes → b ∈ st.nodes.dom →
      (unvisited st.nodes).card < bound → ∀ last st', visit b st = .ok (some last, st') →
        FindsFirst g objectsWithTag leakNumber b st st' last)
    (l : List MemoryReferer) (st st' : ChainState Obj)
    (looping : Looping objectsWithTag node bound l st.nodes) {last : ℕ}
    (hrun : scanReferences g leakNumber visit node l st = .ok (some last, st')) :
    ScansFirst g objectsWithTag leakNumber node l st st' last := by
  induction l generalizing st with
  | nil => cases hrun
  | cons ref rest ih =>
    rw [scanReferences] at hrun
    by_cases considered : shouldConsiderThisReference g ref.kind = true
    swap
    · have ignored := Bool.of_not_eq_true considered
      simp only [ignored, Bool.not_false, if_true] at hrun
      exact (ih st looping.tail hrun).skip ignored
    simp only [considered, Bool.not_true, Bool.false_eq_true, if_false] at hrun
    by_cases isRoot : isRootReference ref.kind = true
    · simp only [isRoot, Bool.not_true, Bool.false_eq_true, if_false] at hrun
      cases hrun
      exact scansFirst_root st considered isRoot
    have notRoot := Bool.of_not_eq_true isRoot
    obtain ⟨b, hb, hnode⟩ :=
      looping.ok.target node ref (looping.own ref (List.mem_cons_self ..)) notRoot
    simp only [notRoot, Bool.not_false, if_true, hnode] at hrun
    obtain ⟨res, st₁, hcall, frame₁, hres⟩ := hvisit b st looping.ok hb looping.enough
    rw [hcall, Run.ok_bind] at hrun
    cases res with
    | some last₁ =>
      cases hrun
      exact (hfirst b st looping.ok hb looping.enough _ _ hcall).scansFirst considered notRoot hnode
    | none =>
      obtain ⟨hnone, hprune⟩ := hres
      set st₂ : ChainState Obj := { st₁ with nodes := st₁.nodes.modify node fun nd =>
        { nd with leaksRelated := nd.leaksRelated.remove leakNumber } }
      have frame₂ : GraphFrame objectsWithTag leakNumber st.nodes st₂.nodes :=
        frame₁.trans (graphFrame_remove st₁.nodes node)
      have looping₂ := looping.tail.frame frame₂
      -- the leak that is gone at the node does not come back in the rest of the loop
      obtain ⟨res, st₃, hrun₃, frame₃, -⟩ := scanReferences_scans g visit node hvisit rest st₂ looping₂
      obtain ⟨-, rfl⟩ := Prod.mk.inj (Except.ok.inj (hrun₃.symm.trans hrun))
      have cleared : ¬ Carries st₃.nodes leakNumber node := fun carries =>
        not_carries_remove st₁.nodes node (frame₃.carries carries)
      exact (ih st₂ looping₂ hrun).pass considered notRoot hnode frame₂ hnone
        (looping.prunes g frame₁ hprune) cleared

/-- A call that finds a chain has entered the node: what its loop starts from. -/
structure Entered (objectsWithTag : ℕ → List Obj) (leakNumber a : ℕ) (h h' : CHeap (MemoryNode Obj)) :
    Prop where
  ok : GraphOk objectsWithTag h'
  references : referencesOf h' = referencesOf h
  inside : a ∈ avail objectsWithTag leakNumber h
  avail : avail objectsWithTag leakNumber h' = JLeaker.avail objectsWithTag leakNumber h \ {a}
  onStack : ∃ nd, h'.get? a = some nd ∧ nd.visited = true
  fewer : (unvisited h').card < (unvisited h).card
  labels : KeepsLabels leakNumber h h'

theorem entered_of_some (env : Agent Obj) {fuel : ℕ} {st st' : ChainState Obj} {last : ℕ}
    (ok : GraphOk objectsWithTag st.nodes) (ha : a ∈ st.nodes.dom)
    (hrun : generateReferencesChainForNode env objectsWithTag (fuel + 1) a leakNumber st =
      .ok (some last, st')) :
    ∃ nodes₁ st₂, Entered objectsWithTag leakNumber a st.nodes nodes₁ ∧
      scanReferences env.gdata leakNumber
        (fun next st => generateReferencesChainForNode env objectsWithTag fuel next leakNumber st)
        a (referencesOf st.nodes a) { st with nodes := nodes₁ } = .ok (some last, st₂) ∧
      st' = { st₂ with nodes := mark false st₂.nodes a } := by
  obtain ⟨-, run⟩ | ⟨nd, nodes₁, opened, ⟨-, run⟩ | ⟨inside, run⟩⟩ :=
    generateReferencesChainForNode_cases leakNumber env fuel ok ha
  · rw [run] at hrun
    cases hrun
  · rw [run] at hrun
    cases hrun
  rw [run] at hrun
  obtain ⟨⟨res, st₂⟩, hscan, hrest⟩ := Run.bind_eq_ok.1 hrun
  cases hrest
  exact ⟨nodes₁, st₂, ⟨opened.graphOk ok, opened.references, inside, opened.avail, opened.onStack,
    opened.fewer, (keepsLabels_mark true st.nodes a).trans
      (opened.filled.keepsLabels opened.marked)⟩, hscan, rfl⟩

/-- Every call with enough fuel that finds a chain finds the first. -/
theorem generateReferencesChainForNode_findsFirst (leakNumber : ℕ) (env : Agent Obj) (fuel : ℕ) :
    ∀ a st, GraphOk objectsWithTag st.nodes → a ∈ st.nodes.dom →
      (unvisited st.nodes).card < fuel → ∀ last st',
        generateReferencesChainForNode env objectsWithTag fuel a leakNumber st =
          .ok (some last, st') →
        FindsFirst env.gdata objectsWithTag leakNumber a st st' last := by
  induction fuel with
  | zero => intro a st _ _ h; omega
  | succ fuel ih =>
    intro a st ok ha enough last st' hrun
    obtain ⟨nodes₁, st₂, entered, hscan, rfl⟩ := entered_of_some env ok ha hrun
    have hfewer := entered.fewer
    have looping : Looping objectsWithTag a fuel (referencesOf st.nodes a) nodes₁ :=
      ⟨entered.ok, fun r hr => entered.references ▸ hr, entered.onStack, by omega⟩
    have scans := scanReferences_first env.gdata _ a
      (generateReferencesChainForNode_explores leakNumber env fuel) ih (referencesOf st.nodes a)
      { st with nodes := nodes₁ } st₂ looping hscan
    obtain ⟨⟨path, first, ring⟩, straight, unlabelled⟩ := scans
    simp only [entered.references, entered.avail] at first straight unlabelled
    have chain : FirstChain env.gdata (referencesOf st.nodes)
        (avail objectsWithTag leakNumber st.nodes) a path := ⟨entered.inside, first⟩
    refine ⟨⟨path, chain, ring⟩, fun h => ?_, fun bent => ?_⟩
    · exact (entered.labels.trans (straight h.2)).trans (keepsLabels_mark false _ a)
    · obtain ⟨v, rfl | leads, cleared⟩ := unlabelled fun h => bent ⟨entered.inside, h⟩
      · exact ⟨v, chain.leads, fun h => cleared (carries_mark h)⟩
      · exact ⟨v, leads.mono fun _ h => h.1, fun h => cleared (carries_mark h)⟩

end JLeaker
