import JLeaker.Proof.ChainCorrect
import JLeaker.Proof.Setup

/-!
# Printing the chains

`printReferencesChainForLeakingNodes` searches for the chains of the leaks one after another in the
same graph.  The search for one leak clears only bits of that leak, and looking up classes changes
no answer, so every leak gets the answer it would get in the graph the passes left.
-/

namespace JLeaker

open DeadEnds

variable {Obj : Type} {objectsWithTag : ℕ → List Obj} {leakNumber : ℕ}
  {h h' : CHeap (MemoryNode Obj)}

theorem GraphFrame.allClear (frame : GraphFrame objectsWithTag leakNumber h h')
    (clear : AllClear h) : AllClear h' := by
  intro a nd' hnd'
  obtain ⟨nd, hnd, hframe⟩ := frame.node_back hnd'
  rw [hframe.visited]
  exact clear a nd hnd

/-- The search for one leak does not change which nodes carry another. -/
theorem GraphFrame.carriers_eq (frame : GraphFrame objectsWithTag leakNumber h h') {other : ℕ}
    (hne : other ≠ leakNumber) :
    carriers objectsWithTag other h' = carriers objectsWithTag other h := by
  have hcontains : ∀ a nd nd', NodeFrame objectsWithTag leakNumber a nd nd' →
      nd'.leaksRelated.contains other = nd.leaksRelated.contains other := by
    intro a nd nd' hframe
    rw [Bool.eq_iff_iff, BitmaskSet.contains_iff, BitmaskSet.contains_iff, hframe.size,
      hframe.bit other hne]
  ext a
  constructor
  · rintro ⟨⟨nd', hnd', hc⟩, nd'', hnd'', hl⟩
    obtain rfl : nd' = nd'' := Option.some.inj (hnd'.symm.trans hnd'')
    obtain ⟨nd, hnd, hframe⟩ := frame.node_back hnd'
    exact ⟨⟨nd, hnd, hcontains a nd nd' hframe ▸ hc⟩, nd, hnd, hframe.live ▸ hl⟩
  · rintro ⟨⟨nd, hnd, hc⟩, nd₂, hnd₂, hl⟩
    obtain rfl : nd = nd₂ := Option.some.inj (hnd.symm.trans hnd₂)
    obtain ⟨nd', hnd', hframe⟩ := frame.node a nd hnd
    exact ⟨⟨nd', hnd', (hcontains a nd nd' hframe).trans hc⟩, nd', hnd', hframe.live.trans hl⟩

/-- Looking up the class of a node keeps the graph. -/
theorem fillClassInMemoryNode_frame (leakNumber : ℕ) (jvm : Jvm Obj)
    (ok : GraphOk objectsWithTag h) {a : ℕ} (ha : a ∈ h.dom) :
    ∃ h', fillClassInMemoryNode jvm objectsWithTag a h = .ok h' ∧
      GraphFrame objectsWithTag leakNumber h h' := by
  obtain ⟨nd, hnd⟩ := h.exists_get?_of_mem ha
  obtain ⟨h', hrun, filled⟩ := fillClassInMemoryNode_spec leakNumber jvm hnd (ok.unique a nd hnd)
  exact ⟨h', hrun, filled.graphFrame hnd⟩

/-- Printing references to nodes keeps the graph. -/
theorem printReferences_frame (leakNumber : ℕ) (jvm : Jvm Obj) (refs : List MemoryReferer)
    (ok : GraphOk objectsWithTag h)
    (targets : ∀ ref ∈ refs, ∀ b, ref.node = some b → b ∈ h.dom) :
    ∃ h', printReferences jvm objectsWithTag refs h = .ok h' ∧
      GraphFrame objectsWithTag leakNumber h h' := by
  induction refs generalizing h with
  | nil => exact ⟨h, rfl, .refl h⟩
  | cons ref rest ih =>
    unfold printReferences at ih ⊢
    have htail : ∀ r ∈ rest, ∀ b, r.node = some b → b ∈ h.dom := fun r hr =>
      targets r (List.mem_cons_of_mem _ hr)
    rcases hnode : ref.node with _ | b
    · obtain ⟨h', hrun, frame⟩ := ih ok htail
      refine ⟨h', Run.foldlM_cons_eq_ok.2 ⟨h, ?_, hrun⟩, frame⟩
      simp [hnode]
    · obtain ⟨h₁, hfill, frame₁⟩ := fillClassInMemoryNode_frame leakNumber jvm ok
        (targets ref (by simp) b hnode)
      obtain ⟨h', hrun, frame⟩ := ih (frame₁.graphOk ok) (by rw [frame₁.dom]; exact htail)
      refine ⟨h', Run.foldlM_cons_eq_ok.2 ⟨h₁, ?_, hrun⟩, frame₁.trans frame⟩
      simpa [hnode] using hfill

/-- Printing has changed the nodes of `h` into those of `h'`: it fills in what it learns of their
objects and clears labels. -/
structure Printed (h h' : CHeap (MemoryNode Obj)) : Prop where
  dom : h'.dom = h.dom
  node : ∀ a nd, h.get? a = some nd → ∃ nd', h'.get? a = some nd' ∧ nd' = { nd with
    dead := nd'.dead, klass := nd'.klass, obj := nd'.obj, classname := nd'.classname,
    leaksRelated := nd'.leaksRelated }

namespace Printed

theorem refl (h : CHeap (MemoryNode Obj)) : Printed h h := ⟨rfl, fun _ nd hnd => ⟨nd, hnd, rfl⟩⟩

theorem trans {h'' : CHeap (MemoryNode Obj)} (first : Printed h h') (second : Printed h' h'') :
    Printed h h'' where
  dom := second.dom.trans first.dom
  node a nd hnd := by
    obtain ⟨nd', hnd', heq'⟩ := first.node a nd hnd
    obtain ⟨nd'', hnd'', heq''⟩ := second.node a nd' hnd'
    exact ⟨nd'', hnd'', by rw [heq'', heq']⟩

/-- Every node after printing comes from one before. -/
theorem node_back (printed : Printed h h') {a : ℕ} {nd' : MemoryNode Obj}
    (hnd' : h'.get? a = some nd') : ∃ nd, h.get? a = some nd ∧ nd'.visited = nd.visited ∧
      nd'.start = nd.start ∧ nd'.referencePointingToMe = nd.referencePointingToMe := by
  obtain ⟨nd, hnd⟩ := h.exists_get?_of_mem (printed.dom ▸ h'.mem_dom_of_get? hnd')
  obtain ⟨x, hx, heq⟩ := printed.node a nd hnd
  obtain rfl := Option.some.inj (hx.symm.trans hnd')
  exact ⟨nd, hnd, by rw [heq], by rw [heq], by rw [heq]⟩

theorem referencesOf_eq (printed : Printed h h') : referencesOf h' = referencesOf h := by
  funext a
  unfold referencesOf
  rcases hnd' : h'.get? a with _ | nd'
  · have ha : a ∉ h.dom := by
      rw [← printed.dom, h'.mem_dom, hnd']
      simp
    rw [h.get?_of_notMem ha]
  · obtain ⟨nd, hnd, _, hstart, _⟩ := printed.node_back hnd'
    rw [hnd]
    exact hstart

end Printed

theorem GraphFrame.printed (frame : GraphFrame objectsWithTag leakNumber h h') : Printed h h' where
  dom := frame.dom
  node a nd hnd := by
    obtain ⟨nd', hnd', hframe⟩ := frame.node a nd hnd
    exact ⟨nd', hnd', hframe.eq⟩

/-- Every record points to a node. -/
def TargetsIn (h : CHeap (MemoryNode Obj)) : Prop :=
  ∀ a, ∀ ref ∈ referencesOf h a, ∀ b, ref.node = some b → b ∈ h.dom

/-- The references of a chain are recorded ones. -/
theorem IsChain.recorded {g : GlobalData} {refs : ℕ → List MemoryReferer} {A : Set ℕ}
    {path : List MemoryReferer} {a : ℕ} (chain : IsChain g refs A a path) :
    ∀ ref ∈ path, ∃ b ∈ A, ref ∈ refs b := by
  induction path generalizing a with
  | nil => exact chain.elim
  | cons ref rest ih =>
    obtain ⟨ha, hr, _, hrest⟩ := chain
    intro r hmem
    rcases List.mem_cons.1 hmem with rfl | hmem
    · exact ⟨a, ha, hr⟩
    · split_ifs at hrest
      · subst hrest
        cases hmem
      · obtain ⟨b, _, hchain⟩ := hrest
        exact ih hchain r hmem

/-- What the search for a leak answers: a chain when there is one. -/
def Answers (g : GlobalData) (objectsWithTag : ℕ → List Obj) (h : CHeap (MemoryNode Obj))
    (leak : LeakingNode) : Option (List MemoryReferer) → Prop
  | none => ¬ Leads (LinkedTo g (referencesOf h)) (HoldsRoot g (referencesOf h))
      (carriers objectsWithTag leak.leakNumber h) leak.node
  | some path => IsChain g (referencesOf h) (carriers objectsWithTag leak.leakNumber h) leak.node
      path

theorem Answers.isSome_iff {g : GlobalData} {leak : LeakingNode}
    {chain : Option (List MemoryReferer)} (answers : Answers g objectsWithTag h leak chain) :
    chain.isSome ↔ Leads (LinkedTo g (referencesOf h)) (HoldsRoot g (referencesOf h))
      (carriers objectsWithTag leak.leakNumber h) leak.node := by
  cases chain with
  | none => exact iff_of_false (by simp) answers
  | some path => exact iff_of_true rfl (leads_iff_exists_isChain.2 ⟨path, answers⟩)

/-- One turn of the loop. -/
theorem printLeak_answers (env : Agent Obj) (leak : LeakingNode) (st : ChainState Obj)
    (clear : AllClear st.nodes) (ok : GraphOk objectsWithTag st.nodes)
    (targets : TargetsIn st.nodes) (hleak : leak.node ∈ st.nodes.dom) (fuel : ℕ)
    (enough : st.nodes.dom.card < fuel) :
    ∃ chain st', printLeak env objectsWithTag fuel true leak st = .ok (chain, st') ∧
      GraphFrame objectsWithTag leak.leakNumber st.nodes st'.nodes ∧
      Answers env.gdata objectsWithTag st.nodes leak chain := by
  obtain ⟨res, st₁, hrun, frame₁, hres⟩ := generateReferencesChainForNode_search env objectsWithTag
    leak.leakNumber leak.node st clear ok hleak fuel enough
  have hanswers : Answers env.gdata objectsWithTag st.nodes leak (res.bind (printedChain st₁)) := by
    cases res with
    | none => exact hres
    | some last =>
      obtain ⟨path, hprinted, hchain, _⟩ := hres
      rw [Option.bind_some, hprinted]
      exact hchain
  have hsome : ∀ last, res = some last → (res.bind (printedChain st₁)).isSome := by
    rintro last rfl
    obtain ⟨path, hprinted, _⟩ := hres
    rw [Option.bind_some, hprinted]
    rfl
  simp only [printLeak, if_true, hrun, Run.ok_bind]
  split_ifs with hprint
  · obtain ⟨h₂, hfill, frame₂⟩ := fillClassInMemoryNode_frame leak.leakNumber env.jvm
      (frame₁.graphOk ok) (frame₁.dom ▸ hleak)
    have frame₁₂ := frame₁.trans frame₂
    obtain ⟨n, hn⟩ := h₂.exists_get?_of_mem (frame₁₂.dom ▸ hleak)
    have hprinted : ∀ ref ∈ (res.bind (printedChain st₁)).getD n.start, ∀ b,
        ref.node = some b → b ∈ h₂.dom := by
      rw [frame₁₂.dom]
      intro ref href b hb
      rcases hchain : res.bind (printedChain st₁) with _ | path
      · rw [hchain] at href
        refine targets leak.node ref ?_ b hb
        rw [← frame₁₂.referencesOf_eq]
        simpa [referencesOf, hn] using href
      · rw [hchain] at href hanswers
        obtain ⟨c, _, hc⟩ := hanswers.recorded ref href
        exact targets c ref hc b hb
    obtain ⟨h₃, hrefs, frame₃⟩ := printReferences_frame leak.leakNumber env.jvm _
      (frame₁₂.graphOk ok) hprinted
    refine ⟨_, { st₁ with nodes := h₃ }, ?_, frame₁₂.trans frame₃, hanswers⟩
    rw [hfill, Run.ok_bind, deref_eq_ok.2 hn, Run.ok_bind, hrefs]
    rfl
  · exact ⟨_, st₁, rfl, frame₁, hanswers⟩

/-- Every leak gets the answer it would get alone in the graph before printing. -/
theorem printReferencesChainForLeakingNodes_answers (env : Agent Obj) (leaks : List LeakingNode)
    (st : ChainState Obj) (clear : AllClear st.nodes) (ok : GraphOk objectsWithTag st.nodes)
    (targets : TargetsIn st.nodes) (hleaks : ∀ leak ∈ leaks, leak.node ∈ st.nodes.dom)
    (hnodup : (leaks.map (·.leakNumber)).Nodup) (fuel : ℕ) (enough : st.nodes.dom.card < fuel) :
    ∃ chains st',
      printReferencesChainForLeakingNodes env objectsWithTag fuel true leaks st =
        .ok (chains, st') ∧
      Printed st.nodes st'.nodes ∧
      List.Forall₂ (Answers env.gdata objectsWithTag st.nodes) leaks chains := by
  induction leaks generalizing st with
  | nil => exact ⟨[], st, rfl, .refl _, .nil⟩
  | cons leak rest ih =>
    obtain ⟨chain, st₁, hrun, frame, hanswers⟩ := printLeak_answers env leak st clear ok targets
      (hleaks leak (by simp)) fuel enough
    rw [List.map_cons, List.nodup_cons] at hnodup
    have targets₁ : TargetsIn st₁.nodes := by
      unfold TargetsIn
      rw [frame.referencesOf_eq, frame.dom]
      exact targets
    obtain ⟨chains, st', hrest, printed, hall⟩ := ih st₁ (frame.allClear clear) (frame.graphOk ok)
      targets₁ (fun l hl => frame.dom ▸ hleaks l (List.mem_cons_of_mem _ hl)) hnodup.2
      (frame.dom ▸ enough)
    refine ⟨chain :: chains, st', ?_, frame.printed.trans printed, .cons hanswers ?_⟩
    · simp only [printReferencesChainForLeakingNodes, hrun, Run.ok_bind, hrest]
      rfl
    · have hsame : ∀ l ∈ rest, ∀ c, Answers env.gdata objectsWithTag st₁.nodes l c →
          Answers env.gdata objectsWithTag st.nodes l c := by
        intro l hl c hc
        have hne : l.leakNumber ≠ leak.leakNumber := fun heq =>
          hnodup.1 (heq ▸ List.mem_map_of_mem hl)
        cases c with
        | none => simpa only [Answers, frame.referencesOf_eq, frame.carriers_eq hne] using hc
        | some path => simpa only [Answers, frame.referencesOf_eq, frame.carriers_eq hne] using hc
      exact forall₂_imp_of_mem hall fun l hl c _ => hsame l hl c

/-- Without `isNeedReferences` no chain is searched for. -/
theorem printReferencesChainForLeakingNodes_none (env : Agent Obj) (leaks : List LeakingNode)
    (st : ChainState Obj) (ok : GraphOk objectsWithTag st.nodes)
    (hleaks : ∀ leak ∈ leaks, leak.node ∈ st.nodes.dom) (fuel : ℕ) :
    ∃ chains st', printReferencesChainForLeakingNodes env objectsWithTag fuel false leaks st =
      .ok (chains, st') ∧ Printed st.nodes st'.nodes ∧ ∀ chain ∈ chains, chain = none := by
  induction leaks generalizing st with
  | nil => exact ⟨[], st, rfl, .refl _, by simp⟩
  | cons leak rest ih =>
    have first : ∃ st₁, printLeak env objectsWithTag fuel false leak st = .ok (none, st₁) ∧
        GraphFrame objectsWithTag leak.leakNumber st.nodes st₁.nodes := by
      simp only [printLeak, Bool.false_eq_true, if_false, Run.ok_bind]
      split_ifs
      · obtain ⟨h₁, hfill, frame⟩ := fillClassInMemoryNode_frame leak.leakNumber env.jvm ok
          (hleaks leak (by simp))
        obtain ⟨n, hn⟩ := h₁.exists_get?_of_mem (frame.dom ▸ hleaks leak (by simp))
        rw [hfill, Run.ok_bind, deref_eq_ok.2 hn]
        exact ⟨_, rfl, frame⟩
      · exact ⟨st, rfl, .refl _⟩
    obtain ⟨st₁, hrun, frame⟩ := first
    obtain ⟨chains, st', hrest, printed, hall⟩ := ih st₁ (frame.graphOk ok)
      fun l hl => frame.dom ▸ hleaks l (List.mem_cons_of_mem _ hl)
    refine ⟨none :: chains, st', ?_, frame.printed.trans printed, by simpa using hall⟩
    rw [printReferencesChainForLeakingNodes, hrun, Run.ok_bind]
    simp only [hrest, Run.ok_bind]
    rfl

end JLeaker
