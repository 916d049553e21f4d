import JLeaker.Proof.FirstChain
import JLeaker.Proof.PrintLeaks

/-!
# One search after another

A search for one leak leaves the labels of the others and the visited flags as they are, and finds the
first chain of a graph that the other searches do not change.  For the same leak it is different:
`generateReferencesChainForNode` clears the leak at the node whose references it goes through as soon
as one of them fails, although the node may lead to a root by the next.
-/

namespace JLeaker

open DeadEnds

variable {Obj : Type} {objectsWithTag : ℕ → List Obj} {leakNumber : ℕ}

/-! ## The cells of earlier lists -/

/-- A call adds cells after those that are there, and its list consists of new ones. -/
structure AddsCells (old new : List OrderedReferences) (orderedRefs : Option ℕ) : Prop where
  length_le : old.length ≤ new.length
  kept : ∀ i < old.length, new[i]? = old[i]?
  fresh : ∀ last, orderedRefs = some last → old.length ≤ last

theorem AddsCells.refl (cells : List OrderedReferences) : AddsCells cells cells none :=
  ⟨le_rfl, fun _ _ => rfl, fun _ h => by cases h⟩

theorem AddsCells.trans {old mid new : List OrderedReferences} {r r' : Option ℕ}
    (first : AddsCells old mid r) (second : AddsCells mid new r') : AddsCells old new r' where
  length_le := first.length_le.trans second.length_le
  kept i hi := (second.kept i (hi.trans_le first.length_le)).trans (first.kept i hi)
  fresh last h := first.length_le.trans (second.fresh last h)

theorem addsCells_single (st : ChainState Obj) (ref : MemoryReferer) :
    AddsCells st.cells (st.single ref).2.cells (some (st.single ref).1) where
  length_le := by simp [ChainState.single]
  kept i hi := List.getElem?_append_left hi
  fresh last h := (Option.some.inj h).le

theorem AddsCells.insertAfter {old : List OrderedReferences} {st : ChainState Obj} {last : ℕ}
    (adds : AddsCells old st.cells (some last)) (ref : MemoryReferer) :
    AddsCells old (st.insertAfter last ref).cells (some last) := by
  unfold ChainState.insertAfter
  split
  · exact adds
  · refine ⟨?_, fun i hi => ?_, adds.fresh⟩
    · have := adds.length_le
      simp only [List.length_append, List.length_set]
      omega
    · have hlast := adds.fresh last rfl
      have hlen := adds.length_le
      rw [List.getElem?_append_left (by rw [List.length_set]; omega),
        List.getElem?_set_ne (by omega)]
      exact adds.kept i hi

theorem scanReferences_addsCells (g : GlobalData)
    {visit : ℕ → ChainState Obj → Except Fault (Option ℕ × ChainState Obj)}
    (hvisit : ∀ b st r st', visit b st = .ok (r, st') → AddsCells st.cells st'.cells r) (node : ℕ)
    (l : List MemoryReferer) (st : ChainState Obj) {r : Option ℕ} {st' : ChainState Obj}
    (hrun : scanReferences g leakNumber visit node l st = .ok (r, st')) :
    AddsCells st.cells st'.cells r := by
  induction l generalizing st with
  | nil =>
    cases hrun
    exact .refl _
  | cons ref rest ih =>
    rw [scanReferences] at hrun
    split_ifs at hrun with hignored hnode
    · exact ih st hrun
    · split at hrun
      · cases hrun
      · rename_i next _
        obtain ⟨⟨res, st₁⟩, hcall, hrest⟩ := Run.bind_eq_ok.1 hrun
        have adds := hvisit next st res st₁ hcall
        cases res with
        | none =>
          exact adds.trans (ih { st₁ with nodes := st₁.nodes.modify node fun nd =>
            { nd with leaksRelated := nd.leaksRelated.remove leakNumber } } hrest)
        | some last =>
          cases hrest
          exact adds.insertAfter ref
    · cases hrun
      exact addsCells_single st ref

theorem generateReferencesChainForNode_addsCells (env : Agent Obj) (fuel : ℕ) :
    ∀ a st r st', generateReferencesChainForNode env objectsWithTag fuel a leakNumber st =
      .ok (r, st') → AddsCells st.cells st'.cells r := by
  induction fuel with
  | zero =>
    intro a st r st' hrun
    cases hrun
  | succ fuel ih =>
    intro a st r st' hrun
    rw [generateReferencesChainForNode] at hrun
    obtain ⟨nd, -, hrun⟩ := Run.bind_eq_ok.1 hrun
    split_ifs at hrun with hvis hcarry
    · cases hrun
      exact .refl _
    · cases hrun
      exact .refl _
    obtain ⟨nodes₁, -, hrun⟩ := Run.bind_eq_ok.1 hrun
    obtain ⟨nd₁, -, hrun⟩ := Run.bind_eq_ok.1 hrun
    dsimp only at hrun
    split_ifs at hrun with hdead
    · obtain ⟨⟨res, st₂⟩, hscan, hrest⟩ := Run.bind_eq_ok.1 hrun
      have adds := scanReferences_addsCells env.gdata ih a nd₁.start { st with nodes := nodes₁ } hscan
      cases hrest
      exact adds
    · cases hrun
      exact .refl _

theorem Ring.addsCells {old new : List OrderedReferences} {r : Option ℕ} {last : ℕ}
    {path : List MemoryReferer} (ring : Ring old last path) (adds : AddsCells old new r) :
    Ring new last path := by
  have same : ∀ (i : ℕ) (c : OrderedReferences), old[i]? = some c → new[i]? = some c := by
    intro i c hc
    have hi : i < old.length := by
      by_contra h
      rw [List.getElem?_eq_none (by omega)] at hc
      cases hc
    rw [adds.kept i hi, hc]
  obtain ⟨⟨c, hc, segment⟩, hlen⟩ := ring
  refine ⟨⟨c, same last c hc, segment.congr fun i c hc => ⟨c, same i c hc, rfl, fun _ => rfl⟩⟩, ?_⟩
  exact hlen.trans adds.length_le

/-! ## Two nodes -/

/-- A graph of two nodes that carry the leak `0`. -/
def Sample.twoNodes (first second : List MemoryReferer) : ChainState ℕ :=
  ⟨(CHeap.empty.alloc .above (carrier first)).alloc .above (carrier second), []⟩

theorem Sample.get?_twoNodes (first second : List MemoryReferer) (a : ℕ) :
    (twoNodes first second).nodes.get? a =
      if a = 2 then some (carrier second) else if a = 1 then some (carrier first) else none := by
  rw [twoNodes, CHeap.get?_alloc, CHeap.get?_alloc, CHeap.get?_empty]
  rfl

theorem Sample.allClear_twoNodes (first second : List MemoryReferer) :
    AllClear (twoNodes first second).nodes := by
  intro a nd hnd
  rw [get?_twoNodes] at hnd
  split_ifs at hnd
  · cases hnd
    rfl
  · cases hnd
    rfl

theorem Sample.referencesOf_twoNodes (first second : List MemoryReferer) (a : ℕ) :
    referencesOf (twoNodes first second).nodes a =
      if a = 2 then second else if a = 1 then first else [] := by
  unfold referencesOf
  rw [get?_twoNodes]
  split_ifs
  · rfl
  · rfl
  · rfl

theorem Sample.graphOk_twoNodes {first second : List MemoryReferer}
    (targets : (first ++ second).all fun ref => isRootReference ref.kind ||
      ref.node == some 1 || ref.node == some 2) :
    GraphOk (fun a => [a]) (twoNodes first second).nodes := by
  refine ⟨fun a ref href notRoot => ?_, fun _ _ _ _ => le_rfl⟩
  have hmem : ref ∈ first ++ second := by
    rw [referencesOf_twoNodes] at href
    split_ifs at href
    · exact List.mem_append_right _ href
    · exact List.mem_append_left _ href
    · cases href
  have htarget := List.all_eq_true.1 targets ref hmem
  rw [notRoot, Bool.false_or, Bool.or_eq_true, beq_iff_eq, beq_iff_eq] at htarget
  rcases htarget with h | h
  · exact ⟨1, CHeap.mem_dom_of_get? _ (get?_twoNodes first second 1), h⟩
  · exact ⟨2, CHeap.mem_dom_of_get? _ (get?_twoNodes first second 2), h⟩

theorem Sample.mem_carriers_twoNodes (first second : List MemoryReferer) {a : ℕ}
    (ha : a = 1 ∨ a = 2) :
    a ∈ carriers (fun a => [a]) 0 (twoNodes first second).nodes := by
  have labels : ((BitmaskSet.new 1).add 0).contains 0 = true := by decide
  rcases ha with rfl | rfl
  · exact ⟨⟨carrier first, get?_twoNodes first second 1, labels⟩, carrier first,
      get?_twoNodes first second 1, rfl⟩
  · exact ⟨⟨carrier second, get?_twoNodes first second 2, labels⟩, carrier second,
      get?_twoNodes first second 2, rfl⟩

/-! ## Searches for two leaks -/

/-- The graph after a search: no node is on the stack, and only labels of this leak have changed. -/
structure KeepsOthers (leakNumber : ℕ) (h h' : CHeap (MemoryNode Obj)) : Prop where
  clear : AllClear h'
  dom : h'.dom = h.dom
  bit : ∀ a nd nd', h.get? a = some nd → h'.get? a = some nd' →
    ∀ n, n ≠ leakNumber → nd'.leaksRelated.bit n = nd.leaksRelated.bit n

theorem GraphFrame.keepsOthers {h h' : CHeap (MemoryNode Obj)}
    (frame : GraphFrame objectsWithTag leakNumber h h') (clear : AllClear h) :
    KeepsOthers leakNumber h h' where
  clear := frame.allClear clear
  dom := frame.dom
  bit a nd nd' hnd hnd' n hn := by
    obtain ⟨nd₁, hnd₁, hframe⟩ := frame.node a nd hnd
    obtain rfl := Option.some.inj (hnd₁.symm.trans hnd')
    exact hframe.bit n hn

/-- Two searches one after the other return these chains, which can still be read after both. -/
def SearchedInOrder (env : Agent Obj) (objectsWithTag : ℕ → List Obj) (fuel n₁ l₁ n₂ l₂ : ℕ)
    (st : ChainState Obj) (chain₁ chain₂ : Option (List MemoryReferer)) : Prop :=
  ∃ r₁ st₁ r₂ st₂,
    generateReferencesChainForNode env objectsWithTag fuel n₁ l₁ st = .ok (r₁, st₁) ∧
    KeepsOthers l₁ st.nodes st₁.nodes ∧
    generateReferencesChainForNode env objectsWithTag fuel n₂ l₂ st₁ = .ok (r₂, st₂) ∧
    KeepsOthers l₂ st₁.nodes st₂.nodes ∧
    r₁.map (printedChain st₂) = chain₁.map some ∧ r₂.map (printedChain st₂) = chain₂.map some

/-- The list a call returned holds the references of a chain. -/
def HoldsChain (cells : List OrderedReferences) : Option ℕ → Option (List MemoryReferer) → Prop
  | none, none => True
  | some last, some path => Ring cells last path
  | _, _ => False

theorem HoldsChain.printed {st : ChainState Obj} {r : Option ℕ}
    {chain : Option (List MemoryReferer)} (holds : HoldsChain st.cells r chain) :
    r.map (printedChain st) = chain.map some := by
  cases r with
  | none =>
    cases chain with
    | none => rfl
    | some path => exact holds.elim
  | some last =>
    cases chain with
    | none => exact holds.elim
    | some path => exact congrArg some (Ring.printedChain holds)

theorem HoldsChain.addsCells {old new : List OrderedReferences} {r r' : Option ℕ}
    {chain : Option (List MemoryReferer)} (holds : HoldsChain old r chain)
    (adds : AddsCells old new r') : HoldsChain new r chain := by
  cases r with
  | none =>
    cases chain with
    | none => trivial
    | some path => exact holds.elim
  | some last =>
    cases chain with
    | none => exact holds.elim
    | some path => exact Ring.addsCells holds adds

/-- The answer of a search: the first chain, if there is one. -/
def AnswersFirst (env : Agent Obj) (objectsWithTag : ℕ → List Obj) (leakNumber node : ℕ)
    (h : CHeap (MemoryNode Obj)) : Option (List MemoryReferer) → Prop
  | none => ¬ Leads (LinkedTo env.gdata (referencesOf h)) (HoldsRoot env.gdata (referencesOf h))
      (carriers objectsWithTag leakNumber h) node
  | some path => FirstChain env.gdata (referencesOf h) (carriers objectsWithTag leakNumber h) node path

variable {env : Agent Obj} {node : ℕ} {h h' : CHeap (MemoryNode Obj)}
  {chain chain' : Option (List MemoryReferer)}

theorem AnswersFirst.unique (first : AnswersFirst env objectsWithTag leakNumber node h chain)
    (second : AnswersFirst env objectsWithTag leakNumber node h chain') : chain = chain' := by
  cases chain with
  | none =>
    cases chain' with
    | none => rfl
    | some path => exact absurd (FirstChain.leads second) first
  | some path =>
    cases chain' with
    | none => exact absurd (FirstChain.leads first) second
    | some path' => rw [FirstChain.unique first second]

/-- The search for one leak does not change the answer for another. -/
theorem GraphFrame.answersFirst {other : ℕ} (frame : GraphFrame objectsWithTag leakNumber h h')
    (hne : other ≠ leakNumber) (answers : AnswersFirst env objectsWithTag other node h' chain) :
    AnswersFirst env objectsWithTag other node h chain := by
  cases chain with
  | none =>
    unfold AnswersFirst at answers ⊢
    rwa [frame.referencesOf_eq, frame.carriers_eq hne] at answers
  | some path =>
    unfold AnswersFirst at answers ⊢
    rwa [frame.referencesOf_eq, frame.carriers_eq hne] at answers

/-- What a top-level call returns. -/
theorem generateReferencesChainForNode_answersFirst (env : Agent Obj) (leakNumber node : ℕ)
    (st : ChainState Obj) (clear : AllClear st.nodes) (ok : GraphOk objectsWithTag st.nodes)
    (hnode : node ∈ st.nodes.dom) {fuel : ℕ} (enough : st.nodes.dom.card < fuel) :
    ∃ r st' chain, generateReferencesChainForNode env objectsWithTag fuel node leakNumber st =
        .ok (r, st') ∧
      GraphFrame objectsWithTag leakNumber st.nodes st'.nodes ∧
      AnswersFirst env objectsWithTag leakNumber node st.nodes chain ∧
      HoldsChain st'.cells r chain := by
  have few := (card_unvisited_le st.nodes).trans_lt enough
  obtain ⟨r, st', hrun, frame, hres⟩ := generateReferencesChainForNode_explores leakNumber env fuel
    node st ok hnode few
  cases r with
  | none =>
    refine ⟨none, st', none, hrun, frame, ?_, trivial⟩
    rw [avail_eq_carriers clear] at hres
    exact hres.1
  | some last =>
    obtain ⟨⟨path, first, ring⟩, -, -⟩ := generateReferencesChainForNode_findsFirst leakNumber env
      fuel node st ok hnode few last st' hrun
    rw [avail_eq_carriers clear] at first
    exact ⟨some last, st', some path, hrun, frame, first, ring⟩

/-- Two searches for different leaks, one after the other, answer as they would alone. -/
theorem searchedInOrder {n₁ l₁ n₂ l₂ : ℕ} (hne : l₁ ≠ l₂) (st : ChainState Obj)
    (clear : AllClear st.nodes) (ok : GraphOk objectsWithTag st.nodes) (h₁ : n₁ ∈ st.nodes.dom)
    (h₂ : n₂ ∈ st.nodes.dom) {fuel : ℕ} (enough : st.nodes.dom.card < fuel) :
    ∃ chain₁ chain₂, SearchedInOrder env objectsWithTag fuel n₁ l₁ n₂ l₂ st chain₁ chain₂ ∧
      AnswersFirst env objectsWithTag l₁ n₁ st.nodes chain₁ ∧
      AnswersFirst env objectsWithTag l₂ n₂ st.nodes chain₂ := by
  obtain ⟨r₁, st₁, chain₁, hrun₁, frame₁, answers₁, holds₁⟩ :=
    generateReferencesChainForNode_answersFirst env l₁ n₁ st clear ok h₁ enough
  have clear₁ := frame₁.allClear clear
  obtain ⟨r₂, st₂, chain₂, hrun₂, frame₂, answers₂, holds₂⟩ :=
    generateReferencesChainForNode_answersFirst env l₂ n₂ st₁ clear₁ (frame₁.graphOk ok)
      (frame₁.dom ▸ h₂) (frame₁.dom ▸ enough)
  have adds := generateReferencesChainForNode_addsCells env fuel n₂ st₁ r₂ st₂ hrun₂
  exact ⟨chain₁, chain₂, ⟨r₁, st₁, r₂, st₂, hrun₁, frame₁.keepsOthers clear, hrun₂,
    frame₂.keepsOthers clear₁, (holds₁.addsCells adds).printed, holds₂.printed⟩, answers₁,
    frame₁.answersFirst hne.symm answers₂⟩

/-- Searches for two leaks return the same chains in either order. -/
theorem searches_commute (env : Agent Obj) (objectsWithTag : ℕ → List Obj) (st : ChainState Obj)
    (clear : AllClear st.nodes) (ok : GraphOk objectsWithTag st.nodes) (n₁ l₁ n₂ l₂ : ℕ)
    (hne : l₁ ≠ l₂) (h₁ : n₁ ∈ st.nodes.dom) (h₂ : n₂ ∈ st.nodes.dom) (fuel : ℕ)
    (enough : st.nodes.dom.card < fuel) :
    ∃ chain₁ chain₂, SearchedInOrder env objectsWithTag fuel n₁ l₁ n₂ l₂ st chain₁ chain₂ ∧
      SearchedInOrder env objectsWithTag fuel n₂ l₂ n₁ l₁ st chain₂ chain₁ := by
  obtain ⟨chain₁, chain₂, forth, answers₁, answers₂⟩ := searchedInOrder hne st clear ok h₁ h₂ enough
  obtain ⟨chain₂', chain₁', back, answers₂', answers₁'⟩ :=
    searchedInOrder hne.symm st clear ok h₂ h₁ enough
  obtain rfl := answers₁.unique answers₁'
  obtain rfl := answers₂.unique answers₂'
  exact ⟨chain₁, chain₂, forth, back⟩

theorem searches_commute_twoNodes : ∃ chain₁ chain₂,
    SearchedInOrder Sample.agentOfCycle (fun a => [a]) 3 1 0 2 1
      (Sample.twoNodes [⟨.field, {}, some 2⟩] [⟨.jniGlobal, {}, none⟩]) chain₁ chain₂ ∧
    SearchedInOrder Sample.agentOfCycle (fun a => [a]) 3 2 1 1 0
      (Sample.twoNodes [⟨.field, {}, some 2⟩] [⟨.jniGlobal, {}, none⟩]) chain₂ chain₁ :=
  searches_commute Sample.agentOfCycle (fun a => [a]) _ (Sample.allClear_twoNodes _ _)
    (Sample.graphOk_twoNodes (by decide)) 1 0 2 1 (by decide) (by decide) (by decide) 3 (by decide)

/-! ## The same search again -/

/-- A search clears the leak only at nodes from which no chain begins, and the same search after it
finds a chain exactly if it did. -/
structure MemoTruthful (env : Agent Obj) (objectsWithTag : ℕ → List Obj) (fuel node leakNumber : ℕ)
    (st : ChainState Obj) : Prop where
  cleared : ∀ r st', generateReferencesChainForNode env objectsWithTag fuel node leakNumber st =
    .ok (r, st') → ∀ m, Carries st.nodes leakNumber m → ¬ Carries st'.nodes leakNumber m →
      ¬ ∃ path, IsChain env.gdata (referencesOf st.nodes)
        (carriers objectsWithTag leakNumber st.nodes) m path
  again : ∀ r st', generateReferencesChainForNode env objectsWithTag fuel node leakNumber st =
    .ok (r, st') → ∃ r' st'', generateReferencesChainForNode env objectsWithTag fuel node leakNumber
      st' = .ok (r', st'') ∧ (r'.isSome ↔ r.isSome)

theorem AnswersFirst.isSome_iff {cells : List OrderedReferences} {r : Option ℕ}
    (answers : AnswersFirst env objectsWithTag leakNumber node h chain)
    (holds : HoldsChain cells r chain) : r.isSome ↔ Leads (LinkedTo env.gdata (referencesOf h))
      (HoldsRoot env.gdata (referencesOf h)) (carriers objectsWithTag leakNumber h) node := by
  cases r with
  | none =>
    cases chain with
    | none =>
      constructor
      · intro hsome
        cases hsome
      · exact fun leads => absurd leads answers
    | some path => exact holds.elim
  | some last =>
    cases chain with
    | none => exact holds.elim
    | some path => exact ⟨fun _ => FirstChain.leads answers, fun _ => rfl⟩

theorem GraphFrame.carriers_subset (frame : GraphFrame objectsWithTag leakNumber h h') :
    carriers objectsWithTag leakNumber h' ⊆ carriers objectsWithTag leakNumber h := by
  rintro a ⟨carries, nd', hnd', live⟩
  obtain ⟨nd, hnd, hframe⟩ := frame.node_back hnd'
  exact ⟨frame.carries carries, nd, hnd, hframe.live ▸ live⟩

theorem GraphFrame.carriers_of_keepsLabels (frame : GraphFrame objectsWithTag leakNumber h h')
    (keeps : KeepsLabels leakNumber h h') :
    carriers objectsWithTag leakNumber h' = carriers objectsWithTag leakNumber h := by
  apply subset_antisymm frame.carriers_subset
  rintro a ⟨carries, nd, hnd, live⟩
  obtain ⟨nd', hnd', hframe⟩ := frame.node a nd hnd
  exact ⟨keeps a carries, nd', hnd', hframe.live.trans live⟩

/-- A call whose result is known is truthful if it clears labels of dead ends only and leaves the node
leading to a root exactly if it found one. -/
theorem MemoTruthful.of_run {st st' : ChainState Obj} {fuel : ℕ} {r : Option ℕ}
    (clear : AllClear st.nodes) (ok : GraphOk objectsWithTag st.nodes) (hnode : node ∈ st.nodes.dom)
    (enough : st.nodes.dom.card < fuel)
    (hrun : generateReferencesChainForNode env objectsWithTag fuel node leakNumber st = .ok (r, st'))
    (frame : GraphFrame objectsWithTag leakNumber st.nodes st'.nodes)
    (cleared : ∀ m ∈ carriers objectsWithTag leakNumber st.nodes,
      ¬ Carries st'.nodes leakNumber m → ¬ Leads (LinkedTo env.gdata (referencesOf st.nodes))
        (HoldsRoot env.gdata (referencesOf st.nodes)) (carriers objectsWithTag leakNumber st.nodes) m)
    (again : Leads (LinkedTo env.gdata (referencesOf st.nodes))
      (HoldsRoot env.gdata (referencesOf st.nodes)) (carriers objectsWithTag leakNumber st'.nodes)
      node ↔ r.isSome) :
    MemoTruthful env objectsWithTag fuel node leakNumber st where
  cleared r₁ st₁ hrun₁ m _ hm hchain := by
    obtain ⟨rfl, rfl⟩ := Prod.mk.inj (Except.ok.inj (hrun.symm.trans hrun₁))
    have leads := leads_iff_exists_isChain.2 hchain
    exact cleared m leads.mem hm leads
  again r₁ st₁ hrun₁ := by
    obtain ⟨rfl, rfl⟩ := Prod.mk.inj (Except.ok.inj (hrun.symm.trans hrun₁))
    obtain ⟨r', st'', chain, hrun', -, answers, holds⟩ :=
      generateReferencesChainForNode_answersFirst env leakNumber node st' (frame.allClear clear)
        (frame.graphOk ok) (frame.dom ▸ hnode) (frame.dom ▸ enough)
    refine ⟨r', st'', hrun', ?_⟩
    rw [answers.isSome_iff holds, frame.referencesOf_eq]
    exact again

/-- The labels a search clears are cleared rightly if and only if the node leads to no root, or leads
straight to one. -/
theorem memo_truthful_iff (env : Agent Obj) (objectsWithTag : ℕ → List Obj) (leakNumber node : ℕ)
    (st : ChainState Obj) (clear : AllClear st.nodes) (ok : GraphOk objectsWithTag st.nodes)
    (hnode : node ∈ st.nodes.dom) (fuel : ℕ) (enough : st.nodes.dom.card < fuel) :
    MemoTruthful env objectsWithTag fuel node leakNumber st ↔
      (¬ ∃ path, IsChain env.gdata (referencesOf st.nodes)
        (carriers objectsWithTag leakNumber st.nodes) node path) ∨
      LeadsStraight env.gdata (referencesOf st.nodes) (carriers objectsWithTag leakNumber st.nodes)
        node := by
  have few := (card_unvisited_le st.nodes).trans_lt enough
  have havail : avail objectsWithTag leakNumber st.nodes =
    carriers objectsWithTag leakNumber st.nodes := avail_eq_carriers clear
  rw [← leads_iff_exists_isChain]
  obtain ⟨r, st', hrun, frame, hres⟩ := generateReferencesChainForNode_explores leakNumber env fuel
    node st ok hnode few
  have havail' : avail objectsWithTag leakNumber st'.nodes =
    carriers objectsWithTag leakNumber st'.nodes := avail_eq_carriers (frame.allClear clear)
  cases r with
  | none =>
    obtain ⟨nowhere, prunes⟩ := hres
    rw [havail] at nowhere prunes
    rw [havail'] at prunes
    refine iff_of_true ?_ (.inl nowhere)
    apply MemoTruthful.of_run clear ok hnode enough hrun frame
    · exact fun m hm unlabelled => prunes.deadEnd m hm fun h => unlabelled h.1
    · constructor
      · exact fun leads => absurd (leads.mono frame.carriers_subset) nowhere
      · intro hsome
        cases hsome
  | some last =>
    obtain ⟨⟨path, first, -⟩, straight, unlabelled⟩ :=
      generateReferencesChainForNode_findsFirst leakNumber env fuel node st ok hnode few last st' hrun
    rw [havail] at first straight unlabelled
    constructor
    · intro truthful
      refine .inr ?_
      by_contra bent
      obtain ⟨v, leads, hv⟩ := unlabelled bent
      exact truthful.cleared _ st' hrun v leads.mem.1 hv (leads_iff_exists_isChain.1 leads)
    · rintro (nowhere | direct)
      · exact absurd first.leads nowhere
      · have keeps := straight direct
        apply MemoTruthful.of_run clear ok hnode enough hrun frame
        · exact fun m hm hcleared => absurd (keeps m hm.1) hcleared
        · rw [frame.carriers_of_keepsLabels keeps]
          exact iff_of_true first.leads rfl

theorem memo_truthful_twoNodes :
    MemoTruthful Sample.agentOfCycle (fun a => [a]) 3 1 0
      (Sample.twoNodes [⟨.field, {}, some 2⟩] [⟨.jniGlobal, {}, none⟩]) := by
  have mem : ∀ a, a = 1 ∨ a = 2 → a ∈ carriers (fun a => [a]) 0
      (Sample.twoNodes [⟨.field, {}, some 2⟩] [⟨.jniGlobal, {}, none⟩]).nodes := fun a ha =>
    Sample.mem_carriers_twoNodes _ _ ha
  refine (memo_truthful_iff Sample.agentOfCycle (fun a => [a]) 0 1 _ (Sample.allClear_twoNodes _ _)
    (Sample.graphOk_twoNodes (by decide)) (by decide) 3 (by decide)).2 (.inr ⟨mem 1 (.inl rfl), ?_⟩)
  rw [Sample.referencesOf_twoNodes]
  refine .through (by decide) (by decide) rfl ⟨mem 2 (.inr rfl), by decide⟩ ?_
  rw [Sample.referencesOf_twoNodes]
  exact .root (by decide) (by decide)

/-- The leak is cleared at a node that a JNI global reference holds, because the first reference to the
node leads nowhere. -/
theorem memo_not_truthful : ∃ st : ChainState ℕ, AllClear st.nodes ∧
    GraphOk (fun a => [a]) st.nodes ∧ 1 ∈ st.nodes.dom ∧ st.nodes.dom.card < 3 ∧
    ¬ MemoTruthful Sample.agentOfCycle (fun a => [a]) 3 1 0 st := by
  refine ⟨Sample.twoNodes [⟨.field, {}, some 2⟩, ⟨.jniGlobal, {}, none⟩] [],
    Sample.allClear_twoNodes _ _, Sample.graphOk_twoNodes (by decide), by decide, by decide,
    fun truthful => ?_⟩
  obtain ⟨⟨r, st'⟩, hrun, hcleared⟩ := Run.exists_ok_of_any
    (x := generateReferencesChainForNode Sample.agentOfCycle (fun a => [a]) 3 1 0
      (Sample.twoNodes [⟨.field, {}, some 2⟩, ⟨.jniGlobal, {}, none⟩] []))
    (p := fun result => (result.2.nodes.get? 1).all fun nd => !nd.leaksRelated.contains 0)
    (by decide)
  have mem : 1 ∈ carriers (fun a => [a]) 0 (Sample.twoNodes
      [⟨.field, {}, some 2⟩, ⟨.jniGlobal, {}, none⟩] []).nodes :=
    Sample.mem_carriers_twoNodes _ _ (.inl rfl)
  have unlabelled : ¬ Carries st'.nodes 0 1 := by
    rintro ⟨nd, hnd, hcontains⟩
    simp [hnd, hcontains] at hcleared
  refine truthful.cleared r st' hrun 1 mem.1 unlabelled
    ⟨[⟨.jniGlobal, {}, none⟩], mem, ?_, by decide, rfl⟩
  rw [Sample.referencesOf_twoNodes]
  decide

end JLeaker
