import JLeaker.Proof.ChainSearch

/-!
# Soundness and completeness of the search for a chain

`generateReferencesChainForNode` returns a chain exactly when one exists.  `Explores` is the
specification of a call, `Scans` that of the loop over the references of one node; the second
follows from the first for the recursive calls, and the first for a call from the second for its
loop.
-/

namespace JLeaker

open DeadEnds

variable {Obj : Type} {objectsWithTag : ℕ → List Obj} {leakNumber : ℕ}

/-- The references `refs` of a node, read in the graph `h`, lead to no root. -/
def NoneLeads (g : GlobalData) (objectsWithTag : ℕ → List Obj) (leakNumber : ℕ)
    (h : CHeap (MemoryNode Obj)) (refs : List MemoryReferer) : Prop :=
  ∀ ref ∈ refs, shouldConsiderThisReference g ref.kind = true →
    isRootReference ref.kind = false ∧ ∀ b, ref.node = some b →
      ¬ Leads (LinkedTo g (referencesOf h)) (HoldsRoot g (referencesOf h))
        (avail objectsWithTag leakNumber h) b

/-- What a call for node `a` does. -/
def Explores (g : GlobalData) (objectsWithTag : ℕ → List Obj) (leakNumber a : ℕ)
    (st : ChainState Obj) (result : Except Fault (Option ℕ × ChainState Obj)) : Prop :=
  ∃ res st', result = .ok (res, st') ∧
    GraphFrame objectsWithTag leakNumber st.nodes st'.nodes ∧
    match res with
    | none =>
      ¬ Leads (LinkedTo g (referencesOf st.nodes)) (HoldsRoot g (referencesOf st.nodes))
        (avail objectsWithTag leakNumber st.nodes) a ∧
      Prunes (LinkedTo g (referencesOf st.nodes)) (HoldsRoot g (referencesOf st.nodes))
        (avail objectsWithTag leakNumber st.nodes) (avail objectsWithTag leakNumber st'.nodes)
    | some last => ∃ path,
      IsChain g (referencesOf st.nodes) (avail objectsWithTag leakNumber st.nodes) a path ∧
      (chainNodes a path).Nodup ∧ Ring st'.cells last path

/-- What the loop over the references `refs` of a node does. -/
def Scans (g : GlobalData) (objectsWithTag : ℕ → List Obj) (leakNumber : ℕ)
    (refs : List MemoryReferer) (st : ChainState Obj)
    (result : Except Fault (Option ℕ × ChainState Obj)) : Prop :=
  ∃ res st', result = .ok (res, st') ∧
    GraphFrame objectsWithTag leakNumber st.nodes st'.nodes ∧
    match res with
    | none =>
      NoneLeads g objectsWithTag leakNumber st.nodes refs ∧
      Prunes (LinkedTo g (referencesOf st.nodes)) (HoldsRoot g (referencesOf st.nodes))
        (avail objectsWithTag leakNumber st.nodes) (avail objectsWithTag leakNumber st'.nodes)
    | some last => ∃ ref ∈ refs, ∃ rest, shouldConsiderThisReference g ref.kind = true ∧
      Ring st'.cells last (ref :: rest) ∧
      if isRootReference ref.kind then rest = []
      else ∃ b, ref.node = some b ∧
        IsChain g (referencesOf st.nodes) (avail objectsWithTag leakNumber st.nodes) b rest ∧
        (chainNodes b rest).Nodup

theorem NoneLeads.cons {g : GlobalData} {h : CHeap (MemoryNode Obj)} {ref : MemoryReferer}
    {rest : List MemoryReferer}
    (head : shouldConsiderThisReference g ref.kind = true →
      isRootReference ref.kind = false ∧ ∀ b, ref.node = some b →
        ¬ Leads (LinkedTo g (referencesOf h)) (HoldsRoot g (referencesOf h))
          (avail objectsWithTag leakNumber h) b)
    (tail : NoneLeads g objectsWithTag leakNumber h rest) :
    NoneLeads g objectsWithTag leakNumber h (ref :: rest) := by
  intro r hr
  rcases List.mem_cons.1 hr with rfl | hr
  · exact head
  · exact tail r hr

/-- Clearing the leak at a node that is on the stack changes nothing for the search. -/
theorem graphFrame_remove (h : CHeap (MemoryNode Obj)) (a : ℕ) :
    GraphFrame objectsWithTag leakNumber h (h.modify a fun nd =>
      { nd with leaksRelated := nd.leaksRelated.remove leakNumber }) where
  dom := rfl
  node b nd hnd := by
    by_cases hb : b = a
    · subst hb
      refine ⟨{ nd with leaksRelated := nd.leaksRelated.remove leakNumber }, by simp [hnd], rfl, rfl,
        fun _ h => h, by simp, fun n hn => ?_, fun hbit => ?_⟩
      · simp [BitmaskSet.bit_remove, hn]
      · rw [BitmaskSet.bit_remove] at hbit
        simp only [Bool.and_eq_true] at hbit
        exact hbit.1
    · exact ⟨nd, by rw [h.get?_modify_of_ne hb, hnd], .refl nd⟩

theorem prunes_remove (g : GlobalData) (objectsWithTag : ℕ → List Obj) (leakNumber : ℕ)
    {h : CHeap (MemoryNode Obj)} {a : ℕ} {nd : MemoryNode Obj}
    (hnd : h.get? a = some nd) (onStack : nd.visited = true) :
    Prunes (LinkedTo g (referencesOf h)) (HoldsRoot g (referencesOf h))
      (avail objectsWithTag leakNumber h)
      (avail objectsWithTag leakNumber (h.modify a fun nd =>
        { nd with leaksRelated := nd.leaksRelated.remove leakNumber })) := by
  refine ⟨(graphFrame_remove h a).avail_subset, fun b hb hn => absurd ?_ hn⟩
  obtain ⟨nb, hnb, hv, hc, hl⟩ := hb
  have hba : b ≠ a := by
    rintro rfl
    obtain rfl : nd = nb := Option.some.inj (hnd.symm.trans hnb)
    rw [onStack] at hv
    cases hv
  exact ⟨nb, by rw [h.get?_modify_of_ne hba, hnb], hv, hc, hl⟩

/-- A reference that is not followed adds nothing to the loop over the others. -/
theorem Scans.skip {g : GlobalData} {ref : MemoryReferer} {rest : List MemoryReferer}
    {st : ChainState Obj} {result : Except Fault (Option ℕ × ChainState Obj)}
    (ignored : shouldConsiderThisReference g ref.kind = false)
    (scans : Scans g objectsWithTag leakNumber rest st result) :
    Scans g objectsWithTag leakNumber (ref :: rest) st result := by
  obtain ⟨res, st', hrun, frame, hres⟩ := scans
  refine ⟨res, st', hrun, frame, ?_⟩
  cases res with
  | some last =>
    obtain ⟨r, hr, hrest⟩ := hres
    exact ⟨r, List.mem_cons_of_mem _ hr, hrest⟩
  | none =>
    have hhead : ¬ shouldConsiderThisReference g ref.kind = true := by simp [ignored]
    exact ⟨.cons (fun h => absurd h hhead) hres.1, hres.2⟩

/-- A reference to a node that leads nowhere leaves the loop over the others, in a graph that has
lost only dead ends. -/
theorem Scans.pass {g : GlobalData} {ref : MemoryReferer} {rest : List MemoryReferer} {b : ℕ}
    {st st₁ : ChainState Obj} {result : Except Fault (Option ℕ × ChainState Obj)}
    (hroot : isRootReference ref.kind = false) (hnode : ref.node = some b)
    (frame₁ : GraphFrame objectsWithTag leakNumber st.nodes st₁.nodes)
    (hnone : ¬ Leads (LinkedTo g (referencesOf st.nodes)) (HoldsRoot g (referencesOf st.nodes))
      (avail objectsWithTag leakNumber st.nodes) b)
    (hprune : Prunes (LinkedTo g (referencesOf st.nodes)) (HoldsRoot g (referencesOf st.nodes))
      (avail objectsWithTag leakNumber st.nodes) (avail objectsWithTag leakNumber st₁.nodes))
    (scans : Scans g objectsWithTag leakNumber rest st₁ result) :
    Scans g objectsWithTag leakNumber (ref :: rest) st result := by
  obtain ⟨res, st₂, hrun, frame₂, hres⟩ := scans
  refine ⟨res, st₂, hrun, frame₁.trans frame₂, ?_⟩
  rw [frame₁.referencesOf_eq] at hres
  cases res with
  | some last =>
    obtain ⟨r, hr, path, hrc, hring, hrest⟩ := hres
    refine ⟨r, List.mem_cons_of_mem _ hr, path, hrc, hring, ?_⟩
    split_ifs at hrest ⊢ with hrr
    · exact hrest
    · obtain ⟨c, hc, hchain, hnodup⟩ := hrest
      exact ⟨c, hc, hchain.mono frame₁.avail_subset, hnodup⟩
  | none =>
    obtain ⟨hnone₂, hprune₂⟩ := hres
    refine ⟨.cons (fun _ => ⟨hroot, fun c hc => ?_⟩) fun r hr hrc => ?_, hprune.trans hprune₂⟩
    · obtain rfl : b = c := Option.some.inj (hnode.symm.trans hc)
      exact hnone
    · obtain ⟨h1, h2⟩ := hnone₂ r hr hrc
      rw [frame₁.referencesOf_eq] at h2
      exact ⟨h1, fun c hc leads => h2 c hc (hprune.leads leads)⟩

/-- What holds while the loop over the references `refs` of a node runs: they are its own, it is on
the stack, and the calls can mark fewer nodes than `bound`. -/
structure Looping (objectsWithTag : ℕ → List Obj) (node bound : ℕ) (refs : List MemoryReferer)
    (h : CHeap (MemoryNode Obj)) : Prop where
  ok : GraphOk objectsWithTag h
  own : ∀ ref ∈ refs, ref ∈ referencesOf h node
  onStack : ∃ nd, h.get? node = some nd ∧ nd.visited = true
  enough : (unvisited h).card < bound

theorem Looping.tail {node bound : ℕ} {ref : MemoryReferer} {rest : List MemoryReferer}
    {h : CHeap (MemoryNode Obj)} (looping : Looping objectsWithTag node bound (ref :: rest) h) :
    Looping objectsWithTag node bound rest h where
  ok := looping.ok
  own r hr := looping.own r (List.mem_cons_of_mem _ hr)
  onStack := looping.onStack
  enough := looping.enough

theorem Looping.frame {node bound : ℕ} {refs : List MemoryReferer} {h h' : CHeap (MemoryNode Obj)}
    (looping : Looping objectsWithTag node bound refs h)
    (frame : GraphFrame objectsWithTag leakNumber h h') :
    Looping objectsWithTag node bound refs h' where
  ok := frame.graphOk looping.ok
  own := by
    rw [frame.referencesOf_eq]
    exact looping.own
  onStack := by
    obtain ⟨nd, hnd, onStack⟩ := looping.onStack
    obtain ⟨nd', hnd', nframe⟩ := frame.node node nd hnd
    exact ⟨nd', hnd', nframe.visited ▸ onStack⟩
  enough := by
    rw [frame.unvisited_eq]
    exact looping.enough

/-- The loop clears the leak at its node after a call that found nothing. -/
theorem Looping.prunes (g : GlobalData) {node bound : ℕ} {refs : List MemoryReferer}
    {h h' : CHeap (MemoryNode Obj)} (looping : Looping objectsWithTag node bound refs h)
    (frame : GraphFrame objectsWithTag leakNumber h h')
    (prunes : Prunes (LinkedTo g (referencesOf h)) (HoldsRoot g (referencesOf h))
      (avail objectsWithTag leakNumber h) (avail objectsWithTag leakNumber h')) :
    Prunes (LinkedTo g (referencesOf h)) (HoldsRoot g (referencesOf h))
      (avail objectsWithTag leakNumber h)
      (avail objectsWithTag leakNumber (h'.modify node fun nd =>
        { nd with leaksRelated := nd.leaksRelated.remove leakNumber })) := by
  obtain ⟨nd', hnd', onStack⟩ := (looping.frame frame).onStack
  exact prunes.trans (frame.referencesOf_eq ▸ prunes_remove g objectsWithTag leakNumber hnd' onStack)

/-- The loop is correct when the recursive calls are. -/
theorem scanReferences_scans (g : GlobalData)
    (visit : ℕ → ChainState Obj → Except Fault (Option ℕ × ChainState Obj)) (node : ℕ) {bound : ℕ}
    (hvisit : ∀ b st, GraphOk objectsWithTag st.nodes → b ∈ st.nodes.dom →
      (unvisited st.nodes).card < bound → Explores g objectsWithTag leakNumber b st (visit b st))
    (refs : List MemoryReferer) (st : ChainState Obj)
    (looping : Looping objectsWithTag node bound refs st.nodes) :
    Scans g objectsWithTag leakNumber refs st
      (scanReferences g leakNumber visit node refs st) := by
  induction refs generalizing st with
  | nil =>
    refine ⟨none, st, rfl, .refl _, ?_, .refl _⟩
    intro r hr
    cases hr
  | cons ref rest ih =>
    rw [scanReferences]
    by_cases hcons : shouldConsiderThisReference g ref.kind = true
    swap
    · have hcons' : shouldConsiderThisReference g ref.kind = false := by simpa using hcons
      simp only [hcons', Bool.not_false, if_true]
      exact (ih st looping.tail).skip hcons'
    simp only [hcons, Bool.not_true, Bool.false_eq_true, if_false]
    by_cases hroot : isRootReference ref.kind = true
    · simp only [hroot, Bool.not_true, Bool.false_eq_true, if_false]
      exact ⟨some _, _, rfl, .refl _, ref, by simp, [], hcons, ring_single st ref, by simp [hroot]⟩
    have hroot' : isRootReference ref.kind = false := by simpa using hroot
    obtain ⟨b, hb, hbnode⟩ := looping.ok.target node ref (looping.own ref (by simp)) hroot'
    simp only [hroot', Bool.not_false, if_true, hbnode]
    obtain ⟨res, st₁, hrun, frame₁, hres⟩ := hvisit b st looping.ok hb looping.enough
    rw [hrun, Run.ok_bind]
    cases res with
    | some last =>
      obtain ⟨path, hchain, hnodup, hring⟩ := hres
      refine ⟨some last, st₁.insertAfter last ref, rfl, ?_, ref, by simp, path, hcons,
        hring.insertAfter ref, by simp [hroot', hbnode, hchain, hnodup]⟩
      obtain ⟨⟨c, hc, _⟩, _⟩ := hring
      simpa [ChainState.insertAfter, hc] using frame₁
    | none =>
      -- the leak is cleared at the node of the loop, which is on the stack
      obtain ⟨hnone, hprune⟩ := hres
      have frame₂ := frame₁.trans (graphFrame_remove st₁.nodes node)
      have hscan := ih { st₁ with nodes := st₁.nodes.modify node fun nd =>
        { nd with leaksRelated := nd.leaksRelated.remove leakNumber } } (looping.tail.frame frame₂)
      exact hscan.pass hroot' hbnode frame₂ hnone (looping.prunes g frame₁ hprune)

theorem not_leads_of_notMem {g : GlobalData} {refs : ℕ → List MemoryReferer} {A : Set ℕ} {a : ℕ}
    (ha : a ∉ A) : ¬ Leads (LinkedTo g refs) (HoldsRoot g refs) A a :=
  fun leads => ha leads.mem

theorem mem_avail_iff {h : CHeap (MemoryNode Obj)} {a : ℕ} {nd : MemoryNode Obj}
    (hnd : h.get? a = some nd) :
    a ∈ avail objectsWithTag leakNumber h ↔ nd.visited = false ∧
      nd.leaksRelated.contains leakNumber = true ∧ nd.live objectsWithTag a = true := by
  constructor
  · rintro ⟨nd', hnd', hrest⟩
    obtain rfl : nd = nd' := Option.some.inj (hnd.symm.trans hnd')
    exact hrest
  · exact fun hrest => ⟨nd, hnd, hrest⟩

/-- A call that returns at once explores nothing. -/
theorem explores_of_notMem_avail {g : GlobalData} {a : ℕ} {st : ChainState Obj}
    (ha : a ∉ avail objectsWithTag leakNumber st.nodes) :
    Explores g objectsWithTag leakNumber a st (.ok (none, st)) :=
  ⟨none, st, rfl, .refl _, not_leads_of_notMem ha, .refl _⟩

theorem graphFrame_unmark {h h' : CHeap (MemoryNode Obj)} {a : ℕ} {nd : MemoryNode Obj}
    (hnd : h.get? a = some nd) (fresh : nd.visited = false)
    (frame : GraphFrame objectsWithTag leakNumber (mark true h a) h') :
    GraphFrame objectsWithTag leakNumber h (mark false h' a) where
  dom := frame.dom
  node b nb hnb := by
    by_cases hb : b = a
    · subst hb
      obtain rfl : nd = nb := Option.some.inj (hnd.symm.trans hnb)
      obtain ⟨nd', hnd', hframe⟩ := frame.node b { nd with visited := true } (by simp [mark, hnd])
      refine ⟨{ nd' with visited := false }, by simp [mark, hnd'], ?_, hframe.live, hframe.obj,
        hframe.size, hframe.bit, hframe.leak⟩
      rw [hframe.eq, ← fresh]
    · obtain ⟨nb', hnb', hframe⟩ := frame.node b nb (by rw [mark, h.get?_modify_of_ne hb, hnb])
      exact ⟨nb', by rw [mark, h'.get?_modify_of_ne hb, hnb'], hframe⟩

theorem avail_subset_mark_false (h : CHeap (MemoryNode Obj)) (a : ℕ) :
    avail objectsWithTag leakNumber h ⊆ avail objectsWithTag leakNumber (mark false h a) := by
  rintro b ⟨nd, hnd, hv, hc, hl⟩
  by_cases hb : b = a
  · subst hb
    exact ⟨{ nd with visited := false }, by simp [mark, hnd], rfl, hc, hl⟩
  · exact ⟨nd, by rw [mark, h.get?_modify_of_ne hb, hnd], hv, hc, hl⟩

/-- The node that a call has entered is the only one it keeps out of the way. -/
theorem Filled.avail_eq {h h' : CHeap (MemoryNode Obj)} {a : ℕ} {nd : MemoryNode Obj}
    (hnd : h.get? a = some nd)
    (filled : Filled objectsWithTag leakNumber (mark true h a) h' a { nd with visited := true }) :
    avail objectsWithTag leakNumber h' = avail objectsWithTag leakNumber h \ {a} := by
  have hmark : (mark true h a).get? a = some { nd with visited := true } := by simp [mark, hnd]
  rw [← avail_mark_true]
  apply subset_antisymm (filled.graphFrame hmark).avail_subset
  rintro b ⟨nb, hnb, hv, hc, hl⟩
  have hba : b ≠ a := by
    rintro rfl
    rw [hmark] at hnb
    cases hnb
    cases hv
  exact ⟨nb, by rw [filled.others b hba, hnb], hv, hc, hl⟩

/-- The call for a node whose object died changes nothing for the search. -/
theorem Filled.prunes_unmark (g : GlobalData) {h h' : CHeap (MemoryNode Obj)} {a : ℕ}
    {nd : MemoryNode Obj} (dead : a ∉ avail objectsWithTag leakNumber h)
    (filled : Filled objectsWithTag leakNumber (mark true h a) h' a nd)
    (frame : GraphFrame objectsWithTag leakNumber h (mark false h' a)) :
    Prunes (LinkedTo g (referencesOf h)) (HoldsRoot g (referencesOf h))
      (avail objectsWithTag leakNumber h) (avail objectsWithTag leakNumber (mark false h' a)) := by
  refine ⟨frame.avail_subset, fun b hb hn => absurd ?_ hn⟩
  obtain ⟨nb, hnb, hv, hc, hl⟩ := hb
  have hba : b ≠ a := by
    rintro rfl
    exact dead ⟨nb, hnb, hv, hc, hl⟩
  refine ⟨nb, ?_, hv, hc, hl⟩
  calc (mark false h' a).get? b = h'.get? b := CHeap.get?_modify_of_ne _ hba _
    _ = (mark true h a).get? b := filled.others b hba
    _ = some nb := by rw [mark, CHeap.get?_modify_of_ne _ hba, hnb]

/-- A chain found below a node that was out of the way extends to one of the node. -/
theorem isChain_through {g : GlobalData} {refs : ℕ → List MemoryReferer} {A : Set ℕ} {a : ℕ}
    {ref : MemoryReferer} {rest : List MemoryReferer} (hin : a ∈ A) (href : ref ∈ refs a)
    (hcons : shouldConsiderThisReference g ref.kind = true)
    (hrest : if isRootReference ref.kind then rest = []
      else ∃ b, ref.node = some b ∧ IsChain g refs (A \ {a}) b rest ∧ (chainNodes b rest).Nodup) :
    IsChain g refs A a (ref :: rest) ∧ (chainNodes a (ref :: rest)).Nodup := by
  constructor
  · refine ⟨hin, href, hcons, ?_⟩
    split_ifs at hrest ⊢ with hroot
    · exact hrest
    · obtain ⟨b, hb, hchain, _⟩ := hrest
      exact ⟨b, hb, hchain.mono fun _ h => h.1⟩
  · split_ifs at hrest with hroot
    · subst hrest
      simp [chainNodes]
    · obtain ⟨b, hb, hchain, hnodup⟩ := hrest
      simp only [chainNodes, hb, Option.getD_some, List.nodup_cons]
      exact ⟨fun hmem => (hchain.chainNodes_subset a hmem).2 rfl, hnodup⟩

/-- A node none of whose references leads anywhere without it leads nowhere. -/
theorem NoneLeads.not_leads {g : GlobalData} {h h' : CHeap (MemoryNode Obj)} {a : ℕ}
    (same : referencesOf h' = referencesOf h)
    (havail : avail objectsWithTag leakNumber h' = avail objectsWithTag leakNumber h \ {a})
    (hnone : NoneLeads g objectsWithTag leakNumber h' (referencesOf h a)) :
    ¬ Leads (LinkedTo g (referencesOf h)) (HoldsRoot g (referencesOf h))
      (avail objectsWithTag leakNumber h) a := by
  intro leads
  rcases leads.first_step with ⟨ref, href, hcons, hroot⟩ | ⟨b, ⟨ref, href, hcons, _, hb⟩, hlead⟩
  · have hnot := (hnone ref href hcons).1
    rw [hroot] at hnot
    cases hnot
  · apply (hnone ref href hcons).2 b hb
    rw [same, havail]
    exact hlead

/-- A call that scans the list of a node, or finds its object dead, has marked the node and looked
its object up. -/
structure Opened (objectsWithTag : ℕ → List Obj) (leakNumber a : ℕ) (nd : MemoryNode Obj)
    (h h' : CHeap (MemoryNode Obj)) : Prop where
  node : h.get? a = some nd
  fresh : nd.visited = false
  filled : Filled objectsWithTag leakNumber (mark true h a) h' a { nd with visited := true }

namespace Opened

variable {a : ℕ} {nd : MemoryNode Obj} {h h' k : CHeap (MemoryNode Obj)}

theorem marked (opened : Opened objectsWithTag leakNumber a nd h h') :
    (mark true h a).get? a = some { nd with visited := true } := by
  simp [mark, opened.node]

theorem frame (opened : Opened objectsWithTag leakNumber a nd h h') :
    GraphFrame objectsWithTag leakNumber (mark true h a) h' :=
  opened.filled.graphFrame opened.marked

theorem graphOk (opened : Opened objectsWithTag leakNumber a nd h h')
    (ok : GraphOk objectsWithTag h) : GraphOk objectsWithTag h' :=
  opened.frame.graphOk (graphOk_mark true a ok)

theorem references (opened : Opened objectsWithTag leakNumber a nd h h') :
    referencesOf h' = referencesOf h := by
  rw [opened.frame.referencesOf_eq, referencesOf_mark]

theorem avail (opened : Opened objectsWithTag leakNumber a nd h h') :
    avail objectsWithTag leakNumber h' = JLeaker.avail objectsWithTag leakNumber h \ {a} :=
  opened.filled.avail_eq opened.node

theorem onStack (opened : Opened objectsWithTag leakNumber a nd h h') :
    ∃ nd', h'.get? a = some nd' ∧ nd'.visited = true := by
  obtain ⟨nd', hnd', -, -, frame⟩ := opened.filled.node
  exact ⟨nd', hnd', frame.visited⟩

theorem fewer (opened : Opened objectsWithTag leakNumber a nd h h') :
    (unvisited h').card < (unvisited h).card := by
  have marks : CHeap.ChangedAt a nd { nd with visited := true } h (mark true h a) :=
    CHeap.ChangedAt.modify (fun nd => { nd with visited := true }) opened.node
  rw [opened.frame.unvisited_eq]
  exact card_unvisited_lt marks opened.fresh rfl

/-- The loop of the call starts. -/
theorem looping (opened : Opened objectsWithTag leakNumber a nd h h')
    (ok : GraphOk objectsWithTag h) {fuel : ℕ} (enough : (unvisited h).card < fuel + 1) :
    Looping objectsWithTag a fuel (referencesOf h a) h' where
  ok := opened.graphOk ok
  own _ hr := opened.references ▸ hr
  onStack := opened.onStack
  enough := lt_of_lt_of_le opened.fewer (Nat.lt_succ_iff.1 enough)

/-- At the end of the call the mark is taken off again. -/
theorem unmark (opened : Opened objectsWithTag leakNumber a nd h h')
    (frame : GraphFrame objectsWithTag leakNumber h' k) :
    GraphFrame objectsWithTag leakNumber h (mark false k a) :=
  graphFrame_unmark opened.node opened.fresh (opened.frame.trans frame)

end Opened

/-- What a call for node `a` can do: return at once, find the object dead, or scan the list. -/
theorem generateReferencesChainForNode_cases (leakNumber : ℕ) (env : Agent Obj) (fuel : ℕ) {a : ℕ}
    {st : ChainState Obj} (ok : GraphOk objectsWithTag st.nodes) (ha : a ∈ st.nodes.dom) :
    a ∉ avail objectsWithTag leakNumber st.nodes ∧
      generateReferencesChainForNode env objectsWithTag (fuel + 1) a leakNumber st =
        .ok (none, st) ∨
    ∃ nd nodes₁, Opened objectsWithTag leakNumber a nd st.nodes nodes₁ ∧
      (a ∉ avail objectsWithTag leakNumber st.nodes ∧
        generateReferencesChainForNode env objectsWithTag (fuel + 1) a leakNumber st =
          .ok (none, { st with nodes := mark false nodes₁ a }) ∨
      a ∈ avail objectsWithTag leakNumber st.nodes ∧
        generateReferencesChainForNode env objectsWithTag (fuel + 1) a leakNumber st =
          scanReferences env.gdata leakNumber
            (fun next st => generateReferencesChainForNode env objectsWithTag fuel next leakNumber st)
            a (referencesOf st.nodes a) { st with nodes := nodes₁ } >>= fun r =>
              .ok (r.1, { r.2 with nodes := mark false r.2.nodes a })) := by
  obtain ⟨nd, hnd⟩ := st.nodes.exists_get?_of_mem ha
  have hmem : a ∈ avail objectsWithTag leakNumber st.nodes ↔ nd.visited = false ∧
      nd.leaksRelated.contains leakNumber = true ∧ nd.live objectsWithTag a = true :=
    mem_avail_iff hnd
  rw [generateReferencesChainForNode, deref_eq_ok.2 hnd, Run.ok_bind]
  by_cases hvis : nd.visited = true
  · refine .inl ⟨by simp [hmem, hvis], ?_⟩
    simp only [hvis, if_true]
    rfl
  have hvis' : nd.visited = false := Bool.of_not_eq_true hvis
  simp only [hvis', Bool.false_eq_true, if_false]
  by_cases hcarry : nd.leaksRelated.contains leakNumber = true
  swap
  · refine .inl ⟨by simp [hmem, hcarry], ?_⟩
    simp only [hcarry, Bool.not_false, if_true]
    rfl
  simp only [hcarry, Bool.not_true, Bool.false_eq_true, if_false]
  have hmark : (mark true st.nodes a).get? a = some { nd with visited := true } := by
    simp [mark, hnd]
  obtain ⟨nodes₁, hfill, filled⟩ := fillClassInMemoryNode_spec leakNumber env.jvm hmark
    (ok.unique a nd hnd)
  obtain ⟨nd₁, hnd₁, -, hdead, nframe⟩ := filled.node
  refine .inr ⟨nd, nodes₁, ⟨hnd, hvis', filled⟩, ?_⟩
  rw [show st.nodes.modify a (fun nd => { nd with visited := true }) = mark true st.nodes a from rfl,
    hfill, Run.ok_bind, deref_eq_ok.2 hnd₁, Run.ok_bind]
  have hstart : nd₁.start = referencesOf st.nodes a := by
    simp [referencesOf, hnd, nframe.start]
  have hlive₁ : nd₁.dead = !nd.live objectsWithTag a := hdead
  by_cases hlive : nd.live objectsWithTag a = true
  · refine .inr ⟨hmem.2 ⟨hvis', hcarry, hlive⟩, ?_⟩
    simp only [hlive₁, hlive, Bool.not_true, Bool.not_false, if_true, hstart]
    rfl
  · -- the object died: the list is not scanned and the label stays
    refine .inl ⟨by simp [hmem, hlive], ?_⟩
    simp only [hlive₁, Bool.of_not_eq_true hlive, Bool.not_false, Bool.not_true,
      Bool.false_eq_true, if_false, Run.ok_bind]
    rfl

/-- Every call with enough fuel is correct. -/
theorem generateReferencesChainForNode_explores (leakNumber : ℕ) (env : Agent Obj) (fuel : ℕ) :
    ∀ a st, GraphOk objectsWithTag st.nodes → a ∈ st.nodes.dom →
      (unvisited st.nodes).card < fuel →
      Explores env.gdata objectsWithTag leakNumber a st
        (generateReferencesChainForNode env objectsWithTag fuel a leakNumber st) := by
  induction fuel with
  | zero => intro a st _ _ h; omega
  | succ fuel ih =>
    intro a st ok ha enough
    obtain ⟨outside, run⟩ | ⟨nd, nodes₁, opened, ⟨outside, run⟩ | ⟨inside, run⟩⟩ :=
      generateReferencesChainForNode_cases leakNumber env fuel ok ha
    · rw [run]
      exact explores_of_notMem_avail outside
    · have frame := opened.unmark (.refl _)
      rw [run]
      exact ⟨none, _, rfl, frame, not_leads_of_notMem outside,
        opened.filled.prunes_unmark _ outside frame⟩
    obtain ⟨res, st₂, hscan, frame₂, hres⟩ := scanReferences_scans env.gdata
      (fun next st => generateReferencesChainForNode env objectsWithTag fuel next leakNumber st)
      a ih (referencesOf st.nodes a) { st with nodes := nodes₁ } (opened.looping ok enough)
    have frame : GraphFrame objectsWithTag leakNumber st.nodes (mark false st₂.nodes a) :=
      opened.unmark frame₂
    rw [run, hscan, Run.ok_bind]
    refine ⟨res, _, rfl, frame, ?_⟩
    cases res with
    | some last =>
      obtain ⟨ref, href, rest, hcons, hring, hrest⟩ := hres
      simp only [opened.references, opened.avail] at hrest
      obtain ⟨hchain, hnodup⟩ := isChain_through inside href hcons hrest
      exact ⟨ref :: rest, hchain, hnodup, hring⟩
    | none =>
      obtain ⟨hnone, hprune⟩ := hres
      have hnowhere := hnone.not_leads opened.references opened.avail
      simp only [opened.references, opened.avail] at hprune
      exact ⟨hnowhere,
        hprune.restore inside frame.avail_subset (avail_subset_mark_false _ a) hnowhere⟩

/-! ## Top-level calls -/

/-- No node is on the stack of a search. -/
def AllClear (h : CHeap (MemoryNode Obj)) : Prop :=
  ∀ a nd, h.get? a = some nd → nd.visited = false

/-- The live nodes that carry the leak. -/
def carriers (objectsWithTag : ℕ → List Obj) (leakNumber : ℕ) (h : CHeap (MemoryNode Obj)) :
    Set ℕ :=
  { a | Carries h leakNumber a ∧ Live objectsWithTag h a }

theorem avail_eq_carriers {h : CHeap (MemoryNode Obj)} (clear : AllClear h) :
    avail objectsWithTag leakNumber h = carriers objectsWithTag leakNumber h := by
  ext a
  constructor
  · rintro ⟨nd, hnd, _, hc, hl⟩
    exact ⟨⟨nd, hnd, hc⟩, nd, hnd, hl⟩
  · rintro ⟨⟨nd, hnd, hc⟩, nd', hnd', hl⟩
    obtain rfl : nd = nd' := Option.some.inj (hnd.symm.trans hnd')
    exact ⟨nd, hnd, clear a nd hnd, hc, hl⟩

/-- What a top-level call does, and what it leaves of the graph. -/
theorem generateReferencesChainForNode_search (env : Agent Obj) (objectsWithTag : ℕ → List Obj)
    (leakNumber node : ℕ) (st : ChainState Obj) (clear : AllClear st.nodes)
    (ok : GraphOk objectsWithTag st.nodes) (hnode : node ∈ st.nodes.dom) (fuel : ℕ)
    (enough : st.nodes.dom.card < fuel) :
    ∃ orderedRefs st',
      generateReferencesChainForNode env objectsWithTag fuel node leakNumber st =
        .ok (orderedRefs, st') ∧
      GraphFrame objectsWithTag leakNumber st.nodes st'.nodes ∧
      match orderedRefs with
      | none => ¬ Leads (LinkedTo env.gdata (referencesOf st.nodes))
          (HoldsRoot env.gdata (referencesOf st.nodes))
          (carriers objectsWithTag leakNumber st.nodes) node
      | some last => ∃ path, printedChain st' last = some path ∧
          IsChain env.gdata (referencesOf st.nodes)
            (carriers objectsWithTag leakNumber st.nodes) node path ∧
          (chainNodes node path).Nodup := by
  obtain ⟨res, st', hrun, frame, hres⟩ := generateReferencesChainForNode_explores
    leakNumber env fuel node st ok hnode
    ((card_unvisited_le _).trans_lt enough)
  rw [avail_eq_carriers clear] at hres
  refine ⟨res, st', hrun, frame, ?_⟩
  cases res with
  | none => exact hres.1
  | some last =>
    obtain ⟨path, hchain, hnodup, hring⟩ := hres
    exact ⟨path, hring.printedChain, hchain, hnodup⟩

/-- A top-level call returns, and finds a chain exactly when there is one; the circular list read
from its first cell is such a chain and visits no node twice. -/
theorem generateReferencesChainForNode_correct (env : Agent Obj) (objectsWithTag : ℕ → List Obj)
    (leakNumber node : ℕ) (st : ChainState Obj) (clear : AllClear st.nodes)
    (ok : GraphOk objectsWithTag st.nodes) (hnode : node ∈ st.nodes.dom) (fuel : ℕ)
    (enough : st.nodes.dom.card < fuel) :
    ∃ orderedRefs st',
      generateReferencesChainForNode env objectsWithTag fuel node leakNumber st =
        .ok (orderedRefs, st') ∧
      (orderedRefs.isSome ↔ ∃ path, IsChain env.gdata (referencesOf st.nodes)
        (carriers objectsWithTag leakNumber st.nodes) node path) ∧
      ∀ last, orderedRefs = some last → ∃ path,
        printedChain st' last = some path ∧
        IsChain env.gdata (referencesOf st.nodes)
          (carriers objectsWithTag leakNumber st.nodes) node path ∧
        (chainNodes node path).Nodup := by
  obtain ⟨res, st', hrun, _, hres⟩ := generateReferencesChainForNode_search env objectsWithTag
    leakNumber node st clear ok hnode fuel enough
  refine ⟨res, st', hrun, ?_⟩
  cases res with
  | none =>
    refine ⟨?_, fun last h => by cases h⟩
    simp only [Option.isSome_none, Bool.false_eq_true, false_iff]
    exact fun h => hres (leads_iff_exists_isChain.2 h)
  | some last =>
    obtain ⟨path, hring, hchain, hnodup⟩ := hres
    refine ⟨iff_of_true rfl ⟨path, hchain⟩, fun last' h => ?_⟩
    cases h
    exact ⟨path, hring, hchain, hnodup⟩

/-- A node that carries the leak `0`. -/
def Sample.carrier (start : List MemoryReferer) : MemoryNode ℕ :=
  { newMemoryNode 1 with leaksRelated := (BitmaskSet.new 1).add 0, start := start }

/-- Two nodes that refer to each other, one of them held by a JNI global reference. -/
def Sample.cycle : CHeap (MemoryNode ℕ) :=
  (CHeap.empty.alloc .above (carrier [⟨.field, {}, some 2⟩])).alloc .above
    (carrier [⟨.field, {}, some 1⟩, ⟨.jniGlobal, {}, none⟩])

theorem Sample.get?_cycle (a : ℕ) : cycle.get? a =
    if a = 2 then some (carrier [⟨.field, {}, some 1⟩, ⟨.jniGlobal, {}, none⟩])
    else if a = 1 then some (carrier [⟨.field, {}, some 2⟩]) else none := by
  rw [cycle, CHeap.get?_alloc, CHeap.get?_alloc, CHeap.get?_empty]
  rfl

/-- The JVM and the options of the example. -/
def Sample.agentOfCycle : Agent ℕ where
  jvm := ⟨fun _ => 0, 0, fun _ => ""⟩
  gdata := ⟨1, 100, 5, 60, false, false⟩
  threadId := 0
  malloc := .above

theorem generateReferencesChainForNode_correct_cycle :
    ∃ orderedRefs st', generateReferencesChainForNode Sample.agentOfCycle (fun a => [a]) 3 1 0
        ⟨Sample.cycle, []⟩ = .ok (orderedRefs, st') ∧
      (orderedRefs.isSome ↔ ∃ path, IsChain Sample.agentOfCycle.gdata
        (referencesOf Sample.cycle) (carriers (fun a => [a]) 0 Sample.cycle) 1 path) := by
  have clear : AllClear Sample.cycle := by
    intro a nd h
    rw [Sample.get?_cycle] at h
    split_ifs at h
    · cases h
      rfl
    · cases h
      rfl
  have ok : GraphOk (fun a => [a]) Sample.cycle := by
    refine ⟨fun a ref href hkind => ?_, fun _ _ _ _ => le_rfl⟩
    unfold referencesOf at href
    rw [Sample.get?_cycle] at href
    have hmem : ∀ b, ref.node = some b → b = 1 ∨ b = 2 → ∃ b ∈ Sample.cycle.dom, ref.node = some b :=
      fun b hb hor => ⟨b, by rcases hor with rfl | rfl <;> decide, hb⟩
    split_ifs at href
    · rcases List.mem_cons.1 href with rfl | href
      · exact hmem 1 rfl (.inl rfl)
      · obtain rfl := List.mem_singleton.1 href
        cases hkind
    · obtain rfl := List.mem_singleton.1 href
      exact hmem 2 rfl (.inr rfl)
    · cases href
  obtain ⟨res, st', hrun, hiff, _⟩ := generateReferencesChainForNode_correct Sample.agentOfCycle
    (fun a => [a]) 0 1 ⟨Sample.cycle, []⟩ clear ok (by decide) 3 (by decide)
  exact ⟨res, st', hrun, hiff⟩

end JLeaker
