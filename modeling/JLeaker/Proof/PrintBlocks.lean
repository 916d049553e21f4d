import JLeaker.Proof.Blocks

/-!
# The blocks of printing

Printing keeps the graph (`Printed`) and counts what it allocates: a class name stays with its node,
a chain is freed cell by cell, and every text is freed once it is printed, unless it is the one a JNI
local reference loses.
-/

namespace JLeaker

open CString

variable {Obj : Type}

/-! ## Steps of printing -/

/-- No node has the name of a class it does not know. -/
def NamesOk (h : CHeap (MemoryNode Obj)) : Prop :=
  ∀ a nd, h.get? a = some nd → nd.klass = none → nd.classname = none

/-- Printing has kept the graph, and the ledger has followed it; `k` and `k'` are the other blocks
before and after. -/
structure Prints (p : Printing Obj) (k : ℕ) (p' : Printing Obj) (k' : ℕ) : Prop where
  names : NamesOk p'.nodes
  printed : Printed p.nodes p'.nodes
  tracks : Tracks p.ledger (blocksIn p.nodes + k) p'.ledger (blocksIn p'.nodes + k')

namespace Prints

variable {p p' p'' : Printing Obj} {k k' k'' : ℕ}

theorem refl (names : NamesOk p.nodes) (k : ℕ) : Prints p k p k := ⟨names, .refl _, .refl _ _⟩

theorem trans (first : Prints p k p' k') (second : Prints p' k' p'' k'') : Prints p k p'' k'' :=
  ⟨second.names, first.printed.trans second.printed, first.tracks.trans second.tracks⟩

/-- A step that leaves the nodes alone. -/
theorem of_nodes_eq (names : NamesOk p.nodes) (nodes : p'.nodes = p.nodes)
    (tracks : Tracks p.ledger (blocksIn p.nodes + k) p'.ledger (blocksIn p.nodes + k')) :
    Prints p k p' k' :=
  ⟨nodes ▸ names, nodes ▸ .refl _, nodes ▸ tracks⟩

/-- Other blocks beside those that change. -/
theorem add (prints : Prints p k p' k') (n : ℕ) : Prints p (k + n) p' (k' + n) :=
  ⟨prints.names, prints.printed, by simpa only [Nat.add_assoc] using prints.tracks.add n⟩

end Prints

/-- A step that changes what printing may change of one node. -/
theorem Prints.modify {p : Printing Obj} {a k k' : ℕ} {nd : MemoryNode Obj}
    {f : MemoryNode Obj → MemoryNode Obj} {l : Ledger} (names : NamesOk p.nodes)
    (hnd : p.nodes.get? a = some nd)
    (eq : f nd = { nd with
      dead := (f nd).dead, klass := (f nd).klass, obj := (f nd).obj, classname := (f nd).classname,
      leaksRelated := (f nd).leaksRelated })
    (named : (f nd).klass = none → (f nd).classname = none)
    (tracks : Tracks p.ledger (blocksIn p.nodes + k) l (blocksIn (p.nodes.modify a f) + k')) :
    Prints p k { p with nodes := p.nodes.modify a f, ledger := l } k' where
  names b nd' h hklass := by
    rw [CHeap.get?_modify] at h
    split_ifs at h with hb
    · subst hb
      rw [hnd] at h
      obtain rfl := Option.some.inj h
      exact named hklass
    · exact names b nd' h hklass
  printed :=
    { dom := rfl
      node := fun b x hx => by
        by_cases hb : b = a
        · subst hb
          obtain rfl := Option.some.inj (hnd.symm.trans hx)
          exact ⟨f nd, by rw [CHeap.get?_modify_self, hnd, Option.map_some], eq⟩
        · exact ⟨x, by rw [CHeap.get?_modify_of_ne _ hb, hx], rfl⟩ }
  tracks := tracks

/-- A node that is marked visited and unmarked again is as before. -/
theorem Printed.unmark {h h' : CHeap (MemoryNode Obj)} {a : ℕ} {nd : MemoryNode Obj}
    (hnd : h.get? a = some nd) (fresh : nd.visited = false) (printed : Printed (mark true h a) h') :
    Printed h (mark false h' a) where
  dom := printed.dom
  node b x hx := by
    unfold mark at printed ⊢
    by_cases hb : b = a
    · subst hb
      obtain rfl := Option.some.inj (hnd.symm.trans hx)
      obtain ⟨x', hx', heq⟩ := printed.node b { nd with visited := true } (by simp [hnd])
      refine ⟨{ x' with visited := false }, by simp [hx'], ?_⟩
      rw [heq]
      simp [← fresh]
    · obtain ⟨x', hx', heq⟩ := printed.node b x (by simp [CHeap.get?_modify_of_ne _ hb, hx])
      exact ⟨x', by simp [CHeap.get?_modify_of_ne _ hb, hx'], heq⟩

/-! ## Class names -/

/-- The name found is a block of the node. -/
theorem Prints.found {p : Printing Obj} {node k : ℕ} {nd : MemoryNode Obj} (jvm : Jvm Obj) (o : Obj)
    (names : NamesOk p.nodes) (hnd : p.nodes.get? node = some nd) (unnamed : nd.classname = none) :
    Prints p k { p with
      nodes := p.nodes.modify node fun nd => { nd with
        obj := some o, klass := some (jvm.classOf o)
        classname := some (jvm.className (jvm.classOf o)) }
      ledger := p.ledger.alloc 1 } k := by
  refine .modify names hnd rfl (fun hnone => nomatch hnone) ?_
  rw [blocksIn_modify_gain 1 hnd, Nat.add_right_comm]
  · exact .alloc _ _ 1
  · simp only [MemoryNode.blocks, MemoryNode.namedBlocks, unnamed]
    simp only [Option.isSome_some, Option.isSome_none, if_true, Bool.false_eq_true, if_false]
    omega

/-- A node whose object is found dead keeps its blocks. -/
theorem Prints.dead {p : Printing Obj} {node k : ℕ} {nd : MemoryNode Obj} (names : NamesOk p.nodes)
    (hnd : p.nodes.get? node = some nd) (unnamed : nd.classname = none) :
    Prints p k { p with
      nodes := p.nodes.modify node fun nd => { nd with dead := true }, ledger := p.ledger } k := by
  have same : blocksIn (p.nodes.modify node fun nd => { nd with dead := true }) =
      blocksIn p.nodes := blocksIn_modify_same node fun _ => rfl
  exact .modify names hnd rfl (fun _ => unnamed) (same ▸ .refl _ _)

/-- Looking up the class of a node. -/
theorem fillClassInMemoryNodeCounted_prints {jvm : Jvm Obj} {objectsWithTag : ℕ → List Obj}
    {node k : ℕ} {p p' : Printing Obj} (names : NamesOk p.nodes)
    (h : fillClassInMemoryNodeCounted jvm objectsWithTag node p = .ok p') :
    Prints p k p' k ∧ fillClassInMemoryNode jvm objectsWithTag node p.nodes = .ok p'.nodes ∧
      p'.cells = p.cells := by
  unfold fillClassInMemoryNodeCounted at h
  obtain ⟨nodes, hfill, h⟩ := Run.bind_eq_ok.1 h
  obtain ⟨nd, hnd, h⟩ := Run.bind_eq_ok.1 h
  cases h
  refine ⟨?_, hfill, rfl⟩
  unfold fillClassInMemoryNode at hfill
  rw [hnd, Run.ok_bind] at hfill
  have hget := deref_eq_ok.1 hnd
  cases hdead : nd.dead with
  | true =>
    simp only [hdead, if_true] at hfill
    cases hfill
    simpa [hdead] using Prints.refl names k
  | false =>
  cases hklass : nd.klass with
  | some klass =>
    simp only [hdead, hklass, Option.isSome_some, if_true, Bool.false_eq_true, if_false] at hfill
    cases hfill
    simpa [hdead, hklass] using Prints.refl names k
  | none =>
  have unnamed := names node nd hget hklass
  simp only [hdead, hklass, Option.isSome_none, Bool.false_eq_true, if_false] at hfill
  cases hobj : nd.obj with
  | some o =>
    rw [hobj] at hfill
    cases hfill
    simpa [hdead, hklass, hobj] using Prints.found jvm o names hget unnamed
  | none =>
  rw [hobj] at hfill
  rcases htag : objectsWithTag node with _ | ⟨o, _ | ⟨o', os⟩⟩
  · rw [htag] at hfill
    cases hfill
    simpa [hdead, hklass, hobj, htag] using Prints.dead names hget unnamed
  · rw [htag] at hfill
    cases hfill
    simpa [hdead, hklass, hobj, htag] using Prints.found jvm o names hget unnamed
  · rw [htag] at hfill
    cases hfill

/-! ## Chains -/

/-- A search has found no chain, or one whose cells are blocks of their own. -/
def ChainPrints (p : Printing Obj) (orderedRefs : Option ℕ) (p' : Printing Obj) : Prop :=
  match orderedRefs with
  | none => Prints p 0 p' 0
  | some last => ∃ path, Ring p'.cells last path ∧ Prints p 0 p' path.length

theorem ChainPrints.after {p p₁ p' : Printing Obj} {orderedRefs : Option ℕ}
    (first : Prints p 0 p₁ 0) (rest : ChainPrints p₁ orderedRefs p') :
    ChainPrints p orderedRefs p' := by
  cases orderedRefs with
  | none => exact first.trans rest
  | some last =>
    obtain ⟨path, ring, prints⟩ := rest
    exact ⟨path, ring, first.trans prints⟩

theorem ChainPrints.names {p p' : Printing Obj} {orderedRefs : Option ℕ}
    (prints : ChainPrints p orderedRefs p') : NamesOk p'.nodes := by
  cases orderedRefs with
  | none => exact Prints.names prints
  | some last =>
    obtain ⟨_, _, prints⟩ := prints
    exact prints.names

/-- The number of cells of the chain that a search has found. -/
def chainLength (p : Printing Obj) (orderedRefs : Option ℕ) : ℕ :=
  (orderedRefs.bind (printedChain p.toChainState)).elim 0 List.length

/-- The blocks left by a search are the cells of its chain. -/
theorem ChainPrints.prints {p p' : Printing Obj} {orderedRefs : Option ℕ}
    (searched : ChainPrints p orderedRefs p') : Prints p 0 p' (chainLength p' orderedRefs) := by
  cases orderedRefs with
  | none => exact searched
  | some last =>
    obtain ⟨path, ring, prints⟩ := searched
    have length : chainLength p' (some last) = path.length := by
      rw [chainLength, Option.bind_some, ring.printedChain, Option.elim_some]
    rwa [length]

/-- The counted search does what the search does, and counts its cells. -/
def Follows (visit : ℕ → Printing Obj → Except Fault (Option ℕ × Printing Obj))
    (plain : ℕ → ChainState Obj → Except Fault (Option ℕ × ChainState Obj)) : Prop :=
  ∀ next p orderedRefs p', NamesOk p.nodes → visit next p = .ok (orderedRefs, p') →
    ChainPrints p orderedRefs p' ∧
      plain next p.toChainState = .ok (orderedRefs, p'.toChainState)

/-- Taking a leak from a node. -/
theorem Prints.unlabel {p : Printing Obj} (names : NamesOk p.nodes) (node leakNumber k : ℕ) :
    Prints p k { p with nodes := p.nodes.modify node fun nd =>
      { nd with leaksRelated := nd.leaksRelated.remove leakNumber } } k := by
  have blocks : ∀ nd : MemoryNode Obj, MemoryNode.blocks
      { nd with leaksRelated := nd.leaksRelated.remove leakNumber } = nd.blocks := fun nd => by
    simp only [MemoryNode.blocks, MemoryNode.namedBlocks, BitmaskSet.size_remove]
  have same : blocksIn (p.nodes.modify node fun nd =>
      { nd with leaksRelated := nd.leaksRelated.remove leakNumber }) = blocksIn p.nodes :=
    blocksIn_modify_same node blocks
  rcases hnd : p.nodes.get? node with _ | nd
  · rw [p.nodes.modify_eq_self fun x hx => by rw [hnd] at hx; cases hx]
    exact .refl names k
  · exact .modify names hnd rfl (names node nd hnd) (same ▸ .refl _ _)

theorem scanReferencesCounted_follows {g : GlobalData} {leakNumber node : ℕ}
    {visit : ℕ → Printing Obj → Except Fault (Option ℕ × Printing Obj)}
    {plain : ℕ → ChainState Obj → Except Fault (Option ℕ × ChainState Obj)}
    (follows : Follows visit plain) {refs : List MemoryReferer} {p p' : Printing Obj}
    {orderedRefs : Option ℕ} (names : NamesOk p.nodes)
    (h : scanReferencesCounted g leakNumber visit node refs p = .ok (orderedRefs, p')) :
    ChainPrints p orderedRefs p' ∧
      scanReferences g leakNumber plain node refs p.toChainState =
        .ok (orderedRefs, p'.toChainState) := by
  induction refs generalizing p with
  | nil =>
    cases h
    exact ⟨Prints.refl names 0, rfl⟩
  | cons ref rest ih =>
    unfold scanReferencesCounted at h
    unfold scanReferences
    split_ifs at h ⊢ with hconsidered hroot
    · exact ih names h
    · cases hnode : ref.node with
      | none =>
        rw [hnode] at h
        cases h
      | some next =>
        rw [hnode] at h
        obtain ⟨⟨found, p₁⟩, hvisit, h⟩ := Run.bind_eq_ok.1 h
        obtain ⟨visited, hplain⟩ := follows next p found p₁ names hvisit
        dsimp only
        rw [hplain, Run.ok_bind]
        cases found with
        | none =>
          have unlabel := Prints.unlabel visited.names node leakNumber 0
          obtain ⟨hrest, hrest'⟩ := ih unlabel.names h
          exact ⟨hrest.after (Prints.trans visited unlabel), hrest'⟩
        | some last =>
          cases h
          obtain ⟨path, ring, prints⟩ := visited
          refine ⟨⟨ref :: path, ring.insertAfter ref, prints.trans ?_⟩, rfl⟩
          exact .of_nodes_eq prints.names (nodes_insertAfter _ last ref) (.alloc _ _ 1)
    · cases h
      refine ⟨⟨[ref], ring_single p.toChainState ref, ?_⟩, rfl⟩
      exact .of_nodes_eq names rfl (.alloc _ _ 1)

theorem namesOk_mark {h : CHeap (MemoryNode Obj)} (visited : Bool) (a : ℕ) (names : NamesOk h) :
    NamesOk (mark visited h a) := by
  intro b nd' hnd' hklass
  rw [mark, CHeap.get?_modify] at hnd'
  split_ifs at hnd'
  · obtain ⟨nd, hnd, rfl⟩ := Option.map_eq_some_iff.1 hnd'
    exact names b nd hnd hklass
  · exact names b nd' hnd' hklass

theorem blocksIn_mark (visited : Bool) (h : CHeap (MemoryNode Obj)) (a : ℕ) :
    blocksIn (mark visited h a) = blocksIn h := blocksIn_modify_same a fun _ => rfl

/-- What is printed while a node is marked visited. -/
theorem ChainPrints.unmark {p p' : Printing Obj} {a : ℕ} {nd : MemoryNode Obj}
    {orderedRefs : Option ℕ} (hnd : p.nodes.get? a = some nd) (fresh : nd.visited = false)
    (prints : ChainPrints { p with nodes := mark true p.nodes a } orderedRefs p') :
    ChainPrints p orderedRefs { p' with nodes := mark false p'.nodes a } := by
  have unmark : ∀ k, Prints { p with nodes := mark true p.nodes a } 0 p' k →
      Prints p 0 { p' with nodes := mark false p'.nodes a } k := by
    intro k prints
    refine ⟨namesOk_mark false a prints.names, prints.printed.unmark hnd fresh, ?_⟩
    have tracks := prints.tracks
    simp only [blocksIn_mark] at tracks ⊢
    exact tracks
  cases orderedRefs with
  | none => exact unmark 0 prints
  | some last =>
    obtain ⟨path, ring, prints⟩ := prints
    exact ⟨path, ring, unmark _ prints⟩

theorem generateReferencesChainForNodeCounted_follows (env : Agent Obj)
    (objectsWithTag : ℕ → List Obj) (leakNumber fuel : ℕ) :
    Follows
      (fun node p =>
        generateReferencesChainForNodeCounted env objectsWithTag fuel node leakNumber p)
      (fun node st => generateReferencesChainForNode env objectsWithTag fuel node leakNumber st) := by
  induction fuel with
  | zero =>
    intro node p orderedRefs p' _ h
    cases h
  | succ fuel ih =>
    intro node p orderedRefs p' names h
    dsimp only at h ⊢
    unfold generateReferencesChainForNodeCounted at h
    unfold generateReferencesChainForNode
    obtain ⟨nd, hnd, h⟩ := Run.bind_eq_ok.1 h
    rw [hnd, Run.ok_bind]
    split_ifs at h ⊢ with hvisited hcontains
    · cases h
      exact ⟨Prints.refl names 0, rfl⟩
    · cases h
      exact ⟨Prints.refl names 0, rfl⟩
    obtain ⟨p₁, hfill, h⟩ := Run.bind_eq_ok.1 h
    obtain ⟨nd₁, hnd₁, h⟩ := Run.bind_eq_ok.1 h
    have hget := deref_eq_ok.1 hnd
    have fresh : nd.visited = false := by simpa using hvisited
    have marked := namesOk_mark true node names
    obtain ⟨filled, hplain, hcells⟩ :=
      fillClassInMemoryNodeCounted_prints (k := 0) (p := { p with nodes := mark true p.nodes node })
        marked hfill
    have hplain' : fillClassInMemoryNode env.jvm objectsWithTag node
        (p.nodes.modify node fun nd => { nd with visited := true }) = .ok p₁.nodes := hplain
    have hcells' : p₁.cells = p.cells := hcells
    dsimp only
    rw [hplain', Run.ok_bind, hnd₁, Run.ok_bind]
    cases hdead : nd₁.dead with
    | true =>
      simp only [hdead, Bool.not_true, Bool.false_eq_true, if_false, Run.ok_bind] at h ⊢
      cases h
      rw [← hcells']
      exact ⟨ChainPrints.unmark hget fresh (show ChainPrints _ none p₁ from filled), rfl⟩
    | false =>
      simp only [hdead, Bool.not_false, if_true] at h ⊢
      obtain ⟨⟨found, p₂⟩, hscan, h⟩ := Run.bind_eq_ok.1 h
      cases h
      obtain ⟨scanned, hscan'⟩ := scanReferencesCounted_follows ih filled.names hscan
      rw [← hcells', hscan', Run.ok_bind]
      exact ⟨(scanned.after filled).unmark hget fresh, rfl⟩

/-! ## References -/

/-- The elements of a leaking object are echoed. -/
theorem echoLeak_prints {p : Printing Obj} {k : ℕ} (names : NamesOk p.nodes)
    (values : List (List Char)) (elements : List (List (List Char))) :
    Prints p k
      { p with ledger := elements.foldl Ledger.echoXmlElement (p.ledger.echoXmlElement values) }
      k := by
  refine .of_nodes_eq names rfl ((tracks_echoXmlElement p.ledger _ values).trans ?_)
  exact .foldl (fun l values => tracks_echoXmlElement l _ values) _ _

section

variable [DecidableEq Obj] {d : JvmDump Obj} {objectsWithTag : ℕ → List Obj} {k : ℕ}
  {p p' : Printing Obj}

/-- A text made with the name of a field, which is freed when the text is made. -/
theorem tracks_fieldText (l : Ledger) (n : ℕ) (H : ClassHierarchy Obj) (klass : Obj) (idx : ℤ) :
    Tracks l n
      (if (l.getFieldNameByIndex H klass idx).1
        then ((l.getFieldNameByIndex H klass idx).2.alloc 1).free 1
        else (l.getFieldNameByIndex H klass idx).2.alloc 1) (n + 1) := by
  have named := tracks_getFieldNameByIndex l n H klass idx
  split_ifs at named ⊢
  · exact (named.trans (.alloc _ _ 1)).trans (.free _ (n + 1) 1)
  · exact named.trans (.alloc _ _ 1)

/-- The text of a JNI local reference that the next case replaces. -/
theorem tracks_lostText (l : Ledger) (n : ℕ) :
    Tracks l n { l.alloc 1 with jniLocals := l.jniLocals + 1 } n where
  owed := by
    simp only [Ledger.owed, Ledger.alloc, Counters.count]
    omega
  jniLocals := Nat.le_succ _

theorem printSingleReference_prints {ref : MemoryReferer} (names : NamesOk p.nodes)
    (h : printSingleReference d objectsWithTag p ref = .ok p') : Prints p k p' k := by
  unfold printSingleReference at h
  obtain ⟨p₁, hfill, h⟩ := Run.bind_eq_ok.1 h
  have filled : Prints p k p₁ k := by
    cases hnode : ref.node with
    | none =>
      rw [hnode] at hfill
      cases hfill
      exact .refl names k
    | some node =>
      rw [hnode] at hfill
      exact (fillClassInMemoryNodeCounted_prints names hfill).1
  apply filled.trans
  have ledger : ∀ l, Tracks p₁.ledger (blocksIn p₁.nodes + k) l (blocksIn p₁.nodes + k) →
      Prints p₁ k { p₁ with ledger := l } k :=
    fun l tracks => .of_nodes_eq filled.names rfl tracks
  have message : ∀ l, Tracks p₁.ledger (blocksIn p₁.nodes + k) l (blocksIn p₁.nodes + k + 1) →
      Prints p₁ k { p₁ with ledger := l.printMessage (d.location ref) } k :=
    fun l tracks => ledger _ (tracks.trans (tracks_printMessage l _ _))
  cases hkind : ref.kind <;> simp only [hkind] at h
  case staticField =>
    obtain ⟨nd, -, h⟩ := Run.bind_eq_ok.1 h
    cases hobj : nd.obj with
    | none =>
      rw [hobj] at h
      cases h
    | some klass =>
      rw [hobj] at h
      cases h
      refine message _ (((Tracks.alloc _ _ 1).trans ?_).trans (.free _ _ 1))
      exact tracks_fieldText _ _ _ _ _
  case field =>
    obtain ⟨nd, -, h⟩ := Run.bind_eq_ok.1 h
    cases hklass : nd.klass with
    | none =>
      rw [hklass] at h
      cases h
    | some klass =>
      rw [hklass] at h
      cases h
      exact message _ (tracks_fieldText _ _ _ _ _)
  case stackLocal =>
    cases h
    exact message _ (((Tracks.alloc _ _ 1).trans (.alloc _ _ 1)).trans (.free _ _ 1))
  case jniLocal =>
    cases h
    exact message _ ((tracks_lostText _ _).trans (.alloc _ _ 1))
  case arrayElement =>
    obtain ⟨nd, -, h⟩ := Run.bind_eq_ok.1 h
    cases hclassname : nd.classname with
    | none =>
      rw [hclassname] at h
      cases h
    | some classname =>
      rw [hclassname] at h
      cases h
      exact message _ (.alloc _ _ 1)
  case constantPool | jniGlobal | systemClass | monitor | thread | other =>
    cases h
    exact message _ (.alloc _ _ 1)
  case klass | classLoader | signers | protectionDomain | interface | superclass =>
    cases h
    exact .refl filled.names k

theorem foldlM_printSingleReference_prints {refs : List MemoryReferer} (names : NamesOk p.nodes)
    (h : refs.foldlM (printSingleReference d objectsWithTag) p = .ok p') : Prints p k p' k := by
  induction refs generalizing p with
  | nil =>
    cases h
    exact .refl names k
  | cons ref rest ih =>
    obtain ⟨p₁, first, hrest⟩ := Run.foldlM_cons_eq_ok.1 h
    have printed : Prints p k p₁ k := printSingleReference_prints names first
    exact printed.trans (ih printed.names hrest)

/-- A chain is printed and its cells are freed. -/
theorem printChainCells_prints {refs : List MemoryReferer} (names : NamesOk p.nodes)
    (h : printChainCells d objectsWithTag refs p = .ok p') : Prints p (k + refs.length) p' k := by
  unfold printChainCells at h
  induction refs generalizing p with
  | nil =>
    cases h
    exact .refl names k
  | cons ref rest ih =>
    obtain ⟨p₁, first, hrest⟩ := Run.foldlM_cons_eq_ok.1 h
    obtain ⟨p₂, hprint, hfree⟩ := Run.bind_eq_ok.1 first
    cases hfree
    have printed : Prints p (k + rest.length + 1) p₂ (k + rest.length + 1) :=
      printSingleReference_prints names hprint
    have freed : Prints p₂ (k + rest.length + 1) { p₂ with ledger := p₂.ledger.free 1 }
        (k + rest.length) := .of_nodes_eq printed.names rfl (.free _ _ 1)
    exact (printed.trans freed).trans (ih printed.names hrest)

/-- A chain that is found is printed and freed, and no block is left of it. -/
theorem printLeakCounted_prints {env : Agent Obj} {fuel : ℕ} {isNeedReferences : Bool}
    {leak : LeakingNode} (names : NamesOk p.nodes)
    (h : printLeakCounted d env objectsWithTag fuel isNeedReferences p leak = .ok p') :
    Prints p 0 p' 0 := by
  unfold printLeakCounted at h
  obtain ⟨⟨orderedRefs, p₁⟩, hsearch, h⟩ := Run.bind_eq_ok.1 h
  have searched : ChainPrints p orderedRefs p₁ := by
    split_ifs at hsearch
    · exact (generateReferencesChainForNodeCounted_follows env objectsWithTag leak.leakNumber fuel
        leak.node p orderedRefs p₁ names hsearch).1
    · cases hsearch
      exact Prints.refl names 0
  have needed : isNeedReferences = false → orderedRefs = none := by
    rintro rfl
    cases hsearch
    rfl
  -- the blocks of the chain beside those of the nodes
  have chained := searched.prints
  dsimp only at h
  by_cases hprint : (orderedRefs.isSome || env.gdata.showUnreachables) = true
  swap
  · rw [if_neg hprint] at h
    cases h
    cases orderedRefs with
    | none => exact chained
    | some last => exact absurd rfl hprint
  rw [if_pos hprint] at h
  obtain ⟨p₂, hfill, h⟩ := Run.bind_eq_ok.1 h
  obtain ⟨n, -, h⟩ := Run.bind_eq_ok.1 h
  have filled := (fillClassInMemoryNodeCounted_prints (k := chainLength p₁ orderedRefs)
    chained.names hfill).1
  cases hclassname : n.classname with
  | none =>
    rw [hclassname] at h
    cases h
  | some classname =>
  cases hobj : n.obj with
  | none =>
    rw [hclassname, hobj] at h
    cases h
  | some obj =>
  rw [hclassname, hobj] at h
  dsimp only at h
  have echoed := echoLeak_prints (k := chainLength p₁ orderedRefs) filled.names
    [classname.toList, (toString leak.leakSize).toList] (d.elements obj)
  apply ((chained.trans filled).trans echoed).trans
  cases hneed : isNeedReferences with
  | true =>
    rw [if_pos hneed] at h
    cases hchain : orderedRefs.bind (printedChain p₁.toChainState) with
    | none =>
      rw [hchain] at h
      rw [chainLength, hchain]
      exact foldlM_printSingleReference_prints echoed.names h
    | some refs =>
      rw [hchain] at h
      rw [chainLength, hchain, Option.elim_some, ← Nat.zero_add refs.length]
      exact printChainCells_prints echoed.names h
  | false =>
    obtain rfl := needed hneed
    rw [hneed] at h
    cases h
    exact .refl echoed.names 0

/-- `printReferencesChainForLeakingNodes`. -/
theorem foldlM_printLeakCounted_prints {env : Agent Obj} {fuel : ℕ} {isNeedReferences : Bool}
    {lst : List LeakingNode} (names : NamesOk p.nodes)
    (h : lst.foldlM (printLeakCounted d env objectsWithTag fuel isNeedReferences) p = .ok p') :
    Prints p 0 p' 0 := by
  induction lst generalizing p with
  | nil =>
    cases h
    exact .refl names 0
  | cons leak rest ih =>
    obtain ⟨p₁, first, hrest⟩ := Run.foldlM_cons_eq_ok.1 h
    have printed := printLeakCounted_prints names first
    exact printed.trans (ih printed.names hrest)

end

end JLeaker
