import JLeaker.Model.PrintReference
import JLeaker.Proof.Finished
import JLeaker.Proof.RepeatedSearch

/-!
# Referrers that died

A referrer may be collected before the chains are printed.  `fillClassInMemoryNode` then marks its node
dead and leaves it without a class.  The search enters live nodes only, but nothing looks at the mark
where a root reference of a chain or the references of an unreachable object are printed.
-/

namespace JLeaker

open DeadEnds

variable {Obj : Type} {objectsWithTag : ℕ → List Obj} {leakNumber : ℕ}
  {h h' : CHeap (MemoryNode Obj)}

/-! ## What is known of a node -/

/-- A dead node knows nothing, a node with a class knows its name and its object. -/
structure Named (nd : MemoryNode Obj) : Prop where
  dead : nd.dead = true → nd.klass = none ∧ nd.obj = none
  classname : nd.classname.isSome = nd.klass.isSome
  obj : nd.klass.isSome = true → nd.obj.isSome = true

/-- All nodes are so. -/
def AllNamed (h : CHeap (MemoryNode Obj)) : Prop := ∀ a nd, h.get? a = some nd → Named nd

theorem AllNamed.modify (named : AllNamed h) (a : ℕ) {f : MemoryNode Obj → MemoryNode Obj}
    (keeps : ∀ nd, h.get? a = some nd → Named (f nd)) : AllNamed (h.modify a f) := by
  intro b nd' hnd'
  rw [h.get?_modify] at hnd'
  split_ifs at hnd' with hb
  · subst hb
    obtain ⟨nd, hnd, rfl⟩ := Option.map_eq_some_iff.1 hnd'
    exact keeps nd hnd
  · exact named b nd' hnd'

/-- What `fillClassInMemoryNode` has found out. -/
structure LooksUp (jvm : Jvm Obj) (objectsWithTag : ℕ → List Obj) (a : ℕ)
    (h h' : CHeap (MemoryNode Obj)) : Prop where
  named : AllNamed h → AllNamed h'
  known : ∀ nd', h'.get? a = some nd' → nd'.dead = false → nd'.klass.isSome = true

theorem fillClassInMemoryNode_looksUp {jvm : Jvm Obj} {a : ℕ}
    (run : fillClassInMemoryNode jvm objectsWithTag a h = .ok h') :
    LooksUp jvm objectsWithTag a h h' := by
  unfold fillClassInMemoryNode at run
  obtain ⟨nd, hnd, run⟩ := Run.bind_eq_ok.1 run
  rw [deref_eq_ok] at hnd
  split_ifs at run with hdead hklass
  · cases run
    refine ⟨id, fun nd' hnd' halive => ?_⟩
    obtain rfl := Option.some.inj (hnd.symm.trans hnd')
    rw [hdead] at halive
    cases halive
  · cases run
    refine ⟨id, fun nd' hnd' _ => ?_⟩
    obtain rfl := Option.some.inj (hnd.symm.trans hnd')
    exact hklass
  -- the object is known, or it is the one that carries the tag
  have found : ∀ o, LooksUp jvm objectsWithTag a h (h.modify a fun nd => { nd with
      obj := some o, klass := some (jvm.classOf o)
      classname := some (jvm.className (jvm.classOf o)) }) := by
    intro o
    refine ⟨fun named => named.modify a fun x hx => ?_, fun nd' hnd' _ => ?_⟩
    · obtain rfl := Option.some.inj (hnd.symm.trans hx)
      exact ⟨fun hd => absurd hd hdead, rfl, fun _ => rfl⟩
    · rw [h.get?_modify_self, hnd] at hnd'
      obtain rfl := Option.some.inj hnd'
      rfl
  rcases hobj : nd.obj with _ | o
  · rcases htag : objectsWithTag a with _ | ⟨o, _ | ⟨o', os⟩⟩
    · rw [hobj, htag] at run
      cases run
      refine ⟨fun named => named.modify a fun x hx => ?_, fun nd' hnd' halive => ?_⟩
      · obtain rfl := Option.some.inj (hnd.symm.trans hx)
        have old := named a nd hnd
        exact ⟨fun _ => ⟨by simpa using hklass, hobj⟩, old.classname, old.obj⟩
      · rw [h.get?_modify_self, hnd] at hnd'
        obtain rfl := Option.some.inj hnd'
        cases halive
    · rw [hobj, htag] at run
      cases run
      exact found o
    · rw [hobj, htag] at run
      cases run
  · rw [hobj] at run
    cases run
    exact found o

/-! ## The search -/

/-- What the steps of a search keep of the nodes. -/
structure SearchStepsKeep (jvm : Jvm Obj) (objectsWithTag : ℕ → List Obj) (leakNumber : ℕ)
    (P : CHeap (MemoryNode Obj) → Prop) : Prop where
  fill : ∀ a h h', P h → fillClassInMemoryNode jvm objectsWithTag a h = .ok h' → P h'
  mark : ∀ visited a h, P h → P (mark visited h a)
  unlabel : ∀ a h, P h → P (h.modify a fun nd =>
    { nd with leaksRelated := nd.leaksRelated.remove leakNumber })

theorem scanReferences_keeps (g : GlobalData) {P : CHeap (MemoryNode Obj) → Prop}
    (unlabel : ∀ a h, P h → P (h.modify a fun nd =>
      { nd with leaksRelated := nd.leaksRelated.remove leakNumber }))
    {visit : ℕ → ChainState Obj → Except Fault (Option ℕ × ChainState Obj)}
    (hvisit : ∀ b st r st', visit b st = .ok (r, st') → P st.nodes → P st'.nodes) (node : ℕ)
    (l : List MemoryReferer) (st : ChainState Obj) {r : Option ℕ} {st' : ChainState Obj}
    (run : scanReferences g leakNumber visit node l st = .ok (r, st')) (init : P st.nodes) :
    P st'.nodes := by
  induction l generalizing st with
  | nil =>
    cases run
    exact init
  | cons ref rest ih =>
    rw [scanReferences] at run
    split_ifs at run with hignored hnode
    · exact ih st run init
    · split at run
      · cases run
      · rename_i next _
        obtain ⟨⟨res, st₁⟩, hcall, hrest⟩ := Run.bind_eq_ok.1 run
        have kept := hvisit next st res st₁ hcall init
        cases res with
        | none => exact ih _ hrest (unlabel node _ kept)
        | some last =>
          cases hrest
          rwa [nodes_insertAfter]
    · cases run
      exact init

theorem generateReferencesChainForNode_keeps (env : Agent Obj) {P : CHeap (MemoryNode Obj) → Prop}
    (steps : SearchStepsKeep env.jvm objectsWithTag leakNumber P) (fuel : ℕ) :
    ∀ a st r st', generateReferencesChainForNode env objectsWithTag fuel a leakNumber st =
      .ok (r, st') → P st.nodes → P st'.nodes := by
  induction fuel with
  | zero =>
    intro a st r st' run
    cases run
  | succ fuel ih =>
    intro a st r st' run init
    rw [generateReferencesChainForNode] at run
    obtain ⟨nd, -, run⟩ := Run.bind_eq_ok.1 run
    split_ifs at run with hvis hcarry
    · cases run
      exact init
    · cases run
      exact init
    obtain ⟨nodes₁, hfill, run⟩ := Run.bind_eq_ok.1 run
    obtain ⟨nd₁, -, run⟩ := Run.bind_eq_ok.1 run
    have filled : P nodes₁ := steps.fill a _ _ (steps.mark true a _ init) hfill
    dsimp only at run
    split_ifs at run with hdead
    · obtain ⟨⟨res, st₂⟩, hscan, hrest⟩ := Run.bind_eq_ok.1 run
      have scanned : P st₂.nodes := scanReferences_keeps env.gdata steps.unlabel ih a nd₁.start
        { st with nodes := nodes₁ } hscan filled
      cases hrest
      exact steps.mark false a _ scanned
    · cases run
      exact steps.mark false a _ filled

theorem searchStepsKeep_allNamed (jvm : Jvm Obj) (objectsWithTag : ℕ → List Obj) (leakNumber : ℕ) :
    SearchStepsKeep jvm objectsWithTag leakNumber AllNamed where
  fill _ _ _ named run := (fillClassInMemoryNode_looksUp run).named named
  mark _ a _ named := named.modify a fun nd hnd =>
    ⟨(named a nd hnd).dead, (named a nd hnd).classname, (named a nd hnd).obj⟩
  unlabel a _ named := named.modify a fun nd hnd =>
    ⟨(named a nd hnd).dead, (named a nd hnd).classname, (named a nd hnd).obj⟩

/-! ## One reference -/

/-- The texts of these kinds name the referrer. -/
def NamesReferrer (kind : HeapReferenceKind) : Prop :=
  kind = .staticField ∨ kind = .field ∨ kind = .arrayElement

/-- If the text of the reference names the referrer, the referrer is alive. -/
def ReferrerAlive (objectsWithTag : ℕ → List Obj) (h : CHeap (MemoryNode Obj))
    (ref : MemoryReferer) : Prop :=
  NamesReferrer ref.kind → ∃ b, ref.node = some b ∧ Live objectsWithTag h b

theorem GraphFrame.live_iff (frame : GraphFrame objectsWithTag leakNumber h h') (a : ℕ) :
    Live objectsWithTag h' a ↔ Live objectsWithTag h a := by
  constructor
  · rintro ⟨nd', hnd', live⟩
    obtain ⟨nd, hnd, hframe⟩ := frame.node_back hnd'
    exact ⟨nd, hnd, hframe.live ▸ live⟩
  · rintro ⟨nd, hnd, live⟩
    obtain ⟨nd', hnd', hframe⟩ := frame.node a nd hnd
    exact ⟨nd', hnd', hframe.live.trans live⟩

theorem GraphFrame.referrerAlive_iff (frame : GraphFrame objectsWithTag leakNumber h h')
    (ref : MemoryReferer) : ReferrerAlive objectsWithTag h' ref ↔ ReferrerAlive objectsWithTag h ref := by
  unfold ReferrerAlive
  simp only [frame.live_iff]

/-- A step of printing returns if and only if `alive` holds, and keeps the graph. -/
structure PrintsIf {β σ : Type} (nodes : σ → CHeap (MemoryNode Obj)) (objectsWithTag : ℕ → List Obj)
    (leakNumber : ℕ) (h : CHeap (MemoryNode Obj)) (alive : Prop) (x : Except Fault (β × σ)) : Prop where
  returns : alive → ∃ printed st', x = .ok (printed, st') ∧
    GraphFrame objectsWithTag leakNumber h (nodes st') ∧ AllNamed (nodes st')
  only : ∀ r, x = .ok r → alive

/-- The node of a referrer that was looked up just before. -/
theorem lookup_cases (pr : Printer Obj) (leakNumber : ℕ) (ok : GraphOk objectsWithTag h)
    (named : AllNamed h) {a : ℕ} (ha : a ∈ h.dom) :
    ∃ h' nd', fillClassInMemoryNode pr.jvm objectsWithTag a h = .ok h' ∧
      GraphFrame objectsWithTag leakNumber h h' ∧ AllNamed h' ∧ h'.get? a = some nd' ∧
      (Live objectsWithTag h a ∧ nd'.klass.isSome = true ∧ nd'.obj.isSome = true ∧
          nd'.classname.isSome = true ∨
        ¬ Live objectsWithTag h a ∧ nd'.klass = none ∧ nd'.obj = none ∧ nd'.classname = none) := by
  obtain ⟨nd, hnd⟩ := h.exists_get?_of_mem ha
  obtain ⟨h', hrun, filled⟩ := fillClassInMemoryNode_spec leakNumber pr.jvm hnd (ok.unique a nd hnd)
  obtain ⟨nd', hnd', -, hdead, -⟩ := filled.node
  have looked := fillClassInMemoryNode_looksUp hrun
  have hnamed := looked.named named a nd' hnd'
  refine ⟨h', nd', hrun, filled.graphFrame hnd, looked.named named, hnd', ?_⟩
  by_cases hlive : nd.live objectsWithTag a = true
  · have hklass := looked.known nd' hnd' (by rw [hdead, hlive]; rfl)
    exact .inl ⟨⟨nd, hnd, hlive⟩, hklass, hnamed.obj hklass, hnamed.classname.trans hklass⟩
  · have hnone := hnamed.dead (by rw [hdead]; simpa using hlive)
    refine .inr ⟨?_, hnone.1, hnone.2, ?_⟩
    · rintro ⟨x, hx, hxlive⟩
      obtain rfl := Option.some.inj (hnd.symm.trans hx)
      exact hlive hxlive
    · have := hnamed.classname
      rw [hnone.1] at this
      simpa using this

variable [DecidableEq Obj]

theorem message_of_known (pr : Printer Obj) (ref : MemoryReferer)
    (known : NamesReferrer ref.kind → ∃ nd, h.get? (ref.node.getD 0) = some nd ∧
      nd.klass.isSome = true ∧ nd.obj.isSome = true ∧ nd.classname.isSome = true) :
    ∃ msg, pr.message h ref = .ok msg := by
  unfold Printer.message
  cases hkind : ref.kind
  case staticField | field | arrayElement =>
    obtain ⟨nd, hnd, hklass, hobj, hname⟩ := known (by simp [NamesReferrer, hkind])
    obtain ⟨klass, hklass⟩ := Option.isSome_iff_exists.1 hklass
    obtain ⟨o, hobj⟩ := Option.isSome_iff_exists.1 hobj
    obtain ⟨classname, hname⟩ := Option.isSome_iff_exists.1 hname
    simp only [deref_eq_ok.2 hnd, Run.ok_bind, hklass, hobj, hname]
    exact ⟨_, rfl⟩
  all_goals exact ⟨_, rfl⟩

theorem message_of_unknown (pr : Printer Obj) {ref : MemoryReferer} (names : NamesReferrer ref.kind)
    (unknown : ∀ nd, h.get? (ref.node.getD 0) = some nd →
      nd.klass = none ∧ nd.obj = none ∧ nd.classname = none) (msg : Option CString.Str) :
    pr.message h ref ≠ .ok msg := by
  unfold Printer.message deref
  rcases hnd : h.get? (ref.node.getD 0) with _ | nd
  · rcases names with hkind | hkind | hkind <;> simp [hkind]
  · obtain ⟨hklass, hobj, hname⟩ := unknown nd hnd
    rcases names with hkind | hkind | hkind <;> simp [hkind, hklass, hobj, hname]

/-- A reference is printed unless its text names a dead referrer. -/
theorem printSingleReference_printsIf (pr : Printer Obj) (leakNumber : ℕ)
    (ok : GraphOk objectsWithTag h) (named : AllNamed h) {ref : MemoryReferer}
    (target : ∀ b, ref.node = some b → b ∈ h.dom) :
    PrintsIf id objectsWithTag leakNumber h (ReferrerAlive objectsWithTag h ref)
      (pr.printSingleReference objectsWithTag h ref) := by
  unfold Printer.printSingleReference
  rcases hnode : ref.node with _ | b
  · rw [Option.elim_none, Run.ok_bind]
    constructor
    · intro alive
      have free : ¬ NamesReferrer ref.kind := fun names => by
        obtain ⟨b, hb, -⟩ := alive names
        rw [hnode] at hb
        cases hb
      obtain ⟨msg, hmsg⟩ := message_of_known (h := h) pr ref fun names => absurd names free
      rw [hmsg]
      exact ⟨_, h, rfl, .refl h, named⟩
    · rintro r hr names
      obtain ⟨msg, hmsg, -⟩ := Run.bind_eq_ok.1 hr
      refine absurd hmsg (message_of_unknown pr names (fun nd hnd => ?_) msg)
      rw [hnode, Option.getD_none] at hnd
      exact absurd (h.mem_dom_of_get? hnd) h.zero_notMem
  · obtain ⟨h', nd', hrun, frame, named', hnd', hcases⟩ :=
      lookup_cases pr leakNumber ok named (target b hnode)
    have hget : h'.get? (ref.node.getD 0) = some nd' := by rw [hnode, Option.getD_some, hnd']
    rw [Option.elim_some, hrun, Run.ok_bind]
    constructor
    · intro alive
      obtain ⟨msg, hmsg⟩ := message_of_known (h := h') pr ref fun names => by
        obtain ⟨c, hc, live⟩ := alive names
        obtain rfl := Option.some.inj (hnode.symm.trans hc)
        rcases hcases with ⟨-, known⟩ | ⟨dead, -⟩
        · exact ⟨nd', hget, known⟩
        · exact absurd live dead
      rw [hmsg]
      exact ⟨_, h', rfl, frame, named'⟩
    · rintro r hr names
      refine ⟨b, hnode, ?_⟩
      rcases hcases with ⟨live, -⟩ | ⟨-, unknown⟩
      · exact live
      · obtain ⟨msg, hmsg, -⟩ := Run.bind_eq_ok.1 hr
        refine absurd hmsg (message_of_unknown pr names (fun nd hnd => ?_) msg)
        obtain rfl := Option.some.inj (hget.symm.trans hnd)
        exact unknown

/-- References are printed one after another unless the text of one names a dead referrer. -/
theorem printEach_printsIf (pr : Printer Obj) (leakNumber : ℕ) (refs : List MemoryReferer)
    (ok : GraphOk objectsWithTag h) (named : AllNamed h)
    (targets : ∀ ref ∈ refs, ∀ b, ref.node = some b → b ∈ h.dom) :
    PrintsIf id objectsWithTag leakNumber h (∀ ref ∈ refs, ReferrerAlive objectsWithTag h ref)
      (pr.printEach objectsWithTag refs h) := by
  induction refs generalizing h with
  | nil => exact ⟨fun _ => ⟨[], h, rfl, .refl h, named⟩, fun _ _ _ hr => by cases hr⟩
  | cons ref rest ih =>
    have first := printSingleReference_printsIf pr leakNumber ok named (targets ref List.mem_cons_self)
    rw [Printer.printEach, List.forall_mem_cons]
    by_cases alive : ReferrerAlive objectsWithTag h ref
    · obtain ⟨element, h₁, hrun, frame, named₁⟩ := first.returns alive
      simp only [id_eq] at frame named₁
      have later := ih (frame.graphOk ok) named₁ fun r hr b hb =>
        frame.dom ▸ targets r (List.mem_cons_of_mem _ hr) b hb
      simp only [frame.referrerAlive_iff] at later
      rw [hrun, Run.ok_bind]
      refine ⟨fun all => ?_, fun r hr => ⟨alive, ?_⟩⟩
      · obtain ⟨elements, h₂, hrest, frame₂, named₂⟩ := later.returns all.2
        refine ⟨element ++ elements, h₂, ?_, frame.trans frame₂, named₂⟩
        simp only [hrest, Run.ok_bind]
        rfl
      · obtain ⟨printed, hrest, -⟩ := Run.bind_eq_ok.1 hr
        exact later.only printed hrest
    · refine ⟨fun all => absurd all.1 alive, fun r hr => ?_⟩
      obtain ⟨printed, hfirst, -⟩ := Run.bind_eq_ok.1 hr
      exact absurd (first.only printed hfirst) alive

/-! ## The loop over the leaks -/

/-- The referrers that the texts printed for a leak name are alive: that of a static field at the end of
its chain, or those of the references to its object if they are printed for want of a chain. -/
structure NamedReferrersAlive (g : GlobalData) (objectsWithTag : ℕ → List Obj)
    (h : CHeap (MemoryNode Obj)) (leak : LeakingNode) : Prop where
  chain : ∀ path, FirstChain g (referencesOf h) (carriers objectsWithTag leak.leakNumber h) leak.node
    path → ∀ ref ∈ path, ref.kind = .staticField → ReferrerAlive objectsWithTag h ref
  references : g.showUnreachables = true →
    (¬ Leads (LinkedTo g (referencesOf h)) (HoldsRoot g (referencesOf h))
      (carriers objectsWithTag leak.leakNumber h) leak.node) →
    ∀ ref ∈ referencesOf h leak.node, ReferrerAlive objectsWithTag h ref

/-- What printing finds in the graph and keeps. -/
structure Printable (objectsWithTag : ℕ → List Obj) (leaks : List LeakingNode)
    (h : CHeap (MemoryNode Obj)) : Prop where
  clear : AllClear h
  ok : GraphOk objectsWithTag h
  named : AllNamed h
  targets : TargetsIn h
  leak : ∀ leak ∈ leaks, ∃ nd, h.get? leak.node = some nd ∧ nd.obj.isSome = true

variable {leaks : List LeakingNode} {leak : LeakingNode} {g : GlobalData}

omit [DecidableEq Obj] in
theorem GraphFrame.printable (frame : GraphFrame objectsWithTag leakNumber h h')
    (printable : Printable objectsWithTag leaks h) (named : AllNamed h') :
    Printable objectsWithTag leaks h' where
  clear := frame.allClear printable.clear
  ok := frame.graphOk printable.ok
  named := named
  targets := by
    unfold TargetsIn
    rw [frame.referencesOf_eq, frame.dom]
    exact printable.targets
  leak leak hleak := by
    obtain ⟨nd, hnd, hobj⟩ := printable.leak leak hleak
    obtain ⟨nd', hnd', hframe⟩ := frame.node _ nd hnd
    refine ⟨nd', hnd', ?_⟩
    by_contra hnone
    rw [hframe.known (by simpa using hnone)] at hobj
    cases hobj

omit [DecidableEq Obj] in
theorem Printable.live (printable : Printable objectsWithTag leaks h) (hleak : leak ∈ leaks) :
    Live objectsWithTag h leak.node := by
  obtain ⟨nd, hnd, hobj⟩ := printable.leak leak hleak
  refine ⟨nd, hnd, ?_⟩
  have notDead : nd.dead = false := by
    by_contra hdead
    have hnone := ((printable.named _ nd hnd).dead (by simpa using hdead)).2
    rw [hnone] at hobj
    cases hobj
  simp [MemoryNode.live, notDead, hobj]

omit [DecidableEq Obj] in
/-- A reference of a chain that is no root leads to a node the search has entered. -/
theorem FirstAmong.entered {refs : ℕ → List MemoryReferer} {A : Set ℕ} {l path : List MemoryReferer}
    (first : FirstAmong g refs A l path) :
    ∀ ref ∈ path, isRootReference ref.kind = false → ∃ b ∈ A, ref.node = some b := by
  induction first with
  | root _ isRoot =>
    intro ref href notRoot
    rw [List.mem_singleton.1 href, isRoot] at notRoot
    cases notRoot
  | through _ _ node inside _ ih =>
    intro ref href notRoot
    rcases List.mem_cons.1 href with rfl | href
    · exact ⟨_, inside, node⟩
    · obtain ⟨b, hb, hnode⟩ := ih ref href notRoot
      exact ⟨b, hb.1, hnode⟩
  | pass _ _ ih => exact ih

omit [DecidableEq Obj] in
theorem FirstAmong.recorded {refs : ℕ → List MemoryReferer} {A : Set ℕ} {l path : List MemoryReferer}
    (first : FirstAmong g refs A l path) : ∀ ref ∈ path, ref ∈ l ∨ ∃ b, ref ∈ refs b := by
  induction first with
  | root =>
    intro ref href
    rw [List.mem_singleton.1 href]
    exact .inl List.mem_cons_self
  | @through _ _ _ _ b _ _ _ _ _ ih =>
    intro ref href
    rcases List.mem_cons.1 href with rfl | href
    · exact .inl List.mem_cons_self
    · rcases ih ref href with hmem | hmem
      · exact .inr ⟨b, hmem⟩
      · exact .inr hmem
  | pass _ _ ih =>
    intro ref href
    exact (ih ref href).imp_left (List.mem_cons_of_mem _)

omit [DecidableEq Obj] in
/-- On a chain only the referrer of a static field can be dead. -/
theorem FirstChain.referrerAlive_iff {a : ℕ} {path : List MemoryReferer}
    (first : FirstChain g (referencesOf h) (carriers objectsWithTag leakNumber h) a path) :
    (∀ ref ∈ path, ReferrerAlive objectsWithTag h ref) ↔
      ∀ ref ∈ path, ref.kind = .staticField → ReferrerAlive objectsWithTag h ref := by
  constructor
  · exact fun all ref href _ => all ref href
  · intro statics ref href names
    by_cases hstatic : ref.kind = .staticField
    · exact statics ref href hstatic names
    · have notRoot : isRootReference ref.kind = false := by
        rcases names with hkind | hkind | hkind
        · exact absurd hkind hstatic
        · rw [hkind]
          rfl
        · rw [hkind]
          rfl
      obtain ⟨b, hb, hnode⟩ := first.2.entered ref href notRoot
      exact ⟨b, hnode, hb.1.2⟩

omit [DecidableEq Obj] in
theorem namedReferrersAlive_of_chain {path : List MemoryReferer} (first : FirstChain g
    (referencesOf h) (carriers objectsWithTag leak.leakNumber h) leak.node path) :
    NamedReferrersAlive g objectsWithTag h leak ↔ ∀ ref ∈ path, ReferrerAlive objectsWithTag h ref := by
  rw [first.referrerAlive_iff]
  constructor
  · exact fun alive => alive.chain path first
  · refine fun alive => ⟨fun path' first' => ?_, fun _ nowhere => absurd first.leads nowhere⟩
    rwa [← first.unique first']

omit [DecidableEq Obj] in
theorem namedReferrersAlive_of_none (nowhere : ¬ Leads (LinkedTo g (referencesOf h))
    (HoldsRoot g (referencesOf h)) (carriers objectsWithTag leak.leakNumber h) leak.node) :
    NamedReferrersAlive g objectsWithTag h leak ↔ (g.showUnreachables = true →
      ∀ ref ∈ referencesOf h leak.node, ReferrerAlive objectsWithTag h ref) :=
  ⟨fun alive shows => alive.references shows nowhere,
    fun alive => ⟨fun _ first => absurd first.leads nowhere, fun shows _ => alive shows⟩⟩

omit [DecidableEq Obj] in
/-- The object of a leak is known, so its class is found. -/
theorem Printable.lookup (pr : Printer Obj) (leakNumber : ℕ)
    (printable : Printable objectsWithTag leaks h) (hleak : leak ∈ leaks) :
    ∃ h' nd classname o, fillClassInMemoryNode pr.jvm objectsWithTag leak.node h = .ok h' ∧
      GraphFrame objectsWithTag leakNumber h h' ∧ AllNamed h' ∧ h'.get? leak.node = some nd ∧
      nd.classname = some classname ∧ nd.obj = some o := by
  obtain ⟨nd, hnd, -⟩ := printable.leak leak hleak
  obtain ⟨h', nd', hrun, frame, named, hnd', hcases⟩ := lookup_cases pr leakNumber printable.ok
    printable.named (h.mem_dom_of_get? hnd)
  rcases hcases with ⟨-, -, hobj, hname⟩ | ⟨dead, -⟩
  · obtain ⟨classname, hname⟩ := Option.isSome_iff_exists.1 hname
    obtain ⟨o, hobj⟩ := Option.isSome_iff_exists.1 hobj
    exact ⟨h', nd', classname, o, hrun, frame, named, hnd', hname, hobj⟩
  · exact absurd (printable.live hleak) dead

omit [DecidableEq Obj] in
theorem HoldsChain.bind_printed {st : ChainState Obj} {r : Option ℕ}
    {chain : Option (List MemoryReferer)} (holds : HoldsChain st.cells r chain) :
    (r.bind fun last => printedChain st last) = chain ∧ r.isSome = chain.isSome := by
  have printed := holds.printed
  cases r with
  | none =>
    cases chain with
    | none => exact ⟨rfl, rfl⟩
    | some path => cases printed
  | some last =>
    cases chain with
    | none => cases printed
    | some path => exact ⟨Option.some.inj printed, rfl⟩

/-- The object of the leak, as its node knows it. -/
def LeakObject (h : CHeap (MemoryNode Obj)) (leak : LeakingNode) (o : Obj) : Prop :=
  ∃ nd, h.get? leak.node = some nd ∧ nd.obj = some o

/-- What a turn of the loop has found when it comes to `print_fn`. -/
inductive Finds (g : GlobalData) (objectsWithTag : ℕ → List Obj) (h : CHeap (MemoryNode Obj))
    (leak : LeakingNode) (isNeedReferences : Bool) :
    Option (String × Obj × Option (CString.Str × List MemoryReferer)) → Prop
  /-- No references are asked for. -/
  | object {classname : String} {o : Obj} (need : isNeedReferences = false)
      (shows : g.showUnreachables = true) (object : LeakObject h leak o) :
      Finds g objectsWithTag h leak isNeedReferences (some (classname, o, none))
  | chain {classname : String} {o : Obj} {path : List MemoryReferer} (need : isNeedReferences = true)
      (first : FirstChain g (referencesOf h) (carriers objectsWithTag leak.leakNumber h) leak.node path)
      (object : LeakObject h leak o) :
      Finds g objectsWithTag h leak isNeedReferences
        (some (classname, o, some ("reference-chain-to-root".toList, path)))
  | references {classname : String} {o : Obj} (need : isNeedReferences = true)
      (shows : g.showUnreachables = true)
      (nowhere : ¬ Leads (LinkedTo g (referencesOf h)) (HoldsRoot g (referencesOf h))
        (carriers objectsWithTag leak.leakNumber h) leak.node) (object : LeakObject h leak o) :
      Finds g objectsWithTag h leak isNeedReferences
        (some (classname, o, some ("references".toList, referencesOf h leak.node)))
  | nothing (hides : g.showUnreachables = false)
      (nowhere : isNeedReferences = true → ¬ Leads (LinkedTo g (referencesOf h))
        (HoldsRoot g (referencesOf h)) (carriers objectsWithTag leak.leakNumber h) leak.node) :
      Finds g objectsWithTag h leak isNeedReferences none

omit [DecidableEq Obj] in
/-- One turn of the loop comes to `print_fn`. -/
theorem findLeak_finds (pr : Printer Obj) (env : Agent Obj) {st : ChainState Obj}
    (printable : Printable objectsWithTag leaks st.nodes) (hleak : leak ∈ leaks) {fuel : ℕ}
    (enough : st.nodes.dom.card < fuel) (isNeedReferences : Bool) :
    ∃ found st', pr.findLeak env objectsWithTag fuel isNeedReferences leak st = .ok (found, st') ∧
      Finds env.gdata objectsWithTag st.nodes leak isNeedReferences found ∧
      GraphFrame objectsWithTag leak.leakNumber st.nodes st'.nodes ∧ AllNamed st'.nodes := by
  obtain ⟨nd, hnd, hobj⟩ := printable.leak leak hleak
  obtain ⟨o, hobj⟩ := Option.isSome_iff_exists.1 hobj
  -- the object found in the end is the one that was known
  have same : ∀ {h' nd' o'}, GraphFrame objectsWithTag leak.leakNumber st.nodes h' →
      h'.get? leak.node = some nd' → nd'.obj = some o' → LeakObject st.nodes leak o' := by
    intro h' nd' o' frame hnd' hobj'
    obtain ⟨x, hx, hframe⟩ := frame.node _ nd hnd
    obtain rfl := Option.some.inj (hnd'.symm.trans hx)
    obtain rfl := Option.some.inj (hobj'.symm.trans (hframe.obj o hobj))
    exact ⟨nd, hnd, hobj⟩
  unfold Printer.findLeak
  cases isNeedReferences with
  | false =>
    simp only [Bool.false_eq_true, if_false, Run.ok_bind]
    split_ifs with shows
    · obtain ⟨h', nd', classname, o', hfill, frame, named, hnd', hname, hobj'⟩ :=
        printable.lookup pr leak.leakNumber hleak
      simp only [hfill, Run.ok_bind, deref_eq_ok.2 hnd', hname, hobj']
      exact ⟨_, _, rfl, .object rfl (by simpa using shows) (same frame hnd' hobj'), frame, named⟩
    · exact ⟨none, st, rfl, .nothing (by simpa using shows) (fun need => by cases need), .refl _,
        printable.named⟩
  | true =>
    obtain ⟨r, st₁, chain, hrun, frame₁, answers, holds⟩ :=
      generateReferencesChainForNode_answersFirst env leak.leakNumber leak.node st printable.clear
        printable.ok (st.nodes.mem_dom_of_get? hnd) enough
    have printable₁ := frame₁.printable printable (generateReferencesChainForNode_keeps env
      (searchStepsKeep_allNamed env.jvm objectsWithTag leak.leakNumber) fuel _ _ _ _ hrun
      printable.named)
    obtain ⟨hbind, hsome⟩ := holds.bind_printed
    obtain ⟨h₂, nd₂, classname, o₂, hfill, frame₂, named₂, hnd₂, hname, hobj₂⟩ :=
      printable₁.lookup pr leak.leakNumber hleak
    have frame := frame₁.trans frame₂
    have object := same frame hnd₂ hobj₂
    simp only [if_true, hrun, Run.ok_bind, hbind, hsome, hfill, deref_eq_ok.2 hnd₂, hname, hobj₂]
    cases chain with
    | some path => exact ⟨_, ⟨h₂, st₁.cells⟩, rfl, .chain rfl answers object, frame, named₂⟩
    | none =>
      by_cases shows : env.gdata.showUnreachables = true
      · have hstart : nd₂.start = referencesOf st.nodes leak.node := by
          rw [← frame.referencesOf_eq, referencesOf, hnd₂]
        rw [shows, hstart]
        exact ⟨_, ⟨h₂, st₁.cells⟩, rfl, .references rfl shows answers object, frame, named₂⟩
      · rw [if_neg (by simpa using shows)]
        exact ⟨none, st₁, rfl, .nothing (by simpa using shows) fun _ => answers, frame₁,
          printable₁.named⟩

/-- The references of a leak are printed unless the text of one names a dead referrer. -/
theorem printReferences_printsIf (pr : Printer Obj) (leakNumber : ℕ)
    {refs : Option (CString.Str × List MemoryReferer)} (ok : GraphOk objectsWithTag h)
    (named : AllNamed h) (targets : ∀ list ∈ refs, ∀ ref ∈ list.2, ∀ b, ref.node = some b → b ∈ h.dom) :
    PrintsIf id objectsWithTag leakNumber h
      (∀ list ∈ refs, ∀ ref ∈ list.2, ReferrerAlive objectsWithTag h ref)
      (pr.printReferences objectsWithTag refs h) := by
  cases refs with
  | none => exact ⟨fun _ => ⟨none, h, rfl, .refl h, named⟩, fun _ _ list hlist => by cases hlist⟩
  | some list =>
    obtain ⟨tag, refs⟩ := list
    have prints := printEach_printsIf pr leakNumber refs ok named (targets _ rfl)
    constructor
    · intro alive
      obtain ⟨elements, h', hrun, frame, named'⟩ := prints.returns (alive _ rfl)
      exact ⟨some (tag, elements), h', by rw [Printer.printReferences, hrun]; rfl, frame, named'⟩
    · intro r hr list hlist
      cases hlist
      obtain ⟨printed, hrun, -⟩ := Run.bind_eq_ok.1 hr
      exact prints.only printed hrun

omit [DecidableEq Obj] in
/-- The references found lead to nodes. -/
theorem Finds.targets {isNeedReferences : Bool} {classname : String} {o : Obj}
    {refs : Option (CString.Str × List MemoryReferer)} (printable : Printable objectsWithTag leaks h)
    (finds : Finds g objectsWithTag h leak isNeedReferences (some (classname, o, refs))) :
    ∀ list ∈ refs, ∀ ref ∈ list.2, ∀ b, ref.node = some b → b ∈ h.dom := by
  cases finds with
  | object => exact fun _ h => by cases h
  | chain need first =>
    rintro list ⟨⟩ ref href
    rcases FirstAmong.recorded first.2 ref href with hmem | ⟨a, hmem⟩
    · exact printable.targets _ ref hmem
    · exact printable.targets a ref hmem
  | references =>
    rintro list ⟨⟩ ref href
    exact printable.targets _ ref href

omit [DecidableEq Obj] in
/-- The texts of the references found name the referrers that have to be alive. -/
theorem Finds.alive_iff {isNeedReferences : Bool} {classname : String} {o : Obj}
    {refs : Option (CString.Str × List MemoryReferer)}
    (finds : Finds g objectsWithTag h leak isNeedReferences (some (classname, o, refs))) :
    (∀ list ∈ refs, ∀ ref ∈ list.2, ReferrerAlive objectsWithTag h ref) ↔
      (isNeedReferences = true → NamedReferrersAlive g objectsWithTag h leak) := by
  cases finds with
  | object need =>
    exact iff_of_true (fun _ h => by cases h) fun h => Bool.noConfusion (need.symm.trans h)
  | chain need first => simp [need, namedReferrersAlive_of_chain first]
  | references need shows nowhere => simp [need, shows, namedReferrersAlive_of_none nowhere]

/-- One turn of the loop. -/
theorem printLeak_printsIf (pr : Printer Obj) (env : Agent Obj) {st : ChainState Obj}
    (printable : Printable objectsWithTag leaks st.nodes) (hleak : leak ∈ leaks) {fuel : ℕ}
    (enough : st.nodes.dom.card < fuel) (isNeedReferences : Bool) :
    PrintsIf ChainState.nodes objectsWithTag leak.leakNumber st.nodes
      (isNeedReferences = true → NamedReferrersAlive env.gdata objectsWithTag st.nodes leak)
      (pr.printLeak env objectsWithTag fuel isNeedReferences leak st) := by
  obtain ⟨found, st₁, hfind, finds, frame, named⟩ :=
    findLeak_finds pr env printable hleak enough isNeedReferences
  unfold Printer.printLeak
  rw [hfind, Run.ok_bind]
  cases found with
  | none =>
    refine ⟨fun _ => ⟨none, st₁, rfl, frame, named⟩, fun _ _ need => ?_⟩
    cases finds with
    | nothing hides nowhere =>
      rw [namedReferrersAlive_of_none (nowhere need)]
      exact fun shows => Bool.noConfusion (hides.symm.trans shows)
  | some found =>
    obtain ⟨classname, o, refs⟩ := found
    have targets : ∀ list ∈ refs, ∀ ref ∈ list.2, ∀ b, ref.node = some b → b ∈ st₁.nodes.dom :=
      fun list hlist ref href b hb => frame.dom ▸ finds.targets printable list hlist ref href b hb
    have prints :=
      printReferences_printsIf pr leak.leakNumber (frame.graphOk printable.ok) named targets
    simp only [frame.referrerAlive_iff, finds.alive_iff] at prints
    constructor
    · intro alive
      obtain ⟨references, h', hrun, frame', named'⟩ := prints.returns alive
      refine ⟨some ⟨classname, leak.leakSize, o, references⟩, ⟨h', st₁.cells⟩, ?_,
        frame.trans frame', named'⟩
      simp only [hrun, Run.ok_bind]
      rfl
    · intro r hr
      obtain ⟨printed, hrun, -⟩ := Run.bind_eq_ok.1 hr
      exact prints.only printed hrun

omit [DecidableEq Obj] in
/-- Printing one leak changes nothing for another. -/
theorem GraphFrame.namedReferrersAlive_iff (frame : GraphFrame objectsWithTag leakNumber h h')
    (hne : leak.leakNumber ≠ leakNumber) :
    NamedReferrersAlive g objectsWithTag h' leak ↔ NamedReferrersAlive g objectsWithTag h leak := by
  constructor
  · rintro ⟨chain, references⟩
    simp only [frame.referencesOf_eq, frame.carriers_eq hne, frame.referrerAlive_iff] at chain references
    exact ⟨chain, references⟩
  · rintro ⟨chain, references⟩
    refine ⟨?_, ?_⟩
    · simpa only [frame.referencesOf_eq, frame.carriers_eq hne, frame.referrerAlive_iff] using chain
    · simpa only [frame.referencesOf_eq, frame.carriers_eq hne, frame.referrerAlive_iff] using references

/-- The loop goes through to its end if and only if the texts it prints name no dead referrer. -/
theorem printReferencesChainForLeakingNodes_iff (pr : Printer Obj) (env : Agent Obj)
    (isNeedReferences : Bool) {fuel : ℕ} (leaks : List LeakingNode) (st : ChainState Obj)
    (printable : Printable objectsWithTag leaks st.nodes)
    (numbers : (leaks.map (·.leakNumber)).Nodup) (enough : st.nodes.dom.card < fuel) :
    (∃ r, pr.printReferencesChainForLeakingNodes env objectsWithTag fuel isNeedReferences leaks st =
      .ok r) ↔ (isNeedReferences = true →
        ∀ leak ∈ leaks, NamedReferrersAlive env.gdata objectsWithTag st.nodes leak) := by
  induction leaks generalizing st with
  | nil => exact iff_of_true ⟨_, rfl⟩ fun _ _ h => by cases h
  | cons leak rest ih =>
    rw [List.map_cons, List.nodup_cons] at numbers
    have first := printLeak_printsIf pr env printable List.mem_cons_self enough isNeedReferences
    rw [Printer.printReferencesChainForLeakingNodes]
    by_cases alive : isNeedReferences = true →
        NamedReferrersAlive env.gdata objectsWithTag st.nodes leak
    · obtain ⟨printed, st₁, hrun, frame, named⟩ := first.returns alive
      have printable₁ := frame.printable printable named
      have later := ih st₁ { printable₁ with
        leak := fun l hl => printable₁.leak l (List.mem_cons_of_mem _ hl) } numbers.2
        (frame.dom ▸ enough)
      have same : ∀ l ∈ rest, NamedReferrersAlive env.gdata objectsWithTag st₁.nodes l ↔
          NamedReferrersAlive env.gdata objectsWithTag st.nodes l := fun l hl =>
        frame.namedReferrersAlive_iff fun heq => numbers.1 (heq ▸ List.mem_map_of_mem hl)
      rw [hrun, Run.ok_bind]
      constructor
      · rintro ⟨r, hr⟩ need
        obtain ⟨p, hrest, -⟩ := Run.bind_eq_ok.1 hr
        have alives := later.1 ⟨p, hrest⟩ need
        exact List.forall_mem_cons.2 ⟨alive need, fun l hl => (same l hl).1 (alives l hl)⟩
      · intro all
        obtain ⟨⟨printeds, st'⟩, hrest⟩ := later.2 fun need l hl =>
          (same l hl).2 (all need l (List.mem_cons_of_mem _ hl))
        refine ⟨(printed :: printeds, st'), ?_⟩
        simp only [hrest, Run.ok_bind]
        rfl
    · refine iff_of_false ?_ fun all => alive fun need => all need leak List.mem_cons_self
      rintro ⟨r, hr⟩
      obtain ⟨p, hprinted, -⟩ := Run.bind_eq_ok.1 hr
      exact alive (first.only p hprinted)

/-! ## The graph of a dump -/

/-- Nothing has been looked up, and the objects of the leaks are known. -/
structure Unlooked (leaks : List LeakingNode) (h : CHeap (MemoryNode Obj)) : Prop where
  klass : ∀ a nd, h.get? a = some nd → nd.klass = none ∧ nd.classname = none
  leak : ∀ leak ∈ leaks, ∃ nd, h.get? leak.node = some nd ∧ nd.obj.isSome = true

theorem Unlooked.outcome {env : Agent Obj} {s s' : Search Obj} {r : HeapReference Obj}
    (unlooked : Unlooked leaks s.nodes) (out : Outcome env s r s') : Unlooked leaks s'.nodes := by
  cases out with
  | skipped => exact unlooked
  | dropped =>
    refine ⟨fun a nd' h => ?_, fun leak hleak => ?_⟩
    · rw [get?_countFanIn, Option.map_eq_some_iff] at h
      obtain ⟨nd, hnd, rfl⟩ := h
      exact unlooked.klass a nd hnd
    · obtain ⟨nd, hnd, hobj⟩ := unlooked.leak leak hleak
      rw [get?_countFanIn, hnd]
      exact ⟨_, rfl, hobj⟩
  | recorded thisNode records =>
    refine ⟨fun a nd' h => ?_, fun leak hleak => ?_⟩
    · obtain ⟨nd, rfl, hnd | ⟨_, rfl⟩⟩ := get?_recorded_eq_some records.node h
      · exact unlooked.klass a nd hnd
      · exact ⟨rfl, rfl⟩
    · obtain ⟨nd, hnd, hobj⟩ := unlooked.leak leak hleak
      exact ⟨_, get?_recorded_of_get? records.node hnd, hobj⟩

theorem Dump.unlooked_run (d : Dump Obj) {s : Search Obj} (run : d.run = .ok s) :
    Unlooked d.leaks s.nodes := by
  refine Dump.run_invariant (I := fun s => Unlooked d.leaks s.nodes) (fun _ h => h)
    (fun _ _ _ h _ report => h.outcome (reportReference_outcome report)) d.meets_true ?_ run
  refine ⟨fun a nd h => ?_, fun leak hleak => ?_⟩
  · rcases d.node_cases h with ⟨_, _, o, _, rfl⟩ | ⟨klass, _, _, rfl⟩
    · exact ⟨rfl, rfl⟩
    · exact ⟨rfl, rfl⟩
  · obtain ⟨o, hnode⟩ := d.get?_leak hleak
    exact ⟨_, hnode, rfl⟩

/-- The passes leave a graph that can be printed. -/
theorem Dump.printable_run (d : Dump Obj) {s : Search Obj} (run : d.run = .ok s)
    (lookup : TagLookup objectsWithTag s.tags) : Printable objectsWithTag d.leaks s.nodes where
  clear := (d.searchOk_run run).allClear
  ok := (d.searchOk_run run).graphOk lookup
  named a nd hnd := by
    obtain ⟨hklass, hname⟩ := (d.unlooked_run run).klass a nd hnd
    have alive := ((d.searchOk_run run).node a nd hnd).dead
    refine ⟨fun dead => ?_, by rw [hklass, hname]; rfl, fun h => ?_⟩
    · rw [alive] at dead
      cases dead
    · rw [hklass] at h
      cases h
  targets := (d.searchOk_run run).targetsIn
  leak := (d.unlooked_run run).leak

/-- Printing uses no class, name or object of a dead node if and only if the referrers that the printed
texts name are alive. -/
theorem printing_survives_iff (pr : Printer Obj) (d : Dump Obj) {s : Search Obj}
    (run : d.run = .ok s) {objectsWithTag : ℕ → List Obj} (lookup : TagLookup objectsWithTag s.tags)
    {fuel : ℕ} (enough : s.nodes.dom.card < fuel) (isNeedReferences : Bool) :
    (∃ r, pr.printReferencesChainForLeakingNodes d.agent objectsWithTag fuel isNeedReferences d.leaks
      ⟨s.nodes, []⟩ = .ok r) ↔ (isNeedReferences = true →
        ∀ leak ∈ d.leaks, NamedReferrersAlive d.agent.gdata objectsWithTag s.nodes leak) := by
  have numbers : (d.leaks.map (·.leakNumber)).Nodup := by
    rw [d.leaks_searched.numbers]
    exact List.nodup_range
  exact printReferencesChainForLeakingNodes_iff pr d.agent isNeedReferences d.leaks ⟨s.nodes, []⟩
    (d.printable_run run lookup) numbers enough

/-- A leak that an unreachable object refers to, printed although it has no chain. -/
def Sample.unreachable : Dump (Fin 12) :=
  { dump [(3, 1000)] [field 3 8 0] fun _ => [] with
    agent := ⟨jvm, { gdata with showUnreachables := true }, 7, .above⟩ }

/-- What `GetObjectsWithTags` answers after the object `8` has died. -/
def Sample.withoutReferrer (tags : Fin 12 → ℕ) (tag : ℕ) : List (Fin 12) :=
  (Sample.objectsWithTag tags tag).filter (· ≠ 8)

theorem Sample.tagLookup_withoutReferrer (tags : Fin 12 → ℕ) :
    TagLookup (withoutReferrer tags) tags where
  nodup a := ((allAlive tags).nodup a).filter _
  sound a o ha ho := (allAlive tags).sound a o ha (List.mem_of_mem_filter ho)

/-- While all objects live, the reference is printed. -/
theorem printing_survives_unreachable : ∃ s, Sample.unreachable.run = .ok s ∧
    ∀ leak ∈ Sample.unreachable.leaks, NamedReferrersAlive Sample.unreachable.agent.gdata
      (Sample.objectsWithTag s.tags) s.nodes leak := by
  obtain ⟨s, run, hs⟩ := Run.exists_ok_of_any (x := Sample.unreachable.run)
    (p := fun s => (Sample.printer.printReferencesChainForLeakingNodes Sample.unreachable.agent
      (Sample.objectsWithTag s.tags) (s.nodes.dom.card + 1) true Sample.unreachable.leaks
      ⟨s.nodes, []⟩).toOption.any fun _ => true) (by decide +kernel)
  obtain ⟨r, hr, -⟩ := Run.exists_ok_of_any hs
  exact ⟨s, run, (printing_survives_iff Sample.printer Sample.unreachable run
    (Sample.allAlive s.tags).toTagLookup (Nat.lt_succ_self _) true).1 ⟨r, hr⟩ rfl⟩

/-- After the referrer has died, its missing class is used. -/
theorem printing_dead_referrer : ∃ s, Sample.unreachable.run = .ok s ∧
    TagLookup (Sample.withoutReferrer s.tags) s.tags ∧
    Sample.printer.printReferencesChainForLeakingNodes Sample.unreachable.agent
      (Sample.withoutReferrer s.tags) (s.nodes.dom.card + 1) true Sample.unreachable.leaks
      ⟨s.nodes, []⟩ = .error .invalidPointer := by
  obtain ⟨s, run, hs⟩ := Run.exists_ok_of_any (x := Sample.unreachable.run)
    (p := fun s => decide (Run.error? (Sample.printer.printReferencesChainForLeakingNodes
      Sample.unreachable.agent (Sample.withoutReferrer s.tags) (s.nodes.dom.card + 1) true
      Sample.unreachable.leaks ⟨s.nodes, []⟩) = some .invalidPointer)) (by decide +kernel)
  exact ⟨s, run, Sample.tagLookup_withoutReferrer s.tags, Run.eq_error_of_error? (of_decide_eq_true hs)⟩

end JLeaker
