import JLeaker.Model.XmlReport
import JLeaker.Proof.ChainsInHeap
import JLeaker.Proof.ClassNodes
import JLeaker.Proof.ReportedLeaks

/-!
# A dump comes to its end

The passes return unless `java.lang.Class` itself is given a node, printing returns unless a text names
a referrer that has died or a `print_fn` is given too little, and freeing always returns.  Put together,
a dump ends with all nodes freed unless one of these things happens, and the second cannot happen while
nothing dies.
-/

namespace JLeaker

open CString

variable {Obj : Type} [DecidableEq Obj]

/-! ## Printing -/

section

variable {objectsWithTag : ℕ → List Obj}

/-- While every tagged object is alive, so are the referrers of recorded references. -/
theorem RecordsReported.namedReferrersAlive {d : Dump Obj} {s : Search Obj}
    (reported : RecordsReported d s) (ok : SearchOk d.leaks.length s)
    (alive : AllAlive objectsWithTag s.tags) (leak : LeakingNode) :
    NamedReferrersAlive d.agent.gdata objectsWithTag s.nodes leak := by
  have all : ∀ a, ∀ ref ∈ referencesOf s.nodes a, ReferrerAlive objectsWithTag s.nodes ref := by
    intro a ref mem names
    obtain ⟨r, record⟩ := reported a ref mem
    have kind : r.kind.isHeapRoot = false := by
      rw [record.eq] at names
      rcases names with eq | eq | eq <;> exact congrArg HeapReferenceKind.isHeapRoot eq
    obtain ⟨o, referrer⟩ : ∃ o, r.referrer = some o := by
      rw [← r.referrer_isNone, Option.isNone_eq_false_iff] at kind
      exact Option.isSome_iff_exists.1 kind
    have tagged := record.referrer o referrer
    obtain ⟨nd, hnd⟩ := s.nodes.exists_get?_of_mem (ok.tagged.mem o tagged)
    have found : (objectsWithTag (s.tags o)).isEmpty = false :=
      List.isEmpty_eq_false_iff_exists_mem.2 ⟨o, alive.complete _ o tagged rfl⟩
    refine ⟨s.tags o, ?_, nd, hnd, ?_⟩
    · rw [record.eq, recordOf, referrer, Option.map_some]
    · rw [MemoryNode.live, (ok.node _ nd hnd).dead, found]
      simp
  constructor
  · intro path first ref mem _
    rcases FirstAmong.recorded first.2 ref mem with here | ⟨a, there⟩
    · exact all _ ref here
    · exact all a ref there
  · exact fun _ _ ref mem => all leak.node ref mem

end

namespace Dump

variable (d : Dump Obj) (methods : JavaMethods Obj) (f : OutputStream) (numElementsToDump : ℤ)
  (pr : Printer Obj) {alive : List Obj}

omit [DecidableEq Obj] in
theorem tagLookup_aliveWithTag (nodup : alive.Nodup) (tags : Obj → ℕ) :
    TagLookup (aliveWithTag alive tags) tags where
  nodup _ := nodup.filter _
  sound _ _ _ mem := of_decide_eq_true (List.mem_filter.1 mem).2

omit [DecidableEq Obj] in
theorem allAlive_aliveWithTag (nodup : alive.Nodup) {tags : Obj → ℕ}
    (all : ∀ o, tags o ≠ 0 → o ∈ alive) : AllAlive (aliveWithTag alive tags) tags where
  toTagLookup := tagLookup_aliveWithTag nodup tags
  complete _ o ne tag := List.mem_filter.2 ⟨all o (tag ▸ ne), decide_eq_true tag⟩

/-- If no report gives `java.lang.Class` a node, the passes return. -/
theorem run_returns (loaded : ClassesLoaded d.agent.jvm d.loadedClasses)
    (keeps : d.Meets (KeepsClassUntagged d.agent)) : ∃ s, d.run = .ok s := by
  let I : Search Obj → Prop := fun s =>
    ClassesTagged d.agent.jvm d.ignoreFields d.loadedClasses s.toAgentState ∧
      s.tags d.agent.jvm.classClass = 0
  refine d.run_succeeds (IterationsMeet.of_invariant (I := I) (fun _ h => h) ?_
    (fun _ _ h _ => h.1.classTagOk h.2 loaded) keeps
      ⟨d.classesTagged_start, d.classNodes_tagged.classClass loaded.classClass_mem⟩)
  intro s r s' h kept report
  have out := reportReference_outcome report
  exact ⟨h.1.outcome out, classClass_untagged kept out h.2⟩

omit [DecidableEq Obj] in
theorem leakDescriptors_eq (env : Agent Obj) (size : ℕ → Obj → ℤ) (candidates : List (Obj × ℕ)) :
    leakDescriptors env size candidates = (leakingCandidates env size candidates).map fun c =>
      ((c.2 : ℤ) - initialClassTag).toNat := by
  unfold leakDescriptors leakingCandidates
  induction candidates with
  | nil => rfl
  | cons c candidates ih =>
    rw [List.filterMap_cons, List.filter_cons, ih]
    by_cases large : candidateSize env size c > env.gdata.sizeThreshold
    · rw [if_pos (by simpa using large)]
      unfold candidateSize at large
      dsimp only at large ⊢
      rw [if_pos large]
      rfl
    · rw [if_neg (by simpa using large)]
      unfold candidateSize at large
      dsimp only at large ⊢
      rw [if_neg large]

/-- Every leak has its class descriptor. -/
theorem describedLeaks_map :
    d.describedLeaks.map Prod.fst = leakDescriptors d.agent d.size d.candidates ∧
      d.describedLeaks.map Prod.snd = d.leaks := by
  have length : (leakDescriptors d.agent d.size d.candidates).length = d.leaks.length := by
    rw [leakDescriptors_eq, List.length_map]
    exact d.leaks_searched.node.length_eq
  exact ⟨List.map_fst_zip length.le, List.map_snd_zip length.ge⟩

/-- The object of a leak stays known during the passes. -/
theorem leakObject_run {s : Search Obj} (run : d.run = .ok s) {leak : LeakingNode} {o : Obj}
    (object : d.LeakingObject leak o) : LeakObject s.nodes leak o := by
  refine Dump.run_invariant (I := fun s => LeakObject s.nodes leak o) (fun _ h => h) ?_ d.meets_true
    object run
  rintro s r s' ⟨nd, hnd, hobj⟩ - report
  cases reportReference_outcome report with
  | skipped => exact ⟨nd, hnd, hobj⟩
  | dropped =>
    unfold LeakObject
    rw [get?_countFanIn, hnd]
    exact ⟨_, rfl, hobj⟩
  | recorded thisNode records => exact ⟨_, get?_recorded_of_get? records.node hnd, hobj⟩

theorem exists_leakingObject {leak : LeakingNode} (hleak : leak ∈ d.leaks) :
    ∃ o, d.LeakingObject leak o := by
  obtain ⟨o, hnode⟩ := d.get?_leak hleak
  exact ⟨o, _, hnode, rfl⟩

/-- The containers of the leaks that are shown can be printed. -/
def ContainersPrint (objectsWithTag : ℕ → List Obj) (s : Search Obj) : Prop :=
  ∀ idx leak o, (idx, leak) ∈ d.describedLeaks →
    Shown d.agent.gdata objectsWithTag (decide (d.agent.gdata.referenceChainLength > 0)) s.nodes leak →
    d.LeakingObject leak o → ContainerPrints methods numElementsToDump idx o

/-- What is left when printing returns is freed. -/
theorem outcome_of_reported {s : Search Obj} (leaks : d.leaks ≠ []) (run : d.run = .ok s)
    {printed : List (Option (JLeaker.LeakingObject Obj))} {texts : Str} {xmlDepth : ℕ}
    {st : ChainState Obj}
    (report : reportLeaks methods f numElementsToDump pr d.agent (aliveWithTag alive s.tags)
      (s.nodes.dom.card + 1) (decide (d.agent.gdata.referenceChainLength > 0)) d.describedLeaks
        (openXmlElement f 0 "memory-leaks".toList []).2 ⟨s.nodes, []⟩ =
          .ok (printed, texts, xmlDepth, st)) (kept : Printed s.nodes st.nodes) :
    d.outcome methods f numElementsToDump pr alive =
      .ok ⟨printed, reportText f texts xmlDepth, 0, s.nodesAllocated, 0⟩ := by
  have held := d.heldByLists_run run
  have enough : st.nodes.dom.card < s.nodes.dom.card + 1 := by
    rw [kept.dom]
    exact Nat.lt_succ_self _
  obtain ⟨st₁, st₂, hleaks, hclasses, empty, freed, -⟩ :=
    (held.owned.printed kept).teardown enough s.nodesFreed
  rw [kept.dom, held.freed, zero_add, ← held.allocated] at freed
  have some : d.leaks.isEmpty = false := by simpa using leaks
  unfold outcome
  simp only [some, Bool.false_eq_true, if_false, run, report, hleaks, hclasses, Run.mapError_ok,
    Run.ok_bind, freed, empty, Finset.card_empty, List.length_nil]
  rfl

/-- A dump without leaks ends at once, with no node. -/
theorem outcome_of_leaks_eq_nil (none : d.leaks = []) :
    d.outcome methods f numElementsToDump pr alive =
      .ok ⟨[], reportText f [] (openXmlElement f 0 "memory-leaks".toList []).2, 0,
        d.searched.2.nodesFreed, 0⟩ := by
  have empty : d.searched.2.nodes.dom = ∅ := Finset.eq_empty_of_forall_notMem fun a mem => by
    rw [d.leaks_searched.mem, none] at mem
    cases mem
  unfold outcome
  rw [none, List.isEmpty_nil, if_pos rfl, empty, Finset.card_empty]
  rfl

section

variable {s : Search Obj} (run : d.run = .ok s) (nodup : alive.Nodup)
  (leaks : d.leaks ≠ [])

include run

theorem containers_iff {printed : List (Option (JLeaker.LeakingObject Obj))}
    (as : List.Forall₂ (PrintedAs d.agent.gdata (aliveWithTag alive s.tags)
      (decide (d.agent.gdata.referenceChainLength > 0)) s.nodes) d.leaks printed) :
    (∀ l ∈ printedLeaks (leakDescriptors d.agent d.size d.candidates) printed,
      ContainerPrints methods numElementsToDump l.1 l.2.obj) ↔
        d.ContainersPrint methods numElementsToDump (aliveWithTag alive s.tags) s := by
  obtain ⟨descriptors, described⟩ := d.describedLeaks_map
  have objects : ∀ l ∈ d.describedLeaks, ∃ o, d.LeakingObject l.2 o ∧ LeakObject s.nodes l.2 o := by
    intro l mem
    obtain ⟨o, object⟩ := d.exists_leakingObject (described ▸ List.mem_map_of_mem mem)
    exact ⟨o, object, d.leakObject_run run object⟩
  rw [← described] at as
  rw [← descriptors, printedLeaks_print_iff (fun l mem => (objects l mem).imp fun _ h => h.2) as]
  constructor
  · exact fun fine idx leak o mem shown object =>
      fine idx leak o mem shown (d.leakObject_run run object)
  · intro fine idx leak o mem shown object
    obtain ⟨o', object', same⟩ := objects _ mem
    rw [object.unique same]
    exact fine idx leak o' mem shown object'

include nodup leaks

/-- If the referrers that the texts name are alive and the containers print, the dump ends and has freed
everything. -/
theorem ends_of_prints (named : d.agent.gdata.referenceChainLength > 0 → ∀ leak ∈ d.leaks,
      NamedReferrersAlive d.agent.gdata (aliveWithTag alive s.tags) s.nodes leak)
    (containers : d.ContainersPrint methods numElementsToDump (aliveWithTag alive s.tags) s) :
    ∃ printed report freed, List.Forall₂ (PrintedAs d.agent.gdata (aliveWithTag alive s.tags)
        (decide (d.agent.gdata.referenceChainLength > 0)) s.nodes) d.leaks printed ∧
      d.outcome methods f numElementsToDump pr alive = .ok ⟨printed, report, 0, freed, 0⟩ := by
  obtain ⟨descriptors, described⟩ := d.describedLeaks_map
  have numbers : (d.leaks.map (·.leakNumber)).Nodup := by
    rw [d.leaks_searched.numbers]
    exact List.nodup_range
  obtain ⟨printed, st, print, as, kept⟩ := printReferencesChainForLeakingNodes_printed pr d.agent
    ⟨s.nodes, []⟩ (d.printable_run run (tagLookup_aliveWithTag nodup s.tags)) numbers
      (Nat.lt_succ_self _) fun need => named (of_decide_eq_true need)
  obtain ⟨⟨texts, xmlDepth⟩, lines⟩ := (printLeakingObjects_returns_iff (f := f) numElementsToDump _
    (openXmlElement f 0 "memory-leaks".toList []).2).2
      ((d.containers_iff methods numElementsToDump run as).2 containers)
  rw [← described] at print
  rw [← descriptors] at lines
  exact ⟨printed, _, _, as, d.outcome_of_reported methods f numElementsToDump pr leaks run
    ((reportLeaks_eq_ok pr d.agent).2 ⟨print, lines⟩) kept⟩

/-- Otherwise printing fails, and the dump with it. -/
theorem prints_of_ends {o : DumpOutcome Obj}
    (ends : d.outcome methods f numElementsToDump pr alive = .ok o) :
    (d.agent.gdata.referenceChainLength > 0 → ∀ leak ∈ d.leaks,
      NamedReferrersAlive d.agent.gdata (aliveWithTag alive s.tags) s.nodes leak) ∧
    d.ContainersPrint methods numElementsToDump (aliveWithTag alive s.tags) s := by
  obtain ⟨descriptors, described⟩ := d.describedLeaks_map
  have numbers : (d.leaks.map (·.leakNumber)).Nodup := by
    rw [d.leaks_searched.numbers]
    exact List.nodup_range
  have printable := d.printable_run run (tagLookup_aliveWithTag nodup s.tags)
  unfold outcome at ends
  rw [if_neg (by simpa using leaks), run, Run.mapError_ok, Run.ok_bind] at ends
  obtain ⟨⟨printed, texts, xmlDepth, st⟩, report, -⟩ := Run.bind_eq_ok.1 ends
  obtain ⟨print, lines⟩ := (reportLeaks_eq_ok pr d.agent).1 report
  rw [described] at print
  rw [descriptors] at lines
  have named := (printReferencesChainForLeakingNodes_iff pr d.agent _ d.leaks ⟨s.nodes, []⟩ printable
    numbers (Nat.lt_succ_self _)).1 ⟨_, print⟩
  obtain ⟨printed', st', print', as, -⟩ := printReferencesChainForLeakingNodes_printed pr d.agent
    ⟨s.nodes, []⟩ printable numbers (Nat.lt_succ_self _) named
  cases print.symm.trans print'
  exact ⟨fun need => named (decide_eq_true need), (d.containers_iff methods numElementsToDump run as).1
    ((printLeakingObjects_returns_iff numElementsToDump _ _).1 ⟨_, lines⟩)⟩

end

/-- A dump in which `java.lang.Class` is never given a node comes to its end if and only if the
referrers that the printed texts name are alive and the containers of the leaks that are shown can be
printed; while nothing dies, the containers alone decide.  In the end exactly the leaks that are shown
were printed, each with its object, no class was left over and every node was freed. -/
theorem outcome_completes (loaded : ClassesLoaded d.agent.jvm d.loadedClasses)
    (keeps : d.Meets (KeepsClassUntagged d.agent)) (nodup : alive.Nodup) :
    ((∃ o, d.outcome methods f numElementsToDump pr alive = .ok o) ↔ ∀ s, d.run = .ok s →
      (d.agent.gdata.referenceChainLength > 0 → ∀ leak ∈ d.leaks,
        NamedReferrersAlive d.agent.gdata (aliveWithTag alive s.tags) s.nodes leak) ∧
      d.ContainersPrint methods numElementsToDump (aliveWithTag alive s.tags) s) ∧
    ((∀ s, d.run = .ok s → ∀ o, s.tags o ≠ 0 → o ∈ alive) →
      ((∃ o, d.outcome methods f numElementsToDump pr alive = .ok o) ↔ ∀ s, d.run = .ok s →
        d.ContainersPrint methods numElementsToDump (aliveWithTag alive s.tags) s)) ∧
    ∀ o, d.outcome methods f numElementsToDump pr alive = .ok o →
      (∀ s, d.run = .ok s → List.Forall₂ (PrintedAs d.agent.gdata (aliveWithTag alive s.tags)
        (decide (d.agent.gdata.referenceChainLength > 0)) s.nodes) d.leaks o.printed) ∧
      o.printed.length = d.leaks.length ∧ o.classesNotFreed = 0 ∧ o.nodesLeft = 0 := by
  obtain ⟨s, run⟩ := d.run_returns loaded keeps
  have returns : (∃ o, d.outcome methods f numElementsToDump pr alive = .ok o) ↔
      (d.agent.gdata.referenceChainLength > 0 → ∀ leak ∈ d.leaks,
        NamedReferrersAlive d.agent.gdata (aliveWithTag alive s.tags) s.nodes leak) ∧
      d.ContainersPrint methods numElementsToDump (aliveWithTag alive s.tags) s := by
    by_cases leaks : d.leaks = []
    · rw [d.outcome_of_leaks_eq_nil methods f numElementsToDump pr leaks, leaks]
      refine iff_of_true ⟨_, rfl⟩ ⟨fun _ _ mem => absurd mem List.not_mem_nil, fun idx leak o mem => ?_⟩
      have := List.mem_map_of_mem (f := Prod.snd) mem
      rw [d.describedLeaks_map.2, leaks] at this
      cases this
    · constructor
      · rintro ⟨o, outcome⟩
        exact d.prints_of_ends methods f numElementsToDump pr run nodup leaks outcome
      · rintro ⟨named, containers⟩
        obtain ⟨printed, report, freed, -, outcome⟩ :=
          d.ends_of_prints methods f numElementsToDump pr run nodup leaks named containers
        exact ⟨_, outcome⟩
  have unique : ∀ P : Search Obj → Prop, (∀ s, d.run = .ok s → P s) ↔ P s := fun P =>
    ⟨fun h => h s run, fun h s' run' => Except.ok.inj (run.symm.trans run') ▸ h⟩
  rw [unique]
  refine ⟨returns, fun all => ?_, fun o outcome => ?_⟩
  · rw [returns, unique]
    exact and_iff_right fun _ leak _ => (d.recordsReported_run run).namedReferrersAlive
      (d.searchOk_run run) (allAlive_aliveWithTag nodup (all s run)) leak
  by_cases leaks : d.leaks = []
  · rw [d.outcome_of_leaks_eq_nil methods f numElementsToDump pr leaks] at outcome
    cases outcome
    rw [leaks]
    exact ⟨fun _ _ => .nil, rfl, rfl, rfl⟩
  · obtain ⟨named, containers⟩ := returns.1 ⟨o, outcome⟩
    obtain ⟨printed, report, freed, as, same⟩ :=
      d.ends_of_prints methods f numElementsToDump pr run nodup leaks named containers
    cases same.symm.trans outcome
    exact ⟨(unique _).2 as, as.length_eq.symm, rfl, rfl⟩

/-- Every object is its own iterator, entry and text, so every container can be printed. -/
theorem Sample.containerPrints {idx : ℕ} (bound : idx < 3) (o : Fin 12) :
    ContainerPrints Sample.javaMethods 5 idx o := by
  have text : ∀ o, HasText Sample.javaMethods (some o) := fun o => ⟨o, o, _, rfl, rfl, rfl⟩
  have elements : ∀ fine : Option (Fin 12) → Prop, (∀ o, fine (some o)) → ∀ o,
      ElementsPrint Sample.javaMethods 5 fine o := by
    intro fine all o _
    refine ⟨[some o], rfl, fun e mem => ?_⟩
    rw [List.mem_singleton.1 (List.mem_of_mem_take mem)]
    exact all o
  have entry : ∀ o, EntryPrints Sample.javaMethods (some o) := fun o =>
    ⟨rfl, fun _ _ => ⟨text _, text _⟩⟩
  match idx with
  | 0 => exact elements _ text o
  | 1 => exact fun set _ => elements _ entry set
  | 2 => exact fun set _ => elements _ entry set

/-- Two leaks with chains of four and of three references. -/
theorem outcome_completes_sharedHolder :
    ∃ o, Sample.sharedHolder.outcome Sample.javaMethods .file 5 Sample.printer (List.finRange 12) =
      .ok o ∧ o.printed.length = 2 ∧ o.classesNotFreed = 0 ∧ o.nodesLeft = 0 := by
  have keeps : Sample.sharedHolder.Meets fun _ r => r.referrer ≠ some 0 := by decide +kernel
  have descriptors : Sample.sharedHolder.describedLeaks.map Prod.fst = [0, 0] := by decide +kernel
  obtain ⟨-, ends, freed⟩ := Sample.sharedHolder.outcome_completes Sample.javaMethods .file 5
    Sample.printer Sample.classesLoaded (keeps.mono fun s r h thisNode _ referrer => absurd referrer h)
      (List.nodup_finRange 12)
  obtain ⟨o, outcome⟩ := (ends fun _ _ o _ => List.mem_finRange o).2 fun s _ idx leak o mem _ _ => by
    have first : idx ∈ Sample.sharedHolder.describedLeaks.map Prod.fst := List.mem_map_of_mem mem
    rw [descriptors] at first
    obtain rfl : idx = 0 := by simpa using first
    exact Sample.containerPrints (by decide) o
  obtain ⟨-, length, left⟩ := freed o outcome
  exact ⟨o, outcome, length.trans (by decide +kernel), left⟩

end Dump

end JLeaker
