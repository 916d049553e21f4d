import JLeaker.Model.XmlReport
import JLeaker.Proof.DeadReferrers
import JLeaker.Proof.MissingStrings
import JLeaker.Proof.Teardown

/-!
# The leaks that are reported

A leak is reported if a chain is found for it or unreachable objects are shown.  Its `print_fn` gets the
object the leak was found at, and fails where a method of the application's objects returns null for
something it needs.
-/

namespace JLeaker

open CString DeadEnds

variable {Obj : Type} {methods : JavaMethods Obj} {f : OutputStream}

/-! ## The containers -/

section

variable {print : Option Obj → Except PrintFault Str} {reached : Option Obj → Bool}
  {fine : Option Obj → Prop}

theorem PrintsEach.returns_iff (each : PrintsEach print reached fine) (e : Option Obj) :
    (∃ text, print e = .ok text) ↔ reached e = true ∧ fine e := by
  by_cases hreached : reached e = true
  · by_cases hfine : fine e
    · exact iff_of_true (each.ok e hreached hfine) ⟨hreached, hfine⟩
    · simp [each.null e hreached hfine, hfine]
  · simp [each.stop e (by simpa using hreached), hreached]

theorem PrintsEach.printElements_returns_iff (each : PrintsEach print reached fine) (limit : ℤ)
    (elements : List (Option Obj)) : (∃ texts, printElements print limit elements = .ok texts) ↔
      ∀ e ∈ elements.take limit.toNat, reached e = true ∧ fine e := by
  induction elements generalizing limit with
  | nil => simp [printElements]
  | cons e rest ih =>
    rw [printElements]
    by_cases none : limit ≤ 0
    · simp [show ¬ limit > 0 by omega, show limit.toNat = 0 by omega]
    have next : limit.toNat = (limit - 1).toNat + 1 := by omega
    rw [if_pos (by omega), next, List.take_succ_cons, List.forall_mem_cons, ← each.returns_iff, ← ih]
    constructor
    · rintro ⟨texts, h⟩
      obtain ⟨text, first, h⟩ := Run.bind_eq_ok.1 h
      obtain ⟨texts, others, -⟩ := Run.bind_eq_ok.1 h
      exact ⟨⟨text, first⟩, texts, others⟩
    · rintro ⟨⟨text, first⟩, texts, others⟩
      exact ⟨_, Run.bind_eq_ok.2 ⟨text, first, Run.bind_eq_ok.2 ⟨texts, others, rfl⟩⟩⟩

end

/-- If elements are printed, the iterator of the container is there and those it returns first are
fine. -/
def ElementsPrint (methods : JavaMethods Obj) (limit : ℤ) (fine : Option Obj → Prop)
    (collection : Obj) : Prop :=
  limit > 0 → ∃ elements, methods.iterator collection = some elements ∧
    ∀ e ∈ elements.take limit.toNat, fine e

/-- The entry is not null, and its key and its value have texts. -/
def EntryPrints (methods : JavaMethods Obj) (entry : Option Obj) : Prop :=
  entry.isSome = true ∧ EntryHasText methods entry

/-- Nothing that the `print_fn` of the class descriptor needs is missing.  A map whose entries cannot be
obtained gets an element for the error. -/
def ContainerPrints (methods : JavaMethods Obj) (limit : ℤ) (idx : ℕ) (obj : Obj) : Prop :=
  match idx with
  | 0 => ElementsPrint methods limit (HasText methods) obj
  | 1 => ∀ set, methods.entrySet obj = some set → ElementsPrint methods limit (EntryPrints methods) set
  | 2 => ∀ set, methods.entries obj = some set → ElementsPrint methods limit (EntryPrints methods) set
  | _ => False

theorem PrintsEach.printCollectionUsingMethod_returns_iff
    {print : Option Obj → Except PrintFault Str} {reached : Option Obj → Bool}
    {fine : Option Obj → Prop} (each : PrintsEach print reached fine) (limit : ℤ) (collection : Obj) :
    (∃ texts, printCollectionUsingMethod methods print limit collection = .ok texts) ↔
      ElementsPrint methods limit (fun e => reached e = true ∧ fine e) collection := by
  unfold printCollectionUsingMethod ElementsPrint
  cases methods.iterator collection with
  | none =>
    dsimp only
    split_ifs with some
    · exact iff_of_false (by rintro ⟨_, ⟨⟩⟩) fun all => by
        obtain ⟨elements, ⟨⟩, -⟩ := all some
    · exact iff_of_true ⟨_, rfl⟩ fun h => absurd h some
  | some elements =>
    rw [each.printElements_returns_iff]
    constructor
    · exact fun all _ => ⟨elements, rfl, all⟩
    · intro all e mem
      have some : limit > 0 := by
        by_contra none
        rw [show limit.toNat = 0 by omega] at mem
        cases mem
      obtain ⟨_, ⟨⟩, fine⟩ := all some
      exact fine e mem

theorem printEntries_returns_iff (xmlDepth : ℕ) (limit : ℤ) (tag error : Str) (entries : Option Obj) :
    (∃ text, printEntries methods f xmlDepth limit tag error entries = .ok text) ↔
      ∀ set, entries = some set → ElementsPrint methods limit (EntryPrints methods) set := by
  unfold printEntries
  cases entries with
  | none => exact iff_of_true ⟨_, rfl⟩ fun set h => by cases h
  | some set =>
    refine Run.exists_bind_pure_iff.trans ?_
    rw [(printsEach_entry methods f _).printCollectionUsingMethod_returns_iff]
    exact ⟨fun h _ eq => Option.some.inj eq ▸ h, fun h => h set rfl⟩

/-- A `print_fn` returns if and only if nothing it needs is missing. -/
theorem printFn_returns_iff (limit : ℤ) (idx xmlDepth : ℕ) (obj : Obj) :
    (∃ text, printFn methods f limit idx xmlDepth obj = .ok text) ↔
      ContainerPrints methods limit idx obj := by
  match idx with
  | 0 =>
    refine Run.exists_bind_pure_iff.trans ?_
    rw [(printsEach_normal methods f _).printCollectionUsingMethod_returns_iff]
    simp [ContainerPrints]
  | 1 => exact printEntries_returns_iff ..
  | 2 => exact printEntries_returns_iff ..
  | n + 3 => exact iff_of_false (by rintro ⟨_, ⟨⟩⟩) id

/-! ## The text of the leaks -/

section

variable (numElementsToDump : ℤ)

theorem printLeakingObject_returns_iff (xmlDepth idx : ℕ) (lo : LeakingObject Obj) :
    (∃ r, printLeakingObject methods f numElementsToDump xmlDepth (idx, lo) = .ok r) ↔
      ContainerPrints methods numElementsToDump idx lo.obj := by
  rw [← printFn_returns_iff (f := f) numElementsToDump idx (xmlDepth + 1)]
  exact Run.exists_bind_pure_iff

theorem printLeakingObjects_returns_iff (leaks : List (ℕ × LeakingObject Obj)) (xmlDepth : ℕ) :
    (∃ r, printLeakingObjects methods f numElementsToDump leaks xmlDepth = .ok r) ↔
      ∀ leak ∈ leaks, ContainerPrints methods numElementsToDump leak.1 leak.2.obj := by
  induction leaks generalizing xmlDepth with
  | nil => exact iff_of_true ⟨_, rfl⟩ fun _ mem => by cases mem
  | cons leak leaks ih =>
    rw [List.forall_mem_cons,
      ← printLeakingObject_returns_iff (f := f) numElementsToDump xmlDepth leak.1 leak.2]
    constructor
    · rintro ⟨r, h⟩
      obtain ⟨⟨text, depth⟩, first, h⟩ := Run.bind_eq_ok.1 h
      obtain ⟨others, rest, -⟩ := Run.bind_eq_ok.1 h
      exact ⟨⟨_, first⟩, (ih depth).1 ⟨others, rest⟩⟩
    · rintro ⟨⟨⟨text, depth⟩, first⟩, fine⟩
      obtain ⟨others, rest⟩ := (ih depth).2 fine
      exact ⟨_, Run.bind_eq_ok.2 ⟨_, first, Run.bind_eq_ok.2 ⟨others, rest, rfl⟩⟩⟩

end

/-! ## What is printed -/

section

variable {objectsWithTag : ℕ → List Obj} {h h' : CHeap (MemoryNode Obj)} {leak : LeakingNode}
  {leaks : List LeakingNode} {g : GlobalData} {isNeedReferences : Bool}

/-- The leak is reported: it has a chain, or unreachable objects are shown. -/
def Shown (g : GlobalData) (objectsWithTag : ℕ → List Obj) (isNeedReferences : Bool)
    (h : CHeap (MemoryNode Obj)) (leak : LeakingNode) : Prop :=
  g.showUnreachables = true ∨ isNeedReferences = true ∧
    Leads (LinkedTo g (referencesOf h)) (HoldsRoot g (referencesOf h))
      (carriers objectsWithTag leak.leakNumber h) leak.node

/-- What is printed for the leak is its object, if it is reported. -/
structure PrintedAs (g : GlobalData) (objectsWithTag : ℕ → List Obj) (isNeedReferences : Bool)
    (h : CHeap (MemoryNode Obj)) (leak : LeakingNode) (printed : Option (LeakingObject Obj)) : Prop where
  shown : printed.isSome = true ↔ Shown g objectsWithTag isNeedReferences h leak
  object : ∀ lo ∈ printed, LeakObject h leak lo.obj

theorem LeakObject.unique {o o' : Obj} (first : LeakObject h leak o) (second : LeakObject h leak o') :
    o = o' := by
  obtain ⟨nd, hnd, hobj⟩ := first
  obtain ⟨nd', hnd', hobj'⟩ := second
  obtain rfl := Option.some.inj (hnd.symm.trans hnd')
  exact Option.some.inj (hobj.symm.trans hobj')

theorem Finds.shown_iff {found : Option (String × Obj × Option (Str × List MemoryReferer))}
    (finds : Finds g objectsWithTag h leak isNeedReferences found) :
    found.isSome = true ↔ Shown g objectsWithTag isNeedReferences h leak := by
  cases finds with
  | object _ shows => exact iff_of_true rfl (.inl shows)
  | chain need first => exact iff_of_true rfl (.inr ⟨need, first.leads⟩)
  | references _ shows => exact iff_of_true rfl (.inl shows)
  | nothing hides nowhere =>
    refine iff_of_false Bool.false_ne_true ?_
    rintro (shows | ⟨need, leads⟩)
    · exact Bool.noConfusion (hides.symm.trans shows)
    · exact nowhere need leads

theorem Finds.leakObject {classname : String} {o : Obj} {refs : Option (Str × List MemoryReferer)}
    (finds : Finds g objectsWithTag h leak isNeedReferences (some (classname, o, refs))) :
    LeakObject h leak o := by
  cases finds with
  | object _ _ object => exact object
  | chain _ _ object => exact object
  | references _ _ _ object => exact object

/-- Printing one leak changes nothing for another. -/
theorem PrintedAs.of_frame {leakNumber : ℕ} {printed : Option (LeakingObject Obj)}
    (frame : GraphFrame objectsWithTag leakNumber h h') (printable : Printable objectsWithTag leaks h)
    (mem : leak ∈ leaks) (other : leak.leakNumber ≠ leakNumber)
    (as : PrintedAs g objectsWithTag isNeedReferences h' leak printed) :
    PrintedAs g objectsWithTag isNeedReferences h leak printed where
  shown := by
    have shown := as.shown
    unfold Shown at shown ⊢
    rwa [frame.referencesOf_eq, frame.carriers_eq other] at shown
  object lo hlo := by
    obtain ⟨nd', hnd', hobj'⟩ := as.object lo hlo
    obtain ⟨nd, hnd, hobj⟩ := printable.leak leak mem
    obtain ⟨o, hobj⟩ := Option.isSome_iff_exists.1 hobj
    obtain ⟨x, hx, same⟩ := frame.node _ nd hnd
    obtain rfl := Option.some.inj (hnd'.symm.trans hx)
    obtain rfl := Option.some.inj (hobj'.symm.trans (same.obj o hobj))
    exact ⟨nd, hnd, hobj⟩

variable [DecidableEq Obj]

theorem printLeak_printedAs (pr : Printer Obj) (env : Agent Obj) {st st' : ChainState Obj}
    (printable : Printable objectsWithTag leaks st.nodes) (mem : leak ∈ leaks) {fuel : ℕ}
    (enough : st.nodes.dom.card < fuel) {printed : Option (LeakingObject Obj)}
    (run : pr.printLeak env objectsWithTag fuel isNeedReferences leak st = .ok (printed, st')) :
    PrintedAs env.gdata objectsWithTag isNeedReferences st.nodes leak printed := by
  obtain ⟨found, st₁, hfind, finds, -⟩ := findLeak_finds pr env printable mem enough isNeedReferences
  have shown := finds.shown_iff
  unfold Printer.printLeak at run
  rw [hfind, Run.ok_bind] at run
  cases found with
  | none =>
    cases run
    exact ⟨shown, fun lo hlo => by cases hlo⟩
  | some found =>
    obtain ⟨⟨references, nodes⟩, -, run⟩ := Run.bind_eq_ok.1 run
    cases run
    refine ⟨shown, fun lo hlo => ?_⟩
    cases hlo
    exact finds.leakObject

/-- Printing all leaks returns if the named referrers are alive, and changes of the graph only what
lookups and searches change. -/
theorem printReferencesChainForLeakingNodes_printed (pr : Printer Obj) (env : Agent Obj)
    (st : ChainState Obj) (printable : Printable objectsWithTag leaks st.nodes)
    (numbers : (leaks.map (·.leakNumber)).Nodup) {fuel : ℕ} (enough : st.nodes.dom.card < fuel)
    (alive : isNeedReferences = true →
      ∀ leak ∈ leaks, NamedReferrersAlive env.gdata objectsWithTag st.nodes leak) :
    ∃ printed st', pr.printReferencesChainForLeakingNodes env objectsWithTag fuel isNeedReferences
      leaks st = .ok (printed, st') ∧
        List.Forall₂ (PrintedAs env.gdata objectsWithTag isNeedReferences st.nodes) leaks printed ∧
        Printed st.nodes st'.nodes := by
  induction leaks generalizing st with
  | nil => exact ⟨[], st, rfl, .nil, .refl st.nodes⟩
  | cons leak rest ih =>
    rw [List.map_cons, List.nodup_cons] at numbers
    have differ : ∀ l ∈ rest, l.leakNumber ≠ leak.leakNumber := fun l hl same =>
      numbers.1 (same ▸ List.mem_map_of_mem hl)
    have first := printLeak_printsIf pr env printable List.mem_cons_self enough isNeedReferences
    obtain ⟨printed, st₁, hfirst, frame, named⟩ := first.returns fun need =>
      alive need leak List.mem_cons_self
    have printable₁ := frame.printable printable named
    obtain ⟨printeds, st₂, hrest, as, kept⟩ := ih st₁
      { printable₁ with leak := fun l hl => printable₁.leak l (List.mem_cons_of_mem _ hl) } numbers.2
      (frame.dom ▸ enough) fun need l hl => (frame.namedReferrersAlive_iff (differ l hl)).2
        (alive need l (List.mem_cons_of_mem _ hl))
    refine ⟨printed :: printeds, st₂, ?_, .cons (printLeak_printedAs pr env printable
      List.mem_cons_self enough hfirst) ?_, frame.printed.trans kept⟩
    · rw [Printer.printReferencesChainForLeakingNodes, hfirst, Run.ok_bind]
      simp only [hrest, Run.ok_bind]
      rfl
    · refine ((List.forall₂_and_left (p := (· ∈ rest)) rest printeds).2 ⟨fun _ hl => hl, as⟩).imp ?_
      rintro l p ⟨hl, as⟩
      exact as.of_frame frame printable (List.mem_cons_of_mem _ hl) (differ l hl)

/-! ## The report while it is printed -/

omit [DecidableEq Obj] in
theorem printedLeaks_cons (idx : ℕ) (descriptors : List ℕ) (p : Option (LeakingObject Obj))
    (printed : List (Option (LeakingObject Obj))) :
    printedLeaks (idx :: descriptors) (p :: printed) =
      p.toList.map (idx, ·) ++ printedLeaks descriptors printed := by
  cases p <;> rfl

omit [DecidableEq Obj] in
/-- The leaks that are reported can be printed if the containers of all that are shown can. -/
theorem printedLeaks_print_iff {limit : ℤ} {described : List (ℕ × LeakingNode)}
    {printed : List (Option (LeakingObject Obj))}
    (objects : ∀ leak ∈ described, ∃ o, LeakObject h leak.2 o)
    (as : List.Forall₂ (PrintedAs g objectsWithTag isNeedReferences h) (described.map Prod.snd) printed) :
    (∀ l ∈ printedLeaks (described.map Prod.fst) printed,
        ContainerPrints methods limit l.1 l.2.obj) ↔
      ∀ idx leak o, (idx, leak) ∈ described → Shown g objectsWithTag isNeedReferences h leak →
        LeakObject h leak o → ContainerPrints methods limit idx o := by
  induction described generalizing printed with
  | nil =>
    cases as
    exact iff_of_true (fun _ mem => by cases mem) fun _ _ _ mem => by cases mem
  | cons leak described ih =>
    obtain ⟨idx, leak⟩ := leak
    obtain ⟨o, object⟩ := objects _ List.mem_cons_self
    cases as with
    | @cons _ p _ printed first rest =>
      have later := ih (fun leak mem => objects leak (List.mem_cons_of_mem _ mem)) rest
      have here : (∀ lo ∈ p, ContainerPrints methods limit idx lo.obj) ↔
          (Shown g objectsWithTag isNeedReferences h leak → ContainerPrints methods limit idx o) := by
        rw [← first.shown]
        cases p with
        | none => exact iff_of_true (fun _ mem => by cases mem) fun some => by cases some
        | some lo =>
          rw [object.unique (first.object lo rfl)]
          exact ⟨fun fine _ => fine lo rfl, fun fine _ eq => Option.some.inj eq ▸ fine rfl⟩
      have split : (∀ l ∈ printedLeaks (idx :: described.map Prod.fst) (p :: printed),
          ContainerPrints methods limit l.1 l.2.obj) ↔
            (∀ lo ∈ p, ContainerPrints methods limit idx lo.obj) ∧
              ∀ l ∈ printedLeaks (described.map Prod.fst) printed,
                ContainerPrints methods limit l.1 l.2.obj := by
        rw [printedLeaks_cons, List.forall_mem_append]
        simp
      rw [List.map_cons, split, here, later]
      constructor
      · rintro ⟨fine, others⟩ idx' leak' o' mem shown object'
        rcases List.mem_cons.1 mem with eq | mem
        · cases eq
          rw [← object.unique object']
          exact fine shown
        · exact others idx' leak' o' mem shown object'
      · exact fun all => ⟨fun shown => all idx leak o List.mem_cons_self shown object,
          fun idx' leak' o' mem => all idx' leak' o' (List.mem_cons_of_mem _ mem)⟩

variable {numElementsToDump : ℤ}

/-- One turn of the loop returns what is printed and its text. -/
theorem reportLeak_eq_ok (pr : Printer Obj) (env : Agent Obj) {fuel idx xmlDepth xmlDepth' : ℕ}
    {st st' : ChainState Obj} {printed : Option (LeakingObject Obj)} {text : Str} :
    reportLeak methods f numElementsToDump pr env objectsWithTag fuel isNeedReferences idx leak xmlDepth
        st = .ok (printed, text, xmlDepth', st') ↔
      pr.printLeak env objectsWithTag fuel isNeedReferences leak st = .ok (printed, st') ∧
        printed.elim (.ok ([], xmlDepth)) (fun lo => printLeakingObject methods f numElementsToDump
          xmlDepth (idx, lo)) = .ok (text, xmlDepth') := by
  unfold reportLeak Printer.printLeak
  cases pr.findLeak env objectsWithTag fuel isNeedReferences leak st with
  | error e => simp
  | ok found =>
    obtain ⟨found, st₁⟩ := found
    rw [Run.mapError_ok, Run.ok_bind, Run.ok_bind]
    cases found with
    | none =>
      constructor
      · rintro ⟨⟩
        exact ⟨rfl, rfl⟩
      · rintro ⟨⟨⟩, ⟨⟩⟩
        rfl
    | some found =>
      obtain ⟨classname, o, refs⟩ := found
      constructor
      · intro h
        obtain ⟨contents, container, h⟩ := Run.bind_eq_ok.1 h
        obtain ⟨⟨references, nodes⟩, refs, h⟩ := Run.bind_eq_ok.1 h
        rw [Run.mapError_eq_ok] at container refs
        cases h
        exact ⟨Run.bind_eq_ok.2 ⟨_, refs, rfl⟩, Run.bind_eq_ok.2 ⟨contents, container, rfl⟩⟩
      · rintro ⟨h, text⟩
        obtain ⟨⟨references, nodes⟩, refs, h⟩ := Run.bind_eq_ok.1 h
        cases h
        obtain ⟨contents, container, text⟩ := Run.bind_eq_ok.1 text
        cases text
        exact Run.bind_eq_ok.2 ⟨contents, Run.mapError_eq_ok.2 container,
          Run.bind_eq_ok.2 ⟨_, Run.mapError_eq_ok.2 refs, rfl⟩⟩

/-- The loop returns what is printed and its text. -/
theorem reportLeaks_eq_ok (pr : Printer Obj) (env : Agent Obj) {fuel : ℕ}
    {described : List (ℕ × LeakingNode)} {xmlDepth xmlDepth' : ℕ} {st st' : ChainState Obj}
    {printed : List (Option (LeakingObject Obj))} {text : Str} :
    reportLeaks methods f numElementsToDump pr env objectsWithTag fuel isNeedReferences described
        xmlDepth st = .ok (printed, text, xmlDepth', st') ↔
      pr.printReferencesChainForLeakingNodes env objectsWithTag fuel isNeedReferences
          (described.map Prod.snd) st = .ok (printed, st') ∧
        printLeakingObjects methods f numElementsToDump
          (printedLeaks (described.map Prod.fst) printed) xmlDepth = .ok (text, xmlDepth') := by
  induction described generalizing xmlDepth st printed text with
  | nil =>
    constructor
    · rintro ⟨⟩
      exact ⟨rfl, rfl⟩
    · rintro ⟨⟨⟩, ⟨⟩⟩
      rfl
  | cons leak described ih =>
    obtain ⟨idx, leak⟩ := leak
    constructor
    · intro h
      obtain ⟨⟨first, line, depth, st₁⟩, turn, h⟩ := Run.bind_eq_ok.1 h
      obtain ⟨⟨others, lines, depth₂, st₂⟩, rest, h⟩ := Run.bind_eq_ok.1 h
      cases h
      obtain ⟨turn, line⟩ := (reportLeak_eq_ok pr env).1 turn
      obtain ⟨rest, lines⟩ := ih.1 rest
      refine ⟨Run.bind_eq_ok.2 ⟨_, turn, Run.bind_eq_ok.2 ⟨_, rest, rfl⟩⟩, ?_⟩
      cases first with
      | none =>
        cases line
        exact lines
      | some lo => exact Run.bind_eq_ok.2 ⟨_, line, Run.bind_eq_ok.2 ⟨_, lines, rfl⟩⟩
    · rintro ⟨h, lines⟩
      obtain ⟨⟨first, st₁⟩, turn, h⟩ := Run.bind_eq_ok.1 h
      obtain ⟨⟨others, st₂⟩, rest, h⟩ := Run.bind_eq_ok.1 h
      cases h
      cases first with
      | none => exact Run.bind_eq_ok.2 ⟨_, (reportLeak_eq_ok pr env).2 ⟨turn, rfl⟩,
          Run.bind_eq_ok.2 ⟨_, ih.2 ⟨rest, lines⟩, rfl⟩⟩
      | some lo =>
        obtain ⟨⟨line, depth⟩, first, lines⟩ := Run.bind_eq_ok.1 lines
        obtain ⟨⟨texts, depth₂⟩, others, lines⟩ := Run.bind_eq_ok.1 lines
        cases lines
        exact Run.bind_eq_ok.2 ⟨_, (reportLeak_eq_ok pr env).2 ⟨turn, first⟩,
          Run.bind_eq_ok.2 ⟨_, ih.2 ⟨rest, others⟩, rfl⟩⟩

end

end JLeaker
