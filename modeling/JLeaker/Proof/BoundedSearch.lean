import JLeaker.Proof.ChainsInHeap
import JLeaker.Proof.FanInExact
import JLeaker.Proof.MorePasses
import JLeaker.Proof.RecordedOnce
import JLeaker.Proof.StopEarly
import Mathlib.Algebra.BigOperators.Group.Finset.Piecewise

/-!
# How far the passes can go

A record that names a referrer is made once for each reference, and the record of a heap root finishes a
leak.  So the references and the leaks bound the records, the nodes and, since a pass is followed by
another one only if it has made a record, the number of passes.
-/

namespace JLeaker

variable {Obj : Type} [DecidableEq Obj]

theorem card_filter_lt {α : Type} {s : Finset α} {p q : α → Prop} [DecidablePred p] [DecidablePred q]
    (imp : ∀ a, q a → p a) {a : α} (mem : a ∈ s) (old : p a) (new : ¬ q a) :
    (s.filter q).card < (s.filter p).card := by
  refine Finset.card_lt_card (Finset.ssubset_iff_subset_ne.2
    ⟨Finset.monotone_filter_right _ fun a _ => imp a, fun same => ?_⟩)
  exact new (Finset.mem_filter.1 (same.ge (Finset.mem_filter.2 ⟨mem, old⟩))).2

/-! ## What is left to record -/

/-- The number of records in the lists of all nodes. -/
def Search.records (s : Search Obj) : ℕ := ∑ a ∈ s.nodes.dom, (referencesOf s.nodes a).length

/-- The reference has a referrer, and is on record at the node of its object. -/
def OnRecord (s : Search Obj) (r : HeapReference Obj) : Prop :=
  ∃ o, r.referrer = some o ∧ s.tags o ≠ 0 ∧ s.tags r.referee ≠ 0 ∧
    recordOf s.tags r ∈ referencesOf s.nodes (s.tags r.referee)

open scoped Classical in
/-- The number of references that are not on record. -/
noncomputable def openReferences (refs : Finset (HeapReference Obj)) (s : Search Obj) : ℕ :=
  (refs.filter fun r => ¬ OnRecord s r).card

/-- The number of leaks below `n` that are not finished. -/
def openLeaks (n : ℕ) (s : Search Obj) : ℕ :=
  ((Finset.range n).filter fun l => s.leaksFinished.bit l = false).card

/-- The label of every node is the number of a leak. -/
def LabelsBelow (n : ℕ) (s : Search Obj) : Prop := ∀ l a, Marked s.nodes l a → l < n

omit [DecidableEq Obj] in
theorem openReferences_le (refs : Finset (HeapReference Obj)) (s : Search Obj) :
    openReferences refs s ≤ refs.card := by
  classical
  exact Finset.card_filter_le _ _

omit [DecidableEq Obj] in
theorem openLeaks_le (n : ℕ) (s : Search Obj) : openLeaks n s ≤ n :=
  (Finset.card_filter_le _ _).trans_eq (Finset.card_range n)

/-! ## One report -/

section Report

variable {env : Agent Obj} {refs : Finset (HeapReference Obj)} {n : ℕ} {s s' s'' : Search Obj}
  {r r' : HeapReference Obj} {thisNode : MemoryNode Obj}

theorem LabelsBelow.outcome (below : LabelsBelow n s) (out : Outcome env s r s') :
    LabelsBelow n s' := by
  intro l a marked
  cases out with
  | skipped => exact below l a marked
  | dropped => exact below l a (marked_countFanIn.1 marked)
  | recorded thisNode records =>
    rcases marked_recorded_cases records.node marked with old | ⟨-, old, -⟩
    · exact below l a old
    · exact below l _ old

theorem OnRecord.outcome (old : OnRecord s r') (out : Outcome env s r s') : OnRecord s' r' := by
  obtain ⟨o, referrer, tagged, refereeTagged, mem⟩ := old
  have same : recordOf s'.tags r' = recordOf s.tags r' := by
    simp [recordOf, referrer, ClassesTagged.tags_outcome out tagged]
  rw [OnRecord, same, ClassesTagged.tags_outcome out refereeTagged]
  exact ⟨o, referrer, (ClassesTagged.tags_outcome out tagged).trans_ne tagged, refereeTagged,
    referencesOf_subset_outcome out _ mem⟩

/-- A report that records a reference with a referrer records one that was not on record. -/
theorem onRecord_recorded (ok : SearchOk n s) (records : Records env s r thisNode)
    (referrerTag : ReferrerTagOk s r) {o : Obj} (referrer : r.referrer = some o) :
    ¬ OnRecord s r ∧ OnRecord (s.recorded env r thisNode) r := by
  constructor
  · rintro ⟨o', referrer', tagged, -, mem⟩
    obtain rfl : o = o' := Option.some.inj (referrer.symm.trans referrer')
    have same : recordOf s.tags r = newReferer env s r := by
      simp [recordOf, newReferer, refNodeOf, referrer, tagged]
    rw [same, referencesOf_of_get? records.node] at mem
    exact ok.newReferer_notMem records referrerTag referrer mem
  · have same : recordOf (s.recorded env r thisNode).tags r = newReferer env s r := by
      rw [recordOf, newReferer, referrer, refNodeOf_eq_tags env s thisNode referrer]
      rfl
    have kept := tags_recorded_of_ne_zero env s r thisNode records.tagged
    refine ⟨o, referrer, ?_, kept.trans_ne records.tagged, ?_⟩
    · rw [tags_recorded]
      split_ifs with new
      · exact s.nodes.fresh_ne_zero env.malloc
      · exact fun zero => new ⟨referrer, zero⟩
    · rw [same, kept]
      exact newReferer_mem_recorded env records.node

/-- A report that records the reference of a root finishes a leak. -/
theorem exists_finished (ok : SearchOk n s) (below : LabelsBelow n s)
    (records : Records env s r thisNode) (root : isRootReference r.kind = true) :
    ∃ l < n, s.leaksFinished.bit l = false ∧
      (s.recorded env r thisNode).leaksFinished.bit l = true := by
  have some : ¬ ∀ l, thisNode.leaksRelated.bit l = true → s.leaksFinished.bit l = true := by
    rw [← BitmaskSet.containsAll_iff (ok.finished ▸ (ok.node _ _ records.node).size),
      records.unfinished]
    exact Bool.false_ne_true
  push Not at some
  obtain ⟨l, label, unfinished⟩ := some
  refine ⟨l, below l _ ⟨thisNode, records.node, label⟩, eq_false_of_ne_true unfinished, ?_⟩
  by_contra still
  have := (ok.unfinished_recorded records.node (eq_false_of_ne_true still)).2 root
  exact Bool.noConfusion (label.symm.trans this)

omit [DecidableEq Obj] in
theorem referencesOf_of_notMem {a : ℕ} (notMem : a ∉ s.nodes.dom) : referencesOf s.nodes a = [] := by
  simp [referencesOf, s.nodes.get?_of_notMem notMem]

theorem records_countFanIn : (s.countFanIn env r).records = s.records := by
  rw [Search.records, referencesOf_countFanIn]
  rfl

/-- A report makes one record at most. -/
theorem records_recorded (records : Records env s r thisNode) :
    (s.recorded env r thisNode).records = s.records + 1 := by
  have grown := dom_subset_grownHeap env s r
  have mem : s.tags r.referee ∈ (grownHeap env s r).dom :=
    grown (s.nodes.mem_dom_of_get? records.node)
  have one : ∀ a, (referencesOf (s.recorded env r thisNode).nodes a).length =
      (referencesOf s.nodes a).length + if a = s.tags r.referee then 1 else 0 := by
    intro a
    rw [referencesOf_recorded records.node]
    split_ifs
    · exact List.length_append
    · rfl
  have old : ∑ a ∈ (grownHeap env s r).dom, (referencesOf s.nodes a).length = s.records := by
    refine (Finset.sum_subset grown fun a _ new => ?_).symm
    rw [referencesOf_of_notMem new, List.length_nil]
  rw [Search.records, dom_recorded, Finset.sum_congr rfl fun a _ => one a, Finset.sum_add_distrib,
    old, Finset.sum_ite_eq', if_pos mem]

/-- Of the nodes a report makes one at most, and none for a heap root. -/
theorem card_dom_recorded : (s.recorded env r thisNode).nodes.dom.card ≤
    s.nodes.dom.card + if r.referrer.isSome then 1 else 0 := by
  rw [dom_recorded, grownHeap]
  rcases r.referrer with _ | o
  · simp
  · by_cases tagged : s.tags o = 0
    · simpa [tagged] using Finset.card_insert_le _ _
    · simp [tagged]

/-- What is recorded between two states is taken from the open references and leaks. -/
structure Spends (refs : Finset (HeapReference Obj)) (n : ℕ) (s s' : Search Obj) : Prop where
  records : s'.records + openReferences refs s' + openLeaks n s' ≤
    s.records + openReferences refs s + openLeaks n s
  nodes : s'.nodes.dom.card + openReferences refs s' ≤ s.nodes.dom.card + openReferences refs s
  kept : s.records ≤ s'.records
  quiet : s'.records = s.records → s'.nodesFound = s.nodesFound

omit [DecidableEq Obj] in
theorem Spends.refl (refs : Finset (HeapReference Obj)) (n : ℕ) (s : Search Obj) :
    Spends refs n s s := ⟨le_rfl, le_rfl, le_rfl, fun _ => rfl⟩

omit [DecidableEq Obj] in
theorem Spends.trans (first : Spends refs n s s') (second : Spends refs n s' s'') :
    Spends refs n s s'' where
  records := second.records.trans first.records
  nodes := second.nodes.trans first.nodes
  kept := first.kept.trans second.kept
  quiet same := by
    have := first.kept
    have := second.kept
    exact (second.quiet (by omega)).trans (first.quiet (by omega))

omit [DecidableEq Obj] in
theorem openReferences_mono (kept : ∀ r, OnRecord s r → OnRecord s' r) :
    openReferences refs s' ≤ openReferences refs s := by
  classical
  exact Finset.card_le_card (Finset.monotone_filter_right _ fun r _ still => mt (kept r) still)

omit [DecidableEq Obj] in
theorem openReferences_lt (kept : ∀ r, OnRecord s r → OnRecord s' r) (mem : r ∈ refs)
    (before : ¬ OnRecord s r) (after : OnRecord s' r) :
    openReferences refs s' < openReferences refs s := by
  classical
  exact card_filter_lt (fun r still => mt (kept r) still) mem before (not_not.2 after)

omit [DecidableEq Obj] in
theorem openLeaks_mono (kept : ∀ l, s.leaksFinished.bit l = true → s'.leaksFinished.bit l = true) :
    openLeaks n s' ≤ openLeaks n s :=
  Finset.card_le_card (Finset.monotone_filter_right _ fun l _ still => by
    simpa [still] using mt (kept l))

omit [DecidableEq Obj] in
theorem openLeaks_lt (kept : ∀ l, s.leaksFinished.bit l = true → s'.leaksFinished.bit l = true)
    {l : ℕ} (lt : l < n) (before : s.leaksFinished.bit l = false)
    (after : s'.leaksFinished.bit l = true) : openLeaks n s' < openLeaks n s :=
  card_filter_lt (fun l still => by simpa [still] using mt (kept l)) (Finset.mem_range.2 lt) before
    (by simp [after])

/-- A report of one of the references spends what it records. -/
theorem spends_outcome (ok : SearchOk n s) (below : LabelsBelow n s)
    (mem : r.referrer.isSome → r ∈ refs) (out : Outcome env s r s') : Spends refs n s s' := by
  have references : ∀ r', OnRecord s r' → OnRecord s' r' := fun _ old => old.outcome out
  have finished : ∀ l, s.leaksFinished.bit l = true → s'.leaksFinished.bit l = true :=
    fun _ h => finished_outcome h out
  have fewerReferences : openReferences refs s' ≤ openReferences refs s :=
    openReferences_mono references
  have fewerLeaks := openLeaks_mono (n := n) finished
  cases out with
  | skipped => exact .refl refs n s
  | dropped =>
    have same : (s.countFanIn env r).records = s.records := records_countFanIn
    exact ⟨by omega, Nat.add_le_add_left fewerReferences _, same.ge, fun _ => rfl⟩
  | recorded thisNode records classTag referrerTag =>
    have one := records_recorded records
    have nodes : (s.recorded env r thisNode).nodes.dom.card ≤ _ := card_dom_recorded
    rcases referrer : r.referrer with _ | o
    · obtain ⟨l, lt, before, after⟩ := exists_finished ok below records
        (isRootReference_of_referrer_eq_none referrer)
      have spent := openLeaks_lt finished lt before after
      simp only [referrer, Option.isSome_none, Bool.false_eq_true, if_false] at nodes
      exact ⟨by omega, by omega, by omega, fun same => by omega⟩
    · obtain ⟨before, after⟩ := onRecord_recorded ok records referrerTag referrer
      have spent := openReferences_lt references (mem (by rw [referrer]; rfl)) before after
      simp only [referrer, Option.isSome_some, if_true] at nodes
      exact ⟨by omega, by omega, by omega, fun same => by omega⟩

end Report

/-! ## The passes -/

section Passes

variable {env : Agent Obj} {refs : Finset (HeapReference Obj)} {n : ℕ} {s t : Search Obj}

/-- What the bounds rest on. -/
structure Bounded (n : ℕ) (s : Search Obj) : Prop where
  ok : SearchOk n s
  labels : LabelsBelow n s

theorem Bounded.outcome {s' : Search Obj} {r : HeapReference Obj} (bounded : Bounded n s)
    (out : Outcome env s r s') : Bounded n s' := ⟨bounded.ok.outcome out, bounded.labels.outcome out⟩

omit [DecidableEq Obj] in
theorem Bounded.resetNodesFound (bounded : Bounded n s) : Bounded n s.resetNodesFound :=
  ⟨bounded.ok.resetNodesFound, bounded.labels⟩

/-- A pass spends what it records. -/
theorem spends_pass {order : List (HeapReference Obj)} (all : ∀ r ∈ order, r.referrer.isSome → r ∈ refs)
    (bounded : Bounded n s) (pass : order.foldlM (reportReference env) s = .ok t) :
    Bounded n t ∧ Spends refs n s t := by
  refine Run.foldlM_invariant (P := fun _ r => r.referrer.isSome → r ∈ refs)
    (I := fun t => Bounded n t ∧ Spends refs n s t) (fun u r u' kept mem report => ?_)
    (Run.meets_of_forall (fun _ => all) s) ⟨bounded, .refl refs n s⟩ pass
  have out := reportReference_outcome report
  exact ⟨kept.1.outcome out, kept.2.trans (spends_outcome kept.1.ok kept.1.labels mem out)⟩

omit [DecidableEq Obj] in
/-- Before a pass nothing is counted. -/
theorem hasUnfinished_resetNodesFound (same : t.nodesFound = s.resetNodesFound.nodesFound) :
    t.hasUnfinished = false := by
  refine eq_false_of_ne_true fun unfinished => ?_
  obtain ⟨j, -, hj⟩ := List.any_eq_true.1 unfinished
  have zero : t.nodesFound.getD j 0 = 0 := by
    rw [same, Search.resetNodesFound, List.getD_eq_getElem?_getD, List.getElem?_map]
    cases s.nodesFound[j]? <;> rfl
  rw [zero] at hj
  simp at hj

/-- A pass after which the loop goes on has recorded something. -/
theorem spends_lt {order : List (HeapReference Obj)} (all : ∀ r ∈ order, r.referrer.isSome → r ∈ refs)
    (bounded : Bounded n s) (pass : order.foldlM (reportReference env) s.resetNodesFound = .ok t)
    (goesOn : t.hasUnfinished = true) :
    openReferences refs t + openLeaks n t < openReferences refs s + openLeaks n s := by
  obtain ⟨-, spends⟩ := spends_pass all bounded.resetNodesFound pass
  have recorded : t.records ≠ s.records := fun same =>
    Bool.noConfusion ((hasUnfinished_resetNodesFound (spends.quiet same)).symm.trans goesOn)
  have kept : s.records ≤ t.records := spends.kept
  have total : t.records + openReferences refs t + openLeaks n t ≤
    s.records + openReferences refs s + openLeaks n s := spends.records
  omega

/-- With more passes than there are references and leaks left to record, any number does the same. -/
theorem heapIterations_stable {order : ℕ → List (HeapReference Obj)}
    (all : ∀ i, ∀ r ∈ order i, r.referrer.isSome → r ∈ refs) {k m i : ℕ} (bounded : Bounded n s)
    (enough : openReferences refs s + openLeaks n s < k) (le : k ≤ m) :
    heapIterations env order m i s = heapIterations env order k i s := by
  induction k generalizing m i s with
  | zero => exact absurd enough (Nat.not_lt_zero _)
  | succ k ih =>
    obtain ⟨m, rfl⟩ : ∃ j, m = j + 1 := ⟨m - 1, by omega⟩
    simp only [heapIterations]
    cases pass : (order i).foldlM (reportReference env) s.resetNodesFound with
    | error e => rfl
    | ok t =>
      simp only [Run.ok_bind]
      by_cases goesOn : t.hasUnfinished = true
      · have fewer := spends_lt (all i) bounded pass goesOn
        have rest := ih (m := m) (i := i + 1) (spends_pass (all i) bounded.resetNodesFound pass).1
          (by omega) (by omega)
        rw [rest]
      · rw [eq_false_of_ne_true goesOn]
        rfl

end Passes

/-! ## The bounds of a dump -/

theorem heapIterations_congr {env env' : Agent Obj}
    (same : reportReference env' = reportReference env) (order : ℕ → List (HeapReference Obj))
    (n i : ℕ) (s : Search Obj) : heapIterations env' order n i s = heapIterations env order n i s := by
  induction n generalizing i s with
  | zero => rfl
  | succ n ih =>
    simp only [heapIterations, same, ih]

theorem length_classNodes_le (env : Agent Obj) (ignoreFields : Obj → List IgnoreField)
    (classes : List Obj) (st : List ℕ × AgentState Obj) :
    (classes.foldl (tagClass env ignoreFields) st).1.length ≤ st.1.length + classes.length := by
  induction classes generalizing st with
  | nil => exact le_rfl
  | cons klass classes ih =>
    have step : (tagClass env ignoreFields st klass).1.length ≤ st.1.length + 1 := by
      unfold tagClass
      split_ifs
      · exact Nat.le_succ _
      · exact (List.length_append ..).le
    have rest := ih (tagClass env ignoreFields st klass)
    rw [List.foldl_cons, List.length_cons]
    omega

namespace Dump

variable (d : Dump Obj)

theorem bounded_start : Bounded d.leaks.length d.start := by
  refine ⟨d.searchOk_start, fun l a marked => ?_⟩
  obtain ⟨leak, mem, -, rfl⟩ := d.marked_start marked
  exact d.leakNumber_lt mem

theorem records_start : d.start.records = 0 :=
  Finset.sum_eq_zero fun a _ => by rw [d.referencesOf_start, List.length_nil]

/-- Before the passes only leaks and classes have nodes. -/
theorem card_dom_start : d.start.nodes.dom.card ≤ d.leaks.length + d.loadedClasses.length := by
  have sub : d.start.nodes.dom ⊆ (d.leaks.map (·.node) ++ d.classNodes).toFinset := by
    intro a mem
    rw [List.mem_toFinset, List.mem_append, ← d.leaks_searched.mem]
    exact (d.classNodes_tagged.mem a).1 mem
  have length : d.classNodes.length ≤ d.loadedClasses.length := by
    have := length_classNodes_le d.agent d.ignoreFields d.loadedClasses ([], d.searched.2)
    rwa [List.length_nil, Nat.zero_add] at this
  refine (Finset.card_le_card sub).trans ((List.toFinset_card_le _).trans ?_)
  rw [List.length_append, List.length_map]
  omega

/-- What reports of the references have spent since the start. -/
theorem spends_after {refs : Finset (HeapReference Obj)} {events : List (SearchEvent Obj)}
    (all : ∀ r, .report r ∈ events → r.referrer.isSome → r ∈ refs) {s : Search Obj}
    (run : d.start.after d.agent events = .ok s) :
    Bounded d.leaks.length s ∧
      s.records + openReferences refs s + openLeaks d.leaks.length s ≤ refs.card + d.leaks.length ∧
      s.nodes.dom.card + openReferences refs s ≤
        d.leaks.length + d.loadedClasses.length + refs.card := by
  refine Run.foldlM_invariant (P := fun _ e => ∀ r, e = .report r → r.referrer.isSome → r ∈ refs)
    (I := fun t => Bounded d.leaks.length t ∧
      t.records + openReferences refs t + openLeaks d.leaks.length t ≤ refs.card + d.leaks.length ∧
      t.nodes.dom.card + openReferences refs t ≤
        d.leaks.length + d.loadedClasses.length + refs.card) (fun t e t' kept mem step => ?_)
    (Run.meets_of_forall (fun _ _ he r report => all r (by rwa [← report])) _) ?_ run
  · obtain ⟨bounded, records, nodes⟩ := kept
    cases e with
    | pass =>
      cases step
      exact ⟨bounded.resetNodesFound, records, nodes⟩
    | report r =>
      have out := reportReference_outcome step
      have spends := spends_outcome bounded.ok bounded.labels (mem r rfl) out
      exact ⟨bounded.outcome out, spends.records.trans records, spends.nodes.trans nodes⟩
  · have records := d.records_start
    have nodes := d.card_dom_start
    have references := openReferences_le refs d.start
    have leaks := openLeaks_le d.leaks.length d.start
    exact ⟨d.bounded_start, by omega, by omega⟩

/-- The graph and the number of passes are bounded by the references that name a referrer, the leaks and
the loaded classes: a node never has more than `max_fan_in - 1` records from objects of one class, and a
limit above the number of references and leaks is as good as any larger one. -/
theorem search_bounded (refs : Finset (HeapReference Obj)) :
    (∀ events s, (∀ r, .report r ∈ events → r.referrer.isSome → r ∈ refs) →
      d.start.after d.agent events = .ok s →
        s.records ≤ refs.card + d.leaks.length ∧
        s.nodes.dom.card ≤ d.leaks.length + d.loadedClasses.length + refs.card ∧
        (2 ≤ d.agent.gdata.maxFanIn → ∀ a nd, s.nodes.get? a = some nd → ∀ klass ∈ d.loadedClasses,
          klass ≠ d.agent.jvm.classClass →
            recordsFromClass d.agent.jvm s.tags klass nd ≤ d.agent.gdata.maxFanIn - 1)) ∧
    ((∀ i, ∀ r ∈ d.order i, r.referrer.isSome → r ∈ refs) →
      refs.card + d.leaks.length < d.agent.gdata.referenceChainLength →
        ∀ n, d.agent.gdata.referenceChainLength ≤ n → ∀ locals,
          (d.withOptions n locals).run = d.run) := by
  constructor
  · intro events s all run
    obtain ⟨-, records, nodes⟩ := d.spends_after all run
    refine ⟨by omega, by omega, fun limit a nd hnd klass loaded notClass => ?_⟩
    have counters := countersExact_after limit run
    exact (counters.node a nd hnd klass loaded notClass).le.trans (min_le_right _ _)
  · intro all enough n le locals
    have references := openReferences_le refs d.start
    have leaks := openLeaks_le d.leaks.length d.start
    have stable : heapIterations d.agent d.order n.toNat 0 d.start =
        heapIterations d.agent d.order d.agent.gdata.referenceChainLength.toNat 0 d.start :=
      heapIterations_stable all d.bounded_start (by omega) (by omega)
    exact (heapIterations_congr (d.reportReference_withOptions n locals) _ _ _ _).trans stable

theorem search_bounded_heldByUnheld :
    (∃ s, Sample.heldByUnheld.start.after Sample.heldByUnheld.agent
        [.pass, .report (Sample.field 3 8 0), .pass, .report (Sample.field 3 8 0)] = .ok s ∧
      s.records ≤ 2 ∧ s.nodes.dom.card ≤ 5) ∧
      (Sample.heldByUnheld.withOptions 1000 true).run = Sample.heldByUnheld.run := by
  have bounds := Sample.heldByUnheld.search_bounded {Sample.field 3 8 0}
  constructor
  · obtain ⟨s, run, -⟩ := Run.exists_ok_of_any (x := Sample.heldByUnheld.start.after
      Sample.heldByUnheld.agent
        [.pass, .report (Sample.field 3 8 0), .pass, .report (Sample.field 3 8 0)])
      (p := fun _ => true) (by decide +kernel)
    obtain ⟨records, nodes, -⟩ := bounds.1 _ s (fun r mem _ => by simpa using mem) run
    exact ⟨s, run, records, nodes⟩
  · refine bounds.2 (fun i r mem _ => ?_) (by decide +kernel) 1000 (by decide) true
    exact Finset.mem_singleton.2 (List.mem_singleton.1 mem)

end Dump

end JLeaker
