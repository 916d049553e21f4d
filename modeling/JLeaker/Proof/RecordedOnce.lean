import JLeaker.Proof.Reached

/-!
# How often a reference is recorded

A reference of a tagged referrer is looked up before it is recorded, and one of an untagged referrer
points to a node that no record knows.  A heap root is not looked up: only the test that all leaks
of its object are finished keeps it from being recorded again, and that test fails once the node has
taken over another leak.
-/

namespace JLeaker

variable {Obj : Type} [DecidableEq Obj]

/-- No list of references holds a record twice. -/
def RecordsOnce (s : Search Obj) : Prop := ∀ a, (referencesOf s.nodes a).Nodup

/-- The record made of the reference of a heap root. -/
def rootReferer (r : HeapReference Obj) : MemoryReferer := ⟨r.kind, r.info.getD {}, none⟩

/-- If the reference is that of a heap root which the node of its object has on record, all leaks of
the node are finished. -/
def RootSettled (env : Agent Obj) (s : Search Obj) (r : HeapReference Obj) : Prop :=
  Reported env s r → r.referrer = none → ∀ thisNode,
    s.nodes.get? (s.tags r.referee) = some thisNode →
    rootReferer r ∈ thisNode.start → s.leaksFinished.containsAll thisNode.leaksRelated = true

/-! ## One report -/

section Report

variable {env : Agent Obj} {s s' : Search Obj} {r : HeapReference Obj} {thisNode : MemoryNode Obj}
  {numberOfLeaks : ℕ}

omit [DecidableEq Obj] in
theorem newReferer_of_root (env : Agent Obj) (s : Search Obj) (root : r.referrer = none) :
    newReferer env s r = rootReferer r := by
  simp [newReferer, rootReferer, refNodeOf, root]

omit [DecidableEq Obj] in
/-- The list of references of a node whose address is known. -/
theorem referencesOf_of_get? {a : ℕ} {nd : MemoryNode Obj} (hnd : s.nodes.get? a = some nd) :
    referencesOf s.nodes a = nd.start := by
  simp [referencesOf, hnd]

/-- The record of a reference with a referrer is a new one. -/
theorem SearchOk.newReferer_notMem (ok : SearchOk numberOfLeaks s)
    (records : Records env s r thisNode) (referrerTag : ReferrerTagOk s r) {o : Obj}
    (referrer : r.referrer = some o) : newReferer env s r ∉ thisNode.start := by
  intro mem
  by_cases tagged : s.tags o = 0
  · -- the referrer gets a node at an address that no record points to
    have target : (newReferer env s r).node = some (s.nodes.fresh env.malloc) := by
      simp [newReferer, refNodeOf, referrer, tagged]
    exact s.nodes.fresh_notMem env.malloc ((ok.node _ _ records.node).target _ mem _ target)
  · obtain ⟨refNode, hrefNode⟩ := referrerTag o referrer tagged
    refine records.byReferrer ⟨o, refNode, referrer, tagged, hrefNode, .inr ?_⟩
    refine List.any_eq_true.2 ⟨newReferer env s r, mem, ?_⟩
    cases hinfo : r.info <;> simp [newReferer, refNodeOf, referrer, tagged, hinfo]

/-- A report keeps the records apart when the heap roots are settled. -/
theorem RecordsOnce.outcome (ok : SearchOk numberOfLeaks s) (settled : RootSettled env s r)
    (once : RecordsOnce s) (out : Outcome env s r s') : RecordsOnce s' := by
  intro a
  cases out with
  | skipped => exact once a
  | dropped =>
    rw [referencesOf_countFanIn]
    exact once a
  | recorded thisNode records classTag referrerTag =>
    rw [referencesOf_recorded records.node]
    split_ifs with ha
    · have new : newReferer env s r ∉ thisNode.start := by
        rcases root : r.referrer with _ | o
        · rw [newReferer_of_root env s root]
          intro mem
          have finished := settled records.toReported root thisNode records.node mem
          rw [records.unfinished] at finished
          cases finished
        · exact ok.newReferer_notMem records referrerTag root
      rw [ha, referencesOf_of_get? records.node]
      apply List.Nodup.append
      · exact referencesOf_of_get? records.node ▸ once (s.tags r.referee)
      · exact List.nodup_singleton _
      · exact List.disjoint_singleton.2 new
    · exact once a

/-- A heap root that is not settled is recorded once more. -/
theorem not_recordsOnce_of_root (reported : Reported env s r) (passes : Passes env s r thisNode)
    (root : r.referrer = none) (mem : rootReferer r ∈ thisNode.start) :
    ∃ s', reportReference env s r = .ok s' ∧ ¬ RecordsOnce s' := by
  have noClass : referrerClassTag env.jvm s.tags r = 0 := by
    simp [referrerClassTag, root]
  have byClass : ¬ DropsByClass env s r thisNode := by
    rintro ⟨_, tagged, _⟩
    exact tagged noClass
  have byReferrer : ¬ DropsByReferrer s r thisNode := not_dropsByReferrer (by simp [root])
  have referrerTag : ReferrerTagOk s r := by
    intro o referrer
    rw [root] at referrer
    cases referrer
  obtain ⟨s', run, out⟩ := reportReference_ok (fun _ => ⟨thisNode, passes.node⟩)
    (fun tagged => absurd noClass tagged) referrerTag
  refine ⟨s', run, fun once => ?_⟩
  cases out with
  | skipped idle => exact idle reported thisNode passes
  | dropped nd _ passes' _ drops =>
    obtain rfl : thisNode = nd := Option.some.inj (passes.node.symm.trans passes'.node)
    exact drops.elim byClass byReferrer
  | recorded nd records =>
    have twice := once (s.tags r.referee)
    rw [referencesOf_recorded records.node, if_pos rfl, referencesOf_of_get? passes.node,
      newReferer_of_root env s root] at twice
    exact List.disjoint_of_nodup_append twice mem (List.mem_singleton_self _)

/-- No local reference of the dumping thread is on record. -/
def NoOwnLocals (env : Agent Obj) (s : Search Obj) : Prop :=
  ∀ a, ∀ ref ∈ referencesOf s.nodes a,
    localReferenceOfThisThread env.threadId ref.kind (some ref.info) = false

theorem NoOwnLocals.outcome (none_own : NoOwnLocals env s) (out : Outcome env s r s') :
    NoOwnLocals env s' := by
  intro a ref mem
  cases out with
  | skipped => exact none_own a ref mem
  | dropped =>
    rw [referencesOf_countFanIn] at mem
    exact none_own a ref mem
  | recorded thisNode records =>
    rw [referencesOf_recorded records.node] at mem
    split_ifs at mem
    · rcases List.mem_append.1 mem with old | new
      · exact none_own a ref old
      · obtain rfl := List.mem_singleton.1 new
        exact records.notLocal
    · exact none_own a ref mem

omit [DecidableEq Obj] in
/-- A heap root that is not settled gets past the first tests of the callback. -/
theorem SearchOk.passes_root (ok : SearchOk numberOfLeaks s) (none_own : NoOwnLocals env s)
    (hthis : s.nodes.get? (s.tags r.referee) = some thisNode) (mem : rootReferer r ∈ thisNode.start)
    (unfinished : s.leaksFinished.containsAll thisNode.leaksRelated = false) :
    Passes env s r thisNode := by
  obtain ⟨l, label, open_label⟩ := ok.exists_label hthis unfinished
  have notLocal : localReferenceOfThisThread env.threadId r.kind r.info = false :=
    none_own _ _ (referencesOf_of_get? hthis ▸ mem)
  exact ok.passes hthis label open_label notLocal

end Report

/-! ## Every run -/

namespace Dump

variable (d : Dump Obj)

theorem recordsOnce_start : RecordsOnce d.start := by
  intro a
  rw [d.referencesOf_start]
  exact List.nodup_nil

theorem Reached.noOwnLocals {s : Search Obj} (reached : d.Reached s) : NoOwnLocals d.agent s := by
  refine reached.invariant (fun _ h => h) (fun _ _ _ h run => ?_) ?_
  · exact h.outcome (reportReference_outcome run)
  · intro a ref mem
    rw [d.referencesOf_start] at mem
    cases mem

theorem Reached.searchOk {s : Search Obj} (reached : d.Reached s) : SearchOk d.leaks.length s :=
  reached.invariant (fun _ ok => ok.resetNodesFound)
    (fun _ _ _ ok run => ok.outcome (reportReference_outcome run)) d.searchOk_start

/-- In every state of a run all records are apart, if and only if every heap root reported in the
run is settled: where its record is at the node of its object already, the leaks of the node are
finished. -/
theorem recordsOnce_iff (events : List (SearchEvent Obj)) :
    (∀ before s, before <+: events → d.start.after d.agent before = .ok s → RecordsOnce s) ↔
      ∀ before r s, before ++ [.report r] <+: events → d.start.after d.agent before = .ok s →
        RootSettled d.agent s r := by
  constructor
  · intro once before r s inside run reported root thisNode hthis mem
    by_contra unsettled
    have reached : d.Reached s := ⟨before, run⟩
    have passes : Passes d.agent s r thisNode := reached.searchOk.passes_root reached.noOwnLocals
      hthis mem (by simpa using unsettled)
    obtain ⟨s', report, twice⟩ := not_recordsOnce_of_root reported passes root mem
    refine twice (once _ s' inside ?_)
    rw [Search.after_concat, run, Run.ok_bind]
    exact report
  · intro settled before
    -- the induction takes the last event of the run off
    induction before using List.reverseRecOn with
    | nil =>
      intro s _ run
      cases run
      exact d.recordsOnce_start
    | append_singleton before e ih =>
      intro s inside run
      rw [Search.after_concat, Run.bind_eq_ok] at run
      obtain ⟨t, first, last⟩ := run
      have once : RecordsOnce t := ih t ((List.prefix_append _ _).trans inside) first
      cases e with
      | pass =>
        cases last
        exact once
      | report r =>
        have ok : SearchOk d.leaks.length t := Reached.searchOk d ⟨before, first⟩
        exact once.outcome ok (settled before r t inside first) (reportReference_outcome last)

end Dump

/-- The holder 8 of two leaks is a JNI global.  When the second leak is handed to its node, the
first one is finished and the JNI global is on record. -/
def Sample.globalHolder : Dump (Fin 12) :=
  dump [(3, 1000), (4, 400)] [field 3 8 0, jniGlobal 8, field 4 8 1] fun _ => []

/-- Two passes report the JNI global once each, and the second report is recorded as well. -/
theorem root_recorded_twice :
    ∃ s, Sample.globalHolder.run = .ok s ∧ Sample.globalHolder.Reached s ∧ ¬ RecordsOnce s := by
  obtain ⟨s, run, twice⟩ := Run.exists_ok_of_any (x := Sample.globalHolder.run)
    (p := fun s : Search (Fin 12) => !decide (referencesOf s.nodes (s.tags 8)).Nodup)
    (by decide +kernel)
  refine ⟨s, run, Sample.globalHolder.reached_run run, fun once => ?_⟩
  rw [decide_eq_true (once (s.tags 8))] at twice
  cases twice

end JLeaker
