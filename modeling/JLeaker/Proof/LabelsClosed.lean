import JLeaker.Proof.Finished
import JLeaker.Proof.Reached

/-!
# Labels and recorded references

A report hands the labels of the referenced node on to the referrer once, when it records the
reference.  The labels stay closed under the recorded references exactly as long as no node gets a
label that a holder recorded before does not have.
-/

namespace JLeaker

variable {Obj : Type} [DecidableEq Obj]

namespace Dump

variable (d : Dump Obj)

/-- The node was created during the passes: neither list holds it. -/
def Created (a : ℕ) : Prop := a ∉ d.leaks.map (·.node) ∧ a ∉ d.classNodes

/-- Every label of an unfinished leak is on all created nodes that the records lead to. -/
def LabelsClosed (s : Search Obj) : Prop :=
  ∀ a nd ref b nd', s.nodes.get? a = some nd → ref ∈ nd.start → ref.node = some b →
    s.nodes.get? b = some nd' → d.Created b → ∀ l, s.leaksFinished.contains l = false →
      nd.leaksRelated.contains l = true → nd'.leaksRelated.contains l = true

/-- A label that the report adds to the referrer's node, and does not finish, is on all other created
nodes that the referrer's records lead to. -/
def LabelsInTime (s : Search Obj) (r : HeapReference Obj) : Prop :=
  ∀ thisNode, Records d.agent s r thisNode → isRootReference r.kind = false →
    ∀ o refNode, r.referrer = some o → s.nodes.get? (s.tags o) = some refNode →
      ∀ l < refNode.leaksRelated.size, thisNode.leaksRelated.bit l = true →
        s.leaksFinished.contains l = false → refNode.leaksRelated.contains l = false →
        ∀ ref ∈ refNode.start, ∀ b nd', ref.node = some b → b ≠ s.tags o →
          s.nodes.get? b = some nd' → d.Created b → nd'.leaksRelated.contains l = true

/-- The event is the start of a pass or a report that adds its labels in time. -/
def InTime (s : Search Obj) : SearchEvent Obj → Prop
  | .pass => True
  | .report r => d.LabelsInTime s r

/-! ## The sets of the created nodes -/

/-- The sets of created nodes have room for every leak. -/
structure SetsFit (s : Search Obj) : Prop where
  ok : SearchOk d.leaks.length s
  listed : ∀ a, ¬ d.Created a → a ∈ s.nodes.dom
  created : ∀ a nd, s.nodes.get? a = some nd → d.Created a →
    nd.leaksRelated.size = d.leaks.length

theorem setsFit_start : d.SetsFit d.start where
  ok := d.searchOk_start
  listed a ha := by
    rw [Created, not_and_or, not_not, not_not] at ha
    exact (d.classNodes_tagged.mem a).2 (ha.imp_left (d.leaks_searched.mem a).2)
  created a nd h ha := by
    rcases d.node_cases h with ⟨leak, hleak, o, rfl, rfl⟩ | ⟨klass, _, hclass, rfl⟩
    · exact absurd (List.mem_map_of_mem hleak) ha.1
    · exact absurd hclass ha.2

variable {d} {s s' : Search Obj} {r : HeapReference Obj} {thisNode : MemoryNode Obj}

namespace SetsFit

theorem resetNodesFound (fit : d.SetsFit s) : d.SetsFit s.resetNodesFound :=
  ⟨fit.ok.resetNodesFound, fit.listed, fit.created⟩

theorem outcome (fit : d.SetsFit s) (out : Outcome d.agent s r s') : d.SetsFit s' := by
  refine ⟨fit.ok.outcome out, fun a ha => ?_, fun a nd' h ha => ?_⟩
  · have hmem := fit.listed a ha
    cases out with
    | skipped => exact hmem
    | dropped => exact hmem
    | recorded thisNode =>
      rw [dom_recorded]
      exact dom_subset_grownHeap d.agent s r hmem
  · cases out with
    | skipped => exact fit.created a nd' h ha
    | dropped =>
      rw [get?_countFanIn, Option.map_eq_some_iff] at h
      obtain ⟨nd, hnd, rfl⟩ := h
      exact fit.created a nd hnd ha
    | recorded thisNode records =>
      obtain ⟨nd, rfl, hnd | ⟨_, rfl⟩⟩ := get?_recorded_eq_some records.node h
      · rw [size_recordedNode]
        exact fit.created a nd hnd ha
      · rw [size_recordedNode, ← fit.ok.number]
        rfl

end SetsFit

/-! ## One report -/

/-- Below the number of leaks the finished set is read exactly. -/
theorem SetsFit.finished_contains (fit : d.SetsFit s) {l : ℕ} (hl : l < d.leaks.length) :
    s.leaksFinished.contains l = s.leaksFinished.bit l := by
  rw [Bool.eq_iff_iff, BitmaskSet.contains_iff, fit.ok.finished]
  exact and_iff_right hl

theorem LabelsClosed.countFanIn (closed : d.LabelsClosed s) :
    d.LabelsClosed (s.countFanIn d.agent r) := by
  intro a x' ref b y' hx' href hb hy'
  rw [get?_countFanIn, Option.map_eq_some_iff] at hx' hy'
  obtain ⟨x, hx, rfl⟩ := hx'
  obtain ⟨y, hy, rfl⟩ := hy'
  exact closed a x ref b y hx href hb hy

/-- A label of a node after the report is an old one or is handed on by it. -/
theorem contains_recordedNode (thisNode : MemoryNode Obj) (a : ℕ) (nd : MemoryNode Obj) (l : ℕ) :
    (recordedNode d.agent s r thisNode a nd).leaksRelated.contains l = true ↔
      nd.leaksRelated.contains l = true ∨ l < nd.leaksRelated.size ∧
        refNodeOf d.agent s r = some a ∧ thisNode.leaksRelated.bit l = true ∧
        s.leaksFinished.bit l = false := by
  rw [BitmaskSet.contains_iff, BitmaskSet.contains_iff, size_recordedNode, bit_recordedNode]
  constructor
  · rintro ⟨hl, hbit | ⟨href, hbit, hfin, -⟩⟩
    · exact .inl ⟨hl, hbit⟩
    · exact .inr ⟨hl, href, hbit, hfin⟩
  · rintro (⟨hl, hbit⟩ | ⟨hl, href, hbit, hfin⟩)
    · exact ⟨hl, .inl hbit⟩
    · exact ⟨hl, .inr ⟨href, hbit, hfin, Nat.div_le_div_right hl.le⟩⟩

/-- A label that is unfinished after a report was unfinished before. -/
theorem SetsFit.unfinished_before (fit : d.SetsFit s) (records : Records d.agent s r thisNode)
    {l : ℕ} (hl : l < d.leaks.length)
    (hfin : (s.recorded d.agent r thisNode).leaksFinished.contains l = false) :
    s.leaksFinished.bit l = false ∧
      (isRootReference r.kind = true → thisNode.leaksRelated.bit l = false) := by
  apply fit.ok.unfinished_recorded records.node
  have hsize : (s.recorded d.agent r thisNode).leaksFinished.size = d.leaks.length := by
    simp only [Search.recorded]
    split_ifs
    · exact fit.ok.finished
    · exact fit.ok.finished
  rw [Bool.eq_false_iff] at hfin ⊢
  exact fun hbit => hfin ((BitmaskSet.contains_iff _ l).2 ⟨hsize ▸ hl, hbit⟩)

/-- Labels added in time keep the labels closed. -/
theorem LabelsClosed.recorded (fit : d.SetsFit s) {thisNode : MemoryNode Obj}
    (records : Records d.agent s r thisNode) (closed : d.LabelsClosed s)
    (inTime : d.LabelsInTime s r) : d.LabelsClosed (s.recorded d.agent r thisNode) := by
  intro a x' ref b y' hx' href hb hy' hcreated l hfin hl
  obtain ⟨x, rfl, hx⟩ := get?_recorded_eq_some records.node hx'
  obtain ⟨y, rfl, hy⟩ := get?_recorded_eq_some records.node hy'
  have hsize : y.leaksRelated.size = d.leaks.length := by
    rcases hy with hy | ⟨_, rfl⟩
    · exact fit.created b y hy hcreated
    · exact fit.ok.number
  rw [contains_recordedNode] at hl ⊢
  have hlt : l < d.leaks.length := by
    have hle : x.leaksRelated.size ≤ d.leaks.length := by
      rcases hx with hx | ⟨_, rfl⟩
      · exact (fit.ok.node a x hx).size
      · exact fit.ok.number.le
    rcases hl with hl | ⟨hl, -⟩
    · exact lt_of_lt_of_le ((BitmaskSet.contains_iff _ l).1 hl).1 hle
    · exact lt_of_lt_of_le hl hle
  obtain ⟨hfinBefore, hroot⟩ := fit.unfinished_before records hlt hfin
  have hcontains : s.leaksFinished.contains l = false := by
    rw [fit.finished_contains hlt, hfinBefore]
  rcases mem_start_recordedNode.1 href with hold | ⟨rfl, rfl⟩
  · -- a record of before: its node and the node it leads to were there
    have hx : s.nodes.get? a = some x := by
      rcases hx with hx | ⟨_, rfl⟩
      · exact hx
      · simp [newMemoryNode] at hold
    obtain ⟨y₀, hy₀⟩ := s.nodes.exists_get?_of_mem ((fit.ok.node a x hx).target ref hold b hb)
    obtain rfl : y = y₀ := by
      rcases hy with hy | ⟨⟨o, hnew⟩, -⟩
      · exact Option.some.inj (hy.symm.trans hy₀)
      · rw [hnew.get?_eq_none] at hy₀
        cases hy₀
    by_cases hxl : x.leaksRelated.contains l = true
    · exact .inl (closed a x ref b y hx hold hb hy₀ hcreated l hcontains hxl)
    · obtain ⟨hlx, hrefNode, hbit, -⟩ := hl.resolve_left hxl
      by_cases hba : b = a
      · subst hba
        obtain rfl := Option.some.inj (hx.symm.trans hy₀)
        exact .inr ⟨hlx, hrefNode, hbit, hfinBefore⟩
      have hnotRoot : isRootReference r.kind = false := by
        rw [Bool.eq_false_iff]
        exact fun h => Bool.false_ne_true ((hroot h).symm.trans hbit)
      obtain ⟨o, ho, htag⟩ := Option.map_eq_some_iff.1 hrefNode
      obtain rfl : s.tags o = a := by
        split_ifs at htag with hne
        · exact htag
        · rw [← htag, s.nodes.get?_fresh] at hx
          cases hx
      exact .inl (inTime thisNode records hnotRoot o x ho hx l hlx hbit hcontains
        (Bool.eq_false_iff.2 hxl) ref hold b y hb hba hy₀ hcreated)
  · -- the record just made: the report hands the label on to its node
    obtain rfl := eq_thisNode records.node hx
    have hbit : x.leaksRelated.bit l = true := by
      rcases hl with hl | ⟨-, -, hl, -⟩
      · exact ((BitmaskSet.contains_iff _ l).1 hl).2
      · exact hl
    exact .inr ⟨hsize ▸ hlt, hb, hbit, hfinBefore⟩

/-- A recorded report that keeps the labels closed adds its labels in time. -/
theorem LabelsClosed.inTime (fit : d.SetsFit s) {thisNode : MemoryNode Obj}
    (records : Records d.agent s r thisNode)
    (closed : d.LabelsClosed (s.recorded d.agent r thisNode)) : d.LabelsInTime s r := by
  intro nd hrecords hroot o refNode ho hrefNode l hl hbit hfin _ ref href b y hb hne hy hcreated
  obtain rfl := Option.some.inj (hrecords.node.symm.trans records.node)
  have htag : s.tags o ≠ 0 := s.nodes.ne_zero_of_mem (s.nodes.mem_dom_of_get? hrefNode)
  have hreferrer : refNodeOf d.agent s r = some (s.tags o) := by
    rw [refNodeOf, ho, Option.map_some, if_pos htag]
  have hlt : l < d.leaks.length := lt_of_lt_of_le hl (fit.ok.node _ _ hrefNode).size
  have hfinAfter : (s.recorded d.agent r nd).leaksFinished.contains l = false := by
    simp only [Search.recorded, hroot, Bool.false_eq_true, if_false]
    exact hfin
  have hstart : ref ∈ (recordedNode d.agent s r nd (s.tags o) refNode).start := by
    simp only [recordedNode]
    split_ifs
    · exact List.mem_append_left _ href
    · exact href
  have hlabel : (recordedNode d.agent s r nd (s.tags o) refNode).leaksRelated.contains l = true := by
    rw [contains_recordedNode]
    exact .inr ⟨hl, hreferrer, hbit, fit.finished_contains hlt ▸ hfin⟩
  have after := closed _ _ ref b _ (get?_recorded_of_get? records.node hrefNode) hstart hb
    (get?_recorded_of_get? records.node hy) hcreated l hfinAfter hlabel
  rw [contains_recordedNode] at after
  refine after.resolve_right fun h => hne ?_
  exact Option.some.inj (h.2.1.symm.trans hreferrer)

/-- From closed labels, a report keeps the labels closed exactly if it adds its labels in time. -/
theorem LabelsClosed.outcome_iff (fit : d.SetsFit s) (closed : d.LabelsClosed s)
    (out : Outcome d.agent s r s') : d.LabelsClosed s' ↔ d.LabelsInTime s r := by
  cases out with
  | skipped idle =>
    refine iff_of_true closed fun thisNode records => ?_
    exact absurd records.toPasses (idle records.toReported thisNode)
  | dropped thisNode _ passes _ drops =>
    refine iff_of_true closed.countFanIn fun nd records => ?_
    obtain rfl := Option.some.inj (records.node.symm.trans passes.node)
    exact absurd drops (not_or.2 ⟨records.byClass, records.byReferrer⟩)
  | recorded thisNode records =>
    exact ⟨LabelsClosed.inTime fit records, LabelsClosed.recorded fit records closed⟩

theorem labelsClosed_start : d.LabelsClosed d.start := by
  intro a nd ref _ _ ha href
  have hnone := d.referencesOf_start a
  rw [referencesOf, ha] at hnone
  exact absurd hnone (List.ne_nil_of_mem href)

theorem Reached.setsFit (reached : d.Reached s) : d.SetsFit s :=
  reached.invariant (fun _ fit => fit.resetNodesFound)
    (fun _ _ _ fit h => fit.outcome (reportReference_outcome h)) d.setsFit_start

/-- From closed labels, an event keeps the labels closed exactly if it is in time. -/
theorem LabelsClosed.step_iff (fit : d.SetsFit s) (closed : d.LabelsClosed s)
    {e : SearchEvent Obj} (step : s.step d.agent e = .ok s') :
    d.LabelsClosed s' ↔ d.InTime s e := by
  cases e with
  | pass =>
    cases step
    exact iff_of_true closed trivial
  | report r => exact closed.outcome_iff fit (reportReference_outcome step)

end Dump

/-- The labels are closed in every state reached if and only if every event adds its labels in time;
in particular they are closed when `tagReferencesChain` returns from passes that do. -/
theorem labelsClosed_iff_inTime (d : Dump Obj) :
    (∀ events, (∀ pre post s, events = pre ++ post → d.start.after d.agent pre = .ok s →
        d.LabelsClosed s) ↔
      ∀ pre e post s s', events = pre ++ e :: post → d.start.after d.agent pre = .ok s →
        s.step d.agent e = .ok s' → d.InTime s e) ∧
    ∀ s, d.run = .ok s → d.Meets d.LabelsInTime → d.LabelsClosed s := by
  refine ⟨fun events => ⟨?_, ?_⟩, fun s run meets => ?_⟩
  · rintro closed pre e post s s' rfl before step
    have after : d.start.after d.agent (pre ++ [e]) = .ok s' := by
      rw [Search.after_concat, before, Run.ok_bind, step]
    have hs' := closed (pre ++ [e]) post s' (by simp) after
    exact ((closed pre (e :: post) s rfl before).step_iff (Dump.Reached.setsFit ⟨pre, before⟩)
      step).1 hs'
  · intro inTime pre
    induction pre using List.reverseRecOn with
    | nil =>
      rintro post s - run
      cases run
      exact Dump.labelsClosed_start
    | append_singleton pre e ih =>
      rintro post s' rfl run
      rw [Search.after_concat, Run.bind_eq_ok] at run
      obtain ⟨s, before, step⟩ := run
      have closed := ih (e :: post) s (by simp) before
      exact (closed.step_iff (Dump.Reached.setsFit ⟨pre, before⟩) step).2
        (inTime pre e post s s' (by simp) before step)
  · let I : Search Obj → Prop := fun s => d.SetsFit s ∧ d.LabelsClosed s
    refine (Dump.run_invariant (I := I) (fun s h => ⟨h.1.resetNodesFound, h.2⟩) ?_ meets
      ⟨d.setsFit_start, Dump.labelsClosed_start⟩ run).2
    intro s r s' h inTime hreport
    have out := reportReference_outcome hreport
    exact ⟨h.1.outcome out, (h.2.outcome_iff h.1 out).2 inTime⟩

/-- Two leaks in two holders, one of which holds the other and is held by a third object. -/
def Sample.sharedUnheld : Dump (Fin 12) :=
  dump [(3, 1000), (4, 1000)]
    [field 9 10 0, field 3 8 0, field 8 9 0, field 4 9 1, field 4 8 2] fun _ => []

/-- The holder at address 5 gets the label of the second leak after the holder at address 6 has it. -/
theorem labelsClosed_iff_inTime_sharedUnheld :
    ∃ s nd ref nd', Sample.sharedUnheld.run = .ok s ∧ s.nodes.get? 5 = some nd ∧ ref ∈ nd.start ∧
      ref.node = some 6 ∧ s.nodes.get? 6 = some nd' ∧ nd.leaksRelated.contains 1 = true ∧
      nd'.leaksRelated.contains 1 = true := by
  obtain ⟨s, run, hs⟩ := Run.exists_ok_of_any (x := Sample.sharedUnheld.run)
    (p := fun s => !s.leaksFinished.contains 1 &&
      (s.nodes.get? 5).any (fun nd => nd.leaksRelated.contains 1 && (s.nodes.get? 6).isSome &&
        nd.start.any fun ref => ref.node = some 6))
    (by decide +kernel)
  simp only [Bool.and_eq_true, Bool.not_eq_true', Option.any_eq_true, List.any_eq_true,
    decide_eq_true_eq, Option.isSome_iff_exists] at hs
  obtain ⟨unfinished, nd, hnd, ⟨label, nd', hnd'⟩, ref, href, hnode⟩ := hs
  have meets : Sample.sharedUnheld.Meets fun s r =>
      Sample.testLabels s r (fun _ refNode l => s.leaksFinished.contains l ||
        refNode.leaksRelated.contains l || refNode.start.all fun ref => ref.node.all fun b =>
          decide (b = (r.referrer.map s.tags).getD 0) ||
            (s.nodes.get? b).all fun nd' => nd'.leaksRelated.contains l) = true := by
    decide +kernel
  have closed := (labelsClosed_iff_inTime Sample.sharedUnheld).2 s run (meets.mono fun s r h =>
    fun thisNode records _ o refNode ho hnd l _ hbit hfin hno ref href b nd' hb hne hnd' _ => by
      have := Sample.of_testLabels h records.node ho hnd hbit
      simp only [hfin, hno, Bool.false_or, ho, Option.map_some, Option.getD_some] at this
      have := List.all_eq_true.1 this ref href
      simpa [hb, hne, hnd'] using this)
  exact ⟨s, nd, ref, nd', run, hnd, href, hnode, hnd', label,
    closed 5 nd ref 6 nd' hnd href hnode hnd' ⟨by decide +kernel, by decide +kernel⟩ 1 unfinished label⟩

/-- Two leaks share the holder 8, which gets the label of the second one after its own holder 9 was
recorded. -/
def Sample.lateLabel : Dump (Fin 12) :=
  dump [(3, 1000), (4, 1000)] [field 8 9 0, field 3 8 0, field 10 8 1, field 4 10 0] fun _ => []

/-- The search of the shared holder ends by itself, with a label that was never handed on. -/
theorem labels_not_closed :
    ∃ s, Sample.lateLabel.run = .ok s ∧ s.hasUnfinished = false ∧
      ¬ Sample.lateLabel.LabelsClosed s := by
  obtain ⟨s, run, hs⟩ := Run.exists_ok_of_any (x := Sample.lateLabel.run)
    (p := fun s => !s.hasUnfinished && !s.leaksFinished.contains 1 &&
      (s.nodes.get? 5).any (fun nd => nd.leaksRelated.contains 1 &&
        (s.nodes.get? 7).any (fun nd' => !nd'.leaksRelated.contains 1 &&
          nd.start.any fun ref => ref.node = some 7)))
    (by decide +kernel)
  simp only [Bool.and_eq_true, Bool.not_eq_true', Option.any_eq_true, List.any_eq_true,
    decide_eq_true_eq] at hs
  obtain ⟨⟨hdone, hfin⟩, nd, hnd, hlabel, nd', hnd', hno, ref, href, hnode⟩ := hs
  refine ⟨s, run, hdone, fun closed => Bool.false_ne_true (hno.symm.trans ?_)⟩
  exact closed 5 nd ref 7 nd' hnd href hnode hnd' ⟨by decide +kernel, by decide +kernel⟩ 1 hfin
    hlabel

end JLeaker
