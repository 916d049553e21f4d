import JLeaker.Proof.FanInExact
import JLeaker.Proof.SearchComplete

/-!
# What a further pass would find

`tagReferencesChain` stops when no unfinished leak was counted in a pass.  Each reference of that
pass is accounted for from its report on: whatever labels the referenced node carries are finished,
or counted, or the callback would return before it records the reference (`Accounted`).  Three kinds
of reports can take this away from an earlier reference: a label handed on but not counted, a leak
size that rises above an ignore threshold, and a class object that gets its first node.
-/

namespace JLeaker

variable {Obj : Type} [DecidableEq Obj]

/-! ## References a pass is through with -/

/-- Once past its first tests, the callback would return without recording the reference. -/
def Stopped (env : Agent Obj) (s : Search Obj) (r : HeapReference Obj) (nd : MemoryNode Obj) :
    Prop :=
  localReferenceOfThisThread env.threadId r.kind r.info = true ∨ DropsByClass env s r nd ∨
    DropsByReferrer s r nd

/-- Every unfinished label of the referenced node is counted, unless the callback would return. -/
def Accounted (env : Agent Obj) (s : Search Obj) (r : HeapReference Obj) : Prop :=
  Reported env s r → ∀ nd, s.nodes.get? (s.tags r.referee) = some nd →
    ∀ l, nd.leaksRelated.bit l = true → s.leaksFinished.bit l = false →
      0 < s.nodesFound.getD l 0 ∨ Stopped env s r nd

/-- The callback would return wherever the referenced node has an unfinished label. -/
def Exhausted (env : Agent Obj) (s : Search Obj) (r : HeapReference Obj) : Prop :=
  Reported env s r → ∀ nd, s.nodes.get? (s.tags r.referee) = some nd →
    ∀ l, nd.leaksRelated.bit l = true → s.leaksFinished.bit l = false → Stopped env s r nd

/-! ## The condition on a report -/

/-- The reference is recorded, and the leak is unfinished before and after. -/
structure LeavesOpen (env : Agent Obj) (s : Search Obj) (r : HeapReference Obj)
    (thisNode : MemoryNode Obj) (l : ℕ) : Prop where
  records : Records env s r thisNode
  unfinished : s.leaksFinished.bit l = false
  notRoot : isRootReference r.kind = true → thisNode.leaksRelated.bit l = false

/-- The node after it was handed the leak size of `thisNode`. -/
def MemoryNode.resized (nd thisNode : MemoryNode Obj) : MemoryNode Obj :=
  { nd with leakSize := max nd.leakSize thisNode.leakSize }

/-- The report counts every leak for which it opens a reference of the pass: by a new label, by a
larger leak size or by a node for a class. -/
structure StopSafe (env : Agent Obj) (refs : List (HeapReference Obj)) (s : Search Obj)
    (r : HeapReference Obj) : Prop where
  label : ∀ thisNode l, LeavesOpen env s r thisNode l → ∀ o, r.referrer = some o →
    thisNode.leaksRelated.bit l = true →
    (∀ refNode, s.nodes.get? (s.tags o) = some refNode → refNode.leaksRelated.bit l = false) →
    thisNode.leaksRelated.contains l = true
  size : ∀ thisNode l, LeavesOpen env s r thisNode l → ∀ r' ∈ refs, r.referrer = some r'.referee →
    Reported env s r' → ∀ refNode, s.nodes.get? (s.tags r'.referee) = some refNode →
    refNode.leaksRelated.bit l = true → Stopped env s r' refNode →
    ¬ Stopped env s r' (refNode.resized thisNode) → thisNode.leaksRelated.contains l = true
  klass : ∀ thisNode l, LeavesOpen env s r thisNode l → ∀ r' ∈ refs,
    r.referrer = some (env.jvm.classOf r'.referee) → s.tags (env.jvm.classOf r'.referee) = 0 →
    ∀ nd, s.nodes.get? (s.tags r'.referee) = some nd → nd.leaksRelated.bit l = true →
    ¬ Stopped env s r' nd → thisNode.leaksRelated.contains l = true

/-! ## What reports only add to -/

/-- Tags stay, and nodes stay with their objects and ignored fields. -/
structure Extends (s s' : Search Obj) : Prop where
  tags : ∀ o, s.tags o ≠ 0 → s'.tags o = s.tags o
  node : ∀ a nd, s.nodes.get? a = some nd → ∃ nd', s'.nodes.get? a = some nd' ∧
    nd'.obj = nd.obj ∧ nd'.ignoreFields = nd.ignoreFields

/-- The node has gained references and counts, with its leak size as before. -/
structure Outgrows (nd' nd : MemoryNode Obj) : Prop where
  leakSize : nd'.leakSize = nd.leakSize
  start : nd.start ⊆ nd'.start
  fanIn : ∀ klass, fanCount klass nd.fanIn ≤ fanCount klass nd'.fanIn

section Report

variable {env : Agent Obj} {s s' : Search Obj} {r r' : HeapReference Obj}
  {nd nd' thisNode : MemoryNode Obj}

theorem extends_countFanIn (env : Agent Obj) (s : Search Obj) (r : HeapReference Obj) :
    Extends s (s.countFanIn env r) := by
  refine ⟨fun _ _ => rfl, fun a nd h => ?_⟩
  rw [get?_countFanIn, h]
  exact ⟨_, rfl, rfl, rfl⟩

theorem extends_recorded (hthis : s.nodes.get? (s.tags r.referee) = some thisNode) :
    Extends s (s.recorded env r thisNode) where
  tags _ h := tags_recorded_of_ne_zero env s r thisNode h
  node _ _ h := ⟨_, get?_recorded_of_get? hthis h, rfl, rfl⟩

theorem fanCount_le_fanInAfter (klass : Option Obj) :
    fanCount klass nd.fanIn ≤ fanCount klass (fanInAfter env s r nd) := by
  unfold fanInAfter
  split
  · rw [fanCount_countReference]
    split_ifs with h
    · rw [h]
      omega
    · omega
  · exact le_rfl

theorem outgrows_countFanIn (a : ℕ) : Outgrows
    { nd with fanIn := if a = s.tags r.referee then fanInAfter env s r nd else nd.fanIn } nd where
  leakSize := rfl
  start := List.Subset.refl _
  fanIn klass := by
    dsimp only
    split_ifs
    · exact fanCount_le_fanInAfter klass
    · exact le_rfl

/-- Apart from the leak size, recording a reference only adds to the nodes. -/
theorem outgrows_recordedNode (a : ℕ) : Outgrows (recordedNode env s r thisNode a nd)
    (if refNodeOf env s r = some a then nd.resized thisNode else nd) where
  leakSize := by
    simp only [recordedNode, MemoryNode.resized]
    split_ifs <;> rfl
  start := by
    have hstart : (if refNodeOf env s r = some a then nd.resized thisNode else nd).start =
        nd.start := by
      split_ifs <;> rfl
    rw [hstart]
    simp only [recordedNode]
    split_ifs
    · exact List.subset_append_left _ _
    · exact List.Subset.refl _
  fanIn klass := by
    have hfanIn : (if refNodeOf env s r = some a then nd.resized thisNode else nd).fanIn =
        nd.fanIn := by
      split_ifs <;> rfl
    rw [hfanIn]
    simp only [recordedNode]
    split_ifs
    · exact fanCount_le_fanInAfter klass
    · exact le_rfl

omit [DecidableEq Obj] in
theorem isFieldIgnored_congr {x x' : MemoryNode Obj} (ignoreFields : x'.ignoreFields =
    x.ignoreFields) (leakSize : nd'.leakSize = nd.leakSize) (index : ℤ) :
    isFieldIgnored x' nd' index = isFieldIgnored x nd index := by
  simp only [isFieldIgnored, ignoreFields, leakSize]

omit [DecidableEq Obj] in
theorem Extends.classTag (ext : Extends s s') (tagged : referrerClassTag env.jvm s.tags r ≠ 0) :
    referrerClassTag env.jvm s'.tags r = referrerClassTag env.jvm s.tags r := by
  unfold referrerClassTag at tagged ⊢
  split at tagged
  · exact absurd rfl tagged
  · exact ext.tags _ tagged

theorem DropsByClass.extends (drops : DropsByClass env s r nd) (ext : Extends s s')
    (outgrows : Outgrows nd' nd) : DropsByClass env s' r nd' := by
  obtain ⟨classNode, tagged, hnode, h⟩ := drops
  obtain ⟨classNode', hnode', hobj, hignore⟩ := ext.node _ _ hnode
  have htag := ext.classTag tagged
  refine ⟨classNode', htag ▸ tagged, htag ▸ hnode', ?_⟩
  rw [hobj, isFieldIgnored_congr hignore outgrows.leakSize]
  refine h.imp_left fun limit => limit.le.trans ?_
  rw [countReference_fst, countReference_fst]
  have := outgrows.fanIn classNode.obj
  omega

theorem DropsByReferrer.extends (drops : DropsByReferrer s r nd) (ext : Extends s s')
    (outgrows : Outgrows nd' nd) : DropsByReferrer s' r nd' := by
  obtain ⟨o, refNode, ho, tagged, hnode, h⟩ := drops
  obtain ⟨refNode', hnode', -, hignore⟩ := ext.node _ _ hnode
  have htag := ext.tags o tagged
  refine ⟨o, refNode', ho, htag ▸ tagged, htag ▸ hnode', ?_⟩
  rw [isFieldIgnored_congr hignore outgrows.leakSize, htag]
  refine h.imp_right fun known => ?_
  obtain ⟨ref, href, same⟩ := List.any_eq_true.1 known
  exact List.any_eq_true.2 ⟨ref, outgrows.start href, same⟩

theorem Stopped.extends (stopped : Stopped env s r nd) (ext : Extends s s')
    (outgrows : Outgrows nd' nd) : Stopped env s' r nd' := by
  apply stopped.imp_right
  exact Or.imp (fun h => h.extends ext outgrows) fun h => h.extends ext outgrows

/-- Counting a class leaves every reference stopped that was. -/
theorem Stopped.countFanIn {a : ℕ} (stopped : Stopped env s r' nd)
    (hnd' : (s.countFanIn env r).nodes.get? a = some nd') (hnd : s.nodes.get? a = some nd) :
    Stopped env (s.countFanIn env r) r' nd' := by
  rw [get?_countFanIn, hnd, Option.map_some] at hnd'
  rw [← Option.some.inj hnd']
  exact stopped.extends (extends_countFanIn env s r) (outgrows_countFanIn a)

end Report

/-! ## One report -/

section Pass

variable {env : Agent Obj} {refs : List (HeapReference Obj)} {s s' t : Search Obj}
  {r r' : HeapReference Obj} {nd thisNode : MemoryNode Obj} {l numberOfLeaks : ℕ}

theorem SearchOk.leavesOpen (ok : SearchOk numberOfLeaks s) (records : Records env s r thisNode)
    (hfin : (s.recorded env r thisNode).leaksFinished.bit l = false) :
    LeavesOpen env s r thisNode l :=
  have before := ok.unfinished_recorded records.node hfin
  ⟨records, before.1, before.2⟩

/-- A label inside the set of the referenced node is counted. -/
theorem LeavesOpen.counted (leaves : LeavesOpen env s r thisNode l) (ok : SearchOk numberOfLeaks s)
    (hl : thisNode.leaksRelated.contains l = true) :
    0 < (s.recorded env r thisNode).nodesFound.getD l 0 :=
  ok.counted leaves.records.node hl leaves.unfinished

omit [DecidableEq Obj] in
/-- Only the node of the referrer is handed labels. -/
theorem SearchOk.refNodeOf_eq_tags_iff (ok : SearchOk numberOfLeaks s) {o : Obj}
    (tagged : s.tags o ≠ 0) : refNodeOf env s r = some (s.tags o) ↔ r.referrer = some o := by
  constructor
  · intro href
    obtain ⟨o', ho', haddr⟩ := Option.map_eq_some_iff.1 href
    split_ifs at haddr with hnew
    · rw [ho', ok.tagged.inj o' o hnew haddr]
    · exact absurd haddr.symm (s.nodes.ne_fresh_of_mem _ (ok.tagged.mem o tagged))
  · intro ho
    simp [refNodeOf, ho, tagged]

/-- After its report a reference is accounted for. -/
theorem SearchOk.accounted (ok : SearchOk numberOfLeaks s) (out : Outcome env s r s') :
    Accounted env s' r := by
  intro reported' nd' hnd' l hbit hfin
  cases out with
  | skipped idle =>
    refine .inr (.inl ?_)
    by_contra notLocal
    exact idle reported' nd' (ok.passes hnd' hbit hfin (by simpa using notLocal))
  | dropped thisNode reported passes classTag drops =>
    have stopped : Stopped env s r thisNode := .inr drops
    exact .inr (stopped.countFanIn hnd' passes.node)
  | recorded thisNode records classTag referrerTag =>
    have hfinal : (s.recorded env r thisNode).nodes.get? (s.tags r.referee) =
        some (recordedNode env s r thisNode (s.tags r.referee) thisNode) :=
      get?_recorded_of_get? records.node records.node
    rw [tags_recorded_of_ne_zero env s r thisNode records.tagged, hfinal] at hnd'
    rw [← Option.some.inj hnd'] at hbit ⊢
    rcases ho : r.referrer with _ | o
    · -- a heap root is a root reference: its report finishes the labels
      have leaves := ok.leavesOpen records hfin
      have hlabel := leaves.notRoot (isRootReference_of_referrer_eq_none ho)
      rw [bit_recordedNode, hlabel] at hbit
      simp at hbit
    · -- the record made is one that hasReferenceBetweenObjects finds
      have href := refNodeOf_eq_tags env s thisNode ho
      have hmem := refNodeOf_mem referrerTag href
      rw [← dom_recorded env s r thisNode] at hmem
      obtain ⟨refNode, hrefNode⟩ := CHeap.exists_get?_of_mem _ hmem
      refine .inr (.inr (.inr ⟨o, refNode, ho, CHeap.ne_zero_of_mem _ hmem, hrefNode, .inr ?_⟩))
      have hnew := newReferer_mem_recorded env records.node
      rw [referencesOf, hfinal] at hnew
      refine List.any_eq_true.2 ⟨newReferer env s r, hnew, ?_⟩
      cases hinfo : r.info <;> simp [newReferer, hinfo, href]

/-- The labels that the referenced node had before a safe report stay accounted for. -/
theorem Accounted.old_label (ok : SearchOk numberOfLeaks s) (safe : StopSafe env refs s r)
    (mem : r' ∈ refs) (accounted : Accounted env s r') (leaves : LeavesOpen env s r thisNode l)
    (tagged : s.tags r'.referee ≠ 0)
    (classTagged : (s.recorded env r thisNode).tags (env.jvm.classOf r'.referee) ≠ 0)
    (hnd : s.nodes.get? (s.tags r'.referee) = some nd) (hbit : nd.leaksRelated.bit l = true) :
    0 < (s.recorded env r thisNode).nodesFound.getD l 0 ∨
      Stopped env (s.recorded env r thisNode) r'
        (recordedNode env s r thisNode (s.tags r'.referee) nd) := by
  have referrer_iff : refNodeOf env s r = some (s.tags r'.referee) ↔
      r.referrer = some r'.referee := ok.refNodeOf_eq_tags_iff tagged
  have ext : Extends s (s.recorded env r thisNode) := extends_recorded leaves.records.node
  have outgrows : Outgrows (recordedNode env s r thisNode (s.tags r'.referee) nd)
      (if refNodeOf env s r = some (s.tags r'.referee) then nd.resized thisNode else nd) :=
    outgrows_recordedNode (s.tags r'.referee)
  by_cases class_tag : s.tags (env.jvm.classOf r'.referee) = 0
  · -- the class gets its first node by this report
    have hnew : r.referrer = some (env.jvm.classOf r'.referee) := by
      by_contra hother
      rw [tags_recorded, if_neg fun h => hother h.1] at classTagged
      exact classTagged class_tag
    have hne : refNodeOf env s r ≠ some (s.tags r'.referee) := by
      rw [ne_eq, referrer_iff, hnew]
      intro h
      exact tagged (Option.some.inj h ▸ class_tag)
    rw [if_neg hne] at outgrows
    by_cases stopped : Stopped env s r' nd
    · exact .inr (stopped.extends ext outgrows)
    · exact .inl (leaves.counted ok
        (safe.klass thisNode l leaves r' mem hnew class_tag nd hnd hbit stopped))
  · have reported : Reported env s r' := ⟨tagged, class_tag⟩
    rcases accounted reported nd hnd l hbit leaves.unfinished with counted | stopped
    · exact .inl (counted_recorded counted)
    · split_ifs at outgrows with href
      · -- the referenced node may get a larger leak size
        by_cases resized : Stopped env s r' (nd.resized thisNode)
        · exact .inr (resized.extends ext outgrows)
        · exact .inl (leaves.counted ok (safe.size thisNode l leaves r' mem (referrer_iff.1 href)
            reported nd hnd hbit stopped resized))
      · exact .inr (stopped.extends ext outgrows)

/-- A safe report that records a reference keeps account of the others. -/
theorem Accounted.recorded (ok : SearchOk numberOfLeaks s) (safe : StopSafe env refs s r)
    (mem : r' ∈ refs) (records : Records env s r thisNode) (accounted : Accounted env s r') :
    Accounted env (s.recorded env r thisNode) r' := by
  intro reported nd' hnd' l hbit hfin
  have leaves := ok.leavesOpen records hfin
  by_cases tagged : s.tags r'.referee = 0
  · -- the referee is the new referrer, and all its labels are new
    have hnew : r.referrer = some r'.referee := by
      by_contra hother
      have htag := reported.tagged
      rw [tags_recorded, if_neg fun h => hother h.1] at htag
      exact htag tagged
    rw [tags_recorded, if_pos ⟨hnew, tagged⟩] at hnd'
    obtain ⟨nd, rfl, hnd | ⟨-, rfl⟩⟩ := get?_recorded_eq_some records.node hnd'
    · rw [s.nodes.get?_fresh] at hnd
      cases hnd
    · rw [bit_recordedNode, newMemoryNode, BitmaskSet.bit_new] at hbit
      obtain ⟨-, hlabel, -⟩ := hbit.resolve_left Bool.false_ne_true
      refine .inl (leaves.counted ok (safe.label thisNode l leaves _ hnew hlabel fun _ h => ?_))
      exact absurd tagged (s.nodes.ne_zero_of_mem (s.nodes.mem_dom_of_get? h))
  · obtain ⟨nd, hnd⟩ := s.nodes.exists_get?_of_mem (ok.tagged.mem _ tagged)
    rw [tags_recorded_of_ne_zero env s r thisNode tagged,
      get?_recorded_of_get? records.node hnd] at hnd'
    rw [← Option.some.inj hnd'] at hbit ⊢
    by_cases hold : nd.leaksRelated.bit l = true
    · exact accounted.old_label ok safe mem leaves tagged reported.classTagged hnd hold
    · rw [bit_recordedNode] at hbit
      obtain ⟨href, hlabel, -⟩ := hbit.resolve_left hold
      have ho : r.referrer = some r'.referee := (ok.refNodeOf_eq_tags_iff tagged).1 href
      refine .inl (leaves.counted ok (safe.label thisNode l leaves _ ho hlabel fun x hx => ?_))
      rw [← Option.some.inj (hnd.symm.trans hx)]
      simpa using hold

theorem Accounted.outcome (ok : SearchOk numberOfLeaks s) (safe : StopSafe env refs s r)
    (mem : r' ∈ refs) (accounted : Accounted env s r') (out : Outcome env s r s') :
    Accounted env s' r' := by
  cases out with
  | skipped => exact accounted
  | dropped =>
    intro reported nd' hnd' l hbit hfin
    have hnd := hnd'
    rw [get?_countFanIn, Option.map_eq_some_iff] at hnd
    obtain ⟨nd, hnd, rfl⟩ := hnd
    have before := accounted ⟨reported.tagged, reported.classTagged⟩ nd hnd l hbit hfin
    exact before.imp_right fun stopped => stopped.countFanIn hnd' hnd
  | recorded thisNode records => exact accounted.recorded ok safe mem records

end Pass

/-! ## The last pass and a further one -/

section Passes

variable {env : Agent Obj} {refs again : List (HeapReference Obj)} {s s' t : Search Obj}
  {r r' : HeapReference Obj} {thisNode : MemoryNode Obj} {numberOfLeaks : ℕ}

/-- When a pass of safe reports has counted no unfinished leak, all its references are exhausted. -/
theorem exhausted_of_pass (ok : SearchOk numberOfLeaks t)
    (safe : Run.Meets (reportReference env) (StopSafe env refs) t refs)
    (run : refs.foldlM (reportReference env) t = .ok s) (stops : s.hasUnfinished = false)
    (mem : r ∈ refs) : Exhausted env s r := by
  have ok' : SearchOk numberOfLeaks s := Run.foldlM_invariant
    (fun _ _ _ ok _ h => ok.outcome (reportReference_outcome h)) safe ok run
  have accounted : Accounted env s r := by
    refine Run.foldlM_reaches (P := StopSafe env refs)
      (I := fun s => SearchOk numberOfLeaks s) (A := fun _ => True) (B := fun s => Accounted env s r)
      ?_ ?_ ?_ ?_ mem safe ok trivial run
    · exact fun s i s' ok _ h => ok.outcome (reportReference_outcome h)
    · exact fun _ _ _ _ _ _ _ => trivial
    · exact fun s i s' ok safe accounted h =>
        accounted.outcome ok safe mem (reportReference_outcome h)
    · exact fun s s' ok _ _ h => ok.accounted (reportReference_outcome h)
  intro reported nd hnd l hbit hfin
  apply (accounted reported nd hnd l hbit hfin).resolve_left
  have none_found : s.nodesFound.getD l 0 = 0 := by
    by_cases hl : l < s.numberOfLeaks
    · exact hasUnfinished_eq_false stops hl (by simp [hfin])
    · apply List.getD_eq_default
      rw [ok'.found, ← ok'.number]
      exact not_lt.1 hl
  omega

theorem Exhausted.not_records (ok : SearchOk numberOfLeaks s) (exhausted : Exhausted env s r) :
    ¬ Records env s r thisNode := by
  intro records
  obtain ⟨l, hbit, hfin⟩ := ok.exists_unfinished records.toPasses
  rcases exhausted records.toReported thisNode records.node l hbit hfin with h | h | h
  · rw [records.notLocal] at h
    cases h
  · exact records.byClass h
  · exact records.byReferrer h

theorem Exhausted.resetNodesFound (exhausted : Exhausted env s r) :
    Exhausted env s.resetNodesFound r :=
  fun reported => exhausted ⟨reported.tagged, reported.classTagged⟩

theorem Exhausted.countFanIn (exhausted : Exhausted env s r') :
    Exhausted env (s.countFanIn env r) r' := by
  intro reported nd' hnd' l hbit hfin
  have hnd := hnd'
  rw [get?_countFanIn, Option.map_eq_some_iff] at hnd
  obtain ⟨nd, hnd, rfl⟩ := hnd
  have stopped := exhausted ⟨reported.tagged, reported.classTagged⟩ nd hnd l hbit hfin
  exact stopped.countFanIn hnd' hnd

/-- Every reference is exhausted; records and finished leaks are those of the state `s₀`. -/
structure NothingLeft (env : Agent Obj) (refs : List (HeapReference Obj)) (numberOfLeaks : ℕ)
    (s₀ s : Search Obj) : Prop where
  ok : SearchOk numberOfLeaks s
  exhausted : ∀ r ∈ refs, Exhausted env s r
  references : referencesOf s.nodes = referencesOf s₀.nodes
  finished : s.leaksFinished = s₀.leaksFinished

theorem NothingLeft.outcome {s₀ : Search Obj} (left : NothingLeft env refs numberOfLeaks s₀ s)
    (mem : r ∈ refs) (out : Outcome env s r s') : NothingLeft env refs numberOfLeaks s₀ s' := by
  have ok' := left.ok.outcome out
  cases out with
  | skipped => exact left
  | dropped =>
    refine ⟨ok', fun r' mem' => (left.exhausted r' mem').countFanIn, ?_, left.finished⟩
    rw [referencesOf_countFanIn]
    exact left.references
  | recorded thisNode records => exact absurd records ((left.exhausted r mem).not_records left.ok)

/-- A pass over exhausted references records nothing and finishes nothing. -/
theorem NothingLeft.pass {s₀ : Search Obj} (left : NothingLeft env refs numberOfLeaks s₀ s)
    (same : ∀ r ∈ again, r ∈ refs) (run : again.foldlM (reportReference env) s = .ok s') :
    NothingLeft env refs numberOfLeaks s₀ s' :=
  Run.foldlM_invariant (P := fun _ r => r ∈ refs)
    (fun _ _ _ left mem h => left.outcome mem (reportReference_outcome h))
    (Run.meets_of_forall (fun _ => same) s) left run

/-- Passes that go on for `n` rounds and then the rest. -/
theorem heapIterations_add {order : ℕ → List (HeapReference Obj)} {n m i : ℕ}
    (run : heapIterations env order n i s = .ok t) (goesOn : 0 < n → t.hasUnfinished = true) :
    heapIterations env order (n + m) i s = heapIterations env order m (i + n) t := by
  induction n generalizing i s with
  | zero =>
    cases run
    rw [Nat.zero_add, Nat.add_zero]
  | succ n ih =>
    obtain ⟨u, pass, rest⟩ := heapIterations_succ_eq_ok.1 run
    have unfinished : u.hasUnfinished = true := by
      by_contra done
      rw [if_neg done] at rest
      exact done (rest ▸ goesOn (Nat.succ_pos n))
    rw [if_pos unfinished] at rest
    have tail := ih rest fun _ => goesOn (Nat.succ_pos n)
    rw [show n + 1 + m = n + m + 1 by omega, show i + (n + 1) = i + 1 + n by omega, ← tail]
    simp only [heapIterations, pass, Run.ok_bind, unfinished, Bool.not_true, Bool.false_eq_true,
      if_false]

end Passes

/-! ## Stopping early -/

/-- The loop of `tagReferencesChain` ends after pass number `k` by itself: the pass takes the state
`t` to the state `s`, in which every leak is finished or was not counted. -/
structure Dump.StopsAfter (d : Dump Obj) (k : ℕ) (t s : Search Obj) : Prop where
  inLoop : k < d.agent.gdata.referenceChainLength.toNat
  before : heapIterations d.agent d.order k 0 d.start = .ok t
  goesOn : 0 < k → t.hasUnfinished = true
  last : (d.order k).foldlM (reportReference d.agent) t.resetNodesFound = .ok s
  stops : s.hasUnfinished = false

theorem Dump.StopsAfter.run {d : Dump Obj} {k : ℕ} {t s : Search Obj} (stops : d.StopsAfter k t s) :
    d.run = .ok s := by
  obtain ⟨m, hm⟩ := Nat.exists_eq_add_of_lt stops.inLoop
  have passes := heapIterations_add (m := m + 1) stops.before stops.goesOn
  show heapIterations _ _ _ _ _ = _
  rw [hm, Nat.add_assoc]
  refine passes.trans (heapIterations_succ_eq_ok.2 ⟨s, ?_, ?_⟩)
  · rw [Nat.zero_add]
    exact stops.last
  · rw [if_neg (by simp [stops.stops])]

/-- If every report of the last pass is safe, no further pass over its references, in any order,
records a reference or changes the finished leaks. -/
theorem stopping_loses_nothing (d : Dump Obj) {k : ℕ} {t s : Search Obj}
    (stops : d.StopsAfter k t s)
    (safe : Run.Meets (reportReference d.agent) (StopSafe d.agent (d.order k)) t.resetNodesFound
      (d.order k)) {again : List (HeapReference Obj)} (same : ∀ r ∈ again, r ∈ d.order k)
    {s' : Search Obj}
    (pass : again.foldlM (reportReference d.agent) s.resetNodesFound = .ok s') :
    d.run = .ok s ∧ (∀ a, referencesOf s'.nodes a = referencesOf s.nodes a) ∧
      s'.leaksFinished = s.leaksFinished := by
  have ok : SearchOk d.leaks.length t := heapIterations_invariant (fun _ ok => ok.resetNodesFound)
    (fun _ _ _ ok _ h => ok.outcome (reportReference_outcome h))
    (iterationsMeet_of_forall (P := fun _ _ => True) (fun _ _ _ _ => trivial) _ _ _)
    d.searchOk_start stops.before
  have left : NothingLeft d.agent (d.order k) d.leaks.length s s.resetNodesFound := {
    ok := (d.searchOk_run stops.run).resetNodesFound
    exhausted := fun r mem => by
      apply Exhausted.resetNodesFound
      exact exhausted_of_pass ok.resetNodesFound safe stops.last stops.stops mem
    references := rfl
    finished := rfl }
  have after := left.pass same pass
  exact ⟨stops.run, congrFun after.references, after.finished⟩

/-- A run of the loop that ends after pass number `k` by itself and a further pass, by evaluation. -/
theorem Sample.exists_stop (d : Dump (Fin 12)) (k : ℕ) (again : List (HeapReference (Fin 12)))
    (test : Search (Fin 12) → Search (Fin 12) → Search (Fin 12) → Bool)
    (inLoop : k < d.agent.gdata.referenceChainLength.toNat)
    (h : ((heapIterations d.agent d.order k 0 d.start).toOption.any fun t =>
      (decide (k = 0) || t.hasUnfinished) &&
        ((d.order k).foldlM (reportReference d.agent) t.resetNodesFound).toOption.any fun s =>
          !s.hasUnfinished &&
            (again.foldlM (reportReference d.agent) s.resetNodesFound).toOption.any (test t s)) =
              true) :
    ∃ t s s', d.StopsAfter k t s ∧
      again.foldlM (reportReference d.agent) s.resetNodesFound = .ok s' ∧ test t s s' = true := by
  obtain ⟨t, before, ht⟩ := Run.exists_ok_of_any h
  obtain ⟨goesOn, ht⟩ := Bool.and_eq_true_iff.1 ht
  obtain ⟨s, last, hs⟩ := Run.exists_ok_of_any ht
  obtain ⟨stops, hs⟩ := Bool.and_eq_true_iff.1 hs
  obtain ⟨s', pass, hs'⟩ := Run.exists_ok_of_any hs
  refine ⟨t, s, s', ⟨inLoop, before, fun hk => ?_, last, by simpa using stops⟩, pass, hs'⟩
  simpa [hk.ne'] using goesOn

/-- The leak is held by an object that nothing holds. -/
def Sample.heldByUnheld : Dump (Fin 12) := dump [(3, 1000)] [field 3 8 0] fun _ => []

theorem stopping_loses_nothing_heldByUnheld :
    ∃ s s' : Search (Fin 12), Sample.heldByUnheld.run = .ok s ∧
      [Sample.field 3 8 0].foldlM (reportReference Sample.heldByUnheld.agent) s.resetNodesFound =
        .ok s' ∧
      (∀ a, referencesOf s'.nodes a = referencesOf s.nodes a) ∧
      s'.leaksFinished = s.leaksFinished := by
  obtain ⟨t, s, s', stops, pass, known⟩ := Sample.exists_stop Sample.heldByUnheld 1
    [Sample.field 3 8 0]
    (fun t _ _ => (t.nodes.get? (t.tags 8)).any fun _ => (t.nodes.get? (t.tags 3)).any fun nd =>
      hasReferenceBetweenObjects nd (t.tags 8) .field (some {}))
    (by decide) (by decide +kernel)
  obtain ⟨refNode, hrefNode, known⟩ := (Option.any_eq_true _ _).1 known
  obtain ⟨nd, hnd, known⟩ := (Option.any_eq_true _ _).1 known
  have dropped : ∀ thisNode,
      ¬ Records Sample.heldByUnheld.agent t.resetNodesFound (Sample.field 3 8 0) thisNode := by
    intro thisNode records
    obtain rfl : nd = thisNode := Option.some.inj (hnd.symm.trans records.node)
    refine records.byReferrer ⟨8, refNode, rfl, ?_, hrefNode, .inr known⟩
    exact t.nodes.ne_zero_of_mem (t.nodes.mem_dom_of_get? hrefNode)
  have safe : StopSafe Sample.heldByUnheld.agent (Sample.heldByUnheld.order 1) t.resetNodesFound
      (Sample.field 3 8 0) := {
    label := fun thisNode _ leaves => absurd leaves.records (dropped thisNode)
    size := fun thisNode _ leaves => absurd leaves.records (dropped thisNode)
    klass := fun thisNode _ leaves => absurd leaves.records (dropped thisNode) }
  obtain ⟨run, rest⟩ := stopping_loses_nothing Sample.heldByUnheld stops
    ⟨safe, fun _ _ => trivial⟩ (fun _ h => h) pass
  exact ⟨s, s', run, pass, rest⟩

/-- The loop for the dump ends by itself, and a further pass with the same reports records more. -/
def Sample.StopsTooEarly (d : Dump (Fin 12)) : Prop :=
  ∃ k t s s', (∀ i, d.order i = d.order k) ∧ d.StopsAfter k t s ∧
    (d.order k).foldlM (reportReference d.agent) s.resetNodesFound = .ok s' ∧
    ∃ a, referencesOf s'.nodes a ≠ referencesOf s.nodes a

/-- The node of the leak 3 is handed the label of the leak 4, beyond the end of its set, and hands
it on to 8 after the report of the reference from 9. -/
def Sample.strayLabel : Dump (Fin 12) :=
  dump [(3, 400), (4, 1000)] [field 8 9 0, staticField 3 2 0, field 3 8 0, field 4 3 1] fun _ => []

/-- The leak 3 gets the size of the leak 4, which it holds, after the report of its ignored holder. -/
def Sample.grownLeak : Dump (Fin 12) :=
  dump [(3, 400), (4, 1000)] [field 3 9 5, field 4 3 0, jniGlobal 4]
    fun o => if o = 2 then [⟨5, "next", 500⟩] else []

/-- The search stops although a further pass would hand on a label that was not counted, or record a
reference that is no longer ignored. -/
theorem stopping_loses_references :
    Sample.StopsTooEarly Sample.strayLabel ∧ Sample.StopsTooEarly Sample.grownLeak := by
  constructor
  · obtain ⟨t, s, s', stops, pass, more⟩ := Sample.exists_stop Sample.strayLabel 1
      (Sample.strayLabel.order 1)
      (fun _ s s' => decide (referencesOf s'.nodes 5 ≠ referencesOf s.nodes 5))
      (by decide) (by decide +kernel)
    exact ⟨1, t, s, s', fun _ => rfl, stops, pass, 5, of_decide_eq_true more⟩
  · obtain ⟨t, s, s', stops, pass, more⟩ := Sample.exists_stop Sample.grownLeak 0
      (Sample.grownLeak.order 0)
      (fun _ s s' => decide (referencesOf s'.nodes 1 ≠ referencesOf s.nodes 1))
      (by decide) (by decide +kernel)
    exact ⟨0, t, s, s', fun _ => rfl, stops, pass, 1, of_decide_eq_true more⟩

end JLeaker
