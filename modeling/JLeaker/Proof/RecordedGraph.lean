import JLeaker.Proof.Callback
import JLeaker.Proof.ChainSearch

/-!
# The graph after a report

Each node of the graph after a report comes from the node that was at its address before, or from
the empty node the referrer was given (`grownHeap`); `recordedNode` says what has changed in it.
-/

namespace JLeaker

variable {Obj : Type} [DecidableEq Obj]

/-! ## Node by node -/

/-- The address of a referrer that is tagged already. -/
def knownReferrer (s : Search Obj) (r : HeapReference Obj) : Option ℕ :=
  r.referrer.bind fun o => if s.tags o ≠ 0 then some (s.tags o) else none

/-- The heap with the empty node of an untagged referrer. -/
def grownHeap (env : Agent Obj) (s : Search Obj) (r : HeapReference Obj) :
    CHeap (MemoryNode Obj) :=
  match r.referrer with
  | none => s.nodes
  | some o =>
    if s.tags o ≠ 0 then s.nodes else s.nodes.alloc env.malloc (newMemoryNode s.numberOfLeaks)

/-- What recording a reference to `thisNode` does to the node at `a`. -/
def recordedNode (env : Agent Obj) (s : Search Obj) (r : HeapReference Obj)
    (thisNode : MemoryNode Obj) (a : ℕ) (nd : MemoryNode Obj) : MemoryNode Obj :=
  { nd with
    leakSize := if refNodeOf env s r = some a then max nd.leakSize thisNode.leakSize
      else nd.leakSize
    start := if a = s.tags r.referee then nd.start ++ [newReferer env s r] else nd.start
    leaksRelated := if refNodeOf env s r = some a then
      nd.leaksRelated.addAllWithExclusion thisNode.leaksRelated s.leaksFinished
      else nd.leaksRelated
    referencePointingToMe := if knownReferrer s r = some a then nd.referencePointingToMe + 1
      else nd.referencePointingToMe
    fanIn := if a = s.tags r.referee then fanInAfter env s r nd else nd.fanIn }

theorem get?_countFanIn (env : Agent Obj) (s : Search Obj) (r : HeapReference Obj) (a : ℕ) :
    (s.countFanIn env r).nodes.get? a = (s.nodes.get? a).map fun nd =>
      { nd with fanIn := if a = s.tags r.referee then fanInAfter env s r nd else nd.fanIn } := by
  simp only [Search.countFanIn, CHeap.get?_modify]
  split_ifs with ha
  · rfl
  · simp

theorem get?_referrerHeap_eq (env : Agent Obj) (s : Search Obj) (r : HeapReference Obj)
    (thisTagged : s.tags r.referee ∈ s.nodes.dom) (a : ℕ) :
    (referrerHeap env s r (s.countFanIn env r).nodes).get? a =
      ((grownHeap env s r).get? a).map fun nd => { nd with
        referencePointingToMe := if knownReferrer s r = some a then nd.referencePointingToMe + 1
          else nd.referencePointingToMe
        fanIn := if a = s.tags r.referee then fanInAfter env s r nd else nd.fanIn } := by
  rcases hr : r.referrer with _ | o
  · simp [referrerHeap, grownHeap, knownReferrer, hr, get?_countFanIn]
  by_cases htag : s.tags o = 0
  · have hne := s.nodes.ne_fresh_of_mem env.malloc thisTagged
    simp only [referrerHeap, grownHeap, knownReferrer, hr, htag, CHeap.get?_alloc, ne_eq,
      not_true_eq_false, if_false, Option.bind_some, reduceCtorEq]
    show (if a = s.nodes.fresh env.malloc then _ else _) = _
    by_cases ha : a = s.nodes.fresh env.malloc
    · subst ha
      simp [if_neg hne.symm]
    · simp only [if_neg ha, get?_countFanIn]
  · simp only [referrerHeap, grownHeap, knownReferrer, hr, htag, ne_eq, not_false_eq_true, if_true,
      Option.bind_some, Option.some.injEq, CHeap.get?_modify, get?_countFanIn]
    by_cases ha : a = s.tags o
    · subst ha
      simp [Function.comp_def]
    · simp only [if_neg ha, if_neg (Ne.symm ha)]

theorem inherit_leakSize (a b : ℤ) : (if a < b then b else a) = max a b := by
  rcases lt_or_ge a b with h | h
  · rw [if_pos h, max_eq_right h.le]
  · rw [if_neg (not_lt.2 h), max_eq_left h]

/-- The node at each address after a reference is recorded. -/
theorem get?_recorded {env : Agent Obj} {s : Search Obj} {r : HeapReference Obj}
    {thisNode : MemoryNode Obj} (hthis : s.nodes.get? (s.tags r.referee) = some thisNode) (a : ℕ) :
    (s.recorded env r thisNode).nodes.get? a =
      ((grownHeap env s r).get? a).map (recordedNode env s r thisNode a) := by
  have hheap := get?_referrerHeap_eq env s r (s.nodes.mem_dom_of_get? hthis) a
  show (recordedHeap env s r thisNode).get? a = _
  unfold recordedHeap
  rcases href : refNodeOf env s r with _ | addr
  · simp only [CHeap.get?_modify, hheap]
    rcases (grownHeap env s r).get? a with _ | nd
    · simp
    · by_cases ha : a = s.tags r.referee <;> simp [recordedNode, href, ha]
  · simp only [CHeap.get?_modify, hheap]
    rcases (grownHeap env s r).get? a with _ | nd
    · simp
    · by_cases haddr : a = addr
      · subst haddr
        by_cases ha : a = s.tags r.referee <;>
          simp [recordedNode, href, ha, MemoryNode.inherit, inherit_leakSize]
      · by_cases ha : a = s.tags r.referee
        · simp [recordedNode, href, if_pos ha, if_neg haddr, if_neg (Ne.symm haddr)]
        · simp [recordedNode, href, if_neg ha, if_neg haddr, if_neg (Ne.symm haddr)]

theorem dom_recorded (env : Agent Obj) (s : Search Obj) (r : HeapReference Obj)
    (thisNode : MemoryNode Obj) :
    (s.recorded env r thisNode).nodes.dom = (grownHeap env s r).dom := by
  simp only [Search.recorded, recordedHeap, CHeap.dom_modify, referrerHeap, grownHeap, refNodeOf]
  rcases r.referrer with _ | o
  · rfl
  · by_cases htag : s.tags o = 0
    · simp only [htag, ne_eq, not_true_eq_false, if_false, Option.map_some, CHeap.dom_modify,
        CHeap.dom_alloc]
      rfl
    · simp only [htag, ne_eq, not_false_eq_true, if_true, Option.map_some, CHeap.dom_modify]
      rfl

theorem dom_countFanIn (env : Agent Obj) (s : Search Obj) (r : HeapReference Obj) :
    (s.countFanIn env r).nodes.dom = s.nodes.dom := rfl

/-- An untagged referrer is given an empty node at the next address. -/
structure NewReferrer (env : Agent Obj) (s : Search Obj) (r : HeapReference Obj) (o : Obj) (a : ℕ) :
    Prop where
  referrer : r.referrer = some o
  untagged : s.tags o = 0
  addr : a = s.nodes.fresh env.malloc

namespace NewReferrer

variable {env : Agent Obj} {s : Search Obj} {r : HeapReference Obj} {o : Obj} {a : ℕ}

omit [DecidableEq Obj] in
theorem notMem (new : NewReferrer env s r o a) : a ∉ s.nodes.dom :=
  new.addr ▸ s.nodes.fresh_notMem env.malloc

omit [DecidableEq Obj] in
theorem get?_eq_none (new : NewReferrer env s r o a) : s.nodes.get? a = none :=
  new.addr ▸ s.nodes.get?_fresh env.malloc

omit [DecidableEq Obj] in
/-- The new node is not that of the referenced object. -/
theorem ne_referee {thisNode : MemoryNode Obj} (new : NewReferrer env s r o a)
    (hthis : s.nodes.get? (s.tags r.referee) = some thisNode) : a ≠ s.tags r.referee := by
  rintro rfl
  exact new.notMem (s.nodes.mem_dom_of_get? hthis)

end NewReferrer

omit [DecidableEq Obj] in
theorem get?_grownHeap {env : Agent Obj} {s : Search Obj} {r : HeapReference Obj} {a : ℕ}
    {nd : MemoryNode Obj} : (grownHeap env s r).get? a = some nd ↔
      s.nodes.get? a = some nd ∨
        (∃ o, NewReferrer env s r o a) ∧ nd = newMemoryNode s.numberOfLeaks := by
  unfold grownHeap
  rcases hr : r.referrer with _ | o
  · have hno : ¬ ∃ o, NewReferrer env s r o a := by
      rintro ⟨o, h⟩
      cases hr.symm.trans h.referrer
    simp [hno]
  by_cases htag : s.tags o = 0
  · simp only [htag, ne_eq, not_true_eq_false, if_false, CHeap.get?_alloc]
    by_cases ha : a = s.nodes.fresh env.malloc
    · have hnew : ∃ o, NewReferrer env s r o a := ⟨o, hr, htag, ha⟩
      have hfree : s.nodes.get? a = none := ha ▸ s.nodes.get?_fresh env.malloc
      simp [if_pos ha, hnew, hfree, eq_comm]
    · have hno : ¬ ∃ o, NewReferrer env s r o a := fun ⟨_, h⟩ => ha h.addr
      simp [if_neg ha, hno]
  · have hno : ¬ ∃ o, NewReferrer env s r o a := by
      rintro ⟨o', h⟩
      obtain rfl : o = o' := Option.some.inj (hr.symm.trans h.referrer)
      exact htag h.untagged
    simp [htag, hno]

/-- A node after the report is an old one or the new one. -/
theorem get?_recorded_eq_some {env : Agent Obj} {s : Search Obj} {r : HeapReference Obj}
    {thisNode : MemoryNode Obj} (hthis : s.nodes.get? (s.tags r.referee) = some thisNode) {a : ℕ}
    {nd' : MemoryNode Obj} (h : (s.recorded env r thisNode).nodes.get? a = some nd') :
    ∃ nd, nd' = recordedNode env s r thisNode a nd ∧ (s.nodes.get? a = some nd ∨
      (∃ o, NewReferrer env s r o a) ∧ nd = newMemoryNode s.numberOfLeaks) := by
  rw [get?_recorded hthis, Option.map_eq_some_iff] at h
  obtain ⟨nd, hnd, rfl⟩ := h
  exact ⟨nd, rfl, get?_grownHeap.1 hnd⟩

/-- The references of a node after the report. -/
theorem mem_start_recordedNode {env : Agent Obj} {s : Search Obj} {r : HeapReference Obj}
    {thisNode nd : MemoryNode Obj} {a : ℕ} {ref : MemoryReferer} :
    ref ∈ (recordedNode env s r thisNode a nd).start ↔
      ref ∈ nd.start ∨ a = s.tags r.referee ∧ ref = newReferer env s r := by
  simp only [recordedNode]
  split_ifs with ha
  · simp [ha]
  · simp [ha]

omit [DecidableEq Obj] in
/-- The node of the referenced object is an old one. -/
theorem eq_thisNode {env : Agent Obj} {s : Search Obj} {r : HeapReference Obj}
    {thisNode nd : MemoryNode Obj} (hthis : s.nodes.get? (s.tags r.referee) = some thisNode)
    (hnd : s.nodes.get? (s.tags r.referee) = some nd ∨
      (∃ o, NewReferrer env s r o (s.tags r.referee)) ∧ nd = newMemoryNode s.numberOfLeaks) :
    nd = thisNode := by
  rcases hnd with hnd | ⟨⟨o, hnew⟩, -⟩
  · exact Option.some.inj (hnd.symm.trans hthis)
  · exact absurd rfl (hnew.ne_referee hthis)

/-- An old node is still there after the report. -/
theorem get?_recorded_of_get? {env : Agent Obj} {s : Search Obj} {r : HeapReference Obj}
    {thisNode : MemoryNode Obj} (hthis : s.nodes.get? (s.tags r.referee) = some thisNode) {a : ℕ}
    {nd : MemoryNode Obj} (h : s.nodes.get? a = some nd) :
    (s.recorded env r thisNode).nodes.get? a = some (recordedNode env s r thisNode a nd) := by
  rw [get?_recorded hthis, get?_grownHeap.2 (.inl h), Option.map_some]

omit [DecidableEq Obj] in
theorem dom_subset_grownHeap (env : Agent Obj) (s : Search Obj) (r : HeapReference Obj) :
    s.nodes.dom ⊆ (grownHeap env s r).dom := by
  intro a ha
  obtain ⟨nd, hnd⟩ := s.nodes.exists_get?_of_mem ha
  exact CHeap.mem_dom_of_get? _ (get?_grownHeap.2 (.inl hnd))

omit [DecidableEq Obj] in
theorem refNodeOf_mem {env : Agent Obj} {s : Search Obj} {r : HeapReference Obj}
    (referrerTag : ReferrerTagOk s r) {b : ℕ} (h : refNodeOf env s r = some b) :
    b ∈ (grownHeap env s r).dom := by
  obtain ⟨o, ho, hb⟩ := Option.map_eq_some_iff.1 h
  by_cases htag : s.tags o = 0
  · rw [if_neg (by simpa using htag)] at hb
    exact CHeap.mem_dom_of_get? _ (get?_grownHeap.2 (.inr ⟨⟨o, ho, htag, hb.symm⟩, rfl⟩))
  · rw [if_pos htag] at hb
    obtain ⟨nd, hnd⟩ := referrerTag o ho htag
    exact dom_subset_grownHeap env s r (hb ▸ CHeap.mem_dom_of_get? _ hnd)

/-- The report records the tag the referrer has after it. -/
theorem refNodeOf_eq_tags (env : Agent Obj) (s : Search Obj) {r : HeapReference Obj}
    (thisNode : MemoryNode Obj) {o : Obj} (ho : r.referrer = some o) :
    refNodeOf env s r = some ((s.recorded env r thisNode).tags o) := by
  simp only [refNodeOf, Search.recorded, ho, Option.map_some]
  split_ifs <;> simp

/-- The tag of an object after the report. -/
theorem tags_recorded (env : Agent Obj) (s : Search Obj) (r : HeapReference Obj)
    (thisNode : MemoryNode Obj) (o : Obj) : (s.recorded env r thisNode).tags o =
      if r.referrer = some o ∧ s.tags o = 0 then s.nodes.fresh env.malloc else s.tags o := by
  simp only [Search.recorded]
  rcases hr : r.referrer with _ | o'
  · simp
  · by_cases htag : s.tags o' = 0
    · by_cases ho : o = o'
      · simp [ho, htag]
      · simp [htag, Ne.symm ho, Function.update_of_ne ho]
    · have hnot : ¬ (some o' = some o ∧ s.tags o = 0) := by
        rintro ⟨h, h0⟩
        exact htag (Option.some.inj h ▸ h0)
      rw [if_neg hnot]
      simp [htag]

/-- Reports keep the tags that are set. -/
theorem tags_recorded_of_ne_zero (env : Agent Obj) (s : Search Obj) (r : HeapReference Obj)
    (thisNode : MemoryNode Obj) {o : Obj} (h : s.tags o ≠ 0) :
    (s.recorded env r thisNode).tags o = s.tags o := by
  rw [tags_recorded, if_neg fun hnew => h hnew.2]

/-! ## What the reports read of the graph -/

theorem referencesOf_countFanIn (env : Agent Obj) (s : Search Obj) (r : HeapReference Obj) :
    referencesOf (s.countFanIn env r).nodes = referencesOf s.nodes := by
  funext a
  simp only [referencesOf, get?_countFanIn]
  cases s.nodes.get? a <;> rfl

theorem referencesOf_recorded {env : Agent Obj} {s : Search Obj} {r : HeapReference Obj}
    {thisNode : MemoryNode Obj} (hthis : s.nodes.get? (s.tags r.referee) = some thisNode) (a : ℕ) :
    referencesOf (s.recorded env r thisNode).nodes a =
      if a = s.tags r.referee then referencesOf s.nodes a ++ [newReferer env s r]
      else referencesOf s.nodes a := by
  unfold referencesOf
  rw [get?_recorded hthis]
  rcases hg : (grownHeap env s r).get? a with _ | nd
  · have hne : a ≠ s.tags r.referee := by
      rintro rfl
      rw [get?_grownHeap.2 (.inl hthis)] at hg
      cases hg
    have hnone : s.nodes.get? a = none := by
      rcases hs : s.nodes.get? a with _ | nd
      · rfl
      · rw [get?_grownHeap.2 (.inl hs)] at hg
        cases hg
    simp [hne, hnone]
  · rcases get?_grownHeap.1 hg with hs | ⟨⟨o, hnew⟩, rfl⟩
    · simp [hs, recordedNode]
    · simp [hnew.get?_eq_none, recordedNode, hnew.ne_referee hthis, newMemoryNode]

theorem referencesOf_subset_recorded (env : Agent Obj) {s : Search Obj} {r : HeapReference Obj}
    {thisNode : MemoryNode Obj} (hthis : s.nodes.get? (s.tags r.referee) = some thisNode) (a : ℕ) :
    referencesOf s.nodes a ⊆ referencesOf (s.recorded env r thisNode).nodes a := by
  rw [referencesOf_recorded hthis]
  split_ifs
  · exact List.subset_append_left _ _
  · exact List.Subset.refl _

/-- The report adds its reference to those of the referenced node. -/
theorem newReferer_mem_recorded (env : Agent Obj) {s : Search Obj} {r : HeapReference Obj}
    {thisNode : MemoryNode Obj} (hthis : s.nodes.get? (s.tags r.referee) = some thisNode) :
    newReferer env s r ∈ referencesOf (s.recorded env r thisNode).nodes (s.tags r.referee) := by
  rw [referencesOf_recorded hthis, if_pos rfl]
  simp

/-! ## Reachability -/

/-- A recorded reference leads from node `a` on to node `b`, whether or not it is a root. -/
def PointsTo (h : CHeap (MemoryNode Obj)) (a b : ℕ) : Prop :=
  ∃ ref ∈ referencesOf h a, ref.node = some b

/-- Recorded references lead from node `a` to node `b`. -/
def Reaches (h : CHeap (MemoryNode Obj)) : ℕ → ℕ → Prop := Relation.ReflTransGen (PointsTo h)

theorem Reaches.recorded {env : Agent Obj} {s : Search Obj} {r : HeapReference Obj}
    {thisNode : MemoryNode Obj} (hthis : s.nodes.get? (s.tags r.referee) = some thisNode) {a b : ℕ}
    (reaches : Reaches s.nodes a b) : Reaches (s.recorded env r thisNode).nodes a b :=
  Relation.ReflTransGen.mono (fun x _ ⟨ref, href, hnode⟩ =>
    ⟨ref, referencesOf_subset_recorded env hthis x href, hnode⟩) _ _ reaches

/-- The report leads on from whatever reaches the referenced node. -/
theorem Reaches.tail_recorded {env : Agent Obj} {s : Search Obj} {r : HeapReference Obj}
    {thisNode : MemoryNode Obj} (hthis : s.nodes.get? (s.tags r.referee) = some thisNode) {a b : ℕ}
    (reaches : Reaches s.nodes a (s.tags r.referee)) (href : refNodeOf env s r = some b) :
    Reaches (s.recorded env r thisNode).nodes a b :=
  (reaches.recorded hthis).tail ⟨newReferer env s r, newReferer_mem_recorded env hthis, href⟩

end JLeaker
