import JLeaker.Proof.SearchInvariant

/-!
# States without some tags

A callback reads the tags of the two objects of its reference and of their classes, and of no other
object.  So it does the same in a state in which the tags of other objects are taken away
(`masked`), and the invariants of a search among untagged objects hold among stale tags too.
-/

namespace JLeaker

variable {Obj : Type} (p : Obj → Prop) [DecidablePred p]

/-- The state without the tags of the objects outside `p`. -/
def Search.masked (s : Search Obj) : Search Obj :=
  { s with tags := fun o => if p o then s.tags o else 0 }

theorem Search.eq_of_fields {s t : Search Obj} (tags : s.tags = t.tags) (nodes : s.nodes = t.nodes)
    (number : s.numberOfLeaks = t.numberOfLeaks) (allocated : s.nodesAllocated = t.nodesAllocated)
    (freed : s.nodesFreed = t.nodesFreed) (finished : s.leaksFinished = t.leaksFinished)
    (found : s.nodesFound = t.nodesFound) : s = t := by
  obtain ⟨⟨_, _, _, _, _⟩, _, _⟩ := s
  obtain ⟨⟨_, _, _, _, _⟩, _, _⟩ := t
  cases tags; cases nodes; cases number; cases allocated; cases freed; cases finished; cases found
  rfl

/-- The objects whose tags decide what a report does first are in `p`. -/
structure Seen (env : Agent Obj) (r : HeapReference Obj) : Prop where
  referee : p r.referee
  refereeClass : p (env.jvm.classOf r.referee)
  referrerClass : ∀ o, r.referrer = some o → p (env.jvm.classOf o)

variable {p} {env : Agent Obj} {s : Search Obj} {r : HeapReference Obj} {thisNode : MemoryNode Obj}

theorem tags_masked {o : Obj} (h : p o) : (s.masked p).tags o = s.tags o := if_pos h

theorem tags_masked_of_not {o : Obj} (h : ¬ p o) : (s.masked p).tags o = 0 := if_neg h

@[simp] theorem nodes_masked : (s.masked p).nodes = s.nodes := rfl

/-! ## The callback -/

theorem referrerClassTag_masked (seen : Seen p env r) :
    referrerClassTag env.jvm (s.masked p).tags r = referrerClassTag env.jvm s.tags r := by
  unfold referrerClassTag
  rcases hr : r.referrer with _ | o
  · rfl
  · exact tags_masked (seen.referrerClass o hr)

theorem Reported.masked (reported : Reported env s r) (seen : Seen p env r) :
    Reported env (s.masked p) r where
  tagged := by
    rw [tags_masked seen.referee]
    exact reported.tagged
  classTagged := by
    rw [tags_masked seen.refereeClass]
    exact reported.classTagged

theorem Passes.masked (passes : Passes env s r thisNode) (seen : Seen p env r) :
    Passes env (s.masked p) r thisNode where
  notLocal := passes.notLocal
  node := by
    rw [tags_masked seen.referee]
    exact passes.node
  unfinished := passes.unfinished
  nonempty := passes.nonempty

variable [DecidableEq Obj]

theorem dropsByClass_masked (seen : Seen p env r) :
    DropsByClass env (s.masked p) r thisNode ↔ DropsByClass env s r thisNode := by
  unfold DropsByClass
  rw [referrerClassTag_masked seen, nodes_masked]

omit [DecidableEq Obj] in
theorem dropsByReferrer_masked (referrer : ∀ o, r.referrer = some o → p o) :
    DropsByReferrer (s.masked p) r thisNode ↔ DropsByReferrer s r thisNode := by
  unfold DropsByReferrer
  refine exists_congr fun o => exists_congr fun refNode => and_congr_right fun hr => ?_
  rw [tags_masked (referrer o hr), nodes_masked]

theorem Records.masked (records : Records env s r thisNode) (seen : Seen p env r)
    (referrer : ∀ o, r.referrer = some o → p o) : Records env (s.masked p) r thisNode where
  toReported := records.toReported.masked seen
  toPasses := records.toPasses.masked seen
  byClass := mt (dropsByClass_masked seen).1 records.byClass
  byReferrer := mt (dropsByReferrer_masked referrer).1 records.byReferrer

omit [DecidableEq Obj] in
theorem ReferrerTagOk.masked (ok : ReferrerTagOk s r) (referrer : ∀ o, r.referrer = some o → p o) :
    ReferrerTagOk (s.masked p) r := by
  intro o hr
  rw [tags_masked (referrer o hr), nodes_masked]
  exact ok o hr

theorem fanInAfter_masked (seen : Seen p env r) :
    fanInAfter env (s.masked p) r = fanInAfter env s r := by
  funext nd
  unfold fanInAfter
  rw [referrerClassTag_masked seen, nodes_masked]

theorem countFanIn_masked (seen : Seen p env r) :
    (s.masked p).countFanIn env r = (s.countFanIn env r).masked p := by
  unfold Search.countFanIn
  rw [fanInAfter_masked seen, tags_masked seen.referee]
  rfl

omit [DecidableEq Obj] in
theorem refNodeOf_masked (referrer : ∀ o, r.referrer = some o → p o) :
    refNodeOf env (s.masked p) r = refNodeOf env s r := by
  unfold refNodeOf
  rcases hr : r.referrer with _ | o
  · rfl
  · rw [Option.map_some, Option.map_some, tags_masked (referrer o hr), nodes_masked]

theorem recorded_masked (seen : Seen p env r) (referrer : ∀ o, r.referrer = some o → p o) :
    (s.masked p).recorded env r thisNode = (s.recorded env r thisNode).masked p := by
  have tags : ((s.masked p).recorded env r thisNode).tags =
      ((s.recorded env r thisNode).masked p).tags := by
    funext o
    by_cases ho : p o
    · rw [tags_masked ho, tags_recorded, tags_recorded, tags_masked ho, nodes_masked]
    · have hr : r.referrer ≠ some o := fun h => ho (referrer o h)
      rw [tags_masked_of_not ho, tags_recorded, tags_masked_of_not ho, if_neg fun h => hr h.1]
  have heap : ∀ h, referrerHeap env (s.masked p) r h = referrerHeap env s r h := by
    intro h
    unfold referrerHeap
    rcases hr : r.referrer with _ | o
    · rfl
    · simp only [tags_masked (referrer o hr)]
      rfl
  have nodes : recordedHeap env (s.masked p) r thisNode = recordedHeap env s r thisNode := by
    unfold recordedHeap newReferer
    rw [heap, refNodeOf_masked referrer, countFanIn_masked seen, tags_masked seen.referee]
    rfl
  have allocated : ((s.masked p).recorded env r thisNode).nodesAllocated =
      (s.recorded env r thisNode).nodesAllocated := by
    unfold Search.recorded
    rcases hr : r.referrer with _ | o
    · rfl
    · simp only [tags_masked (referrer o hr)]
      rfl
  have leaks : leaksAfter env (s.masked p) r thisNode = leaksAfter env s r thisNode := by
    unfold leaksAfter
    rw [refNodeOf_masked referrer, tags_masked seen.referee]
    rfl
  apply Search.eq_of_fields tags nodes rfl allocated rfl
  · show (if _ then s.leaksFinished.addAll (leaksAfter env (s.masked p) r thisNode) else _) = _
    rw [leaks]
    rfl
  · show countNodesFound (leaksAfter env (s.masked p) r thisNode) _ _ = _
    rw [leaks]
    rfl

end JLeaker
