import JLeaker.Model.LeakDetect
import JLeaker.Proof.BitmaskSet

/-!
# What one report does

`cbObjectTagReferrer` ends in one of three ways: it changes nothing, it only counts the referrer's
class in the fan-in list of the referenced node (`countFanIn`), or it records the reference
(`recorded`).  `cbObjectTagReferrer_cases` says which happens when; the invariants of the search are
read off these three states.
-/

namespace JLeaker

variable {Obj : Type} [DecidableEq Obj]

/-! ## The two states after a report -/

/-- The fan-in list of the referenced node once the referrer's class is counted. -/
def fanInAfter (env : Agent Obj) (s : Search Obj) (r : HeapReference Obj) (nd : MemoryNode Obj) :
    List (ClassReferenceCount Obj) :=
  match s.nodes.get? (referrerClassTag env.jvm s.tags r) with
  | some classNode => (countReference classNode.obj nd.fanIn).2
  | none => nd.fanIn

/-- The state after counting the referrer's class. -/
def Search.countFanIn (env : Agent Obj) (s : Search Obj) (r : HeapReference Obj) : Search Obj :=
  { s with nodes := s.nodes.modify (s.tags r.referee) fun nd =>
      { nd with fanIn := fanInAfter env s r nd } }

/-- The pointer `refNode` the reference is recorded with. -/
def refNodeOf (env : Agent Obj) (s : Search Obj) (r : HeapReference Obj) : Option ℕ :=
  r.referrer.map fun o => if s.tags o ≠ 0 then s.tags o else s.nodes.fresh env.malloc

/-- The record made of the reference. -/
def newReferer (env : Agent Obj) (s : Search Obj) (r : HeapReference Obj) : MemoryReferer :=
  ⟨r.kind, r.info.getD {}, refNodeOf env s r⟩

/-- The referrer's node, before it inherits the leaks: a known one gains a pointer, an untagged
referrer gets a new one. -/
def referrerHeap (env : Agent Obj) (s : Search Obj) (r : HeapReference Obj)
    (h : CHeap (MemoryNode Obj)) : CHeap (MemoryNode Obj) :=
  match r.referrer with
  | none => h
  | some o =>
    if s.tags o ≠ 0 then
      h.modify (s.tags o) fun n => { n with referencePointingToMe := n.referencePointingToMe + 1 }
    else h.alloc env.malloc (newMemoryNode s.numberOfLeaks)

/-- The heap after the reference to the node `thisNode` is recorded. -/
def recordedHeap (env : Agent Obj) (s : Search Obj) (r : HeapReference Obj)
    (thisNode : MemoryNode Obj) : CHeap (MemoryNode Obj) :=
  let h := referrerHeap env s r (s.countFanIn env r).nodes
  let h := match refNodeOf env s r with
    | none => h
    | some addr => h.modify addr (thisNode.inherit s.leaksFinished)
  h.modify (s.tags r.referee) fun n =>
    { n with start := n.start ++ [newReferer env s r] }

/-- The leaks of the referenced node after the report: its own ones, joined once more with
themselves where it refers to itself. -/
def leaksAfter (env : Agent Obj) (s : Search Obj) (r : HeapReference Obj)
    (thisNode : MemoryNode Obj) : BitmaskSet :=
  if refNodeOf env s r = some (s.tags r.referee) then
    thisNode.leaksRelated.addAllWithExclusion thisNode.leaksRelated s.leaksFinished
  else thisNode.leaksRelated

/-- The state after the reference to the node `thisNode` is recorded. -/
def Search.recorded (env : Agent Obj) (s : Search Obj) (r : HeapReference Obj)
    (thisNode : MemoryNode Obj) : Search Obj where
  tags := match r.referrer with
    | none => s.tags
    | some o => if s.tags o ≠ 0 then s.tags else Function.update s.tags o (s.nodes.fresh env.malloc)
  nodes := recordedHeap env s r thisNode
  numberOfLeaks := s.numberOfLeaks
  nodesAllocated := match r.referrer with
    | none => s.nodesAllocated
    | some o => if s.tags o ≠ 0 then s.nodesAllocated else s.nodesAllocated + 1
  nodesFreed := s.nodesFreed
  leaksFinished := if isRootReference r.kind
    then s.leaksFinished.addAll (leaksAfter env s r thisNode) else s.leaksFinished
  nodesFound := countNodesFound (leaksAfter env s r thisNode) s.leaksFinished s.nodesFound

/-- The state when the referrer's node has been found or made. -/
def Search.withReferrer (env : Agent Obj) (s : Search Obj) (r : HeapReference Obj)
    (thisNode : MemoryNode Obj) : Search Obj :=
  { s with
    tags := (s.recorded env r thisNode).tags
    nodes := referrerHeap env s r (s.countFanIn env r).nodes
    nodesAllocated := (s.recorded env r thisNode).nodesAllocated }

/-! ## When each of them is reached -/

/-- The callback gets past its first three tests, with `thisNode` the referenced node. -/
structure Passes (env : Agent Obj) (s : Search Obj) (r : HeapReference Obj)
    (thisNode : MemoryNode Obj) : Prop where
  notLocal : localReferenceOfThisThread env.threadId r.kind r.info = false
  node : s.nodes.get? (s.tags r.referee) = some thisNode
  unfinished : s.leaksFinished.containsAll thisNode.leaksRelated = false
  nonempty : thisNode.leaksRelated.isEmpty = false

/-- The fan-in limit is reached or the field is ignored for the referrer's class. -/
def DropsByClass (env : Agent Obj) (s : Search Obj) (r : HeapReference Obj)
    (thisNode : MemoryNode Obj) : Prop :=
  ∃ classNode, referrerClassTag env.jvm s.tags r ≠ 0 ∧
    s.nodes.get? (referrerClassTag env.jvm s.tags r) = some classNode ∧
    ((countReference classNode.obj thisNode.fanIn).1 ≥ env.gdata.maxFanIn ∨
      r.kind = .field ∧ isFieldIgnored classNode thisNode (r.info.getD {}).index = true)

/-- The static field is ignored or the reference is already recorded. -/
def DropsByReferrer (s : Search Obj) (r : HeapReference Obj) (thisNode : MemoryNode Obj) : Prop :=
  ∃ o refNode, r.referrer = some o ∧ s.tags o ≠ 0 ∧ s.nodes.get? (s.tags o) = some refNode ∧
    (r.kind = .staticField ∧ isFieldIgnored refNode thisNode (r.info.getD {}).index = true ∨
      hasReferenceBetweenObjects thisNode (s.tags o) r.kind r.info = true)

/-- The class tag of the referrer, if any, is the address of a class node. -/
def ClassTagOk (env : Agent Obj) (s : Search Obj) (r : HeapReference Obj) : Prop :=
  referrerClassTag env.jvm s.tags r ≠ 0 →
    ∃ classNode, s.nodes.get? (referrerClassTag env.jvm s.tags r) = some classNode ∧
      classNode.classNode = true

/-- The tag of the referrer, if any, is the address of a node. -/
def ReferrerTagOk (s : Search Obj) (r : HeapReference Obj) : Prop :=
  ∀ o, r.referrer = some o → s.tags o ≠ 0 → ∃ refNode, s.nodes.get? (s.tags o) = some refNode

/-! ## The parts of the callback -/

theorem countFanIn_of_noClassTag {env : Agent Obj} {s : Search Obj} {r : HeapReference Obj}
    (h : referrerClassTag env.jvm s.tags r = 0) : s.countFanIn env r = s := by
  have hnone : s.nodes.get? 0 = none := s.nodes.get?_of_notMem s.nodes.zero_notMem
  have hnodes : (s.countFanIn env r).nodes = s.nodes :=
    s.nodes.modify_eq_self fun nd _ => by simp [fanInAfter, h, hnone]
  unfold Search.countFanIn at hnodes ⊢
  dsimp only at hnodes
  rw [hnodes]

theorem admitReferrerClass_of_classTag {env : Agent Obj} {s : Search Obj} {r : HeapReference Obj}
    {thisNode classNode : MemoryNode Obj} (htag : referrerClassTag env.jvm s.tags r ≠ 0)
    (hthis : s.nodes.get? (s.tags r.referee) = some thisNode)
    (hnode : s.nodes.get? (referrerClassTag env.jvm s.tags r) = some classNode)
    (hcn : classNode.classNode = true) :
    admitReferrerClass env r (s.tags r.referee) s =
      let s' := { s with nodes := s.nodes.modify (s.tags r.referee) fun _ =>
        { thisNode with fanIn := (countReference classNode.obj thisNode.fanIn).2 } }
      if (countReference classNode.obj thisNode.fanIn).1 ≥ env.gdata.maxFanIn then .ok (false, s')
      else if r.kind = .field ∧ isFieldIgnored classNode thisNode (r.info.getD {}).index then
        .ok (false, s')
      else .ok (true, s') := by
  simp only [admitReferrerClass, if_neg htag, deref_eq_ok.2 hthis, deref_eq_ok.2 hnode,
    Run.ok_bind, addReferenceClass, hcn, Bool.not_true, Bool.false_eq_true, if_false]
  rfl

theorem admitReferrerClass_ok {env : Agent Obj} {s : Search Obj} {r : HeapReference Obj}
    {thisNode : MemoryNode Obj} (hthis : s.nodes.get? (s.tags r.referee) = some thisNode)
    (hclass : ClassTagOk env s r) :
    ∃ goOn, admitReferrerClass env r (s.tags r.referee) s = .ok (goOn, s.countFanIn env r) ∧
      (goOn = true ↔ ¬ DropsByClass env s r thisNode) := by
  by_cases htag : referrerClassTag env.jvm s.tags r = 0
  · refine ⟨true, ?_, iff_of_true rfl ?_⟩
    · simp [admitReferrerClass, htag, countFanIn_of_noClassTag htag, pure, Except.pure]
    · rintro ⟨_, hne, _⟩
      exact hne htag
  · obtain ⟨classNode, hnode, hcn⟩ := hclass htag
    have hcount : s.countFanIn env r =
        { s with nodes := s.nodes.modify (s.tags r.referee) fun _ =>
            { thisNode with fanIn := (countReference classNode.obj thisNode.fanIn).2 } } := by
      unfold Search.countFanIn
      congr 1
      congr 1
      refine s.nodes.modify_congr fun x hx => ?_
      obtain rfl : thisNode = x := Option.some.inj (hthis.symm.trans hx)
      simp [fanInAfter, hnode]
    have hdrops : DropsByClass env s r thisNode ↔
        (countReference classNode.obj thisNode.fanIn).1 ≥ env.gdata.maxFanIn ∨
          r.kind = .field ∧ isFieldIgnored classNode thisNode (r.info.getD {}).index = true := by
      constructor
      · rintro ⟨cn, _, hcn', h⟩
        obtain rfl : classNode = cn := Option.some.inj (hnode.symm.trans hcn')
        exact h
      · exact fun h => ⟨classNode, htag, hnode, h⟩
    rw [hdrops, hcount]
    rw [admitReferrerClass_of_classTag htag hthis hnode hcn]
    split_ifs with h1 h2
    · exact ⟨false, rfl, by simp [h1]⟩
    · exact ⟨false, rfl, by simp [h2]⟩
    · exact ⟨true, rfl, by simpa using ⟨lt_of_not_ge h1, fun hk => by simpa [hk] using h2⟩⟩

theorem classTagOk_of_admitReferrerClass {env : Agent Obj} {s : Search Obj} {r : HeapReference Obj}
    {this : ℕ} {res : Bool × Search Obj} (h : admitReferrerClass env r this s = .ok res) :
    ClassTagOk env s r := by
  intro htag
  simp only [admitReferrerClass, if_neg htag] at h
  obtain ⟨thisNode, _, h⟩ := Run.bind_eq_ok.1 h
  obtain ⟨classNode, hnode, h⟩ := Run.bind_eq_ok.1 h
  obtain ⟨p, hadd, _⟩ := Run.bind_eq_ok.1 h
  refine ⟨classNode, deref_eq_ok.1 hnode, ?_⟩
  by_contra hcn
  have hcn' : classNode.classNode = false := by simpa using hcn
  simp [addReferenceClass, hcn'] at hadd

omit [DecidableEq Obj] in
/-- Only a tagged referrer stops the report. -/
theorem not_dropsByReferrer {s : Search Obj} {r : HeapReference Obj} {thisNode : MemoryNode Obj}
    (untagged : ∀ o, r.referrer = some o → s.tags o = 0) : ¬ DropsByReferrer s r thisNode := by
  rintro ⟨o, _, ho, htag, _⟩
  exact htag (untagged o ho)

omit [DecidableEq Obj] in
/-- The tests of a tagged referrer read its node. -/
theorem dropsByReferrer_iff {s : Search Obj} {r : HeapReference Obj} {o : Obj}
    {thisNode refNode : MemoryNode Obj} (hr : r.referrer = some o) (htag : s.tags o ≠ 0)
    (hnode : s.nodes.get? (s.tags o) = some refNode) : DropsByReferrer s r thisNode ↔
      r.kind = .staticField ∧ isFieldIgnored refNode thisNode (r.info.getD {}).index = true ∨
        hasReferenceBetweenObjects thisNode (s.tags o) r.kind r.info = true := by
  constructor
  · rintro ⟨o', rn, ho, _, hrn, h⟩
    rw [hr] at ho
    cases ho
    obtain rfl : refNode = rn := Option.some.inj (hnode.symm.trans hrn)
    exact h
  · exact fun h => ⟨o, refNode, hr, htag, hnode, h⟩

/-- Counting the fan-in leaves the ignored fields of every node. -/
theorem exists_get?_countFanIn (env : Agent Obj) {s : Search Obj} (r : HeapReference Obj) {a : ℕ}
    {nd : MemoryNode Obj} (hnd : s.nodes.get? a = some nd) :
    ∃ nd', (s.countFanIn env r).nodes.get? a = some nd' ∧ nd'.ignoreFields = nd.ignoreFields := by
  by_cases hself : a = s.tags r.referee
  · exact ⟨{ nd with fanIn := fanInAfter env s r nd },
      by simp [Search.countFanIn, ← hself, hnd], rfl⟩
  · exact ⟨nd, by simp [Search.countFanIn, CHeap.get?_modify_of_ne _ hself, hnd], rfl⟩

/-- A tagged referrer passes two tests, neither of which reads the fan-in. -/
theorem referrerNode_tagged (env : Agent Obj) {s : Search Obj} {r : HeapReference Obj} {o : Obj}
    {thisNode refNode : MemoryNode Obj} (hthis : s.nodes.get? (s.tags r.referee) = some thisNode)
    (hr : r.referrer = some o) (htag : s.tags o ≠ 0)
    (hnode : s.nodes.get? (s.tags o) = some refNode) :
    referrerNode env r (s.tags r.referee) (s.countFanIn env r) =
      if r.kind = .staticField ∧ isFieldIgnored refNode thisNode (r.info.getD {}).index then
        .ok (none, s.countFanIn env r)
      else if hasReferenceBetweenObjects thisNode (s.tags o) r.kind r.info then
        .ok (none, s.countFanIn env r)
      else .ok (some (refNodeOf env s r), s.withReferrer env r thisNode) := by
  obtain ⟨rn, hrn, hrnEq⟩ := exists_get?_countFanIn env r hnode
  have htn : (s.countFanIn env r).nodes.get? (s.tags r.referee) =
      some { thisNode with fanIn := fanInAfter env s r thisNode } := by
    simp [Search.countFanIn, hthis]
  have hign : isFieldIgnored rn { thisNode with fanIn := fanInAfter env s r thisNode }
      (r.info.getD {}).index = isFieldIgnored refNode thisNode (r.info.getD {}).index := by
    simp only [isFieldIgnored, hrnEq]
  have htag' : (s.countFanIn env r).tags o ≠ 0 := htag
  simp only [referrerNode, hr, htag', if_true, ne_eq, not_false_eq_true]
  rw [show (s.countFanIn env r).tags o = s.tags o from rfl, deref_eq_ok.2 hrn, Run.ok_bind,
    deref_eq_ok.2 htn, Run.ok_bind, hign]
  simp only [refNodeOf, hr, referrerHeap, Search.recorded, Search.withReferrer, htag, ne_eq,
    not_false_eq_true, if_true, Option.map_some]
  rfl

/-- Where the referrer's node is found or made, with everything but the heap as in the end. -/
theorem referrerNode_ok (env : Agent Obj) {s : Search Obj} {r : HeapReference Obj}
    {thisNode : MemoryNode Obj} (hthis : s.nodes.get? (s.tags r.referee) = some thisNode)
    (href : ReferrerTagOk s r) :
    (DropsByReferrer s r thisNode ∧
      referrerNode env r (s.tags r.referee) (s.countFanIn env r) =
        .ok (none, s.countFanIn env r)) ∨
    (¬ DropsByReferrer s r thisNode ∧
      referrerNode env r (s.tags r.referee) (s.countFanIn env r) =
        .ok (some (refNodeOf env s r), s.withReferrer env r thisNode)) := by
  rcases hr : r.referrer with _ | o
  · refine .inr ⟨not_dropsByReferrer ?_, ?_⟩
    · simp [hr]
    · simp only [referrerNode, hr, refNodeOf, referrerHeap, Search.recorded, Search.withReferrer]
      rfl
  by_cases htag : s.tags o = 0
  · refine .inr ⟨not_dropsByReferrer ?_, ?_⟩
    · simp [hr, htag]
    · simp only [referrerNode, hr, refNodeOf, referrerHeap, Search.recorded, Search.withReferrer]
      have htag' : (s.countFanIn env r).tags o = 0 := htag
      simp only [htag, htag', ne_eq, not_true_eq_false, if_false, Option.map_some]
      rfl
  · obtain ⟨refNode, hnode⟩ := href o hr htag
    rw [referrerNode_tagged env hthis hr htag hnode, dropsByReferrer_iff hr htag hnode]
    split_ifs with h1 h2
    · exact .inl ⟨.inl h1, rfl⟩
    · exact .inl ⟨.inr h2, rfl⟩
    · exact .inr ⟨by simpa [h2] using h1, rfl⟩

/-- Finding or making the referrer's node leaves of the referenced node what the rest reads. -/
theorem get?_referrerHeap (env : Agent Obj) {s : Search Obj} (r : HeapReference Obj)
    {thisNode : MemoryNode Obj} (hthis : s.nodes.get? (s.tags r.referee) = some thisNode) :
    ∃ nd, (referrerHeap env s r (s.countFanIn env r).nodes).get? (s.tags r.referee) = some nd ∧
      nd.leaksRelated = thisNode.leaksRelated ∧ nd.leakSize = thisNode.leakSize := by
  have hcount : (s.countFanIn env r).nodes.get? (s.tags r.referee) =
      some { thisNode with fanIn := fanInAfter env s r thisNode } := by
    simp [Search.countFanIn, hthis]
  unfold referrerHeap
  split
  · exact ⟨_, hcount, rfl, rfl⟩
  · split_ifs with htag
    · rename_i o _
      by_cases hself : s.tags r.referee = s.tags o
      · rw [← hself, CHeap.get?_modify_self, hcount]
        exact ⟨_, rfl, rfl, rfl⟩
      · rw [CHeap.get?_modify_of_ne _ hself, hcount]
        exact ⟨_, rfl, rfl, rfl⟩
    · rw [CHeap.get?_alloc_of_mem _ (CHeap.mem_dom_of_get? _ hcount), hcount]
      exact ⟨_, rfl, rfl, rfl⟩

omit [DecidableEq Obj] in
theorem recordReference_eq_ok {r : HeapReference Obj} {this : ℕ} {refNode : Option ℕ}
    {s : Search Obj} {thisNode fin : MemoryNode Obj} {nodes : CHeap (MemoryNode Obj)}
    (hthis : s.nodes.get? this = some thisNode)
    (hnodes : nodes = CHeap.modify (match refNode with
        | none => s.nodes
        | some addr => s.nodes.modify addr (thisNode.inherit s.leaksFinished)) this
      fun n => { n with start := n.start ++ [⟨r.kind, r.info.getD {}, refNode⟩] })
    (hfin : nodes.get? this = some fin) :
    recordReference r this refNode s = .ok { s with
      nodes := nodes
      nodesFound := countNodesFound fin.leaksRelated s.leaksFinished s.nodesFound
      leaksFinished := if isRootReference r.kind then s.leaksFinished.addAll fin.leaksRelated
        else s.leaksFinished } := by
  subst hnodes
  cases refNode <;>
  · simp only [recordReference, deref_eq_ok.2 hthis, Run.ok_bind]
    rw [deref_eq_ok.2 hfin]
    rfl

theorem recordReference_withReferrer {env : Agent Obj} {s : Search Obj} {r : HeapReference Obj}
    {thisNode : MemoryNode Obj} (hthis : s.nodes.get? (s.tags r.referee) = some thisNode) :
    recordReference r (s.tags r.referee) (refNodeOf env s r) (s.withReferrer env r thisNode) =
      .ok (s.recorded env r thisNode) := by
  obtain ⟨nd, hnd, hleaks, hsize⟩ := get?_referrerHeap env r hthis
  have hinherit : nd.inherit s.leaksFinished = thisNode.inherit s.leaksFinished := by
    funext refNode
    simp only [MemoryNode.inherit, hleaks, hsize]
  have hfinal : ∃ fin, (recordedHeap env s r thisNode).get? (s.tags r.referee) = some fin ∧
      fin.leaksRelated = leaksAfter env s r thisNode := by
    unfold recordedHeap leaksAfter
    rcases href : refNodeOf env s r with _ | addr
    · simp [hnd, hleaks]
    · by_cases haddr : addr = s.tags r.referee
      · subst haddr
        simp [hnd, MemoryNode.inherit, hleaks]
      · simp [CHeap.get?_modify_of_ne _ (Ne.symm haddr), hnd, hleaks, haddr]
  obtain ⟨fin, hfin, hfinLeaks⟩ := hfinal
  have hheap : CHeap.modify (match refNodeOf env s r with
      | none => (s.withReferrer env r thisNode).nodes
      | some addr => (s.withReferrer env r thisNode).nodes.modify addr
          (nd.inherit s.leaksFinished)) (s.tags r.referee)
        (fun n => { n with start := n.start ++ [newReferer env s r] }) =
      recordedHeap env s r thisNode := by
    rw [hinherit]
    rfl
  have hnd' : (s.withReferrer env r thisNode).nodes.get? (s.tags r.referee) = some nd := hnd
  rw [recordReference_eq_ok hnd' hheap.symm hfin, hfinLeaks]
  rfl

theorem referrerTagOk_of_referrerNode {env : Agent Obj} {s : Search Obj} {r : HeapReference Obj}
    {res : Option (Option ℕ) × Search Obj}
    (h : referrerNode env r (s.tags r.referee) (s.countFanIn env r) = .ok res) :
    ReferrerTagOk s r := by
  intro o ho htag
  have htag' : (s.countFanIn env r).tags o ≠ 0 := htag
  simp only [referrerNode, ho, if_pos htag'] at h
  obtain ⟨refNode, hnode, _⟩ := Run.bind_eq_ok.1 h
  have hmem := CHeap.mem_dom_of_get? _ (deref_eq_ok.1 hnode)
  exact s.nodes.exists_get?_of_mem hmem

/-! ## The outcomes of a report -/

/-- The JVM reports the reference to the callback. -/
structure Reported (env : Agent Obj) (s : Search Obj) (r : HeapReference Obj) : Prop where
  tagged : s.tags r.referee ≠ 0
  classTagged : s.tags (env.jvm.classOf r.referee) ≠ 0

/-- The reference to `thisNode` is reported and recorded. -/
structure Records (env : Agent Obj) (s : Search Obj) (r : HeapReference Obj)
    (thisNode : MemoryNode Obj) : Prop extends Reported env s r, Passes env s r thisNode where
  byClass : ¬ DropsByClass env s r thisNode
  byReferrer : ¬ DropsByReferrer s r thisNode

/-- The three ways a report can end. -/
inductive Outcome (env : Agent Obj) (s : Search Obj) (r : HeapReference Obj) : Search Obj → Prop
  /-- The JVM does not call, or one of the first three tests ends the callback. -/
  | skipped (idle : Reported env s r → ∀ thisNode, ¬ Passes env s r thisNode) : Outcome env s r s
  /-- Only the referrer's class is counted. -/
  | dropped (thisNode : MemoryNode Obj) (reported : Reported env s r)
      (passes : Passes env s r thisNode) (classTag : ClassTagOk env s r)
      (drops : DropsByClass env s r thisNode ∨ DropsByReferrer s r thisNode) :
      Outcome env s r (s.countFanIn env r)
  /-- The reference is recorded. -/
  | recorded (thisNode : MemoryNode Obj) (records : Records env s r thisNode)
      (classTag : ClassTagOk env s r) (referrerTag : ReferrerTagOk s r) :
      Outcome env s r (s.recorded env r thisNode)

/-- What a callback that gets past its first tests does, up to its last part. -/
theorem cbObjectTagReferrer_of_passes {env : Agent Obj} {s : Search Obj} {r : HeapReference Obj}
    {thisNode : MemoryNode Obj} (passes : Passes env s r thisNode) :
    cbObjectTagReferrer env s r =
      admitReferrerClass env r (s.tags r.referee) s >>= fun (goOn, s₁) =>
        if !goOn then .ok s₁
        else referrerNode env r (s.tags r.referee) s₁ >>= fun (refNode?, s₂) =>
          match refNode? with
          | none => .ok s₂
          | some refNode => recordReference r (s.tags r.referee) refNode s₂ := by
  simp only [cbObjectTagReferrer, passes.notLocal, deref_eq_ok.2 passes.node, Run.ok_bind,
    passes.unfinished, passes.nonempty, Bool.false_eq_true, if_false]
  rfl

/-- With valid tags the callback returns, and its result is one of the three outcomes. -/
theorem cbObjectTagReferrer_ok {env : Agent Obj} {s : Search Obj} {r : HeapReference Obj}
    {thisNode : MemoryNode Obj} (reported : Reported env s r) (passes : Passes env s r thisNode)
    (classTag : ClassTagOk env s r) (referrerTag : ReferrerTagOk s r) :
    ∃ s', cbObjectTagReferrer env s r = .ok s' ∧ Outcome env s r s' := by
  rw [cbObjectTagReferrer_of_passes passes]
  obtain ⟨goOn, hclass, hgoOn⟩ := admitReferrerClass_ok passes.node classTag
  rw [hclass, Run.ok_bind]
  cases goOn with
  | false =>
    have drops : DropsByClass env s r thisNode := by
      by_contra h
      exact Bool.false_ne_true (hgoOn.2 h)
    exact ⟨_, rfl, .dropped thisNode reported passes classTag (.inl drops)⟩
  | true =>
    have byClass := hgoOn.1 rfl
    rcases referrerNode_ok env passes.node referrerTag with ⟨drops, hrun⟩ | ⟨keeps, hrun⟩
    · refine ⟨_, ?_, .dropped thisNode reported passes classTag (.inr drops)⟩
      simp only [Bool.not_true, Bool.false_eq_true, if_false, hrun, Run.ok_bind]
    · refine ⟨_, ?_, .recorded thisNode ⟨reported, passes, byClass, keeps⟩ classTag referrerTag⟩
      simp only [Bool.not_true, Bool.false_eq_true, if_false, hrun, Run.ok_bind]
      exact recordReference_withReferrer passes.node

/-- A callback that does not get past its first tests changes nothing. -/
theorem cbObjectTagReferrer_idle {env : Agent Obj} {s : Search Obj} {r : HeapReference Obj}
    {thisNode : MemoryNode Obj} (hthis : s.nodes.get? (s.tags r.referee) = some thisNode)
    (idle : ¬ Passes env s r thisNode) : cbObjectTagReferrer env s r = .ok s := by
  unfold cbObjectTagReferrer
  split_ifs with hlocal
  · rfl
  simp only [deref_eq_ok.2 hthis, Run.ok_bind]
  split_ifs with hall hempty
  · rfl
  · rfl
  · exact absurd ⟨by simpa using hlocal, hthis, by simpa using hall, by simpa using hempty⟩ idle

theorem cbObjectTagReferrer_outcome {env : Agent Obj} {s s' : Search Obj} {r : HeapReference Obj}
    (reported : Reported env s r) (h : cbObjectTagReferrer env s r = .ok s') :
    Outcome env s r s' := by
  by_cases passes : ∃ thisNode, Passes env s r thisNode
  · obtain ⟨thisNode, passes⟩ := passes
    have hrun := h
    rw [cbObjectTagReferrer_of_passes passes] at hrun
    obtain ⟨res, hclass, hrun⟩ := Run.bind_eq_ok.1 hrun
    have classTag := classTagOk_of_admitReferrerClass hclass
    obtain ⟨goOn, hclass', hgoOn⟩ := admitReferrerClass_ok passes.node classTag
    obtain rfl : (goOn, s.countFanIn env r) = res := by
      rw [hclass'] at hclass
      exact Except.ok.inj hclass
    cases goOn with
    | false =>
      have drops : DropsByClass env s r thisNode := by
        by_contra hdrops
        exact Bool.false_ne_true (hgoOn.2 hdrops)
      cases hrun
      exact .dropped thisNode reported passes classTag (.inl drops)
    | true =>
      simp only [Bool.not_true, Bool.false_eq_true, if_false] at hrun
      obtain ⟨res, hnode, _⟩ := Run.bind_eq_ok.1 hrun
      obtain ⟨s'', hrun', outcome⟩ := cbObjectTagReferrer_ok reported passes classTag
        (referrerTagOk_of_referrerNode hnode)
      obtain rfl : s'' = s' := Except.ok.inj (hrun'.symm.trans h)
      exact outcome
  · have idle : s' = s := by
      have hrun := h
      unfold cbObjectTagReferrer at hrun
      split_ifs at hrun with hlocal
      · exact (Except.ok.inj hrun).symm
      obtain ⟨thisNode, hnode, _⟩ := Run.bind_eq_ok.1 hrun
      have := cbObjectTagReferrer_idle (deref_eq_ok.1 hnode) fun h => passes ⟨thisNode, h⟩
      exact Except.ok.inj (h.symm.trans this)
    subst idle
    exact .skipped fun _ thisNode h => passes ⟨thisNode, h⟩

/-- Every report ends in one of the three ways. -/
theorem reportReference_outcome {env : Agent Obj} {s s' : Search Obj} {r : HeapReference Obj}
    (h : reportReference env s r = .ok s') : Outcome env s r s' := by
  unfold reportReference at h
  split_ifs at h with hfilter
  · cases h
    refine .skipped fun reported => ?_
    rcases hfilter with h | h
    · exact absurd h reported.tagged
    · exact absurd h reported.classTagged
  · exact cbObjectTagReferrer_outcome ⟨(not_or.1 hfilter).1, (not_or.1 hfilter).2⟩ h

/-- With valid tags a report returns. -/
theorem reportReference_ok {env : Agent Obj} {s : Search Obj} {r : HeapReference Obj}
    (thisTag : s.tags r.referee ≠ 0 → ∃ thisNode, s.nodes.get? (s.tags r.referee) = some thisNode)
    (classTag : ClassTagOk env s r) (referrerTag : ReferrerTagOk s r) :
    ∃ s', reportReference env s r = .ok s' ∧ Outcome env s r s' := by
  unfold reportReference
  split_ifs with hfilter
  · refine ⟨s, rfl, .skipped fun reported => ?_⟩
    rcases hfilter with h | h
    · exact absurd h reported.tagged
    · exact absurd h reported.classTagged
  · obtain ⟨htag, hclass⟩ := not_or.1 hfilter
    obtain ⟨thisNode, hthis⟩ := thisTag htag
    by_cases passes : Passes env s r thisNode
    · exact cbObjectTagReferrer_ok ⟨htag, hclass⟩ passes classTag referrerTag
    · refine ⟨s, cbObjectTagReferrer_idle hthis passes, .skipped fun _ nd h => passes ?_⟩
      obtain rfl : thisNode = nd := Option.some.inj (hthis.symm.trans h.node)
      exact h

end JLeaker
