import JLeaker.Proof.SearchComplete

/-!
# Numbering the leaks differently

The order in which the JVM lists the leaking objects decides their numbers and the sizes of their
label sets.  As long as every label fits the set it is handed to, two dumps that differ in this order
only go through states that differ in addresses and leak numbers only (`Alike`), so they find chains
for the same objects.
-/

namespace JLeaker

open DeadEnds

variable {Obj : Type} [DecidableEq Obj]

/-! ## Alike states -/

/-- `σ` pairs the leak numbers of two dumps. -/
structure Pairing (n : ℕ) (σ : ℕ → ℕ → Prop) : Prop where
  lt : ∀ l l', σ l l' → l < n ∧ l' < n
  left : ∀ l < n, ∃ l', σ l l'
  right : ∀ l' < n, ∃ l, σ l l'

/-- The agents differ at most in where they place nodes. -/
structure SameAgent (env env' : Agent Obj) : Prop where
  jvm : env'.jvm = env.jvm
  gdata : env'.gdata = env.gdata
  threadId : env'.threadId = env.threadId

/-- Two sets contain paired leaks. -/
def SameLabels (σ : ℕ → ℕ → Prop) (x x' : BitmaskSet) : Prop :=
  ∀ l l', σ l l' → x.bit l = x'.bit l'

/-- Two records name the same reference from the same object. -/
structure SameReferer (tags tags' : Obj → ℕ) (ref ref' : MemoryReferer) : Prop where
  kind : ref.kind = ref'.kind
  info : ref.info = ref'.info
  node : ref.node = none ∧ ref'.node = none ∨
    ∃ o, tags o ≠ 0 ∧ ref.node = some (tags o) ∧ ref'.node = some (tags' o)

/-- Two nodes of one object agree up to addresses and leak numbers. -/
structure SameNode (σ : ℕ → ℕ → Prop) (tags tags' : Obj → ℕ) (nd nd' : MemoryNode Obj) : Prop where
  dead : nd.dead = nd'.dead
  classNode : nd.classNode = nd'.classNode
  klass : nd.klass = nd'.klass
  obj : nd.obj = nd'.obj
  leakSize : nd.leakSize = nd'.leakSize
  start : List.Forall₂ (SameReferer tags tags') nd.start nd'.start
  labels : SameLabels σ nd.leaksRelated nd'.leaksRelated
  fanIn : nd.fanIn = nd'.fanIn
  ignoreFields : nd.ignoreFields = nd'.ignoreFields

/-- Two states agree up to addresses and leak numbers. -/
structure Alike (σ : ℕ → ℕ → Prop) (s s' : Search Obj) : Prop where
  tags : ∀ o, s.tags o = 0 ↔ s'.tags o = 0
  node : ∀ o nd nd', s.nodes.get? (s.tags o) = some nd → s'.nodes.get? (s'.tags o) = some nd' →
    SameNode σ s.tags s'.tags nd nd'
  finished : SameLabels σ s.leaksFinished s'.leaksFinished
  found : ∀ l l', σ l l' → s.nodesFound.getD l 0 = s'.nodesFound.getD l' 0

/-- The number of leaks bounds the labels of a state. -/
structure Labelling (n : ℕ) (s : Search Obj) : Prop where
  ok : SearchOk n s
  clean : AllClean s.nodes

/-- Alike states of two agents. -/
structure Related (n : ℕ) (σ : ℕ → ℕ → Prop) (env env' : Agent Obj) (s s' : Search Obj) : Prop where
  pairing : Pairing n σ
  agent : SameAgent env env'
  alike : Alike σ s s'
  left : Labelling n s
  right : Labelling n s'

omit [DecidableEq Obj] in
theorem Labelling.lt {n : ℕ} {s : Search Obj} (labelling : Labelling n s) {a : ℕ}
    {nd : MemoryNode Obj} (hnd : s.nodes.get? a = some nd) {l : ℕ}
    (hbit : nd.leaksRelated.bit l = true) : l < n :=
  lt_of_lt_of_le (labelling.clean a nd hnd l hbit) (labelling.ok.node a nd hnd).size

omit [DecidableEq Obj] in
theorem SameLabels.symm {σ : ℕ → ℕ → Prop} {x x' : BitmaskSet} (same : SameLabels σ x x') :
    SameLabels (fun l' l => σ l l') x' x := fun l' l h => (same l l' h).symm

omit [DecidableEq Obj] in
theorem SameReferer.symm {tags tags' : Obj → ℕ} (zero : ∀ o, tags o = 0 ↔ tags' o = 0)
    {ref ref' : MemoryReferer} (same : SameReferer tags tags' ref ref') :
    SameReferer tags' tags ref' ref where
  kind := same.kind.symm
  info := same.info.symm
  node := by
    rcases same.node with ⟨h, h'⟩ | ⟨o, ho, h, h'⟩
    · exact .inl ⟨h', h⟩
    · exact .inr ⟨o, mt (zero o).2 ho, h', h⟩

omit [DecidableEq Obj] in
theorem SameNode.symm {σ : ℕ → ℕ → Prop} {tags tags' : Obj → ℕ}
    (zero : ∀ o, tags o = 0 ↔ tags' o = 0) {nd nd' : MemoryNode Obj}
    (same : SameNode σ tags tags' nd nd') :
    SameNode (fun l' l => σ l l') tags' tags nd' nd where
  dead := same.dead.symm
  classNode := same.classNode.symm
  klass := same.klass.symm
  obj := same.obj.symm
  leakSize := same.leakSize.symm
  start := List.Forall₂.flip (same.start.imp fun _ _ h => h.symm zero)
  labels := same.labels.symm
  fanIn := same.fanIn.symm
  ignoreFields := same.ignoreFields.symm

omit [DecidableEq Obj] in
theorem Related.symm {n : ℕ} {σ : ℕ → ℕ → Prop} {env env' : Agent Obj} {s s' : Search Obj}
    (rel : Related n σ env env' s s') : Related n (fun l' l => σ l l') env' env s' s where
  pairing := ⟨fun l' l h => (rel.pairing.lt l l' h).symm, rel.pairing.right, rel.pairing.left⟩
  agent := ⟨rel.agent.jvm.symm, rel.agent.gdata.symm, rel.agent.threadId.symm⟩
  alike :=
    { tags := fun o => (rel.alike.tags o).symm
      node := fun o nd' nd hnd' hnd => (rel.alike.node o nd nd' hnd hnd').symm rel.alike.tags
      finished := rel.alike.finished.symm
      found := fun l' l h => (rel.alike.found l l' h).symm }
  left := rel.right
  right := rel.left

/-! ## What a report reads -/

section

variable {n : ℕ} {σ : ℕ → ℕ → Prop} {env env' : Agent Obj} {s s' : Search Obj}
  {r : HeapReference Obj} {thisNode thisNode' : MemoryNode Obj}

omit [DecidableEq Obj] in
theorem Related.tags_inj (rel : Related n σ env env' s s') {o o' : Obj} (h : s.tags o ≠ 0) :
    s.tags o' = s.tags o ↔ s'.tags o' = s'.tags o := by
  constructor
  · intro heq
    rw [rel.left.ok.tagged.inj o o' h heq.symm]
  · intro heq
    rw [rel.right.ok.tagged.inj o o' (mt (rel.alike.tags o).2 h) heq.symm]

omit [DecidableEq Obj] in
/-- The node of an object has a counterpart. -/
theorem Related.exists_node (rel : Related n σ env env' s s') {o : Obj} {nd : MemoryNode Obj}
    (hnd : s.nodes.get? (s.tags o) = some nd) :
    ∃ nd', s'.nodes.get? (s'.tags o) = some nd' ∧ SameNode σ s.tags s'.tags nd nd' := by
  have htag := s.nodes.ne_zero_of_mem (s.nodes.mem_dom_of_get? hnd)
  obtain ⟨nd', hnd'⟩ := s'.nodes.exists_get?_of_mem
    (rel.right.ok.tagged.mem o (mt (rel.alike.tags o).2 htag))
  exact ⟨nd', hnd', rel.alike.node o nd nd' hnd hnd'⟩

omit [DecidableEq Obj] in
/-- The first tests of the callback have the same answers. -/
theorem Related.passes (rel : Related n σ env env' s s') (passes : Passes env s r thisNode) :
    ∃ thisNode', Passes env' s' r thisNode' ∧ SameNode σ s.tags s'.tags thisNode thisNode' := by
  obtain ⟨thisNode', hthis', same⟩ := rel.exists_node passes.node
  have paired : ∀ l, thisNode.leaksRelated.bit l = true → ∃ l', σ l l' :=
    fun l hl => rel.pairing.left l (rel.left.lt passes.node hl)
  refine ⟨thisNode', ⟨?_, hthis', ?_, ?_⟩, same⟩
  · rw [rel.agent.threadId]
    exact passes.notLocal
  · have size : thisNode.leaksRelated.size ≤ s.leaksFinished.size := by
      rw [rel.left.ok.finished]
      exact (rel.left.ok.node _ _ passes.node).size
    have size' : thisNode'.leaksRelated.size ≤ s'.leaksFinished.size := by
      rw [rel.right.ok.finished]
      exact (rel.right.ok.node _ _ hthis').size
    rw [← Bool.not_eq_true, BitmaskSet.containsAll_iff size']
    intro hall
    have hunfinished := passes.unfinished
    rw [← Bool.not_eq_true, BitmaskSet.containsAll_iff size] at hunfinished
    refine hunfinished fun l hl => ?_
    obtain ⟨l', hpair⟩ := paired l hl
    rw [rel.alike.finished l l' hpair]
    exact hall l' ((same.labels l l' hpair).symm.trans hl)
  · have hnonempty := passes.nonempty
    rw [← Bool.not_eq_true, BitmaskSet.isEmpty_iff] at hnonempty ⊢
    intro hall
    refine hnonempty fun l => ?_
    by_contra hl
    have hl : thisNode.leaksRelated.bit l = true := by simpa using hl
    obtain ⟨l', hpair⟩ := paired l hl
    rw [same.labels l l' hpair, hall l'] at hl
    cases hl

omit [DecidableEq Obj] in
theorem Related.reported (rel : Related n σ env env' s s') (reported : Reported env s r) :
    Reported env' s' r where
  tagged := mt (rel.alike.tags _).2 reported.tagged
  classTagged := by
    rw [rel.agent.jvm]
    exact mt (rel.alike.tags _).2 reported.classTagged

omit [DecidableEq Obj] in
/-- The class node of the referrer has a counterpart. -/
theorem Related.exists_classNode (rel : Related n σ env env' s s') {classNode : MemoryNode Obj}
    (hnode : s.nodes.get? (referrerClassTag env.jvm s.tags r) = some classNode) :
    ∃ classNode', s'.nodes.get? (referrerClassTag env'.jvm s'.tags r) = some classNode' ∧
      SameNode σ s.tags s'.tags classNode classNode' := by
  rw [rel.agent.jvm]
  rcases hr : r.referrer with _ | o
  · simp only [referrerClassTag, hr, s.nodes.get?_of_notMem s.nodes.zero_notMem] at hnode
    cases hnode
  · simp only [referrerClassTag, hr] at hnode ⊢
    exact rel.exists_node hnode

omit [DecidableEq Obj] in
theorem Related.classTagOk (rel : Related n σ env env' s s') (ok : ClassTagOk env s r) :
    ClassTagOk env' s' r := by
  intro htag
  have htag' : referrerClassTag env.jvm s.tags r ≠ 0 := by
    rw [rel.agent.jvm] at htag
    rcases hr : r.referrer with _ | o
    · simp only [referrerClassTag, hr] at htag
      exact absurd rfl htag
    · simp only [referrerClassTag, hr] at htag ⊢
      exact mt (rel.alike.tags _).1 htag
  obtain ⟨classNode, hnode, hclass⟩ := ok htag'
  obtain ⟨classNode', hnode', same⟩ := rel.exists_classNode hnode
  exact ⟨classNode', hnode', same.classNode ▸ hclass⟩

omit [DecidableEq Obj] in
theorem SameNode.isFieldIgnored_eq {tags tags' : Obj → ℕ} {classNode classNode' : MemoryNode Obj}
    (same : SameNode σ tags tags' thisNode thisNode')
    (sameClass : SameNode σ tags tags' classNode classNode') (index : ℤ) :
    isFieldIgnored classNode' thisNode' index = isFieldIgnored classNode thisNode index := by
  rw [isFieldIgnored, isFieldIgnored, same.leakSize, sameClass.ignoreFields]

theorem Related.dropsByClass (rel : Related n σ env env' s s')
    (same : SameNode σ s.tags s'.tags thisNode thisNode') (drops : DropsByClass env s r thisNode) :
    DropsByClass env' s' r thisNode' := by
  obtain ⟨classNode, _, hnode, h⟩ := drops
  obtain ⟨classNode', hnode', sameClass⟩ := rel.exists_classNode hnode
  refine ⟨classNode', s'.nodes.ne_zero_of_mem (s'.nodes.mem_dom_of_get? hnode'), hnode', ?_⟩
  rw [← sameClass.obj, ← same.fanIn, rel.agent.gdata, same.isFieldIgnored_eq sameClass]
  exact h

omit [DecidableEq Obj] in
theorem any_eq_of_forall₂ {α β : Type} {l : List α} {l' : List β} {p : α → Bool} {q : β → Bool}
    {R : α → β → Prop} (all : List.Forall₂ R l l') (same : ∀ a b, R a b → p a = q b) :
    l.any p = l'.any q := by
  induction all with
  | nil => rfl
  | cons h _ ih => rw [List.any_cons, List.any_cons, same _ _ h, ih]

omit [DecidableEq Obj] in
/-- A reference from an object is recorded in both states or in none. -/
theorem Related.hasReference (rel : Related n σ env env' s s')
    (same : SameNode σ s.tags s'.tags thisNode thisNode') {o : Obj} (ho : s.tags o ≠ 0)
    (kind : HeapReferenceKind) (info : Option HeapReferenceInfo) :
    hasReferenceBetweenObjects thisNode (s.tags o) kind info =
      hasReferenceBetweenObjects thisNode' (s'.tags o) kind info := by
  refine any_eq_of_forall₂ same.start fun ref ref' href => ?_
  have hnode : (ref.node == some (s.tags o)) = (ref'.node == some (s'.tags o)) := by
    rcases href.node with ⟨h, h'⟩ | ⟨o', _, h, h'⟩
    · rw [h, h']
      rfl
    · rw [h, h', Bool.eq_iff_iff, beq_iff_eq, beq_iff_eq, Option.some_inj, Option.some_inj]
      exact rel.tags_inj ho
  rw [href.kind, href.info, hnode]

omit [DecidableEq Obj] in
theorem Related.dropsByReferrer (rel : Related n σ env env' s s')
    (same : SameNode σ s.tags s'.tags thisNode thisNode') (drops : DropsByReferrer s r thisNode) :
    DropsByReferrer s' r thisNode' := by
  obtain ⟨o, refNode, ho, htag, hnode, h⟩ := drops
  obtain ⟨refNode', hnode', sameRef⟩ := rel.exists_node hnode
  refine ⟨o, refNode', ho, mt (rel.alike.tags o).2 htag, hnode', ?_⟩
  rw [same.isFieldIgnored_eq sameRef, ← rel.hasReference same htag]
  exact h

omit [DecidableEq Obj] in
theorem Related.referrerTagOk (rel : Related n σ env env' s s') : ReferrerTagOk s' r :=
  fun o _ htag => s'.nodes.exists_get?_of_mem (rel.right.ok.tagged.mem o htag)

/-! ## What a report leaves -/

omit [DecidableEq Obj] in
theorem SameReferer.retag {tags tags' t t' : Obj → ℕ} (zero : ∀ o, tags o = 0 ↔ tags' o = 0)
    (keep : ∀ o, tags o ≠ 0 → t o = tags o) (keep' : ∀ o, tags' o ≠ 0 → t' o = tags' o)
    {ref ref' : MemoryReferer} (same : SameReferer tags tags' ref ref') :
    SameReferer t t' ref ref' where
  kind := same.kind
  info := same.info
  node := by
    rcases same.node with h | ⟨o, ho, h, h'⟩
    · exact .inl h
    · exact .inr ⟨o, (keep o ho).symm ▸ ho, (keep o ho).symm ▸ h,
        (keep' o (mt (zero o).2 ho)).symm ▸ h'⟩

theorem Related.fanInAfter_eq (rel : Related n σ env env' s s') {nd nd' : MemoryNode Obj}
    (same : nd.fanIn = nd'.fanIn) : fanInAfter env s r nd = fanInAfter env' s' r nd' := by
  unfold fanInAfter
  rcases hnode : s.nodes.get? (referrerClassTag env.jvm s.tags r) with _ | classNode
  · rcases hnode' : s'.nodes.get? (referrerClassTag env'.jvm s'.tags r) with _ | classNode'
    · exact same
    · obtain ⟨classNode, h, _⟩ := rel.symm.exists_classNode hnode'
      rw [hnode] at h
      cases h
  · obtain ⟨classNode', hnode', sameClass⟩ := rel.exists_classNode hnode
    simp only [hnode', sameClass.obj, same]

theorem Related.countFanIn (rel : Related n σ env env' s s') :
    Alike σ (s.countFanIn env r) (s'.countFanIn env' r) where
  tags := rel.alike.tags
  node o nd nd' hnd hnd' := by
    rw [get?_countFanIn, Option.map_eq_some_iff] at hnd hnd'
    obtain ⟨x, hx, rfl⟩ := hnd
    obtain ⟨x', hx', rfl⟩ := hnd'
    have same := rel.alike.node o x x' hx hx'
    have htag := s.nodes.ne_zero_of_mem (s.nodes.mem_dom_of_get? hx)
    have here : (s.countFanIn env r).tags o = s.tags r.referee ↔
        (s'.countFanIn env' r).tags o = s'.tags r.referee := by
      rw [eq_comm, eq_comm (b := s'.tags r.referee)]
      exact rel.tags_inj htag
    refine { same with fanIn := ?_ }
    simp only [here, rel.fanInAfter_eq same.fanIn, same.fanIn]
  finished := rel.alike.finished
  found := rel.alike.found

/-- The node of an object after the report. -/
theorem get?_recorded_tags (tagged : WellTagged s.toAgentState)
    (hthis : s.nodes.get? (s.tags r.referee) = some thisNode) {o : Obj} {nd : MemoryNode Obj}
    (hnd : (s.recorded env r thisNode).nodes.get? ((s.recorded env r thisNode).tags o) = some nd) :
    ∃ old, nd = recordedNode env s r thisNode ((s.recorded env r thisNode).tags o) old ∧
      (s.nodes.get? (s.tags o) = some old ∨
        (r.referrer = some o ∧ s.tags o = 0) ∧ old = newMemoryNode s.numberOfLeaks) := by
  obtain ⟨old, rfl, hold | ⟨⟨o', hnew⟩, hold⟩⟩ := get?_recorded_eq_some hthis hnd
  · refine ⟨old, rfl, .inl ?_⟩
    rw [tags_recorded] at hold
    split_ifs at hold
    · rw [s.nodes.get?_fresh] at hold
      cases hold
    · exact hold
  · refine ⟨old, rfl, .inr ⟨?_, hold⟩⟩
    by_contra hnot
    have htag := hnew.addr
    rw [tags_recorded, if_neg hnot] at htag
    have hne := s.nodes.fresh_ne_zero env.malloc
    exact s.nodes.fresh_notMem env.malloc (htag ▸ tagged.mem o (htag.symm ▸ hne))

/-- Where a report changes the node of an object. -/
structure ChangesAt (env : Agent Obj) (s : Search Obj) (r : HeapReference Obj)
    (thisNode : MemoryNode Obj) (o : Obj) (a : ℕ) : Prop where
  referrer : refNodeOf env s r = some a ↔ r.referrer = some o
  referee : a = s.tags r.referee ↔ o = r.referee

theorem changesAt (tagged : WellTagged s.toAgentState)
    (hthis : s.nodes.get? (s.tags r.referee) = some thisNode) {o : Obj}
    (htag : (s.recorded env r thisNode).tags o ≠ 0) :
    ChangesAt env s r thisNode o ((s.recorded env r thisNode).tags o) := by
  have tagged' : WellTagged (s.recorded env r thisNode).toAgentState := tagged.recorded hthis
  refine ⟨?_, ?_⟩
  · rcases hr : r.referrer with _ | o'
    · simp [refNodeOf, hr]
    · rw [refNodeOf_eq_tags env s thisNode hr, Option.some_inj, Option.some_inj]
      exact ⟨fun h => (tagged'.inj o o' htag h.symm).symm, fun h => h ▸ rfl⟩
  · have href := s.nodes.ne_zero_of_mem (s.nodes.mem_dom_of_get? hthis)
    rw [← tags_recorded_of_ne_zero env s r thisNode href]
    exact ⟨fun h => tagged'.inj o _ htag h, fun h => h ▸ rfl⟩

/-- The labels of the referrer's node after a report whose labels fit. -/
theorem Labelling.bit_recordedNode (labelling : Labelling n s) (records : Records env s r thisNode)
    (fit : LabelsFit env s r) {o : Obj} {a : ℕ} (at_ : ChangesAt env s r thisNode o a)
    {old : MemoryNode Obj} (hold : s.nodes.get? (s.tags o) = some old ∨
      (r.referrer = some o ∧ s.tags o = 0) ∧ old = newMemoryNode s.numberOfLeaks) (l : ℕ) :
    (recordedNode env s r thisNode a old).leaksRelated.bit l = true ↔
      old.leaksRelated.bit l = true ∨ r.referrer = some o ∧ thisNode.leaksRelated.bit l = true ∧
        s.leaksFinished.bit l = false := by
  rw [JLeaker.bit_recordedNode, at_.referrer]
  refine or_congr_right (and_congr_right fun ho => and_congr_right fun hbit => ?_)
  refine and_iff_left_of_imp fun hfin => ?_
  have hlt : l < old.leaksRelated.size := by
    rcases hold with hold | ⟨_, rfl⟩
    · exact fit thisNode records o old ho hold l hbit hfin
    · rw [labelling.ok.number]
      exact labelling.lt records.node hbit
  omega

theorem Related.sameNode_recorded (rel : Related n σ env env' s s')
    (records : Records env s r thisNode) (records' : Records env' s' r thisNode')
    (fit : LabelsFit env s r) (fit' : LabelsFit env' s' r) {o : Obj} {a a' : ℕ}
    (at_ : ChangesAt env s r thisNode o a) (at' : ChangesAt env' s' r thisNode' o a')
    {old old' : MemoryNode Obj}
    (hold : s.nodes.get? (s.tags o) = some old ∨
      (r.referrer = some o ∧ s.tags o = 0) ∧ old = newMemoryNode s.numberOfLeaks)
    (hold' : s'.nodes.get? (s'.tags o) = some old' ∨
      (r.referrer = some o ∧ s'.tags o = 0) ∧ old' = newMemoryNode s'.numberOfLeaks) :
    SameNode σ (s.recorded env r thisNode).tags (s'.recorded env' r thisNode').tags
      (recordedNode env s r thisNode a old) (recordedNode env' s' r thisNode' a' old') := by
  have sameThis := rel.alike.node r.referee _ _ records.node records'.node
  have tag_of : ∀ {x}, s.nodes.get? (s.tags o) = some x → s.tags o ≠ 0 := fun h =>
    s.nodes.ne_zero_of_mem (s.nodes.mem_dom_of_get? h)
  have tag_of' : ∀ {x}, s'.nodes.get? (s'.tags o) = some x → s'.tags o ≠ 0 := fun h =>
    s'.nodes.ne_zero_of_mem (s'.nodes.mem_dom_of_get? h)
  have same : SameNode σ s.tags s'.tags old old' := by
    rcases hold with hold | ⟨⟨_, htag⟩, rfl⟩
    · rcases hold' with hold' | ⟨⟨_, htag'⟩, rfl⟩
      · exact rel.alike.node o old old' hold hold'
      · exact absurd ((rel.alike.tags o).2 htag') (tag_of hold)
    · rcases hold' with hold' | ⟨_, rfl⟩
      · exact absurd ((rel.alike.tags o).1 htag) (tag_of' hold')
      · exact ⟨rfl, rfl, rfl, rfl, rfl, .nil, fun _ _ _ => by
          simp only [newMemoryNode, BitmaskSet.bit_new], rfl, rfl⟩
  have keep := fun o => tags_recorded_of_ne_zero env s r thisNode (o := o)
  have keep' := fun o => tags_recorded_of_ne_zero env' s' r thisNode' (o := o)
  have retag : ∀ {ref ref'}, SameReferer s.tags s'.tags ref ref' →
      SameReferer (s.recorded env r thisNode).tags (s'.recorded env' r thisNode').tags ref ref' :=
    fun h => h.retag rel.alike.tags keep keep'
  have newRecord : SameReferer (s.recorded env r thisNode).tags
      (s'.recorded env' r thisNode').tags (newReferer env s r) (newReferer env' s' r) := by
    refine ⟨rfl, rfl, ?_⟩
    rcases hr : r.referrer with _ | o'
    · exact .inl ⟨by simp [newReferer, refNodeOf, hr], by simp [newReferer, refNodeOf, hr]⟩
    · refine .inr ⟨o', ?_, refNodeOf_eq_tags env s thisNode hr,
        refNodeOf_eq_tags env' s' thisNode' hr⟩
      rw [tags_recorded]
      split_ifs with hnew
      · exact s.nodes.fresh_ne_zero _
      · exact fun h0 => hnew ⟨hr, h0⟩
  refine ⟨same.dead, same.classNode, same.klass, same.obj, ?_, ?_, ?_, ?_, same.ignoreFields⟩
  · simp only [recordedNode, at_.referrer, at'.referrer, same.leakSize, sameThis.leakSize]
  · simp only [recordedNode, at_.referee, at'.referee]
    split_ifs
    · exact List.rel_append (same.start.imp fun _ _ => retag) (.cons newRecord .nil)
    · exact same.start.imp fun _ _ => retag
  · intro l l' hpair
    rw [Bool.eq_iff_iff, rel.left.bit_recordedNode records fit at_ hold,
      rel.right.bit_recordedNode records' fit' at' hold', same.labels l l' hpair,
      sameThis.labels l l' hpair, rel.alike.finished l l' hpair]
  · simp only [recordedNode, at_.referee, at'.referee, rel.fanInAfter_eq same.fanIn, same.fanIn]

omit [DecidableEq Obj] in
/-- The loop over the counters reads the labels of the referenced node. -/
theorem Labelling.contains_leaksAfter (labelling : Labelling n s) (env : Agent Obj)
    (hthis : s.nodes.get? (s.tags r.referee) = some thisNode) (l : ℕ) :
    (leaksAfter env s r thisNode).contains l = thisNode.leaksRelated.bit l := by
  rw [Bool.eq_iff_iff, BitmaskSet.contains_iff, bit_leaksAfter, size_leaksAfter]
  exact and_iff_right_of_imp (labelling.clean _ _ hthis l)

omit [DecidableEq Obj] in
theorem Labelling.contains_finished (labelling : Labelling n s) {l : ℕ} (hl : l < n) :
    s.leaksFinished.contains l = s.leaksFinished.bit l := by
  rw [Bool.eq_iff_iff, BitmaskSet.contains_iff, labelling.ok.finished]
  exact and_iff_right hl

/-- What a recorded reference does to alike states. -/
theorem Related.recorded (rel : Related n σ env env' s s') (records : Records env s r thisNode)
    (records' : Records env' s' r thisNode') (fit : LabelsFit env s r)
    (fit' : LabelsFit env' s' r) :
    Alike σ (s.recorded env r thisNode) (s'.recorded env' r thisNode') where
  tags o := by
    simp only [tags_recorded, rel.alike.tags o]
    split_ifs
    · exact iff_of_false (s.nodes.fresh_ne_zero _) (s'.nodes.fresh_ne_zero _)
    · exact rel.alike.tags o
  node o nd nd' hnd hnd' := by
    obtain ⟨old, rfl, hold⟩ := get?_recorded_tags rel.left.ok.tagged records.node hnd
    obtain ⟨old', rfl, hold'⟩ := get?_recorded_tags rel.right.ok.tagged records'.node hnd'
    have htag := CHeap.ne_zero_of_mem _ (CHeap.mem_dom_of_get? _ hnd)
    have htag' := CHeap.ne_zero_of_mem _ (CHeap.mem_dom_of_get? _ hnd')
    exact rel.sameNode_recorded records records' fit fit'
      (changesAt rel.left.ok.tagged records.node htag)
      (changesAt rel.right.ok.tagged records'.node htag') hold hold'
  finished l l' hpair := by
    have sameThis := rel.alike.node r.referee _ _ records.node records'.node
    obtain ⟨hl, hl'⟩ := rel.pairing.lt l l' hpair
    have hsize : l / 8 ≤ s.leaksFinished.size / 8 := by
      rw [rel.left.ok.finished]
      omega
    have hsize' : l' / 8 ≤ s'.leaksFinished.size / 8 := by
      rw [rel.right.ok.finished]
      omega
    simp only [Search.recorded]
    split_ifs
    · simp only [BitmaskSet.bit_addAll, bit_leaksAfter, hsize, hsize',
        sameThis.labels l l' hpair, rel.alike.finished l l' hpair]
    · exact rel.alike.finished l l' hpair
  found l l' hpair := by
    have sameThis := rel.alike.node r.referee _ _ records.node records'.node
    obtain ⟨hl, hl'⟩ := rel.pairing.lt l l' hpair
    have hcontains := rel.left.contains_leaksAfter env records.node l
    have hcontains' := rel.right.contains_leaksAfter env' records'.node l'
    have hfinished := rel.left.contains_finished hl
    have hfinished' := rel.right.contains_finished hl'
    simp only [Search.recorded]
    rw [countNodesFound_getD _ _ (by rw [rel.left.ok.found]; exact hl),
      countNodesFound_getD _ _ (by rw [rel.right.ok.found]; exact hl'), hcontains, hcontains',
      hfinished, hfinished', sameThis.labels l l' hpair, rel.alike.finished l l' hpair,
      rel.alike.found l l' hpair]

theorem Labelling.outcome {t : Search Obj} (labelling : Labelling n s) (fit : LabelsFit env s r)
    (out : Outcome env s r t) : Labelling n t := by
  refine ⟨labelling.ok.outcome out, ?_⟩
  cases out with
  | skipped => exact labelling.clean
  | dropped => exact labelling.clean.countFanIn
  | recorded thisNode records => exact labelling.clean.recorded labelling.ok records fit.inside

theorem reportReference_of_reported (reported : Reported env s r) :
    reportReference env s r = cbObjectTagReferrer env s r := by
  rw [reportReference, if_neg (not_or.2 ⟨reported.tagged, reported.classTagged⟩)]

/-- A report that is skipped in one state is skipped in the other. -/
theorem Related.skipped (rel : Related n σ env env' s s')
    (idle : Reported env s r → ∀ thisNode, ¬ Passes env s r thisNode) :
    reportReference env' s' r = .ok s' := by
  by_cases reported' : Reported env' s' r
  · obtain ⟨thisNode', hthis'⟩ := s'.nodes.exists_get?_of_mem
      (rel.right.ok.tagged.mem _ reported'.tagged)
    rw [reportReference_of_reported reported']
    refine cbObjectTagReferrer_idle hthis' fun passes' => ?_
    obtain ⟨thisNode, passes, _⟩ := rel.symm.passes passes'
    exact idle (rel.symm.reported reported') thisNode passes
  · rw [reportReference, if_pos]
    by_contra hnot
    exact reported' ⟨(not_or.1 hnot).1, (not_or.1 hnot).2⟩

/-- One report keeps the states alike. -/
theorem Related.report (rel : Related n σ env env' s s') (fit : LabelsFit env s r)
    (fit' : LabelsFit env' s' r) {t : Search Obj} (run : reportReference env s r = .ok t) :
    ∃ t', reportReference env' s' r = .ok t' ∧ Related n σ env env' t t' := by
  have out := reportReference_outcome run
  have left := rel.left.outcome fit out
  have related : ∀ {t'}, Outcome env' s' r t' → Alike σ t t' → Related n σ env env' t t' :=
    fun out' alike => ⟨rel.pairing, rel.agent, alike, left, rel.right.outcome fit' out'⟩
  -- past the first tests the other report ends in one of the two other ways
  have follow : ∀ thisNode, Reported env s r → Passes env s r thisNode → ClassTagOk env s r →
      ∃ thisNode' t', SameNode σ s.tags s'.tags thisNode thisNode' ∧
        Passes env' s' r thisNode' ∧ reportReference env' s' r = .ok t' ∧
        Outcome env' s' r t' := by
    intro thisNode reported passes classTag
    obtain ⟨thisNode', passes', same⟩ := rel.passes passes
    obtain ⟨t', hrun, out'⟩ := cbObjectTagReferrer_ok (rel.reported reported) passes'
      (rel.classTagOk classTag) rel.referrerTagOk
    exact ⟨thisNode', t', same, passes',
      (reportReference_of_reported (rel.reported reported)).trans hrun, out'⟩
  cases out with
  | skipped idle => exact ⟨s', rel.skipped idle, rel⟩
  | dropped thisNode reported passes classTag drops =>
    obtain ⟨thisNode', t', same, passes', hrun, out'⟩ := follow thisNode reported passes classTag
    refine ⟨t', hrun, related out' ?_⟩
    cases out' with
    | skipped idle => exact absurd passes' (idle (rel.reported reported) thisNode')
    | dropped => exact rel.countFanIn
    | recorded other records' =>
      obtain rfl := Option.some.inj (passes'.node.symm.trans records'.node)
      rcases drops with drops | drops
      · exact absurd (rel.dropsByClass same drops) records'.byClass
      · exact absurd (rel.dropsByReferrer same drops) records'.byReferrer
  | recorded thisNode records classTag =>
    obtain ⟨thisNode', t', same, passes', hrun, out'⟩ :=
      follow thisNode records.toReported records.toPasses classTag
    refine ⟨t', hrun, related out' ?_⟩
    cases out' with
    | skipped idle => exact absurd passes' (idle (rel.reported records.toReported) thisNode')
    | dropped other _ otherPasses _ drops =>
      obtain rfl := Option.some.inj (passes'.node.symm.trans otherPasses.node)
      have back := same.symm rel.alike.tags
      rcases drops with drops | drops
      · exact absurd (rel.symm.dropsByClass back drops) records.byClass
      · exact absurd (rel.symm.dropsByReferrer back drops) records.byReferrer
    | recorded other records' => exact rel.recorded records records' fit fit'

omit [DecidableEq Obj] in
theorem Related.resetNodesFound (rel : Related n σ env env' s s') :
    Related n σ env env' s.resetNodesFound s'.resetNodesFound where
  pairing := rel.pairing
  agent := rel.agent
  alike :=
    { tags := rel.alike.tags
      node := rel.alike.node
      finished := rel.alike.finished
      found := fun l l' _ => by simp [Search.resetNodesFound, List.getD] }
  left := ⟨rel.left.ok.resetNodesFound, rel.left.clean⟩
  right := ⟨rel.right.ok.resetNodesFound, rel.right.clean⟩

omit [DecidableEq Obj] in
/-- The passes stop at the same time. -/
theorem Related.hasUnfinished (rel : Related n σ env env' s s') :
    s'.hasUnfinished = s.hasUnfinished := by
  have unfinished_iff : ∀ {s : Search Obj}, Labelling n s → (s.hasUnfinished = true ↔
      ∃ l < n, s.leaksFinished.bit l = false ∧ s.nodesFound.getD l 0 ≠ 0) := by
    intro s labelling
    simp only [Search.hasUnfinished, List.any_eq_true, List.mem_range, labelling.ok.number]
    refine exists_congr fun l => and_congr_right fun hl => ?_
    rw [labelling.contains_finished hl]
    simp
  rw [Bool.eq_iff_iff, unfinished_iff rel.right, unfinished_iff rel.left]
  constructor
  · rintro ⟨l', hl', hfin, hfound⟩
    obtain ⟨l, hpair⟩ := rel.pairing.right l' hl'
    exact ⟨l, (rel.pairing.lt l l' hpair).1, (rel.alike.finished l l' hpair).trans hfin,
      rel.alike.found l l' hpair ▸ hfound⟩
  · rintro ⟨l, hl, hfin, hfound⟩
    obtain ⟨l', hpair⟩ := rel.pairing.left l hl
    exact ⟨l', (rel.pairing.lt l l' hpair).2, (rel.alike.finished l l' hpair).symm.trans hfin,
      rel.alike.found l l' hpair ▸ hfound⟩

end

/-! ## Two dumps -/

/-- Two dumps that differ in the order of the candidates, and perhaps in where they place nodes. -/
structure Renumbered (d d' : Dump Obj) : Prop where
  agent : SameAgent d.agent d'.agent
  candidates : d'.candidates.Perm d.candidates
  size : d'.size = d.size
  loadedClasses : d'.loadedClasses = d.loadedClasses
  ignoreFields : d'.ignoreFields = d.ignoreFields
  order : d'.order = d.order

namespace Dump

/-- The candidates that become leaks, in the order of their leak numbers. -/
def leaking (d : Dump Obj) : List (Obj × ℕ) := leakingCandidates d.agent d.size d.candidates

/-- The two leak numbers belong to one object. -/
def SameLeak (d d' : Dump Obj) (l l' : ℕ) : Prop :=
  ∃ c, d.leaking[l]? = some c ∧ d'.leaking[l']? = some c

variable (d : Dump Obj)

/-- The leak with a number. -/
theorem leak_of_leaking {l : ℕ} {c : Obj × ℕ} (h : d.leaking[l]? = some c) :
    ∃ leak ∈ d.leaks, leak.leakNumber = l ∧ leak.leakSize = candidateSize d.agent d.size c ∧
      d.start.nodes.get? leak.node = some (leakNode leak c.1) ∧
      ((d.candidates.map Prod.fst).Nodup → d.searched.2.tags c.1 = leak.node) := by
  obtain ⟨hl, rfl⟩ := List.getElem?_eq_some_iff.1 h
  have hnode := d.leaks_searched.node
  have hl' : l < d.leaks.length := hnode.length_eq ▸ hl
  have hget := (List.forall₂_iff_get.1 hnode).2 l hl hl'
  simp only [List.get_eq_getElem] at hget
  refine ⟨d.leaks[l], List.getElem_mem hl', ?_, hget.2, ?_, fun once => ?_⟩
  · have := congrArg (·[l]?) d.leaks_searched.numbers
    have hlt : l < d.searched.2.numberOfLeaks := by
      have hlen := congrArg List.length d.leaks_searched.numbers
      simp only [List.length_map, List.length_range] at hlen
      omega
    simpa [hl', hlt] using this
  · exact (d.classNodes_tagged.old _ (CHeap.mem_dom_of_get? _ hget.1)).trans hget.1
  · have htag := (List.forall₂_iff_get.1 (d.leaks_searched.tag once)).2 l hl hl'
    simp only [List.get_eq_getElem] at htag
    exact htag

theorem length_leaking : d.leaking.length = d.leaks.length := d.leaks_searched.node.length_eq

theorem get?_klass {klass : Obj} (hk : klass ∈ d.loadedClasses)
    (hne : klass ≠ d.agent.jvm.classClass) : d.start.nodes.get? (d.start.tags klass) =
      some (classNode d.leaks.length d.ignoreFields klass) := by
  rw [← d.numberOfLeaks_tagged, d.classNodes_tagged.numberOfLeaks]
  exact (d.classNodes_tagged.klass klass hk hne).2

/-- An object that is no class and not leaking has no tag when the passes begin. -/
theorem tags_start_of_notMem (once : (d.candidates.map Prod.fst).Nodup) {o : Obj}
    (hk : o ∉ d.loadedClasses) (hl : o ∉ d.leaking.map Prod.fst) : d.start.tags o = 0 :=
  (d.classNodes_tagged.others o hk).trans (d.leaks_searched.untagged once o hl)

theorem tags_start_of_leaking (once : (d.candidates.map Prod.fst).Nodup) {l : ℕ} {c : Obj × ℕ}
    (h : d.leaking[l]? = some c) (hk : c.1 ∉ d.loadedClasses) :
    ∃ leak ∈ d.leaks, leak.leakNumber = l ∧ leak.leakSize = candidateSize d.agent d.size c ∧
      d.start.tags c.1 = leak.node ∧
      d.start.nodes.get? (d.start.tags c.1) = some (leakNode leak c.1) := by
  obtain ⟨leak, hleak, hnumber, hsize, hnode, htag⟩ := d.leak_of_leaking h
  have tag : d.start.tags c.1 = leak.node := (d.classNodes_tagged.others _ hk).trans (htag once)
  exact ⟨leak, hleak, hnumber, hsize, tag, tag.symm ▸ hnode⟩

end Dump

namespace Renumbered

variable {d d' : Dump Obj}

omit [DecidableEq Obj] in
theorem candidateSize_eq (re : Renumbered d d') :
    candidateSize d'.agent d'.size = candidateSize d.agent d.size := by
  funext c
  rw [candidateSize, candidateSize, re.size, re.agent.gdata]

omit [DecidableEq Obj] in
theorem symm (re : Renumbered d d') : Renumbered d' d where
  agent := ⟨re.agent.jvm.symm, re.agent.gdata.symm, re.agent.threadId.symm⟩
  candidates := re.candidates.symm
  size := re.size.symm
  loadedClasses := re.loadedClasses.symm
  ignoreFields := re.ignoreFields.symm
  order := re.order.symm

omit [DecidableEq Obj] in
theorem leaking_perm (re : Renumbered d d') : d'.leaking.Perm d.leaking := by
  unfold Dump.leaking leakingCandidates
  rw [re.candidateSize_eq, re.agent.gdata]
  exact re.candidates.filter _

theorem length_leaks (re : Renumbered d d') : d'.leaks.length = d.leaks.length := by
  rw [← d'.length_leaking, ← d.length_leaking]
  exact re.leaking_perm.length_eq

theorem pairing (re : Renumbered d d') : Pairing d.leaks.length (d.SameLeak d') where
  lt l l' h := by
    obtain ⟨c, hl, hl'⟩ := h
    have hlt := (List.getElem?_eq_some_iff.1 hl).1
    have hlt' := (List.getElem?_eq_some_iff.1 hl').1
    rw [d.length_leaking] at hlt
    rw [d'.length_leaking, re.length_leaks] at hlt'
    exact ⟨hlt, hlt'⟩
  left l hl := by
    rw [← d.length_leaking] at hl
    obtain ⟨l', hl'⟩ := List.getElem?_of_mem
      (re.leaking_perm.mem_iff.2 (List.getElem_mem hl))
    exact ⟨l', d.leaking[l], List.getElem?_eq_getElem hl, hl'⟩
  right l' hl' := by
    rw [← re.length_leaks, ← d'.length_leaking] at hl'
    obtain ⟨l, hl⟩ := List.getElem?_of_mem (re.leaking_perm.mem_iff.1 (List.getElem_mem hl'))
    exact ⟨l, d'.leaking[l'], hl, List.getElem?_eq_getElem hl'⟩

omit [DecidableEq Obj] in
/-- A candidate has one leak number. -/
theorem number_inj {d : Dump Obj} (once : (d.candidates.map Prod.fst).Nodup) {l k : ℕ}
    {c : Obj × ℕ} (hl : d.leaking[l]? = some c) (hk : d.leaking[k]? = some c) : l = k := by
  have nodup : d.leaking.Nodup := (once.of_map _).filter _
  obtain ⟨hlt, heq⟩ := List.getElem?_eq_some_iff.1 hl
  obtain ⟨hlt', heq'⟩ := List.getElem?_eq_some_iff.1 hk
  exact (List.Nodup.getElem_inj_iff nodup).1 (heq.trans heq'.symm)

omit [DecidableEq Obj] in
theorem once (re : Renumbered d d') (once : (d.candidates.map Prod.fst).Nodup) :
    (d'.candidates.map Prod.fst).Nodup :=
  (re.candidates.map Prod.fst).nodup_iff.2 once

/-- Before the passes an object has no node in either dump or nodes that agree. -/
theorem start_cases (re : Renumbered d d') (once : (d.candidates.map Prod.fst).Nodup) (o : Obj) :
    d.start.tags o = 0 ∧ d'.start.tags o = 0 ∨
      ∃ nd nd', d.start.nodes.get? (d.start.tags o) = some nd ∧
        d'.start.nodes.get? (d'.start.tags o) = some nd' ∧
        SameNode (d.SameLeak d') d.start.tags d'.start.tags nd nd' := by
  have once' := re.once once
  by_cases hk : o ∈ d.loadedClasses
  · have hk' : o ∈ d'.loadedClasses := re.loadedClasses ▸ hk
    by_cases hclass : o = d.agent.jvm.classClass
    · have hclass' : o = d'.agent.jvm.classClass := re.agent.jvm ▸ hclass
      left
      exact ⟨hclass ▸ d.classNodes_tagged.classClass (hclass ▸ hk),
        hclass' ▸ d'.classNodes_tagged.classClass (hclass' ▸ hk')⟩
    · have hclass' : o ≠ d'.agent.jvm.classClass := re.agent.jvm ▸ hclass
      refine .inr ⟨_, _, d.get?_klass hk hclass, d'.get?_klass hk' hclass', rfl, rfl, rfl, rfl, rfl,
        .nil, fun l l' _ => ?_, rfl, ?_⟩
      · rw [bit_classNode, bit_classNode]
      · simp only [classNode, re.ignoreFields]
  · have hk' : o ∉ d'.loadedClasses := re.loadedClasses ▸ hk
    by_cases hl : o ∈ d.leaking.map Prod.fst
    · obtain ⟨c, hc, rfl⟩ := List.mem_map.1 hl
      obtain ⟨k, hk₁⟩ := List.getElem?_of_mem hc
      obtain ⟨k', hk₁'⟩ := List.getElem?_of_mem (re.leaking_perm.mem_iff.2 hc)
      obtain ⟨leak, _, rfl, hsize, _, hnode⟩ := d.tags_start_of_leaking once hk₁ hk
      obtain ⟨leak', _, rfl, hsize', _, hnode'⟩ := d'.tags_start_of_leaking once' hk₁' hk'
      refine .inr ⟨_, _, hnode, hnode', rfl, rfl, rfl, rfl, ?_, .nil, fun l l' hpair => ?_, rfl,
        rfl⟩
      · rw [re.candidateSize_eq] at hsize'
        exact hsize.trans hsize'.symm
      · obtain ⟨c', hl, hl'⟩ := hpair
        rw [Bool.eq_iff_iff, bit_leakNode, bit_leakNode]
        constructor
        · rintro rfl
          obtain rfl := Option.some.inj (hk₁.symm.trans hl)
          exact number_inj once' hl' hk₁'
        · rintro rfl
          obtain rfl := Option.some.inj (hk₁'.symm.trans hl')
          exact number_inj once hl hk₁
    · have hl' : o ∉ d'.leaking.map Prod.fst := fun h =>
        hl ((re.leaking_perm.map Prod.fst).mem_iff.1 h)
      exact .inl ⟨d.tags_start_of_notMem once hk hl, d'.tags_start_of_notMem once' hk' hl'⟩

theorem related_start (re : Renumbered d d') (once : (d.candidates.map Prod.fst).Nodup) :
    Related d.leaks.length (d.SameLeak d') d.agent d'.agent d.start d'.start where
  pairing := re.pairing
  agent := re.agent
  alike :=
    { tags := fun o => by
        rcases re.start_cases once o with ⟨h, h'⟩ | ⟨nd, nd', hnd, hnd', _⟩
        · exact iff_of_true h h'
        · exact iff_of_false (CHeap.ne_zero_of_mem _ (CHeap.mem_dom_of_get? _ hnd))
            (CHeap.ne_zero_of_mem _ (CHeap.mem_dom_of_get? _ hnd'))
      node := fun o nd nd' hnd hnd' => by
        rcases re.start_cases once o with ⟨h, _⟩ | ⟨x, x', hx, hx', same⟩
        · rw [h, CHeap.get?_of_notMem _ (CHeap.zero_notMem _)] at hnd
          cases hnd
        · obtain rfl := Option.some.inj (hnd.symm.trans hx)
          obtain rfl := Option.some.inj (hnd'.symm.trans hx')
          exact same
      finished := fun l l' _ => by
        show (BitmaskSet.new _).bit l = (BitmaskSet.new _).bit l'
        rw [BitmaskSet.bit_new, BitmaskSet.bit_new]
      found := fun l l' _ => by simp [Dump.start, Search.start, List.getD] }
  left := ⟨d.searchOk_start, d.allClean_start⟩
  right := ⟨re.length_leaks ▸ d'.searchOk_start, d'.allClean_start⟩

theorem related_symm (re : Renumbered d d') {s s' : Search Obj}
    (rel : Related d.leaks.length (d.SameLeak d') d.agent d'.agent s s') :
    Related d'.leaks.length (d'.SameLeak d) d'.agent d.agent s' s := by
  have same : d'.SameLeak d = fun l' l => d.SameLeak d' l l' := by
    funext l' l
    exact propext (exists_congr fun c => and_comm)
  rw [same, re.length_leaks]
  exact rel.symm

/-- The search of one dump follows that of the other. -/
theorem run (re : Renumbered d d') (once : (d.candidates.map Prod.fst).Nodup)
    (fits : d.Meets (LabelsFit d.agent)) (fits' : d'.Meets (LabelsFit d'.agent)) {s : Search Obj}
    (run : d.run = .ok s) :
    ∃ s', d'.run = .ok s' ∧ Related d.leaks.length (d.SameLeak d') d.agent d'.agent s s' := by
  have length : d'.agent.gdata.referenceChainLength = d.agent.gdata.referenceChainLength := by
    rw [re.agent.gdata]
  unfold Dump.run tagReferencesChain
  unfold Dump.Meets at fits'
  rw [re.order, length] at fits' ⊢
  exact heapIterations_simulates (fun _ _ rel => rel.resetNodesFound)
    (fun _ _ _ _ rel fit fit' hreport => rel.report fit fit' hreport)
    (fun _ _ rel => rel.hasUnfinished) fits fits' (re.related_start once) run

end Renumbered

/-! ## The chains of two dumps -/

/-- The same objects have died in both dumps. -/
def SameDead (objectsWithTag objectsWithTag' : ℕ → List Obj) (s s' : Search Obj) : Prop :=
  ∀ o, s.tags o ≠ 0 → (objectsWithTag (s.tags o) = [] ↔ objectsWithTag' (s'.tags o) = [])

theorem exists_of_forall₂ {α β : Type} {R : α → β → Prop} {l : List α} {l' : List β}
    (all : List.Forall₂ R l l') {a : α} (ha : a ∈ l) : ∃ b ∈ l', R a b := by
  obtain ⟨k, hk, rfl⟩ := List.getElem_of_mem ha
  have hk' : k < l'.length := all.length_eq ▸ hk
  exact ⟨l'[k], List.getElem_mem hk', (List.forall₂_iff_get.1 all).2 k hk hk'⟩

section

variable {n : ℕ} {σ : ℕ → ℕ → Prop} {env env' : Agent Obj} {s s' : Search Obj}
  {objectsWithTag objectsWithTag' : ℕ → List Obj}

omit [DecidableEq Obj] in
/-- The recorded references of an object have counterparts. -/
theorem Related.exists_reference (rel : Related n σ env env' s s') {o : Obj} (ho : s.tags o ≠ 0)
    {ref : MemoryReferer} (href : ref ∈ referencesOf s.nodes (s.tags o)) :
    ∃ ref' ∈ referencesOf s'.nodes (s'.tags o), SameReferer s.tags s'.tags ref ref' := by
  obtain ⟨nd, hnd⟩ := s.nodes.exists_get?_of_mem (rel.left.ok.tagged.mem o ho)
  obtain ⟨nd', hnd', same⟩ := rel.exists_node hnd
  simp only [referencesOf, hnd] at href
  simp only [referencesOf, hnd']
  exact exists_of_forall₂ same.start href

omit [DecidableEq Obj] in
/-- The search for a chain may step through an object in both states. -/
theorem Related.carries (rel : Related n σ env env' s s')
    (dead : SameDead objectsWithTag objectsWithTag' s s') {l l' : ℕ} (hpair : σ l l') {o : Obj}
    (ho : s.tags o ≠ 0) (carries : s.tags o ∈ carriers objectsWithTag l s.nodes) :
    s'.tags o ∈ carriers objectsWithTag' l' s'.nodes := by
  obtain ⟨carried, nd, hnd, hlive⟩ := carries
  obtain ⟨nd', hnd', same⟩ := rel.exists_node hnd
  refine ⟨rel.right.clean.carries_iff.2 ⟨nd', hnd', ?_⟩, nd', hnd', ?_⟩
  · obtain ⟨x, hx, hbit⟩ := rel.left.clean.carries_iff.1 carried
    obtain rfl := Option.some.inj (hnd.symm.trans hx)
    exact (same.labels l l' hpair).symm.trans hbit
  · have hempty : (objectsWithTag (s.tags o)).isEmpty = (objectsWithTag' (s'.tags o)).isEmpty := by
      rw [Bool.eq_iff_iff, List.isEmpty_iff, List.isEmpty_iff]
      exact dead o ho
    rw [MemoryNode.live, ← same.dead, ← same.klass, ← same.obj, ← hempty]
    exact hlive

omit [DecidableEq Obj] in
/-- What leads to a root in one state does so in the other. -/
theorem Related.leads (rel : Related n σ env env' s s')
    (dead : SameDead objectsWithTag objectsWithTag' s s') {l l' : ℕ} (hpair : σ l l') {o : Obj}
    (ho : s.tags o ≠ 0)
    (leads : Leads (LinkedTo env.gdata (referencesOf s.nodes))
      (HoldsRoot env.gdata (referencesOf s.nodes)) (carriers objectsWithTag l s.nodes) (s.tags o)) :
    Leads (LinkedTo env'.gdata (referencesOf s'.nodes))
      (HoldsRoot env'.gdata (referencesOf s'.nodes)) (carriers objectsWithTag' l' s'.nodes)
      (s'.tags o) := by
  rw [rel.agent.gdata]
  refine leads.simulate (R := fun a a' => ∃ o, s.tags o ≠ 0 ∧ a = s.tags o ∧ a' = s'.tags o)
    ?_ ?_ ?_ ⟨o, ho, rfl, rfl⟩
  · rintro _ _ b ⟨o, ho, rfl, rfl⟩ ⟨ref, href, hconsidered, hroot, hnode⟩
    obtain ⟨ref', href', same⟩ := rel.exists_reference ho href
    rcases same.node with ⟨hnone, _⟩ | ⟨o', ho', hb, hb'⟩
    · rw [hnone] at hnode
      cases hnode
    · exact ⟨s'.tags o', ⟨o', ho', Option.some.inj (hnode.symm.trans hb), rfl⟩, ref', href',
        same.kind ▸ hconsidered, same.kind ▸ hroot, hb'⟩
  · rintro _ _ ⟨o, ho, rfl, rfl⟩ ⟨ref, href, hconsidered, hroot⟩
    obtain ⟨ref', href', same⟩ := rel.exists_reference ho href
    exact ⟨ref', href', same.kind ▸ hconsidered, same.kind ▸ hroot⟩
  · rintro _ _ ⟨o, ho, rfl, rfl⟩ hcarries
    exact rel.carries dead hpair ho hcarries

end

namespace Dump

variable (d : Dump Obj) {s : Search Obj}

/-- The leaking objects for which printing finds a chain. -/
def foundObjects (chains : List (Option (List MemoryReferer))) : Set Obj :=
  {o | ∃ leak path, (leak, some path) ∈ d.leaks.zip chains ∧ d.LeakingObject leak o}

/-- The search for a chain for the leak leads to a root. -/
def HasChain (objectsWithTag : ℕ → List Obj) (s : Search Obj) (leak : LeakingNode) : Prop :=
  Leads (LinkedTo d.agent.gdata (referencesOf s.nodes))
    (HoldsRoot d.agent.gdata (referencesOf s.nodes))
    (carriers objectsWithTag leak.leakNumber s.nodes) leak.node

/-- A leak is one of the leaking candidates. -/
theorem leaking_of_leak {leak : LeakingNode} (hleak : leak ∈ d.leaks) {o : Obj}
    (hobj : d.LeakingObject leak o) : ∃ c, d.leaking[leak.leakNumber]? = some c ∧ c.1 = o := by
  have hl : leak.leakNumber < d.leaking.length := by
    rw [d.length_leaking]
    exact d.leakNumber_lt hleak
  have hget := List.getElem?_eq_getElem hl
  obtain ⟨leak', hleak', hnumber, _, hnode, _⟩ := d.leak_of_leaking hget
  obtain rfl := d.leak_ext hleak' hleak hnumber
  obtain ⟨nd, hnd, hobj⟩ := hobj
  obtain rfl := Option.some.inj (hnd.symm.trans hnode)
  exact ⟨_, hget, Option.some.inj hobj⟩

/-- Only the leaking object itself can have the node of its leak as tag, and no class has it. -/
theorem object_of_tag (once : (d.candidates.map Prod.fst).Nodup) (run : d.run = .ok s)
    {leak : LeakingNode} (hleak : leak ∈ d.leaks) {o o' : Obj} (hobj : d.LeakingObject leak o)
    (htag : s.tags o' = leak.node) : o' = o ∧ o ∉ d.loadedClasses := by
  have hmem : leak.node ∈ d.searched.2.nodes.dom :=
    (d.leaks_searched.mem _).2 (List.mem_map_of_mem hleak)
  have start : ∀ o', d.start.tags o' = leak.node → o' = o ∧ o ∉ d.loadedClasses := by
    intro o' htag
    have hk : o' ∉ d.loadedClasses := by
      intro hk
      by_cases hclass : o' = d.agent.jvm.classClass
      · have hzero := d.classNodes_tagged.classClass (hclass ▸ hk)
        rw [← hclass] at hzero
        exact CHeap.ne_zero_of_mem _ hmem (htag.symm.trans hzero)
      · have hnode := (d.classNodes_tagged.klass o' hk hclass).1
        exact d.classNodes_tagged.notMem _ hnode (htag.symm ▸ hmem)
    obtain ⟨c, hc, rfl⟩ := d.leaking_of_leak hleak hobj
    obtain ⟨leak', hleak', hnumber, _, _, htag'⟩ := d.leak_of_leaking hc
    obtain rfl := d.leak_ext hleak' hleak hnumber
    have htag : d.searched.2.tags o' = leak'.node :=
      (d.classNodes_tagged.others o' hk).symm.trans htag
    have hne : d.searched.2.tags o' ≠ 0 := htag.symm ▸ CHeap.ne_zero_of_mem _ hmem
    obtain rfl := d.leaks_searched.tagged.inj o' c.1 hne (htag.trans (htag' once).symm)
    exact ⟨rfl, hk⟩
  refine (run_invariant (I := fun s => leak.node ∈ s.nodes.dom ∧
    ∀ o', s.tags o' = leak.node → o' = o ∧ o ∉ d.loadedClasses) (fun _ h => h)
    (fun s r s' h _ hreport => ?_) d.meets_true
    ⟨(d.classNodes_tagged.mem _).2 (.inl hmem), start⟩ run).2 o' htag
  cases reportReference_outcome hreport with
  | skipped => exact h
  | dropped => exact h
  | recorded thisNode =>
    refine ⟨?_, fun o' htag => ?_⟩
    · rw [dom_recorded]
      exact dom_subset_grownHeap _ _ _ h.1
    · rw [tags_recorded] at htag
      split_ifs at htag
      · exact absurd (htag.symm ▸ h.1) (s.nodes.fresh_notMem _)
      · exact h.2 o' htag

/-- A leaking object that is no class has the node of its leak as tag. -/
theorem tags_run (once : (d.candidates.map Prod.fst).Nodup) (run : d.run = .ok s)
    {leak : LeakingNode} (hleak : leak ∈ d.leaks) {o : Obj} (hobj : d.LeakingObject leak o)
    (hk : o ∉ d.loadedClasses) : s.tags o = leak.node := by
  obtain ⟨c, hc, rfl⟩ := d.leaking_of_leak hleak hobj
  obtain ⟨leak', hleak', hnumber, _, htag, hnode⟩ := d.tags_start_of_leaking once hc hk
  obtain rfl := d.leak_ext hleak' hleak hnumber
  have hne := CHeap.ne_zero_of_mem _ (CHeap.mem_dom_of_get? _ hnode)
  exact (run_invariant (I := fun s => s.tags c.1 = leak'.node ∧ s.tags c.1 ≠ 0) (fun _ h => h)
    (fun _ _ _ h _ hreport => by
      rw [ClassesTagged.tags_outcome (reportReference_outcome hreport) h.2]
      exact h) d.meets_true ⟨htag, hne⟩ run).1

/-- Records are on nodes that are the tags of objects. -/
theorem exists_tag_of_references (run : d.run = .ok s) {a : ℕ} (ha : referencesOf s.nodes a ≠ []) :
    ∃ o, s.tags o = a := by
  refine run_invariant (I := fun s => ∀ a, referencesOf s.nodes a ≠ [] →
    ∃ o, s.tags o ≠ 0 ∧ s.tags o = a) (fun _ h => h) (fun s r s' h _ hreport => ?_) d.meets_true
    (fun a ha => absurd (d.referencesOf_start a) ha) run a ha |>.imp fun _ h => h.2
  cases reportReference_outcome hreport with
  | skipped => exact h
  | dropped =>
    rw [referencesOf_countFanIn]
    exact h
  | recorded thisNode records =>
    have keep : ∀ o, s.tags o ≠ 0 → (s.recorded d.agent r thisNode).tags o = s.tags o :=
      fun o => tags_recorded_of_ne_zero d.agent s r thisNode
    intro a ha
    rw [referencesOf_recorded records.node] at ha
    split_ifs at ha with hthis
    · exact ⟨r.referee, by rw [keep _ records.tagged]; exact ⟨records.tagged, hthis.symm⟩⟩
    · obtain ⟨o, hne, htag⟩ := h a ha
      exact ⟨o, by rw [keep o hne]; exact ⟨hne, htag⟩⟩

/-- Printing finds a chain for the leaking objects that have one. -/
theorem exists_chains (run : d.run = .ok s) {objectsWithTag : ℕ → List Obj}
    (lookup : TagLookup objectsWithTag s.tags) {fuel : ℕ} (enough : s.nodes.dom.card < fuel) :
    ∃ chains st, d.chains objectsWithTag fuel s = .ok (chains, st) ∧
      ∀ o, o ∈ d.foundObjects chains ↔ d.agent.gdata.referenceChainLength > 0 ∧
        ∃ leak ∈ d.leaks, d.LeakingObject leak o ∧ d.HasChain objectsWithTag s leak := by
  by_cases passes : d.agent.gdata.referenceChainLength > 0
  · obtain ⟨chains, st, hrun, hall⟩ := d.chains_answers run passes lookup enough
    refine ⟨chains, st, hrun, fun o => ⟨?_, ?_⟩⟩
    · rintro ⟨leak, path, hmem, hobj⟩
      have answers := List.forall₂_zip hall hmem
      exact ⟨passes, leak, (List.of_mem_zip hmem).1, hobj, answers.isSome_iff.1 rfl⟩
    · rintro ⟨_, leak, hleak, hobj, hchain⟩
      obtain ⟨k, hk, rfl⟩ := List.getElem_of_mem hleak
      have hk' : k < chains.length := hall.length_eq ▸ hk
      have answers := (List.forall₂_iff_get.1 hall).2 k hk hk'
      obtain ⟨path, hpath⟩ := Option.isSome_iff_exists.1 (answers.isSome_iff.2 hchain)
      refine ⟨d.leaks[k], path, ?_, hobj⟩
      rw [← hpath]
      exact List.mem_iff_getElem.2 ⟨k, by simpa using ⟨hk, hk'⟩, by simp⟩
  · obtain ⟨chains, st, hrun, _, hnone⟩ := printReferencesChainForLeakingNodes_none d.agent d.leaks
      ⟨s.nodes, []⟩ ((d.searchOk_run run).graphOk lookup)
      (fun leak hleak => d.leak_mem_run run hleak) fuel
    refine ⟨chains, st, ?_, fun o => iff_of_false ?_ fun h => passes h.1⟩
    · rw [Dump.chains, decide_eq_false passes]
      exact hrun
    · rintro ⟨leak, path, hmem, _⟩
      cases hnone _ (List.of_mem_zip hmem).2

end Dump

/-- A leaking object with a chain in one dump has one in the other. -/
theorem Renumbered.hasChain {d d' : Dump Obj} (re : Renumbered d d')
    (once : (d.candidates.map Prod.fst).Nodup) {s s' : Search Obj} (run : d.run = .ok s)
    (run' : d'.run = .ok s')
    (rel : Related d.leaks.length (d.SameLeak d') d.agent d'.agent s s')
    {objectsWithTag objectsWithTag' : ℕ → List Obj}
    (dead : SameDead objectsWithTag objectsWithTag' s s') {leak : LeakingNode}
    (hleak : leak ∈ d.leaks) {o : Obj} (hobj : d.LeakingObject leak o)
    (chain : d.HasChain objectsWithTag s leak) :
    ∃ leak' ∈ d'.leaks, d'.LeakingObject leak' o ∧ d'.HasChain objectsWithTag' s' leak' := by
  obtain ⟨o', htag⟩ : ∃ o', s.tags o' = leak.node := by
    refine d.exists_tag_of_references run fun hnil => ?_
    cases chain with
    | here _ hroot =>
      obtain ⟨ref, href, _⟩ := hroot
      rw [hnil] at href
      cases href
    | step _ hlinked _ =>
      obtain ⟨ref, href, _⟩ := hlinked
      rw [hnil] at href
      cases href
  obtain ⟨rfl, hk⟩ := d.object_of_tag once run hleak hobj htag
  obtain ⟨c, hc, rfl⟩ := d.leaking_of_leak hleak hobj
  obtain ⟨k', hc'⟩ := List.getElem?_of_mem
    (re.leaking_perm.mem_iff.2 (List.mem_of_getElem? hc))
  obtain ⟨leak', hleak', rfl, _, hnode', _⟩ := d'.leak_of_leaking hc'
  have hobj' : d'.LeakingObject leak' c.1 := ⟨_, hnode', rfl⟩
  have hk' : c.1 ∉ d'.loadedClasses := re.loadedClasses ▸ hk
  have htag' := d'.tags_run (re.once once) run' hleak' hobj' hk'
  have hne : s.tags c.1 ≠ 0 := htag.symm ▸ CHeap.ne_zero_of_mem _ (d.leak_mem_run run hleak)
  refine ⟨leak', hleak', hobj', ?_⟩
  unfold Dump.HasChain at chain ⊢
  rw [← htag] at chain
  rw [← htag']
  exact rel.leads dead ⟨c, hc, hc'⟩ hne chain

/-- As long as every label fits, the order of the candidates does not decide which leaking objects
get a chain. -/
theorem foundObjects_eq_of_renumbered (d d' : Dump Obj) (re : Renumbered d d')
    (once : (d.candidates.map Prod.fst).Nodup) (fits : d.Meets (LabelsFit d.agent))
    (fits' : d'.Meets (LabelsFit d'.agent)) {s : Search Obj} (run : d.run = .ok s) :
    ∃ s', d'.run = .ok s' ∧ ∀ objectsWithTag objectsWithTag' : ℕ → List Obj,
      TagLookup objectsWithTag s.tags → TagLookup objectsWithTag' s'.tags →
      SameDead objectsWithTag objectsWithTag' s s' → ∀ fuel : ℕ, s.nodes.dom.card < fuel →
      s'.nodes.dom.card < fuel → ∃ chains st chains' st',
        d.chains objectsWithTag fuel s = .ok (chains, st) ∧
        d'.chains objectsWithTag' fuel s' = .ok (chains', st') ∧
        d.foundObjects chains = d'.foundObjects chains' := by
  obtain ⟨s', run', rel⟩ := re.run once fits fits' run
  refine ⟨s', run', fun _ _ lookup lookup' dead _ enough enough' => ?_⟩
  obtain ⟨chains, st, hrun, hfound⟩ := d.exists_chains run lookup enough
  obtain ⟨chains', st', hrun', hfound'⟩ := d'.exists_chains run' lookup' enough'
  refine ⟨chains, st, chains', st', hrun, hrun', Set.ext fun o => ?_⟩
  rw [hfound, hfound', re.agent.gdata]
  refine and_congr_right fun _ => ⟨?_, ?_⟩
  · rintro ⟨leak, hleak, hobj, hchain⟩
    exact re.hasChain once run run' rel dead hleak hobj hchain
  · rintro ⟨leak', hleak', hobj', hchain'⟩
    have dead' : SameDead _ _ s' s := fun o ho => (dead o (mt (rel.alike.tags o).1 ho)).symm
    exact re.symm.hasChain (re.once once) run' run (re.related_symm rel) dead' hleak' hobj' hchain'

namespace Sample

/-- A leak held by a leak that a static field holds. -/
def nested (leaking : List (Fin 12 × ℤ)) : Dump (Fin 12) :=
  dump leaking [field 4 3 0, staticField 3 2 0] fun _ => []

/-- The two leaks in one order and in the other. -/
def leaksAB : List (Fin 12 × ℤ) := [(3, 1000), (4, 1000)]
def leaksBA : List (Fin 12 × ℤ) := [(4, 1000), (3, 1000)]

theorem renumbered (refs : List (HeapReference (Fin 12)))
    (ignoreFields : Fin 12 → List IgnoreField) :
    Renumbered (dump leaksAB refs ignoreFields) (dump leaksBA refs ignoreFields) where
  agent := ⟨rfl, rfl, rfl⟩
  candidates := .swap _ _ _
  size := by
    have same : ∀ o, (leaksBA.lookup o).getD 0 = (leaksAB.lookup o).getD 0 := by decide
    exact funext fun _ => funext same
  loadedClasses := rfl
  ignoreFields := rfl
  order := rfl

theorem sameDead {s s' : Search (Fin 12)} :
    SameDead (objectsWithTag s.tags) (objectsWithTag s'.tags) s s' := by
  intro o _
  have mem : o ∈ objectsWithTag s.tags (s.tags o) := by simp [objectsWithTag]
  have mem' : o ∈ objectsWithTag s'.tags (s'.tags o) := by simp [objectsWithTag]
  exact iff_of_false (List.ne_nil_of_mem mem) (List.ne_nil_of_mem mem')

end Sample

theorem foundObjects_eq_of_renumbered_sharing :
    ∃ s s' chains st chains' st', (Sample.dump Sample.leaksAB Sample.sharing fun _ => []).run = .ok s ∧
      (Sample.dump Sample.leaksBA Sample.sharing fun _ => []).run = .ok s' ∧
      (Sample.dump Sample.leaksAB Sample.sharing fun _ => []).chains (Sample.objectsWithTag s.tags)
        (s.nodes.dom.card + s'.nodes.dom.card + 1) s = .ok (chains, st) ∧
      (Sample.dump Sample.leaksBA Sample.sharing fun _ => []).chains (Sample.objectsWithTag s'.tags)
        (s.nodes.dom.card + s'.nodes.dom.card + 1) s' = .ok (chains', st') ∧
      (Sample.dump Sample.leaksAB Sample.sharing fun _ => []).foundObjects chains =
        (Sample.dump Sample.leaksBA Sample.sharing fun _ => []).foundObjects chains' := by
  have fits : ∀ leaking ∈ [Sample.leaksAB, Sample.leaksBA],
      (Sample.dump leaking Sample.sharing fun _ => []).Meets fun s r => Sample.testLabels s r
        (fun _ refNode l => decide (l < refNode.leaksRelated.size)) = true := by
    decide +kernel
  have labelsFit : ∀ leaking ∈ [Sample.leaksAB, Sample.leaksBA],
      (Sample.dump leaking Sample.sharing fun _ => []).Meets
        (LabelsFit (Sample.dump leaking Sample.sharing fun _ => []).agent) := fun leaking h =>
    (fits leaking h).mono fun s r h thisNode records o refNode ho hnd l hbit _ =>
      of_decide_eq_true (Sample.of_testLabels h records.node ho hnd hbit)
  obtain ⟨s, run, _⟩ := Run.exists_ok_of_any
    (x := (Sample.dump Sample.leaksAB Sample.sharing fun _ => []).run) (p := fun _ => true)
    (by decide +kernel)
  obtain ⟨s', run', same⟩ := foundObjects_eq_of_renumbered _ _
    (Sample.renumbered Sample.sharing fun _ => []) (by decide)
    (labelsFit Sample.leaksAB (by simp)) (labelsFit Sample.leaksBA (by simp)) run
  obtain ⟨chains, st, chains', st', hrun, hrun', heq⟩ := same (Sample.objectsWithTag s.tags)
    (Sample.objectsWithTag s'.tags) (Sample.allAlive s.tags).toTagLookup
    (Sample.allAlive s'.tags).toTagLookup Sample.sameDead
    (s.nodes.dom.card + s'.nodes.dom.card + 1) (by omega) (by omega)
  exact ⟨s, s', chains, st, chains', st', run, run', hrun, hrun', heq⟩

/-- The chains found for the two leaks of a dump, while all objects are alive. -/
theorem Sample.chains_of_any (d : Dump (Fin 12)) (found : List Bool)
    (h : d.run.toOption.any (fun s => (d.chains (objectsWithTag s.tags)
      (s.nodes.dom.card + 1) s).toOption.any fun res =>
        decide (res.1.map Option.isSome = found)) = true) :
    ∃ s chains st, d.run = .ok s ∧
      d.chains (objectsWithTag s.tags) (s.nodes.dom.card + 1) s = .ok (chains, st) ∧
      chains.map Option.isSome = found := by
  obtain ⟨s, run, hs⟩ := Run.exists_ok_of_any h
  obtain ⟨⟨chains, st⟩, hrun, hfound⟩ := Run.exists_ok_of_any hs
  exact ⟨s, chains, st, run, hrun, of_decide_eq_true hfound⟩

theorem Sample.pair_of_map_isSome {α : Type} {chains : List (Option α)} {x y : Bool}
    (h : chains.map Option.isSome = [x, y]) : ∃ first second, chains = [first, second] := by
  apply List.length_eq_two.1
  simpa using congrArg List.length h

/-- With one order of the candidates the inner leak gets no chain, with the other it gets one. -/
theorem numbering_matters :
    Renumbered (Sample.nested Sample.leaksAB) (Sample.nested Sample.leaksBA) ∧
      ((Sample.nested Sample.leaksAB).candidates.map Prod.fst).Nodup ∧
      ∃ s s' chains st chains' st', (Sample.nested Sample.leaksAB).run = .ok s ∧
        (Sample.nested Sample.leaksBA).run = .ok s' ∧
        AllAlive (Sample.objectsWithTag s.tags) s.tags ∧
        AllAlive (Sample.objectsWithTag s'.tags) s'.tags ∧
        (Sample.nested Sample.leaksAB).chains (Sample.objectsWithTag s.tags)
          (s.nodes.dom.card + 1) s = .ok (chains, st) ∧
        (Sample.nested Sample.leaksBA).chains (Sample.objectsWithTag s'.tags)
          (s'.nodes.dom.card + 1) s' = .ok (chains', st') ∧
        4 ∉ (Sample.nested Sample.leaksAB).foundObjects chains ∧
        4 ∈ (Sample.nested Sample.leaksBA).foundObjects chains' := by
  obtain ⟨s, chains, st, run, hrun, hfound⟩ := Sample.chains_of_any
    (Sample.nested Sample.leaksAB) [true, false] (by decide +kernel)
  obtain ⟨s', chains', st', run', hrun', hfound'⟩ := Sample.chains_of_any
    (Sample.nested Sample.leaksBA) [true, true] (by decide +kernel)
  refine ⟨Sample.renumbered _ _, by decide, s, s', chains, st, chains', st', run, run',
    Sample.allAlive s.tags, Sample.allAlive s'.tags, hrun, hrun', ?_, ?_⟩
  · rintro ⟨leak, path, hmem, hobj⟩
    have hleaks : (Sample.nested Sample.leaksAB).leaks = [⟨1, 1000, 0⟩, ⟨2, 1000, 1⟩] := by
      decide +kernel
    have hnode : ((Sample.nested Sample.leaksAB).start.nodes.get? 1).any
        (fun nd => nd.obj ≠ some 4) = true := by
      decide +kernel
    obtain ⟨first, second, rfl⟩ := Sample.pair_of_map_isSome hfound
    simp only [List.map_cons, List.map_nil, List.cons.injEq, and_true] at hfound
    obtain rfl : second = none := by simpa using hfound.2
    obtain ⟨nd, hnd, hobj⟩ := hobj
    simp only [hleaks, List.zip_cons_cons, List.zip_nil_left, List.mem_cons, Prod.mk.injEq,
      reduceCtorEq, and_false, List.not_mem_nil, or_false] at hmem
    rw [hmem.1] at hnd
    rw [hnd] at hnode
    simp [hobj] at hnode
  · have hleaks : (Sample.nested Sample.leaksBA).leaks = [⟨1, 1000, 0⟩, ⟨2, 1000, 1⟩] := by
      decide +kernel
    have hnode : ((Sample.nested Sample.leaksBA).start.nodes.get? 1).any
        (fun nd => nd.obj = some 4) = true := by
      decide +kernel
    obtain ⟨first, second, rfl⟩ := Sample.pair_of_map_isSome hfound'
    simp only [List.map_cons, List.map_nil, List.cons.injEq, and_true] at hfound'
    obtain ⟨path, rfl⟩ := Option.isSome_iff_exists.1 hfound'.1
    obtain ⟨nd, hnd, hobj⟩ := (Option.any_eq_true _ _).1 hnode
    exact ⟨⟨1, 1000, 0⟩, path, by simp [hleaks], nd, hnd, of_decide_eq_true hobj⟩

end JLeaker
