import JLeaker.Proof.ClassNodes
import JLeaker.Proof.Reached

/-!
# What the fan-in limit counts

`addReferenceClass` counts reports, before the callback knows whether it will record the reference.
Below the limit the counter of a class is the number of its recorded references exactly until a
report is counted that is not recorded: an ignored field, or a reference that is known already.
-/

namespace JLeaker

variable {Obj : Type} [DecidableEq Obj]

/-! ## Fan-in lists -/

/-- The count of a class in a fan-in list. -/
def fanCount (klass : Option Obj) (fanIn : List (ClassReferenceCount Obj)) : ℤ :=
  ((fanIn.find? fun rCount => rCount.klass = klass).map (·.count)).getD 0

theorem countReference_fst (klass : Option Obj) (fanIn : List (ClassReferenceCount Obj)) :
    (countReference klass fanIn).1 = fanCount klass fanIn + 1 := by
  induction fanIn with
  | nil => rfl
  | cons rCount rest ih =>
    unfold countReference
    split_ifs with hk
    · simp [fanCount, hk]
    · simpa [fanCount, hk] using ih

theorem fanCount_countReference (klass k : Option Obj) (fanIn : List (ClassReferenceCount Obj)) :
    fanCount k (countReference klass fanIn).2 =
      if k = klass then fanCount klass fanIn + 1 else fanCount k fanIn := by
  induction fanIn with
  | nil =>
    by_cases hk : klass = k
    · simp [countReference, fanCount, hk]
    · simp [countReference, fanCount, hk, Ne.symm hk]
  | cons rCount rest ih =>
    by_cases hr : rCount.klass = klass
    · by_cases hk : klass = k
      · simp [countReference, fanCount, hr, hk]
      · simp [countReference, fanCount, hr, hk, Ne.symm hk]
    · by_cases hk : rCount.klass = k
      · have hne : k ≠ klass := fun h => hr (hk.trans h)
        simp [countReference, fanCount, hk, hne]
      · have htail : fanCount k (countReference klass (rCount :: rest)).2 =
            fanCount k (countReference klass rest).2 := by
          simp [countReference, fanCount, hr, hk]
        rw [htail, ih]
        simp [fanCount, hr, hk]

/-! ## Records from a class -/

/-- The record is of a referrer of the class. -/
def IsFromClass (jvm : Jvm Obj) (tags : Obj → ℕ) (klass : Obj) (ref : MemoryReferer) : Prop :=
  ∃ o, ref.node = some (tags o) ∧ jvm.classOf o = klass

open scoped Classical in
/-- The number of distinct records of a node whose referrers belong to the class. -/
noncomputable def recordsFromClass (jvm : Jvm Obj) (tags : Obj → ℕ) (klass : Obj)
    (nd : MemoryNode Obj) : ℕ :=
  (nd.start.toFinset.filter (IsFromClass jvm tags klass)).card

omit [DecidableEq Obj] in
open scoped Classical in
theorem recordsFromClass_le (jvm : Jvm Obj) (tags : Obj → ℕ) (klass : Obj) (nd : MemoryNode Obj) :
    recordsFromClass jvm tags klass nd ≤ nd.start.length :=
  (Finset.card_filter_le _ _).trans (List.toFinset_card_le _)

omit [DecidableEq Obj] in
open scoped Classical in
theorem recordsFromClass_congr {jvm : Jvm Obj} {tags tags' : Obj → ℕ} {klass : Obj}
    {nd nd' : MemoryNode Obj} (start : nd'.start = nd.start)
    (same : ∀ ref ∈ nd.start, IsFromClass jvm tags' klass ref ↔ IsFromClass jvm tags klass ref) :
    recordsFromClass jvm tags' klass nd' = recordsFromClass jvm tags klass nd := by
  unfold recordsFromClass
  rw [start]
  refine congrArg Finset.card (Finset.filter_congr fun ref href => ?_)
  exact same ref (List.mem_toFinset.1 href)

omit [DecidableEq Obj] in
open scoped Classical in
/-- A new record counts if it is from the class. -/
theorem recordsFromClass_append {jvm : Jvm Obj} {tags tags' : Obj → ℕ} {klass : Obj}
    {nd nd' : MemoryNode Obj} {r : MemoryReferer} (start : nd'.start = nd.start ++ [r])
    (fresh : IsFromClass jvm tags' klass r → r ∉ nd.start)
    (same : ∀ ref ∈ nd.start, IsFromClass jvm tags' klass ref ↔ IsFromClass jvm tags klass ref) :
    recordsFromClass jvm tags' klass nd' =
      recordsFromClass jvm tags klass nd + if IsFromClass jvm tags' klass r then 1 else 0 := by
  have old : nd.start.toFinset.filter (IsFromClass jvm tags' klass) =
      nd.start.toFinset.filter (IsFromClass jvm tags klass) :=
    Finset.filter_congr fun ref href => same ref (List.mem_toFinset.1 href)
  have split : nd'.start.toFinset = insert r nd.start.toFinset := by
    ext ref
    simp [start]
  unfold recordsFromClass
  rw [split, Finset.filter_insert, old]
  split_ifs with hnew
  · exact Finset.card_insert_of_notMem fun h =>
      fresh hnew (List.mem_toFinset.1 (Finset.mem_filter.1 h).1)
  · rfl

/-! ## The invariant of the tags -/

/-- The tags of classes that lead to class nodes are those of the loaded classes. -/
structure ClassNodesKnown (jvm : Jvm Obj) (loadedClasses : List Obj) (s : AgentState Obj) :
    Prop where
  klass : ∀ c nd, s.nodes.get? (s.tags c) = some nd → nd.classNode = true →
    c ∈ loadedClasses ∧ c ≠ jvm.classClass ∧ nd.obj = some c

section

variable {env : Agent Obj} {s s' : Search Obj} {r : HeapReference Obj} {thisNode : MemoryNode Obj}
  {loadedClasses : List Obj}

theorem ClassNodesKnown.outcome (known : ClassNodesKnown env.jvm loadedClasses s.toAgentState)
    (out : Outcome env s r s') : ClassNodesKnown env.jvm loadedClasses s'.toAgentState := by
  cases out with
  | skipped => exact known
  | dropped =>
    refine ⟨fun c nd' h hclass => ?_⟩
    change (s.countFanIn env r).nodes.get? (s.tags c) = some nd' at h
    rw [get?_countFanIn, Option.map_eq_some_iff] at h
    obtain ⟨nd, hnd, rfl⟩ := h
    exact known.klass c nd hnd hclass
  | recorded thisNode records =>
    refine ⟨fun c nd' h hclass => ?_⟩
    change (s.recorded env r thisNode).nodes.get? ((s.recorded env r thisNode).tags c) = some nd' at h
    obtain ⟨nd, rfl, hnd | ⟨_, rfl⟩⟩ := get?_recorded_eq_some records.node h
    · have htag : s.tags c ≠ 0 := by
        intro h0
        rw [tags_recorded] at hnd
        split_ifs at hnd
        · rw [s.nodes.get?_fresh] at hnd
          cases hnd
        · exact s.nodes.ne_zero_of_mem (s.nodes.mem_dom_of_get? hnd) h0
      rw [tags_recorded_of_ne_zero env s r thisNode htag] at hnd
      exact known.klass c nd hnd hclass
    · exact absurd hclass Bool.false_ne_true

/-- Tags given by the report do not change whose records the old ones are. -/
theorem isFromClass_recorded {numberOfLeaks : ℕ} (ok : SearchOk numberOfLeaks s) {klass : Obj} {a : ℕ}
    {nd : MemoryNode Obj} (hnd : s.nodes.get? a = some nd) {ref : MemoryReferer}
    (href : ref ∈ nd.start) :
    IsFromClass env.jvm (s.recorded env r thisNode).tags klass ref ↔
      IsFromClass env.jvm s.tags klass ref := by
  refine exists_congr fun o => and_congr_left fun _ => ?_
  rw [tags_recorded]
  split_ifs with hnew
  · have old : ∀ b, ref.node = some b → b ∈ s.nodes.dom := (ok.node a nd hnd).target ref href
    constructor
    · intro h
      exact absurd (old _ h) (s.nodes.fresh_notMem env.malloc)
    · intro h
      rw [hnew.2] at h
      exact absurd (old 0 h) s.nodes.zero_notMem
  · rfl

/-- The record of a report is from the class of the referrer, and from no other. -/
theorem isFromClass_newReferer {numberOfLeaks : ℕ} (ok : SearchOk numberOfLeaks s)
    (records : Records env s r thisNode) {o : Obj} (ho : r.referrer = some o) (klass : Obj) :
    IsFromClass env.jvm (s.recorded env r thisNode).tags klass (newReferer env s r) ↔
      env.jvm.classOf o = klass := by
  have hnode : (newReferer env s r).node = some ((s.recorded env r thisNode).tags o) :=
    refNodeOf_eq_tags env s thisNode ho
  constructor
  · rintro ⟨o', ho', rfl⟩
    have heq := Option.some.inj (hnode.symm.trans ho')
    have hne : (s.recorded env r thisNode).tags o ≠ 0 := by
      rw [tags_recorded]
      split_ifs with hnew
      · exact s.nodes.fresh_ne_zero env.malloc
      · exact fun h => hnew ⟨ho, h⟩
    exact congrArg _ ((ok.tagged.recorded records.node).inj o o' hne heq)
  · rintro rfl
    exact ⟨o, hnode, rfl⟩

/-- A recorded reference was not recorded before. -/
theorem newReferer_notMem {numberOfLeaks : ℕ} (ok : SearchOk numberOfLeaks s)
    (records : Records env s r thisNode) (referrerTag : ReferrerTagOk s r) {o : Obj}
    (ho : r.referrer = some o) : newReferer env s r ∉ thisNode.start := by
  intro hmem
  by_cases htag : s.tags o = 0
  · have hnode : (newReferer env s r).node = some (s.nodes.fresh env.malloc) := by
      simp [newReferer, refNodeOf, ho, htag]
    have := (ok.node _ _ records.node).target _ hmem _ hnode
    exact s.nodes.fresh_notMem env.malloc this
  · obtain ⟨refNode, hrefNode⟩ := referrerTag o ho htag
    refine records.byReferrer ⟨o, refNode, ho, htag, hrefNode, .inr ?_⟩
    have hnode : (newReferer env s r).node = some (s.tags o) := by
      simp [newReferer, refNodeOf, ho, htag]
    refine List.any_eq_true.2 ⟨newReferer env s r, hmem, ?_⟩
    rw [hnode]
    cases hinfo : r.info <;> simp [newReferer, hinfo]

end

/-! ## Counted reports -/

/-- The report counts the class below the limit, at the node at `a`. -/
def CountedBelow (env : Agent Obj) (s : Search Obj) (r : HeapReference Obj) (a : ℕ) (klass : Obj) :
    Prop :=
  Reported env s r ∧ s.tags r.referee = a ∧ (∃ o, r.referrer = some o ∧ env.jvm.classOf o = klass) ∧
    ∃ thisNode classNode, Passes env s r thisNode ∧ s.nodes.get? (s.tags klass) = some classNode ∧
      (countReference classNode.obj thisNode.fanIn).1 < env.gdata.maxFanIn

namespace Dump

variable (d : Dump Obj)

/-- Some report of a reference from the class to the node at `a` was counted below the limit, but not
recorded. -/
def Wasted (events : List (SearchEvent Obj)) (a : ℕ) (klass : Obj) : Prop :=
  ∃ pre r post s, events = pre ++ .report r :: post ∧ d.start.after d.agent pre = .ok s ∧
    CountedBelow d.agent s r a klass ∧ ∀ thisNode, ¬ Records d.agent s r thisNode

variable {d}

theorem wasted_nil {a : ℕ} {klass : Obj} : ¬ d.Wasted [] a klass := by
  rintro ⟨pre, r, post, s, h, -⟩
  cases pre <;> cases h

/-- The last event wastes a count or an earlier one has. -/
theorem wasted_concat {events : List (SearchEvent Obj)} {s : Search Obj}
    (run : d.start.after d.agent events = .ok s) {e : SearchEvent Obj} {a : ℕ} {klass : Obj} :
    d.Wasted (events ++ [e]) a klass ↔ d.Wasted events a klass ∨
      ∃ r, e = .report r ∧ CountedBelow d.agent s r a klass ∧
        ∀ thisNode, ¬ Records d.agent s r thisNode := by
  constructor
  · rintro ⟨pre, r, post, t, h, before, counted, lost⟩
    rcases List.eq_nil_or_concat post with rfl | ⟨post, e', rfl⟩
    · obtain ⟨rfl, he⟩ := List.append_inj' h rfl
      obtain rfl : e = .report r := by simpa using he
      obtain rfl := Except.ok.inj (run.symm.trans before)
      exact .inr ⟨r, rfl, counted, lost⟩
    · rw [List.concat_eq_append, ← List.cons_append, ← List.append_assoc] at h
      obtain ⟨rfl, -⟩ := List.append_inj' h rfl
      exact .inl ⟨pre, r, post, t, rfl, before, counted, lost⟩
  · rintro (⟨pre, r, post, t, rfl, before, counted, lost⟩ | ⟨r, rfl, counted, lost⟩)
    · exact ⟨pre, r, post ++ [e], t, by simp, before, counted, lost⟩
    · exact ⟨events, r, [], s, rfl, run, counted, lost⟩

/-- Below the limit, and while nothing is wasted, each counter is the number of records. -/
structure FanInExact (d : Dump Obj) (events : List (SearchEvent Obj)) (s : Search Obj) (a : ℕ)
    (nd : MemoryNode Obj) (klass : Obj) : Prop where
  exact : ¬ d.Wasted events a klass → (recordsFromClass d.agent.jvm s.tags klass nd : ℤ) =
    min (fanCount (some klass) nd.fanIn) (d.agent.gdata.maxFanIn - 1)
  fewer : d.Wasted events a klass → (recordsFromClass d.agent.jvm s.tags klass nd : ℤ) <
    min (fanCount (some klass) nd.fanIn) (d.agent.gdata.maxFanIn - 1)

/-- The invariant of the counters, for the classes that have nodes. -/
structure CountersExact (d : Dump Obj) (events : List (SearchEvent Obj)) (s : Search Obj) : Prop where
  ok : SearchOk d.leaks.length s
  classes : ClassesTagged d.agent.jvm d.ignoreFields d.loadedClasses s.toAgentState
  known : ClassNodesKnown d.agent.jvm d.loadedClasses s.toAgentState
  wasted : ∀ a klass, d.Wasted events a klass → a ∈ s.nodes.dom
  node : ∀ a nd, s.nodes.get? a = some nd → ∀ klass ∈ d.loadedClasses,
    klass ≠ d.agent.jvm.classClass → FanInExact d events s a nd klass

variable {events : List (SearchEvent Obj)} {s s' : Search Obj} {r : HeapReference Obj}
  {thisNode : MemoryNode Obj}

/-- The counters stay exact where the records grow as the counts below the limit do. -/
theorem FanInExact.shift {events' : List (SearchEvent Obj)} {a k : ℕ} {nd nd' : MemoryNode Obj}
    {klass : Obj} (ok : FanInExact d events s a nd klass)
    (wasted : d.Wasted events' a klass ↔ d.Wasted events a klass)
    (records : recordsFromClass d.agent.jvm s'.tags klass nd' =
      recordsFromClass d.agent.jvm s.tags klass nd + k)
    (count : min (fanCount (some klass) nd'.fanIn) (d.agent.gdata.maxFanIn - 1) =
      min (fanCount (some klass) nd.fanIn) (d.agent.gdata.maxFanIn - 1) + k) :
    FanInExact d events' s' a nd' klass := by
  refine ⟨fun h => ?_, fun h => ?_⟩
  · have exact := ok.exact fun hw => h (wasted.2 hw)
    rw [records, count]
    omega
  · have fewer := ok.fewer (wasted.1 h)
    rw [records, count]
    omega

/-- The counters stay exact where neither the count nor the records nor the waste has changed. -/
theorem FanInExact.congr {events' : List (SearchEvent Obj)} {a : ℕ} {nd nd' : MemoryNode Obj}
    {klass : Obj} (ok : FanInExact d events s a nd klass)
    (wasted : d.Wasted events' a klass ↔ d.Wasted events a klass)
    (records : recordsFromClass d.agent.jvm s'.tags klass nd' =
      recordsFromClass d.agent.jvm s.tags klass nd)
    (count : fanCount (some klass) nd'.fanIn = fanCount (some klass) nd.fanIn) :
    FanInExact d events' s' a nd' klass := by
  apply ok.shift wasted (records.trans (Nat.add_zero _).symm)
  rw [count]
  omega

/-- The counters of a new node are exact. -/
theorem FanInExact.of_new (limit : 2 ≤ d.agent.gdata.maxFanIn) {a : ℕ} {nd : MemoryNode Obj}
    {klass : Obj} (start : nd.start = []) (fanIn : nd.fanIn = [])
    (fresh : ¬ d.Wasted events a klass) : FanInExact d events s a nd klass := by
  refine ⟨fun _ => ?_, fun h => absurd h fresh⟩
  have none : recordsFromClass d.agent.jvm s.tags klass nd = 0 := by
    simp [recordsFromClass, start]
  have zero : fanCount (some klass) nd.fanIn = 0 := by
    rw [fanIn]
    rfl
  rw [none, zero]
  omega

/-- The number of records never exceeds the count. -/
theorem FanInExact.le {a : ℕ} {nd : MemoryNode Obj} {klass : Obj}
    (ok : FanInExact d events s a nd klass) :
    (recordsFromClass d.agent.jvm s.tags klass nd : ℤ) ≤
      min (fanCount (some klass) nd.fanIn) (d.agent.gdata.maxFanIn - 1) := by
  by_cases h : d.Wasted events a klass
  · exact (ok.fewer h).le
  · exact (ok.exact h).le

/-- The class of the referrer has a node whose object it is. -/
theorem CountersExact.classNode (counters : CountersExact d events s)
    (classTag : ClassTagOk d.agent s r) {o : Obj} (ho : r.referrer = some o)
    (htag : s.tags (d.agent.jvm.classOf o) ≠ 0) :
    d.agent.jvm.classOf o ∈ d.loadedClasses ∧ d.agent.jvm.classOf o ≠ d.agent.jvm.classClass ∧
      ∃ classNode, s.nodes.get? (s.tags (d.agent.jvm.classOf o)) = some classNode ∧
        classNode.obj = some (d.agent.jvm.classOf o) := by
  have htag' : referrerClassTag d.agent.jvm s.tags r = s.tags (d.agent.jvm.classOf o) := by
    simp [referrerClassTag, ho]
  obtain ⟨classNode, hnode, hclass⟩ := classTag (htag'.symm ▸ htag)
  rw [htag'] at hnode
  obtain ⟨hmem, hne, hobj⟩ := counters.known.klass _ _ hnode hclass
  exact ⟨hmem, hne, classNode, hnode, hobj⟩

/-- The fan-in list of the referenced node after the report, class by class. -/
theorem CountersExact.fanCount_after (counters : CountersExact d events s)
    (classTag : ClassTagOk d.agent s r) (nd : MemoryNode Obj) {klass : Obj}
    (hklass : klass ∈ d.loadedClasses) (hne : klass ≠ d.agent.jvm.classClass) :
    fanCount (some klass) (fanInAfter d.agent s r nd) = fanCount (some klass) nd.fanIn +
      if ∃ o, r.referrer = some o ∧ d.agent.jvm.classOf o = klass then 1 else 0 := by
  rcases hr : r.referrer with _ | o
  · have hnone : s.nodes.get? (referrerClassTag d.agent.jvm s.tags r) = none := by
      simp only [referrerClassTag, hr]
      exact s.nodes.get?_of_notMem s.nodes.zero_notMem
    simp [fanInAfter, hnone]
  by_cases htag : s.tags (d.agent.jvm.classOf o) = 0
  · have hother : ¬ d.agent.jvm.classOf o = klass := by
      rintro rfl
      obtain ⟨nd, hnd, -⟩ := counters.classes.node _ hklass hne
      exact s.nodes.ne_zero_of_mem (s.nodes.mem_dom_of_get? hnd) htag
    have hnone : s.nodes.get? (referrerClassTag d.agent.jvm s.tags r) = none := by
      simp only [referrerClassTag, hr, htag]
      exact s.nodes.get?_of_notMem s.nodes.zero_notMem
    simp [fanInAfter, hnone, hother]
  · obtain ⟨-, -, classNode, hnode, hobj⟩ := counters.classNode classTag hr htag
    have hget : s.nodes.get? (referrerClassTag d.agent.jvm s.tags r) = some classNode := by
      simpa [referrerClassTag, hr] using hnode
    simp only [fanInAfter, hget, hobj, fanCount_countReference]
    by_cases hk : d.agent.jvm.classOf o = klass
    · simp [hk]
    · simp [hk, Ne.symm hk]

/-- A counted report reads the count of its class. -/
theorem CountersExact.countedBelow_iff (counters : CountersExact d events s)
    (reported : Reported d.agent s r) (passes : Passes d.agent s r thisNode) {klass : Obj}
    (hklass : klass ∈ d.loadedClasses) (hne : klass ≠ d.agent.jvm.classClass) :
    CountedBelow d.agent s r (s.tags r.referee) klass ↔
      (∃ o, r.referrer = some o ∧ d.agent.jvm.classOf o = klass) ∧
        fanCount (some klass) thisNode.fanIn + 1 < d.agent.gdata.maxFanIn := by
  obtain ⟨classNode, hnode, -, hobj, -⟩ := counters.classes.node klass hklass hne
  constructor
  · rintro ⟨-, -, hreferrer, nd, cn, passes', hcn, hlt⟩
    obtain rfl := Option.some.inj (passes'.node.symm.trans passes.node)
    obtain rfl := Option.some.inj (hcn.symm.trans hnode)
    rw [countReference_fst, hobj] at hlt
    exact ⟨hreferrer, hlt⟩
  · rintro ⟨hreferrer, hlt⟩
    refine ⟨reported, rfl, hreferrer, thisNode, classNode, passes, hnode, ?_⟩
    rw [countReference_fst, hobj]
    exact hlt

/-! ## The counters over a run -/

theorem classNodesKnown_start (d : Dump Obj) :
    ClassNodesKnown d.agent.jvm d.loadedClasses d.start.toAgentState where
  klass c nd h hclass := by
    have tagged := d.classNodes_tagged
    by_cases hc : c ∈ d.loadedClasses
    · have hne : c ≠ d.agent.jvm.classClass := by
        rintro rfl
        exact d.tagged.2.nodes.ne_zero_of_mem (CHeap.mem_dom_of_get? _ h) (tagged.classClass hc)
      have hnode := (tagged.klass c hc hne).2
      obtain rfl := Option.some.inj (h.symm.trans hnode)
      exact ⟨hc, hne, rfl⟩
    · -- an object that is no loaded class has the tag the search for leaks left it
      have htag : d.start.tags c = d.searched.2.tags c := tagged.others c hc
      rw [htag] at h
      have hmem : d.searched.2.tags c ∈ d.searched.2.nodes.dom := by
        apply d.leaks_searched.tagged.mem c
        rw [← htag]
        exact d.tagged.2.nodes.ne_zero_of_mem (htag ▸ CHeap.mem_dom_of_get? _ h)
      have hold : d.searched.2.nodes.get? (d.searched.2.tags c) = some nd :=
        (tagged.old _ hmem).symm.trans h
      obtain ⟨leak, _, o, _, rfl⟩ := d.leaks_searched.node_of_mem hold
      exact absurd hclass Bool.false_ne_true

theorem countersExact_start (limit : 2 ≤ d.agent.gdata.maxFanIn) : CountersExact d [] d.start where
  ok := d.searchOk_start
  classes := d.classesTagged_start
  known := d.classNodesKnown_start
  wasted _ _ h := absurd h wasted_nil
  node a nd h klass _ _ := by
    have empty : nd.start = [] ∧ nd.fanIn = [] := by
      rcases d.node_cases h with ⟨leak, _, o, _, rfl⟩ | ⟨klass, _, _, rfl⟩
      · exact ⟨rfl, rfl⟩
      · exact ⟨rfl, rfl⟩
    exact .of_new limit empty.1 empty.2 wasted_nil

namespace CountersExact

/-- Nothing is wasted elsewhere than at the referenced node. -/
theorem wasted_of_ne (run : d.start.after d.agent events = .ok s) {a : ℕ} {klass : Obj}
    (ha : a ≠ s.tags r.referee) :
    d.Wasted (events ++ [.report r]) a klass ↔ d.Wasted events a klass := by
  rw [wasted_concat run]
  apply or_iff_left
  rintro ⟨r', heq, counted, -⟩
  cases heq
  exact ha counted.2.1.symm

theorem pass (run : d.start.after d.agent events = .ok s) (counters : CountersExact d events s) :
    CountersExact d (events ++ [.pass]) s.resetNodesFound := by
  have same : ∀ a klass, d.Wasted (events ++ [.pass]) a klass ↔ d.Wasted events a klass := by
    intro a klass
    rw [wasted_concat run]
    apply or_iff_left
    rintro ⟨r, heq, -⟩
    cases heq
  exact ⟨counters.ok.resetNodesFound, counters.classes, counters.known,
    fun a klass h => counters.wasted a klass ((same a klass).1 h),
    fun a nd h klass hk hne => (counters.node a nd h klass hk hne).congr (same a klass) rfl rfl⟩

/-- A report that changes nothing wastes nothing. -/
theorem skipped (run : d.start.after d.agent events = .ok s) (counters : CountersExact d events s)
    (idle : Reported d.agent s r → ∀ thisNode, ¬ Passes d.agent s r thisNode) :
    CountersExact d (events ++ [.report r]) s := by
  have same : ∀ a klass, d.Wasted (events ++ [.report r]) a klass ↔ d.Wasted events a klass := by
    intro a klass
    rw [wasted_concat run]
    apply or_iff_left
    rintro ⟨r', heq, ⟨reported, -, -, thisNode, -, passes, -⟩, -⟩
    cases heq
    exact idle reported thisNode passes
  exact ⟨counters.ok, counters.classes, counters.known,
    fun a klass h => counters.wasted a klass ((same a klass).1 h),
    fun a nd h klass hk hne => (counters.node a nd h klass hk hne).congr (same a klass) rfl rfl⟩

/-- The waste of an event lies at a node. -/
theorem wasted_mem (run : d.start.after d.agent events = .ok s) (counters : CountersExact d events s)
    {a : ℕ} {klass : Obj} (h : d.Wasted (events ++ [.report r]) a klass) : a ∈ s.nodes.dom := by
  rcases (wasted_concat run).1 h with h | ⟨r', heq, counted, -⟩
  · exact counters.wasted a klass h
  · cases heq
    obtain ⟨-, rfl, -, thisNode, -, passes, -⟩ := counted
    exact CHeap.mem_dom_of_get? _ passes.node

/-- A report that is only counted wastes its count below the limit. -/
theorem wasted_dropped (run : d.start.after d.agent events = .ok s)
    (passes : Passes d.agent s r thisNode)
    (drops : DropsByClass d.agent s r thisNode ∨ DropsByReferrer s r thisNode) (klass : Obj) :
    d.Wasted (events ++ [.report r]) (s.tags r.referee) klass ↔
      d.Wasted events (s.tags r.referee) klass ∨
        CountedBelow d.agent s r (s.tags r.referee) klass := by
  have lost : ∀ nd, ¬ Records d.agent s r nd := by
    intro nd records
    obtain rfl := Option.some.inj (records.node.symm.trans passes.node)
    exact absurd drops (not_or.2 ⟨records.byClass, records.byReferrer⟩)
  rw [wasted_concat run]
  refine or_congr_right ⟨?_, fun counted => ⟨r, rfl, counted, lost⟩⟩
  rintro ⟨r', heq, counted, -⟩
  cases heq
  exact counted

/-- A recorded report wastes nothing. -/
theorem wasted_recorded (run : d.start.after d.agent events = .ok s)
    (records : Records d.agent s r thisNode) (a : ℕ) (klass : Obj) :
    d.Wasted (events ++ [.report r]) a klass ↔ d.Wasted events a klass := by
  rw [wasted_concat run]
  apply or_iff_left
  rintro ⟨r', heq, -, lost⟩
  cases heq
  exact lost thisNode records

/-- The count of a recorded report stays below the limit. -/
theorem below_of_records (counters : CountersExact d events s)
    (records : Records d.agent s r thisNode) {o : Obj} (ho : r.referrer = some o)
    (hmem : d.agent.jvm.classOf o ∈ d.loadedClasses)
    (hne : d.agent.jvm.classOf o ≠ d.agent.jvm.classClass) :
    fanCount (some (d.agent.jvm.classOf o)) thisNode.fanIn + 1 < d.agent.gdata.maxFanIn := by
  obtain ⟨classNode, hnode, -, hobj, -⟩ := counters.classes.node _ hmem hne
  have htag : referrerClassTag d.agent.jvm s.tags r = s.tags (d.agent.jvm.classOf o) := by
    simp [referrerClassTag, ho]
  by_contra hge
  refine records.byClass ⟨classNode, ?_, htag ▸ hnode, .inl ?_⟩
  · rw [htag]
    exact s.nodes.ne_zero_of_mem (s.nodes.mem_dom_of_get? hnode)
  · rw [countReference_fst, hobj]
    omega

/-- What is counted without being recorded stays below the counter only by what is wasted. -/
theorem dropped (run : d.start.after d.agent events = .ok s) (counters : CountersExact d events s)
    (reported : Reported d.agent s r) (passes : Passes d.agent s r thisNode)
    (classTag : ClassTagOk d.agent s r)
    (drops : DropsByClass d.agent s r thisNode ∨ DropsByReferrer s r thisNode) :
    CountersExact d (events ++ [.report r]) (s.countFanIn d.agent r) where
  ok := counters.ok.countFanIn
  classes := counters.classes.outcome (.dropped thisNode reported passes classTag drops)
  known := counters.known.outcome (.dropped thisNode reported passes classTag drops)
  wasted a klass h := counters.wasted_mem run h
  node a nd' h klass hk hne := by
    rw [get?_countFanIn, Option.map_eq_some_iff] at h
    obtain ⟨nd, hnd, rfl⟩ := h
    have before := counters.node a nd hnd klass hk hne
    by_cases ha : a = s.tags r.referee
    swap
    · exact before.congr (wasted_of_ne run ha) rfl (by simp [ha])
    subst ha
    obtain rfl := Option.some.inj (passes.node.symm.trans hnd)
    have waste := wasted_dropped run passes drops klass
    have counted := counters.countedBelow_iff reported passes hk hne
    have after := counters.fanCount_after classTag thisNode hk hne
    have same : recordsFromClass d.agent.jvm (s.countFanIn d.agent r).tags klass
        { thisNode with fanIn := if s.tags r.referee = s.tags r.referee
            then fanInAfter d.agent s r thisNode else thisNode.fanIn } =
        recordsFromClass d.agent.jvm s.tags klass thisNode := rfl
    by_cases hfrom : ∃ o, r.referrer = some o ∧ d.agent.jvm.classOf o = klass
    swap
    · refine before.congr ?_ same ?_
      · rw [waste, counted]
        exact or_iff_left fun h => hfrom h.1
      · simpa [hfrom] using after
    rw [if_pos hfrom] at after
    have after' : fanCount (some klass) (if s.tags r.referee = s.tags r.referee
        then fanInAfter d.agent s r thisNode else thisNode.fanIn) =
        fanCount (some klass) thisNode.fanIn + 1 := by rw [if_pos rfl, after]
    by_cases hlt : fanCount (some klass) thisNode.fanIn + 1 < d.agent.gdata.maxFanIn
    · have wasted := waste.2 (.inr (counted.2 ⟨hfrom, hlt⟩))
      have le := before.le
      refine ⟨fun h => absurd wasted h, fun _ => ?_⟩
      rw [same, after']
      omega
    · -- beyond the limit the minimum no longer moves
      refine before.shift ?_ (same.trans (Nat.add_zero _).symm) ?_
      · rw [waste, counted]
        exact or_iff_left fun h => hlt h.2
      · rw [after']
        omega

/-- A recorded report counts once and records once. -/
theorem recorded_referee (run : d.start.after d.agent events = .ok s)
    (counters : CountersExact d events s) (records : Records d.agent s r thisNode)
    (classTag : ClassTagOk d.agent s r) (referrerTag : ReferrerTagOk s r) {klass : Obj}
    (hk : klass ∈ d.loadedClasses) (hne : klass ≠ d.agent.jvm.classClass) :
    FanInExact d (events ++ [.report r]) (s.recorded d.agent r thisNode) (s.tags r.referee)
      (recordedNode d.agent s r thisNode (s.tags r.referee) thisNode) klass := by
  have before := counters.node _ thisNode records.node klass hk hne
  have waste := wasted_recorded run records (s.tags r.referee) klass
  have start : (recordedNode d.agent s r thisNode (s.tags r.referee) thisNode).start =
      thisNode.start ++ [newReferer d.agent s r] := by simp [recordedNode]
  have kept : ∀ ref ∈ thisNode.start,
      IsFromClass d.agent.jvm (s.recorded d.agent r thisNode).tags klass ref ↔
        IsFromClass d.agent.jvm s.tags klass ref :=
    fun ref href => isFromClass_recorded counters.ok records.node href
  have after : fanCount (some klass)
      (recordedNode d.agent s r thisNode (s.tags r.referee) thisNode).fanIn =
        fanCount (some klass) thisNode.fanIn +
          if ∃ o, r.referrer = some o ∧ d.agent.jvm.classOf o = klass then 1 else 0 := by
    rw [← counters.fanCount_after classTag thisNode hk hne]
    simp [recordedNode]
  by_cases hfrom : ∃ o, r.referrer = some o ∧ d.agent.jvm.classOf o = klass
  · rw [if_pos hfrom] at after
    obtain ⟨o, ho, rfl⟩ := hfrom
    have below := counters.below_of_records records ho hk hne
    apply before.shift waste
    · rw [recordsFromClass_append start
        (fun _ => newReferer_notMem counters.ok records referrerTag ho) kept,
        if_pos ((isFromClass_newReferer counters.ok records ho _).2 rfl)]
    · rw [after]
      omega
  · rw [if_neg hfrom, add_zero] at after
    refine before.congr waste ?_ after
    have other : ¬ IsFromClass d.agent.jvm (s.recorded d.agent r thisNode).tags klass
        (newReferer d.agent s r) := by
      rintro ⟨o', ho', hklass⟩
      rcases hr : r.referrer with _ | o
      · simp [newReferer, refNodeOf, hr] at ho'
      · exact hfrom ⟨o, hr, (isFromClass_newReferer counters.ok records hr klass).1
          ⟨o', ho', hklass⟩⟩
    rw [recordsFromClass_append start (fun h => absurd h other) kept, if_neg other, add_zero]

theorem recorded (limit : 2 ≤ d.agent.gdata.maxFanIn)
    (run : d.start.after d.agent events = .ok s) (counters : CountersExact d events s)
    (records : Records d.agent s r thisNode) (classTag : ClassTagOk d.agent s r)
    (referrerTag : ReferrerTagOk s r) :
    CountersExact d (events ++ [.report r]) (s.recorded d.agent r thisNode) where
  ok := counters.ok.recorded records.node referrerTag
  classes := counters.classes.outcome (.recorded thisNode records classTag referrerTag)
  known := counters.known.outcome (.recorded thisNode records classTag referrerTag)
  wasted a klass h := by
    rw [dom_recorded]
    exact dom_subset_grownHeap d.agent s r (counters.wasted_mem run h)
  node a nd' h klass hk hne := by
    have waste := wasted_recorded run records a klass
    obtain ⟨nd, rfl, hnd | ⟨⟨o, hnew⟩, rfl⟩⟩ := get?_recorded_eq_some records.node h
    · by_cases ha : a = s.tags r.referee
      · subst ha
        obtain rfl := Option.some.inj (records.node.symm.trans hnd)
        exact counters.recorded_referee run records classTag referrerTag hk hne
      · have before := counters.node a nd hnd klass hk hne
        refine before.congr waste (recordsFromClass_congr ?_ fun ref href => ?_) ?_
        · simp [recordedNode, ha]
        · exact isFromClass_recorded counters.ok hnd href
        · simp [recordedNode, ha]
    · -- the new node of the referrer
      have ha : a ≠ s.tags r.referee := hnew.ne_referee records.node
      apply FanInExact.of_new limit
      · simp [recordedNode, ha, newMemoryNode]
      · simp [recordedNode, ha, newMemoryNode]
      · rw [waste]
        exact fun hw => hnew.notMem (counters.wasted a klass hw)

theorem step (limit : 2 ≤ d.agent.gdata.maxFanIn) (run : d.start.after d.agent events = .ok s)
    (counters : CountersExact d events s) {e : SearchEvent Obj} (step : s.step d.agent e = .ok s') :
    CountersExact d (events ++ [e]) s' := by
  cases e with
  | pass =>
    cases step
    exact counters.pass run
  | report r =>
    cases reportReference_outcome step with
    | skipped idle => exact counters.skipped run idle
    | dropped thisNode reported passes classTag drops =>
      exact counters.dropped run reported passes classTag drops
    | recorded thisNode records classTag referrerTag =>
      exact counters.recorded limit run records classTag referrerTag

end CountersExact

/-- In every state reached the counters are exact up to the reports that were wasted. -/
theorem countersExact_after (limit : 2 ≤ d.agent.gdata.maxFanIn)
    (run : d.start.after d.agent events = .ok s) : CountersExact d events s := by
  induction events using List.reverseRecOn generalizing s with
  | nil =>
    cases run
    exact countersExact_start limit
  | append_singleton events e ih =>
    have run' := run
    rw [Search.after_concat, Run.bind_eq_ok] at run'
    obtain ⟨t, before, step⟩ := run'
    exact (ih before).step limit before step

end Dump

/-- `addReferenceClass` returns at least the limit for the class of the referrer. -/
structure DropsAtLimit (env : Agent Obj) (s : Search Obj) (r : HeapReference Obj) (o : Obj)
    (thisNode : MemoryNode Obj) : Prop extends Reported env s r, Passes env s r thisNode where
  referrer : r.referrer = some o
  limit : ∃ classNode, s.nodes.get? (s.tags (env.jvm.classOf o)) = some classNode ∧
    classNode.classNode = true ∧
      env.gdata.maxFanIn ≤ (countReference classNode.obj thisNode.fanIn).1

/-- The reference is recorded at the node. -/
def IsRecorded (s : Search Obj) (r : HeapReference Obj) (o : Obj)
    (thisNode : MemoryNode Obj) : Prop :=
  hasReferenceBetweenObjects thisNode (s.tags o) r.kind r.info = true

/-- A report dropped at the limit finds all but one of the permitted references recorded if and only
if every earlier report that was counted below the limit, for that class at that node, was recorded. -/
theorem fanIn_counts_references_iff (d : Dump Obj) (atLeastTwo : 2 ≤ d.agent.gdata.maxFanIn)
    {events : List (SearchEvent Obj)} {s : Search Obj} (run : d.start.after d.agent events = .ok s)
    {r : HeapReference Obj} {o : Obj} {thisNode : MemoryNode Obj}
    (drops : DropsAtLimit d.agent s r o thisNode) :
    d.agent.gdata.maxFanIn - 1 ≤
        recordsFromClass d.agent.jvm s.tags (d.agent.jvm.classOf o) thisNode ↔
      ¬ d.Wasted events (s.tags r.referee) (d.agent.jvm.classOf o) := by
  have counters := Dump.countersExact_after atLeastTwo run
  obtain ⟨classNode, hnode, hclass, hlimit⟩ := drops.limit
  obtain ⟨hmem, hne, hobj⟩ := counters.known.klass _ _ hnode hclass
  have exact := counters.node _ _ drops.node _ hmem hne
  rw [countReference_fst, hobj] at hlimit
  constructor
  · intro many wasted
    have := exact.fewer wasted
    omega
  · intro kept
    have := exact.exact kept
    omega

namespace Sample

/-- The holder 8 of two leaks is held by 9 and 10.  The first leak ends between the reports of the
two, so that only the next pass, for the second leak, meets 10. -/
def countedTwice : Dump (Fin 12) :=
  { dump [(3, 1000), (4, 1000)]
      [field 3 8 0, field 8 9 0, jniGlobal 3, field 8 10 0, field 4 8 1] fun _ => [] with
    agent := ⟨jvm, { gdata with maxFanIn := 3 }, 7, .above⟩ }

/-- The first pass and the second one until it meets 10. -/
def countedTwiceEvents : List (SearchEvent (Fin 12)) :=
  .pass :: (countedTwice.order 0).map .report ++
    .pass :: ((countedTwice.order 1).take 3).map .report

/-- The holder 8 is held by three objects of one class. -/
def threeHolders : Dump (Fin 12) :=
  { dump [(3, 1000)] [field 3 8 0, field 8 9 0, field 8 10 0, field 8 11 0] fun _ => [] with
    agent := ⟨jvm, { gdata with maxFanIn := 3 }, 7, .above⟩ }

/-- The first pass until it meets the last of them. -/
def threeHoldersEvents : List (SearchEvent (Fin 12)) :=
  .pass :: ((threeHolders.order 0).take 3).map .report

end Sample

theorem fanIn_counts_references_iff_threeHolders :
    ∃ s thisNode, DropsAtLimit Sample.threeHolders.agent s (Sample.field 8 11 0) 11 thisNode ∧
      (Sample.threeHolders.agent.gdata.maxFanIn - 1 ≤
          recordsFromClass Sample.jvm s.tags 2 thisNode ↔
        ¬ Sample.threeHolders.Wasted Sample.threeHoldersEvents (s.tags 8) 2) := by
  obtain ⟨s, run, hs⟩ := Run.exists_ok_of_any
    (x := Sample.threeHolders.start.after Sample.threeHolders.agent Sample.threeHoldersEvents)
    (p := fun s : Search (Fin 12) => decide (s.tags 8 ≠ 0 ∧ s.tags 2 ≠ 0) &&
      (s.nodes.get? (s.tags 8)).any fun nd : MemoryNode (Fin 12) =>
        !s.leaksFinished.containsAll nd.leaksRelated && !nd.leaksRelated.isEmpty &&
        (s.nodes.get? (s.tags 2)).any fun cn : MemoryNode (Fin 12) => cn.classNode &&
          decide (3 ≤ (countReference cn.obj nd.fanIn).1)) (by decide +kernel)
  simp only [Bool.and_eq_true, Bool.not_eq_true', Option.any_eq_true, decide_eq_true_eq] at hs
  obtain ⟨⟨htag, hclassTag⟩, nd, hnd, ⟨hunfinished, hnonempty⟩, cn, hcn, hclass, hlimit⟩ := hs
  have drops : DropsAtLimit Sample.threeHolders.agent s (Sample.field 8 11 0) 11 nd :=
    ⟨⟨htag, hclassTag⟩, ⟨rfl, hnd, hunfinished, hnonempty⟩, rfl, cn, hcn, hclass, hlimit⟩
  have counted := fanIn_counts_references_iff Sample.threeHolders (by decide) run drops
  have klass : Sample.threeHolders.agent.jvm.classOf 11 = 2 := by decide
  have referee : (Sample.field 8 11 0).referee = 8 := rfl
  rw [klass, referee] at counted
  exact ⟨s, nd, drops, counted⟩

/-- The second pass counts the reference of 9 once more and drops the one of 10, with a single
reference recorded. -/
theorem fanIn_counts_reports :
    ∃ s thisNode,
      Sample.countedTwice.start.after Sample.countedTwice.agent Sample.countedTwiceEvents = .ok s ∧
      DropsAtLimit Sample.countedTwice.agent s (Sample.field 8 10 0) 10 thisNode ∧
      ¬ IsRecorded s (Sample.field 8 10 0) 10 thisNode ∧
      ¬ Sample.countedTwice.agent.gdata.maxFanIn - 1 ≤
        recordsFromClass Sample.jvm s.tags 2 thisNode := by
  obtain ⟨s, run, hs⟩ := Run.exists_ok_of_any
    (x := Sample.countedTwice.start.after Sample.countedTwice.agent Sample.countedTwiceEvents)
    (p := fun s : Search (Fin 12) => decide (s.tags 8 ≠ 0 ∧ s.tags 2 ≠ 0) &&
      (s.nodes.get? (s.tags 8)).any fun nd : MemoryNode (Fin 12) =>
        !s.leaksFinished.containsAll nd.leaksRelated && !nd.leaksRelated.isEmpty &&
        decide (nd.start.length = 1) &&
        !hasReferenceBetweenObjects nd (s.tags 10) .field (Sample.field 8 10 0).info &&
        (s.nodes.get? (s.tags 2)).any fun cn : MemoryNode (Fin 12) => cn.classNode &&
          decide (3 ≤ (countReference cn.obj nd.fanIn).1)) (by decide +kernel)
  simp only [Bool.and_eq_true, Bool.not_eq_true', Option.any_eq_true, decide_eq_true_eq] at hs
  obtain ⟨⟨htag, hclassTag⟩, nd, hnd, ⟨⟨⟨hunfinished, hnonempty⟩, hone⟩, hnew⟩, cn, hcn, hclass,
    hlimit⟩ := hs
  refine ⟨s, nd, run, ⟨⟨htag, hclassTag⟩, ⟨rfl, hnd, hunfinished, hnonempty⟩, rfl, cn, hcn, hclass,
    hlimit⟩, Bool.eq_false_iff.1 hnew, fun many => ?_⟩
  have few := recordsFromClass_le Sample.jvm s.tags 2 nd
  have limit : Sample.countedTwice.agent.gdata.maxFanIn = 3 := rfl
  omega

end JLeaker
