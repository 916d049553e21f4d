import Mathlib.Logic.Relation
import JLeaker.Proof.PrintLeaks
import JLeaker.Proof.SearchInvariant

/-!
# Finished leaks have chains

A leak is finished when a root reference to a node with its label is recorded.  Two things can
separate this from what the search for a chain accepts: a local reference finishes leaks whether or
not local references are considered, and the byte-wise union of two label sets can set a bit beyond
the end of the smaller one.  In runs without either, every label can be traced back to its leak
(`Traced`), so finished leaks have chains.
-/

namespace JLeaker

open DeadEnds

variable {Obj : Type} [DecidableEq Obj]

/-! ## Labels -/

/-- The bit of leak `l` is set at node `a`. -/
def Marked (h : CHeap (MemoryNode Obj)) (l a : ℕ) : Prop :=
  ∃ nd, h.get? a = some nd ∧ nd.leaksRelated.bit l = true

/-- No node has a bit set beyond the end of its set. -/
def AllClean (h : CHeap (MemoryNode Obj)) : Prop :=
  ∀ a nd, h.get? a = some nd → nd.leaksRelated.Clean

/-- A label that the report hands on is not written beyond the end of the referrer's set. -/
def LabelsInside (env : Agent Obj) (s : Search Obj) (r : HeapReference Obj) : Prop :=
  ∀ thisNode, Records env s r thisNode → ∀ o refNode, r.referrer = some o →
    s.nodes.get? (s.tags o) = some refNode → ∀ l, thisNode.leaksRelated.bit l = true →
      s.leaksFinished.bit l = false → l / 8 ≤ refNode.leaksRelated.size / 8 →
      l < refNode.leaksRelated.size

/-- A reference that the report records is one the search for a chain considers. -/
def RecordsConsidered (env : Agent Obj) (s : Search Obj) (r : HeapReference Obj) : Prop :=
  ∀ thisNode, Records env s r thisNode → shouldConsiderThisReference env.gdata r.kind = true

omit [DecidableEq Obj] in
theorem AllClean.carries_iff {h : CHeap (MemoryNode Obj)} (clean : AllClean h) {l a : ℕ} :
    Carries h l a ↔ Marked h l a :=
  exists_congr fun nd => and_congr_right fun hnd => (clean a nd hnd).contains_iff l

/-- The bits of a node after the report. -/
theorem bit_recordedNode (env : Agent Obj) (s : Search Obj) (r : HeapReference Obj)
    (thisNode : MemoryNode Obj) (a : ℕ) (nd : MemoryNode Obj) (l : ℕ) :
    (recordedNode env s r thisNode a nd).leaksRelated.bit l = true ↔
      nd.leaksRelated.bit l = true ∨ refNodeOf env s r = some a ∧
        thisNode.leaksRelated.bit l = true ∧ s.leaksFinished.bit l = false ∧
        l / 8 ≤ nd.leaksRelated.size / 8 := by
  simp only [recordedNode]
  split_ifs with href
  · rw [BitmaskSet.bit_addAllWithExclusion]
    simp [href, and_assoc]
  · simp [href]

theorem size_recordedNode (env : Agent Obj) (s : Search Obj) (r : HeapReference Obj)
    (thisNode : MemoryNode Obj) (a : ℕ) (nd : MemoryNode Obj) :
    (recordedNode env s r thisNode a nd).leaksRelated.size = nd.leaksRelated.size := by
  simp only [recordedNode]
  split_ifs <;> rfl

omit [DecidableEq Obj] in
/-- The labels read for the counters and for the finished set are those of the referenced node. -/
theorem bit_leaksAfter (env : Agent Obj) (s : Search Obj) (r : HeapReference Obj)
    (thisNode : MemoryNode Obj) (l : ℕ) :
    (leaksAfter env s r thisNode).bit l = thisNode.leaksRelated.bit l := by
  unfold leaksAfter
  split_ifs
  · rw [BitmaskSet.bit_addAllWithExclusion]
    cases thisNode.leaksRelated.bit l <;> simp
  · rfl

omit [DecidableEq Obj] in
theorem size_leaksAfter (env : Agent Obj) (s : Search Obj) (r : HeapReference Obj)
    (thisNode : MemoryNode Obj) :
    (leaksAfter env s r thisNode).size = thisNode.leaksRelated.size := by
  unfold leaksAfter
  split_ifs <;> rfl

/-- A leak that is unfinished after a report was so before, and is none of those that a root reference
finishes. -/
theorem SearchOk.unfinished_recorded {numberOfLeaks : ℕ} {env : Agent Obj} {s : Search Obj}
    {r : HeapReference Obj} {thisNode : MemoryNode Obj} {l : ℕ} (ok : SearchOk numberOfLeaks s)
    (hthis : s.nodes.get? (s.tags r.referee) = some thisNode)
    (hfin : (s.recorded env r thisNode).leaksFinished.bit l = false) :
    s.leaksFinished.bit l = false ∧
      (isRootReference r.kind = true → thisNode.leaksRelated.bit l = false) := by
  simp only [Search.recorded] at hfin
  split_ifs at hfin with hroot
  · rw [BitmaskSet.bit_addAll, bit_leaksAfter, Bool.or_eq_false_iff] at hfin
    refine ⟨hfin.1, fun _ => Bool.eq_false_iff.2 fun hbit => ?_⟩
    have hbyte : l / 8 ≤ s.leaksFinished.size / 8 := by
      have hsize : thisNode.leaksRelated.size / 8 ≤ s.leaksFinished.size / 8 := by
        rw [ok.finished]
        exact Nat.div_le_div_right (ok.node _ _ hthis).size
      apply le_trans ?_ hsize
      by_contra hlt
      rw [thisNode.leaksRelated.bit_of_size_div_lt (by omega)] at hbit
      cases hbit
    simp [hbit, hbyte] at hfin
  · exact ⟨hfin, fun h => absurd h hroot⟩

theorem Marked.recorded {env : Agent Obj} {s : Search Obj} {r : HeapReference Obj}
    {thisNode : MemoryNode Obj} (hthis : s.nodes.get? (s.tags r.referee) = some thisNode) {l a : ℕ}
    (marked : Marked s.nodes l a) : Marked (s.recorded env r thisNode).nodes l a := by
  obtain ⟨nd, hnd, hbit⟩ := marked
  exact ⟨_, get?_recorded_of_get? hthis hnd, (bit_recordedNode env s r thisNode a nd l).2 (.inl hbit)⟩

/-- A mark after the report was there before or is handed on by it. -/
theorem marked_recorded_cases {env : Agent Obj} {s : Search Obj} {r : HeapReference Obj}
    {thisNode : MemoryNode Obj} (hthis : s.nodes.get? (s.tags r.referee) = some thisNode) {l a : ℕ}
    (marked : Marked (s.recorded env r thisNode).nodes l a) :
    Marked s.nodes l a ∨ refNodeOf env s r = some a ∧ Marked s.nodes l (s.tags r.referee) ∧
      s.leaksFinished.bit l = false := by
  obtain ⟨nd', hnd', hbit⟩ := marked
  obtain ⟨nd, rfl, hnd⟩ := get?_recorded_eq_some hthis hnd'
  rcases (bit_recordedNode env s r thisNode a nd l).1 hbit with hbit | ⟨href, hbit, hfin, _⟩
  · rcases hnd with hnd | ⟨_, rfl⟩
    · exact .inl ⟨nd, hnd, hbit⟩
    · simp [newMemoryNode, BitmaskSet.bit_new] at hbit
  · exact .inr ⟨href, ⟨thisNode, hthis, hbit⟩, hfin⟩

theorem marked_countFanIn {env : Agent Obj} {s : Search Obj} {r : HeapReference Obj} {l a : ℕ} :
    Marked (s.countFanIn env r).nodes l a ↔ Marked s.nodes l a := by
  unfold Marked
  rw [get?_countFanIn]
  cases s.nodes.get? a <;> simp

omit [DecidableEq Obj] in
theorem Marked.mem_dom {h : CHeap (MemoryNode Obj)} {l a : ℕ} (marked : Marked h l a) :
    a ∈ h.dom := by
  obtain ⟨nd, hnd, _⟩ := marked
  exact h.mem_dom_of_get? hnd

/-! ## Cleanness -/

theorem AllClean.recorded {numberOfLeaks : ℕ} {env : Agent Obj} {s : Search Obj}
    {r : HeapReference Obj} {thisNode : MemoryNode Obj} (ok : SearchOk numberOfLeaks s)
    (records : Records env s r thisNode) (inside : LabelsInside env s r)
    (clean : AllClean s.nodes) : AllClean (s.recorded env r thisNode).nodes := by
  intro a nd' hnd' l hbit
  obtain ⟨nd, rfl, hnd⟩ := get?_recorded_eq_some records.node hnd'
  rw [size_recordedNode]
  rcases (bit_recordedNode env s r thisNode a nd l).1 hbit with hbit | ⟨href, hlabel, hfin, hbyte⟩
  · rcases hnd with hnd | ⟨_, rfl⟩
    · exact clean a nd hnd l hbit
    · simp [newMemoryNode, BitmaskSet.bit_new] at hbit
  · rcases hnd with hnd | ⟨_, rfl⟩
    · obtain ⟨o, ho, hb⟩ := Option.map_eq_some_iff.1 href
      have htag : s.tags o ≠ 0 := by
        intro h0
        rw [if_neg (by simpa using h0)] at hb
        rw [← hb, s.nodes.get?_fresh] at hnd
        cases hnd
      rw [if_pos htag] at hb
      exact inside thisNode records o nd ho (hb ▸ hnd) l hlabel hfin hbyte
    · have hlt := clean _ thisNode records.node l hlabel
      have hle := (ok.node _ thisNode records.node).size
      simp only [newMemoryNode, BitmaskSet.size_new, ok.number]
      omega

theorem AllClean.countFanIn {env : Agent Obj} {s : Search Obj} {r : HeapReference Obj}
    (clean : AllClean s.nodes) : AllClean (s.countFanIn env r).nodes := by
  intro a nd' h
  rw [get?_countFanIn, Option.map_eq_some_iff] at h
  obtain ⟨nd, hnd, rfl⟩ := h
  exact clean a nd hnd

/-! ## Tracing labels back -/

/-- The nodes the search for a chain may step through for leak `l`. -/
def marks (h : CHeap (MemoryNode Obj)) (l : ℕ) : Set ℕ := { a | Marked h l a }

/-- A chain leads from the node of the leak through nodes with its label to a root. -/
def Found (g : GlobalData) (h : CHeap (MemoryNode Obj)) (leak : LeakingNode) : Prop :=
  Leads (LinkedTo g (referencesOf h)) (HoldsRoot g (referencesOf h)) (marks h leak.leakNumber)
    leak.node

/-- Considered references lead from the node of the leak through nodes with its label to `a`. -/
def TracedTo (g : GlobalData) (h : CHeap (MemoryNode Obj)) (leak : LeakingNode) : ℕ → Prop :=
  Relation.ReflTransGen (fun a b => Marked h leak.leakNumber a ∧ LinkedTo g (referencesOf h) a b)
    leak.node

/-- Every label comes from its leak, and every finished leak has a chain. -/
structure Traced (g : GlobalData) (leaks : List LeakingNode) (s : Search Obj) : Prop where
  clean : AllClean s.nodes
  marked : ∀ leak ∈ leaks, ∀ a, Marked s.nodes leak.leakNumber a →
    Found g s.nodes leak ∨ TracedTo g s.nodes leak a
  finished : ∀ leak ∈ leaks, s.leaksFinished.bit leak.leakNumber = true → Found g s.nodes leak

theorem LinkedTo.mono {g : GlobalData} {refs refs' : ℕ → List MemoryReferer}
    (sub : ∀ a, refs a ⊆ refs' a) {a b : ℕ} (linked : LinkedTo g refs a b) :
    LinkedTo g refs' a b := by
  obtain ⟨ref, href, h⟩ := linked
  exact ⟨ref, sub a href, h⟩

theorem HoldsRoot.mono {g : GlobalData} {refs refs' : ℕ → List MemoryReferer}
    (sub : ∀ a, refs a ⊆ refs' a) {a : ℕ} (root : HoldsRoot g refs a) : HoldsRoot g refs' a := by
  obtain ⟨ref, href, h⟩ := root
  exact ⟨ref, sub a href, h⟩

omit [DecidableEq Obj] in
/-- A chain stays one when references and labels are added. -/
theorem Found.mono {g : GlobalData} {h h' : CHeap (MemoryNode Obj)} {leak : LeakingNode}
    (refs : ∀ a, referencesOf h a ⊆ referencesOf h' a)
    (marked : ∀ a, Marked h leak.leakNumber a → Marked h' leak.leakNumber a)
    (found : Found g h leak) : Found g h' leak :=
  Leads.imp (fun _ _ he => he.mono refs) (fun _ hg => hg.mono refs) (fun a ha => marked a ha) found

omit [DecidableEq Obj] in
theorem TracedTo.mono {g : GlobalData} {h h' : CHeap (MemoryNode Obj)} {leak : LeakingNode}
    (refs : ∀ a, referencesOf h a ⊆ referencesOf h' a)
    (marked : ∀ a, Marked h leak.leakNumber a → Marked h' leak.leakNumber a) {a : ℕ}
    (traced : TracedTo g h leak a) : TracedTo g h' leak a :=
  Relation.ReflTransGen.mono (fun _ _ hab => ⟨marked _ hab.1, hab.2.mono refs⟩) _ _ traced

omit [DecidableEq Obj] in
/-- A traced node that leads to a root gives the leak a chain. -/
theorem TracedTo.found {g : GlobalData} {h : CHeap (MemoryNode Obj)} {leak : LeakingNode} {a : ℕ}
    (traced : TracedTo g h leak a)
    (leads : Leads (LinkedTo g (referencesOf h)) (HoldsRoot g (referencesOf h))
      (marks h leak.leakNumber) a) : Found g h leak := by
  unfold Found
  induction traced with
  | refl => exact leads
  | tail _ hstep ih => exact ih (.step hstep.1 hstep.2 leads)

namespace Traced

variable {g : GlobalData} {leaks : List LeakingNode} {env : Agent Obj} {s s' : Search Obj}
  {r : HeapReference Obj} {thisNode : MemoryNode Obj}

omit [DecidableEq Obj] in
theorem resetNodesFound (traced : Traced g leaks s) : Traced g leaks s.resetNodesFound :=
  ⟨traced.clean, traced.marked, traced.finished⟩

theorem countFanIn (traced : Traced g leaks s) : Traced g leaks (s.countFanIn env r) := by
  have refs : ∀ a, referencesOf s.nodes a ⊆ referencesOf (s.countFanIn env r).nodes a := fun a => by
    rw [referencesOf_countFanIn]
    exact List.Subset.refl _
  have marked : ∀ l a, Marked s.nodes l a → Marked (s.countFanIn env r).nodes l a :=
    fun l a => marked_countFanIn.2
  refine ⟨traced.clean.countFanIn, fun leak hleak a ha => ?_, fun leak hleak h => ?_⟩
  · rcases traced.marked leak hleak a (marked_countFanIn.1 ha) with h | h
    · exact .inl (h.mono refs (marked _))
    · exact .inr (h.mono refs (marked _))
  · exact (traced.finished leak hleak h).mono refs (marked _)

/-- The step of the invariant: a recorded reference carries the trace of the referenced node on, and
ends it where the reference is a root. -/
theorem recorded {numberOfLeaks : ℕ} (traced : Traced env.gdata leaks s)
    (ok : SearchOk numberOfLeaks s) (records : Records env s r thisNode)
    (inside : LabelsInside env s r)
    (considered : shouldConsiderThisReference env.gdata r.kind = true) :
    Traced env.gdata leaks (s.recorded env r thisNode) := by
  have refs := referencesOf_subset_recorded env records.node
  have marked : ∀ l a, Marked s.nodes l a → Marked (s.recorded env r thisNode).nodes l a :=
    fun l a => Marked.recorded records.node
  have hnew := newReferer_mem_recorded env records.node
  have hroot : ∀ leak ∈ leaks, isRootReference r.kind = true →
      Marked s.nodes leak.leakNumber (s.tags r.referee) →
      Found env.gdata (s.recorded env r thisNode).nodes leak := by
    intro leak hleak hkind hthis
    rcases traced.marked leak hleak _ hthis with h | h
    · exact h.mono refs (marked _)
    · exact (h.mono refs (marked _)).found
        (.here (marked _ _ hthis) ⟨newReferer env s r, hnew, considered, hkind⟩)
  refine ⟨traced.clean.recorded ok records inside, fun leak hleak a ha => ?_,
    fun leak hleak h => ?_⟩
  · rcases marked_recorded_cases records.node ha with ha | ⟨href, hthis, _⟩
    · rcases traced.marked leak hleak a ha with h | h
      · exact .inl (h.mono refs (marked _))
      · exact .inr (h.mono refs (marked _))
    · by_cases hkind : isRootReference r.kind = true
      · exact .inl (hroot leak hleak hkind hthis)
      · rcases traced.marked leak hleak _ hthis with h | h
        · exact .inl (h.mono refs (marked _))
        · exact .inr ((h.mono refs (marked _)).tail ⟨marked _ _ hthis, newReferer env s r, hnew,
            considered, (Bool.not_eq_true _).mp hkind, href⟩)
  · by_cases hbit : s.leaksFinished.bit leak.leakNumber = true
    · exact (traced.finished leak hleak hbit).mono refs (marked _)
    · -- finished by this report, so the reference is a root and the referenced node has the label
      have hkind : isRootReference r.kind = true := by
        by_contra hkind
        simp only [Search.recorded, hkind] at h
        exact hbit h
      refine hroot leak hleak hkind ⟨thisNode, records.node, ?_⟩
      simp only [Search.recorded, hkind, if_true, BitmaskSet.bit_addAll, hbit, Bool.false_or,
        Bool.and_eq_true, bit_leaksAfter] at h
      exact h.1

theorem outcome {numberOfLeaks : ℕ} (traced : Traced env.gdata leaks s)
    (ok : SearchOk numberOfLeaks s) (inside : LabelsInside env s r)
    (considered : RecordsConsidered env s r) (out : Outcome env s r s') :
    Traced env.gdata leaks s' := by
  cases out with
  | skipped => exact traced
  | dropped => exact traced.countFanIn
  | recorded thisNode records =>
    exact traced.recorded ok records inside (considered thisNode records)

end Traced

/-! ## The start of a dump -/

omit [DecidableEq Obj] in
theorem bit_leakNode (leak : LeakingNode) (o : Obj) (l : ℕ) :
    (leakNode leak o).leaksRelated.bit l = true ↔ l = leak.leakNumber := by
  simp only [leakNode, BitmaskSet.bit_add, BitmaskSet.bit_new, BitmaskSet.size_new]
  simp

omit [DecidableEq Obj] in
theorem bit_classNode (n : ℕ) (ignoreFields : Obj → List IgnoreField) (klass : Obj) (l : ℕ) :
    (classNode n ignoreFields klass).leaksRelated.bit l = false :=
  BitmaskSet.bit_new n l

namespace Dump

variable (d : Dump Obj)

/-- Before the passes only the node of a leak has its label. -/
theorem marked_start {l a : ℕ} (marked : Marked d.start.nodes l a) :
    ∃ leak ∈ d.leaks, leak.node = a ∧ leak.leakNumber = l := by
  obtain ⟨nd, hnd, hbit⟩ := marked
  rcases d.node_cases hnd with ⟨leak, hleak, o, ha, rfl⟩ | ⟨klass, _, _, rfl⟩
  · exact ⟨leak, hleak, ha, ((bit_leakNode leak o l).1 hbit).symm⟩
  · rw [bit_classNode] at hbit
    cases hbit

theorem marked_leak {leak : LeakingNode} (hleak : leak ∈ d.leaks) :
    Marked d.start.nodes leak.leakNumber leak.node := by
  obtain ⟨o, hnd⟩ := d.get?_leak hleak
  exact ⟨_, hnd, (bit_leakNode leak o _).2 rfl⟩

theorem allClean_start : AllClean d.start.nodes := by
  intro a nd hnd l hbit
  rcases d.node_cases hnd with ⟨leak, _, o, _, rfl⟩ | ⟨klass, _, _, rfl⟩
  · obtain rfl := (bit_leakNode leak o l).1 hbit
    simp [leakNode]
  · rw [bit_classNode] at hbit
    cases hbit

theorem traced_start : Traced d.agent.gdata d.leaks d.start where
  clean := d.allClean_start
  marked leak hleak a ha := by
    obtain ⟨leak', hleak', rfl, hnum⟩ := d.marked_start ha
    obtain rfl := d.leak_ext hleak' hleak hnum
    exact .inr .refl
  finished leak _ h := by
    simp only [start, Search.start, BitmaskSet.bit_new] at h
    cases h

/-- In every run without the two slips the labels can be traced back when the search ends. -/
theorem traced_run {s : Search Obj}
    (meets : d.Meets fun s r => RecordsConsidered d.agent s r ∧ LabelsInside d.agent s r)
    (run : d.run = .ok s) : SearchOk d.leaks.length s ∧ Traced d.agent.gdata d.leaks s :=
  run_invariant (I := fun s => SearchOk d.leaks.length s ∧ Traced d.agent.gdata d.leaks s)
    (fun _ h => ⟨h.1.resetNodesFound, h.2.resetNodesFound⟩)
    (fun _ _ _ h cond hreport =>
      have out := reportReference_outcome hreport
      ⟨h.1.outcome out, h.2.outcome h.1 cond.2 cond.1 out⟩)
    meets ⟨d.searchOk_start, d.traced_start⟩ run

end Dump

/-! ## The chains of a dump -/

/-- What `GetObjectsWithTags` answers: every object at most once, and only objects with the tag.
Objects that died are missing. -/
structure TagLookup (objectsWithTag : ℕ → List Obj) (tags : Obj → ℕ) : Prop where
  nodup : ∀ a, (objectsWithTag a).Nodup
  sound : ∀ a o, a ≠ 0 → o ∈ objectsWithTag a → tags o = a

/-- What `GetObjectsWithTags` answers while every tagged object is alive. -/
structure AllAlive (objectsWithTag : ℕ → List Obj) (tags : Obj → ℕ) : Prop
    extends TagLookup objectsWithTag tags where
  complete : ∀ a o, a ≠ 0 → tags o = a → o ∈ objectsWithTag a

theorem length_le_one_of_nodup {α : Type} {l : List α} (nodup : l.Nodup)
    (same : ∀ x ∈ l, ∀ y ∈ l, x = y) : l.length ≤ 1 := by
  rcases l with _ | ⟨x, _ | ⟨y, rest⟩⟩
  · simp
  · simp
  · obtain rfl := same x (by simp) y (by simp)
    simp at nodup

namespace SearchOk

variable {numberOfLeaks : ℕ} {s : Search Obj} {objectsWithTag : ℕ → List Obj}

omit [DecidableEq Obj] in
theorem allClear (ok : SearchOk numberOfLeaks s) : AllClear s.nodes :=
  fun a nd h => (ok.node a nd h).visited

omit [DecidableEq Obj] in
theorem targetsIn (ok : SearchOk numberOfLeaks s) : TargetsIn s.nodes := by
  intro a ref href b hb
  unfold referencesOf at href
  split at href
  · rename_i nd hnd
    exact (ok.node a nd hnd).target ref href b hb
  · cases href

omit [DecidableEq Obj] in
theorem graphOk_of_unique (ok : SearchOk numberOfLeaks s)
    (unique : ∀ a nd, s.nodes.get? a = some nd → nd.obj = none → (objectsWithTag a).length ≤ 1) :
    GraphOk objectsWithTag s.nodes where
  target a ref href hkind := by
    rcases hnode : ref.node with _ | b
    · unfold referencesOf at href
      split at href
      · rename_i nd hnd
        rw [(ok.node a nd hnd).root ref href hnode] at hkind
        cases hkind
      · cases href
    · exact ⟨b, ok.targetsIn a ref href b hnode, rfl⟩
  unique := unique

omit [DecidableEq Obj] in
theorem graphOk (ok : SearchOk numberOfLeaks s) (lookup : TagLookup objectsWithTag s.tags) :
    GraphOk objectsWithTag s.nodes := by
  refine ok.graphOk_of_unique fun a nd hnd _ => ?_
  have h0 := s.nodes.ne_zero_of_mem (s.nodes.mem_dom_of_get? hnd)
  refine length_le_one_of_nodup (lookup.nodup a) fun o ho o' ho' => ?_
  have htag := lookup.sound a o h0 ho
  exact ok.tagged.inj o o' (htag ▸ h0) (htag.trans (lookup.sound a o' h0 ho').symm)

omit [DecidableEq Obj] in
/-- While every tagged object is alive, the search for a chain can step through every node. -/
theorem carriers_eq (ok : SearchOk numberOfLeaks s) (clean : AllClean s.nodes)
    (alive : AllAlive objectsWithTag s.tags) (l : ℕ) :
    carriers objectsWithTag l s.nodes = marks s.nodes l := by
  ext a
  refine ⟨fun ha => clean.carries_iff.1 ha.1, fun ha => ⟨clean.carries_iff.2 ha, ?_⟩⟩
  obtain ⟨nd, hnd, _⟩ := ha
  have hdead := (ok.node a nd hnd).dead
  refine ⟨nd, hnd, ?_⟩
  rcases hobj : nd.obj with _ | o
  · obtain ⟨o, ho⟩ := ok.tagged.anonymous a nd hnd hobj
    have hmem : o ∈ objectsWithTag a :=
      alive.complete a o (s.nodes.ne_zero_of_mem (s.nodes.mem_dom_of_get? hnd)) ho
    have hne : objectsWithTag a ≠ [] := List.ne_nil_of_mem hmem
    simp [MemoryNode.live, hdead, hne]
  · simp [MemoryNode.live, hdead, hobj]

end SearchOk

/-- The nodes of the leaks stay in the graph. -/
theorem Dump.leak_mem_run (d : Dump Obj) {s : Search Obj} (run : d.run = .ok s)
    {leak : LeakingNode} (hleak : leak ∈ d.leaks) : leak.node ∈ s.nodes.dom := by
  refine run_invariant (I := fun s => leak.node ∈ s.nodes.dom) (fun _ h => h)
    (fun s r s' h _ hreport => ?_) d.meets_true ?_ run
  · cases reportReference_outcome hreport with
    | skipped => exact h
    | dropped => exact h
    | recorded thisNode records =>
      rw [dom_recorded]
      exact dom_subset_grownHeap _ _ _ h
  · obtain ⟨o, hnd⟩ := d.get?_leak hleak
    exact CHeap.mem_dom_of_get? _ hnd

/-- Printing finds the chains there are. -/
theorem Dump.chains_answers (d : Dump Obj) {s : Search Obj} (run : d.run = .ok s)
    (passes : d.agent.gdata.referenceChainLength > 0) {objectsWithTag : ℕ → List Obj}
    (lookup : TagLookup objectsWithTag s.tags) {fuel : ℕ} (enough : s.nodes.dom.card < fuel) :
    ∃ chains st, d.chains objectsWithTag fuel s = .ok (chains, st) ∧
      List.Forall₂ (Answers d.agent.gdata objectsWithTag s.nodes) d.leaks chains := by
  have ok := d.searchOk_run run
  unfold Dump.chains
  rw [decide_eq_true passes]
  have numbers : (d.leaks.map (·.leakNumber)).Nodup := by
    rw [d.leaks_searched.numbers]
    exact List.nodup_range
  obtain ⟨chains, st, hrun, _, hall⟩ := printReferencesChainForLeakingNodes_answers d.agent d.leaks
    ⟨s.nodes, []⟩ ok.allClear (ok.graphOk lookup) ok.targetsIn
    (fun leak hleak => d.leak_mem_run run hleak) numbers fuel enough
  exact ⟨chains, st, hrun, hall⟩

/-- While no pass has run, no leak is finished. -/
theorem Dump.passes_of_finished (d : Dump Obj) {s : Search Obj} (run : d.run = .ok s) {l : ℕ}
    (finished : s.leaksFinished.contains l = true) : d.agent.gdata.referenceChainLength > 0 := by
  by_contra hlength
  have hzero : d.agent.gdata.referenceChainLength.toNat = 0 := by omega
  unfold Dump.run tagReferencesChain at run
  rw [hzero] at run
  cases run
  rw [BitmaskSet.contains_iff] at finished
  simp [Search.start, BitmaskSet.bit_new] at finished

/-- The search for a chain for a leak that has one finds it, alone and when the leaks are printed. -/
theorem Dump.chain_of_found (d : Dump Obj) {s : Search Obj} (run : d.run = .ok s)
    (clean : AllClean s.nodes) {objectsWithTag : ℕ → List Obj}
    (alive : AllAlive objectsWithTag s.tags) {fuel : ℕ} (enough : s.nodes.dom.card < fuel)
    (passes : d.agent.gdata.referenceChainLength > 0) {leak : LeakingNode} (hleak : leak ∈ d.leaks)
    (found : Found d.agent.gdata s.nodes leak) :
    (∃ last st, generateReferencesChainForNode d.agent objectsWithTag fuel leak.node
      leak.leakNumber ⟨s.nodes, []⟩ = .ok (some last, st)) ∧
    ∃ chains st, d.chains objectsWithTag fuel s = .ok (chains, st) ∧
      ∀ chain, (leak, chain) ∈ d.leaks.zip chains → chain.isSome := by
  have ok := d.searchOk_run run
  have leads : Leads (LinkedTo d.agent.gdata (referencesOf s.nodes))
      (HoldsRoot d.agent.gdata (referencesOf s.nodes))
      (carriers objectsWithTag leak.leakNumber s.nodes) leak.node := by
    rw [ok.carriers_eq clean alive]
    exact found
  refine ⟨?_, ?_⟩
  · obtain ⟨res, st, hrun, _, hres⟩ := generateReferencesChainForNode_search d.agent objectsWithTag
      leak.leakNumber leak.node ⟨s.nodes, []⟩ ok.allClear (ok.graphOk alive.toTagLookup)
      (d.leak_mem_run run hleak) fuel enough
    cases res with
    | none => exact absurd leads hres
    | some last => exact ⟨last, st, hrun⟩
  · obtain ⟨chains, st, hrun, hall⟩ := d.chains_answers run passes alive.toTagLookup enough
    exact ⟨chains, st, hrun, fun chain hmem =>
      (List.forall₂_zip hall hmem).isSome_iff.2 leads⟩

/-- In every run that records no unconsidered reference and writes no label beyond the end of a set,
a finished leak has a chain: the search for one finds it, alone and when the leaks are printed. -/
theorem chain_of_leaksFinished (d : Dump Obj) {s : Search Obj}
    (meets : d.Meets fun s r => RecordsConsidered d.agent s r ∧ LabelsInside d.agent s r)
    (run : d.run = .ok s) {objectsWithTag : ℕ → List Obj} (alive : AllAlive objectsWithTag s.tags)
    {fuel : ℕ} (enough : s.nodes.dom.card < fuel) {leak : LeakingNode} (hleak : leak ∈ d.leaks)
    (finished : s.leaksFinished.contains leak.leakNumber = true) :
    (∃ last st, generateReferencesChainForNode d.agent objectsWithTag fuel leak.node
      leak.leakNumber ⟨s.nodes, []⟩ = .ok (some last, st)) ∧
    ∃ chains st, d.chains objectsWithTag fuel s = .ok (chains, st) ∧
      ∀ chain, (leak, chain) ∈ d.leaks.zip chains → chain.isSome := by
  have traced := (d.traced_run meets run).2
  exact d.chain_of_found run traced.clean alive enough (d.passes_of_finished run finished) hleak
    (traced.finished leak hleak ((BitmaskSet.contains_iff _ _).1 finished).2)

theorem Sample.allAlive (tags : Fin 12 → ℕ) : AllAlive (objectsWithTag tags) tags where
  nodup a := (List.nodup_finRange 12).filter _
  sound a o _ h := by simpa [objectsWithTag] using h
  complete a o _ h := by simpa [objectsWithTag] using h

/-- The objects 3 and 4 are in two holders, 8 and 9, one of which holds the other and is held by an
object that a static field holds.  The references that come first are recorded last. -/
def Sample.sharing : List (HeapReference (Fin 12)) :=
  [staticField 10 2 0, field 9 10 0, field 3 8 0, field 8 9 0, field 4 9 1, field 4 8 2]

def Sample.sharedHolder : Dump (Fin 12) := dump [(3, 1000), (4, 1000)] sharing fun _ => []

theorem Sample.sharedHolder_leaks : sharedHolder.leaks = [⟨1, 1000, 0⟩, ⟨2, 1000, 1⟩] := by
  decide +kernel

/-- The first leak has a chain of that length. -/
def Sample.startsWithChain (length : ℕ) (chains : List (Option (List MemoryReferer))) : Bool :=
  (chains.head?.bind id).any fun path => path.length = length

theorem Sample.of_startsWithChain {length : ℕ} {chains : List (Option (List MemoryReferer))}
    (h : startsWithChain length chains = true) :
    ∃ path rest, chains = some path :: rest ∧ path.length = length ∧
      (⟨1, 1000, 0⟩, some path) ∈ sharedHolder.leaks.zip chains := by
  obtain ⟨path, first, hlength⟩ := (Option.any_eq_true _ _).1 h
  obtain ⟨_, hhead, rfl⟩ := Option.bind_eq_some_iff.1 first
  obtain ⟨rest, rfl⟩ := List.head?_eq_some_iff.1 hhead
  refine ⟨path, rest, rfl, of_decide_eq_true hlength, ?_⟩
  rw [sharedHolder_leaks]
  exact List.mem_cons_self

/-- The test holds of both nodes of the reference and of every label of the referenced node. -/
def Sample.testLabels (s : Search (Fin 12)) (r : HeapReference (Fin 12))
    (test : MemoryNode (Fin 12) → MemoryNode (Fin 12) → ℕ → Bool) : Bool :=
  (s.nodes.get? (s.tags r.referee)).all fun thisNode =>
    (r.referrer.bind fun o => s.nodes.get? (s.tags o)).all fun refNode =>
      (List.range (8 * thisNode.leaksRelated.ptr.length)).all fun l =>
        !thisNode.leaksRelated.bit l || test thisNode refNode l

theorem Sample.of_testLabels {s : Search (Fin 12)} {r : HeapReference (Fin 12)}
    {test : MemoryNode (Fin 12) → MemoryNode (Fin 12) → ℕ → Bool} (h : testLabels s r test = true)
    {thisNode refNode : MemoryNode (Fin 12)} {o : Fin 12} {l : ℕ}
    (node : s.nodes.get? (s.tags r.referee) = some thisNode) (ho : r.referrer = some o)
    (hnd : s.nodes.get? (s.tags o) = some refNode) (hbit : thisNode.leaksRelated.bit l = true) :
    test thisNode refNode l = true := by
  unfold testLabels at h
  rw [node, ho, Option.bind_some, hnd, Option.all_some, Option.all_some, List.all_eq_true] at h
  have := h l (List.mem_range.2 (thisNode.leaksRelated.lt_of_bit hbit))
  simpa [hbit] using this

theorem chain_of_leaksFinished_sharedHolder :
    ∃ s, Sample.sharedHolder.run = .ok s ∧ s.leaksFinished.contains 1 = true ∧
      ∃ last st, generateReferencesChainForNode Sample.sharedHolder.agent
        (Sample.objectsWithTag s.tags) (s.nodes.dom.card + 1) 2 1 ⟨s.nodes, []⟩ =
          .ok (some last, st) := by
  obtain ⟨s, run, finished⟩ := Run.exists_ok_of_any (x := Sample.sharedHolder.run)
    (p := fun s => s.leaksFinished.contains 1) (by decide +kernel)
  have hleak : (⟨2, 1000, 1⟩ : LeakingNode) ∈ Sample.sharedHolder.leaks := by
    rw [Sample.sharedHolder_leaks]
    decide
  have meets : Sample.sharedHolder.Meets fun s r =>
      shouldConsiderThisReference Sample.gdata r.kind = true ∧
        Sample.testLabels s r (fun _ refNode l => decide (l < refNode.leaksRelated.size)) = true := by
    decide +kernel
  refine ⟨s, run, finished, (chain_of_leaksFinished Sample.sharedHolder
    (meets.mono fun s r h => ⟨fun _ _ => h.1, ?_⟩) run (Sample.allAlive s.tags) (Nat.lt_succ_self _)
      hleak finished).1⟩
  intro thisNode records o refNode ho hnd l hbit _ _
  exact of_decide_eq_true (Sample.of_testLabels h.2 records.node ho hnd hbit)

/-- A leak held by a local variable of another thread. -/
def Sample.heldByLocal : Dump (Fin 12) := dump [(3, 1000)] [stackLocal 3 8] fun _ => []

/-- A leak held by a leak with a smaller number, which a static field holds. -/
def Sample.heldByLeak : Dump (Fin 12) :=
  dump [(3, 1000), (4, 1000)] [field 4 3 0, staticField 3 2 0] fun _ => []

/-- While every object is alive, the search for a chain returns null for a finished leak. -/
def Sample.LosesFinished (d : Dump (Fin 12)) : Prop :=
  ∃ s leak st, d.run = .ok s ∧ leak ∈ d.leaks ∧
    s.leaksFinished.contains leak.leakNumber = true ∧
    AllAlive (objectsWithTag s.tags) s.tags ∧
    generateReferencesChainForNode d.agent (objectsWithTag s.tags) (s.nodes.dom.card + 1) leak.node
      leak.leakNumber ⟨s.nodes, []⟩ = .ok (none, st)

theorem Sample.losesFinished {d : Dump (Fin 12)} {leak : LeakingNode} (hleak : leak ∈ d.leaks)
    (h : d.run.toOption.any (fun s => s.leaksFinished.contains leak.leakNumber &&
      (generateReferencesChainForNode d.agent (objectsWithTag s.tags) (s.nodes.dom.card + 1)
        leak.node leak.leakNumber ⟨s.nodes, []⟩).toOption.any fun res => res.1.isNone) = true) :
    LosesFinished d := by
  obtain ⟨s, run, hs⟩ := Run.exists_ok_of_any h
  obtain ⟨finished, lost⟩ := Bool.and_eq_true_iff.1 hs
  obtain ⟨⟨res, st⟩, hres, hnone⟩ := Run.exists_ok_of_any lost
  obtain rfl : res = none := by simpa using hnone
  exact ⟨s, leak, st, run, hleak, finished, allAlive s.tags, hres⟩

/-- A finished leak without a chain: one finished by a local reference that is not considered, and
one whose label lies beyond the end of a set. -/
theorem finished_without_chain :
    Sample.LosesFinished Sample.heldByLocal ∧ Sample.LosesFinished Sample.heldByLeak := by
  have hlocal : (⟨1, 1000, 0⟩ : LeakingNode) ∈ Sample.heldByLocal.leaks := by decide +kernel
  have hleak : (⟨2, 1000, 1⟩ : LeakingNode) ∈ Sample.heldByLeak.leaks := by decide +kernel
  exact ⟨Sample.losesFinished hlocal (by decide +kernel),
    Sample.losesFinished hleak (by decide +kernel)⟩

end JLeaker
