import JLeaker.Proof.RecordedGraph
import JLeaker.Proof.Setup

/-!
# Invariants of the passes

What every report and the start of every pass preserve holds when `tagReferencesChain` returns
(`heapIterations_invariant`).  `SearchOk` is the first such invariant: the tags are well, the sets
have their sizes, and every record points to a node.
-/

namespace JLeaker

variable {Obj : Type} [DecidableEq Obj]

/-! ## Runs of the passes -/

/-- Every report of the passes from number `i` on starts in a state that satisfies `P`. -/
def IterationsMeet (env : Agent Obj) (order : ℕ → List (HeapReference Obj))
    (P : Search Obj → HeapReference Obj → Prop) : ℕ → ℕ → Search Obj → Prop
  | 0, _, _ => True
  | n + 1, i, s =>
    Run.Meets (reportReference env) P s.resetNodesFound (order i) ∧
      ∀ s', (order i).foldlM (reportReference env) s.resetNodesFound = .ok s' →
        s'.hasUnfinished = true → IterationsMeet env order P n (i + 1) s'

/-- What is said of the reports can be checked by taking the passes. -/
instance IterationsMeet.decidable {env : Agent Obj} {order : ℕ → List (HeapReference Obj)}
    {P : Search Obj → HeapReference Obj → Prop} [∀ s r, Decidable (P s r)] :
    ∀ n i s, Decidable (IterationsMeet env order P n i s)
  | 0, _, _ => isTrue trivial
  | n + 1, i, _ =>
    have : ∀ s', Decidable (IterationsMeet env order P n (i + 1) s') := fun s' =>
      IterationsMeet.decidable n (i + 1) s'
    instDecidableAnd

/-- Every report of the dump starts in a state that satisfies `P`. -/
def Dump.Meets (d : Dump Obj) (P : Search Obj → HeapReference Obj → Prop) : Prop :=
  IterationsMeet d.agent d.order P d.agent.gdata.referenceChainLength.toNat 0 d.start

instance (d : Dump Obj) {P : Search Obj → HeapReference Obj → Prop} [∀ s r, Decidable (P s r)] :
    Decidable (d.Meets P) := IterationsMeet.decidable _ _ _

/-- A pass and the passes after it. -/
theorem heapIterations_succ_eq_ok {env : Agent Obj} {order : ℕ → List (HeapReference Obj)}
    {n i : ℕ} {s s' : Search Obj} :
    heapIterations env order (n + 1) i s = .ok s' ↔
      ∃ t, (order i).foldlM (reportReference env) s.resetNodesFound = .ok t ∧
        if t.hasUnfinished then heapIterations env order n (i + 1) t = .ok s' else t = s' := by
  rw [heapIterations, Run.bind_eq_ok]
  refine exists_congr fun t => and_congr_right fun _ => ?_
  cases t.hasUnfinished
  · exact ⟨fun h => Except.ok.inj h, fun h => congrArg Except.ok h⟩
  · exact Iff.rfl

/-- What the start of a pass and every admitted report preserve, the passes preserve. -/
theorem heapIterations_invariant {env : Agent Obj} {order : ℕ → List (HeapReference Obj)}
    {P : Search Obj → HeapReference Obj → Prop} {I : Search Obj → Prop}
    (reset : ∀ s, I s → I s.resetNodesFound)
    (report : ∀ s r s', I s → P s r → reportReference env s r = .ok s' → I s') {n i : ℕ}
    {s s' : Search Obj} (meets : IterationsMeet env order P n i s) (init : I s)
    (run : heapIterations env order n i s = .ok s') : I s' := by
  induction n generalizing i s with
  | zero =>
    cases run
    exact init
  | succ n ih =>
    obtain ⟨t, hpass, hrest⟩ := heapIterations_succ_eq_ok.1 run
    have kept : I t := Run.foldlM_invariant report meets.1 (reset s init) hpass
    split_ifs at hrest with hunfinished
    · exact ih (meets.2 t hpass hunfinished) kept hrest
    · exact hrest ▸ kept

/-- The first report of a pass. -/
theorem IterationsMeet.first {env : Agent Obj} {order : ℕ → List (HeapReference Obj)}
    {P : Search Obj → HeapReference Obj → Prop} {n i : ℕ} {s : Search Obj} {r : HeapReference Obj}
    {rest : List (HeapReference Obj)} (meets : IterationsMeet env order P n i s) (passes : 0 < n)
    (reports : order i = r :: rest) : P s.resetNodesFound r := by
  cases n with
  | zero => cases passes
  | succ n =>
    have pass := meets.1
    rw [reports] at pass
    exact pass.1

theorem IterationsMeet.mono {env : Agent Obj} {order : ℕ → List (HeapReference Obj)}
    {P Q : Search Obj → HeapReference Obj → Prop} (imp : ∀ s r, P s r → Q s r) {n i : ℕ}
    {s : Search Obj} (meets : IterationsMeet env order P n i s) :
    IterationsMeet env order Q n i s := by
  induction n generalizing i s with
  | zero => trivial
  | succ n ih => exact ⟨meets.1.mono imp, fun s' h hu => ih (meets.2 s' h hu)⟩

theorem IterationsMeet.and {env : Agent Obj} {order : ℕ → List (HeapReference Obj)}
    {P Q : Search Obj → HeapReference Obj → Prop} {n i : ℕ} {s : Search Obj}
    (first : IterationsMeet env order P n i s) (second : IterationsMeet env order Q n i s) :
    IterationsMeet env order (fun s r => P s r ∧ Q s r) n i s := by
  induction n generalizing i s with
  | zero => trivial
  | succ n ih =>
    exact ⟨first.1.and second.1, fun s' h hu => ih (first.2 s' h hu) (second.2 s' h hu)⟩

/-- What an invariant adds to the reports of the passes. -/
theorem IterationsMeet.of_invariant {env : Agent Obj} {order : ℕ → List (HeapReference Obj)}
    {P Q : Search Obj → HeapReference Obj → Prop} {I : Search Obj → Prop}
    (reset : ∀ s, I s → I s.resetNodesFound)
    (report : ∀ s r s', I s → P s r → reportReference env s r = .ok s' → I s')
    (imp : ∀ s r, I s → P s r → Q s r) {n i : ℕ} {s : Search Obj}
    (meets : IterationsMeet env order P n i s) (init : I s) : IterationsMeet env order Q n i s := by
  induction n generalizing i s with
  | zero => trivial
  | succ n ih =>
    exact ⟨meets.1.of_invariant report imp (reset s init), fun s' h hu =>
      ih (meets.2 s' h hu) (Run.foldlM_invariant report meets.1 (reset s init) h)⟩

/-- Passes whose reports all succeed under an invariant succeed. -/
theorem heapIterations_succeeds {env : Agent Obj} {order : ℕ → List (HeapReference Obj)}
    {P : Search Obj → HeapReference Obj → Prop} {I : Search Obj → Prop}
    (reset : ∀ s, I s → I s.resetNodesFound)
    (progress : ∀ s r, I s → P s r → ∃ s', reportReference env s r = .ok s' ∧ I s') {n i : ℕ}
    {s : Search Obj} (meets : IterationsMeet env order P n i s) (init : I s) :
    ∃ s', heapIterations env order n i s = .ok s' ∧ I s' := by
  induction n generalizing i s with
  | zero => exact ⟨s, rfl, init⟩
  | succ n ih =>
    obtain ⟨t, hpass, kept⟩ := Run.foldlM_succeeds progress meets.1 (reset s init)
    by_cases hunfinished : t.hasUnfinished = true
    · obtain ⟨s', hrest, done⟩ := ih (meets.2 t hpass hunfinished) kept
      exact ⟨s', heapIterations_succ_eq_ok.2 ⟨t, hpass, by rwa [if_pos hunfinished]⟩, done⟩
    · exact ⟨t, heapIterations_succ_eq_ok.2 ⟨t, hpass, by rw [if_neg hunfinished]⟩, kept⟩

/-- The passes of one agent follow those of another one step by step. -/
theorem heapIterations_simulates {env env' : Agent Obj} {order : ℕ → List (HeapReference Obj)}
    {P P' : Search Obj → HeapReference Obj → Prop} {R : Search Obj → Search Obj → Prop}
    (reset : ∀ s t, R s t → R s.resetNodesFound t.resetNodesFound)
    (report : ∀ s t r s', R s t → P s r → P' t r → reportReference env s r = .ok s' →
      ∃ t', reportReference env' t r = .ok t' ∧ R s' t')
    (unfinished : ∀ s t, R s t → t.hasUnfinished = s.hasUnfinished) {n i : ℕ} {s s' t : Search Obj}
    (meets : IterationsMeet env order P n i s) (meets' : IterationsMeet env' order P' n i t)
    (init : R s t) (run : heapIterations env order n i s = .ok s') :
    ∃ t', heapIterations env' order n i t = .ok t' ∧ R s' t' := by
  induction n generalizing i s t with
  | zero =>
    cases run
    exact ⟨t, rfl, init⟩
  | succ n ih =>
    obtain ⟨s₁, hpass, hrest⟩ := heapIterations_succ_eq_ok.1 run
    obtain ⟨t₁, hpass', kept⟩ :=
      Run.foldlM_simulates report meets.1 meets'.1 (reset s t init) hpass
    have same := unfinished s₁ t₁ kept
    by_cases hu : s₁.hasUnfinished = true
    · rw [if_pos hu] at hrest
      obtain ⟨t', hrest', done⟩ := ih (meets.2 s₁ hpass hu)
        (meets'.2 t₁ hpass' (same.trans hu)) kept hrest
      exact ⟨t', heapIterations_succ_eq_ok.2 ⟨t₁, hpass', by rwa [if_pos (same.trans hu)]⟩, done⟩
    · rw [if_neg hu] at hrest
      have hu' : ¬ t₁.hasUnfinished = true := fun h => hu (same.symm.trans h)
      exact ⟨t₁, heapIterations_succ_eq_ok.2 ⟨t₁, hpass', by rw [if_neg hu']⟩, hrest ▸ kept⟩

theorem iterationsMeet_of_forall {env : Agent Obj} {order : ℕ → List (HeapReference Obj)}
    {P : Search Obj → HeapReference Obj → Prop} (all : ∀ s i, ∀ r ∈ order i, P s r) (n i : ℕ)
    (s : Search Obj) : IterationsMeet env order P n i s := by
  induction n generalizing i s with
  | zero => trivial
  | succ n ih => exact ⟨Run.meets_of_forall (fun s => all s i) _, fun s' _ _ => ih _ s'⟩

/-- What holds of the start of a dump and is preserved holds when the search of the dump ends. -/
theorem Dump.run_invariant {d : Dump Obj} {P : Search Obj → HeapReference Obj → Prop}
    {I : Search Obj → Prop} (reset : ∀ s, I s → I s.resetNodesFound)
    (report : ∀ s r s', I s → P s r → reportReference d.agent s r = .ok s' → I s')
    (meets : d.Meets P) (init : I d.start) {s : Search Obj} (run : d.run = .ok s) : I s :=
  heapIterations_invariant reset report meets init run

theorem Dump.meets_of_forall {d : Dump Obj} {P : Search Obj → HeapReference Obj → Prop}
    (all : ∀ s i, ∀ r ∈ d.order i, P s r) : d.Meets P :=
  iterationsMeet_of_forall all _ _ _

theorem Dump.meets_true (d : Dump Obj) : d.Meets fun _ _ => True :=
  meets_of_forall fun _ _ _ _ => trivial

/-! ## The tags and the sizes -/

/-- What holds of every node during the passes. -/
structure NodeOk (numberOfLeaks : ℕ) (dom : Finset ℕ) (nd : MemoryNode Obj) : Prop where
  visited : nd.visited = false
  dead : nd.dead = false
  size : nd.leaksRelated.size ≤ numberOfLeaks
  target : ∀ ref ∈ nd.start, ∀ b, ref.node = some b → b ∈ dom
  root : ∀ ref ∈ nd.start, ref.node = none → isRootReference ref.kind = true

/-- The tags are well, the sets and counters have their sizes, and every node is well. -/
structure SearchOk (numberOfLeaks : ℕ) (s : Search Obj) : Prop where
  tagged : WellTagged s.toAgentState
  number : s.numberOfLeaks = numberOfLeaks
  finished : s.leaksFinished.size = numberOfLeaks
  found : s.nodesFound.length = numberOfLeaks
  node : ∀ a nd, s.nodes.get? a = some nd → NodeOk numberOfLeaks s.nodes.dom nd

omit [DecidableEq Obj] in
/-- Tags stay well when the heap keeps its addresses and the objects its nodes name. -/
theorem WellTagged.congr {s s' : AgentState Obj} (tagged : WellTagged s) (tags : s'.tags = s.tags)
    (dom : s'.nodes.dom = s.nodes.dom)
    (obj : ∀ a nd', s'.nodes.get? a = some nd' →
      ∃ nd, s.nodes.get? a = some nd ∧ nd.obj = nd'.obj) : WellTagged s' where
  mem o h := by
    rw [tags] at h ⊢
    rw [dom]
    exact tagged.mem o h
  inj o o' h heq := by
    rw [tags] at h heq
    exact tagged.inj o o' h heq
  anonymous a nd' hnd' hobj := by
    obtain ⟨nd, hnd, heq⟩ := obj a nd' hnd'
    rw [tags]
    exact tagged.anonymous a nd hnd (heq.trans hobj)

theorem WellTagged.countFanIn {env : Agent Obj} {s : Search Obj} {r : HeapReference Obj}
    (tagged : WellTagged s.toAgentState) : WellTagged (s.countFanIn env r).toAgentState := by
  refine tagged.congr rfl rfl fun a nd' h => ?_
  change (s.countFanIn env r).nodes.get? a = some nd' at h
  rw [get?_countFanIn, Option.map_eq_some_iff] at h
  obtain ⟨nd, hnd, rfl⟩ := h
  exact ⟨nd, hnd, rfl⟩

theorem WellTagged.recorded {env : Agent Obj} {s : Search Obj} {r : HeapReference Obj}
    {thisNode : MemoryNode Obj} (hthis : s.nodes.get? (s.tags r.referee) = some thisNode)
    (tagged : WellTagged s.toAgentState) :
    WellTagged (s.recorded env r thisNode).toAgentState := by
  have grown : WellTagged { s.toAgentState with
      tags := (s.recorded env r thisNode).tags, nodes := grownHeap env s r } := by
    rcases hr : r.referrer with _ | o
    · have htags : (s.recorded env r thisNode).tags = s.tags := by simp [Search.recorded, hr]
      have hheap : grownHeap env s r = s.nodes := by simp [grownHeap, hr]
      rw [htags, hheap]
      exact tagged
    · by_cases htag : s.tags o = 0
      · apply tagged.retag env o (newMemoryNode s.numberOfLeaks)
        · simp [grownHeap, hr, htag]
        · simp [Search.recorded, hr, htag]
        · intro a old hold _ ha
          exact s.nodes.ne_zero_of_mem (s.nodes.mem_dom_of_get? hold) (ha.trans htag)
      · have htags : (s.recorded env r thisNode).tags = s.tags := by
          simp [Search.recorded, hr, htag]
        have hheap : grownHeap env s r = s.nodes := by simp [grownHeap, hr, htag]
        rw [htags, hheap]
        exact tagged
  refine grown.congr rfl (dom_recorded env s r thisNode) fun a nd' h => ?_
  change (s.recorded env r thisNode).nodes.get? a = some nd' at h
  rw [get?_recorded hthis, Option.map_eq_some_iff] at h
  obtain ⟨nd, hnd, rfl⟩ := h
  exact ⟨nd, hnd, rfl⟩

omit [DecidableEq Obj] in
theorem nodeOk_newMemoryNode (n : ℕ) (dom : Finset ℕ) :
    NodeOk n dom (newMemoryNode n : MemoryNode Obj) where
  visited := rfl
  dead := rfl
  size := le_rfl
  target := by simp [newMemoryNode]
  root := by simp [newMemoryNode]

omit [DecidableEq Obj] in
theorem NodeOk.mono {n : ℕ} {dom dom' : Finset ℕ} {nd : MemoryNode Obj} (ok : NodeOk n dom nd)
    (sub : dom ⊆ dom') : NodeOk n dom' nd :=
  { ok with target := fun ref href b hb => sub (ok.target ref href b hb) }

omit [DecidableEq Obj] in
/-- A reference without a referrer is a root. -/
theorem isRootReference_of_referrer_eq_none {r : HeapReference Obj} (h : r.referrer = none) :
    isRootReference r.kind = true := by
  have hroot : r.kind.isHeapRoot = true := by
    rw [← r.referrer_isNone, h]
    rfl
  revert hroot
  cases r.kind <;> simp [HeapReferenceKind.isHeapRoot, isRootReference]

theorem length_countNodesFound (l f : BitmaskSet) (found : List ℕ) :
    (countNodesFound l f found).length = found.length := by
  simp [countNodesFound]

namespace SearchOk

variable {numberOfLeaks : ℕ} {env : Agent Obj} {s s' : Search Obj} {r : HeapReference Obj}
  {thisNode : MemoryNode Obj}

omit [DecidableEq Obj] in
theorem resetNodesFound (ok : SearchOk numberOfLeaks s) :
    SearchOk numberOfLeaks s.resetNodesFound :=
  { ok with found := by simpa [Search.resetNodesFound] using ok.found }

theorem countFanIn (ok : SearchOk numberOfLeaks s) : SearchOk numberOfLeaks (s.countFanIn env r) :=
  { ok with
    tagged := ok.tagged.countFanIn
    node := fun a nd' h => by
      rw [get?_countFanIn, Option.map_eq_some_iff] at h
      obtain ⟨nd, hnd, rfl⟩ := h
      have nodeOk := ok.node a nd hnd
      exact ⟨nodeOk.visited, nodeOk.dead, nodeOk.size, nodeOk.target, nodeOk.root⟩ }

theorem recorded (ok : SearchOk numberOfLeaks s)
    (hthis : s.nodes.get? (s.tags r.referee) = some thisNode) (referrerTag : ReferrerTagOk s r) :
    SearchOk numberOfLeaks (s.recorded env r thisNode) where
  tagged := ok.tagged.recorded hthis
  number := ok.number
  finished := by
    simp only [Search.recorded]
    split_ifs
    · exact ok.finished
    · exact ok.finished
  found := (length_countNodesFound _ _ _).trans ok.found
  node a nd' h := by
    obtain ⟨nd, rfl, hnd⟩ := get?_recorded_eq_some hthis h
    have nodeOk : NodeOk numberOfLeaks (s.recorded env r thisNode).nodes.dom nd := by
      rw [dom_recorded]
      rcases hnd with hnd | ⟨_, rfl⟩
      · exact (ok.node a nd hnd).mono (dom_subset_grownHeap env s r)
      · rw [ok.number]
        exact nodeOk_newMemoryNode _ _
    refine ⟨nodeOk.visited, nodeOk.dead, ?_, ?_, ?_⟩
    · simp only [recordedNode]
      split_ifs
      · exact nodeOk.size
      · exact nodeOk.size
    · intro ref href b hb
      rcases mem_start_recordedNode.1 href with href | ⟨-, rfl⟩
      · exact nodeOk.target ref href b hb
      · rw [dom_recorded]
        exact refNodeOf_mem referrerTag hb
    · intro ref href hnone
      rcases mem_start_recordedNode.1 href with href | ⟨-, rfl⟩
      · exact nodeOk.root ref href hnone
      · exact isRootReference_of_referrer_eq_none (Option.map_eq_none_iff.1 hnone)

theorem outcome (ok : SearchOk numberOfLeaks s) (out : Outcome env s r s') :
    SearchOk numberOfLeaks s' := by
  cases out with
  | skipped => exact ok
  | dropped => exact ok.countFanIn
  | recorded thisNode records _ referrerTag => exact ok.recorded records.node referrerTag

omit [DecidableEq Obj] in
/-- The callback gets past its first tests while a label is not finished. -/
theorem passes (ok : SearchOk numberOfLeaks s)
    (hthis : s.nodes.get? (s.tags r.referee) = some thisNode) {l : ℕ}
    (hbit : thisNode.leaksRelated.bit l = true) (unfinished : s.leaksFinished.bit l = false)
    (notLocal : localReferenceOfThisThread env.threadId r.kind r.info = false) :
    Passes env s r thisNode where
  notLocal := notLocal
  node := hthis
  unfinished := by
    by_contra hall
    have hsize : thisNode.leaksRelated.size ≤ s.leaksFinished.size := by
      rw [ok.finished]
      exact (ok.node _ _ hthis).size
    rw [(BitmaskSet.containsAll_iff hsize).1 (by simpa using hall) l hbit] at unfinished
    cases unfinished
  nonempty := by
    by_contra hempty
    rw [(BitmaskSet.isEmpty_iff _).1 (by simpa using hempty) l] at hbit
    cases hbit

omit [DecidableEq Obj] in
/-- A node whose leaks are not all finished has an unfinished label. -/
theorem exists_label (ok : SearchOk numberOfLeaks s)
    (hthis : s.nodes.get? (s.tags r.referee) = some thisNode)
    (unfinished : s.leaksFinished.containsAll thisNode.leaksRelated = false) :
    ∃ l, thisNode.leaksRelated.bit l = true ∧ s.leaksFinished.bit l = false := by
  by_contra hnone
  push Not at hnone
  have hsize : thisNode.leaksRelated.size ≤ s.leaksFinished.size := by
    rw [ok.finished]
    exact (ok.node _ _ hthis).size
  have hall := (BitmaskSet.containsAll_iff hsize).2 fun l hl => by simpa using hnone l hl
  rw [unfinished] at hall
  cases hall

omit [DecidableEq Obj] in
/-- A callback that gets past its first tests has met an unfinished label. -/
theorem exists_unfinished (ok : SearchOk numberOfLeaks s) (passes : Passes env s r thisNode) :
    ∃ l, thisNode.leaksRelated.bit l = true ∧ s.leaksFinished.bit l = false :=
  ok.exists_label passes.node passes.unfinished

end SearchOk

namespace Dump

variable (d : Dump Obj)

theorem searchOk_start : SearchOk d.leaks.length d.start where
  tagged := d.classNodes_tagged.tagged
  number := d.numberOfLeaks_tagged
  finished := d.numberOfLeaks_tagged
  found := by
    simp only [start, Search.start, List.length_replicate]
    exact d.numberOfLeaks_tagged
  node a nd h := by
    rcases d.node_cases h with ⟨leak, hleak, o, _, rfl⟩ | ⟨klass, _, _, rfl⟩
    · have hlt := d.leakNumber_lt hleak
      refine ⟨rfl, rfl, ?_, by simp [leakNode, newMemoryNode], by simp [leakNode, newMemoryNode]⟩
      simp only [leakNode, BitmaskSet.size_add, BitmaskSet.size_new]
      omega
    · exact ⟨rfl, rfl, le_rfl, by simp [classNode, newMemoryNode],
        by simp [classNode, newMemoryNode]⟩

/-- No reference is recorded before the passes. -/
theorem referencesOf_start (a : ℕ) : referencesOf d.start.nodes a = [] := by
  unfold referencesOf
  split
  · rename_i nd h
    rcases d.node_cases h with ⟨leak, _, o, _, rfl⟩ | ⟨klass, _, _, rfl⟩
    · rfl
    · rfl
  · rfl

theorem searchOk_run {s : Search Obj} (run : d.run = .ok s) : SearchOk d.leaks.length s :=
  run_invariant (fun _ ok => ok.resetNodesFound)
    (fun _ _ _ ok _ h => ok.outcome (reportReference_outcome h)) d.meets_true d.searchOk_start run

end Dump

end JLeaker
