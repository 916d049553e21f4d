import Mathlib.Data.List.Forall2
import Mathlib.Data.List.Induction
import JLeaker.Model.Dump

/-!
# The graph before the passes

`searchObjectsForLeaks` leaves one node for each leak and `tagAllClasses` one for each class; no
reference is recorded yet.  `Searched` and `Tagged` describe the two loops after each turn.
-/

namespace JLeaker

variable {Obj : Type}

theorem forall₂_imp_of_mem {α β : Type} {R S : α → β → Prop} {l₁ : List α} {l₂ : List β}
    (h : List.Forall₂ R l₁ l₂) (imp : ∀ a ∈ l₁, ∀ b ∈ l₂, R a b → S a b) :
    List.Forall₂ S l₁ l₂ := by
  induction h with
  | nil => exact .nil
  | cons hab _ ih =>
    exact .cons (imp _ (by simp) _ (by simp) hab) (ih fun a ha b hb =>
      imp a (List.mem_cons_of_mem _ ha) b (List.mem_cons_of_mem _ hb))

/-! ## Tags and nodes -/

/-- Tags are null or addresses of nodes, no two objects share one, and the node of an object that
the agent holds no reference to is the tag of some object. -/
structure WellTagged (s : AgentState Obj) : Prop where
  mem : ∀ o, s.tags o ≠ 0 → s.tags o ∈ s.nodes.dom
  inj : ∀ o o', s.tags o ≠ 0 → s.tags o = s.tags o' → o = o'
  anonymous : ∀ a nd, s.nodes.get? a = some nd → nd.obj = none → ∃ o, s.tags o = a

/-- The node `searchObjectsForLeaks` makes for a leak. -/
def leakNode (leak : LeakingNode) (o : Obj) : MemoryNode Obj :=
  { newMemoryNode (leak.leakNumber + 1) with
    leaksRelated := (BitmaskSet.new (leak.leakNumber + 1)).add leak.leakNumber
    obj := some o
    leakSize := leak.leakSize }

/-- The node `tagAllClasses` makes for a class. -/
def classNode (numberOfLeaks : ℕ) (ignoreFields : Obj → List IgnoreField) (klass : Obj) :
    MemoryNode Obj :=
  { newMemoryNode numberOfLeaks with
    obj := some klass, classNode := true, ignoreFields := ignoreFields klass }

variable [DecidableEq Obj]

/-- A new tag of an object leaves the nodes that only tags lead to those they were. -/
theorem WellTagged.exists_tag_update {s : AgentState Obj} (tagged : WellTagged s) {o : Obj}
    (keeps : ∀ a old, s.nodes.get? a = some old → old.obj = none → a ≠ s.tags o) (tag : ℕ) {a : ℕ}
    {nd : MemoryNode Obj} (hnd : s.nodes.get? a = some nd) (hobj : nd.obj = none) :
    ∃ o', Function.update s.tags o tag o' = a := by
  obtain ⟨o', rfl⟩ := tagged.anonymous a nd hnd hobj
  have ho : o' ≠ o := by
    rintro rfl
    exact keeps _ nd hnd hobj rfl
  exact ⟨o', Function.update_of_ne ho _ _⟩

/-- Giving an object a fresh node keeps the tags well. -/
theorem WellTagged.retag {s : AgentState Obj} (tagged : WellTagged s) (env : Agent Obj) (o : Obj)
    (nd : MemoryNode Obj) {s' : AgentState Obj}
    (nodes : s'.nodes = s.nodes.alloc env.malloc nd)
    (tags : s'.tags = Function.update s.tags o (s.nodes.fresh env.malloc))
    (keeps : ∀ a old, s.nodes.get? a = some old → old.obj = none → a ≠ s.tags o) :
    WellTagged s' where
  mem o' h := by
    rw [tags] at h ⊢
    rw [nodes, CHeap.dom_alloc]
    by_cases ho : o' = o
    · subst ho
      simp
    · rw [Function.update_of_ne ho] at h ⊢
      exact Finset.mem_insert_of_mem (tagged.mem o' h)
  inj o₁ o₂ h heq := by
    rw [tags] at h heq
    by_cases h₁ : o₁ = o
    · subst h₁
      by_cases h₂ : o₂ = o₁
      · exact h₂.symm
      · rw [Function.update_self, Function.update_of_ne h₂] at heq
        rw [Function.update_self, heq] at h
        exact absurd heq.symm (s.nodes.ne_fresh_of_mem _ (tagged.mem o₂ h))
    · rw [Function.update_of_ne h₁] at h heq
      by_cases h₂ : o₂ = o
      · subst h₂
        rw [Function.update_self] at heq
        exact absurd heq (s.nodes.ne_fresh_of_mem _ (tagged.mem o₁ h))
      · rw [Function.update_of_ne h₂] at heq
        exact tagged.inj o₁ o₂ h heq
  anonymous a x hx hobj := by
    rw [tags]
    rw [nodes, CHeap.get?_alloc] at hx
    by_cases ha : a = s.nodes.fresh env.malloc
    · exact ⟨o, by simp [ha]⟩
    · rw [if_neg ha] at hx
      exact tagged.exists_tag_update keeps _ hx hobj

/-- Untagging an object whose node has it as `obj` keeps the tags well. -/
theorem WellTagged.untag {s : AgentState Obj} (tagged : WellTagged s) (o : Obj)
    {s' : AgentState Obj} (nodes : s'.nodes = s.nodes) (tags : s'.tags = Function.update s.tags o 0)
    (keeps : ∀ a old, s.nodes.get? a = some old → old.obj = none → a ≠ s.tags o) :
    WellTagged s' where
  mem o' h := by
    rw [tags] at h ⊢
    rw [nodes]
    by_cases ho : o' = o
    · subst ho
      simp at h
    · rw [Function.update_of_ne ho] at h ⊢
      exact tagged.mem o' h
  inj o₁ o₂ h heq := by
    rw [tags] at h heq
    by_cases h₁ : o₁ = o
    · subst h₁
      simp at h
    · rw [Function.update_of_ne h₁] at h heq
      by_cases h₂ : o₂ = o
      · subst h₂
        rw [Function.update_self] at heq
        exact absurd heq h
      · rw [Function.update_of_ne h₂] at heq
        exact tagged.inj o₁ o₂ h heq
  anonymous a x hx hobj := by
    rw [nodes] at hx
    rw [tags]
    exact tagged.exists_tag_update keeps _ hx hobj

/-! ## `searchObjectsForLeaks` -/

/-- The size the agent reads of a candidate. -/
def candidateSize (env : Agent Obj) (size : ℕ → Obj → ℤ) (candidate : Obj × ℕ) : ℤ :=
  let idx : ℤ := (candidate.2 : ℤ) - initialClassTag
  if 0 ≤ idx ∧ idx < env.gdata.sizeableClassesNum then size idx.toNat candidate.1 else 0

/-- The candidates that become leaks. -/
def leakingCandidates (env : Agent Obj) (size : ℕ → Obj → ℤ) (candidates : List (Obj × ℕ)) :
    List (Obj × ℕ) :=
  candidates.filter fun c => decide (candidateSize env size c > env.gdata.sizeThreshold)

/-- The state after the candidates so far. -/
structure Searched (env : Agent Obj) (size : ℕ → Obj → ℤ) (candidates : List (Obj × ℕ))
    (leaks : List LeakingNode) (s : AgentState Obj) : Prop where
  numbers : leaks.map (·.leakNumber) = List.range s.numberOfLeaks
  nodup : (leaks.map (·.node)).Nodup
  mem : ∀ a, a ∈ s.nodes.dom ↔ a ∈ leaks.map (·.node)
  node : List.Forall₂ (fun c leak => s.nodes.get? leak.node = some (leakNode leak c.1) ∧
    leak.leakSize = candidateSize env size c)
    (leakingCandidates env size candidates) leaks
  tag : (candidates.map Prod.fst).Nodup → List.Forall₂ (fun c leak => s.tags c.1 = leak.node)
    (leakingCandidates env size candidates) leaks
  untagged : (candidates.map Prod.fst).Nodup → ∀ o,
    o ∉ (leakingCandidates env size candidates).map Prod.fst → s.tags o = 0
  tagged : WellTagged s
  allocated : s.nodesAllocated = s.nodes.dom.card
  freed : s.nodesFreed = 0

omit [DecidableEq Obj] in
theorem searched_nil (env : Agent Obj) (size : ℕ → Obj → ℤ) :
    Searched env size [] [] (AgentState.init : AgentState Obj) where
  numbers := rfl
  nodup := List.nodup_nil
  mem a := by simp [AgentState.init]
  node := .nil
  tag _ := .nil
  untagged _ _ _ := rfl
  tagged := ⟨fun o h => absurd rfl h, fun o _ h => absurd rfl h, fun a nd h => by
    simp [AgentState.init] at h⟩
  allocated := rfl
  freed := rfl

/-- The entry of the leak list a candidate becomes. -/
def newLeak (env : Agent Obj) (size : ℕ → Obj → ℤ) (s : AgentState Obj) (c : Obj × ℕ) :
    LeakingNode :=
  ⟨s.nodes.fresh env.malloc, candidateSize env size c, s.numberOfLeaks⟩

theorem searchObject_eq (env : Agent Obj) (size : ℕ → Obj → ℤ) (leaks : List LeakingNode)
    (s : AgentState Obj) (c : Obj × ℕ) : searchObject env size (leaks, s) c =
      if candidateSize env size c > env.gdata.sizeThreshold then
        (leaks ++ [newLeak env size s c],
          { s with
            numberOfLeaks := s.numberOfLeaks + 1
            nodes := s.nodes.alloc env.malloc (leakNode (newLeak env size s c) c.1)
            nodesAllocated := s.nodesAllocated + 1
            tags := Function.update s.tags c.1 (s.nodes.fresh env.malloc) })
      else (leaks, { s with tags := Function.update s.tags c.1 0 }) := rfl

namespace Searched

variable {env : Agent Obj} {size : ℕ → Obj → ℤ} {candidates : List (Obj × ℕ)}
  {leaks : List LeakingNode} {s : AgentState Obj}

omit [DecidableEq Obj] in
theorem node_of_mem (done : Searched env size candidates leaks s) {a : ℕ} {nd : MemoryNode Obj}
    (h : s.nodes.get? a = some nd) :
    ∃ leak ∈ leaks, ∃ o, leak.node = a ∧ nd = leakNode leak o := by
  obtain ⟨leak, hleak, rfl⟩ := List.mem_map.1 ((done.mem a).1 (s.nodes.mem_dom_of_get? h))
  obtain ⟨k, hk, rfl⟩ := List.getElem_of_mem hleak
  have hlen := done.node.length_eq
  have := (List.forall₂_iff_get.1 done.node).2 k (by omega) hk
  rw [List.get_eq_getElem, List.get_eq_getElem, h] at this
  exact ⟨_, hleak, _, rfl, Option.some.inj this.1⟩

omit [DecidableEq Obj] in
theorem obj_ne_none (done : Searched env size candidates leaks s) {a : ℕ} {nd : MemoryNode Obj}
    (h : s.nodes.get? a = some nd) : nd.obj ≠ none := by
  obtain ⟨leak, _, o, _, rfl⟩ := done.node_of_mem h
  exact Option.some_ne_none o

omit [DecidableEq Obj] in
theorem ne_of_nodup {c : Obj × ℕ} (hnodup : ((candidates ++ [c]).map Prod.fst).Nodup)
    {c' : Obj × ℕ} (hc' : c' ∈ leakingCandidates env size candidates) : c'.1 ≠ c.1 := by
  rw [List.map_append, List.nodup_append] at hnodup
  exact hnodup.2.2 c'.1 (List.mem_map_of_mem (List.mem_filter.1 hc').1) c.1 (by simp)

omit [DecidableEq Obj] in
theorem nodup_of_concat {c : Obj × ℕ} (hnodup : ((candidates ++ [c]).map Prod.fst).Nodup) :
    (candidates.map Prod.fst).Nodup := by
  rw [List.map_append, List.nodup_append] at hnodup
  exact hnodup.1

/-- A turn of the loop that reports a leak. -/
theorem large (done : Searched env size candidates leaks s) {c : Obj × ℕ}
    (hlarge : candidateSize env size c > env.gdata.sizeThreshold) :
    Searched env size (candidates ++ [c]) (searchObject env size (leaks, s) c).1
      (searchObject env size (leaks, s) c).2 := by
  have hfilter : leakingCandidates env size (candidates ++ [c]) =
      leakingCandidates env size candidates ++ [c] := by
    simp [leakingCandidates, hlarge]
  have hold : ∀ leak ∈ leaks, leak.node ≠ s.nodes.fresh env.malloc := fun leak hleak =>
    s.nodes.ne_fresh_of_mem _ ((done.mem _).2 (List.mem_map_of_mem hleak))
  rw [searchObject_eq, if_pos hlarge]
  refine ⟨?_, ?_, ?_, ?_, ?_, ?_, ?_, ?_, done.freed⟩
  · simp [done.numbers, List.range_succ, newLeak]
  · rw [List.map_append, List.nodup_append]
    refine ⟨done.nodup, by simp, ?_⟩
    rintro a ha b hb rfl
    obtain ⟨leak, hleak, rfl⟩ := List.mem_map.1 ha
    exact hold leak hleak (by simpa [newLeak] using hb)
  · intro a
    simp only [CHeap.dom_alloc, Finset.mem_insert, done.mem, List.map_append, List.mem_append,
      List.map_cons, List.map_nil, List.mem_singleton, newLeak]
    exact or_comm
  · rw [hfilter]
    refine List.rel_append (?_ : List.Forall₂ _ _ _) (.cons ⟨by simp [newLeak], rfl⟩ .nil)
    refine forall₂_imp_of_mem done.node fun c' _ leak hleak h => ⟨?_, h.2⟩
    rw [CHeap.get?_alloc, if_neg (hold leak hleak), h.1]
  · intro hnodup
    rw [hfilter]
    refine List.rel_append (?_ : List.Forall₂ _ _ _) (.cons (by simp [newLeak]) .nil)
    refine forall₂_imp_of_mem (done.tag (nodup_of_concat hnodup)) fun c' hc' leak _ h => ?_
    simp only [Function.update_of_ne (ne_of_nodup hnodup hc'), h]
  · intro hnodup o ho
    rw [hfilter, List.map_append, List.mem_append, not_or] at ho
    have hne : o ≠ c.1 := by simpa using ho.2
    simp only [Function.update_of_ne hne]
    exact done.untagged (nodup_of_concat hnodup) o ho.1
  · exact done.tagged.retag env c.1 _ rfl rfl fun a old h hnone =>
      absurd hnone (done.obj_ne_none h)
  · simp [done.allocated, s.nodes.fresh_notMem]

/-- A turn of the loop that passes over a small object. -/
theorem small (done : Searched env size candidates leaks s) {c : Obj × ℕ}
    (hsmall : ¬ candidateSize env size c > env.gdata.sizeThreshold) :
    Searched env size (candidates ++ [c]) (searchObject env size (leaks, s) c).1
      (searchObject env size (leaks, s) c).2 := by
  have hfilter : leakingCandidates env size (candidates ++ [c]) =
      leakingCandidates env size candidates := by
    simp [leakingCandidates, hsmall]
  rw [searchObject_eq, if_neg hsmall]
  refine ⟨done.numbers, done.nodup, done.mem, hfilter ▸ done.node, ?_, ?_, ?_,
    done.allocated, done.freed⟩
  · intro hnodup
    rw [hfilter]
    refine forall₂_imp_of_mem (done.tag (nodup_of_concat hnodup)) fun c' hc' leak _ h => ?_
    simp only [Function.update_of_ne (ne_of_nodup hnodup hc'), h]
  · intro hnodup o ho
    rw [hfilter] at ho
    by_cases hne : o = c.1
    · simp only [hne, Function.update_self]
    · simp only [Function.update_of_ne hne]
      exact done.untagged (nodup_of_concat hnodup) o ho
  · exact done.tagged.untag c.1 rfl rfl fun a old h hnone => absurd hnone (done.obj_ne_none h)

/-- One turn of the loop. -/
theorem step (done : Searched env size candidates leaks s) (c : Obj × ℕ) :
    Searched env size (candidates ++ [c]) (searchObject env size (leaks, s) c).1
      (searchObject env size (leaks, s) c).2 := by
  by_cases hlarge : candidateSize env size c > env.gdata.sizeThreshold
  · exact done.large hlarge
  · exact done.small hlarge

end Searched

/-- The state `searchObjectsForLeaks` leaves. -/
theorem searchObjectsForLeaks_searched (env : Agent Obj) (size : ℕ → Obj → ℤ)
    (candidates : List (Obj × ℕ)) :
    Searched env size candidates (searchObjectsForLeaks env size candidates .init).1
      (searchObjectsForLeaks env size candidates .init).2 := by
  unfold searchObjectsForLeaks
  induction candidates using List.reverseRecOn with
  | nil => exact searched_nil env size
  | append_singleton cs c ih =>
    rw [List.foldl_append]
    exact ih.step c

/-! ## `tagAllClasses` -/

/-- The state after the classes so far, where `s₀` is the state before the first one. -/
structure Tagged (env : Agent Obj) (ignoreFields : Obj → List IgnoreField) (s₀ : AgentState Obj)
    (classes : List Obj) (classNodes : List ℕ) (s : AgentState Obj) : Prop where
  numberOfLeaks : s.numberOfLeaks = s₀.numberOfLeaks
  nodup : classNodes.Nodup
  notMem : ∀ a ∈ classNodes, a ∉ s₀.nodes.dom
  mem : ∀ a, a ∈ s.nodes.dom ↔ a ∈ s₀.nodes.dom ∨ a ∈ classNodes
  old : ∀ a ∈ s₀.nodes.dom, s.nodes.get? a = s₀.nodes.get? a
  node : ∀ a ∈ classNodes, ∃ klass ∈ classes,
    s.nodes.get? a = some (classNode s₀.numberOfLeaks ignoreFields klass)
  klass : ∀ klass ∈ classes, klass ≠ env.jvm.classClass → s.tags klass ∈ classNodes ∧
    s.nodes.get? (s.tags klass) = some (classNode s₀.numberOfLeaks ignoreFields klass)
  classClass : env.jvm.classClass ∈ classes → s.tags env.jvm.classClass = 0
  others : ∀ o, o ∉ classes → s.tags o = s₀.tags o
  tagged : WellTagged s
  allocated : s.nodesAllocated = s.nodes.dom.card
  freed : s.nodesFreed = s₀.nodesFreed

theorem tagClass_eq (env : Agent Obj) (ignoreFields : Obj → List IgnoreField)
    (classNodes : List ℕ) (s : AgentState Obj) (klass : Obj) :
    tagClass env ignoreFields (classNodes, s) klass =
      if klass = env.jvm.classClass then
        (classNodes, { s with tags := Function.update s.tags klass 0 })
      else
        (classNodes ++ [s.nodes.fresh env.malloc],
          { s with
            nodes := s.nodes.alloc env.malloc (classNode s.numberOfLeaks ignoreFields klass)
            nodesAllocated := s.nodesAllocated + 1
            tags := Function.update s.tags klass (s.nodes.fresh env.malloc) }) := rfl

namespace Tagged

variable {env : Agent Obj} {ignoreFields : Obj → List IgnoreField} {s₀ s : AgentState Obj}
  {classes : List Obj} {classNodes : List ℕ}

omit [DecidableEq Obj] in
theorem obj_ne_none (done : Tagged env ignoreFields s₀ classes classNodes s)
    (named : ∀ a nd, s₀.nodes.get? a = some nd → nd.obj ≠ none) {a : ℕ} {nd : MemoryNode Obj}
    (h : s.nodes.get? a = some nd) : nd.obj ≠ none := by
  rcases (done.mem a).1 (s.nodes.mem_dom_of_get? h) with ha | ha
  · exact named a nd ((done.old a ha).symm.trans h)
  · obtain ⟨klass, _, hnode⟩ := done.node a ha
    obtain rfl := Option.some.inj (h.symm.trans hnode)
    exact Option.some_ne_none klass

/-- The turn of the loop for the class of the classes. -/
theorem classClassTurn (done : Tagged env ignoreFields s₀ classes classNodes s)
    (named : ∀ a nd, s₀.nodes.get? a = some nd → nd.obj ≠ none) {klass : Obj}
    (hclass : klass = env.jvm.classClass) :
    Tagged env ignoreFields s₀ (classes ++ [klass])
      (tagClass env ignoreFields (classNodes, s) klass).1
      (tagClass env ignoreFields (classNodes, s) klass).2 := by
  rw [tagClass_eq, if_pos hclass]
  refine ⟨done.numberOfLeaks, done.nodup, done.notMem, done.mem, done.old, ?_, ?_, ?_, ?_, ?_,
    done.allocated, done.freed⟩
  · intro a ha
    obtain ⟨k, hk, hnode⟩ := done.node a ha
    exact ⟨k, List.mem_append_left _ hk, hnode⟩
  · intro k hk hne
    have hk' : k ≠ klass := hclass ▸ hne
    simp only [Function.update_of_ne hk']
    refine done.klass k ?_ hne
    simpa [hk'] using hk
  · intro _
    simp [hclass]
  · intro o ho
    rw [List.mem_append, not_or] at ho
    simp only [Function.update_of_ne (by simpa using ho.2 : o ≠ klass)]
    exact done.others o ho.1
  · exact done.tagged.untag klass rfl rfl fun a old h hnone =>
      absurd hnone (done.obj_ne_none named h)

/-- The turn of the loop for another class. -/
theorem classTurn (done : Tagged env ignoreFields s₀ classes classNodes s)
    (named : ∀ a nd, s₀.nodes.get? a = some nd → nd.obj ≠ none) {klass : Obj}
    (hclass : klass ≠ env.jvm.classClass) :
    Tagged env ignoreFields s₀ (classes ++ [klass])
      (tagClass env ignoreFields (classNodes, s) klass).1
      (tagClass env ignoreFields (classNodes, s) klass).2 := by
  rw [tagClass_eq, if_neg hclass]
  have hold : ∀ a ∈ s.nodes.dom, a ≠ s.nodes.fresh env.malloc := fun a ha =>
    s.nodes.ne_fresh_of_mem _ ha
  have hget : ∀ a ∈ s.nodes.dom, (s.nodes.alloc env.malloc
      (classNode s.numberOfLeaks ignoreFields klass)).get? a = s.nodes.get? a := fun a ha =>
    s.nodes.get?_alloc_of_mem ha
  refine ⟨done.numberOfLeaks, ?_, ?_, ?_, ?_, ?_, ?_, ?_, ?_, ?_, ?_, done.freed⟩
  · rw [List.nodup_append]
    refine ⟨done.nodup, by simp, ?_⟩
    rintro a ha b hb rfl
    exact hold a ((done.mem a).2 (.inr ha)) (by simpa using hb)
  · intro a ha hmem
    rcases List.mem_append.1 ha with ha | ha
    · exact done.notMem a ha hmem
    · exact hold a ((done.mem a).2 (.inl hmem)) (by simpa using ha)
  · intro a
    simp only [CHeap.dom_alloc, Finset.mem_insert, done.mem, List.mem_append,
      List.mem_singleton]
    tauto
  · intro a ha
    simp only [hget a ((done.mem a).2 (.inl ha)), done.old a ha]
  · intro a ha
    rcases List.mem_append.1 ha with ha | ha
    · obtain ⟨k, hk, hnode⟩ := done.node a ha
      refine ⟨k, List.mem_append_left _ hk, ?_⟩
      simp only [hget a ((done.mem a).2 (.inr ha)), hnode]
    · obtain rfl : a = s.nodes.fresh env.malloc := by simpa using ha
      exact ⟨klass, by simp, by rw [← done.numberOfLeaks]; simp⟩
  · intro k hk hne
    by_cases hk' : k = klass
    · subst hk'
      simp only [Function.update_self]
      exact ⟨by simp, by rw [← done.numberOfLeaks]; simp⟩
    · simp only [Function.update_of_ne hk']
      obtain ⟨hmem, hnode⟩ := done.klass k (by simpa [hk'] using hk) hne
      exact ⟨List.mem_append_left _ hmem, by
        rw [hget _ ((done.mem _).2 (.inr hmem)), hnode]⟩
  · intro hk
    have hne : env.jvm.classClass ≠ klass := Ne.symm hclass
    simp only [Function.update_of_ne hne]
    exact done.classClass (by simpa [hne] using hk)
  · intro o ho
    rw [List.mem_append, not_or] at ho
    simp only [Function.update_of_ne (by simpa using ho.2 : o ≠ klass)]
    exact done.others o ho.1
  · exact done.tagged.retag env klass _ rfl rfl fun a old h hnone =>
      absurd hnone (done.obj_ne_none named h)
  · simp [done.allocated, s.nodes.fresh_notMem]

/-- One turn of the loop. -/
theorem step (done : Tagged env ignoreFields s₀ classes classNodes s)
    (named : ∀ a nd, s₀.nodes.get? a = some nd → nd.obj ≠ none) (klass : Obj) :
    Tagged env ignoreFields s₀ (classes ++ [klass])
      (tagClass env ignoreFields (classNodes, s) klass).1
      (tagClass env ignoreFields (classNodes, s) klass).2 := by
  by_cases hclass : klass = env.jvm.classClass
  · exact done.classClassTurn named hclass
  · exact done.classTurn named hclass

end Tagged

/-- The state `tagAllClasses` leaves. -/
theorem tagAllClasses_tagged (env : Agent Obj) (ignoreFields : Obj → List IgnoreField)
    (s₀ : AgentState Obj) (tagged : WellTagged s₀)
    (named : ∀ a nd, s₀.nodes.get? a = some nd → nd.obj ≠ none)
    (allocated : s₀.nodesAllocated = s₀.nodes.dom.card) (classes : List Obj) :
    Tagged env ignoreFields s₀ classes (tagAllClasses env ignoreFields classes s₀).1
      (tagAllClasses env ignoreFields classes s₀).2 := by
  unfold tagAllClasses
  induction classes using List.reverseRecOn with
  | nil =>
    exact ⟨rfl, List.nodup_nil, by simp, by simp, fun _ _ => rfl, by simp, by simp, by simp,
      fun _ _ => rfl, tagged, allocated, rfl⟩
  | append_singleton cs c ih =>
    rw [List.foldl_append]
    exact ih.step named c

namespace Dump

variable (d : Dump Obj)

theorem leaks_searched :
    Searched d.agent d.size d.candidates d.leaks d.searched.2 :=
  searchObjectsForLeaks_searched d.agent d.size d.candidates

theorem classNodes_tagged :
    Tagged d.agent d.ignoreFields d.searched.2 d.loadedClasses d.classNodes d.tagged.2 :=
  tagAllClasses_tagged _ _ _ d.leaks_searched.tagged (fun _ _ h => d.leaks_searched.obj_ne_none h)
    d.leaks_searched.allocated _

/-- The number of leaks. -/
theorem numberOfLeaks_tagged : d.tagged.2.numberOfLeaks = d.leaks.length := by
  rw [d.classNodes_tagged.numberOfLeaks]
  have := congrArg List.length d.leaks_searched.numbers
  simpa using this.symm

/-- Before the passes every node is the node of a leak or of a class. -/
theorem node_cases {a : ℕ} {nd : MemoryNode Obj} (h : d.tagged.2.nodes.get? a = some nd) :
    (∃ leak ∈ d.leaks, ∃ o, leak.node = a ∧ nd = leakNode leak o) ∨
      ∃ klass ∈ d.loadedClasses, a ∈ d.classNodes ∧
        nd = classNode d.leaks.length d.ignoreFields klass := by
  have htagged := d.classNodes_tagged
  rcases (htagged.mem a).1 (CHeap.mem_dom_of_get? _ h) with ha | ha
  · rw [htagged.old a ha] at h
    exact .inl (d.leaks_searched.node_of_mem h)
  · obtain ⟨klass, hk, hnode⟩ := htagged.node a ha
    rw [← htagged.numberOfLeaks, numberOfLeaks_tagged, h] at hnode
    exact .inr ⟨klass, hk, ha, Option.some.inj hnode⟩

/-- The node of a leak before the passes. -/
theorem get?_leak {leak : LeakingNode} (h : leak ∈ d.leaks) :
    ∃ o, d.tagged.2.nodes.get? leak.node = some (leakNode leak o) := by
  have hmem : leak.node ∈ d.searched.2.nodes.dom :=
    (d.leaks_searched.mem _).2 (List.mem_map_of_mem h)
  obtain ⟨nd, hnd⟩ := CHeap.exists_get?_of_mem _ hmem
  obtain ⟨leak', hleak', o, heq, rfl⟩ := d.leaks_searched.node_of_mem hnd
  obtain rfl : leak' = leak := List.inj_on_of_nodup_map d.leaks_searched.nodup hleak' h heq
  exact ⟨o, (d.classNodes_tagged.old _ hmem).trans hnd⟩

theorem leakNumber_lt {leak : LeakingNode} (h : leak ∈ d.leaks) :
    leak.leakNumber < d.leaks.length := by
  have hmem := List.mem_map_of_mem (f := fun l : LeakingNode => l.leakNumber) h
  rw [d.leaks_searched.numbers, List.mem_range] at hmem
  have := congrArg List.length d.leaks_searched.numbers
  simp only [List.length_map, List.length_range] at this
  omega

theorem leak_ext {leak leak' : LeakingNode} (h : leak ∈ d.leaks) (h' : leak' ∈ d.leaks)
    (heq : leak.leakNumber = leak'.leakNumber) : leak = leak' := by
  refine List.inj_on_of_nodup_map ?_ h h' heq
  rw [d.leaks_searched.numbers]
  exact List.nodup_range

end Dump

end JLeaker
