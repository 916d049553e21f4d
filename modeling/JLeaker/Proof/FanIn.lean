import JLeaker.Proof.SearchInvariant

/-!
# Fan-in counters

Each callback adds one to at most one counter, so no counter exceeds the number of callbacks so far.
A fan-in limit above the number of all callbacks of a dump therefore never drops a reference.
-/

namespace JLeaker

variable {Obj : Type} [DecidableEq Obj]

/-- The number of callbacks of a pass over the references. -/
def passCallbacks (env : Agent Obj) : List (HeapReference Obj) → Search Obj → ℕ
  | [], _ => 0
  | r :: rs, s =>
    (if s.tags r.referee = 0 ∨ s.tags (env.jvm.classOf r.referee) = 0 then 0 else 1) +
      match reportReference env s r with
      | .ok s' => passCallbacks env rs s'
      | .error _ => 0

/-- The number of callbacks of the passes from number `i` on. -/
def iterationCallbacks (env : Agent Obj) (order : ℕ → List (HeapReference Obj)) :
    ℕ → ℕ → Search Obj → ℕ
  | 0, _, _ => 0
  | n + 1, i, s =>
    passCallbacks env (order i) s.resetNodesFound +
      match (order i).foldlM (reportReference env) s.resetNodesFound with
      | .ok t => if t.hasUnfinished then iterationCallbacks env order n (i + 1) t else 0
      | .error _ => 0

/-- The number of callbacks of a dump. -/
def Dump.callbacks (d : Dump Obj) : ℕ :=
  iterationCallbacks d.agent d.order d.agent.gdata.referenceChainLength.toNat 0 d.start

/-- No counter exceeds `c`. -/
def FanInAtMost (c : ℤ) (s : Search Obj) : Prop :=
  ∀ a nd, s.nodes.get? a = some nd → ∀ rCount ∈ nd.fanIn, rCount.count ≤ c

/-- The report does not reach the fan-in limit. -/
def BelowFanIn (env : Agent Obj) (s : Search Obj) (r : HeapReference Obj) : Prop :=
  Reported env s r → ∀ thisNode classNode, s.nodes.get? (s.tags r.referee) = some thisNode →
    s.nodes.get? (referrerClassTag env.jvm s.tags r) = some classNode →
    (countReference classNode.obj thisNode.fanIn).1 < env.gdata.maxFanIn

theorem countReference_le (klass : Option Obj) {c : ℤ} (hc : 0 ≤ c)
    {fanIn : List (ClassReferenceCount Obj)} (bound : ∀ rCount ∈ fanIn, rCount.count ≤ c) :
    (countReference klass fanIn).1 ≤ c + 1 ∧
      ∀ rCount ∈ (countReference klass fanIn).2, rCount.count ≤ c + 1 := by
  induction fanIn with
  | nil => simpa [countReference] using hc
  | cons rCount rest ih =>
    have hhead := bound rCount (by simp)
    obtain ⟨h₁, h₂⟩ := ih fun x hx => bound x (List.mem_cons_of_mem _ hx)
    unfold countReference
    split_ifs with hk
    · refine ⟨by simpa using hhead, fun x hx => ?_⟩
      rcases List.mem_cons.1 hx with rfl | hx
      · simpa using hhead
      · exact (bound x (List.mem_cons_of_mem _ hx)).trans (by omega)
    · refine ⟨h₁, fun x hx => ?_⟩
      rcases List.mem_cons.1 hx with rfl | hx
      · omega
      · exact h₂ x hx

namespace FanInAtMost

variable {c : ℤ} {env : Agent Obj} {s s' : Search Obj} {r : HeapReference Obj}

theorem fanInAfter_le (below : FanInAtMost c s) (hc : 0 ≤ c) {a : ℕ} {nd : MemoryNode Obj}
    (hnd : s.nodes.get? a = some nd) : ∀ rCount ∈ fanInAfter env s r nd, rCount.count ≤ c + 1 := by
  unfold fanInAfter
  split
  · exact (countReference_le _ hc (below a nd hnd)).2
  · exact fun x hx => (below a nd hnd x hx).trans (by omega)

omit [DecidableEq Obj] in
theorem mono {c' : ℤ} (below : FanInAtMost c s) (h : c ≤ c') : FanInAtMost c' s :=
  fun a nd hnd x hx => (below a nd hnd x hx).trans h

/-- A callback adds at most one to a counter; a reference that is not reported adds nothing. -/
theorem outcome (below : FanInAtMost c s) (hc : 0 ≤ c) (out : Outcome env s r s') :
    FanInAtMost (c + if s.tags r.referee = 0 ∨ s.tags (env.jvm.classOf r.referee) = 0 then 0 else 1)
      s' := by
  have hcount : Reported env s r →
      (if s.tags r.referee = 0 ∨ s.tags (env.jvm.classOf r.referee) = 0 then (0 : ℤ) else 1) = 1 :=
    fun reported => if_neg (not_or.2 ⟨reported.tagged, reported.classTagged⟩)
  cases out with
  | skipped => exact below.mono (by split_ifs <;> omega)
  | dropped thisNode reported =>
    rw [hcount reported]
    intro a nd' h
    rw [get?_countFanIn, Option.map_eq_some_iff] at h
    obtain ⟨nd, hnd, rfl⟩ := h
    dsimp only
    split_ifs
    · exact below.fanInAfter_le hc hnd
    · exact below.mono (by omega) a nd hnd
  | recorded thisNode records =>
    rw [hcount records.toReported]
    intro a nd' h
    obtain ⟨nd, rfl, hnd⟩ := get?_recorded_eq_some records.node h
    simp only [recordedNode]
    rcases hnd with hnd | ⟨⟨o, hnew⟩, rfl⟩
    · split_ifs
      · exact below.fanInAfter_le hc hnd
      · exact below.mono (by omega) a nd hnd
    · simp [if_neg (hnew.ne_referee records.node), newMemoryNode]

theorem belowFanIn (below : FanInAtMost c s) (hc : 0 ≤ c) (limit : c + 1 < env.gdata.maxFanIn) :
    BelowFanIn env s r := fun _ _ _ hthis _ =>
  (countReference_le _ hc (below _ _ hthis)).1.trans_lt limit

end FanInAtMost

/-- A pass with fewer callbacks than the limit leaves room. -/
theorem pass_belowFanIn {env : Agent Obj} {rs : List (HeapReference Obj)} {c : ℤ} {s : Search Obj}
    (below : FanInAtMost c s) (hc : 0 ≤ c)
    (limit : c + passCallbacks env rs s < env.gdata.maxFanIn) :
    Run.Meets (reportReference env) (BelowFanIn env) s rs ∧
      ∀ s', rs.foldlM (reportReference env) s = .ok s' →
        FanInAtMost (c + passCallbacks env rs s) s' := by
  induction rs generalizing c s with
  | nil =>
    refine ⟨trivial, fun s' h => ?_⟩
    cases h
    simpa [passCallbacks] using below
  | cons r rs ih =>
    have hhere : BelowFanIn env s r := by
      intro reported
      refine below.belowFanIn hc (lt_of_le_of_lt ?_ limit) reported
      have hne : ¬ (s.tags r.referee = 0 ∨ s.tags (env.jvm.classOf r.referee) = 0) :=
        not_or.2 ⟨reported.tagged, reported.classTagged⟩
      rw [passCallbacks, if_neg hne]
      push_cast
      omega
    have hrest : ∀ t, reportReference env s r = .ok t → 
        Run.Meets (reportReference env) (BelowFanIn env) t rs ∧
          ∀ s', rs.foldlM (reportReference env) t = .ok s' →
            FanInAtMost (c + passCallbacks env (r :: rs) s) s' := by
      intro t ht
      have hsum : (c + passCallbacks env (r :: rs) s : ℤ) = c +
          (if s.tags r.referee = 0 ∨ s.tags (env.jvm.classOf r.referee) = 0 then 0 else 1) +
          passCallbacks env rs t := by
        simp only [passCallbacks, ht]
        split_ifs <;> push_cast <;> omega
      rw [hsum] at limit ⊢
      exact ih (below.outcome hc (reportReference_outcome ht)) (by split_ifs <;> omega) limit
    refine ⟨⟨hhere, fun t ht => (hrest t ht).1⟩, fun s' h => ?_⟩
    obtain ⟨t, ht, h⟩ := Run.foldlM_cons_eq_ok.1 h
    exact (hrest t ht).2 s' h

theorem iterations_belowFanIn {env : Agent Obj} {order : ℕ → List (HeapReference Obj)} {n i : ℕ}
    {c : ℤ} {s : Search Obj} (below : FanInAtMost c s) (hc : 0 ≤ c)
    (limit : c + iterationCallbacks env order n i s < env.gdata.maxFanIn) :
    IterationsMeet env order (BelowFanIn env) n i s := by
  induction n generalizing c i s with
  | zero => trivial
  | succ n ih =>
    rw [iterationCallbacks] at limit
    push_cast at limit
    have reset : FanInAtMost c s.resetNodesFound := below
    have hfirst : c + passCallbacks env (order i) s.resetNodesFound < env.gdata.maxFanIn := by
      omega
    obtain ⟨hpass, hend⟩ := pass_belowFanIn reset hc hfirst
    refine ⟨hpass, fun t ht hu => ih (hend t ht) (by omega) ?_⟩
    rw [ht] at limit
    simp only [hu, if_true] at limit
    omega

/-- A limit above the number of callbacks of the dump is never reached. -/
theorem Dump.belowFanIn (d : Dump Obj) (limit : (d.callbacks : ℤ) < d.agent.gdata.maxFanIn) :
    d.Meets (BelowFanIn d.agent) := by
  refine iterations_belowFanIn (c := 0) (fun a nd h => ?_) le_rfl (by rwa [zero_add])
  rcases d.node_cases h with ⟨leak, _, o, _, rfl⟩ | ⟨klass, _, _, rfl⟩
  · simp [leakNode, newMemoryNode]
  · simp [classNode, newMemoryNode]

end JLeaker
