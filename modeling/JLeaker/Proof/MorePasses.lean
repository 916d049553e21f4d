import JLeaker.Proof.SearchComplete

/-!
# More passes lose no chain

Reports only add to the graph: nodes stay, with their labels and records, and finished leaks stay
finished.  Reports do not read `consider_local_references`.  So a dump with a larger
`reference_chain_length`, or one that considers local references as well, prints a chain for every leak
that a dump of the same references has printed a chain for before.
-/

namespace JLeaker

open DeadEnds

variable {Obj : Type} [DecidableEq Obj]

/-! ## What reports add -/

/-- A node some reports later. -/
structure MemoryNode.Grown (nd nd' : MemoryNode Obj) : Prop where
  dead : nd'.dead = nd.dead
  klass : nd'.klass = nd.klass
  obj : nd'.obj = nd.obj
  size : nd'.leaksRelated.size = nd.leaksRelated.size
  labels : ∀ l, nd.leaksRelated.bit l = true → nd'.leaksRelated.bit l = true
  start : nd.start ⊆ nd'.start

/-- The state some reports later. -/
structure Search.Grown (s s' : Search Obj) : Prop where
  node : ∀ a nd, s.nodes.get? a = some nd → ∃ nd', s'.nodes.get? a = some nd' ∧ nd.Grown nd'
  finished : ∀ l, s.leaksFinished.bit l = true → s'.leaksFinished.bit l = true

omit [DecidableEq Obj] in
theorem MemoryNode.Grown.refl (nd : MemoryNode Obj) : nd.Grown nd :=
  ⟨rfl, rfl, rfl, rfl, fun _ h => h, List.Subset.refl _⟩

omit [DecidableEq Obj] in
theorem MemoryNode.Grown.trans {nd nd' nd'' : MemoryNode Obj} (first : nd.Grown nd')
    (second : nd'.Grown nd'') : nd.Grown nd'' where
  dead := second.dead.trans first.dead
  klass := second.klass.trans first.klass
  obj := second.obj.trans first.obj
  size := second.size.trans first.size
  labels l h := second.labels l (first.labels l h)
  start := List.Subset.trans first.start second.start

theorem MemoryNode.grown_recordedNode (env : Agent Obj) (s : Search Obj) (r : HeapReference Obj)
    (thisNode : MemoryNode Obj) (a : ℕ) (nd : MemoryNode Obj) :
    nd.Grown (recordedNode env s r thisNode a nd) where
  dead := rfl
  klass := rfl
  obj := rfl
  size := size_recordedNode env s r thisNode a nd
  labels l h := by
    simp only [recordedNode]
    split_ifs
    · rw [BitmaskSet.bit_addAllWithExclusion, h, Bool.true_or]
    · exact h
  start ref href := mem_start_recordedNode.2 (.inl href)

namespace Search.Grown

variable {s s' s'' : Search Obj} {env : Agent Obj} {r : HeapReference Obj}

omit [DecidableEq Obj] in
theorem refl (s : Search Obj) : s.Grown s := ⟨fun _ nd h => ⟨nd, h, .refl nd⟩, fun _ h => h⟩

omit [DecidableEq Obj] in
theorem trans (first : s.Grown s') (second : s'.Grown s'') : s.Grown s'' where
  node a nd hnd := by
    obtain ⟨nd', hnd', grown⟩ := first.node a nd hnd
    obtain ⟨nd'', hnd'', grown'⟩ := second.node a nd' hnd'
    exact ⟨nd'', hnd'', grown.trans grown'⟩
  finished l h := second.finished l (first.finished l h)

theorem outcome (out : Outcome env s r s') : s.Grown s' where
  node a nd hnd := by
    cases out with
    | skipped => exact ⟨nd, hnd, .refl nd⟩
    | dropped =>
      refine ⟨{ nd with fanIn := if a = s.tags r.referee then fanInAfter env s r nd else nd.fanIn },
        ?_, ⟨rfl, rfl, rfl, rfl, fun _ h => h, List.Subset.refl _⟩⟩
      rw [get?_countFanIn, hnd, Option.map_some]
    | recorded thisNode records =>
      exact ⟨_, get?_recorded_of_get? records.node hnd,
        MemoryNode.grown_recordedNode env s r thisNode a nd⟩
  finished l h := finished_outcome h out

/-- The passes from any one on only add. -/
theorem heapIterations {order : ℕ → List (HeapReference Obj)} {n i : ℕ}
    (run : heapIterations env order n i s = .ok s') : s.Grown s' := by
  refine heapIterations_invariant (P := fun _ _ => True) (I := fun t => s.Grown t)
    (fun t grown => ⟨grown.node, grown.finished⟩) (fun t r t' grown _ h =>
      grown.trans (.outcome (reportReference_outcome h)))
    (iterationsMeet_of_forall (fun _ _ _ _ => trivial) n i s) (.refl s) run

omit [DecidableEq Obj] in
theorem referencesOf_subset (grown : s.Grown s') (a : ℕ) :
    referencesOf s.nodes a ⊆ referencesOf s'.nodes a := by
  unfold referencesOf
  rcases hnd : s.nodes.get? a with _ | nd
  · exact List.nil_subset _
  · obtain ⟨nd', hnd', h⟩ := grown.node a nd hnd
    rw [hnd']
    exact h.start

omit [DecidableEq Obj] in
theorem contains_finished (grown : s.Grown s') {numberOfLeaks l : ℕ}
    (ok : SearchOk numberOfLeaks s) (ok' : SearchOk numberOfLeaks s')
    (h : s.leaksFinished.contains l = true) : s'.leaksFinished.contains l = true := by
  rw [BitmaskSet.contains_iff] at h ⊢
  rw [ok'.finished, ← ok.finished]
  exact ⟨h.1, grown.finished l h.2⟩

omit [DecidableEq Obj] in
/-- Nodes keep carrying a leak, and objects that are not dead keep their nodes live. -/
theorem carriers_subset (grown : s.Grown s') {objectsWithTag objectsWithTag' : ℕ → List Obj}
    (survive : ∀ a, a ≠ 0 → objectsWithTag a ≠ [] → objectsWithTag' a ≠ []) (l : ℕ) :
    carriers objectsWithTag l s.nodes ⊆ carriers objectsWithTag' l s'.nodes := by
  rintro a ⟨⟨nd, hnd, carries⟩, ⟨nd₂, hnd₂, live⟩⟩
  obtain rfl : nd = nd₂ := Option.some.inj (hnd.symm.trans hnd₂)
  obtain ⟨nd', hnd', h⟩ := grown.node a nd hnd
  refine ⟨⟨nd', hnd', ?_⟩, nd', hnd', ?_⟩
  · rw [BitmaskSet.contains_iff] at carries ⊢
    rw [h.size]
    exact ⟨carries.1, h.labels l carries.2⟩
  · unfold MemoryNode.live at live ⊢
    rw [h.dead, h.klass, h.obj]
    have := survive a (s.nodes.ne_zero_of_mem (s.nodes.mem_dom_of_get? hnd))
    simp only [Bool.and_eq_true, Bool.or_eq_true, Bool.not_eq_true', List.isEmpty_eq_false_iff]
      at live ⊢
    exact ⟨live.1, live.2.imp_right this⟩

omit [DecidableEq Obj] in
theorem leads (grown : s.Grown s') {g g' : GlobalData}
    (locals : g.considerLocalReferences = true → g'.considerLocalReferences = true)
    {objectsWithTag objectsWithTag' : ℕ → List Obj}
    (survive : ∀ a, a ≠ 0 → objectsWithTag a ≠ [] → objectsWithTag' a ≠ []) {l a : ℕ}
    (h : Leads (LinkedTo g (referencesOf s.nodes)) (HoldsRoot g (referencesOf s.nodes))
      (carriers objectsWithTag l s.nodes) a) :
    Leads (LinkedTo g' (referencesOf s'.nodes)) (HoldsRoot g' (referencesOf s'.nodes))
      (carriers objectsWithTag' l s'.nodes) a := by
  have considered : ∀ kind, shouldConsiderThisReference g kind = true →
      shouldConsiderThisReference g' kind = true := by
    intro kind h
    cases kind with
    | stackLocal => exact locals h
    | jniLocal => exact locals h
    | _ => rfl
  refine Leads.imp (fun b c linked => ?_) (fun b root => ?_)
    (grown.carriers_subset survive l) h
  · obtain ⟨ref, href, h, rest⟩ := linked
    exact ⟨ref, grown.referencesOf_subset b href, considered ref.kind h, rest⟩
  · obtain ⟨ref, href, h, rest⟩ := root
    exact ⟨ref, grown.referencesOf_subset b href, considered ref.kind h, rest⟩

end Search.Grown

/-! ## A larger limit -/

namespace Dump

variable (d : Dump Obj)

/-- The dump with another `reference_chain_length` and another `consider_local_references`. -/
def withOptions (n : ℤ) (locals : Bool) : Dump Obj :=
  { d with agent := { d.agent with
    gdata := { d.agent.gdata with referenceChainLength := n, considerLocalReferences := locals } } }

theorem reportReference_withOptions (n : ℤ) (locals : Bool) :
    reportReference (d.withOptions n locals).agent = reportReference d.agent := rfl

/-- More passes repeat the passes of a smaller limit and go on from there. -/
theorem heapIterations_grown {env env' : Agent Obj}
    (same : reportReference env' = reportReference env) {order : ℕ → List (HeapReference Obj)}
    {n m i : ℕ} (le : n ≤ m) {s t t' : Search Obj} (run : heapIterations env order n i s = .ok t)
    (run' : heapIterations env' order m i s = .ok t') : t.Grown t' := by
  induction n generalizing m i s with
  | zero =>
    cases run
    exact .heapIterations run'
  | succ n ih =>
    obtain ⟨m, rfl⟩ : ∃ k, m = k + 1 := ⟨m - 1, by omega⟩
    obtain ⟨u, pass, rest⟩ := heapIterations_succ_eq_ok.1 run
    obtain ⟨u', pass', rest'⟩ := heapIterations_succ_eq_ok.1 run'
    rw [same] at pass'
    obtain rfl : u = u' := Except.ok.inj (pass.symm.trans pass')
    split_ifs at rest rest'
    · exact ih (Nat.le_of_succ_le_succ le) rest rest'
    · rw [← rest, ← rest']
      exact .refl u

/-- With a larger limit, and with local references as well, if both searches return, every finished leak
is finished and every leak that was printed with a chain is, as long as the objects that were alive
are. -/
theorem chains_withOptions {n : ℤ} (more : d.agent.gdata.referenceChainLength ≤ n) {locals : Bool}
    (considered : d.agent.gdata.considerLocalReferences = true → locals = true)
    (passes : d.agent.gdata.referenceChainLength > 0) {s s' : Search Obj} (run : d.run = .ok s)
    (run' : (d.withOptions n locals).run = .ok s') {objectsWithTag objectsWithTag' : ℕ → List Obj}
    (lookup : TagLookup objectsWithTag s.tags) (lookup' : TagLookup objectsWithTag' s'.tags)
    (survive : ∀ a, a ≠ 0 → objectsWithTag a ≠ [] → objectsWithTag' a ≠ []) {fuel : ℕ}
    (enough : s'.nodes.dom.card < fuel) :
    (∀ l, s.leaksFinished.contains l = true → s'.leaksFinished.contains l = true) ∧
    ∃ chains st chains' st', d.chains objectsWithTag fuel s = .ok (chains, st) ∧
      (d.withOptions n locals).chains objectsWithTag' fuel s' = .ok (chains', st') ∧
      ∀ leak chain chain', (leak, chain) ∈ d.leaks.zip chains →
        (leak, chain') ∈ d.leaks.zip chains' → chain.isSome → chain'.isSome := by
  have grown : s.Grown s' :=
    heapIterations_grown (d.reportReference_withOptions n locals) (Int.toNat_le_toNat more) run run'
  have ok := d.searchOk_run run
  have ok' := (d.withOptions n locals).searchOk_run run'
  have fewer : s.nodes.dom.card < fuel := by
    refine (Finset.card_le_card fun a ha => ?_).trans_lt enough
    obtain ⟨nd, hnd⟩ := s.nodes.exists_get?_of_mem ha
    obtain ⟨nd', hnd', -⟩ := grown.node a nd hnd
    exact CHeap.mem_dom_of_get? _ hnd'
  refine ⟨fun l h => grown.contains_finished ok ok' h, ?_⟩
  obtain ⟨chains, st, hrun, hall⟩ := d.chains_answers run passes lookup fewer
  obtain ⟨chains', st', hrun', hall'⟩ := (d.withOptions n locals).chains_answers run'
    (passes.trans_le more) lookup' enough
  refine ⟨chains, st, chains', st', hrun, hrun', fun leak chain chain' hmem hmem' some => ?_⟩
  have answers : Answers d.agent.gdata objectsWithTag s.nodes leak chain :=
    List.forall₂_zip hall hmem
  have answers' : Answers (d.withOptions n locals).agent.gdata objectsWithTag' s'.nodes leak chain' :=
    List.forall₂_zip hall' hmem'
  rw [answers'.isSome_iff]
  exact grown.leads considered survive (answers.isSome_iff.1 some)

end Dump

theorem chains_withOptions_sharedHolder :
    ∃ s s' path chains' st', Sample.sharedHolder.run = .ok s ∧
      (Sample.sharedHolder.withOptions 9 true).run = .ok s' ∧ path.length = 4 ∧
      (∃ rest st, Sample.sharedHolder.chains (Sample.objectsWithTag s.tags) (s'.nodes.dom.card + 1) s =
        .ok (some path :: rest, st)) ∧
      (Sample.sharedHolder.withOptions 9 true).chains (Sample.objectsWithTag s'.tags)
        (s'.nodes.dom.card + 1) s' = .ok (chains', st') ∧
      ∀ chain', (⟨1, 1000, 0⟩, chain') ∈ Sample.sharedHolder.leaks.zip chains' → chain'.isSome := by
  obtain ⟨s, run, h⟩ := Run.exists_ok_of_any (x := Sample.sharedHolder.run)
    (p := fun s => (Sample.sharedHolder.withOptions 9 true).run.toOption.any fun s' =>
      ((List.finRange 12).all fun o => decide (s.tags o = 0 ∨ s'.tags o = s.tags o)) &&
        (Sample.sharedHolder.chains (Sample.objectsWithTag s.tags)
          (s'.nodes.dom.card + 1) s).toOption.any fun r =>
            Sample.startsWithChain 4 r.1)
    (by decide +kernel)
  obtain ⟨s', run', h⟩ := Run.exists_ok_of_any h
  obtain ⟨kept, h⟩ := Bool.and_eq_true_iff.1 h
  obtain ⟨⟨chains, st⟩, hrun, h⟩ := Run.exists_ok_of_any h
  obtain ⟨path, rest, rfl, length, mem⟩ := Sample.of_startsWithChain h
  have survive : ∀ a, a ≠ 0 → Sample.objectsWithTag s.tags a ≠ [] →
      Sample.objectsWithTag s'.tags a ≠ [] := by
    intro a ha alive
    obtain ⟨o, ho⟩ := List.exists_mem_of_ne_nil _ alive
    have tag : s.tags o = a := of_decide_eq_true (List.mem_filter.1 ho).2
    have same := of_decide_eq_true (List.all_eq_true.1 kept o (List.mem_finRange o))
    refine List.ne_nil_of_mem ((Sample.allAlive s'.tags).complete a o ha ?_)
    rw [← tag]
    exact same.resolve_left fun h0 => ha (tag.symm.trans h0)
  obtain ⟨-, chains, st₁, chains', st', hrun₁, hrun', all⟩ :=
    Sample.sharedHolder.chains_withOptions (by decide) (by decide) (by decide) run run'
      (Sample.allAlive s.tags).toTagLookup (Sample.allAlive s'.tags).toTagLookup survive
        (Nat.lt_succ_self _)
  obtain ⟨rfl, rfl⟩ := Prod.mk.inj (Except.ok.inj (hrun.symm.trans hrun₁))
  exact ⟨s, s', path, chains', st', run, run', length, ⟨rest, st, hrun⟩, hrun',
    fun chain' hmem => all _ _ chain' mem hmem rfl⟩

end JLeaker
