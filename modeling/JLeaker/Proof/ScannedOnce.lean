import JLeaker.Model.ScanLog
import JLeaker.Proof.FirstChain

/-!
# No list is scanned twice

The visited flag of a node is cleared when its call returns, so the search may meet the node again.
By then either a root was found, and no further list is scanned, or the node has lost the leak to the
first of its links that failed.  Only the lists without links may be scanned again.
-/

namespace JLeaker

variable {Obj : Type} {objectsWithTag : ℕ → List Obj} {leakNumber : ℕ}

/-! ## Without the log -/

theorem scanReferencesLogged_result (g : GlobalData)
    (visit : ℕ → ChainState Obj → Logged Fault ℕ (Option ℕ × ChainState Obj)) (node : ℕ)
    (refs : List MemoryReferer) (st : ChainState Obj) :
    (scanReferencesLogged g leakNumber visit node refs st).result =
      scanReferences g leakNumber (fun next st => (visit next st).result) node refs st := by
  induction refs generalizing st with
  | nil => rfl
  | cons ref rest ih =>
    rw [scanReferencesLogged, scanReferences]
    split_ifs
    · exact ih st
    · rcases ref.node with _ | next
      · rfl
      · refine Logged.result_bind_eq rfl fun found => ?_
        obtain ⟨orderedRefs, st₁⟩ := found
        cases orderedRefs with
        | none => exact ih _
        | some last => rfl
    · rfl

theorem generateReferencesChainForNodeLogged_result (env : Agent Obj) (fuel node : ℕ)
    (st : ChainState Obj) :
    (generateReferencesChainForNodeLogged env objectsWithTag fuel node leakNumber st).result =
      generateReferencesChainForNode env objectsWithTag fuel node leakNumber st := by
  induction fuel generalizing node st with
  | zero => rfl
  | succ fuel ih =>
    rw [generateReferencesChainForNodeLogged, generateReferencesChainForNode]
    refine Logged.result_bind_eq rfl fun nd => ?_
    split_ifs
    · rfl
    · rfl
    refine Logged.result_bind_eq rfl fun nodes => Logged.result_bind_eq rfl fun nd => ?_
    dsimp only
    split_ifs
    · rw [Logged.result_bind, Logged.result_emit, Run.ok_bind]
      refine Logged.result_bind_eq ?_ fun _ => rfl
      rw [scanReferencesLogged_result]
      simp only [ih]
    · rfl

/-! ## What a part of the search scans -/

/-- A considered reference of the list is not a root. -/
def HasLink (g : GlobalData) (refs : List MemoryReferer) : Prop :=
  ∃ ref ∈ refs, shouldConsiderThisReference g ref.kind = true ∧ isRootReference ref.kind = false

instance (g : GlobalData) (refs : List MemoryReferer) : Decidable (HasLink g refs) :=
  inferInstanceAs (Decidable (∃ ref ∈ refs, _))

/-- A part of the search scans nodes that it may enter.  The lists with a link it scans once, and when
it finds no root it leaves none of their nodes with the leak. -/
structure ScansOnce (g : GlobalData) (objectsWithTag : ℕ → List Obj) (leakNumber : ℕ)
    (st : ChainState Obj) (search : Logged Fault ℕ (Option ℕ × ChainState Obj)) : Prop where
  entered : ∀ b ∈ search.log, b ∈ avail objectsWithTag leakNumber st.nodes
  once : ∀ b, HasLink g (referencesOf st.nodes b) → search.log.count b ≤ 1
  frame : ∀ r st', search.result = .ok (r, st') →
    GraphFrame objectsWithTag leakNumber st.nodes st'.nodes
  cleared : ∀ st', search.result = .ok (none, st') → ∀ b ∈ search.log,
    HasLink g (referencesOf st.nodes b) → ¬ Carries st'.nodes leakNumber b

namespace ScansOnce

variable {g : GlobalData} {st st₁ st₂ : ChainState Obj}
  {search : Logged Fault ℕ (Option ℕ × ChainState Obj)}
  {next : Option ℕ × ChainState Obj → Logged Fault ℕ (Option ℕ × ChainState Obj)}

/-- Nothing is scanned. -/
theorem of_log_nil (log : search.log = [])
    (frame : ∀ r st', search.result = .ok (r, st') →
      GraphFrame objectsWithTag leakNumber st.nodes st'.nodes) :
    ScansOnce g objectsWithTag leakNumber st search where
  entered b hb := by
    rw [log] at hb
    cases hb
  once b _ := by
    rw [log]
    exact Nat.zero_le 1
  frame := frame
  cleared _ _ b hb := by
    rw [log] at hb
    cases hb

/-- The search ends with a part that fails. -/
theorem bind_error (scans : ScansOnce g objectsWithTag leakNumber st search) {e : Fault}
    (run : search.result = .error e) :
    ScansOnce g objectsWithTag leakNumber st (search >>= next) := by
  have result := Logged.result_bind_of_error run next
  have log := Logged.log_bind_of_error run next
  refine ⟨log ▸ scans.entered, log ▸ scans.once, fun r st' run' => ?_, fun st' run' => ?_⟩
  · rw [result] at run'
    cases run'
  · rw [result] at run'
    cases run'

/-- The search ends with a part that has found a root. -/
theorem bind_found (scans : ScansOnce g objectsWithTag leakNumber st search) {last last' : ℕ}
    (run : search.result = .ok (some last, st₁))
    (done : next (some last, st₁) = pure (some last', st₂)) (same : st₂.nodes = st₁.nodes) :
    ScansOnce g objectsWithTag leakNumber st (search >>= next) := by
  have result := Logged.result_bind_of_ok run next
  have log := Logged.log_bind_of_ok run next
  rw [done] at result log
  rw [Logged.log_pure, List.append_nil] at log
  refine ⟨log ▸ scans.entered, log ▸ scans.once, fun r st' run' => ?_, fun st' run' => ?_⟩
  · rw [result] at run'
    cases run'
    rw [same]
    exact scans.frame (some last) st₁ run
  · rw [result] at run'
    cases run'

/-- The search goes on after a part that has found no root. -/
theorem bind_none (scans : ScansOnce g objectsWithTag leakNumber st search)
    (run : search.result = .ok (none, st₁))
    (between : GraphFrame objectsWithTag leakNumber st₁.nodes st₂.nodes)
    (rest : ScansOnce g objectsWithTag leakNumber st₂ (next (none, st₁))) :
    ScansOnce g objectsWithTag leakNumber st (search >>= next) := by
  have result := Logged.result_bind_of_ok run next
  have log := Logged.log_bind_of_ok run next
  have frame := (scans.frame none st₁ run).trans between
  have same := frame.referencesOf_eq
  -- the nodes of the first part cannot be entered any more
  have apart : ∀ b ∈ search.log, HasLink g (referencesOf st.nodes b) →
      b ∉ (next (none, st₁)).log := by
    intro b hb hlink again
    obtain ⟨nd, hnd, -, hcontains, -⟩ := rest.entered b again
    exact scans.cleared st₁ run b hb hlink (between.carries ⟨nd, hnd, hcontains⟩)
  refine ⟨fun b hb => ?_, fun b hlink => ?_, fun r st' run' => ?_, fun st' run' b hb hlink => ?_⟩
  · rw [log] at hb
    rcases List.mem_append.1 hb with hb | hb
    · exact scans.entered b hb
    · exact frame.avail_subset (rest.entered b hb)
  · rw [log, List.count_append]
    by_cases hb : b ∈ search.log
    · rw [List.count_eq_zero.2 (apart b hb hlink)]
      exact scans.once b hlink
    · rw [List.count_eq_zero.2 hb, Nat.zero_add]
      exact rest.once b (same ▸ hlink)
  · rw [result] at run'
    exact frame.trans (rest.frame r st' run')
  · rw [result] at run'
    rw [log] at hb
    rcases List.mem_append.1 hb with hb | hb
    · intro carries
      exact scans.cleared st₁ run b hb hlink
        (between.carries ((rest.frame none st' run').carries carries))
    · exact rest.cleared st' run' b hb (same ▸ hlink)

end ScansOnce

/-- The loop scans once what its calls scan once.  When it has followed a link of its node and found
no root, the node has lost the leak. -/
theorem scanReferencesLogged_once (g : GlobalData)
    {visit : ℕ → ChainState Obj → Logged Fault ℕ (Option ℕ × ChainState Obj)}
    (hvisit : ∀ b st, ScansOnce g objectsWithTag leakNumber st (visit b st)) (node : ℕ)
    (refs : List MemoryReferer) (st : ChainState Obj) :
    ScansOnce g objectsWithTag leakNumber st
        (scanReferencesLogged g leakNumber visit node refs st) ∧
      ∀ st', (scanReferencesLogged g leakNumber visit node refs st).result = .ok (none, st') →
        HasLink g refs → ¬ Carries st'.nodes leakNumber node := by
  induction refs generalizing st with
  | nil =>
    refine ⟨.of_log_nil rfl fun r st' run => ?_, fun st' _ hlink => ?_⟩
    · cases run
      exact .refl _
    · obtain ⟨ref, hmem, -⟩ := hlink
      cases hmem
  | cons ref rest ih =>
    rw [scanReferencesLogged]
    split_ifs with hignored hnode
    · refine ⟨(ih st).1, fun st' run hlink => (ih st).2 st' run ?_⟩
      obtain ⟨r, hr, considered, notRoot⟩ := hlink
      rcases List.mem_cons.1 hr with rfl | hr
      · simp [considered] at hignored
      · exact ⟨r, hr, considered, notRoot⟩
    · rcases ref.node with _ | next
      · refine ⟨.of_log_nil rfl fun r st' run => ?_, fun st' run => ?_⟩
        · cases run
        · cases run
      · have call := hvisit next st
        dsimp only
        rcases hcall : (visit next st).result with e | ⟨_ | last, st₁⟩
        · refine ⟨call.bind_error hcall, fun st' run => ?_⟩
          rw [Logged.result_bind_of_error hcall] at run
          cases run
        · -- the leak is cleared at the node of the loop, which goes on
          have tail := ih { st₁ with nodes := st₁.nodes.modify node fun nd =>
            { nd with leaksRelated := nd.leaksRelated.remove leakNumber } }
          refine ⟨call.bind_none hcall (graphFrame_remove st₁.nodes node) tail.1,
            fun st' run _ carries => ?_⟩
          rw [Logged.result_bind_of_ok hcall] at run
          exact not_carries_remove st₁.nodes node ((tail.1.frame none st' run).carries carries)
        · refine ⟨call.bind_found hcall rfl (nodes_insertAfter st₁ last ref), fun st' run => ?_⟩
          rw [Logged.result_bind_of_ok hcall] at run
          cases run
    · refine ⟨.of_log_nil rfl fun r st' run => ?_, fun st' run => ?_⟩
      · cases run
        exact .refl _
      · cases run

/-! ## One call -/

/-- What a lookup that returns has done. -/
theorem fillClassInMemoryNode_filled (leakNumber : ℕ) {jvm : Jvm Obj}
    {h h' : CHeap (MemoryNode Obj)} {a : ℕ} {nd : MemoryNode Obj} (hnd : h.get? a = some nd)
    (run : fillClassInMemoryNode jvm objectsWithTag a h = .ok h') :
    Filled objectsWithTag leakNumber h h' a nd := by
  by_cases unique : nd.obj = none → (objectsWithTag a).length ≤ 1
  · obtain ⟨h₁, run₁, filled⟩ := fillClassInMemoryNode_spec leakNumber jvm hnd unique
    obtain rfl := Except.ok.inj (run.symm.trans run₁)
    exact filled
  · push Not at unique
    obtain ⟨hobj, several⟩ := unique
    rw [fillClassInMemoryNode, deref_eq_ok.2 hnd, Run.ok_bind] at run
    split_ifs at run with hdead hklass
    · cases run
      exact filled_known hnd (.inl hdead)
    · cases run
      exact filled_known hnd (.inr ⟨by simpa using hdead, hklass⟩)
    · -- two objects with the tag are a fatal error
      rcases htag : objectsWithTag a with _ | ⟨o, _ | ⟨o', os⟩⟩
      · simp [htag] at several
      · simp [htag] at several
      · rw [hobj, htag] at run
        cases run

/-- A call that enters a live node scans its list, and then what the loop scans. -/
theorem ScansOnce.enter {g : GlobalData} {st : ChainState Obj} {node : ℕ} {nd : MemoryNode Obj}
    {nodes₁ : CHeap (MemoryNode Obj)}
    {loop search : Logged Fault ℕ (Option ℕ × ChainState Obj)}
    (enters : node ∈ avail objectsWithTag leakNumber st.nodes)
    (opened : Opened objectsWithTag leakNumber node nd st.nodes nodes₁)
    (scans : ScansOnce g objectsWithTag leakNumber { st with nodes := nodes₁ } loop)
    (own : ∀ st', loop.result = .ok (none, st') → HasLink g (referencesOf st.nodes node) →
      ¬ Carries st'.nodes leakNumber node)
    (log : search.log = node :: loop.log)
    (result : ∀ r st', search.result = .ok (r, st') →
      ∃ st₂, loop.result = .ok (r, st₂) ∧ st'.nodes = mark false st₂.nodes node) :
    ScansOnce g objectsWithTag leakNumber st search := by
  have same : referencesOf nodes₁ = referencesOf st.nodes := opened.references
  have entered : ∀ b ∈ loop.log, b ∈ avail objectsWithTag leakNumber st.nodes ∧ b ≠ node := by
    intro b hb
    have inside := scans.entered b hb
    rw [opened.avail] at inside
    exact inside
  refine ⟨fun b hb => ?_, fun b hlink => ?_, fun r st' run => ?_, fun st' run b hb hlink => ?_⟩
  · rw [log] at hb
    rcases List.mem_cons.1 hb with rfl | hb
    · exact enters
    · exact (entered b hb).1
  · rw [log]
    by_cases hbn : b = node
    · subst hbn
      have absent : b ∉ loop.log := fun hb => (entered b hb).2 rfl
      rw [List.count_cons_self, List.count_eq_zero.2 absent]
    · rw [List.count_cons_of_ne (Ne.symm hbn)]
      exact scans.once b (same ▸ hlink)
  · obtain ⟨st₂, hloop, hnodes⟩ := result r st' run
    rw [hnodes]
    exact opened.unmark (scans.frame r st₂ hloop)
  · obtain ⟨st₂, hloop, hnodes⟩ := result none st' run
    rw [hnodes]
    intro carries
    have carries₂ := carries_mark carries
    rw [log] at hb
    rcases List.mem_cons.1 hb with rfl | hb
    · exact own st₂ hloop hlink carries₂
    · exact scans.cleared st₂ hloop b hb (same ▸ hlink) carries₂

theorem generateReferencesChainForNodeLogged_once (env : Agent Obj)
    (objectsWithTag : ℕ → List Obj) (fuel node leakNumber : ℕ) (st : ChainState Obj) :
    ScansOnce env.gdata objectsWithTag leakNumber st
      (generateReferencesChainForNodeLogged env objectsWithTag fuel node leakNumber st) := by
  induction fuel generalizing node st with
  | zero =>
    refine .of_log_nil rfl fun r st' run => ?_
    cases run
  | succ fuel ih =>
    rw [generateReferencesChainForNodeLogged]
    rcases hread : deref st.nodes node with e | nd
    · refine .of_log_nil rfl fun r st' run => ?_
      cases run
    rw [Logged.lift_ok_bind]
    have hnd := deref_eq_ok.1 hread
    split_ifs with hvis hcarry
    · refine .of_log_nil rfl fun r st' run => ?_
      cases run
      exact .refl _
    · refine .of_log_nil rfl fun r st' run => ?_
      cases run
      exact .refl _
    have fresh : nd.visited = false := by simpa using hvis
    have hmark : (mark true st.nodes node).get? node = some { nd with visited := true } := by
      simp [mark, hnd]
    show ScansOnce _ _ _ _ (liftM (fillClassInMemoryNode env.jvm objectsWithTag node
      (mark true st.nodes node)) >>= _)
    rcases hfill : fillClassInMemoryNode env.jvm objectsWithTag node (mark true st.nodes node)
      with e | nodes₁
    · refine .of_log_nil rfl fun r st' run => ?_
      cases run
    have opened : Opened objectsWithTag leakNumber node nd st.nodes nodes₁ :=
      ⟨hnd, fresh, fillClassInMemoryNode_filled leakNumber hmark hfill⟩
    obtain ⟨nd₁, hnd₁, -, hdead, nframe⟩ := opened.filled.node
    rw [Logged.lift_ok_bind, deref_eq_ok.2 hnd₁, Logged.lift_ok_bind]
    have hstart : nd₁.start = referencesOf st.nodes node := by
      simp [referencesOf, hnd, nframe.start]
    have live : nd₁.dead = !nd.live objectsWithTag node := hdead
    dsimp only
    split_ifs with halive
    · -- the list of a live node is scanned
      have enters : node ∈ avail objectsWithTag leakNumber st.nodes :=
        ⟨nd, hnd, fresh, by simpa using hcarry, by simpa [live] using halive⟩
      obtain ⟨scans, own⟩ := scanReferencesLogged_once env.gdata ih node nd₁.start
        { st with nodes := nodes₁ }
      rw [Logged.emit_bind]
      refine .enter enters opened scans (fun st' run hlink => ?_)
        (congrArg _ (Logged.log_bind_pure _ _)) fun r st' run => ?_
      · exact own st' run (hstart ▸ hlink)
      · rw [Logged.result_bind] at run
        obtain ⟨⟨r₂, st₂⟩, hloop, hrest⟩ := Run.bind_eq_ok.1 run
        cases hrest
        exact ⟨st₂, hloop, rfl⟩
    · refine .of_log_nil rfl fun r st' run => ?_
      cases run
      exact opened.unmark (.refl _)

/-! ## The whole search -/

/-- However the nodes are linked, a search scans no list with a link twice, and so no more such lists
than there are nodes. -/
theorem scannedOnce (env : Agent Obj) (objectsWithTag : ℕ → List Obj) (fuel node leakNumber : ℕ)
    (st : ChainState Obj) :
    (∀ b, HasLink env.gdata (referencesOf st.nodes b) →
      (generateReferencesChainForNodeLogged env objectsWithTag fuel node leakNumber
        st).log.count b ≤ 1) ∧
    ((generateReferencesChainForNodeLogged env objectsWithTag fuel node leakNumber
      st).log.filter fun b => HasLink env.gdata (referencesOf st.nodes b)).length ≤
      st.nodes.dom.card := by
  have scans := generateReferencesChainForNodeLogged_once env objectsWithTag fuel node leakNumber st
  refine ⟨scans.once, Logged.length_filter_le_card (fun b hb => ?_) scans.once⟩
  obtain ⟨nd, hnd, -⟩ := scans.entered b hb
  exact st.nodes.mem_dom_of_get? hnd

end JLeaker
