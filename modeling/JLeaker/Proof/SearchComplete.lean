import JLeaker.Proof.ClassNodes
import JLeaker.Proof.FanIn
import JLeaker.Proof.Finished

/-!
# Completeness of the search

A label moves on by one reference in every pass: the reference from an object with the label is
reported, and its referrer gets the label or has it already.  So after as many passes as a path is
long either the leak is finished or the whole path is recorded; and a pass that finds nothing new
for a leak shows that every path from it is recorded already.  The step fails where the callback
returns for a known reference before it hands on a label that came later, and where the referrer's
set is too small for the label.
-/

namespace JLeaker

open DeadEnds

variable {Obj : Type} [DecidableEq Obj]

/-! ## Paths in the heap -/

/-- A local reference. -/
def HeapReferenceKind.isLocal : HeapReferenceKind → Bool
  | .stackLocal | .jniLocal => true
  | _ => false

/-- A path of `n` references leads from the object through non-class objects to a root reference
that is not local. -/
inductive RootPath (jvm : Jvm Obj) (refs : List (HeapReference Obj)) : ℕ → Obj → Prop
  | root {r : HeapReference Obj} (mem : r ∈ refs) (root : isRootReference r.kind = true)
      (notLocal : r.kind.isLocal = false) (object : jvm.classOf r.referee ≠ jvm.classClass) :
      RootPath jvm refs 1 r.referee
  | step {r : HeapReference Obj} {o : Obj} {n : ℕ} (mem : r ∈ refs) (referrer : r.referrer = some o)
      (object : jvm.classOf r.referee ≠ jvm.classClass) (rest : RootPath jvm refs n o) :
      RootPath jvm refs (n + 1) r.referee

/-! ## The conditions on a report -/

/-- The referrer's set has room for every label the report hands on. -/
def LabelsFit (env : Agent Obj) (s : Search Obj) (r : HeapReference Obj) : Prop :=
  ∀ thisNode, Records env s r thisNode → ∀ o refNode, r.referrer = some o →
    s.nodes.get? (s.tags o) = some refNode → ∀ l, thisNode.leaksRelated.bit l = true →
      s.leaksFinished.bit l = false → l < refNode.leaksRelated.size

/-- When the callback returns because it knows the reference, and the reference is not a root, the
referrer has all labels it would be handed. -/
def NoLateLabel (env : Agent Obj) (s : Search Obj) (r : HeapReference Obj) : Prop :=
  ∀ thisNode, Reported env s r → Passes env s r thisNode → ¬ DropsByClass env s r thisNode →
    isRootReference r.kind = false → ∀ o refNode, r.referrer = some o →
      s.nodes.get? (s.tags o) = some refNode →
      hasReferenceBetweenObjects thisNode (s.tags o) r.kind r.info = true →
      ∀ l, thisNode.leaksRelated.bit l = true → s.leaksFinished.bit l = false →
        refNode.leaksRelated.bit l = true

/-- What completeness needs of every report. -/
structure HandsOn (env : Agent Obj) (s : Search Obj) (r : HeapReference Obj) : Prop where
  considered : RecordsConsidered env s r
  fit : LabelsFit env s r
  late : NoLateLabel env s r

theorem LabelsFit.inside {env : Agent Obj} {s : Search Obj} {r : HeapReference Obj}
    (fit : LabelsFit env s r) : LabelsInside env s r :=
  fun thisNode records o refNode ho hnd l hbit hfin _ => fit thisNode records o refNode ho hnd l
    hbit hfin

/-! ## What a report keeps -/

/-- The object has the label of leak `l`. -/
def Labelled (s : Search Obj) (l : ℕ) (o : Obj) : Prop := Marked s.nodes l (s.tags o)

omit [DecidableEq Obj] in
theorem Labelled.tag_ne_zero {s : Search Obj} {l : ℕ} {o : Obj} (labelled : Labelled s l o) :
    s.tags o ≠ 0 :=
  s.nodes.ne_zero_of_mem (Marked.mem_dom labelled)

/-- The invariants that completeness uses. -/
structure Searching (numberOfLeaks : ℕ) (jvm : Jvm Obj) (loadedClasses : List Obj)
    (s : Search Obj) : Prop where
  ok : SearchOk numberOfLeaks s
  clean : AllClean s.nodes
  classes : ClassesTagged jvm (fun _ => []) loadedClasses s.toAgentState
  nothingIgnored : ∀ a nd, s.nodes.get? a = some nd → nd.ignoreFields = []

section Report

variable {env : Agent Obj} {s s' : Search Obj} {r : HeapReference Obj} {l : ℕ} {o : Obj}

theorem referencesOf_subset_outcome (out : Outcome env s r s') (a : ℕ) :
    referencesOf s.nodes a ⊆ referencesOf s'.nodes a := by
  cases out with
  | skipped => exact List.Subset.refl _
  | dropped =>
    rw [referencesOf_countFanIn]
    exact List.Subset.refl _
  | recorded thisNode records => exact referencesOf_subset_recorded env records.node a

theorem Marked.outcome {a : ℕ} (marked : Marked s.nodes l a) (out : Outcome env s r s') :
    Marked s'.nodes l a := by
  cases out with
  | skipped => exact marked
  | dropped => exact marked_countFanIn.2 marked
  | recorded thisNode records => exact marked.recorded records.node

theorem Labelled.outcome (labelled : Labelled s l o) (out : Outcome env s r s') :
    Labelled s' l o := by
  unfold Labelled
  rw [ClassesTagged.tags_outcome out labelled.tag_ne_zero]
  exact Marked.outcome labelled out

theorem finished_outcome (finished : s.leaksFinished.bit l = true) (out : Outcome env s r s') :
    s'.leaksFinished.bit l = true := by
  cases out with
  | skipped => exact finished
  | dropped => exact finished
  | recorded thisNode =>
    simp only [Search.recorded]
    split_ifs
    · rw [BitmaskSet.bit_addAll, finished, Bool.true_or]
    · exact finished

theorem Searching.outcome {numberOfLeaks : ℕ} {loadedClasses : List Obj}
    (searching : Searching numberOfLeaks env.jvm loadedClasses s) (fit : LabelsFit env s r)
    (out : Outcome env s r s') : Searching numberOfLeaks env.jvm loadedClasses s' := by
  refine ⟨searching.ok.outcome out, ?_, searching.classes.outcome out, fun a nd' h => ?_⟩
  · cases out with
    | skipped => exact searching.clean
    | dropped => exact searching.clean.countFanIn
    | recorded thisNode records => exact searching.clean.recorded searching.ok records fit.inside
  · cases out with
    | skipped => exact searching.nothingIgnored a nd' h
    | dropped =>
      rw [get?_countFanIn, Option.map_eq_some_iff] at h
      obtain ⟨nd, hnd, rfl⟩ := h
      exact searching.nothingIgnored a nd hnd
    | recorded thisNode records =>
      obtain ⟨nd, rfl, hnd | ⟨_, rfl⟩⟩ := get?_recorded_eq_some records.node h
      · exact searching.nothingIgnored a nd hnd
      · rfl

end Report

/-! ## One reference -/

/-- The reference is recorded, and its referrer has the label unless the reference is a root. -/
def HandedOn (g : GlobalData) (s : Search Obj) (l : ℕ) (r : HeapReference Obj) : Prop :=
  if isRootReference r.kind then HoldsRoot g (referencesOf s.nodes) (s.tags r.referee)
  else ∃ o, r.referrer = some o ∧ Labelled s l o ∧
    LinkedTo g (referencesOf s.nodes) (s.tags r.referee) (s.tags o)

theorem HandedOn.outcome {env : Agent Obj} {s s' : Search Obj} {r r' : HeapReference Obj} {l : ℕ}
    (labelled : Labelled s l r'.referee) (handed : HandedOn env.gdata s l r')
    (out : Outcome env s r s') : HandedOn env.gdata s' l r' := by
  unfold HandedOn at handed ⊢
  rw [ClassesTagged.tags_outcome out labelled.tag_ne_zero]
  split_ifs at handed ⊢
  · exact handed.mono (referencesOf_subset_outcome out)
  · obtain ⟨o, ho, hlab, hlink⟩ := handed
    refine ⟨o, ho, hlab.outcome out, ?_⟩
    rw [ClassesTagged.tags_outcome out hlab.tag_ne_zero]
    exact hlink.mono (referencesOf_subset_outcome out)

omit [DecidableEq Obj] in
theorem notLocal_considered (g : GlobalData) {kind : HeapReferenceKind}
    (notLocal : kind.isLocal = false) : shouldConsiderThisReference g kind = true := by
  revert notLocal
  cases kind <;> simp [HeapReferenceKind.isLocal, shouldConsiderThisReference]

omit [DecidableEq Obj] in
theorem notLocal_ofThisThread (threadId : ℤ) {kind : HeapReferenceKind}
    (info : Option HeapReferenceInfo) (notLocal : kind.isLocal = false) :
    localReferenceOfThisThread threadId kind info = false := by
  revert notLocal
  cases kind <;> simp [HeapReferenceKind.isLocal, localReferenceOfThisThread]

section Hop

variable {env : Agent Obj} {s s' : Search Obj} {r : HeapReference Obj} {l numberOfLeaks : ℕ}
  {loadedClasses : List Obj} {thisNode : MemoryNode Obj}

omit [DecidableEq Obj] in
/-- Objects of loaded classes are reported. -/
theorem Searching.reported (searching : Searching numberOfLeaks env.jvm loadedClasses s)
    (loaded : ClassesLoaded env.jvm loadedClasses) (tagged : s.tags r.referee ≠ 0)
    (object : env.jvm.classOf r.referee ≠ env.jvm.classClass) : Reported env s r where
  tagged := tagged
  classTagged := by
    obtain ⟨nd, hnd, _⟩ := searching.classes.node _ (loaded.classOf_mem r.referee) object
    exact s.nodes.ne_zero_of_mem (s.nodes.mem_dom_of_get? hnd)

omit [DecidableEq Obj] in
theorem isFieldIgnored_of_nil {classNode : MemoryNode Obj} (nothing : classNode.ignoreFields = [])
    (thisNode : MemoryNode Obj) (index : ℤ) :
    isFieldIgnored classNode thisNode index = false := by
  simp [isFieldIgnored, nothing]

/-- Below the fan-in limit and without ignored fields a reference is dropped only when it is known. -/
theorem Searching.known_of_drops (searching : Searching numberOfLeaks env.jvm loadedClasses s)
    (below : BelowFanIn env s r) (reported : Reported env s r)
    (hthis : s.nodes.get? (s.tags r.referee) = some thisNode)
    (drops : DropsByClass env s r thisNode ∨ DropsByReferrer s r thisNode) :
    ¬ DropsByClass env s r thisNode ∧ ∃ o refNode, r.referrer = some o ∧
      s.nodes.get? (s.tags o) = some refNode ∧
      hasReferenceBetweenObjects thisNode (s.tags o) r.kind r.info = true := by
  have byClass : ¬ DropsByClass env s r thisNode := by
    rintro ⟨classNode, _, hnode, hlimit | ⟨_, hignored⟩⟩
    · exact absurd (below reported _ _ hthis hnode) (not_lt.2 hlimit)
    · rw [isFieldIgnored_of_nil (searching.nothingIgnored _ _ hnode)] at hignored
      cases hignored
  refine ⟨byClass, ?_⟩
  rcases drops with h | ⟨o, refNode, ho, _, hnode, ⟨_, hignored⟩ | hknown⟩
  · exact absurd h byClass
  · rw [isFieldIgnored_of_nil (searching.nothingIgnored _ _ hnode)] at hignored
    cases hignored
  · exact ⟨o, refNode, ho, hnode, hknown⟩

omit [DecidableEq Obj] in
/-- A known reference is among the records. -/
theorem exists_record_of_known
    (hthis : s.nodes.get? (s.tags r.referee) = some thisNode) {a : ℕ}
    (known : hasReferenceBetweenObjects thisNode a r.kind r.info = true) :
    ∃ ref ∈ referencesOf s.nodes (s.tags r.referee), ref.kind = r.kind ∧ ref.node = some a := by
  simp only [hasReferenceBetweenObjects, List.any_eq_true, Bool.and_eq_true, beq_iff_eq] at known
  obtain ⟨ref, href, ⟨hkind, _⟩, hnode⟩ := known
  exact ⟨ref, by simpa [referencesOf, hthis] using href, hkind, hnode⟩

/-- The referrer of a recorded reference has the label afterwards. -/
theorem Searching.labelled_recorded (searching : Searching numberOfLeaks env.jvm loadedClasses s)
    (fit : LabelsFit env s r) (records : Records env s r thisNode)
    (hbit : thisNode.leaksRelated.bit l = true) (unfinished : s.leaksFinished.bit l = false)
    {o : Obj} (ho : r.referrer = some o) : Labelled (s.recorded env r thisNode) l o := by
  have href := refNodeOf_eq_tags env s thisNode ho
  have hmark : ∀ nd, (grownHeap env s r).get? ((s.recorded env r thisNode).tags o) = some nd →
      l < nd.leaksRelated.size → Labelled (s.recorded env r thisNode) l o := by
    intro nd hnd hlt
    refine ⟨_, by rw [get?_recorded records.node, hnd, Option.map_some], ?_⟩
    exact (bit_recordedNode _ _ _ _ _ _ _).2
      (.inr ⟨href, hbit, unfinished, Nat.div_le_div_right hlt.le⟩)
  by_cases htag : s.tags o = 0
  · have haddr : (s.recorded env r thisNode).tags o = s.nodes.fresh env.malloc := by
      simp [Search.recorded, ho, htag]
    refine hmark (newMemoryNode s.numberOfLeaks)
      (get?_grownHeap.2 (.inr ⟨⟨o, ho, htag, haddr⟩, rfl⟩)) ?_
    have hlt := searching.clean _ _ records.node l hbit
    have hle := (searching.ok.node _ _ records.node).size
    simp only [newMemoryNode, BitmaskSet.size_new, searching.ok.number]
    omega
  · have haddr : (s.recorded env r thisNode).tags o = s.tags o := by
      simp [Search.recorded, ho, htag]
    obtain ⟨nd, hnd⟩ := s.nodes.exists_get?_of_mem (searching.ok.tagged.mem o htag)
    exact hmark nd (get?_grownHeap.2 (.inl (haddr ▸ hnd)))
      (fit thisNode records o nd ho hnd l hbit unfinished)

/-- A report of a reference from an object with the label hands it on or meets a finished leak. -/
theorem Searching.handedOn (searching : Searching numberOfLeaks env.jvm loadedClasses s)
    (loaded : ClassesLoaded env.jvm loadedClasses) (handsOn : HandsOn env s r)
    (below : BelowFanIn env s r) (notLocal : r.kind.isLocal = false)
    (object : env.jvm.classOf r.referee ≠ env.jvm.classClass) (labelled : Labelled s l r.referee)
    (out : Outcome env s r s') :
    s'.leaksFinished.bit l = true ∨ HandedOn env.gdata s' l r := by
  by_cases finished : s.leaksFinished.bit l = true
  · exact .inl (finished_outcome finished out)
  have unfinished : s.leaksFinished.bit l = false := by simpa using finished
  have tagged := labelled.tag_ne_zero
  obtain ⟨thisNode, hthis, hbit⟩ := labelled
  have passes : Passes env s r thisNode :=
    searching.ok.passes hthis hbit unfinished (notLocal_ofThisThread _ _ notLocal)
  have reported := searching.reported loaded tagged object
  have considered := notLocal_considered env.gdata notLocal
  refine .inr ?_
  cases out with
  | skipped idle => exact absurd passes (idle reported thisNode)
  | dropped nd reported' passes' classTag drops =>
    obtain rfl : thisNode = nd := Option.some.inj (hthis.symm.trans passes'.node)
    obtain ⟨byClass, o, refNode, ho, hnode, hknown⟩ :=
      searching.known_of_drops below reported hthis drops
    obtain ⟨ref, href, hkind, haddr⟩ := exists_record_of_known hthis hknown
    refine HandedOn.outcome ⟨thisNode, hthis, hbit⟩ ?_
      (.dropped thisNode reported' passes' classTag drops)
    unfold HandedOn
    split_ifs with hroot
    · exact ⟨ref, href, hkind ▸ considered, hkind ▸ hroot⟩
    · have hroot' : isRootReference r.kind = false := by simpa using hroot
      exact ⟨o, ho, ⟨refNode, hnode, handsOn.late thisNode reported passes byClass hroot' o refNode
        ho hnode hknown l hbit unfinished⟩, ref, href, hkind ▸ considered, hkind ▸ hroot', haddr⟩
  | recorded nd records classTag referrerTag =>
    obtain rfl : thisNode = nd := Option.some.inj (hthis.symm.trans records.node)
    have hnew := newReferer_mem_recorded env records.node
    have htag : (s.recorded env r thisNode).tags r.referee = s.tags r.referee :=
      ClassesTagged.tags_outcome (.recorded thisNode records classTag referrerTag)
        tagged
    unfold HandedOn
    rw [htag]
    split_ifs with hroot
    · exact ⟨_, hnew, considered, hroot⟩
    · have hroot' : isRootReference r.kind = false := by simpa using hroot
      rcases ho : r.referrer with _ | o
      · rw [isRootReference_of_referrer_eq_none ho] at hroot'
        cases hroot'
      · exact ⟨o, rfl, searching.labelled_recorded handsOn.fit records hbit unfinished ho, _, hnew,
          considered, hroot', refNodeOf_eq_tags env s thisNode ho⟩

end Hop

/-! ## One pass -/

section Pass

variable {env : Agent Obj} {s₀ s s' t : Search Obj} {r : HeapReference Obj} {l numberOfLeaks : ℕ}
  {loadedClasses : List Obj}

/-- What completeness needs of every report, the fan-in limit included. -/
def HandsOnBelow (env : Agent Obj) (s : Search Obj) (r : HeapReference Obj) : Prop :=
  HandsOn env s r ∧ BelowFanIn env s r

/-- The object has the label, and the reference from it is recorded. -/
def Settled (g : GlobalData) (l : ℕ) (r : HeapReference Obj) (s : Search Obj) : Prop :=
  Labelled s l r.referee ∧ HandedOn g s l r

theorem Settled.outcome {r' : HeapReference Obj} (settled : Settled env.gdata l r' s)
    (out : Outcome env s r s') : Settled env.gdata l r' s' :=
  ⟨settled.1.outcome out, settled.2.outcome settled.1 out⟩

/-- A pass hands the label on along every reference from an object that has it. -/
theorem pass_settled (searching : Searching numberOfLeaks env.jvm loadedClasses s)
    (loaded : ClassesLoaded env.jvm loadedClasses) {rs : List (HeapReference Obj)} (mem : r ∈ rs)
    (meets : Run.Meets (reportReference env) (HandsOnBelow env) s rs)
    (notLocal : r.kind.isLocal = false)
    (object : env.jvm.classOf r.referee ≠ env.jvm.classClass) (labelled : Labelled s l r.referee)
    (run : rs.foldlM (reportReference env) s = .ok t) :
    t.leaksFinished.bit l = true ∨ Settled env.gdata l r t := by
  refine Run.foldlM_reaches (P := HandsOnBelow env)
    (I := Searching numberOfLeaks env.jvm loadedClasses) (A := fun s => Labelled s l r.referee)
    (B := fun s => s.leaksFinished.bit l = true ∨ Settled env.gdata l r s)
    ?_ ?_ ?_ ?_ mem meets searching labelled run
  · intro s r s' h cond hrun
    exact h.outcome cond.1.fit (reportReference_outcome hrun)
  · intro s r s' _ _ h hrun
    exact h.outcome (reportReference_outcome hrun)
  · intro s r s' _ _ h hrun
    have out := reportReference_outcome hrun
    exact h.imp (fun h => finished_outcome h out) fun h => h.outcome out
  · intro s s' h cond hlab hrun
    have out := reportReference_outcome hrun
    exact (h.handedOn loaded cond.1 cond.2 notLocal object hlab out).imp_right fun handed =>
      ⟨hlab.outcome out, handed⟩

omit [DecidableEq Obj] in
/-- A reference with a referrer is not local. -/
theorem notLocal_of_referrer {o : Obj} (ho : r.referrer = some o) : r.kind.isLocal = false := by
  have hroot : r.kind.isHeapRoot = false := by
    rw [← r.referrer_isNone, ho]
    rfl
  revert hroot
  cases r.kind <;> simp [HeapReferenceKind.isHeapRoot, HeapReferenceKind.isLocal]

theorem countNodesFound_getD (leaks finished : BitmaskSet) {found : List ℕ}
    (hl : l < found.length) : (countNodesFound leaks finished found).getD l 0 =
      if leaks.contains l && !finished.contains l then found.getD l 0 + 1 else found.getD l 0 := by
  simp [countNodesFound, List.getD, hl]

/-- A label inside the set of the referenced node is counted. -/
theorem SearchOk.counted {thisNode : MemoryNode Obj} (ok : SearchOk numberOfLeaks s)
    (hthis : s.nodes.get? (s.tags r.referee) = some thisNode)
    (hl : thisNode.leaksRelated.contains l = true) (unfinished : s.leaksFinished.bit l = false) :
    0 < (s.recorded env r thisNode).nodesFound.getD l 0 := by
  obtain ⟨hlt, hbit⟩ := (BitmaskSet.contains_iff _ l).1 hl
  have hlen : l < s.nodesFound.length := by
    rw [ok.found]
    exact hlt.trans_le (ok.node _ _ hthis).size
  have hhas : (leaksAfter env s r thisNode).contains l = true := by
    rw [BitmaskSet.contains_iff, size_leaksAfter, bit_leaksAfter]
    exact ⟨hlt, hbit⟩
  have hnot : s.leaksFinished.contains l = false := by
    rw [Bool.eq_false_iff, ne_eq, BitmaskSet.contains_iff, unfinished]
    simp
  simp only [Search.recorded, countNodesFound_getD _ _ hlen, hhas, hnot]
  simp

/-- What is counted stays so. -/
theorem counted_recorded {thisNode : MemoryNode Obj} (counted : 0 < s.nodesFound.getD l 0) :
    0 < (s.recorded env r thisNode).nodesFound.getD l 0 := by
  have hlen : l < s.nodesFound.length := by
    by_contra hge
    rw [List.getD_eq_default _ _ (not_lt.1 hge)] at counted
    omega
  simp only [Search.recorded, countNodesFound_getD _ _ hlen]
  split_ifs <;> omega

/-- No object has gained the label since `s₀` unless the leak is finished or was counted. -/
def Quiet (s₀ : Search Obj) (l : ℕ) (s : Search Obj) : Prop :=
  s.leaksFinished.bit l = true ∨ 0 < s.nodesFound.getD l 0 ∨
    ∀ o, Labelled s l o → Labelled s₀ l o

/-- A label that the report does not hand on was there before. -/
theorem Labelled.of_recorded {thisNode : MemoryNode Obj} {o : Obj}
    (records : Records env s r thisNode) (classTag : ClassTagOk env s r)
    (referrerTag : ReferrerTagOk s r) (labelled : Labelled (s.recorded env r thisNode) l o)
    (still : ¬ (thisNode.leaksRelated.bit l = true ∧ s.leaksFinished.bit l = false)) :
    Labelled s l o := by
  rcases marked_recorded_cases records.node labelled with h | ⟨_, ⟨nd, hnd, hbit⟩, hfin⟩
  · by_cases htag : s.tags o = 0
    · have hmem := Marked.mem_dom h
      have htags : (s.recorded env r thisNode).tags o = 0 ∨
          (s.recorded env r thisNode).tags o = s.nodes.fresh env.malloc := by
        simp only [Search.recorded]
        rcases r.referrer with _ | o'
        · exact .inl htag
        · by_cases ho : o = o'
          · subst ho
            simp [htag]
          · by_cases htag' : s.tags o' = 0 <;> simp [htag, htag', Function.update_of_ne ho]
      rcases htags with h0 | hfresh
      · exact absurd h0 (s.nodes.ne_zero_of_mem hmem)
      · exact absurd hfresh (s.nodes.ne_fresh_of_mem _ hmem)
    · rwa [ClassesTagged.tags_outcome (.recorded thisNode records classTag referrerTag) htag] at h
  · obtain rfl : nd = thisNode := Option.some.inj (hnd.symm.trans records.node)
    exact absurd ⟨hbit, hfin⟩ still

theorem Quiet.outcome (searching : Searching numberOfLeaks env.jvm loadedClasses s)
    (quiet : Quiet s₀ l s) (out : Outcome env s r s') : Quiet s₀ l s' := by
  rcases quiet with h | h | h
  · exact .inl (finished_outcome h out)
  · cases out with
    | skipped => exact .inr (.inl h)
    | dropped => exact .inr (.inl h)
    | recorded => exact .inr (.inl (counted_recorded h))
  · cases out with
    | skipped => exact .inr (.inr h)
    | dropped => exact .inr (.inr fun o ho => h o (marked_countFanIn.1 ho))
    | recorded thisNode records classTag referrerTag =>
      by_cases handed : thisNode.leaksRelated.bit l = true ∧ s.leaksFinished.bit l = false
      · have inside := ((searching.clean _ _ records.node).contains_iff l).2 handed.1
        exact .inr (.inl (searching.ok.counted records.node inside handed.2))
      · exact .inr (.inr fun o ho => h o (ho.of_recorded records classTag referrerTag handed))

/-- A pass that counts nothing new for an unfinished leak labels no object. -/
theorem pass_quiet (searching : Searching numberOfLeaks env.jvm loadedClasses s)
    {rs : List (HeapReference Obj)}
    (meets : Run.Meets (reportReference env) (HandsOnBelow env) s rs)
    (run : rs.foldlM (reportReference env) s = .ok t) (unfinished : ¬ t.leaksFinished.bit l = true)
    (counted : t.nodesFound.getD l 0 = 0) : ∀ o, Labelled t l o → Labelled s l o := by
  have quiet : Quiet s l t := (Run.foldlM_invariant
    (I := fun t => Searching numberOfLeaks env.jvm loadedClasses t ∧ Quiet s l t)
    (fun s r s' h cond hrun =>
      have out := reportReference_outcome hrun
      ⟨h.1.outcome cond.1.fit out, h.2.outcome h.1 out⟩)
    meets ⟨searching, .inr (.inr fun _ h => h)⟩ run).2
  rcases quiet with h | h | h
  · exact absurd h unfinished
  · omega
  · exact h

end Pass

/-! ## All passes -/

section Passes

variable {env : Agent Obj} {s s' t : Search Obj} {r : HeapReference Obj} {l numberOfLeaks : ℕ}
  {loadedClasses : List Obj} {refs : List (HeapReference Obj)}

/-- The object's node leads to a root through nodes with the label. -/
def LeadsToRoot (g : GlobalData) (s : Search Obj) (l : ℕ) (o : Obj) : Prop :=
  Leads (LinkedTo g (referencesOf s.nodes)) (HoldsRoot g (referencesOf s.nodes)) (marks s.nodes l)
    (s.tags o)

omit [DecidableEq Obj] in
theorem Settled.leadsToRoot {g : GlobalData} (settled : Settled g l r s)
    (rest : isRootReference r.kind = false → ∀ o, r.referrer = some o → LeadsToRoot g s l o) :
    LeadsToRoot g s l r.referee := by
  obtain ⟨labelled, handed⟩ := settled
  unfold HandedOn at handed
  split_ifs at handed with hroot
  · exact .here labelled handed
  · obtain ⟨o, ho, _, hlink⟩ := handed
    exact .step labelled hlink (rest (by simpa using hroot) o ho)

omit [DecidableEq Obj] in
theorem Settled.labelled_referrer {g : GlobalData} (settled : Settled g l r s)
    (hroot : isRootReference r.kind = false) {o : Obj} (ho : r.referrer = some o) :
    Labelled s l o := by
  obtain ⟨_, handed⟩ := settled
  unfold HandedOn at handed
  rw [if_neg (by simp [hroot])] at handed
  obtain ⟨o', ho', hlab, _⟩ := handed
  obtain rfl : o' = o := Option.some.inj (ho'.symm.trans ho)
  exact hlab

/-- After a pass that labels no object every path from a labelled object is recorded. -/
theorem leadsToRoot_of_quiet (searching : Searching numberOfLeaks env.jvm loadedClasses s)
    (loaded : ClassesLoaded env.jvm loadedClasses) {rs : List (HeapReference Obj)}
    (all : ∀ r ∈ refs, r ∈ rs) (meets : Run.Meets (reportReference env) (HandsOnBelow env) s rs)
    (run : rs.foldlM (reportReference env) s = .ok t) (unfinished : ¬ t.leaksFinished.bit l = true)
    (quiet : ∀ o, Labelled t l o → Labelled s l o) {k : ℕ} {x : Obj}
    (path : RootPath env.jvm refs k x) (labelled : Labelled s l x) :
    LeadsToRoot env.gdata t l x := by
  induction path with
  | root mem root notLocal object =>
    have settled := (pass_settled searching loaded (all _ mem) meets notLocal object labelled
      run).resolve_left unfinished
    refine settled.leadsToRoot fun hroot => ?_
    rw [root] at hroot
    cases hroot
  | step mem referrer object _ ih =>
    have settled := (pass_settled searching loaded (all _ mem) meets (notLocal_of_referrer referrer)
      object labelled run).resolve_left unfinished
    refine settled.leadsToRoot fun hroot o ho => ?_
    obtain rfl := Option.some.inj (referrer.symm.trans ho)
    exact ih (quiet _ (settled.labelled_referrer hroot ho))

/-- What a pass has settled stays so. -/
theorem iterations_keep {order : ℕ → List (HeapReference Obj)} {n i : ℕ}
    (run : heapIterations env order n i s = .ok s') :
    (s.leaksFinished.bit l = true → s'.leaksFinished.bit l = true) ∧
      (Settled env.gdata l r s → Settled env.gdata l r s') := by
  refine ⟨fun h => ?_, fun h => ?_⟩
  · exact heapIterations_invariant (I := fun s => s.leaksFinished.bit l = true)
      (fun _ h => h) (fun _ _ _ h _ hrun => finished_outcome h (reportReference_outcome hrun))
      (iterationsMeet_of_forall (P := fun _ _ => True) (fun _ _ _ _ => trivial) n i s) h run
  · exact heapIterations_invariant (I := Settled env.gdata l r)
      (fun _ h => h) (fun _ _ _ h _ hrun => h.outcome (reportReference_outcome hrun))
      (iterationsMeet_of_forall (P := fun _ _ => True) (fun _ _ _ _ => trivial) n i s) h run

omit [DecidableEq Obj] in
theorem hasUnfinished_eq_false (h : s.hasUnfinished = false) (hl : l < s.numberOfLeaks)
    (unfinished : ¬ s.leaksFinished.bit l = true) : s.nodesFound.getD l 0 = 0 := by
  simp only [Search.hasUnfinished, List.any_eq_false, List.mem_range] at h
  have := h l hl
  simp only [Bool.not_eq_true', Bool.not_eq_false, Bool.or_eq_true, beq_iff_eq] at this
  rcases this with h | h
  · exact absurd ((BitmaskSet.contains_iff _ _).1 h).2 unfinished
  · exact h

/-- With as many passes left as a path from a labelled object is long, the leak gets finished or the
path gets recorded. -/
theorem heapIterations_leadsToRoot (loaded : ClassesLoaded env.jvm loadedClasses)
    {order : ℕ → List (HeapReference Obj)} (all : ∀ i, ∀ r ∈ refs, r ∈ order i)
    (hl : l < numberOfLeaks) {n i : ℕ}
    (searching : Searching numberOfLeaks env.jvm loadedClasses s)
    (meets : IterationsMeet env order (HandsOnBelow env) n i s)
    (run : heapIterations env order n i s = .ok s') {k : ℕ} {x : Obj}
    (path : RootPath env.jvm refs k x) (hk : k ≤ n) (labelled : Labelled s l x) :
    s'.leaksFinished.bit l = true ∨ LeadsToRoot env.gdata s' l x := by
  induction n generalizing i s k x with
  | zero => cases path <;> omega
  | succ n ih =>
    obtain ⟨t, hpass, hrest⟩ := heapIterations_succ_eq_ok.1 run
    have reset : Searching numberOfLeaks env.jvm loadedClasses s.resetNodesFound :=
      ⟨searching.ok.resetNodesFound, searching.clean, searching.classes, searching.nothingIgnored⟩
    have searching_t : Searching numberOfLeaks env.jvm loadedClasses t :=
      Run.foldlM_invariant (fun s r s' h cond hrun =>
        h.outcome cond.1.fit (reportReference_outcome hrun)) meets.1 reset hpass
    by_cases finished : t.leaksFinished.bit l = true
    · refine .inl ?_
      split_ifs at hrest
      · exact (iterations_keep (r := ⟨.thread, none, x, none, rfl⟩) hrest).1 finished
      · exact hrest ▸ finished
    by_cases hunfinished : t.hasUnfinished = true
    · rw [if_pos hunfinished] at hrest
      cases path with
      | root mem root notLocal object =>
        have settled := (pass_settled reset loaded (all i _ mem) meets.1 notLocal object labelled
          hpass).resolve_left finished
        refine .inr (((iterations_keep hrest).2 settled).leadsToRoot fun hroot => ?_)
        rw [root] at hroot
        cases hroot
      | @step r o k mem referrer object rest =>
        have settled := (pass_settled reset loaded (all i _ mem) meets.1
          (notLocal_of_referrer referrer) object labelled hpass).resolve_left finished
        have settled' := (iterations_keep hrest).2 settled
        by_cases hroot : isRootReference r.kind = true
        · refine .inr (settled'.leadsToRoot fun h => ?_)
          rw [hroot] at h
          cases h
        · have hroot' : isRootReference r.kind = false := by simpa using hroot
          refine (ih searching_t (meets.2 t hpass hunfinished) hrest rest (by omega)
            (settled.labelled_referrer hroot' referrer)).imp_right fun leads => ?_
          refine settled'.leadsToRoot fun _ o' ho' => ?_
          obtain rfl := Option.some.inj (referrer.symm.trans ho')
          exact leads
    · rw [if_neg hunfinished] at hrest
      subst hrest
      have counted := hasUnfinished_eq_false (by simpa using hunfinished)
        (searching_t.ok.number.symm ▸ hl) finished
      exact .inr (leadsToRoot_of_quiet reset loaded (all i) meets.1 hpass finished
        (pass_quiet reset meets.1 hpass finished counted) path labelled)

end Passes

/-! ## All leaks of a dump -/

namespace Dump

variable (d : Dump Obj)

/-- The object a leak was found at. -/
def LeakingObject (leak : LeakingNode) (o : Obj) : Prop :=
  ∃ nd, d.start.nodes.get? leak.node = some nd ∧ nd.obj = some o

/-- A leaking object that is no class has the tag of its leak when the passes begin. -/
theorem tags_start (once : (d.candidates.map Prod.fst).Nodup)
    (loaded : ClassesLoaded d.agent.jvm d.loadedClasses) {leak : LeakingNode}
    (hleak : leak ∈ d.leaks) {o : Obj} (hobj : d.LeakingObject leak o)
    (object : d.agent.jvm.classOf o ≠ d.agent.jvm.classClass) : d.start.tags o = leak.node := by
  obtain ⟨k, hk, rfl⟩ := List.getElem_of_mem hleak
  have hnode := d.leaks_searched.node
  have hlen := hnode.length_eq
  have hk' : k < (leakingCandidates d.agent d.size d.candidates).length := by omega
  have hget := (List.forall₂_iff_get.1 hnode).2 k hk' hk
  have htag := (List.forall₂_iff_get.1 (d.leaks_searched.tag once)).2 k hk' hk
  simp only [List.get_eq_getElem] at hget htag
  obtain ⟨nd, hnd, hobj⟩ := hobj
  have hmem : d.leaks[k].node ∈ d.searched.2.nodes.dom := CHeap.mem_dom_of_get? _ hget.1
  have hsame : d.start.nodes.get? d.leaks[k].node = d.searched.2.nodes.get? d.leaks[k].node :=
    d.classNodes_tagged.old _ hmem
  rw [hsame, hget.1] at hnd
  obtain rfl := Option.some.inj hnd
  obtain rfl := Option.some.inj hobj
  rw [← htag]
  refine d.classNodes_tagged.others _ fun hclass => object ?_
  exact loaded.classOf_klass _ hclass

theorem searching_start (nothingIgnored : ∀ klass, d.ignoreFields klass = []) :
    Searching d.leaks.length d.agent.jvm d.loadedClasses d.start where
  ok := d.searchOk_start
  clean := d.allClean_start
  classes := by
    have hnil : d.ignoreFields = fun _ => [] := funext nothingIgnored
    exact hnil ▸ d.classesTagged_start
  nothingIgnored a nd h := by
    rcases d.node_cases h with ⟨leak, _, o, _, rfl⟩ | ⟨klass, _, _, rfl⟩
    · rfl
    · exact nothingIgnored klass

end Dump

omit [DecidableEq Obj] in
theorem RootPath.object {jvm : Jvm Obj} {refs : List (HeapReference Obj)} {k : ℕ} {o : Obj}
    (path : RootPath jvm refs k o) : jvm.classOf o ≠ jvm.classClass := by
  cases path <;> assumption

omit [DecidableEq Obj] in
theorem RootPath.pos {jvm : Jvm Obj} {refs : List (HeapReference Obj)} {k : ℕ} {o : Obj}
    (path : RootPath jvm refs k o) : 0 < k := by
  cases path <;> omega

/-- In every run whose reports hand on what they should, and in which `tagReferencesChain` returns, every
leaking object with a short enough path to a root reference gets a chain.  A run that ends in
`fatal_error` prints nothing. -/
theorem chain_of_rootPath (d : Dump Obj) {s : Search Obj} {refs : List (HeapReference Obj)}
    (loaded : ClassesLoaded d.agent.jvm d.loadedClasses)
    (once : (d.candidates.map Prod.fst).Nodup) (same : ∀ i, (d.order i).Perm refs)
    (limit : (d.callbacks : ℤ) < d.agent.gdata.maxFanIn)
    (nothingIgnored : ∀ klass, d.ignoreFields klass = []) (meets : d.Meets (HandsOn d.agent))
    (run : d.run = .ok s) {objectsWithTag : ℕ → List Obj} (alive : AllAlive objectsWithTag s.tags)
    {fuel : ℕ} (enough : s.nodes.dom.card < fuel) {leak : LeakingNode} (hleak : leak ∈ d.leaks)
    {o : Obj} (hobj : d.LeakingObject leak o) {k : ℕ} (path : RootPath d.agent.jvm refs k o)
    (hk : (k : ℤ) ≤ d.agent.gdata.referenceChainLength) :
    (∃ last st, generateReferencesChainForNode d.agent objectsWithTag fuel leak.node
      leak.leakNumber ⟨s.nodes, []⟩ = .ok (some last, st)) ∧
    ∃ chains st, d.chains objectsWithTag fuel s = .ok (chains, st) ∧
      ∀ chain, (leak, chain) ∈ d.leaks.zip chains → chain.isSome := by
  have traced := (d.traced_run (IterationsMeet.mono (fun s r h => ⟨h.considered, h.fit.inside⟩)
    meets) run).2
  have tag := d.tags_start once loaded hleak hobj path.object
  have labelled : Labelled d.start leak.leakNumber o := by
    unfold Labelled
    rw [tag]
    exact d.marked_leak hleak
  have tag_run : s.tags o = leak.node :=
    d.run_invariant (I := fun s => s.tags o = leak.node ∧ s.tags o ≠ 0) (fun _ h => h)
      (fun _ _ _ h _ hrun => by
        have := ClassesTagged.tags_outcome (reportReference_outcome hrun) h.2
        rw [this]
        exact h) d.meets_true ⟨tag, labelled.tag_ne_zero⟩ run |>.1
  have all : ∀ i, ∀ r ∈ refs, r ∈ d.order i := fun i r hr => (same i).mem_iff.2 hr
  have pos := path.pos
  apply d.chain_of_found run traced.clean alive enough (by omega) hleak
  rcases heapIterations_leadsToRoot loaded all (d.leakNumber_lt hleak)
    (d.searching_start nothingIgnored) (meets.and (d.belowFanIn limit)) run path (by omega)
    labelled with h | h
  · exact traced.finished leak hleak h
  · unfold LeadsToRoot at h
    rw [tag_run] at h
    exact h

theorem chain_of_rootPath_sharedHolder :
    ∃ s, Sample.sharedHolder.run = .ok s ∧
      ∃ last st, generateReferencesChainForNode Sample.sharedHolder.agent
        (Sample.objectsWithTag s.tags) (s.nodes.dom.card + 1) 1 0 ⟨s.nodes, []⟩ =
          .ok (some last, st) := by
  obtain ⟨s, run, _⟩ := Run.exists_ok_of_any (x := Sample.sharedHolder.run) (p := fun _ => true)
    (by decide +kernel)
  have hleak : (⟨1, 1000, 0⟩ : LeakingNode) ∈ Sample.sharedHolder.leaks := by
    rw [Sample.sharedHolder_leaks]
    exact List.mem_cons_self
  have path : RootPath Sample.sharedHolder.agent.jvm Sample.sharing 4 3 :=
    .step (r := Sample.field 3 8 0) (by simp [Sample.sharing]) rfl (by decide)
      (.step (r := Sample.field 8 9 0) (by simp [Sample.sharing]) rfl (by decide)
        (.step (r := Sample.field 9 10 0) (by simp [Sample.sharing]) rfl (by decide)
          (.root (r := Sample.staticField 10 2 0) (by simp [Sample.sharing]) rfl rfl (by decide))))
  -- both nodes of a reference exist in the second pass too, when the labels are not finished yet
  have meets : Sample.sharedHolder.Meets fun s r =>
      shouldConsiderThisReference Sample.gdata r.kind = true ∧
        Sample.testLabels s r (fun thisNode refNode l =>
          decide (l < refNode.leaksRelated.size) && (s.leaksFinished.bit l ||
            !hasReferenceBetweenObjects thisNode ((r.referrer.map s.tags).getD 0) r.kind r.info ||
              refNode.leaksRelated.bit l)) = true := by
    decide +kernel
  refine ⟨s, run, (chain_of_rootPath Sample.sharedHolder Sample.classesLoaded (by decide)
    (fun _ => .refl _) (by decide +kernel) (fun _ => rfl) (meets.mono fun s r h => ⟨fun _ _ => h.1,
      fun thisNode records o refNode ho hnd l hbit _ => ?_,
      fun thisNode _ passes _ _ o refNode ho hnd has l hbit hfin => ?_⟩) run (Sample.allAlive s.tags)
    (Nat.lt_succ_self _) hleak ⟨leakNode ⟨1, 1000, 0⟩ 3, rfl, rfl⟩ path (by decide)).1⟩
  · obtain ⟨below, -⟩ := Bool.and_eq_true_iff.1 (Sample.of_testLabels h.2 records.node ho hnd hbit)
    exact of_decide_eq_true below
  · obtain ⟨-, late⟩ := Bool.and_eq_true_iff.1 (Sample.of_testLabels h.2 passes.node ho hnd hbit)
    simpa [ho, has, hfin] using late

/-- The search for a chain returns null for a leaking object with a path of `k` references. -/
def Sample.MissesChain (leaking : List (Fin 12 × ℤ)) (refs : List (HeapReference (Fin 12))) (k : ℕ) :
    Prop :=
  let d := dump leaking refs fun _ => []
  ((d.candidates.map Prod.fst).Nodup ∧ (d.callbacks : ℤ) < d.agent.gdata.maxFanIn ∧
    (k : ℤ) ≤ d.agent.gdata.referenceChainLength) ∧
  ∃ s leak o st, d.run = .ok s ∧ leak ∈ d.leaks ∧ d.LeakingObject leak o ∧
    RootPath d.agent.jvm refs k o ∧ AllAlive (objectsWithTag s.tags) s.tags ∧
    generateReferencesChainForNode d.agent (objectsWithTag s.tags) (s.nodes.dom.card + 1) leak.node
      leak.leakNumber ⟨s.nodes, []⟩ = .ok (none, st)

theorem Sample.missesChain {leaking : List (Fin 12 × ℤ)} {refs : List (HeapReference (Fin 12))}
    {k : ℕ} (leak : LeakingNode) {o : Fin 12} (path : RootPath jvm refs k o)
    (inputs : (((dump leaking refs fun _ => []).candidates.map Prod.fst).Nodup ∧
      ((dump leaking refs fun _ => []).callbacks : ℤ) < 100 ∧ (k : ℤ) ≤ 5) ∧
      leak ∈ (dump leaking refs fun _ => []).leaks ∧
      (((dump leaking refs fun _ => []).start.nodes.get? leak.node).bind (·.obj)) = some o)
    (h : (dump leaking refs fun _ => []).run.toOption.any (fun s =>
      (generateReferencesChainForNode (dump leaking refs fun _ => []).agent (objectsWithTag s.tags)
        (s.nodes.dom.card + 1) leak.node leak.leakNumber ⟨s.nodes, []⟩).toOption.any
          fun res => res.1.isNone) = true) : MissesChain leaking refs k := by
  obtain ⟨s, run, lost⟩ := Run.exists_ok_of_any h
  obtain ⟨⟨res, st⟩, hres, hnone⟩ := Run.exists_ok_of_any lost
  obtain rfl : res = none := by simpa using hnone
  obtain ⟨nd, hnd, hobj⟩ := Option.bind_eq_some_iff.1 inputs.2.2
  exact ⟨inputs.1, s, leak, o, st, run, inputs.2.1, ⟨nd, hnd, hobj⟩, path, allAlive s.tags, hres⟩

/-- Three ways to miss a path: a label that comes after the reference it should follow is recorded, a
leak that a local reference finishes, and a label beyond the end of the referrer's set. -/
theorem rootPath_without_chain :
    Sample.MissesChain [(3, 1000), (4, 1000)]
      [Sample.field 8 9 0, Sample.field 3 8 0, Sample.staticField 9 2 0, Sample.field 10 8 1,
        Sample.field 4 10 0] 4 ∧
    Sample.MissesChain [(3, 1000)]
      [Sample.stackLocal 3 8, Sample.field 3 8 0, Sample.staticField 8 2 0] 2 ∧
    Sample.MissesChain [(3, 1000), (4, 1000)]
      [Sample.field 4 3 0, Sample.staticField 3 2 0] 2 := by
  refine ⟨?_, ?_, ?_⟩
  · exact Sample.missesChain ⟨2, 1000, 1⟩
      (.step (r := Sample.field 4 10 0) (by simp) rfl (by decide)
        (.step (r := Sample.field 10 8 1) (by simp) rfl (by decide)
          (.step (r := Sample.field 8 9 0) (by simp) rfl (by decide)
            (.root (r := Sample.staticField 9 2 0) (by simp) rfl rfl (by decide)))))
      (by decide +kernel) (by decide +kernel)
  · exact Sample.missesChain ⟨1, 1000, 0⟩
      (.step (r := Sample.field 3 8 0) (by simp) rfl (by decide)
        (.root (r := Sample.staticField 8 2 0) (by simp) rfl rfl (by decide)))
      (by decide +kernel) (by decide +kernel)
  · exact Sample.missesChain ⟨2, 1000, 1⟩
      (.step (r := Sample.field 4 3 0) (by simp) rfl (by decide)
        (.root (r := Sample.staticField 3 2 0) (by simp) rfl rfl (by decide)))
      (by decide +kernel) (by decide +kernel)

end JLeaker
