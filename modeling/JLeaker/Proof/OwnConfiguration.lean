import JLeaker.Lib.Run
import JLeaker.Model.Attach

/-!
# The configuration of a dump

The options and the ignore maps are global, and every attach writes them anew, whether or not a dump
is running.  In a process whose attaches wait for the dump before, and are accepted, each dump reads
what its own attach has parsed, and deletes the maps of that attach.
-/

namespace JLeaker

open CString

variable {cp : CPlatform} {s s' : AgentProcess}

/-! ## What a dump should read and delete -/

/-- The event is a phase of a dump that reads what its attach has left, or no phase of a dump. -/
def AgentProcess.ReadsOwn (s : AgentProcess) : AgentEvent → Prop
  | .attach _ => True
  | .phase i _ _ => ∀ t, s.threads[i]? = some t →
      (t.phase = .start → s.globals.dumpInProgress = false) →
        t.phase.reads s.globals = t.phase.reads t.own

/-- The phases after the one that deletes the maps. -/
def DumpPhase.released : DumpPhase → Bool
  | .finish | .done => true
  | _ => false

/-- The numbers of the maps of an attach. -/
def AgentGlobals.mapIds (g : AgentGlobals) : List ℕ :=
  (g.ignoreClasses.map (·.id)).toList ++ (g.ignoreReferencedBy.map (·.id)).toList

/-- Every map there is belongs to a dump and has been deleted once if the dump has released its data,
and not at all otherwise. -/
def AgentProcess.DeletesOnce (s : AgentProcess) : Prop :=
  ∀ id < s.globals.mapsCreated, ∃ t ∈ s.threads, id ∈ t.own.mapIds ∧
    s.deleted.count id = if t.phase.released then 1 else 0

/-- The attach is accepted and finds no dump that has not ended. -/
def AgentProcess.Undisturbed (cp : CPlatform) (s : AgentProcess) : AgentEvent → Prop
  | .attach a => (∀ t ∈ s.threads, t.phase = .done) ∧ ∃ settings iniFiles,
      parseAgentOptions cp (a.iniResult cp) s.globals.start.settings a.options =
        .returned true settings iniFiles
  | .phase .. => True

instance : ∀ r : ParseOutcome, Decidable (∃ settings iniFiles, r = .returned true settings iniFiles)
  | .returned true settings iniFiles => isTrue ⟨settings, iniFiles, rfl⟩
  | .returned false _ _ | .crashed | .outOfFuel => isFalse (by rintro ⟨_, _, ⟨⟩⟩)

instance (cp : CPlatform) (s : AgentProcess) : ∀ e, Decidable (s.Undisturbed cp e)
  | .attach a => inferInstanceAs (Decidable ((∀ t ∈ s.threads, t.phase = .done) ∧
      ∃ settings iniFiles, parseAgentOptions cp (a.iniResult cp) s.globals.start.settings a.options =
        .returned true settings iniFiles))
  | .phase .. => isTrue trivial

/-! ## The invariant -/

/-- What the thread will still read is in the global record. -/
structure Current (t : DumpThread) (g : AgentGlobals) : Prop where
  settings : g.settings = t.own.settings
  classes : t.phase.released = false → g.ignoreClasses = t.own.ignoreClasses
  referencedBy : t.phase.released = false → t.phase ≠ .print → t.phase ≠ .release →
    g.ignoreReferencedBy = t.own.ignoreReferencedBy
  ids : t.phase.released = false →
    g.ignoreReferencedBy.map (·.id) = t.own.ignoreReferencedBy.map (·.id)
  inProgress : g.dumpInProgress = decide (t.phase ≠ .start)

theorem Current.reads {t : DumpThread} {g : AgentGlobals} (current : Current t g) :
    t.phase.reads g = t.phase.reads t.own := by
  have settings := current.settings
  have classes := current.classes
  have referencedBy := current.referencedBy
  have ids := current.ids
  revert classes referencedBy ids
  cases hphase : t.phase <;> intro classes referencedBy ids
  · simp [DumpPhase.reads, settings]
  · simp [DumpPhase.reads, settings, classes rfl]
  · simp [DumpPhase.reads, settings]
  · simp [DumpPhase.reads, settings, referencedBy rfl (by decide) (by decide)]
  · simp [DumpPhase.reads, settings]
  · simp [DumpPhase.reads, settings, classes rfl, ids rfl]
  · simp [DumpPhase.reads, settings]
  · rfl

/-- The maps of the threads are numbered in turn. -/
structure MapsNumbered (s : AgentProcess) : Prop where
  created : s.globals.mapsCreated = 2 * s.threads.length
  ids : ∀ i t, s.threads[i]? = some t → t.own.mapIds = [2 * i, 2 * i + 1]

/-- All dumps but perhaps the last one have ended, the last one finds its own configuration, and the
maps of the others have been deleted in turn. -/
inductive Orderly (s : AgentProcess) : Prop
  | idle (maps : MapsNumbered s) (done : ∀ t ∈ s.threads, t.phase = .done)
      (inProgress : s.globals.dumpInProgress = false)
      (deleted : s.deleted = List.range (2 * s.threads.length))
  | dumping (maps : MapsNumbered s) (pre : List DumpThread) (t : DumpThread)
      (threads : s.threads = pre ++ [t]) (done : ∀ u ∈ pre, u.phase = .done)
      (running : t.phase ≠ .done) (current : Current t s.globals)
      (deleted : s.deleted = List.range
        (2 * (pre.length + if t.phase.released then 1 else 0)))

theorem MapsNumbered.deletesOnce (maps : MapsNumbered s) {k : ℕ}
    (deleted : s.deleted = List.range (2 * k))
    (released : ∀ i t, s.threads[i]? = some t → (t.phase.released = true ↔ i < k)) :
    s.DeletesOnce := by
  intro id hid
  have hi : id / 2 < s.threads.length := by
    have := maps.created
    omega
  have ht : s.threads[id / 2]? = some s.threads[id / 2] := List.getElem?_eq_getElem hi
  refine ⟨_, List.getElem_mem hi, ?_, ?_⟩
  · rw [maps.ids _ _ ht]
    simp only [List.mem_cons, List.not_mem_nil, or_false]
    omega
  · rw [deleted, List.count_range]
    have := released _ _ ht
    split_ifs with h₁ h₂ h₂
    · rfl
    · exact absurd (this.2 (by omega)) h₂
    · exact absurd (this.1 h₂) (by omega)
    · rfl

theorem Orderly.deletesOnce (orderly : Orderly s) : s.DeletesOnce := by
  cases orderly with
  | idle maps done _ deleted =>
    refine maps.deletesOnce deleted fun i t ht => ?_
    have hlt : i < s.threads.length := (List.getElem?_eq_some_iff.1 ht).1
    rw [done t (List.mem_of_getElem? ht)]
    exact iff_of_true rfl hlt
  | dumping maps pre t threads done running _ deleted =>
    refine maps.deletesOnce deleted fun i u hu => ?_
    rw [threads, List.getElem?_append] at hu
    split_ifs at hu with hlt
    · rw [done u (List.mem_of_getElem? hu)]
      exact iff_of_true rfl (by omega)
    · obtain ⟨rfl, hi⟩ : t = u ∧ i = pre.length := by
        rw [List.getElem?_singleton] at hu
        split_ifs at hu with hi
        exact ⟨Option.some.inj hu, by omega⟩
      split_ifs with hreleased
      · exact iff_of_true hreleased (by omega)
      · exact iff_of_false hreleased (by omega)

/-! ## Attaches -/

/-- What an accepted attach leaves in the global record. -/
structure Accepted (g g' : AgentGlobals) : Prop where
  inProgress : g'.dumpInProgress = g.dumpInProgress
  created : g'.mapsCreated = g.mapsCreated + 2
  ids : g'.mapIds = [g.mapsCreated, g.mapsCreated + 1]

theorem AgentGlobals.start_inProgress (g : AgentGlobals) :
    g.start.dumpInProgress = g.dumpInProgress := by
  unfold AgentGlobals.start
  split_ifs <;> rfl

theorem AgentGlobals.start_mapsCreated (g : AgentGlobals) :
    g.start.mapsCreated = g.mapsCreated := by
  unfold AgentGlobals.start
  split_ifs <;> rfl

theorem initAgent_accepted {g g' : AgentGlobals} {a : Attach} {success : Bool}
    (h : initAgent cp g a = .ok (success, g')) : Accepted g g' := by
  unfold initAgent at h
  dsimp only at h
  split at h
  · cases h
  · cases h
  · cases h
    exact ⟨g.start_inProgress, congrArg (· + 2) g.start_mapsCreated, by
      simp [AgentGlobals.mapIds, g.start_mapsCreated]⟩

theorem initAgent_success {g g' : AgentGlobals} {a : Attach} {success : Bool}
    (h : initAgent cp g a = .ok (success, g')) {settings : AgentSettings} {iniFiles : List Str}
    (parsed : parseAgentOptions cp (a.iniResult cp) g.start.settings a.options =
      .returned true settings iniFiles) : success = true := by
  unfold initAgent at h
  dsimp only at h
  rw [parsed] at h
  cases h
  rfl

theorem Orderly.attach {a : Attach} (orderly : Orderly s) (undisturbed : s.Undisturbed cp (.attach a))
    (step : s.step cp (.attach a) = .ok s') : Orderly s' := by
  obtain ⟨allDone, settings, iniFiles, parsed⟩ := undisturbed
  cases orderly with
  | dumping _ pre t threads _ running =>
    exact absurd (allDone t (by simp [threads])) running
  | idle maps done inProgress deleted =>
    obtain ⟨⟨success, g⟩, hinit, hs'⟩ := Run.bind_eq_ok.1 step
    obtain rfl := initAgent_success hinit parsed
    have accepted := initAgent_accepted hinit
    cases hs'
    refine .dumping ⟨?_, ?_⟩ s.threads ⟨g, .start⟩ rfl done DumpPhase.noConfusion
      ⟨rfl, fun _ => rfl, fun _ _ _ => rfl, fun _ => rfl, ?_⟩ deleted
    · simp only [if_true, List.length_append, List.length_singleton]
      rw [accepted.created, maps.created]
      omega
    · intro i t ht
      simp only [if_true, List.getElem?_append] at ht
      split_ifs at ht with hlt
      · exact maps.ids i t ht
      · rw [List.getElem?_singleton] at ht
        split_ifs at ht with hi
        obtain rfl := Option.some.inj ht
        rw [accepted.ids, maps.created]
        have : i = s.threads.length := by omega
        subst this
        rfl
    · exact accepted.inProgress.trans inProgress

/-! ## Phases -/

/-- The state after a phase of a thread. -/
def AgentProcess.phased (s : AgentProcess) (i : ℕ) (t : DumpThread) (leaks : Bool)
    (taken : List Str) : AgentProcess :=
  { (s.runPhase leaks taken t.phase).2 with
    threads := (s.runPhase leaks taken t.phase).2.threads.set i
      { t with phase := (s.runPhase leaks taken t.phase).1 } }

theorem step_phase {i : ℕ} {leaks : Bool} {taken : List Str} {t : DumpThread}
    (ht : s.threads[i]? = some t) :
    s.step cp (.phase i leaks taken) = .ok (s.phased i t leaks taken) := by
  simp only [AgentProcess.step, ht]
  rfl

theorem phased_done {i : ℕ} {leaks : Bool} {taken : List Str} {t : DumpThread}
    (ht : s.threads[i]? = some t) (done : t.phase = .done) : s.phased i t leaks taken = s := by
  obtain ⟨own, phase⟩ := t
  cases done
  have hset : s.threads.set i ⟨own, .done⟩ = s.threads := by
    obtain ⟨hi, hget⟩ := List.getElem?_eq_some_iff.1 ht
    rw [← hget, List.set_getElem_self]
  simp only [AgentProcess.phased, AgentProcess.runPhase, hset]

theorem runPhase_threads (leaks : Bool) (taken : List Str) (p : DumpPhase) :
    (s.runPhase leaks taken p).2.threads = s.threads := by
  cases p
  case start =>
    unfold AgentProcess.runPhase
    split_ifs <;> rfl
  all_goals rfl

theorem runPhase_mapsCreated (leaks : Bool) (taken : List Str) (p : DumpPhase) :
    (s.runPhase leaks taken p).2.globals.mapsCreated = s.globals.mapsCreated := by
  cases p
  case start =>
    unfold AgentProcess.runPhase
    split_ifs <;> rfl
  all_goals rfl

theorem MapsNumbered.phased {i : ℕ} {leaks : Bool} {taken : List Str} {t : DumpThread}
    (maps : MapsNumbered s) (ht : s.threads[i]? = some t) :
    MapsNumbered (s.phased i t leaks taken) where
  created := by
    simp only [AgentProcess.phased, runPhase_threads, runPhase_mapsCreated, List.length_set]
    exact maps.created
  ids j u hu := by
    simp only [AgentProcess.phased, runPhase_threads, List.getElem?_set] at hu
    split_ifs at hu with hj hlt
    · obtain rfl := Option.some.inj hu
      subst hj
      exact maps.ids i t ht
    · exact maps.ids j u hu

/-- The phases of the last thread, where another one follows. -/
theorem Current.next {leaks : Bool} {taken : List Str} {t : DumpThread}
    (current : Current t s.globals) (next : (s.runPhase leaks taken t.phase).1 ≠ .done) :
    Current { t with phase := (s.runPhase leaks taken t.phase).1 }
      (s.runPhase leaks taken t.phase).2.globals := by
  obtain ⟨own, phase⟩ := t
  obtain ⟨settings, classes, referencedBy, ids, inProgress⟩ := current
  dsimp only at *
  cases phase with
  | start =>
    have idle : s.globals.dumpInProgress = false := inProgress
    simp only [AgentProcess.runPhase, idle, Bool.false_eq_true, if_false]
    exact ⟨settings, classes, fun _ _ _ => referencedBy rfl (by decide) (by decide), ids, rfl⟩
  | tag =>
    exact ⟨settings, classes, fun _ _ _ => referencedBy rfl (by decide) (by decide), ids,
      inProgress⟩
  | search =>
    cases leaks with
    | false => exact ⟨settings, classes, fun _ _ h => absurd rfl h, ids, inProgress⟩
    | true =>
      exact ⟨settings, classes, fun _ _ _ => referencedBy rfl (by decide) (by decide), ids,
        inProgress⟩
  | passes =>
    refine ⟨settings, classes, fun _ h _ => absurd rfl h, fun _ => ?_, inProgress⟩
    rw [← ids rfl]
    simp only [AgentProcess.runPhase, Option.map_map]
    rfl
  | print => exact ⟨settings, classes, fun _ _ h => absurd rfl h, ids, inProgress⟩
  | release => exact ⟨settings, nofun, nofun, nofun, inProgress⟩
  | finish => exact absurd rfl next
  | done => exact absurd rfl next

/-- The maps are deleted in the phase of that name. -/
theorem runPhase_deleted (leaks : Bool) (taken : List Str) {t : DumpThread} {n : ℕ}
    (current : Current t s.globals) (ids : t.own.mapIds = [2 * n, 2 * n + 1])
    (deleted : s.deleted = List.range (2 * (n + if t.phase.released then 1 else 0))) :
    (s.runPhase leaks taken t.phase).2.deleted = List.range
      (2 * (n + if (s.runPhase leaks taken t.phase).1.released then 1 else 0)) := by
  obtain ⟨own, phase⟩ := t
  obtain ⟨settings, classes, referencedBy, idsKept, inProgress⟩ := current
  dsimp only at *
  cases phase with
  | start =>
    have idle : s.globals.dumpInProgress = false := inProgress
    simp only [AgentProcess.runPhase, idle, Bool.false_eq_true, if_false]
    exact deleted
  | search => cases leaks <;> exact deleted
  | release =>
    have hids : s.globals.mapIds = [2 * n, 2 * n + 1] := by
      rw [← ids, AgentGlobals.mapIds, AgentGlobals.mapIds, classes rfl, idsKept rfl]
    have hdeleted : s.deleted = List.range (2 * n) := deleted
    show s.deleted ++ _ ++ _ = List.range (2 * (n + 1))
    rw [List.append_assoc]
    show s.deleted ++ s.globals.mapIds = _
    rw [hids, hdeleted, Nat.mul_succ, List.range_succ, List.range_succ, List.append_assoc]
    rfl
  | tag | passes | print | finish | done => exact deleted

/-- A dump that ends does so after its last phase. -/
theorem Current.finished {leaks : Bool} {taken : List Str} {t : DumpThread}
    (current : Current t s.globals) (running : t.phase ≠ .done)
    (next : (s.runPhase leaks taken t.phase).1 = .done) :
    (s.runPhase leaks taken t.phase).2.globals.dumpInProgress = false := by
  obtain ⟨own, phase⟩ := t
  have inProgress := current.inProgress
  dsimp only at *
  cases phase with
  | start =>
    have idle : s.globals.dumpInProgress = false := inProgress
    simp only [AgentProcess.runPhase, idle, Bool.false_eq_true, if_false] at next
    cases next
  | search => cases leaks <;> cases next
  | finish => rfl
  | done => exact absurd rfl running
  | tag | passes | print | release => cases next

theorem Orderly.phase {i : ℕ} {leaks : Bool} {taken : List Str} (orderly : Orderly s)
    (step : s.step cp (.phase i leaks taken) = .ok s') : Orderly s' := by
  cases ht : s.threads[i]? with
  | none =>
    simp only [AgentProcess.step, ht] at step
    cases step
    exact orderly
  | some t =>
    rw [step_phase ht] at step
    cases step
    by_cases hdone : t.phase = .done
    · rw [phased_done ht hdone]
      exact orderly
    cases orderly with
    | idle _ done => exact absurd (done t (List.mem_of_getElem? ht)) hdone
    | dumping maps pre u threads done running current deleted =>
      -- only the last thread has not ended
      have hlast : t = u ∧ i = pre.length := by
        have hget := ht
        rw [threads, List.getElem?_append] at hget
        split_ifs at hget with hlt
        · exact absurd (done t (List.mem_of_getElem? hget)) hdone
        · rw [List.getElem?_singleton] at hget
          split_ifs at hget with hi
          exact ⟨(Option.some.inj hget).symm, by omega⟩
      obtain ⟨rfl, rfl⟩ := hlast
      have hthreads : (s.phased pre.length t leaks taken).threads =
          pre ++ [{ t with phase := (s.runPhase leaks taken t.phase).1 }] := by
        simp [AgentProcess.phased, runPhase_threads, threads]
      have hdeleted := runPhase_deleted leaks taken current (maps.ids _ _ ht) deleted
      by_cases hnext : (s.runPhase leaks taken t.phase).1 = .done
      · refine .idle (maps.phased ht) ?_ ?_ ?_
        · intro u hu
          rw [hthreads] at hu
          rcases List.mem_append.1 hu with hu | hu
          · exact done u hu
          · rw [List.mem_singleton.1 hu]
            exact hnext
        · exact current.finished hdone hnext
        · rw [hthreads, List.length_append, List.length_singleton]
          rw [hnext] at hdeleted
          exact hdeleted
      · exact .dumping (maps.phased ht) pre _ hthreads done hnext (current.next hnext) hdeleted

/-! ## Every run -/

theorem Orderly.step {e : AgentEvent} (orderly : Orderly s) (undisturbed : s.Undisturbed cp e)
    (step : s.step cp e = .ok s') : Orderly s' := by
  cases e with
  | attach a => exact orderly.attach undisturbed step
  | phase i leaks taken => exact orderly.phase step

theorem Orderly.readsOwn (orderly : Orderly s) (e : AgentEvent) : s.ReadsOwn e := by
  cases e with
  | attach a => trivial
  | phase i leaks taken =>
    intro t ht _
    by_cases hdone : t.phase = .done
    · rw [hdone]
      rfl
    cases orderly with
    | idle _ done => exact absurd (done t (List.mem_of_getElem? ht)) hdone
    | dumping _ pre u threads done _ current =>
      have hmem : t ∈ pre ++ [u] := threads ▸ List.mem_of_getElem? ht
      rcases List.mem_append.1 hmem with hmem | hmem
      · exact absurd (done t hmem) hdone
      · obtain rfl := List.mem_singleton.1 hmem
        exact current.reads

theorem orderly_init : Orderly .init :=
  .idle ⟨rfl, by simp [AgentProcess.init]⟩ (by simp [AgentProcess.init]) rfl rfl

/-- In every run whose attaches are accepted and wait for the dump before them, every phase reads what
the attach of its dump has left, and every map is deleted once, in the release of its dump. -/
theorem dumps_keep_configuration (cp : CPlatform) {events : List AgentEvent}
    (undisturbed : Run.Meets (AgentProcess.step cp) (AgentProcess.Undisturbed cp) .init events) :
    Run.Meets (AgentProcess.step cp) (fun s e => s.ReadsOwn e ∧ s.DeletesOnce) .init events ∧
      ∀ s, AgentProcess.init.after cp events = .ok s → s.DeletesOnce := by
  refine ⟨Run.Meets.of_invariant (I := Orderly) (fun _ _ _ orderly h => orderly.step h)
    (fun _ e orderly _ => ⟨orderly.readsOwn e, orderly.deletesOnce⟩) undisturbed orderly_init,
    fun s run => ?_⟩
  exact (Run.foldlM_invariant (I := Orderly) (fun _ _ _ orderly h => orderly.step h) undisturbed
    orderly_init run).deletesOnce

namespace Sample

/-- An attach with these options, without any configuration file. -/
def attachWith (options : String) : Attach := ⟨some options.toList, fun _ => none⟩

/-- The phases of the dump of one thread. -/
def phasesOf (thread : ℕ) : List AgentEvent := List.replicate 7 (.phase thread true [])

/-- Two attaches, each with its dump. -/
def inTurn : List AgentEvent :=
  .attach (attachWith "size_threshold=7") :: phasesOf 0 ++
    .attach (attachWith "size_threshold=9") :: phasesOf 1

/-- The second attach lands before the first dump searches for leaks. -/
def twoAttaches : List AgentEvent :=
  [.attach (attachWith "size_threshold=7"), .phase 0 true [], .phase 0 true [],
    .attach (attachWith "size_threshold=9")]

end Sample

theorem dumps_keep_configuration_inTurn :
    ∃ s, AgentProcess.init.after Sample.unix64 Sample.inTurn = .ok s ∧ s.threads.length = 2 ∧
      s.DeletesOnce := by
  obtain ⟨s, run, two⟩ := Run.exists_ok_of_any
    (x := AgentProcess.init.after Sample.unix64 Sample.inTurn)
    (p := fun s : AgentProcess => s.threads.length = 2) (by decide +kernel)
  exact ⟨s, run, of_decide_eq_true two,
    (dumps_keep_configuration Sample.unix64 (by decide +kernel)).2 s run⟩

/-- The first dump searches with the threshold of the second attach, and the maps of the first attach
are never deleted. -/
theorem configuration_overwritten :
    ∃ s s', AgentProcess.init.after Sample.unix64 Sample.twoAttaches = .ok s ∧
      ¬ s.ReadsOwn (.phase 0 true []) ∧
      s.after Sample.unix64 (Sample.phasesOf 0 ++ Sample.phasesOf 1) = .ok s' ∧
      (∀ t ∈ s'.threads, t.phase = .done) ∧ ¬ s'.DeletesOnce := by
  obtain ⟨s, run, hs⟩ := Run.exists_ok_of_any
    (x := AgentProcess.init.after Sample.unix64 Sample.twoAttaches)
    (p := fun s : AgentProcess =>
      (s.threads[0]?).any (fun t : DumpThread => decide (t.phase = .search) &&
        decide (s.globals.settings.sizeThreshold ≠ t.own.settings.sizeThreshold)) &&
      (s.after Sample.unix64 (Sample.phasesOf 0 ++ Sample.phasesOf 1)).toOption.any
        fun s' : AgentProcess => s'.threads.all (fun t : DumpThread => decide (t.phase = .done)) &&
          decide (0 < s'.globals.mapsCreated) && s'.threads.all fun t : DumpThread =>
            t.phase.released && decide (s'.deleted.count 0 = 0))
    (by decide +kernel)
  obtain ⟨hread, hrest⟩ := Bool.and_eq_true_iff.1 hs
  obtain ⟨t, ht, hread⟩ := (Option.any_eq_true _ _).1 hread
  obtain ⟨s', run', hs'⟩ := Run.exists_ok_of_any hrest
  simp only [Bool.and_eq_true, decide_eq_true_eq, List.all_eq_true] at hread hs'
  obtain ⟨⟨hdone, hcreated⟩, hdeleted⟩ := hs'
  refine ⟨s, s', run, fun readsOwn => ?_, run', hdone, fun once => ?_⟩
  · have h := readsOwn t ht fun hstart => by
      rw [hread.1] at hstart
      cases hstart
    rw [hread.1] at h
    simp only [DumpPhase.reads, Prod.mk.injEq, PhaseInput.search.injEq] at h
    exact hread.2 h.2
  · obtain ⟨u, hu, -, hcount⟩ := once 0 hcreated
    obtain ⟨hreleased, hzero⟩ := hdeleted u hu
    rw [hzero, if_pos hreleased] at hcount
    cases hcount

end JLeaker
