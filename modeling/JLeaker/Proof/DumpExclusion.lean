import JLeaker.Model.TestAndSet
import JLeaker.Proof.OwnConfiguration

/-!
# One dump at a time

Where it is tested and set in one step, `dumpInProgress` lets one dump run, however attaches and the
phases of dumps alternate: the others end at once.  An attach may come at any time and overwrite the
ignore maps of a running dump; a map is deleted at most once nevertheless, and one that was overwritten
is not deleted at all.  On Windows, where the read and the write are apart, two dumps can run, and
`dumpInProgress` can stay set for good.
-/

namespace JLeaker

variable {cp : CPlatform} {s s' : AgentProcess}

/-- The dump has got past its test of `dumpInProgress` and has not ended. -/
def DumpPhase.running : DumpPhase → Bool
  | .start | .done => false
  | _ => true

/-- One running dump, if `dumpInProgress` is set; the current maps are not deleted. -/
structure Exclusive (s : AgentProcess) : Prop where
  running : s.threads.countP (·.phase.running) = if s.globals.dumpInProgress then 1 else 0
  current_lt : ∀ id ∈ s.globals.mapIds, id < s.globals.mapsCreated
  current_nodup : s.globals.mapIds.Nodup
  deleted_lt : ∀ id ∈ s.deleted, id < s.globals.mapsCreated
  deleted_nodup : s.deleted.Nodup
  current : ∀ id ∈ s.globals.mapIds, id ∉ s.deleted

theorem exclusive_init : Exclusive .init where
  running := rfl
  current_lt _ h := absurd h List.not_mem_nil
  current_nodup := List.nodup_nil
  deleted_lt _ h := absurd h List.not_mem_nil
  deleted_nodup := List.nodup_nil
  current _ h := absurd h List.not_mem_nil

/-- The map has been overwritten: no dump will delete it. -/
structure Lost (id : ℕ) (s : AgentProcess) : Prop where
  lt : id < s.globals.mapsCreated
  notCurrent : id ∉ s.globals.mapIds
  notDeleted : id ∉ s.deleted

/-! ## Attaches -/

/-- What an attach does, accepted or not. -/
structure Attached (s s' : AgentProcess) : Prop where
  maps : Accepted s.globals s'.globals
  deleted : s'.deleted = s.deleted
  running : s'.threads.countP (·.phase.running) = s.threads.countP (·.phase.running)

theorem step_attached {a : Attach} (step : s.step cp (.attach a) = .ok s') : Attached s s' := by
  obtain ⟨⟨success, g⟩, hinit, hs'⟩ := Run.bind_eq_ok.1 step
  cases hs'
  refine ⟨initAgent_accepted hinit, rfl, ?_⟩
  cases success with
  | false => rfl
  | true => exact List.countP_append.trans (Nat.add_zero _)

theorem Attached.exclusive (attached : Attached s s') (exclusive : Exclusive s) : Exclusive s' := by
  have maps := attached.maps
  have created := maps.created
  refine ⟨?_, ?_, ?_, ?_, ?_, ?_⟩
  · rw [attached.running, exclusive.running, maps.inProgress]
  · rw [maps.ids, created]
    simp
  · rw [maps.ids]
    simp
  · rw [attached.deleted, created]
    intro id hid
    have := exclusive.deleted_lt id hid
    omega
  · rw [attached.deleted]
    exact exclusive.deleted_nodup
  · rw [attached.deleted, maps.ids]
    intro id hid deleted
    have := exclusive.deleted_lt id deleted
    simp only [List.mem_cons, List.not_mem_nil, or_false] at hid
    omega

theorem Attached.lost {id : ℕ} (attached : Attached s s') (lost : Lost id s) : Lost id s' := by
  have := lost.lt
  refine ⟨?_, ?_, ?_⟩
  · rw [attached.maps.created]
    omega
  · rw [attached.maps.ids]
    simp only [List.mem_cons, List.not_mem_nil, or_false]
    omega
  · rw [attached.deleted]
    exact lost.notDeleted

/-! ## Phases -/

/-- What a phase does to the maps. -/
inductive MapsChange (s s' : AgentProcess) : Prop
  | kept (ids : s'.globals.mapIds = s.globals.mapIds) (deleted : s'.deleted = s.deleted)
  | released (ids : s'.globals.mapIds = []) (deleted : s'.deleted = s.deleted ++ s.globals.mapIds)

theorem runPhase_start (leaks : Bool) (taken : List CString.Str) :
    s.runPhase leaks taken .start = if s.globals.dumpInProgress then (.done, s)
      else (.tag, { s with globals := { s.globals with dumpInProgress := true } }) := rfl

theorem phased_maps (i : ℕ) (t : DumpThread) (leaks : Bool) (taken : List CString.Str) :
    MapsChange s (s.phased i t leaks taken) := by
  unfold AgentProcess.phased
  cases t.phase with
  | start =>
    rw [runPhase_start]
    split_ifs
    · exact .kept rfl rfl
    · exact .kept rfl rfl
  | passes =>
    refine .kept ?_ rfl
    unfold AgentProcess.runPhase AgentGlobals.mapIds
    simp only [Option.map_map]
    rfl
  | release => exact .released rfl (List.append_assoc _ _ _)
  | tag => exact .kept rfl rfl
  | search => exact .kept rfl rfl
  | print => exact .kept rfl rfl
  | finish => exact .kept rfl rfl
  | done => exact .kept rfl rfl

/-- The flag is set and cleared with the dump that runs. -/
theorem runPhase_flag (leaks : Bool) (taken : List CString.Str) {p : DumpPhase}
    (flagged : p.running = true → s.globals.dumpInProgress = true) :
    ((if s.globals.dumpInProgress then 1 else 0) - if p.running then 1 else 0) +
        (if (s.runPhase leaks taken p).1.running then 1 else 0) =
      if (s.runPhase leaks taken p).2.globals.dumpInProgress then 1 else 0 := by
  cases p with
  | start =>
    rw [runPhase_start]
    cases hflag : s.globals.dumpInProgress with
    | false => rfl
    | true =>
      rw [if_pos rfl, if_pos rfl, hflag]
      rfl
  | done => exact Nat.add_zero _
  | search =>
    rw [flagged rfl]
    cases leaks with
    | false => exact (if_pos (flagged rfl)).symm
    | true => exact (if_pos (flagged rfl)).symm
  | finish =>
    rw [flagged rfl]
    rfl
  | tag =>
    rw [flagged rfl]
    exact (if_pos (flagged rfl)).symm
  | passes =>
    rw [flagged rfl]
    exact (if_pos (flagged rfl)).symm
  | print =>
    rw [flagged rfl]
    exact (if_pos (flagged rfl)).symm
  | release =>
    rw [flagged rfl]
    exact (if_pos (flagged rfl)).symm

/-- The running dumps after a phase. -/
theorem phased_running {i : ℕ} {t : DumpThread} (leaks : Bool) (taken : List CString.Str)
    (exclusive : Exclusive s) (ht : s.threads[i]? = some t) :
    (s.phased i t leaks taken).threads.countP (·.phase.running) =
      if (s.phased i t leaks taken).globals.dumpInProgress then 1 else 0 := by
  have running := exclusive.running
  obtain ⟨hi, hget⟩ := List.getElem?_eq_some_iff.1 ht
  have counted : (s.phased i t leaks taken).threads.countP (·.phase.running) =
      s.threads.countP (·.phase.running) - (if t.phase.running then 1 else 0) +
        if (s.runPhase leaks taken t.phase).1.running then 1 else 0 := by
    simp only [AgentProcess.phased, runPhase_threads]
    rw [List.countP_set hi, hget]
  -- a running dump is the one the flag stands for
  have flagged : t.phase.running = true → s.globals.dumpInProgress = true := by
    intro hrunning
    by_contra h
    rw [if_neg h, List.countP_eq_zero] at running
    exact running t (List.mem_of_getElem? ht) hrunning
  rw [counted, running]
  exact runPhase_flag leaks taken flagged

theorem phased_mapsCreated (i : ℕ) (t : DumpThread) (leaks : Bool) (taken : List CString.Str) :
    (s.phased i t leaks taken).globals.mapsCreated = s.globals.mapsCreated :=
  runPhase_mapsCreated leaks taken t.phase

theorem Exclusive.phased {i : ℕ} {t : DumpThread} {leaks : Bool} {taken : List CString.Str}
    (exclusive : Exclusive s) (ht : s.threads[i]? = some t) :
    Exclusive (s.phased i t leaks taken) := by
  have created := phased_mapsCreated (s := s) i t leaks taken
  have running := phased_running leaks taken exclusive ht
  cases phased_maps (s := s) i t leaks taken with
  | kept ids deleted =>
    refine ⟨running, ?_, ?_, ?_, ?_, ?_⟩
    · rw [ids, created]
      exact exclusive.current_lt
    · rw [ids]
      exact exclusive.current_nodup
    · rw [deleted, created]
      exact exclusive.deleted_lt
    · rw [deleted]
      exact exclusive.deleted_nodup
    · rw [ids, deleted]
      exact exclusive.current
  | released ids deleted =>
    refine ⟨running, ?_, ?_, ?_, ?_, ?_⟩
    · rw [ids]
      simp
    · rw [ids]
      exact List.nodup_nil
    · rw [deleted, created]
      intro id hid
      rcases List.mem_append.1 hid with hid | hid
      · exact exclusive.deleted_lt id hid
      · exact exclusive.current_lt id hid
    · rw [deleted]
      refine List.nodup_append.2 ⟨exclusive.deleted_nodup, exclusive.current_nodup, ?_⟩
      rintro id hid id' hid' rfl
      exact exclusive.current id hid' hid
    · rw [ids]
      simp

theorem Lost.phased {id i : ℕ} {t : DumpThread} {leaks : Bool} {taken : List CString.Str}
    (lost : Lost id s) : Lost id (s.phased i t leaks taken) := by
  have created := phased_mapsCreated (s := s) i t leaks taken
  cases phased_maps (s := s) i t leaks taken with
  | kept ids deleted =>
    exact ⟨created ▸ lost.lt, ids ▸ lost.notCurrent, deleted ▸ lost.notDeleted⟩
  | released ids deleted =>
    refine ⟨created ▸ lost.lt, by simp [ids], ?_⟩
    rw [deleted, List.mem_append, not_or]
    exact ⟨lost.notDeleted, lost.notCurrent⟩

/-! ## Runs -/

/-- A step keeps what attaches and phases keep. -/
theorem step_keeps {I : AgentProcess → Prop}
    (attach : ∀ s s' : AgentProcess, Attached s s' → I s → I s')
    (phase : ∀ (s : AgentProcess) i t leaks taken, s.threads[i]? = some t → I s →
      I (s.phased i t leaks taken)) {e : AgentEvent} (init : I s) (step : s.step cp e = .ok s') :
    I s' := by
  cases e with
  | attach a => exact attach s s' (step_attached step) init
  | phase i leaks taken =>
    cases ht : s.threads[i]? with
    | none =>
      simp only [AgentProcess.step, ht] at step
      cases step
      exact init
    | some t =>
      rw [step_phase ht] at step
      cases step
      exact phase s i t leaks taken ht init

theorem after_keeps {I : AgentProcess → Prop}
    (attach : ∀ s s' : AgentProcess, Attached s s' → I s → I s')
    (phase : ∀ (s : AgentProcess) i t leaks taken, s.threads[i]? = some t → I s →
      I (s.phased i t leaks taken)) {events : List AgentEvent} (init : I s)
    (run : s.after cp events = .ok s') : I s' :=
  Run.foldlM_invariant (P := fun _ _ => True) (fun _ _ _ h _ step => step_keeps attach phase h step)
    (Run.meets_of_forall (fun _ _ _ => trivial) s) init run

theorem exclusive_after {events : List AgentEvent} (run : AgentProcess.init.after cp events = .ok s) :
    Exclusive s :=
  after_keeps (fun _ _ attached => attached.exclusive) (fun _ _ _ _ _ ht h => h.phased ht) exclusive_init
    run

/-! ## Test and set -/

/-- Nothing comes between the read of a thread and its write. -/
inductive Undivided : List TestAndSetEvent → Prop
  | nil : Undivided []
  | agent (e : AgentEvent) {rest : List TestAndSetEvent} (undivided : Undivided rest) :
      Undivided (.agent e :: rest)
  | testAndSet (i : ℕ) (leaks : Bool) (taken : List CString.Str) {rest : List TestAndSetEvent}
      (undivided : Undivided rest) : Undivided (.read i :: .agent (.phase i leaks taken) :: rest)

theorem Undivided.of_agent (es : List AgentEvent) : Undivided (es.map .agent) := by
  induction es with
  | nil => exact .nil
  | cons e es ih => exact .agent e ih

namespace TestingProcess

variable {p p' : TestingProcess} {events : List TestAndSetEvent}

theorem step_read (cp : CPlatform) (p : TestingProcess) (i : ℕ) : p.step cp (.read i) =
    if cp.os = .windows ∧ p.z.lookup i = none ∧
        (p.process.threads[i]?.any fun t => t.phase = .start) then
      .ok { p with z := (i, p.process.globals.dumpInProgress) :: p.z }
    else .ok p := rfl

/-- No thread has read and not written. -/
def Settled (p : TestingProcess) : Prop := p.z = []

/-- Where no thread is between its read and its write, the agent makes the step, or none. -/
theorem Settled.step {e : AgentEvent} (settled : p.Settled) (step : p.step cp (.agent e) = .ok p') :
    p'.Settled ∧ (p'.process = p.process ∨ p.process.step cp e = .ok p'.process) := by
  unfold TestingProcess.step at step
  dsimp only at step
  split at step
  · rename_i i thread _
    rw [show p.z = [] from settled] at step
    cases step
    exact ⟨settled, .inl rfl⟩
  · obtain ⟨process, stepped, step⟩ := Run.bind_eq_ok.1 step
    cases step
    exact ⟨settled, .inr stepped⟩

/-- A write right after the read is the start of a dump in one step. -/
theorem Settled.testAndSet {i : ℕ} {leaks : Bool} {taken : List CString.Str}
    {rest : List TestAndSetEvent} (settled : p.Settled)
    (run : p.after cp (.read i :: .agent (.phase i leaks taken) :: rest) = .ok p') :
    ∃ q : TestingProcess, q.Settled ∧ q.after cp rest = .ok p' ∧
      (q.process = p.process ∨ p.process.step cp (.phase i leaks taken) = .ok q.process) := by
  obtain ⟨p₁, read, run₁⟩ := Run.foldlM_cons_eq_ok.1 run
  obtain ⟨p₂, next, run₂⟩ := Run.foldlM_cons_eq_ok.1 run₁
  rw [step_read] at read
  split_ifs at read with reads
  · obtain ⟨windows, unread, atStart⟩ := reads
    cases read
    obtain ⟨thread, ht, start⟩ := (Option.any_eq_true _ _).1 atStart
    have starting : TestingProcess.starting
        { p with z := (i, p.process.globals.dumpInProgress) :: p.z }
        (.phase i leaks taken) = some (i, thread) := by
      simp only [TestingProcess.starting, ht, Option.filter_some, start, if_true, Option.map_some]
    unfold TestingProcess.step at next
    simp only [windows, if_true, starting, List.lookup_cons_self, Option.elim_some] at next
    cases next
    refine ⟨_, ?_, run₂, .inr ?_⟩
    · unfold Settled TestingProcess.write
      rw [show p.z = [] from settled]
      simp
    · rw [step_phase ht]
      unfold AgentProcess.phased TestingProcess.write
      rw [of_decide_eq_true start, runPhase_start]
      -- a flag that is set is set again
      cases flag : p.process.globals.dumpInProgress with
      | false => rfl
      | true =>
        have same : { p.process.globals with dumpInProgress := true } = p.process.globals := by
          rw [← flag]
        simp only [if_true, same]
  · cases read
    obtain ⟨settled', stepped⟩ := settled.step next
    exact ⟨p₂, settled', run₂, stepped⟩

/-- Without a step between reads and writes the agent is one that starts its dumps in one step. -/
theorem Settled.refines (settled : p.Settled) (undivided : cp.os = .windows → Undivided events)
    (run : p.after cp events = .ok p') : p'.Settled ∧
      ∃ steps, p.process.after cp steps = .ok p'.process := by
  -- a step of the agent, or none, before others
  have before : ∀ {s₁ s₂ : AgentProcess} {e steps}, (s₂ = s₁ ∨ s₁.step cp e = .ok s₂) →
      s₂.after cp steps = .ok p'.process → ∃ steps, s₁.after cp steps = .ok p'.process := by
    rintro s₁ s₂ e steps (rfl | first) rest
    · exact ⟨steps, rest⟩
    · exact ⟨e :: steps, Run.foldlM_cons_eq_ok.2 ⟨_, first, rest⟩⟩
  by_cases windows : cp.os = .windows
  · replace undivided := undivided windows
    induction undivided generalizing p with
    | nil =>
      cases run
      exact ⟨settled, [], rfl⟩
    | agent e _ ih =>
      obtain ⟨q, first, run⟩ := Run.foldlM_cons_eq_ok.1 run
      obtain ⟨settled', stepped⟩ := settled.step first
      obtain ⟨settled', steps, rest⟩ := ih settled' run
      exact ⟨settled', before stepped rest⟩
    | testAndSet i leaks taken _ ih =>
      obtain ⟨q, settled', run, stepped⟩ := settled.testAndSet run
      obtain ⟨settled', steps, rest⟩ := ih settled' run
      exact ⟨settled', before stepped rest⟩
  · clear undivided
    induction events generalizing p with
    | nil =>
      cases run
      exact ⟨settled, [], rfl⟩
    | cons e events ih =>
      obtain ⟨q, first, rest⟩ := Run.foldlM_cons_eq_ok.1 run
      cases e with
      | read i =>
        rw [step_read, if_neg fun reads => windows reads.1] at first
        cases first
        exact ih settled rest
      | agent e =>
        obtain ⟨settled', stepped⟩ := settled.step first
        obtain ⟨settled', steps, rest⟩ := ih settled' rest
        exact ⟨settled', before stepped rest⟩

/-! ## A flag that stays set -/

/-- `dumpInProgress` is set, no dump runs, and no thread has read that it is not set. -/
structure Stuck (p : TestingProcess) : Prop where
  flag : p.process.globals.dumpInProgress = true
  running : p.process.threads.countP (·.phase.running) = 0
  z : ∀ pair ∈ p.z, pair.2 = true

theorem Stuck.not_running (stuck : p.Stuck) {i : ℕ} {thread : DumpThread}
    (ht : p.process.threads[i]? = some thread) : thread.phase.running = false := by
  simpa using List.countP_eq_zero.1 stuck.running thread (List.mem_of_getElem? ht)

/-- A thread that ends does not run. -/
theorem Stuck.ended (stuck : p.Stuck) (i : ℕ) (thread : DumpThread) :
    (p.process.threads.set i { thread with phase := .done }).countP (·.phase.running) = 0 := by
  refine List.countP_eq_zero.2 fun t mem => ?_
  rcases List.mem_or_eq_of_mem_set mem with mem | rfl
  · exact List.countP_eq_zero.1 stuck.running t mem
  · exact Bool.false_ne_true

theorem Stuck.step {e : TestAndSetEvent} (stuck : p.Stuck) (step : p.step cp e = .ok p') :
    p'.Stuck := by
  cases e with
  | read i =>
    rw [step_read] at step
    split_ifs at step with reads
    · cases step
      exact ⟨stuck.flag, stuck.running, List.forall_mem_cons.2 ⟨stuck.flag, stuck.z⟩⟩
    · cases step
      exact stuck
  | agent e =>
    unfold TestingProcess.step at step
    dsimp only at step
    split at step
    · rename_i i thread _
      cases hz : p.z.lookup i with
      | none =>
        rw [hz] at step
        cases step
        exact stuck
      | some z =>
        obtain ⟨before, after, eq, -⟩ := List.lookup_eq_some_iff.1 hz
        obtain rfl : z = true := stuck.z (i, z) (eq ▸ List.mem_append_right _ List.mem_cons_self)
        rw [hz] at step
        cases step
        exact ⟨rfl, stuck.ended i thread, fun pair mem => stuck.z pair (List.mem_of_mem_filter mem)⟩
    · obtain ⟨process, stepped, step⟩ := Run.bind_eq_ok.1 step
      cases step
      cases e with
      | attach a =>
        have attached := step_attached stepped
        exact ⟨attached.maps.inProgress.trans stuck.flag, attached.running.trans stuck.running,
          stuck.z⟩
      | phase i leaks taken =>
        cases ht : p.process.threads[i]? with
        | none =>
          simp only [AgentProcess.step, ht] at stepped
          cases stepped
          exact stuck
        | some thread =>
          -- the thread is at its start, where it finds the flag set, or has ended
          obtain ⟨own, phase⟩ := thread
          have idle := stuck.not_running ht
          rw [step_phase ht] at stepped
          cases stepped
          unfold AgentProcess.phased
          cases phase with
          | start =>
            rw [runPhase_start, if_pos stuck.flag]
            exact ⟨stuck.flag, stuck.ended i ⟨own, .start⟩, stuck.z⟩
          | done => exact ⟨stuck.flag, stuck.ended i ⟨own, .done⟩, stuck.z⟩
          | tag | search | passes | print | release | finish => cases idle

theorem Stuck.after (stuck : p.Stuck) (run : p.after cp events = .ok p') : p'.Stuck :=
  Run.foldlM_invariant (P := fun _ _ => True) (fun _ _ _ stuck _ step => stuck.step step)
    (Run.meets_of_forall (fun _ _ _ => trivial) p) stuck run

/-- What holds while dumps exclude one another: at most one runs, and one does exactly while
`dumpInProgress` is set; no ignore map is deleted twice or while it is the current one; and a map that
an attach has overwritten is never deleted. -/
structure Excludes (cp : CPlatform) (p : TestingProcess) : Prop where
  one : p.process.threads.countP (·.phase.running) ≤ 1
  flag : p.process.globals.dumpInProgress = true ↔ ∃ t ∈ p.process.threads, t.phase.running = true
  once : p.process.deleted.Nodup
  current : ∀ id ∈ p.process.globals.mapIds, id ∉ p.process.deleted
  lost : ∀ id < p.process.globals.mapsCreated, id ∉ p.process.globals.mapIds →
    id ∉ p.process.deleted → ∀ later p', (cp.os = .windows → Undivided later) →
      p.after cp later = .ok p' → id ∉ p'.process.deleted

end TestingProcess

namespace Sample

/-- Two attaches, and the start of two dumps. -/
def twoStarts : List TestAndSetEvent :=
  [.agent (.attach (attachWith "")), .agent (.attach (attachWith "")), .read 0, .read 1,
    .agent (.phase 0 true []), .agent (.phase 1 true [])]

/-- The second dump reads the flag while the first one runs, and writes it when that has ended. -/
def lateWrite : List TestAndSetEvent :=
  [.agent (.attach (attachWith "")), .agent (.attach (attachWith "")), .read 0,
    .agent (.phase 0 true []), .read 1] ++ (phasesOf 0).map .agent ++ [.agent (.phase 1 true [])]

/-- The same with each write after its read. -/
def inOneStep : List TestAndSetEvent :=
  [.agent (.attach (attachWith "")), .agent (.attach (attachWith "")), .read 0,
    .agent (.phase 0 true []), .read 1, .agent (.phase 1 true [])] ++ (phasesOf 0).map .agent

end Sample

/-- However attaches and phases alternate, dumps exclude one another if nothing comes between a read of
`dumpInProgress` and its write, as in all builds but that for Windows.  There two dumps can run, and
`dumpInProgress` can stay set for good although no dump runs. -/
theorem dumps_exclude :
    (∀ (cp : CPlatform) (events : List TestAndSetEvent) (p : TestingProcess),
      (cp.os = .windows → Undivided events) → TestingProcess.init.after cp events = .ok p →
        p.Excludes cp) ∧
    (∃ events p, TestingProcess.init.after Sample.windows events = .ok p ∧
      p.process.threads.countP (·.phase.running) = 2) ∧
    ∃ events p, TestingProcess.init.after Sample.windows events = .ok p ∧
      (∀ t ∈ p.process.threads, t.phase = .done) ∧
      ∀ later p', p.after Sample.windows later = .ok p' →
        p'.process.globals.dumpInProgress = true ∧
          p'.process.threads.countP (·.phase.running) = 0 := by
  refine ⟨fun cp events p undivided run => ?_, ?_, ?_⟩
  · obtain ⟨settled, steps, run⟩ := TestingProcess.Settled.refines (p := .init) rfl undivided run
    have exclusive := exclusive_after run
    refine ⟨?_, ?_, exclusive.deleted_nodup, exclusive.current, ?_⟩
    · rw [exclusive.running]
      split_ifs
      · exact Nat.le_refl 1
      · exact Nat.zero_le 1
    · have running := exclusive.running
      rw [← List.countP_pos_iff, running]
      cases p.process.globals.dumpInProgress <;> simp
    · intro id lt notCurrent notDeleted later p' undivided run'
      obtain ⟨-, steps', run'⟩ := settled.refines undivided run'
      have lost : Lost id p'.process := after_keeps (fun _ _ attached => attached.lost)
        (fun _ _ _ _ _ _ h => h.phased) ⟨lt, notCurrent, notDeleted⟩ run'
      exact lost.notDeleted
  · obtain ⟨p, run, two⟩ := Run.exists_ok_of_any
      (x := TestingProcess.init.after Sample.windows Sample.twoStarts)
      (p := fun p : TestingProcess => p.process.threads.countP (·.phase.running) = 2)
      (by decide +kernel)
    exact ⟨_, p, run, of_decide_eq_true two⟩
  · obtain ⟨p, run, ended⟩ := Run.exists_ok_of_any
      (x := TestingProcess.init.after Sample.windows Sample.lateWrite)
      (p := fun p : TestingProcess => p.process.globals.dumpInProgress = true ∧
        (∀ t ∈ p.process.threads, t.phase = .done) ∧ p.z = []) (by decide +kernel)
    obtain ⟨flag, done, read⟩ := of_decide_eq_true ended
    have stuck : p.Stuck := ⟨flag, List.countP_eq_zero.2 fun t mem => by simp [done t mem,
      DumpPhase.running], by simp [read]⟩
    exact ⟨_, p, run, done, fun later p' run' => ⟨(stuck.after run').flag, (stuck.after run').running⟩⟩

/-- On Windows, with each write after its read: the second dump ends at once. -/
theorem dumps_exclude_inOneStep :
    ∃ p, TestingProcess.init.after Sample.windows Sample.inOneStep = .ok p ∧
      p.process.threads.length = 2 ∧ p.Excludes Sample.windows := by
  obtain ⟨p, run, two⟩ := Run.exists_ok_of_any
    (x := TestingProcess.init.after Sample.windows Sample.inOneStep)
    (p := fun p : TestingProcess => p.process.threads.length = 2) (by decide +kernel)
  have undivided : Undivided Sample.inOneStep :=
    .agent _ (.agent _ (.testAndSet _ _ _ (.testAndSet _ _ _ (Undivided.of_agent _))))
  exact ⟨p, run, of_decide_eq_true two, dumps_exclude.1 _ _ p (fun _ => undivided) run⟩

end JLeaker
