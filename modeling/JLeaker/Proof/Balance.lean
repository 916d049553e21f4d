import JLeaker.Proof.DumpBlocks
import JLeaker.Proof.OptionReset

/-!
# The allocator's counts

A dump leaves the two counts as far apart as it found them, but for the entries of
`ignore_referenced_by`, which it frees, and the texts it loses in the case of a JNI local reference.
Reading a configuration allocates two blocks for each entry.  So the counts differ at the end of a
dump if and only if some text was lost, or the entries of an attach that was rejected were
overwritten by the next one.
-/

namespace JLeaker

open CString

variable {Obj : Type} {cp : CPlatform}

/-! ## Reading a configuration -/

/-- The entries read since the counters were `c` are the blocks allocated since. -/
structure EntriesCounted (c : Counters) (conf : Configuration) : Prop where
  keys : KeysNodup conf.ignoreReferencedBy
  count : conf.counters.allocations + c.frees =
    c.allocations + conf.counters.frees + 2 * entriesIn conf.ignoreReferencedBy

theorem EntriesCounted.iniHandler {c : Counters} {conf : Configuration}
    (counted : EntriesCounted c conf) (sectionName name value : Str) :
    EntriesCounted c (iniHandler cp conf sectionName name value).2 := by
  unfold JLeaker.iniHandler
  dsimp only
  split_ifs
  · exact ⟨counted.keys, counted.count⟩
  · exact counted
  · rcases splitAtLastDot name with _ | ⟨classname, fieldName⟩
    · exact counted
    · dsimp only
      split_ifs
      · exact counted
      · refine ⟨counted.keys.smPut _ _, ?_⟩
        have entries := entriesIn_smPut counted.keys classname
          (⟨0, String.ofList fieldName, toInt (strtol cp.longBits value).1⟩ ::
            (smGet conf.ignoreReferencedBy classname).getD [])
        have count := counted.count
        rw [List.length_cons] at entries
        simp only [Counters.count]
        omega
  · exact counted

theorem readConfFiles_entriesCounted (files : Str → Option Str) (iniFiles : List Str)
    {c : Counters} {conf : Configuration} (counted : EntriesCounted c conf) :
    EntriesCounted c (iniFiles.foldl (readConfFile cp files) conf) := by
  induction iniFiles generalizing conf with
  | nil => exact counted
  | cons name iniFiles ih =>
    exact ih (iniParse_invariant (fun _ _ _ _ h => h.iniHandler _ _ _) files name counted)

/-! ## One attach -/

/-- The blocks no later dump will free. -/
def AgentGlobals.lost (g : AgentGlobals) : ℤ :=
  g.counters.allocations - g.counters.frees - 2 * entriesOf g.ignoreReferencedBy

/-- Before an attach: no node is left, and nothing is counted before the first attach. -/
structure AgentMemory.Idle (m : AgentMemory Obj) : Prop where
  empty : m.nodes.dom = ∅
  keys : KeysNodup (m.globals.ignoreReferencedBy.elim [] (·.pairs))
  fresh : m.globals.vmStarted = false → m.globals.counters = ⟨0, 0⟩

theorem AgentMemory.idle_loaded : (AgentMemory.loaded : AgentMemory Obj).Idle :=
  ⟨rfl, keysNodup_nil, fun _ => rfl⟩

/-- An attach loses the entries it overwrites. -/
theorem initAgent_lost {g g' : AgentGlobals} {a : Attach} {accepted : Bool}
    (fresh : g.vmStarted = false → g.counters = ⟨0, 0⟩)
    (h : initAgent cp g a = .ok (accepted, g')) :
    KeysNodup (g'.ignoreReferencedBy.elim [] (·.pairs)) ∧ g'.vmStarted = true ∧
      g'.lost = g.lost + 2 * entriesOf g.ignoreReferencedBy := by
  obtain ⟨settings, iniFiles, -, rfl⟩ := initAgent_eq_ok_iff.1 h
  have start : g.start.counters = g.counters ∧ g.start.vmStarted = true := by
    unfold AgentGlobals.start
    split_ifs with started
    · exact ⟨rfl, started⟩
    · exact ⟨(fresh (by simpa using started)).symm, rfl⟩
  have counted : EntriesCounted g.counters ⟨[], [], g.start.counters⟩ := by
    refine ⟨keysNodup_nil, ?_⟩
    rw [start.1]
    rfl
  have read : EntriesCounted g.counters
      (iniFiles.foldl (readConfFile cp a.files) ⟨[], [], g.start.counters⟩) :=
    readConfFiles_entriesCounted a.files iniFiles counted
  refine ⟨read.keys, start.2, ?_⟩
  have count := read.count
  simp only [AgentGlobals.lost, AgentGlobals.configured, entriesOf, Option.elim_some]
  omega

variable [DecidableEq Obj]

/-- What an attach with its dump loses. -/
theorem AgentMemory.Idle.attach_lost {m m' : AgentMemory Obj} {e : Attach × JvmDump Obj}
    (idle : m.Idle) (h : m.attach cp e = .ok m') :
    m'.Idle ∧ m.jniLocals ≤ m'.jniLocals ∧
      m'.globals.lost = m.globals.lost + 2 * entriesOf m.globals.ignoreReferencedBy +
        (m'.jniLocals - m.jniLocals) := by
  obtain ⟨⟨accepted, g⟩, hinit, h⟩ := Run.bind_eq_ok.1 h
  obtain ⟨keys, started, lost⟩ := initAgent_lost idle.fresh hinit
  cases accepted with
  | false =>
    cases h
    refine ⟨⟨idle.empty, keys, fun h => ?_⟩, le_rfl, ?_⟩
    · exact absurd (started.symm.trans h) Bool.noConfusion
    · rw [lost]
      simp
  | true =>
    obtain ⟨empty, none, vmStarted, tracks⟩ :=
      dumperThreadMain_tracks (m := { m with globals := g }) idle.empty keys h
    refine ⟨⟨empty, ?_, fun h => ?_⟩, tracks.jniLocals, ?_⟩
    · rw [none]
      exact keysNodup_nil
    · exact absurd ((vmStarted.trans started).symm.trans h) Bool.noConfusion
    · have owed := tracks.owed
      have left : entriesOf m'.globals.ignoreReferencedBy = 0 := by
        rw [none]
        rfl
      simp only [Ledger.owed, AgentGlobals.lost, left] at owed lost ⊢
      omega

/-! ## Sequences of attaches -/

/-- The attach finds no entries to overwrite, and its dump, if any, does not take the case of a JNI
local reference in `printSingleReference`. -/
def AgentMemory.LosesNothing (cp : CPlatform) (m : AgentMemory Obj) (e : Attach × JvmDump Obj) :
    Prop :=
  entriesOf m.globals.ignoreReferencedBy = 0 ∧
    ∀ m', m.attach cp e = .ok m' → m'.jniLocals = m.jniLocals

/-- Nothing that was lost is found again, and nothing is lost exactly if no attach loses anything. -/
theorem AgentMemory.Idle.run_lost {m m' : AgentMemory Obj} {es : List (Attach × JvmDump Obj)}
    (idle : m.Idle) (run : es.foldlM (AgentMemory.attach cp) m = .ok m') :
    m'.Idle ∧ m.globals.lost ≤ m'.globals.lost ∧ (m'.globals.lost = m.globals.lost ↔
      Run.Meets (AgentMemory.attach cp) (AgentMemory.LosesNothing cp) m es) := by
  induction es generalizing m with
  | nil =>
    cases run
    exact ⟨idle, le_rfl, iff_of_true rfl trivial⟩
  | cons e es ih =>
    obtain ⟨m₁, first, rest⟩ := Run.foldlM_cons_eq_ok.1 run
    obtain ⟨idle₁, jniLocals, lost⟩ := idle.attach_lost first
    obtain ⟨idle', le, iff⟩ := ih idle₁ rest
    refine ⟨idle', by omega, fun same => ⟨⟨by omega, fun m₂ h => ?_⟩, fun m₂ h => ?_⟩,
      fun meets => ?_⟩
    · obtain rfl := Except.ok.inj (first.symm.trans h)
      omega
    · obtain rfl := Except.ok.inj (first.symm.trans h)
      exact iff.1 (by omega)
    · obtain ⟨⟨none, kept⟩, meets⟩ := meets
      have same := iff.2 (meets m₁ first)
      have kept := kept m₁ first
      omega

/-- At the end of a dump after any sequence of attaches, the allocator has counted as many frees as
allocations if and only if none of these attaches overwrote the entries of a rejected one, and no
dump took the case of a JNI local reference in `printSingleReference`. -/
theorem allocations_balance_iff (cp : CPlatform) {earlier : List (Attach × JvmDump Obj)}
    {m m' : AgentMemory Obj} (run : earlier.foldlM (AgentMemory.attach cp) .loaded = .ok m)
    {a : Attach} {g : AgentGlobals} (accepted : initAgent cp m.globals a = .ok (true, g))
    {d : JvmDump Obj} (dump : d.dumperThreadMain { m with globals := g } = .ok m') :
    m'.globals.counters.allocations = m'.globals.counters.frees ↔
      Run.Meets (AgentMemory.attach cp) (AgentMemory.LosesNothing cp) .loaded
        (earlier ++ [(a, d)]) := by
  have last : m.attach cp (a, d) = .ok m' := by
    unfold AgentMemory.attach
    rw [accepted, Run.ok_bind]
    exact dump
  have all : (earlier ++ [(a, d)]).foldlM (AgentMemory.attach cp) .loaded = .ok m' := by
    rw [List.foldlM_append, run]
    exact Run.foldlM_cons_eq_ok.2 ⟨m', last, rfl⟩
  obtain ⟨idle, -, -⟩ := AgentMemory.idle_loaded.run_lost run
  obtain ⟨keys, -, -⟩ := initAgent_lost idle.fresh accepted
  obtain ⟨-, none, -, -⟩ :=
    dumperThreadMain_tracks (m := { m with globals := g }) idle.empty keys dump
  obtain ⟨-, -, iff⟩ := AgentMemory.idle_loaded.run_lost all
  have loaded : (AgentMemory.loaded : AgentMemory Obj).globals.lost = 0 := rfl
  have lost : m'.globals.lost = m'.globals.counters.allocations - m'.globals.counters.frees := by
    rw [AgentGlobals.lost, none]
    exact sub_zero _
  rw [← iff, lost, loaded]
  omega

namespace Sample

/-- A JVM in which object `3` is a leak, with these references. -/
def jvmDump (refs : List (HeapReference (Fin 12))) : JvmDump (Fin 12) where
  jvm := mapJvm
  info := mapInfo
  hierarchy := flat
  ready _ := true
  threadId := 7
  malloc := .above
  tags _ := 0
  objects := List.finRange 12
  reported := [0, 1, 2, 3, 11]
  loadedClasses := [0, 1, 2, 11]
  loadedClasses_nodup := by decide
  size _ o := if o = 3 then 1000 else 0
  order _ := refs
  location _ := "text".toList
  elements _ := [["a \"quoted\" value".toList]]

end Sample

/-- Two dumps, the second one with a leak that a JNI global reference holds. -/
theorem allocations_balance_twoDumps :
    ∃ m g m', [(Sample.attachWith "no_gc", Sample.jvmDump [])].foldlM
        (AgentMemory.attach Sample.unix64) .loaded = .ok m ∧
      initAgent Sample.unix64 m.globals (Sample.attachWith "reference_chain_length=5") =
        .ok (true, g) ∧
      (Sample.jvmDump [Sample.jniGlobal 3]).dumperThreadMain { m with globals := g } = .ok m' ∧
      m'.globals.counters.allocations = 55 ∧
      Run.Meets (AgentMemory.attach Sample.unix64) (AgentMemory.LosesNothing Sample.unix64) .loaded
        ([(Sample.attachWith "no_gc", Sample.jvmDump [])] ++
          [(Sample.attachWith "reference_chain_length=5", Sample.jvmDump [Sample.jniGlobal 3])]) := by
  obtain ⟨m, run, hm⟩ := Run.exists_ok_of_any
    (x := [(Sample.attachWith "no_gc", Sample.jvmDump [])].foldlM
      (AgentMemory.attach Sample.unix64) .loaded)
    (p := fun m : AgentMemory (Fin 12) =>
      (initAgent Sample.unix64 m.globals (Sample.attachWith "reference_chain_length=5")).toOption.any
        fun r : Bool × AgentGlobals => r.1 &&
          ((Sample.jvmDump [Sample.jniGlobal 3]).dumperThreadMain { m with globals := r.2 }).toOption.any
            fun m' : AgentMemory (Fin 12) =>
              decide (m'.globals.counters = ⟨55, 55⟩))
    (by decide +kernel)
  obtain ⟨⟨accepted, g⟩, attached, hm⟩ := Run.exists_ok_of_any hm
  obtain ⟨haccepted, hm⟩ := Bool.and_eq_true_iff.1 hm
  obtain ⟨m', dump, hm'⟩ := Run.exists_ok_of_any hm
  obtain rfl : accepted = true := haccepted
  have counters : m'.globals.counters = ⟨55, 55⟩ := of_decide_eq_true hm'
  refine ⟨m, g, m', run, attached, dump, by rw [counters], ?_⟩
  exact (allocations_balance_iff Sample.unix64 run attached dump).1 (by rw [counters])

namespace Sample

/-- A configuration file with one entry, and no other file. -/
def oneEntry (name : Str) : Option Str :=
  if name = "fields".toList then some "[ignore_referenced_by]\nHolder.next = 5\n".toList else none

end Sample

/-- The dump of a leak that a JNI local reference holds loses a block, and an attach after one that
is rejected with an entry of `ignore_referenced_by` loses two. -/
theorem allocations_unbalanced :
    (∃ m, AgentMemory.loaded.attach Sample.unix64
        (Sample.attachWith "reference_chain_length=5,consider_local_references",
          Sample.jvmDump [Sample.jniLocal 3]) = .ok m ∧
      m.globals.counters.allocations = m.globals.counters.frees + 1) ∧
    ∃ g m m', initAgent Sample.unix64 .loaded
        ⟨some "conf_file=fields:absent".toList, Sample.oneEntry⟩ = .ok (false, g) ∧
      AgentMemory.loaded.attach Sample.unix64
        (⟨some "conf_file=fields:absent".toList, Sample.oneEntry⟩,
          Sample.jvmDump [Sample.jniGlobal 3]) = .ok m ∧
      m.attach Sample.unix64 (Sample.attachWith "reference_chain_length=5",
        Sample.jvmDump [Sample.jniGlobal 3]) = .ok m' ∧
      m'.globals.counters.allocations = m'.globals.counters.frees + 2 := by
  refine ⟨?_, ?_⟩
  · obtain ⟨m, run, hm⟩ := Run.exists_ok_of_any
      (x := AgentMemory.loaded.attach Sample.unix64
        (Sample.attachWith "reference_chain_length=5,consider_local_references",
          Sample.jvmDump [Sample.jniLocal 3]))
      (p := fun m : AgentMemory (Fin 12) =>
        decide (m.globals.counters.allocations = m.globals.counters.frees + 1))
      (by decide +kernel)
    exact ⟨m, run, of_decide_eq_true hm⟩
  · obtain ⟨⟨accepted, g⟩, attached, haccepted⟩ := Run.exists_ok_of_any
      (x := initAgent Sample.unix64 .loaded
        ⟨some "conf_file=fields:absent".toList, Sample.oneEntry⟩)
      (p := fun r : Bool × AgentGlobals => !r.1) (by decide +kernel)
    obtain rfl : accepted = false := by simpa using haccepted
    obtain ⟨m, run, hm⟩ := Run.exists_ok_of_any
      (x := AgentMemory.loaded.attach Sample.unix64
        (⟨some "conf_file=fields:absent".toList, Sample.oneEntry⟩,
          Sample.jvmDump [Sample.jniGlobal 3]))
      (p := fun m : AgentMemory (Fin 12) =>
        (m.attach Sample.unix64 (Sample.attachWith "reference_chain_length=5",
          Sample.jvmDump [Sample.jniGlobal 3])).toOption.any fun m' : AgentMemory (Fin 12) =>
            decide (m'.globals.counters.allocations = m'.globals.counters.frees + 2))
      (by decide +kernel)
    obtain ⟨m', run', hm'⟩ := Run.exists_ok_of_any hm
    exact ⟨g, m, m', attached, run, run', of_decide_eq_true hm'⟩

end JLeaker
