import JLeaker.Model.AgentOptions
import JLeaker.Model.Allocator
import JLeaker.Model.DataStruct
import JLeaker.Model.Ini

/-!
# `jleaker.c`: attaching the agent

Every attach runs `initAgent`, which writes the options and two new ignore maps into the one global
record `gdata`, and then starts a thread that runs `dumperThreadMain`.  The thread reads `gdata`
again in each phase of its dump; a thread that finds another dump in progress ends at once.
-/

namespace JLeaker

open CString

/-! ## The ignore maps -/

/-- The two maps while a configuration is read, and the allocator. -/
structure Configuration where
  ignoreClasses : StrMap Unit
  ignoreReferencedBy : StrMap (List IgnoreField)
  counters : Counters

/-- The parts of a name before and after its last dot. -/
def splitAtLastDot (name : Str) : Option (Str × Str) :=
  if '.' ∈ name then
    some ((name.reverse.dropWhile (· ≠ '.')).tail.reverse, (name.reverse.takeWhile (· ≠ '.')).reverse)
  else none

/-- `ini_handler`. -/
def iniHandler (cp : CPlatform) (conf : Configuration) (sectionName name value : Str) :
    Bool × Configuration :=
  if sectionName = "ignore_classes".toList then
    (true, { conf with ignoreClasses := smPut conf.ignoreClasses name () })
  else if sectionName = "ignore_referenced_by".toList then
    let (v, endptr) := strtol cp.longBits value
    if endptr ≠ [] then (false, conf)
    else
      match splitAtLastDot name with
      | none => (false, conf)
      | some (classname, fieldName) =>
        if fieldName = [] then (false, conf)
        else
          -- the element and its name are kept, the copy of the class name is freed
          let counters := conf.counters.count 3 1
          let old := (smGet conf.ignoreReferencedBy classname).getD []
          let newElement : IgnoreField := ⟨0, String.ofList fieldName, toInt v⟩
          (true, { conf with
            ignoreReferencedBy := smPut conf.ignoreReferencedBy classname (newElement :: old)
            counters := counters })
  else (true, conf)

/-- What one `ini_parse` does to the configuration. -/
def readConfFile (cp : CPlatform) (files : Str → Option Str) (conf : Configuration) (name : Str) :
    Configuration := (iniParse (iniHandler cp) files name conf).2

/-! ## The global record -/

/-- A map made by `sm_new`, with the number of the call that made it. -/
structure IgnoreMap (V : Type) where
  id : ℕ
  pairs : StrMap V

/-- `GlobalData` and the allocator, as far as attaches and the order of dumps go. -/
structure AgentGlobals where
  vmStarted : Bool
  dumpInProgress : Bool
  settings : AgentSettings
  ignoreClasses : Option (IgnoreMap Unit)
  ignoreReferencedBy : Option (IgnoreMap (List IgnoreField))
  /-- How often `sm_new` was called. -/
  mapsCreated : ℕ
  /-- The allocator's `selfCheck`. -/
  selfCheck : Bool
  counters : Counters

/-- The library that was just loaded: static storage, all zero. -/
def AgentGlobals.loaded : AgentGlobals where
  vmStarted := false
  dumpInProgress := false
  settings := .fresh
  ignoreClasses := none
  ignoreReferencedBy := none
  mapsCreated := 0
  selfCheck := false
  counters := ⟨0, 0⟩

/-- An attach: the option string, and the contents of the files that can be opened. -/
structure Attach where
  options : Option Str
  files : Str → Option Str

/-- `initAllocator`. -/
def AgentGlobals.initAllocator (g : AgentGlobals) (selfCheck : Bool) : AgentGlobals :=
  { g with selfCheck := selfCheck, counters := ⟨0, 0⟩ }

/-- The part of `initAgent` that only the first attach runs. -/
def AgentGlobals.start (g : AgentGlobals) : AgentGlobals :=
  if g.vmStarted then g
  else { g.initAllocator g.settings.selfCheck with vmStarted := true }

/-- What `ini_parse` returns for a file; the result of the handler for a pair does not depend on the
pairs before it. -/
def Attach.iniResult (cp : CPlatform) (a : Attach) (name : Str) : ℤ :=
  (iniParse (iniHandler cp) a.files name ⟨[], [], ⟨0, 0⟩⟩).1

/-- `initAgent`: whether it accepts the options, unless it crashes. -/
def initAgent (cp : CPlatform) (g : AgentGlobals) (a : Attach) : Except Fault (Bool × AgentGlobals) :=
  let g := g.start
  match parseAgentOptions cp (a.iniResult cp) g.settings a.options with
  | .crashed => .error .invalidPointer
  | .outOfFuel => .error .outOfFuel
  | .returned success settings iniFiles =>
    let conf := iniFiles.foldl (readConfFile cp a.files) ⟨[], [], g.counters⟩
    .ok (success, { g with
      settings := settings
      ignoreClasses := some ⟨g.mapsCreated, conf.ignoreClasses⟩
      ignoreReferencedBy := some ⟨g.mapsCreated + 1, conf.ignoreReferencedBy⟩
      mapsCreated := g.mapsCreated + 2
      counters := conf.counters })

/-! ## The phases of a dump -/

/-- What the thread of a dump does next. -/
inductive DumpPhase
  | start
  | tag
  | search
  | passes
  | print
  | release
  | finish
  /-- The thread has ended. -/
  | done
deriving DecidableEq

/-- What a phase reads of the options and the ignore maps. -/
inductive PhaseInput
  | start (runGc : Bool) (tcpPort : ℤ)
  | tag (ignoreClasses : Option (IgnoreMap Unit))
  | search (sizeThreshold : ℤ)
  | passes (referenceChainLength maxFanIn : ℤ)
      (ignoreReferencedBy : Option (IgnoreMap (List IgnoreField)))
  | print (referenceChainLength : ℤ) (considerLocalReferences showUnreachables : Bool)
      (numElementsToDump : ℤ)
  | release (ignoreClasses ignoreReferencedBy : Option ℕ)
  | finish (selfCheck : Bool)
  | done

/-- The reads of a phase, besides `debug`, which every phase reads. -/
def DumpPhase.reads (g : AgentGlobals) : DumpPhase → Bool × PhaseInput
  | .start => (g.settings.debug, .start g.settings.runGc g.settings.tcpPort)
  | .tag => (g.settings.debug, .tag g.ignoreClasses)
  | .search => (g.settings.debug, .search g.settings.sizeThreshold)
  | .passes => (g.settings.debug, .passes g.settings.referenceChainLength g.settings.maxFanIn
      g.ignoreReferencedBy)
  | .print => (g.settings.debug, .print g.settings.referenceChainLength
      g.settings.considerLocalReferences g.settings.showUnreachables g.settings.numElementsToDump)
  | .release => (g.settings.debug, .release (g.ignoreClasses.map (·.id))
      (g.ignoreReferencedBy.map (·.id)))
  | .finish => (g.settings.debug, .finish g.settings.selfCheck)
  | .done => (false, .done)

/-- The thread of a dump, with what its attach left in `gdata`. -/
structure DumpThread where
  own : AgentGlobals
  phase : DumpPhase

/-- The agent with its threads. -/
structure AgentProcess where
  globals : AgentGlobals
  threads : List DumpThread
  /-- The maps `sm_delete` was called for. -/
  deleted : List ℕ

/-- The agent before the first attach. -/
def AgentProcess.init : AgentProcess := ⟨.loaded, [], []⟩

/-- What happens next: an attach, or the next phase of a thread.  A dump may find no leak, which ends
the search, and its first pass takes the lists of some class names from `ignore_referenced_by`. -/
inductive AgentEvent
  | attach (a : Attach)
  | phase (thread : ℕ) (leaks : Bool) (taken : List Str)

/-- The next phase of a thread, and what it does to the process. -/
def AgentProcess.runPhase (s : AgentProcess) (leaks : Bool) (taken : List Str) :
    DumpPhase → DumpPhase × AgentProcess
  | .start =>
    -- `__sync_lock_test_and_set(&gdata->dumpInProgress, JNI_TRUE)` in one step, as where the compiler
    -- has the function; `TestingProcess` has the two steps of the one for Windows
    if s.globals.dumpInProgress then (.done, s)
    else (.tag, { s with globals := { s.globals with dumpInProgress := true } })
  | .tag => (.search, s)
  | .search => (if leaks then .passes else .release, s)
  | .passes => (.print, { s with globals := { s.globals with
      ignoreReferencedBy := s.globals.ignoreReferencedBy.map fun map =>
        { map with pairs := map.pairs.map fun pair =>
            if pair.1 ∈ taken then (pair.1, []) else pair } } })
  | .print => (.release, s)
  | .release => (.finish, { s with
      deleted := s.deleted ++ (s.globals.ignoreClasses.map (·.id)).toList ++
        (s.globals.ignoreReferencedBy.map (·.id)).toList
      globals := { s.globals with ignoreClasses := none, ignoreReferencedBy := none } })
  | .finish => (.done, { s with globals := { s.globals with dumpInProgress := false } })
  | .done => (.done, s)

/-- One step of the process. -/
def AgentProcess.step (cp : CPlatform) (s : AgentProcess) : AgentEvent → Except Fault AgentProcess
  | .attach a => do
    let (accepted, globals) ← initAgent cp s.globals a
    return { s with
      globals := globals
      threads := if accepted then s.threads ++ [⟨globals, .start⟩] else s.threads }
  | .phase i leaks taken =>
    match s.threads[i]? with
    | none => .ok s
    | some thread =>
      let (phase, s) := s.runPhase leaks taken thread.phase
      .ok { s with threads := s.threads.set i { thread with phase := phase } }

/-- The state after a list of events. -/
def AgentProcess.after (cp : CPlatform) (s : AgentProcess) (events : List AgentEvent) :
    Except Fault AgentProcess := events.foldlM (AgentProcess.step cp) s

end JLeaker
