import JLeaker.Model.Attach

/-!
# `__sync_lock_test_and_set`

The compiler's function tests and sets `dumpInProgress` in one step.  On Windows `jleaker.c` defines the
function itself, as a read and a write, and other threads may come between the two.
-/

namespace JLeaker

/-- What happens next: an event of the agent, or the read of a thread at its start. -/
inductive TestAndSetEvent
  /-- `jboolean z = *x;` -/
  | read (thread : ℕ)
  | agent (e : AgentEvent)

/-- The agent, and the threads that have read `dumpInProgress` and not written it yet, with their `z`. -/
structure TestingProcess where
  process : AgentProcess
  z : List (ℕ × Bool)

namespace TestingProcess

/-- The agent before the first attach. -/
def init : TestingProcess := ⟨.init, []⟩

/-- The thread at its start whose next phase the event is. -/
def starting (s : TestingProcess) : AgentEvent → Option (ℕ × DumpThread)
  | .attach _ => none
  | .phase i _ _ => (s.process.threads[i]?.filter fun t => t.phase = .start).map (i, ·)

/-- `*x = y;`, and where the thread goes on with its `z`. -/
def write (s : TestingProcess) (i : ℕ) (thread : DumpThread) (z : Bool) : TestingProcess where
  process := { s.process with
    globals := { s.process.globals with dumpInProgress := true }
    threads := s.process.threads.set i { thread with phase := if z then .done else .tag } }
  z := s.z.filter (·.1 ≠ i)

/-- One step: where the compiler has the function, the start of a dump is one event. -/
def step (cp : CPlatform) (s : TestingProcess) : TestAndSetEvent → Except Fault TestingProcess
  | .read i =>
    if cp.os = .windows ∧ s.z.lookup i = none ∧
        (s.process.threads[i]?.any fun t => t.phase = .start) then
      .ok { s with z := (i, s.process.globals.dumpInProgress) :: s.z }
    else .ok s
  | .agent e =>
    match if cp.os = .windows then s.starting e else none with
    -- a thread that has not read yet does not write
    | some (i, thread) => .ok ((s.z.lookup i).elim s (s.write i thread))
    | none => do
      let process ← s.process.step cp e
      return { s with process := process }

/-- The state after a list of events. -/
def after (cp : CPlatform) (s : TestingProcess) (events : List TestAndSetEvent) :
    Except Fault TestingProcess := events.foldlM (step cp) s

end TestingProcess

namespace Sample

/-- On Windows a `long` has 32 bits. -/
def windows : CPlatform := ⟨.windows, 32, le_rfl⟩

end Sample

end JLeaker
