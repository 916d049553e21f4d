import JLeaker.Lib.Logged
import JLeaker.Model.JvmReference

/-!
# `jvm_reference.c`: the lists the search scans

The functions of `JvmReference` that search for a chain, which here write down each node when they
begin to scan its list of references.
-/

namespace JLeaker

variable {Obj : Type}

/-- The loop of `generateReferencesChainForNode` over the references of `node`. -/
def scanReferencesLogged (g : GlobalData) (leakNumber : ℕ)
    (visit : ℕ → ChainState Obj → Logged Fault ℕ (Option ℕ × ChainState Obj)) (node : ℕ) :
    List MemoryReferer → ChainState Obj → Logged Fault ℕ (Option ℕ × ChainState Obj)
  | [], st => pure (none, st)
  | ref :: rest, st =>
    if !shouldConsiderThisReference g ref.kind then
      scanReferencesLogged g leakNumber visit node rest st
    else if !isRootReference ref.kind then
      match ref.node with
      | none => liftM (Except.error Fault.fatalError)
      | some next => do
        let (orderedRefs, st) ← visit next st
        match orderedRefs with
        | none =>
          let nodes := st.nodes.modify node fun nd =>
            { nd with leaksRelated := nd.leaksRelated.remove leakNumber }
          scanReferencesLogged g leakNumber visit node rest { st with nodes := nodes }
        | some last => pure (some last, st.insertAfter last ref)
    else
      let (last, st) := st.single ref
      pure (some last, st)

/-- `generateReferencesChainForNode`. -/
def generateReferencesChainForNodeLogged (env : Agent Obj) (objectsWithTag : ℕ → List Obj) :
    ℕ → ℕ → ℕ → ChainState Obj → Logged Fault ℕ (Option ℕ × ChainState Obj)
  | 0, _, _, _ => liftM (Except.error Fault.outOfFuel)
  | fuel + 1, node, leakNumber, st => do
    let nd ← deref st.nodes node
    if nd.visited then
      return (none, st)
    if !nd.leaksRelated.contains leakNumber then
      return (none, st)
    let nodes := st.nodes.modify node fun nd => { nd with visited := true }
    let nodes ← fillClassInMemoryNode env.jvm objectsWithTag node nodes
    let nd ← deref nodes node
    let st := { st with nodes := nodes }
    let (orderedRefs, st) ←
      if !nd.dead then do
        Logged.emit node
        scanReferencesLogged env.gdata leakNumber
          (fun next st =>
            generateReferencesChainForNodeLogged env objectsWithTag fuel next leakNumber st)
          node nd.start st
      else pure (none, st)
    let nodes := st.nodes.modify node fun nd => { nd with visited := false }
    return (orderedRefs, { st with nodes := nodes })

end JLeaker
