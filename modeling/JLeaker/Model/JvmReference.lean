import JLeaker.Model.LeakDetect

/-!
# `jvm_reference.c`: the chain from a leak to a root

`generateReferencesChainForNode` searches the recorded graph depth first for a root reference.  The
chain it returns is a circular list of `OrderedReferences` cells, of which it returns the last one.
-/

namespace JLeaker

variable {Obj : Type}

/-- `OrderedReferences`; `next` is the position of a cell. -/
structure OrderedReferences where
  ref : MemoryReferer
  next : ℕ
  deriving DecidableEq, Repr

/-- The nodes and the cells allocated for chains. -/
structure ChainState (Obj : Type) where
  nodes : CHeap (MemoryNode Obj)
  cells : List OrderedReferences

/-- `fillClassInMemoryNode`; `objectsWithTag` answers `GetObjectsWithTags` for one tag. -/
def fillClassInMemoryNode (jvm : Jvm Obj) (objectsWithTag : ℕ → List Obj) (node : ℕ)
    (nodes : CHeap (MemoryNode Obj)) : Except Fault (CHeap (MemoryNode Obj)) := do
  let nd ← deref nodes node
  if nd.dead then
    return nodes
  if nd.klass.isSome then
    return nodes
  match nd.obj, objectsWithTag node with
  | some o, _ | none, [o] =>
    let klass := jvm.classOf o
    return nodes.modify node fun nd =>
      { nd with obj := some o, klass := some klass, classname := some (jvm.className klass) }
  | none, [] => return nodes.modify node fun nd => { nd with dead := true }
  | none, _ :: _ :: _ => .error .fatalError

/-- A list of one cell that points to itself: the end of a chain at a root reference. -/
def ChainState.single (st : ChainState Obj) (ref : MemoryReferer) : ℕ × ChainState Obj :=
  (st.cells.length, { st with cells := st.cells ++ [⟨ref, st.cells.length⟩] })

/-- Put a new cell between the cell `last` and the one after it. -/
def ChainState.insertAfter (st : ChainState Obj) (last : ℕ) (ref : MemoryReferer) :
    ChainState Obj :=
  match st.cells[last]? with
  | none => st
  | some cell =>
    let first := cell.next
    { st with
      cells := st.cells.set last { cell with next := st.cells.length } ++ [⟨ref, first⟩] }

/-- The loop of `generateReferencesChainForNode` over the references of `node`; `visit` is the
recursive call. -/
def scanReferences (g : GlobalData) (leakNumber : ℕ)
    (visit : ℕ → ChainState Obj → Except Fault (Option ℕ × ChainState Obj)) (node : ℕ) :
    List MemoryReferer → ChainState Obj → Except Fault (Option ℕ × ChainState Obj)
  | [], st => .ok (none, st)
  | ref :: rest, st =>
    if !shouldConsiderThisReference g ref.kind then
      scanReferences g leakNumber visit node rest st
    else if !isRootReference ref.kind then
      match ref.node with
      | none => .error .fatalError
      | some next => do
        let (orderedRefs, st) ← visit next st
        match orderedRefs with
        | none =>
          -- the leak is taken from the node as soon as one reference leads nowhere
          let nodes := st.nodes.modify node fun nd =>
            { nd with leaksRelated := nd.leaksRelated.remove leakNumber }
          scanReferences g leakNumber visit node rest { st with nodes := nodes }
        | some last => .ok (some last, st.insertAfter last ref)
    else
      let (last, st) := st.single ref
      .ok (some last, st)

/-- `generateReferencesChainForNode`; the first argument bounds the depth of the recursion. -/
def generateReferencesChainForNode (env : Agent Obj) (objectsWithTag : ℕ → List Obj) :
    ℕ → ℕ → ℕ → ChainState Obj → Except Fault (Option ℕ × ChainState Obj)
  | 0, _, _, _ => .error .outOfFuel
  | fuel + 1, node, leakNumber, st => do
    let nd ← deref st.nodes node
    if nd.visited then
      return (none, st)
    if !nd.leaksRelated.contains leakNumber then
      return (none, st)
    let nodes := st.nodes.modify node fun nd => { nd with visited := true }
    let nodes ← fillClassInMemoryNode env.jvm objectsWithTag node nodes
    let nd ← deref nodes node
    let st := { st with nodes := nodes }
    let (orderedRefs, st) ←
      if !nd.dead then
        scanReferences env.gdata leakNumber
          (fun next st =>
            generateReferencesChainForNode env objectsWithTag fuel next leakNumber st)
          node nd.start st
      else .ok (none, st)
    let nodes := st.nodes.modify node fun nd => { nd with visited := false }
    return (orderedRefs, { st with nodes := nodes })

/-- The loop of `printReferenceChainToNode`: the references of the cells from `orderedRefs` up to
and including the cell `last`. -/
def readChain (cells : List OrderedReferences) (last : ℕ) : ℕ → ℕ → Option (List MemoryReferer)
  | 0, _ => none
  | fuel + 1, orderedRefs => do
    let cell ← cells[orderedRefs]?
    if orderedRefs = last then
      return [cell.ref]
    let rest ← readChain cells last fuel cell.next
    return cell.ref :: rest

/-- The references `printReferenceChainToNode` prints for the list it is given. -/
def printedChain (st : ChainState Obj) (orderedRefs : ℕ) : Option (List MemoryReferer) := do
  let cell ← st.cells[orderedRefs]?
  readChain st.cells orderedRefs st.cells.length cell.next

/-- The lookups `printSingleReference` makes for the references it prints one after another. -/
def printReferences (jvm : Jvm Obj) (objectsWithTag : ℕ → List Obj) (refs : List MemoryReferer)
    (nodes : CHeap (MemoryNode Obj)) : Except Fault (CHeap (MemoryNode Obj)) :=
  refs.foldlM (fun nodes ref =>
    match ref.node with
    | none => .ok nodes
    | some node => fillClassInMemoryNode jvm objectsWithTag node nodes) nodes

/-- One turn of the loop of `printReferencesChainForLeakingNodes`: the chain found for a leak. -/
def printLeak (env : Agent Obj) (objectsWithTag : ℕ → List Obj) (fuel : ℕ)
    (isNeedReferences : Bool) (leak : LeakingNode) (st : ChainState Obj) :
    Except Fault (Option (List MemoryReferer) × ChainState Obj) := do
  let (orderedRefs, st) ←
    if isNeedReferences then
      generateReferencesChainForNode env objectsWithTag fuel leak.node leak.leakNumber st
    else .ok (none, st)
  let chain := orderedRefs.bind (printedChain st)
  if orderedRefs.isSome || env.gdata.showUnreachables then
    let nodes ← fillClassInMemoryNode env.jvm objectsWithTag leak.node st.nodes
    let n ← deref nodes leak.node
    let nodes ←
      if isNeedReferences then
        printReferences env.jvm objectsWithTag (chain.getD n.start) nodes
      else .ok nodes
    return (chain, { st with nodes := nodes })
  return (chain, st)

/-- `printReferencesChainForLeakingNodes`: the chain found for each leak. -/
def printReferencesChainForLeakingNodes (env : Agent Obj) (objectsWithTag : ℕ → List Obj)
    (fuel : ℕ) (isNeedReferences : Bool) :
    List LeakingNode → ChainState Obj →
      Except Fault (List (Option (List MemoryReferer)) × ChainState Obj)
  | [], st => .ok ([], st)
  | leak :: rest, st => do
    let (chain, st) ← printLeak env objectsWithTag fuel isNeedReferences leak st
    let (chains, st) ←
      printReferencesChainForLeakingNodes env objectsWithTag fuel isNeedReferences rest st
    return (chain :: chains, st)

end JLeaker
