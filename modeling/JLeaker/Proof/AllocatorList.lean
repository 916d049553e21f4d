import JLeaker.Lib.LinkedList
import JLeaker.Model.Allocator

/-!
# The list of the outstanding blocks

The headers of the blocks that are neither freed nor reported form a doubly linked list between the
two sentinels, in the order of their allocation (`Tracks`).  Allocating puts a header in before the
last sentinel, freeing unlinks one, and a report that returns a text empties the list.
-/

namespace JLeaker

open CString LinkedList

/-- A block with the file and the line of its allocation. -/
structure TrackedBlock where
  ptr : ℕ
  file : Str
  line : ℤ

namespace Allocator

/-! ## Links -/

section Links

variable (st : Allocator)

/-- The pointer `next` of a node. -/
def next (p : NodePtr) : Option NodePtr := (st.node? p).bind (·.next)

/-- The pointer `prev` of a node. -/
def prev (p : NodePtr) : Option NodePtr := (st.node? p).bind (·.prev)

/-- The file and the line of a node. -/
def origin (p : NodePtr) : Option (Str × ℤ) := (st.node? p).map fun nd => (nd.file, nd.line)

theorem node?_modify (p q : NodePtr) (f : MallocatedNode → MallocatedNode) :
    (st.modify p f).node? q = if q = p then (st.node? q).map f else st.node? q := by
  cases p with
  | head => cases q <;> simp [modify, node?]
  | tail => cases q <;> simp [modify, node?]
  | block a =>
    cases q with
    | head => simp [modify, node?]
    | tail => simp [modify, node?]
    | block b =>
      simp only [modify, node?, CHeap.get?_modify, NodePtr.block.injEq]
      split_ifs
      · rcases st.blocks.get? b with _ | _ | _ <;> rfl
      · rfl

theorem node?_free (a : ℕ) (q : NodePtr) :
    ({ st with blocks := st.blocks.free a } : Allocator).node? q =
      if q = .block a then none else st.node? q := by
  cases q with
  | head => simp [node?]
  | tail => simp [node?]
  | block b =>
    simp only [node?, CHeap.get?_free, NodePtr.block.injEq]
    split_ifs <;> rfl

variable {st}

theorem exists_node?_of_next {p q : NodePtr} (h : st.next p = some q) :
    ∃ nd, st.node? p = some nd ∧ nd.next = some q :=
  Option.bind_eq_some_iff.1 h

theorem exists_node?_of_prev {p q : NodePtr} (h : st.prev p = some q) :
    ∃ nd, st.node? p = some nd ∧ nd.prev = some q :=
  Option.bind_eq_some_iff.1 h

theorem deref_of_node? {p : NodePtr} {nd : MallocatedNode} (h : st.node? p = some nd) :
    st.deref (some p) = .ok nd := by
  simp [deref, h]

/-- Nothing but links has changed. -/
structure SameNodes (st st' : Allocator) : Prop where
  origin : st'.origin = st.origin
  allocations : st'.allocations = st.allocations
  frees : st'.frees = st.frees
  selfCheck : st'.selfCheck = st.selfCheck
  dom : st'.blocks.dom = st.blocks.dom

theorem SameNodes.trans {st st' st'' : Allocator} (first : SameNodes st st')
    (second : SameNodes st' st'') : SameNodes st st'' where
  origin := second.origin.trans first.origin
  allocations := second.allocations.trans first.allocations
  frees := second.frees.trans first.frees
  selfCheck := second.selfCheck.trans first.selfCheck
  dom := second.dom.trans first.dom

theorem exists_node?_of_origin {p : NodePtr} {o : Str × ℤ} (h : st.origin p = some o) :
    ∃ nd, st.node? p = some nd ∧ (nd.file, nd.line) = o :=
  Option.map_eq_some_iff.1 h

theorem SameNodes.exists_node? {st st' : Allocator} (same : SameNodes st st') {p : NodePtr}
    {nd : MallocatedNode} (h : st.node? p = some nd) : ∃ nd', st'.node? p = some nd' := by
  have origin : st'.origin p = some (nd.file, nd.line) := by
    rw [same.origin, Allocator.origin, h]
    rfl
  obtain ⟨nd', hnd', -⟩ := exists_node?_of_origin origin
  exact ⟨nd', hnd'⟩

theorem sameNodes_modify (st : Allocator) (p : NodePtr) {f : MallocatedNode → MallocatedNode}
    (keeps : ∀ nd, (f nd).file = nd.file ∧ (f nd).line = nd.line) :
    SameNodes st (st.modify p f) where
  origin := by
    funext q
    simp only [Allocator.origin, node?_modify]
    split_ifs
    · rcases st.node? q with _ | nd
      · rfl
      · simp [keeps nd]
    · rfl
  allocations := by cases p <;> rfl
  frees := by cases p <;> rfl
  selfCheck := by cases p <;> rfl
  dom := by cases p <;> rfl

/-- What `p->next = n` changes. -/
theorem setNext_ok {p : NodePtr} {nd : MallocatedNode} (n : Option NodePtr)
    (h : st.node? p = some nd) :
    ∃ st', st.setNext (some p) n = .ok st' ∧ SameNodes st st' ∧
      (∀ q, st'.next q = if q = p then n else st.next q) ∧ ∀ q, st'.prev q = st.prev q := by
  refine ⟨st.modify p fun nd => { nd with next := n }, ?_,
    sameNodes_modify st p fun _ => ⟨rfl, rfl⟩, fun q => ?_, fun q => ?_⟩
  · simp [setNext, deref_of_node? h, pure, Except.pure]
  · simp only [next, node?_modify]
    split_ifs with hq
    · rw [hq, h]
      rfl
    · rfl
  · simp only [prev, node?_modify]
    split_ifs
    · cases st.node? q <;> rfl
    · rfl

/-- What `p->prev = n` changes. -/
theorem setPrev_ok {p : NodePtr} {nd : MallocatedNode} (n : Option NodePtr)
    (h : st.node? p = some nd) :
    ∃ st', st.setPrev (some p) n = .ok st' ∧ SameNodes st st' ∧
      (∀ q, st'.next q = st.next q) ∧ ∀ q, st'.prev q = if q = p then n else st.prev q := by
  refine ⟨st.modify p fun nd => { nd with prev := n }, ?_,
    sameNodes_modify st p fun _ => ⟨rfl, rfl⟩, fun q => ?_, fun q => ?_⟩
  · simp [setPrev, deref_of_node? h, pure, Except.pure]
  · simp only [next, node?_modify]
    split_ifs
    · cases st.node? q <;> rfl
    · rfl
  · simp only [prev, node?_modify]
    split_ifs with hq
    · rw [hq, h]
      rfl
    · rfl

end Links

/-! ## The list -/

/-- The headers of the blocks, between the sentinels. -/
def nodesOf (blocks : List TrackedBlock) : List NodePtr :=
  .head :: (blocks.map (fun b => .block b.ptr) ++ [.tail])

/-- The list of the allocator holds the headers of these blocks, in this order. -/
structure Tracks (st : Allocator) (blocks : List TrackedBlock) : Prop where
  selfCheck : st.selfCheck = true
  list : DoublyLinked st.next st.prev (nodesOf blocks)
  origin : ∀ b ∈ blocks, st.origin (.block b.ptr) = some (b.file, b.line)

variable {st : Allocator} {blocks : List TrackedBlock}

theorem tracks_initAllocator (st : Allocator) : (st.initAllocator true).Tracks [] where
  selfCheck := rfl
  list := doublyLinked_pair (by decide) rfl rfl
  origin := by simp

/-- The sentinels and the headers other than the last sentinel. -/
theorem exists_nodesOf_eq (blocks : List TrackedBlock) :
    ∃ l p, nodesOf blocks = l ++ [p, .tail] := by
  rcases blocks.eq_nil_or_concat with rfl | ⟨front, b, rfl⟩
  · exact ⟨[], .head, rfl⟩
  · exact ⟨.head :: front.map fun b => .block b.ptr, .block b.ptr, by simp [nodesOf]⟩

theorem nodesOf_concat {l : List NodePtr} {p : NodePtr} (nodes : nodesOf blocks = l ++ [p, .tail])
    (b : TrackedBlock) : nodesOf (blocks ++ [b]) = l ++ [p, .block b.ptr, .tail] := by
  have front : nodesOf blocks = (.head :: blocks.map fun b => .block b.ptr) ++ [.tail] := rfl
  rw [front, show l ++ [p, .tail] = (l ++ [p]) ++ [NodePtr.tail] by simp] at nodes
  have init := List.append_cancel_right nodes
  rw [show l ++ [p, .block b.ptr, .tail] = (l ++ [p]) ++ [.block b.ptr, .tail] by simp, ← init]
  simp [nodesOf]

theorem mem_nodesOf_block {a : ℕ} : .block a ∈ nodesOf blocks ↔ a ∈ blocks.map (·.ptr) := by
  simp [nodesOf, eq_comm]

theorem Tracks.mem_dom (tracks : st.Tracks blocks) {b : TrackedBlock} (hb : b ∈ blocks) :
    b.ptr ∈ st.blocks.dom := by
  obtain ⟨nd, hnd, -⟩ := exists_node?_of_origin (tracks.origin b hb)
  exact st.blocks.mem_dom_of_get? (Option.join_eq_some_iff.1 hnd)

/-! ## Allocating -/

theorem node?_alloc (st : Allocator) (m : Malloc) (n : Counters) (nd : MallocatedNode)
    (q : NodePtr) :
    ({ st with counters := n, blocks := st.blocks.alloc m (some nd) } : Allocator).node? q =
      if q = .block (st.blocks.fresh m) then some nd else st.node? q := by
  cases q with
  | head => simp [node?]
  | tail => simp [node?]
  | block b =>
    simp only [node?, CHeap.get?_alloc, NodePtr.block.injEq]
    split_ifs <;> rfl

/-- A header is put in before the last sentinel. -/
theorem fillMallocNode_ok {a : ℕ} {nd : MallocatedNode} {p : NodePtr} (file : Str) (line : ℤ)
    (header : st.node? (.block a) = some nd) (last : st.prev .tail = some p) (exists_p :
    ∃ ndp, st.node? p = some ndp) :
    ∃ st', st.fillMallocNode a file line = .ok st' ∧
      (∀ q, st'.next q = if q = p then some (.block a) else if q = .block a then some .tail
        else st.next q) ∧
      (∀ q, st'.prev q = if q = .tail then some (.block a) else if q = .block a then some p
        else st.prev q) ∧
      (∀ q, st'.origin q = if q = .block a then some (file, line) else st.origin q) ∧
      st'.allocations = st.allocations ∧ st'.frees = st.frees ∧ st'.selfCheck = st.selfCheck ∧
      st'.blocks.dom = st.blocks.dom := by
  have last' : st.tail.prev = some p := last
  -- the header with its four fields set
  let filled := st.modify (.block a) fun nd => { nd with
    file := file, line := line, prev := st.tail.prev, next := some .tail }
  have node_filled : ∀ q, filled.node? q =
      if q = .block a then some ⟨file, line, some p, some .tail⟩ else st.node? q := by
    intro q
    simp only [filled, node?_modify]
    split_ifs with hq
    · rw [hq, header, last']
      rfl
    · rfl
  have exists_filled : ∀ q, (∃ x, st.node? q = some x) → ∃ x, filled.node? q = some x := by
    rintro q ⟨x, hx⟩
    rw [node_filled]
    split_ifs
    · exact ⟨_, rfl⟩
    · exact ⟨x, hx⟩
  obtain ⟨ndp, hp⟩ := exists_filled p exists_p
  obtain ⟨st₁, run₁, same₁, next₁, prev₁⟩ := setNext_ok (some (.block a)) hp
  obtain ⟨tail, htail⟩ := same₁.exists_node? (exists_filled .tail ⟨st.tail, rfl⟩).choose_spec
  obtain ⟨st₂, run₂, same₂, next₂, prev₂⟩ := setPrev_ok (some (.block a)) htail
  have same := same₁.trans same₂
  refine ⟨st₂, ?_, fun q => ?_, fun q => ?_, fun q => ?_, same.allocations, same.frees,
    same.selfCheck, same.dom⟩
  · have tail_filled : filled.tail.prev = some p := last'
    show filled.setNext filled.tail.prev (some (.block a)) >>= _ = _
    rw [tail_filled, run₁, Run.ok_bind]
    exact run₂
  · rw [next₂, next₁]
    simp only [next, node_filled]
    split_ifs <;> rfl
  · rw [prev₂, prev₁]
    simp only [prev, node_filled]
    split_ifs <;> rfl
  · rw [same.origin]
    simp only [origin, node_filled]
    split_ifs <;> rfl

/-- `_myAlloc` appends the new block to the list. -/
theorem Tracks.myAlloc (tracks : st.Tracks blocks) (m : Malloc) (file : Str) (line : ℤ) :
    ∃ st', st.myAlloc m file line = .ok (st.blocks.fresh m, st') ∧
      st'.Tracks (blocks ++ [⟨st.blocks.fresh m, file, line⟩]) ∧
      st'.allocations = st.allocations + 1 ∧ st'.frees = st.frees ∧
      st'.blocks.dom = insert (st.blocks.fresh m) st.blocks.dom := by
  obtain ⟨l, p, nodes⟩ := exists_nodesOf_eq blocks
  have list := tracks.list
  rw [nodes] at list
  have last : st.prev .tail = some p ∧ st.next p = some .tail := by
    obtain ⟨-, ends, -⟩ := List.isChain_append_cons_cons.1 list.linked
    exact ends.symm
  have fresh : NodePtr.block (st.blocks.fresh m) ∉ l ++ [p, .tail] := by
    rw [← nodes, mem_nodesOf_block, List.mem_map]
    rintro ⟨b, hb, same⟩
    exact st.blocks.fresh_notMem m (same ▸ tracks.mem_dom hb)
  have p_ne : p ≠ .block (st.blocks.fresh m) := by
    rintro rfl
    exact fresh (by simp)
  -- the state after `malloc`
  let st₀ : Allocator := { st with
    counters := st.counters.count 1 0
    blocks := st.blocks.alloc m (some ⟨[], 0, none, none⟩) }
  have node₀ : ∀ q, st₀.node? q =
      if q = .block (st.blocks.fresh m) then some ⟨[], 0, none, none⟩ else st.node? q :=
    node?_alloc st m _ _
  have old : ∀ q, q ≠ .block (st.blocks.fresh m) → st₀.node? q = st.node? q := fun q hq => by
    rw [node₀, if_neg hq]
  obtain ⟨ndp, hp, -⟩ := exists_node?_of_next last.2
  have header₀ : st₀.node? (.block (st.blocks.fresh m)) = some ⟨[], 0, none, none⟩ := by
    rw [node₀, if_pos rfl]
  obtain ⟨st', run, next', prev', origin', allocations, frees, selfCheck, dom⟩ :=
    fillMallocNode_ok file line header₀ last.1 ⟨ndp, (old p p_ne).trans hp⟩
  refine ⟨st', ?_, ⟨selfCheck.trans tracks.selfCheck, ?_, ?_⟩,
    allocations.trans (BitVec.ofNat_add _ 1), frees, dom⟩
  · have on : st.selfCheck = true := tracks.selfCheck
    show (if st.selfCheck = true then st₀.fillMallocNode (st.blocks.fresh m) file line >>=
      fun filled => pure (st.blocks.fresh m, filled) else _) = _
    rw [if_pos on, run]
    rfl
  · rw [nodesOf_concat nodes]
    refine list.insert fresh ?_ ?_ ?_ ?_ (fun q hp hx => ?_) fun q hz hx => ?_
    · rw [next', if_pos rfl]
    · rw [next', if_neg p_ne.symm, if_pos rfl]
    · rw [prev', if_neg (by simp), if_pos rfl]
    · rw [prev', if_pos rfl]
    · rw [next', if_neg hp, if_neg hx, next, old q hx, next]
    · rw [prev', if_neg hz, if_neg hx, prev, old q hx, prev]
  · intro b hb
    rcases List.mem_append.1 hb with hb | hb
    · have ne : b.ptr ≠ st.blocks.fresh m := fun h =>
        st.blocks.fresh_notMem m (h ▸ tracks.mem_dom hb)
      have ne' : NodePtr.block b.ptr ≠ .block (st.blocks.fresh m) := by simpa using ne
      rw [origin', if_neg ne', Allocator.origin, old _ ne']
      exact tracks.origin b hb
    · rw [List.mem_singleton.1 hb, origin', if_pos rfl]

/-! ## Freeing -/

/-- The header of a block, with the nodes around it. -/
theorem exists_nodesOf_middle (front : List TrackedBlock) (b : TrackedBlock)
    (back : List TrackedBlock) : ∃ l p n k,
      nodesOf (front ++ b :: back) = l ++ p :: .block b.ptr :: n :: k ∧
      nodesOf (front ++ back) = l ++ p :: n :: k := by
  obtain ⟨l, p, before⟩ : ∃ l p,
      NodePtr.head :: front.map (fun b => .block b.ptr) = l ++ [p] := by
    obtain ⟨l, p, h⟩ := exists_nodesOf_eq front
    have ends : (.head :: front.map fun b => .block b.ptr) ++ [NodePtr.tail] =
        (l ++ [p]) ++ [.tail] := by simpa [nodesOf] using h
    exact ⟨l, p, List.append_cancel_right ends⟩
  obtain ⟨n, k, after⟩ : ∃ n k,
      back.map (fun b => NodePtr.block b.ptr) ++ [.tail] = n :: k :=
    List.exists_cons_of_ne_nil (by simp)
  refine ⟨l, p, n, k, ?_, ?_⟩
  · rw [← after, show l ++ p :: .block b.ptr ::
      (back.map (fun b => NodePtr.block b.ptr) ++ [.tail]) = (l ++ [p]) ++ .block b.ptr ::
      (back.map (fun b => NodePtr.block b.ptr) ++ [.tail]) by simp, ← before]
    simp [nodesOf]
  · rw [← after, show l ++ p :: (back.map (fun b => NodePtr.block b.ptr) ++ [.tail]) =
      (l ++ [p]) ++ (back.map (fun b => NodePtr.block b.ptr) ++ [.tail]) by simp, ← before]
    simp [nodesOf]

/-- A header is unlinked and freed. -/
theorem myFree_ok {a : ℕ} {p n : NodePtr} {ndp ndn : MallocatedNode} (on : st.selfCheck = true)
    (prev_a : st.prev (.block a) = some p) (next_a : st.next (.block a) = some n)
    (hp : st.node? p = some ndp) (hn : st.node? n = some ndn) (p_ne : p ≠ .block a) :
    ∃ st', st.myFree a = .ok st' ∧
      (∀ q, q ≠ .block a → st'.next q = if q = p then some n else st.next q) ∧
      (∀ q, q ≠ .block a → st'.prev q = if q = n then some p else st.prev q) ∧
      (∀ q, q ≠ .block a → st'.origin q = st.origin q) ∧
      st'.allocations = st.allocations ∧ st'.frees = st.frees + 1 ∧ st'.selfCheck = true ∧
      st'.blocks.dom = st.blocks.dom.erase a := by
  obtain ⟨nd, header, nd_prev⟩ := exists_node?_of_prev prev_a
  obtain ⟨_, header', nd_next⟩ := exists_node?_of_next next_a
  obtain rfl := Option.some.inj (header.symm.trans header')
  -- the state after the call is counted, which has the same nodes
  let st₀ : Allocator := { st with counters := st.counters.count 0 1 }
  have node₀ : st₀.node? = st.node? := by
    funext q
    cases q <;> rfl
  rw [← node₀] at header hp hn
  obtain ⟨st₁, run₁, same₁, next₁, prev₁⟩ := setNext_ok (some n) hp
  obtain ⟨nd₁, header₁⟩ := same₁.exists_node? header
  have nd₁_next : nd₁.next = some n := by
    have h := next₁ (.block a)
    rw [if_neg p_ne.symm, next, header₁] at h
    exact h.trans next_a
  have nd₁_prev : nd₁.prev = some p := by
    have h := prev₁ (.block a)
    rw [prev, header₁] at h
    exact h.trans prev_a
  obtain ⟨ndn₁, hn₁⟩ := same₁.exists_node? hn
  obtain ⟨st₂, run₂, same₂, next₂, prev₂⟩ := setPrev_ok (some p) hn₁
  have same := same₁.trans same₂
  have live : a ∈ st₂.blocks.dom := by
    rw [same.dom]
    exact st.blocks.mem_dom_of_get? (Option.join_eq_some_iff.1 header)
  have off : ∀ q, q ≠ .block a →
      ({ st₂ with blocks := st₂.blocks.free a } : Allocator).node? q = st₂.node? q :=
    fun q hq => by rw [node?_free, if_neg hq]
  refine ⟨{ st₂ with blocks := st₂.blocks.free a }, ?_, fun q hq => ?_, fun q hq => ?_,
    fun q hq => ?_, same.allocations, same.frees.trans (BitVec.ofNat_add _ 1),
    same.selfCheck.trans on, ?_⟩
  · show (if st.selfCheck = true then st₀.deref (some (.block a)) >>= _ else _) = _
    rw [if_pos on, deref_of_node? header, Run.ok_bind, nd_prev, nd_next, run₁,
      Run.ok_bind, deref_of_node? header₁, Run.ok_bind, nd₁_next, nd₁_prev, run₂, Run.ok_bind,
      free, if_pos live]
  · rw [next, off q hq, ← next, next₂, next₁]
    rfl
  · rw [prev, off q hq, ← prev, prev₂, prev₁]
    rfl
  · rw [Allocator.origin, off q hq]
    exact congrFun same.origin q
  · show st₂.blocks.dom.erase a = _
    rw [same.dom]

/-- `myFree` unlinks the header of the block and frees it. -/
theorem Tracks.myFree {front back : List TrackedBlock} {b : TrackedBlock}
    (tracks : st.Tracks (front ++ b :: back)) :
    ∃ st', st.myFree b.ptr = .ok st' ∧ st'.Tracks (front ++ back) ∧
      st'.allocations = st.allocations ∧ st'.frees = st.frees + 1 ∧
      st'.blocks.dom = st.blocks.dom.erase b.ptr := by
  obtain ⟨l, p, n, k, nodes, nodes'⟩ := exists_nodesOf_middle front b back
  have list := tracks.list
  rw [nodes] at list
  obtain ⟨p_next, b_prev, b_next, n_prev⟩ := list.neighbours
  have nodup := list.nodup
  have p_ne : p ≠ .block b.ptr := by
    rintro rfl
    simp [List.nodup_append] at nodup
  have n_ne : n ≠ .block b.ptr := by
    rintro rfl
    simp [List.nodup_append] at nodup
  obtain ⟨ndp, hp, -⟩ := exists_node?_of_next p_next
  obtain ⟨ndn, hn, -⟩ := exists_node?_of_prev n_prev
  obtain ⟨st', run, next', prev', origin', allocations, frees, selfCheck, dom⟩ :=
    myFree_ok tracks.selfCheck b_prev b_next hp hn p_ne
  refine ⟨st', run, ⟨selfCheck, ?_, fun c hc => ?_⟩, allocations, frees, dom⟩
  · rw [nodes']
    refine list.unlink ?_ ?_ (fun q hq hx => ?_) fun q hq hx => ?_
    · rw [next' p p_ne, if_pos rfl]
    · rw [prev' n n_ne, if_pos rfl]
    · rw [next' q hx, if_neg hq]
    · rw [prev' q hx, if_neg hq]
  · have ne : NodePtr.block c.ptr ≠ .block b.ptr := by
      intro h
      have mem : NodePtr.block c.ptr ∈ l ++ p :: n :: k :=
        nodes' ▸ mem_nodesOf_block.2 (List.mem_map_of_mem hc)
      rw [h] at mem
      simp [List.nodup_append] at nodup mem
      grind
    have kept : c ∈ front ++ b :: back := by
      simp only [List.mem_append, List.mem_cons] at hc ⊢
      tauto
    rw [origin' _ ne]
    exact tracks.origin c kept

/-- Freeing a block twice reads a header that is gone. -/
theorem myFree_dead (selfCheck : st.selfCheck = true) {p : ℕ} (dead : p ∉ st.blocks.dom) :
    st.myFree p = .error .invalidPointer := by
  have none : ({ st with counters := st.counters.count 0 1 } : Allocator).deref (some (.block p)) =
      .error .invalidPointer := by
    simp [deref, node?, st.blocks.get?_of_notMem dead]
  show (if st.selfCheck = true then _ >>= _ else _) = _
  rw [if_pos selfCheck, none]
  rfl

end Allocator

end JLeaker
