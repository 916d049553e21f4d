import JLeaker.Lib.CHeap
import JLeaker.Lib.CString
import JLeaker.Lib.Run

/-!
# `allocator.c`: the list of the blocks

With `selfCheck` on, `_myAlloc` puts a header before every block and links the headers into a list
between the sentinels `head` and `tail`; `myFree` takes the header out again.
`findInternalMallocsLeaks` prints the headers that are left, and frees their blocks.
-/

namespace JLeaker

open CString

/-- The ways a call of the allocator can go wrong. -/
inductive AllocatorFault where
  /-- A null pointer, or the header of a block that is freed or has none. -/
  | invalidPointer
  /-- A write outside of the buffer. -/
  | outOfBuffer
  /-- The bound on the rounds of a loop was too small. -/
  | outOfFuel
  deriving DecidableEq, Repr

/-- A pointer to a `MallocatedNode`: a sentinel or the header of the block at an address. -/
inductive NodePtr where
  | head
  | tail
  | block (a : ℕ)
  deriving DecidableEq, Repr

/-- `MallocatedNode`. -/
structure MallocatedNode where
  file : Str
  line : ℤ
  prev : Option NodePtr
  next : Option NodePtr
  deriving DecidableEq, Repr

/-- The counters `allocations` and `frees`: the numbers of the calls of `_myAlloc` and `myFree` since
`initAllocator`. -/
structure Counters where
  allocations : ℕ
  frees : ℕ
deriving DecidableEq

/-- The counters after that many calls of `_myAlloc` and `myFree`. -/
def Counters.count (c : Counters) (allocations frees : ℕ) : Counters :=
  ⟨c.allocations + allocations, c.frees + frees⟩

/-- The static variables of `allocator.c` and the blocks handed out so far, each with its header, if
it has one. -/
structure Allocator where
  counters : Counters
  selfCheck : Bool
  head : MallocatedNode
  tail : MallocatedNode
  blocks : CHeap (Option MallocatedNode)

/-- `BUF_SIZE`. -/
def BUF_SIZE : ℕ := 4096

namespace Allocator

/-- What the `int` counts of the calls of `_myAlloc`. -/
def allocations (st : Allocator) : BitVec 32 := .ofNat 32 st.counters.allocations

/-- What the `int` counts of the calls of `myFree`. -/
def frees (st : Allocator) : BitVec 32 := .ofNat 32 st.counters.frees

/-! ## Nodes -/

/-- The node a pointer refers to. -/
def node? (st : Allocator) : NodePtr → Option MallocatedNode
  | .head => some st.head
  | .tail => some st.tail
  | .block a => (st.blocks.get? a).join

/-- Read the node a pointer refers to. -/
def deref (st : Allocator) (p : Option NodePtr) : Except AllocatorFault MallocatedNode :=
  match p.bind st.node? with
  | some n => .ok n
  | none => .error .invalidPointer

/-- Rewrite the node a pointer refers to. -/
def modify (st : Allocator) (p : NodePtr) (f : MallocatedNode → MallocatedNode) : Allocator :=
  match p with
  | .head => { st with head := f st.head }
  | .tail => { st with tail := f st.tail }
  | .block a => { st with blocks := st.blocks.modify a (Option.map f) }

/-- `p->next = n`. -/
def setNext (st : Allocator) (p n : Option NodePtr) : Except AllocatorFault Allocator := do
  let _ ← st.deref p
  return p.elim st fun p => st.modify p fun nd => { nd with next := n }

/-- `p->prev = n`. -/
def setPrev (st : Allocator) (p n : Option NodePtr) : Except AllocatorFault Allocator := do
  let _ ← st.deref p
  return p.elim st fun p => st.modify p fun nd => { nd with prev := n }

/-! ## Allocating and freeing -/

/-- `initAllocator`.  Its two calls of `memset` have size and value exchanged and set nothing. -/
def initAllocator (st : Allocator) (selfCheck : Bool) : Allocator :=
  { st with
    counters := ⟨0, 0⟩
    selfCheck := selfCheck
    head := { st.head with next := some .tail }
    tail := { st.tail with prev := some .head } }

/-- `fillMallocNode` for the header of the block at `a`. -/
def fillMallocNode (st : Allocator) (a : ℕ) (file : Str) (line : ℤ) :
    Except AllocatorFault Allocator := do
  let st := st.modify (.block a) fun nd => { nd with
    file := file, line := line, prev := st.tail.prev, next := some .tail }
  let st ← st.setNext st.tail.prev (some (.block a))
  st.setPrev (some .tail) (some (.block a))

/-- `_myAlloc`: the address of the block, and the state after it.  What `malloc` leaves in the
header is overwritten before it is read. -/
def myAlloc (m : Malloc) (st : Allocator) (file : Str) (line : ℤ) :
    Except AllocatorFault (ℕ × Allocator) :=
  let st := { st with counters := st.counters.count 1 0 }
  let ptr := st.blocks.fresh m
  if st.selfCheck then do
    let st := { st with blocks := st.blocks.alloc m (some ⟨[], 0, none, none⟩) }
    let st ← st.fillMallocNode ptr file line
    return (ptr, st)
  else
    .ok (ptr, { st with blocks := st.blocks.alloc m none })

/-- `_myStrdup`, up to the characters it copies into the block. -/
def myStrdup (m : Malloc) (st : Allocator) (file : Str) (line : ℤ) :
    Except AllocatorFault (ℕ × Allocator) := myAlloc m st file line

/-- `free`. -/
def free (st : Allocator) (a : ℕ) : Except AllocatorFault Allocator :=
  if a ∈ st.blocks.dom then .ok { st with blocks := st.blocks.free a } else .error .invalidPointer

/-- `myFree`. -/
def myFree (st : Allocator) (p : ℕ) : Except AllocatorFault Allocator :=
  let st := { st with counters := st.counters.count 0 1 }
  if st.selfCheck then do
    let ptr ← st.deref (some (.block p))
    let st ← st.setNext ptr.prev ptr.next
    let ptr ← st.deref (some (.block p))
    let st ← st.setPrev ptr.next ptr.prev
    st.free p
  else
    st.free p

end Allocator

/-! ## The report -/

/-- The buffer of the report. -/
structure ReportBuffer where
  bytes : List Char
  length_eq : bytes.length = BUF_SIZE

namespace ReportBuffer

/-- The character that ends a string. -/
def NUL : Char := Char.ofNat 0

/-- The buffer with some of its characters replaced from a position on. -/
def overwrite (buf : ReportBuffer) (pos : ℕ) (cs : List Char) (h : pos + cs.length ≤ BUF_SIZE) :
    ReportBuffer where
  bytes := buf.bytes.take pos ++ cs ++ buf.bytes.drop (pos + cs.length)
  length_eq := by
    have := buf.length_eq
    simp only [List.length_append, List.length_take, List.length_drop]
    omega

/-- What `snprintf` writes for a text: it cuts the text to its size, which is an unsigned number, so
that a negative size is a huge one. -/
def written (size : ℤ) (text : Str) : List Char :=
  if size = 0 then [] else if size < 0 then text ++ [NUL] else text.take (size.toNat - 1) ++ [NUL]

/-- `snprintf(buf + pos, size, ...)` for the text that the format gives: the length of the text, and
the buffer after it. -/
def snprintf (buf : ReportBuffer) (pos size : ℤ) (text : Str) :
    Except AllocatorFault (ℤ × ReportBuffer) :=
  if h : 0 ≤ pos ∧ pos.toNat + (written size text).length ≤ BUF_SIZE then
    .ok (text.length, buf.overwrite pos.toNat (written size text) h.2)
  else .error .outOfBuffer

end ReportBuffer

/-- What `findInternalMallocsLeaks` returns if it is not NULL.  `printed` lists the calls of
`snprintf`: the size each is given and its text. -/
structure LeakReport where
  buf : ReportBuffer
  printed : List (ℤ × Str)

namespace Allocator

/-- The first line of the report. -/
def countsText (st : Allocator) : Str :=
  "number of mallocs ".toList ++ decimal st.allocations.toInt ++ ", number of frees ".toList ++
    decimal st.frees.toInt ++ "\n".toList

/-- The line of the report for a block. -/
def leakText (file : Str) (line : ℤ) : Str :=
  "Didn't free memory allocated from ".toList ++ file ++ ":".toList ++ decimal line ++ "\n".toList

/-- The loop of `findInternalMallocsLeaks`.  Each round frees a block, so that the number of blocks
bounds the rounds. -/
def printLeaks : ℕ → Allocator → ℤ → LeakReport → Except AllocatorFault (Allocator × LeakReport)
  | 0, _, _, _ => .error .outOfFuel
  | fuel + 1, st, pos, report =>
    if st.head.next = some .tail then .ok (st, report)
    else do
      let first ← st.deref st.head.next
      let n := first.next
      let size := BUF_SIZE - pos
      let (newPos, buf) ← report.buf.snprintf pos size (leakText first.file first.line)
      let pos := pos + newPos
      let report := ⟨buf, report.printed ++ [(size, leakText first.file first.line)]⟩
      let st ← match st.head.next with
        | some (.block a) => st.free a
        | _ => .error .invalidPointer
      printLeaks fuel { st with head := { st.head with next := n } } pos report

/-- `findInternalMallocsLeaks`; `buf` is what `malloc` returns. -/
def findInternalMallocsLeaks (st : Allocator) (buf : ReportBuffer) :
    Except AllocatorFault (Option LeakReport × Allocator) :=
  if st.allocations ≠ st.frees then do
    let (pos, buf) ← buf.snprintf 0 BUF_SIZE st.countsText
    let (st, report) ← printLeaks (st.blocks.dom.card + 1) st pos ⟨buf, [(BUF_SIZE, st.countsText)]⟩
    return (some report, { st with tail := { st.tail with prev := some .head } })
  else .ok (none, st)

end Allocator

end JLeaker
