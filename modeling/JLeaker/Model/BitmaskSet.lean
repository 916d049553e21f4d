import Mathlib.Data.List.Basic

/-!
# `bitmask_set.c`: sets of leak numbers as bit masks

A set of `size` possible elements owns a buffer of `1 + (size >> 3)` bytes.  The operations work
byte by byte, `add`, `remove` and `contains` ignore elements from `size` on.
-/

namespace JLeaker

/-- `bitmask_set`: the element count and the buffer behind `ptr`. -/
structure BitmaskSet where
  size : ℕ
  ptr : List (BitVec 8)
  length_ptr : ptr.length = 1 + (size >>> 3)

namespace BitmaskSet

/-- The byte at offset `i` of the buffer (`0` stands for a read past its end). -/
def byte (s : BitmaskSet) (i : ℕ) : BitVec 8 := s.ptr.getD i 0

/-- Rewrite every byte of the buffer, knowing its offset. -/
def mapBytes (s : BitmaskSet) (f : ℕ → BitVec 8 → BitVec 8) : BitmaskSet where
  size := s.size
  ptr := s.ptr.mapIdx f
  length_ptr := by simp [s.length_ptr]

/-- `bitMaskSet_new`. -/
def new (size : ℕ) : BitmaskSet where
  size := size
  ptr := List.replicate (1 + (size >>> 3)) 0
  length_ptr := by simp

/-- `bitMapSet_add`. -/
def add (s : BitmaskSet) (n : ℕ) : BitmaskSet :=
  if n ≥ s.size then s
  else s.mapBytes fun i b => if i = n >>> 3 then b ||| (1#8 <<< (n &&& 7)) else b

/-- `bitMapSet_remove`. -/
def remove (s : BitmaskSet) (n : ℕ) : BitmaskSet :=
  if n ≥ s.size then s
  else s.mapBytes fun i b => if i = n >>> 3 then b &&& ~~~(1#8 <<< (n &&& 7)) else b

/-- `bitMapSet_addAll`. -/
def addAll (s o : BitmaskSet) : BitmaskSet :=
  let minSize := if s.size < o.size then s.size else o.size
  let minSize := (minSize >>> 3) + 1
  s.mapBytes fun i b => if i < minSize then b ||| o.byte i else b

/-- `bitMapSet_addAllWithExclusion`. -/
def addAllWithExclusion (s o e : BitmaskSet) : BitmaskSet :=
  let minSize := if s.size < o.size then s.size else o.size
  let exclSize := if minSize < e.size then minSize else e.size
  let minSize := 1 + (minSize >>> 3)
  let exclSize := 1 + (exclSize >>> 3)
  s.mapBytes fun i b =>
    if i < exclSize then b ||| (o.byte i &&& ~~~e.byte i)
    else if i < minSize then b ||| o.byte i
    else b

/-- The loop bound of `bitMapSet_containsAll`.  The macro `SIZE_IN_BYTES` does not parenthesise its
argument, so the shift applies to the second branch of the conditional only. -/
def containsAllBound (s o : BitmaskSet) : ℕ := 1 + if s.size < o.size then s.size else o.size >>> 3

/-- `bitMapSet_containsAll`. -/
def containsAll (s o : BitmaskSet) : Bool :=
  (List.range (containsAllBound s o)).all fun i => (s.byte i &&& o.byte i) == o.byte i

/-- The loop of `bitMapSet_containsAll` from offset `i` on, with `n` turns left; `none` when it reads
outside one of the buffers. -/
def containsAllFrom (s o : BitmaskSet) : ℕ → ℕ → Option Bool
  | 0, _ => some true
  | n + 1, i => do
    let p1 ← s.ptr[i]?
    let p2 ← o.ptr[i]?
    if p1 &&& p2 ≠ p2 then
      return false
    containsAllFrom s o n (i + 1)

/-- `bitMapSet_containsAll` with its reads checked. -/
def containsAllChecked (s o : BitmaskSet) : Option Bool :=
  s.containsAllFrom o (containsAllBound s o) 0

/-- `bitMapSet_contains`. -/
def contains (s : BitmaskSet) (n : ℕ) : Bool :=
  if n ≥ s.size then false else (s.byte (n >>> 3) &&& (1#8 <<< (n &&& 7))) != 0

/-- `bitMapSet_contains` with its read checked. -/
def containsChecked (s : BitmaskSet) (n : ℕ) : Option Bool :=
  if n ≥ s.size then some false
  else do
    let p ← s.ptr[n >>> 3]?
    return (p &&& (1#8 <<< (n &&& 7))) != 0

/-- Write a byte at offset `i`; `none` when it is outside the buffer. -/
def store (s : BitmaskSet) (i : ℕ) (b : BitVec 8) : Option BitmaskSet :=
  if i < s.ptr.length then
    some { size := s.size, ptr := s.ptr.set i b, length_ptr := by simp [s.length_ptr] }
  else none

/-- `bitMapSet_add` with its read and its write checked. -/
def addChecked (s : BitmaskSet) (n : ℕ) : Option BitmaskSet :=
  if n ≥ s.size then some s
  else do
    let p ← s.ptr[n >>> 3]?
    s.store (n >>> 3) (p ||| (1#8 <<< (n &&& 7)))

/-- `bitMapSet_remove` with its read and its write checked. -/
def removeChecked (s : BitmaskSet) (n : ℕ) : Option BitmaskSet :=
  if n ≥ s.size then some s
  else do
    let p ← s.ptr[n >>> 3]?
    s.store (n >>> 3) (p &&& ~~~(1#8 <<< (n &&& 7)))

/-- A loop over the offsets from `i` on, with `n` turns left. -/
def loopFrom (turn : ℕ → BitmaskSet → Option BitmaskSet) :
    ℕ → ℕ → BitmaskSet → Option BitmaskSet
  | 0, _, s => some s
  | n + 1, i, s => do
    let s ← turn i s
    loopFrom turn n (i + 1) s

/-- The statement `*p1 |= *p2` at offset `i`. -/
def orByte (o : BitmaskSet) (i : ℕ) (s : BitmaskSet) : Option BitmaskSet := do
  let p1 ← s.ptr[i]?
  let p2 ← o.ptr[i]?
  s.store i (p1 ||| p2)

/-- The statement `*p1 |= (*p2 & ~*p3)` at offset `i`. -/
def orByteExcept (o e : BitmaskSet) (i : ℕ) (s : BitmaskSet) : Option BitmaskSet := do
  let p1 ← s.ptr[i]?
  let p2 ← o.ptr[i]?
  let p3 ← e.ptr[i]?
  s.store i (p1 ||| (p2 &&& ~~~p3))

/-- `bitMapSet_addAll` with its reads and writes checked. -/
def addAllChecked (s o : BitmaskSet) : Option BitmaskSet :=
  let minSize := if s.size < o.size then s.size else o.size
  let minSize := (minSize >>> 3) + 1
  loopFrom (orByte o) minSize 0 s

/-- `bitMapSet_addAllWithExclusion` with its reads and writes checked; the second loop goes on where
the first one ended. -/
def addAllWithExclusionChecked (s o e : BitmaskSet) : Option BitmaskSet := do
  let minSize := if s.size < o.size then s.size else o.size
  let exclSize := if minSize < e.size then minSize else e.size
  let minSize := 1 + (minSize >>> 3)
  let exclSize := 1 + (exclSize >>> 3)
  let s ← loopFrom (orByteExcept o e) exclSize 0 s
  loopFrom (orByte o) (minSize - exclSize) exclSize s

/-- `bitMapSet_isEmpty`. -/
def isEmpty (s : BitmaskSet) : Bool :=
  (List.range (1 + (s.size >>> 3))).all fun i => s.byte i == 0

end BitmaskSet

end JLeaker
