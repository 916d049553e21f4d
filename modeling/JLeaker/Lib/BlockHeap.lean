import Mathlib.Data.List.Nodup
import Mathlib.Data.List.Perm.Basic

/-!
# The blocks of a C heap whose `malloc` may fail

A block is known by the number of the call of `malloc` or `realloc` that handed it out.
`heap.Accounts owned` says that the program holds exactly the blocks `owned`: they and the blocks that
were freed are the blocks handed out, each of them once.
-/

/-- The calls of `malloc` and `realloc` so far, the blocks they handed out and those given back. -/
structure BlockHeap where
  calls : ℕ
  given : List ℕ
  freed : List ℕ

namespace BlockHeap

/-- The heap before any call. -/
def empty : BlockHeap := ⟨0, [], []⟩

/-- `malloc`; `answers` says which calls get a block. -/
def malloc (answers : ℕ → Bool) (heap : BlockHeap) : Option ℕ × BlockHeap :=
  if answers heap.calls then
    (some heap.calls, { heap with calls := heap.calls + 1, given := heap.given ++ [heap.calls] })
  else (none, { heap with calls := heap.calls + 1 })

/-- `free`. -/
def free (heap : BlockHeap) (block : ℕ) : BlockHeap := { heap with freed := heap.freed ++ [block] }

/-- `free`, which does nothing for NULL. -/
def free? (heap : BlockHeap) : Option ℕ → BlockHeap
  | none => heap
  | some block => heap.free block

/-- `realloc`: the old block is given back when there is a new one. -/
def realloc (answers : ℕ → Bool) (heap : BlockHeap) (block : Option ℕ) : Option ℕ × BlockHeap :=
  match heap.malloc answers with
  | (none, heap) => (none, heap)
  | (some new, heap) => (some new, heap.free? block)

/-- The program holds the blocks `owned`. -/
structure Accounts (heap : BlockHeap) (owned : List ℕ) : Prop where
  nodup : heap.given.Nodup
  earlier : ∀ block ∈ heap.given, block < heap.calls
  perm : (owned ++ heap.freed).Perm heap.given

variable {answers : ℕ → Bool} {heap heap' : BlockHeap} {owned owned' : List ℕ} {block new : ℕ}

/-- A call that gets no block is one that `answers` lets fail. -/
theorem malloc_none (h : heap.malloc answers = (none, heap')) :
    answers heap.calls = false ∧ heap' = { heap with calls := heap.calls + 1 } := by
  unfold malloc at h
  split_ifs at h with answer
  · cases h
  · cases h
    exact ⟨by simpa using answer, rfl⟩

theorem malloc_some (h : heap.malloc answers = (some new, heap')) :
    new = heap.calls ∧
      heap' = { heap with calls := heap.calls + 1, given := heap.given ++ [heap.calls] } := by
  unfold malloc at h
  split_ifs at h
  · cases h
    exact ⟨rfl, rfl⟩
  · cases h

theorem realloc_none {block : Option ℕ} (h : heap.realloc answers block = (none, heap')) :
    heap.malloc answers = (none, heap') := by
  unfold realloc at h
  split at h
  · next heap'' call =>
    cases h
    exact call
  · cases h

theorem realloc_some {block : Option ℕ} (h : heap.realloc answers block = (some new, heap')) :
    ∃ heap'', heap.malloc answers = (some new, heap'') ∧ heap' = heap''.free? block := by
  unfold realloc at h
  split at h
  · cases h
  · next heap'' call =>
    cases h
    exact ⟨heap'', call, rfl⟩

/-- Every call of `malloc` is counted, and gets a block if `answers` says so. -/
theorem malloc_answer {block : Option ℕ} (h : heap.malloc answers = (block, heap')) :
    block.isSome = answers heap.calls ∧ heap'.calls = heap.calls + 1 := by
  unfold malloc at h
  split_ifs at h with answer
  · cases h
    exact ⟨answer.symm, rfl⟩
  · cases h
    exact ⟨by simpa using answer, rfl⟩

theorem realloc_answer {block new : Option ℕ} (h : heap.realloc answers block = (new, heap')) :
    new.isSome = answers heap.calls ∧ heap'.calls = heap.calls + 1 := by
  cases new with
  | none => exact malloc_answer (realloc_none h)
  | some new =>
    obtain ⟨heap'', call, rfl⟩ := realloc_some h
    obtain ⟨answer, calls⟩ := malloc_answer call
    refine ⟨answer, Eq.trans ?_ calls⟩
    cases block <;> rfl

namespace Accounts

theorem empty : BlockHeap.empty.Accounts [] :=
  ⟨List.nodup_nil, fun _ h => absurd h List.not_mem_nil, List.Perm.nil⟩

theorem of_perm (accounts : heap.Accounts owned) (perm : owned'.Perm owned) :
    heap.Accounts owned' :=
  ⟨accounts.nodup, accounts.earlier, (perm.append_right _).trans accounts.perm⟩

theorem malloc_none (accounts : heap.Accounts owned) (h : heap.malloc answers = (none, heap')) :
    heap'.Accounts owned := by
  obtain ⟨-, rfl⟩ := BlockHeap.malloc_none h
  exact ⟨accounts.nodup, fun b hb => Nat.lt_succ_of_lt (accounts.earlier b hb), accounts.perm⟩

theorem malloc_some (accounts : heap.Accounts owned) (h : heap.malloc answers = (some new, heap')) :
    heap'.Accounts (new :: owned) := by
  obtain ⟨rfl, rfl⟩ := BlockHeap.malloc_some h
  refine ⟨?_, ?_, ?_⟩
  · refine List.nodup_append.2 ⟨accounts.nodup, List.nodup_singleton _, ?_⟩
    rintro b hb c hc rfl
    have := accounts.earlier b hb
    rw [List.mem_singleton] at hc
    omega
  · intro b hb
    show b < heap.calls + 1
    rcases List.mem_append.1 hb with hb | hb
    · have := accounts.earlier b hb
      omega
    · rw [List.mem_singleton] at hb
      omega
  · exact (accounts.perm.cons heap.calls).trans (List.perm_append_singleton _ _).symm

theorem free (accounts : heap.Accounts (block :: owned)) : (heap.free block).Accounts owned := by
  refine ⟨accounts.nodup, accounts.earlier, List.Perm.trans ?_ accounts.perm⟩
  show (owned ++ (heap.freed ++ [block])).Perm (block :: (owned ++ heap.freed))
  rw [← List.append_assoc]
  exact List.perm_append_singleton _ _

theorem free? {block : Option ℕ} (accounts : heap.Accounts (block.toList ++ owned)) :
    (heap.free? block).Accounts owned := by
  cases block with
  | none => exact accounts
  | some block => exact accounts.free

theorem realloc_some {block : Option ℕ} (accounts : heap.Accounts (block.toList ++ owned))
    (h : heap.realloc answers block = (some new, heap')) : heap'.Accounts (new :: owned) := by
  obtain ⟨heap'', call, rfl⟩ := BlockHeap.realloc_some h
  refine free? ((accounts.malloc_some call).of_perm ?_)
  exact List.perm_middle

/-- A program that holds no block has freed what it got, each block once. -/
theorem freed_perm (accounts : heap.Accounts []) : heap.freed.Perm heap.given := accounts.perm

end Accounts

end BlockHeap
