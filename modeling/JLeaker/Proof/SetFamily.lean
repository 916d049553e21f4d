import JLeaker.Proof.BitmaskSet
import Mathlib.Data.List.Induction

/-!
# Runs over a family of bitmask sets

The unions work on whole bytes, so a union can set bits beyond the size of its target.  It does so
exactly when the source holds an element between the target's size and the end of its buffer.
-/

namespace JLeaker

variable {ι : Type} [DecidableEq ι]

/-- A call of one of the operations that change a set. -/
inductive SetOp (ι : Type) where
  | add (s : ι) (n : ℕ)
  | remove (s : ι) (n : ℕ)
  | addAll (s o : ι)
  | addAllWithExclusion (s o e : ι)

namespace SetOp

/-- The set a call changes. -/
def target : SetOp ι → ι
  | add s _ | remove s _ | addAll s _ | addAllWithExclusion s _ _ => s

/-- What the call leaves in the set it changes. -/
def result (family : ι → BitmaskSet) : SetOp ι → BitmaskSet
  | add s n => (family s).add n
  | remove s n => (family s).remove n
  | addAll s o => (family s).addAll (family o)
  | addAllWithExclusion s o e => (family s).addAllWithExclusion (family o) (family e)

/-- The family after the call. -/
def run (family : ι → BitmaskSet) (op : SetOp ι) : ι → BitmaskSet :=
  Function.update family op.target (op.result family)

/-- No element a union copies lies between the size of its target and the end of the buffer. -/
def Fits (family : ι → BitmaskSet) : SetOp ι → Prop
  | add _ _ | remove _ _ => True
  | addAll s o => ∀ n, (family o).contains n = true → n / 8 ≤ (family s).size / 8 →
      n < (family s).size
  | addAllWithExclusion s o e => ∀ n, (family o).contains n = true →
      (family e).contains n = false → n / 8 ≤ (family s).size / 8 → n < (family s).size

end SetOp

/-- The family after a list of calls. -/
def afterOps (family : ι → BitmaskSet) (ops : List (SetOp ι)) : ι → BitmaskSet :=
  ops.foldl SetOp.run family

theorem afterOps_concat (family : ι → BitmaskSet) (ops : List (SetOp ι)) (op : SetOp ι) :
    afterOps family (ops ++ [op]) = op.run (afterOps family ops) := by
  simp [afterOps]

namespace BitmaskSet

/-- The representation invariant, and the emptiness test it makes exact. -/
structure Sound (s : BitmaskSet) : Prop where
  clean : ∀ n, s.size ≤ n → s.bit n = false
  isEmpty_iff : s.isEmpty = true ↔ ∀ n, s.contains n = false

theorem Clean.contains_eq {s : BitmaskSet} (clean : s.Clean) (n : ℕ) : s.contains n = s.bit n := by
  rw [Bool.eq_iff_iff, clean.contains_iff]

theorem Clean.sound {s : BitmaskSet} (clean : s.Clean) : s.Sound where
  clean n hn := by
    rw [Bool.eq_false_iff]
    exact fun h => absurd (clean n h) (by omega)
  isEmpty_iff := by
    rw [s.isEmpty_iff]
    exact forall_congr' fun n => by rw [clean.contains_eq]

theorem Sound.isClean {s : BitmaskSet} (sound : s.Sound) : s.Clean := by
  intro n hn
  by_contra hsize
  rw [sound.clean n (by omega)] at hn
  cases hn

theorem sound_iff_clean {s : BitmaskSet} : s.Sound ↔ s.Clean := ⟨Sound.isClean, Clean.sound⟩

theorem clean_addAll_iff {s o : BitmaskSet} (clean : s.Clean) :
    (s.addAll o).Clean ↔ ∀ n, o.bit n = true → n / 8 ≤ s.size / 8 → n < s.size := by
  constructor
  · intro h n ho hn
    exact h n (by simp [bit_addAll, ho, hn])
  · intro h n hn
    rw [bit_addAll] at hn
    rcases Bool.or_eq_true_iff.mp hn with hn | hn
    · exact clean n hn
    · simp only [Bool.and_eq_true, decide_eq_true_eq] at hn
      exact h n hn.1 hn.2

theorem clean_addAllWithExclusion_iff {s o e : BitmaskSet} (clean : s.Clean) :
    (s.addAllWithExclusion o e).Clean ↔
      ∀ n, o.bit n = true → e.bit n = false → n / 8 ≤ s.size / 8 → n < s.size := by
  constructor
  · intro h n ho he hn
    exact h n (by simp [bit_addAllWithExclusion, ho, he, hn])
  · intro h n hn
    rw [bit_addAllWithExclusion] at hn
    rcases Bool.or_eq_true_iff.mp hn with hn | hn
    · exact clean n hn
    · simp only [Bool.and_eq_true, Bool.not_eq_true', decide_eq_true_eq] at hn
      exact h n hn.1.1 hn.1.2 hn.2

end BitmaskSet

omit [DecidableEq ι] in
/-- On clean sets a call leaves a clean set exactly if it fits. -/
theorem SetOp.clean_result_iff {family : ι → BitmaskSet} (clean : ∀ i, (family i).Clean)
    (op : SetOp ι) : (op.result family).Clean ↔ op.Fits family := by
  cases op with
  | add s n => simp only [result, Fits, (clean s).add n]
  | remove s n => simp only [result, Fits, (clean s).remove n]
  | addAll s o =>
    simp only [result, Fits, BitmaskSet.clean_addAll_iff (clean s), (clean o).contains_eq]
  | addAllWithExclusion s o e =>
    simp only [result, Fits, BitmaskSet.clean_addAllWithExclusion_iff (clean s),
      (clean o).contains_eq, (clean e).contains_eq]

theorem SetOp.clean_run_iff {family : ι → BitmaskSet} (clean : ∀ i, (family i).Clean)
    (op : SetOp ι) : (∀ i, (op.run family i).Clean) ↔ op.Fits family := by
  rw [← op.clean_result_iff clean]
  constructor
  · intro h
    simpa [run] using h op.target
  · intro h i
    by_cases hi : i = op.target
    · subst hi
      simpa [run] using h
    · simpa [run, hi] using clean i

/-- In a run over new sets of any sizes, the invariant holds of every set in every state reached if
and only if every call fits. -/
theorem sound_run_iff (sizes : ι → ℕ) (ops : List (SetOp ι)) :
    (∀ pre post, ops = pre ++ post → ∀ i, (afterOps (fun i => .new (sizes i)) pre i).Sound) ↔
      ∀ pre op post, ops = pre ++ op :: post →
        op.Fits (afterOps (fun i => .new (sizes i)) pre) := by
  simp only [BitmaskSet.sound_iff_clean]
  constructor
  · rintro h pre op post rfl
    have before := h pre (op :: post) rfl
    have after := h (pre ++ [op]) post (by simp)
    rw [afterOps_concat] at after
    exact (op.clean_run_iff before).mp after
  · intro fits pre
    induction pre using List.reverseRecOn with
    | nil => exact fun post _ i => BitmaskSet.clean_new (sizes i)
    | append_singleton pre op ih =>
      rintro post rfl
      have before := ih (op :: post) (by simp)
      rw [afterOps_concat]
      exact (op.clean_run_iff before).mpr (fits pre op post (by simp))

/-- A set of size 1 takes over element 1 of a set of size 2: it is not empty any more, but contains
nothing. -/
theorem union_beyond_size :
    let sizes : Bool → ℕ := fun i => if i then 2 else 1
    let s := afterOps (fun i => .new (sizes i)) [.add true 1, .addAll false true] false
    s.size ≤ 1 ∧ s.bit 1 = true ∧ s.isEmpty = false ∧ ∀ n, s.contains n = false := by
  refine ⟨by decide, by decide, by decide, fun n => ?_⟩
  rcases n with _ | n
  · decide
  · exact if_pos (by simp [afterOps, SetOp.run, SetOp.result, SetOp.target])

end JLeaker
