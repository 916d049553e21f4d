import JLeaker.Proof.BitmaskSet

/-!
# The reads of `bitMapSet_containsAll`

When the first set is the smaller one, the loop runs over as many bytes as that set has elements.
It leaves the first buffer, unless an element that is missing stops it before.
-/

namespace JLeaker

namespace BitmaskSet

variable {s o : BitmaskSet}

/-! ## The loop -/

theorem getElem?_ptr (s : BitmaskSet) {i : ℕ} (hi : i ≤ s.size / 8) : s.ptr[i]? = some (s.byte i) := by
  have hlen : i < s.ptr.length := by
    rw [s.length_ptr, shiftRight_three]
    omega
  simp [byte, List.getD, hlen]

theorem getElem?_ptr_eq_none (s : BitmaskSet) {i : ℕ} (hi : s.size / 8 < i) : s.ptr[i]? = none := by
  apply List.getElem?_eq_none
  rw [s.length_ptr, shiftRight_three]
  omega

/-- The offset `i` is inside both buffers. -/
def InBoth (s o : BitmaskSet) (i : ℕ) : Prop := i ≤ s.size / 8 ∧ i ≤ o.size / 8

theorem InBoth.mono {i j : ℕ} (h : s.InBoth o j) (hij : i ≤ j) : s.InBoth o i :=
  ⟨hij.trans h.1, hij.trans h.2⟩

/-- The byte of the second set at offset `i` is inside that of the first. -/
def SubByte (s o : BitmaskSet) (i : ℕ) : Prop := s.byte i &&& o.byte i = o.byte i

instance (s o : BitmaskSet) (i : ℕ) : Decidable (s.SubByte o i) :=
  inferInstanceAs (Decidable (_ = _))

/-- One turn of the loop inside the buffers. -/
theorem containsAllFrom_succ {n i : ℕ} (inside : s.InBoth o i) :
    s.containsAllFrom o (n + 1) i =
      if s.SubByte o i then s.containsAllFrom o n (i + 1) else some false := by
  rw [containsAllFrom, getElem?_ptr s inside.1, getElem?_ptr o inside.2]
  simp only [Option.bind_eq_bind, Option.bind_some]
  by_cases h : s.SubByte o i
  · rw [if_pos h]
    exact if_neg (not_not_intro h)
  · rw [if_neg h]
    exact if_pos h

theorem containsAllFrom_outside {n i : ℕ} (outside : ¬ s.InBoth o i) :
    s.containsAllFrom o (n + 1) i = none := by
  rw [containsAllFrom]
  by_cases hs : i ≤ s.size / 8
  · have ho : o.size / 8 < i := by
      by_contra h
      exact outside ⟨hs, by omega⟩
    rw [getElem?_ptr s hs, getElem?_ptr_eq_none o ho]
    rfl
  · rw [getElem?_ptr_eq_none s (by omega)]
    rfl

/-- The loop ends inside the buffers if they hold all it is to read, or a byte stops it. -/
theorem exists_containsAllFrom_iff {n i : ℕ} : (∃ b, s.containsAllFrom o n i = some b) ↔
    (∀ j, i ≤ j → j < i + n → s.InBoth o j) ∨
      ∃ j, i ≤ j ∧ j < i + n ∧ s.InBoth o j ∧ ¬ s.SubByte o j := by
  induction n generalizing i with
  | zero => exact ⟨fun _ => .inl fun j hi hj => by omega, fun _ => ⟨true, rfl⟩⟩
  | succ n ih =>
    by_cases inside : s.InBoth o i
    · rw [containsAllFrom_succ inside]
      split_ifs with hbyte
      · rw [ih]
        -- the byte at `i` neither stops the loop nor is outside
        constructor
        · rintro (all | ⟨j, hi, hj, found⟩)
          · refine .inl fun j hi hj => ?_
            by_cases hji : j = i
            · exact hji ▸ inside
            · exact all j (by omega) (by omega)
          · exact .inr ⟨j, by omega, by omega, found⟩
        · rintro (all | ⟨j, hi, hj, found⟩)
          · exact .inl fun j hi hj => all j (by omega) (by omega)
          · have hji : j ≠ i := by
              rintro rfl
              exact found.2 hbyte
            exact .inr ⟨j, by omega, by omega, found⟩
      · exact ⟨fun _ => .inr ⟨i, le_rfl, by omega, inside, hbyte⟩, fun _ => ⟨false, rfl⟩⟩
    · rw [containsAllFrom_outside inside]
      constructor
      · rintro ⟨b, hb⟩
        cases hb
      · rintro (all | ⟨j, hi, _, found⟩)
        · exact absurd (all i le_rfl (by omega)) inside
        · exact absurd (found.1.mono hi) inside

/-- What the loop answers. -/
theorem containsAllFrom_answer {n i : ℕ} {b : Bool} (h : s.containsAllFrom o n i = some b) :
    b = true ↔ ∀ j, i ≤ j → j < i + n → s.SubByte o j := by
  induction n generalizing i with
  | zero =>
    obtain rfl := Option.some.inj h
    exact ⟨fun _ j hi hj => by omega, fun _ => rfl⟩
  | succ n ih =>
    have inside : s.InBoth o i := by
      by_contra outside
      rw [containsAllFrom_outside outside] at h
      cases h
    rw [containsAllFrom_succ inside] at h
    split_ifs at h with hbyte
    · rw [ih h]
      constructor
      · intro all j hi hj
        by_cases hji : j = i
        · exact hji ▸ hbyte
        · exact all j (by omega) (by omega)
      · intro all j hi hj
        exact all j (by omega) (by omega)
    · obtain rfl := Option.some.inj h
      exact ⟨fun hb => (Bool.false_ne_true hb).elim,
        fun all => absurd (all i le_rfl (by omega)) hbyte⟩

/-! ## The test -/

theorem exists_containsAllChecked_iff : (∃ b, s.containsAllChecked o = some b) ↔
    (∀ j < containsAllBound s o, s.InBoth o j) ∨
      ∃ j < containsAllBound s o, s.InBoth o j ∧ ¬ s.SubByte o j := by
  simp only [containsAllChecked, exists_containsAllFrom_iff, Nat.zero_le, Nat.zero_add, true_and,
    forall_const]

theorem containsAllChecked_answer {b : Bool} (h : s.containsAllChecked o = some b) :
    b = true ↔ ∀ j < containsAllBound s o, s.SubByte o j := by
  rw [containsAllFrom_answer h]
  simp only [Nat.zero_le, Nat.zero_add, forall_const]

/-- Where the checked test answers, it answers as `containsAll`. -/
theorem containsAll_of_checked {b : Bool} (h : s.containsAllChecked o = some b) :
    s.containsAll o = b := by
  rw [Bool.eq_iff_iff, containsAllChecked_answer h]
  simp only [containsAll, List.all_eq_true, List.mem_range, beq_iff_eq]
  rfl

/-- The test stays inside the buffers, and its answer is whether all elements of the second set are
in the first. -/
def TestsSubset (s o : BitmaskSet) : Prop :=
  ∃ b, s.containsAllChecked o = some b ∧
    (b = true ↔ ∀ n, o.contains n = true → s.contains n = true)

theorem Clean.subset_iff (hs : s.Clean) (ho : o.Clean) :
    (∀ n, o.contains n = true → s.contains n = true) ↔ ∀ i, s.SubByte o i := by
  simp only [SubByte, byte_subset_iff, hs.contains_iff, ho.contains_iff]
  exact ⟨fun all i n _ => all n, fun all n => all _ n rfl⟩

theorem Clean.not_subByte_iff (hs : s.Clean) (ho : o.Clean) {i : ℕ} : ¬ s.SubByte o i ↔
    ∃ n, n / 8 = i ∧ o.contains n = true ∧ s.contains n = false := by
  simp only [SubByte, byte_subset_iff, ← ho.contains_iff, ← hs.contains_iff]
  push Not
  simp only [Bool.not_eq_true]

theorem subByte_of_size_lt {i : ℕ} (hi : o.size / 8 < i) : s.SubByte o i := by
  unfold SubByte
  rw [byte_of_length_le o hi]
  exact BitVec.and_zero

/-- The answer of a test that reads the whole second buffer, or is stopped by a byte. -/
theorem Clean.testsSubset (hs : s.Clean) (ho : o.Clean)
    (ends : ∃ b, s.containsAllChecked o = some b)
    (answer : (∀ j < containsAllBound s o, s.SubByte o j) → ∀ i, s.SubByte o i) :
    s.TestsSubset o := by
  obtain ⟨b, hb⟩ := ends
  refine ⟨b, hb, ?_⟩
  rw [containsAllChecked_answer hb, hs.subset_iff ho]
  exact ⟨answer, fun all j _ => all j⟩

theorem testsSubset_of_le (hs : s.Clean) (ho : o.Clean) (hsize : o.size ≤ s.size) :
    s.TestsSubset o := by
  have hbound : containsAllBound s o = 1 + o.size / 8 := by
    rw [containsAllBound, if_neg (by omega), shiftRight_three]
  apply hs.testsSubset ho
  · refine exists_containsAllChecked_iff.2 (.inl fun j hj => ?_)
    constructor
    · omega
    · omega
  · intro all i
    by_cases hi : o.size / 8 < i
    · exact subByte_of_size_lt hi
    · exact all i (by omega)

end BitmaskSet

open BitmaskSet

/-- The subset test is exact and stays in bounds if and only if the second set is not larger, or an
element is missing within the first buffer, or the first set has size zero and the second is empty. -/
theorem containsAll_subset_iff (s o : BitmaskSet) (hs : s.Clean) (ho : o.Clean) :
    s.TestsSubset o ↔ o.size ≤ s.size ∨
      (∃ n, o.contains n = true ∧ s.contains n = false ∧ n / 8 ≤ s.size / 8) ∨
      (s.size = 0 ∧ ∀ n, o.contains n = false) := by
  by_cases hsize : o.size ≤ s.size
  · exact ⟨fun _ => .inl hsize, fun _ => testsSubset_of_le hs ho hsize⟩
  have hbound : containsAllBound s o = 1 + s.size := by
    rw [containsAllBound, if_pos (by omega)]
  constructor
  · rintro ⟨b, hb, hanswer⟩
    refine .inr ?_
    by_cases stopped : ∃ i ≤ s.size / 8, ¬ s.SubByte o i
    · obtain ⟨i, hi, hbyte⟩ := stopped
      obtain ⟨n, rfl, hn, hmissing⟩ := (hs.not_subByte_iff ho).1 hbyte
      exact .inl ⟨n, hn, hmissing, hi⟩
    push Not at stopped
    -- no byte stops the loop, so it must have ended inside the first buffer
    have inside := (exists_containsAllChecked_iff.1 ⟨b, hb⟩).resolve_right (by
      rintro ⟨j, -, hj, hbyte⟩
      exact hbyte (stopped j hj.1))
    have hzero : s.size = 0 := by
      have := (inside s.size (by omega)).1
      omega
    refine .inr ⟨hzero, fun n => ?_⟩
    have hb : b = true := (containsAllChecked_answer hb).2 fun j hj => stopped j (by omega)
    by_contra hn
    have hn := hanswer.1 hb n (Bool.of_not_eq_false hn)
    have := ((s.contains_iff n).1 hn).1
    omega
  · rintro (hle | ⟨n, hn, hmissing, hle⟩ | ⟨hzero, empty⟩)
    · exact absurd hle hsize
    · have hbyte : ¬ s.SubByte o (n / 8) := (hs.not_subByte_iff ho).2 ⟨n, rfl, hn, hmissing⟩
      have hj : n / 8 < containsAllBound s o := by omega
      apply hs.testsSubset ho
      · exact exists_containsAllChecked_iff.2 (.inr ⟨n / 8, hj, ⟨hle, by omega⟩, hbyte⟩)
      · exact fun all => absurd (all _ hj) hbyte
    · have all : ∀ i, s.SubByte o i := (hs.subset_iff ho).1 fun n hn => by
        rw [empty n] at hn
        cases hn
      apply hs.testsSubset ho
      · refine exists_containsAllChecked_iff.2 (.inl fun j hj => ?_)
        constructor
        · omega
        · omega
      · exact fun _ => all

/-- A set of size three that has the two elements of a set of size two. -/
theorem containsAll_subset_iff_three :
    (((new 3).add 0).add 1).TestsSubset (((new 2).add 0).add 1) := by
  have clean (size : ℕ) : (((new size).add 0).add 1).Clean := ((clean_new size).add 0).add 1
  exact (containsAll_subset_iff _ _ (clean 3) (clean 2)).2 (.inl (by decide))

/-- With an empty set of size one and one of size two, the test reads a byte behind the first. -/
theorem containsAll_out_of_bounds :
    (new 1).Clean ∧ (new 2).Clean ∧ ¬ (new 1).TestsSubset (new 2) := by
  refine ⟨clean_new 1, clean_new 2, ?_⟩
  rintro ⟨b, hb, -⟩
  have : (new 1).containsAllChecked (new 2) = none := by decide
  rw [this] at hb
  cases hb

end JLeaker
