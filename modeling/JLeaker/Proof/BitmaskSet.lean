import Mathlib.Data.List.Basic
import Mathlib.Data.Nat.Bitwise
import JLeaker.Model.BitmaskSet

/-!
# Bits of a bitmask set

Every operation of `bitmask_set.c` is described by what it does to the bit at each position of the
buffer (`bit`), whether or not that position is below the set's size.  A set is `Clean` when no bit
from its size on is set; on clean sets the byte-wise operations are the set operations.
-/

namespace JLeaker

namespace BitmaskSet

/-- The bit at position `n` of the buffer. -/
def bit (s : BitmaskSet) (n : ℕ) : Bool := (s.byte (n / 8)).getLsbD (n % 8)

/-- No bit from the set's size on is set. -/
def Clean (s : BitmaskSet) : Prop := ∀ n, s.bit n = true → n < s.size

theorem lt_of_bit (s : BitmaskSet) {n : ℕ} (h : s.bit n = true) : n < 8 * s.ptr.length := by
  by_contra hge
  have outside : s.byte (n / 8) = 0 := List.getD_eq_default _ _ (by omega)
  rw [bit, outside] at h
  simp at h

theorem shiftRight_three (n : ℕ) : n >>> 3 = n / 8 := Nat.shiftRight_eq_div_pow n 3

theorem and_seven (n : ℕ) : n &&& 7 = n % 8 := Nat.and_two_pow_sub_one_eq_mod n 3

theorem getLsbD_one_shiftLeft (k i : ℕ) (hi : i < 8) :
    (1#8 <<< k).getLsbD i = decide (i = k) := by
  rw [BitVec.getLsbD_shiftLeft]
  rcases lt_trichotomy i k with h | rfl | h
  · simp [h, h.ne]
  · simp [hi]
  · simp [hi, h.ne', h.le, BitVec.getLsbD_one]
    omega

theorem and_one_shiftLeft_ne_zero (b : BitVec 8) (k : ℕ) (hk : k < 8) :
    ((b &&& (1#8 <<< k)) != 0) = b.getLsbD k := by
  rcases hb : b.getLsbD k with _ | _
  · have : b &&& (1#8 <<< k) = 0 := by
      apply BitVec.eq_of_getLsbD_eq
      intro i hi
      rw [BitVec.getLsbD_and, getLsbD_one_shiftLeft k i hi]
      by_cases h : i = k
      · simp [h, hb]
      · simp [h]
    simp [this]
  · have hne : b &&& (1#8 <<< k) ≠ 0 := by
      intro h
      have := congrArg (fun x : BitVec 8 => x.getLsbD k) h
      simp [BitVec.getLsbD_and, getLsbD_one_shiftLeft k k hk, hb] at this
    simpa using hne

theorem byte_of_length_le (s : BitmaskSet) {i : ℕ} (hi : s.size / 8 < i) : s.byte i = 0 := by
  have hlen : s.ptr.length ≤ i := by rw [s.length_ptr, shiftRight_three]; omega
  simp [byte, List.getD, List.getElem?_eq_none hlen]

theorem byte_mapBytes (s : BitmaskSet) (f : ℕ → BitVec 8 → BitVec 8) (i : ℕ) :
    (s.mapBytes f).byte i = if i ≤ s.size / 8 then f i (s.byte i) else 0 := by
  have hlen := s.length_ptr
  rw [shiftRight_three] at hlen
  split_ifs with h
  · have hi : i < s.ptr.length := by omega
    simp [byte, mapBytes, List.getD, hi]
  · exact byte_of_length_le (s.mapBytes f) (by simpa [mapBytes] using h)

@[simp] theorem size_mapBytes (s : BitmaskSet) (f : ℕ → BitVec 8 → BitVec 8) :
    (s.mapBytes f).size = s.size := rfl

@[simp] theorem size_new (size : ℕ) : (new size).size = size := rfl

@[simp] theorem size_add (s : BitmaskSet) (n : ℕ) : (s.add n).size = s.size := by
  unfold add; split_ifs <;> rfl

@[simp] theorem size_remove (s : BitmaskSet) (n : ℕ) : (s.remove n).size = s.size := by
  unfold remove; split_ifs <;> rfl

@[simp] theorem size_addAll (s o : BitmaskSet) : (s.addAll o).size = s.size := rfl

@[simp] theorem size_addAllWithExclusion (s o e : BitmaskSet) :
    (s.addAllWithExclusion o e).size = s.size := rfl

theorem bit_of_size_div_lt (s : BitmaskSet) {n : ℕ} (h : s.size / 8 < n / 8) : s.bit n = false := by
  simp [bit, byte_of_length_le s h]

theorem bit_new (size n : ℕ) : (new size).bit n = false := by
  have : (new size).byte (n / 8) = 0 := by
    simp only [byte, new, List.getD, List.getElem?_replicate]
    split_ifs <;> rfl
  simp [bit, this]

theorem clean_new (size : ℕ) : (new size).Clean := by
  intro n h
  simp [bit_new] at h

theorem contains_iff (s : BitmaskSet) (n : ℕ) :
    s.contains n = true ↔ n < s.size ∧ s.bit n = true := by
  unfold contains bit
  rw [shiftRight_three, and_seven, and_one_shiftLeft_ne_zero _ _ (Nat.mod_lt _ (by omega))]
  split_ifs with h
  · simp; omega
  · simp; omega

theorem Clean.contains_iff {s : BitmaskSet} (hs : s.Clean) (n : ℕ) :
    s.contains n = true ↔ s.bit n = true := by
  rw [BitmaskSet.contains_iff]
  exact ⟨And.right, fun h => ⟨hs n h, h⟩⟩

theorem bit_add (s : BitmaskSet) (k n : ℕ) :
    (s.add k).bit n = (s.bit n || (decide (n = k) && decide (k < s.size))) := by
  unfold add
  split_ifs with hk
  · simp; omega
  · simp only [bit, byte_mapBytes, shiftRight_three, and_seven]
    by_cases hn : n / 8 = k / 8
    · have hle : n / 8 ≤ s.size / 8 := by omega
      rw [if_pos hle, if_pos hn, BitVec.getLsbD_or,
        getLsbD_one_shiftLeft _ _ (Nat.mod_lt _ (by omega))]
      congr 1
      have : (n % 8 = k % 8) ↔ (n = k ∧ k < s.size) := by omega
      simp [this]
    · have hne : n ≠ k := by rintro rfl; exact hn rfl
      rw [if_neg hn]
      split_ifs with hle
      · simp [hne]
      · simp [hne, byte_of_length_le s (i := n / 8) (by omega)]

theorem bit_remove (s : BitmaskSet) (k n : ℕ) :
    (s.remove k).bit n = (s.bit n && !(decide (n = k) && decide (k < s.size))) := by
  unfold remove
  split_ifs with hk
  · have : ¬ k < s.size := by omega
    simp [this]
  · have hks : k < s.size := by omega
    simp only [bit, byte_mapBytes, shiftRight_three, and_seven]
    by_cases hn : n / 8 = k / 8
    · have hle : n / 8 ≤ s.size / 8 := by omega
      have hlt : n % 8 < 8 := Nat.mod_lt _ (by omega)
      rw [if_pos hle, if_pos hn, BitVec.getLsbD_and, BitVec.getLsbD_not,
        getLsbD_one_shiftLeft _ _ hlt]
      have : (n % 8 = k % 8) ↔ n = k := by omega
      simp [this, hlt, hks]
    · have hne : n ≠ k := by rintro rfl; exact hn rfl
      rw [if_neg hn]
      split_ifs with hle
      · simp [hne]
      · simp [byte_of_length_le s (i := n / 8) (by omega)]

theorem Clean.add {s : BitmaskSet} (clean : s.Clean) (n : ℕ) : (s.add n).Clean := by
  intro k hk
  rw [bit_add] at hk
  rw [size_add]
  rcases Bool.or_eq_true_iff.mp hk with hk | hk
  · exact clean k hk
  · simp only [Bool.and_eq_true, decide_eq_true_eq] at hk
    omega

theorem Clean.remove {s : BitmaskSet} (clean : s.Clean) (n : ℕ) : (s.remove n).Clean := by
  intro k hk
  rw [bit_remove] at hk
  rw [size_remove]
  exact clean k (Bool.and_eq_true_iff.mp hk).1

theorem bit_addAll (s o : BitmaskSet) (n : ℕ) :
    (s.addAll o).bit n = (s.bit n || (o.bit n && decide (n / 8 ≤ s.size / 8))) := by
  simp only [addAll, bit, byte_mapBytes, shiftRight_three]
  by_cases hs : n / 8 ≤ s.size / 8
  · rw [if_pos hs]
    by_cases ho : n / 8 ≤ o.size / 8
    · rw [if_pos (by split_ifs <;> omega), BitVec.getLsbD_or]
      simp [hs]
    · rw [if_neg (by split_ifs <;> omega), byte_of_length_le o (i := n / 8) (by omega)]
      simp
  · rw [if_neg hs, byte_of_length_le s (i := n / 8) (by omega)]
    simp [hs]

theorem bit_addAllWithExclusion (s o e : BitmaskSet) (n : ℕ) :
    (s.addAllWithExclusion o e).bit n =
      (s.bit n || (o.bit n && !e.bit n && decide (n / 8 ≤ s.size / 8))) := by
  simp only [addAllWithExclusion, bit, byte_mapBytes, shiftRight_three]
  have hlt : n % 8 < 8 := Nat.mod_lt _ (by omega)
  by_cases hs : n / 8 ≤ s.size / 8
  · rw [if_pos hs]
    by_cases ho : n / 8 ≤ o.size / 8
    · by_cases he : n / 8 ≤ e.size / 8
      · rw [if_pos (by split_ifs <;> omega)]
        simp [hlt, hs]
      · rw [byte_of_length_le e (i := n / 8) (by omega)]
        rw [if_neg (by split_ifs <;> omega), if_pos (by split_ifs <;> omega), BitVec.getLsbD_or]
        simp [hs]
    · rw [if_neg (by split_ifs <;> omega), if_neg (by split_ifs <;> omega),
        byte_of_length_le o (i := n / 8) (by omega)]
      simp
  · rw [if_neg hs, byte_of_length_le s (i := n / 8) (by omega)]
    simp [hs]

theorem byte_eq_zero_iff (s : BitmaskSet) (i : ℕ) :
    s.byte i = 0 ↔ ∀ k < 8, s.bit (8 * i + k) = false := by
  have hdiv : ∀ k < 8, (8 * i + k) / 8 = i := by omega
  have hmod : ∀ k < 8, (8 * i + k) % 8 = k := by omega
  constructor
  · intro h k hk
    simp [bit, hdiv k hk, h]
  · intro h
    apply BitVec.eq_of_getLsbD_eq
    intro k hk
    have := h k hk
    rw [bit, hdiv k hk, hmod k hk] at this
    simp [this]

theorem isEmpty_iff (s : BitmaskSet) : s.isEmpty = true ↔ ∀ n, s.bit n = false := by
  simp only [isEmpty, List.all_eq_true, List.mem_range, shiftRight_three, beq_iff_eq]
  constructor
  · intro h n
    by_cases hn : n / 8 ≤ s.size / 8
    · simp [bit, h (n / 8) (by omega)]
    · exact s.bit_of_size_div_lt (by omega)
  · intro h i _
    exact (s.byte_eq_zero_iff i).2 fun k _ => h _

theorem and_eq_right_iff (a b : BitVec 8) :
    a &&& b = b ↔ ∀ k < 8, b.getLsbD k = true → a.getLsbD k = true := by
  constructor
  · intro h k _ hb
    have := congrArg (fun x : BitVec 8 => x.getLsbD k) h
    simpa [BitVec.getLsbD_and, hb] using this
  · intro h
    apply BitVec.eq_of_getLsbD_eq
    intro k hk
    rw [BitVec.getLsbD_and]
    rcases hb : b.getLsbD k with _ | _
    · simp
    · simp [h k hk hb]

/-- A byte of the second set is inside that of the first if its elements are. -/
theorem byte_subset_iff (s o : BitmaskSet) (i : ℕ) : s.byte i &&& o.byte i = o.byte i ↔
    ∀ n, n / 8 = i → o.bit n = true → s.bit n = true := by
  rw [and_eq_right_iff]
  constructor
  · rintro h n rfl hn
    exact h (n % 8) (Nat.mod_lt _ (by omega)) hn
  · intro h k hk ho
    have hdiv : (8 * i + k) / 8 = i := by omega
    have hmod : (8 * i + k) % 8 = k := by omega
    have := h (8 * i + k) hdiv
    rw [bit, bit, hdiv, hmod] at this
    exact this ho

/-- When the first set is at least as large, the test reads the whole second buffer. -/
theorem containsAll_iff {s o : BitmaskSet} (hsize : o.size ≤ s.size) :
    s.containsAll o = true ↔ ∀ n, o.bit n = true → s.bit n = true := by
  have hbound : containsAllBound s o = 1 + o.size / 8 := by
    rw [containsAllBound, if_neg (by omega), shiftRight_three]
  simp only [containsAll, hbound, List.all_eq_true, List.mem_range, beq_iff_eq, byte_subset_iff]
  constructor
  · intro h n hn
    by_cases ho : n / 8 ≤ o.size / 8
    · exact h (n / 8) (by omega) n rfl hn
    · rw [o.bit_of_size_div_lt (by omega)] at hn
      cases hn
  · intro h i _ n _ ho
    exact h n ho

end BitmaskSet

end JLeaker
