import JLeaker.Proof.SubsetTest

/-!
# The set operations

The operations of `bitmask_set.c` with every access checked stay inside the buffers, whatever the
sizes of the sets are, and do to the elements what the operations on sets do.
-/

namespace JLeaker

namespace BitmaskSet

variable {s o e : BitmaskSet}

/-! ## One access -/

@[ext] theorem ext {s t : BitmaskSet} (size : s.size = t.size) (ptr : s.ptr = t.ptr) : s = t := by
  cases s
  cases t
  cases size
  cases ptr
  rfl

theorem mapBytes_mapBytes (s : BitmaskSet) (f g : ℕ → BitVec 8 → BitVec 8) :
    (s.mapBytes f).mapBytes g = s.mapBytes fun i b => g i (f i b) := by
  apply ext
  · rfl
  · show (s.ptr.mapIdx f).mapIdx g = s.ptr.mapIdx _
    rw [List.mapIdx_mapIdx]
    rfl

/-- A byte is rewritten in place. -/
theorem store_eq (s : BitmaskSet) (f : ℕ → BitVec 8 → BitVec 8) {i : ℕ} (inside : i ≤ s.size / 8) :
    s.store i (f i (s.byte i)) = some (s.mapBytes fun k b => if k = i then f k b else b) := by
  have hlen : i < s.ptr.length := by
    rw [s.length_ptr, shiftRight_three]
    omega
  rw [store, if_pos hlen]
  congr 1
  apply ext
  · rfl
  · apply List.ext_getElem
    · simp [mapBytes]
    · intro k hk hk'
      by_cases hki : k = i
      · subst hki
        simp [mapBytes, byte, List.getD, hlen]
      · have hik : i ≠ k := fun h => hki h.symm
        simp [mapBytes, hki, hik]

/-- Reading the byte at `i` and writing it back changed is `mapBytes` at `i`. -/
theorem update_eq (s : BitmaskSet) (f : ℕ → BitVec 8 → BitVec 8) {i : ℕ}
    (inside : i ≤ s.size / 8) :
    (s.ptr[i]?.bind fun p => s.store i (f i p)) =
      some (s.mapBytes fun k b => if k = i then f k b else b) := by
  rw [getElem?_ptr s inside, Option.bind_some, store_eq s f inside]

theorem containsChecked_eq (s : BitmaskSet) (n : ℕ) : s.containsChecked n = some (s.contains n) := by
  unfold containsChecked contains
  split_ifs with hn
  · rfl
  · rw [shiftRight_three, getElem?_ptr s (by omega)]
    rfl

theorem addChecked_eq (s : BitmaskSet) (n : ℕ) : s.addChecked n = some (s.add n) := by
  unfold addChecked add
  split_ifs with hn
  · rfl
  · have inside : n >>> 3 ≤ s.size / 8 := by
      rw [shiftRight_three]
      omega
    exact update_eq s (fun _ b => b ||| (1#8 <<< (n &&& 7))) inside

theorem removeChecked_eq (s : BitmaskSet) (n : ℕ) : s.removeChecked n = some (s.remove n) := by
  unfold removeChecked remove
  split_ifs with hn
  · rfl
  · have inside : n >>> 3 ≤ s.size / 8 := by
      rw [shiftRight_three]
      omega
    exact update_eq s (fun _ b => b &&& ~~~(1#8 <<< (n &&& 7))) inside

/-! ## The loops -/

/-- At offset `i`, the turn rewrites that byte of a set of the given size and no other. -/
def Rewrites (turn : ℕ → BitmaskSet → Option BitmaskSet) (f : ℕ → BitVec 8 → BitVec 8)
    (size i : ℕ) : Prop :=
  ∀ s, s.size = size → turn i s = some (s.mapBytes fun k b => if k = i then f k b else b)

/-- A loop whose turns all stay inside rewrites the bytes of its range. -/
theorem loopFrom_eq {turn : ℕ → BitmaskSet → Option BitmaskSet} {f : ℕ → BitVec 8 → BitVec 8}
    {size n i : ℕ} (turns : ∀ j, i ≤ j → j < i + n → Rewrites turn f size j) (hs : s.size = size) :
    loopFrom turn n i s =
      some (s.mapBytes fun k b => if i ≤ k ∧ k < i + n then f k b else b) := by
  induction n generalizing i s with
  | zero =>
    rw [loopFrom]
    congr 1
    apply ext
    · rfl
    · apply List.ext_getElem
      · simp [mapBytes]
      · intro k hk hk'
        have hout : ¬ (i ≤ k ∧ k < i + 0) := by omega
        simp only [mapBytes, List.getElem_mapIdx, if_neg hout]
  | succ n ih =>
    rw [loopFrom, turns i le_rfl (by omega) s hs]
    show loopFrom turn n (i + 1) _ = _
    rw [ih (fun j hj hlt => turns j (by omega) (by omega)) (by simpa using hs),
      mapBytes_mapBytes]
    congr 2
    funext k b
    by_cases hki : k = i
    · subst hki
      rw [if_neg (by omega), if_pos rfl, if_pos (by omega)]
    · rw [if_neg hki]
      by_cases hin : i + 1 ≤ k ∧ k < i + 1 + n
      · rw [if_pos hin, if_pos (by omega)]
      · rw [if_neg hin, if_neg (by omega)]

theorem rewrites_orByte {size i : ℕ} (hs : i ≤ size / 8) (ho : i ≤ o.size / 8) :
    Rewrites (orByte o) (fun k b => b ||| o.byte k) size i := by
  rintro s rfl
  unfold orByte
  rw [getElem?_ptr o ho]
  simp only [Option.bind_eq_bind, Option.bind_some]
  exact update_eq s (fun k b => b ||| o.byte k) hs

theorem rewrites_orByteExcept {size i : ℕ} (hs : i ≤ size / 8) (ho : i ≤ o.size / 8)
    (he : i ≤ e.size / 8) :
    Rewrites (orByteExcept o e) (fun k b => b ||| (o.byte k &&& ~~~e.byte k)) size i := by
  rintro s rfl
  unfold orByteExcept
  rw [getElem?_ptr o ho, getElem?_ptr e he]
  simp only [Option.bind_eq_bind, Option.bind_some]
  exact update_eq s (fun k b => b ||| (o.byte k &&& ~~~e.byte k)) hs

theorem addAllChecked_eq (s o : BitmaskSet) : s.addAllChecked o = some (s.addAll o) := by
  simp only [addAllChecked, addAll, shiftRight_three]
  rw [loopFrom_eq (fun j _ hj => rewrites_orByte ?_ ?_) rfl]
  · simp only [Nat.zero_le, true_and, Nat.zero_add]
  · split_ifs at hj <;> omega
  · split_ifs at hj <;> omega

theorem addAllWithExclusionChecked_eq (s o e : BitmaskSet) :
    s.addAllWithExclusionChecked o e = some (s.addAllWithExclusion o e) := by
  simp only [addAllWithExclusionChecked, addAllWithExclusion, shiftRight_three]
  generalize hmin : (if s.size < o.size then s.size else o.size) = minSize
  generalize hexcl : (if minSize < e.size then minSize else e.size) = exclSize
  have hs : minSize ≤ s.size := by split_ifs at hmin <;> omega
  have ho : minSize ≤ o.size := by split_ifs at hmin <;> omega
  have hle : exclSize ≤ minSize := by split_ifs at hexcl <;> omega
  have he : exclSize ≤ e.size := by split_ifs at hexcl <;> omega
  rw [loopFrom_eq (fun j _ hj => rewrites_orByteExcept (by omega) (by omega) (by omega)) rfl]
  show loopFrom _ _ _ _ = _
  rw [loopFrom_eq (fun j _ hj => rewrites_orByte (by omega) (by omega)) (size_mapBytes s _),
    mapBytes_mapBytes]
  congr 2
  funext i b
  by_cases hi : i < 1 + exclSize / 8
  · rw [if_pos hi, if_neg (by omega), if_pos (by omega)]
  · rw [if_neg hi, if_neg (by omega : ¬ (0 ≤ i ∧ i < 0 + (1 + exclSize / 8)))]
    by_cases hm : i < 1 + minSize / 8
    · rw [if_pos hm, if_pos (by omega)]
    · rw [if_neg hm, if_neg (by omega)]

/-! ## The elements -/

/-- The test for `m` stays inside the buffer and finds the element. -/
def Has (s : BitmaskSet) (m : ℕ) : Prop := s.containsChecked m = some true

/-- An operation stays inside the buffers, and so does every test of its result; the elements that
are found are those that fulfil the predicate. -/
def Yields (result : Option BitmaskSet) (elements : ℕ → Prop) : Prop :=
  ∃ t, result = some t ∧ ∀ m, ∃ b, t.containsChecked m = some b ∧ (b = true ↔ elements m)

theorem has_iff (s : BitmaskSet) (m : ℕ) : s.Has m ↔ m < s.size ∧ s.bit m = true := by
  rw [Has, containsChecked_eq, Option.some.injEq, contains_iff]

theorem Clean.has_iff (hs : s.Clean) (m : ℕ) : s.Has m ↔ s.bit m = true := by
  rw [Has, containsChecked_eq, Option.some.injEq, hs.contains_iff]

/-- The elements of a result whose bits below its size are known. -/
theorem yields_of_bit {elements : ℕ → Prop}
    (h : ∀ m, (m < s.size ∧ s.bit m = true) ↔ elements m) : Yields (some s) elements := by
  refine ⟨s, rfl, fun m => ⟨s.contains m, containsChecked_eq s m, ?_⟩⟩
  rw [contains_iff]
  exact h m

theorem yields_add (s : BitmaskSet) (n : ℕ) :
    Yields (s.addChecked n) fun m => (m = n ∧ n < s.size) ∨ s.Has m := by
  rw [addChecked_eq]
  apply yields_of_bit
  intro m
  rw [bit_add, size_add, has_iff]
  simp only [Bool.or_eq_true, Bool.and_eq_true, decide_eq_true_eq]
  constructor
  · rintro ⟨hm, old | new⟩
    · exact .inr ⟨hm, old⟩
    · exact .inl new
  · rintro (⟨rfl, hn⟩ | ⟨hm, old⟩)
    · exact ⟨hn, .inr ⟨rfl, hn⟩⟩
    · exact ⟨hm, .inl old⟩

theorem yields_remove (s : BitmaskSet) (n : ℕ) :
    Yields (s.removeChecked n) fun m => m ≠ n ∧ s.Has m := by
  rw [removeChecked_eq]
  apply yields_of_bit
  intro m
  rw [bit_remove, size_remove, has_iff]
  simp only [Bool.and_eq_true, Bool.not_eq_true', Bool.and_eq_false_iff, decide_eq_false_iff_not]
  constructor
  · rintro ⟨hm, old, hne | hn⟩
    · exact ⟨hne, hm, old⟩
    · refine ⟨?_, hm, old⟩
      rintro rfl
      exact hn hm
  · rintro ⟨hne, hm, old⟩
    exact ⟨hm, old, .inl hne⟩

theorem yields_addAll (s : BitmaskSet) (ho : o.Clean) :
    Yields (s.addAllChecked o) fun m => s.Has m ∨ (m < s.size ∧ o.Has m) := by
  rw [addAllChecked_eq]
  apply yields_of_bit
  intro m
  rw [bit_addAll, size_addAll, has_iff, ho.has_iff]
  simp only [Bool.or_eq_true, Bool.and_eq_true, decide_eq_true_eq]
  constructor
  · rintro ⟨hm, old | ⟨new, -⟩⟩
    · exact .inl ⟨hm, old⟩
    · exact .inr ⟨hm, new⟩
  · rintro (⟨hm, old⟩ | ⟨hm, new⟩)
    · exact ⟨hm, .inl old⟩
    · exact ⟨hm, .inr ⟨new, by omega⟩⟩

theorem yields_addAllWithExclusion (s : BitmaskSet) (ho : o.Clean) (he : e.Clean) :
    Yields (s.addAllWithExclusionChecked o e) fun m =>
      s.Has m ∨ (m < s.size ∧ o.Has m ∧ ¬ e.Has m) := by
  rw [addAllWithExclusionChecked_eq]
  apply yields_of_bit
  intro m
  rw [bit_addAllWithExclusion, size_addAllWithExclusion, has_iff, ho.has_iff, he.has_iff]
  simp only [Bool.or_eq_true, Bool.and_eq_true, decide_eq_true_eq, Bool.not_eq_true',
    Bool.not_eq_true]
  constructor
  · rintro ⟨hm, old | ⟨new, -⟩⟩
    · exact .inl ⟨hm, old⟩
    · exact .inr ⟨hm, new⟩
  · rintro (⟨hm, old⟩ | ⟨hm, new⟩)
    · exact ⟨hm, .inl old⟩
    · exact ⟨hm, .inr ⟨new, by omega⟩⟩

end BitmaskSet

open BitmaskSet

/-- Adding, removing and uniting, with an exclusion or without, act on the elements as on sets, and
touch no byte outside the buffers. -/
theorem setOperations_exact (s o e : BitmaskSet) (ho : o.Clean) (he : e.Clean)
    (n : ℕ) :
    Yields (s.addChecked n) (fun m => (m = n ∧ n < s.size) ∨ s.Has m) ∧
      Yields (s.removeChecked n) (fun m => m ≠ n ∧ s.Has m) ∧
      Yields (s.addAllChecked o) (fun m => s.Has m ∨ (m < s.size ∧ o.Has m)) ∧
      Yields (s.addAllWithExclusionChecked o e)
        (fun m => s.Has m ∨ (m < s.size ∧ o.Has m ∧ ¬ e.Has m)) :=
  ⟨yields_add s n, yields_remove s n, yields_addAll s ho, yields_addAllWithExclusion s ho he⟩

/-- Sets of eight and nine elements, the second with its last element, and one without elements. -/
theorem setOperations_exact_nine :
    Yields (((new 8).add 7).addAllWithExclusionChecked ((new 9).add 8) (new 0)) fun m =>
      ((new 8).add 7).Has m ∨ (m < 8 ∧ ((new 9).add 8).Has m ∧ ¬ (new 0).Has m) :=
  (setOperations_exact ((new 8).add 7) ((new 9).add 8) (new 0) ((clean_new 9).add 8) (clean_new 0)
    0).2.2.2

end JLeaker
