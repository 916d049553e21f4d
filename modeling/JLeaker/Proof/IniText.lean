import Mathlib.Data.List.Basic
import JLeaker.Model.Ini

/-!
# The strings on a line of a configuration file

`rstrip` and `lskip` take white space off the ends of a string, and `find_char_or_comment` passes over
everything but the character it looks for and a comment, which is a `;` after white space.  So a value
is found between white space, and before a comment.
-/

namespace JLeaker

open CString

/-! ## White space -/

section

variable {s t : Str} {c : Char}

/-- A string of white space. -/
def allSpace (s : Str) : Bool := s.all isspace

/-- Neither the first nor the last character is white space. -/
def trimmed (s : Str) : Bool := !s.head?.any isspace && !s.getLast?.any isspace

theorem rstrip_append_of_allSpace (s : Str) (space : allSpace t = true) :
    rstrip (s ++ t) = rstrip s := by
  unfold rstrip
  rw [List.reverse_append, List.dropWhile_append_of_pos]
  intro c hc
  exact List.all_eq_true.1 space c (List.mem_reverse.1 hc)

theorem rstrip_of_allSpace (space : allSpace s = true) : rstrip s = [] :=
  rstrip_append_of_allSpace [] space

theorem rstrip_append_cons (s t : Str) (hc : isspace c = false) :
    rstrip (s ++ c :: t) = s ++ c :: rstrip t := by
  unfold rstrip
  rw [List.reverse_append, List.reverse_cons, List.append_assoc]
  cases h : t.reverse.dropWhile isspace with
  | nil =>
    have space : ∀ x ∈ t.reverse, isspace x = true := List.dropWhile_eq_nil_iff.1 h
    rw [List.dropWhile_append_of_pos space, List.singleton_append,
      List.dropWhile_cons_of_neg (by simp [hc]), List.reverse_cons, List.reverse_reverse]
    rfl
  | cons x rest =>
    rw [List.dropWhile_append, h, if_neg (by simp), ← h, List.reverse_append, List.reverse_append,
      List.reverse_reverse, List.append_assoc]
    rfl

theorem rstrip_of_trimmed (trim : trimmed s = true) : rstrip s = s := by
  unfold trimmed at trim
  rw [Bool.and_eq_true, Bool.not_eq_true', Bool.not_eq_true'] at trim
  rcases List.eq_nil_or_concat' s with rfl | ⟨s, c, rfl⟩
  · rfl
  · have hc : isspace c = false := by simpa using trim.2
    have kept := rstrip_append_cons s [] hc
    rwa [show rstrip [] = [] from rfl] at kept

theorem rstrip_append_of_trimmed (s t : Str) {value : Str} (trim : trimmed value = true)
    (ne : value ≠ []) : rstrip (s ++ value ++ t) = s ++ value ++ rstrip t := by
  rcases List.eq_nil_or_concat' value with rfl | ⟨v, c, rfl⟩
  · exact absurd rfl ne
  · unfold trimmed at trim
    rw [Bool.and_eq_true, Bool.not_eq_true', Bool.not_eq_true'] at trim
    have hc : isspace c = false := by simpa using trim.2
    have kept := rstrip_append_cons (s ++ v) t hc
    simpa using kept

/-- What `rstrip` takes off. -/
theorem exists_rstrip (s : Str) : ∃ space, allSpace space = true ∧ rstrip s ++ space = s := by
  refine ⟨(s.reverse.takeWhile isspace).reverse, ?_, ?_⟩
  · refine List.all_eq_true.2 fun c hc => ?_
    exact List.mem_takeWhile_imp (List.mem_reverse.1 hc)
  · unfold rstrip
    rw [← List.reverse_append, List.takeWhile_append_dropWhile, List.reverse_reverse]

/-- What `lskip` takes off. -/
theorem exists_lskip (s : Str) : ∃ space, allSpace space = true ∧ space ++ lskip s = s :=
  ⟨s.takeWhile isspace, List.all_eq_true.2 fun _ hc => List.mem_takeWhile_imp hc,
    List.takeWhile_append_dropWhile⟩

theorem lskip_append_of_allSpace (t : Str) (space : allSpace s = true) :
    lskip (s ++ t) = lskip t :=
  List.dropWhile_append_of_pos fun c hc => List.all_eq_true.1 space c hc

theorem lskip_cons (s : Str) (hc : isspace c = false) : lskip (c :: s) = c :: s :=
  List.dropWhile_cons_of_neg (by simp [hc])

theorem isspace_head (trim : trimmed (c :: s) = true) : isspace c = false := by
  unfold trimmed at trim
  rw [Bool.and_eq_true, Bool.not_eq_true'] at trim
  simpa using trim.1

theorem allSpace_append (hs : allSpace s = true) (ht : allSpace t = true) :
    allSpace (s ++ t) = true := by
  unfold allSpace at hs ht ⊢
  rw [List.all_append, hs, ht]
  rfl

/-! ## Comments at the end of a line -/

/-- No `;` stands after white space; the first argument says whether white space stands before the
string. -/
def noComment : Bool → Str → Bool
  | _, [] => true
  | afterSpace, c :: s => !(afterSpace && c = ';') && noComment (isspace c) s

/-- The part of a string before its first comment. -/
def beforeComment : Bool → Str → Str
  | _, [] => []
  | afterSpace, c :: s =>
    if afterSpace && c = ';' then [] else c :: beforeComment (isspace c) s

/-- Whether white space stands at the end of a string. -/
def endsInSpace : Bool → Str → Bool
  | afterSpace, [] => afterSpace
  | _, c :: s => endsInSpace (isspace c) s

theorem noComment_append (w : Bool) (s t : Str) :
    noComment w (s ++ t) = (noComment w s && noComment (endsInSpace w s) t) := by
  induction s generalizing w with
  | nil => rfl
  | cons c s ih => rw [List.cons_append, noComment, ih, noComment, endsInSpace, Bool.and_assoc]

/-- The search passes over a string with neither the character nor a comment in it. -/
theorem findCharOrComment_append {stop : Option Char} {w : Bool} (t : Str)
    (plain : ∀ c ∈ s, some c ≠ stop) (none : noComment w s = true) :
    findCharOrComment stop w (s ++ t) = (s ++ (findCharOrComment stop (endsInSpace w s) t).1,
      (findCharOrComment stop (endsInSpace w s) t).2) := by
  induction s generalizing w with
  | nil => rfl
  | cons c s ih =>
    unfold noComment at none
    rw [Bool.and_eq_true, Bool.not_eq_true'] at none
    have other : ¬(decide (some c = stop) || (w && decide (c = ';'))) = true := by
      rw [none.1, decide_eq_false (plain c List.mem_cons_self)]
      decide
    rw [List.cons_append, findCharOrComment, if_neg other,
      ih (fun x hx => plain x (List.mem_cons_of_mem c hx)) none.2]
    rfl

theorem findCharOrComment_stop {stop : Char} (w : Bool) (t : Str) :
    findCharOrComment (some stop) w (stop :: t) = ([], stop :: t) := by
  rw [findCharOrComment, decide_eq_true rfl, Bool.true_or, if_pos rfl]

theorem endsInSpace_of_trimmed (trim : trimmed s = true) : endsInSpace false s = false := by
  have last : ∀ (w : Bool) (s : Str), endsInSpace w s = (s.getLast?.map isspace).getD w := by
    intro w s
    induction s generalizing w with
    | nil => rfl
    | cons c s ih =>
      rw [endsInSpace, ih, List.getLast?_cons]
      cases s.getLast? <;> rfl
  unfold trimmed at trim
  rw [Bool.and_eq_true, Bool.not_eq_true', Bool.not_eq_true'] at trim
  rw [last]
  cases h : s.getLast? with
  | none => rfl
  | some c =>
    rw [h] at trim
    exact trim.2

/-- The search for a character ends at one if there is one before the first comment. -/
theorem startsWith_findCharOrComment (stop : Char) (w : Bool) (s : Str) (ne : stop ≠ ';') :
    startsWith stop (findCharOrComment (some stop) w s).2 = true ↔ stop ∈ beforeComment w s := by
  induction s generalizing w with
  | nil => simp [startsWith, findCharOrComment, beforeComment]
  | cons c s ih =>
    rw [findCharOrComment, beforeComment]
    by_cases eq : c = stop
    · have other : ¬(w && decide (c = ';')) = true := by simp [eq, ne]
      rw [if_neg other, decide_eq_true (congrArg some eq), Bool.true_or, if_pos rfl, eq]
      simp [startsWith]
    · rw [decide_eq_false fun h => eq (Option.some.inj h), Bool.false_or]
      split_ifs
      · simp [startsWith, eq]
      · rw [List.mem_cons]
        exact (ih _).trans (by simp [Ne.symm eq])

/-- White space at the end of a string is no character before a comment. -/
theorem mem_beforeComment_append (w : Bool) (hc : isspace c = false) (space : allSpace t = true) :
    c ∈ beforeComment w (s ++ t) ↔ c ∈ beforeComment w s := by
  induction s generalizing w with
  | nil =>
    refine iff_of_false (fun mem => ?_) List.not_mem_nil
    have part : ∀ (w : Bool) (t : Str), ∀ x ∈ beforeComment w t, x ∈ t := by
      intro w t
      induction t generalizing w with
      | nil => exact fun _ h => h
      | cons d t ih =>
        intro x hx
        rw [beforeComment] at hx
        split_ifs at hx
        · cases hx
        · exact (List.mem_cons.1 hx).elim (fun h => h ▸ List.mem_cons_self)
            fun h => List.mem_cons_of_mem d (ih _ x h)
    have := List.all_eq_true.1 space c (part w t c mem)
    exact Bool.noConfusion (this.symm.trans hc)
  | cons d s ih =>
    rw [List.cons_append, beforeComment, beforeComment]
    split_ifs
    · exact Iff.rfl
    · rw [List.mem_cons, List.mem_cons, ih]

/-- Where the search ends, and what it has passed over. -/
theorem findCharOrComment_spec (stop : Option Char) (w : Bool) (s : Str) :
    (findCharOrComment stop w s).1 ++ (findCharOrComment stop w s).2 = s ∧
      noComment w (findCharOrComment stop w s).1 = true ∧
      (∀ c ∈ (findCharOrComment stop w s).1, some c ≠ stop) ∧
      ∀ c ∈ (findCharOrComment stop w s).2.head?, some c = stop ∨
        c = ';' ∧ endsInSpace w (findCharOrComment stop w s).1 = true := by
  induction s generalizing w with
  | nil => exact ⟨rfl, rfl, fun _ h => absurd h List.not_mem_nil, fun _ h => by cases h⟩
  | cons d s ih =>
    rw [findCharOrComment]
    by_cases h : (decide (some d = stop) || (w && decide (d = ';'))) = true
    · rw [if_pos h]
      refine ⟨rfl, rfl, fun _ h => absurd h List.not_mem_nil, ?_⟩
      rintro c ⟨⟩
      rw [Bool.or_eq_true, Bool.and_eq_true, decide_eq_true_iff, decide_eq_true_iff] at h
      exact h.imp_right And.symm
    · rw [if_neg h]
      obtain ⟨parts, none, plain, ends⟩ := ih (isspace d)
      rw [Bool.or_eq_true, not_or, decide_eq_true_iff, Bool.not_eq_true] at h
      refine ⟨congrArg _ parts, ?_, ?_, ends⟩
      · rw [noComment, h.2, none]
        rfl
      · exact fun c hc => (List.mem_cons.1 hc).elim (fun eq => eq ▸ h.1) (plain c)

/-- What may stand after a value: white space, and after white space a comment. -/
def isTail (tail : Str) : Bool :=
  allSpace tail || (tail.head?.any isspace && startsWith ';' (lskip tail))

theorem noComment_of_allSpace (w : Bool) (space : allSpace s = true) : noComment w s = true := by
  induction s generalizing w with
  | nil => rfl
  | cons c s ih =>
    unfold allSpace at space ih
    rw [List.all_cons, Bool.and_eq_true] at space
    have hc : c ≠ ';' := by
      rintro rfl
      exact absurd space.1 (by decide)
    rw [noComment, ih _ space.2, decide_eq_false hc, Bool.and_false]
    rfl

theorem endsInSpace_of_allSpace (w : Bool) (space : allSpace s = true) (ne : s ≠ []) :
    endsInSpace w s = true := by
  induction s generalizing w with
  | nil => exact absurd rfl ne
  | cons c s ih =>
    unfold allSpace at space ih
    rw [List.all_cons, Bool.and_eq_true] at space
    rw [endsInSpace, space.1]
    cases s with
    | nil => rfl
    | cons d s => exact ih true space.2 (List.cons_ne_nil d s)

/-- The white space of a tail and its comment. -/
theorem isTail_comment (tail : isTail t = true) (not : allSpace t = false) :
    ∃ space text, t = space ++ ';' :: text ∧ allSpace space = true ∧ space ≠ [] := by
  unfold isTail at tail
  rw [not, Bool.false_or, Bool.and_eq_true] at tail
  refine ⟨t.takeWhile isspace, (lskip t).tail, ?_, ?_, ?_⟩
  · conv_lhs => rw [← List.takeWhile_append_dropWhile (p := isspace) (l := t)]
    obtain ⟨text, mark⟩ : ∃ text, lskip t = ';' :: text := by
      have start := tail.2
      unfold startsWith at start
      cases h : lskip t with
      | nil =>
        rw [h] at start
        cases start
      | cons c text =>
        rw [h] at start
        have : c = ';' := by simpa using start
        exact ⟨text, by rw [this]⟩
    rw [mark]
    exact congrArg _ mark
  · exact List.all_eq_true.2 fun c hc => List.mem_takeWhile_imp hc
  · cases t with
    | nil => cases tail.1
    | cons c t =>
      have hc : isspace c = true := by simpa using tail.1
      rw [List.takeWhile_cons_of_pos hc]
      exact List.cons_ne_nil _ _

/-- After a value only white space stands before a comment. -/
theorem allSpace_beforeComment {tail : Str} (tails : isTail tail = true) :
    allSpace (findCharOrComment none false (rstrip (tail ++ ['\n']))).1 = true := by
  cases space : allSpace tail with
  | true =>
    rw [rstrip_of_allSpace (allSpace_append space rfl)]
    rfl
  | false =>
    obtain ⟨before, text, rfl, hspace, ne⟩ := isTail_comment tails space
    have stop : ∀ rest, findCharOrComment none true (';' :: rest) = ([], ';' :: rest) := fun _ => rfl
    rw [List.append_assoc, List.cons_append, rstrip_append_cons _ _ (by decide),
      findCharOrComment_append _ (fun _ _ => by simp) (noComment_of_allSpace false hspace),
      endsInSpace_of_allSpace false hspace ne, stop, List.append_nil]
    exact hspace

/-- A value is cut out of what stands before and after it. -/
theorem value_eq {before value tail : Str} (space : allSpace before = true)
    (trim : trimmed value = true) (plain : noComment false value = true) (tails : isTail tail = true)
    (empty : value = [] → allSpace tail = true) :
    rstrip (findCharOrComment none false
      (lskip (rstrip (before ++ value ++ (tail ++ ['\n']))))).1 = value := by
  by_cases ne : value = []
  · have blank : allSpace (before ++ [] ++ (tail ++ ['\n'])) = true :=
      allSpace_append (allSpace_append space rfl) (allSpace_append (empty ne) rfl)
    rw [ne, rstrip_of_allSpace blank]
    rfl
  · obtain ⟨c, rest, rfl⟩ := List.exists_cons_of_ne_nil ne
    rw [rstrip_append_of_trimmed _ _ trim ne, List.append_assoc, lskip_append_of_allSpace _ space,
      List.cons_append, lskip_cons _ (isspace_head trim), ← List.cons_append,
      findCharOrComment_append _ (fun _ _ => by simp) plain, endsInSpace_of_trimmed trim]
    dsimp only
    rw [rstrip_append_of_allSpace _ (allSpace_beforeComment tails), rstrip_of_trimmed trim]

end

end JLeaker
