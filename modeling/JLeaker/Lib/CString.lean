import Mathlib.Algebra.Group.Int.Defs
import Mathlib.Algebra.Group.Nat.Defs
import Mathlib.Data.Int.Notation
import Mathlib.Data.List.TakeWhile

/-!
# C strings

A C string is the list of its characters before the terminating NUL.  `strtok` cuts one token off a
string and leaves the rest for the next call; `tokens` are the tokens a whole loop of such calls
sees.  `strtol` reads a decimal number and returns what it did not read.
-/

namespace CString

abbrev Str := List Char

/-! ## `strtok` -/

/-- The token, and the string at which the next `strtok(NULL, ..)` resumes. -/
def strtok (delim : Char → Bool) (s : Str) : Option Str × Str :=
  let s := s.dropWhile delim
  if s = [] then (none, [])
  else (some (s.takeWhile (!delim ·)), (s.dropWhile (!delim ·)).tail)

section

variable {delim : Char → Bool} {w s rest : Str} {c : Char}

theorem strtok_token (hw : w ≠ []) (h : ∀ c ∈ w, delim c = false)
    (hs : ∀ c ∈ s.head?, delim c = true) : strtok delim (w ++ s) = (some w, s.tail) := by
  obtain ⟨a, w, rfl⟩ := List.exists_cons_of_ne_nil hw
  have hall : ∀ x ∈ a :: w, (!delim x) = true := fun x hx => by simp [h x hx]
  have hstart : (a :: w ++ s).dropWhile delim = a :: w ++ s :=
    List.dropWhile_cons_of_neg (by simp [h a])
  have htake : s.takeWhile (!delim ·) = [] ∧ s.dropWhile (!delim ·) = s := by
    cases s with
    | nil => simp
    | cons c s => simp [hs c rfl]
  simp only [strtok, hstart]
  rw [if_neg (by simp), List.takeWhile_append_of_pos hall, List.dropWhile_append_of_pos hall,
    htake.1, htake.2, List.append_nil]

/-- A token followed by a delimiter. -/
theorem strtok_append (hw : w ≠ []) (h : ∀ c ∈ w, delim c = false) (hc : delim c = true) :
    strtok delim (w ++ c :: s) = (some w, s) :=
  strtok_token hw h (by simpa)

/-- A token at the end of the string. -/
theorem strtok_end (hw : w ≠ []) (h : ∀ c ∈ w, delim c = false) :
    strtok delim w = (some w, []) := by
  simpa using strtok_token (s := []) hw h (by simp)

/-- Leading delimiters are skipped. -/
theorem strtok_skip {d : Str} (h : ∀ c ∈ d, delim c = true) :
    strtok delim (d ++ s) = strtok delim s := by
  have hdrop : (d ++ s).dropWhile delim = s.dropWhile delim := List.dropWhile_append_of_pos h
  simp only [strtok, hdrop]

/-- What a call that returns a token has read: delimiters, the token and the delimiter after it. -/
theorem eq_of_strtok (h : strtok delim s = (some w, rest)) :
    ∃ d t, s = d ++ (w ++ t) ∧ (∀ c ∈ d, delim c = true) ∧ w ≠ [] ∧ (∀ c ∈ w, delim c = false) ∧
      (∀ c ∈ t.head?, delim c = true) ∧ rest = t.tail := by
  simp only [strtok] at h
  split_ifs at h with hnil
  · cases h
  cases h
  refine ⟨s.takeWhile delim, (s.dropWhile delim).dropWhile (!delim ·), ?_, ?_, ?_, ?_, ?_, rfl⟩
  · rw [List.takeWhile_append_dropWhile, List.takeWhile_append_dropWhile]
  · exact fun c hc => List.mem_takeWhile_imp hc
  · obtain ⟨a, t, ht⟩ := List.exists_cons_of_ne_nil hnil
    have ha : delim a = false := by
      simpa [ht] using List.head_dropWhile_not delim (l := s) hnil
    simp [ht, ha]
  · exact fun c hc => by simpa using List.mem_takeWhile_imp hc
  · intro c hc
    have := List.head?_dropWhile_not (!delim ·) (s.dropWhile delim)
    rw [Option.mem_def.mp hc] at this
    simpa using this

theorem eq_of_strtok_none (h : strtok delim s = (none, rest)) :
    (∀ c ∈ s, delim c = true) ∧ rest = [] := by
  simp only [strtok] at h
  split_ifs at h with hnil
  · cases h
    exact ⟨List.dropWhile_eq_nil_iff.mp hnil, rfl⟩
  · cases h

theorem mem_of_strtok (h : strtok delim s = (some w, rest)) (hc : c ∈ w) :
    c ∈ s ∧ delim c = false := by
  obtain ⟨d, t, rfl, -, -, hw, -, -⟩ := eq_of_strtok h
  exact ⟨by simp [hc], hw c hc⟩

theorem mem_of_strtok_rest (h : strtok delim s = (some w, rest)) (hc : c ∈ rest) : c ∈ s := by
  obtain ⟨d, t, rfl, -, -, -, -, rfl⟩ := eq_of_strtok h
  simp [List.mem_of_mem_tail hc]

/-- A call that returns a token makes the string shorter. -/
theorem length_rest_lt (h : strtok delim s = (some w, rest)) : rest.length < s.length := by
  obtain ⟨d, t, rfl, -, hw, -, -, rfl⟩ := eq_of_strtok h
  have := List.length_pos_iff.mpr hw
  simp only [List.length_append, List.length_tail]
  omega

end

/-! ## All tokens of a string -/

/-- The maximal runs of characters that are no delimiters. -/
def tokens (delim : Char → Bool) (s : Str) : List Str :=
  (s.splitOnP delim).filter (· ≠ [])

section

variable {delim : Char → Bool} {w s rest : Str} {c : Char}

@[simp] theorem tokens_nil : tokens delim [] = [] := rfl

theorem tokens_append (hw : w ≠ []) (h : ∀ c ∈ w, delim c = false) (hc : delim c = true) :
    tokens delim (w ++ c :: s) = w :: tokens delim s := by
  rw [tokens, List.splitOnP_append_cons_of_forall_mem h c hc, List.filter_cons_of_pos (by simpa)]
  rfl

theorem tokens_end (hw : w ≠ []) (h : ∀ c ∈ w, delim c = false) : tokens delim w = [w] := by
  rw [tokens, List.splitOnP_eq_singleton h, List.filter_cons_of_pos (by simpa), List.filter_nil]

theorem tokens_skip {d : Str} (h : ∀ c ∈ d, delim c = true) :
    tokens delim (d ++ s) = tokens delim s := by
  induction d with
  | nil => rfl
  | cons c d ih =>
    rw [List.cons_append, tokens, List.splitOnP_cons_eq_if_modifyHead, if_pos (h c (by simp)),
      List.filter_cons_of_neg (by simp)]
    exact ih fun x hx => h x (by simp [hx])

theorem tokens_of_all (h : ∀ c ∈ s, delim c = true) : tokens delim s = [] := by
  simpa using tokens_skip (s := []) h

/-- A loop of `strtok` calls sees the tokens one after another. -/
theorem tokens_of_strtok (h : strtok delim s = (some w, rest)) :
    tokens delim s = w :: tokens delim rest := by
  obtain ⟨d, t, rfl, hd, hne, hw, ht, rfl⟩ := eq_of_strtok h
  rw [tokens_skip hd]
  cases t with
  | nil => simpa using tokens_end hne hw
  | cons c t => exact tokens_append hne hw (ht c rfl)

theorem tokens_of_strtok_none (h : strtok delim s = (none, rest)) : tokens delim s = [] :=
  tokens_of_all (eq_of_strtok_none h).1

theorem tokens_eq_nil_iff : tokens delim s = [] ↔ ∀ c ∈ s, delim c = true := by
  refine ⟨fun h => ?_, tokens_of_all⟩
  cases htok : strtok delim s with
  | mk next rest =>
    cases next with
    | none => exact (eq_of_strtok_none htok).1
    | some w => simp [tokens_of_strtok htok] at h

theorem mem_of_mem_tokens (hw : w ∈ tokens delim s) (hc : c ∈ w) : c ∈ s ∧ delim c = false := by
  induction hn : s.length using Nat.strong_induction_on generalizing s with
  | _ n ih =>
    cases htok : strtok delim s with
    | mk next rest =>
      cases next with
      | none => simp [tokens_of_strtok_none htok] at hw
      | some v =>
        rw [tokens_of_strtok htok, List.mem_cons] at hw
        rcases hw with rfl | hw
        · exact mem_of_strtok htok hc
        · have hrest := ih _ (hn ▸ length_rest_lt htok) hw rfl
          exact ⟨mem_of_strtok_rest htok hrest.1, hrest.2⟩

/-- Every character that is no delimiter is in a token. -/
theorem exists_mem_tokens (hc : c ∈ s) (hdelim : delim c = false) : ∃ w ∈ tokens delim s, c ∈ w := by
  induction hn : s.length using Nat.strong_induction_on generalizing s with
  | _ n ih =>
    cases htok : strtok delim s with
    | mk next rest =>
      cases next with
      | none => simp [(eq_of_strtok_none htok).1 c hc] at hdelim
      | some v =>
        rw [tokens_of_strtok htok]
        by_cases hrest : c ∈ rest
        · obtain ⟨w, hw, hcw⟩ := ih _ (hn ▸ length_rest_lt htok) hrest rfl
          exact ⟨w, List.mem_cons_of_mem v hw, hcw⟩
        · obtain ⟨d, t, rfl, hd, -, -, ht, rfl⟩ := eq_of_strtok htok
          have hcd : c ∉ d := fun h => by simp [hd c h] at hdelim
          have hct : c ∉ t := by
            cases t with
            | nil => simp
            | cons a t =>
              have hca : c ≠ a := by
                rintro rfl
                simp [ht c rfl] at hdelim
              simpa [hca] using hrest
          exact ⟨v, List.mem_cons_self, by simpa [hcd, hct] using hc⟩

/-- The tokens of words each followed by the delimiter and of a last word. -/
theorem tokens_flatMap {ws : List Str} (hws : ∀ w ∈ ws, w ≠ [] ∧ ∀ c ∈ w, delim c = false)
    (hw : w ≠ [] ∧ ∀ c ∈ w, delim c = false) (hc : delim c = true) :
    tokens delim (ws.flatMap (· ++ [c]) ++ w) = ws ++ [w] := by
  induction ws with
  | nil => exact tokens_end hw.1 hw.2
  | cons v ws ih =>
    have hv := hws v (by simp)
    have hrest := ih fun u hu => hws u (by simp [hu])
    rw [List.flatMap_cons, List.append_assoc, List.append_assoc, List.singleton_append,
      tokens_append hv.1 hv.2 hc, hrest, List.cons_append]

end

/-! ## Decimal numbers -/

/-- `%d`: the decimal digits, after a minus sign if the number is negative. -/
def decimal (n : ℤ) : Str :=
  if n < 0 then '-' :: Nat.toDigits 10 n.natAbs else Nat.toDigits 10 n.natAbs

/-- `isspace` in the C locale. -/
def isSpace (c : Char) : Bool := c ∈ [' ', '\t', '\n', '\x0b', '\x0c', '\r']

/-- The sign of a number and what follows it. -/
def sign : Str → Bool × Str
  | '-' :: s => (true, s)
  | '+' :: s => (false, s)
  | s => (false, s)

/-- `strtol(s, &endptr, 10)` with a `long` of `w` bits: the number read, at the nearer bound if it
does not fit, and the characters from `endptr` on. -/
def strtol (w : ℕ) (s : Str) : ℤ × Str :=
  let (neg, t) := sign (s.dropWhile isSpace)
  let digits := t.takeWhile Char.isDigit
  let n : ℤ := Nat.ofDigitChars 10 digits 0
  if digits = [] then (0, s)
  else (max (-2 ^ (w - 1)) (min (2 ^ (w - 1) - 1) (if neg then -n else n)), t.dropWhile Char.isDigit)

theorem decimal_ne_nil (n : ℤ) : decimal n ≠ [] := by
  unfold decimal
  split_ifs
  · simp
  · exact Nat.toDigits_ne_nil

theorem length_decimal_pos (n : ℤ) : 0 < (decimal n).length :=
  List.length_pos_iff.2 (decimal_ne_nil n)

theorem length_decimal_le {n : ℤ} (h : -2 ^ 31 ≤ n ∧ n < 2 ^ 31) : (decimal n).length ≤ 11 := by
  have hdigits : (Nat.toDigits 10 n.natAbs).length ≤ 10 :=
    (Nat.length_toDigits_le_iff (by omega) (by omega)).2 (by omega)
  unfold decimal
  split_ifs
  · rw [List.length_cons]
    omega
  · omega

theorem mem_decimal {n : ℤ} {c : Char} (h : c ∈ decimal n) : c = '-' ∨ c.isDigit = true := by
  unfold decimal at h
  split_ifs at h
  · rcases List.mem_cons.mp h with rfl | hc
    · exact .inl rfl
    · exact .inr (Nat.isDigit_of_mem_toDigits (by decide) (by decide) hc)
  · exact .inr (Nat.isDigit_of_mem_toDigits (by decide) (by decide) h)

theorem not_isSpace_of_isDigit {c : Char} (h : c.isDigit = true) : ¬isSpace c = true := by
  intro hc
  have hspaces : [' ', '\t', '\n', '\x0b', '\x0c', '\r'].any Char.isDigit = false := by decide
  exact List.any_eq_false.1 hspaces c (of_decide_eq_true hc) h

theorem sign_of_isDigit {c : Char} {s : Str} (h : c.isDigit = true) :
    sign (c :: s) = (false, c :: s) := by
  unfold sign
  split
  · rename_i heq
    cases heq
    simp at h
  · rename_i heq
    cases heq
    simp at h
  · rfl

theorem sign_decimal (n : ℤ) :
    sign ((decimal n).dropWhile isSpace) = (decide (n < 0), Nat.toDigits 10 n.natAbs) := by
  unfold decimal
  split_ifs with hneg
  · rw [List.dropWhile_cons_of_neg (by decide)]
    simp [sign, hneg]
  · obtain ⟨c, s, hs⟩ := List.exists_cons_of_ne_nil (Nat.toDigits_ne_nil (n := n.natAbs) (b := 10))
    have hc : c.isDigit = true :=
      Nat.isDigit_of_mem_toDigits (by decide) (by decide) (hs ▸ List.mem_cons_self)
    rw [hs, List.dropWhile_cons_of_neg (not_isSpace_of_isDigit hc), sign_of_isDigit hc]
    simp [hneg]

/-- `strtol` reads a number that fits into a `long` back, to the end of the string. -/
theorem strtol_decimal {w : ℕ} {n : ℤ} (hlow : -2 ^ (w - 1) ≤ n) (hhigh : n < 2 ^ (w - 1)) :
    strtol w (decimal n) = (n, []) := by
  have hdigits : ∀ c ∈ Nat.toDigits 10 n.natAbs, c.isDigit = true :=
    fun c hc => Nat.isDigit_of_mem_toDigits (by decide) (by decide) hc
  have hn : (if decide (n < 0) = true then -(n.natAbs : ℤ) else n.natAbs) = n := by
    split_ifs with h <;> simp at h <;> omega
  simp only [strtol, sign_decimal, List.takeWhile_eq_self_iff.mpr hdigits,
    List.dropWhile_eq_nil_iff.mpr hdigits, Nat.ofDigitChars_ten_toDigits]
  rw [if_neg Nat.toDigits_ne_nil, hn, Int.min_eq_right (Int.le_sub_one_of_lt hhigh),
    Int.max_eq_right hlow]

end CString
