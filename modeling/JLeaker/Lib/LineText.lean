import Mathlib.Data.List.Basic
import Mathlib.Data.List.TakeWhile

/-!
# Lines of a text that arrives bit by bit

A line ends with a line feed, a carriage return, or a carriage return and a line feed.  `readLine` reads
the next line of what has arrived of a text and leaves the rest, with a note whether a line feed at its
start still belongs to the line before.  However the text arrives, the lines read are those of the whole
text, and printing them with line ends of one kind changes nothing but the line ends.
-/

namespace LineText

/-! ## Line ends -/

/-- Every line end as one line feed, after a carriage return or not. -/
def normalizeFrom : Bool → List Char → List Char
  | _, [] => []
  | afterCR, c :: s =>
    if afterCR && c = '\n' then normalizeFrom false s
    else (if c = '\r' then '\n' else c) :: normalizeFrom (decide (c = '\r')) s

/-- Every line end as one line feed. -/
def normalize (s : List Char) : List Char := normalizeFrom false s

/-- Part of no line end. -/
def isPlain (c : Char) : Bool := c ≠ '\n' && c ≠ '\r'

/-- The lines between line feeds; the last one need not end with one. -/
def lines : List Char → List (List Char)
  | [] => []
  | c :: s =>
    if c = '\n' then [] :: lines s
    else match lines s with
      | [] => [[c]]
      | line :: rest => (c :: line) :: rest

/-- The lines, each with a line end. -/
def unlines (lineEnd : List Char) (ls : List (List Char)) : List Char := ls.flatMap (· ++ lineEnd)

/-- The three line ends. -/
def IsLineEnd (lineEnd : List Char) : Prop :=
  lineEnd = ['\n'] ∨ lineEnd = ['\r'] ∨ lineEnd = ['\r', '\n']

theorem isPlain_iff {c : Char} : isPlain c = true ↔ c ≠ '\n' ∧ c ≠ '\r' := by
  unfold isPlain
  rw [Bool.and_eq_true, decide_eq_true_iff, decide_eq_true_iff]

theorem normalizeFrom_cons_of_ne {c : Char} (h : c ≠ '\n') (afterCR : Bool) (s : List Char) :
    normalizeFrom afterCR (c :: s) = normalizeFrom false (c :: s) := by
  cases afterCR with
  | false => rfl
  | true => simp [normalizeFrom, h]

/-- A line stays as it is, and its line end becomes a line feed. -/
theorem normalizeFrom_line {line : List Char} (plain : ∀ c ∈ line, isPlain c = true) {c : Char}
    (hc : isPlain c = false) (s : List Char) : normalizeFrom false (line ++ c :: s) =
      line ++ '\n' :: normalizeFrom (decide (c = '\r')) s := by
  induction line with
  | nil =>
    rw [List.nil_append, List.nil_append, normalizeFrom, Bool.false_and, if_neg Bool.false_ne_true]
    split_ifs with h
    · rfl
    · have eq : c = '\n' := by
        by_contra hne
        exact Bool.noConfusion (hc.symm.trans (isPlain_iff.2 ⟨hne, h⟩))
      rw [eq]
  | cons d line ih =>
    obtain ⟨-, hd⟩ := isPlain_iff.1 (plain d List.mem_cons_self)
    rw [List.cons_append, normalizeFrom, Bool.false_and, if_neg Bool.false_ne_true, if_neg hd,
      decide_eq_false hd, ih fun x hx => plain x (List.mem_cons_of_mem _ hx), List.cons_append]

theorem normalizeFrom_plain {line : List Char} (plain : ∀ c ∈ line, isPlain c = true) :
    normalizeFrom false line = line := by
  induction line with
  | nil => rfl
  | cons d line ih =>
    obtain ⟨-, hd⟩ := isPlain_iff.1 (plain d List.mem_cons_self)
    rw [normalizeFrom, Bool.false_and, if_neg Bool.false_ne_true, if_neg hd, decide_eq_false hd,
      ih fun x hx => plain x (List.mem_cons_of_mem _ hx)]

theorem not_mem_normalizeFrom (s : List Char) (afterCR : Bool) : '\r' ∉ normalizeFrom afterCR s := by
  induction s generalizing afterCR with
  | nil => exact List.not_mem_nil
  | cons c s ih =>
    rw [normalizeFrom]
    split_ifs with h h'
    · exact ih false
    · exact fun mem => (List.mem_cons.1 mem).elim (by decide) (ih _)
    · exact fun mem => (List.mem_cons.1 mem).elim (fun eq => h' eq.symm) (ih _)

theorem mem_of_mem_normalizeFrom {s : List Char} {afterCR : Bool} {c : Char}
    (h : c ∈ normalizeFrom afterCR s) (ne : c ≠ '\n') : c ∈ s := by
  induction s generalizing afterCR with
  | nil =>
    rw [normalizeFrom] at h
    exact h
  | cons d s ih =>
    rw [normalizeFrom] at h
    split_ifs at h with skipped cr
    · exact List.mem_cons_of_mem _ (ih h)
    · rcases List.mem_cons.1 h with rfl | h
      · exact absurd rfl ne
      · exact List.mem_cons_of_mem _ (ih h)
    · rcases List.mem_cons.1 h with rfl | h
      · exact List.mem_cons_self
      · exact List.mem_cons_of_mem _ (ih h)

/-- Nothing changes in a text without carriage returns. -/
theorem normalize_of_not_mem {s : List Char} (h : '\r' ∉ s) : normalize s = s := by
  unfold normalize
  induction s with
  | nil => rfl
  | cons c s ih =>
    have hc : c ≠ '\r' := fun eq => h (eq ▸ List.mem_cons_self)
    rw [normalizeFrom, Bool.false_and, if_neg Bool.false_ne_true, if_neg hc, decide_eq_false hc,
      ih fun mem => h (List.mem_cons_of_mem c mem)]

/-! ## Lines -/

theorem lines_cons_of_ne {c : Char} (h : c ≠ '\n') (s : List Char) : lines (c :: s) =
    match lines s with
    | [] => [[c]]
    | line :: rest => (c :: line) :: rest := by
  rw [lines, if_neg h]

theorem lines_append {line : List Char} (plain : ∀ c ∈ line, c ≠ '\n') (s : List Char) :
    lines (line ++ '\n' :: s) = line :: lines s := by
  induction line with
  | nil => rfl
  | cons c line ih =>
    rw [List.cons_append, lines_cons_of_ne (plain c List.mem_cons_self),
      ih fun x hx => plain x (List.mem_cons_of_mem _ hx)]

/-- The last line may go without a line feed. -/
theorem lines_of_ne_nil {line : List Char} (plain : ∀ c ∈ line, c ≠ '\n') (ne : line ≠ []) :
    lines line = [line] := by
  induction line with
  | nil => exact absurd rfl ne
  | cons c line ih =>
    rw [lines_cons_of_ne (plain c List.mem_cons_self)]
    cases line with
    | nil => rfl
    | cons d line => rw [ih (fun x hx => plain x (List.mem_cons_of_mem _ hx)) (List.cons_ne_nil _ _)]

theorem mem_of_mem_lines {s line : List Char} (h : line ∈ lines s) :
    ∀ c ∈ line, c ≠ '\n' ∧ c ∈ s := by
  induction s generalizing line with
  | nil => exact absurd h List.not_mem_nil
  | cons d s ih =>
    intro c hc
    by_cases hd : d = '\n'
    · rw [lines, if_pos hd] at h
      rcases List.mem_cons.1 h with rfl | h
      · exact absurd hc List.not_mem_nil
      · exact ⟨(ih h c hc).1, List.mem_cons_of_mem _ (ih h c hc).2⟩
    · rw [lines_cons_of_ne hd] at h
      split at h
      · obtain rfl := List.mem_singleton.1 h
        obtain rfl := List.mem_singleton.1 hc
        exact ⟨hd, List.mem_cons_self⟩
      · next first rest heq =>
        rcases List.mem_cons.1 h with rfl | h
        · rcases List.mem_cons.1 hc with rfl | hc
          · exact ⟨hd, List.mem_cons_self⟩
          · have := ih (heq ▸ List.mem_cons_self) c hc
            exact ⟨this.1, List.mem_cons_of_mem _ this.2⟩
        · have := ih (heq ▸ List.mem_cons_of_mem _ h) c hc
          exact ⟨this.1, List.mem_cons_of_mem _ this.2⟩

theorem unlines_cons (lineEnd line : List Char) (ls : List (List Char)) :
    unlines lineEnd (line :: ls) = line ++ lineEnd ++ unlines lineEnd ls := rfl

theorem unlines_append (lineEnd : List Char) (ls ls' : List (List Char)) :
    unlines lineEnd (ls ++ ls') = unlines lineEnd ls ++ unlines lineEnd ls' :=
  List.flatMap_append

/-- Printed lines have the characters of the text and of the line ends. -/
theorem mem_of_mem_unlines_lines {lineEnd s : List Char} {c : Char}
    (h : c ∈ unlines lineEnd (lines (normalize s))) : c ∈ s ∨ c ∈ lineEnd := by
  obtain ⟨line, hline, hc⟩ := List.mem_flatMap.1 h
  rcases List.mem_append.1 hc with hc | hc
  · obtain ⟨ne, mem⟩ := mem_of_mem_lines hline c hc
    exact .inl (mem_of_mem_normalizeFrom mem ne)
  · exact .inr hc

/-- The lines of a text that ends with a line feed make up the text. -/
theorem unlines_lines {s : List Char} (h : s ≠ [] → s.getLast? = some '\n') :
    unlines ['\n'] (lines s) = s := by
  induction s with
  | nil => rfl
  | cons c s ih =>
    have last := h (List.cons_ne_nil _ _)
    have rest : s ≠ [] → s.getLast? = some '\n' := by
      intro ne
      rw [List.getLast?_cons, List.getLast?_eq_some_getLast ne] at last
      rw [List.getLast?_eq_some_getLast ne]
      exact last
    by_cases hc : c = '\n'
    · rw [lines, if_pos hc, unlines_cons, ih rest, hc]
      rfl
    · rw [lines_cons_of_ne hc]
      cases hs : lines s with
      | nil =>
        cases s with
        | nil =>
          rw [List.getLast?_singleton] at last
          exact absurd (Option.some.inj last) hc
        | cons d s =>
          have := ih rest
          rw [hs] at this
          cases this
      | cons line ls =>
        have := ih rest
        rw [hs] at this
        rw [unlines_cons] at this ⊢
        rw [List.cons_append, List.cons_append, this]

/-- Printing lines with other line ends changes nothing but the line ends. -/
theorem normalizeFrom_unlines {lineEnd : List Char} (isLineEnd : IsLineEnd lineEnd)
    {ls : List (List Char)} (plain : ∀ line ∈ ls, ∀ c ∈ line, isPlain c = true) (afterCR : Bool)
    (fits : afterCR = true → lineEnd ≠ ['\n']) :
    normalizeFrom afterCR (unlines lineEnd ls) = unlines ['\n'] ls := by
  induction ls generalizing afterCR with
  | nil =>
    show normalizeFrom afterCR [] = []
    cases afterCR <;> rfl
  | cons line ls ih =>
    have ih := ih fun l hl => plain l (List.mem_cons_of_mem _ hl)
    have first : ∀ s, (∀ t, s ≠ '\n' :: t) → normalizeFrom afterCR s = normalizeFrom false s := by
      intro s hs
      cases s with
      | nil => cases afterCR <;> rfl
      | cons c s => exact normalizeFrom_cons_of_ne (fun eq => hs s (eq ▸ rfl)) afterCR s
    have start : normalizeFrom afterCR (unlines lineEnd (line :: ls)) =
        normalizeFrom false (unlines lineEnd (line :: ls)) := by
      cases afterCR with
      | false => rfl
      | true =>
        refine first _ fun t eq => ?_
        rw [unlines_cons] at eq
        cases line with
        | nil =>
          rcases isLineEnd with rfl | rfl | rfl
          · exact fits rfl rfl
          · cases eq
          · cases eq
        | cons c line =>
          have := plain (c :: line) List.mem_cons_self c List.mem_cons_self
          exact (isPlain_iff.1 this).1 (List.head_eq_of_cons_eq eq)
    rw [start, unlines_cons, unlines_cons, List.append_assoc, List.append_assoc]
    have plainLine := plain line List.mem_cons_self
    rcases isLineEnd with rfl | rfl | rfl
    · rw [List.singleton_append, normalizeFrom_line plainLine (by decide),
        ih _ (fun h => absurd h (by decide))]
    · rw [List.singleton_append, normalizeFrom_line plainLine (by decide), ih _ (fun _ => by decide)]
      rfl
    · rw [List.cons_append, normalizeFrom_line plainLine (by decide)]
      show line ++ '\n' :: normalizeFrom true ('\n' :: unlines ['\r', '\n'] ls) = _
      rw [show normalizeFrom true ('\n' :: unlines ['\r', '\n'] ls) =
        normalizeFrom false (unlines ['\r', '\n'] ls) from rfl,
        ih false (fun h => absurd h (by decide))]
      rfl

/-- The lines of a text, printed with any line ends, are the text but for its line ends. -/
theorem normalize_unlines_lines {lineEnd : List Char} (isLineEnd : IsLineEnd lineEnd) {s : List Char}
    (ends : s ≠ [] → (normalize s).getLast? = some '\n') :
    normalize (unlines lineEnd (lines (normalize s))) = normalize s := by
  have plain : ∀ line ∈ lines (normalize s), ∀ c ∈ line, isPlain c = true := by
    intro line hline c hc
    obtain ⟨ne, mem⟩ := mem_of_mem_lines hline c hc
    exact isPlain_iff.2 ⟨ne, fun eq => not_mem_normalizeFrom s false (eq ▸ mem)⟩
  unfold normalize at plain ⊢
  rw [normalizeFrom_unlines isLineEnd plain false (fun h => absurd h (by decide))]
  refine unlines_lines fun ne => ends ?_
  rintro rfl
  exact ne rfl

/-! ## Reading line by line -/

/-- What an attempt to read a line finds. -/
inductive ReadLine
  /-- No line end has arrived, and the text may go on. -/
  | blocked
  | eof
  /-- A line, whether a line feed after it belongs to it, and what stands after it. -/
  | line (text : List Char) (skipLF : Bool) (rest : List Char)
deriving DecidableEq

/-- What has arrived, without a line feed that belongs to the line before. -/
def afterLineEnd : Bool → List Char → List Char
  | true, '\n' :: s => s
  | _, s => s

/-- The next line of what has arrived of a text. -/
def readLine (closed skipLF : Bool) (arrived : List Char) : ReadLine :=
  let text := afterLineEnd skipLF arrived
  let line := text.takeWhile isPlain
  match text.dropWhile isPlain with
  | c :: rest => .line line (decide (c = '\r')) rest
  | [] => if !closed then .blocked else if line = [] then .eof else .line line false []

/-- The lines that have not been read. -/
def unread (skipLF : Bool) (arrived : List Char) : List (List Char) :=
  lines (normalizeFrom skipLF arrived)

theorem normalizeFrom_afterLineEnd (skipLF : Bool) {arrived : List Char}
    (ne : arrived ≠ []) (more : List Char) :
    normalizeFrom skipLF (arrived ++ more) =
      normalizeFrom false (afterLineEnd skipLF arrived ++ more) := by
  cases skipLF with
  | false => rfl
  | true =>
    cases arrived with
    | nil => exact absurd rfl ne
    | cons c s =>
      by_cases hc : c = '\n'
      · subst hc
        rfl
      · have same : afterLineEnd true (c :: s) = c :: s := by
          unfold afterLineEnd
          split
          · next heq => exact absurd (List.head_eq_of_cons_eq heq) hc
          · rfl
        rw [same]
        exact normalizeFrom_cons_of_ne hc true _

theorem plain_takeWhile (s : List Char) : ∀ c ∈ s.takeWhile isPlain, isPlain c = true :=
  fun _ h => List.mem_takeWhile_imp h

/-- A line that is read is the first of those not read, whatever arrives later. -/
theorem unread_of_line {closed skipLF : Bool} {arrived line rest : List Char} {skip : Bool}
    (h : readLine closed skipLF arrived = .line line skip rest) (more : List Char)
    (finished : closed = true → more = []) :
    unread skipLF (arrived ++ more) = line :: unread skip (rest ++ more) := by
  have ne : arrived ≠ [] := by
    rintro rfl
    cases skipLF <;> cases closed <;> cases h
  unfold unread
  rw [normalizeFrom_afterLineEnd skipLF ne more]
  unfold readLine at h
  have plain := plain_takeWhile (afterLineEnd skipLF arrived)
  have noLF : ∀ c ∈ (afterLineEnd skipLF arrived).takeWhile isPlain, c ≠ '\n' := fun c hc =>
    (isPlain_iff.1 (plain c hc)).1
  have parts := List.takeWhile_append_dropWhile (p := isPlain) (l := afterLineEnd skipLF arrived)
  dsimp only at h
  cases hdrop : (afterLineEnd skipLF arrived).dropWhile isPlain with
  | cons c s =>
    rw [hdrop] at h parts
    cases h
    have hc : isPlain c = false := by
      have := List.head_dropWhile_not isPlain (l := afterLineEnd skipLF arrived)
        (hdrop ▸ List.cons_ne_nil _ _)
      simpa only [hdrop, List.head_cons] using this
    conv_lhs => rw [← parts, List.append_assoc, List.cons_append]
    rw [normalizeFrom_line plain hc, lines_append noLF]
  | nil =>
    rw [hdrop] at h parts
    dsimp only at h
    split_ifs at h with hclosed hline
    cases h
    rw [finished (by simpa using hclosed)]
    rw [List.append_nil] at parts ⊢
    conv_lhs => rw [← parts]
    rw [normalizeFrom_plain plain, lines_of_ne_nil noLF hline]
    rfl

/-- At the end of the text no line is left. -/
theorem unread_of_eof {closed skipLF : Bool} {arrived : List Char}
    (h : readLine closed skipLF arrived = .eof) : closed = true ∧ unread skipLF arrived = [] := by
  unfold readLine at h
  dsimp only at h
  cases hdrop : (afterLineEnd skipLF arrived).dropWhile isPlain with
  | cons c s =>
    rw [hdrop] at h
    cases h
  | nil =>
    rw [hdrop] at h
    dsimp only at h
    split_ifs at h with hclosed hline
    refine ⟨by simpa using hclosed, ?_⟩
    have parts := List.takeWhile_append_dropWhile (p := isPlain) (l := afterLineEnd skipLF arrived)
    rw [hline, hdrop] at parts
    unfold unread
    by_cases ne : arrived = []
    · rw [ne]
      cases skipLF <;> rfl
    · rw [← List.append_nil arrived, normalizeFrom_afterLineEnd skipLF ne, ← parts]
      rfl

/-- Only a text that may go on blocks the reader. -/
theorem open_of_blocked {closed skipLF : Bool} {arrived : List Char}
    (h : readLine closed skipLF arrived = .blocked) : closed = false := by
  unfold readLine at h
  dsimp only at h
  split at h
  · cases h
  · split_ifs at h with hclosed
    · simpa using hclosed

/-- Reading a line leaves less of the text. -/
theorem length_rest_lt {closed skipLF : Bool} {arrived line rest : List Char} {skip : Bool}
    (h : readLine closed skipLF arrived = .line line skip rest) : rest.length < arrived.length := by
  have le : (afterLineEnd skipLF arrived).length ≤ arrived.length := by
    unfold afterLineEnd
    split
    · exact Nat.le_succ _
    · exact Nat.le_refl _
  have parts := congrArg List.length
    (List.takeWhile_append_dropWhile (p := isPlain) (l := afterLineEnd skipLF arrived))
  rw [List.length_append] at parts
  unfold readLine at h
  dsimp only at h
  cases hdrop : (afterLineEnd skipLF arrived).dropWhile isPlain with
  | cons c s =>
    rw [hdrop] at h parts
    cases h
    rw [List.length_cons] at parts
    omega
  | nil =>
    rw [hdrop] at h parts
    dsimp only at h
    split_ifs at h with hclosed hline
    cases h
    have := List.length_pos_iff.2 hline
    rw [List.length_nil] at parts ⊢
    omega

end LineText
