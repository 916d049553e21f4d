import JLeaker.Lib.LineText
import JLeaker.Proof.ConfigurationMaps
import JLeaker.Proof.IgnoreEntries
import JLeaker.Proof.IniText

/-!
# Configuration files are read as they are written

A configuration file is a list of items, one a line: blank lines, comments, section headers, pairs and
further lines of a value.  `ini_parse_file` reads the text of any such list back: it calls its handler
once for each pair and each further line, in their order, with the section and the name they stand
under, and returns the number of the first line that the handler refuses.  A configuration that is
written this way is the one `ini_handler` ends up with.
-/

namespace JLeaker

open CString

/-! ## Files -/

/-- What stands on a line. -/
inductive IniItem
  | blank (space : Str)
  | comment (indent : Str) (mark : Char) (text : Str)
  | header (indent sectionName text : Str)
  /-- A pair, with `=` or `:`. -/
  | pair (indent name before : Str) (colon : Bool) (after value tail : Str)
  /-- A further line of a value. -/
  | more (indent value tail : Str)

/-- The character between a name and its value. -/
def pairSeparator (colon : Bool) : Char := if colon then ':' else '='

/-- The line, without its end. -/
def IniItem.line : IniItem → Str
  | .blank space => space
  | .comment indent mark text => indent ++ mark :: text
  | .header indent sectionName text => indent ++ '[' :: (sectionName ++ ']' :: text)
  | .pair indent name before colon after value tail =>
    indent ++ (name ++ before ++ pairSeparator colon :: (after ++ value ++ tail))
  | .more indent value tail => indent ++ value ++ tail

/-- A file with the lines. -/
def fileText (lines : List Str) : Str := LineText.unlines ['\n'] lines

/-- A line that fits into the buffer. -/
def fitsLine (line : Str) : Bool :=
  line.all (fun c => c ≠ '\n' && c ≠ '\x00') && line.length + 1 < INI_MAX_LINE

/-- White space before a header or a pair, where no value goes on. -/
def mayIndent (prevName indent : Str) : Bool :=
  allSpace indent && (indent.isEmpty || prevName.isEmpty)

/-- A string that starts with none of the characters. -/
def startsPlain (marks s : Str) : Bool := !s.head?.any marks.elem

/-- A name: no mark at its start, no `=` and no comment in it. -/
def readableName (name : Str) : Bool :=
  trimmed name && startsPlain [';', '#', '['] name && !name.elem '=' && noComment false name

/-- A value: no comment in it. -/
def readableValue (value tail : Str) : Bool :=
  trimmed value && noComment false value && isTail tail && (!value.isEmpty || allSpace tail)

/-- An item that says what it means; a further line of a value needs a name to belong to. -/
def IniItem.readable (prevName : Str) : IniItem → Bool
  | .blank space => allSpace space
  | .comment indent mark _ => allSpace indent && [';', '#'].elem mark
  | .header indent sectionName _ =>
    mayIndent prevName indent && !sectionName.elem ']' && noComment false sectionName
  | .pair indent name before colon after value tail =>
    mayIndent prevName indent && readableName name && allSpace before &&
      (!name.isEmpty || before.isEmpty) &&
      (!colon || !name.elem ':' &&
        !(beforeComment false (name ++ before ++ ':' :: (after ++ value ++ tail))).elem '=') &&
      allSpace after && readableValue value tail
  | .more indent value tail =>
    !prevName.isEmpty && !indent.isEmpty && allSpace indent && !value.isEmpty && trimmed value &&
      startsPlain [';', '#'] value && allSpace tail

/-- The section and the name that the next line stands under. -/
def IniItem.leaves (sectionName prevName : Str) : IniItem → Str × Str
  | .header _ sectionName _ => (strncpy0 sectionName MAX_SECTION, [])
  | .pair _ name _ _ _ _ _ => (sectionName, strncpy0 name MAX_NAME)
  | _ => (sectionName, prevName)

/-- The call of the handler for an item. -/
def IniItem.call (sectionName prevName : Str) : IniItem → Option IniEntry
  | .pair _ name _ _ _ value _ => some ⟨sectionName, name, value⟩
  | .more _ value _ => some ⟨sectionName, prevName, value⟩
  | _ => none

/-- Every item says what it means where it stands. -/
def iniReadable (sectionName prevName : Str) : List IniItem → Bool
  | [] => true
  | item :: items => item.readable prevName &&
      iniReadable (item.leaves sectionName prevName).1 (item.leaves sectionName prevName).2 items

/-- The calls of the handler, with the numbers of their lines. -/
def iniCalls (lineno : ℕ) (sectionName prevName : Str) : List IniItem → List (ℕ × IniEntry)
  | [] => []
  | item :: items => ((item.call sectionName prevName).map ((lineno + 1, ·))).toList ++
      iniCalls (lineno + 1) (item.leaves sectionName prevName).1 (item.leaves sectionName prevName).2
        items

section

variable {σ : Type} (handler : σ → Str → Str → Str → Bool × σ)

/-- Calls of the handler, and the number of the first line it refuses. -/
def callHandler (calls : List (ℕ × IniEntry)) (errorUser : ℕ × σ) : ℕ × σ :=
  calls.foldl (fun errorUser call =>
    let (ok, user) := handler errorUser.2 call.2.sectionName call.2.name call.2.value
    (if !ok && errorUser.1 = 0 then call.1 else errorUser.1, user)) errorUser

/-- What an item does to the parser. -/
def IniState.item (st : IniState σ) (item : IniItem) : IniState σ :=
  let next : IniState σ := { st with
    lineno := st.lineno + 1
    sectionName := (item.leaves st.sectionName st.prevName).1
    prevName := (item.leaves st.sectionName st.prevName).2 }
  match item.call st.sectionName st.prevName with
  | none => next
  | some e => next.handle handler e.name e.value

end

/-! ## One line -/

section

variable {σ : Type} {handler : σ → Str → Str → Str → Bool × σ} {st : IniState σ}

/-- The line starts with no byte order mark, or is not the first one. -/
def NoBom (lineno : ℕ) (line : Str) : Prop :=
  ¬(lineno = 0 ∧ ['\u00EF', '\u00BB', '\u00BF'] <+: line)

/-- The start of a line without a byte order mark. -/
theorem start_eq {line : Str} (noBom : NoBom st.lineno line) :
    (if st.lineno + 1 = 1 ∧ ['\u00EF', '\u00BB', '\u00BF'] <+: line then line.drop 3 else line) = line :=
  if_neg fun h => noBom ⟨Nat.succ_inj.1 h.1, h.2⟩

theorem not_startsWith {c : Char} {marks s : Str} (plain : startsPlain marks s = true)
    (mem : c ∈ marks) : startsWith c s = false := by
  unfold startsPlain at plain
  unfold startsWith
  cases s with
  | nil => rfl
  | cons d s =>
    have hd : d ∉ marks := by simpa using plain
    have hne : d ≠ c := fun eq => hd (eq ▸ mem)
    simp [hne]

/-- Nothing but a further line of a value starts with white space under a name. -/
theorem not_indented {prevName indent line s : Str} {c : Char}
    (may : mayIndent prevName indent = true) (notSpace : isspace c = false)
    (eq : line = indent ++ c :: s) : ¬(prevName ≠ [] ∧ line.head?.any isspace = true) := by
  rintro ⟨named, indented⟩
  unfold mayIndent at may
  rw [Bool.and_eq_true, Bool.or_eq_true, List.isEmpty_iff, List.isEmpty_iff] at may
  rw [eq, may.2.resolve_right named] at indented
  exact Bool.noConfusion (notSpace.symm.trans indented)

theorem iniLine_blank {space : Str} (blank : allSpace space = true)
    (noBom : NoBom st.lineno (space ++ ['\n'])) :
    iniLine handler st (space ++ ['\n']) = { st with lineno := st.lineno + 1 } := by
  have start : lskip (rstrip (space ++ ['\n'])) = [] := by
    rw [rstrip_of_allSpace (allSpace_append blank rfl)]
    rfl
  unfold iniLine
  dsimp only
  rw [start_eq noBom, start, if_neg (by decide), if_neg (by simp), if_neg (by decide), if_neg (by simp)]

theorem iniLine_comment {indent text : Str} {mark : Char} (space : allSpace indent = true)
    (known : [';', '#'].elem mark = true) (noBom : NoBom st.lineno (indent ++ mark :: text ++ ['\n'])) :
    iniLine handler st (indent ++ mark :: text ++ ['\n']) = { st with lineno := st.lineno + 1 } := by
  have hmark : mark = ';' ∨ mark = '#' := by simpa using known
  have notSpace : isspace mark = false := by
    rcases hmark with rfl | rfl <;> decide
  have start : lskip (rstrip (indent ++ mark :: text ++ ['\n'])) = mark :: rstrip (text ++ ['\n']) := by
    rw [List.append_assoc, List.cons_append, rstrip_append_cons _ _ notSpace,
      lskip_append_of_allSpace _ space, lskip_cons _ notSpace]
  unfold iniLine
  dsimp only
  rw [start_eq noBom, start, if_pos]
  rcases hmark with rfl | rfl
  · rfl
  · rfl

theorem iniLine_header {indent sectionName text : Str} (may : mayIndent st.prevName indent = true)
    (closed : ']' ∉ sectionName) (plain : noComment false sectionName = true)
    (noBom : NoBom st.lineno ((IniItem.header indent sectionName text).line ++ ['\n'])) :
    iniLine handler st ((IniItem.header indent sectionName text).line ++ ['\n']) =
      { st with
        lineno := st.lineno + 1
        sectionName := strncpy0 sectionName MAX_SECTION
        prevName := [] } := by
  have space : allSpace indent = true := (Bool.and_eq_true _ _ ▸ may).1
  have start : lskip (rstrip ((IniItem.header indent sectionName text).line ++ ['\n'])) =
      '[' :: (sectionName ++ ']' :: rstrip (text ++ ['\n'])) := by
    have notSpace : isspace ']' = false := by decide
    have notSpace' : isspace '[' = false := by decide
    have whole : (IniItem.header indent sectionName text).line ++ ['\n'] =
        indent ++ '[' :: sectionName ++ ']' :: (text ++ ['\n']) := by
      simp [IniItem.line]
    rw [whole, rstrip_append_cons _ _ notSpace, List.append_assoc, lskip_append_of_allSpace _ space,
      List.cons_append, lskip_cons _ notSpace']
  have stop : findCharOrComment (some ']') false (sectionName ++ ']' :: rstrip (text ++ ['\n'])) =
      (sectionName, ']' :: rstrip (text ++ ['\n'])) := by
    have other : ∀ c ∈ sectionName, some c ≠ some ']' := by
      rintro c hc ⟨⟩
      exact closed hc
    rw [findCharOrComment_append _ other plain, findCharOrComment_stop, List.append_nil]
  have notMore := not_indented (c := '[') may (by decide)
    (show (IniItem.header indent sectionName text).line ++ ['\n'] = _ from List.append_assoc _ _ _)
  unfold iniLine
  dsimp only
  rw [start_eq noBom, start, if_neg (by simp [startsWith]), if_neg fun h => notMore ⟨h.1, h.2.2⟩,
    if_pos (by simp [startsWith]), List.tail_cons, stop, if_pos (by simp [startsWith])]

theorem iniLine_more {indent value tail : Str} (named : st.prevName ≠ []) (ne : indent ≠ [])
    (space : allSpace indent = true) (nonempty : value ≠ []) (trim : trimmed value = true)
    (first : startsPlain [';', '#'] value = true) (space' : allSpace tail = true)
    (noBom : NoBom st.lineno (indent ++ value ++ tail ++ ['\n'])) :
    iniLine handler st (indent ++ value ++ tail ++ ['\n']) =
      IniState.handle handler { st with lineno := st.lineno + 1 } st.prevName value := by
  have start : lskip (rstrip (indent ++ value ++ tail ++ ['\n'])) = value := by
    rw [List.append_assoc, rstrip_append_of_allSpace _ (allSpace_append space' rfl),
      ← List.append_nil (indent ++ value), rstrip_append_of_trimmed _ _ trim nonempty,
      show rstrip [] = [] from rfl, List.append_nil, lskip_append_of_allSpace _ space]
    obtain ⟨c, rest, rfl⟩ := List.exists_cons_of_ne_nil nonempty
    exact lskip_cons _ (isspace_head trim)
  have indented : (indent ++ value ++ tail ++ ['\n']).head?.any isspace = true := by
    obtain ⟨c, rest, rfl⟩ := List.exists_cons_of_ne_nil ne
    unfold allSpace at space
    rw [List.all_cons, Bool.and_eq_true] at space
    exact space.1
  have notComment : (startsWith ';' value || startsWith '#' value) = false := by
    rw [not_startsWith first (by decide), not_startsWith first (by decide)]
    rfl
  unfold iniLine
  dsimp only
  rw [start_eq noBom, start, notComment, if_neg Bool.false_ne_true, if_pos ⟨named, nonempty, indented⟩]

/-- The name and the value of a pair are found. -/
theorem findCharOrComment_pair {name before : Str} {colon : Bool} {rest : Str}
    (noEquals : '=' ∉ name) (plain : noComment false name = true) (space : allSpace before = true)
    (noColon : colon = true →
      ':' ∉ name ∧ '=' ∉ beforeComment false (name ++ before ++ ':' :: rest)) :
    let start := name ++ before ++ pairSeparator colon :: rest
    let found := findCharOrComment (some '=') false start
    (if startsWith '=' found.2 then found else findCharOrComment (some ':') false start) =
      (name ++ before, pairSeparator colon :: rest) := by
  have noComments : noComment false (name ++ before) = true := by
    rw [noComment_append, plain, noComment_of_allSpace _ space]
    rfl
  have search : ∀ stop : Char, isspace stop = false → stop ∉ name →
      findCharOrComment (some stop) false (name ++ before ++ stop :: rest) =
        (name ++ before, stop :: rest) := by
    intro stop notSpace not
    have other : ∀ c ∈ name ++ before, some c ≠ some stop := by
      rintro c hc ⟨⟩
      rcases List.mem_append.1 hc with hc | hc
      · exact not hc
      · exact Bool.noConfusion ((List.all_eq_true.1 space _ hc).symm.trans notSpace)
    rw [findCharOrComment_append _ other noComments, findCharOrComment_stop, List.append_nil]
  dsimp only
  cases colon with
  | false =>
    unfold pairSeparator
    rw [if_neg Bool.false_ne_true, search '=' (by decide) noEquals, if_pos (by simp [startsWith])]
  | true =>
    obtain ⟨noColon, noEquals'⟩ := noColon rfl
    have missing := mt (startsWith_findCharOrComment '=' false _ (by decide)).1 noEquals'
    unfold pairSeparator
    rw [if_pos rfl, if_neg missing, search ':' (by decide) noColon]

theorem iniLine_pair {indent name before : Str} {colon : Bool} {after value tail : Str}
    (readable : (IniItem.pair indent name before colon after value tail).readable st.prevName = true)
    (noBom : NoBom st.lineno
      ((IniItem.pair indent name before colon after value tail).line ++ ['\n'])) :
    iniLine handler st ((IniItem.pair indent name before colon after value tail).line ++ ['\n']) =
      IniState.handle handler
        { st with lineno := st.lineno + 1, prevName := strncpy0 name MAX_NAME } name value := by
  simp only [IniItem.readable, readableName, readableValue, Bool.and_eq_true, Bool.not_eq_true',
    Bool.or_eq_true, List.elem_eq_mem, decide_eq_false_iff_not, List.isEmpty_iff,
    List.isEmpty_eq_false_iff] at readable
  obtain ⟨⟨⟨⟨⟨⟨may, ⟨⟨trim, first⟩, noEquals⟩, plain⟩, space⟩, bare⟩, noColon⟩, space'⟩,
    ⟨⟨trim', plain'⟩, tails⟩, empty⟩ := readable
  have indents : allSpace indent = true := (Bool.and_eq_true _ _ ▸ may).1
  have sepNotSpace : isspace (pairSeparator colon) = false := by
    cases colon <;> decide
  have sepStarts : ∀ rest,
      (startsWith '=' (pairSeparator colon :: rest) ||
        startsWith ':' (pairSeparator colon :: rest)) = true := by
    intro rest
    cases colon <;> rfl
  set rest := rstrip (after ++ value ++ (tail ++ ['\n'])) with hrest
  have whole : (IniItem.pair indent name before colon after value tail).line ++ ['\n'] =
      indent ++ (name ++ before ++ pairSeparator colon :: (after ++ value ++ (tail ++ ['\n']))) := by
    simp [IniItem.line]
  -- the first character is that of the name, or the separator
  obtain ⟨c, from_, hstart, notSpace, notMark⟩ : ∃ (c : Char) (from_ : Str → Str),
      (∀ r, name ++ before ++ pairSeparator colon :: r = c :: from_ r) ∧ isspace c = false ∧
        ∀ r, startsPlain [';', '#', '['] (c :: r) = true := by
    cases name with
    | nil =>
      rw [bare.resolve_left (by simp)]
      refine ⟨pairSeparator colon, id, fun _ => rfl, sepNotSpace, fun _ => ?_⟩
      cases colon <;> rfl
    | cons c name =>
      exact ⟨c, fun r => name ++ before ++ pairSeparator colon :: r, fun _ => rfl, isspace_head trim,
        fun _ => first⟩
  have line : lskip (rstrip ((IniItem.pair indent name before colon after value tail).line ++ ['\n'])) =
      c :: from_ rest := by
    rw [whole, ← List.append_assoc, rstrip_append_cons _ _ sepNotSpace, List.append_assoc,
      lskip_append_of_allSpace _ indents, hstart, lskip_cons _ notSpace]
  have notMore := not_indented may notSpace (whole.trans (congrArg _ (hstart _)))
  have colons : colon = true →
      ':' ∉ name ∧ '=' ∉ beforeComment false (name ++ before ++ ':' :: rest) := by
    intro isColon
    obtain ⟨not, not'⟩ := noColon.resolve_left (by simp [isColon])
    refine ⟨not, fun mem => not' ?_⟩
    obtain ⟨space'', all, parts⟩ := exists_rstrip (after ++ value ++ (tail ++ ['\n']))
    rw [← mem_beforeComment_append false (by decide) all, List.append_assoc, List.cons_append, hrest,
      parts, ← List.append_assoc (after ++ value), ← List.cons_append, ← List.append_assoc] at mem
    exact (mem_beforeComment_append false (by decide) (by rfl)).1 mem
  have found := findCharOrComment_pair noEquals plain space colons
  dsimp only at found
  have cut : rstrip (name ++ before) = name := by
    rw [rstrip_append_of_allSpace _ space, rstrip_of_trimmed trim]
  have value' : rstrip (findCharOrComment none false (lskip rest)).1 = value :=
    value_eq space' trim' plain' tails fun h => empty.resolve_left (by simp [h])
  unfold iniLine
  dsimp only
  rw [start_eq noBom, line, not_startsWith (notMark _) (by decide),
    not_startsWith (notMark _) (by decide), if_neg (by decide), if_neg fun h => notMore ⟨h.1, h.2.2⟩,
    not_startsWith (notMark _) (by decide), if_neg (by decide), if_pos (by simp), ← hstart, found]
  dsimp only
  rw [if_pos (sepStarts rest), List.tail_cons, cut, value']

/-- Every line is read as the item on it. -/
theorem iniLine_item {item : IniItem} (readable : item.readable st.prevName = true)
    (noBom : NoBom st.lineno (item.line ++ ['\n'])) :
    iniLine handler st (item.line ++ ['\n']) = st.item handler item := by
  cases item with
  | blank space => exact iniLine_blank readable noBom
  | comment indent mark text =>
    simp only [IniItem.readable, Bool.and_eq_true] at readable
    exact iniLine_comment readable.1 readable.2 noBom
  | header indent sectionName text =>
    simp only [IniItem.readable, Bool.and_eq_true, Bool.not_eq_true', List.elem_eq_mem,
      decide_eq_false_iff_not] at readable
    exact iniLine_header readable.1.1 readable.1.2 readable.2 noBom
  | pair indent name before colon after value tail => exact iniLine_pair readable noBom
  | more indent value tail =>
    simp only [IniItem.readable, Bool.and_eq_true, Bool.not_eq_true', List.isEmpty_eq_false_iff]
      at readable
    obtain ⟨⟨⟨⟨⟨⟨named, ne⟩, space⟩, nonempty⟩, trim⟩, first⟩, space'⟩ := readable
    exact iniLine_more named ne space nonempty trim first space' noBom

/-! ## A whole file -/

theorem fgets_line {line : Str} {n : ℕ} (plain : '\n' ∉ line) (fits : line.length < n) (rest : Str) :
    fgets n (line ++ '\n' :: rest) = (line ++ ['\n'], rest) := by
  induction line generalizing n with
  | nil =>
    obtain ⟨n, rfl⟩ := Nat.exists_eq_succ_of_ne_zero (Nat.ne_of_gt fits)
    rw [List.nil_append, fgets, if_pos rfl]
    rfl
  | cons c line ih =>
    obtain ⟨n, rfl⟩ := Nat.exists_eq_succ_of_ne_zero (Nat.ne_of_gt (Nat.zero_lt_of_lt fits))
    have hc : c ≠ '\n' := fun eq => plain (eq ▸ List.mem_cons_self)
    rw [List.cons_append, fgets, if_neg hc,
      ih (fun h => plain (List.mem_cons_of_mem c h)) (Nat.lt_of_succ_lt_succ fits)]
    rfl

theorem fileText_cons (line : Str) (lines : List Str) :
    fileText (line :: lines) = line ++ '\n' :: fileText lines := by
  unfold fileText
  rw [LineText.unlines_cons, List.append_assoc]
  rfl

theorem prefix_fileText (line : Str) (lines : List Str) : line ++ ['\n'] <+: fileText (line :: lines) :=
  List.prefix_append _ _

/-- `fgets` reads lines that fit into the buffer. -/
theorem fileLines_fileText {lines : List Str} (fits : ∀ line ∈ lines, fitsLine line = true)
    {fuel : ℕ} (enough : lines.length ≤ fuel) :
    fileLines fuel (fileText lines) = lines.map (· ++ ['\n']) := by
  induction lines generalizing fuel with
  | nil => cases fuel <;> rfl
  | cons line lines ih =>
    obtain ⟨fuel, rfl⟩ := Nat.exists_eq_succ_of_ne_zero (Nat.ne_of_gt (Nat.zero_lt_of_lt enough))
    have this := fits line List.mem_cons_self
    unfold fitsLine at this
    rw [Bool.and_eq_true, List.all_eq_true, decide_eq_true_iff] at this
    obtain ⟨plain, short⟩ := this
    have plain' : '\n' ∉ line := fun h => by simpa using plain _ h
    have noNul : ∀ c ∈ line ++ ['\n'], decide (c ≠ '\x00') = true := by
      intro c hc
      rcases List.mem_append.1 hc with hc | hc
      · have := plain c hc
        rw [Bool.and_eq_true] at this
        exact this.2
      · rw [List.mem_singleton.1 hc]
        decide
    have read := fgets_line plain' (Nat.lt_sub_of_add_lt short) (fileText lines)
    obtain ⟨c, rest, cons⟩ : ∃ c rest, line ++ '\n' :: fileText lines = c :: rest :=
      List.exists_cons_of_ne_nil (by simp)
    rw [fileText_cons, cons, fileLines_cons, ← cons, read, List.takeWhile_eq_self_iff.2 noNul,
      ih (fun other h => fits other (List.mem_cons_of_mem _ h)) (Nat.le_of_succ_le_succ enough)]
    rfl

theorem length_le_fileText (lines : List Str) : lines.length ≤ (fileText lines).length := by
  induction lines with
  | nil => exact Nat.le_refl 0
  | cons line lines ih =>
    rw [fileText_cons, List.length_append, List.length_cons, List.length_cons]
    omega

theorem handle_eq (st : IniState σ) (name value : Str) :
    st.handle handler name value = { st with
      error := (callHandler handler [(st.lineno, ⟨st.sectionName, name, value⟩)] (st.error, st.user)).1
      user := (callHandler handler [(st.lineno, ⟨st.sectionName, name, value⟩)]
        (st.error, st.user)).2 } := by
  unfold IniState.handle IniState.fail callHandler
  rw [List.foldl_cons, List.foldl_nil]
  dsimp only
  cases (handler st.user st.sectionName name value).1 with
  | true => rfl
  | false =>
    rw [if_neg Bool.false_ne_true]
    by_cases first : st.error = 0
    · simp [first]
    · simp [first]

/-- An item moves the parser on and calls the handler for its entry. -/
theorem item_eq (handler : σ → Str → Str → Str → Bool × σ) (st : IniState σ) (item : IniItem) :
    let called := callHandler handler
      ((item.call st.sectionName st.prevName).map ((st.lineno + 1, ·))).toList (st.error, st.user)
    st.item handler item = ⟨called.2, (item.leaves st.sectionName st.prevName).1,
      (item.leaves st.sectionName st.prevName).2, st.lineno + 1, called.1⟩ := by
  cases item with
  | blank space => rfl
  | comment indent mark text => rfl
  | header indent sectionName text => rfl
  | pair indent name before colon after value tail => exact handle_eq _ _ _
  | more indent value tail => exact handle_eq _ _ _

/-- The loop over the lines of a readable file calls the handler for its entries. -/
theorem foldl_iniLine (items : List IniItem) (st : IniState σ)
    (readable : iniReadable st.sectionName st.prevName items = true)
    (noBom : NoBom st.lineno (fileText (items.map IniItem.line))) :
    let last := ((items.map IniItem.line).map (· ++ ['\n'])).foldl (iniLine handler) st
    (last.error, last.user) =
      callHandler handler (iniCalls st.lineno st.sectionName st.prevName items) (st.error, st.user) := by
  induction items generalizing st with
  | nil => rfl
  | cons item items ih =>
    unfold iniReadable at readable
    rw [Bool.and_eq_true] at readable
    obtain ⟨means, rest⟩ := readable
    have noBomLine : NoBom st.lineno (item.line ++ ['\n']) := fun h =>
      noBom ⟨h.1, h.2.trans (prefix_fileText _ _)⟩
    have step := item_eq handler st item
    dsimp only at step ⊢
    rw [List.map_cons, List.map_cons, List.foldl_cons, iniLine_item means noBomLine, step,
      ih _ rest fun h => Nat.succ_ne_zero _ h.1, iniCalls]
    unfold callHandler
    rw [List.foldl_append]

/-- `ini_parse_file` reads every file back that is written item by item: it calls its handler for each
entry, in order and with the section and the name it stands under, and returns the number of the first
line whose entry the handler refuses. -/
theorem iniParseFile_items (handler : σ → Str → Str → Str → Bool × σ) {items : List IniItem}
    (fits : ∀ line ∈ items.map IniItem.line, fitsLine line = true)
    (readable : iniReadable [] [] items = true)
    (noBom : ¬['\u00EF', '\u00BB', '\u00BF'] <+: fileText (items.map IniItem.line)) (user : σ) :
    iniParseFile handler (fileText (items.map IniItem.line)) user =
      callHandler handler (iniCalls 0 [] [] items) (0, user) := by
  unfold iniParseFile
  rw [fileLines_fileText fits (Nat.le_succ_of_le (length_le_fileText _))]
  exact foldl_iniLine items ⟨user, [], [], 0, 0⟩ readable fun h => noBom h.2

end

end JLeaker
