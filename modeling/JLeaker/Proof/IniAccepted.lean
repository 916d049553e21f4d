import JLeaker.Proof.IniFile

/-!
# What `ini_parse_file` accepts

The grammar of configuration files is exact: if `ini_parse_file` returns zero, every line is an item
that says what it means where it stands.  A line is taken apart as the parser does it, and each branch
that does not record an error yields an item.
-/

namespace JLeaker

open CString

section

variable {s t : Str} {c : Char}

/-! ## The parts of a line -/

theorem exists_of_startsWith (h : startsWith c s = true) : ∃ rest, s = c :: rest := by
  unfold startsWith at h
  cases s with
  | nil => cases h
  | cons d rest =>
    obtain rfl : d = c := by simpa using h
    exact ⟨rest, rfl⟩

theorem mem_beforeComment {w : Bool} (plain : noComment w s = true) (h : c ∈ s) (t : Str) :
    c ∈ beforeComment w (s ++ t) := by
  induction s generalizing w with
  | nil => cases h
  | cons d s ih =>
    rw [noComment, Bool.and_eq_true, Bool.not_eq_true'] at plain
    rw [List.cons_append, beforeComment, if_neg (by simp [plain.1])]
    exact (List.mem_cons.1 h).elim (fun eq => eq ▸ List.mem_cons_self)
      fun h => List.mem_cons_of_mem d (ih plain.2 h)

theorem head?_of_append (h : c ∈ s.head?) : c ∈ (s ++ t).head? := by
  cases s with
  | nil => cases h
  | cons d s => exact h

theorem head?_lskip (s : Str) : ∀ c ∈ (lskip s).head?, isspace c = false := by
  intro c hc
  have := List.head?_dropWhile_not isspace s
  unfold lskip at hc
  rw [Option.mem_def.1 hc] at this
  simpa using this

theorem getLast?_rstrip (s : Str) : ∀ c ∈ (rstrip s).getLast?, isspace c = false := by
  intro c hc
  unfold rstrip at hc
  rw [List.getLast?_reverse] at hc
  exact head?_lskip s.reverse c hc

theorem trimmed_of (first : ∀ c ∈ s.head?, isspace c = false)
    (last : ∀ c ∈ s.getLast?, isspace c = false) : trimmed s = true := by
  unfold trimmed
  rw [Bool.and_eq_true, Bool.not_eq_true', Bool.not_eq_true']
  constructor
  · cases h : s.head? with
    | none => rfl
    | some c => exact first c h
  · cases h : s.getLast? with
    | none => rfl
    | some c => exact last c h

theorem trimmed_rstrip (first : ∀ c ∈ s.head?, isspace c = false) : trimmed (rstrip s) = true := by
  obtain ⟨space, -, parts⟩ := exists_rstrip s
  exact trimmed_of (fun c hc => first c (parts ▸ head?_of_append hc)) (getLast?_rstrip s)

/-- A line is white space, the characters the parser looks at, and white space. -/
theorem exists_start (line : Str) : ∃ indent trailing, allSpace indent = true ∧
    allSpace trailing = true ∧ indent ++ lskip (rstrip line) ++ trailing = line ∧
      trimmed (lskip (rstrip line)) = true := by
  obtain ⟨trailing, htrailing, parts⟩ := exists_rstrip line
  obtain ⟨indent, hindent, parts'⟩ := exists_lskip (rstrip line)
  refine ⟨indent, trailing, hindent, htrailing, by rw [parts', parts], ?_⟩
  refine trimmed_of (head?_lskip _) fun c hc => getLast?_rstrip line c ?_
  rw [← parts', List.getLast?_append, Option.mem_def.1 hc]
  rfl

theorem isTail_of_comment {space : Str} (all : allSpace space = true) (ne : space ≠ []) (text : Str) :
    isTail (space ++ ';' :: text) = true := by
  have mark : lskip (space ++ ';' :: text) = ';' :: text := by
    rw [lskip_append_of_allSpace _ all, lskip_cons _ (by decide)]
  unfold isTail
  rw [mark]
  obtain ⟨c, rest, rfl⟩ := List.exists_cons_of_ne_nil ne
  unfold allSpace at all
  rw [List.all_cons, Bool.and_eq_true] at all
  have first : ((c :: rest ++ ';' :: text).head?.any isspace) = true := all.1
  rw [first]
  exact Bool.or_true _

theorem eq_nil_of_rstrip (first : ∀ c ∈ s.head?, isspace c = false) (h : rstrip s = []) : s = [] := by
  obtain ⟨space, all, parts⟩ := exists_rstrip s
  rw [h, List.nil_append] at parts
  rw [← parts]
  cases space with
  | nil => rfl
  | cons c rest =>
    unfold allSpace at all
    rw [List.all_cons, Bool.and_eq_true] at all
    exact Bool.noConfusion (all.1.symm.trans (first c (parts ▸ rfl)))

/-- What stands after the separator is a value with white space around it, and a comment. -/
theorem exists_value (rest trailing : Str) (space : allSpace trailing = true) :
    ∃ after value tail, after ++ value ++ tail = rest ++ trailing ∧ allSpace after = true ∧
      readableValue value tail = true := by
  obtain ⟨after, hafter, parts⟩ := exists_lskip rest
  obtain ⟨parts', plain, -, ends⟩ := findCharOrComment_spec none false (lskip rest)
  set cut := (findCharOrComment none false (lskip rest)).1
  set comment := (findCharOrComment none false (lskip rest)).2
  obtain ⟨space', hspace', parts''⟩ := exists_rstrip cut
  have first : ∀ c ∈ cut.head?, isspace c = false := fun c hc =>
    head?_lskip rest c (parts' ▸ head?_of_append hc)
  have trim := trimmed_rstrip first
  -- a comment has white space before it
  have commented : ∀ d text, comment = d :: text → d = ';' ∧ space' ≠ [] := by
    intro d text eq
    rcases ends d (eq ▸ rfl) with h | ⟨h, spaced⟩
    · cases h
    refine ⟨h, fun empty => ?_⟩
    rw [empty, List.append_nil] at parts''
    rw [← parts'', endsInSpace_of_trimmed trim] at spaced
    cases spaced
  refine ⟨after, rstrip cut, space' ++ comment ++ trailing, ?_, hafter, ?_⟩
  · calc after ++ rstrip cut ++ (space' ++ comment ++ trailing)
        = after ++ (rstrip cut ++ space' ++ comment) ++ trailing := by simp
      _ = after ++ lskip rest ++ trailing := by rw [parts'', parts']
      _ = rest ++ trailing := by rw [parts]
  have plain' : noComment false (rstrip cut) = true := by
    rw [← parts'', noComment_append, Bool.and_eq_true] at plain
    exact plain.1
  have tails : isTail (space' ++ comment ++ trailing) = true ∧
      (rstrip cut = [] → allSpace (space' ++ comment ++ trailing) = true) := by
    cases h : comment with
    | nil =>
      have all := allSpace_append (allSpace_append hspace' (show allSpace [] = true from rfl)) space
      refine ⟨?_, fun _ => all⟩
      unfold isTail
      rw [all, Bool.true_or]
    | cons d text =>
      obtain ⟨rfl, ne⟩ := commented d text h
      refine ⟨?_, fun empty => absurd ?_ ne⟩
      · rw [List.append_assoc]
        exact isTail_of_comment hspace' ne _
      · rw [eq_nil_of_rstrip first empty] at parts''
        exact (List.append_eq_nil_iff.1 parts'').2
  unfold readableValue
  rw [trim, plain', tails.1]
  cases value : rstrip cut with
  | nil => rw [tails.2 value]; rfl
  | cons c value => rfl

/-- What stands before the separator is a name. -/
theorem exists_pair {prevName indent name' rest trailing : Str} (colon : Bool)
    (may : mayIndent prevName indent = true) (space : allSpace trailing = true)
    (first : ∀ c ∈ (name' ++ pairSeparator colon :: rest).head?, isspace c = false)
    (notMark : startsPlain [';', '#', '['] (name' ++ pairSeparator colon :: rest) = true)
    (plain : noComment false name' = true) (noEquals : '=' ∉ name')
    (noColon : colon = true →
      ':' ∉ name' ∧ '=' ∉ beforeComment false (name' ++ ':' :: rest)) :
    ∃ item : IniItem, item.line = indent ++ (name' ++ pairSeparator colon :: rest) ++ trailing ∧
      item.readable prevName = true := by
  obtain ⟨before, hbefore, parts⟩ := exists_rstrip name'
  obtain ⟨after, value, tail, parts', hafter, hvalue⟩ := exists_value rest trailing space
  have first' : ∀ c ∈ name'.head?, isspace c = false := fun c hc => first c (head?_of_append hc)
  refine ⟨.pair indent (rstrip name') before colon after value tail, ?_, ?_⟩
  · show indent ++ (rstrip name' ++ before ++ pairSeparator colon :: (after ++ value ++ tail)) = _
    rw [parts, parts', List.append_assoc, List.append_assoc, List.cons_append]
  have part : ∀ c, c ∉ name' → c ∉ rstrip name' := fun c not mem =>
    not (parts ▸ List.mem_append_left before mem)
  have plain' : noComment false (rstrip name') = true := by
    rw [← parts, noComment_append, Bool.and_eq_true] at plain
    exact plain.1
  have notMark' : startsPlain [';', '#', '['] (rstrip name') = true := by
    cases h : rstrip name' with
    | nil => rfl
    | cons c name =>
      rw [← parts, h] at notMark
      exact notMark
  have bare : rstrip name' = [] → before = [] := by
    intro empty
    rw [empty, eq_nil_of_rstrip first' empty] at parts
    exact parts
  have colons : colon = true → ':' ∉ rstrip name' ∧
      '=' ∉ beforeComment false (rstrip name' ++ before ++ ':' :: (after ++ value ++ tail)) := by
    intro isColon
    obtain ⟨not, not'⟩ := noColon isColon
    refine ⟨part _ not, ?_⟩
    rw [parts, parts', ← List.cons_append, ← List.append_assoc]
    exact mt (mem_beforeComment_append false (by decide) space).1 not'
  simp only [IniItem.readable, readableName, Bool.and_eq_true, Bool.not_eq_true', Bool.or_eq_true,
    List.elem_eq_mem, decide_eq_false_iff_not, List.isEmpty_iff, List.isEmpty_eq_false_iff]
  refine ⟨⟨⟨⟨⟨⟨may, ⟨⟨trimmed_rstrip first', notMark'⟩, part _ noEquals⟩, plain'⟩, hbefore⟩, ?_⟩, ?_⟩,
    hafter⟩, hvalue⟩
  · exact (em (rstrip name' = [])).symm.imp_right bare
  · cases colon with
    | false => exact .inl rfl
    | true => exact .inr (colons rfl)

end

/-! ## The branches of the parser -/

section

variable {σ : Type} {handler : σ → Str → Str → Str → Bool × σ} {st : IniState σ}

theorem fail_ne_zero (st : IniState σ) (pos : st.lineno ≠ 0) : st.fail.error ≠ 0 := by
  unfold IniState.fail
  split_ifs with first
  · exact pos
  · exact first

theorem mayIndent_of {prevName indent trailing s : Str} {c : Char} (space : allSpace indent = true)
    (not : ¬(prevName ≠ [] ∧ (indent ++ c :: s ++ trailing ++ ['\n']).head?.any isspace = true)) :
    mayIndent prevName indent = true := by
  unfold mayIndent
  rw [space, Bool.true_and, Bool.or_eq_true, List.isEmpty_iff, List.isEmpty_iff]
  cases indent with
  | nil => exact .inl rfl
  | cons d indent =>
    unfold allSpace at space
    rw [List.all_cons, Bool.and_eq_true] at space
    exact .inr (not_not.1 fun named => not ⟨named, space.1⟩)

/-- Each branch that records no error has found an item. -/
theorem exists_item_or_fails (handler : σ → Str → Str → Str → Bool × σ) {line : Str}
    (noBom : NoBom st.lineno (line ++ ['\n'])) :
    (∃ item : IniItem, item.line = line ∧ item.readable st.prevName = true) ∨
      (iniLine handler st (line ++ ['\n'])).error ≠ 0 := by
  obtain ⟨indent, trailing, hindent, htrailing, parts, trim⟩ := exists_start line
  have same : lskip (rstrip (line ++ ['\n'])) = lskip (rstrip line) := by
    rw [rstrip_append_of_allSpace line (by rfl)]
  unfold iniLine
  dsimp only
  rw [start_eq noBom, same]
  clear same noBom
  generalize lskip (rstrip line) = start at parts trim ⊢
  subst parts
  cases start with
  | nil =>
    refine .inl ⟨.blank (indent ++ [] ++ trailing), rfl, ?_⟩
    exact allSpace_append (allSpace_append hindent rfl) htrailing
  | cons c s =>
    have notSpace := isspace_head trim
    by_cases mark : (startsWith ';' (c :: s) || startsWith '#' (c :: s)) = true
    · refine .inl ⟨.comment indent c (s ++ trailing), by simp [IniItem.line], ?_⟩
      have hc : c = ';' ∨ c = '#' := by simpa [startsWith] using mark
      simp only [IniItem.readable, hindent, Bool.true_and]
      rcases hc with rfl | rfl
      · rfl
      · rfl
    rw [if_neg mark]
    have hc : c ≠ ';' ∧ c ≠ '#' := by simpa [startsWith] using mark
    by_cases more : st.prevName ≠ [] ∧ (indent ++ c :: s ++ trailing ++ ['\n']).head?.any isspace = true
    · -- a further line of a value: it starts with white space
      refine .inl ⟨.more indent (c :: s) trailing, rfl, ?_⟩
      have ne : indent ≠ [] := by
        rintro rfl
        exact Bool.noConfusion (notSpace.symm.trans more.2)
      simp only [IniItem.readable, Bool.and_eq_true, Bool.not_eq_true', List.isEmpty_eq_false_iff]
      refine ⟨⟨⟨⟨⟨⟨more.1, ne⟩, hindent⟩, List.cons_ne_nil c s⟩, trim⟩, ?_⟩, htrailing⟩
      simp [startsPlain, hc.1, hc.2]
    rw [if_neg fun h => more ⟨h.1, h.2.2⟩]
    have may := mayIndent_of hindent more
    by_cases bracket : c = '['
    · subst bracket
      rw [if_pos (by simp [startsWith]), List.tail_cons]
      obtain ⟨name, plain, closed, -⟩ := findCharOrComment_spec (some ']') false s
      set found := findCharOrComment (some ']') false s
      split_ifs with ends
      · left
        obtain ⟨rest, hrest⟩ := exists_of_startsWith ends
        rw [hrest] at name
        refine ⟨.header indent found.1 (rest ++ trailing), by simp [IniItem.line, ← name], ?_⟩
        have not : ']' ∉ found.1 := fun mem => closed _ mem rfl
        simp [IniItem.readable, may, plain, not]
      · exact .inr (fail_ne_zero _ (Nat.succ_ne_zero _))
    have notMark : startsPlain [';', '#', '['] (c :: s) = true := by
      simp [startsPlain, hc.1, hc.2, bracket]
    have first : ∀ d ∈ (c :: s).head?, isspace d = false := by
      rintro d ⟨⟩
      exact notSpace
    rw [if_neg (by simp [startsWith, bracket]), if_pos (List.cons_ne_nil c s)]
    by_cases equals : startsWith '=' (findCharOrComment (some '=') false (c :: s)).2 = true
    · left
      obtain ⟨parts, plain, other, -⟩ := findCharOrComment_spec (some '=') false (c :: s)
      obtain ⟨rest, hrest⟩ := exists_of_startsWith equals
      rw [hrest] at parts
      rw [← parts] at first notMark ⊢
      exact exists_pair false may htrailing first notMark plain
        (fun mem => other _ mem rfl) (fun h => by cases h)
    · rw [if_neg equals]
      obtain ⟨parts, plain, other, ends⟩ := findCharOrComment_spec (some ':') false (c :: s)
      set found := findCharOrComment (some ':') false (c :: s)
      have notEquals : startsWith '=' found.2 = false := by
        refine eq_false_of_ne_true fun h => ?_
        obtain ⟨rest, hrest⟩ := exists_of_startsWith h
        rcases ends '=' (hrest ▸ rfl) with h | h
        · cases h
        · exact absurd h.1 (by decide)
      rw [notEquals, Bool.false_or]
      split_ifs with colon
      · left
        have noEquals := mt (startsWith_findCharOrComment '=' false (c :: s) (by decide)).2 equals
        obtain ⟨rest, hrest⟩ := exists_of_startsWith colon
        rw [hrest] at parts
        rw [← parts] at first notMark noEquals ⊢
        exact exists_pair true may htrailing first notMark plain
          (fun mem => noEquals (mem_beforeComment plain mem _))
          fun _ => ⟨fun mem => other _ mem rfl, noEquals⟩
      · exact .inr (fail_ne_zero _ (Nat.succ_ne_zero _))

/-! ## Whole files -/

theorem error_fail (st : IniState σ) (h : st.error ≠ 0) : st.fail.error ≠ 0 := by
  unfold IniState.fail
  rwa [if_neg h]

theorem error_handle (st : IniState σ) (name value : Str) (h : st.error ≠ 0) :
    (st.handle handler name value).error ≠ 0 := by
  unfold IniState.handle
  dsimp only
  split_ifs
  · exact h
  · exact error_fail _ h

theorem error_ite {p : Prop} [Decidable p] {st st' : IniState σ} (h : st.error ≠ 0)
    (h' : st'.error ≠ 0) : (if p then st else st').error ≠ 0 := by
  split
  · exact h
  · exact h'

/-- An error stays recorded. -/
theorem error_iniLine (line : Str) (h : st.error ≠ 0) : (iniLine handler st line).error ≠ 0 := by
  unfold iniLine
  refine error_ite h ?_
  refine error_ite (error_handle _ _ _ h) ?_
  refine error_ite (error_ite h (error_fail _ h)) ?_
  exact error_ite (error_ite (error_handle _ _ _ h) (error_fail _ h)) h

theorem error_foldl (lines : List Str) (h : st.error ≠ 0) :
    (lines.foldl (iniLine handler) st).error ≠ 0 := by
  induction lines generalizing st with
  | nil => exact h
  | cons line lines ih => exact ih (error_iniLine line h)

/-- Lines that are read without an error are the lines of a readable file. -/
theorem exists_items (lines : List Str) (st : IniState σ)
    (noBom : NoBom st.lineno (fileText lines))
    (accepted : ((lines.map (· ++ ['\n'])).foldl (iniLine handler) st).error = 0) :
    ∃ items : List IniItem, items.map IniItem.line = lines ∧
      iniReadable st.sectionName st.prevName items = true := by
  induction lines generalizing st with
  | nil => exact ⟨[], rfl, rfl⟩
  | cons line lines ih =>
    rw [List.map_cons, List.foldl_cons] at accepted
    have noBomLine : NoBom st.lineno (line ++ ['\n']) := fun h =>
      noBom ⟨h.1, h.2.trans (prefix_fileText _ _)⟩
    rcases exists_item_or_fails handler noBomLine with ⟨item, rfl, means⟩ | failed
    · have step := item_eq handler st item
      dsimp only at step
      rw [iniLine_item means noBomLine, step] at accepted
      obtain ⟨items, rfl, readable⟩ := ih _ (fun h => Nat.succ_ne_zero _ h.1) accepted
      refine ⟨item :: items, rfl, ?_⟩
      rw [iniReadable, means, readable]
      rfl
    · exact absurd accepted (error_foldl _ failed)

/-- The grammar is that of `ini_parse_file`: a file with an item on each line is read as its items say,
and if `ini_parse_file` returns zero, the file has an item on each line. -/
theorem iniParseFile_grammar (handler : σ → Str → Str → Str → Bool × σ) (lines : List Str)
    (fits : ∀ line ∈ lines, fitsLine line = true)
    (noBom : ¬['\u00EF', '\u00BB', '\u00BF'] <+: fileText lines) (user : σ) :
    (∀ items : List IniItem, items.map IniItem.line = lines → iniReadable [] [] items = true →
      iniParseFile handler (fileText lines) user =
        callHandler handler (iniCalls 0 [] [] items) (0, user)) ∧
      ((iniParseFile handler (fileText lines) user).1 = 0 →
        ∃ items : List IniItem, items.map IniItem.line = lines ∧ iniReadable [] [] items = true) := by
  constructor
  · rintro items rfl readable
    exact iniParseFile_items handler fits readable noBom user
  · intro accepted
    unfold iniParseFile at accepted
    rw [fileLines_fileText fits (Nat.le_succ_of_le (length_le_fileText lines))] at accepted
    exact exists_items lines ⟨user, [], [], 0, 0⟩ (fun h => noBom h.2) accepted

end

/-- A file with each kind of line; the second pair is refused by a handler that wants numbers. -/
def Sample.iniItems : List IniItem :=
  [.comment [] '#' " limits".toList, .header [] "ignore_referenced_by".toList " ; per field".toList,
    .pair [] "Holder.map".toList [' '] false [' '] "2".toList " ; two".toList,
    .more [' '] "3".toList [], .blank ['\t'], .pair [] "Holder.set".toList [] true [] "many".toList []]

theorem iniParseFile_grammar_sample :
    (iniParseFile (iniHandler Sample.unix64) (fileText (Sample.iniItems.map IniItem.line))
      ⟨[], [], ⟨0, 0⟩⟩).1 = 6 := by
  rw [(iniParseFile_grammar _ _ (by decide +kernel) (by decide +kernel) _).1 Sample.iniItems rfl
    (by decide +kernel)]
  decide +kernel

end JLeaker
