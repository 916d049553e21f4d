import JLeaker.Lib.XmlTag
import JLeaker.Model.XmlOutput

/-!
# Reading the output again

`escapeString` replaces double quotes and nothing else.  A reader gets a value back if and only if
the value has none of the other characters that mean something in an attribute: `<`, `&` and white
space other than blanks.
-/

namespace JLeaker

open CString

/-! ## The values -/

/-- A character that stands for itself in an attribute value, or is escaped. -/
structure IsPlain (c : Char) : Prop where
  char : Xml.isChar c = true
  notLess : c ≠ '<'
  notAmp : c ≠ '&'
  space : Xml.isSpace c = true → c = ' '

/-- `escapeString` without its shortcut for strings that need no copy. -/
def escaped (s : Str) : Str := s.flatMap fun c => if c = '"' then "&quot;".toList else [c]

theorem escapeString_eq (s : Str) : escapeString s = escaped s := by
  unfold escapeString escaped
  split_ifs with h
  · have hnone : '"' ∉ s := List.count_eq_zero.1 h
    induction s with
    | nil => rfl
    | cons c s ih =>
      have hc : c ≠ '"' := by
        rintro rfl
        exact hnone (by simp)
      have hs : '"' ∉ s := fun hmem => hnone (by simp [hmem])
      rw [List.flatMap_cons, if_neg hc, ← ih (List.count_eq_zero.2 hs) hs]
      rfl
  · rfl

theorem escaped_quote (s : Str) :
    escaped ('"' :: s) = '&' :: 'q' :: 'u' :: 'o' :: 't' :: ';' :: escaped s := rfl

theorem escaped_cons {c : Char} (h : c ≠ '"') (s : Str) : escaped (c :: s) = c :: escaped s := by
  rw [escaped, List.flatMap_cons, if_neg h]
  rfl

theorem quote_notMem_escaped (s : Str) : '"' ∉ escaped s := by
  intro h
  obtain ⟨c, -, hc⟩ := List.mem_flatMap.1 h
  split_ifs at hc with hq
  · revert hc
    decide
  · exact hq (List.mem_singleton.1 hc).symm

/-- An escaped text starts with a newline only if the text itself does. -/
theorem exists_of_escaped_newline {v s : Str} (h : escaped v = '\n' :: s) : ∃ u, v = '\n' :: u := by
  cases v with
  | nil => cases h
  | cons d v =>
    by_cases hd : d = '"'
    · subst hd
      cases h
    · rw [escaped_cons hd] at h
      exact ⟨v, by rw [(List.cons.inj h).1]⟩

/-- A reference that is open where an escaped text begins ends at a character of the text itself. -/
theorem readValue_reference {text u w : Str}
    (h : Xml.readValue (some text) (escaped u) = some w) :
    ∃ c u' w', w = c :: w' ∧ Xml.readValue none (escaped u') = some w' ∧ u'.length < u.length := by
  induction u generalizing text with
  | nil => cases h
  | cons c u ih =>
    by_cases hquote : c = '"'
    · -- the `&` of the escape is inside the reference
      subst hquote
      rw [escaped_quote] at h
      have hnone : Xml.reference ('t' :: 'o' :: 'u' :: 'q' :: '&' :: text).reverse = none :=
        Xml.reference_eq_none (by simp)
      simp only [Xml.readValue, Char.reduceEq, if_false, if_true, hnone, Option.bind_none] at h
      cases h
    rw [escaped_cons hquote, Xml.readValue] at h
    split_ifs at h
    · obtain ⟨c', -, h⟩ := Option.bind_eq_some_iff.1 h
      obtain ⟨w', hw', rfl⟩ := Option.map_eq_some_iff.1 h
      exact ⟨c', u, w', rfl, hw', Nat.lt_succ_self _⟩
    · obtain ⟨c', u', w', hw, hread, hlt⟩ := ih h
      exact ⟨c', u', w', hw, hread, Nat.lt_succ_of_lt hlt⟩

/-- An escaped quote is read back. -/
theorem readValue_quote (v : Str) :
    Xml.readValue none (escaped ('"' :: v)) = (Xml.readValue none (escaped v)).map ('"' :: ·) := rfl

/-- The end of a line is read as one blank. -/
theorem readValue_newline (v : Str) : Xml.readValue none (escaped ('\r' :: '\n' :: v)) =
    (Xml.readValue none (escaped v)).map (' ' :: ·) := rfl

/-- A character that starts neither a reference nor the end of a line is read alone. -/
theorem readValue_char {c : Char} {v : Str} (hquote : c ≠ '"') (hamp : c ≠ '&')
    (hline : ¬ (c = '\r' ∧ ∃ u, v = '\n' :: u)) : Xml.readValue none (escaped (c :: v)) =
      if c = '<' || !Xml.isChar c then none
      else (Xml.readValue none (escaped v)).map ((if Xml.isSpace c then ' ' else c) :: ·) := by
  have hnot : ∀ s, c = '\r' → escaped v = '\n' :: s → False := by
    rintro s rfl hs
    exact hline ⟨rfl, exists_of_escaped_newline hs⟩
  rw [escaped_cons hquote, Xml.readValue.eq_4 _ _ hnot, if_neg hamp]

/-- What is read is no longer than the value, and equal to it only if every character is plain. -/
theorem readValue_escaped {n : ℕ} {v w : Str} (hn : v.length = n)
    (h : Xml.readValue none (escaped v) = some w) :
    w.length ≤ v.length ∧ (w = v → ∀ c ∈ v, IsPlain c) := by
  induction n using Nat.strong_induction_on generalizing v w with
  | _ n ih =>
    match v with
    | [] =>
      cases h
      exact ⟨le_rfl, by simp⟩
    | c :: v =>
      by_cases hquote : c = '"'
      · subst hquote
        rw [readValue_quote] at h
        obtain ⟨w', hw', rfl⟩ := Option.map_eq_some_iff.1 h
        obtain ⟨hle, hplain⟩ := ih v.length (by simp [← hn]) rfl hw'
        refine ⟨Nat.succ_le_succ hle, fun heq => ?_⟩
        intro c hc
        rcases List.mem_cons.1 hc with rfl | hc
        · exact ⟨by decide, by decide, by decide, by decide⟩
        · exact hplain (List.cons.inj heq).2 c hc
      by_cases hamp : c = '&'
      · -- a reference is longer than what it stands for
        subst hamp
        rw [escaped_cons hquote] at h
        have hopen : Xml.readValue (some []) (escaped v) = some w := h
        obtain ⟨c', u', w', rfl, hw', hlt⟩ := readValue_reference hopen
        have hle := (ih u'.length (by simp only [← hn, List.length_cons]; omega) rfl hw').1
        refine ⟨by simp only [List.length_cons]; omega, fun heq => ?_⟩
        have := congrArg List.length heq
        simp at this
        omega
      by_cases hline : c = '\r' ∧ ∃ u, v = '\n' :: u
      · obtain ⟨rfl, u, rfl⟩ := hline
        rw [readValue_newline] at h
        obtain ⟨w', hw', rfl⟩ := Option.map_eq_some_iff.1 h
        have hle := (ih u.length (by simp only [← hn, List.length_cons]; omega) rfl hw').1
        exact ⟨by simp only [List.length_cons]; omega,
          fun heq => absurd (List.cons.inj heq).1 (by decide)⟩
      rw [readValue_char hquote hamp hline] at h
      by_cases hchar : (decide (c = '<') || !Xml.isChar c) = true
      · rw [if_pos hchar] at h
        cases h
      rw [if_neg hchar] at h
      obtain ⟨w', hw', rfl⟩ := Option.map_eq_some_iff.1 h
      obtain ⟨hle, hplain⟩ := ih v.length (by simp [← hn]) rfl hw'
      refine ⟨Nat.succ_le_succ hle, fun heq => ?_⟩
      obtain ⟨hhead, rfl⟩ := List.cons.inj heq
      simp only [Bool.or_eq_true, decide_eq_true_eq, Bool.not_eq_true', not_or,
        Bool.not_eq_false] at hchar
      intro d hd
      rcases List.mem_cons.1 hd with rfl | hd
      · refine ⟨hchar.2, hchar.1, hamp, fun hspace => ?_⟩
        rw [if_pos hspace] at hhead
        exact hhead.symm
      · exact hplain rfl d hd

/-- A value of plain characters is read back. -/
theorem readValue_plain {v : Str} (h : ∀ c ∈ v, IsPlain c) :
    Xml.readValue none (escaped v) = some v := by
  induction v with
  | nil => rfl
  | cons c v ih =>
    have hv := ih fun d hd => h d (List.mem_cons_of_mem _ hd)
    have plain := h c List.mem_cons_self
    by_cases hquote : c = '"'
    · subst hquote
      rw [readValue_quote, hv]
      rfl
    · have hline : ¬ (c = '\r' ∧ ∃ u, v = '\n' :: u) := by
        rintro ⟨rfl, -⟩
        exact absurd (plain.space (by decide)) (by decide)
      rw [readValue_char hquote plain.notAmp hline, hv]
      have hchar : ¬ (decide (c = '<') || !Xml.isChar c) = true := by
        simp [plain.char, plain.notLess]
      rw [if_neg hchar]
      by_cases hspace : Xml.isSpace c = true
      · simp [plain.space hspace]
      · simp [hspace]

/-- The reader gets a value back if and only if it is plain. -/
theorem readValue_escapeString_iff (v : Str) :
    Xml.readValue none (escapeString v) = some v ↔ ∀ c ∈ v, IsPlain c := by
  rw [escapeString_eq]
  exact ⟨fun h => (readValue_escaped rfl h).2 rfl, readValue_plain⟩

/-! ## The tags -/

/-- The end of a tag `echo_xml_element` is called with. -/
def endTag (empty : Bool) : Str := if empty then " /".toList else []

/-- The tag as it is printed. -/
def escapedTag (tag : Xml.Tag) : Xml.Tag :=
  { tag with attrs := tag.attrs.map fun a => (a.1, escapeString a.2) }

theorem applyXmlIdentation_eq (f : OutputStream) (xmlDepth : ℕ) :
    applyXmlIdentation f xmlDepth = List.replicate xmlDepth '\t' := by
  unfold applyXmlIdentation
  induction xmlDepth with
  | zero => rfl
  | succ n ih =>
    rw [List.range_succ, List.flatMap_append, ih, List.flatMap_singleton, myPrintf_eq,
      List.replicate_succ']

/-- A line is the indentation and the tag with its values escaped. -/
theorem echoXmlElement_line (f : OutputStream) (xmlDepth : ℕ) (tag : Xml.Tag) :
    echoXmlElement f xmlDepth tag.name (endTag tag.empty) tag.attrs =
      List.replicate xmlDepth '\t' ++ Xml.printTag (escapedTag tag) ++ ['\n'] := by
  rw [echoXmlElement, applyXmlIdentation_eq, Xml.printTag, Xml.printAttributes]
  cases hempty : tag.empty with
  | false => simp [Xml.printAttribute, Xml.printEnd, endTag, escapedTag, hempty, List.flatMap_map]
  | true => simp [Xml.printAttribute, Xml.printEnd, endTag, escapedTag, hempty, List.flatMap_map]

theorem dropWhile_echoXmlElement (f : OutputStream) (xmlDepth : ℕ) (tag : Xml.Tag) :
    (echoXmlElement f xmlDepth tag.name (endTag tag.empty) tag.attrs).dropWhile Xml.isSpace =
      Xml.printTag (escapedTag tag) ++ ['\n'] := by
  rw [echoXmlElement_line, List.append_assoc, List.dropWhile_append_of_pos fun c hc => ?_]
  · exact List.dropWhile_cons_of_neg (by decide)
  · rw [List.eq_of_mem_replicate hc]
    decide

theorem mapM_escaped_iff (attrs : List (Str × Str)) :
    ((attrs.map fun a => (a.1, escapeString a.2)).mapM fun a =>
        (Xml.readValue none a.2).map (a.1, ·)) = some attrs ↔
      ∀ a ∈ attrs, ∀ c ∈ a.2, IsPlain c := by
  induction attrs with
  | nil => simp
  | cons a attrs ih =>
    rw [List.map_cons, List.mapM_cons, List.forall_mem_cons, ← ih, ← readValue_escapeString_iff]
    simp only [Option.bind_eq_bind, Option.bind_eq_some_iff, Option.map_eq_some_iff]
    constructor
    · rintro ⟨_, ⟨v, hv, rfl⟩, vs, hvs, h⟩
      obtain ⟨ha, rfl⟩ := List.cons.inj (Option.some.inj h)
      obtain rfl := congrArg Prod.snd ha
      exact ⟨hv, hvs⟩
    · rintro ⟨hv, hvs⟩
      exact ⟨a, ⟨a.2, hv, rfl⟩, attrs, hvs, rfl⟩

/-- An XML reader reads, from the line that is printed for the tag, the tag and nothing else. -/
def ReadsBack (f : OutputStream) (xmlDepth : ℕ) (tag : Xml.Tag) : Prop :=
  Xml.readTag ((echoXmlElement f xmlDepth tag.name (endTag tag.empty) tag.attrs).dropWhile
    Xml.isSpace) = some (tag, ['\n'])

theorem readsBack_iff (f : OutputStream) (xmlDepth : ℕ) (tag : Xml.Tag) :
    ReadsBack f xmlDepth tag ↔
      Xml.IsName tag.name ∧ (∀ a ∈ tag.attrs, Xml.IsName a.1) ∧
        (tag.attrs.map Prod.fst).Nodup ∧ ∀ a ∈ tag.attrs, ∀ c ∈ a.2, IsPlain c := by
  unfold ReadsBack
  have names : ∀ a ∈ (escapedTag tag).attrs, ∃ b ∈ tag.attrs, b.1 = a.1 ∧ a.2 = escapeString b.2 := by
    intro a ha
    obtain ⟨b, hb, rfl⟩ := List.mem_map.1 ha
    exact ⟨b, hb, rfl, rfl⟩
  have fst : (escapedTag tag).attrs.map Prod.fst = tag.attrs.map Prod.fst := by
    simp [escapedTag]
  have raws : ∀ a ∈ (escapedTag tag).attrs, '"' ∉ a.2 := by
    intro a ha
    obtain ⟨b, -, -, hb⟩ := names a ha
    rw [hb, escapeString_eq]
    exact quote_notMem_escaped _
  -- with names that can be read, the tag is read back exactly if the values are
  have hread (hname : Xml.IsName tag.name) (hnames : ∀ a ∈ tag.attrs, Xml.IsName a.1)
      (hnodup : (tag.attrs.map Prod.fst).Nodup) :
      Xml.readTag (Xml.printTag (escapedTag tag) ++ ['\n']) = some (tag, ['\n']) ↔
        ∀ a ∈ tag.attrs, ∀ c ∈ a.2, IsPlain c := by
    have hprinted := Xml.readTag_printed (show Xml.IsName (escapedTag tag).name from hname)
      (fun a ha => by
        obtain ⟨b, hb, hfst, -⟩ := names a ha
        exact hfst ▸ hnames b hb) (fst ▸ hnodup) raws ['\n']
    rw [hprinted, ← mapM_escaped_iff, Option.map_eq_some_iff]
    constructor
    · rintro ⟨attrs, hattrs, h⟩
      obtain rfl : attrs = tag.attrs := congrArg Xml.Tag.attrs (Prod.mk.inj h).1
      exact hattrs
    · exact fun h => ⟨tag.attrs, h, rfl⟩
  rw [dropWhile_echoXmlElement]
  constructor
  · intro h
    obtain ⟨hname, hnames, hnodup, -⟩ := Xml.readTag_names h
    exact ⟨hname, hnames, hnodup, (hread hname hnames hnodup).1 h⟩
  · rintro ⟨hname, hnames, hnodup, hplain⟩
    exact (hread hname hnames hnodup).2 hplain

/-! ## The whole law -/

/-- No double quote, no `<`, and no `&` that does not begin the escape of a double quote. -/
structure WellEscaped (s : Str) : Prop where
  quote : '"' ∉ s
  less : '<' ∉ s
  amp : ∀ pre post, s = pre ++ '&' :: post → "quot;".toList <+: post

theorem wellEscaped_escapeString {v : Str} (h : ∀ c ∈ v, IsPlain c) :
    WellEscaped (escapeString v) := by
  rw [escapeString_eq]
  refine ⟨quote_notMem_escaped v, fun hless => ?_, fun pre post hsplit => ?_⟩
  · obtain ⟨c, hc, hless⟩ := List.mem_flatMap.1 hless
    split_ifs at hless with hquote
    · revert hless
      decide
    · exact (h c hc).notLess (List.mem_singleton.1 hless).symm
  · induction v generalizing pre with
    | nil => cases pre <;> cases hsplit
    | cons c v ih =>
      have hv := fun d hd => h d (List.mem_cons_of_mem _ hd)
      by_cases hquote : c = '"'
      · subst hquote
        rw [escaped_quote] at hsplit
        match pre with
        | [] =>
          obtain rfl := (List.cons.inj hsplit).2
          exact ⟨escaped v, rfl⟩
        | ['&'] | ['&', 'q'] | ['&', 'q', 'u'] | ['&', 'q', 'u', 'o'] | ['&', 'q', 'u', 'o', 't'] =>
          simp at hsplit
        | _ :: _ :: _ :: _ :: _ :: _ :: pre =>
          simp only [List.cons_append, List.cons.injEq] at hsplit
          exact ih hv pre hsplit.2.2.2.2.2.2
      · rw [escaped_cons hquote] at hsplit
        cases pre with
        | nil => exact absurd (List.cons.inj hsplit).1 (h c List.mem_cons_self).notAmp
        | cons d pre => exact ih hv pre (List.cons.inj hsplit).2

/-- The line is read back exactly for distinct names and plain values; plain values are well escaped and
told apart. -/
theorem xml_round_trip_iff (f : OutputStream) (xmlDepth : ℕ) (tag : Xml.Tag) (v w : Str) :
    (ReadsBack f xmlDepth tag ↔
      Xml.IsName tag.name ∧ (∀ a ∈ tag.attrs, Xml.IsName a.1) ∧
        (tag.attrs.map Prod.fst).Nodup ∧ ∀ a ∈ tag.attrs, ∀ c ∈ a.2, IsPlain c) ∧
    ((∀ c ∈ v, IsPlain c) → WellEscaped (escapeString v)) ∧
    ((∀ c ∈ v, IsPlain c) → (∀ c ∈ w, IsPlain c) → escapeString v = escapeString w → v = w) := by
  refine ⟨readsBack_iff f xmlDepth tag, wellEscaped_escapeString, fun hv hw heq => ?_⟩
  have hread := (readValue_escapeString_iff v).2 hv
  rw [heq, (readValue_escapeString_iff w).2 hw] at hread
  exact (Option.some.inj hread).symm

example : ReadsBack .file 2 ⟨"map-element".toList, [("key".toList, "a \"b\"".toList)], true⟩ := by
  unfold ReadsBack
  decide

/-- The name of a constructor is printed as it is, and a value that looks like an escape is the
escape of another value. -/
theorem less_not_escaped :
    ¬ ReadsBack .file 2 ⟨"reference".toList, [("location".toList, "Foo.<init>()V".toList)], true⟩ ∧
      '<' ∈ escapeString "Foo.<init>()V".toList ∧
      escapeString "\"".toList = escapeString "&quot;".toList := by
  unfold ReadsBack
  decide

end JLeaker
