import Mathlib.Data.List.TakeWhile
import JLeaker.Lib.CString

/-!
# Reading an XML tag

A reader of start tags and empty-element tags as XML 1.0 defines them: names, attributes in either
kind of quotes, references to characters and to the predefined entities, and the normalization of
white space in attribute values.  There is no document type, so no other entity is declared.
-/

namespace Xml

open CString

/-! ## Characters -/

/-- Characters that may stand in a document. -/
def isChar (c : Char) : Bool :=
  c = '\t' || c = '\n' || c = '\r' || (0x20 ≤ c.toNat && c.toNat ≠ 0xFFFE && c.toNat ≠ 0xFFFF)

/-- White space. -/
def isSpace (c : Char) : Bool := c = ' ' || c = '\t' || c = '\n' || c = '\r'

/-- The character's code lies in one of the ranges. -/
def inRanges (ranges : List (ℕ × ℕ)) (c : Char) : Bool :=
  ranges.any fun (lo, hi) => lo ≤ c.toNat && c.toNat ≤ hi

/-- Characters a name may start with. -/
def isNameStart (c : Char) : Bool :=
  c = ':' || c = '_' || inRanges [(0x41, 0x5A), (0x61, 0x7A), (0xC0, 0xD6), (0xD8, 0xF6),
    (0xF8, 0x2FF), (0x370, 0x37D), (0x37F, 0x1FFF), (0x200C, 0x200D), (0x2070, 0x218F),
    (0x2C00, 0x2FEF), (0x3001, 0xD7FF), (0xF900, 0xFDCF), (0xFDF0, 0xFFFD), (0x10000, 0xEFFFF)] c

/-- Characters of a name. -/
def isNameChar (c : Char) : Bool :=
  isNameStart c || c = '-' || c = '.' ||
    inRanges [(0x30, 0x39), (0xB7, 0xB7), (0x300, 0x36F), (0x203F, 0x2040)] c

/-- The string is a name. -/
def IsName (s : Str) : Prop := (∃ c ∈ s.head?, isNameStart c = true) ∧ ∀ c ∈ s, isNameChar c = true

/-! ## The parts of a tag -/

/-- A name and what follows it. -/
def readName (s : Str) : Option (Str × Str) :=
  if s.head?.any isNameStart then some (s.takeWhile isNameChar, s.dropWhile isNameChar) else none

/-- The value of a digit of a character reference. -/
def digitValue (base : ℕ) (c : Char) : Option ℕ :=
  let n := if c.isDigit then some (c.toNat - '0'.toNat)
    else if 'a' ≤ c ∧ c ≤ 'f' then some (c.toNat - 'a'.toNat + 10)
    else if 'A' ≤ c ∧ c ≤ 'F' then some (c.toNat - 'A'.toNat + 10)
    else none
  n.filter (· < base)

/-- The number that a nonempty string of digits stands for. -/
def readNumber (base : ℕ) (digits : Str) : Option ℕ :=
  if digits = [] then none
  else digits.foldlM (fun n c => (digitValue base c).map (base * n + ·)) 0

/-- The character with that code, if it may stand in a document. -/
def codeChar (n : ℕ) : Option Char :=
  if n.isValidChar ∧ isChar (Char.ofNat n) then some (Char.ofNat n) else none

/-- What a reference with this text between `&` and `;` stands for. -/
def reference : Str → Option Char
  | ['l', 't'] => some '<'
  | ['g', 't'] => some '>'
  | ['a', 'm', 'p'] => some '&'
  | ['q', 'u', 'o', 't'] => some '"'
  | ['a', 'p', 'o', 's'] => some '\''
  | '#' :: 'x' :: digits => (readNumber 16 digits).bind codeChar
  | '#' :: digits => (readNumber 10 digits).bind codeChar
  | _ => none

/-- The value of an attribute from the text between its quotes.  The first argument is the text of a
reference that is being read, backwards. -/
def readValue : Option Str → Str → Option Str
  | none, [] => some []
  | some _, [] => none
  | none, '\r' :: '\n' :: s => (readValue none s).map (' ' :: ·)
  | none, c :: s =>
    if c = '&' then readValue (some []) s
    else if c = '<' || !isChar c then none
    else (readValue none s).map ((if isSpace c then ' ' else c) :: ·)
  | some text, c :: s =>
    if c = ';' then (reference text.reverse).bind fun c => (readValue none s).map (c :: ·)
    else readValue (some (c :: text)) s

/-- One attribute and what follows it. -/
def readAttribute (s : Str) : Option ((Str × Str) × Str) := do
  let (name, s) ← readName s
  match s.dropWhile isSpace with
  | '=' :: s =>
    match s.dropWhile isSpace with
    | quote :: s =>
      if quote ≠ '"' ∧ quote ≠ '\'' then none
      else match s.dropWhile (· ≠ quote) with
        | [] => none
        | _ :: rest => do
          let value ← readValue none (s.takeWhile (· ≠ quote))
          return ((name, value), rest)
    | [] => none
  | _ => none

/-- The attributes, whether the element is empty, and what follows the tag. -/
def readAttributes : ℕ → Str → Option (List (Str × Str) × Bool × Str)
  | 0, _ => none
  | fuel + 1, s =>
    match s.dropWhile isSpace with
    | '>' :: rest => some ([], false, rest)
    | '/' :: '>' :: rest => some ([], true, rest)
    | s' =>
      if s' = s then none
      else do
        let (attr, s) ← readAttribute s'
        let (attrs, empty, rest) ← readAttributes fuel s
        return (attr :: attrs, empty, rest)

/-- A start tag or an empty-element tag. -/
structure Tag where
  name : Str
  attrs : List (Str × Str)
  empty : Bool
deriving DecidableEq

/-- The tag at the start of a text, and what follows it.  No attribute may occur twice. -/
def readTag : Str → Option (Tag × Str)
  | '<' :: s => do
    let (name, s) ← readName s
    let (attrs, empty, rest) ← readAttributes (s.length + 1) s
    if (attrs.map Prod.fst).Nodup then return (⟨name, attrs, empty⟩, rest) else none
  | _ => none

/-! ## References -/

theorem readNumber_eq_none {base : ℕ} {digits : Str} {c : Char} (hc : c ∈ digits)
    (hdigit : digitValue base c = none) : readNumber base digits = none := by
  have hfold : ∀ n, digits.foldlM (fun n c => (digitValue base c).map (base * n + ·)) n =
      none := by
    induction digits with
    | nil => cases hc
    | cons d digits ih =>
      intro n
      rw [List.foldlM_cons]
      rcases List.mem_cons.1 hc with rfl | hc
      · rw [hdigit]
        rfl
      · cases digitValue base d with
        | none => rfl
        | some m => exact ih hc _
  unfold readNumber
  split_ifs
  · rfl
  · exact hfold 0

/-- The text of a reference contains no `&`. -/
theorem reference_eq_none {text : Str} (h : '&' ∈ text) : reference text = none := by
  unfold reference
  split
  · exact absurd h (by decide)
  · exact absurd h (by decide)
  · exact absurd h (by decide)
  · exact absurd h (by decide)
  · exact absurd h (by decide)
  · rename_i digits
    have hmem : '&' ∈ digits := by simpa using h
    rw [readNumber_eq_none hmem (by decide)]
    rfl
  · rename_i digits _
    have hmem : '&' ∈ digits := by simpa using h
    rw [readNumber_eq_none hmem (by decide)]
    rfl
  · rfl

/-! ## Reading what was printed -/

theorem isNameStart_isNameChar {c : Char} (h : isNameStart c = true) : isNameChar c = true := by
  simp [isNameChar, h]

theorem readName_append {name s : Str} (hname : IsName name)
    (hs : ∀ c ∈ s.head?, isNameChar c = false) : readName (name ++ s) = some (name, s) := by
  obtain ⟨⟨c, hc, hstart⟩, hall⟩ := hname
  have hhead : (name ++ s).head? = some c := by simp [List.head?_append, Option.mem_def.1 hc]
  have htake : s.takeWhile isNameChar = [] ∧ s.dropWhile isNameChar = s := by
    cases s with
    | nil => simp
    | cons c s => simp [hs c rfl]
  rw [readName, hhead, Option.any_some, if_pos hstart, List.takeWhile_append_of_pos hall,
    List.dropWhile_append_of_pos hall, htake.1, htake.2, List.append_nil]

theorem readName_eq_some {s name rest : Str} (h : readName s = some (name, rest)) :
    IsName name ∧ name = s.takeWhile isNameChar := by
  unfold readName at h
  split_ifs at h with hhead
  obtain ⟨rfl, rfl⟩ := Prod.mk.inj (Option.some.inj h)
  refine ⟨⟨?_, fun c hc => ?_⟩, rfl⟩
  · obtain ⟨c, hc, hstart⟩ := (Option.any_eq_true _ _).1 hhead
    refine ⟨c, ?_, hstart⟩
    cases s with
    | nil => cases hc
    | cons a s =>
      obtain rfl := Option.some.inj hc
      simp [isNameStart_isNameChar hstart]
  · exact List.mem_takeWhile_imp hc

/-- An attribute as it is printed, with the text `raw` between double quotes. -/
def printAttribute (name raw : Str) : Str := name ++ '=' :: '"' :: raw ++ ['"']

theorem readAttribute_printed {name raw s : Str} (hname : IsName name) (hraw : '"' ∉ raw) :
    readAttribute (printAttribute name raw ++ s) =
      (readValue none raw).map fun value => ((name, value), s) := by
  have hquote : ∀ c ∈ raw, (decide (c ≠ '"')) = true := by
    rintro c hc
    apply decide_eq_true
    rintro rfl
    exact hraw hc
  have hread : readName (printAttribute name raw ++ s) =
      some (name, '=' :: '"' :: (raw ++ '"' :: s)) := by
    have hsplit : printAttribute name raw ++ s = name ++ '=' :: '"' :: (raw ++ '"' :: s) := by
      simp [printAttribute]
    rw [hsplit]
    refine readName_append hname fun c hc => ?_
    obtain rfl : '=' = c := by simpa using hc
    decide
  have hequals : ('=' :: '"' :: (raw ++ '"' :: s)).dropWhile isSpace =
      '=' :: '"' :: (raw ++ '"' :: s) := List.dropWhile_cons_of_neg (by decide)
  have hopen : ('"' :: (raw ++ '"' :: s)).dropWhile isSpace = '"' :: (raw ++ '"' :: s) :=
    List.dropWhile_cons_of_neg (by decide)
  have hclose : (raw ++ '"' :: s).dropWhile (fun c => decide (c ≠ '"')) = '"' :: s := by
    rw [List.dropWhile_append_of_pos hquote]
    exact List.dropWhile_cons_of_neg (by decide)
  have htake : (raw ++ '"' :: s).takeWhile (fun c => decide (c ≠ '"')) = raw := by
    rw [List.takeWhile_append_of_pos hquote, List.takeWhile_cons_of_neg (by decide),
      List.append_nil]
  simp only [readAttribute, hread, Option.bind_eq_bind, Option.bind_some, hequals, hopen, hclose,
    htake]
  rw [if_neg fun h => h.1 rfl]
  cases readValue none raw with
  | none => rfl
  | some value => rfl

theorem not_isSpace_of_isNameStart {c : Char} (h : isNameStart c = true) : isSpace c = false := by
  rw [Bool.eq_false_iff]
  intro hspace
  simp only [isSpace, Bool.or_eq_true, decide_eq_true_eq] at hspace
  rcases hspace with ((rfl | rfl) | rfl) | rfl <;> exact absurd h (by decide)

/-- How a tag ends. -/
def printEnd (empty : Bool) : Str := if empty then [' ', '/', '>'] else ['>']

/-- The attributes as they are printed. -/
def printAttributes (attrs : List (Str × Str)) : Str :=
  attrs.flatMap fun a => ' ' :: printAttribute a.1 a.2

theorem readAttributes_printed {attrs : List (Str × Str)} (names : ∀ a ∈ attrs, IsName a.1)
    (raws : ∀ a ∈ attrs, '"' ∉ a.2) (empty : Bool) (rest : Str) {fuel : ℕ}
    (hfuel : attrs.length < fuel) :
    readAttributes fuel (printAttributes attrs ++ (printEnd empty ++ rest)) =
      (attrs.mapM fun a => (readValue none a.2).map (a.1, ·)).map fun vs => (vs, empty, rest) := by
  induction attrs generalizing fuel with
  | nil =>
    obtain ⟨fuel, rfl⟩ := Nat.exists_eq_succ_of_ne_zero (Nat.ne_of_gt hfuel)
    cases empty with
    | false => simp [printAttributes, printEnd, readAttributes, isSpace]
    | true => simp [printAttributes, printEnd, readAttributes, isSpace]
  | cons a attrs ih =>
    obtain ⟨fuel, rfl⟩ := Nat.exists_eq_succ_of_ne_zero (Nat.ne_of_gt (Nat.zero_lt_of_lt hfuel))
    obtain ⟨name, raw⟩ := a
    have hname : IsName name := names (name, raw) (by simp)
    have hraw : '"' ∉ raw := raws (name, raw) (by simp)
    have hrest := ih (fun a ha => names a (by simp [ha])) (fun a ha => raws a (by simp [ha]))
      (show attrs.length < fuel by simpa using hfuel)
    set tail := printAttributes attrs ++ (printEnd empty ++ rest) with htail
    have hsplit : printAttributes ((name, raw) :: attrs) ++ (printEnd empty ++ rest) =
        ' ' :: (printAttribute name raw ++ tail) := by
      simp [printAttributes, htail]
    obtain ⟨c, hc, hstart⟩ := hname.1
    obtain ⟨t, ht⟩ : ∃ t, printAttribute name raw ++ tail = c :: t := by
      cases name with
      | nil => cases hc
      | cons a name =>
        obtain rfl := Option.some.inj hc
        exact ⟨_, rfl⟩
    have hskip : (' ' :: (printAttribute name raw ++ tail)).dropWhile isSpace = c :: t := by
      rw [List.dropWhile_cons_of_pos (by decide), ht]
      exact List.dropWhile_cons_of_neg (by simp [not_isSpace_of_isNameStart hstart])
    have hnew : c :: t ≠ ' ' :: (printAttribute name raw ++ tail) := by
      intro heq
      obtain rfl := (List.cons.inj heq).1
      exact absurd hstart (by decide)
    rw [hsplit, readAttributes, hskip]
    split
    · rename_i heq
      obtain rfl := (List.cons.inj heq).1
      exact absurd hstart (by decide)
    · rename_i heq
      obtain rfl := (List.cons.inj heq).1
      exact absurd hstart (by decide)
    · rw [if_neg hnew, ← ht, readAttribute_printed hname hraw, List.mapM_cons]
      cases readValue none raw with
      | none => rfl
      | some value =>
        simp only [Option.map_some, Option.bind_eq_bind, Option.bind_some]
        rw [hrest]
        cases attrs.mapM fun a => (readValue none a.2).map (a.1, ·) with
        | none => rfl
        | some vs => rfl

theorem readAttribute_isName {s rest : Str} {a : Str × Str} (h : readAttribute s = some (a, rest)) :
    IsName a.1 := by
  simp only [readAttribute, Option.bind_eq_bind, Option.bind_eq_some_iff] at h
  obtain ⟨⟨name, s'⟩, hname, h⟩ := h
  have hisName := (readName_eq_some hname).1
  dsimp only at h
  split at h
  · split at h
    · split_ifs at h
      split at h
      · cases h
      · obtain ⟨value, _, h⟩ := Option.bind_eq_some_iff.1 h
        cases h
        exact hisName
    · cases h
  · cases h

theorem readAttributes_isName {fuel : ℕ} {s rest : Str} {attrs : List (Str × Str)} {empty : Bool}
    (h : readAttributes fuel s = some (attrs, empty, rest)) : ∀ a ∈ attrs, IsName a.1 := by
  induction fuel generalizing s attrs with
  | zero => cases h
  | succ fuel ih =>
    rw [readAttributes] at h
    split at h
    · cases h
      simp
    · cases h
      simp
    · split_ifs at h
      simp only [Option.bind_eq_bind, Option.bind_eq_some_iff] at h
      obtain ⟨⟨attr, s'⟩, hattr, ⟨attrs', empty', rest'⟩, hattrs, h⟩ := h
      cases h
      intro a ha
      rcases List.mem_cons.1 ha with rfl | ha
      · exact readAttribute_isName hattr
      · exact ih hattrs a ha

/-- A tag as it is printed, with the texts of the attributes between double quotes. -/
def printTag (tag : Tag) : Str :=
  '<' :: (tag.name ++ (printAttributes tag.attrs ++ printEnd tag.empty))

/-- Reading the values keeps the names. -/
theorem map_fst_of_mapM {attrs vs : List (Str × Str)}
    (h : (attrs.mapM fun a => (readValue none a.2).map (a.1, ·)) = some vs) :
    vs.map Prod.fst = attrs.map Prod.fst := by
  induction attrs generalizing vs with
  | nil =>
    cases h
    rfl
  | cons a attrs ih =>
    rw [List.mapM_cons] at h
    simp only [Option.bind_eq_bind, Option.bind_eq_some_iff] at h
    obtain ⟨v, hv, vs', hvs, h⟩ := h
    obtain ⟨value, -, rfl⟩ := Option.map_eq_some_iff.1 hv
    cases h
    rw [List.map_cons, List.map_cons, ih hvs]

theorem length_le_printAttributes (attrs : List (Str × Str)) :
    attrs.length ≤ (printAttributes attrs).length := by
  induction attrs with
  | nil => exact Nat.zero_le _
  | cons a attrs ih =>
    have hcons : printAttributes (a :: attrs) =
        ' ' :: (printAttribute a.1 a.2 ++ printAttributes attrs) := by simp [printAttributes]
    rw [hcons, List.length_cons, List.length_cons, List.length_append]
    omega

/-- A printed name ends where the attributes or the end of the tag begin. -/
theorem head?_printed {attrs : List (Str × Str)} {empty : Bool} {rest : Str} {c : Char}
    (h : c ∈ (printAttributes attrs ++ (printEnd empty ++ rest)).head?) : isNameChar c = false := by
  have hc : c = ' ' ∨ c = '>' := by
    cases attrs with
    | nil =>
      cases empty with
      | false => exact .inr (Option.some.inj h).symm
      | true => exact .inl (Option.some.inj h).symm
    | cons a attrs => exact .inl (Option.some.inj h).symm
  rcases hc with rfl | rfl
  · decide
  · decide

/-- Reading a printed tag reads its attributes one by one. -/
theorem readTag_printed {tag : Tag} (hname : IsName tag.name)
    (names : ∀ a ∈ tag.attrs, IsName a.1) (nodup : (tag.attrs.map Prod.fst).Nodup)
    (raws : ∀ a ∈ tag.attrs, '"' ∉ a.2) (rest : Str) :
    readTag (printTag tag ++ rest) =
      (tag.attrs.mapM fun a => (readValue none a.2).map (a.1, ·)).map fun attrs =>
        ({ tag with attrs := attrs }, rest) := by
  set tail := printAttributes tag.attrs ++ (printEnd tag.empty ++ rest) with htail
  have hsplit : printTag tag ++ rest = '<' :: (tag.name ++ tail) := by simp [printTag, htail]
  have hfuel : tag.attrs.length < tail.length + 1 := by
    have := length_le_printAttributes tag.attrs
    rw [htail, List.length_append]
    omega
  have hread : readName (tag.name ++ tail) = some (tag.name, tail) :=
    readName_append hname fun c => head?_printed
  rw [hsplit, readTag]
  simp only [Option.bind_eq_bind, hread, Option.bind_some]
  rw [htail, readAttributes_printed names raws tag.empty rest (htail ▸ hfuel)]
  cases hmap : tag.attrs.mapM fun a => (readValue none a.2).map (a.1, ·) with
  | none => rfl
  | some vs =>
    simp only [Option.map_some, Option.bind_some]
    rw [if_pos (map_fst_of_mapM hmap ▸ nodup)]
    rfl

/-- The names of a tag that is read are names, and no attribute occurs twice. -/
theorem readTag_names {s rest : Str} {tag : Tag} (h : readTag s = some (tag, rest)) :
    IsName tag.name ∧ (∀ a ∈ tag.attrs, IsName a.1) ∧ (tag.attrs.map Prod.fst).Nodup ∧
      ∃ s', s = '<' :: s' ∧ tag.name = s'.takeWhile isNameChar := by
  unfold readTag at h
  split at h
  · rename_i s'
    simp only [Option.bind_eq_bind, Option.bind_eq_some_iff] at h
    obtain ⟨⟨name, s''⟩, hname, ⟨attrs, empty, rest'⟩, hattrs, h⟩ := h
    dsimp only at h
    split_ifs at h with hnodup
    cases h
    obtain ⟨hisName, htake⟩ := readName_eq_some hname
    exact ⟨hisName, readAttributes_isName hattrs, hnodup, s', rfl, htake⟩
  · cases h

example : readTag "<a b=\"x &lt; &#x41;\" c = 'y'/>.".toList =
    some (⟨"a".toList, [("b".toList, "x < A".toList), ("c".toList, "y".toList)], true⟩,
      ".".toList) := by
  decide

end Xml
