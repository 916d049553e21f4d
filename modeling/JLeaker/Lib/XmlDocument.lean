import JLeaker.Lib.XmlTag

/-!
# Reading an XML document

A reader of documents whose elements hold other elements only: an XML declaration, one root element,
and white space between the tags.  `readContent_printed` says what it makes of elements printed one
tag a line.
-/

namespace Xml

open CString

/-- Elements one after another, each with its attributes: empty-element tags, and start tags with the
elements before their end tags. -/
inductive Content
  | nil
  | leaf (name : Str) (attrs : List (Str × Str)) (rest : Content)
  | element (name : Str) (attrs : List (Str × Str)) (inner rest : Content)
deriving DecidableEq

/-! ## The reader -/

/-- What follows the end tag of an element of that name. -/
def readEndTag (name : Str) : Str → Option Str
  | '<' :: '/' :: s => do
    let (found, s) ← readName s
    match s.dropWhile isSpace with
    | '>' :: rest => if found = name then some rest else none
    | _ => none
  | _ => none

/-- The elements up to the next end tag or the end of the text, and what is left of the text. -/
def readContent : ℕ → Str → Option (Content × Str)
  | 0, _ => none
  | fuel + 1, s =>
    match s.dropWhile isSpace with
    | [] => some (.nil, [])
    | '<' :: '/' :: s => some (.nil, '<' :: '/' :: s)
    | s => do
      let (tag, s) ← readTag s
      if tag.empty then
        let (rest, s) ← readContent fuel s
        return (.leaf tag.name tag.attrs rest, s)
      else
        let (inner, s) ← readContent fuel s
        let s ← readEndTag tag.name s
        let (rest, s) ← readContent fuel s
        return (.element tag.name tag.attrs inner rest, s)

/-- The parts of an XML declaration up to its end, and what follows it. -/
def readDeclarationParts : ℕ → Str → Option (List (Str × Str) × Str)
  | 0, _ => none
  | fuel + 1, s =>
    match s.dropWhile isSpace with
    | '?' :: '>' :: rest => some ([], rest)
    | s' =>
      if s' = s then none
      else do
        let (attr, s) ← readAttribute s'
        let (attrs, rest) ← readDeclarationParts fuel s
        return (attr :: attrs, rest)

/-- What follows the XML declaration, which names the version and may name an encoding and whether the
document stands alone. -/
def readDeclaration : Str → Option Str
  | '<' :: '?' :: 'x' :: 'm' :: 'l' :: s => do
    let (attrs, rest) ← readDeclarationParts 4 s
    if attrs.head? = some ("version".toList, "1.0".toList) ∧
        (attrs.map Prod.fst).Sublist ["version".toList, "encoding".toList, "standalone".toList] then
      return rest
    else none
  | _ => none

/-- One element and nothing after it. -/
def Content.isRoot : Content → Bool
  | .leaf _ _ .nil => true
  | .element _ _ _ .nil => true
  | _ => false

/-- A document: its root element. -/
def readDocument (s : Str) : Option Content := do
  let s ← readDeclaration s
  let (content, rest) ← readContent (s.length + 1) s
  if rest = [] ∧ content.isRoot then return content else none

/-! ## Documents as they are printed -/

namespace Content

/-- The name of an element and those of its attributes. -/
def TagNamed (name : Str) (attrs : List (Str × Str)) : Prop :=
  IsName name ∧ (∀ a ∈ attrs, IsName a.1) ∧ (attrs.map Prod.fst).Nodup

/-- The names are names, and no attribute of an element occurs twice. -/
def Named : Content → Prop
  | nil => True
  | leaf name attrs rest => TagNamed name attrs ∧ rest.Named
  | element name attrs inner rest => TagNamed name attrs ∧ inner.Named ∧ rest.Named

/-- Every attribute satisfies `P`. -/
def All (P : Str × Str → Prop) : Content → Prop
  | nil => True
  | leaf _ attrs rest => (∀ a ∈ attrs, P a) ∧ rest.All P
  | element _ attrs inner rest => (∀ a ∈ attrs, P a) ∧ inner.All P ∧ rest.All P

/-- Every element as text: a tag a line, behind as many tabs as there are open elements.  The values
of the attributes are the texts between the quotes. -/
def print : ℕ → Content → Str
  | _, nil => []
  | depth, leaf name attrs rest =>
    List.replicate depth '\t' ++ printTag ⟨name, attrs, true⟩ ++ ['\n'] ++ rest.print depth
  | depth, element name attrs inner rest =>
    List.replicate depth '\t' ++ printTag ⟨name, attrs, false⟩ ++ ['\n'] ++ inner.print (depth + 1) ++
      List.replicate depth '\t' ++ ("</".toList ++ name ++ ">\n".toList) ++ rest.print depth

/-- The values of the attributes are read. -/
def decode : Content → Option Content
  | nil => some nil
  | leaf name attrs rest => do
    let attrs ← attrs.mapM fun a => (readValue none a.2).map (a.1, ·)
    let rest ← rest.decode
    return leaf name attrs rest
  | element name attrs inner rest => do
    let attrs ← attrs.mapM fun a => (readValue none a.2).map (a.1, ·)
    let inner ← inner.decode
    let rest ← rest.decode
    return element name attrs inner rest

/-- Other texts for the values of the attributes. -/
def mapValues (g : Str → Str) : Content → Content
  | nil => nil
  | leaf name attrs rest => leaf name (attrs.map fun a => (a.1, g a.2)) (rest.mapValues g)
  | element name attrs inner rest =>
    element name (attrs.map fun a => (a.1, g a.2)) (inner.mapValues g) (rest.mapValues g)

/-- How many elements there are. -/
def size : Content → ℕ
  | nil => 0
  | leaf _ _ rest => rest.size + 1
  | element _ _ inner rest => inner.size + rest.size + 1

end Content

theorem dropWhile_tabs (depth : ℕ) (s : Str) :
    (List.replicate depth '\t' ++ s).dropWhile isSpace = s.dropWhile isSpace :=
  List.dropWhile_append_of_pos fun c hc => by
    rw [List.eq_of_mem_replicate hc]
    decide

/-- What stands behind elements: white space, and an end tag or nothing. -/
def Ends (s : Str) : Prop :=
  s.dropWhile isSpace = [] ∨ ∃ rest, s.dropWhile isSpace = '<' :: '/' :: rest

/-- A start tag begins with a letter of its name. -/
theorem printTag_cons {tag : Tag} (hname : IsName tag.name) :
    ∃ c s, printTag tag = '<' :: c :: s ∧ c ≠ '/' := by
  obtain ⟨⟨c, hc, hstart⟩, -⟩ := hname
  cases hn : tag.name with
  | nil =>
    rw [hn] at hc
    cases hc
  | cons a name =>
    rw [hn] at hc
    obtain rfl := Option.some.inj hc
    refine ⟨a, _, by rw [printTag, hn]; rfl, ?_⟩
    rintro rfl
    exact absurd hstart (by decide)

theorem readEndTag_printed {name : Str} (hname : IsName name) (rest : Str) :
    readEndTag name ("</".toList ++ name ++ ">\n".toList ++ rest) = some ('\n' :: rest) := by
  have split : "</".toList ++ name ++ ">\n".toList ++ rest =
      '<' :: '/' :: (name ++ '>' :: '\n' :: rest) := by simp
  have read : readName (name ++ '>' :: '\n' :: rest) = some (name, '>' :: '\n' :: rest) := by
    refine readName_append hname fun c hc => ?_
    obtain rfl : '>' = c := by simpa using hc
    decide
  have close : ('>' :: '\n' :: rest).dropWhile isSpace = '>' :: '\n' :: rest :=
    List.dropWhile_cons_of_neg (by decide)
  rw [split, readEndTag, read]
  simp only [Option.bind_eq_bind, Option.bind_some, close, if_true]

/-- The rule for a tag behind white space. -/
theorem readContent_tag {fuel : ℕ} {s : Str} {c : Char} {t : Str}
    (h : s.dropWhile isSpace = '<' :: c :: t) (hc : c ≠ '/') :
    readContent (fuel + 1) s = (readTag ('<' :: c :: t)).bind fun (tag, s) =>
      if tag.empty then
        (readContent fuel s).bind fun (rest, s) => some (.leaf tag.name tag.attrs rest, s)
      else
        (readContent fuel s).bind fun (inner, s) =>
          (readEndTag tag.name s).bind fun s =>
            (readContent fuel s).bind fun (rest, s) =>
              some (.element tag.name tag.attrs inner rest, s) := by
  rw [readContent, h]
  split
  · next heq => cases heq
  · next heq =>
    simp only [List.cons.injEq, true_and] at heq
    exact absurd heq.1 hc
  · rfl

/-- White space before elements is skipped. -/
theorem readContent_space {c : Char} (hc : isSpace c = true) (fuel : ℕ) (s : Str) :
    readContent fuel (c :: s) = readContent fuel s := by
  cases fuel with
  | zero => rfl
  | succ fuel => rw [readContent, readContent, List.dropWhile_cons_of_pos hc]

/-- A printed tag, behind tabs and before the end of its line. -/
theorem readContent_line (tag : Tag) (named : Content.TagNamed tag.name tag.attrs)
    (raws : ∀ a ∈ tag.attrs, '"' ∉ a.2) (depth fuel : ℕ) (s : Str) :
    readContent (fuel + 1) (List.replicate depth '\t' ++ printTag tag ++ ['\n'] ++ s) =
      (tag.attrs.mapM fun a => (readValue none a.2).map (a.1, ·)).bind fun attrs =>
        if tag.empty then
          (readContent fuel s).bind fun (rest, s) => some (.leaf tag.name attrs rest, s)
        else
          (readContent fuel s).bind fun (inner, s) =>
            (readEndTag tag.name s).bind fun s =>
              (readContent fuel s).bind fun (rest, s) =>
                some (.element tag.name attrs inner rest, s) := by
  obtain ⟨hname, hnames, hnodup⟩ := named
  obtain ⟨c, t, htag, hc⟩ := printTag_cons hname
  have behind : (List.replicate depth '\t' ++ printTag tag ++ ['\n'] ++ s).dropWhile isSpace =
      '<' :: c :: (t ++ '\n' :: s) := by
    rw [List.append_assoc, List.append_assoc, dropWhile_tabs, htag]
    exact List.dropWhile_cons_of_neg (by decide)
  have read := readTag_printed hname hnames hnodup raws ('\n' :: s)
  rw [htag] at read
  rw [readContent_tag behind hc]
  change (readTag ('<' :: c :: t ++ '\n' :: s)).bind _ = _
  rw [read]
  cases tag.attrs.mapM fun a => (readValue none a.2).map (a.1, ·) with
  | none => rfl
  | some attrs =>
    simp only [Option.map_some, Option.bind_some, readContent_space (c := '\n') (by decide)]

/-- Reading printed elements reads the values of their attributes. -/
theorem readContent_printed {content : Content} (named : content.Named)
    (raws : content.All fun a => '"' ∉ a.2) (depth : ℕ) {fuel : ℕ} (hfuel : content.size < fuel)
    {s : Str} (ends : Ends s) :
    readContent fuel (content.print depth ++ s) =
      content.decode.map fun content => (content, s.dropWhile isSpace) := by
  induction content generalizing depth fuel s with
  | nil =>
    obtain ⟨fuel, rfl⟩ := Nat.exists_eq_succ_of_ne_zero (Nat.ne_of_gt hfuel)
    rw [readContent]
    rcases ends with h | ⟨rest, h⟩
    · rw [Content.print, List.nil_append, h]
      rfl
    · rw [Content.print, List.nil_append, h]
      rfl
  | leaf name attrs rest ih =>
    obtain ⟨fuel, rfl⟩ := Nat.exists_eq_succ_of_ne_zero (Nat.ne_of_gt (Nat.zero_lt_of_lt hfuel))
    have hrest := ih named.2 raws.2 depth (Nat.lt_of_succ_lt_succ hfuel) ends
    rw [Content.print, List.append_assoc,
      readContent_line ⟨name, attrs, true⟩ named.1 raws.1 depth fuel, Content.decode]
    dsimp only
    cases attrs.mapM fun a => (readValue none a.2).map (a.1, ·) with
    | none => rfl
    | some attrs =>
      rw [Option.bind_some, if_pos rfl, hrest]
      cases rest.decode <;> rfl
  | element name attrs inner rest ihi ihr =>
    obtain ⟨fuel, rfl⟩ := Nat.exists_eq_succ_of_ne_zero (Nat.ne_of_gt (Nat.zero_lt_of_lt hfuel))
    rw [Content.size] at hfuel
    -- the end tag behind the inner elements
    have close : (List.replicate depth '\t' ++ ("</".toList ++ name ++ ">\n".toList) ++
        (rest.print depth ++ s)).dropWhile isSpace =
        "</".toList ++ name ++ ">\n".toList ++ (rest.print depth ++ s) := by
      rw [List.append_assoc, dropWhile_tabs]
      exact List.dropWhile_cons_of_neg (by decide)
    have hinner := ihi named.2.1 raws.2.1 (depth + 1) (show inner.size < fuel by omega)
      (.inr ⟨_, close⟩)
    have hrest := ihr named.2.2 raws.2.2 depth (show rest.size < fuel by omega) ends
    have lines : (Content.element name attrs inner rest).print depth ++ s =
        List.replicate depth '\t' ++ printTag ⟨name, attrs, false⟩ ++ ['\n'] ++
          (inner.print (depth + 1) ++ (List.replicate depth '\t' ++
            ("</".toList ++ name ++ ">\n".toList) ++ (rest.print depth ++ s))) := by
      simp only [Content.print, List.append_assoc]
    rw [lines, readContent_line ⟨name, attrs, false⟩ named.1 raws.1 depth fuel,
      Content.decode]
    dsimp only
    cases attrs.mapM fun a => (readValue none a.2).map (a.1, ·) with
    | none => rfl
    | some attrs =>
      rw [Option.bind_some, if_neg Bool.false_ne_true, hinner]
      cases inner.decode with
      | none => rfl
      | some inner =>
        simp only [Option.map_some, Option.bind_some, Option.bind_eq_bind, close]
        rw [readEndTag_printed named.1.1]
        simp only [Option.bind_some, readContent_space (c := '\n') (by decide), hrest]
        cases rest.decode <;> rfl

theorem Content.size_le_length (content : Content) (depth : ℕ) :
    content.size ≤ (content.print depth).length := by
  induction content generalizing depth with
  | nil => exact Nat.zero_le _
  | leaf name attrs rest ih =>
    have := ih depth
    simp only [size, print, List.length_append, List.length_singleton]
    omega
  | element name attrs inner rest ihi ihr =>
    have := ihi (depth + 1)
    have := ihr depth
    simp only [size, print, List.length_append, List.length_singleton]
    omega

theorem Content.decode_isRoot {content decoded : Content} (h : content.decode = some decoded) :
    decoded.isRoot = content.isRoot := by
  -- what is behind the first element is nothing on both sides
  have nil : ∀ {c d : Content}, c.decode = some d → (d = .nil ↔ c = .nil) := by
    intro c d h
    cases c with
    | nil =>
      cases h
      exact Iff.rfl
    | leaf name attrs rest =>
      simp only [decode, Option.bind_eq_bind, Option.bind_eq_some_iff] at h
      obtain ⟨attrs', -, rest', -, h⟩ := h
      cases h
      simp
    | element name attrs inner rest =>
      simp only [decode, Option.bind_eq_bind, Option.bind_eq_some_iff] at h
      obtain ⟨attrs', -, inner', -, rest', -, h⟩ := h
      cases h
      simp
  have root : ∀ {c d : Content}, (d = .nil ↔ c = .nil) → ∀ {n n' a a'},
      (leaf n a d).isRoot = (leaf n' a' c).isRoot := by
    intro c d h
    cases c <;> cases d <;> simp_all [isRoot]
  cases content with
  | nil =>
    cases h
    rfl
  | leaf name attrs rest =>
    simp only [decode, Option.bind_eq_bind, Option.bind_eq_some_iff] at h
    obtain ⟨attrs', -, rest', hrest, h⟩ := h
    cases h
    exact root (nil hrest)
  | element name attrs inner rest =>
    simp only [decode, Option.bind_eq_bind, Option.bind_eq_some_iff] at h
    obtain ⟨attrs', -, inner', -, rest', hrest, h⟩ := h
    cases h
    have := nil hrest
    cases rest <;> cases rest' <;> simp_all [isRoot]

/-- Reading a printed document behind its declaration. -/
theorem readDocument_printed {content : Content} (named : content.Named)
    (raws : content.All fun a => '"' ∉ a.2) (root : content.isRoot = true) {declaration : Str}
    (declared : readDeclaration (declaration ++ content.print 0) = some ('\n' :: content.print 0)) :
    readDocument (declaration ++ content.print 0) = content.decode := by
  have fuel : content.size < ('\n' :: content.print 0).length + 1 := by
    have := content.size_le_length 0
    rw [List.length_cons]
    omega
  have read := readContent_printed named raws 0 (s := []) fuel (.inl rfl)
  rw [List.append_nil, ← readContent_space (c := '\n') (by decide)] at read
  unfold readDocument
  rw [declared]
  simp only [Option.bind_eq_bind, Option.bind_some]
  rw [read]
  cases h : content.decode with
  | none => rfl
  | some decoded =>
    have := Content.decode_isRoot h
    simp [this, root]

namespace Content

variable (g : Str → Str) {content : Content}

theorem mapValues_named (named : content.Named) : (content.mapValues g).Named := by
  have tag : ∀ {name attrs}, TagNamed name attrs →
      TagNamed name (attrs.map fun a => (a.1, g a.2)) := by
    rintro name attrs ⟨hname, hnames, hnodup⟩
    refine ⟨hname, List.forall_mem_map.2 hnames, ?_⟩
    rw [List.map_map]
    exact hnodup
  induction content with
  | nil => trivial
  | leaf name attrs rest ih => exact ⟨tag named.1, ih named.2⟩
  | element name attrs inner rest ihi ihr =>
    exact ⟨tag named.1, ihi named.2.1, ihr named.2.2⟩

theorem mapValues_all {P : Str × Str → Prop} (h : ∀ name value, P (name, g value))
    (content : Content) : (content.mapValues g).All P := by
  induction content with
  | nil => trivial
  | leaf name attrs rest ih => exact ⟨List.forall_mem_map.2 fun a _ => h a.1 a.2, ih⟩
  | element name attrs inner rest ihi ihr =>
    exact ⟨List.forall_mem_map.2 fun a _ => h a.1 a.2, ihi, ihr⟩

theorem mapValues_all_of {P Q : Str × Str → Prop} (h : ∀ a, Q a → P (a.1, g a.2))
    (all : content.All Q) : (content.mapValues g).All P := by
  induction content with
  | nil => trivial
  | leaf name attrs rest ih => exact ⟨List.forall_mem_map.2 fun a ha => h a (all.1 a ha), ih all.2⟩
  | element name attrs inner rest ihi ihr =>
    exact ⟨List.forall_mem_map.2 fun a ha => h a (all.1 a ha), ihi all.2.1, ihr all.2.2⟩

/-- The characters of printed elements are those of names, of values and of the markup. -/
theorem print_forall {P : Char → Prop} (markup : ∀ c ∈ "\t\n</>=\" ".toList, P c)
    (names : ∀ c, isNameChar c = true → P c) (named : content.Named)
    (values : content.All fun a => ∀ c ∈ a.2, P c) (depth : ℕ) : ∀ c ∈ content.print depth, P c := by
  have tabs : ∀ n, ∀ c ∈ List.replicate n '\t', P c := fun n c hc =>
    List.eq_of_mem_replicate hc ▸ markup '\t' (by decide)
  have marks : ∀ s : Str, s ⊆ "\t\n</>=\" ".toList → ∀ c ∈ s, P c := fun s hs c hc =>
    markup c (hs hc)
  have append : ∀ s t : Str, (∀ c ∈ s, P c) → (∀ c ∈ t, P c) → ∀ c ∈ s ++ t, P c :=
    fun s t hs ht c hc => (List.mem_append.1 hc).elim (hs c) (ht c)
  have tag : ∀ name attrs empty, TagNamed name attrs → (∀ a ∈ attrs, ∀ c ∈ a.2, P c) →
      ∀ c ∈ printTag ⟨name, attrs, empty⟩, P c := by
    rintro name attrs empty ⟨⟨-, hname⟩, hnames, -⟩ hvalues
    have attributes : ∀ c ∈ printAttributes attrs, P c := by
      intro c hc
      obtain ⟨a, ha, hc⟩ := List.mem_flatMap.1 hc
      refine append [' '] _ (marks _ (by decide)) ?_ c hc
      refine append _ ['"'] (append a.1 ('=' :: '"' :: a.2) (fun c hc => names c ((hnames a ha).2 c hc))
        ?_) (marks _ (by decide))
      exact append ['=', '"'] a.2 (marks _ (by decide)) (hvalues a ha)
    refine append ['<'] _ (marks _ (by decide)) (append name _ (fun c hc => names c (hname c hc))
      (append _ _ attributes ?_))
    cases empty with
    | true => exact marks [' ', '/', '>'] (by decide)
    | false => exact marks ['>'] (by decide)
  induction content generalizing depth with
  | nil => exact fun _ h => absurd h List.not_mem_nil
  | leaf name attrs rest ih =>
    exact append _ _ (append _ _ (append _ _ (tabs depth) (tag name attrs true named.1 values.1))
      (marks _ (by decide))) (ih named.2 values.2 depth)
  | element name attrs inner rest ihi ihr =>
    have opening := append _ _ (append _ _ (tabs depth) (tag name attrs false named.1 values.1))
      (marks ['\n'] (by decide))
    have closing := append _ _ (append _ _ (marks "</".toList (by decide))
      fun c hc => names c (named.1.1.2 c hc)) (marks ">\n".toList (by decide))
    exact append _ _ (append _ _ (append _ _ (append _ _ opening
      (ihi named.2.1 values.2.1 (depth + 1))) (tabs depth)) closing) (ihr named.2.2 values.2.2 depth)

theorem mapValues_isRoot (content : Content) : (content.mapValues g).isRoot = content.isRoot := by
  cases content with
  | nil => rfl
  | leaf name attrs rest => cases rest <;> rfl
  | element name attrs inner rest => cases rest <;> rfl

end Content

/-- Texts for the values are read back exactly if each of them is. -/
theorem Content.decode_mapValues (g : Str → Str) (content : Content) :
    (content.mapValues g).decode = some content ↔
      content.All fun a => readValue none (g a.2) = some a.2 := by
  have attributes : ∀ attrs : List (Str × Str),
      ((attrs.map fun a => (a.1, g a.2)).mapM fun a => (readValue none a.2).map (a.1, ·)) =
        some attrs ↔ ∀ a ∈ attrs, readValue none (g a.2) = some a.2 := by
    intro attrs
    induction attrs with
    | nil => simp
    | cons a attrs ih =>
      rw [List.map_cons, List.mapM_cons, List.forall_mem_cons, ← ih]
      simp only [Option.bind_eq_bind, Option.bind_eq_some_iff, Option.map_eq_some_iff]
      constructor
      · rintro ⟨_, ⟨v, hv, rfl⟩, vs, hvs, h⟩
        obtain ⟨ha, rfl⟩ := List.cons.inj (Option.some.inj h)
        exact ⟨hv.trans (congrArg some (congrArg Prod.snd ha)), hvs⟩
      · exact fun ⟨hv, hvs⟩ => ⟨a, ⟨a.2, hv, rfl⟩, attrs, hvs, rfl⟩
  induction content with
  | nil => simp [mapValues, decode, All]
  | leaf name attrs rest ih =>
    refine Iff.trans ?_ (and_congr (attributes attrs) ih)
    rw [mapValues, decode]
    constructor
    · intro h
      obtain ⟨attrs', hattrs, h⟩ := Option.bind_eq_some_iff.1 h
      obtain ⟨rest', hrest, h⟩ := Option.bind_eq_some_iff.1 h
      cases h
      exact ⟨hattrs, hrest⟩
    · rintro ⟨hattrs, hrest⟩
      rw [hattrs, hrest]
      rfl
  | element name attrs inner rest ihi ihr =>
    refine Iff.trans ?_ (and_congr (attributes attrs) (and_congr ihi ihr))
    rw [mapValues, decode]
    constructor
    · intro h
      obtain ⟨attrs', hattrs, h⟩ := Option.bind_eq_some_iff.1 h
      obtain ⟨inner', hinner, h⟩ := Option.bind_eq_some_iff.1 h
      obtain ⟨rest', hrest, h⟩ := Option.bind_eq_some_iff.1 h
      cases h
      exact ⟨hattrs, hinner, hrest⟩
    · rintro ⟨hattrs, hinner, hrest⟩
      rw [hattrs, hinner, hrest]
      rfl

end Xml
