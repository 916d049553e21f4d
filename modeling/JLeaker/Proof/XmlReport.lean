import JLeaker.Lib.Run
import JLeaker.Lib.XmlDocument
import JLeaker.Model.XmlReport
import JLeaker.Proof.Finished
import JLeaker.Proof.XmlRoundTrip

/-!
# The report is an XML document

What is printed for a dump is one document, with every value escaped: `reportContent` says which.  A
reader gets this document back if and only if every value is plain.
-/

namespace JLeaker

open CString
open Xml (Content)

variable {Obj : Type} (methods : JavaMethods Obj) (numElementsToDump : ℤ)

/-! ## What the report says -/

/-- Empty elements before others. -/
def leaves (elements : List XmlElement) (rest : Content) : Content :=
  elements.foldr (fun e rest => .leaf e.tag e.attrs rest) rest

/-- The element for an object of a collection. -/
def normalElement (obj : Option Obj) : Except PrintFault XmlElement :=
  match utfOf methods obj with
  | none => .error .nullString
  | some value => .ok ⟨"collection-element".toList, [("value".toList, value)]⟩

/-- The element for an entry of a map. -/
def entryElement (obj : Option Obj) : Except PrintFault XmlElement :=
  match obj with
  | none => .error .nullReceiver
  | some obj =>
    match utfOf methods (methods.getKey obj), utfOf methods (methods.getValue obj) with
    | some key, some value =>
      .ok ⟨"map-element".toList, [("key".toList, key), ("value".toList, value)]⟩
    | _, _ => .error .nullString

/-- The elements for as many objects as are printed. -/
def elementsOf (single : Option Obj → Except PrintFault XmlElement) :
    ℤ → List (Option Obj) → Except PrintFault (List XmlElement)
  | _, [] => .ok []
  | limit, obj :: rest =>
    if limit > 0 then do
      let element ← single obj
      let elements ← elementsOf single (limit - 1) rest
      return element :: elements
    else .ok []

/-- The elements for what the iterator of a collection returns. -/
def collectionElements (single : Option Obj → Except PrintFault XmlElement) (collection : Obj) :
    Except PrintFault (List XmlElement) :=
  match methods.iterator collection with
  | none => if numElementsToDump > 0 then .error .nullReceiver else .ok []
  | some objects => elementsOf single numElementsToDump objects

/-- The elements for the entries of a map, or the element for an error. -/
def entriesElements (error : Str) (entries : Option Obj) : Except PrintFault (List XmlElement) :=
  match entries with
  | none => .ok [⟨"error".toList, [("message".toList, error)]⟩]
  | some entries => collectionElements methods numElementsToDump (entryElement methods) entries

/-- The element for a container that is an instance of the class descriptor with that index. -/
def containerElements (idx : ℕ) (obj : Obj) : Except PrintFault (Str × List XmlElement) :=
  match idx with
  | 0 => do
    let elements ← collectionElements methods numElementsToDump (normalElement methods) obj
    return ("collection".toList, elements)
  | 1 => do
    let elements ← entriesElements methods numElementsToDump
      "Failed to invoke entrySet() on this map".toList (methods.entrySet obj)
    return ("map".toList, elements)
  | 2 => do
    let elements ← entriesElements methods numElementsToDump
      "Failed to invoke entries() on this multi-map".toList (methods.entries obj)
    return ("multi-map".toList, elements)
  | _ => .error .nullReceiver

/-- The references of a leak, if they are printed. -/
def referencesContent : Option (Str × List XmlElement) → Content
  | none => .nil
  | some (tag, elements) => .element tag [] (leaves elements .nil) .nil

/-- The element for a leak, before others: `elements` are those for its container. -/
def leakElement (lo : LeakingObject Obj) (tag : Str) (elements : List XmlElement) (rest : Content) :
    Content :=
  .element "leaking-object".toList
    [("class".toList, lo.classname.toList), ("size".toList, snprintf 32 (decimal lo.leakSize))]
    (.element tag [] (leaves elements .nil) (referencesContent lo.references)) rest

/-- The elements for the leaks. -/
def leaksContent : List (ℕ × LeakingObject Obj) → Except PrintFault Content
  | [] => .ok .nil
  | leak :: leaks => do
    let (tag, elements) ← containerElements methods numElementsToDump leak.1 leak.2.obj
    let rest ← leaksContent leaks
    return leakElement leak.2 tag elements rest

/-- The document. -/
def reportContent (leaks : List (ℕ × LeakingObject Obj)) : Except PrintFault Content := do
  let contents ← leaksContent methods numElementsToDump leaks
  return .element "memory-leaks".toList [] contents .nil

/-! ## What is printed -/

variable (f : OutputStream)

/-- An element as it is printed. -/
def elementText (xmlDepth : ℕ) (e : XmlElement) : Str :=
  completeXmlElement f xmlDepth e.tag e.attrs

/-- The elements, with their values escaped. -/
theorem print_leaves (xmlDepth : ℕ) (elements : List XmlElement) (rest : Content) :
    ((leaves elements rest).mapValues escapeString).print xmlDepth =
      elements.flatMap (elementText f xmlDepth) ++ (rest.mapValues escapeString).print xmlDepth := by
  induction elements with
  | nil => rfl
  | cons e elements ih =>
    have line := echoXmlElement_line f xmlDepth ⟨e.tag, e.attrs, true⟩
    show List.replicate xmlDepth '\t' ++ Xml.printTag (escapedTag ⟨e.tag, e.attrs, true⟩) ++ ['\n'] ++
      ((leaves elements rest).mapValues escapeString).print xmlDepth = _
    rw [← line, ih, List.flatMap_cons, List.append_assoc]
    rfl

/-- An element with others in it. -/
theorem print_element (xmlDepth : ℕ) (tag : Str) (attrs : List (Str × Str)) (inner rest : Content) :
    ((Content.element tag attrs inner rest).mapValues escapeString).print xmlDepth =
      (openXmlElement f xmlDepth tag attrs).1 ++
        (inner.mapValues escapeString).print (xmlDepth + 1) ++
        (closeXmlElement f (xmlDepth + 1) tag).1 ++
        (rest.mapValues escapeString).print xmlDepth := by
  have line := echoXmlElement_line f xmlDepth ⟨tag, attrs, false⟩
  unfold openXmlElement closeXmlElement
  rw [show echoXmlElement f xmlDepth tag [] attrs = _ from line]
  simp only [Content.mapValues, Content.print, applyXmlIdentation_eq, Nat.add_sub_cancel, myPrintf_eq,
    escapedTag, List.append_assoc]

/-! ## The containers -/

section

variable {methods} {f}

theorem printElements_eq {xmlDepth : ℕ} {print : Option Obj → Except PrintFault Str}
    {single : Option Obj → Except PrintFault XmlElement}
    (same : ∀ obj, print obj = (single obj).map (elementText f xmlDepth)) (limit : ℤ)
    (objects : List (Option Obj)) :
    printElements print limit objects =
      (elementsOf single limit objects).map fun elements =>
        elements.flatMap (elementText f xmlDepth) := by
  induction objects generalizing limit with
  | nil => rfl
  | cons obj objects ih =>
    unfold printElements elementsOf
    split_ifs
    · rw [same, ih]
      cases single obj with
      | error e => rfl
      | ok element => cases elementsOf single (limit - 1) objects <;> rfl
    · rfl

theorem printCollectionUsingMethod_eq (methods : JavaMethods Obj) {xmlDepth : ℕ}
    {print : Option Obj → Except PrintFault Str} {single : Option Obj → Except PrintFault XmlElement}
    (same : ∀ obj, print obj = (single obj).map (elementText f xmlDepth)) (collection : Obj) :
    printCollectionUsingMethod methods print numElementsToDump collection =
      (collectionElements methods numElementsToDump single collection).map fun elements =>
        elements.flatMap (elementText f xmlDepth) := by
  unfold printCollectionUsingMethod collectionElements
  cases methods.iterator collection with
  | none =>
    dsimp only
    split_ifs <;> rfl
  | some objects => exact printElements_eq same numElementsToDump objects

theorem printNormalObject_eq (methods : JavaMethods Obj) (f : OutputStream) (xmlDepth : ℕ)
    (obj : Option Obj) :
    printNormalObject methods f xmlDepth obj =
      (normalElement methods obj).map (elementText f xmlDepth) := by
  unfold printNormalObject normalElement
  cases utfOf methods obj <;> rfl

theorem printEntryObject_eq (methods : JavaMethods Obj) (f : OutputStream) (xmlDepth : ℕ)
    (obj : Option Obj) :
    printEntryObject methods f xmlDepth obj =
      (entryElement methods obj).map (elementText f xmlDepth) := by
  unfold printEntryObject entryElement
  cases obj with
  | none => rfl
  | some obj =>
    dsimp only
    cases utfOf methods (methods.getKey obj) with
    | none => rfl
    | some key => cases utfOf methods (methods.getValue obj) <;> rfl

/-- The text of a container. -/
theorem printFn_eq (idx xmlDepth : ℕ) (obj : Obj) :
    printFn methods f numElementsToDump idx xmlDepth obj =
      (containerElements methods numElementsToDump idx obj).map fun (tag, elements) =>
        (openXmlElement f xmlDepth tag []).1 ++ elements.flatMap (elementText f (xmlDepth + 1)) ++
          (closeXmlElement f (xmlDepth + 1) tag).1 := by
  -- the body that the printing of the two kinds of maps shares
  have entries : ∀ (tag error : Str) (entries : Option Obj),
      printEntries methods f xmlDepth numElementsToDump tag error entries =
        (entriesElements methods numElementsToDump error entries).map fun elements =>
          (openXmlElement f xmlDepth tag []).1 ++ elements.flatMap (elementText f (xmlDepth + 1)) ++
            (closeXmlElement f (xmlDepth + 1) tag).1 := by
    intro tag error entries
    unfold printEntries entriesElements
    cases entries with
    | none =>
      show _ = Except.ok ((openXmlElement f xmlDepth tag []).1 ++
        [(⟨"error".toList, [("message".toList, error)]⟩ : XmlElement)].flatMap
          (elementText f (xmlDepth + 1)) ++ (closeXmlElement f (xmlDepth + 1) tag).1)
      rw [List.flatMap_singleton]
      rfl
    | some entries =>
      have elements := printCollectionUsingMethod_eq numElementsToDump methods
        (printEntryObject_eq methods f (xmlDepth + 1)) entries
      dsimp only [openXmlElement]
      rw [elements]
      cases collectionElements methods numElementsToDump (entryElement methods) entries <;> rfl
  match idx with
  | 0 =>
    have elements := printCollectionUsingMethod_eq numElementsToDump methods
      (printNormalObject_eq methods f (xmlDepth + 1)) obj
    unfold printFn printCollection containerElements
    dsimp only [openXmlElement]
    rw [elements]
    cases collectionElements methods numElementsToDump (normalElement methods) obj <;> rfl
  | 1 =>
    unfold printFn printMap containerElements
    dsimp only
    rw [entries]
    cases entriesElements methods numElementsToDump _ (methods.entrySet obj) <;> rfl
  | 2 =>
    unfold printFn printMultiMap containerElements
    dsimp only
    rw [entries]
    cases entriesElements methods numElementsToDump _ (methods.entries obj) <;> rfl
  | n + 3 => rfl

end

/-! ## The report -/

theorem printReferencesOf_eq (xmlDepth : ℕ) (references : Option (Str × List XmlElement)) :
    printReferencesOf f xmlDepth references =
      (((referencesContent references).mapValues escapeString).print xmlDepth, xmlDepth) := by
  cases references with
  | none => rfl
  | some list =>
    obtain ⟨tag, elements⟩ := list
    rw [referencesContent, print_element f, print_leaves f]
    show (_, _) = (_, _)
    simp only [openXmlElement, closeXmlElement, Content.mapValues, Content.print, List.append_nil,
      Nat.add_sub_cancel]
    rfl

/-- A leak. -/
theorem printLeakingObject_eq (xmlDepth idx : ℕ) (lo : LeakingObject Obj) :
    printLeakingObject methods f numElementsToDump xmlDepth (idx, lo) =
      (containerElements methods numElementsToDump idx lo.obj).map fun (tag, elements) =>
        (((leakElement lo tag elements .nil).mapValues escapeString).print xmlDepth, xmlDepth) := by
  unfold printLeakingObject
  dsimp only [openXmlElement]
  rw [printFn_eq, printReferencesOf_eq]
  cases containerElements methods numElementsToDump idx lo.obj with
  | error e => rfl
  | ok container =>
    obtain ⟨tag, elements⟩ := container
    show Except.ok (_, _) = Except.ok (_, _)
    rw [leakElement, print_element f, print_element f, print_leaves f]
    simp only [openXmlElement, closeXmlElement, Content.mapValues, Content.print, List.append_nil,
      Nat.add_sub_cancel, List.append_assoc]

/-- A leak before others. -/
theorem print_leakElement (xmlDepth : ℕ) (lo : LeakingObject Obj) (tag : Str)
    (elements : List XmlElement) (rest : Content) :
    ((leakElement lo tag elements rest).mapValues escapeString).print xmlDepth =
      ((leakElement lo tag elements .nil).mapValues escapeString).print xmlDepth ++
        (rest.mapValues escapeString).print xmlDepth := by
  simp only [leakElement, Content.mapValues, Content.print, List.append_nil, List.append_assoc]

/-- The elements of some leaks. -/
theorem printLeakingObjects_eq (xmlDepth : ℕ) (leaks : List (ℕ × LeakingObject Obj)) :
    printLeakingObjects methods f numElementsToDump leaks xmlDepth =
      (leaksContent methods numElementsToDump leaks).map fun content =>
        ((content.mapValues escapeString).print xmlDepth, xmlDepth) := by
  induction leaks with
  | nil => rfl
  | cons leak leaks ih =>
    obtain ⟨idx, lo⟩ := leak
    unfold printLeakingObjects leaksContent
    rw [printLeakingObject_eq]
    cases containerElements methods numElementsToDump idx lo.obj with
    | error e => rfl
    | ok container =>
      obtain ⟨tag, elements⟩ := container
      simp only [Except.map, Run.ok_bind]
      rw [ih]
      cases leaksContent methods numElementsToDump leaks with
      | error e => rfl
      | ok rest =>
        show Except.ok (_, _) = Except.ok (_, _)
        rw [print_leakElement xmlDepth lo tag elements rest]

/-- `begin_xml_output` to a file. -/
def declaration : Str := "<?xml version=\"1.0\" encoding=\"ISO-8859-1\"?>".toList

theorem beginXmlOutput_eq : beginXmlOutput f = declaration ++ ['\n'] :=
  myPrintf_eq f _

/-- What is printed around the elements for the leaks. -/
theorem reportText_eq (content : Content) :
    reportText f ((content.mapValues escapeString).print 1) 1 =
      (declaration ++ '\n' ::
        ((Content.element "memory-leaks".toList [] content .nil).mapValues escapeString).print 0, 0) := by
  unfold reportText
  rw [print_element f, beginXmlOutput_eq]
  show (_, _) = (_, _)
  simp only [openXmlElement, closeXmlElement, Content.mapValues, Content.print, List.append_nil,
    Nat.add_sub_cancel, List.append_assoc, List.cons_append, List.nil_append]

/-- The whole report. -/
theorem printReport_eq (leaks : List (ℕ × LeakingObject Obj)) :
    printReport methods f numElementsToDump leaks =
      (reportContent methods numElementsToDump leaks).map fun content =>
        (declaration ++ '\n' :: (content.mapValues escapeString).print 0, 0) := by
  unfold printReport reportContent
  dsimp only [openXmlElement]
  rw [printLeakingObjects_eq]
  cases leaksContent methods numElementsToDump leaks with
  | error e => rfl
  | ok content => exact congrArg Except.ok (reportText_eq f content)

/-! ## The names in the report -/

/-- The element for a reference. -/
def IsReference (e : XmlElement) : Prop := ∃ msg, e = ⟨"reference".toList, [("location".toList, msg)]⟩

/-- The list of references of a leak, as `printLeak` makes it. -/
def IsReferenceList (references : Option (Str × List XmlElement)) : Prop :=
  ∀ list ∈ references, (list.1 = "references".toList ∨ list.1 = "reference-chain-to-root".toList) ∧
    ∀ e ∈ list.2, IsReference e

/-- A tag with names of letters and hyphens. -/
theorem tagNamed_of_all {name : Str} {attrs : List (Str × Str)}
    (letters : ((name :: attrs.map Prod.fst).all fun s => s.head?.any Xml.isNameStart &&
      s.all Xml.isNameChar) = true) (nodup : (attrs.map Prod.fst).Nodup) :
    Content.TagNamed name attrs := by
  have isName : ∀ s ∈ name :: attrs.map Prod.fst, Xml.IsName s := by
    intro s hs
    have := List.all_eq_true.1 letters s hs
    rw [Bool.and_eq_true, Option.any_eq_true, List.all_eq_true] at this
    exact this
  exact ⟨isName _ List.mem_cons_self,
    fun a ha => isName _ (List.mem_cons_of_mem _ (List.mem_map_of_mem ha)), nodup⟩

theorem named_leaves {elements : List XmlElement} {rest : Content}
    (named : ∀ e ∈ elements, Content.TagNamed e.tag e.attrs) (hrest : rest.Named) :
    (leaves elements rest).Named := by
  induction elements with
  | nil => exact hrest
  | cons e elements ih =>
    exact ⟨named e List.mem_cons_self, ih fun e he => named e (List.mem_cons_of_mem _ he)⟩

theorem referencesContent_named {references : Option (Str × List XmlElement)}
    (h : IsReferenceList references) : (referencesContent references).Named := by
  cases references with
  | none => trivial
  | some list =>
    obtain ⟨tag, elements⟩ := h list rfl
    refine ⟨?_, named_leaves (fun e he => ?_) trivial, trivial⟩
    · rcases tag with tag | tag <;> rw [tag] <;> exact tagNamed_of_all (by decide) (by decide)
    · obtain ⟨msg, rfl⟩ := elements e he
      exact tagNamed_of_all (by simp only [List.map_cons, List.map_nil]; decide) (by simp)

section

variable {methods} {numElementsToDump}

theorem elementsOf_all {P : XmlElement → Prop} {single : Option Obj → Except PrintFault XmlElement}
    (each : ∀ obj e, single obj = .ok e → P e) {limit : ℤ} {objects : List (Option Obj)}
    {elements : List XmlElement} (h : elementsOf single limit objects = .ok elements) :
    ∀ e ∈ elements, P e := by
  induction objects generalizing limit elements with
  | nil =>
    cases h
    simp
  | cons obj objects ih =>
    unfold elementsOf at h
    split_ifs at h
    · obtain ⟨element, first, h⟩ := Run.bind_eq_ok.1 h
      obtain ⟨rest, others, h⟩ := Run.bind_eq_ok.1 h
      cases h
      intro e he
      rcases List.mem_cons.1 he with rfl | he
      · exact each obj e first
      · exact ih others e he
    · cases h
      simp

theorem collectionElements_all {P : XmlElement → Prop}
    {single : Option Obj → Except PrintFault XmlElement}
    (each : ∀ obj e, single obj = .ok e → P e) {collection : Obj} {elements : List XmlElement}
    (h : collectionElements methods numElementsToDump single collection = .ok elements) :
    ∀ e ∈ elements, P e := by
  unfold collectionElements at h
  split at h
  · split_ifs at h
    cases h
    simp
  · exact elementsOf_all each h

theorem normalElement_named {obj : Option Obj} {e : XmlElement}
    (h : normalElement methods obj = .ok e) : Content.TagNamed e.tag e.attrs := by
  unfold normalElement at h
  split at h
  · cases h
  · cases h
    exact tagNamed_of_all (by simp only [List.map_cons, List.map_nil]; decide) (by simp)

theorem entryElement_named {obj : Option Obj} {e : XmlElement}
    (h : entryElement methods obj = .ok e) : Content.TagNamed e.tag e.attrs := by
  unfold entryElement at h
  split at h
  · cases h
  · split at h
    · cases h
      exact tagNamed_of_all (by simp only [List.map_cons, List.map_nil]; decide)
        (by simp only [List.map_cons, List.map_nil]; decide)
    · cases h

theorem containerElements_named {idx : ℕ} {obj : Obj} {tag : Str} {elements : List XmlElement}
    (h : containerElements methods numElementsToDump idx obj = .ok (tag, elements)) :
    Content.TagNamed tag [] ∧ ∀ e ∈ elements, Content.TagNamed e.tag e.attrs := by
  have entries : ∀ {error : Str} {entries : Option Obj} {elements : List XmlElement},
      entriesElements methods numElementsToDump error entries = .ok elements →
      ∀ e ∈ elements, Content.TagNamed e.tag e.attrs := by
    intro error entries elements h
    unfold entriesElements at h
    split at h
    · cases h
      intro e he
      rw [List.mem_singleton.1 he]
      exact tagNamed_of_all (by simp only [List.map_cons, List.map_nil]; decide) (by simp)
    · exact collectionElements_all (fun _ _ => entryElement_named) h
  unfold containerElements at h
  split at h
  · obtain ⟨es, hes, h⟩ := Run.bind_eq_ok.1 h
    cases h
    exact ⟨tagNamed_of_all (by decide) (by decide),
      collectionElements_all (fun _ _ => normalElement_named) hes⟩
  · obtain ⟨es, hes, h⟩ := Run.bind_eq_ok.1 h
    cases h
    exact ⟨tagNamed_of_all (by decide) (by decide), entries hes⟩
  · obtain ⟨es, hes, h⟩ := Run.bind_eq_ok.1 h
    cases h
    exact ⟨tagNamed_of_all (by decide) (by decide), entries hes⟩
  · cases h

theorem leaksContent_named {leaks : List (ℕ × LeakingObject Obj)}
    (references : ∀ leak ∈ leaks, IsReferenceList leak.2.references) {content : Content}
    (h : leaksContent methods numElementsToDump leaks = .ok content) : content.Named := by
  induction leaks generalizing content with
  | nil =>
    cases h
    trivial
  | cons leak leaks ih =>
    obtain ⟨⟨tag, elements⟩, container, h⟩ := Run.bind_eq_ok.1 h
    obtain ⟨rest, others, h⟩ := Run.bind_eq_ok.1 h
    cases h
    obtain ⟨tagNamed, elementsNamed⟩ := containerElements_named container
    refine ⟨tagNamed_of_all (by simp only [List.map_cons, List.map_nil]; decide)
      (by simp only [List.map_cons, List.map_nil]; decide), ⟨tagNamed,
        named_leaves elementsNamed trivial,
        referencesContent_named (references leak List.mem_cons_self)⟩,
      ih (fun leak hleak => references leak (List.mem_cons_of_mem _ hleak)) others⟩

theorem reportContent_named {leaks : List (ℕ × LeakingObject Obj)}
    (references : ∀ leak ∈ leaks, IsReferenceList leak.2.references) {content : Content}
    (h : reportContent methods numElementsToDump leaks = .ok content) :
    content.Named ∧ ∃ contents, content = .element "memory-leaks".toList [] contents .nil := by
  obtain ⟨contents, hleaks, h⟩ := Run.bind_eq_ok.1 h
  cases h
  exact ⟨⟨tagNamed_of_all (by decide) (by decide), leaksContent_named references hleaks, trivial⟩,
    contents, rfl⟩

end

/-! ## Reading the report -/

/-- Every text between quotes is plain. -/
def PlainContent (content : Content) : Prop := content.All fun a => ∀ c ∈ a.2, IsPlain c

theorem readDeclaration_declaration (s : Str) :
    Xml.readDeclaration (declaration ++ s) = some s := rfl

/-- An XML reader gets the document back from a file exactly if its values are plain. -/
theorem readDocument_printReport {leaks : List (ℕ × LeakingObject Obj)}
    (references : ∀ leak ∈ leaks, IsReferenceList leak.2.references) {text : Str} {xmlDepth : ℕ}
    (printed : printReport methods f numElementsToDump leaks = .ok (text, xmlDepth)) :
    xmlDepth = 0 ∧ ∃ content, reportContent methods numElementsToDump leaks = .ok content ∧
      (Xml.readDocument text = some content ↔ PlainContent content) := by
  rw [printReport_eq] at printed
  cases hcontent : reportContent methods numElementsToDump leaks with
  | error e =>
    rw [hcontent] at printed
    cases printed
  | ok content =>
    rw [hcontent] at printed
    cases printed
    obtain ⟨named, contents, rfl⟩ := reportContent_named references hcontent
    refine ⟨rfl, _, rfl, ?_⟩
    have line : declaration ++ '\n' ::
        ((Content.element "memory-leaks".toList [] contents .nil).mapValues escapeString).print 0 =
        declaration ++ ['\n'] ++
          ((Content.element "memory-leaks".toList [] contents .nil).mapValues escapeString).print 0 := by
      rw [List.append_assoc]
      rfl
    have noQuote : ∀ name value : Str, '"' ∉ (name, escapeString value).2 := by
      intro _ value
      rw [escapeString_eq]
      exact quote_notMem_escaped value
    rw [line, Xml.readDocument_printed (Content.mapValues_named _ named)
      (Content.mapValues_all _ noQuote _) (Content.mapValues_isRoot _ _)
      (readDeclaration_declaration _), Content.decode_mapValues]
    simp only [readValue_escapeString_iff]
    exact Iff.rfl

/-! ## The references of a run -/

section

variable [DecidableEq Obj] (pr : Printer Obj)

theorem printEach_isReference {objectsWithTag : ℕ → List Obj} {refs : List MemoryReferer}
    {nodes nodes' : CHeap (MemoryNode Obj)} {elements : List XmlElement}
    (h : pr.printEach objectsWithTag refs nodes = .ok (elements, nodes')) :
    ∀ e ∈ elements, IsReference e := by
  induction refs generalizing nodes elements with
  | nil =>
    cases h
    simp
  | cons ref refs ih =>
    obtain ⟨⟨element, nodes₁⟩, first, h⟩ := Run.bind_eq_ok.1 h
    obtain ⟨⟨rest, nodes₂⟩, others, h⟩ := Run.bind_eq_ok.1 h
    cases h
    intro e he
    rcases List.mem_append.1 he with he | he
    · obtain ⟨nodes₃, -, first⟩ := Run.bind_eq_ok.1 first
      obtain ⟨msg, -, first⟩ := Run.bind_eq_ok.1 first
      cases first
      obtain ⟨text, -, rfl⟩ := List.mem_map.1 he
      exact ⟨text, rfl⟩
    · exact ih others e he

omit [DecidableEq Obj] in
/-- The tags under which references are printed. -/
theorem findLeak_tag {env : Agent Obj} {objectsWithTag : ℕ → List Obj} {fuel : ℕ}
    {isNeedReferences : Bool} {leak : LeakingNode} {st st' : ChainState Obj} {classname : String}
    {o : Obj} {refs : Option (Str × List MemoryReferer)}
    (h : pr.findLeak env objectsWithTag fuel isNeedReferences leak st =
      .ok (some (classname, o, refs), st')) :
    ∀ list ∈ refs, list.1 = "references".toList ∨ list.1 = "reference-chain-to-root".toList := by
  unfold Printer.findLeak at h
  cases isNeedReferences with
  | false =>
    simp only [Bool.false_eq_true, if_false, Run.ok_bind] at h
    split_ifs at h
    · obtain ⟨nodes, -, h⟩ := Run.bind_eq_ok.1 h
      obtain ⟨n, -, h⟩ := Run.bind_eq_ok.1 h
      split at h
      · cases h
        rintro list ⟨⟩
      · cases h
    · cases h
  | true =>
    simp only [if_true] at h
    obtain ⟨⟨orderedRefs, st₁⟩, -, h⟩ := Run.bind_eq_ok.1 h
    dsimp only at h
    split_ifs at h
    · obtain ⟨nodes, -, h⟩ := Run.bind_eq_ok.1 h
      obtain ⟨n, -, h⟩ := Run.bind_eq_ok.1 h
      split at h
      · cases h
        -- the chain, or all references of the node
        cases orderedRefs.bind (printedChain st₁) with
        | none =>
          rintro list ⟨⟩
          exact .inl rfl
        | some chain =>
          rintro list ⟨⟩
          exact .inr rfl
      · cases h
    · cases h

theorem printLeak_isReferenceList {env : Agent Obj} {objectsWithTag : ℕ → List Obj} {fuel : ℕ}
    {isNeedReferences : Bool} {leak : LeakingNode} {st st' : ChainState Obj} {lo : LeakingObject Obj}
    (h : pr.printLeak env objectsWithTag fuel isNeedReferences leak st = .ok (some lo, st')) :
    IsReferenceList lo.references := by
  obtain ⟨⟨found, st₁⟩, find, h⟩ := Run.bind_eq_ok.1 h
  cases found with
  | none => cases h
  | some found =>
    obtain ⟨classname, o, refs⟩ := found
    obtain ⟨⟨references, nodes⟩, prints, h⟩ := Run.bind_eq_ok.1 h
    cases h
    intro list mem
    cases refs with
    | none =>
      cases prints
      cases mem
    | some refs =>
      obtain ⟨⟨elements, nodes'⟩, each, prints⟩ := Run.bind_eq_ok.1 prints
      cases prints
      cases mem
      exact ⟨findLeak_tag pr find _ rfl, printEach_isReference pr each⟩

theorem printed_isReferenceList {env : Agent Obj} {objectsWithTag : ℕ → List Obj} {fuel : ℕ}
    {isNeedReferences : Bool} {lst : List LeakingNode} {st st' : ChainState Obj}
    {printed : List (Option (LeakingObject Obj))}
    (h : pr.printReferencesChainForLeakingNodes env objectsWithTag fuel isNeedReferences lst st =
      .ok (printed, st')) {lo : LeakingObject Obj} (hlo : some lo ∈ printed) :
    IsReferenceList lo.references := by
  induction lst generalizing st printed with
  | nil =>
    cases h
    cases hlo
  | cons leak lst ih =>
    obtain ⟨⟨first, st₁⟩, hfirst, h⟩ := Run.bind_eq_ok.1 h
    obtain ⟨⟨rest, st₂⟩, hrest, h⟩ := Run.bind_eq_ok.1 h
    cases h
    rcases List.mem_cons.1 hlo with rfl | hlo
    · exact printLeak_isReferenceList pr hfirst
    · exact ih hrest hlo

/-- What is printed for a leak besides its object is one list of references. -/
theorem printedLeaks_isReferenceList {env : Agent Obj} {objectsWithTag : ℕ → List Obj} {fuel : ℕ}
    {isNeedReferences : Bool} {lst : List LeakingNode} {st st' : ChainState Obj}
    {printed : List (Option (LeakingObject Obj))}
    (run : pr.printReferencesChainForLeakingNodes env objectsWithTag fuel isNeedReferences lst st =
      .ok (printed, st')) (descriptors : List ℕ) :
    ∀ leak ∈ printedLeaks descriptors printed, IsReferenceList leak.2.references := by
  intro leak mem
  obtain ⟨⟨idx, lo?⟩, hzip, h⟩ := List.mem_filterMap.1 mem
  obtain ⟨lo, rfl, rfl⟩ := Option.map_eq_some_iff.1 h
  exact printed_isReferenceList pr run (List.of_mem_zip hzip).2

/-- The report of a dump is one document: `xml_depth` returns to zero, and an XML reader gets back the
leaks that were printed, exactly if their texts are plain. -/
theorem report_isDocument (env : Agent Obj) (objectsWithTag : ℕ → List Obj) (fuel : ℕ)
    (isNeedReferences : Bool) {lst : List LeakingNode} {st st' : ChainState Obj}
    {printed : List (Option (LeakingObject Obj))}
    (run : pr.printReferencesChainForLeakingNodes env objectsWithTag fuel isNeedReferences lst st =
      .ok (printed, st')) (descriptors : List ℕ) {text : Str} {xmlDepth : ℕ}
    (report : printReport methods f numElementsToDump (printedLeaks descriptors printed) =
      .ok (text, xmlDepth)) :
    xmlDepth = 0 ∧ ∃ content,
      reportContent methods numElementsToDump (printedLeaks descriptors printed) = .ok content ∧
        (Xml.readDocument text = some content ↔ PlainContent content) :=
  readDocument_printReport methods numElementsToDump f
    (printedLeaks_isReferenceList pr run descriptors) report

end

/-- What is printed for two leaks with chains of four and of three references. -/
def Sample.printedSharing : Except Fault (List (Option (LeakingObject (Fin 12))) ×
    ChainState (Fin 12)) := do
  let s ← sharedHolder.run
  printer.printReferencesChainForLeakingNodes sharedHolder.agent (objectsWithTag s.tags)
    (s.nodes.dom.card + 1) true sharedHolder.leaks ⟨s.nodes, []⟩

theorem report_isDocument_sharedHolder :
    ∃ printed st' text xmlDepth, Sample.printedSharing = .ok (printed, st') ∧
      printReport Sample.javaMethods .win32Sock 5 (printedLeaks [0, 0] printed) =
        .ok (text, xmlDepth) ∧
      xmlDepth = 0 ∧ (Xml.readDocument text).isSome := by
  obtain ⟨⟨printed, st'⟩, print, h⟩ := Run.exists_ok_of_any (x := Sample.printedSharing)
    (p := fun p => (printReport Sample.javaMethods .win32Sock 5
      (printedLeaks [0, 0] p.1)).toOption.any fun r => (Xml.readDocument r.1).isSome)
    (by decide +kernel)
  obtain ⟨⟨text, xmlDepth⟩, report, read⟩ := Run.exists_ok_of_any h
  obtain ⟨s, -, printed'⟩ := Run.bind_eq_ok.1 print
  obtain ⟨depth, -⟩ := report_isDocument Sample.javaMethods 5 .win32Sock Sample.printer
    Sample.sharedHolder.agent (Sample.objectsWithTag s.tags) (s.nodes.dom.card + 1) true printed'
      [0, 0] report
  exact ⟨printed, st', text, xmlDepth, print, report, depth, read⟩

end JLeaker
