import JLeaker.Proof.IniAccepted

/-!
# Configurations survive being written and read

A configuration names classes and, for fields of classes, limits.  Written as a configuration file, one
pair a line, it is what `ini_handler` puts into the two maps: the classes that are named, and for each
class the limits of its fields, the last one first.
-/

namespace JLeaker

open CString

/-! ## What `ini_handler` makes of entries -/

variable {cp : CPlatform}

theorem iniHandler_ignoreClasses (cp : CPlatform) (conf : Configuration) (e : IniEntry) :
    (iniHandler cp conf e.sectionName e.name e.value).2.ignoreClasses =
      if e.sectionName = "ignore_classes".toList then smPut conf.ignoreClasses e.name ()
      else conf.ignoreClasses := by
  unfold iniHandler
  by_cases hclasses : e.sectionName = "ignore_classes".toList
  · rw [if_pos hclasses, if_pos hclasses]
  rw [if_neg hclasses, if_neg hclasses]
  by_cases hsection : e.sectionName = "ignore_referenced_by".toList
  · rw [if_pos hsection]
    dsimp only
    by_cases hend : (strtol cp.longBits e.value).2 = []
    · rw [if_neg (not_not_intro hend)]
      rcases splitAtLastDot e.name with _ | ⟨classname, fieldName⟩
      · rfl
      · dsimp only
        split_ifs
        · rfl
        · rfl
    · rw [if_pos hend]
  · rw [if_neg hsection]

/-- The classes that are named. -/
theorem smGet_ignoreClasses (cp : CPlatform) (entries : List IniEntry) (counters : Counters)
    (classname : Str) :
    smGet (readEntries cp entries ⟨[], [], counters⟩).ignoreClasses classname =
      if ∃ e ∈ entries, e.sectionName = "ignore_classes".toList ∧ e.name = classname then some ()
      else none := by
  unfold readEntries
  induction entries using List.reverseRecOn with
  | nil =>
    rw [if_neg (by simp)]
    rfl
  | append_singleton entries e ih =>
    rw [List.foldl_append, List.foldl_cons, List.foldl_nil, iniHandler_ignoreClasses]
    by_cases hclasses : e.sectionName = "ignore_classes".toList
    · rw [if_pos hclasses, smGet_smPut, ih]
      by_cases heq : classname = e.name
      · rw [if_pos heq, if_pos ⟨e, by simp, hclasses, heq.symm⟩]
      · rw [if_neg heq]
        refine if_congr ⟨?_, ?_⟩ rfl rfl
        · rintro ⟨other, mem, here, name⟩
          exact ⟨other, List.mem_append_left _ mem, here, name⟩
        · rintro ⟨other, mem, here, name⟩
          rcases List.mem_append.1 mem with mem | mem
          · exact ⟨other, mem, here, name⟩
          · rw [List.mem_singleton.1 mem] at name
            exact absurd name.symm heq
    · rw [if_neg hclasses, ih]
      refine if_congr ⟨?_, ?_⟩ rfl rfl
      · rintro ⟨other, mem, here, name⟩
        exact ⟨other, List.mem_append_left _ mem, here, name⟩
      · rintro ⟨other, mem, here, name⟩
        rcases List.mem_append.1 mem with mem | mem
        · exact ⟨other, mem, here, name⟩
        · rw [List.mem_singleton.1 mem] at here
          exact absurd here hclasses

/-- `ini_handler` refuses no entry of these. -/
def Accepts (cp : CPlatform) (e : IniEntry) : Prop :=
  ∀ conf, (iniHandler cp conf e.sectionName e.name e.value).1 = true

theorem callHandler_readEntries (calls : List (ℕ × IniEntry))
    (accepts : ∀ call ∈ calls, Accepts cp call.2) (conf : Configuration) :
    callHandler (iniHandler cp) calls (0, conf) = (0, readEntries cp (calls.map Prod.snd) conf) := by
  unfold callHandler readEntries
  induction calls generalizing conf with
  | nil => rfl
  | cons call calls ih =>
    have accepted := accepts call List.mem_cons_self conf
    rw [List.foldl_cons, List.map_cons, List.foldl_cons]
    dsimp only
    rw [accepted]
    exact ih (fun other h => accepts other (List.mem_cons_of_mem _ h)) _

theorem splitAtLastDot_append (classname : Str) {fieldName : Str} (noDot : '.' ∉ fieldName) :
    splitAtLastDot (classname ++ '.' :: fieldName) = some (classname, fieldName) := by
  have plain : ∀ c ∈ fieldName.reverse, decide (c ≠ '.') = true := by
    intro c hc
    refine decide_eq_true ?_
    rintro rfl
    exact noDot (List.mem_reverse.1 hc)
  have rev : (classname ++ '.' :: fieldName).reverse =
      fieldName.reverse ++ '.' :: classname.reverse := by
    simp
  unfold splitAtLastDot
  rw [if_pos (by simp), rev, List.dropWhile_append_of_pos plain, List.takeWhile_append_of_pos plain,
    List.dropWhile_cons_of_neg (by simp), List.takeWhile_cons_of_neg (by simp), List.tail_cons,
    List.reverse_reverse, List.append_nil, List.reverse_reverse]

/-! ## Writing a configuration -/

/-- A field of a class, and its limit. -/
structure FieldLimit where
  classname : Str
  fieldName : Str
  limit : ℤ
  named : fieldName ≠ []
  noDot : '.' ∉ fieldName
  isInt : -2 ^ 31 ≤ limit ∧ limit < 2 ^ 31

/-- The name of the pair. -/
def FieldLimit.name (f : FieldLimit) : Str := f.classname ++ '.' :: f.fieldName

/-- The entry of the class. -/
def FieldLimit.ignoreField (f : FieldLimit) : IgnoreField := ⟨0, String.ofList f.fieldName, f.limit⟩

/-- A name that can stand on a line with a value. -/
def writableName (name : Str) : Bool :=
  readableName name && name.all (fun c => c ≠ '\n' && c ≠ '\x00') && name.length ≤ 186

/-- A line with a name and its value. -/
def pairItem (name value : Str) : IniItem := .pair [] name [] false [] value []

/-- The items of a configuration file. -/
def confItems (classes : List Str) (fields : List FieldLimit) : List IniItem :=
  .header [] "ignore_classes".toList [] :: (classes.map (pairItem · ['1']) ++
    .header [] "ignore_referenced_by".toList [] ::
      fields.map fun f => pairItem f.name (decimal f.limit))

/-- The entry of a class. -/
def classEntry (classname : Str) : IniEntry := ⟨"ignore_classes".toList, classname, ['1']⟩

/-- The entry of a field. -/
def FieldLimit.entry (f : FieldLimit) : IniEntry :=
  ⟨"ignore_referenced_by".toList, f.name, decimal f.limit⟩

/-- The entries of a configuration file. -/
def confEntries (classes : List Str) (fields : List FieldLimit) : List IniEntry :=
  classes.map classEntry ++ fields.map FieldLimit.entry

/-- The calls of the handler for pairs. -/
theorem iniCalls_pairs {α : Type} (name value : α → Str) (xs : List α) (rest : List IniItem)
    (lineno : ℕ) (sectionName prevName : Str) : ∃ lineno' prevName',
      (iniCalls lineno sectionName prevName (xs.map (fun x => pairItem (name x) (value x)) ++ rest)).map
          Prod.snd =
        xs.map (fun x => ⟨sectionName, name x, value x⟩) ++
          (iniCalls lineno' sectionName prevName' rest).map Prod.snd := by
  induction xs generalizing lineno prevName with
  | nil => exact ⟨lineno, prevName, rfl⟩
  | cons x xs ih =>
    obtain ⟨lineno', prevName', eq⟩ := ih (lineno + 1) (strncpy0 (name x) MAX_NAME)
    exact ⟨lineno', prevName', congrArg _ eq⟩

theorem iniCalls_confItems (classes : List Str) (fields : List FieldLimit) :
    (iniCalls 0 [] [] (confItems classes fields)).map Prod.snd = confEntries classes fields := by
  obtain ⟨lineno, prevName, eq⟩ := iniCalls_pairs id (fun _ => ['1']) classes
    (.header [] "ignore_referenced_by".toList [] ::
      fields.map fun f => pairItem f.name (decimal f.limit)) 1 "ignore_classes".toList []
  obtain ⟨lineno', prevName', eq'⟩ := iniCalls_pairs FieldLimit.name (fun f => decimal f.limit) fields
    [] (lineno + 1) "ignore_referenced_by".toList []
  rw [List.append_nil] at eq'
  refine eq.trans (congrArg _ (eq'.trans ?_))
  exact List.append_nil _

/-! ## The file is readable -/

/-- A value without white space. -/
def plainValue (value : Str) : Bool :=
  value.all (fun c => !isspace c && c ≠ '\x00') && value.length ≤ 11

theorem readableValue_of_plain {value : Str} (plain : plainValue value = true) :
    readableValue value [] = true := by
  unfold plainValue at plain
  rw [Bool.and_eq_true, List.all_eq_true] at plain
  have notSpace : ∀ c ∈ value, isspace c = false := by
    intro c hc
    have := plain.1 c hc
    rw [Bool.and_eq_true, Bool.not_eq_true'] at this
    exact this.1
  have trim := trimmed_of (s := value) (fun c hc => notSpace c (List.mem_of_mem_head? hc))
    fun c hc => notSpace c (List.mem_of_mem_getLast? hc)
  have none : noComment false value = true := by
    clear plain trim
    induction value with
    | nil => rfl
    | cons c value ih =>
      rw [noComment, notSpace c List.mem_cons_self,
        ih fun d hd => notSpace d (List.mem_cons_of_mem c hd)]
      rfl
  unfold readableValue
  rw [trim, none, show isTail [] = true from rfl, show allSpace [] = true from rfl, Bool.or_true]
  rfl

theorem readable_pairItem {name value : Str} (prevName : Str) (writable : writableName name = true)
    (plain : plainValue value = true) : (pairItem name value).readable prevName = true := by
  unfold writableName at writable
  rw [Bool.and_eq_true, Bool.and_eq_true] at writable
  simp [pairItem, IniItem.readable, mayIndent, allSpace, writable.1.1, readableValue_of_plain plain]

theorem fitsLine_pairItem {name value : Str} (writable : writableName name = true)
    (plain : plainValue value = true) : fitsLine (pairItem name value).line = true := by
  unfold writableName at writable
  unfold plainValue at plain
  rw [Bool.and_eq_true, Bool.and_eq_true, decide_eq_true_iff] at writable
  rw [Bool.and_eq_true, List.all_eq_true, decide_eq_true_iff] at plain
  have line : (pairItem name value).line = name ++ '=' :: value := by
    simp [pairItem, IniItem.line, pairSeparator]
  have chars : value.all (fun c => c ≠ '\n' && c ≠ '\x00') = true := by
    refine List.all_eq_true.2 fun c hc => ?_
    have := plain.1 c hc
    rw [Bool.and_eq_true, Bool.not_eq_true'] at this
    have ne : c ≠ '\n' := by
      rintro rfl
      exact absurd this.1 (by decide)
    rw [decide_eq_true ne, this.2]
    rfl
  unfold fitsLine
  rw [line, Bool.and_eq_true, decide_eq_true_iff, List.all_append, List.all_cons, writable.1.2, chars,
    List.length_append, List.length_cons]
  refine ⟨by decide, ?_⟩
  have : INI_MAX_LINE = 200 := rfl
  omega

theorem iniReadable_pairs {α : Type} (name value : α → Str) (xs : List α) (rest : List IniItem)
    (sectionName prevName : Str) (writable : ∀ x ∈ xs, writableName (name x) = true)
    (plain : ∀ x ∈ xs, plainValue (value x) = true)
    (readable : ∀ prevName, iniReadable sectionName prevName rest = true) :
    iniReadable sectionName prevName (xs.map (fun x => pairItem (name x) (value x)) ++ rest) =
      true := by
  induction xs generalizing prevName with
  | nil => exact readable prevName
  | cons x xs ih =>
    rw [List.map_cons, List.cons_append, iniReadable,
      readable_pairItem prevName (writable x List.mem_cons_self) (plain x List.mem_cons_self)]
    exact ih _ (fun y h => writable y (List.mem_cons_of_mem _ h))
      fun y h => plain y (List.mem_cons_of_mem _ h)

theorem plainValue_decimal {n : ℤ} (h : -2 ^ 31 ≤ n ∧ n < 2 ^ 31) : plainValue (decimal n) = true := by
  unfold plainValue
  rw [Bool.and_eq_true, List.all_eq_true]
  refine ⟨fun c hc => ?_, decide_eq_true (length_decimal_le h)⟩
  rcases mem_decimal hc with rfl | digit
  · decide
  · have range : 48 ≤ c.toNat ∧ c.toNat ≤ 57 := by
      simpa [Char.isDigit, UInt32.le_iff_toNat_le] using digit
    have notSpace : isspace c = false := by
      have ne : c ≠ ' ' := by
        rintro rfl
        exact absurd range.1 (by decide)
      simp only [isspace, ne, decide_false, Bool.false_or, Bool.and_eq_false_imp, decide_eq_true_iff,
        decide_eq_false_iff_not]
      omega
    have ne : c ≠ '\x00' := by
      rintro rfl
      exact absurd range.1 (by decide)
    rw [notSpace, decide_eq_true ne]
    rfl

/-! ## The round trip -/

theorem sections_ne : "ignore_classes".toList ≠ "ignore_referenced_by".toList := by decide

theorem accepts_of_ignoreClasses {e : IniEntry} (here : e.sectionName = "ignore_classes".toList) :
    Accepts cp e := by
  intro conf
  unfold iniHandler
  rw [if_pos here]

/-- An entry of a field with a number is accepted. -/
theorem accepts_of_ignoreReferencedBy {e : IniEntry} {classname fieldName : Str} {n : ℤ}
    (here : e.sectionName = "ignore_referenced_by".toList)
    (number : strtol cp.longBits e.value = (n, []))
    (parts : splitAtLastDot e.name = some (classname, fieldName)) (named : fieldName ≠ []) :
    Accepts cp e ∧ acceptedEntry cp e = some (classname, ⟨0, String.ofList fieldName, toInt n⟩) := by
  constructor
  · intro conf
    unfold iniHandler
    rw [if_neg fun h => sections_ne (h.symm.trans here), if_pos here, number]
    dsimp only
    rw [if_neg (not_not_intro rfl), parts]
    dsimp only
    rw [if_neg named]
  · unfold acceptedEntry
    rw [number, if_pos ⟨here, rfl⟩, parts, Option.bind_some, if_neg named]

theorem acceptedEntry_classEntry (cp : CPlatform) (classname : Str) :
    acceptedEntry cp (classEntry classname) = none :=
  if_neg fun h => sections_ne h.1

theorem accepts_entry (cp : CPlatform) (f : FieldLimit) :
    Accepts cp f.entry ∧ acceptedEntry cp f.entry = some (f.classname, f.ignoreField) := by
  have number : strtol cp.longBits f.entry.value = (f.limit, []) := strtol_decimal_int f.isInt
  have accepted := accepts_of_ignoreReferencedBy rfl number
    (splitAtLastDot_append f.classname f.noDot) f.named
  rwa [toInt_eq f.isInt] at accepted

theorem confItems_forall {P : IniItem → Prop} {classes : List Str} {fields : List FieldLimit}
    (headers : ∀ name ∈ ["ignore_classes".toList, "ignore_referenced_by".toList],
      P (.header [] name []))
    (hclasses : ∀ c ∈ classes, P (pairItem c ['1']))
    (hfields : ∀ f ∈ fields, P (pairItem f.name (decimal f.limit))) :
    ∀ item ∈ confItems classes fields, P item := by
  intro item h
  rcases List.mem_cons.1 h with rfl | h
  · exact headers _ (by simp)
  rcases List.mem_append.1 h with h | h
  · obtain ⟨c, hc, rfl⟩ := List.mem_map.1 h
    exact hclasses c hc
  rcases List.mem_cons.1 h with rfl | h
  · exact headers _ (by simp)
  · obtain ⟨f, hf, rfl⟩ := List.mem_map.1 h
    exact hfields f hf

theorem iniReadable_confItems {classes : List Str} {fields : List FieldLimit}
    (writableClasses : ∀ c ∈ classes, writableName c = true)
    (writableFields : ∀ f ∈ fields, writableName f.name = true) :
    iniReadable [] [] (confItems classes fields) = true := by
  have hfields : ∀ prevName, iniReadable "ignore_referenced_by".toList prevName
      (fields.map fun f => pairItem f.name (decimal f.limit)) = true := by
    intro prevName
    have := iniReadable_pairs FieldLimit.name (fun f => decimal f.limit) fields []
      "ignore_referenced_by".toList prevName writableFields (fun f _ => plainValue_decimal f.isInt)
      fun _ => rfl
    rwa [List.append_nil] at this
  refine iniReadable_pairs id (fun _ => ['1']) classes _ "ignore_classes".toList [] writableClasses
    (fun _ _ => by decide) fun prevName => ?_
  exact hfields []

/-- A configuration that is written to a file is the one that is read: `ini_parse` returns zero, the
classes are those named, and the list of a class has its limits, the last one first. -/
theorem readConfFile_confItems (cp : CPlatform) (classes : List Str) (fields : List FieldLimit)
    (writableClasses : ∀ c ∈ classes, writableName c = true)
    (writableFields : ∀ f ∈ fields, writableName f.name = true) (files : Str → Option Str)
    (filename : Str)
    (written : files filename = some (fileText ((confItems classes fields).map IniItem.line)))
    (counters : Counters) :
    (iniParse (iniHandler cp) files filename ⟨[], [], counters⟩).1 = 0 ∧
      (∀ classname,
        smGet (readConfFile cp files ⟨[], [], counters⟩ filename).ignoreClasses classname =
          if classname ∈ classes then some () else none) ∧
      ∀ classname,
        (smGet (readConfFile cp files ⟨[], [], counters⟩ filename).ignoreReferencedBy classname).getD [] =
          ((fields.filter (·.classname = classname)).map FieldLimit.ignoreField).reverse := by
  have fits : ∀ line ∈ (confItems classes fields).map IniItem.line, fitsLine line = true := by
    rw [List.forall_mem_map]
    refine confItems_forall (by decide +kernel) (fun c hc => ?_) fun f hf => ?_
    · exact fitsLine_pairItem (writableClasses c hc) (by decide)
    · exact fitsLine_pairItem (writableFields f hf) (plainValue_decimal f.isInt)
  have noBom : ¬['\u00EF', '\u00BB', '\u00BF'] <+:
      fileText ((confItems classes fields).map IniItem.line) := by
    rintro ⟨rest, eq⟩
    exact absurd (List.head_eq_of_cons_eq eq) (by decide)
  have accepts : ∀ call ∈ iniCalls 0 [] [] (confItems classes fields), Accepts cp call.2 := by
    intro call hcall
    have mem := List.mem_map_of_mem (f := Prod.snd) hcall
    rw [iniCalls_confItems] at mem
    rcases List.mem_append.1 mem with mem | mem
    · obtain ⟨c, -, eq⟩ := List.mem_map.1 mem
      exact accepts_of_ignoreClasses (eq ▸ rfl)
    · obtain ⟨f, -, eq⟩ := List.mem_map.1 mem
      exact eq ▸ (accepts_entry cp f).1
  have run : iniParse (iniHandler cp) files filename ⟨[], [], counters⟩ =
      (0, readEntries cp (confEntries classes fields) ⟨[], [], counters⟩) := by
    unfold iniParse
    rw [written]
    dsimp only
    rw [iniParseFile_items _ fits (iniReadable_confItems writableClasses writableFields) noBom,
      callHandler_readEntries _ accepts, iniCalls_confItems]
    rfl
  unfold readConfFile
  rw [run]
  refine ⟨rfl, fun classname => ?_, fun classname => ?_⟩
  · rw [smGet_ignoreClasses]
    refine if_congr ⟨?_, fun mem => ?_⟩ rfl rfl
    · rintro ⟨e, mem, here, rfl⟩
      rcases List.mem_append.1 mem with mem | mem
      · obtain ⟨c, hc, rfl⟩ := List.mem_map.1 mem
        exact hc
      · obtain ⟨f, -, rfl⟩ := List.mem_map.1 mem
        exact absurd here.symm sections_ne
    · exact ⟨classEntry classname, List.mem_append_left _ (List.mem_map_of_mem mem), rfl, rfl⟩
  · have none : (classes.map classEntry).filterMap (acceptedEntry cp) = [] := by
      rw [List.filterMap_map]
      refine List.filterMap_eq_nil_iff.2 fun c _ => acceptedEntry_classEntry cp c
    have some : (fields.map FieldLimit.entry).filterMap (acceptedEntry cp) =
        fields.map fun f => (f.classname, f.ignoreField) := by
      rw [List.filterMap_map, ← List.filterMap_eq_map]
      exact List.filterMap_congr fun f _ => (accepts_entry cp f).2
    rw [smGet_readEntries]
    unfold entriesOfClass confEntries
    rw [List.filterMap_append, none, some, List.nil_append, List.filter_map, List.map_map]
    rfl

/-- Limits of two fields of a class. -/
def Sample.fieldLimits : List FieldLimit :=
  [⟨"Holder".toList, "map".toList, 2, by decide, by decide, by decide⟩,
    ⟨"Holder".toList, "set".toList, 3, by decide, by decide, by decide⟩]

/-- The file with a class and these limits. -/
def Sample.writtenFile (_ : Str) : Option Str :=
  some (fileText ((confItems ["java.lang.Thread".toList] Sample.fieldLimits).map IniItem.line))

theorem readConfFile_confItems_sample :
    (smGet (readConfFile Sample.unix64 Sample.writtenFile ⟨[], [], ⟨0, 0⟩⟩
      "jleaker.conf".toList).ignoreReferencedBy "Holder".toList).getD [] =
        [⟨0, "set", 3⟩, ⟨0, "map", 2⟩] := by
  rw [(readConfFile_confItems Sample.unix64 ["java.lang.Thread".toList] Sample.fieldLimits
    (by decide +kernel) (by decide +kernel) Sample.writtenFile "jleaker.conf".toList rfl ⟨0, 0⟩).2.2]
  decide +kernel

end JLeaker
