import JLeaker.Proof.Ini
import JLeaker.Proof.StrMapBlocks

/-!
# Configuration files and the hash table

`ini_handler` fills two hash tables.  A list of pairs describes a table if it has the same pairs in any
order, and `ini_handler` keeps it so, call by call through any files.  The names it gets are shorter
than a line, so `sm_put` never writes past the end of a key.
-/

namespace JLeaker

open CString

variable {V : Type} {cp : CharPlatform} {answers : ℕ → Bool}

/-! ## A list of pairs that describes a table -/

theorem smGet_eq_find (flat : StrMap V) (key : Str) :
    smGet flat key = (Chains.find Prod.fst flat key).map Prod.snd := by
  induction flat with
  | nil => rfl
  | cons pair flat ih =>
    rw [smGet_cons, Chains.find_cons, ih]
    by_cases h : key = pair.1
    · rw [if_pos h, if_pos h.symm, Option.map_some]
    · rw [if_neg h, if_neg fun h' => h h'.symm]

namespace BucketMap

/-- The table has the pairs of the list. -/
structure Holds (cp : CharPlatform) (flat : StrMap V) (map : BucketMap V) : Prop where
  wellFormed : map.WellFormed cp
  perm : flat.Perm (map.pairs.map entry)

namespace Holds

variable {flat : StrMap V} {map : BucketMap V} (holds : Holds cp flat map) {key : Str} {value : V}
  {heap : BlockHeap}

include holds

theorem keyed : (flat.map Prod.fst).Nodup := by
  have keys : (map.pairs.map entry).map Prod.fst = map.pairs.map BucketPair.key :=
    Chains.keys_map _ fun _ => rfl
  rw [(holds.perm.map Prod.fst).nodup_iff, keys]
  exact holds.wellFormed.keyed

theorem find (key : Str) :
    Chains.find Prod.fst flat key = (Chains.find BucketPair.key map.pairs key).map entry := by
  rw [Chains.find_perm holds.perm holds.keyed]
  exact Chains.find_map _ fun _ => rfl

theorem toFun (key : Str) : map.toFun key = JLeaker.smGet flat key := by
  rw [smGet_eq_find, holds.find, Option.map_map]
  rfl

theorem smGet (key : Str) :
    BucketMap.smGet cp (some map) (some key) = .ok (JLeaker.smGet flat key) := by
  rw [holds.wellFormed.smGet, ← holds.toFun]
  rfl

theorem any_iff : flat.any (·.1 == key) = true ↔ (Chains.find BucketPair.key map.pairs key).isSome := by
  have found := congrArg Option.isSome (holds.find key)
  rw [Option.isSome_map] at found
  rw [← found]
  simp [Chains.find]

/-- `sm_put` on both, where `malloc` does not fail. -/
theorem smPut (all : ∀ n, answers n = true) (fits : keyFits key = true) (value : V)
    (heap : BlockHeap) :
    ∃ old map' heap', BucketMap.smPut cp answers (some map) (some key) value heap =
        .ok (old, some map', heap') ∧ Holds cp (JLeaker.smPut flat key value) map' := by
  unfold JLeaker.smPut
  cases known : Chains.find BucketPair.key map.pairs key with
  | some pair =>
    obtain ⟨map', put, wf', pairs⟩ :=
      holds.wellFormed.smPut_known answers known value heap
    refine ⟨_, map', heap, put, wf', ?_⟩
    rw [if_pos (holds.any_iff.2 (by rw [known]; rfl)), pairs, List.map_map]
    refine (holds.perm.map _).trans (List.Perm.of_eq ?_)
    rw [List.map_map]
    refine List.map_congr_left fun pair _ => ?_
    show (if pair.key = key then (key, value) else entry pair) = entry (replace key value pair)
    unfold replace
    by_cases h : pair.key = key
    · rw [if_pos h, if_pos h, ← h]
      rfl
    · rw [if_neg h, if_neg h]
  | none =>
    obtain ⟨⟨old, map', heap'⟩, put⟩ := holds.wellFormed.smPut_returns answers fits value heap
    obtain ⟨-, -, m, rfl, wf', cases⟩ := holds.wellFormed.smPut_unknown known put
    refine ⟨_, m, heap', put, wf', ?_⟩
    rw [if_neg fun h => by rw [holds.any_iff, known] at h; cases h]
    rcases cases with ⟨-, newKey, perm⟩ | ⟨fails, -⟩
    · refine (holds.perm.append_right _).trans ((perm.map entry).trans ?_).symm
      rw [List.map_append]
      exact List.Perm.refl _
    · exact absurd ⟨all _, all _⟩ fails

end Holds

/-- A new map, where `malloc` does not fail. -/
theorem smNew_holds (V : Type) (cp : CharPlatform) (all : ∀ n, answers n = true) {capacity : ℕ}
    (pos : 0 < capacity) (heap : BlockHeap) :
    ∃ map heap', smNew (V := V) answers capacity heap = (some map, heap') ∧ Holds cp [] map := by
  obtain ⟨block, heap₁, call⟩ : ∃ block heap₁, heap.malloc answers = (some block, heap₁) := by
    unfold BlockHeap.malloc
    rw [if_pos (all _)]
    exact ⟨_, _, rfl⟩
  obtain ⟨bucketsBlock, heap₂, call'⟩ :
      ∃ block heap₂, heap₁.malloc answers = (some block, heap₂) := by
    unfold BlockHeap.malloc
    rw [if_pos (all _)]
    exact ⟨_, _, rfl⟩
  have new : smNew (V := V) answers capacity heap =
      (some ⟨block, bucketsBlock, List.replicate capacity ⟨[], none⟩⟩, heap₂) := by
    unfold smNew
    rw [call]
    dsimp only
    rw [call']
  obtain ⟨wf, pairs⟩ := smNew_wellFormed cp pos new
  exact ⟨_, _, new, wf, by rw [pairs]; exact List.Perm.nil⟩

end BucketMap

/-! ## Names are shorter than a line -/

section

variable {σ : Type} (handler : σ → Str → Str → Str → Bool × σ)

/-- The handler, for names shorter than a line. -/
def guardNames (s : σ) (sectionName name value : Str) : Bool × σ :=
  if name.length < INI_MAX_LINE then handler s sectionName name value else (true, s)

variable {handler} {st : IniState σ}

theorem handle_guardNames {name : Str} (short : name.length < INI_MAX_LINE) (value : Str) :
    st.handle (guardNames handler) name value = st.handle handler name value := by
  unfold IniState.handle guardNames
  rw [if_pos short]

theorem length_rstrip (s : Str) : (rstrip s).length ≤ s.length := by
  have := (List.dropWhile_sublist isspace (l := s.reverse)).length_le
  unfold rstrip
  rwa [List.length_reverse, ← s.length_reverse]

theorem length_lskip_rstrip (s : Str) : (lskip (rstrip s)).length ≤ s.length :=
  (List.dropWhile_sublist isspace).length_le.trans (length_rstrip s)

theorem length_findCharOrComment (c : Option Char) (b : Bool) (s : Str) :
    (findCharOrComment c b s).1.length ≤ s.length := by
  induction s generalizing b with
  | nil => exact Nat.le_refl 0
  | cons d s ih =>
    unfold findCharOrComment
    split_ifs
    · exact Nat.zero_le _
    · exact Nat.succ_le_succ (ih (isspace d))

theorem prevName_handle {name value : Str} : (st.handle handler name value).prevName = st.prevName := by
  unfold IniState.handle IniState.fail
  dsimp only
  split_ifs <;> rfl

theorem prevName_fail : st.fail.prevName = st.prevName := by
  unfold IniState.fail
  split_ifs <;> rfl

/-- A line, with the handler for short names. -/
theorem iniLine_guardNames (handler : σ → Str → Str → Str → Bool × σ)
    (prev : st.prevName.length < INI_MAX_LINE) {line : Str} (short : line.length < INI_MAX_LINE) :
    iniLine (guardNames handler) st line = iniLine handler st line ∧
      (iniLine handler st line).prevName.length < INI_MAX_LINE := by
  unfold iniLine
  dsimp only
  generalize hstart : lskip (rstrip (if st.lineno + 1 = 1 ∧ ['\u00EF', '\u00BB', '\u00BF'] <+: line then
    line.drop 3 else line)) = start
  have length : start.length < INI_MAX_LINE := by
    subst hstart
    refine Nat.lt_of_le_of_lt (length_lskip_rstrip _) ?_
    split_ifs
    · rw [List.length_drop]
      omega
    · exact short
  split
  · exact ⟨rfl, prev⟩
  split
  · exact ⟨handle_guardNames prev _, by rwa [prevName_handle]⟩
  split
  · split
    · exact ⟨rfl, show 0 < INI_MAX_LINE by decide⟩
    · exact ⟨rfl, by rwa [prevName_fail]⟩
  split
  · have name : ∀ found : Str × Str, found.1.length ≤ start.length →
        (rstrip found.1).length < INI_MAX_LINE ∧
          (strncpy0 (rstrip found.1) MAX_NAME).length < INI_MAX_LINE := by
      intro found le
      have := length_rstrip found.1
      unfold strncpy0
      rw [List.length_take]
      omega
    -- the name ends at a `=`, or else at a `:`
    split
    · split
      · obtain ⟨fits, cut⟩ := name _ (length_findCharOrComment _ _ _)
        exact ⟨handle_guardNames fits _, by rwa [prevName_handle]⟩
      · exact ⟨rfl, by rwa [prevName_fail]⟩
    · split
      · obtain ⟨fits, cut⟩ := name _ (length_findCharOrComment _ _ _)
        exact ⟨handle_guardNames fits _, by rwa [prevName_handle]⟩
      · exact ⟨rfl, by rwa [prevName_fail]⟩
  · exact ⟨rfl, prev⟩

theorem length_fgets (n : ℕ) (s : Str) : (fgets n s).1.length ≤ n := by
  induction n generalizing s with
  | zero => exact Nat.le_refl 0
  | succ n ih =>
    cases s with
    | nil => exact Nat.zero_le _
    | cons c s =>
      unfold fgets
      split_ifs
      · exact Nat.succ_le_succ (Nat.zero_le n)
      · exact Nat.succ_le_succ (ih s)

theorem fileLines_cons (fuel : ℕ) (c : Char) (s : Str) :
    fileLines (fuel + 1) (c :: s) =
      (fgets (INI_MAX_LINE - 1) (c :: s)).1.takeWhile (· ≠ '\x00') ::
        fileLines fuel (fgets (INI_MAX_LINE - 1) (c :: s)).2 := by
  rw [fileLines]
  exact List.cons_ne_nil c s

theorem length_fileLines {fuel : ℕ} {s line : Str} (h : line ∈ fileLines fuel s) :
    line.length < INI_MAX_LINE := by
  induction fuel generalizing s with
  | zero => cases h
  | succ fuel ih =>
    cases s with
    | nil => cases h
    | cons c s =>
      rw [fileLines_cons] at h
      rcases List.mem_cons.1 h with rfl | h
      · have read := length_fgets (INI_MAX_LINE - 1) (c :: s)
        have cut := (List.takeWhile_sublist (· ≠ '\x00')
          (l := (fgets (INI_MAX_LINE - 1) (c :: s)).1)).length_le
        have : INI_MAX_LINE = 200 := rfl
        omega
      · exact ih h

/-- Long names never reach the handler. -/
theorem iniParse_guardNames (files : Str → Option Str) (filename : Str) (user : σ) :
    iniParse (guardNames handler) files filename user = iniParse handler files filename user := by
  have lines : ∀ (lines : List Str) (st : IniState σ), st.prevName.length < INI_MAX_LINE →
      (∀ line ∈ lines, line.length < INI_MAX_LINE) →
      lines.foldl (iniLine (guardNames handler)) st = lines.foldl (iniLine handler) st := by
    intro lines
    induction lines with
    | nil =>
      intro st _ _
      rw [List.foldl_nil, List.foldl_nil]
    | cons line lines ih =>
      intro st prev short
      obtain ⟨same, prev'⟩ := iniLine_guardNames handler prev (short line List.mem_cons_self)
      rw [List.foldl_cons, List.foldl_cons, same]
      exact ih _ prev' fun other h => short other (List.mem_cons_of_mem _ h)
  unfold iniParse iniParseFile
  cases files filename with
  | none => rfl
  | some contents =>
    have short : ∀ line ∈ fileLines (contents.length + 1) contents, line.length < INI_MAX_LINE :=
      fun line h => length_fileLines h
    dsimp only
    rw [lines _ ⟨user, [], [], 0, 0⟩ (show 0 < INI_MAX_LINE by decide) short]

end

/-! ## `ini_handler` -/

open BucketMap

/-- The tables have the pairs of the configuration, and the heap holds their blocks. -/
structure Describes (cp : CharPlatform) (conf : Configuration) (classes : BucketMap Unit)
    (refs : BucketMap (List IgnoreField)) (heap : BlockHeap) : Prop where
  ignoreClasses : Holds cp conf.ignoreClasses classes
  ignoreReferencedBy : Holds cp conf.ignoreReferencedBy refs
  tidyClasses : classes.Tidy
  tidyRefs : refs.Tidy
  accounts : heap.Accounts (classes.owned ++ refs.owned)

/-- The configuration is that of two tables. -/
def Described (cp : CharPlatform) (conf : Configuration)
    (result : Except StrMapFault BucketConfiguration) : Prop :=
  ∃ classes refs heap, result = .ok ⟨some classes, some refs, heap⟩ ∧
    Describes cp conf classes refs heap

theorem length_splitAtLastDot {name classname fieldName : Str}
    (h : splitAtLastDot name = some (classname, fieldName)) : classname.length ≤ name.length := by
  unfold splitAtLastDot at h
  split_ifs at h
  cases h
  have := (List.dropWhile_sublist (· ≠ '.') (l := name.reverse)).length_le
  rw [List.length_reverse] at this
  rw [List.length_reverse, List.length_tail]
  omega

theorem keyFits_of_short {name : Str} (short : name.length < INI_MAX_LINE) : keyFits name = true := by
  apply keyFits_iff.2
  have : INI_MAX_LINE = 200 := rfl
  omega

theorem Describes.iniHandler (all : ∀ n, answers n = true) {conf : Configuration}
    {classes : BucketMap Unit} {refs : BucketMap (List IgnoreField)} {heap : BlockHeap}
    (describes : Describes cp conf classes refs heap) (sectionName : Str) {name : Str}
    (short : name.length < INI_MAX_LINE) (value : Str) :
    ∃ classes' refs' heap', iniHandlerBuckets cp answers ⟨some classes, some refs, heap⟩ sectionName
        name value =
          .ok ((iniHandler cp.toCPlatform conf sectionName name value).1,
            ⟨some classes', some refs', heap'⟩) ∧
      Describes cp (iniHandler cp.toCPlatform conf sectionName name value).2 classes' refs' heap' := by
  unfold iniHandlerBuckets JLeaker.iniHandler
  split_ifs with isClasses isRefs
  · -- `ignore_classes`: the blocks of the other map stay where they are
    obtain ⟨old, classes', heap', put, holds'⟩ :=
      describes.ignoreClasses.smPut all (keyFits_of_short short) () heap
    have leaves := smPut_leaves (by rintro m ⟨⟩; exact describes.tidyClasses)
      (by rintro m ⟨⟩ -; exact describes.ignoreClasses.wellFormed) describes.accounts put
    refine ⟨classes', refs, heap', ?_, holds', describes.ignoreReferencedBy, leaves.tidy _ rfl,
      describes.tidyRefs, leaves.accounts⟩
    rw [put]
    rfl
  · -- `ignore_referenced_by`: a new element before the list of its class
    obtain ⟨v, endptr⟩ := strtol cp.longBits value
    dsimp only
    split_ifs with bad
    · exact ⟨classes, refs, heap, rfl, describes⟩
    cases parts : splitAtLastDot name with
    | none => exact ⟨classes, refs, heap, rfl, describes⟩
    | some names =>
      obtain ⟨classname, fieldName⟩ := names
      dsimp only
      split_ifs with unnamed
      · exact ⟨classes, refs, heap, rfl, describes⟩
      have fits : keyFits classname = true :=
        keyFits_of_short ((length_splitAtLastDot parts).trans_lt short)
      obtain ⟨old, refs', heap', put, holds'⟩ := describes.ignoreReferencedBy.smPut all fits
        (⟨0, String.ofList fieldName, toInt v⟩ ::
          (JLeaker.smGet conf.ignoreReferencedBy classname).getD []) heap
      have accounts := describes.accounts.of_perm List.perm_append_comm
      have leaves := smPut_leaves (by rintro m ⟨⟩; exact describes.tidyRefs)
        (by rintro m ⟨⟩ -; exact describes.ignoreReferencedBy.wellFormed) accounts put
      refine ⟨classes, refs', heap', ?_, describes.ignoreClasses, holds', describes.tidyClasses,
        leaves.tidy _ rfl, leaves.accounts.of_perm List.perm_append_comm⟩
      rw [describes.ignoreReferencedBy.smGet, Run.ok_bind, put]
      rfl
  · exact ⟨classes, refs, heap, rfl, describes⟩

theorem Described.handler (all : ∀ n, answers n = true) :
    HandlersAgree (Described cp) (guardNames (iniHandler cp.toCPlatform))
      (guardNames (iniHandlerOrFault cp answers)) := by
  rintro conf _ sectionName name value ⟨classes, refs, heap, rfl, describes⟩
  unfold guardNames
  split_ifs with short
  · obtain ⟨classes', refs', heap', handled, describes'⟩ :=
      describes.iniHandler all sectionName short value
    unfold iniHandlerOrFault
    dsimp only
    rw [handled]
    exact ⟨rfl, classes', refs', heap', rfl, describes'⟩
  · exact ⟨rfl, classes, refs, heap, rfl, describes⟩

/-- One file, on both. -/
theorem Described.iniParse (all : ∀ n, answers n = true) {conf : Configuration}
    {result : Except StrMapFault BucketConfiguration} (described : Described cp conf result)
    (files : Str → Option Str) (name : Str) :
    (iniParse (iniHandler cp.toCPlatform) files name conf).1 =
        (iniParse (iniHandlerOrFault cp answers) files name result).1 ∧
      Described cp (readConfFile cp.toCPlatform files conf name)
        (readConfFileBuckets cp answers files result name) := by
  have related := iniParse_related (Described.handler all) files name described
  rwa [iniParse_guardNames, iniParse_guardNames] at related

theorem Described.files (all : ∀ n, answers n = true) (files : Str → Option Str) (names : List Str)
    {conf : Configuration} {result : Except StrMapFault BucketConfiguration}
    (described : Described cp conf result) :
    Described cp (names.foldl (readConfFile cp.toCPlatform files) conf)
      (names.foldl (readConfFileBuckets cp answers files) result) := by
  induction names generalizing conf result with
  | nil => exact described
  | cons name names ih => exact ih (described.iniParse all files name).2

theorem described_new (cp : CharPlatform) (all : ∀ n, answers n = true) (counters : Counters) :
    Described cp ⟨[], [], counters⟩ (.ok (BucketConfiguration.new answers .empty)) := by
  obtain ⟨classes, heap, new, holds⟩ :=
    smNew_holds Unit cp all (show 0 < 10 by decide) BlockHeap.empty
  obtain ⟨refs, heap', new', holds'⟩ :=
    smNew_holds (List IgnoreField) cp all (show 0 < 10 by decide) heap
  obtain ⟨tidy, accounts, -⟩ := smNew_leaves Unit answers 10 BlockHeap.Accounts.empty
  rw [new] at tidy accounts
  obtain ⟨tidy', accounts', -⟩ := smNew_leaves (List IgnoreField) answers 10 accounts
  rw [new'] at tidy' accounts'
  refine ⟨classes, refs, heap', ?_, holds, holds', tidy _ rfl, tidy' _ rfl, ?_⟩
  · unfold BucketConfiguration.new
    rw [new]
    dsimp only
    rw [new']
  · refine accounts'.of_perm ?_
    show (classes.owned ++ refs.owned).Perm (refs.owned ++ (classes.owned ++ []))
    rw [List.append_nil]
    exact List.perm_append_comm

/-- Reading configuration files into the two hash tables: no fault, each table answers as the list of
pairs does, the next file is judged alike, and deleting the maps hands each list of records to
`free_referenced_by_limit` once and frees every block. -/
theorem readConfFiles_buckets (all : ∀ n, answers n = true) (files : Str → Option Str)
    (names : List Str) (counters : Counters) :
    ∃ conf, names.foldl (readConfFileBuckets cp answers files)
        (.ok (BucketConfiguration.new answers .empty)) = .ok conf ∧
      (∀ key, BucketMap.smGet cp conf.ignoreClasses (some key) = .ok (JLeaker.smGet
        (names.foldl (readConfFile cp.toCPlatform files) ⟨[], [], counters⟩).ignoreClasses key)) ∧
      (∀ key, BucketMap.smGet cp conf.ignoreReferencedBy (some key) = .ok (JLeaker.smGet
        (names.foldl (readConfFile cp.toCPlatform files) ⟨[], [], counters⟩).ignoreReferencedBy key)) ∧
      (∀ name, (JLeaker.iniParse (iniHandlerOrFault cp answers) files name (.ok conf)).1 =
        (JLeaker.iniParse (iniHandler cp.toCPlatform) files name
          (names.foldl (readConfFile cp.toCPlatform files) ⟨[], [], counters⟩)).1) ∧
      (smDelete conf.ignoreReferencedBy (smDelete conf.ignoreClasses conf.heap).2).1.Perm
        ((names.foldl (readConfFile cp.toCPlatform files) ⟨[], [], counters⟩).ignoreReferencedBy.map
          Prod.snd) ∧
      (smDelete conf.ignoreReferencedBy (smDelete conf.ignoreClasses conf.heap).2).2.freed.Perm
        (smDelete conf.ignoreReferencedBy (smDelete conf.ignoreClasses conf.heap).2).2.given := by
  have described := (described_new cp all counters).files all files names
  obtain ⟨classes, refs, heap, ok, describes⟩ := described
  obtain ⟨-, rest⟩ := smDelete_leaves (some classes) describes.accounts
  have left : (smDelete (some classes) heap).2.Accounts (refs.owned ++ []) := by
    rwa [List.append_nil]
  obtain ⟨values, done⟩ := smDelete_leaves (some refs) left
  refine ⟨_, ok, describes.ignoreClasses.smGet, describes.ignoreReferencedBy.smGet, fun name => ?_,
    ?_, done.freed_perm⟩
  · have := (Described.iniParse all ⟨classes, refs, heap, ok, describes⟩ files name).1
    rw [this, ok]
  · rw [values]
    rw [values_eq_entries]
    exact (describes.ignoreReferencedBy.perm.map Prod.snd).symm

/-- A configuration file with a class and two fields of one class. -/
def Sample.confFile : Str :=
  "[ignore_classes]\njava.lang.Thread=1\n[ignore_referenced_by]\nHolder.map=2\nHolder.set=3\n".toList

theorem readConfFiles_buckets_sample :
    ∃ conf, ["jleaker.conf".toList].foldl (readConfFileBuckets Sample.signedUnix64 (fun _ => true)
        fun _ => some Sample.confFile) (.ok (BucketConfiguration.new (fun _ => true) .empty)) =
          .ok conf ∧
      BucketMap.smGet Sample.signedUnix64 conf.ignoreReferencedBy (some "Holder".toList) =
        .ok (some [⟨0, "set", 3⟩, ⟨0, "map", 2⟩]) := by
  obtain ⟨conf, run, -, refs, -⟩ := readConfFiles_buckets
    (fun _ => rfl) (fun _ => some Sample.confFile) ["jleaker.conf".toList] ⟨0, 0⟩
  refine ⟨conf, run, ?_⟩
  rw [refs]
  decide +kernel

end JLeaker
