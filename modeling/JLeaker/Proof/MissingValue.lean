import JLeaker.Proof.AgentOptions

/-!
# Options without a value

`strtok` returns NULL where no token is left, and `strtol` reads what it returned for the value of a
number.  So `parse_agent_options` fails on the strings that end with the name of such an option,
provided that all options before it are complete: at the first other one the call has returned.
-/

namespace JLeaker

open CString

/-! ## Complete options -/

/-- The options whose value is a number. -/
def numberNames : List Str :=
  ["tcp_port".toList, "size_threshold".toList, "reference_chain_length".toList,
    "max_fan_in".toList]

/-- The options without a value. -/
def flagNames : List Str :=
  ["debug".toList, "self_check".toList, "no_gc".toList, "consider_local_references".toList,
    "show_unreachables".toList]

/-- The characters between an option's name and what follows it. -/
def isDelim (c : Char) : Bool := c == ',' || c == '='

/-- The option `name` takes the word `value`. -/
def TakesValue (cp : CPlatform) (name value : Str) : Prop :=
  name ∈ numberNames ∧ (strtol cp.longBits value).2 = [] ∨ name = "conf_file".toList

/-- Options that are all known and have their values, each up to the delimiter that ends it. -/
inductive CompleteOptions (cp : CPlatform) : Str → Prop
  | nil : CompleteOptions cp []
  | skip {c : Char} {s : Str} (hc : isDelim c = true) (rest : CompleteOptions cp s) :
      CompleteOptions cp (c :: s)
  | flag {name : Str} {c : Char} {s : Str} (hname : name ∈ flagNames) (hc : isDelim c = true)
      (rest : CompleteOptions cp s) : CompleteOptions cp (name ++ c :: s)
  | value {name commas value : Str} {c : Char} {s : Str} (hname : TakesValue cp name value)
      (hc : isDelim c = true) (hcommas : ∀ x ∈ commas, x = ',') (hvalue : value ≠ [])
      (hword : ∀ x ∈ value, x ≠ ',') (rest : CompleteOptions cp s) :
      CompleteOptions cp (name ++ c :: (commas ++ (value ++ ',' :: s)))

/-- After complete options the string ends with the name of an option whose value is a number, a
delimiter and commas. -/
def MissingValue (cp : CPlatform) (s : Str) : Prop :=
  ∃ before name after, s = before ++ (name ++ after) ∧ CompleteOptions cp before ∧
    name ∈ numberNames ∧ (∀ c ∈ after.head?, isDelim c = true) ∧ ∀ c ∈ after.tail, c = ','

variable {cp : CPlatform} {iniParse : Str → ℤ} {g g' : AgentSettings} {allConfFiles a' : Option Str}
  {next s s' : Str}

/-! ## The kinds of options -/

theorem parseOption_number (cp : CPlatform) (g : AgentSettings) (allConfFiles : Option Str)
    (h : next ∈ numberNames) : ∃ assign : ℤ → AgentSettings, ∀ s,
    parseOption cp g allConfFiles next s = numberOption cp assign allConfFiles s := by
  simp only [numberNames, List.mem_cons, List.not_mem_nil, or_false] at h
  rcases h with rfl | rfl | rfl | rfl
  · exact ⟨fun n => { g with tcpPort := n }, fun s => rfl⟩
  · exact ⟨fun n => { g with sizeThreshold := n }, fun s => rfl⟩
  · exact ⟨fun n => { g with referenceChainLength := n }, fun s => rfl⟩
  · exact ⟨fun n => { g with maxFanIn := n }, fun s => rfl⟩

theorem parseOption_flag (cp : CPlatform) (g : AgentSettings) (allConfFiles : Option Str) (s : Str)
    (h : next ∈ flagNames) : ∃ g', parseOption cp g allConfFiles next s = .next g' allConfFiles s := by
  simp only [flagNames, List.mem_cons, List.not_mem_nil, or_false] at h
  rcases h with rfl | rfl | rfl | rfl | rfl
  · exact ⟨_, rfl⟩
  · exact ⟨_, rfl⟩
  · exact ⟨_, rfl⟩
  · exact ⟨_, rfl⟩
  · exact ⟨_, rfl⟩

theorem parseOption_conf (s : Str) : parseOption cp g allConfFiles "conf_file".toList s =
    .next g (strtok (· == ',') s).1 (strtok (· == ',') s).2 := rfl

theorem parseOption_unknown (hnumber : next ∉ numberNames) (hflag : next ∉ flagNames)
    (hconf : next ≠ "conf_file".toList) : parseOption cp g allConfFiles next s = .fail g := by
  simp only [numberNames, flagNames, List.mem_cons, List.not_mem_nil, or_false, not_or]
    at hnumber hflag
  obtain ⟨h₁, h₂, h₃, h₄⟩ := hnumber
  obtain ⟨h₅, h₆, h₇, h₈, h₉⟩ := hflag
  unfold parseOption
  rw [if_neg h₁, if_neg h₂, if_neg h₃, if_neg h₄, if_neg h₅, if_neg h₆, if_neg h₇, if_neg h₈,
    if_neg hconf, if_neg h₉]

theorem numberOption_crash {assign : ℤ → AgentSettings} :
    numberOption cp assign allConfFiles s = .crash ↔ ∀ c ∈ s, c = ',' := by
  unfold numberOption
  constructor
  · intro h
    split at h
    · rename_i hnone
      exact fun c hc => by simpa using (eq_of_strtok_none hnone).1 c hc
    · dsimp only at h
      split_ifs at h
  · intro h
    have hnone : strtok (· == ',') s = (none, []) := by
      unfold strtok
      rw [if_pos (List.dropWhile_eq_nil_iff.2 fun c hc => by simpa using h c hc)]
    rw [hnone]

theorem parseOption_crash (h : parseOption cp g allConfFiles next s = .crash) :
    next ∈ numberNames ∧ ∀ c ∈ s, c = ',' := by
  by_cases hnumber : next ∈ numberNames
  · obtain ⟨assign, hassign⟩ := parseOption_number cp g allConfFiles hnumber
    exact ⟨hnumber, numberOption_crash.1 ((hassign s).symm.trans h)⟩
  by_cases hflag : next ∈ flagNames
  · obtain ⟨g', hg⟩ := parseOption_flag cp g allConfFiles s hflag
    rw [hg] at h
    cases h
  by_cases hconf : next = "conf_file".toList
  · subst hconf
    rw [parseOption_conf] at h
    cases h
  · rw [parseOption_unknown hnumber hflag hconf] at h
    cases h

/-- A round that goes on has read a flag or an option with its value, or a `conf_file` at the end. -/
theorem parseOption_reads (h : parseOption cp g allConfFiles next s = .next g' a' s') :
    next ∈ flagNames ∧ s' = s ∨
      (∃ value, TakesValue cp next value ∧ strtok (· == ',') s = (some value, s')) ∨ s' = [] := by
  by_cases hnumber : next ∈ numberNames
  · obtain ⟨assign, hassign⟩ := parseOption_number cp g allConfFiles hnumber
    rw [hassign, numberOption] at h
    split at h
    · cases h
    · rename_i value rest hvalue
      dsimp only at h
      split_ifs at h with hend
      cases h
      exact .inr (.inl ⟨value, .inl ⟨hnumber, not_ne_iff.1 hend⟩, hvalue⟩)
  by_cases hflag : next ∈ flagNames
  · obtain ⟨g₁, hg⟩ := parseOption_flag cp g allConfFiles s hflag
    rw [hg] at h
    cases h
    exact .inl ⟨hflag, rfl⟩
  by_cases hconf : next = "conf_file".toList
  · subst hconf
    rw [parseOption_conf] at h
    cases hvalue : strtok (· == ',') s with
    | mk value rest =>
      rw [hvalue] at h
      cases h
      cases value with
      | none => exact .inr (.inr (eq_of_strtok_none hvalue).2)
      | some value => exact .inr (.inl ⟨value, .inr rfl, rfl⟩)
  · rw [parseOption_unknown hnumber hflag hconf] at h
    cases h

/-! ## The strings on which the parser fails -/

theorem not_missingValue_nil : ¬ MissingValue cp [] := by
  rintro ⟨before, name, after, h, -, hname, -, -⟩
  obtain ⟨-, h⟩ := List.append_eq_nil_iff.1 h.symm
  obtain ⟨rfl, -⟩ := List.append_eq_nil_iff.1 h
  exact absurd hname (by decide)

theorem MissingValue.ne_nil (h : MissingValue cp s) : s ≠ [] := by
  rintro rfl
  exact not_missingValue_nil h

theorem CompleteOptions.delims {d : Str} (h : ∀ c ∈ d, isDelim c = true)
    (rest : CompleteOptions cp s) : CompleteOptions cp (d ++ s) := by
  induction d with
  | nil => exact rest
  | cons c d ih =>
    exact .skip (h c (List.mem_cons_self ..)) (ih fun x hx => h x (List.mem_cons_of_mem _ hx))

theorem MissingValue.delims {d : Str} (h : ∀ c ∈ d, isDelim c = true)
    (missing : MissingValue cp s) : MissingValue cp (d ++ s) := by
  obtain ⟨before, name, after, rfl, complete, rest⟩ := missing
  exact ⟨d ++ before, name, after, (List.append_assoc ..).symm, complete.delims h, rest⟩

/-- An option that was read stands before what is left. -/
theorem MissingValue.option {t : Str} (missing : MissingValue cp s')
    (ht : ∀ c ∈ t.head?, isDelim c = true)
    (reads : next ∈ flagNames ∧ s' = t.tail ∨
      (∃ value, TakesValue cp next value ∧ strtok (· == ',') t.tail = (some value, s')) ∨ s' = []) :
    MissingValue cp (next ++ t) := by
  have hs' := missing.ne_nil
  obtain ⟨before, name, after, rfl, complete, hname⟩ := missing
  rcases reads with ⟨hflag, htail⟩ | ⟨value, htakes, hvalue⟩ | hnil
  · cases t with
    | nil => exact absurd htail hs'
    | cons c t =>
      obtain rfl : _ = t := htail
      refine ⟨next ++ c :: before, name, after, ?_, .flag hflag (ht c rfl) complete, hname⟩
      rw [List.append_assoc, List.cons_append]
  · obtain ⟨d, u, htail, hd, hne, hword, hu, hrest⟩ := eq_of_strtok hvalue
    cases t with
    | nil =>
      obtain ⟨-, h⟩ := List.append_eq_nil_iff.1 htail.symm
      exact absurd (List.append_eq_nil_iff.1 h).1 hne
    | cons c t =>
      cases u with
      | nil => exact absurd hrest hs'
      | cons x u =>
        obtain rfl : _ = u := hrest
        obtain rfl : x = ',' := by simpa using hu x rfl
        refine ⟨next ++ c :: (d ++ (value ++ ',' :: before)), name, after, ?_,
          .value htakes (ht c rfl) (fun y hy => by simpa using hd y hy) hne
            (fun y hy => by simpa using hword y hy) complete, hname⟩
        rw [show t = _ from htail]
        simp only [List.append_assoc, List.cons_append]
  · exact absurd hnil hs'

theorem loadConfFiles_ne_crashed {fuel : ℕ} {iniFiles : List Str} :
    loadConfFiles cp iniParse fuel g s iniFiles ≠ .crashed := by
  induction fuel generalizing s iniFiles with
  | zero => simp [loadConfFiles]
  | succ fuel ih =>
    rw [loadConfFiles]
    split
    · simp
    · split_ifs
      · simp
      · exact ih

theorem missingValue_of_crash {fuel : ℕ}
    (h : parseOptions cp iniParse fuel g allConfFiles s = .crashed) : MissingValue cp s := by
  induction fuel generalizing g allConfFiles s with
  | zero => cases h
  | succ fuel ih =>
    rw [parseOptions_succ] at h
    cases htok : strtok (fun c => c == ',' || c == '=') s with
    | mk next rest =>
      rw [htok] at h
      cases next with
      | none =>
        cases allConfFiles with
        | none => cases h
        | some files => exact absurd h loadConfFiles_ne_crashed
      | some next =>
        obtain ⟨d, t, rfl, hd, -, -, ht, rfl⟩ := eq_of_strtok htok
        apply MissingValue.delims hd
        dsimp only at h
        cases hround : parseOption cp g allConfFiles next t.tail with
        | crash =>
          obtain ⟨hnumber, hcommas⟩ := parseOption_crash hround
          exact ⟨[], next, t, rfl, .nil, hnumber, ht, hcommas⟩
        | fail g =>
          rw [hround] at h
          cases h
        | next g' a' s' =>
          rw [hround] at h
          exact (ih h).option ht (parseOption_reads hround)

theorem optionsFrom_skip {c : Char} (hc : isDelim c = true) :
    optionsFrom cp iniParse g allConfFiles (c :: s) = optionsFrom cp iniParse g allConfFiles s := by
  have hskip : strtok (fun c => c == ',' || c == '=') (c :: s) =
      strtok (fun c => c == ',' || c == '=') s :=
    strtok_skip (d := [c]) fun x hx => List.mem_singleton.1 hx ▸ hc
  unfold optionsFrom
  rw [parseOptions_fuel (Nat.lt_succ_self s.length) (show s.length < s.length + 1 + 1 by omega),
    List.length_cons, parseOptions_succ, hskip, parseOptions_succ]

theorem names_ne_nil : ∀ name ∈ numberNames ++ flagNames ++ ["conf_file".toList], name ≠ [] ∧
    name.any (fun c => c == ',' || c == '=') = false := by
  decide

theorem TakesValue.mem_names {name value : Str} (h : TakesValue cp name value) :
    name ∈ numberNames ++ flagNames ++ ["conf_file".toList] := by
  rcases h with ⟨h, -⟩ | rfl
  · exact List.mem_append_left _ (List.mem_append_left _ h)
  · exact List.mem_append_right _ (List.mem_singleton_self _)

/-- The round of an option that takes the value behind some commas. -/
theorem TakesValue.parseOption {name value commas : Str} (h : TakesValue cp name value)
    (hcommas : ∀ x ∈ commas, x = ',') (hvalue : value ≠ []) (hword : ∀ x ∈ value, x ≠ ',')
    (g : AgentSettings) (allConfFiles : Option Str) (s : Str) : ∃ g' a',
      parseOption cp g allConfFiles name (commas ++ (value ++ ',' :: s)) = .next g' a' s := by
  have htok : strtok (· == ',') (commas ++ (value ++ ',' :: s)) = (some value, s) := by
    rw [strtok_skip fun x hx => by simpa using hcommas x hx]
    exact strtok_append hvalue (fun x hx => by simpa using hword x hx) rfl
  rcases h with ⟨hnumber, hend⟩ | rfl
  · obtain ⟨assign, hassign⟩ := parseOption_number cp g allConfFiles hnumber
    rw [hassign, numberOption, htok]
    exact ⟨_, _, if_neg (not_not_intro hend)⟩
  · rw [parseOption_conf, htok]
    exact ⟨g, some value, rfl⟩

theorem CompleteOptions.crash {name after : Str} (complete : CompleteOptions cp s)
    (hname : name ∈ numberNames) (hhead : ∀ c ∈ after.head?, isDelim c = true)
    (htail : ∀ c ∈ after.tail, c = ',') (g : AgentSettings) (allConfFiles : Option Str) :
    optionsFrom cp iniParse g allConfFiles (s ++ (name ++ after)) = .crashed := by
  induction complete generalizing g allConfFiles with
  | nil =>
    obtain ⟨hne, hchars⟩ := names_ne_nil name
      (List.mem_append_left _ (List.mem_append_left _ hname))
    rw [List.any_eq_false] at hchars
    obtain ⟨assign, hassign⟩ := parseOption_number cp g allConfFiles hname
    rw [List.nil_append, optionsFrom, parseOptions_succ,
      strtok_token hne (fun c hc => Bool.of_not_eq_true (hchars c hc)) hhead]
    dsimp only
    rw [hassign, numberOption_crash.2 htail]
  | skip hc rest ih => exact (optionsFrom_skip hc).trans (ih g allConfFiles)
  | @flag flagName c s hflag hc rest ih =>
    obtain ⟨hne, hchars⟩ := names_ne_nil flagName
      (List.mem_append_left _ (List.mem_append_right _ hflag))
    obtain ⟨g', hround⟩ := parseOption_flag cp g allConfFiles (s ++ (name ++ after)) hflag
    rw [List.append_assoc, List.cons_append, optionsFrom_name hne hchars hc hround]
    exact ih g' allConfFiles
  | @value valueName commas value c s htakes hc hcommas hvalue hword rest ih =>
    obtain ⟨hne, hchars⟩ := names_ne_nil valueName htakes.mem_names
    obtain ⟨g', a', hround⟩ := htakes.parseOption hcommas hvalue hword g allConfFiles
      (s ++ (name ++ after))
    simp only [List.append_assoc, List.cons_append]
    rw [optionsFrom_name hne hchars hc hround]
    exact ih g' a'

theorem optionsFrom_crashed_iff :
    optionsFrom cp iniParse g allConfFiles s = .crashed ↔ MissingValue cp s := by
  constructor
  · exact missingValue_of_crash
  · rintro ⟨before, name, after, rfl, complete, hname, hhead, htail⟩
    exact complete.crash hname hhead htail g allConfFiles

/-- `parse_agent_options` returns on exactly the strings that do not end where the value of a number
should stand. -/
theorem option_parsing_returns_iff (cp : CPlatform) (iniParse : Str → ℤ) (g : AgentSettings)
    (options : Option Str) :
    (∃ success g' files, parseAgentOptions cp iniParse g options = .returned success g' files) ↔
      ∀ s ∈ options, ¬ MissingValue cp s := by
  cases options with
  | none =>
    constructor
    · intro _ s hs
      cases hs
    · exact fun _ => ⟨true, g.reset, [], rfl⟩
  | some options =>
    have hcrash : parseAgentOptions cp iniParse g (some options) = .crashed ↔
        MissingValue cp options := optionsFrom_crashed_iff
    have hfuel : parseAgentOptions cp iniParse g (some options) ≠ .outOfFuel :=
      parseAgentOptions_ne_outOfFuel (some options)
    constructor
    · rintro ⟨success, g', files, hreturned⟩ s hs missing
      obtain rfl := Option.some.inj hs
      rw [hcrash.2 missing] at hreturned
      cases hreturned
    · intro complete
      cases hrun : parseAgentOptions cp iniParse g (some options) with
      | crashed => exact absurd (hcrash.1 hrun) (complete options rfl)
      | outOfFuel => exact absurd hrun hfuel
      | returned success g' files => exact ⟨success, g', files, rfl⟩

/-- With the options `tcp_port` the agent reads through NULL. -/
theorem missing_value_fails :
    ¬ ∀ (cp : CPlatform) (iniParse : Str → ℤ) (g : AgentSettings) (options : Option Str),
      ∃ success g' files, parseAgentOptions cp iniParse g options = .returned success g' files := by
  intro returns
  obtain ⟨success, g', files, h⟩ := returns Sample.unix64 (fun _ => 0) .fresh
    (some "tcp_port".toList)
  have hcrash : parseAgentOptions Sample.unix64 (fun _ => 0) .fresh (some "tcp_port".toList) =
      .crashed := by decide
  rw [hcrash] at h
  cases h

end JLeaker
