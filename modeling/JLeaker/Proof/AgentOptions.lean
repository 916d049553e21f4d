import JLeaker.Model.AgentOptions

/-!
# What `parse_agent_options` reads

Both loops run as long as `strtok` finds a token, so the length of the string bounds them.  Freed
of the fuel, the loop over the options has one rule for each kind of option.
-/

namespace JLeaker

open CString

variable {cp : CPlatform} {iniParse : Str → ℤ} {g g' : AgentSettings} {allConfFiles a' : Option Str}
  {next s s' : Str}

/-! ## One round of the loop -/

theorem numberOption_next {assign : ℤ → AgentSettings}
    (h : numberOption cp assign allConfFiles s = .next g' a' s') :
    ∃ value, strtok (· == ',') s = (some value, s') ∧ a' = allConfFiles := by
  unfold numberOption at h
  split at h
  · cases h
  · rename_i value rest hvalue
    dsimp only at h
    split_ifs at h
    cases h
    exact ⟨value, hvalue, rfl⟩

theorem Round.of_ite {c P : Prop} [Decidable c] {x y z : Round} (h : (if c then x else y) = z)
    (hx : x = z → P) (hy : y = z → P) : P := by
  split at h
  · exact hx h
  · exact hy h

/-- What a round may leave of the string and of `all_conf_files`. -/
def MayLeave (s : Str) (allConfFiles : Option Str) (s' : Str) (a' : Option Str) : Prop :=
  s' = s ∧ a' = allConfFiles ∨
    (∃ value, strtok (· == ',') s = (some value, s') ∧ (a' = allConfFiles ∨ a' = some value)) ∨
    strtok (· == ',') s = (none, s') ∧ a' = none

theorem parseOption_next (h : parseOption cp g allConfFiles next s = .next g' a' s') :
    MayLeave s allConfFiles s' a' := by
  have number : ∀ {assign : ℤ → AgentSettings},
      numberOption cp assign allConfFiles s = .next g' a' s' → MayLeave s allConfFiles s' a' := by
    intro assign h
    obtain ⟨value, hvalue, rfl⟩ := numberOption_next h
    exact .inr (.inl ⟨value, hvalue, .inl rfl⟩)
  have flag : ∀ {g₁ : AgentSettings},
      Round.next g₁ allConfFiles s = .next g' a' s' → MayLeave s allConfFiles s' a' := by
    intro g₁ h
    cases h
    exact .inl ⟨rfl, rfl⟩
  unfold parseOption at h
  iterate 4 refine Round.of_ite h number fun h => ?_
  iterate 4 refine Round.of_ite h flag fun h => ?_
  refine Round.of_ite h (fun h => ?_) fun h => ?_
  · cases hvalue : strtok (· == ',') s with
    | mk value rest =>
      rw [hvalue] at h
      cases h
      cases a' with
      | none => exact .inr (.inr ⟨hvalue, rfl⟩)
      | some files => exact .inr (.inl ⟨files, hvalue, .inr rfl⟩)
  · refine Round.of_ite h flag fun h => ?_
    cases h

theorem parseOption_length_le (h : parseOption cp g allConfFiles next s = .next g' a' s') :
    s'.length ≤ s.length := by
  obtain ⟨rfl, -⟩ | ⟨value, hvalue, -⟩ | ⟨hnone, -⟩ := parseOption_next h
  · exact le_rfl
  · exact (length_rest_lt hvalue).le
  · rw [(eq_of_strtok_none hnone).2]
    exact Nat.zero_le _

/-! ## The loops end -/

theorem parseOptions_succ (fuel : ℕ) :
    parseOptions cp iniParse (fuel + 1) g allConfFiles s =
      match strtok (fun c => c == ',' || c == '=') s with
      | (none, _) =>
        match allConfFiles with
        | none => .returned true g []
        | some files => loadConfFiles cp iniParse (files.length + 1) g files []
      | (some next, s) =>
        match parseOption cp g allConfFiles next s with
        | .crash => .crashed
        | .fail g => .returned false g []
        | .next g allConfFiles s => parseOptions cp iniParse fuel g allConfFiles s := rfl

theorem loadConfFiles_ne_outOfFuel {fuel : ℕ} {iniFiles : List Str} (h : s.length < fuel) :
    loadConfFiles cp iniParse fuel g s iniFiles ≠ .outOfFuel := by
  induction fuel generalizing s iniFiles with
  | zero => omega
  | succ fuel ih =>
    rw [loadConfFiles]
    cases htok : strtok (· == PATH_SEPARATOR cp.os) s with
    | mk next rest =>
      cases next with
      | none => simp
      | some next =>
        have := length_rest_lt htok
        dsimp only
        split_ifs
        · simp
        · exact ih (by omega)

/-- With more fuel than the string has characters, the fuel does not matter. -/
theorem parseOptions_fuel {fuel fuel' : ℕ} (h : s.length < fuel) (h' : s.length < fuel') :
    parseOptions cp iniParse fuel g allConfFiles s =
      parseOptions cp iniParse fuel' g allConfFiles s := by
  induction fuel generalizing fuel' g allConfFiles s with
  | zero => omega
  | succ fuel ih =>
    obtain ⟨fuel', rfl⟩ : ∃ n, fuel' = n + 1 := ⟨fuel' - 1, by omega⟩
    rw [parseOptions_succ, parseOptions_succ]
    cases htok : strtok (fun c => c == ',' || c == '=') s with
    | mk next rest =>
      cases next with
      | none => rfl
      | some next =>
        have hrest := length_rest_lt htok
        dsimp only
        cases hround : parseOption cp g allConfFiles next rest with
        | crash => rfl
        | fail g => rfl
        | next g' a' s' =>
          have := parseOption_length_le hround
          exact ih (by omega) (by omega)

theorem parseOptions_ne_outOfFuel {fuel : ℕ} (h : s.length < fuel) :
    parseOptions cp iniParse fuel g allConfFiles s ≠ .outOfFuel := by
  induction fuel generalizing g allConfFiles s with
  | zero => omega
  | succ fuel ih =>
    rw [parseOptions_succ]
    cases htok : strtok (fun c => c == ',' || c == '=') s with
    | mk next rest =>
      cases next with
      | none =>
        cases allConfFiles with
        | none => simp
        | some files => exact loadConfFiles_ne_outOfFuel (Nat.lt_succ_self _)
      | some next =>
        have hrest := length_rest_lt htok
        dsimp only
        cases hround : parseOption cp g allConfFiles next rest with
        | crash => simp
        | fail g => simp
        | next g' a' s' =>
          have := parseOption_length_le hround
          exact ih (by omega)

/-- `parse_agent_options` ends on every string. -/
theorem parseAgentOptions_ne_outOfFuel (options : Option Str) :
    parseAgentOptions cp iniParse g options ≠ .outOfFuel := by
  cases options with
  | none => simp [parseAgentOptions]
  | some options => exact parseOptions_ne_outOfFuel (Nat.lt_succ_self _)

/-! ## The files `ini_parse` is called with -/

theorem loadConfFiles_mem {fuel : ℕ} {iniFiles files : List Str} {success : Bool}
    (h : loadConfFiles cp iniParse fuel g s iniFiles = .returned success g' files) {f : Str}
    (hf : f ∈ files) : f ∈ iniFiles ∨ ∀ c ∈ f, c ∈ s ∧ c ≠ PATH_SEPARATOR cp.os := by
  induction fuel generalizing s iniFiles with
  | zero => cases h
  | succ fuel ih =>
    rw [loadConfFiles] at h
    cases htok : strtok (· == PATH_SEPARATOR cp.os) s with
    | mk next rest =>
      rw [htok] at h
      cases next with
      | none =>
        cases h
        exact .inl hf
      | some next =>
        have hnext : ∀ c ∈ next, c ∈ s ∧ c ≠ PATH_SEPARATOR cp.os := fun c hc => by
          simpa using mem_of_strtok htok hc
        have happend : f ∈ iniFiles ++ [next] →
            f ∈ iniFiles ∨ ∀ c ∈ f, c ∈ s ∧ c ≠ PATH_SEPARATOR cp.os := by
          rw [List.mem_append, List.mem_singleton]
          rintro (hmem | rfl)
          · exact .inl hmem
          · exact .inr hnext
        dsimp only at h
        split_ifs at h
        · cases h
          exact happend hf
        · rcases ih h with hmem | hrest
          · exact happend hmem
          · exact .inr fun c hc => ⟨mem_of_strtok_rest htok (hrest c hc).1, (hrest c hc).2⟩

/-- A file name consists of characters of the options, without the delimiters of `strtok`. -/
theorem parseOptions_mem {fuel : ℕ} {files : List Str} {success : Bool} {options : Str}
    (h : parseOptions cp iniParse fuel g allConfFiles s = .returned success g' files)
    (hs : s ⊆ options) (ha : ∀ value ∈ allConfFiles, ∀ c ∈ value, c ∈ options ∧ c ≠ ',') :
    ∀ f ∈ files, ∀ c ∈ f, c ∈ options ∧ c ≠ ',' ∧ c ≠ PATH_SEPARATOR cp.os := by
  induction fuel generalizing g allConfFiles s with
  | zero => cases h
  | succ fuel ih =>
    rw [parseOptions_succ] at h
    cases htok : strtok (fun c => c == ',' || c == '=') s with
    | mk next rest =>
      rw [htok] at h
      cases next with
      | none =>
        cases allConfFiles with
        | none =>
          cases h
          simp
        | some value =>
          intro f hf c hc
          obtain hnil | hvalue := loadConfFiles_mem h hf
          · cases hnil
          · obtain ⟨hcv, hsep⟩ := hvalue c hc
            exact ⟨(ha value rfl c hcv).1, (ha value rfl c hcv).2, hsep⟩
      | some next =>
        have hrest : rest ⊆ options := fun c hc => hs (mem_of_strtok_rest htok hc)
        dsimp only at h
        cases hround : parseOption cp g allConfFiles next rest with
        | crash =>
          rw [hround] at h
          cases h
        | fail g =>
          rw [hround] at h
          cases h
          simp
        | next g₁ a₁ s₁ =>
          rw [hround] at h
          obtain ⟨rfl, rfl⟩ | ⟨value, hvalue, ha₁⟩ | ⟨hnone, rfl⟩ := parseOption_next hround
          · exact ih h hrest ha
          · refine ih h (fun c hc => hrest (mem_of_strtok_rest hvalue hc)) ?_
            rcases ha₁ with rfl | rfl
            · exact ha
            · rintro _ ⟨⟩ c hc
              obtain ⟨hmem, hcomma⟩ := mem_of_strtok hvalue hc
              exact ⟨hrest hmem, by simpa using hcomma⟩
          · rw [(eq_of_strtok_none hnone).2] at h
            exact ih h (List.nil_subset _) (by simp)

theorem parseAgentOptions_mem {files : List Str} {success : Bool} {options : Str}
    (h : parseAgentOptions cp iniParse g (some options) = .returned success g' files) :
    ∀ f ∈ files, ∀ c ∈ f, c ∈ options ∧ c ≠ ',' ∧ c ≠ PATH_SEPARATOR cp.os :=
  parseOptions_mem h (List.Subset.refl _) (by simp)

/-- With readable files all tokens are loaded. -/
theorem loadConfFiles_eq {fuel : ℕ} {iniFiles : List Str} (h : s.length < fuel)
    (readable : ∀ f ∈ tokens (· == PATH_SEPARATOR cp.os) s, 0 ≤ iniParse f) :
    loadConfFiles cp iniParse fuel g s iniFiles =
      .returned true g (iniFiles ++ tokens (· == PATH_SEPARATOR cp.os) s) := by
  induction fuel generalizing s iniFiles with
  | zero => omega
  | succ fuel ih =>
    rw [loadConfFiles]
    cases htok : strtok (· == PATH_SEPARATOR cp.os) s with
    | mk next rest =>
      cases next with
      | none => simp [tokens_of_strtok_none htok]
      | some next =>
        have hlen := length_rest_lt htok
        rw [tokens_of_strtok htok] at readable ⊢
        have hnext : ¬iniParse next < 0 := by simpa using readable next (by simp)
        dsimp only
        rw [if_neg hnext, ih (by omega) fun f hf => readable f (by simp [hf]), List.append_assoc,
          List.singleton_append]

/-! ## The rules of the loop -/

/-- The loop over the options with the fuel `parse_agent_options` gives it. -/
def optionsFrom (cp : CPlatform) (iniParse : Str → ℤ) (g : AgentSettings)
    (allConfFiles : Option Str) (s : Str) : ParseOutcome :=
  parseOptions cp iniParse (s.length + 1) g allConfFiles s

/-- A name and the delimiter after it take one round. -/
theorem optionsFrom_name {d : Char} (hne : next ≠ [])
    (hname : next.any (fun c => c == ',' || c == '=') = false) (hd : (d == ',' || d == '=') = true)
    (hround : parseOption cp g allConfFiles next s = .next g' a' s') :
    optionsFrom cp iniParse g allConfFiles (next ++ d :: s) = optionsFrom cp iniParse g' a' s' := by
  have hlen := parseOption_length_le hround
  have hchars : ∀ c ∈ next, (c == ',' || c == '=') = false := by
    simpa only [List.any_eq_false, Bool.not_eq_true] using hname
  rw [optionsFrom, parseOptions_succ, strtok_append hne hchars hd]
  dsimp only
  rw [hround]
  exact parseOptions_fuel (by simp; omega) (Nat.lt_succ_self _)

theorem toInt_eq {n : ℤ} (h : -2 ^ 31 ≤ n ∧ n < 2 ^ 31) : toInt n = n :=
  Int.bmod_eq_of_le (by omega) (by omega)

theorem strtol_decimal_int {n : ℤ} (h : -2 ^ 31 ≤ n ∧ n < 2 ^ 31) :
    strtol cp.longBits (decimal n) = (n, []) := by
  have hle : 31 ≤ cp.longBits - 1 := Nat.sub_le_sub_right cp.le_longBits 1
  have hbits : (2 : ℤ) ^ 31 ≤ 2 ^ (cp.longBits - 1) :=
    mod_cast Nat.pow_le_pow_right (by decide : 0 < 2) hle
  exact strtol_decimal (by omega) (by omega)

theorem ne_comma_of_mem_decimal {n : ℤ} {c : Char} (hc : c ∈ decimal n) : (c == ',') = false := by
  rcases mem_decimal hc with rfl | hdigit
  · decide
  · rw [beq_eq_false_iff_ne]
    rintro rfl
    simp at hdigit

theorem numberOption_decimal {n : ℤ} (h : -2 ^ 31 ≤ n ∧ n < 2 ^ 31) (assign : ℤ → AgentSettings) :
    numberOption cp assign allConfFiles (decimal n ++ ',' :: s) =
      .next (assign n) allConfFiles s := by
  rw [numberOption, strtok_append (decimal_ne_nil n) (fun _ => ne_comma_of_mem_decimal) (by rfl)]
  dsimp only
  rw [strtol_decimal_int h]
  simp [toInt_eq h]

theorem numberOption_decimal_end {n : ℤ} (h : -2 ^ 31 ≤ n ∧ n < 2 ^ 31)
    (assign : ℤ → AgentSettings) :
    numberOption cp assign allConfFiles (decimal n) = .next (assign n) allConfFiles [] := by
  rw [numberOption, strtok_end (decimal_ne_nil n) (fun _ => ne_comma_of_mem_decimal)]
  dsimp only
  rw [strtol_decimal_int h]
  simp [toInt_eq h]

end JLeaker
