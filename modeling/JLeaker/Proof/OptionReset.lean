import JLeaker.Proof.AgentOptions
import JLeaker.Proof.Ini
import JLeaker.Proof.OwnConfiguration

/-!
# What earlier attaches leave to the next one

`parse_agent_options` resets every option but `consider_local_references`, and makes both ignore maps
anew.  Two agents with different pasts that are attached alike therefore differ in that one option at
most: they do if exactly one of them was ever given it, and is not given it now.
-/

namespace JLeaker

open CString

variable {cp : CPlatform} {iniParse : Str → ℤ} {g g' : AgentSettings}
  {allConfFiles a' : Option Str} {next s s' : Str} {b : Bool}

/-! ## The parser and the option it does not reset -/

/-- The settings with `consider_local_references` set if `b` says so. -/
def AgentSettings.keepLocal (b : Bool) (g : AgentSettings) : AgentSettings :=
  { g with considerLocalReferences := b || g.considerLocalReferences }

/-- A round with other settings. -/
def Round.map (f : AgentSettings → AgentSettings) : Round → Round
  | .crash => .crash
  | .fail g => .fail (f g)
  | .next g allConfFiles rest => .next (f g) allConfFiles rest

/-- An outcome with other settings. -/
def ParseOutcome.map (f : AgentSettings → AgentSettings) : ParseOutcome → ParseOutcome
  | .crashed => .crashed
  | .outOfFuel => .outOfFuel
  | .returned success g iniFiles => .returned success (f g) iniFiles

theorem numberOption_map {f : AgentSettings → AgentSettings} {assign assign' : ℤ → AgentSettings}
    (h : ∀ n, assign' n = f (assign n)) :
    numberOption cp assign' allConfFiles s = (numberOption cp assign allConfFiles s).map f := by
  unfold numberOption
  rcases strtok (· == ',') s with ⟨_ | value, rest⟩
  · rfl
  · dsimp only
    rw [h]
    split_ifs <;> rfl

theorem parseOption_keepLocal :
    parseOption cp (g.keepLocal b) allConfFiles next s =
      (parseOption cp g allConfFiles next s).map (.keepLocal b) := by
  unfold parseOption
  simp only [apply_ite (Round.map (.keepLocal b))]
  -- the four numbers
  iterate 4 refine ite_congr rfl (fun _ => numberOption_map fun _ => rfl) fun _ => ?_
  iterate 3 refine ite_congr rfl (fun _ => rfl) fun _ => ?_
  refine ite_congr rfl (fun _ => ?_) fun _ => ?_
  · simp [Round.map, AgentSettings.keepLocal]
  iterate 2 refine ite_congr rfl (fun _ => rfl) fun _ => ?_
  rfl

theorem loadConfFiles_map (f : AgentSettings → AgentSettings) {fuel : ℕ} {iniFiles : List Str} :
    loadConfFiles cp iniParse fuel (f g) s iniFiles =
      (loadConfFiles cp iniParse fuel g s iniFiles).map f := by
  induction fuel generalizing s iniFiles with
  | zero => rfl
  | succ fuel ih =>
    unfold loadConfFiles
    rcases strtok (· == PATH_SEPARATOR cp.os) s with ⟨_ | next, rest⟩
    · rfl
    · dsimp only
      split_ifs
      · rfl
      · exact ih

theorem parseOptions_keepLocal {fuel : ℕ} :
    parseOptions cp iniParse fuel (g.keepLocal b) allConfFiles s =
      (parseOptions cp iniParse fuel g allConfFiles s).map (.keepLocal b) := by
  induction fuel generalizing g allConfFiles s with
  | zero => rfl
  | succ fuel ih =>
    rw [parseOptions_succ, parseOptions_succ]
    rcases strtok (fun c => c == ',' || c == '=') s with ⟨_ | next, rest⟩
    · cases allConfFiles with
      | none => rfl
      | some files => exact loadConfFiles_map (.keepLocal b)
    · dsimp only
      rw [parseOption_keepLocal]
      cases parseOption cp g allConfFiles next rest with
      | crash => rfl
      | fail g => rfl
      | next g allConfFiles rest => exact ih

/-- The settings before the call matter for nothing but `consider_local_references`. -/
theorem parseAgentOptions_eq_map (options : Option Str) :
    parseAgentOptions cp iniParse g options =
      (parseAgentOptions cp iniParse .fresh options).map (.keepLocal g.considerLocalReferences) := by
  have reset : g.reset = AgentSettings.fresh.reset.keepLocal g.considerLocalReferences := by
    simp [AgentSettings.reset, AgentSettings.keepLocal, AgentSettings.fresh]
  cases options with
  | none =>
    unfold parseAgentOptions
    rw [reset]
    rfl
  | some options =>
    unfold parseAgentOptions
    rw [reset]
    exact parseOptions_keepLocal

/-! ## The options a string names -/

/-- The names of the options that are read of a string, with the one that ends the call. -/
def optionNames (cp : CPlatform) : ℕ → Str → List Str
  | 0, _ => []
  | fuel + 1, s =>
    match strtok (fun c => c == ',' || c == '=') s with
    | (none, _) => []
    | (some next, s) =>
      next :: match parseOption cp .fresh none next s with
        | .next _ _ s => optionNames cp fuel s
        | _ => []

/-- The attach reads the option `consider_local_references`. -/
def Attach.namesLocal (cp : CPlatform) (a : Attach) : Bool :=
  a.options.any fun options =>
    (optionNames cp (options.length + 1) options).contains "consider_local_references".toList

theorem optionNames_succ (fuel : ℕ) :
    optionNames cp (fuel + 1) s =
      match strtok (fun c => c == ',' || c == '=') s with
      | (none, _) => []
      | (some next, s) =>
        next :: match parseOption cp .fresh none next s with
          | .next _ _ s => optionNames cp fuel s
          | _ => [] := rfl

/-- Two rounds that end alike, the first one with this `consider_local_references`. -/
inductive Round.Alike (b : Bool) : Round → Round → Prop
  | crash : Round.Alike b .crash .crash
  | fail {g g' : AgentSettings} (h : g.considerLocalReferences = b) :
    Round.Alike b (.fail g) (.fail g')
  | next {g g' : AgentSettings} {a a' : Option Str} {rest : Str}
    (h : g.considerLocalReferences = b) : Round.Alike b (.next g a rest) (.next g' a' rest)

theorem Round.alike_ite {c : Prop} [Decidable c] {r₁ r₂ r₁' r₂' : Round}
    (yes : c → r₁.Alike b r₁') (no : ¬ c → r₂.Alike b r₂') :
    (if c then r₁ else r₂).Alike b (if c then r₁' else r₂') := by
  split_ifs with h
  · exact yes h
  · exact no h

theorem numberOption_alike {assign assign' : ℤ → AgentSettings}
    (h : ∀ n, (assign n).considerLocalReferences = b) :
    Round.Alike b (numberOption cp assign allConfFiles s) (numberOption cp assign' a' s) := by
  unfold numberOption
  rcases strtok (· == ',') s with ⟨_ | value, rest⟩
  · exact .crash
  · exact Round.alike_ite (fun _ => .fail (h _)) fun _ => .next (h _)

/-- A round depends on the settings only as far as it leaves them. -/
theorem parseOption_alike (cp : CPlatform) (g : AgentSettings) (allConfFiles : Option Str)
    (next s : Str) :
    Round.Alike
      (g.considerLocalReferences || "consider_local_references".toList == next)
      (parseOption cp g allConfFiles next s) (parseOption cp .fresh none next s) := by
  have other {name : Str} (hname : name ≠ "consider_local_references".toList) (h : next = name) :
      g.considerLocalReferences =
        (g.considerLocalReferences || "consider_local_references".toList == next) := by
    rw [h, beq_false_of_ne hname.symm, Bool.or_false]
  unfold parseOption
  iterate 4
    refine Round.alike_ite (fun h => numberOption_alike fun _ => other (by decide) h) fun _ => ?_
  iterate 3
    refine Round.alike_ite (fun h => .next (other (by decide) h)) fun _ => ?_
  refine Round.alike_ite (fun h => .next ?_) fun hne => ?_
  · simp [h]
  have unset : g.considerLocalReferences =
      (g.considerLocalReferences || "consider_local_references".toList == next) := by
    rw [beq_false_of_ne (Ne.symm hne), Bool.or_false]
  exact Round.alike_ite (fun _ => .next unset) fun _ =>
    Round.alike_ite (fun _ => .next unset) fun _ => .fail unset

theorem loadConfFiles_settings {fuel : ℕ} {iniFiles files : List Str} {success : Bool}
    (h : loadConfFiles cp iniParse fuel g s iniFiles = .returned success g' files) : g' = g := by
  induction fuel generalizing s iniFiles with
  | zero => cases h
  | succ fuel ih =>
    rw [loadConfFiles] at h
    cases htok : strtok (· == PATH_SEPARATOR cp.os) s with
    | mk next rest =>
      rw [htok] at h
      cases next with
      | none =>
        cases h
        rfl
      | some next =>
        dsimp only at h
        split_ifs at h
        · cases h
          rfl
        · exact ih h

/-- The call sets `consider_local_references` exactly if the option is among the names. -/
theorem parseOptions_local {fuel : ℕ} {success : Bool} {files : List Str}
    (h : parseOptions cp iniParse fuel g allConfFiles s = .returned success g' files) :
    g'.considerLocalReferences = (g.considerLocalReferences ||
      (optionNames cp fuel s).contains "consider_local_references".toList) := by
  induction fuel generalizing g allConfFiles s with
  | zero => cases h
  | succ fuel ih =>
    rw [parseOptions_succ] at h
    rw [optionNames_succ]
    cases htok : strtok (fun c => c == ',' || c == '=') s with
    | mk next rest =>
      rw [htok] at h
      cases next with
      | none =>
        cases allConfFiles with
        | none =>
          cases h
          simp
        | some all => simp [loadConfFiles_settings h]
      | some next =>
        have alike := parseOption_alike cp g allConfFiles next rest
        dsimp only at h ⊢
        rw [List.contains_cons, ← Bool.or_assoc]
        generalize parseOption cp g allConfFiles next rest = round at h alike
        generalize parseOption cp .fresh none next rest = round' at alike ⊢
        cases alike with
        | crash => cases h
        | fail hlocal =>
          cases h
          simp [hlocal]
        | next hlocal => rw [ih h, hlocal]

theorem Attach.settings_local {a : Attach} {success : Bool} {settings : AgentSettings}
    {iniFiles : List Str} (parsed : parseAgentOptions cp iniParse .fresh a.options =
      .returned success settings iniFiles) :
    settings.considerLocalReferences = a.namesLocal cp := by
  obtain ⟨options, files⟩ := a
  cases options with
  | none =>
    cases parsed
    rfl
  | some options => exact parseOptions_local parsed

/-! ## One attach -/

/-- What the options and the configuration files decide. -/
def AgentGlobals.optionControlled (g : AgentGlobals) :
    AgentSettings × Option (StrMap Unit) × Option (StrMap (List IgnoreField)) × Bool :=
  (g.settings, g.ignoreClasses.map (·.pairs), g.ignoreReferencedBy.map (·.pairs), g.selfCheck)

/-- The maps of two configurations are equal. -/
def Configuration.SameMaps (conf conf' : Configuration) : Prop :=
  conf.ignoreClasses = conf'.ignoreClasses ∧ conf.ignoreReferencedBy = conf'.ignoreReferencedBy

theorem iniHandler_agree (cp : CPlatform) :
    HandlersAgree Configuration.SameMaps (iniHandler cp) (iniHandler cp) := by
  rintro ⟨classes, fields, counters⟩ ⟨_, _, counters'⟩ sectionName name value ⟨rfl, rfl⟩
  unfold iniHandler
  dsimp only
  split_ifs
  · exact ⟨rfl, rfl, rfl⟩
  · exact ⟨rfl, rfl, rfl⟩
  · rcases splitAtLastDot name with _ | ⟨classname, fieldName⟩
    · exact ⟨rfl, rfl, rfl⟩
    · dsimp only
      split_ifs <;> exact ⟨rfl, rfl, rfl⟩
  · exact ⟨rfl, rfl, rfl⟩

/-- The maps that files leave do not depend on the allocator. -/
theorem readConfFiles_sameMaps (cp : CPlatform) (files : Str → Option Str) (iniFiles : List Str)
    {conf conf' : Configuration} (same : conf.SameMaps conf') :
    (iniFiles.foldl (readConfFile cp files) conf).SameMaps
      (iniFiles.foldl (readConfFile cp files) conf') := by
  induction iniFiles generalizing conf conf' with
  | nil => exact same
  | cons name iniFiles ih => exact ih (iniParse_related (iniHandler_agree cp) files name same).2

theorem AgentGlobals.start_settings (g : AgentGlobals) : g.start.settings = g.settings := by
  unfold AgentGlobals.start
  split_ifs <;> rfl

/-- The global record after `initAgent` has parsed these settings and read these files. -/
def AgentGlobals.configured (cp : CPlatform) (g : AgentGlobals) (a : Attach)
    (settings : AgentSettings) (iniFiles : List Str) : AgentGlobals :=
  let conf := iniFiles.foldl (readConfFile cp a.files) ⟨[], [], g.start.counters⟩
  { g.start with
    settings := settings
    ignoreClasses := some ⟨g.start.mapsCreated, conf.ignoreClasses⟩
    ignoreReferencedBy := some ⟨g.start.mapsCreated + 1, conf.ignoreReferencedBy⟩
    mapsCreated := g.start.mapsCreated + 2
    counters := conf.counters }

theorem initAgent_eq_ok_iff {g g' : AgentGlobals} {a : Attach} {accepted : Bool} :
    initAgent cp g a = .ok (accepted, g') ↔ ∃ settings iniFiles,
      parseAgentOptions cp (a.iniResult cp) .fresh a.options =
        .returned accepted settings iniFiles ∧
      g' = g.configured cp a (settings.keepLocal g.settings.considerLocalReferences) iniFiles := by
  unfold initAgent
  dsimp only
  rw [parseAgentOptions_eq_map, g.start_settings]
  cases parseAgentOptions cp (a.iniResult cp) .fresh a.options with
  | crashed => simp [ParseOutcome.map]
  | outOfFuel => simp [ParseOutcome.map]
  | returned success settings iniFiles =>
    constructor
    · intro h
      cases h
      exact ⟨_, _, rfl, rfl⟩
    · rintro ⟨_, _, h, rfl⟩
      cases h
      rfl

theorem keepLocal_inj {b' : Bool} :
    g.keepLocal b = g.keepLocal b' ↔ g.considerLocalReferences = true ∨ b = b' := by
  obtain ⟨⟩ := g
  simp only [AgentSettings.keepLocal, AgentSettings.mk.injEq, true_and]
  cases b <;> cases b' <;> simp

/-! ## Every history -/

/-- The event is an attach that reads the option `consider_local_references`. -/
def AgentEvent.namesLocal (cp : CPlatform) : AgentEvent → Bool
  | .attach a => a.namesLocal cp
  | .phase .. => false

/-- The allocator does not track its blocks, and will not from the first attach on. -/
structure NotTracking (g : AgentGlobals) : Prop where
  selfCheck : g.selfCheck = false
  settings : g.vmStarted = false → g.settings.selfCheck = false

theorem NotTracking.start {g : AgentGlobals} (h : NotTracking g) :
    g.start.selfCheck = false ∧ g.start.vmStarted = true := by
  unfold AgentGlobals.start
  split_ifs with started
  · exact ⟨h.selfCheck, started⟩
  · exact ⟨h.settings (Bool.not_eq_true _ ▸ started), rfl⟩

theorem runPhase_options {s : AgentProcess} (leaks : Bool) (taken : List Str) (p : DumpPhase) :
    (s.runPhase leaks taken p).2.globals.settings = s.globals.settings ∧
      (s.runPhase leaks taken p).2.globals.selfCheck = s.globals.selfCheck ∧
      (s.runPhase leaks taken p).2.globals.vmStarted = s.globals.vmStarted := by
  cases p
  case start =>
    unfold AgentProcess.runPhase
    split_ifs <;> exact ⟨rfl, rfl, rfl⟩
  all_goals exact ⟨rfl, rfl, rfl⟩

/-- What an event does to `consider_local_references` and to the allocator. -/
theorem AgentProcess.step_options {s s' : AgentProcess} {e : AgentEvent}
    (tracking : NotTracking s.globals) (step : s.step cp e = .ok s') :
    s'.globals.settings.considerLocalReferences =
        (s.globals.settings.considerLocalReferences || e.namesLocal cp) ∧
      NotTracking s'.globals := by
  cases e with
  | attach a =>
    obtain ⟨⟨accepted, g⟩, hinit, hs'⟩ := Run.bind_eq_ok.1 step
    cases hs'
    obtain ⟨settings, iniFiles, parsed, rfl⟩ := initAgent_eq_ok_iff.1 hinit
    refine ⟨?_, tracking.start.1, fun h => ?_⟩
    · rw [AgentEvent.namesLocal, ← a.settings_local parsed]
      rfl
    · exact absurd (tracking.start.2.symm.trans h) Bool.noConfusion
  | phase i leaks taken =>
    rw [AgentEvent.namesLocal, Bool.or_false]
    cases ht : s.threads[i]? with
    | none =>
      simp only [AgentProcess.step, ht] at step
      cases step
      exact ⟨rfl, tracking⟩
    | some t =>
      rw [step_phase ht] at step
      cases step
      obtain ⟨settings, selfCheck, vmStarted⟩ := runPhase_options (s := s) leaks taken t.phase
      refine ⟨congrArg _ settings, selfCheck.trans tracking.selfCheck, fun h => ?_⟩
      exact (congrArg _ settings).trans (tracking.settings (vmStarted.symm.trans h))

theorem AgentProcess.after_options {s s' : AgentProcess} {events : List AgentEvent}
    (tracking : NotTracking s.globals) (run : s.after cp events = .ok s') :
    s'.globals.settings.considerLocalReferences =
        (s.globals.settings.considerLocalReferences || events.any (·.namesLocal cp)) ∧
      NotTracking s'.globals := by
  induction events generalizing s with
  | nil =>
    cases run
    exact ⟨by simp, tracking⟩
  | cons e events ih =>
    obtain ⟨s₁, first, rest⟩ := Run.foldlM_cons_eq_ok.1 run
    obtain ⟨hlocal, tracking⟩ := s.step_options tracking first
    obtain ⟨hrest, tracking⟩ := ih tracking rest
    exact ⟨by rw [hrest, hlocal, List.any_cons, Bool.or_assoc], tracking⟩

theorem notTracking_loaded : NotTracking .loaded := ⟨rfl, fun _ => rfl⟩

/-- After any two histories, an attach leaves the same settings, maps and tracking mode if and only if
it names `consider_local_references` itself, or both histories do, or neither does. -/
theorem attach_resets_options_iff (cp : CPlatform) {earlier₁ earlier₂ : List AgentEvent}
    {s₁ s₂ : AgentProcess} (run₁ : AgentProcess.init.after cp earlier₁ = .ok s₁)
    (run₂ : AgentProcess.init.after cp earlier₂ = .ok s₂) (a : Attach) {accepted : Bool}
    {g₁ : AgentGlobals} (attached : initAgent cp s₁.globals a = .ok (accepted, g₁)) :
    ∃ g₂, initAgent cp s₂.globals a = .ok (accepted, g₂) ∧
      (g₁.optionControlled = g₂.optionControlled ↔ a.namesLocal cp = true ∨
        earlier₁.any (·.namesLocal cp) = earlier₂.any (·.namesLocal cp)) := by
  obtain ⟨settings, iniFiles, parsed, rfl⟩ := initAgent_eq_ok_iff.1 attached
  refine ⟨_, initAgent_eq_ok_iff.2 ⟨settings, iniFiles, parsed, rfl⟩, ?_⟩
  obtain ⟨hlocal₁, tracking₁⟩ := AgentProcess.init.after_options notTracking_loaded run₁
  obtain ⟨hlocal₂, tracking₂⟩ := AgentProcess.init.after_options notTracking_loaded run₂
  obtain ⟨classes, fields⟩ := readConfFiles_sameMaps cp a.files iniFiles
    (⟨rfl, rfl⟩ : Configuration.SameMaps ⟨[], [], s₁.globals.start.counters⟩
      ⟨[], [], s₂.globals.start.counters⟩)
  have selfCheck : s₁.globals.start.selfCheck = s₂.globals.start.selfCheck :=
    tracking₁.start.1.trans tracking₂.start.1.symm
  rw [hlocal₁, hlocal₂, ← a.settings_local parsed]
  simp only [AgentGlobals.optionControlled, AgentGlobals.configured, Option.map_some, classes,
    fields, selfCheck, Prod.mk.injEq, and_true]
  exact keepLocal_inj

namespace Sample

/-- An attach that names the option, and its dump. -/
def localBefore : List AgentEvent :=
  .attach (attachWith "consider_local_references") :: phasesOf 0

end Sample

/-- With the option named again, the two pasts are forgotten. -/
theorem attach_resets_options_named :
    ∃ s g₁ g₂, AgentProcess.init.after Sample.unix64 Sample.localBefore = .ok s ∧
      initAgent Sample.unix64 .loaded (Sample.attachWith "consider_local_references,debug") =
        .ok (true, g₁) ∧
      initAgent Sample.unix64 s.globals (Sample.attachWith "consider_local_references,debug") =
        .ok (true, g₂) ∧
      g₁.optionControlled = g₂.optionControlled := by
  obtain ⟨s, run, -⟩ := Run.exists_ok_of_any
    (x := AgentProcess.init.after Sample.unix64 Sample.localBefore)
    (p := fun _ : AgentProcess => true) (by decide +kernel)
  obtain ⟨⟨accepted, g₁⟩, attached, haccepted⟩ := Run.exists_ok_of_any
    (x := initAgent Sample.unix64 .loaded (Sample.attachWith "consider_local_references,debug"))
    (p := fun r : Bool × AgentGlobals => r.1) (by decide +kernel)
  obtain rfl : accepted = true := haccepted
  obtain ⟨g₂, attached', iff⟩ := attach_resets_options_iff Sample.unix64
    (rfl : AgentProcess.init.after Sample.unix64 [] = .ok .init) run
    (Sample.attachWith "consider_local_references,debug") attached
  exact ⟨s, g₁, g₂, run, attached, attached', iff.2 (.inl (by decide +kernel))⟩

/-- After a dump with `consider_local_references`, an attach without the option keeps it. -/
theorem local_references_kept :
    ∃ s g₁ g₂, AgentProcess.init.after Sample.unix64 Sample.localBefore = .ok s ∧
      (∀ t ∈ s.threads, t.phase = .done) ∧
      initAgent Sample.unix64 .loaded (Sample.attachWith "debug") = .ok (true, g₁) ∧
      initAgent Sample.unix64 s.globals (Sample.attachWith "debug") = .ok (true, g₂) ∧
      g₁.optionControlled ≠ g₂.optionControlled := by
  obtain ⟨s, run, hs⟩ := Run.exists_ok_of_any
    (x := AgentProcess.init.after Sample.unix64 Sample.localBefore)
    (p := fun s : AgentProcess => s.threads.all (fun t : DumpThread => decide (t.phase = .done)) &&
      (initAgent Sample.unix64 .loaded (Sample.attachWith "debug")).toOption.any
        fun r : Bool × AgentGlobals => r.1 &&
          (initAgent Sample.unix64 s.globals (Sample.attachWith "debug")).toOption.any
            fun r' : Bool × AgentGlobals => r'.1 && decide (r.2.settings ≠ r'.2.settings))
    (by decide +kernel)
  obtain ⟨hdone, hs⟩ := Bool.and_eq_true_iff.1 hs
  obtain ⟨⟨accepted, g₁⟩, attached, hs⟩ := Run.exists_ok_of_any hs
  obtain ⟨haccepted, hs⟩ := Bool.and_eq_true_iff.1 hs
  obtain ⟨⟨accepted', g₂⟩, attached', hs⟩ := Run.exists_ok_of_any hs
  obtain ⟨haccepted', hne⟩ := Bool.and_eq_true_iff.1 hs
  obtain rfl : accepted = true := haccepted
  obtain rfl : accepted' = true := haccepted'
  refine ⟨s, g₁, g₂, run, by simpa using hdone, attached, attached', fun heq => ?_⟩
  exact of_decide_eq_true hne (congrArg Prod.fst heq)

end JLeaker
