import JLeaker.Lib.Run
import JLeaker.Model.CommandLine

/-!
# What a command line asks for

`Request` is what the switches of a command line say, `Request.settings` and `Request.confFiles`
what the agent should make of it.  `JLeaker.parse` builds the agent's options from nothing else.
-/

namespace JLeaker

open CString

variable {os : OS} {rt : JavaRuntime os}

/-! ## Requests -/

/-- The request a command line makes of the agent; `none` stands for a switch that is not given. -/
structure Request where
  sizeThreshold : Option JInt
  referenceChainLength : Option JInt
  maxFanIn : Option JInt
  debug : Bool
  selfCheck : Bool
  showUnreachables : Bool
  noGc : Bool
  considerLocalReferences : Bool
  confPath : Str
  confFile : Option Str

/-- The string given for a switch. -/
def stringOf (values : Values) (arg : Str) : Option Str :=
  match values (strippedArg arg) with
  | some (.string s) => some s
  | _ => none

/-- The number given for a switch. -/
def integerOf (values : Values) (arg : Str) : Option JInt :=
  match values (strippedArg arg) with
  | some (.integer n) => some n
  | _ => none

/-- The request in the values of a command line; the configuration path is always given. -/
def Request.ofValues (values : Values) : Request where
  sizeThreshold := integerOf values argSizeThreshold
  referenceChainLength := integerOf values argReferenceChainLength
  maxFanIn := integerOf values argMaxFanIn
  debug := existsArg values argDebug
  selfCheck := existsArg values argSelfCheck
  showUnreachables := existsArg values argShowUnreachables
  noGc := existsArg values argNoGc
  considerLocalReferences := existsArg values argConsiderLocalRef
  confPath := (stringOf values argConfPath).getD []
  confFile := stringOf values argConfFile

namespace Request

/-- The settings of an agent that follows the request and reports to the port. -/
def settings (r : Request) (port : JInt) : AgentSettings where
  tcpPort := port
  sizeThreshold := r.sizeThreshold.getD defaultSizeThreshold
  referenceChainLength := r.referenceChainLength.getD defaultReferenceChainLength
  maxFanIn := r.maxFanIn.elim 5 Subtype.val
  debug := r.debug
  selfCheck := r.selfCheck
  numElementsToDump := 5
  runGc := !r.noGc
  showUnreachables := r.showUnreachables
  considerLocalReferences := r.considerLocalReferences

/-- The configuration files named on the command line, normalised. -/
def namedFiles (rt : JavaRuntime os) (r : Request) : List Str :=
  r.confFile.elim [] fun confFile =>
    (tokens (· == pathSeparator os) confFile).map (confFilePath rt r.confPath)

/-- The configuration files to load, the default one last. -/
def confFiles (rt : JavaRuntime os) (r : Request) : List Str :=
  r.namedFiles rt ++ [defaultConf os r.confPath]

/-- The requests whose paths the delimiters of the options leave intact: the configuration path has
neither a comma nor a path separator, and `--conf-file` has no comma and names some file. -/
def Encodable (os : OS) (r : Request) : Prop :=
  ',' ∉ r.confPath ∧ pathSeparator os ∉ r.confPath ∧
    ∀ confFile ∈ r.confFile, ',' ∉ confFile ∧ ∃ c ∈ confFile, c ≠ pathSeparator os

/-- The options for the agent, with `confFile` the value of `conf_file`. -/
def options (r : Request) (confFile : Str) (port : JInt) : Str :=
  flagOption r.debug "debug".toList ++ (flagOption r.selfCheck "self_check".toList ++
  (r.maxFanIn.elim [] (fun n => "max_fan_in".toList ++ '=' :: (decimal n ++ [','])) ++
  (flagOption r.showUnreachables "show_unreachables".toList ++
  (flagOption r.noGc "no_gc".toList ++
  (flagOption r.considerLocalReferences "consider_local_references".toList ++
  ("conf_file".toList ++ '=' :: (confFile ++ ',' ::
  ("size_threshold".toList ++ '=' ::
    (decimal (r.sizeThreshold.getD defaultSizeThreshold) ++ ',' ::
  ("reference_chain_length".toList ++ '=' ::
    (decimal (r.referenceChainLength.getD defaultReferenceChainLength) ++ ',' ::
  ("tcp_port".toList ++ '=' :: decimal port))))))))))))

end Request

/-! ## Accepted command lines -/

/-- An accepted command line gives every mandatory switch. -/
theorem CmdLineParser.parse_mandatory {args : List Str} {values : Values}
    (h : CmdLineParser.parse rt args = .ok values) {name prop : Str}
    (hsw : (name, prop) ∈ switches) (hm : 'm' ∈ prop) : values name ≠ none := by
  obtain ⟨parsed, -, h⟩ := Run.bind_eq_ok.mp h
  split at h
  · cases h
  · rename_i hfind
    cases h
    have := List.find?_eq_none.mp hfind (name, prop) ((rt.hashOrder_perm switches).mem_iff.mpr hsw)
    simpa [hm] using this

theorem stringOf_eq {values : Values} {arg : Str} {s : Option Str}
    (h : getString values arg = .ok s) : stringOf values arg = s := by
  unfold getString at h
  unfold stringOf
  split at h <;> cases h <;> simp_all

theorem getString_some {values : Values} {arg : Str} {s : Option Str}
    (h : getString values arg = .ok s) (hgiven : values (strippedArg arg) ≠ none) :
    ∃ path, s = some path := by
  unfold getString at h
  split at h
  · contradiction
  · cases h
    exact ⟨_, rfl⟩
  · cases h

theorem integerOf_eq {values : Values} {arg : Str} {n : Option JInt}
    (h : getInteger values arg = .ok n) : integerOf values arg = n := by
  unfold getInteger at h
  unfold integerOf
  split at h <;> cases h <;> simp_all

/-- `JLeaker.parse` and `JLeaker.execute` build the options from the request. -/
theorem launcherOf_options {values : Values} {j : Launcher} (h : launcherOf rt values = .ok j)
    (hconf : values (strippedArg argConfPath) ≠ none) :
    ∃ confFile, confFileOption rt (Request.ofValues values).confPath
        (Request.ofValues values).confFile = .ok confFile ∧
      ∀ port, j.agentOptions port = (Request.ofValues values).options confFile port := by
  unfold launcherOf at h
  obtain ⟨libPath, -, h⟩ := Run.bind_eq_ok.mp h
  obtain ⟨confPath, hconfPath, h⟩ := Run.bind_eq_ok.mp h
  obtain ⟨sizeThreshold, hsizeThreshold, h⟩ := Run.bind_eq_ok.mp h
  obtain ⟨pid, -, h⟩ := Run.bind_eq_ok.mp h
  obtain ⟨pid, -, h⟩ := Run.bind_eq_ok.mp h
  obtain ⟨refLength, hrefLength, h⟩ := Run.bind_eq_ok.mp h
  obtain ⟨maxFanIn, hmaxFanIn, h⟩ := Run.bind_eq_ok.mp h
  obtain ⟨given, hgiven, h⟩ := Run.bind_eq_ok.mp h
  obtain ⟨confFile, hconfFile, h⟩ := Run.bind_eq_ok.mp h
  cases h
  obtain ⟨path, rfl⟩ := getString_some hconfPath hconf
  refine ⟨confFile, ?_, fun port => ?_⟩
  · simpa [Request.ofValues, stringOf_eq hconfPath, stringOf_eq hgiven, concatString] using hconfFile
  · simp [Launcher.agentOptions, Request.options, Request.ofValues, integerOf_eq hsizeThreshold,
      integerOf_eq hrefLength, integerOf_eq hmaxFanIn]

/-! ## The configuration files -/

theorem mapM_accessible {path : Str → Str} {ts files : List Str}
    (h : (ts.mapM fun t => accessible rt (path t)) = .ok files) :
    files = ts.map path ∧ ∀ t ∈ ts, rt.canRead (path t) = true := by
  induction ts generalizing files with
  | nil =>
    cases h
    exact ⟨rfl, by simp⟩
  | cons t ts ih =>
    rw [List.mapM_cons] at h
    obtain ⟨f, hf, h⟩ := Run.bind_eq_ok.mp h
    obtain ⟨rest, hrest, h⟩ := Run.bind_eq_ok.mp h
    cases h
    obtain ⟨rfl, hread⟩ := ih hrest
    unfold accessible at hf
    split_ifs at hf with ht
    cases hf
    exact ⟨rfl, by simpa [ht] using hread⟩

/-- A request that names a file, or has no `--conf-file`, is passed on as its files, each followed
by the path separator, and the default file. -/
theorem confFileOption_eq {r : Request} {confFile : Str}
    (h : confFileOption rt r.confPath r.confFile = .ok confFile)
    (hnamed : ∀ c ∈ r.confFile, tokens (· == pathSeparator os) c ≠ []) :
    confFile = (r.namedFiles rt).flatMap (· ++ [pathSeparator os]) ++ defaultConf os r.confPath ∧
      ∀ f ∈ r.namedFiles rt, rt.canRead f = true := by
  unfold confFileOption at h
  cases hgiven : r.confFile with
  | none =>
    rw [hgiven] at h
    cases h
    simp [Request.namedFiles, hgiven]
  | some given =>
    rw [hgiven] at h
    dsimp only at h
    rw [if_neg (hnamed given hgiven)] at h
    obtain ⟨files, hfiles, h⟩ := Run.bind_eq_ok.mp h
    cases h
    obtain ⟨rfl, hread⟩ := mapM_accessible hfiles
    simpa [Request.namedFiles, hgiven] using hread

/-- Without a token the value of `--conf-file` is passed on as it is. -/
theorem confFileOption_of_no_token {r : Request} {confFile given : Str}
    (h : confFileOption rt r.confPath r.confFile = .ok confFile) (hgiven : r.confFile = some given)
    (hnone : tokens (· == pathSeparator os) given = []) : confFile = given := by
  rw [hgiven] at h
  unfold confFileOption at h
  dsimp only at h
  rw [if_pos hnone] at h
  cases h
  rfl

theorem comma_ne_pathSeparator (os : OS) : ',' ≠ pathSeparator os := by
  cases os <;> decide

/-- The delimiters that the paths in the options must not contain. -/
def IsDelimiter (os : OS) (c : Char) : Prop := c = ',' ∨ c = pathSeparator os

theorem IsDelimiter.ne_separator {c : Char} (h : IsDelimiter os c) : c ≠ separator os := by
  rcases h with rfl | rfl <;> cases os <;> decide

theorem IsDelimiter.not_mem_jleakerConf {c : Char} (h : IsDelimiter os c) :
    c ∉ "jleaker.conf".toList := by
  rcases h with rfl | rfl
  · decide
  · cases os <;> decide

theorem IsDelimiter.mem_defaultConf {c : Char} (h : IsDelimiter os c) {confPath : Str} :
    c ∈ defaultConf os confPath ↔ c ∈ confPath := by
  simp only [defaultConf, List.mem_append, List.mem_singleton, h.ne_separator, or_false,
    h.not_mem_jleakerConf]

/-- A delimiter in the path of a file comes from the command line. -/
theorem IsDelimiter.mem_confFilePath {c : Char} (h : IsDelimiter os c) {confPath token : Str}
    (hmem : c ∈ confFilePath rt confPath token) : c ∈ confPath ∨ c ∈ token := by
  unfold confFilePath at hmem
  dsimp only at hmem
  split_ifs at hmem
  · exact .inr ((rt.mem_getPath _ c h).mp hmem)
  · have := (rt.mem_getPath _ c h).mp hmem
    simpa only [List.mem_append, List.mem_singleton, h.ne_separator, or_false,
      rt.mem_getPath _ c h] using this

/-- Every delimiter of a name stays in the path. -/
theorem IsDelimiter.mem_confFilePath_of_mem {c : Char} (h : IsDelimiter os c) {confPath token : Str}
    (hmem : c ∈ token) : c ∈ confFilePath rt confPath token := by
  have hpath := (rt.mem_getPath token c h).mpr hmem
  unfold confFilePath
  dsimp only
  split_ifs
  · exact hpath
  · exact (rt.mem_getPath _ c h).mpr (by simp [hpath])

namespace Request

theorem mem_namedFiles {r : Request} {f : Str} (hf : f ∈ r.namedFiles rt) :
    ∃ given ∈ r.confFile, ∃ token ∈ tokens (· == pathSeparator os) given,
      f = confFilePath rt r.confPath token := by
  cases hgiven : r.confFile with
  | none => simp [namedFiles, hgiven] at hf
  | some given =>
    simp only [namedFiles, hgiven, Option.elim_some, List.mem_map] at hf
    obtain ⟨token, htoken, rfl⟩ := hf
    exact ⟨given, rfl, token, htoken, rfl⟩

/-- The files of an encodable request are words between the delimiters of the options. -/
theorem Encodable.not_mem_confFiles {r : Request} (h : r.Encodable os) {c : Char}
    (hc : IsDelimiter os c) {f : Str} (hf : f ∈ r.confFiles rt) : c ∉ f := by
  obtain ⟨hcomma, hsep, hnamed⟩ := h
  have hpath : c ∉ r.confPath := by rcases hc with rfl | rfl <;> assumption
  rw [confFiles, List.mem_append, List.mem_singleton] at hf
  rcases hf with hf | rfl
  · obtain ⟨given, hgiven, token, htoken, rfl⟩ := mem_namedFiles hf
    have htok : c ∉ token := by
      rintro hmem
      obtain ⟨hmem, hdelim⟩ := mem_of_mem_tokens htoken hmem
      rcases hc with rfl | rfl
      · exact (hnamed given hgiven).1 hmem
      · simp at hdelim
    intro hmem
    rcases hc.mem_confFilePath hmem with hmem | hmem
    · exact hpath hmem
    · exact htok hmem
  · rwa [hc.mem_defaultConf]

theorem confFiles_ne_nil {r : Request} (hread : ∀ f ∈ r.namedFiles rt, rt.canRead f = true) {f : Str}
    (hf : f ∈ r.confFiles rt) : f ≠ [] := by
  rw [confFiles, List.mem_append, List.mem_singleton] at hf
  rcases hf with hf | rfl
  · rintro rfl
    simpa [rt.canRead_nil] using hread [] hf
  · simp [defaultConf]

/-- The condition an encodable request puts on `--conf-file`, in terms of its tokens. -/
theorem Encodable.tokens_ne_nil {r : Request} (h : r.Encodable os) {given : Str}
    (hgiven : given ∈ r.confFile) : tokens (· == pathSeparator os) given ≠ [] := by
  obtain ⟨c, hc, hne⟩ := (h.2.2 given hgiven).2
  intro hnil
  exact hne (by simpa using tokens_eq_nil_iff.mp hnil c hc)

end Request

end JLeaker
