import JLeaker.Proof.AgentOptions
import JLeaker.Proof.CommandLine

/-!
# From the command line to the agent

The agent reads the options that `JLeaker.execute` passes back as the request of the command line
exactly if the request is encodable.
-/

namespace JLeaker

open CString

variable {cp : CPlatform} {iniParse : Str → ℤ} {rt : JavaRuntime cp.os} {g : AgentSettings}
  {allConfFiles : Option Str} {s : Str}

theorem PATH_SEPARATOR_eq (os : OS) : PATH_SEPARATOR os = pathSeparator os := by
  cases os <;> rfl

/-! ## Encodable requests arrive -/

/-- A flag, given or not, sets its field. -/
theorem optionsFrom_flagOption {given : Bool} {name : Str} (set : Bool → AgentSettings)
    (hne : name ≠ []) (hname : name.any (fun c => c == ',' || c == '=') = false)
    (hround : parseOption cp (set false) allConfFiles name s = .next (set true) allConfFiles s) :
    optionsFrom cp iniParse (set false) allConfFiles (flagOption given name ++ s) =
      optionsFrom cp iniParse (set given) allConfFiles s := by
  cases given with
  | false => rfl
  | true =>
    rw [flagOption, if_pos rfl, List.append_assoc, List.singleton_append]
    exact optionsFrom_name hne hname (by decide) hround

/-- A number in the options sets its field. -/
theorem optionsFrom_number {name : Str} (assign : ℤ → AgentSettings) (n : JInt) (hne : name ≠ [])
    (hname : name.any (fun c => c == ',' || c == '=') = false)
    (hround : ∀ s, parseOption cp g allConfFiles name s = numberOption cp assign allConfFiles s) :
    optionsFrom cp iniParse g allConfFiles (name ++ '=' :: (decimal n ++ ',' :: s)) =
      optionsFrom cp iniParse (assign n) allConfFiles s :=
  optionsFrom_name hne hname (by decide) ((hround _).trans (numberOption_decimal n.2 assign))

theorem optionsFrom_number_end {name : Str} (assign : ℤ → AgentSettings) (n : JInt)
    (hne : name ≠ []) (hname : name.any (fun c => c == ',' || c == '=') = false)
    (hround : ∀ s, parseOption cp g allConfFiles name s = numberOption cp assign allConfFiles s) :
    optionsFrom cp iniParse g allConfFiles (name ++ '=' :: decimal n) =
      optionsFrom cp iniParse (assign n) allConfFiles [] :=
  optionsFrom_name hne hname (by decide) ((hround _).trans (numberOption_decimal_end n.2 assign))

theorem optionsFrom_maxFanIn (maxFanIn : Option JInt) :
    optionsFrom cp iniParse g allConfFiles
        (maxFanIn.elim [] (fun n => "max_fan_in".toList ++ '=' :: (decimal n ++ [','])) ++ s) =
      optionsFrom cp iniParse { g with maxFanIn := maxFanIn.elim g.maxFanIn Subtype.val }
        allConfFiles s := by
  cases maxFanIn with
  | none => rfl
  | some n =>
    rw [Option.elim_some, List.append_assoc, List.cons_append, List.append_assoc,
      List.singleton_append]
    exact optionsFrom_number (fun n => { g with maxFanIn := n }) n (by decide) (by decide)
      fun _ => rfl

/-- The value of `conf_file` is the word up to the next comma. -/
theorem parseOption_confFile {confFile : Str} (hne : confFile ≠ []) (hcomma : ',' ∉ confFile) :
    parseOption cp g allConfFiles "conf_file".toList (confFile ++ ',' :: s) =
      .next g (some confFile) s := by
  have hdelim : ∀ c ∈ confFile, (c == ',') = false := fun c hc => by
    simpa using ne_of_mem_of_not_mem hc hcomma
  have hvalue : strtok (· == ',') (confFile ++ ',' :: s) = (some confFile, s) :=
    strtok_append hne hdelim (by rfl)
  show Round.next g (strtok (· == ',') (confFile ++ ',' :: s)).1
    (strtok (· == ',') (confFile ++ ',' :: s)).2 = _
  rw [hvalue]

/-- The options of a request, with a value of `conf_file` that is one word, set what it asks for. -/
theorem parseAgentOptions_options (r : Request) (port : JInt) {confFile : Str}
    (hne : confFile ≠ []) (hcomma : ',' ∉ confFile) :
    parseAgentOptions cp iniParse .fresh (some (r.options confFile port)) =
      loadConfFiles cp iniParse (confFile.length + 1) (r.settings port) confFile [] := by
  let base := AgentSettings.fresh.reset
  show optionsFrom cp iniParse base none (r.options confFile port) = _
  refine (optionsFrom_flagOption (fun b => { base with debug := b })
    (by decide) (by decide) rfl).trans ?_
  refine (optionsFrom_flagOption (fun b => { base with debug := r.debug, selfCheck := b })
    (by decide) (by decide) rfl).trans ?_
  apply (optionsFrom_maxFanIn r.maxFanIn).trans
  let numbered : AgentSettings :=
    { base with
      debug := r.debug
      selfCheck := r.selfCheck
      maxFanIn := r.maxFanIn.elim 5 Subtype.val }
  refine (optionsFrom_flagOption (fun b => { numbered with showUnreachables := b })
    (by decide) (by decide) rfl).trans ?_
  refine (optionsFrom_flagOption
    (fun b => { numbered with showUnreachables := r.showUnreachables, runGc := !b })
    (by decide) (by decide) rfl).trans ?_
  let flagged : AgentSettings :=
    { numbered with showUnreachables := r.showUnreachables, runGc := !r.noGc }
  refine (optionsFrom_flagOption (fun b => { flagged with considerLocalReferences := b })
    (by decide) (by decide) rfl).trans ?_
  refine (optionsFrom_name (by decide) (by decide) (by decide)
    (parseOption_confFile hne hcomma)).trans ?_
  refine (optionsFrom_number (fun n => { flagged with
    considerLocalReferences := r.considerLocalReferences, sizeThreshold := n }) _
    (by decide) (by decide) fun _ => rfl).trans ?_
  refine (optionsFrom_number (fun n => { flagged with
    considerLocalReferences := r.considerLocalReferences
    sizeThreshold := r.sizeThreshold.getD defaultSizeThreshold
    referenceChainLength := n }) _
    (by decide) (by decide) fun _ => rfl).trans ?_
  exact optionsFrom_number_end (fun n => { flagged with
    considerLocalReferences := r.considerLocalReferences
    sizeThreshold := r.sizeThreshold.getD defaultSizeThreshold
    referenceChainLength := r.referenceChainLength.getD defaultReferenceChainLength
    tcpPort := n }) port (by decide) (by decide) fun _ => rfl

/-- An encodable request arrives, if its files can be read. -/
theorem Request.Encodable.arrives {r : Request} (h : r.Encodable cp.os) (port : JInt)
    {confFile : Str} (hconf : confFileOption rt r.confPath r.confFile = .ok confFile)
    (readable : ∀ f ∈ r.confFiles rt, 0 ≤ iniParse f) :
    parseAgentOptions cp iniParse .fresh (some (r.options confFile port)) =
      .returned true (r.settings port) (r.confFiles rt) := by
  obtain ⟨rfl, hread⟩ := confFileOption_eq hconf fun given hgiven => h.tokens_ne_nil hgiven
  have hdefault : defaultConf cp.os r.confPath ∈ r.confFiles rt := by simp [Request.confFiles]
  have hword : ∀ f ∈ r.confFiles rt, f ≠ [] ∧ ∀ c ∈ f, (c == PATH_SEPARATOR cp.os) = false := by
    intro f hf
    refine ⟨Request.confFiles_ne_nil hread hf, fun c hc => ?_⟩
    have := h.not_mem_confFiles (.inr rfl) hf
    rw [PATH_SEPARATOR_eq, beq_eq_false_iff_ne]
    exact ne_of_mem_of_not_mem hc this
  have hcomma : ',' ∉ (r.namedFiles rt).flatMap (· ++ [pathSeparator cp.os]) ++
      defaultConf cp.os r.confPath := by
    simp only [List.mem_append, List.mem_flatMap, List.mem_singleton, not_or, not_exists, not_and]
    refine ⟨fun f hf => ⟨?_, comma_ne_pathSeparator cp.os⟩, h.not_mem_confFiles (.inl rfl) hdefault⟩
    have hmem : f ∈ r.confFiles rt := by simp [Request.confFiles, hf]
    exact h.not_mem_confFiles (.inl rfl) hmem
  have htokens : tokens (· == PATH_SEPARATOR cp.os)
      ((r.namedFiles rt).flatMap (· ++ [pathSeparator cp.os]) ++ defaultConf cp.os r.confPath) =
      r.confFiles rt :=
    tokens_flatMap (fun f hf => hword f (by simp [Request.confFiles, hf])) (hword _ hdefault)
      (by simp [PATH_SEPARATOR_eq])
  rw [parseAgentOptions_options r port (by simp [defaultConf]) hcomma,
    loadConfFiles_eq (Nat.lt_succ_self _) (htokens ▸ readable), htokens, List.nil_append]

/-! ## What arrives was encodable -/

/-- The letter that starts the name of the default file occurs nowhere else in the options. -/
theorem Request.j_not_mem_options (r : Request) (port : JInt) {confFile : Str}
    (h : 'j' ∉ confFile) : 'j' ∉ r.options confFile port := by
  have hdecimal : ∀ n : ℤ, 'j' ∉ decimal n := fun n hc => by
    rcases mem_decimal hc with hc | hc <;> simp at hc
  have hflag : ∀ (given : Bool) (name : Str), 'j' ∉ name → 'j' ∉ flagOption given name := by
    intro given name hname
    cases given <;> simp [flagOption, hname]
  cases hmax : r.maxFanIn with
  | none => simp [options, hflag, hmax, hdecimal, h]
  | some n => simp [options, hflag, hmax, hdecimal, h]

/-- A request that arrives is encodable. -/
theorem Request.encodable_of_arrives {r : Request} (port : JInt) {confFile : Str} {success : Bool}
    (hconf : confFileOption rt r.confPath r.confFile = .ok confFile) {g' : AgentSettings}
    (harrives : parseAgentOptions cp iniParse g (some (r.options confFile port)) =
      .returned success g' (r.confFiles rt)) : r.Encodable cp.os := by
  have hmem := parseAgentOptions_mem harrives
  have hdelim : ∀ f ∈ r.confFiles rt, ∀ c, IsDelimiter cp.os c → c ∉ f := by
    rintro f hf c (rfl | rfl) hc
    · exact (hmem f hf _ hc).2.1 rfl
    · exact (hmem f hf _ hc).2.2 (PATH_SEPARATOR_eq cp.os).symm
  have hdefault : defaultConf cp.os r.confPath ∈ r.confFiles rt := by simp [confFiles]
  have hpath : ∀ c, IsDelimiter cp.os c → c ∉ r.confPath := fun c hc => by
    rw [← hc.mem_defaultConf]
    exact hdelim _ hdefault c hc
  refine ⟨hpath _ (.inl rfl), hpath _ (.inr rfl), fun given hgiven => ⟨fun hcomma => ?_, ?_⟩⟩
  · obtain ⟨token, htoken, hc⟩ : ∃ w ∈ tokens (· == pathSeparator cp.os) given, ',' ∈ w :=
      exists_mem_tokens hcomma (by simpa using comma_ne_pathSeparator cp.os)
    have hnamed : confFilePath rt r.confPath token ∈ r.confFiles rt := by
      have : confFilePath rt r.confPath token ∈ r.namedFiles rt := by
        rw [namedFiles, Option.mem_def.mp hgiven]
        exact List.mem_map_of_mem htoken
      simp [confFiles, this]
    have hdelimiter : IsDelimiter cp.os ',' := .inl rfl
    exact hdelim _ hnamed _ hdelimiter (hdelimiter.mem_confFilePath_of_mem hc)
  · by_contra hnone
    have hall : ∀ c ∈ given, c = pathSeparator cp.os :=
      fun c hc => by_contra fun hne => hnone ⟨c, hc, hne⟩
    have htokens : tokens (· == pathSeparator cp.os) given = [] :=
      tokens_of_all fun c hc => by simpa using hall c hc
    have hgiven' : 'j' ∉ given := fun hc => by
      have : 'j' ≠ pathSeparator cp.os := by cases cp.os <;> decide
      exact this (hall _ hc)
    rw [confFileOption_of_no_token hconf hgiven htokens] at hmem
    exact r.j_not_mem_options port hgiven' (hmem _ hdefault 'j' (by simp [defaultConf])).1

/-! ## The round trip -/

/-- Of an accepted command line whose configuration files can be read, the agent makes the settings
and the files requested if and only if the request is encodable. -/
theorem agent_reads_request_iff (cp : CPlatform) (iniParse : Str → ℤ) (rt : JavaRuntime cp.os)
    {args : List Str} {values : Values} {j : Launcher} (port : JInt)
    (parsed : CmdLineParser.parse rt args = .ok values) (accepted : Launcher.parse rt args = .ok j)
    (readable : ∀ f ∈ (Request.ofValues values).confFiles rt, 0 ≤ iniParse f) :
    parseAgentOptions cp iniParse .fresh (some (j.agentOptions port)) =
        .returned true ((Request.ofValues values).settings port)
          ((Request.ofValues values).confFiles rt) ↔
      (Request.ofValues values).Encodable cp.os := by
  rw [Launcher.parse, parsed, Run.ok_bind] at accepted
  have hconfPath : values (strippedArg argConfPath) ≠ none :=
    CmdLineParser.parse_mandatory parsed (show (_, ['m']) ∈ switches by decide) (by decide)
  obtain ⟨confFile, hconf, hoptions⟩ := launcherOf_options accepted hconfPath
  rw [hoptions]
  exact ⟨Request.encodable_of_arrives port hconf, fun h => h.arrives port hconf readable⟩

/-! ## A Unix command line -/

namespace Sample

/-- `UnixFileSystem.normalize` up to the last slash: slashes that follow a slash go. -/
def squeeze : Str → Str
  | '/' :: '/' :: s => squeeze ('/' :: s)
  | c :: s => c :: squeeze s
  | [] => []

/-- `UnixFileSystem.normalize`. -/
def normalize (s : Str) : Str :=
  let t := squeeze s
  if t.length > 1 ∧ t.getLast? = some '/' then t.dropLast else t

theorem mem_squeeze {c : Char} (hc : c ≠ '/') (s : Str) : c ∈ squeeze s ↔ c ∈ s := by
  fun_induction squeeze s with
  | case1 s ih => simpa [hc] using ih
  | case2 d s _ ih => simp [ih]
  | case3 => rfl

theorem mem_normalize {c : Char} (hc : c ≠ '/') (s : Str) : c ∈ normalize s ↔ c ∈ s := by
  have hsqueeze := mem_squeeze hc s
  unfold normalize
  dsimp only
  split_ifs with hlast
  · obtain ⟨t, ht⟩ := List.getLast?_eq_some_iff.mp hlast.2
    simpa [ht, hc] using hsqueeze
  · exact hsqueeze

/-- A Java runtime on Unix where every non-empty path can be read. -/
def unixRuntime : JavaRuntime .unix where
  getPath := normalize
  isAbsolute s := s.head? = some '/'
  canRead s := !s.isEmpty
  digit c := if c.isDigit then some (c.toNat - '0'.toNat) else none
  hashOrder := id
  hashOrder_perm _ := .refl _
  canRead_nil := rfl
  mem_getPath s c hc := mem_normalize (by rcases hc with rfl | rfl <;> decide) s

def port : JInt := ⟨5000, by decide⟩

/-- A command line with a value for `--conf-file`. -/
def commandLine (confFile : String) : List Str :=
  ["--lib-path", "l.so", "--conf-path", "/etc", "--pid", "12", "--conf-file", confFile].map (·.toList)

end Sample

instance (os : OS) (r : Request) : Decidable (r.Encodable os) :=
  decidable_of_iff (',' ∉ r.confPath ∧ pathSeparator os ∉ r.confPath ∧
      ∀ confFile ∈ r.confFile, ',' ∉ confFile ∧ confFile.any (· != pathSeparator os) = true)
    (by simp only [Request.Encodable, List.any_eq_true, bne_iff_ne])

theorem agent_reads_request_iff_twoFiles :
    ∃ values j, CmdLineParser.parse Sample.unixRuntime (Sample.commandLine "a:/b") = .ok values ∧
      Launcher.parse Sample.unixRuntime (Sample.commandLine "a:/b") = .ok j ∧
      parseAgentOptions Sample.unix64 (fun _ => 0) .fresh (some (j.agentOptions Sample.port)) =
        .returned true ((Request.ofValues values).settings Sample.port)
          ((Request.ofValues values).confFiles Sample.unixRuntime) := by
  obtain ⟨values, parsed, hvalues⟩ :
      ∃ values, CmdLineParser.parse Sample.unixRuntime (Sample.commandLine "a:/b") = .ok values ∧
        ((Launcher.parse Sample.unixRuntime (Sample.commandLine "a:/b")).toOption.any fun _ =>
          decide ((Request.ofValues values).Encodable .unix)) = true :=
    Run.exists_ok_of_any (by decide +kernel)
  obtain ⟨j, accepted, encodable⟩ := Run.exists_ok_of_any hvalues
  refine ⟨values, j, parsed, accepted, ?_⟩
  exact (agent_reads_request_iff Sample.unix64 (fun _ => 0) Sample.unixRuntime Sample.port parsed
    accepted fun _ _ => Int.le_refl 0).mpr (of_decide_eq_true encodable)

/-- With `--conf-file :` the default configuration file is not loaded. -/
theorem request_without_default_file :
    ∃ values j, CmdLineParser.parse Sample.unixRuntime (Sample.commandLine ":") = .ok values ∧
      Launcher.parse Sample.unixRuntime (Sample.commandLine ":") = .ok j ∧
      parseAgentOptions Sample.unix64 (fun _ => 0) .fresh (some (j.agentOptions Sample.port)) ≠
        .returned true ((Request.ofValues values).settings Sample.port)
          ((Request.ofValues values).confFiles Sample.unixRuntime) := by
  obtain ⟨values, parsed, hvalues⟩ :
      ∃ values, CmdLineParser.parse Sample.unixRuntime (Sample.commandLine ":") = .ok values ∧
        ((Launcher.parse Sample.unixRuntime (Sample.commandLine ":")).toOption.any fun j =>
          decide (parseAgentOptions Sample.unix64 (fun _ => 0) .fresh
              (some (j.agentOptions Sample.port)) ≠
            .returned true ((Request.ofValues values).settings Sample.port)
              ((Request.ofValues values).confFiles Sample.unixRuntime))) = true :=
    Run.exists_ok_of_any (by decide +kernel)
  obtain ⟨j, accepted, hj⟩ := Run.exists_ok_of_any hvalues
  exact ⟨values, j, parsed, accepted, of_decide_eq_true hj⟩

end JLeaker
