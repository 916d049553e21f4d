import JLeaker.Lib.CString

/-!
# `jleaker.c`: the agent's options

`parse_agent_options` reads the string the agent is attached with.  It cuts it with `strtok`, with
`",="` before a name, with `","` before a value, and with `PATH_SEPARATOR` once more through the
value of `conf_file`.
-/

namespace JLeaker

open CString

/-- The systems `jleaker` is built for; `windows` is the macro `WIN32`. -/
inductive OS
  | unix
  | windows
deriving DecidableEq

/-- `PATH_SEPARATOR` of `agent_util.h`. -/
def PATH_SEPARATOR : OS → Char
  | .windows => ';'
  | .unix => ':'

/-- The C platform: how many bits a `long` has. -/
structure CPlatform where
  os : OS
  longBits : ℕ
  le_longBits : 32 ≤ longBits

/-- The options of `GlobalData`. -/
structure AgentSettings where
  tcpPort : ℤ
  sizeThreshold : ℤ
  referenceChainLength : ℤ
  maxFanIn : ℤ
  debug : Bool
  selfCheck : Bool
  numElementsToDump : ℤ
  runGc : Bool
  showUnreachables : Bool
  considerLocalReferences : Bool
deriving DecidableEq

/-- `GlobalData` of an agent that was just loaded: static storage, all zero. -/
def AgentSettings.fresh : AgentSettings where
  tcpPort := 0
  sizeThreshold := 0
  referenceChainLength := 0
  maxFanIn := 0
  debug := false
  selfCheck := false
  numElementsToDump := 0
  runGc := false
  showUnreachables := false
  considerLocalReferences := false

/-- The assignments at the start of `parse_agent_options`; `consider_local_references` is not among
them. -/
def AgentSettings.reset (g : AgentSettings) : AgentSettings :=
  { g with
    tcpPort := 0
    sizeThreshold := 500
    referenceChainLength := 0
    maxFanIn := 5
    debug := false
    selfCheck := false
    numElementsToDump := 5
    runGc := true
    showUnreachables := false }

/-- How a call of `parse_agent_options` ends.  `returned` carries whether it returns 1, the settings
and the file names `ini_parse` was called with. -/
inductive ParseOutcome
  | crashed
  | outOfFuel
  | returned (success : Bool) (g : AgentSettings) (iniFiles : List Str)
deriving DecidableEq

/-- One round of the loop over the options: the settings, `all_conf_files` and the rest of the
string, unless the round ends the call. -/
inductive Round
  | crash
  | fail (g : AgentSettings)
  | next (g : AgentSettings) (allConfFiles : Option Str) (rest : Str)

variable (cp : CPlatform) (iniParse : Str → ℤ)

/-- The conversion of a `long` to an `int`. -/
def toInt (n : ℤ) : ℤ := n.bmod (2 ^ 32)

/-- An option whose value is a number.  `strtol` follows the NULL of a missing value. -/
def numberOption (assign : ℤ → AgentSettings) (allConfFiles : Option Str) (s : Str) : Round :=
  match strtok (· == ',') s with
  | (none, _) => .crash
  | (some next, rest) =>
    let (n, endptr) := strtol cp.longBits next
    if endptr ≠ [] then .fail (assign (toInt n)) else .next (assign (toInt n)) allConfFiles rest

/-- The body of the loop: the option named `next`, with `s` left of the string. -/
def parseOption (g : AgentSettings) (allConfFiles : Option Str) (next s : Str) : Round :=
  if next = "tcp_port".toList then
    numberOption cp (fun n => { g with tcpPort := n }) allConfFiles s
  else if next = "size_threshold".toList then
    numberOption cp (fun n => { g with sizeThreshold := n }) allConfFiles s
  else if next = "reference_chain_length".toList then
    numberOption cp (fun n => { g with referenceChainLength := n }) allConfFiles s
  else if next = "max_fan_in".toList then
    numberOption cp (fun n => { g with maxFanIn := n }) allConfFiles s
  else if next = "debug".toList then .next { g with debug := true } allConfFiles s
  else if next = "self_check".toList then .next { g with selfCheck := true } allConfFiles s
  else if next = "no_gc".toList then .next { g with runGc := false } allConfFiles s
  else if next = "consider_local_references".toList then
    .next { g with considerLocalReferences := true } allConfFiles s
  else if next = "conf_file".toList then
    let (allConfFiles, rest) := strtok (· == ',') s
    .next g allConfFiles rest
  else if next = "show_unreachables".toList then
    .next { g with showUnreachables := true } allConfFiles s
  else .fail g

/-- The loop over the configuration files: whether all of them were loaded, and the files
`ini_parse` was called with, after those of `iniFiles`. -/
def loadConfFiles : ℕ → AgentSettings → Str → List Str → ParseOutcome
  | 0, _, _, _ => .outOfFuel
  | fuel + 1, g, s, iniFiles =>
    match strtok (· == PATH_SEPARATOR cp.os) s with
    | (none, _) => .returned true g iniFiles
    | (some next, rest) =>
      if iniParse next < 0 then .returned false g (iniFiles ++ [next])
      else loadConfFiles fuel g rest (iniFiles ++ [next])

/-- The loop over the options, and what follows it. -/
def parseOptions : ℕ → AgentSettings → Option Str → Str → ParseOutcome
  | 0, _, _, _ => .outOfFuel
  | fuel + 1, g, allConfFiles, s =>
    match strtok (fun c => c == ',' || c == '=') s with
    | (none, _) =>
      match allConfFiles with
      | none => .returned true g []
      | some files => loadConfFiles cp iniParse (files.length + 1) g files []
    | (some next, s) =>
      match parseOption cp g allConfFiles next s with
      | .crash => .crashed
      | .fail g => .returned false g []
      | .next g allConfFiles s => parseOptions fuel g allConfFiles s

/-- `parse_agent_options`. -/
def parseAgentOptions (g : AgentSettings) (options : Option Str) : ParseOutcome :=
  match options with
  | none => .returned true g.reset []
  | some options => parseOptions cp iniParse (options.length + 1) g.reset none options

namespace Sample

def unix64 : CPlatform := ⟨.unix, 64, by decide⟩

end Sample

end JLeaker
