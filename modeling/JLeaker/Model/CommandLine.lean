import JLeaker.Model.AgentOptions
import Mathlib.Logic.Function.Basic

/-!
# `CmdLineParser.java` and `JLeaker.java`: the command line

`CmdLineParser.parse` reads the switches into a map, `JLeaker.parse` turns the map into the options
of the agent, and `JLeaker.execute` attaches the agent with them.
-/

namespace JLeaker

open CString

/-- The values of a Java `int`. -/
abbrev JInt := {n : ℤ // -2 ^ 31 ≤ n ∧ n < 2 ^ 31}

/-- `File.pathSeparatorChar`. -/
def pathSeparator : OS → Char
  | .unix => ':'
  | .windows => ';'

/-- `File.separatorChar`. -/
def separator : OS → Char
  | .unix => '/'
  | .windows => '\\'

/-- What the Java library answers.  A `File` is its path. -/
structure JavaRuntime (os : OS) where
  /-- `new File(s).getPath()`. -/
  getPath : Str → Str
  isAbsolute : Str → Bool
  canRead : Str → Bool
  /-- `Character.digit(c, 10)`. -/
  digit : Char → Option ℕ
  /-- The order in which a `HashMap` enumerates its entries. -/
  hashOrder : List (Str × Str) → List (Str × Str)
  hashOrder_perm : ∀ entries, (hashOrder entries).Perm entries
  /-- The empty path names no file. -/
  canRead_nil : canRead [] = false
  /-- Normalising drops and converts name separators only. -/
  mem_getPath : ∀ (s : Str) (c : Char), c = ',' ∨ c = pathSeparator os → (c ∈ getPath s ↔ c ∈ s)

/-- The exceptions that end `JLeaker.parse`. -/
inductive JException
  | cmdLineParser (msg : Str)
  | exception (msg : Str)
  | classCast
  | nullPointer
deriving DecidableEq

variable {os : OS} (rt : JavaRuntime os)

/-! ## `CmdLineParser` -/

/-- An object of `m_mpValues`; `true` is `Boolean.TRUE`. -/
inductive Value
  | string (s : Str)
  | integer (n : JInt)
  | true
deriving DecidableEq

abbrev Values := Str → Option Value

/-- The value of a string of digits. -/
def digitsValue : Str → ℕ → Option ℕ
  | [], n => some n
  | c :: s, n => (rt.digit c).bind fun d => digitsValue s (10 * n + d)

/-- `Integer.parseInt`; `none` is the `NumberFormatException`. -/
def parseInt (s : Str) : Option JInt :=
  let (neg, digits) := sign s
  if digits = [] then none
  else (digitsValue rt digits 0).bind fun m =>
    let n : ℤ := if neg then -m else m
    if h : -2 ^ 31 ≤ n ∧ n < 2 ^ 31 then some ⟨n, h⟩ else none

/-- `getStrippedArg`: the name of a switch. -/
def strippedArg (arg : Str) : Str := arg.takeWhile (· ≠ '=')

def argLibPath : Str := "lib-path=m".toList
def argConfPath : Str := "conf-path=m".toList
def argSizeThreshold : Str := "size-threshold=i".toList
def argPid : Str := "pid=im".toList
def argReferenceChainLength : Str := "reference-chain-length=i".toList
def argMaxFanIn : Str := "max_fan_in=i".toList
def argDebug : Str := "debug=b".toList
def argShowUnreachables : Str := "show-unreachables=b".toList
def argSelfCheck : Str := "self-check=b".toList
def argNoGc : Str := "no-gc=b".toList
def argConfFile : Str := "conf-file=s".toList
def argConsiderLocalRef : Str := "consider-local-references=b".toList

def allArgs : List Str :=
  [argLibPath, argConfPath, argSizeThreshold, argPid, argReferenceChainLength, argMaxFanIn,
    argDebug, argSelfCheck, argConfFile, argNoGc, argShowUnreachables, argConsiderLocalRef]

/-- `m_switches`: the properties of each switch. -/
def switches : List (Str × Str) :=
  allArgs.map fun sw => (strippedArg sw, (sw.dropWhile (· ≠ '=')).tail)

/-- The object stored for a switch.  The value is `null` for the switches of type `b` alone. -/
def toValue (switchProp arg : Str) (value : Option Str) : Except JException Value :=
  if 'i' ∈ switchProp then
    match value.bind (parseInt rt) with
    | some num => .ok (.integer num)
    | none => .error (.cmdLineParser
        ("Value for argument ".toList ++ arg ++ " is not a number".toList))
  else
    match value with
    | none => .ok .true
    | some value => .ok (.string value)

/-- The loop of `CmdLineParser.parse` over the arguments. -/
def parseArgs : List Str → Values → Except JException Values
  | [], values => .ok values
  | arg :: args, values =>
    if ¬"--".toList <+: arg ∨ arg.length = 2 ∨ "---".toList <+: arg then
      .error (.cmdLineParser ("Unknown switch: ".toList ++ arg))
    else
      let arg := arg.drop 2
      match switches.lookup arg with
      | none => .error (.cmdLineParser ("Unsupported switch: ".toList ++ arg))
      | some switchProp =>
        if 'b' ∉ switchProp then
          match args with
          | [] => .error (.cmdLineParser
              ("Argument ".toList ++ arg ++ " requires a value".toList))
          | value :: args => do
            let object ← toValue rt switchProp arg (some value)
            parseArgs args (Function.update values arg (some object))
        else do
          let object ← toValue rt switchProp arg none
          parseArgs args (Function.update values arg (some object))

/-- `CmdLineParser.parse`: the values of the switches, once all mandatory ones are there. -/
def CmdLineParser.parse (args : List Str) : Except JException Values := do
  let values ← parseArgs rt args fun _ => none
  match (rt.hashOrder switches).find? fun (name, prop) => 'm' ∈ prop ∧ values name = none with
  | some (name, _) => .error (.cmdLineParser
      ("Mandatory command line switch `--".toList ++ name ++ "' was not provided".toList))
  | none => .ok values

/-- `(String)parser.getValue(arg)`; `none` is `null`. -/
def getString (values : Values) (arg : Str) : Except JException (Option Str) :=
  match values (strippedArg arg) with
  | none => .ok none
  | some (.string s) => .ok (some s)
  | some _ => .error .classCast

/-- `(Integer)parser.getValue(arg)`; `none` is `null`. -/
def getInteger (values : Values) (arg : Str) : Except JException (Option JInt) :=
  match values (strippedArg arg) with
  | none => .ok none
  | some (.integer n) => .ok (some n)
  | some _ => .error .classCast

/-- `parser.exists(arg)`. -/
def existsArg (values : Values) (arg : Str) : Bool := (values (strippedArg arg)).isSome

/-! ## `JLeaker` -/

def defaultSizeThreshold : JInt := ⟨300, by decide⟩
def defaultReferenceChainLength : JInt := ⟨60, by decide⟩

/-- The fields of the class `JLeaker`. -/
structure Launcher where
  sizeThreshold : JInt
  referenceChainLength : JInt
  pid : JInt
  libPath : Option Str
  confPath : Option Str
  moreOptions : Str

/-- A string in a concatenation. -/
def concatString (s : Option Str) : Str := s.getD "null".toList

def defaultConf (os : OS) (confPath : Str) : Str :=
  confPath ++ [separator os] ++ "jleaker.conf".toList

/-- The path of a file named by `--conf-file`: relative ones are taken in `conf-path`. -/
def confFilePath (confPath token : Str) : Str :=
  let f := rt.getPath token
  if rt.isAbsolute f then f else rt.getPath (confPath ++ [separator os] ++ f)

def accessible (f : Str) : Except JException Str :=
  if rt.canRead f then .ok f
  else .error (.exception ("Configuration file ".toList ++ f ++ " is not accessible".toList))

/-- The value of the option `conf_file`. -/
def confFileOption (confPath : Str) (confFile : Option Str) : Except JException Str :=
  match confFile with
  | none => .ok (defaultConf os confPath)
  | some confFile =>
    let st := tokens (· == pathSeparator os) confFile
    -- without a token the value of `--conf-file` goes into the option as it is
    if st = [] then .ok confFile
    else do
      let files ← st.mapM fun token => accessible rt (confFilePath rt confPath token)
      return files.flatMap (· ++ [pathSeparator os]) ++ defaultConf os confPath

def flagOption (given : Bool) (name : Str) : Str := if given then name ++ [','] else []

/-- `JLeaker.parse` after the command line was parsed. -/
def launcherOf (values : Values) : Except JException Launcher := do
  let libPath ← getString values argLibPath
  let confPath ← getString values argConfPath
  let sizeThreshold ← getInteger values argSizeThreshold
  let pid ← getInteger values argPid
  let pid ← pid.elim (.error .nullPointer) .ok
  let refLength ← getInteger values argReferenceChainLength
  let maxFanIn ← getInteger values argMaxFanIn
  let confFile ← getString values argConfFile
  let confFile ← confFileOption rt (concatString confPath) confFile
  return {
    sizeThreshold := sizeThreshold.getD defaultSizeThreshold
    referenceChainLength := refLength.getD defaultReferenceChainLength
    pid, libPath, confPath
    moreOptions :=
      flagOption (existsArg values argDebug) "debug".toList ++
      flagOption (existsArg values argSelfCheck) "self_check".toList ++
      maxFanIn.elim [] (fun n => "max_fan_in=".toList ++ decimal n ++ [',']) ++
      flagOption (existsArg values argShowUnreachables) "show_unreachables".toList ++
      flagOption (existsArg values argNoGc) "no_gc".toList ++
      flagOption (existsArg values argConsiderLocalRef) "consider_local_references".toList ++
      "conf_file=".toList ++ confFile ++ [','] }

/-- `JLeaker.parse`. -/
def Launcher.parse (args : List Str) : Except JException Launcher := do
  let values ← CmdLineParser.parse rt args
  launcherOf rt values

/-- The options `JLeaker.execute` passes to `loadAgentPath`. -/
def Launcher.agentOptions (j : Launcher) (port : JInt) : Str :=
  j.moreOptions ++ "size_threshold=".toList ++ decimal j.sizeThreshold ++
    ",reference_chain_length=".toList ++ decimal j.referenceChainLength ++
    ",tcp_port=".toList ++ decimal port

end JLeaker
