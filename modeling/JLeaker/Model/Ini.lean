import JLeaker.Lib.CString

/-!
# `ini.c` and `strmap.c`: configuration files

`ini_parse_file` reads a file line by line and hands each `name = value` pair to its handler together
with the section it stands in.  Lines are cut at `INI_MAX_LINE` and names of sections at
`MAX_SECTION` characters, terminators included.
-/

namespace JLeaker

open CString

/-! ## Maps -/

/-- The pairs of a `StrMap`; which bucket a pair is in does not matter to its users. -/
abbrev StrMap (V : Type) := List (Str × V)

/-- `sm_get`. -/
def smGet {V : Type} (map : StrMap V) (key : Str) : Option V := map.lookup key

/-- `sm_put`: the value of a known key is replaced. -/
def smPut {V : Type} (map : StrMap V) (key : Str) (value : V) : StrMap V :=
  if map.any (·.1 == key) then map.map fun pair => if pair.1 = key then (key, value) else pair
  else map ++ [(key, value)]

/-! ## Characters and lines -/

/-- `isspace`. -/
def isspace (c : Char) : Bool := c = ' ' || (9 ≤ c.toNat && c.toNat ≤ 13)

/-- `rstrip`. -/
def rstrip (s : Str) : Str := (s.reverse.dropWhile isspace).reverse

/-- `lskip`. -/
def lskip (s : Str) : Str := s.dropWhile isspace

/-- `find_char_or_comment`: what stands before the character found, and the string from there on.  A
`;` counts only after white space. -/
def findCharOrComment (c : Option Char) (wasWhitespace : Bool) : Str → Str × Str
  | [] => ([], [])
  | d :: s =>
    if some d = c || (wasWhitespace && d = ';') then ([], d :: s)
    else
      let (before, rest) := findCharOrComment c (isspace d) s
      (d :: before, rest)

/-- `strncpy0` to an array of `size` characters. -/
def strncpy0 (src : Str) (size : ℕ) : Str := src.take (size - 1)

/-- `fgets` for at most `n` characters: the line and what follows it. -/
def fgets : ℕ → Str → Str × Str
  | 0, s => ([], s)
  | _, [] => ([], [])
  | n + 1, c :: s =>
    if c = '\n' then ([c], s)
    else
      let (line, rest) := fgets n s
      (c :: line, rest)

/-- `INI_MAX_LINE`, `MAX_SECTION` and `MAX_NAME`. -/
def INI_MAX_LINE : ℕ := 200
def MAX_SECTION : ℕ := 50
def MAX_NAME : ℕ := 50

/-- The lines `fgets` reads, as C strings; the first argument bounds their number. -/
def fileLines : ℕ → Str → List Str
  | 0, _ => []
  | _, [] => []
  | fuel + 1, s =>
    let (line, rest) := fgets (INI_MAX_LINE - 1) s
    line.takeWhile (· ≠ '\x00') :: fileLines fuel rest

/-! ## The parser -/

/-- The local variables of `ini_parse_file`, and what the handler works on. -/
structure IniState (σ : Type) where
  user : σ
  sectionName : Str
  prevName : Str
  lineno : ℕ
  error : ℕ

variable {σ : Type} (handler : σ → Str → Str → Str → Bool × σ)

/-- Keep the number of the first line with an error. -/
def IniState.fail (st : IniState σ) : IniState σ :=
  if st.error = 0 then { st with error := st.lineno } else st

/-- A call of the handler. -/
def IniState.handle (st : IniState σ) (name value : Str) : IniState σ :=
  let (ok, user) := handler st.user st.sectionName name value
  if ok then { st with user := user } else IniState.fail { st with user := user }

/-- The first character of a C string. -/
def startsWith (c : Char) (s : Str) : Bool := s.head? = some c

/-- The body of the loop over the lines. -/
def iniLine (st : IniState σ) (line : Str) : IniState σ :=
  let st := { st with lineno := st.lineno + 1 }
  let bom := ['\u00EF', '\u00BB', '\u00BF']
  let start := if st.lineno = 1 ∧ bom <+: line then line.drop 3 else line
  let start := lskip (rstrip start)
  if startsWith ';' start || startsWith '#' start then st
  else if st.prevName ≠ [] ∧ start ≠ [] ∧ line.head?.any isspace then
    st.handle handler st.prevName start
  else if startsWith '[' start then
    let (name, rest) := findCharOrComment (some ']') false start.tail
    if startsWith ']' rest then
      { st with sectionName := strncpy0 name MAX_SECTION, prevName := [] }
    else st.fail
  else if start ≠ [] then
    let found := findCharOrComment (some '=') false start
    let (name, rest) := if startsWith '=' found.2 then found
      else findCharOrComment (some ':') false start
    if startsWith '=' rest || startsWith ':' rest then
      let name := rstrip name
      let value := rstrip (findCharOrComment none false (lskip rest.tail)).1
      { st with prevName := strncpy0 name MAX_NAME }.handle handler name value
    else st.fail
  else st

/-- `ini_parse_file`: the number of the first bad line, or zero, and what the handler has done. -/
def iniParseFile (contents : Str) (user : σ) : ℕ × σ :=
  let st := (fileLines (contents.length + 1) contents).foldl (iniLine handler) ⟨user, [], [], 0, 0⟩
  (st.error, st.user)

/-- `ini_parse`; `files` are the contents of the files that can be opened. -/
def iniParse (files : Str → Option Str) (filename : Str) (user : σ) : ℤ × σ :=
  match files filename with
  | none => (-1, user)
  | some contents =>
    let (error, user) := iniParseFile handler contents user
    (error, user)

end JLeaker
