import JLeaker.Proof.RoundTrip

/-!
# The command lines that `CmdLineParser` accepts

A command line is a list of flags and of options with their values.  `CmdLineParser.parse` accepts
exactly the command lines whose switches are known, whose numbers can be read and that give every
mandatory switch, and a switch that is given more than once has its last value.
-/

namespace JLeaker

open CString

variable {os : OS} (rt : JavaRuntime os)

/-! ## Command lines -/

/-- One switch on a command line. -/
inductive Argument
  | flag (name : Str)
  | option (name value : Str)

namespace Argument

def name : Argument → Str
  | flag name => name
  | option name _ => name

/-- The words on the command line. -/
def words : Argument → List Str
  | flag name => ["--".toList ++ name]
  | option name value => ["--".toList ++ name, value]

/-- The object for the switch; a number must be readable. -/
def object : Argument → Option Value
  | flag _ => some .true
  | option name value =>
    if 'i' ∈ (switches.lookup name).getD [] then (parseInt rt value).map .integer
    else some (.string value)

/-- The switch is known, has a value exactly if it needs one, and the value can be read. -/
def Valid : Argument → Prop
  | flag name => ∃ prop, switches.lookup name = some prop ∧ 'b' ∈ prop
  | option name value => ∃ prop, switches.lookup name = some prop ∧ 'b' ∉ prop ∧
      ((option name value).object rt).isSome = true

end Argument

/-- The values after the switches: the last one of each switch. -/
def lastValues (given : List Argument) (start : Values) : Values := fun name =>
  match given.reverse.find? (·.name = name) with
  | some a => a.object rt
  | none => start name

/-! ## One switch -/

/-- Names of switches are neither empty nor start with a dash, and flags have no number. -/
theorem switches_named : ∀ pair ∈ switches, (pair.1 ≠ [] ∧ pair.1.head? ≠ some '-') ∧
    ('b' ∈ pair.2 → 'i' ∉ pair.2) := by
  decide +kernel

variable {rt} {name prop value : Str} {args : List Str} {start values : Values}

theorem mem_switches (known : switches.lookup name = some prop) : (name, prop) ∈ switches := by
  obtain ⟨before, after, eq, -⟩ := List.lookup_eq_some_iff.1 known
  rw [eq]
  exact List.mem_append_right before List.mem_cons_self

/-- The word of a known switch is taken for it. -/
theorem isSwitch (known : switches.lookup name = some prop) :
    ¬(¬"--".toList <+: "--".toList ++ name ∨ ("--".toList ++ name).length = 2 ∨
      "---".toList <+: "--".toList ++ name) := by
  obtain ⟨⟨ne, noDash⟩, -⟩ := switches_named _ (mem_switches known)
  obtain ⟨c, rest, rfl⟩ := List.exists_cons_of_ne_nil ne
  rintro (h | h | ⟨t, h⟩)
  · exact h (List.prefix_append _ _)
  · simp at h
  · have dash : '-' = c := Option.some.inj (congrArg (·[2]?) h)
    exact noDash (by rw [dash]; rfl)

theorem drop_switch (name : Str) : ("--".toList ++ name).drop 2 = name := rfl

theorem parseArgs_flag (known : switches.lookup name = some prop) (isFlag : 'b' ∈ prop) :
    parseArgs rt (("--".toList ++ name) :: args) start =
      parseArgs rt args (Function.update start name (some .true)) := by
  have noNumber := (switches_named _ (mem_switches known)).2 isFlag
  rw [parseArgs, if_neg (isSwitch known), drop_switch]
  dsimp only
  rw [known]
  dsimp only
  rw [if_neg (not_not_intro isFlag), toValue, if_neg noNumber]
  rfl

theorem parseArgs_option (known : switches.lookup name = some prop) (notFlag : 'b' ∉ prop) :
    parseArgs rt (("--".toList ++ name) :: value :: args) start = (do
      let object ← toValue rt prop name (some value)
      parseArgs rt args (Function.update start name (some object))) := by
  rw [parseArgs, if_neg (isSwitch known), drop_switch]
  dsimp only
  rw [known]
  dsimp only
  rw [if_pos notFlag]

/-- The object of an option is what `toValue` makes of its value. -/
theorem toValue_object (known : switches.lookup name = some prop) (value : Str) (object : Value) :
    toValue rt prop name (some value) = .ok object ↔
      (Argument.option name value).object rt = some object := by
  unfold toValue Argument.object
  dsimp only
  rw [known, Option.getD_some]
  split_ifs
  · rw [Option.bind_some]
    cases parseInt rt value <;> simp
  · simp

/-! ## Whole command lines -/

/-- A switch gives its value unless a later one does. -/
theorem lastValues_cons (a : Argument) (given : List Argument) (start : Values) :
    lastValues rt (a :: given) start =
      lastValues rt given (Function.update start a.name (a.object rt)) := by
  funext name
  unfold lastValues
  rw [List.reverse_cons, List.find?_append]
  cases given.reverse.find? (·.name = name) with
  | some b => rfl
  | none =>
    rw [Option.none_or]
    by_cases same : a.name = name
    · have last : [a].find? (fun b => decide (b.name = name)) = some a := by
        simp [same]
      rw [last, ← same]
      dsimp only
      rw [Function.update_self]
    · have other : [a].find? (fun b => decide (b.name = name)) = none := by
        simp [same]
      rw [other]
      dsimp only
      rw [Function.update_of_ne (Ne.symm same)]

/-- The switches of a command line are read one after another. -/
theorem parseArgs_words (given : List Argument) (valid : ∀ a ∈ given, a.Valid rt) (start : Values) :
    parseArgs rt (given.flatMap Argument.words) start = .ok (lastValues rt given start) := by
  induction given generalizing start with
  | nil => rfl
  | cons a given ih =>
    have rest := ih fun b h => valid b (List.mem_cons_of_mem a h)
    rw [lastValues_cons]
    cases a with
    | flag name =>
      obtain ⟨prop, known, isFlag⟩ := valid _ List.mem_cons_self
      exact (parseArgs_flag known isFlag).trans (rest _)
    | option name value =>
      obtain ⟨prop, known, notFlag, readable⟩ := valid _ List.mem_cons_self
      obtain ⟨object, hobject⟩ := Option.isSome_iff_exists.1 readable
      refine (parseArgs_option known notFlag).trans ?_
      rw [(toValue_object known value object).2 hobject, hobject]
      exact rest _

theorem eq_switch {arg : Str}
    (h : ¬(¬"--".toList <+: arg ∨ arg.length = 2 ∨ "---".toList <+: arg)) :
    "--".toList ++ arg.drop 2 = arg := by
  obtain ⟨rest, rfl⟩ := not_not.1 (not_or.1 h).1
  rfl

/-- What is read without an exception is a command line. -/
theorem exists_words (h : parseArgs rt args start = .ok values) :
    ∃ given : List Argument, (∀ a ∈ given, a.Valid rt) ∧ given.flatMap Argument.words = args ∧
      lastValues rt given start = values := by
  induction args, start using parseArgs.induct with
  | case1 start => exact ⟨[], by simp, rfl, Except.ok.inj h⟩
  | case2 arg args start unknown =>
    rw [parseArgs.eq_2, if_pos unknown] at h
    cases h
  | case3 arg args start isSwitch name unknown =>
    rw [parseArgs, if_neg isSwitch] at h
    dsimp only at h
    rw [show switches.lookup (arg.drop 2) = none from unknown] at h
    cases h
  | case4 arg start isSwitch name prop known notFlag =>
    rw [parseArgs, if_neg isSwitch] at h
    dsimp only at h
    rw [show switches.lookup (arg.drop 2) = some prop from known] at h
    dsimp only at h
    rw [if_pos notFlag] at h
    cases h
  | case5 arg start isSwitch name prop known notFlag value args ih =>
    rw [← eq_switch isSwitch, parseArgs_option known notFlag] at h
    obtain ⟨object, hobject, rest⟩ := Run.bind_eq_ok.1 h
    obtain ⟨given, valid, words, last⟩ := ih object rest
    have readable := (toValue_object known value object).1 hobject
    refine ⟨.option name value :: given, ?_, ?_, ?_⟩
    · intro a ha
      rcases List.mem_cons.1 ha with rfl | ha
      · exact ⟨prop, known, notFlag, by rw [readable]; rfl⟩
      · exact valid a ha
    · rw [List.flatMap_cons, words]
      exact congrArg (· :: value :: args) (eq_switch isSwitch)
    · rw [lastValues_cons, readable]
      exact last
  | case6 arg args start isSwitch name prop known isFlag ih =>
    rw [← eq_switch isSwitch, parseArgs_flag known (not_not.1 isFlag)] at h
    obtain ⟨given, valid, words, last⟩ := ih _ h
    refine ⟨.flag name :: given, ?_, ?_, ?_⟩
    · intro a ha
      rcases List.mem_cons.1 ha with rfl | ha
      · exact ⟨prop, known, not_not.1 isFlag⟩
      · exact valid a ha
    · rw [List.flatMap_cons, words]
      exact congrArg (· :: args) (eq_switch isSwitch)
    · rw [lastValues_cons]
      exact last

theorem lastValues_isSome {given : List Argument} (valid : ∀ a ∈ given, a.Valid rt) (name : Str) :
    lastValues rt given (fun _ => none) name ≠ none ↔ ∃ a ∈ given, a.name = name := by
  unfold lastValues
  cases found : given.reverse.find? (fun a => decide (a.name = name)) with
  | none =>
    refine iff_of_false (fun h => h rfl) ?_
    rintro ⟨a, ha, same⟩
    exact List.find?_eq_none.1 found a (List.mem_reverse.2 ha) (decide_eq_true same)
  | some a =>
    have ha := List.mem_reverse.1 (List.mem_of_find?_eq_some found)
    have same : a.name = name := by simpa using List.find?_some found
    refine iff_of_true ?_ ⟨a, ha, same⟩
    have object : (a.object rt).isSome = true := by
      cases a with
      | flag name => rfl
      | option name value =>
        obtain ⟨-, -, -, readable⟩ := valid _ ha
        exact readable
    exact Option.isSome_iff_ne_none.1 object

/-- `CmdLineParser.parse` accepts a command line if and only if it is made of known switches, each with
a readable value if it needs one, and gives every mandatory switch; the value of a switch is the last
one given.  The order in which the hash map lists the switches does not matter. -/
theorem CmdLineParser.parse_eq_ok_iff (rt : JavaRuntime os) (args : List Str) (values : Values) :
    CmdLineParser.parse rt args = .ok values ↔
      ∃ given : List Argument, (∀ a ∈ given, a.Valid rt) ∧ given.flatMap Argument.words = args ∧
        lastValues rt given (fun _ => none) = values ∧
        ∀ pair ∈ switches, 'm' ∈ pair.2 → ∃ a ∈ given, a.name = pair.1 := by
  constructor
  · intro h
    have mandatory : ∀ pair ∈ switches, 'm' ∈ pair.2 → values pair.1 ≠ none :=
      fun pair hpair isMandatory => CmdLineParser.parse_mandatory h hpair isMandatory
    obtain ⟨parsed, read, checked⟩ := Run.bind_eq_ok.1 h
    have same : parsed = values := by
      split at checked
      · cases checked
      · exact Except.ok.inj checked
    obtain ⟨given, valid, words, last⟩ := exists_words (same ▸ read)
    refine ⟨given, valid, words, last, fun pair hpair isMandatory => ?_⟩
    rw [← lastValues_isSome valid, last]
    exact mandatory pair hpair isMandatory
  · rintro ⟨given, valid, rfl, rfl, mandatory⟩
    unfold CmdLineParser.parse
    rw [parseArgs_words given valid, Run.ok_bind]
    split
    · next name prop found =>
      have listed := List.mem_of_find?_eq_some found
      have missing := List.find?_some found
      obtain ⟨isMandatory, absent⟩ := of_decide_eq_true missing
      have given' := mandatory (name, prop) ((rt.hashOrder_perm switches).mem_iff.1 listed) isMandatory
      exact absurd absent ((lastValues_isSome valid name).2 given')
    · rfl

end JLeaker
