import JLeaker.Model.Ini

/-!
# What `ini_parse` does with its handler

The parser never looks at what the handler works on, so two handlers that answer alike are called
alike.  The maps the handlers fill behave as finite maps.
-/

namespace JLeaker

open CString

variable {σ τ : Type} {handler : σ → Str → Str → Str → Bool × σ}
  {handler' : τ → Str → Str → Str → Bool × τ} {R : σ → τ → Prop}

/-- Related states are answered alike, and stay related. -/
def HandlersAgree (R : σ → τ → Prop) (handler : σ → Str → Str → Str → Bool × σ)
    (handler' : τ → Str → Str → Str → Bool × τ) : Prop :=
  ∀ s t sectionName name value, R s t →
    (handler s sectionName name value).1 = (handler' t sectionName name value).1 ∧
      R (handler s sectionName name value).2 (handler' t sectionName name value).2

/-- Two states of the parser that differ only in what their handlers work on. -/
structure IniState.Related (R : σ → τ → Prop) (st : IniState σ) (st' : IniState τ) : Prop where
  user : R st.user st'.user
  sectionName : st.sectionName = st'.sectionName
  prevName : st.prevName = st'.prevName
  lineno : st.lineno = st'.lineno
  error : st.error = st'.error

variable {st : IniState σ} {st' : IniState τ}

theorem IniState.Related.fail (related : st.Related R st') : st.fail.Related R st'.fail := by
  obtain ⟨user, sectionName, prevName, lineno, error⟩ := related
  unfold IniState.fail
  rw [error]
  split_ifs
  · exact ⟨user, sectionName, prevName, lineno, lineno⟩
  · exact ⟨user, sectionName, prevName, lineno, error⟩

theorem IniState.Related.handle (agree : HandlersAgree R handler handler')
    (related : st.Related R st') (name value : Str) :
    (st.handle handler name value).Related R (st'.handle handler' name value) := by
  obtain ⟨user, sectionName, prevName, lineno, error⟩ := related
  obtain ⟨answer, user'⟩ := agree _ _ st.sectionName name value user
  unfold IniState.handle
  rw [← sectionName]
  dsimp only
  rw [← answer]
  split_ifs
  · exact ⟨user', rfl, prevName, lineno, error⟩
  · exact IniState.Related.fail ⟨user', rfl, prevName, lineno, error⟩

/-- Both parsers keep the name of a pair. -/
theorem IniState.Related.named (related : st.Related R st') (name : Str) :
    IniState.Related R { st with prevName := name } { st' with prevName := name } :=
  { related with prevName := rfl }

/-- Both parsers enter a section. -/
theorem IniState.Related.entered (related : st.Related R st') (name : Str) :
    IniState.Related R { st with sectionName := name, prevName := [] }
      { st' with sectionName := name, prevName := [] } :=
  { related with sectionName := rfl, prevName := rfl }

theorem IniState.Related.ite {c : Prop} [Decidable c] {x y : IniState σ} {x' y' : IniState τ}
    (yes : x.Related R x') (no : y.Related R y') :
    (if c then x else y).Related R (if c then x' else y') := by
  split
  · exact yes
  · exact no

theorem IniState.Related.line (agree : HandlersAgree R handler handler')
    (related : st.Related R st') (line : Str) :
    (iniLine handler st line).Related R (iniLine handler' st' line) := by
  have next : IniState.Related R { st with lineno := st.lineno + 1 }
      { st' with lineno := st'.lineno + 1 } :=
    { related with lineno := congrArg (· + 1) related.lineno }
  unfold iniLine
  simp only [← related.prevName, ← related.lineno] at next ⊢
  refine .ite next ?_
  -- the next line of a value, a section, or a pair
  refine .ite (next.handle agree _ _) ?_
  refine .ite (.ite (next.entered _) next.fail) ?_
  exact .ite (.ite ((next.named _).handle agree _ _) next.fail) next

theorem iniParseFile_related (agree : HandlersAgree R handler handler') (contents : Str) {s : σ}
    {t : τ} (init : R s t) :
    (iniParseFile handler contents s).1 = (iniParseFile handler' contents t).1 ∧
      R (iniParseFile handler contents s).2 (iniParseFile handler' contents t).2 := by
  have lines : ∀ (lines : List Str) (st : IniState σ) (st' : IniState τ), st.Related R st' →
      (lines.foldl (iniLine handler) st).Related R (lines.foldl (iniLine handler') st') := by
    intro lines
    induction lines with
    | nil => exact fun _ _ related => related
    | cons line lines ih => exact fun st st' related => ih _ _ (related.line agree line)
  have final := lines (fileLines (contents.length + 1) contents) ⟨s, [], [], 0, 0⟩
    ⟨t, [], [], 0, 0⟩ ⟨init, rfl, rfl, rfl, rfl⟩
  exact ⟨final.error, final.user⟩

/-- Two handlers that answer alike are called alike through a whole file. -/
theorem iniParse_related (agree : HandlersAgree R handler handler') (files : Str → Option Str)
    (filename : Str) {s : σ} {t : τ} (init : R s t) :
    (iniParse handler files filename s).1 = (iniParse handler' files filename t).1 ∧
      R (iniParse handler files filename s).2 (iniParse handler' files filename t).2 := by
  unfold iniParse
  cases files filename with
  | none => exact ⟨rfl, init⟩
  | some contents =>
    obtain ⟨error, user⟩ := iniParseFile_related agree contents init
    exact ⟨congrArg _ error, user⟩

/-- What the handler preserves, a whole file preserves. -/
theorem iniParse_invariant {I : σ → Prop}
    (preserved : ∀ s sectionName name value, I s → I (handler s sectionName name value).2)
    (files : Str → Option Str) (filename : Str) {s : σ} (init : I s) :
    I (iniParse handler files filename s).2 :=
  (iniParse_related (R := fun s t => s = t ∧ I s)
    (fun s _ sectionName name value h =>
      ⟨by rw [h.1], by rw [h.1], preserved s sectionName name value h.2⟩)
    files filename ⟨rfl, init⟩).2.2

/-! ## Maps -/

section

variable {V : Type} {map : StrMap V} {key other : Str} {value : V}

theorem smPut_cons_of_ne {pair : Str × V} (hne : pair.1 ≠ key) :
    smPut (pair :: map) key value = pair :: smPut map key value := by
  unfold smPut
  rw [List.any_cons, beq_false_of_ne hne, Bool.false_or, List.map_cons, if_neg hne]
  split_ifs <;> rfl

theorem smGet_cons {pair : Str × V} :
    smGet (pair :: map) other = if other = pair.1 then some pair.2 else smGet map other := by
  unfold smGet
  rw [List.lookup_cons]
  by_cases h : other = pair.1
  · rw [if_pos h, h, beq_self_eq_true]
  · rw [if_neg h, beq_false_of_ne h]

theorem smGet_eq_none (unknown : key ∉ map.map Prod.fst) : smGet map key = none := by
  refine List.lookup_eq_none_iff.2 fun pair hpair => ?_
  have hne : key ≠ pair.1 := fun h => unknown (h ▸ List.mem_map_of_mem hpair)
  exact bne_iff_ne.2 hne

/-- Replacing the value of one key does not change those of the others. -/
theorem smGet_replace (hne : other ≠ key) :
    smGet (map.map fun pair => if pair.1 = key then (key, value) else pair) other =
      smGet map other := by
  induction map with
  | nil => rfl
  | cons pair rest ih =>
    rw [List.map_cons, smGet_cons, smGet_cons, ih]
    by_cases h : pair.1 = key
    · rw [if_pos h, if_neg hne, if_neg (h ▸ hne)]
    · rw [if_neg h]

/-- `StrMap` behaves as a finite map. -/
theorem smGet_smPut (map : StrMap V) (key : Str) (value : V) (other : Str) :
    smGet (smPut map key value) other = if other = key then some value else smGet map other := by
  induction map with
  | nil => exact smGet_cons
  | cons pair rest ih =>
    by_cases h : pair.1 = key
    · have known : smPut (pair :: rest) key value =
          (key, value) :: rest.map fun pair => if pair.1 = key then (key, value) else pair := by
        unfold smPut
        rw [List.any_cons, h, beq_self_eq_true, Bool.true_or, if_pos rfl, List.map_cons, if_pos h]
      rw [known, smGet_cons]
      by_cases heq : other = key
      · rw [if_pos heq, if_pos heq]
      · rw [if_neg heq, if_neg heq, smGet_replace heq, smGet_cons, if_neg (h ▸ heq)]
    · rw [smPut_cons_of_ne h, smGet_cons, smGet_cons, ih]
      by_cases heq : other = key
      · rw [if_pos heq, if_pos heq, if_neg fun h' => h (h'.symm.trans heq)]
      · rw [if_neg heq, if_neg heq]

end

end JLeaker
