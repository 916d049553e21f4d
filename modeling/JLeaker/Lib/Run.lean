import Mathlib.Logic.Basic

/-!
# Runs of a step function that may fail

A run feeds a list of inputs to a step function `σ → ι → Except ε σ`, one after another
(`List.foldlM`).  `Meets step P s is` says that every step the run takes from `s` starts in a state
and with an input that satisfy `P`.
-/

namespace Run

theorem bind_eq_ok {ε α β : Type} {x : Except ε α} {f : α → Except ε β} {b : β} :
    (x >>= f) = .ok b ↔ ∃ a, x = .ok a ∧ f a = .ok b := by
  cases x with
  | error e => simp [bind, Except.bind]
  | ok a => simp [bind, Except.bind]

@[simp] theorem ok_bind {ε α β : Type} (a : α) (f : α → Except ε β) :
    ((Except.ok a : Except ε α) >>= f) = f a := rfl

@[simp] theorem error_bind {ε α β : Type} (e : ε) (f : α → Except ε β) :
    ((Except.error e : Except ε α) >>= f) = .error e := rfl

/-- Something put around the result does not change whether there is one. -/
theorem exists_bind_pure_iff {ε α β : Type} {x : Except ε α} {around : α → β} :
    (∃ b, (x >>= fun a => pure (around a)) = .ok b) ↔ ∃ a, x = .ok a := by
  cases x with
  | error e => exact iff_of_false (by rintro ⟨_, ⟨⟩⟩) (by rintro ⟨_, ⟨⟩⟩)
  | ok a => exact iff_of_true ⟨_, rfl⟩ ⟨_, rfl⟩

@[simp] theorem mapError_ok {ε ε' α : Type} (f : ε → ε') (a : α) :
    (Except.ok a).mapError f = .ok a := rfl

@[simp] theorem mapError_error {ε ε' α : Type} (f : ε → ε') (e : ε) :
    (Except.error e : Except ε α).mapError f = .error (f e) := rfl

/-- Another name for the error changes nothing of the results. -/
@[simp] theorem mapError_eq_ok {ε ε' α : Type} {x : Except ε α} {f : ε → ε'} {a : α} :
    x.mapError f = .ok a ↔ x = .ok a := by
  cases x with
  | error e => simp only [mapError_error, reduceCtorEq]
  | ok b => simp only [mapError_ok, Except.ok.injEq]

/-- A computation whose result passes a test returns a result that passes it. -/
theorem exists_ok_of_any {ε α : Type} {x : Except ε α} {p : α → Bool}
    (h : (x.toOption.any p) = true) : ∃ a, x = .ok a ∧ p a = true := by
  cases x with
  | error e => simp [Except.toOption] at h
  | ok a => exact ⟨a, rfl, h⟩

/-- The error of a computation, if it fails. -/
def error? {ε α : Type} : Except ε α → Option ε
  | .error e => some e
  | .ok _ => none

theorem eq_error_of_error? {ε α : Type} {x : Except ε α} {e : ε} (h : error? x = some e) :
    x = .error e := by
  cases x with
  | error e' => exact congrArg Except.error (Option.some.inj h)
  | ok a => cases h

/-- What is said of the result can be checked by looking at it. -/
instance decidableOfOk {ε α : Type} {p : α → Prop} [DecidablePred p] :
    ∀ x : Except ε α, Decidable (∀ a, x = .ok a → p a)
  | .error _ => isTrue fun _ h => nomatch h
  | .ok a => decidable_of_iff (p a) ⟨fun h _ eq => Except.ok.inj eq ▸ h, fun h => h a rfl⟩

variable {σ ι ε : Type} {step : σ → ι → Except ε σ}

/-- Every step of the run from `s` over the inputs satisfies `P`. -/
def Meets (step : σ → ι → Except ε σ) (P : σ → ι → Prop) : σ → List ι → Prop
  | _, [] => True
  | s, i :: is => P s i ∧ ∀ s', step s i = .ok s' → Meets step P s' is

/-- What is said of the steps of a run can be checked by taking it. -/
instance Meets.decidable {P : σ → ι → Prop} [∀ s i, Decidable (P s i)] :
    ∀ s is, Decidable (Meets step P s is)
  | _, [] => isTrue trivial
  | s, i :: is =>
    have : DecidablePred fun s' => Meets step P s' is := fun s' => Meets.decidable s' is
    inferInstanceAs (Decidable (P s i ∧ ∀ s', step s i = .ok s' → Meets step P s' is))

theorem foldlM_cons_eq_ok {s s' : σ} {i : ι} {is : List ι} :
    (i :: is).foldlM step s = .ok s' ↔
      ∃ t, step s i = .ok t ∧ is.foldlM step t = .ok s' := by
  rw [List.foldlM_cons, bind_eq_ok]

theorem foldlM_append_eq_ok {s s' : σ} {is js : List ι} :
    (is ++ js).foldlM step s = .ok s' ↔
      ∃ t, is.foldlM step s = .ok t ∧ js.foldlM step t = .ok s' := by
  rw [List.foldlM_append, bind_eq_ok]

/-- What every admitted step preserves, the run preserves. -/
theorem foldlM_invariant {P : σ → ι → Prop} {I : σ → Prop}
    (preserved : ∀ s i s', I s → P s i → step s i = .ok s' → I s') {is : List ι} {s s' : σ}
    (meets : Meets step P s is) (init : I s) (run : is.foldlM step s = .ok s') : I s' := by
  induction is generalizing s with
  | nil =>
    cases run
    exact init
  | cons i is ih =>
    obtain ⟨t, first, rest⟩ := foldlM_cons_eq_ok.1 run
    exact ih (meets.2 t first) (preserved s i t init meets.1 first) rest

/-- A step that turns the persistent `A` into the persistent `B` has done so by the end of a run that
takes it. -/
theorem foldlM_reaches {P : σ → ι → Prop} {I A B : σ → Prop} {i₀ : ι}
    (preserved : ∀ s i s', I s → P s i → step s i = .ok s' → I s')
    (keepA : ∀ s i s', I s → P s i → A s → step s i = .ok s' → A s')
    (keepB : ∀ s i s', I s → P s i → B s → step s i = .ok s' → B s')
    (fires : ∀ s s', I s → P s i₀ → A s → step s i₀ = .ok s' → B s') {is : List ι} {s s' : σ}
    (mem : i₀ ∈ is) (meets : Meets step P s is) (init : I s) (ready : A s)
    (run : is.foldlM step s = .ok s') : B s' := by
  induction is generalizing s with
  | nil => cases mem
  | cons i is ih =>
    obtain ⟨t, first, rest⟩ := foldlM_cons_eq_ok.1 run
    have kept := preserved s i t init meets.1 first
    rcases List.mem_cons.1 mem with rfl | mem
    · exact (foldlM_invariant (I := fun s => I s ∧ B s)
        (fun s i s' h hp hs => ⟨preserved s i s' h.1 hp hs, keepB s i s' h.1 hp h.2 hs⟩)
        (meets.2 t first) ⟨kept, fires s t init meets.1 ready first⟩ rest).2
    · exact ih mem (meets.2 t first) kept (keepA s i t init meets.1 ready first) rest

/-- A run whose steps all succeed under the invariant succeeds. -/
theorem foldlM_succeeds {P : σ → ι → Prop} {I : σ → Prop}
    (progress : ∀ s i, I s → P s i → ∃ s', step s i = .ok s' ∧ I s') {is : List ι} {s : σ}
    (meets : Meets step P s is) (init : I s) : ∃ s', is.foldlM step s = .ok s' ∧ I s' := by
  induction is generalizing s with
  | nil => exact ⟨s, rfl, init⟩
  | cons i is ih =>
    obtain ⟨t, first, kept⟩ := progress s i init meets.1
    obtain ⟨s', rest, done⟩ := ih (meets.2 t first) kept
    exact ⟨s', foldlM_cons_eq_ok.2 ⟨t, first, rest⟩, done⟩

/-- A run follows another one whose every step it can follow. -/
theorem foldlM_simulates {τ : Type} {step' : τ → ι → Except ε τ} {R : σ → τ → Prop}
    {P : σ → ι → Prop} {P' : τ → ι → Prop}
    (follow : ∀ s t i s', R s t → P s i → P' t i → step s i = .ok s' →
      ∃ t', step' t i = .ok t' ∧ R s' t') {is : List ι} {s s' : σ} {t : τ}
    (meets : Meets step P s is) (meets' : Meets step' P' t is) (init : R s t)
    (run : is.foldlM step s = .ok s') : ∃ t', is.foldlM step' t = .ok t' ∧ R s' t' := by
  induction is generalizing s t with
  | nil =>
    cases run
    exact ⟨t, rfl, init⟩
  | cons i is ih =>
    obtain ⟨s₁, first, rest⟩ := foldlM_cons_eq_ok.1 run
    obtain ⟨t₁, first', kept⟩ := follow s t i s₁ init meets.1 meets'.1 first
    obtain ⟨t', rest', done⟩ := ih (meets.2 s₁ first) (meets'.2 t₁ first') kept rest
    exact ⟨t', foldlM_cons_eq_ok.2 ⟨t₁, first', rest'⟩, done⟩

theorem Meets.mono {P Q : σ → ι → Prop} (imp : ∀ s i, P s i → Q s i) {is : List ι} {s : σ}
    (meets : Meets step P s is) : Meets step Q s is := by
  induction is generalizing s with
  | nil => trivial
  | cons i is ih => exact ⟨imp _ _ meets.1, fun s' h => ih (meets.2 s' h)⟩

theorem Meets.and {P Q : σ → ι → Prop} {is : List ι} {s : σ} (first : Meets step P s is)
    (second : Meets step Q s is) : Meets step (fun s i => P s i ∧ Q s i) s is := by
  induction is generalizing s with
  | nil => trivial
  | cons i is ih => exact ⟨⟨first.1, second.1⟩, fun s' h => ih (first.2 s' h) (second.2 s' h)⟩

/-- What an invariant adds to the steps of a run. -/
theorem Meets.of_invariant {P Q : σ → ι → Prop} {I : σ → Prop}
    (preserved : ∀ s i s', I s → P s i → step s i = .ok s' → I s')
    (imp : ∀ s i, I s → P s i → Q s i) {is : List ι} {s : σ} (meets : Meets step P s is)
    (init : I s) : Meets step Q s is := by
  induction is generalizing s with
  | nil => trivial
  | cons i is ih =>
    exact ⟨imp s i init meets.1, fun s' h =>
      ih (meets.2 s' h) (preserved s i s' init meets.1 h)⟩

/-- The steps of the second part of a run. -/
theorem Meets.append_right {P : σ → ι → Prop} {is js : List ι} {s t : σ}
    (meets : Meets step P s (is ++ js)) (run : is.foldlM step s = .ok t) : Meets step P t js := by
  induction is generalizing s with
  | nil =>
    cases run
    exact meets
  | cons i is ih =>
    obtain ⟨u, first, rest⟩ := foldlM_cons_eq_ok.1 run
    exact ih (meets.2 u first) rest

theorem meets_of_forall {P : σ → ι → Prop} {is : List ι} (all : ∀ s, ∀ i ∈ is, P s i) (s : σ) :
    Meets step P s is := by
  induction is generalizing s with
  | nil => trivial
  | cons i is ih =>
    exact ⟨all s i (by simp), fun s' _ => ih (fun s j hj => all s j (by simp [hj])) s'⟩

end Run
