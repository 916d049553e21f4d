import JLeaker.Lib.Run

/-!
# Two computations in lockstep

`Lockstep R x y` says that two computations fail with the same error or both return, with results that
`R` relates.  The rules follow the ways in which computations are put together, so two programs that
work on different data are compared part by part.
-/

/-- Both fail alike, or both return, with related results. -/
inductive Lockstep {ε α β : Type} (R : α → β → Prop) : Except ε α → Except ε β → Prop
  | error (e : ε) : Lockstep R (.error e) (.error e)
  | ok {a : α} {b : β} (related : R a b) : Lockstep R (.ok a) (.ok b)

namespace Lockstep

variable {ε α β γ δ : Type} {R : α → β → Prop} {S : γ → δ → Prop} {x : Except ε α} {y : Except ε β}

/-- A computation is in lockstep with itself. -/
theorem refl (x : Except ε α) : Lockstep Eq x x := by
  cases x with
  | error e => exact .error e
  | ok a => exact .ok rfl

theorem mono {R' : α → β → Prop} (lock : Lockstep R x y) (imp : ∀ a b, R a b → R' a b) :
    Lockstep R' x y := by
  cases lock with
  | error e => exact .error e
  | ok related => exact .ok (imp _ _ related)

/-- What is known of the first result may be added to the relation. -/
theorem and_left {P : α → Prop} (lock : Lockstep R x y) (holds : ∀ a, x = .ok a → P a) :
    Lockstep (fun a b => P a ∧ R a b) x y := by
  cases lock with
  | error e => exact .error e
  | ok related => exact .ok ⟨holds _ rfl, related⟩

theorem bind {f : α → Except ε γ} {g : β → Except ε δ} (first : Lockstep R x y)
    (rest : ∀ a b, R a b → Lockstep S (f a) (g b)) : Lockstep S (x >>= f) (y >>= g) := by
  cases first with
  | error e => exact .error e
  | ok related => exact rest _ _ related

theorem mapError {ε' : Type} (lock : Lockstep R x y) (f : ε → ε') :
    Lockstep R (x.mapError f) (y.mapError f) := by
  cases lock with
  | error e => exact .error (f e)
  | ok related => exact .ok related

theorem ite {p q : Prop} [Decidable p] [Decidable q] {x' : Except ε α} {y' : Except ε β}
    (same : p ↔ q) (yes : p → Lockstep R x y) (no : ¬ p → Lockstep R x' y') :
    Lockstep R (if p then x else x') (if q then y else y') := by
  by_cases hp : p
  · rw [if_pos hp, if_pos (same.1 hp)]
    exact yes hp
  · rw [if_neg hp, if_neg (mt same.2 hp)]
    exact no hp

/-- Steps that keep a relation in lockstep, one after another. -/
theorem foldlM {ι : Type} {step : α → ι → Except ε α} {step' : β → ι → Except ε β}
    (lock : ∀ a b, R a b → ∀ i, Lockstep R (step a i) (step' b i)) {a : α} {b : β} (init : R a b)
    (is : List ι) : Lockstep R (is.foldlM step a) (is.foldlM step' b) := by
  induction is generalizing a b with
  | nil => exact .ok init
  | cons i is ih =>
    rw [List.foldlM_cons, List.foldlM_cons]
    exact (lock a b init i).bind fun a b kept => ih kept

/-- Computations in lockstep by equality are equal. -/
theorem eq {y : Except ε α} (lock : Lockstep Eq x y) : x = y := by
  cases lock with
  | error e => rfl
  | ok same => rw [same]

end Lockstep
