import Mathlib.Data.Set.Basic

/-!
# Vertices that lead to a goal

`Leads edge goal A v` says that a path from `v` through vertices of `A` ends in a goal.  A search may
shrink `A` while it runs, as long as it only drops vertices that lead nowhere: `Prunes` is that
relation between the sets before and after, and it changes no answer.
-/

namespace DeadEnds

variable {V : Type*} {edge : V → V → Prop} {goal : V → Prop} {A B C : Set V}

/-- A path through `A` from the vertex ends in a goal. -/
inductive Leads (edge : V → V → Prop) (goal : V → Prop) (A : Set V) : V → Prop
  | here {v : V} : v ∈ A → goal v → Leads edge goal A v
  | step {v w : V} : v ∈ A → edge v w → Leads edge goal A w → Leads edge goal A v

theorem Leads.mem {v : V} (leads : Leads edge goal A v) : v ∈ A := by
  cases leads <;> assumption

/-- A path stays one when edges, goals and vertices are added. -/
theorem Leads.imp {edge' : V → V → Prop} {goal' : V → Prop}
    (edges : ∀ v w, edge v w → edge' v w) (goals : ∀ v, goal v → goal' v) (sub : A ⊆ B) {v : V}
    (leads : Leads edge goal A v) : Leads edge' goal' B v := by
  induction leads with
  | here hv hg => exact .here (sub hv) (goals _ hg)
  | step hv he _ ih => exact .step (sub hv) (edges _ _ he) ih

/-- A path is followed in another graph by related vertices. -/
theorem Leads.simulate {W : Type*} {edge' : W → W → Prop} {goal' : W → Prop} {A' : Set W}
    {R : V → W → Prop} (edges : ∀ v w v', R v w → edge v v' → ∃ w', R v' w' ∧ edge' w w')
    (goals : ∀ v w, R v w → goal v → goal' w) (sub : ∀ v w, R v w → v ∈ A → w ∈ A') {v : V} {w : W}
    (related : R v w) (leads : Leads edge goal A v) : Leads edge' goal' A' w := by
  induction leads generalizing w with
  | here hv hg => exact .here (sub _ w related hv) (goals _ w related hg)
  | step hv he _ ih =>
    obtain ⟨w', related', he'⟩ := edges _ w _ related he
    exact .step (sub _ w related hv) he' (ih related')

theorem Leads.mono (sub : A ⊆ B) {v : V} (leads : Leads edge goal A v) : Leads edge goal B v :=
  leads.imp (fun _ _ h => h) (fun _ h => h) sub

/-- Either the path avoids `x`, or what follows its last visit of `x` does. -/
theorem Leads.avoid (x : V) {v : V} (leads : Leads edge goal A v) :
    Leads edge goal (A \ {x}) v ∨ goal x ∨ ∃ w, edge x w ∧ Leads edge goal (A \ {x}) w := by
  induction leads with
  | @here v hv hg =>
    by_cases hx : v = x
    · exact .inr (.inl (hx ▸ hg))
    · exact .inl (.here ⟨hv, hx⟩ hg)
  | @step v w hv he _ ih =>
    rcases ih with ih | ih
    · by_cases hx : v = x
      · exact .inr (.inr ⟨w, hx ▸ he, ih⟩)
      · exact .inl (.step ⟨hv, hx⟩ he ih)
    · exact .inr ih

/-- The first step of a path that does not come back. -/
theorem Leads.first_step {x : V} (leads : Leads edge goal A x) :
    goal x ∨ ∃ w, edge x w ∧ Leads edge goal (A \ {x}) w := by
  rcases leads.avoid x with h | h
  · exact absurd rfl h.mem.2
  · exact h

/-- `B` is `A` without some vertices that lead nowhere. -/
structure Prunes (edge : V → V → Prop) (goal : V → Prop) (A B : Set V) : Prop where
  sub : B ⊆ A
  deadEnd : ∀ v ∈ A, v ∉ B → ¬ Leads edge goal A v

theorem Prunes.refl (A : Set V) : Prunes edge goal A A :=
  ⟨subset_rfl, fun _ hv hn => absurd hv hn⟩

theorem Prunes.leads {v : V} (prunes : Prunes edge goal A B) (leads : Leads edge goal A v) :
    Leads edge goal B v := by
  induction leads with
  | @here v hv hg =>
    by_cases hB : v ∈ B
    · exact .here hB hg
    · exact absurd (.here hv hg) (prunes.deadEnd v hv hB)
  | @step v w hv he hw ih =>
    by_cases hB : v ∈ B
    · exact .step hB he ih
    · exact absurd (.step hv he hw) (prunes.deadEnd v hv hB)

theorem Prunes.trans (first : Prunes edge goal A B) (second : Prunes edge goal B C) :
    Prunes edge goal A C where
  sub := second.sub.trans first.sub
  deadEnd v hv hC leads := by
    by_cases hB : v ∈ B
    · exact second.deadEnd v hB hC (first.leads leads)
    · exact first.deadEnd v hv hB leads

/-- A vertex may be kept out of the way of both. -/
theorem Prunes.sdiff (prunes : Prunes edge goal A B) (x : V) :
    Prunes edge goal (A \ {x}) (B \ {x}) where
  sub _ h := ⟨prunes.sub h.1, h.2⟩
  deadEnd v hv hB leads :=
    prunes.deadEnd v hv.1 (fun h => hB ⟨h, hv.2⟩) (leads.mono fun _ h => h.1)

/-- What is pruned while `x` is kept out of the way is pruned with `x` in place, once `x` itself is
known to lead nowhere. -/
theorem Prunes.restore {x : V} (hx : x ∈ A) (prunes : Prunes edge goal (A \ {x}) B) (sub : C ⊆ A)
    (super : B ⊆ C) (nowhere : ¬ Leads edge goal A x) : Prunes edge goal A C where
  sub := sub
  deadEnd v hv hC leads := by
    by_cases hvx : v = x
    · exact nowhere (hvx ▸ leads)
    · rcases leads.avoid x with h | hg | ⟨w, he, hw⟩
      · exact prunes.deadEnd v ⟨hv, hvx⟩ (fun hB => hC (super hB)) h
      · exact nowhere (.here hx hg)
      · exact nowhere (.step hx he (hw.mono fun _ h => h.1))

end DeadEnds
