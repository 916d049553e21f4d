import Mathlib.Data.List.Nodup
import Mathlib.Data.Set.Insert
import Mathlib.Logic.Function.Basic

/-!
# Items with one owner

Owners keep items in lists.  An item comes in with its first owner, a whole list may move to an
owner that has none, and owners give up all they have.  `Exact` says that every item that came in is
with one owner, who has it once, or was given up once; each of these operations preserves it.
-/

/-- The items of each owner, and the items that were given up. -/
structure Custody (Owner Item : Type*) where
  held : Owner → List Item
  gone : List Item

namespace Custody

variable {Owner Item : Type*} [DecidableEq Owner] {c : Custody Owner Item} {items : Set Item}

/-- Nothing has come in. -/
def empty : Custody Owner Item := ⟨fun _ => [], []⟩

/-- An item comes in. -/
def receive (c : Custody Owner Item) (o : Owner) (i : Item) : Custody Owner Item :=
  { c with held := Function.update c.held o (i :: c.held o) }

/-- All items of an owner go to another one. -/
def move (c : Custody Owner Item) (source target : Owner) : Custody Owner Item :=
  { c with held := Function.update (Function.update c.held target (c.held source)) source [] }

/-- Some owners give up what they have, one after another. -/
def giveUp (c : Custody Owner Item) (os : List Owner) : Custody Owner Item where
  held o := if o ∈ os then [] else c.held o
  gone := c.gone ++ os.flatMap c.held

/-- The items that came in are with one owner each, or were given up. -/
structure Exact (items : Set Item) (c : Custody Owner Item) : Prop where
  nodup : ∀ o, (c.held o).Nodup
  gone_nodup : c.gone.Nodup
  owner : ∀ o o' i, i ∈ c.held o → i ∈ c.held o' → o = o'
  kept : ∀ o, ∀ i ∈ c.held o, i ∉ c.gone
  mem : ∀ i, i ∈ items ↔ i ∈ c.gone ∨ ∃ o, i ∈ c.held o

omit [DecidableEq Owner] in
theorem exact_empty : Exact ∅ (empty : Custody Owner Item) where
  nodup _ := List.nodup_nil
  gone_nodup := List.nodup_nil
  owner _ _ _ h := absurd h List.not_mem_nil
  kept _ _ h := absurd h List.not_mem_nil
  mem i := by simp [empty]

namespace Exact

omit [DecidableEq Owner] in
/-- An item that was not given up has an owner, and only one. -/
theorem existsUnique (exact : c.Exact items) {i : Item} (hi : i ∈ items) (here : i ∉ c.gone) :
    ∃! o, i ∈ c.held o := by
  obtain ⟨o, ho⟩ := ((exact.mem i).1 hi).resolve_left here
  exact ⟨o, ho, fun o' ho' => exact.owner o' o i ho' ho⟩

theorem receive (exact : c.Exact items) (o : Owner) {i : Item} (new : i ∉ items) :
    (c.receive o i).Exact (insert i items) := by
  have nowhere : ∀ o', i ∉ c.held o' := fun o' h => new ((exact.mem i).2 (.inr ⟨o', h⟩))
  have held : ∀ o' j, j ∈ (c.receive o i).held o' ↔ o' = o ∧ j = i ∨ j ∈ c.held o' := by
    intro o' j
    by_cases ho : o' = o
    · subst ho
      simp [Custody.receive]
    · simp [Custody.receive, ho]
  refine ⟨fun o' => ?_, exact.gone_nodup, fun o₁ o₂ j h₁ h₂ => ?_, fun o' j h hj => ?_, fun j => ?_⟩
  · by_cases ho : o' = o
    · subst ho
      simp only [Custody.receive, Function.update_self]
      exact List.nodup_cons.2 ⟨nowhere o', exact.nodup o'⟩
    · simp only [Custody.receive, Function.update_of_ne ho]
      exact exact.nodup o'
  · rcases (held o₁ j).1 h₁ with ⟨rfl, rfl⟩ | had₁
    · rcases (held o₂ j).1 h₂ with ⟨rfl, -⟩ | had₂
      · rfl
      · exact absurd had₂ (nowhere o₂)
    · rcases (held o₂ j).1 h₂ with ⟨rfl, rfl⟩ | had₂
      · exact absurd had₁ (nowhere o₁)
      · exact exact.owner o₁ o₂ j had₁ had₂
  · rcases (held o' j).1 h with ⟨-, rfl⟩ | h
    · exact new ((exact.mem j).2 (.inl hj))
    · exact exact.kept o' j h hj
  · rw [Set.mem_insert_iff, exact.mem]
    constructor
    · rintro (rfl | hj | ⟨o', hj⟩)
      · exact .inr ⟨o, (held o j).2 (.inl ⟨rfl, rfl⟩)⟩
      · exact .inl hj
      · exact .inr ⟨o', (held o' j).2 (.inr hj)⟩
    · rintro (hj | ⟨o', hj⟩)
      · exact .inr (.inl hj)
      · rcases (held o' j).1 hj with ⟨-, rfl⟩ | hj
        · exact .inl rfl
        · exact .inr (.inr ⟨o', hj⟩)

theorem move (exact : c.Exact items) {source target : Owner} (ne : target ≠ source)
    (free : c.held target = []) : (c.move source target).Exact items := by
  have held : ∀ o, (c.move source target).held o =
      if o = source then [] else if o = target then c.held source else c.held o := by
    intro o
    simp only [Custody.move, Function.update_apply]
  -- whose items the owner has now
  have old : ∀ o i, i ∈ (c.move source target).held o →
      (o = target ∧ i ∈ c.held source) ∨ (o ≠ source ∧ o ≠ target ∧ i ∈ c.held o) := by
    intro o i h
    rw [held] at h
    split_ifs at h with hs ht
    · cases h
    · exact .inl ⟨ht, h⟩
    · exact .inr ⟨hs, ht, h⟩
  refine ⟨fun o => ?_, exact.gone_nodup, fun o₁ o₂ i h₁ h₂ => ?_, fun o i h hi => ?_, fun i => ?_⟩
  · rw [held]
    split_ifs
    · exact List.nodup_nil
    · exact exact.nodup source
    · exact exact.nodup o
  · rcases old o₁ i h₁ with ⟨rfl, had₁⟩ | ⟨ne₁, -, had₁⟩
    · rcases old o₂ i h₂ with ⟨rfl, -⟩ | ⟨ne₂, -, had₂⟩
      · rfl
      · exact absurd (exact.owner o₂ source i had₂ had₁) ne₂
    · rcases old o₂ i h₂ with ⟨rfl, had₂⟩ | ⟨-, -, had₂⟩
      · exact absurd (exact.owner o₁ source i had₁ had₂) ne₁
      · exact exact.owner o₁ o₂ i had₁ had₂
  · rcases old o i h with ⟨-, h⟩ | ⟨-, -, h⟩
    · exact exact.kept source i h hi
    · exact exact.kept o i h hi
  · rw [exact.mem]
    refine or_congr_right ⟨fun ⟨o, h⟩ => ?_, fun ⟨o, h⟩ => ?_⟩
    · by_cases hs : o = source
      · refine ⟨target, ?_⟩
        rw [held, if_neg ne, if_pos rfl, ← hs]
        exact h
      · have ht : o ≠ target := by
          rintro rfl
          rw [free] at h
          cases h
        refine ⟨o, ?_⟩
        rw [held, if_neg hs, if_neg ht]
        exact h
    · rcases old o i h with ⟨-, h⟩ | ⟨-, -, h⟩
      · exact ⟨source, h⟩
      · exact ⟨o, h⟩

theorem giveUp (exact : c.Exact items) {os : List Owner} (nodup : os.Nodup) :
    (c.giveUp os).Exact items := by
  have held : ∀ o i, i ∈ (c.giveUp os).held o ↔ o ∉ os ∧ i ∈ c.held o := by
    intro o i
    by_cases ho : o ∈ os
    · simp [Custody.giveUp, ho]
    · simp [Custody.giveUp, ho]
  have gone : ∀ i, i ∈ (c.giveUp os).gone ↔ i ∈ c.gone ∨ ∃ o ∈ os, i ∈ c.held o := by
    intro i
    simp [Custody.giveUp]
  refine ⟨fun o => ?_, ?_, fun o₁ o₂ i h₁ h₂ => ?_, fun o i h hi => ?_, fun i => ?_⟩
  · show List.Nodup (if o ∈ os then [] else c.held o)
    split_ifs
    · exact List.nodup_nil
    · exact exact.nodup o
  · refine List.nodup_append.2 ⟨exact.gone_nodup, ?_, ?_⟩
    · refine List.nodup_flatMap.2 ⟨fun o _ => exact.nodup o, ?_⟩
      exact nodup.imp fun ne i h₁ h₂ => ne (exact.owner _ _ i h₁ h₂)
    · rintro i hi j hj rfl
      obtain ⟨o, -, h⟩ := List.mem_flatMap.1 hj
      exact exact.kept o i h hi
  · exact exact.owner o₁ o₂ i ((held o₁ i).1 h₁).2 ((held o₂ i).1 h₂).2
  · obtain ⟨ho, h⟩ := (held o i).1 h
    rcases (gone i).1 hi with hi | ⟨o', ho', h'⟩
    · exact exact.kept o i h hi
    · exact ho (exact.owner o o' i h h' ▸ ho')
  · rw [exact.mem, gone, or_assoc]
    refine or_congr_right ⟨fun ⟨o, h⟩ => ?_, ?_⟩
    · by_cases ho : o ∈ os
      · exact .inl ⟨o, ho, h⟩
      · exact .inr ⟨o, (held o i).2 ⟨ho, h⟩⟩
    · rintro (⟨o, -, h⟩ | ⟨o, h⟩)
      · exact ⟨o, h⟩
      · exact ⟨o, ((held o i).1 h).2⟩

end Exact

end Custody
