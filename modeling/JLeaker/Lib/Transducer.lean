import Mathlib.Data.List.Basic

/-!
# Machines that turn one sequence into another

A transducer reads one item after another, emits some of its output at each and the rest when the input
ends.  However the input arrives, what it emits in the meantime comes first in the whole output.
-/

/-- A machine that reads `α` and emits `β`. -/
structure Transducer (α β : Type) where
  State : Type
  start : State
  step : State → α → List β × State
  /-- What is emitted when the input ends. -/
  finish : State → List β
  finish_start : finish start = []

namespace Transducer

variable {α β : Type} (t : Transducer α β)

/-- The state after some input. -/
def stateAfter (s : t.State) : List α → t.State
  | [] => s
  | a :: as => stateAfter (t.step s a).2 as

/-- What is emitted while some input is read. -/
def emit (s : t.State) : List α → List β
  | [] => []
  | a :: as => (t.step s a).1 ++ emit (t.step s a).2 as

/-- What is emitted for `as` after the input `before`. -/
def more (before as : List α) : List β := t.emit (t.stateAfter t.start before) as

/-- What is emitted at the end of an input. -/
def flush (input : List α) : List β := t.finish (t.stateAfter t.start input)

/-- The whole output. -/
def convert (input : List α) : List β := t.more [] input ++ t.flush input

/-- A machine that turns each item into another one. -/
def ofFun (f : α → β) : Transducer α β := ⟨Unit, (), fun _ a => ([f a], ()), fun _ => [], rfl⟩

theorem stateAfter_append (s : t.State) (as as' : List α) :
    t.stateAfter s (as ++ as') = t.stateAfter (t.stateAfter s as) as' := by
  induction as generalizing s with
  | nil => rfl
  | cons a as ih => exact ih _

theorem emit_append (s : t.State) (as as' : List α) :
    t.emit s (as ++ as') = t.emit s as ++ t.emit (t.stateAfter s as) as' := by
  induction as generalizing s with
  | nil => rfl
  | cons a as ih =>
    rw [List.cons_append, emit, ih, ← List.append_assoc]
    rfl

theorem more_nil (before : List α) : t.more before [] = [] := rfl

/-- Input in two parts. -/
theorem more_append (before as as' : List α) :
    t.more before (as ++ as') = t.more before as ++ t.more (before ++ as) as' := by
  unfold more
  rw [emit_append, stateAfter_append]

/-- The output for the first part comes first. -/
theorem convert_append (as as' : List α) :
    t.convert (as ++ as') = t.more [] as ++ (t.more as as' ++ t.flush (as ++ as')) := by
  unfold convert
  rw [more_append, List.nil_append, List.append_assoc]

/-! ## Parts of a text that are converted by themselves -/

/-- The input is turned into that output, and the machine is at its start again. -/
def Turns (input : List α) (output : List β) : Prop :=
  t.more [] input = output ∧ t.stateAfter t.start input = t.start

variable {t}

theorem Turns.convert {input : List α} {output : List β} (turns : t.Turns input output) :
    t.convert input = output := by
  unfold Transducer.convert flush
  rw [turns.1, turns.2, t.finish_start, List.append_nil]

theorem Turns.append {as as' : List α} {bs bs' : List β} (first : t.Turns as bs)
    (second : t.Turns as' bs') : t.Turns (as ++ as') (bs ++ bs') := by
  obtain ⟨emitted, state⟩ := second
  refine ⟨?_, by rw [stateAfter_append, first.2, state]⟩
  rw [more_append, first.1, List.nil_append, more, first.2]
  exact congrArg (bs ++ ·) emitted

/-- A text each item of which stays as it is. -/
theorem Turns.self {t : Transducer α α} {as : List α} (each : ∀ a ∈ as, t.Turns [a] [a]) :
    t.Turns as as := by
  induction as with
  | nil => exact ⟨rfl, rfl⟩
  | cons a as ih =>
    exact (each a List.mem_cons_self).append (ih fun b hb => each b (List.mem_cons_of_mem a hb))

end Transducer
