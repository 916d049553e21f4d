import Mathlib.Data.Finset.Card

/-!
# Computations that may fail, with a log

A computation writes items down while it runs.  What it has written before it fails is kept.
-/

/-- The result of a computation, and what it has written down. -/
@[ext]
structure Logged (ε ι α : Type) where
  result : Except ε α
  log : List ι

namespace Logged

variable {ε ι α β : Type}

instance : Monad (Logged ε ι) where
  pure a := ⟨.ok a, []⟩
  bind x f :=
    match x.result with
    | .error e => ⟨.error e, x.log⟩
    | .ok a => ⟨(f a).result, x.log ++ (f a).log⟩

/-- A computation that writes nothing down. -/
instance : MonadLift (Except ε) (Logged ε ι) := ⟨fun x => ⟨x, []⟩⟩

/-- Write an item down. -/
def emit (i : ι) : Logged ε ι Unit := ⟨.ok (), [i]⟩

@[simp] theorem lift_ok_bind (a : α) (f : α → Logged ε ι β) :
    ((liftM (Except.ok a : Except ε α) : Logged ε ι α) >>= f) = f a := rfl

@[simp] theorem lift_error_bind (e : ε) (f : α → Logged ε ι β) :
    ((liftM (Except.error e : Except ε α) : Logged ε ι α) >>= f) = ⟨.error e, []⟩ := rfl

/-- Two parts that write nothing down. -/
theorem lift_bind (x : Except ε α) (f : α → Except ε β) :
    (liftM (x >>= f) : Logged ε ι β) = liftM x >>= fun a => (liftM (f a) : Logged ε ι β) := by
  cases x with
  | error e => rfl
  | ok a => rfl

theorem emit_bind (i : ι) (f : Unit → Logged ε ι β) :
    (emit i >>= f) = ⟨(f ()).result, i :: (f ()).log⟩ := rfl

/-! ## The result -/

@[simp] theorem result_pure (a : α) : (pure a : Logged ε ι α).result = .ok a := rfl

@[simp] theorem result_lift (x : Except ε α) : (liftM x : Logged ε ι α).result = x := rfl

@[simp] theorem result_emit (i : ι) : (emit i : Logged ε ι Unit).result = .ok () := rfl

@[simp] theorem result_bind (x : Logged ε ι α) (f : α → Logged ε ι β) :
    (x >>= f).result = x.result >>= fun a => (f a).result := by
  show (match x.result with
    | .error e => (⟨.error e, x.log⟩ : Logged ε ι β)
    | .ok a => ⟨(f a).result, x.log ++ (f a).log⟩).result = _
  cases x.result with
  | error e => rfl
  | ok a => rfl

theorem result_bind_of_ok {x : Logged ε ι α} {a : α} (h : x.result = .ok a)
    (f : α → Logged ε ι β) : (x >>= f).result = (f a).result := by
  rw [result_bind, h]
  rfl

theorem result_bind_of_error {x : Logged ε ι α} {e : ε} (h : x.result = .error e)
    (f : α → Logged ε ι β) : (x >>= f).result = .error e := by
  rw [result_bind, h]
  rfl

/-- Taking the log away, one step after the other. -/
theorem result_bind_eq {x : Logged ε ι α} {y : Except ε α} {f : α → Logged ε ι β}
    {g : α → Except ε β} (first : x.result = y) (rest : ∀ a, (f a).result = g a) :
    (x >>= f).result = y >>= g := by
  rw [result_bind, first]
  exact congrArg _ (funext rest)

/-! ## The log -/

@[simp] theorem log_pure (a : α) : (pure a : Logged ε ι α).log = [] := rfl

@[simp] theorem log_lift (x : Except ε α) : (liftM x : Logged ε ι α).log = [] := rfl

@[simp] theorem log_emit (i : ι) : (emit i : Logged ε ι Unit).log = [i] := rfl

theorem log_bind_of_ok {x : Logged ε ι α} {a : α} (h : x.result = .ok a) (f : α → Logged ε ι β) :
    (x >>= f).log = x.log ++ (f a).log := by
  show (match x.result with
    | .error e => (⟨.error e, x.log⟩ : Logged ε ι β)
    | .ok a => ⟨(f a).result, x.log ++ (f a).log⟩).log = _
  rw [h]

theorem log_bind_of_error {x : Logged ε ι α} {e : ε} (h : x.result = .error e)
    (f : α → Logged ε ι β) : (x >>= f).log = x.log := by
  show (match x.result with
    | .error e => (⟨.error e, x.log⟩ : Logged ε ι β)
    | .ok a => ⟨(f a).result, x.log ++ (f a).log⟩).log = _
  rw [h]

theorem log_bind_pure (x : Logged ε ι α) (f : α → β) :
    (x >>= fun a => (pure (f a) : Logged ε ι β)).log = x.log := by
  rcases h : x.result with e | a
  · exact log_bind_of_error h _
  · rw [log_bind_of_ok h]
    exact List.append_nil x.log

instance : LawfulMonad (Logged ε ι) := LawfulMonad.mk' _
  (fun x => by
    rcases h : x.result with e | a
    · exact Logged.ext ((result_bind_of_error h _).trans h.symm) (log_bind_of_error h _)
    · exact Logged.ext ((result_bind_of_ok h _).trans h.symm)
        ((log_bind_of_ok h _).trans (List.append_nil _)))
  (fun _ _ => rfl)
  (fun x f g => by
    rcases h : x.result with e | a
    · have first := result_bind_of_error h f
      exact Logged.ext ((result_bind_of_error first g).trans (result_bind_of_error h _).symm)
        ((log_bind_of_error first g).trans ((log_bind_of_error h f).trans (log_bind_of_error h _).symm))
    · have first := result_bind_of_ok h f
      rcases h' : (f a).result with e | b
      · have second := first.trans h'
        refine Logged.ext ?_ ?_
        · rw [result_bind_of_error second, result_bind_of_ok h, result_bind_of_error h']
        · rw [log_bind_of_error second, log_bind_of_ok h, log_bind_of_ok h, log_bind_of_error h']
      · have second := first.trans h'
        refine Logged.ext ?_ ?_
        · rw [result_bind_of_ok second, result_bind_of_ok h, result_bind_of_ok h']
        · rw [log_bind_of_ok second, log_bind_of_ok h, log_bind_of_ok h, log_bind_of_ok h',
            List.append_assoc])

/-- Items that were written down once at most are no more than there are. -/
theorem length_filter_le_card [DecidableEq ι] {p : ι → Prop} [DecidablePred p] {log : List ι}
    {items : Finset ι} (inside : ∀ i ∈ log, i ∈ items) (once : ∀ i, p i → log.count i ≤ 1) :
    (log.filter fun i => p i).length ≤ items.card := by
  have nodup : (log.filter fun i => p i).Nodup := by
    rw [List.nodup_iff_count_le_one]
    intro i
    by_cases hi : p i
    · exact (List.filter_sublist.count_le i).trans (once i hi)
    · have absent : i ∉ log.filter fun i => p i := fun mem =>
        hi (of_decide_eq_true (List.mem_filter.1 mem).2)
      exact (List.count_eq_zero.2 absent).trans_le (Nat.zero_le 1)
  rw [← List.toFinset_card_of_nodup nodup]
  apply Finset.card_le_card
  intro i hi
  exact inside i (List.mem_filter.1 (List.mem_toFinset.1 hi)).1

end Logged
