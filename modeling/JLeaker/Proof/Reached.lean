import JLeaker.Proof.SearchInvariant

/-!
# The states a search can reach

A search is a list of events: a pass begins, or the JVM reports a reference.  The passes of
`tagReferencesChain` are such a list, and so is every beginning of them.
-/

namespace JLeaker

variable {Obj : Type} [DecidableEq Obj]

/-- What happens to a search. -/
inductive SearchEvent (Obj : Type) where
  /-- A pass begins. -/
  | pass
  /-- The JVM reports a reference. -/
  | report (r : HeapReference Obj)

/-- The state after an event. -/
def Search.step (env : Agent Obj) (s : Search Obj) : SearchEvent Obj → Except Fault (Search Obj)
  | .pass => .ok s.resetNodesFound
  | .report r => reportReference env s r

/-- The state after a list of events. -/
def Search.after (env : Agent Obj) (s : Search Obj) (events : List (SearchEvent Obj)) :
    Except Fault (Search Obj) := events.foldlM (Search.step env) s

theorem Search.after_append {env : Agent Obj} {s : Search Obj}
    (events events' : List (SearchEvent Obj)) :
    s.after env (events ++ events') = s.after env events >>= fun t => t.after env events' :=
  List.foldlM_append

theorem Search.after_concat {env : Agent Obj} {s : Search Obj} (events : List (SearchEvent Obj))
    (e : SearchEvent Obj) :
    s.after env (events ++ [e]) = s.after env events >>= fun t => t.step env e := by
  rw [Search.after_append]
  refine congrArg _ (funext fun t => ?_)
  exact (List.foldlM_cons ..).trans (bind_pure _)

/-- What the start of a pass and every report preserve holds in every state reached. -/
theorem Search.after_invariant {env : Agent Obj} {I : Search Obj → Prop}
    (reset : ∀ s, I s → I s.resetNodesFound)
    (report : ∀ s r s', I s → reportReference env s r = .ok s' → I s')
    {events : List (SearchEvent Obj)} {s s' : Search Obj} (init : I s)
    (run : s.after env events = .ok s') : I s' := by
  refine Run.foldlM_invariant (P := fun _ _ => True) ?_ ?_ init run
  · intro s e s' hs _ hstep
    cases e with
    | pass =>
      cases hstep
      exact reset s hs
    | report r => exact report s r s' hs hstep
  · exact Run.meets_of_forall (fun _ _ _ => trivial) s

theorem Search.after_reports {env : Agent Obj} (s : Search Obj) (refs : List (HeapReference Obj)) :
    s.after env (refs.map .report) = refs.foldlM (reportReference env) s := by
  rw [Search.after, List.foldlM_map]
  rfl

/-- The passes are a list of events. -/
theorem exists_events_of_heapIterations {env : Agent Obj} {order : ℕ → List (HeapReference Obj)}
    {n i : ℕ} {s s' : Search Obj} (run : heapIterations env order n i s = .ok s') :
    ∃ events, s.after env events = .ok s' := by
  induction n generalizing i s with
  | zero => exact ⟨[], run⟩
  | succ n ih =>
    obtain ⟨t, hpass, hrest⟩ := heapIterations_succ_eq_ok.1 run
    have first : s.after env (.pass :: (order i).map .report) = .ok t := by
      rw [← hpass, ← Search.after_reports]
      rfl
    split_ifs at hrest
    · obtain ⟨events, hevents⟩ := ih hrest
      refine ⟨(.pass :: (order i).map .report) ++ events, ?_⟩
      rw [Search.after_append, first, Run.ok_bind, hevents]
    · exact ⟨_, hrest ▸ first⟩

namespace Dump

variable (d : Dump Obj)

/-- The dump can be in the state `s` while it follows the references. -/
def Reached (s : Search Obj) : Prop := ∃ events, d.start.after d.agent events = .ok s

theorem reached_run {s : Search Obj} (run : d.run = .ok s) : d.Reached s :=
  exists_events_of_heapIterations run

variable {d}

theorem Reached.invariant {I : Search Obj → Prop} (reset : ∀ s, I s → I s.resetNodesFound)
    (report : ∀ s r s', I s → reportReference d.agent s r = .ok s' → I s') (init : I d.start)
    {s : Search Obj} (reached : d.Reached s) : I s := by
  obtain ⟨events, run⟩ := reached
  exact Search.after_invariant reset report init run

end Dump

end JLeaker
