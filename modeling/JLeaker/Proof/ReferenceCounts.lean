import JLeaker.Proof.Reached
import JLeaker.Proof.Teardown

/-!
# Reference counts

Whatever the search does, the counter of a node is the number of records that point to it, plus one
for the list that holds it; and a node that no list holds was recorded on the way from a leak.
-/

namespace JLeaker

variable {Obj : Type}

/-- The number of records, over all nodes, that point to the node at `a`. -/
def recordsTo (h : CHeap (MemoryNode Obj)) (a : ℕ) : ℕ :=
  ∑ b ∈ h.dom, (referencesOf h b).countP fun ref => ref.node = some a

theorem count_targets (refs : List MemoryReferer) (a : ℕ) :
    (targets refs).count a = refs.countP fun ref => ref.node = some a := by
  induction refs with
  | nil => rfl
  | cons ref refs ih =>
    rw [targets_cons, Multiset.count_add, count_pointee, ih, List.countP_cons, add_comm]
    simp

theorem count_pointees_sum (a : ℕ) (dom : Finset ℕ) (f : ℕ → Multiset (ℕ × MemoryReferer)) :
    (pointees (∑ b ∈ dom, f b)).count a = ∑ b ∈ dom, (pointees (f b)).count a := by
  induction dom using Finset.induction_on with
  | empty => simp [pointees]
  | insert b dom hb ih =>
    rw [Finset.sum_insert hb, pointees_add, Multiset.count_add, ih, Finset.sum_insert hb]

/-- While no node is marked visited, all records are in the lists. -/
theorem count_pointees_unfreed {h : CHeap (MemoryNode Obj)}
    (unmarked : ∀ a nd, h.get? a = some nd → nd.visited = false) (a : ℕ) :
    (pointees (unfreed h)).count a = recordsTo h a := by
  rw [unfreed, CHeap.total, count_pointees_sum, recordsTo]
  refine Finset.sum_congr rfl fun b _ => ?_
  rw [valueAt_unfreedOf unmarked, pointees_map, count_targets]

theorem exists_record_of_recordsTo {h : CHeap (MemoryNode Obj)} {a : ℕ} (pos : 0 < recordsTo h a) :
    ∃ b ref, ref ∈ referencesOf h b ∧ ref.node = some a := by
  obtain ⟨b, _, hb⟩ := Finset.exists_ne_zero_of_sum_ne_zero pos.ne'
  obtain ⟨ref, href, hnode⟩ := List.countP_pos_iff.1 (Nat.pos_of_ne_zero hb)
  exact ⟨b, ref, href, of_decide_eq_true hnode⟩

section

variable [DecidableEq Obj]

theorem Dump.Reached.heldByLists {d : Dump Obj} {s : Search Obj} (reached : d.Reached s) :
    HeldByLists d.leaks d.classNodes s :=
  reached.invariant (I := HeldByLists d.leaks d.classNodes) (fun _ h => h.resetNodesFound)
    (fun _ _ _ h hreport => h.outcome (reportReference_outcome hreport)) d.heldByLists_start

/-- In every state reached, each counter is exact, and a node that neither list holds is pointed to
by a record and reached from a leak. -/
theorem referenceCounts_exact (d : Dump Obj) {events : List (SearchEvent Obj)} {s : Search Obj}
    (run : d.start.after d.agent events = .ok s) {a : ℕ} {nd : MemoryNode Obj}
    (node : s.nodes.get? a = some nd) :
    nd.referencePointingToMe =
        recordsTo s.nodes a + (if a ∈ d.leaks.map (·.node) ∨ a ∈ d.classNodes then 1 else 0) ∧
      (a ∉ d.leaks.map (·.node) → a ∉ d.classNodes →
        (∃ b ref, ref ∈ referencesOf s.nodes b ∧ ref.node = some a) ∧
          ∃ leak ∈ d.leaks, Reaches s.nodes leak.node a) := by
  have held := Dump.Reached.heldByLists ⟨events, run⟩
  have hcount := held.owned.counted.count a nd node
  have hlists : (↑(d.leaks.map (·.node)) + ↑d.classNodes : Multiset ℕ).count a =
      if a ∈ d.leaks.map (·.node) ∨ a ∈ d.classNodes then 1 else 0 := by
    rw [Multiset.coe_add, Multiset.coe_count, d.lists_nodup.count]
    simp only [List.mem_append]
  rw [Multiset.count_add, hlists, count_pointees_unfreed held.owned.unmarked] at hcount
  refine ⟨?_, fun hleak hclass => ?_⟩
  · rw [hcount]
    split_ifs <;> omega
  · have pos := held.owned.counted.held a nd node (held.owned.unmarked a nd node)
    have hrecords : 0 < recordsTo s.nodes a := by
      rw [hcount, if_neg (by simp only [hleak, hclass, or_self, not_false_eq_true])] at pos
      omega
    obtain ⟨b, ref, href, hnode⟩ := exists_record_of_recordsTo hrecords
    obtain ⟨leak, hleaks, hreach⟩ := held.owned.reached b (List.ne_nil_of_mem href)
    exact ⟨⟨b, ref, href, hnode⟩, leak, hleaks, hreach.tail ⟨ref, href, hnode⟩⟩

end

/-- The holder that both leaks share, at address 5, is pointed to by three records. -/
theorem referenceCounts_exact_sharedCycle :
    ∃ s nd, Sample.sharedCycle.start.after Sample.sharedCycle.agent
        (.pass :: (Sample.sharedCycle.order 0).map .report) = .ok s ∧
      s.nodes.get? 5 = some nd ∧ recordsTo s.nodes 5 = 3 ∧ nd.referencePointingToMe = 3 ∧
      ∃ leak ∈ Sample.sharedCycle.leaks, Reaches s.nodes leak.node 5 := by
  obtain ⟨s, run, hs⟩ := Run.exists_ok_of_any
    (x := Sample.sharedCycle.start.after Sample.sharedCycle.agent
      (.pass :: (Sample.sharedCycle.order 0).map .report))
    (p := fun s => decide ((s.nodes.get? 5).isSome = true ∧ recordsTo s.nodes 5 = 3))
    (by decide +kernel)
  obtain ⟨hsome, hrecords⟩ := of_decide_eq_true hs
  obtain ⟨nd, node⟩ := Option.isSome_iff_exists.1 hsome
  obtain ⟨hcount, hlisted⟩ := referenceCounts_exact Sample.sharedCycle run node
  have hleak : 5 ∉ Sample.sharedCycle.leaks.map (·.node) := by decide +kernel
  have hclass : 5 ∉ Sample.sharedCycle.classNodes := by decide +kernel
  refine ⟨s, nd, run, node, hrecords, ?_, (hlisted hleak hclass).2⟩
  rw [hcount, hrecords, if_neg (by simp only [hleak, hclass, or_self, not_false_eq_true])]
  rfl

end JLeaker
