import JLeaker.Model.Ledger
import JLeaker.Proof.Teardown

/-!
# The blocks of the graph

What the ledger has counted as allocated and not as freed is what the nodes own: their sets, class
names, ignored fields, fan-in counters and records.  Every part of a dump keeps the two in step
(`Tracks`), but for the text that a JNI local reference loses.
-/

namespace JLeaker

open CString

variable {Obj : Type}

/-! ## Ledgers -/

/-- The blocks allocated and not freed, the lost texts left out. -/
def Ledger.owed (l : Ledger) : ℤ := l.counters.allocations - l.counters.frees - l.jniLocals

@[simp] theorem Ledger.owed_alloc (l : Ledger) (n : ℕ) : (l.alloc n).owed = l.owed + n := by
  simp only [Ledger.owed, Ledger.alloc, Counters.count]
  omega

@[simp] theorem Ledger.owed_free (l : Ledger) (n : ℕ) : (l.free n).owed = l.owed - n := by
  simp only [Ledger.owed, Ledger.free, Counters.count]
  omega

@[simp] theorem Ledger.jniLocals_alloc (l : Ledger) (n : ℕ) : (l.alloc n).jniLocals = l.jniLocals :=
  rfl

@[simp] theorem Ledger.jniLocals_free (l : Ledger) (n : ℕ) : (l.free n).jniLocals = l.jniLocals :=
  rfl

/-- From `l` to `l'` the ledger has followed a change from `n` blocks to `n'`. -/
structure Tracks (l : Ledger) (n : ℕ) (l' : Ledger) (n' : ℕ) : Prop where
  owed : l'.owed + n = l.owed + n'
  jniLocals : l.jniLocals ≤ l'.jniLocals

namespace Tracks

variable {l l' l'' : Ledger} {n n' n'' k : ℕ}

theorem refl (l : Ledger) (n : ℕ) : Tracks l n l n := ⟨rfl, le_rfl⟩

theorem trans (first : Tracks l n l' n') (second : Tracks l' n' l'' n'') : Tracks l n l'' n'' where
  owed := by
    have := first.owed
    have := second.owed
    omega
  jniLocals := first.jniLocals.trans second.jniLocals

theorem alloc (l : Ledger) (n k : ℕ) : Tracks l n (l.alloc k) (n + k) where
  owed := by
    rw [l.owed_alloc]
    omega
  jniLocals := le_rfl

theorem free (l : Ledger) (n k : ℕ) : Tracks l (n + k) (l.free k) n where
  owed := by
    rw [l.owed_free]
    omega
  jniLocals := le_rfl

/-- Blocks beside those that change. -/
theorem add (tracks : Tracks l n l' n') (k : ℕ) : Tracks l (n + k) l' (n' + k) where
  owed := by
    have := tracks.owed
    omega
  jniLocals := tracks.jniLocals

theorem foldl {ι : Type} {f : Ledger → ι → Ledger} (step : ∀ l i, Tracks l n (f l i) n)
    (is : List ι) (l : Ledger) : Tracks l n (is.foldl f l) n := by
  induction is generalizing l with
  | nil => exact .refl l n
  | cons i is ih => exact (step l i).trans (ih _)

end Tracks

section

variable (l : Ledger) (n : ℕ)

theorem Tracks.allocFree (k : ℕ) : Tracks l n ((l.alloc k).free k) n :=
  (Tracks.alloc l n k).trans (.free _ n k)

theorem tracks_interfaceList (lstIntr : List Obj) : Tracks l n (l.interfaceList lstIntr) n :=
  .allocFree l n _

theorem tracks_echoXmlElement (values : List Str) : Tracks l n (l.echoXmlElement values) n :=
  .allocFree l n _

theorem tracks_printMessage (msg : Str) : Tracks l (n + 1) (l.printMessage msg) n :=
  (tracks_echoXmlElement l (n + 1) [msg]).trans (.free _ n 1)

variable [DecidableEq Obj]

theorem tracks_generateTagForClass (d : JvmDump Obj) (theClass : Obj) :
    Tracks l n (l.generateTagForClass d theClass) n := by
  unfold Ledger.generateTagForClass
  split_ifs
  any_goals exact .refl l n
  exact .allocFree l n 1

theorem tracks_getFieldOffset (H : ClassHierarchy Obj) (klass : Obj) (name : String) :
    Tracks l n (l.getFieldOffset H klass name) n := tracks_interfaceList l n _

/-- A name that is returned is one block more. -/
theorem tracks_getFieldNameByIndex (H : ClassHierarchy Obj) (klass : Obj) (idx : ℤ) :
    Tracks l n (l.getFieldNameByIndex H klass idx).2
      (n + if (l.getFieldNameByIndex H klass idx).1 then 1 else 0) := by
  unfold Ledger.getFieldNameByIndex
  dsimp only
  split_ifs
  · exact (tracks_interfaceList l n _).trans (.alloc _ n 1)
  · contradiction
  · contradiction
  · exact tracks_interfaceList l n _

end

/-! ## The blocks of the nodes -/

/-- The blocks of a node. -/
def MemoryNode.blocks (nd : MemoryNode Obj) : ℕ :=
  1 + nd.namedBlocks + nd.start.length + nd.fanIn.length

/-- The blocks of all nodes. -/
def blocksIn (h : CHeap (MemoryNode Obj)) : ℕ := h.total fun _ nd => nd.blocks

variable {h : CHeap (MemoryNode Obj)}

theorem blocksIn_modify {a : ℕ} {nd : MemoryNode Obj} (f : MemoryNode Obj → MemoryNode Obj)
    (hnd : h.get? a = some nd) : blocksIn (h.modify a f) + nd.blocks = blocksIn h + (f nd).blocks :=
  (CHeap.ChangedAt.modify f hnd).total _

theorem blocksIn_modify_gain {a : ℕ} {nd : MemoryNode Obj} {f : MemoryNode Obj → MemoryNode Obj}
    (k : ℕ) (hnd : h.get? a = some nd) (gain : (f nd).blocks = nd.blocks + k) :
    blocksIn (h.modify a f) = blocksIn h + k := by
  have := blocksIn_modify f hnd
  omega

theorem blocksIn_modify_same (a : ℕ) {f : MemoryNode Obj → MemoryNode Obj}
    (same : ∀ nd, (f nd).blocks = nd.blocks) : blocksIn (h.modify a f) = blocksIn h := by
  rcases hnd : h.get? a with _ | nd
  · rw [h.modify_eq_self fun x hx => by rw [hnd] at hx; cases hx]
  · exact blocksIn_modify_gain 0 hnd (same nd)

theorem blocks_newMemoryNode {numberOfLeaks : ℕ} (some : 0 < numberOfLeaks) :
    (newMemoryNode numberOfLeaks : MemoryNode Obj).blocks = newMemoryNodeBlocks := by
  have : numberOfLeaks ≠ 0 := by omega
  simp [MemoryNode.blocks, MemoryNode.namedBlocks, newMemoryNode, newMemoryNodeBlocks, this]

/-! ## The passes -/

theorem blocks_inherit (thisNode refNode : MemoryNode Obj) (leaksFinished : BitmaskSet) :
    (thisNode.inherit leaksFinished refNode).blocks = refNode.blocks := rfl

section

variable [DecidableEq Obj]

theorem length_countReference (theClass : Option Obj) (fanIn : List (ClassReferenceCount Obj)) :
    (countReference theClass fanIn).2.length = fanIn.length +
      if fanIn.any (fun rCount => decide (rCount.klass = theClass)) then 0 else 1 := by
  induction fanIn with
  | nil => rfl
  | cons rCount rest ih =>
    unfold countReference
    by_cases hclass : rCount.klass = theClass
    · simp [hclass]
    · simp only [hclass, if_false, List.length_cons, ih, List.any_cons, decide_false, Bool.false_or]
      omega

variable {env : Agent Obj} {s s' : Search Obj} {r : HeapReference Obj} {thisNode : MemoryNode Obj}

/-- Counting the referrer's class. -/
theorem admitReferrerClass_blocks {this : ℕ} {goOn : Bool}
    (hthis : s.nodes.get? this = some thisNode)
    (h : admitReferrerClass env r this s = .ok (goOn, s')) :
    admitReferrerClassBlocks env r this s = .ok (blocksIn s'.nodes - blocksIn s.nodes) ∧
      blocksIn s.nodes ≤ blocksIn s'.nodes ∧ s'.numberOfLeaks = s.numberOfLeaks := by
  unfold admitReferrerClass at h
  unfold admitReferrerClassBlocks
  dsimp only at h ⊢
  split_ifs at h ⊢ with htag
  · cases h
    simp [pure, Except.pure]
  · obtain ⟨node, hnode, h⟩ := Run.bind_eq_ok.1 h
    obtain rfl := Option.some.inj (hthis.symm.trans (deref_eq_ok.1 hnode))
    obtain ⟨classNode, hclass, h⟩ := Run.bind_eq_ok.1 h
    obtain ⟨⟨count, node⟩, hadd, h⟩ := Run.bind_eq_ok.1 h
    have hnodes : s' = { s with nodes := s.nodes.modify this fun _ => node } := by
      dsimp only at h
      split_ifs at h
      all_goals cases h; rfl
    have hadded : node = { thisNode with
        fanIn := (countReference classNode.obj thisNode.fanIn).2 } := by
      unfold addReferenceClass at hadd
      split_ifs at hadd
      cases hadd
      rfl
    have gain : blocksIn (s.nodes.modify this fun _ => node) =
        blocksIn s.nodes + addReferenceClassBlocks thisNode classNode := by
      apply blocksIn_modify_gain _ hthis
      rw [hadded, MemoryNode.blocks, length_countReference]
      exact (Nat.add_assoc _ _ _).symm
    subst hnodes
    rw [hnode, Run.ok_bind, hclass, Run.ok_bind, gain]
    exact ⟨congrArg Except.ok (by omega), by omega, rfl⟩

/-- Finding the referrer's node, or making it. -/
theorem referrerNode_blocks {this : ℕ} {refNode? : Option (Option ℕ)}
    (leaks : 0 < s.numberOfLeaks) (h : referrerNode env r this s = .ok (refNode?, s')) :
    s'.numberOfLeaks = s.numberOfLeaks ∧
      match refNode? with
      | none => blocksIn s'.nodes = blocksIn s.nodes
      | some _ => blocksIn s'.nodes = blocksIn s.nodes +
          if r.referrer.any fun o => decide (s.tags o = 0) then newMemoryNodeBlocks else 0 := by
  unfold referrerNode at h
  cases hr : r.referrer with
  | none =>
    rw [hr] at h
    cases h
    exact ⟨rfl, rfl⟩
  | some referrer =>
    rw [hr] at h
    dsimp only at h
    by_cases htag : s.tags referrer = 0
    · simp only [htag, ne_eq, not_true_eq_false, if_false] at h
      cases h
      refine ⟨rfl, ?_⟩
      simp only [Option.any_some, htag, decide_true, if_true]
      rw [← blocks_newMemoryNode leaks]
      exact CHeap.total_alloc env.malloc _
    · simp only [htag, ne_eq, not_false_eq_true, if_true] at h
      obtain ⟨refNode, -, h⟩ := Run.bind_eq_ok.1 h
      obtain ⟨thisNode, -, h⟩ := Run.bind_eq_ok.1 h
      split_ifs at h
      · cases h
        exact ⟨rfl, rfl⟩
      · cases h
        exact ⟨rfl, rfl⟩
      · cases h
        refine ⟨rfl, ?_⟩
        simp only [Option.any_some, htag, decide_false, Bool.false_eq_true, if_false, Nat.add_zero]
        exact blocksIn_modify_same _ fun _ => rfl

omit [DecidableEq Obj] in
/-- Recording the reference. -/
theorem recordReference_blocks {this : ℕ} {refNode : Option ℕ}
    (h : recordReference r this refNode s = .ok s') :
    s'.numberOfLeaks = s.numberOfLeaks ∧ blocksIn s'.nodes = blocksIn s.nodes + 1 := by
  unfold recordReference at h
  obtain ⟨thisNode, -, h⟩ := Run.bind_eq_ok.1 h
  -- the record is appended to the list of the node, which is there
  have appended : ∀ {joined : CHeap (MemoryNode Obj)} {fin : MemoryNode Obj} (ref : MemoryReferer),
      blocksIn joined = blocksIn s.nodes →
      deref (joined.modify this fun n => { n with start := n.start ++ [ref] }) this = .ok fin →
      blocksIn (joined.modify this fun n => { n with start := n.start ++ [ref] }) =
        blocksIn s.nodes + 1 := by
    intro joined fin ref same hfin
    rw [deref_eq_ok, CHeap.get?_modify_self, Option.map_eq_some_iff] at hfin
    obtain ⟨nd, hnd, -⟩ := hfin
    rw [← same]
    apply blocksIn_modify_gain 1 hnd
    simp only [MemoryNode.blocks, MemoryNode.namedBlocks, List.length_append, List.length_singleton]
    omega
  cases refNode with
  | none =>
    obtain ⟨fin, hfin, h⟩ := Run.bind_eq_ok.1 h
    cases h
    exact ⟨rfl, appended _ rfl hfin⟩
  | some addr =>
    have same : blocksIn (s.nodes.modify addr (thisNode.inherit s.leaksFinished)) =
        blocksIn s.nodes :=
      blocksIn_modify_same addr fun nd => blocks_inherit thisNode nd s.leaksFinished
    obtain ⟨fin, hfin, h⟩ := Run.bind_eq_ok.1 h
    cases h
    exact ⟨rfl, appended _ same hfin⟩

/-- The callback allocates what the nodes own more after it. -/
theorem cbObjectTagReferrer_blocks {n : ℕ} (leaks : 0 < s.numberOfLeaks)
    (h : cbObjectTagReferrer env s r = .ok s')
    (blocks : cbObjectTagReferrerBlocks env s r = .ok n) :
    s'.numberOfLeaks = s.numberOfLeaks ∧ blocksIn s'.nodes = blocksIn s.nodes + n := by
  unfold cbObjectTagReferrer at h
  unfold cbObjectTagReferrerBlocks at blocks
  split_ifs at h blocks with hlocal
  · cases h
    cases blocks
    exact ⟨rfl, rfl⟩
  obtain ⟨thisNode, hthis, h⟩ := Run.bind_eq_ok.1 h
  obtain ⟨_, hthis', blocks⟩ := Run.bind_eq_ok.1 blocks
  obtain rfl := Except.ok.inj (hthis.symm.trans hthis')
  split_ifs at h blocks
  · cases h
    cases blocks
    exact ⟨rfl, rfl⟩
  · cases h
    cases blocks
    exact ⟨rfl, rfl⟩
  obtain ⟨⟨goOn, s₁⟩, hadmitted, h⟩ := Run.bind_eq_ok.1 h
  obtain ⟨counted, hcounted, blocks⟩ := Run.bind_eq_ok.1 blocks
  obtain ⟨⟨_, _⟩, hadmitted', blocks⟩ := Run.bind_eq_ok.1 blocks
  obtain ⟨rfl, rfl⟩ := Prod.mk.inj (Except.ok.inj (hadmitted.symm.trans hadmitted'))
  obtain ⟨hcounted', hle, hnumber⟩ := admitReferrerClass_blocks (deref_eq_ok.1 hthis) hadmitted
  obtain rfl := Except.ok.inj (hcounted.symm.trans hcounted')
  cases goOn with
  | false =>
    cases h
    cases blocks
    exact ⟨hnumber, by omega⟩
  | true =>
  obtain ⟨⟨refNode?, s₂⟩, hnode, h⟩ := Run.bind_eq_ok.1 h
  obtain ⟨⟨_, _⟩, hnode', blocks⟩ := Run.bind_eq_ok.1 blocks
  obtain ⟨rfl, rfl⟩ := Prod.mk.inj (Except.ok.inj (hnode.symm.trans hnode'))
  obtain ⟨hnumber₂, hmade⟩ := referrerNode_blocks (hnumber ▸ leaks) hnode
  cases refNode? with
  | none =>
    cases h
    cases blocks
    exact ⟨hnumber₂.trans hnumber, by dsimp only at hmade ⊢; omega⟩
  | some refNode =>
    cases blocks
    obtain ⟨hnumber₃, hrecord⟩ := recordReference_blocks h
    refine ⟨hnumber₃.trans (hnumber₂.trans hnumber), ?_⟩
    rw [hrecord, hmade]
    omega

theorem reportReferenceCounted_tracks {l l' : Ledger} (leaks : 0 < s.numberOfLeaks)
    (h : reportReferenceCounted env (s, l) r = .ok (s', l')) :
    reportReference env s r = .ok s' ∧ s'.numberOfLeaks = s.numberOfLeaks ∧
      Tracks l (blocksIn s.nodes) l' (blocksIn s'.nodes) := by
  unfold reportReferenceCounted at h
  obtain ⟨s₁, hreport, h⟩ := Run.bind_eq_ok.1 h
  split_ifs at h with hskip
  · cases h
    have same : s' = s := by
      rw [reportReference, if_pos hskip] at hreport
      exact (Except.ok.inj hreport).symm
    exact ⟨hreport, by rw [same], same ▸ .refl _ _⟩
  · obtain ⟨n, hblocks, h⟩ := Run.bind_eq_ok.1 h
    cases h
    have hcb := hreport
    rw [reportReference, if_neg hskip] at hcb
    obtain ⟨hnumber, hgain⟩ := cbObjectTagReferrer_blocks leaks hcb hblocks
    rw [hgain]
    exact ⟨hreport, hnumber, .alloc l _ n⟩

/-- A pass. -/
theorem foldlM_reportReferenceCounted_tracks {rs : List (HeapReference Obj)} {l l' : Ledger}
    (leaks : 0 < s.numberOfLeaks)
    (h : rs.foldlM (reportReferenceCounted env) (s, l) = .ok (s', l')) :
    rs.foldlM (reportReference env) s = .ok s' ∧ s'.numberOfLeaks = s.numberOfLeaks ∧
      Tracks l (blocksIn s.nodes) l' (blocksIn s'.nodes) := by
  induction rs generalizing s l with
  | nil =>
    cases h
    exact ⟨rfl, rfl, .refl _ _⟩
  | cons r rs ih =>
    obtain ⟨⟨s₁, l₁⟩, first, rest⟩ := Run.foldlM_cons_eq_ok.1 h
    obtain ⟨hreport, hnumber, tracks⟩ := reportReferenceCounted_tracks leaks first
    obtain ⟨hrest, hnumber', tracks'⟩ := ih (hnumber ▸ leaks) rest
    exact ⟨Run.foldlM_cons_eq_ok.2 ⟨s₁, hreport, hrest⟩, hnumber'.trans hnumber,
      tracks.trans tracks'⟩

/-- The passes allocate what the nodes own more after them. -/
theorem heapIterationsCounted_tracks {order : ℕ → List (HeapReference Obj)} {n i : ℕ}
    {l l' : Ledger} (leaks : 0 < s.numberOfLeaks)
    (h : heapIterationsCounted env order n i (s, l) = .ok (s', l')) :
    heapIterations env order n i s = .ok s' ∧ Tracks l (blocksIn s.nodes) l' (blocksIn s'.nodes) := by
  induction n generalizing i s l with
  | zero =>
    cases h
    exact ⟨rfl, .refl _ _⟩
  | succ n ih =>
    unfold heapIterationsCounted at h
    obtain ⟨⟨s₁, l₁⟩, hpass, h⟩ := Run.bind_eq_ok.1 h
    obtain ⟨hplain, hnumber, tracks⟩ :=
      foldlM_reportReferenceCounted_tracks (s := s.resetNodesFound) leaks hpass
    have leaks₁ : 0 < s₁.numberOfLeaks := lt_of_lt_of_eq leaks hnumber.symm
    dsimp only at h
    rw [heapIterations_succ_eq_ok]
    cases hu : s₁.hasUnfinished with
    | false =>
      rw [hu] at h
      cases h
      exact ⟨⟨s', hplain, by simp [hu]⟩, tracks⟩
    | true =>
      rw [hu] at h
      obtain ⟨hrest, tracks'⟩ := ih leaks₁ h
      exact ⟨⟨s₁, hplain, by simpa [hu] using hrest⟩, tracks.trans tracks'⟩

end

end JLeaker
