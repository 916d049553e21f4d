import JLeaker.Proof.AllocatorList
import Mathlib.Algebra.GroupWithZero.Nat

/-!
# The text of the report

The position at which `findInternalMallocsLeaks` prints the next line is the sum of the lengths of
the lines before it, whether or not they fitted.  As long as no line starts behind the end of the
buffer, everything that is written stays inside (`LinesFit`).
-/

namespace JLeaker

open CString LinkedList

namespace ReportBuffer

/-! ## `snprintf` -/

theorem length_written_le {size : ℤ} (h : 0 ≤ size) (text : Str) :
    (written size text).length ≤ size.toNat := by
  unfold written
  split_ifs with hzero hneg
  · simp
  · omega
  · rw [List.length_append, List.length_take, List.length_singleton]
    omega

theorem NUL_mem_written {size : ℤ} (h : size ≠ 0) (text : Str) : NUL ∈ written size text := by
  rw [written, if_neg h]
  split_ifs <;> simp

/-- A text that starts inside of the buffer is written inside of it, and a string stays terminated.
-/
theorem snprintf_ok (buf : ReportBuffer) {pos : ℕ} (inside : pos ≤ BUF_SIZE) (text : Str)
    (terminated : pos < BUF_SIZE ∨ NUL ∈ buf.bytes) :
    ∃ buf', buf.snprintf pos (BUF_SIZE - pos) text = .ok (text.length, buf') ∧
      NUL ∈ buf'.bytes := by
  have room : (0 : ℤ) ≤ BUF_SIZE - pos := by omega
  have fits : (0 : ℤ) ≤ pos ∧
      (pos : ℤ).toNat + (written (BUF_SIZE - pos) text).length ≤ BUF_SIZE := by
    have := length_written_le room text
    omega
  refine ⟨buf.overwrite (pos : ℤ).toNat (written (BUF_SIZE - pos) text) fits.2, ?_, ?_⟩
  · rw [snprintf, dif_pos fits]
  · simp only [overwrite, List.mem_append]
    by_cases full : pos = BUF_SIZE
    · -- nothing is written, and the terminator is before the end
      have whole : buf.bytes.take (pos : ℤ).toNat = buf.bytes := by
        apply List.take_of_length_le
        rw [buf.length_eq]
        omega
      rw [whole]
      exact .inl (.inl (terminated.resolve_left (by omega)))
    · exact .inl (.inr (NUL_mem_written (by omega) text))

/-- A text that starts behind the buffer is written outside of it. -/
theorem snprintf_outOfBuffer (buf : ReportBuffer) {pos : ℕ} (outside : BUF_SIZE < pos) (size : ℤ)
    (text : Str) : buf.snprintf pos size text = .error .outOfBuffer := by
  rw [snprintf, dif_neg]
  omega

end ReportBuffer

/-- No line starts behind the end of the buffer, when the first one starts at `pos`. -/
def LinesFit : ℕ → List Str → Prop
  | _, [] => True
  | pos, text :: rest => pos ≤ BUF_SIZE ∧ LinesFit (pos + text.length) rest

/-- The calls of `snprintf` that print the lines. -/
def printedFrom : ℕ → List Str → List (ℤ × Str)
  | _, [] => []
  | pos, text :: rest => (BUF_SIZE - pos, text) :: printedFrom (pos + text.length) rest

/-- All lines but the last one have to end inside of the buffer. -/
theorem linesFit_iff {pos : ℕ} {lines : List Str} : LinesFit pos lines ↔
    lines = [] ∨ pos + (lines.dropLast.map List.length).sum ≤ BUF_SIZE := by
  induction lines generalizing pos with
  | nil => simp [LinesFit]
  | cons text rest ih =>
    rw [LinesFit, ih]
    cases rest with
    | nil => simp
    | cons text' rest =>
      simp only [reduceCtorEq, false_or, List.dropLast_cons_cons, List.map_cons, List.sum_cons]
      omega

theorem nonneg_of_mem_printedFrom {pos : ℕ} {lines : List Str} (fits : LinesFit pos lines)
    {size : ℤ} {text : Str} (mem : (size, text) ∈ printedFrom pos lines) : 0 ≤ size := by
  induction lines generalizing pos with
  | nil => cases mem
  | cons first rest ih =>
    rcases List.mem_cons.1 mem with same | mem
    · cases same
      have := fits.1
      omega
    · exact ih fits.2 mem

namespace Allocator

open ReportBuffer

variable {st st' : Allocator} {blocks : List TrackedBlock}

/-! ## The loop -/

/-- The lines of the report for these blocks. -/
def leakLines (blocks : List TrackedBlock) : List Str := blocks.map fun b => leakText b.file b.line

/-- The blocks are freed and `head` is linked to `tail`, with `tail.prev` still as it was. -/
structure Drained (st st' : Allocator) (blocks : List TrackedBlock) : Prop where
  head : st'.head.next = some .tail
  allocations : st'.allocations = st.allocations
  frees : st'.frees = st.frees
  selfCheck : st'.selfCheck = st.selfCheck
  dom : st'.blocks.dom = st.blocks.dom \ (blocks.map (·.ptr)).toFinset

/-- The blocks the loop finds when it follows the list from `head`. -/
structure Walks (st : Allocator) (blocks : List TrackedBlock) : Prop where
  follows : Follows st.next .head (blocks.map fun b => .block b.ptr) .tail
  nodup : (blocks.map (·.ptr)).Nodup
  origin : ∀ b ∈ blocks, st.origin (.block b.ptr) = some (b.file, b.line)

/-- What a round of the loop leaves: the first block is freed and `head` linked to the second one.
-/
def dropFirst (st : Allocator) (a : ℕ) : Allocator :=
  { st with
    blocks := st.blocks.free a
    head := { st.head with next := st.next (.block a) } }

theorem next_dropFirst (st : Allocator) (a : ℕ) (q : NodePtr) : (st.dropFirst a).next q =
    if q = .head then st.next (.block a) else if q = .block a then none else st.next q := by
  cases q with
  | head => rfl
  | tail => simp [dropFirst, next, node?]
  | block b =>
    simp only [dropFirst, next, node?, CHeap.get?_free, reduceCtorEq, if_false,
      NodePtr.block.injEq]
    split_ifs <;> rfl

theorem origin_dropFirst (st : Allocator) {a b : ℕ} (ne : b ≠ a) :
    (st.dropFirst a).origin (.block b) = st.origin (.block b) := by
  simp [dropFirst, origin, node?, CHeap.get?_free, ne]

/-- One round of the loop. -/
theorem printLeaks_round {b : TrackedBlock} (first : st.next .head = some (.block b.ptr))
    (origin : st.origin (.block b.ptr) = some (b.file, b.line)) (fuel : ℕ) (pos : ℤ)
    (report : LeakReport) :
    printLeaks (fuel + 1) st pos report =
      report.buf.snprintf pos (BUF_SIZE - pos) (leakText b.file b.line) >>= fun (newPos, buf) =>
        printLeaks fuel (st.dropFirst b.ptr) (pos + newPos)
          ⟨buf, report.printed ++ [(BUF_SIZE - pos, leakText b.file b.line)]⟩ := by
  obtain ⟨nd, header, same⟩ := exists_node?_of_origin origin
  obtain ⟨same_file, same_line⟩ := Prod.mk.inj same
  rw [← same_file, ← same_line]
  have next_head : st.head.next = some (.block b.ptr) := first
  have live : b.ptr ∈ st.blocks.dom :=
    st.blocks.mem_dom_of_get? (Option.join_eq_some_iff.1 header)
  have next_first : st.next (.block b.ptr) = nd.next := by
    rw [next, header]
    rfl
  rw [printLeaks, if_neg (by simp [next_head])]
  simp only [next_head, deref_of_node? header, Run.ok_bind, free, if_pos live]
  rw [dropFirst, next_first]

theorem nodup_head (nodup : (blocks.map (·.ptr)).Nodup) :
    (NodePtr.head :: blocks.map fun b => NodePtr.block b.ptr).Nodup := by
  refine List.nodup_cons.2 ⟨by simp, ?_⟩
  have map : (blocks.map fun b => NodePtr.block b.ptr) = (blocks.map (·.ptr)).map .block := by
    simp [Function.comp_def]
  rw [map]
  exact nodup.map fun _ _ h => NodePtr.block.inj h

/-- After a round the loop finds the other blocks. -/
theorem Walks.dropFirst {b : TrackedBlock} {rest : List TrackedBlock}
    (walks : Walks st (b :: rest)) : Walks (st.dropFirst b.ptr) rest where
  follows := by
    refine walks.follows.drop_first (nodup_head walks.nodup) ?_ fun q hq hb => ?_
    · rw [next_dropFirst, if_pos rfl]
    · rw [next_dropFirst, if_neg hq, if_neg hb]
  nodup := (List.nodup_cons.1 walks.nodup).2
  origin c hc := by
    have other : c.ptr ≠ b.ptr := by
      intro same
      exact (List.nodup_cons.1 walks.nodup).1 (List.mem_map.2 ⟨c, hc, same⟩)
    rw [origin_dropFirst st other]
    exact walks.origin c (List.mem_cons_of_mem _ hc)

theorem Drained.of_dropFirst {b : TrackedBlock} {rest : List TrackedBlock}
    (drained : Drained (st.dropFirst b.ptr) st' rest) : Drained st st' (b :: rest) where
  head := drained.head
  allocations := drained.allocations
  frees := drained.frees
  selfCheck := drained.selfCheck
  dom := by
    rw [drained.dom]
    show st.blocks.dom.erase b.ptr \ _ = _
    rw [List.map_cons, List.toFinset_cons, Finset.erase_sdiff_comm, Finset.sdiff_insert]

/-- The loop prints a line for every block of the list and frees it, unless a line would start
behind the end of the buffer. -/
theorem printLeaks_spec {fuel : ℕ} (pos : ℕ) (report : LeakReport) (walks : Walks st blocks)
    (enough : blocks.length < fuel) (terminated : NUL ∈ report.buf.bytes) :
    (LinesFit pos (leakLines blocks) → ∃ st' report',
      printLeaks fuel st pos report = .ok (st', report') ∧
      Drained st st' blocks ∧ NUL ∈ report'.buf.bytes ∧
      report'.printed = report.printed ++ printedFrom pos (leakLines blocks)) ∧
    (¬ LinesFit pos (leakLines blocks) → printLeaks fuel st pos report = .error .outOfBuffer) := by
  induction blocks generalizing st fuel pos report with
  | nil =>
    obtain ⟨fuel, rfl⟩ := Nat.exists_eq_add_of_lt enough
    have done : st.head.next = some .tail := walks.follows
    refine ⟨fun _ => ⟨st, report, ?_, ⟨done, rfl, rfl, rfl, ?_⟩, terminated, ?_⟩, fun h => ?_⟩
    · rw [printLeaks, if_pos done]
    · simp
    · simp [leakLines, printedFrom]
    · exact absurd trivial h
  | cons b rest ih =>
    obtain ⟨fuel, rfl⟩ := Nat.exists_eq_add_of_lt (Nat.zero_lt_of_lt enough)
    have round := printLeaks_round walks.follows.1 (walks.origin b (by simp)) (0 + fuel) pos report
    by_cases inside : pos ≤ BUF_SIZE
    · obtain ⟨buf, print, terminated'⟩ := report.buf.snprintf_ok inside (leakText b.file b.line)
        (.inr terminated)
      rw [print, Run.ok_bind] at round
      have enough' : rest.length < 0 + fuel := by
        rw [List.length_cons] at enough
        omega
      obtain ⟨fitting, failing⟩ := ih (pos + (leakText b.file b.line).length)
        ⟨buf, report.printed ++ [((BUF_SIZE : ℤ) - pos, leakText b.file b.line)]⟩ walks.dropFirst
        enough' terminated'
      rw [Int.natCast_add] at fitting failing
      refine ⟨fun fits => ?_, fun not_fits => ?_⟩
      · obtain ⟨st', report', run, drained, done, printed⟩ := fitting fits.2
        refine ⟨st', report', round.trans run, drained.of_dropFirst, done, ?_⟩
        rw [printed, List.append_assoc]
        rfl
      · exact round.trans (failing fun fits => not_fits ⟨inside, fits⟩)
    · have outside := report.buf.snprintf_outOfBuffer (Nat.lt_of_not_le inside) (BUF_SIZE - pos)
        (leakText b.file b.line)
      refine ⟨fun fits => absurd fits.1 inside, fun _ => ?_⟩
      rw [round, outside]
      rfl

/-! ## The report -/

theorem length_decimal_toInt_le (n : BitVec 32) : (decimal n.toInt).length ≤ 11 := by
  have lower := n.le_toInt
  have upper := n.toInt_lt
  exact length_decimal_le ⟨by omega, by omega⟩

/-- The first line, with `d` and `e` for the digits of the two counts. -/
theorem length_counts_le {d e : Str} (hd : d.length ≤ 11) (he : e.length ≤ 11) :
    ("number of mallocs ".toList ++ d ++ ", number of frees ".toList ++ e ++ "\n".toList).length ≤
      64 := by
  simp only [List.length_append, String.reduceToList, List.length_cons, List.length_nil]
  omega

theorem length_countsText_le (st : Allocator) : st.countsText.length ≤ 64 :=
  length_counts_le (length_decimal_toInt_le st.allocations) (length_decimal_toInt_le st.frees)

theorem findInternalMallocsLeaks_null (equal : st.allocations = st.frees) (buf : ReportBuffer) :
    st.findInternalMallocsLeaks buf = .ok (none, st) :=
  if_neg (not_not_intro equal)

/-- The report as its first line and the loop. -/
theorem findInternalMallocsLeaks_eq (differ : st.allocations ≠ st.frees) (buf : ReportBuffer) :
    ∃ first, NUL ∈ first.bytes ∧ st.findInternalMallocsLeaks buf =
      printLeaks (st.blocks.dom.card + 1) st st.countsText.length
        ⟨first, [((BUF_SIZE : ℤ), st.countsText)]⟩ >>= fun (st', report) =>
          .ok (some report, { st' with tail := { st'.tail with prev := some .head } }) := by
  obtain ⟨first, print, terminated⟩ := buf.snprintf_ok (Nat.zero_le BUF_SIZE) st.countsText
    (.inl (by decide))
  refine ⟨first, terminated, ?_⟩
  rw [Int.natCast_zero, Int.sub_zero] at print
  rw [findInternalMallocsLeaks, if_pos differ, print, Run.ok_bind]
  rfl

theorem Tracks.nodup (tracks : st.Tracks blocks) : (blocks.map (·.ptr)).Nodup := by
  have nodup := tracks.list.nodup
  have map : (blocks.map fun b => NodePtr.block b.ptr) = (blocks.map (·.ptr)).map .block := by
    simp [Function.comp_def]
  rw [nodesOf, List.nodup_cons, map] at nodup
  exact (List.nodup_append.1 nodup.2).1.of_map

theorem Tracks.walks (tracks : st.Tracks blocks) : Walks st blocks :=
  ⟨tracks.list.follows_next, tracks.nodup, tracks.origin⟩

/-- The bound on the rounds of the loop is large enough. -/
theorem Tracks.length_le (tracks : st.Tracks blocks) : blocks.length ≤ st.blocks.dom.card := by
  have subset : (blocks.map (·.ptr)).toFinset ⊆ st.blocks.dom := by
    intro a ha
    obtain ⟨b, hb, rfl⟩ := List.mem_map.1 (List.mem_toFinset.1 ha)
    exact tracks.mem_dom hb
  have card := Finset.card_le_card subset
  rw [List.toFinset_card_of_nodup tracks.nodup, List.length_map] at card
  exact card

/-- A report that fits in its buffer lists all blocks and frees them. -/
theorem Tracks.report (tracks : st.Tracks blocks) (differ : st.allocations ≠ st.frees)
    (fits : LinesFit st.countsText.length (leakLines blocks)) (buf : ReportBuffer) :
    ∃ report st', st.findInternalMallocsLeaks buf = .ok (some report, st') ∧ st'.Tracks [] ∧
      st'.allocations = st.allocations ∧ st'.frees = st.frees ∧
      st'.blocks.dom = st.blocks.dom \ (blocks.map (·.ptr)).toFinset ∧
      NUL ∈ report.buf.bytes ∧ report.printed =
        ((BUF_SIZE : ℤ), st.countsText) :: printedFrom st.countsText.length (leakLines blocks) := by
  obtain ⟨first, terminated, run⟩ := findInternalMallocsLeaks_eq differ buf
  have enough : blocks.length < st.blocks.dom.card + 1 := Nat.lt_succ_of_le tracks.length_le
  obtain ⟨st', report, loop, drained, done, printed⟩ := (printLeaks_spec _
    ⟨first, [((BUF_SIZE : ℤ), st.countsText)]⟩ tracks.walks enough terminated).1 fits
  rw [loop] at run
  refine ⟨report, _, run, ⟨drained.selfCheck.trans tracks.selfCheck, ?_, by simp⟩,
    drained.allocations, drained.frees, drained.dom, done, printed⟩
  exact doublyLinked_pair (by decide) drained.head rfl

theorem Tracks.report_outOfBuffer (tracks : st.Tracks blocks) (differ : st.allocations ≠ st.frees)
    (not_fits : ¬ LinesFit st.countsText.length (leakLines blocks)) (buf : ReportBuffer) :
    st.findInternalMallocsLeaks buf = .error .outOfBuffer := by
  obtain ⟨first, terminated, run⟩ := findInternalMallocsLeaks_eq differ buf
  have enough : blocks.length < st.blocks.dom.card + 1 := Nat.lt_succ_of_le tracks.length_le
  rw [run, (printLeaks_spec _ _ tracks.walks enough terminated).2 not_fits]
  rfl

/-- The line of the two counts is not too long itself. -/
theorem linesFit_countsText_iff : LinesFit st.countsText.length (leakLines blocks) ↔
    st.countsText.length + ((leakLines blocks).dropLast.map List.length).sum ≤ BUF_SIZE := by
  rw [linesFit_iff]
  refine or_iff_right_of_imp fun empty => ?_
  have := st.length_countsText_le
  rw [empty, BUF_SIZE]
  simp
  omega

end Allocator

end JLeaker
