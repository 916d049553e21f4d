import JLeaker.Proof.LeakReport

/-!
# Runs of the allocator

A run is a list of calls.  Beside the allocator it carries the outstanding blocks: those no report
has listed, in the order of their allocation, and those a report has listed, and freed.  As long as
no call frees a listed block and every report fits in its buffer (`Clears`), the list of the
allocator is that of the unlisted blocks.
-/

namespace JLeaker

open CString LinkedList Allocator

/-- The calls of a program with its allocator; `buf` is what `malloc` returns in the report. -/
inductive AllocatorCall where
  | myAlloc (file : Str) (line : ℤ)
  | myStrdup (file : Str) (line : ℤ)
  | myFree (p : ℕ)
  | findInternalMallocsLeaks (buf : ReportBuffer)

/-- The allocator and the blocks that the program has not freed. -/
structure AllocatorHistory where
  allocator : Allocator
  unlisted : List TrackedBlock
  listed : List TrackedBlock

namespace AllocatorHistory

/-- The addresses of blocks. -/
def ptrs (blocks : List TrackedBlock) : List ℕ := blocks.map (·.ptr)

/-- `initAllocator` with the self check on. -/
def start (st : Allocator) : AllocatorHistory := ⟨st.initAllocator true, [], []⟩

/-- A new block. -/
def add (h : AllocatorHistory) (ptr : ℕ) (file : Str) (line : ℤ) (st : Allocator) :
    AllocatorHistory :=
  { h with allocator := st, unlisted := h.unlisted ++ [⟨ptr, file, line⟩] }

/-- One call. -/
def step (m : Malloc) (h : AllocatorHistory) :
    AllocatorCall → Except AllocatorFault AllocatorHistory
  | .myAlloc file line => do
    let (ptr, st) ← h.allocator.myAlloc m file line
    return h.add ptr file line st
  | .myStrdup file line => do
    let (ptr, st) ← h.allocator.myStrdup m file line
    return h.add ptr file line st
  | .myFree p => do
    let st ← h.allocator.myFree p
    if p ∈ ptrs h.unlisted then
      return { h with allocator := st, unlisted := h.unlisted.filter (·.ptr ≠ p) }
    else
      return { h with allocator := st, listed := h.listed.filter (·.ptr ≠ p) }
  | .findInternalMallocsLeaks buf => do
    let (report?, st) ← h.allocator.findInternalMallocsLeaks buf
    match report? with
    | none => return { h with allocator := st }
    | some _ => return ⟨st, [], h.listed ++ h.unlisted⟩

/-! ## The invariant -/

/-- The list is that of the unlisted blocks, the counters differ by the number of outstanding ones,
and listed blocks are freed, unless their address is in use again. -/
structure Ok (h : AllocatorHistory) : Prop where
  tracks : h.allocator.Tracks h.unlisted
  counts : h.allocator.allocations =
    h.allocator.frees + BitVec.ofNat 32 (h.unlisted.length + h.listed.length)
  gone : ∀ p ∈ ptrs h.listed, p ∉ ptrs h.unlisted → p ∉ h.allocator.blocks.dom

/-- The call frees an outstanding block, if it frees any. -/
def OnOutstanding (h : AllocatorHistory) (call : AllocatorCall) : Prop :=
  ∀ p, call = .myFree p → p ∈ ptrs h.unlisted ∨ p ∈ ptrs h.listed

/-- The call does not free a listed block, and the report fits in its buffer: nothing is reported,
or all its lines but the last one take at most `BUF_SIZE` characters. -/
def Clears (h : AllocatorHistory) : AllocatorCall → Prop
  | .myFree p => p ∈ ptrs h.unlisted
  | .findInternalMallocsLeaks _ => h.allocator.allocations = h.allocator.frees ∨
      h.allocator.countsText.length + ((leakLines h.unlisted).dropLast.map List.length).sum ≤
        BUF_SIZE
  | _ => True

instance (h : AllocatorHistory) : ∀ call, Decidable (h.OnOutstanding call)
  | .myFree p => decidable_of_iff (p ∈ ptrs h.unlisted ∨ p ∈ ptrs h.listed)
      ⟨fun mem _ same => AllocatorCall.myFree.inj same ▸ mem, fun all => all p rfl⟩
  | .myAlloc .. | .myStrdup .. | .findInternalMallocsLeaks _ => isTrue fun _ same => nomatch same

instance (h : AllocatorHistory) : ∀ call, Decidable (h.Clears call)
  | .myFree p => inferInstanceAs (Decidable (p ∈ ptrs h.unlisted))
  | .findInternalMallocsLeaks _ => inferInstanceAs (Decidable (_ ∨ _))
  | .myAlloc .. | .myStrdup .. => isTrue trivial

variable {m : Malloc} {h h' : AllocatorHistory} {call : AllocatorCall}

theorem ok_start (st : Allocator) : (start st).Ok where
  tracks := tracks_initAllocator st
  counts := rfl
  gone := by simp [start, ptrs]

/-- A new block keeps the invariant. -/
theorem Ok.add (ok : h.Ok) (m : Malloc) (file : Str) (line : ℤ) : ∃ st,
    h.allocator.myAlloc m file line = .ok (h.allocator.blocks.fresh m, st) ∧
      (h.add (h.allocator.blocks.fresh m) file line st).Ok := by
  obtain ⟨st, run, tracks, allocations, frees, dom⟩ := ok.tracks.myAlloc m file line
  refine ⟨st, run, tracks, ?_, ?_⟩
  · show st.allocations = st.frees + BitVec.ofNat 32 ((h.unlisted ++ [_]).length + h.listed.length)
    rw [allocations, frees, ok.counts, BitVec.add_assoc, List.length_append, List.length_singleton,
      Nat.add_right_comm, BitVec.ofNat_add _ 1]
    rfl
  · intro p listed unlisted
    simp only [AllocatorHistory.add, ptrs, List.map_append, List.map_singleton, List.mem_append,
      List.mem_singleton, not_or] at unlisted
    show p ∉ st.blocks.dom
    rw [dom, Finset.mem_insert, not_or]
    exact ⟨unlisted.2, ok.gone p listed unlisted.1⟩

/-- Freeing an unlisted block keeps the invariant. -/
theorem Ok.free (ok : h.Ok) {p : ℕ} (mem : p ∈ ptrs h.unlisted) : ∃ st,
    h.allocator.myFree p = .ok st ∧
      ({ h with allocator := st, unlisted := h.unlisted.filter (·.ptr ≠ p) } :
        AllocatorHistory).Ok := by
  obtain ⟨b, hb, rfl⟩ := List.mem_map.1 mem
  obtain ⟨front, back, split⟩ := List.append_of_mem hb
  have tracks := ok.tracks
  rw [split] at tracks
  obtain ⟨st, run, tracks', allocations, frees, dom⟩ := tracks.myFree
  -- the addresses are distinct
  have rest : h.unlisted.filter (·.ptr ≠ b.ptr) = front ++ back := by
    have nodup := tracks.nodup
    rw [List.map_append, List.map_cons, List.nodup_append] at nodup
    rw [split, List.filter_append, List.filter_cons_of_neg (by simp)]
    congr 1
    · refine List.filter_eq_self.2 fun c hc => ?_
      simpa using nodup.2.2 c.ptr (List.mem_map_of_mem hc) b.ptr (by simp)
    · refine List.filter_eq_self.2 fun c hc => ?_
      have b_notMem := (List.nodup_cons.1 nodup.2.1).1
      have ne : c.ptr ≠ b.ptr := fun same => b_notMem (same ▸ List.mem_map_of_mem hc)
      simpa using ne
  refine ⟨st, run, rest ▸ tracks', ?_, ?_⟩
  · show st.allocations = st.frees +
      BitVec.ofNat 32 ((h.unlisted.filter (·.ptr ≠ b.ptr)).length + h.listed.length)
    have length : h.unlisted.length + h.listed.length =
        1 + ((front ++ back).length + h.listed.length) := by
      rw [split]
      simp only [List.length_append, List.length_cons]
      omega
    rw [allocations, frees, ok.counts, rest, length, BitVec.ofNat_add 1, BitVec.add_assoc]
    rfl
  · intro p listed unlisted
    show p ∉ st.blocks.dom
    rw [dom, Finset.mem_erase, not_and]
    intro ne
    refine ok.gone p listed fun mem => unlisted ?_
    obtain ⟨c, hc, rfl⟩ := List.mem_map.1 mem
    exact List.mem_map_of_mem (List.mem_filter.2 ⟨hc, by simpa using ne⟩)

/-- The state after a report that returns a text. -/
def reported (h : AllocatorHistory) (st : Allocator) : AllocatorHistory :=
  ⟨st, [], h.listed ++ h.unlisted⟩

/-- A report that fits in its buffer keeps the invariant. -/
theorem Ok.report (ok : h.Ok) (differ : h.allocator.allocations ≠ h.allocator.frees)
    (fits : LinesFit h.allocator.countsText.length (leakLines h.unlisted)) (buf : ReportBuffer) :
    ∃ report st, h.allocator.findInternalMallocsLeaks buf = .ok (some report, st) ∧
      h.step m (.findInternalMallocsLeaks buf) = .ok (h.reported st) ∧ (h.reported st).Ok := by
  obtain ⟨report, st, run, tracks, allocations, frees, dom, -⟩ := ok.tracks.report differ fits buf
  refine ⟨report, st, run, ?_, tracks, ?_, ?_⟩
  · rw [step, run]
    rfl
  · show st.allocations = st.frees + BitVec.ofNat 32 (0 + (h.listed ++ h.unlisted).length)
    rw [allocations, frees, ok.counts, List.length_append, Nat.zero_add,
      Nat.add_comm h.unlisted.length]
  · intro p listed _
    show p ∉ st.blocks.dom
    rw [dom, Finset.mem_sdiff, List.mem_toFinset, not_and_not_right]
    intro live
    have mem : p ∈ ptrs h.listed ∨ p ∈ ptrs h.unlisted := by
      rwa [ptrs, reported, List.map_append, List.mem_append] at listed
    by_contra unlisted
    exact ok.gone p (mem.resolve_right unlisted) unlisted live

/-! ## One call -/

/-- A report fits in its buffer if and only if it returns. -/
theorem Ok.report_cases (ok : h.Ok) (buf : ReportBuffer) :
    (h.Clears (.findInternalMallocsLeaks buf) ∧ ∃ report? st,
      h.allocator.findInternalMallocsLeaks buf = .ok (report?, st) ∧
      (report?.isSome = true ↔ h.allocator.allocations ≠ h.allocator.frees) ∧
      ∃ h', step m h (.findInternalMallocsLeaks buf) = .ok h' ∧ h'.Ok) ∨
    (¬ h.Clears (.findInternalMallocsLeaks buf) ∧
      h.allocator.findInternalMallocsLeaks buf = .error .outOfBuffer) := by
  by_cases equal : h.allocator.allocations = h.allocator.frees
  · refine .inl ⟨.inl equal, none, h.allocator, findInternalMallocsLeaks_null equal buf, ?_, h, ?_,
      ok⟩
    · simp [equal]
    · rw [step, findInternalMallocsLeaks_null equal buf]
      rfl
  have clears_iff : h.Clears (.findInternalMallocsLeaks buf) ↔
      LinesFit h.allocator.countsText.length (leakLines h.unlisted) := by
    rw [linesFit_countsText_iff]
    exact or_iff_right equal
  by_cases fits : LinesFit h.allocator.countsText.length (leakLines h.unlisted)
  · obtain ⟨report, st, run, step_run, ok'⟩ := ok.report (m := m) equal fits buf
    exact .inl ⟨clears_iff.2 fits, some report, st, run, by simp [equal], _, step_run, ok'⟩
  · exact .inr ⟨fun clears => fits (clears_iff.1 clears),
      ok.tracks.report_outOfBuffer equal fits buf⟩

/-- A call that clears returns and keeps the invariant. -/
theorem Ok.step (ok : h.Ok) (clears : h.Clears call) : ∃ h', h.step m call = .ok h' ∧ h'.Ok := by
  cases call with
  | myAlloc file line =>
    obtain ⟨st, run, ok'⟩ := ok.add m file line
    refine ⟨_, ?_, ok'⟩
    rw [AllocatorHistory.step, run]
    rfl
  | myStrdup file line =>
    obtain ⟨st, run, ok'⟩ := ok.add m file line
    refine ⟨_, ?_, ok'⟩
    rw [AllocatorHistory.step, myStrdup, run]
    rfl
  | myFree p =>
    have unlisted : p ∈ ptrs h.unlisted := clears
    obtain ⟨st, run, ok'⟩ := ok.free unlisted
    refine ⟨_, ?_, ok'⟩
    rw [AllocatorHistory.step, run, Run.ok_bind, if_pos unlisted]
    rfl
  | findInternalMallocsLeaks buf =>
    obtain ⟨-, _, _, -, -, kept⟩ | ⟨fails, -⟩ := ok.report_cases (m := m) buf
    · exact kept
    · exact absurd clears fails

/-- A call that does not clear does not return. -/
theorem Ok.clears (ok : h.Ok) (admitted : h.OnOutstanding call) (run : h.step m call = .ok h') :
    h.Clears call := by
  cases call with
  | myAlloc => trivial
  | myStrdup => trivial
  | myFree p =>
    by_contra listed
    have dead := ok.gone p ((admitted p rfl).resolve_left listed) listed
    rw [AllocatorHistory.step, myFree_dead ok.tracks.selfCheck dead] at run
    cases run
  | findInternalMallocsLeaks buf =>
    obtain ⟨clears, -⟩ | ⟨-, fails⟩ := ok.report_cases (m := m) buf
    · exact clears
    · rw [AllocatorHistory.step, fails] at run
      cases run

theorem Ok.preserved (ok : h.Ok) (admitted : h.OnOutstanding call) (run : h.step m call = .ok h') :
    h'.Ok := by
  obtain ⟨h'', run', ok'⟩ := ok.step (m := m) (ok.clears admitted run)
  rw [run] at run'
  exact Except.ok.inj run' ▸ ok'

theorem Ok.counters_eq_iff (ok : h.Ok) : h.allocator.allocations = h.allocator.frees ↔
    2 ^ 32 ∣ h.unlisted.length + h.listed.length := by
  rw [ok.counts, BitVec.add_right_eq_self, ← BitVec.toNat_inj, BitVec.toNat_ofNat,
    BitVec.toNat_ofNat, Nat.zero_mod, Nat.dvd_iff_mod_eq_zero]

/-- So many calls of `_myAlloc` at one place. -/
theorem Ok.allocations (ok : h.Ok) (m : Malloc) (file : Str) (line : ℤ) (n : ℕ) :
    ∃ h', (List.replicate n (.myAlloc file line)).foldlM (AllocatorHistory.step m) h = .ok h' ∧
      h'.Ok ∧ h'.listed = h.listed ∧
      leakLines h'.unlisted = leakLines h.unlisted ++ List.replicate n (leakText file line) := by
  induction n generalizing h with
  | zero => exact ⟨h, rfl, ok, rfl, by simp⟩
  | succ n ih =>
    obtain ⟨st, run, ok₁⟩ := ok.add m file line
    obtain ⟨h', rest, ok', listed, lines⟩ := ih ok₁
    refine ⟨h', Run.foldlM_cons_eq_ok.2 ⟨_, ?_, rest⟩, ok', listed, ?_⟩
    · rw [AllocatorHistory.step, run]
      rfl
    · rw [lines]
      simp [AllocatorHistory.add, leakLines, List.replicate_succ]

end AllocatorHistory

/-- The static variables when the library is loaded. -/
def Sample.allocator : Allocator :=
  ⟨⟨0, 0⟩, false, ⟨[], 0, none, none⟩, ⟨[], 0, none, none⟩, .empty⟩

/-- The self check is on, and nothing is allocated yet. -/
def Sample.checked : AllocatorHistory := .start Sample.allocator

/-- A buffer as `malloc` may return it. -/
def Sample.buffer : ReportBuffer := ⟨List.replicate BUF_SIZE 'x', List.length_replicate⟩

/-- A call of `_myAlloc` at one place. -/
def Sample.alloc : AllocatorCall := .myAlloc "leak_detect.c".toList 218

/-- A call of `findInternalMallocsLeaks`. -/
def Sample.report : AllocatorCall := .findInternalMallocsLeaks Sample.buffer

/-- Three blocks, of which the second is freed. -/
def Sample.freeMiddle : List AllocatorCall :=
  [alloc, .myStrdup "ini.c".toList 7, .myAlloc "data_struct.c".toList 30, .myFree 2]

/-- The two blocks that are left are reported, and then one that is allocated after the report. -/
def Sample.twoReports : List AllocatorCall := freeMiddle ++ [report, alloc, report]

/-! ## The text of the report -/

/-- The report writes inside its buffer only, gives `snprintf` no negative size, and returns a
terminated string. -/
def Allocator.ReportSafe (st : Allocator) (buf : ReportBuffer) : Prop :=
  ∃ report? st', st.findInternalMallocsLeaks buf = .ok (report?, st') ∧
    ∀ report, report? = some report →
      ReportBuffer.NUL ∈ report.buf.bytes ∧ ∀ call ∈ report.printed, 0 ≤ call.1

/-- The report is safe if and only if nothing is reported or all lines but the last one, with the
line of the two counts, take at most `BUF_SIZE` characters. -/
theorem reportSafe_iff {st : Allocator} {blocks : List TrackedBlock} (tracks : st.Tracks blocks)
    (buf : ReportBuffer) :
    st.ReportSafe buf ↔ st.allocations = st.frees ∨
      st.countsText.length + ((leakLines blocks).dropLast.map List.length).sum ≤ BUF_SIZE := by
  by_cases equal : st.allocations = st.frees
  · refine iff_of_true ⟨none, st, findInternalMallocsLeaks_null equal buf, ?_⟩ (.inl equal)
    intro report h
    cases h
  rw [or_iff_right equal, ← linesFit_countsText_iff]
  by_cases fits : LinesFit st.countsText.length (leakLines blocks)
  · obtain ⟨report, st', run, -, -, -, -, terminated, printed⟩ := tracks.report equal fits buf
    refine iff_of_true ⟨some report, st', run, ?_⟩ fits
    rintro _ ⟨⟩
    refine ⟨terminated, fun call mem => ?_⟩
    rw [printed] at mem
    rcases List.mem_cons.1 mem with rfl | mem
    · simp
    · exact nonneg_of_mem_printedFrom fits mem
  · refine iff_of_false ?_ fits
    rintro ⟨report?, st', run, -⟩
    rw [tracks.report_outOfBuffer equal fits buf] at run
    cases run

/-- The lines of two blocks that are left of three. -/
theorem reportSafe_iff_freeMiddle : ∃ h, Sample.freeMiddle.foldlM (AllocatorHistory.step .above)
    Sample.checked = .ok h ∧ h.unlisted.length = 2 ∧ ∀ buf, h.allocator.ReportSafe buf := by
  obtain ⟨h, run, two⟩ := Run.exists_ok_of_any
    (x := Sample.freeMiddle.foldlM (AllocatorHistory.step .above) Sample.checked)
    (p := fun h => h.unlisted.length = 2 ∧ h.Clears Sample.report) (by decide +kernel)
  obtain ⟨two, clears⟩ := of_decide_eq_true two
  have ok : h.Ok := Run.foldlM_invariant (P := AllocatorHistory.OnOutstanding)
    (fun _ _ _ ok admitted step => ok.preserved admitted step) (by decide +kernel)
    (AllocatorHistory.ok_start Sample.allocator) run
  exact ⟨h, run, two, fun buf => (reportSafe_iff ok.tracks buf).2 clears⟩

/-- The line of a block, with `d` for the digits of its line number, after the name of the file. -/
theorem le_length_leak (file d : Str) :
    34 + file.length ≤ ("Didn't free memory allocated from ".toList ++ file ++ ":".toList ++ d ++
      "\n".toList).length := by
  simp only [List.length_append, String.reduceToList, List.length_cons, List.length_nil]
  omega

/-- A hundred blocks do not fit into the buffer. -/
theorem Sample.report_hundred : ∃ h, (List.replicate 100 Sample.alloc).foldlM
    (AllocatorHistory.step .above) Sample.checked = .ok h ∧ h.Ok ∧ ¬ h.Clears Sample.report ∧
      ∀ buf, h.allocator.findInternalMallocsLeaks buf = .error .outOfBuffer := by
  obtain ⟨h, run, ok, listed, lines⟩ := (AllocatorHistory.ok_start Sample.allocator).allocations
    .above "leak_detect.c".toList 218 100
  have none : leakLines (AllocatorHistory.start Sample.allocator).unlisted = [] := rfl
  rw [none, List.nil_append] at lines
  have count : h.unlisted.length = 100 := by
    have := congrArg List.length lines
    rwa [leakLines, List.length_map, List.length_replicate] at this
  have length : 47 ≤ (leakText "leak_detect.c".toList 218).length :=
    le_length_leak "leak_detect.c".toList (decimal 218)
  have not_fits : BUF_SIZE < h.allocator.countsText.length +
      ((leakLines h.unlisted).dropLast.map List.length).sum := by
    rw [lines, BUF_SIZE]
    simp only [List.dropLast_replicate, List.map_replicate, List.sum_replicate_nat]
    omega
  have differ : h.allocator.allocations ≠ h.allocator.frees := by
    rw [ne_eq, ok.counters_eq_iff, count, listed]
    decide
  refine ⟨h, run, ok, ?_, fun buf => ok.tracks.report_outOfBuffer differ ?_ buf⟩
  · rintro (equal | fits)
    · exact differ equal
    · exact absurd fits (not_le.2 not_fits)
  · rw [linesFit_countsText_iff]
    exact not_le.2 not_fits

/-- The report on a hundred blocks writes behind its buffer. -/
theorem hundred_blocks_unsafe : ∃ h, (List.replicate 100 Sample.alloc).foldlM
    (AllocatorHistory.step .above) Sample.checked = .ok h ∧
      ¬ h.allocator.ReportSafe Sample.buffer := by
  obtain ⟨h, run, -, -, outside⟩ := Sample.report_hundred
  refine ⟨h, run, ?_⟩
  rintro ⟨report?, st, report, -⟩
  rw [outside] at report
  cases report

namespace AllocatorHistory

variable {m : Malloc} {h h' : AllocatorHistory} {call : AllocatorCall}

/-- Runs that free nothing. -/
theorem onOutstanding_of_frees_none {calls : List AllocatorCall}
    (none : ∀ call ∈ calls, ∀ p, call ≠ .myFree p) :
    Run.Meets (step m) OnOutstanding h calls :=
  Run.meets_of_forall (fun _ call mem p same => absurd same (none call mem p)) h

/-! ## The list in every run -/

/-- The links lead from `head` to `tail` through the unlisted blocks, in the order of their
allocation, and back, and each block has the file and the line of its own allocation. -/
structure ListExact (h : AllocatorHistory) : Prop where
  forward : Follows h.allocator.next .head (h.unlisted.map fun b => .block b.ptr) .tail
  backward : Follows h.allocator.prev .tail (h.unlisted.map fun b => .block b.ptr).reverse .head
  origin : ∀ b ∈ h.unlisted, h.allocator.origin (.block b.ptr) = some (b.file, b.line)

theorem Ok.listExact (ok : h.Ok) : h.ListExact where
  forward := ok.tracks.list.follows_next
  backward := ok.tracks.list.follows_prev
  origin := ok.tracks.origin

/-- The call returns, and the list is exact after it. -/
def KeepsList (m : Malloc) (h : AllocatorHistory) (call : AllocatorCall) : Prop :=
  ∃ h', h.step m call = .ok h' ∧ h'.ListExact

/-- Every call of a run returns and leaves the list exact, if and only if no call frees a listed
block and every report fits in its buffer. -/
theorem listExact_iff (m : Malloc) (st : Allocator) (calls : List AllocatorCall)
    (admitted : Run.Meets (step m) OnOutstanding (start st) calls) :
    ((start st).ListExact ∧ Run.Meets (step m) (KeepsList m) (start st) calls) ↔
      Run.Meets (step m) Clears (start st) calls := by
  have preserved : ∀ (P : AllocatorHistory → AllocatorCall → Prop) h call h', h.Ok →
      h.OnOutstanding call ∧ P h call → h.step m call = .ok h' → h'.Ok :=
    fun _ _ _ _ ok admitted run => ok.preserved admitted.1 run
  constructor
  · rintro ⟨-, keeps⟩
    refine (admitted.and keeps).of_invariant (preserved _) (fun h call ok both => ?_) (ok_start st)
    obtain ⟨h', run, -⟩ := both.2
    exact ok.clears both.1 run
  · intro clears
    refine ⟨(ok_start st).listExact, ?_⟩
    refine (admitted.and clears).of_invariant (preserved _) (fun h call ok both => ?_) (ok_start st)
    obtain ⟨h', run, ok'⟩ := ok.step (m := m) both.2
    exact ⟨h', run, ok'.listExact⟩

theorem listExact_iff_twoReports :
    (start Sample.allocator).ListExact ∧ Run.Meets (step .above) (KeepsList .above)
      (start Sample.allocator) Sample.twoReports :=
  (listExact_iff .above Sample.allocator Sample.twoReports (by decide +kernel)).2 (by decide +kernel)

/-- The report on a hundred blocks writes behind its buffer and does not return. -/
theorem list_lost_by_report :
    Run.Meets (step .above) OnOutstanding (start Sample.allocator)
        (List.replicate 100 Sample.alloc ++ [Sample.report]) ∧
      ¬ Run.Meets (step .above) (KeepsList .above) (start Sample.allocator)
        (List.replicate 100 Sample.alloc ++ [Sample.report]) := by
  constructor
  · refine onOutstanding_of_frees_none fun call mem p same => ?_
    rcases List.mem_append.1 mem with mem | mem
    · cases (List.mem_replicate.1 mem).2.symm.trans same
    · cases (List.mem_singleton.1 mem).symm.trans same
  · intro keeps
    obtain ⟨h, run, ok, overflow, -⟩ := Sample.report_hundred
    obtain ⟨h', report, -⟩ := (keeps.append_right run).1
    refine overflow (ok.clears (fun p same => ?_) report)
    cases same

/-! ## The reports in every run -/

/-- The call returns, and if it is a report, it returns a text exactly when some outstanding block
was not listed before. -/
structure Accurate (m : Malloc) (h : AllocatorHistory) (call : AllocatorCall) : Prop where
  returns : ∃ h', h.step m call = .ok h'
  tells : ∀ buf report? st, call = .findInternalMallocsLeaks buf →
    h.allocator.findInternalMallocsLeaks buf = .ok (report?, st) →
    (report?.isSome = true ↔ h.unlisted ≠ [])

/-- The difference of the counters tells whether there are unlisted blocks, in `int`s. -/
def CountsTell (h : AllocatorHistory) (call : AllocatorCall) : Prop :=
  ∀ buf, call = .findInternalMallocsLeaks buf →
    (h.unlisted = [] → 2 ^ 32 ∣ h.listed.length) ∧
    (h.unlisted ≠ [] → ¬ 2 ^ 32 ∣ h.unlisted.length + h.listed.length)

instance (h : AllocatorHistory) : ∀ call, Decidable (h.CountsTell call)
  | .findInternalMallocsLeaks buf => decidable_of_iff
      ((h.unlisted = [] → 2 ^ 32 ∣ h.listed.length) ∧
        (h.unlisted ≠ [] → ¬ 2 ^ 32 ∣ h.unlisted.length + h.listed.length))
      ⟨fun tell _ _ => tell, fun all => all buf rfl⟩
  | .myAlloc .. | .myStrdup .. | .myFree _ => isTrue fun _ same => nomatch same

theorem Ok.accurate_iff (ok : h.Ok) (admitted : h.OnOutstanding call) :
    h.Accurate m call ↔ h.Clears call ∧ h.CountsTell call := by
  have counts_iff : h.allocator.allocations ≠ h.allocator.frees ↔
      ¬ 2 ^ 32 ∣ h.unlisted.length + h.listed.length := not_congr ok.counters_eq_iff
  constructor
  · intro accurate
    obtain ⟨h', run⟩ := accurate.returns
    refine ⟨ok.clears admitted run, ?_⟩
    rintro buf rfl
    obtain ⟨-, report?, st, text, some_iff, -⟩ | ⟨-, fails⟩ := ok.report_cases (m := m) buf
    · have tells := accurate.tells buf report? st rfl text
      rw [some_iff, counts_iff] at tells
      refine ⟨fun none => ?_, fun unlisted => tells.2 unlisted⟩
      by_contra counted
      refine tells.1 ?_ none
      rwa [none, List.length_nil, Nat.zero_add]
    · rw [AllocatorHistory.step, fails] at run
      cases run
  · rintro ⟨clears, tell⟩
    obtain ⟨h', run, -⟩ := ok.step (m := m) clears
    refine ⟨⟨h', run⟩, ?_⟩
    rintro buf report? st rfl text
    obtain ⟨-, _, _, text', some_iff, -⟩ | ⟨fails, -⟩ := ok.report_cases (m := m) buf
    · cases text.symm.trans text'
      rw [some_iff, counts_iff]
      obtain ⟨tell_none, tell_some⟩ := tell buf rfl
      refine ⟨fun counted none => counted ?_, tell_some⟩
      rw [none, List.length_nil, Nat.zero_add]
      exact tell_none none
    · exact absurd clears fails

/-- Every call of a run returns and every report is accurate, if and only if no call frees a listed
block, every report fits in its buffer, and a report is made while an unlisted block is outstanding
or before any block was listed, as far as `int`s can tell. -/
theorem accurate_run_iff (m : Malloc) (st : Allocator) (calls : List AllocatorCall)
    (admitted : Run.Meets (step m) OnOutstanding (start st) calls) :
    Run.Meets (step m) (Accurate m) (start st) calls ↔
      Run.Meets (step m) (fun h call => h.Clears call ∧ h.CountsTell call) (start st) calls := by
  have preserved : ∀ (P : AllocatorHistory → AllocatorCall → Prop) h call h', h.Ok →
      h.OnOutstanding call ∧ P h call → h.step m call = .ok h' → h'.Ok :=
    fun _ _ _ _ ok admitted run => ok.preserved admitted.1 run
  constructor
  · intro accurate
    exact (admitted.and accurate).of_invariant (preserved _)
      (fun h call ok both => (ok.accurate_iff both.1).1 both.2) (ok_start st)
  · intro tell
    exact (admitted.and tell).of_invariant (preserved _)
      (fun h call ok both => (ok.accurate_iff both.1).2 both.2) (ok_start st)

theorem accurate_run_iff_twoReports :
    Run.Meets (step .above) (Accurate .above) (start Sample.allocator) Sample.twoReports :=
  (accurate_run_iff .above Sample.allocator Sample.twoReports (by decide +kernel)).2
    (by decide +kernel)

/-- The second report returns a text although the only block was listed by the first one. -/
theorem listed_block_reported :
    Run.Meets (step .above) OnOutstanding (start Sample.allocator)
        [Sample.alloc, Sample.report, Sample.report] ∧
      ¬ Run.Meets (step .above) (Accurate .above) (start Sample.allocator)
        [Sample.alloc, Sample.report, Sample.report] := by
  refine ⟨onOutstanding_of_frees_none (by simp [Sample.report, Sample.alloc]), fun accurate => ?_⟩
  obtain ⟨h, run, ok, listed, lines⟩ := (ok_start Sample.allocator).allocations .above
    "leak_detect.c".toList 218 1
  have one : h.unlisted.length = 1 := by
    have := congrArg List.length lines
    rwa [leakLines, List.length_map] at this
  have whole : Run.Meets (step .above) (Accurate .above) (start Sample.allocator)
      ([Sample.alloc] ++ [Sample.report, Sample.report]) := accurate
  have reports := whole.append_right run
  have counted : h.allocator.allocations ≠ h.allocator.frees := by
    rw [ne_eq, ok.counters_eq_iff, one, listed]
    decide
  -- the first report lists the block
  obtain ⟨h', first⟩ := reports.1.returns
  have fits := (ok.clears (fun p same => by cases same) first).resolve_left counted
  obtain ⟨-, st, -, report, ok'⟩ := ok.report (m := .above) counted
    (linesFit_countsText_iff.2 fits) Sample.buffer
  have second := (reports.2 _ report).1
  have tell := ((ok'.accurate_iff (fun p same => by cases same)).1 second).2 Sample.buffer rfl
  have count : (h.reported st).listed.length = 1 := by
    rw [reported, listed, List.length_append, one]
    rfl
  exact absurd (count ▸ tell.1 rfl) (by decide)

end AllocatorHistory

end JLeaker
