import Mathlib.Data.List.TakeWhile
import JLeaker.Lib.Run
import JLeaker.Model.JobjectPrint

/-!
# Elements without a text

`printNormalObject` and `printEntryObject` check each pointer before they use it, but not the text they
pass on: the element is printed with NULL for the value where the text is missing.
-/

namespace JLeaker

open CString

variable {Obj : Type} {methods : JavaMethods Obj} {f : OutputStream}

/-- The object is not null, its `toString()` returns a string, and the string can be read. -/
def HasText (methods : JavaMethods Obj) (obj : Option Obj) : Prop :=
  ∃ o s text, obj = some o ∧ methods.toString o = some s ∧ methods.getStringUTFChars s = some text

theorem utfOf_eq_some_iff {obj : Option Obj} :
    (∃ text, utfOf methods obj = some text) ↔ HasText methods obj := by
  unfold utfOf HasText
  simp only [Option.bind_eq_bind, Option.bind_eq_some_iff]
  constructor
  · rintro ⟨text, o, ho, s, hs, htext⟩
    exact ⟨o, s, text, ho, hs, htext⟩
  · rintro ⟨o, s, text, ho, hs, htext⟩
    exact ⟨text, o, ho, s, hs, htext⟩

theorem utfOf_eq_none {obj : Option Obj} (h : ¬ HasText methods obj) :
    utfOf methods obj = none := by
  cases hs : utfOf methods obj with
  | none => rfl
  | some text => exact absurd (utfOf_eq_some_iff.1 ⟨text, hs⟩) h

/-! ## One element -/

theorem printNormalObject_ok {xmlDepth : ℕ} {obj : Option Obj} (h : HasText methods obj) :
    ∃ text, printNormalObject methods f xmlDepth obj = .ok text := by
  obtain ⟨text, hs⟩ := utfOf_eq_some_iff.2 h
  exact ⟨_, by rw [printNormalObject, hs]; rfl⟩

theorem printNormalObject_null {xmlDepth : ℕ} {obj : Option Obj} (h : ¬ HasText methods obj) :
    printNormalObject methods f xmlDepth obj = .error .nullString := by
  rw [printNormalObject, utfOf_eq_none h]
  rfl

theorem printEntryObject_ok {xmlDepth : ℕ} {entry : Obj} (hkey : HasText methods (methods.getKey entry))
    (hvalue : HasText methods (methods.getValue entry)) :
    ∃ text, printEntryObject methods f xmlDepth (some entry) = .ok text := by
  obtain ⟨key, hkey⟩ := utfOf_eq_some_iff.2 hkey
  obtain ⟨value, hvalue⟩ := utfOf_eq_some_iff.2 hvalue
  exact ⟨_, by rw [printEntryObject, hkey, hvalue]; rfl⟩

theorem printEntryObject_null {xmlDepth : ℕ} {entry : Obj}
    (h : ¬ (HasText methods (methods.getKey entry) ∧ HasText methods (methods.getValue entry))) :
    printEntryObject methods f xmlDepth (some entry) = .error .nullString := by
  by_cases hkey : HasText methods (methods.getKey entry)
  · obtain ⟨key, hkey'⟩ := utfOf_eq_some_iff.2 hkey
    rw [printEntryObject, hkey', utfOf_eq_none fun hvalue => h ⟨hkey, hvalue⟩]
    rfl
  · rw [printEntryObject, utfOf_eq_none hkey]
    rfl

/-! ## The loop over the elements -/

/-- How printing one element ends: it prints those that are fine, stops without reading a text at those
it does not reach, and reads through NULL at the others. -/
structure PrintsEach (print : Option Obj → Except PrintFault Str) (reached : Option Obj → Bool)
    (fine : Option Obj → Prop) : Prop where
  ok : ∀ e, reached e = true → fine e → ∃ text, print e = .ok text
  null : ∀ e, reached e = true → ¬ fine e → print e = .error .nullString
  stop : ∀ e, reached e = false → print e = .error .nullReceiver

theorem PrintsEach.printElements_iff {print : Option Obj → Except PrintFault Str}
    {reached : Option Obj → Bool} {fine : Option Obj → Prop} (each : PrintsEach print reached fine)
    (limit : ℤ) (elements : List (Option Obj)) :
    printElements print limit elements ≠ .error .nullString ↔
      ∀ e ∈ (elements.take limit.toNat).takeWhile reached, fine e := by
  induction elements generalizing limit with
  | nil => simp [printElements]
  | cons e rest ih =>
    rw [printElements]
    by_cases hlimit : limit ≤ 0
    · have hzero : limit.toNat = 0 := by omega
      rw [if_neg (by omega), hzero]
      simp
    have hsucc : limit.toNat = (limit - 1).toNat + 1 := by omega
    rw [if_pos (by omega), hsucc, List.take_succ_cons]
    by_cases hstop : reached e = false
    · rw [each.stop e hstop, List.takeWhile_cons_of_neg (by simp [hstop])]
      simp [bind, Except.bind]
    have hreached : reached e = true := by simpa using hstop
    rw [List.takeWhile_cons_of_pos hreached, List.forall_mem_cons]
    by_cases hfine : fine e
    · obtain ⟨text, htext⟩ := each.ok e hreached hfine
      rw [htext, Run.ok_bind, ← ih]
      simp only [hfine, true_and]
      cases hrest : printElements print (limit - 1) rest with
      | ok texts => simp [pure, Except.pure, bind, Except.bind]
      | error fault => simp [bind, Except.bind]
    · rw [each.null e hreached hfine]
      simp [hfine, bind, Except.bind]

theorem printsEach_normal (methods : JavaMethods Obj) (f : OutputStream) (xmlDepth : ℕ) :
    PrintsEach (printNormalObject methods f xmlDepth) (fun _ => true) (HasText methods) where
  ok _ _ := printNormalObject_ok
  null _ _ := printNormalObject_null
  stop _ h := by cases h

/-- The key and the value of the entry have texts. -/
def EntryHasText (methods : JavaMethods Obj) (entry : Option Obj) : Prop :=
  ∀ e, entry = some e → HasText methods (methods.getKey e) ∧ HasText methods (methods.getValue e)

theorem printsEach_entry (methods : JavaMethods Obj) (f : OutputStream) (xmlDepth : ℕ) :
    PrintsEach (printEntryObject methods f xmlDepth) Option.isSome (EntryHasText methods) where
  ok e reached fine := by
    obtain ⟨entry, rfl⟩ := Option.isSome_iff_exists.1 reached
    obtain ⟨hkey, hvalue⟩ := fine entry rfl
    exact printEntryObject_ok hkey hvalue
  null e reached missing := by
    obtain ⟨entry, rfl⟩ := Option.isSome_iff_exists.1 reached
    refine printEntryObject_null fun h => missing fun e he => ?_
    obtain rfl := Option.some.inj he
    exact h
  stop e unreached := by
    obtain rfl := Option.not_isSome_iff_eq_none.1 (Bool.not_eq_true _ ▸ unreached)
    rfl

/-! ## The containers -/

theorem PrintsEach.printCollectionUsingMethod_iff {print : Option Obj → Except PrintFault Str}
    {reached : Option Obj → Bool} {fine : Option Obj → Prop} (each : PrintsEach print reached fine)
    (limit : ℤ) (collection : Obj) :
    printCollectionUsingMethod methods print limit collection ≠ .error .nullString ↔
      ∀ elements, methods.iterator collection = some elements →
        ∀ e ∈ (elements.take limit.toNat).takeWhile reached, fine e := by
  unfold printCollectionUsingMethod
  cases helements : methods.iterator collection with
  | none => split_ifs <;> simp
  | some elements =>
    rw [each.printElements_iff]
    simp

/-- What is printed around the elements does not fail. -/
theorem bind_ne_nullString {x : Except PrintFault Str} {around : Str → Str} :
    (x >>= fun texts => pure (around texts)) ≠ .error .nullString ↔ x ≠ .error .nullString := by
  cases x with
  | ok texts => simp [pure, Except.pure, bind, Except.bind]
  | error fault => simp [bind, Except.bind]

/-- The elements of the container that are printed: the first `limit`, up to one at which the loop
stops. -/
def Dumped (methods : JavaMethods Obj) (limit : ℤ) (reached : Option Obj → Bool) (collection : Obj)
    (e : Option Obj) : Prop :=
  ∃ elements, methods.iterator collection = some elements ∧
    e ∈ (elements.take limit.toNat).takeWhile reached

theorem PrintsEach.dumped_iff {print : Option Obj → Except PrintFault Str}
    {reached : Option Obj → Bool} {fine : Option Obj → Prop} (each : PrintsEach print reached fine)
    (limit : ℤ) (collection : Obj) :
    printCollectionUsingMethod methods print limit collection ≠ .error .nullString ↔
      ∀ e, Dumped methods limit reached collection e → fine e := by
  rw [each.printCollectionUsingMethod_iff]
  constructor
  · rintro all e ⟨elements, helements, he⟩
    exact all elements helements e he
  · exact fun all elements helements e he => all e ⟨elements, helements, he⟩

theorem printEntries_iff (xmlDepth : ℕ) (limit : ℤ) (tag error : Str) (entries : Option Obj) :
    printEntries methods f xmlDepth limit tag error entries ≠ .error .nullString ↔
      ∀ set, entries = some set → ∀ e, Dumped methods limit Option.isSome set e →
        EntryHasText methods e := by
  unfold printEntries
  cases entries with
  | none => exact iff_of_true (fun h => by cases h) fun set h => by cases h
  | some set =>
    apply bind_ne_nullString.trans
    rw [(printsEach_entry methods f _).dumped_iff]
    simp

/-- Printing a container passes no NULL to `escapeString` if and only if all elements that are printed
have texts; for a map, the keys and values of all entries up to the first null one. -/
theorem container_strings_iff (methods : JavaMethods Obj) (f : OutputStream) (xmlDepth : ℕ)
    (limit : ℤ) (o : Obj) :
    (printCollection methods f xmlDepth limit o ≠ .error .nullString ↔
      ∀ e, Dumped methods limit (fun _ => true) o e → HasText methods e) ∧
    (printMap methods f xmlDepth limit o ≠ .error .nullString ↔
      ∀ set, methods.entrySet o = some set → ∀ e, Dumped methods limit Option.isSome set e →
        EntryHasText methods e) ∧
    (printMultiMap methods f xmlDepth limit o ≠ .error .nullString ↔
      ∀ set, methods.entries o = some set → ∀ e, Dumped methods limit Option.isSome set e →
        EntryHasText methods e) := by
  refine ⟨?_, printEntries_iff .., printEntries_iff ..⟩
  rw [← (printsEach_normal methods f (xmlDepth + 1)).dumped_iff]
  exact bind_ne_nullString

/-- A collection with a null element. -/
theorem container_null_string : ¬ ∀ (methods : JavaMethods ℕ) (f : OutputStream) (xmlDepth : ℕ)
    (limit : ℤ) (o : ℕ), printCollection methods f xmlDepth limit o ≠ .error .nullString ∧
      printMap methods f xmlDepth limit o ≠ .error .nullString ∧
      printMultiMap methods f xmlDepth limit o ≠ .error .nullString := by
  intro safe
  let methods : JavaMethods ℕ :=
    { toString := some, getKey := some, getValue := some, entrySet := some, entries := some
      iterator := fun _ => some [none], getStringUTFChars := fun _ => some [] }
  exact (safe methods .file 0 5 1).1 rfl

end JLeaker
