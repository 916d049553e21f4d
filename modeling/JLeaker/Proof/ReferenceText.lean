import JLeaker.Lib.Run
import JLeaker.Model.Dump
import JLeaker.Model.PrintReference

/-!
# The text of a reference

`printSingleReference` adds a constant to the lengths of the names and formats the text into a buffer of
that size.  The constant leaves room for the numbers of every kind but a local variable, whose text has
up to 16 digits of a thread id and up to two numbers; and the text of a JNI local reference is replaced
by that of a JNI global one.
-/

namespace JLeaker

open CString

variable {Obj : Type}

namespace Printer

/-- What a text says about the method of a JNI local reference; it may be unknown. -/
def jniMethodText (pr : Printer Obj) (method : ℕ) : Str :=
  if method = 0 then "JNI Local variable from unknown method (thread ID ".toList
  else "JNI Local variable from method ".toList ++ (pr.methods method).methodName ++
    (pr.methods method).methodDesc ++ " (thread id ".toList

variable [DecidableEq Obj] (pr : Printer Obj)

/-- The text of the kind of the reference, with all its names and numbers; thread ids have 64 bits.
There is none for the kinds without a text, or where the names are not known. -/
def ownText (nodes : CHeap (MemoryNode Obj)) (ref : MemoryReferer) : Option Str :=
  match ref.kind with
  | .staticField => do
    let node ← nodes.get? (← ref.node)
    let klass ← node.obj
    return pr.className klass ++ ".".toList ++ pr.fieldName klass ref.info.index ++ " (Static)".toList
  | .field => do
    let node ← nodes.get? (← ref.node)
    return (← node.classname).toList ++ ".".toList ++ pr.fieldName (← node.klass) ref.info.index
  | .arrayElement => do
    let node ← nodes.get? (← ref.node)
    return (← node.classname).toList ++ " element number ".toList ++ decimal ref.info.index
  | .constantPool => some ("#".toList ++ decimal ref.info.index)
  | .stackLocal =>
    some (pr.stackLocalText (pr.methods ref.info.method) ref.info.slot
      (hexadecimal 64 ref.info.threadId))
  | .jniLocal =>
    some (pr.jniMethodText ref.info.method ++ hexadecimal 64 ref.info.threadId ++ ")".toList)
  | .jniGlobal => some "JNI global reference".toList
  | .systemClass => some "System class heap root reference".toList
  | .monitor => some "Monitor heap root reference".toList
  | .thread => some "Thread heap root reference".toList
  | .other => some "Unknown heap root reference".toList
  | .klass | .classLoader | .signers | .protectionDomain | .interface | .superclass => none

end Printer

/-- The digits of the numbers have room in the text of a local variable. -/
def Fits (m : MethodInfo Obj) (slot threadId : ℤ) : Prop :=
  if !m.isStatic ∧ slot = 0 then (hexadecimal 64 threadId).length ≤ 8
  else if slot < m.argumentsSize then
    (decimal slot).length + (hexadecimal 64 threadId).length ≤ 7
  else (decimal (slot - m.argumentsSize)).length + (hexadecimal 64 threadId).length ≤ 9

instance (m : MethodInfo Obj) (slot threadId : ℤ) : Decidable (Fits m slot threadId) :=
  inferInstanceAs (Decidable (if !m.isStatic ∧ slot = 0 then (hexadecimal 64 threadId).length ≤ 8
    else if slot < m.argumentsSize then
      (decimal slot).length + (hexadecimal 64 threadId).length ≤ 7
    else (decimal (slot - m.argumentsSize)).length + (hexadecimal 64 threadId).length ≤ 9))

/-! ## Numbers -/

/-- A thread id of at most eight digits is printed as it is, even if a `long` has 32 bits. -/
theorem hexadecimal_eq {longBits : ℕ} (hbits : 32 ≤ longBits) {n : ℤ}
    (hn : -2 ^ 63 ≤ n ∧ n < 2 ^ 63) (h : (hexadecimal 64 n).length ≤ 8) :
    hexadecimal longBits n = hexadecimal 64 n := by
  have hlt : (n % 2 ^ 64).toNat < 16 ^ 8 := (Nat.length_toDigits_le_iff (by omega) (by omega)).1 h
  have hsmall : 0 ≤ n ∧ n < 2 ^ 32 := by omega
  have hpow : (2 : ℤ) ^ 32 ≤ 2 ^ longBits := by
    obtain ⟨k, rfl⟩ := Nat.exists_eq_add_of_le hbits
    exact_mod_cast Nat.pow_le_pow_right (by omega) hbits
  unfold hexadecimal
  rw [Int.emod_eq_of_lt hsmall.1 (by omega), Int.emod_eq_of_lt hsmall.1 (by omega)]

/-! ## Buffers -/

theorem snprintf_eq {sz : ℕ} {text : Str} (h : text.length < sz) : snprintf sz text = text :=
  List.take_of_length_le (by omega)

theorem snprintf_ne {sz : ℕ} {text own : Str} (h : sz ≤ own.length) (hsz : 0 < sz) :
    snprintf sz text ≠ own := by
  rintro rfl
  have hlength : (snprintf sz text).length ≤ sz - 1 := List.length_take_le _ _
  omega

variable [DecidableEq Obj] {pr : Printer Obj}

omit [DecidableEq Obj] in
/-- The buffer for a local variable holds the whole text if and only if the digits fit. -/
theorem snprintf_stackLocalText_iff (pr : Printer Obj) (m : MethodInfo Obj) {slot threadId : ℤ}
    (hid : -2 ^ 63 ≤ threadId ∧ threadId < 2 ^ 63) :
    snprintf (64 + m.methodDesc.length + m.methodName.length + (pr.className m.declaringClass).length)
        (pr.stackLocalText m slot (hexadecimal pr.platform.longBits threadId)) =
      pr.stackLocalText m slot (hexadecimal 64 threadId) ↔ Fits m slot threadId := by
  have hslot := length_decimal_pos slot
  have harg := length_decimal_pos (slot - m.argumentsSize)
  have hsame := hexadecimal_eq (n := threadId) pr.platform.le_longBits hid
  -- the lengths of the fixed parts of the three texts are 55, 56 and 54
  have hlength : ∀ id : Str, (pr.stackLocalText m slot id).length =
      m.methodDesc.length + m.methodName.length + (pr.className m.declaringClass).length + id.length +
        if !m.isStatic ∧ slot = 0 then 55
        else if slot < m.argumentsSize then 56 + (decimal slot).length
        else 54 + (decimal (slot - m.argumentsSize)).length := by
    intro id
    unfold Printer.stackLocalText Printer.methodText
    split_ifs <;>
      simp only [List.length_append, String.reduceToList, List.length_cons, List.length_nil] <;> omega
  constructor
  · intro h
    by_contra hfits
    refine snprintf_ne ?_ (by omega) h
    rw [hlength]
    unfold Fits at hfits
    split_ifs at hfits ⊢ <;> omega
  · intro hfits
    have hshort : (hexadecimal 64 threadId).length ≤ 8 := by
      unfold Fits at hfits
      split_ifs at hfits <;> omega
    rw [hsame hshort]
    apply snprintf_eq
    rw [hlength]
    unfold Fits at hfits
    split_ifs at hfits ⊢ <;> omega

/-! ## The printed element -/

/-- What is printed for a reference is its own text. -/
def PrintsOwnText (pr : Printer Obj) (objectsWithTag : ℕ → List Obj)
    (nodes : CHeap (MemoryNode Obj)) (ref : MemoryReferer) (text : Str) : Prop :=
  ∃ nodes', pr.printSingleReference objectsWithTag nodes ref =
    .ok ([⟨"reference".toList, [("location".toList, text)]⟩], nodes')

/-- The kinds and numbers with which a reference is printed in full. -/
def PrintsInFull (pr : Printer Obj) (ref : MemoryReferer) : Prop :=
  ref.kind ≠ .jniLocal ∧
    (ref.kind = .stackLocal → Fits (pr.methods ref.info.method) ref.info.slot ref.info.threadId)

/-- A text that fits into its buffer is the message. -/
theorem message_eq_of_length {sz : ℕ} {own : Str} (room : own.length < sz) :
    (.ok (some (snprintf sz own)) : Except Fault (Option Str)) = .ok (some own) := by
  rw [snprintf_eq room]

omit [DecidableEq Obj] in
/-- The node of the referrer, of a reference whose text names it. -/
theorem deref_of_bind {nodes : CHeap (MemoryNode Obj)} {ref : MemoryReferer} {text : Str}
    {describe : MemoryNode Obj → Option Str}
    (h : (ref.node.bind fun a => (nodes.get? a).bind describe) = some text) :
    ∃ node, deref nodes (ref.node.getD 0) = .ok node ∧ describe node = some text := by
  simp only [Option.bind_eq_some_iff] at h
  obtain ⟨a, ha, node, hnode, htext⟩ := h
  refine ⟨node, ?_, htext⟩
  rw [ha, Option.getD_some, deref_eq_ok]
  exact hnode

/-- The kinds whose texts have no numbers of a local variable. -/
theorem message_eq_ownText {nodes : CHeap (MemoryNode Obj)} {ref : MemoryReferer} {text : Str}
    (htext : pr.ownText nodes ref = some text)
    (hindex : -2 ^ 31 ≤ ref.info.index ∧ ref.info.index < 2 ^ 31) (hstack : ref.kind ≠ .stackLocal)
    (hjni : ref.kind ≠ .jniLocal) : pr.message nodes ref = .ok (some text) := by
  have hdigits := length_decimal_le hindex
  unfold Printer.ownText at htext
  unfold Printer.message
  cases hkind : ref.kind <;> rw [hkind] at htext
  case staticField =>
    obtain ⟨node, hnode, hown⟩ := deref_of_bind htext
    obtain ⟨klass, hklass, hown⟩ := Option.bind_eq_some_iff.1 hown
    obtain rfl := Option.some.inj hown
    simp only [hnode, Run.ok_bind, hklass]
    apply message_eq_of_length
    simp only [List.length_append, String.reduceToList, List.length_cons, List.length_nil]
    omega
  case field =>
    obtain ⟨node, hnode, hown⟩ := deref_of_bind htext
    obtain ⟨classname, hclassname, hown⟩ := Option.bind_eq_some_iff.1 hown
    obtain ⟨klass, hklass, hown⟩ := Option.bind_eq_some_iff.1 hown
    obtain rfl := Option.some.inj hown
    simp only [hnode, Run.ok_bind, hklass, hclassname]
    apply message_eq_of_length
    simp only [List.length_append, String.reduceToList, List.length_cons, List.length_nil]
    omega
  case arrayElement =>
    obtain ⟨node, hnode, hown⟩ := deref_of_bind htext
    obtain ⟨classname, hclassname, hown⟩ := Option.bind_eq_some_iff.1 hown
    obtain rfl := Option.some.inj hown
    simp only [hnode, Run.ok_bind, hclassname]
    apply message_eq_of_length
    simp only [List.length_append, String.reduceToList, List.length_cons, List.length_nil]
    omega
  case constantPool =>
    obtain rfl := Option.some.inj htext
    apply message_eq_of_length
    simp only [List.length_append, String.reduceToList, List.length_cons, List.length_nil]
    omega
  case stackLocal => exact absurd hkind hstack
  case jniLocal => exact absurd hkind hjni
  case klass | classLoader | signers | protectionDomain | interface | superclass => cases htext
  all_goals
    obtain rfl := Option.some.inj htext
    rfl

omit [DecidableEq Obj] in
/-- The text of a JNI global reference is that of no JNI local one. -/
theorem jniMethodText_ne (method : ℕ) (rest : Str) :
    pr.jniMethodText method ++ rest ≠ "JNI global reference".toList := by
  unfold Printer.jniMethodText
  split_ifs <;> simp

theorem message_iff {nodes : CHeap (MemoryNode Obj)} {ref : MemoryReferer} {text : Str}
    (htext : pr.ownText nodes ref = some text)
    (hindex : -2 ^ 31 ≤ ref.info.index ∧ ref.info.index < 2 ^ 31)
    (hid : -2 ^ 63 ≤ ref.info.threadId ∧ ref.info.threadId < 2 ^ 63) :
    pr.message nodes ref = .ok (some text) ↔ PrintsInFull pr ref := by
  by_cases hstack : ref.kind = .stackLocal
  · have hown : pr.stackLocalText (pr.methods ref.info.method) ref.info.slot
        (hexadecimal 64 ref.info.threadId) = text := by simpa [Printer.ownText, hstack] using htext
    rw [PrintsInFull, hstack, ← snprintf_stackLocalText_iff pr _ hid, hown]
    simp [Printer.message, hstack, pure, Except.pure]
  by_cases hjni : ref.kind = .jniLocal
  · have hown : pr.jniMethodText ref.info.method ++
        (hexadecimal 64 ref.info.threadId ++ ")".toList) = text := by
      simpa [Printer.ownText, hjni] using htext
    have hmessage : pr.message nodes ref = .ok (some "JNI global reference".toList) := by
      rw [Printer.message, hjni]
      rfl
    refine iff_of_false (fun h => ?_) fun hfull => hfull.1 hjni
    rw [hmessage] at h
    exact jniMethodText_ne _ _ (hown.trans (Option.some.inj (Except.ok.inj h)).symm)
  exact iff_of_true (message_eq_ownText htext hindex hstack hjni)
    ⟨hjni, fun h => absurd h hstack⟩

theorem printsOwnText_iff_message {objectsWithTag : ℕ → List Obj}
    {nodes nodes' : CHeap (MemoryNode Obj)} {ref : MemoryReferer} {text : Str}
    (hlookup : ref.node.elim (.ok nodes) (fun node =>
      fillClassInMemoryNode pr.jvm objectsWithTag node nodes) = .ok nodes') :
    PrintsOwnText pr objectsWithTag nodes ref text ↔ pr.message nodes' ref = .ok (some text) := by
  rw [PrintsOwnText, Printer.printSingleReference, hlookup, Run.ok_bind]
  cases pr.message nodes' ref with
  | error fault => simp [bind, Except.bind]
  | ok msg => cases msg <;> simp [bind, Except.bind, pure, Except.pure]

/-- A reference is printed as one element with its own text if and only if it is no JNI local reference
and the numbers of a local variable fit. -/
theorem reference_text_iff (pr : Printer Obj) (objectsWithTag : ℕ → List Obj)
    {nodes nodes' : CHeap (MemoryNode Obj)} (ref : MemoryReferer) {text : Str}
    (hlookup : ref.node.elim (.ok nodes) (fun node =>
      fillClassInMemoryNode pr.jvm objectsWithTag node nodes) = .ok nodes')
    (htext : pr.ownText nodes' ref = some text)
    (hindex : -2 ^ 31 ≤ ref.info.index ∧ ref.info.index < 2 ^ 31)
    (hid : -2 ^ 63 ≤ ref.info.threadId ∧ ref.info.threadId < 2 ^ 63) :
    PrintsOwnText pr objectsWithTag nodes ref text ↔ PrintsInFull pr ref :=
  (printsOwnText_iff_message hlookup).trans (message_iff htext hindex hid)

/-- The receiver of a method, in a thread whose id is small. -/
theorem reference_text_receiver : PrintsOwnText Sample.printer (fun _ => []) .empty
    ⟨.stackLocal, { threadId := 4660 }, none⟩
    "'this' reference on invocation of method java.util.HashMap.run(I)V (thread ID 1234)".toList :=
  (reference_text_iff Sample.printer (fun _ => []) ⟨.stackLocal, { threadId := 4660 }, none⟩
    rfl (by decide) (by decide) (by decide)).2 ⟨by decide, fun _ => by decide⟩

/-- A JNI local reference, and an argument in a thread whose id is an address. -/
theorem reference_text_lost :
    (∃ text, Sample.printer.ownText .empty ⟨.jniLocal, { threadId := 4660 }, none⟩ = some text ∧
      ¬ PrintsOwnText Sample.printer (fun _ => []) .empty ⟨.jniLocal, { threadId := 4660 }, none⟩
        text) ∧
    ∃ text, Sample.printer.ownText .empty
        ⟨.stackLocal, { slot := 1, threadId := 140245324322304 }, none⟩ = some text ∧
      ¬ PrintsOwnText Sample.printer (fun _ => []) .empty
        ⟨.stackLocal, { slot := 1, threadId := 140245324322304 }, none⟩ text := by
  refine ⟨⟨_, rfl, ?_⟩, ⟨_, rfl, ?_⟩⟩
  · rw [printsOwnText_iff_message rfl]
    decide
  · rw [printsOwnText_iff_message rfl]
    decide

end JLeaker
