import JLeaker.Proof.Relay
import JLeaker.Proof.XmlReport

/-!
# The report reaches the user

The dumper thread writes the report to the launcher, whose server thread decodes it and prints it line by
line.  If the charset of the launcher gives the bytes of the report back, what `System.out` gets are the
first bytes of the report, and in the end the user has got the document.
-/

namespace JLeaker

open CString
open Xml (Content)

/-! ## Texts that a charset gives back -/

/-- Decoded, the text has line feeds for line ends and one at its end; encoded again, it is what it
was. -/
def Charset.GivesBack (cs : Charset) (text : Str) : Prop :=
  ∃ chars, cs.decoder.Turns text chars ∧ cs.encoder.Turns chars text ∧ '\r' ∉ chars ∧
    chars.getLast? = some '\n'

theorem Charset.givesBack_of_keeps {cs : Charset} {text : Str} (keeps : ∀ c ∈ text, cs.Keeps c)
    (noCR : '\r' ∉ text) (ends : text.getLast? = some '\n') : cs.GivesBack text :=
  ⟨text, Transducer.Turns.self fun c hc => (keeps c hc).1,
    Transducer.Turns.self fun c hc => (keeps c hc).2, noCR, ends⟩

/-- What is printed of such a text, with line feeds, and the lines that are left. -/
theorem Charset.GivesBack.encoded {cs : Charset} {text : Str} (givesBack : cs.GivesBack text)
    {printed rest : List Str} (parts : printed ++ rest = Rendezvous.linesOf cs text) :
    cs.encoder.more [] (LineText.unlines ['\n'] printed) ++
      cs.encoder.more (LineText.unlines ['\n'] printed) (LineText.unlines ['\n'] rest) = text := by
  obtain ⟨chars, decoded, encoded, noCR, ends⟩ := givesBack
  unfold Rendezvous.linesOf at parts
  rw [decoded.convert, LineText.normalize_of_not_mem noCR] at parts
  have whole : LineText.unlines ['\n'] printed ++ LineText.unlines ['\n'] rest = chars := by
    rw [← LineText.unlines_append, parts]
    exact LineText.unlines_lines fun _ => ends
  have more := cs.encoder.more_append [] (LineText.unlines ['\n'] printed)
    (LineText.unlines ['\n'] rest)
  rw [whole, encoded.1] at more
  exact more.symm

namespace Rendezvous

variable {cs : Charset} {report : Str} {s : Rendezvous}

/-- What `System.out` has got are the first bytes of the report. -/
theorem Sound.stdout_prefix (sound : Sound cs report s)
    (agent : ∀ c ∈ s.connections, c.fromAgent = true) (givesBack : cs.GivesBack report) :
    s.stdout cs ['\n'] <+: report := by
  obtain ⟨rest, parts⟩ := sound.printed_prefix agent
  exact ⟨_, givesBack.encoded parts⟩

/-- In the end it has got all of them. -/
theorem Sound.stdout_all (sound : Sound cs report s) (agent : ∀ c ∈ s.connections, c.fromAgent = true)
    (givesBack : cs.GivesBack report) (started : s.wasStarted = true) (null : s.serverSock = none) :
    s.stdout cs ['\n'] = report := by
  have parts : s.printed ++ [] = linesOf cs report := by
    rw [List.append_nil, sound.printed_all agent started null]
  have bytes := givesBack.encoded parts
  rwa [show LineText.unlines ['\n'] ([] : List Str) = [] from rfl, Transducer.more_nil,
    List.append_nil] at bytes

end Rendezvous

/-! ## Reports with plain values -/

theorem plain_ne_cr {c : Char} (plain : IsPlain c) : c ≠ '\r' := by
  rintro rfl
  exact absurd (plain.space rfl) (by decide)

/-- Escaping adds no carriage return. -/
theorem escapeString_noCR {v : Str} (plain : ∀ c ∈ v, IsPlain c) : ∀ c ∈ escapeString v, c ≠ '\r' := by
  rw [escapeString_eq]
  intro c hc
  obtain ⟨d, hd, hc⟩ := List.mem_flatMap.1 hc
  split_ifs at hc
  · rintro rfl
    exact absurd hc (by decide)
  · rw [List.mem_singleton.1 hc]
    exact plain_ne_cr (plain d hd)

/-- A report with plain values has no carriage return. -/
theorem report_noCR {content : Content} (named : content.Named) (plain : PlainContent content) :
    '\r' ∉ declaration ++ '\n' :: (content.mapValues escapeString).print 0 := by
  have values : (content.mapValues escapeString).All fun a => ∀ c ∈ a.2, c ≠ '\r' :=
    Content.mapValues_all_of _ (fun a ha => escapeString_noCR ha) plain
  have names : ∀ c, Xml.isNameChar c = true → c ≠ '\r' := by
    rintro c hc rfl
    exact absurd hc (by decide)
  have markup : ∀ c ∈ "\t\n</>=\" ".toList, c ≠ '\r' := by
    rintro c hc rfl
    exact absurd hc (by decide)
  intro mem
  rcases List.mem_append.1 mem with mem | mem
  · exact absurd mem (by decide)
  rcases List.mem_cons.1 mem with eq | mem
  · exact absurd eq (by decide)
  · exact Content.print_forall markup names (Content.mapValues_named _ named) values 0 _ mem rfl

/-- The report ends with the line feed after its last tag. -/
theorem getLast?_report (contents : Content) :
    (declaration ++ '\n' ::
      (Content.element "memory-leaks".toList [] contents .nil).print 0).getLast? = some '\n' := by
  have last : ∀ s : Str, (s ++ ("</".toList ++ "memory-leaks".toList ++ ">\n".toList)).getLast? =
      some '\n' := by
    intro s
    rw [List.getLast?_append]
    rfl
  rw [Content.print, Content.print, List.append_nil, ← List.cons_append, ← List.append_assoc]
  exact last _

section

variable {Obj : Type} [DecidableEq Obj] (methods : JavaMethods Obj) (numElementsToDump : ℤ)
  (f : OutputStream) (pr : Printer Obj)

/-- The report that a dump writes to the launcher reaches the user, if the charset gives it back, as one
does that keeps each byte of it if the values are plain: whatever the threads do, if no other program
connects, `System.out` has got the first bytes of the report; and once the server thread has come to the
end without an exception, an XML reader gets the document from it exactly if the values are plain. -/
theorem report_reachesUser (env : Agent Obj) (objectsWithTag : ℕ → List Obj) (fuel : ℕ)
    (isNeedReferences : Bool) {lst : List LeakingNode} {st st' : ChainState Obj}
    {printed : List (Option (LeakingObject Obj))}
    (run : pr.printReferencesChainForLeakingNodes env objectsWithTag fuel isNeedReferences lst st =
      .ok (printed, st')) (descriptors : List ℕ) {text : Str} {xmlDepth : ℕ}
    (report : printReport methods f numElementsToDump (printedLeaks descriptors printed) =
      .ok (text, xmlDepth)) {cs : Charset} {events : List RendezvousEvent} {s : Rendezvous}
    (relayed : Rendezvous.init.after cs text events = .ok s)
    (agent : ∀ c ∈ s.connections, c.fromAgent = true) :
    ∃ content,
      reportContent methods numElementsToDump (printedLeaks descriptors printed) = .ok content ∧
      (PlainContent content → (∀ c ∈ text, cs.Keeps c) → cs.GivesBack text) ∧
      (cs.GivesBack text → s.stdout cs ['\n'] <+: text ∧
        (s.wasStarted = true → s.serverSock = none →
          (Xml.readDocument (s.stdout cs ['\n']) = some content ↔ PlainContent content))) := by
  have references := printedLeaks_isReferenceList pr run descriptors
  obtain ⟨-, content, hcontent, reads⟩ :=
    readDocument_printReport methods numElementsToDump f references report
  obtain ⟨named, contents, rfl⟩ := reportContent_named references hcontent
  have sound := Rendezvous.sound_after relayed
  refine ⟨_, hcontent, fun plain keeps => ?_, fun givesBack =>
    ⟨sound.stdout_prefix agent givesBack, fun started null => ?_⟩⟩
  · rw [printReport_eq, hcontent] at report
    cases report
    exact Charset.givesBack_of_keeps keeps (report_noCR named plain) (getLast?_report _)
  · rw [sound.stdout_all agent givesBack started null]
    exact reads

end

/-- The launcher waits, the dumper thread writes its report in two parts, and the server thread prints
the 24 lines of it. -/
def Sample.relayedReport : List RendezvousEvent :=
  [.launcher, .launcher, .launcher, .server 4711, .server 0, .server 0, .server 0, .launcher,
    .launcher, .launcher, .launcher, .dumper 0, .dumper 499, .dumper 9999, .dumper 0, .server 0,
    .server 0] ++ List.replicate 27 (.server 0)

/-- Whether the text is all ASCII and is relayed to its end, with no connection but the agent's. -/
def Sample.isRelayed (text : Str) : Bool :=
  text.all (fun c => c.toNat < 128) &&
    (Rendezvous.init.after usAscii text relayedReport).toOption.any fun s =>
      s.connections.all (fun c => c.fromAgent) && (s.wasStarted && s.serverSock.isNone)

theorem report_reachesUser_sharedHolder :
    ∃ printed st' text xmlDepth s content, Sample.printedSharing = .ok (printed, st') ∧
      printReport Sample.javaMethods .file 5 (printedLeaks [0, 0] printed) = .ok (text, xmlDepth) ∧
      Rendezvous.init.after Sample.usAscii text Sample.relayedReport = .ok s ∧
      Xml.readDocument (s.stdout Sample.usAscii ['\n']) = some content := by
  obtain ⟨⟨printed, st'⟩, print, h⟩ := Run.exists_ok_of_any (x := Sample.printedSharing)
    (p := fun p =>
      (printReport Sample.javaMethods .file 5 (printedLeaks [0, 0] p.1)).toOption.any fun r =>
        (reportContent Sample.javaMethods 5 (printedLeaks [0, 0] p.1)).toOption.any fun content =>
          decide (Xml.readDocument r.1 = some content) && Sample.isRelayed r.1) (by decide +kernel)
  obtain ⟨dumped, -, printed'⟩ := Run.bind_eq_ok.1 print
  obtain ⟨⟨text, xmlDepth⟩, report, h⟩ := Run.exists_ok_of_any h
  obtain ⟨content, isContent, h⟩ := Run.exists_ok_of_any h
  obtain ⟨read, h⟩ := Bool.and_eq_true_iff.1 h
  obtain ⟨ascii, h⟩ := Bool.and_eq_true_iff.1 h
  obtain ⟨s, relayed, h⟩ := Run.exists_ok_of_any h
  obtain ⟨agent, ended⟩ := Bool.and_eq_true_iff.1 h
  obtain ⟨started, null⟩ := Bool.and_eq_true_iff.1 ended
  -- the values are plain, since the report itself is read as the document
  have references := printedLeaks_isReferenceList Sample.printer printed' [0, 0]
  obtain ⟨-, content₁, isContent₁, reads⟩ :=
    readDocument_printReport Sample.javaMethods 5 .file references report
  obtain rfl := Except.ok.inj (isContent.symm.trans isContent₁)
  have plain := reads.1 (of_decide_eq_true read)
  obtain ⟨content₂, isContent₂, givesBack, reaches⟩ := report_reachesUser Sample.javaMethods 5 .file
    Sample.printer Sample.sharedHolder.agent (Sample.objectsWithTag dumped.tags)
      (dumped.nodes.dom.card + 1) true printed' [0, 0] report relayed (List.all_eq_true.1 agent)
  obtain rfl := Except.ok.inj (isContent.symm.trans isContent₂)
  have keeps : ∀ c ∈ text, Sample.usAscii.Keeps c := fun c hc =>
    Sample.usAscii_keeps (of_decide_eq_true (List.all_eq_true.1 ascii c hc))
  exact ⟨printed, st', text, xmlDepth, s, content, print, report, relayed,
    ((reaches (givesBack plain keeps)).2 started (Option.isNone_iff_eq_none.1 null)).2 plain⟩

end JLeaker
