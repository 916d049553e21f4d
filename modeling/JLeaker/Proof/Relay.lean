import JLeaker.Proof.Rendezvous

/-!
# What the launcher prints

The server thread prints the lines of the connection it has accepted, in order and each once, however
the text arrives; when it ends without an exception it has printed all of them.  If only the agent
connects, they are the lines of its report.
-/

namespace JLeaker

open CString LineText

/-- Before the server thread reads. -/
def ServerPhase.beforeRelay : ServerPhase → Bool
  | .notStarted | .openSocket | .enterMonitor | .setStarted | .notifyAll | .accept
  | .closeServerSock _ => true
  | .readLine _ | .clearServerSock | .closeAll | .done => false

/-! ## Charsets -/

/-- A byte and a character that stand for each other wherever a character may begin. -/
def Charset.Keeps (cs : Charset) (c : Char) : Prop :=
  cs.decoder.Turns [c] [c] ∧ cs.encoder.Turns [c] [c]

theorem Charset.convert_of_keeps (cs : Charset) {text : Str} (keeps : ∀ c ∈ text, cs.Keeps c) :
    cs.decoder.convert text = text := (Transducer.Turns.self fun c hc => (keeps c hc).1).convert

theorem Sample.usAscii_keeps {c : Char} (ascii : c.toNat < 128) : Sample.usAscii.Keeps c := by
  have decoded : Sample.usAscii.decoder.more [] [c] = [c] := congrArg ([·]) (if_pos ascii)
  have encoded : Sample.usAscii.encoder.more [] [c] = [c] := congrArg ([·]) (if_pos ascii)
  exact ⟨⟨decoded, rfl⟩, encoded, rfl⟩

/-- Other bytes are lost. -/
example : Sample.usAscii.encoder.convert (Sample.usAscii.decoder.convert ['\u00E9']) = ['?'] := by
  decide

namespace Rendezvous

variable {cs : Charset} {report : Str} {s s' : Rendezvous}

/-! ## The connections while they are written -/

/-- The characters still to come if the writer of a connection writes `more` and closes it. -/
def toCome (cs : Charset) (c : Connection) (more : Str) : Str :=
  if c.closed then [] else cs.decoder.more c.sent more ++ cs.decoder.flush (c.sent ++ more)

theorem toCome_closed {c : Connection} (closed : c.closed = true) (more : Str) :
    toCome cs c more = [] := if_pos closed

theorem toCome_open {c : Connection} (still : c.closed = false) (more : Str) :
    toCome cs c more = cs.decoder.more c.sent more ++ cs.decoder.flush (c.sent ++ more) :=
  if_neg (by simp [still])

/-- A connection later: its writer has appended some text, unless it was closed, and the characters that
have arrived since are the first that were to come. -/
structure Grows (cs : Charset) (c c' : Connection) (text : Str) : Prop where
  sent : c'.sent = c.sent ++ text
  closed : c.closed = true → text = [] ∧ c'.closed = true
  arrived : ∀ more, (c'.closed = true → more = []) →
    c.arrived ++ toCome cs c (text ++ more) = c'.arrived ++ toCome cs c' more

/-- None of the characters of the connection has been read. -/
def Untouched (cs : Charset) (c : Connection) : Prop :=
  ∀ more, (c.closed = true → more = []) →
    c.arrived ++ toCome cs c more = cs.decoder.convert (c.sent ++ more)

/-- All connections later, and new ones of which nothing has been read. -/
structure ConnectionsGrow (cs : Charset) (conns conns' : List Connection) : Prop where
  old : ∀ (i : ℕ) c, conns[i]? = some c → ∃ c' text, conns'[i]? = some c' ∧ Grows cs c c' text
  all : ∀ c' ∈ conns', (∃ c ∈ conns, ∃ text, Grows cs c c' text) ∨ Untouched cs c'

theorem Grows.refl (c : Connection) : Grows cs c c [] :=
  ⟨(List.append_nil _).symm, fun closed => ⟨rfl, closed⟩, fun _ _ => rfl⟩

theorem grows_write {c : Connection} (still : c.closed = false) (text : Str) :
    Grows cs c (c.write cs text) text := by
  refine ⟨rfl, fun closed => Bool.noConfusion (still.symm.trans closed), fun more _ => ?_⟩
  have still' : (c.write cs text).closed = false := still
  rw [toCome_open still, toCome_open still', Transducer.more_append]
  simp only [Connection.write, List.append_assoc]

theorem grows_close {c : Connection} (still : c.closed = false) : Grows cs c (c.close cs) [] := by
  refine ⟨(List.append_nil _).symm, fun closed => Bool.noConfusion (still.symm.trans closed),
    fun more ended => ?_⟩
  obtain rfl := ended rfl
  rw [toCome_open still, toCome_closed rfl, List.append_nil, Transducer.more_nil]
  simp only [Connection.close, List.append_nil, List.nil_append]

theorem untouched_new (fromAgent : Bool) : Untouched cs ⟨fromAgent, [], [], false⟩ :=
  fun _ _ => rfl

/-- What has been sent and what the writer of a connection still sends, while the connection grows. -/
theorem Grows.more {c c' : Connection} {text : Str} (grows : Grows cs c c' text) {more : Str}
    (ended : c'.closed = true → more = []) :
    c'.sent ++ more = c.sent ++ (text ++ more) ∧ (c.closed = true → text ++ more = []) := by
  refine ⟨by rw [grows.sent, List.append_assoc], fun closed => ?_⟩
  obtain ⟨rfl, closed'⟩ := grows.closed closed
  exact ended closed'

theorem Untouched.grows {c c' : Connection} {text : Str} (untouched : Untouched cs c)
    (grows : Grows cs c c' text) : Untouched cs c' := by
  intro more ended
  obtain ⟨sent, ended'⟩ := grows.more ended
  rw [← grows.arrived more ended, untouched _ ended', sent]

theorem ConnectionsGrow.modify {conns : List Connection} {conn : ℕ} {f : Connection → Connection}
    (grows : ∀ c, conns[conn]? = some c → ∃ text, Grows cs c (f c) text) :
    ConnectionsGrow cs conns (conns.modify conn f) := by
  have each : ∀ (i : ℕ) c, conns[i]? = some c →
      ∃ text, Grows cs c (if conn = i then f c else c) text := by
    intro i c hc
    split_ifs with eq
    · exact grows c (eq ▸ hc)
    · exact ⟨[], .refl c⟩
  refine ⟨fun i c hc => ?_, fun c' h => ?_⟩
  · obtain ⟨text, grows⟩ := each i c hc
    exact ⟨_, text, getElem?_modify_of_eq_some conn f hc, grows⟩
  · obtain ⟨i, hi⟩ := List.mem_iff_getElem?.1 h
    obtain ⟨c, hc, rfl⟩ := getElem?_modify_eq_some hi
    exact .inl ⟨c, List.mem_of_getElem? hc, each i c hc⟩

theorem ConnectionsGrow.append (conns : List Connection) {c : Connection} (new : Untouched cs c) :
    ConnectionsGrow cs conns (conns ++ [c]) where
  old i d hd := by
    have lt := (List.getElem?_eq_some_iff.1 hd).1
    exact ⟨d, [], by rwa [List.getElem?_append_left lt], .refl d⟩
  all c' h := by
    rcases List.mem_append.1 h with h | h
    · exact .inl ⟨c', h, [], .refl c'⟩
    · exact .inr (List.mem_singleton.1 h ▸ new)

theorem ConnectionsGrow.length_le {conns conns' : List Connection}
    (grow : ConnectionsGrow cs conns conns') {i : ℕ} (lt : i < conns.length) : i < conns'.length := by
  obtain ⟨c', -, hc', -⟩ := grow.old i conns[i] (List.getElem?_eq_getElem lt)
  exact (List.getElem?_eq_some_iff.1 hc').1

/-! ## What is printed -/

/-- The lines of some bytes. -/
def linesOf (cs : Charset) (bytes : Str) : List Str := lines (normalize (cs.decoder.convert bytes))

/-- The lines printed come first among those of the connection, whatever is still written. -/
def Relayed (cs : Charset) (printed : List Str) (c : Connection) : Prop :=
  ∀ more, (c.closed = true → more = []) → printed <+: linesOf cs (c.sent ++ more)

/-- What is printed and what is not make up the lines of the connection. -/
def Reading (cs : Charset) (printed : List Str) (skipLF : Bool) (c : Connection) : Prop :=
  ∀ more, (c.closed = true → more = []) →
    linesOf cs (c.sent ++ more) = printed ++ unread skipLF (c.arrived ++ toCome cs c more)

/-- The connection has ended, and all its lines are printed. -/
def AllPrinted (cs : Charset) (printed : List Str) (c : Connection) : Prop :=
  c.closed = true ∧ printed = linesOf cs c.sent

theorem Untouched.reading {c : Connection} (untouched : Untouched cs c) : Reading cs [] false c := by
  intro more ended
  rw [untouched more ended]
  rfl

theorem Reading.relayed {printed : List Str} {skipLF : Bool} {c : Connection}
    (reading : Reading cs printed skipLF c) : Relayed cs printed c := by
  intro more h
  rw [reading more h]
  exact List.prefix_append _ _

theorem AllPrinted.relayed {printed : List Str} {c : Connection} (all : AllPrinted cs printed c) :
    Relayed cs printed c := by
  intro more h
  have text : c.sent ++ more = c.sent := by rw [h all.1, List.append_nil]
  rw [text]
  exact all.2 ▸ List.prefix_rfl

theorem Reading.grows {printed : List Str} {skipLF : Bool} {c c' : Connection} {text : Str}
    (reading : Reading cs printed skipLF c) (grows : Grows cs c c' text) :
    Reading cs printed skipLF c' := by
  intro more ended
  obtain ⟨sent, ended'⟩ := grows.more ended
  rw [sent, reading _ ended', grows.arrived more ended]

theorem Relayed.grows {printed : List Str} {c c' : Connection} {text : Str}
    (relayed : Relayed cs printed c) (grows : Grows cs c c' text) : Relayed cs printed c' := by
  intro more ended
  obtain ⟨sent, ended'⟩ := grows.more ended
  rw [sent]
  exact relayed _ ended'

theorem AllPrinted.grows {printed : List Str} {c c' : Connection} {text : Str}
    (all : AllPrinted cs printed c) (grows : Grows cs c c' text) : AllPrinted cs printed c' := by
  obtain ⟨rfl, closed'⟩ := grows.closed all.1
  exact ⟨closed', by rw [all.2, grows.sent, List.append_nil]⟩

/-- A line is read and printed. -/
theorem Reading.line {printed : List Str} {skipLF skip : Bool} {c : Connection} {text rest : Str}
    (reading : Reading cs printed skipLF c)
    (line : readLine c.closed skipLF c.arrived = .line text skip rest) :
    Reading cs (printed ++ [text]) skip { c with arrived := rest } := by
  intro more h
  have next := reading more h
  rw [unread_of_line line _ fun closed => toCome_closed closed more] at next
  rw [List.append_assoc]
  exact next

theorem Reading.eof {printed : List Str} {skipLF : Bool} {c : Connection}
    (reading : Reading cs printed skipLF c) (eof : readLine c.closed skipLF c.arrived = .eof) :
    AllPrinted cs printed c := by
  obtain ⟨closed, nothing⟩ := unread_of_eof eof
  have all := reading [] fun _ => rfl
  rw [toCome_closed closed, List.append_nil, List.append_nil, nothing, List.append_nil] at all
  exact ⟨closed, all.symm⟩

/-! ## The invariant -/

/-- What is printed in each phase of the server thread. -/
structure Relay (cs : Charset) (s : Rendezvous) : Prop where
  backlog : ∀ conn ∈ s.backlog, conn < s.connections.length
  accepted : ∀ conn, s.server = .closeServerSock conn → conn < s.connections.length
  before : s.server.beforeRelay = true →
    s.printed = [] ∧ s.skipLF = false ∧ ∀ c ∈ s.connections, Untouched cs c
  reading : ∀ conn, s.server = .readLine conn →
    ∃ c, s.connections[conn]? = some c ∧ Reading cs s.printed s.skipLF c
  finished : s.server = .clearServerSock ∨ s.wasStarted = true ∧ s.serverSock = none →
    ∃ c ∈ s.connections, AllPrinted cs s.printed c
  stopped : s.server = .closeAll ∨ s.server = .done →
    s.printed = [] ∨ ∃ c ∈ s.connections, Relayed cs s.printed c

/-- Writers write, and nothing else happens. -/
theorem Relay.grow {conns : List Connection} (relay : Relay cs s)
    (grow : ConnectionsGrow cs s.connections conns) {backlog : List ℕ}
    (valid : ∀ conn ∈ backlog, conn < conns.length) {dumper : DumperPhase} :
    Relay cs { s with connections := conns, backlog := backlog, dumper := dumper } where
  backlog := valid
  accepted conn at_ := grow.length_le (relay.accepted conn at_)
  before early := by
    obtain ⟨printed, skipLF, untouched⟩ := relay.before early
    refine ⟨printed, skipLF, fun c' h => ?_⟩
    rcases grow.all c' h with ⟨c, hc, text, grows⟩ | new
    · exact (untouched c hc).grows grows
    · exact new
  reading conn at_ := by
    obtain ⟨c, hc, reading⟩ := relay.reading conn at_
    obtain ⟨c', text, hc', grows⟩ := grow.old conn c hc
    exact ⟨c', hc', reading.grows grows⟩
  finished ended := by
    obtain ⟨c, hc, all⟩ := relay.finished ended
    obtain ⟨i, hi⟩ := List.mem_iff_getElem?.1 hc
    obtain ⟨c', text, hc', grows⟩ := grow.old i c hi
    exact ⟨c', List.mem_of_getElem? hc', all.grows grows⟩
  stopped ended := by
    rcases relay.stopped ended with nothing | ⟨c, hc, relayed⟩
    · exact .inl nothing
    · obtain ⟨i, hi⟩ := List.mem_iff_getElem?.1 hc
      obtain ⟨c', text, hc', grows⟩ := grow.old i c hi
      exact .inr ⟨c', List.mem_of_getElem? hc', relayed.grows grows⟩

/-- Another connection, of which nothing has been read. -/
theorem Relay.connect (relay : Relay cs s) (fromAgent : Bool) {dumper : DumperPhase} :
    Relay cs { s.connect fromAgent with dumper := dumper } := by
  have grow : ConnectionsGrow cs s.connections (s.connections ++ [⟨fromAgent, [], [], false⟩]) :=
    .append _ (untouched_new fromAgent)
  refine relay.grow grow fun conn hconn => ?_
  rcases List.mem_append.1 hconn with h | h
  · exact grow.length_le (relay.backlog conn h)
  · rw [List.mem_singleton.1 h, List.length_append]
    exact Nat.lt_succ_self _

/-- The writer of a connection goes on. -/
theorem Relay.modifyConnection (relay : Relay cs s) {conn : ℕ} {c : Connection}
    {f : Connection → Connection} {text : Str} (get : s.connections[conn]? = some c)
    (grows : Grows cs c (f c) text) {dumper : DumperPhase} :
    Relay cs { s.modifyConnection conn f with dumper := dumper } := by
  have grow : ConnectionsGrow cs s.connections (s.connections.modify conn f) := by
    refine .modify fun d hd => ?_
    obtain rfl := Option.some.inj (get.symm.trans hd)
    exact ⟨text, grows⟩
  exact relay.grow grow fun conn' h => grow.length_le (relay.backlog conn' h)

theorem relay_init : Relay cs init where
  backlog conn h := absurd h List.not_mem_nil
  accepted conn at_ := by cases at_
  before _ := ⟨rfl, rfl, fun c h => absurd h List.not_mem_nil⟩
  reading conn at_ := by cases at_
  finished ended := by
    rcases ended with ended | ⟨ended, -⟩
    · cases ended
    · cases ended
  stopped ended := by
    rcases ended with ended | ended
    · cases ended
    · cases ended

/-- The main thread and the dumper thread move, or the server thread before it reads. -/
theorem Relay.keep (relay : Relay cs s) (backlog : s'.backlog ⊆ s.backlog)
    (connections : s'.connections = s.connections) (printed : s'.printed = s.printed)
    (skipLF : s'.skipLF = s.skipLF)
    (server : s'.server = s.server ∨ s.server.beforeRelay = true ∧ s'.server.beforeRelay = true ∧
      ∀ conn, s'.server = .closeServerSock conn → conn ∈ s.backlog)
    (finished : s'.wasStarted = true → s'.serverSock = none →
      s.wasStarted = true ∧ s.serverSock = none) : Relay cs s' where
  backlog conn h := by
    rw [connections]
    exact relay.backlog conn (backlog h)
  accepted conn at_ := by
    rw [connections]
    rcases server with same | ⟨-, -, accepted⟩
    · exact relay.accepted conn (same ▸ at_)
    · exact relay.backlog conn (accepted conn at_)
  before early := by
    rw [connections, printed, skipLF]
    rcases server with same | ⟨early', -, -⟩
    · exact relay.before (same ▸ early)
    · exact relay.before early'
  reading conn at_ := by
    rw [connections, printed, skipLF]
    rcases server with same | ⟨-, early, -⟩
    · exact relay.reading conn (same ▸ at_)
    · rw [at_] at early
      cases early
  finished ended := by
    rw [connections, printed]
    refine relay.finished ?_
    rcases ended with at_ | ⟨started, null⟩
    · rcases server with same | ⟨-, early, -⟩
      · exact .inl (same ▸ at_)
      · rw [at_] at early
        cases early
    · exact .inr (finished started null)
  stopped ended := by
    rw [connections, printed]
    rcases server with same | ⟨-, early, -⟩
    · exact relay.stopped (same ▸ ended)
    · rcases ended with at_ | at_
      · rw [at_] at early
        cases early
      · rw [at_] at early
        cases early

/-- The server thread moves before it accepts a connection. -/
theorem Relay.early (relay : Relay cs s) (others : s'.backlog = s.backlog ∧
      s'.connections = s.connections ∧ s'.printed = s.printed ∧ s'.skipLF = s.skipLF)
    (before : s.server.beforeRelay = true) (early : s'.server.beforeRelay = true)
    (accepted : ∀ conn, s'.server ≠ .closeServerSock conn)
    (finished : s'.wasStarted = true → s'.serverSock = none →
      s.wasStarted = true ∧ s.serverSock = none) : Relay cs s' := by
  obtain ⟨backlog, connections, printed, skipLF⟩ := others
  refine relay.keep ?_ connections printed skipLF
    (.inr ⟨before, early, fun conn at_ => absurd at_ (accepted conn)⟩) finished
  rw [backlog]
  exact List.Subset.refl _

/-- The server thread gives up. -/
theorem Relay.stop (relay : Relay cs s)
    (running : s.server.beforeRelay = true ∨ ∃ conn, s.server = .readLine conn) :
    Relay cs { s with server := .closeAll } where
  backlog := relay.backlog
  accepted conn at_ := by cases at_
  before early := by cases early
  reading conn at_ := by cases at_
  finished ended := by
    rcases ended with at_ | ended
    · cases at_
    · exact relay.finished (.inr ended)
  stopped _ := by
    rcases running with early | ⟨conn, at_⟩
    · exact .inl (relay.before early).1
    · obtain ⟨c, hc, reading⟩ := relay.reading conn at_
      exact .inr ⟨c, List.mem_of_getElem? hc, reading.relayed⟩

theorem Relay.moves {e : RendezvousEvent} (relay : Relay cs s) (h : Handshake s)
    (ok : WritersOk report s.dumper s.connections) (moves : Moves cs report s e s') : Relay cs s' := by
  have fields := h.fields
  cases moves with
  | startServer at_ =>
    have before : s.server.beforeRelay = true := by
      rw [h.begins.1 at_]
      rfl
    exact relay.early ⟨rfl, rfl, rfl, rfl⟩ before rfl nofun fun started null => ⟨started, null⟩
  | opens port at_ =>
    exact relay.early ⟨rfl, rfl, rfl, rfl⟩ (at_ ▸ rfl) rfl nofun nofun
  | serverEnters port at_ free =>
    exact relay.early ⟨rfl, rfl, rfl, rfl⟩ (at_ ▸ rfl) rfl nofun fun started null => ⟨started, null⟩
  | sets port at_ =>
    rw [at_] at fields
    refine relay.early ⟨rfl, rfl, rfl, rfl⟩ (at_ ▸ rfl) rfl nofun fun _ null => ?_
    -- the socket is open when the flag is set
    have sock := fields.2.1
    rw [show s.serverSock = none from null] at sock
    cases sock
  | notifies port at_ =>
    exact relay.early ⟨rfl, rfl, rfl, rfl⟩ (at_ ▸ rfl) rfl nofun fun started null => ⟨started, null⟩
  | accepts port conn rest at_ backlog =>
    refine relay.keep ?_ rfl rfl rfl (.inr ⟨?_, rfl, fun conn' at' => ?_⟩)
      fun started null => ⟨started, null⟩
    · rw [backlog]
      exact List.subset_cons_self conn rest
    · rw [at_]
      rfl
    · cases at'
      rw [backlog]
      exact List.mem_cons_self
  | closes port conn at_ =>
    rw [at_] at fields
    obtain ⟨printed, skipLF, untouched⟩ := relay.before (by rw [at_]; rfl)
    have lt := relay.accepted conn at_
    refine ⟨fun conn h => absurd h List.not_mem_nil, fun conn at' => (by cases at'),
      fun early => (by cases early), fun conn' at' => ?_, fun ended => ?_, fun ended => ?_⟩
    · cases at'
      refine ⟨_, List.getElem?_eq_getElem lt, ?_⟩
      rw [printed, skipLF]
      exact (untouched _ (List.getElem_mem lt)).reading
    · rcases ended with at' | ⟨-, null⟩
      · cases at'
      · have sock := fields.2.1
        rw [show s.serverSock = none from null] at sock
        cases sock
    · rcases ended with at' | at'
      · cases at'
      · cases at'
  | readsEof port conn c at_ get eof =>
    obtain ⟨d, hd, reading⟩ := relay.reading conn at_
    obtain rfl := Option.some.inj (get.symm.trans hd)
    refine ⟨relay.backlog, fun conn at' => (by cases at'), fun early => (by cases early),
      fun conn at' => (by cases at'), fun _ => ⟨c, List.mem_of_getElem? get, reading.eof eof⟩,
      fun ended => ?_⟩
    rcases ended with at' | at'
    · cases at'
    · cases at'
  | readsLine port conn c text skipLF rest at_ get line =>
    obtain ⟨d, hd, reading⟩ := relay.reading conn at_
    obtain rfl := Option.some.inj (get.symm.trans hd)
    rw [at_] at fields
    have lt := (List.getElem?_eq_some_iff.1 get).1
    refine ⟨fun conn' hconn => ?_, fun conn' at' => ?_, fun early => ?_, fun conn' at' => ?_,
      fun ended => ?_, fun ended => ?_⟩
    · show conn' < (s.connections.set conn _).length
      rw [List.length_set]
      exact relay.backlog conn' hconn
    · cases at_.symm.trans at'
    · rw [show s.server = _ from at_] at early
      cases early
    · cases at_.symm.trans at'
      exact ⟨_, List.getElem?_set_self lt, reading.line line⟩
    · rcases ended with at' | ⟨-, null⟩
      · cases at_.symm.trans at'
      · have sock := fields.2.1
        rw [show s.serverSock = none from null] at sock
        cases sock
    · rcases ended with at' | at'
      · cases at_.symm.trans at'
      · cases at_.symm.trans at'
  | clears port at_ =>
    have all := relay.finished (.inl at_)
    refine ⟨relay.backlog, fun conn at' => (by cases at'), fun early => (by cases early),
      fun conn at' => (by cases at'), fun _ => all, fun _ => ?_⟩
    obtain ⟨c, hc, all⟩ := all
    exact .inr ⟨c, hc, all.relayed⟩
  | closesAll port at_ =>
    refine ⟨fun conn h => absurd h List.not_mem_nil, fun conn at' => (by cases at'),
      fun early => (by cases early), fun conn at' => (by cases at'), fun ended => ?_,
      fun _ => relay.stopped (.inl at_)⟩
    rcases ended with at' | ended
    · cases at'
    · exact relay.finished (.inr ended)
  | timeout at_ => exact relay.stop (.inl (by rw [at_]; rfl))
  | socketFails at_ => exact relay.stop (.inl (by rw [at_]; rfl))
  | acceptFails at_ => exact relay.stop (.inl (by rw [at_]; rfl))
  | readFails conn at_ => exact relay.stop (.inr ⟨conn, at_⟩)
  | connects more port at_ listening => exact relay.connect true
  | foreignConnect port listening => exact relay.connect false
  | writes more conn c rest at_ =>
    rw [at_] at ok
    obtain ⟨⟨d, get, -, still, -⟩, -⟩ := ok
    exact relay.modifyConnection get (grows_write still _)
  | hangsUp more conn at_ =>
    rw [at_] at ok
    obtain ⟨⟨d, get, -, still, -⟩, -⟩ := ok
    exact relay.modifyConnection get (grows_close still)
  | foreignWrite conn text c get foreign still =>
    exact relay.modifyConnection get (grows_write still text)
  | foreignClose conn c get foreign still =>
    exact relay.modifyConnection get (grows_close still)
  | _ =>
    exact relay.keep (List.Subset.refl _) rfl rfl rfl (.inl rfl) fun started null => ⟨started, null⟩

/-! ## Every run -/

/-- What holds of every reachable state. -/
structure Sound (cs : Charset) (report : Str) (s : Rendezvous) : Prop where
  handshake : Handshake s
  writers : WritersOk report s.dumper s.connections
  relay : Relay cs s

theorem sound_after {events : List RendezvousEvent}
    (run : Rendezvous.init.after cs report events = .ok s) : Sound cs report s :=
  after_invariant (fun _ _ _ moves sound => ⟨sound.handshake.moves moves,
      sound.writers.moves sound.handshake moves,
      sound.relay.moves sound.handshake sound.writers moves⟩)
    ⟨handshake_init, fun _ h => absurd h List.not_mem_nil, relay_init⟩ run

/-- The text of a connection of the agent is the part of the report written so far; all of it, once the
connection is closed. -/
theorem WritersOk.sent {c : Connection} (ok : WritersOk report s.dumper s.connections)
    (hc : c ∈ s.connections) (agent : c.fromAgent = true) :
    ∃ rest, c.sent ++ rest = report ∧ (c.closed = true → rest = []) := by
  cases hd : s.dumper with
  | notStarted =>
    rw [hd] at ok
    exact Bool.noConfusion ((ok c hc).symm.trans agent)
  | connecting port =>
    rw [hd] at ok
    exact Bool.noConfusion ((ok c hc).symm.trans agent)
  | writing conn rest =>
    rw [hd] at ok
    obtain ⟨⟨d, hget, -, still, text⟩, only⟩ := ok
    obtain ⟨i, hi⟩ := List.mem_iff_getElem?.1 hc
    obtain rfl := only i c hi agent
    obtain rfl := Option.some.inj (hget.symm.trans hi)
    exact ⟨rest, text, fun closed => Bool.noConfusion (still.symm.trans closed)⟩
  | done =>
    rw [hd] at ok
    obtain ⟨closed, text⟩ := ok c hc agent
    exact ⟨[], by rw [List.append_nil, text], fun _ => rfl⟩

/-- What the server thread has printed comes from one connection. -/
theorem Sound.relayed (sound : Sound cs report s) :
    s.printed = [] ∨ ∃ c ∈ s.connections, Relayed cs s.printed c := by
  have relay := sound.relay
  by_cases early : s.server.beforeRelay = true
  · exact .inl (relay.before early).1
  cases hs : s.server with
  | readLine conn =>
    obtain ⟨c, hc, reading⟩ := relay.reading conn hs
    exact .inr ⟨c, List.mem_of_getElem? hc, reading.relayed⟩
  | clearServerSock =>
    obtain ⟨c, hc, all⟩ := relay.finished (.inl hs)
    exact .inr ⟨c, hc, all.relayed⟩
  | closeAll => exact relay.stopped (.inl hs)
  | done => exact relay.stopped (.inr hs)
  | _ =>
    rw [hs] at early
    exact absurd rfl early

/-- If only the agent has connected, the lines printed are first lines of the report. -/
theorem Sound.printed_prefix (sound : Sound cs report s)
    (agent : ∀ c ∈ s.connections, c.fromAgent = true) : s.printed <+: linesOf cs report := by
  rcases sound.relayed with nothing | ⟨c, hc, relayed⟩
  · rw [nothing]
    exact List.nil_prefix
  · obtain ⟨rest, text, closed⟩ := sound.writers.sent hc (agent c hc)
    rw [← text]
    exact relayed rest closed

/-- Once the server thread has come to the end without an exception, all of them are printed. -/
theorem Sound.printed_all (sound : Sound cs report s) (agent : ∀ c ∈ s.connections, c.fromAgent = true)
    (started : s.wasStarted = true) (null : s.serverSock = none) :
    s.printed = linesOf cs report := by
  obtain ⟨c, hc, closed, printed⟩ := sound.relay.finished (.inr ⟨started, null⟩)
  obtain ⟨rest, text, ended⟩ := sound.writers.sent hc (agent c hc)
  rw [ended closed, List.append_nil] at text
  rwa [text] at printed

end Rendezvous

open Rendezvous

/-- In every run: the main thread does not go on waiting after it was notified, and leaves the wait only
when the socket has been opened; the agent gets the port of that socket; and `getPort` throws only if
another program has connected first. -/
theorem rendezvous_safe {cs : Charset} {report : Str} {events : List RendezvousEvent} {s : Rendezvous}
    (run : Rendezvous.init.after cs report events = .ok s) :
    (s.launcher = .waiting → s.wasStarted = true → s.server = .notifyAll) ∧
      (s.launcher.passed = true → s.wasStarted = true) ∧
      (∀ port, s.launcher = .loadAgent port ∨ s.dumper = .connecting port →
        s.listening = none ∨ s.listening = some port) ∧
      (s.launcher = .nullPointer → ∃ c ∈ s.connections, c.fromAgent = false) := by
  have sound := sound_after run
  have h := sound.handshake
  refine ⟨h.waits, h.passed, fun port => Or.rec (h.loads port) (h.connects port), fun at_ => ?_⟩
  have started : s.wasStarted = true := h.passed (by rw [at_]; rfl)
  obtain ⟨c, hc, -⟩ := sound.relay.finished (.inr ⟨started, h.lost at_⟩)
  -- the dumper thread has not started, so the connection is not its own
  have idle : s.dumper = .notStarted := by
    by_contra hne
    exact absurd (at_.symm.trans (h.dumper hne)) (by simp)
  have foreign := sound.writers
  rw [idle] at foreign
  exact ⟨c, hc, foreign c hc⟩

theorem rendezvous_safe_handshake :
    ∃ s, Rendezvous.init.after Sample.usAscii Sample.sentReport Sample.handshake = .ok s ∧
      s.wasStarted = true := by
  obtain ⟨s, run, at_⟩ := Run.exists_ok_of_any
    (x := Rendezvous.init.after Sample.usAscii Sample.sentReport Sample.handshake)
    (p := fun s : Rendezvous => decide (s.launcher.passed = true)) (by decide +kernel)
  obtain ⟨-, passed, -⟩ := rendezvous_safe run
  exact ⟨s, run, passed (of_decide_eq_true at_)⟩

/-- In every run: the lines printed are first lines of what one connection is decoded to, and all of
its lines once the server thread has come to the end without an exception.  If only the agent has
connected, they are those of the report; and if the charset keeps the bytes of the report and those of
the line ends, the report is read as it was written from what `System.out` has got. -/
theorem rendezvous_relays {cs : Charset} {report : Str} {events : List RendezvousEvent} {s : Rendezvous}
    (run : Rendezvous.init.after cs report events = .ok s) :
    (s.printed = [] ∨ ∃ c ∈ s.connections, Relayed cs s.printed c) ∧
      (s.wasStarted = true → s.serverSock = none →
        ∃ c ∈ s.connections, AllPrinted cs s.printed c) ∧
      ((∀ c ∈ s.connections, c.fromAgent = true) →
        s.printed <+: linesOf cs report ∧
        (s.wasStarted = true → s.serverSock = none → s.printed = linesOf cs report ∧
          ∀ lineEnd, IsLineEnd lineEnd → (∀ c ∈ report ++ lineEnd, cs.Keeps c) →
            (normalize report).getLast? = some '\n' →
              normalize (s.stdout cs lineEnd) = normalize report)) := by
  have sound := sound_after run
  refine ⟨sound.relayed, fun started null => sound.relay.finished (.inr ⟨started, null⟩),
    fun agent => ⟨sound.printed_prefix agent, fun started null => ?_⟩⟩
  have printed := sound.printed_all agent started null
  refine ⟨printed, fun lineEnd isLineEnd keeps last => ?_⟩
  have decoded : linesOf cs report = lines (normalize report) := by
    unfold linesOf
    rw [cs.convert_of_keeps fun c hc => keeps c (List.mem_append_left _ hc)]
  unfold stdout
  rw [printed, decoded, (Transducer.Turns.self fun c hc => (keeps c ?_).2).1]
  · exact normalize_unlines_lines isLineEnd fun _ => last
  · exact List.mem_append.2 (mem_of_mem_unlines_lines hc)

theorem rendezvous_relays_handshake :
    ∃ s, Rendezvous.init.after Sample.usAscii Sample.sentReport Sample.handshake = .ok s ∧
      s.printed = linesOf Sample.usAscii Sample.sentReport ∧
      normalize (s.stdout Sample.usAscii ['\r', '\n']) = normalize Sample.sentReport := by
  obtain ⟨s, run, h⟩ := Run.exists_ok_of_any
    (x := Rendezvous.init.after Sample.usAscii Sample.sentReport Sample.handshake)
    (p := fun s : Rendezvous => s.connections.all (·.fromAgent) &&
      decide (s.wasStarted = true ∧ s.serverSock = none)) (by decide +kernel)
  obtain ⟨agent, ended⟩ := Bool.and_eq_true_iff.1 h
  obtain ⟨started, null⟩ := of_decide_eq_true ended
  obtain ⟨-, -, relays⟩ := rendezvous_relays run
  obtain ⟨-, all⟩ := relays (List.all_eq_true.1 agent)
  obtain ⟨printed, reads⟩ := all started null
  have ascii : (Sample.sentReport ++ ['\r', '\n']).all (fun c => c.toNat < 128) = true := by decide
  have keeps : ∀ c ∈ Sample.sentReport ++ ['\r', '\n'], Sample.usAscii.Keeps c := fun c hc =>
    Sample.usAscii_keeps (of_decide_eq_true (List.all_eq_true.1 ascii c hc))
  exact ⟨s, run, printed, reads _ (.inr (.inr rfl)) keeps (by decide)⟩

end JLeaker
