import JLeaker.Model.Rendezvous

/-!
# The handshake between launcher, server and agent

`Moves` says once what a step can do.  In every run the launcher gets past its wait exactly when the
socket is open, is never left waiting after the notification, and hands the agent the port that is open;
and when no thread can go on, all have ended, or the socket could not be opened, or another program
keeps its connection open.
-/

namespace JLeaker

open CString LineText

/-! ## What a step can do -/

/-- The main thread has left `waitForStart`. -/
def LauncherPhase.passed : LauncherPhase → Bool
  | .startServer | .enterMonitor | .testStarted | .waiting => false
  | .getPort | .loadAgent _ | .detached | .nullPointer | .rejected => true

namespace Rendezvous

variable {cs : Charset} {report : Str} {s s' : Rendezvous}

/-- The steps, one constructor for each line of the sources that takes one. -/
inductive Moves (cs : Charset) (report : Str) (s : Rendezvous) : RendezvousEvent → Rendezvous → Prop
  | startServer (at_ : s.launcher = .startServer) :
    Moves cs report s .launcher { s with launcher := .enterMonitor, server := .openSocket }
  | launcherEnters (at_ : s.launcher = .enterMonitor) (free : s.monitor = none) :
    Moves cs report s .launcher { s with launcher := .testStarted, monitor := some .launcher }
  | passes (at_ : s.launcher = .testStarted) (started : s.wasStarted = true) :
    Moves cs report s .launcher { s with launcher := .getPort, monitor := none }
  | waits (at_ : s.launcher = .testStarted) (started : s.wasStarted = false) :
    Moves cs report s .launcher { s with launcher := .waiting, monitor := none }
  | nullPointer (at_ : s.launcher = .getPort) (null : s.serverSock = none) :
    Moves cs report s .launcher { s with launcher := .nullPointer }
  | getPort (port : ℕ) (at_ : s.launcher = .getPort) (sock : s.serverSock = some port) :
    Moves cs report s .launcher { s with launcher := .loadAgent port }
  | loadAgent (port : ℕ) (at_ : s.launcher = .loadAgent port) :
    Moves cs report s .launcher { s with launcher := .detached, dumper := .connecting port }
  | opens (port : ℕ) (at_ : s.server = .openSocket) :
    Moves cs report s (.server port)
      { s with server := .enterMonitor, serverSock := some port, listening := some port }
  | serverEnters (port : ℕ) (at_ : s.server = .enterMonitor) (free : s.monitor = none) :
    Moves cs report s (.server port) { s with server := .setStarted, monitor := some .server }
  | sets (port : ℕ) (at_ : s.server = .setStarted) :
    Moves cs report s (.server port) { s with server := .notifyAll, wasStarted := true }
  | notifies (port : ℕ) (at_ : s.server = .notifyAll) :
    Moves cs report s (.server port) { s with
      server := .accept
      launcher := if s.launcher = .waiting then .enterMonitor else s.launcher
      monitor := none }
  | accepts (port conn : ℕ) (rest : List ℕ) (at_ : s.server = .accept)
      (backlog : s.backlog = conn :: rest) :
    Moves cs report s (.server port) { s with server := .closeServerSock conn, backlog := rest }
  | closes (port conn : ℕ) (at_ : s.server = .closeServerSock conn) :
    Moves cs report s (.server port)
      { s with server := .readLine conn, listening := none, backlog := [] }
  | readsEof (port conn : ℕ) (c : Connection) (at_ : s.server = .readLine conn)
      (get : s.connections[conn]? = some c) (eof : readLine c.closed s.skipLF c.arrived = .eof) :
    Moves cs report s (.server port) { s with server := .clearServerSock }
  | readsLine (port conn : ℕ) (c : Connection) (text : List Char) (skipLF : Bool) (rest : List Char)
      (at_ : s.server = .readLine conn) (get : s.connections[conn]? = some c)
      (line : readLine c.closed s.skipLF c.arrived = .line text skipLF rest) :
    Moves cs report s (.server port) { s with
      connections := s.connections.set conn { c with arrived := rest }
      skipLF := skipLF
      printed := s.printed ++ [text] }
  | clears (port : ℕ) (at_ : s.server = .clearServerSock) :
    Moves cs report s (.server port) { s with server := .closeAll, serverSock := none }
  | closesAll (port : ℕ) (at_ : s.server = .closeAll) :
    Moves cs report s (.server port) { s with server := .done, listening := none, backlog := [] }
  | timeout (at_ : s.server = .accept) : Moves cs report s .timeout { s with server := .closeAll }
  | connects (more port : ℕ) (at_ : s.dumper = .connecting port)
      (listening : s.listening = some port) :
    Moves cs report s (.dumper more)
      { s.connect true with dumper := .writing s.connections.length report }
  | refused (more port : ℕ) (at_ : s.dumper = .connecting port)
      (listening : s.listening ≠ some port) :
    Moves cs report s (.dumper more) { s with dumper := .done }
  | writes (more conn : ℕ) (c : Char) (rest : Str) (at_ : s.dumper = .writing conn (c :: rest)) :
    Moves cs report s (.dumper more)
      { s.modifyConnection conn (Connection.write cs ((c :: rest).take (more + 1))) with
        dumper := .writing conn ((c :: rest).drop (more + 1)) }
  | hangsUp (more conn : ℕ) (at_ : s.dumper = .writing conn []) :
    Moves cs report s (.dumper more)
      { s.modifyConnection conn (Connection.close cs) with dumper := .done }
  | wake (at_ : s.launcher = .waiting) : Moves cs report s .wake { s with launcher := .enterMonitor }
  | socketFails (at_ : s.server = .openSocket) :
    Moves cs report s .socketFails { s with server := .closeAll }
  | acceptFails (at_ : s.server = .accept) : Moves cs report s .ioError { s with server := .closeAll }
  | readFails (conn : ℕ) (at_ : s.server = .readLine conn) :
    Moves cs report s .ioError { s with server := .closeAll }
  | reject (port : ℕ) (at_ : s.launcher = .loadAgent port) :
    Moves cs report s .reject { s with launcher := .rejected }
  | stayOut (port : ℕ) (at_ : s.dumper = .connecting port) :
    Moves cs report s .stayOut { s with dumper := .done }
  | foreignConnect (port : ℕ) (listening : s.listening = some port) :
    Moves cs report s .foreignConnect (s.connect false)
  | foreignWrite (conn : ℕ) (text : Str) (c : Connection) (get : s.connections[conn]? = some c)
      (foreign : c.fromAgent = false) (still : c.closed = false) :
    Moves cs report s (.foreignWrite conn text) (s.modifyConnection conn (Connection.write cs text))
  | foreignClose (conn : ℕ) (c : Connection) (get : s.connections[conn]? = some c)
      (foreign : c.fromAgent = false) (still : c.closed = false) :
    Moves cs report s (.foreignClose conn) (s.modifyConnection conn (Connection.close cs))

theorem stepLauncher_moves (h : s.stepLauncher = .ok s') : Moves cs report s .launcher s' := by
  unfold stepLauncher at h
  split at h
  · next at_ => cases h; exact .startServer at_
  · next at_ =>
    split_ifs at h with free
    cases h
    exact .launcherEnters at_ free
  · next at_ =>
    split_ifs at h with started
    · cases h; exact .passes at_ started
    · cases h; exact .waits at_ (eq_false_of_ne_true started)
  · next at_ =>
    split at h
    · next null => cases h; exact .nullPointer at_ null
    · next port sock => cases h; exact .getPort port at_ sock
  · next port at_ => cases h; exact .loadAgent port at_
  all_goals cases h

theorem stepServer_moves {port : ℕ} (h : s.stepServer port = .ok s') :
    Moves cs report s (.server port) s' := by
  unfold stepServer at h
  split at h
  · next at_ => cases h; exact .opens port at_
  · next at_ =>
    split_ifs at h with free
    cases h
    exact .serverEnters port at_ free
  · next at_ => cases h; exact .sets port at_
  · next at_ => cases h; exact .notifies port at_
  · next at_ =>
    split at h
    · cases h
    · next conn rest backlog => cases h; exact .accepts port conn rest at_ backlog
  · next conn at_ => cases h; exact .closes port conn at_
  · next conn at_ =>
    split at h
    · cases h
    · next c get =>
      unfold relayLine at h
      split at h
      · cases h
      · next eof => cases h; exact .readsEof port conn c at_ get eof
      · next text skipLF rest line =>
        cases h
        exact .readsLine port conn c text skipLF rest at_ get line
  · next at_ => cases h; exact .clears port at_
  · next at_ => cases h; exact .closesAll port at_
  all_goals cases h

theorem stepDumper_moves {more : ℕ} (h : s.stepDumper cs report more = .ok s') :
    Moves cs report s (.dumper more) s' := by
  unfold stepDumper at h
  split at h
  · next port at_ =>
    split_ifs at h with listening
    · cases h; exact .connects more port at_ listening
    · cases h; exact .refused more port at_ listening
  · next conn at_ => cases h; exact .hangsUp more conn at_
  · next conn c rest at_ => cases h; exact .writes more conn c rest at_
  all_goals cases h

theorem stepForeign_eq_ok {conn : ℕ} {f : Connection → Connection}
    (h : s.stepForeign conn f = .ok s') : ∃ c, s.connections[conn]? = some c ∧
      c.fromAgent = false ∧ c.closed = false ∧ s' = s.modifyConnection conn f := by
  unfold stepForeign at h
  split at h
  · cases h
  · next c get =>
    split_ifs at h with busy
    rw [Bool.or_eq_true, not_or, Bool.not_eq_true, Bool.not_eq_true] at busy
    cases h
    exact ⟨c, get, busy.1, busy.2, rfl⟩

theorem step_moves {e : RendezvousEvent} (h : s.step cs report e = .ok s') : Moves cs report s e s' := by
  cases e with
  | launcher => exact stepLauncher_moves h
  | server port => exact stepServer_moves h
  | timeout =>
    simp only [step] at h
    split_ifs at h with at_
    cases h
    exact .timeout at_
  | dumper more => exact stepDumper_moves h
  | wake =>
    simp only [step] at h
    split_ifs at h with at_
    cases h
    exact .wake at_
  | socketFails =>
    simp only [step] at h
    split_ifs at h with at_
    cases h
    exact .socketFails at_
  | ioError =>
    simp only [step] at h
    split at h
    · next at_ => cases h; exact .acceptFails at_
    · next conn at_ => cases h; exact .readFails conn at_
    · cases h
  | reject =>
    simp only [step] at h
    split at h
    · next port at_ => cases h; exact .reject port at_
    · cases h
  | stayOut =>
    simp only [step] at h
    split at h
    · next port at_ => cases h; exact .stayOut port at_
    · cases h
  | foreignConnect =>
    simp only [step] at h
    split_ifs at h with listening
    obtain ⟨port, hport⟩ := Option.isSome_iff_exists.1 listening
    cases h
    exact .foreignConnect port hport
  | foreignWrite conn text =>
    obtain ⟨c, get, foreign, still, rfl⟩ := stepForeign_eq_ok h
    exact .foreignWrite conn text c get foreign still
  | foreignClose conn =>
    obtain ⟨c, get, foreign, still, rfl⟩ := stepForeign_eq_ok h
    exact .foreignClose conn c get foreign still

/-- What every step preserves holds after every run. -/
theorem after_invariant {I : Rendezvous → Prop}
    (preserved : ∀ s e s', Moves cs report s e s' → I s → I s') (init : I .init)
    {events : List RendezvousEvent} (run : Rendezvous.init.after cs report events = .ok s) : I s :=
  Run.foldlM_invariant (P := fun _ _ => True)
    (fun s e s' hs _ h => preserved s e s' (step_moves h) hs)
    (Run.meets_of_forall (fun _ _ _ => trivial) _) init run

/-! ## The handshake -/

/-- The fields of the server in each of its phases. -/
def ServerOk : ServerPhase → Bool → Option ℕ → Option ℕ → Prop
  | .notStarted, started, sock, listening | .openSocket, started, sock, listening =>
    started = false ∧ sock = none ∧ listening = none
  | .enterMonitor, started, sock, listening | .setStarted, started, sock, listening =>
    started = false ∧ sock.isSome = true ∧ listening = sock
  | .notifyAll, started, sock, listening | .accept, started, sock, listening
  | .closeServerSock _, started, sock, listening =>
    started = true ∧ sock.isSome = true ∧ listening = sock
  | .readLine _, started, sock, listening | .clearServerSock, started, sock, listening =>
    started = true ∧ sock.isSome = true ∧ listening = none
  | .closeAll, started, sock, listening =>
    (started = false → sock = none) ∧ (listening = none ∨ listening = sock)
  | .done, started, sock, listening => (started = false → sock = none) ∧ listening = none

/-- Who is where, and what that says of the fields. -/
structure Handshake (s : Rendezvous) : Prop where
  launcherOwns : s.monitor = some .launcher ↔ s.launcher = .testStarted
  serverOwns : s.monitor = some .server ↔ s.server = .setStarted ∨ s.server = .notifyAll
  begins : s.launcher = .startServer ↔ s.server = .notStarted
  fields : ServerOk s.server s.wasStarted s.serverSock s.listening
  waits : s.launcher = .waiting → s.wasStarted = true → s.server = .notifyAll
  passed : s.launcher.passed = true → s.wasStarted = true
  loads : ∀ port, s.launcher = .loadAgent port → s.listening = none ∨ s.listening = some port
  connects : ∀ port, s.dumper = .connecting port → s.listening = none ∨ s.listening = some port
  dumper : s.dumper ≠ .notStarted → s.launcher = .detached
  lost : s.launcher = .nullPointer → s.serverSock = none

theorem handshake_init : Handshake init :=
  ⟨by simp [init], by simp [init], by simp [init], ⟨rfl, rfl, rfl⟩, by simp [init],
    by simp [init, LauncherPhase.passed], by simp [init], by simp [init], by simp [init],
    by simp [init]⟩

theorem ServerOk.listening {server : ServerPhase} {started : Bool} {sock listening : Option ℕ}
    (ok : ServerOk server started sock listening) : listening = none ∨ listening = sock := by
  cases server with
  | notStarted => exact .inl ok.2.2
  | openSocket => exact .inl ok.2.2
  | enterMonitor => exact .inr ok.2.2
  | setStarted => exact .inr ok.2.2
  | notifyAll => exact .inr ok.2.2
  | accept => exact .inr ok.2.2
  | closeServerSock conn => exact .inr ok.2.2
  | readLine conn => exact .inl ok.2.2
  | clearServerSock => exact .inl ok.2.2
  | closeAll => exact ok.2
  | done => exact .inl ok.2

/-- Before the socket is open the main thread has not left `waitForStart`. -/
theorem Handshake.notPassed (h : Handshake s) (started : s.wasStarted = false) :
    s.launcher.passed = false ∧ s.dumper = .notStarted := by
  have notPassed : s.launcher.passed = false :=
    eq_false_of_ne_true fun passed => Bool.noConfusion (started.symm.trans (h.passed passed))
  refine ⟨notPassed, ?_⟩
  by_contra hne
  rw [h.dumper hne] at notPassed
  cases notPassed

/-- The server thread is neither unstarted nor inside the monitor. -/
def outside : ServerPhase → Bool
  | .notStarted | .setStarted | .notifyAll => false
  | _ => true

theorem ne_of_outside {server : ServerPhase} (out : outside server = true) :
    server ≠ .notStarted ∧ server ≠ .setStarted ∧ server ≠ .notifyAll := by
  refine ⟨?_, ?_, ?_⟩
  · rintro rfl
    cases out
  · rintro rfl
    cases out
  · rintro rfl
    cases out

/-- A step of the server thread outside the monitor. -/
theorem Handshake.serverMoves (h : Handshake s) {server : ServerPhase} {sock listening : Option ℕ}
    (backlog : List ℕ) (out : outside s.server = true) (out' : outside server = true)
    (fields : ServerOk server s.wasStarted sock listening)
    (listens : listening = none ∨ listening = s.listening)
    (lost : s.serverSock = none → sock = none) :
    Handshake { s with server, serverSock := sock, listening, backlog } := by
  obtain ⟨unstarted, set, notify⟩ := ne_of_outside out
  obtain ⟨unstarted', set', notify'⟩ := ne_of_outside out'
  have listens' : ∀ port, (s.listening = none ∨ s.listening = some port) →
      listening = none ∨ listening = some port := by
    intro port here
    rcases listens with eq | eq
    · exact .inl eq
    · rwa [eq]
  exact { h with
    serverOwns := iff_of_false (fun owner => (h.serverOwns.1 owner).elim set notify)
      fun here => here.elim set' notify'
    begins := iff_of_false (fun begins => unstarted (h.begins.1 begins)) unstarted'
    fields := fields
    waits := fun waiting started => absurd (h.waits waiting started) notify
    loads := fun port at_ => listens' port (h.loads port at_)
    connects := fun port at_ => listens' port (h.connects port at_)
    lost := fun null => lost (h.lost null) }

/-- A step of the main thread after the server thread has been started. -/
theorem Handshake.launcherMoves (h : Handshake s) {launcher : LauncherPhase}
    {monitor : Option MonitorOwner} (at_ : s.launcher ≠ .startServer ∧ s.launcher ≠ .detached)
    (begun : launcher ≠ .startServer)
    (owns : monitor = some .launcher ↔ launcher = .testStarted)
    (others : monitor = some .server ↔ s.monitor = some .server)
    (waits : launcher = .waiting → s.wasStarted = false)
    (passed : launcher.passed = true → s.wasStarted = true)
    (loads : ∀ port, launcher = .loadAgent port → s.listening = none ∨ s.listening = some port)
    (lost : launcher = .nullPointer → s.serverSock = none) :
    Handshake { s with launcher, monitor } :=
  { h with
    launcherOwns := owns
    serverOwns := others.trans h.serverOwns
    begins := iff_of_false begun fun unstarted => at_.1 (h.begins.2 unstarted)
    waits := fun waiting started => Bool.noConfusion ((waits waiting).symm.trans started)
    passed := passed
    loads := loads
    dumper := fun busy => absurd (h.dumper busy) at_.2
    lost := lost }

/-- The main thread goes on without the monitor. -/
theorem Handshake.launcherGoesOn (h : Handshake s) {launcher : LauncherPhase}
    (at_ : s.launcher ≠ .startServer ∧ s.launcher ≠ .detached ∧ s.launcher ≠ .testStarted)
    (here : launcher ≠ .startServer ∧ launcher ≠ .testStarted ∧ launcher ≠ .waiting)
    (passed : launcher.passed = true → s.wasStarted = true)
    (loads : ∀ port, launcher = .loadAgent port → s.listening = none ∨ s.listening = some port)
    (lost : launcher = .nullPointer → s.serverSock = none) :
    Handshake { s with launcher } :=
  h.launcherMoves ⟨at_.1, at_.2.1⟩ here.1
    (iff_of_false (fun owner => at_.2.2 (h.launcherOwns.1 owner)) here.2.1) Iff.rfl
    (fun waiting => absurd waiting here.2.2) passed loads lost

/-- The main thread leaves the monitor. -/
theorem Handshake.launcherLeaves (h : Handshake s) {launcher : LauncherPhase}
    (at_ : s.launcher = .testStarted)
    (here : launcher ≠ .startServer ∧ launcher ≠ .testStarted ∧ ∀ port, launcher ≠ .loadAgent port)
    (waits : launcher = .waiting → s.wasStarted = false)
    (passed : launcher.passed = true → s.wasStarted = true) (lost : launcher ≠ .nullPointer) :
    Handshake { s with launcher, monitor := none } := by
  have owner := h.launcherOwns.2 at_
  refine h.launcherMoves (by rw [at_]; simp) here.1 (iff_of_false (by simp) here.2.1) ?_ waits passed
    (fun port eq => absurd eq (here.2.2 port)) fun eq => absurd eq lost
  rw [owner]
  simp

/-- A step of the dumper thread. -/
theorem Handshake.dumperMoves (h : Handshake s) {dumper : DumperPhase} (connections : List Connection)
    (backlog : List ℕ) (busy : s.dumper ≠ .notStarted) (here : ∀ port, dumper ≠ .connecting port) :
    Handshake { s with dumper, connections, backlog } :=
  { h with
    connects := fun port at_ => absurd at_ (here port)
    dumper := fun _ => h.dumper busy }

theorem Handshake.moves {e : RendezvousEvent} (h : Handshake s) (moves : Moves cs report s e s') :
    Handshake s' := by
  have fields := h.fields
  cases moves with
  | startServer at_ =>
    have unstarted := h.begins.1 at_
    have owns := h.launcherOwns
    have others := h.serverOwns
    rw [at_] at owns
    rw [unstarted] at fields others
    exact { h with
      launcherOwns := owns.trans (by simp)
      serverOwns := others.trans (by simp)
      begins := by simp
      fields := fields
      waits := fun h => by cases h
      passed := fun h => by cases h
      loads := fun _ h => by cases h
      dumper := fun busy => absurd (at_.symm.trans (h.dumper busy)) (by simp)
      lost := fun h => by cases h }
  | launcherEnters at_ free =>
    refine h.launcherMoves (by rw [at_]; simp) (by simp) (by simp) ?_ (fun h => by cases h)
      (fun h => by cases h) (fun _ h => by cases h) fun h => by cases h
    rw [free]
    simp
  | passes at_ started =>
    exact h.launcherLeaves at_ (by simp) (fun h => by cases h) (fun _ => started) (by simp)
  | waits at_ started =>
    exact h.launcherLeaves at_ (by simp) (fun _ => started) (fun h => by cases h) (by simp)
  | nullPointer at_ null =>
    have passed := h.passed
    rw [at_] at passed
    exact h.launcherGoesOn (by rw [at_]; simp) (by simp) (fun _ => passed rfl)
      (fun _ h => by cases h) fun _ => null
  | getPort port at_ sock =>
    -- the socket listens at its port or no longer
    have listening := fields.listening
    rw [sock] at listening
    have passed := h.passed
    rw [at_] at passed
    refine h.launcherGoesOn (by rw [at_]; simp) (by simp) (fun _ => passed rfl) ?_ fun h => by cases h
    rintro p ⟨⟩
    exact listening
  | loadAgent port at_ =>
    have passed := h.passed
    have owns := h.launcherOwns
    rw [at_] at passed owns
    exact { h with
      launcherOwns := owns.trans (by simp)
      begins := iff_of_false (by simp) fun unstarted =>
        absurd (at_.symm.trans (h.begins.2 unstarted)) (by simp)
      waits := fun h => by cases h
      passed := fun _ => passed rfl
      loads := fun _ h => by cases h
      connects := by
        rintro p ⟨⟩
        exact h.loads port at_
      dumper := fun _ => rfl
      lost := fun h => by cases h }
  | opens port at_ =>
    rw [at_] at fields
    obtain ⟨notPassed, idle⟩ := h.notPassed fields.1
    have owns := h.serverOwns
    have begins := h.begins
    rw [at_] at owns begins
    exact { h with
      serverOwns := owns.trans (by simp)
      begins := begins.trans (by simp)
      fields := ⟨fields.1, rfl, rfl⟩
      waits := fun _ started => Bool.noConfusion (fields.1.symm.trans started)
      loads := fun p hp => by
        rw [hp] at notPassed
        cases notPassed
      connects := fun p hp => by
        rw [idle] at hp
        cases hp
      lost := fun hl => by
        rw [hl] at notPassed
        cases notPassed }
  | serverEnters port at_ free =>
    rw [at_] at fields
    have owns := h.launcherOwns
    have begins := h.begins
    rw [free] at owns
    rw [at_] at begins
    exact { h with
      launcherOwns := Iff.trans (by simp) owns
      serverOwns := by simp
      begins := begins.trans (by simp)
      fields := fields
      waits := fun _ started => Bool.noConfusion (fields.1.symm.trans started) }
  | sets port at_ =>
    rw [at_] at fields
    have others := h.serverOwns
    have begins := h.begins
    rw [at_] at others begins
    exact { h with
      serverOwns := others.trans (by simp)
      begins := begins.trans (by simp)
      fields := ⟨rfl, fields.2⟩
      waits := fun _ _ => rfl
      passed := fun _ => rfl }
  | notifies port at_ =>
    rw [at_] at fields
    have owner : s.monitor = some .server := h.serverOwns.2 (.inr at_)
    have notInside : s.launcher ≠ .testStarted := fun inside =>
      absurd (owner.symm.trans (h.launcherOwns.2 inside)) (by simp)
    have begun : s.launcher ≠ .startServer := fun begin_ => by
      rw [h.begins.1 begin_] at at_
      cases at_
    by_cases waiting : s.launcher = .waiting
    · rw [if_pos waiting]
      exact { h with
        launcherOwns := by simp
        serverOwns := by simp
        begins := by simp
        fields := fields
        waits := fun h => by cases h
        passed := fun _ => fields.1
        loads := fun _ h => by cases h
        dumper := fun busy => absurd (waiting.symm.trans (h.dumper busy)) (by simp)
        lost := fun h => by cases h }
    · rw [if_neg waiting]
      exact { h with
        launcherOwns := iff_of_false (by simp) notInside
        serverOwns := by simp
        begins := iff_of_false begun (by simp)
        fields := fields
        waits := fun still => absurd still waiting
        passed := fun _ => fields.1 }
  | accepts port conn rest at_ backlog =>
    rw [at_] at fields
    exact h.serverMoves rest (by rw [at_]; rfl) rfl fields (.inr rfl) id
  | closes port conn at_ =>
    rw [at_] at fields
    exact h.serverMoves [] (by rw [at_]; rfl) rfl ⟨fields.1, fields.2.1, rfl⟩ (.inl rfl) id
  | readsEof port conn c at_ get eof =>
    rw [at_] at fields
    exact h.serverMoves s.backlog (by rw [at_]; rfl) rfl fields (.inr rfl) id
  | readsLine port conn c text skipLF rest at_ get line => exact { h with }
  | clears port at_ =>
    rw [at_] at fields
    exact h.serverMoves s.backlog (by rw [at_]; rfl) rfl ⟨fun _ => rfl, .inl fields.2.2⟩ (.inr rfl)
      fun _ => rfl
  | closesAll port at_ =>
    rw [at_] at fields
    exact h.serverMoves [] (by rw [at_]; rfl) rfl ⟨fields.1, rfl⟩ (.inl rfl) id
  | timeout at_ =>
    rw [at_] at fields
    exact h.serverMoves s.backlog (by rw [at_]; rfl) rfl
      ⟨fun started => Bool.noConfusion (started.symm.trans fields.1), .inr fields.2.2⟩ (.inr rfl) id
  | connects more port at_ listening =>
    exact h.dumperMoves _ _ (by rw [at_]; simp) (by simp)
  | refused more port at_ listening => exact h.dumperMoves _ _ (by rw [at_]; simp) (by simp)
  | writes more conn c rest at_ => exact h.dumperMoves _ _ (by rw [at_]; simp) (by simp)
  | hangsUp more conn at_ => exact h.dumperMoves _ _ (by rw [at_]; simp) (by simp)
  | wake at_ =>
    exact h.launcherGoesOn (by rw [at_]; simp) (by simp) (fun h => by cases h) (fun _ h => by cases h)
      fun h => by cases h
  | socketFails at_ =>
    rw [at_] at fields
    exact h.serverMoves s.backlog (by rw [at_]; rfl) rfl ⟨fun _ => fields.2.1, .inl fields.2.2⟩
      (.inr rfl) id
  | acceptFails at_ =>
    rw [at_] at fields
    exact h.serverMoves s.backlog (by rw [at_]; rfl) rfl
      ⟨fun started => Bool.noConfusion (started.symm.trans fields.1), .inr fields.2.2⟩ (.inr rfl) id
  | readFails conn at_ =>
    rw [at_] at fields
    exact h.serverMoves s.backlog (by rw [at_]; rfl) rfl
      ⟨fun started => Bool.noConfusion (started.symm.trans fields.1), .inl fields.2.2⟩ (.inr rfl) id
  | reject port at_ =>
    have passed := h.passed
    rw [at_] at passed
    exact h.launcherGoesOn (by rw [at_]; simp) (by simp) (fun _ => passed rfl) (fun _ h => by cases h)
      fun h => by cases h
  | stayOut port at_ => exact h.dumperMoves _ _ (by rw [at_]; simp) (by simp)
  | foreignConnect port listening => exact { h with }
  | foreignWrite conn text c get foreign still => exact { h with }
  | foreignClose conn c get foreign still => exact { h with }

/-! ## The writers of the connections -/

/-- What the dumper thread has written, and where. -/
def WritersOk (report : Str) : DumperPhase → List Connection → Prop
  | .notStarted, cs | .connecting _, cs => ∀ c ∈ cs, c.fromAgent = false
  | .writing conn rest, cs =>
    (∃ c, cs[conn]? = some c ∧ c.fromAgent = true ∧ c.closed = false ∧ c.sent ++ rest = report) ∧
      ∀ i c, cs[i]? = some c → c.fromAgent = true → i = conn
  | .done, cs => ∀ c ∈ cs, c.fromAgent = true → c.closed = true ∧ c.sent = report

/-- The agent sees no difference between the connections. -/
def SameForAgent (c c' : Connection) : Prop :=
  c'.fromAgent = c.fromAgent ∧ (c.fromAgent = true → c'.sent = c.sent ∧ c'.closed = c.closed)

theorem getElem?_modify_eq_some {cs : List Connection} {conn : ℕ} {f : Connection → Connection}
    {i : ℕ} {c' : Connection} (h : (cs.modify conn f)[i]? = some c') :
    ∃ c, cs[i]? = some c ∧ c' = if conn = i then f c else c := by
  rw [List.getElem?_modify] at h
  obtain ⟨c, hc, rfl⟩ := Option.map_eq_some_iff.1 h
  exact ⟨c, hc, rfl⟩

theorem getElem?_modify_of_eq_some {cs : List Connection} (conn : ℕ)
    (f : Connection → Connection) {i : ℕ} {c : Connection} (h : cs[i]? = some c) :
    (cs.modify conn f)[i]? = some (if conn = i then f c else c) := by
  rw [List.getElem?_modify, h]
  rfl

theorem WritersOk.modify {dumper : DumperPhase} {cs : List Connection} {conn : ℕ}
    {f : Connection → Connection} (ok : WritersOk report dumper cs)
    (same : ∀ c, cs[conn]? = some c → SameForAgent c (f c)) :
    WritersOk report dumper (cs.modify conn f) := by
  have kept : ∀ (i : ℕ) c', (cs.modify conn f)[i]? = some c' →
      ∃ c, cs[i]? = some c ∧ SameForAgent c c' := by
    intro i c' h
    obtain ⟨c, hc, rfl⟩ := getElem?_modify_eq_some h
    refine ⟨c, hc, ?_⟩
    split_ifs with eq
    · exact same c (eq ▸ hc)
    · exact ⟨rfl, fun _ => ⟨rfl, rfl⟩⟩
  have member : ∀ c' ∈ cs.modify conn f, ∃ c ∈ cs, SameForAgent c c' := by
    intro c' h
    obtain ⟨i, hi⟩ := List.mem_iff_getElem?.1 h
    obtain ⟨c, hc, same⟩ := kept i c' hi
    exact ⟨c, List.mem_of_getElem? hc, same⟩
  cases dumper with
  | notStarted =>
    intro c' h
    obtain ⟨c, hc, same⟩ := member c' h
    exact same.1.trans (ok c hc)
  | connecting port =>
    intro c' h
    obtain ⟨c, hc, same⟩ := member c' h
    exact same.1.trans (ok c hc)
  | writing conn' rest =>
    obtain ⟨⟨c, hc, agent, still, text⟩, only⟩ := ok
    refine ⟨⟨_, getElem?_modify_of_eq_some conn f hc, ?_⟩, fun i c' h agent' => ?_⟩
    · split_ifs with eq
      · obtain ⟨from_, parts⟩ := same c (eq ▸ hc)
        obtain ⟨sent, closed⟩ := parts agent
        exact ⟨from_.trans agent, closed.trans still, by rw [sent, text]⟩
      · exact ⟨agent, still, text⟩
    · obtain ⟨c₂, hc₂, same⟩ := kept i c' h
      exact only i c₂ hc₂ (same.1.symm.trans agent')
  | done =>
    intro c' h agent'
    obtain ⟨c, hc, from_, parts⟩ := member c' h
    have agent := from_.symm.trans agent'
    obtain ⟨sent, closed⟩ := parts agent
    obtain ⟨done, all⟩ := ok c hc agent
    exact ⟨closed.trans done, sent.trans all⟩

theorem WritersOk.append {dumper : DumperPhase} {cs : List Connection}
    (ok : WritersOk report dumper cs) {c : Connection} (foreign : c.fromAgent = false) :
    WritersOk report dumper (cs ++ [c]) := by
  have member : ∀ c' ∈ cs ++ [c], c' ∈ cs ∨ c'.fromAgent = false := by
    intro c' h
    rcases List.mem_append.1 h with h | h
    · exact .inl h
    · exact .inr (List.mem_singleton.1 h ▸ foreign)
  cases dumper with
  | notStarted => exact fun c' h => (member c' h).elim (ok c') id
  | connecting port => exact fun c' h => (member c' h).elim (ok c') id
  | writing conn rest =>
    obtain ⟨⟨d, hd, parts⟩, only⟩ := ok
    have lt := (List.getElem?_eq_some_iff.1 hd).1
    refine ⟨⟨d, by rwa [List.getElem?_append_left lt], parts⟩, fun i c' h agent => ?_⟩
    rw [List.getElem?_append] at h
    split_ifs at h with hi
    · exact only i c' h agent
    · rw [List.getElem?_singleton] at h
      split_ifs at h
      cases h
      exact Bool.noConfusion (foreign.symm.trans agent)
  | done =>
    intro c' h agent
    rcases member c' h with h | h
    · exact ok c' h agent
    · exact Bool.noConfusion (h.symm.trans agent)

theorem WritersOk.moves {e : RendezvousEvent} (ok : WritersOk report s.dumper s.connections)
    (h : Handshake s) (moves : Moves cs report s e s') : WritersOk report s'.dumper s'.connections := by
  cases moves with
  | loadAgent port at_ =>
    -- the dumper thread has not started before
    have idle : s.dumper = .notStarted := by
      by_contra hne
      exact absurd (at_.symm.trans (h.dumper hne)) (by simp)
    rw [idle] at ok
    exact ok
  | readsLine port conn c text skipLF rest at_ get line =>
    show WritersOk report s.dumper (s.connections.set conn _)
    rw [List.set_eq_modify]
    refine ok.modify fun c' hc' => ?_
    obtain rfl := Option.some.inj (get.symm.trans hc')
    exact ⟨rfl, fun _ => ⟨rfl, rfl⟩⟩
  | connects more port at_ listening =>
    rw [at_] at ok
    refine ⟨⟨⟨true, [], [], false⟩, ?_, rfl, rfl, rfl⟩, fun i c hc agent => ?_⟩
    · show (s.connections ++ [_])[s.connections.length]? = _
      rw [List.getElem?_append_right (Nat.le_refl _), Nat.sub_self]
      rfl
    · change (s.connections ++ [_])[i]? = _ at hc
      rw [List.getElem?_append] at hc
      split_ifs at hc with hi
      · exact Bool.noConfusion ((ok c (List.mem_of_getElem? hc)).symm.trans agent)
      · rw [List.getElem?_singleton] at hc
        split_ifs at hc
        omega
  | refused more port at_ =>
    rw [at_] at ok
    exact fun c hc agent => Bool.noConfusion ((ok c hc).symm.trans agent)
  | stayOut port at_ =>
    rw [at_] at ok
    exact fun c hc agent => Bool.noConfusion ((ok c hc).symm.trans agent)
  | writes more conn c rest at_ =>
    rw [at_] at ok
    obtain ⟨⟨d, hd, agent, still, text⟩, only⟩ := ok
    refine ⟨⟨_, getElem?_modify_of_eq_some conn _ hd, ?_⟩, fun i c' h agent' => ?_⟩
    · rw [if_pos rfl]
      refine ⟨agent, still, ?_⟩
      show d.sent ++ _ ++ _ = _
      rw [List.append_assoc, List.take_append_drop, text]
    · obtain ⟨c₂, hc₂, rfl⟩ := getElem?_modify_eq_some h
      refine only i c₂ hc₂ ?_
      split_ifs at agent'
      · exact agent'
      · exact agent'
  | hangsUp more conn at_ =>
    rw [at_] at ok
    obtain ⟨⟨d, hd, agent, still, text⟩, only⟩ := ok
    intro c' h agent'
    obtain ⟨i, hi⟩ := List.mem_iff_getElem?.1 h
    obtain ⟨c₂, hc₂, rfl⟩ := getElem?_modify_eq_some hi
    have agent₂ : c₂.fromAgent = true := by
      split_ifs at agent'
      · exact agent'
      · exact agent'
    obtain rfl := only i c₂ hc₂ agent₂
    obtain rfl := Option.some.inj (hd.symm.trans hc₂)
    rw [if_pos rfl]
    rw [List.append_nil] at text
    exact ⟨rfl, text⟩
  | foreignConnect port listening => exact ok.append rfl
  | foreignWrite conn text c get foreign still =>
    refine ok.modify fun c' hc' => ?_
    obtain rfl := Option.some.inj (get.symm.trans hc')
    exact ⟨rfl, fun agent => Bool.noConfusion (foreign.symm.trans agent)⟩
  | foreignClose conn c get foreign still =>
    refine ok.modify fun c' hc' => ?_
    obtain rfl := Option.some.inj (get.symm.trans hc')
    exact ⟨rfl, fun agent => Bool.noConfusion (foreign.symm.trans agent)⟩
  | _ => exact ok

end Rendezvous

end JLeaker
