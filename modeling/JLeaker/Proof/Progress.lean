import JLeaker.Proof.Relay

/-!
# The threads come to an end

Each step of the launcher, the server thread and the dumper thread uses up some of `measure`, so these
steps alone come to an end.  Then every thread has ended, or the main thread waits for a socket that
could not be opened, or the server thread reads from another program that keeps its connection open.
-/

namespace JLeaker

open CString LineText

/-! ## A measure -/

/-- The steps for writing a report, a byte a step, and for reading it, a character a line. -/
def relayCost (cs : Charset) (report : Str) : ℕ :=
  report.length + (cs.decoder.convert report).length

/-- The steps the main thread has before it, those of the dumper thread it starts included. -/
def LauncherPhase.rank (cost : ℕ) : LauncherPhase → ℕ
  | .startServer => cost + 8
  | .enterMonitor => cost + 7
  | .testStarted => cost + 6
  | .waiting | .getPort => cost + 5
  | .loadAgent _ => cost + 4
  | .detached | .nullPointer | .rejected => 0

/-- The steps the server thread has before it, apart from lines; `notifyAll` may wake the main thread. -/
def ServerPhase.rank : ServerPhase → ℕ
  | .notStarted => 13
  | .openSocket => 12
  | .enterMonitor => 11
  | .setStarted => 10
  | .notifyAll => 9
  | .accept => 5
  | .closeServerSock _ => 4
  | .readLine _ => 3
  | .clearServerSock => 2
  | .closeAll => 1
  | .done => 0

/-- The steps the dumper thread has before it; before it connects, those for reading the report too. -/
def DumperPhase.rank (cost : ℕ) : DumperPhase → ℕ
  | .connecting _ => cost + 3
  | .writing _ rest => rest.length + 1
  | .notStarted | .done => 0

/-- The number of characters of a connection that are not read, with those the agent has still to
write. -/
def Connection.unread (cs : Charset) (report : Str) (c : Connection) : ℕ :=
  c.arrived.length + if c.fromAgent && !c.closed then
    (cs.decoder.convert report).length - (cs.decoder.more [] c.sent).length else 0

/-- The number of characters that are not read. -/
def totalUnread (cs : Charset) (report : Str) : List Connection → ℕ
  | [] => 0
  | c :: conns => c.unread cs report + totalUnread cs report conns

/-- The event is a step of one of the threads, or ends one. -/
def RendezvousEvent.isOwn : RendezvousEvent → Bool
  | .wake | .foreignConnect | .foreignWrite _ _ | .foreignClose _ => false
  | _ => true

section

variable {cs : Charset} {report : Str}

theorem Connection.unread_new : (⟨true, [], [], false⟩ : Connection).unread cs report =
    (cs.decoder.convert report).length := Nat.zero_add _

variable (cs) in
/-- What the agent writes was counted before. -/
theorem Connection.unread_write {c : Connection} (agent : c.fromAgent = true) (still : c.closed = false)
    {text rest : Str} (written : c.sent ++ (text ++ rest) = report) :
    (c.write cs text).unread cs report = c.unread cs report := by
  have whole := congrArg List.length (cs.decoder.convert_append (c.sent ++ text) rest)
  have parts := congrArg List.length (cs.decoder.more_append [] c.sent text)
  rw [List.append_assoc, written, List.length_append] at whole
  rw [List.nil_append, List.length_append] at parts
  simp only [Connection.unread, Connection.write, agent, still, List.length_append, Bool.not_false,
    Bool.and_self, if_true]
  omega

variable (cs) in
/-- Also what the decoder has held back. -/
theorem Connection.unread_close {c : Connection} (agent : c.fromAgent = true) (still : c.closed = false)
    (written : c.sent = report) : (c.close cs).unread cs report = c.unread cs report := by
  simp only [Connection.unread, Connection.close, agent, still, written, Transducer.convert,
    List.length_append, Bool.not_false, Bool.not_true, Bool.and_self, Bool.and_false, if_true,
    Bool.false_eq_true, if_false]
  omega

theorem totalUnread_append (conns : List Connection) (c : Connection) :
    totalUnread cs report (conns ++ [c]) = totalUnread cs report conns + c.unread cs report := by
  induction conns with
  | nil => exact Nat.add_comm _ _
  | cons d conns ih => rw [List.cons_append, totalUnread, ih, totalUnread, Nat.add_assoc]

theorem totalUnread_modify {conns : List Connection} {conn : ℕ} {f : Connection → Connection}
    {c : Connection} (get : conns[conn]? = some c) (same : (f c).unread cs report = c.unread cs report) :
    totalUnread cs report (conns.modify conn f) = totalUnread cs report conns := by
  induction conns generalizing conn with
  | nil => cases get
  | cons d conns ih =>
    cases conn with
    | zero =>
      cases get
      rw [List.modify_zero_cons, totalUnread, totalUnread, same]
    | succ conn => rw [List.modify_succ_cons, totalUnread, totalUnread, ih get]

theorem totalUnread_set_lt {conns : List Connection} {conn : ℕ} {c c' : Connection}
    (get : conns[conn]? = some c) (lt : c'.unread cs report < c.unread cs report) :
    totalUnread cs report (conns.set conn c') < totalUnread cs report conns := by
  induction conns generalizing conn with
  | nil => cases get
  | cons d conns ih =>
    cases conn with
    | zero =>
      cases get
      rw [List.set_cons_zero, totalUnread, totalUnread]
      exact Nat.add_lt_add_right lt _
    | succ conn =>
      rw [List.set_cons_succ, totalUnread, totalUnread]
      exact Nat.add_lt_add_left (ih get) _

end

namespace Rendezvous

variable {cs : Charset} {report : Str} {s s' : Rendezvous}

/-- What the threads have before them. -/
def measure (cs : Charset) (report : Str) (s : Rendezvous) : ℕ :=
  s.launcher.rank (relayCost cs report) + s.server.rank + s.dumper.rank (relayCost cs report) +
    totalUnread cs report s.connections

theorem Moves.measure_lt {e : RendezvousEvent} (h : Handshake s)
    (ok : WritersOk report s.dumper s.connections) (moves : Moves cs report s e s')
    (own : e.isOwn = true) : s'.measure cs report < s.measure cs report := by
  unfold measure
  cases moves with
  | startServer at_ =>
    have server := h.begins.1 at_
    simp only [at_, server, LauncherPhase.rank, ServerPhase.rank]
    omega
  | notifies port at_ =>
    by_cases waiting : s.launcher = .waiting
    · simp only [at_, waiting, if_true, LauncherPhase.rank, ServerPhase.rank]
      omega
    · simp only [at_, if_neg waiting, ServerPhase.rank]
      omega
  | readsLine port conn c text skipLF rest at_ get line =>
    have lt : totalUnread cs report (s.connections.set conn { c with arrived := rest }) <
        totalUnread cs report s.connections :=
      totalUnread_set_lt get (Nat.add_lt_add_right (length_rest_lt line) _)
    dsimp only
    omega
  | connects more port at_ listening =>
    have total : totalUnread cs report (s.connections ++ [⟨true, [], [], false⟩]) =
        totalUnread cs report s.connections + (cs.decoder.convert report).length := by
      rw [totalUnread_append, Connection.unread_new]
    simp only [at_, connect, DumperPhase.rank, relayCost, total]
    omega
  | writes more conn c rest at_ =>
    rw [at_] at ok
    obtain ⟨⟨d, get, agent, still, written⟩, -⟩ := ok
    rw [← List.take_append_drop (more + 1) (c :: rest)] at written
    have same := totalUnread_modify get (Connection.unread_write cs agent still written)
    simp only [at_, modifyConnection, DumperPhase.rank, List.length_drop, List.length_cons, same]
    omega
  | hangsUp more conn at_ =>
    rw [at_] at ok
    obtain ⟨⟨d, get, agent, still, written⟩, -⟩ := ok
    rw [List.append_nil] at written
    have same := totalUnread_modify get (Connection.unread_close cs agent still written)
    simp only [at_, modifyConnection, DumperPhase.rank, List.length_nil, same]
    omega
  | wake => cases own
  | foreignConnect => cases own
  | foreignWrite => cases own
  | foreignClose => cases own
  | _ =>
    simp only [LauncherPhase.rank, ServerPhase.rank, DumperPhase.rank, *]
    omega

/-- The threads take no more steps than `measure` says. -/
theorem length_le_measure {later : List RendezvousEvent} (own : ∀ e ∈ later, e.isOwn = true)
    (sound : Sound cs report s) (run : s.after cs report later = .ok s') :
    later.length + s'.measure cs report ≤ s.measure cs report := by
  induction later generalizing s with
  | nil =>
    cases run
    exact (Nat.zero_add _).le
  | cons e later ih =>
    obtain ⟨t, first, rest⟩ := Run.foldlM_cons_eq_ok.1 run
    have moves := step_moves first
    have lt := moves.measure_lt sound.handshake sound.writers (own e List.mem_cons_self)
    have sound' : Sound cs report t := ⟨sound.handshake.moves moves,
      sound.writers.moves sound.handshake moves,
      sound.relay.moves sound.handshake sound.writers moves⟩
    have le := ih (fun e he => own e (List.mem_cons_of_mem _ he)) sound' rest
    rw [List.length_cons]
    omega

/-! ## Where the threads stop -/

/-- No thread can take a step. -/
structure Quiet (cs : Charset) (report : Str) (s : Rendezvous) : Prop where
  launcher : s.stepLauncher = .error .blocked
  server : ∀ port, s.stepServer port = .error .blocked
  timeout : s.server ≠ .accept
  dumper : ∀ more, s.stepDumper cs report more = .error .blocked

namespace Quiet

theorem dumper_ended (quiet : Quiet cs report s) : s.dumper = .notStarted ∨ s.dumper = .done := by
  have h := quiet.dumper 0
  unfold stepDumper at h
  split at h
  · split_ifs at h
  · cases h
  · cases h
  · next at_ => exact .inl at_
  · next at_ => exact .inr at_

/-- The server thread does not wait for the monitor: whoever is inside can go on. -/
theorem server_ended (quiet : Quiet cs report s) (sound : Sound cs report s) : s.server = .done ∨
    ∃ conn c, s.server = .readLine conn ∧ s.connections[conn]? = some c ∧ c.closed = false := by
  have h := quiet.server 0
  unfold stepServer at h
  split at h
  · cases h
  · next at_ =>
    split_ifs at h with free
    exfalso
    cases hm : s.monitor with
    | none => exact free hm
    | some owner =>
      cases owner with
      | launcher =>
        have inside := sound.handshake.launcherOwns.1 hm
        have launcher := quiet.launcher
        unfold stepLauncher at launcher
        rw [inside] at launcher
        dsimp only at launcher
        split_ifs at launcher
      | server =>
        rcases sound.handshake.serverOwns.1 hm with h' | h'
        · cases at_.symm.trans h'
        · cases at_.symm.trans h'
  · cases h
  · cases h
  · next at_ => exact absurd at_ quiet.timeout
  · cases h
  · next conn at_ =>
    split at h
    · next none =>
      obtain ⟨c, get, -⟩ := sound.relay.reading conn at_
      cases none.symm.trans get
    · next c get =>
      unfold relayLine at h
      split at h
      · next blocked => exact .inr ⟨conn, c, at_, get, open_of_blocked blocked⟩
      · cases h
      · cases h
  · cases h
  · cases h
  · next at_ =>
    have launcher := quiet.launcher
    unfold stepLauncher at launcher
    rw [sound.handshake.begins.2 at_] at launcher
    cases launcher
  · next at_ => exact .inl at_

theorem launcher_ended (quiet : Quiet cs report s) (sound : Sound cs report s) :
    s.launcher = .waiting ∨ s.launcher = .detached ∨ s.launcher = .nullPointer ∨
      s.launcher = .rejected := by
  have h := quiet.launcher
  unfold stepLauncher at h
  split at h
  · cases h
  · next at_ =>
    split_ifs at h with free
    exfalso
    cases hm : s.monitor with
    | none => exact free hm
    | some owner =>
      cases owner with
      | launcher => cases at_.symm.trans (sound.handshake.launcherOwns.1 hm)
      | server =>
        have server := quiet.server 0
        unfold stepServer at server
        rcases sound.handshake.serverOwns.1 hm with h' | h'
        · rw [h'] at server
          cases server
        · rw [h'] at server
          cases server
  · split_ifs at h
  · split at h
    · cases h
    · cases h
  · cases h
  · next at_ => exact .inl at_
  · next at_ => exact .inr (.inl at_)
  · next at_ => exact .inr (.inr (.inl at_))
  · next at_ => exact .inr (.inr (.inr at_))

end Quiet

end Rendezvous

open Rendezvous

/-- From every reachable state the threads alone take at most `measure` steps; and where no thread can
take one, the dumper thread has ended, and the main thread and the server thread too, unless the main
thread waits because the socket could not be opened, or the server thread reads from another program that
keeps its connection open. -/
theorem rendezvous_ends {cs : Charset} {report : Str} {events : List RendezvousEvent} {s : Rendezvous}
    (run : Rendezvous.init.after cs report events = .ok s) :
    (∀ later s', (∀ e ∈ later, e.isOwn = true) → s.after cs report later = .ok s' →
      later.length ≤ s.measure cs report) ∧
    (Quiet cs report s → (s.dumper = .notStarted ∨ s.dumper = .done) ∧
      (s.launcher = .waiting ∧ s.server = .done ∧ s.wasStarted = false ∧ s.serverSock = none ∨
        (s.launcher = .detached ∨ s.launcher = .nullPointer ∨ s.launcher = .rejected) ∧
        (s.server = .done ∨ ∃ conn c, s.server = .readLine conn ∧ s.connections[conn]? = some c ∧
          c.closed = false ∧ c.fromAgent = false))) := by
  have sound := sound_after run
  refine ⟨fun later s' own run' => ?_, fun quiet => ⟨quiet.dumper_ended, ?_⟩⟩
  · have := length_le_measure own sound run'
    omega
  · rcases quiet.launcher_ended sound with waiting | ended
    · -- a main thread that was notified would not wait
      have notStarted : s.wasStarted = false := by
        by_contra hne
        have notify := sound.handshake.waits waiting (eq_true_of_ne_false hne)
        have server := quiet.server 0
        unfold stepServer at server
        rw [notify] at server
        cases server
      rcases quiet.server_ended sound with done | ⟨conn, c, at_, -⟩
      · have fields := sound.handshake.fields
        rw [done] at fields
        exact .inl ⟨waiting, done, notStarted, fields.1 notStarted⟩
      · have fields := sound.handshake.fields
        rw [at_] at fields
        exact Bool.noConfusion (notStarted.symm.trans fields.1)
    · refine .inr ⟨ended, ?_⟩
      rcases quiet.server_ended sound with done | ⟨conn, c, at_, get, still⟩
      · exact .inl done
      · refine .inr ⟨conn, c, at_, get, still, ?_⟩
        -- the dumper thread has closed its connection
        by_contra hne
        have agent := eq_true_of_ne_false hne
        have writers := sound.writers
        rcases quiet.dumper_ended with idle | done
        · rw [idle] at writers
          exact hne (writers c (List.mem_of_getElem? get))
        · rw [done] at writers
          exact Bool.noConfusion (still.symm.trans (writers c (List.mem_of_getElem? get) agent).1)

/-- The main thread waits for ever when the server thread gets no socket. -/
theorem rendezvous_ends_socketFails :
    ∃ s, Rendezvous.init.after Sample.usAscii []
        [.launcher, .launcher, .launcher, .socketFails, .server 0] = .ok s ∧
      s.launcher = .waiting ∧ s.server = .done ∧ s.wasStarted = false := by
  obtain ⟨s, run, at_⟩ := Run.exists_ok_of_any
    (x := Rendezvous.init.after Sample.usAscii []
      [.launcher, .launcher, .launcher, .socketFails, .server 0])
    (p := fun s : Rendezvous => decide (s.launcher = .waiting ∧ s.server = .done ∧
      s.dumper = .notStarted)) (by decide +kernel)
  obtain ⟨waiting, done, idle⟩ := of_decide_eq_true at_
  have quiet : Quiet Sample.usAscii [] s := by
    refine ⟨?_, fun port => ?_, ?_, fun more => ?_⟩
    · unfold stepLauncher
      rw [waiting]
    · unfold stepServer
      rw [done]
    · rw [done]
      exact ServerPhase.noConfusion
    · unfold stepDumper
      rw [idle]
  obtain ⟨-, ends⟩ := rendezvous_ends run
  rcases (ends quiet).2 with ⟨-, -, notStarted, -⟩ | ⟨ended, -⟩
  · exact ⟨s, run, waiting, done, notStarted⟩
  · rw [waiting] at ended
    rcases ended with h | h | h
    · cases h
    · cases h
    · cases h

end JLeaker
