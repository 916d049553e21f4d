import JLeaker.Lib.CString
import JLeaker.Lib.LineText
import JLeaker.Lib.Run
import JLeaker.Lib.Transducer

/-!
# The launcher, its server thread and the agent

`JLeaker.execute` starts a `JLeakerServer` thread, waits until that thread has opened a socket and hands
the port to the agent.  The dumper thread of the agent connects to the port and writes the report, which
the server thread decodes and prints line by line.  The three threads, and other programs that connect
to the port, take their steps in any order.
-/

namespace JLeaker

open CString LineText

/-- Where the main thread of the launcher is in `execute`. -/
inductive LauncherPhase
  /-- Before `startServer`. -/
  | startServer
  /-- At `synchronized (m_wasStarted)` in `waitForStart`, or about to return from `wait`. -/
  | enterMonitor
  /-- At the test of the loop in `waitForStart`, inside the monitor. -/
  | testStarted
  /-- In `m_wasStarted.wait()`. -/
  | waiting
  | getPort
  /-- In `vm.loadAgentPath`, with this `tcp_port`. -/
  | loadAgent (port : ℕ)
  | detached
  /-- `getPort` has thrown a `NullPointerException`. -/
  | nullPointer
  /-- `loadAgentPath` has thrown. -/
  | rejected
deriving DecidableEq

/-- Where `JLeakerServer.run` is. -/
inductive ServerPhase
  | notStarted
  /-- At `new ServerSocket(0)`. -/
  | openSocket
  /-- At `synchronized (m_wasStarted)`. -/
  | enterMonitor
  /-- At `m_wasStarted.set(true)`. -/
  | setStarted
  /-- At `m_wasStarted.notifyAll()`. -/
  | notifyAll
  /-- At `m_serverSock.accept()`. -/
  | accept
  /-- At `m_serverSock.close()`, with the connection accepted. -/
  | closeServerSock (conn : ℕ)
  /-- At `br.readLine()`. -/
  | readLine (conn : ℕ)
  /-- At `m_serverSock = null`. -/
  | clearServerSock
  /-- In the `finally` block. -/
  | closeAll
  | done
deriving DecidableEq

/-- Where the dumper thread of the agent is. -/
inductive DumperPhase
  | notStarted
  /-- Before `establish_connection(gdata->tcp_port)`. -/
  | connecting (port : ℕ)
  /-- Connected, with this part of the report still to be written. -/
  | writing (conn : ℕ) (rest : Str)
  | done
deriving DecidableEq

/-- Who is inside the monitor of `m_wasStarted`. -/
inductive MonitorOwner
  | launcher
  | server
deriving DecidableEq

/-- The charset of the launcher's JVM: how an `InputStreamReader` turns bytes into characters, and how
`System.out` turns characters into bytes.  A byte is the character with its number. -/
structure Charset where
  decoder : Transducer Char Char
  encoder : Transducer Char Char

/-- A connection to the port: the bytes its writer has written, and the characters in them that are not
yet read. -/
structure Connection where
  fromAgent : Bool
  sent : Str
  arrived : Str
  closed : Bool
deriving DecidableEq

/-- More bytes from the writer of a connection. -/
def Connection.write (cs : Charset) (text : Str) (c : Connection) : Connection :=
  { c with sent := c.sent ++ text, arrived := c.arrived ++ cs.decoder.more c.sent text }

/-- The writer closes the connection, and the decoder emits what it has held back. -/
def Connection.close (cs : Charset) (c : Connection) : Connection :=
  { c with arrived := c.arrived ++ cs.decoder.flush c.sent, closed := true }

/-- The threads, the fields of the `JLeakerServer` and the sockets. -/
structure Rendezvous where
  launcher : LauncherPhase
  server : ServerPhase
  dumper : DumperPhase
  monitor : Option MonitorOwner
  wasStarted : Bool
  /-- The port of `m_serverSock`; none while the field is null. -/
  serverSock : Option ℕ
  /-- The port connections are taken at. -/
  listening : Option ℕ
  /-- The connections that wait for `accept`. -/
  backlog : List ℕ
  connections : List Connection
  /-- Whether a line feed that comes next belongs to the last line read (`BufferedReader`). -/
  skipLF : Bool
  /-- The lines `System.out.println` has got. -/
  printed : List Str
deriving DecidableEq

/-- A step of one of the threads, what the system around them does, or what another program does. -/
inductive RendezvousEvent
  | launcher
  | server (port : ℕ)
  /-- `accept` throws a `SocketTimeoutException`. -/
  | timeout
  /-- The dumper thread writes up to that many bytes more than one. -/
  | dumper (more : ℕ)
  /-- The wait ends without a notification: it is interrupted, or wakes up spuriously. -/
  | wake
  /-- `new ServerSocket(0)` throws an `IOException`. -/
  | socketFails
  /-- `accept` or `readLine` throws an `IOException`. -/
  | ioError
  /-- `Agent_OnAttach` fails. -/
  | reject
  /-- The dumper thread does not connect: another dump is in progress, or it gets no socket. -/
  | stayOut
  | foreignConnect
  | foreignWrite (conn : ℕ) (text : Str)
  | foreignClose (conn : ℕ)
deriving DecidableEq

/-- The event cannot happen now. -/
inductive Blocked
  | blocked
deriving DecidableEq

namespace Rendezvous

/-- Before `startServer`. -/
def init : Rendezvous :=
  ⟨.startServer, .notStarted, .notStarted, none, false, none, none, [], [], false, []⟩

variable (cs : Charset) (report : Str) (s : Rendezvous)

/-- The next action of `execute`. -/
def stepLauncher : Except Blocked Rendezvous :=
  match s.launcher with
  | .startServer => .ok { s with launcher := .enterMonitor, server := .openSocket }
  | .enterMonitor =>
    if s.monitor = none then
      .ok { s with launcher := .testStarted, monitor := some .launcher }
    else .error .blocked
  | .testStarted =>
    -- `wait` leaves the monitor too
    if s.wasStarted then .ok { s with launcher := .getPort, monitor := none }
    else .ok { s with launcher := .waiting, monitor := none }
  | .getPort =>
    match s.serverSock with
    | none => .ok { s with launcher := .nullPointer }
    | some port => .ok { s with launcher := .loadAgent port }
  | .loadAgent port => .ok { s with launcher := .detached, dumper := .connecting port }
  | .waiting | .detached | .nullPointer | .rejected => .error .blocked

/-- `readLine`, and `println` of what it returns. -/
def relayLine (conn : ℕ) (c : Connection) : Except Blocked Rendezvous :=
  match readLine c.closed s.skipLF c.arrived with
  | .blocked => .error .blocked
  | .eof => .ok { s with server := .clearServerSock }
  | .line text skipLF rest => .ok { s with
      connections := s.connections.set conn { c with arrived := rest }
      skipLF := skipLF
      printed := s.printed ++ [text] }

/-- The next action of `run`; `port` is the one a new socket gets. -/
def stepServer (port : ℕ) : Except Blocked Rendezvous :=
  match s.server with
  | .openSocket =>
    .ok { s with server := .enterMonitor, serverSock := some port, listening := some port }
  | .enterMonitor =>
    if s.monitor = none then .ok { s with server := .setStarted, monitor := some .server }
    else .error .blocked
  | .setStarted => .ok { s with server := .notifyAll, wasStarted := true }
  | .notifyAll => .ok { s with
      server := .accept
      launcher := if s.launcher = .waiting then .enterMonitor else s.launcher
      monitor := none }
  | .accept =>
    match s.backlog with
    | [] => .error .blocked
    | conn :: rest => .ok { s with server := .closeServerSock conn, backlog := rest }
  | .closeServerSock conn =>
    .ok { s with server := .readLine conn, listening := none, backlog := [] }
  | .readLine conn =>
    match s.connections[conn]? with
    | none => .error .blocked
    | some c => s.relayLine conn c
  | .clearServerSock => .ok { s with server := .closeAll, serverSock := none }
  | .closeAll => .ok { s with server := .done, listening := none, backlog := [] }
  | .notStarted | .done => .error .blocked

/-- One more connection to the port. -/
def connect (fromAgent : Bool) : Rendezvous :=
  { s with
    backlog := s.backlog ++ [s.connections.length]
    connections := s.connections ++ [⟨fromAgent, [], [], false⟩] }

/-- A change of one of the connections. -/
def modifyConnection (conn : ℕ) (f : Connection → Connection) : Rendezvous :=
  { s with connections := s.connections.modify conn f }

/-- The next action of the dumper thread. -/
def stepDumper (more : ℕ) : Except Blocked Rendezvous :=
  match s.dumper with
  | .connecting port =>
    if s.listening = some port then
      .ok { s.connect true with dumper := .writing s.connections.length report }
    else .ok { s with dumper := .done }
  | .writing conn [] =>
    .ok { s.modifyConnection conn (Connection.close cs) with dumper := .done }
  | .writing conn (c :: rest) =>
    .ok { s.modifyConnection conn (Connection.write cs ((c :: rest).take (more + 1))) with
      dumper := .writing conn ((c :: rest).drop (more + 1)) }
  | .notStarted | .done => .error .blocked

/-- What another program does to a connection of its own. -/
def stepForeign (conn : ℕ) (f : Connection → Connection) : Except Blocked Rendezvous :=
  match s.connections[conn]? with
  | none => .error .blocked
  | some c => if c.fromAgent || c.closed then .error .blocked else .ok (s.modifyConnection conn f)

/-- What an event does. -/
def step : RendezvousEvent → Except Blocked Rendezvous
  | .launcher => s.stepLauncher
  | .server port => s.stepServer port
  | .timeout => if s.server = .accept then .ok { s with server := .closeAll } else .error .blocked
  | .dumper more => s.stepDumper cs report more
  | .wake =>
    if s.launcher = .waiting then .ok { s with launcher := .enterMonitor } else .error .blocked
  | .socketFails =>
    if s.server = .openSocket then .ok { s with server := .closeAll } else .error .blocked
  | .ioError =>
    match s.server with
    | .accept | .readLine _ => .ok { s with server := .closeAll }
    | _ => .error .blocked
  | .reject =>
    match s.launcher with
    | .loadAgent _ => .ok { s with launcher := .rejected }
    | _ => .error .blocked
  | .stayOut =>
    match s.dumper with
    | .connecting _ => .ok { s with dumper := .done }
    | _ => .error .blocked
  | .foreignConnect => if s.listening.isSome then .ok (s.connect false) else .error .blocked
  | .foreignWrite conn text => s.stepForeign conn (Connection.write cs text)
  | .foreignClose conn => s.stepForeign conn (Connection.close cs)

/-- The state after a run of events. -/
def after (events : List RendezvousEvent) : Except Blocked Rendezvous :=
  events.foldlM (step cs report) s

/-- The bytes on `System.out`; `println` ends a line with `lineEnd`. -/
def stdout (lineEnd : Str) : Str := cs.encoder.more [] (unlines lineEnd s.printed)

end Rendezvous

namespace Sample

/-- US-ASCII: other bytes become the replacement character, other characters a question mark. -/
def usAscii : Charset where
  decoder := .ofFun fun b => if b.toNat < 128 then b else '\uFFFD'
  encoder := .ofFun fun c => if c.toNat < 128 then c else '?'

/-- A report of two lines, the first of which ends as on Windows. -/
def sentReport : Str := "<a>\r\n</a>\n".toList

/-- The main thread waits before the socket is open; the report arrives in two parts. -/
def handshake : List RendezvousEvent :=
  [.launcher, .launcher, .launcher, .server 4711, .server 0, .server 0, .server 0, .launcher,
    .launcher, .launcher, .launcher, .dumper 0, .server 0, .server 0, .dumper 3, .server 0,
    .dumper 9, .server 0, .dumper 0, .server 0, .server 0, .server 0]

end Sample

end JLeaker
