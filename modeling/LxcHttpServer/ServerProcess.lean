import LxcHttpServer.DescriptorOwnership
import LxcHttpServer.EventLoop

/-!
# The server process

The loop of `main` together with the calls of `httpserver` in the threads of the pool, the
signal handler, and what time, clients and other processes do. A step is one call of what
they share: the timer, the kernel, the work list, the signal pipe. `main` goes from event to
event of a batch as in a pass, but the threads may run between any two of its steps. A call of
`httpserver` opens and closes descriptors of its own while it serves and then ends in one of
four ways. `recv` fails on everything that is not a connection, so for the listening socket
and -1 there is only the handler. `accepted` and `actions` record what happened and are read
by nothing.
-/
namespace LxcHttpServer
open IteratorLists PartialRuns

/-- The places of the loop of `main`; the name says what it does next, and with what. -/
inductive MainPc where
  | epollWait
  | event
  | accept (fd : ℤ)
  | appendAccepted (fd : ℤ)
  | testPipe (fd : ℤ)
  | forbidenFd (fd : ℤ)
  | appendFd (fd : ℤ)
  | read
  | signal (signals : List UInt8)
  | alarm (signals : List UInt8)
deriving DecidableEq

structure ServerProcess where
  server : Server
  pc : MainPc
  /-- The descriptors of `epollEvents` that the loop has not come to. -/
  events : List ℤ
  /-- The bytes in the pipe. -/
  signals : List UInt8
  /-- When the alarm that is set goes off. -/
  alarm : Option ℤ
  workList : List ℤ
  /-- The descriptors of the calls of `httpserver` that are in the `try` block. -/
  serving : List ℤ
  /-- Those of the calls that are in the handler and about to call `deleteFd`. -/
  deleting : List ℤ
  /-- Those of the calls that are in the handler and about to call `close`. -/
  closing : List ℤ
  /-- Pipe ends and files that calls of `httpserver` have opened and not closed. -/
  own : List ℤ
  accepted : List ℤ
  actions : List Action

inductive ServerProcess.Label where
  | epollWait (events : List ℤ)
  | main
  | accept (clientSocketFd : ℤ)
  | acceptFails
  | alarm
  | kill
  | elapse (usec : ℕ)
  | take
  | openOwn (fd : ℤ)
  | closeOwn (fd : ℤ)
  | keep (fd : ℤ)
  | close (fd : ℤ)
  | leave (fd : ℤ)
  | raise (fd : ℤ)
  | deleteFd (fd : ℤ)
  | closeRaised (fd : ℤ)
deriving DecidableEq

/-- A descriptor that can be a connection. -/
def Sockets.IsConnection (c : Sockets) (fd : ℤ) : Prop := 0 ≤ fd ∧ c.IsClient fd

instance (c : Sockets) : DecidablePred c.IsConnection := fun fd =>
  inferInstanceAs (Decidable (0 ≤ fd ∧ c.IsClient fd))

/-- What a pipe holds before a non-blocking `write` fails. -/
def PIPE_CAPACITY : ℕ := 65536

namespace ServerProcess

/-- A call of the timer or of the kernel. -/
def perform (a : Action) (s : ServerProcess) : Except IteratorFault ServerProcess :=
  match s.server.act a with
  | .error fault => .error fault
  | .ok server => .ok { s with server := server, actions := s.actions ++ [a] }

def performAll : List Action → ServerProcess → Except IteratorFault ServerProcess
  | [], s => .ok s
  | a :: as, s => s.perform a >>= performAll as

/-- `signalHandler` writes the lowest byte of the number of the signal. -/
def signalHandler (sig : UInt8) (s : ServerProcess) : ServerProcess :=
  if s.signals.length < PIPE_CAPACITY then { s with signals := s.signals ++ [sig] } else s

/-- What `main` does when it does not wait for the kernel. -/
def main (c : Sockets) (s : ServerProcess) : Except IteratorFault ServerProcess :=
  match s.pc with
  | .epollWait | .accept _ => .ok s
  | .event =>
    match s.events with
    | [] => .ok { s with pc := .epollWait }
    | fd :: events => .ok { s with
        pc := if fd = c.serverSocketfd then .accept fd else .testPipe fd
        events := events }
  -- the loop over `accept` has ended with -1
  | .appendAccepted fd => .ok { s with pc := .testPipe fd, workList := s.workList ++ [-1] }
  | .testPipe fd => .ok { s with pc := if fd ≠ c.pipeRead then .forbidenFd fd else .read }
  | .forbidenFd fd => perform (.forbidenFd fd) { s with pc := .appendFd fd }
  | .appendFd fd => .ok { s with pc := .event, workList := s.workList ++ [fd] }
  | .read => .ok { s with pc := .signal (s.signals.take 128), signals := s.signals.drop 128 }
  | .signal [] => .ok { s with pc := .event }
  | .signal (signal :: signals) =>
    if signal = SIGALRM then perform .deleteExpiredFd { s with pc := .alarm signals }
    else .ok { s with pc := .signal signals }
  -- `alarm(1)`
  | .alarm signals => .ok { s with
      pc := .signal signals
      alarm := some (s.server.kernel.clock + 1000000) }

def step (c : Sockets) (s : ServerProcess) : Label → Except IteratorFault ServerProcess
  | .epollWait events =>
    performAll ((events.filter c.IsClient).map .deliver) { s with pc := .event, events := events }
  | .main => s.main c
  | .accept clientSocketFd =>
    perform (.accept clientSocketFd) { s with accepted := s.accepted ++ [clientSocketFd] }
  | .acceptFails =>
    match s.pc with
    | .accept fd => .ok { s with pc := .appendAccepted fd }
    | _ => .ok s
  | .alarm => .ok (signalHandler SIGALRM { s with alarm := none })
  | .kill => .ok (signalHandler SIGALRM s)
  | .elapse usec => s.perform (.elapse usec)
  | .take =>
    match s.workList with
    | [] => .ok s
    | fd :: workList => .ok { s with workList := workList, serving := fd :: s.serving }
  | .openOwn fd => perform (.accept fd) { s with own := fd :: s.own }
  | .closeOwn fd => perform (.close fd) { s with own := s.own.erase fd }
  | .keep fd => perform (.addfd fd) { s with serving := s.serving.erase fd }
  | .close fd => perform (.close fd) { s with serving := s.serving.erase fd }
  | .leave fd => .ok { s with serving := s.serving.erase fd }
  | .raise fd => .ok { s with serving := s.serving.erase fd, deleting := fd :: s.deleting }
  | .deleteFd fd =>
    perform (.deleteFd fd) { s with deleting := s.deleting.erase fd, closing := fd :: s.closing }
  | .closeRaised fd => perform (.close fd) { s with closing := s.closing.erase fd }

/-- `epoll_wait` can report the descriptor: the listening socket while it is open, the pipe
while it holds bytes, and a connection while it is armed. -/
def Reported (c : Sockets) (s : ServerProcess) (fd : ℤ) : Prop :=
  if fd = c.serverSocketfd then fd ∉ s.server.kernel.closes
  else if fd = c.pipeRead then s.signals ≠ []
  else s.server.kernel.Armed fd

/-- `main` is at a place where it does not wait for the kernel. -/
def MainReady (s : ServerProcess) : Prop :=
  match s.pc with
  | .epollWait | .accept _ => False
  | .read => s.signals ≠ []
  | _ => True

/-- `epoll_wait` returns nothing when a signal interrupts it. -/
def enabled (c : Sockets) (s : ServerProcess) : Label → Prop
  | .epollWait events => s.pc = .epollWait ∧ events.length ≤ 5 ∧ events.Nodup ∧
      ∀ fd ∈ events, s.Reported c fd
  | .main => s.MainReady
  | .accept clientSocketFd => s.pc = .accept c.serverSocketfd ∧
      c.serverSocketfd ∉ s.server.kernel.closes ∧ 0 ≤ clientSocketFd ∧
      clientSocketFd ∉ s.server.kernel.openFds
  | .acceptFails => s.pc = .accept c.serverSocketfd
  | .alarm => ∃ t ∈ s.alarm, t ≤ s.server.kernel.clock
  | .kill | .elapse _ => True
  | .take => s.workList ≠ []
  | .openOwn fd => (∃ fd' ∈ s.serving, c.IsConnection fd') ∧ 0 ≤ fd ∧
      fd ∉ s.server.kernel.openFds
  | .closeOwn fd => fd ∈ s.own
  | .keep fd | .close fd | .leave fd => fd ∈ s.serving ∧ c.IsConnection fd
  | .raise fd => fd ∈ s.serving
  | .deleteFd fd => fd ∈ s.deleting
  | .closeRaised fd => fd ∈ s.closing

/-- Where the loop begins: the alarm was just set, and nothing has happened yet. -/
def start (server : Server) : ServerProcess where
  server := server
  pc := .epollWait
  events := []
  signals := []
  alarm := some (server.kernel.clock + 1000000)
  workList := []
  serving := []
  deleting := []
  closing := []
  own := []
  accepted := []
  actions := []

instance (c : Sockets) (s : ServerProcess) : DecidablePred (s.Reported c) := by
  intro fd
  unfold Reported
  infer_instance

instance (s : ServerProcess) : Decidable s.MainReady := by
  unfold MainReady
  split <;> infer_instance

instance (c : Sockets) (s : ServerProcess) (a : Label) : Decidable (s.enabled c a) := by
  unfold enabled
  split <;> infer_instance

end ServerProcess

/-- All that can happen in the process. -/
def serverProcess (c : Sockets) : System ServerProcess ServerProcess.Label IteratorFault where
  enabled := ServerProcess.enabled c
  step := ServerProcess.step c

instance (c : Sockets) (s : ServerProcess) (a : ServerProcess.Label) :
    Decidable ((serverProcess c).enabled s a) :=
  inferInstanceAs (Decidable (s.enabled c a))

end LxcHttpServer
