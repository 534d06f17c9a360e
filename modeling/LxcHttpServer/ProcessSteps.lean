import LxcHttpServer.ServerProcess

/-!
# What a step of the process can be

Every step calls the timer or the kernel at most once, the delivery of a batch apart. The
steps of `main` are listed once, with what each of them requires.
-/
namespace LxcHttpServer
open IteratorLists PartialRuns

namespace Server

/-- The events of the descriptors are delivered, one after the other. -/
def deliverAll : List ℤ → Server → Server
  | [], s => s
  | fd :: fds, s => deliverAll fds { s with kernel := s.kernel.deliver fd }

end Server

namespace ServerProcess

variable {c : Sockets} {s s' : ServerProcess} {a : Action}

/-- The state after a call of the timer or the kernel. -/
def after (s : ServerProcess) (server : Server) (a : Action) : ServerProcess :=
  { s with server := server, actions := s.actions ++ [a] }

theorem perform_eq_ok : s.perform a = .ok s' ↔
    ∃ server, s.server.act a = .ok server ∧ s' = s.after server a := by
  rw [perform]
  cases s.server.act a with
  | error fault => simp
  | ok server => simp [after, eq_comm]

/-- The state after the deliveries of a batch. -/
def delivered (fds : List ℤ) (s : ServerProcess) : ServerProcess :=
  { s with server := s.server.deliverAll fds, actions := s.actions ++ fds.map .deliver }

theorem delivered_nil (s : ServerProcess) : s.delivered [] = s := by
  simp [delivered, Server.deliverAll]

theorem delivered_cons (fd : ℤ) (fds : List ℤ) (s : ServerProcess) : s.delivered (fd :: fds) =
    (s.after { s.server with kernel := s.server.kernel.deliver fd } (.deliver fd)).delivered
      fds := by
  simp [delivered, after, Server.deliverAll]

theorem performAll_deliver (fds : List ℤ) (s : ServerProcess) :
    performAll (fds.map .deliver) s = .ok (s.delivered fds) := by
  induction fds generalizing s with
  | nil => rw [delivered_nil, List.map_nil, performAll]
  | cons fd fds ih =>
    rw [delivered_cons]
    exact ih _

inductive MainStep (c : Sockets) (s : ServerProcess) : ServerProcess → Prop
  | waits (hpc : s.pc = .event) (hevents : s.events = []) :
      MainStep c s { s with pc := .epollWait, events := [] }
  | listening {events : List ℤ} (hpc : s.pc = .event)
      (hevents : s.events = c.serverSocketfd :: events) :
      MainStep c s { s with pc := .accept c.serverSocketfd, events := events }
  | other {fd : ℤ} {events : List ℤ} (hpc : s.pc = .event) (hevents : s.events = fd :: events)
      (hfd : fd ≠ c.serverSocketfd) :
      MainStep c s { s with pc := .testPipe fd, events := events }
  | appendsFailed {fd : ℤ} (hpc : s.pc = .appendAccepted fd) :
      MainStep c s { s with pc := .testPipe fd, workList := s.workList ++ [-1] }
  | notPipe {fd : ℤ} (hpc : s.pc = .testPipe fd) (hfd : fd ≠ c.pipeRead) :
      MainStep c s { s with pc := .forbidenFd fd }
  | pipe (hpc : s.pc = .testPipe c.pipeRead) : MainStep c s { s with pc := .read }
  | forbids {fd : ℤ} {server : Server} (hpc : s.pc = .forbidenFd fd)
      (hact : s.server.act (.forbidenFd fd) = .ok server) :
      MainStep c s { s.after server (.forbidenFd fd) with pc := .appendFd fd }
  | appends {fd : ℤ} (hpc : s.pc = .appendFd fd) :
      MainStep c s { s with pc := .event, workList := s.workList ++ [fd] }
  | reads (hpc : s.pc = .read) (hsignals : s.signals ≠ []) :
      MainStep c s { s with
        pc := .signal (s.signals.take 128)
        signals := s.signals.drop 128 }
  | readAll (hpc : s.pc = .signal []) : MainStep c s { s with pc := .event }
  | expires {signals : List UInt8} {server : Server} (hpc : s.pc = .signal (SIGALRM :: signals))
      (hact : s.server.act .deleteExpiredFd = .ok server) :
      MainStep c s { s.after server .deleteExpiredFd with pc := .alarm signals }
  | skips {signal : UInt8} {signals : List UInt8} (hpc : s.pc = .signal (signal :: signals))
      (hsignal : signal ≠ SIGALRM) : MainStep c s { s with pc := .signal signals }
  | setsAlarm {signals : List UInt8} (hpc : s.pc = .alarm signals) :
      MainStep c s { s with
        pc := .signal signals
        alarm := some (s.server.kernel.clock + 1000000) }

theorem main_cases (hready : s.MainReady) (h : s.main c = .ok s') : MainStep c s s' := by
  cases hpc : s.pc with
  | epollWait | accept => simp [MainReady, hpc] at hready
  | event =>
    cases hevents : s.events with
    | nil =>
      simp only [main, hpc, hevents] at h
      cases h
      exact .waits hpc hevents
    | cons fd events =>
      simp only [main, hpc, hevents] at h
      split_ifs at h with hfd
      · cases h
        subst hfd
        exact .listening hpc hevents
      · cases h
        exact .other hpc hevents hfd
  | appendAccepted fd =>
    simp only [main, hpc] at h
    cases h
    exact .appendsFailed hpc
  | testPipe fd =>
    simp only [main, hpc] at h
    split_ifs at h with hfd
    · cases h
      exact .notPipe hpc hfd
    · cases h
      rw [not_not.mp hfd] at hpc
      exact .pipe hpc
  | forbidenFd fd =>
    simp only [main, hpc] at h
    obtain ⟨server, hact, rfl⟩ := perform_eq_ok.mp h
    exact .forbids hpc hact
  | appendFd fd =>
    simp only [main, hpc] at h
    cases h
    exact .appends hpc
  | read =>
    simp only [main, hpc] at h
    cases h
    simp only [MainReady, hpc] at hready
    exact .reads hpc hready
  | signal signals =>
    cases signals with
    | nil =>
      simp only [main, hpc] at h
      cases h
      exact .readAll hpc
    | cons signal signals =>
      simp only [main, hpc] at h
      split_ifs at h with hsignal
      · obtain ⟨server, hact, rfl⟩ := perform_eq_ok.mp h
        subst hsignal
        exact .expires hpc hact
      · cases h
        exact .skips hpc hsignal
  | alarm signals =>
    simp only [main, hpc] at h
    cases h
    exact .setsAlarm hpc

end ServerProcess
end LxcHttpServer
