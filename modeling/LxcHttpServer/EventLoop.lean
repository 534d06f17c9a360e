import LxcHttpServer.TimerExpiry

/-!
# One pass of the event loop of `main`

The loop goes over the descriptors of a batch of epoll events. An event of the listening
socket is followed by what `accept` returns until it fails, one of the signal pipe by the
bytes in the pipe. The model starts with a valid listening socket; `main` itself ends
before the loop, since its test `if(serverSocketfd = -1)` assigns.
-/
namespace LxcHttpServer
open IteratorLists PartialRuns

/-- The descriptors that `main` tells from those of clients. -/
structure Sockets where
  serverSocketfd : ℤ
  /-- `pipeline[0]` -/
  pipeRead : ℤ

structure MainState where
  server : Server
  /-- The descriptors `accept` returns before it fails. -/
  backlog : List ℤ
  /-- The bytes in the pipe. -/
  signals : List UInt8
  /-- The descriptors of the tasks appended to the thread pool. -/
  tasks : List ℤ

def SIGALRM : UInt8 := 14

namespace MainState

def appendFd (fd : ℤ) (s : MainState) : MainState := { s with tasks := s.tasks ++ [fd] }

/-- `while ((clientSocketFd = accept(..)) != -1);` with the last value of the variable. -/
def acceptLoop : List ℤ → Kernel → ℤ × Kernel
  | [], k => (-1, k)
  | clientSocketFd :: backlog, k => acceptLoop backlog (k.openFd clientSocketFd)

def handleSignals : List UInt8 → Server → Except IteratorFault Server
  | [], s => .ok s
  | signal :: signals, s =>
    if signal = SIGALRM then
      match Timer.deleteExpiredFd s with
      | .error fault => .error fault
      | .ok s => handleSignals signals s
    else handleSignals signals s

/-- `if(epollEvents[i].data.fd == serverSocketfd)`; the task is appended after the loop
over `accept`. -/
def handleListening (c : Sockets) (fd : ℤ) (s : MainState) : MainState :=
  if fd = c.serverSocketfd then
    let (clientSocketFd, k) := acceptLoop s.backlog s.server.kernel
    appendFd clientSocketFd { s with server := { s.server with kernel := k }, backlog := [] }
  else s

/-- `if(epollEvents[i].data.fd != pipeline[0])` and its `else`. -/
def handleOther (c : Sockets) (fd : ℤ) (s : MainState) : Except IteratorFault MainState :=
  if fd ≠ c.pipeRead then
    match Timer.forbidenFd fd s.server with
    | .error fault => .error fault
    | .ok server => .ok (appendFd fd { s with server := server })
  else
    match handleSignals (s.signals.take 128) s.server with
    | .error fault => .error fault
    | .ok server => .ok { s with server := server, signals := s.signals.drop 128 }

def handleEvent (c : Sockets) (s : MainState) (fd : ℤ) : Except IteratorFault MainState :=
  handleOther c fd (handleListening c fd s)

/-- `for(int i = 0; i < ret; i++)` -/
def handleEvents (c : Sockets) : List ℤ → MainState → Except IteratorFault MainState
  | [], s => .ok s
  | fd :: fds, s =>
    match handleEvent c s fd with
    | .error fault => .error fault
    | .ok s => handleEvents c fds s

end MainState

open MainState

/-- A pass is a run of this system; its labels are the descriptors of the batch. -/
def eventLoop (c : Sockets) : System MainState ℤ IteratorFault := ⟨fun _ _ => True, handleEvent c⟩

instance (c : Sockets) (s : MainState) (fd : ℤ) : Decidable ((eventLoop c).enabled s fd) :=
  inferInstanceAs (Decidable True)

variable {c : Sockets} {s s' : MainState} {events : List ℤ} {fd : ℤ}

theorem handleEvents_eq_ok_iff :
    handleEvents c events s = .ok s' ↔ (eventLoop c).Run s events s' := by
  induction events generalizing s with
  | nil =>
    constructor
    · intro h
      cases h
      exact .nil
    · intro h
      rw [h.of_nil]
      rfl
  | cons fd fds ih =>
    constructor
    · intro h
      simp only [handleEvents] at h
      cases hfd : handleEvent c s fd with
      | error fault => simp [hfd] at h
      | ok t =>
        simp only [hfd] at h
        exact (System.Run.single trivial hfd).append (ih.mp h)
    · intro h
      obtain ⟨t, -, hfd, hrest⟩ := h.of_cons
      have hfd' : handleEvent c s fd = .ok t := hfd
      simp only [handleEvents, hfd']
      exact ih.mpr hrest

theorem acceptLoop_fst (backlog : List ℤ) (k : Kernel) : (acceptLoop backlog k).1 = -1 := by
  induction backlog generalizing k with
  | nil => rfl
  | cons fd backlog ih => exact ih (k.openFd fd)

/-- All that an event can do, after what it does for the listening socket. -/
theorem handleEvent_eq_ok (h : handleEvent c s fd = .ok s') :
    (fd ≠ c.pipeRead ∧ ∃ server, Timer.forbidenFd fd (handleListening c fd s).server = .ok server ∧
      s' = appendFd fd { handleListening c fd s with server := server }) ∨
    (fd = c.pipeRead ∧ ∃ server, handleSignals ((handleListening c fd s).signals.take 128)
        (handleListening c fd s).server = .ok server ∧
      s' = { handleListening c fd s with
        server := server
        signals := (handleListening c fd s).signals.drop 128 }) := by
  simp only [handleEvent, handleOther] at h
  split_ifs at h with hpipe
  · cases hs : Timer.forbidenFd fd (handleListening c fd s).server with
    | error fault => simp [hs] at h
    | ok server =>
      simp only [hs] at h
      exact .inl ⟨hpipe, server, rfl, (Except.ok.inj h).symm⟩
  · cases hs : handleSignals ((handleListening c fd s).signals.take 128)
        (handleListening c fd s).server with
    | error fault => simp [hs] at h
    | ok server =>
      simp only [hs] at h
      exact .inr ⟨not_not.mp hpipe, server, rfl, (Except.ok.inj h).symm⟩

/-- The tasks that an event appends. -/
def tasksOf (c : Sockets) (fd : ℤ) : List ℤ :=
  (if fd = c.serverSocketfd then [-1] else []) ++ if fd ≠ c.pipeRead then [fd] else []

theorem tasks_handleEvent (h : handleEvent c s fd = .ok s') :
    s'.tasks = s.tasks ++ tasksOf c fd := by
  have hlisten : (handleListening c fd s).tasks =
      s.tasks ++ if fd = c.serverSocketfd then [-1] else [] := by
    simp only [handleListening]
    split_ifs
    · simp only [appendFd, acceptLoop_fst]
    · rw [List.append_nil]
  rcases handleEvent_eq_ok h with ⟨hpipe, server, -, rfl⟩ | ⟨hpipe, server, -, rfl⟩
  · simp only [appendFd, hlisten, tasksOf, if_pos hpipe, List.append_assoc]
  · simp only [hlisten, tasksOf, if_neg (not_not.mpr hpipe), List.append_nil]

theorem tasks_run (h : (eventLoop c).Run s events s') :
    s'.tasks = s.tasks ++ events.flatMap (tasksOf c) := by
  induction h with
  | nil => simp
  | snoc run enabled step ih =>
    rw [tasks_handleEvent step, ih]
    simp

/-- The descriptor is neither the listening socket nor the pipe. -/
def Sockets.IsClient (c : Sockets) (fd : ℤ) : Prop := fd ≠ c.serverSocketfd ∧ fd ≠ c.pipeRead

instance (c : Sockets) : DecidablePred c.IsClient := fun fd =>
  inferInstanceAs (Decidable (fd ≠ c.serverSocketfd ∧ fd ≠ c.pipeRead))

/-- What `accept` returns in a pass. -/
def acceptedIn (c : Sockets) (events : List ℤ) (s : MainState) : List ℤ :=
  if c.serverSocketfd ∈ events then s.backlog else []

/-- One task for every accepted descriptor, in order, and one for every ready client, and
no other. -/
structure RightTasks (c : Sockets) (events accepted appended : List ℤ) : Prop where
  perm : appended.Perm (accepted ++ events.filter c.IsClient)
  order : accepted.Sublist appended
  not_listening : c.serverSocketfd ∉ appended
  not_pipe : c.pipeRead ∉ appended
  not_failed : -1 ∉ appended

theorem tasksOf_client (h : c.serverSocketfd ∉ events) :
    events.flatMap (tasksOf c) = events.filter c.IsClient := by
  induction events with
  | nil => rfl
  | cons fd fds ih =>
    rw [List.mem_cons, not_or] at h
    have hne : fd ≠ c.serverSocketfd := Ne.symm h.1
    rw [List.flatMap_cons, ih h.2, List.filter_cons, tasksOf, if_neg hne, List.nil_append]
    by_cases hpipe : fd = c.pipeRead
    · simp [hpipe, Sockets.IsClient]
    · simp [hpipe, hne, Sockets.IsClient]

/-- A pass appends the right tasks exactly when the batch has no event of the listening
socket. -/
theorem right_tasks_iff (hevents : ∀ fd ∈ events, 0 ≤ fd)
    (hpass : handleEvents c events s = .ok s') :
    RightTasks c events (acceptedIn c events s) (s'.tasks.drop s.tasks.length) ↔
      c.serverSocketfd ∉ events := by
  have htasks := tasks_run (handleEvents_eq_ok_iff.mp hpass)
  rw [htasks, List.drop_left]
  constructor
  · intro h hlisten
    apply h.not_failed
    exact List.mem_flatMap.mpr ⟨_, hlisten, by simp [tasksOf]⟩
  · intro hlisten
    rw [tasksOf_client hlisten, acceptedIn, if_neg hlisten]
    have hclient : ∀ fd ∈ events.filter c.IsClient, 0 ≤ fd ∧ c.IsClient fd := by
      intro fd hfd
      obtain ⟨hmem, hfd⟩ := List.mem_filter.mp hfd
      exact ⟨hevents fd hmem, of_decide_eq_true hfd⟩
    refine ⟨List.Perm.refl _, List.nil_sublist _, ?_, ?_, ?_⟩
    · intro hmem
      exact (hclient _ hmem).2.1 rfl
    · intro hmem
      exact (hclient _ hmem).2.2 rfl
    · intro hmem
      have hneg := (hclient _ hmem).1
      omega

/-- A new server with the listening socket 3 and the pipe 4. -/
def started (backlog : List ℤ) : MainState where
  server := ⟨.new 15 1000, Kernel.boot⟩
  backlog := backlog
  signals := []
  tasks := []

/-- A batch with a client and the pipe. -/
theorem right_tasks_client : ∃ s', handleEvents ⟨3, 4⟩ [5, 4] (started [7]) = .ok s' ∧
    RightTasks ⟨3, 4⟩ [5, 4] [] (s'.tasks.drop 0) := by
  have hex : ∃ s', (eventLoop ⟨3, 4⟩).Run (started [7]) [5, 4] s' ∧ s'.tasks = [5] :=
    System.Run.exists_of_exec (by decide +kernel)
  obtain ⟨s', hs, -⟩ := hex
  have hpass := handleEvents_eq_ok_iff.mpr hs
  exact ⟨s', hpass, (right_tasks_iff (by decide) hpass).mpr (by decide)⟩

/-- The listening socket is ready and `accept` returns one descriptor: it is dropped, and
the tasks are -1 and the listening socket. -/
theorem not_right_tasks : ∃ s', handleEvents ⟨3, 4⟩ [3] (started [7]) = .ok s' ∧
    s'.tasks = [-1, 3] ∧ ¬ RightTasks ⟨3, 4⟩ [3] [7] s'.tasks := by
  have hex : ∃ s', (eventLoop ⟨3, 4⟩).Run (started [7]) [3] s' ∧ s'.tasks = [-1, 3] :=
    System.Run.exists_of_exec (by decide +kernel)
  obtain ⟨s', hs, htasks⟩ := hex
  refine ⟨s', handleEvents_eq_ok_iff.mpr hs, htasks, ?_⟩
  intro h
  apply h.not_failed
  simp [htasks]

end LxcHttpServer
