import LxcHttpServer.PartialRuns
import LxcHttpServer.Monitors

/-!
# The thread pool

`ThreadPool.h` and `ThreadPool.cpp`: any number of threads call `appendFd`, the
pool's own threads run `worker`, and one thread runs the destructor. A step is
one access to what the threads share, so every order of steps is an order in
which the code can run. The critical section of `appendFd` is one step, since
everything it touches is touched only under the mutex; its `notify` is another.
`notifying` counts the calls between the two. The lists `appended`, `dequeued`
and `called` record what happened and are read by nothing.
-/
namespace LxcHttpServer
open PartialRuns Monitors

/-- A client's descriptor and the address of the timer, which may be null. -/
structure TaskData where
  clientfd : ℤ
  timer : Option ℕ
deriving DecidableEq

/-- `TaskData(-1, nullptr)`, the value of `taskdata` before a task is taken. -/
def TaskData.placeholder : TaskData where
  clientfd := -1
  timer := none

/-- The places of `ThreadPool::worker`; the name says what the thread does next. -/
inductive ThreadPool.Pc where
  | loop
  | lock
  | testEmpty
  | testRunning
  | wait
  | waiting
  | testStop
  | front
  | popFront
  | unlock
  | call
  | inTask
  | exited
deriving DecidableEq

/-- The thread holds the mutex there. -/
def ThreadPool.Pc.inside : ThreadPool.Pc → Prop
  | .testEmpty | .testRunning | .wait | .testStop | .front | .popFront | .unlock => True
  | .loop | .lock | .waiting | .call | .inTask | .exited => False

/-- A thread of the pool, with its local variable. -/
structure ThreadPool.Worker where
  pc : ThreadPool.Pc
  taskdata : TaskData
deriving DecidableEq

/-- How far `ThreadPool::~ThreadPool` is. -/
inductive ThreadPool.Destructor where
  | notCalled
  | stopped
  | joining (joined : ℕ)
deriving DecidableEq

/-- A pool of `n` threads. -/
structure ThreadPool (n : ℕ) where
  running : Bool
  workList : List TaskData
  monitor : Monitor (Fin n)
  workers : Fin n → ThreadPool.Worker
  notifying : ℕ
  destructor : ThreadPool.Destructor
  appended : List TaskData
  dequeued : List (Fin n × TaskData)
  called : List (Fin n × TaskData)

/-- Accesses to the front of an empty list. -/
inductive ThreadPool.Fault where
  | emptyFront
  | emptyPopFront
deriving DecidableEq

/-- What can happen next. A signal wakes `woken`; a thread can wake up for no reason. -/
inductive ThreadPool.Label (n : ℕ) where
  | append (taskData : TaskData)
  | notify (woken : Finset (Fin n))
  | spurious (w : Fin n)
  | worker (w : Fin n)
  | stop
  | broadcast
  | join
deriving DecidableEq

namespace ThreadPool

variable {n : ℕ}

/-- The pool as its constructor leaves it. -/
def new (n : ℕ) : ThreadPool n where
  running := true
  workList := []
  monitor := .free
  workers _ := ⟨.loop, .placeholder⟩
  notifying := 0
  destructor := .notCalled
  appended := []
  dequeued := []
  called := []

/-- The thread `w` becomes `k`, and nothing else changes. -/
def set (s : ThreadPool n) (w : Fin n) (k : Worker) : ThreadPool n :=
  { s with workers := Function.update s.workers w k }

def goto (s : ThreadPool n) (w : Fin n) (pc : Pc) : ThreadPool n :=
  s.set w { s.workers w with pc := pc }

def appendFd (s : ThreadPool n) (taskData : TaskData) : ThreadPool n :=
  { s with
    workList := s.workList ++ [taskData]
    notifying := s.notifying + 1
    appended := s.appended ++ [taskData] }

def notifyOneThread (s : ThreadPool n) (woken : Finset (Fin n)) : ThreadPool n :=
  { s with
    monitor := s.monitor.wake woken
    notifying := s.notifying - 1 }

/-- The destructor's broadcast, after which it joins the threads in order. -/
def notifyAll (s : ThreadPool n) : ThreadPool n :=
  { s with
    monitor := s.monitor.wake s.monitor.blocked
    destructor := .joining 0 }

/-- The next step of the thread `w`. -/
def worker (s : ThreadPool n) (w : Fin n) : Except Fault (ThreadPool n) :=
  match (s.workers w).pc with
  | .loop => .ok (if s.running then s.set w ⟨.lock, .placeholder⟩ else s.goto w .exited)
  | .lock => .ok { s.goto w .testEmpty with monitor := s.monitor.lock w }
  -- `workList.empty() && running` reads `running` only where the list is empty
  | .testEmpty => .ok (s.goto w (if s.workList.isEmpty then .testRunning else .testStop))
  | .testRunning => .ok (s.goto w (if s.running then .wait else .testStop))
  | .wait => .ok { s.goto w .waiting with monitor := s.monitor.wait w }
  | .waiting => .ok { s.goto w .testEmpty with monitor := s.monitor.lock w }
  | .testStop =>
    .ok (if s.running then s.goto w .front
      else { s.goto w .exited with monitor := s.monitor.unlock })
  | .front =>
    match s.workList with
    | [] => .error .emptyFront
    | taskdata :: _ => .ok (s.set w ⟨.popFront, taskdata⟩)
  | .popFront =>
    match s.workList with
    | [] => .error .emptyPopFront
    | taskdata :: workList => .ok
      { s.goto w .unlock with
        workList := workList
        dequeued := s.dequeued ++ [(w, taskdata)] }
  | .unlock => .ok { s.goto w .call with monitor := s.monitor.unlock }
  | .call => .ok { s.goto w .inTask with called := s.called ++ [(w, (s.workers w).taskdata)] }
  | .inTask => .ok (s.goto w .loop)
  | .exited => .ok s

def step (s : ThreadPool n) : Label n → Except Fault (ThreadPool n)
  | .append taskData => .ok (s.appendFd taskData)
  | .notify woken => .ok (s.notifyOneThread woken)
  | .spurious w => .ok { s with monitor := s.monitor.wake {w} }
  | .worker w => s.worker w
  | .stop => .ok { s with running := false, destructor := .stopped }
  | .broadcast => .ok s.notifyAll
  | .join =>
    match s.destructor with
    | .joining k => .ok { s with destructor := .joining (k + 1) }
    | .notCalled | .stopped => .ok s

/-- A thread that needs the mutex waits until it is free; a thread in `cond.wait` also
until it is woken. -/
def ready (s : ThreadPool n) (w : Fin n) : Prop :=
  match (s.workers w).pc with
  | .lock => s.monitor.holder = none
  | .waiting => s.monitor.holder = none ∧ w ∉ s.monitor.blocked
  | .exited => False
  | _ => True

def enabled (s : ThreadPool n) : Label n → Prop
  | .append _ => s.monitor.holder = none
  | .notify woken => 0 < s.notifying ∧ s.monitor.Signals woken
  | .spurious w => w ∈ s.monitor.blocked
  | .worker w => s.ready w
  | .stop => s.destructor = .notCalled
  | .broadcast => s.destructor = .stopped
  | .join =>
    match s.destructor with
    | .joining k => ∃ hk : k < n, (s.workers ⟨k, hk⟩).pc = .exited
    | .notCalled | .stopped => False

instance (s : ThreadPool n) (w : Fin n) : Decidable (s.ready w) := by
  unfold ready
  split <;> infer_instance

instance (s : ThreadPool n) (a : Label n) : Decidable (s.enabled a) := by
  unfold enabled
  split <;> try infer_instance
  split <;> infer_instance

/-- All that the threads of the program can do to a pool of `n` threads. -/
def system (n : ℕ) : System (ThreadPool n) (Label n) Fault where
  enabled := enabled
  step := step

instance (s : ThreadPool n) (a : Label n) : Decidable ((system n).enabled s a) :=
  inferInstanceAs (Decidable (s.enabled a))

end ThreadPool

end LxcHttpServer
