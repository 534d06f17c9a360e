import LxcHttpServer.PartialRuns
import LxcHttpServer.Monitors

/-!
# The elastic thread pool

`thread_pool/myThreadPool.cpp` and `TaskQueue.cpp`. The constructor, the manager, the
workers, the destructor and any number of callers of `addTask` take steps in any order. A
step is one access to what they share; what happens under `mutexPool` and is read by nobody
without it is taken together, and so is the scan of `threadExit`, which changes one entry.
The queue has a mutex of its own, under which `addTask` and `takeTast` are one step each.
`adding` are the tasks whose callers have read `shutdown` as false, and `signalling` counts
the callers behind their push. An access to what the destructor has released is a fault. The
lists `accepted`, `taken` and `executed` and the number `passes` are read by nothing.
-/
namespace LxcHttpServer
open PartialRuns Monitors

/-- A function and its argument, by their addresses; a pointer may be null. -/
structure Task where
  function : Option ℕ
  arg : Option ℕ
deriving DecidableEq

/-- `Task()` -/
def Task.empty : Task where
  function := none
  arg := none

namespace TaskQueue

/-- The size as an `int`. -/
def taskNumber (m_taskQ : List Task) : ℤ := (m_taskQ.length : ℤ).bmod 4294967296

def takeTast (m_taskQ : List Task) : Task × List Task :=
  match m_taskQ with
  | [] => (.empty, [])
  | t :: m_taskQ => (t, m_taskQ)

end TaskQueue

namespace MyThreadPool

/-- `static const int NUMBER` -/
def NUMBER : ℕ := 2

/-- The threads that use `mutexPool`. -/
inductive Tid where
  | manager
  | worker (w : ℕ)
deriving DecidableEq

/-- The places of `ThreadPool::worker`; the name says what the thread does next. -/
inductive Pc where
  | notCreated
  | lock
  | testEmpty
  | testShutdown
  | wait
  | waiting
  | testExit
  | unlockExit
  | testStop
  | take
  | countBusy
  | unlockTask
  | call
  | inTask
  | lockEnd
  | uncount
  | unlockEnd
  | threadExit
  | exited
deriving DecidableEq

/-- A worker, with its local variable. -/
structure Worker where
  pc : Pc
  task : Task
deriving DecidableEq

/-- The places of `ThreadPool::manager`, with the local variables that are read later. -/
inductive ManagerPc where
  | notCreated
  | test
  | sleep
  | lockRead
  | read
  | unlockRead (queueSize liveNum : ℤ)
  | lockGrow
  | grow (i counter : ℕ)
  | unlockGrow
  | readBusy
  | testBusy (busyNum : ℤ)
  | testLive
  | lockShrink
  | setExit
  | unlockShrink
  | signal (i : ℕ)
  | exited
deriving DecidableEq

/-- How far the constructor is; the counters, the mutex and `shutdown` are initialised. -/
inductive Constructor where
  | createManager
  | createWorker (i : ℕ)
  | returned
deriving DecidableEq

/-- How far `ThreadPool::~ThreadPool` is. -/
inductive Destructor where
  | notCalled
  | joinManager
  | testLive (i : ℕ)
  | signal (i : ℕ)
  | deleteTaskQ
  | deleteThreadIDs
  | destroyMutex
  | destroyCond
  | finished
deriving DecidableEq

/-- What the destructor releases. -/
inductive Resource where
  | taskQ
  | threadIDs
  | mutexPool
  | notEmpty
deriving DecidableEq

/-- What has been released by then. -/
def Destructor.released : Destructor → List Resource
  | .notCalled | .joinManager | .testLive _ | .signal _ | .deleteTaskQ => []
  | .deleteThreadIDs => [.taskQ]
  | .destroyMutex => [.taskQ, .threadIDs]
  | .destroyCond => [.taskQ, .threadIDs, .mutexPool]
  | .finished => [.taskQ, .threadIDs, .mutexPool, .notEmpty]

inductive Fault where
  | released (r : Resource)
  | nullFunction
  | outOfBounds
deriving DecidableEq

/-- The thread holds `mutexPool` there. -/
def Pc.inside : Pc → Prop
  | .testEmpty | .testShutdown | .wait | .testExit | .unlockExit | .testStop | .take
  | .countBusy | .unlockTask | .uncount | .unlockEnd => True
  | .notCreated | .lock | .waiting | .call | .inTask | .lockEnd | .threadExit | .exited => False

def ManagerPc.inside : ManagerPc → Prop
  | .read | .unlockRead _ _ | .grow _ _ | .unlockGrow | .setExit | .unlockShrink => True
  | .notCreated | .test | .sleep | .lockRead | .lockGrow | .readBusy | .testBusy _ | .testLive
  | .lockShrink | .signal _ | .exited => False

end MyThreadPool

open MyThreadPool in
/-- A pool built with `min` and `max`. -/
structure MyThreadPool (minNum maxNum : ℕ) where
  taskQ : List Task
  threadIDs : List (Option ℕ)
  busyNum : ℤ
  liveNum : ℤ
  exitNum : ℤ
  monitor : Monitor Tid
  shutdown : Bool
  constructor : Constructor
  managerPc : ManagerPc
  workers : ℕ → Worker
  created : ℕ
  adding : List Task
  signalling : ℕ
  destructor : Destructor
  accepted : List Task
  taken : List (ℕ × Task)
  executed : List (ℕ × Task)
  passes : ℕ

namespace MyThreadPool

/-- What can happen next. A signal wakes `woken`; a worker can wake up for no reason. -/
inductive Label where
  | construct
  | addTask (task : Task)
  | push (task : Task)
  | signal (woken : Finset Tid)
  | worker (w : ℕ)
  | manager
  | managerSignal (woken : Finset Tid)
  | destroy
  | destroySignal (woken : Finset Tid)
  | spurious (t : Tid)
deriving DecidableEq

variable {minNum maxNum : ℕ}

/-- The pool when its constructor is about to create the threads. -/
def new (minNum maxNum : ℕ) : MyThreadPool minNum maxNum where
  taskQ := []
  threadIDs := List.replicate maxNum none
  busyNum := 0
  liveNum := minNum
  exitNum := 0
  monitor := .free
  shutdown := false
  constructor := .createManager
  managerPc := .notCreated
  workers _ := ⟨.notCreated, .empty⟩
  created := 0
  adding := []
  signalling := 0
  destructor := .notCalled
  accepted := []
  taken := []
  executed := []
  passes := 0

/-- An access to something the destructor releases. -/
def use (s : MyThreadPool minNum maxNum) (r : Resource) : Except Fault Unit :=
  if r ∈ s.destructor.released then .error (.released r) else .ok ()

/-- The worker `w` becomes `k`, and nothing else changes. -/
def set (s : MyThreadPool minNum maxNum) (w : ℕ) (k : Worker) : MyThreadPool minNum maxNum :=
  { s with workers := Function.update s.workers w k }

def goto (s : MyThreadPool minNum maxNum) (w : ℕ) (pc : Pc) : MyThreadPool minNum maxNum :=
  s.set w { s.workers w with pc := pc }

/-- `pthread_create(&threadIDs[i], NULL, worker, this)` -/
def createThread (s : MyThreadPool minNum maxNum) (i : ℕ) :
    Except Fault (MyThreadPool minNum maxNum) :=
  if i < s.threadIDs.length then .ok
    { s.set s.created ⟨.lock, .empty⟩ with
      threadIDs := s.threadIDs.set i (some s.created)
      created := s.created + 1 }
  else .error .outOfBounds

def construct (s : MyThreadPool minNum maxNum) : Except Fault (MyThreadPool minNum maxNum) :=
  match s.constructor with
  | .createManager => .ok { s with managerPc := .test, constructor := .createWorker 0 }
  | .createWorker i =>
    if i < minNum then do
      let s ← s.createThread i
      .ok { s with constructor := .createWorker (i + 1) }
    else .ok { s with constructor := .returned }
  | .returned => .ok s

def addTask (s : MyThreadPool minNum maxNum) (task : Task) : MyThreadPool minNum maxNum :=
  if s.shutdown then s else { s with adding := s.adding ++ [task] }

def push (s : MyThreadPool minNum maxNum) (task : Task) :
    Except Fault (MyThreadPool minNum maxNum) := do
  s.use .taskQ
  .ok { s with
    adding := s.adding.erase task
    taskQ := s.taskQ ++ [task]
    signalling := s.signalling + 1
    accepted := s.accepted ++ [task] }

def signal (s : MyThreadPool minNum maxNum) (woken : Finset Tid) :
    Except Fault (MyThreadPool minNum maxNum) := do
  s.use .notEmpty
  .ok { s with monitor := s.monitor.wake woken, signalling := s.signalling - 1 }

/-- The next step of the worker `w`. -/
def worker (s : MyThreadPool minNum maxNum) (w : ℕ) : Except Fault (MyThreadPool minNum maxNum) :=
  match (s.workers w).pc with
  | .notCreated | .exited => .ok s
  | .lock => do
    s.use .mutexPool
    .ok { s.goto w .testEmpty with monitor := s.monitor.lock (.worker w) }
  -- `taskNumber() == 0 && !shutdown` reads `shutdown` only where the number is 0
  | .testEmpty => do
    s.use .taskQ
    .ok (s.goto w (if TaskQueue.taskNumber s.taskQ = 0 then .testShutdown else .testStop))
  | .testShutdown => .ok (s.goto w (if s.shutdown then .testStop else .wait))
  | .wait => do
    s.use .mutexPool
    s.use .notEmpty
    .ok { s.goto w .waiting with monitor := s.monitor.wait (.worker w) }
  | .waiting => do
    s.use .mutexPool
    .ok { s.goto w .testExit with monitor := s.monitor.lock (.worker w) }
  | .testExit =>
    .ok (if s.exitNum > 0 then
      if s.liveNum > (minNum : ℤ) then
        { s.goto w .unlockExit with exitNum := s.exitNum - 1, liveNum := s.liveNum - 1 }
      else { s.goto w .testEmpty with exitNum := s.exitNum - 1 }
    else s.goto w .testEmpty)
  | .unlockExit => do
    s.use .mutexPool
    .ok { s.goto w .threadExit with monitor := s.monitor.unlock }
  | .testStop => .ok (s.goto w (if s.shutdown then .unlockExit else .take))
  | .take => do
    s.use .taskQ
    let (task, taskQ) := TaskQueue.takeTast s.taskQ
    .ok { s.set w ⟨.countBusy, task⟩ with
      taskQ := taskQ
      taken := s.taken ++ [(w, task)] }
  | .countBusy => .ok { s.goto w .unlockTask with busyNum := s.busyNum + 1 }
  | .unlockTask => do
    s.use .mutexPool
    .ok { s.goto w .call with monitor := s.monitor.unlock }
  | .call =>
    match (s.workers w).task.function with
    | none => .error .nullFunction
    | some _ => .ok
      { s.goto w .inTask with executed := s.executed ++ [(w, (s.workers w).task)] }
  | .inTask => .ok (s.goto w .lockEnd)
  | .lockEnd => do
    s.use .mutexPool
    .ok { s.goto w .uncount with monitor := s.monitor.lock (.worker w) }
  | .uncount => .ok { s.goto w .unlockEnd with busyNum := s.busyNum - 1 }
  | .unlockEnd => do
    s.use .mutexPool
    .ok { s.goto w .lock with monitor := s.monitor.unlock }
  | .threadExit => do
    s.use .threadIDs
    .ok { s.goto w .exited with threadIDs := s.threadIDs.replace (some w) none }

/-- The next step of the manager, its signals apart. -/
def manager (s : MyThreadPool minNum maxNum) : Except Fault (MyThreadPool minNum maxNum) :=
  match s.managerPc with
  | .notCreated | .signal _ | .exited => .ok s
  | .test => .ok (if s.shutdown then { s with managerPc := .sleep, passes := s.passes + 1 }
    else { s with managerPc := .exited })
  | .sleep => .ok { s with managerPc := .lockRead }
  | .lockRead => do
    s.use .mutexPool
    .ok { s with managerPc := .read, monitor := s.monitor.lock .manager }
  | .read => do
    s.use .taskQ
    .ok { s with managerPc := .unlockRead (TaskQueue.taskNumber s.taskQ) s.liveNum }
  | .unlockRead queueSize liveNum => do
    s.use .mutexPool
    .ok { s with
      managerPc := if queueSize > liveNum ∧ liveNum < maxNum then .lockGrow else .readBusy
      monitor := s.monitor.unlock }
  | .lockGrow => do
    s.use .mutexPool
    .ok { s with managerPc := .grow 0 0, monitor := s.monitor.lock .manager }
  | .grow i counter =>
    if i < maxNum ∧ counter < NUMBER ∧ s.liveNum < maxNum then do
      s.use .threadIDs
      if s.threadIDs[i]? = some none then do
        let s ← s.createThread i
        .ok { s with managerPc := .grow (i + 1) (counter + 1), liveNum := s.liveNum + 1 }
      else .ok { s with managerPc := .grow (i + 1) counter }
    else .ok { s with managerPc := .unlockGrow }
  | .unlockGrow => do
    s.use .mutexPool
    .ok { s with managerPc := .readBusy, monitor := s.monitor.unlock }
  | .readBusy => .ok { s with managerPc := .testBusy s.busyNum }
  | .testBusy busyNum =>
    .ok { s with managerPc := if busyNum * 2 < s.liveNum then .testLive else .test }
  | .testLive => .ok { s with managerPc := if s.liveNum > (minNum : ℤ) then .lockShrink else .test }
  | .lockShrink => do
    s.use .mutexPool
    .ok { s with managerPc := .setExit, monitor := s.monitor.lock .manager }
  | .setExit => .ok { s with managerPc := .unlockShrink, exitNum := NUMBER }
  | .unlockShrink => do
    s.use .mutexPool
    .ok { s with managerPc := .signal 0, monitor := s.monitor.unlock }

/-- One round of the loop that signals `NUMBER` times. -/
def managerSignal (s : MyThreadPool minNum maxNum) (woken : Finset Tid) :
    Except Fault (MyThreadPool minNum maxNum) :=
  match s.managerPc with
  | .signal i => do
    s.use .notEmpty
    .ok { s with
      managerPc := if i + 1 < NUMBER then .signal (i + 1) else .test
      monitor := s.monitor.wake woken }
  | _ => .ok s

def destroy (s : MyThreadPool minNum maxNum) : MyThreadPool minNum maxNum :=
  match s.destructor with
  | .notCalled => { s with shutdown := true, destructor := .joinManager }
  | .joinManager => { s with destructor := .testLive 0 }
  | .testLive i =>
    { s with destructor := if (i : ℤ) < s.liveNum then .signal i else .deleteTaskQ }
  | .deleteTaskQ => { s with destructor := .deleteThreadIDs }
  | .deleteThreadIDs => { s with destructor := .destroyMutex }
  | .destroyMutex => { s with destructor := .destroyCond }
  | .destroyCond => { s with destructor := .finished }
  | .signal _ | .finished => s

def destroySignal (s : MyThreadPool minNum maxNum) (woken : Finset Tid) :
    MyThreadPool minNum maxNum :=
  match s.destructor with
  | .signal i => { s with destructor := .testLive (i + 1), monitor := s.monitor.wake woken }
  | _ => s

def step (s : MyThreadPool minNum maxNum) : Label → Except Fault (MyThreadPool minNum maxNum)
  | .construct => s.construct
  | .addTask task => .ok (s.addTask task)
  | .push task => s.push task
  | .signal woken => s.signal woken
  | .worker w => s.worker w
  | .manager => s.manager
  | .managerSignal woken => s.managerSignal woken
  | .destroy => .ok s.destroy
  | .destroySignal woken => .ok (s.destroySignal woken)
  | .spurious t => .ok { s with monitor := s.monitor.wake {t} }

/-- `pthread_mutex_lock` waits until the mutex is free; a mutex that was destroyed does not
keep a thread from trying. -/
def Acquirable (s : MyThreadPool minNum maxNum) : Prop :=
  s.monitor.holder = none ∨ .mutexPool ∈ s.destructor.released

def ready (s : MyThreadPool minNum maxNum) (w : ℕ) : Prop :=
  match (s.workers w).pc with
  | .notCreated | .exited => False
  | .lock | .lockEnd => s.Acquirable
  | .waiting => .worker w ∉ s.monitor.blocked ∧ s.Acquirable
  | _ => True

def managerReady (s : MyThreadPool minNum maxNum) : Prop :=
  match s.managerPc with
  | .notCreated | .signal _ | .exited => False
  | .lockRead | .lockGrow | .lockShrink => s.Acquirable
  | _ => True

/-- A pool is used and destroyed when its constructor has returned. -/
def enabled (s : MyThreadPool minNum maxNum) : Label → Prop
  | .construct => s.constructor ≠ .returned
  | .addTask _ => s.constructor = .returned
  | .push task => task ∈ s.adding
  | .signal woken => 0 < s.signalling ∧ s.monitor.Signals woken
  | .worker w => s.ready w
  | .manager => s.managerReady
  | .managerSignal woken =>
    match s.managerPc with
    | .signal _ => s.monitor.Signals woken
    | _ => False
  | .destroy =>
    match s.destructor with
    | .notCalled => s.constructor = .returned
    | .joinManager => s.managerPc = .exited
    | .signal _ | .finished => False
    | _ => True
  | .destroySignal woken =>
    match s.destructor with
    | .signal _ => s.monitor.Signals woken
    | _ => False
  | .spurious t => t ∈ s.monitor.blocked

instance (s : MyThreadPool minNum maxNum) : Decidable s.Acquirable :=
  inferInstanceAs (Decidable (_ ∨ _))

instance (s : MyThreadPool minNum maxNum) (w : ℕ) : Decidable (s.ready w) := by
  unfold ready
  split <;> infer_instance

instance (s : MyThreadPool minNum maxNum) : Decidable s.managerReady := by
  unfold managerReady
  split <;> infer_instance

instance (s : MyThreadPool minNum maxNum) (a : Label) : Decidable (s.enabled a) := by
  unfold enabled
  split <;> try infer_instance
  all_goals split <;> infer_instance

/-- All that the threads of the program can do to a pool. -/
def system (minNum maxNum : ℕ) : System (MyThreadPool minNum maxNum) Label Fault where
  enabled := enabled
  step := step

instance (s : MyThreadPool minNum maxNum) (a : Label) :
    Decidable ((system minNum maxNum).enabled s a) :=
  inferInstanceAs (Decidable (s.enabled a))

end MyThreadPool

end LxcHttpServer
