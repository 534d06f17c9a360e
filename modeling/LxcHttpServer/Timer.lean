import LxcHttpServer.IteratorLists
import LxcHttpServer.Kernel

/-!
# The keep-alive timer of `Timer.cpp`

A list of nodes in order of expiry, a map from client descriptors to iterators into
that list, and a counter. All operations run under one mutex, so each is a function
of the timer and the kernel. An access the list gives no meaning to is an error.
-/
namespace LxcHttpServer
open IteratorLists

structure Node where
  clientFd : ℤ
  curTime : TimeVal
  expireTime : TimeVal
  deriving DecidableEq

/-- `Node::Node` with `setExpireTime`. -/
def Node.new (clientfd timeout : ℤ) (k : Kernel) : Node :=
  let curTime := k.gettimeofday
  ⟨clientfd, curTime, { curTime with tvSec := curTime.tvSec + timeout }⟩

structure Timer where
  timeList : IteratorList Node
  hashMap : AList (fun _ : ℤ => Iterator)
  timeout : ℤ
  curSize : ℤ
  maxSize : ℤ

/-- The timer and the kernel objects its operations reach. -/
structure Server where
  timer : Timer
  kernel : Kernel

def Timer.new (timeout maxSize : ℤ) : Timer := ⟨.empty, ∅, timeout, 0, maxSize⟩

namespace Timer

/-- The descriptor has an entry in the map. -/
def Registered (t : Timer) (fd : ℤ) : Prop := fd ∈ t.hashMap

/-- The descriptor has an entry, and its iterator is past the end. -/
def Forbidden (t : Timer) (fd : ℤ) : Prop := t.hashMap.lookup fd = some .pastEnd

instance (t : Timer) (fd : ℤ) : Decidable (t.Registered fd) := inferInstanceAs (Decidable (_ ∈ _))

instance (t : Timer) (fd : ℤ) : Decidable (t.Forbidden fd) := inferInstanceAs (Decidable (_ = _))

/-- `timeList.insert(timeList.end(), Node(clientFd, timeout))` and its iterator. -/
def insertNode (t : Timer) (clientFd : ℤ) (k : Kernel) : IteratorList Node × Iterator :=
  t.timeList.insertEnd (Node.new clientFd t.timeout k)

def addfd (clientFd : ℤ) (s : Server) : Bool × Server :=
  if s.timer.curSize ≥ s.timer.maxSize then (false, s)
  else if clientFd ∉ s.timer.hashMap then
    let (timeList, it) := s.timer.insertNode clientFd s.kernel
    (true, { timer := { s.timer with
                timeList := timeList
                hashMap := s.timer.hashMap.insert clientFd it
                curSize := s.timer.curSize + 1 }
             kernel := s.kernel.addFdToEpollInetOneshot clientFd })
  else
    -- the iterator that was stored for the descriptor is overwritten, its node stays
    let (timeList, it) := s.timer.insertNode clientFd s.kernel
    (true, { timer := { s.timer with
                timeList := timeList
                hashMap := s.timer.hashMap.insert clientFd it }
             kernel := s.kernel.resetOneshotInetOneshot clientFd })

/-- The body of the expiry loop, with the node at the head of the list. -/
def expireFront (front : Node) (s : Server) : Server :=
  { timer := { s.timer with
      hashMap := s.timer.hashMap.erase front.clientFd
      timeList := s.timer.timeList.popFront
      curSize := s.timer.curSize - 1 }
    kernel := (s.kernel.deleteFdFromEpoll front.clientFd).close front.clientFd }

def deleteExpiredLoop (curtime : TimeVal) (s : Server) : Except IteratorFault Server :=
  if s.timer.curSize > 0 then
    match _hfront : s.timer.timeList.front with
    | .error fault => .error fault
    | .ok front =>
      if curtime.tvSec > front.expireTime.tvSec then
        deleteExpiredLoop curtime (expireFront front s)
      else .ok s
  else .ok s
termination_by s.timer.timeList.size
decreasing_by
  simp only [IteratorList.front] at _hfront
  split at _hfront
  · cases _hfront
  · next p ps hnodes => simp [expireFront, IteratorList.size, hnodes]

def deleteExpiredFd (s : Server) : Except IteratorFault Server :=
  deleteExpiredLoop s.kernel.gettimeofday s

def deleteFd (clientFd : ℤ) (s : Server) : Except IteratorFault Server :=
  match s.timer.hashMap.lookup clientFd with
  | none => .ok s
  | some it =>
    match s.timer.timeList.erase it with
    | .error fault => .error fault
    | .ok timeList =>
      .ok { timer := { s.timer with
              timeList := timeList
              hashMap := s.timer.hashMap.erase clientFd
              curSize := s.timer.curSize - 1 }
            kernel := s.kernel.deleteFdFromEpoll clientFd }

def forbidenFd (clientFd : ℤ) (s : Server) : Except IteratorFault Server :=
  match s.timer.hashMap.lookup clientFd with
  | none => .ok s
  | some it =>
    match s.timer.timeList.erase it with
    | .error fault => .error fault
    | .ok timeList =>
      .ok { s with timer := { s.timer with
              timeList := timeList
              hashMap := s.timer.hashMap.insert clientFd .pastEnd } }

end Timer
end LxcHttpServer
