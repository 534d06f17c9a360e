import LxcHttpServer.EffectPrograms
import LxcHttpServer.Strings
import LxcHttpServer.Timer
import Mathlib.Algebra.GroupWithZero.Nat
import Mathlib.Data.List.Perm.Basic

/-!
# The world of one worker

What a worker sees of the client, the file system and its CGI process, and the log of
the calls it makes. The results `recv` and `read` deliver stand in lists; the outcomes
of the other calls may depend on how many calls were made before. `SIGPIPE` has its
default action, so where it is not suppressed it ends the process.
-/
namespace LxcHttpServer
open IteratorLists EffectPrograms

/-- Operations without a meaning. -/
inductive Undefined where
  | iterator (fault : IteratorFault)
  | outOfBounds
  | nullPointer
  | overflow
  deriving DecidableEq

abbrev HTTPDATA_BUFFERSIZE : ℕ := 1024

/-- The bytes one successful `recv` puts into `dataBuffer`. -/
structure Chunk where
  bytes : Str
  nonempty : bytes ≠ []
  fits : bytes.length ≤ HTTPDATA_BUFFERSIZE

inductive RecvResult where
  | data (chunk : Chunk)
  | error
  | closed

inductive ReadResult where
  | data (bytes : Str)
  | error
  | eof

/-- What a call of `send` comes to: it takes all the bytes or the first of them, it fails, or the
peer has closed the connection. -/
inductive SendResult where
  | sent
  | part (count : ℕ)
  | failed
  | broken
  deriving DecidableEq

/-- The call returned something else than -1. -/
def SendResult.goesOn : SendResult → Bool
  | .sent | .part _ => true
  | .failed | .broken => false

/-- What a call of `write` to a CGI process comes to: the pipe takes all the bytes or the first of
them, nobody holds the other end any more, or the call waits for room for ever. -/
inductive WriteResult where
  | written
  | part (count : ℕ)
  | broken (count : ℕ)
  | waits (count : ℕ)
  deriving DecidableEq

/-- The server goes on behind the call. -/
def WriteResult.comesBack : WriteResult → Bool
  | .written | .part _ => true
  | .broken _ | .waits _ => false

inductive StatResult where
  | found (size : ℕ)
  | denied
  | missing
  deriving DecidableEq

/-- The functions that call `send`. -/
inductive Sender where
  | sendStaticFileToClient | serverStaticFile | executeCGI | sendNotFound | sendForBidden
  | sendMemoryPage
  deriving DecidableEq

/-- With `MSG_NOSIGNAL` a broken connection makes `send` fail, without it `SIGPIPE` ends the
process. -/
def Sender.noSignal : Sender → Bool
  | .sendStaticFileToClient | .serverStaticFile | .executeCGI => true
  | .sendNotFound | .sendForBidden | .sendMemoryPage => false

inductive CgiPipe where
  | cgiInput | cgiOutput
  deriving DecidableEq

/-- The calls that leave the worker, with their arguments and results. -/
inductive Call where
  | recv (result : RecvResult)
  | stoi (text : Str)
  | newArray (size : ℤ) (allocated : Bool)
  | stat (path : Str) (result : StatResult)
  | fopen (path : Str) (opened : Bool)
  | fclose (fd : ℤ)
  | send (sender : Sender) (bytes : Str) (result : SendResult)
  | pipe (which : CgiPipe) (created : Bool)
  | fork (created : Bool)
  | write (fd : ℤ) (bytes : Str) (result : WriteResult)
  | read (result : ReadResult)
  | waitpid
  | addfd (fd : ℤ) (accepted : Bool)
  | deleteFd (fd : ℤ)
  | close (fd : ℤ)

abbrev Param : Type := Str × Str

/-- The order in which a `std::unordered_map` is iterated. -/
structure MapOrder where
  order : List Param → List Param
  perm : ∀ ps, (order ps).Perm ps

/-- The outcomes of calls, by the number of calls made before, and the contents of
memory the code has not written. -/
structure Env where
  send : ℕ → SendResult
  write : ℕ → WriteResult
  pipe : ℕ → Bool
  fork : ℕ → Bool
  newArray : ℕ → Bool
  stat : ℕ → Str → StatResult
  /-- The contents of the file, if it can be opened. -/
  fopen : ℕ → Str → Option Str
  memoryIndexPage : Str
  mapOrder : MapOrder
  keepConnectionMemory : Bool
  arrayMemory : ℕ → UInt8
  readBufMemory : ℕ → UInt8

structure World where
  server : Server
  recvs : List RecvResult
  cgiReads : List ReadResult
  calls : List Call

abbrev Work (α : Type) : Type := Prog World Thrown Undefined α

namespace World

def record (c : Call) (w : World) : World := { w with calls := w.calls ++ [c] }

@[simp] theorem calls_record (c : Call) (w : World) : (w.record c).calls = w.calls ++ [c] := rfl
@[simp] theorem server_record (c : Call) (w : World) : (w.record c).server = w.server := rfl
@[simp] theorem recvs_record (c : Call) (w : World) : (w.record c).recvs = w.recvs := rfl
@[simp] theorem cgiReads_record (c : Call) (w : World) : (w.record c).cgiReads = w.cgiReads := rfl

def withKernel (k : Kernel) (w : World) : World :=
  { w with server := { w.server with kernel := k } }

/-- The bytes that `recv` still has to deliver. -/
def RecvResult.size : RecvResult → ℕ
  | .data chunk => chunk.bytes.length
  | .error | .closed => 0

def pending (w : World) : ℕ := (w.recvs.map RecvResult.size).sum

end World

/-! ## The calls -/

namespace Work
open World

def recv : Work RecvResult := fun w =>
  match w.recvs with
  | [] => (.blocked, w)
  | r :: rs => (.ok r, { w with recvs := rs }.record (.recv r))

/-- Whether the call returned something else than -1. -/
def send (env : Env) (sender : Sender) (bytes : Str) : Work Bool := fun w =>
  let result := env.send w.calls.length
  let w := w.record (.send sender bytes result)
  if result = .broken ∧ ¬ sender.noSignal then (.killed, w) else (.ok result.goesOn, w)

def stat (env : Env) (path : Str) : Work StatResult := fun w =>
  let result := env.stat w.calls.length path
  (.ok result, w.record (.stat path result))

/-- The read end and the write end. -/
def pipe (env : Env) (which : CgiPipe) : Work (Option (ℤ × ℤ)) := fun w =>
  if env.pipe w.calls.length then
    let readEnd := w.server.kernel.unusedFd
    let k := w.server.kernel.openFd readEnd
    let writeEnd := k.unusedFd
    (.ok (some (readEnd, writeEnd)), (w.withKernel (k.openFd writeEnd)).record (.pipe which true))
  else (.ok none, w.record (.pipe which false))

/-- The call as the server process sees it. -/
def fork (env : Env) : Work Bool := fun w =>
  let created := env.fork w.calls.length
  (.ok created, w.record (.fork created))

/-- Nothing catches or ignores the `SIGPIPE` of a broken pipe. -/
def write (env : Env) (fd : ℤ) (bytes : Str) : Work Unit := fun w =>
  let result := env.write w.calls.length
  let w := w.record (.write fd bytes result)
  match result with
  | .written | .part _ => (.ok (), w)
  | .broken _ => (.killed, w)
  | .waits _ => (.blocked, w)

/-- Reads at most `count` bytes of what the CGI process has written. -/
def read (count : ℕ) : Work ReadResult := fun w =>
  if count = 0 then (.ok .eof, w.record (.read .eof))
  else match w.cgiReads with
    | [] => (.blocked, w)
    | .data bytes :: rs =>
      if bytes = [] then (.ok .eof, { w with cgiReads := rs }.record (.read .eof))
      else
        let left := if bytes.length ≤ count then rs else .data (bytes.drop count) :: rs
        let r := ReadResult.data (bytes.take count)
        (.ok r, { w with cgiReads := left }.record (.read r))
    | r :: rs => (.ok r, { w with cgiReads := rs }.record (.read r))

def waitpid : Work Unit := fun w => (.ok (), w.record .waitpid)

def fopen (env : Env) (path : Str) : Work (Option (ℤ × Str)) := fun w =>
  match env.fopen w.calls.length path with
  | none => (.ok none, w.record (.fopen path false))
  | some contents =>
    let fd := w.server.kernel.unusedFd
    (.ok (some (fd, contents)),
      (w.withKernel (w.server.kernel.openFd fd)).record (.fopen path true))

def fclose (fd : ℤ) : Work Unit := fun w =>
  (.ok (), (w.withKernel (w.server.kernel.close fd)).record (.fclose fd))

def close (fd : ℤ) : Work Unit := fun w =>
  (.ok (), (w.withKernel (w.server.kernel.close fd)).record (.close fd))

def addfd (fd : ℤ) : Work Bool := fun w =>
  let (accepted, s) := Timer.addfd fd w.server
  (.ok accepted, { w with server := s }.record (.addfd fd accepted))

def deleteFd (fd : ℤ) : Work Unit := fun w =>
  match Timer.deleteFd fd w.server with
  | .error fault => (.undefined (.iterator fault), w.record (.deleteFd fd))
  | .ok s => (.ok (), { w with server := s }.record (.deleteFd fd))

end Work

/-! However `send` and `write` end, they change nothing but the log. -/

@[simp] theorem Work.send_snd (env : Env) (sender : Sender) (bytes : Str) (w : World) :
    (Work.send env sender bytes w).2 = w.record (.send sender bytes (env.send w.calls.length)) := by
  simp only [Work.send]
  split <;> rfl

@[simp] theorem Work.write_snd (env : Env) (fd : ℤ) (bytes : Str) (w : World) :
    (Work.write env fd bytes w).2 = w.record (.write fd bytes (env.write w.calls.length)) := by
  simp only [Work.write]
  split <;> rfl

namespace Work

def stoi (text : Str) : Work ℤ := fun w =>
  match Strings.stoi text with
  | .ok n => (.ok n, w.record (.stoi text))
  | .error e => (.throw e, w.record (.stoi text))

def newArray (env : Env) (size : ℤ) : Work Unit := fun w =>
  let allocated := env.newArray w.calls.length
  let w := w.record (.newArray size allocated)
  if size < 0 then (.throw .badArrayNewLength, w)
  else if allocated then (.ok (), w)
  else (.throw .badAlloc, w)

end Work

/-- Nothing fails, nothing is written that the code does not write, and no file exists. -/
def calmEnv : Env where
  send _ := .sent
  write _ := .written
  pipe _ := true
  fork _ := true
  newArray _ := true
  stat _ _ := .missing
  fopen _ _ := none
  memoryIndexPage := []
  mapOrder := ⟨id, fun ps => List.Perm.refl ps⟩
  keepConnectionMemory := false
  arrayMemory _ := 0
  readBufMemory _ := 0

/-- A new server, with one client and what `recv` delivers of it. -/
def firstClient (fd : ℤ) (recvs : List RecvResult) : World where
  server := ⟨.new 15 1000, Kernel.boot.openFd fd⟩
  recvs := recvs
  cgiReads := []
  calls := []

end LxcHttpServer
