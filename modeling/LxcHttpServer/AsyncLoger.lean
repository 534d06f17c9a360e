import LxcHttpServer.PartialRuns
import LxcHttpServer.Strings

/-!
# The logger

`AsyncLoger.h` and `AsyncLoger.cpp`. The threads that log, the backend thread and
the one that destroys the logger share the buffers under one mutex; a critical
section is one step, and so is each `write` of the backend and each test of
`running`. What follows a critical section and touches only the backend's own
vector belongs to it. The wait of the backend is timed, so it can end at any
moment. `file` is what has been written to `logFileFd`; `accepted` and `promised`
record what happened and are read by nothing.
-/
namespace LxcHttpServer
open PartialRuns Strings

def LOGBUFFERSIZE : ℕ := 1 * 1024 * 1024

def DATE_STRING_LEGTH : ℕ := 15

inductive AsyncLoger.Fault where
  | nullPointer
  | outOfBounds
deriving DecidableEq

/-- `dataPtr` tells the buffers apart; `chars` is what the array it points to holds. -/
structure Buffer where
  dataPtr : ℕ
  bufferSize : ℕ
  endPos : ℕ
  chars : Str
deriving DecidableEq

/-- What the memory of a `Buffer` and of its array happens to hold. -/
structure RawBuffer where
  bufferSize : ℕ
  endPos : ℕ
  chars : Str
  allocated : chars.length = bufferSize

namespace Buffer
open AsyncLoger

/-- `Buffer(size_t)` allocates `bufferSize` bytes and sets nothing but `dataPtr`. -/
def new (raw : RawBuffer) (dataPtr : ℕ) (_size : ℕ) : Buffer where
  dataPtr := dataPtr
  bufferSize := raw.bufferSize
  endPos := raw.endPos
  chars := raw.chars

def append (b : Buffer) (logLine : Str) : Except Fault Buffer :=
  if b.endPos + logLine.length ≤ b.chars.length then
    .ok { b with
      chars := b.chars.take b.endPos ++ logLine ++ b.chars.drop (b.endPos + logLine.length)
      endPos := b.endPos + logLine.length }
  else .error .outOfBounds

/-- The sum is one of `size_t`. -/
def appendAvailable (b : Buffer) (strLen : ℕ) : Bool :=
  if b.bufferSize ≤ (b.endPos + strLen + DATE_STRING_LEGTH) % UInt64.size then false else true

def empty (b : Buffer) : Bool := b.endPos = 0

/-- What goes to the file, and the buffer afterwards. A `write` that fails returns -1 and
leaves the buffer as it is. -/
def writeToFile (b : Buffer) (written : Bool) : Except Fault (Str × Buffer) :=
  if b.endPos ≤ b.chars.length then
    .ok (if written then (b.chars.take b.endPos, { b with endPos := 0 }) else ([], b))
  else .error .outOfBounds

end Buffer

/-- What `sprintCurTime` writes: four digits of the year and two each of month, day, hour,
minute and second. -/
structure DateString where
  chars : Str
  length_eq : chars.length = 14

/-- `dataStr`, with a blank in the place of the terminator. -/
def stamp (date : DateString) : Str := date.chars ++ str " "

/-- The first `logSize` characters of the line; the end of a long one is overwritten. -/
def storedLine (logline : Str) : Str :=
  if LOGBUFFERSIZE / 2 < logline.length then
    logline.take (LOGBUFFERSIZE / 2 - 17) ++ str "Log Info Too Long"
  else logline

/-- What an accepted line adds to a buffer. -/
def record (date : DateString) (logline : Str) : Str := stamp date ++ storedLine logline

def Buffer.appendRecord (b : Buffer) (date : DateString) (logline : Str) :
    Except AsyncLoger.Fault Buffer := do
  let b ← b.append (stamp date)
  b.append (storedLine logline)

namespace Buffer
open AsyncLoger

variable {b b' : Buffer}

/-- The characters that wait to be written. -/
def pending (b : Buffer) : Str := b.chars.take b.endPos

/-- What `append` and its caller change of a buffer. -/
structure Extends (b b' : Buffer) (text : Str) : Prop where
  dataPtr : b'.dataPtr = b.dataPtr
  bufferSize : b'.bufferSize = b.bufferSize
  allocated : b'.chars.length = b.chars.length
  endPos : b'.endPos = b.endPos + text.length
  pending : b'.pending = b.pending ++ text

theorem Extends.trans {b'' : Buffer} {t t' : Str} (h : b.Extends b' t) (h' : b'.Extends b'' t') :
    b.Extends b'' (t ++ t') where
  dataPtr := by rw [h'.dataPtr, h.dataPtr]
  bufferSize := by rw [h'.bufferSize, h.bufferSize]
  allocated := by rw [h'.allocated, h.allocated]
  endPos := by rw [h'.endPos, h.endPos, List.length_append, Nat.add_assoc]
  pending := by rw [h'.pending, h.pending, List.append_assoc]

theorem append_extends {text : Str} (h : b.append text = .ok b') : b.Extends b' text := by
  unfold append at h
  split_ifs at h with hroom
  cases h
  have htake : (b.chars.take b.endPos).length = b.endPos := by
    rw [List.length_take]
    omega
  refine ⟨rfl, rfl, ?_, rfl, ?_⟩
  · simp only [List.length_append, List.length_drop, htake]
    omega
  · have hlen : b.endPos + text.length = (b.chars.take b.endPos ++ text).length := by
      rw [List.length_append, htake]
    simp only [pending]
    rw [hlen, List.take_left']
    rfl

theorem append_ok {text : Str} (h : b.endPos + text.length ≤ b.chars.length) :
    ∃ b', b.append text = .ok b' := by
  unfold append
  rw [if_pos h]
  exact ⟨_, rfl⟩

/-- Where the sum does not wrap around it is compared with the size. -/
theorem appendAvailable_iff_of_lt {strLen : ℕ}
    (h : b.endPos + strLen + DATE_STRING_LEGTH < UInt64.size) :
    b.appendAvailable strLen = true ↔ b.endPos + strLen + DATE_STRING_LEGTH < b.bufferSize := by
  rw [appendAvailable, Nat.mod_eq_of_lt h]
  by_cases hfull : b.bufferSize ≤ b.endPos + strLen + DATE_STRING_LEGTH
  · simp [hfull]
  · simp [hfull, Nat.lt_of_not_le hfull]

theorem written_eq {text : Str} (h : b.writeToFile true = .ok (text, b')) :
    text = b.pending ∧ b' = { b with endPos := 0 } := by
  unfold writeToFile at h
  split_ifs at h with hinside htrue
  · cases h
    exact ⟨rfl, rfl⟩
  · exact absurd rfl htrue

theorem failed_eq {text : Str} (h : b.writeToFile false = .ok (text, b')) :
    text = [] ∧ b' = b := by
  unfold writeToFile at h
  split_ifs at h with hinside hwritten
  · cases hwritten
  · cases h
    exact ⟨rfl, rfl⟩

theorem writeToFile_ok (written : Bool) (h : b.endPos ≤ b.chars.length) :
    ∃ r, b.writeToFile written = .ok r :=
  ⟨_, if_pos h⟩

theorem appendRecord_extends {date : DateString} {logline : Str}
    (h : b.appendRecord date logline = .ok b') : b.Extends b' (record date logline) := by
  obtain ⟨b₁, hfirst, hsecond⟩ := bind_eq_ok_iff.mp h
  exact (append_extends hfirst).trans (append_extends hsecond)

theorem appendRecord_ok {date : DateString} {logline : Str}
    (h : b.endPos + (record date logline).length ≤ b.chars.length) :
    ∃ b', b.appendRecord date logline = .ok b' := by
  rw [record, List.length_append] at h
  have hstamp : b.endPos + (stamp date).length ≤ b.chars.length := by omega
  obtain ⟨b₁, hfirst⟩ := append_ok hstamp
  have hext := append_extends hfirst
  have hline : b₁.endPos + (storedLine logline).length ≤ b₁.chars.length := by
    rw [hext.endPos, hext.allocated]
    omega
  obtain ⟨b₂, hsecond⟩ := append_ok hline
  exact ⟨b₂, bind_eq_ok_iff.mpr ⟨b₁, hfirst, hsecond⟩⟩

end Buffer

theorem stamp_length (date : DateString) : (stamp date).length = DATE_STRING_LEGTH := by
  have hblank : (str " ").length = 1 := by decide +kernel
  rw [stamp, List.length_append, date.length_eq, hblank]
  rfl

theorem storedLine_length_le (logline : Str) : (storedLine logline).length ≤ LOGBUFFERSIZE / 2 := by
  have htext : (str "Log Info Too Long").length = 17 := by decide +kernel
  unfold storedLine
  split_ifs with hlong
  · rw [List.length_append, List.length_take, htext]
    simp only [LOGBUFFERSIZE] at *
    omega
  · omega

theorem record_length (date : DateString) (logline : Str) :
    (record date logline).length = DATE_STRING_LEGTH + (storedLine logline).length := by
  rw [record, List.length_append, stamp_length]

namespace Buffer

/-- The array has the size the constructor was asked for, and `endPos` lies in it. -/
structure Sound (b : Buffer) : Prop where
  bufferSize : b.bufferSize = LOGBUFFERSIZE
  allocated : b.chars.length = LOGBUFFERSIZE
  endPos : b.endPos ≤ LOGBUFFERSIZE

variable {b b' : Buffer}

/-- In a sound buffer the sum of `appendAvailable` does not wrap around. -/
theorem Sound.appendAvailable_iff (hb : b.Sound) (logline : Str) :
    b.appendAvailable ((storedLine logline).length + DATE_STRING_LEGTH) = true ↔
      b.endPos + (storedLine logline).length + 30 < LOGBUFFERSIZE := by
  have hend := hb.endPos
  have hline := storedLine_length_le logline
  have hsum : b.endPos + ((storedLine logline).length + DATE_STRING_LEGTH) + DATE_STRING_LEGTH <
      UInt64.size := by
    simp only [LOGBUFFERSIZE, DATE_STRING_LEGTH, UInt64.size] at *
    omega
  rw [appendAvailable_iff_of_lt hsum, hb.bufferSize]
  simp only [DATE_STRING_LEGTH]
  omega

/-- Where `appendAvailable` says so a record fits. -/
theorem Sound.stores {date : DateString} {logline : Str} (hb : b.Sound)
    (hroom : b.appendAvailable ((storedLine logline).length + DATE_STRING_LEGTH) = true)
    (h : b.Extends b' (record date logline)) : b'.Sound where
  bufferSize := by rw [h.bufferSize, hb.bufferSize]
  allocated := by rw [h.allocated, hb.allocated]
  endPos := by
    rw [hb.appendAvailable_iff] at hroom
    rw [h.endPos, record_length]
    simp only [DATE_STRING_LEGTH]
    omega

theorem Sound.extends {text : Str} (hb : b.Sound) (h : b.Extends b' text)
    (hroom : b.endPos + text.length ≤ LOGBUFFERSIZE) : b'.Sound where
  bufferSize := by rw [h.bufferSize, hb.bufferSize]
  allocated := by rw [h.allocated, hb.allocated]
  endPos := by rwa [h.endPos]

/-- Nothing was appended yet. -/
structure Fresh (b : Buffer) : Prop extends Sound b where
  start : b.endPos = 0

theorem Fresh.pending (hb : b.Fresh) : b.pending = [] := by
  rw [Buffer.pending, hb.start, List.take_zero]

theorem Fresh.extends {date : DateString} {logline : Str} (hb : b.Fresh)
    (h : b.Extends b' (record date logline)) : b'.Sound := by
  have hline := storedLine_length_le logline
  apply hb.toSound.extends h
  rw [hb.start, record_length]
  simp only [LOGBUFFERSIZE, DATE_STRING_LEGTH] at *
  omega

/-- The memory holds what the constructor does not store. -/
theorem new_fresh {raw : RawBuffer} (h : raw.bufferSize = LOGBUFFERSIZE ∧ raw.endPos = 0)
    (dataPtr size : ℕ) : (Buffer.new raw dataPtr size).Fresh where
  bufferSize := h.1
  allocated := raw.allocated.trans h.1
  endPos := by simp [Buffer.new, h.2]
  start := h.2

end Buffer

/-! ## The logger -/

/-- The places of `threadFun`: the test of `running`, the timed wait, the loop that writes, the
critical section that gives a buffer back, and its end. -/
inductive AsyncLoger.Backend where
  | test
  | waiting
  | writing
  | returning
  | exited
deriving DecidableEq

/-- How far `~AsyncLoger` is. -/
inductive AsyncLoger.Destructor where
  | notCalled
  | stopped
  | notified
  | joined
deriving DecidableEq

/-- A `unique_ptr` is an `Option`; what is moved from is null. -/
structure AsyncLoger where
  running : Bool
  curBuffer : Option Buffer
  emptyBuffers : List (Option Buffer)
  toWriteBuffers : List (Option Buffer)
  writeQueue : List (Option Buffer)
  backend : AsyncLoger.Backend
  destructor : AsyncLoger.Destructor
  file : Str
  accepted : List Str
  promised : List Str
deriving DecidableEq

inductive AsyncLoger.Label where
  | log (date : DateString) (logline : Str)
  | backend
  | writeFails
  | stop
  | notify
  | join

namespace AsyncLoger

/-- The last of the four buffers made becomes the current one. -/
def new (raw : Fin 4 → RawBuffer) : AsyncLoger where
  running := true
  curBuffer := some (Buffer.new (raw 3) 3 LOGBUFFERSIZE)
  emptyBuffers := [some (Buffer.new (raw 0) 0 LOGBUFFERSIZE),
    some (Buffer.new (raw 1) 1 LOGBUFFERSIZE), some (Buffer.new (raw 2) 2 LOGBUFFERSIZE)]
  toWriteBuffers := []
  writeQueue := []
  backend := .test
  destructor := .notCalled
  file := []
  accepted := []
  promised := []

/-- The result is -1, or unspecified: the source has no other return statement. -/
def logInfo (s : AsyncLoger) (date : DateString) (logline : Str) :
    Except Fault (Option ℤ × AsyncLoger) :=
  match s.curBuffer with
  | none => .ok (some (-1), s)
  | some curBuffer =>
    if curBuffer.appendAvailable ((storedLine logline).length + DATE_STRING_LEGTH) then do
      let curBuffer ← curBuffer.appendRecord date logline
      .ok (none, { s with
        curBuffer := some curBuffer
        accepted := s.accepted ++ [record date logline] })
    else
      let toWriteBuffers := s.toWriteBuffers ++ [some curBuffer]
      match s.emptyBuffers.getLast? with
      | none => .ok (none, { s with
          curBuffer := none
          toWriteBuffers := toWriteBuffers })
      | some none => .error .nullPointer
      | some (some curBuffer) => do
        let curBuffer ← curBuffer.appendRecord date logline
        .ok (none, { s with
          curBuffer := some curBuffer
          emptyBuffers := s.emptyBuffers.dropLast
          toWriteBuffers := toWriteBuffers
          accepted := s.accepted ++ [record date logline] })

/-- The loop that empties `toWriteBuffers`: it moves from the back and pops the front. -/
def drain (writeQueue : List (Option Buffer)) : List (Option Buffer) → List (Option Buffer)
  | [] => writeQueue
  | front :: rest =>
    drain (writeQueue ++ [(front :: rest).getLast (List.cons_ne_nil front rest)])
      (((front :: rest).dropLast ++ [none]).tail)
termination_by toWriteBuffers => toWriteBuffers.length

/-- The first half of the critical section: a current buffer is taken in any case, and replaced
if there is an empty one. -/
def takeCurrent (s : AsyncLoger) : AsyncLoger :=
  match s.curBuffer with
  | none => s
  | some curBuffer =>
    { s with
      writeQueue := s.writeQueue ++ [some curBuffer]
      curBuffer := s.emptyBuffers.getLast?.join
      emptyBuffers := s.emptyBuffers.dropLast }

/-- The critical section after the wait. -/
def collect (s : AsyncLoger) : AsyncLoger :=
  { s.takeCurrent with
    writeQueue := drain s.takeCurrent.writeQueue s.takeCurrent.toWriteBuffers
    toWriteBuffers := []
    backend := .writing }

/-- `writeQueue.back()->writeToFile(logFileFd)` -/
def writeBack (s : AsyncLoger) (written : Bool) : Except Fault AsyncLoger :=
  match s.writeQueue.getLast?.join with
  | none => .error .nullPointer
  | some buffer => do
    let (text, buffer) ← buffer.writeToFile written
    .ok { s with
      writeQueue := s.writeQueue.dropLast ++ [some buffer]
      backend := .returning
      file := s.file ++ text }

/-- The next step of the backend, whose writes succeed. -/
def threadFun (s : AsyncLoger) : Except Fault AsyncLoger :=
  match s.backend with
  | .test => .ok { s with backend := if s.running then .waiting else .exited }
  | .waiting => .ok s.collect
  | .writing => if s.writeQueue.isEmpty then .ok { s with backend := .test } else s.writeBack true
  | .returning => .ok { s with
      emptyBuffers := s.emptyBuffers ++ [s.writeQueue.getLast?.join]
      writeQueue := s.writeQueue.dropLast
      backend := .writing }
  | .exited => .ok s

def step (s : AsyncLoger) : Label → Except Fault AsyncLoger
  | .log date logline => do
    let (_, s') ← s.logInfo date logline
    .ok s'
  | .backend => s.threadFun
  | .writeFails => s.writeBack false
  | .stop => .ok { s with running := false, destructor := .stopped, promised := s.accepted }
  | .notify => .ok { s with destructor := .notified }
  | .join => .ok { s with destructor := .joined }

def enabled (s : AsyncLoger) : Label → Prop
  | .log _ _ => s.destructor ≠ .joined
  | .backend => s.backend ≠ .exited
  | .writeFails => s.backend = .writing ∧ s.writeQueue ≠ []
  | .stop => s.destructor = .notCalled
  | .notify => s.destructor = .stopped
  | .join => s.destructor = .notified ∧ s.backend = .exited

/-- All that the threads of the program can do to the logger. -/
def system : System AsyncLoger Label Fault where
  enabled := enabled
  step := step

end AsyncLoger

end LxcHttpServer
