import LxcHttpServer.AsyncLoger
import LxcHttpServer.FlushQueues

/-!
# A buffer as a queue of bytes

`Buffer` with the file it is written to, used as its class asks for: a text is appended only after
`appendAvailable` has found room for it, and a `write` writes the whole buffer or fails. The
constructor sets neither `bufferSize` nor `endPos`, so what the memory held decides what the buffer
is.
-/
namespace LxcHttpServer.Buffer
open PartialRuns FlushQueues AsyncLoger

/-- No array in memory is longer. -/
def PTRDIFF_MAX : ℕ := 9223372036854775807

/-- A text that stands somewhere in memory. -/
structure Text where
  chars : Str
  fits : chars.length ≤ PTRDIFF_MAX

/-- What the memory of a buffer holds for which `new` finds an array. -/
structure Memory extends RawBuffer where
  fits : bufferSize ≤ PTRDIFF_MAX

/-- A buffer, and what it has written. -/
structure Filed where
  buffer : Buffer
  file : Str

inductive Use where
  | append (text : Text)
  | writeToFile (written : Bool)

namespace Filed

/-- The buffer that `Buffer(n)` makes. -/
def start (m : Memory) (n : ℕ) : Filed where
  buffer := Buffer.new m.toRawBuffer 0 n
  file := []

def step (s : Filed) : Use → Except Fault Filed
  | .append text => do
    let buffer ← s.buffer.append text.chars
    .ok { s with buffer := buffer }
  | .writeToFile written => do
    let (text, buffer) ← s.buffer.writeToFile written
    .ok { buffer := buffer, file := s.file ++ text }

def enabled (s : Filed) : Use → Prop
  | .append text => s.buffer.appendAvailable text.chars.length = true
  | .writeToFile _ => True

def system : System Filed Use Fault where
  enabled := enabled
  step := step

end Filed

/-- The operation of a queue that a use of the buffer stands for. -/
def Use.operation : Use → Operation UInt8
  | .append text => .append text.chars
  | .writeToFile written => .flush written

/-- The buffer has the array of `n` bytes and leaves it in no use, it holds what is pending and the
file what was handed over. -/
structure Represents (n : ℕ) (s : Filed) (q : Queue UInt8) : Prop where
  allocated : s.buffer.chars.length = n
  safe : ∀ a, s.enabled a → ∃ s', s.step a = .ok s'
  empty : s.buffer.empty = true ↔ q.pending = []
  pending : s.buffer.pending = q.pending
  file : s.file = q.delivered

/-- However the buffer is used, it represents a queue of capacity `n` that is used the same way and
was empty at the beginning, and the file and what is pending are what was appended. -/
def BehavesAsQueue (m : Memory) (n : ℕ) : Prop := ∀ as s, Filed.system.Run (.start m n) as s →
  (∃ q, (Queue.system UInt8 n).Run .empty (as.map Use.operation) q ∧ Represents n s q) ∧
    s.file ++ s.buffer.pending = (as.map Use.operation).flatMap Operation.appended

variable {m : Memory} {n : ℕ} {s s' : Filed} {q : Queue UInt8} {a : Use}

/-- The buffer has its size, and `endPos` is zero or leaves room for a date. -/
structure Holds (n : ℕ) (s : Filed) (q : Queue UInt8) : Prop where
  small : n ≤ PTRDIFF_MAX
  bufferSize : s.buffer.bufferSize = n
  allocated : s.buffer.chars.length = n
  room : s.buffer.endPos = 0 ∨ s.buffer.endPos + DATE_STRING_LEGTH < n
  pending : s.buffer.pending = q.pending
  file : s.file = q.delivered

theorem Holds.endPos_le (h : Holds n s q) : s.buffer.endPos ≤ n := by
  rcases h.room with hzero | hroom <;> omega

theorem Holds.length_pending (h : Holds n s q) : q.pending.length = s.buffer.endPos := by
  rw [← h.pending, Buffer.pending, List.length_take, h.allocated]
  exact Nat.min_eq_left h.endPos_le

/-- The sum of `appendAvailable` does not wrap around. -/
theorem Holds.appendAvailable_iff (h : Holds n s q) (text : Text) :
    s.buffer.appendAvailable text.chars.length = true ↔
      s.buffer.endPos + text.chars.length + DATE_STRING_LEGTH < n := by
  have hend := h.endPos_le
  have hsmall := h.small
  have hfits := text.fits
  have hroom := h.room
  have hsum : s.buffer.endPos + text.chars.length + DATE_STRING_LEGTH < UInt64.size := by
    simp only [PTRDIFF_MAX, DATE_STRING_LEGTH, UInt64.size] at *
    omega
  rw [appendAvailable_iff_of_lt hsum, h.bufferSize]

theorem Holds.start (hsize : m.bufferSize = n) (hend : m.endPos = 0) :
    Holds n (.start m n) .empty where
  small := hsize ▸ m.fits
  bufferSize := hsize
  allocated := m.allocated.trans hsize
  room := .inl hend
  pending := by
    have hstart : (Filed.start m n).buffer.endPos = 0 := hend
    rw [Buffer.pending, hstart]
    rfl
  file := rfl

/-- A step that is taken is one of the queue, and keeps the invariant. -/
theorem Holds.step (h : Holds n s q) (hen : s.enabled a) (hstep : s.step a = .ok s') :
    q.Admits n a.operation ∧ Holds n s' (q.apply a.operation) := by
  cases a with
  | append text =>
    have hroom := (h.appendAvailable_iff text).mp hen
    obtain ⟨b, happend, heq⟩ := bind_eq_ok_iff.mp hstep
    cases heq
    have hext := append_extends happend
    have hadmits : q.pending.length + text.chars.length ≤ n := by
      rw [h.length_pending]
      omega
    refine ⟨hadmits, h.small, ?_, ?_, ?_, ?_, h.file⟩
    · rw [hext.bufferSize, h.bufferSize]
    · rw [hext.allocated, h.allocated]
    · rw [hext.endPos]
      exact .inr hroom
    · rw [hext.pending, h.pending]
      rfl
  | writeToFile written =>
    obtain ⟨⟨text, b⟩, hwrite, heq⟩ := bind_eq_ok_iff.mp hstep
    cases heq
    refine ⟨trivial, ?_⟩
    cases written with
    | true =>
      obtain ⟨rfl, rfl⟩ := written_eq hwrite
      refine ⟨h.small, h.bufferSize, h.allocated, .inl rfl, rfl, ?_⟩
      rw [h.file, h.pending]
      rfl
    | false =>
      obtain ⟨rfl, rfl⟩ := failed_eq hwrite
      rw [List.append_nil]
      exact h

/-- Where the invariant holds nothing leaves the array. -/
theorem Holds.represents (h : Holds n s q) : Represents n s q where
  allocated := h.allocated
  safe := by
    intro a hen
    cases a with
    | append text =>
      have hroom := (h.appendAvailable_iff text).mp hen
      have hfits : s.buffer.endPos + text.chars.length ≤ s.buffer.chars.length := by
        rw [h.allocated]
        omega
      obtain ⟨b, happend⟩ := append_ok hfits
      exact ⟨_, bind_eq_ok_iff.mpr ⟨b, happend, rfl⟩⟩
    | writeToFile written =>
      have hinside : s.buffer.endPos ≤ s.buffer.chars.length := h.allocated ▸ h.endPos_le
      obtain ⟨r, hwrite⟩ := writeToFile_ok written hinside
      exact ⟨_, bind_eq_ok_iff.mpr ⟨r, hwrite, rfl⟩⟩
  empty := by
    rw [← List.length_eq_zero_iff, h.length_pending, Buffer.empty, decide_eq_true_iff]
  pending := h.pending
  file := h.file

/-- The buffer is a queue of capacity `n` exactly if its memory held `n` for `bufferSize` and zero
for `endPos`. -/
theorem behaves_as_queue_iff (m : Memory) (n : ℕ) :
    BehavesAsQueue m n ↔ m.bufferSize = n ∧ m.endPos = 0 := by
  constructor
  · intro hall
    obtain ⟨⟨q, hrun, hrep⟩, -⟩ := hall [] _ .nil
    cases hrun.of_nil
    have hempty := hrep.empty.mpr rfl
    exact ⟨m.allocated.symm.trans hrep.allocated, decide_eq_true_iff.mp hempty⟩
  · rintro ⟨hsize, hend⟩ as s hrun
    have hsteps : ∀ s a s' q, Holds n s q → Filed.system.enabled s a →
        Filed.system.step s a = .ok s' → ∃ q', (Queue.system UInt8 n).enabled q a.operation ∧
          (Queue.system UInt8 n).step q a.operation = .ok q' ∧ Holds n s' q' := by
      intro s a s' q hs hen hstep
      obtain ⟨hadmits, hs'⟩ := hs.step hen hstep
      exact ⟨q.apply a.operation, hadmits, rfl, hs'⟩
    obtain ⟨q, hq, hholds⟩ := hrun.simulates (Holds.start hsize hend) hsteps
    refine ⟨⟨q, hq, hholds.represents⟩, ?_⟩
    rw [hholds.file, hholds.pending, Queue.delivered_append_pending hq]

/-- Memory in which `endPos` is one. -/
def usedMemory : Memory where
  bufferSize := 32
  endPos := 1
  chars := List.replicate 32 0
  allocated := rfl
  fits := by decide

/-- A buffer is made in used memory and is not empty. -/
theorem not_behaves_as_queue : ¬ ∀ m n, BehavesAsQueue m n := by
  intro hall
  obtain ⟨⟨q, hrun, hrep⟩, -⟩ := hall usedMemory 32 [] _ .nil
  cases hrun.of_nil
  have hempty := hrep.empty.mpr rfl
  cases hempty

end LxcHttpServer.Buffer
