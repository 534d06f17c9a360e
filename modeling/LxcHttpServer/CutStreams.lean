import Mathlib.Data.List.Basic
import Mathlib.Logic.Function.Iterate

/-!
# Streams that arrive in chunks

A reader holds a buffer and fetches the next chunk when the buffer is empty. What it
reads is the stream; where the chunks end shows only in what stands in the buffer.
-/
namespace LxcHttpServer.CutStreams

structure Cut (α : Type) where
  buffer : List α
  chunks : List (List α)
  nonempty : ∀ chunk ∈ chunks, chunk ≠ []

namespace Cut

variable {α : Type} {c : Cut α} {n : ℕ}

/-- What is in the buffer, and what the chunks still bring. -/
def stream (c : Cut α) : List α := c.buffer ++ c.chunks.flatten

/-- Fetches a chunk if the buffer is empty and there is one. -/
def load : Cut α → Cut α
  | ⟨[], chunk :: chunks, h⟩ => ⟨chunk, chunks, fun x hx => h x (List.mem_cons_of_mem chunk hx)⟩
  | c => c

/-- The reader after it has taken one element. -/
def next (c : Cut α) : Cut α := { c.load with buffer := c.load.buffer.tail }

/-- The reader after it has taken `n` elements, without fetching ahead. -/
def advance (n : ℕ) (c : Cut α) : Cut α := next^[n] c

@[simp] theorem stream_mk (buffer : List α) (chunks : List (List α)) (h) :
    stream ⟨buffer, chunks, h⟩ = buffer ++ chunks.flatten := rfl

theorem load_of_buffer (h : c.buffer ≠ []) : c.load = c := by
  obtain ⟨buffer, chunks, hne⟩ := c
  cases buffer with
  | nil => exact absurd rfl h
  | cons a buffer => rfl

@[simp] theorem stream_load (c : Cut α) : c.load.stream = c.stream := by
  obtain ⟨buffer, chunks, hne⟩ := c
  cases buffer with
  | cons a buffer => rfl
  | nil =>
    cases chunks with
    | nil => rfl
    | cons chunk chunks => rfl

/-- Only at the end of the stream nothing is fetched. -/
theorem buffer_load_eq_nil : c.load.buffer = [] ↔ c.stream = [] := by
  obtain ⟨buffer, chunks, hne⟩ := c
  cases buffer with
  | cons a buffer => simp [load]
  | nil =>
    cases chunks with
    | nil => simp [load]
    | cons chunk chunks => simp [load, hne chunk List.mem_cons_self]

@[simp] theorem load_load (c : Cut α) : c.load.load = c.load := by
  by_cases h : c.load.buffer = []
  · obtain ⟨buffer, chunks, hne⟩ := c
    cases buffer with
    | cons a buffer => rfl
    | nil =>
      cases chunks with
      | nil => rfl
      | cons chunk chunks => exact absurd h (hne chunk List.mem_cons_self)
  · exact load_of_buffer h

@[simp] theorem next_load (c : Cut α) : c.load.next = c.next := by
  rw [next, load_load, next]

theorem stream_next (c : Cut α) : c.next.stream = c.stream.tail := by
  rw [← stream_load c]
  by_cases h : c.load.buffer = []
  · have hend : c.load.stream = [] := by rw [stream_load, ← buffer_load_eq_nil, h]
    have hchunks : c.load.chunks.flatten = [] := by
      rw [stream, h, List.nil_append] at hend
      exact hend
    simp [next, stream, h, hchunks]
  · rw [next, stream, stream, List.tail_append_of_ne_nil h]

theorem advance_succ (n : ℕ) (c : Cut α) : c.advance (n + 1) = c.next.advance n := rfl

theorem advance_succ' (n : ℕ) (c : Cut α) : c.advance (n + 1) = (c.advance n).next :=
  Function.iterate_succ_apply' next n c

theorem advance_add (m n : ℕ) (c : Cut α) : c.advance (m + n) = (c.advance m).advance n := by
  rw [Nat.add_comm]
  exact Function.iterate_add_apply next n m c

theorem load_advance_of_pos (h : 0 < n) (c : Cut α) : c.load.advance n = c.advance n := by
  cases n with
  | zero => exact absurd h (Nat.lt_irrefl 0)
  | succ n => rw [advance_succ, next_load, advance_succ]

@[simp] theorem stream_advance (n : ℕ) (c : Cut α) : (c.advance n).stream = c.stream.drop n := by
  induction n generalizing c with
  | zero => rfl
  | succ n ih => rw [advance_succ, ih, stream_next, List.drop_tail]

theorem next_cons (a : α) (buffer : List α) (chunks : List (List α)) (h) :
    next ⟨a :: buffer, chunks, h⟩ = ⟨buffer, chunks, h⟩ := rfl

theorem advance_buffer (buffer : List α) (chunks : List (List α)) (h) :
    advance buffer.length ⟨buffer, chunks, h⟩ = ⟨[], chunks, h⟩ := by
  induction buffer with
  | nil => rfl
  | cons a buffer ih => rw [List.length_cons, advance_succ, next_cons, ih]

/-- Past whole chunks. -/
theorem advance_chunks (before after : List (List α)) (h) (h') :
    advance before.flatten.length ⟨[], before ++ after, h⟩ = ⟨[], after, h'⟩ := by
  induction before with
  | nil => rfl
  | cons chunk before ih =>
    have hpos : 0 < chunk.length := List.length_pos_of_ne_nil (h chunk List.mem_cons_self)
    have hrest : ∀ x ∈ before ++ after, x ≠ [] := fun x hx => h x (List.mem_cons_of_mem chunk hx)
    have hload : load ⟨[], chunk :: before ++ after, h⟩ = ⟨chunk, before ++ after, hrest⟩ := rfl
    rw [List.flatten_cons, List.length_append, advance_add, ← load_advance_of_pos hpos, hload,
      advance_buffer, ih hrest]

theorem advance_of_split {chunks before after : List (List α)} {h}
    (hsplit : chunks = before ++ after) :
    (advance before.flatten.length ⟨[], chunks, h⟩).buffer = [] ∧
      (advance before.flatten.length ⟨[], chunks, h⟩).chunks = after := by
  subst hsplit
  have hafter : ∀ x ∈ after, x ≠ [] := fun x hx => h x (List.mem_append_right before hx)
  rw [advance_chunks before after h hafter]
  exact ⟨rfl, rfl⟩

/-- The chunks that are left are the last ones. -/
theorem chunks_advance (n : ℕ) (c : Cut α) :
    ∃ before, c.chunks = before ++ (c.advance n).chunks := by
  induction n generalizing c with
  | zero => exact ⟨[], rfl⟩
  | succ n ih =>
    obtain ⟨before, hbefore⟩ := ih c.next
    rw [advance_succ]
    obtain ⟨buffer, chunks, hne⟩ := c
    cases buffer with
    | cons a buffer => exact ⟨before, hbefore⟩
    | nil =>
      cases chunks with
      | nil => exact ⟨before, hbefore⟩
      | cons chunk chunks => exact ⟨chunk :: before, by rw [List.cons_append, ← hbefore]; rfl⟩

/-- The reader of chunks has an empty buffer exactly between two of them. -/
theorem buffer_advance_eq_nil {chunks : List (List α)} {h} (hn : n ≤ chunks.flatten.length) :
    (advance n ⟨[], chunks, h⟩).buffer = [] ↔
      ∃ before after, chunks = before ++ after ∧ before.flatten.length = n := by
  constructor
  · intro hempty
    obtain ⟨before, hbefore⟩ := chunks_advance n ⟨[], chunks, h⟩
    refine ⟨before, _, hbefore, ?_⟩
    have hstream := congrArg List.length (stream_advance n ⟨[], chunks, h⟩)
    have hsplit := congrArg (fun cs => cs.flatten.length) hbefore
    simp only [stream, hempty, List.nil_append, List.length_drop] at hstream
    simp only [List.flatten_append, List.length_append] at hsplit
    omega
  · rintro ⟨before, after, hsplit, rfl⟩
    exact (advance_of_split hsplit).1

end Cut
end LxcHttpServer.CutStreams
