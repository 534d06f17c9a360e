import Mathlib.Data.List.Basic

/-!
# Heads of messages

The head of a message is a list of lines, each with a separator behind it, and a
separator by itself. If no line is empty or contains the element with which the
separator begins, a message has one head and one body.
-/
namespace LxcHttpServer.MessageHeads

variable {α : Type} {sep l l' : List α} {mark : α} {lines lines' : List (List α)}
  {body body' : List α}

/-- The lines with the separator behind each of them, and the separator. -/
def frame (sep : List α) (lines : List (List α)) : List α := (lines.map (· ++ sep)).flatten ++ sep

@[simp] theorem frame_nil (sep : List α) : frame sep [] = sep := List.nil_append sep

@[simp] theorem frame_cons (sep l : List α) (lines : List (List α)) :
    frame sep (l :: lines) = l ++ sep ++ frame sep lines := by
  simp [frame]

theorem length_frame_le {k : ℕ} (sep : List α) (h : ∀ l ∈ lines, l.length ≤ k) :
    (frame sep lines).length ≤ lines.length * (k + sep.length) + sep.length := by
  induction lines with
  | nil => simp
  | cons l lines ih =>
    have hl := h l List.mem_cons_self
    have hlines := ih fun l hl => h l (List.mem_cons_of_mem _ hl)
    simp only [frame_cons, List.length_append, List.length_cons, Nat.succ_mul]
    omega

/-- What stands before the first mark is determined. -/
theorem append_mark_inj (hl : mark ∉ l) (hl' : mark ∉ l')
    (h : l ++ mark :: body = l' ++ mark :: body') : l = l' ∧ body = body' := by
  induction l generalizing l' with
  | nil =>
    cases l' with
    | nil => exact ⟨rfl, (List.cons.inj h).2⟩
    | cons a l' =>
      have hmark : mark = a := (List.cons.inj h).1
      exact absurd (hmark ▸ List.mem_cons_self) hl'
  | cons a l ih =>
    cases l' with
    | nil =>
      have hmark : a = mark := (List.cons.inj h).1
      exact absurd (hmark ▸ List.mem_cons_self) hl
    | cons a' l' =>
      obtain ⟨rfl, htail⟩ := List.cons.inj h
      obtain ⟨rfl, hbody⟩ := ih (List.not_mem_of_not_mem_cons hl)
        (List.not_mem_of_not_mem_cons hl') htail
      exact ⟨rfl, hbody⟩

/-- A line of a head. -/
def Line (mark : α) (l : List α) : Prop := l ≠ [] ∧ mark ∉ l

/-- Nothing that begins with the separator begins with a line. -/
theorem Line.append_ne (h : Line mark l) : l ++ body ≠ mark :: body' := by
  intro heq
  obtain ⟨a, l, rfl⟩ := List.exists_cons_of_ne_nil h.1
  have hmark : a = mark := (List.cons.inj heq).1
  exact h.2 (hmark ▸ List.mem_cons_self)

theorem frame_append_inj (hlines : ∀ l ∈ lines, Line mark l) (hlines' : ∀ l ∈ lines', Line mark l)
    (h : frame (mark :: sep) lines ++ body = frame (mark :: sep) lines' ++ body') :
    lines = lines' ∧ body = body' := by
  induction lines generalizing lines' with
  | nil =>
    cases lines' with
    | nil => exact ⟨rfl, by simpa using h⟩
    | cons l' lines' =>
      simp only [frame_nil, frame_cons, List.append_assoc, List.cons_append] at h
      exact absurd h.symm (hlines' l' List.mem_cons_self).append_ne
  | cons l lines ih =>
    cases lines' with
    | nil =>
      simp only [frame_nil, frame_cons, List.append_assoc, List.cons_append] at h
      exact absurd h (hlines l List.mem_cons_self).append_ne
    | cons l' lines' =>
      simp only [frame_cons, List.append_assoc, List.cons_append] at h
      obtain ⟨rfl, htail⟩ := append_mark_inj (hlines l List.mem_cons_self).2
        (hlines' l' List.mem_cons_self).2 h
      obtain ⟨rfl, hbody⟩ := ih (fun l hl => hlines l (List.mem_cons_of_mem _ hl))
        (fun l hl => hlines' l (List.mem_cons_of_mem _ hl)) (List.append_cancel_left htail)
      exact ⟨rfl, hbody⟩

end LxcHttpServer.MessageHeads
