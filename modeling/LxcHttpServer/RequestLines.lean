import LxcHttpServer.CutStreams
import LxcHttpServer.HttpData
import Mathlib.Data.List.Infix

/-!
# The lines `parseOneLine` reads

The lines are a matter of the byte stream alone: where `recv` cuts it decides neither
what a call returns nor where the first call fails.
-/
namespace LxcHttpServer
open EffectPrograms CutStreams

/-- How the deliveries end: `recv` does not return, fails, or finds the connection closed. -/
inductive StreamEnd where
  | silent
  | error
  | closed

def chunksOf : List RecvResult → List Str
  | .data chunk :: rs => chunk.bytes :: chunksOf rs
  | _ => []

def endOf : List RecvResult → StreamEnd
  | [] => .silent
  | .data _ :: rs => endOf rs
  | .error :: _ => .error
  | .closed :: _ => .closed

/-- The byte stream, however it is cut. -/
def delivered (rs : List RecvResult) : Str := (chunksOf rs).flatten

/-- How a call of `recv` ends there. -/
def StreamEnd.failure : StreamEnd → Outcome Thrown Undefined Empty
  | .silent => .blocked
  | .error => .throw (.runtimeError "recv error!\n")
  | .closed => .throw .socketClosed

theorem chunksOf_ne_nil {rs : List RecvResult} : ∀ bytes ∈ chunksOf rs, bytes ≠ [] := by
  induction rs with
  | nil => simp [chunksOf]
  | cons r rs ih =>
    cases r with
    | error => simp [chunksOf]
    | closed => simp [chunksOf]
    | data chunk =>
      intro bytes hbytes
      rcases List.mem_cons.mp hbytes with rfl | hmem
      · exact chunk.nonempty
      · exact ih bytes hmem

/-- The buffer of the object and the deliveries to come. -/
def cutOf (d : HttpData) (w : World) : Cut UInt8 := ⟨d.unread, chunksOf w.recvs, chunksOf_ne_nil⟩

/-- The object with another buffer and another last byte. -/
def HttpData.reading (d : HttpData) (unread : Str) (prev : UInt8) : HttpData :=
  { d with unread := unread, prev := prev }

@[simp] theorem HttpData.prev_reading (d : HttpData) (unread : Str) (prev : UInt8) :
    (d.reading unread prev).prev = prev := rfl

@[simp] theorem HttpData.reading_reading (d : HttpData) (unread unread' : Str)
    (prev prev' : UInt8) :
    (d.reading unread prev).reading unread' prev' = d.reading unread' prev' := rfl

@[simp] theorem HttpData.reading_self (d : HttpData) : d.reading d.unread d.prev = d := rfl

/-- The object stands at a place in the stream. -/
structure StandsAt (c : Cut UInt8) (e : StreamEnd) (d : HttpData) (w : World) : Prop where
  cut : cutOf d w = c
  ending : endOf w.recvs = e

namespace HttpData

variable {c : Cut UInt8} {e : StreamEnd} {d : HttpData} {w : World} {line s l r : Str} {b : UInt8}

theorem refill_ok (h : StandsAt c e d w) (hc : c.stream ≠ []) :
    ∃ w', refill d w = (.ok (d.reading c.load.buffer d.prev), w') ∧
      StandsAt c.load e (d.reading c.load.buffer d.prev) w' := by
  obtain ⟨rfl, rfl⟩ := h
  by_cases hempty : d.unread = []
  · cases hrecvs : w.recvs with
    | nil => simp [cutOf, Cut.stream, hempty, hrecvs, chunksOf] at hc
    | cons r rs =>
      cases r with
      | error => simp [cutOf, Cut.stream, hempty, hrecvs, chunksOf] at hc
      | closed => simp [cutOf, Cut.stream, hempty, hrecvs, chunksOf] at hc
      | data chunk =>
        have hload : (cutOf d w).load = ⟨chunk.bytes, chunksOf rs, chunksOf_ne_nil⟩ := by
          simp only [cutOf, hempty, hrecvs, chunksOf, Cut.load]
        refine ⟨{ w with recvs := rs }.record (.recv (.data chunk)), ?_, ?_⟩
        · rw [hload, refill, if_pos hempty, readRawDataFromSocket, Prog.bind_run]
          simp [Work.recv, hrecvs, reading]
        · rw [hload]
          exact ⟨rfl, by simp [endOf]⟩
  · have hload : (cutOf d w).load = cutOf d w := Cut.load_of_buffer hempty
    refine ⟨w, ?_, ?_⟩
    · rw [hload, refill, if_neg hempty]
      rfl
    · rw [hload]
      exact ⟨rfl, rfl⟩

theorem refill_end (h : StandsAt c e d w) (hc : c.stream = []) :
    (refill d w).1 = e.failure.failing := by
  obtain ⟨rfl, rfl⟩ := h
  obtain ⟨hempty, hchunks⟩ := List.append_eq_nil_iff.mp hc
  have hunread : d.unread = [] := hempty
  rw [refill, if_pos hunread, readRawDataFromSocket, Prog.bind_run]
  cases hrecvs : w.recvs with
  | nil => simp [Work.recv, hrecvs, endOf, StreamEnd.failure, Outcome.failing]
  | cons r rs =>
    cases r with
    | error => simp [Work.recv, hrecvs, endOf, StreamEnd.failure, Outcome.failing]
    | closed => simp [Work.recv, hrecvs, endOf, StreamEnd.failure, Outcome.failing]
    | data chunk =>
      simp only [cutOf, hrecvs, chunksOf, List.flatten_cons, List.append_eq_nil_iff] at hchunks
      exact absurd hchunks.1 chunk.nonempty

theorem refill_eq_ok {d' : HttpData} {w' : World} (h : refill d w = (.ok d', w')) :
    (cutOf d w).stream ≠ [] ∧ StandsAt (cutOf d w).load (endOf w.recvs) d' w' ∧
      d'.prev = d.prev := by
  have hne : (cutOf d w).stream ≠ [] := by
    intro hnil
    have hend := refill_end ⟨rfl, rfl⟩ hnil
    rw [h] at hend
    exact Outcome.ok_ne_failing hend
  obtain ⟨w₁, hrefill, hat⟩ := refill_ok ⟨rfl, rfl⟩ hne
  rw [h] at hrefill
  cases hrefill
  exact ⟨hne, hat, rfl⟩

/-- A loaded buffer gives the next byte of the stream. -/
theorem unread_of_load (h : StandsAt c.load e d w) (hc : c.stream = b :: s) (prev : UInt8) :
    d.unread = b :: c.next.buffer ∧ c.next.stream = s ∧
      StandsAt c.next e (d.reading c.next.buffer prev) w := by
  have hne : c.load.buffer ≠ [] := by
    rw [Ne, Cut.buffer_load_eq_nil, hc]
    exact List.cons_ne_nil b s
  have hbuffer : d.unread = c.load.buffer := congrArg Cut.buffer h.cut
  have hchunks : chunksOf w.recvs = c.load.chunks := congrArg Cut.chunks h.cut
  have hstream : c.load.buffer ++ c.load.chunks.flatten = b :: s := by
    rw [← hc, ← Cut.stream_load c, Cut.stream]
  obtain ⟨x, rest, hx⟩ := List.exists_cons_of_ne_nil hne
  rw [hx, List.cons_append, List.cons.injEq] at hstream
  have hnext : c.next.buffer = rest := by rw [Cut.next, hx, List.tail_cons]
  refine ⟨?_, ?_, ?_, h.ending⟩
  · rw [hbuffer, hx, hstream.1, hnext]
  · rw [Cut.stream_next, hc, List.tail_cons]
  · simp only [cutOf, hchunks]
    rfl

end HttpData

def CRLF : Str := [13, 10]

/-- What stands before the first CR LF and what stands behind it. -/
def nextLine : Str → Option (Str × Str)
  | [] => none
  | b :: s =>
    if b = 13 ∧ s.head? = some 10 then some ([], s.tail)
    else (nextLine s).map fun p => (b :: p.1, p.2)

theorem CRLF_infix_cons {b : UInt8} {s : Str} :
    CRLF <:+: b :: s ↔ (b = 13 ∧ s.head? = some 10) ∨ CRLF <:+: s := by
  rw [List.infix_cons_iff, CRLF, List.cons_prefix_cons]
  cases s with
  | nil => simp
  | cons b' s => simp [eq_comm]

theorem not_CRLF_infix_singleton (b : UInt8) : ¬ CRLF <:+: [b] := by
  intro h
  have hle := h.length_le
  simp [CRLF] at hle

theorem nextLine_eq_none {s : Str} : nextLine s = none ↔ ¬ CRLF <:+: s := by
  induction s with
  | nil => simp [nextLine, CRLF]
  | cons b s ih =>
    rw [nextLine, CRLF_infix_cons]
    split_ifs with h
    · simp [h]
    · simp [h, ih]

/-- The line is cut off at a CR LF and holds none, not even with the CR behind it. -/
theorem nextLine_eq_some {s l r : Str} :
    nextLine s = some (l, r) ↔ s = l ++ CRLF ++ r ∧ ¬ CRLF <:+: l ++ [13] := by
  induction s generalizing l with
  | nil => simp [nextLine, CRLF]
  | cons b s ih =>
    rw [nextLine]
    split_ifs with h
    · obtain ⟨rfl, hs⟩ := h
      obtain ⟨s', rfl⟩ : ∃ s', s = 10 :: s' := List.head?_eq_some_iff.mp hs
      constructor
      · intro heq
        cases heq
        exact ⟨rfl, not_CRLF_infix_singleton 13⟩
      · rintro ⟨heq, hfirst⟩
        cases l with
        | nil =>
          simp only [CRLF, List.nil_append, List.cons_append, List.cons.injEq, true_and] at heq
          simp [heq]
        | cons b' l =>
          exfalso
          rw [List.cons_append, List.cons_append, List.cons.injEq] at heq
          apply hfirst
          rw [List.cons_append, CRLF_infix_cons]
          left
          refine ⟨heq.1.symm, ?_⟩
          have hhead := congrArg List.head? heq.2
          cases l with
          | nil => simp [CRLF] at hhead
          | cons b'' l => simpa [eq_comm] using hhead
    · constructor
      · intro hmap
        obtain ⟨⟨l', r'⟩, hline, heq⟩ := Option.map_eq_some_iff.mp hmap
        cases heq
        obtain ⟨rfl, hfirst⟩ := ih.mp hline
        refine ⟨rfl, ?_⟩
        rw [List.cons_append, CRLF_infix_cons]
        rintro (⟨rfl, hhead⟩ | hcrlf)
        · refine h ⟨rfl, ?_⟩
          cases l' with
          | nil => simp at hhead
          | cons b' l' => exact hhead
        · exact hfirst hcrlf
      · rintro ⟨heq, hfirst⟩
        cases l with
        | nil =>
          simp only [CRLF, List.nil_append, List.cons_append, List.cons.injEq] at heq
          exact absurd ⟨heq.1, by simp [heq.2]⟩ h
        | cons b' l =>
          rw [List.cons_append, List.cons_append, List.cons.injEq] at heq
          obtain ⟨rfl, heq⟩ := heq
          rw [List.cons_append, CRLF_infix_cons, not_or] at hfirst
          simp [ih.mpr ⟨heq, hfirst.2⟩]

theorem not_CRLF_at_end {prev b : UInt8} {t : Str} (hprev : prev ≠ 13)
    (h : ¬ CRLF <:+: t ++ [b]) : ¬ (t.getLastD prev = 13 ∧ b = 10) := by
  rintro ⟨hlast, rfl⟩
  induction t using List.reverseRecOn with
  | nil => exact hprev hlast
  | append_singleton t b _ =>
    rw [List.getLastD_concat] at hlast
    subst hlast
    exact h ⟨t, [], by simp [CRLF]⟩

/-- The first line, if `lineBuffer` holds it with its CR LF. -/
def fittingLine (s : Str) : Option (Str × Str) :=
  (nextLine s).filter fun p => p.1.length + 2 ≤ LINE_BUFFERSIZE

theorem fittingLine_eq_some {s l r : Str} : fittingLine s = some (l, r) ↔
    s = l ++ CRLF ++ r ∧ ¬ CRLF <:+: l ++ [13] ∧ l.length + 2 ≤ LINE_BUFFERSIZE := by
  rw [fittingLine, Option.filter_eq_some_iff, nextLine_eq_some]
  simp [and_assoc]

/-- No line fits if the buffer is full before the first CR LF is complete. -/
theorem fittingLine_eq_none {s : Str} :
    fittingLine s = none ↔ ¬ CRLF <:+: s.take LINE_BUFFERSIZE := by
  constructor
  · intro hnone hcrlf
    have hne : nextLine (s.take LINE_BUFFERSIZE) ≠ none := by
      rw [Ne, nextLine_eq_none, not_not]
      exact hcrlf
    obtain ⟨⟨l, r⟩, hline⟩ := Option.ne_none_iff_exists'.mp hne
    obtain ⟨htake, hfirst⟩ := nextLine_eq_some.mp hline
    have hfits : l.length + 2 ≤ LINE_BUFFERSIZE := by
      have hlength := congrArg List.length htake
      simp only [List.length_take, List.length_append, CRLF, List.length_cons, List.length_nil]
        at hlength
      omega
    have hs : s = l ++ CRLF ++ (r ++ s.drop LINE_BUFFERSIZE) := by
      rw [← List.append_assoc, ← htake, List.take_append_drop]
    rw [fittingLine_eq_some.mpr ⟨hs, hfirst, hfits⟩] at hnone
    cases hnone
  · intro hcrlf
    rw [Option.eq_none_iff_forall_ne_some]
    rintro ⟨l, r⟩ hline
    obtain ⟨rfl, -, hfits⟩ := fittingLine_eq_some.mp hline
    apply hcrlf
    have hpair : (l ++ CRLF).length ≤ LINE_BUFFERSIZE := by simpa [CRLF] using hfits
    rw [List.take_append, List.take_of_length_le hpair]
    exact ⟨l, _, rfl⟩

/-- The lines of a stream up to the first that does not fit, and what is left then. A
call returns a line up to its first NUL. -/
def linesOf (s : Str) : List Str × Str :=
  match _h : fittingLine s with
  | none => ([], s)
  | some (l, r) => (cString l :: (linesOf r).1, (linesOf r).2)
termination_by s.length
decreasing_by
  obtain ⟨rfl, -, -⟩ := fittingLine_eq_some.mp _h
  simp only [List.length_append, CRLF, List.length_cons]
  omega

theorem linesOf_none {s : Str} (h : fittingLine s = none) : linesOf s = ([], s) := by
  rw [linesOf]
  split
  · rfl
  · next l r heq =>
    rw [h] at heq
    cases heq

theorem linesOf_some {s l r : Str} (h : fittingLine s = some (l, r)) :
    linesOf s = (cString l :: (linesOf r).1, (linesOf r).2) := by
  rw [linesOf]
  split
  · next heq =>
    rw [h] at heq
    cases heq
  · next l' r' heq =>
    rw [h] at heq
    cases heq
    rfl

namespace HttpData

variable {c : Cut UInt8} {e : StreamEnd} {d : HttpData} {w : World} {line s l r : Str} {b : UInt8}

/-- A byte that does not end the line and is not the last of the stream. -/
theorem parseOneLineBody_round (line : Str) (h : StandsAt c.load e d w) (hc : c.stream = b :: s)
    (hs : s ≠ []) (hroom : line.length < LINE_BUFFERSIZE) (hpair : ¬ (d.prev = 13 ∧ b = 10)) :
    ∃ w', parseOneLineBody (line, d) w =
        (.ok (.inl (line ++ [b], d.reading c.next.load.buffer b)), w') ∧
      StandsAt c.next.load e (d.reading c.next.load.buffer b) w' := by
  obtain ⟨hunread, hstream, hat⟩ := unread_of_load h hc b
  obtain ⟨w', hrefill, hload⟩ := refill_ok hat (by rwa [hstream])
  refine ⟨w', ?_, hload⟩
  simp only [parseOneLineBody, hunread, if_neg (not_le.mpr hroom), if_neg hpair]
  exact Prog.bind_ok hrefill

/-- The LF of the first CR LF. -/
theorem parseOneLineBody_leave (line : Str) (h : StandsAt c.load e d w) (hc : c.stream = 10 :: s)
    (hroom : line.length < LINE_BUFFERSIZE) (hprev : d.prev = 13) :
    parseOneLineBody (line, d) w =
        (.ok (.inr (line ++ [10], d.reading c.next.buffer 0)), w) ∧
      StandsAt c.next e (d.reading c.next.buffer 0) w := by
  obtain ⟨hunread, -, hat⟩ := unread_of_load h hc 0
  refine ⟨?_, hat⟩
  simp only [parseOneLineBody, hunread, if_neg (not_le.mpr hroom), hprev, true_and, if_pos]
  rfl

theorem parseOneLineBody_full (h : StandsAt c.load e d w) (hc : c.stream = b :: s)
    (hfull : LINE_BUFFERSIZE ≤ line.length) :
    (parseOneLineBody (line, d) w).1 = .undefined .outOfBounds := by
  obtain ⟨hunread, -, -⟩ := unread_of_load h hc 0
  simp only [parseOneLineBody, hunread, if_pos hfull]
  rfl

/-- The last byte of the stream, if it does not end the line. -/
theorem parseOneLineBody_end (h : StandsAt c.load e d w) (hc : c.stream = [b])
    (hroom : line.length < LINE_BUFFERSIZE) (hpair : ¬ (d.prev = 13 ∧ b = 10)) :
    (parseOneLineBody (line, d) w).1 = e.failure.failing := by
  obtain ⟨hunread, hstream, hat⟩ := unread_of_load h hc b
  simp only [parseOneLineBody, hunread, if_neg (not_le.mpr hroom), if_neg hpair]
  exact Prog.bind_failing (refill_end hat hstream)

/-- The loop stores the bytes of the line one after another, whatever the buffer holds. -/
theorem parseOneLineLoop_reaches (line t : Str) (h : StandsAt c.load e d w)
    (hc : c.stream = t ++ s) (hs : s ≠ []) (hroom : line.length + t.length ≤ LINE_BUFFERSIZE)
    (hpair : ¬ CRLF <:+: d.prev :: t) :
    ∃ d' w', parseOneLineLoop.Reaches (line, d) w (line ++ t, d') w' ∧
      StandsAt (c.advance t.length).load e d' w' ∧
      d' = d.reading d'.unread (t.getLastD d.prev) := by
  induction t generalizing c d w line with
  | nil => exact ⟨d, w, by simpa using .here (line, d) w, h, rfl⟩
  | cons b t ih =>
    rw [CRLF_infix_cons, not_or, List.head?_cons, Option.some.injEq] at hpair
    rw [List.length_cons] at hroom
    have hrest : t ++ s ≠ [] := List.append_ne_nil_of_right_ne_nil t hs
    obtain ⟨w₁, hround, hload⟩ :=
      parseOneLineBody_round line h hc hrest (by omega) hpair.1
    have hstream : c.next.stream = t ++ s := by rw [Cut.stream_next, hc]; rfl
    have hroom₁ : (line ++ [b]).length + t.length ≤ LINE_BUFFERSIZE := by
      rw [List.length_append, List.length_singleton]
      omega
    obtain ⟨d', w', hreaches, hat, hd'⟩ := ih (line ++ [b]) hload hstream hroom₁ hpair.2
    refine ⟨d', w', ?_, hat, ?_⟩
    · rw [← List.singleton_append, ← List.append_assoc]
      exact .round hround hreaches
    · rw [List.getLastD_cons]
      exact hd'

/-- The line that fits: its bytes and the CR LF are taken, and nothing else. -/
theorem parseOneLineLoop_ok (h : StandsAt c.load e d w) (hprev : d.prev ≠ 13)
    (hline : fittingLine c.stream = some (l, r)) :
    ∃ w', parseOneLineLoop.run ([], d) w =
        (.ok (l ++ CRLF, d.reading (c.advance (l.length + 2)).buffer 0), w') ∧
      StandsAt (c.advance (l.length + 2)) e (d.reading (c.advance (l.length + 2)).buffer 0) w' := by
  obtain ⟨hs, hfirst, hfits⟩ := fittingLine_eq_some.mp hline
  have hc : c.stream = (l ++ [13]) ++ 10 :: r := by simpa [CRLF] using hs
  have hlength : (l ++ [13]).length = l.length + 1 := by simp
  have hpair : ¬ CRLF <:+: d.prev :: (l ++ [13]) := by
    rw [CRLF_infix_cons, not_or]
    exact ⟨fun hand => hprev hand.1, hfirst⟩
  obtain ⟨d₁, w₁, hreaches, hat, hd₁⟩ := parseOneLineLoop_reaches [] (l ++ [13]) h hc
    (List.cons_ne_nil 10 r) (by rw [hlength, List.length_nil]; omega) hpair
  have hprev₁ : d₁.prev = 13 := by
    rw [hd₁, prev_reading, List.getLastD_concat]
  have hstream : (c.advance (l ++ [13]).length).stream = 10 :: r := by
    rw [Cut.stream_advance, hc, List.drop_left]
  have hroom : (l ++ [13]).length < LINE_BUFFERSIZE := by omega
  obtain ⟨hleave, hat'⟩ := parseOneLineBody_leave (l ++ [13]) hat hstream hroom hprev₁
  have hnext : (c.advance (l ++ [13]).length).next = c.advance (l.length + 2) := by
    rw [← Cut.advance_succ', hlength]
  have hsame : ∀ unread prev, d₁.reading unread prev = d.reading unread prev := by
    intro unread prev
    rw [hd₁, reading_reading]
  rw [hnext, hsame] at hleave hat'
  refine ⟨w₁, ?_, hat'⟩
  rw [hreaches.run_eq, List.nil_append, Loop.run_of_leave hleave, List.append_assoc]
  rfl

theorem parseOneLine_ok (h : StandsAt c e d w) (hprev : d.prev ≠ 13)
    (hline : fittingLine c.stream = some (l, r)) :
    ∃ w', parseOneLine d w =
        (.ok (cString l, d.reading (c.advance (l.length + 2)).buffer 0), w') ∧
      StandsAt (c.advance (l.length + 2)) e (d.reading (c.advance (l.length + 2)).buffer 0) w' := by
  have hne : c.stream ≠ [] := by
    intro hnil
    rw [hnil] at hline
    cases hline
  obtain ⟨w₁, hrefill, hload⟩ := refill_ok h hne
  obtain ⟨w', hloop, hat⟩ := parseOneLineLoop_ok hload hprev hline
  refine ⟨w', ?_, hat⟩
  have hlength : (l ++ CRLF).length = l.length + 2 := by simp [CRLF]
  rw [parseOneLine, Prog.bind_ok hrefill, Prog.bind_ok hloop]
  simp only [hlength, Nat.add_sub_cancel, List.take_left, reading_reading]
  rw [if_neg (by omega)]
  rfl

/-- How the call ends that finds no line that fits. -/
def lineFailure (e : StreamEnd) (s : Str) : Outcome Thrown Undefined Empty :=
  if LINE_BUFFERSIZE < s.length then .undefined .outOfBounds else e.failure

/-- How many bytes that call stores before the round that fails. -/
def storedBytes (s : Str) : ℕ := min (s.length - 1) LINE_BUFFERSIZE

/-- The terminating NUL is not written in front of `lineBuffer`. -/
def IndexStays (d : HttpData) (w : World) : Prop := ∀ d₁ w₁ stored d₂ w₂,
  refill d w = (.ok d₁, w₁) → parseOneLineLoop.run ([], d₁) w₁ = (.ok (stored, d₂), w₂) →
    2 ≤ stored.length

theorem parseOneLineLoop_fails (h : StandsAt c.load e d w) (hprev : d.prev ≠ 13)
    (hne : c.stream ≠ []) (hline : fittingLine c.stream = none) :
    ∃ d' w', parseOneLineLoop.Reaches ([], d) w (c.stream.take (storedBytes c.stream), d') w' ∧
      (cutOf d' w').stream = c.stream.drop (storedBytes c.stream) ∧
      (parseOneLineBody (c.stream.take (storedBytes c.stream), d') w').1 =
        (lineFailure e c.stream).failing := by
  have hnone := fittingLine_eq_none.mp hline
  have hpos := List.length_pos_of_ne_nil hne
  have hlt : storedBytes c.stream < c.stream.length := by rw [storedBytes]; omega
  have hle : storedBytes c.stream ≤ LINE_BUFFERSIZE := Nat.min_le_right _ _
  have hstored : (c.stream.take (storedBytes c.stream)).length = storedBytes c.stream :=
    List.length_take_of_le hlt.le
  have hpair : ¬ CRLF <:+: d.prev :: c.stream.take (storedBytes c.stream) := by
    rw [CRLF_infix_cons, not_or]
    refine ⟨fun hand => hprev hand.1, ?_⟩
    intro hcrlf
    exact hnone (hcrlf.trans (List.take_prefix_take_left hle).isInfix)
  have hdrop : c.stream.drop (storedBytes c.stream) ≠ [] := by
    rw [Ne, List.drop_eq_nil_iff]
    omega
  obtain ⟨d', w', hreaches, hat, hd'⟩ := parseOneLineLoop_reaches [] _ h
    (List.take_append_drop (storedBytes c.stream) c.stream).symm hdrop
    (by rw [hstored, List.length_nil]; omega) hpair
  have hstream : (c.advance (c.stream.take (storedBytes c.stream)).length).stream =
      c.stream.drop (storedBytes c.stream) := by rw [Cut.stream_advance, hstored]
  refine ⟨d', w', hreaches, ?_, ?_⟩
  · rw [hat.cut, Cut.stream_load, hstream]
  · obtain ⟨b, s', hb⟩ := List.exists_cons_of_ne_nil hdrop
    rw [hb] at hstream
    by_cases hlong : LINE_BUFFERSIZE < c.stream.length
    · rw [lineFailure, if_pos hlong]
      refine parseOneLineBody_full hat hstream ?_
      rw [hstored, storedBytes]
      omega
    · have hlast : storedBytes c.stream = c.stream.length - 1 := by rw [storedBytes]; omega
      have hs' : s' = [] := by
        have hlength := congrArg List.length hb
        rw [List.length_drop, List.length_cons] at hlength
        exact List.eq_nil_of_length_eq_zero (by omega)
      subst hs'
      have hwhole :
          c.stream.take LINE_BUFFERSIZE = c.stream.take (storedBytes c.stream) ++ [b] := by
        rw [← hb, List.take_append_drop, List.take_of_length_le (not_lt.mp hlong)]
      rw [lineFailure, if_neg hlong]
      refine parseOneLineBody_end hat hstream (by omega) ?_
      rw [hd', prev_reading]
      apply not_CRLF_at_end hprev
      rwa [← hwhole]

theorem parseOneLineLoop_run_fails (h : StandsAt c.load e d w) (hprev : d.prev ≠ 13)
    (hne : c.stream ≠ []) (hline : fittingLine c.stream = none) :
    (parseOneLineLoop.run ([], d) w).1 = (lineFailure e c.stream).failing := by
  obtain ⟨d', w', hreaches, -, hfails⟩ := parseOneLineLoop_fails h hprev hne hline
  rw [hreaches.run_eq]
  exact Loop.run_failing (l := parseOneLineLoop) hfails

theorem indexStays (d : HttpData) (w : World) (hprev : d.prev ≠ 13) : IndexStays d w := by
  intro d₁ w₁ stored d₂ w₂ hrefill hloop
  obtain ⟨hne, hat, hprev₁⟩ := refill_eq_ok hrefill
  rw [← hprev₁] at hprev
  cases hline : fittingLine (cutOf d w).stream with
  | none =>
    have hrun := parseOneLineLoop_run_fails hat hprev hne hline
    rw [hloop] at hrun
    exact absurd hrun Outcome.ok_ne_failing
  | some p =>
    obtain ⟨w', hrun, -⟩ := parseOneLineLoop_ok hat hprev hline
    rw [hloop] at hrun
    cases hrun
    simp [CRLF]

/-- The call fails, and what it has stored and left before the failing round is a matter
of the bytes. -/
structure FailsAt (e : StreamEnd) (s : Str) (d : HttpData) (w : World) : Prop where
  rest : (cutOf d w).stream = s
  outcome : (parseOneLine d w).1 = (lineFailure e s).failing
  position : s ≠ [] → ∃ d₁ w₁ d₂ w₂, refill d w = (.ok d₁, w₁) ∧
    parseOneLineLoop.Reaches ([], d₁) w₁ (s.take (storedBytes s), d₂) w₂ ∧
    (cutOf d₂ w₂).stream = s.drop (storedBytes s) ∧
    (parseOneLineBody (s.take (storedBytes s), d₂) w₂).1 = (lineFailure e s).failing
  index : IndexStays d w

theorem failsAt (h : StandsAt c e d w) (hprev : d.prev ≠ 13)
    (hline : fittingLine c.stream = none) : FailsAt e c.stream d w := by
  by_cases hne : c.stream = []
  · have hend := refill_end h hne
    have hfailure : lineFailure e c.stream = e.failure := by simp [lineFailure, hne]
    refine ⟨by rw [h.cut], ?_, fun hcontra => absurd hne hcontra, indexStays d w hprev⟩
    rw [hfailure]
    exact Prog.bind_failing hend
  · obtain ⟨w₁, hrefill, hload⟩ := refill_ok h hne
    obtain ⟨d₂, w₂, hreaches, hstream, hfails⟩ := parseOneLineLoop_fails hload hprev hne hline
    refine ⟨by rw [h.cut], ?_, fun _ => ⟨_, _, d₂, w₂, hrefill, hreaches, hstream, hfails⟩,
      indexStays d w hprev⟩
    rw [parseOneLine, Prog.bind_ok hrefill]
    exact Prog.bind_failing (parseOneLineLoop_run_fails hload hprev hne hline)

/-- What a call that returned did: it took a line that fits. -/
structure TookLine (l : Str) (d : HttpData) (w : World) (d' : HttpData) (w' : World) : Prop where
  line : fittingLine (cutOf d w).stream = some (l, (cutOf d' w').stream)
  object : d' = d.reading d'.unread 0
  place : StandsAt ((cutOf d w).advance (l.length + 2)) (endOf w.recvs) d' w'

theorem TookLine.prev_ne {d' : HttpData} {w' : World} (h : TookLine l d w d' w') :
    d'.prev ≠ 13 := by
  rw [h.object, prev_reading]
  decide

theorem TookLine.badRequest {d' : HttpData} {w' : World} (h : TookLine l d w d' w') :
    d'.badRequest = d.badRequest := by
  rw [h.object]
  rfl

/-- What is done with the line without reading on. -/
theorem TookLine.of_keeps {d₁ d' : HttpData} {w' : World} (h : TookLine l d w d₁ w')
    (hkeeps : d'.unread = d₁.unread ∧ d'.prev = d₁.prev) :
    fittingLine (cutOf d w).stream = some (l, (cutOf d' w').stream) ∧ d'.prev ≠ 13 := by
  constructor
  · rw [h.line]
    simp only [cutOf, hkeeps.1]
  · rw [hkeeps.2]
    exact h.prev_ne

theorem parseOneLine_took (hprev : d.prev ≠ 13)
    (hline : fittingLine (cutOf d w).stream = some (l, r)) :
    ∃ d' w', parseOneLine d w = (.ok (cString l, d'), w') ∧ TookLine l d w d' w' := by
  obtain ⟨w', hcall, hat⟩ := parseOneLine_ok ⟨rfl, rfl⟩ hprev hline
  refine ⟨_, w', hcall, ?_, rfl, hat⟩
  obtain ⟨hbytes, -, -⟩ := fittingLine_eq_some.mp hline
  rw [hat.cut, Cut.stream_advance, hline]
  congr 2
  rw [hbytes, List.append_assoc, ← List.drop_drop, List.drop_left]
  rfl

theorem parseOneLine_eq_ok {d' : HttpData} {w' : World} (hprev : d.prev ≠ 13)
    (h : parseOneLine d w = (.ok (line, d'), w')) :
    ∃ l, line = cString l ∧ TookLine l d w d' w' := by
  cases hline : fittingLine (cutOf d w).stream with
  | none =>
    exfalso
    have hfails := (failsAt ⟨rfl, rfl⟩ hprev hline).outcome
    rw [h] at hfails
    exact Outcome.ok_ne_failing hfails
  | some p =>
    obtain ⟨l, r⟩ := p
    obtain ⟨d₁, w₁, hcall, htook⟩ := parseOneLine_took hprev hline
    rw [h] at hcall
    cases hcall
    exact ⟨l, rfl, htook⟩

/-! ## Calls one after another -/

/-- Calls that return the lines of the stream, each taking its bytes and the CR LF behind
them and leaving the rest. -/
inductive ReadsLines : HttpData → World → List Str → HttpData → World → Prop where
  | done (d : HttpData) (w : World) : ReadsLines d w [] d w
  | call {d d₁ d' : HttpData} {w w₁ w' : World} {l : Str} {lines : List Str}
      (hcall : parseOneLine d w = (.ok (cString l, d₁), w₁))
      (htakes : (cutOf d w).stream = l ++ CRLF ++ (cutOf d₁ w₁).stream)
      (hfirst : ¬ CRLF <:+: l ++ [13]) (hindex : IndexStays d w)
      (hrest : ReadsLines d₁ w₁ lines d' w') : ReadsLines d w (cString l :: lines) d' w'

theorem readsLines (h : StandsAt c e d w) (hprev : d.prev ≠ 13) :
    ∃ d' w', ReadsLines d w (linesOf c.stream).1 d' w' ∧ FailsAt e (linesOf c.stream).2 d' w' := by
  induction hs : c.stream using linesOf.induct generalizing c d w with
  | case1 s hline =>
    subst hs
    rw [linesOf_none hline]
    exact ⟨d, w, .done d w, failsAt h hprev hline⟩
  | case2 s l r hline ih =>
    subst hs
    obtain ⟨rfl, rfl⟩ := h
    obtain ⟨d₁, w₁, hcall, htook⟩ := parseOneLine_took hprev hline
    have hrest := htook.line
    rw [hline, Option.some.injEq, Prod.mk.injEq] at hrest
    obtain ⟨-, hr⟩ := hrest
    have hat : StandsAt (cutOf d₁ w₁) (endOf w.recvs) d₁ w₁ := ⟨rfl, htook.place.ending⟩
    obtain ⟨d', w', hreads, hfails⟩ := ih hat htook.prev_ne hr.symm
    obtain ⟨hbytes, hfirst, -⟩ := fittingLine_eq_some.mp htook.line
    rw [linesOf_some hline]
    exact ⟨d', w', .call hcall hbytes hfirst (indexStays d w hprev) hreads, hfails⟩

theorem prev_new (env : Env) (clientSocket : ℤ) : (new env clientSocket).prev ≠ 13 := by
  change (0 : UInt8) ≠ 13
  decide

/-- However the stream is cut, the calls on a new object return the same lines and then
fail in the same way at the same place. -/
theorem successive_lines (env : Env) (clientSocket : ℤ) (w : World) :
    ∃ d' w', ReadsLines (new env clientSocket) w (linesOf (delivered w.recvs)).1 d' w' ∧
      FailsAt (endOf w.recvs) (linesOf (delivered w.recvs)).2 d' w' := by
  have hat : StandsAt (cutOf (new env clientSocket) w) (endOf w.recvs) (new env clientSocket) w :=
    ⟨rfl, rfl⟩
  exact readsLines hat (prev_new env clientSocket)

end HttpData
end LxcHttpServer
