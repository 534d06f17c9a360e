import LxcHttpServer.AsyncLoger

/-!
# The steps of the logger

What each step can do, and what the two containers and the backend's vector look
like at the places of `threadFun`.
-/
namespace LxcHttpServer
open PartialRuns

namespace AsyncLoger

variable {raw : Fin 4 → RawBuffer} {s s' : AsyncLoger} {a : Label}

theorem drain_concat (writeQueue toWrite : List (Option Buffer)) (p : Option Buffer) :
    drain writeQueue (toWrite ++ [p]) =
      writeQueue ++ p :: List.replicate toWrite.length none := by
  induction toWrite generalizing writeQueue p with
  | nil => simp [drain]
  | cons front rest ih =>
    rw [List.cons_append, drain]
    have hback : (front :: (rest ++ [p])).getLast (by simp) = p := by simp
    have hrest : ((front :: (rest ++ [p])).dropLast ++ [none]).tail = rest ++ [none] := by
      rw [← List.cons_append, List.dropLast_concat]
      rfl
    rw [hback, hrest, ih]
    simp [List.replicate_succ]

/-- Everything that can happen to the logger. -/
inductive Step (s : AsyncLoger) : Label → AsyncLoger → Prop
  | rejects {date : DateString} {logline : Str} (hcur : s.curBuffer = none) :
      Step s (.log date logline) s
  | stores {date : DateString} {logline : Str} {b b' : Buffer} (hcur : s.curBuffer = some b)
      (hroom : b.appendAvailable ((storedLine logline).length + DATE_STRING_LEGTH) = true)
      (happend : b.appendRecord date logline = .ok b') :
      Step s (.log date logline)
        { s with
          curBuffer := some b'
          accepted := s.accepted ++ [record date logline] }
  | exchanges {date : DateString} {logline : Str} {b c c' : Buffer}
      {spare : List (Option Buffer)} (hcur : s.curBuffer = some b)
      (hroom : b.appendAvailable ((storedLine logline).length + DATE_STRING_LEGTH) = false)
      (hempty : s.emptyBuffers = spare ++ [some c])
      (happend : c.appendRecord date logline = .ok c') :
      Step s (.log date logline)
        { s with
          curBuffer := some c'
          emptyBuffers := spare
          toWriteBuffers := s.toWriteBuffers ++ [some b]
          accepted := s.accepted ++ [record date logline] }
  | drops {date : DateString} {logline : Str} {b : Buffer} (hcur : s.curBuffer = some b)
      (hroom : b.appendAvailable ((storedLine logline).length + DATE_STRING_LEGTH) = false)
      (hempty : s.emptyBuffers = []) :
      Step s (.log date logline)
        { s with
          curBuffer := none
          toWriteBuffers := s.toWriteBuffers ++ [some b] }
  | goesOn (hpc : s.backend = .test) (hrun : s.running = true) :
      Step s .backend { s with backend := .waiting }
  | ends (hpc : s.backend = .test) (hrun : s.running = false) :
      Step s .backend { s with backend := .exited }
  | collects (hpc : s.backend = .waiting) : Step s .backend s.collect
  | allWritten (hpc : s.backend = .writing) (hqueue : s.writeQueue = []) :
      Step s .backend { s with backend := .test }
  | writes {queue : List (Option Buffer)} {b b' : Buffer} {text : Str}
      (hpc : s.backend = .writing) (hqueue : s.writeQueue = queue ++ [some b])
      (hwrite : b.writeToFile true = .ok (text, b')) :
      Step s .backend
        { s with
          writeQueue := queue ++ [some b']
          backend := .returning
          file := s.file ++ text }
  | fails {queue : List (Option Buffer)} {b b' : Buffer} {text : Str}
      (hpc : s.backend = .writing) (hqueue : s.writeQueue = queue ++ [some b])
      (hwrite : b.writeToFile false = .ok (text, b')) :
      Step s .writeFails
        { s with
          writeQueue := queue ++ [some b']
          backend := .returning
          file := s.file ++ text }
  | returns (hpc : s.backend = .returning) :
      Step s .backend
        { s with
          emptyBuffers := s.emptyBuffers ++ [s.writeQueue.getLast?.join]
          writeQueue := s.writeQueue.dropLast
          backend := .writing }
  | stop (hnot : s.destructor = .notCalled) :
      Step s .stop { s with running := false, destructor := .stopped, promised := s.accepted }
  | notify (hstopped : s.destructor = .stopped) : Step s .notify { s with destructor := .notified }
  | join (hnotified : s.destructor = .notified) (hexited : s.backend = .exited) :
      Step s .join { s with destructor := .joined }

theorem log_cases {date : DateString} {logline : Str} {r : Option ℤ}
    (h : s.logInfo date logline = .ok (r, s')) : Step s (.log date logline) s' := by
  unfold logInfo at h
  split at h
  · next hcur =>
    cases h
    exact .rejects hcur
  · next b hcur =>
    split_ifs at h with hroom
    · obtain ⟨b', happend, heq⟩ := bind_eq_ok_iff.mp h
      cases heq
      exact .stores hcur hroom happend
    · simp only [Bool.not_eq_true] at hroom
      split at h
      · next hempty =>
        cases h
        exact .drops hcur hroom (List.getLast?_eq_none_iff.mp hempty)
      · cases h
      · next c hempty =>
        obtain ⟨c', happend, heq⟩ := bind_eq_ok_iff.mp h
        cases heq
        obtain ⟨spare, hspare⟩ := List.getLast?_eq_some_iff.mp hempty
        have hdrop : s.emptyBuffers.dropLast = spare := by rw [hspare, List.dropLast_concat]
        rw [hdrop]
        exact .exchanges hcur hroom hspare happend

theorem writeBack_eq_ok {written : Bool} (h : s.writeBack written = .ok s') :
    ∃ queue b b' text, s.writeQueue = queue ++ [some b] ∧
      b.writeToFile written = .ok (text, b') ∧
      s' = { s with
        writeQueue := queue ++ [some b'], backend := .returning, file := s.file ++ text } := by
  unfold writeBack at h
  split at h
  · cases h
  · next b hback =>
    obtain ⟨queue, hqueue⟩ := List.getLast?_eq_some_iff.mp (Option.join_eq_some_iff.mp hback)
    have hdrop : s.writeQueue.dropLast = queue := by rw [hqueue, List.dropLast_concat]
    obtain ⟨⟨text, b'⟩, hwrite, heq⟩ := bind_eq_ok_iff.mp h
    cases heq
    exact ⟨queue, b, b', text, hqueue, hwrite, by rw [hdrop]⟩

theorem step_cases (hen : s.enabled a) (h : s.step a = .ok s') : Step s a s' := by
  cases a with
  | log date logline =>
    obtain ⟨⟨r, s''⟩, hlog, heq⟩ := bind_eq_ok_iff.mp h
    cases heq
    exact log_cases hlog
  | backend =>
    cases hpc : s.backend <;> simp only [step, threadFun, hpc] at h
    case test =>
      by_cases hrun : s.running = true
      · rw [if_pos hrun] at h
        cases h
        exact .goesOn hpc hrun
      · rw [if_neg hrun] at h
        cases h
        exact .ends hpc (Bool.not_eq_true _ ▸ hrun)
    case waiting =>
      cases h
      exact .collects hpc
    case writing =>
      split_ifs at h with hqueue
      · cases h
        exact .allWritten hpc (List.isEmpty_iff.mp hqueue)
      · obtain ⟨queue, b, b', text, hqueue, hwrite, rfl⟩ := writeBack_eq_ok h
        exact .writes hpc hqueue hwrite
    case returning =>
      cases h
      exact .returns hpc
    case exited => exact absurd hpc hen
  | writeFails =>
    obtain ⟨queue, b, b', text, hqueue, hwrite, rfl⟩ := writeBack_eq_ok h
    exact .fails hen.1 hqueue hwrite
  | stop =>
    cases h
    exact .stop hen
  | notify =>
    cases h
    exact .notify hen
  | join =>
    cases h
    exact .join hen.1 hen.2

section Log
variable {logline : Str} {b c : Buffer}

theorem log_stores (date : DateString) (hcur : s.curBuffer = some b) (hb : b.Sound)
    (hroom : b.endPos + (storedLine logline).length + 30 < LOGBUFFERSIZE) :
    ∃ b', b.Extends b' (record date logline) ∧ s.step (.log date logline) =
      .ok { s with
        curBuffer := some b'
        accepted := s.accepted ++ [record date logline] } := by
  have hfits : b.endPos + (record date logline).length ≤ b.chars.length := by
    rw [record_length, hb.allocated]
    simp only [DATE_STRING_LEGTH]
    omega
  obtain ⟨b', happend⟩ := Buffer.appendRecord_ok hfits
  refine ⟨b', Buffer.appendRecord_extends happend, ?_⟩
  apply bind_eq_ok_iff.mpr
  refine ⟨(none, _), ?_, rfl⟩
  simp only [logInfo, hcur]
  rw [if_pos ((hb.appendAvailable_iff logline).mpr hroom)]
  exact bind_eq_ok_iff.mpr ⟨b', happend, rfl⟩

theorem log_exchanges {spare : List (Option Buffer)} (date : DateString)
    (hcur : s.curBuffer = some b) (hb : b.Sound)
    (hfull : LOGBUFFERSIZE ≤ b.endPos + (storedLine logline).length + 30)
    (hempty : s.emptyBuffers = spare ++ [some c]) (hc : c.Fresh) :
    ∃ c', c.Extends c' (record date logline) ∧ s.step (.log date logline) =
      .ok { s with
        curBuffer := some c'
        emptyBuffers := spare
        toWriteBuffers := s.toWriteBuffers ++ [some b]
        accepted := s.accepted ++ [record date logline] } := by
  have hline := storedLine_length_le logline
  have hfits : c.endPos + (record date logline).length ≤ c.chars.length := by
    rw [record_length, hc.allocated, hc.start]
    simp only [DATE_STRING_LEGTH, LOGBUFFERSIZE] at *
    omega
  obtain ⟨c', happend⟩ := Buffer.appendRecord_ok hfits
  refine ⟨c', Buffer.appendRecord_extends happend, ?_⟩
  apply bind_eq_ok_iff.mpr
  refine ⟨(none, _), ?_, rfl⟩
  have hroom : ¬ b.appendAvailable ((storedLine logline).length + DATE_STRING_LEGTH) = true := by
    rw [hb.appendAvailable_iff]
    omega
  simp only [logInfo, hcur]
  rw [if_neg hroom]
  simp only [hempty, List.getLast?_concat, List.dropLast_concat]
  exact bind_eq_ok_iff.mpr ⟨c', happend, rfl⟩

theorem log_drops (date : DateString) (hcur : s.curBuffer = some b) (hb : b.Sound)
    (hfull : LOGBUFFERSIZE ≤ b.endPos + (storedLine logline).length + 30)
    (hempty : s.emptyBuffers = []) :
    s.step (.log date logline) =
      .ok { s with
        curBuffer := none
        toWriteBuffers := s.toWriteBuffers ++ [some b] } := by
  have hroom : ¬ b.appendAvailable ((storedLine logline).length + DATE_STRING_LEGTH) = true := by
    rw [hb.appendAvailable_iff]
    omega
  apply bind_eq_ok_iff.mpr
  refine ⟨(none, _), ?_, rfl⟩
  simp only [logInfo, hcur]
  rw [if_neg hroom]
  simp only [hempty, List.getLast?_nil]

end Log

/-- The containers of the logger hold buffers, and the backend's vector holds something only
while it is written. -/
structure Shape (s : AsyncLoger) : Prop where
  empty : none ∉ s.emptyBuffers
  full : none ∉ s.toWriteBuffers
  written : s.backend = .returning → ∃ queue b, s.writeQueue = queue ++ [some b]
  idle : s.backend ≠ .writing → s.backend ≠ .returning → s.writeQueue = []

theorem shape_new (raw : Fin 4 → RawBuffer) : Shape (new raw) where
  empty := by simp [new]
  full := by simp [new]
  written hpc := by simp [new] at hpc
  idle _ _ := rfl

theorem collect_of_null (hcur : s.curBuffer = none) :
    s.collect = { s with
      writeQueue := drain s.writeQueue s.toWriteBuffers
      toWriteBuffers := []
      backend := .writing } := by
  simp [collect, takeCurrent, hcur]

theorem collect_of_some {b : Buffer} (hcur : s.curBuffer = some b) :
    s.collect = { s with
      writeQueue := drain (s.writeQueue ++ [some b]) s.toWriteBuffers
      curBuffer := s.emptyBuffers.getLast?.join
      emptyBuffers := s.emptyBuffers.dropLast
      toWriteBuffers := []
      backend := .writing } := by
  simp [collect, takeCurrent, hcur]

@[simp] theorem collect_accepted : s.collect.accepted = s.accepted := by
  cases hcur : s.curBuffer <;> simp [collect, takeCurrent, hcur]

@[simp] theorem collect_promised : s.collect.promised = s.promised := by
  cases hcur : s.curBuffer <;> simp [collect, takeCurrent, hcur]

@[simp] theorem collect_running : s.collect.running = s.running := by
  cases hcur : s.curBuffer <;> simp [collect, takeCurrent, hcur]

@[simp] theorem collect_destructor : s.collect.destructor = s.destructor := by
  cases hcur : s.curBuffer <;> simp [collect, takeCurrent, hcur]

@[simp] theorem collect_file : s.collect.file = s.file := by
  cases hcur : s.curBuffer <;> simp [collect, takeCurrent, hcur]

@[simp] theorem collect_backend : s.collect.backend = .writing := rfl

@[simp] theorem collect_toWriteBuffers : s.collect.toWriteBuffers = [] := rfl

/-- The current buffer goes to the backend first, if there is one. -/
theorem collect_writeQueue : s.collect.writeQueue =
    drain (s.writeQueue ++ s.curBuffer.toList.map some) s.toWriteBuffers := by
  cases hcur : s.curBuffer <;> simp [collect, takeCurrent, hcur]

theorem collect_emptyBuffers_subset : s.collect.emptyBuffers ⊆ s.emptyBuffers := by
  cases hcur : s.curBuffer with
  | none =>
    rw [collect_of_null hcur]
    exact List.Subset.refl _
  | some b =>
    rw [collect_of_some hcur]
    exact List.dropLast_subset _

theorem Shape.collect (hs : s.Shape) : s.collect.Shape where
  empty h := hs.empty (collect_emptyBuffers_subset h)
  full := by simp
  written hpc := by simp at hpc
  idle hpc := by simp at hpc

theorem Step.shape (h : Step s a s') (hs : s.Shape) : s'.Shape := by
  have hempty := hs.empty
  have hfull := hs.full
  cases h with
  | rejects hcur => exact hs
  | stores hcur hroom happend => exact ⟨hempty, hfull, hs.written, hs.idle⟩
  | exchanges hcur hroom hspare happend =>
    refine ⟨fun h => hempty ?_, by simpa using hfull, hs.written, hs.idle⟩
    rw [hspare]
    exact List.mem_append_left _ h
  | drops hcur hroom hnone => exact ⟨hempty, by simpa using hfull, hs.written, hs.idle⟩
  | goesOn hpc hrun | ends hpc hrun =>
    exact ⟨hempty, hfull, nofun, fun _ _ => hs.idle (by simp [hpc]) (by simp [hpc])⟩
  | collects hpc => exact hs.collect
  | allWritten hpc hqueue => exact ⟨hempty, hfull, nofun, fun _ _ => hqueue⟩
  | writes hpc hqueue hwrite =>
    exact ⟨hempty, hfull, fun _ => ⟨_, _, rfl⟩, fun _ h => absurd rfl h⟩
  | fails hpc hqueue hwrite =>
    exact ⟨hempty, hfull, fun _ => ⟨_, _, rfl⟩, fun _ h => absurd rfl h⟩
  | returns hpc =>
    obtain ⟨queue, b, hqueue⟩ := hs.written hpc
    refine ⟨?_, hfull, nofun, fun h => absurd rfl h⟩
    simpa [hqueue] using hempty
  | stop hnot => exact ⟨hempty, hfull, hs.written, hs.idle⟩
  | notify hstopped => exact ⟨hempty, hfull, hs.written, hs.idle⟩
  | join hnotified hexited => exact ⟨hempty, hfull, hs.written, hs.idle⟩

theorem shape_of_run {as : List Label} (h : system.Run (new raw) as s) : s.Shape :=
  h.invariant (shape_new raw) fun _ _ _ hs hen hstep => (step_cases hen hstep).shape hs

end AsyncLoger

end LxcHttpServer
