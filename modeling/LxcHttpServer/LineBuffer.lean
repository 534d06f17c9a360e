import LxcHttpServer.RequestFields

/-!
# What `parseOneLine` writes to `lineBuffer`

The index is bounded by nothing but the arrival of CR LF. The writes stay inside the
buffer for the streams in which every line that is read is complete, or the stream at its
end, before the buffer is full.
-/
namespace LxcHttpServer
open EffectPrograms CutStreams Strings

/-- The buffer is full before the line is complete, and there is another byte. -/
def TooLong (s : Str) : Prop :=
  LINE_BUFFERSIZE < s.length ∧ ¬ CRLF <:+: s.take LINE_BUFFERSIZE

namespace HttpData

variable {env : Env} {clientSocket : ℤ} {d d' : HttpData} {w w' : World}

/-- Every write of a call is inside the buffer, and a line too long for it throws. -/
structure WritesInside (d : HttpData) (w : World) : Prop where
  bytes : ∀ d₁ w₁ line d₂ w₂, refill d w = (.ok d₁, w₁) →
    parseOneLineLoop.Reaches ([], d₁) w₁ (line, d₂) w₂ → d₂.unread ≠ [] →
      line.length < LINE_BUFFERSIZE
  terminator : ∀ d₁ w₁ stored d₂ w₂, refill d w = (.ok d₁, w₁) →
    parseOneLineLoop.run ([], d₁) w₁ = (.ok (stored, d₂), w₂) →
      2 ≤ stored.length ∧ stored.length - 2 < LINE_BUFFERSIZE
  reported : TooLong (cutOf d w).stream → ∃ t, (parseOneLine d w).1 = .throw t

/-- The calls of `parseOneLine` by which `parseData` reads the start line and the header
lines of a request. -/
inductive LineCall (env : Env) (clientSocket : ℤ) (w : World) : HttpData → World → Prop where
  | startLine : LineCall env clientSocket w (new env clientSocket) w
  | header {d d' : HttpData} {w₁ w' : World}
      (hstart : parseStartLine (new env clientSocket) w = (.ok d, w₁)) (haccepted : ¬ d.Refused)
      (hreaches : parseHeaderLoop.Reaches d w₁ d' w') : LineCall env clientSocket w d' w'

theorem lineFailure_of_not_tooLong {s : Str} {e : StreamEnd} (hline : fittingLine s = none)
    (h : ¬ TooLong s) : lineFailure e s = e.failure := by
  rw [lineFailure, if_neg]
  intro hlong
  exact h ⟨hlong, fittingLine_eq_none.mp hline⟩

theorem fittingLine_of_tooLong {s : Str} (h : TooLong s) : fittingLine s = none :=
  fittingLine_eq_none.mpr h.2

/-- A line that is not too long does not leave the buffer. -/
theorem loop_ne_outOfBounds {c : Cut UInt8} {e : StreamEnd} (h : StandsAt c.load e d w)
    (hprev : d.prev ≠ 13) (hne : c.stream ≠ []) (hlong : ¬ TooLong c.stream) :
    (parseOneLineLoop.run ([], d) w).1 ≠ .undefined .outOfBounds := by
  cases hline : fittingLine c.stream with
  | none =>
    rw [parseOneLineLoop_run_fails h hprev hne hline, lineFailure_of_not_tooLong hline hlong]
    cases e <;> simp [StreamEnd.failure, Outcome.failing]
  | some p =>
    obtain ⟨w', hrun, -⟩ := parseOneLineLoop_ok h hprev hline
    rw [hrun]
    simp

theorem stored_fits {c : Cut UInt8} {e : StreamEnd} (h : StandsAt c.load e d w)
    (hprev : d.prev ≠ 13) (hne : c.stream ≠ []) {stored : Str}
    (hrun : parseOneLineLoop.run ([], d) w = (.ok (stored, d'), w')) :
    stored.length ≤ LINE_BUFFERSIZE := by
  cases hline : fittingLine c.stream with
  | none =>
    have hfails := parseOneLineLoop_run_fails h hprev hne hline
    rw [hrun] at hfails
    exact absurd hfails Outcome.ok_ne_failing
  | some p =>
    obtain ⟨w₁, hrun', -⟩ := parseOneLineLoop_ok h hprev hline
    rw [hrun] at hrun'
    cases hrun'
    obtain ⟨-, -, hfits⟩ := fittingLine_eq_some.mp hline
    simpa [CRLF] using hfits

theorem writesInside_iff (hprev : d.prev ≠ 13) :
    WritesInside d w ↔ ¬ TooLong (cutOf d w).stream := by
  constructor
  · intro h hlong
    obtain ⟨t, hthrow⟩ := h.reported hlong
    have hfails := (failsAt ⟨rfl, rfl⟩ hprev (fittingLine_of_tooLong hlong)).outcome
    rw [hthrow, lineFailure, if_pos hlong.1] at hfails
    cases hfails
  · intro hlong
    refine ⟨?_, ?_, fun h => absurd h hlong⟩
    · intro d₁ w₁ line d₂ w₂ hrefill hreaches hunread
      obtain ⟨hne, hload, hprev₁⟩ := refill_eq_ok hrefill
      by_contra hroom
      refine loop_ne_outOfBounds hload (by rwa [hprev₁]) hne hlong ?_
      obtain ⟨b, rest, hb⟩ := List.exists_cons_of_ne_nil hunread
      have hbody : (parseOneLineBody (line, d₂) w₂).1 =
          (Outcome.undefined Undefined.outOfBounds).failing := by
        simp only [parseOneLineBody, hb, if_pos (not_lt.mp hroom)]
        rfl
      rw [hreaches.run_eq]
      exact Loop.run_failing (l := parseOneLineLoop) hbody
    · intro d₁ w₁ stored d₂ w₂ hrefill hrun
      obtain ⟨hne, hload, hprev₁⟩ := refill_eq_ok hrefill
      have hfits := stored_fits hload (by rwa [hprev₁]) hne hrun
      have htwo := indexStays d w hprev d₁ w₁ stored d₂ w₂ hrefill hrun
      omega

/-- What is left of the stream where a header line is read. -/
inductive HeaderAt (s₀ : Str) : Str → Prop where
  | first {l r : Str} (hline : fittingLine s₀ = some (l, r))
      (haccepted : Accepted (tokens (cString l))) : HeaderAt s₀ r
  | next {s l r : Str} (h : HeaderAt s₀ s) (hline : fittingLine s = some (l, r))
      (hne : cString l ≠ []) (hname : 61 ∈ cString l) : HeaderAt s₀ r

/-- What is left of the stream where a line is read. -/
def ReadsLineAt (s₀ s : Str) : Prop := s = s₀ ∨ HeaderAt s₀ s

theorem parseHeaderBody_goes_on (hprev : d.prev ≠ 13)
    (h : parseHeaderBody d w = (.ok (.inl d'), w')) :
    ∃ l, fittingLine (cutOf d w).stream = some (l, (cutOf d' w').stream) ∧ cString l ≠ [] ∧
      61 ∈ cString l ∧ d'.prev ≠ 13 := by
  obtain ⟨l, d₁, htook, hok⟩ := parseHeaderBody_took hprev h
  obtain ⟨hline, hprev'⟩ := htook.of_keeps (headerLine_keeps hok)
  obtain ⟨hne, hname⟩ := headerLine_goes_on.mp ⟨d', hok⟩
  exact ⟨l, hline, hne, hname, hprev'⟩

theorem parseHeaderBody_next {l r : Str} (hprev : d.prev ≠ 13)
    (hline : fittingLine (cutOf d w).stream = some (l, r)) (hne : cString l ≠ [])
    (hname : 61 ∈ cString l) :
    ∃ d' w', parseHeaderBody d w = (.ok (.inl d'), w') ∧ (cutOf d' w').stream = r ∧
      d'.prev ≠ 13 ∧ endOf w'.recvs = endOf w.recvs := by
  obtain ⟨d₁, w₁, hcall, htook⟩ := parseOneLine_took hprev hline
  obtain ⟨d', hok⟩ := headerLine_goes_on.mpr ⟨hne, hname⟩
  have hbody : parseHeaderBody d w = (.ok (.inl d'), w₁) := by
    rw [parseHeaderBody_eq, Prog.bind_ok hcall, Prog.ofOutcome_run, hok]
  obtain ⟨l', hline', -, -, hprev'⟩ := parseHeaderBody_goes_on hprev hbody
  rw [hline] at hline'
  cases hline'
  exact ⟨d', w₁, hbody, rfl, hprev', htook.place.ending⟩

theorem parseStartLine_accepts (hprev : d.prev ≠ 13) (hbad : d.badRequest = false)
    (h : parseStartLine d w = (.ok d', w')) (haccepted : ¬ d'.Refused) :
    ∃ l, fittingLine (cutOf d w).stream = some (l, (cutOf d' w').stream) ∧
      Accepted (tokens (cString l)) ∧ d'.prev ≠ 13 := by
  obtain ⟨l, d₁, htook, hok⟩ := parseStartLine_took hprev h
  obtain ⟨hline, hprev'⟩ := htook.of_keeps (startLine_keeps hok)
  have hbad₁ : d₁.badRequest = false := htook.badRequest.trans hbad
  exact ⟨l, hline, (startLine_not_refused hbad₁).mp ⟨d', hok, haccepted⟩, hprev'⟩

theorem parseStartLine_ok {l r : Str} (hprev : d.prev ≠ 13) (hbad : d.badRequest = false)
    (hline : fittingLine (cutOf d w).stream = some (l, r))
    (haccepted : Accepted (tokens (cString l))) :
    ∃ d' w', parseStartLine d w = (.ok d', w') ∧ ¬ d'.Refused ∧ (cutOf d' w').stream = r ∧
      d'.prev ≠ 13 := by
  obtain ⟨d₁, w₁, hcall, htook⟩ := parseOneLine_took hprev hline
  have hbad₁ : d₁.badRequest = false := htook.badRequest.trans hbad
  obtain ⟨d', hok, hnot⟩ := (startLine_not_refused hbad₁).mpr haccepted
  have hstart : parseStartLine d w = (.ok d', w₁) := by
    rw [parseStartLine_eq, Prog.bind_ok hcall, Prog.ofOutcome_run, hok]
  obtain ⟨l', hline', -, hprev'⟩ := parseStartLine_accepts hprev hbad hstart hnot
  rw [hline] at hline'
  cases hline'
  exact ⟨d', w₁, hstart, hnot, rfl, hprev'⟩

/-- The rounds of `parseHeader` stand before header lines. -/
theorem headerAt_of_reaches {s₀ : Str} (hreaches : parseHeaderLoop.Reaches d w d' w')
    (h : HeaderAt s₀ (cutOf d w).stream) (hprev : d.prev ≠ 13) :
    HeaderAt s₀ (cutOf d' w').stream ∧ d'.prev ≠ 13 := by
  induction hreaches with
  | here d w => exact ⟨h, hprev⟩
  | round hbody _ ih =>
    obtain ⟨l, hline, hne, hname, hprev₁⟩ := parseHeaderBody_goes_on hprev hbody
    exact ih (.next h hline hne hname) hprev₁

theorem LineCall.readsLineAt (h : LineCall env clientSocket w d' w') :
    ReadsLineAt (delivered w.recvs) (cutOf d' w').stream ∧ d'.prev ≠ 13 := by
  cases h with
  | startLine => exact ⟨.inl rfl, prev_new env clientSocket⟩
  | header hstart haccepted hreaches =>
    obtain ⟨l, hline, htokens, hprev⟩ :=
      parseStartLine_accepts (prev_new env clientSocket) rfl hstart haccepted
    obtain ⟨hat, hprev'⟩ := headerAt_of_reaches hreaches (.first hline htokens) hprev
    exact ⟨.inr hat, hprev'⟩

theorem HeaderAt.lineCall (env : Env) (clientSocket : ℤ) {s : Str}
    (h : HeaderAt (delivered w.recvs) s) :
    ∃ d w₁ d' w', parseStartLine (new env clientSocket) w = (.ok d, w₁) ∧ ¬ d.Refused ∧
      parseHeaderLoop.Reaches d w₁ d' w' ∧ (cutOf d' w').stream = s ∧ d'.prev ≠ 13 := by
  induction h with
  | first hline haccepted =>
    obtain ⟨d, w₁, hstart, hnot, hstream, hprev⟩ :=
      parseStartLine_ok (prev_new env clientSocket) rfl hline haccepted
    exact ⟨d, w₁, d, w₁, hstart, hnot, .here d w₁, hstream, hprev⟩
  | next _ hline hne hname ih =>
    obtain ⟨d, w₁, d₁, w₂, hstart, hnot, hreaches, rfl, hprev⟩ := ih
    obtain ⟨d', w', hbody, hstream, hprev', -⟩ := parseHeaderBody_next hprev hline hne hname
    refine ⟨d, w₁, d', w', hstart, hnot, ?_, hstream, hprev'⟩
    exact hreaches.trans (.round hbody (.here d' w'))

theorem ReadsLineAt.lineCall (env : Env) (clientSocket : ℤ) {s : Str}
    (h : ReadsLineAt (delivered w.recvs) s) :
    ∃ d' w', LineCall env clientSocket w d' w' ∧ (cutOf d' w').stream = s ∧ d'.prev ≠ 13 := by
  rcases h with rfl | hat
  · exact ⟨_, w, .startLine, rfl, prev_new env clientSocket⟩
  · obtain ⟨d, w₁, d', w', hstart, hnot, hreaches, hstream, hprev⟩ := hat.lineCall env clientSocket
    exact ⟨d', w', .header hstart hnot hreaches, hstream, hprev⟩

/-- The writes of all calls stay inside exactly for the streams in which no line that is
read is too long. -/
theorem lines_written_inside_iff (env : Env) (clientSocket : ℤ) (w : World) :
    (∀ d' w', LineCall env clientSocket w d' w' → WritesInside d' w') ↔
      ∀ s, ReadsLineAt (delivered w.recvs) s → ¬ TooLong s := by
  constructor
  · intro h s hreads
    obtain ⟨d', w', hcall, rfl, hprev⟩ := hreads.lineCall env clientSocket
    exact (writesInside_iff hprev).mp (h d' w' hcall)
  · intro h d' w' hcall
    obtain ⟨hreads, hprev⟩ := hcall.readsLineAt
    exact (writesInside_iff hprev).mpr (h _ hreads)

/-- A start line of 300 bytes. -/
def longStartLine : Chunk where
  bytes := List.replicate 300 97
  nonempty := List.cons_ne_nil 97 (List.replicate 299 97)
  fits := by
    rw [List.length_replicate]
    decide

theorem not_lines_written_inside : LineCall calmEnv 5 (firstClient 5 [.data longStartLine])
      (new calmEnv 5) (firstClient 5 [.data longStartLine]) ∧
    ¬ WritesInside (new calmEnv 5) (firstClient 5 [.data longStartLine]) := by
  refine ⟨.startLine, ?_⟩
  rw [writesInside_iff (prev_new calmEnv 5), not_not]
  have hstream : (cutOf (new calmEnv 5) (firstClient 5 [.data longStartLine])).stream =
      List.replicate 300 97 := List.append_nil _
  rw [hstream]
  constructor
  · rw [List.length_replicate, LINE_BUFFERSIZE]
    decide
  intro hcrlf
  have hmem : 13 ∈ (List.replicate 300 (97 : UInt8)).take LINE_BUFFERSIZE :=
    hcrlf.subset (by simp [CRLF])
  have heq := List.eq_of_mem_replicate (List.mem_of_mem_take hmem)
  cases heq

end HttpData
end LxcHttpServer
