import LxcHttpServer.RequestBodies
import LxcHttpServer.RequestFields
import LxcHttpServer.WorkerFrames

/-!
# Requests sent one after another

What an object has read ahead is lost with it. The requests of a connection are parsed as
they were sent if every one of them begins with a new chunk, and if no body does.
-/
namespace LxcHttpServer
open EffectPrograms CutStreams Strings

theorem recvs_answerCalls (env : Env) (rs : List RecvResult) :
    AnswerCalls env (fun w => w.recvs = rs) (fun _ => True) (fun _ => True) where
  send _ _ _ hw := by simpa using hw
  stat _ _ _ hw := hw
  fork _ hw := hw
  write _ _ _ hw := by simpa using hw
  waitpid _ hw := hw
  read count := by
    intro w hw
    simp only [Work.read]
    split_ifs
    · exact hw
    · cases w.cgiReads with
      | nil => exact hw
      | cons r rs =>
        cases r with
        | error => exact hw
        | eof => exact hw
        | data bytes =>
          simp only
          split_ifs <;> exact hw
  pipe which := by
    intro w hw
    simp only [Work.pipe]
    split_ifs <;> exact hw
  pipe_ends _ _ _ _ _ _ := ⟨trivial, trivial⟩
  fopen path _ := by
    intro w hw
    cases hfile : env.fopen w.calls.length path with
    | none =>
      simp only [Work.fopen, hfile]
      exact hw
    | some contents =>
      simp only [Work.fopen, hfile]
      exact hw
  fopen_fd _ _ _ _ _ _ := trivial
  close _ _ _ hw := hw
  fclose _ _ _ hw := hw

theorem recvs_releaseCalls (rs : List RecvResult) : ReleaseCalls fun w => w.recvs = rs where
  addfd _ _ hw := hw
  deleteFd fd := by
    intro w hw
    simp only [Work.deleteFd]
    split <;> exact hw
  close _ _ hw := hw

/-- After a request that was parsed, `recv` has what the parser left. -/
theorem recvs_httpserver {env : Env} {fd : ℤ} {d : HttpData} {w w₁ : World}
    (h : HttpData.parseData env (.new env fd) w = (.ok d, w₁)) :
    (httpserver env fd w).2.recvs = w₁.recvs := by
  rw [httpserver_parsed h]
  exact handled_answer_keeps (recvs_answerCalls env w₁.recvs) (recvs_releaseCalls w₁.recvs)
    trivial fd w₁ rfl

/-- The bytes up to the first empty line and those of its CR LF. A line is empty if it is
cut off before its first character. -/
def headLength (s : Str) : ℕ :=
  match _h : nextLine s with
  | none => 0
  | some (l, r) => l.length + 2 + if cString l = [] then 0 else headLength r
termination_by s.length
decreasing_by
  obtain ⟨rfl, -⟩ := nextLine_eq_some.mp _h
  simp only [List.length_append, CRLF, List.length_cons]
  omega

theorem headLength_line {s l r : Str} (h : nextLine s = some (l, r)) :
    headLength s = l.length + 2 + if cString l = [] then 0 else headLength r := by
  rw [headLength]
  split
  · next heq =>
    rw [h] at heq
    cases heq
  · next l' r' heq =>
    rw [h] at heq
    cases heq
    rfl

theorem fittingLine_append {s l r : Str} (t : Str) (h : fittingLine s = some (l, r)) :
    fittingLine (s ++ t) = some (l, r ++ t) := by
  obtain ⟨rfl, hfirst, hfits⟩ := fittingLine_eq_some.mp h
  exact fittingLine_eq_some.mpr ⟨by simp, hfirst, hfits⟩

namespace HttpData

/-- Two objects have read as many bytes, the one of a stream that is the request, the other
of a stream that begins with it, and have come to the same. -/
structure Follows (request : Str) (c : Cut UInt8) (n : ℕ) (d₁ : HttpData) (w₁ : World)
    (d₂ : HttpData) (w₂ : World) : Prop where
  object : d₂ = d₁.reading d₂.unread d₁.prev
  prev : d₁.prev ≠ 13
  alone : (cutOf d₁ w₁).stream = request.drop n
  place : cutOf d₂ w₂ = c.advance n
  inside : n ≤ request.length

variable {env : Env} {request rest : Str} {c : Cut UInt8} {n : ℕ} {d₁ d₁' d₂ : HttpData}
  {w₁ w₁' w₂ w₂' : World}

theorem Follows.new (env : Env) (clientSocket : ℤ) (w₁ w₂ : World) :
    Follows (delivered w₁.recvs) (cutOf (new env clientSocket) w₂) 0 (new env clientSocket) w₁
      (new env clientSocket) w₂ :=
  ⟨rfl, prev_new env clientSocket, rfl, rfl, Nat.zero_le _⟩

theorem Follows.object_reading (h : Follows request c n d₁ w₁ d₂ w₂) :
    d₁.reading d₂.unread d₂.prev = d₂ := by
  rw [h.object]
  rfl

/-- What is done with a line does not take the objects apart. -/
theorem Follows.replace (h : Follows request c n d₁ w₁ d₂ w₂) (hunread : d₁'.unread = d₁.unread)
    (hprev : d₁'.prev = d₁.prev) (hw₁ : w₁'.recvs = w₁.recvs) (hw₂ : w₂'.recvs = w₂.recvs) :
    Follows request c n d₁' w₁' (d₁'.reading d₂.unread d₂.prev) w₂' := by
  have hprev₂ : d₂.prev = d₁.prev := by rw [h.object, prev_reading]
  refine ⟨?_, ?_, ?_, ?_, h.inside⟩
  · rw [hprev₂, ← hprev]
    rfl
  · rw [hprev]
    exact h.prev
  · rw [← h.alone]
    simp only [cutOf, hunread, hw₁]
  · rw [← h.place]
    simp only [cutOf, hw₂]
    rfl

theorem parseOneLine_follows (hc : c.stream = request ++ rest)
    (h : Follows request c n d₁ w₁ d₂ w₂) {line : Str}
    (hrun : parseOneLine d₁ w₁ = (.ok (line, d₁'), w₁')) :
    ∃ l d₂' w₂', line = cString l ∧
      nextLine (request.drop n) = some (l, request.drop (n + (l.length + 2))) ∧
      parseOneLine d₂ w₂ = (.ok (line, d₂'), w₂') ∧
      Follows request c (n + (l.length + 2)) d₁' w₁' d₂' w₂' := by
  obtain ⟨l, rfl, htook⟩ := parseOneLine_eq_ok h.prev hrun
  have hline := htook.line
  rw [h.alone] at hline
  obtain ⟨hbytes, hfirst, -⟩ := fittingLine_eq_some.mp hline
  have hleft : (cutOf d₁' w₁').stream = request.drop (n + (l.length + 2)) := by
    rw [← List.drop_drop, hbytes, List.append_assoc, ← List.drop_drop, List.drop_left]
    rfl
  have hlength := congrArg List.length hbytes
  simp only [List.length_drop, List.length_append, CRLF, List.length_cons, List.length_nil]
    at hlength
  have hstream : (cutOf d₂ w₂).stream = request.drop n ++ rest := by
    rw [h.place, Cut.stream_advance, hc, List.drop_append_of_le_length h.inside]
  have hprev₂ : d₂.prev ≠ 13 := by
    rw [h.object, prev_reading]
    exact h.prev
  have hline₂ := fittingLine_append rest hline
  rw [← hstream] at hline₂
  obtain ⟨d₂', w₂', hcall, htook₂⟩ := parseOneLine_took hprev₂ hline₂
  refine ⟨l, d₂', w₂', rfl, ?_, hcall, ?_, htook.prev_ne, hleft, ?_, ?_⟩
  · rw [nextLine_eq_some, ← hleft]
    exact ⟨hbytes, hfirst⟩
  · rw [htook₂.object, htook.object, h.object]
    rfl
  · rw [htook₂.place.cut, h.place, Cut.advance_add n]
  · have := h.inside
    omega

theorem not_accepted_nil : ¬ Accepted (tokens []) := by
  have htokens : tokens [] = [] := by decide +kernel
  rw [htokens]
  rintro ⟨method, target, version, tail, heq, -⟩
  cases heq

theorem parseStartLine_follows (hc : c.stream = request ++ rest)
    (h : Follows request c n d₁ w₁ d₂ w₂) (hbad : d₁.badRequest = false)
    (hrun : parseStartLine d₁ w₁ = (.ok d₁', w₁')) (haccepted : ¬ d₁'.Refused) :
    ∃ l d₂' w₂', cString l ≠ [] ∧
      nextLine (request.drop n) = some (l, request.drop (n + (l.length + 2))) ∧
      parseStartLine d₂ w₂ = (.ok d₂', w₂') ∧
      Follows request c (n + (l.length + 2)) d₁' w₁' d₂' w₂' := by
  rw [parseStartLine_eq] at hrun
  obtain ⟨⟨line, e₁⟩, hcall, hok⟩ := Prog.bind_ofOutcome_eq_ok hrun
  obtain ⟨l, e₂, v₂, rfl, hline, hcall₂, hfollows⟩ := parseOneLine_follows hc h hcall
  have hbad₁ : e₁.badRequest = false := by
    obtain ⟨l', -, htook⟩ := parseOneLine_eq_ok h.prev hcall
    exact htook.badRequest.trans hbad
  refine ⟨l, _, v₂, ?_, hline, ?_, hfollows.replace (startLine_keeps hok).1
    (startLine_keeps hok).2 rfl rfl⟩
  · intro hempty
    rw [hempty] at hok
    exact not_accepted_nil ((startLine_not_refused hbad₁).mp ⟨d₁', hok, haccepted⟩)
  · have hok₂ := startLine_reading hok e₂.unread e₂.prev
    rw [hfollows.object_reading] at hok₂
    rw [parseStartLine_eq, Prog.bind_ok hcall₂, Prog.ofOutcome_run, hok₂]

theorem parseHeader_follows (hc : c.stream = request ++ rest)
    (h : Follows request c n d₁ w₁ d₂ w₂)
    (hrun : parseHeaderLoop.run d₁ w₁ = (.ok d₁', w₁')) :
    ∃ d₂' w₂', parseHeaderLoop.run d₂ w₂ = (.ok d₂', w₂') ∧
      Follows request c (n + headLength (request.drop n)) d₁' w₁' d₂' w₂' := by
  induction d₁, w₁ using parseHeaderLoop.run_induction generalizing n d₂ w₂ with
  | step d₁ w₁ ih =>
    rw [Loop.run_eq] at hrun
    obtain ⟨r, v₁, hbody, hrest⟩ := Prog.bind_eq_ok hrun
    have hround := hbody
    simp only [parseHeaderLoop] at hround
    rw [parseHeaderBody_eq] at hround
    obtain ⟨⟨line, e₁⟩, hcall, hok⟩ := Prog.bind_ofOutcome_eq_ok hround
    obtain ⟨l, e₂, v₂, rfl, hline, hcall₂, hfollows⟩ := parseOneLine_follows hc h hcall
    cases r with
    | inl f₁ =>
      have hok₂ := headerLine_goes_on_reading hok e₂.unread e₂.prev
      rw [hfollows.object_reading] at hok₂
      have hbody₂ : parseHeaderLoop.body d₂ w₂ =
          (.ok (.inl (f₁.reading e₂.unread e₂.prev)), v₂) := by
        simp only [parseHeaderLoop]
        rw [parseHeaderBody_eq, Prog.bind_ok hcall₂, Prog.ofOutcome_run, hok₂]
      have hnext := hfollows.replace (headerLine_keeps hok).1 (headerLine_keeps hok).2 rfl rfl
      obtain ⟨d₂', w₂', hrun₂, hfollows'⟩ := ih f₁ v₁ hbody hnext hrest
      have hne := (headerLine_goes_on.mp ⟨f₁, hok⟩).1
      refine ⟨d₂', w₂', ?_, ?_⟩
      · rw [Loop.run_of_body hbody₂, hrun₂]
      · rw [headLength_line hline, if_neg hne, ← Nat.add_assoc]
        exact hfollows'
    | inr f₁ =>
      cases hrest
      obtain ⟨hempty, rfl⟩ := headerLine_stops hok
      have hbody₂ : parseHeaderLoop.body d₂ w₂ = (.ok (.inr e₂), v₂) := by
        simp only [parseHeaderLoop]
        rw [parseHeaderBody_eq, Prog.bind_ok hcall₂, Prog.ofOutcome_run, headerLine, if_pos hempty]
      refine ⟨e₂, v₂, Loop.run_of_leave hbody₂, ?_⟩
      rw [headLength_line hline, if_pos hempty]
      exact hfollows

/-- Up to the body it does not matter where the stream is cut. -/
theorem head_follows {fd : ℤ}
    (hc : (cutOf (new env fd) w₂).stream = delivered w₁.recvs ++ rest)
    (hrun : parseData env (new env fd) w₁ = (.ok d₁', w₁')) (haccepted : ¬ d₁'.Refused) :
    ∃ e₁ v₁ e₂ v₂, afterHead env e₁ v₁ = (.ok d₁', w₁') ∧
      parseData env (new env fd) w₂ = afterHead env e₂ v₂ ∧
      Follows (delivered w₁.recvs) (cutOf (new env fd) w₂) (headLength (delivered w₁.recvs))
        e₁ v₁ e₂ v₂ := by
  rw [parseData_eq] at hrun
  obtain ⟨e₁, v₁, hstart, hrun⟩ := Prog.bind_eq_ok hrun
  have hgoes : ¬ e₁.Refused := by
    intro hrefused
    rw [if_pos hrefused] at hrun
    cases hrun
    exact haccepted hrefused
  rw [if_neg hgoes] at hrun
  obtain ⟨f₁, u₁, hheader, hrun⟩ := Prog.bind_eq_ok hrun
  obtain ⟨l, e₂, v₂, hne, hline, hstart₂, hfollows⟩ :=
    parseStartLine_follows hc (Follows.new env fd w₁ w₂) rfl hstart hgoes
  obtain ⟨f₂, u₂, hheader₂, hfollows'⟩ := parseHeader_follows hc hfollows hheader
  have hgoes₂ : ¬ e₂.Refused := by
    rw [hfollows.object]
    exact hgoes
  refine ⟨f₁, u₁, f₂, u₂, hrun, ?_, ?_⟩
  · rw [parseData_eq, Prog.bind_ok hstart₂, if_neg hgoes₂]
    exact Prog.bind_ok hheader₂
  · rw [List.drop_zero] at hline
    rw [headLength_line hline, if_neg hne]
    simpa only [Nat.zero_add] using hfollows'

/-- At the end of the request both objects are the same if a chunk ends there. -/
theorem Follows.eq_of_end (h : Follows request c request.length d₁ w₁ d₂ w₂)
    (hend : (c.advance request.length).buffer = []) : d₂ = d₁ := by
  have hunread₁ : d₁.unread = [] := by
    have hstream := h.alone
    rw [List.drop_length] at hstream
    exact (List.append_eq_nil_iff.mp hstream).1
  have hunread₂ : d₂.unread = [] := by
    rw [← hend, ← h.place]
    rfl
  rw [h.object, hunread₂, ← hunread₁]
  rfl

theorem Follows.at_end (h : Follows request c n d₁ w₁ d₂ w₂)
    (hall : (cutOf d₁ w₁).stream = []) : n = request.length := by
  have hdrop := h.alone
  rw [hall] at hdrop
  have hle := List.drop_eq_nil_iff.mp hdrop.symm
  exact Nat.le_antisymm h.inside hle

/-- If the deliveries that are left begin behind the request, a chunk ends with it. -/
theorem Follows.end_of_delivered (hc : c.stream = request ++ rest)
    (h : Follows request c request.length d₁ w₁ d₂ w₂) (hrest : delivered w₂.recvs = rest) :
    (c.advance request.length).buffer = [] := by
  have hstream : (cutOf d₂ w₂).stream = rest := by
    rw [h.place, Cut.stream_advance, hc, List.drop_left]
  have hunread : d₂.unread ++ rest = rest := by
    rw [← hrest]
    rw [← hrest] at hstream
    exact hstream
  rw [← h.place]
  exact List.append_left_eq_self.mp hunread

/-- The loop reads the body alike if both objects have a byte of it in the buffer, or if there
is none. -/
theorem parseBodyLoop_follows {contentLength : ℤ} {data : Str} (hc : c.stream = request ++ rest)
    (h : Follows request c n d₁ w₁ d₂ w₂)
    (hrun : (parseBodyLoop contentLength).run ([], d₁) w₁ = (.ok (data, d₁'), w₁'))
    (hall : (cutOf d₁' w₁').stream = [])
    (hcut : (c.advance n).buffer = [] ↔ request.drop n = []) :
    ∃ d₂' w₂', (parseBodyLoop contentLength).run ([], d₂) w₂ = (.ok (data, d₂'), w₂') ∧
      Follows request c request.length d₁' w₁' d₂' w₂' := by
  have hunread₂ : d₂.unread = (c.advance n).buffer := congrArg Cut.buffer h.place
  by_cases hempty : d₁.unread = []
  · -- neither loop is entered, and there is no body
    rw [parseBodyLoop_empty hempty] at hrun
    cases hrun
    have hend := h.at_end hall
    have hnone : request.drop n = [] := by rw [← h.alone, hall]
    refine ⟨d₂, w₂, parseBodyLoop_empty (hunread₂.trans (hcut.mpr hnone)), ?_⟩
    rwa [← hend]
  · obtain ⟨t, ht, hdata, hlength, hstream⟩ := parseBodyLoop_eq_ok hrun hempty
    rw [List.nil_append] at hdata
    rw [hall, List.append_nil, h.alone] at hstream
    have hzero : ((([] : Str).length : ℕ) : ℤ) + t.length = contentLength := by
      rw [← hlength, hdata]
      simp
    have hbuffer : (c.advance n).buffer ≠ [] := by
      rw [Ne, hcut, hstream]
      exact ht
    have hload₁ : StandsAt (cutOf d₁ w₁).load (endOf w₁.recvs) d₁ w₁ :=
      ⟨(Cut.load_of_buffer hempty).symm, rfl⟩
    have hload₂ : StandsAt (c.advance n).load (endOf w₂.recvs) d₂ w₂ :=
      ⟨by rw [Cut.load_of_buffer hbuffer, h.place], rfl⟩
    have hstream₁ : (cutOf d₁ w₁).stream = t ++ [] := by rw [h.alone, hstream, List.append_nil]
    have hstream₂ : (c.advance n).stream = t ++ rest := by
      rw [Cut.stream_advance, hc, List.drop_append_of_le_length h.inside, hstream]
    obtain ⟨v₁, hrun₁, -⟩ := parseBodyLoop_ok t hload₁ hstream₁ ht hzero
    obtain ⟨v₂, hrun₂, hat₂⟩ := parseBodyLoop_ok t hload₂ hstream₂ ht hzero
    rw [hrun] at hrun₁
    cases hrun₁
    have hend : n + t.length = request.length := by
      have hsum := congrArg List.length hstream
      rw [List.length_drop] at hsum
      have hinside := h.inside
      omega
    refine ⟨_, v₂, hrun₂, ?_, h.prev, ?_, ?_, Nat.le_refl _⟩
    · rw [h.object]
      rfl
    · rw [hall, List.drop_length]
    · rw [hat₂.cut, ← Cut.advance_add, hend]

theorem finishBody_follows {contentLength : ℤ} {data : Str} (h : Follows request c n d₁ w₁ d₂ w₂)
    (hrun : finishBody env contentLength (data, d₁) w₁ = (.ok d₁', w₁')) :
    ∃ d₂', finishBody env contentLength (data, d₂) w₂ = (.ok d₂', w₂) ∧
      Follows request c n d₁' w₁' d₂' w₂ := by
  obtain ⟨rfl, ⟨params, rfl⟩, hfinish⟩ := finishBody_eq_ok hrun
  have hfinish₂ := hfinish d₂.unread d₂.prev w₂
  rw [h.object_reading] at hfinish₂
  exact ⟨_, hfinish₂, h.replace rfl rfl rfl rfl⟩

theorem parseBodyParamData_follows (hallocates : ∀ n, env.newArray n = true)
    (hc : c.stream = request ++ rest) (h : Follows request c n d₁ w₁ d₂ w₂)
    (hrun : parseBodyParamData env d₁ w₁ = (.ok d₁', w₁')) (hall : (cutOf d₁' w₁').stream = [])
    (hcut : (c.advance n).buffer = [] ↔ request.drop n = []) :
    ∃ d₂' w₂', parseBodyParamData env d₂ w₂ = (.ok d₂', w₂') ∧
      Follows request c request.length d₁' w₁' d₂' w₂' := by
  obtain ⟨contentLength, -, hstarts⟩ := parseBodyParamData_starts hallocates hrun
  obtain ⟨v₁, hv₁, heq₁⟩ := hstarts d₁.unread d₁.prev w₁
  obtain ⟨v₂, hv₂, heq₂⟩ := hstarts d₂.unread d₂.prev w₂
  rw [reading_self, hrun] at heq₁
  have hfollows := h.replace rfl rfl hv₁ hv₂
  rw [h.object_reading] at heq₂ hfollows
  obtain ⟨⟨data, e₁⟩, u₁, hloop, hfinish⟩ := Prog.bind_eq_ok heq₁.symm
  obtain ⟨rfl, ⟨params, rfl⟩, -⟩ := finishBody_eq_ok hfinish
  have hall₁ : (cutOf e₁ w₁').stream = [] := hall
  obtain ⟨e₂, u₂, hloop₂, hfollows₁⟩ := parseBodyLoop_follows hc hfollows hloop hall₁ hcut
  obtain ⟨d₂', hfinish₂, hfollows₂⟩ := finishBody_follows hfollows₁ hfinish
  refine ⟨d₂', u₂, ?_, hfollows₂⟩
  rw [heq₂, Prog.bind_ok hloop₂, hfinish₂]

/-- Otherwise the deliveries after the request do not begin with the next one. -/
theorem parseBodyParamData_strays (hallocates : ∀ n, env.newArray n = true)
    {d d' : HttpData} {w w' : World} (hrun : parseBodyParamData env d w = (.ok d', w')) :
    (d.unread = [] → delivered w'.recvs = (cutOf d w).stream) ∧
      (d.unread ≠ [] → (delivered w'.recvs).length < (cutOf d w).stream.length) := by
  obtain ⟨contentLength, -, hstarts⟩ := parseBodyParamData_starts hallocates hrun
  obtain ⟨v, hv, heq⟩ := hstarts d.unread d.prev w
  rw [reading_self, hrun] at heq
  obtain ⟨⟨data, e⟩, u, hloop, hfinish⟩ := Prog.bind_eq_ok heq.symm
  obtain ⟨rfl, -, -⟩ := finishBody_eq_ok hfinish
  have hsame : (cutOf d v).stream = (cutOf d w).stream := by simp only [cutOf, hv]
  constructor
  · intro hempty
    rw [parseBodyLoop_empty hempty] at hloop
    cases hloop
    rw [← hsame, cutOf, Cut.stream_mk, hempty, List.nil_append]
    rfl
  · intro hne
    obtain ⟨t, ht, -, -, hstream⟩ := parseBodyLoop_eq_ok hloop hne
    have hpos := List.length_pos_of_ne_nil ht
    have hlength := congrArg List.length hstream
    simp only [cutOf, Cut.stream_mk, List.length_append] at hlength
    rw [← hsame, delivered]
    simp only [cutOf, Cut.stream_mk, List.length_append]
    omega

section
variable {fd : ℤ} (hallocates : ∀ n, env.newArray n = true)
  (hc : (cutOf (new env fd) w₂).stream = delivered w₁.recvs ++ rest)
  (hrun : parseData env (new env fd) w₁ = (.ok d₁', w₁')) (haccepted : ¬ d₁'.Refused)
  (hall : (cutOf d₁' w₁').stream = [])
include hallocates hc hrun haccepted hall

/-- It is parsed as if it came alone if a chunk ends with it, and none between its empty
line and its body. -/
theorem parseData_in_stream
    (hend : ((cutOf (new env fd) w₂).advance (delivered w₁.recvs).length).buffer = [])
    (hbody : d₁'.requestMethod = .POST →
      (delivered w₁.recvs).drop (headLength (delivered w₁.recvs)) ≠ [] →
        ((cutOf (new env fd) w₂).advance (headLength (delivered w₁.recvs))).buffer ≠ []) :
    ∃ w₂', parseData env (new env fd) w₂ = (.ok d₁', w₂') ∧
      cutOf d₁' w₂' = (cutOf (new env fd) w₂).advance (delivered w₁.recvs).length := by
  obtain ⟨e₁, v₁, e₂, v₂, hrun₁, heq₂, hfollows⟩ := head_follows hc hrun haccepted
  have hmethod : e₂.requestMethod = e₁.requestMethod := by
    rw [hfollows.object]
    rfl
  rw [heq₂]
  by_cases hpost : e₁.requestMethod = .POST
  · rw [afterHead, if_pos hpost] at hrun₁
    have hpost' : d₁'.requestMethod = .POST := by
      obtain ⟨unread, params, rfl⟩ := parseBodyParamData_object hrun₁
      exact hpost
    have hcut : ((cutOf (new env fd) w₂).advance (headLength (delivered w₁.recvs))).buffer = [] ↔
        (delivered w₁.recvs).drop (headLength (delivered w₁.recvs)) = [] := by
      constructor
      · intro hnil
        by_contra hne
        exact hbody hpost' hne hnil
      · intro hnil
        have hle := List.drop_eq_nil_iff.mp hnil
        rwa [Nat.le_antisymm hfollows.inside hle]
    obtain ⟨d₂', w₂', hrun₂, hfollows₂⟩ :=
      parseBodyParamData_follows hallocates hc hfollows hrun₁ hall hcut
    have hsame := hfollows₂.eq_of_end hend
    subst hsame
    refine ⟨w₂', ?_, hfollows₂.place⟩
    rw [afterHead, if_pos (hmethod.trans hpost), hrun₂]
  · rw [afterHead, if_neg hpost] at hrun₁
    cases hrun₁
    have hlength := hfollows.at_end hall
    rw [hlength] at hfollows
    have hsame := hfollows.eq_of_end hend
    subst hsame
    refine ⟨v₂, ?_, hfollows.place⟩
    rw [afterHead, if_neg hpost]
    rfl

/-- If it is parsed and what is left to deliver is the rest of the stream, a chunk ends with
it, and none between its empty line and its body. -/
theorem cut_of_parseData {d₂' : HttpData}
    (hrun₂ : parseData env (new env fd) w₂ = (.ok d₂', w₂'))
    (hrest : delivered w₂'.recvs = rest) :
    ((cutOf (new env fd) w₂).advance (delivered w₁.recvs).length).buffer = [] ∧
      (d₁'.requestMethod = .POST →
        (delivered w₁.recvs).drop (headLength (delivered w₁.recvs)) ≠ [] →
          ((cutOf (new env fd) w₂).advance (headLength (delivered w₁.recvs))).buffer ≠ []) := by
  obtain ⟨e₁, v₁, e₂, v₂, hrun₁, heq₂, hfollows⟩ := head_follows hc hrun haccepted
  have hmethod : e₂.requestMethod = e₁.requestMethod := by
    rw [hfollows.object]
    rfl
  have hstream₂ : (cutOf e₂ v₂).stream =
      (delivered w₁.recvs).drop (headLength (delivered w₁.recvs)) ++ rest := by
    rw [hfollows.place, Cut.stream_advance, hc, List.drop_append_of_le_length hfollows.inside]
  have hunread₂ : e₂.unread =
      ((cutOf (new env fd) w₂).advance (headLength (delivered w₁.recvs))).buffer :=
    congrArg Cut.buffer hfollows.place
  rw [heq₂] at hrun₂
  by_cases hpost : e₁.requestMethod = .POST
  · rw [afterHead, if_pos hpost] at hrun₁
    rw [afterHead, if_pos (hmethod.trans hpost)] at hrun₂
    obtain ⟨hempty, hloaded⟩ := parseBodyParamData_strays hallocates hrun₂
    rw [hstream₂, hrest, hunread₂] at hempty hloaded
    have hcut : ((cutOf (new env fd) w₂).advance (headLength (delivered w₁.recvs))).buffer = [] ↔
        (delivered w₁.recvs).drop (headLength (delivered w₁.recvs)) = [] := by
      constructor
      · intro hnil
        exact List.append_left_eq_self.mp (hempty hnil).symm
      · intro hnil
        by_contra hne
        have hlt := hloaded hne
        rw [hnil, List.nil_append] at hlt
        exact lt_irrefl _ hlt
    obtain ⟨d₂'', w₂'', hrun₂', hfollows₂⟩ :=
      parseBodyParamData_follows hallocates hc hfollows hrun₁ hall hcut
    rw [hrun₂] at hrun₂'
    cases hrun₂'
    exact ⟨hfollows₂.end_of_delivered hc hrest, fun _ hne => mt hcut.mp hne⟩
  · rw [afterHead, if_neg hpost] at hrun₁
    rw [afterHead, if_neg (by rwa [hmethod])] at hrun₂
    cases hrun₁
    cases hrun₂
    rw [hfollows.at_end hall] at hfollows
    exact ⟨hfollows.end_of_delivered hc hrest, fun hpost' => absurd hpost' hpost⟩

end

end HttpData

/-! ## The requests of a connection -/

/-- A request the parser accepts when its bytes come alone, in some cutting, taking them all,
and which keeps the connection. -/
structure SentRequest (fd : ℤ) where
  env : Env
  bytes : Str
  parsed : HttpData
  allocates : ∀ n, env.newArray n = true
  accepted : ∃ w w', delivered w.recvs = bytes ∧
    HttpData.parseData env (.new env fd) w = (.ok parsed, w') ∧ ¬ parsed.Refused ∧
      (cutOf parsed w').stream = []
  keepsAlive : parsed.keepConnection = true

namespace SentRequest

variable {fd : ℤ}

/-- A chunk ends exactly between the empty line and the body. -/
def BodyCut (q : SentRequest fd) (chunks : List Str) : Prop :=
  q.parsed.requestMethod = .POST ∧ q.bytes.drop (headLength q.bytes) ≠ [] ∧
    ∃ before after, chunks = before ++ after ∧ before.flatten.length = headLength q.bytes

/-- The request comes in chunks of its own. -/
def Alone (q : SentRequest fd) (chunks : List Str) : Prop :=
  chunks.flatten = q.bytes ∧ ¬ q.BodyCut chunks

end SentRequest

variable {fd : ℤ}

def bytesOf (qs : List (SentRequest fd)) : Str := (qs.map SentRequest.bytes).flatten

/-- What `recv` delivers of the requests, sent back to back. -/
structure Delivery (qs : List (SentRequest fd)) where
  recvs : List RecvResult
  sent : delivered recvs = bytesOf qs

/-- The calls of `httpserver`, one for each request, parse the requests that were sent, and
each leaves the bytes of the later ones. -/
def ParsedInTurn : List (SentRequest fd) → List RecvResult → Prop
  | [], _ => True
  | q :: qs, rs => ∀ w : World, w.recvs = rs →
    (∃ w', HttpData.parseData q.env (.new q.env fd) w = (.ok q.parsed, w')) ∧
      delivered (httpserver q.env fd w).2.recvs = bytesOf qs ∧
        ParsedInTurn qs (httpserver q.env fd w).2.recvs

/-- The chunks are those of one request after another. -/
def Separated : List (SentRequest fd) → List Str → Prop
  | [], _ => True
  | q :: qs, chunks => ∃ before after, chunks = before ++ after ∧ q.Alone before ∧
    Separated qs after

/-- A new object has an empty buffer exactly where a chunk ends. -/
theorem buffer_new_eq_nil (env : Env) (w : World) {n : ℕ} (hn : n ≤ (delivered w.recvs).length) :
    ((cutOf (.new env fd) w).advance n).buffer = [] ↔
      ∃ before after, chunksOf w.recvs = before ++ after ∧ before.flatten.length = n :=
  Cut.buffer_advance_eq_nil hn

/-- A shorter part of the chunks ends within a longer one. -/
theorem prefix_of_shorter {before after b a : List Str} (h : before ++ after = b ++ a)
    (hlt : b.flatten.length < before.flatten.length) : ∃ rest, before = b ++ rest := by
  rcases List.append_eq_append_iff.mp h with ⟨rest, hb, -⟩ | ⟨rest, hbefore, -⟩
  · rw [hb, List.flatten_append, List.length_append] at hlt
    omega
  · exact ⟨rest, hbefore⟩

theorem parsed_of_alone {q : SentRequest fd} {rest : Str} {w : World} {before after : List Str}
    (hw : delivered w.recvs = q.bytes ++ rest) (hchunks : chunksOf w.recvs = before ++ after)
    (halone : q.Alone before) :
    ∃ w', HttpData.parseData q.env (.new q.env fd) w = (.ok q.parsed, w') ∧
      chunksOf w'.recvs = after := by
  obtain ⟨w₁, w₁', hbytes, hrun, haccepted, hall⟩ := q.accepted
  obtain ⟨hbefore, huncut⟩ := halone
  rw [← hbytes] at hw hbefore
  obtain ⟨hend, hafter⟩ := Cut.advance_of_split (h := chunksOf_ne_nil) hchunks
  rw [hbefore] at hend hafter
  have hbody : q.parsed.requestMethod = .POST →
      (delivered w₁.recvs).drop (headLength (delivered w₁.recvs)) ≠ [] →
        ((cutOf (.new q.env fd) w).advance (headLength (delivered w₁.recvs))).buffer ≠ [] := by
    intro hpost hne hnil
    have hlt : headLength (delivered w₁.recvs) < (delivered w₁.recvs).length := by
      rw [Ne, List.drop_eq_nil_iff] at hne
      omega
    have hle : headLength (delivered w₁.recvs) ≤ (delivered w.recvs).length := by
      rw [hw, List.length_append]
      omega
    obtain ⟨b, a, hsplit, hlength⟩ := (buffer_new_eq_nil q.env w hle).mp hnil
    rw [hchunks] at hsplit
    obtain ⟨tail, rfl⟩ := prefix_of_shorter hsplit (by rw [hlength, hbefore]; exact hlt)
    rw [hbytes] at hne hlength
    exact huncut ⟨hpost, hne, b, tail, rfl, hlength⟩
  obtain ⟨w', hparse, hplace⟩ := HttpData.parseData_in_stream q.allocates hw hrun haccepted hall
    hend hbody
  refine ⟨w', hparse, ?_⟩
  rw [← hafter]
  exact congrArg Cut.chunks hplace

theorem alone_of_parsed {q : SentRequest fd} {rest : Str} {w w' : World}
    (hw : delivered w.recvs = q.bytes ++ rest)
    (hparse : HttpData.parseData q.env (.new q.env fd) w = (.ok q.parsed, w'))
    (hrest : delivered w'.recvs = rest) :
    ∃ before after, chunksOf w.recvs = before ++ after ∧ q.Alone before := by
  obtain ⟨w₁, w₁', hbytes, hrun, haccepted, hall⟩ := q.accepted
  rw [← hbytes] at hw
  obtain ⟨hend, hbody⟩ :=
    HttpData.cut_of_parseData q.allocates hw hrun haccepted hall hparse hrest
  have hle : (delivered w₁.recvs).length ≤ (delivered w.recvs).length := by
    rw [hw, List.length_append]
    omega
  obtain ⟨before, after, hchunks, hlength⟩ := (buffer_new_eq_nil q.env w hle).mp hend
  have hflatten : before.flatten = delivered w₁.recvs := by
    have heq : before.flatten ++ after.flatten = delivered w₁.recvs ++ rest := by
      rw [← hw, delivered, hchunks, List.flatten_append]
    exact (List.append_inj heq hlength).1
  refine ⟨before, after, hchunks, hflatten.trans hbytes, ?_⟩
  rintro ⟨hpost, hne, b, tail, hsplit, hhead⟩
  rw [← hbytes] at hne hhead
  have hall' : chunksOf w.recvs = b ++ (tail ++ after) := by
    rw [hchunks, hsplit, List.append_assoc]
  have hcut := (Cut.advance_of_split (h := chunksOf_ne_nil) hall').1
  rw [hhead] at hcut
  exact hbody hpost hne hcut

/-- Whatever way the stream is cut, the requests are parsed in turn exactly if each of them
comes in chunks of its own and no body begins with a chunk. -/
theorem parsed_in_turn_iff (qs : List (SentRequest fd)) (r : Delivery qs) :
    ParsedInTurn qs r.recvs ↔ Separated qs (chunksOf r.recvs) := by
  obtain ⟨rs, hsent⟩ := r
  simp only
  induction qs generalizing rs with
  | nil => exact Iff.rfl
  | cons q qs ih =>
    have hbytes : delivered rs = q.bytes ++ bytesOf qs := hsent
    constructor
    · intro h
      obtain ⟨⟨w', hparse⟩, hrest, hturn⟩ := h (firstClient fd rs) rfl
      rw [recvs_httpserver hparse] at hrest hturn
      obtain ⟨before, after, hchunks, halone⟩ := alone_of_parsed hbytes hparse hrest
      obtain ⟨w'', hparse', hafter⟩ := parsed_of_alone hbytes hchunks halone
      rw [hparse] at hparse'
      cases hparse'
      refine ⟨before, after, hchunks, halone, ?_⟩
      rw [← hafter]
      exact (ih w'.recvs hrest).mp hturn
    · rintro ⟨before, after, hchunks, halone, hseparated⟩ w rfl
      obtain ⟨w', hparse, hafter⟩ := parsed_of_alone hbytes hchunks halone
      have hrest : delivered w'.recvs = bytesOf qs := by
        have heq : before.flatten ++ after.flatten = q.bytes ++ bytesOf qs := by
          rw [← hbytes, delivered, hchunks, List.flatten_append]
        rw [halone.1] at heq
        rw [delivered, hafter]
        exact List.append_cancel_left heq
      rw [recvs_httpserver hparse]
      refine ⟨⟨w', hparse⟩, hrest, (ih w'.recvs hrest).mpr ?_⟩
      rwa [hafter]

/-- A request for the index page that keeps the connection. -/
def keepAliveGet : Chunk where
  bytes := str "GET / HTTP/1.1\r\nConnection= keep-alive\r\n\r\n"
  nonempty := by decide +kernel
  fits := by decide +kernel

def twoKeepAliveGets : Chunk where
  bytes := keepAliveGet.bytes ++ keepAliveGet.bytes
  nonempty := by decide +kernel
  fits := by decide +kernel

/-- Two requests in one chunk: the second is lost with the object of the first. -/
theorem not_parsed_in_turn : ∃ (qs : List (SentRequest 5)) (r : Delivery qs),
    qs.map SentRequest.bytes = [keepAliveGet.bytes, keepAliveGet.bytes] ∧
      r.recvs = [.data twoKeepAliveGets] ∧ ¬ ParsedInTurn qs r.recvs := by
  have hrun : ∃ d w', HttpData.parseData calmEnv (.new calmEnv 5)
      (firstClient 5 [.data keepAliveGet]) = (.ok d, w') ∧ ¬ d.Refused ∧
        (cutOf d w').stream = [] ∧ d.keepConnection = true := by
    have heval : returns (fun d w' =>
        decide (¬ d.Refused ∧ (cutOf d w').stream = [] ∧ d.keepConnection = true))
        (HttpData.parseData calmEnv (.new calmEnv 5) (firstClient 5 [.data keepAliveGet])) =
          true := by
      decide +kernel
    obtain ⟨d, w', hparse, hend⟩ := returns_eq_true heval
    exact ⟨d, w', hparse, of_decide_eq_true hend⟩
  obtain ⟨d, w', hparse, haccepted, hall, hkeeps⟩ := hrun
  have hsent : delivered [.data keepAliveGet] = keepAliveGet.bytes := List.append_nil _
  let q : SentRequest 5 := {
    env := calmEnv
    bytes := keepAliveGet.bytes
    parsed := d
    allocates := fun _ => rfl
    accepted := ⟨_, w', hsent, hparse, haccepted, hall⟩
    keepsAlive := hkeeps }
  have htwo : delivered [.data twoKeepAliveGets] = bytesOf [q, q] := by
    simp [delivered, chunksOf, bytesOf, twoKeepAliveGets, q]
  refine ⟨[q, q], ⟨[.data twoKeepAliveGets], htwo⟩, rfl, rfl, ?_⟩
  intro h
  obtain ⟨-, hrest, -⟩ := h (firstClient 5 [.data twoKeepAliveGets]) rfl
  have hnone : delivered (httpserver calmEnv 5
      (firstClient 5 [.data twoKeepAliveGets])).2.recvs = [] := by decide +kernel
  have hlost : bytesOf [q] = [] := hrest.symm.trans hnone
  have hne : keepAliveGet.bytes ++ [] ≠ [] := by
    rw [List.append_nil]
    exact keepAliveGet.nonempty
  exact hne hlost

end LxcHttpServer
