import LxcHttpServer.BodyReading
import LxcHttpServer.ParameterStrings
import LxcHttpServer.StartLines

/-!
# The length a `POST` announces

The header is scanned line by line, the last line with the name `Content-Length` is scanned for a
space, and what follows is converted and used as it is. Each of these can go wrong in its own way,
and so can the copying of a body that should be empty.
-/
namespace LxcHttpServer
open EffectPrograms CutStreams Strings Separators

namespace HttpData

variable {env : Env} {fd : ℤ} {d d₁ d₂ : HttpData} {w w₁ w₂ : World} {l r s line : Str}

/-- A line that does not fit, or that the stream does not hold. -/
theorem parseHeader_fails (hprev : d.prev ≠ 13) (hline : fittingLine (cutOf d w).stream = none) :
    (parseHeader d w).1 = (lineFailure (endOf w.recvs) (cutOf d w).stream).failing := by
  have hfails := (failsAt (d := d) (w := w) ⟨rfl, rfl⟩ hprev hline).outcome
  have hbody : (parseHeaderBody d w).1 =
      (lineFailure (endOf w.recvs) (cutOf d w).stream).failing := by
    rw [parseHeaderBody_eq]
    exact Prog.bind_failing hfails
  exact Loop.run_failing (l := parseHeaderLoop) hbody

/-- The empty line. -/
theorem parseHeader_stops (hprev : d.prev ≠ 13) (hline : fittingLine (cutOf d w).stream =
    some (l, r)) (hempty : cString l = []) :
    ∃ d' w', parseHeader d w = (.ok d', w') ∧ endOf w'.recvs = endOf w.recvs := by
  obtain ⟨d', w', hcall, htook⟩ := parseOneLine_took hprev hline
  have hbody : parseHeaderBody d w = (.ok (.inr d'), w') := by
    rw [parseHeaderBody_eq, Prog.bind_ok hcall, Prog.ofOutcome_run, headerLine, if_pos hempty]
  exact ⟨d', w', Loop.run_of_leave (l := parseHeaderLoop) hbody, htook.place.ending⟩

/-- A line without `=`. -/
theorem parseHeader_leaves_line (hprev : d.prev ≠ 13) (hline : fittingLine (cutOf d w).stream =
    some (l, r)) (hne : cString l ≠ []) (hnone : 61 ∉ cString l) :
    (parseHeader d w).1 = .undefined .outOfBounds := by
  obtain ⟨d', w', hcall, -⟩ := parseOneLine_took hprev hline
  have hbody : (parseHeaderBody d w).1 =
      (Outcome.undefined .outOfBounds : Outcome Thrown Undefined Empty).failing := by
    have hfind : findFrom (· = 61) (cString l) 0 = none := by
      rw [findFrom, List.drop_zero, findIdx?_of_notMem hnone]
      rfl
    rw [parseHeaderBody_eq, Prog.bind_ok hcall, Prog.ofOutcome_run, headerLine, if_neg hne]
    simp only [hfind]
    rfl
  exact Loop.run_failing (l := parseHeaderLoop) hbody

/-- Another line is stored, and the header goes on behind it. -/
theorem parseHeader_next (hprev : d.prev ≠ 13) (hline : fittingLine (cutOf d w).stream =
    some (l, r)) (hne : cString l ≠ []) (hequals : 61 ∈ cString l) :
    ∃ d₁ w₁, parseHeader d w = parseHeader d₁ w₁ ∧ (cutOf d₁ w₁).stream = r ∧ d₁.prev ≠ 13 ∧
      endOf w₁.recvs = endOf w.recvs := by
  obtain ⟨d₁, w₁, hbody, hrest⟩ := parseHeaderBody_next hprev hline hne hequals
  exact ⟨d₁, w₁, Loop.run_of_body (l := parseHeaderLoop) hbody, hrest⟩

/-- Every line before the empty one has a `=`. -/
def Scans (s : Str) : Prop := ∀ line ∈ headerLines s, 61 ∈ line

theorem scans_line (hline : fittingLine s = some (l, r)) (hne : cString l ≠ []) :
    Scans s ↔ 61 ∈ cString l ∧ Scans r := by
  rw [Scans, headerLines_line hline, if_neg hne, List.forall_mem_cons]
  rfl

theorem scans_of_empty (hline : fittingLine s = some (l, r)) (hempty : cString l = []) :
    Scans s := by
  rw [Scans, headerLines_line hline, if_pos hempty]
  simp

theorem mem_lines_line (hline : fittingLine s = some (l, r)) (hne : cString l ≠ []) :
    [] ∈ (linesOf s).1 ↔ [] ∈ (linesOf r).1 := by
  rw [linesOf_some hline, List.mem_cons, or_iff_right fun h => hne h.symm]

/-- A header with an empty line is read to it if the lines before have their `=`. -/
theorem parseHeader_complete (hprev : d.prev ≠ 13) (hscans : Scans (cutOf d w).stream)
    (hempty : [] ∈ (linesOf (cutOf d w).stream).1) :
    ∃ d' w', parseHeader d w = (.ok d', w') ∧ endOf w'.recvs = endOf w.recvs := by
  induction hs : (cutOf d w).stream using linesOf.induct generalizing d w with
  | case1 s hline =>
    rw [hs, linesOf_none hline] at hempty
    cases hempty
  | case2 s l r hline ih =>
    rw [← hs] at hline
    by_cases hnil : cString l = []
    · exact parseHeader_stops hprev hline hnil
    · rw [scans_line hline hnil] at hscans
      rw [mem_lines_line hline hnil] at hempty
      obtain ⟨d₁, w₁, hnext, hstream, hprev₁, hending⟩ :=
        parseHeader_next hprev hline hnil hscans.1
      obtain ⟨d', w', hrun, hending'⟩ := ih hprev₁ (hstream ▸ hscans.2) (hstream ▸ hempty) hstream
      exact ⟨d', w', hnext.trans hrun, hending'.trans hending⟩

/-- Without an empty line it ends where no line fits any more. -/
theorem parseHeader_incomplete (hprev : d.prev ≠ 13) (hscans : Scans (cutOf d w).stream)
    (hempty : [] ∉ (linesOf (cutOf d w).stream).1) : (parseHeader d w).1 =
      (lineFailure (endOf w.recvs) (linesOf (cutOf d w).stream).2).failing := by
  induction hs : (cutOf d w).stream using linesOf.induct generalizing d w with
  | case1 s hline =>
    rw [← hs] at hline
    rw [parseHeader_fails hprev hline, linesOf_none (hs ▸ hline), hs]
  | case2 s l r hline ih =>
    rw [← hs] at hline
    have hnil : cString l ≠ [] := by
      intro hnil
      rw [linesOf_some hline, hnil] at hempty
      exact hempty List.mem_cons_self
    rw [scans_line hline hnil] at hscans
    rw [mem_lines_line hline hnil] at hempty
    obtain ⟨d₁, w₁, hnext, hstream, hprev₁, hending⟩ := parseHeader_next hprev hline hnil hscans.1
    rw [hnext, ih hprev₁ (hstream ▸ hscans.2) (hstream ▸ hempty) hstream, hending, ← hs,
      linesOf_some hline]

/-- A scan for `=` leaves the first line without it. -/
theorem parseHeader_not_scans (hprev : d.prev ≠ 13) (hscans : ¬ Scans (cutOf d w).stream) :
    (parseHeader d w).1 = .undefined .outOfBounds := by
  induction hs : (cutOf d w).stream using linesOf.induct generalizing d w with
  | case1 s hline =>
    rw [hs, Scans, headerLines, linesOf_none hline] at hscans
    simp at hscans
  | case2 s l r hline ih =>
    rw [← hs] at hline
    have hnil : cString l ≠ [] := fun hnil => hscans (scans_of_empty hline hnil)
    by_cases hequals : 61 ∈ cString l
    · obtain ⟨d₁, w₁, hnext, hstream, hprev₁, -⟩ := parseHeader_next hprev hline hnil hequals
      have hlater : ¬ Scans r := fun hr => hscans ((scans_line hline hnil).mpr ⟨hequals, hr⟩)
      rw [hnext]
      exact ih hprev₁ (hstream ▸ hlater) hstream
    · exact parseHeader_leaves_line hprev hline hnil hequals

/-- The last header line with the name `Content-Length`. -/
def lengthLine (s : Str) : Option Str :=
  ((headerLines s).filter fun line => beforeEquals line = str "Content-Length").getLast?

/-- What stands behind the first space. -/
def behindSpace (line : Str) : Str := (line.dropWhile (· ≠ 32)).tail

theorem contentLength_setHeader (headName line : Str) (d : HttpData) :
    (d.setHeader headName line).contentLength =
      if headName = str "Content-Length" then some line else d.contentLength := by
  by_cases hname : headName = str "Content-Length"
  · have hdistinct : str "Content-Length" ≠ str "HOST" ∧ str "Content-Length" ≠ str "User-Agent" ∧
        str "Content-Length" ≠ str "Accept" ∧ str "Content-Length" ≠ str "Accept-Language" ∧
        str "Content-Length" ≠ str "Connection" ∧
        str "Content-Length" ≠ str "Upgrade-Insecure-Requests" ∧
        str "Content-Length" ≠ str "Content_Type" := by
      decide +kernel
    obtain ⟨h₁, h₂, h₃, h₄, h₅, h₆, h₇⟩ := hdistinct
    subst hname
    simp only [setHeader, if_neg h₁, if_neg h₂, if_neg h₃, if_neg h₄, if_neg h₅, if_neg h₆,
      if_neg h₇, if_true]
  · simp [setHeader, hname, apply_ite contentLength]

theorem contentLength_foldl (lines : List Str) (d : HttpData) :
    (lines.foldl takeHeader d).contentLength =
      ((lines.filter fun line => beforeEquals line = str "Content-Length").getLast?).or
        d.contentLength := by
  induction lines using List.reverseRecOn with
  | nil => rfl
  | append_singleton lines line ih =>
    rw [List.foldl_append, List.foldl_cons, List.foldl_nil, takeHeader, contentLength_setHeader,
      List.filter_append, List.filter_singleton]
    by_cases hname : beforeEquals line = str "Content-Length"
    · simp [hname]
    · simp [hname, ih]

theorem numeralContentLength_line (hline : d.contentLength = some line) (hspace : 32 ∈ line)
    (w : World) : numeralContentLength d w = Work.stoi (behindSpace line) w := by
  obtain ⟨before, behind, rfl, hbefore⟩ := List.eq_append_cons_of_mem hspace
  have hfind : findFrom (· = 32) (before ++ 32 :: behind) 0 = some before.length := by
    rw [findFrom, List.drop_zero, findIdx?_append_cons hbefore]
    simp
  have hbehind : behindSpace (before ++ 32 :: behind) = behind := by
    rw [behindSpace, dropWhile_append_cons hbefore, List.tail_cons]
  have hdrop : (before ++ 32 :: behind).drop (before.length + 1) = behind := by
    rw [← List.drop_drop, List.drop_left]
    rfl
  rw [numeralContentLength, hline]
  simp only [hfind, hdrop, hbehind]

theorem numeralContentLength_no_space (hline : d.contentLength = some line) (hspace : 32 ∉ line)
    (w : World) : numeralContentLength d w = (.undefined .outOfBounds, w) := by
  have hfind : findFrom (· = 32) line 0 = none := by
    rw [findFrom, List.drop_zero, findIdx?_of_notMem hspace]
    rfl
  rw [numeralContentLength, hline]
  simp only [hfind]
  rfl

def requestHead (d : HttpData) : Work HttpData := parseStartLine d >>= parseHeader

theorem parseStartLine_post {target version : Str} {more : List Str} (env : Env) (fd : ℤ)
    (hline : fittingLine (delivered w.recvs) = some (l, r))
    (hwords : words (cString l) = str "POST" :: target :: version :: more) : ∃ d₁ w₁,
      parseStartLine (new env fd) w = (.ok d₁, w₁) ∧ d₁.requestMethod = .POST ∧
        d₁.contentLength = none ∧ (cutOf d₁ w₁).stream = r ∧ d₁.prev ≠ 13 ∧
        endOf w₁.recvs = endOf w.recvs := by
  obtain ⟨d, w₁, hcall, htook⟩ := parseOneLine_took (prev_new env fd) (w := w) hline
  have hbad : d.badRequest = false := htook.badRequest
  have hok : startLine (str "POST" :: target :: version :: more) d = .ok ((d.setRequestMethod
      (str "POST" :: target :: version :: more)).withTarget target version) :=
    startLine_accepted hbad (.inr rfl)
  have hnotGet : str "POST" ≠ str "GET" := by decide +kernel
  have hmethod : d.setRequestMethod (str "POST" :: target :: version :: more) =
      { d with requestMethod := .POST } := by
    simp only [setRequestMethod, if_neg hnotGet, if_true]
  obtain ⟨hrest, hprev⟩ := htook.of_keeps (startLine_keeps hok)
  have hstream : fittingLine (delivered w.recvs) = some (l, (cutOf _ w₁).stream) := hrest
  rw [hline, Option.some.injEq, Prod.mk.injEq] at hstream
  refine ⟨_, w₁, ?_, ?_, ?_, hstream.2.symm, hprev, htook.place.ending⟩
  · rw [parseStartLine_eq, Prog.bind_ok hcall, Prog.ofOutcome_run, tokens_eq, hwords, hok]
  · rw [hmethod]
    rfl
  · rw [hmethod, htook.object]
    rfl

/-- The object behind the head of the request. -/
structure BehindHead (env : Env) (fd : ℤ) (w : World) (r : Str) (d : HttpData) (w' : World) :
    Prop where
  run : requestHead (new env fd) w = (.ok d, w')
  line : d.contentLength = lengthLine r
  unread : d.unread = [] ↔ CutBehindHead w.recvs
  left : headLength (delivered w.recvs) + (cutOf d w').stream.length = (delivered w.recvs).length
  ending : endOf w'.recvs = endOf w.recvs

theorem behind_head {target version : Str} {more : List Str} (env : Env) (fd : ℤ)
    (hline : fittingLine (delivered w.recvs) = some (l, r))
    (hwords : words (cString l) = str "POST" :: target :: version :: more) (hscans : Scans r)
    (hempty : [] ∈ (linesOf r).1) : ∃ d w', BehindHead env fd w r d w' := by
  obtain ⟨d₁, w₁, hstart, hpost, hnone, rfl, hprev, hending₁⟩ :=
    parseStartLine_post env fd hline hwords
  obtain ⟨d₂, w₂, hheader, hending₂⟩ := parseHeader_complete hprev hscans hempty
  have hgoes := not_refused_of_post hstart hpost
  obtain ⟨hplace, hinside⟩ := place_behind_head hstart hgoes hheader
  refine ⟨d₂, w₂, ?_, ?_, unread_behind_head hstart hgoes hheader, ?_, hending₂.trans hending₁⟩
  · rw [requestHead, Prog.bind_ok hstart, hheader]
  · have hfold := congrArg contentLength (parseHeader_lines hprev hheader)
    rw [hfold]
    change ((headerLines (cutOf d₁ w₁).stream).foldl takeHeader d₁).contentLength = _
    rw [contentLength_foldl, hnone, Option.or_none, lengthLine]
  · have hnew : (cutOf (new env fd) w).stream = delivered w.recvs := rfl
    rw [hplace, Cut.stream_advance, hnew, List.length_drop, Nat.add_sub_cancel' hinside]

/-- How the reading of the body may end: as many bytes as the length says were taken from the
stream and nothing else, a `std::exception` was thrown, or the stream ended before the last of
the bytes. -/
inductive BodyHandled (d : HttpData) (w : World) :
    Outcome Thrown Undefined (Str × HttpData) × World → Prop
  | copied {d' : HttpData} {w₁ w' : World} {n : ℕ}
      (hlength : numeralContentLength d w = (.ok (n : ℤ), w₁))
      (hfits : n ≤ (cutOf d w).stream.length)
      (hleft : (cutOf d' w').stream = (cutOf d w).stream.drop n) :
      BodyHandled d w (.ok (cString ((cutOf d w).stream.take n ++ [38]), d'), w')
  | exception {t : Thrown} {w' : World} (hstd : t.isStdException = true) :
      BodyHandled d w (.throw t, w')
  | truncated {w₁ w' : World} {n : ℕ} (hlength : numeralContentLength d w = (.ok (n : ℤ), w₁))
      (hshort : (cutOf d w).stream.length < n) :
      BodyHandled d w ((endOf w.recvs).failure.failing, w')

/-- The same of the request: its head arrives and the reading of the body ends so, or the stream
ends within the head. -/
inductive Handled (env : Env) (fd : ℤ) (w : World) :
    Outcome Thrown Undefined (Str × HttpData) × World → Prop
  | behindHead {d : HttpData} {w₁ : World} {r : Outcome Thrown Undefined (Str × HttpData) × World}
      (hhead : requestHead (new env fd) w = (.ok d, w₁)) (hbody : BodyHandled d w₁ r) :
      Handled env fd w r
  | withinHead {w' : World} (hhead : [] ∉ (linesOf (delivered w.recvs)).1) :
      Handled env fd w ((endOf w.recvs).failure.failing, w')

theorem failure_ne_undefined {α : Type} (e : StreamEnd) (u : Undefined) :
    (e.failure.failing : Outcome Thrown Undefined α) ≠ .undefined u := by
  cases e with
  | silent => simp [StreamEnd.failure, Outcome.failing]
  | error => simp [StreamEnd.failure, Outcome.failing]
  | closed => simp [StreamEnd.failure, Outcome.failing]

theorem BodyHandled.defined {r : Outcome Thrown Undefined (Str × HttpData) × World}
    (h : BodyHandled d w r) (u : Undefined) : r.1 ≠ .undefined u := by
  cases h with
  | copied => simp
  | exception => simp
  | truncated => exact failure_ne_undefined _ u

theorem Handled.defined {r : Outcome Thrown Undefined (Str × HttpData) × World}
    (h : Handled env fd w r) (u : Undefined) : r.1 ≠ .undefined u := by
  cases h with
  | behindHead _ hbody => exact hbody.defined u
  | withinHead _ => exact failure_ne_undefined _ u

/-- An empty body is not waited for: only an error of `recv`, which is a `std::exception`, may end
its reading. -/
theorem BodyHandled.error {r : Outcome Thrown Undefined (Str × HttpData) × World}
    (h : BodyHandled d w r) (hlength : numeralContentLength d w = (.ok 0, w₁))
    (hfails : r.1 = (endOf w.recvs).failure.failing) : endOf w.recvs = .error := by
  cases h with
  | copied => exact absurd hfails Outcome.ok_ne_failing
  | exception hstd =>
    cases hend : endOf w.recvs with
    | error => rfl
    | silent => simp [hend, StreamEnd.failure, Outcome.failing] at hfails
    | closed =>
      simp only [hend, StreamEnd.failure, Outcome.failing, Outcome.throw.injEq] at hfails
      rw [hfails] at hstd
      cases hstd
  | truncated hn hshort =>
    rw [hlength] at hn
    simp only [Prod.mk.injEq, Outcome.ok.injEq] at hn
    omega

/-- Two bytes fit into the array for an empty body, and the loop does not stop at them. -/
theorem parseBodyLoop_zero (hunread : d.unread ≠ []) :
    ((parseBodyLoop 0).run ([], d) w).1 = if (cutOf d w).stream.length ≤ 2 then
      (endOf w.recvs).failure.failing else .undefined .outOfBounds := by
  have hbuffer : (cutOf d w).buffer ≠ [] := hunread
  have hat : StandsAt (cutOf d w).load (endOf w.recvs) d w :=
    ⟨(Cut.load_of_buffer hbuffer).symm, rfl⟩
  have hne : (cutOf d w).stream ≠ [] := List.append_ne_nil_of_left_ne_nil hbuffer _
  have hroom₀ : (([] : Str).length : ℤ) < 0 + 2 := by simp
  have hmore₀ : (([] : Str).length : ℤ) + 1 ≠ 0 := by simp
  obtain ⟨b, s, hstream⟩ := List.exists_cons_of_ne_nil hne
  have hroom₁ : (([b] : Str).length : ℤ) < 0 + 2 := by simp
  have hmore₁ : (([b] : Str).length : ℤ) + 1 ≠ 0 := by simp
  cases s with
  | nil =>
    rw [hstream, if_pos (by simp)]
    exact Loop.run_failing (l := parseBodyLoop 0) (parseBodyBody_end hat hstream hroom₀ hmore₀)
  | cons b' s =>
    obtain ⟨w₁, hround, hat₁⟩ :=
      parseBodyBody_round hat hstream (List.cons_ne_nil b' s) hroom₀ hmore₀
    have hstream₁ : (cutOf d w).next.stream = b' :: s := by rw [Cut.stream_next, hstream]; rfl
    rw [Loop.run_of_body (l := parseBodyLoop 0) (a := ([], d)) hround, hstream, List.nil_append]
    cases s with
    | nil =>
      rw [if_pos (by simp)]
      exact Loop.run_failing (l := parseBodyLoop 0)
        (parseBodyBody_end hat₁ hstream₁ hroom₁ hmore₁)
    | cons b'' s =>
      obtain ⟨w₂, hround₂, hat₂⟩ :=
        parseBodyBody_round hat₁ hstream₁ (List.cons_ne_nil b'' s) hroom₁ hmore₁
      have hstream₂ : (cutOf d w).next.next.stream = b'' :: s := by
        rw [Cut.stream_next, hstream₁]
        rfl
      have hfull : (0 : ℤ) + 2 ≤ (([b] ++ [b'] : Str).length : ℤ) := by simp
      rw [if_neg (by simp), Loop.run_of_body (l := parseBodyLoop 0) (a := ([b], _)) hround₂]
      exact Loop.run_failing (l := parseBodyLoop 0) (o := .undefined .outOfBounds)
        (parseBodyBody_full hat₂ hstream₂ hfull)

/-- The number in the line makes the parser fail as it should, or there is an array for it that
is filled. -/
def SoundLength (line : Str) (cut cutOff : Prop) : Prop := 32 ∈ line ∧
  ∀ k, stoi (behindSpace line) = .ok k →
    k + 2 ≤ INT_MAX ∧ (k < -2 ∨ 0 < k ∧ ¬ cut ∨ k = 0 ∧ (cut ∨ cutOff))

/-- At most two bytes are left, and then `recv` fails. -/
def CutOff (d : HttpData) (w : World) : Prop :=
  (cutOf d w).stream.length ≤ 2 ∧ endOf w.recvs = .error

theorem numeralContentLength_number {k : ℤ} (hline : d.contentLength = some line)
    (hspace : 32 ∈ line) (hnumber : stoi (behindSpace line) = .ok k) :
    numeralContentLength d w = (.ok k, w.record (.stoi (behindSpace line))) := by
  rw [numeralContentLength_line hline hspace, Work.stoi, hnumber]

/-- What `stoi` throws is a `std::exception`. -/
theorem stoi_std {text : Str} {t : Thrown} (h : stoi text = .error t) :
    t.isStdException = true := by
  have hsigned : ∀ sign text, signedValue sign text = .error t → t.isStdException = true := by
    intro sign text hvalue
    simp only [signedValue] at hvalue
    split_ifs at hvalue <;> cases hvalue <;> rfl
  unfold stoi at h
  split at h
  · cases h
    rfl
  · split_ifs at h
    · exact hsigned _ _ h
    · exact hsigned _ _ h
    · exact hsigned _ _ h

/-- A length that is not zero: the bytes of the body follow in the buffer and the stream, or the
stream ends before the last of them. -/
theorem fillBody_handled {n : ℕ} (env : Env) (hn : n ≠ 0) (hunread : d.unread ≠ [])
    (hlength : numeralContentLength d w = (.ok (n : ℤ), w₁)) (c₁ c₂ : Call) :
    BodyHandled d w (fillBody env d n ((w.record c₁).record c₂)) := by
  obtain ⟨v, hv⟩ : ∃ v, v = (w.record c₁).record c₂ := ⟨_, rfl⟩
  have hcut : cutOf d v = cutOf d w := by rw [hv]; rfl
  have hending : endOf v.recvs = endOf w.recvs := by rw [hv]; rfl
  rw [← hv]
  by_cases hfits : n ≤ (cutOf d w).stream.length
  · have hstream : (cutOf d v).stream = (cutOf d w).stream.take n ++ (cutOf d w).stream.drop n := by
      rw [hcut, List.take_append_drop]
    obtain ⟨d', w', hrun, hleft⟩ :=
      fillBody_copies env hn hunread hstream (List.length_take_of_le hfits)
    rw [hrun]
    exact .copied hlength hfits hleft
  · have hbuffer : (cutOf d v).buffer ≠ [] := hunread
    have hat : StandsAt (cutOf d v).load (endOf v.recvs) d v :=
      ⟨(Cut.load_of_buffer hbuffer).symm, rfl⟩
    have hshort : ((([] : Str).length : ℕ) : ℤ) + (cutOf d v).stream.length < n := by
      rw [hcut]
      simpa using hfits
    have hloop := parseBodyLoop_short _ hat rfl (List.append_ne_nil_of_left_ne_nil hbuffer _) hshort
    have hfails : (fillBody env d n v).1 = (endOf w.recvs).failure.failing := by
      rw [fillBody, ← hending]
      exact Prog.bind_failing hloop
    rw [← Prod.mk.eta (p := fillBody env d n v), hfails]
    exact .truncated hlength (not_le.mp hfits)

/-- A length of zero. -/
theorem fillBody_zero (env : Env) (hlength : numeralContentLength d w = (.ok 0, w₁))
    (c₁ c₂ : Call) : BodyHandled d w (fillBody env d 0 ((w.record c₁).record c₂)) ↔
      d.unread = [] ∨ CutOff d w := by
  obtain ⟨v, hv⟩ : ∃ v, v = (w.record c₁).record c₂ := ⟨_, rfl⟩
  have hcut : cutOf d v = cutOf d w := by rw [hv]; rfl
  have hending : endOf v.recvs = endOf w.recvs := by rw [hv]; rfl
  rw [← hv]
  by_cases hunread : d.unread = []
  · simp only [hunread, true_or, iff_true]
    have hrun := fillBody_empty env 0 hunread v
    rw [bodyString_full env List.length_nil, Int.natCast_zero] at hrun
    rw [hrun]
    exact .copied (n := 0) hlength (Nat.zero_le _) (by rw [hcut, List.drop_zero])
  · have hloop := parseBodyLoop_zero (w := v) hunread
    rw [hcut, hending] at hloop
    by_cases hshort : (cutOf d w).stream.length ≤ 2
    · rw [if_pos hshort] at hloop
      have hfails : (fillBody env d 0 v).1 = (endOf w.recvs).failure.failing :=
        Prog.bind_failing hloop
      simp only [hunread, CutOff, hshort, false_or, true_and]
      constructor
      · intro h
        exact h.error hlength hfails
      · intro herror
        rw [← Prod.mk.eta (p := fillBody env d 0 v), hfails, herror]
        exact .exception rfl
    · rw [if_neg hshort] at hloop
      have hundefined : (fillBody env d 0 v).1 =
          (Outcome.undefined .outOfBounds : Outcome Thrown Undefined Empty).failing :=
        Prog.bind_failing hloop
      simp only [hunread, CutOff, hshort, false_or, false_and, iff_false]
      intro h
      exact h.defined .outOfBounds hundefined

theorem readBody_handled (env : Env) (hline : d.contentLength = some line)
    (h : SoundLength line (d.unread = []) (CutOff d w)) :
    (∀ k w', allocateBody env d w = (.ok k, w') → 0 ≤ k) ∧
      BodyHandled d w (readBody env d w) := by
  obtain ⟨hspace, hnumbers⟩ := h
  -- whatever is thrown before the array is filled is a `std::exception`
  have hthrown : ∀ t, (allocateBody env d w).1 = .throw t → t.isStdException = true →
      BodyHandled d w (readBody env d w) := by
    intro t hallocate hstd
    have hread : (readBody env d w).1 = .throw t := Prog.bind_failing (o := .throw t) hallocate
    rw [← Prod.mk.eta (p := readBody env d w), hread]
    exact .exception hstd
  cases hstoi : stoi (behindSpace line) with
  | error t =>
    have hthrows : (numeralContentLength d w).1 =
        (Outcome.throw t : Outcome Thrown Undefined Empty).failing := by
      rw [numeralContentLength_line hline hspace, Work.stoi, hstoi]
      rfl
    have hallocate : (allocateBody env d w).1 = .throw t := Prog.bind_failing hthrows
    refine ⟨?_, hthrown t hallocate (stoi_std hstoi)⟩
    intro k w' hrun
    rw [hrun] at hallocate
    cases hallocate
  | ok k =>
    have hnumber := numeralContentLength_number hline hspace hstoi (w := w)
    obtain ⟨hsize, hrange⟩ := hnumbers k hstoi
    refine ⟨?_, ?_⟩
    · intro k' w' hrun
      obtain ⟨-, hpos, -, rfl, -⟩ := allocateBody_eq_ok hnumber hrun
      omega
    · by_cases hmade : k + 2 < 0 ∨
          env.newArray (w.record (.stoi (behindSpace line))).calls.length = false
      · obtain ⟨t, hallocate, hstd⟩ := allocateBody_no_memory hnumber hsize hmade
        exact hthrown t hallocate hstd
      · rw [not_or, not_lt, Bool.not_eq_false] at hmade
        rw [readBody, Prog.bind_ok (allocateBody_ok hnumber hsize hmade.1 hmade.2)]
        rcases hrange with hneg | ⟨hpos, hbytes⟩ | ⟨rfl, hnone⟩
        · omega
        · obtain ⟨n, rfl⟩ := Int.eq_ofNat_of_zero_le hpos.le
          exact fillBody_handled env (by omega) hbytes hnumber _ _
        · exact (fillBody_zero env hnumber _ _).mpr hnone

theorem not_handled_readBody {u : Undefined} (h : (numeralContentLength d w).1 = .undefined u) :
    ¬ BodyHandled d w (readBody env d w) := by
  have hallocate : (allocateBody env d w).1 =
      (Outcome.undefined u : Outcome Thrown Undefined Empty).failing := Prog.bind_failing h
  have hread : (readBody env d w).1 =
      (Outcome.undefined u : Outcome Thrown Undefined Empty).failing := Prog.bind_failing hallocate
  intro hhandled
  exact hhandled.defined u hread

/-- Without bytes in the buffer no byte of the body is copied. -/
theorem not_handled_cut {n : ℕ} (hn : n ≠ 0) (hunread : d.unread = [])
    (hlength : numeralContentLength d w = (.ok (n : ℤ), w₁)) (c₁ c₂ : Call) :
    ¬ BodyHandled d w (fillBody env d n ((w.record c₁).record c₂)) := by
  rw [fillBody_empty env n hunread]
  generalize hr : (Outcome.ok (bodyString env n [], d), (w.record c₁).record c₂) = r
  intro h
  cases h with
  | copied hsame hfits hleft =>
    rw [hlength] at hsame
    simp only [Prod.mk.injEq, Outcome.ok.injEq, Int.natCast_inj] at hr hsame
    obtain ⟨⟨-, rfl⟩, rfl⟩ := hr
    obtain ⟨rfl, -⟩ := hsame
    have hstream : (cutOf d ((w.record c₁).record c₂)).stream = (cutOf d w).stream := rfl
    rw [hstream] at hleft
    have hcount := congrArg List.length hleft
    rw [List.length_drop] at hcount
    omega
  | exception hstd => cases hr
  | truncated _ _ =>
    rw [Prod.mk.injEq] at hr
    exact Outcome.ok_ne_failing hr.1

theorem sound_of_handled (hmemory : ∀ n, env.newArray n = true)
    (hlength : ∀ k w', allocateBody env d w = (.ok k, w') → 0 ≤ k)
    (hhandled : BodyHandled d w (readBody env d w)) : ∃ line,
      d.contentLength = some line ∧ SoundLength line (d.unread = []) (CutOff d w) := by
  cases hline : d.contentLength with
  | none =>
    have hnull : (numeralContentLength d w).1 = .undefined .nullPointer := by
      rw [numeralContentLength, hline]
      rfl
    exact absurd hhandled (not_handled_readBody hnull)
  | some line =>
    have hspace : 32 ∈ line := by
      by_contra hnone
      have hleaves := numeralContentLength_no_space hline hnone w
      exact not_handled_readBody (congrArg Prod.fst hleaves) hhandled
    refine ⟨line, rfl, hspace, ?_⟩
    intro k hk
    have hnumber := numeralContentLength_number hline hspace hk (w := w)
    have hsize : k + 2 ≤ INT_MAX := by
      by_contra hlarge
      have hoverflow : (allocateBody env d w).1 =
          (Outcome.undefined .overflow : Outcome Thrown Undefined Empty).failing := by
        rw [allocateBody, Prog.bind_ok hnumber, if_pos (not_le.mp hlarge)]
        rfl
      have hread : (readBody env d w).1 =
          (Outcome.undefined .overflow : Outcome Thrown Undefined Empty).failing :=
        Prog.bind_failing hoverflow
      exact hhandled.defined .overflow hread
    refine ⟨hsize, ?_⟩
    by_cases hneg : k < -2
    · exact .inl hneg
    have hok := allocateBody_ok hnumber hsize (by omega) (hmemory _)
    have hnonneg := hlength k _ hok
    rw [readBody, Prog.bind_ok hok] at hhandled
    rcases hnonneg.lt_or_eq with hpos | rfl
    · obtain ⟨n, rfl⟩ := Int.eq_ofNat_of_zero_le hnonneg
      refine .inr (.inl ⟨hpos, fun hunread => ?_⟩)
      exact not_handled_cut (by omega) hunread hnumber _ _ hhandled
    · exact .inr (.inr ⟨rfl, (fillBody_zero env hnumber _ _).mp hhandled⟩)

/-! ## The whole request -/

/-- At most two bytes follow the head, and then `recv` fails. -/
def CutOffBehindHead (rs : List RecvResult) : Prop :=
  (delivered rs).length ≤ headLength (delivered rs) + 2 ∧ endOf rs = .error

/-- What the header lines behind a start line must be for the length to be read safely. -/
structure SoundHead (rs : List RecvResult) (r : Str) : Prop where
  scans : Scans r
  fits : [] ∉ (linesOf r).1 → (linesOf r).2.length ≤ LINE_BUFFERSIZE
  length : [] ∈ (linesOf r).1 → ∃ line, lengthLine r = some line ∧
    SoundLength line (CutBehindHead rs) (CutOffBehindHead rs)

/-- Whatever the memory holds and `new` does, the request is read up to its body or fails as it
should, and no array is made for a negative length. -/
structure HandlesLength (fd : ℤ) (w : World) : Prop where
  length : ∀ env k w', (requestHead (new env fd) >>= allocateBody env) w = (.ok k, w') → 0 ≤ k
  ending : ∀ env, Handled env fd w ((requestHead (new env fd) >>= readBody env) w)

theorem BehindHead.cutOff {d : HttpData} {w' : World} (h : BehindHead env fd w r d w') :
    CutOff d w' ↔ CutOffBehindHead w.recvs := by
  have hleft := h.left
  rw [CutOff, CutOffBehindHead, h.ending]
  refine and_congr_left' ?_
  constructor
  · intro hshort
    omega
  · intro hshort
    omega

section Post
variable {target version : Str} {more : List Str}
  (hline : fittingLine (delivered w.recvs) = some (l, r))
  (hwords : words (cString l) = str "POST" :: target :: version :: more)
include hline hwords

theorem requestHead_not_scans (env : Env) (fd : ℤ) (hscans : ¬ Scans r) :
    (requestHead (new env fd) w).1 = .undefined .outOfBounds := by
  obtain ⟨d₁, w₁, hstart, -, -, rfl, hprev, -⟩ := parseStartLine_post env fd hline hwords
  rw [requestHead, Prog.bind_ok hstart]
  exact parseHeader_not_scans hprev hscans

theorem requestHead_incomplete (env : Env) (fd : ℤ) (hscans : Scans r)
    (hempty : [] ∉ (linesOf r).1) : (requestHead (new env fd) w).1 =
      (lineFailure (endOf w.recvs) (linesOf r).2).failing := by
  obtain ⟨d₁, w₁, hstart, -, -, rfl, hprev, hending⟩ := parseStartLine_post env fd hline hwords
  rw [requestHead, Prog.bind_ok hstart, ← hending]
  exact parseHeader_incomplete hprev hscans hempty

/-- The empty line behind the start line is one of the lines of the stream. -/
theorem mem_lines_iff : [] ∈ (linesOf (delivered w.recvs)).1 ↔ [] ∈ (linesOf r).1 := by
  apply mem_lines_line hline
  intro hempty
  rw [hempty] at hwords
  cases hwords

theorem HandlesLength.sound {fd : ℤ} (h : HandlesLength fd w) : SoundHead w.recvs r := by
  have hending := h.ending calmEnv
  have hscans : Scans r := by
    by_contra hnot
    have hhead : (requestHead (new calmEnv fd) w).1 =
        (Outcome.undefined .outOfBounds : Outcome Thrown Undefined Empty).failing :=
      requestHead_not_scans hline hwords calmEnv fd hnot
    exact hending.defined .outOfBounds (Prog.bind_failing hhead)
  refine ⟨hscans, ?_, ?_⟩
  · intro hempty
    by_contra hlong
    have hhead := requestHead_incomplete hline hwords calmEnv fd hscans hempty
    rw [lineFailure, if_pos (not_le.mp hlong)] at hhead
    exact hending.defined .outOfBounds (Prog.bind_failing hhead)
  · intro hempty
    obtain ⟨d, w', hbehind⟩ := behind_head calmEnv fd hline hwords hscans hempty
    have hlength : ∀ k v, allocateBody calmEnv d w' = (.ok k, v) → 0 ≤ k := by
      intro k v hrun
      exact h.length calmEnv k v (by rw [Prog.bind_ok hbehind.run, hrun])
    have hbody : BodyHandled d w' (readBody calmEnv d w') := by
      rw [Prog.bind_ok hbehind.run] at hending
      generalize readBody calmEnv d w' = run at hending ⊢
      cases hending with
      | behindHead hhead hbody =>
        cases hbehind.run.symm.trans hhead
        exact hbody
      | withinHead hno => exact absurd ((mem_lines_iff hline hwords).mpr hempty) hno
    obtain ⟨line, hcontent, hsound⟩ := sound_of_handled (fun _ => rfl) hlength hbody
    rw [hbehind.unread, hbehind.cutOff] at hsound
    exact ⟨line, hbehind.line.symm.trans hcontent, hsound⟩

theorem SoundHead.handles (fd : ℤ) (h : SoundHead w.recvs r) : HandlesLength fd w := by
  by_cases hempty : [] ∈ (linesOf r).1
  · obtain ⟨line, hlengthLine, hsound⟩ := h.length hempty
    have hread : ∀ env, ∃ d w', requestHead (new env fd) w = (.ok d, w') ∧
        (∀ k v, allocateBody env d w' = (.ok k, v) → 0 ≤ k) ∧
        BodyHandled d w' (readBody env d w') := by
      intro env
      obtain ⟨d, w', hbehind⟩ := behind_head env fd hline hwords h.scans hempty
      rw [← hbehind.unread, ← hbehind.cutOff] at hsound
      exact ⟨d, w', hbehind.run,
        readBody_handled env (hbehind.line.trans hlengthLine) hsound⟩
    constructor
    · intro env k v hrun
      obtain ⟨d, w', hhead, hlength, -⟩ := hread env
      rw [Prog.bind_ok hhead] at hrun
      exact hlength k v hrun
    · intro env
      obtain ⟨d, w', hhead, -, hbody⟩ := hread env
      rw [Prog.bind_ok hhead]
      exact .behindHead hhead hbody
  · have hhead : ∀ env, (requestHead (new env fd) w).1 = (endOf w.recvs).failure.failing := by
      intro env
      have hincomplete := requestHead_incomplete hline hwords env fd h.scans hempty
      rwa [lineFailure, if_neg (not_lt.mpr (h.fits hempty))] at hincomplete
    constructor
    · intro env k v hrun
      have hfails := Prog.bind_failing (f := allocateBody env) (hhead env)
      rw [hrun] at hfails
      exact absurd hfails Outcome.ok_ne_failing
    · intro env
      have hfails : ((requestHead (new env fd) >>= readBody env) w).1 =
          (endOf w.recvs).failure.failing := Prog.bind_failing (hhead env)
      rw [← Prod.mk.eta (p := (requestHead (new env fd) >>= readBody env) w), hfails]
      exact .withinHead ((mem_lines_iff hline hwords).not.mpr hempty)

/-- The length of a `POST` is handled exactly if every header line has a `=` and fits, and the
last line with the name has a space and behind it either no number of type `int`, or one for which
`new` throws, or one for which an array is made and filled with the body. -/
theorem handles_length_iff (fd : ℤ) : HandlesLength fd w ↔ SoundHead w.recvs r :=
  ⟨fun h => h.sound hline hwords, fun h => h.handles hline hwords fd⟩

end Post

@[simp] theorem requestMethod_setHeader (headName line : Str) (d : HttpData) :
    (d.setHeader headName line).requestMethod = d.requestMethod := by
  simp only [setHeader, apply_ite requestMethod, ite_self]

theorem requestMethod_foldl (lines : List Str) (d : HttpData) :
    (lines.foldl takeHeader d).requestMethod = d.requestMethod := by
  induction lines generalizing d with
  | nil => rfl
  | cons line lines ih => rw [List.foldl_cons, ih, takeHeader, requestMethod_setHeader]

/-- A `POST` is parsed in these stages, and then its parameters are. -/
theorem parseData_post (hstart : parseStartLine (new env fd) w = (.ok d₁, w₁))
    (hpost : d₁.requestMethod = .POST) :
    parseData env (new env fd) w = ((requestHead (new env fd) >>= readBody env) >>= fun p =>
      parseStringParamTo_htable_clientParamData p.1 p.2) w := by
  have hprev : d₁.prev ≠ 13 := by
    obtain ⟨l, e, htook, hok⟩ := parseStartLine_took (prev_new env fd) hstart
    exact (htook.of_keeps (startLine_keeps hok)).2
  rw [parseData_eq, Prog.bind_ok hstart, if_neg (not_refused_of_post hstart hpost),
    Prog.bind_assoc, requestHead, Prog.bind_assoc, Prog.bind_ok hstart, Prog.bind_run,
    Prog.bind_run]
  cases hheader : parseHeader d₁ w₁ with
  | mk o w₂ =>
    cases o with
    | ok d₂ =>
      have hmethod : d₂.requestMethod = .POST := by
        rw [parseHeader_lines hprev hheader]
        exact (requestMethod_foldl _ d₁).trans hpost
      simp only [afterHead, if_pos hmethod, parseBodyParamData_eq]
    | throw t => rfl
    | undefined u => rfl
    | blocked => rfl
    | killed => rfl

/-- One chunk brings the head and the body. -/
theorem not_cutBehindHead_postWhole : ¬ CutBehindHead [.data postWhole] := by
  rintro ⟨before, after, hsplit, hlength⟩
  have hone : chunksOf [.data postWhole] = [postWhole.bytes] := rfl
  rw [hone] at hsplit
  have hhead : headLength (delivered [.data postWhole]) = 38 := by decide +kernel
  have hbytes : postWhole.bytes.length = 41 := by decide +kernel
  rw [hhead] at hlength
  cases before with
  | nil => simp at hlength
  | cons chunk before =>
    obtain ⟨rfl, hrest⟩ := List.cons.inj hsplit
    obtain ⟨rfl, -⟩ := List.append_eq_nil_iff.mp hrest.symm
    simp [hbytes] at hlength

theorem soundHead_postWhole :
    SoundHead [.data postWhole] (str "Content-Length= 3\r\n\r\na=1") where
  scans := by
    rw [Scans]
    decide +kernel
  fits hempty := absurd (by decide +kernel) hempty
  length _ := by
    refine ⟨str "Content-Length= 3", by decide +kernel, by decide +kernel, ?_⟩
    intro k hk
    have hthree : stoi (behindSpace (str "Content-Length= 3")) = .ok 3 := by decide +kernel
    rw [hthree] at hk
    cases hk
    exact ⟨by decide, .inr (.inl ⟨by decide, not_cutBehindHead_postWhole⟩)⟩

/-- A request whose body is read. -/
theorem handles_length_postWhole :
    fittingLine (delivered [.data postWhole]) =
        some (str "POST / HTTP/1.1", str "Content-Length= 3\r\n\r\na=1") ∧
      words (cString (str "POST / HTTP/1.1")) = [str "POST", str "/", str "HTTP/1.1"] ∧
      SoundHead [.data postWhole] (str "Content-Length= 3\r\n\r\na=1") ∧
      HandlesLength 5 (firstClient 5 [.data postWhole]) := by
  have hline : fittingLine (delivered [.data postWhole]) =
      some (str "POST / HTTP/1.1", str "Content-Length= 3\r\n\r\na=1") := by decide +kernel
  have hwords : words (cString (str "POST / HTTP/1.1")) =
      [str "POST", str "/", str "HTTP/1.1"] := by decide +kernel
  exact ⟨hline, hwords, soundHead_postWhole,
    (handles_length_iff (w := firstClient 5 [.data postWhole]) hline hwords 5).mpr
      soundHead_postWhole⟩

/-- A `POST` without header lines. -/
def barePost : Chunk where
  bytes := str "POST / HTTP/1.1\r\n\r\n"
  nonempty := by decide +kernel
  fits := by decide +kernel

/-- The pointer to its missing line is followed. -/
theorem not_handles_length : ¬ HandlesLength 5 (firstClient 5 [.data barePost]) := by
  intro h
  have hline : fittingLine (delivered [.data barePost]) = some (str "POST / HTTP/1.1", CRLF) := by
    decide +kernel
  have hwords : words (cString (str "POST / HTTP/1.1")) =
      [str "POST", str "/", str "HTTP/1.1"] := by decide +kernel
  have hsound := h.sound hline hwords
  obtain ⟨line, hlast, -⟩ := hsound.length (by decide +kernel)
  have hnone : lengthLine CRLF = none := by decide +kernel
  rw [hnone] at hlast
  cases hlast

end HttpData
end LxcHttpServer
