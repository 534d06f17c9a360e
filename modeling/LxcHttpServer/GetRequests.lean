import LxcHttpServer.Replies
import LxcHttpServer.RequestHeads
import LxcHttpServer.WorkerRuns

/-!
# What a `GET` is answered with

As long as `send` takes whole buffers and the file system stands still, the bytes that answer a
`GET` are a function of its head, of the file and of what the buffer held before. Where the
function has no value, the call does what the language does not define.
-/
namespace LxcHttpServer
open EffectPrograms Strings Responser

variable {env : Env} {fd : ℤ} {d : HttpData} {w w₁ w₂ : World} {bytes bytes' rest : Str}
  {result : StatResult} {file : Option Str}

/-- The bytes were sent, and everything else that another call would see is as it was. -/
structure Passed (w w' : World) (bytes : Str) : Prop where
  sent : Sent w w' bytes
  recvs : w'.recvs = w.recvs
  timer : w'.server.timer = w.server.timer
  openFds : w'.server.kernel.openFds = w.server.kernel.openFds

/-- The world after `fopen` has opened the file. -/
def World.opened (w : World) (path : Str) : World :=
  (w.withKernel (w.server.kernel.openFd w.server.kernel.unusedFd)).record (.fopen path true)

namespace Passed

theorem refl (w : World) : Passed w w [] := ⟨Sent.refl w, rfl, rfl, rfl⟩

theorem record (w : World) (c : Call) : Passed w (w.record c) (transmits c) :=
  ⟨Sent.record w c, rfl, rfl, rfl⟩

theorem trans (h : Passed w w₁ bytes) (h' : Passed w₁ w₂ bytes') :
    Passed w w₂ (bytes ++ bytes') where
  sent := h.sent.trans h'.sent
  recvs := h'.recvs.trans h.recvs
  timer := h'.timer.trans h.timer
  openFds := h'.openFds.trans h.openFds

/-- A file is opened before, and closed afterwards. -/
theorem closed {path : Str} (h : Passed (w.opened path) w₁ bytes) :
    Passed w (Work.fclose w.server.kernel.unusedFd w₁).2 bytes where
  sent := by
    have hbefore : Sent w (w.opened path) [] := ⟨[.fopen path true], rfl, rfl⟩
    have hall := (hbefore.trans h.sent).trans (sent_fclose w.server.kernel.unusedFd w₁)
    rwa [List.nil_append, List.append_nil] at hall
  recvs := h.recvs
  timer := h.timer
  openFds := by
    have herase : (Work.fclose w.server.kernel.unusedFd w₁).2.server.kernel.openFds =
        w₁.server.kernel.openFds.erase w.server.kernel.unusedFd := rfl
    rw [herase, h.openFds]
    exact Finset.erase_insert w.server.kernel.unusedFd_not_mem

end Passed

/-- The program sends the answer and returns; where there is no answer, what it does is not
defined. -/
def Gives (p : Work Unit) (w : World) : Option Str → Prop
  | none => ∃ u w', p w = (.undefined u, w')
  | some bytes => ∃ w', p w = (.ok (), w') ∧ Passed w w' bytes

namespace Gives

variable {α : Type} {p : Work α} {a : α} {g : α → Work Unit} {answer : Option Str}

/-- What was sent before stands before the answer. -/
theorem after (hp : p w = (.ok a, w₁)) (hpassed : Passed w w₁ bytes) (hg : Gives (g a) w₁ answer) :
    Gives (p >>= g) w (answer.map (bytes ++ ·)) := by
  cases answer with
  | none =>
    obtain ⟨u, w', hrun⟩ := hg
    exact ⟨u, w', (Prog.bind_ok hp).trans hrun⟩
  | some more =>
    obtain ⟨w', hrun, hmore⟩ := hg
    exact ⟨w', (Prog.bind_ok hp).trans hrun, hpassed.trans hmore⟩

theorem after_quiet (hp : p w = (.ok a, w₁)) (hpassed : Passed w w₁ [])
    (hg : Gives (g a) w₁ answer) : Gives (p >>= g) w answer := by
  have h := after hp hpassed hg
  simpa using h

theorem pure (w : World) : Gives (pure ()) w (some []) := ⟨w, rfl, .refl w⟩

/-- The file that was opened is closed behind the answer. -/
theorem closed {q p : Work Unit} {path : Str} (hq : q w =
    (p >>= fun _ => Work.fclose w.server.kernel.unusedFd) (w.opened path))
    (hp : Gives p (w.opened path) answer) : Gives q w answer := by
  cases answer with
  | none =>
    obtain ⟨u, w', hrun⟩ := hp
    refine ⟨u, w', ?_⟩
    rw [hq, Prog.bind_run, hrun]
  | some bytes =>
    obtain ⟨w', hrun, hpassed⟩ := hp
    refine ⟨_, ?_, hpassed.closed⟩
    rw [hq, Prog.bind_ok hrun]
    rfl

/-- A round that goes around, and what the rounds behind it give. -/
theorem round {β : Type} {l : Loop World Thrown Undefined β Unit} {b b' : β}
    (hbody : l.body b w = (.ok (.inl b'), w₁)) (hpassed : Passed w w₁ bytes)
    (hrest : Gives (l.run b') w₁ answer) : Gives (l.run b) w (answer.map (bytes ++ ·)) := by
  rw [Loop.run_eq]
  apply after hbody hpassed
  exact hrest

end Gives

/-- The text is put into a buffer and sent. -/
theorem fill_gives {size : ℕ} {text : Str} {sender : Sender} {g : Bool → Work Unit}
    (hsend : ∀ n, env.send n = .sent) (hg : ∀ w, Gives (g true) w (some [])) (w : World) :
    Gives (fill size text >>= fun buf => Work.send env sender buf >>= g) w
      (if text.length < size then some text else none) := by
  split_ifs with hroom
  · have hfill : fill size text w = (.ok text, w) := by
      rw [fill, if_pos hroom]
      rfl
    have hsends : Gives (Work.send env sender text >>= g) w (some text) := by
      have hsent := Passed.record w (.send sender text .sent)
      have h := Gives.after (send_run hsend sender text w) hsent (hg _)
      simpa [transmits] using h
    apply Gives.after_quiet hfill (.refl w)
    exact hsends
  · have hfill : fill size text w = (.undefined .outOfBounds, w) := by
      rw [fill, if_neg hroom]
      rfl
    refine ⟨.outOfBounds, w, ?_⟩
    rw [Prog.bind_run, hfill]

theorem sendNotFound_gives (hsend : ∀ n, env.send n = .sent) (w : World) :
    Gives (sendNotFound env) w (some notFoundResponse) := by
  have hroom : notFoundResponse.length < 1024 := by decide +kernel
  have h : Gives (sendNotFound env) w
      (if notFoundResponse.length < 1024 then some notFoundResponse else none) :=
    fill_gives hsend Gives.pure w
  rwa [if_pos hroom] at h

theorem sendForBidden_gives (hsend : ∀ n, env.send n = .sent) (w : World) :
    Gives (sendForBidden env) w (some notFoundResponse) := by
  have hroom : notFoundResponse.length < 1024 := by decide +kernel
  have h : Gives (sendForBidden env) w
      (if notFoundResponse.length < 1024 then some notFoundResponse else none) :=
    fill_gives hsend Gives.pure w
  rwa [if_pos hroom] at h

theorem sendMemoryPage_gives (hsend : ∀ n, env.send n = .sent) (w : World) :
    Gives (sendMemoryPage env) w
      (if (header_htmlContentType firstLine_200 ++ cString env.memoryIndexPage).length <
          PAGE_BUFFER_SIZE then
        some (header_htmlContentType firstLine_200 ++ cString env.memoryIndexPage) else none) :=
  fill_gives hsend Gives.pure w

/-- In each round of the loop of `serverStaticFile` the buffer holds a NUL for `strlen`. -/
def eachRoundEnds (contents readBuf : Str) : Bool :=
  if contents = [] then true
  else
    let chunk := contents.take PAGE_BUFFER_SIZE
    let readBuf := chunk ++ readBuf.drop chunk.length
    decide (0 ∈ readBuf) && eachRoundEnds (contents.drop PAGE_BUFFER_SIZE) readBuf
termination_by contents.length
decreasing_by
  next hne =>
    have hpos := List.length_pos_of_ne_nil hne
    have hsize : 0 < PAGE_BUFFER_SIZE := by decide
    rw [List.length_drop]
    omega

/-- What `serverStaticFile` sends of a file, if it comes to the end of it. -/
def fileOutput (env : Env) (d : HttpData) (contents : Str) : Option Str :=
  if d.urlResourceType = str "html" ∨
      eachRoundEnds contents ((List.range PAGE_BUFFER_SIZE).map env.readBufMemory) then
    some (fileRounds env d contents).flatten
  else none

theorem serverStaticFileLoop_gives (hsend : ∀ n, env.send n = .sent) (p : Str × Str) (w : World) :
    Gives ((serverStaticFileLoop env).run p) w
      (if eachRoundEnds p.1 p.2 then some (staticRounds p.1 p.2).flatten else none) := by
  induction p, w using (serverStaticFileLoop env).run_induction with
  | step p w ih =>
    obtain ⟨contents, readBuf⟩ := p
    by_cases hempty : contents = []
    · subst hempty
      rw [eachRoundEnds, if_pos rfl, staticRounds_nil]
      exact ⟨w, loop_empty readBuf w, .refl w⟩
    have hchunk : contents.take PAGE_BUFFER_SIZE ≠ [] := by
      rw [Ne, List.take_eq_nil_iff, not_or]
      exact ⟨by decide, hempty⟩
    rw [eachRoundEnds, if_neg hempty, staticRounds, if_neg hempty]
    obtain ⟨buf, hbuf⟩ : ∃ buf, buf = contents.take PAGE_BUFFER_SIZE ++
      readBuf.drop (contents.take PAGE_BUFFER_SIZE).length := ⟨_, rfl⟩
    simp only [← hbuf]
    by_cases hzero : 0 ∈ buf
    · have hsends := send_run hsend .serverStaticFile (cString buf) w
      have hbody : (serverStaticFileLoop env).body (contents, readBuf) w =
          (.ok (.inl (contents.drop PAGE_BUFFER_SIZE, buf)),
            w.record (.send .serverStaticFile (cString buf) .sent)) := by
        simp only [serverStaticFileLoop, serverStaticFileBody, ← hbuf]
        rw [if_neg hchunk, if_pos hzero, Prog.bind_ok hsends]
        rfl
      have hrest := ih _ _ hbody
      have hround := Gives.round hbody
        (Passed.record w (.send .serverStaticFile (cString buf) .sent)) hrest
      simp only [hzero, decide_true, Bool.true_and, if_true, List.flatten_cons]
      rw [apply_ite (Option.map _)] at hround
      exact hround
    · have hbody : (serverStaticFileLoop env).body (contents, readBuf) w =
          (.undefined .outOfBounds, w) := by
        simp only [serverStaticFileLoop, serverStaticFileBody, ← hbuf]
        rw [if_neg hchunk, if_neg hzero]
        rfl
      simp only [hzero, decide_false, Bool.false_and]
      refine ⟨.outOfBounds, w, ?_⟩
      rw [Loop.run_eq, Prog.bind_run, hbody]

theorem serverStaticFile_gives (hsend : ∀ n, env.send n = .sent)
    (hfopen : ∀ n, env.fopen n d.url = file) (w : World) :
    Gives (serverStaticFile env d) w (file.bind (fileOutput env d)) := by
  cases file with
  | none =>
    have hclosed : Work.fopen env d.url w = (.ok none, w.record (.fopen d.url false)) := by
      simp only [Work.fopen, hfopen]
    refine ⟨.nullPointer, w.record (.fopen d.url false), ?_⟩
    rw [serverStaticFile, Prog.bind_ok hclosed]
    rfl
  | some contents =>
    have hopen : Work.fopen env d.url w =
        (.ok (some (w.server.kernel.unusedFd, contents)), w.opened d.url) := by
      simp only [Work.fopen, hfopen]
      rfl
    rw [Option.bind_some, fileOutput, fileRounds]
    by_cases hhtml : d.urlResourceType = str "html"
    · rw [if_pos (.inl hhtml), if_pos hhtml, List.flatten_singleton]
      generalize hline : cString (fgets PAGE_BUFFER_SIZE contents) = line
      have hsent := Passed.record (w.opened d.url) (.send .serverStaticFile line .sent)
      refine ⟨_, ?_, hsent.closed⟩
      rw [serverStaticFile, Prog.bind_ok hopen]
      simp only [hhtml, ne_eq, not_true, if_false, hline]
      rw [Prog.bind_ok (send_run hsend _ _ _)]
      rfl
    · obtain ⟨readBuf, hbuf⟩ : ∃ readBuf, readBuf =
        (List.range PAGE_BUFFER_SIZE).map env.readBufMemory := ⟨_, rfl⟩
      have hloop := serverStaticFileLoop_gives hsend (contents, readBuf) (w.opened d.url)
      rw [← hbuf]
      simp only [hhtml, false_or, if_false]
      apply Gives.closed _ hloop
      rw [serverStaticFile, Prog.bind_ok hopen]
      simp only [hhtml, ne_eq, not_false_iff, if_true, ← hbuf]

/-- What `sendStaticFileToClient` sends. -/
def resourceOutput (env : Env) (d : HttpData) (file : Option Str) : StatResult → Option Str
  | .found fileSize => (file.bind (fileOutput env d)).map (staticFileHeader d fileSize ++ ·)
  | .denied | .missing => some notFoundResponse

/-- What the functions of `Responser` send for a `GET`. -/
def getOutput (env : Env) (d : HttpData) (file : Option Str) (result : StatResult) : Option Str :=
  if d.urlResourceType = str "cgi" then some notFoundResponse
  else if d.urlResourceType = str "memory" then
    let page := header_htmlContentType firstLine_200 ++ cString env.memoryIndexPage
    if page.length < PAGE_BUFFER_SIZE then some page else none
  else resourceOutput env d file result

/-- What a `GET` is answered with, and whether the connection is released behind it. -/
def getAnswer (env : Env) (d : HttpData) (file : Option Str) (result : StatResult) :
    Option (Str × Bool) :=
  if (result = .denied ∨ result = .missing) ∧ d.urlResourceType ≠ str "memory" then
    some (notFoundResponse, false)
  else (getOutput env d file result).map fun bytes => (bytes, true)

theorem sendStaticFileToClient_gives (hsend : ∀ n, env.send n = .sent)
    (hstat : ∀ n, env.stat n d.url = result) (hfopen : ∀ n, env.fopen n d.url = file) (w : World) :
    Gives (sendStaticFileToClient env d) w (resourceOutput env d file result) := by
  have hasked : Work.stat env d.url w = (.ok result, w.record (.stat d.url result)) := by
    rw [Work.stat, hstat]
  apply Gives.after_quiet hasked (Passed.record w _)
  cases result with
  | denied => exact sendForBidden_gives hsend _
  | missing => exact sendNotFound_gives hsend _
  | found fileSize =>
    obtain ⟨asked, hasked⟩ : ∃ asked, asked = w.record (.stat d.url (.found fileSize)) := ⟨_, rfl⟩
    have hfill : fill PAGE_BUFFER_SIZE (staticFileHeader d fileSize) asked =
        (.ok (staticFileHeader d fileSize), asked) := by
      rw [fill, if_pos (length_staticFileHeader d fileSize)]
      rfl
    have hsent := Passed.record asked
      (.send .sendStaticFileToClient (staticFileHeader d fileSize) .sent)
    rw [← hasked]
    apply Gives.after_quiet hfill (.refl asked)
    apply Gives.after (send_run hsend _ _ asked) hsent
    exact serverStaticFile_gives hsend hfopen _

theorem respond_gives (hsend : ∀ n, env.send n = .sent) (hget : d.requestMethod = .GET)
    (hparams : d.getParamCount = 0) (hstat : ∀ n, env.stat n d.url = result)
    (hfopen : ∀ n, env.fopen n d.url = file) (w : World) :
    Gives (respond env d) w (getOutput env d file result) := by
  simp only [respond, hget, getOutput]
  split_ifs with hcgi hmemory hroom
  · rw [executeCGI, if_pos hparams]
    exact sendForBidden_gives hsend w
  · have h := sendMemoryPage_gives hsend w
    rwa [if_pos hroom] at h
  · have h := sendMemoryPage_gives hsend w
    rwa [if_neg hroom] at h
  · exact sendStaticFileToClient_gives hsend hstat hfopen w

/-- The program sends the answer, and then the connection is released or left. -/
def Answers (p : Work Unit) (keepConnection : Bool) (fd : ℤ) (w : World) :
    Option (Str × Bool) → Prop
  | none => ∃ u w', p w = (.undefined u, w')
  | some (bytes, released) => ∃ w₁, Passed w w₁ bytes ∧
      p w = if released then release keepConnection fd w₁ else (.ok (), w₁)

theorem fileExist_run (hstat : ∀ n, env.stat n d.url = result) (w : World) :
    fileExist env d.url w =
      (.ok (decide (¬ (result = .denied ∨ result = .missing))), w.record (.stat d.url result)) := by
  have hasked : Work.stat env d.url w = (.ok result, w.record (.stat d.url result)) := by
    rw [Work.stat, hstat]
  rw [fileExist, Prog.bind_ok hasked]
  cases result <;> rfl

/-- A response behind which the connection is released. -/
theorem Answers.released {p : Work Unit} {keepConnection : Bool} {output : Option Str}
    (hp : Gives p w output) : Answers (p >>= fun _ => release keepConnection fd) keepConnection fd w
      (output.map fun bytes => (bytes, true)) := by
  cases output with
  | none =>
    obtain ⟨u, w', hrun⟩ := hp
    refine ⟨u, w', ?_⟩
    rw [Prog.bind_run, hrun]
  | some bytes =>
    obtain ⟨w₁, hrun, hpassed⟩ := hp
    refine ⟨w₁, hpassed, ?_⟩
    rw [Prog.bind_ok hrun, if_pos rfl]

/-- The calls before it send nothing. -/
theorem Answers.after_quiet {α : Type} {p : Work α} {a : α} {g : α → Work Unit}
    {keepConnection : Bool} {answer : Option (Str × Bool)} (hp : p w = (.ok a, w₁))
    (hpassed : Passed w w₁ []) (hg : Answers (g a) keepConnection fd w₁ answer) :
    Answers (p >>= g) keepConnection fd w answer := by
  cases answer with
  | none =>
    obtain ⟨u, w', hrun⟩ := hg
    exact ⟨u, w', (Prog.bind_ok hp).trans hrun⟩
  | some answer =>
    obtain ⟨w₂, hafter, hrun⟩ := hg
    exact ⟨w₂, hpassed.trans hafter, (Prog.bind_ok hp).trans hrun⟩

theorem answer_get (hsend : ∀ n, env.send n = .sent) (hget : d.requestMethod = .GET)
    (hbad : d.badRequest = false) (hparams : d.getParamCount = 0)
    (hstat : ∀ n, env.stat n d.url = result) (hfopen : ∀ n, env.fopen n d.url = file)
    (fd : ℤ) (w : World) :
    Answers (answer env d fd) d.keepConnection fd w (getAnswer env d file result) := by
  rw [answer_eq, if_neg (by simp [hbad]), if_neg (by simp [hget])]
  apply Answers.after_quiet (fileExist_run hstat w) (Passed.record w _)
  rw [answerFound, getAnswer]
  simp only [decide_not, Bool.not_eq_true', decide_eq_true_eq, Bool.not_eq_false]
  split_ifs with hmissing
  · obtain ⟨w₁, hrun, hpassed⟩ := sendNotFound_gives hsend (w.record (.stat d.url result))
    exact ⟨w₁, hpassed, hrun⟩
  · exact Answers.released (respond_gives hsend hget hparams hstat hfopen _)

/-- The release comes back. -/
theorem release_run (keepConnection : Bool) (fd : ℤ) (w : World) :
    ∃ w', release keepConnection fd w = (.ok (), w') := by
  cases keepConnection <;> exact ⟨_, rfl⟩

namespace RequestHead

variable (q : RequestHead) (env : Env) (fd : ℤ)

theorem clientParamData_object : (q.object env fd).clientParamData = none := by
  rw [object, HeaderBlock.object, HttpData.clientParamData_foldl]
  exact HttpData.clientParamData_setRequestMethod _ _

theorem getParamCount_object : (q.object env fd).getParamCount = 0 := by
  simp only [HttpData.getParamCount, q.clientParamData_object]

theorem badRequest_object : (q.object env fd).badRequest = false := by
  have hkeeps : ∀ line d, HttpData.badRequest (HttpData.takeHeader d line) = d.badRequest := by
    intro line d
    simp only [HttpData.takeHeader, HttpData.setHeader, apply_ite HttpData.badRequest, ite_self]
  have hgoes : ¬ ((HttpData.new env fd).setRequestMethod (words (cString q.first))).Refused := by
    rw [q.words_first, HttpData.refused_setRequestMethod rfl, not_not]
    exact q.known
  rw [object, HeaderBlock.object, HttpData.foldl_takeHeader_keeps hkeeps]
  exact eq_false_of_ne_true fun hbad => hgoes (.inl hbad)

end RequestHead

/-- The call takes at least the head from the stream, sends the answer and then releases the
connection or leaves it. -/
def Handles (env : Env) (fd : ℤ) (w : World) (rest : Str) (keepConnection : Bool) :
    Option (Str × Bool) → Prop
  | none => ∃ u w', httpserver env fd w = (.undefined u, w')
  | some (bytes, released) => ∃ w₁, Sent w w₁ bytes ∧ delivered w₁.recvs <:+ rest ∧
      w₁.server.timer = w.server.timer ∧
      w₁.server.kernel.openFds = w.server.kernel.openFds ∧
      httpserver env fd w = if released then release keepConnection fd w₁ else (.ok (), w₁)

/-- Whatever the cutting of the stream: as long as `send` takes whole buffers and the file system
stands still, a request that begins with the head of a `GET` is answered with the function of the
head and the file, and where that has no value the call runs into what is not defined. -/
theorem get_answered (q : RequestHead) (env : Env) (fd : ℤ) (w : World)
    (hstream : delivered w.recvs = q.bytes ++ rest) (hget : q.method = str "GET")
    (hsend : ∀ n, env.send n = .sent) (hstat : ∀ n, env.stat n (q.object env fd).url = result)
    (hfopen : ∀ n, env.fopen n (q.object env fd).url = file) :
    Handles env fd w rest (q.object env fd).keepConnection
      (getAnswer env (q.object env fd) file result) := by
  obtain ⟨d, w₁, hparse, hobject, hrest⟩ := HttpData.parseData_head env fd q hstream
  obtain ⟨unread, prev, rfl⟩ : ∃ unread prev, d = (q.object env fd).reading unread prev :=
    ⟨_, _, hobject⟩
  rw [HttpData.afterHead_get q hget] at hparse
  have hsilent : Sent w w₁ [] := by
    have hcalls : ParserCalls env
        (Prog.LoggedSince World.calls (fun c => transmits c = []) w) :=
      logged_parserCalls (fun _ => rfl) (fun _ => rfl) fun _ _ => rfl
    exact Hands.of_preserves (HttpData.parseData_keeps hcalls _) hparse
  have hserver : w₁.server = w.server :=
    (HttpData.parseData_keeps ServerProcess.server_parserCalls _).of_eq rfl hparse
  have hsuffix : delivered w₁.recvs <:+ rest := ⟨unread, hrest⟩
  have hanswer : Answers (answer env ((q.object env fd).reading unread prev) fd)
      (q.object env fd).keepConnection fd w₁ (getAnswer env (q.object env fd) file result) :=
    answer_get (d := (q.object env fd).reading unread prev) hsend
      (RequestHead.requestMethod_object hget env fd) (q.badRequest_object env fd)
      (q.getParamCount_object env fd) hstat hfopen fd w₁
  have hcall := httpserver_parsed hparse
  revert hanswer
  cases getAnswer env (q.object env fd) file result with
  | none =>
    rintro ⟨u, w', hrun⟩
    refine ⟨u, w', ?_⟩
    rw [hcall, Prog.handle, hrun]
  | some answer =>
    rintro ⟨w₂, hpassed, hrun⟩
    refine ⟨w₂, hsilent.trans hpassed.sent, ?_, ?_, ?_, ?_⟩
    · rw [hpassed.recvs]
      exact hsuffix
    · rw [hpassed.timer, hserver]
    · rw [hpassed.openFds, hserver]
    · have hreturns : ∃ w', (if answer.2 then release (q.object env fd).keepConnection fd w₂
          else (.ok (), w₂)) = ((.ok () : Outcome Thrown Undefined Unit), w') := by
        split_ifs
        · exact release_run _ fd w₂
        · exact ⟨w₂, rfl⟩
      obtain ⟨w', hw'⟩ := hreturns
      rw [hw'] at hrun ⊢
      rw [hcall, Prog.handle, hrun]

/-- A page of one line comes behind its header, and then the connection is closed. -/
theorem get_answered_page : ∃ w₁,
    Sent (firstClient 5 [.data HttpData.plainHeadChunk]) w₁
      (staticFileHeader (HttpData.plainHead.object calmEnv 5) 14 ++ str "<html></html>\n") ∧
    httpserver (fileEnv (str "<html></html>\n")) 5
      (firstClient 5 [.data HttpData.plainHeadChunk]) = Work.close 5 w₁ := by
  have hvalue : getAnswer (fileEnv (str "<html></html>\n"))
      (HttpData.plainHead.object (fileEnv (str "<html></html>\n")) 5)
      (some (str "<html></html>\n")) (.found 14) =
      some (staticFileHeader (HttpData.plainHead.object calmEnv 5) 14 ++ str "<html></html>\n",
        true) := by decide +kernel
  have hkeep : (HttpData.plainHead.object (fileEnv (str "<html></html>\n")) 5).keepConnection =
      false := by decide +kernel
  have hstream : delivered (firstClient 5 [.data HttpData.plainHeadChunk]).recvs =
      HttpData.plainHead.bytes ++ [] := rfl
  have h := get_answered HttpData.plainHead (fileEnv (str "<html></html>\n")) 5 _ hstream rfl
    (fun _ => rfl) (fun _ => rfl) (fun _ => rfl)
  rw [hkeep] at h
  have hlength : (str "<html></html>\n").length = 14 := by decide +kernel
  rw [hlength, hvalue] at h
  obtain ⟨w₁, hsent, -, -, -, hrun⟩ := h
  exact ⟨w₁, hsent, hrun⟩

end LxcHttpServer
