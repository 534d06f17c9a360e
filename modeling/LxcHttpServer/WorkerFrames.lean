import LxcHttpServer.HttpServer

/-!
# What parsing and answering leave alone

An invariant of the world that the calls keep is kept by the functions that make them.
Until a worker releases its descriptor it does not touch the timer and does not close
the descriptor: the pipes and files it opens get numbers that are not in use, and it
closes no others.
-/
namespace LxcHttpServer
open EffectPrograms Strings

/-- The calls of the parser keep an invariant. -/
structure ParserCalls (env : Env) (I : World → Prop) : Prop where
  recv : Prog.Preserves I Work.recv
  stoi : ∀ text, Prog.Preserves I (Work.stoi text)
  newArray : ∀ size, Prog.Preserves I (Work.newArray env size)

/-- The calls of the responses keep an invariant as long as the paths they hand over are of
one kind and the descriptors they close of another; those they opened are. -/
structure AnswerCalls (env : Env) (I : World → Prop) (Path : Str → Prop) (Elsewhere : ℤ → Prop) :
    Prop where
  send : ∀ sender bytes, Prog.Preserves I (Work.send env sender bytes)
  stat : ∀ path, Path path → Prog.Preserves I (Work.stat env path)
  fork : Prog.Preserves I (Work.fork env)
  write : ∀ fd bytes, Prog.Preserves I (Work.write env fd bytes)
  waitpid : Prog.Preserves I Work.waitpid
  read : ∀ count, Prog.Preserves I (Work.read count)
  pipe : ∀ which, Prog.Preserves I (Work.pipe env which)
  pipe_ends : ∀ which w w' ends, I w → Work.pipe env which w = (.ok (some ends), w') →
    Elsewhere ends.1 ∧ Elsewhere ends.2
  fopen : ∀ path, Path path → Prog.Preserves I (Work.fopen env path)
  fopen_fd : ∀ path w w' file, I w → Work.fopen env path w = (.ok (some file), w') →
    Elsewhere file.1
  close : ∀ fd, Elsewhere fd → Prog.Preserves I (Work.close fd)
  fclose : ∀ fd, Elsewhere fd → Prog.Preserves I (Work.fclose fd)

variable {env : Env} {I : World → Prop} {Path : Str → Prop} {Elsewhere : ℤ → Prop}

namespace HttpData

theorem readRawDataFromSocket_keeps (h : ParserCalls env I) (d : HttpData) :
    Prog.Preserves I (readRawDataFromSocket d) := by
  apply Prog.Preserves.bind h.recv
  intro r
  cases r with
  | data chunk => exact Prog.Preserves.pure _
  | error => exact Prog.Preserves.throw _
  | closed => exact Prog.Preserves.throw _

theorem refill_keeps (h : ParserCalls env I) (d : HttpData) : Prog.Preserves I (refill d) := by
  apply Prog.Preserves.ite
  · exact readRawDataFromSocket_keeps h d
  · exact Prog.Preserves.pure d

theorem parseOneLineBody_keeps (h : ParserCalls env I) (p : Str × HttpData) :
    Prog.Preserves I (parseOneLineBody p) := by
  obtain ⟨line, d⟩ := p
  rw [parseOneLineBody]
  cases d.unread with
  | nil => exact Prog.Preserves.pure _
  | cons c rest =>
    apply Prog.Preserves.ite
    · exact Prog.Preserves.undefined _
    apply Prog.Preserves.ite
    · exact Prog.Preserves.pure _
    apply Prog.Preserves.bind (I := I) (refill_keeps h _)
    intro d
    exact Prog.Preserves.pure _

theorem parseOneLineLoop_keeps (h : ParserCalls env I) (p : Str × HttpData) :
    Prog.Preserves I (parseOneLineLoop.run p) :=
  Prog.Preserves.loop (parseOneLineBody_keeps h) p

theorem parseOneLine_keeps (h : ParserCalls env I) (d : HttpData) :
    Prog.Preserves I (parseOneLine d) := by
  apply Prog.Preserves.bind (I := I) (refill_keeps h d)
  intro d
  apply Prog.Preserves.bind (parseOneLineLoop_keeps h _)
  intro p
  apply Prog.Preserves.ite
  · exact Prog.Preserves.undefined _
  · exact Prog.Preserves.pure _

theorem params_keeps (s : Str) (d : HttpData) :
    Prog.Preserves I (parseStringParamTo_htable_clientParamData s d) := by
  rw [parseStringParamTo_htable_clientParamData]
  split
  · exact Prog.Preserves.undefined _
  · exact Prog.Preserves.pure _

theorem parseUrlDataParamList_keeps (d : HttpData) :
    Prog.Preserves I (parseUrlDataParamList d) := by
  apply Prog.Preserves.ite
  · exact Prog.Preserves.pure _
  · exact params_keeps _ _

theorem parseStartLine_keeps (h : ParserCalls env I) (d : HttpData) :
    Prog.Preserves I (parseStartLine d) := by
  apply Prog.Preserves.bind (parseOneLine_keeps h d)
  rintro ⟨firstLine, d⟩
  simp only
  cases stringSplit firstLine [] (str " ") with
  | error e => exact Prog.Preserves.throw e
  | ok headerInfo =>
    apply Prog.Preserves.ite
    · exact Prog.Preserves.pure _
    cases headerInfo[1]? with
    | none => exact Prog.Preserves.undefined _
    | some target =>
      apply Prog.Preserves.bind (I := I) (parseUrlDataParamList_keeps _)
      intro d
      cases headerInfo[2]? with
      | none => exact Prog.Preserves.undefined _
      | some version => exact Prog.Preserves.pure _

theorem getHeaderLineName_keeps (s : Str) : Prog.Preserves I (getHeaderLineName s) := by
  rw [getHeaderLineName]
  split
  · exact Prog.Preserves.undefined _
  · exact Prog.Preserves.pure _

theorem parseHeaderBody_keeps (h : ParserCalls env I) (d : HttpData) :
    Prog.Preserves I (parseHeaderBody d) := by
  apply Prog.Preserves.bind (parseOneLine_keeps h d)
  intro p
  apply Prog.Preserves.ite
  · exact Prog.Preserves.pure _
  apply Prog.Preserves.bind (I := I) (getHeaderLineName_keeps _)
  intro headName
  exact Prog.Preserves.pure _

theorem parseHeader_keeps (h : ParserCalls env I) (d : HttpData) :
    Prog.Preserves I (parseHeader d) :=
  Prog.Preserves.loop (parseHeaderBody_keeps h) d

theorem numeralContentLength_keeps (h : ParserCalls env I) (d : HttpData) :
    Prog.Preserves I (numeralContentLength d) := by
  rw [numeralContentLength]
  cases d.contentLength with
  | none => exact Prog.Preserves.undefined _
  | some line =>
    simp only
    split
    · exact Prog.Preserves.undefined _
    · exact h.stoi _

theorem parseBodyBody_keeps (h : ParserCalls env I) (contentLength : ℤ) (p : Str × HttpData) :
    Prog.Preserves I (parseBodyBody contentLength p) := by
  obtain ⟨data, d⟩ := p
  rw [parseBodyBody]
  cases d.unread with
  | nil => exact Prog.Preserves.pure _
  | cons c rest =>
    apply Prog.Preserves.ite
    · exact Prog.Preserves.undefined _
    apply Prog.Preserves.ite
    · exact Prog.Preserves.pure _
    apply Prog.Preserves.bind (I := I) (refill_keeps h _)
    intro d
    exact Prog.Preserves.pure _

theorem parseBodyLoop_keeps (h : ParserCalls env I) (contentLength : ℤ) (p : Str × HttpData) :
    Prog.Preserves I ((parseBodyLoop contentLength).run p) :=
  Prog.Preserves.loop (parseBodyBody_keeps h contentLength) p

theorem parseBodyParamData_keeps (h : ParserCalls env I) (d : HttpData) :
    Prog.Preserves I (parseBodyParamData env d) := by
  apply Prog.Preserves.bind (numeralContentLength_keeps h d)
  intro contentLength
  apply Prog.Preserves.ite
  · exact Prog.Preserves.undefined _
  apply Prog.Preserves.bind (h.newArray _)
  intro _
  apply Prog.Preserves.bind (parseBodyLoop_keeps h contentLength _)
  intro p
  apply Prog.Preserves.ite
  · exact Prog.Preserves.undefined _
  · exact params_keeps _ _

theorem parseData_keeps (h : ParserCalls env I) (d : HttpData) :
    Prog.Preserves I (parseData env d) := by
  apply Prog.Preserves.bind (parseStartLine_keeps h d)
  intro d
  apply Prog.Preserves.ite
  · exact Prog.Preserves.pure _
  apply Prog.Preserves.bind (parseHeader_keeps h d)
  intro d
  apply Prog.Preserves.ite
  · exact parseBodyParamData_keeps h d
  · exact Prog.Preserves.pure _

end HttpData

/-! ## The responses -/

theorem fileExist_keeps (h : AnswerCalls env I Path Elsewhere) {path : Str} (hpath : Path path) :
    Prog.Preserves I (fileExist env path) := by
  apply Prog.Preserves.bind (h.stat path hpath)
  intro result
  cases result with
  | found size => exact Prog.Preserves.pure _
  | denied => exact Prog.Preserves.pure _
  | missing => exact Prog.Preserves.pure _

namespace Responser

theorem fill_keeps (size : ℕ) (text : Str) : Prog.Preserves I (fill size text) := by
  apply Prog.Preserves.ite
  · exact Prog.Preserves.pure _
  · exact Prog.Preserves.undefined _

theorem send_keeps (h : AnswerCalls env I Path Elsewhere) {α : Type} {sender : Sender}
    {bytes : Str} {e : Thrown} {f : Work α}
    (hf : Prog.Preserves I f) : Prog.Preserves I (do
      let ret ← Work.send env sender bytes
      if ret then f else Prog.throw e) := by
  apply Prog.Preserves.bind (h.send sender bytes)
  intro ret
  exact hf.ite (Prog.Preserves.throw e)

theorem sendNotFound_keeps (h : AnswerCalls env I Path Elsewhere) :
    Prog.Preserves I (sendNotFound env) := by
  apply Prog.Preserves.bind (I := I) (fill_keeps _ _)
  intro buf
  exact send_keeps h (Prog.Preserves.pure ())

theorem sendForBidden_keeps (h : AnswerCalls env I Path Elsewhere) :
    Prog.Preserves I (sendForBidden env) := by
  apply Prog.Preserves.bind (I := I) (fill_keeps _ _)
  intro buf
  exact send_keeps h (Prog.Preserves.pure ())

theorem sendMemoryPage_keeps (h : AnswerCalls env I Path Elsewhere) :
    Prog.Preserves I (sendMemoryPage env) := by
  apply Prog.Preserves.bind (I := I) (fill_keeps _ _)
  intro buf
  apply Prog.Preserves.bind (h.send _ _)
  intro _
  exact Prog.Preserves.pure ()

theorem serverStaticFileBody_keeps (h : AnswerCalls env I Path Elsewhere) (p : Str × Str) :
    Prog.Preserves I (serverStaticFileBody env p) := by
  obtain ⟨contents, readBuf⟩ := p
  apply Prog.Preserves.ite
  · exact Prog.Preserves.pure _
  apply Prog.Preserves.ite
  · exact send_keeps h (Prog.Preserves.pure _)
  · exact Prog.Preserves.undefined _

theorem serverStaticFileLoop_keeps (h : AnswerCalls env I Path Elsewhere) (p : Str × Str) :
    Prog.Preserves I ((serverStaticFileLoop env).run p) :=
  Prog.Preserves.loop (serverStaticFileBody_keeps h) p

theorem serverStaticFile_keeps (h : AnswerCalls env I Path Elsewhere) {d : HttpData}
    (hpath : Path d.url) : Prog.Preserves I (serverStaticFile env d) := by
  apply Prog.Preserves.bind_of (h.fopen d.url hpath)
    (Q := fun resource => ∀ file, resource = some file → Elsewhere file.1)
  · rintro w resource w' hw hopened file rfl
    exact h.fopen_fd _ _ _ _ hw hopened
  · intro resource hresource
    cases resource with
    | none => exact Prog.Preserves.undefined _
    | some file =>
      have hclose := h.fclose file.1 (hresource file rfl)
      apply Prog.Preserves.ite
      · apply Prog.Preserves.bind (serverStaticFileLoop_keeps h _)
        intro _
        exact hclose
      · exact send_keeps h hclose

theorem sendStaticFileToClient_keeps (h : AnswerCalls env I Path Elsewhere) {d : HttpData}
    (hpath : Path d.url) : Prog.Preserves I (sendStaticFileToClient env d) := by
  apply Prog.Preserves.bind (h.stat d.url hpath)
  intro staticFileState
  cases staticFileState with
  | denied => exact sendForBidden_keeps h
  | missing => exact sendNotFound_keeps h
  | found fileSize =>
    apply Prog.Preserves.bind (I := I) (fill_keeps _ _)
    intro buf
    exact send_keeps h (serverStaticFile_keeps h hpath)

theorem writeParams_keeps (h : AnswerCalls env I Path Elsewhere) (fd : ℤ) (params : List Param) :
    Prog.Preserves I (writeParams env fd params) := by
  induction params with
  | nil => exact Prog.Preserves.pure ()
  | cons param rest ih =>
    apply Prog.Preserves.bind (h.write _ _)
    intro _
    apply Prog.Preserves.bind (h.write _ _)
    intro _
    apply Prog.Preserves.bind (h.write _ _)
    intro _
    apply Prog.Preserves.bind (h.write _ _)
    intro _
    exact ih

theorem readCgiBody_keeps (h : AnswerCalls env I Path Elsewhere) (buf : Str) :
    Prog.Preserves I (readCgiBody buf) := by
  apply Prog.Preserves.ite
  · apply Prog.Preserves.bind (h.read _)
    intro ret
    cases ret with
    | error => exact Prog.Preserves.throw _
    | eof => exact Prog.Preserves.pure _
    | data bytes => exact Prog.Preserves.pure _
  · exact Prog.Preserves.undefined _

theorem readCgiLoop_keeps (h : AnswerCalls env I Path Elsewhere) (buf : Str) :
    Prog.Preserves I (readCgiLoop.run buf) :=
  Prog.Preserves.loop (readCgiBody_keeps h) buf

theorem serveCgi_keeps (h : AnswerCalls env I Path Elsewhere) (params : Params)
    {cgiInput cgiOutput : ℤ × ℤ} (hinput : Elsewhere cgiInput.1) (houtput : Elsewhere cgiOutput.2) :
    Prog.Preserves I (serveCgi env params cgiInput cgiOutput) := by
  apply Prog.Preserves.bind (h.close _ houtput)
  intro _
  apply Prog.Preserves.bind (h.close _ hinput)
  intro _
  apply Prog.Preserves.bind (writeParams_keeps h _ _)
  intro _
  apply Prog.Preserves.bind (readCgiLoop_keeps h _)
  intro buf
  exact send_keeps h h.waitpid

theorem pipe_keeps (h : AnswerCalls env I Path Elsewhere) {which : CgiPipe} {e : Thrown}
    {f : ℤ × ℤ → Work Unit}
    (hf : ∀ ends, Elsewhere ends.1 → Elsewhere ends.2 → Prog.Preserves I (f ends)) :
    Prog.Preserves I (do
      let ends ← Work.pipe env which
      match ends with
      | none => Prog.throw e
      | some ends => f ends) := by
  apply Prog.Preserves.bind_of (h.pipe which)
    (Q := fun result => ∀ ends, result = some ends → Elsewhere ends.1 ∧ Elsewhere ends.2)
  · rintro w result w' hw hcreated ends rfl
    exact h.pipe_ends _ _ _ _ hw hcreated
  · intro result hresult
    cases result with
    | none => exact Prog.Preserves.throw e
    | some ends => exact hf ends (hresult ends rfl).1 (hresult ends rfl).2

theorem executeCGI_keeps (h : AnswerCalls env I Path Elsewhere) (d : HttpData) :
    Prog.Preserves I (executeCGI env d) := by
  apply Prog.Preserves.ite
  · exact sendForBidden_keeps h
  apply pipe_keeps h
  intro cgiInput hinput _
  apply pipe_keeps h
  intro cgiOutput _ houtput
  apply Prog.Preserves.bind h.fork
  intro created
  apply Prog.Preserves.ite
  · exact serveCgi_keeps h _ hinput houtput
  · exact Prog.Preserves.throw _

end Responser

theorem respond_keeps (h : AnswerCalls env I Path Elsewhere) {d : HttpData} (hpath : Path d.url) :
    Prog.Preserves I (respond env d) := by
  rw [respond]
  cases d.requestMethod with
  | UNSUPPORT => exact Prog.Preserves.pure ()
  | GET =>
    apply Prog.Preserves.ite (Responser.executeCGI_keeps h d)
    apply Prog.Preserves.ite (Responser.sendMemoryPage_keeps h)
    exact Responser.sendStaticFileToClient_keeps h hpath
  | POST =>
    apply Prog.Preserves.ite (Responser.executeCGI_keeps h d)
    exact Responser.sendNotFound_keeps h

/-- The calls by which a worker gives up its descriptor keep an invariant. -/
structure ReleaseCalls (I : World → Prop) : Prop where
  addfd : ∀ fd, Prog.Preserves I (Work.addfd fd)
  deleteFd : ∀ fd, Prog.Preserves I (Work.deleteFd fd)
  close : ∀ fd, Prog.Preserves I (Work.close fd)

/-- What `answer` does once it knows whether the resource exists. -/
def answerFound (env : Env) (d : HttpData) (fd : ℤ) (found : Bool) : Work Unit :=
  if ¬ found ∧ d.urlResourceType ≠ str "memory" then Responser.sendNotFound env
  else do
    respond env d
    release d.keepConnection fd

theorem answer_eq (env : Env) (d : HttpData) (fd : ℤ) : answer env d fd =
    if d.badRequest then pure ()
    else if d.requestMethod = .UNSUPPORT then pure ()
    else fileExist env d.url >>= answerFound env d fd := rfl

theorem answerFound_keeps (h : AnswerCalls env I Path Elsewhere) (hrelease : ReleaseCalls I)
    {d : HttpData} (hpath : Path d.url) (fd : ℤ) (found : Bool) :
    Prog.Preserves I (answerFound env d fd found) := by
  apply Prog.Preserves.ite (Responser.sendNotFound_keeps h)
  apply Prog.Preserves.bind (respond_keeps h hpath)
  intro _
  apply Prog.Preserves.ite
  · apply Prog.Preserves.bind (hrelease.addfd fd)
    intro _
    exact Prog.Preserves.pure ()
  · exact hrelease.close fd

theorem answer_keeps (h : AnswerCalls env I Path Elsewhere) (hrelease : ReleaseCalls I)
    {d : HttpData} (hpath : Path d.url) (fd : ℤ) : Prog.Preserves I (answer env d fd) := by
  have hnothing : Prog.Preserves I (pure () : Work Unit) := Prog.Preserves.pure ()
  apply hnothing.ite
  apply hnothing.ite
  apply Prog.Preserves.bind (fileExist_keeps h hpath)
  intro found
  exact answerFound_keeps h hrelease hpath fd found

theorem recover_keeps (hrelease : ReleaseCalls I) (fd : ℤ) (e : Thrown) :
    Prog.Preserves I (recover fd e) := by
  apply Prog.Preserves.ite
  · apply Prog.Preserves.bind (hrelease.deleteFd fd)
    intro _
    exact hrelease.close fd
  · exact Prog.Preserves.throw e

/-- A request that was parsed is answered, within the handler. -/
theorem httpserver_parsed {fd : ℤ} {d : HttpData} {w w₁ : World}
    (h : HttpData.parseData env (.new env fd) w = (.ok d, w₁)) :
    httpserver env fd w = Prog.handle (answer env d fd) (recover fd) w₁ :=
  Prog.handle_congr (Prog.bind_ok h) (recover fd)

theorem handled_answer_keeps (h : AnswerCalls env I Path Elsewhere) (hrelease : ReleaseCalls I)
    {d : HttpData} (hpath : Path d.url) (fd : ℤ) :
    Prog.Preserves I (Prog.handle (answer env d fd) (recover fd)) :=
  (answer_keeps h hrelease hpath fd).handle (recover_keeps hrelease fd)

/-- A timer, and a descriptor with the number of times it was closed. Where it was not
open nothing is said of it. -/
structure Watch where
  timer : Timer
  fd : ℤ
  opened : Prop
  closes : ℕ

namespace Watch

variable {I : Watch} {env : Env} {α : Type}

def Holds (I : Watch) (w : World) : Prop :=
  w.server.timer = I.timer ∧
    (I.opened → I.fd ∈ w.server.kernel.openFds ∧ w.server.kernel.closes.count I.fd = I.closes)

/-- The program leaves the timer and the descriptor as they are. -/
abbrev Spared (I : Watch) (p : Work α) : Prop := Prog.Preserves I.Holds p

theorem of_server {p : Work α} (h : ∀ w, (p w).2.server = w.server) : I.Spared p := by
  intro w hw
  rw [Holds, h w]
  exact hw

theorem recv : I.Spared Work.recv := by
  apply of_server
  intro w
  cases h : w.recvs with
  | nil => simp [Work.recv, h]
  | cons r rs => simp [Work.recv, h]

theorem send (sender : Sender) (bytes : Str) : I.Spared (Work.send env sender bytes) :=
  of_server fun w => by rw [Work.send_snd, World.server_record]

theorem stat (path : Str) : I.Spared (Work.stat env path) := of_server fun _ => rfl

theorem fork : I.Spared (Work.fork env) := of_server fun _ => rfl

theorem write (fd : ℤ) (bytes : Str) : I.Spared (Work.write env fd bytes) :=
  of_server fun w => by rw [Work.write_snd, World.server_record]

theorem waitpid : I.Spared Work.waitpid := of_server fun _ => rfl

theorem read (count : ℕ) : I.Spared (Work.read count) := by
  apply of_server
  intro w
  simp only [Work.read]
  split_ifs
  · rfl
  · cases w.cgiReads with
    | nil => rfl
    | cons r rs =>
      cases r with
      | error => rfl
      | eof => rfl
      | data bytes =>
        simp only
        split_ifs <;> rfl

theorem stoi (text : Str) : I.Spared (Work.stoi text) := by
  apply of_server
  intro w
  cases h : Strings.stoi text with
  | ok n => simp [Work.stoi, h]
  | error e => simp [Work.stoi, h]

theorem newArray (size : ℤ) : I.Spared (Work.newArray env size) := by
  apply of_server
  intro w
  simp only [Work.newArray]
  split_ifs <;> rfl

/-- Opening a descriptor that is not in use. -/
theorem Holds.openFd {w : World} (h : I.Holds w) (c : Call) (fd : ℤ) :
    I.Holds ((w.withKernel (w.server.kernel.openFd fd)).record c) :=
  ⟨h.1, fun hopened => ⟨Finset.mem_insert_of_mem (h.2 hopened).1, (h.2 hopened).2⟩⟩

theorem Holds.unusedFd_ne {w : World} (h : I.Holds w) (hopened : I.opened) :
    w.server.kernel.unusedFd ≠ I.fd := by
  intro heq
  have hmem := (h.2 hopened).1
  rw [← heq] at hmem
  exact w.server.kernel.unusedFd_not_mem hmem

theorem Holds.close {w : World} (h : I.Holds w) (c : Call) {fd : ℤ} (hne : I.opened → fd ≠ I.fd) :
    I.Holds ((w.withKernel (w.server.kernel.close fd)).record c) := by
  refine ⟨h.1, ?_⟩
  intro hopened
  obtain ⟨hmem, hcount⟩ := h.2 hopened
  refine ⟨Finset.mem_erase.mpr ⟨(hne hopened).symm, hmem⟩, ?_⟩
  have hcloses : (w.server.kernel.closes ++ [fd]).count I.fd = I.closes := by
    rw [List.count_append, hcount, List.count_singleton, if_neg (by simpa using hne hopened)]
    rfl
  exact hcloses

theorem pipe (which : CgiPipe) : I.Spared (Work.pipe env which) := by
  intro w hw
  simp only [Work.pipe]
  split_ifs
  · exact (hw.openFd (.pipe which true) w.server.kernel.unusedFd).openFd (.pipe which true) _
  · exact hw

/-- The ends of a new pipe are not the descriptor of the client. -/
theorem pipe_ends {which : CgiPipe} {w w' : World} {ends : ℤ × ℤ} (hw : I.Holds w)
    (h : Work.pipe env which w = (.ok (some ends), w')) (hopened : I.opened) :
    ends.1 ≠ I.fd ∧ ends.2 ≠ I.fd := by
  simp only [Work.pipe] at h
  split_ifs at h
  · cases h
    have hread := hw.openFd (.pipe which true) w.server.kernel.unusedFd
    exact ⟨hw.unusedFd_ne hopened, hread.unusedFd_ne hopened⟩
  · cases h

theorem fopen (path : Str) : I.Spared (Work.fopen env path) := by
  intro w hw
  cases h : env.fopen w.calls.length path with
  | none =>
    simp only [Work.fopen, h]
    exact hw
  | some contents =>
    simp only [Work.fopen, h]
    exact hw.openFd _ _

theorem fopen_fd {path : Str} {w w' : World} {file : ℤ × Str} (hw : I.Holds w)
    (h : Work.fopen env path w = (.ok (some file), w')) (hopened : I.opened) : file.1 ≠ I.fd := by
  cases hfile : env.fopen w.calls.length path with
  | none => simp [Work.fopen, hfile] at h
  | some contents =>
    simp only [Work.fopen, hfile] at h
    cases h
    exact hw.unusedFd_ne hopened

theorem fclose {fd : ℤ} (hne : I.opened → fd ≠ I.fd) : I.Spared (Work.fclose fd) := by
  intro w hw
  exact hw.close _ hne

theorem close {fd : ℤ} (hne : I.opened → fd ≠ I.fd) : I.Spared (Work.close fd) := by
  intro w hw
  exact hw.close _ hne

theorem parserCalls : ParserCalls env I.Holds where
  recv := recv
  stoi := stoi
  newArray := newArray

/-- The responses may hand over any path, and close what is not the descriptor. -/
theorem answerCalls : AnswerCalls env I.Holds (fun _ => True) (fun fd => I.opened → fd ≠ I.fd) where
  send := send
  stat path _ := stat path
  fork := fork
  write := write
  waitpid := waitpid
  read := read
  pipe := pipe
  pipe_ends _ _ _ _ hw h :=
    ⟨fun hopened => (pipe_ends hw h hopened).1, fun hopened => (pipe_ends hw h hopened).2⟩
  fopen path _ := fopen path
  fopen_fd _ _ _ _ hw h := fopen_fd hw h
  close _ := close
  fclose _ := fclose

/-- The watch over a descriptor from a state on. -/
def start (fd : ℤ) (w : World) : Watch where
  timer := w.server.timer
  fd := fd
  opened := fd ∈ w.server.kernel.openFds
  closes := w.server.kernel.closes.count fd

theorem start_holds (fd : ℤ) (w : World) : (Watch.start fd w).Holds w :=
  ⟨rfl, fun hopened => ⟨hopened, rfl⟩⟩

end Watch

variable {d : HttpData} {fd : ℤ} {e : Thrown} {w w' : World}

theorem release_ne_throw (keepConnection : Bool) (fd : ℤ) (e : Thrown) (w w' : World) :
    release keepConnection fd w ≠ (.throw e, w') := by
  intro h
  cases keepConnection with
  | false => cases h
  | true => cases h

/-- What the block throws it throws before it releases the descriptor. -/
theorem answer_throw (hkeeps : AnswerCalls env I Path Elsewhere)
    (hpath : Path d.url) (hw : I w) (h : answer env d fd w = (.throw e, w')) : I w' := by
  simp only [answer] at h
  split_ifs at h
  · cases h
  · cases h
  · rcases Prog.bind_eq_throw h with hexist | ⟨found, w₁, hexist, h⟩
    · exact (fileExist_keeps hkeeps hpath).of_eq hw hexist
    have hw₁ := (fileExist_keeps hkeeps hpath).of_eq hw hexist
    split_ifs at h
    · exact (Responser.sendNotFound_keeps hkeeps).of_eq hw₁ h
    · rcases Prog.bind_eq_throw h with hrespond | ⟨u, w₂, hrespond, h⟩
      · exact (respond_keeps hkeeps hpath).of_eq hw₁ hrespond
      · exact absurd h (release_ne_throw _ _ _ _ _)

theorem serve_throw {I : Watch} (hw : I.Holds w) (h : serve env fd w = (.throw e, w')) :
    I.Holds w' := by
  rcases Prog.bind_eq_throw h with hparse | ⟨d, w₁, hparse, h⟩
  · exact (HttpData.parseData_keeps Watch.parserCalls _).of_eq hw hparse
  · have hw₁ := (HttpData.parseData_keeps Watch.parserCalls _).of_eq hw hparse
    exact answer_throw Watch.answerCalls trivial hw₁ h

end LxcHttpServer
