import LxcHttpServer.TimerExpiry
import LxcHttpServer.WorkerFrames

/-!
# Where the exceptions of a request come from

A table says which results of which calls raise an exception. The parser and the
responses throw what the last of their calls raised and nothing else, so what escapes
from `httpserver` can be read off the calls that were made.
-/
namespace LxcHttpServer
open EffectPrograms Strings

/-- The exception that follows a call with the given result. -/
def raises : Call → Option Thrown
  | .recv .error => some (.runtimeError "recv error!\n")
  | .recv .closed => some .socketClosed
  | .stoi text =>
    match stoi text with
    | .error e => some e
    | .ok _ => none
  | .newArray size allocated =>
    if size < 0 then some .badArrayNewLength
    else if allocated then none
    else some .badAlloc
  | .send .sendMemoryPage _ _ => none
  | .send .sendForBidden _ .failed => some (.runtimeError "send bidden page to client error!\n")
  | .send _ _ .failed => some .socketClosed
  | .send sender _ .broken => if sender.noSignal then some .socketClosed else none
  | .pipe .cgiInput false => some (.runtimeError "cgi_input pipe create failed\n ")
  | .pipe .cgiOutput false => some (.runtimeError "cgi_output pipe create failed\n")
  | .fork false => some (.runtimeError "fork CGI process error\n")
  | .read .error => some (.runtimeError "read() failed")
  | _ => none

/-- The exceptions of the program are those its calls raise. -/
abbrev Accounted {α : Type} (p : Work α) : Prop := Prog.Accounts World.calls raises p

namespace Work

variable {env : Env} {α : Type}

theorem recv_records : Prog.Records World.calls Call.recv recv := by
  intro w
  cases h : w.recvs with
  | nil => exact .inr ⟨w, by simp [recv, h], rfl⟩
  | cons r rs => exact .inl ⟨r, { w with recvs := rs }.record (.recv r), by simp [recv, h], rfl⟩

/-- What holds of the call whatever it comes to is kept, even when it ends the process. -/
theorem send_logs {P : Call → Prop} {w₀ : World} (sender : Sender) (bytes : Str)
    (h : ∀ result, P (.send sender bytes result)) :
    Prog.Preserves (Prog.LoggedSince World.calls P w₀) (send env sender bytes) :=
  Prog.Preserves.of_call fun w => ⟨_, by rw [send_snd, World.calls_record], h _⟩

theorem write_logs {P : Call → Prop} {w₀ : World} (fd : ℤ) (bytes : Str)
    (h : ∀ result, P (.write fd bytes result)) :
    Prog.Preserves (Prog.LoggedSince World.calls P w₀) (write env fd bytes) :=
  Prog.Preserves.of_call fun w => ⟨_, by rw [write_snd, World.calls_record], h _⟩

theorem stat_records (path : Str) : Prog.Records World.calls (Call.stat path) (stat env path) :=
  fun _ => .inl ⟨_, _, rfl, rfl⟩

theorem fork_records : Prog.Records World.calls Call.fork (fork env) :=
  fun _ => .inl ⟨_, _, rfl, rfl⟩

theorem waitpid_records : Prog.Records World.calls (fun _ => Call.waitpid) waitpid :=
  fun _ => .inl ⟨_, _, rfl, rfl⟩

theorem fclose_records (fd : ℤ) : Prog.Records World.calls (fun _ => Call.fclose fd) (fclose fd) :=
  fun _ => .inl ⟨_, _, rfl, rfl⟩

theorem close_records (fd : ℤ) : Prog.Records World.calls (fun _ => Call.close fd) (close fd) :=
  fun _ => .inl ⟨_, _, rfl, rfl⟩

theorem addfd_records (fd : ℤ) : Prog.Records World.calls (Call.addfd fd) (addfd fd) :=
  fun _ => .inl ⟨_, _, rfl, rfl⟩

theorem pipe_records (which : CgiPipe) : Prog.Records World.calls
    (fun ends => Call.pipe which ends.isSome) (pipe env which) := by
  intro w
  left
  simp only [pipe]
  split_ifs
  · exact ⟨_, _, rfl, rfl⟩
  · exact ⟨_, _, rfl, rfl⟩

theorem fopen_records (path : Str) : Prog.Records World.calls
    (fun file => Call.fopen path file.isSome) (fopen env path) := by
  intro w
  left
  cases h : env.fopen w.calls.length path with
  | none => exact ⟨none, w.record (.fopen path false), by simp [fopen, h], rfl⟩
  | some contents =>
    refine ⟨some (w.server.kernel.unusedFd, contents), _, by simp [fopen, h]; rfl, rfl⟩

theorem read_records (count : ℕ) : Prog.Records World.calls Call.read (read count) := by
  intro w
  simp only [read]
  split_ifs
  · exact .inl ⟨_, _, rfl, rfl⟩
  · cases w.cgiReads with
    | nil => exact .inr ⟨w, rfl, rfl⟩
    | cons r rs =>
      cases r with
      | error => exact .inl ⟨_, _, rfl, rfl⟩
      | eof => exact .inl ⟨_, _, rfl, rfl⟩
      | data bytes =>
        simp only
        split_ifs
        · exact .inl ⟨_, _, rfl, rfl⟩
        · exact .inl ⟨_, _, rfl, rfl⟩
        · exact .inl ⟨_, _, rfl, rfl⟩

theorem stoi_accounted (text : Str) : Accounted (stoi text) := by
  apply Prog.Accounts.of_call
  intro w
  refine ⟨.stoi text, ?_⟩
  cases h : Strings.stoi text with
  | ok n => simp [stoi, raises, h]
  | error e => simp [stoi, raises, h]

theorem write_accounted (fd : ℤ) (bytes : Str) : Accounted (write env fd bytes) := by
  apply Prog.Accounts.of_call
  intro w
  refine ⟨.write fd bytes (env.write w.calls.length), by rw [write_snd, World.calls_record], ?_⟩
  simp only [write]
  split <;> rfl

theorem newArray_accounted (size : ℤ) : Accounted (newArray env size) := by
  apply Prog.Accounts.of_call
  intro w
  refine ⟨.newArray size (env.newArray w.calls.length), ?_⟩
  simp only [newArray, raises]
  split_ifs
  · exact ⟨rfl, rfl⟩
  · exact ⟨rfl, rfl⟩
  · exact ⟨rfl, rfl⟩

end Work

namespace HttpData

theorem readRawDataFromSocket_accounted (d : HttpData) : Accounted (readRawDataFromSocket d) := by
  apply Prog.Accounts.bind_records Work.recv_records
  · intro r hr
    cases r with
    | data chunk => exact Prog.Accounts.pure _
    | error => cases hr
    | closed => cases hr
  · intro r e hr
    cases r with
    | data chunk => cases hr
    | error =>
      cases hr
      rfl
    | closed =>
      cases hr
      rfl

theorem refill_accounted (d : HttpData) : Accounted (refill d) := by
  apply Prog.Accounts.ite
  · exact readRawDataFromSocket_accounted d
  · exact Prog.Accounts.pure d

theorem parseOneLineBody_accounted (p : Str × HttpData) : Accounted (parseOneLineBody p) := by
  obtain ⟨line, d⟩ := p
  rw [parseOneLineBody]
  cases d.unread with
  | nil => exact Prog.Accounts.pure _
  | cons c rest =>
    apply Prog.Accounts.ite
    · exact Prog.Accounts.undefined _
    apply Prog.Accounts.ite
    · exact Prog.Accounts.pure _
    apply Prog.Accounts.bind (refill_accounted _)
    intro d
    exact Prog.Accounts.pure _

theorem parseOneLine_accounted (d : HttpData) : Accounted (parseOneLine d) := by
  apply Prog.Accounts.bind (refill_accounted d)
  intro d
  apply Prog.Accounts.bind (Prog.Accounts.loop parseOneLineBody_accounted _)
  intro p
  apply Prog.Accounts.ite
  · exact Prog.Accounts.undefined _
  · exact Prog.Accounts.pure _

theorem params_accounted (s : Str) (d : HttpData) :
    Accounted (parseStringParamTo_htable_clientParamData s d) := by
  rw [parseStringParamTo_htable_clientParamData]
  split
  · exact Prog.Accounts.undefined _
  · exact Prog.Accounts.pure _

theorem parseUrlDataParamList_accounted (d : HttpData) : Accounted (parseUrlDataParamList d) := by
  apply Prog.Accounts.ite
  · exact Prog.Accounts.pure _
  · exact params_accounted _ _

theorem parseStartLine_accounted (d : HttpData) : Accounted (parseStartLine d) := by
  apply Prog.Accounts.bind (parseOneLine_accounted d)
  rintro ⟨firstLine, d⟩
  -- `stringSplit` does not throw
  obtain ⟨headerInfo, hsplit⟩ := stringSplit_eq_ok firstLine [] (str " ")
  simp only [hsplit]
  apply Prog.Accounts.ite
  · exact Prog.Accounts.pure _
  cases headerInfo[1]? with
  | none => exact Prog.Accounts.undefined _
  | some target =>
    apply Prog.Accounts.bind (parseUrlDataParamList_accounted _)
    intro d
    cases headerInfo[2]? with
    | none => exact Prog.Accounts.undefined _
    | some version => exact Prog.Accounts.pure _

theorem getHeaderLineName_accounted (s : Str) : Accounted (getHeaderLineName s) := by
  rw [getHeaderLineName]
  split
  · exact Prog.Accounts.undefined _
  · exact Prog.Accounts.pure _

theorem parseHeaderBody_accounted (d : HttpData) : Accounted (parseHeaderBody d) := by
  apply Prog.Accounts.bind (parseOneLine_accounted d)
  intro p
  apply Prog.Accounts.ite
  · exact Prog.Accounts.pure _
  apply Prog.Accounts.bind (getHeaderLineName_accounted _)
  intro headName
  exact Prog.Accounts.pure _

theorem parseHeader_accounted (d : HttpData) : Accounted (parseHeader d) :=
  Prog.Accounts.loop parseHeaderBody_accounted d

theorem numeralContentLength_accounted (d : HttpData) : Accounted (numeralContentLength d) := by
  rw [numeralContentLength]
  cases d.contentLength with
  | none => exact Prog.Accounts.undefined _
  | some line =>
    simp only
    split
    · exact Prog.Accounts.undefined _
    · exact Work.stoi_accounted _

theorem parseBodyBody_accounted (contentLength : ℤ) (p : Str × HttpData) :
    Accounted (parseBodyBody contentLength p) := by
  obtain ⟨data, d⟩ := p
  rw [parseBodyBody]
  cases d.unread with
  | nil => exact Prog.Accounts.pure _
  | cons c rest =>
    apply Prog.Accounts.ite
    · exact Prog.Accounts.undefined _
    apply Prog.Accounts.ite
    · exact Prog.Accounts.pure _
    apply Prog.Accounts.bind (refill_accounted _)
    intro d
    exact Prog.Accounts.pure _

theorem parseBodyParamData_accounted (env : Env) (d : HttpData) :
    Accounted (parseBodyParamData env d) := by
  apply Prog.Accounts.bind (numeralContentLength_accounted d)
  intro contentLength
  apply Prog.Accounts.ite
  · exact Prog.Accounts.undefined _
  apply Prog.Accounts.bind (Work.newArray_accounted _)
  intro _
  apply Prog.Accounts.bind (Prog.Accounts.loop (parseBodyBody_accounted contentLength) _)
  intro p
  apply Prog.Accounts.ite
  · exact Prog.Accounts.undefined _
  · exact params_accounted _ _

theorem parseData_accounted (env : Env) (d : HttpData) : Accounted (parseData env d) := by
  apply Prog.Accounts.bind (parseStartLine_accounted d)
  intro d
  apply Prog.Accounts.ite
  · exact Prog.Accounts.pure _
  apply Prog.Accounts.bind (parseHeader_accounted d)
  intro d
  apply Prog.Accounts.ite
  · exact parseBodyParamData_accounted env d
  · exact Prog.Accounts.pure _

end HttpData

/-! ## The responses -/

namespace Responser

variable {env : Env}

/-- A `send` whose failure is thrown. -/
theorem send_accounted {α : Type} {sender : Sender} {bytes : Str} {e : Thrown} {f : Work α}
    (hraises : ∀ result, raises (.send sender bytes result) =
      if result.goesOn ∨ (result = .broken ∧ ¬ sender.noSignal) then none else some e)
    (hf : Accounted f) :
    Accounted (do
      let ret ← Work.send env sender bytes
      if ret then f else Prog.throw e) := by
  intro w
  by_cases hkilled : env.send w.calls.length = .broken ∧ ¬ sender.noSignal
  · -- the process ends at the call
    have hrun : Work.send env sender bytes w =
        (.killed, w.record (.send sender bytes (env.send w.calls.length))) := if_pos hkilled
    rw [Prog.bind_run, hrun]
    exact ⟨[_], rfl, by simp [hraises, hkilled]⟩
  · have hrun : Work.send env sender bytes w = (.ok (env.send w.calls.length).goesOn,
        w.record (.send sender bytes (env.send w.calls.length))) := if_neg hkilled
    apply Prog.Accounts.bind_at hrun rfl
    rw [hraises]
    by_cases hgoes : (env.send w.calls.length).goesOn = true
    · rw [if_pos (.inl hgoes), if_pos hgoes]
      exact .inl ⟨rfl, hf⟩
    · rw [if_neg (not_or.mpr ⟨hgoes, hkilled⟩), if_neg hgoes]
      exact .inr ⟨e, rfl, rfl⟩

theorem fill_accounted (size : ℕ) (text : Str) : Accounted (fill size text) := by
  apply Prog.Accounts.ite
  · exact Prog.Accounts.pure _
  · exact Prog.Accounts.undefined _

theorem sendNotFound_accounted : Accounted (sendNotFound env) := by
  apply Prog.Accounts.bind (fill_accounted _ _)
  intro buf
  exact send_accounted (fun r => by cases r <;> rfl) (Prog.Accounts.pure ())

theorem sendForBidden_accounted : Accounted (sendForBidden env) := by
  apply Prog.Accounts.bind (fill_accounted _ _)
  intro buf
  exact send_accounted (fun r => by cases r <;> rfl) (Prog.Accounts.pure ())

theorem sendMemoryPage_accounted : Accounted (sendMemoryPage env) := by
  apply Prog.Accounts.bind (fill_accounted _ _)
  intro buf
  apply Prog.Accounts.bind
  · apply Prog.Accounts.of_call
    intro w
    refine ⟨_, by rw [Work.send_snd, World.calls_record], ?_⟩
    rw [Work.send]
    split_ifs <;> rfl
  · intro _
    exact Prog.Accounts.pure ()

theorem serverStaticFileBody_accounted (p : Str × Str) :
    Accounted (serverStaticFileBody env p) := by
  obtain ⟨contents, readBuf⟩ := p
  apply Prog.Accounts.ite
  · exact Prog.Accounts.pure _
  apply Prog.Accounts.ite
  · exact send_accounted (fun r => by cases r <;> rfl) (Prog.Accounts.pure _)
  · exact Prog.Accounts.undefined _

theorem serverStaticFile_accounted (d : HttpData) : Accounted (serverStaticFile env d) := by
  apply Prog.Accounts.bind (Prog.Accounts.of_records (Work.fopen_records d.url) fun _ => rfl)
  intro resource
  cases resource with
  | none => exact Prog.Accounts.undefined _
  | some file =>
    have hclose : Accounted (Work.fclose file.1) :=
      Prog.Accounts.of_records (Work.fclose_records file.1) fun _ => rfl
    apply Prog.Accounts.ite
    · apply Prog.Accounts.bind (Prog.Accounts.loop serverStaticFileBody_accounted _)
      intro _
      exact hclose
    · exact send_accounted (fun r => by cases r <;> rfl) hclose

theorem sendStaticFileToClient_accounted (d : HttpData) :
    Accounted (sendStaticFileToClient env d) := by
  apply Prog.Accounts.bind (Prog.Accounts.of_records (Work.stat_records d.url) fun _ => rfl)
  intro staticFileState
  cases staticFileState with
  | denied => exact sendForBidden_accounted
  | missing => exact sendNotFound_accounted
  | found fileSize =>
    apply Prog.Accounts.bind (fill_accounted _ _)
    intro buf
    exact send_accounted (fun r => by cases r <;> rfl) (serverStaticFile_accounted d)

theorem writeParams_accounted (fd : ℤ) (params : List Param) :
    Accounted (writeParams env fd params) := by
  have hwrite : ∀ bytes, Accounted (Work.write env fd bytes) := Work.write_accounted fd
  induction params with
  | nil => exact Prog.Accounts.pure ()
  | cons param rest ih =>
    apply Prog.Accounts.bind (hwrite _)
    intro _
    apply Prog.Accounts.bind (hwrite _)
    intro _
    apply Prog.Accounts.bind (hwrite _)
    intro _
    apply Prog.Accounts.bind (hwrite _)
    intro _
    exact ih

theorem readCgiBody_accounted (buf : Str) : Accounted (readCgiBody buf) := by
  apply Prog.Accounts.ite
  · apply Prog.Accounts.bind_records (Work.read_records _)
    · intro ret hret
      cases ret with
      | error => cases hret
      | eof => exact Prog.Accounts.pure _
      | data bytes => exact Prog.Accounts.pure _
    · intro ret e hret
      cases ret with
      | error =>
        cases hret
        rfl
      | eof => cases hret
      | data bytes => cases hret
  · exact Prog.Accounts.undefined _

theorem serveCgi_accounted (params : Params) (cgiInput cgiOutput : ℤ × ℤ) :
    Accounted (serveCgi env params cgiInput cgiOutput) := by
  have hclose : ∀ fd, Accounted (Work.close fd) := fun fd =>
    Prog.Accounts.of_records (Work.close_records fd) fun _ => rfl
  apply Prog.Accounts.bind (hclose _)
  intro _
  apply Prog.Accounts.bind (hclose _)
  intro _
  apply Prog.Accounts.bind (writeParams_accounted _ _)
  intro _
  apply Prog.Accounts.bind (Prog.Accounts.loop readCgiBody_accounted _)
  intro buf
  apply send_accounted
  · intro r
    cases r <;> rfl
  · exact Prog.Accounts.of_records Work.waitpid_records fun _ => rfl

theorem pipe_accounted {which : CgiPipe} {e : Thrown} {f : ℤ × ℤ → Work Unit}
    (hfail : raises (.pipe which false) = some e) (hf : ∀ ends, Accounted (f ends)) :
    Accounted (do
      let ends ← Work.pipe env which
      match ends with
      | none => Prog.throw e
      | some ends => f ends) := by
  have hmade : raises (.pipe which true) = none := by cases which <;> rfl
  apply Prog.Accounts.bind_records (Work.pipe_records which)
  · intro ends hends
    cases ends with
    | none =>
      rw [Option.isSome_none, hfail] at hends
      cases hends
    | some ends => exact hf ends
  · intro ends e' hends
    cases ends with
    | none =>
      rw [Option.isSome_none, hfail] at hends
      cases hends
      rfl
    | some ends =>
      rw [Option.isSome_some, hmade] at hends
      cases hends

theorem executeCGI_accounted (d : HttpData) : Accounted (executeCGI env d) := by
  apply Prog.Accounts.ite
  · exact sendForBidden_accounted
  apply pipe_accounted rfl
  intro cgiInput
  apply pipe_accounted rfl
  intro cgiOutput
  apply Prog.Accounts.bind_records Work.fork_records
  · intro created hcreated
    cases created with
    | false => cases hcreated
    | true => exact serveCgi_accounted _ cgiInput cgiOutput
  · intro created e hcreated
    cases created with
    | false =>
      cases hcreated
      rfl
    | true => cases hcreated

end Responser

variable {env : Env} {fd : ℤ} {w : World}

theorem fileExist_accounted (path : Str) : Accounted (fileExist env path) := by
  apply Prog.Accounts.bind (Prog.Accounts.of_records (Work.stat_records path) fun _ => rfl)
  intro result
  cases result with
  | found size => exact Prog.Accounts.pure _
  | denied => exact Prog.Accounts.pure _
  | missing => exact Prog.Accounts.pure _

theorem respond_accounted (d : HttpData) : Accounted (respond env d) := by
  rw [respond]
  cases d.requestMethod with
  | UNSUPPORT => exact Prog.Accounts.pure ()
  | GET =>
    apply Prog.Accounts.ite (Responser.executeCGI_accounted d)
    apply Prog.Accounts.ite Responser.sendMemoryPage_accounted
    exact Responser.sendStaticFileToClient_accounted d
  | POST =>
    apply Prog.Accounts.ite (Responser.executeCGI_accounted d)
    exact Responser.sendNotFound_accounted

theorem release_accounted (keepConnection : Bool) (fd : ℤ) :
    Accounted (release keepConnection fd) := by
  apply Prog.Accounts.ite
  · apply Prog.Accounts.bind (Prog.Accounts.of_records (Work.addfd_records fd) fun _ => rfl)
    intro _
    exact Prog.Accounts.pure ()
  · exact Prog.Accounts.of_records (Work.close_records fd) fun _ => rfl

theorem answer_accounted (d : HttpData) (fd : ℤ) : Accounted (answer env d fd) := by
  apply Prog.Accounts.ite
  · exact Prog.Accounts.pure ()
  apply Prog.Accounts.ite
  · exact Prog.Accounts.pure ()
  apply Prog.Accounts.bind (fileExist_accounted d.url)
  intro found
  apply Prog.Accounts.ite
  · exact Responser.sendNotFound_accounted
  apply Prog.Accounts.bind (respond_accounted d)
  intro _
  exact release_accounted _ fd

theorem serve_accounted (env : Env) (fd : ℤ) : Accounted (serve env fd) := by
  apply Prog.Accounts.bind (HttpData.parseData_accounted env _)
  intro d
  exact answer_accounted d fd

/-- The calls a program makes. -/
def callsOf {α : Type} (p : Work α) (w : World) : List Call := (p w).2.calls.drop w.calls.length

theorem callsOf_raises {α : Type} {p : Work α} (h : Accounted p) (w : World) :
    (callsOf p w).filterMap raises = (p w).1.thrown.toList := by
  obtain ⟨tr, hlog, hraised⟩ := h w
  rw [callsOf, hlog, List.drop_left]
  exact hraised

/-- A program throws an exception exactly when one of its calls raises it. -/
theorem thrown_eq_some_iff {α : Type} {p : Work α} (h : Accounted p) (w : World) (e : Thrown) :
    (p w).1.thrown = some e ↔ ∃ c ∈ callsOf p w, raises c = some e := by
  rw [← List.mem_filterMap, callsOf_raises h w, Option.mem_toList]

theorem thrown_ne_none_iff {α : Type} {p : Work α} (h : Accounted p) (w : World) :
    (p w).1.thrown ≠ none ↔ ∃ c ∈ callsOf p w, raises c ≠ none := by
  simp only [Option.ne_none_iff_exists', thrown_eq_some_iff h w]
  constructor
  · rintro ⟨e, c, hc, hce⟩
    exact ⟨c, hc, e, hce⟩
  · rintro ⟨c, hc, e, hce⟩
    exact ⟨e, c, hc, hce⟩

/-- The handler told the timer to drop the descriptor and closed it. -/
structure CleanedUp (fd : ℤ) (t t' : World) : Prop where
  calls : t'.calls = t.calls ++ [.deleteFd fd, .close fd]
  dropped : ¬ t'.server.timer.Registered fd
  closed : fd ∉ t'.server.kernel.openFds

theorem recover_cleansUp {e : Thrown} {t : World} (he : e.isStdException = true)
    (hdes : t.server.EraseDesignates fd) :
    ∃ t', recover fd e t = (.ok (), t') ∧ CleanedUp fd t t' := by
  obtain ⟨s, hs⟩ := (Server.eraseDesignates_iff t.server fd).mp hdes
  have hdelete : Work.deleteFd fd t =
      (.ok (), World.record (.deleteFd fd) { t with server := s }) := by
    simp only [Work.deleteFd, hs]
  refine ⟨_, by rw [recover, if_pos he, Prog.bind_ok hdelete]; rfl, ?_⟩
  obtain ⟨hdropped, -, -⟩ := Timer.deleteFd_drops hs
  constructor
  · simp [World.record, World.withKernel]
  · exact hdropped
  · exact Finset.notMem_erase _ _

theorem recover_undefined {e : Thrown} {t : World} (he : e.isStdException = true)
    (hdes : ¬ t.server.EraseDesignates fd) : ∃ u t', recover fd e t = (.undefined u, t') := by
  cases hs : Timer.deleteFd fd t.server with
  | ok s => exact absurd ((Server.eraseDesignates_iff t.server fd).mpr ⟨s, hs⟩) hdes
  | error fault =>
    refine ⟨.iterator fault, t.record (.deleteFd fd), ?_⟩
    simp only [recover, if_pos he, Prog.bind_run, Work.deleteFd, hs]

/-- No exception leaves `httpserver`, and one raised in it has the descriptor dropped and
closed. -/
structure ContainsExceptions (env : Env) (fd : ℤ) (w : World) : Prop where
  no_escape : ∀ e, (httpserver env fd w).1 ≠ .throw e
  cleaned_up : ∀ e t, serve env fd w = (.throw e, t) →
    ∃ t', httpserver env fd w = (.ok (), t') ∧ CleanedUp fd t t'

/-- A request without an exception contains its exceptions. -/
theorem containsExceptions_of_quiet (h : (serve env fd w).1.thrown = none) :
    ContainsExceptions env fd w := by
  have hquiet : ∀ e t, serve env fd w ≠ (.throw e, t) := by
    intro e t hserve
    rw [hserve] at h
    cases h
  constructor
  · intro e he
    obtain ⟨e', t, hserve, -⟩ := Prog.handle_eq_throw (Prod.ext he rfl)
    exact hquiet e' t hserve
  · intro e t hserve
    exact absurd hserve (hquiet e t)

/-- A request with an exception contains it if the handler takes it and `deleteFd` has a
meaning. -/
theorem containsExceptions_of_throw {e : Thrown} {t : World}
    (hserve : serve env fd w = (.throw e, t)) : ContainsExceptions env fd w ↔
      e ≠ .socketClosed ∧ w.server.EraseDesignates fd := by
  have hrecover : httpserver env fd w = recover fd e t := Prog.handle_throw hserve
  have htimer : t.server.timer = w.server.timer := (serve_throw (Watch.start_holds fd w) hserve).1
  have hdes : t.server.EraseDesignates fd ↔ w.server.EraseDesignates fd := by
    simp only [Server.EraseDesignates, htimer]
  have hstd : e ≠ .socketClosed ↔ e.isStdException = true := by
    cases e <;> simp [Thrown.isStdException]
  rw [← hdes, hstd]
  constructor
  · intro h
    have he : e.isStdException = true := by
      by_contra hnot
      apply h.no_escape e
      rw [hrecover, recover, if_neg hnot]
      rfl
    refine ⟨he, ?_⟩
    by_contra hnot
    obtain ⟨u, t₁, hundefined⟩ := recover_undefined he hnot
    obtain ⟨t₂, hok, -⟩ := h.cleaned_up e t hserve
    rw [hrecover, hundefined] at hok
    cases hok
  · rintro ⟨he, herase⟩
    obtain ⟨t', ht', hclean⟩ := recover_cleansUp he herase
    constructor
    · intro e' he'
      rw [hrecover, ht'] at he'
      cases he'
    · intro e' t₁ hserve'
      cases hserve.symm.trans hserve'
      exact ⟨t', hrecover.trans ht', hclean⟩

/-- Exceptions are contained exactly when no call of the `try` block raises `SocketClosed`
and, if one raises anything, the iterator that `deleteFd` erases designates a node. -/
theorem contains_exceptions_iff (env : Env) (fd : ℤ) (w : World) : ContainsExceptions env fd w ↔
    (∀ c ∈ callsOf (serve env fd) w, raises c ≠ some .socketClosed) ∧
      ((∃ c ∈ callsOf (serve env fd) w, raises c ≠ none) → w.server.EraseDesignates fd) := by
  have hclosed : (∀ c ∈ callsOf (serve env fd) w, raises c ≠ some .socketClosed) ↔
      (serve env fd w).1.thrown ≠ some .socketClosed := by
    rw [Ne, thrown_eq_some_iff (serve_accounted env fd) w]
    push Not
    exact Iff.rfl
  rw [hclosed, ← thrown_ne_none_iff (serve_accounted env fd) w]
  cases hserve : serve env fd w with
  | mk o t =>
    cases o with
    | throw e => simpa using containsExceptions_of_throw hserve
    | ok a => simpa using containsExceptions_of_quiet (by rw [hserve]; rfl)
    | undefined u => simpa using containsExceptions_of_quiet (by rw [hserve]; rfl)
    | blocked => simpa using containsExceptions_of_quiet (by rw [hserve]; rfl)
    | killed => simpa using containsExceptions_of_quiet (by rw [hserve]; rfl)

/-- The client disconnects before it sends a byte. -/
theorem not_contains_exceptions :
    (httpserver calmEnv 5 (firstClient 5 [.closed])).1 = .throw .socketClosed ∧
      ¬ ContainsExceptions calmEnv 5 (firstClient 5 [.closed]) := by
  have hescapes : (httpserver calmEnv 5 (firstClient 5 [.closed])).1 = .throw .socketClosed := by
    decide +kernel
  exact ⟨hescapes, fun h => h.no_escape _ hescapes⟩

end LxcHttpServer
