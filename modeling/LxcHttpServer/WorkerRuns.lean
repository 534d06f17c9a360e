import LxcHttpServer.ProcessRuns
import LxcHttpServer.ProgramSimulations

/-!
# A call of `httpserver` in the process

What a call of `httpserver` does to the timer and to the descriptors is a run of the process in
which no other thread takes a step: it opens and closes descriptors of its own, and when it
returns it ends in one of the four ways that the process has for it.
-/
namespace LxcHttpServer
open EffectPrograms IteratorLists PartialRuns Strings

/-- The same outcomes, but no descriptor can be opened. -/
def Env.withoutFds (env : Env) : Env :=
  { env with
    pipe := fun _ => false
    fopen := fun _ _ => none }

namespace ServerProcess

/-- A call opens or closes a descriptor of its own. -/
def Label.IsOwn (l : Label) : Prop := (∃ fd, l = .openOwn fd) ∨ ∃ fd, l = .closeOwn fd

/-- The ways in which a call that returns has given up its descriptor. -/
def endings (fd : ℤ) : List (List Label) :=
  [[.keep fd], [.close fd], [.leave fd], [.raise fd, .deleteFd fd, .closeRaised fd]]

/-- What calls do before they give up their descriptors. -/
def ownCalls (c : Sockets) : System ServerProcess Label IteratorFault :=
  (serverProcess c).restrict fun _ l => l.IsOwn

/-- The process as a call of `httpserver` has left it that began in `s₀` and has these
descriptors open. -/
structure Serving (s₀ : ServerProcess) (own : List ℤ) (w : World) (s : ServerProcess) :
    Prop where
  server : s.server = w.server
  frame : s = { s₀ with server := s.server, own := own, actions := s.actions }

def InCall (s₀ : ServerProcess) (w : World) (s : ServerProcess) : Prop :=
  ∃ own, Serving s₀ own w s

variable {c : Sockets} {env : Env} {s₀ s : ServerProcess} {w w' : World} {fd fd' : ℤ}
  {own : List ℤ} {α : Type}

/-- The call leaves the process as it is, whatever it does for the client. -/
abbrev Quiet (c : Sockets) (p : Work α) : Prop := ∀ s₀ own,
  Prog.Followed (ownCalls c) (Serving s₀ own) p (fun _ => Serving s₀ own) (InCall s₀)

theorem Serving.inCall (h : Serving s₀ own w s) : InCall s₀ w s := ⟨own, h⟩

theorem Serving.of_server (h : Serving s₀ own w s) (hserver : w'.server = w.server) :
    Serving s₀ own w' s := ⟨h.server.trans hserver.symm, h.frame⟩

theorem quiet_of_server {p : Work α} (h : ∀ srv, Prog.Preserves (fun w => w.server = srv) p) :
    Quiet c p := by
  intro s₀ own
  refine Prog.Followed.of_keeps ?_ fun w s hw => hw.inCall
  intro s w hw
  exact hw.of_server (h w.server w rfl)

variable {srv : Server}

theorem preserves_server {p : Work α} (h : ∀ w, (p w).2.server = w.server) :
    Prog.Preserves (fun w => w.server = srv) p :=
  fun w hw => (h w).trans hw

theorem server_recv (w : World) : (Work.recv w).2.server = w.server := by
  cases h : w.recvs with
  | nil => simp [Work.recv, h]
  | cons r rs => simp [Work.recv, h]

theorem server_stoi (text : Str) (w : World) : (Work.stoi text w).2.server = w.server := by
  cases h : Strings.stoi text with
  | ok n => simp [Work.stoi, h]
  | error e => simp [Work.stoi, h]

theorem server_newArray (size : ℤ) (w : World) :
    (Work.newArray env size w).2.server = w.server := by
  simp only [Work.newArray]
  split_ifs <;> rfl

theorem server_write (fd : ℤ) (bytes : Str) (w : World) :
    (Work.write env fd bytes w).2.server = w.server := by
  rw [Work.write_snd, World.server_record]

theorem server_read (count : ℕ) (w : World) : (Work.read count w).2.server = w.server := by
  simp only [Work.read]
  split_ifs
  · rfl
  · split
    · rfl
    · split_ifs <;> rfl
    · rfl

theorem server_parserCalls : ParserCalls env fun w => w.server = srv where
  recv := preserves_server server_recv
  stoi text := preserves_server (server_stoi text)
  newArray size := preserves_server (server_newArray size)

/-- Where nothing can be opened, the answers leave the server alone. -/
theorem server_answerCalls :
    AnswerCalls env.withoutFds (fun w => w.server = srv) (fun _ => True) (fun _ => False) where
  send _ _ := preserves_server fun w => by rw [Work.send_snd, World.server_record]
  stat _ _ := preserves_server fun _ => rfl
  fork := preserves_server fun _ => rfl
  write fd bytes := preserves_server (server_write fd bytes)
  waitpid := preserves_server fun _ => rfl
  read count := preserves_server (server_read count)
  pipe _ := preserves_server fun _ => rfl
  pipe_ends _ _ _ _ _ h := by cases h
  fopen _ _ := preserves_server fun _ => rfl
  fopen_fd _ _ _ _ _ h := by cases h
  close _ h := h.elim
  fclose _ h := h.elim

theorem quiet_send (sender : Sender) (bytes : Str) : Quiet c (Work.send env sender bytes) :=
  quiet_of_server fun _ => (@server_answerCalls env _).send sender bytes

theorem quiet_stat (path : Str) : Quiet c (Work.stat env path) :=
  quiet_of_server fun _ => (@server_answerCalls env _).stat path trivial

theorem quiet_fork : Quiet c (Work.fork env) :=
  quiet_of_server fun _ => (@server_answerCalls env _).fork

theorem quiet_waitpid : Quiet c Work.waitpid :=
  quiet_of_server fun _ => preserves_server fun _ => rfl

theorem quiet_parseData (d : HttpData) : Quiet c (HttpData.parseData env d) :=
  quiet_of_server fun _ => HttpData.parseData_keeps server_parserCalls d

theorem quiet_fileExist (path : Str) : Quiet c (fileExist env path) :=
  quiet_of_server fun _ =>
    @fileExist_keeps env.withoutFds _ _ _ server_answerCalls path trivial

theorem quiet_fill (size : ℕ) (text : Str) : Quiet c (Responser.fill size text) :=
  quiet_of_server fun _ => Responser.fill_keeps size text

theorem quiet_sendNotFound : Quiet c (Responser.sendNotFound env) :=
  quiet_of_server fun _ =>
    @Responser.sendNotFound_keeps env.withoutFds _ _ _ server_answerCalls

theorem quiet_sendForBidden : Quiet c (Responser.sendForBidden env) :=
  quiet_of_server fun _ =>
    @Responser.sendForBidden_keeps env.withoutFds _ _ _ server_answerCalls

theorem quiet_sendMemoryPage : Quiet c (Responser.sendMemoryPage env) :=
  quiet_of_server fun _ =>
    @Responser.sendMemoryPage_keeps env.withoutFds _ _ _ server_answerCalls

theorem quiet_serverStaticFileLoop (p : Str × Str) :
    Quiet c ((Responser.serverStaticFileLoop env).run p) :=
  quiet_of_server fun _ =>
    @Responser.serverStaticFileLoop_keeps env.withoutFds _ _ _ server_answerCalls p

theorem server_writeParams (cgiInput : ℤ) (params : List Param) :
    Prog.Preserves (fun w => w.server = srv) (Responser.writeParams env cgiInput params) := by
  have hwrite : ∀ bytes, Prog.Preserves (fun w => w.server = srv)
      (Work.write env cgiInput bytes) := fun bytes =>
    preserves_server (server_write cgiInput bytes)
  induction params with
  | nil => exact Prog.Preserves.pure ()
  | cons param rest ih =>
    apply (hwrite _).bind
    intro _
    apply (hwrite _).bind
    intro _
    apply (hwrite _).bind
    intro _
    exact (hwrite _).bind fun _ => ih

theorem quiet_writeParams (cgiInput : ℤ) (params : List Param) :
    Quiet c (Responser.writeParams env cgiInput params) :=
  quiet_of_server fun _ => server_writeParams cgiInput params

theorem quiet_readCgiLoop (buf : Str) : Quiet c (Responser.readCgiLoop.run buf) :=
  quiet_of_server fun _ => Responser.readCgiLoop_keeps (@server_answerCalls calmEnv _) buf

theorem unusedFd_nonneg (k : Kernel) : 0 ≤ k.unusedFd := by
  rw [Kernel.unusedFd]
  cases hfind : ((List.range (k.openFds.card + 1)).map Int.ofNat).find? (· ∉ k.openFds) with
  | none => exact le_refl _
  | some fd =>
    obtain ⟨n, -, rfl⟩ := List.mem_map.mp (List.mem_of_find?_eq_some hfind)
    exact Int.natCast_nonneg n

theorem Serving.closes (h : Serving s₀ own w s) (hmem : fd ∈ own) : ∃ s',
    (ownCalls c).Run s [.closeOwn fd] s' ∧
      Serving s₀ (own.erase fd) (w.withKernel (w.server.kernel.close fd)) s' := by
  have hown : s.own = own := by rw [h.frame]
  have hen : s.enabled c (.closeOwn fd) := by
    have hmem' : fd ∈ s.own := hown ▸ hmem
    exact hmem'
  refine ⟨_, .single ⟨hen, .inr ⟨_, rfl⟩⟩ rfl, ?_, ?_⟩
  · simp [World.withKernel, h.server]
  · rw [h.frame]

theorem followed_close (hmem : fd ∈ own) : Prog.Followed (ownCalls c) (Serving s₀ own)
    (Work.close fd) (fun _ => Serving s₀ (own.erase fd)) (InCall s₀) := by
  intro w s hw
  obtain ⟨s', hrun, hs'⟩ := hw.closes (c := c) hmem
  exact ⟨_, s', hrun, hs'.of_server rfl⟩

theorem followed_fclose (hmem : fd ∈ own) : Prog.Followed (ownCalls c) (Serving s₀ own)
    (Work.fclose fd) (fun _ => Serving s₀ (own.erase fd)) (InCall s₀) := by
  intro w s hw
  obtain ⟨s', hrun, hs'⟩ := hw.closes (c := c) hmem
  exact ⟨_, s', hrun, hs'.of_server rfl⟩

/-- A call sends something and goes on if that succeeds. -/
theorem followed_send {sender : Sender} {bytes : Str} {e : Thrown} {f : Work α}
    {Q : α → World → ServerProcess → Prop}
    (hf : Prog.Followed (ownCalls c) (Serving s₀ own) f Q (InCall s₀)) :
    Prog.Followed (ownCalls c) (Serving s₀ own) (do
      let ret ← Work.send env sender bytes
      if ret then f else Prog.throw e) Q (InCall s₀) := by
  refine .bind (quiet_send sender bytes s₀ own) ?_
  intro ret
  exact hf.ite (.throw e fun w s hw => hw.inCall)

/-- A program that leaves the process as it is, at the end of what a call does. -/
theorem Quiet.ends {p : Work α} (hp : Quiet c p) : Prog.Followed (ownCalls c) (Serving s₀ own) p
    (fun _ => InCall s₀) (InCall s₀) :=
  (hp s₀ own).mono (fun _ _ hw => hw) fun _ _ _ hw => hw.inCall

/-- The descriptors of a call after it has tried to make a pipe. -/
def withPipe (own : List ℤ) : Option (ℤ × ℤ) → List ℤ
  | none => own
  | some ends => ends.2 :: ends.1 :: own

def withFile (own : List ℤ) : Option (ℤ × Str) → List ℤ
  | none => own
  | some file => file.1 :: own

theorem followed_serveCgi (params : Params) (cgiInput cgiOutput : ℤ × ℤ) :
    Prog.Followed (ownCalls c)
      (Serving s₀ (withPipe (withPipe own (some cgiInput)) (some cgiOutput)))
      (Responser.serveCgi env params cgiInput cgiOutput) (fun _ => InCall s₀) (InCall s₀) := by
  refine .bind (followed_close List.mem_cons_self) ?_
  intro _
  refine .bind (followed_close ?_) ?_
  · simp [withPipe]
  intro _
  refine .bind (quiet_writeParams _ _ s₀ _) ?_
  intro _
  refine .bind (quiet_readCgiLoop _ s₀ _) ?_
  intro buf
  exact followed_send quiet_waitpid.ends

section InTry
variable (hfd : fd ∈ s₀.serving) (hconn : c.IsConnection fd)
include hfd hconn

theorem Serving.opens (h : Serving s₀ own w s) : ∃ s',
    (ownCalls c).Run s [.openOwn w.server.kernel.unusedFd] s' ∧
      Serving s₀ (w.server.kernel.unusedFd :: own)
        (w.withKernel (w.server.kernel.openFd w.server.kernel.unusedFd)) s' := by
  have hserving : s.serving = s₀.serving := by rw [h.frame]
  have hen : s.enabled c (.openOwn w.server.kernel.unusedFd) := by
    refine ⟨⟨fd, hserving ▸ hfd, hconn⟩, unusedFd_nonneg _, ?_⟩
    rw [h.server]
    exact w.server.kernel.unusedFd_not_mem
  refine ⟨_, .single ⟨hen, .inl ⟨_, rfl⟩⟩ rfl, ?_, ?_⟩
  · simp [World.withKernel, h.server]
  · rw [h.frame]

theorem followed_pipe (which : CgiPipe) : Prog.Followed (ownCalls c) (Serving s₀ own)
    (Work.pipe env which) (fun ends => Serving s₀ (withPipe own ends)) (InCall s₀) := by
  intro w s hw
  simp only [Work.pipe]
  split_ifs
  · obtain ⟨s₁, hrun₁, hs₁⟩ := hw.opens hfd hconn
    obtain ⟨s₂, hrun₂, hs₂⟩ := hs₁.opens hfd hconn
    exact ⟨_, s₂, hrun₁.append hrun₂, hs₂.of_server rfl⟩
  · exact ⟨[], s, .nil, hw.of_server rfl⟩

theorem followed_fopen (path : Str) : Prog.Followed (ownCalls c) (Serving s₀ own)
    (Work.fopen env path) (fun file => Serving s₀ (withFile own file)) (InCall s₀) := by
  intro w s hw
  simp only [Work.fopen]
  split
  · exact ⟨[], s, .nil, hw.of_server rfl⟩
  · obtain ⟨s₁, hrun₁, hs₁⟩ := hw.opens hfd hconn
    exact ⟨_, s₁, hrun₁, hs₁.of_server rfl⟩

theorem followed_serverStaticFile (d : HttpData) : Prog.Followed (ownCalls c) (Serving s₀ own)
    (Responser.serverStaticFile env d) (fun _ => InCall s₀) (InCall s₀) := by
  refine .bind (followed_fopen hfd hconn d.url) ?_
  intro resource
  cases resource with
  | none => exact .undefined _ fun w s hw => hw.inCall
  | some file =>
    have hclose : Prog.Followed (ownCalls c) (Serving s₀ (file.1 :: own)) (Work.fclose file.1)
        (fun _ => InCall s₀) (InCall s₀) :=
      (followed_fclose List.mem_cons_self).mono (fun _ _ hw => hw) fun _ _ _ hw => hw.inCall
    apply Prog.Followed.ite
    · exact .bind (quiet_serverStaticFileLoop _ s₀ _) fun _ => hclose
    · exact followed_send hclose

theorem followed_sendStaticFileToClient (d : HttpData) : Prog.Followed (ownCalls c)
    (Serving s₀ own) (Responser.sendStaticFileToClient env d) (fun _ => InCall s₀)
    (InCall s₀) := by
  refine .bind (quiet_stat d.url s₀ own) ?_
  intro staticFileState
  cases staticFileState with
  | denied => exact quiet_sendForBidden.ends
  | missing => exact quiet_sendNotFound.ends
  | found fileSize =>
    refine .bind (quiet_fill _ _ s₀ own) ?_
    intro buf
    exact followed_send (followed_serverStaticFile hfd hconn d)

theorem followed_executeCGI (d : HttpData) : Prog.Followed (ownCalls c) (Serving s₀ own)
    (Responser.executeCGI env d) (fun _ => InCall s₀) (InCall s₀) := by
  apply Prog.Followed.ite
  · exact quiet_sendForBidden.ends
  refine .bind (followed_pipe hfd hconn .cgiInput) ?_
  intro cgiInput
  cases cgiInput with
  | none => exact .throw _ fun w s hw => hw.inCall
  | some cgiInput =>
    refine .bind (followed_pipe hfd hconn .cgiOutput) ?_
    intro cgiOutput
    cases cgiOutput with
    | none => exact .throw _ fun w s hw => hw.inCall
    | some cgiOutput =>
      refine .bind (quiet_fork s₀ _) ?_
      intro created
      apply Prog.Followed.ite
      · exact followed_serveCgi _ cgiInput cgiOutput
      · exact .throw _ fun w s hw => hw.inCall

theorem followed_respond (d : HttpData) : Prog.Followed (ownCalls c) (Serving s₀ own)
    (respond env d) (fun _ => InCall s₀) (InCall s₀) := by
  rw [respond]
  cases d.requestMethod with
  | UNSUPPORT => exact .pure () fun w s hw => hw.inCall
  | GET =>
    apply Prog.Followed.ite (followed_executeCGI hfd hconn d)
    apply Prog.Followed.ite quiet_sendMemoryPage.ends
    exact followed_sendStaticFileToClient hfd hconn d
  | POST =>
    apply Prog.Followed.ite (followed_executeCGI hfd hconn d)
    exact quiet_sendNotFound.ends

/-- From here one of the endings leads to the server that the call leaves. -/
def Given (c : Sockets) (s₀ : ServerProcess) (fd : ℤ) (w : World) (s : ServerProcess) : Prop :=
  ∃ fin ∈ endings fd, ∃ s', (serverProcess c).Run s fin s' ∧ s'.server = w.server ∧
    s' = { s₀ with
      server := s'.server
      own := s'.own
      actions := s'.actions
      serving := s₀.serving.erase fd }

theorem InCall.leaves (h : InCall s₀ w s) : Given c s₀ fd w s := by
  obtain ⟨own, hs⟩ := h
  have hserving : s.serving = s₀.serving := by rw [hs.frame]
  have hen : s.enabled c (.leave fd) := ⟨hserving ▸ hfd, hconn⟩
  refine ⟨[.leave fd], by simp [endings], _, .single hen rfl, hs.server, ?_⟩
  rw [hs.frame]

theorem followed_release (keepConnection : Bool) : Prog.Followed (ownCalls c) (InCall s₀)
    (release keepConnection fd) (fun _ => Given c s₀ fd) (InCall s₀) := by
  intro w s ⟨own, hs⟩
  have hserving : s.serving = s₀.serving := by rw [hs.frame]
  cases keepConnection with
  | true =>
    have hen : s.enabled c (.keep fd) := ⟨hserving ▸ hfd, hconn⟩
    refine ⟨[], s, .nil, [.keep fd], by simp [endings], _, .single hen rfl, ?_, ?_⟩
    · simp [release_keep, hs.server]
    · rw [hs.frame]
  | false =>
    have hen : s.enabled c (.close fd) := ⟨hserving ▸ hfd, hconn⟩
    refine ⟨[], s, .nil, [.close fd], by simp [endings], _, .single hen rfl, ?_, ?_⟩
    · simp [release, Work.close, World.withKernel, hs.server]
    · rw [hs.frame]

theorem followed_answer (d : HttpData) : Prog.Followed (ownCalls c) (Serving s₀ own)
    (answer env d fd) (fun _ => Given c s₀ fd) (InCall s₀) := by
  have hnothing : Prog.Followed (ownCalls c) (Serving s₀ own) (pure () : Work Unit)
      (fun _ => Given c s₀ fd) (InCall s₀) :=
    .pure () fun _ _ hw => hw.inCall.leaves hfd hconn
  apply hnothing.ite
  apply hnothing.ite
  refine .bind (quiet_fileExist d.url s₀ own) ?_
  intro found
  apply Prog.Followed.ite
  · exact (quiet_sendNotFound s₀ own).mono (fun _ _ hw => hw)
      fun _ _ _ hw => hw.inCall.leaves hfd hconn
  · refine .bind (followed_respond hfd hconn d) ?_
    intro _
    exact followed_release hfd hconn d.keepConnection

omit hconn in
/-- The handler lets the timer forget the descriptor and closes it. -/
theorem InCall.recovers {server : Server} (h : InCall s₀ w s)
    (hdelete : Timer.deleteFd fd w.server = .ok server)
    (hserver : w'.server = { server with kernel := server.kernel.close fd }) :
    Given c s₀ fd w' s := by
  obtain ⟨own, hs⟩ := h
  have hserving : fd ∈ s.serving := by
    rw [hs.frame]
    exact hfd
  have hact : s.server.act (.deleteFd fd) = .ok server := by
    rw [hs.server]
    exact hdelete
  have hraise : (serverProcess c).Run s [.raise fd]
      { s with serving := s.serving.erase fd, deleting := fd :: s.deleting } :=
    .single hserving rfl
  have hforget : (serverProcess c).Run
      { s with serving := s.serving.erase fd, deleting := fd :: s.deleting } [.deleteFd fd]
      { s with
        server := server
        serving := s.serving.erase fd
        closing := fd :: s.closing
        actions := s.actions ++ [.deleteFd fd] } := by
    refine .single List.mem_cons_self ?_
    simp [serverProcess, step, perform, hact]
  have hclose : (serverProcess c).Run
      { s with
        server := server
        serving := s.serving.erase fd
        closing := fd :: s.closing
        actions := s.actions ++ [.deleteFd fd] } [.closeRaised fd]
      { s with
        server := { server with kernel := server.kernel.close fd }
        serving := s.serving.erase fd
        actions := s.actions ++ [.deleteFd fd] ++ [.close fd] } := by
    refine .single List.mem_cons_self ?_
    simp [serverProcess, step, perform, Server.act]
  refine ⟨_, by simp [endings], _, (hraise.append hforget).append hclose, hserver.symm, ?_⟩
  rw [hs.frame]

omit hconn in
theorem followed_recover (e : Thrown) : Prog.Followed (ownCalls c) (InCall s₀)
    (recover fd e) (fun _ => Given c s₀ fd) (InCall s₀) := by
  refine .ite ?_ (.throw e fun _ _ hw => hw)
  intro w s hcall
  rw [Prog.bind_run]
  cases hdelete : Timer.deleteFd fd w.server with
  | error fault =>
    simp only [Work.deleteFd, hdelete]
    obtain ⟨own, hs⟩ := hcall
    exact ⟨[], s, .nil, own, hs.of_server rfl⟩
  | ok server =>
    simp only [Work.deleteFd, hdelete]
    exact ⟨[], s, .nil, hcall.recovers hfd hdelete rfl⟩

theorem followed_httpserver : Prog.Followed (ownCalls c) (Serving s₀ own)
    (httpserver env fd) (fun _ => Given c s₀ fd) (InCall s₀) := by
  refine .handle (.bind (quiet_parseData _ s₀ own) ?_) (followed_recover hfd)
  intro d
  exact followed_answer hfd hconn d

end InTry

/-- A call of `httpserver` for a connection that a thread serves, from its beginning to its end,
is a run of the process: the call opens and closes descriptors of its own, and if it returns it
has given up the connection in one of the four ways. -/
theorem httpserver_in_process (env : Env) (hfd : fd ∈ s.serving) (hconn : c.IsConnection fd)
    (hserver : s.server = w.server) : ∃ pre fin s', (∀ l ∈ pre, l.IsOwn) ∧
      (serverProcess c).Run s (pre ++ fin) s' ∧
      s'.server = (httpserver env fd w).2.server ∧
      s' = { s with
        server := s'.server
        own := s'.own
        actions := s'.actions
        serving := s'.serving } ∧
      (httpserver env fd w).1.Ends (fun _ => fin ∈ endings fd ∧ s'.serving = s.serving.erase fd)
        (fin = [] ∧ s'.serving = s.serving) := by
  have hstart : Serving s s.own w s := ⟨hserver, rfl⟩
  obtain ⟨pre, t, hrun, hends⟩ := @followed_httpserver c env _ _ _ hfd hconn w s hstart
  have hpre := hrun.forall_of_restrict
  have hrun := hrun.of_restrict
  cases hcall : httpserver env fd w with
  | mk o w' =>
    rw [hcall] at hends
    cases o with
    | ok =>
      obtain ⟨fin, hfin, s', hrun', hs', hframe⟩ := hends
      refine ⟨pre, fin, s', hpre, hrun.append hrun', hs', ?_, hfin, ?_⟩
      · rw [hframe]
      · rw [hframe]
    | throw e | undefined u | blocked | killed =>
      obtain ⟨own, hs⟩ := hends
      refine ⟨pre, [], t, hpre, by simpa using hrun, hs.server, ?_, rfl, ?_⟩
      · rw [hs.frame]
      · rw [hs.frame]

/-- The connection 5 has an event, and a thread serves it; what comes is an empty line. -/
theorem httpserver_in_process_left : ∃ server s pre fin s', (serverProcess ⟨3, 4⟩).Run
    (start server) [.epollWait [5], .main, .main, .main, .main, .take] s ∧ s.serving = [5] ∧
    (serverProcess ⟨3, 4⟩).Run s (pre ++ fin) s' ∧ fin ∈ endings 5 ∧ s'.serving = [] := by
  have hex : ∃ server, serverOrder.Run ⟨.new 15 1000, .boot⟩ [.accept 5, .addfd 5] server ∧
      ((serverProcess ⟨3, 4⟩).exec (start server) [.epollWait [5], .main, .main, .main, .main,
        .take]).any fun s => s.serving = [5] ∧
        (httpserver calmEnv 5 ⟨s.server, [emptyLine], [], []⟩).1 = .ok () :=
    System.Run.exists_of_exec (by decide +kernel)
  obtain ⟨server, -, hexec⟩ := hex
  obtain ⟨s, hrun, hserving, hok⟩ := System.Run.exists_of_exec hexec
  have hfd : 5 ∈ s.serving := by simp [hserving]
  obtain ⟨pre, fin, s', -, hcall, -, -, hends⟩ := httpserver_in_process (c := ⟨3, 4⟩)
    (w := ⟨s.server, [emptyLine], [], []⟩) calmEnv hfd (by decide) rfl
  rw [hok] at hends
  exact ⟨server, s, pre, fin, s', hrun, hserving, hcall, hends.1, by simp [hends.2, hserving]⟩

end ServerProcess
end LxcHttpServer
