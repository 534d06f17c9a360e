import LxcHttpServer.Responser
import LxcHttpServer.TimerRuns

/-!
# The worker of `httpserver.cpp`

`httpserver` parses one request, answers it and either keeps the connection in the timer
or closes it. Its handler takes the exceptions that derive from `std::exception`.
-/
namespace LxcHttpServer
open EffectPrograms PartialRuns Strings

/-- The answer to a request for a resource that exists or is in memory. -/
def respond (env : Env) (d : HttpData) : Work Unit :=
  match d.requestMethod with
  | .GET =>
    if d.urlResourceType = str "cgi" then Responser.executeCGI env d
    else if d.urlResourceType = str "memory" then Responser.sendMemoryPage env
    else Responser.sendStaticFileToClient env d
  | .POST =>
    if d.urlResourceType = str "cgi" then Responser.executeCGI env d
    else Responser.sendNotFound env
  | .UNSUPPORT => pure ()

/-- The end of the `try` block; what `addfd` returns is not looked at. -/
def release (keepConnection : Bool) (clientSocketFd : ℤ) : Work Unit :=
  if keepConnection then do
    let _ ← Work.addfd clientSocketFd
    pure ()
  else Work.close clientSocketFd

/-- The `try` block after the request was parsed. -/
def answer (env : Env) (d : HttpData) (clientSocketFd : ℤ) : Work Unit :=
  if d.badRequest then pure ()
  else if d.requestMethod = .UNSUPPORT then pure ()
  else do
    let found ← fileExist env d.url
    if ¬ found ∧ d.urlResourceType ≠ str "memory" then Responser.sendNotFound env
    else do
      respond env d
      release d.keepConnection clientSocketFd

/-- The `try` block. -/
def serve (env : Env) (clientSocketFd : ℤ) : Work Unit := do
  let d ← HttpData.parseData env (HttpData.new env clientSocketFd)
  answer env d clientSocketFd

/-- `catch(const std::exception& e)`. -/
def recover (clientSocketFd : ℤ) (e : Thrown) : Work Unit :=
  if e.isStdException then do
    Work.deleteFd clientSocketFd
    Work.close clientSocketFd
  else Prog.throw e

def httpserver (env : Env) (clientSocketFd : ℤ) : Work Unit :=
  Prog.handle (serve env clientSocketFd) (recover clientSocketFd)

/-- A refused descriptor has no entry and is closed by its worker, and a registered one
is not refused. -/
structure HandlesRefusal (w : World) (fd : ℤ) : Prop where
  refused : (Timer.addfd fd w.server).1 = false → ∃ w', release true fd w = (.ok (), w') ∧
    ¬ w'.server.timer.Registered fd ∧ w'.server.kernel.closes = w.server.kernel.closes ++ [fd]
  registered : w.server.timer.Registered fd → (Timer.addfd fd w.server).1 = true

theorem release_keep (fd : ℤ) (w : World) : release true fd w =
    (.ok (), World.record (.addfd fd (Timer.addfd fd w.server).1)
      { w with server := (Timer.addfd fd w.server).2 }) := rfl

/-- Refusals are handled exactly in the states in which there are none. -/
theorem handles_refusal_iff (w : World) (fd : ℤ) :
    HandlesRefusal w fd ↔ w.server.timer.curSize < w.server.timer.maxSize := by
  constructor
  · intro h
    by_contra hfull
    have heq : Timer.addfd fd w.server = (false, w.server) := Timer.addfd_full (not_lt.mp hfull)
    obtain ⟨w', hrun, -, hcloses⟩ := h.refused (by rw [heq])
    rw [release_keep, heq] at hrun
    cases hrun
    have hlen := congrArg List.length hcloses
    simp at hlen
  · intro hroom
    have haccepted := (Timer.addfd_fst fd w.server).mpr hroom
    constructor
    · intro hrefused
      rw [haccepted] at hrefused
      cases hrefused
    · intro _
      exact haccepted

/-- A timer with one place, taken by a connection whose next request is being handled. -/
theorem not_handles_refusal : ∃ s, serverOrder.Run ⟨.new 15 1, .boot⟩
    [.accept 5, .addfd 5, .deliver 5, .forbidenFd 5] s ∧ s.timer.Registered 5 ∧
    ∀ w : World, w.server = s → (Timer.addfd 5 w.server).1 = false ∧ ¬ HandlesRefusal w 5 := by
  have hex : ∃ s, serverOrder.Run ⟨.new 15 1, .boot⟩
      [.accept 5, .addfd 5, .deliver 5, .forbidenFd 5] s ∧ s.timer.Registered 5 ∧
      s.timer.curSize ≥ s.timer.maxSize := System.Run.exists_of_exec (by decide +kernel)
  obtain ⟨s, hs, hreg, hfull⟩ := hex
  refine ⟨s, hs, hreg, ?_⟩
  rintro w rfl
  have hrefused : (Timer.addfd 5 w.server).1 = false := by rw [Timer.addfd_full hfull]
  refine ⟨hrefused, ?_⟩
  intro h
  have haccepted := h.registered hreg
  rw [hrefused] at haccepted
  cases haccepted

end LxcHttpServer
