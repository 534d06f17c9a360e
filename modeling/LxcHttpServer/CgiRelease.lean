import LxcHttpServer.CgiOutput

/-!
# What a CGI request leaves behind

`executeCGI` opens four ends of pipes and closes two. From the first `pipe` on, the end it
writes the parameters to stays open on every way out.
-/
namespace LxcHttpServer
open EffectPrograms Strings

namespace Responser

variable {env : Env} {d : HttpData} {w w₁ : World} {ends : ℤ × ℤ}

/-- In the end the descriptors are those that were open before, and a process that was created
has been waited for. -/
structure Released (env : Env) (d : HttpData) (w : World) : Prop where
  descriptors : (executeCGI env d w).2.server.kernel.openFds = w.server.kernel.openFds
  waited : .fork true ∈ callsOf (executeCGI env d) w → .waitpid ∈ callsOf (executeCGI env d) w

theorem released_of_call {c : Call} (hcall : c ≠ .fork true)
    (hworld : (executeCGI env d w).2 = w.record c) : Released env d w := by
  have hcalls : callsOf (executeCGI env d) w = [c] := by
    rw [callsOf, hworld, World.calls_record, List.drop_left]
  refine ⟨by rw [hworld]; rfl, ?_⟩
  rw [hcalls, List.mem_singleton]
  exact fun h => absurd h.symm hcall

theorem released_without_params (h : d.getParamCount = 0) : Released env d w := by
  let call : Call := .send .sendForBidden notFoundResponse (env.send w.calls.length)
  have hcall : call ≠ .fork true := by simp [call]
  apply released_of_call hcall
  have hroom : notFoundResponse.length < 1024 := by decide +kernel
  have hfill : fill 1024 notFoundResponse w = (.ok notFoundResponse, w) := by
    rw [fill, if_pos hroom]
    rfl
  let finish (ret : Bool) : Work Unit :=
    if ret then pure () else Prog.throw (.runtimeError "send bidden page to client error!\n")
  have hrun : executeCGI env d w =
      (Work.send env .sendForBidden notFoundResponse >>= finish) w := by
    rw [executeCGI, if_pos h, sendForBidden, Prog.bind_ok hfill]
  have hfinish : ∀ ret w', (finish ret w').2 = w' := by
    intro ret w'
    cases ret <;> rfl
  rw [hrun, ← Work.send_snd]
  rcases Prog.bind_run_cases (Work.send env .sendForBidden notFoundResponse) finish w with
    ⟨ret, w₁, hsend, hends⟩ | hends
  · rw [hends, hfinish, hsend]
  · exact hends

theorem released_without_pipe (hparams : d.getParamCount ≠ 0)
    (hpipe : env.pipe w.calls.length = false) : Released env d w := by
  apply released_of_call (c := .pipe .cgiInput false) (by simp)
  have hnone : Work.pipe env .cgiInput w = (.ok none, w.record (.pipe .cgiInput false)) := by
    rw [Work.pipe, hpipe]
    rfl
  rw [executeCGI, if_neg hparams, Prog.bind_ok hnone]
  rfl

/-- The ends of a new pipe are two descriptors that were not open. -/
theorem pipe_new {which : CgiPipe} (h : Work.pipe env which w = (.ok (some ends), w₁)) :
    ends.1 ≠ ends.2 ∧ ends.2 ∉ w.server.kernel.openFds ∧ ends.2 ∈ w₁.server.kernel.openFds := by
  simp only [Work.pipe] at h
  split_ifs at h
  · cases h
    have hnew := (w.server.kernel.openFd w.server.kernel.unusedFd).unusedFd_not_mem
    rw [Kernel.openFd, Finset.mem_insert, not_or] at hnew
    exact ⟨fun heq => hnew.1 heq.symm, hnew.2, Finset.mem_insert_self _ _⟩
  · cases h

theorem executeCGI_keeps_end (hparams : d.getParamCount ≠ 0)
    (hpipe : Work.pipe env .cgiInput w = (.ok (some ends), w₁)) :
    ends.2 ∈ (executeCGI env d w).2.server.kernel.openFds := by
  obtain ⟨hne, -, hopen⟩ := pipe_new hpipe
  rw [executeCGI, if_neg hparams, Prog.bind_ok hpipe]
  simp only
  let I := Watch.start ends.2 w₁
  have hspared {p : Work Unit} (hp : I.Spared p) : ends.2 ∈ (p w₁).2.server.kernel.openFds :=
    ((hp w₁ (Watch.start_holds ends.2 w₁)).2 hopen).1
  apply hspared
  apply pipe_keeps Watch.answerCalls
  intro cgiOutput _ houtput
  apply Prog.Preserves.bind Watch.fork
  intro created
  apply Prog.Preserves.ite
  · exact serveCgi_keeps Watch.answerCalls _ (fun _ => hne) houtput
  · exact Prog.Preserves.throw _

theorem not_released (hparams : d.getParamCount ≠ 0) (hpipe : env.pipe w.calls.length = true) :
    ¬ Released env d w := by
  intro h
  obtain ⟨ends, w₁, hcreated, -, -⟩ := pipe_created .cgiInput hpipe
  have hkept := executeCGI_keeps_end hparams hcreated
  rw [h.descriptors] at hkept
  exact (pipe_new hcreated).2.1 hkept

/-- `executeCGI` gives back what it took exactly if it took nothing. -/
theorem released_iff (env : Env) (d : HttpData) (w : World) :
    Released env d w ↔ d.getParamCount = 0 ∨ env.pipe w.calls.length = false := by
  constructor
  · intro h
    by_cases hparams : d.getParamCount = 0
    · exact .inl hparams
    · right
      by_contra hpipe
      exact not_released hparams (by simpa using hpipe) h
  · rintro (hparams | hpipe)
    · exact released_without_params hparams
    · by_cases hparams : d.getParamCount = 0
      · exact released_without_params hparams
      · exact released_without_pipe hparams hpipe

/-- `executeCGI` comes back, by return or exception. -/
def Leaves (env : Env) (d : HttpData) (w : World) : Prop :=
  (executeCGI env d w).1 = .ok () ∨ ∃ e, (executeCGI env d w).1 = .throw e

/-- After an output that was sent whole, the end that the parameters were written to is open. -/
theorem not_released_on_leaving : ¬ ∀ env d w, Leaves env d w → Released env d w := by
  intro hall
  have hreturns : (executeCGI calmEnv query (answeredBy (str "\r\n"))).1 = .ok () := by
    decide +kernel
  have hparams : query.getParamCount ≠ 0 := by decide +kernel
  exact not_released hparams rfl (hall calmEnv query (answeredBy (str "\r\n")) (.inl hreturns))

end Responser
end LxcHttpServer
