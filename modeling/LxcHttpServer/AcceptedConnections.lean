import LxcHttpServer.ProcessRuns

/-!
# What becomes of accepted connections

Nothing but `addfd` after a request puts a connection into the epoll instance, and a request is
read only after an event. So a process whose epoll instance begins without connections accepts
them and never comes back to them: the tasks are -1 and the listening socket, the timer stays as
it was made, and the first task with the listening socket closes it.
-/
namespace LxcHttpServer
open PartialRuns

namespace ServerProcess

variable {c : Sockets} {s s' : ServerProcess} {server : Server} {timeout maxSize : ℤ} {k : Kernel}
  {as : List Label} {l : Label} {fd : ℤ}

/-- The listening socket, or what `accept` returns when it fails. -/
def NoClient (c : Sockets) (fd : ℤ) : Prop := fd = c.serverSocketfd ∨ fd = -1

theorem NoClient.not_connection (h : NoClient c fd) : ¬ c.IsConnection fd := by
  intro hconn
  rcases h with rfl | rfl
  · exact hconn.2.1 rfl
  · exact absurd hconn.1 (by decide)

/-- Nobody is served. -/
structure Deserted (c : Sockets) (timeout maxSize : ℤ) (s : ServerProcess) : Prop where
  timer : s.server.timer = .new timeout maxSize
  unarmed : ∀ fd, ¬ s.server.kernel.Armed fd
  events : ∀ fd ∈ s.events, fd = c.serverSocketfd ∨ fd = c.pipeRead
  pc : ∀ fd ∈ s.pc.fds, fd = c.serverSocketfd ∨ s.pc = .testPipe c.pipeRead
  tasks : ∀ fd, fd ∈ s.workList ∨ fd ∈ s.serving ∨ fd ∈ s.deleting ∨ fd ∈ s.closing →
    NoClient c fd
  own : s.own = []
  listening : c.serverSocketfd ∉ s.server.kernel.closes →
    c.serverSocketfd ∈ s.server.kernel.openFds
  accepted : ∀ fd ∈ s.accepted, fd ∈ s.server.kernel.openFds ∧ ¬ NoClient c fd

namespace Deserted

/-- No connection is in anybody's hands. -/
theorem not_engaged (h : Deserted c timeout maxSize s) (hfd : c.IsConnection fd) :
    fd ∉ s.engaged := by
  intro hmem
  simp only [engaged, List.mem_append] at hmem
  have htask : ¬ NoClient c fd := fun hno => hno.not_connection hfd
  rcases hmem with ((((hpc | hevent) | hwork) | hserving) | hdeleting) | hclosing
  · rcases h.pc fd hpc with rfl | hpipe
    · exact hfd.2.1 rfl
    · rw [hpipe] at hpc
      exact hfd.2.2 (List.mem_singleton.mp hpc)
  · exact (h.events fd hevent).elim hfd.2.1 hfd.2.2
  · exact htask (h.tasks fd (.inl hwork))
  · exact htask (h.tasks fd (.inr (.inl hserving)))
  · exact htask (h.tasks fd (.inr (.inr (.inl hdeleting))))
  · exact htask (h.tasks fd (.inr (.inr (.inr hclosing))))

theorem not_registered (h : Deserted c timeout maxSize s) (fd : ℤ) :
    ¬ s.server.timer.Registered fd := by
  rw [h.timer]
  simp [Timer.Registered, Timer.new]

/-- An alarm finds nothing to expire. -/
theorem deleteExpiredFd (h : Deserted c timeout maxSize s) :
    s.server.act .deleteExpiredFd = .ok s.server := by
  have hcur : ¬ s.server.timer.curSize > 0 := by
    rw [h.timer]
    exact lt_irrefl _
  exact Timer.deleteExpiredLoop_done hcur

/-- A step of the loop with its descriptors. -/
theorem moves (h : Deserted c timeout maxSize s) (hserver : s'.server = s.server)
    (hevents : ∀ fd ∈ s'.events, fd = c.serverSocketfd ∨ fd = c.pipeRead)
    (hpc : ∀ fd ∈ s'.pc.fds, fd = c.serverSocketfd ∨ s'.pc = .testPipe c.pipeRead)
    (htasks : ∀ fd, fd ∈ s'.workList ∨ fd ∈ s'.serving ∨ fd ∈ s'.deleting ∨ fd ∈ s'.closing →
      NoClient c fd)
    (hown : s'.own = s.own) (haccepted : s'.accepted = s.accepted) :
    Deserted c timeout maxSize s' where
  timer := hserver ▸ h.timer
  unarmed := hserver ▸ h.unarmed
  events := hevents
  pc := hpc
  tasks := htasks
  own := hown.trans h.own
  listening := hserver ▸ h.listening
  accepted := hserver ▸ haccepted ▸ h.accepted

theorem main (h : Deserted c timeout maxSize s) (hstep : MainStep c s s') :
    Deserted c timeout maxSize s' := by
  cases hstep with
  | waits =>
    exact h.moves rfl (by simp) (by simp [MainPc.fds]) h.tasks rfl rfl
  | reads | readAll | skips | setsAlarm | pipe =>
    exact h.moves rfl h.events (by simp [MainPc.fds]) h.tasks rfl rfl
  | listening hpc hevents =>
    refine h.moves rfl ?_ (by simp [MainPc.fds]) h.tasks rfl rfl
    intro fd hfd
    exact h.events fd (by rw [hevents]; exact List.mem_cons_of_mem _ hfd)
  | @other fd events hpc hevents hne =>
    refine h.moves rfl ?_ ?_ h.tasks rfl rfl
    · intro fd' hfd'
      exact h.events fd' (by rw [hevents]; exact List.mem_cons_of_mem _ hfd')
    · intro fd' _
      have hpipe := (h.events fd (by rw [hevents]; exact List.mem_cons_self)).resolve_left hne
      exact .inr (congrArg _ hpipe)
  | @appendsFailed fd hpc =>
    have hfd : fd = c.serverSocketfd := by
      simpa [hpc, MainPc.fds] using h.pc fd (by simp [hpc, MainPc.fds])
    refine h.moves rfl h.events (by simp [MainPc.fds, hfd]) ?_ rfl rfl
    intro fd' hfd'
    simp only [List.mem_append, List.mem_singleton] at hfd'
    rcases hfd' with (hwork | hfail) | hrest
    · exact h.tasks fd' (.inl hwork)
    · exact .inr hfail
    · exact h.tasks fd' (.inr hrest)
  | @notPipe fd hpc hne =>
    have hfd := h.pc fd (by simp [hpc, MainPc.fds])
    have hlisten : fd = c.serverSocketfd := by simpa [hpc, hne] using hfd
    exact h.moves rfl h.events (by simp [MainPc.fds, hlisten]) h.tasks rfl rfl
  | @forbids fd server hpc hact =>
    have hfd : fd = c.serverSocketfd := by
      simpa [hpc, MainPc.fds] using h.pc fd (by simp [hpc, MainPc.fds])
    cases (Timer.forbidenFd_unregistered (h.not_registered fd)).symm.trans hact
    exact h.moves rfl h.events (by simp [MainPc.fds, hfd]) h.tasks rfl rfl
  | @appends fd hpc =>
    have hfd : fd = c.serverSocketfd := by
      simpa [hpc, MainPc.fds] using h.pc fd (by simp [hpc, MainPc.fds])
    refine h.moves rfl h.events (by simp [MainPc.fds]) ?_ rfl rfl
    intro fd' hfd'
    simp only [List.mem_append, List.mem_singleton] at hfd'
    rcases hfd' with (hwork | heq) | hrest
    · exact h.tasks fd' (.inl hwork)
    · exact .inl (heq.trans hfd)
    · exact h.tasks fd' (.inr hrest)
  | expires hpc hact =>
    cases h.deleteExpiredFd.symm.trans hact
    exact h.moves rfl h.events (by simp [MainPc.fds]) h.tasks rfl rfl

/-- A batch has events of the listening socket and the pipe alone. -/
theorem reported (h : Deserted c timeout maxSize s) (hfd : s.Reported c fd) :
    fd = c.serverSocketfd ∨ fd = c.pipeRead := by
  by_contra hnot
  rw [not_or] at hnot
  exact h.unarmed fd (armed_of_reported hnot hfd)

theorem signalHandler (h : Deserted c timeout maxSize s) (sig : UInt8) :
    Deserted c timeout maxSize (s.signalHandler sig) := by
  rw [ServerProcess.signalHandler]
  split_ifs
  · exact h.moves rfl h.events h.pc h.tasks rfl rfl
  · exact h

/-- No thread serves a connection. -/
theorem not_serving (h : Deserted c timeout maxSize s) (hconn : c.IsConnection fd) :
    fd ∉ s.serving := fun hmem => (h.tasks fd (.inr (.inl hmem))).not_connection hconn

theorem step (h : Deserted c timeout maxSize s) (hen : s.enabled c l)
    (hstep : s.step c l = .ok s') : Deserted c timeout maxSize s' := by
  cases l with
  | epollWait events =>
    have hevents : ∀ fd ∈ events, fd = c.serverSocketfd ∨ fd = c.pipeRead :=
      fun fd hfd => h.reported (hen.2.2.2 fd hfd)
    have hnone : events.filter c.IsClient = [] := by
      rw [List.filter_eq_nil_iff]
      intro fd hfd hclient
      exact (hevents fd hfd).elim (of_decide_eq_true hclient).1 (of_decide_eq_true hclient).2
    simp only [ServerProcess.step, hnone] at hstep
    cases hstep
    exact h.moves rfl hevents (by simp [MainPc.fds]) h.tasks rfl rfl
  | main => exact h.main (main_cases hen hstep)
  | accept clientSocketFd =>
    obtain ⟨hpc, hlistening, hpos, hnew⟩ := hen
    cases hstep
    refine ⟨h.timer, h.unarmed, h.events, h.pc, h.tasks, h.own, ?_, ?_⟩
    · intro hcloses
      exact Finset.mem_insert_of_mem (h.listening hcloses)
    · intro fd hfd
      rcases List.mem_append.mp hfd with hmem | hmem
      · obtain ⟨hopen, hno⟩ := h.accepted fd hmem
        exact ⟨Finset.mem_insert_of_mem hopen, hno⟩
      · cases List.mem_singleton.mp hmem
        refine ⟨Finset.mem_insert_self _ _, ?_⟩
        rintro (heq | heq)
        · exact hnew (heq ▸ h.listening hlistening)
        · omega
  | acceptFails =>
    have hpc : s.pc = .accept c.serverSocketfd := hen
    simp only [ServerProcess.step, hpc] at hstep
    cases hstep
    exact h.moves rfl h.events (by simp [MainPc.fds]) h.tasks rfl rfl
  | alarm =>
    cases hstep
    have hunset : Deserted c timeout maxSize { s with alarm := none } :=
      h.moves rfl h.events h.pc h.tasks rfl rfl
    exact hunset.signalHandler SIGALRM
  | kill =>
    cases hstep
    exact h.signalHandler SIGALRM
  | elapse usec =>
    cases hstep
    exact ⟨h.timer, h.unarmed, h.events, h.pc, h.tasks, h.own, h.listening, h.accepted⟩
  | take =>
    cases hwork : s.workList with
    | nil => exact absurd hwork hen
    | cons fd workList =>
      simp only [ServerProcess.step, hwork] at hstep
      cases hstep
      refine h.moves rfl h.events h.pc ?_ rfl rfl
      intro fd' hfd'
      apply h.tasks
      simp only [hwork, List.mem_cons] at hfd' ⊢
      tauto
  | openOwn fd =>
    obtain ⟨⟨fd', hserving, hconn⟩, -⟩ := hen
    exact absurd hserving (h.not_serving hconn)
  | closeOwn fd =>
    have hmem : fd ∈ s.own := hen
    simp [h.own] at hmem
  | keep fd | close fd | leave fd => exact absurd hen.1 (h.not_serving hen.2)
  | raise fd =>
    cases hstep
    refine h.moves rfl h.events h.pc ?_ rfl rfl
    intro fd' hfd'
    have hfd : fd ∈ s.serving := hen
    have herase := List.mem_of_mem_erase (l := s.serving) (a := fd') (b := fd)
    apply h.tasks
    simp only [List.mem_cons] at hfd'
    rcases hfd' with hwork | hserving | (rfl | hdeleting) | hclosing
    · exact .inl hwork
    · exact .inr (.inl (herase hserving))
    · exact .inr (.inl hfd)
    · exact .inr (.inr (.inl hdeleting))
    · exact .inr (.inr (.inr hclosing))
  | deleteFd fd =>
    have hact : s.server.act (.deleteFd fd) = .ok s.server :=
      Timer.deleteFd_unregistered (h.not_registered fd)
    simp only [ServerProcess.step, ServerProcess.perform, hact] at hstep
    cases hstep
    refine h.moves rfl h.events h.pc ?_ rfl rfl
    intro fd' hfd'
    have hfd : fd ∈ s.deleting := hen
    have herase := List.mem_of_mem_erase (l := s.deleting) (a := fd') (b := fd)
    apply h.tasks
    simp only [List.mem_cons] at hfd'
    rcases hfd' with hwork | hserving | hdeleting | (rfl | hclosing)
    · exact .inl hwork
    · exact .inr (.inl hserving)
    · exact .inr (.inr (.inl (herase hdeleting)))
    · exact .inr (.inr (.inl hfd))
    · exact .inr (.inr (.inr hclosing))
  | closeRaised fd =>
    have hfd : fd ∈ s.closing := hen
    have hno := h.tasks fd (.inr (.inr (.inr hfd)))
    cases hstep
    refine ⟨h.timer, ?_, h.events, h.pc, ?_, h.own, ?_, ?_⟩
    · intro fd' harmed
      exact h.unarmed fd' (Server.armed_of_del harmed)
    · intro fd' hfd'
      apply h.tasks
      have herase := List.mem_of_mem_erase (l := s.closing) (a := fd') (b := fd)
      tauto
    · intro hcloses
      simp only [Kernel.close, List.mem_append, List.mem_singleton, not_or] at hcloses
      exact Finset.mem_erase.mpr ⟨hcloses.2, h.listening hcloses.1⟩
    · intro fd' hfd'
      obtain ⟨hopen, hclient⟩ := h.accepted fd' hfd'
      have hne : fd' ≠ fd := fun heq => hclient (heq ▸ hno)
      exact ⟨Finset.mem_erase.mpr ⟨hne, hopen⟩, hclient⟩

theorem of_start (hlisten : c.serverSocketfd ∈ k.openFds) (hempty : ∀ fd, ¬ k.Armed fd) :
    Deserted c timeout maxSize (start ⟨.new timeout maxSize, k⟩) where
  timer := rfl
  unarmed := hempty
  events := by simp [start]
  pc := by simp [start, MainPc.fds]
  tasks := by simp [start]
  own := rfl
  listening _ := hlisten
  accepted := by simp [start]

end Deserted

/-- What the process does for its clients when no connection begins in the epoll instance: none
is ever in anybody's hands, the timer stays new, accepted connections stay open, and no step
fails. -/
theorem serves_nobody (hlisten : c.serverSocketfd ∈ k.openFds) (hempty : ∀ fd, ¬ k.Armed fd)
    (hrun : (serverProcess c).Run (start ⟨.new timeout maxSize, k⟩) as s) :
    (∀ fd, c.IsConnection fd → fd ∉ s.engaged) ∧ s.server.timer = .new timeout maxSize ∧
      (∀ fd ∈ s.accepted, fd ∈ s.server.kernel.openFds) ∧
      ∀ l fault, s.step c l ≠ .error fault := by
  have h : Deserted c timeout maxSize s :=
    hrun.invariant (.of_start hlisten hempty) fun t l t' ht hen hstep => ht.step hen hstep
  refine ⟨fun fd hfd => h.not_engaged hfd, h.timer, fun fd hfd => (h.accepted fd hfd).1, ?_⟩
  intro l fault hfail
  have hrest : Resting c ⟨.new timeout maxSize, k⟩ := .of_new c timeout maxSize k
  rcases (hrest.orderly.run hrun).1.step_eq_error_iff.mp hfail with
    ⟨-, -, -, hdry⟩ | ⟨-, fd, -, hforb⟩
  · have hlt := hdry.2
    rw [h.timer] at hlt
    exact lt_irrefl (0 : ℤ) hlt
  · exact h.not_registered fd (AList.lookup_isSome.mp (Option.isSome_of_eq_some hforb))

/-- A client connects; the tasks of the listening socket raise, and it is closed. -/
theorem serves_nobody_connected : ∃ s, (serverProcess ⟨3, 4⟩).Run
    (start ⟨.new 15 1000, Kernel.boot.openFd 3⟩) [.epollWait [3], .main, .accept 5, .acceptFails,
      .main, .main, .main, .main, .take, .take, .raise 3, .deleteFd 3, .closeRaised 3] s ∧
    s.accepted = [5] ∧ 3 ∉ s.server.kernel.openFds ∧ 5 ∈ s.server.kernel.openFds ∧
    5 ∉ s.engaged := by
  have hex : ∃ s, (serverProcess ⟨3, 4⟩).Run (start ⟨.new 15 1000, Kernel.boot.openFd 3⟩)
      [.epollWait [3], .main, .accept 5, .acceptFails, .main, .main, .main, .main, .take, .take,
        .raise 3, .deleteFd 3, .closeRaised 3] s ∧
      s.accepted = [5] ∧ 3 ∉ s.server.kernel.openFds :=
    System.Run.exists_of_exec (by decide +kernel)
  obtain ⟨s, hrun, haccepted, hclosed⟩ := hex
  have hempty : ∀ fd, ¬ (Kernel.boot.openFd 3).Armed fd := by
    simp [Kernel.Armed, Kernel.boot, Kernel.openFd]
  obtain ⟨hnone, -, hopen, -⟩ := serves_nobody (by decide) hempty hrun
  exact ⟨s, hrun, haccepted, hclosed, hopen 5 (by simp [haccepted]), hnone 5 (by decide)⟩

end ServerProcess
end LxcHttpServer
