import LxcHttpServer.ProcessSteps

/-!
# A pass of the loop in the process

When no thread and no signal comes between, the process handles a batch of events as a pass of
the loop does: it accepts what waits, appends the same tasks and lets the timer forbid and expire
the same entries.
-/
namespace LxcHttpServer
open IteratorLists MainState PartialRuns

/-- `accept` can return these descriptors one after the other. -/
def Acceptable : List ℤ → Kernel → Prop
  | [], _ => True
  | fd :: fds, k => 0 ≤ fd ∧ fd ∉ k.openFds ∧ Acceptable fds (k.openFd fd)

instance : ∀ fds k, Decidable (Acceptable fds k)
  | [], _ => inferInstanceAs (Decidable True)
  | fd :: fds, k =>
    have : Decidable (Acceptable fds (k.openFd fd)) := instDecidableAcceptable fds (k.openFd fd)
    inferInstanceAs (Decidable (0 ≤ fd ∧ fd ∉ k.openFds ∧ Acceptable fds (k.openFd fd)))

/-- What the loop finds behind an event: an open socket with clients that wait, or bytes in the
pipe. -/
structure ReadyEvent (c : Sockets) (m : MainState) (fd : ℤ) : Prop where
  listening : fd = c.serverSocketfd → c.serverSocketfd ∉ m.server.kernel.closes ∧
    Acceptable m.backlog m.server.kernel
  pipe : fd = c.pipeRead → m.signals ≠ []

instance (c : Sockets) (m : MainState) (fd : ℤ) : Decidable (ReadyEvent c m fd) :=
  decidable_of_iff ((fd = c.serverSocketfd → c.serverSocketfd ∉ m.server.kernel.closes ∧
    Acceptable m.backlog m.server.kernel) ∧ (fd = c.pipeRead → m.signals ≠ []))
    ⟨fun h => ⟨h.1, h.2⟩, fun h => ⟨h.listening, h.pipe⟩⟩

namespace ServerProcess

variable {c : Sockets} {s : ServerProcess} {m m' : MainState} {fd : ℤ} {events rest : List ℤ}

/-- The process and the pass are in the same state. -/
structure Matches (s : ServerProcess) (m : MainState) : Prop where
  server : s.server = m.server
  signals : s.signals = m.signals
  workList : s.workList = m.tasks

/-- The process is at a place of the loop with events left, in the state of the pass. -/
structure At (pc : MainPc) (events : List ℤ) (m : MainState) (s : ServerProcess) : Prop
    extends Matches s m where
  pc : s.pc = pc
  events : s.events = events

/-- From such a place the process can come to another. -/
def Gets (c : Sockets) (pc : MainPc) (m : MainState) (pc' : MainPc) (m' : MainState) : Prop :=
  ∀ s events, At pc events m s → ∃ ls s', (serverProcess c).Run s ls s' ∧ At pc' events m' s'

theorem Gets.trans {pc pc' pc'' : MainPc} {m'' : MainState} (h : Gets c pc m pc' m')
    (h' : Gets c pc' m' pc'' m'') : Gets c pc m pc'' m'' := by
  intro s events hs
  obtain ⟨ls, t, hrun, ht⟩ := h s events hs
  obtain ⟨ls', u, hrun', hu⟩ := h' t events ht
  exact ⟨ls ++ ls', u, hrun.append hrun', hu⟩

theorem gets_accepts (hcloses : c.serverSocketfd ∉ m.server.kernel.closes)
    (hfds : Acceptable m.backlog m.server.kernel) :
    Gets c (.accept c.serverSocketfd) m (.testPipe c.serverSocketfd)
      (handleListening c c.serverSocketfd m) := by
  intro s events hs
  rw [handleListening, if_pos rfl]
  generalize hbacklog : m.backlog = backlog at hfds
  induction backlog generalizing m s with
  | nil =>
    have hen : s.enabled c .acceptFails := hs.pc
    have hfail : (serverProcess c).Run s [.acceptFails]
        { s with pc := .appendAccepted c.serverSocketfd } := by
      refine .single hen ?_
      simp [serverProcess, step, hs.pc]
    have happend : (serverProcess c).Run { s with pc := .appendAccepted c.serverSocketfd } [.main]
        { s with pc := .testPipe c.serverSocketfd, workList := s.workList ++ [-1] } :=
      .single trivial rfl
    refine ⟨_, _, hfail.append happend, ⟨⟨?_, hs.signals, ?_⟩, rfl, hs.events⟩⟩
    · simp [appendFd, acceptLoop, hs.server]
    · simp [appendFd, acceptLoop, hs.workList]
  | cons fd backlog ih =>
    obtain ⟨hpos, hnew, hfds⟩ := hfds
    have hen : s.enabled c (.accept fd) := by
      refine ⟨hs.pc, ?_, hpos, ?_⟩
      · rw [hs.server]
        exact hcloses
      · rw [hs.server]
        exact hnew
    have hstep : (serverProcess c).Run s [.accept fd]
        { s with
          server := { s.server with kernel := s.server.kernel.openFd fd }
          accepted := s.accepted ++ [fd]
          actions := s.actions ++ [.accept fd] } := .single hen rfl
    have hat : At (.accept c.serverSocketfd) events
        { m with
          server := { m.server with kernel := m.server.kernel.openFd fd }
          backlog := backlog }
        { s with
          server := { s.server with kernel := s.server.kernel.openFd fd }
          accepted := s.accepted ++ [fd]
          actions := s.actions ++ [.accept fd] } :=
      ⟨⟨by simp [hs.server], hs.signals, hs.workList⟩, hs.pc, hs.events⟩
    obtain ⟨ls, t, hrun, ht⟩ := ih (m := { m with
      server := { m.server with kernel := m.server.kernel.openFd fd }
      backlog := backlog }) hcloses _ hat rfl hfds
    refine ⟨_, t, hstep.append hrun, ?_⟩
    simpa [hbacklog, acceptLoop, appendFd] using ht

theorem gets_signals {signals : List UInt8} {server : Server}
    (hsignals : handleSignals signals m.server = .ok server) :
    Gets c (.signal signals) m .event { m with server := server } := by
  intro s events hs
  induction signals generalizing m s with
  | nil =>
    cases hsignals
    have hready : s.MainReady := by simp [MainReady, hs.pc]
    refine ⟨[.main], { s with pc := .event }, .single hready ?_, ⟨⟨hs.server, hs.signals,
      hs.workList⟩, rfl, hs.events⟩⟩
    simp [serverProcess, step, main, hs.pc]
  | cons signal signals ih =>
    have hready : s.MainReady := by simp [MainReady, hs.pc]
    simp only [handleSignals] at hsignals
    split_ifs at hsignals with hsignal
    · cases hexpire : Timer.deleteExpiredFd m.server with
      | error fault => simp [hexpire] at hsignals
      | ok expired =>
        simp only [hexpire] at hsignals
        have hact : s.server.act .deleteExpiredFd = .ok expired := by
          rw [hs.server]
          exact hexpire
        have hstep : (serverProcess c).Run s [.main]
            { s.after expired .deleteExpiredFd with pc := .alarm signals } := by
          refine .single hready ?_
          simp [serverProcess, step, main, hs.pc, hsignal, perform, hact, after]
        have halarm : (serverProcess c).Run
            { s.after expired .deleteExpiredFd with pc := .alarm signals } [.main]
            { s.after expired .deleteExpiredFd with
              pc := .signal signals
              alarm := some (expired.kernel.clock + 1000000) } := .single trivial rfl
        have hat : At (.signal signals) events { m with server := expired }
            { s.after expired .deleteExpiredFd with
              pc := .signal signals
              alarm := some (expired.kernel.clock + 1000000) } :=
          ⟨⟨rfl, hs.signals, hs.workList⟩, rfl, hs.events⟩
        obtain ⟨ls, t, hrun, ht⟩ := ih hsignals _ hat
        exact ⟨_, t, (hstep.append halarm).append hrun, ht⟩
    · have hstep : (serverProcess c).Run s [.main] { s with pc := .signal signals } := by
        refine .single hready ?_
        simp [serverProcess, step, main, hs.pc, hsignal]
      have hat : At (.signal signals) events m { s with pc := .signal signals } :=
        ⟨⟨hs.server, hs.signals, hs.workList⟩, rfl, hs.events⟩
      obtain ⟨ls, t, hrun, ht⟩ := ih hsignals _ hat
      exact ⟨_, t, hstep.append hrun, ht⟩

theorem gets_other (hpipe : fd = c.pipeRead → m.signals ≠ [])
    (hother : handleOther c fd m = .ok m') : Gets c (.testPipe fd) m .event m' := by
  intro s events hs
  have hready : s.MainReady := by simp [MainReady, hs.pc]
  simp only [handleOther] at hother
  split_ifs at hother with hfd
  · cases hforbid : Timer.forbidenFd fd m.server with
    | error fault => simp [hforbid] at hother
    | ok server =>
      simp only [hforbid] at hother
      cases hother
      have hact : s.server.act (.forbidenFd fd) = .ok server := by
        rw [hs.server]
        exact hforbid
      have htest : (serverProcess c).Run s [.main] { s with pc := .forbidenFd fd } := by
        refine .single hready ?_
        simp [serverProcess, step, main, hs.pc, hfd]
      have hstep : (serverProcess c).Run { s with pc := .forbidenFd fd } [.main]
          { s.after server (.forbidenFd fd) with pc := .appendFd fd } := by
        refine .single trivial ?_
        simp [serverProcess, step, main, perform, hact, after]
      have happend : (serverProcess c).Run
          { s.after server (.forbidenFd fd) with pc := .appendFd fd } [.main]
          { s.after server (.forbidenFd fd) with
            pc := .event
            workList := s.workList ++ [fd] } := .single trivial rfl
      refine ⟨_, _, (htest.append hstep).append happend, ⟨⟨rfl, hs.signals, ?_⟩, rfl,
        hs.events⟩⟩
      simp [appendFd, hs.workList]
  · cases hread : handleSignals (m.signals.take 128) m.server with
    | error fault => simp [hread] at hother
    | ok server =>
      simp only [hread] at hother
      cases hother
      have hne : s.signals ≠ [] := by
        rw [hs.signals]
        exact hpipe (not_not.mp hfd)
      have htest : (serverProcess c).Run s [.main] { s with pc := .read } := by
        refine .single hready ?_
        simp [serverProcess, step, main, hs.pc, hfd]
      have hstep : (serverProcess c).Run { s with pc := .read } [.main]
          { s with pc := .signal (m.signals.take 128), signals := m.signals.drop 128 } := by
        refine .single hne ?_
        simp [serverProcess, step, main, hs.signals]
      have hat : At (.signal (m.signals.take 128)) events
          { m with signals := m.signals.drop 128 }
          { s with pc := .signal (m.signals.take 128), signals := m.signals.drop 128 } :=
        ⟨⟨hs.server, rfl, hs.workList⟩, rfl, hs.events⟩
      obtain ⟨ls, t, hrun, ht⟩ :=
        gets_signals (m := { m with signals := m.signals.drop 128 }) hread _ events hat
      exact ⟨_, t, (htest.append hstep).append hrun, ht⟩

theorem handleEvent_in_process (hready : ReadyEvent c m fd) (hevent : handleEvent c m fd = .ok m')
    (hs : At .event (fd :: rest) m s) :
    ∃ ls s', (serverProcess c).Run s ls s' ∧ At .event rest m' s' := by
  have hmain : s.MainReady := by simp [MainReady, hs.pc]
  by_cases hlisten : fd = c.serverSocketfd
  · subst hlisten
    have hstep : (serverProcess c).Run s [.main]
        { s with pc := .accept c.serverSocketfd, events := rest } := by
      refine .single hmain ?_
      simp [serverProcess, step, main, hs.pc, hs.events]
    obtain ⟨hcloses, hfds⟩ := hready.listening rfl
    have hsignals : (handleListening c c.serverSocketfd m).signals = m.signals := by
      simp [handleListening, appendFd]
    have hat : At (.accept c.serverSocketfd) rest m
        { s with pc := .accept c.serverSocketfd, events := rest } :=
      ⟨⟨hs.server, hs.signals, hs.workList⟩, rfl, rfl⟩
    have hother := gets_other (hsignals ▸ hready.pipe) hevent
    obtain ⟨ls, t, hrun, ht⟩ := ((gets_accepts hcloses hfds).trans hother) _ rest hat
    exact ⟨_, t, hstep.append hrun, ht⟩
  · have hstep : (serverProcess c).Run s [.main]
        { s with pc := .testPipe fd, events := rest } := by
      refine .single hmain ?_
      simp [serverProcess, step, main, hs.pc, hs.events, hlisten]
    have hother : handleOther c fd m = .ok m' := by
      simpa [handleEvent, handleListening, hlisten] using hevent
    have hat : At (.testPipe fd) rest m { s with pc := .testPipe fd, events := rest } :=
      ⟨⟨hs.server, hs.signals, hs.workList⟩, rfl, rfl⟩
    obtain ⟨ls, t, hrun, ht⟩ := gets_other hready.pipe hother _ rest hat
    exact ⟨_, t, hstep.append hrun, ht⟩

/-- What a pass does with a batch, the process does when nothing comes between its steps. -/
theorem pass_in_process (hpass : handleEvents c events m = .ok m')
    (hready : (eventLoop c).Meets (ReadyEvent c) m events) (hs : At .event events m s) :
    ∃ ls s', (serverProcess c).Run s ls s' ∧ At .event [] m' s' := by
  have hrun := System.Run.restrict_iff.mpr ⟨handleEvents_eq_ok_iff.mp hpass, hready⟩
  have hgeneral : ∀ rest, At .event (events ++ rest) m s →
      ∃ ls s', (serverProcess c).Run s ls s' ∧ At .event rest m' s' := by
    clear hpass hready hs
    induction hrun with
    | nil => exact fun rest hs => ⟨[], s, .nil, hs⟩
    | snoc run enabled step ih =>
      intro rest hs
      rw [List.append_assoc] at hs
      obtain ⟨ls, t, hrun, ht⟩ := ih _ hs
      obtain ⟨ls', t', hrun', ht'⟩ := handleEvent_in_process enabled.2 step ht
      exact ⟨ls ++ ls', t', hrun.append hrun', ht'⟩
  exact hgeneral [] (by simpa using hs)

/-- A batch with a client, an alarm and a new client. -/
theorem pass_in_process_batch : ∃ server m' ls s',
    handleEvents ⟨3, 4⟩ [5, 4, 3] ⟨server, [7], [SIGALRM], []⟩ = .ok m' ∧
    m'.tasks = [5, -1, 3] ∧
    (serverProcess ⟨3, 4⟩).Run { start server with
      pc := .event
      events := [5, 4, 3]
      signals := [SIGALRM] } ls s' ∧ At .event [] m' s' := by
  have hex : ∃ server, serverOrder.Run ⟨.new 15 1000, .boot⟩
      [.accept 5, .addfd 5, .accept 6, .addfd 6, .deliver 5] server ∧
      (((eventLoop ⟨3, 4⟩).restrict (ReadyEvent ⟨3, 4⟩)).exec ⟨server, [7], [SIGALRM], []⟩
        [5, 4, 3]).any fun m => m.tasks = [5, -1, 3] :=
    System.Run.exists_of_exec (by decide +kernel)
  obtain ⟨server, -, hexec⟩ := hex
  obtain ⟨m', hrun, htasks⟩ := System.Run.exists_of_exec hexec
  obtain ⟨hrun, hready⟩ := System.Run.restrict_iff.mp hrun
  have hpass := handleEvents_eq_ok_iff.mpr hrun
  have hat : At .event [5, 4, 3] ⟨server, [7], [SIGALRM], []⟩ { start server with
      pc := .event
      events := [5, 4, 3]
      signals := [SIGALRM] } := ⟨⟨rfl, rfl, rfl⟩, rfl, rfl⟩
  obtain ⟨ls, s', hls, hs'⟩ := pass_in_process hpass hready hat
  exact ⟨server, m', ls, s', hpass, htasks, hls, hs'⟩

end ServerProcess
end LxcHttpServer
