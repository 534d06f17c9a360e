import LxcHttpServer.ProcessRuns

/-!
# The alarm goes on

The alarm is handed on between the kernel, the pipe and the loop: it is set, or its byte is in the
pipe or among the bytes that were read, or it is about to be set again. A full pipe drops the
byte of a signal, but then it holds others. So the process never comes to a state from which the
timer is not asked to expire its entries any more.
-/
namespace LxcHttpServer
open IteratorLists PartialRuns

namespace Server

/-- No call turns back the clock. -/
theorem clock_le_of_act {s s' : Server} {a : Action} (hact : s.act a = .ok s') :
    s.kernel.clock ≤ s'.kernel.clock := by
  rcases act_cases hact with ⟨fd, rfl, rfl⟩ | ⟨fd, rfl, hs⟩ | ⟨fd, rfl, hs⟩ | ⟨rfl, hs⟩ |
    ⟨k, hclock, rfl⟩
  · rw [Timer.addfd_eq]
    split_ifs
    · exact le_refl _
    · simp [Timer.accepted]
  · rw [Timer.forbidenFd_kernel hs]
  · rcases Timer.deleteFd_eq_ok hs with ⟨-, rfl⟩ | ⟨id, -, -, rfl⟩
    · exact le_refl _
    · simp [Timer.dropped, Kernel.deleteFdFromEpoll]
  · obtain ⟨ns, rfl⟩ := Timer.exists_expireAll hs
    exact (Timer.clock_expireAll ns s).ge
  · exact hclock

theorem clock_deliverAll (fds : List ℤ) (s : Server) :
    (s.deliverAll fds).kernel.clock = s.kernel.clock := by
  induction fds generalizing s with
  | nil => rfl
  | cons fd fds ih => exact ih _

end Server

namespace MainPc

/-- The bytes that were read and that the loop has not come to. -/
def signals : MainPc → List UInt8
  | .signal signals | .alarm signals => signals
  | _ => []

/-- The entries have been expired, and `alarm(1)` comes next. -/
def Expired (pc : MainPc) : Prop := ∃ signals, pc = .alarm signals

end MainPc

namespace ServerProcess

variable {c : Sockets} {s s' : ServerProcess} {server : Server} {a : Action} {as : List Label}

def AlarmOn (s : ServerProcess) : Prop :=
  (∃ t ∈ s.alarm, t ≤ s.server.kernel.clock + 1000000) ∨ SIGALRM ∈ s.signals ∨
    SIGALRM ∈ s.pc.signals ∨ s.pc.Expired

structure Ticking (s : ServerProcess) : Prop where
  on : s.AlarmOn
  pipe : ∀ signal ∈ s.signals, signal = SIGALRM
  read : ∀ signal ∈ s.pc.signals, signal = SIGALRM

/-- A step that leaves the alarm, the pipe and the bytes that were read. -/
theorem Ticking.goes_on (h : s.Ticking) (halarm : s'.alarm = s.alarm)
    (hsignals : s'.signals = s.signals) (hread : s'.pc.signals = s.pc.signals)
    (hexpired : s.pc.Expired → s'.pc.Expired)
    (hclock : s.server.kernel.clock ≤ s'.server.kernel.clock) : s'.Ticking := by
  refine ⟨?_, hsignals ▸ h.pipe, hread ▸ h.read⟩
  rcases h.on with ⟨t, ht, hle⟩ | hpipe | hmem | hexp
  · exact .inl ⟨t, halarm ▸ ht, by omega⟩
  · exact .inr (.inl (hsignals ▸ hpipe))
  · exact .inr (.inr (.inl (hread ▸ hmem)))
  · exact .inr (.inr (.inr (hexpired hexp)))

theorem Ticking.perform (h : s.Ticking) (hstep : s.perform a = .ok s') : s'.Ticking := by
  obtain ⟨server, hact, rfl⟩ := perform_eq_ok.mp hstep
  exact h.goes_on rfl rfl rfl id (Server.clock_le_of_act hact)

/-- Whatever becomes of the byte of an alarm, there is one in the pipe. -/
theorem Ticking.signalHandler (hpipe : ∀ signal ∈ s.signals, signal = SIGALRM)
    (hread : ∀ signal ∈ s.pc.signals, signal = SIGALRM) : (s.signalHandler SIGALRM).Ticking := by
  rw [ServerProcess.signalHandler]
  split_ifs with hroom
  · refine ⟨.inr (.inl (by simp)), ?_, hread⟩
    intro signal hmem
    rcases List.mem_append.mp hmem with hmem | hmem
    · exact hpipe signal hmem
    · exact List.mem_singleton.mp hmem
  · refine ⟨.inr (.inl ?_), hpipe, hread⟩
    have hne : s.signals ≠ [] := by
      intro hnil
      simp [hnil, PIPE_CAPACITY] at hroom
    obtain ⟨signal, hmem⟩ := List.exists_mem_of_ne_nil _ hne
    exact hpipe signal hmem ▸ hmem

theorem Ticking.main (h : s.Ticking) (hstep : MainStep c s s') : s'.Ticking := by
  cases hstep with
  | waits hpc | listening hpc | other hpc | appendsFailed hpc | notPipe hpc | pipe hpc
  | appends hpc | readAll hpc =>
    exact h.goes_on rfl rfl (by simp [MainPc.signals, hpc]) (by simp [MainPc.Expired, hpc])
      (le_refl _)
  | forbids hpc hact =>
    exact h.goes_on rfl rfl (by simp [MainPc.signals, hpc]) (by simp [MainPc.Expired, hpc])
      (Server.clock_le_of_act hact)
  | reads hpc hsignals =>
    obtain ⟨signal, signals, heq⟩ := List.exists_cons_of_ne_nil hsignals
    have hfirst : signal = SIGALRM := h.pipe signal (by simp [heq])
    refine ⟨.inr (.inr (.inl ?_)), ?_, ?_⟩
    · simp [MainPc.signals, heq, hfirst]
    · exact fun signal hmem => h.pipe signal (List.mem_of_mem_drop hmem)
    · exact fun signal hmem => h.pipe signal (List.mem_of_mem_take hmem)
  | expires hpc hact =>
    refine ⟨.inr (.inr (.inr ⟨_, rfl⟩)), h.pipe, ?_⟩
    intro signal hmem
    apply h.read
    rw [hpc]
    exact List.mem_cons_of_mem _ hmem
  | skips hpc hsignal => exact absurd (h.read _ (by simp [MainPc.signals, hpc])) hsignal
  | setsAlarm hpc =>
    refine ⟨.inl ⟨_, rfl, le_refl _⟩, h.pipe, ?_⟩
    intro signal hmem
    apply h.read
    rw [hpc]
    exact hmem

theorem Ticking.step {l : Label} (h : s.Ticking) (hen : s.enabled c l)
    (hstep : s.step c l = .ok s') : s'.Ticking := by
  cases l with
  | epollWait events =>
    simp only [ServerProcess.step, performAll_deliver] at hstep
    cases hstep
    have hpc : s.pc = .epollWait := hen.1
    exact h.goes_on rfl rfl (by simp [delivered, MainPc.signals, hpc])
      (by simp [MainPc.Expired, hpc]) (Server.clock_deliverAll _ _).ge
  | main => exact h.main (main_cases hen hstep)
  | acceptFails =>
    have hpc : s.pc = .accept c.serverSocketfd := hen
    simp only [ServerProcess.step, hpc] at hstep
    cases hstep
    exact h.goes_on rfl rfl (by simp [MainPc.signals, hpc]) (by simp [MainPc.Expired, hpc])
      (le_refl _)
  | alarm =>
    cases hstep
    exact .signalHandler h.pipe h.read
  | kill =>
    cases hstep
    exact .signalHandler h.pipe h.read
  | take =>
    cases hwork : s.workList with
    | nil => exact absurd hwork hen
    | cons fd workList =>
      simp only [ServerProcess.step, hwork] at hstep
      cases hstep
      exact h.goes_on rfl rfl rfl id (le_refl _)
  | leave fd | raise fd =>
    cases hstep
    exact h.goes_on rfl rfl rfl id (le_refl _)
  | elapse usec => exact h.perform (a := .elapse usec) hstep
  | accept | openOwn | closeOwn | keep | close | deleteFd | closeRaised =>
    simp only [ServerProcess.step] at hstep
    refine Ticking.perform ?_ hstep
    exact h.goes_on rfl rfl rfl id (le_refl _)

theorem Ticking.run (h : s.Ticking) (hrun : (serverProcess c).Run s as s') : s'.Ticking := by
  induction hrun with
  | nil => exact h
  | snoc run enabled step ih => exact ih.step enabled step

theorem Ticking.of_start (server : Server) : (start server).Ticking where
  on := .inl ⟨_, rfl, le_refl _⟩
  pipe := by simp [start]
  read := by simp [start, MainPc.signals]

/-- In a run of the process the alarm is set for the next second at the latest, or has gone off
and not been forgotten. -/
theorem alarm_on (hrun : (serverProcess c).Run (start server) as s) : s.AlarmOn :=
  ((Ticking.of_start server).run hrun).on

/-- The alarm has just gone off, and the byte is in the pipe. -/
theorem alarm_on_rung : ∃ s, (serverProcess ⟨3, 4⟩).Run (start ⟨.new 15 1000, .boot⟩)
    [.elapse 1000000, .alarm] s ∧ s.alarm = none ∧ s.AlarmOn := by
  have hex : ∃ s, (serverProcess ⟨3, 4⟩).Run (start ⟨.new 15 1000, .boot⟩)
      [.elapse 1000000, .alarm] s ∧ s.alarm = none :=
    System.Run.exists_of_exec (by decide +kernel)
  obtain ⟨s, hrun, halarm⟩ := hex
  exact ⟨s, hrun, halarm, alarm_on hrun⟩

end ServerProcess

namespace MainPc

/-- How many steps the loop can be from taking the next event. -/
def rank : MainPc → ℕ
  | .epollWait => 0
  | .event => 1
  | .signal _ => 2
  | .appendFd _ | .alarm _ => 3
  | .forbidenFd _ | .read => 4
  | .testPipe _ => 5
  | .appendAccepted _ => 6
  | .accept _ => 7

end MainPc

namespace ServerProcess

variable {c : Sockets} {s s' : ServerProcess} {server : Server} {as : List Label}

/-- The steps of the loop before it waits for the next batch, and for an alarm if there is
none. -/
def rank (s : ServerProcess) : ℕ :=
  2 * (7 * s.events.length + s.pc.rank) + if s.signals = [] then 1 else 0

theorem MainStep.rank_lt (h : s.Ticking) (hnot : ¬ s.AtAlarm) (hstep : MainStep c s s') :
    s'.AtAlarm ∨ s'.rank < s.rank := by
  cases hstep with
  | reads hpc hsignals =>
    left
    obtain ⟨signal, signals, heq⟩ := List.exists_cons_of_ne_nil hsignals
    have hfirst : signal = SIGALRM := h.pipe signal (by simp [heq])
    exact ⟨signals.take 127, by simp [heq, hfirst]⟩
  | expires hpc => exact absurd ⟨_, hpc⟩ hnot
  | skips hpc hsignal => exact absurd (h.read _ (by simp [MainPc.signals, hpc])) hsignal
  | waits hpc hevents | listening hpc hevents | other hpc hevents =>
    right
    simp only [rank, hpc, hevents, MainPc.rank, List.length_nil, List.length_cons]
    omega
  | appendsFailed hpc | notPipe hpc | pipe hpc | forbids hpc | appends hpc | readAll hpc
  | setsAlarm hpc =>
    right
    simp only [rank, hpc, MainPc.rank, after]
    omega

/-- No event comes up but that of the pipe. -/
def Label.Undisturbed (c : Sockets) : Label → Prop
  | .epollWait events => events = [c.pipeRead]
  | _ => True

/-- The process as long as no socket has an event. -/
def undisturbed (c : Sockets) : System ServerProcess Label IteratorFault :=
  (serverProcess c).restrict fun _ l => l.Undisturbed c

/-- The same state later. -/
def later (usec : ℕ) (s : ServerProcess) : ServerProcess :=
  s.after { s.server with kernel := s.server.kernel.elapse usec } (.elapse usec)

/-- Without a byte in the pipe the alarm is still to go off. -/
theorem Ticking.rings (h : s.Ticking) (hsignals : s.signals = []) (hread : s.pc.signals = [])
    (hexpired : ¬ s.pc.Expired) : ∃ s', (undisturbed c).Run s [.elapse 1000000, .alarm] s' ∧
      s'.rank < s.rank := by
  have hset : ∃ t ∈ s.alarm, t ≤ s.server.kernel.clock + 1000000 := by
    rcases h.on with hset | hpipe | hmem | hexp
    · exact hset
    · simp [hsignals] at hpipe
    · simp [hread] at hmem
    · exact absurd hexp hexpired
  have helapse : (undisturbed c).Run s [.elapse 1000000] (s.later 1000000) :=
    .single ⟨trivial, trivial⟩ rfl
  have halarm : (undisturbed c).enabled (s.later 1000000) .alarm := ⟨hset, trivial⟩
  refine ⟨_, helapse.snoc halarm rfl, ?_⟩
  simp [ServerProcess.signalHandler, later, after, rank, hsignals, PIPE_CAPACITY]

/-- With a byte in the pipe the loop reads it in the next batch. -/
theorem Ticking.wakes (h : s.Ticking) (hne : c.pipeRead ≠ c.serverSocketfd)
    (hpc : s.pc = .epollWait) (hsignals : s.signals ≠ []) :
    ∃ s', (undisturbed c).Run s [.epollWait [c.pipeRead], .main, .main, .main] s' ∧
      s'.AtAlarm := by
  have hwait : (undisturbed c).Run s [.epollWait [c.pipeRead]]
      { s with pc := .event, events := [c.pipeRead] } := by
    refine .single ⟨⟨hpc, by simp, by simp, ?_⟩, rfl⟩ ?_
    · simp [Reported, hne, hsignals]
    · simp [undisturbed, serverProcess, System.restrict, ServerProcess.step, performAll,
        Sockets.IsClient]
  have hother : (undisturbed c).Run { s with pc := .event, events := [c.pipeRead] } [.main]
      { s with pc := .testPipe c.pipeRead, events := [] } := by
    refine .single ⟨trivial, trivial⟩ ?_
    simp [undisturbed, serverProcess, System.restrict, ServerProcess.step, ServerProcess.main, hne]
  have hpipe : (undisturbed c).Run { s with pc := .testPipe c.pipeRead, events := [] } [.main]
      { s with pc := .read, events := [] } := by
    refine .single ⟨trivial, trivial⟩ ?_
    simp [undisturbed, serverProcess, System.restrict, ServerProcess.step, ServerProcess.main]
  have hread : (undisturbed c).Run { s with pc := .read, events := [] } [.main]
      { s with pc := .signal (s.signals.take 128), events := [], signals := s.signals.drop 128 } :=
    .single ⟨hsignals, trivial⟩ rfl
  refine ⟨_, ((hwait.append hother).append hpipe).append hread, ?_⟩
  obtain ⟨signal, signals, heq⟩ := List.exists_cons_of_ne_nil hsignals
  have hfirst : signal = SIGALRM := h.pipe signal (by simp [heq])
  exact ⟨signals.take 127, by simp [heq, hfirst]⟩

/-- `main` calls `accept` on the listening socket. -/
theorem accepts_listening {l : Label} (h : ∀ fd, s.pc = .accept fd → fd = c.serverSocketfd)
    (hen : s.enabled c l) (hstep : s.step c l = .ok s') :
    ∀ fd, s'.pc = .accept fd → fd = c.serverSocketfd := by
  cases l with
  | main =>
    cases main_cases hen hstep with
    | listening =>
      intro fd heq
      cases heq
      rfl
    | waits | other | appendsFailed | notPipe | pipe | forbids | appends | reads | readAll
    | expires | skips | setsAlarm => simp
  | epollWait events =>
    simp only [ServerProcess.step, performAll_deliver] at hstep
    cases hstep
    simp [delivered]
  | acceptFails =>
    have hpc : s.pc = .accept c.serverSocketfd := hen
    simp only [ServerProcess.step, hpc] at hstep
    cases hstep
    simp
  | alarm | kill =>
    cases hstep
    simp only [signalHandler]
    split_ifs <;> exact h
  | take =>
    simp only [ServerProcess.step] at hstep
    split at hstep <;> cases hstep <;> exact h
  | leave | raise =>
    cases hstep
    exact h
  | accept | elapse | openOwn | closeOwn | keep | close | deleteFd | closeRaised =>
    simp only [ServerProcess.step] at hstep
    obtain ⟨server, -, rfl⟩ := perform_eq_ok.mp hstep
    exact h

/-- What the way to the next alarm rests on. -/
structure Going (c : Sockets) (s : ServerProcess) : Prop where
  orderly : Orderly c s
  ticking : s.Ticking
  accepts : ∀ fd, s.pc = .accept fd → fd = c.serverSocketfd

theorem Going.run (h : Going c s) (hrun : (serverProcess c).Run s as s') : Going c s' := by
  refine ⟨(h.orderly.run hrun).1, h.ticking.run hrun, ?_⟩
  exact hrun.invariant h.accepts fun t l t' ht hen hstep => accepts_listening ht hen hstep

/-- Where `main` does not wait, it is at an alarm or comes closer to one. -/
theorem Going.main (h : Going c s) (hready : s.MainReady) (hnot : ¬ s.AtAlarm) :
    ∃ s', (undisturbed c).Run s [.main] s' ∧ (s'.AtAlarm ∨ s'.rank < s.rank) := by
  cases hmain : s.main c with
  | error fault =>
    have hfault := h.orderly.main_eq_error_iff.mp hmain
    exact absurd hfault.2.1 hnot
  | ok s' =>
    exact ⟨s', .single ⟨hready, trivial⟩ hmain, (main_cases hready hmain).rank_lt h.ticking hnot⟩

theorem Going.progress (h : Going c s) (hne : c.pipeRead ≠ c.serverSocketfd)
    (hnot : ¬ s.AtAlarm) : ∃ bs s', (undisturbed c).Run s bs s' ∧
      (s'.AtAlarm ∨ s'.rank < s.rank) := by
  by_cases hready : s.MainReady
  · obtain ⟨s', hrun, hs'⟩ := h.main hready hnot
    exact ⟨_, s', hrun, hs'⟩
  · cases hpc : s.pc with
    | epollWait =>
      by_cases hsignals : s.signals = []
      · obtain ⟨s', hrun, hlt⟩ := h.ticking.rings (c := c) hsignals
          (by simp [MainPc.signals, hpc]) (by simp [MainPc.Expired, hpc])
        exact ⟨_, s', hrun, .inr hlt⟩
      · obtain ⟨s', hrun, halarm⟩ := h.ticking.wakes hne hpc hsignals
        exact ⟨_, s', hrun, .inl halarm⟩
    | accept fd =>
      cases h.accepts fd hpc
      refine ⟨[.acceptFails], { s with pc := .appendAccepted c.serverSocketfd }, ?_, .inr ?_⟩
      · exact .single ⟨hpc, trivial⟩ (by
          simp [undisturbed, serverProcess, System.restrict, ServerProcess.step, hpc])
      · simp only [rank, hpc, MainPc.rank]
        omega
    | read =>
      have hsignals : s.signals = [] := by simpa [MainReady, hpc] using hready
      obtain ⟨s', hrun, hlt⟩ := h.ticking.rings (c := c) hsignals
        (by simp [MainPc.signals, hpc]) (by simp [MainPc.Expired, hpc])
      exact ⟨_, s', hrun, .inr hlt⟩
    | event | appendAccepted | testPipe | forbidenFd | appendFd | signal | alarm =>
      simp [MainReady, hpc] at hready

/-- The next alarm comes also if no socket has an event. -/
theorem Going.reaches_alarm (h : Going c s) (hne : c.pipeRead ≠ c.serverSocketfd) :
    ∃ bs t, (undisturbed c).Run s bs t ∧ t.AtAlarm := by
  have hgoes : ∀ t, Going c t → ¬ t.AtAlarm → ∃ bs t', (undisturbed c).Run t bs t' ∧
      Going c t' ∧ (t'.AtAlarm ∨ t'.rank < t.rank) := by
    intro t ht hnot
    obtain ⟨bs, t', hbs, hlt⟩ := ht.progress hne hnot
    exact ⟨bs, t', hbs, ht.run hbs.of_restrict, hlt⟩
  obtain ⟨bs, t, hbs, -, halarm⟩ := System.Run.exists_of_progress rank hgoes h
  exact ⟨bs, t, hbs, halarm⟩

theorem Resting.going (h : Resting c server) : Going c (start server) :=
  ⟨h.orderly, .of_start server, by simp [start]⟩

/-- Wherever a run of the process has come, it can go on to the next alarm. -/
theorem exists_alarm (hne : c.pipeRead ≠ c.serverSocketfd) (hrest : Resting c server)
    (hrun : (serverProcess c).Run (start server) as s) :
    ∃ bs t, (serverProcess c).Run s bs t ∧ t.AtAlarm := by
  obtain ⟨bs, t, hbs, halarm⟩ := (hrest.going.run hrun).reaches_alarm hne
  exact ⟨bs, t, hbs.of_restrict, halarm⟩

theorem exists_alarm_started : ∃ bs t,
    (serverProcess ⟨3, 4⟩).Run (start ⟨.new 15 1000, .boot⟩) bs t ∧ t.AtAlarm :=
  exists_alarm (by decide) (.of_new _ 15 1000 .boot) .nil

end ServerProcess
end LxcHttpServer
