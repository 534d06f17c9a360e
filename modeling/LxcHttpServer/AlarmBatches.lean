import LxcHttpServer.EventLoop
import LxcHttpServer.TimerRefinement

/-!
# Alarms inside a batch

The events of a batch are collected before the alarm among them is handled. Events before
the alarm forbid their descriptors, so the alarm does not close these; a client behind the
alarm whose time is over is closed and then dispatched.
-/
namespace LxcHttpServer
open IteratorLists Leases PartialRuns MainState

namespace Server

variable {s s' : Server}

theorem Consistent.mem_dueFds_iff (h : s.Consistent) (fd : ℤ) : fd ∈ s.dueFds ↔
    ∃ d, s.timer.leases fd = some (.live d) ∧ Timer.Due s.kernel.gettimeofday d := by
  rw [h.dueFds_eq]
  exact Timer.mem_expiredFds_iff h _ fd

/-- Forbidding a descriptor does not change what is due of the others. -/
theorem mem_dueFds_forbidenFd (h : s.Consistent) {fd fd' : ℤ} (hne : fd' ≠ fd)
    (hs : Timer.forbidenFd fd s = .ok s') : fd' ∈ s'.dueFds ↔ fd' ∈ s.dueFds := by
  have h' := Timer.forbidenFd_consistent h hs
  rw [h.mem_dueFds_iff, h'.mem_dueFds_iff, Timer.leases_forbidenFd h hs,
    Timer.forbidenFd_kernel hs, Table.hold, Function.update_of_ne hne]

/-- Right after an alarm nothing is due. -/
theorem dueFds_deleteExpiredFd (h : s.Consistent) (hs : Timer.deleteExpiredFd s = .ok s') :
    s'.dueFds = [] := by
  have h' := Timer.deleteExpiredFd_consistent h hs
  have hclock : s'.kernel.gettimeofday = s.kernel.gettimeofday := by
    simp only [Kernel.gettimeofday, Timer.deleteExpiredFd_eq_ok h hs, Timer.clock_expireAll]
  apply List.eq_nil_iff_forall_not_mem.mpr
  intro fd hfd
  obtain ⟨d, hlive, hdue⟩ := (h'.mem_dueFds_iff fd).mp hfd
  rw [Timer.leases_deleteExpiredFd h hs] at hlive
  rw [hclock] at hdue
  exact ((Table.expire_eq_some_iff _ _ _ _).mp hlive).2 hdue

end Server

variable {c : Sockets} {s s' t t' : MainState} {events pre mid : List ℤ} {fd : ℤ}

/-- Closing nothing, and changing what is due of the given descriptors only. -/
structure Quiet (fds : List ℤ) (s t : MainState) : Prop where
  consistent : t.server.Consistent
  closes : t.server.kernel.closes = s.server.kernel.closes
  openFds : s.server.kernel.openFds ⊆ t.server.kernel.openFds
  signals : t.signals = s.signals
  due : ∀ fd, fd ∉ fds → (fd ∈ t.server.dueFds ↔ fd ∈ s.server.dueFds)

theorem Quiet.trans {fds fds' : List ℤ} {u : MainState} (h : Quiet fds s t) (h' : Quiet fds' t u) :
    Quiet (fds ++ fds') s u := by
  refine ⟨h'.consistent, h'.closes.trans h.closes, h.openFds.trans h'.openFds,
    h'.signals.trans h.signals, ?_⟩
  intro fd hfd
  rw [List.mem_append, not_or] at hfd
  exact (h'.due fd hfd.2).trans (h.due fd hfd.1)

theorem acceptLoop_snd (backlog : List ℤ) (k : Kernel) :
    (acceptLoop backlog k).2.clock = k.clock ∧ (acceptLoop backlog k).2.closes = k.closes ∧
      k.openFds ⊆ (acceptLoop backlog k).2.openFds := by
  induction backlog generalizing k with
  | nil => exact ⟨rfl, rfl, Finset.Subset.refl _⟩
  | cons fd backlog ih =>
    obtain ⟨hclock, hcloses, hopen⟩ := ih (k.openFd fd)
    exact ⟨hclock, hcloses, (Finset.subset_insert fd k.openFds).trans hopen⟩

theorem handleListening_quiet (c : Sockets) (fd : ℤ) (hs : s.server.Consistent) :
    Quiet [] s (handleListening c fd s) := by
  simp only [handleListening]
  split_ifs
  · obtain ⟨hclock, hcloses, hopen⟩ := acceptLoop_snd s.backlog s.server.kernel
    have hcons := hs.kernel (le_of_eq hclock.symm)
    refine ⟨hcons, hcloses, hopen, rfl, ?_⟩
    intro fd' _
    have htime : (acceptLoop s.backlog s.server.kernel).2.gettimeofday =
        s.server.kernel.gettimeofday := by simp only [Kernel.gettimeofday, hclock]
    simp only [appendFd, Server.dueFds, htime]
  · exact ⟨hs, rfl, Finset.Subset.refl _, rfl, fun _ _ => Iff.rfl⟩

theorem handleEvent_quiet (hs : s.server.Consistent) (hpipe : fd ≠ c.pipeRead)
    (h : handleEvent c s fd = .ok s') : Quiet [fd] s s' := by
  have hlisten := handleListening_quiet c fd hs
  rcases handleEvent_eq_ok h with ⟨-, server, hf, rfl⟩ | ⟨hpipe', -⟩
  · have hkernel := Timer.forbidenFd_kernel hf
    refine ⟨Timer.forbidenFd_consistent hlisten.consistent hf, ?_, ?_, hlisten.signals, ?_⟩
    · exact (congrArg Kernel.closes hkernel).trans hlisten.closes
    · intro x hx
      simpa [appendFd, hkernel] using hlisten.openFds hx
    · intro fd' hfd'
      have hne : fd' ≠ fd := by simpa using hfd'
      have hdue := Server.mem_dueFds_forbidenFd hlisten.consistent hne hf
      exact hdue.trans (hlisten.due fd' (by simp))
  · exact absurd hpipe' hpipe

/-- A stretch of events without the pipe's. -/
theorem run_quiet (hs : s.server.Consistent) (hpipe : c.pipeRead ∉ pre)
    (h : (eventLoop c).Run s pre t) : Quiet pre s t := by
  induction h with
  | nil => exact ⟨hs, rfl, Finset.Subset.refl _, rfl, fun _ _ => Iff.rfl⟩
  | snoc run enabled step ih =>
    rw [List.mem_append, not_or, List.mem_singleton] at hpipe
    have hquiet := ih hpipe.1
    exact hquiet.trans (handleEvent_quiet hquiet.consistent (Ne.symm hpipe.2) step)

/-- The signals that one event of the pipe handles include an alarm. -/
def Alarmed (s : MainState) : Prop := SIGALRM ∈ s.signals.take 128

/-- What is due is closed once if there is an alarm, and nothing else is. -/
structure ClosesDue (alarm : Prop) (s s' : Server) : Prop where
  consistent : s'.Consistent
  quiet : ¬ alarm → s'.kernel = s.kernel
  closes : alarm → s'.kernel.closes = s.kernel.closes ++ s.dueFds
  openFds : ∀ fd ∈ s.kernel.openFds, fd ∉ s.dueFds → fd ∈ s'.kernel.openFds

theorem handleSignals_closesDue {signals : List UInt8} {s s' : Server} (hs : s.Consistent)
    (h : handleSignals signals s = .ok s') : ClosesDue (SIGALRM ∈ signals) s s' := by
  induction signals generalizing s with
  | nil =>
    cases h
    exact ⟨hs, fun _ => rfl, fun hmem => by simp at hmem, fun fd hfd _ => hfd⟩
  | cons signal signals ih =>
    simp only [handleSignals] at h
    split_ifs at h with halarm
    · cases hdelete : Timer.deleteExpiredFd s with
      | error fault => simp [hdelete] at h
      | ok u =>
        simp only [hdelete] at h
        have hexp := hs.expiresExactly hdelete
        have hrest := ih (Timer.deleteExpiredFd_consistent hs hdelete) h
        have hnone := Server.dueFds_deleteExpiredFd hs hdelete
        -- the alarms that follow close nothing
        have hcloses : s'.kernel.closes = u.kernel.closes := by
          by_cases hmem : SIGALRM ∈ signals
          · rw [hrest.closes hmem, hnone, List.append_nil]
          · rw [hrest.quiet hmem]
        refine ⟨hrest.consistent, ?_, ?_, ?_⟩
        · intro hmem
          exact absurd (List.mem_cons.mpr (.inl halarm.symm)) hmem
        · intro _
          rw [hcloses, hexp.closes]
        · intro fd hfd hdue
          apply hrest.openFds fd ((hexp.openFds fd).mpr ⟨hfd, hdue⟩)
          simp [hnone]
    · have hrest := ih hs h
      have hiff : SIGALRM ∈ signal :: signals ↔ SIGALRM ∈ signals := by
        rw [List.mem_cons]
        exact or_iff_right (Ne.symm halarm)
      exact ⟨hrest.consistent, fun hmem => hrest.quiet (by rwa [hiff] at hmem),
        fun hmem => hrest.closes (hiff.mp hmem), hrest.openFds⟩

theorem handleEvent_pipe (hs : s.server.Consistent) (h : handleEvent c s c.pipeRead = .ok s') :
    s'.server.Consistent ∧ ∃ closed, s'.server.kernel.closes = s.server.kernel.closes ++ closed ∧
      (∀ fd, fd ∈ closed ↔ Alarmed s ∧ fd ∈ s.server.dueFds) ∧
      ∀ fd ∈ s.server.kernel.openFds, fd ∉ closed → fd ∈ s'.server.kernel.openFds := by
  have hlisten := handleListening_quiet c c.pipeRead hs
  have hdue : ∀ fd, fd ∈ (handleListening c c.pipeRead s).server.dueFds ↔ fd ∈ s.server.dueFds :=
    fun fd => hlisten.due fd (by simp)
  rcases handleEvent_eq_ok h with ⟨hpipe, -⟩ | ⟨-, server, hsignals, rfl⟩
  · exact absurd rfl hpipe
  · rw [hlisten.signals] at hsignals
    have halarm := handleSignals_closesDue hlisten.consistent hsignals
    refine ⟨halarm.consistent, ?_⟩
    by_cases hmem : Alarmed s
    · refine ⟨_, (halarm.closes hmem).trans (congrArg (· ++ _) hlisten.closes), ?_, ?_⟩
      · intro fd
        simp [hdue, hmem]
      · intro fd hfd hnot
        exact halarm.openFds fd (hlisten.openFds hfd) hnot
    · have hkernel := halarm.quiet hmem
      refine ⟨[], ?_, by simp [hmem], ?_⟩
      · simpa [hkernel] using hlisten.closes
      · intro fd hfd _
        simpa [hkernel] using hlisten.openFds hfd

/-- What was closed since `s`. -/
def closedSince (s t : MainState) : List ℤ :=
  t.server.kernel.closes.drop s.server.kernel.closes.length

/-- A client whose event comes up is open, and was not closed in the pass that began
with `s`. -/
def ClientOpen (c : Sockets) (s t : MainState) (fd : ℤ) : Prop :=
  c.IsClient fd → fd ∈ t.server.kernel.openFds ∧ fd ∉ closedSince s t

/-- No client behind an event of the pipe that brings an alarm is due. -/
def NoneDueBehindAlarm (c : Sockets) (events : List ℤ) (s : MainState) : Prop :=
  Alarmed s → ∀ pre post, events = pre ++ c.pipeRead :: post →
    ∀ fd ∈ post, c.IsClient fd → fd ∉ s.server.dueFds

/-- What a pass has closed after the event of the pipe. -/
theorem closedSince_iff (hs : s.server.Consistent)
    (hnodup : (pre ++ c.pipeRead :: mid).Nodup)
    (h : (eventLoop c).Run s (pre ++ c.pipeRead :: mid) t) (hfd : fd ∉ pre) :
    (fd ∈ closedSince s t ↔ Alarmed s ∧ fd ∈ s.server.dueFds) ∧
      (fd ∈ s.server.kernel.openFds → fd ∉ closedSince s t → fd ∈ t.server.kernel.openFds) := by
  obtain ⟨hpipe, hmid⟩ : c.pipeRead ∉ pre ∧ c.pipeRead ∉ mid := by
    rw [List.nodup_middle, List.nodup_cons, List.mem_append, not_or] at hnodup
    exact hnodup.1
  obtain ⟨u, hu, hrest⟩ := h.split
  obtain ⟨v, -, hv, hrest⟩ := hrest.of_cons
  have hbefore := run_quiet hs hpipe hu
  obtain ⟨hcons, closed, hcloses, hclosed, hopen⟩ := handleEvent_pipe hbefore.consistent hv
  have hafter := run_quiet hcons hmid hrest
  have hsince : closedSince s t = closed := by
    rw [closedSince, hafter.closes, hcloses, hbefore.closes, List.drop_left]
  have halarmed : Alarmed u ↔ Alarmed s := by rw [Alarmed, Alarmed, hbefore.signals]
  rw [hsince, hclosed, halarmed, hbefore.due fd hfd]
  refine ⟨Iff.rfl, ?_⟩
  intro hfdopen hnot
  apply hafter.openFds
  apply hopen fd (hbefore.openFds hfdopen)
  rwa [hclosed, halarmed, hbefore.due fd hfd]

/-- In a pass that goes through, every client is open when its task is appended and not
closed by an alarm of the pass, exactly when none that is due stands behind an alarm. -/
theorem clients_open_iff {timeout maxSize : ℤ} {k : Kernel} {as : List Action}
    (hrun : serverOrder.Run ⟨.new timeout maxSize, k⟩ as s.server) (hnodup : events.Nodup)
    (hopen : ∀ fd ∈ events, c.IsClient fd → fd ∈ s.server.kernel.openFds)
    (hpass : handleEvents c events s = .ok s') :
    (eventLoop c).Meets (ClientOpen c s) s events ↔ NoneDueBehindAlarm c events s := by
  have hs := Server.consistent_of_run hrun
  constructor
  · rintro hmeets halarm pre post rfl fd hfd hclient hdue
    obtain ⟨mid, rest, rfl⟩ := List.append_of_mem hfd
    have hsplit : pre ++ c.pipeRead :: (mid ++ fd :: rest) =
        (pre ++ c.pipeRead :: mid) ++ fd :: rest := by simp
    rw [hsplit] at hmeets hnodup hpass
    obtain ⟨t, ht, -⟩ := (handleEvents_eq_ok_iff.mp hpass).split
    have hfresh : fd ∉ pre ++ c.pipeRead :: mid := by
      intro hmem
      exact List.disjoint_of_nodup_append hnodup hmem (by simp)
    have hpre : fd ∉ pre := fun hmem => hfresh (List.mem_append_left _ hmem)
    have hclosed := closedSince_iff hs hnodup.of_append_left ht hpre
    have hstill := hmeets _ fd t ⟨rest, by simp⟩ ht hclient
    exact hstill.2 (hclosed.1.mpr ⟨halarm, hdue⟩)
  · intro hnone pre fd t hpre ht hclient
    obtain ⟨rest, rfl⟩ := hpre
    have hfd : fd ∈ s.server.kernel.openFds := hopen fd (by simp) hclient
    by_cases hpipe : c.pipeRead ∈ pre
    · obtain ⟨before, mid, rfl⟩ := List.append_of_mem hpipe
      have hfresh : fd ∉ before ++ c.pipeRead :: mid := by
        have hdisj := List.disjoint_of_nodup_append hnodup.of_append_left
        exact fun hmem => hdisj hmem (by simp)
      have hbefore : fd ∉ before := fun hmem => hfresh (List.mem_append_left _ hmem)
      have hclosed := closedSince_iff hs hnodup.of_append_left.of_append_left ht hbefore
      have hnot : fd ∉ closedSince s t := by
        rw [hclosed.1]
        rintro ⟨halarm, hdue⟩
        exact hnone halarm before (mid ++ fd :: rest) (by simp) fd (by simp) hclient hdue
      exact ⟨hclosed.2 hfd hnot, hnot⟩
    · have hquiet := run_quiet hs hpipe ht
      refine ⟨hquiet.openFds hfd, ?_⟩
      rw [closedSince, hquiet.closes, List.drop_length]
      simp

/-- With the byte of one alarm in the pipe. -/
def withAlarm (server : Server) : MainState where
  server := server
  backlog := []
  signals := [SIGALRM]
  tasks := []

/-- The connection behind the alarm was kept a second ago. -/
theorem clients_open_early : ∃ server, serverOrder.Run ⟨.new 15 1000, .boot⟩
    [.accept 5, .addfd 5, .elapse 1000000, .deliver 5] server ∧
    (eventLoop ⟨3, 4⟩).Meets (ClientOpen ⟨3, 4⟩ (withAlarm server)) (withAlarm server) [4, 5] := by
  have hex : ∃ server, serverOrder.Run ⟨.new 15 1000, .boot⟩
      [.accept 5, .addfd 5, .elapse 1000000, .deliver 5] server ∧ server.dueFds = [] ∧
      5 ∈ server.kernel.openFds ∧
      ((eventLoop ⟨3, 4⟩).exec (withAlarm server) [4, 5]).any fun t => t.tasks = [5] :=
    System.Run.exists_of_exec (by decide +kernel)
  obtain ⟨server, hserver, hnone, hopen, hpass⟩ := hex
  obtain ⟨t, ht, -⟩ := (Option.any_eq_true _ _).mp hpass
  have hclient : ∀ fd ∈ [4, 5], Sockets.IsClient ⟨3, 4⟩ fd → fd ∈ server.kernel.openFds := by
    intro fd hfd hclient
    rcases List.mem_pair.mp hfd with rfl | rfl
    · exact absurd rfl hclient.2
    · exact hopen
  refine ⟨server, hserver, ?_⟩
  have hpass := handleEvents_eq_ok_iff.mpr (.of_exec ht)
  apply (clients_open_iff hserver (by decide) hclient hpass).mpr
  intro _ pre post _ fd _ _
  simp [withAlarm, hnone]

/-- The connection behind the alarm was kept sixteen seconds ago: the alarm closes it, and
its descriptor is dispatched. -/
theorem not_clients_open : ∃ server t s', serverOrder.Run ⟨.new 15 1000, .boot⟩
    [.accept 5, .addfd 5, .elapse 16000000, .deliver 5] server ∧
    5 ∈ server.kernel.openFds ∧ handleEvents ⟨3, 4⟩ [4] (withAlarm server) = .ok t ∧
    5 ∉ t.server.kernel.openFds ∧ handleEvents ⟨3, 4⟩ [4, 5] (withAlarm server) = .ok s' ∧
    s'.tasks = [5] := by
  have hex : ∃ server, serverOrder.Run ⟨.new 15 1000, .boot⟩
      [.accept 5, .addfd 5, .elapse 16000000, .deliver 5] server ∧ 5 ∈ server.kernel.openFds ∧
      (((eventLoop ⟨3, 4⟩).exec (withAlarm server) [4]).any fun t =>
        5 ∉ t.server.kernel.openFds) ∧
      ((eventLoop ⟨3, 4⟩).exec (withAlarm server) [4, 5]).any fun t => t.tasks = [5] :=
    System.Run.exists_of_exec (by decide +kernel)
  obtain ⟨server, hserver, hopen, hclosed, htasks⟩ := hex
  obtain ⟨t, ht, hclosed⟩ := (Option.any_eq_true _ _).mp hclosed
  obtain ⟨s', hs', htasks⟩ := (Option.any_eq_true _ _).mp htasks
  exact ⟨server, t, s', hserver, hopen, handleEvents_eq_ok_iff.mpr (.of_exec ht),
    by simpa using hclosed, handleEvents_eq_ok_iff.mpr (.of_exec hs'), by simpa using htasks⟩

end LxcHttpServer
