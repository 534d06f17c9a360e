import LxcHttpServer.AlarmSignals
import LxcHttpServer.UnclaimedConnections

/-!
# What becomes of a connection that is kept

A connection that was kept waits armed, with a node in the list of the timer. As long as its
client is silent and its time is not over at an alarm, everything in the process goes by it. The
first alarm after its time closes it and forgets it, and such an alarm can always come.
-/
namespace LxcHttpServer
open IteratorLists PartialRuns

namespace ServerProcess

variable {c : Sockets} {s s' : ServerProcess} {server : Server} {l : Label} {p : ℕ × Node}

/-- A connection that was kept, with its place in the list of the timer and its node. -/
structure Idle (s : ServerProcess) (p : ℕ × Node) : Prop
    extends Unclaimed s p.2.clientFd where
  isOpen : p.2.clientFd ∈ s.server.kernel.openFds
  armed : s.server.kernel.Armed p.2.clientFd
  node : p ∈ s.server.timer.timeList.nodes

/-- The time of the node is over. -/
def Late (s : ServerProcess) (n : Node) : Prop :=
  n.expireTime.tvSec < s.server.kernel.gettimeofday.tvSec

/-- The client of the connection is silent, and the alarm does not come after its time. -/
def Spares (n : Node) (s : ServerProcess) : Label → Prop
  | .epollWait events => n.clientFd ∉ events
  | .main => s.AtAlarm → ¬ s.Late n
  | _ => True

/-- The process as long as nothing ends the wait of the connection. -/
def waiting (c : Sockets) (n : Node) : System ServerProcess Label IteratorFault :=
  (serverProcess c).restrict (Spares n)

/-- The connection was closed, once, and neither the timer nor the epoll instance knows it. -/
structure TimedOut (s s' : ServerProcess) (fd : ℤ) : Prop where
  closed : fd ∉ s'.server.kernel.openFds
  once : s'.server.kernel.closes.count fd = s.server.kernel.closes.count fd + 1
  unregistered : ¬ s'.server.timer.Registered fd
  forgotten : s'.server.kernel.epoll.lookup fd = none

theorem Idle.isConnection (h : s.Idle p) (hord : Orderly c s) : c.IsConnection p.2.clientFd :=
  hord.known _ (hord.consistent.live_of_mem h.node).1

/-- What ends the wait of no connection leaves it idle. -/
theorem Idle.step (h : s.Idle p) (hord : Orderly c s) (hspares : Spares p.2 s l)
    (hen : s.enabled c l) (hstep : s.step c l = .ok s') :
    s'.Idle p ∧ Server.Same s.server s'.server p.2.clientFd := by
  have hquiet : ∀ events, l = .epollWait events → p.2.clientFd ∉ events := by
    rintro events rfl
    exact hspares
  have hspared : l = .main → s.AtAlarm → p.2.clientFd ∉ s.server.dueFds := by
    rintro rfl halarm hdue
    exact hspares halarm ((hord.consistent.due_iff_late h.node).mp hdue)
  obtain ⟨hunclaimed, hsame⟩ := h.toUnclaimed.same hord (h.isConnection hord) h.isOpen hquiet
    hspared hen hstep
  exact ⟨⟨hunclaimed, hsame.isOpen.mpr h.isOpen, hsame.epoll.trans h.armed,
    (hsame.node p rfl).mpr h.node⟩, hsame⟩

theorem Idle.run {bs : List Label} {t : ServerProcess} (h : s.Idle p) (hord : Orderly c s)
    (hrun : (waiting c p.2).Run s bs t) :
    t.Idle p ∧ Server.Same s.server t.server p.2.clientFd := by
  have hall : Orderly c t ∧ t.Idle p ∧ Server.Same s.server t.server p.2.clientFd := by
    apply hrun.invariant (P := fun u => Orderly c u ∧ u.Idle p ∧
      Server.Same s.server u.server p.2.clientFd)
    · exact ⟨hord, h, .refl s.server _⟩
    · intro u l u' hu hen hstep
      obtain ⟨hidle, hsame⟩ := hu.2.1.step hu.1 hen.2 hen.1 hstep
      exact ⟨(hu.1.step hen.1 hstep).1, hidle, hu.2.2.trans hsame⟩
  exact hall.2

/-- The alarm after its time closes a connection that is idle. -/
theorem Idle.times_out (h : s.Idle p) (hord : Orderly c s) (halarm : s.AtAlarm)
    (hlate : s.Late p.2) (hstep : s.main c = .ok s') : TimedOut s s' p.2.clientFd := by
  obtain ⟨signals, hpc⟩ := halarm
  obtain ⟨server, hact, rfl⟩ := alarm_act hpc hstep
  have hexact := hord.consistent.expiresExactly hact
  have hdue : p.2.clientFd ∈ s.server.dueFds := (hord.consistent.due_iff_late h.node).mpr hlate
  constructor
  · intro hopen
    exact ((hexact.openFds _).mp hopen).2 hdue
  · have hcloses : server.kernel.closes = s.server.kernel.closes ++ s.server.dueFds := hexact.closes
    have honce := List.count_eq_one_of_mem hexact.once hdue
    simp only [after, hcloses, List.count_append, honce]
  · intro hreg
    have hsome := AList.lookup_isSome.mpr hreg
    simp [after, hexact.hashMap, hdue] at hsome
  · simp [after, hexact.epoll, hdue]

/-- Without events of sockets and before the first alarm the wait goes on. -/
theorem spares_of_undisturbed {n : Node} (hconn : c.IsConnection n.clientFd)
    (hl : l.Undisturbed c) (hnot : ¬ s.AtAlarm) : Spares n s l := by
  cases l with
  | epollWait events =>
    have hevents : events = [c.pipeRead] := hl
    have hne : n.clientFd ≠ c.pipeRead := hconn.2.2
    simp [Spares, hevents, hne]
  | main => exact fun halarm => absurd halarm hnot
  | _ => trivial

/-- Wherever the process has come, it can wait until the time of the connection is over at an
alarm, and no socket needs to have an event for that. -/
theorem Idle.exists_late (h : s.Idle p) (hgoing : Going c s) (hne : c.pipeRead ≠ c.serverSocketfd) :
    ∃ bs t, (waiting c p.2).Run s bs t ∧ (undisturbed c).Run s bs t ∧ t.AtAlarm ∧ t.Late p.2 := by
  have hconn := h.isConnection hgoing.orderly
  obtain ⟨as, u, hway, hgoal⟩ := hgoing.reaches_alarm hne
  obtain ⟨bs, t, hfirst, halarm⟩ := hway.exists_first hgoal
  have hsame : (waiting c p.2).step =
      ((undisturbed c).restrict fun v _ => ¬ v.AtAlarm).step := rfl
  have hwaits : (waiting c p.2).Run s bs t := by
    apply hfirst.mono hsame
    intro v l hen
    exact ⟨hen.1.1, spares_of_undisturbed hconn hen.1.2 hen.2⟩
  -- at the alarm the clock goes on beyond the time of the node
  let usec := (1000000 * (p.2.expireTime.tvSec + 1) - t.server.kernel.clock).toNat
  have helapses : (waiting c p.2).Run t [.elapse usec] (t.later usec) :=
    .single ⟨trivial, trivial⟩ rfl
  have hclock : (t.later usec).server.kernel.clock = t.server.kernel.clock + usec := rfl
  have hquiet : (undisturbed c).Run t [.elapse usec] (t.later usec) :=
    .single ⟨trivial, trivial⟩ rfl
  refine ⟨_, t.later usec, hwaits.append helapses, hfirst.of_restrict.append hquiet, halarm, ?_⟩
  simp only [Late, Kernel.gettimeofday, hclock, usec]
  omega

variable {as : List Label}

/-- As long as the client of a kept connection is silent and its time is not over at an alarm,
the connection stays as it is; the first alarm after its time, if it does not fail, closes it;
and wherever the process has come, it can come to that alarm without an event of a socket. -/
theorem idle_times_out (hne : c.pipeRead ≠ c.serverSocketfd) (hrest : Resting c server)
    (hrun : (serverProcess c).Run (start server) as s) (hidle : s.Idle p) :
    (∀ bs t, (waiting c p.2).Run s bs t → t.Idle p ∧
      t.server.kernel.closes.count p.2.clientFd = s.server.kernel.closes.count p.2.clientFd ∧
      (t.AtAlarm → t.Late p.2 → ∀ t', t.main c = .ok t' → TimedOut t t' p.2.clientFd)) ∧
    ∃ bs t, (waiting c p.2).Run s bs t ∧ (undisturbed c).Run s bs t ∧ t.AtAlarm ∧
      t.Late p.2 := by
  have hgoing := hrest.going.run hrun
  constructor
  · intro bs t hwaits
    obtain ⟨hstill, hsame⟩ := hidle.run hgoing.orderly hwaits
    refine ⟨hstill, hsame.closes, ?_⟩
    intro halarm hlate t' hstep
    have hall : (serverProcess c).Run s bs t := hwaits.of_restrict
    exact hstill.times_out (hgoing.run hall).orderly halarm hlate hstep
  · exact hidle.exists_late hgoing hne

/-- The connection 5 was kept before the loop begins. -/
theorem idle_times_out_kept : ∃ server p bs t, (start server).Idle p ∧ p.2.clientFd = 5 ∧
    (waiting ⟨3, 4⟩ p.2).Run (start server) bs t ∧ (undisturbed ⟨3, 4⟩).Run (start server) bs t ∧
    t.Idle p ∧ t.AtAlarm ∧ t.Late p.2 := by
  have hex : ∃ server, serverOrder.Run ⟨.new 15 1000, .boot⟩ [.accept 5, .addfd 5] server ∧
      (∀ fd ∈ server.timer.hashMap.keys,
        (⟨3, 4⟩ : Sockets).IsConnection fd ∧ ¬ server.timer.Forbidden fd) ∧
      5 ∈ server.kernel.openFds ∧ server.kernel.Armed 5 ∧
      (0, ⟨5, ⟨0, 0⟩, ⟨15, 0⟩⟩) ∈ server.timer.timeList.nodes :=
    System.Run.exists_of_exec (by decide +kernel)
  obtain ⟨server, hserver, hkeys, hopen, harmed, hnode⟩ := hex
  have hrest : Resting ⟨3, 4⟩ server := .of_keys (Server.consistent_of_run hserver) hkeys
  have hidle : (start server).Idle (0, ⟨5, ⟨0, 0⟩, ⟨15, 0⟩⟩) := by
    refine ⟨⟨?_, ?_⟩, hopen, harmed, hnode⟩
    · simp [engaged, start, MainPc.fds]
    · simp [start]
  obtain ⟨hwaits, bs, t, hrun, hquiet, halarm, hlate⟩ :=
    idle_times_out (by decide) hrest .nil hidle
  exact ⟨server, _, bs, t, hidle, rfl, hrun, hquiet, (hwaits bs t hrun).1, halarm, hlate⟩

end ServerProcess
end LxcHttpServer
