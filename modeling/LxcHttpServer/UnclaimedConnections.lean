import LxcHttpServer.ProcessRuns

/-!
# Connections in nobody's hands

What the timer and the kernel know of a descriptor changes by calls that are about it, and by
an alarm at which it is due. A connection that neither the loop nor a call of `httpserver` has,
and whose event does not come up, meets no call that is about it.
-/
namespace LxcHttpServer
open IteratorLists PartialRuns

/-- The descriptor that a call is about. -/
def Action.about : Action → Option ℤ
  | .addfd fd | .forbidenFd fd | .deleteFd fd | .accept fd | .deliver fd | .close fd => some fd
  | .deleteExpiredFd | .elapse _ => none

namespace Server

variable {s s' s'' : Server} {a : Action} {fd fd' : ℤ}

/-- The timer and the kernel know the same of a descriptor as before. -/
structure Same (s s' : Server) (fd : ℤ) : Prop where
  isOpen : fd ∈ s'.kernel.openFds ↔ fd ∈ s.kernel.openFds
  closes : s'.kernel.closes.count fd = s.kernel.closes.count fd
  epoll : s'.kernel.epoll.lookup fd = s.kernel.epoll.lookup fd
  entry : s'.timer.hashMap.lookup fd = s.timer.hashMap.lookup fd
  node : ∀ p : ℕ × Node, p.2.clientFd = fd →
    (p ∈ s'.timer.timeList.nodes ↔ p ∈ s.timer.timeList.nodes)

theorem Same.refl (s : Server) (fd : ℤ) : Same s s fd :=
  ⟨Iff.rfl, rfl, rfl, rfl, fun _ _ => Iff.rfl⟩

theorem Same.trans (h : Same s s' fd) (h' : Same s' s'' fd) : Same s s'' fd where
  isOpen := h'.isOpen.trans h.isOpen
  closes := h'.closes.trans h.closes
  epoll := h'.epoll.trans h.epoll
  entry := h'.entry.trans h.entry
  node p hp := (h'.node p hp).trans (h.node p hp)

theorem lookup_epollCtl_ne {op : EpollOp} {k : Kernel} (hne : fd ≠ fd') :
    (k.epollCtl op fd').epoll.lookup fd = k.epoll.lookup fd := by
  cases op with
  | del => exact AList.lookup_erase_ne hne
  | add | mod =>
    simp only [Kernel.epollCtl]
    split_ifs
    · first | rfl | exact AList.lookup_insert_ne hne
    · first | rfl | exact AList.lookup_insert_ne hne

/-- The node of another descriptor is taken from the list. -/
theorem Consistent.mem_filter_ne (h : s.Consistent) {id : ℕ}
    (hl : s.timer.hashMap.lookup fd' = some (.node id)) {p : ℕ × Node} (hne : p.2.clientFd ≠ fd') :
    p ∈ (s.timer.timeList.filter fun q => q.1 ≠ id).nodes ↔ p ∈ s.timer.timeList.nodes := by
  rw [IteratorList.nodes_filter, List.mem_filter]
  constructor
  · exact And.left
  · intro hp
    refine ⟨hp, decide_eq_true ?_⟩
    rintro rfl
    obtain ⟨n, hn, rfl⟩ := h.linked fd' p.1 hl
    exact hne (congrArg Node.clientFd (s.timer.timeList.value_unique hp hn))

theorem nodes_expireAll (ns : List Node) (s : Server) :
    (Timer.expireAll ns s).timer.timeList.nodes = s.timer.timeList.nodes.drop ns.length := by
  induction ns generalizing s with
  | nil => rfl
  | cons n ns ih =>
    rw [Timer.expireAll_cons, ih, List.length_cons]
    simp [Timer.expireFront, List.drop_tail]

/-- A node that the alarm removes is one of a descriptor that is due. -/
theorem Consistent.mem_drop_expired (h : s.Consistent) {p : ℕ × Node}
    (hspared : p.2.clientFd ∉ s.dueFds) :
    p ∈ s.timer.timeList.nodes.drop
        (Timer.expiredNodes s.kernel.gettimeofday s.timer).length ↔
      p ∈ s.timer.timeList.nodes := by
  constructor
  · exact List.mem_of_mem_drop
  · intro hp
    rw [← List.take_append_drop (Timer.expiredNodes s.kernel.gettimeofday s.timer).length
      s.timer.timeList.nodes, List.mem_append] at hp
    refine hp.resolve_left fun htake => hspared ?_
    rw [h.dueFds_eq]
    apply List.mem_map_of_mem
    have hprefix : Timer.expiredNodes s.kernel.gettimeofday s.timer <+: s.timer.timeList.values :=
      List.takeWhile_prefix _
    have hvalue := List.mem_map_of_mem (f := Prod.snd) htake
    rw [List.map_take] at hvalue
    rw [List.prefix_iff_eq_take.mp hprefix]
    exact hvalue

theorem same_of_act (h : s.Consistent) (hact : s.act a = .ok s') (hother : a.about ≠ some fd)
    (hspared : a = .deleteExpiredFd → fd ∉ s.dueFds) : Same s s' fd := by
  cases a with
  | addfd fd' =>
    cases hact
    have hne : fd ≠ fd' := fun heq => hother (congrArg _ heq.symm)
    rw [Timer.addfd_eq]
    split_ifs
    · exact .refl _ fd
    · refine ⟨by simp [Timer.accepted], by simp [Timer.accepted], lookup_epollCtl_ne hne,
        AList.lookup_insert_ne hne, ?_⟩
      rintro p rfl
      have hnew : p ≠ (s.timer.timeList.next, Node.new fd' s.timer.timeout s.kernel) := by
        rintro rfl
        exact hne rfl
      simp [Timer.accepted, Timer.insertNode, hnew]
  | forbidenFd fd' =>
    have hne : fd ≠ fd' := fun heq => hother (congrArg _ heq.symm)
    rcases Timer.forbidenFd_eq_ok hact with ⟨-, rfl⟩ | ⟨id, hl, -, rfl⟩
    · exact .refl _ fd
    · refine ⟨Iff.rfl, rfl, rfl, AList.lookup_insert_ne hne, ?_⟩
      rintro p rfl
      exact h.mem_filter_ne hl hne
  | deleteFd fd' =>
    have hne : fd ≠ fd' := fun heq => hother (congrArg _ heq.symm)
    rcases Timer.deleteFd_eq_ok hact with ⟨-, rfl⟩ | ⟨id, hl, -, rfl⟩
    · exact .refl _ fd
    · refine ⟨by simp [Timer.dropped, Kernel.deleteFdFromEpoll],
        by simp [Timer.dropped, Kernel.deleteFdFromEpoll], lookup_epollCtl_ne hne,
        AList.lookup_erase_ne hne, ?_⟩
      rintro p rfl
      exact h.mem_filter_ne hl hne
  | deleteExpiredFd =>
    have hexact := h.expiresExactly hact
    have hnot := hspared rfl
    refine ⟨by simp [hexact.openFds, hnot], ?_, by simp [hexact.epoll, hnot],
      by simp [hexact.hashMap, hnot], ?_⟩
    · rw [hexact.closes, List.count_append, List.count_eq_zero_of_not_mem hnot, Nat.add_zero]
    · rintro p rfl
      rw [Timer.deleteExpiredFd_eq_ok h hact, nodes_expireAll]
      exact h.mem_drop_expired hnot
  | elapse usec =>
    cases hact
    exact ⟨Iff.rfl, rfl, rfl, rfl, fun _ _ => Iff.rfl⟩
  | accept fd' =>
    cases hact
    have hne : fd ≠ fd' := fun heq => hother (congrArg _ heq.symm)
    exact ⟨by simp [Kernel.openFd, hne], rfl, rfl, rfl, fun _ _ => Iff.rfl⟩
  | deliver fd' =>
    cases hact
    have hne : fd ≠ fd' := fun heq => hother (congrArg _ heq.symm)
    exact ⟨Iff.rfl, rfl, AList.lookup_insert_ne hne, rfl, fun _ _ => Iff.rfl⟩
  | close fd' =>
    cases hact
    have hne : fd ≠ fd' := fun heq => hother (congrArg _ heq.symm)
    refine ⟨by simp [Kernel.close, hne], ?_, AList.lookup_erase_ne hne, rfl, fun _ _ => Iff.rfl⟩
    simp [Kernel.close, List.count_append, hne.symm]

/-- What was dispatched is not due. -/
theorem Consistent.spares_dispatched (h : s.Consistent) (hdisp : Dispatched s.timer fd) :
    fd ∉ s.dueFds := by
  intro hdue
  obtain ⟨n, hn, rfl⟩ := List.mem_map.mp hdue
  obtain ⟨hreg, hforb⟩ := (h.mem_clientFds_iff n.clientFd).mp
    (List.mem_map_of_mem (List.mem_of_mem_filter hn))
  exact hdisp.elim (fun hnone => hnone hreg) hforb

/-- A descriptor with a node is due when the time of the node is over. -/
theorem Consistent.due_iff_late (h : s.Consistent) {p : ℕ × Node}
    (hp : p ∈ s.timer.timeList.nodes) : p.2.clientFd ∈ s.dueFds ↔
      p.2.expireTime.tvSec < s.kernel.gettimeofday.tvSec := by
  rw [dueFds, IteratorList.values]
  constructor
  · intro hdue
    obtain ⟨n, hn, hfd⟩ := List.mem_map.mp hdue
    obtain ⟨hmem, hexp⟩ := List.mem_filter.mp hn
    obtain ⟨q, hq, rfl⟩ := List.mem_map.mp hmem
    rw [h.node_unique hp hq hfd.symm]
    exact of_decide_eq_true hexp
  · intro hlate
    apply List.mem_map_of_mem
    exact List.mem_filter.mpr ⟨List.mem_map_of_mem hp, decide_eq_true hlate⟩

/-- Along calls that are about others, without an alarm. -/
theorem same_of_run {as : List Action} (h : s.Consistent) (hrun : serverOrder.Run s as s')
    (hother : ∀ a ∈ as, a.about ≠ some fd) (hquiet : .deleteExpiredFd ∉ as) :
    s'.Consistent ∧ Same s s' fd := by
  induction hrun with
  | nil => exact ⟨h, .refl s fd⟩
  | snoc run enabled step ih =>
    simp only [List.mem_append, List.mem_singleton, or_imp, forall_and, forall_eq, not_or]
      at hother hquiet
    obtain ⟨hcons, hsame⟩ := ih hother.1 hquiet.1
    refine ⟨act_consistent hcons enabled.2 step, hsame.trans ?_⟩
    exact same_of_act hcons step hother.2 fun heq => absurd heq.symm hquiet.2

end Server

namespace ServerProcess

variable {c : Sockets} {s s' : ServerProcess} {a : Action} {l : Label} {fd : ℤ}

/-- Neither the loop nor a call has the descriptor, and no call opened it for itself. -/
structure Unclaimed (s : ServerProcess) (fd : ℤ) : Prop where
  nobody : fd ∉ s.engaged
  foreign : fd ∉ s.own

/-- The step leaves the descriptor in nobody's hands, and makes no call that is about it. -/
structure GoesBy (s : ServerProcess) (l : Label) (s' : ServerProcess) (fd : ℤ) : Prop where
  unclaimed : s'.Unclaimed fd
  calls : ∃ as, s'.actions = s.actions ++ as ∧ (∀ a ∈ as, a.about ≠ some fd) ∧
    (.deleteExpiredFd ∈ as → l = .main ∧ s.AtAlarm)

/-- Other descriptors change hands. -/
theorem GoesBy.moves (hactions : s'.actions = s.actions) (hnobody : fd ∉ s'.engaged)
    (hforeign : fd ∉ s'.own) : GoesBy s l s' fd :=
  ⟨⟨hnobody, hforeign⟩, [], by rw [hactions, List.append_nil], by simp, by simp⟩

/-- They change hands, and then there is a call for one of them. -/
theorem GoesBy.performs {t : ServerProcess} (hactions : t.actions = s.actions)
    (hnobody : fd ∉ t.engaged) (hforeign : fd ∉ t.own) (hstep : t.perform a = .ok s')
    (hother : a.about ≠ some fd) (halarm : a = .deleteExpiredFd → l = .main ∧ s.AtAlarm) :
    GoesBy s l s' fd := by
  obtain ⟨server, -, rfl⟩ := perform_eq_ok.mp hstep
  refine ⟨⟨hnobody, hforeign⟩, [a], by simp [after, hactions], ?_, ?_⟩
  · simpa using hother
  · intro hmem
    exact halarm (List.mem_singleton.mp hmem).symm

/-- A step of `main` takes up nothing but what the loop has, and -1. -/
theorem MainStep.engaged_subset (h : MainStep c s s') (hfd : fd ∈ s'.engaged) :
    fd ∈ s.engaged ∨ fd = -1 := by
  cases h with
  | waits hpc hevents | listening hpc hevents | other hpc hevents =>
    left
    simp only [engaged, hpc, hevents, MainPc.fds, List.mem_append, List.mem_cons,
      List.not_mem_nil] at hfd ⊢
    tauto
  | appendsFailed hpc | notPipe hpc | pipe hpc | forbids hpc | appends hpc | reads hpc
  | readAll hpc | expires hpc | skips hpc | setsAlarm hpc =>
    simp only [engaged, after, hpc, MainPc.fds, List.mem_append, List.mem_cons,
      List.not_mem_nil] at hfd ⊢
    tauto

theorem MainStep.own_eq (h : MainStep c s s') : s'.own = s.own := by
  cases h <;> rfl

theorem Unclaimed.main (h : s.Unclaimed fd) (hconn : c.IsConnection fd)
    (hstep : MainStep c s s') : GoesBy s .main s' fd := by
  have hnobody : fd ∉ s'.engaged := by
    intro hmem
    rcases hstep.engaged_subset hmem with hbefore | rfl
    · exact h.nobody hbefore
    · exact absurd hconn.1 (by decide)
  have hforeign : fd ∉ s'.own := by
    rw [hstep.own_eq]
    exact h.foreign
  cases hstep with
  | forbids hpc hact =>
    refine ⟨⟨hnobody, hforeign⟩, [.forbidenFd _], rfl, ?_, by simp⟩
    rintro a hmem heq
    cases List.mem_singleton.mp hmem
    apply h.nobody
    cases heq
    simp [engaged, hpc, MainPc.fds]
  | expires hpc hact =>
    exact ⟨⟨hnobody, hforeign⟩, [.deleteExpiredFd], rfl, by simp [Action.about],
      fun _ => ⟨rfl, _, hpc⟩⟩
  | _ => exact .moves rfl hnobody hforeign

theorem Unclaimed.epollWait {events : List ℤ} (h : s.Unclaimed fd) (hpc : s.pc = .epollWait)
    (hquiet : fd ∉ events) (hstep : performAll ((events.filter c.IsClient).map .deliver)
      { s with pc := .event, events := events } = .ok s') : GoesBy s (.epollWait events) s' fd := by
  rw [performAll_deliver] at hstep
  cases hstep
  refine ⟨⟨?_, h.foreign⟩, (events.filter c.IsClient).map .deliver, rfl, ?_, by simp⟩
  · have hnobody := h.nobody
    simp only [engaged, delivered, hpc, MainPc.fds, List.mem_append] at hnobody ⊢
    tauto
  · intro a hmem heq
    obtain ⟨fd', hfd', rfl⟩ := List.mem_map.mp hmem
    cases heq
    exact hquiet (List.mem_of_mem_filter hfd')

/-- Who gives up another descriptor takes up nothing. -/
theorem Unclaimed.lets_go (h : s.Unclaimed fd) (fd' : ℤ) :
    fd ∉ engaged { s with serving := s.serving.erase fd' } := by
  have hnobody := h.nobody
  have herase := List.mem_of_mem_erase (l := s.serving) (a := fd) (b := fd')
  simp only [engaged, List.mem_append] at hnobody ⊢
  tauto

theorem GoesBy.signalHandler {t : ServerProcess} (hactions : t.actions = s.actions)
    (hnobody : fd ∉ t.engaged) (hforeign : fd ∉ t.own) (sig : UInt8) :
    GoesBy s l (t.signalHandler sig) fd := by
  rw [ServerProcess.signalHandler]
  split_ifs
  · exact .moves hactions hnobody hforeign
  · exact .moves hactions hnobody hforeign

/-- As long as its event does not come up, every step goes by. -/
theorem Unclaimed.step (h : s.Unclaimed fd) (hconn : c.IsConnection fd)
    (hopen : fd ∈ s.server.kernel.openFds) (hquiet : ∀ events, l = .epollWait events → fd ∉ events)
    (hen : s.enabled c l) (hstep : s.step c l = .ok s') : GoesBy s l s' fd := by
  have hnobody := h.nobody
  simp only [engaged, List.mem_append, not_or] at hnobody
  obtain ⟨⟨⟨⟨⟨-, -⟩, -⟩, hserving⟩, hdeleting⟩, hclosing⟩ := hnobody
  cases l with
  | epollWait events => exact h.epollWait hen.1 (hquiet events rfl) hstep
  | main => exact h.main hconn (main_cases hen hstep)
  | accept clientSocketFd =>
    have hne : clientSocketFd ≠ fd := fun heq => hen.2.2.2 (heq ▸ hopen)
    exact .performs (t := { s with accepted := s.accepted ++ [clientSocketFd] })
      (a := .accept clientSocketFd) rfl h.nobody h.foreign hstep
      (by simpa [Action.about] using hne) (by simp)
  | acceptFails =>
    have hpc : s.pc = .accept c.serverSocketfd := hen
    simp only [ServerProcess.step, hpc] at hstep
    cases hstep
    refine .moves rfl ?_ h.foreign
    have hnobody := h.nobody
    simpa only [engaged, hpc, MainPc.fds] using hnobody
  | alarm =>
    cases hstep
    have hactions : actions { s with alarm := none } = s.actions := rfl
    exact .signalHandler hactions h.nobody h.foreign SIGALRM
  | kill =>
    cases hstep
    exact .signalHandler rfl h.nobody h.foreign SIGALRM
  | elapse usec =>
    exact .performs (t := s) (a := .elapse usec) rfl h.nobody h.foreign hstep
      (by simp [Action.about]) (by simp)
  | take =>
    cases htask : s.workList with
    | nil => exact absurd htask hen
    | cons fd' workList =>
      simp only [ServerProcess.step, htask] at hstep
      cases hstep
      refine .moves rfl ?_ h.foreign
      have hnobody := h.nobody
      simp only [engaged, htask, List.mem_append, List.mem_cons] at hnobody ⊢
      tauto
  | openOwn fd' =>
    have hne : fd' ≠ fd := fun heq => hen.2.2 (heq ▸ hopen)
    refine .performs (t := { s with own := fd' :: s.own }) (a := .accept fd') rfl h.nobody ?_
      hstep (by simpa [Action.about] using hne) (by simp)
    simp [hne.symm, h.foreign]
  | closeOwn fd' =>
    have hmem : fd' ∈ s.own := hen
    have hne : fd' ≠ fd := fun heq => h.foreign (heq ▸ hmem)
    refine .performs (t := { s with own := s.own.erase fd' }) (a := .close fd') rfl h.nobody ?_
      hstep (by simpa [Action.about] using hne) (by simp)
    exact fun hmem => h.foreign (List.mem_of_mem_erase hmem)
  | keep fd' =>
    have hne : fd' ≠ fd := fun heq => hserving (heq ▸ hen.1)
    exact .performs (t := { s with serving := s.serving.erase fd' }) (a := .addfd fd') rfl
      (h.lets_go fd') h.foreign hstep (by simpa [Action.about] using hne) (by simp)
  | close fd' =>
    have hne : fd' ≠ fd := fun heq => hserving (heq ▸ hen.1)
    exact .performs (t := { s with serving := s.serving.erase fd' }) (a := .close fd') rfl
      (h.lets_go fd') h.foreign hstep (by simpa [Action.about] using hne) (by simp)
  | leave fd' =>
    cases hstep
    exact .moves rfl (h.lets_go fd') h.foreign
  | raise fd' =>
    cases hstep
    have hmem : fd' ∈ s.serving := hen
    have hne : fd ≠ fd' := fun heq => hserving (heq ▸ hmem)
    refine .moves rfl ?_ h.foreign
    have hgone := h.lets_go fd'
    simp only [engaged, List.mem_append, List.mem_cons] at hgone ⊢
    tauto
  | deleteFd fd' =>
    have hmem : fd' ∈ s.deleting := hen
    have hne : fd ≠ fd' := fun heq => hdeleting (heq ▸ hmem)
    refine .performs (t := { s with
      deleting := s.deleting.erase fd'
      closing := fd' :: s.closing }) (a := .deleteFd fd') rfl ?_ h.foreign hstep
      (by simpa [Action.about] using hne.symm) (by simp)
    have hbefore := h.nobody
    have herase := List.mem_of_mem_erase (l := s.deleting) (a := fd) (b := fd')
    simp only [engaged, List.mem_append, List.mem_cons] at hbefore ⊢
    tauto
  | closeRaised fd' =>
    have hmem : fd' ∈ s.closing := hen
    have hne : fd' ≠ fd := fun heq => hclosing (heq ▸ hmem)
    refine .performs (t := { s with closing := s.closing.erase fd' }) (a := .close fd') rfl ?_
      h.foreign hstep (by simpa [Action.about] using hne) (by simp)
    have hbefore := h.nobody
    have herase := List.mem_of_mem_erase (l := s.closing) (a := fd) (b := fd')
    simp only [engaged, List.mem_append] at hbefore ⊢
    tauto

/-- At an alarm `main` lets the timer expire its entries. -/
theorem alarm_act {signals : List UInt8} (hpc : s.pc = .signal (SIGALRM :: signals))
    (hstep : s.main c = .ok s') : ∃ server, s.server.act .deleteExpiredFd = .ok server ∧
      s' = after { s with pc := .alarm signals } server .deleteExpiredFd := by
  simp only [ServerProcess.main, hpc, if_true] at hstep
  exact perform_eq_ok.mp hstep

/-- A step that goes by leaves all as it was, unless the alarm finds the descriptor due. -/
theorem Unclaimed.same (h : s.Unclaimed fd) (hord : Orderly c s) (hconn : c.IsConnection fd)
    (hopen : fd ∈ s.server.kernel.openFds) (hquiet : ∀ events, l = .epollWait events → fd ∉ events)
    (hspared : l = .main → s.AtAlarm → fd ∉ s.server.dueFds) (hen : s.enabled c l)
    (hstep : s.step c l = .ok s') : s'.Unclaimed fd ∧ Server.Same s.server s'.server fd := by
  obtain ⟨hunclaimed, as, hactions, hother, halarm⟩ := h.step hconn hopen hquiet hen hstep
  refine ⟨hunclaimed, ?_⟩
  by_cases hexpires : .deleteExpiredFd ∈ as
  · obtain ⟨rfl, signals, hpc⟩ := halarm hexpires
    obtain ⟨server, hact, rfl⟩ := alarm_act hpc hstep
    exact Server.same_of_act hord.consistent hact (by simp [Action.about])
      fun _ => hspared rfl ⟨signals, hpc⟩
  · obtain ⟨actions, hactions', hrun⟩ := (hord.step hen hstep).2
    have heq : actions = as := List.append_cancel_left (hactions'.symm.trans hactions)
    exact (Server.same_of_run hord.consistent hrun (heq ▸ hother) (heq ▸ hexpires)).2

end ServerProcess
end LxcHttpServer
