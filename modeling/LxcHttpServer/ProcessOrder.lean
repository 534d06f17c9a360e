import LxcHttpServer.ProcessSteps

/-!
# One thread for a connection, and the order of the calls

The event of a connection is delivered once and then disarmed, so between its event and the
end of the call of `httpserver` it has one place in the process: among the events, in the work
list, or with a thread. It follows that `addfd` meets only descriptors without an entry or with
a forbidden one: the calls that the threads and the loop make together are a run in the order
of the server.
-/
namespace LxcHttpServer
open IteratorLists PartialRuns

namespace Server

variable {s s' : Server} {a : Action} {fd : ℤ}

theorem armed_of_epollCtl {op : EpollOp} {fd' : ℤ} {k : Kernel} (hne : fd ≠ fd')
    (h : (k.epollCtl op fd').Armed fd) : k.Armed fd := by
  cases op with
  | del => simpa [Kernel.epollCtl, Kernel.Armed, AList.lookup_erase_ne hne] using h
  | add | mod =>
    simp only [Kernel.epollCtl] at h
    split_ifs at h
    all_goals simpa [Kernel.Armed, AList.lookup_insert_ne hne] using h

theorem not_armed_del (k : Kernel) : ¬ (k.epollCtl .del fd).Armed fd := by
  simp [Kernel.epollCtl, Kernel.Armed, AList.lookup_erase]

theorem armed_of_del {fd' : ℤ} {k : Kernel} (h : (k.epollCtl .del fd').Armed fd) :
    k.Armed fd := by
  by_cases hne : fd = fd'
  · subst hne
    exact absurd h (not_armed_del k)
  · exact armed_of_epollCtl hne h

/-- Only `addfd` arms a descriptor, and only its own. -/
theorem armed_of_act (hact : s.act a = .ok s') (h : s'.kernel.Armed fd) :
    s.kernel.Armed fd ∨ a = .addfd fd := by
  cases a with
  | addfd fd' =>
    cases hact
    by_cases hne : fd = fd'
    · exact .inr (congrArg _ hne.symm)
    · left
      rw [Timer.addfd_eq] at h
      split_ifs at h
      · exact h
      · exact armed_of_epollCtl hne h
  | forbidenFd fd' => exact .inl (Timer.forbidenFd_kernel hact ▸ h)
  | deleteFd fd' =>
    left
    rcases Timer.deleteFd_eq_ok hact with ⟨-, rfl⟩ | ⟨id, -, -, rfl⟩
    · exact h
    · exact armed_of_del h
  | deleteExpiredFd =>
    left
    obtain ⟨ns, rfl⟩ := Timer.exists_expireAll hact
    rw [Kernel.Armed, Timer.lookup_epoll_expireAll] at h
    split_ifs at h
    exact h
  | elapse | accept =>
    cases hact
    exact .inl h
  | deliver fd' =>
    cases hact
    left
    by_cases hne : fd = fd'
    · subst hne
      simp [Kernel.deliver, Kernel.Armed] at h
    · simpa [Kernel.deliver, Kernel.Armed, AList.lookup_insert_ne hne] using h
  | close fd' =>
    cases hact
    exact .inl (armed_of_del h)

/-- Apart from `addfd`, a call leaves the entry of a descriptor, removes it or forbids it. -/
theorem lookup_of_act (hact : s.act a = .ok s') (hne : a ≠ .addfd fd) :
    s'.timer.hashMap.lookup fd = s.timer.hashMap.lookup fd ∨
      s'.timer.hashMap.lookup fd = none ∨
      a = .forbidenFd fd ∧ s'.timer.hashMap.lookup fd = some .pastEnd ∧ s.timer.Registered fd := by
  cases a with
  | addfd fd' =>
    cases hact
    left
    have hne' : fd ≠ fd' := fun heq => hne (congrArg _ heq.symm)
    rw [Timer.addfd_eq]
    split_ifs
    · rfl
    · exact AList.lookup_insert_ne hne'
  | forbidenFd fd' =>
    rcases Timer.forbidenFd_eq_ok hact with ⟨-, rfl⟩ | ⟨id, hl, -, rfl⟩
    · exact .inl rfl
    · by_cases hne' : fd = fd'
      · subst hne'
        have hreg : s.timer.Registered fd := AList.lookup_isSome.mp (by rw [hl]; rfl)
        exact .inr (.inr ⟨rfl, AList.lookup_insert _, hreg⟩)
      · exact .inl (AList.lookup_insert_ne hne')
  | deleteFd fd' =>
    rcases Timer.deleteFd_eq_ok hact with ⟨-, rfl⟩ | ⟨id, -, -, rfl⟩
    · exact .inl rfl
    · by_cases hne' : fd = fd'
      · subst hne'
        exact .inr (.inl (AList.lookup_erase _ _))
      · exact .inl (AList.lookup_erase_ne hne')
  | deleteExpiredFd =>
    obtain ⟨ns, rfl⟩ := Timer.exists_expireAll hact
    rw [Timer.lookup_hashMap_expireAll]
    split_ifs
    · exact .inr (.inl rfl)
    · exact .inl rfl
  | elapse | accept | deliver | close =>
    cases hact
    exact .inl rfl

theorem registered_of_act (hact : s.act a = .ok s') (h : s'.timer.Registered fd) :
    s.timer.Registered fd ∨ a = .addfd fd := by
  by_cases hne : a = .addfd fd
  · exact .inr hne
  · left
    have hsome := AList.lookup_isSome.mpr h
    rcases lookup_of_act hact hne with heq | hnone | ⟨-, -, hreg⟩
    · rw [heq] at hsome
      exact AList.lookup_isSome.mp hsome
    · rw [hnone] at hsome
      cases hsome
    · exact hreg

/-- A dispatched descriptor stays without an entry or forbidden until it is added. -/
theorem dispatched_of_act (hact : s.act a = .ok s') (hne : a ≠ .addfd fd)
    (h : Dispatched s.timer fd) : Dispatched s'.timer fd := by
  rcases lookup_of_act hact hne with heq | hnone | ⟨-, hforb, -⟩
  · rcases h with hreg | hforb
    · rw [AList.lookup_eq_none.mpr hreg] at heq
      exact .inl (AList.lookup_eq_none.mp heq)
    · exact .inr (heq.trans hforb)
  · exact .inl (AList.lookup_eq_none.mp hnone)
  · exact .inr hforb

theorem dispatched_forbidenFd (hact : s.act (.forbidenFd fd) = .ok s') :
    Dispatched s'.timer fd := by
  rcases Timer.forbidenFd_eq_ok hact with ⟨hreg, rfl⟩ | ⟨id, -, -, rfl⟩
  · exact .inl hreg
  · exact .inr (AList.lookup_insert _)

/-- An entry becomes forbidden by `forbidenFd` alone. -/
theorem forbidden_of_act (hact : s.act a = .ok s') (h : s'.timer.Forbidden fd) :
    s.timer.Forbidden fd ∨ a = .forbidenFd fd ∧ s.timer.Registered fd := by
  by_cases hadd : a = .addfd fd
  · subst hadd
    cases hact
    rw [Timer.addfd_eq] at h
    split_ifs at h
    · exact .inl h
    · simp [Timer.Forbidden, Timer.accepted] at h
  · have hpast : s'.timer.hashMap.lookup fd = some .pastEnd := h
    rcases lookup_of_act hact hadd with heq | hnone | ⟨ha, -, hreg⟩
    · exact .inl (heq.symm.trans hpast)
    · rw [hnone] at hpast
      cases hpast
    · exact .inr ⟨ha, hreg⟩

/-- A descriptor whose entry is forbidden is not armed by adding it if it was not armed before. -/
theorem armed_of_addfd (h : (Timer.addfd fd s).2.kernel.Armed fd)
    (hforb : (Timer.addfd fd s).2.timer.Forbidden fd) :
    s.kernel.Armed fd ∧ s.timer.Forbidden fd := by
  rw [Timer.addfd_eq] at h hforb
  split_ifs at h hforb
  · exact ⟨h, hforb⟩
  · simp [Timer.Forbidden, Timer.accepted] at hforb

end Server

namespace MainPc

/-- The descriptor of the event that `main` is at. -/
def fds : MainPc → List ℤ
  | .accept fd | .appendAccepted fd | .testPipe fd | .forbidenFd fd | .appendFd fd => [fd]
  | .epollWait | .event | .read | .signal _ | .alarm _ => []

/-- The descriptor of that event, as long as it was not forbidden. -/
def pending : MainPc → List ℤ
  | .accept fd | .appendAccepted fd | .testPipe fd | .forbidenFd fd => [fd]
  | _ => []

/-- The descriptor of that event, once it was forbidden. -/
def forbidden : MainPc → List ℤ
  | .appendFd fd => [fd]
  | _ => []

theorem pending_append_forbidden (pc : MainPc) : pc.pending ++ pc.forbidden = pc.fds := by
  cases pc <;> rfl

end MainPc

namespace ServerProcess

variable {c : Sockets} {s s' s₀ : ServerProcess} {server : Server} {a : Action} {fd : ℤ}

/-- The descriptors in the hands of the loop, the work list and the threads, from the event on. -/
def engaged (s : ServerProcess) : List ℤ :=
  s.pc.fds ++ s.events ++ s.workList ++ s.serving ++ s.deleting ++ s.closing

/-- Those whose event the loop has not come to, or has not forbidden. -/
def pending (s : ServerProcess) : List ℤ := s.pc.pending ++ s.events

/-- Those that the loop has forbidden already. -/
def dispatched (s : ServerProcess) : List ℤ :=
  s.pc.forbidden ++ s.workList ++ s.serving ++ s.deleting ++ s.closing

/-- The descriptor is in one hand at most, and in none while it is armed. -/
structure OnePlace (s : ServerProcess) (fd : ℤ) : Prop where
  once : s.engaged.count fd ≤ 1
  armed : s.server.kernel.Armed fd → fd ∉ s.engaged

structure Orderly (c : Sockets) (s : ServerProcess) : Prop where
  consistent : s.server.Consistent
  idle : s.pc = .epollWait → s.events = []
  onePlace : ∀ fd, c.IsConnection fd → s.OnePlace fd
  known : ∀ fd, s.server.timer.Registered fd → c.IsConnection fd
  armed : ∀ fd, s.server.kernel.Armed fd → ¬ s.server.timer.Forbidden fd
  pending : ∀ fd ∈ s.pending, ¬ s.server.timer.Forbidden fd
  dispatched : ∀ fd ∈ s.dispatched, Dispatched s.server.timer fd

/-- An engaged descriptor is pending or dispatched. -/
theorem engaged_perm (s : ServerProcess) : s.engaged.Perm (s.pending ++ s.dispatched) := by
  rw [List.perm_iff_count]
  intro fd
  simp only [engaged, pending, dispatched, ← s.pc.pending_append_forbidden, List.count_append]
  omega

theorem dispatched_subset (s : ServerProcess) : s.dispatched ⊆ s.engaged := by
  intro fd hfd
  exact s.engaged_perm.mem_iff.mpr (List.mem_append_right _ hfd)

theorem pending_subset (s : ServerProcess) : s.pending ⊆ s.engaged := by
  intro fd hfd
  exact s.engaged_perm.mem_iff.mpr (List.mem_append_left _ hfd)

/-- The call is possible, a connection is added when its thread has given it up, and one is
forbidden when its event has come up. -/
structure MayCall (c : Sockets) (s : ServerProcess) (a : Action) : Prop where
  possible : s.server.Possible a
  added : ∀ fd, a = .addfd fd → c.IsConnection fd ∧ fd ∉ s.engaged ∧ Dispatched s.server.timer fd
  forbids : ∀ fd, a = .forbidenFd fd → s.server.timer.Registered fd →
    ¬ s.server.kernel.Armed fd ∧ fd ∉ s.pending

theorem MayCall.enabled (h : MayCall c s a) : serverOrder.enabled s.server a := by
  refine ⟨h.possible, ?_⟩
  cases a with
  | addfd fd => exact (h.added fd rfl).2.2
  | _ => trivial

/-- The other calls ask for nothing. -/
theorem MayCall.of_possible (h : s.server.Possible a) (hadd : ∀ fd, a ≠ .addfd fd)
    (hforb : ∀ fd, a ≠ .forbidenFd fd) : MayCall c s a :=
  ⟨h, fun fd ha => absurd ha (hadd fd), fun fd ha => absurd ha (hforb fd)⟩

/-- The process goes on as the server's order of calls allows. -/
def Ordered (s s' : ServerProcess) : Prop :=
  ∃ actions, s'.actions = s.actions ++ actions ∧ serverOrder.Run s.server actions s'.server

theorem Ordered.of_same (hserver : s'.server = s.server) (hactions : s'.actions = s.actions) :
    Ordered s s' :=
  ⟨[], by rw [hactions, List.append_nil], hserver ▸ .nil⟩

theorem Ordered.trans {s'' : ServerProcess} (h : Ordered s s') (h' : Ordered s' s'') :
    Ordered s s'' := by
  obtain ⟨actions, hactions, hrun⟩ := h
  obtain ⟨actions', hactions', hrun'⟩ := h'
  exact ⟨actions ++ actions', by rw [hactions', hactions, List.append_assoc], hrun.append hrun'⟩

theorem MayCall.ordered (h : MayCall c s a) (hact : s.server.act a = .ok server) :
    Ordered s (s.after server a) :=
  ⟨[a], rfl, .single h.enabled hact⟩

/-- What a step keeps. -/
def Keeps (c : Sockets) (s s' : ServerProcess) : Prop := Orderly c s' ∧ Ordered s s'

namespace Orderly

theorem after (h : Orderly c s) (hmay : MayCall c s a) (hact : s.server.act a = .ok server) :
    Orderly c (s.after server a) where
  consistent := Server.act_consistent h.consistent hmay.enabled.2 hact
  idle := h.idle
  onePlace fd hfd := by
    refine ⟨(h.onePlace fd hfd).once, ?_⟩
    intro harmed
    rcases Server.armed_of_act hact harmed with hbefore | ha
    · exact (h.onePlace fd hfd).armed hbefore
    · exact (hmay.added fd ha).2.1
  known fd hreg := by
    rcases Server.registered_of_act hact hreg with hbefore | ha
    · exact h.known fd hbefore
    · exact (hmay.added fd ha).1
  armed fd harmed hforb := by
    by_cases ha : a = .addfd fd
    · subst ha
      cases hact
      obtain ⟨harmed, hforb⟩ := Server.armed_of_addfd harmed hforb
      exact h.armed fd harmed hforb
    · have hbefore := (Server.armed_of_act hact harmed).resolve_right ha
      rcases Server.forbidden_of_act hact hforb with hforb | ⟨ha, hreg⟩
      · exact h.armed fd hbefore hforb
      · exact (hmay.forbids fd ha hreg).1 hbefore
  pending fd hfd hforb := by
    rcases Server.forbidden_of_act hact hforb with hforb | ⟨ha, hreg⟩
    · exact h.pending fd hfd hforb
    · exact (hmay.forbids fd ha hreg).2 hfd
  dispatched fd hfd := by
    have hne : a ≠ .addfd fd := by
      intro ha
      exact (hmay.added fd ha).2.1 (s.dispatched_subset hfd)
    exact Server.dispatched_of_act hact hne (h.dispatched fd hfd)

/-- A step that moves descriptors from hand to hand, or lets go of them. -/
theorem moves (h : Orderly c s) (hserver : s'.server = s.server)
    (hactions : s'.actions = s.actions) (hidle : s'.pc = .epollWait → s'.events = [])
    (hcount : ∀ fd, c.IsConnection fd → s'.engaged.count fd ≤ s.engaged.count fd)
    (hpending : s'.pending ⊆ s.pending)
    (hdisp : ∀ fd ∈ s'.dispatched, fd ∈ s.dispatched ∨ Dispatched s.server.timer fd) :
    Keeps c s s' := by
  refine ⟨⟨hserver ▸ h.consistent, hidle, ?_, hserver ▸ h.known, hserver ▸ h.armed, ?_, ?_⟩,
    .of_same hserver hactions⟩
  · intro fd hfd
    have hle := hcount fd hfd
    refine ⟨hle.trans (h.onePlace fd hfd).once, ?_⟩
    intro harmed hmem
    rw [hserver] at harmed
    have hpos := List.count_pos_iff.mpr hmem
    exact (h.onePlace fd hfd).armed harmed (List.count_pos_iff.mp (by omega))
  · intro fd hfd
    rw [hserver]
    exact h.pending fd (hpending hfd)
  · intro fd hfd
    rw [hserver]
    exact (hdisp fd hfd).elim (h.dispatched fd) id

/-- The same hands, and the same descriptors pending and dispatched. -/
theorem stays (h : Orderly c s) (hserver : s'.server = s.server)
    (hactions : s'.actions = s.actions) (hidle : s'.pc = .epollWait → s'.events = [])
    (hpending : s'.pending = s.pending) (hdisp : s'.dispatched = s.dispatched) :
    Keeps c s s' := by
  refine h.moves hserver hactions hidle ?_ (by rw [hpending]; exact List.Subset.refl _) ?_
  · intro fd _
    have hcount := s.engaged_perm.count_eq fd
    have hcount' := s'.engaged_perm.count_eq fd
    rw [hpending, hdisp] at hcount'
    omega
  · intro fd hfd
    exact .inl (hdisp ▸ hfd)

/-- What is not a connection has no entry. -/
theorem dispatched_other (h : Orderly c s) (hfd : ¬ c.IsConnection fd) :
    Dispatched s.server.timer fd :=
  .inl fun hreg => hfd (h.known fd hreg)

end Orderly

theorem Orderly.forbids (h : Orderly c s) (hpc : s.pc = .forbidenFd fd)
    (hact : s.server.act (.forbidenFd fd) = .ok server) :
    Keeps c s { s.after server (.forbidenFd fd) with pc := .appendFd fd } := by
  have hpending : s.pending = fd :: s.events := by simp [ServerProcess.pending, hpc, MainPc.pending]
  have hmem : fd ∈ s.pending := by simp [hpending]
  have hengaged : fd ∈ s.engaged := s.pending_subset hmem
  -- the event is put aside while its descriptor is forbidden
  have hdropped : Keeps c s { s with pc := .event } := by
    refine h.moves rfl rfl (by simp) ?_ ?_ ?_
    · intro fd' _
      simp only [engaged, hpc, MainPc.fds, List.count_append, List.count_nil]
      omega
    · simp [ServerProcess.pending, hpc, MainPc.pending]
    · intro fd' hfd'
      left
      simpa [ServerProcess.dispatched, hpc, MainPc.forbidden] using hfd'
  have hmay : MayCall c { s with pc := .event } (.forbidenFd fd) := by
    refine ⟨trivial, by simp, ?_⟩
    intro fd' heq hreg
    cases heq
    have hone := h.onePlace fd (h.known fd hreg)
    refine ⟨fun harmed => hone.armed harmed hengaged, ?_⟩
    intro hmem
    have hmem : fd ∈ s.events := by simpa [ServerProcess.pending, MainPc.pending] using hmem
    have honce := hone.once
    have hcount := List.count_pos_iff.mpr hmem
    rw [s.engaged_perm.count_eq, hpending, List.count_append, List.count_cons_self] at honce
    omega
  have hafter := hdropped.1.after hmay hact
  have hkernel : server.kernel = s.server.kernel := Timer.forbidenFd_kernel hact
  refine ⟨⟨hafter.consistent, by simp, ?_, hafter.known, hafter.armed, hafter.pending, ?_⟩,
    hmay.ordered hact⟩
  · intro fd' hfd'
    have hone := h.onePlace fd' hfd'
    have hsame : engaged { s.after server (.forbidenFd fd) with pc := .appendFd fd } =
        s.engaged := by simp [engaged, ServerProcess.after, hpc, MainPc.fds]
    refine ⟨hsame ▸ hone.once, ?_⟩
    rw [hsame]
    intro harmed
    have harmed : server.kernel.Armed fd' := harmed
    exact hone.armed (hkernel ▸ harmed)
  · intro fd' hfd'
    have hcases : fd' = fd ∨ fd' ∈ ServerProcess.dispatched
        (ServerProcess.after { s with pc := .event } server (.forbidenFd fd)) := by
      simpa [ServerProcess.dispatched, ServerProcess.after, MainPc.forbidden] using hfd'
    rcases hcases with rfl | hmem
    · exact Server.dispatched_forbidenFd hact
    · exact hafter.dispatched fd' hmem

theorem MainStep.keeps (hstep : MainStep c s s') (h : Orderly c s) : Keeps c s s' := by
  cases hstep with
  | waits hpc hevents =>
    exact h.stays rfl rfl (fun _ => rfl) (by simp [pending, hpc, hevents, MainPc.pending])
      (by simp [dispatched, hpc, MainPc.forbidden])
  | listening hpc hevents | other hpc hevents =>
    exact h.stays rfl rfl (by simp) (by simp [pending, hpc, hevents, MainPc.pending])
      (by simp [dispatched, hpc, MainPc.forbidden])
  | notPipe hpc | reads hpc | readAll hpc | skips hpc | setsAlarm hpc =>
    exact h.stays rfl rfl (by simp) (by simp [pending, hpc, MainPc.pending])
      (by simp [dispatched, hpc, MainPc.forbidden])
  | appendsFailed hpc =>
    have hnot : ¬ c.IsConnection (-1) := fun hconn => absurd hconn.1 (by decide)
    refine h.moves rfl rfl (by simp) ?_ (by simp [pending, hpc, MainPc.pending]) ?_
    · intro fd hfd
      have hne : (-1 : ℤ) ≠ fd := fun heq => hnot (heq ▸ hfd)
      simp [engaged, hpc, MainPc.fds, List.count_cons, hne]
    · intro fd hfd
      simp only [dispatched, hpc, MainPc.forbidden, List.mem_append, List.mem_singleton] at hfd ⊢
      by_cases heq : fd = -1
      · exact .inr (heq ▸ h.dispatched_other hnot)
      · left
        tauto
  | pipe hpc =>
    refine h.moves rfl rfl (by simp) ?_ (by simp [pending, hpc, MainPc.pending]) ?_
    · intro fd _
      simp only [engaged, hpc, MainPc.fds, List.count_append, List.count_nil]
      omega
    · intro fd hfd
      left
      simpa [dispatched, hpc, MainPc.forbidden] using hfd
  | forbids hpc hact => exact h.forbids hpc hact
  | appends hpc =>
    refine h.moves rfl rfl (by simp) ?_ (by simp [pending, hpc, MainPc.pending]) ?_
    · intro fd _
      simp only [engaged, hpc, MainPc.fds, List.count_append, List.count_nil]
      omega
    · intro fd hfd
      left
      simp only [dispatched, hpc, MainPc.forbidden, List.mem_append] at hfd ⊢
      tauto
  | @expires signals server hpc hact =>
    have hmay : MayCall c s .deleteExpiredFd := .of_possible trivial (by simp) (by simp)
    have hafter : Keeps c (s.after server .deleteExpiredFd)
        { s.after server .deleteExpiredFd with pc := .alarm signals } :=
      (h.after hmay hact).stays rfl rfl (by simp) (by simp [pending, hpc, MainPc.pending, after])
        (by simp [dispatched, hpc, MainPc.forbidden, after])
    exact ⟨hafter.1, hmay.ordered hact⟩

end ServerProcess
end LxcHttpServer
