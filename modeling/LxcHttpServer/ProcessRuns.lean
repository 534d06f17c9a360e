import LxcHttpServer.ProcessOrder

/-!
# Runs of the process

The steps of the kernel and of the threads keep the order as well. So a run of the process is a
run of the timer in the order of the server, however the threads and the loop take turns, and a
step fails in two places only: the handler meets a forbidden entry, or the alarm an empty list.
-/
namespace LxcHttpServer
open IteratorLists PartialRuns

namespace Server

variable {s : Server} {fd fd' : ℤ} {fds : List ℤ}

theorem armed_deliver_of_ne {k : Kernel} (hne : fd ≠ fd') :
    (k.deliver fd').Armed fd ↔ k.Armed fd := by
  simp only [Kernel.Armed, Kernel.deliver, AList.lookup_insert_ne hne]

theorem timer_deliverAll (fds : List ℤ) (s : Server) : (s.deliverAll fds).timer = s.timer := by
  induction fds generalizing s with
  | nil => rfl
  | cons fd fds ih => exact ih _

theorem armed_of_deliverAll (h : (s.deliverAll fds).kernel.Armed fd) :
    s.kernel.Armed fd ∧ fd ∉ fds := by
  induction fds generalizing s with
  | nil => exact ⟨h, List.not_mem_nil⟩
  | cons fd' fds ih =>
    obtain ⟨harmed, hnot⟩ := ih h
    by_cases hne : fd = fd'
    · subst hne
      simp [Kernel.deliver, Kernel.Armed] at harmed
    · rw [armed_deliver_of_ne hne] at harmed
      exact ⟨harmed, by simp [hne, hnot]⟩

end Server

namespace ServerProcess

variable {c : Sockets} {s s' : ServerProcess} {server : Server} {a : Action} {fd : ℤ}
  {fds : List ℤ}

theorem Orderly.delivered (h : Orderly c s) (hnodup : fds.Nodup)
    (harmed : ∀ fd ∈ fds, s.server.kernel.Armed fd) : Keeps c s (s.delivered fds) := by
  induction fds generalizing s with
  | nil =>
    rw [delivered_nil]
    exact ⟨h, .of_same rfl rfl⟩
  | cons fd fds ih =>
    rw [List.nodup_cons] at hnodup
    rw [List.forall_mem_cons] at harmed
    have hmay : MayCall c s (.deliver fd) := .of_possible harmed.1 (by simp) (by simp)
    have hact : s.server.act (.deliver fd) =
        .ok { s.server with kernel := s.server.kernel.deliver fd } := rfl
    have hstill : ∀ fd' ∈ fds, (s.server.kernel.deliver fd).Armed fd' := by
      intro fd' hfd'
      have hne : fd' ≠ fd := ne_of_mem_of_not_mem hfd' hnodup.1
      rw [Server.armed_deliver_of_ne hne]
      exact harmed.2 fd' hfd'
    obtain ⟨horderly, hordered⟩ := ih (h.after hmay hact) hnodup.2 hstill
    rw [delivered_cons]
    exact ⟨horderly, (hmay.ordered hact).trans hordered⟩

/-- An event that is reported comes from an armed connection, or from what has no entry. -/
theorem Orderly.not_forbidden (h : Orderly c s) (hfd : s.Reported c fd) :
    ¬ s.server.timer.Forbidden fd := by
  by_cases hclient : c.IsClient fd
  · simp only [Reported, hclient.1, hclient.2, if_false] at hfd
    exact h.armed fd hfd
  · have hconn : ¬ c.IsConnection fd := fun hconn => hclient hconn.2
    intro hforb
    apply hconn
    apply h.known
    exact AList.lookup_isSome.mp (Option.isSome_of_eq_some hforb)

theorem armed_of_reported (hclient : c.IsClient fd) (h : s.Reported c fd) :
    s.server.kernel.Armed fd := by
  simpa only [Reported, hclient.1, hclient.2, if_false] using h

theorem Orderly.epollWait {events : List ℤ} (h : Orderly c s) (hpc : s.pc = .epollWait)
    (hnodup : events.Nodup) (hevents : ∀ fd ∈ events, s.Reported c fd)
    (hstep : performAll ((events.filter c.IsClient).map .deliver)
      { s with pc := .event, events := events } = .ok s') : Keeps c s s' := by
  rw [performAll_deliver] at hstep
  cases hstep
  have hnone := h.idle hpc
  have hclients : ∀ fd ∈ events.filter c.IsClient, s.server.kernel.Armed fd := by
    intro fd hfd
    obtain ⟨hmem, hclient⟩ := List.mem_filter.mp hfd
    exact armed_of_reported (of_decide_eq_true hclient) (hevents fd hmem)
  obtain ⟨hafter, hordered⟩ := h.delivered (hnodup.filter _) hclients
  have htimer := Server.timer_deliverAll (events.filter c.IsClient) s.server
  refine ⟨⟨hafter.consistent, by simp [ServerProcess.delivered], ?_, hafter.known, hafter.armed,
    ?_, ?_⟩, hordered⟩
  · intro fd hfd
    have hcount : (ServerProcess.delivered (events.filter c.IsClient)
        { s with pc := .event, events := events }).engaged.count fd =
        events.count fd + s.engaged.count fd := by
      simp only [engaged, ServerProcess.delivered, hpc, hnone, MainPc.fds, List.count_append,
        List.count_nil]
      omega
    have hone := h.onePlace fd hfd
    have honce := List.nodup_iff_count_le_one.mp hnodup fd
    refine ⟨?_, ?_⟩
    · rw [hcount]
      by_cases hmem : fd ∈ events
      · have hnot := hone.armed (armed_of_reported hfd.2 (hevents fd hmem))
        rw [List.count_eq_zero_of_not_mem hnot]
        exact honce
      · rw [List.count_eq_zero_of_not_mem hmem, Nat.zero_add]
        exact hone.once
    · intro harmed hmem
      obtain ⟨hbefore, hnot⟩ := Server.armed_of_deliverAll harmed
      have hpos := List.count_pos_iff.mpr hmem
      rw [hcount, List.count_eq_zero_of_not_mem (hone.armed hbefore), Nat.add_zero] at hpos
      apply hnot
      exact List.mem_filter.mpr ⟨List.count_pos_iff.mp hpos, decide_eq_true hfd.2⟩
  · intro fd hfd
    have hmem : fd ∈ events := hfd
    intro hforb
    have hforb : (s.server.deliverAll (events.filter c.IsClient)).timer.Forbidden fd := hforb
    rw [htimer] at hforb
    exact h.not_forbidden (hevents fd hmem) hforb
  · intro fd hfd
    apply hafter.dispatched
    simpa [ServerProcess.dispatched, ServerProcess.delivered, hpc, MainPc.forbidden] using hfd

/-- A call after the descriptors have changed hands. -/
theorem Keeps.perform {t : ServerProcess} (h : Keeps c s t) (hmay : MayCall c t a)
    (hstep : t.perform a = .ok s') : Keeps c s s' := by
  obtain ⟨server, hact, rfl⟩ := perform_eq_ok.mp hstep
  exact ⟨h.1.after hmay hact, h.2.trans (hmay.ordered hact)⟩

/-- A thread lets go of its descriptor. -/
theorem Orderly.lets_go (h : Orderly c s) (fd : ℤ) :
    Keeps c s { s with serving := s.serving.erase fd } := by
  refine h.moves rfl rfl h.idle ?_ (List.Subset.refl _) ?_
  · intro fd' _
    have hle : (s.serving.erase fd).count fd' ≤ s.serving.count fd' :=
      List.erase_sublist.count_le fd'
    simp only [engaged, List.count_append]
    omega
  · intro fd' hfd'
    left
    simp only [ServerProcess.dispatched, List.mem_append] at hfd' ⊢
    have hmem := List.mem_of_mem_erase (l := s.serving) (a := fd') (b := fd)
    tauto

/-- The descriptor a thread has let go of is in no other hand. -/
theorem Orderly.released (h : Orderly c s) (hfd : fd ∈ s.serving) (hconn : c.IsConnection fd) :
    fd ∉ engaged { s with serving := s.serving.erase fd } := by
  intro hmem
  have honce := (h.onePlace fd hconn).once
  have hpos := List.count_pos_iff.mpr hmem
  have hserving := List.count_pos_iff.mpr hfd
  simp only [engaged, List.count_append, List.count_erase_self] at honce hpos
  omega

/-- A descriptor goes from one hand to the next. -/
theorem Orderly.hands_on (h : Orderly c s) (hserver : s'.server = s.server)
    (hactions : s'.actions = s.actions) (hidle : s'.pc = .epollWait → s'.events = [])
    (hpending : s'.pending = s.pending) (hdisp : s'.dispatched.Perm s.dispatched) :
    Keeps c s s' := by
  refine h.moves hserver hactions hidle ?_ (by rw [hpending]; exact List.Subset.refl _) ?_
  · intro fd _
    have hcount := s.engaged_perm.count_eq fd
    have hcount' := s'.engaged_perm.count_eq fd
    have heq := hdisp.count_eq fd
    rw [hpending] at hcount'
    rw [List.count_append] at hcount hcount'
    omega
  · intro fd hfd
    exact .inl (hdisp.mem_iff.mp hfd)

theorem Orderly.signalHandler (h : Orderly c s) (sig : UInt8) :
    Keeps c s (s.signalHandler sig) := by
  rw [ServerProcess.signalHandler]
  split_ifs
  · exact h.stays rfl rfl h.idle rfl rfl
  · exact ⟨h, .of_same rfl rfl⟩

/-- `takes` the first descriptor of the work list. -/
theorem Orderly.takes {workList : List ℤ} (h : Orderly c s) (hwork : s.workList = fd :: workList) :
    Keeps c s { s with workList := workList, serving := fd :: s.serving } := by
  refine h.hands_on rfl rfl h.idle rfl ?_
  rw [List.perm_iff_count]
  intro fd'
  simp only [ServerProcess.dispatched, hwork, List.count_append, List.count_cons]
  omega

/-- The handler takes over the descriptor of a call. -/
theorem Orderly.raises (h : Orderly c s) (hfd : fd ∈ s.serving) :
    Keeps c s { s with serving := s.serving.erase fd, deleting := fd :: s.deleting } := by
  refine h.hands_on rfl rfl h.idle rfl ?_
  rw [List.perm_iff_count]
  intro fd'
  have hserving := (List.perm_cons_erase hfd).count_eq fd'
  simp only [ServerProcess.dispatched, List.count_append, List.count_cons] at hserving ⊢
  omega

theorem Orderly.deletes (h : Orderly c s) (hfd : fd ∈ s.deleting) :
    Keeps c s { s with deleting := s.deleting.erase fd, closing := fd :: s.closing } := by
  refine h.hands_on rfl rfl h.idle rfl ?_
  rw [List.perm_iff_count]
  intro fd'
  have hdeleting := (List.perm_cons_erase hfd).count_eq fd'
  simp only [ServerProcess.dispatched, List.count_append, List.count_cons] at hdeleting ⊢
  omega

theorem Orderly.closes (h : Orderly c s) (fd : ℤ) :
    Keeps c s { s with closing := s.closing.erase fd } := by
  refine h.moves rfl rfl h.idle ?_ (List.Subset.refl _) ?_
  · intro fd' _
    have hle : (s.closing.erase fd).count fd' ≤ s.closing.count fd' :=
      List.erase_sublist.count_le fd'
    simp only [engaged, List.count_append]
    omega
  · intro fd' hfd'
    left
    simp only [ServerProcess.dispatched, List.mem_append] at hfd' ⊢
    have hmem := List.mem_of_mem_erase (l := s.closing) (a := fd') (b := fd)
    tauto

/-- `accept` has failed, and the loop over it ends. -/
theorem Orderly.acceptFails (h : Orderly c s) (hpc : s.pc = .accept fd) :
    Keeps c s { s with pc := .appendAccepted fd } :=
  h.stays rfl rfl (by simp) (by simp [ServerProcess.pending, hpc, MainPc.pending])
    (by simp [ServerProcess.dispatched, hpc, MainPc.forbidden])

theorem Orderly.step {l : Label} (h : Orderly c s) (hen : s.enabled c l)
    (hstep : s.step c l = .ok s') : Keeps c s s' := by
  have hsame : Keeps c s s := ⟨h, .of_same rfl rfl⟩
  cases l with
  | epollWait events => exact h.epollWait hen.1 hen.2.2.1 hen.2.2.2 hstep
  | main => exact (main_cases hen hstep).keeps h
  | accept clientSocketFd =>
    have hpre : Keeps c s { s with accepted := s.accepted ++ [clientSocketFd] } :=
      h.stays rfl rfl h.idle rfl rfl
    exact hpre.perform (a := .accept clientSocketFd)
      (.of_possible hen.2.2.2 (by simp) (by simp)) hstep
  | acceptFails =>
    have hpc : s.pc = .accept c.serverSocketfd := hen
    simp only [ServerProcess.step, hpc] at hstep
    cases hstep
    exact h.acceptFails hpc
  | alarm =>
    cases hstep
    have hunset : Keeps c s { s with alarm := none } := h.stays rfl rfl h.idle rfl rfl
    obtain ⟨hunset, hordered⟩ := hunset
    obtain ⟨horderly, hordered'⟩ := hunset.signalHandler SIGALRM
    exact ⟨horderly, hordered.trans hordered'⟩
  | kill =>
    cases hstep
    exact h.signalHandler SIGALRM
  | elapse usec =>
    exact hsame.perform (a := .elapse usec) (.of_possible trivial (by simp) (by simp)) hstep
  | take =>
    cases hwork : s.workList with
    | nil => exact absurd hwork hen
    | cons fd workList =>
      simp only [ServerProcess.step, hwork] at hstep
      cases hstep
      exact h.takes hwork
  | openOwn fd =>
    have hpre : Keeps c s { s with own := fd :: s.own } := h.stays rfl rfl h.idle rfl rfl
    exact hpre.perform (a := .accept fd) (.of_possible hen.2.2 (by simp) (by simp)) hstep
  | closeOwn fd =>
    have hpre : Keeps c s { s with own := s.own.erase fd } := h.stays rfl rfl h.idle rfl rfl
    exact hpre.perform (a := .close fd) (.of_possible trivial (by simp) (by simp)) hstep
  | keep fd =>
    have hserving : fd ∈ s.serving := hen.1
    have hdisp : Dispatched s.server.timer fd := by
      apply h.dispatched
      simp only [ServerProcess.dispatched, List.mem_append]
      tauto
    refine (h.lets_go fd).perform (a := .addfd fd) ⟨trivial, ?_, by simp⟩ hstep
    intro fd' heq
    cases heq
    exact ⟨hen.2, h.released hen.1 hen.2, hdisp⟩
  | close fd =>
    exact (h.lets_go fd).perform (a := .close fd)
      (.of_possible trivial (by simp) (by simp)) hstep
  | leave fd =>
    cases hstep
    exact h.lets_go fd
  | raise fd =>
    cases hstep
    exact h.raises hen
  | deleteFd fd =>
    exact (h.deletes hen).perform (a := .deleteFd fd)
      (.of_possible trivial (by simp) (by simp)) hstep
  | closeRaised fd =>
    exact (h.closes fd).perform (a := .close fd)
      (.of_possible trivial (by simp) (by simp)) hstep

/-- A server whose loop has not begun: whoever is armed or has an entry is a connection that was
kept, and nobody is forbidden. -/
structure Resting (c : Sockets) (server : Server) : Prop where
  consistent : server.Consistent
  known : ∀ fd, server.timer.Registered fd → c.IsConnection fd
  armed : ∀ fd, server.kernel.Armed fd → ¬ server.timer.Forbidden fd

theorem Resting.orderly (h : Resting c server) : Orderly c (start server) where
  consistent := h.consistent
  idle _ := rfl
  onePlace fd _ := ⟨by simp [engaged, start, MainPc.fds], by simp [engaged, start, MainPc.fds]⟩
  known := h.known
  armed := h.armed
  pending fd hfd := by simp [ServerProcess.pending, start, MainPc.pending] at hfd
  dispatched fd hfd := by simp [ServerProcess.dispatched, start, MainPc.forbidden] at hfd

/-- Where the loop begins with a new timer. -/
theorem Resting.of_new (c : Sockets) (timeout maxSize : ℤ) (k : Kernel) :
    Resting c ⟨.new timeout maxSize, k⟩ :=
  ⟨.of_new timeout maxSize k, by simp [Timer.Registered, Timer.new],
    by simp [Timer.Forbidden, Timer.new]⟩

theorem Resting.of_keys (h : server.Consistent)
    (hkeys : ∀ fd ∈ server.timer.hashMap.keys, c.IsConnection fd ∧ ¬ server.timer.Forbidden fd) :
    Resting c server := by
  refine ⟨h, fun fd hreg => (hkeys fd hreg).1, ?_⟩
  intro fd _ hforb
  have hreg : server.timer.Registered fd :=
    AList.lookup_isSome.mp (Option.isSome_of_eq_some hforb)
  exact (hkeys fd hreg).2 hforb

variable {as : List Label}

theorem Orderly.run (h : Orderly c s) (hrun : (serverProcess c).Run s as s') : Keeps c s s' := by
  induction hrun with
  | nil => exact ⟨h, .of_same rfl rfl⟩
  | snoc run enabled step ih =>
    obtain ⟨horderly, hordered⟩ := ih.1.step enabled step
    exact ⟨horderly, ih.2.trans hordered⟩

/-- The connections 5 and 6 are kept, 5 has an event, and its call raises an exception while
`main` is about to see an alarm. -/
def raisedRun : List Label := [.epollWait [5], .main, .main, .main, .main, .take, .main, .kill,
  .epollWait [4], .main, .main, .main, .raise 5]

theorem exists_raised : ∃ server s, Resting ⟨3, 4⟩ server ∧
    (serverProcess ⟨3, 4⟩).Run (start server) raisedRun s ∧ s.deleting = [5] ∧
    s.actions = [.deliver 5, .forbidenFd 5] ∧ s.server.timer.Forbidden 5 ∧
    s.pc = .signal [SIGALRM] ∧ (s.main ⟨3, 4⟩).toOption.isSome := by
  have hex : ∃ server, serverOrder.Run ⟨.new 15 1000, .boot⟩
      [.accept 5, .addfd 5, .accept 6, .addfd 6] server ∧
      (∀ fd ∈ server.timer.hashMap.keys,
        (⟨3, 4⟩ : Sockets).IsConnection fd ∧ ¬ server.timer.Forbidden fd) ∧
      ((serverProcess ⟨3, 4⟩).exec (start server) raisedRun).any fun s => s.deleting = [5] ∧
        s.actions = [.deliver 5, .forbidenFd 5] ∧ s.server.timer.Forbidden 5 ∧
        s.pc = .signal [SIGALRM] ∧ (s.main ⟨3, 4⟩).toOption.isSome :=
    System.Run.exists_of_exec (by decide +kernel)
  obtain ⟨server, hserver, hkeys, hexec⟩ := hex
  obtain ⟨s, hrun, hs⟩ := System.Run.exists_of_exec hexec
  exact ⟨server, s, .of_keys (Server.consistent_of_run hserver) hkeys, hrun, hs⟩

/-- In a run of the process a connection is with the loop, the work list or one thread, in one of
them at most, and armed only when it is with none. -/
theorem one_place (hrest : Resting c server) (hrun : (serverProcess c).Run (start server) as s)
    (hfd : c.IsConnection fd) : s.OnePlace fd :=
  (hrest.orderly.run hrun).1.onePlace fd hfd

theorem one_place_raised : ∃ server s, (serverProcess ⟨3, 4⟩).Run (start server) raisedRun s ∧
    s.deleting = [5] ∧ s.OnePlace 5 := by
  obtain ⟨server, s, hrest, hrun, hdeleting, -⟩ := exists_raised
  exact ⟨server, s, hrun, hdeleting, one_place hrest hrun (by decide)⟩

/-- In a run of the process the calls of the timer and the kernel are in the order of the
server. -/
theorem calls_ordered (hrest : Resting c server)
    (hrun : (serverProcess c).Run (start server) as s) :
    serverOrder.Run server s.actions s.server := by
  obtain ⟨actions, hactions, hordered⟩ := (hrest.orderly.run hrun).2
  have heq : s.actions = actions := hactions
  rw [heq]
  exact hordered

theorem calls_ordered_raised : ∃ (server : Server) (s : ServerProcess),
    serverOrder.Run server [.deliver 5, .forbidenFd 5] s.server ∧ s.deleting = [5] := by
  obtain ⟨server, s, hrest, hrun, hdeleting, hactions, -⟩ := exists_raised
  exact ⟨server, s, hactions ▸ calls_ordered hrest hrun, hdeleting⟩

end ServerProcess

/-! ## Faults -/

namespace Server

variable {s : Server} {a : Action} {fault : IteratorFault}

/-- The alarm comes to the end of the list before the counter is zero. -/
def RunsDry (s : Server) : Prop :=
  (∀ n ∈ s.timer.timeList.values, Timer.expired s.kernel.gettimeofday n) ∧
    (s.timer.timeList.size : ℤ) < s.timer.curSize

theorem deleteExpiredFd_eq_error_iff (h : s.Consistent) :
    s.act .deleteExpiredFd = .error fault ↔ fault = .emptyFront ∧ s.RunsDry := by
  simp only [act, Timer.deleteExpiredFd_eq h]
  split_ifs with hdry
  · have hdry : s.RunsDry := hdry
    simp [hdry, eq_comm]
  · have hdry : ¬ s.RunsDry := hdry
    simp [hdry]

theorem Consistent.entry_cases (h : s.Consistent) (fd : ℤ) :
    s.timer.hashMap.lookup fd = none ∨ s.timer.hashMap.lookup fd = some .pastEnd ∨
      ∃ id, s.timer.hashMap.lookup fd = some (.node id) ∧
        s.timer.timeList.Designated (.node id) := by
  by_cases hreg : s.timer.Registered fd
  · by_cases hforb : s.timer.Forbidden fd
    · exact .inr (.inl hforb)
    · obtain ⟨id, -, hl, -⟩ := h.exists_node hreg hforb
      exact .inr (.inr ⟨id, hl, h.designated hl⟩)
  · exact .inl (AList.lookup_eq_none.mpr hreg)

theorem forbidenFd_eq_error_iff (h : s.Consistent) {fd : ℤ} :
    s.act (.forbidenFd fd) = .error fault ↔ fault = .pastEnd ∧ s.timer.Forbidden fd := by
  rcases h.entry_cases fd with hl | hl | ⟨id, hl, hid⟩
  · simp [act, Timer.forbidenFd_unregistered (AList.lookup_eq_none.mp hl), Timer.Forbidden, hl]
  · simp [act, Timer.forbidenFd_forbidden hl, Timer.Forbidden, hl, eq_comm]
  · simp [act, Timer.forbidenFd_node hl hid, Timer.Forbidden, hl]

theorem deleteFd_eq_error_iff (h : s.Consistent) {fd : ℤ} :
    s.act (.deleteFd fd) = .error fault ↔ fault = .pastEnd ∧ s.timer.Forbidden fd := by
  rcases h.entry_cases fd with hl | hl | ⟨id, hl, hid⟩
  · simp [act, Timer.deleteFd_unregistered (AList.lookup_eq_none.mp hl), Timer.Forbidden, hl]
  · simp [act, Timer.deleteFd_forbidden hl, Timer.Forbidden, hl, eq_comm]
  · simp [act, Timer.deleteFd_node hl hid, Timer.Forbidden, hl]

end Server

namespace ServerProcess

variable {c : Sockets} {s s' : ServerProcess} {server : Server} {a : Action} {fd : ℤ}
  {as : List Label} {l : Label} {fault : IteratorFault}

theorem perform_eq_error : s.perform a = .error fault ↔ s.server.act a = .error fault := by
  rw [perform]
  cases s.server.act a with
  | error fault' => simp
  | ok server => simp

/-- `main` is about to let the timer expire its entries. -/
def AtAlarm (s : ServerProcess) : Prop := ∃ signals, s.pc = .signal (SIGALRM :: signals)

theorem Orderly.main_eq_error_iff (h : Orderly c s) :
    s.main c = .error fault ↔ fault = .emptyFront ∧ s.AtAlarm ∧ s.server.RunsDry := by
  cases hpc : s.pc with
  | epollWait | accept | appendAccepted | testPipe | appendFd | read | alarm =>
    simp [ServerProcess.main, AtAlarm, hpc]
  | event =>
    cases hevents : s.events with
    | nil => simp [ServerProcess.main, AtAlarm, hpc, hevents]
    | cons fd events => simp [ServerProcess.main, AtAlarm, hpc, hevents]
  | forbidenFd fd =>
    have hmem : fd ∈ s.pending := by simp [ServerProcess.pending, hpc, MainPc.pending]
    have hforb := h.pending fd hmem
    simp [ServerProcess.main, AtAlarm, hpc, perform_eq_error,
      Server.forbidenFd_eq_error_iff h.consistent, hforb]
  | signal signals =>
    cases signals with
    | nil => simp [ServerProcess.main, AtAlarm, hpc]
    | cons signal signals =>
      by_cases hsignal : signal = SIGALRM
      · simp [ServerProcess.main, AtAlarm, hpc, hsignal, perform_eq_error,
          Server.deleteExpiredFd_eq_error_iff h.consistent]
      · simp [ServerProcess.main, AtAlarm, hpc, hsignal]

theorem Orderly.step_eq_error_iff (h : Orderly c s) : s.step c l = .error fault ↔
    (fault = .emptyFront ∧ l = .main ∧ s.AtAlarm ∧ s.server.RunsDry) ∨
    (fault = .pastEnd ∧ ∃ fd, l = .deleteFd fd ∧ s.server.timer.Forbidden fd) := by
  cases l with
  | epollWait events => simp [ServerProcess.step, performAll_deliver]
  | main => simp [ServerProcess.step, h.main_eq_error_iff]
  | acceptFails =>
    simp only [ServerProcess.step]
    split <;> simp
  | take =>
    simp only [ServerProcess.step]
    split <;> simp
  | deleteFd fd =>
    simp [ServerProcess.step, perform_eq_error, Server.deleteFd_eq_error_iff h.consistent]
  | accept | elapse | openOwn | closeOwn | keep | close | closeRaised =>
    simp [ServerProcess.step, perform_eq_error, Server.act]
  | alarm | kill | leave | raise => simp [ServerProcess.step]

/-- No step of `main` closes a connection that it has forbidden and that no thread has given
up. -/
theorem main_spares (hrest : Resting c server)
    (hrun : (serverProcess c).Run (start server) as s) (hfd : fd ∈ s.dispatched)
    (hready : s.MainReady) (hstep : s.main c = .ok s') :
    s'.server.kernel.closes.count fd = s.server.kernel.closes.count fd ∧
      (fd ∈ s'.server.kernel.openFds ↔ fd ∈ s.server.kernel.openFds) := by
  have h := (hrest.orderly.run hrun).1
  cases main_cases hready hstep with
  | forbids hpc hact =>
    have hkernel := Timer.forbidenFd_kernel hact
    simp [after, hkernel]
  | expires hpc hact =>
    have hexact := h.consistent.expiresExactly hact
    have hnot : fd ∉ s.server.dueFds := by
      intro hdue
      obtain ⟨hreg, hforb, -⟩ := (hexact.due_iff fd).mp hdue
      exact (h.dispatched fd hfd).elim (fun hnone => hnone hreg) hforb
    simp [after, hexact.closes, hexact.openFds, hnot, List.count_eq_zero_of_not_mem hnot]
  | waits | listening | other | appendsFailed | notPipe | pipe | appends | reads | readAll | skips
  | setsAlarm => exact ⟨rfl, Iff.rfl⟩

/-- The alarm goes off while the handler has the connection 5. -/
theorem main_spares_raised : ∃ server s s', (serverProcess ⟨3, 4⟩).Run (start server) raisedRun s ∧
    s.AtAlarm ∧ s.main ⟨3, 4⟩ = .ok s' ∧
    s'.server.kernel.closes.count 5 = s.server.kernel.closes.count 5 := by
  obtain ⟨server, s, hrest, hrun, hdeleting, -, -, hpc, hok⟩ := exists_raised
  cases hmain : s.main ⟨3, 4⟩ with
  | error fault => simp [hmain, Except.toOption] at hok
  | ok s' =>
    have hfd : 5 ∈ s.dispatched := by simp [dispatched, hdeleting]
    have hready : s.MainReady := by simp [MainReady, hpc]
    exact ⟨server, s, s', hrun, ⟨[], hpc⟩, hmain, (main_spares hrest hrun hfd hready hmain).1⟩

end ServerProcess
end LxcHttpServer
