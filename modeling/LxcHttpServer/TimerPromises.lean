import LxcHttpServer.TimerExpiry

/-!
# What `addfd` promises for the rest of a run

A descriptor that `addfd` accepted has a lease for the timeout, which no alarm ends
early as long as `addfd` never meets a live entry. Whether the descriptor is armed is
another matter: both branches of `addfd` call `EPOLL_CTL_ADD`, which does nothing for
a descriptor whose event has been delivered.
-/
namespace LxcHttpServer
open IteratorLists Leases PartialRuns

namespace Server

variable {s s' u u' : Server} {timeout maxSize : ℤ} {k : Kernel} {as bs : List Action}

/-- No action changes the timeout or turns back the clock. -/
theorem act_timeout_clock {a : Action} (h : s.Consistent) (hact : s.act a = .ok s') :
    s'.timer.timeout = s.timer.timeout ∧ s.kernel.clock ≤ s'.kernel.clock := by
  rcases act_cases hact with ⟨fd, rfl, rfl⟩ | ⟨fd, rfl, hs⟩ | ⟨fd, rfl, hs⟩ | ⟨rfl, hs⟩ |
    ⟨k, hclock, rfl⟩
  · rw [Timer.addfd_eq]
    split_ifs
    · exact ⟨rfl, le_refl _⟩
    · exact ⟨rfl, by simp [Timer.accepted]⟩
  · rcases Timer.forbidenFd_eq_ok hs with ⟨-, rfl⟩ | ⟨id, -, -, rfl⟩
    · exact ⟨rfl, le_refl _⟩
    · exact ⟨rfl, le_refl _⟩
  · rcases Timer.deleteFd_eq_ok hs with ⟨-, rfl⟩ | ⟨id, -, -, rfl⟩
    · exact ⟨rfl, le_refl _⟩
    · exact ⟨rfl, by simp [Timer.dropped, Kernel.deleteFdFromEpoll]⟩
  · rw [Timer.deleteExpiredFd_eq_ok h hs]
    exact ⟨Timer.timeout_expireAll _ s, (Timer.clock_expireAll _ s).ge⟩
  · exact ⟨rfl, hclock⟩

/-- The end of the lease that `addfd` grants now. -/
def leaseEnd (s : Server) : TimeVal := (Node.new 0 s.timer.timeout s.kernel).expireTime

theorem leaseEnd_mono (htimeout : s'.timer.timeout = s.timer.timeout)
    (hclock : s.kernel.clock ≤ s'.kernel.clock) : s.leaseEnd ≤ s'.leaseEnd := by
  have hmono := Kernel.gettimeofday_mono hclock
  simp only [leaseEnd, Node.new, TimeVal.le_def, htimeout] at hmono ⊢
  omega

/-- At most the timeout later no lease that runs as long is due. -/
theorem not_due_of_clock_le {d : TimeVal} (hd : s.leaseEnd ≤ d)
    (hclock : u.kernel.clock ≤ s.kernel.clock + s.timer.timeout * 1000000) :
    ¬ Timer.Due u.kernel.gettimeofday d := by
  have hsec := TimeVal.sec_le hd
  simp only [leaseEnd, Node.new, Kernel.gettimeofday, Timer.Due] at hsec ⊢
  omega

/-- The call of `addfd`, if there is room for it, meets no live entry. -/
def AddsNoLive (s : Server) : Action → Prop
  | .addfd fd => s.timer.curSize < s.timer.maxSize → ¬ s.timer.Registered fd ∨ s.timer.Forbidden fd
  | _ => True

instance (s : Server) : ∀ a, Decidable (s.AddsNoLive a)
  | .addfd fd => inferInstanceAs (Decidable (s.timer.curSize < s.timer.maxSize →
      ¬ s.timer.Registered fd ∨ s.timer.Forbidden fd))
  | .forbidenFd _ | .deleteFd _ | .deleteExpiredFd | .elapse _ | .accept _ | .deliver _
  | .close _ => inferInstanceAs (Decidable True)

theorem addsNoLive_iff {a : Action} : s.AddsNoLive a ↔ ∀ fd, a = .addfd fd →
    s.timer.curSize < s.timer.maxSize → ¬ s.timer.Registered fd ∨ s.timer.Forbidden fd := by
  cases a <;> simp [AddsNoLive]

/-- A call of `addfd` for a live entry that there is no room for does nothing. -/
theorem AddsNoLive.cases {a : Action} (h : s.AddsNoLive a) :
    s.ForbidsFirst a ∨ s.act a = .ok s := by
  cases a with
  | addfd fd =>
    by_cases hroom : s.timer.curSize < s.timer.maxSize
    · exact .inl (h hroom)
    · exact .inr (by simp only [act, Timer.addfd_full (not_lt.mp hroom)])
  | forbidenFd _ => exact .inl trivial
  | deleteFd _ => exact .inl trivial
  | deleteExpiredFd => exact .inl trivial
  | elapse _ => exact .inl trivial
  | accept _ => exact .inl trivial
  | deliver _ => exact .inl trivial
  | close _ => exact .inl trivial

theorem AddsNoLive.consistent {a : Action} (h : s.Consistent) (hlive : s.AddsNoLive a)
    (hact : s.act a = .ok s') : s'.Consistent := by
  rcases hlive.cases with hfirst | hsame
  · exact act_consistent h hfirst hact
  · cases hsame.symm.trans hact
    exact h

/-- A covered lease stays covered until the descriptor is deleted or its time is over. -/
theorem act_covered {a : Action} {fd : ℤ} (h : s.Consistent) (hlive : s.AddsNoLive a)
    (hact : s.act a = .ok s') (hdel : a ≠ .deleteFd fd) {d : TimeVal} (hnew : d ≤ s.leaseEnd)
    (hdue : ∀ d', d ≤ d' → ¬ Timer.Due s.kernel.gettimeofday d')
    (hcov : s.timer.leases.CoveredUntil fd d) : s'.timer.leases.CoveredUntil fd d := by
  rcases act_cases hact with ⟨fd', rfl, rfl⟩ | ⟨fd', rfl, hs⟩ | ⟨fd', rfl, hs⟩ | ⟨rfl, hs⟩ |
    ⟨k, -, rfl⟩
  · rw [Timer.addfd_eq]
    split_ifs with hfull
    · exact hcov
    · rw [Timer.leases_accepted h (hlive (not_le.mp hfull))]
      exact hcov.keep fd' _ fun _ => hnew
  · rw [Timer.leases_forbidenFd h hs]
    exact hcov.hold fd'
  · rw [Timer.leases_deleteFd h hs]
    apply hcov.drop
    rintro rfl
    exact hdel rfl
  · rw [Timer.leases_deleteExpiredFd h hs]
    exact hcov.expire hdue
  · exact hcov

/-- Calls in any order, as long as no live entry is refreshed. -/
def noRefresh : System Server Action IteratorFault := anyOrder.restrict AddsNoLive

instance (s : Server) (a : Action) : Decidable (noRefresh.enabled s a) :=
  inferInstanceAs (Decidable (anyOrder.enabled s a ∧ s.AddsNoLive a))

theorem noRefresh_consistent (h : s.Consistent) (hrun : noRefresh.Run s as s') : s'.Consistent := by
  apply hrun.invariant h
  intro t a t' ht hen hact
  exact hen.2.consistent ht hact

/-- An accepted descriptor stays covered along a run of at most the timeout. -/
theorem covered_of_run {fd : ℤ} (h : s.Consistent) (hroom : (Timer.addfd fd s).1 = true)
    (hlive : s.AddsNoLive (.addfd fd)) (hrun : noRefresh.Run (Timer.addfd fd s).2 bs u)
    (hdel : Action.deleteFd fd ∉ bs)
    (hclock : u.kernel.clock ≤ s.kernel.clock + s.timer.timeout * 1000000) :
    (u.timer.timeout = s.timer.timeout ∧ s.kernel.clock ≤ u.kernel.clock) ∧
      u.timer.leases.CoveredUntil fd s.leaseEnd := by
  have hlt := (Timer.addfd_fst fd s).mp hroom
  have hfirst := hlive hlt
  have hstart := Timer.accepted_consistent h hfirst
  rw [Timer.addfd_room hlt] at hrun
  induction hrun with
  | nil =>
    refine ⟨⟨rfl, by simp [Timer.accepted]⟩, ?_⟩
    rw [Timer.leases_accepted h hfirst]
    exact Table.coveredUntil_keep _ fd _
  | @snoc bs t t' a run enabled step ih =>
    simp only [List.mem_append, List.mem_singleton, not_or] at hdel
    have hcons := noRefresh_consistent hstart run
    have hstep := act_timeout_clock hcons step
    obtain ⟨⟨htimeout, hpast⟩, hcov⟩ := ih hdel.1 (hstep.2.trans hclock)
    refine ⟨⟨hstep.1.trans htimeout, hpast.trans hstep.2⟩, ?_⟩
    refine act_covered hcons enabled.2 step (Ne.symm hdel.2) (leaseEnd_mono htimeout hpast) ?_ hcov
    intro d' hd'
    exact not_due_of_clock_le hd' (hstep.2.trans hclock)

/-- An alarm does not close a descriptor whose lease covers the time. -/
theorem CoveredUntil.not_closed {fd : ℤ} {d : TimeVal} (h : u.Consistent)
    (hcov : u.timer.leases.CoveredUntil fd d)
    (hdue : ∀ d', d ≤ d' → ¬ Timer.Due u.kernel.gettimeofday d')
    (halarm : Timer.deleteExpiredFd u = .ok u') :
    ∃ cs, u'.kernel.closes = u.kernel.closes ++ cs ∧ fd ∉ cs := by
  have hexp := h.expiresExactly halarm
  refine ⟨u.dueFds, hexp.closes, ?_⟩
  intro hmem
  rw [h.dueFds_eq] at hmem
  obtain ⟨d', hlive, hd'⟩ := (Timer.mem_expiredFds_iff h _ fd).mp hmem
  obtain ⟨l, hl, hc⟩ := hcov
  cases hlive.symm.trans hl
  exact hdue d' hc hd'

/-- Every descriptor has at most one node, and the counter is not negative. -/
def OnceAndCounted (s : Server) : Prop :=
  (∀ fd, (s.timer.timeList.values.map Node.clientFd).count fd ≤ 1) ∧ 0 ≤ s.timer.curSize

/-- No alarm on the way along `as` closes a descriptor that `addfd` accepted at most the
timeout before, unless `deleteFd` was called for it in between. -/
def KeepsLeases (start : Server) (as : List Action) : Prop :=
  ∀ pre fd mid s u u', pre ++ .addfd fd :: mid <+: as → anyOrder.Run start pre s →
    (Timer.addfd fd s).1 = true → Action.deleteFd fd ∉ mid →
    anyOrder.Run start (pre ++ .addfd fd :: mid) u →
    u.kernel.clock ≤ s.kernel.clock + s.timer.timeout * 1000000 →
    Timer.deleteExpiredFd u = .ok u' → ∃ cs, u'.kernel.closes = u.kernel.closes ++ cs ∧ fd ∉ cs

theorem Consistent.onceAndCounted (h : s.Consistent) : s.OnceAndCounted := by
  refine ⟨?_, ?_⟩
  · intro fd
    rw [h.oneNodeEach.count]
    split_ifs <;> omega
  · have hc := h.counted
    omega

/-- Accepting a live entry again gives its descriptor a second node. -/
theorem accepted_twice {fd : ℤ} (h : s.Consistent) (hreg : s.timer.Registered fd)
    (hforb : ¬ s.timer.Forbidden fd) : ¬ (Timer.accepted fd s).OnceAndCounted := by
  intro hone
  have hvalues : (Timer.accepted fd s).timer.timeList.values.map Node.clientFd =
      s.timer.timeList.values.map Node.clientFd ++ [fd] := by
    simp [Timer.accepted, Timer.insertNode, IteratorList.insertEnd, IteratorList.values, Node.new]
  have hcount := h.oneNodeEach.count fd
  have hle := hone.1 fd
  rw [hvalues, List.count_append, hcount, if_pos ⟨hreg, hforb⟩, List.count_singleton_self] at hle
  omega

/-- Along every run of calls in any order a descriptor has one node, the counter stays
non-negative and no alarm comes early, exactly when no call of `addfd` that has room
meets a live entry. -/
theorem refresh_promise_iff (h : anyOrder.Run ⟨.new timeout maxSize, k⟩ as s) :
    (anyOrder.Always OnceAndCounted ⟨.new timeout maxSize, k⟩ as ∧
      KeepsLeases ⟨.new timeout maxSize, k⟩ as) ↔
      anyOrder.Meets AddsNoLive ⟨.new timeout maxSize, k⟩ as := by
  have hnew := Consistent.of_new timeout maxSize k
  constructor
  · rintro ⟨halways, -⟩
    -- the first refresh of a live entry starts in a consistent state
    induction h with
    | nil =>
      intro pre a t hpre
      simp at hpre
    | @snoc bs t t' a run enabled step ih =>
      have hbefore := ih fun pre u hpre => halways pre u (hpre.trans (List.prefix_append _ _))
      have hcons := noRefresh_consistent hnew (System.Run.restrict_iff.mpr ⟨run, hbefore⟩)
      refine hbefore.snoc run ?_
      rw [addsNoLive_iff]
      rintro fd rfl hroom
      by_contra hlive
      rw [not_or, not_not] at hlive
      have hafter := halways _ t' (List.prefix_refl _) (run.snoc enabled step)
      cases step
      rw [Timer.addfd_room hroom] at hafter
      exact accepted_twice hcons hlive.1 hlive.2 hafter
  · intro hmeets
    refine ⟨?_, ?_⟩
    · refine System.Always.of_restrict hmeets ?_
      intro bs t ht
      exact (noRefresh_consistent hnew ht).onceAndCounted
    · intro pre fd mid t u u' hpre hrun hroom hdel hrun' hclock halarm
      have hmid : noRefresh.Run _ (pre ++ Action.addfd fd :: mid) u :=
        System.Run.restrict_iff.mpr ⟨hrun', hmeets.of_prefix hpre⟩
      have hu := noRefresh_consistent hnew hmid
      obtain ⟨t', ht', hrest⟩ := hmid.split
      cases hrun.functional ht'.of_restrict
      have ht := noRefresh_consistent hnew ht'
      obtain ⟨v, hen, hact, hrest⟩ := hrest.of_cons
      cases hact
      obtain ⟨-, hcov⟩ := covered_of_run ht hroom hen.2 hrest hdel hclock
      refine CoveredUntil.not_closed hu hcov ?_ halarm
      intro d' hd'
      exact not_due_of_clock_le hd' hclock

/-- A connection that is kept, forbidden and kept again. -/
theorem refresh_promise_forbidden :
    anyOrder.Always OnceAndCounted ⟨.new 15 1000, .boot⟩
      [.accept 5, .addfd 5, .deliver 5, .forbidenFd 5, .addfd 5, .elapse 15000000] ∧
    KeepsLeases ⟨.new 15 1000, .boot⟩
      [.accept 5, .addfd 5, .deliver 5, .forbidenFd 5, .addfd 5, .elapse 15000000] := by
  have hex : ∃ s, noRefresh.Run ⟨.new 15 1000, .boot⟩
      [.accept 5, .addfd 5, .deliver 5, .forbidenFd 5, .addfd 5, .elapse 15000000] s ∧
      s.timer.curSize = 1 := System.Run.exists_of_exec (by decide +kernel)
  obtain ⟨s, hs, -⟩ := hex
  have hrun := System.Run.restrict_iff.mp hs
  exact (refresh_promise_iff hrun.1).mpr hrun.2

/-- A live connection is refreshed after ten seconds: it has two nodes, and an alarm six
seconds later closes it. -/
theorem not_refresh_promise :
    ¬ anyOrder.Always OnceAndCounted ⟨.new 15 1000, .boot⟩
      [.accept 5, .addfd 5, .elapse 10000000, .addfd 5, .elapse 6000000] ∧
    ¬ KeepsLeases ⟨.new 15 1000, .boot⟩
      [.accept 5, .addfd 5, .elapse 10000000, .addfd 5, .elapse 6000000] := by
  have hs : ∃ s, anyOrder.Run ⟨.new 15 1000, .boot⟩ [.accept 5, .addfd 5, .elapse 10000000] s ∧
      s.kernel.clock = 10000000 ∧ s.timer.timeout = 15 ∧ (Timer.addfd 5 s).1 = true :=
    System.Run.exists_of_exec (by decide +kernel)
  have hu : ∃ u, anyOrder.Run ⟨.new 15 1000, .boot⟩
      [.accept 5, .addfd 5, .elapse 10000000, .addfd 5, .elapse 6000000] u ∧
      u.kernel.clock = 16000000 ∧ u.kernel.closes = [] ∧
      (u.timer.timeList.values.map Node.clientFd).count 5 = 2 :=
    System.Run.exists_of_exec (by decide +kernel)
  have hu' : ∃ u', anyOrder.Run ⟨.new 15 1000, .boot⟩
      ([.accept 5, .addfd 5, .elapse 10000000, .addfd 5, .elapse 6000000] ++
        [.deleteExpiredFd]) u' ∧ u'.kernel.closes = [5] :=
    System.Run.exists_of_exec (by decide +kernel)
  obtain ⟨s, hs, hclock, htimeout, hroom⟩ := hs
  obtain ⟨u, hu, hlater, hnone, htwo⟩ := hu
  obtain ⟨u', hu', hclosed⟩ := hu'
  obtain ⟨t, ht, -, halarm⟩ := System.Run.of_snoc hu'
  cases hu.functional ht
  constructor
  · intro halways
    have hone := (halways _ u (List.prefix_refl _) hu).1 5
    omega
  · intro hkeeps
    obtain ⟨cs, hcs, hmem⟩ := hkeeps [.accept 5, .addfd 5, .elapse 10000000] 5 [.elapse 6000000]
      s u u' (List.prefix_refl _) hs hroom (by decide) hu (by rw [hclock, htimeout, hlater]; decide)
      halarm
    rw [hclosed, hnone, List.nil_append] at hcs
    rw [← hcs] at hmem
    exact hmem (List.mem_singleton_self 5)

/-! ## Arming -/

/-- If the call of `addfd` is accepted, the descriptor is armed after it. -/
def AddsArmed (s : Server) : Action → Prop
  | .addfd fd => (Timer.addfd fd s).1 = true → (Timer.addfd fd s).2.kernel.Armed fd
  | _ => True

theorem addsArmed_addfd (s : Server) (fd : ℤ) :
    s.AddsArmed (.addfd fd) ↔ (s.timer.curSize < s.timer.maxSize → ¬ s.kernel.Disarmed fd) := by
  simp only [AddsArmed, Timer.addfd_fst]
  apply forall_congr'
  intro hroom
  rw [Timer.addfd_room hroom]
  exact Kernel.armed_epollCtl_add fd s.kernel

theorem addsArmed_iff {a : Action} : s.AddsArmed a ↔ ∀ fd, a = .addfd fd →
    s.timer.curSize < s.timer.maxSize → ¬ s.kernel.Disarmed fd := by
  cases a with
  | addfd fd => simp [addsArmed_addfd]
  | _ => simp [AddsArmed]

/-- Apart from a delivery, an action leaves an entry of the interest set alone, removes it
or adds it armed. -/
theorem act_lookup_epoll {a : Action} (hact : s.act a = .ok s') {fd : ℤ} (ha : a ≠ .deliver fd) :
    s'.kernel.epoll.lookup fd = s.kernel.epoll.lookup fd ∨ s'.kernel.epoll.lookup fd = none ∨
      (s.kernel.epoll.lookup fd = none ∧ s'.kernel.epoll.lookup fd = some true) := by
  cases a with
  | addfd fd' =>
    cases hact
    rw [Timer.addfd_eq]
    split_ifs
    · exact .inl rfl
    · exact (Kernel.lookup_epollCtl_add fd fd' s.kernel).imp_right .inr
  | forbidenFd fd' =>
    rcases Timer.forbidenFd_eq_ok hact with ⟨-, rfl⟩ | ⟨id, -, -, rfl⟩
    · exact .inl rfl
    · exact .inl rfl
  | deleteFd fd' =>
    rcases Timer.deleteFd_eq_ok hact with ⟨-, rfl⟩ | ⟨id, -, -, rfl⟩
    · exact .inl rfl
    · exact (Kernel.lookup_erase_epoll fd fd' s.kernel).imp_right .inl
  | deleteExpiredFd =>
    obtain ⟨ns, rfl⟩ := Timer.exists_expireAll hact
    rw [Timer.lookup_epoll_expireAll]
    split_ifs
    · exact .inr (.inl rfl)
    · exact .inl rfl
  | elapse usec =>
    cases hact
    exact .inl rfl
  | accept fd' =>
    cases hact
    exact .inl rfl
  | deliver fd' =>
    cases hact
    have hne : fd ≠ fd' := by
      rintro rfl
      exact ha rfl
    exact .inl (AList.lookup_insert_ne hne)
  | close fd' =>
    cases hact
    exact (Kernel.lookup_erase_epoll fd fd' s.kernel).imp_right .inl

/-- Only a delivery disarms, and only leaving the interest set ends it. -/
theorem act_disarmed {a : Action} (hact : s.act a = .ok s') (fd : ℤ) :
    s'.kernel.Disarmed fd ↔ a = .deliver fd ∨ s.kernel.Disarmed fd ∧ fd ∈ s'.kernel.epoll := by
  by_cases ha : a = .deliver fd
  · subst ha
    cases hact
    simp [Kernel.Disarmed, Kernel.deliver]
  · rw [← AList.lookup_isSome]
    simp only [Kernel.Disarmed, ha, false_or]
    rcases act_lookup_epoll hact ha with h | h | ⟨h, h'⟩
    · rw [h]
      constructor
      · intro hd
        exact ⟨hd, by rw [hd]; rfl⟩
      · exact And.left
    · simp [h]
    · simp [h, h']

/-- The event of the descriptor was delivered along `as`, and the descriptor has not left
the interest set since. -/
def DeliveredSince (start : Server) (as : List Action) (fd : ℤ) : Prop :=
  ∃ pre post, as = pre ++ .deliver fd :: post ∧ ∀ mid t, mid <+: post →
    anyOrder.Run start (pre ++ .deliver fd :: mid) t → fd ∈ t.kernel.epoll

theorem DeliveredSince.of_snoc {start : Server} {a : Action} {fd : ℤ} (ha : a ≠ .deliver fd)
    (hrun : anyOrder.Run start (as ++ [a]) s) (h : DeliveredSince start (as ++ [a]) fd) :
    DeliveredSince start as fd ∧ fd ∈ s.kernel.epoll := by
  obtain ⟨pre, post, has, hstay⟩ := h
  cases post using List.reverseRecOn with
  | nil =>
    obtain ⟨-, hlast⟩ := List.append_inj' has rfl
    exact absurd (List.singleton_inj.mp hlast) ha
  | append_singleton post b =>
    rw [← List.cons_append, ← List.append_assoc] at has
    obtain ⟨rfl, hb⟩ := List.append_inj' has rfl
    refine ⟨⟨pre, post, rfl, ?_⟩, ?_⟩
    · intro mid t hmid hrun'
      exact hstay mid t (hmid.trans (List.prefix_append _ _)) hrun'
    · apply hstay (post ++ [b]) s (List.prefix_refl _)
      rw [← List.cons_append, ← List.append_assoc, ← has]
      exact hrun

theorem DeliveredSince.snoc {start : Server} {a : Action} {fd : ℤ}
    (hrun : anyOrder.Run start (as ++ [a]) s) (h : DeliveredSince start as fd)
    (hmem : fd ∈ s.kernel.epoll) : DeliveredSince start (as ++ [a]) fd := by
  obtain ⟨pre, post, rfl, hstay⟩ := h
  refine ⟨pre, post ++ [a], by simp, ?_⟩
  intro mid t hmid hrun'
  rcases List.prefix_concat_iff.mp hmid with rfl | hmid
  · have hsame : pre ++ .deliver fd :: post ++ [a] = pre ++ .deliver fd :: (post ++ [a]) := by simp
    rw [hsame] at hrun
    rw [hrun'.functional hrun]
    exact hmem
  · exact hstay mid t hmid hrun'

/-- A descriptor is disarmed where a run ends exactly when its event was delivered on the
way and it has stayed in the interest set. -/
theorem disarmed_iff_deliveredSince {start : Server} (hstart : ∀ fd, ¬ start.kernel.Disarmed fd)
    (h : anyOrder.Run start as s) (fd : ℤ) :
    s.kernel.Disarmed fd ↔ DeliveredSince start as fd := by
  induction h with
  | nil =>
    constructor
    · intro hd
      exact absurd hd (hstart fd)
    · rintro ⟨pre, post, has, -⟩
      simp at has
  | @snoc bs t t' a run enabled step ih =>
    have hrun := run.snoc enabled step
    rw [act_disarmed step fd, ih]
    by_cases ha : a = .deliver fd
    · subst ha
      refine iff_of_true (.inl rfl) ⟨bs, [], rfl, ?_⟩
      intro mid u hmid hu
      rw [List.prefix_nil.mp hmid] at hu
      rw [hu.functional hrun]
      cases step
      exact AList.mem_insert _ |>.mpr (.inl rfl)
    · simp only [ha, false_or]
      constructor
      · rintro ⟨hsince, hmem⟩
        exact hsince.snoc hrun hmem
      · intro hsince
        exact hsince.of_snoc ha hrun

/-- Along every run of calls in any order an accepted `addfd` leaves its descriptor armed,
exactly when no call that has room is for a descriptor whose event was delivered on the
way and that has not left the interest set since. -/
theorem addfd_arms_iff {start : Server} (hstart : ∀ fd, ¬ start.kernel.Disarmed fd)
    (as : List Action) : anyOrder.Meets AddsArmed start as ↔
      ∀ pre fd t, pre ++ [.addfd fd] <+: as → anyOrder.Run start pre t →
        t.timer.curSize < t.timer.maxSize → ¬ DeliveredSince start pre fd := by
  constructor
  · intro hmeets pre fd t hpre hrun hroom
    have harmed := (addsArmed_addfd t fd).mp (hmeets pre _ t hpre hrun) hroom
    rwa [disarmed_iff_deliveredSince hstart hrun] at harmed
  · intro hnone pre a t hpre hrun
    rw [addsArmed_iff]
    rintro fd rfl hroom
    have hsince := hnone pre fd t hpre hrun hroom
    rwa [← disarmed_iff_deliveredSince hstart hrun] at hsince

/-- The first request of a connection that is kept. -/
theorem addfd_arms_first : anyOrder.Meets AddsArmed ⟨.new 15 1000, .boot⟩
    [.accept 5, .addfd 5, .elapse 2000000] := by
  have hstart : ∀ fd, ¬ Kernel.boot.Disarmed fd := by
    intro fd hd
    simp [Kernel.Disarmed, Kernel.boot] at hd
  apply (addfd_arms_iff hstart _).mpr
  rintro pre fd t hpre - - ⟨pre', post, rfl, -⟩
  have hmem : Action.deliver fd ∈ [Action.accept 5, .addfd 5, .elapse 2000000] :=
    hpre.subset (by simp)
  simp at hmem

/-- The second request of a connection that is kept: `addfd` returns true and the
descriptor stays disarmed. -/
theorem not_addfd_arms : ∃ s, anyOrder.Run ⟨.new 15 1000, .boot⟩
    [.accept 5, .addfd 5, .deliver 5, .forbidenFd 5] s ∧ (Timer.addfd 5 s).1 = true ∧
    ¬ (Timer.addfd 5 s).2.kernel.Armed 5 :=
  System.Run.exists_of_exec (by decide +kernel)

end Server
end LxcHttpServer
