import LxcHttpServer.TimerRuns

/-!
# Erasing and expiring along the server's runs

`forbidenFd` leaves a past-the-end iterator in the map, and the next `forbidenFd` or
`deleteFd` for the descriptor passes it to `erase`. Where no such call is made the
list, the map and the counter agree well enough for an alarm to expire exactly the
nodes that are due.
-/
namespace LxcHttpServer
open IteratorLists Leases PartialRuns

namespace Server

variable {s s' : Server} {timeout maxSize : ℤ} {k : Kernel} {as : List Action}

/-- The iterator that `forbidenFd` and `deleteFd` pass to `erase`, if they pass one,
designates a node of the list. -/
def EraseDesignates (s : Server) (fd : ℤ) : Prop :=
  ∀ it, s.timer.hashMap.lookup fd = some it → s.timer.timeList.Designated it

/-- `deleteFd` has a meaning exactly when the iterator it erases designates a node. -/
theorem eraseDesignates_iff (s : Server) (fd : ℤ) :
    s.EraseDesignates fd ↔ ∃ s', Timer.deleteFd fd s = .ok s' := by
  constructor
  · intro hdes
    cases hl : s.timer.hashMap.lookup fd with
    | none => exact ⟨s, Timer.deleteFd_unregistered (AList.lookup_eq_none.mp hl)⟩
    | some it =>
      have hit := hdes it hl
      cases it with
      | pastEnd => exact absurd hit id
      | node id => exact ⟨_, Timer.deleteFd_node hl hit⟩
  · rintro ⟨s', hs⟩ it hit
    rcases Timer.deleteFd_eq_ok hs with ⟨hreg, -⟩ | ⟨id, hl, hid, -⟩
    · rw [AList.lookup_eq_none.mpr hreg] at hit
      cases hit
    · cases hl.symm.trans hit
      exact hid

/-- `deleteFd` removes the descriptor's entry and its node and nothing else. -/
def DeletesExactly (s : Server) (fd : ℤ) : Prop :=
  ∃ s', Timer.deleteFd fd s = .ok s' ∧
    (∀ fd', s'.timer.hashMap.lookup fd' =
      if fd' = fd then none else s.timer.hashMap.lookup fd') ∧
    s'.timer.timeList.nodes = s.timer.timeList.nodes.filter fun p => p.2.clientFd ≠ fd

theorem Consistent.eraseDesignates (h : s.Consistent) {fd : ℤ} (hforb : ¬ s.timer.Forbidden fd) :
    s.EraseDesignates fd := by
  intro it hit
  cases it with
  | pastEnd => exact absurd hit hforb
  | node id => exact h.designated hit

/-- The node an entry points to is the only one of its descriptor. -/
theorem Consistent.filter_id_eq (h : s.Consistent) {fd : ℤ} {id : ℕ}
    (hl : s.timer.hashMap.lookup fd = some (.node id)) :
    (s.timer.timeList.nodes.filter fun p => p.1 ≠ id) =
      s.timer.timeList.nodes.filter fun p => p.2.clientFd ≠ fd := by
  obtain ⟨n, hn, hnfd⟩ := h.linked fd id hl
  apply List.filter_congr
  intro p hp
  have hiff : p.1 = id ↔ p.2.clientFd = fd := by
    constructor
    · intro hid
      have hp' : (id, p.2) ∈ s.timer.timeList.nodes := hid ▸ hp
      rw [s.timer.timeList.value_unique hp' hn, hnfd]
    · intro hfd
      exact congrArg Prod.fst (h.node_unique hp hn (hfd.trans hnfd.symm))
  simp only [ne_eq, hiff]

theorem Consistent.deletesExactly (h : s.Consistent) {fd : ℤ} (hforb : ¬ s.timer.Forbidden fd) :
    s.DeletesExactly fd := by
  by_cases hreg : s.timer.Registered fd
  · obtain ⟨id, n, hl, hn, hnfd⟩ := h.exists_node hreg hforb
    refine ⟨_, Timer.deleteFd_node hl (h.designated hl), ?_, h.filter_id_eq hl⟩
    intro fd'
    by_cases hne : fd' = fd
    · subst hne
      simp [Timer.dropped]
    · simp [Timer.dropped, hne, AList.lookup_erase_ne hne]
  · refine ⟨s, Timer.deleteFd_unregistered hreg, ?_, ?_⟩
    · intro fd'
      split_ifs with hne
      · rw [hne]
        exact AList.lookup_eq_none.mpr hreg
      · rfl
    · refine (List.filter_eq_self.mpr ?_).symm
      intro p hp
      have hne : p.2.clientFd ≠ fd := by
        rintro rfl
        exact hreg (h.live_of_mem hp).1
      simpa using hne

/-- Wherever a run of the server arrives, erasing through a descriptor's entry is
defined and `deleteFd` exact if and only if the descriptor is not forbidden. -/
theorem erase_designates_iff (h : serverOrder.Run ⟨.new timeout maxSize, k⟩ as s) (fd : ℤ) :
    (s.EraseDesignates fd ∧ s.DeletesExactly fd) ↔ ¬ s.timer.Forbidden fd := by
  have hcons := consistent_of_run h
  constructor
  · rintro ⟨hdes, -⟩ hforb
    exact hdes .pastEnd hforb
  · intro hforb
    exact ⟨hcons.eraseDesignates hforb, hcons.deletesExactly hforb⟩

/-- The worker of a kept connection fails before anything forbade the descriptor. -/
theorem erase_designates_kept : ∃ s, serverOrder.Run ⟨.new 15 1000, .boot⟩
    [.accept 5, .addfd 5] s ∧ s.EraseDesignates 5 ∧ s.DeletesExactly 5 := by
  have hex : ∃ s, serverOrder.Run ⟨.new 15 1000, .boot⟩ [.accept 5, .addfd 5] s ∧
      ¬ s.timer.Forbidden 5 := System.Run.exists_of_exec (by decide +kernel)
  obtain ⟨s, hs, hforb⟩ := hex
  exact ⟨s, hs, (erase_designates_iff hs 5).mpr hforb⟩

/-- The worker of the second request on a kept connection fails: its `deleteFd` erases the
past-the-end iterator. -/
theorem not_erase_designates : ∃ s, serverOrder.Run ⟨.new 15 1000, .boot⟩
    [.accept 5, .addfd 5, .deliver 5, .forbidenFd 5] s ∧ ¬ s.EraseDesignates 5 ∧
    ¬ s.DeletesExactly 5 ∧ Timer.deleteFd 5 s = .error .pastEnd := by
  have hex : ∃ s, serverOrder.Run ⟨.new 15 1000, .boot⟩
      [.accept 5, .addfd 5, .deliver 5, .forbidenFd 5] s ∧ s.timer.Forbidden 5 :=
    System.Run.exists_of_exec (by decide +kernel)
  obtain ⟨s, hs, hforb⟩ := hex
  have hundef := Timer.deleteFd_forbidden hforb
  refine ⟨s, hs, fun hdes => hdes .pastEnd hforb, ?_, hundef⟩
  intro hdel
  obtain ⟨s', hs', -⟩ := hdel
  cases hundef.symm.trans hs'

/-- The list is in order of expiry, with one node for every registered descriptor that is
not forbidden and none for any other. -/
structure OneNodeEach (s : Server) : Prop where
  sorted : s.timer.timeList.values.Pairwise fun m n => m.expireTime ≤ n.expireTime
  count : ∀ fd, (s.timer.timeList.values.map Node.clientFd).count fd =
    if s.timer.Registered fd ∧ ¬ s.timer.Forbidden fd then 1 else 0

/-- The descriptors of the nodes that are due, in the order of the list. -/
def dueFds (s : Server) : List ℤ :=
  (s.timer.timeList.values.filter (Timer.expired s.kernel.gettimeofday)).map Node.clientFd

/-- The alarm closes, unregisters and forgets the due descriptors, each once and in
order, and leaves all others as they were. -/
structure ExpiresExactly (s s' : Server) : Prop where
  due_iff : ∀ fd, fd ∈ s.dueFds ↔ s.timer.Registered fd ∧ ¬ s.timer.Forbidden fd ∧
    ∃ n ∈ s.timer.timeList.values, n.clientFd = fd ∧
      n.expireTime.tvSec < s.kernel.gettimeofday.tvSec
  once : s.dueFds.Nodup
  closes : s'.kernel.closes = s.kernel.closes ++ s.dueFds
  openFds : ∀ fd, fd ∈ s'.kernel.openFds ↔ fd ∈ s.kernel.openFds ∧ fd ∉ s.dueFds
  epoll : ∀ fd, s'.kernel.epoll.lookup fd =
    if fd ∈ s.dueFds then none else s.kernel.epoll.lookup fd
  hashMap : ∀ fd, s'.timer.hashMap.lookup fd =
    if fd ∈ s.dueFds then none else s.timer.hashMap.lookup fd

theorem map_clientFd_values (s : Server) : s.timer.timeList.values.map Node.clientFd =
    s.timer.timeList.nodes.map fun p => p.2.clientFd := by
  simp [IteratorList.values]

theorem Consistent.mem_clientFds_iff (h : s.Consistent) (fd : ℤ) :
    fd ∈ s.timer.timeList.values.map Node.clientFd ↔
      s.timer.Registered fd ∧ ¬ s.timer.Forbidden fd := by
  rw [map_clientFd_values]
  constructor
  · intro hfd
    obtain ⟨p, hp, rfl⟩ := List.mem_map.mp hfd
    exact h.live_of_mem hp
  · rintro ⟨hreg, hforb⟩
    obtain ⟨id, n, -, hn, hnfd⟩ := h.exists_node hreg hforb
    exact List.mem_map.mpr ⟨(id, n), hn, hnfd⟩

theorem Consistent.oneNodeEach (h : s.Consistent) : s.OneNodeEach := by
  refine ⟨List.pairwise_map.mpr h.sorted, ?_⟩
  intro fd
  have hnodup : (s.timer.timeList.values.map Node.clientFd).Nodup := by
    rw [map_clientFd_values]
    exact h.fds_nodup
  rw [hnodup.count]
  simp only [h.mem_clientFds_iff]

theorem Consistent.dueFds_eq (h : s.Consistent) :
    s.dueFds = (Timer.expiredNodes s.kernel.gettimeofday s.timer).map Node.clientFd := by
  rw [Timer.expiredNodes_eq_filter h, dueFds]

theorem Consistent.expiresExactly (h : s.Consistent) (hs : Timer.deleteExpiredFd s = .ok s') :
    s.ExpiresExactly s' := by
  rw [Timer.deleteExpiredFd_eq_ok h hs]
  have hdue := h.dueFds_eq
  constructor
  · intro fd
    constructor
    · intro hfd
      obtain ⟨n, hn, rfl⟩ := List.mem_map.mp hfd
      obtain ⟨hn, hexp⟩ := List.mem_filter.mp hn
      have hlive := (h.mem_clientFds_iff n.clientFd).mp (List.mem_map_of_mem hn)
      exact ⟨hlive.1, hlive.2, n, hn, rfl, by simpa [Timer.expired] using hexp⟩
    · rintro ⟨-, -, n, hn, rfl, hexp⟩
      exact List.mem_map_of_mem (List.mem_filter.mpr ⟨hn, by simpa [Timer.expired] using hexp⟩)
  · have hsub : s.dueFds.Sublist (s.timer.timeList.values.map Node.clientFd) :=
      List.filter_sublist.map _
    rw [map_clientFd_values] at hsub
    exact hsub.nodup h.fds_nodup
  · rw [hdue]
    exact Timer.closes_expireAll _ s
  · rw [hdue]
    exact Timer.openFds_expireAll _ s
  · rw [hdue]
    exact Timer.lookup_epoll_expireAll _ s
  · rw [hdue]
    exact Timer.lookup_hashMap_expireAll _ s

/-- Only `addfd` gives a forbidden descriptor a node again: `forbidenFd` and `deleteFd` have no
meaning for it, and an alarm does not meet it. -/
theorem Consistent.forbidden_act (h : s.Consistent) {fd : ℤ} (hforb : s.timer.Forbidden fd)
    {a : Action} (hne : a ≠ .addfd fd) (hact : s.act a = .ok s') : s'.timer.Forbidden fd := by
  have hpast : s.timer.hashMap.lookup fd = some .pastEnd := hforb
  have hother : ∀ {fd' id}, s.timer.hashMap.lookup fd' = some (.node id) → fd ≠ fd' := by
    rintro fd' id hl rfl
    cases hpast.symm.trans hl
  rcases act_cases hact with ⟨fd', rfl, rfl⟩ | ⟨fd', rfl, hs⟩ | ⟨fd', rfl, hs⟩ | ⟨rfl, hs⟩ |
    ⟨k', -, rfl⟩
  · have hfd : fd ≠ fd' := fun heq => hne (congrArg _ heq.symm)
    rw [Timer.addfd_eq]
    split_ifs
    · exact hforb
    · exact (AList.lookup_insert_ne hfd).trans hpast
  · rcases Timer.forbidenFd_eq_ok hs with ⟨-, rfl⟩ | ⟨id, hl, -, rfl⟩
    · exact hforb
    · exact (AList.lookup_insert_ne (hother hl)).trans hpast
  · rcases Timer.deleteFd_eq_ok hs with ⟨-, rfl⟩ | ⟨id, hl, -, rfl⟩
    · exact hforb
    · exact (AList.lookup_erase_ne (hother hl)).trans hpast
  · have hexact := h.expiresExactly hs
    have hnot : fd ∉ s.dueFds := fun hdue => ((hexact.due_iff fd).mp hdue).2.1 hforb
    exact ((hexact.hashMap fd).trans (if_neg hnot)).trans hpast
  · exact hforb

/-- The entry of a registered descriptor is forbidden when `forbidenFd` returns, and stays so
until `addfd` is called for the descriptor. -/
theorem forbidden_until_addfd (h : serverOrder.Run ⟨.new timeout maxSize, k⟩ as s) {fd : ℤ}
    (hreg : s.timer.Registered fd) (hs : Timer.forbidenFd fd s = .ok s') {bs : List Action}
    {t : Server} (hrest : (serverOrder.restrict fun _ a => a ≠ .addfd fd).Run s' bs t) :
    t.timer.Forbidden fd := by
  have hforb : s'.timer.Forbidden fd := by
    rcases Timer.forbidenFd_eq_ok hs with ⟨hnot, -⟩ | ⟨id, -, -, rfl⟩
    · exact absurd hreg hnot
    · exact AList.lookup_insert _
  have hcons : s'.Consistent := Timer.forbidenFd_consistent (consistent_of_run h) hs
  have hall : t.Consistent ∧ t.timer.Forbidden fd := by
    apply hrest.invariant (P := fun u => u.Consistent ∧ u.timer.Forbidden fd) ⟨hcons, hforb⟩
    intro u a u' hu hen hact
    exact ⟨act_consistent hu.1 hen.1.2 hact, hu.1.forbidden_act hu.2 hen.2 hact⟩
  exact hall.2

/-- No call on a consistent timer follows an iterator to a node that is gone. -/
theorem Consistent.act_ne_dangling (h : s.Consistent) (a : Action) :
    s.act a ≠ .error .dangling := by
  have hcases : ∀ fd, ¬ s.timer.Registered fd ∨ s.timer.Forbidden fd ∨
      ∃ id, s.timer.hashMap.lookup fd = some (.node id) ∧
        s.timer.timeList.Designated (.node id) := by
    intro fd
    by_cases hreg : s.timer.Registered fd
    · by_cases hforb : s.timer.Forbidden fd
      · exact .inr (.inl hforb)
      · obtain ⟨id, -, hl, -⟩ := h.exists_node hreg hforb
        exact .inr (.inr ⟨id, hl, h.designated hl⟩)
    · exact .inl hreg
  cases a with
  | forbidenFd fd =>
    rcases hcases fd with hreg | hforb | ⟨id, hl, hid⟩
    · simp [act, Timer.forbidenFd_unregistered hreg]
    · simp [act, Timer.forbidenFd_forbidden hforb]
    · simp [act, Timer.forbidenFd_node hl hid]
  | deleteFd fd =>
    rcases hcases fd with hreg | hforb | ⟨id, hl, hid⟩
    · simp [act, Timer.deleteFd_unregistered hreg]
    · simp [act, Timer.deleteFd_forbidden hforb]
    · simp [act, Timer.deleteFd_node hl hid]
  | deleteExpiredFd =>
    simp only [act, Timer.deleteExpiredFd_eq h]
    split_ifs <;> simp
  | addfd _ => simp [act]
  | elapse _ => simp [act]
  | accept _ => simp [act]
  | deliver _ => simp [act]
  | close _ => simp [act]

/-- Along the server's runs the list has one node for every live descriptor in order of
expiry, no call follows a dangling iterator, and an alarm that does not read the head
of an empty list expires exactly the descriptors that are due. -/
theorem alarm_expires_exactly (h : serverOrder.Run ⟨.new timeout maxSize, k⟩ as s) :
    s.OneNodeEach ∧ (∀ a, s.act a ≠ .error .dangling) ∧
      (Timer.deleteExpiredFd s ≠ .error .emptyFront →
        ∃ s', Timer.deleteExpiredFd s = .ok s' ∧ s.ExpiresExactly s') := by
  have hcons := consistent_of_run h
  refine ⟨hcons.oneNodeEach, hcons.act_ne_dangling, ?_⟩
  intro hdef
  rw [Timer.deleteExpiredFd_eq hcons] at hdef
  have hok := Timer.deleteExpiredFd_eq hcons
  split_ifs at hdef hok
  · exact absurd rfl hdef
  · exact ⟨_, hok, hcons.expiresExactly hok⟩

/-- Sixteen seconds after a connection was kept, and one second after another was. -/
theorem alarm_expires_first : ∃ s s', serverOrder.Run ⟨.new 15 1000, .boot⟩
    [.accept 5, .addfd 5, .elapse 15000000, .accept 6, .addfd 6, .elapse 1000000] s ∧
    Timer.deleteExpiredFd s = .ok s' ∧ s.ExpiresExactly s' ∧ s.dueFds = [5] := by
  have hex : ∃ s, serverOrder.Run ⟨.new 15 1000, .boot⟩
      [.accept 5, .addfd 5, .elapse 15000000, .accept 6, .addfd 6, .elapse 1000000] s ∧
      s.timer.curSize = 2 ∧ s.timer.timeList.size = 2 ∧ s.dueFds = [5] :=
    System.Run.exists_of_exec (by decide +kernel)
  obtain ⟨s, hs, hcur, hsize, hdue⟩ := hex
  have hdef : Timer.deleteExpiredFd s ≠ .error .emptyFront := by
    rw [Timer.deleteExpiredFd_eq (consistent_of_run hs), if_neg (by omega)]
    exact fun he => by cases he
  obtain ⟨s', hs', hexact⟩ := (alarm_expires_exactly hs).2.2 hdef
  exact ⟨s, s', hs, hs', hexact, hdue⟩

end Server
end LxcHttpServer
