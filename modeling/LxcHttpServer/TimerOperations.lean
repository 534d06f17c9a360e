import LxcHttpServer.Timer

/-!
# What one call of the timer does

One lemma per operation says all it can do, the faults included. For an alarm it is
the fold of the loop body over the expired nodes at the head of the list, or the read
of an empty list when the counter promises a node that is not there.
-/
namespace LxcHttpServer
open IteratorLists

namespace Timer

/-- The state after an accepted `addfd`. Both branches of the source register the new
node and call `EPOLL_CTL_ADD`; they differ in the counter. -/
def accepted (clientFd : ℤ) (s : Server) : Server where
  timer := { s.timer with
    timeList := (s.timer.insertNode clientFd s.kernel).1
    hashMap := s.timer.hashMap.insert clientFd (.node s.timer.timeList.next)
    curSize := if clientFd ∈ s.timer.hashMap then s.timer.curSize else s.timer.curSize + 1 }
  kernel := s.kernel.epollCtl .add clientFd

theorem addfd_eq (clientFd : ℤ) (s : Server) : addfd clientFd s =
    if s.timer.curSize ≥ s.timer.maxSize then (false, s) else (true, accepted clientFd s) := by
  simp only [addfd, accepted]
  split_ifs <;> rfl

theorem addfd_full {clientFd : ℤ} {s : Server} (h : s.timer.curSize ≥ s.timer.maxSize) :
    addfd clientFd s = (false, s) := by rw [addfd_eq, if_pos h]

theorem addfd_room {clientFd : ℤ} {s : Server} (h : s.timer.curSize < s.timer.maxSize) :
    addfd clientFd s = (true, accepted clientFd s) := by rw [addfd_eq, if_neg (by omega)]

theorem addfd_fst (clientFd : ℤ) (s : Server) :
    (addfd clientFd s).1 = true ↔ s.timer.curSize < s.timer.maxSize := by
  rw [addfd_eq]
  split_ifs with h
  · simpa using h
  · simpa using h

/-- The state after `forbidenFd` of an entry with a node. -/
def held (clientFd : ℤ) (id : ℕ) (s : Server) : Server := { s with
  timer := { s.timer with
    timeList := s.timer.timeList.filter (fun p => p.1 ≠ id)
    hashMap := s.timer.hashMap.insert clientFd .pastEnd } }

/-- The state after `deleteFd` of an entry with a node. -/
def dropped (clientFd : ℤ) (id : ℕ) (s : Server) : Server where
  timer := { s.timer with
    timeList := s.timer.timeList.filter (fun p => p.1 ≠ id)
    hashMap := s.timer.hashMap.erase clientFd
    curSize := s.timer.curSize - 1 }
  kernel := s.kernel.deleteFdFromEpoll clientFd

theorem forbidenFd_unregistered {clientFd : ℤ} {s : Server} (h : ¬ s.timer.Registered clientFd) :
    forbidenFd clientFd s = .ok s := by
  simp only [forbidenFd, AList.lookup_eq_none.mpr h]

theorem forbidenFd_node {clientFd : ℤ} {s : Server} {id : ℕ}
    (h : s.timer.hashMap.lookup clientFd = some (.node id))
    (hid : s.timer.timeList.Designated (.node id)) :
    forbidenFd clientFd s = .ok (held clientFd id s) := by
  have he := (s.timer.timeList.erase_eq_ok_iff _ (.node id)).mpr ⟨id, rfl, hid, rfl⟩
  simp only [forbidenFd, h, he, held]

theorem forbidenFd_forbidden {clientFd : ℤ} {s : Server} (h : s.timer.Forbidden clientFd) :
    forbidenFd clientFd s = .error .pastEnd := by
  have h' : s.timer.hashMap.lookup clientFd = some .pastEnd := h
  simp only [forbidenFd, h', IteratorList.erase]

theorem deleteFd_unregistered {clientFd : ℤ} {s : Server} (h : ¬ s.timer.Registered clientFd) :
    deleteFd clientFd s = .ok s := by
  simp only [deleteFd, AList.lookup_eq_none.mpr h]

theorem deleteFd_node {clientFd : ℤ} {s : Server} {id : ℕ}
    (h : s.timer.hashMap.lookup clientFd = some (.node id))
    (hid : s.timer.timeList.Designated (.node id)) :
    deleteFd clientFd s = .ok (dropped clientFd id s) := by
  have he := (s.timer.timeList.erase_eq_ok_iff _ (.node id)).mpr ⟨id, rfl, hid, rfl⟩
  simp only [deleteFd, h, he, dropped]

theorem deleteFd_forbidden {clientFd : ℤ} {s : Server} (h : s.timer.Forbidden clientFd) :
    deleteFd clientFd s = .error .pastEnd := by
  have h' : s.timer.hashMap.lookup clientFd = some .pastEnd := h
  simp only [deleteFd, h', IteratorList.erase]

/-- What the entry of a descriptor gives `erase`: nothing, the iterator to a node, or an
iterator it gives no meaning to. -/
theorem entry_cases (t : Timer) (clientFd : ℤ) : ¬ t.Registered clientFd ∨
    (∃ id, t.hashMap.lookup clientFd = some (.node id) ∧ t.timeList.Designated (.node id)) ∨
      ∃ it fault, t.hashMap.lookup clientFd = some it ∧ t.timeList.erase it = .error fault := by
  cases hl : t.hashMap.lookup clientFd with
  | none => exact .inl (AList.lookup_eq_none.mp hl)
  | some it =>
    cases he : t.timeList.erase it with
    | error fault => exact .inr (.inr ⟨it, fault, rfl, he⟩)
    | ok timeList =>
      obtain ⟨id, rfl, hid, -⟩ := (t.timeList.erase_eq_ok_iff _ it).mp he
      exact .inr (.inl ⟨id, rfl, hid⟩)

/-- A call of `forbidenFd` that goes through finds no entry or one with a node. -/
theorem forbidenFd_eq_ok {clientFd : ℤ} {s s' : Server} (h : forbidenFd clientFd s = .ok s') :
    (¬ s.timer.Registered clientFd ∧ s' = s) ∨
      ∃ id, s.timer.hashMap.lookup clientFd = some (.node id) ∧
        s.timer.timeList.Designated (.node id) ∧ s' = held clientFd id s := by
  rcases s.timer.entry_cases clientFd with hreg | ⟨id, hl, hid⟩ | ⟨it, fault, hl, he⟩
  · rw [forbidenFd_unregistered hreg] at h
    exact .inl ⟨hreg, (Except.ok.inj h).symm⟩
  · rw [forbidenFd_node hl hid] at h
    exact .inr ⟨id, hl, hid, (Except.ok.inj h).symm⟩
  · simp only [forbidenFd, hl, he] at h
    cases h

theorem forbidenFd_kernel {clientFd : ℤ} {s s' : Server} (h : forbidenFd clientFd s = .ok s') :
    s'.kernel = s.kernel := by
  rcases forbidenFd_eq_ok h with ⟨-, rfl⟩ | ⟨id, -, -, rfl⟩
  · rfl
  · rfl

/-- A call of `deleteFd` that goes through finds no entry or one with a node. -/
theorem deleteFd_eq_ok {clientFd : ℤ} {s s' : Server} (h : deleteFd clientFd s = .ok s') :
    (¬ s.timer.Registered clientFd ∧ s' = s) ∨
      ∃ id, s.timer.hashMap.lookup clientFd = some (.node id) ∧
        s.timer.timeList.Designated (.node id) ∧ s' = dropped clientFd id s := by
  rcases s.timer.entry_cases clientFd with hreg | ⟨id, hl, hid⟩ | ⟨it, fault, hl, he⟩
  · rw [deleteFd_unregistered hreg] at h
    exact .inl ⟨hreg, (Except.ok.inj h).symm⟩
  · rw [deleteFd_node hl hid] at h
    exact .inr ⟨id, hl, hid, (Except.ok.inj h).symm⟩
  · simp only [deleteFd, hl, he] at h
    cases h

/-- After `deleteFd` the descriptor has no entry, and nothing was closed. -/
theorem deleteFd_drops {clientFd : ℤ} {s s' : Server} (h : deleteFd clientFd s = .ok s') :
    ¬ s'.timer.Registered clientFd ∧ s'.kernel.openFds = s.kernel.openFds ∧
      s'.kernel.closes = s.kernel.closes := by
  rcases deleteFd_eq_ok h with ⟨hreg, rfl⟩ | ⟨id, -, -, rfl⟩
  · exact ⟨hreg, rfl, rfl⟩
  · refine ⟨?_, by simp [dropped, Kernel.deleteFdFromEpoll],
      by simp [dropped, Kernel.deleteFdFromEpoll]⟩
    exact AList.lookup_eq_none.mp (AList.lookup_erase _ _)

/-- The condition of the expiry loop on the node at the head. -/
def expired (curtime : TimeVal) (n : Node) : Bool := decide (curtime.tvSec > n.expireTime.tvSec)

/-- The nodes at the head of the list up to the first that is not expired. -/
def expiredNodes (curtime : TimeVal) (t : Timer) : List Node :=
  t.timeList.values.takeWhile (expired curtime)

def expireAll (ns : List Node) (s : Server) : Server :=
  ns.foldl (fun s n => expireFront n s) s

theorem front_cons {l : IteratorList Node} {p : ℕ × Node} {ps : List (ℕ × Node)}
    (h : l.nodes = p :: ps) : l.front = .ok p.2 := by simp only [IteratorList.front, h]

theorem front_nil {l : IteratorList Node} (h : l.nodes = []) : l.front = .error .emptyFront := by
  simp only [IteratorList.front, h]

@[simp] theorem expireAll_nil (s : Server) : expireAll [] s = s := rfl

@[simp] theorem expireAll_cons (n : Node) (ns : List Node) (s : Server) :
    expireAll (n :: ns) s = expireAll ns (expireFront n s) := rfl

section Loop
variable {curtime : TimeVal} {s s' : Server} {front : Node}

theorem deleteExpiredLoop_fault {fault : IteratorFault} (hc : s.timer.curSize > 0)
    (hf : s.timer.timeList.front = .error fault) :
    deleteExpiredLoop curtime s = .error fault := by
  rw [deleteExpiredLoop, if_pos hc]
  split
  · next fault' hf' =>
    rw [hf] at hf'
    rw [Except.error.inj hf']
  · next front hf' =>
    rw [hf] at hf'
    cases hf'

theorem deleteExpiredLoop_front (hc : s.timer.curSize > 0)
    (hf : s.timer.timeList.front = .ok front) : deleteExpiredLoop curtime s =
      if expired curtime front then deleteExpiredLoop curtime (expireFront front s) else .ok s := by
  rw [deleteExpiredLoop, if_pos hc]
  split
  · next fault hf' =>
    rw [hf] at hf'
    cases hf'
  · next front' hf' =>
    rw [hf] at hf'
    cases hf'
    simp only [expired, decide_eq_true_eq]

theorem deleteExpiredLoop_done (hc : ¬ s.timer.curSize > 0) :
    deleteExpiredLoop curtime s = .ok s := by
  rw [deleteExpiredLoop, if_neg hc]

/-- Whatever the list and the counter are, the loop runs its body some number of times. -/
theorem exists_expireAll_of_loop (h : deleteExpiredLoop curtime s = .ok s') :
    ∃ ns, s' = expireAll ns s := by
  induction s using deleteExpiredLoop.induct curtime with
  | case1 s hc fault hf =>
    rw [deleteExpiredLoop_fault hc hf] at h
    cases h
  | case2 s hc front hf he ih =>
    have hexp : expired curtime front = true := decide_eq_true he
    rw [deleteExpiredLoop_front hc hf, if_pos hexp] at h
    obtain ⟨ns, hns⟩ := ih h
    exact ⟨front :: ns, hns⟩
  | case3 s hc front hf he =>
    have hexp : ¬ expired curtime front = true := by simpa [expired] using he
    rw [deleteExpiredLoop_front hc hf, if_neg hexp] at h
    exact ⟨[], (Except.ok.inj h).symm⟩
  | case4 s hc =>
    rw [deleteExpiredLoop_done hc] at h
    exact ⟨[], (Except.ok.inj h).symm⟩

theorem exists_expireAll (h : deleteExpiredFd s = .ok s') : ∃ ns, s' = expireAll ns s :=
  exists_expireAll_of_loop h

/-- With a counter of at least the number of nodes the loop removes the expired nodes at
the head, and reads an empty list exactly when these are all nodes and the counter is
greater. -/
theorem deleteExpiredLoop_eq (curtime : TimeVal) (s : Server)
    (hsize : (s.timer.timeList.size : ℤ) ≤ s.timer.curSize) :
    deleteExpiredLoop curtime s =
      if (∀ n ∈ s.timer.timeList.values, expired curtime n) ∧
          (s.timer.timeList.size : ℤ) < s.timer.curSize then .error .emptyFront
      else .ok (expireAll (expiredNodes curtime s.timer) s) := by
  induction hn : s.timer.timeList.nodes generalizing s with
  | nil =>
    have hv : s.timer.timeList.values = [] := by simp [IteratorList.values, hn]
    have hz : s.timer.timeList.size = 0 := by simp [IteratorList.size, hn]
    by_cases hc : s.timer.curSize > 0
    · rw [deleteExpiredLoop_fault hc (front_nil hn), if_pos ⟨by simp [hv], by omega⟩]
    · rw [deleteExpiredLoop_done hc, if_neg (by omega)]
      simp [expiredNodes, hv]
  | cons p ps ih =>
    have hv : s.timer.timeList.values = p.2 :: ps.map Prod.snd := by simp [IteratorList.values, hn]
    have hz : s.timer.timeList.size = ps.length + 1 := by simp [IteratorList.size, hn]
    have hc : s.timer.curSize > 0 := by omega
    rw [deleteExpiredLoop_front hc (front_cons hn)]
    by_cases hexp : expired curtime p.2
    · have hnodes : (expireFront p.2 s).timer.timeList.nodes = ps := by simp [expireFront, hn]
      have hvs : (expireFront p.2 s).timer.timeList.values = ps.map Prod.snd := by
        simp [IteratorList.values, hnodes]
      have hsz : (expireFront p.2 s).timer.timeList.size = ps.length := by
        simp [IteratorList.size, hnodes]
      have hcur : (expireFront p.2 s).timer.curSize = s.timer.curSize - 1 := rfl
      have hlt : (ps.length : ℤ) < s.timer.curSize - 1 ↔
          ((ps.length + 1 : ℕ) : ℤ) < s.timer.curSize := by omega
      have hnext : expiredNodes curtime s.timer =
          p.2 :: expiredNodes curtime (expireFront p.2 s).timer := by
        simp [expiredNodes, hv, hvs, hexp]
      rw [if_pos hexp, ih (expireFront p.2 s) (by omega) hnodes, hnext, expireAll_cons]
      simp only [hv, hvs, hz, hsz, hcur, List.forall_mem_cons, hexp, true_and, hlt]
    · rw [if_neg hexp, if_neg (by simp [hv, hexp])]
      simp [expiredNodes, hv, hexp]

end Loop

/-- The descriptors are closed in the order of the nodes. -/
theorem closes_expireAll (ns : List Node) (s : Server) :
    (expireAll ns s).kernel.closes = s.kernel.closes ++ ns.map Node.clientFd := by
  induction ns generalizing s with
  | nil => simp
  | cons n ns ih =>
    rw [expireAll_cons, ih]
    simp [expireFront, Kernel.close, Kernel.deleteFdFromEpoll, Kernel.epollCtl]

theorem openFds_expireAll (ns : List Node) (s : Server) (fd : ℤ) :
    fd ∈ (expireAll ns s).kernel.openFds ↔ fd ∈ s.kernel.openFds ∧ fd ∉ ns.map Node.clientFd := by
  induction ns generalizing s with
  | nil => simp
  | cons n ns ih =>
    rw [expireAll_cons, ih]
    simp only [expireFront, Kernel.close, Kernel.deleteFdFromEpoll, Kernel.epollCtl,
      Finset.mem_erase, List.map_cons, List.mem_cons, not_or]
    tauto

/-- A table from which each node's descriptor is removed. -/
theorem lookup_expireAll {β : Type} (table : Server → AList fun _ : ℤ => β)
    (hfront : ∀ n s fd, (table (expireFront n s)).lookup fd =
      if fd = n.clientFd then none else (table s).lookup fd) (ns : List Node) (s : Server)
    (fd : ℤ) : (table (expireAll ns s)).lookup fd =
      if fd ∈ ns.map Node.clientFd then none else (table s).lookup fd := by
  induction ns generalizing s with
  | nil => simp
  | cons n ns ih =>
    rw [expireAll_cons, ih, hfront]
    by_cases h : fd = n.clientFd
    · simp [h]
    · simp [h]

theorem lookup_hashMap_expireAll (ns : List Node) (s : Server) (fd : ℤ) :
    (expireAll ns s).timer.hashMap.lookup fd =
      if fd ∈ ns.map Node.clientFd then none else s.timer.hashMap.lookup fd := by
  refine lookup_expireAll (fun s => s.timer.hashMap) ?_ ns s fd
  intro n s fd
  by_cases h : fd = n.clientFd
  · subst h
    simp [expireFront, AList.lookup_erase]
  · simp [expireFront, AList.lookup_erase_ne h, h]

theorem lookup_epoll_expireAll (ns : List Node) (s : Server) (fd : ℤ) :
    (expireAll ns s).kernel.epoll.lookup fd =
      if fd ∈ ns.map Node.clientFd then none else s.kernel.epoll.lookup fd := by
  refine lookup_expireAll (fun s => s.kernel.epoll) ?_ ns s fd
  intro n s fd
  by_cases h : fd = n.clientFd
  · subst h
    simp [expireFront, Kernel.close, AList.lookup_erase]
  · simp [expireFront, Kernel.close, Kernel.deleteFdFromEpoll, Kernel.epollCtl, h,
      AList.lookup_erase_ne h]

/-- What no round changes. -/
theorem keeps_expireAll {α : Type} {f : Server → α} (hfront : ∀ n s, f (expireFront n s) = f s)
    (ns : List Node) (s : Server) : f (expireAll ns s) = f s := by
  induction ns generalizing s with
  | nil => rfl
  | cons n ns ih => rw [expireAll_cons, ih, hfront]

theorem timeout_expireAll (ns : List Node) (s : Server) :
    (expireAll ns s).timer.timeout = s.timer.timeout :=
  keeps_expireAll (f := fun s => s.timer.timeout) (fun _ _ => rfl) ns s

theorem clock_expireAll (ns : List Node) (s : Server) :
    (expireAll ns s).kernel.clock = s.kernel.clock := by
  apply keeps_expireAll (f := fun s => s.kernel.clock)
  intro n s
  simp [expireFront, Kernel.close, Kernel.deleteFdFromEpoll]

end Timer
end LxcHttpServer
