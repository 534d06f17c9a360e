import LxcHttpServer.TimerOperations
import LxcHttpServer.Leases
import Mathlib.Data.List.Perm.Subperm
import Mathlib.Data.List.Perm.Lattice

/-!
# Consistent timers

A consistent timer has exactly one node for every live entry of its map, in order of
expiry, and counts the entries of its map. Every operation keeps a timer consistent,
provided `addfd` is called for a descriptor without an entry or with a forbidden one,
and on consistent timers the operations are those of the lease table.
-/
namespace LxcHttpServer
open IteratorLists Leases

/-- What holds between the list, the map, the counter and the clock. -/
structure Server.Consistent (s : Server) : Prop where
  owned : ∀ p ∈ s.timer.timeList.nodes, s.timer.hashMap.lookup p.2.clientFd = some (.node p.1)
  linked : ∀ fd id, s.timer.hashMap.lookup fd = some (.node id) →
    ∃ n, (id, n) ∈ s.timer.timeList.nodes ∧ n.clientFd = fd
  sorted : s.timer.timeList.nodes.Pairwise fun p q => p.2.expireTime ≤ q.2.expireTime
  recent : ∀ p ∈ s.timer.timeList.nodes,
    p.2.expireTime ≤ (Node.new 0 s.timer.timeout s.kernel).expireTime
  counted : s.timer.curSize = s.timer.hashMap.keys.length

namespace Server.Consistent

variable {s s' : Server}

theorem of_new (timeout maxSize : ℤ) (k : Kernel) : Consistent ⟨Timer.new timeout maxSize, k⟩ := by
  constructor <;> simp [Timer.new]

/-- A descriptor has at most one node. -/
theorem node_unique (h : s.Consistent) {p q : ℕ × Node} (hp : p ∈ s.timer.timeList.nodes)
    (hq : q ∈ s.timer.timeList.nodes) (hfd : p.2.clientFd = q.2.clientFd) : p = q := by
  have hlp := h.owned p hp
  have hlq := h.owned q hq
  rw [hfd, hlq] at hlp
  have hid : q.1 = p.1 := by simpa using hlp
  have hp' : (p.1, p.2) ∈ s.timer.timeList.nodes := hp
  have hq' : (p.1, q.2) ∈ s.timer.timeList.nodes := hid ▸ hq
  exact Prod.ext hid.symm (s.timer.timeList.value_unique hp' hq')

theorem fds_nodup (h : s.Consistent) :
    (s.timer.timeList.nodes.map fun p => p.2.clientFd).Nodup := by
  refine List.Nodup.map_on ?_ s.timer.timeList.nodup.of_map
  intro p hp q hq hfd
  exact h.node_unique hp hq hfd

/-- The counter is at least the number of nodes; the forbidden entries make the rest. -/
theorem size_le_curSize (h : s.Consistent) : (s.timer.timeList.size : ℤ) ≤ s.timer.curSize := by
  have hsub : (s.timer.timeList.nodes.map fun p => p.2.clientFd) ⊆ s.timer.hashMap.keys := by
    intro fd hfd
    obtain ⟨p, hp, rfl⟩ := List.mem_map.mp hfd
    have hl := h.owned p hp
    exact AList.mem_keys.mp (AList.lookup_isSome.mp (by rw [hl]; rfl))
  have hlen := (List.subperm_of_subset h.fds_nodup hsub).length_le
  rw [List.length_map] at hlen
  rw [h.counted]
  exact_mod_cast hlen

/-- A node belongs to an entry that is registered and not forbidden. -/
theorem live_of_mem (h : s.Consistent) {p : ℕ × Node} (hp : p ∈ s.timer.timeList.nodes) :
    s.timer.Registered p.2.clientFd ∧ ¬ s.timer.Forbidden p.2.clientFd := by
  have hl := h.owned p hp
  refine ⟨AList.lookup_isSome.mp (by rw [hl]; rfl), ?_⟩
  simp [Timer.Forbidden, hl]

/-- An entry that is registered and not forbidden has its node in the list. -/
theorem exists_node (h : s.Consistent) {fd : ℤ} (hreg : s.timer.Registered fd)
    (hforb : ¬ s.timer.Forbidden fd) : ∃ id n, s.timer.hashMap.lookup fd = some (.node id) ∧
      (id, n) ∈ s.timer.timeList.nodes ∧ n.clientFd = fd := by
  obtain ⟨it, hit⟩ := Option.isSome_iff_exists.mp (AList.lookup_isSome.mpr hreg)
  cases it with
  | pastEnd => exact absurd hit hforb
  | node id =>
    obtain ⟨n, hn, hfd⟩ := h.linked fd id hit
    exact ⟨id, n, hit, hn, hfd⟩

/-- The iterators of a consistent timer designate a node or are past the end. -/
theorem designated (h : s.Consistent) {fd : ℤ} {id : ℕ}
    (hl : s.timer.hashMap.lookup fd = some (.node id)) :
    s.timer.timeList.Designated (.node id) := by
  obtain ⟨n, hn, -⟩ := h.linked fd id hl
  exact s.timer.timeList.designated_node hn

end Server.Consistent

namespace Timer
open Server

variable {s s' : Server}

theorem accepted_consistent (h : s.Consistent) {fd : ℤ}
    (hfd : ¬ s.timer.Registered fd ∨ s.timer.Forbidden fd) : (accepted fd s).Consistent := by
  have hother : ∀ p ∈ s.timer.timeList.nodes, p.2.clientFd ≠ fd := by
    rintro p hp rfl
    obtain ⟨hreg, hforb⟩ := h.live_of_mem hp
    exact hfd.elim (fun hn => hn hreg) hforb
  constructor
  · intro p hp
    rcases List.mem_append.mp hp with hp | hp
    · have hl := h.owned p hp
      simpa [accepted, AList.lookup_insert_ne (hother p hp)] using hl
    · cases List.mem_singleton.mp hp
      exact AList.lookup_insert _
  · intro fd' id hl
    by_cases hne : fd' = fd
    · subst hne
      simp only [accepted, AList.lookup_insert, Option.some.injEq, Iterator.node.injEq] at hl
      subst hl
      exact ⟨_, List.mem_append_right _ (List.mem_singleton_self _), rfl⟩
    · simp only [accepted, AList.lookup_insert_ne hne] at hl
      obtain ⟨n, hn, hfd'⟩ := h.linked fd' id hl
      exact ⟨n, List.mem_append_left _ hn, hfd'⟩
  · refine List.pairwise_append.mpr ⟨h.sorted, List.pairwise_singleton _ _, ?_⟩
    intro p hp q hq
    cases List.mem_singleton.mp hq
    exact h.recent p hp
  · intro p hp
    have hclock : (accepted fd s).kernel.gettimeofday = s.kernel.gettimeofday := by
      simp [accepted, Kernel.gettimeofday]
    have hlast : (Node.new 0 (accepted fd s).timer.timeout (accepted fd s).kernel).expireTime =
        (Node.new 0 s.timer.timeout s.kernel).expireTime := by
      simp only [Node.new, hclock]
      rfl
    rw [hlast]
    rcases List.mem_append.mp hp with hp | hp
    · exact h.recent p hp
    · cases List.mem_singleton.mp hp
      exact le_refl _
  · have hc := h.counted
    simp only [accepted, AList.keys_insert, List.length_cons]
    by_cases hreg : fd ∈ s.timer.hashMap
    · have hlen := List.length_erase_of_mem (AList.mem_keys.mp hreg)
      have hpos := List.length_pos_of_mem (AList.mem_keys.mp hreg)
      rw [if_pos hreg, hlen]
      omega
    · rw [if_neg hreg, List.erase_of_not_mem (fun hk => hreg (AList.mem_keys.mpr hk))]
      omega

theorem held_consistent (h : s.Consistent) {fd : ℤ} {id : ℕ}
    (hl : s.timer.hashMap.lookup fd = some (.node id)) : (held fd id s).Consistent := by
  constructor
  · intro p hp
    obtain ⟨hp, hne⟩ := List.mem_filter.mp hp
    have hown := h.owned p hp
    have hfd : p.2.clientFd ≠ fd := by
      rintro rfl
      have hid : p.1 = id := by simpa [hown] using hl
      simp [hid] at hne
    simpa [held, AList.lookup_insert_ne hfd] using hown
  · intro fd' id' hl'
    have hfd : fd' ≠ fd := by
      rintro rfl
      simp [held] at hl'
    simp only [held, AList.lookup_insert_ne hfd] at hl'
    obtain ⟨n, hn, hnfd⟩ := h.linked fd' id' hl'
    refine ⟨n, List.mem_filter.mpr ⟨hn, ?_⟩, hnfd⟩
    have hne : id' ≠ id := by
      rintro rfl
      obtain ⟨n', hn', hnfd'⟩ := h.linked fd id' hl
      have hnn := s.timer.timeList.value_unique hn hn'
      exact hfd (by rw [← hnfd, ← hnfd', hnn])
    simpa using hne
  · exact h.sorted.sublist List.filter_sublist
  · intro p hp
    exact h.recent p (List.mem_filter.mp hp).1
  · have hreg : fd ∈ s.timer.hashMap.keys :=
      AList.mem_keys.mp (AList.lookup_isSome.mp (by rw [hl]; rfl))
    have hlen := List.length_erase_of_mem hreg
    have hpos := List.length_pos_of_mem hreg
    have hc := h.counted
    simp only [held, AList.keys_insert, List.length_cons, hlen]
    omega

theorem dropped_consistent (h : s.Consistent) {fd : ℤ} {id : ℕ}
    (hl : s.timer.hashMap.lookup fd = some (.node id)) : (dropped fd id s).Consistent := by
  have hheld := held_consistent h hl
  have hreg : fd ∈ s.timer.hashMap.keys :=
    AList.mem_keys.mp (AList.lookup_isSome.mp (by rw [hl]; rfl))
  constructor
  · intro p hp
    have hown := hheld.owned p hp
    have hfd : p.2.clientFd ≠ fd := by
      rintro rfl
      simp [held] at hown
    simp only [held, AList.lookup_insert_ne hfd] at hown
    simpa [dropped, AList.lookup_erase_ne hfd] using hown
  · intro fd' id' hl'
    have hfd : fd' ≠ fd := by
      rintro rfl
      simp [dropped] at hl'
    simp only [dropped, AList.lookup_erase_ne hfd] at hl'
    exact hheld.linked fd' id' (by simpa [held, AList.lookup_insert_ne hfd] using hl')
  · exact hheld.sorted
  · intro p hp
    have hrec := hheld.recent p hp
    simpa [held, dropped, Node.new, Kernel.gettimeofday, Kernel.deleteFdFromEpoll] using hrec
  · have hlen := List.length_erase_of_mem hreg
    have hpos := List.length_pos_of_mem hreg
    have hc := h.counted
    simp only [dropped, AList.keys_erase, hlen]
    omega

theorem forbidenFd_consistent (h : s.Consistent) {fd : ℤ} (hs : forbidenFd fd s = .ok s') :
    s'.Consistent := by
  rcases forbidenFd_eq_ok hs with ⟨-, rfl⟩ | ⟨id, hl, -, rfl⟩
  · exact h
  · exact held_consistent h hl

theorem deleteFd_consistent (h : s.Consistent) {fd : ℤ} (hs : deleteFd fd s = .ok s') :
    s'.Consistent := by
  rcases deleteFd_eq_ok hs with ⟨-, rfl⟩ | ⟨id, hl, -, rfl⟩
  · exact h
  · exact dropped_consistent h hl

theorem addfd_consistent (h : s.Consistent) {fd : ℤ}
    (hfd : ¬ s.timer.Registered fd ∨ s.timer.Forbidden fd) : (addfd fd s).2.Consistent := by
  rw [addfd_eq]
  split_ifs
  · exact h
  · exact accepted_consistent h hfd

theorem expireFront_consistent (h : s.Consistent) {p : ℕ × Node} {ps : List (ℕ × Node)}
    (hnodes : s.timer.timeList.nodes = p :: ps) : (expireFront p.2 s).Consistent := by
  have hmem : p ∈ s.timer.timeList.nodes := by simp [hnodes]
  have htail : ∀ q ∈ ps, q ∈ s.timer.timeList.nodes := fun q hq => by simp [hnodes, hq]
  have hfds := h.fds_nodup
  rw [hnodes, List.map_cons, List.nodup_cons] at hfds
  have hother : ∀ q ∈ ps, q.2.clientFd ≠ p.2.clientFd := fun q hq he =>
    hfds.1 (List.mem_map.mpr ⟨q, hq, he⟩)
  have hps : (expireFront p.2 s).timer.timeList.nodes = ps := by simp [expireFront, hnodes]
  constructor
  · intro q hq
    rw [hps] at hq
    simpa [expireFront, AList.lookup_erase_ne (hother q hq)] using h.owned q (htail q hq)
  · intro fd id hl
    have hfd : fd ≠ p.2.clientFd := by
      rintro rfl
      simp [expireFront] at hl
    simp only [expireFront, AList.lookup_erase_ne hfd] at hl
    obtain ⟨n, hn, hnfd⟩ := h.linked fd id hl
    rw [hnodes] at hn
    rcases List.mem_cons.mp hn with rfl | hn
    · exact absurd hnfd.symm hfd
    · exact ⟨n, by rw [hps]; exact hn, hnfd⟩
  · have hsorted := h.sorted
    rw [hnodes] at hsorted
    rw [hps]
    exact (List.pairwise_cons.mp hsorted).2
  · intro q hq
    rw [hps] at hq
    exact h.recent q (htail q hq)
  · have hreg := AList.mem_keys.mp (h.live_of_mem hmem).1
    have hlen := List.length_erase_of_mem hreg
    have hpos := List.length_pos_of_mem hreg
    have hc := h.counted
    simp only [expireFront, AList.keys_erase, hlen]
    omega

/-- Expiring nodes from the head of the list one after the other. -/
theorem expireAll_consistent (ns : List Node) (h : s.Consistent)
    (hpre : ns <+: s.timer.timeList.values) : (expireAll ns s).Consistent := by
  induction ns generalizing s with
  | nil => exact h
  | cons n ns ih =>
    cases hnodes : s.timer.timeList.nodes with
    | nil => simp [IteratorList.values, hnodes] at hpre
    | cons p ps =>
      simp only [IteratorList.values, hnodes, List.map_cons, List.cons_prefix_cons] at hpre
      obtain ⟨rfl, hpre⟩ := hpre
      refine ih (expireFront_consistent h hnodes) ?_
      simpa [IteratorList.values, expireFront, hnodes] using hpre

/-- An alarm on a consistent timer. -/
theorem deleteExpiredFd_eq (h : s.Consistent) : deleteExpiredFd s =
    if (∀ n ∈ s.timer.timeList.values, expired s.kernel.gettimeofday n) ∧
        (s.timer.timeList.size : ℤ) < s.timer.curSize then .error .emptyFront
    else .ok (expireAll (expiredNodes s.kernel.gettimeofday s.timer) s) :=
  deleteExpiredLoop_eq _ s h.size_le_curSize

theorem deleteExpiredFd_eq_ok (h : s.Consistent) (hs : deleteExpiredFd s = .ok s') :
    s' = expireAll (expiredNodes s.kernel.gettimeofday s.timer) s := by
  rw [deleteExpiredFd_eq h] at hs
  split_ifs at hs
  exact (Except.ok.inj hs).symm

theorem deleteExpiredFd_consistent (h : s.Consistent) (hs : deleteExpiredFd s = .ok s') :
    s'.Consistent := by
  rw [deleteExpiredFd_eq_ok h hs]
  exact expireAll_consistent _ h (List.takeWhile_prefix _)

end Timer
end LxcHttpServer
