import LxcHttpServer.TimerInvariants

/-!
# The timer is a table of leases

A live entry is a lease until the expiry time of its node, a forbidden entry is a
held lease. On consistent timers `addfd`, `forbidenFd`, `deleteFd` and
`deleteExpiredFd` are keeping, holding, dropping and expiring leases.
-/
namespace LxcHttpServer
open IteratorLists Leases

def Timer.leases (t : Timer) : Table ℤ TimeVal := fun fd =>
  match t.hashMap.lookup fd with
  | none => none
  | some .pastEnd => some .held
  | some (.node id) => (t.timeList.get? id).map fun n => .live n.expireTime

namespace Timer

variable {s s' : Server}

theorem leases_of_unregistered {t : Timer} {fd : ℤ} (h : ¬ t.Registered fd) :
    t.leases fd = none := by
  simp only [leases, AList.lookup_eq_none.mpr h]

theorem leases_of_forbidden {t : Timer} {fd : ℤ} (h : t.Forbidden fd) :
    t.leases fd = some .held := by
  have h' : t.hashMap.lookup fd = some .pastEnd := h
  simp only [leases, h']

theorem leases_of_node (h : s.Consistent) {p : ℕ × Node} (hp : p ∈ s.timer.timeList.nodes) :
    s.timer.leases p.2.clientFd = some (.live p.2.expireTime) := by
  have hget := (s.timer.timeList.get?_eq_some_iff p.1 p.2).mpr hp
  simp only [leases, h.owned p hp, hget, Option.map_some]

/-- An entry of the table is one of the three kinds. -/
theorem leases_cases (h : s.Consistent) (fd : ℤ) :
    (¬ s.timer.Registered fd ∧ s.timer.leases fd = none) ∨
      (s.timer.Forbidden fd ∧ s.timer.leases fd = some .held) ∨
      ∃ p ∈ s.timer.timeList.nodes, p.2.clientFd = fd ∧
        s.timer.leases fd = some (.live p.2.expireTime) := by
  by_cases hreg : s.timer.Registered fd
  · by_cases hforb : s.timer.Forbidden fd
    · exact .inr (.inl ⟨hforb, leases_of_forbidden hforb⟩)
    · obtain ⟨id, n, -, hn, rfl⟩ := h.exists_node hreg hforb
      exact .inr (.inr ⟨(id, n), hn, rfl, leases_of_node h hn⟩)
  · exact .inl ⟨hreg, leases_of_unregistered hreg⟩

/-- A descriptor keeps its lease when its entry stays and its node is not a new one. -/
theorem leases_congr (h : s.Consistent) (h' : s'.Consistent) {fd : ℤ}
    (hl : s'.timer.hashMap.lookup fd = s.timer.hashMap.lookup fd)
    (hn : ∀ p ∈ s'.timer.timeList.nodes, p.2.clientFd = fd → p ∈ s.timer.timeList.nodes) :
    s'.timer.leases fd = s.timer.leases fd := by
  rcases leases_cases h' fd with ⟨hreg, hle⟩ | ⟨hforb, hle⟩ | ⟨p, hp, hfd, hle⟩
  · have hreg' : ¬ s.timer.Registered fd :=
      AList.lookup_eq_none.mp (hl ▸ AList.lookup_eq_none.mpr hreg)
    rw [hle, leases_of_unregistered hreg']
  · have hforb' : s.timer.Forbidden fd := hl.symm.trans hforb
    rw [hle, leases_of_forbidden hforb']
  · have hle' := leases_of_node h (hn p hp hfd)
    rw [hle, ← hfd, hle']

theorem leases_accepted (h : s.Consistent) {fd : ℤ}
    (hfd : ¬ s.timer.Registered fd ∨ s.timer.Forbidden fd) :
    (accepted fd s).timer.leases =
      s.timer.leases.keep fd (Node.new fd s.timer.timeout s.kernel).expireTime := by
  have h' := accepted_consistent h hfd
  funext fd'
  by_cases hne : fd' = fd
  · subst hne
    have hnew : (s.timer.timeList.next, Node.new fd' s.timer.timeout s.kernel) ∈
        (accepted fd' s).timer.timeList.nodes :=
      List.mem_append_right _ (List.mem_singleton_self _)
    have hle := leases_of_node h' hnew
    rw [Table.keep, Function.update_self]
    exact hle
  · rw [Table.keep, Function.update_of_ne hne]
    refine leases_congr h h' (AList.lookup_insert_ne hne) ?_
    intro p hp hp'
    rcases List.mem_append.mp hp with hp | hp
    · exact hp
    · cases List.mem_singleton.mp hp
      exact absurd hp'.symm hne

theorem leases_held (h : s.Consistent) {fd : ℤ} {id : ℕ}
    (hl : s.timer.hashMap.lookup fd = some (.node id)) :
    (held fd id s).timer.leases = s.timer.leases.hold fd := by
  have h' := held_consistent h hl
  obtain ⟨n, hn, hnfd⟩ := h.linked fd id hl
  funext fd'
  by_cases hne : fd' = fd
  · subst hne
    have hforb : (held fd' id s).timer.Forbidden fd' := AList.lookup_insert _
    have hle := leases_of_node h hn
    rw [Table.hold, Function.update_self, leases_of_forbidden hforb, ← hnfd, hle]
    rfl
  · rw [Table.hold, Function.update_of_ne hne]
    exact leases_congr h h' (AList.lookup_insert_ne hne) fun p hp _ => (List.mem_filter.mp hp).1

theorem leases_dropped (h : s.Consistent) {fd : ℤ} {id : ℕ}
    (hl : s.timer.hashMap.lookup fd = some (.node id)) :
    (dropped fd id s).timer.leases = s.timer.leases.drop fd := by
  have h' := dropped_consistent h hl
  funext fd'
  by_cases hne : fd' = fd
  · subst hne
    have hreg : ¬ (dropped fd' id s).timer.Registered fd' :=
      AList.lookup_eq_none.mp (AList.lookup_erase _ _)
    rw [Table.drop, Function.update_self, leases_of_unregistered hreg]
  · rw [Table.drop, Function.update_of_ne hne]
    exact leases_congr h h' (AList.lookup_erase_ne hne) fun p hp _ => (List.mem_filter.mp hp).1

theorem leases_forbidenFd (h : s.Consistent) {fd : ℤ} (hs : forbidenFd fd s = .ok s') :
    s'.timer.leases = s.timer.leases.hold fd := by
  rcases forbidenFd_eq_ok hs with ⟨hreg, rfl⟩ | ⟨id, hl, -, rfl⟩
  · have hnone := leases_of_unregistered hreg
    rw [Table.hold, hnone, Option.map_none, ← hnone, Function.update_eq_self]
  · exact leases_held h hl

theorem leases_deleteFd (h : s.Consistent) {fd : ℤ} (hs : deleteFd fd s = .ok s') :
    s'.timer.leases = s.timer.leases.drop fd := by
  rcases deleteFd_eq_ok hs with ⟨hreg, rfl⟩ | ⟨id, hl, -, rfl⟩
  · have hnone := leases_of_unregistered hreg
    rw [Table.drop, ← hnone, Function.update_eq_self]
  · exact leases_dropped h hl

/-- The lease is over at `curtime`. -/
def Due (curtime d : TimeVal) : Prop := d.tvSec < curtime.tvSec

/-- The expired nodes at the head of the list are all expired nodes. -/
theorem expiredNodes_eq_filter (h : s.Consistent) (curtime : TimeVal) :
    expiredNodes curtime s.timer = s.timer.timeList.values.filter (expired curtime) := by
  have hsorted : s.timer.timeList.values.Pairwise fun a b => a.expireTime ≤ b.expireTime :=
    List.pairwise_map.mpr h.sorted
  apply takeWhile_eq_filter hsorted
  intro a b hab hb
  have hle := TimeVal.sec_le hab
  simp only [expired, gt_iff_lt, decide_eq_true_eq] at *
  omega

theorem mem_expiredFds_iff (h : s.Consistent) (curtime : TimeVal) (fd : ℤ) :
    fd ∈ (expiredNodes curtime s.timer).map Node.clientFd ↔
      ∃ d, s.timer.leases fd = some (.live d) ∧ Due curtime d := by
  rw [expiredNodes_eq_filter h]
  constructor
  · intro hm
    obtain ⟨n, hn, rfl⟩ := List.mem_map.mp hm
    obtain ⟨hn, hexp⟩ := List.mem_filter.mp hn
    obtain ⟨p, hp, rfl⟩ := List.mem_map.mp hn
    exact ⟨p.2.expireTime, leases_of_node h hp, by simpa [expired, Due] using hexp⟩
  · rintro ⟨d, hd, hdue⟩
    rcases leases_cases h fd with ⟨-, hle⟩ | ⟨-, hle⟩ | ⟨p, hp, hfd, hle⟩
    · simp [hle] at hd
    · simp [hle] at hd
    · have hexp : p.2.expireTime = d := by simpa [hle] using hd
      refine List.mem_map.mpr ⟨p.2, List.mem_filter.mpr ⟨List.mem_map.mpr ⟨p, hp, rfl⟩, ?_⟩, hfd⟩
      simpa [expired, hexp, Due] using hdue

theorem nodes_expireAll_subset (ns : List Node) (s : Server) :
    (expireAll ns s).timer.timeList.nodes ⊆ s.timer.timeList.nodes := by
  induction ns generalizing s with
  | nil => exact List.Subset.refl _
  | cons n ns ih =>
    intro p hp
    exact List.mem_of_mem_tail (ih (expireFront n s) hp)

theorem leases_deleteExpiredFd (h : s.Consistent) (hs : deleteExpiredFd s = .ok s') :
    s'.timer.leases = s.timer.leases.expire (Due s.kernel.gettimeofday) := by
  have h' := deleteExpiredFd_consistent h hs
  have heq := deleteExpiredFd_eq_ok h hs
  funext fd
  have hlook := lookup_hashMap_expireAll (expiredNodes s.kernel.gettimeofday s.timer) s fd
  rw [← heq] at hlook
  by_cases hm : fd ∈ (expiredNodes s.kernel.gettimeofday s.timer).map Node.clientFd
  · rw [if_pos hm] at hlook
    obtain ⟨d, hd, hdue⟩ := (mem_expiredFds_iff h _ fd).mp hm
    rw [leases_of_unregistered (AList.lookup_eq_none.mp hlook), eq_comm,
      Table.expire_eq_none_iff]
    intro l hl
    cases hd.symm.trans hl
    exact hdue
  · rw [if_neg hm] at hlook
    rw [leases_congr h h' hlook fun p hp _ =>
      nodes_expireAll_subset _ _ (heq ▸ hp)]
    cases hl : s.timer.leases fd with
    | none => simp [Table.expire, hl]
    | some l =>
      refine ((Table.expire_eq_some_iff _ _ fd l).mpr ⟨hl, ?_⟩).symm
      cases l with
      | live d => exact fun hdue => hm ((mem_expiredFds_iff h _ fd).mpr ⟨d, hl, hdue⟩)
      | held => exact id

end Timer
end LxcHttpServer
