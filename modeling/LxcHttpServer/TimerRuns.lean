import LxcHttpServer.PartialRuns
import LxcHttpServer.TimerRefinement

/-!
# Runs of the timer

The actions are the four calls of the timer, the passing of time and what the kernel
does to descriptors. The event loop forbids a registered descriptor before it hands
it to a worker, so along the server's runs `addfd` meets only descriptors without an
entry or with a forbidden one; such runs stay consistent.
-/
namespace LxcHttpServer
open IteratorLists Leases PartialRuns

inductive Action where
  | addfd (fd : ℤ)
  | forbidenFd (fd : ℤ)
  | deleteFd (fd : ℤ)
  | deleteExpiredFd
  | elapse (usec : ℕ)
  | accept (fd : ℤ)
  | deliver (fd : ℤ)
  | close (fd : ℤ)
  deriving DecidableEq

namespace Server

/-- Only an armed descriptor gets an event; a new one has a number not in use. -/
def Possible (s : Server) : Action → Prop
  | .deliver fd => s.kernel.Armed fd
  | .accept fd => fd ∉ s.kernel.openFds
  | _ => True

instance (s : Server) : ∀ a, Decidable (s.Possible a)
  | .deliver fd => inferInstanceAs (Decidable (s.kernel.Armed fd))
  | .accept fd => inferInstanceAs (Decidable (fd ∉ s.kernel.openFds))
  | .addfd _ | .forbidenFd _ | .deleteFd _ | .deleteExpiredFd | .elapse _ | .close _ =>
    inferInstanceAs (Decidable True)

/-- `addfd` is called for a descriptor without an entry or with a forbidden one. -/
def ForbidsFirst (s : Server) : Action → Prop
  | .addfd fd => ¬ s.timer.Registered fd ∨ s.timer.Forbidden fd
  | _ => True

instance (s : Server) : ∀ a, Decidable (s.ForbidsFirst a)
  | .addfd fd => inferInstanceAs (Decidable (¬ s.timer.Registered fd ∨ s.timer.Forbidden fd))
  | .forbidenFd _ | .deleteFd _ | .deleteExpiredFd | .elapse _ | .accept _ | .deliver _
  | .close _ => inferInstanceAs (Decidable True)

def act (s : Server) : Action → Except IteratorFault Server
  | .addfd fd => .ok (Timer.addfd fd s).2
  | .forbidenFd fd => Timer.forbidenFd fd s
  | .deleteFd fd => Timer.deleteFd fd s
  | .deleteExpiredFd => Timer.deleteExpiredFd s
  | .elapse usec => .ok { s with kernel := s.kernel.elapse usec }
  | .accept fd => .ok { s with kernel := s.kernel.openFd fd }
  | .deliver fd => .ok { s with kernel := s.kernel.deliver fd }
  | .close fd => .ok { s with kernel := s.kernel.close fd }

end Server

/-- Calls in any order. -/
def anyOrder : System Server Action IteratorFault := ⟨Server.Possible, Server.act⟩

/-- Calls in the order the event loop and the workers make them. -/
def serverOrder : System Server Action IteratorFault := anyOrder.restrict Server.ForbidsFirst

instance (s : Server) (a : Action) : Decidable (anyOrder.enabled s a) :=
  inferInstanceAs (Decidable (s.Possible a))

instance (s : Server) (a : Action) : Decidable (serverOrder.enabled s a) :=
  inferInstanceAs (Decidable (anyOrder.enabled s a ∧ s.ForbidsFirst a))

namespace Server

variable {s s' : Server} {timeout maxSize : ℤ} {k : Kernel} {as : List Action}

/-- A kernel step that does not turn back the clock. -/
theorem Consistent.kernel (h : s.Consistent) {k' : Kernel} (hclock : s.kernel.clock ≤ k'.clock) :
    Consistent { s with kernel := k' } := by
  refine ⟨h.owned, h.linked, h.sorted, ?_, h.counted⟩
  intro p hp
  have hrec := h.recent p hp
  have hle : (Node.new 0 s.timer.timeout s.kernel).expireTime ≤
      (Node.new 0 s.timer.timeout k').expireTime := by
    have hmono := Kernel.gettimeofday_mono hclock
    simp only [TimeVal.le_def, Node.new] at hmono ⊢
    omega
  exact hrec.trans hle

/-- An action is one of the four calls, or a step of the kernel alone. -/
theorem act_cases {a : Action} (hact : s.act a = .ok s') :
    (∃ fd, a = .addfd fd ∧ s' = (Timer.addfd fd s).2) ∨
      (∃ fd, a = .forbidenFd fd ∧ Timer.forbidenFd fd s = .ok s') ∨
      (∃ fd, a = .deleteFd fd ∧ Timer.deleteFd fd s = .ok s') ∨
      (a = .deleteExpiredFd ∧ Timer.deleteExpiredFd s = .ok s') ∨
      ∃ k, s.kernel.clock ≤ k.clock ∧ s' = { s with kernel := k } := by
  have hkernel : ∀ k : Kernel, s.kernel.clock ≤ k.clock →
      Except.ok { s with kernel := k } = (Except.ok s' : Except IteratorFault Server) →
      ∃ k, s.kernel.clock ≤ k.clock ∧ s' = { s with kernel := k } :=
    fun k hclock hs => ⟨k, hclock, (Except.ok.inj hs).symm⟩
  cases a with
  | addfd fd => exact .inl ⟨fd, rfl, (Except.ok.inj hact).symm⟩
  | forbidenFd fd => exact .inr (.inl ⟨fd, rfl, hact⟩)
  | deleteFd fd => exact .inr (.inr (.inl ⟨fd, rfl, hact⟩))
  | deleteExpiredFd => exact .inr (.inr (.inr (.inl ⟨rfl, hact⟩)))
  | elapse usec =>
    have hclock : s.kernel.clock ≤ s.kernel.clock + (usec : ℤ) := by omega
    exact .inr (.inr (.inr (.inr (hkernel (s.kernel.elapse usec) hclock hact))))
  | accept fd => exact .inr (.inr (.inr (.inr (hkernel (s.kernel.openFd fd) (le_refl _) hact))))
  | deliver fd => exact .inr (.inr (.inr (.inr (hkernel (s.kernel.deliver fd) (le_refl _) hact))))
  | close fd => exact .inr (.inr (.inr (.inr (hkernel (s.kernel.close fd) (le_refl _) hact))))

theorem act_consistent {a : Action} (h : s.Consistent) (hfirst : s.ForbidsFirst a)
    (hact : s.act a = .ok s') : s'.Consistent := by
  rcases act_cases hact with ⟨fd, rfl, rfl⟩ | ⟨fd, rfl, hs⟩ | ⟨fd, rfl, hs⟩ | ⟨rfl, hs⟩ |
    ⟨k, hclock, rfl⟩
  · exact Timer.addfd_consistent h hfirst
  · exact Timer.forbidenFd_consistent h hs
  · exact Timer.deleteFd_consistent h hs
  · exact Timer.deleteExpiredFd_consistent h hs
  · exact h.kernel hclock

theorem consistent_of_run (h : serverOrder.Run ⟨.new timeout maxSize, k⟩ as s) : s.Consistent := by
  apply h.invariant (Consistent.of_new timeout maxSize k)
  intro t a t' ht hen hact
  exact act_consistent ht hen.2 hact

/-- The counter is the number of nodes, as its declaration says, and an alarm does not
read the head of an empty list. -/
def CountsNodes (s : Server) : Prop :=
  s.timer.curSize = s.timer.timeList.size ∧ Timer.deleteExpiredFd s ≠ .error .emptyFront

/-- The step does not forbid a registered descriptor. -/
def ForbidsNone (s : Server) : Action → Prop
  | .forbidenFd fd => ¬ s.timer.Registered fd
  | _ => True

instance (s : Server) : ∀ a, Decidable (s.ForbidsNone a)
  | .forbidenFd fd => inferInstanceAs (Decidable (¬ s.timer.Registered fd))
  | .addfd _ | .deleteFd _ | .deleteExpiredFd | .elapse _ | .accept _ | .deliver _ | .close _ =>
    inferInstanceAs (Decidable True)

theorem forbidsNone_iff {a : Action} :
    s.ForbidsNone a ↔ ∀ fd, a = .forbidenFd fd → ¬ s.timer.Registered fd := by
  cases a <;> simp [ForbidsNone]

theorem not_forbidden_accepted {fd : ℤ} (h : ∀ fd, ¬ s.timer.Forbidden fd) (fd' : ℤ) :
    ¬ (Timer.accepted fd s).timer.Forbidden fd' := by
  intro hforb
  by_cases hne : fd' = fd
  · subst hne
    simp [Timer.Forbidden, Timer.accepted] at hforb
  · exact h fd' (by simpa [Timer.Forbidden, Timer.accepted, AList.lookup_insert_ne hne] using hforb)

/-- No entry becomes forbidden without a call of `forbidenFd` for a registered one. -/
theorem act_not_forbidden {a : Action} (h : s.Consistent) (hnone : ∀ fd, ¬ s.timer.Forbidden fd)
    (hcond : s.ForbidsNone a) (hact : s.act a = .ok s') : ∀ fd, ¬ s'.timer.Forbidden fd := by
  rcases act_cases hact with ⟨fd, rfl, rfl⟩ | ⟨fd, rfl, hs⟩ | ⟨fd, rfl, hs⟩ | ⟨rfl, hs⟩ |
    ⟨k, -, rfl⟩
  · rw [Timer.addfd_eq]
    split_ifs
    · exact hnone
    · exact not_forbidden_accepted hnone
  · cases (Timer.forbidenFd_unregistered hcond).symm.trans hs
    exact hnone
  · intro fd' hforb
    rcases Timer.deleteFd_eq_ok hs with ⟨-, rfl⟩ | ⟨id, -, -, rfl⟩
    · exact hnone fd' hforb
    · by_cases hne : fd' = fd
      · subst hne
        simp [Timer.Forbidden, Timer.dropped] at hforb
      · exact hnone fd' (by
          simpa [Timer.Forbidden, Timer.dropped, AList.lookup_erase_ne hne] using hforb)
  · intro fd' hforb
    rw [Timer.deleteExpiredFd_eq_ok h hs] at hforb
    simp only [Timer.Forbidden, Timer.lookup_hashMap_expireAll] at hforb
    split_ifs at hforb
    exact hnone fd' hforb
  · exact hnone

/-- Without forbidden entries the entries of the map are the nodes of the list. -/
theorem Consistent.countsNodes (h : s.Consistent) (hnone : ∀ fd, ¬ s.timer.Forbidden fd) :
    s.CountsNodes := by
  have hsub : s.timer.hashMap.keys ⊆ s.timer.timeList.nodes.map fun p => p.2.clientFd := by
    intro fd hfd
    obtain ⟨id, n, -, hn, hnfd⟩ := h.exists_node (AList.mem_keys.mpr hfd) (hnone fd)
    exact List.mem_map.mpr ⟨(id, n), hn, hnfd⟩
  have hlen := (List.subperm_of_subset s.timer.hashMap.keys_nodup hsub).length_le
  rw [List.length_map, IteratorList.length_nodes] at hlen
  have hle := h.size_le_curSize
  have hc := h.counted
  have heq : s.timer.curSize = s.timer.timeList.size := by omega
  refine ⟨heq, ?_⟩
  rw [Timer.deleteExpiredFd_eq h, if_neg (by omega)]
  exact fun he => by cases he

/-- Forbidding a registered descriptor takes its node and leaves the counter. -/
theorem CountsNodes.not_held (h : s.CountsNodes) {fd : ℤ} (hreg : s.timer.Registered fd)
    (hact : s.act (.forbidenFd fd) = .ok s') : ¬ s'.CountsNodes := by
  rcases Timer.forbidenFd_eq_ok hact with ⟨hreg', -⟩ | ⟨id, -, hid, rfl⟩
  · exact absurd hreg hreg'
  · obtain ⟨p, hp, rfl⟩ := List.mem_map.mp hid
    have hsize := s.timer.timeList.size_filter_ne hp
    intro h'
    have h1 := h.1
    have h2 := h'.1
    simp only [Timer.held] at h2
    omega

/-- In a run of the server the counter is the number of nodes all along exactly when no
registered descriptor is forbidden. -/
theorem curSize_counts_nodes_iff (h : serverOrder.Run ⟨.new timeout maxSize, k⟩ as s) :
    serverOrder.Always CountsNodes ⟨.new timeout maxSize, k⟩ as ↔
      serverOrder.Meets ForbidsNone ⟨.new timeout maxSize, k⟩ as := by
  constructor
  · intro halways pre a t hpre hrun
    rw [forbidsNone_iff]
    rintro fd rfl hreg
    obtain ⟨post, rfl⟩ := hpre
    obtain ⟨u, hu, -⟩ := h.split
    obtain ⟨t', ht', -, hact⟩ := System.Run.of_snoc hu
    cases hrun.functional ht'
    have hbefore := halways pre t ⟨[.forbidenFd fd] ++ post, by simp⟩ hrun
    exact hbefore.not_held hreg hact (halways _ u ⟨post, rfl⟩ hu)
  · intro hmeets
    refine System.Always.of_restrict hmeets ?_
    intro bs t ht
    have hboth : t.Consistent ∧ ∀ fd, ¬ t.timer.Forbidden fd := by
      apply ht.invariant ⟨.of_new timeout maxSize k, by simp [Timer.Forbidden, Timer.new]⟩
      rintro u a u' ⟨hu, hnone⟩ ⟨hen, hcond⟩ hact
      exact ⟨act_consistent hu hen.2 hact, act_not_forbidden hu hnone hcond hact⟩
    exact hboth.1.countsNodes hboth.2

/-- A connection that is kept and whose next request does not come. -/
theorem curSize_counts_nodes_kept : serverOrder.Always CountsNodes ⟨.new 15 1000, .boot⟩
    [.accept 5, .addfd 5, .elapse 2000000] := by
  have hex : ∃ s, (serverOrder.restrict ForbidsNone).Run ⟨.new 15 1000, .boot⟩
      [.accept 5, .addfd 5, .elapse 2000000] s ∧ s.timer.curSize = 1 :=
    System.Run.exists_of_exec (by decide +kernel)
  obtain ⟨s, hs, -⟩ := hex
  have hrun := System.Run.restrict_iff.mp hs
  exact (curSize_counts_nodes_iff hrun.1).mpr hrun.2

/-- After the second request of a kept connection is dispatched the counter is one and
the list is empty, and the next alarm reads its head. -/
theorem not_curSize_counts_nodes : ∃ s, serverOrder.Run ⟨.new 15 1000, .boot⟩
    [.accept 5, .addfd 5, .deliver 5, .forbidenFd 5] s ∧ s.timer.curSize = 1 ∧
    s.timer.timeList.size = 0 ∧ Timer.deleteExpiredFd s = .error .emptyFront := by
  have hex : ∃ s, serverOrder.Run ⟨.new 15 1000, .boot⟩
      [.accept 5, .addfd 5, .deliver 5, .forbidenFd 5] s ∧ s.timer.curSize = 1 ∧
      s.timer.timeList.size = 0 ∧ s.timer.timeList.values = [] :=
    System.Run.exists_of_exec (by decide +kernel)
  obtain ⟨s, hs, hcur, hsize, hvalues⟩ := hex
  refine ⟨s, hs, hcur, hsize, ?_⟩
  rw [Timer.deleteExpiredFd_eq (consistent_of_run hs), hvalues, if_pos]
  simp [hcur, hsize]

end Server
end LxcHttpServer
