import LxcHttpServer.PoolInvariants

/-!
# Shutting the pool down

The destructor sets `running` to false and broadcasts without holding the mutex.
A thread that has read `running` as true and has not yet called `cond.wait` is
not blocked when the broadcast comes, and blocks afterwards. It is the only one.
-/
namespace LxcHttpServer.ThreadPool
open PartialRuns Monitors

variable {n : ℕ} {s s' : ThreadPool n} {w : Fin n}

/-- A thread is blocked, no wakeup is on its way to it, and nobody is about to notify. -/
def Asleep (s : ThreadPool n) : Prop :=
  s.monitor.blocked.Nonempty ∧ s.notifying = 0

instance (s : ThreadPool n) : Decidable s.Asleep :=
  inferInstanceAs (Decidable (_ ∧ _))

/-- `running` is false from the moment the destructor was called. -/
def Stopping (s : ThreadPool n) : Prop :=
  s.destructor ≠ .notCalled → s.running = false

theorem WorkerStep.destructor_eq (h : WorkerStep s w s') : s'.destructor = s.destructor := by
  cases h <;> rfl

theorem Stopping.step (hs : s.Stopping) {a : Label n} (hen : s.enabled a)
    (h : s.step a = .ok s') : s'.Stopping := by
  intro hcalled
  cases a with
  | worker w =>
    have hw := worker_cases hen h
    rw [hw.running_eq]
    exact hs (hw.destructor_eq ▸ hcalled)
  | broadcast =>
    cases h
    have hstopped : s.destructor = .stopped := hen
    exact hs (by simp [hstopped])
  | join =>
    simp only [ThreadPool.step] at h
    split at h <;> cases h
    · next k hk => exact hs (by simp [hk])
    · exact hs hcalled
    · exact hs hcalled
  | stop =>
    cases h
    rfl
  | append | notify | spurious =>
    cases h
    exact hs hcalled

theorem stopping_of_run {as : List (Label n)} (h : (system n).Run (new n) as s) : s.Stopping :=
  h.invariant (fun hcalled => absurd rfl hcalled) fun _ _ _ hs hen hstep => hs.step hen hstep

/-- `running` is false, nobody is blocked, and nobody will be. -/
structure Leaving (s : ThreadPool n) : Prop where
  stopped : s.running = false
  awake : s.monitor.blocked = ∅
  passed : ∀ w, (s.workers w).pc ≠ .wait

/-- With `running` false a thread that tests it does not go on to wait. -/
theorem WorkerStep.leaving (h : WorkerStep s w s') (hs : s.Leaving) : s'.Leaving where
  stopped := by rw [h.running_eq, hs.stopped]
  awake := by
    rcases h.blocked_cases with heq | ⟨hpc, -⟩
    · rw [heq, hs.awake]
    · exact absurd hpc (hs.passed w)
  passed u := by
    by_cases hne : u = w
    · subst hne
      cases h with
      | mustWait hpc hrun => simp [hs.stopped] at hrun
      | _ => simp [goto]
    · rw [h.workers_of_ne hne]
      exact hs.passed u

theorem Leaving.step (hs : s.Leaving) {a : Label n} (hen : s.enabled a) (h : s.step a = .ok s') :
    s'.Leaving := by
  cases a with
  | worker w => exact (worker_cases hen h).leaving hs
  | append taskData =>
    cases h
    exact ⟨hs.stopped, hs.awake, hs.passed⟩
  | stop =>
    cases h
    exact ⟨rfl, hs.awake, hs.passed⟩
  | join =>
    simp only [ThreadPool.step] at h
    split at h <;> cases h <;> exact ⟨hs.stopped, hs.awake, hs.passed⟩
  | notify | spurious | broadcast =>
    cases h
    exact ⟨hs.stopped, by simp [notifyOneThread, notifyAll, hs.awake], hs.passed⟩

/-- The callers send their outstanding signals while there is nobody to wake. -/
theorem signals_lost (k : ℕ) (hawake : s.monitor.blocked = ∅) (hk : s.notifying = k) :
    ∃ t, (system n).Run s (List.replicate k (.notify ∅)) t ∧ t.notifying = 0 ∧
      t.workers = s.workers := by
  induction k generalizing s with
  | zero => exact ⟨s, .nil, hk, rfl⟩
  | succ k ih =>
    have hen : s.enabled (.notify ∅) := by simp [enabled, Monitor.Signals, hk, hawake]
    have hawake' : (s.notifyOneThread ∅).monitor.blocked = ∅ := by
      simp [notifyOneThread, hawake]
    have hk' : (s.notifyOneThread ∅).notifying = k := by simp [notifyOneThread, hk]
    obtain ⟨t, hrun, hzero, hworkers⟩ := ih hawake' hk'
    exact ⟨t, (System.Run.single hen rfl).append hrun, hzero, hworkers⟩

/-- The thread that is about to wait blocks after the broadcast. -/
theorem blocks_after_broadcast (hs : s.destructor = .stopped) (hw : (s.workers w).pc = .wait) :
    ∃ bs t, (system n).Run s (.broadcast :: bs) t ∧ t.Asleep := by
  have hbroadcast : (system n).Run s [.broadcast] _ := .single hs rfl
  obtain ⟨t, hlost, hzero, hworkers⟩ :=
    signals_lost (s := s.notifyAll) s.notifying (by simp [notifyAll]) rfl
  have hpc : (t.workers w).pc = .wait := hworkers ▸ hw
  have hen : t.enabled (.worker w) := by simp [enabled, ready, hpc]
  have hstep : t.step (.worker w) =
      .ok { t.goto w .waiting with monitor := t.monitor.wait w } := by
    simp only [ThreadPool.step, worker, hpc]
  have hwait : (system n).Run t [.worker w] _ := .single hen hstep
  refine ⟨_, _, (hbroadcast.append hlost).append hwait, ?_, hzero⟩
  exact ⟨w, Finset.mem_insert_self w _⟩

/-- After the broadcast no thread stays blocked, whatever happens, exactly when no thread stood
between its test of `running` and `cond.wait` at the broadcast. -/
theorem all_woken_iff {as : List (Label n)} (h : (system n).Run (new n) as s)
    (hs : s.destructor = .stopped) :
    (∀ bs t, (system n).Run s (.broadcast :: bs) t → ¬ t.Asleep) ↔
      ∀ w, (s.workers w).pc ≠ .wait := by
  constructor
  · intro hall w hw
    obtain ⟨bs, t, hrun, hasleep⟩ := blocks_after_broadcast hs hw
    exact hall bs t hrun hasleep
  · intro hnone bs t hrun hasleep
    obtain ⟨u, hen, hstep, hrest⟩ := hrun.of_cons
    cases hstep
    have hstopped : s.running = false := stopping_of_run h (by simp [hs])
    have hleaving : t.Leaving := hrest.invariant ⟨hstopped, by simp [notifyAll], hnone⟩
      fun _ _ _ ht hen hstep => ht.step hen hstep
    simp [Asleep, hleaving.awake] at hasleep

/-- One thread blocks on the empty list, and is woken by the broadcast. -/
theorem all_woken_blocked : ∃ s : ThreadPool 1, s.monitor.blocked = {0} ∧
    ∀ bs t, (system 1).Run s (.broadcast :: bs) t → ¬ t.Asleep := by
  obtain ⟨s, h, hs, hpc, hblocked⟩ : ∃ s, (system 1).Run (new 1)
      [.worker 0, .worker 0, .worker 0, .worker 0, .worker 0, .stop] s ∧
        s.destructor = .stopped ∧ (∀ w, (s.workers w).pc ≠ .wait) ∧ s.monitor.blocked = {0} :=
    System.Run.exists_of_exec (by decide +kernel)
  exact ⟨s, hblocked, (all_woken_iff h hs).mpr hpc⟩

/-- One thread reads `running` as true, the destructor sets it to false and broadcasts, and then
the thread blocks: it is joined and nothing wakes it. -/
theorem not_all_woken : ¬ ∀ (n : ℕ) (as : List (Label n)) (s : ThreadPool n),
    (system n).Run (new n) as s → s.destructor = .joining 0 → ¬ s.Asleep := by
  intro hall
  obtain ⟨s, h, hs, hasleep⟩ : ∃ s, (system 1).Run (new 1)
      [.worker 0, .worker 0, .worker 0, .worker 0, .stop, .broadcast, .worker 0] s ∧
        s.destructor = .joining 0 ∧ s.Asleep := System.Run.exists_of_exec (by decide +kernel)
  exact hall 1 _ s h hs hasleep

end LxcHttpServer.ThreadPool
