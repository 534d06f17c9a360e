import LxcHttpServer.ElasticCounters

/-!
# Tasks and idle workers of the elastic pool

A worker tests the queue under `mutexPool` and waits under it, but `addTask` pushes and
signals without it, so a signal can fall between the test and the wait. It is lost for the
worker that is there; that worker holds the mutex, so there is only one. Another worker
either is woken or has its test still before it.
-/
namespace LxcHttpServer.MyThreadPool
open PartialRuns Monitors

variable {minNum maxNum : ℕ} {s s' : MyThreadPool minNum maxNum} {w : ℕ}

/-- The worker has found the queue empty and is not yet blocked. -/
def Pc.window : Pc → Prop
  | .testShutdown | .wait => True
  | _ => False

instance : DecidablePred Pc.window := fun pc => by
  unfold Pc.window
  split <;> infer_instance

/-- There is a task, every live worker is blocked with no wakeup on its way to it, and nobody is
about to signal. -/
def LeftBehind (s : MyThreadPool minNum maxNum) : Prop :=
  s.taskQ ≠ [] ∧ s.signalling = 0 ∧
    ∀ w < s.created, (s.workers w).pc ≠ .exited → .worker w ∈ s.monitor.blocked

instance (s : MyThreadPool minNum maxNum) : Decidable s.LeftBehind :=
  inferInstanceAs (Decidable (_ ∧ _ ∧ _))

/-- No worker takes the queue for empty because its size does not fit an `int`. -/
def Short (s : MyThreadPool minNum maxNum) : Label → Prop
  | .worker w =>
    (s.workers w).pc = .testEmpty → TaskQueue.taskNumber s.taskQ = 0 → s.taskQ = []
  | _ => True

/-- Besides, the last caller to signal for the tasks in the queue does so while some worker is
not between its test of the queue and its wait. -/
def Heard (s : MyThreadPool minNum maxNum) : Label → Prop
  | .signal _ =>
    s.signalling = 1 → s.taskQ ≠ [] → ∃ w, w < s.created ∧ ¬ (s.workers w).pc.window
  | a => s.Short a

instance (s : MyThreadPool minNum maxNum) : ∀ a, Decidable (s.Short a)
  | .worker _ => inferInstanceAs (Decidable (_ → _ → _))
  | .construct | .addTask _ | .push _ | .signal _ | .manager | .managerSignal _ | .destroy
  | .destroySignal _ | .spurious _ => .isTrue trivial

instance (s : MyThreadPool minNum maxNum) : ∀ a, Decidable (s.Heard a)
  | .signal _ => inferInstanceAs (Decidable (_ → _ → _))
  | .worker w => inferInstanceAs (Decidable (s.Short (.worker w)))
  | .construct | .addTask _ | .push _ | .manager | .managerSignal _ | .destroy
  | .destroySignal _ | .spurious _ => .isTrue trivial

/-- The worker will look at the queue again. -/
def Attends (s : MyThreadPool minNum maxNum) (w : ℕ) : Prop :=
  w < s.created ∧ .worker w ∉ s.monitor.blocked ∧ ¬ (s.workers w).pc.window

/-- For every task whose signal was sent there is somebody. -/
def Covered (s : MyThreadPool minNum maxNum) : Prop :=
  s.taskQ ≠ [] → s.signalling = 0 → ∃ w, s.Attends w

theorem WorkerStep.covered (h : WorkerStep s w s') (hheard : s.Heard (.worker w))
    (hs : s.Covered) : s'.Covered := by
  intro htask hsignalling
  have hrest := h.onlyWorker
  have hqueue : s.taskQ ≠ [] := fun hnil => htask (h.taskQ_nil hnil)
  rw [hrest.signalling] at hsignalling
  obtain ⟨v, hv, hawake, hout⟩ := hs hqueue hsignalling
  refine ⟨v, by rwa [hrest.created], ?_, ?_⟩
  · rcases h.blocked_cases with heq | ⟨hpc, heq, -⟩
    · rwa [heq]
    · rw [heq, Finset.mem_insert, not_or]
      refine ⟨?_, hawake⟩
      intro hvw
      cases hvw
      simp [hpc, Pc.window] at hout
  · by_cases hvw : v = w
    · subst hvw
      cases h with
      | findsNone hpc hzero => exact absurd (hheard hpc hzero) hqueue
      | mustWait hpc => simp [hpc, Pc.window] at hout
      | _ => simp [goto, set, Pc.window]
    · rwa [hrest.workers v hvw]

/-- A signal wakes a blocked worker, or it comes while somebody is awake outside the window. -/
theorem signal_covered (hsound : s.Sound) {woken : Finset Tid} (hsignals : s.monitor.Signals woken)
    (hheard : ∃ w, w < s.created ∧ ¬ (s.workers w).pc.window) : ∃ w, w < s.created ∧
      .worker w ∉ (s.monitor.wake woken).blocked ∧ ¬ (s.workers w).pc.window := by
  by_cases hblocked : s.monitor.blocked.Nonempty
  · obtain ⟨t, ht⟩ := hsignals.2 hblocked
    obtain ⟨u, rfl, hpc⟩ := hsound.waiting t (hsignals.1 ht)
    refine ⟨u, hsound.created_iff.mp (by simp [hpc]), ?_, by simp [hpc, Pc.window]⟩
    simp [ht]
  · obtain ⟨u, hu, hout⟩ := hheard
    refine ⟨u, hu, ?_, hout⟩
    rw [Finset.not_nonempty_iff_eq_empty] at hblocked
    simp [hblocked]

theorem Beside.covered (h : Beside s s') (hs : s.Covered) : s'.Covered := by
  intro htask hsignalling
  rw [h.taskQ] at htask
  rw [h.signalling] at hsignalling
  obtain ⟨v, hv, hawake, hout⟩ := hs htask hsignalling
  refine ⟨v, ?_, fun hmem => hawake (h.blocked hmem), ?_⟩
  · rcases h.workers with ⟨-, heq⟩ | ⟨-, heq⟩ <;> omega
  · rcases h.workers with ⟨heq, -⟩ | ⟨heq, -⟩
    · rwa [heq]
    · rwa [heq, workers_withWorker_of_ne s hv.ne]

theorem Covered.step (hs : s.Covered) (hsound : s.Sound) {a : Label} (hen : s.enabled a)
    (hheard : s.Heard a) (hstep : s.step a = .ok s') : s'.Covered := by
  cases step_kind hen hstep with
  | worker w hready h => exact h.covered hheard hs
  | addTask task h =>
    rw [h, addTask]
    split
    · exact hs
    · exact hs
  | push task hadding h =>
    subst h
    intro htask hsignalling
    cases hsignalling
  | signal woken hcalls hsignals h =>
    subst h
    intro htask hsignalling
    have hlast : s.signalling = 1 := Nat.le_antisymm (Nat.sub_eq_zero_iff_le.mp hsignalling) hcalls
    exact signal_covered hsound hsignals (hheard hlast htask)
  | beside h => exact h.covered hs

theorem Covered.not_leftBehind (hs : s.Covered) (hcalm : s.Calm) : ¬ s.LeftBehind := by
  rintro ⟨htask, hsignalling, hall⟩
  obtain ⟨w, hw, hawake, -⟩ := hs htask hsignalling
  refine hawake (hall w hw ?_)
  intro hexited
  simpa [Worker.Stays, hexited] using hcalm.stays w

theorem covered_of_run {as : List Label}
    (h : ((system minNum maxNum).restrict Heard).Run (new minNum maxNum) as s) : s.Covered := by
  have hboth := h.invariant (P := fun s => s.Sound ∧ s.Covered)
    ⟨sound_new _ _, fun hne => absurd rfl hne⟩
    fun _ _ _ hs hen hstep => ⟨hs.1.step hen.1 hstep, hs.2.step hs.1 hen.1 hen.2 hstep⟩
  exact hboth.2

/-- Until the pool is shut down no task is left behind by idle workers, if every signal of a
caller finds a worker that is not between its test of the queue and its wait. -/
theorem not_left_behind {as : List Label} (hmin : minNum ≤ maxNum)
    (h : ((system minNum maxNum).restrict Heard).Run (new minNum maxNum) as s)
    (hrun : s.shutdown = false) : ¬ s.LeftBehind := by
  have hcalm := (bounded_of_run hmin h.of_restrict).calm hrun
  exact (covered_of_run h).not_leftBehind hcalm

/-- The one worker is blocked when the task comes, and is woken. -/
theorem not_left_behind_woken : ∃ s : MyThreadPool 1 1, s.taskQ = [numberTask] ∧
    s.signalling = 0 ∧ ¬ s.LeftBehind := by
  obtain ⟨s, h, hrun, htask, hsignalling⟩ : ∃ s, ((system 1 1).restrict Heard).Run (new 1 1)
      [.construct, .construct, .construct, .worker 0, .worker 0, .worker 0, .worker 0,
        .addTask numberTask, .push numberTask, .signal {.worker 0}] s ∧
        s.shutdown = false ∧ s.taskQ = [numberTask] ∧ s.signalling = 0 :=
    System.Run.exists_of_exec (by decide +kernel)
  exact ⟨s, htask, hsignalling, not_left_behind (by decide) h hrun⟩

/-- The one worker finds the queue empty, a task is pushed and its signal sent, and then the
worker waits. -/
theorem left_behind_by_window : ¬ ∀ (minNum maxNum : ℕ) (as : List Label)
    (s : MyThreadPool minNum maxNum), 1 ≤ minNum → minNum ≤ maxNum →
      (system minNum maxNum).Run (new minNum maxNum) as s → s.shutdown = false →
        ¬ s.LeftBehind := by
  intro hall
  obtain ⟨s, h, hrun, hleft⟩ : ∃ s, (system 1 1).Run (new 1 1)
      [.construct, .construct, .construct, .worker 0, .worker 0, .worker 0,
        .addTask numberTask, .push numberTask, .signal ∅, .worker 0] s ∧
        s.shutdown = false ∧ s.LeftBehind := System.Run.exists_of_exec (by decide +kernel)
  exact hall 1 1 _ s le_rfl le_rfl h hrun hleft

/-- Two workers are never both between their test and their wait. -/
theorem Sound.window_alone (hs : s.Sound) {u v : ℕ} (hu : (s.workers u).pc.window)
    (hv : (s.workers v).pc.window) : u = v := by
  have hinside (w : ℕ) (hw : (s.workers w).pc.window) : Inside (s.place (.worker w)) := by
    cases hpc : (s.workers w).pc <;> simp_all [place, Inside, Pc.inside, Pc.window]
  exact Tid.worker.inj (hs.guards.alone (hinside v hv) (hinside u hu))

theorem Short.heard {a : Label} (h : s.Short a) (hsound : s.Sound) (hcalm : s.Calm)
    (htwo : 2 ≤ minNum) (hen : s.enabled a) : s.Heard a := by
  cases a with
  | signal woken =>
    intro _ _
    have hreturned := hsound.returned_of_signalling hen.1
    have hcreated : s.created = minNum := by
      simpa [hreturned, Constructor.toCreate] using hcalm.created
    by_contra hnone
    have hwindow (w : ℕ) (hw : w < s.created) : (s.workers w).pc.window := by
      by_contra hout
      exact hnone ⟨w, hw, hout⟩
    have halone := hsound.window_alone (hwindow 0 (by omega)) (hwindow 1 (by omega))
    cases halone
  | _ => exact h

/-- With two workers or more no task is ever left behind by idle workers. -/
theorem not_left_behind_of_two {as : List Label} (htwo : 2 ≤ minNum) (hmin : minNum ≤ maxNum)
    (h : ((system minNum maxNum).restrict Short).Run (new minNum maxNum) as s)
    (hrun : s.shutdown = false) : ¬ s.LeftBehind := by
  have hall := h.invariant
    (P := fun s => s.Sound ∧ s.Bounded ∧ (s.shutdown = false → s.Covered))
    ⟨sound_new _ _, bounded_new hmin, fun _ hne => absurd rfl hne⟩ ?_
  · exact (hall.2.2 hrun).not_leftBehind (hall.2.1.calm hrun)
  · intro t a t' ⟨hsound, hbounded, hcovered⟩ hen hstep
    refine ⟨hsound.step hen.1 hstep, hbounded.step hsound hen.1 hstep, fun hrun' => ?_⟩
    have hrun := step_shutdown hen.1 hstep hrun'
    have hheard := hen.2.heard hsound (hbounded.calm hrun) htwo hen.1
    exact (hcovered hrun).step hsound hen.1 hheard hstep

/-- A worker between its test and its wait blocks. -/
theorem window_blocks (hrun : s.shutdown = false) (hcalled : s.destructor = .notCalled)
    (hw : (s.workers w).pc.window) : ∃ bs t, (system minNum maxNum).Run s bs t ∧
      t.shutdown = false ∧ .worker w ∈ t.monitor.blocked ∧ t.taskQ = s.taskQ ∧
        t.signalling = s.signalling ∧ t.created = s.created := by
  have hwaits {s : MyThreadPool minNum maxNum} (hcalled : s.destructor = .notCalled)
      (hpc : (s.workers w).pc = .wait) : (system minNum maxNum).Run s [.worker w]
        { s.goto w .waiting with monitor := s.monitor.wait (.worker w) } := by
    refine .single (by simp [system, enabled, ready, hpc]) ?_
    simp [system, step, worker, hpc, use, hcalled, Destructor.released]
    rfl
  have hmem (s : MyThreadPool minNum maxNum) :
      Tid.worker w ∈ (s.monitor.wait (.worker w)).blocked := Finset.mem_insert_self _ _
  cases hpc : (s.workers w).pc <;> simp only [hpc, Pc.window] at hw
  case wait => exact ⟨_, _, hwaits hcalled hpc, hrun, hmem s, rfl, rfl, rfl⟩
  case testShutdown =>
    have htest : (system minNum maxNum).Run s [.worker w] (s.goto w .wait) := by
      refine .single (by simp [system, enabled, ready, hpc]) ?_
      simp [system, step, worker, hpc, hrun]
    have hblocks := hwaits (s := s.goto w .wait) hcalled (by simp [goto, set])
    exact ⟨_, _, htest.append hblocks, hrun, hmem _, rfl, rfl, rfl⟩

/-- If the last signal for a task finds all workers between their test and their wait, the task is
left behind. -/
theorem left_behind_of_unheard {as : List Label} {woken : Finset Tid}
    (h : (system minNum maxNum).Run (new minNum maxNum) as s) (hrun : s.shutdown = false)
    (hen : s.enabled (.signal woken)) (hunheard : ¬ s.Heard (.signal woken)) :
    ∃ bs t, (system minNum maxNum).Run s (.signal woken :: bs) t ∧ t.shutdown = false ∧
      t.LeftBehind := by
  have hsound := sound_of_run h
  have hcalled : s.destructor = .notCalled := by
    by_contra hne
    rw [hsound.called.mpr hne] at hrun
    cases hrun
  simp only [Heard, not_forall, not_exists, not_and, not_not] at hunheard
  obtain ⟨hlast, htask, hwindow⟩ := hunheard
  let s₁ : MyThreadPool minNum maxNum :=
    { s with monitor := s.monitor.wake woken, signalling := s.signalling - 1 }
  have hsignal : (system minNum maxNum).Run s [.signal woken] s₁ := by
    refine .single hen ?_
    exact use_bind_eq_ok_iff.mpr ⟨by simp [hcalled, Destructor.released], rfl⟩
  have hzero : s₁.signalling = 0 := Nat.sub_eq_zero_of_le hlast.le
  by_cases hnone : s.created = 0
  · refine ⟨[], s₁, hsignal, hrun, htask, hzero, fun w hw => ?_⟩
    exact absurd hw (by simp [s₁, hnone])
  · have hfirst := hwindow 0 (Nat.pos_of_ne_zero hnone)
    obtain ⟨bs, t, hblocks, hrun', hblocked, hqueue, hsignalling, hcreated⟩ :=
      window_blocks (s := s₁) (w := 0) hrun hcalled hfirst
    refine ⟨bs, t, hsignal.append hblocks, hrun', ?_, ?_, ?_⟩
    · rwa [hqueue]
    · rwa [hsignalling]
    · intro w hw _
      rw [hcreated] at hw
      rwa [hsound.window_alone (hwindow w hw) hfirst]

end LxcHttpServer.MyThreadPool
