import LxcHttpServer.ElasticSteps

/-!
# What the destructor of the elastic pool releases

The destructor joins the manager and no worker. A worker that has not come to its end when
the memory is released still has the mutex, the queue or the list of threads before it,
wherever it is; it can also wake up for no reason and go for the mutex. The pool may be
released exactly when all workers have come to their end.
-/
namespace LxcHttpServer.MyThreadPool
open PartialRuns Monitors

variable {minNum maxNum : ℕ} {s s' : MyThreadPool minNum maxNum} {w : ℕ}

/-- A step of a worker or of the manager. -/
def Label.OfThread : Label → Prop
  | .worker _ | .manager | .managerSignal _ => True
  | _ => False

/-- The worker has come to its end, or comes to it by the call of a null pointer. -/
def Worker.Ended (k : Worker) : Prop :=
  k.pc = .exited ∨ (k.pc = .call ∧ k.task.function = none)

instance : DecidablePred Worker.Ended := fun k =>
  inferInstanceAs (Decidable (k.pc = .exited ∨ (k.pc = .call ∧ k.task.function = none)))

/-- No thread uses what has been released, whatever happens. -/
def ReleasedUnused (s : MyThreadPool minNum maxNum) : Prop :=
  ∀ bs t a r, (system minNum maxNum).Run s bs t → t.enabled a → a.OfThread →
    t.step a ≠ .error (.released r)

/-- No thread takes a step that changes anything. -/
structure Over (s : MyThreadPool minNum maxNum) : Prop where
  constructor : s.constructor = .returned
  manager : s.managerPc = .exited
  workers : ∀ w, (s.workers w).pc = .notCreated ∨ (s.workers w).Ended

/-- A worker that has ended takes no step, or a last one. -/
theorem Worker.Ended.worker (h : (s.workers w).Ended) (hready : s.ready w) :
    s.worker w = .error .nullFunction := by
  rcases h with hpc | ⟨hpc, hfunction⟩
  · exact absurd hpc (ready_pc hready).2
  · simp [MyThreadPool.worker, hpc, hfunction]

theorem Over.worker (h : s.Over) (hready : s.ready w) : s.worker w = .error .nullFunction := by
  rcases h.workers w with hpc | hended
  · exact absurd hpc (ready_pc hready).1
  · exact hended.worker hready

theorem Over.unused (h : s.Over) {a : Label} {r : Resource} (hen : s.enabled a)
    (ha : a.OfThread) : s.step a ≠ .error (.released r) := by
  cases a with
  | worker w =>
    have hfault : s.step (.worker w) = .error .nullFunction := h.worker hen
    simp [hfault]
  | manager => simp [enabled, managerReady, h.manager] at hen
  | managerSignal woken => simp [enabled, h.manager] at hen
  | _ => exact ha.elim

theorem Over.step (h : s.Over) {a : Label} (hen : s.enabled a) (hstep : s.step a = .ok s') :
    s'.Over := by
  cases a with
  | worker w =>
    have hfault : s.step (.worker w) = .error .nullFunction := h.worker hen
    rw [hfault] at hstep
    cases hstep
  | manager => simp [enabled, managerReady, h.manager] at hen
  | managerSignal woken => simp [enabled, h.manager] at hen
  | construct => exact absurd h.constructor hen
  | addTask task =>
    cases hstep
    rw [addTask]
    split
    · exact h
    · exact ⟨h.constructor, h.manager, h.workers⟩
  | push task =>
    cases (use_bind_eq_ok_iff.mp hstep).2
    exact ⟨h.constructor, h.manager, h.workers⟩
  | signal woken =>
    cases (use_bind_eq_ok_iff.mp hstep).2
    exact ⟨h.constructor, h.manager, h.workers⟩
  | destroy =>
    cases hstep
    rw [destroy]
    split <;> exact ⟨h.constructor, h.manager, h.workers⟩
  | destroySignal woken =>
    cases hstep
    rw [destroySignal]
    split <;> exact ⟨h.constructor, h.manager, h.workers⟩
  | spurious t =>
    cases hstep
    exact ⟨h.constructor, h.manager, h.workers⟩

/-- The worker can come to an access to what has been released. -/
def Doomed (s : MyThreadPool minNum maxNum) (w : ℕ) : Prop := ∃ bs t r,
  (system minNum maxNum).Run s bs t ∧ t.enabled (.worker w) ∧ t.worker w = .error (.released r)

theorem Doomed.of_step {a : Label} (hen : s.enabled a) (hstep : s.step a = .ok s')
    (h : s'.Doomed w) : s.Doomed w := by
  obtain ⟨bs, t, r, hrun, hdoom⟩ := h
  have hfirst : (system minNum maxNum).Run s [a] s' := .single hen hstep
  exact ⟨_, t, r, hfirst.append hrun, hdoom⟩

theorem use_finished (h : s.destructor = .finished) (r : Resource) :
    s.use r = .error (.released r) := by
  rw [use_eq_error_iff]
  cases r <;> simp [h, Destructor.released]

/-- The places whose next step is an access. -/
def Pc.accesses : Pc → Prop
  | .lock | .testEmpty | .wait | .waiting | .unlockExit | .take | .unlockTask | .lockEnd
  | .unlockEnd | .threadExit => True
  | _ => False

theorem doomed_of_accesses (h : s.destructor = .finished) (hpc : (s.workers w).pc.accesses)
    (hawake : .worker w ∉ s.monitor.blocked) : s.Doomed w := by
  have hacquirable : s.Acquirable := .inr (by simp [h, Destructor.released])
  have hready : s.enabled (.worker w) := by
    cases heq : (s.workers w).pc <;> simp_all [enabled, ready, Pc.accesses]
  have hfault (r : Resource) (f : Unit → Except Fault (MyThreadPool minNum maxNum)) :
      (s.use r >>= f) = .error (.released r) := by
    rw [use_finished h]
    rfl
  have hworker : ∃ r, s.worker w = .error (.released r) := by
    cases heq : (s.workers w).pc <;> simp only [heq, Pc.accesses] at hpc <;>
      simp only [MyThreadPool.worker, heq, hfault] <;> exact ⟨_, rfl⟩
  obtain ⟨r, hr⟩ := hworker
  exact ⟨[], s, r, .nil, hready, hr⟩

/-- A step of the worker that leaves the mutex alone takes it to an access. -/
theorem doomed_of_next (h : s.destructor = .finished) (hawake : .worker w ∉ s.monitor.blocked)
    (hready : s.ready w) (hstep : s.worker w = .ok s')
    (hmonitor : s'.monitor = s.monitor) (hpc : (s'.workers w).pc.accesses) : s.Doomed w := by
  have hfinished : s'.destructor = .finished := by
    rw [(worker_cases hready hstep).onlyWorker.destructor, h]
  refine Doomed.of_step (a := .worker w) hready hstep (doomed_of_accesses hfinished hpc ?_)
  rwa [hmonitor]

theorem doomed_of_testStop (h : s.destructor = .finished) (hawake : .worker w ∉ s.monitor.blocked)
    (hstop : s.shutdown = true) (hpc : (s.workers w).pc = .testStop) : s.Doomed w := by
  have hstep : s.worker w = .ok (s.goto w .unlockExit) := by simp [worker, hpc, hstop]
  exact doomed_of_next h hawake (by simp [ready, hpc]) hstep rfl (by simp [goto, set, Pc.accesses])

theorem doomed_of_inTask (h : s.destructor = .finished) (hawake : .worker w ∉ s.monitor.blocked)
    (hpc : (s.workers w).pc = .inTask) : s.Doomed w := by
  have hstep : s.worker w = .ok (s.goto w .lockEnd) := by simp [worker, hpc]
  exact doomed_of_next h hawake (by simp [ready, hpc]) hstep rfl (by simp [goto, set, Pc.accesses])

/-- Wherever the worker is, it comes to an access. -/
theorem doomed_of_awake (h : s.destructor = .finished) (hawake : .worker w ∉ s.monitor.blocked)
    (hstop : s.shutdown = true) (hcreated : (s.workers w).pc ≠ .notCreated)
    (hlives : ¬ (s.workers w).Ended) : s.Doomed w := by
  cases hpc : (s.workers w).pc
  case notCreated => exact absurd hpc hcreated
  case exited => exact absurd (.inl hpc) hlives
  case testStop => exact doomed_of_testStop h hawake hstop hpc
  case inTask => exact doomed_of_inTask h hawake hpc
  case testShutdown =>
    have hready : s.ready w := by simp [ready, hpc]
    have hstep : s.worker w = .ok (s.goto w .testStop) := by simp [worker, hpc, hstop]
    refine Doomed.of_step (a := .worker w) hready hstep ?_
    exact doomed_of_testStop (s := s.goto w .testStop) h hawake hstop (by simp [goto, set])
  case call =>
    have hfunction : (s.workers w).task.function ≠ none := fun hnone => hlives (.inr ⟨hpc, hnone⟩)
    obtain ⟨f, hf⟩ := Option.ne_none_iff_exists'.mp hfunction
    have hready : s.ready w := by simp [ready, hpc]
    have hstep : s.worker w = .ok
        { s.goto w .inTask with executed := s.executed ++ [(w, (s.workers w).task)] } := by
      simp [worker, hpc, hf]
    exact Doomed.of_step (a := .worker w) hready hstep
      (doomed_of_inTask h hawake (by simp [goto, set]))
  case testExit =>
    obtain ⟨s', hstep, hmonitor, hnext⟩ : ∃ s', s.worker w = .ok s' ∧ s'.monitor = s.monitor ∧
        (s'.workers w).pc.accesses := by
      simp only [worker, hpc]
      split_ifs <;> exact ⟨_, rfl, rfl, by simp [goto, set, Pc.accesses]⟩
    exact doomed_of_next h hawake (by simp [ready, hpc]) hstep hmonitor hnext
  case countBusy =>
    have hstep : s.worker w = .ok { s.goto w .unlockTask with busyNum := s.busyNum + 1 } := by
      simp [worker, hpc]
    exact doomed_of_next h hawake (by simp [ready, hpc]) hstep rfl
      (by simp [goto, set, Pc.accesses])
  case uncount =>
    have hstep : s.worker w = .ok { s.goto w .unlockEnd with busyNum := s.busyNum - 1 } := by
      simp [worker, hpc]
    exact doomed_of_next h hawake (by simp [ready, hpc]) hstep rfl
      (by simp [goto, set, Pc.accesses])
  all_goals exact doomed_of_accesses h (by simp [hpc, Pc.accesses]) hawake

/-- A blocked worker may wake up for no reason. -/
theorem doomed (h : s.destructor = .finished) (hstop : s.shutdown = true)
    (hcreated : (s.workers w).pc ≠ .notCreated) (hlives : ¬ (s.workers w).Ended) : s.Doomed w := by
  by_cases hblocked : Tid.worker w ∈ s.monitor.blocked
  · have hawake : Tid.worker w ∉ (s.monitor.wake {.worker w}).blocked := by simp
    exact Doomed.of_step (a := .spurious (.worker w)) hblocked rfl
      (doomed_of_awake h hawake hstop hcreated hlives)
  · exact doomed_of_awake h hblocked hstop hcreated hlives

/-- The destructor releases one thing after the other, whatever the workers do. -/
theorem run_release (h : s.destructor = .deleteTaskQ) :
    (system minNum maxNum).Run s [.destroy, .destroy, .destroy, .destroy]
      { s with destructor := .finished } := by
  have hfirst : (system minNum maxNum).Run s [.destroy] { s with destructor := .deleteThreadIDs } :=
    .single (by simp [system, enabled, h]) (by simp [system, step, destroy, h])
  have hsecond := hfirst.snoc (a := Label.destroy) trivial rfl
  have hthird := hsecond.snoc (a := Label.destroy) trivial rfl
  exact hthird.snoc (a := Label.destroy) trivial rfl

/-- When the destructor is about to release the memory: no thread uses it afterwards, whatever
happens, exactly if all workers have come to their end. -/
theorem released_unused_iff {as : List Label}
    (h : (system minNum maxNum).Run (new minNum maxNum) as s) (hs : s.destructor = .deleteTaskQ) :
    s.ReleasedUnused ↔ ∀ w < s.created, (s.workers w).Ended := by
  have hsound := sound_of_run h
  constructor
  · intro hunused w hw
    by_contra hlives
    have hcreated : (s.workers w).pc ≠ .notCreated := hsound.created_iff.mpr hw
    have hstop : s.shutdown = true := hsound.called.mpr (by simp [hs])
    obtain ⟨bs, t, r, hrun, hen, hfault⟩ :=
      doomed (s := { s with destructor := .finished }) rfl hstop hcreated hlives
    exact hunused _ t (.worker w) r ((run_release hs).append hrun) hen trivial hfault
  · intro hended bs t a r hrun hen ha
    have hover : s.Over := by
      refine ⟨hsound.returned_of_destructor (by simp [hs]),
        hsound.exited (by simp [hs]) (by simp [hs]), fun w => ?_⟩
      by_cases hw : w < s.created
      · exact .inr (hended w hw)
      · exact .inl ((hsound.counted w).mpr (not_lt.mp hw))
    have hlast : t.Over := hrun.invariant hover fun _ _ _ ht hen hstep => ht.step hen hstep
    exact hlast.unused hen ha

/-- The one worker sees `shutdown` and comes to its end before the memory is released. -/
theorem released_unused_ended : ∃ s : MyThreadPool 1 1, s.destructor = .deleteTaskQ ∧
    s.created = 1 ∧ s.ReleasedUnused := by
  obtain ⟨s, h, hs, hcreated, hended⟩ : ∃ s, (system 1 1).Run (new 1 1)
      [.construct, .construct, .construct, .manager, .destroy, .destroy, .worker 0, .worker 0,
        .worker 0, .worker 0, .worker 0, .worker 0, .destroy, .destroySignal ∅, .destroy] s ∧
        s.destructor = .deleteTaskQ ∧ s.created = 1 ∧ ∀ w < s.created, (s.workers w).Ended :=
    System.Run.exists_of_exec (by decide +kernel)
  exact ⟨s, hs, hcreated, (released_unused_iff h hs).mpr hended⟩

/-- The one worker is at a task when the pool is destroyed, and goes for the mutex after it. -/
theorem not_released_unused : ¬ ∀ (minNum maxNum : ℕ) (as : List Label)
    (s : MyThreadPool minNum maxNum) (a : Label) (r : Resource),
      (system minNum maxNum).Run (new minNum maxNum) as s → s.enabled a → a.OfThread →
        s.step a ≠ .error (.released r) := by
  intro hall
  obtain ⟨s, h, hfinished, hpc⟩ : ∃ s, (system 1 1).Run (new 1 1)
      [.construct, .construct, .construct, .manager, .addTask numberTask, .push numberTask,
        .signal ∅, .worker 0, .worker 0, .worker 0, .worker 0, .worker 0, .worker 0, .worker 0,
        .destroy, .destroy, .destroy, .destroySignal ∅, .destroy, .destroy, .destroy, .destroy,
        .destroy, .worker 0] s ∧ s.destructor = .finished ∧ (s.workers 0).pc = .lockEnd :=
    System.Run.exists_of_exec (by decide +kernel)
  have hen : s.enabled (.worker 0) := by
    simp [enabled, ready, hpc, Acquirable, hfinished, Destructor.released]
  have hfault : s.step (.worker 0) = .error (.released .mutexPool) := by
    simp only [step, worker, hpc, use_finished hfinished]
    rfl
  exact hall 1 1 _ s _ _ h hen trivial hfault

end LxcHttpServer.MyThreadPool
