import LxcHttpServer.ThreadPool

/-!
# No task is lost or stranded

What each place of `worker` may rely on is written down once, as an assertion
about the list of tasks and the flag `running`; a step of another thread cannot
break it, since it holds the mutex or does not touch the list. The queue, the
histories of the threads and the count of outstanding notifications follow.
-/
namespace LxcHttpServer.ThreadPool
open PartialRuns Monitors

variable {n : ℕ} {s s' : ThreadPool n} {w : Fin n}

@[simp] theorem set_workList (k : Worker) : (s.set w k).workList = s.workList := rfl

@[simp] theorem set_workers (k : Worker) :
    (s.set w k).workers = Function.update s.workers w k := rfl

@[simp] theorem set_appended (k : Worker) : (s.set w k).appended = s.appended := rfl

@[simp] theorem set_dequeued (k : Worker) : (s.set w k).dequeued = s.dequeued := rfl

@[simp] theorem set_called (k : Worker) : (s.set w k).called = s.called := rfl

/-- Everything that a thread of the pool can do. -/
inductive WorkerStep (s : ThreadPool n) (w : Fin n) : ThreadPool n → Prop
  | goesOn (hpc : (s.workers w).pc = .loop) (hrun : s.running = true) :
      WorkerStep s w (s.set w ⟨.lock, .placeholder⟩)
  | ends (hpc : (s.workers w).pc = .loop) (hrun : s.running = false) :
      WorkerStep s w (s.goto w .exited)
  | lock (hpc : (s.workers w).pc = .lock ∨ (s.workers w).pc = .waiting)
      (hfree : s.monitor.holder = none) :
      WorkerStep s w { s.goto w .testEmpty with monitor := s.monitor.lock w }
  | findsNone (hpc : (s.workers w).pc = .testEmpty) (hlist : s.workList = []) :
      WorkerStep s w (s.goto w .testRunning)
  | findsSome (hpc : (s.workers w).pc = .testEmpty) (hlist : s.workList ≠ []) :
      WorkerStep s w (s.goto w .testStop)
  | mustWait (hpc : (s.workers w).pc = .testRunning) (hrun : s.running = true) :
      WorkerStep s w (s.goto w .wait)
  | mustStop (hpc : (s.workers w).pc = .testRunning) (hrun : s.running = false) :
      WorkerStep s w (s.goto w .testStop)
  | wait (hpc : (s.workers w).pc = .wait) :
      WorkerStep s w { s.goto w .waiting with monitor := s.monitor.wait w }
  | stays (hpc : (s.workers w).pc = .testStop) (hrun : s.running = true) :
      WorkerStep s w (s.goto w .front)
  | returns (hpc : (s.workers w).pc = .testStop) (hrun : s.running = false) :
      WorkerStep s w { s.goto w .exited with monitor := s.monitor.unlock }
  | front {taskdata : TaskData} {workList : List TaskData} (hpc : (s.workers w).pc = .front)
      (hlist : s.workList = taskdata :: workList) : WorkerStep s w (s.set w ⟨.popFront, taskdata⟩)
  | popFront {taskdata : TaskData} {workList : List TaskData}
      (hpc : (s.workers w).pc = .popFront) (hlist : s.workList = taskdata :: workList) :
      WorkerStep s w
        { s.goto w .unlock with
          workList := workList
          dequeued := s.dequeued ++ [(w, taskdata)] }
  | unlock (hpc : (s.workers w).pc = .unlock) :
      WorkerStep s w { s.goto w .call with monitor := s.monitor.unlock }
  | call (hpc : (s.workers w).pc = .call) :
      WorkerStep s w
        { s.goto w .inTask with called := s.called ++ [(w, (s.workers w).taskdata)] }
  | taskEnds (hpc : (s.workers w).pc = .inTask) : WorkerStep s w (s.goto w .loop)

theorem worker_cases (hready : s.ready w) (h : s.worker w = .ok s') : WorkerStep s w s' := by
  cases hpc : (s.workers w).pc <;> simp only [worker, ready, hpc] at h hready
  case loop =>
    cases hrun : s.running <;> simp only [hrun] at h <;> cases h
    · exact .ends hpc hrun
    · exact .goesOn hpc hrun
  case lock =>
    cases h
    exact .lock (.inl hpc) hready
  case testEmpty =>
    cases hlist : s.workList <;> simp only [hlist] at h <;> cases h
    · exact .findsNone hpc hlist
    · exact .findsSome hpc (by simp [hlist])
  case testRunning =>
    cases hrun : s.running <;> simp only [hrun] at h <;> cases h
    · exact .mustStop hpc hrun
    · exact .mustWait hpc hrun
  case wait =>
    cases h
    exact .wait hpc
  case waiting =>
    cases h
    exact .lock (.inr hpc) hready.1
  case testStop =>
    cases hrun : s.running <;> simp only [hrun] at h <;> cases h
    · exact .returns hpc hrun
    · exact .stays hpc hrun
  case front =>
    cases hlist : s.workList <;> simp only [hlist] at h <;> cases h
    exact .front hpc hlist
  case popFront =>
    cases hlist : s.workList <;> simp only [hlist] at h <;> cases h
    exact .popFront hpc hlist
  case unlock =>
    cases h
    exact .unlock hpc
  case call =>
    cases h
    exact .call hpc
  case inTask =>
    cases h
    exact .taskEnds hpc

/-- What a thread at this place relies on. -/
def Worker.Asserts (k : Worker) (workList : List TaskData) (running : Bool) : Prop :=
  match k.pc with
  | .testRunning | .wait => workList = []
  | .testStop => workList ≠ [] ∨ running = false
  | .front => workList ≠ []
  | .popFront => workList.head? = some k.taskdata
  | _ => True

/-- The task that a thread has taken from the list and not yet passed on. -/
def Worker.held (k : Worker) : List TaskData :=
  match k.pc with
  | .unlock | .call => [k.taskdata]
  | _ => []

/-- The part of a history that is about the thread `w`, in order. -/
def tasksOf (w : Fin n) (history : List (Fin n × TaskData)) : List TaskData :=
  (history.filter fun e => e.1 = w).map Prod.snd

structure Inv (s : ThreadPool n) : Prop where
  guards : s.monitor.Guards (fun k : Worker => k.pc.inside) s.workers
  waiting : ∀ w ∈ s.monitor.blocked, (s.workers w).pc = .waiting
  asserts : ∀ w, (s.workers w).Asserts s.workList s.running
  covered : 0 < n → s.monitor.blocked = Finset.univ → s.workList.length ≤ s.notifying
  queue : s.appended = s.dequeued.map Prod.snd ++ s.workList
  handedOn : ∀ w, tasksOf w s.dequeued = tasksOf w s.called ++ (s.workers w).held

@[simp] theorem tasksOf_append (w : Fin n) (l l' : List (Fin n × TaskData)) :
    tasksOf w (l ++ l') = tasksOf w l ++ tasksOf w l' := by
  simp [tasksOf]

@[simp] theorem tasksOf_self (w : Fin n) (t : TaskData) : tasksOf w [(w, t)] = [t] := by
  simp [tasksOf]

theorem tasksOf_of_ne {u : Fin n} (h : u ≠ w) (t : TaskData) : tasksOf u [(w, t)] = [] := by
  simp [tasksOf, Ne.symm h]

/-- Outside the critical section nothing is relied on. -/
theorem Worker.asserts_of_outside {k : Worker} (h : ¬ k.pc.inside) (workList : List TaskData)
    (running : Bool) : k.Asserts workList running := by
  unfold Asserts
  cases hpc : k.pc <;> simp_all [Pc.inside]

/-- `running` changes only to false, and that breaks nothing. -/
theorem Worker.Asserts.stop {k : Worker} {workList : List TaskData} {running : Bool}
    (h : k.Asserts workList running) : k.Asserts workList false := by
  unfold Asserts at *
  cases hpc : k.pc <;> simp_all

theorem inv_new (n : ℕ) : Inv (new n) where
  guards w := by simp [new, Pc.inside, Monitor.free]
  waiting w hw := by simp [new, Monitor.free] at hw
  asserts w := Worker.asserts_of_outside (by simp [new, Pc.inside]) _ _
  covered _ _ := by simp [new]
  queue := by simp [new]
  handedOn w := by simp [new, tasksOf, Worker.held]

/-- Only a thread that is not blocked takes a step. -/
theorem Inv.awake (hinv : s.Inv) (hready : s.ready w) : w ∉ s.monitor.blocked := by
  intro hw
  have hpc := hinv.waiting w hw
  simp only [ready, hpc] at hready
  exact hready.2 hw

namespace WorkerStep

theorem guards (h : WorkerStep s w s') (hinv : s.Inv) :
    s'.monitor.Guards (fun k : Worker => k.pc.inside) s'.workers := by
  have hg := hinv.guards
  cases h with
  | lock hpc hfree => exact hg.enter hfree (by simp [Pc.inside])
  | wait hpc | returns hpc | unlock hpc =>
    exact hg.leave (by simp [hpc, Pc.inside]) (by simp [Pc.inside]) rfl
  | goesOn hpc | ends hpc | findsNone hpc | findsSome hpc | mustWait hpc | mustStop hpc
  | stays hpc | front hpc | popFront hpc | call hpc | taskEnds hpc =>
    exact hg.update (by simp [hpc, Pc.inside])

theorem workers_of_ne (h : WorkerStep s w s') {u : Fin n} (hu : u ≠ w) :
    s'.workers u = s.workers u := by
  cases h <;> exact Function.update_of_ne hu _ _

theorem running_eq (h : WorkerStep s w s') : s'.running = s.running := by
  cases h <;> rfl

/-- Only `cond.wait` blocks a thread. -/
theorem blocked_cases (h : WorkerStep s w s') : s'.monitor.blocked = s.monitor.blocked ∨
    (s.workers w).pc = .wait ∧ s'.monitor.blocked = insert w s.monitor.blocked ∧
      (s'.workers w).pc = .waiting ∧ s'.workList = s.workList := by
  cases h with
  | wait hpc => exact .inr ⟨hpc, rfl, by simp [goto], rfl⟩
  | _ => exact .inl rfl

/-- The list is changed only by the thread that holds the mutex. -/
theorem workList_cases (h : WorkerStep s w s') :
    s'.workList = s.workList ∨ (s.workers w).pc.inside := by
  cases h with
  | popFront hpc hlist => exact .inr (by simp [hpc, Pc.inside])
  | _ => exact .inl rfl

theorem waiting (h : WorkerStep s w s') (hinv : s.Inv) (hready : s.ready w) :
    ∀ u ∈ s'.monitor.blocked, (s'.workers u).pc = .waiting := by
  intro u hu
  rcases h.blocked_cases with heq | ⟨-, heq, hpc, -⟩
  · rw [heq] at hu
    have hne : u ≠ w := fun h => hinv.awake hready (h ▸ hu)
    rw [h.workers_of_ne hne]
    exact hinv.waiting u hu
  · by_cases hne : u = w
    · rw [hne]
      exact hpc
    · rw [heq] at hu
      rw [h.workers_of_ne hne]
      exact hinv.waiting u ((Finset.mem_insert.mp hu).resolve_left hne)

/-- The thread itself: each place establishes what the next one relies on. -/
theorem asserts_self (h : WorkerStep s w s') (hinv : s.Inv) :
    (s'.workers w).Asserts s'.workList s'.running := by
  have hw := hinv.asserts w
  cases h with
  | findsNone hpc hlist => simpa [goto, Worker.Asserts] using hlist
  | findsSome hpc hlist => simpa [goto, Worker.Asserts] using .inl hlist
  | mustWait hpc hrun => simpa [goto, Worker.Asserts, hpc] using hw
  | mustStop hpc hrun => simpa [goto, Worker.Asserts] using .inr hrun
  | stays hpc hrun => simpa [goto, Worker.Asserts, hpc, hrun] using hw
  | front hpc hlist => simp [Worker.Asserts, hlist]
  | _ => simp [goto, Worker.Asserts]

theorem asserts (h : WorkerStep s w s') (hinv : s.Inv) :
    ∀ u, (s'.workers u).Asserts s'.workList s'.running := by
  intro u
  by_cases hne : u = w
  · rw [hne]
    exact h.asserts_self hinv
  · rw [h.workers_of_ne hne]
    rcases h.workList_cases with heq | hin
    · rw [heq, h.running_eq]
      exact hinv.asserts u
    · exact Worker.asserts_of_outside (fun hu => hne (hinv.guards.alone hin hu)) _ _

/-- A thread that blocks has found the list empty under the mutex. -/
theorem covered (h : WorkerStep s w s') (hinv : s.Inv) (hready : s.ready w)
    (hall : s'.monitor.blocked = Finset.univ) : s'.workList.length ≤ s'.notifying := by
  rcases h.blocked_cases with heq | ⟨hpc, -, -, hlist⟩
  · rw [heq] at hall
    exact absurd (hall ▸ Finset.mem_univ w) (hinv.awake hready)
  · have hw := hinv.asserts w
    simp only [Worker.Asserts, hpc] at hw
    simp [hlist, hw]

theorem queue (h : WorkerStep s w s') (hinv : s.Inv) :
    s'.appended = s'.dequeued.map Prod.snd ++ s'.workList := by
  have hq := hinv.queue
  cases h with
  | popFront hpc hlist => simpa [goto, hlist] using hq
  | _ => exact hq

theorem handedOn (h : WorkerStep s w s') (hinv : s.Inv) :
    ∀ u, tasksOf u s'.dequeued = tasksOf u s'.called ++ (s'.workers u).held := by
  intro u
  have hu := hinv.handedOn u
  have hw := hinv.asserts w
  by_cases hne : u = w
  · subst hne
    cases h with
    | popFront hpc hlist =>
      simp only [Worker.Asserts, hpc, hlist, List.head?_cons, Option.some.injEq] at hw
      simpa [goto, Worker.held, hpc, hw] using hu
    | lock hpc hfree => rcases hpc with hpc | hpc <;> simpa [goto, Worker.held, hpc] using hu
    | goesOn hpc | ends hpc | findsNone hpc | findsSome hpc | mustWait hpc | mustStop hpc
    | wait hpc | stays hpc | returns hpc | front hpc | unlock hpc | call hpc | taskEnds hpc =>
      simpa [goto, Worker.held, hpc] using hu
  · rw [h.workers_of_ne hne]
    cases h with
    | popFront hpc hlist => simpa [goto, tasksOf_of_ne hne] using hu
    | call hpc => simpa [goto, tasksOf_of_ne hne] using hu
    | _ => exact hu

theorem inv (h : WorkerStep s w s') (hinv : s.Inv) (hready : s.ready w) : s'.Inv where
  guards := h.guards hinv
  waiting := h.waiting hinv hready
  asserts := h.asserts hinv
  covered _ := h.covered hinv hready
  queue := h.queue hinv
  handedOn := h.handedOn hinv

end WorkerStep

/-- The mutex is free when a task is appended, so no thread relies on the list. -/
theorem Inv.appendFd (hinv : s.Inv) (hfree : s.monitor.holder = none) (taskData : TaskData) :
    (s.appendFd taskData).Inv where
  guards := hinv.guards
  waiting := hinv.waiting
  asserts w := Worker.asserts_of_outside (hinv.guards.nobody hfree w) _ _
  covered hn hall := by
    have h := hinv.covered hn hall
    simp only [ThreadPool.appendFd, List.length_append, List.length_singleton]
    omega
  queue := by simp [ThreadPool.appendFd, hinv.queue]
  handedOn := hinv.handedOn

/-- Threads are woken, and the outstanding notifications and the destructor change. -/
theorem Inv.wake (hinv : s.Inv) (ts : Finset (Fin n)) (notifying : ℕ) (destructor : Destructor)
    (hts : 0 < n → (s.monitor.wake ts).blocked ≠ Finset.univ) :
    Inv { s with
      monitor := s.monitor.wake ts, notifying := notifying, destructor := destructor } where
  guards := hinv.guards
  waiting w hw := hinv.waiting w (Finset.mem_sdiff.mp hw).1
  asserts := hinv.asserts
  covered hn hall := absurd hall (hts hn)
  queue := hinv.queue
  handedOn := hinv.handedOn

theorem Inv.stop (hinv : s.Inv) (destructor : Destructor) :
    Inv { s with running := false, destructor := destructor } where
  guards := hinv.guards
  waiting := hinv.waiting
  asserts w := (hinv.asserts w).stop
  covered := hinv.covered
  queue := hinv.queue
  handedOn := hinv.handedOn

theorem Inv.step (hinv : s.Inv) {a : Label n} (hen : s.enabled a) (h : s.step a = .ok s') :
    s'.Inv := by
  cases a with
  | append taskData =>
    cases h
    exact hinv.appendFd hen taskData
  | notify woken =>
    cases h
    refine hinv.wake woken _ s.destructor ?_
    intro hn
    have : Nonempty (Fin n) := ⟨⟨0, hn⟩⟩
    exact hen.2.ne_univ
  | spurious w =>
    cases h
    exact hinv.wake {w} s.notifying s.destructor fun _ =>
      Monitor.wake_ne_univ (Finset.singleton_nonempty w)
  | worker w => exact (worker_cases hen h).inv hinv hen
  | stop =>
    cases h
    exact hinv.stop .stopped
  | broadcast =>
    cases h
    refine hinv.wake s.monitor.blocked s.notifying (.joining 0) ?_
    intro hn
    have : Nonempty (Fin n) := ⟨⟨0, hn⟩⟩
    simpa using (Finset.univ_nonempty (α := Fin n)).ne_empty.symm
  | join =>
    simp only [ThreadPool.step] at h
    split at h <;> cases h
    · exact ⟨hinv.guards, hinv.waiting, hinv.asserts, hinv.covered, hinv.queue, hinv.handedOn⟩
    · exact hinv
    · exact hinv

theorem inv_of_run {as : List (Label n)} (h : (system n).Run (new n) as s) : s.Inv :=
  h.invariant (inv_new n) fun _ _ _ hinv hen hstep => hinv.step hen hstep

/-- No step that can be taken reads the front of an empty list. -/
theorem Inv.no_fault (hinv : s.Inv) (a : Label n) (e : Fault) : s.step a ≠ .error e := by
  intro h
  cases a with
  | worker w =>
    have hw := hinv.asserts w
    cases hpc : (s.workers w).pc <;> simp only [ThreadPool.step, worker, hpc] at h <;>
      try cases h
    case front =>
      simp only [Worker.Asserts, hpc] at hw
      cases hlist : s.workList with
      | nil => exact hw hlist
      | cons t rest => simp [hlist] at h
    case popFront =>
      simp only [Worker.Asserts, hpc] at hw
      cases hlist : s.workList with
      | nil => simp [hlist] at hw
      | cons t rest => simp [hlist] at h
  | join =>
    simp only [ThreadPool.step] at h
    split at h <;> cases h
  | append | notify | spurious | stop | broadcast => cases h

/-- A task is in the list, every thread of the pool is blocked, and no caller of `appendFd`
is about to notify. -/
def Stranded (s : ThreadPool n) : Prop :=
  s.workList ≠ [] ∧ s.monitor.blocked = Finset.univ ∧ s.notifying = 0

instance (s : ThreadPool n) : Decidable s.Stranded :=
  inferInstanceAs (Decidable (_ ∧ _ ∧ _))

theorem not_stranded (hn : 0 < n) {as : List (Label n)} (h : (system n).Run (new n) as s) :
    ¬ s.Stranded := by
  rintro ⟨hlist, hall, hnone⟩
  have hlen := (inv_of_run h).covered hn hall
  have hpos := List.length_pos_iff.mpr hlist
  omega

/-- A thread blocks, a task comes, and the signal wakes the thread. -/
theorem not_stranded_woken : ∃ s, (system 1).Run (new 1)
    [.worker 0, .worker 0, .worker 0, .worker 0, .worker 0, .append ⟨7, none⟩, .notify {0}] s ∧
      s.workList = [⟨7, none⟩] ∧ ¬ s.Stranded := by
  obtain ⟨s, h, hlist⟩ : ∃ s, (system 1).Run (new 1)
      [.worker 0, .worker 0, .worker 0, .worker 0, .worker 0, .append ⟨7, none⟩, .notify {0}] s ∧
        s.workList = [⟨7, none⟩] := System.Run.exists_of_exec (by decide +kernel)
  exact ⟨s, h, hlist, not_stranded (by decide) h⟩

/-- The tasks leave the list in the order in which they came, each is passed to the task function
by the thread that took it and by no other, and the list is not read where it is empty. -/
theorem tasks_handed_on {as : List (Label n)} (h : (system n).Run (new n) as s) :
    s.appended = s.dequeued.map Prod.snd ++ s.workList ∧
      (∀ w, tasksOf w s.dequeued = tasksOf w s.called ++ (s.workers w).held) ∧
      ∀ a e, s.enabled a → s.step a ≠ .error e := by
  have hinv := inv_of_run h
  exact ⟨hinv.queue, hinv.handedOn, fun a e _ => hinv.no_fault a e⟩

/-- Two tasks come, and one thread passes the first of them on while the other still waits for
the mutex. -/
theorem tasks_handed_on_two_threads : ∃ s, (system 2).Run (new 2)
    [.append ⟨7, none⟩, .append ⟨8, none⟩, .worker 0, .worker 1, .worker 0, .worker 0, .worker 0,
      .worker 0, .worker 0, .worker 0, .worker 0] s ∧ s.called = [(0, ⟨7, none⟩)] ∧
    s.appended = s.dequeued.map Prod.snd ++ s.workList ∧
      (∀ w, tasksOf w s.dequeued = tasksOf w s.called ++ (s.workers w).held) ∧
      ∀ a e, s.enabled a → s.step a ≠ .error e := by
  obtain ⟨s, h, hcalled⟩ : ∃ s, (system 2).Run (new 2)
      [.append ⟨7, none⟩, .append ⟨8, none⟩, .worker 0, .worker 1, .worker 0, .worker 0, .worker 0,
        .worker 0, .worker 0, .worker 0, .worker 0] s ∧ s.called = [(0, ⟨7, none⟩)] :=
    System.Run.exists_of_exec (by decide +kernel)
  exact ⟨s, h, hcalled, tasks_handed_on h⟩

end LxcHttpServer.ThreadPool
