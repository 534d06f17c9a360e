import LxcHttpServer.ElasticSteps

/-!
# The tasks of the elastic pool

A worker tests the queue under `mutexPool` and takes from it before it releases the mutex.
Pushes go by another mutex, but they only add to the queue; all that take from it hold
`mutexPool`. So what was found there is still there, and a worker never takes the task that
`takeTast` makes up for an empty queue.
-/
namespace LxcHttpServer.MyThreadPool
open PartialRuns Monitors

variable {minNum maxNum : ℕ} {s s' : MyThreadPool minNum maxNum} {w : ℕ}

/-- What a worker at this place relies on. -/
def Worker.Asserts (k : Worker) (taskQ : List Task) (shutdown : Bool) : Prop :=
  match k.pc with
  | .testStop => taskQ ≠ [] ∨ shutdown = true
  | .take => taskQ ≠ []
  | _ => True

/-- The task that a worker has taken from the queue and not yet executed. -/
def Worker.held (k : Worker) : List Task :=
  match k.pc with
  | .countBusy | .unlockTask | .call => [k.task]
  | _ => []

/-- The part of a history that is about the worker `w`, in order. -/
def tasksOf (w : ℕ) (history : List (ℕ × Task)) : List Task :=
  (history.filter fun e => e.1 = w).map Prod.snd

@[simp] theorem tasksOf_append (w : ℕ) (l l' : List (ℕ × Task)) :
    tasksOf w (l ++ l') = tasksOf w l ++ tasksOf w l' := by
  simp [tasksOf]

@[simp] theorem tasksOf_self (w : ℕ) (t : Task) : tasksOf w [(w, t)] = [t] := by
  simp [tasksOf]

theorem tasksOf_of_ne {u : ℕ} (h : u ≠ w) (t : Task) : tasksOf u [(w, t)] = [] := by
  simp [tasksOf, Ne.symm h]

theorem tasksOf_subset (w : ℕ) (history : List (ℕ × Task)) :
    tasksOf w history ⊆ history.map Prod.snd :=
  List.map_subset _ fun _ h => (List.mem_filter.mp h).1

structure Orderly (s : MyThreadPool minNum maxNum) : Prop where
  asserts : ∀ w, (s.workers w).Asserts s.taskQ s.shutdown
  queue : s.accepted = s.taken.map Prod.snd ++ s.taskQ
  handedOn : ∀ w, tasksOf w s.taken = tasksOf w s.executed ++ (s.workers w).held

theorem orderly_new (minNum maxNum : ℕ) : Orderly (new minNum maxNum) where
  asserts _ := trivial
  queue := rfl
  handedOn _ := rfl

/-- Outside the critical section nothing is relied on. -/
theorem Worker.asserts_of_outside {k : Worker} (h : ¬ k.pc.inside) (taskQ : List Task)
    (shutdown : Bool) : k.Asserts taskQ shutdown := by
  cases hpc : k.pc <;> simp_all [Asserts, Pc.inside]

/-- The queue grows and the pool is shut down behind the worker's back. -/
theorem Worker.Asserts.mono {k : Worker} {taskQ taskQ' : List Task} {shutdown shutdown' : Bool}
    (h : k.Asserts taskQ shutdown) (hq : taskQ ≠ [] → taskQ' ≠ [])
    (hs : shutdown = true → shutdown' = true) : k.Asserts taskQ' shutdown' := by
  unfold Asserts at *
  cases hpc : k.pc <;> simp only [hpc] at h ⊢
  case testStop => exact h.imp hq hs
  case take => exact hq h

theorem ne_nil_of_taskNumber {taskQ : List Task} (h : TaskQueue.taskNumber taskQ ≠ 0) :
    taskQ ≠ [] := by
  rintro rfl
  exact h rfl

namespace WorkerStep

/-- The queue is changed only by the worker that holds the mutex. -/
theorem taskQ_cases (h : WorkerStep s w s') : s'.taskQ = s.taskQ ∨ (s.workers w).pc.inside := by
  cases h with
  | takes hpc htake => exact .inr (by simp [hpc, Pc.inside])
  | _ => exact .inl rfl

/-- The worker itself: each place establishes what the next one relies on. -/
theorem asserts_self (h : WorkerStep s w s') (hs : s.Orderly) :
    (s'.workers w).Asserts s'.taskQ s'.shutdown := by
  have hw := hs.asserts w
  cases h with
  | findsSome hpc hsome => simpa [goto, set, Worker.Asserts] using .inl (ne_nil_of_taskNumber hsome)
  | mustStop hpc hstop => simpa [goto, set, Worker.Asserts] using .inr hstop
  | stays hpc hrun => simpa [goto, set, Worker.Asserts, hpc, hrun] using hw
  | _ => simp [goto, set, Worker.Asserts]

theorem asserts (h : WorkerStep s w s') (hsound : s.Sound) (hs : s.Orderly) :
    ∀ u, (s'.workers u).Asserts s'.taskQ s'.shutdown := by
  intro u
  by_cases hne : u = w
  · rw [hne]
    exact h.asserts_self hs
  · rw [h.onlyWorker.workers u hne]
    rcases h.taskQ_cases with heq | hin
    · rw [heq, h.onlyWorker.shutdown]
      exact hs.asserts u
    · have hw : Inside (s.place (.worker w)) := hin
      have hout : ¬ (s.workers u).pc.inside := by
        intro hu
        have halone : Tid.worker u = .worker w := hsound.guards.alone hw hu
        exact hne (Tid.worker.inj halone)
      exact Worker.asserts_of_outside hout _ _

theorem queue (h : WorkerStep s w s') (hs : s.Orderly) :
    s'.accepted = s'.taken.map Prod.snd ++ s'.taskQ := by
  have hq := hs.queue
  have hw := hs.asserts w
  cases h with
  | takes hpc htake =>
    simp only [Worker.Asserts, hpc] at hw
    obtain ⟨t, taskQ, hcons⟩ := List.exists_cons_of_ne_nil hw
    rw [hcons] at htake hq
    cases htake
    simpa [set] using hq
  | _ => exact hq

theorem handedOn (h : WorkerStep s w s') (hs : s.Orderly) :
    ∀ u, tasksOf u s'.taken = tasksOf u s'.executed ++ (s'.workers u).held := by
  intro u
  have hu := hs.handedOn u
  by_cases hne : u = w
  · subst hne
    cases h with
    | takes hpc htake => simpa [set, Worker.held, hpc] using hu
    | locks hpc | findsNone hpc | findsSome hpc | mustWait hpc | mustStop hpc | waits hpc
    | wakes hpc | leaves hpc | declines hpc | goesOn hpc | unlocksExit hpc | stops hpc | stays hpc
    | counts hpc | unlocksTask hpc | calls hpc | ends hpc | locksEnd hpc | uncounts hpc
    | unlocksEnd hpc | exits hpc => simpa [goto, set, Worker.held, hpc] using hu
  · rw [h.onlyWorker.workers u hne]
    cases h with
    | takes hpc htake => simpa [set, tasksOf_of_ne hne] using hu
    | calls hpc => simpa [goto, set, tasksOf_of_ne hne] using hu
    | _ => exact hu

end WorkerStep

/-- A new worker has taken nothing and relies on nothing. -/
theorem Beside.orderly (h : Beside s s') (hsound : s.Sound) (hs : s.Orderly) : s'.Orderly := by
  have hworkers (u : ℕ) : s'.workers u = s.workers u ∨
      (u = s.created ∧ (s'.workers u).pc = .lock) := by
    rcases h.workers with ⟨heq, -⟩ | ⟨heq, -⟩
    · exact .inl (by rw [heq])
    · by_cases hu : u = s.created
      · exact .inr ⟨hu, by rw [heq, hu, workers_withWorker]⟩
      · exact .inl (by rw [heq, workers_withWorker_of_ne s hu])
  refine ⟨?_, ?_, ?_⟩
  · intro u
    rcases hworkers u with heq | ⟨-, hpc⟩
    · rw [heq, h.taskQ]
      exact (hs.asserts u).mono id h.shutdown
    · simp [Worker.Asserts, hpc]
  · rw [h.accepted, h.taken, h.taskQ]
    exact hs.queue
  · intro u
    have hu := hs.handedOn u
    rw [h.taken, h.executed]
    rcases hworkers u with heq | ⟨rfl, hpc⟩
    · rwa [heq]
    · simpa [Worker.held, hpc, hsound.fresh] using hu

theorem Orderly.step (hs : s.Orderly) (hsound : s.Sound) {a : Label} (hen : s.enabled a)
    (hstep : s.step a = .ok s') : s'.Orderly := by
  cases step_kind hen hstep with
  | worker w hready h => exact ⟨h.asserts hsound hs, h.queue hs, h.handedOn hs⟩
  | addTask task h =>
    rw [h, addTask]
    split
    · exact hs
    · exact ⟨hs.asserts, hs.queue, hs.handedOn⟩
  | push task hadding h =>
    subst h
    refine ⟨fun u => (hs.asserts u).mono (fun _ => by simp) id, ?_, hs.handedOn⟩
    simp [hs.queue]
  | signal woken hcalls hsignals h =>
    subst h
    exact ⟨hs.asserts, hs.queue, hs.handedOn⟩
  | beside h => exact h.orderly hsound hs

theorem orderly_of_run {as : List Label}
    (h : (system minNum maxNum).Run (new minNum maxNum) as s) : s.Orderly := by
  have hboth := h.invariant (P := fun s => s.Sound ∧ s.Orderly) ⟨sound_new _ _, orderly_new _ _⟩
    fun _ _ _ hs hen hstep => ⟨hs.1.step hen hstep, hs.2.step hs.1 hen hstep⟩
  exact hboth.2

/-- The caller hands over a function. -/
def NonNull (_ : MyThreadPool minNum maxNum) : Label → Prop
  | .addTask task => task.function ≠ none
  | _ => True

instance (s : MyThreadPool minNum maxNum) : ∀ a, Decidable (s.NonNull a)
  | .addTask task => inferInstanceAs (Decidable (task.function ≠ none))
  | .construct | .push _ | .signal _ | .worker _ | .manager | .managerSignal _ | .destroy
  | .destroySignal _ | .spurious _ => .isTrue trivial

/-- All tasks have functions. -/
def Callable (s : MyThreadPool minNum maxNum) : Prop :=
  ∀ task, task ∈ s.adding ∨ task ∈ s.accepted → task.function ≠ none

theorem Callable.step (hs : s.Callable) {a : Label} (hen : s.enabled a) (ha : s.NonNull a)
    (hstep : s.step a = .ok s') : s'.Callable := by
  intro t ht
  cases step_kind hen hstep with
  | worker w hready h =>
    rw [h.onlyWorker.adding, h.onlyWorker.accepted] at ht
    exact hs t ht
  | addTask task h =>
    rw [h, addTask] at ht
    split at ht
    · exact hs t ht
    · rcases ht with hadding | haccepted
      · rcases List.mem_append.mp hadding with hold | hnew
        · exact hs t (.inl hold)
        · rw [List.mem_singleton.mp hnew]
          exact ha
      · exact hs t (.inr haccepted)
  | push task hadding h =>
    subst h
    rcases ht with hold | haccepted
    · exact hs t (.inl (List.mem_of_mem_erase hold))
    · rcases List.mem_append.mp haccepted with hold | hnew
      · exact hs t (.inr hold)
      · rw [List.mem_singleton.mp hnew]
        exact hs task (.inl hadding)
  | signal woken hcalls hsignals h =>
    subst h
    exact hs t ht
  | beside h =>
    rw [h.adding, h.accepted] at ht
    exact hs t ht

theorem callable_of_run {as : List Label}
    (h : ((system minNum maxNum).restrict NonNull).Run (new minNum maxNum) as s) : s.Callable :=
  h.invariant (fun _ ht => by simp [new] at ht) fun _ _ _ hs hen hstep =>
    hs.step hen.1 hen.2 hstep

/-- A worker about to call has taken its task from the queue. -/
theorem Orderly.held_accepted (hs : s.Orderly) (hpc : (s.workers w).pc = .call) :
    (s.workers w).task ∈ s.accepted := by
  have hmem : (s.workers w).task ∈ tasksOf w s.taken := by
    rw [hs.handedOn w]
    simp [Worker.held, hpc]
  rw [hs.queue]
  exact List.mem_append_left _ (tasksOf_subset w _ hmem)

theorem worker_ne_nullFunction (hs : s.Orderly) (hcallable : s.Callable) :
    s.worker w ≠ .error .nullFunction := by
  intro h
  cases hpc : (s.workers w).pc <;>
    simp only [worker, hpc, use_bind_eq_error_iff, reduceCtorEq, and_false, or_false] at h
  case call =>
    have hfunction := hcallable _ (.inr (hs.held_accepted hpc))
    split at h
    · next hnone => exact hfunction hnone
    · cases h

/-- The tasks leave the queue in the order in which they came, each worker executes what it took,
once and in order, no worker takes from an empty queue, and none calls a null pointer. -/
theorem tasks_in_order {as : List Label}
    (h : ((system minNum maxNum).restrict NonNull).Run (new minNum maxNum) as s) :
    s.accepted = s.taken.map Prod.snd ++ s.taskQ ∧
      (∀ w, tasksOf w s.taken = tasksOf w s.executed ++ (s.workers w).held) ∧
      (∀ w, (s.workers w).pc = .take → s.taskQ ≠ []) ∧
      ∀ w, s.worker w ≠ .error .nullFunction := by
  have hs := orderly_of_run h.of_restrict
  refine ⟨hs.queue, hs.handedOn, ?_, ?_⟩
  · intro w hpc
    have hw := hs.asserts w
    simpa only [Worker.Asserts, hpc] using hw
  · intro w
    exact worker_ne_nullFunction hs (callable_of_run h)

/-- The one worker of a pool executes the one task. -/
theorem tasks_in_order_one_task : ∃ s : MyThreadPool 1 1,
    s.executed = [(0, numberTask)] ∧ s.accepted = s.taken.map Prod.snd ++ s.taskQ ∧
      (∀ w, tasksOf w s.taken = tasksOf w s.executed ++ (s.workers w).held) ∧
      (∀ w, (s.workers w).pc = .take → s.taskQ ≠ []) ∧
      ∀ w, s.worker w ≠ .error .nullFunction := by
  obtain ⟨s, h, hexecuted⟩ : ∃ s, ((system 1 1).restrict NonNull).Run (new 1 1)
      [.construct, .construct, .construct, .addTask numberTask, .push numberTask, .signal ∅,
        .worker 0, .worker 0, .worker 0, .worker 0, .worker 0, .worker 0, .worker 0] s ∧
        s.executed = [(0, numberTask)] := System.Run.exists_of_exec (by decide +kernel)
  exact ⟨s, hexecuted, tasks_in_order h⟩

end LxcHttpServer.MyThreadPool
