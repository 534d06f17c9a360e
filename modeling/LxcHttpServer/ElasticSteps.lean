import LxcHttpServer.MyThreadPool

/-!
# The steps of the elastic pool

What each thread can do is written down once, with what it has tested before. The mutex
keeps the workers and the manager apart; until `shutdown` is set the manager stands before
its first test or has left its loop, and it has left it when the destructor goes on behind
its join.
-/
namespace LxcHttpServer.MyThreadPool
open PartialRuns Monitors

variable {minNum maxNum : ℕ} {s s' : MyThreadPool minNum maxNum} {w : ℕ}

theorem use_eq_ok_iff {r : Resource} {u : Unit} :
    s.use r = .ok u ↔ r ∉ s.destructor.released := by
  rw [use]
  split_ifs with h <;> simp [h]

theorem use_eq_error_iff {r : Resource} {e : Fault} :
    s.use r = .error e ↔ r ∈ s.destructor.released ∧ e = .released r := by
  rw [use]
  split_ifs with h <;> simp [h, eq_comm]

/-- An access went through, and so did what follows it. -/
theorem use_bind_eq_ok_iff {r : Resource} {f : Except Fault (MyThreadPool minNum maxNum)} :
    (s.use r >>= fun _ => f) = .ok s' ↔ r ∉ s.destructor.released ∧ f = .ok s' := by
  rw [bind_eq_ok_iff]
  simp only [use_eq_ok_iff, exists_const]

theorem use_bind_eq_error_iff {r : Resource} {f : Except Fault (MyThreadPool minNum maxNum)}
    {e : Fault} : (s.use r >>= fun _ => f) = .error e ↔
      (r ∈ s.destructor.released ∧ e = .released r) ∨
        (r ∉ s.destructor.released ∧ f = .error e) := by
  rw [bind_eq_error_iff, use_eq_error_iff]
  simp only [use_eq_ok_iff, exists_const]

theorem Acquirable.free (h : s.Acquirable) (hr : .mutexPool ∉ s.destructor.released) :
    s.monitor.holder = none := h.resolve_right hr

/-- Everything that a worker can do. -/
inductive WorkerStep (s : MyThreadPool minNum maxNum) (w : ℕ) : MyThreadPool minNum maxNum → Prop
  | locks (hpc : (s.workers w).pc = .lock) (hfree : s.monitor.holder = none) :
      WorkerStep s w { s.goto w .testEmpty with monitor := s.monitor.lock (.worker w) }
  | findsNone (hpc : (s.workers w).pc = .testEmpty) (hzero : TaskQueue.taskNumber s.taskQ = 0) :
      WorkerStep s w (s.goto w .testShutdown)
  | findsSome (hpc : (s.workers w).pc = .testEmpty) (hsome : TaskQueue.taskNumber s.taskQ ≠ 0) :
      WorkerStep s w (s.goto w .testStop)
  | mustWait (hpc : (s.workers w).pc = .testShutdown) (hrun : s.shutdown = false) :
      WorkerStep s w (s.goto w .wait)
  | mustStop (hpc : (s.workers w).pc = .testShutdown) (hstop : s.shutdown = true) :
      WorkerStep s w (s.goto w .testStop)
  | waits (hpc : (s.workers w).pc = .wait) :
      WorkerStep s w { s.goto w .waiting with monitor := s.monitor.wait (.worker w) }
  | wakes (hpc : (s.workers w).pc = .waiting) (hfree : s.monitor.holder = none) :
      WorkerStep s w { s.goto w .testExit with monitor := s.monitor.lock (.worker w) }
  | leaves (hpc : (s.workers w).pc = .testExit) (hexit : 0 < s.exitNum)
      (hlive : (minNum : ℤ) < s.liveNum) : WorkerStep s w
        { s.goto w .unlockExit with exitNum := s.exitNum - 1, liveNum := s.liveNum - 1 }
  | declines (hpc : (s.workers w).pc = .testExit) (hexit : 0 < s.exitNum) :
      WorkerStep s w { s.goto w .testEmpty with exitNum := s.exitNum - 1 }
  | goesOn (hpc : (s.workers w).pc = .testExit) : WorkerStep s w (s.goto w .testEmpty)
  | unlocksExit (hpc : (s.workers w).pc = .unlockExit) :
      WorkerStep s w { s.goto w .threadExit with monitor := s.monitor.unlock }
  | stops (hpc : (s.workers w).pc = .testStop) (hstop : s.shutdown = true) :
      WorkerStep s w (s.goto w .unlockExit)
  | stays (hpc : (s.workers w).pc = .testStop) (hrun : s.shutdown = false) :
      WorkerStep s w (s.goto w .take)
  | takes {task : Task} {taskQ : List Task} (hpc : (s.workers w).pc = .take)
      (htake : TaskQueue.takeTast s.taskQ = (task, taskQ)) : WorkerStep s w
        { s.set w ⟨.countBusy, task⟩ with taskQ := taskQ, taken := s.taken ++ [(w, task)] }
  | counts (hpc : (s.workers w).pc = .countBusy) :
      WorkerStep s w { s.goto w .unlockTask with busyNum := s.busyNum + 1 }
  | unlocksTask (hpc : (s.workers w).pc = .unlockTask) :
      WorkerStep s w { s.goto w .call with monitor := s.monitor.unlock }
  | calls (hpc : (s.workers w).pc = .call) : WorkerStep s w
      { s.goto w .inTask with executed := s.executed ++ [(w, (s.workers w).task)] }
  | ends (hpc : (s.workers w).pc = .inTask) : WorkerStep s w (s.goto w .lockEnd)
  | locksEnd (hpc : (s.workers w).pc = .lockEnd) (hfree : s.monitor.holder = none) :
      WorkerStep s w { s.goto w .uncount with monitor := s.monitor.lock (.worker w) }
  | uncounts (hpc : (s.workers w).pc = .uncount) :
      WorkerStep s w { s.goto w .unlockEnd with busyNum := s.busyNum - 1 }
  | unlocksEnd (hpc : (s.workers w).pc = .unlockEnd) :
      WorkerStep s w { s.goto w .lock with monitor := s.monitor.unlock }
  | exits (hpc : (s.workers w).pc = .threadExit) : WorkerStep s w
      { s.goto w .exited with threadIDs := s.threadIDs.replace (some w) none }

theorem worker_cases (hready : s.ready w) (h : s.worker w = .ok s') : WorkerStep s w s' := by
  cases hpc : (s.workers w).pc <;>
    simp only [worker, ready, hpc, use_bind_eq_ok_iff] at h hready
  case lock =>
    obtain ⟨hr, h⟩ := h
    cases h
    exact .locks hpc (hready.free hr)
  case testEmpty =>
    obtain ⟨-, h⟩ := h
    split_ifs at h with hzero <;> cases h
    · exact .findsNone hpc hzero
    · exact .findsSome hpc hzero
  case testShutdown =>
    cases hstop : s.shutdown <;> simp only [hstop] at h <;> cases h
    · exact .mustWait hpc hstop
    · exact .mustStop hpc hstop
  case wait =>
    obtain ⟨-, -, h⟩ := h
    cases h
    exact .waits hpc
  case waiting =>
    obtain ⟨hr, h⟩ := h
    cases h
    exact .wakes hpc (hready.2.free hr)
  case testExit =>
    split_ifs at h with hexit hlive <;> cases h
    · exact .leaves hpc hexit hlive
    · exact .declines hpc hexit
    · exact .goesOn hpc
  case unlockExit =>
    obtain ⟨-, h⟩ := h
    cases h
    exact .unlocksExit hpc
  case testStop =>
    cases hstop : s.shutdown <;> simp only [hstop] at h <;> cases h
    · exact .stays hpc hstop
    · exact .stops hpc hstop
  case take =>
    obtain ⟨-, h⟩ := h
    cases h
    exact .takes hpc rfl
  case countBusy =>
    cases h
    exact .counts hpc
  case unlockTask =>
    obtain ⟨-, h⟩ := h
    cases h
    exact .unlocksTask hpc
  case call =>
    split at h <;> cases h
    exact .calls hpc
  case inTask =>
    cases h
    exact .ends hpc
  case lockEnd =>
    obtain ⟨hr, h⟩ := h
    cases h
    exact .locksEnd hpc (hready.free hr)
  case uncount =>
    cases h
    exact .uncounts hpc
  case unlockEnd =>
    obtain ⟨-, h⟩ := h
    cases h
    exact .unlocksEnd hpc
  case threadExit =>
    obtain ⟨-, h⟩ := h
    cases h
    exact .exits hpc

/-- What a step of the worker `w` leaves alone. -/
structure OnlyWorker (s : MyThreadPool minNum maxNum) (w : ℕ) (s' : MyThreadPool minNum maxNum) :
    Prop where
  workers : ∀ u, u ≠ w → s'.workers u = s.workers u
  shutdown : s'.shutdown = s.shutdown
  constructor : s'.constructor = s.constructor
  managerPc : s'.managerPc = s.managerPc
  created : s'.created = s.created
  adding : s'.adding = s.adding
  signalling : s'.signalling = s.signalling
  destructor : s'.destructor = s.destructor
  accepted : s'.accepted = s.accepted
  passes : s'.passes = s.passes

theorem WorkerStep.onlyWorker (h : WorkerStep s w s') : OnlyWorker s w s' := by
  cases h <;> exact ⟨fun u hu => Function.update_of_ne hu _ _, rfl, rfl, rfl, rfl, rfl, rfl, rfl,
    rfl, rfl⟩

/-! ## The manager -/

/-- The manager has passed its test of `shutdown`. -/
def ManagerPc.Looping : ManagerPc → Prop
  | .notCreated | .test | .exited => False
  | _ => True

/-- A manager at its test or behind it has been created and has not left its loop. -/
theorem ManagerPc.present {pc : ManagerPc} (h : pc = .test ∨ pc.Looping) :
    pc ≠ .notCreated ∧ pc ≠ .exited := by
  rcases h with rfl | h
  · simp
  · constructor <;>
    · rintro rfl
      exact h

/-- Everything that the manager can do. -/
inductive ManagerStep (s : MyThreadPool minNum maxNum) : MyThreadPool minNum maxNum → Prop
  | starts (hpc : s.managerPc = .test) (hstop : s.shutdown = true) :
      ManagerStep s { s with managerPc := .sleep, passes := s.passes + 1 }
  | leaves (hpc : s.managerPc = .test) (hrun : s.shutdown = false) :
      ManagerStep s { s with managerPc := .exited }
  | moves (pc : ManagerPc) (hloop : s.managerPc.Looping) (hin : pc.inside ↔ s.managerPc.inside)
      (hpc : pc = .test ∨ pc.Looping) : ManagerStep s { s with managerPc := pc }
  | locks (pc : ManagerPc) (hloop : s.managerPc.Looping) (hfree : s.monitor.holder = none)
      (hin : pc.inside) (hpc : pc.Looping) :
      ManagerStep s { s with managerPc := pc, monitor := s.monitor.lock .manager }
  | unlocks (pc : ManagerPc) (hloop : s.managerPc.Looping) (hleaves : s.managerPc.inside)
      (hin : ¬ pc.inside) (hpc : pc.Looping) :
      ManagerStep s { s with managerPc := pc, monitor := s.monitor.unlock }
  | creates (i counter : ℕ) (hpc : s.managerPc = .grow i counter)
      (hlive : s.liveNum < maxNum) : ManagerStep s
        { s.set s.created ⟨.lock, .empty⟩ with
          threadIDs := s.threadIDs.set i (some s.created)
          created := s.created + 1
          managerPc := .grow (i + 1) (counter + 1)
          liveNum := s.liveNum + 1 }
  | setsExit (hpc : s.managerPc = .setExit) :
      ManagerStep s { s with managerPc := .unlockShrink, exitNum := NUMBER }

theorem createThread_eq_ok {i : ℕ} (h : s.createThread i = .ok s') : s' =
    { s.set s.created ⟨.lock, .empty⟩ with
      threadIDs := s.threadIDs.set i (some s.created)
      created := s.created + 1 } := by
  rw [createThread] at h
  split_ifs at h
  cases h
  rfl

theorem manager_cases (hready : s.managerReady) (h : s.manager = .ok s') : ManagerStep s s' := by
  cases hpc : s.managerPc <;>
    simp only [manager, managerReady, hpc, use_bind_eq_ok_iff] at h hready
  case test =>
    split_ifs at h with hstop <;> cases h
    · exact .starts hpc hstop
    · exact .leaves hpc (Bool.eq_false_of_not_eq_true hstop)
  case sleep | readBusy =>
    cases h
    exact .moves _ (by simp [hpc, ManagerPc.Looping]) (by simp [hpc, ManagerPc.inside])
      (.inr trivial)
  case testBusy | testLive =>
    cases h
    refine .moves _ (by simp [hpc, ManagerPc.Looping]) ?_ ?_
    · split <;> simp [hpc, ManagerPc.inside]
    · split <;> simp [ManagerPc.Looping]
  case lockRead | lockGrow | lockShrink =>
    obtain ⟨hr, h⟩ := h
    cases h
    exact .locks _ (by simp [hpc, ManagerPc.Looping]) (hready.free hr) trivial trivial
  case read =>
    obtain ⟨-, h⟩ := h
    cases h
    exact .moves _ (by simp [hpc, ManagerPc.Looping]) (by simp [hpc, ManagerPc.inside])
      (.inr trivial)
  case unlockRead =>
    obtain ⟨-, h⟩ := h
    cases h
    refine .unlocks _ (by simp [hpc, ManagerPc.Looping]) (by simp [hpc, ManagerPc.inside]) ?_ ?_
    · split <;> simp [ManagerPc.inside]
    · split <;> simp [ManagerPc.Looping]
  case grow i counter =>
    have hloop : s.managerPc.Looping := by simp [hpc, ManagerPc.Looping]
    split_ifs at h with hround hslot
    · obtain ⟨-, h⟩ := use_bind_eq_ok_iff.mp h
      obtain ⟨s₁, hcreate, hok⟩ := bind_eq_ok_iff.mp h
      cases createThread_eq_ok hcreate
      cases hok
      exact .creates i counter hpc hround.2.2
    · obtain ⟨-, h⟩ := use_bind_eq_ok_iff.mp h
      cases h
      exact .moves _ hloop (by simp [hpc, ManagerPc.inside]) (.inr trivial)
    · cases h
      exact .moves _ hloop (by simp [hpc, ManagerPc.inside]) (.inr trivial)
  case unlockGrow | unlockShrink =>
    obtain ⟨-, h⟩ := h
    cases h
    exact .unlocks _ (by simp [hpc, ManagerPc.Looping]) (by simp [hpc, ManagerPc.inside])
      (by simp [ManagerPc.inside]) trivial
  case setExit =>
    cases h
    exact .setsExit hpc

/-- A signal of the manager wakes workers and moves the manager. -/
theorem managerSignal_eq_ok {woken : Finset Tid} (h : s.managerSignal woken = .ok s')
    (hen : s.enabled (.managerSignal woken)) : s.managerPc.Looping ∧ ¬ s.managerPc.inside ∧
      s.monitor.Signals woken ∧ ∃ pc : ManagerPc, (pc = .test ∨ pc.Looping) ∧ ¬ pc.inside ∧
        s' = { s with managerPc := pc, monitor := s.monitor.wake woken } := by
  simp only [enabled] at hen
  split at hen
  · next i hpc =>
    simp only [managerSignal, hpc, use_bind_eq_ok_iff] at h
    obtain ⟨-, h⟩ := h
    cases h
    refine ⟨by simp [hpc, ManagerPc.Looping], by simp [hpc, ManagerPc.inside], hen, _, ?_, ?_, rfl⟩
    · split <;> simp [ManagerPc.Looping]
    · split <;> simp [ManagerPc.inside]
  · exact hen.elim

/-- Everything that the constructor can do. -/
inductive ConstructStep (s : MyThreadPool minNum maxNum) : MyThreadPool minNum maxNum → Prop
  | createsManager (hpc : s.constructor = .createManager) :
      ConstructStep s { s with managerPc := .test, constructor := .createWorker 0 }
  | createsWorker (i : ℕ) (hpc : s.constructor = .createWorker i) (hi : i < minNum) :
      ConstructStep s
        { s.set s.created ⟨.lock, .empty⟩ with
          threadIDs := s.threadIDs.set i (some s.created)
          created := s.created + 1
          constructor := .createWorker (i + 1) }
  | returns (i : ℕ) (hpc : s.constructor = .createWorker i) (hi : ¬ i < minNum) :
      ConstructStep s { s with constructor := .returned }

theorem construct_cases (hen : s.constructor ≠ .returned) (h : s.construct = .ok s') :
    ConstructStep s s' := by
  rw [construct] at h
  split at h
  · next hpc =>
    cases h
    exact .createsManager hpc
  · next i hpc =>
    split_ifs at h with hi
    · obtain ⟨s₁, hcreate, hok⟩ := bind_eq_ok_iff.mp h
      cases createThread_eq_ok hcreate
      cases hok
      exact .createsWorker i hpc hi
    · cases h
      exact .returns i hpc hi
  · next hpc => exact absurd hpc hen

/-! ## Who holds the mutex -/

/-- The place of a thread holds the mutex. -/
def Inside : ManagerPc ⊕ Pc → Prop
  | .inl pc => pc.inside
  | .inr pc => pc.inside

/-- Where each thread is. -/
def place (s : MyThreadPool minNum maxNum) : Tid → ManagerPc ⊕ Pc
  | .manager => .inl s.managerPc
  | .worker w => .inr (s.workers w).pc

theorem place_worker (hmanager : s'.managerPc = s.managerPc)
    (hworkers : ∀ u, u ≠ w → s'.workers u = s.workers u) :
    s'.place = Function.update s.place (.worker w) (.inr (s'.workers w).pc) := by
  funext t
  cases t with
  | manager => simp [place, hmanager]
  | worker u =>
    by_cases hu : u = w
    · subst hu
      simp [place]
    · simp [place, hu, hworkers u hu]

theorem place_manager (hworkers : s'.workers = s.workers) :
    s'.place = Function.update s.place .manager (.inl s'.managerPc) := by
  funext t
  cases t with
  | manager => simp [place]
  | worker u => simp [place, hworkers]

/-- Only workers in `pthread_cond_wait` are blocked. -/
def Waiting (s : MyThreadPool minNum maxNum) : Prop :=
  ∀ t ∈ s.monitor.blocked, ∃ w, t = .worker w ∧ (s.workers w).pc = .waiting

/-- The workers that exist are those below `created`. -/
def Counted (s : MyThreadPool minNum maxNum) : Prop :=
  ∀ w, (s.workers w).pc = .notCreated ↔ s.created ≤ w

/-- What holds of the threads whatever the counters are. -/
structure Sound (s : MyThreadPool minNum maxNum) : Prop where
  guards : s.monitor.Guards Inside s.place
  waiting : s.Waiting
  counted : s.Counted
  calm : s.shutdown = false → ¬ s.managerPc.Looping
  called : s.shutdown = true ↔ s.destructor ≠ .notCalled
  building : s.constructor ≠ .returned → s.destructor = .notCalled ∧ s.adding = [] ∧
    s.signalling = 0 ∧ s.taskQ = []
  managed : s.managerPc = .notCreated ↔ s.constructor = .createManager
  joined : s.destructor = .notCalled ∨ s.destructor = .joinManager ∨ s.managerPc = .exited

theorem sound_new (minNum maxNum : ℕ) : Sound (new minNum maxNum) where
  guards t := by cases t <;> simp [new, place, Inside, Pc.inside, ManagerPc.inside, Monitor.free]
  waiting t ht := by simp [new, Monitor.free] at ht
  counted w := by simp [new]
  calm _ := by simp [new, ManagerPc.Looping]
  called := by simp [new]
  building _ := by simp [new]
  managed := by simp [new]
  joined := .inl rfl

theorem ready_pc (h : s.ready w) : (s.workers w).pc ≠ .notCreated ∧ (s.workers w).pc ≠ .exited := by
  constructor <;>
  · intro hpc
    simp [ready, hpc] at h

/-- Only a worker that is not blocked takes a step. -/
theorem Sound.awake (hs : s.Sound) (h : s.ready w) : .worker w ∉ s.monitor.blocked := by
  intro hw
  obtain ⟨u, hu, hpc⟩ := hs.waiting _ hw
  cases hu
  simp only [ready, hpc] at h
  exact h.1 hw

theorem Sound.created_iff (hs : s.Sound) : (s.workers w).pc ≠ .notCreated ↔ w < s.created := by
  rw [Ne, hs.counted w, not_le]

/-- A manager behind its test has found `shutdown` set. -/
theorem Sound.stopped (hs : s.Sound) (hloop : s.managerPc.Looping) : s.shutdown = true := by
  by_contra hrun
  exact hs.calm (Bool.eq_false_of_not_eq_true hrun) hloop

namespace WorkerStep

theorem guards (h : WorkerStep s w s') (hs : s.Sound) : s'.monitor.Guards Inside s'.place := by
  have hg := hs.guards
  rw [place_worker h.onlyWorker.managerPc h.onlyWorker.workers]
  cases h with
  | locks hpc hfree | wakes hpc hfree | locksEnd hpc hfree =>
    exact hg.enter hfree (by simp [goto, set, Inside, Pc.inside])
  | waits hpc | unlocksExit hpc | unlocksTask hpc | unlocksEnd hpc =>
    exact hg.leave (by simp [place, hpc, Inside, Pc.inside])
      (by simp [goto, set, Inside, Pc.inside]) rfl
  | findsNone hpc | findsSome hpc | mustWait hpc | mustStop hpc | leaves hpc | declines hpc
  | goesOn hpc | stops hpc | stays hpc | takes hpc | counts hpc | calls hpc | ends hpc
  | uncounts hpc | exits hpc =>
    exact hg.update (by simp [place, hpc, goto, set, Inside, Pc.inside])

/-- Only `pthread_cond_wait` blocks a worker. -/
theorem blocked_cases (h : WorkerStep s w s') : s'.monitor.blocked = s.monitor.blocked ∨
    (s.workers w).pc = .wait ∧ s'.monitor.blocked = insert (.worker w) s.monitor.blocked ∧
      (s'.workers w).pc = .waiting := by
  cases h with
  | waits hpc => exact .inr ⟨hpc, rfl, by simp [goto, set]⟩
  | _ => exact .inl rfl

theorem waiting (h : WorkerStep s w s') (hs : s.Sound) (hready : s.ready w) : s'.Waiting := by
  have hothers : ∀ t ∈ s.monitor.blocked, t ≠ .worker w →
      ∃ u, t = .worker u ∧ (s'.workers u).pc = .waiting := by
    intro t ht hne
    obtain ⟨u, rfl, hpc⟩ := hs.waiting t ht
    refine ⟨u, rfl, ?_⟩
    rwa [h.onlyWorker.workers u fun heq => hne (heq ▸ rfl)]
  intro t ht
  rcases h.blocked_cases with heq | ⟨-, heq, hpc⟩
  · rw [heq] at ht
    exact hothers t ht fun hw => hs.awake hready (hw ▸ ht)
  · rw [heq] at ht
    by_cases hne : t = .worker w
    · exact ⟨w, hne, hpc⟩
    · exact hothers t ((Finset.mem_insert.mp ht).resolve_left hne) hne

theorem counted (h : WorkerStep s w s') (hs : s.Sound) (hready : s.ready w) : s'.Counted := by
  intro u
  rw [h.onlyWorker.created, ← hs.counted u]
  by_cases hu : u = w
  · subst hu
    refine iff_of_false ?_ (ready_pc hready).1
    cases h <;> simp [goto, set]
  · rw [h.onlyWorker.workers u hu]

/-- A worker finds nothing in an empty queue. -/
theorem taskQ_nil (h : WorkerStep s w s') (hnil : s.taskQ = []) : s'.taskQ = [] := by
  cases h with
  | takes hpc htake =>
    rw [hnil] at htake
    cases htake
    rfl
  | _ => exact hnil

theorem sound (h : WorkerStep s w s') (hs : s.Sound) (hready : s.ready w) : s'.Sound := by
  have hrest := h.onlyWorker
  refine ⟨h.guards hs, h.waiting hs hready, h.counted hs hready, ?_, ?_, ?_, ?_, ?_⟩
  · rw [hrest.shutdown, hrest.managerPc]
    exact hs.calm
  · rw [hrest.shutdown, hrest.destructor]
    exact hs.called
  · rw [hrest.constructor, hrest.destructor, hrest.adding, hrest.signalling]
    intro hc
    obtain ⟨hd, ha, hsig, hq⟩ := hs.building hc
    exact ⟨hd, ha, hsig, h.taskQ_nil hq⟩
  · rw [hrest.managerPc, hrest.constructor]
    exact hs.managed
  · rw [hrest.destructor, hrest.managerPc]
    exact hs.joined

end WorkerStep

/-! ### A new worker -/

theorem Sound.fresh (hs : s.Sound) : (s.workers s.created).pc = .notCreated :=
  (hs.counted _).mpr le_rfl

/-- A worker more. -/
def withWorker (s : MyThreadPool minNum maxNum) : MyThreadPool minNum maxNum :=
  { s.set s.created ⟨.lock, .empty⟩ with created := s.created + 1 }

theorem workers_withWorker (s : MyThreadPool minNum maxNum) :
    (s.withWorker.workers s.created).pc = .lock := by
  simp [withWorker, set]

theorem workers_withWorker_of_ne (s : MyThreadPool minNum maxNum) {u : ℕ} (hu : u ≠ s.created) :
    s.withWorker.workers u = s.workers u := Function.update_of_ne hu _ _

/-- The threads with a new worker among them. -/
theorem Sound.withWorker (hs : s.Sound) : s.monitor.Guards Inside s.withWorker.place ∧
    s.withWorker.Waiting ∧ s.withWorker.Counted := by
  refine ⟨?_, ?_, ?_⟩
  · have hplace : s.withWorker.place = Function.update s.place (.worker s.created)
        (.inr (s.withWorker.workers s.created).pc) :=
      place_worker rfl fun u hu => s.workers_withWorker_of_ne hu
    rw [hplace]
    exact hs.guards.update (by simp [place, hs.fresh, workers_withWorker, Inside, Pc.inside])
  · intro t ht
    obtain ⟨u, rfl, hwaiting⟩ := hs.waiting t ht
    refine ⟨u, rfl, ?_⟩
    rw [workers_withWorker_of_ne]
    · exact hwaiting
    · rintro rfl
      rw [hs.fresh] at hwaiting
      cases hwaiting
  · intro u
    have hcreated : s.withWorker.created = s.created + 1 := rfl
    by_cases hu : u = s.created
    · subst hu
      simp [workers_withWorker, hcreated]
    · rw [workers_withWorker_of_ne _ hu, hs.counted u, hcreated]
      omega

/-! ### The other threads -/

namespace ManagerStep

theorem destructor_eq (h : ManagerStep s s') : s'.destructor = s.destructor := by
  cases h <;> rfl

theorem shutdown_eq (h : ManagerStep s s') : s'.shutdown = s.shutdown := by
  cases h <;> rfl

/-- The manager has been created and has not left its loop. -/
theorem present (h : ManagerStep s s') :
    s.managerPc ≠ .notCreated ∧ s.managerPc ≠ .exited ∧ s'.managerPc ≠ .notCreated := by
  cases h with
  | starts hpc | leaves hpc => simp [hpc]
  | creates i counter hpc hlive => simp [hpc]
  | setsExit hpc => simp [hpc]
  | moves pc hloop hin hpc =>
    have hold := ManagerPc.present (.inr hloop)
    exact ⟨hold.1, hold.2, (ManagerPc.present hpc).1⟩
  | locks pc hloop _ _ hpc | unlocks pc hloop _ _ hpc =>
    have hold := ManagerPc.present (.inr hloop)
    exact ⟨hold.1, hold.2, (ManagerPc.present (.inr hpc)).1⟩

theorem threads (h : ManagerStep s s') (hs : s.Sound) :
    s'.monitor.Guards Inside s'.place ∧ s'.Waiting ∧ s'.Counted := by
  have hg := hs.guards
  have hplace (t : MyThreadPool minNum maxNum) (hworkers : s'.workers = t.workers) :
      s'.place = Function.update t.place .manager (.inl s'.managerPc) := place_manager hworkers
  cases h with
  | creates i counter hpc hlive =>
    obtain ⟨hguards, hwaiting, hcounted⟩ := hs.withWorker
    refine ⟨?_, hwaiting, hcounted⟩
    have hmanager : s.withWorker.managerPc = .grow i counter := hpc
    rw [hplace s.withWorker rfl]
    exact hguards.update (by simp [place, hmanager, Inside, ManagerPc.inside])
  | locks pc hloop hfree hin =>
    refine ⟨?_, hs.waiting, hs.counted⟩
    rw [hplace s rfl]
    exact hg.enter hfree hin
  | unlocks pc hloop hleaves hin =>
    refine ⟨?_, hs.waiting, hs.counted⟩
    rw [hplace s rfl]
    exact hg.leave hleaves hin rfl
  | moves pc hloop hin =>
    refine ⟨?_, hs.waiting, hs.counted⟩
    rw [hplace s rfl]
    exact hg.update hin
  | starts hpc | leaves hpc | setsExit hpc =>
    refine ⟨?_, hs.waiting, hs.counted⟩
    rw [hplace s rfl]
    exact hg.update (by simp [place, hpc, Inside, ManagerPc.inside])

theorem calm (h : ManagerStep s s') (hs : s.Sound) (hrun : s'.shutdown = false) :
    ¬ s'.managerPc.Looping := by
  rw [h.shutdown_eq] at hrun
  have hcalm := hs.calm hrun
  cases h with
  | starts hpc hstop => simp [hrun] at hstop
  | leaves hpc => exact id
  | moves _ hloop | locks _ hloop | unlocks _ hloop => exact absurd hloop hcalm
  | creates i counter hpc => simp [hpc, ManagerPc.Looping] at hcalm
  | setsExit hpc => simp [hpc, ManagerPc.Looping] at hcalm

theorem queue_eq (h : ManagerStep s s') : s'.constructor = s.constructor ∧ s'.adding = s.adding ∧
    s'.signalling = s.signalling ∧ s'.taskQ = s.taskQ := by
  cases h <;> exact ⟨rfl, rfl, rfl, rfl⟩

theorem sound (h : ManagerStep s s') (hs : s.Sound) : s'.Sound := by
  obtain ⟨hguards, hwaiting, hcounted⟩ := h.threads hs
  obtain ⟨hconstructor, hadding, hsignalling, hqueue⟩ := h.queue_eq
  obtain ⟨hnew, hleft, hnew'⟩ := h.present
  refine ⟨hguards, hwaiting, hcounted, h.calm hs, ?_, ?_, ?_, ?_⟩
  · rw [h.shutdown_eq, h.destructor_eq]
    exact hs.called
  · rw [hconstructor, h.destructor_eq, hadding, hsignalling, hqueue]
    exact hs.building
  · rw [hconstructor, ← hs.managed]
    exact iff_of_false hnew' hnew
  · rw [h.destructor_eq]
    rcases hs.joined with hd | hd | hd
    · exact .inl hd
    · exact .inr (.inl hd)
    · exact absurd hd hleft

end ManagerStep

theorem ConstructStep.sound (h : ConstructStep s s') (hs : s.Sound) : s'.Sound := by
  have hconstructor : s.constructor ≠ .returned := by
    cases h with
    | createsManager hpc => simp [hpc]
    | createsWorker i hpc => simp [hpc]
    | returns i hpc => simp [hpc]
  have hbuilding := hs.building hconstructor
  have hmanaged := hs.managed
  have hplace (hworkers : s'.workers = s.workers) :
      s'.place = Function.update s.place .manager (.inl s'.managerPc) := place_manager hworkers
  cases h with
  | createsManager hpc =>
    refine ⟨?_, hs.waiting, hs.counted, fun _ => id, hs.called, fun _ => hbuilding, by simp,
      .inl hbuilding.1⟩
    have hnew := hmanaged.mpr hpc
    rw [hplace rfl]
    exact hs.guards.update (by simp [place, hnew, Inside, ManagerPc.inside])
  | createsWorker i hpc hi =>
    obtain ⟨hguards, hwaiting, hcounted⟩ := hs.withWorker
    have hcreated : s.managerPc ≠ .notCreated := by simp [hmanaged, hpc]
    exact ⟨hguards, hwaiting, hcounted, hs.calm, hs.called, fun _ => hbuilding,
      iff_of_false hcreated (by simp), .inl hbuilding.1⟩
  | returns i hpc hi =>
    have hcreated : s.managerPc ≠ .notCreated := by simp [hmanaged, hpc]
    exact ⟨hs.guards, hs.waiting, hs.counted, hs.calm, hs.called, fun _ => hbuilding,
      iff_of_false hcreated (by simp), .inl hbuilding.1⟩

theorem Waiting.wake (h : s.Waiting) (woken : Finset Tid) :
    ∀ t ∈ (s.monitor.wake woken).blocked, ∃ w, t = .worker w ∧ (s.workers w).pc = .waiting :=
  fun t ht => h t (Finset.mem_sdiff.mp ht).1

/-- A signal, sent by whoever. -/
theorem Sound.wake (hs : s.Sound) (woken : Finset Tid) :
    ({ s with monitor := s.monitor.wake woken } : MyThreadPool minNum maxNum).Sound :=
  ⟨hs.guards, hs.waiting.wake woken, hs.counted, hs.calm, hs.called, hs.building, hs.managed,
    hs.joined⟩

/-- What `addTask` changes, after the constructor has returned. -/
theorem Sound.call (hs : s.Sound) (hreturned : s.constructor = .returned) (taskQ adding : List Task)
    (signalling : ℕ) (accepted : List Task) :
    ({ s with
      taskQ := taskQ, adding := adding, signalling := signalling,
      accepted := accepted } : MyThreadPool minNum maxNum).Sound :=
  ⟨hs.guards, hs.waiting, hs.counted, hs.calm, hs.called, fun h => absurd hreturned h, hs.managed,
    hs.joined⟩

/-- A pool that is destroyed has been built. -/
theorem Sound.returned_of_destructor (hs : s.Sound) (h : s.destructor ≠ .notCalled) :
    s.constructor = .returned := by
  by_contra hne
  exact h (hs.building hne).1

theorem Sound.returned_of_adding (hs : s.Sound) {task : Task} (h : task ∈ s.adding) :
    s.constructor = .returned := by
  by_contra hne
  rw [(hs.building hne).2.1] at h
  exact List.not_mem_nil h

theorem Sound.returned_of_signalling (hs : s.Sound) (h : 0 < s.signalling) :
    s.constructor = .returned := by
  by_contra hne
  rw [(hs.building hne).2.2.1] at h
  exact absurd h (lt_irrefl 0)

theorem Sound.managerSignal (hs : s.Sound) {woken : Finset Tid}
    (hen : s.enabled (.managerSignal woken)) (h : s.managerSignal woken = .ok s') : s'.Sound := by
  obtain ⟨hloop, hout, -, pc, hpc, hin, rfl⟩ := managerSignal_eq_ok h hen
  have hstop := hs.stopped hloop
  have hold := ManagerPc.present (.inr hloop)
  have hnew := (ManagerPc.present hpc).1
  refine ⟨?_, hs.waiting.wake woken, hs.counted, fun hrun => ?_, hs.called, hs.building, ?_, ?_⟩
  · have hplace : ({ s with
        managerPc := pc, monitor := s.monitor.wake woken } : MyThreadPool minNum maxNum).place =
        Function.update s.place .manager (.inl pc) := place_manager rfl
    rw [hplace]
    exact hs.guards.update (iff_of_false hin hout)
  · exact absurd hrun (by simp [hstop])
  · rw [← hs.managed]
    exact iff_of_false hnew hold.1
  · rcases hs.joined with hd | hd | hd
    · exact .inl hd
    · exact .inr (.inl hd)
    · exact absurd hd hold.2

/-- The destructor goes on once the manager has left its loop. -/
theorem Sound.advance (hs : s.Sound) (destructor : Destructor) (hcalled : s.destructor ≠ .notCalled)
    (hexited : s.managerPc = .exited) (hd : destructor ≠ .notCalled) :
    ({ s with destructor := destructor } : MyThreadPool minNum maxNum).Sound :=
  ⟨hs.guards, hs.waiting, hs.counted, hs.calm,
    iff_of_true (hs.called.mpr hcalled) hd,
    fun h => absurd (hs.building h).1 hcalled, hs.managed, .inr (.inr hexited)⟩

theorem Sound.exited (hs : s.Sound) (hcalled : s.destructor ≠ .notCalled)
    (hjoined : s.destructor ≠ .joinManager) : s.managerPc = .exited := by
  rcases hs.joined with hd | hd | hd
  · exact absurd hd hcalled
  · exact absurd hd hjoined
  · exact hd

theorem Sound.destroy (hs : s.Sound) (hen : s.enabled .destroy) : s.destroy.Sound := by
  rw [MyThreadPool.destroy]
  cases hd : s.destructor <;> simp only [enabled, hd] at hen ⊢
  case notCalled =>
    exact ⟨hs.guards, hs.waiting, hs.counted, fun h => absurd h (by simp), by simp,
      fun h => absurd hen h, hs.managed, .inr (.inl rfl)⟩
  case joinManager => exact hs.advance _ (by simp [hd]) hen (by simp)
  case testLive =>
    refine hs.advance _ (by simp [hd]) (hs.exited (by simp [hd]) (by simp [hd])) ?_
    split <;> simp
  all_goals exact hs.advance _ (by simp [hd]) (hs.exited (by simp [hd]) (by simp [hd])) (by simp)

theorem Sound.destroySignal (hs : s.Sound) (woken : Finset Tid) :
    (s.destroySignal woken).Sound := by
  rw [MyThreadPool.destroySignal]
  split
  · next i hd =>
    have hexited := hs.exited (by simp [hd]) (by simp [hd])
    exact (hs.advance (.testLive (i + 1)) (by simp [hd]) hexited (by simp)).wake woken
  · exact hs

theorem Sound.step (hs : s.Sound) {a : Label} (hen : s.enabled a) (h : s.step a = .ok s') :
    s'.Sound := by
  cases a with
  | worker w => exact (worker_cases hen h).sound hs hen
  | manager => exact (manager_cases hen h).sound hs
  | construct => exact (construct_cases hen h).sound hs
  | addTask task =>
    cases h
    rw [addTask]
    split
    · exact hs
    · exact hs.call hen _ _ _ _
  | push task =>
    cases (use_bind_eq_ok_iff.mp h).2
    exact hs.call (hs.returned_of_adding hen) _ _ _ _
  | signal woken =>
    cases (use_bind_eq_ok_iff.mp h).2
    exact (hs.wake woken).call (hs.returned_of_signalling hen.1) _ _ _ _
  | managerSignal woken => exact hs.managerSignal hen h
  | destroy =>
    cases h
    exact hs.destroy hen
  | destroySignal woken =>
    cases h
    exact hs.destroySignal woken
  | spurious t =>
    cases h
    exact hs.wake {t}

theorem sound_of_run {as : List Label}
    (h : (system minNum maxNum).Run (new minNum maxNum) as s) : s.Sound :=
  h.invariant (sound_new minNum maxNum) fun _ _ _ hs hen hstep => hs.step hen hstep

/-- A step that is taken neither by a worker nor by a caller of `addTask`. -/
structure Beside (s s' : MyThreadPool minNum maxNum) : Prop where
  workers : (s'.workers = s.workers ∧ s'.created = s.created) ∨
    (s'.workers = s.withWorker.workers ∧ s'.created = s.created + 1)
  blocked : s'.monitor.blocked ⊆ s.monitor.blocked
  shutdown : s.shutdown = true → s'.shutdown = true
  taskQ : s'.taskQ = s.taskQ
  adding : s'.adding = s.adding
  signalling : s'.signalling = s.signalling
  accepted : s'.accepted = s.accepted
  taken : s'.taken = s.taken
  executed : s'.executed = s.executed
  busyNum : s'.busyNum = s.busyNum

theorem ManagerStep.beside (h : ManagerStep s s') : Beside s s' := by
  cases h with
  | creates => exact ⟨.inr ⟨rfl, rfl⟩, subset_rfl, id, rfl, rfl, rfl, rfl, rfl, rfl, rfl⟩
  | _ => exact ⟨.inl ⟨rfl, rfl⟩, subset_rfl, id, rfl, rfl, rfl, rfl, rfl, rfl, rfl⟩

theorem ConstructStep.beside (h : ConstructStep s s') : Beside s s' := by
  cases h with
  | createsWorker => exact ⟨.inr ⟨rfl, rfl⟩, subset_rfl, id, rfl, rfl, rfl, rfl, rfl, rfl, rfl⟩
  | _ => exact ⟨.inl ⟨rfl, rfl⟩, subset_rfl, id, rfl, rfl, rfl, rfl, rfl, rfl, rfl⟩

theorem destroy_beside (s : MyThreadPool minNum maxNum) : Beside s s.destroy := by
  rw [destroy]
  split
  · exact ⟨.inl ⟨rfl, rfl⟩, subset_rfl, fun _ => rfl, rfl, rfl, rfl, rfl, rfl, rfl, rfl⟩
  all_goals exact ⟨.inl ⟨rfl, rfl⟩, subset_rfl, id, rfl, rfl, rfl, rfl, rfl, rfl, rfl⟩

theorem destroySignal_beside (s : MyThreadPool minNum maxNum) (woken : Finset Tid) :
    Beside s (s.destroySignal woken) := by
  rw [destroySignal]
  split
  · exact ⟨.inl ⟨rfl, rfl⟩, Finset.sdiff_subset, id, rfl, rfl, rfl, rfl, rfl, rfl, rfl⟩
  · exact ⟨.inl ⟨rfl, rfl⟩, subset_rfl, id, rfl, rfl, rfl, rfl, rfl, rfl, rfl⟩

/-- A step of a worker or of a caller of `addTask`, or a step beside them. -/
inductive StepKind (s s' : MyThreadPool minNum maxNum) : Label → Prop
  | worker (w : ℕ) (hready : s.ready w) (h : WorkerStep s w s') : StepKind s s' (.worker w)
  | addTask (task : Task) (h : s' = s.addTask task) : StepKind s s' (.addTask task)
  | push (task : Task) (hadding : task ∈ s.adding)
      (h : s' = { s with
        adding := s.adding.erase task
        taskQ := s.taskQ ++ [task]
        signalling := s.signalling + 1
        accepted := s.accepted ++ [task] }) : StepKind s s' (.push task)
  | signal (woken : Finset Tid) (hcalls : 0 < s.signalling) (hsignals : s.monitor.Signals woken)
      (h : s' = { s with monitor := s.monitor.wake woken, signalling := s.signalling - 1 }) :
      StepKind s s' (.signal woken)
  | beside {a : Label} (h : Beside s s') : StepKind s s' a

theorem step_kind {a : Label} (hen : s.enabled a) (h : s.step a = .ok s') : StepKind s s' a := by
  cases a with
  | worker w => exact .worker w hen (worker_cases hen h)
  | addTask task =>
    cases h
    exact .addTask task rfl
  | push task =>
    cases (use_bind_eq_ok_iff.mp h).2
    exact .push task hen rfl
  | signal woken =>
    cases (use_bind_eq_ok_iff.mp h).2
    exact .signal woken hen.1 hen.2 rfl
  | manager => exact .beside (manager_cases hen h).beside
  | construct => exact .beside (construct_cases hen h).beside
  | managerSignal woken =>
    obtain ⟨-, -, -, pc, -, -, rfl⟩ := managerSignal_eq_ok h hen
    exact .beside ⟨.inl ⟨rfl, rfl⟩, Finset.sdiff_subset, id, rfl, rfl, rfl, rfl, rfl, rfl, rfl⟩
  | destroy =>
    cases h
    exact .beside s.destroy_beside
  | destroySignal woken =>
    cases h
    exact .beside (s.destroySignal_beside woken)
  | spurious t =>
    cases h
    exact .beside ⟨.inl ⟨rfl, rfl⟩, Finset.sdiff_subset, id, rfl, rfl, rfl, rfl, rfl, rfl, rfl⟩

/-- `shutdown` stays set. -/
theorem step_shutdown {a : Label} (hen : s.enabled a) (hstep : s.step a = .ok s')
    (hrun : s'.shutdown = false) : s.shutdown = false := by
  cases step_kind hen hstep with
  | worker w hready h => rwa [h.onlyWorker.shutdown] at hrun
  | addTask task h =>
    rw [h, addTask] at hrun
    split at hrun
    · exact hrun
    · exact hrun
  | push task hadding h | signal woken hcalls hsignals h =>
    subst h
    exact hrun
  | beside h =>
    by_contra hstop
    rw [h.shutdown (Bool.eq_true_of_not_eq_false hstop)] at hrun
    cases hrun

/-- A task as the test program makes it. -/
def numberTask : Task where
  function := some 4096
  arg := some 8192

end LxcHttpServer.MyThreadPool
