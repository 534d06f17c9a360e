import LxcHttpServer.ElasticSteps
import LxcHttpServer.Tallies

/-!
# The counters of the elastic pool

Each counter changes under the mutex together with the worker it is about. A worker that
sees `shutdown` leaves without taking itself out of `liveNum`, so from then on `liveNum` is
only a bound. The bounds are tested where a worker is created or leaves, and nothing is
decided there on a value read earlier.
-/
namespace LxcHttpServer.MyThreadPool
open PartialRuns Monitors Tallies

variable {minNum maxNum : ℕ} {s s' : MyThreadPool minNum maxNum} {w : ℕ}

/-- The worker has taken a task and not yet reported its end. -/
def Worker.Working (k : Worker) : Prop :=
  match k.pc with
  | .countBusy | .unlockTask | .call | .inTask | .lockEnd | .uncount => True
  | _ => False

/-- The worker counts in `busyNum`. -/
def Worker.Busy (k : Worker) : Prop :=
  match k.pc with
  | .unlockTask | .call | .inTask | .lockEnd | .uncount => True
  | _ => False

/-- The worker is not committed to exit. -/
def Worker.Stays (k : Worker) : Prop :=
  match k.pc with
  | .unlockExit | .threadExit | .exited => False
  | _ => True

instance : DecidablePred Worker.Working := fun k => by
  unfold Worker.Working
  split <;> infer_instance

instance : DecidablePred Worker.Busy := fun k => by
  unfold Worker.Busy
  split <;> infer_instance

instance : DecidablePred Worker.Stays := fun k => by
  unfold Worker.Stays
  split <;> infer_instance

/-- How many of the workers the kind is true of. -/
def count (s : MyThreadPool minNum maxNum) (kind : Worker → Prop) [DecidablePred kind] : ℕ :=
  tally s.created s.workers kind

/-- The workers that the constructor still creates. -/
def Constructor.toCreate (minNum : ℕ) : Constructor → ℕ
  | .createManager => minNum
  | .createWorker i => minNum - i
  | .returned => 0

/-- What the constructor has promised, before anybody is asked to leave. -/
structure Calm (s : MyThreadPool minNum maxNum) : Prop where
  exitNum : s.exitNum = 0
  liveNum : s.liveNum = minNum
  created : s.created + s.constructor.toCreate minNum = minNum
  stays : ∀ w, (s.workers w).Stays

structure Bounded (s : MyThreadPool minNum maxNum) : Prop where
  busy : s.busyNum = s.count Worker.Busy
  live : (s.count Worker.Stays : ℤ) + s.constructor.toCreate minNum ≤ s.liveNum
  lower : (minNum : ℤ) ≤ s.liveNum
  upper : s.liveNum ≤ maxNum
  exit : 0 ≤ s.exitNum ∧ s.exitNum ≤ NUMBER
  calm : s.shutdown = false → s.Calm

theorem bounded_new (h : minNum ≤ maxNum) : Bounded (new minNum maxNum) where
  busy := rfl
  live := by simp [new, count, Constructor.toCreate]
  lower := le_rfl
  upper := by simpa [new] using h
  exit := ⟨le_rfl, by simp [new]⟩
  calm _ := ⟨rfl, rfl, by simp [new, Constructor.toCreate], fun _ => trivial⟩

theorem Sound.lt_created (hs : s.Sound) (hready : s.ready w) : w < s.created :=
  hs.created_iff.mp (ready_pc hready).1

section
variable {kind : Worker → Prop} [DecidablePred kind] {k : Worker}

theorem count_stay (hw : w < s.created) (h : kind k ↔ kind (s.workers w)) :
    (s.set w k).count kind = s.count kind := tally_stay hw h

theorem count_enter (hw : w < s.created) (hfrom : ¬ kind (s.workers w)) (hto : kind k) :
    (s.set w k).count kind = s.count kind + 1 := tally_enter hw hfrom hto

theorem count_leave (hw : w < s.created) (hfrom : kind (s.workers w)) (hto : ¬ kind k) :
    (s.set w k).count kind + 1 = s.count kind := tally_leave hw hfrom hto

end

namespace WorkerStep

theorem busy (h : WorkerStep s w s') (hw : w < s.created) (hs : s.busyNum = s.count Worker.Busy) :
    s'.busyNum = s'.count Worker.Busy := by
  cases h with
  | counts hpc =>
    have hcount : (s.goto w .unlockTask).count Worker.Busy = s.count Worker.Busy + 1 :=
      count_enter hw (by simp [Worker.Busy, hpc]) trivial
    calc s.busyNum + 1 = ((s.count Worker.Busy + 1 : ℕ) : ℤ) := by rw [hs]; rfl
      _ = (s.goto w .unlockTask).count Worker.Busy := by rw [hcount]
  | uncounts hpc =>
    have hcount : (s.goto w .unlockEnd).count Worker.Busy + 1 = s.count Worker.Busy :=
      count_leave hw (by simp [Worker.Busy, hpc]) (by simp [Worker.Busy])
    calc s.busyNum - 1 = (s.count Worker.Busy : ℤ) - 1 := by rw [hs]
      _ = (s.goto w .unlockEnd).count Worker.Busy := by omega
  | locks hpc | findsNone hpc | findsSome hpc | mustWait hpc | mustStop hpc | waits hpc
  | wakes hpc | leaves hpc | declines hpc | goesOn hpc | unlocksExit hpc | stops hpc | stays hpc
  | takes hpc | unlocksTask hpc | calls hpc | ends hpc | locksEnd hpc | unlocksEnd hpc
  | exits hpc =>
    refine hs.trans (congrArg Nat.cast (count_stay hw ?_).symm)
    simp [Worker.Busy, hpc]

/-- A worker that leaves by itself takes itself out of `liveNum`, and nobody else leaves but when
`shutdown` is set. -/
theorem live (h : WorkerStep s w s') (hw : w < s.created) :
    (s'.count Worker.Stays : ℤ) - s'.liveNum ≤ s.count Worker.Stays - s.liveNum := by
  cases h with
  | leaves hpc hexit hlive =>
    have hcount : (s.goto w .unlockExit).count Worker.Stays + 1 = s.count Worker.Stays :=
      count_leave hw (by simp [Worker.Stays, hpc]) (by simp [Worker.Stays])
    have hcount' : ((s.goto w .unlockExit).count Worker.Stays : ℤ) + 1 = s.count Worker.Stays := by
      exact_mod_cast hcount
    have hgoal : ((s.goto w .unlockExit).count Worker.Stays : ℤ) - (s.liveNum - 1) ≤
        s.count Worker.Stays - s.liveNum := by omega
    exact hgoal
  | stops hpc hstop =>
    have hcount : (s.goto w .unlockExit).count Worker.Stays + 1 = s.count Worker.Stays :=
      count_leave hw (by simp [Worker.Stays, hpc]) (by simp [Worker.Stays])
    have hgoal : ((s.goto w .unlockExit).count Worker.Stays : ℤ) - s.liveNum ≤
        s.count Worker.Stays - s.liveNum := by omega
    exact hgoal
  | locks hpc | findsNone hpc | findsSome hpc | mustWait hpc | mustStop hpc | waits hpc
  | wakes hpc | declines hpc | goesOn hpc | unlocksExit hpc | stays hpc | takes hpc | counts hpc
  | unlocksTask hpc | calls hpc | ends hpc | locksEnd hpc | uncounts hpc | unlocksEnd hpc
  | exits hpc =>
    refine Int.sub_le_sub_right (le_of_eq (congrArg Nat.cast (count_stay hw ?_))) _
    simp [Worker.Stays, hpc]

/-- The bounds are tested where the numbers go down. -/
theorem bounds (h : WorkerStep s w s') (hs : s.Bounded) : (minNum : ℤ) ≤ s'.liveNum ∧
    s'.liveNum ≤ maxNum ∧ 0 ≤ s'.exitNum ∧ s'.exitNum ≤ NUMBER := by
  have hlower := hs.lower
  have hupper := hs.upper
  obtain ⟨hexit₀, hexit⟩ := hs.exit
  cases h with
  | leaves hpc hpos hlive =>
    refine ⟨Int.le_sub_one_of_lt hlive, ?_, Int.sub_nonneg_of_le hpos, ?_⟩
    · exact (Int.sub_le_self _ zero_le_one).trans hupper
    · exact (Int.sub_le_self _ zero_le_one).trans hexit
  | declines hpc hpos =>
    refine ⟨hlower, hupper, Int.sub_nonneg_of_le hpos, ?_⟩
    exact (Int.sub_le_self _ zero_le_one).trans hexit
  | _ => exact ⟨hlower, hupper, hexit₀, hexit⟩

/-- Nobody leaves a pool that is not shut down. -/
theorem calm (h : WorkerStep s w s') (hs : s.Calm) (hrun : s.shutdown = false) : s'.Calm := by
  have hkeeps {s' : MyThreadPool minNum maxNum} (hrest : OnlyWorker s w s')
      (hexit : s'.exitNum = s.exitNum) (hlive : s'.liveNum = s.liveNum)
      (hw : (s'.workers w).Stays) : s'.Calm := by
    refine ⟨hexit.trans hs.exitNum, hlive.trans hs.liveNum, ?_, ?_⟩
    · rw [hrest.created, hrest.constructor]
      exact hs.created
    · intro u
      by_cases hu : u = w
      · rwa [hu]
      · rw [hrest.workers u hu]
        exact hs.stays u
  have hstays := hs.stays w
  have hrest := h.onlyWorker
  cases h with
  | leaves hpc hpos | declines hpc hpos => exact absurd hpos (by simp [hs.exitNum])
  | stops hpc hstop => simp [hrun] at hstop
  | unlocksExit hpc | exits hpc => simp [Worker.Stays, hpc] at hstays
  | _ => exact hkeeps hrest rfl rfl (by simp [goto, set, Worker.Stays])

theorem bounded (h : WorkerStep s w s') (hsound : s.Sound) (hready : s.ready w)
    (hs : s.Bounded) : s'.Bounded := by
  have hw := hsound.lt_created hready
  obtain ⟨hlower, hupper, hexit⟩ := h.bounds hs
  refine ⟨h.busy hw hs.busy, ?_, hlower, hupper, hexit, ?_⟩
  · have hlive := hs.live
    have hstep := h.live hw
    rw [h.onlyWorker.constructor]
    omega
  · intro hrun
    rw [h.onlyWorker.shutdown] at hrun
    exact h.calm (hs.calm hrun) hrun

end WorkerStep

theorem count_withWorker {kind : Worker → Prop} [DecidablePred kind] :
    s.withWorker.count kind = s.count kind + if kind ⟨.lock, .empty⟩ then 1 else 0 :=
  tally_create _ _

theorem busy_withWorker : s.withWorker.count Worker.Busy = s.count Worker.Busy := by
  rw [count_withWorker, if_neg (by simp [Worker.Busy])]
  rfl

theorem stays_withWorker : s.withWorker.count Worker.Stays = s.count Worker.Stays + 1 := by
  rw [count_withWorker, if_pos (by simp [Worker.Stays])]

/-- A step that changes neither the counters nor the workers. -/
theorem Bounded.of_same (hs : s.Bounded) (hbusy : s'.busyNum = s.busyNum)
    (hlive : s'.liveNum = s.liveNum) (hexit : s'.exitNum = s.exitNum)
    (hworkers : s'.workers = s.workers ∧ s'.created = s.created)
    (hcreate : s'.constructor.toCreate minNum = s.constructor.toCreate minNum)
    (hshutdown : s'.shutdown = false → s.shutdown = false) : s'.Bounded := by
  obtain ⟨hworkers, hcreated⟩ := hworkers
  have hcount (kind : Worker → Prop) [DecidablePred kind] : s'.count kind = s.count kind := by
    rw [count, count, hworkers, hcreated]
  refine ⟨?_, ?_, ?_, ?_, ?_, ?_⟩
  · rw [hbusy, hcount]
    exact hs.busy
  · rw [hcount, hcreate, hlive]
    exact hs.live
  · rw [hlive]
    exact hs.lower
  · rw [hlive]
    exact hs.upper
  · rw [hexit]
    exact hs.exit
  · intro hrun
    have hcalm := hs.calm (hshutdown hrun)
    refine ⟨hexit.trans hcalm.exitNum, hlive.trans hcalm.liveNum, ?_, ?_⟩
    · rw [hcreated, hcreate]
      exact hcalm.created
    · rw [hworkers]
      exact hcalm.stays

/-- The manager acts on the counters only when the pool is shut down. -/
theorem ManagerStep.bounded (h : ManagerStep s s') (hsound : s.Sound) (hs : s.Bounded) :
    s'.Bounded := by
  cases h with
  | creates i counter hpc hlive =>
    have hstop := hsound.stopped (by simp [hpc, ManagerPc.Looping])
    have hcount := stays_withWorker (s := s)
    have hold := hs.live
    have hnew : (s.withWorker.count Worker.Stays : ℤ) + s.constructor.toCreate minNum ≤
        s.liveNum + 1 := by omega
    refine ⟨hs.busy.trans (congrArg Nat.cast busy_withWorker.symm), hnew, ?_, hlive, hs.exit, ?_⟩
    · exact hs.lower.trans (Int.le_add_of_nonneg_right zero_le_one)
    · intro hrun
      exact absurd hstop (ne_true_of_eq_false hrun)
  | setsExit hpc =>
    have hstop := hsound.stopped (by simp [hpc, ManagerPc.Looping])
    exact ⟨hs.busy, hs.live, hs.lower, hs.upper, ⟨by simp [NUMBER], le_rfl⟩,
      fun hrun => absurd hstop (ne_true_of_eq_false hrun)⟩
  | _ => exact hs.of_same rfl rfl rfl ⟨rfl, rfl⟩ rfl id

theorem ConstructStep.bounded (h : ConstructStep s s') (hs : s.Bounded) : s'.Bounded := by
  cases h with
  | createsManager hpc =>
    exact hs.of_same rfl rfl rfl ⟨rfl, rfl⟩ (by simp [hpc, Constructor.toCreate]) id
  | createsWorker i hpc hi =>
    have hcreate : s.constructor.toCreate minNum = minNum - i := by rw [hpc]; rfl
    have hcount := stays_withWorker (s := s)
    have hold := hs.live
    rw [hcreate] at hold
    have hnew : (s.withWorker.count Worker.Stays : ℤ) + (minNum - (i + 1) : ℕ) ≤ s.liveNum := by
      omega
    refine ⟨hs.busy.trans (congrArg Nat.cast busy_withWorker.symm), hnew, hs.lower, hs.upper,
      hs.exit, ?_⟩
    intro hrun
    have hcalm := hs.calm hrun
    have hcreated := hcalm.created
    rw [hcreate] at hcreated
    have hnewCreated : s.created + 1 + (minNum - (i + 1)) = minNum := by omega
    refine ⟨hcalm.exitNum, hcalm.liveNum, hnewCreated, ?_⟩
    intro u
    have hstays : (s.withWorker.workers u).Stays := by
      by_cases hu : u = s.created
      · simp [hu, Worker.Stays, workers_withWorker]
      · rw [workers_withWorker_of_ne s hu]
        exact hcalm.stays u
    exact hstays
  | returns i hpc hi =>
    refine hs.of_same rfl rfl rfl ⟨rfl, rfl⟩ ?_ id
    simp only [hpc, Constructor.toCreate]
    omega

theorem Bounded.step (hs : s.Bounded) (hsound : s.Sound) {a : Label} (hen : s.enabled a)
    (h : s.step a = .ok s') : s'.Bounded := by
  cases a with
  | worker w => exact (worker_cases hen h).bounded hsound hen hs
  | manager => exact (manager_cases hen h).bounded hsound hs
  | construct => exact (construct_cases hen h).bounded hs
  | addTask task =>
    cases h
    rw [addTask]
    split
    · exact hs
    · exact hs.of_same rfl rfl rfl ⟨rfl, rfl⟩ rfl id
  | push task =>
    cases (use_bind_eq_ok_iff.mp h).2
    exact hs.of_same rfl rfl rfl ⟨rfl, rfl⟩ rfl id
  | signal woken =>
    cases (use_bind_eq_ok_iff.mp h).2
    exact hs.of_same rfl rfl rfl ⟨rfl, rfl⟩ rfl id
  | managerSignal woken =>
    obtain ⟨-, -, -, pc, -, -, rfl⟩ := managerSignal_eq_ok h hen
    exact hs.of_same rfl rfl rfl ⟨rfl, rfl⟩ rfl id
  | destroy =>
    cases h
    rw [destroy]
    split
    · exact hs.of_same rfl rfl rfl ⟨rfl, rfl⟩ rfl (fun hrun => absurd hrun (by simp))
    all_goals exact hs.of_same rfl rfl rfl ⟨rfl, rfl⟩ rfl id
  | destroySignal woken =>
    cases h
    rw [destroySignal]
    split
    · exact hs.of_same rfl rfl rfl ⟨rfl, rfl⟩ rfl id
    · exact hs
  | spurious t =>
    cases h
    exact hs.of_same rfl rfl rfl ⟨rfl, rfl⟩ rfl id

theorem bounded_of_run {as : List Label} (hmin : minNum ≤ maxNum)
    (h : (system minNum maxNum).Run (new minNum maxNum) as s) : s.Bounded := by
  have hboth := h.invariant (P := fun s => s.Sound ∧ s.Bounded)
    ⟨sound_new _ _, bounded_new hmin⟩
    fun _ _ _ hs hen hstep => ⟨hs.1.step hen hstep, hs.2.step hs.1 hen hstep⟩
  exact hboth.2

/-- While the mutex is free, the workers that have taken a task count in `busyNum`. -/
theorem working_eq_busy (hs : s.Sound) (hfree : s.monitor.holder = none) :
    s.count Worker.Working = s.count Worker.Busy := by
  apply tally_congr
  intro w hw
  have hout : ¬ (s.workers w).pc.inside := hs.guards.nobody hfree (.worker w)
  cases hpc : (s.workers w).pc <;> simp_all [Worker.Working, Worker.Busy, Pc.inside]

/-- Outside the critical sections the counters are within their bounds, `busyNum` is the number
of workers at a task, and until the pool is shut down `liveNum` is the number of workers that
are not committed to exit. -/
theorem counters_bounded {as : List Label} (hmin : minNum ≤ maxNum)
    (h : (system minNum maxNum).Run (new minNum maxNum) as s) (hfree : s.monitor.holder = none) :
    (minNum ≤ s.liveNum ∧ s.liveNum ≤ maxNum) ∧ (0 ≤ s.exitNum ∧ s.exitNum ≤ 2) ∧
      (0 ≤ s.busyNum ∧ s.busyNum ≤ s.liveNum) ∧ s.busyNum = s.count Worker.Working ∧
      (s.constructor = .returned → s.shutdown = false → s.liveNum = s.count Worker.Stays) := by
  have hs := bounded_of_run hmin h
  have hbusy : s.count Worker.Busy ≤ s.count Worker.Stays := by
    apply tally_mono
    intro k hk
    cases hpc : k.pc <;> simp_all [Worker.Busy, Worker.Stays]
  have hlive := hs.live
  have hbusyNum := hs.busy
  refine ⟨⟨hs.lower, hs.upper⟩, hs.exit, ⟨by omega, by omega⟩, ?_, ?_⟩
  · rw [working_eq_busy (sound_of_run h) hfree, hbusyNum]
  · intro hreturned hrun
    have hcalm := hs.calm hrun
    have hcreated : s.created = minNum := by
      simpa [hreturned, Constructor.toCreate] using hcalm.created
    have hall : s.count Worker.Stays = s.created := tally_eq_self fun w _ => hcalm.stays w
    rw [hall, hcreated, hcalm.liveNum]

/-- The one worker of a pool is at a task. -/
theorem counters_bounded_at_task : ∃ s : MyThreadPool 1 2, s.busyNum = 1 ∧
    ((1 : ℕ) ≤ s.liveNum ∧ s.liveNum ≤ (2 : ℕ)) ∧ (0 ≤ s.exitNum ∧ s.exitNum ≤ 2) ∧
      (0 ≤ s.busyNum ∧ s.busyNum ≤ s.liveNum) ∧ s.busyNum = s.count Worker.Working ∧
      (s.constructor = .returned → s.shutdown = false → s.liveNum = s.count Worker.Stays) := by
  obtain ⟨s, h, hfree, hbusy⟩ : ∃ s, (system 1 2).Run (new 1 2)
      [.construct, .construct, .construct, .addTask numberTask, .push numberTask, .signal ∅,
        .worker 0, .worker 0, .worker 0, .worker 0, .worker 0, .worker 0, .worker 0] s ∧
        s.monitor.holder = none ∧ s.busyNum = 1 := System.Run.exists_of_exec (by decide +kernel)
  exact ⟨s, hbusy, counters_bounded (by decide) h hfree⟩

end LxcHttpServer.MyThreadPool
