import LxcHttpServer.ElasticCounters
import LxcHttpServer.SlotTables

/-!
# The slots of the elastic pool

`threadIDs` has `maxNum` slots. The constructor fills the first of them without looking, the
manager looks for a free one, and a worker clears its own when it exits, without the mutex.
A worker that is about to exit is out of `liveNum` and still in its slot.
-/
namespace LxcHttpServer.MyThreadPool
open PartialRuns Monitors SlotTables Tallies

variable {minNum maxNum : ℕ} {s s' : MyThreadPool minNum maxNum} {w : ℕ}

/-- The worker has been created and has not exited. -/
def Worker.Present (k : Worker) : Prop := k.pc ≠ .notCreated ∧ k.pc ≠ .exited

instance : DecidablePred Worker.Present := fun k =>
  inferInstanceAs (Decidable (k.pc ≠ .notCreated ∧ k.pc ≠ .exited))

/-- The worker with this number is there. -/
def HasWorker (s : MyThreadPool minNum maxNum) (w : ℕ) : Prop := (s.workers w).Present

/-- The constructor has not come to the slot. -/
def Constructor.Ahead : Constructor → ℕ → Prop
  | .createManager, _ => True
  | .createWorker i, j => i ≤ j
  | .returned, _ => False

/-- Each worker that is there has a slot of its own, and the slots that the constructor is going
to fill are free. -/
structure Seated (s : MyThreadPool minNum maxNum) : Prop where
  size : s.threadIDs.length = maxNum
  seats : Seats s.threadIDs s.HasWorker
  ahead : ∀ i < maxNum, s.constructor.Ahead i → s.threadIDs[i]? = some none
  reached : ∀ i, s.constructor = .createWorker i → i ≤ maxNum

theorem seated_new (minNum maxNum : ℕ) : Seated (new minNum maxNum) where
  size := List.length_replicate
  seats := .of_free maxNum fun w hw => hw.1 rfl
  ahead i hi _ := by simp [new, hi]
  reached i hpc := by simp [new] at hpc

theorem hasWorker_of_ready (hready : s.ready w) : s.HasWorker w := ready_pc hready

/-- A worker stays until `threadExit`. -/
theorem WorkerStep.present (h : WorkerStep s w s') (hpc : (s.workers w).pc ≠ .threadExit) :
    s'.threadIDs = s.threadIDs ∧ s'.HasWorker w := by
  cases h with
  | exits hexit => exact absurd hexit hpc
  | _ => exact ⟨rfl, by simp [HasWorker, Worker.Present, goto, set]⟩

theorem WorkerStep.hasWorker_of_ne (h : WorkerStep s w s') {u : ℕ} (hu : u ≠ w) :
    s'.HasWorker u ↔ s.HasWorker u := by
  rw [HasWorker, HasWorker, h.onlyWorker.workers u hu]

theorem WorkerStep.seated (h : WorkerStep s w s') (hready : s.ready w) (hs : s.Seated) :
    s'.Seated := by
  have hconstructor := h.onlyWorker.constructor
  by_cases hpc : (s.workers w).pc = .threadExit
  · cases h with
    | exits hexit =>
      refine ⟨by simpa using hs.size, ?_, ?_, hs.reached⟩
      · apply hs.seats.leave (hasWorker_of_ready hready)
        · simp [HasWorker, Worker.Present, goto, set]
        · exact fun u hu => (WorkerStep.exits hexit).hasWorker_of_ne hu
      · exact fun i hi hahead => free_leave (hs.ahead i hi hahead) _
    | _ => simp_all
  · obtain ⟨hids, hthere⟩ := h.present hpc
    refine ⟨by rw [hids, hs.size], ?_, ?_, hconstructor ▸ hs.reached⟩
    · rw [hids]
      apply hs.seats.congr
      intro u
      by_cases hu : u = w
      · subst hu
        exact iff_of_true hthere (hasWorker_of_ready hready)
      · exact h.hasWorker_of_ne hu
    · rw [hids, hconstructor]
      exact hs.ahead

theorem hasWorker_withWorker_of_ne {u : ℕ} (hu : u ≠ s.created) :
    s.withWorker.HasWorker u ↔ s.HasWorker u := by
  rw [HasWorker, HasWorker, workers_withWorker_of_ne s hu]

/-- A worker is created in a free slot. -/
theorem Seated.create (hs : s.Seated) (hsound : s.Sound) {i : ℕ}
    (hfree : s.threadIDs[i]? = some none) :
    Seats (s.threadIDs.set i (some s.created)) s.withWorker.HasWorker := by
  apply hs.seats.enter hfree
  · exact fun hthere => hthere.1 hsound.fresh
  · simp [HasWorker, Worker.Present, workers_withWorker]
  · exact fun u hu => hasWorker_withWorker_of_ne hu

theorem ConstructStep.seated (h : ConstructStep s s') (hsound : s.Sound) (hs : s.Seated)
    (hroom : ∀ i, s.constructor = .createWorker i → i < minNum → i < maxNum) : s'.Seated := by
  cases h with
  | createsManager hpc =>
    refine ⟨hs.size, hs.seats, ?_, by simp⟩
    exact fun i hi _ => hs.ahead i hi (by simp [hpc, Constructor.Ahead])
  | createsWorker i hpc hi =>
    have hi' := hroom i hpc hi
    have hfree : s.threadIDs[i]? = some none := hs.ahead i hi' (by simp [hpc, Constructor.Ahead])
    refine ⟨by simpa using hs.size, hs.create hsound hfree, ?_, ?_⟩
    · intro j hj hahead
      have hlt : i < j := hahead
      simp only
      rw [List.getElem?_set_ne (by omega)]
      exact hs.ahead j hj (by simp only [hpc, Constructor.Ahead]; omega)
    · rintro j ⟨⟩
      exact hi'
  | returns i hpc hi => exact ⟨hs.size, hs.seats, fun i hi hahead => hahead.elim, by simp⟩

theorem createThread_room {i : ℕ} (h : s.createThread i = .ok s') : i < s.threadIDs.length := by
  rw [createThread] at h
  split_ifs at h with hi
  exact hi

/-- Where the constructor creates a worker there is a slot. -/
theorem construct_room {i : ℕ} (h : s.construct = .ok s') (hpc : s.constructor = .createWorker i)
    (hi : i < minNum) : i < s.threadIDs.length := by
  simp only [construct, hpc, if_pos hi] at h
  obtain ⟨t, hcreate, -⟩ := bind_eq_ok_iff.mp h
  exact createThread_room hcreate

/-- The manager leaves the slots as they are, or it creates a worker in a free one. -/
theorem manager_slots (h : s.manager = .ok s') :
    (s'.threadIDs = s.threadIDs ∧ s'.workers = s.workers) ∨
      s.managerPc.Looping ∧ ∃ i, s.threadIDs[i]? = some none ∧
        s'.threadIDs = s.threadIDs.set i (some s.created) ∧
        s'.workers = s.withWorker.workers := by
  cases hpc : s.managerPc <;> simp only [manager, hpc, use_bind_eq_ok_iff] at h
  case grow i counter =>
    split_ifs at h with hround hslot
    · obtain ⟨-, h⟩ := use_bind_eq_ok_iff.mp h
      obtain ⟨t, hcreate, hok⟩ := bind_eq_ok_iff.mp h
      cases createThread_eq_ok hcreate
      cases hok
      exact .inr ⟨by simp [ManagerPc.Looping], i, hslot, rfl, rfl⟩
    · cases (use_bind_eq_ok_iff.mp h).2
      exact .inl ⟨rfl, rfl⟩
    · cases h
      exact .inl ⟨rfl, rfl⟩
  case test =>
    split_ifs at h <;> cases h <;> exact .inl ⟨rfl, rfl⟩
  case notCreated | signal | exited | sleep | readBusy | testBusy | testLive | setExit =>
    cases h
    exact .inl ⟨rfl, rfl⟩
  all_goals
    cases h.2
    exact .inl ⟨rfl, rfl⟩

theorem Seated.manager (hs : s.Seated) (hsound : s.Sound) (hready : s.managerReady)
    (h : s.manager = .ok s') : s'.Seated := by
  have hconstructor := (manager_cases hready h).queue_eq.1
  rcases manager_slots h with ⟨hids, hworkers⟩ | ⟨hloop, i, hfree, hids, hworkers⟩
  · refine ⟨by rw [hids, hs.size], ?_, ?_, hconstructor ▸ hs.reached⟩
    · rw [hids]
      exact hs.seats.congr fun w => by rw [HasWorker, HasWorker, hworkers]
    · rw [hids, hconstructor]
      exact hs.ahead
  · have hreturned := hsound.returned_of_destructor (hsound.called.mp (hsound.stopped hloop))
    refine ⟨by rw [hids, List.length_set, hs.size], ?_, ?_, hconstructor ▸ hs.reached⟩
    · rw [hids]
      exact (hs.create hsound hfree).congr fun w => by rw [HasWorker, HasWorker, hworkers]
    · intro j hj hahead
      rw [hconstructor, hreturned] at hahead
      exact hahead.elim

/-- What leaves the slots, the workers and the constructor as they are. -/
theorem Seated.of_same (hs : s.Seated) (hids : s'.threadIDs = s.threadIDs)
    (hworkers : s'.workers = s.workers) (hconstructor : s'.constructor = s.constructor) :
    s'.Seated where
  size := by rw [hids, hs.size]
  seats := by
    rw [hids]
    exact hs.seats.congr fun w => by rw [HasWorker, HasWorker, hworkers]
  ahead := by
    rw [hids, hconstructor]
    exact hs.ahead
  reached := hconstructor ▸ hs.reached

theorem Seated.step (hs : s.Seated) (hsound : s.Sound) {a : Label} (hen : s.enabled a)
    (hstep : s.step a = .ok s') : s'.Seated := by
  cases a with
  | construct =>
    apply (construct_cases hen hstep).seated hsound hs
    intro i hpc hi
    rw [← hs.size]
    exact construct_room hstep hpc hi
  | worker w => exact (worker_cases hen hstep).seated hen hs
  | manager => exact hs.manager hsound hen hstep
  | managerSignal woken =>
    obtain ⟨-, -, -, pc, -, -, rfl⟩ := managerSignal_eq_ok hstep hen
    exact hs.of_same rfl rfl rfl
  | push task | signal woken =>
    cases (use_bind_eq_ok_iff.mp hstep).2
    exact hs.of_same rfl rfl rfl
  | addTask task =>
    cases hstep
    rw [addTask]
    split <;> exact hs.of_same rfl rfl rfl
  | destroy =>
    cases hstep
    rw [destroy]
    split <;> exact hs.of_same rfl rfl rfl
  | destroySignal woken =>
    cases hstep
    rw [destroySignal]
    split <;> exact hs.of_same rfl rfl rfl
  | spurious t =>
    cases hstep
    exact hs.of_same rfl rfl rfl

theorem seated_of_run {as : List Label} (h : (system minNum maxNum).Run (new minNum maxNum) as s) :
    s.Seated := by
  have hboth := h.invariant (P := fun s => s.Sound ∧ s.Seated)
    ⟨sound_new _ _, seated_new _ _⟩
    fun _ _ _ hs hen hstep => ⟨hs.1.step hen hstep, hs.2.step hs.1 hen hstep⟩
  exact hboth.2

theorem worker_ne_outOfBounds (w : ℕ) : s.worker w ≠ .error .outOfBounds := by
  intro h
  cases hpc : (s.workers w).pc <;> simp [worker, hpc, use_bind_eq_error_iff] at h
  case call => split at h <;> simp at h

theorem manager_ne_outOfBounds : s.manager ≠ .error .outOfBounds := by
  intro h
  cases hpc : s.managerPc <;> simp [manager, hpc, use_bind_eq_error_iff] at h
  case grow i counter =>
    split_ifs at h with hround hslot
    · obtain ⟨hi, -⟩ := List.getElem?_eq_some_iff.mp hslot
      rcases use_bind_eq_error_iff.mp h with ⟨-, h⟩ | ⟨-, h⟩
      · cases h
      · simp [createThread, hi, bind, Except.bind] at h
    · simp [use_bind_eq_error_iff] at h

theorem construct_outOfBounds_iff : s.construct = .error .outOfBounds ↔
    ∃ i, s.constructor = .createWorker i ∧ i < minNum ∧ s.threadIDs.length ≤ i := by
  cases hpc : s.constructor with
  | createManager | returned => simp [construct, hpc]
  | createWorker i =>
    simp only [construct, hpc, createThread]
    split_ifs with hi hroom
    · simp [bind, Except.bind, hi, hroom]
    · simp [bind, Except.bind, hi, not_lt.mp hroom]
    · simp [hi]

theorem step_outOfBounds_iff (a : Label) : s.step a = .error .outOfBounds ↔
    a = .construct ∧ s.construct = .error .outOfBounds := by
  cases a with
  | construct => simp [MyThreadPool.step]
  | worker w => simp [MyThreadPool.step, worker_ne_outOfBounds]
  | manager => simp [MyThreadPool.step, manager_ne_outOfBounds]
  | push task | signal woken =>
    simp [MyThreadPool.step, push, signal, use_bind_eq_error_iff]
  | managerSignal woken =>
    simp only [MyThreadPool.step, managerSignal]
    split <;> simp [use_bind_eq_error_iff]
  | addTask | destroy | destroySignal | spurious => simp [MyThreadPool.step]

/-- There are no more workers than slots. -/
theorem Seated.count_le (hs : s.Seated) : s.count Worker.Present ≤ maxNum := by
  rw [count, ← length_filter_range]
  apply le_of_le_of_eq ?_ hs.size
  apply hs.seats.length_le (List.nodup_range.filter _)
  intro w hw
  simpa [HasWorker] using (List.mem_filter.mp hw).2

/-- In every run a worker that has been created and has not exited has one slot, and no other
slot holds a number; so there are never more workers than slots. `threadIDs` is written outside
where the constructor has more workers to create than slots, and nowhere else. -/
theorem one_slot {as : List Label} (h : (system minNum maxNum).Run (new minNum maxNum) as s) :
    (∀ w, s.threadIDs.count (some w) = if (s.workers w).Present then 1 else 0) ∧
      s.count Worker.Present ≤ maxNum ∧
      ∀ a, s.step a = .error .outOfBounds ↔
        a = .construct ∧ s.constructor = .createWorker maxNum ∧ maxNum < minNum := by
  have hs := seated_of_run h
  refine ⟨?_, hs.count_le, ?_⟩
  · intro w
    split_ifs with hw
    · exact hs.seats.seated w hw
    · exact List.count_eq_zero_of_not_mem (hs.seats.absent w hw)
  · intro a
    rw [step_outOfBounds_iff, construct_outOfBounds_iff, hs.size]
    constructor
    · rintro ⟨rfl, i, hpc, hi, hout⟩
      have heq : i = maxNum := le_antisymm (hs.reached i hpc) hout
      subst heq
      exact ⟨rfl, hpc, hi⟩
    · rintro ⟨rfl, hpc, hlt⟩
      exact ⟨rfl, maxNum, hpc, hlt, le_rfl⟩

/-- The first worker of a pool that asks for two and has room for one. -/
theorem one_slot_full : ∃ s : MyThreadPool 2 1, s.threadIDs = [some 0] ∧
    s.step .construct = .error .outOfBounds := by
  obtain ⟨s, h, hids, hpc⟩ : ∃ s, (system 2 1).Run (new 2 1) [.construct, .construct] s ∧
      s.threadIDs = [some 0] ∧ s.constructor = .createWorker 1 :=
    System.Run.exists_of_exec (by decide +kernel)
  exact ⟨s, hids, ((one_slot h).2.2 .construct).mpr ⟨rfl, hpc, by decide⟩⟩

end LxcHttpServer.MyThreadPool
