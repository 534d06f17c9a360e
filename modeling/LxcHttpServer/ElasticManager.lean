import LxcHttpServer.ElasticSteps

/-!
# The loop of the elastic pool's manager

`while (pool->shutdown)` goes on while the pool is shut down and ends while it is not. The
manager leaves its loop at the first test if that comes before the destructor; if it comes
after it, the manager never leaves, and the destructor, which has set the flag and joins the
manager, goes no further. Every pass can be completed, and the next one is started.
-/
namespace LxcHttpServer.MyThreadPool
open PartialRuns Monitors

variable {minNum maxNum : ℕ} {s s' t : MyThreadPool minNum maxNum} {w : ℕ}

/-- Along the run `as` the manager has left its loop only where `shutdown` is set, and from where
it is set on the manager starts at most one pass more. -/
structure KeepsAdapting (minNum maxNum : ℕ) (as : List Label) : Prop where
  left : ∀ pre t, pre <+: as → (system minNum maxNum).Run (new minNum maxNum) pre t →
    t.managerPc = .exited → t.shutdown = true
  stops : ∀ pre post t u, pre ++ post <+: as →
    (system minNum maxNum).Run (new minNum maxNum) pre t → (system minNum maxNum).Run t post u →
      t.shutdown = true → u.passes ≤ t.passes + 1

/-- The manager tests `shutdown` where it is set, and has not tested it there before. -/
def TestsOnce (s : MyThreadPool minNum maxNum) : Label → Prop
  | .manager => s.managerPc = .test → s.shutdown = true ∧ s.passes = 0
  | _ => True

/-- A step starts a pass, or leaves the loop, or does neither. -/
inductive LoopStep (s s' : MyThreadPool minNum maxNum) : Label → Prop
  | starts (hpc : s.managerPc = .test) (hstop : s.shutdown = true)
      (h : s' = { s with managerPc := .sleep, passes := s.passes + 1 }) : LoopStep s s' .manager
  | leaves (hpc : s.managerPc = .test) (hrun : s.shutdown = false)
      (h : s' = { s with managerPc := .exited }) : LoopStep s s' .manager
  | keeps {a : Label} (hpasses : s'.passes = s.passes)
      (hexited : s'.managerPc = .exited ↔ s.managerPc = .exited) : LoopStep s s' a

theorem ManagerStep.loopStep (h : ManagerStep s s') : LoopStep s s' .manager := by
  have hkeeps (hpasses : s'.passes = s.passes) (hpc : s'.managerPc ≠ .exited) :
      LoopStep s s' .manager :=
    .keeps hpasses (iff_of_false hpc h.present.2.1)
  cases h with
  | starts hpc hstop => exact .starts hpc hstop rfl
  | leaves hpc hrun => exact .leaves hpc hrun rfl
  | moves pc hloop hin hpc => exact hkeeps rfl (ManagerPc.present hpc).2
  | locks pc hloop hfree hin hpc => exact hkeeps rfl (ManagerPc.present (.inr hpc)).2
  | unlocks pc hloop hleaves hin hpc => exact hkeeps rfl (ManagerPc.present (.inr hpc)).2
  | creates i counter hpc hlive => exact hkeeps rfl (by simp)
  | setsExit hpc => exact hkeeps rfl (by simp)

theorem ConstructStep.loopStep (h : ConstructStep s s') (hs : s.Sound) :
    LoopStep s s' .construct := by
  have hmanaged := hs.managed
  cases h with
  | createsManager hpc =>
    have hnew := hmanaged.mpr hpc
    exact .keeps rfl (by simp [hnew])
  | createsWorker i hpc hi => exact .keeps rfl Iff.rfl
  | returns i hpc hi => exact .keeps rfl Iff.rfl

theorem destroy_loopStep (s : MyThreadPool minNum maxNum) : LoopStep s s.destroy .destroy := by
  rw [destroy]
  split <;> exact .keeps rfl Iff.rfl

theorem destroySignal_loopStep (s : MyThreadPool minNum maxNum) (woken : Finset Tid) :
    LoopStep s (s.destroySignal woken) (.destroySignal woken) := by
  rw [destroySignal]
  split
  · exact .keeps rfl Iff.rfl
  · exact .keeps rfl Iff.rfl

theorem loop_step (hs : s.Sound) {a : Label} (hen : s.enabled a) (hstep : s.step a = .ok s') :
    LoopStep s s' a := by
  cases a with
  | manager => exact (manager_cases hen hstep).loopStep
  | construct => exact (construct_cases hen hstep).loopStep hs
  | worker w =>
    have hrest := (worker_cases hen hstep).onlyWorker
    exact .keeps hrest.passes (by rw [hrest.managerPc])
  | addTask task =>
    cases hstep
    rw [addTask]
    split
    · exact .keeps rfl Iff.rfl
    · exact .keeps rfl Iff.rfl
  | push task =>
    cases (use_bind_eq_ok_iff.mp hstep).2
    exact .keeps rfl Iff.rfl
  | signal woken =>
    cases (use_bind_eq_ok_iff.mp hstep).2
    exact .keeps rfl Iff.rfl
  | managerSignal woken =>
    obtain ⟨hloop, -, -, pc, hpc, -, rfl⟩ := managerSignal_eq_ok hstep hen
    exact .keeps rfl
      (iff_of_false (ManagerPc.present hpc).2 (ManagerPc.present (.inr hloop)).2)
  | destroy =>
    cases hstep
    exact s.destroy_loopStep
  | destroySignal woken =>
    cases hstep
    exact s.destroySignal_loopStep woken
  | spurious t =>
    cases hstep
    exact .keeps rfl Iff.rfl

/-- The test of `shutdown` starts a pass. -/
theorem run_start (hpc : s.managerPc = .test) (hstop : s.shutdown = true) :
    (system minNum maxNum).Run s [.manager]
      { s with managerPc := .sleep, passes := s.passes + 1 } :=
  .single (by simp [system, enabled, managerReady, hpc])
    (by simp [system, step, manager, hpc, hstop])

/-- The test of `shutdown` ends the loop. -/
theorem run_leave (hpc : s.managerPc = .test) (hrun : s.shutdown = false) :
    (system minNum maxNum).Run s [.manager] { s with managerPc := .exited } :=
  .single (by simp [system, enabled, managerReady, hpc])
    (by simp [system, step, manager, hpc, hrun])

/-- The destructor waits for the manager, which is in its loop. -/
structure Joining (s : MyThreadPool minNum maxNum) : Prop where
  sound : s.Sound
  destructor : s.destructor = .joinManager
  inLoop : s.managerPc ≠ .exited

namespace Joining

theorem shutdown (h : s.Joining) : s.shutdown = true := h.sound.called.mpr (by simp [h.destructor])

theorem returned (h : s.Joining) : s.constructor = .returned :=
  h.sound.returned_of_destructor (by simp [h.destructor])

theorem created (h : s.Joining) : s.managerPc ≠ .notCreated := by
  intro hnew
  have hc := h.sound.managed.mp hnew
  rw [h.returned] at hc
  cases hc

/-- Nothing has been released. -/
theorem use_eq (h : s.Joining) (r : Resource) : s.use r = .ok () :=
  use_eq_ok_iff.mpr (by simp [h.destructor, Destructor.released])

/-- The destructor stays where it is. -/
theorem step_destructor (h : s.Joining) {a : Label} (hen : s.enabled a)
    (hstep : s.step a = .ok s') : s'.destructor = .joinManager := by
  rw [← h.destructor]
  cases a with
  | worker w => exact (worker_cases hen hstep).onlyWorker.destructor
  | manager => exact (manager_cases hen hstep).destructor_eq
  | construct => exact absurd h.returned hen
  | destroy => exact absurd hen (by simp [enabled, h.destructor, h.inLoop])
  | destroySignal woken => exact absurd hen (by simp [enabled, h.destructor])
  | addTask task =>
    cases hstep
    simp [addTask, h.shutdown]
  | push task =>
    cases (use_bind_eq_ok_iff.mp hstep).2
    rfl
  | signal woken =>
    cases (use_bind_eq_ok_iff.mp hstep).2
    rfl
  | managerSignal woken =>
    obtain ⟨-, -, -, pc, -, -, rfl⟩ := managerSignal_eq_ok hstep hen
    rfl
  | spurious t =>
    cases hstep
    rfl

theorem step (h : s.Joining) {a : Label} (hen : s.enabled a) (hstep : s.step a = .ok s') :
    s'.Joining := by
  refine ⟨h.sound.step hen hstep, h.step_destructor hen hstep, ?_⟩
  cases loop_step h.sound hen hstep with
  | starts hpc hstop heq => simp [heq]
  | leaves hpc hrun => simp [h.shutdown] at hrun
  | keeps hpasses hexited => exact fun hpc => h.inLoop (hexited.mp hpc)

theorem run (h : s.Joining) {bs : List Label} (hrun : (system minNum maxNum).Run s bs t) :
    t.Joining :=
  hrun.invariant h fun _ _ _ ht hen hstep => ht.step hen hstep

end Joining

/-- The destructor joins the manager when it has set the flag. -/
theorem Sound.joining (hs : s.Sound) (hstop : s.shutdown = true) (hloop : s.managerPc ≠ .exited) :
    s.Joining := by
  refine ⟨hs, ?_, hloop⟩
  rcases hs.joined with hd | hd | hpc
  · exact absurd hd (hs.called.mp hstop)
  · exact hd
  · exact absurd hpc hloop

/-- A manager that has not left its loop before `shutdown` is set keeps the destructor at its join
for ever. -/
theorem join_blocked {as bs : List Label} (h : (system minNum maxNum).Run (new minNum maxNum) as s)
    (hstop : s.shutdown = true) (hloop : s.managerPc ≠ .exited)
    (hrun : (system minNum maxNum).Run s bs t) :
    t.destructor = .joinManager ∧ t.managerPc ≠ .exited := by
  have hjoining := ((sound_of_run h).joining hstop hloop).run hrun
  exact ⟨hjoining.destructor, hjoining.inLoop⟩

/-- How many steps a worker takes until it releases the mutex. -/
def Pc.toRelease : Pc → ℕ
  | .testExit => 7
  | .testEmpty => 6
  | .testShutdown => 5
  | .testStop => 4
  | .take => 3
  | .countBusy | .uncount => 2
  | .wait | .unlockExit | .unlockTask | .unlockEnd => 1
  | _ => 0

theorem Pc.toRelease_pos {pc : Pc} (h : pc.inside) : 0 < pc.toRelease := by
  cases pc <;> simp_all [Pc.inside, Pc.toRelease]

/-- The steps of the worker that holds the mutex. -/
def toRelease (s : MyThreadPool minNum maxNum) : ℕ :=
  match s.monitor.holder with
  | some (.worker w) => (s.workers w).pc.toRelease
  | _ => 0

/-- A worker inside the mutex goes on. -/
theorem Joining.worker (h : s.Joining) (hin : (s.workers w).pc.inside) :
    ∃ s', s.ready w ∧ s.worker w = .ok s' := by
  cases hpc : (s.workers w).pc <;> simp only [hpc, Pc.inside] at hin <;>
    exact ⟨_, by simp [ready, hpc], by simp only [MyThreadPool.worker, hpc, h.use_eq]; rfl⟩

/-- It releases the mutex, or comes nearer to it. -/
theorem WorkerStep.toRelease (h : WorkerStep s w s') (hin : (s.workers w).pc.inside) :
    s'.monitor.holder = none ∨
      (s'.monitor = s.monitor ∧ (s'.workers w).pc.toRelease < (s.workers w).pc.toRelease) := by
  cases h with
  | waits | unlocksExit | unlocksTask | unlocksEnd => exact .inl rfl
  | locks hpc | wakes hpc | locksEnd hpc | calls hpc | ends hpc | exits hpc =>
    simp [hpc, Pc.inside] at hin
  | findsNone hpc | findsSome hpc | mustWait hpc | mustStop hpc | leaves hpc | declines hpc
  | goesOn hpc | stops hpc | stays hpc | takes hpc | counts hpc | uncounts hpc =>
    exact .inr ⟨rfl, by simp [goto, set, hpc, Pc.toRelease]⟩

/-- The workers alone take the pool from `s` to `t`, which the manager does not notice. -/
structure SamePass (s t : MyThreadPool minNum maxNum) : Prop where
  joining : t.Joining
  managerPc : t.managerPc = s.managerPc
  passes : t.passes = s.passes

/-- Only a worker holds the mutex that the manager waits for. -/
theorem Sound.holder_worker (hs : s.Sound) (hout : ¬ s.managerPc.inside)
    (hheld : s.monitor.holder ≠ none) :
    ∃ w, s.monitor.holder = some (.worker w) ∧ (s.workers w).pc.inside := by
  obtain ⟨t, ht⟩ := Option.ne_none_iff_exists'.mp hheld
  have hin := (hs.guards t).mpr ht
  cases t with
  | manager => exact absurd hin hout
  | worker w => exact ⟨w, ht, hin⟩

/-- Whoever holds the mutex can release it. -/
theorem Joining.exists_free (h : s.Joining) (hout : ¬ s.managerPc.inside) :
    ∃ bs t, (system minNum maxNum).Run s bs t ∧ s.SamePass t ∧ t.monitor.holder = none := by
  refine System.Run.exists_of_measure toRelease ?_ (⟨h, rfl, rfl⟩ : s.SamePass s)
  intro t ht hheld
  obtain ⟨w, hholder, hin⟩ := ht.joining.sound.holder_worker (by rwa [ht.managerPc]) hheld
  obtain ⟨t', hready, hworker⟩ := ht.joining.worker hin
  have hstep := worker_cases hready hworker
  have hjoining := ht.joining.step (a := .worker w) hready hworker
  refine ⟨[.worker w], t', .single hready hworker, ⟨hjoining, ?_, ?_⟩, ?_⟩
  · rw [hstep.onlyWorker.managerPc, ht.managerPc]
  · rw [hstep.onlyWorker.passes, ht.passes]
  · rcases hstep.toRelease hin with hfree | ⟨hmonitor, hlt⟩
    · simpa [MyThreadPool.toRelease, hfree, hholder] using Pc.toRelease_pos hin
    · simpa [MyThreadPool.toRelease, hmonitor, hholder] using hlt

/-- How many steps the manager takes at most until it tests `shutdown` again. -/
def ManagerPc.toTest (maxNum : ℕ) : ManagerPc → ℕ
  | .sleep => maxNum + 16
  | .lockRead => maxNum + 15
  | .read => maxNum + 14
  | .unlockRead _ _ => maxNum + 13
  | .lockGrow => maxNum + 12
  | .grow i _ => maxNum - i + 11
  | .unlockGrow => 10
  | .readBusy => 9
  | .testBusy _ => 8
  | .testLive => 7
  | .lockShrink => 6
  | .setExit => 5
  | .unlockShrink => 4
  | .signal i => NUMBER - i + 1
  | .notCreated | .test | .exited => 0

/-- The manager's own step brings it nearer to its test, when the mutex is free if it takes it. -/
theorem Joining.manager (h : s.Joining) (hloop : s.managerPc ≠ .test)
    (hsignal : ∀ i, s.managerPc ≠ .signal i)
    (hfree : s.managerPc.inside ∨ s.monitor.holder = none) : ∃ s', s.managerReady ∧
      s.manager = .ok s' ∧ s'.managerPc.toTest maxNum < s.managerPc.toTest maxNum := by
  cases hpc : s.managerPc <;> simp only [managerReady, MyThreadPool.manager, hpc, h.use_eq]
  case notCreated => exact absurd hpc h.created
  case exited => exact absurd hpc h.inLoop
  case test => exact absurd hpc hloop
  case signal i => exact absurd hpc (hsignal i)
  case lockRead | lockGrow | lockShrink =>
    have hacquirable : s.Acquirable := .inl (hfree.resolve_left (by simp [hpc, ManagerPc.inside]))
    exact ⟨_, hacquirable, rfl, by simp [ManagerPc.toTest]⟩
  case grow i counter =>
    split_ifs with hround hslot
    · obtain ⟨hi, -⟩ := List.getElem?_eq_some_iff.mp hslot
      simp only [createThread, hi, if_true]
      exact ⟨_, trivial, rfl, by simp only [ManagerPc.toTest]; omega⟩
    · exact ⟨_, trivial, rfl, by simp only [ManagerPc.toTest]; omega⟩
    · exact ⟨_, trivial, rfl, by simp [ManagerPc.toTest]⟩
  case unlockRead =>
    refine ⟨_, trivial, rfl, ?_⟩
    split_ifs <;> simp only [ManagerPc.toTest] <;> omega
  case testBusy | testLive =>
    refine ⟨_, trivial, rfl, ?_⟩
    split_ifs <;> simp [ManagerPc.toTest]
  all_goals exact ⟨_, trivial, rfl, by simp [ManagerPc.toTest, NUMBER]⟩

/-- A signal brings it nearer, whomever it wakes. -/
theorem Joining.managerSignal (h : s.Joining) {i : ℕ} (hpc : s.managerPc = .signal i) :
    ∃ s', s.enabled (.managerSignal s.monitor.blocked) ∧
      s.managerSignal s.monitor.blocked = .ok s' ∧
        s'.managerPc.toTest maxNum < s.managerPc.toTest maxNum := by
  simp only [enabled, MyThreadPool.managerSignal, hpc, h.use_eq]
  refine ⟨_, ⟨subset_rfl, id⟩, rfl, ?_⟩
  split_ifs with hmore
  · simp only [ManagerPc.toTest]
    omega
  · simp [ManagerPc.toTest]

/-- No step but the test of `shutdown` starts a pass. -/
theorem Joining.passes_eq (h : s.Joining) {a : Label} (hen : s.enabled a)
    (hstep : s.step a = .ok s') (hpc : s.managerPc ≠ .test) : s'.passes = s.passes := by
  cases loop_step h.sound hen hstep with
  | starts htest => exact absurd htest hpc
  | leaves htest => exact absurd htest hpc
  | keeps hpasses => exact hpasses

/-- Whatever the manager is at, it can come nearer to its test. -/
theorem Joining.exists_nearer (h : s.Joining) (hpc : s.managerPc ≠ .test) : ∃ bs t,
    (system minNum maxNum).Run s bs t ∧ (t.Joining ∧ t.passes = s.passes) ∧
      t.managerPc.toTest maxNum < s.managerPc.toTest maxNum := by
  by_cases hsignal : ∃ i, s.managerPc = .signal i
  · obtain ⟨i, hi⟩ := hsignal
    obtain ⟨t, hen, hstep, hlt⟩ := h.managerSignal hi
    have hpasses := h.passes_eq (a := .managerSignal s.monitor.blocked) hen hstep hpc
    have hjoining := h.step (a := .managerSignal s.monitor.blocked) hen hstep
    exact ⟨[.managerSignal s.monitor.blocked], t, .single hen hstep, ⟨hjoining, hpasses⟩, hlt⟩
  · push Not at hsignal
    obtain ⟨bs, u, hrun, hu, hfree⟩ : ∃ bs u, (system minNum maxNum).Run s bs u ∧ s.SamePass u ∧
        (u.managerPc.inside ∨ u.monitor.holder = none) := by
      by_cases hin : s.managerPc.inside
      · exact ⟨[], s, .nil, ⟨h, rfl, rfl⟩, .inl hin⟩
      · obtain ⟨bs, u, hrun, hu, hfree⟩ := h.exists_free hin
        exact ⟨bs, u, hrun, hu, .inr hfree⟩
    rw [← hu.managerPc] at hpc hsignal
    obtain ⟨t, hready, hstep, hlt⟩ := hu.joining.manager hpc hsignal hfree
    have hpasses := hu.joining.passes_eq (a := .manager) hready hstep hpc
    have hjoining := hu.joining.step (a := .manager) hready hstep
    refine ⟨bs ++ [.manager], t, hrun.snoc (a := Label.manager) hready hstep, ⟨hjoining, ?_⟩, ?_⟩
    · rw [hpasses, hu.passes]
    · rwa [← hu.managerPc]

/-- A pass can be completed. -/
theorem Joining.exists_test (h : s.Joining) : ∃ bs t, (system minNum maxNum).Run s bs t ∧
    (t.Joining ∧ t.passes = s.passes) ∧ t.managerPc = .test := by
  refine System.Run.exists_of_measure (fun t => t.managerPc.toTest maxNum) ?_ ⟨h, rfl⟩
  intro t ⟨ht, hpasses⟩ hpc
  rw [← hpasses]
  exact ht.exists_nearer hpc

/-- And the next one is started. -/
theorem Joining.exists_start (h : s.Joining) : ∃ bs t, (system minNum maxNum).Run s bs t ∧
    t.Joining ∧ t.passes = s.passes + 1 := by
  obtain ⟨bs, t, hrun, ⟨ht, hpasses⟩, hpc⟩ := h.exists_test
  have hstart := run_start hpc ht.shutdown
  refine ⟨bs ++ [.manager], _, hrun.append hstart, ht.run hstart, ?_⟩
  rw [← hpasses]

/-- A manager that is in its loop when the pool is shut down goes on for as many passes as one
likes. -/
theorem Joining.exists_passes (h : s.Joining) (n : ℕ) : ∃ bs t,
    (system minNum maxNum).Run s bs t ∧ t.Joining ∧ t.passes = s.passes + n := by
  induction n with
  | zero => exact ⟨[], s, .nil, h, rfl⟩
  | succ n ih =>
    obtain ⟨bs, t, hrun, ht, hpasses⟩ := ih
    obtain ⟨cs, u, hnext, hu, hstart⟩ := ht.exists_start
    refine ⟨bs ++ cs, u, hrun.append hnext, hu, ?_⟩
    rw [hstart, hpasses, Nat.add_assoc]

/-- No pass is started before `shutdown` is set. -/
theorem passes_eq_zero {as : List Label} (h : (system minNum maxNum).Run (new minNum maxNum) as s)
    (hrun : s.shutdown = false) : s.passes = 0 := by
  have hboth := h.invariant (P := fun s => s.Sound ∧ (s.shutdown = false → s.passes = 0))
    ⟨sound_new _ _, fun _ => rfl⟩ (fun t a t' ht hen hstep => ?_)
  · exact hboth.2 hrun
  · refine ⟨ht.1.step hen hstep, fun hrun' => ?_⟩
    have hzero := ht.2 (step_shutdown hen hstep hrun')
    cases loop_step ht.1 hen hstep with
    | starts hpc hstop heq => simp [heq, hstop] at hrun'
    | leaves hpc hrun heq => rw [heq, ← hzero]
    | keeps hpasses => rw [hpasses, hzero]

/-- Where `shutdown` was set no pass had been started. -/
theorem exists_shutdown {as : List Label} (h : (system minNum maxNum).Run (new minNum maxNum) as s)
    (hstop : s.shutdown = true) : ∃ pre post t, pre ++ post = as ∧
      (system minNum maxNum).Run (new minNum maxNum) pre t ∧ (system minNum maxNum).Run t post s ∧
        t.shutdown = true ∧ t.passes = 0 := by
  induction h with
  | nil => cases hstop
  | @snoc as s s' a run enabled step ih =>
    by_cases hset : s.shutdown = true
    · obtain ⟨pre, post, t, rfl, hpre, hpost, ht⟩ := ih hset
      exact ⟨pre, post ++ [a], t, by simp, hpre, hpost.snoc enabled step, ht⟩
    · refine ⟨as ++ [a], [], s', by simp, run.snoc enabled step, .nil, hstop, ?_⟩
      have hzero := passes_eq_zero run (Bool.eq_false_of_not_eq_true hset)
      cases loop_step (sound_of_run run) enabled step with
      | starts hpc hstop => exact absurd hstop hset
      | leaves hpc hrun heq => rw [heq, ← hzero]
      | keeps hpasses => rw [hpasses, hzero]

/-- While the manager has tested `shutdown` at most once, and where it was set, it is in its
loop. -/
theorem once_of_run {as : List Label}
    (h : ((system minNum maxNum).restrict TestsOnce).Run (new minNum maxNum) as s) :
    s.managerPc ≠ .exited ∧ s.passes ≤ 1 := by
  have hboth := h.invariant (P := fun s => s.Sound ∧ s.managerPc ≠ .exited ∧ s.passes ≤ 1)
    ⟨sound_new _ _, by simp [new], by simp [new]⟩ (fun t a t' ht hen hstep => ?_)
  · exact hboth.2
  · obtain ⟨hsound, hpc, hpasses⟩ := ht
    refine ⟨hsound.step hen.1 hstep, ?_⟩
    cases loop_step hsound hen.1 hstep with
    | starts htest hstop heq =>
      have hfirst := (hen.2 htest).2
      rw [heq]
      exact ⟨by simp, by simp [hfirst]⟩
    | leaves htest hrun =>
      have hstop := (hen.2 htest).1
      simp [hrun] at hstop
    | keeps heq hexited => exact ⟨fun h => hpc (hexited.mp h), by rwa [heq]⟩

theorem KeepsAdapting.of_meets {as : List Label}
    (h : (system minNum maxNum).Meets TestsOnce (new minNum maxNum) as) :
    KeepsAdapting minNum maxNum as := by
  have honce (pre : List Label) (t : MyThreadPool minNum maxNum) (hpre : pre <+: as)
      (hrun : (system minNum maxNum).Run (new minNum maxNum) pre t) :
      t.managerPc ≠ .exited ∧ t.passes ≤ 1 :=
    once_of_run (System.Run.restrict_iff.mpr ⟨hrun, h.of_prefix hpre⟩)
  constructor
  · intro pre t hpre hrun hpc
    exact absurd hpc (honce pre t hpre hrun).1
  · intro pre post t u hpre hrun hrest _
    have hle := (honce _ u hpre (hrun.append hrest)).2
    omega

/-- The manager's test, in a run that goes on behind it. -/
theorem KeepsAdapting.testsOnce {as pre : List Label} (h : KeepsAdapting minNum maxNum as)
    (hpre : pre ++ [.manager] <+: as) (ht : (system minNum maxNum).Run (new minNum maxNum) pre t)
    (hpc : t.managerPc = .test) : t.shutdown = true ∧ t.passes = 0 := by
  by_cases hstop : t.shutdown = true
  · refine ⟨hstop, ?_⟩
    obtain ⟨before, after, t₀, rfl, hbefore, hafter, hset, hzero⟩ := exists_shutdown ht hstop
    rw [List.append_assoc] at hpre
    have hle := h.stops before (after ++ [.manager]) t₀ _ hpre hbefore
      (hafter.append (run_start hpc hstop)) hset
    simp only at hle
    omega
  · have hrun := Bool.eq_false_of_not_eq_true hstop
    have hset := h.left _ _ hpre (ht.append (run_leave hpc hrun)) rfl
    exact absurd hset hstop

theorem KeepsAdapting.meets {as : List Label} (h : KeepsAdapting minNum maxNum as) :
    (system minNum maxNum).Meets TestsOnce (new minNum maxNum) as := by
  intro pre a t hpre ht
  cases a with
  | manager => exact h.testsOnce hpre ht
  | _ => trivial

/-- Before the flag is set the manager can leave its loop, if it has not been there yet. -/
theorem exists_left (hs : s.Sound) (hrun : s.shutdown = false) (hloop : s.managerPc ≠ .exited) :
    ∃ bs t, (system minNum maxNum).Run s bs t ∧ t.managerPc = .exited ∧ t.shutdown = false := by
  have hcalm := hs.calm hrun
  cases hpc : s.managerPc
  case test => exact ⟨_, _, run_leave hpc hrun, rfl, hrun⟩
  case notCreated =>
    have hconstructor := hs.managed.mp hpc
    have hfirst : (system minNum maxNum).Run s [.construct]
        { s with managerPc := .test, constructor := .createWorker 0 } :=
      .single (by simp [system, enabled, hconstructor])
        (by simp [system, step, construct, hconstructor])
    exact ⟨_, _, hfirst.append (run_leave rfl hrun), rfl, hrun⟩
  case exited => exact absurd hpc hloop
  all_goals simp [hpc, ManagerPc.Looping] at hcalm

/-- A run keeps to it exactly while the manager has not tested `shutdown` before it was set nor
twice after it, and whatever has happened so far there is a way on that does not. -/
theorem keeps_adapting_iff {as : List Label}
    (h : (system minNum maxNum).Run (new minNum maxNum) as s) :
    (KeepsAdapting minNum maxNum as ↔
      (system minNum maxNum).Meets TestsOnce (new minNum maxNum) as) ∧
    ∃ bs t, (system minNum maxNum).Run s bs t ∧ ¬ KeepsAdapting minNum maxNum (as ++ bs) := by
  refine ⟨⟨KeepsAdapting.meets, .of_meets⟩, ?_⟩
  by_cases hkeeps : KeepsAdapting minNum maxNum as
  · have hloop := (once_of_run (System.Run.restrict_iff.mpr ⟨h, hkeeps.meets⟩)).1
    have hs := sound_of_run h
    cases hstop : s.shutdown with
    | false =>
      obtain ⟨bs, t, hrest, hpc, hrun⟩ := exists_left hs hstop hloop
      refine ⟨bs, t, hrest, fun hbad => ?_⟩
      have hset := hbad.left _ t (List.prefix_refl _) (h.append hrest) hpc
      simp [hrun] at hset
    | true =>
      obtain ⟨bs, t, hrest, -, hpasses⟩ := (hs.joining hstop hloop).exists_passes 2
      refine ⟨bs, t, hrest, fun hbad => ?_⟩
      have hle := hbad.stops as bs s t (List.prefix_refl _) h hrest hstop
      omega
  · exact ⟨[], s, .nil, by rwa [List.append_nil]⟩

/-- The flag is set before the manager's first test. -/
theorem keeps_adapting_until : KeepsAdapting 1 2 [.construct, .construct, .construct, .destroy] ∧
    ∃ (s : MyThreadPool 1 2) (bs : List Label) (t : MyThreadPool 1 2),
      s.shutdown = true ∧ (system 1 2).Run s bs t ∧
        ¬ KeepsAdapting 1 2 ([.construct, .construct, .construct, .destroy] ++ bs) := by
  obtain ⟨s, h, hstop⟩ : ∃ s, (system 1 2).Run (new 1 2)
      [.construct, .construct, .construct, .destroy] s ∧ s.shutdown = true :=
    System.Run.exists_of_exec (by decide +kernel)
  obtain ⟨hiff, bs, t, hrest, hbad⟩ := keeps_adapting_iff h
  refine ⟨hiff.mpr ?_, s, bs, t, hstop, hrest, hbad⟩
  intro pre a t hpre _
  have ha := hpre.subset (List.mem_append_right pre (List.mem_singleton_self a))
  cases a with
  | manager => simp at ha
  | _ => trivial

/-- The manager tests the flag when the pool has just been built, and is gone. -/
theorem not_keeps_adapting : ¬ ∀ (minNum maxNum : ℕ) (as : List Label)
    (s : MyThreadPool minNum maxNum), (system minNum maxNum).Run (new minNum maxNum) as s →
      KeepsAdapting minNum maxNum as := by
  intro hall
  obtain ⟨s, h, hpc, hrun⟩ : ∃ s, (system 1 2).Run (new 1 2)
      [.construct, .construct, .construct, .manager] s ∧ s.managerPc = .exited ∧
        s.shutdown = false := System.Run.exists_of_exec (by decide +kernel)
  have hset := (hall 1 2 _ s h).left _ s (List.prefix_refl _) h hpc
  simp [hrun] at hset

end LxcHttpServer.MyThreadPool
