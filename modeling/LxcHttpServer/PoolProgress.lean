import LxcHttpServer.PoolInvariants
import Mathlib.Algebra.BigOperators.Group.Finset.Piecewise
import Mathlib.Algebra.Order.BigOperators.Group.Finset

/-!
# What the threads of the pool can still do

While the pool runs, the notifications that are outstanding and the threads themselves are
enough to carry out every task that was appended; a thread that only wakes up for no reason is
never needed. Once the destructor has cleared `running`, the thread that holds the mutex may
still take one task, and all others stay in the list.
-/
namespace LxcHttpServer.ThreadPool
open Monitors PartialRuns

variable {n : ℕ} {s s' : ThreadPool n} {w : Fin n}

/-- The steps to the place where a task is taken from the list, if there is one. -/
def Pc.rank : Pc → ℕ
  | .exited => 0
  | .popFront => 1
  | .front => 2
  | .testStop => 3
  | .testEmpty | .testRunning | .wait => 4
  | .lock | .waiting => 5
  | .loop => 6
  | .inTask => 7
  | .call => 8
  | .unlock => 9

/-- A thread that is blocked is one step further away. -/
def rank (s : ThreadPool n) (w : Fin n) : ℕ :=
  (s.workers w).pc.rank + if w ∈ s.monitor.blocked then 1 else 0

/-- What is left to do; taking a task sends a thread back to the beginning. -/
def work (s : ThreadPool n) : ℕ := 10 * s.workList.length + ∑ w, s.rank w

/-- A step of the pool's own threads, or a notification that a caller of `appendFd` still
owes. -/
def Label.IsOwn : Label n → Prop
  | .worker _ | .notify _ => True
  | .append _ | .spurious _ | .stop | .broadcast | .join => False

def ownSteps (n : ℕ) : System (ThreadPool n) (Label n) Fault :=
  (system n).restrict fun _ a => a.IsOwn

/-- One thread comes closer, and no other goes further away. -/
theorem sum_lt_of_lt {f g : Fin n → ℕ} (hself : g w < f w) (hothers : ∀ u, u ≠ w → g u ≤ f u) :
    ∑ u, g u < ∑ u, f u := by
  have hle : ∀ u ∈ Finset.univ, g u ≤ f u := by
    intro u _
    by_cases hu : u = w
    · rw [hu]
      exact hself.le
    · exact hothers u hu
  exact Finset.sum_lt_sum hle ⟨w, Finset.mem_univ w, hself⟩

/-- The thread comes closer, and the others stay where they are. -/
theorem work_lt (h : WorkerStep s w s') (hblocked : s'.monitor.blocked = s.monitor.blocked)
    (hlist : s'.workList = s.workList)
    (hrank : (s'.workers w).pc.rank < (s.workers w).pc.rank) : s'.work < s.work := by
  have hsum : ∑ u, s'.rank u < ∑ u, s.rank u := by
    apply sum_lt_of_lt (w := w)
    · rw [rank, rank, hblocked]
      omega
    · intro u hu
      rw [rank, rank, h.workers_of_ne hu, hblocked]
  rw [work, work, hlist]
  omega

/-- A task is taken; the thread has nine steps before it comes back. -/
theorem work_lt_popFront {taskdata : TaskData} {workList : List TaskData}
    (hpc : (s.workers w).pc = .popFront) (hlist : s.workList = taskdata :: workList)
    (hs' : s' = { s.goto w .unlock with
      workList := workList
      dequeued := s.dequeued ++ [(w, taskdata)] }) : s'.work < s.work := by
  have hrank : ∀ u, s'.rank u = s.rank u + if u = w then 8 else 0 := by
    intro u
    have hblocked : s'.monitor.blocked = s.monitor.blocked := by rw [hs']; rfl
    rw [rank, rank, hblocked]
    by_cases hu : u = w
    · have hpc' : (s'.workers w).pc = .unlock := by simp [hs', goto]
      rw [if_pos hu, hu, hpc, hpc', Pc.rank, Pc.rank]
      omega
    · have hsame : s'.workers u = s.workers u := by simp [hs', goto, hu]
      rw [if_neg hu, hsame]
      omega
  have hsum : ∑ u, s'.rank u = ∑ u, s.rank u + 8 := by
    simp only [hrank, Finset.sum_add_distrib]
    simp
  have hlength : s'.workList.length + 1 = s.workList.length := by
    rw [hs', hlist, List.length_cons]
  rw [work, work, hsum]
  omega

/-- What the way on rests on. -/
structure Running (s : ThreadPool n) : Prop where
  inv : s.Inv
  running : s.running = true
  present : ∀ w, (s.workers w).pc ≠ .exited

/-- No thread has left a pool that runs. -/
theorem present_step (hs : s.running = true → ∀ w, (s.workers w).pc ≠ .exited) {a : Label n}
    (hen : s.enabled a) (h : s.step a = .ok s') (hrun : s'.running = true) :
    ∀ w, (s'.workers w).pc ≠ .exited := by
  cases a with
  | worker w =>
    have hstep := worker_cases hen h
    rw [hstep.running_eq] at hrun
    intro u
    by_cases hu : u = w
    · subst hu
      cases hstep with
      | ends hpc hstop | returns hpc hstop => simp [hstop] at hrun
      | _ => simp [goto]
    · rw [hstep.workers_of_ne hu]
      exact hs hrun u
  | stop =>
    cases h
    cases hrun
  | append | notify | spurious | broadcast =>
    cases h
    exact hs hrun
  | join =>
    simp only [ThreadPool.step] at h
    split at h <;> cases h <;> exact hs hrun

theorem present_of_run {as : List (Label n)} (h : (system n).Run (new n) as s) :
    s.running = true → ∀ w, (s.workers w).pc ≠ .exited := by
  apply h.invariant (P := fun t => t.running = true → ∀ w, (t.workers w).pc ≠ .exited)
  · intro _ w
    simp [new]
  · intro t a t' ht hen hstep
    exact present_step ht hen hstep

theorem Running.step (hs : s.Running) {a : Label n} (hen : s.enabled a) (hown : a.IsOwn)
    (h : s.step a = .ok s') : s'.Running ∧ s'.appended = s.appended := by
  have hsame : s'.running = s.running ∧ s'.appended = s.appended := by
    cases a with
    | worker w =>
      have hstep := worker_cases hen h
      refine ⟨hstep.running_eq, ?_⟩
      cases hstep <;> rfl
    | notify woken =>
      cases h
      exact ⟨rfl, rfl⟩
    | append | spurious | stop | broadcast | join => exact hown.elim
  have hrun := hsame.1.trans hs.running
  exact ⟨⟨hs.inv.step hen h, hrun, present_step (fun _ => hs.present) hen h hrun⟩, hsame.2⟩

/-- While the mutex is held its holder can take a step, and else every thread that is not
blocked. -/
theorem Running.exists_ready (hs : s.Running) (hblocked : s.monitor.blocked ≠ Finset.univ) :
    ∃ w, s.ready w := by
  cases hholder : s.monitor.holder with
  | some w =>
    have hin : (s.workers w).pc.inside := (hs.inv.guards w).mpr hholder
    refine ⟨w, ?_⟩
    revert hin
    cases hpc : (s.workers w).pc <;> simp [Pc.inside, ready, hpc]
  | none =>
    obtain ⟨w, hw⟩ : ∃ w, w ∉ s.monitor.blocked := by
      by_contra hnone
      push Not at hnone
      exact hblocked (Finset.eq_univ_iff_forall.mpr hnone)
    have hpresent := hs.present w
    refine ⟨w, ?_⟩
    revert hpresent
    cases hpc : (s.workers w).pc <;> simp [ready, hpc, hholder, hw]

/-- While there are tasks, a thread that can take a step comes closer by it. -/
theorem Running.worker_lt (hs : s.Running) (hready : s.ready w) (hlist : s.workList ≠ []) :
    ∃ s', s.worker w = .ok s' ∧ s'.work < s.work := by
  cases hstep : s.worker w with
  | error e => exact absurd hstep (hs.inv.no_fault (.worker w) e)
  | ok s' =>
    refine ⟨s', rfl, ?_⟩
    have hasserts := hs.inv.asserts w
    have hcases := worker_cases hready hstep
    cases hcases with
    | ends hpc hstop | mustStop hpc hstop | returns hpc hstop => simp [hs.running] at hstop
    | findsNone hpc hnone => exact absurd hnone hlist
    | mustWait hpc hrun | wait hpc =>
      simp only [Worker.Asserts, hpc] at hasserts
      exact absurd hasserts hlist
    | popFront hpc hcons => exact work_lt_popFront hpc hcons rfl
    | lock hpc hfree =>
      refine work_lt (.lock hpc hfree) rfl rfl ?_
      rcases hpc with hpc | hpc <;> simp [goto, hpc, Pc.rank]
    | goesOn hpc hrun => exact work_lt (.goesOn hpc hrun) rfl rfl (by simp [hpc, Pc.rank])
    | findsSome hpc hsome =>
      exact work_lt (.findsSome hpc hsome) rfl rfl (by simp [goto, hpc, Pc.rank])
    | stays hpc hrun => exact work_lt (.stays hpc hrun) rfl rfl (by simp [goto, hpc, Pc.rank])
    | front hpc hcons => exact work_lt (.front hpc hcons) rfl rfl (by simp [hpc, Pc.rank])
    | unlock hpc => exact work_lt (.unlock hpc) rfl rfl (by simp [goto, hpc, Pc.rank])
    | call hpc => exact work_lt (.call hpc) rfl rfl (by simp [goto, hpc, Pc.rank])
    | taskEnds hpc => exact work_lt (.taskEnds hpc) rfl rfl (by simp [goto, hpc, Pc.rank])

/-- A blocked thread that is woken comes closer. -/
theorem work_wake_lt (hw : w ∈ s.monitor.blocked) : (s.notifyOneThread {w}).work < s.work := by
  have hsum : ∑ u, (s.notifyOneThread {w}).rank u < ∑ u, s.rank u := by
    apply sum_lt_of_lt (w := w)
    · simp [rank, notifyOneThread, hw]
    · intro u hu
      simp [rank, notifyOneThread, hu]
  have hlist : (s.notifyOneThread {w}).workList = s.workList := rfl
  rw [work, work, hlist]
  omega

/-- While a task is left, a thread can come closer, or else all of them are blocked and a caller
of `appendFd` is about to wake one. -/
theorem Running.advance (hs : s.Running) (hn : 0 < n) (hlist : s.workList ≠ []) :
    ∃ a s', s.enabled a ∧ a.IsOwn ∧ s.step a = .ok s' ∧ s'.work < s.work := by
  by_cases hall : s.monitor.blocked = Finset.univ
  · have hcovered := hs.inv.covered hn hall
    have hpos := List.length_pos_iff.mpr hlist
    have hblocked : (⟨0, hn⟩ : Fin n) ∈ s.monitor.blocked := hall ▸ Finset.mem_univ _
    refine ⟨.notify {⟨0, hn⟩}, _, ⟨by omega, ?_⟩, trivial, rfl, work_wake_lt hblocked⟩
    exact ⟨Finset.singleton_subset_iff.mpr hblocked, fun _ => Finset.singleton_nonempty _⟩
  · obtain ⟨w, hready⟩ := hs.exists_ready hall
    obtain ⟨s', hstep, hlt⟩ := hs.worker_lt hready hlist
    exact ⟨.worker w, s', hready, trivial, hstep, hlt⟩

/-- The steps to `cond.wait` where the list is empty; a thread that is to take a task does not
meet that. -/
def Pc.waitRank : Pc → ℕ
  | .exited | .popFront | .front | .testStop => 0
  | .wait => 1
  | .testRunning => 2
  | .testEmpty => 3
  | .lock | .waiting => 4
  | .loop => 5
  | .inTask => 6
  | .call => 7
  | .unlock => 8

def waitRank (s : ThreadPool n) (w : Fin n) : ℕ :=
  if w ∈ s.monitor.blocked then 0 else (s.workers w).pc.waitRank

/-- The thread comes closer to `cond.wait`, and the others stay where they are. -/
theorem sum_waitRank_lt (h : WorkerStep s w s')
    (hblocked : s'.monitor.blocked = s.monitor.blocked) (hw : w ∉ s.monitor.blocked)
    (hrank : (s'.workers w).pc.waitRank < (s.workers w).pc.waitRank) :
    ∑ u, s'.waitRank u < ∑ u, s.waitRank u := by
  apply sum_lt_of_lt (w := w)
  · simpa [waitRank, hblocked, hw] using hrank
  · intro u hu
    rw [waitRank, waitRank, h.workers_of_ne hu, hblocked]

/-- Without a task to take, a thread that can take a step comes closer to `cond.wait` by it. -/
theorem Running.worker_rests (hs : s.Running) (hready : s.ready w) (hlist : s.workList = []) :
    ∃ s', s.worker w = .ok s' ∧ s'.workList = [] ∧ ∑ u, s'.waitRank u < ∑ u, s.waitRank u := by
  cases hstep : s.worker w with
  | error e => exact absurd hstep (hs.inv.no_fault (.worker w) e)
  | ok s' =>
    refine ⟨s', rfl, ?_⟩
    have hasserts := hs.inv.asserts w
    have hw := hs.inv.awake hready
    have hcases := worker_cases hready hstep
    cases hcases with
    | ends hpc hstop | mustStop hpc hstop | returns hpc hstop => simp [hs.running] at hstop
    | findsSome hpc hsome => exact absurd hlist hsome
    | stays hpc hrun => simp [Worker.Asserts, hpc, hlist, hrun] at hasserts
    | front hpc hcons | popFront hpc hcons => simp [hlist] at hcons
    | wait hpc =>
      refine ⟨hlist, sum_lt_of_lt (w := w) ?_ ?_⟩
      · simp [waitRank, Monitor.wait, hw, hpc, Pc.waitRank]
      · intro u hu
        simp [waitRank, goto, Monitor.wait, hu]
    | lock hpc hfree =>
      refine ⟨hlist, sum_waitRank_lt (.lock hpc hfree) rfl hw ?_⟩
      rcases hpc with hpc | hpc <;> simp [goto, hpc, Pc.waitRank]
    | goesOn hpc hrun =>
      exact ⟨hlist, sum_waitRank_lt (.goesOn hpc hrun) rfl hw (by simp [hpc, Pc.waitRank])⟩
    | findsNone hpc hnone =>
      exact ⟨hlist, sum_waitRank_lt (.findsNone hpc hnone) rfl hw
        (by simp [goto, hpc, Pc.waitRank])⟩
    | mustWait hpc hrun =>
      exact ⟨hlist, sum_waitRank_lt (.mustWait hpc hrun) rfl hw
        (by simp [goto, hpc, Pc.waitRank])⟩
    | unlock hpc =>
      exact ⟨hlist, sum_waitRank_lt (.unlock hpc) rfl hw (by simp [goto, hpc, Pc.waitRank])⟩
    | call hpc =>
      exact ⟨hlist, sum_waitRank_lt (.call hpc) rfl hw (by simp [goto, hpc, Pc.waitRank])⟩
    | taskEnds hpc =>
      exact ⟨hlist, sum_waitRank_lt (.taskEnds hpc) rfl hw (by simp [goto, hpc, Pc.waitRank])⟩

/-- A history and its parts hold each task equally often. -/
theorem count_tasksOf (w : Fin n) (t : TaskData) (history : List (Fin n × TaskData)) :
    (tasksOf w history).count t = history.count (w, t) := by
  induction history with
  | nil => rfl
  | cons e history ih =>
    have hsplit : tasksOf w (e :: history) = tasksOf w [e] ++ tasksOf w history :=
      tasksOf_append w [e] history
    obtain ⟨u, task⟩ := e
    rw [hsplit, List.count_append, ih, List.count_cons]
    by_cases hw : u = w
    · rw [hw, tasksOf_self, List.count_singleton]
      simp [add_comm]
    · simp [tasksOf_of_ne (Ne.symm hw), hw]

/-- Where the list is empty and all threads wait, the tasks taken are the tasks passed on. -/
theorem Inv.perm_called (hinv : s.Inv) (hlist : s.workList = [])
    (hrest : s.monitor.blocked = Finset.univ) : (s.called.map Prod.snd).Perm s.appended := by
  have hperm : s.called.Perm s.dequeued := by
    rw [List.perm_iff_count]
    rintro ⟨w, t⟩
    have hw := hinv.handedOn w
    have hpc := hinv.waiting w (hrest ▸ Finset.mem_univ w)
    have hheld : (s.workers w).held = [] := by rw [Worker.held, hpc]
    rw [hheld, List.append_nil] at hw
    rw [← count_tasksOf, ← count_tasksOf, hw]
  have hqueue := hinv.queue
  rw [hlist, List.append_nil] at hqueue
  rw [hqueue]
  exact hperm.map Prod.snd

/-- Whatever has happened to a running pool, its threads and the notifications still owed are
enough to pass every task appended so far to the task function, once for each time it was
appended, and to come to a state in which every thread is blocked in `cond.wait`. -/
theorem all_carried_out (hn : 0 < n) {as : List (Label n)} (h : (system n).Run (new n) as s)
    (hrun : s.running = true) : ∃ bs s', (ownSteps n).Run s bs s' ∧ s'.workList = [] ∧
      s'.appended = s.appended ∧ (s'.called.map Prod.snd).Perm s.appended ∧
      ∀ w, w ∈ s'.monitor.blocked ∧ (s'.workers w).pc = .waiting := by
  have hs : s.Running := ⟨inv_of_run h, hrun, present_of_run h hrun⟩
  have htaken : ∃ bs t, (ownSteps n).Run s bs t ∧ (t.Running ∧ t.appended = s.appended) ∧
      t.workList = [] := by
    apply System.Run.exists_of_progress (P := fun t => t.Running ∧ t.appended = s.appended) work
    · intro t ht hleft
      obtain ⟨a, t', hen, hown, hstep, hlt⟩ := ht.1.advance hn hleft
      have ht' := ht.1.step hen hown hstep
      exact ⟨[a], t', .single ⟨hen, hown⟩ hstep, ⟨ht'.1, ht'.2.trans ht.2⟩, .inr hlt⟩
    · exact ⟨hs, rfl⟩
  obtain ⟨bs, t, hway, ⟨ht, happended⟩, hlist⟩ := htaken
  have hrests : ∃ cs s', (ownSteps n).Run t cs s' ∧
      (s'.Running ∧ s'.appended = s.appended ∧ s'.workList = []) ∧
      s'.monitor.blocked = Finset.univ := by
    apply System.Run.exists_of_progress
      (P := fun u : ThreadPool n => u.Running ∧ u.appended = s.appended ∧ u.workList = [])
      (fun u => ∑ w, u.waitRank w)
    · intro u hu hleft
      obtain ⟨w, hready⟩ := hu.1.exists_ready hleft
      obtain ⟨u', hstep, hlist', hlt⟩ := hu.1.worker_rests hready hu.2.2
      have hu' := hu.1.step (a := .worker w) hready trivial hstep
      exact ⟨[.worker w], u', .single ⟨hready, trivial⟩ hstep,
        ⟨hu'.1, hu'.2.trans hu.2.1, hlist'⟩, .inr hlt⟩
    · exact ⟨ht, happended, hlist⟩
  obtain ⟨cs, s', hrest, ⟨hs', happended', hlist'⟩, hblocked⟩ := hrests
  refine ⟨bs ++ cs, s', hway.append hrest, hlist', happended', ?_, ?_⟩
  · rw [← happended']
    exact hs'.inv.perm_called hlist' hblocked
  · intro w
    have hw : w ∈ s'.monitor.blocked := hblocked ▸ Finset.mem_univ w
    exact ⟨hw, hs'.inv.waiting w hw⟩

/-- Two threads are blocked, two tasks come, and only one of the signals has been given. -/
theorem all_carried_out_blocked : ∃ s : ThreadPool 2,
    s.monitor.blocked = {1} ∧ s.workList = [⟨7, none⟩, ⟨8, none⟩] ∧
      ∃ bs s', (ownSteps 2).Run s bs s' ∧ s'.workList = [] ∧
        s'.appended = s.appended ∧ (s'.called.map Prod.snd).Perm s.appended ∧
        ∀ w, w ∈ s'.monitor.blocked ∧ (s'.workers w).pc = .waiting := by
  obtain ⟨s, h, hrun, hblocked, hlist⟩ : ∃ s, (system 2).Run (new 2)
      [.worker 0, .worker 0, .worker 0, .worker 0, .worker 0, .worker 1, .worker 1, .worker 1,
        .worker 1, .worker 1, .append ⟨7, none⟩, .append ⟨8, none⟩, .notify {0}] s ∧
      s.running = true ∧ s.monitor.blocked = {1} ∧ s.workList = [⟨7, none⟩, ⟨8, none⟩] :=
    System.Run.exists_of_exec (by decide +kernel)
  exact ⟨s, hblocked, hlist, all_carried_out (by decide) h hrun⟩

/-! ## After the destructor was called -/

/-- The thread has found a task to take, and `running` true. -/
def Pc.taking : Pc → Prop
  | .front | .popFront => True
  | _ => False

theorem Pc.inside_of_taking {pc : Pc} (h : pc.taking) : pc.inside := by
  cases pc <;> simp [taking, inside] at *

/-- How a pool goes on from the state `s` in which it was stopped. -/
inductive TakenSince (s t : ThreadPool n) : Prop
  | none (hdequeued : t.dequeued = s.dequeued) (hlist : s.workList <+: t.workList)
      (htaking : ∀ w, (t.workers w).pc.taking → (s.workers w).pc.taking)
  | one (w : Fin n) (taskData : TaskData) (htaking : (s.workers w).pc.taking)
      (hlist : s.workList.head? = some taskData)
      (hdequeued : t.dequeued = s.dequeued ++ [(w, taskData)])
      (hnobody : ∀ u, ¬ (t.workers u).pc.taking)

/-- With `running` false no thread goes on to take a task; one that already has may take it. -/
theorem WorkerStep.taking_cases (h : WorkerStep s w s') (hstop : s.running = false) :
    (s'.dequeued = s.dequeued ∧ s'.workList = s.workList ∧
      ∀ u, (s'.workers u).pc.taking → (s.workers u).pc.taking) ∨
    ∃ taskData workList, (s.workers w).pc = .popFront ∧ s.workList = taskData :: workList ∧
      s'.dequeued = s.dequeued ++ [(w, taskData)] ∧ (s'.workers w).pc = .unlock := by
  have hothers : ∀ u, u ≠ w → (s'.workers u).pc.taking → (s.workers u).pc.taking := by
    intro u hne hu
    rwa [h.workers_of_ne hne] at hu
  cases h with
  | stays hpc hrun => simp [hstop] at hrun
  | popFront hpc hlist => exact .inr ⟨_, _, hpc, hlist, rfl, by simp [goto]⟩
  | goesOn hpc | ends hpc | lock hpc | findsNone hpc | findsSome hpc | mustWait hpc | mustStop hpc
  | wait hpc | returns hpc | front hpc | unlock hpc | call hpc | taskEnds hpc =>
    refine .inl ⟨rfl, rfl, ?_⟩
    intro u hu
    by_cases hne : u = w
    · subst hne
      simp [goto, hpc, Pc.taking] at hu ⊢
    · exact hothers u hne hu

/-- The thread that takes a task was about to when the pool was stopped. -/
theorem WorkerStep.takenSince {t t' : ThreadPool n} (h : WorkerStep t w t') (hs : s.Inv)
    (ht : t.Inv) (hstop : t.running = false) (hsince : TakenSince s t) : TakenSince s t' := by
  rcases h.taking_cases hstop with ⟨hdequeued, hlist, htaking⟩ | htakes
  · cases hsince with
    | none hdequeued' hlist' htaking' =>
      exact .none (hdequeued.trans hdequeued') (hlist ▸ hlist')
        fun u hu => htaking' u (htaking u hu)
    | one v taskData hv hhead hdequeued' hnobody =>
      exact .one v taskData hv hhead (hdequeued.trans hdequeued')
        fun u hu => hnobody u (htaking u hu)
  · obtain ⟨taskData, workList, hpc, hlist, hdequeued, hpc'⟩ := htakes
    have htw : (t.workers w).pc.taking := by simp [hpc, Pc.taking]
    cases hsince with
    | none hdequeued' hprefix htaking' =>
      have hsw := htaking' w htw
      -- the assertion of the thread when the pool was stopped: there was a task
      have hhead : s.workList.head? = some taskData := by
        have hasserts := hs.asserts w
        revert hprefix hasserts hsw
        rw [hlist]
        cases s.workList with
        | nil => cases hpc : (s.workers w).pc <;> simp [Worker.Asserts, Pc.taking, hpc]
        | cons first rest =>
          intro hprefix _ _
          rw [List.head?_cons, (List.cons_prefix_cons.mp hprefix).1]
      refine .one w taskData hsw hhead (by rw [hdequeued, hdequeued']) ?_
      intro u hu
      by_cases hne : u = w
      · subst hne
        simp [hpc', Pc.taking] at hu
      · rw [h.workers_of_ne hne] at hu
        exact hne (ht.guards.alone (Pc.inside_of_taking htw) (Pc.inside_of_taking hu))
    | one v other hv hhead hdequeued' hnobody => exact absurd htw (hnobody w)

theorem TakenSince.step {t t' : ThreadPool n} {a : Label n} (hs : s.Inv) (ht : t.Inv)
    (hstop : t.running = false) (hsince : TakenSince s t) (hen : t.enabled a)
    (h : t.step a = .ok t') : TakenSince s t' := by
  cases a with
  | worker w => exact (worker_cases hen h).takenSince hs ht hstop hsince
  | append taskData =>
    cases h
    cases hsince with
    | none hdequeued hlist htaking =>
      exact .none hdequeued (hlist.trans (List.prefix_append _ _)) htaking
    | one w task hw hhead hdequeued hnobody => exact .one w task hw hhead hdequeued hnobody
  | notify | spurious | stop | broadcast =>
    cases h
    cases hsince with
    | none hdequeued hlist htaking => exact .none hdequeued hlist htaking
    | one w task hw hhead hdequeued hnobody => exact .one w task hw hhead hdequeued hnobody
  | join =>
    simp only [ThreadPool.step] at h
    cases hsince with
    | none hdequeued hlist htaking =>
      split at h <;> cases h <;> exact .none hdequeued hlist htaking
    | one w task hw hhead hdequeued hnobody =>
      split at h <;> cases h <;> exact .one w task hw hhead hdequeued hnobody

/-- `running` is never set again. -/
theorem stopped_step {a : Label n} (hstop : s.running = false) (hen : s.enabled a)
    (h : s.step a = .ok s') : s'.running = false := by
  cases a with
  | worker w => rw [(worker_cases hen h).running_eq, hstop]
  | stop =>
    cases h
    rfl
  | append | notify | spurious | broadcast =>
    cases h
    exact hstop
  | join =>
    simp only [ThreadPool.step] at h
    split at h <;> cases h <;> exact hstop

/-- Once `running` is false at most one more task is ever taken: the first of the list, by a
thread that had tested `running` before and holds the mutex. -/
theorem taken_after_stop {t : ThreadPool n} {as bs : List (Label n)}
    (h : (system n).Run (new n) as s) (hstop : s.running = false)
    (hrest : (system n).Run s bs t) : t.dequeued = s.dequeued ∨
      ∃ w taskData, s.monitor.holder = some w ∧
        ((s.workers w).pc = .front ∨ (s.workers w).pc = .popFront) ∧
        s.workList.head? = some taskData ∧ t.dequeued = s.dequeued ++ [(w, taskData)] := by
  have hs := inv_of_run h
  have hall : t.Inv ∧ t.running = false ∧ TakenSince s t := by
    apply hrest.invariant (P := fun t => t.Inv ∧ t.running = false ∧ TakenSince s t)
    · exact ⟨hs, hstop, .none rfl (List.prefix_refl _) fun _ hw => hw⟩
    · intro t a t' ht hen hstep
      exact ⟨ht.1.step hen hstep, stopped_step ht.2.1 hen hstep,
        ht.2.2.step hs ht.1 ht.2.1 hen hstep⟩
  cases hall.2.2 with
  | none hdequeued => exact .inl hdequeued
  | one w taskData htaking hhead hdequeued =>
    refine .inr ⟨w, taskData, (hs.guards w).mp (Pc.inside_of_taking htaking), ?_, hhead, hdequeued⟩
    revert htaking
    cases (s.workers w).pc <;> simp [Pc.taking]

/-- A thread stands before `front` when the pool is stopped, and still takes its task; the second
task stays. -/
theorem taken_after_stop_one : ∃ s t : ThreadPool 1,
    (system 1).Run s [.worker 0, .worker 0, .worker 0, .worker 0, .worker 0, .worker 0] t ∧
      t.workList = [⟨8, none⟩] ∧ (t.dequeued = s.dequeued ∨
      ∃ w taskData, s.monitor.holder = some w ∧
        ((s.workers w).pc = .front ∨ (s.workers w).pc = .popFront) ∧
        s.workList.head? = some taskData ∧ t.dequeued = s.dequeued ++ [(w, taskData)]) := by
  obtain ⟨t, h, hlist⟩ : ∃ t, (system 1).Run (new 1)
      ([.append ⟨7, none⟩, .append ⟨8, none⟩, .worker 0, .worker 0, .worker 0, .worker 0, .stop] ++
        [.worker 0, .worker 0, .worker 0, .worker 0, .worker 0, .worker 0]) t ∧
      t.workList = [⟨8, none⟩] := System.Run.exists_of_exec (by decide +kernel)
  obtain ⟨s, hs, hrest⟩ := h.split
  have hstop : s.running = false := by
    obtain ⟨u, hu, hfalse⟩ : ∃ u, (system 1).Run (new 1)
        [.append ⟨7, none⟩, .append ⟨8, none⟩, .worker 0, .worker 0, .worker 0, .worker 0,
          .stop] u ∧ u.running = false := System.Run.exists_of_exec (by decide +kernel)
    rwa [hs.functional hu]
  exact ⟨s, t, hrest, hlist, taken_after_stop hs hstop hrest⟩

end LxcHttpServer.ThreadPool
