import Mathlib.Data.Fintype.Basic

/-!
# Monitors

A mutex with one condition variable, shared by threads `T`. Waiting releases the
mutex and blocks in one step; a signal wakes at least one of the threads blocked
at that moment and is lost when there is none. A thread that was woken takes the
mutex again like any other. What the threads do besides is left to the program:
it says for each place of its code whether a thread there holds the mutex.
-/
namespace LxcHttpServer.Monitors

/-- Who holds the mutex, and who is blocked with no wakeup outstanding. -/
structure Monitor (T : Type) where
  holder : Option T
  blocked : Finset T
deriving DecidableEq

namespace Monitor

section Operations
variable {T : Type}

/-- Nobody holds the mutex and nobody waits. -/
def free : Monitor T where
  holder := none
  blocked := ∅

def lock (m : Monitor T) (t : T) : Monitor T :=
  { m with holder := some t }

def unlock (m : Monitor T) : Monitor T :=
  { m with holder := none }

@[simp] theorem lock_holder (m : Monitor T) (t : T) : (m.lock t).holder = some t := rfl

variable [DecidableEq T]

/-- Releases the mutex and blocks. -/
def wait (m : Monitor T) (t : T) : Monitor T where
  holder := none
  blocked := insert t m.blocked

/-- The threads `ts` are no longer blocked; a broadcast wakes all that are. -/
def wake (m : Monitor T) (ts : Finset T) : Monitor T :=
  { m with blocked := m.blocked \ ts }

/-- The sets of threads that one signal may wake. -/
def Signals (m : Monitor T) (ts : Finset T) : Prop :=
  ts ⊆ m.blocked ∧ (m.blocked.Nonempty → ts.Nonempty)

instance (m : Monitor T) (ts : Finset T) : Decidable (m.Signals ts) :=
  inferInstanceAs (Decidable (_ ∧ (_ → _)))

@[simp] theorem wake_blocked (m : Monitor T) (ts : Finset T) :
    (m.wake ts).blocked = m.blocked \ ts := rfl

variable [Fintype T] {m : Monitor T} {ts : Finset T}

/-- Where a thread was woken, not all threads are blocked. -/
theorem wake_ne_univ (hts : ts.Nonempty) : (m.wake ts).blocked ≠ Finset.univ := by
  intro h
  obtain ⟨t, ht⟩ := hts
  have hmem : t ∈ m.blocked \ ts := by
    rw [← wake_blocked, h]
    exact Finset.mem_univ t
  exact (Finset.mem_sdiff.mp hmem).2 ht

/-- No signal leaves all threads blocked. -/
theorem Signals.ne_univ [Nonempty T] (h : m.Signals ts) : (m.wake ts).blocked ≠ Finset.univ := by
  by_cases hb : m.blocked.Nonempty
  · exact wake_ne_univ (h.2 hb)
  · rw [Finset.not_nonempty_iff_eq_empty] at hb
    rw [wake_blocked, hb, Finset.empty_sdiff]
    exact Finset.univ_nonempty.ne_empty.symm

end Operations

section Exclusion
variable {T P : Type} {m : Monitor T} {inside : P → Prop} {place : T → P} {t : T} {p : P}

/-- The thread inside the critical section is the one that holds the mutex. -/
def Guards (m : Monitor T) (inside : P → Prop) (place : T → P) : Prop :=
  ∀ t, inside (place t) ↔ m.holder = some t

/-- While the mutex is free nobody is inside. -/
theorem Guards.nobody (h : m.Guards inside place) (hfree : m.holder = none) (t : T) :
    ¬ inside (place t) := by
  rw [h t, hfree]
  simp

/-- Nobody else is inside together with `t`. -/
theorem Guards.alone (h : m.Guards inside place) (ht : inside (place t)) {u : T}
    (hu : inside (place u)) : u = t := by
  have hholder := (h u).mp hu
  rw [(h t).mp ht] at hholder
  exact (Option.some.inj hholder).symm

variable [DecidableEq T]

/-- A thread that neither enters nor leaves the critical section. -/
theorem Guards.update (h : m.Guards inside place) (hp : inside p ↔ inside (place t)) :
    m.Guards inside (Function.update place t p) := by
  intro u
  by_cases hu : u = t
  · subst hu
    rw [Function.update_self, hp, h u]
  · rw [Function.update_of_ne hu, h u]

/-- A thread that takes the free mutex enters. -/
theorem Guards.enter (h : m.Guards inside place) (hfree : m.holder = none) (hp : inside p) :
    (m.lock t).Guards inside (Function.update place t p) := by
  intro u
  by_cases hu : u = t
  · subst hu
    simpa using hp
  · rw [Function.update_of_ne hu]
    simpa [Ne.symm hu] using h.nobody hfree u

/-- The thread inside leaves by releasing the mutex, alone or in order to wait. -/
theorem Guards.leave {m' : Monitor T} (h : m.Guards inside place) (ht : inside (place t))
    (hp : ¬ inside p) (hm : m'.holder = none) :
    m'.Guards inside (Function.update place t p) := by
  intro u
  rw [hm]
  by_cases hu : u = t
  · subst hu
    simpa using hp
  · rw [Function.update_of_ne hu]
    simpa using fun hin => hu (h.alone ht hin)

end Exclusion

end Monitor

end LxcHttpServer.Monitors
