import Mathlib.Data.Nat.Count

/-!
# Tallies

How many of the threads `0, 1, …, n - 1` are at a place of a certain kind. Threads are
created one after the other and move one at a time; either changes a tally by what is
true of that one thread.
-/
namespace LxcHttpServer.Tallies

variable {P : Type} {n t : ℕ} {place : ℕ → P} {p : P} {here there : P → Prop}
  [DecidablePred here] [DecidablePred there]

/-- The number of threads below `n` that are at a place of the kind. -/
def tally (n : ℕ) (place : ℕ → P) (here : P → Prop) [DecidablePred here] : ℕ :=
  Nat.count (fun t => here (place t)) n

@[simp] theorem tally_zero (place : ℕ → P) (here : P → Prop) [DecidablePred here] :
    tally 0 place here = 0 := Nat.count_zero _

theorem tally_succ (n : ℕ) (place : ℕ → P) (here : P → Prop) [DecidablePred here] :
    tally (n + 1) place here = tally n place here + if here (place n) then 1 else 0 :=
  Nat.count_succ _ n

/-- The threads of the kind, one after the other. -/
theorem length_filter_range (n : ℕ) (place : ℕ → P) (here : P → Prop) [DecidablePred here] :
    ((List.range n).filter fun t => here (place t)).length = tally n place here := by
  induction n with
  | zero => rfl
  | succ n ih =>
    rw [tally_succ, List.range_succ, List.filter_append, List.length_append, ih]
    split_ifs with hn <;> simp [hn]

theorem tally_mono (h : ∀ p, here p → there p) : tally n place here ≤ tally n place there :=
  Nat.count_mono_left fun t _ => h (place t)

theorem tally_eq_self (h : ∀ t < n, here (place t)) : tally n place here = n :=
  Nat.count_iff_forall.mpr h

theorem tally_congr {place' : ℕ → P} (h : ∀ t < n, here (place t) ↔ there (place' t)) :
    tally n place here = tally n place' there := by
  induction n with
  | zero => rfl
  | succ n ih =>
    rw [tally_succ, tally_succ, ih fun t ht => h t (Nat.lt_succ_of_lt ht)]
    simp only [h n (Nat.lt_succ_self n)]

/-- A thread that moves takes itself out of the tally and puts itself in again. -/
theorem tally_update (ht : t < n) (place : ℕ → P) (p : P) (here : P → Prop)
    [DecidablePred here] :
    tally n (Function.update place t p) here + (if here (place t) then 1 else 0) =
      tally n place here + if here p then 1 else 0 := by
  induction n with
  | zero => exact absurd ht (Nat.not_lt_zero t)
  | succ n ih =>
    rw [tally_succ, tally_succ]
    rcases Nat.lt_succ_iff_lt_or_eq.mp ht with hlt | rfl
    · rw [Function.update_of_ne hlt.ne']
      have := ih hlt
      omega
    · have hrest : tally t (Function.update place t p) here = tally t place here := by
        apply tally_congr
        intro u hu
        rw [Function.update_of_ne hu.ne]
      rw [Function.update_self, hrest]
      omega

theorem tally_enter (ht : t < n) (hfrom : ¬ here (place t)) (hto : here p) :
    tally n (Function.update place t p) here = tally n place here + 1 := by
  have h := tally_update ht place p here
  rwa [if_neg hfrom, if_pos hto] at h

theorem tally_leave (ht : t < n) (hfrom : here (place t)) (hto : ¬ here p) :
    tally n (Function.update place t p) here + 1 = tally n place here := by
  have h := tally_update ht place p here
  rwa [if_pos hfrom, if_neg hto] at h

theorem tally_stay (ht : t < n) (h : here p ↔ here (place t)) :
    tally n (Function.update place t p) here = tally n place here := by
  have hmove := tally_update ht place p here
  simp only [h] at hmove
  omega

/-- A thread that is created. -/
theorem tally_create (place : ℕ → P) (p : P) :
    tally (n + 1) (Function.update place n p) here =
      tally n place here + if here p then 1 else 0 := by
  have hrest : tally n (Function.update place n p) here = tally n place here := by
    apply tally_congr
    intro u hu
    rw [Function.update_of_ne hu.ne]
  rw [tally_succ, Function.update_self, hrest]

end LxcHttpServer.Tallies
