import Mathlib.Data.List.Basic
import Mathlib.Data.List.Induction

/-!
# Runs of partial labelled transition systems

A step may be impossible in a state, or it may be taken and go wrong; a run
contains only steps that were enabled and went through. Restricting a system to
the steps that meet a condition is again a system, so a statement about the runs
all of whose steps meet a condition is a statement about its runs.
-/
namespace LxcHttpServer.PartialRuns

theorem bind_eq_ok_iff {ε α β : Type} {x : Except ε α} {f : α → Except ε β} {b : β} :
    (x >>= f) = .ok b ↔ ∃ a, x = .ok a ∧ f a = .ok b := by
  cases x with
  | error e => simp [bind, Except.bind]
  | ok a => simp [bind, Except.bind]

theorem bind_eq_error_iff {ε α β : Type} {x : Except ε α} {f : α → Except ε β} {e : ε} :
    (x >>= f) = .error e ↔ x = .error e ∨ ∃ a, x = .ok a ∧ f a = .error e := by
  cases x with
  | error e => simp [bind, Except.bind]
  | ok a => simp [bind, Except.bind]

/-- What always goes through does not fail. -/
theorem bind_ok_eq_error_iff {ε α β : Type} {x : Except ε α} {g : α → β} {e : ε} :
    (x >>= fun a => .ok (g a)) = .error e ↔ x = .error e := by
  rw [bind_eq_error_iff]
  simp

/-- A labelled transition system whose steps can fail with a reason. -/
structure System (σ ι ε : Type) where
  enabled : σ → ι → Prop
  step : σ → ι → Except ε σ

variable {σ ι ε : Type}

/-- The labels of the steps taken from `s₀`, in order, and the state they end in. -/
inductive System.Run (sys : System σ ι ε) (s₀ : σ) : List ι → σ → Prop
  | nil : Run sys s₀ [] s₀
  | snoc {as : List ι} {s s' : σ} {a : ι} (run : Run sys s₀ as s)
      (enabled : sys.enabled s a) (step : sys.step s a = .ok s') : Run sys s₀ (as ++ [a]) s'

/-- The same steps, taken only where the condition holds as well. -/
def System.restrict (sys : System σ ι ε) (cond : σ → ι → Prop) : System σ ι ε where
  enabled s a := sys.enabled s a ∧ cond s a
  step := sys.step

instance {sys : System σ ι ε} {cond : σ → ι → Prop} {s : σ} {a : ι} [Decidable (sys.enabled s a)]
    [Decidable (cond s a)] : Decidable ((sys.restrict cond).enabled s a) :=
  inferInstanceAs (Decidable (sys.enabled s a ∧ cond s a))

namespace System.Run

variable {sys : System σ ι ε} {s₀ s s' : σ} {as bs : List ι}

/-- A property of the first state that every step preserves holds wherever a run ends. -/
theorem invariant {P : σ → Prop} (h : sys.Run s₀ as s) (hinit : P s₀)
    (hstep : ∀ t a t', P t → sys.enabled t a → sys.step t a = .ok t' → P t') : P s := by
  induction h with
  | nil => exact hinit
  | snoc run enabled step ih => exact hstep _ _ _ ih enabled step

theorem of_nil (h : sys.Run s₀ [] s) : s = s₀ := by
  generalize has : ([] : List ι) = as at h
  cases h with
  | nil => rfl
  | snoc run enabled step => simp at has

theorem of_snoc {a : ι} (h : sys.Run s₀ (as ++ [a]) s) :
    ∃ t, sys.Run s₀ as t ∧ sys.enabled t a ∧ sys.step t a = .ok s := by
  generalize has : as ++ [a] = bs at h
  cases h with
  | nil => simp at has
  | snoc run enabled step =>
    obtain ⟨rfl, ha⟩ := List.append_inj' has rfl
    cases ha
    exact ⟨_, run, enabled, step⟩

theorem append (h : sys.Run s₀ as s) (h' : sys.Run s bs s') : sys.Run s₀ (as ++ bs) s' := by
  induction h' with
  | nil => simpa using h
  | snoc run enabled step ih =>
    rw [← List.append_assoc]
    exact ih.snoc enabled step

theorem single {a : ι} (enabled : sys.enabled s a) (step : sys.step s a = .ok s') :
    sys.Run s [a] s' :=
  nil.snoc enabled step

/-- Forgetting the condition of a restricted run. -/
theorem of_restrict {cond : σ → ι → Prop} (h : (sys.restrict cond).Run s₀ as s) :
    sys.Run s₀ as s := by
  induction h with
  | nil => exact .nil
  | snoc run enabled step ih => exact ih.snoc enabled.1 step

/-- The labels of a restricted run are of the kind it is restricted to. -/
theorem forall_of_restrict {P : ι → Prop} (h : (sys.restrict fun _ => P).Run s₀ as s) :
    ∀ a ∈ as, P a := by
  induction h with
  | nil => simp
  | snoc run enabled step ih =>
    intro a ha
    rcases List.mem_append.mp ha with hmem | hmem
    · exact ih a hmem
    · rw [List.mem_singleton.mp hmem]
      exact enabled.2

/-- A run passes through a state after each of its prefixes. -/
theorem split (h : sys.Run s₀ (as ++ bs) s) : ∃ t, sys.Run s₀ as t ∧ sys.Run t bs s := by
  induction bs using List.reverseRecOn generalizing s with
  | nil => exact ⟨s, by simpa using h, .nil⟩
  | append_singleton bs b ih =>
    rw [← List.append_assoc] at h
    obtain ⟨u, hu, hen, hst⟩ := of_snoc h
    obtain ⟨t, ht, hbs⟩ := ih hu
    exact ⟨t, ht, hbs.snoc hen hst⟩

theorem of_cons {a : ι} (h : sys.Run s₀ (a :: as) s) :
    ∃ t, sys.enabled s₀ a ∧ sys.step s₀ a = .ok t ∧ sys.Run t as s := by
  have h' : sys.Run s₀ ([] ++ [a] ++ as) s := h
  obtain ⟨t, ha, hrest⟩ := h'.split
  obtain ⟨u, hu, hen, hst⟩ := of_snoc ha
  cases of_nil hu
  exact ⟨t, hen, hst, hrest⟩

/-- The labels determine the state. -/
theorem functional (h : sys.Run s₀ as s) (h' : sys.Run s₀ as s') : s = s' := by
  induction as using List.reverseRecOn generalizing s s' with
  | nil =>
    rw [of_nil h, of_nil h']
  | append_singleton as a ih =>
    obtain ⟨t, ht, -, hst⟩ := of_snoc h
    obtain ⟨t', ht', -, hst'⟩ := of_snoc h'
    rw [ih ht ht', hst'] at hst
    exact (Except.ok.inj hst).symm

/-- A relation that each step keeps by a step of another system relates wherever a run ends to
where that system has come. -/
theorem simulates {τ κ δ : Type} {abs : System τ κ δ} {t₀ : τ} {R : σ → τ → Prop} {f : ι → κ}
    (h : sys.Run s₀ as s) (hinit : R s₀ t₀)
    (hstep : ∀ s a s' t, R s t → sys.enabled s a → sys.step s a = .ok s' →
      ∃ t', abs.enabled t (f a) ∧ abs.step t (f a) = .ok t' ∧ R s' t') :
    ∃ t, abs.Run t₀ (as.map f) t ∧ R s t := by
  induction h with
  | nil => exact ⟨t₀, .nil, hinit⟩
  | snoc run enabled step ih =>
    obtain ⟨t, hrun, hrel⟩ := ih
    obtain ⟨t', hen, habs, hrel'⟩ := hstep _ _ _ t hrel enabled step
    refine ⟨t', ?_, hrel'⟩
    rw [List.map_append]
    exact hrun.snoc hen habs

/-- A run that comes to a goal comes to it for the first time. -/
theorem exists_first {Q : σ → Prop} (h : sys.Run s₀ as s) (hgoal : Q s) :
    ∃ bs t, (sys.restrict fun t _ => ¬ Q t).Run s₀ bs t ∧ Q t := by
  have hall : (∃ bs t, (sys.restrict fun t _ => ¬ Q t).Run s₀ bs t ∧ Q t) ∨
      (sys.restrict fun t _ => ¬ Q t).Run s₀ as s := by
    clear hgoal
    induction h with
    | nil => exact .inr .nil
    | @snoc as t t' a run enabled step ih =>
      rcases ih with hfirst | hbefore
      · exact .inl hfirst
      · by_cases hnow : Q t
        · exact .inl ⟨as, t, hbefore, hnow⟩
        · exact .inr (hbefore.snoc ⟨enabled, hnow⟩ step)
  exact hall.elim id fun hnever => ⟨as, s, hnever, hgoal⟩

/-- The steps of the run are possible in another system with the same effects. -/
theorem mono {sys' : System σ ι ε} (hstep : sys'.step = sys.step)
    (hen : ∀ t a, sys.enabled t a → sys'.enabled t a) (h : sys.Run s₀ as s) :
    sys'.Run s₀ as s := by
  induction h with
  | nil => exact .nil
  | snoc run enabled step ih => exact ih.snoc (hen _ _ enabled) (hstep ▸ step)

/-- From wherever the goal is not reached there is a way to a smaller measure, so there is a way
to the goal. -/
theorem exists_of_measure {P Q : σ → Prop} (measure : σ → ℕ)
    (hdrop : ∀ t, P t → ¬ Q t → ∃ bs t', sys.Run t bs t' ∧ P t' ∧ measure t' < measure t)
    (hs : P s) : ∃ bs t, sys.Run s bs t ∧ P t ∧ Q t := by
  induction hn : measure s using Nat.strongRecOn generalizing s with
  | ind n ih =>
    by_cases hgoal : Q s
    · exact ⟨[], s, .nil, hs, hgoal⟩
    · obtain ⟨bs, t, hrun, ht, hlt⟩ := hdrop s hs hgoal
      obtain ⟨cs, u, hrest, hu⟩ := ih (measure t) (hn ▸ hlt) ht rfl
      exact ⟨bs ++ cs, u, hrun.append hrest, hu⟩

/-- The same where a way may also lead to the goal at once. -/
theorem exists_of_progress {P Q : σ → Prop} (measure : σ → ℕ)
    (hprogress : ∀ t, P t → ¬ Q t →
      ∃ bs t', sys.Run t bs t' ∧ P t' ∧ (Q t' ∨ measure t' < measure t))
    (hs : P s) : ∃ bs t, sys.Run s bs t ∧ P t ∧ Q t := by
  classical
  apply exists_of_measure (fun t => if Q t then 0 else measure t + 1) ?_ hs
  intro t ht hgoal
  obtain ⟨bs, t', hrun, ht', hlt⟩ := hprogress t ht hgoal
  refine ⟨bs, t', hrun, ht', ?_⟩
  simp only [if_neg hgoal]
  split_ifs with hgoal'
  · omega
  · have hlt := hlt.resolve_left hgoal'
    omega

/-- Where no step raises a measure and each step of a kind lowers it, the measure pays for the
steps of the kind. -/
theorem countP_add_le {P : σ → Prop} {kind : ι → Bool} (measure : σ → ℕ)
    (h : sys.Run s₀ as s) (hinit : P s₀)
    (hstep : ∀ t a t', P t → sys.enabled t a → sys.step t a = .ok t' →
      P t' ∧ measure t' + (kind a).toNat ≤ measure t) :
    as.countP kind + measure s ≤ measure s₀ := by
  have hall : P s ∧ as.countP kind + measure s ≤ measure s₀ := by
    induction h with
    | nil => exact ⟨hinit, by simp⟩
    | snoc run enabled step ih =>
      obtain ⟨ht, hle⟩ := hstep _ _ _ ih.1 enabled step
      refine ⟨ht, ?_⟩
      rw [List.countP_append, List.countP_singleton]
      cases hkind : kind _ <;> simp only [hkind, Bool.toNat_true, Bool.toNat_false] at hle ⊢ <;>
        simp <;> omega
  exact hall.2

end System.Run

/-! ## Properties of all the states and of all the steps of a run -/

/-- Every state on the way along `as` has the property. -/
def System.Always (sys : System σ ι ε) (P : σ → Prop) (s₀ : σ) (as : List ι) : Prop :=
  ∀ pre t, pre <+: as → sys.Run s₀ pre t → P t

/-- Every step of `as` is taken in a state where the condition holds. -/
def System.Meets (sys : System σ ι ε) (cond : σ → ι → Prop) (s₀ : σ) (as : List ι) : Prop :=
  ∀ pre a t, pre ++ [a] <+: as → sys.Run s₀ pre t → cond t a

section Meets
variable {sys : System σ ι ε} {cond : σ → ι → Prop} {s₀ s : σ} {as bs : List ι}

theorem System.Meets.of_prefix (h : sys.Meets cond s₀ as) (hpre : bs <+: as) :
    sys.Meets cond s₀ bs := by
  intro pre a t hpre'
  exact h pre a t (hpre'.trans hpre)

/-- A condition met along a run and by the step that extends it. -/
theorem System.Meets.snoc_iff {a : ι} (hrun : sys.Run s₀ as s) :
    sys.Meets cond s₀ (as ++ [a]) ↔ sys.Meets cond s₀ as ∧ cond s a := by
  constructor
  · intro h
    exact ⟨h.of_prefix (List.prefix_append _ _), h as a s (List.prefix_refl _) hrun⟩
  · intro ⟨h, ha⟩ pre b t hpre ht
    rcases List.prefix_concat_iff.mp hpre with heq | hpre
    · obtain ⟨rfl, hb⟩ := List.append_inj' heq rfl
      cases hb
      rw [ht.functional hrun]
      exact ha
    · exact h pre b t hpre ht

theorem System.Meets.snoc {a : ι} (h : sys.Meets cond s₀ as) (hrun : sys.Run s₀ as s)
    (ha : cond s a) : sys.Meets cond s₀ (as ++ [a]) :=
  (System.Meets.snoc_iff hrun).mpr ⟨h, ha⟩

theorem System.Meets.of_nil : sys.Meets cond s₀ [] := by
  intro pre a t hpre
  simp at hpre

/-- Steps on which the condition puts nothing may follow. -/
theorem System.Meets.append_of_forall (h : sys.Meets cond s₀ as)
    (hbs : ∀ a ∈ bs, ∀ t, cond t a) : sys.Meets cond s₀ (as ++ bs) := by
  induction bs using List.reverseRecOn with
  | nil => simpa using h
  | append_singleton bs b ih =>
    intro pre a t hpre ht
    rw [← List.append_assoc] at hpre
    rcases List.prefix_concat_iff.mp hpre with heq | hpre
    · obtain ⟨-, hb⟩ := List.append_inj' heq rfl
      cases hb
      exact hbs b (by simp) t
    · exact ih (fun a ha => hbs a (List.mem_append_left _ ha)) pre a t hpre ht

end Meets

/-- The runs whose steps all meet a condition are the runs of the restricted system. -/
theorem System.Run.restrict_iff {sys : System σ ι ε} {cond : σ → ι → Prop} {s₀ s : σ}
    {as : List ι} : (sys.restrict cond).Run s₀ as s ↔ sys.Run s₀ as s ∧ sys.Meets cond s₀ as := by
  constructor
  · intro h
    refine ⟨h.of_restrict, ?_⟩
    intro pre a t hpre hrun
    obtain ⟨post, rfl⟩ := hpre
    obtain ⟨u, hu, -⟩ := h.split
    obtain ⟨v, hv, hen, -⟩ := Run.of_snoc hu
    rw [hrun.functional hv.of_restrict]
    exact hen.2
  · rintro ⟨h, hmeets⟩
    induction h with
    | nil => exact .nil
    | snoc run enabled step ih =>
      refine (ih ?_).snoc ⟨enabled, hmeets _ _ _ (List.prefix_refl _) run⟩ step
      intro pre a t hpre
      exact hmeets pre a t (hpre.trans (List.prefix_append _ _))

/-- What holds wherever a restricted run ends holds all along a run that meets the
condition. -/
theorem System.Always.of_restrict {sys : System σ ι ε} {cond : σ → ι → Prop} {P : σ → Prop}
    {s₀ : σ} {as : List ι} (hmeets : sys.Meets cond s₀ as)
    (h : ∀ bs t, (sys.restrict cond).Run s₀ bs t → P t) : sys.Always P s₀ as := by
  intro pre t hpre hrun
  apply h pre t
  apply Run.restrict_iff.mpr
  refine ⟨hrun, ?_⟩
  intro pre' a u hpre'
  exact hmeets pre' a u (hpre'.trans hpre)

/-- Executes the labels one after the other; a step that is not enabled stops it. -/
def System.exec (sys : System σ ι ε) [∀ s a, Decidable (sys.enabled s a)] (s : σ) :
    List ι → Option σ
  | [] => some s
  | a :: as => if sys.enabled s a then
      match sys.step s a with
      | .ok s' => sys.exec s' as
      | .error _ => none
    else none

theorem System.Run.of_exec {sys : System σ ι ε} [∀ s a, Decidable (sys.enabled s a)]
    {s s' : σ} {as : List ι} (h : sys.exec s as = some s') : sys.Run s as s' := by
  induction as generalizing s with
  | nil =>
    cases h
    exact .nil
  | cons a as ih =>
    simp only [System.exec] at h
    split_ifs at h with ha
    split at h
    · next t ht => exact (Run.single ha ht).append (ih h)
    · cases h

/-- A run found by execution, with what holds where it ends. -/
theorem System.Run.exists_of_exec {sys : System σ ι ε} [∀ s a, Decidable (sys.enabled s a)]
    {s : σ} {as : List ι} {P : σ → Prop} [DecidablePred P]
    (h : (sys.exec s as).any fun t => P t) : ∃ t, sys.Run s as t ∧ P t := by
  obtain ⟨t, ht, hP⟩ := (Option.any_eq_true _ _).mp h
  exact ⟨t, .of_exec ht, of_decide_eq_true hP⟩

end LxcHttpServer.PartialRuns
