import LxcHttpServer.AsyncLoger
import LxcHttpServer.Monitors
import Mathlib.Logic.Function.Basic

/-!
# The one logger

`AsyncLoger::getInstance`, called by any number of threads. It tests `instance` before it takes the
mutex and not again afterwards, so two threads that both find it null construct a logger each. A
step is one access to the static members; the construction of a logger and its assignment to
`instance` are one, as they happen under the mutex. `received` records what the callers get and is
read by nothing.
-/
namespace LxcHttpServer.AsyncLoger
open PartialRuns Monitors

/-- The places of `getInstance`; the name says what the thread does next. -/
inductive Place where
  | outside
  | test
  | lock
  | construct
  | unlock
  | copy
deriving DecidableEq

/-- The thread has found `instance` null and has not assigned it yet. -/
def Place.builds : Place → Prop
  | .lock | .construct => True
  | .outside | .test | .unlock | .copy => False

/-- The thread has found or assigned a logger and has not returned yet. -/
def Place.leaves : Place → Prop
  | .unlock | .copy => True
  | .outside | .test | .lock | .construct => False

instance (p : Place) : Decidable p.builds := by
  unfold Place.builds
  split <;> infer_instance

/-- The static members, with the callers and what was constructed. A pointer is the number of a
constructed logger. -/
structure Statics (T : Type) where
  instancePtr : Option ℕ
  singletonMutex : Monitor T
  place : T → Place
  constructed : List AsyncLoger
  received : List (T × Option ℕ)

/-- A step of a caller; a constructor finds memory as it is. -/
inductive Access (T : Type) where
  | call (t : T)
  | test (t : T)
  | lock (t : T)
  | construct (t : T) (raw : Fin 4 → RawBuffer)
  | unlock (t : T)
  | copy (t : T)

def Access.caller {T : Type} : Access T → T
  | .call t | .test t | .lock t | .construct t _ | .unlock t | .copy t => t

namespace Statics

variable {T : Type}

/-- Nobody has called `getInstance`. -/
def new : Statics T where
  instancePtr := none
  singletonMutex := .free
  place _ := .outside
  constructed := []
  received := []

def enabled (s : Statics T) : Access T → Prop
  | .call t => s.place t = .outside
  | .test t => s.place t = .test
  | .lock t => s.place t = .lock ∧ s.singletonMutex.holder = none
  | .construct t _ => s.place t = .construct
  | .unlock t => s.place t = .unlock
  | .copy t => s.place t = .copy

instance (s : Statics T) (a : Access T) : Decidable (s.enabled a) := by
  unfold enabled
  split <;> infer_instance

section Callers
variable [DecidableEq T]

def goto (s : Statics T) (t : T) (p : Place) : Statics T :=
  { s with place := Function.update s.place t p }

def getInstance (s : Statics T) : Access T → Statics T
  | .call t => s.goto t .test
  | .test t => s.goto t (if s.instancePtr = none then .lock else .copy)
  | .lock t => { s.goto t .construct with singletonMutex := s.singletonMutex.lock t }
  | .construct t raw =>
    { s.goto t .unlock with
      instancePtr := some s.constructed.length
      constructed := s.constructed ++ [AsyncLoger.new raw] }
  | .unlock t => { s.goto t .copy with singletonMutex := s.singletonMutex.unlock }
  | .copy t => { s.goto t .outside with received := s.received ++ [(t, s.instancePtr)] }

/-- All that the callers can do. -/
def system (T : Type) [DecidableEq T] : System (Statics T) (Access T) Empty where
  enabled := enabled
  step s a := .ok (s.getInstance a)

instance (s : Statics T) (a : Access T) : Decidable ((system T).enabled s a) :=
  inferInstanceAs (Decidable (s.enabled a))

end Callers

/-- At most one logger was constructed, and whoever has returned has it. -/
structure ConstructedOnce (s : Statics T) : Prop where
  once : s.constructed.length ≤ 1
  same : ∀ r ∈ s.received, s.constructed.length = 1 ∧ r.2 = some 0

/-- Who finds `instance` null finds nobody between such a test and the assignment. -/
def Unraced (s : Statics T) : Access T → Prop
  | .test _ => s.instancePtr = none → ∀ u, ¬ (s.place u).builds
  | .call _ | .lock _ | .construct _ _ | .unlock _ | .copy _ => True

instance [Fintype T] (s : Statics T) (a : Access T) : Decidable (s.Unraced a) := by
  unfold Unraced
  split <;> infer_instance

/-- Nobody is between a test that found `instance` null and the assignment. -/
def Quiet (s : Statics T) : Prop := ∀ t, ¬ (s.place t).builds

variable {s s' : Statics T} {a : Access T} {t : T} {p : Place}

/-- There is no logger, or there is one and `instance` points to it. -/
def Single (s : Statics T) : Prop :=
  (s.constructed = [] ∧ s.instancePtr = none) ∨
    (s.constructed.length = 1 ∧ s.instancePtr = some 0)

/-- What holds as long as the tests do not race. -/
structure Sound (s : Statics T) : Prop where
  single : s.Single
  builds : ∀ t, (s.place t).builds → s.instancePtr = none
  alone : ∀ t, (s.place t).builds → ∀ u, (s.place u).builds → u = t
  leaves : ∀ t, (s.place t).leaves → s.instancePtr = some 0
  received : ∀ r ∈ s.received, s.instancePtr = some 0 ∧ r.2 = some 0

/-- Before the first logger is assigned nobody has returned. -/
theorem Sound.of_null (h : s.Sound) (hptr : s.instancePtr = none) :
    s.constructed = [] ∧ s.received = [] := by
  constructor
  · rcases h.single with ⟨hnone, -⟩ | ⟨-, hsome⟩
    · exact hnone
    · rw [hptr] at hsome
      cases hsome
  · rw [List.eq_nil_iff_forall_not_mem]
    intro r hr
    have hsome := (h.received r hr).1
    rw [hptr] at hsome
    cases hsome

theorem Sound.constructedOnce (h : s.Sound) : s.ConstructedOnce := by
  rcases h.single with ⟨hnone, hptr⟩ | ⟨hone, hptr⟩
  · obtain ⟨-, hreceived⟩ := h.of_null hptr
    exact ⟨by simp [hnone], by simp [hreceived]⟩
  · exact ⟨hone.le, fun r hr => ⟨hone, (h.received r hr).2⟩⟩

/-- The mutex is not what the callers rely on. -/
theorem Sound.withMutex (h : s.Sound) (m : Monitor T) : { s with singletonMutex := m }.Sound :=
  ⟨h.single, h.builds, h.alone, h.leaves, h.received⟩

theorem sound_new : (new : Statics T).Sound where
  single := .inl ⟨rfl, rfl⟩
  builds _ h := h.elim
  alone _ h := h.elim
  leaves _ h := h.elim
  received _ h := absurd h List.not_mem_nil

/-- Two loggers were constructed or are going to be. -/
def Doubled (s : Statics T) : Prop :=
  (∃ t u, t ≠ u ∧ (s.place t).builds ∧ (s.place u).builds) ∨
    (s.constructed ≠ [] ∧ ∃ t, (s.place t).builds) ∨ 2 ≤ s.constructed.length

theorem Doubled.two_le (h : s.Doubled) (hquiet : s.Quiet) : 2 ≤ s.constructed.length := by
  rcases h with ⟨t, u, -, ht, -⟩ | ⟨-, t, ht⟩ | htwo
  · exact absurd ht (hquiet t)
  · exact absurd ht (hquiet t)
  · exact htwo

variable [DecidableEq T]

/-- A thread goes to a place where it builds only if it built before or builds alone. -/
theorem Sound.goto (h : s.Sound)
    (hbuilds : p.builds → s.instancePtr = none ∧ ∀ u, (s.place u).builds → u = t)
    (hleaves : p.leaves → s.instancePtr = some 0) : (s.goto t p).Sound where
  single := h.single
  builds := by
    refine (Function.forall_update_iff s.place fun _ q => q.builds → s.instancePtr = none).mpr ?_
    exact ⟨fun hp => (hbuilds hp).1, fun u _ hu => h.builds u hu⟩
  alone := by
    refine (Function.forall_update_iff s.place fun u q => q.builds → ∀ v,
      ((s.goto t p).place v).builds → v = u).mpr ⟨?_, ?_⟩
    · intro hp
      refine (Function.forall_update_iff s.place fun v q => q.builds → v = t).mpr ?_
      exact ⟨fun _ => rfl, fun v _ hv => (hbuilds hp).2 v hv⟩
    · intro u hut hu
      refine (Function.forall_update_iff s.place fun v q => q.builds → v = u).mpr ?_
      exact ⟨fun hp => absurd ((hbuilds hp).2 u hu) hut, fun v _ hv => h.alone u hu v hv⟩
  leaves := by
    refine (Function.forall_update_iff s.place fun _ q => q.leaves →
      s.instancePtr = some 0).mpr ?_
    exact ⟨hleaves, fun u _ hu => h.leaves u hu⟩
  received := h.received

/-- The only builder assigns the first logger. -/
theorem Sound.construct (h : s.Sound) (raw : Fin 4 → RawBuffer) (ht : (s.place t).builds) :
    (s.getInstance (.construct t raw)).Sound := by
  obtain ⟨hnone, hreceived⟩ := h.of_null (h.builds t ht)
  have hfirst : (s.getInstance (.construct t raw)).instancePtr = some 0 := by
    simp [getInstance, hnone]
  have hothers : ∀ u, ¬ ((s.getInstance (.construct t raw)).place u).builds := by
    refine (Function.forall_update_iff s.place fun _ q => ¬ q.builds).mpr ?_
    exact ⟨id, fun u hut hu => hut (h.alone t ht u hu)⟩
  refine ⟨.inr ⟨by simp [getInstance, hnone], hfirst⟩, fun u hu => absurd hu (hothers u),
    fun u hu => absurd hu (hothers u), fun _ _ => hfirst, ?_⟩
  intro r hr
  have hmem : r ∈ s.received := hr
  rw [hreceived] at hmem
  cases hmem

theorem Sound.step (h : s.Sound) (hen : s.enabled a) (hunraced : s.Unraced a) :
    (s.getInstance a).Sound := by
  cases a with
  | call t => exact h.goto False.elim False.elim
  | test t =>
    rw [getInstance]
    rcases h.single with ⟨-, hptr⟩ | ⟨-, hptr⟩
    · rw [if_pos hptr]
      exact h.goto (fun _ => ⟨hptr, fun u hu => absurd hu (hunraced hptr u)⟩) False.elim
    · rw [if_neg (by simp [hptr])]
      exact h.goto False.elim fun _ => hptr
  | lock t =>
    have ht : (s.place t).builds := by
      rw [hen.1]
      trivial
    exact (h.goto (fun _ => ⟨h.builds t ht, h.alone t ht⟩) False.elim).withMutex _
  | construct t raw =>
    have hplace : s.place t = .construct := hen
    have ht : (s.place t).builds := by
      rw [hplace]
      trivial
    exact h.construct raw ht
  | unlock t =>
    have hplace : s.place t = .unlock := hen
    have ht : (s.place t).leaves := by
      rw [hplace]
      trivial
    exact (h.goto False.elim fun _ => h.leaves t ht).withMutex _
  | copy t =>
    have hplace : s.place t = .copy := hen
    have ht : (s.place t).leaves := by
      rw [hplace]
      trivial
    have hptr := h.leaves t ht
    have hmoved := h.goto (p := .outside) (t := t) False.elim False.elim
    refine ⟨hmoved.single, hmoved.builds, hmoved.alone, hmoved.leaves, ?_⟩
    intro r hr
    rcases List.mem_append.mp hr with hold | hnew
    · exact h.received r hold
    · rw [List.mem_singleton.mp hnew]
      exact ⟨hptr, hptr⟩

theorem place_getInstance_of_ne {u : T} (h : u ≠ a.caller) :
    (s.getInstance a).place u = s.place u := by
  cases a <;> exact Function.update_of_ne h _ _

/-- Only the assignment ends the building, and nobody else's. -/
theorem builds_getInstance {u : T} (hen : s.enabled a) (hu : (s.place u).builds) :
    ((s.getInstance a).place u).builds ∨ ∃ raw, a = .construct u raw := by
  by_cases hcaller : u = a.caller
  · subst hcaller
    cases a with
    | construct t raw => exact .inr ⟨raw, rfl⟩
    | lock t =>
      left
      simp [getInstance, Statics.goto, Access.caller, Place.builds]
    | call t | test t | unlock t | copy t =>
      have hplace : s.place t = _ := hen
      rw [Access.caller, hplace] at hu
      exact hu.elim
  · left
    rwa [place_getInstance_of_ne hcaller]

theorem constructed_getInstance (s : Statics T) (a : Access T) :
    (s.getInstance a).constructed = s.constructed ∨
      ∃ t raw, a = .construct t raw ∧
        (s.getInstance a).constructed = s.constructed ++ [AsyncLoger.new raw] := by
  cases a with
  | construct t raw => exact .inr ⟨t, raw, rfl, rfl⟩
  | call t | test t | lock t | unlock t | copy t => exact .inl rfl

/-- Of two builders one still builds when the other one is done. -/
theorem Doubled.construct (h : s.Doubled) (t : T) (raw : Fin 4 → RawBuffer) :
    (s.getInstance (.construct t raw)).Doubled := by
  have hconstructed : (s.getInstance (.construct t raw)).constructed =
      s.constructed ++ [AsyncLoger.new raw] := rfl
  have hlength : (s.getInstance (.construct t raw)).constructed.length =
      s.constructed.length + 1 := by
    rw [hconstructed, List.length_append, List.length_singleton]
  rcases h with ⟨u, v, hne, hu, hv⟩ | ⟨hsome, -⟩ | htwo
  · have hother : ∃ w, w ≠ t ∧ (s.place w).builds := by
      by_cases hut : u = t
      · exact ⟨v, hut ▸ hne.symm, hv⟩
      · exact ⟨u, hut, hu⟩
    obtain ⟨w, hwt, hw⟩ := hother
    refine .inr (.inl ⟨by simp [hconstructed], w, ?_⟩)
    rwa [place_getInstance_of_ne hwt]
  · have hpos := List.length_pos_iff.mpr hsome
    exact .inr (.inr (by omega))
  · exact .inr (.inr (by omega))

theorem Doubled.step (h : s.Doubled) (hen : s.enabled a) : (s.getInstance a).Doubled := by
  by_cases hmakes : ∃ t raw, a = .construct t raw
  · obtain ⟨t, raw, rfl⟩ := hmakes
    exact h.construct t raw
  · have hbuilds : ∀ u, (s.place u).builds → ((s.getInstance a).place u).builds := by
      intro u hu
      exact (builds_getInstance hen hu).resolve_right fun ⟨raw, hraw⟩ => hmakes ⟨u, raw, hraw⟩
    have hsame : (s.getInstance a).constructed = s.constructed :=
      (constructed_getInstance s a).resolve_right fun ⟨t, raw, hraw, _⟩ => hmakes ⟨t, raw, hraw⟩
    rw [Doubled, hsame]
    rcases h with ⟨u, v, hne, hu, hv⟩ | ⟨hsome, u, hu⟩ | htwo
    · exact .inl ⟨u, v, hne, hbuilds u hu, hbuilds v hv⟩
    · exact .inr (.inl ⟨hsome, u, hbuilds u hu⟩)
    · exact .inr (.inr htwo)

/-- A test that races makes a second builder. -/
theorem doubled_of_raced (hen : s.enabled a) (hraced : ¬ s.Unraced a) :
    (s.getInstance a).Doubled := by
  cases a with
  | test t =>
    simp only [Unraced, not_forall, not_not] at hraced
    obtain ⟨hptr, u, hu⟩ := hraced
    have hplace : s.place t = .test := hen
    have hut : u ≠ t := by
      intro heq
      rw [heq, hplace] at hu
      exact hu
    refine .inl ⟨t, u, hut.symm, ?_, ?_⟩
    · simp [getInstance, Statics.goto, hptr, Place.builds]
    · rwa [place_getInstance_of_ne hut]
  | call t | lock t | construct t raw | unlock t | copy t => exact absurd trivial hraced

variable {as : List (Access T)}

theorem sound_of_run (h : ((system T).restrict Unraced).Run new as s) : s.Sound := by
  refine h.invariant sound_new ?_
  intro s a s' hs hen hstep
  cases hstep
  exact hs.step hen.1 hen.2

/-- A test that raced stays visible in what was constructed. -/
theorem unraced_of_once (h : (system T).Run new as s) (hquiet : s.Quiet)
    (honce : s.ConstructedOnce) : (system T).Meets Unraced new as := by
  intro pre a t hpre hrun
  obtain ⟨post, rfl⟩ := hpre
  obtain ⟨u, hu, hpost⟩ := h.split
  obtain ⟨v, hv, hen, hstep⟩ := System.Run.of_snoc hu
  cases hrun.functional hv
  cases hstep
  by_contra hraced
  have hdoubled : s.Doubled := by
    refine hpost.invariant (doubled_of_raced hen hraced) ?_
    intro s a s' hs hen hstep
    cases hstep
    exact hs.step hen
  have htwo := hdoubled.two_le hquiet
  have hlength := honce.once
  omega

/-- As long as no test races there is one logger, and every caller gets it. A run at whose end
nobody builds had no other way to construct only one. -/
theorem constructs_once (h : (system T).Run new as s) :
    ((system T).Meets Unraced new as → (system T).Always ConstructedOnce new as) ∧
      (s.Quiet → (system T).Always ConstructedOnce new as → (system T).Meets Unraced new as) := by
  constructor
  · intro hmeets
    exact .of_restrict hmeets fun bs t hrun => (sound_of_run hrun).constructedOnce
  · intro hquiet honce
    exact unraced_of_once h hquiet (honce as s (List.prefix_refl as) h)

/-- What the constructor finds in memory that was never used. -/
def zeros : Fin 4 → RawBuffer := fun _ =>
  { bufferSize := 0, endPos := 0, chars := [], allocated := rfl }

/-- The second caller tests `instance` when the first one has assigned it. -/
theorem constructs_once_in_turn : (system (Fin 2)).Always ConstructedOnce new
    [.call 0, .call 1, .test 0, .lock 0, .construct 0 zeros, .test 1, .copy 1, .unlock 0,
      .copy 0] := by
  obtain ⟨s, hrun, -⟩ : ∃ s, ((system (Fin 2)).restrict Unraced).Run new
      [.call 0, .call 1, .test 0, .lock 0, .construct 0 zeros, .test 1, .copy 1, .unlock 0,
        .copy 0] s ∧ s.constructed.length = 1 := System.Run.exists_of_exec (by decide +kernel)
  obtain ⟨hall, hmeets⟩ := System.Run.restrict_iff.mp hrun
  exact (constructs_once hall).1 hmeets

/-- Both callers test `instance` before either has assigned it. -/
theorem not_constructed_once : ¬ ∀ (T : Type) [DecidableEq T] (as : List (Access T))
    (s : Statics T), (system T).Run new as s → s.ConstructedOnce := by
  intro hall
  obtain ⟨s, hrun, htwo⟩ : ∃ s, (system (Fin 2)).Run new
      [.call 0, .call 1, .test 0, .test 1, .lock 0, .construct 0 zeros, .unlock 0, .lock 1,
        .construct 1 zeros] s ∧ s.constructed.length = 2 :=
    System.Run.exists_of_exec (by decide +kernel)
  have honce := (hall (Fin 2) _ s hrun).once
  omega

end Statics
end LxcHttpServer.AsyncLoger
