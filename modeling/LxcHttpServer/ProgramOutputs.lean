import LxcHttpServer.ProgramSimulations

/-!
# What programs hand over

A program logs its calls, and each call hands something over. A statement about a program says
what all its calls together have handed over when it returned a result, and what when it ended
without one. Such statements compose along a program: what the first part handed over stands
before what the second does.
-/
namespace LxcHttpServer.EffectPrograms

variable {σ ε υ κ α β γ : Type} {log : σ → List κ} {f : κ → List γ}

namespace Prog

/-- Where the program returned, `Q` holds of the result and of what its calls handed over, and
elsewhere `X` holds of that. -/
def Emits (log : σ → List κ) (f : κ → List γ) (p : Prog σ ε υ α) (Q : α → List γ → Prop)
    (X : List γ → Prop) : Prop :=
  ∀ s, ∃ cs, log (p s).2 = log s ++ cs ∧
    (p s).1.Ends (fun a => Q a (cs.flatMap f)) (X (cs.flatMap f))

/-- The same of the runs from a state with a property. -/
def EmitsFrom (log : σ → List κ) (f : κ → List γ) (I : σ → Prop) (p : Prog σ ε υ α)
    (Q : α → List γ → Prop) (X : List γ → Prop) : Prop :=
  ∀ s, I s → ∃ cs, log (p s).2 = log s ++ cs ∧
    (p s).1.Ends (fun a => Q a (cs.flatMap f)) (X (cs.flatMap f))

theorem Emits.from {p : Prog σ ε υ α} {Q : α → List γ → Prop} {X : List γ → Prop}
    (hp : Emits log f p Q X) (I : σ → Prop) : EmitsFrom log f I p Q X := fun s _ => hp s

namespace Emits

variable {p : Prog σ ε υ α} {Q : α → List γ → Prop} {Q' : β → List γ → Prop}
  {X X' : List γ → Prop}

theorem pure (a : α) (h : Q a []) : Emits log f (Pure.pure a : Prog σ ε υ α) Q X := by
  intro s
  exact ⟨[], (List.append_nil _).symm, h⟩

theorem throw (e : ε) (h : X []) : Emits log f (throw e : Prog σ ε υ α) Q X := by
  intro s
  exact ⟨[], (List.append_nil _).symm, h⟩

theorem undefined (u : υ) (h : X []) : Emits log f (undefined u : Prog σ ε υ α) Q X := by
  intro s
  exact ⟨[], (List.append_nil _).symm, h⟩

/-- One call, and what it hands over. -/
theorem of_records {call : α → κ} (hp : Records log call p) (hQ : ∀ a, Q a (f (call a)))
    (hX : X []) : Emits log f p Q X := by
  intro s
  rcases hp s with ⟨a, s', hps, hlog⟩ | ⟨s', hps, hlog⟩
  · refine ⟨[call a], by rw [hps, hlog], ?_⟩
    rw [hps, List.flatMap_singleton]
    exact hQ a
  · refine ⟨[], by rw [hps, hlog, List.append_nil], ?_⟩
    rw [hps]
    exact hX

/-- One call that hands something over even where it does not return. -/
theorem of_call (h : ∀ s, ∃ c, log (p s).2 = log s ++ [c] ∧
    (p s).1.Ends (fun a => Q a (f c)) (X (f c))) : Emits log f p Q X := by
  intro s
  obtain ⟨c, hlog, hends⟩ := h s
  refine ⟨[c], hlog, ?_⟩
  rwa [List.flatMap_singleton]

/-- Calls that hand over nothing. -/
theorem of_silent (hp : ∀ s₀, Preserves (LoggedSince log (fun c => f c = []) s₀) p)
    (hQ : ∀ a, Q a []) (hX : X []) : Emits log f p Q X := by
  intro s
  obtain ⟨cs, hcs, hall⟩ := hp s s (LoggedSince.refl _ s)
  refine ⟨cs, hcs, ?_⟩
  rw [List.flatMap_eq_nil_iff.mpr hall]
  cases (p s).1 with
  | ok a => exact hQ a
  | throw e => exact hX
  | undefined u => exact hX
  | blocked => exact hX
  | killed => exact hX

theorem mono {Q₁ : α → List γ → Prop} (hp : Emits log f p Q X) (hQ : ∀ a bs, Q a bs → Q₁ a bs)
    (hX : ∀ bs, X bs → X' bs) : Emits log f p Q₁ X' := by
  intro s
  obtain ⟨cs, hcs, hends⟩ := hp s
  refine ⟨cs, hcs, ?_⟩
  cases ho : (p s).1 with
  | ok a =>
    rw [ho] at hends
    exact hQ a _ hends
  | throw e | undefined u | blocked | killed =>
    rw [ho] at hends
    exact hX _ hends

end Emits

namespace EmitsFrom

variable {p : Prog σ ε υ α} {Q : α → List γ → Prop} {Q' : β → List γ → Prop}
  {X : List γ → Prop} {I J : σ → Prop}

/-- What is known of every result. -/
theorem with_result {R : α → Prop} (hp : EmitsFrom log f I p Q X)
    (hR : ∀ s a s', I s → p s = (.ok a, s') → R a) :
    EmitsFrom log f I p (fun a bs => Q a bs ∧ R a) X := by
  intro s hs
  obtain ⟨cs, hcs, hends⟩ := hp s hs
  refine ⟨cs, hcs, ?_⟩
  cases hps : p s with
  | mk o s' =>
    rw [hps] at hends
    cases o with
    | ok a => exact ⟨hends, hR s a s' hs hps⟩
    | throw e => exact hends
    | undefined u => exact hends
    | blocked => exact hends
    | killed => exact hends

/-- The second part starts where the first returned. -/
theorem bind {g : α → Prog σ ε υ β} (hp : EmitsFrom log f I p Q X)
    (hJ : ∀ s a s', I s → p s = (.ok a, s') → J s')
    (hg : ∀ a bs, Q a bs → EmitsFrom log f J (g a) (fun b bs' => Q' b (bs ++ bs'))
      fun bs' => X (bs ++ bs')) : EmitsFrom log f I (p >>= g) Q' X := by
  intro s hs
  obtain ⟨cs, hcs, hends⟩ := hp s hs
  rw [bind_run]
  cases hps : p s with
  | mk o s' =>
    rw [hps] at hcs hends
    cases o with
    | ok a =>
      obtain ⟨cs', hcs', hends'⟩ := hg a _ hends s' (hJ s a s' hs hps)
      refine ⟨cs ++ cs', by rw [hcs', hcs, List.append_assoc], ?_⟩
      rw [List.flatMap_append]
      exact hends'
    | throw e => exact ⟨cs, hcs, hends⟩
    | undefined u => exact ⟨cs, hcs, hends⟩
    | blocked => exact ⟨cs, hcs, hends⟩
    | killed => exact ⟨cs, hcs, hends⟩

/-- A first part that hands over nothing and keeps the property. -/
theorem bind_quiet {g : α → Prog σ ε υ β}
    (hp : Emits log f p (fun _ bs => bs = []) (· = [])) (hI : Preserves I p)
    (hg : ∀ a, EmitsFrom log f I (g a) Q' X) (hX : X []) :
    EmitsFrom log f I (p >>= g) Q' X := by
  have hp' : Emits log f p (fun _ bs => bs = []) X := by
    apply hp.mono (fun _ _ h => h)
    rintro bs rfl
    exact hX
  apply (hp'.from I).bind
  · intro s a s' hs hps
    exact hI.of_eq hs hps
  · rintro a bs rfl
    exact hg a

/-- A second part that hands over nothing. -/
theorem then_silent {P : List γ → Prop} {g : α → Prog σ ε υ β}
    (hp : EmitsFrom log f I p (fun _ => P) P)
    (hg : ∀ a, Emits log f (g a) (fun _ bs => bs = []) (· = [])) :
    EmitsFrom log f I (p >>= g) (fun _ => P) P := by
  apply hp.bind (J := fun _ => True) fun _ _ _ _ _ => trivial
  intro a bs hbs s _
  obtain ⟨cs, hcs, hends⟩ := hg a s
  refine ⟨cs, hcs, ?_⟩
  have hnothing : ∀ bs', bs' = [] → P (bs ++ bs') := by
    rintro bs' rfl
    rwa [List.append_nil]
  revert hends
  cases (g a s).1 <;> exact hnothing _

theorem ite {c : Prop} [Decidable c] {q : Prog σ ε υ α} (hp : c → EmitsFrom log f I p Q X)
    (hq : ¬ c → EmitsFrom log f I q Q X) : EmitsFrom log f I (if c then p else q) Q X := by
  split
  · next hc => exact hp hc
  · next hc => exact hq hc

/-- A handler that hands over nothing. -/
theorem handle {P : List γ → Prop} {handler : ε → Prog σ ε υ α}
    (hp : EmitsFrom log f I p (fun _ => P) P)
    (hhandler : ∀ e, Emits log f (handler e) (fun _ bs => bs = []) (· = [])) :
    EmitsFrom log f I (handle p handler) (fun _ => P) P := by
  intro s hs
  obtain ⟨cs, hcs, hends⟩ := hp s hs
  rw [Prog.handle]
  cases hps : p s with
  | mk o s' =>
    rw [hps] at hcs hends
    cases o with
    | ok a => exact ⟨cs, hcs, hends⟩
    | throw e =>
      obtain ⟨cs', hcs', hends'⟩ := hhandler e s'
      refine ⟨cs ++ cs', by rw [hcs', hcs, List.append_assoc], ?_⟩
      have hnothing : cs'.flatMap f = [] → P (cs.flatMap f ++ cs'.flatMap f) := by
        intro h
        rw [h, List.append_nil]
        exact hends
      rw [List.flatMap_append]
      revert hends'
      cases (handler e s').1 <;> exact hnothing
    | undefined u => exact ⟨cs, hcs, hends⟩
    | blocked => exact ⟨cs, hcs, hends⟩
    | killed => exact ⟨cs, hcs, hends⟩

end EmitsFrom

namespace Emits

variable {p : Prog σ ε υ α} {Q : α → List γ → Prop} {Q' : β → List γ → Prop}
  {X : List γ → Prop}

theorem with_result {R : α → Prop} (hp : Emits log f p Q X)
    (hR : ∀ s a s', p s = (.ok a, s') → R a) : Emits log f p (fun a bs => Q a bs ∧ R a) X :=
  fun s => (hp.from fun _ => True).with_result (fun s a s' _ => hR s a s') s trivial

theorem bind {g : α → Prog σ ε υ β} (hp : Emits log f p Q X)
    (hg : ∀ a bs, Q a bs → Emits log f (g a) (fun b bs' => Q' b (bs ++ bs'))
      fun bs' => X (bs ++ bs')) : Emits log f (p >>= g) Q' X := by
  have hfrom : EmitsFrom log f (fun _ => True) (p >>= g) Q' X :=
    (hp.from _).bind (fun _ _ _ _ _ => trivial) fun a bs h => (hg a bs h).from _
  exact fun s => hfrom s trivial

/-- A first part that hands over nothing. -/
theorem bind_silent {R : α → Prop} {g : α → Prog σ ε υ β}
    (hp : Emits log f p (fun a bs => bs = [] ∧ R a) (· = []))
    (hg : ∀ a, R a → Emits log f (g a) Q' X) (hX : X []) : Emits log f (p >>= g) Q' X := by
  have hp' : Emits log f p (fun a bs => bs = [] ∧ R a) X := by
    apply hp.mono (fun a bs h => h)
    rintro bs rfl
    exact hX
  apply hp'.bind
  rintro a bs ⟨rfl, ha⟩
  exact hg a ha

theorem bind_quiet {g : α → Prog σ ε υ β}
    (hp : Emits log f p (fun _ bs => bs = []) (· = []))
    (hg : ∀ a, Emits log f (g a) Q' X) (hX : X []) : Emits log f (p >>= g) Q' X := by
  apply bind_silent (R := fun _ => True) _ (fun a _ => hg a) hX
  exact hp.mono (fun _ _ h => ⟨h, trivial⟩) fun _ h => h

/-- A second part that hands over nothing. -/
theorem then_silent {P : List γ → Prop} {g : α → Prog σ ε υ β}
    (hp : Emits log f p (fun _ => P) P)
    (hg : ∀ a, Emits log f (g a) (fun _ bs => bs = []) (· = [])) :
    Emits log f (p >>= g) (fun _ => P) P := fun s =>
  (hp.from fun _ => True).then_silent hg s trivial

theorem ite {c : Prop} [Decidable c] {q : Prog σ ε υ α} (hp : c → Emits log f p Q X)
    (hq : ¬ c → Emits log f q Q X) : Emits log f (if c then p else q) Q X := by
  split
  · next hc => exact hp hc
  · next hc => exact hq hc

/-- What a round hands over stands before what the rounds behind it do. -/
theorem loop {l : Loop σ ε υ α β} {Q : α → β → List γ → Prop} {X : α → List γ → Prop}
    (hbody : ∀ a, Emits log f (l.body a) (fun r bs => r.elim
      (fun a' => (∀ b bs', Q a' b bs' → Q a b (bs ++ bs')) ∧
        ∀ bs', X a' bs' → X a (bs ++ bs')) fun b => Q a b bs) (X a)) (a : α) :
    Emits log f (l.run a) (Q a) (X a) := by
  intro s
  induction a, s using l.run_induction with
  | step a s ih =>
    obtain ⟨cs, hcs, hends⟩ := hbody a s
    rw [l.run_eq, bind_run]
    cases hps : l.body a s with
    | mk o s' =>
      rw [hps] at hcs hends
      cases o with
      | ok r =>
        cases r with
        | inl a' =>
          obtain ⟨cs', hcs', hends'⟩ := ih a' s' hps
          refine ⟨cs ++ cs', by rw [hcs', hcs, List.append_assoc], ?_⟩
          rw [List.flatMap_append]
          revert hends'
          simp only
          cases (l.run a' s').1 with
          | ok b => exact hends.1 b _
          | throw e => exact hends.2 _
          | undefined u => exact hends.2 _
          | blocked => exact hends.2 _
          | killed => exact hends.2 _
        | inr b => exact ⟨cs, hcs, hends⟩
      | throw e => exact ⟨cs, hcs, hends⟩
      | undefined u => exact ⟨cs, hcs, hends⟩
      | blocked => exact ⟨cs, hcs, hends⟩
      | killed => exact ⟨cs, hcs, hends⟩

end Emits
end Prog

/-- Things are handed over one after the other, each with the result of its call, until a result
says to stop. -/
inductive InTurn {ρ : Type} (goesOn : ρ → Bool) : List γ → List (γ × ρ) → Prop
  | done : InTurn goesOn [] []
  | stopped {x : γ} {xs : List γ} {r : ρ} (h : goesOn r = false) :
      InTurn goesOn (x :: xs) [(x, r)]
  | next {x : γ} {xs : List γ} {r : ρ} {rs : List (γ × ρ)} (h : goesOn r = true)
      (hrest : InTurn goesOn xs rs) : InTurn goesOn (x :: xs) ((x, r) :: rs)

namespace InTurn

variable {ρ : Type} {goesOn : ρ → Bool} {xs : List γ} {rs : List (γ × ρ)}

theorem one (x : γ) (r : ρ) : InTurn goesOn [x] [(x, r)] := by
  cases h : goesOn r with
  | false => exact .stopped h
  | true => exact .next h .done

end InTurn
end LxcHttpServer.EffectPrograms
