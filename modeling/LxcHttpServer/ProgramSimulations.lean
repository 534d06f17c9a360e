import LxcHttpServer.EffectPrograms
import LxcHttpServer.PartialRuns

/-!
# Programs that a system follows

A program and a system each have a state, and a relation says which states belong together. The
system follows the program if, however the program ends, a run of the system leads to a state
that belongs to the one the program leaves: one relation for every result, and one for the
programs that end without a result. Such statements compose along a program.
-/
namespace LxcHttpServer.EffectPrograms
open PartialRuns

variable {σ ε υ τ ι δ α β : Type}

/-- The program ended with a result for which `Q` holds, or without one, and `X` holds. -/
def Outcome.Ends (Q : α → Prop) (X : Prop) : Outcome ε υ α → Prop
  | .ok a => Q a
  | .throw _ | .undefined _ | .blocked | .killed => X

namespace Prog

def Followed (sys : System τ ι δ) (P : σ → τ → Prop) (p : Prog σ ε υ α) (Q : α → σ → τ → Prop)
    (X : σ → τ → Prop) : Prop :=
  ∀ s t, P s t → ∃ ls t', sys.Run t ls t' ∧
    (p s).1.Ends (fun a => Q a (p s).2 t') (X (p s).2 t')

namespace Followed

variable {sys : System τ ι δ} {P R : σ → τ → Prop} {X : σ → τ → Prop} {Q : α → σ → τ → Prop}
  {Q' : β → σ → τ → Prop} {p : Prog σ ε υ α}

theorem pure (a : α) (h : ∀ s t, P s t → Q a s t) :
    Followed sys P (Pure.pure a : Prog σ ε υ α) Q X := by
  intro s t hP
  exact ⟨[], t, .nil, h s t hP⟩

theorem throw (e : ε) (h : ∀ s t, P s t → X s t) :
    Followed sys P (throw e : Prog σ ε υ α) Q X := by
  intro s t hP
  exact ⟨[], t, .nil, h s t hP⟩

theorem undefined (u : υ) (h : ∀ s t, P s t → X s t) :
    Followed sys P (undefined u : Prog σ ε υ α) Q X := by
  intro s t hP
  exact ⟨[], t, .nil, h s t hP⟩

theorem bind {f : α → Prog σ ε υ β} (hp : Followed sys P p Q X)
    (hf : ∀ a, Followed sys (Q a) (f a) Q' X) : Followed sys P (p >>= f) Q' X := by
  intro s t hP
  obtain ⟨ls, t', hrun, hends⟩ := hp s t hP
  rw [bind_run]
  cases hps : p s with
  | mk o s' =>
    rw [hps] at hends
    cases o with
    | ok a =>
      obtain ⟨ls', t'', hrun', hends'⟩ := hf a s' t' hends
      exact ⟨ls ++ ls', t'', hrun.append hrun', hends'⟩
    | throw e => exact ⟨ls, t', hrun, hends⟩
    | undefined u => exact ⟨ls, t', hrun, hends⟩
    | blocked => exact ⟨ls, t', hrun, hends⟩
    | killed => exact ⟨ls, t', hrun, hends⟩

theorem ite {c : Prop} [Decidable c] {q : Prog σ ε υ α} (hp : Followed sys P p Q X)
    (hq : Followed sys P q Q X) : Followed sys P (if c then p else q) Q X := by
  split
  · exact hp
  · exact hq

theorem mono {Q' : α → σ → τ → Prop} {P' : σ → τ → Prop} (hp : Followed sys P p Q X)
    (hP : ∀ s t, P' s t → P s t) (hQ : ∀ a s t, Q a s t → Q' a s t) :
    Followed sys P' p Q' X := by
  intro s t hP'
  obtain ⟨ls, t', hrun, hends⟩ := hp s t (hP s t hP')
  refine ⟨ls, t', hrun, ?_⟩
  cases hps : p s with
  | mk o s' =>
    rw [hps] at hends
    cases o with
    | ok a => exact hQ a s' t' hends
    | throw e => exact hends
    | undefined u => exact hends
    | blocked => exact hends
    | killed => exact hends

theorem handle {handler : ε → Prog σ ε υ α} (hp : Followed sys P p Q X)
    (hhandler : ∀ e, Followed sys X (handler e) Q X) :
    Followed sys P (handle p handler) Q X := by
  intro s t hP
  obtain ⟨ls, t', hrun, hends⟩ := hp s t hP
  rw [Prog.handle]
  cases hps : p s with
  | mk o s' =>
    rw [hps] at hends
    cases o with
    | ok a => exact ⟨ls, t', hrun, hends⟩
    | throw e =>
      obtain ⟨ls', t'', hrun', hends'⟩ := hhandler e s' t' hends
      exact ⟨ls ++ ls', t'', hrun.append hrun', hends'⟩
    | undefined u => exact ⟨ls, t', hrun, hends⟩
    | blocked => exact ⟨ls, t', hrun, hends⟩
    | killed => exact ⟨ls, t', hrun, hends⟩

/-- What the program keeps without a step of the system. -/
theorem of_keeps (h : ∀ t, Preserves (fun s => R s t) p) (hX : ∀ s t, R s t → X s t) :
    Followed sys R p (fun _ => R) X := by
  intro s t hR
  have hafter := h t s hR
  refine ⟨[], t, .nil, ?_⟩
  cases hps : p s with
  | mk o s' =>
    rw [hps] at hafter
    cases o with
    | ok a => exact hafter
    | throw e => exact hX s' t hafter
    | undefined u => exact hX s' t hafter
    | blocked => exact hX s' t hafter
    | killed => exact hX s' t hafter

end Followed
end Prog
end LxcHttpServer.EffectPrograms
