import Mathlib.Data.List.Pairwise
import Mathlib.Logic.Function.Basic
import Mathlib.Order.Basic

/-!
# Leases with deadlines

A table gives some keys a lease: it runs until a deadline, or it is held and has
none. Expiry removes the leases whose deadline is due. The second part is about a
list in order of deadline, where the due elements are a prefix.
-/
namespace LxcHttpServer.Leases

inductive Lease (D : Type) where
  | live (deadline : D)
  | held

abbrev Table (K D : Type) : Type := K → Option (Lease D)

variable {K D : Type}

def Lease.Due (due : D → Prop) : Lease D → Prop
  | .live d => due d
  | .held => False

/-- The lease cannot fall due before `d`. -/
def Lease.Covers [LE D] (d : D) : Lease D → Prop
  | .live d' => d ≤ d'
  | .held => True

namespace Table

section Operations
variable [DecidableEq K]

def keep (T : Table K D) (k : K) (d : D) : Table K D := Function.update T k (some (.live d))

def hold (T : Table K D) (k : K) : Table K D := Function.update T k ((T k).map fun _ => .held)

def drop (T : Table K D) (k : K) : Table K D := Function.update T k none

end Operations

open Classical in
noncomputable def expire (T : Table K D) (due : D → Prop) : Table K D := fun k =>
  (T k).filter fun l => ¬ l.Due due

/-- The key has a lease that cannot fall due before `d`. -/
def CoveredUntil [LE D] (T : Table K D) (k : K) (d : D) : Prop :=
  ∃ l, T k = some l ∧ l.Covers d

theorem expire_eq_some_iff (T : Table K D) (due : D → Prop) (k : K) (l : Lease D) :
    T.expire due k = some l ↔ T k = some l ∧ ¬ l.Due due := by
  simp [expire, Option.filter_eq_some_iff]

theorem expire_eq_none_iff (T : Table K D) (due : D → Prop) (k : K) :
    T.expire due k = none ↔ ∀ l, T k = some l → l.Due due := by
  simp [expire, Option.filter_eq_none_iff]

/-! A covered key stays covered under every operation except its own removal and an
expiry past the date. -/

section Covered
variable [Preorder D] {T : Table K D} {k : K} {d : D}

theorem CoveredUntil.expire (h : T.CoveredUntil k d) {due : D → Prop}
    (hdue : ∀ d', d ≤ d' → ¬ due d') : (T.expire due).CoveredUntil k d := by
  obtain ⟨l, hl, hc⟩ := h
  refine ⟨l, (T.expire_eq_some_iff due k l).mpr ⟨hl, ?_⟩, hc⟩
  cases l with
  | live d' => exact hdue d' hc
  | held => exact id

variable [DecidableEq K]

theorem CoveredUntil.keep (h : T.CoveredUntil k d) (k' : K) (d' : D) (hd : k' = k → d ≤ d') :
    (T.keep k' d').CoveredUntil k d := by
  by_cases hk : k = k'
  · subst hk
    exact ⟨.live d', by simp [Table.keep], hd rfl⟩
  · obtain ⟨l, hl, hc⟩ := h
    exact ⟨l, by simpa [Table.keep, Function.update_of_ne hk] using hl, hc⟩

theorem CoveredUntil.hold (h : T.CoveredUntil k d) (k' : K) : (T.hold k').CoveredUntil k d := by
  obtain ⟨l, hl, hc⟩ := h
  by_cases hk : k = k'
  · subst hk
    exact ⟨.held, by simp [Table.hold, hl], trivial⟩
  · exact ⟨l, by simpa [Table.hold, Function.update_of_ne hk] using hl, hc⟩

theorem CoveredUntil.drop (h : T.CoveredUntil k d) {k' : K} (hk : k' ≠ k) :
    (T.drop k').CoveredUntil k d := by
  obtain ⟨l, hl, hc⟩ := h
  exact ⟨l, by simpa [Table.drop, Function.update_of_ne hk.symm] using hl, hc⟩

theorem coveredUntil_keep (T : Table K D) (k : K) (d : D) : (T.keep k d).CoveredUntil k d :=
  ⟨.live d, by simp [Table.keep], le_refl d⟩

end Covered
end Table

/-- Where what follows a rejected element is rejected too, the leading accepted
elements are all of them. -/
theorem takeWhile_eq_filter {α : Type} {R : α → α → Prop} {p : α → Bool} {xs : List α}
    (h : xs.Pairwise R) (hp : ∀ a b, R a b → p b → p a) : xs.takeWhile p = xs.filter p := by
  induction xs with
  | nil => rfl
  | cons a xs ih =>
    obtain ⟨ha, hxs⟩ := List.pairwise_cons.mp h
    by_cases hpa : p a
    · rw [List.takeWhile_cons_of_pos hpa, List.filter_cons_of_pos hpa, ih hxs]
    · have hrest : ∀ b ∈ xs, ¬ p b := fun b hb hpb => hpa (hp a b (ha b hb) hpb)
      rw [List.takeWhile_cons_of_neg hpa, List.filter_cons_of_neg hpa,
        List.filter_eq_nil_iff.mpr hrest]

end LxcHttpServer.Leases
