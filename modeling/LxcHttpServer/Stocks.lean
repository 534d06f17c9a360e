import Mathlib.Algebra.BigOperators.Group.Multiset.Basic
import Mathlib.Algebra.Order.Group.Multiset

/-!
# Stocks

Containers hold items, each of them some in a row. The items of all containers
together are a matter of neither the order of the containers nor of where they
stand; a container that is destroyed takes its items along.
-/
namespace LxcHttpServer.Stocks

variable {α β : Type} {holds : α → List β → Prop} {c : α} {cs cs' : Multiset α} {l : List β}
  {items : Multiset β}

/-- The containers hold the items between them. -/
def Stock (holds : α → List β → Prop) (cs : Multiset α) (items : Multiset β) : Prop :=
  ∃ parts : Multiset (α × List β), parts.map Prod.fst = cs ∧ (∀ p ∈ parts, holds p.1 p.2) ∧
    (parts.map fun p => (p.2 : Multiset β)).sum = items

theorem stock_zero : Stock holds 0 0 := ⟨0, rfl, by simp, rfl⟩

theorem Stock.cons (hc : holds c l) (h : Stock holds cs items) :
    Stock holds (c ::ₘ cs) (l + items) := by
  obtain ⟨parts, rfl, hparts, rfl⟩ := h
  refine ⟨(c, l) ::ₘ parts, by simp, ?_, by simp⟩
  intro p hp
  rcases Multiset.mem_cons.mp hp with rfl | hp
  · exact hc
  · exact hparts p hp

theorem Stock.of_empty (h : ∀ c ∈ cs, holds c []) : Stock holds cs 0 := by
  induction cs using Multiset.induction with
  | empty => exact stock_zero
  | cons c cs ih =>
    have hrest := ih fun c' hc' => h c' (Multiset.mem_cons_of_mem hc')
    simpa using hrest.cons (h c (Multiset.mem_cons_self c cs))

/-- What one container holds, and what the others do. -/
theorem Stock.of_cons (h : Stock holds (c ::ₘ cs) items) :
    ∃ l rest, holds c l ∧ Stock holds cs rest ∧ items = l + rest := by
  classical
  obtain ⟨parts, hfst, hparts, rfl⟩ := h
  obtain ⟨p, hp, rfl, hrest⟩ := (Multiset.map_eq_cons Prod.fst parts cs c).mpr hfst
  refine ⟨p.2, ((parts.erase p).map fun q => (q.2 : Multiset β)).sum, hparts p hp,
    ⟨parts.erase p, hrest, fun q hq => hparts q (Multiset.mem_of_mem_erase hq), rfl⟩, ?_⟩
  conv_lhs => rw [← Multiset.cons_erase hp]
  rw [Multiset.map_cons, Multiset.sum_cons]

/-- Some of the containers hold some of the items. -/
theorem Stock.of_le (h : Stock holds cs items) (hle : cs' ≤ cs) :
    ∃ items', Stock holds cs' items' ∧ items' ≤ items := by
  obtain ⟨extra, rfl⟩ := Multiset.le_iff_exists_add.mp hle
  clear hle
  induction extra using Multiset.induction generalizing items with
  | empty => exact ⟨items, by simpa using h, le_refl _⟩
  | cons c extra ih =>
    rw [Multiset.add_cons] at h
    obtain ⟨l, rest, -, hrest, rfl⟩ := h.of_cons
    obtain ⟨items', hitems', hle⟩ := ih hrest
    exact ⟨items', hitems', hle.trans (Multiset.le_add_left _ _)⟩

end LxcHttpServer.Stocks
