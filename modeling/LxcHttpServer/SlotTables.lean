import Mathlib.Data.List.Count
import Mathlib.Data.List.Perm.Subperm
import Mathlib.Data.List.Nodup
import Mathlib.Data.Option.Basic

/-!
# Tables with slots

A slot of a table is free or holds a name. A newcomer is entered in a free slot; who leaves
clears the first slot with its name. As long as each guest has one slot and nobody else has
any, there are no more guests than slots.
-/
namespace LxcHttpServer.SlotTables

variable {α : Type} [DecidableEq α] {table : List (Option α)} {guest : α → Prop} {a : α} {i : ℕ}

/-- Each guest stands in one slot, and nobody else in any. -/
structure Seats (table : List (Option α)) (guest : α → Prop) : Prop where
  seated : ∀ a, guest a → table.count (some a) = 1
  absent : ∀ a, ¬ guest a → some a ∉ table

theorem Seats.mem (h : Seats table guest) (ha : guest a) : some a ∈ table := by
  rw [← List.count_pos_iff, h.seated a ha]
  exact Nat.one_pos

theorem Seats.of_free (n : ℕ) (hnobody : ∀ a, ¬ guest a) :
    Seats (List.replicate n none) guest where
  seated a ha := absurd ha (hnobody a)
  absent a _ := by simp [List.mem_replicate]

theorem Seats.congr {guest' : α → Prop} (h : Seats table guest) (heq : ∀ a, guest' a ↔ guest a) :
    Seats table guest' where
  seated a ha := h.seated a ((heq a).mp ha)
  absent a ha := h.absent a fun hguest => ha ((heq a).mpr hguest)

theorem count_enter (hfree : table[i]? = some none) (a b : α) :
    (table.set i (some a)).count (some b) = table.count (some b) + if a = b then 1 else 0 := by
  obtain ⟨hi, hslot⟩ := List.getElem?_eq_some_iff.mp hfree
  rw [List.count_set hi, hslot]
  simp

/-- A newcomer takes a free slot. -/
theorem Seats.enter {guest' : α → Prop} (h : Seats table guest) (hfree : table[i]? = some none)
    (hnew : ¬ guest a) (ha : guest' a) (hother : ∀ b, b ≠ a → (guest' b ↔ guest b)) :
    Seats (table.set i (some a)) guest' where
  seated b hb := by
    rw [count_enter hfree]
    by_cases heq : b = a
    · subst heq
      rw [List.count_eq_zero_of_not_mem (h.absent b hnew), if_pos rfl]
    · rw [h.seated b ((hother b heq).mp hb), if_neg (Ne.symm heq)]
  absent b hb := by
    have hne : b ≠ a := fun heq => hb (heq ▸ ha)
    rw [← List.count_eq_zero, count_enter hfree, if_neg (Ne.symm hne), Nat.add_zero,
      List.count_eq_zero]
    exact h.absent b fun hguest => hb ((hother b hne).mpr hguest)

theorem count_leave (hmem : some a ∈ table) (b : α) :
    (table.replace (some a) none).count (some b) =
      table.count (some b) - if a = b then 1 else 0 := by
  rw [List.count_replace]
  simp [hmem]

/-- A guest leaves its slot free. -/
theorem Seats.leave {guest' : α → Prop} (h : Seats table guest) (ha : guest a)
    (hgone : ¬ guest' a) (hother : ∀ b, b ≠ a → (guest' b ↔ guest b)) :
    Seats (table.replace (some a) none) guest' where
  seated b hb := by
    have hne : b ≠ a := fun heq => hgone (heq ▸ hb)
    rw [count_leave (h.mem ha), h.seated b ((hother b hne).mp hb), if_neg (Ne.symm hne)]
  absent b hb := by
    rw [← List.count_eq_zero, count_leave (h.mem ha)]
    by_cases heq : b = a
    · subst heq
      rw [h.seated b ha, if_pos rfl]
    · rw [if_neg (Ne.symm heq), List.count_eq_zero_of_not_mem]
      exact h.absent b fun hguest => hb ((hother b heq).mpr hguest)

/-- A free slot stays free where a guest leaves. -/
theorem free_leave (hfree : table[i]? = some none) (a : α) :
    (table.replace (some a) none)[i]? = some none := by
  rw [List.getElem?_replace_of_ne]
  · exact hfree
  · simp [hfree]

/-- There are no more guests than slots. -/
theorem Seats.length_le (h : Seats table guest) {guests : List α} (hnodup : guests.Nodup)
    (hguests : ∀ a ∈ guests, guest a) : guests.length ≤ table.length := by
  have hsub : (guests.map some).Subperm table := by
    apply (hnodup.map (Option.some_injective α)).subperm
    intro o ho
    obtain ⟨a, ha, rfl⟩ := List.mem_map.mp ho
    exact h.mem (hguests a ha)
  simpa using hsub.length_le

end LxcHttpServer.SlotTables
