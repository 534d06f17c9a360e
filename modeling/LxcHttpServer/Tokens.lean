import LxcHttpServer.Separators
import LxcHttpServer.Strings

/-!
# The tokens of `stringSplit`

The two positions of the loop enclose one run of characters that are no delimiters after the
other.
-/
namespace LxcHttpServer.Strings
open Separators

variable {s delimiters : Str} {p : UInt8 → Bool} {i j : ℕ}

theorem findFrom_eq_none : findFrom p s i = none ↔ ∀ b ∈ s.drop i, p b = false := by
  rw [findFrom, Option.map_eq_none_iff, List.findIdx?_eq_none_iff]

/-- What is passed over, what is found and what stands behind it. -/
theorem findFrom_split (h : findFrom p s i = some j) : i ≤ j ∧ ∃ c, s.drop j = c :: s.drop (j + 1) ∧
    s.drop i = (s.drop i).take (j - i) ++ s.drop j ∧ p c = true ∧
    ∀ b ∈ (s.drop i).take (j - i), p b = false := by
  obtain ⟨hle, hlt, hp⟩ := findFrom_eq_some h
  obtain ⟨n, hn, rfl⟩ := Option.map_eq_some_iff.mp h
  obtain ⟨hinside, -, hbefore⟩ := List.findIdx?_eq_some_iff_getElem.mp hn
  refine ⟨hle, s[i + n], List.drop_eq_getElem_cons hlt, ?_, hp, ?_⟩
  · rw [Nat.add_sub_cancel_left, ← List.drop_drop, List.take_append_drop]
  · intro b hb
    rw [Nat.add_sub_cancel_left] at hb
    obtain ⟨k, hk, rfl⟩ := List.mem_iff_getElem.mp hb
    rw [List.length_take] at hk
    rw [List.getElem_take]
    simpa using hbefore k (by omega)

/-- From a position on, the tokens are the runs. -/
theorem stringSplitFrom_eq (s delimiters : Str) (i : ℕ) :
    stringSplitFrom s delimiters (findFirstNotOf s delimiters (some i)) =
      .ok (runs (· ∈ delimiters) (s.drop i)) := by
  induction hn : s.length - i using Nat.strongRecOn generalizing i with
  | ind n ih =>
    cases hstart : findFirstNotOf s delimiters (some i) with
    | none =>
      have hall : ∀ b ∈ s.drop i, decide (b ∈ delimiters) = true := by
        intro b hb
        simpa using findFrom_eq_none.mp hstart b hb
      rw [runs_of_separators hall, stringSplitFrom]
    | some lastPos =>
      obtain ⟨hle, c, hc, hskip, hplain, hbefore⟩ := findFrom_split hstart
      have hskipped :
          runs (· ∈ delimiters) (s.drop i) = runs (· ∈ delimiters) (s.drop lastPos) := by
        rw [hskip]
        exact runs_append_of_separators (by simpa using hbefore) _
      have hinside : lastPos < s.length := (findFrom_eq_some hstart).2.1
      rw [hskipped, stringSplitFrom]
      cases hpos : findFirstOf s delimiters (some lastPos) with
      | none =>
        have hrun : ∀ b ∈ s.drop lastPos, decide (b ∈ delimiters) = false :=
          findFrom_eq_none.mp hpos
        have hne : s.drop lastPos ≠ [] := by simp [hc]
        rw [runs_of_run hne hrun]
        simp only [Option.map_none, substr, if_neg (Nat.not_lt.mpr hinside.le)]
        rw [findFirstNotOf, Option.bind_none, stringSplitFrom]
      | some pos =>
        obtain ⟨hle', b, hb, hcut, hdelimiter, hrun⟩ := findFrom_split hpos
        have hlt : pos < s.length := (findFrom_eq_some hpos).2.1
        have hne : (s.drop lastPos).take (pos - lastPos) ≠ [] := by
          intro hnil
          rw [hnil, List.nil_append, hc, hb, List.cons.injEq] at hcut
          rw [hcut.1] at hplain
          simp only [decide_eq_true_eq] at hplain hdelimiter
          exact hplain hdelimiter
        have hmore : i < pos := by
          by_contra hnot
          have hsame : pos = lastPos := by omega
          simp [hsame] at hne
        have hsplit : runs (· ∈ delimiters) (s.drop lastPos) =
            (s.drop lastPos).take (pos - lastPos) :: runs (· ∈ delimiters) (s.drop pos) := by
          have htail : runs (· ∈ delimiters) (s.drop pos) =
              runs (· ∈ delimiters) (s.drop (pos + 1)) := by
            rw [hb]
            exact runs_cons_of_separator (p := (· ∈ delimiters)) hdelimiter _
          rw [htail, congrArg (runs _) hcut, hb]
          exact runs_append_cons hne hrun hdelimiter _
        simp only [Option.map_some, substr, if_neg (Nat.not_lt.mpr hinside.le),
          ih (s.length - pos) (by omega) pos rfl, hsplit]

theorem stringSplit_eq (s : Str) (tokens : List Str) (delimiters : Str) :
    stringSplit s tokens delimiters = .ok (tokens ++ runs (· ∈ delimiters) s) := by
  rw [stringSplit, stringSplitFrom_eq, List.drop_zero]

end LxcHttpServer.Strings
