import Mathlib.Data.List.TakeWhile

/-!
# Lists with separators

A list is cut at its separators either into the segments between them, or into its runs, which are
the segments that are not empty. A list that ends with a separator is a sequence of segments, each
with the separator behind it.
-/
namespace LxcHttpServer.Separators

variable {α : Type} {s t : List α} {a : α}

section UpTo
variable [DecidableEq α]

theorem ne_of_notMem (h : a ∉ s) : ∀ b ∈ s, decide (b ≠ a) = true := by
  intro b hb
  simpa using ne_of_mem_of_not_mem hb h

theorem takeWhile_eq_self_iff : s.takeWhile (· ≠ a) = s ↔ a ∉ s := by
  rw [List.takeWhile_eq_self_iff]
  constructor
  · intro h ha
    simpa using h a ha
  · exact ne_of_notMem

theorem takeWhile_append (h : a ∉ s) (t : List α) :
    (s ++ t).takeWhile (· ≠ a) = s ++ t.takeWhile (· ≠ a) :=
  List.takeWhile_append_of_pos (ne_of_notMem h)

theorem takeWhile_append_cons (h : a ∉ s) (t : List α) :
    (s ++ a :: t).takeWhile (· ≠ a) = s := by
  rw [takeWhile_append h, List.takeWhile_cons_of_neg (by simp), List.append_nil]

theorem dropWhile_append_cons (h : a ∉ s) (t : List α) :
    (s ++ a :: t).dropWhile (· ≠ a) = a :: t := by
  rw [List.dropWhile_append_of_pos (ne_of_notMem h), List.dropWhile_cons_of_neg (by simp)]

theorem dropWhile_of_notMem (h : a ∉ s) : s.dropWhile (· ≠ a) = [] :=
  List.dropWhile_eq_nil_iff.mpr (ne_of_notMem h)

theorem notMem_takeWhile (s : List α) (a : α) : a ∉ s.takeWhile (· ≠ a) := by
  intro h
  simpa using List.mem_takeWhile_imp h

end UpTo

section Runs
variable {p : α → Bool}

/-- The maximal non-empty parts without a separator, in their order. -/
def runs (p : α → Bool) (s : List α) : List (List α) := (s.splitOnP p).filter (· ≠ [])

@[simp] theorem runs_nil : runs p [] = [] := rfl

theorem runs_cons_of_separator (ha : p a = true) (s : List α) : runs p (a :: s) = runs p s := by
  simp [runs, List.splitOnP_cons_eq_if_modifyHead, ha]

/-- Separators at the beginning do not matter. -/
theorem runs_append_of_separators (ht : ∀ a ∈ t, p a = true) (s : List α) :
    runs p (t ++ s) = runs p s := by
  induction t with
  | nil => rfl
  | cons a t ih =>
    have hrest : ∀ b ∈ t, p b = true := fun b hb => ht b (List.mem_cons_of_mem a hb)
    rw [List.cons_append, runs_cons_of_separator (ht a List.mem_cons_self), ih hrest]

theorem runs_of_separators (hs : ∀ a ∈ s, p a = true) : runs p s = [] := by
  have hall := runs_append_of_separators hs []
  rwa [List.append_nil] at hall

/-- A list without separators is one run. -/
theorem runs_of_run (ht : t ≠ []) (hrun : ∀ a ∈ t, p a = false) : runs p t = [t] := by
  rw [runs, List.splitOnP_eq_singleton hrun]
  simp [ht]

/-- A run ends at a separator. -/
theorem runs_append_cons (ht : t ≠ []) (hrun : ∀ a ∈ t, p a = false) (ha : p a = true)
    (s : List α) : runs p (t ++ a :: s) = t :: runs p s := by
  rw [runs, List.splitOnP_append_cons_of_forall_mem hrun a ha]
  simp [runs, ht]

/-- The first run reaches as far as there is no separator. -/
theorem runs_append_of_run (ht : t ≠ []) (hrun : ∀ a ∈ t, p a = false) (s : List α) :
    runs p (t ++ s) = (t ++ s.takeWhile (!p ·)) :: runs p (s.dropWhile (!p ·)) := by
  have hwhole : t ++ s.takeWhile (!p ·) ≠ [] := List.append_ne_nil_of_left_ne_nil ht _
  have hall : ∀ a ∈ t ++ s.takeWhile (!p ·), p a = false := by
    intro a ha
    rcases List.mem_append.mp ha with hmem | hmem
    · exact hrun a hmem
    · simpa using List.mem_takeWhile_imp hmem
  have hcut : t ++ s = t ++ s.takeWhile (!p ·) ++ s.dropWhile (!p ·) := by
    rw [List.append_assoc, List.takeWhile_append_dropWhile]
  rw [hcut]
  cases hend : s.dropWhile (!p ·) with
  | nil => rw [List.append_nil, runs_of_run hwhole hall, runs_nil]
  | cons a after =>
    have ha : p a = true := by
      have hstop := List.head?_dropWhile_not (!p ·) s
      simpa [hend] using hstop
    rw [runs_append_cons hwhole hall ha, runs_cons_of_separator ha]

/-- A list has no run, or its first run stands behind separators and reaches to the end or to a
separator. -/
theorem runs_cases (p : α → Bool) (s : List α) :
    (∀ a ∈ s, p a = true) ∨ ∃ before run after, s = before ++ (run ++ after) ∧
      (∀ a ∈ before, p a = true) ∧ run ≠ [] ∧ (∀ a ∈ run, p a = false) ∧
      (∀ a ∈ after.head?, p a = true) ∧ runs p s = run :: runs p after := by
  by_cases hnone : ∀ a ∈ s, p a = true
  · exact .inl hnone
  · right
    have hstart : s.dropWhile p ≠ [] := by
      intro hnil
      exact hnone (List.dropWhile_eq_nil_iff.mp hnil)
    obtain ⟨b, rest, hb⟩ := List.exists_cons_of_ne_nil hstart
    have hbrun : ∀ a ∈ [b], p a = false := by
      have hhead := List.head_dropWhile_not p hstart
      simpa [hb] using hhead
    have hbefore : ∀ a ∈ s.takeWhile p, p a = true := fun a ha => List.mem_takeWhile_imp ha
    have hcut : s = s.takeWhile p ++ ([b] ++ rest) := by
      rw [List.singleton_append, ← hb, List.takeWhile_append_dropWhile]
    have hruns : runs p s = ([b] ++ rest.takeWhile (!p ·)) :: runs p (rest.dropWhile (!p ·)) := by
      rw [congrArg (runs p) hcut, runs_append_of_separators hbefore,
        runs_append_of_run (List.cons_ne_nil b []) hbrun]
    refine ⟨s.takeWhile p, [b] ++ rest.takeWhile (!p ·), rest.dropWhile (!p ·), ?_, hbefore,
      List.cons_ne_nil b _, ?_, ?_, hruns⟩
    · rw [List.append_assoc, List.takeWhile_append_dropWhile]
      exact hcut
    · intro a ha
      rcases List.mem_append.mp ha with hmem | hmem
      · exact hbrun a hmem
      · simpa using List.mem_takeWhile_imp hmem
    · intro a ha
      have hstop := List.head?_dropWhile_not (!p ·) rest
      rw [Option.mem_def.mp ha] at hstop
      simpa using hstop

/-! What stands behind a list changes of its runs at most the last. -/

theorem runs_append_of_nil (h : runs p s = []) (more : List α) :
    runs p (s ++ more) = runs p more := by
  rcases runs_cases p s with hall | ⟨before, run, after, -, -, -, -, -, hruns⟩
  · exact runs_append_of_separators hall more
  · rw [h] at hruns
    cases hruns

theorem runs_append_of_cons {run : List α} {others : List (List α)} (h : runs p s = run :: others)
    (hothers : others ≠ []) :
    ∃ rest, runs p rest = others ∧ ∀ more, runs p (s ++ more) = run :: runs p (rest ++ more) := by
  rcases runs_cases p s with hall | ⟨before, run', after, rfl, hbefore, hne, hrun, hafter, hruns⟩
  · rw [runs_of_separators hall] at h
    cases h
  · rw [h] at hruns
    cases hruns
    obtain ⟨b, after, rfl⟩ : ∃ b after', after = b :: after' := by
      apply List.exists_cons_of_ne_nil
      rintro rfl
      exact hothers runs_nil
    have hb : p b = true := hafter b rfl
    refine ⟨b :: after, rfl, ?_⟩
    intro more
    rw [List.append_assoc, runs_append_of_separators hbefore, List.append_assoc, List.cons_append,
      runs_append_cons hne hrun hb, runs_cons_of_separator hb]

/-- The first run stays, or it becomes longer by what stands behind the list. -/
theorem runs_append_head {run : List α} {others : List (List α)} {b : α}
    (h : runs p s = run :: others) (hb : p b = false) (more : List α) :
    ∃ run' others', runs p (s ++ b :: more) = run' :: others' ∧
      (run' = run ∨ run <+: run' ∧ b ∈ run') := by
  rcases runs_cases p s with hall | ⟨before, run', after, rfl, hbefore, hne, hrun, hafter, hruns⟩
  · rw [runs_of_separators hall] at h
    cases h
  · rw [h] at hruns
    cases hruns
    rw [List.append_assoc, runs_append_of_separators hbefore, List.append_assoc]
    cases after with
    | nil =>
      rw [List.nil_append, runs_append_of_run hne hrun]
      refine ⟨_, _, rfl, .inr ⟨List.prefix_append run _, ?_⟩⟩
      simp [hb]
    | cons c after =>
      rw [List.cons_append, runs_append_cons hne hrun (hafter c rfl)]
      exact ⟨run, _, rfl, .inl rfl⟩

end Runs

section Positions
variable {P : ℕ → Prop} {p : α → Bool} {i j m n : ℕ}

/-- A stretch of positions with the property that is not part of a longer one. -/
structure MaximalRun (P : ℕ → Prop) (i j : ℕ) : Prop where
  nonempty : i < j
  inside : ∀ k, i ≤ k → k < j → P k
  ends : ¬ P j
  begins : ∀ k, k + 1 = i → ¬ P k

theorem MaximalRun.of_inside (h : MaximalRun P i j) (hmn : MaximalRun P m n) (hlt : i < n)
    (hle : m < j) : i = m ∧ j = n := by
  have hstart : i = m := by
    rcases Nat.lt_trichotomy i m with hbefore | heq | hafter
    · exact absurd (h.inside (m - 1) (by omega) (by omega)) (hmn.begins _ (by omega))
    · exact heq
    · exact absurd (hmn.inside (i - 1) (by omega) (by omega)) (h.begins _ (by omega))
  refine ⟨hstart, ?_⟩
  rcases Nat.lt_trichotomy j n with hbefore | heq | hafter
  · exact absurd (hmn.inside j (by omega) hbefore) h.ends
  · exact heq
  · exact absurd (h.inside n (by omega) hafter) hmn.ends

/-- The first run, and those that begin behind it. -/
theorem MaximalRun.iff_of_first (hfirst : MaximalRun P m n) (hnone : ∀ k < m, ¬ P k) :
    MaximalRun P i j ↔ (i = m ∧ j = n) ∨ (n < i ∧ MaximalRun P i j) := by
  constructor
  · intro h
    by_cases hin : i < n
    · have hle : m < j := by
        by_contra hnot
        exact hnone i (by have := h.nonempty; omega) (h.inside i le_rfl h.nonempty)
      exact .inl (h.of_inside hfirst hin hle)
    · refine .inr ⟨?_, h⟩
      rcases Nat.lt_or_eq_of_le (Nat.not_lt.mp hin) with hlt | heq
      · exact hlt
      · exact absurd (h.inside n (by omega) (by have := h.nonempty; omega)) hfirst.ends
  · rintro (⟨rfl, rfl⟩ | ⟨-, h⟩)
    · exact hfirst
    · exact h

/-- Runs are shifted with the property; one at the beginning would go on to the left. -/
theorem maximalRun_shift (hn : ¬ P n) :
    MaximalRun (fun k => P (n + k)) i j ↔ n < n + i ∧ MaximalRun P (n + i) (n + j) := by
  constructor
  · intro h
    have hpos : 0 < i := by
      by_contra hnot
      have hzero : i = 0 := by omega
      exact hn (h.inside 0 (by omega) (by have := h.nonempty; omega))
    refine ⟨by omega, by have := h.nonempty; omega, ?_, h.ends, ?_⟩
    · intro k hle hlt
      have hk := h.inside (k - n) (by omega) (by omega)
      rwa [Nat.add_sub_cancel' (by omega)] at hk
    · intro k hk
      have hbefore := h.begins (k - n) (by omega)
      rwa [Nat.add_sub_cancel' (by omega)] at hbefore
  · rintro ⟨hpos, h⟩
    refine ⟨by have := h.nonempty; omega, ?_, h.ends, ?_⟩
    · intro k hle hlt
      exact h.inside (n + k) (by omega) (by omega)
    · intro k hk
      exact h.begins (n + k) (by omega)

end Positions

section RunPositions
variable {p : α → Bool}

/-- The position holds an element that is no separator. -/
def Plain (p : α → Bool) (s : List α) (k : ℕ) : Prop := ∃ b ∈ s[k]?, p b = false

theorem plain_append_left {k : ℕ} (h : k < s.length) : Plain p (s ++ t) k ↔ Plain p s k := by
  rw [Plain, Plain, List.getElem?_append_left h]

theorem plain_append_right (k : ℕ) : Plain p (s ++ t) (s.length + k) ↔ Plain p t k := by
  rw [Plain, Plain, List.getElem?_append_right (Nat.le_add_right _ k), Nat.add_sub_cancel_left]

theorem not_plain_of_separators (h : ∀ a ∈ s, p a = true) (k : ℕ) : ¬ Plain p s k := by
  rintro ⟨b, hb, hplain⟩
  rw [h b (List.mem_of_getElem? hb)] at hplain
  cases hplain

theorem plain_of_run {k : ℕ} (h : ∀ a ∈ s, p a = false) (hk : k < s.length) : Plain p s k :=
  ⟨s[k], List.getElem?_eq_getElem hk, h _ (List.getElem_mem hk)⟩

theorem extract_append_right (s t : List α) (i j : ℕ) :
    (s ++ t).extract (s.length + i) (s.length + j) = t.extract i j := by
  simp only [List.extract_eq_take_drop, List.drop_length_add_append, Nat.add_sub_add_left]

/-- The first run of a list as a pair of positions. -/
theorem maximalRun_first {before run after : List α} (hbefore : ∀ a ∈ before, p a = true)
    (hne : run ≠ []) (hrun : ∀ a ∈ run, p a = false) (hafter : ∀ a ∈ after.head?, p a = true) :
    MaximalRun (Plain p (before ++ (run ++ after))) before.length
      (before.length + run.length) where
  nonempty := by
    have hpos := List.length_pos_iff.mpr hne
    omega
  inside := by
    intro k hle hlt
    obtain ⟨l, rfl⟩ := Nat.exists_eq_add_of_le hle
    have hl : l < run.length := by omega
    rw [plain_append_right, plain_append_left hl]
    exact plain_of_run hrun hl
  ends := by
    have hend : ¬ Plain p (run ++ after) (run.length + 0) := by
      rw [plain_append_right]
      rintro ⟨b, hb, hplain⟩
      rw [hafter b (by rwa [List.head?_eq_getElem?])] at hplain
      cases hplain
    rwa [plain_append_right]
  begins := by
    intro k hk
    rw [plain_append_left (by omega)]
    exact not_plain_of_separators hbefore k

/-- The runs are what stands at the maximal runs of positions, in their order. -/
theorem runs_eq_extract (p : α → Bool) (s : List α) : ∃ cuts : List (ℕ × ℕ),
    cuts.Pairwise (fun c c' => c.2 < c'.1) ∧
    (∀ i j, (i, j) ∈ cuts ↔ MaximalRun (Plain p s) i j) ∧
    runs p s = cuts.map fun c => s.extract c.1 c.2 := by
  induction hn : s.length using Nat.strongRecOn generalizing s with
  | ind n ih =>
    rcases runs_cases p s with hall | ⟨before, run, after, rfl, hbefore, hne, hrun, hafter, hruns⟩
    · refine ⟨[], List.Pairwise.nil, ?_, by rw [runs_of_separators hall, List.map_nil]⟩
      intro i j
      refine iff_of_false List.not_mem_nil fun h => ?_
      exact not_plain_of_separators hall i (h.inside i le_rfl h.nonempty)
    · have hpos := List.length_pos_iff.mpr hne
      have hshorter : after.length < n := by
        rw [← hn, List.length_append, List.length_append]
        omega
      obtain ⟨cuts, hsorted, hcuts, heq⟩ := ih _ hshorter after rfl
      have hfirst := maximalRun_first hbefore hne hrun hafter
      let stop := before.length + run.length
      have hshift : ∀ i j, (i, j) ∈ cuts ↔
          stop < stop + i ∧
            MaximalRun (Plain p (before ++ (run ++ after))) (stop + i) (stop + j) := by
        intro i j
        rw [← maximalRun_shift hfirst.ends, hcuts]
        have hsame : Plain p after = fun k => Plain p (before ++ (run ++ after)) (stop + k) := by
          funext k
          have hstop : (before ++ run).length = stop := List.length_append
          rw [← List.append_assoc, ← hstop, plain_append_right]
        rw [hsame]
      refine ⟨(before.length, stop) :: cuts.map fun c => (stop + c.1, stop + c.2), ?_, ?_, ?_⟩
      · rw [List.pairwise_cons, List.pairwise_map]
        constructor
        · intro c hc
          obtain ⟨c', hc', rfl⟩ := List.mem_map.mp hc
          exact ((hshift c'.1 c'.2).mp hc').1
        · exact hsorted.imp fun h => Nat.add_lt_add_left h stop
      · intro i j
        rw [hfirst.iff_of_first, List.mem_cons, Prod.mk.injEq]
        · refine or_congr_right ?_
          rw [List.mem_map]
          constructor
          · rintro ⟨c, hc, heq⟩
            cases heq
            exact (hshift c.1 c.2).mp hc
          · rintro ⟨hlt, h⟩
            have hi : stop + (i - stop) = i := by omega
            have hj : stop + (j - stop) = j := by
              have := h.nonempty
              omega
            refine ⟨(i - stop, j - stop), (hshift _ _).mpr ?_, by simp only [hi, hj]⟩
            rw [hi, hj]
            exact ⟨hlt, h⟩
        · intro k hk
          rw [plain_append_left hk]
          exact not_plain_of_separators hbefore k
      · have hhead : (before ++ (run ++ after)).extract before.length stop = run := by
          have hrest := extract_append_right before (run ++ after) 0 run.length
          rw [Nat.add_zero] at hrest
          rw [hrest, List.extract_eq_take_drop, List.drop_zero, Nat.sub_zero, List.take_left]
        rw [hruns, List.map_cons, List.map_map, hhead, heq]
        congr 1
        apply List.map_congr_left
        intro c hc
        have hrest := extract_append_right (before ++ run) after c.1 c.2
        rw [List.length_append, List.append_assoc] at hrest
        exact hrest.symm

end RunPositions

section Segments
variable {sep : α} {segs : List (List α)}

/-- The segments with the separator behind each of them. -/
def terminated (sep : α) (segs : List (List α)) : List α := segs.flatMap (· ++ [sep])

@[simp] theorem terminated_nil (sep : α) : terminated sep [] = [] := rfl

@[simp] theorem terminated_cons (sep : α) (seg : List α) (segs : List (List α)) :
    terminated sep (seg :: segs) = seg ++ sep :: terminated sep segs := by
  simp [terminated]

variable [DecidableEq α]

theorem notMem_of_mem_splitOn {seg : List α} (h : seg ∈ s.splitOn sep) : sep ∉ seg := by
  induction s generalizing seg with
  | nil =>
    rw [List.splitOn_eq_splitOnP, List.splitOnP_nil, List.mem_singleton] at h
    simp [h]
  | cons a s ih =>
    rw [List.splitOn_cons_eq_if_modifyHead] at h
    split_ifs at h with ha
    · rcases List.mem_cons.mp h with rfl | hmem
      · simp
      · exact ih hmem
    · obtain ⟨first, others, hsplit⟩ := List.exists_cons_of_ne_nil (List.splitOn_ne_nil sep s)
      rw [hsplit, List.modifyHead_cons] at h
      rcases List.mem_cons.mp h with rfl | hmem
      · have hne : sep ≠ a := fun heq => ha (by simp [heq])
        have hfirst : sep ∉ first := ih (by simp [hsplit])
        simp [hne, hfirst]
      · exact ih (by simp [hsplit, hmem])

/-- A list that ends with a separator is made of its segments. -/
theorem terminated_splitOn (sep : α) (s : List α) :
    terminated sep (s.splitOn sep) = s ++ [sep] := by
  induction s with
  | nil => rfl
  | cons a s ih =>
    rw [List.splitOn_cons_eq_if_modifyHead]
    split_ifs with ha
    · rw [terminated_cons, ih, beq_iff_eq.mp ha]
      rfl
    · obtain ⟨first, others, hsplit⟩ := List.exists_cons_of_ne_nil (List.splitOn_ne_nil sep s)
      rw [hsplit, terminated_cons] at ih
      rw [hsplit, List.modifyHead_cons, terminated_cons, List.cons_append, ih, List.cons_append]

end Segments
end LxcHttpServer.Separators
