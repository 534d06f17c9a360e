import LxcHttpServer.Tokens

/-!
# The loop of `stringSplit`

`HttpData::stringSplit` with its two cursors as they are: positions are numbers of 64 bits, `npos`
is the largest of them, and the length of a token is their difference. A loop makes as many rounds
as it is given, so that it can be seen how many it needs.
-/
namespace LxcHttpServer
open Separators Strings

def npos : ℕ := UInt64.size - 1

/-- A `std::string`. Its size is a position other than `npos`. -/
structure StdString where
  chars : Str
  fits : chars.length < npos

/-- The difference of two numbers of 64 bits. -/
def sizeSub (m n : ℕ) : ℕ := (m + UInt64.size - n) % UInt64.size

namespace StdString

def findFirstOf (s : StdString) (delimiters : Str) (pos : ℕ) : ℕ :=
  (findFrom (· ∈ delimiters) s.chars pos).getD npos

def findFirstNotOf (s : StdString) (delimiters : Str) (pos : ℕ) : ℕ :=
  (findFrom (· ∉ delimiters) s.chars pos).getD npos

def substr (s : StdString) (pos n : ℕ) : Except Thrown Str :=
  if pos > s.chars.length then .error .outOfRange else .ok ((s.chars.drop pos).take n)

/-- The loop, in so many rounds at most. -/
def stringSplitLoop (s : StdString) (delimiters : Str) :
    ℕ → ℕ → ℕ → List Str → Option (Except Thrown (List Str))
  | 0, _, _, _ => none
  | rounds + 1, lastPos, pos, tokens =>
    if npos ≠ pos ∨ npos ≠ lastPos then
      match s.substr lastPos (sizeSub pos lastPos) with
      | .error e => some (.error e)
      | .ok token =>
        let lastPos := s.findFirstNotOf delimiters pos
        let pos := s.findFirstOf delimiters lastPos
        stringSplitLoop s delimiters rounds lastPos pos (tokens ++ [token])
    else some (.ok tokens)

def stringSplit (s : StdString) (tokens : List Str) (delimiters : Str) (rounds : ℕ) :
    Option (Except Thrown (List Str)) :=
  let lastPos := s.findFirstNotOf delimiters 0
  let pos := s.findFirstOf delimiters lastPos
  stringSplitLoop s delimiters rounds lastPos pos tokens

variable {s : StdString} {delimiters : Str} {i j rounds : ℕ}

/-- There is nothing to find from `npos` on. -/
theorem findFrom_getD (s : StdString) (p : UInt8 → Bool) (pos : Option ℕ) :
    findFrom p s.chars (pos.getD npos) = pos.bind (findFrom p s.chars) := by
  cases pos with
  | none =>
    rw [Option.getD_none, findFrom, List.drop_eq_nil_of_le s.fits.le]
    rfl
  | some i => rfl

theorem findFirstOf_eq (s : StdString) (delimiters : Str) (pos : Option ℕ) :
    s.findFirstOf delimiters (pos.getD npos) =
      (Strings.findFirstOf s.chars delimiters pos).getD npos := by
  rw [findFirstOf, findFrom_getD, Strings.findFirstOf]

theorem findFirstNotOf_eq (s : StdString) (delimiters : Str) (pos : Option ℕ) :
    s.findFirstNotOf delimiters (pos.getD npos) =
      (Strings.findFirstNotOf s.chars delimiters pos).getD npos := by
  rw [findFirstNotOf, findFrom_getD, Strings.findFirstNotOf]

theorem sizeSub_of_le (h : i ≤ j) (hj : j < UInt64.size) : sizeSub j i = j - i := by
  rw [sizeSub, Nat.sub_add_comm h, Nat.add_mod_right, Nat.mod_eq_of_lt (by omega)]

/-- The difference to `npos` is no less than what is left of the string. -/
theorem substr_eq (hi : i < s.chars.length) (pos : Option ℕ) (hpos : ∀ j ∈ pos, i ≤ j ∧
    j < s.chars.length) : s.substr i (sizeSub (pos.getD npos) i) =
      Strings.substr s.chars i (pos.map (· - i)) := by
  have hfits := s.fits
  have hsize : npos < UInt64.size := by decide
  cases pos with
  | none =>
    have hrest : sizeSub npos i = npos - i := sizeSub_of_le (by omega) hsize
    have htake : (s.chars.drop i).length ≤ npos - i := by
      rw [List.length_drop]
      omega
    rw [Option.getD_none, hrest, substr, Option.map_none, Strings.substr,
      List.take_of_length_le htake]
  | some j =>
    obtain ⟨hle, hlt⟩ := hpos j rfl
    have hrest : sizeSub j i = j - i := sizeSub_of_le hle (by omega)
    rw [Option.getD_some, hrest, substr, Option.map_some, Strings.substr]

/-- The loop computes what the recursion over the first cursor computes. -/
theorem stringSplitLoop_eq (lastPos : Option ℕ) (hlast : ∀ i ∈ lastPos, i < s.chars.length)
    (hrounds : remaining s.chars lastPos < rounds) (tokens : List Str) :
    stringSplitLoop s delimiters rounds (lastPos.getD npos)
      (s.findFirstOf delimiters (lastPos.getD npos)) tokens =
        some ((stringSplitFrom s.chars delimiters lastPos).map (tokens ++ ·)) := by
  induction rounds generalizing lastPos tokens with
  | zero => exact absurd hrounds (Nat.not_lt_zero _)
  | succ rounds ih =>
    cases lastPos with
    | none =>
      rw [findFirstOf_eq]
      simp [stringSplitLoop, stringSplitFrom, Strings.findFirstOf, Except.map]
    | some i =>
      have hi : i < s.chars.length := hlast i rfl
      have hne : npos ≠ i := by
        have hfits := s.fits
        omega
      have hpos : ∀ j ∈ Strings.findFirstOf s.chars delimiters (some i),
          i ≤ j ∧ j < s.chars.length := by
        intro j hj
        obtain ⟨hle, hlt, -⟩ := findFrom_eq_some hj
        exact ⟨hle, hlt⟩
      have hnext : ∀ k ∈ Strings.findFirstNotOf s.chars delimiters
          (Strings.findFirstOf s.chars delimiters (some i)), k < s.chars.length := by
        intro k hk
        obtain ⟨j, -, hj⟩ := Option.bind_eq_some_iff.mp hk
        exact (findFrom_eq_some hj).2.1
      have hfewer := remaining_lt s.chars delimiters i
      rw [findFirstOf_eq, stringSplitLoop, if_pos (.inr hne), Option.getD_some,
        substr_eq hi _ hpos, stringSplitFrom, findFirstNotOf_eq]
      cases hcut : Strings.substr s.chars i
          ((Strings.findFirstOf s.chars delimiters (some i)).map (· - i)) with
      | error e => rfl
      | ok token =>
        simp only [ih _ hnext (by omega) (tokens ++ [token])]
        cases stringSplitFrom s.chars delimiters (Strings.findFirstNotOf s.chars delimiters
            (Strings.findFirstOf s.chars delimiters (some i))) with
        | error e => rfl
        | ok more => simp [Except.map]

theorem remaining_le (s : Str) (pos : Option ℕ) : remaining s pos ≤ s.length + 1 := by
  cases pos with
  | none => exact Nat.zero_le _
  | some i => exact Nat.succ_le_succ (Nat.sub_le _ i)

/-- One round more than there are positions is enough. -/
theorem stringSplit_eq_recursion (s : StdString) (tokens : List Str) (delimiters : Str)
    (hrounds : s.chars.length + 1 < rounds) : s.stringSplit tokens delimiters rounds =
      some (Strings.stringSplit s.chars tokens delimiters) := by
  let lastPos := Strings.findFirstNotOf s.chars delimiters (some 0)
  have hlast : ∀ i ∈ lastPos, i < s.chars.length :=
    fun i hi => (findFrom_eq_some hi).2.1
  have hfew : remaining s.chars lastPos < rounds := by
    have hle := remaining_le s.chars lastPos
    omega
  have hstart : s.findFirstNotOf delimiters 0 = lastPos.getD npos :=
    findFirstNotOf_eq s delimiters (some 0)
  rw [stringSplit, hstart, stringSplitLoop_eq lastPos hlast hfew, Strings.stringSplit]
  cases stringSplitFrom s.chars delimiters lastPos with
  | error e => rfl
  | ok split => rfl

/-- The tokens are what stands at the maximal runs of positions without a delimiter, in their
order. -/
structure Tokenizes (s delimiters : Str) (split : List Str) : Prop where
  atRuns : ∃ cuts : List (ℕ × ℕ), cuts.Pairwise (fun c c' => c.2 < c'.1) ∧
    (∀ i j, (i, j) ∈ cuts ↔ MaximalRun (Plain (· ∈ delimiters) s) i j) ∧
    split = cuts.map fun c => s.extract c.1 c.2
  nothing : (∀ b ∈ s, b ∈ delimiters) → split = []
  whole : delimiters = [] → s ≠ [] → split = [s]

theorem runs_tokenizes (s delimiters : Str) : Tokenizes s delimiters (runs (· ∈ delimiters) s) where
  atRuns := runs_eq_extract _ s
  nothing hall := runs_of_separators (by simpa using hall)
  whole hnone hne := runs_of_run hne (by simp [hnone])

/-- The loop comes to its end within one round more than there are positions, `substr` never
throws, and the tokens are appended. -/
theorem stringSplit_tokenizes (s : StdString) (tokens : List Str) (delimiters : Str) :
    ∃ split, Tokenizes s.chars delimiters split ∧ ∀ rounds, s.chars.length + 1 < rounds →
      s.stringSplit tokens delimiters rounds = some (.ok (tokens ++ split)) := by
  refine ⟨_, runs_tokenizes s.chars delimiters, ?_⟩
  intro rounds hrounds
  rw [stringSplit_eq_recursion s tokens delimiters hrounds, stringSplit_eq]

/-- Delimiters at the beginning, at the end and in a row. -/
example : stringSplit ⟨str "  GET  / ", by decide +kernel⟩ [] (str " ") 11 =
    some (.ok [str "GET", str "/"]) := by decide +kernel

end StdString
end LxcHttpServer
