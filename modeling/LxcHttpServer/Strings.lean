import LxcHttpServer.Separators
import Mathlib.Data.List.AList
import Mathlib.Data.List.Basic

/-!
# Strings of the standard library

The operations of `std::string` the server uses. A position is an index, or `none` for
`npos`. `substr` and `stoi` throw; a scan that runs past the end of a string has no
result.
-/
namespace LxcHttpServer
open Separators

/-- The characters of a `std::string`. -/
abbrev Str : Type := List UInt8

/-- A string literal. -/
def str (s : String) : Str := s.toUTF8.toList

/-- The characters of a string up to the first NUL. -/
def cString (s : Str) : Str := s.takeWhile (· ≠ 0)

theorem zero_not_mem_cString (s : Str) : 0 ∉ cString s := notMem_takeWhile s 0

theorem cString_eq_self_iff {s : Str} : cString s = s ↔ 0 ∉ s := takeWhile_eq_self_iff

theorem cString_of_not_mem {s t : Str} (h : 0 ∉ s) : cString (s ++ t) = s ++ cString t :=
  takeWhile_append h t

theorem cString_append_zero {s : Str} (h : 0 ∉ s) (t : Str) : cString (s ++ 0 :: t) = s :=
  takeWhile_append_cons h t

theorem take_cString (s : Str) : s.take (cString s).length = cString s :=
  (List.prefix_iff_eq_take.mp (List.takeWhile_prefix _)).symm

/-- A text is what stands before its first NUL, or that with the NUL and more behind it. -/
theorem cString_split (s : Str) : cString s = s ∨ ∃ more, s = cString s ++ 0 :: more := by
  by_cases hzero : 0 ∈ s
  · right
    obtain ⟨before, more, rfl, hbefore⟩ := List.eq_append_cons_of_mem hzero
    exact ⟨more, by rw [cString_append_zero hbefore]⟩
  · exact .inl (cString_eq_self_iff.mpr hzero)

theorem length_cString_lt {s : Str} (h : 0 ∈ s) : (cString s).length < s.length := by
  rcases cString_split s with hwhole | ⟨more, hmore⟩
  · exact absurd h (cString_eq_self_iff.mp hwhole)
  · have hlength := congrArg List.length hmore
    rw [List.length_append, List.length_cons] at hlength
    omega

/-- What the server and the library functions it calls throw. -/
inductive Thrown where
  | socketClosed
  | runtimeError (what : String)
  | invalidArgument
  | outOfRange
  | badArrayNewLength
  | badAlloc
  deriving DecidableEq

/-- `SocketClosed` is the only class here that does not derive from `std::exception`. -/
def Thrown.isStdException : Thrown → Bool
  | .socketClosed => false
  | _ => true

namespace Strings

variable {s delimiters : Str} {c : UInt8} {i j : ℕ}

/-- The first position from `i` on that satisfies `p`. -/
def findFrom (p : UInt8 → Bool) (s : Str) (i : ℕ) : Option ℕ := ((s.drop i).findIdx? p).map (i + ·)

def findFirstOf (s delimiters : Str) (pos : Option ℕ) : Option ℕ :=
  pos.bind (findFrom (· ∈ delimiters) s)

def findFirstNotOf (s delimiters : Str) (pos : Option ℕ) : Option ℕ :=
  pos.bind (findFrom (· ∉ delimiters) s)

def findLastOf (s : Str) (c : UInt8) : Option ℕ :=
  (s.reverse.findIdx? (· = c)).map (s.length - 1 - ·)

def substr (s : Str) (pos : ℕ) (n : Option ℕ) : Except Thrown Str :=
  if pos > s.length then .error .outOfRange
  else match n with
    | none => .ok (s.drop pos)
    | some n => .ok ((s.drop pos).take n)

theorem findFrom_eq_some {p : UInt8 → Bool} (h : findFrom p s i = some j) :
    i ≤ j ∧ ∃ hj : j < s.length, p s[j] = true := by
  simp only [findFrom, Option.map_eq_some_iff] at h
  obtain ⟨n, hn, rfl⟩ := h
  obtain ⟨hlt, hp, -⟩ := List.findIdx?_eq_some_iff_getElem.mp hn
  rw [List.length_drop] at hlt
  refine ⟨by omega, by omega, ?_⟩
  rwa [List.getElem_drop] at hp

/-- How far a position is from the end. -/
def remaining (s : Str) : Option ℕ → ℕ
  | none => 0
  | some i => s.length - i + 1

/-- Past a token and the delimiters after it. -/
theorem remaining_lt (s delimiters : Str) (i : ℕ) :
    remaining s (findFirstNotOf s delimiters (findFirstOf s delimiters (some i))) <
      remaining s (some i) := by
  cases hpos : findFirstOf s delimiters (some i) with
  | none => simp [findFirstNotOf, remaining]
  | some pos =>
    cases hnext : findFirstNotOf s delimiters (some pos) with
    | none => simp [remaining]
    | some next =>
      obtain ⟨hle, hlt, hmem⟩ := findFrom_eq_some hpos
      obtain ⟨hle', hlt', hmem'⟩ := findFrom_eq_some hnext
      have hne : next ≠ pos := by
        rintro rfl
        simp only [decide_eq_true_eq] at hmem hmem'
        exact hmem' hmem
      simp only [remaining]
      omega

/-- The loop of `stringSplit`; at its head `pos` is the first delimiter after `lastPos`,
which is `npos` when `lastPos` is. -/
def stringSplitFrom (s delimiters : Str) : Option ℕ → Except Thrown (List Str)
  | none => .ok []
  | some lastPos =>
    let pos := findFirstOf s delimiters (some lastPos)
    match substr s lastPos (pos.map (· - lastPos)) with
    | .error e => .error e
    | .ok token =>
      match stringSplitFrom s delimiters (findFirstNotOf s delimiters pos) with
      | .error e => .error e
      | .ok tokens => .ok (token :: tokens)
termination_by lastPos => remaining s lastPos
decreasing_by exact remaining_lt s delimiters lastPos

def stringSplit (s : Str) (tokens : List Str) (delimiters : Str) : Except Thrown (List Str) :=
  match stringSplitFrom s delimiters (findFirstNotOf s delimiters (some 0)) with
  | .error e => .error e
  | .ok split => .ok (tokens ++ split)

theorem substr_eq_ok (n : Option ℕ) (h : i ≤ s.length) : ∃ t, substr s i n = .ok t := by
  have hpos : ¬ i > s.length := by omega
  cases n with
  | none => exact ⟨s.drop i, by simp only [substr, if_neg hpos]⟩
  | some n => exact ⟨(s.drop i).take n, by simp only [substr, if_neg hpos]⟩

theorem findFirstNotOf_le {pos : Option ℕ} (h : findFirstNotOf s delimiters pos = some i) :
    i ≤ s.length := by
  simp only [findFirstNotOf, Option.bind_eq_some_iff] at h
  obtain ⟨j, -, hj⟩ := h
  obtain ⟨-, hlt, -⟩ := findFrom_eq_some hj
  exact Nat.le_of_lt hlt

/-- The positions `stringSplit` cuts at lie in the string, so it does not throw. -/
theorem stringSplitFrom_eq_ok (delimiters : Str) {lastPos : Option ℕ}
    (h : ∀ i, lastPos = some i → i ≤ s.length) :
    ∃ tokens, stringSplitFrom s delimiters lastPos = .ok tokens := by
  cases lastPos with
  | none => exact ⟨[], by rw [stringSplitFrom]⟩
  | some i =>
    have hcut := substr_eq_ok ((findFirstOf s delimiters (some i)).map (· - i)) (h i rfl)
    obtain ⟨token, htoken⟩ := hcut
    have hnext : ∀ j, findFirstNotOf s delimiters (findFirstOf s delimiters (some i)) = some j →
        j ≤ s.length := fun j hj => findFirstNotOf_le hj
    obtain ⟨tokens, htokens⟩ := stringSplitFrom_eq_ok delimiters hnext
    exact ⟨token :: tokens, by rw [stringSplitFrom]; simp only [htoken, htokens]⟩
termination_by remaining s lastPos
decreasing_by
  subst_vars
  exact remaining_lt s delimiters i

theorem stringSplit_eq_ok (s : Str) (tokens : List Str) (delimiters : Str) :
    ∃ split, stringSplit s tokens delimiters = .ok split := by
  have hfirst : ∀ i, findFirstNotOf s delimiters (some 0) = some i → i ≤ s.length :=
    fun i hi => findFirstNotOf_le hi
  obtain ⟨split, hsplit⟩ := stringSplitFrom_eq_ok delimiters hfirst
  exact ⟨tokens ++ split, by simp only [stringSplit, hsplit]⟩

def INT_MIN : ℤ := -2147483648
def INT_MAX : ℤ := 2147483647

/-- The characters `isspace` accepts. -/
def isSpace (c : UInt8) : Bool := c = 32 ∨ (9 ≤ c ∧ c ≤ 13)

def isDigit (c : UInt8) : Bool := 48 ≤ c ∧ c ≤ 57

def decimalValue (digits : Str) : ℕ := digits.foldl (fun n c => 10 * n + (c.toNat - 48)) 0

/-- The digits at the head of `text`, with the sign read before them. -/
def signedValue (sign : ℤ) (text : Str) : Except Thrown ℤ :=
  let digits := text.takeWhile isDigit
  let n := sign * decimalValue digits
  if digits = [] then .error .invalidArgument
  else if n < INT_MIN ∨ INT_MAX < n then .error .outOfRange
  else .ok n

/-- Leading white space, an optional sign and digits; what follows is ignored. -/
def stoi (text : Str) : Except Thrown ℤ :=
  match text.dropWhile isSpace with
  | [] => .error .invalidArgument
  | c :: rest =>
    if c = 45 then signedValue (-1) rest
    else if c = 43 then signedValue 1 rest
    else signedValue 1 (c :: rest)

/-! ## `key=value&` lists -/

abbrev Params : Type := AList (fun _ : Str => Str)

/-- The loop of `parseStringParamTo_htable_clientParamData`, or nothing if one of its
scans for `&` and `=` runs past the end of the string. The cursors do not leave the string
otherwise, and `int` holds its length. -/
def parseStringParam (s : Str) (params : Params) (cur prev : ℕ) : Option Params :=
  if cur < s.length then
    match _hamp : findFrom (· = 38) s cur with
    | none => none
    | some amp =>
      let start := prev
      match findFrom (· = 61) s start with
      | none => none
      | some mid =>
        -- `if(end = mid)` assigns: the value is kept only if it stands at position zero
        let stop := mid
        let key := (s.drop start).take (mid - start)
        let value := if stop ≠ 0 then [] else (s.drop (mid + 1)).take (stop - mid)
        parseStringParam s (params.insert key value) (amp + 1) (amp + 1)
  else some params
termination_by s.length - cur
decreasing_by
  obtain ⟨hle, hlt, -⟩ := findFrom_eq_some _hamp
  omega

end Strings
end LxcHttpServer
