import LxcHttpServer.CgiOutput
import Mathlib.Algebra.Order.BigOperators.Group.List
import Mathlib.Algebra.Order.Group.Nat
import Mathlib.Data.Nat.ModEq

/-!
# What a CGI process is told of its input

The CGI process finds two numbers in its environment. One loop of the server writes a record
for every parameter; another, in the CGI process, adds up the sizes of the strings. That one
counts no separators, and counts a string beyond its NUL.
-/
namespace LxcHttpServer
open EffectPrograms Strings

namespace Responser

variable {env : Env} {d : HttpData} {w : World}

/-- The bytes that `write` gets. -/
def written : Call → Str
  | .write _ bytes _ => bytes
  | _ => []

/-- The bytes that are written for one parameter. -/
def paramRecord (p : Param) : Str :=
  cString p.1 ++ str " " ++ (if p.2 = [] then NULLINFO else cString p.2) ++ str "\n"

theorem flatten_paramWrites (ps : List Param) :
    (ps.flatMap paramWrites).flatten = (ps.map paramRecord).flatten := by
  induction ps with
  | nil => rfl
  | cons p ps ih =>
    rw [List.flatMap_cons, List.flatten_append, ih, List.map_cons, List.flatten_cons]
    simp [paramWrites, paramRecord]

/-- After the parameters nothing is written. -/
theorem returnOutput_writes (env : Env) (w : World) :
    Hands written w (returnOutput env w).2 [] := by
  apply Hands.of_preserves (p := returnOutput env) (o := (returnOutput env w).1) _ rfl
  apply Prog.Preserves.bind (readCgiLoop_logs (fun _ => rfl) w _)
  intro buf
  apply Prog.Preserves.bind (Work.send_logs _ _ fun _ => rfl)
  intro ret
  apply Prog.Preserves.ite
  · exact Prog.Preserves.of_records Work.waitpid_records fun _ => rfl
  · exact Prog.Preserves.throw _

theorem executeCGI_writes (h : Creates env d w) (hwrites : Unbroken env d w) :
    Hands written w (executeCGI env d w).2 ((iterated env d).map paramRecord).flatten := by
  obtain ⟨cgiInput, cgiOutput, w₁, hrun, -, hcalls⟩ := executeCGI_unbroken h hwrites
  have hinput : Hands written w w₁ ((iterated env d).map paramRecord).flatten := by
    refine ⟨_, hcalls, ?_⟩
    rw [List.flatMap_append, flatMap_writeCalls (g := id) fun _ _ => rfl, List.flatMap_id,
      flatten_paramWrites]
    rfl
  rw [hrun]
  have hall := hinput.trans (returnOutput_writes env w₁)
  rwa [List.append_nil] at hall

/-- The characters of a string before its first NUL. -/
def kept (s : Str) : ℕ := (cString s).length

/-- The characters of a string from its first NUL on. -/
def lost (s : Str) : ℕ := s.length - kept s

/-- The characters of a parameter that are written, those of `NULL` for an empty value. -/
def paramKept (p : Param) : ℕ := kept p.1 + if p.2 = [] then NULLINFO.length else kept p.2

/-- The characters of a parameter that are not written. -/
def paramLost (p : Param) : ℕ := lost p.1 + lost p.2

/-- The size of a parameter's strings. -/
def paramSize (p : Param) : ℕ := p.1.length + if p.2 = [] then NULLINFO.length else p.2.length

theorem kept_add_lost (s : Str) : kept s + lost s = s.length :=
  Nat.add_sub_cancel' (List.takeWhile_prefix _).length_le

theorem paramSize_eq (p : Param) : paramSize p = paramKept p + paramLost p := by
  have hkey := kept_add_lost p.1
  have hvalue := kept_add_lost p.2
  rw [paramSize, paramKept, paramLost]
  split_ifs with hempty
  · have hlost : lost p.2 = 0 := by rw [hempty]; rfl
    omega
  · omega

/-- A record has two characters more. -/
theorem length_paramRecord (p : Param) : (paramRecord p).length = paramKept p + 2 := by
  have hblank : (str " ").length = 1 := by decide +kernel
  have hnewline : (str "\n").length = 1 := by decide +kernel
  rw [paramRecord, paramKept, kept, kept]
  simp only [List.length_append, hblank, hnewline]
  split_ifs <;> omega

/-- Adding with 32 bits is adding, and keeping 32 bits of the sum. -/
theorem foldl_addSize (ps : List Param) (z : ℤ) :
    ps.foldl (fun ans p => addSize (addSize ans p.1.length)
      (if p.2 = [] then NULLINFO.length else p.2.length)) (z.bmod 4294967296) =
      (z + (ps.map paramSize).sum).bmod 4294967296 := by
  induction ps generalizing z with
  | nil => simp
  | cons p ps ih =>
    have hstep : addSize (addSize (z.bmod 4294967296) p.1.length)
        (if p.2 = [] then NULLINFO.length else p.2.length) =
        (z + paramSize p).bmod 4294967296 := by
      rw [addSize, addSize, Int.bmod_add_bmod, add_assoc, Int.bmod_add_bmod, paramSize,
        Int.natCast_add]
    rw [List.foldl_cons, hstep, ih, List.map_cons, List.sum_cons, Int.natCast_add, add_assoc]

theorem cgiContentLength_eq (env : Env) (d : HttpData) : cgiContentLength env d =
    (((iterated env d).map paramSize).sum : ℤ).bmod 4294967296 := by
  have hzero : (0 : ℤ) = (0 : ℤ).bmod 4294967296 := rfl
  rw [cgiContentLength, hzero, foldl_addSize, zero_add]

def cgiDataText (count length : ℤ) : Str :=
  str "CGIDATA=" ++ str (toString count) ++ str " " ++ str (toString length)

theorem str_repr_inj {m n : ℕ} (h : str m.repr = str n.repr) : m = n := by
  rw [str_eq, str_eq, Array.toList_inj, ByteArray.ext_iff.symm, String.toByteArray_inj] at h
  have hdigits := congrArg (fun s => Nat.ofDigitChars 10 s.toList 0) h
  simpa using hdigits

theorem str_toString_inj {m n : ℤ} (h : str (toString m) = str (toString n)) : m = n := by
  -- a number begins with a digit, and with the sign if it is negative
  have hsign : ∀ k l : ℕ, str (toString (Int.negSucc k)) ≠ str (toString (Int.ofNat l)) := by
    intro k l heq
    have hmem : 45 ∈ str (toString (Int.ofNat l)) := by
      rw [← heq, str_toString_negSucc]
      exact List.mem_cons_self
    exact absurd (lt_of_mem_repr hmem) (by decide)
  cases m with
  | ofNat m =>
    cases n with
    | ofNat n => exact congrArg Int.ofNat (str_repr_inj h)
    | negSucc n => exact absurd h.symm (hsign n m)
  | negSucc m =>
    cases n with
    | ofNat n => exact absurd h (hsign m n)
    | negSucc n =>
      rw [str_toString_negSucc, str_toString_negSucc, List.cons.injEq] at h
      exact congrArg Int.negSucc (Nat.succ.inj (str_repr_inj h.2))

theorem cgiDataText_inj {m n m' n' : ℤ} (h : cgiDataText m n = cgiDataText m' n') :
    m = m' ∧ n = n' := by
  have hblank : str " " = [32] := by decide +kernel
  have hnumber : ∀ z : ℤ, 32 ∉ str (toString z) :=
    fun z hmem => absurd (lt_of_mem_toString hmem) (by decide)
  rw [cgiDataText, cgiDataText, hblank] at h
  simp only [List.append_assoc, List.singleton_append, List.append_cancel_left_eq] at h
  rw [List.append_cons_inj_of_notMem (hnumber m) (hnumber n)] at h
  exact ⟨str_toString_inj h.1, str_toString_inj h.2.2⟩

/-- The numbers in the environment are the number of the records that `executeCGI` writes for
the parameters and the number of bytes it writes. -/
def DescribesStream (env : Env) (d : HttpData) (w : World) : Prop :=
  ∃ records : List Str, records = (iterated env d).map paramRecord ∧
    Hands written w (executeCGI env d w).2 records.flatten ∧
    cgiEnvStr env d = cgiDataText records.length records.flatten.length

/-- The parameters, in no particular order. -/
def paramList (d : HttpData) : List Param :=
  (d.clientParamData.getD ∅).entries.map fun e => (e.1, e.2)

/-- An `int` holds the length of the stream, and as many characters are not written as there
are separators in it, as far as 32 bits tell. -/
def Balanced (d : HttpData) : Prop :=
  (((paramList d).map paramKept).sum + 2 * (paramList d).length : ℤ) ≤ INT_MAX ∧
    ((paramList d).map paramLost).sum ≡ 2 * (paramList d).length [MOD 4294967296]

theorem sum_iterated (env : Env) (d : HttpData) (f : Param → ℕ) :
    ((iterated env d).map f).sum = ((paramList d).map f).sum :=
  ((env.mapOrder.perm (paramList d)).map f).sum_eq

theorem length_stream (ps : List Param) :
    (ps.map paramRecord).flatten.length = (ps.map paramKept).sum + 2 * ps.length := by
  induction ps with
  | nil => rfl
  | cons p ps ih =>
    rw [List.map_cons, List.flatten_cons, List.length_append, length_paramRecord, ih,
      List.map_cons, List.sum_cons, List.length_cons]
    omega

theorem sum_paramSize (ps : List Param) :
    (ps.map paramSize).sum = (ps.map paramKept).sum + (ps.map paramLost).sum := by
  induction ps with
  | nil => rfl
  | cons p ps ih =>
    rw [List.map_cons, List.sum_cons, ih, paramSize_eq, List.map_cons, List.sum_cons,
      List.map_cons, List.sum_cons]
    omega

/-- The sum of the sizes is the length of the stream exactly if the lost characters make up
for the separators. -/
theorem bmod_sum_eq_iff (k l n : ℕ) : ((k + l : ℕ) : ℤ).bmod 4294967296 = ((k + 2 * n : ℕ) : ℤ) ↔
    (k + 2 * n : ℤ) ≤ INT_MAX ∧ l ≡ 2 * n [MOD 4294967296] := by
  have hmax : INT_MAX = 2147483647 := rfl
  rw [Int.bmod_def, Nat.ModEq]
  split_ifs <;> omega

/-- A map without NULs is never announced as it is written. -/
theorem not_balanced (hsome : paramList d ≠ []) (hnul : ∀ p ∈ paramList d, 0 ∉ p.1 ∧ 0 ∉ p.2) :
    ¬ Balanced d := by
  rintro ⟨hint, hmod⟩
  have hlost : ∀ s : Str, 0 ∉ s → lost s = 0 := by
    intro s hs
    rw [lost, kept, cString_eq_self_iff.mpr hs, Nat.sub_self]
  have hnone : ((paramList d).map paramLost).sum = 0 := by
    rw [List.sum_eq_zero_iff]
    intro l hl
    obtain ⟨p, hp, rfl⟩ := List.mem_map.mp hl
    rw [paramLost, hlost p.1 (hnul p hp).1, hlost p.2 (hnul p hp).2,
      Nat.add_zero]
  have hpos := List.length_pos_of_ne_nil hsome
  have hmax : INT_MAX = 2147483647 := rfl
  rw [hnone, Nat.ModEq] at hmod
  omega

/-- The numbers describe the stream exactly if the strings lose as many characters as there
are separators. -/
theorem describes_stream_iff (hcreates : Creates env d w) (hwrites : Unbroken env d w) :
    DescribesStream env d w ↔ Balanced d := by
  have hcount : (iterated env d).length = (paramList d).length :=
    (env.mapOrder.perm (paramList d)).length_eq
  have hnumbers : cgiContentLength env d =
      (((iterated env d).map paramRecord).flatten.length : ℤ) ↔ Balanced d := by
    rw [cgiContentLength_eq, length_stream, sum_iterated, sum_iterated, sum_paramSize, hcount]
    exact bmod_sum_eq_iff _ _ _
  constructor
  · rintro ⟨records, rfl, -, htext⟩
    exact hnumbers.mp (cgiDataText_inj htext).2
  · intro hbalanced
    have hentries : (d.clientParamData.getD ∅).entries.length = (paramList d).length :=
      (List.length_map _).symm
    have hint : ((paramList d).length : ℤ) ≤ INT_MAX := by
      have hstream := hbalanced.1
      omega
    refine ⟨_, rfl, executeCGI_writes hcreates hwrites, ?_⟩
    rw [cgiEnvStr, cgiDataText, hnumbers.mpr hbalanced, hentries, asInt_of_le hint,
      List.length_map, hcount]

/-- A value of which a NUL and one more character are not written. -/
def nulQuery : HttpData :=
  { query with clientParamData := some (AList.insert (str "a") [98, 0, 98] ∅) }

theorem describes_stream_nul : DescribesStream calmEnv nulQuery (firstClient 5 []) := by
  have hcreates : Creates calmEnv nulQuery (firstClient 5 []) := ⟨by decide +kernel, rfl, rfl, rfl⟩
  have hbalanced : Balanced nulQuery := ⟨by decide +kernel, by decide +kernel⟩
  have hwrites : Unbroken calmEnv nulQuery (firstClient 5 []) := fun _ _ => rfl
  exact (describes_stream_iff hcreates hwrites).mpr hbalanced

/-- The parameter `a` without a value is written with seven characters and announced with
five. -/
theorem not_describes_stream : ¬ ∀ env d w, Creates env d w → Unbroken env d w →
    DescribesStream env d w := by
  intro hall
  obtain ⟨records, rfl, -, htext⟩ :=
    hall calmEnv query (firstClient 5 []) ⟨by decide +kernel, rfl, rfl, rfl⟩
      (query_unbroken _)
  have hlength : cgiContentLength calmEnv query = 5 := by decide +kernel
  have hstream : ((iterated calmEnv query).map paramRecord).flatten.length = 7 := by decide +kernel
  have hnumber := (cgiDataText_inj htext).2
  rw [hlength, hstream] at hnumber
  cases hnumber

end Responser
end LxcHttpServer
