import LxcHttpServer.StaticFiles
import Mathlib.Data.List.DropRight

/-!
# The index page

`loadIndexTomemory` of `utils.cpp` appends the pieces that `fgets` reads to what stands in new
memory. It asks for the end of the file after it has read, so a piece that ends the file
without a newline is not appended.
-/
namespace LxcHttpServer
open EffectPrograms Separators Strings

/-- Appends a string to the one at the start of `dest`. -/
def strcat (dest src : Str) : Work Str :=
  -- strlen(dest)
  if 0 ∈ dest then
    let len := (cString dest).length
    let text := cString src ++ [0]
    if len + text.length ≤ dest.length then
      pure (dest.take len ++ text ++ dest.drop (len + text.length))
    else Prog.undefined .outOfBounds
  else Prog.undefined .outOfBounds

/-- A file that is read, and whether its end was met. -/
structure Resource where
  contents : Str
  feof : Bool

/-- `fgets` from a file: `readBuf` is left as it is if nothing is read. The end is met where
neither a newline nor the size of the buffer ends the piece. -/
def Resource.fgets (readBuf : Str) (resource : Resource) : Str × Resource :=
  let piece := Responser.fgets 256 resource.contents
  let feof := piece.length < 255 ∧ piece.getLast? ≠ some 10
  (if piece = [] then readBuf else piece, ⟨resource.contents.drop piece.length, feof⟩)

variable {s a b : Str}

/-- A piece ends with a newline, or fills the buffer, or ends the file. -/
theorem fgets_cases (s : Str) :
    (∃ l r, s = l ++ [10] ++ r ∧ Responser.fgets 256 s = l ++ [10]) ∨
      (10 ∉ s ∧ s.length < 255 ∧ Responser.fgets 256 s = s) ∨
      (∃ l r, s = l ++ r ∧ 10 ∉ l ∧ l.length = 255 ∧ Responser.fgets 256 s = l) := by
  by_cases hline : 10 ∈ s.take 255
  · obtain ⟨l, r, hsplit, hl⟩ := List.eq_append_cons_of_mem hline
    left
    refine ⟨l, r ++ s.drop 255, ?_, ?_⟩
    · rw [← List.append_assoc, List.append_assoc l, List.singleton_append, ← hsplit,
        List.take_append_drop]
    · rw [Responser.fgets, hsplit, takeWhile_append_cons hl, dropWhile_append_cons hl]
      rfl
  · have hhead : Responser.fgets 256 s = s.take 255 := by
      rw [Responser.fgets, takeWhile_eq_self_iff.mpr hline, dropWhile_of_notMem hline]
      exact List.append_nil _
    rcases Nat.lt_or_ge s.length 255 with hshort | hlong
    · rw [List.take_of_length_le hshort.le] at hline hhead
      exact .inr (.inl ⟨hline, hshort, hhead⟩)
    · have hlength : (s.take 255).length = 255 := List.length_take_of_le hlong
      exact .inr (.inr ⟨s.take 255, s.drop 255, (List.take_append_drop 255 s).symm, hline, hlength,
        hhead⟩)

/-- What stands behind the last newline. -/
def lastLine (s : Str) : Str := s.rtakeWhile (· ≠ 10)

/-- How much `fgets` reads of the last line at last. -/
def lastPiece (s : Str) : ℕ := (lastLine s).length % 255

theorem lastLine_of_notMem (h : 10 ∉ s) : lastLine s = s :=
  List.rtakeWhile_eq_self_iff.mpr (ne_of_notMem h)

/-- The last line of a text is that of its last part, or goes through the part. -/
theorem length_lastLine_append (a b : Str) : (lastLine (a ++ b)).length =
    if 10 ∈ b then (lastLine b).length else (lastLine a).length + b.length := by
  simp only [lastLine, List.rtakeWhile, List.reverse_append, List.length_reverse]
  split_ifs with hb
  · obtain ⟨l, r, hsplit, hl⟩ := List.eq_append_cons_of_mem (List.mem_reverse.mpr hb)
    rw [hsplit, List.append_assoc, List.cons_append, takeWhile_append_cons hl,
      takeWhile_append_cons hl]
  · have hreverse : 10 ∉ b.reverse := fun hmem => hb (List.mem_reverse.mp hmem)
    rw [takeWhile_append hreverse, List.length_append, List.length_reverse, Nat.add_comm]

theorem lastPiece_newline (l r : Str) : lastPiece (l ++ [10] ++ r) = lastPiece r := by
  have hnewline : lastLine (l ++ [10]) = [] := List.rtakeWhile_concat_neg _ _ _ (by simp)
  rw [lastPiece, lastPiece, length_lastLine_append, hnewline]
  split_ifs with hr
  · rfl
  · rw [lastLine_of_notMem hr, List.length_nil, Nat.zero_add]

theorem lastPiece_full {l : Str} (r : Str) (hl : 10 ∉ l) (hfull : l.length = 255) :
    lastPiece (l ++ r) = lastPiece r := by
  rw [lastPiece, lastPiece, length_lastLine_append, lastLine_of_notMem hl]
  split_ifs with hr
  · rfl
  · rw [lastLine_of_notMem hr, hfull, Nat.add_mod_left]

/-- `fgets` reads a piece behind which the file goes on, or the last piece. -/
theorem fgets_spec (readBuf : Str) (resource : Resource) :
    (∃ piece rest, piece ≠ [] ∧ resource.contents = piece ++ rest ∧
      lastPiece resource.contents = lastPiece rest ∧
      resource.fgets readBuf = (piece, ⟨rest, false⟩)) ∨
    (lastPiece resource.contents = resource.contents.length ∧
      (resource.fgets readBuf).2.feof = true) := by
  obtain ⟨s, feof⟩ := resource
  rcases fgets_cases s with ⟨l, r, rfl, hpiece⟩ | ⟨hline, hshort, hpiece⟩ |
    ⟨l, r, rfl, hl, hfull, hpiece⟩
  · left
    refine ⟨l ++ [10], r, by simp, rfl, lastPiece_newline l r, ?_⟩
    simp only [Resource.fgets, hpiece]
    simp
  · right
    have hlast : s.getLast? ≠ some 10 := fun h => hline (List.mem_of_getLast? h)
    refine ⟨?_, ?_⟩
    · rw [lastPiece, lastLine_of_notMem hline, Nat.mod_eq_of_lt hshort]
    · simp only [Resource.fgets, hpiece]
      exact decide_eq_true ⟨hshort, hlast⟩
  · left
    have hne : l ≠ [] := by
      rintro rfl
      cases hfull
    have hdrop : (l ++ r).drop 255 = r := by rw [← hfull, List.drop_left]
    refine ⟨l, r, hne, rfl, lastPiece_full r hl hfull, ?_⟩
    simp only [Resource.fgets, hpiece, hfull, hdrop]
    simp [hne]

/-- One round of the loop: the page, the piece that was read, and the file behind it. -/
def loadIndexBody : Str × Str × Resource → Work ((Str × Str × Resource) ⊕ Str)
  | (page, readBuf, resource) =>
    if resource.feof then pure (.inr page)
    else do
      let page ← strcat page readBuf
      pure (.inl (page, resource.fgets readBuf))

/-- What is left to read. -/
def unreadPieces (resource : Resource) : ℕ :=
  if resource.feof then 0 else resource.contents.length + 1

theorem unreadPieces_fgets (readBuf : Str) {resource : Resource} (h : resource.feof = false) :
    unreadPieces (resource.fgets readBuf).2 < unreadPieces resource := by
  rw [unreadPieces, unreadPieces, h]
  rcases fgets_spec readBuf resource with ⟨piece, rest, hne, hsplit, -, hread⟩ | ⟨-, hend⟩
  · have hpos := List.length_pos_of_ne_nil hne
    rw [hread, hsplit, List.length_append]
    simp only [Bool.false_eq_true, if_false]
    omega
  · rw [hend]
    simp

theorem loadIndexBody_reads {p p' : Str × Str × Resource} {w w' : World}
    (h : loadIndexBody p w = (.ok (.inl p'), w')) : unreadPieces p'.2.2 < unreadPieces p.2.2 := by
  obtain ⟨page, readBuf, resource⟩ := p
  rw [loadIndexBody] at h
  split_ifs at h with hend
  · cases h
  · obtain ⟨page', w₁, -, h⟩ := Prog.bind_eq_ok h
    cases h
    exact unreadPieces_fgets readBuf (by simpa using hend)

def loadIndexLoop : Loop World Thrown Undefined (Str × Str × Resource) Str where
  body := loadIndexBody
  measure p _ := unreadPieces p.2.2
  decreases _ _ _ _ h := loadIndexBody_reads h

/-- The contents of new memory. -/
def freshMemory (env : Env) (size : ℕ) : Str := (List.range size).map env.arrayMemory

/-- What `memory_index_page` points to. If `stat` fails, `st_size` is what stood in memory. -/
def loadIndexTomemory (env : Env) (stateMemory : ℤ) (file_path : Str) : Work Str := do
  let staticFileState ← Work.stat env file_path
  let size : ℤ := match staticFileState with
    | .found size => size + 1
    | .denied | .missing => stateMemory + 1
  Work.newArray env size
  let resource ← Work.fopen env file_path
  match resource with
  | none => Prog.undefined .nullPointer
  | some (fd, contents) => do
    let page ← loadIndexLoop.run (freshMemory env size.toNat, Resource.fgets [] ⟨contents, false⟩)
    Work.fclose fd
    pure page

variable {env : Env} {path contents page page' src : Str} {w w' : World}

/-- The contents without the piece that ends them. -/
def appended (s : Str) : Str := s.take (s.length - lastPiece s)

/-- What the loop still appends: the piece that was read, and what `fgets` reads behind it. -/
def toAppend (p : Str × Resource) : Str :=
  if p.2.feof then [] else p.1 ++ appended p.2.contents

theorem lastPiece_le (s : Str) : lastPiece s ≤ s.length :=
  (Nat.mod_le _ _).trans (List.rtakeWhile_suffix _ _).length_le

theorem toAppend_fgets (readBuf : Str) (resource : Resource) :
    toAppend (resource.fgets readBuf) = appended resource.contents := by
  rcases fgets_spec readBuf resource with ⟨piece, rest, -, hsplit, hlast, hread⟩ | ⟨hlast, hend⟩
  · have hle := lastPiece_le rest
    rw [hread, hsplit, toAppend, appended, appended, ← hsplit, hlast, hsplit, List.length_append,
      Nat.add_sub_assoc hle, List.take_length_add_append]
    rfl
  · rw [appended, hlast, Nat.sub_self, List.take_zero, toAppend, if_pos hend]

theorem fgets_without_nul {readBuf : Str} (resource : Resource) (hbuf : 0 ∉ readBuf)
    (hfile : 0 ∉ resource.contents) : 0 ∉ (resource.fgets readBuf).1 ∧
      0 ∉ (resource.fgets readBuf).2.contents := by
  have hpiece : 0 ∉ Responser.fgets 256 resource.contents := by
    intro h
    exact hfile (List.mem_of_mem_take ((Responser.fgets_starts _ _).subset h))
  refine ⟨?_, fun h => hfile (List.mem_of_mem_drop h)⟩
  simp only [Resource.fgets]
  split_ifs
  · exact hbuf
  · exact hpiece

/-- The page once a string was appended. -/
def joined (page src : Str) : Str :=
  cString page ++ src ++ 0 :: page.drop ((cString page).length + (src.length + 1))

theorem cString_joined (hsrc : 0 ∉ src) : cString (joined page src) = cString page ++ src := by
  have hjoined : 0 ∉ cString page ++ src := by
    rw [List.mem_append, not_or]
    exact ⟨zero_not_mem_cString page, hsrc⟩
  exact cString_append_zero hjoined _

theorem length_joined (hroom : (cString page).length + src.length < page.length) :
    (joined page src).length = page.length := by
  rw [joined, List.length_append, List.length_append, List.length_cons, List.length_drop]
  omega

theorem strcat_ok (hsrc : 0 ∉ src) (hzero : 0 ∈ page)
    (hroom : (cString page).length + src.length < page.length) :
    strcat page src = pure (joined page src) := by
  have hfits : (cString page).length + (src ++ [0]).length ≤ page.length := by
    rw [List.length_append]
    exact hroom
  rw [strcat, if_pos hzero]
  simp only [cString_eq_self_iff.mpr hsrc, take_cString]
  rw [if_pos hfits, joined, List.append_assoc, List.append_assoc, List.append_assoc,
    List.length_append]
  rfl

theorem strcat_eq_ok (hsrc : 0 ∉ src) (h : strcat page src w = (.ok page', w')) :
    page' = joined page src ∧ (cString page).length + src.length < page.length := by
  by_cases hzero : 0 ∈ page
  · by_cases hroom : (cString page).length + src.length < page.length
    · rw [strcat_ok hsrc hzero hroom] at h
      cases h
      exact ⟨rfl, hroom⟩
    · have hfull : ¬ (cString page).length + (src ++ [0]).length ≤ page.length := by
        rw [List.length_append]
        exact hroom
      rw [strcat, if_pos hzero] at h
      simp only [cString_eq_self_iff.mpr hsrc] at h
      rw [if_neg hfull] at h
      cases h
  · rw [strcat, if_neg hzero] at h
    cases h

theorem toAppend_of_end {readBuf : Str} {resource : Resource} (h : resource.feof = true) :
    toAppend (readBuf, resource) = [] := by
  rw [toAppend, if_pos h]

theorem toAppend_of_not_end {readBuf : Str} {resource : Resource} (h : resource.feof = false) :
    toAppend (readBuf, resource) = readBuf ++ appended resource.contents := by
  rw [toAppend, if_neg (Bool.eq_false_iff.mp h)]

/-- The page that the loop leaves. -/
theorem loadIndexLoop_eq_ok {p : Str × Str × Resource} (hbuf : 0 ∉ p.2.1)
    (hfile : 0 ∉ p.2.2.contents) (h : loadIndexLoop.run p w = (.ok page', w')) :
    cString page' = cString p.1 ++ toAppend p.2 ∧ page'.length = p.1.length := by
  induction p, w using loadIndexLoop.run_induction with
  | step p w ih =>
    obtain ⟨page, readBuf, resource⟩ := p
    rw [Loop.run_eq] at h
    obtain ⟨r, w₁, hbody, h⟩ := Prog.bind_eq_ok h
    have hround := hbody
    simp only [loadIndexLoop, loadIndexBody] at hround
    split_ifs at hround with hend
    · cases hround
      cases h
      rw [toAppend_of_end hend, List.append_nil]
      exact ⟨rfl, rfl⟩
    · obtain ⟨page₁, w₂, hcat, hround⟩ := Prog.bind_eq_ok hround
      cases hround
      obtain ⟨rfl, hfits⟩ := strcat_eq_ok hbuf hcat
      obtain ⟨hbuf₁, hfile₁⟩ := fgets_without_nul resource hbuf hfile
      obtain ⟨hstring, hlength⟩ := ih _ _ hbody hbuf₁ hfile₁ h
      rw [cString_joined hbuf, toAppend_fgets, List.append_assoc] at hstring
      rw [length_joined hfits] at hlength
      rw [toAppend_of_not_end (by simpa using hend)]
      exact ⟨hstring, hlength⟩

/-- The loop does not leave a page that has room for what it appends. -/
theorem loadIndexLoop_ok {p : Str × Str × Resource} (w : World) (hbuf : 0 ∉ p.2.1)
    (hfile : 0 ∉ p.2.2.contents) (hzero : 0 ∈ p.1)
    (hroom : (cString p.1).length + (toAppend p.2).length < p.1.length) :
    ∃ page' w', loadIndexLoop.run p w = (.ok page', w') := by
  induction p, w using loadIndexLoop.run_induction with
  | step p w ih =>
    obtain ⟨page, readBuf, resource⟩ := p
    cases hend : resource.feof with
    | true =>
      have hbody : loadIndexLoop.body (page, readBuf, resource) w = (.ok (.inr page), w) := by
        simp only [loadIndexLoop, loadIndexBody, if_pos hend]
        rfl
      exact ⟨page, w, Loop.run_of_leave hbody⟩
    | false =>
      rw [toAppend_of_not_end hend, List.length_append] at hroom
      simp only at hbuf hfile hzero hroom
      have hfits : (cString page).length + readBuf.length < page.length := by omega
      have hbody : loadIndexLoop.body (page, readBuf, resource) w =
          (.ok (.inl (joined page readBuf, resource.fgets readBuf)), w) := by
        simp only [loadIndexLoop, loadIndexBody, if_neg (Bool.eq_false_iff.mp hend)]
        rw [strcat_ok hbuf hzero hfits]
        rfl
      obtain ⟨hbuf₁, hfile₁⟩ := fgets_without_nul resource hbuf hfile
      have hzero₁ : 0 ∈ joined page readBuf := List.mem_append_right _ List.mem_cons_self
      have hroom₁ : (cString (joined page readBuf)).length +
          (toAppend (resource.fgets readBuf)).length < (joined page readBuf).length := by
        rw [cString_joined hbuf, toAppend_fgets, length_joined hfits, List.length_append]
        omega
      obtain ⟨page', w', hrest⟩ := ih _ _ hbody hbuf₁ hfile₁ hzero₁ hroom₁
      exact ⟨page', w', (Loop.run_of_body hbody).trans hrest⟩

/-- What `loadIndexTomemory` does once it has opened the file. -/
def loadFrom (env : Env) (fd : ℤ) (contents : Str) : Work Str := do
  let page ← loadIndexLoop.run
    (freshMemory env (contents.length + 1), Resource.fgets [] ⟨contents, false⟩)
  Work.fclose fd
  pure page

theorem loadIndexTomemory_run (stateMemory : ℤ) (hfile : Responser.FileAt env path contents true)
    (hnew : env.newArray (w.calls.length + 1) = true) :
    ∃ fd w₁, loadIndexTomemory env stateMemory path w = loadFrom env fd contents w₁ := by
  have hstat : Work.stat env path w = (.ok (.found contents.length),
      w.record (.stat path (.found contents.length))) := by
    rw [Work.stat, hfile.stat]
  let w₁ := w.record (.stat path (.found contents.length))
  have hcalls : w₁.calls.length = w.calls.length + 1 := by simp [w₁]
  have hmemory : Work.newArray env (contents.length + 1) w₁ =
      (.ok (), w₁.record (.newArray (contents.length + 1) true)) := by
    have hpos : ¬ (contents.length + 1 : ℤ) < 0 := by omega
    simp only [Work.newArray, hcalls, hnew, if_neg hpos, if_true]
  let w₂ := w₁.record (.newArray (contents.length + 1) true)
  let k := w₂.server.kernel
  let w₃ := (w₂.withKernel (k.openFd k.unusedFd)).record (.fopen path true)
  have hopen : Work.fopen env path w₂ = (.ok (some (k.unusedFd, contents)), w₃) := by
    simp only [Work.fopen, hfile.fopen, if_true]
    rfl
  refine ⟨k.unusedFd, w₃, ?_⟩
  rw [loadIndexTomemory, Prog.bind_ok hstat]
  simp only
  rw [Prog.bind_ok hmemory, Prog.bind_ok hopen]
  rfl

theorem loadFrom_eq_ok {fd : ℤ} (hzero : 0 ∉ contents)
    (h : loadFrom env fd contents w = (.ok page, w')) :
    cString page = cString (freshMemory env (contents.length + 1)) ++ appended contents := by
  obtain ⟨page₁, w₁, hloop, h⟩ := Prog.bind_eq_ok h
  cases h
  obtain ⟨hbuf, hfile⟩ := fgets_without_nul ⟨contents, false⟩ List.not_mem_nil hzero
  rw [(loadIndexLoop_eq_ok hbuf hfile hloop).1, toAppend_fgets]

/-- Where the page has room for the pieces, it comes back. -/
theorem loadFrom_ok (fd : ℤ) (w : World) (hzero : 0 ∉ contents)
    (hroom : (cString (freshMemory env (contents.length + 1))).length + (appended contents).length ≤
      contents.length) :
    ∃ page w', loadFrom env fd contents w = (.ok page, w') ∧ page.length = contents.length + 1 := by
  let memory := freshMemory env (contents.length + 1)
  let read := Resource.fgets [] ⟨contents, false⟩
  obtain ⟨hbuf, hfile⟩ := fgets_without_nul ⟨contents, false⟩ List.not_mem_nil hzero
  have hlength : memory.length = contents.length + 1 := by
    simp only [memory, freshMemory, List.length_map, List.length_range]
  have hstring : 0 ∈ memory := by
    by_contra hnone
    rw [cString_eq_self_iff.mpr hnone, hlength] at hroom
    omega
  have hfits : (cString memory).length + (toAppend read).length < memory.length := by
    rw [toAppend_fgets, hlength]
    exact Nat.lt_succ_of_le hroom
  obtain ⟨page, w₁, hloop⟩ := loadIndexLoop_ok (p := (memory, read)) w hbuf hfile hstring hfits
  have hsize := (loadIndexLoop_eq_ok hbuf hfile hloop).2
  exact ⟨page, (Work.fclose fd w₁).2, Prog.bind_ok hloop, hsize.trans hlength⟩

/-- The page comes back with the contents of the file in it. -/
def LoadsIndex (env : Env) (stateMemory : ℤ) (path contents : Str) (w : World) : Prop :=
  ∃ page w', loadIndexTomemory env stateMemory path w = (.ok page, w') ∧
    page.length = contents.length + 1 ∧ cString page = contents

/-- What stood in the new memory, with the pieces that are appended to it, is the contents. -/
def MakesWhole (env : Env) (contents : Str) : Prop :=
  cString (freshMemory env (contents.length + 1)) ++ appended contents = contents

theorem LoadsIndex.makesWhole {stateMemory : ℤ} (hfile : Responser.FileAt env path contents true)
    (hnew : env.newArray (w.calls.length + 1) = true) (hzero : 0 ∉ contents)
    (h : LoadsIndex env stateMemory path contents w) : MakesWhole env contents := by
  obtain ⟨fd, w₁, hrun⟩ := loadIndexTomemory_run stateMemory hfile hnew
  obtain ⟨page, w', hok, -, hpage⟩ := h
  rw [hrun] at hok
  rw [MakesWhole, ← loadFrom_eq_ok hzero hok, hpage]

/-- The contents come whole exactly if what stood in the new memory makes up for the piece that
is left out. -/
theorem loads_index_iff (stateMemory : ℤ) (hfile : Responser.FileAt env path contents true)
    (hnew : env.newArray (w.calls.length + 1) = true) (hzero : 0 ∉ contents) :
    LoadsIndex env stateMemory path contents w ↔ MakesWhole env contents := by
  constructor
  · exact LoadsIndex.makesWhole hfile hnew hzero
  · intro hwhole
    obtain ⟨fd, w₁, hrun⟩ := loadIndexTomemory_run stateMemory hfile hnew
    have hroom : (cString (freshMemory env (contents.length + 1))).length +
        (appended contents).length ≤ contents.length := by
      rw [← List.length_append, hwhole]
    obtain ⟨page, w', hok, hlength⟩ := loadFrom_ok fd w₁ hzero hroom
    refine ⟨page, w', hrun.trans hok, hlength, ?_⟩
    rw [loadFrom_eq_ok hzero hok, hwhole]

/-- In memory that starts with a NUL the contents come whole exactly if no piece is left out. -/
theorem makesWhole_iff_of_nul (h : env.arrayMemory 0 = 0) :
    MakesWhole env contents ↔ lastPiece contents = 0 := by
  have hnothing : cString (freshMemory env (contents.length + 1)) = [] := by
    rw [freshMemory, List.range_succ_eq_map, List.map_cons, h]
    rfl
  have hle := lastPiece_le contents
  rw [MakesWhole, hnothing, List.nil_append, appended, List.take_eq_self_iff]
  omega

/-- What stood in the memory has the length of the piece that is left out. -/
theorem MakesWhole.length_eq (h : MakesWhole env contents) :
    (cString (freshMemory env (contents.length + 1))).length = lastPiece contents := by
  have hlength := congrArg List.length h
  have hle := lastPiece_le contents
  rw [List.length_append, appended, List.length_take] at hlength
  omega

theorem loads_index_line : LoadsIndex (Responser.fileEnv (str "<html></html>\n")) 0
    (str "www/index.html") (str "<html></html>\n") (firstClient 5 []) := by
  have hwhole : MakesWhole (Responser.fileEnv (str "<html></html>\n")) (str "<html></html>\n") :=
    (makesWhole_iff_of_nul rfl).mpr (by decide +kernel)
  exact (loads_index_iff 0 (Responser.fileAt_fileEnv _ _) rfl (by decide +kernel)).mpr hwhole

/-- Of a page without a newline at the end nothing is loaded. -/
theorem not_loads_index : ¬ ∀ env stateMemory path contents w,
    Responser.FileAt env path contents true → env.newArray (w.calls.length + 1) = true →
      0 ∉ contents → LoadsIndex env stateMemory path contents w := by
  intro hall
  have hzero : 0 ∉ str "<html></html>" := by decide +kernel
  have hloads := hall (Responser.fileEnv (str "<html></html>")) 0 (str "www/index.html") _
    (firstClient 5 []) (Responser.fileAt_fileEnv _ _) rfl hzero
  have hwhole := hloads.makesWhole (Responser.fileAt_fileEnv _ _) rfl hzero
  have hpiece : lastPiece (str "<html></html>") ≠ 0 := by decide +kernel
  exact hpiece ((makesWhole_iff_of_nul rfl).mp hwhole)

end LxcHttpServer
