import LxcHttpServer.RequestLines
import LxcHttpServer.RaisedExceptions
import LxcHttpServer.MessageHeads
import Mathlib.Data.List.TakeWhile

/-!
# What the client gets of a file

The header announces the size that `stat` reports, and every `send` of the contents ends
at a NUL. A file that is not `html` comes whole if the memory behind it happens to hold a
NUL; an `html` file comes whole if it is one line.
-/
namespace LxcHttpServer
open EffectPrograms Strings MessageHeads

theorem toList_loop_data (bytes : ByteArray) (i : ℕ) (r : Str) :
    ByteArray.toList.loop bytes i r = r.reverse ++ bytes.data.toList.drop i := by
  fun_induction ByteArray.toList.loop bytes i r with
  | case1 i r hi ih =>
    have hget : bytes.get! i = bytes.data.toList.get ⟨i, hi⟩ := getElem!_pos bytes.data i hi
    rw [ih, hget, List.reverse_cons, List.append_assoc, List.singleton_append, List.get_eq_getElem,
      List.getElem_cons_drop]
  | case2 i r hi =>
    have hdrop : bytes.data.toList.drop i = [] := List.drop_eq_nil_of_le (not_lt.mp hi)
    rw [hdrop, List.append_nil]

theorem str_eq (s : String) : str s = s.toByteArray.data.toList := by
  rw [str, String.toUTF8, ByteArray.toList, toList_loop_data]
  rfl

theorem str_append (s t : String) : str (s ++ t) = str s ++ str t := by
  simp [str_eq]

theorem str_ofList {cs : List Char} (h : ∀ c ∈ cs, c.utf8Size = 1) :
    str (String.ofList cs) = cs.map fun c => c.val.toUInt8 := by
  rw [str_eq, String.toByteArray_ofList]
  induction cs with
  | nil => simp
  | cons c cs ih =>
    have hc := h c List.mem_cons_self
    have ih' := ih fun c' hc' => h c' (List.mem_cons_of_mem c hc')
    rw [List.utf8Encode_cons, List.utf8Encode_singleton, String.utf8EncodeChar_eq_singleton hc,
      ByteArray.toList_data_append, List.toList_data_toByteArray, ih', List.map_cons]
    rfl

theorem str_repr (n : ℕ) : str n.repr = (Nat.toDigits 10 n).map fun c => c.val.toUInt8 := by
  rw [Nat.repr_eq_ofList_toDigits, str_ofList]
  intro c hc
  have hdigit := Nat.isDigit_of_mem_toDigits (by decide) (by decide) hc
  simp only [Char.isDigit, Bool.and_eq_true, decide_eq_true_eq] at hdigit
  rw [Char.utf8Size, if_pos]
  exact UInt32.le_trans hdigit.2 (by decide)

/-- No digit is a control character, a space or a sign. -/
theorem lt_of_mem_repr {n : ℕ} {b : UInt8} (h : b ∈ str n.repr) : 47 < b := by
  rw [str_repr, List.mem_map] at h
  obtain ⟨c, hc, rfl⟩ := h
  have hdigit := Nat.isDigit_of_mem_toDigits (by decide) (by decide) hc
  simp only [Char.isDigit, Bool.and_eq_true, decide_eq_true_eq, UInt32.le_iff_toNat_le] at hdigit
  have hzero : '0'.val.toNat = 48 := rfl
  have hnine : '9'.val.toNat = 57 := rfl
  have hslash : (47 : UInt8).toNat = 47 := rfl
  rw [UInt8.lt_iff_toNat_lt, UInt32.toNat_toUInt8]
  omega

theorem length_str_repr {n k : ℕ} (hk : 0 < k) (h : n < 10 ^ k) : (str n.repr).length ≤ k := by
  rw [str_repr, List.length_map]
  exact (Nat.length_toDigits_le_iff (by decide) hk).mpr h

theorem str_toString_negSucc (n : ℕ) : str (toString (Int.negSucc n)) = 45 :: str (n + 1).repr := by
  have hminus : str "-" = [45] := by decide +kernel
  have happend : toString (Int.negSucc n) = "-" ++ (n + 1).repr := rfl
  rw [happend, str_append, hminus]
  rfl

theorem lt_of_mem_toString {z : ℤ} {b : UInt8} (h : b ∈ str (toString z)) : 44 < b := by
  cases z with
  | ofNat n => exact UInt8.lt_trans (by decide) (lt_of_mem_repr h)
  | negSucc n =>
    rw [str_toString_negSucc] at h
    rcases List.mem_cons.mp h with rfl | h
    · decide
    · exact UInt8.lt_trans (by decide) (lt_of_mem_repr h)

theorem length_str_toString {z : ℤ} {k : ℕ} (hk : 0 < k) (h : z.natAbs < 10 ^ k) :
    (str (toString z)).length ≤ k + 1 := by
  cases z with
  | ofNat n =>
    have hn : (str n.repr).length ≤ k := length_str_repr hk h
    exact hn.trans (Nat.le_succ k)
  | negSucc n =>
    rw [str_toString_negSucc, List.length_cons]
    exact Nat.succ_le_succ (length_str_repr hk h)

namespace Responser

theorem asInt_of_le {n : ℕ} (h : (n : ℤ) ≤ INT_MAX) : asInt n = n := by
  have hmax : INT_MAX = 2147483647 := rfl
  simp only [asInt]
  rw [if_neg (by omega)]
  omega

theorem natAbs_asInt (n : ℕ) : (asInt n).natAbs < 10 ^ 10 := by
  have hmax : INT_MAX = 2147483647 := rfl
  simp only [asInt]
  split_ifs <;> omega

variable {env : Env} {d : HttpData} {w w' : World} {contents bytes : Str}

def contentLengthLine (announced : ℤ) : Str := str "Content-Length: " ++ str (toString announced)

/-- The lines of `staticFileHeader`. -/
def headLines (d : HttpData) (fileSize : ℕ) : List Str :=
  [str "HTTP/1.1 200 OK", str "Server: mikuzip01 WebServer/alpha (Linux)"] ++
    (if d.keepConnection then [str "Connection: keep-alive", str "Keep-Alive: "] else []) ++
    [if d.urlResourceType = str "png" then str "Content-Type: image/png"
      else str "Content-Type: text/html", contentLengthLine (asInt fileSize)]

theorem staticFileHeader_eq (d : HttpData) (fileSize : ℕ) :
    staticFileHeader d fileSize = frame CRLF (headLines d fileSize) := by
  have hfirst : firstLine_200 = str "HTTP/1.1 200 OK" ++ CRLF ++
      (str "Server: mikuzip01 WebServer/alpha (Linux)" ++ CRLF) := by decide +kernel
  have hkeep : str "Connection: keep-alive\r\n" ++ str "Keep-Alive: \r\n" =
      str "Connection: keep-alive" ++ CRLF ++ (str "Keep-Alive: " ++ CRLF) := by decide +kernel
  have hpng : str "Content-Type: image/png\r\n" = str "Content-Type: image/png" ++ CRLF := by
    decide +kernel
  have hhtml : str "Content-Type: text/html\r\n" = str "Content-Type: text/html" ++ CRLF := by
    decide +kernel
  have hend : str "\r\n" = CRLF := by decide +kernel
  simp only [staticFileHeader, header_body, header_contentLength, header_pngContentType,
    header_htmlContentType, header_keepAlive, headLines, contentLengthLine, hfirst, hpng, hhtml,
    hend, List.append_assoc]
  rw [hkeep]
  split_ifs <;> simp

/-- The lines of the header that do not depend on the file. -/
def fixedLines : List Str :=
  [str "HTTP/1.1 200 OK", str "Server: mikuzip01 WebServer/alpha (Linux)",
    str "Connection: keep-alive", str "Keep-Alive: ", str "Content-Type: image/png",
    str "Content-Type: text/html"]

theorem mem_headLines {l : Str} {fileSize : ℕ} (h : l ∈ headLines d fileSize) :
    l ∈ fixedLines ∨ l = contentLengthLine (asInt fileSize) := by
  simp only [headLines, fixedLines, List.mem_append, List.mem_cons, List.not_mem_nil, or_false] at *
  split_ifs at h <;> grind

theorem line_contentLengthLine (announced : ℤ) : Line 13 (contentLengthLine announced) := by
  have hname : str "Content-Length: " ≠ [] ∧ 13 ∉ str "Content-Length: " := by decide +kernel
  refine ⟨List.append_ne_nil_of_left_ne_nil hname.1 _, ?_⟩
  rw [contentLengthLine, List.mem_append, not_or]
  exact ⟨hname.2, fun h => absurd (lt_of_mem_toString h) (by decide)⟩

theorem headLines_line {fileSize : ℕ} : ∀ l ∈ headLines d fileSize, Line 13 l := by
  intro l hl
  have hfixed : ∀ l ∈ fixedLines, l ≠ [] ∧ 13 ∉ l := by decide +kernel
  rcases mem_headLines hl with h | rfl
  · exact hfixed l h
  · exact line_contentLengthLine _

/-- The header has room in the buffer whatever the size of the file is. -/
theorem length_staticFileHeader (d : HttpData) (fileSize : ℕ) :
    (staticFileHeader d fileSize).length < PAGE_BUFFER_SIZE := by
  have hline : ∀ l ∈ headLines d fileSize, l.length ≤ 41 := by
    intro l hl
    have hfixed : ∀ l ∈ fixedLines, l.length ≤ 41 := by decide +kernel
    rcases mem_headLines hl with h | rfl
    · exact hfixed l h
    · have hname : (str "Content-Length: ").length = 16 := by decide +kernel
      have hnumber := length_str_toString (by decide) (natAbs_asInt fileSize)
      rw [contentLengthLine, List.length_append]
      omega
  have hcount : (headLines d fileSize).length ≤ 6 := by
    simp only [headLines]
    split_ifs <;> simp
  rw [staticFileHeader_eq]
  have hframe := length_frame_le CRLF hline
  have hcrlf : CRLF.length = 2 := rfl
  have hsize : PAGE_BUFFER_SIZE = 2048 := rfl
  have hprod := Nat.mul_le_mul_right (41 + CRLF.length) hcount
  omega

/-- A head one of whose lines announces the length of the body, and the body. -/
def Announces (bytes body : Str) : Prop := ∃ lines : List Str, (∀ l ∈ lines, Line 13 l) ∧
  bytes = frame CRLF lines ++ body ∧ contentLengthLine body.length ∈ lines

theorem announces_header (d : HttpData) (h : (contents.length : ℤ) ≤ INT_MAX) :
    Announces (staticFileHeader d contents.length ++ contents) contents := by
  refine ⟨headLines d contents.length, headLines_line, by rw [staticFileHeader_eq], ?_⟩
  rw [headLines, asInt_of_le h]
  simp

/-- Behind the header stands the body. -/
theorem body_of_announces {fileSize : ℕ} {body : Str}
    (h : Announces (staticFileHeader d fileSize ++ bytes) body) : bytes = body := by
  obtain ⟨lines, hlines, heq, -⟩ := h
  rw [staticFileHeader_eq] at heq
  exact (frame_append_inj headLines_line hlines heq).2

def transmits : Call → Str
  | .send _ bytes .sent => bytes
  | .send _ bytes (.part count) => bytes.take count
  | _ => []

theorem transmits_isPrefix (sender : Sender) (bytes : Str) (result : SendResult) :
    transmits (.send sender bytes result) <+: bytes := by
  cases result with
  | sent => exact List.prefix_rfl
  | part count => exact List.take_prefix count bytes
  | failed => exact List.nil_prefix
  | broken => exact List.nil_prefix

/-- What the client was sent between two states. -/
def Sent (w w' : World) (bytes : Str) : Prop :=
  ∃ cs : List Call, w'.calls = w.calls ++ cs ∧ cs.flatMap transmits = bytes

theorem Sent.refl (w : World) : Sent w w [] := ⟨[], by simp, rfl⟩

theorem Sent.record (w : World) (c : Call) : Sent w (w.record c) (transmits c) :=
  ⟨[c], rfl, by simp⟩

theorem Sent.trans {w₁ w₂ w₃ : World} {bytes' : Str} (h : Sent w₁ w₂ bytes)
    (h' : Sent w₂ w₃ bytes') : Sent w₁ w₃ (bytes ++ bytes') := by
  obtain ⟨cs, hcs, rfl⟩ := h
  obtain ⟨cs', hcs', rfl⟩ := h'
  exact ⟨cs ++ cs', by rw [hcs', hcs, List.append_assoc], List.flatMap_append⟩

theorem Sent.unique {bytes' : Str} (h : Sent w w' bytes) (h' : Sent w w' bytes') :
    bytes = bytes' := by
  obtain ⟨cs, hcs, rfl⟩ := h
  obtain ⟨cs', hcs', rfl⟩ := h'
  rw [List.append_cancel_left (hcs.symm.trans hcs')]

/-- A program that records its calls sends what they send. -/
theorem sent_of_accounted {α : Type} {p : Work α} {o : Outcome Thrown Undefined α}
    (hp : Accounted p) (h : p w = (o, w')) : ∃ bytes, Sent w w' bytes := by
  obtain ⟨cs, hcs, -⟩ := hp w
  rw [h] at hcs
  exact ⟨_, cs, hcs, rfl⟩

/-- The call came back, and has sent the bytes. -/
def Sends (p : Work Unit) (w : World) (bytes : Str) : Prop :=
  ∃ w', p w = (.ok (), w') ∧ Sent w w' bytes

theorem send_run (hsend : ∀ n, env.send n = .sent) (sender : Sender) (bytes : Str) (w : World) :
    Work.send env sender bytes w = (.ok true, w.record (.send sender bytes .sent)) := by
  simp [Work.send, hsend, SendResult.goesOn]

/-- Nothing of what was sent is a NUL. -/
def WithoutNul (w w' : World) : Prop := ∃ bytes, Sent w w' bytes ∧ 0 ∉ bytes

theorem send_cString_withoutNul (w₀ : World) (s : Str) :
    Prog.Preserves (WithoutNul w₀) (Work.send env .serverStaticFile (cString s)) := by
  rintro w ⟨bytes, hsent, hzero⟩
  rw [Work.send_snd]
  refine ⟨_, hsent.trans (Sent.record w _), ?_⟩
  rw [List.mem_append, not_or]
  refine ⟨hzero, ?_⟩
  intro hmem
  exact zero_not_mem_cString s ((transmits_isPrefix _ _ _).subset hmem)

theorem serverStaticFileBody_withoutNul (w₀ : World) (p : Str × Str) :
    Prog.Preserves (WithoutNul w₀) (serverStaticFileBody env p) := by
  obtain ⟨contents, readBuf⟩ := p
  apply Prog.Preserves.ite
  · exact Prog.Preserves.pure _
  apply Prog.Preserves.ite
  · apply Prog.Preserves.bind (send_cString_withoutNul w₀ _)
    intro ret
    exact (Prog.Preserves.pure _).ite (Prog.Preserves.throw _)
  · exact Prog.Preserves.undefined _

theorem loop_withoutNul {p : Str × Str} {o : Outcome Thrown Undefined Unit}
    (h : (serverStaticFileLoop env).run p w = (o, w')) : WithoutNul w w' := by
  have hloop := Prog.Preserves.loop (l := serverStaticFileLoop env)
    (serverStaticFileBody_withoutNul w) p
  exact hloop.of_eq ⟨[], Sent.refl w, List.not_mem_nil⟩ h

/-- A file with a NUL in it does not come whole. -/
theorem zero_not_mem_of_sends {readBuf : Str}
    (h : Sends ((serverStaticFileLoop env).run (contents, readBuf)) w bytes) : 0 ∉ bytes := by
  obtain ⟨w', hrun, hsent⟩ := h
  obtain ⟨bytes', hsent', hzero⟩ := loop_withoutNul hrun
  rwa [hsent.unique hsent']

theorem loop_empty (readBuf : Str) (w : World) :
    (serverStaticFileLoop env).run ([], readBuf) w = (.ok (), w) :=
  Loop.run_of_leave rfl

/-- `strlen` leaves a buffer without a NUL. -/
theorem loop_undefined {readBuf : Str} (hne : contents ≠ [])
    (hzero : 0 ∉ contents.take PAGE_BUFFER_SIZE ++
      readBuf.drop (contents.take PAGE_BUFFER_SIZE).length) :
    ¬ Sends ((serverStaticFileLoop env).run (contents, readBuf)) w bytes := by
  have hchunk : contents.take PAGE_BUFFER_SIZE ≠ [] := by
    rw [Ne, List.take_eq_nil_iff]
    rintro (h | h)
    · cases h
    · exact hne h
  have hbody : ((serverStaticFileLoop env).body (contents, readBuf) w).1 =
      (Outcome.undefined .outOfBounds : Outcome Thrown Undefined Empty).failing := by
    simp only [serverStaticFileLoop, serverStaticFileBody]
    rw [if_neg hchunk, if_neg hzero]
    rfl
  rintro ⟨w', hrun, -⟩
  have hfails := Loop.run_failing hbody
  rw [hrun] at hfails
  cases hfails

/-- A file that does not fill the buffer is sent with what stood in the buffer behind it. -/
theorem loop_short (hsend : ∀ n, env.send n = .sent) {readBuf : Str} (hne : contents ≠ [])
    (hzero : 0 ∉ contents) (hshort : contents.length < PAGE_BUFFER_SIZE)
    (hrest : 0 ∈ readBuf.drop contents.length) :
    Sends ((serverStaticFileLoop env).run (contents, readBuf)) w
      (contents ++ cString (readBuf.drop contents.length)) := by
  have hchunk : contents.take PAGE_BUFFER_SIZE = contents := List.take_of_length_le hshort.le
  have hleft : contents.drop PAGE_BUFFER_SIZE = [] := List.drop_eq_nil_of_le hshort.le
  let call : Call :=
    .send .serverStaticFile (contents ++ cString (readBuf.drop contents.length)) .sent
  have hbody : (serverStaticFileLoop env).body (contents, readBuf) w =
      (.ok (.inl ([], contents ++ readBuf.drop contents.length)), w.record call) := by
    simp only [serverStaticFileLoop, serverStaticFileBody]
    rw [hchunk, if_neg hne, if_pos (List.mem_append_right _ hrest),
      Prog.bind_ok (send_run hsend _ _ _), hleft, cString_of_not_mem hzero]
    rfl
  refine ⟨w.record call, ?_, Sent.record w call⟩
  rw [Loop.run_of_body hbody, loop_empty]

/-- Nothing is sent of what stands behind the file if that starts with a NUL. -/
theorem cString_drop_eq_nil_iff {l : Str} {i : ℕ} (hin : i < l.length) :
    cString (l.drop i) = [] ↔ l[i]? = some 0 := by
  rw [List.drop_eq_getElem_cons hin, List.getElem?_eq_getElem hin, cString, List.takeWhile_cons]
  split_ifs with hfirst
  · simpa using hfirst
  · simpa using hfirst

/-- A file that comes whole leaves room in the buffer, and a NUL stands somewhere behind it. -/
theorem short_of_sends {readBuf : Str} (hbuf : readBuf.length = PAGE_BUFFER_SIZE)
    (hne : contents ≠ [])
    (h : Sends ((serverStaticFileLoop env).run (contents, readBuf)) w contents) :
    contents.length < PAGE_BUFFER_SIZE ∧ 0 ∈ readBuf.drop contents.length := by
  have hzero := zero_not_mem_of_sends h
  have hshort : contents.length < PAGE_BUFFER_SIZE := by
    by_contra hlong
    have hchunk := List.length_take_of_le (not_lt.mp hlong)
    refine loop_undefined hne ?_ h
    rw [hchunk, ← hbuf, List.drop_length, List.append_nil]
    exact fun hmem => hzero (List.mem_of_mem_take hmem)
  refine ⟨hshort, ?_⟩
  by_contra hnot
  refine loop_undefined hne ?_ h
  rw [List.take_of_length_le hshort.le, List.mem_append, not_or]
  exact ⟨hzero, hnot⟩

/-- A file that is not `html` comes whole exactly if it is empty, or contains no NUL, leaves
room in the buffer, and a NUL stands behind it there. -/
theorem loop_sends_iff (hsend : ∀ n, env.send n = .sent) {readBuf : Str}
    (hbuf : readBuf.length = PAGE_BUFFER_SIZE) :
    Sends ((serverStaticFileLoop env).run (contents, readBuf)) w contents ↔
      contents = [] ∨ (0 ∉ contents ∧ contents.length < PAGE_BUFFER_SIZE ∧
        readBuf[contents.length]? = some 0) := by
  constructor
  · intro h
    rw [or_iff_not_imp_left]
    intro hne
    have hzero := zero_not_mem_of_sends h
    obtain ⟨hshort, hrest⟩ := short_of_sends hbuf hne h
    obtain ⟨w', hrun, hsent⟩ := h
    obtain ⟨w'', hrun', hsent'⟩ := loop_short (w := w) hsend hne hzero hshort hrest
    cases hrun.symm.trans hrun'
    have hnothing : cString (readBuf.drop contents.length) = [] :=
      List.append_cancel_left ((hsent'.unique hsent).trans (List.append_nil _).symm)
    exact ⟨hzero, hshort, (cString_drop_eq_nil_iff (by rwa [hbuf])).mp hnothing⟩
  · rintro (rfl | ⟨hzero, hshort, hnext⟩)
    · exact ⟨w, loop_empty readBuf w, Sent.refl w⟩
    · by_cases hne : contents = []
      · subst hne
        exact ⟨w, loop_empty readBuf w, Sent.refl w⟩
      · have hin : contents.length < readBuf.length := by rwa [hbuf]
        have hrest : 0 ∈ readBuf.drop contents.length :=
          List.mem_of_getElem? (i := 0) (by rwa [List.getElem?_drop])
        have hwhole := loop_short (w := w) hsend hne hzero hshort hrest
        rwa [(cString_drop_eq_nil_iff hin).mpr hnext, List.append_nil] at hwhole

/-! ## Files that are `html` -/

theorem throughNewline_eq_self_iff {s : Str} :
    s.takeWhile (· ≠ 10) ++ (s.dropWhile (· ≠ 10)).take 1 = s ↔ 10 ∉ s.dropLast := by
  induction s with
  | nil => simp
  | cons b s ih =>
    by_cases hb : b = 10
    · subst hb
      cases s <;> simp
    · cases s with
      | nil => simp [hb]
      | cons b' s =>
        have hmem : 10 ∉ (b :: b' :: s).dropLast ↔ 10 ∉ (b' :: s).dropLast := by
          rw [List.dropLast_cons_cons, List.mem_cons, not_or]
          exact and_iff_right (Ne.symm hb)
        rw [hmem, ← ih, List.takeWhile_cons_of_pos (by simpa using hb),
          List.dropWhile_cons_of_pos (by simpa using hb), List.cons_append, List.cons.injEq]
        exact and_iff_right rfl

theorem fgets_starts (size : ℕ) (contents : Str) :
    fgets size contents <+: contents.take (size - 1) := by
  rw [fgets]
  nth_rewrite 3 [← List.takeWhile_append_dropWhile (p := (· ≠ 10)) (l := contents.take (size - 1))]
  exact (List.prefix_append_right_inj _).mpr (List.take_prefix _ _)

/-- The file is what `fgets` stores exactly if it is one line that leaves room for the NUL. -/
theorem fgets_eq_iff : fgets PAGE_BUFFER_SIZE contents = contents ↔
    contents.length < PAGE_BUFFER_SIZE ∧ 10 ∉ contents.dropLast := by
  have hsize : PAGE_BUFFER_SIZE = 2048 := rfl
  have hwhole (hshort : contents.length < PAGE_BUFFER_SIZE) :
      contents.take (PAGE_BUFFER_SIZE - 1) = contents := List.take_of_length_le (by omega)
  constructor
  · intro h
    have hshort : contents.length < PAGE_BUFFER_SIZE := by
      have hle := (fgets_starts PAGE_BUFFER_SIZE contents).length_le
      rw [h, List.length_take] at hle
      omega
    rw [fgets, hwhole hshort, throughNewline_eq_self_iff] at h
    exact ⟨hshort, h⟩
  · rintro ⟨hshort, hline⟩
    rw [fgets, hwhole hshort]
    exact throughNewline_eq_self_iff.mpr hline

/-- What the one `send` of an `html` file gets is the file. -/
theorem line_eq_iff : cString (fgets PAGE_BUFFER_SIZE contents) = contents ↔
    0 ∉ contents ∧ contents.length < PAGE_BUFFER_SIZE ∧ 10 ∉ contents.dropLast := by
  constructor
  · intro h
    have hle : (cString (fgets PAGE_BUFFER_SIZE contents)).length ≤
        (fgets PAGE_BUFFER_SIZE contents).length := (List.takeWhile_prefix _).length_le
    have hprefix : fgets PAGE_BUFFER_SIZE contents <+: contents :=
      (fgets_starts _ _).trans (List.take_prefix _ _)
    have hwhole : fgets PAGE_BUFFER_SIZE contents = contents :=
      hprefix.eq_of_length_le (by rwa [h] at hle)
    rw [hwhole] at h
    exact ⟨cString_eq_self_iff.mp h, fgets_eq_iff.mp hwhole⟩
  · rintro ⟨hzero, hline⟩
    rw [fgets_eq_iff.mpr hline]
    exact cString_eq_self_iff.mpr hzero

/-- A file at the path, which the server may have the permission to open. -/
structure FileAt (env : Env) (path contents : Str) (readable : Bool) : Prop where
  stat : ∀ n, env.stat n path = .found contents.length
  fopen : ∀ n, env.fopen n path = if readable then some contents else none

/-- The client gets a head that announces the length of the file, and the file. -/
def ServesFile (env : Env) (d : HttpData) (contents : Str) (w : World) : Prop :=
  ∃ w' bytes, sendStaticFileToClient env d w = (.ok (), w') ∧ Sent w w' bytes ∧
    Announces bytes contents

/-- The contents come through `fgets`, or through one round of the loop. -/
def PassesWhole (env : Env) (d : HttpData) (contents : Str) : Prop :=
  if d.urlResourceType = str "html" then
    0 ∉ contents ∧ contents.length < PAGE_BUFFER_SIZE ∧ 10 ∉ contents.dropLast
  else contents = [] ∨
    (0 ∉ contents ∧ contents.length < PAGE_BUFFER_SIZE ∧ env.readBufMemory contents.length = 0)

theorem PassesWhole.length_lt (h : PassesWhole env d contents) :
    contents.length < PAGE_BUFFER_SIZE := by
  rw [PassesWhole] at h
  split_ifs at h
  · exact h.2.1
  · rcases h with rfl | ⟨-, hlt, -⟩
    · exact Nat.zero_lt_succ _
    · exact hlt

variable {readable : Bool}

theorem fopen_run (hfile : FileAt env d.url contents true) (w : World) :
    ∃ fd w₁, Work.fopen env d.url w = (.ok (some (fd, contents)), w₁) ∧ Sent w w₁ [] := by
  let opened := w.withKernel (w.server.kernel.openFd w.server.kernel.unusedFd)
  refine ⟨w.server.kernel.unusedFd, opened.record (.fopen d.url true), ?_,
    [.fopen d.url true], rfl, rfl⟩
  simp only [Work.fopen, hfile.fopen, if_true]
  rfl

theorem sent_fclose (fd : ℤ) (w : World) : Sent w (Work.fclose fd w).2 [] :=
  ⟨[.fclose fd], rfl, rfl⟩

/-- Behind a call that sends nothing and before the file is closed. -/
theorem sends_between_iff {p : Work Unit} {fd : ℤ} {w₁ : World} (hp : Accounted p)
    (hbefore : Sent w w₁ []) :
    (∃ w', (p >>= fun _ => Work.fclose fd) w₁ = (.ok (), w') ∧ Sent w w' bytes) ↔
      Sends p w₁ bytes := by
  constructor
  · rintro ⟨w', hrun, hsent⟩
    obtain ⟨⟨⟩, w₂, hrun₁, hclose⟩ := Prog.bind_eq_ok hrun
    cases hclose
    obtain ⟨bytes', hsent'⟩ := sent_of_accounted hp hrun₁
    have hall := (hbefore.trans hsent').trans (sent_fclose fd w₂)
    rw [List.nil_append, List.append_nil] at hall
    rw [hsent.unique hall]
    exact ⟨w₂, hrun₁, hsent'⟩
  · rintro ⟨w₂, hrun, hsent⟩
    have hall := (hbefore.trans hsent).trans (sent_fclose fd w₂)
    rw [List.nil_append, List.append_nil] at hall
    refine ⟨_, ?_, hall⟩
    rw [Prog.bind_ok hrun]
    rfl

theorem serverStaticFile_sends_iff (hfile : FileAt env d.url contents readable)
    (hsend : ∀ n, env.send n = .sent) :
    Sends (serverStaticFile env d) w contents ↔ readable = true ∧ PassesWhole env d contents := by
  cases readable with
  | false =>
    have hclosed : Work.fopen env d.url w = (.ok none, w.record (.fopen d.url false)) := by
      simp only [Work.fopen, hfile.fopen, Bool.false_eq_true, if_false]
    simp only [Bool.false_eq_true, false_and, iff_false]
    rintro ⟨w', hrun, -⟩
    rw [serverStaticFile, Prog.bind_ok hclosed] at hrun
    cases hrun
  | true =>
    obtain ⟨fd, w₁, hopen, hbefore⟩ := fopen_run hfile w
    rw [Sends, serverStaticFile, Prog.bind_ok hopen]
    simp only [true_and]
    rw [PassesWhole]
    by_cases hhtml : d.urlResourceType = str "html"
    · rw [if_pos hhtml, ← line_eq_iff]
      simp only [hhtml, ne_eq, not_true, if_false]
      rw [Prog.bind_ok (send_run hsend _ _ _)]
      generalize cString (fgets PAGE_BUFFER_SIZE contents) = line
      have hsent := (hbefore.trans (Sent.record w₁ (.send .serverStaticFile line .sent))).trans
        (sent_fclose fd _)
      rw [List.nil_append, List.append_nil] at hsent
      constructor
      · rintro ⟨w', hrun, hsent'⟩
        cases hrun
        exact hsent.unique hsent'
      · rintro rfl
        exact ⟨_, rfl, hsent⟩
    · rw [if_neg hhtml]
      simp only [ne_eq, hhtml, not_false_iff, if_true]
      generalize hbuf : (List.range PAGE_BUFFER_SIZE).map env.readBufMemory = readBuf
      have hlength : readBuf.length = PAGE_BUFFER_SIZE := by
        rw [← hbuf, List.length_map, List.length_range]
      have hloop := Prog.Accounts.loop (l := serverStaticFileLoop env)
        serverStaticFileBody_accounted (contents, readBuf)
      refine (sends_between_iff hloop hbefore).trans ?_
      rw [loop_sends_iff hsend hlength]
      refine or_congr_right (and_congr_right fun _ => and_congr_right fun hshort => ?_)
      rw [← hbuf, List.getElem?_map, List.getElem?_range hshort]
      simp

/-- The header is sent whatever the file holds. -/
theorem sendStaticFileToClient_run (hfile : FileAt env d.url contents readable)
    (hsend : ∀ n, env.send n = .sent) (w : World) :
    ∃ w₁, sendStaticFileToClient env d w = serverStaticFile env d w₁ ∧
      Sent w w₁ (staticFileHeader d contents.length) := by
  let call : Call := .send .sendStaticFileToClient (staticFileHeader d contents.length) .sent
  let asked := w.record (.stat d.url (.found contents.length))
  have hstat : Work.stat env d.url w = (.ok (.found contents.length), asked) := by
    rw [Work.stat, hfile.stat]
  have hfill : fill PAGE_BUFFER_SIZE (staticFileHeader d contents.length) asked =
      (.ok (staticFileHeader d contents.length), asked) := by
    rw [fill, if_pos (length_staticFileHeader d contents.length)]
    rfl
  refine ⟨asked.record call, ?_, (Sent.record w _).trans (Sent.record asked call)⟩
  rw [sendStaticFileToClient, Prog.bind_ok hstat]
  simp only
  rw [Prog.bind_ok hfill, Prog.bind_ok (send_run hsend _ _ _)]
  rfl

theorem ServesFile.passesWhole (h : ServesFile env d contents w)
    (hfile : FileAt env d.url contents readable) (hsend : ∀ n, env.send n = .sent) :
    readable = true ∧ PassesWhole env d contents := by
  obtain ⟨w', bytes, hok, hsent, hannounced⟩ := h
  obtain ⟨w₁, hrun, hheader⟩ := sendStaticFileToClient_run hfile hsend w
  rw [hrun] at hok
  obtain ⟨bytes', hsent'⟩ := sent_of_accounted (serverStaticFile_accounted d) hok
  rw [hsent.unique (hheader.trans hsent')] at hannounced
  rw [body_of_announces hannounced] at hsent'
  exact (serverStaticFile_sends_iff hfile hsend).mp ⟨w', hok, hsent'⟩

/-- The client gets the file behind the header that announces it exactly if the server may
open the file and its contents pass whole. -/
theorem serves_file_iff (hfile : FileAt env d.url contents readable)
    (hsend : ∀ n, env.send n = .sent) :
    ServesFile env d contents w ↔ readable = true ∧ PassesWhole env d contents := by
  constructor
  · intro h
    exact h.passesWhole hfile hsend
  · intro hwhole
    obtain ⟨w₁, hrun, hheader⟩ := sendStaticFileToClient_run hfile hsend w
    obtain ⟨w', hok, hsent⟩ := (serverStaticFile_sends_iff (w := w₁) hfile hsend).mpr hwhole
    have hshort : contents.length < 2048 := hwhole.2.length_lt
    have hmax : INT_MAX = 2147483647 := rfl
    exact ⟨w', _, hrun.trans hok, hheader.trans hsent, announces_header d (by omega)⟩

/-- A request for a page. -/
def page : HttpData :=
  { HttpData.new calmEnv 5 with url := str "www/index.html", urlResourceType := str "html" }

/-- Every path leads to one file. -/
def fileEnv (contents : Str) : Env :=
  { calmEnv with stat := fun _ _ => .found contents.length, fopen := fun _ _ => some contents }

theorem fileAt_fileEnv (path contents : Str) : FileAt (fileEnv contents) path contents true :=
  ⟨fun _ => rfl, fun _ => rfl⟩

theorem serves_file_line : ServesFile (fileEnv (str "<html></html>\n")) page
    (str "<html></html>\n") (firstClient 5 []) := by
  have hhtml : page.urlResourceType = str "html" := rfl
  have hline : 0 ∉ str "<html></html>\n" ∧ (str "<html></html>\n").length < PAGE_BUFFER_SIZE ∧
      10 ∉ (str "<html></html>\n").dropLast := by decide +kernel
  refine (serves_file_iff (fileAt_fileEnv _ _) fun _ => rfl).mpr ⟨rfl, ?_⟩
  rwa [PassesWhole, if_pos hhtml]

/-- Of a page with two lines the client gets the first. -/
theorem not_serves_file : ¬ ∀ env d contents w, FileAt env d.url contents true →
    (∀ n, env.send n = .sent) → ServesFile env d contents w := by
  intro hall
  have hhtml : page.urlResourceType = str "html" := rfl
  have hserved := hall (fileEnv (str "<html>\n</html>\n")) page _ (firstClient 5 [])
    (fileAt_fileEnv _ _) fun _ => rfl
  have hwhole := (hserved.passesWhole (fileAt_fileEnv _ _) fun _ => rfl).2
  rw [PassesWhole, if_pos hhtml] at hwhole
  have htwo : 10 ∈ (str "<html>\n</html>\n").dropLast := by decide +kernel
  exact hwhole.2.2 htwo

end Responser
end LxcHttpServer
