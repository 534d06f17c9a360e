import LxcHttpServer.StartLines
import LxcHttpServer.ContentLengths

/-!
# The language of request heads

The heads with which the parser goes on are a language of byte strings: a start line of three
words or more, lines with a `=`, and a line that is empty up to its first NUL. Whichever way
a stream is cut, the parser takes exactly a head of the language from it, and the object it
leaves is a function of that head.
-/
namespace LxcHttpServer
open EffectPrograms CutStreams Strings

/-- The line is over with its first CR LF, and `lineBuffer` holds it with them. -/
def Fits (l : Str) : Prop := ¬ CRLF <:+: l ++ [13] ∧ l.length + 2 ≤ LINE_BUFFERSIZE

theorem fittingLine_of_fits {l : Str} (h : Fits l) (r : Str) :
    fittingLine (l ++ CRLF ++ r) = some (l, r) :=
  fittingLine_eq_some.mpr ⟨rfl, h.1, h.2⟩

/-- A stream begins with one line only. -/
theorem Fits.append_inj {l l' r r' : Str} (h : Fits l) (h' : Fits l')
    (heq : l ++ CRLF ++ r = l' ++ CRLF ++ r') : l = l' ∧ r = r' := by
  have hline := fittingLine_of_fits h r
  rw [heq, fittingLine_of_fits h' r', Option.some.injEq, Prod.mk.injEq] at hline
  exact ⟨hline.1.symm, hline.2.symm⟩

/-- The lines that `parseHeader` stores, and the line at which it stops. -/
structure HeaderBlock where
  lines : List Str
  last : Str
  fits : ∀ l ∈ lines, Fits l
  named : ∀ l ∈ lines, 61 ∈ cString l
  last_fits : Fits last
  last_empty : cString last = []

namespace HeaderBlock

/-- The block as it stands in the stream. -/
def bytes (q : HeaderBlock) : Str := (q.lines.map (· ++ CRLF)).flatten ++ (q.last ++ CRLF)

/-- The object after the lines of the block. -/
def object (q : HeaderBlock) (d : HttpData) : HttpData :=
  (q.lines.map cString).foldl HttpData.takeHeader d

/-- A block of the last line alone. -/
def stop (last : Str) (hfits : Fits last) (hempty : cString last = []) : HeaderBlock where
  lines := []
  last := last
  fits := by simp
  named := by simp
  last_fits := hfits
  last_empty := hempty

/-- The block with one more line before it. -/
def cons (l : Str) (hfits : Fits l) (hnamed : 61 ∈ cString l) (q : HeaderBlock) : HeaderBlock where
  lines := l :: q.lines
  last := q.last
  fits := List.forall_mem_cons.mpr ⟨hfits, q.fits⟩
  named := List.forall_mem_cons.mpr ⟨hnamed, q.named⟩
  last_fits := q.last_fits
  last_empty := q.last_empty

@[simp] theorem bytes_stop {last : Str} (hfits : Fits last) (hempty : cString last = []) :
    (stop last hfits hempty).bytes = last ++ CRLF := rfl

@[simp] theorem bytes_cons {l : Str} (hfits : Fits l) (hnamed : 61 ∈ cString l)
    (q : HeaderBlock) : (cons l hfits hnamed q).bytes = l ++ CRLF ++ q.bytes := by
  simp [bytes, cons]

@[simp] theorem object_stop {last : Str} (hfits : Fits last) (hempty : cString last = [])
    (d : HttpData) : (stop last hfits hempty).object d = d := rfl

@[simp] theorem object_cons {l : Str} (hfits : Fits l) (hnamed : 61 ∈ cString l)
    (q : HeaderBlock) (d : HttpData) :
    (cons l hfits hnamed q).object d = q.object (d.takeHeader (cString l)) := rfl

theorem object_reading (q : HeaderBlock) (d : HttpData) (unread : Str) (prev : UInt8) :
    q.object (d.reading unread prev) = (q.object d).reading unread prev :=
  HttpData.foldl_takeHeader_reading _ unread prev d

/-- Every block is built line by line. -/
theorem induction {P : HeaderBlock → Prop}
    (hstop : ∀ last hfits hempty, P (stop last hfits hempty))
    (hcons : ∀ l hfits hnamed q, P q → P (cons l hfits hnamed q)) (q : HeaderBlock) : P q := by
  obtain ⟨lines, last, fits, named, last_fits, last_empty⟩ := q
  induction lines with
  | nil => exact hstop last last_fits last_empty
  | cons l lines ih =>
    rw [List.forall_mem_cons] at fits named
    exact hcons l fits.1 named.1 ⟨lines, last, fits.2, named.2, last_fits, last_empty⟩
      (ih fits.2 named.2)

theorem cString_ne_nil {l : Str} (h : 61 ∈ cString l) : cString l ≠ [] :=
  List.ne_nil_of_mem h

/-- A stream begins with one block only. -/
theorem append_inj (q q' : HeaderBlock) {r r' : Str} (h : q.bytes ++ r = q'.bytes ++ r') :
    q = q' ∧ r = r' := by
  induction q using HeaderBlock.induction generalizing q' with
  | hstop last hfits hempty =>
    induction q' using HeaderBlock.induction with
    | hstop last' hfits' hempty' =>
      obtain ⟨rfl, rfl⟩ := hfits.append_inj hfits' h
      exact ⟨rfl, rfl⟩
    | hcons l' hfits' hnamed' q' =>
      simp only [bytes_stop, bytes_cons, List.append_assoc (l' ++ CRLF)] at h
      obtain ⟨rfl, -⟩ := hfits.append_inj hfits' h
      exact absurd hempty (cString_ne_nil hnamed')
  | hcons l hfits hnamed q ih =>
    induction q' using HeaderBlock.induction with
    | hstop last' hfits' hempty' =>
      simp only [bytes_stop, bytes_cons, List.append_assoc (l ++ CRLF)] at h
      obtain ⟨rfl, -⟩ := hfits.append_inj hfits' h
      exact absurd hempty' (cString_ne_nil hnamed)
    | hcons l' hfits' hnamed' q' =>
      simp only [bytes_cons, List.append_assoc (l ++ CRLF), List.append_assoc (l' ++ CRLF)] at h
      obtain ⟨rfl, hrest⟩ := hfits.append_inj hfits' h
      obtain ⟨rfl, rfl⟩ := ih q' hrest
      exact ⟨rfl, rfl⟩

end HeaderBlock

namespace HttpData

variable {env : Env} {fd : ℤ} {d d' : HttpData} {w w' : World} {rest : Str}

/-- A line that is in the stream is read and given to what `parseHeader` does with lines. -/
theorem parseHeaderBody_line {l : Str} (hprev : d.prev ≠ 13) (hfits : Fits l)
    (hstream : (cutOf d w).stream = l ++ CRLF ++ rest) : ∃ d₁ w₁, TookLine l d w d₁ w₁ ∧
      (cutOf d₁ w₁).stream = rest ∧ parseHeaderBody d w = (headerLine (cString l) d₁, w₁) := by
  have hline : fittingLine (cutOf d w).stream = some (l, rest) := by
    rw [hstream, fittingLine_of_fits hfits]
  obtain ⟨d₁, w₁, hcall, htook⟩ := parseOneLine_took hprev hline
  have hrest := htook.line
  rw [hline, Option.some.injEq, Prod.mk.injEq] at hrest
  refine ⟨d₁, w₁, htook, hrest.2.symm, ?_⟩
  rw [parseHeaderBody_eq, Prog.bind_ok hcall, Prog.ofOutcome_run]

/-- A block that stands in the stream is taken from it. -/
theorem parseHeader_block (q : HeaderBlock) (hprev : d.prev ≠ 13)
    (hstream : (cutOf d w).stream = q.bytes ++ rest) : ∃ d' w', parseHeader d w = (.ok d', w') ∧
      d' = (q.object d).reading d'.unread d'.prev ∧ (cutOf d' w').stream = rest := by
  rw [parseHeader]
  induction q using HeaderBlock.induction generalizing d w with
  | hstop last hfits hempty =>
    obtain ⟨d₁, w₁, htook, hrest, hbody⟩ := parseHeaderBody_line hprev hfits hstream
    refine ⟨d₁, w₁, Loop.run_of_leave ?_, ?_, hrest⟩
    · rw [hempty] at hbody
      exact hbody
    · rw [HeaderBlock.object_stop, htook.object]
      rfl
  | hcons l hfits hnamed q ih =>
    rw [HeaderBlock.bytes_cons, List.append_assoc] at hstream
    obtain ⟨d₁, w₁, htook, hrest, hbody⟩ := parseHeaderBody_line hprev hfits hstream
    obtain ⟨d₂, hok⟩ := headerLine_goes_on.mpr ⟨HeaderBlock.cString_ne_nil hnamed, hnamed⟩
    rw [hok] at hbody
    obtain ⟨hunread₂, hprev₂⟩ := headerLine_keeps hok
    have hstream₂ : (cutOf d₂ w₁).stream = q.bytes ++ rest := by
      rw [← hrest]
      simp only [cutOf, hunread₂]
    obtain ⟨d', w', hrun, hobject, hrest'⟩ := ih (by rw [hprev₂]; exact htook.prev_ne) hstream₂
    refine ⟨d', w', (Loop.run_of_body hbody).trans hrun, ?_, hrest'⟩
    rw [HeaderBlock.object_cons, hobject, headerLine_takes hok, htook.object, takeHeader_reading,
      HeaderBlock.object_reading, reading_reading]
    rfl

/-- What `parseHeader` has taken from the stream is a block. -/
theorem block_of_parseHeader (hprev : d.prev ≠ 13) (h : parseHeader d w = (.ok d', w')) :
    ∃ q : HeaderBlock, (cutOf d w).stream = q.bytes ++ (cutOf d' w').stream := by
  rw [parseHeader] at h
  induction d, w using parseHeaderLoop.run_induction with
  | step d w ih =>
    rw [Loop.run_eq] at h
    obtain ⟨r, w₁, hbody, hrest⟩ := Prog.bind_eq_ok h
    obtain ⟨l, d₁, htook, hok⟩ := parseHeaderBody_took hprev hbody
    obtain ⟨hbytes, hfirst, hlength⟩ := fittingLine_eq_some.mp htook.line
    have hfits : Fits l := ⟨hfirst, hlength⟩
    cases r with
    | inl d₂ =>
      obtain ⟨hunread₂, hprev₂⟩ := headerLine_keeps hok
      obtain ⟨hne, hnamed⟩ := headerLine_goes_on.mp ⟨d₂, hok⟩
      obtain ⟨q, hq⟩ := ih d₂ w₁ hbody (by rw [hprev₂]; exact htook.prev_ne) hrest
      have hsame : (cutOf d₂ w₁).stream = (cutOf d₁ w₁).stream := by
        simp only [cutOf, hunread₂]
      refine ⟨.cons l hfits hnamed q, ?_⟩
      rw [HeaderBlock.bytes_cons, List.append_assoc, ← hq, hsame]
      exact hbytes
    | inr d₂ =>
      cases hrest
      obtain ⟨hempty, rfl⟩ := headerLine_stops hok
      exact ⟨.stop l hfits hempty, hbytes⟩

end HttpData

/-- A start line that is accepted, and the block behind it. -/
structure RequestHead where
  first : Str
  method : Str
  target : Str
  version : Str
  more : List Str
  block : HeaderBlock
  fits : Fits first
  words_first : words (cString first) = method :: target :: version :: more
  known : method = str "GET" ∨ method = str "POST"

namespace RequestHead

/-- The head as it stands in the stream. -/
def bytes (q : RequestHead) : Str := q.first ++ CRLF ++ q.block.bytes

/-- The object that the head makes of a new one. -/
def object (q : RequestHead) (env : Env) (fd : ℤ) : HttpData :=
  q.block.object (((HttpData.new env fd).setRequestMethod (words (cString q.first))).withTarget
    q.target q.version)

theorem requestMethod_object {q : RequestHead} (hget : q.method = str "GET") (env : Env) (fd : ℤ) :
    (q.object env fd).requestMethod = .GET := by
  rw [object, HeaderBlock.object, HttpData.requestMethod_foldl, q.words_first]
  simp [HttpData.withTarget, HttpData.setRequestMethod, hget]

/-- No head is the beginning of another. -/
theorem append_inj {q q' : RequestHead} {r r' : Str} (h : q.bytes ++ r = q'.bytes ++ r') :
    q = q' ∧ r = r' := by
  obtain ⟨first, method, target, version, more, block, fits, hwords, known⟩ := q
  obtain ⟨first', method', target', version', more', block', fits', hwords', known'⟩ := q'
  simp only [bytes, List.append_assoc (first ++ CRLF), List.append_assoc (first' ++ CRLF)] at h
  obtain ⟨rfl, hrest⟩ := fits.append_inj fits' h
  obtain ⟨rfl, rfl⟩ := block.append_inj block' hrest
  rw [hwords] at hwords'
  cases hwords'
  exact ⟨rfl, rfl⟩

end RequestHead

namespace HttpData

variable {env : Env} {fd : ℤ} {d d' : HttpData} {w w' : World} {rest : Str}

/-- A head that stands at the beginning of the stream is taken from it. -/
theorem parseData_head (env : Env) (fd : ℤ) (q : RequestHead)
    (hstream : delivered w.recvs = q.bytes ++ rest) :
    ∃ d w', parseData env (new env fd) w = afterHead env d w' ∧
      d = (q.object env fd).reading d.unread d.prev ∧ (cutOf d w').stream = rest := by
  have hline : fittingLine (cutOf (new env fd) w).stream =
      some (q.first, q.block.bytes ++ rest) := by
    have hsame : (cutOf (new env fd) w).stream = delivered w.recvs := rfl
    rw [hsame, hstream, RequestHead.bytes, List.append_assoc (q.first ++ CRLF),
      fittingLine_of_fits q.fits]
  obtain ⟨d₁, w₁, hcall, htook⟩ := parseOneLine_took (prev_new env fd) hline
  have hrest := htook.line
  rw [hline, Option.some.injEq, Prod.mk.injEq] at hrest
  have hbad : d₁.badRequest = false := htook.badRequest
  have hstart : parseStartLine (new env fd) w = (.ok
      ((d₁.setRequestMethod (words (cString q.first))).withTarget q.target q.version), w₁) := by
    rw [parseStartLine_eq, Prog.bind_ok hcall, Prog.ofOutcome_run, tokens_eq, q.words_first,
      startLine_accepted hbad q.known]
  have hgoes : ¬ ((d₁.setRequestMethod (words (cString q.first))).withTarget q.target
      q.version).Refused := by
    rw [refused_withTarget, q.words_first, refused_setRequestMethod hbad, not_not]
    exact q.known
  obtain ⟨d₂, hd₂⟩ : ∃ d₂, d₂ =
      (d₁.setRequestMethod (words (cString q.first))).withTarget q.target q.version := ⟨_, rfl⟩
  have hafter : d₂ = (((new env fd).setRequestMethod (words (cString q.first))).withTarget q.target
      q.version).reading d₁.unread 0 := by
    rw [hd₂, htook.object, setRequestMethod_reading]
    rfl
  rw [← hd₂] at hstart hgoes
  have hprev : d₂.prev ≠ 13 := by simp [hafter]
  have hstream₂ : (cutOf d₂ w₁).stream = q.block.bytes ++ rest := by
    rw [hafter]
    exact hrest.2.symm
  obtain ⟨d, w', hheader, hobject, hrest'⟩ := parseHeader_block q.block hprev hstream₂
  refine ⟨d, w', ?_, ?_, hrest'⟩
  · rw [parseData_eq, Prog.bind_ok hstart, if_neg hgoes, Prog.bind_ok hheader]
  · rw [hobject, hafter, HeaderBlock.object_reading, reading_reading]
    rfl

/-- A `GET` is over with its head. -/
theorem afterHead_get (q : RequestHead) (hget : q.method = str "GET") (unread : Str)
    (prev : UInt8) (w : World) : afterHead env ((q.object env fd).reading unread prev) w =
      (.ok ((q.object env fd).reading unread prev), w) := by
  have hmethod : ((q.object env fd).reading unread prev).requestMethod = .GET :=
    RequestHead.requestMethod_object hget env fd
  rw [afterHead, hmethod]
  rfl

/-- A request that was not refused begins with a head. -/
theorem head_of_parseData (h : parseData env (new env fd) w = (.ok d, w'))
    (hgoes : ¬ d.Refused) : ∃ (q : RequestHead) (rest : Str),
      delivered w.recvs = q.bytes ++ rest := by
  rw [parseData_eq] at h
  obtain ⟨d₁, w₁, hstart, h⟩ := Prog.bind_eq_ok h
  obtain ⟨l, e, htook, hok⟩ := parseStartLine_took (prev_new env fd) hstart
  obtain ⟨hline, hprev₁⟩ := htook.of_keeps (startLine_keeps hok)
  have hrefused : ¬ d₁.Refused := by
    intro hrefused
    rw [if_pos hrefused] at h
    cases h
    exact hgoes hrefused
  rw [if_neg hrefused] at h
  obtain ⟨d₂, w₂, hheader, -⟩ := Prog.bind_eq_ok h
  obtain ⟨method, target, version, more, hwords, hknown⟩ :=
    (startLine_not_refused htook.badRequest).mp ⟨d₁, hok, hrefused⟩
  obtain ⟨hbytes, hfirst, hlength⟩ := fittingLine_eq_some.mp hline
  have hfits : Fits l := ⟨hfirst, hlength⟩
  obtain ⟨block, hblock⟩ := block_of_parseHeader hprev₁ hheader
  rw [tokens_eq] at hwords
  refine ⟨⟨l, method, target, version, more, block, hfits, hwords, hknown⟩,
    (cutOf d₂ w₂).stream, ?_⟩
  rw [RequestHead.bytes, List.append_assoc (l ++ CRLF), ← hblock]
  exact hbytes

/-- Whatever the cutting: a stream that begins with a head is parsed to the object of that head
and what comes behind it, where a `GET` is over; and a request that was not refused began with
a head, and with one only. -/
theorem parses_heads (env : Env) (fd : ℤ) (w : World) :
    (∀ (q : RequestHead) (rest : Str), delivered w.recvs = q.bytes ++ rest →
      ∃ d w', parseData env (new env fd) w = afterHead env d w' ∧
        d = (q.object env fd).reading d.unread d.prev ∧ (cutOf d w').stream = rest ∧
        (q.method = str "GET" → parseData env (new env fd) w = (.ok d, w'))) ∧
    ∀ d w', parseData env (new env fd) w = (.ok d, w') → ¬ d.Refused →
      ∃! p : RequestHead × Str, delivered w.recvs = p.1.bytes ++ p.2 := by
  constructor
  · intro q rest hstream
    obtain ⟨d, w', hparse, hobject, hrest⟩ := parseData_head env fd q hstream
    refine ⟨d, w', hparse, hobject, hrest, ?_⟩
    intro hget
    rw [hparse, hobject]
    exact afterHead_get q hget d.unread d.prev w'
  · intro d w' h hgoes
    obtain ⟨q, rest, hstream⟩ := head_of_parseData h hgoes
    refine ⟨(q, rest), hstream, ?_⟩
    rintro ⟨q', rest'⟩ hstream'
    have hsame : q'.bytes ++ rest' = q.bytes ++ rest := hstream'.symm.trans hstream
    obtain ⟨rfl, rfl⟩ := RequestHead.append_inj hsame
    rfl

/-- The head of a request with one header line, written by hand. -/
def plainHead : RequestHead where
  first := str "GET /a.html HTTP/1.1"
  method := str "GET"
  target := str "/a.html"
  version := str "HTTP/1.1"
  more := []
  block := .cons (str "Connection=: keep-alive") ⟨by decide +kernel, by decide +kernel⟩
    (by decide +kernel) (.stop [] ⟨by decide +kernel, by decide +kernel⟩ (by decide +kernel))
  fits := ⟨by decide +kernel, by decide +kernel⟩
  words_first := by decide +kernel
  known := .inl rfl

def plainHeadChunk : Chunk where
  bytes := plainHead.bytes
  nonempty := by decide +kernel
  fits := by decide +kernel

/-- The head is in one delivery, and is parsed to its object. -/
theorem parses_heads_plain : ∃ d w', parseData calmEnv (new calmEnv 5)
      (firstClient 5 [.data plainHeadChunk]) = (.ok d, w') ∧
    d = (plainHead.object calmEnv 5).reading d.unread d.prev := by
  have hstream : delivered (firstClient 5 [.data plainHeadChunk]).recvs = plainHead.bytes ++ [] :=
    rfl
  obtain ⟨d, w', -, hobject, -, hget⟩ :=
    (parses_heads calmEnv 5 (firstClient 5 [.data plainHeadChunk])).1 plainHead [] hstream
  exact ⟨d, w', hget rfl, hobject⟩

end HttpData

end LxcHttpServer
