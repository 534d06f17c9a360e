import LxcHttpServer.RequestBodies
import LxcHttpServer.LineBuffer
import LxcHttpServer.MessageHeads

/-!
# What the header lines leave in the object

`parseHeader` applies the lines of the stream to the object one after the other, up
to the first empty line. A line gets its name from the first `=` in it, so a line as
HTTP writes it never gets the name that stands before its colon. The flag that keeps
the connection is set by one kind of line and by nothing else.
-/
namespace LxcHttpServer
open EffectPrograms CutStreams Strings

/-- The lines at the beginning of a stream, up to the first empty one. -/
def headerLines (s : Str) : List Str := (linesOf s).1.takeWhile (· ≠ [])

theorem headerLines_line {s l r : Str} (h : fittingLine s = some (l, r)) :
    headerLines s = if cString l = [] then [] else cString l :: headerLines r := by
  rw [headerLines, linesOf_some h, List.takeWhile_cons]
  by_cases hempty : cString l = []
  · rw [if_pos hempty, if_neg (by simp [hempty])]
  · rw [if_neg hempty, if_pos (by simp [hempty])]
    rfl

/-- A string up to its first `=`. -/
def beforeEquals (line : Str) : Str := line.takeWhile (· ≠ 61)

theorem take_findFrom {line : Str} {i : ℕ} (h : findFrom (· = 61) line 0 = some i) :
    line.take i = beforeEquals line := by
  simp only [findFrom, List.drop_zero, Option.map_eq_some_iff, Nat.zero_add, exists_eq_right] at h
  have hidx := (List.findIdx?_eq_some_iff_findIdx_eq.mp h).2
  rw [beforeEquals, List.takeWhile_eq_take_findIdx_not, ← hidx]
  simp

namespace HttpData

variable {env : Env} {fd : ℤ} {d d' : HttpData} {w w' : World} {line : Str}

/-- What one header line changes of the object. -/
def takeHeader (d : HttpData) (line : Str) : HttpData := d.setHeader (beforeEquals line) line

theorem takeHeader_reading (line : Str) (unread : Str) (prev : UInt8) (d : HttpData) :
    (d.reading unread prev).takeHeader line = (d.takeHeader line).reading unread prev :=
  setHeader_reading _ line d unread prev

theorem foldl_takeHeader_reading (lines : List Str) (unread : Str) (prev : UInt8) (d : HttpData) :
    lines.foldl takeHeader (d.reading unread prev) =
      (lines.foldl takeHeader d).reading unread prev := by
  induction lines generalizing d with
  | nil => rfl
  | cons line lines ih => rw [List.foldl_cons, takeHeader_reading, ih, List.foldl_cons]

theorem headerLine_takes (h : headerLine line d = .ok (.inl d')) : d' = d.takeHeader line := by
  unfold headerLine at h
  split_ifs at h with hline
  · cases h
  · split at h
    · cases h
    · next i hfind =>
      cases h
      rw [takeHeader, take_findFrom hfind]

/-- The lines of the stream are applied one after the other. -/
theorem parseHeader_lines (hprev : d.prev ≠ 13) (h : parseHeader d w = (.ok d', w')) :
    d' = ((headerLines (cutOf d w).stream).foldl takeHeader d).reading d'.unread d'.prev := by
  rw [parseHeader] at h
  induction d, w using parseHeaderLoop.run_induction with
  | step d w ih =>
    rw [Loop.run_eq] at h
    obtain ⟨r, w₁, hbody, hrest⟩ := Prog.bind_eq_ok h
    obtain ⟨l, d₁, htook, hok⟩ := parseHeaderBody_took hprev hbody
    rw [headerLines_line htook.line]
    have hd₁ := htook.object
    cases r with
    | inl d₂ =>
      obtain ⟨hline, hprev₂⟩ := htook.of_keeps (headerLine_keeps hok)
      have hstream : (cutOf d₂ w₁).stream = (cutOf d₁ w₁).stream := by
        simp only [cutOf, (headerLine_keeps hok).1]
      have hne := (headerLine_goes_on.mp ⟨d₂, hok⟩).1
      have hd₂ := headerLine_takes hok
      have hih := ih d₂ w₁ hbody hprev₂ hrest
      rw [hstream, hd₂, hd₁, takeHeader_reading, foldl_takeHeader_reading, reading_reading] at hih
      rw [if_neg hne, List.foldl_cons]
      exact hih
    | inr d₂ =>
      cases hrest
      obtain ⟨hempty, rfl⟩ := headerLine_stops hok
      rw [if_pos hempty, List.foldl_nil, hd₁]
      rfl

/-- The line has the name `Connection`, and `keep-alive` stands behind its first 12 characters. -/
def KeepsAlive (line : Str) : Prop :=
  beforeEquals line = str "Connection" ∧ line.drop 12 = str "keep-alive"

/-- One of the header lines of the request asks to keep the connection. A request whose start
line is refused has no header lines. -/
def AsksKeepAlive (s : Str) : Prop := ∃ l r, fittingLine s = some (l, r) ∧
  Accepted (tokens (cString l)) ∧ ∃ line ∈ headerLines r, KeepsAlive line

theorem keepConnection_setHeader (headName line : Str) (d : HttpData) :
    (d.setHeader headName line).keepConnection = true ↔ d.keepConnection = true ∨
      headName = str "Connection" ∧ line.length ≥ 13 ∧ line.drop 12 = str "keep-alive" := by
  by_cases hname : headName = str "Connection"
  · have hdistinct : str "Connection" ≠ str "HOST" ∧ str "Connection" ≠ str "User-Agent" ∧
        str "Connection" ≠ str "Accept" ∧ str "Connection" ≠ str "Accept-Language" := by
      decide +kernel
    obtain ⟨h₁, h₂, h₃, h₄⟩ := hdistinct
    subst hname
    simp only [setHeader, if_neg h₁, if_neg h₂, if_neg h₃, if_neg h₄, if_true, true_and]
    split_ifs with hline
    · simp [hline]
    · simp [hline]
  · simp [setHeader, hname, apply_ite keepConnection]

theorem keepConnection_takeHeader (line : Str) (d : HttpData) :
    (d.takeHeader line).keepConnection = true ↔ d.keepConnection = true ∨ KeepsAlive line := by
  have hlength : line.drop 12 = str "keep-alive" → line.length ≥ 13 := by
    intro hdrop
    have hten : (str "keep-alive").length = 10 := by decide +kernel
    have heq := congrArg List.length hdrop
    rw [List.length_drop, hten] at heq
    omega
  rw [takeHeader, keepConnection_setHeader, KeepsAlive]
  constructor
  · rintro (h | ⟨hname, -, hvalue⟩)
    · exact .inl h
    · exact .inr ⟨hname, hvalue⟩
  · rintro (h | ⟨hname, hvalue⟩)
    · exact .inl h
    · exact .inr ⟨hname, hlength hvalue, hvalue⟩

theorem keepConnection_foldl (lines : List Str) (d : HttpData) :
    (lines.foldl takeHeader d).keepConnection = true ↔
      d.keepConnection = true ∨ ∃ line ∈ lines, KeepsAlive line := by
  induction lines generalizing d with
  | nil => simp
  | cons line lines ih => simp [ih, keepConnection_takeHeader, or_assoc]

theorem keepConnection_setRequestMethod (headerInfo : List Str) (d : HttpData) :
    (d.setRequestMethod headerInfo).keepConnection = d.keepConnection := by
  cases headerInfo with
  | nil => rfl
  | cons method rest => simp only [setRequestMethod, apply_ite keepConnection, ite_self]

theorem keepConnection_startLine {headerInfo : List Str} (h : startLine headerInfo d = .ok d') :
    d'.keepConnection = d.keepConnection := by
  by_cases hrefused : d'.Refused
  · unfold startLine at h
    split_ifs at h with hmethod
    · cases h
      exact keepConnection_setRequestMethod _ d
    · split at h
      · cases h
        exact absurd hrefused hmethod
      · cases h
  · obtain ⟨method, target, version, rest, rfl, rfl⟩ := startLine_eq_ok h hrefused
    exact keepConnection_setRequestMethod _ d

theorem keepConnection_afterHead (h : afterHead env d w = (.ok d', w')) :
    d'.keepConnection = d.keepConnection := by
  obtain ⟨unread, params, rfl⟩ := afterHead_object h
  rfl

/-- The flag is what it was, or a header line has set it. -/
theorem keepConnection_parseData (h : parseData env (new env fd) w = (.ok d, w')) :
    d.keepConnection = true ↔
      env.keepConnectionMemory = true ∨ AsksKeepAlive (delivered w.recvs) := by
  rw [parseData_eq] at h
  obtain ⟨d₁, w₁, hstart, h⟩ := Prog.bind_eq_ok h
  obtain ⟨l, e, htook, hok⟩ := parseStartLine_took (prev_new env fd) hstart
  obtain ⟨hline, hprev₁⟩ := htook.of_keeps (startLine_keeps hok)
  have hbad : e.badRequest = false := htook.badRequest
  have hkept : d₁.keepConnection = env.keepConnectionMemory := by
    rw [keepConnection_startLine hok, htook.object]
    rfl
  have hfirst : fittingLine (delivered w.recvs) = some (l, (cutOf d₁ w₁).stream) := hline
  by_cases hrefused : d₁.Refused
  · rw [if_pos hrefused] at h
    cases h
    have hnone : ¬ AsksKeepAlive (delivered w.recvs) := by
      rintro ⟨l', r, hline', haccepted, -⟩
      rw [hfirst] at hline'
      cases hline'
      obtain ⟨d₂, hok₂, hnot⟩ := (startLine_not_refused hbad).mpr haccepted
      rw [hok] at hok₂
      cases hok₂
      exact hnot hrefused
    simp only [hkept, hnone, or_false]
  · rw [if_neg hrefused] at h
    obtain ⟨d₂, w₂, hheader, h⟩ := Prog.bind_eq_ok h
    have hafter := keepConnection_afterHead h
    have haccepted := (startLine_not_refused hbad).mp ⟨d₁, hok, hrefused⟩
    have hlines := parseHeader_lines hprev₁ hheader
    have hfold : d₂.keepConnection = ((headerLines (cutOf d₁ w₁).stream).foldl takeHeader
        d₁).keepConnection := (congrArg keepConnection hlines).trans rfl
    rw [hafter, hfold, keepConnection_foldl, hkept]
    refine or_congr_right ⟨?_, ?_⟩
    · intro hasks
      exact ⟨l, _, hfirst, haccepted, hasks⟩
    · rintro ⟨l', r, hline', -, hasks⟩
      rw [hfirst] at hline'
      cases hline'
      exact hasks

/-- The flag says what the bytes of the request say exactly if the memory of the object held
false, or a header line sets it anyway. -/
theorem keepConnection_determined_iff (h : parseData env (new env fd) w = (.ok d, w')) :
    (d.keepConnection = true ↔ AsksKeepAlive (delivered w.recvs)) ↔
      env.keepConnectionMemory = false ∨ AsksKeepAlive (delivered w.recvs) := by
  rw [keepConnection_parseData h]
  cases env.keepConnectionMemory <;> simp

/-- An accepted request without header lines. -/
def plainGet : Chunk where
  bytes := str "GET / HTTP/1.1\r\n\r\n"
  nonempty := by decide +kernel
  fits := by decide +kernel

theorem plainGet_parsed (memory : Bool) : ∃ d w',
    parseData { calmEnv with keepConnectionMemory := memory }
      (new { calmEnv with keepConnectionMemory := memory } 5)
      (firstClient 5 [.data plainGet]) = (.ok d, w') ∧ d.keepConnection = memory := by
  have heval : returns (fun d _ => decide (d.keepConnection = memory))
      (parseData { calmEnv with keepConnectionMemory := memory }
        (new { calmEnv with keepConnectionMemory := memory } 5)
        (firstClient 5 [.data plainGet])) = true := by
    cases memory <;> decide +kernel
  obtain ⟨d, w', hrun, hkeeps⟩ := returns_eq_true heval
  exact ⟨d, w', hrun, of_decide_eq_true hkeeps⟩

theorem keepConnection_determined_plainGet : ∃ d w',
    parseData calmEnv (new calmEnv 5) (firstClient 5 [.data plainGet]) = (.ok d, w') ∧
      ((d.keepConnection = true ↔ AsksKeepAlive (delivered [.data plainGet])) ↔
        calmEnv.keepConnectionMemory = false ∨ AsksKeepAlive (delivered [.data plainGet])) := by
  obtain ⟨d, w', hparse, -⟩ := plainGet_parsed false
  exact ⟨d, w', hparse, keepConnection_determined_iff hparse⟩

/-- The memory of the object kept the connection of a client that did not ask for it. -/
theorem not_keepConnection_determined : ¬ ∀ env fd w d w',
    parseData env (new env fd) w = (.ok d, w') →
      (d.keepConnection = true ↔ AsksKeepAlive (delivered w.recvs)) := by
  intro hall
  obtain ⟨d, w', hparse, hkept⟩ := plainGet_parsed true
  obtain ⟨l, r, hline, -, line, hmem, -⟩ := (hall _ _ _ _ _ hparse).mp hkept
  have hfirst : fittingLine plainGet.bytes = some (str "GET / HTTP/1.1", CRLF) := by
    decide +kernel
  have hbytes : delivered (firstClient 5 [.data plainGet]).recvs = plainGet.bytes :=
    List.append_nil _
  rw [hbytes, hfirst] at hline
  cases hline
  have hnone : fittingLine CRLF = some ([], []) := by decide +kernel
  rw [headerLines_line hnone] at hmem
  cases hmem

end HttpData

/-! ## Header lines as HTTP writes them -/

/-- A header line `Name: value`. -/
structure HeaderField where
  name : Str
  value : Str
  named : name ≠ []
  name_plain : ∀ b ∈ name, b ≠ 58 ∧ b ≠ 13 ∧ b ≠ 10 ∧ b ≠ 0
  value_plain : ∀ b ∈ value, b ≠ 13 ∧ b ≠ 10 ∧ b ≠ 0

namespace HeaderField

def line (f : HeaderField) : Str := f.name ++ str ": " ++ f.value

/-- The lines with their CR LF, and the empty line. -/
def block (fs : List HeaderField) : Str := MessageHeads.frame CRLF (fs.map line)

end HeaderField

namespace HttpData

/-- The fields of the object that hold a header line. -/
inductive Field where
  | host | userAgent | accept | acceptLanguage | connection | upgradeInsecurceRequests
  | contentType | contentLength
  deriving DecidableEq

/-- The name that HTTP has for the header. -/
def Field.name : Field → Str
  | .host => str "Host"
  | .userAgent => str "User-Agent"
  | .accept => str "Accept"
  | .acceptLanguage => str "Accept-Language"
  | .connection => str "Connection"
  | .upgradeInsecurceRequests => str "Upgrade-Insecure-Requests"
  | .contentType => str "Content-Type"
  | .contentLength => str "Content-Length"

def Field.get (d : HttpData) : Field → Option Str
  | .host => d.host
  | .userAgent => d.userAgent
  | .accept => d.accept
  | .acceptLanguage => d.acceptLanguage
  | .connection => d.connection
  | .upgradeInsecurceRequests => d.upgradeInsecurceRequests
  | .contentType => d.contentType
  | .contentLength => d.contentLength

variable {fs : List HeaderField} {d : HttpData} {w : World} {rest : Str}

/-- The header block is taken from the stream and nothing else, the names are found, and every
field holds the last line with its name. -/
structure ParsesBlock (fs : List HeaderField) (rest : Str) (d : HttpData) (w : World) : Prop where
  names : ∀ f ∈ fs, ∀ w, getHeaderLineName f.line w = (.ok f.name, w)
  fields : ∃ d' w', parseHeader d w = (.ok d', w') ∧ (cutOf d' w').stream = rest ∧
    ∀ k : Field, k.get d' = ((fs.filter fun f => f.name = k.name).getLast?).map HeaderField.line

/-- What stands before the first `=` does not end where the name before the colon ends. -/
theorem getHeaderLineName_ne (f : HeaderField) (w : World) :
    getHeaderLineName f.line w ≠ (.ok f.name, w) := by
  intro h
  rw [getHeaderLineName] at h
  cases hfind : findFrom (· = 61) f.line 0 with
  | none =>
    simp only [hfind] at h
    cases h
  | some i =>
    simp only [hfind] at h
    have htake : f.line.take i = f.name := by
      simp only [Prog.pure_run, Prod.mk.injEq, Outcome.ok.injEq, and_true] at h
      exact h
    obtain ⟨-, hi, heq⟩ := findFrom_eq_some hfind
    have hlength := congrArg List.length htake
    rw [List.length_take_of_le hi.le] at hlength
    subst hlength
    have hcolon : f.line[f.name.length] = 58 := by
      have htext : str ": " = [58, 32] := by decide +kernel
      simp [HeaderField.line, htext]
    rw [hcolon] at heq
    exact absurd heq (by decide)

/-- An empty block is one empty line. -/
theorem parseHeader_empty (hprev : d.prev ≠ 13) (hstream : (cutOf d w).stream = CRLF ++ rest) :
    ∃ d' w', parseHeader d w = (.ok d', w') ∧ (cutOf d' w').stream = rest ∧
      d' = d.reading d'.unread 0 := by
  have hline : fittingLine (cutOf d w).stream = some ([], rest) := by
    rw [hstream, fittingLine_eq_some]
    exact ⟨rfl, not_CRLF_infix_singleton 13, by decide⟩
  obtain ⟨d', w', hcall, htook⟩ := parseOneLine_took hprev hline
  have hrest := htook.line
  rw [hline, Option.some.injEq, Prod.mk.injEq] at hrest
  refine ⟨d', w', ?_, hrest.2.symm, htook.object⟩
  rw [parseHeader]
  apply Loop.run_of_leave
  simp only [parseHeaderLoop]
  rw [parseHeaderBody_eq, Prog.bind_ok hcall, Prog.ofOutcome_run]
  rfl

/-- The header block of a request is parsed as HTTP means it exactly if it has no lines. -/
theorem parses_block_iff (hprev : d.prev ≠ 13) (hnull : ∀ k : Field, k.get d = none)
    (hstream : (cutOf d w).stream = HeaderField.block fs ++ rest) :
    ParsesBlock fs rest d w ↔ fs = [] := by
  constructor
  · intro h
    by_contra hne
    obtain ⟨f, fs', rfl⟩ := List.exists_cons_of_ne_nil hne
    exact getHeaderLineName_ne f w (h.names f List.mem_cons_self w)
  · rintro rfl
    obtain ⟨d', w', hrun, hrest, hobject⟩ := parseHeader_empty hprev hstream
    refine ⟨fun f hf => absurd hf List.not_mem_nil, d', w', hrun, hrest, ?_⟩
    intro k
    have hk : k.get d' = k.get d := by
      rw [hobject]
      cases k <;> rfl
    simpa [hk] using hnull k

theorem get_new (env : Env) (clientSocket : ℤ) (k : Field) :
    k.get (new env clientSocket) = none := by
  cases k <;> rfl

def emptyLine : Chunk where
  bytes := CRLF
  nonempty := by decide
  fits := by decide

/-- `Host: localhost` -/
def hostField : HeaderField where
  name := str "Host"
  value := str "localhost"
  named := by decide +kernel
  name_plain := by decide +kernel
  value_plain := by decide +kernel

def hostBlock : Chunk where
  bytes := HeaderField.block [hostField]
  nonempty := by decide +kernel
  fits := by decide +kernel

theorem cutOf_hostBlock : (cutOf (new calmEnv 5) (firstClient 5 [.data hostBlock])).stream =
    HeaderField.block [hostField] ++ [] := rfl

/-- The empty block, and a block of one line. -/
theorem parses_block_empty :
    ParsesBlock [] [] (new calmEnv 5) (firstClient 5 [.data emptyLine]) ∧
      ¬ ParsesBlock [hostField] [] (new calmEnv 5) (firstClient 5 [.data hostBlock]) := by
  constructor
  · exact (parses_block_iff (prev_new calmEnv 5) (get_new calmEnv 5) rfl).mpr rfl
  · intro h
    have hnil := (parses_block_iff (prev_new calmEnv 5) (get_new calmEnv 5) cutOf_hostBlock).mp h
    cases hnil

/-- The scan of the line of every browser's first header leaves the string. -/
theorem not_parses_block :
    (cutOf (new calmEnv 5) (firstClient 5 [.data hostBlock])).stream =
        HeaderField.block [hostField] ++ [] ∧
      (parseHeader (new calmEnv 5) (firstClient 5 [.data hostBlock])).1 =
        .undefined .outOfBounds ∧
      ¬ ParsesBlock [hostField] [] (new calmEnv 5) (firstClient 5 [.data hostBlock]) := by
  have heval : (match (parseHeader (new calmEnv 5) (firstClient 5 [.data hostBlock])).1 with
    | .undefined .outOfBounds => true
    | _ => false) = true := by decide +kernel
  have hundefined : (parseHeader (new calmEnv 5) (firstClient 5 [.data hostBlock])).1 =
      .undefined .outOfBounds := by
    split at heval
    · next heq => exact heq
    · cases heval
  refine ⟨cutOf_hostBlock, hundefined, ?_⟩
  intro h
  obtain ⟨d', w', hrun, -⟩ := h.fields
  rw [hrun] at hundefined
  cases hundefined

end HttpData
end LxcHttpServer
