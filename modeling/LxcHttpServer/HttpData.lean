import LxcHttpServer.World

/-!
# The request parser of `HttpData.cpp`

The object is passed from call to call. Of `dataBuffer`, `readIndex` and `dataEndIndex`
it keeps the bytes that are not read yet. The loops come with the number of bytes left
as their measure: each of them takes a byte before it goes around.
-/
namespace LxcHttpServer
open EffectPrograms Strings

def LINE_BUFFERSIZE : ℕ := 256

def NULLINFO : Str := str "NULL"

def RESOURCE_ROOT : Str := str "www"

inductive RequestMethod where
  | UNSUPPORT | GET | POST
  deriving DecidableEq

structure HttpData where
  clientSocket : ℤ
  /-- `dataBuffer` from `readIndex` to `dataEndIndex`. -/
  unread : Str
  prev : UInt8
  requestMethod : RequestMethod
  url : Str
  urlResourceType : Str
  version : Str
  host : Option Str
  userAgent : Option Str
  accept : Option Str
  acceptLanguage : Option Str
  connection : Option Str
  upgradeInsecurceRequests : Option Str
  contentType : Option Str
  contentLength : Option Str
  clientParamData : Option Params
  keepConnection : Bool
  badRequest : Bool

namespace HttpData

/-- The constructor leaves `m_keepConnection` as it finds it. -/
def new (env : Env) (clientSocket : ℤ) : HttpData where
  clientSocket := clientSocket
  unread := []
  prev := 0
  requestMethod := .UNSUPPORT
  url := []
  urlResourceType := []
  version := []
  host := none
  userAgent := none
  accept := none
  acceptLanguage := none
  connection := none
  upgradeInsecurceRequests := none
  contentType := none
  contentLength := none
  clientParamData := none
  keepConnection := env.keepConnectionMemory
  badRequest := false

def getParamCount (d : HttpData) : ℕ :=
  match d.clientParamData with
  | none => 0
  | some params => params.keys.length

def readRawDataFromSocket (d : HttpData) : Work HttpData := do
  match ← Work.recv with
  | .error => Prog.throw (.runtimeError "recv error!\n")
  | .closed => Prog.throw .socketClosed
  | .data chunk => pure { d with unread := chunk.bytes }

/-- The bytes in the buffer and those `recv` still delivers. -/
def left (d : HttpData) (w : World) : ℕ := d.unread.length + w.pending

/-- `if(readIndex > dataEndIndex) readRawDataFromSocket();` at the end of a loop body. -/
def refill (d : HttpData) : Work HttpData :=
  if d.unread = [] then readRawDataFromSocket d else pure d

theorem left_readRawDataFromSocket {d d' : HttpData} {w w' : World}
    (h : readRawDataFromSocket d w = (.ok d', w')) (hempty : d.unread = []) :
    d'.left w' = d.left w := by
  obtain ⟨r, t, hrecv, hrest⟩ := Prog.bind_eq_ok h
  cases hrs : w.recvs with
  | nil => simp [Work.recv, hrs] at hrecv
  | cons r' rs =>
    simp only [Work.recv, hrs, Prod.mk.injEq, Outcome.ok.injEq] at hrecv
    obtain ⟨rfl, rfl⟩ := hrecv
    cases r' with
    | error => simp at hrest
    | closed => simp at hrest
    | data chunk =>
      simp only [Prog.pure_run, Prod.mk.injEq, Outcome.ok.injEq] at hrest
      obtain ⟨rfl, rfl⟩ := hrest
      simp [left, World.pending, World.RecvResult.size, hrs, hempty]

theorem left_refill {d d' : HttpData} {w w' : World} (h : refill d w = (.ok d', w')) :
    d'.left w' = d.left w := by
  rw [refill] at h
  split_ifs at h with hempty
  · exact left_readRawDataFromSocket h hempty
  · cases h
    rfl

/-- Taking a byte and refilling the buffer. -/
theorem left_refill_lt {d e d' : HttpData} {c : UInt8} {w w' : World}
    (h : refill e w = (.ok d', w')) (hd : d.unread = c :: e.unread) : d'.left w' < d.left w := by
  have hleft := left_refill h
  simp only [left, hd, List.length_cons] at hleft ⊢
  omega

theorem refill_unread {d d' : HttpData} {w w' : World} (h : refill d w = (.ok d', w')) :
    d'.unread ≠ [] := by
  rw [refill] at h
  split_ifs at h with hempty
  · obtain ⟨r, t, -, hrest⟩ := Prog.bind_eq_ok h
    cases r with
    | error => simp at hrest
    | closed => simp at hrest
    | data chunk =>
      cases hrest
      exact chunk.nonempty
  · cases h
    exact hempty

/-- One round of the loop of `parseOneLine`, with the characters of `lineBuffer` before
`index`. -/
def parseOneLineBody : Str × HttpData → Work ((Str × HttpData) ⊕ (Str × HttpData))
  | (line, d) =>
    match d.unread with
    | [] => pure (.inr (line, d))
    | c :: rest =>
      if LINE_BUFFERSIZE ≤ line.length then Prog.undefined .outOfBounds
      else if d.prev = 13 ∧ c = 10 then
        pure (.inr (line ++ [c], { d with unread := rest, prev := 0 }))
      else do
        let d ← refill { d with unread := rest, prev := c }
        pure (.inl (line ++ [c], d))

theorem parseOneLineBody_takes {p p' : Str × HttpData} {w w' : World}
    (h : parseOneLineBody p w = (.ok (.inl p'), w')) : p'.2.left w' < p.2.left w := by
  obtain ⟨line, d⟩ := p
  cases hd : d.unread with
  | nil => simp [parseOneLineBody, hd] at h
  | cons c rest =>
    simp only [parseOneLineBody, hd] at h
    split_ifs at h
    · simp at h
    · simp at h
    · obtain ⟨d₁, w₁, hrefill, hpure⟩ := Prog.bind_eq_ok h
      cases hpure
      exact left_refill_lt hrefill hd

theorem parseOneLineBody_leaves {p q : Str × HttpData} {w w' : World}
    (h : parseOneLineBody p w = (.ok (.inr q), w')) :
    q.2.left w' ≤ p.2.left w ∧ (p.2.unread ≠ [] → q.2.left w' < p.2.left w) := by
  obtain ⟨line, d⟩ := p
  cases hd : d.unread with
  | nil =>
    simp only [parseOneLineBody, hd] at h
    cases h
    exact ⟨le_refl _, fun hne => absurd rfl hne⟩
  | cons c rest =>
    simp only [parseOneLineBody, hd] at h
    split_ifs at h
    · simp at h
    · cases h
      have hlt : rest.length + w.pending < (rest.length + 1) + w.pending := by omega
      simp only [left, hd, List.length_cons]
      exact ⟨hlt.le, fun _ => hlt⟩
    · obtain ⟨d₁, w₁, -, hpure⟩ := Prog.bind_eq_ok h
      cases hpure

def parseOneLineLoop : Loop World Thrown Undefined (Str × HttpData) (Str × HttpData) where
  body := parseOneLineBody
  measure p w := p.2.left w
  decreases _ _ _ _ h := parseOneLineBody_takes h

/-- The two characters before `index` are cut off by a NUL. -/
def parseOneLine (d : HttpData) : Work (Str × HttpData) := do
  let d ← refill d
  let (line, d) ← parseOneLineLoop.run ([], d)
  if line.length < 2 then Prog.undefined .outOfBounds
  else pure (cString (line.take (line.length - 2)), d)

theorem parseOneLineLoop_takes {p q : Str × HttpData} {w w' : World}
    (h : parseOneLineLoop.run p w = (.ok q, w')) :
    q.2.left w' ≤ p.2.left w ∧ (p.2.unread ≠ [] → q.2.left w' < p.2.left w) := by
  induction p, w using parseOneLineLoop.run_induction with
  | step p w ih =>
    rw [Loop.run_eq] at h
    obtain ⟨r, t, hbody, hrest⟩ := Prog.bind_eq_ok h
    cases r with
    | inl p' =>
      have hlt := parseOneLineBody_takes hbody
      have hle := (ih p' t hbody hrest).1
      exact ⟨hle.trans hlt.le, fun _ => lt_of_le_of_lt hle hlt⟩
    | inr q' =>
      cases hrest
      exact parseOneLineBody_leaves hbody

/-- Every line takes a byte at least. -/
theorem parseOneLine_takes {d d' : HttpData} {line : Str} {w w' : World}
    (h : parseOneLine d w = (.ok (line, d'), w')) : d'.left w' < d.left w := by
  obtain ⟨d₁, w₁, hrefill, h⟩ := Prog.bind_eq_ok h
  obtain ⟨⟨buffer, d₂⟩, w₂, hloop, h⟩ := Prog.bind_eq_ok h
  have hlt := (parseOneLineLoop_takes hloop).2 (refill_unread hrefill)
  rw [← left_refill hrefill]
  simp only at h
  split_ifs at h
  · simp at h
  · cases h
    exact hlt

/-- `getRequestMethod(headerInfo)`. -/
def setRequestMethod (headerInfo : List Str) (d : HttpData) : HttpData :=
  match headerInfo with
  | [] => { d with requestMethod := .UNSUPPORT, badRequest := true }
  | method :: _ =>
    if method = str "GET" then { d with requestMethod := .GET }
    else if method = str "POST" then { d with requestMethod := .POST }
    else { d with requestMethod := .UNSUPPORT }

def parseStringParamTo_htable_clientParamData (s : Str) (d : HttpData) : Work HttpData :=
  match parseStringParam s (d.clientParamData.getD ∅) 0 0 with
  | none => Prog.undefined .outOfBounds
  | some params => pure { d with clientParamData := some params }

/-- `if(i = url.size() || i + 1 > url.size()) return;` assigns a truth value that is
always one. -/
def parseUrlDataParamList (d : HttpData) : Work HttpData :=
  let i := (d.url.takeWhile (· ≠ 63)).length
  let i := if d.url.length ≠ 0 ∨ i + 1 > d.url.length then 1 else 0
  if i ≠ 0 then pure d
  else
    let paramStr := d.url.drop (i + 1)
    parseStringParamTo_htable_clientParamData (paramStr ++ [38]) { d with url := d.url.take i }

/-- What stands after the last dot. -/
def suffixOf (url : Str) : Str :=
  match findLastOf url 46 with
  | none => NULLINFO
  | some suffixStartIndex => url.drop (suffixStartIndex + 1)

def parseStartLine (d : HttpData) : Work HttpData := do
  let (firstLine, d) ← parseOneLine d
  match stringSplit firstLine [] (str " ") with
  | .error e => Prog.throw e
  | .ok headerInfo =>
    let d := d.setRequestMethod headerInfo
    if d.badRequest ∨ d.requestMethod = .UNSUPPORT then pure d
    else match headerInfo[1]? with
      | none => Prog.undefined .outOfBounds
      | some target => do
        let url := if target = str "/" then str "/index.html" else target
        let d ← parseUrlDataParamList { d with url := url }
        let d := { d with urlResourceType := suffixOf d.url, url := RESOURCE_ROOT ++ d.url }
        match headerInfo[2]? with
        | none => Prog.undefined .outOfBounds
        | some version => pure { d with version := version }

/-- The scan for `=` does not stop at the end of the line. -/
def getHeaderLineName (s : Str) : Work Str :=
  match findFrom (· = 61) s 0 with
  | none => Prog.undefined .outOfBounds
  | some i => pure (s.take i)

def setHeader (headName line : Str) (d : HttpData) : HttpData :=
  if headName = str "HOST" then { d with host := some line }
  else if headName = str "User-Agent" then { d with userAgent := some line }
  else if headName = str "Accept" then { d with accept := some line }
  else if headName = str "Accept-Language" then { d with acceptLanguage := some line }
  else if headName = str "Connection" then
    let d := { d with connection := some line }
    if line.length ≥ 13 ∧ line.drop 12 = str "keep-alive" then { d with keepConnection := true }
    else d
  else if headName = str "Upgrade-Insecure-Requests" then
    { d with upgradeInsecurceRequests := some line }
  else if headName = str "Content_Type" then { d with contentType := some line }
  else if headName = str "Content-Length" then { d with contentLength := some line }
  else d

def parseHeaderBody (d : HttpData) : Work (HttpData ⊕ HttpData) := do
  let (line, d) ← parseOneLine d
  if line = [] then pure (.inr d)
  else do
    let headName ← getHeaderLineName line
    pure (.inl (d.setHeader headName line))

@[simp] theorem unread_setHeader (headName line : Str) (d : HttpData) :
    (d.setHeader headName line).unread = d.unread := by
  simp only [setHeader, apply_ite unread, ite_self]

theorem parseHeaderBody_takes {d d' : HttpData} {w w' : World}
    (h : parseHeaderBody d w = (.ok (.inl d'), w')) : d'.left w' < d.left w := by
  obtain ⟨⟨line, d₁⟩, w₁, hline, h⟩ := Prog.bind_eq_ok h
  have hlt := parseOneLine_takes hline
  simp only at h
  split_ifs at h
  · simp at h
  · obtain ⟨headName, w₂, hname, hpure⟩ := Prog.bind_eq_ok h
    cases hpure
    cases hfind : findFrom (· = 61) line 0 with
    | none => simp [getHeaderLineName, hfind] at hname
    | some i =>
      simp only [getHeaderLineName, hfind] at hname
      cases hname
      simpa [left] using hlt

def parseHeaderLoop : Loop World Thrown Undefined HttpData HttpData where
  body := parseHeaderBody
  measure d w := d.left w
  decreases _ _ _ _ h := parseHeaderBody_takes h

def parseHeader (d : HttpData) : Work HttpData := parseHeaderLoop.run d

/-! ## The body -/

def numeralContentLength (d : HttpData) : Work ℤ :=
  match d.contentLength with
  | none => Prog.undefined .nullPointer
  | some line =>
    match findFrom (· = 32) line 0 with
    | none => Prog.undefined .outOfBounds
    | some i => Work.stoi (line.drop (i + 1))

/-- One round of the loop of `parseBodyParamData`, with the characters of `data` before
`index`; `data` has room for two more than `contentLength`. -/
def parseBodyBody (contentLength : ℤ) : Str × HttpData → Work ((Str × HttpData) ⊕ (Str × HttpData))
  | (data, d) =>
    match d.unread with
    | [] => pure (.inr (data, d))
    | c :: rest =>
      if contentLength + 2 ≤ data.length then Prog.undefined .outOfBounds
      else if (data.length : ℤ) + 1 = contentLength then
        pure (.inr (data ++ [c], { d with unread := rest }))
      else do
        let d ← refill { d with unread := rest }
        pure (.inl (data ++ [c], d))

theorem parseBodyBody_takes {contentLength : ℤ} {p p' : Str × HttpData} {w w' : World}
    (h : parseBodyBody contentLength p w = (.ok (.inl p'), w')) : p'.2.left w' < p.2.left w := by
  obtain ⟨data, d⟩ := p
  cases hd : d.unread with
  | nil => simp [parseBodyBody, hd] at h
  | cons c rest =>
    simp only [parseBodyBody, hd] at h
    split_ifs at h
    · simp at h
    · simp at h
    · obtain ⟨d₁, w₁, hrefill, hpure⟩ := Prog.bind_eq_ok h
      cases hpure
      exact left_refill_lt hrefill hd

def parseBodyLoop (contentLength : ℤ) :
    Loop World Thrown Undefined (Str × HttpData) (Str × HttpData) where
  body := parseBodyBody contentLength
  measure p w := p.2.left w
  decreases _ _ _ _ h := parseBodyBody_takes h

/-- The characters of `data` that were not written are those the array was made with. -/
def bodyString (env : Env) (contentLength : ℤ) (data : Str) : Str :=
  let unwritten := (List.range' data.length (contentLength.toNat - data.length)).map env.arrayMemory
  cString (data ++ unwritten ++ [38])

def parseBodyParamData (env : Env) (d : HttpData) : Work HttpData := do
  let contentLength ← numeralContentLength d
  if contentLength + 2 > INT_MAX then Prog.undefined .overflow
  else do
    Work.newArray env (contentLength + 2)
    let (data, d) ← (parseBodyLoop contentLength).run ([], d)
    if contentLength < 0 then Prog.undefined .outOfBounds
    else parseStringParamTo_htable_clientParamData (bodyString env contentLength data) d

def parseData (env : Env) (d : HttpData) : Work HttpData := do
  let d ← parseStartLine d
  if d.badRequest ∨ d.requestMethod = .UNSUPPORT then pure d
  else do
    let d ← parseHeader d
    if d.requestMethod = .POST then parseBodyParamData env d else pure d

end HttpData
end LxcHttpServer
