import LxcHttpServer.HttpData

/-!
# The responses of `Responser.cpp`

A `sprintf` of a buffer into itself appends. The headers are therefore pure, and what a
function puts into a buffer is checked against its size as a whole. Of `fork` only the
server's side is here: what the CGI process writes stands in the world.
-/
namespace LxcHttpServer
open EffectPrograms Strings

def PAGE_BUFFER_SIZE : ℕ := 2048

/-! `Pages.cpp` -/

def SERVER_NAME : Str := str "Server: mikuzip01 WebServer/alpha (Linux)\r\n"

def NOT_FOUND_PAGE : Str :=
  str "<html>\r\n" ++
  str "<head><title>404 Not Found</title></head>\r\n" ++
  str "<body bgcolor=\"white\">\r\n" ++
  str "<center><h1>404 Not Found</h1></center>\r\n" ++
  str "<hr><center>mikuzip01 WebServer/alpha (Linux)</center>\r\n" ++
  str "</body>\r\n" ++
  str "</html>\r\n"

/-- `fileExist` of `utils.cpp`. -/
def fileExist (env : Env) (path : Str) : Work Bool := do
  match ← Work.stat env path with
  | .found _ => pure true
  | .denied | .missing => pure false

namespace Responser

def firstLine_200 : Str := str "HTTP/1.1 200 OK\r\n" ++ SERVER_NAME

def header_htmlContentType (buf : Str) : Str := buf ++ str "Content-Type: text/html\r\n"

def header_pngContentType (buf : Str) : Str := buf ++ str "Content-Type: image/png\r\n"

def header_body (buf : Str) : Str := buf ++ str "\r\n"

def header_keepAlive (buf : Str) : Str :=
  buf ++ str "Connection: keep-alive\r\n" ++ str "Keep-Alive: \r\n"

/-- The low 32 bits as a signed number. -/
def asInt (n : ℕ) : ℤ :=
  let low : ℤ := n % 4294967296
  if low > INT_MAX then low - 4294967296 else low

/-- `%d` prints the size as an `int`. -/
def header_contentLength (buf : Str) (fileSize : ℕ) : Str :=
  buf ++ str "Content-Length: " ++ str (toString (asInt fileSize)) ++ str "\r\n"

def notFoundResponse : Str :=
  str "HTTP/1.1 404 NOT FOUND\r\n" ++ SERVER_NAME ++ str "Content-Type: text/html\r\n" ++
    str "\r\n" ++ NOT_FOUND_PAGE

/-- The text and its NUL stay within a buffer of the size. -/
def fill (size : ℕ) (text : Str) : Work Str :=
  if text.length < size then pure text else Prog.undefined .outOfBounds

def sendNotFound (env : Env) : Work Unit := do
  let buf ← fill 1024 notFoundResponse
  let ret ← Work.send env .sendNotFound buf
  if ret then pure () else Prog.throw .socketClosed

def sendForBidden (env : Env) : Work Unit := do
  let buf ← fill 1024 notFoundResponse
  let ret ← Work.send env .sendForBidden buf
  if ret then pure ()
  else Prog.throw (.runtimeError "send bidden page to client error!\n")

def sendMemoryPage (env : Env) : Work Unit := do
  let buf ← fill PAGE_BUFFER_SIZE
    (header_htmlContentType firstLine_200 ++ cString env.memoryIndexPage)
  let _ ← Work.send env .sendMemoryPage buf
  pure ()

/-- One round of the loop that reads a binary file, with what is left of the file and
`readBuf`. -/
def serverStaticFileBody (env : Env) : Str × Str → Work ((Str × Str) ⊕ Unit)
  | (contents, readBuf) =>
    let chunk := contents.take PAGE_BUFFER_SIZE
    let readBuf := chunk ++ readBuf.drop chunk.length
    if chunk = [] then pure (.inr ())
    -- strlen(readBuf)
    else if 0 ∈ readBuf then do
      let ret ← Work.send env .serverStaticFile (cString readBuf)
      if ret then pure (.inl (contents.drop PAGE_BUFFER_SIZE, readBuf))
      else Prog.throw .socketClosed
    else Prog.undefined .outOfBounds

theorem serverStaticFileBody_shorter {env : Env} {p p' : Str × Str} {w w' : World}
    (h : serverStaticFileBody env p w = (.ok (.inl p'), w')) : p'.1.length < p.1.length := by
  obtain ⟨contents, readBuf⟩ := p
  simp only [serverStaticFileBody] at h
  split_ifs at h with hempty
  · simp at h
  · obtain ⟨ret, w₁, -, h⟩ := Prog.bind_eq_ok h
    split_ifs at h
    · cases h
      cases contents with
      | nil => simp at hempty
      | cons c rest =>
        simp only [List.length_drop, PAGE_BUFFER_SIZE, List.length_cons]
        omega
    · simp at h
  · simp at h

def serverStaticFileLoop (env : Env) : Loop World Thrown Undefined (Str × Str) Unit where
  body := serverStaticFileBody env
  measure p _ := p.1.length
  decreases _ _ _ _ h := serverStaticFileBody_shorter h

/-- The characters `fgets` stores: a line, or as much of it as the buffer holds. -/
def fgets (size : ℕ) (contents : Str) : Str :=
  let head := contents.take (size - 1)
  head.takeWhile (· ≠ 10) ++ (head.dropWhile (· ≠ 10)).take 1

def serverStaticFile (env : Env) (d : HttpData) : Work Unit := do
  let resource ← Work.fopen env d.url
  match resource with
  | none => Prog.undefined .nullPointer
  | some (fd, contents) =>
    if d.urlResourceType ≠ str "html" then do
      let readBuf := (List.range PAGE_BUFFER_SIZE).map env.readBufMemory
      (serverStaticFileLoop env).run (contents, readBuf)
      Work.fclose fd
    else do
      let ret ← Work.send env .serverStaticFile (cString (fgets PAGE_BUFFER_SIZE contents))
      if ret then Work.fclose fd else Prog.throw .socketClosed

def staticFileHeader (d : HttpData) (fileSize : ℕ) : Str :=
  let buf := firstLine_200
  let buf := if d.keepConnection then header_keepAlive buf else buf
  let buf := if d.urlResourceType = str "png" then header_pngContentType buf
    else header_htmlContentType buf
  header_body (header_contentLength buf fileSize)

def sendStaticFileToClient (env : Env) (d : HttpData) : Work Unit := do
  let staticFileState ← Work.stat env d.url
  match staticFileState with
  | .denied => sendForBidden env
  | .missing => sendNotFound env
  | .found fileSize => do
    let buf ← fill PAGE_BUFFER_SIZE (staticFileHeader d fileSize)
    let ret ← Work.send env .sendStaticFileToClient buf
    if ret then serverStaticFile env d else Prog.throw .socketClosed

/-! ## CGI -/

/-- Every parameter as `key value\n`. -/
def writeParams (env : Env) (cgiInput : ℤ) : List Param → Work Unit
  | [] => pure ()
  | (key, value) :: rest => do
    Work.write env cgiInput (cString key)
    Work.write env cgiInput (str " ")
    Work.write env cgiInput (if value = [] then NULLINFO else cString value)
    Work.write env cgiInput (str "\n")
    writeParams env cgiInput rest

/-- One round of the loop that reads what the CGI process writes behind the string that
`buf` holds. -/
def readCgiBody (buf : Str) : Work (Str ⊕ Str) :=
  -- strlen(buf)
  if 0 ∈ buf then do
    let len := (cString buf).length
    let ret ← Work.read (PAGE_BUFFER_SIZE - len)
    match ret with
    | .error => Prog.throw (.runtimeError "read() failed")
    | .eof => pure (.inr buf)
    | .data bytes => pure (.inl (buf.take len ++ bytes ++ buf.drop (len + bytes.length)))
  else Prog.undefined .outOfBounds

/-- The bytes the CGI process still delivers. -/
def cgiPending (w : World) : ℕ :=
  (w.cgiReads.map fun r => match r with
    | .data bytes => bytes.length
    | .error | .eof => 0).sum

theorem cgiPending_read {count : ℕ} {bytes : Str} {w w' : World}
    (h : Work.read count w = (.ok (.data bytes), w')) : cgiPending w' < cgiPending w := by
  simp only [Work.read] at h
  split_ifs at h with hcount
  · simp at h
  · cases hreads : w.cgiReads with
    | nil => simp [hreads] at h
    | cons r rs =>
      cases r with
      | error => simp [hreads] at h
      | eof => simp [hreads] at h
      | data output =>
        simp only [hreads] at h
        split_ifs at h with hempty hfits
        · simp at h
        · cases h
          have hpos := List.length_pos_of_ne_nil hempty
          simp only [cgiPending, World.cgiReads_record, hreads, List.map_cons, List.sum_cons]
          omega
        · cases h
          have hpos := List.length_pos_of_ne_nil hempty
          simp only [cgiPending, World.cgiReads_record, hreads, List.map_cons, List.sum_cons,
            List.length_drop]
          omega

theorem readCgiBody_takes {buf buf' : Str} {w w' : World}
    (h : readCgiBody buf w = (.ok (.inl buf'), w')) : cgiPending w' < cgiPending w := by
  simp only [readCgiBody] at h
  split_ifs at h
  · obtain ⟨ret, w₁, hread, h⟩ := Prog.bind_eq_ok h
    cases ret with
    | error => simp at h
    | eof => simp at h
    | data bytes =>
      cases h
      exact cgiPending_read hread
  · simp at h

def readCgiLoop : Loop World Thrown Undefined Str Str where
  body := readCgiBody
  measure _ w := cgiPending w
  decreases _ _ _ _ h := readCgiBody_takes h

/-- The server's side after the CGI process was created: it closes the ends of the CGI
process, writes the parameters, reads the output and sends it. -/
def serveCgi (env : Env) (params : Params) (cgiInput cgiOutput : ℤ × ℤ) : Work Unit := do
  Work.close cgiOutput.2
  Work.close cgiInput.1
  writeParams env cgiInput.2 (env.mapOrder.order (params.entries.map fun e => (e.1, e.2)))
  let buf ← readCgiLoop.run
    (firstLine_200 ++ List.replicate (PAGE_BUFFER_SIZE - firstLine_200.length) 0)
  let ret ← Work.send env .executeCGI (cString buf)
  if ret then Work.waitpid else Prog.throw .socketClosed

/-- The parameters in the order in which they are iterated. -/
def iterated (env : Env) (d : HttpData) : List Param :=
  env.mapOrder.order ((d.clientParamData.getD ∅).entries.map fun e => (e.1, e.2))

/-- A size is added to an `int`, of which 32 bits are kept. -/
def addSize (ans : ℤ) (size : ℕ) : ℤ := (ans + size).bmod 4294967296

def cgiContentLength (env : Env) (d : HttpData) : ℤ :=
  (iterated env d).foldl (fun ans p => addSize (addSize ans p.1.length)
    (if p.2 = [] then NULLINFO.length else p.2.length)) 0

/-- What the CGI process puts into its environment; `%d` prints the count as an `int`. -/
def cgiEnvStr (env : Env) (d : HttpData) : Str :=
  let dataCount := (d.clientParamData.getD ∅).entries.length
  str "CGIDATA=" ++ str (toString (asInt dataCount)) ++ str " " ++
    str (toString (cgiContentLength env d))

/-- What the CGI process hands to `execl`. -/
def execlPath (d : HttpData) : Str := d.url

def executeCGI (env : Env) (d : HttpData) : Work Unit :=
  if d.getParamCount = 0 then sendForBidden env
  else do
    let cgiInput ← Work.pipe env .cgiInput
    match cgiInput with
    | none => Prog.throw (.runtimeError "cgi_input pipe create failed\n ")
    | some cgiInput => do
      let cgiOutput ← Work.pipe env .cgiOutput
      match cgiOutput with
      | none => Prog.throw (.runtimeError "cgi_output pipe create failed\n")
      | some cgiOutput => do
        let created ← Work.fork env
        if created then serveCgi env (d.clientParamData.getD ∅) cgiInput cgiOutput
        else Prog.throw (.runtimeError "fork CGI process error\n")

end Responser
end LxcHttpServer
