import LxcHttpServer.CgiOutput
import LxcHttpServer.IndexPage

/-!
# The page in memory

`sendMemoryPage` writes the status line, two header lines and the page into its buffer. It does not
call `header_body`, so no empty line stands between the header and the page, and it does not ask
whether the page has room.
-/
namespace LxcHttpServer.Responser
open EffectPrograms Strings MessageHeads

variable {env : Env} {w : World}

/-- What stands in the buffer before the page. -/
def memoryPageHeader : Str := header_htmlContentType firstLine_200

theorem sendMemoryPage_eq (env : Env) : sendMemoryPage env = (do
    let buf ← fill PAGE_BUFFER_SIZE (memoryPageHeader ++ cString env.memoryIndexPage)
    let _ ← Work.send env .sendMemoryPage buf
    pure ()) := rfl

/-- The page is handed to `send`; a client that is gone ends the process there. -/
theorem sendMemoryPage_run
    (hroom : (memoryPageHeader ++ cString env.memoryIndexPage).length < PAGE_BUFFER_SIZE) :
    ∃ o, sendMemoryPage env w = (o, w.record (.send .sendMemoryPage
      (memoryPageHeader ++ cString env.memoryIndexPage) (env.send w.calls.length))) ∧
        ∀ u, o ≠ .undefined u := by
  have hfill : fill PAGE_BUFFER_SIZE (memoryPageHeader ++ cString env.memoryIndexPage) w =
      (.ok (memoryPageHeader ++ cString env.memoryIndexPage), w) := by
    rw [fill, if_pos hroom]
    rfl
  rw [sendMemoryPage_eq, Prog.bind_ok hfill, Prog.bind_run, Work.send]
  split_ifs
  · exact ⟨.killed, rfl, fun u hu => (by cases hu)⟩
  · exact ⟨.ok (), rfl, fun u hu => (by cases hu)⟩

theorem sendMemoryPage_overflow
    (hlong : PAGE_BUFFER_SIZE ≤ (memoryPageHeader ++ cString env.memoryIndexPage).length) :
    sendMemoryPage env w = (.undefined .outOfBounds, w) := by
  rw [sendMemoryPage_eq, fill, if_neg (Nat.not_lt.mpr hlong)]
  rfl

/-- The page has room if it is shorter than what the header leaves of the buffer. -/
theorem sendMemoryPage_defined_iff : (∀ u, (sendMemoryPage env w).1 ≠ .undefined u) ↔
    memoryPageHeader.length + (cString env.memoryIndexPage).length < PAGE_BUFFER_SIZE := by
  rw [← List.length_append]
  constructor
  · intro hdefined
    by_contra hnot
    apply hdefined .outOfBounds
    rw [sendMemoryPage_overflow (Nat.not_lt.mp hnot)]
  · intro hroom
    obtain ⟨o, hrun, hdefined⟩ := sendMemoryPage_run (w := w) hroom
    rw [hrun]
    exact hdefined

/-- `sendMemoryPage` stays in its buffer, and it sends a status line and header lines, an empty
line and the page. -/
def SendsMemoryPage (env : Env) (w : World) : Prop :=
  ∃ o w' statusLine headerLines, sendMemoryPage env w = (o, w') ∧ (∀ u, o ≠ .undefined u) ∧
    (∀ l ∈ statusLine :: headerLines, Line 13 l) ∧
    Hands sentBy w w' [frame CRLF (statusLine :: headerLines) ++ cString env.memoryIndexPage]

/-- The lines of the header. -/
def memoryPageLines : List Str :=
  [str "HTTP/1.1 200 OK", str "Server: mikuzip01 WebServer/alpha (Linux)",
    str "Content-Type: text/html"]

/-- The header is that of a response but for the empty line. -/
theorem memoryPageHeader_eq : header_body memoryPageHeader = frame CRLF memoryPageLines := by
  decide +kernel

/-- What stands before the page is no header with its empty line. -/
theorem memoryPageHeader_ne_frame {lines : List Str} (hlines : ∀ l ∈ lines, Line 13 l) :
    memoryPageHeader ≠ frame CRLF lines := by
  intro heq
  have hend : header_body memoryPageHeader = memoryPageHeader ++ CRLF := by decide +kernel
  have hown : ∀ l ∈ memoryPageLines, Line 13 l := by
    have hall : ∀ l ∈ memoryPageLines, l ≠ [] ∧ 13 ∉ l := by decide +kernel
    exact hall
  have hboth : frame CRLF lines ++ CRLF = frame CRLF memoryPageLines ++ [] := by
    rw [← heq, ← hend, memoryPageHeader_eq, List.append_nil]
  have hbody := (frame_append_inj hlines hown hboth).2
  cases hbody

/-- Where the response is well formed the header has its empty line. -/
theorem SendsMemoryPage.header (h : SendsMemoryPage env w) :
    ∃ lines, (∀ l ∈ lines, Line 13 l) ∧ memoryPageHeader = frame CRLF lines := by
  obtain ⟨o, w', statusLine, headerLines, hrun, hdefined, hlines, hsent⟩ := h
  have hroom := sendMemoryPage_defined_iff.mp (by rw [hrun]; exact hdefined)
  rw [← List.length_append] at hroom
  obtain ⟨o', hrun', -⟩ := sendMemoryPage_run (w := w) hroom
  cases hrun.symm.trans hrun'
  have hbytes := (Hands.record w _).unique hsent
  exact ⟨_, hlines, List.append_cancel_right (List.singleton_inj.mp hbytes)⟩

/-- No page is sent as the body of a response. -/
theorem never_sends_memory_page (env : Env) (w : World) : ¬ SendsMemoryPage env w := by
  intro hsends
  obtain ⟨lines, hlines, heq⟩ := hsends.header
  exact memoryPageHeader_ne_frame hlines heq

/-- The index page of one line is loaded, and sent without an empty line before it. -/
theorem not_sends_memory_page : ¬ ∀ (env env' : Env) (stateMemory : ℤ) (path : Str)
    (w w₁ w' : World), loadIndexTomemory env stateMemory path w = (.ok env'.memoryIndexPage, w₁) →
      SendsMemoryPage env' w' := by
  intro hall
  let env := fileEnv (str "<html></html>\n")
  have hzero : 0 ∉ str "<html></html>\n" := by decide +kernel
  have hfile := fileAt_fileEnv (str "www/index.html") (str "<html></html>\n")
  have hroom : (cString (freshMemory env ((str "<html></html>\n").length + 1))).length +
      (appended (str "<html></html>\n")).length ≤ (str "<html></html>\n").length := by
    decide +kernel
  obtain ⟨fd, w₁, hrun⟩ := loadIndexTomemory_run (w := firstClient 5 []) 0 hfile rfl
  obtain ⟨page, w₂, hload, -⟩ := loadFrom_ok fd w₁ hzero hroom
  have hsends := hall env { calmEnv with memoryIndexPage := page } 0 _ _ w₂ (firstClient 5 [])
    (hrun.trans hload)
  obtain ⟨lines, hlines, heq⟩ := hsends.header
  exact memoryPageHeader_ne_frame hlines heq

end LxcHttpServer.Responser
