import LxcHttpServer.CgiInput
import LxcHttpServer.HeaderFields
import LxcHttpServer.ResourceRoot
import LxcHttpServer.ProgramOutputs

/-!
# What the client can be sent

One call of `httpserver` sends one response at most, and there are four kinds of them. Which
one it is depends on the method and the suffix of the url; a request that was refused, or did
not arrive in full, gets none. How much of a response is sent depends on `send`.
-/
namespace LxcHttpServer
open EffectPrograms Strings

variable {env : Env} {fd : ℤ} {d : HttpData} {w w' : World}

section Silent
variable {γ : Type} {f : Call → List γ} {P : Call → Prop} {w₀ : World}

/-- The calls of the parser log themselves. -/
theorem logged_parserCalls (hrecv : ∀ r, P (.recv r)) (hstoi : ∀ text, P (.stoi text))
    (hnew : ∀ size allocated, P (.newArray size allocated)) :
    ParserCalls env (Prog.LoggedSince World.calls P w₀) where
  recv := Prog.Preserves.of_records Work.recv_records hrecv
  stoi text := by
    intro w hw
    cases h : Strings.stoi text with
    | ok n =>
      simp only [Work.stoi, h]
      exact hw.snoc rfl (hstoi text)
    | error e =>
      simp only [Work.stoi, h]
      exact hw.snoc rfl (hstoi text)
  newArray size := by
    intro w hw
    simp only [Work.newArray]
    split_ifs
    · exact hw.snoc rfl (hnew _ _)
    · exact hw.snoc rfl (hnew _ _)
    · exact hw.snoc rfl (hnew _ _)

/-- The calls by which a worker gives up its descriptor log themselves. -/
theorem logged_releaseCalls (haddfd : ∀ fd accepted, P (.addfd fd accepted))
    (hdelete : ∀ fd, P (.deleteFd fd)) (hclose : ∀ fd, P (.close fd)) :
    ReleaseCalls (Prog.LoggedSince World.calls P w₀) where
  addfd fd := Prog.Preserves.of_records (Work.addfd_records fd) (haddfd fd)
  deleteFd fd := by
    intro w hw
    simp only [Work.deleteFd]
    split <;> exact hw.snoc rfl (hdelete fd)
  close fd := Prog.Preserves.of_records (Work.close_records fd) fun _ => hclose fd

end Silent

/-- The strings that the rounds of `serverStaticFile` hand to `send`: what the buffer holds behind
the bytes of a round goes with them. A buffer without a NUL, which `strlen` leaves, ends them. -/
def staticRounds (contents readBuf : Str) : List Str :=
  if contents = [] then []
  else
    let chunk := contents.take PAGE_BUFFER_SIZE
    let readBuf := chunk ++ readBuf.drop chunk.length
    if 0 ∈ readBuf then cString readBuf :: staticRounds (contents.drop PAGE_BUFFER_SIZE) readBuf
    else []
termination_by contents.length
decreasing_by
  next hne _ =>
    have hpos := List.length_pos_of_ne_nil hne
    have hsize : 0 < PAGE_BUFFER_SIZE := by decide
    rw [List.length_drop]
    omega

/-- What `serverStaticFile` hands to `send`, if it does not fail. -/
def fileRounds (env : Env) (d : HttpData) (contents : Str) : List Str :=
  if d.urlResourceType = str "html" then [cString (Responser.fgets PAGE_BUFFER_SIZE contents)]
  else staticRounds contents ((List.range PAGE_BUFFER_SIZE).map env.readBufMemory)

/-- What a CGI process prints before its output ends. -/
def printed : List ReadResult → Str
  | .data bytes :: rs => if bytes = [] then [] else bytes ++ printed rs
  | _ => []

/-- The responses to a request that was accepted, as the texts they are sent in. What a program
prints behind a NUL may overwrite that or be cut off. -/
inductive Reply (env : Env) (rs : List ReadResult) (d : HttpData) : List Str → Prop
  | notFound (hmemory : d.requestMethod = .GET → d.urlResourceType ≠ str "memory") :
      Reply env rs d [Responser.notFoundResponse]
  | memoryPage (hget : d.requestMethod = .GET) (hmemory : d.urlResourceType = str "memory") :
      Reply env rs d [Responser.header_htmlContentType Responser.firstLine_200 ++
        cString env.memoryIndexPage]
  | header {fileSize : ℕ} (hget : d.requestMethod = .GET) (hcgi : d.urlResourceType ≠ str "cgi")
      (hmemory : d.urlResourceType ≠ str "memory")
      (hstat : ∃ n, env.stat n d.url = .found fileSize) (hfopen : ∃ n, env.fopen n d.url = none) :
      Reply env rs d [Responser.staticFileHeader d fileSize]
  | file {fileSize : ℕ} {contents : Str} (hget : d.requestMethod = .GET)
      (hcgi : d.urlResourceType ≠ str "cgi") (hmemory : d.urlResourceType ≠ str "memory")
      (hstat : ∃ n, env.stat n d.url = .found fileSize)
      (hfopen : ∃ n, env.fopen n d.url = some contents) :
      Reply env rs d (Responser.staticFileHeader d fileSize :: fileRounds env d contents)
  | cgi {output : Str} (hpost : d.requestMethod = .POST) (hcgi : d.urlResourceType = str "cgi")
      (hparams : d.getParamCount ≠ 0)
      (hroom : Responser.firstLine_200.length + output.length < PAGE_BUFFER_SIZE)
      (hwhole : 0 ∉ printed rs → output = printed rs)
      (hstart : cString (printed rs) <+: output) :
      Reply env rs d [Responser.firstLine_200 ++ output]

/-- The texts are handed to `send` one after the other, until one fails. -/
abbrev SentInTurn : List Str → List (Str × SendResult) → Prop := InTurn SendResult.goesOn

/-- One text, or nothing. -/
def AtMost (text : Str) (ss : List (Str × SendResult)) : Prop :=
  ss = [] ∨ ∃ result, ss = [(text, result)]

/-- Nothing, or a response to the request. -/
def Answered (env : Env) (rs : List ReadResult) (d : HttpData) (ss : List (Str × SendResult)) :
    Prop :=
  ss = [] ∨ ∃ texts, Reply env rs d texts ∧ SentInTurn texts ss

theorem AtMost.answered {rs : List ReadResult} {text : Str} (h : Reply env rs d [text])
    {ss : List (Str × SendResult)} (hss : AtMost text ss) : Answered env rs d ss := by
  rcases hss with rfl | ⟨result, rfl⟩
  · exact .inl rfl
  · exact .inr ⟨_, h, InTurn.one text result⟩

/-- What is handed to `send`, and what comes of it. -/
def handedToSend : Call → List (Str × SendResult)
  | .send _ bytes result => [(bytes, result)]
  | _ => []

namespace Responser

abbrev Transmits {α : Type} (p : Work α) (Q : α → List (Str × SendResult) → Prop)
    (X : List (Str × SendResult) → Prop) : Prop :=
  Prog.Emits World.calls handedToSend p Q X

theorem fill_transmits (size : ℕ) (text : Str) :
    Transmits (fill size text) (fun t ss => ss = [] ∧ t = text) (· = []) := by
  apply Prog.Emits.ite
  · intro _
    exact .pure text ⟨rfl, rfl⟩
  · intro _
    exact .undefined _ rfl

theorem send_transmits (sender : Sender) (bytes : Str) : Transmits (Work.send env sender bytes)
    (fun sent ss => ∃ result : SendResult, ss = [(bytes, result)] ∧ result.goesOn = sent)
    (fun ss => ∃ result : SendResult, ss = [(bytes, result)] ∧ result.goesOn = false) := by
  apply Prog.Emits.of_call
  intro w
  refine ⟨_, by rw [Work.send_snd, World.calls_record], ?_⟩
  rw [Work.send]
  split_ifs with hkilled
  · exact ⟨_, rfl, by rw [hkilled.1]; rfl⟩
  · exact ⟨_, rfl, rfl⟩

/-- However the call ends, the text was handed over. -/
theorem send_hands (sender : Sender) (bytes : Str) {X : List (Str × SendResult) → Prop}
    (hX : ∀ result, X [(bytes, result)]) :
    Transmits (Work.send env sender bytes) (fun _ => X) X := by
  apply (send_transmits sender bytes).mono
  · rintro sent ss ⟨result, rfl, -⟩
    exact hX result
  · rintro ss ⟨result, rfl, -⟩
    exact hX result

/-- A text is put into a buffer and sent, and then the program sends nothing more. -/
theorem fill_send {size : ℕ} {text : Str} {sender : Sender} {g : Bool → Work Unit}
    (hg : ∀ sent, Transmits (g sent) (fun _ bs => bs = []) (· = [])) :
    Transmits (fill size text >>= fun buf => Work.send env sender buf >>= g)
      (fun _ => AtMost text) (AtMost text) := by
  apply (fill_transmits size text).bind_silent
  · rintro buf rfl
    have hsend : Transmits (Work.send env sender buf) (fun _ => AtMost buf) (AtMost buf) :=
      send_hands sender buf fun result => .inr ⟨result, rfl⟩
    exact hsend.then_silent hg
  · exact .inl rfl

/-- What is done with the result of `send`. -/
theorem sent_or_throw (e : Thrown) (sent : Bool) :
    Transmits (if sent then pure () else Prog.throw e : Work Unit) (fun _ bs => bs = [])
      (· = []) := by
  apply Prog.Emits.ite
  · intro _
    exact .pure () rfl
  · intro _
    exact .throw e rfl

theorem sendNotFound_transmits (env : Env) :
    Transmits (sendNotFound env) (fun _ => AtMost notFoundResponse) (AtMost notFoundResponse) :=
  fill_send (sent_or_throw .socketClosed)

theorem sendForBidden_transmits (env : Env) :
    Transmits (sendForBidden env) (fun _ => AtMost notFoundResponse) (AtMost notFoundResponse) :=
  fill_send (sent_or_throw _)

theorem sendMemoryPage_transmits (env : Env) : Transmits (sendMemoryPage env)
    (fun _ => AtMost (header_htmlContentType firstLine_200 ++ cString env.memoryIndexPage))
    (AtMost (header_htmlContentType firstLine_200 ++ cString env.memoryIndexPage)) :=
  fill_send fun _ => .pure () rfl

theorem staticRounds_nil (readBuf : Str) : staticRounds [] readBuf = [] := by
  rw [staticRounds, if_pos rfl]

/-- Each round hands over one string, and the loop goes on as long as `send` does not fail. -/
theorem serverStaticFileLoop_transmits (p : Str × Str) :
    Transmits ((serverStaticFileLoop env).run p) (fun _ => SentInTurn (staticRounds p.1 p.2))
      (SentInTurn (staticRounds p.1 p.2)) := by
  apply Prog.Emits.loop (l := serverStaticFileLoop env)
    (Q := fun p _ => SentInTurn (staticRounds p.1 p.2))
    (X := fun p => SentInTurn (staticRounds p.1 p.2))
  rintro ⟨contents, readBuf⟩
  simp only [serverStaticFileLoop, serverStaticFileBody]
  by_cases hne : contents = []
  · subst hne
    rw [staticRounds_nil, if_pos List.take_nil]
    exact .pure _ .done
  have hchunk : contents.take PAGE_BUFFER_SIZE ≠ [] := by
    rw [Ne, List.take_eq_nil_iff, not_or]
    exact ⟨by decide, hne⟩
  rw [staticRounds, if_neg hne, if_neg hchunk]
  simp only
  generalize contents.take PAGE_BUFFER_SIZE ++
    readBuf.drop (contents.take PAGE_BUFFER_SIZE).length = buf
  split_ifs with hzero
  swap
  · exact .undefined _ .done
  have hsend : Transmits (Work.send env .serverStaticFile (cString buf))
      (fun sent ss => ∃ result : SendResult, ss = [(cString buf, result)] ∧ result.goesOn = sent)
      (SentInTurn (cString buf :: staticRounds (contents.drop PAGE_BUFFER_SIZE) buf)) := by
    apply (send_transmits _ _).mono (fun _ _ h => h)
    rintro ss ⟨result, rfl, hfails⟩
    exact .stopped hfails
  apply hsend.bind
  rintro sent ss ⟨result, rfl, rfl⟩
  apply Prog.Emits.ite
  · intro hgoes
    exact .pure _ ⟨fun _ _ hrest => .next hgoes hrest, fun _ hrest => .next hgoes hrest⟩
  · intro hfails
    exact .throw _ (.stopped (Bool.eq_false_iff.mpr hfails))

/-- What is handed over of the file `d.url` stands for. -/
def FileSent (env : Env) (d : HttpData) (ss : List (Str × SendResult)) : Prop :=
  (∃ contents, (∃ n, env.fopen n d.url = some contents) ∧
    SentInTurn (fileRounds env d contents) ss) ∨ (∃ n, env.fopen n d.url = none) ∧ ss = []

theorem fclose_transmits (fd : ℤ) :
    Transmits (Work.fclose fd) (fun _ ss => ss = []) (· = []) :=
  .of_records (Work.fclose_records fd) (fun _ => rfl) rfl

theorem fopen_transmits (env : Env) (path : Str) : Transmits (Work.fopen env path)
    (fun file ss => ss = [] ∧ ∃ n, env.fopen n path = file.map Prod.snd) fun _ => False := by
  apply Prog.Emits.of_call
  intro w
  cases hopen : env.fopen w.calls.length path with
  | none => exact ⟨.fopen path false, by simp [Work.fopen, hopen], by
      simp only [Work.fopen, hopen]
      exact ⟨rfl, _, hopen⟩⟩
  | some contents => exact ⟨.fopen path true, by simp [Work.fopen, hopen, World.withKernel], by
      simp only [Work.fopen, hopen]
      exact ⟨rfl, _, hopen⟩⟩

theorem serverStaticFile_transmits (env : Env) (d : HttpData) :
    Transmits (serverStaticFile env d) (fun _ => FileSent env d) (FileSent env d) := by
  have hopen : Transmits (Work.fopen env d.url)
      (fun file ss => ss = [] ∧ ∃ n, env.fopen n d.url = file.map Prod.snd) (FileSent env d) :=
    (fopen_transmits env d.url).mono (fun _ _ h => h) fun _ h => h.elim
  apply hopen.bind
  rintro file ss ⟨rfl, n, hfile⟩
  simp only [List.nil_append]
  cases file with
  | none => exact .undefined _ (.inr ⟨⟨n, hfile⟩, rfl⟩)
  | some file =>
    obtain ⟨fd, contents⟩ := file
    have hpart : ∀ ss, SentInTurn (fileRounds env d contents) ss → FileSent env d ss :=
      fun ss h => .inl ⟨contents, ⟨n, hfile⟩, h⟩
    apply Prog.Emits.ite
    · intro hhtml
      have hrounds : fileRounds env d contents = staticRounds contents
          ((List.range PAGE_BUFFER_SIZE).map env.readBufMemory) := by
        rw [fileRounds, if_neg hhtml]
      rw [hrounds] at hpart
      generalize (List.range PAGE_BUFFER_SIZE).map env.readBufMemory = readBuf at hpart ⊢
      have hloop : Transmits ((serverStaticFileLoop env).run (contents, readBuf))
          (fun _ => FileSent env d) (FileSent env d) :=
        (serverStaticFileLoop_transmits (contents, readBuf)).mono (fun _ => hpart) hpart
      exact hloop.then_silent fun _ => fclose_transmits fd
    · intro hhtml
      have hrounds : fileRounds env d contents = [cString (fgets PAGE_BUFFER_SIZE contents)] := by
        rw [fileRounds, if_pos (not_not.mp hhtml)]
      rw [hrounds] at hpart
      have hsend : Transmits
          (Work.send env .serverStaticFile (cString (fgets PAGE_BUFFER_SIZE contents)))
          (fun _ => FileSent env d) (FileSent env d) :=
        send_hands _ _ fun result => hpart _ (InTurn.one _ result)
      apply hsend.then_silent
      intro sent
      apply Prog.Emits.ite
      · intro _
        exact fclose_transmits fd
      · intro _
        exact .throw _ rfl

theorem stat_transmits (env : Env) (path : Str) : Transmits (Work.stat env path)
    (fun r bs => bs = [] ∧ ∃ n, env.stat n path = r) (· = []) := by
  apply Prog.Emits.with_result
  · exact .of_records (Work.stat_records path) (fun _ => rfl) rfl
  · intro w r w' hrun
    cases hrun
    exact ⟨_, rfl⟩

/-- A header that is not sent is that of some response. -/
theorem answered_header {rs : List ReadResult} {fileSize : ℕ} {result : SendResult}
    (hget : d.requestMethod = .GET) (hcgi : d.urlResourceType ≠ str "cgi")
    (hmemory : d.urlResourceType ≠ str "memory") (hstat : ∃ n, env.stat n d.url = .found fileSize)
    (hfails : result.goesOn = false) :
    Answered env rs d [(staticFileHeader d fileSize, result)] := by
  cases hfopen : env.fopen 0 d.url with
  | none => exact .inr ⟨_, .header hget hcgi hmemory hstat ⟨0, hfopen⟩, .stopped hfails⟩
  | some contents => exact .inr ⟨_, .file hget hcgi hmemory hstat ⟨0, hfopen⟩, .stopped hfails⟩

theorem sendStaticFileToClient_transmits {rs : List ReadResult} (hget : d.requestMethod = .GET)
    (hcgi : d.urlResourceType ≠ str "cgi") (hmemory : d.urlResourceType ≠ str "memory") :
    Transmits (sendStaticFileToClient env d) (fun _ => Answered env rs d)
      (Answered env rs d) := by
  have hnotFound : Reply env rs d [notFoundResponse] := .notFound fun _ => hmemory
  apply (stat_transmits env d.url).bind_silent
  swap
  · exact .inl rfl
  intro r hstat
  cases r with
  | denied =>
    exact (sendForBidden_transmits env).mono (fun _ _ => AtMost.answered hnotFound)
      fun _ => AtMost.answered hnotFound
  | missing =>
    exact (sendNotFound_transmits env).mono (fun _ _ => AtMost.answered hnotFound)
      fun _ => AtMost.answered hnotFound
  | found fileSize =>
    apply (fill_transmits _ _).bind_silent
    swap
    · exact .inl rfl
    rintro buf rfl
    have hsend : Transmits (Work.send env .sendStaticFileToClient (staticFileHeader d fileSize))
        (fun sent ss => ∃ result : SendResult, ss = [(staticFileHeader d fileSize, result)] ∧
          result.goesOn = sent) (Answered env rs d) := by
      apply (send_transmits _ _).mono (fun _ _ h => h)
      rintro ss ⟨result, rfl, hfails⟩
      exact answered_header hget hcgi hmemory hstat hfails
    apply hsend.bind
    rintro sent ss ⟨result, rfl, rfl⟩
    apply Prog.Emits.ite
    · intro hgoes
      have hfile : ∀ ss, FileSent env d ss →
          Answered env rs d ([(staticFileHeader d fileSize, result)] ++ ss) := by
        rintro ss (⟨contents, hfopen, hrounds⟩ | ⟨hfopen, rfl⟩)
        · exact .inr ⟨_, .file hget hcgi hmemory hstat hfopen, .next hgoes hrounds⟩
        · exact .inr ⟨_, .header hget hcgi hmemory hstat hfopen, .next hgoes .done⟩
      exact (serverStaticFile_transmits env d).mono (fun _ => hfile) hfile
    · intro hfails
      exact .throw _ (answered_header hget hcgi hmemory hstat (Bool.eq_false_iff.mpr hfails))

/-! ## Programs -/

theorem cString_prefix {s t : Str} (hs : 0 ∉ s) (h : s <+: t) : s <+: cString t := by
  obtain ⟨more, rfl⟩ := h
  rw [cString_of_not_mem hs]
  exact List.prefix_append _ _

/-- What stands in the buffer stays there, and more is read behind it. -/
theorem readCgiLoop_prefix {buf buf' : Str} (h : readCgiLoop.run buf w = (.ok buf', w')) :
    cString buf <+: cString buf' := by
  induction buf, w using readCgiLoop.run_induction with
  | step buf w ih =>
    rw [Loop.run_eq] at h
    obtain ⟨r, w₁, hbody, h⟩ := Prog.bind_eq_ok h
    cases r with
    | inl buf₁ =>
      refine List.IsPrefix.trans ?_ (ih buf₁ w₁ hbody h)
      simp only [readCgiLoop, readCgiBody] at hbody
      split_ifs at hbody
      · obtain ⟨ret, w₂, -, hret⟩ := Prog.bind_eq_ok hbody
        cases ret with
        | error => cases hret
        | eof => cases hret
        | data bytes =>
          cases hret
          apply cString_prefix (zero_not_mem_cString buf)
          rw [take_cString, List.append_assoc]
          exact List.prefix_append _ _
      · cases hbody
    | inr buf₁ =>
      cases h
      obtain ⟨rfl, -⟩ := readCgiBody_leaves hbody
      exact List.prefix_refl _

/-- One read takes the next bytes of what is printed, or finds its end. -/
theorem read_printed {count : ℕ} {r : ReadResult} (hcount : count ≠ 0)
    (h : Work.read count w = (.ok r, w')) :
    (∀ bytes, r = .data bytes → printed w.cgiReads = bytes ++ printed w'.cgiReads) ∧
      (r = .eof → printed w.cgiReads = []) := by
  rw [Work.read, if_neg hcount] at h
  cases hreads : w.cgiReads with
  | nil => simp [hreads] at h
  | cons next rs =>
    rw [hreads] at h
    cases next with
    | error =>
      cases h
      exact ⟨fun _ hr => (by cases hr), fun hr => (by cases hr)⟩
    | eof =>
      cases h
      exact ⟨fun _ hr => (by cases hr), fun _ => rfl⟩
    | data bytes =>
      simp only at h
      split_ifs at h with hempty hfits
      · cases h
        exact ⟨fun _ hr => (by cases hr), fun _ => by rw [hempty]; rfl⟩
      · cases h
        refine ⟨?_, fun hr => (by cases hr)⟩
        rintro _ ⟨⟩
        rw [List.take_of_length_le hfits, printed, if_neg hempty]
        rfl
      · cases h
        refine ⟨?_, fun hr => (by cases hr)⟩
        rintro _ ⟨⟩
        have hleft : bytes.drop count ≠ [] := by
          rw [Ne, List.drop_eq_nil_iff]
          exact hfits
        rw [printed, if_neg hempty, World.cgiReads_record, printed, if_neg hleft,
          ← List.append_assoc, List.take_append_drop]

/-- A round appends the bytes it reads to the string in the buffer, or finds the end. -/
theorem readCgiBody_padded {text : Str} {r : Str ⊕ Str} (hzero : 0 ∉ text)
    (h : readCgiBody (padded text) w = (.ok r, w')) :
    (r = .inr (padded text) ∧ printed w.cgiReads = []) ∨
      ∃ bytes, r = .inl (padded (text ++ bytes)) ∧
        printed w.cgiReads = bytes ++ printed w'.cgiReads := by
  rw [readCgiBody, cString_padded hzero] at h
  split_ifs at h with hend
  · have hcount : PAGE_BUFFER_SIZE - text.length ≠ 0 := by
      intro hfull
      rw [padded, hfull] at hend
      simp [hzero] at hend
    obtain ⟨ret, w₁, hread, h⟩ := Prog.bind_eq_ok h
    have hprinted := read_printed hcount hread
    cases ret with
    | error => cases h
    | eof =>
      cases h
      exact .inl ⟨rfl, hprinted.2 rfl⟩
    | data bytes =>
      cases h
      exact .inr ⟨bytes, by rw [padded_append], hprinted.1 bytes rfl⟩
  · cases h

/-- What is printed before a NUL stands in the buffer at the end, and all of it if there is no
NUL. -/
theorem readCgiLoop_printed {text buf : Str} (hzero : 0 ∉ text)
    (h : readCgiLoop.run (padded text) w = (.ok buf, w')) :
    (0 ∉ printed w.cgiReads → cString buf = text ++ printed w.cgiReads) ∧
      text ++ cString (printed w.cgiReads) <+: cString buf := by
  induction hpad : padded text, w using readCgiLoop.run_induction generalizing text with
  | step buf₀ w ih =>
    subst hpad
    rw [Loop.run_eq] at h
    obtain ⟨r, w₁, hbody, hrest⟩ := Prog.bind_eq_ok h
    rcases readCgiBody_padded hzero hbody with ⟨rfl, hend⟩ | ⟨bytes, rfl, hprinted⟩
    · cases hrest
      rw [hend, cString_padded hzero]
      simp [cString]
    · rw [hprinted]
      by_cases hnul : 0 ∈ bytes
      · obtain ⟨more, hbytes⟩ := (cString_split bytes).resolve_left fun hself =>
          cString_eq_self_iff.mp hself hnul
        have hsame : ∀ behind, cString (bytes ++ behind) = cString bytes := by
          intro behind
          rw [hbytes, List.append_assoc, List.cons_append,
            cString_append_zero (zero_not_mem_cString bytes), ← hbytes]
        refine ⟨fun hnone => absurd (List.mem_append_left _ hnul) hnone, ?_⟩
        have hprefix := readCgiLoop_prefix hrest
        rw [padded, List.append_assoc, cString_of_not_mem hzero, hsame] at hprefix
        rwa [hsame]
      · have htext : 0 ∉ text ++ bytes := by
          rw [List.mem_append, not_or]
          exact ⟨hzero, hnul⟩
        obtain ⟨hwhole, hstart⟩ := ih _ _ hbody htext hrest rfl
        rw [cString_of_not_mem hnul]
        simp only [← List.append_assoc]
        refine ⟨fun hnone => ?_, hstart⟩
        rw [List.mem_append, not_or] at hnone
        exact hwhole hnone.2

/-- The buffer from which the output is sent. -/
structure OutputBuffer (rs : List ReadResult) (buf output : Str) : Prop where
  string : cString buf = firstLine_200 ++ output
  room : firstLine_200.length + output.length < PAGE_BUFFER_SIZE
  whole : 0 ∉ printed rs → output = printed rs
  start : cString (printed rs) <+: output

theorem readCgiLoop_output {buf : Str}
    (h : readCgiLoop.run (padded firstLine_200) w = (.ok buf, w')) :
    ∃ output, OutputBuffer w.cgiReads buf output := by
  have hsize : (padded firstLine_200).length = PAGE_BUFFER_SIZE := length_padded (by decide +kernel)
  obtain ⟨hlength, hzero⟩ := readCgiLoop_ok hsize h
  have hprefix := readCgiLoop_prefix h
  rw [cString_padded zero_not_mem_firstLine_200] at hprefix
  obtain ⟨output, houtput⟩ := hprefix
  obtain ⟨hwhole, hstart⟩ := readCgiLoop_printed zero_not_mem_firstLine_200 h
  rw [← houtput] at hwhole hstart
  have hlt := length_cString_lt hzero
  rw [← houtput, List.length_append, hlength] at hlt
  exact ⟨output, houtput.symm, hlt, fun hnone => List.append_cancel_left (hwhole hnone),
    (List.prefix_append_right_inj _).mp hstart⟩

theorem close_transmits (fd : ℤ) : Transmits (Work.close fd) (fun _ ss => ss = []) (· = []) :=
  .of_records (Work.close_records fd) (fun _ => rfl) rfl

theorem writeAll_transmits (fd : ℤ) (bs : List Str) :
    Transmits (writeAll env fd bs) (fun _ ss => ss = []) (· = []) :=
  .of_silent (fun w₀ => writeAll_logs (fun _ _ => rfl) w₀ bs) (fun _ => rfl) rfl

/-- What the CGI process is going to print. -/
abbrev Prints (rs : List ReadResult) (w : World) : Prop := w.cgiReads = rs

theorem writeAll_prints (rs : List ReadResult) (fd : ℤ) (bs : List Str) :
    Prog.Preserves (Prints rs) (writeAll env fd bs) := by
  induction bs with
  | nil => exact Prog.Preserves.pure ()
  | cons bytes rest ih =>
    apply Prog.Preserves.bind _ fun _ => ih
    intro w hw
    rwa [Prints, Work.write_snd, World.cgiReads_record]

theorem pipe_prints (rs : List ReadResult) (which : CgiPipe) :
    Prog.Preserves (Prints rs) (Work.pipe env which) := by
  intro w hw
  rw [Work.pipe]
  split_ifs <;> exact hw

/-- `Transmits`, of the runs in which the CGI process is going to print this. -/
abbrev TransmitsOf {α : Type} (rs : List ReadResult) (p : Work α)
    (Q : α → List (Str × SendResult) → Prop) (X : List (Str × SendResult) → Prop) : Prop :=
  Prog.EmitsFrom World.calls handedToSend (Prints rs) p Q X

variable {rs : List ReadResult}

theorem serveCgi_transmits (hpost : d.requestMethod = .POST)
    (hcgi : d.urlResourceType = str "cgi") (hparams : d.getParamCount ≠ 0) (params : Params)
    (cgiInput cgiOutput : ℤ × ℤ) : TransmitsOf rs (serveCgi env params cgiInput cgiOutput)
      (fun _ => Answered env rs d) (Answered env rs d) := by
  have hnothing : Answered env rs d [] := .inl rfl
  have hclose : ∀ fd, Prog.Preserves (Prints rs) (Work.close fd) := fun _ _ hw => hw
  apply Prog.EmitsFrom.bind_quiet (close_transmits cgiOutput.2) (hclose _) _ hnothing
  intro _
  apply Prog.EmitsFrom.bind_quiet (close_transmits cgiInput.1) (hclose _) _ hnothing
  intro _
  rw [writeParams_eq]
  apply Prog.EmitsFrom.bind_quiet (writeAll_transmits _ _) (writeAll_prints rs _ _) _ hnothing
  intro _
  have hloop : TransmitsOf rs (readCgiLoop.run (padded firstLine_200))
      (fun buf ss => ss = [] ∧ ∃ output, OutputBuffer rs buf output) (Answered env rs d) := by
    apply Prog.EmitsFrom.with_result
    · apply Prog.Emits.from
      exact .of_silent (fun w₀ => readCgiLoop_logs (fun _ => rfl) w₀ _) (fun _ => rfl) hnothing
    · rintro w buf w' rfl hrun
      exact readCgiLoop_output hrun
  apply hloop.bind (J := fun _ => True) fun _ _ _ _ _ => trivial
  rintro buf ss ⟨rfl, output, hbuf⟩
  apply Prog.Emits.from
  have hreply : Reply env rs d [firstLine_200 ++ output] :=
    .cgi hpost hcgi hparams hbuf.room hbuf.whole hbuf.start
  have hsend : Transmits (Work.send env .executeCGI (cString buf))
      (fun _ => Answered env rs d) (Answered env rs d) := by
    rw [hbuf.string]
    exact send_hands _ _ fun result => AtMost.answered hreply (.inr ⟨result, rfl⟩)
  apply hsend.then_silent
  intro sent
  apply Prog.Emits.ite
  · intro _
    exact .of_records Work.waitpid_records (fun _ => rfl) rfl
  · intro _
    exact .throw _ rfl

theorem executeCGI_transmits (hcgi : d.urlResourceType = str "cgi")
    (hpost : d.getParamCount ≠ 0 → d.requestMethod = .POST) :
    TransmitsOf rs (executeCGI env d) (fun _ => Answered env rs d) (Answered env rs d) := by
  have hnothing : Answered env rs d [] := .inl rfl
  have hdistinct : str "cgi" ≠ str "memory" := by decide +kernel
  have hnotFound : Reply env rs d [notFoundResponse] := .notFound fun _ => hcgi ▸ hdistinct
  apply Prog.EmitsFrom.ite
  · intro _
    exact ((sendForBidden_transmits env).mono (fun _ _ => AtMost.answered hnotFound)
      fun _ => AtMost.answered hnotFound).from _
  intro hparams
  have hpipe : ∀ which, Transmits (Work.pipe env which) (fun _ ss => ss = []) (· = []) :=
    fun which => .of_records (Work.pipe_records which) (fun _ => rfl) rfl
  apply Prog.EmitsFrom.bind_quiet (hpipe .cgiInput) (pipe_prints rs _) _ hnothing
  intro cgiInput
  cases cgiInput with
  | none => exact (Prog.Emits.throw _ hnothing).from _
  | some cgiInput =>
    apply Prog.EmitsFrom.bind_quiet (hpipe .cgiOutput) (pipe_prints rs _) _ hnothing
    intro cgiOutput
    cases cgiOutput with
    | none => exact (Prog.Emits.throw _ hnothing).from _
    | some cgiOutput =>
      have hfork : Transmits (Work.fork env) (fun _ ss => ss = []) (· = []) :=
        .of_records Work.fork_records (fun _ => rfl) rfl
      apply Prog.EmitsFrom.bind_quiet hfork (fun _ hw => hw) _ hnothing
      intro created
      apply Prog.EmitsFrom.ite
      · intro _
        exact serveCgi_transmits (hpost hparams) hcgi hparams _ cgiInput cgiOutput
      · intro _
        exact (Prog.Emits.throw _ hnothing).from _

end Responser

open Responser

theorem respond_transmits {rs : List ReadResult}
    (hpost : d.getParamCount ≠ 0 → d.requestMethod = .POST)
    (hgoes : d.requestMethod ≠ .UNSUPPORT) :
    TransmitsOf rs (respond env d) (fun _ => Answered env rs d) (Answered env rs d) := by
  have hnotFound : d.requestMethod = .POST → Reply env rs d [notFoundResponse] := by
    intro hmethod
    exact .notFound fun hget => by simp [hmethod] at hget
  cases hmethod : d.requestMethod with
  | UNSUPPORT => exact absurd hmethod hgoes
  | GET =>
    simp only [respond, hmethod]
    apply Prog.EmitsFrom.ite
    · intro hcgi
      exact executeCGI_transmits hcgi hpost
    intro hcgi
    apply Prog.Emits.from
    apply Prog.Emits.ite
    · intro hmemory
      have hpage : Reply env rs d [header_htmlContentType firstLine_200 ++
          cString env.memoryIndexPage] := .memoryPage hmethod hmemory
      exact (sendMemoryPage_transmits env).mono (fun _ _ => AtMost.answered hpage)
        fun _ => AtMost.answered hpage
    · intro hmemory
      exact sendStaticFileToClient_transmits hmethod hcgi hmemory
  | POST =>
    simp only [respond, hmethod]
    apply Prog.EmitsFrom.ite
    · intro hcgi
      exact executeCGI_transmits hcgi hpost
    · intro _
      have hanswered : ∀ ss, AtMost notFoundResponse ss → Answered env rs d ss :=
        fun _ => AtMost.answered (hnotFound hmethod)
      exact ((sendNotFound_transmits env).mono (fun _ => hanswered) hanswered).from _

namespace HttpData

theorem clientParamData_setRequestMethod (headerInfo : List Str) (d : HttpData) :
    (d.setRequestMethod headerInfo).clientParamData = d.clientParamData := by
  cases headerInfo with
  | nil => rfl
  | cons method rest => simp only [setRequestMethod, apply_ite clientParamData, ite_self]

theorem clientParamData_startLine {d' : HttpData} {headerInfo : List Str}
    (h : startLine headerInfo d = .ok d') : d'.clientParamData = d.clientParamData := by
  by_cases hrefused : d'.Refused
  · unfold startLine at h
    split_ifs at h with hmethod
    · cases h
      exact clientParamData_setRequestMethod _ d
    · split at h
      · cases h
        exact absurd hrefused hmethod
      · cases h
  · obtain ⟨method, target, version, rest, rfl, rfl⟩ := startLine_eq_ok h hrefused
    exact clientParamData_setRequestMethod _ d

/-- What one line leaves as it is, all lines do. -/
theorem foldl_takeHeader_keeps {α : Type} {field : HttpData → α}
    (hfield : ∀ line d, field (takeHeader d line) = field d) (lines : List Str) (d : HttpData) :
    field (lines.foldl takeHeader d) = field d := by
  induction lines generalizing d with
  | nil => rfl
  | cons line lines ih =>
    rw [List.foldl_cons, ih]
    exact hfield line d

theorem clientParamData_foldl (lines : List Str) (d : HttpData) :
    (lines.foldl takeHeader d).clientParamData = d.clientParamData := by
  apply foldl_takeHeader_keeps
  intro line d
  simp only [takeHeader, setHeader, apply_ite clientParamData, ite_self]

/-- Only the body of a `POST` is looked through for parameters. -/
theorem params_of_parseData (h : parseData env (new env fd) w = (.ok d, w'))
    (hparams : d.clientParamData ≠ none) : ∃ d₂ w₂, d₂.clientParamData = none ∧
      d₂.requestMethod = .POST ∧ parseBodyParamData env d₂ w₂ = (.ok d, w') := by
  rw [parseData_eq] at h
  obtain ⟨d₁, w₁, hstart, h⟩ := Prog.bind_eq_ok h
  obtain ⟨l, e, htook, hok⟩ := parseStartLine_took (prev_new env fd) hstart
  obtain ⟨hline, hprev₁⟩ := htook.of_keeps (startLine_keeps hok)
  have hnone₁ : d₁.clientParamData = none := by
    rw [clientParamData_startLine hok, htook.object]
    rfl
  by_cases hrefused : d₁.Refused
  · rw [if_pos hrefused] at h
    cases h
    exact absurd hnone₁ hparams
  · rw [if_neg hrefused] at h
    obtain ⟨d₂, w₂, hheader, h⟩ := Prog.bind_eq_ok h
    have hnone₂ : d₂.clientParamData = none := by
      rw [parseHeader_lines hprev₁ hheader]
      exact (clientParamData_foldl _ d₁).trans hnone₁
    by_cases hpost : d₂.requestMethod = .POST
    · rw [afterHead, if_pos hpost] at h
      exact ⟨d₂, w₂, hnone₂, hpost, h⟩
    · rw [afterHead, if_neg hpost] at h
      cases h
      exact absurd hnone₂ hparams

theorem post_of_params (h : parseData env (new env fd) w = (.ok d, w'))
    (hparams : d.getParamCount ≠ 0) : d.requestMethod = .POST := by
  have hsome : d.clientParamData ≠ none := by
    intro hnone
    simp [getParamCount, hnone] at hparams
  obtain ⟨d₂, w₂, -, hpost, hbody⟩ := params_of_parseData h hsome
  obtain ⟨unread, params, rfl⟩ := parseBodyParamData_object hbody
  exact hpost

end HttpData

theorem answer_transmits {rs : List ReadResult}
    (hpost : d.getParamCount ≠ 0 → d.requestMethod = .POST) (hgoes : ¬ d.Refused) (fd : ℤ) :
    TransmitsOf rs (answer env d fd) (fun _ => Answered env rs d) (Answered env rs d) := by
  have hnothing : Answered env rs d [] := .inl rfl
  have hmethod : d.requestMethod ≠ .UNSUPPORT := fun h => hgoes (.inr h)
  have hbad : ¬ d.badRequest = true := fun h => hgoes (.inl h)
  rw [answer_eq, if_neg hbad, if_neg hmethod]
  have hexist : Transmits (fileExist env d.url) (fun _ ss => ss = []) (· = []) := by
    apply (stat_transmits env d.url).bind_silent (X := fun ss => ss = []) _ rfl
    intro r _
    cases r <;> exact .pure _ rfl
  have hkeeps : Prog.Preserves (Prints rs) (fileExist env d.url) := by
    have hstat : Prog.Preserves (Prints rs) (Work.stat env d.url) := fun _ hw => hw
    apply hstat.bind
    intro r
    cases r <;> exact Prog.Preserves.pure _
  apply Prog.EmitsFrom.bind_quiet hexist hkeeps _ hnothing
  intro found
  apply Prog.EmitsFrom.ite
  · intro hnot
    have hnotFound : Reply env rs d [notFoundResponse] := .notFound fun _ => hnot.2
    exact ((sendNotFound_transmits env).mono (fun _ _ => AtMost.answered hnotFound)
      fun _ => AtMost.answered hnotFound).from _
  · intro _
    apply (respond_transmits hpost hmethod).then_silent
    intro _
    apply Prog.Emits.ite
    · intro _
      have haddfd : Transmits (Work.addfd fd) (fun _ ss => ss = []) (· = []) :=
        .of_records (Work.addfd_records fd) (fun _ => rfl) rfl
      exact haddfd.bind_quiet (X := fun ss => ss = []) (fun _ => .pure () rfl) rfl
    · intro _
      exact close_transmits fd

/-- The parser reads nothing of a CGI process. -/
theorem prints_parserCalls (env : Env) (rs : List ReadResult) : ParserCalls env (Prints rs) where
  recv := by
    intro w hw
    rw [Work.recv]
    split <;> exact hw
  stoi text := by
    intro w hw
    rw [Work.stoi]
    split <;> exact hw
  newArray size := by
    intro w hw
    simp only [Work.newArray]
    split_ifs <;> exact hw

/-- Neither the parser nor the release of the descriptor hands anything over. -/
structure QuietAround {γ : Type} (f : Call → List γ) : Prop where
  recv : ∀ r, f (.recv r) = []
  stoi : ∀ text, f (.stoi text) = []
  newArray : ∀ size allocated, f (.newArray size allocated) = []
  addfd : ∀ fd accepted, f (.addfd fd accepted) = []
  deleteFd : ∀ fd, f (.deleteFd fd) = []
  close : ∀ fd, f (.close fd) = []

/-- What a call of `httpserver` hands over is what its answer to an accepted request does. -/
theorem httpserver_hands {γ : Type} {f : Call → List γ} (hf : QuietAround f) {env : Env}
    {I : World → Prop} (hI : ParserCalls env I) (fd : ℤ) (hw : I w)
    {P : HttpData → List γ → Prop}
    (hanswer : ∀ d w₁, HttpData.parseData env (.new env fd) w = (.ok d, w₁) → ¬ d.Refused →
      Prog.EmitsFrom World.calls f I (answer env d fd) (fun _ => P d) (P d)) :
    ∃ bs, Hands f w (httpserver env fd w).2 bs ∧ (bs ≠ [] → ∃ d w₁,
      HttpData.parseData env (.new env fd) w = (.ok d, w₁) ∧ ¬ d.Refused ∧ P d bs) := by
  have hrecover : ∀ e, Prog.Emits World.calls f (recover fd e) (fun _ bs => bs = []) (· = []) :=
    fun e => .of_silent (fun _ => recover_keeps
      (logged_releaseCalls hf.addfd hf.deleteFd hf.close) fd e) (fun _ => rfl) rfl
  have hparsing : Hands f w (HttpData.parseData env (.new env fd) w).2 [] := by
    have hcalls : ParserCalls env (Prog.LoggedSince World.calls (fun c => f c = []) w) :=
      logged_parserCalls hf.recv hf.stoi hf.newArray
    exact Hands.of_preserves (HttpData.parseData_keeps hcalls _) rfl
  have hserve : serve env fd w = (HttpData.parseData env (.new env fd) >>= fun d =>
    answer env d fd) w := rfl
  rw [Prog.bind_run] at hserve
  have hparsed := HttpData.parseData_keeps hI (.new env fd) w hw
  cases hparse : HttpData.parseData env (.new env fd) w with
  | mk o w₁ =>
    rw [hparse] at hparsing hserve hparsed
    cases o with
    | ok d =>
      rw [httpserver_parsed hparse]
      by_cases hrefused : d.Refused
      · rw [answer_refused fd hrefused]
        exact ⟨[], hparsing, fun h => absurd rfl h⟩
      · obtain ⟨cs, hcs, hends⟩ :=
          (hanswer d w₁ hparse hrefused).handle hrecover w₁ hparsed
        have hanswered : P d (cs.flatMap f) := by
          revert hends
          cases (Prog.handle (answer env d fd) (recover fd) w₁).1 <;> exact id
        exact ⟨_, hparsing.trans ⟨cs, hcs, rfl⟩, fun _ => ⟨d, w₁, rfl, hrefused, hanswered⟩⟩
    | throw e =>
      rw [httpserver, Prog.handle_throw hserve]
      obtain ⟨cs, hcs, hends⟩ := hrecover e w₁
      have hnone : cs.flatMap f = [] := by
        revert hends
        cases (recover fd e w₁).1 <;> exact id
      exact ⟨_, hparsing.trans ⟨cs, hcs, hnone⟩, fun h => absurd rfl h⟩
    | undefined u | blocked | killed =>
      simp only [httpserver, Prog.handle, hserve]
      exact ⟨[], hparsing, fun h => absurd rfl h⟩

/-- Whatever the client, `send`, the files and the processes do: one call hands nothing to `send`,
or the request was parsed and accepted and the call hands over the texts of one of its responses,
one after the other until one fails. -/
theorem replies (env : Env) (fd : ℤ) (w : World) :
    ∃ ss, Hands handedToSend w (httpserver env fd w).2 ss ∧ (ss ≠ [] → ∃ d w₁ texts,
      HttpData.parseData env (.new env fd) w = (.ok d, w₁) ∧ ¬ d.Refused ∧
        Reply env w.cgiReads d texts ∧ SentInTurn texts ss) := by
  have hquiet : QuietAround handedToSend := ⟨fun _ => rfl, fun _ => rfl, fun _ _ => rfl,
    fun _ _ => rfl, fun _ => rfl, fun _ => rfl⟩
  obtain ⟨ss, hhanded, hanswered⟩ := httpserver_hands hquiet
    (prints_parserCalls env w.cgiReads) fd rfl
    fun d w₁ hparse hgoes => answer_transmits (HttpData.post_of_params hparse) hgoes fd
  refine ⟨ss, hhanded, ?_⟩
  intro hsome
  obtain ⟨d, w₁, hparse, hgoes, hreply⟩ := hanswered hsome
  obtain ⟨texts, htexts, hturn⟩ := hreply.resolve_left hsome
  exact ⟨d, w₁, texts, hparse, hgoes, htexts, hturn⟩

end LxcHttpServer
