import LxcHttpServer.PathResolution
import LxcHttpServer.RaisedExceptions
import LxcHttpServer.RequestBodies
import LxcHttpServer.RequestFields

/-!
# The paths a request reaches

The target of a request is put behind `www` as it is. The paths handed to `stat`, `fopen`
and `execl` stay in that directory for the targets that begin with a slash and do not climb
above where they begin, and for those that leave it by one level and come back.
-/
namespace LxcHttpServer
open EffectPrograms PathResolution Strings

def stepOf (component : Str) : Step Str :=
  if component = [] ∨ component = str "." then .here
  else if component = str ".." then .up
  else .down component

/-- The components between the slashes. -/
def components (path : Str) : List Str := path.splitOn 47

def pathSteps (path : Str) : List (Step Str) := (components path).map stepOf

/-- The path lies in the directory `www` of where the server runs. -/
def InsideRoot (path : Str) : Prop := Within RESOURCE_ROOT (pathSteps path)

instance (path : Str) : Decidable (InsideRoot path) := inferInstanceAs (Decidable (Within _ _))

/-- What stands behind the first slash of the target. -/
def targetRest (target : Str) : Resolved Str :=
  resolve ((components target).tail.map stepOf)

/-- The target begins with a slash and nothing behind it climbs above it, or it climbs one
level above it and comes down in `www`. -/
def Confined (target : Str) : Prop :=
  ((components target).head? = some [] ∧ (targetRest target).ups = 0) ∨
    ((targetRest target).ups = 1 ∧ (targetRest target).names.head? = some RESOURCE_ROOT)

instance (target : Str) : Decidable (Confined target) := inferInstanceAs (Decidable (_ ∨ _))

theorem resource_root_eq : RESOURCE_ROOT = [119, 119, 119] := by decide +kernel

/-- `www` has no slash, so it becomes part of the first component. -/
theorem components_root {target first : Str} {rest : List Str}
    (h : components target = first :: rest) :
    components (RESOURCE_ROOT ++ target) = (RESOURCE_ROOT ++ first) :: rest := by
  have hletter : ∀ s : Str, components (119 :: s) = (components s).modifyHead (List.cons 119) := by
    intro s
    simp [components, List.splitOn, List.splitOnP_cons_eq_if_modifyHead]
  simp only [resource_root_eq, List.cons_append, List.nil_append, hletter, h, List.modifyHead_cons]

theorem stepOf_root (first : Str) :
    stepOf (RESOURCE_ROOT ++ first) = .down (RESOURCE_ROOT ++ first) := by
  have hdot : str "." = [46] := by decide +kernel
  have hup : str ".." = [46, 46] := by decide +kernel
  simp [stepOf, resource_root_eq, hdot, hup]

theorem insideRoot_iff (target : Str) : InsideRoot (RESOURCE_ROOT ++ target) ↔ Confined target := by
  obtain ⟨first, rest, hsplit⟩ : ∃ first rest, components target = first :: rest :=
    List.exists_cons_of_ne_nil (by simp [components, List.splitOn, List.splitOnP_ne_nil])
  rw [InsideRoot, pathSteps, components_root hsplit, List.map_cons, stepOf_root,
    within_down_iff, Confined, targetRest, hsplit]
  simp

/-- The request is accepted, and this is the second token of its first line. -/
def Requests (env : Env) (fd : ℤ) (w : World) (target : Str) : Prop :=
  (∃ d w', HttpData.parseData env (.new env fd) w = (.ok d, w') ∧ ¬ d.Refused) ∧
    ∃ l r, fittingLine (delivered w.recvs) = some (l, r) ∧
      (HttpData.tokens (cString l))[1]? = some target

namespace HttpData

variable {env : Env} {fd : ℤ} {d : HttpData} {w w' : World}

/-- The url of an accepted request is its target behind `www`. -/
theorem parseData_url (h : parseData env (.new env fd) w = (.ok d, w')) (haccepted : ¬ d.Refused) :
    ∃ target, Requests env fd w target ∧
      d.url = RESOURCE_ROOT ++ if target = str "/" then str "/index.html" else target := by
  have hparse := h
  rw [parseData_eq] at h
  obtain ⟨d₁, w₁, hstart, h⟩ := Prog.bind_eq_ok h
  have hgoes : ¬ d₁.Refused := by
    intro hrefused
    rw [if_pos hrefused] at h
    cases h
    exact haccepted hrefused
  rw [if_neg hgoes] at h
  obtain ⟨d₂, w₂, hheader, h⟩ := Prog.bind_eq_ok h
  have hurl₂ : d.url = d₂.url := by
    obtain ⟨unread, params, rfl⟩ := afterHead_object h
    rfl
  obtain ⟨l, e, htook, hok⟩ := parseStartLine_took (prev_new env fd) hstart
  have hprev₁ : d₁.prev ≠ 13 := (htook.of_keeps (startLine_keeps hok)).2
  obtain ⟨method, target, version, rest, htokens, hd₁⟩ := startLine_eq_ok hok hgoes
  refine ⟨target, ⟨⟨d, w', hparse, haccepted⟩, l, _, htook.line, by rw [htokens]; rfl⟩, ?_⟩
  rw [hurl₂, parseHeader_url hprev₁ hheader, hd₁]
  rfl

theorem insideRoot_url (target : Str) :
    InsideRoot (RESOURCE_ROOT ++ if target = str "/" then str "/index.html" else target) ↔
      Confined target := by
  rw [insideRoot_iff]
  split_ifs with hslash
  · subst hslash
    have hindex : Confined (str "/index.html") := by decide +kernel
    have hroot : Confined (str "/") := by decide +kernel
    exact ⟨fun _ => hroot, fun _ => hindex⟩
  · exact Iff.rfl

end HttpData

/-- The paths that `httpserver` hands to `stat`, `fopen` and, in a CGI process, `execl`. -/
inductive HandsOver (env : Env) (fd : ℤ) (w : World) : Str → Prop where
  | stat {path : Str} {result : StatResult}
      (h : .stat path result ∈ callsOf (httpserver env fd) w) : HandsOver env fd w path
  | fopen {path : Str} {opened : Bool}
      (h : .fopen path opened ∈ callsOf (httpserver env fd) w) : HandsOver env fd w path
  | execl {d : HttpData} {w' : World}
      (hparse : HttpData.parseData env (.new env fd) w = (.ok d, w'))
      (hfork : .fork true ∈ callsOf (httpserver env fd) w) :
      HandsOver env fd w (Responser.execlPath d)

/-- The path a call hands over is of a kind, and no process is created without one. -/
def Allowed (Path : Str → Prop) : Call → Prop
  | .stat path _ | .fopen path _ => Path path
  | .fork _ => ∃ path, Path path
  | _ => True

/-- The calls since `w₀` are allowed. -/
abbrev Allows (Path : Str → Prop) (w₀ : World) : World → Prop :=
  Prog.LoggedSince World.calls (Allowed Path) w₀

section
variable {env : Env} {Path : Str → Prop} {w₀ : World}

theorem allows_parserCalls : ParserCalls env (Allows Path w₀) where
  recv := Prog.Preserves.of_records Work.recv_records fun _ => trivial
  stoi text := by
    intro w hw
    cases h : Strings.stoi text with
    | ok n =>
      simp only [Work.stoi, h]
      exact hw.snoc rfl trivial
    | error e =>
      simp only [Work.stoi, h]
      exact hw.snoc rfl trivial
  newArray size := by
    intro w hw
    simp only [Work.newArray]
    split_ifs
    · exact hw.snoc rfl trivial
    · exact hw.snoc rfl trivial
    · exact hw.snoc rfl trivial

theorem allows_answerCalls (hsome : ∃ path, Path path) :
    AnswerCalls env (Allows Path w₀) Path (fun _ => True) where
  send _ _ := Work.send_logs _ _ fun _ => trivial
  stat path hpath := Prog.Preserves.of_records (Work.stat_records path) fun _ => hpath
  fork := Prog.Preserves.of_records Work.fork_records fun _ => hsome
  write _ _ := Work.write_logs _ _ fun _ => trivial
  waitpid := Prog.Preserves.of_records Work.waitpid_records fun _ => trivial
  read _ := Prog.Preserves.of_records (Work.read_records _) fun _ => trivial
  pipe _ := Prog.Preserves.of_records (Work.pipe_records _) fun _ => trivial
  pipe_ends _ _ _ _ _ _ := ⟨trivial, trivial⟩
  fopen path hpath := Prog.Preserves.of_records (Work.fopen_records path) fun _ => hpath
  fopen_fd _ _ _ _ _ _ := trivial
  close _ _ := Prog.Preserves.of_records (Work.close_records _) fun _ => trivial
  fclose _ _ := Prog.Preserves.of_records (Work.fclose_records _) fun _ => trivial

theorem allows_releaseCalls : ReleaseCalls (Allows Path w₀) where
  addfd _ := Prog.Preserves.of_records (Work.addfd_records _) fun _ => trivial
  deleteFd fd := by
    intro w hw
    simp only [Work.deleteFd]
    split
    · exact hw.snoc rfl trivial
    · exact hw.snoc rfl trivial
  close _ := Prog.Preserves.of_records (Work.close_records _) fun _ => trivial

end

/-- The url of an accepted request. -/
def AcceptedUrl (env : Env) (fd : ℤ) (w : World) (path : Str) : Prop := ∃ d w',
  HttpData.parseData env (.new env fd) w = (.ok d, w') ∧ ¬ d.Refused ∧ path = d.url

theorem answer_refused {env : Env} {d : HttpData} (fd : ℤ) (h : d.Refused) :
    answer env d fd = pure () := by
  rw [answer_eq]
  rcases h with hbad | hunsupport
  · rw [if_pos hbad]
  · rw [if_pos hunsupport, ite_self]

theorem answer_accepted {env : Env} {d : HttpData} (fd : ℤ) (h : ¬ d.Refused) :
    answer env d fd = fileExist env d.url >>= answerFound env d fd := by
  rw [HttpData.Refused, not_or] at h
  rw [answer_eq, if_neg h.1, if_neg h.2]

/-- Whatever path is handed over is the url of an accepted request. -/
theorem httpserver_allows (env : Env) (fd : ℤ) (w : World) :
    Allows (AcceptedUrl env fd w) w (httpserver env fd w).2 := by
  have hkeeps : Prog.Preserves (Allows (AcceptedUrl env fd w) w)
      (HttpData.parseData env (.new env fd)) := HttpData.parseData_keeps allows_parserCalls _
  have hparsed := hkeeps w (Prog.LoggedSince.refl _ w)
  cases hparse : HttpData.parseData env (.new env fd) w with
  | mk o w₁ =>
    rw [hparse] at hparsed
    have hserve : serve env fd w = (HttpData.parseData env (.new env fd) >>= fun d =>
      answer env d fd) w := rfl
    rw [Prog.bind_run, hparse] at hserve
    cases o with
    | ok d =>
      rw [httpserver_parsed hparse]
      by_cases hrefused : d.Refused
      · rw [answer_refused fd hrefused]
        exact hparsed
      · have hpath : AcceptedUrl env fd w d.url := ⟨d, w₁, hparse, hrefused, rfl⟩
        exact handled_answer_keeps (allows_answerCalls ⟨_, hpath⟩) allows_releaseCalls hpath fd w₁
          hparsed
    | throw e =>
      rw [httpserver, Prog.handle_throw hserve]
      exact recover_keeps allows_releaseCalls fd e w₁ hparsed
    | undefined u =>
      simp only [httpserver, Prog.handle, hserve]
      exact hparsed
    | blocked =>
      simp only [httpserver, Prog.handle, hserve]
      exact hparsed
    | killed =>
      simp only [httpserver, Prog.handle, hserve]
      exact hparsed

theorem HandsOver.accepted {env : Env} {fd : ℤ} {w : World} {path : Str}
    (h : HandsOver env fd w path) : AcceptedUrl env fd w path := by
  obtain ⟨tr, hcalls, hall⟩ := httpserver_allows env fd w
  have hcallsOf : callsOf (httpserver env fd) w = tr := by rw [callsOf, hcalls, List.drop_left]
  cases h with
  | stat h =>
    rw [hcallsOf] at h
    exact hall _ h
  | fopen h =>
    rw [hcallsOf] at h
    exact hall _ h
  | execl hparse hfork =>
    rw [hcallsOf] at hfork
    obtain ⟨path, d', w'', hparse', haccepted, -⟩ := hall _ hfork
    rw [hparse] at hparse'
    cases hparse'
    exact ⟨_, _, hparse, haccepted, rfl⟩

/-- The url of an accepted request is handed to `stat`. -/
theorem handsOver_url {env : Env} {fd : ℤ} {d : HttpData} {w w₁ : World}
    (hparse : HttpData.parseData env (.new env fd) w = (.ok d, w₁)) (haccepted : ¬ d.Refused) :
    HandsOver env fd w d.url := by
  have hkeeps : Prog.Preserves (Allows (fun _ => True) w)
      (HttpData.parseData env (.new env fd)) := HttpData.parseData_keeps allows_parserCalls _
  obtain ⟨tr, hcalls, -⟩ := hkeeps.of_eq (Prog.LoggedSince.refl _ w) hparse
  let result := env.stat w₁.calls.length d.url
  let w₂ := w₁.record (.stat d.url result)
  have hexist : ∃ found, fileExist env d.url w₁ = (.ok found, w₂) := by
    cases hresult : env.stat w₁.calls.length d.url with
    | found size => exact ⟨true, by simp [fileExist, Prog.bind_run, Work.stat, hresult, w₂, result]⟩
    | denied => exact ⟨false, by simp [fileExist, Prog.bind_run, Work.stat, hresult, w₂, result]⟩
    | missing => exact ⟨false, by simp [fileExist, Prog.bind_run, Work.stat, hresult, w₂, result]⟩
  obtain ⟨found, hexist⟩ := hexist
  have hanswer : answer env d fd w₁ = answerFound env d fd found w₂ := by
    rw [answer_accepted fd haccepted]
    exact Prog.bind_ok hexist
  have hlater : Prog.Preserves (Allows (fun _ => True) w₂)
      (Prog.handle (answerFound env d fd found) (recover fd)) :=
    (answerFound_keeps (allows_answerCalls ⟨[], trivial⟩) allows_releaseCalls trivial fd
      found).handle (recover_keeps allows_releaseCalls fd)
  obtain ⟨tr', hcalls', -⟩ := hlater w₂ (Prog.LoggedSince.refl _ w₂)
  rw [← Prog.handle_congr hanswer, ← httpserver_parsed hparse] at hcalls'
  have hmem : .stat d.url result ∈ callsOf (httpserver env fd) w := by
    rw [callsOf, hcalls', World.calls_record, hcalls, List.append_assoc, List.append_assoc,
      List.drop_left]
    simp
  exact .stat hmem

/-- The paths stay in the resource root exactly if the target of an accepted request is
confined. -/
theorem paths_inside_root_iff (env : Env) (fd : ℤ) (w : World) :
    (∀ path, HandsOver env fd w path → InsideRoot path) ↔
      ∀ target, Requests env fd w target → Confined target := by
  constructor
  · rintro h target ⟨⟨d, w', hparse, haccepted⟩, l, r, hline, htarget⟩
    obtain ⟨target', ⟨-, l', r', hline', htarget'⟩, hurl⟩ := HttpData.parseData_url hparse haccepted
    rw [hline] at hline'
    cases hline'
    rw [htarget] at htarget'
    cases htarget'
    have hinside := h _ (handsOver_url hparse haccepted)
    rw [hurl] at hinside
    exact (HttpData.insideRoot_url target).mp hinside
  · intro h path hpath
    obtain ⟨d, w', hparse, haccepted, rfl⟩ := hpath.accepted
    obtain ⟨target, hrequests, hurl⟩ := HttpData.parseData_url hparse haccepted
    rw [hurl]
    exact (HttpData.insideRoot_url target).mpr (h target hrequests)

/-- A request for a file beside the resource root. -/
def climbingGet : Chunk where
  bytes := str "GET /../Makefile HTTP/1.1\r\n\r\n"
  nonempty := by decide +kernel
  fits := by decide +kernel

theorem not_paths_inside_root :
    HandsOver calmEnv 5 (firstClient 5 [.data climbingGet]) (str "www/../Makefile") ∧
      ¬ InsideRoot (str "www/../Makefile") := by
  have hrun : ∃ d w', HttpData.parseData calmEnv (.new calmEnv 5)
      (firstClient 5 [.data climbingGet]) = (.ok d, w') ∧ ¬ d.Refused ∧
        d.url = str "www/../Makefile" := by
    have heval : returns (fun d _ => decide (¬ d.Refused ∧ d.url = str "www/../Makefile"))
        (HttpData.parseData calmEnv (.new calmEnv 5) (firstClient 5 [.data climbingGet])) =
          true := by
      decide +kernel
    obtain ⟨d, w', hparse, hurl⟩ := returns_eq_true heval
    exact ⟨d, w', hparse, of_decide_eq_true hurl⟩
  obtain ⟨d, w', hparse, haccepted, hurl⟩ := hrun
  constructor
  · rw [← hurl]
    exact handsOver_url hparse haccepted
  · decide +kernel

end LxcHttpServer
