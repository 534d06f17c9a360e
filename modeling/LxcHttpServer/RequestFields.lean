import LxcHttpServer.RequestLines

/-!
# What is made of one line

Once a line is read, what `parseStartLine` and `parseHeader` do with it depends on the line
and the object alone. Both are the reading of a line followed by such a function.
-/
namespace LxcHttpServer
open EffectPrograms Strings

namespace HttpData

variable {d d' : HttpData} {line : Str} {w : World} {unread : Str} {prev : UInt8}

/-- The `if` of `parseUrlDataParamList` returns for every url. -/
theorem parseUrlDataParamList_eq (d : HttpData) : parseUrlDataParamList d = pure d := by
  have hone : d.url.length ≠ 0 ∨ (d.url.takeWhile (· ≠ 63)).length + 1 > d.url.length := by omega
  simp only [parseUrlDataParamList, if_pos hone]
  rfl

/-- The request is not looked at any further. -/
def Refused (d : HttpData) : Prop := d.badRequest ∨ d.requestMethod = .UNSUPPORT

instance (d : HttpData) : Decidable d.Refused := inferInstanceAs (Decidable (_ ∨ _))

/-- The object after the start line. -/
def withTarget (target version : Str) (d : HttpData) : HttpData :=
  let url := if target = str "/" then str "/index.html" else target
  { d with url := RESOURCE_ROOT ++ url, urlResourceType := suffixOf url, version := version }

def startLine (headerInfo : List Str) (d : HttpData) : Outcome Thrown Undefined HttpData :=
  if (d.setRequestMethod headerInfo).Refused then .ok (d.setRequestMethod headerInfo)
  else match headerInfo with
    | _ :: target :: version :: _ => .ok ((d.setRequestMethod headerInfo).withTarget target version)
    | _ => .undefined .outOfBounds

theorem setRequestMethod_reading (headerInfo : List Str) (d : HttpData) (unread : Str)
    (prev : UInt8) : (d.reading unread prev).setRequestMethod headerInfo =
      (d.setRequestMethod headerInfo).reading unread prev := by
  cases headerInfo with
  | nil => rfl
  | cons method rest =>
    simp only [setRequestMethod]
    split_ifs <;> rfl

/-- The start line is taken apart in the same way whatever stands in the buffer. -/
theorem startLine_reading {headerInfo : List Str} (h : startLine headerInfo d = .ok d')
    (unread : Str) (prev : UInt8) :
    startLine headerInfo (d.reading unread prev) = .ok (d'.reading unread prev) := by
  unfold startLine at h ⊢
  rw [setRequestMethod_reading]
  have hsame : ((d.setRequestMethod headerInfo).reading unread prev).Refused ↔
      (d.setRequestMethod headerInfo).Refused := Iff.rfl
  by_cases hrefused : (d.setRequestMethod headerInfo).Refused
  · rw [if_pos hrefused] at h
    rw [if_pos (hsame.mpr hrefused)]
    cases h
    rfl
  · rw [if_neg hrefused] at h
    rw [if_neg (mt hsame.mp hrefused)]
    rcases headerInfo with _ | ⟨method, _ | ⟨target, _ | ⟨version, rest⟩⟩⟩
    · cases h
    · cases h
    · cases h
    · cases h
      rfl

/-- The start line does not touch what the reader of lines keeps. -/
theorem startLine_keeps {headerInfo : List Str} (h : startLine headerInfo d = .ok d') :
    d'.unread = d.unread ∧ d'.prev = d.prev := by
  have hsame := startLine_reading h d.unread d.prev
  rw [reading_self, h, Outcome.ok.injEq] at hsame
  rw [hsame]
  exact ⟨rfl, rfl⟩

/-- The tokens of a line. -/
def tokens (line : Str) : List Str :=
  match stringSplit line [] (str " ") with
  | .ok headerInfo => headerInfo
  | .error _ => []

/-- The tokens of a start line with which the parser goes on. -/
def Accepted (headerInfo : List Str) : Prop := ∃ method target version rest,
  headerInfo = method :: target :: version :: rest ∧ (method = str "GET" ∨ method = str "POST")

theorem refused_setRequestMethod {method : Str} {rest : List Str} (h : d.badRequest = false) :
    (d.setRequestMethod (method :: rest)).Refused ↔
      ¬ (method = str "GET" ∨ method = str "POST") := by
  simp only [Refused, setRequestMethod]
  split_ifs with hget hpost
  · simp [h, hget]
  · simp [h, hpost]
  · simp [hget, hpost]

theorem startLine_accepted {method target version : Str} {rest : List Str}
    (h : d.badRequest = false) (hmethod : method = str "GET" ∨ method = str "POST") :
    startLine (method :: target :: version :: rest) d = .ok ((d.setRequestMethod
      (method :: target :: version :: rest)).withTarget target version) := by
  rw [startLine, if_neg (by rw [refused_setRequestMethod h, not_not]; exact hmethod)]

theorem refused_withTarget (target version : Str) (d : HttpData) :
    (d.withTarget target version).Refused ↔ d.Refused := Iff.rfl

/-- A start line after which the parser goes on gave it a target and a version. -/
theorem startLine_eq_ok {headerInfo : List Str} (h : startLine headerInfo d = .ok d')
    (haccepted : ¬ d'.Refused) : ∃ method target version rest,
      headerInfo = method :: target :: version :: rest ∧
        d' = (d.setRequestMethod headerInfo).withTarget target version := by
  unfold startLine at h
  by_cases hrefused : (d.setRequestMethod headerInfo).Refused
  · rw [if_pos hrefused] at h
    cases h
    exact absurd hrefused haccepted
  · rw [if_neg hrefused] at h
    rcases headerInfo with _ | ⟨method, _ | ⟨target, _ | ⟨version, rest⟩⟩⟩
    · cases h
    · cases h
    · cases h
    · cases h
      exact ⟨method, target, version, rest, rfl, rfl⟩

/-- The parser goes on after a start line exactly if its tokens are accepted. -/
theorem startLine_not_refused {headerInfo : List Str} (h : d.badRequest = false) :
    (∃ d', startLine headerInfo d = .ok d' ∧ ¬ d'.Refused) ↔ Accepted headerInfo := by
  constructor
  · rintro ⟨d', hok, haccepted⟩
    obtain ⟨method, target, version, rest, rfl, rfl⟩ := startLine_eq_ok hok haccepted
    rw [refused_withTarget, refused_setRequestMethod h, not_not] at haccepted
    exact ⟨method, target, version, rest, rfl, haccepted⟩
  · rintro ⟨method, target, version, rest, rfl, hmethod⟩
    refine ⟨_, startLine_accepted h hmethod, ?_⟩
    rw [refused_withTarget, refused_setRequestMethod h, not_not]
    exact hmethod

theorem parseStartLine_eq (d : HttpData) : parseStartLine d =
    parseOneLine d >>= fun p => Prog.ofOutcome (startLine (tokens p.1) p.2) := by
  rw [parseStartLine]
  congr 1
  funext ⟨firstLine, d⟩
  obtain ⟨headerInfo, hsplit⟩ := stringSplit_eq_ok firstLine [] (str " ")
  have htokens : tokens firstLine = headerInfo := by rw [tokens, hsplit]
  funext w
  simp only [hsplit, htokens, parseUrlDataParamList_eq, startLine, Refused, Prog.ofOutcome_run]
  split_ifs with hrefused
  · rfl
  · match headerInfo with
    | [] => rfl
    | [_] => rfl
    | [_, _] => rfl
    | _ :: _ :: _ :: _ => rfl

/-- A line was taken, and the start line is what its tokens made of the object. -/
theorem parseStartLine_took {w' : World} (hprev : d.prev ≠ 13)
    (h : parseStartLine d w = (.ok d', w')) :
    ∃ l e, TookLine l d w e w' ∧ startLine (tokens (cString l)) e = .ok d' := by
  rw [parseStartLine_eq] at h
  obtain ⟨⟨line, e⟩, hcall, hok⟩ := Prog.bind_ofOutcome_eq_ok h
  obtain ⟨l, rfl, htook⟩ := parseOneLine_eq_ok hprev hcall
  exact ⟨l, e, htook, hok⟩

theorem setHeader_reading (headName line : Str) (d : HttpData) (unread : Str) (prev : UInt8) :
    (d.reading unread prev).setHeader headName line =
      (d.setHeader headName line).reading unread prev := by
  simp only [setHeader, apply_ite fun d : HttpData => d.reading unread prev]
  rfl

@[simp] theorem url_setHeader (headName line : Str) (d : HttpData) :
    (d.setHeader headName line).url = d.url := by
  simp only [setHeader, apply_ite url, ite_self]

/-- One round of `parseHeader` after the line was read. -/
def headerLine (line : Str) (d : HttpData) : Outcome Thrown Undefined (HttpData ⊕ HttpData) :=
  if line = [] then .ok (.inr d)
  else match findFrom (· = 61) line 0 with
    | none => .undefined .outOfBounds
    | some i => .ok (.inl (d.setHeader (line.take i) line))

theorem parseHeaderBody_eq (d : HttpData) : parseHeaderBody d =
    parseOneLine d >>= fun p => Prog.ofOutcome (headerLine p.1 p.2) := by
  rw [parseHeaderBody]
  congr 1
  funext ⟨line, d⟩ w
  simp only [headerLine, Prog.ofOutcome_run]
  split_ifs with hline
  · rfl
  · rw [Prog.bind_run, getHeaderLineName]
    cases findFrom (· = 61) line 0 with
    | none => rfl
    | some i => rfl

/-- A line was taken, and it ends the header or is stored. -/
theorem parseHeaderBody_took {w' : World} {r : HttpData ⊕ HttpData} (hprev : d.prev ≠ 13)
    (h : parseHeaderBody d w = (.ok r, w')) :
    ∃ l e, TookLine l d w e w' ∧ headerLine (cString l) e = .ok r := by
  rw [parseHeaderBody_eq] at h
  obtain ⟨⟨line, e⟩, hcall, hok⟩ := Prog.bind_ofOutcome_eq_ok h
  obtain ⟨l, rfl, htook⟩ := parseOneLine_eq_ok hprev hcall
  exact ⟨l, e, htook, hok⟩

theorem findFrom_zero_eq_none {p : UInt8 → Bool} {s : Str} :
    findFrom p s 0 = none ↔ ∀ b ∈ s, p b = false := by
  simp [findFrom]

/-- The parser goes on after a header line exactly if it is not empty and has a `=`. -/
theorem headerLine_goes_on : (∃ d', headerLine line d = .ok (.inl d')) ↔ line ≠ [] ∧ 61 ∈ line := by
  unfold headerLine
  by_cases hline : line = []
  · simp [hline]
  · rw [if_neg hline]
    cases hfind : findFrom (· = 61) line 0 with
    | none =>
      have hnone := findFrom_zero_eq_none.mp hfind
      have habsent : 61 ∉ line := fun hmem => by simpa using hnone 61 hmem
      simp [habsent]
    | some i =>
      obtain ⟨-, hi, heq⟩ := findFrom_eq_some hfind
      have hmem : 61 ∈ line := by
        rw [← of_decide_eq_true heq]
        exact List.getElem_mem hi
      simp [hline, hmem]

/-- A header line is taken apart in the same way whatever stands in the buffer. -/
theorem headerLine_goes_on_reading (h : headerLine line d = .ok (.inl d')) (unread : Str)
    (prev : UInt8) :
    headerLine line (d.reading unread prev) = .ok (.inl (d'.reading unread prev)) := by
  unfold headerLine at h ⊢
  by_cases hline : line = []
  · rw [if_pos hline] at h
    cases h
  · rw [if_neg hline] at h ⊢
    cases hfind : findFrom (· = 61) line 0 with
    | none =>
      rw [hfind] at h
      cases h
    | some i =>
      rw [hfind] at h
      cases h
      simp only [setHeader_reading]

/-- A header line does not touch what the reader of lines keeps. -/
theorem headerLine_keeps (h : headerLine line d = .ok (.inl d')) :
    d'.unread = d.unread ∧ d'.prev = d.prev := by
  have hsame := headerLine_goes_on_reading h d.unread d.prev
  rw [reading_self, h, Outcome.ok.injEq, Sum.inl.injEq] at hsame
  rw [hsame]
  exact ⟨rfl, rfl⟩

theorem headerLine_stops (h : headerLine line d = .ok (.inr d')) : line = [] ∧ d' = d := by
  unfold headerLine at h
  by_cases hline : line = []
  · rw [if_pos hline] at h
    cases h
    exact ⟨hline, rfl⟩
  · rw [if_neg hline] at h
    cases hfind : findFrom (· = 61) line 0 with
    | none =>
      rw [hfind] at h
      cases h
    | some i =>
      rw [hfind] at h
      cases h

theorem headerLine_goes_on_url (h : headerLine line d = .ok (.inl d')) : d'.url = d.url := by
  unfold headerLine at h
  by_cases hline : line = []
  · rw [if_pos hline] at h
    cases h
  · rw [if_neg hline] at h
    cases hfind : findFrom (· = 61) line 0 with
    | none =>
      rw [hfind] at h
      cases h
    | some i =>
      rw [hfind] at h
      cases h
      exact url_setHeader _ _ d

/-- The header lines leave the url as the start line set it. -/
theorem parseHeader_url {w' : World} (hprev : d.prev ≠ 13)
    (h : parseHeaderLoop.run d w = (.ok d', w')) : d'.url = d.url := by
  induction d, w using parseHeaderLoop.run_induction with
  | step d w ih =>
    rw [Loop.run_eq] at h
    obtain ⟨r, w₁, hbody, hrest⟩ := Prog.bind_eq_ok h
    obtain ⟨l, d₁, htook, hok⟩ := parseHeaderBody_took hprev hbody
    have hurl : d₁.url = d.url := by
      rw [htook.object]
      rfl
    cases r with
    | inl d₂ =>
      have hprev₂ : d₂.prev ≠ 13 := by
        rw [(headerLine_keeps hok).2]
        exact htook.prev_ne
      rw [ih d₂ w₁ hbody hprev₂ hrest, headerLine_goes_on_url hok, hurl]
    | inr d₂ =>
      cases hrest
      rw [(headerLine_stops hok).2, hurl]

/-- What `parseData` does after the header. -/
def afterHead (env : Env) (d : HttpData) : Work HttpData :=
  if d.requestMethod = .POST then parseBodyParamData env d else pure d

theorem parseData_eq (env : Env) (d : HttpData) : parseData env d =
    parseStartLine d >>= fun d =>
      if d.Refused then pure d else parseHeader d >>= afterHead env := rfl

end HttpData
end LxcHttpServer
