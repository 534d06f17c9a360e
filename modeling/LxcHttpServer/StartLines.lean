import LxcHttpServer.HeaderFields
import LxcHttpServer.Tokens

/-!
# The lines `parseStartLine` accepts

The parser looks at the words of the line up to its first NUL. It tests the method before it takes
the second and the third word, and it takes them without asking how many there are.
-/
namespace LxcHttpServer
open EffectPrograms CutStreams Strings Separators

/-- What the spaces of a line separate. -/
def words (line : Str) : List Str := runs (· = 32) line

theorem tokens_eq (line : Str) : HttpData.tokens line = words line := by
  have hspace : str " " = [32] := by decide +kernel
  rw [HttpData.tokens, stringSplit_eq, List.nil_append, words, hspace]
  simp

namespace HttpData

variable {env : Env} {fd : ℤ} {d : HttpData} {w : World} {l r : Str} {headerInfo : List Str}

/-- The words of a line with a known method and without a target or a version. -/
def Short (headerInfo : List Str) : Prop := ∃ method rest, headerInfo = method :: rest ∧
  (method = str "GET" ∨ method = str "POST") ∧ rest.length < 2

theorem zero_notMem_method {method : Str} (h : method = str "GET" ∨ method = str "POST") :
    0 ∉ method := by
  rcases h with rfl | rfl <;> decide +kernel

/-- A line with a known method and too few words goes to the words that are not there. -/
theorem startLine_short (hbad : d.badRequest = false) (h : Short headerInfo) :
    startLine headerInfo d = .undefined .outOfBounds := by
  obtain ⟨method, rest, rfl, hmethod, hrest⟩ := h
  unfold startLine
  rw [if_neg (by rw [refused_setRequestMethod hbad, not_not]; exact hmethod)]
  match rest with
  | [] => rfl
  | [_] => rfl
  | _ :: _ :: rest =>
    simp only [List.length_cons] at hrest
    omega

/-- Every other line is accepted or refused. -/
theorem startLine_of_not_short (hbad : d.badRequest = false) (h : ¬ Short headerInfo) :
    ∃ d', startLine headerInfo d = .ok d' := by
  unfold startLine
  by_cases hrefused : (d.setRequestMethod headerInfo).Refused
  · exact ⟨_, if_pos hrefused⟩
  · rw [if_neg hrefused]
    match headerInfo with
    | [] => exact absurd (.inl rfl) hrefused
    | [method] =>
      rw [refused_setRequestMethod hbad, not_not] at hrefused
      exact absurd ⟨method, [], rfl, hrefused, by simp⟩ h
    | [method, target] =>
      rw [refused_setRequestMethod hbad, not_not] at hrefused
      exact absurd ⟨method, [target], rfl, hrefused, by simp⟩ h
    | _ :: _ :: _ :: _ => exact ⟨_, rfl⟩

/-- The words before the third are not changed by what stands behind a NUL. -/
theorem words_of_cString {method target version : Str} {rest : List Str}
    (h : words (cString l) = method :: target :: version :: rest) :
    ∃ version' rest', words l = method :: target :: version' :: rest' := by
  rcases cString_split l with hsame | ⟨more, hl⟩
  · rw [hsame] at h
    exact ⟨version, rest, h⟩
  · obtain ⟨behind, hbehind, hfirst⟩ := runs_append_of_cons h (List.cons_ne_nil target _)
    obtain ⟨behind', hbehind', hsecond⟩ := runs_append_of_cons hbehind (List.cons_ne_nil version _)
    obtain ⟨version', rest', hthird, -⟩ := runs_append_head hbehind' (b := 0) (by decide) more
    refine ⟨version', rest', ?_⟩
    rw [hl, words, hfirst, hsecond, hthird]

/-- A NUL before the third word of an accepted line leaves too few words. -/
theorem accepted_cString (h : Accepted (words l)) (hshort : ¬ Short (words (cString l))) :
    Accepted (words (cString l)) := by
  obtain ⟨method, target, version, rest, hwords, hmethod⟩ := h
  rcases cString_split l with hsame | ⟨more, hl⟩
  · rw [hsame]
    exact ⟨method, target, version, rest, hwords, hmethod⟩
  have hplain := zero_notMem_method hmethod
  cases hcut : words (cString l) with
  | nil =>
    have hwhole : words l = runs (· = 32) ([0] ++ more) := by
      rw [congrArg words hl, words, runs_append_of_nil hcut]
      rfl
    rw [hwhole, runs_append_of_run (by simp) (by simp), List.cons.injEq] at hwords
    rw [← hwords.1] at hplain
    simp at hplain
  | cons method' others =>
    obtain ⟨first, rest', hfirst, hgrown⟩ := runs_append_head hcut (b := 0) (by decide) more
    have hwhole : words l = first :: rest' := by
      rw [congrArg words hl]
      exact hfirst
    rw [hwhole, List.cons.injEq] at hwords
    rw [hwords.1] at hgrown
    have heq : method = method' := hgrown.resolve_right fun h => hplain h.2
    rw [hcut] at hshort
    match others with
    | [] => exact absurd ⟨method', [], rfl, heq ▸ hmethod, by simp⟩ hshort
    | [target'] => exact absurd ⟨method', [target'], rfl, heq ▸ hmethod, by simp⟩ hshort
    | target' :: version' :: others =>
      exact ⟨method', target', version', others, rfl, heq ▸ hmethod⟩

/-- The parser comes to the end of the line. It accepts the line if the first of three words or
more is a method, and then it has the url of the second and the version of the third; otherwise
the request is flagged. -/
def Classifies (env : Env) (fd : ℤ) (w : World) (l : Str) : Prop := ∃ d' w',
  parseStartLine (new env fd) w = (.ok d', w') ∧ (¬ d'.Refused ↔ Accepted (words l)) ∧
    ∀ method target version rest, words l = method :: target :: version :: rest → ¬ d'.Refused →
      d'.url = RESOURCE_ROOT ++ (if target = str "/" then str "/index.html" else target) ∧
        d'.version = version

/-- A line that fits is handed to the rest of the parser. -/
theorem parseStartLine_line (env : Env) (fd : ℤ) (hline : fittingLine (delivered w.recvs) =
    some (l, r)) : ∃ d₁ w₁, d₁.badRequest = false ∧
      parseStartLine (new env fd) w = (startLine (words (cString l)) d₁, w₁) := by
  obtain ⟨d₁, w₁, hcall, htook⟩ := parseOneLine_took (prev_new env fd) (w := w) hline
  refine ⟨d₁, w₁, htook.badRequest, ?_⟩
  rw [parseStartLine_eq, Prog.bind_ok hcall, Prog.ofOutcome_run, tokens_eq]

/-- A line that does not fit is written past the end of `lineBuffer`. -/
theorem parseStartLine_long (env : Env) (fd : ℤ) (hline : nextLine (delivered w.recvs) =
    some (l, r)) (hlong : ¬ l.length + 2 ≤ LINE_BUFFERSIZE) :
    (parseStartLine (new env fd) w).1 = .undefined .outOfBounds := by
  have hnone : fittingLine (delivered w.recvs) = none := by
    rw [fittingLine, hline, Option.filter_some, if_neg (by simpa using hlong)]
  have hlength : LINE_BUFFERSIZE < (delivered w.recvs).length := by
    rw [(nextLine_eq_some.mp hline).1]
    simp only [List.length_append, CRLF, List.length_cons, List.length_nil]
    omega
  have hfails := (failsAt (d := new env fd) (w := w) ⟨rfl, rfl⟩ (prev_new env fd) hnone).outcome
  have hfailure : lineFailure (endOf w.recvs) (delivered w.recvs) = .undefined .outOfBounds := by
    rw [lineFailure, if_pos hlength]
  have hundefined : (parseOneLine (new env fd) w).1 =
      (Outcome.undefined .outOfBounds : Outcome Thrown Undefined Empty).failing :=
    hfails.trans (congrArg Outcome.failing hfailure)
  rw [parseStartLine_eq]
  exact Prog.bind_failing hundefined

/-- A first line is classified by its words exactly if it fits into `lineBuffer`, has the words
that follow its method, and no NUL cuts off its version. -/
theorem classifies_iff (env : Env) (fd : ℤ) (hline : nextLine (delivered w.recvs) = some (l, r)) :
    Classifies env fd w l ↔ l.length + 2 ≤ LINE_BUFFERSIZE ∧ ¬ Short (words (cString l)) ∧
      (Accepted (words (cString l)) → (words (cString l))[2]? = (words l)[2]?) := by
  by_cases hfits : l.length + 2 ≤ LINE_BUFFERSIZE
  swap
  · have hundefined := parseStartLine_long env fd hline hfits
    constructor
    · rintro ⟨d', w', hrun, -⟩
      rw [hrun] at hundefined
      cases hundefined
    · rintro ⟨hfits', -⟩
      exact absurd hfits' hfits
  obtain ⟨d₁, w₁, hbad, hstart⟩ := parseStartLine_line env fd (w := w) (l := l) (r := r) (by
    rw [fittingLine, hline, Option.filter_some, if_pos (by simpa using hfits)])
  constructor
  · rintro ⟨d', w', hrun, -, hfields⟩
    rw [hstart] at hrun
    have hok : startLine (words (cString l)) d₁ = .ok d' := congrArg Prod.fst hrun
    refine ⟨hfits, ?_, ?_⟩
    · intro hshort
      rw [startLine_short hbad hshort] at hok
      cases hok
    · rintro ⟨method, target, version, rest, hwords, hmethod⟩
      obtain ⟨version', rest', hwhole⟩ := words_of_cString hwords
      rw [hwords, startLine_accepted hbad hmethod] at hok
      cases hok
      have hgoes : ¬ ((d₁.setRequestMethod (method :: target :: version :: rest)).withTarget target
          version).Refused := by
        rw [refused_withTarget, refused_setRequestMethod hbad, not_not]
        exact hmethod
      have hversion := (hfields method target version' rest' hwhole hgoes).2
      have hkept : version = version' := hversion
      rw [hwords, hwhole, hkept]
      rfl
  · rintro ⟨-, hshort, hversion⟩
    obtain ⟨d', hok⟩ := startLine_of_not_short hbad hshort
    have hgoes : ¬ d'.Refused ↔ Accepted (words (cString l)) := by
      rw [← startLine_not_refused hbad, hok]
      simp
    rw [hok] at hstart
    refine ⟨d', w₁, hstart, ?_, ?_⟩
    · rw [hgoes]
      constructor
      · rintro ⟨method, target, version, rest, hwords, hmethod⟩
        obtain ⟨version', rest', hwhole⟩ := words_of_cString hwords
        exact ⟨method, target, version', rest', hwhole, hmethod⟩
      · intro haccepted
        exact accepted_cString haccepted hshort
    · intro method target version rest hwhole hnot
      have haccepted := hgoes.mp hnot
      have hthird := hversion haccepted
      obtain ⟨method', target', version', rest', hwords, hmethod⟩ := haccepted
      obtain ⟨version'', rest'', hwhole'⟩ := words_of_cString hwords
      rw [hwords, hwhole] at hthird
      rw [hwhole] at hwhole'
      rw [hwords, startLine_accepted hbad hmethod] at hok
      cases hok
      simp only [List.cons.injEq] at hwhole'
      obtain ⟨-, rfl, -, -⟩ := hwhole'
      exact ⟨rfl, Option.some.inj hthird⟩

theorem classifies_plainGet :
    nextLine (delivered [.data plainGet]) = some (str "GET / HTTP/1.1", CRLF) ∧
      (Classifies calmEnv 5 (firstClient 5 [.data plainGet]) (str "GET / HTTP/1.1") ↔
        (str "GET / HTTP/1.1").length + 2 ≤ LINE_BUFFERSIZE ∧
          ¬ Short (words (cString (str "GET / HTTP/1.1"))) ∧
          (Accepted (words (cString (str "GET / HTTP/1.1"))) →
            (words (cString (str "GET / HTTP/1.1")))[2]? =
              (words (str "GET / HTTP/1.1"))[2]?)) := by
  have hline : nextLine (delivered [.data plainGet]) = some (str "GET / HTTP/1.1", CRLF) := by
    decide +kernel
  exact ⟨hline, classifies_iff calmEnv 5 hline⟩

/-- `GET` alone on its line. -/
def bareGet : Chunk where
  bytes := str "GET\r\n"
  nonempty := by decide +kernel
  fits := by decide +kernel

/-- The parser takes the second of one words. -/
theorem not_classifies :
    nextLine (delivered [.data bareGet]) = some (str "GET", []) ∧
      (parseStartLine (new calmEnv 5) (firstClient 5 [.data bareGet])).1 =
        .undefined .outOfBounds ∧
      ¬ Classifies calmEnv 5 (firstClient 5 [.data bareGet]) (str "GET") := by
  have hline : nextLine (delivered [.data bareGet]) = some (str "GET", []) := by decide +kernel
  have hfits : fittingLine (delivered (firstClient 5 [.data bareGet]).recvs) =
      some (str "GET", []) := by decide +kernel
  obtain ⟨d₁, w₁, hbad, hstart⟩ := parseStartLine_line calmEnv 5 hfits
  have hwords : words (cString (str "GET")) = [str "GET"] := by decide +kernel
  have hundefined : parseStartLine (new calmEnv 5) (firstClient 5 [.data bareGet]) =
      (.undefined .outOfBounds, w₁) := by
    rw [hstart, hwords, startLine_short hbad ⟨str "GET", [], rfl, .inl rfl, by simp⟩]
  refine ⟨hline, by rw [hundefined], ?_⟩
  rintro ⟨d', w', hrun, -⟩
  rw [hundefined] at hrun
  cases hrun

def requestLine (method target version : Str) : Str :=
  method ++ str " " ++ target ++ str " " ++ version

/-- The two requests, accepted, name the same resource of the same type. -/
def SameResource (method target target' version : Str) : Prop :=
  ∀ env fd w₁ w₂ rest₁ rest₂ d₁ d₂ w₁' w₂',
    delivered w₁.recvs = requestLine method target version ++ CRLF ++ rest₁ →
    delivered w₂.recvs = requestLine method target' version ++ CRLF ++ rest₂ →
    parseStartLine (new env fd) w₁ = (.ok d₁, w₁') → ¬ d₁.Refused →
    parseStartLine (new env fd) w₂ = (.ok d₂, w₂') → ¬ d₂.Refused →
    d₁.url = d₂.url ∧ d₁.urlResourceType = d₂.urlResourceType

/-- The target is split at its first `?` into the url and the parameters. -/
structure SplitsTarget (target : Str) : Prop where
  split : ∀ (d : HttpData) (w : World) (path query : Str), d.url = target →
    target = path ++ 63 :: query → 63 ∉ path → ∃ d' m,
      parseUrlDataParamList d w = (.ok d', w) ∧ d'.url = path ∧ d'.clientParamData = some m ∧
        ∀ k v, k ++ 61 :: v ∈ query.splitOn 38 → 61 ∉ k → k ∈ m
  plain : ∀ (d : HttpData) (w : World), d.url = target → 63 ∉ target → ∃ d',
    parseUrlDataParamList d w = (.ok d', w) ∧ d'.url = d.url ∧
      d'.clientParamData = d.clientParamData
  resource : ∀ path query, target = path ++ 63 :: query → 63 ∉ path → ∀ method version,
    SameResource method target path version

/-- A target is split as it should be exactly if there is nothing to split. -/
theorem splits_target_iff (target : Str) : SplitsTarget target ↔ 63 ∉ target := by
  constructor
  · intro h hmem
    obtain ⟨path, query, hsplit, hpath⟩ := List.eq_append_cons_of_mem hmem
    obtain ⟨d', m, hrun, hurl, -⟩ := h.split { new calmEnv 0 with url := target } (firstClient 0 [])
      path query rfl hsplit hpath
    rw [parseUrlDataParamList_eq] at hrun
    cases hrun
    have hlength := congrArg List.length (hurl.symm.trans hsplit)
    simp only [List.length_append, List.length_cons] at hlength
    omega
  · intro hplain
    refine ⟨?_, ?_, ?_⟩
    · rintro d w path query - rfl -
      simp at hplain
    · rintro d w - -
      exact ⟨d, by rw [parseUrlDataParamList_eq]; rfl, rfl, rfl⟩
    · rintro path query rfl -
      simp at hplain

/-- An accepted line gives the request its url. -/
theorem parseStartLine_url {method target version : Str} {rest : List Str} (env : Env) (fd : ℤ)
    (hline : fittingLine (delivered w.recvs) = some (l, r))
    (hwords : words (cString l) = method :: target :: version :: rest)
    (hmethod : method = str "GET" ∨ method = str "POST") : ∃ d' w',
      parseStartLine (new env fd) w = (.ok d', w') ∧ ¬ d'.Refused ∧
        d'.url = RESOURCE_ROOT ++ if target = str "/" then str "/index.html" else target := by
  obtain ⟨d₁, w₁, hbad, hstart⟩ := parseStartLine_line env fd hline
  rw [hwords, startLine_accepted hbad hmethod] at hstart
  refine ⟨_, w₁, hstart, ?_, rfl⟩
  rw [refused_withTarget, refused_setRequestMethod hbad, not_not]
  exact hmethod

/-- A request for `/index.html` with a query, and one without. -/
def queryGet : Chunk where
  bytes := requestLine (str "GET") (str "/index.html?a=1") (str "HTTP/1.1") ++ CRLF
  nonempty := by decide +kernel
  fits := by decide +kernel

def pathGet : Chunk where
  bytes := requestLine (str "GET") (str "/index.html") (str "HTTP/1.1") ++ CRLF
  nonempty := by decide +kernel
  fits := by decide +kernel

/-- The query stays in the name of the file, and in its type. -/
theorem not_splits_target : ¬ SplitsTarget (str "/index.html?a=1") := by
  intro h
  have hquery : fittingLine (delivered (firstClient 5 [.data queryGet]).recvs) =
      some (str "GET /index.html?a=1 HTTP/1.1", []) := by decide +kernel
  have hpath : fittingLine (delivered (firstClient 5 [.data pathGet]).recvs) =
      some (str "GET /index.html HTTP/1.1", []) := by decide +kernel
  have hwords₁ : words (cString (str "GET /index.html?a=1 HTTP/1.1")) =
      [str "GET", str "/index.html?a=1", str "HTTP/1.1"] := by decide +kernel
  have hwords₂ : words (cString (str "GET /index.html HTTP/1.1")) =
      [str "GET", str "/index.html", str "HTTP/1.1"] := by decide +kernel
  obtain ⟨d₁, w₁, hrun₁, hgoes₁, hurl₁⟩ :=
    parseStartLine_url calmEnv 5 hquery hwords₁ (.inl rfl)
  obtain ⟨d₂, w₂, hrun₂, hgoes₂, hurl₂⟩ :=
    parseStartLine_url calmEnv 5 hpath hwords₂ (.inl rfl)
  have hsame := h.resource (str "/index.html") (str "a=1") (by decide +kernel) (by decide +kernel)
    (str "GET") (str "HTTP/1.1") calmEnv 5 _ _ [] [] d₁ d₂ w₁ w₂ (by decide +kernel)
    (by decide +kernel) hrun₁ hgoes₁ hrun₂ hgoes₂
  have hurl := hsame.1
  rw [hurl₁, hurl₂] at hurl
  revert hurl
  decide +kernel

end HttpData
end LxcHttpServer
