import LxcHttpServer.HeaderFields
import LxcHttpServer.RequestSequences
import Mathlib.Data.List.TakeWhile

/-!
# The bytes of a body

Up to the string it hands to the parser of parameters, `parseBodyParamData` makes an array for the
length the header gives and copies the body into it. The copying starts from what stands in the
buffer of the object behind the header, and it asks whether it is done only after a byte.
-/
namespace LxcHttpServer
open EffectPrograms CutStreams Separators Strings

/-- A chunk of what `recv` delivers ends with the head of the request. -/
def CutBehindHead (rs : List RecvResult) : Prop := ∃ before after,
  chunksOf rs = before ++ after ∧ before.flatten.length = headLength (delivered rs)

namespace HttpData

variable {env : Env} {fd : ℤ} {d d₁ d₂ : HttpData} {w w₁ w₂ w₃ : World} {body rest : Str} {n : ℕ}

/-- The length, and an array for it. -/
def allocateBody (env : Env) (d : HttpData) : Work ℤ := do
  let contentLength ← numeralContentLength d
  if contentLength + 2 > INT_MAX then Prog.undefined .overflow
  else do
    Work.newArray env (contentLength + 2)
    pure contentLength

/-- The string in the array after the loop, with its `&`. -/
def fillBody (env : Env) (d : HttpData) (contentLength : ℤ) : Work (Str × HttpData) := do
  let (data, d) ← (parseBodyLoop contentLength).run ([], d)
  if contentLength < 0 then Prog.undefined .outOfBounds
  else pure (bodyString env contentLength data, d)

def readBody (env : Env) (d : HttpData) : Work (Str × HttpData) :=
  allocateBody env d >>= fillBody env d

theorem fillBody_parse (env : Env) (d : HttpData) (contentLength : ℤ) :
    ((parseBodyLoop contentLength).run ([], d) >>= finishBody env contentLength : Work HttpData) =
      fillBody env d contentLength >>= fun p =>
        parseStringParamTo_htable_clientParamData p.1 p.2 := by
  funext w
  change Prog.bind _ _ w = Prog.bind (Prog.bind _ _) _ w
  cases hrun : (parseBodyLoop contentLength).run ([], d) w with
  | mk o w' =>
    simp only [Prog.bind, hrun]
    cases o with
    | ok p =>
      simp only [finishBody]
      split_ifs <;> rfl
    | throw e => rfl
    | undefined u => rfl
    | blocked => rfl
    | killed => rfl

theorem parseBodyParamData_eq (env : Env) (d : HttpData) : parseBodyParamData env d =
    readBody env d >>= fun p => parseStringParamTo_htable_clientParamData p.1 p.2 := by
  rw [readBody, Prog.bind_assoc, allocateBody, Prog.bind_assoc, parseBodyParamData]
  congr 1
  funext contentLength
  by_cases hoverflow : contentLength + 2 > INT_MAX
  · simp only [if_pos hoverflow]
    rfl
  · simp only [if_neg hoverflow]
    rw [Prog.bind_assoc]
    congr 1
    funext _
    exact fillBody_parse env d contentLength

/-- A length that was found is the number behind the first space of the line. -/
theorem numeralContentLength_eq_ok {k : ℤ} (h : numeralContentLength d w = (.ok k, w₁)) :
    ∃ line i, d.contentLength = some line ∧ findFrom (· = 32) line 0 = some i ∧
      stoi (line.drop (i + 1)) = .ok k ∧ w₁ = w.record (.stoi (line.drop (i + 1))) := by
  cases hline : d.contentLength with
  | none => simp [numeralContentLength, hline] at h
  | some line =>
    cases hfind : findFrom (· = 32) line 0 with
    | none => simp [numeralContentLength, hline, hfind] at h
    | some i =>
      cases hstoi : stoi (line.drop (i + 1)) with
      | error t => simp [numeralContentLength, hline, hfind, Work.stoi, hstoi] at h
      | ok number =>
        simp only [numeralContentLength, hline, hfind, Work.stoi, hstoi] at h
        cases h
        exact ⟨line, i, rfl, hfind, hstoi, rfl⟩

/-- A request with a method is not flagged. -/
theorem not_refused_of_post (hstart : parseStartLine (new env fd) w = (.ok d₁, w₁))
    (hpost : d₁.requestMethod = .POST) : ¬ d₁.Refused := by
  obtain ⟨l, e, htook, hok⟩ := parseStartLine_took (prev_new env fd) hstart
  have hbad : e.badRequest = false := htook.badRequest
  unfold startLine at hok
  by_cases hflagged : (e.setRequestMethod (tokens (cString l))).Refused
  · rw [if_pos hflagged] at hok
    cases hok
    cases htokens : tokens (cString l) with
    | nil =>
      rw [htokens] at hpost
      cases hpost
    | cons method more =>
      rw [htokens, refused_setRequestMethod hbad, not_or] at hflagged
      rw [htokens, setRequestMethod, if_neg hflagged.1, if_neg hflagged.2] at hpost
      cases hpost
  · rw [if_neg hflagged] at hok
    split at hok
    · cases hok
      rw [refused_withTarget]
      exact hflagged
    · cases hok

/-- Behind the header the object has taken the head of the request. -/
theorem place_behind_head (hstart : parseStartLine (new env fd) w = (.ok d₁, w₁))
    (hgoes : ¬ d₁.Refused) (hheader : parseHeader d₁ w₁ = (.ok d₂, w₂)) :
    cutOf d₂ w₂ = (cutOf (new env fd) w).advance (headLength (delivered w.recvs)) ∧
      headLength (delivered w.recvs) ≤ (delivered w.recvs).length := by
  have hc : (cutOf (new env fd) w).stream = delivered w.recvs ++ [] := (List.append_nil _).symm
  obtain ⟨l, e₁, v₁, hne, hline, hstart₂, hfollows⟩ :=
    parseStartLine_follows hc (Follows.new env fd w w) rfl hstart hgoes
  rw [hstart] at hstart₂
  cases hstart₂
  obtain ⟨e₂, v₂, hheader₂, hfollows₂⟩ := parseHeader_follows hc hfollows hheader
  have hsame : parseHeaderLoop.run d₁ w₁ = (.ok d₂, w₂) := hheader
  rw [hsame] at hheader₂
  cases hheader₂
  rw [List.drop_zero] at hline
  rw [Nat.zero_add] at hfollows₂ hline
  rw [headLength_line hline, if_neg hne]
  exact ⟨hfollows₂.place, hfollows₂.inside⟩

/-- The buffer is empty there exactly if a chunk ends with the head. -/
theorem unread_behind_head (hstart : parseStartLine (new env fd) w = (.ok d₁, w₁))
    (hgoes : ¬ d₁.Refused) (hheader : parseHeader d₁ w₁ = (.ok d₂, w₂)) :
    d₂.unread = [] ↔ CutBehindHead w.recvs := by
  obtain ⟨hplace, hinside⟩ := place_behind_head hstart hgoes hheader
  have hunread : d₂.unread =
      ((cutOf (new env fd) w).advance (headLength (delivered w.recvs))).buffer :=
    congrArg Cut.buffer hplace
  rw [hunread, buffer_new_eq_nil env w hinside, CutBehindHead]

/-- The body is taken from the stream and nothing else, and the parser of parameters gets it with
a `&` behind it. No byte is written outside the array. -/
def ReadsBody (env : Env) (body rest : Str) (d : HttpData) (w : World) : Prop := ∃ d' w',
  readBody env d w = (.ok (body ++ [38], d'), w') ∧ (cutOf d' w').stream = rest ∧
    parseBodyParamData env d w =
      parseStringParamTo_htable_clientParamData (body ++ [38]) d' w'

/-- An array for the length is made if `int` holds its size and there is memory. -/
theorem allocateBody_ok {k : ℤ} (hlength : numeralContentLength d w = (.ok k, w₁))
    (hsize : k + 2 ≤ INT_MAX) (hpos : 0 ≤ k + 2) (hmemory : env.newArray w₁.calls.length = true) :
    allocateBody env d w = (.ok k, w₁.record (.newArray (k + 2) true)) := by
  rw [allocateBody, Prog.bind_ok hlength, if_neg (not_lt.mpr hsize), Prog.bind_run]
  simp only [Work.newArray, hmemory, if_neg (not_lt.mpr hpos)]
  rfl

/-- Otherwise `new` throws. -/
theorem allocateBody_no_memory {k : ℤ} (hlength : numeralContentLength d w = (.ok k, w₁))
    (hsize : k + 2 ≤ INT_MAX) (hmemory : k + 2 < 0 ∨ env.newArray w₁.calls.length = false) :
    ∃ t, (allocateBody env d w).1 = .throw t ∧ t.isStdException = true := by
  rw [allocateBody, Prog.bind_ok hlength, if_neg (not_lt.mpr hsize), Prog.bind_run]
  by_cases hneg : k + 2 < 0
  · simp only [Work.newArray, if_pos hneg]
    exact ⟨.badArrayNewLength, rfl, rfl⟩
  · simp only [Work.newArray, if_neg hneg, hmemory.resolve_left hneg]
    exact ⟨.badAlloc, rfl, rfl⟩

theorem allocateBody_eq_ok {k' k : ℤ} (hlength : numeralContentLength d w = (.ok k, w₁))
    (h : allocateBody env d w = (.ok k', w₂)) : k + 2 ≤ INT_MAX ∧ 0 ≤ k + 2 ∧
      env.newArray w₁.calls.length = true ∧ k' = k ∧ w₂ = w₁.record (.newArray (k + 2) true) := by
  have hsize : k + 2 ≤ INT_MAX := by
    by_contra hlarge
    rw [allocateBody, Prog.bind_ok hlength, if_pos (not_le.mp hlarge)] at h
    cases h
  have hmade : 0 ≤ k + 2 ∧ env.newArray w₁.calls.length = true := by
    by_contra hnot
    have hthrows : k + 2 < 0 ∨ env.newArray w₁.calls.length = false := by
      by_cases hneg : k + 2 < 0
      · exact .inl hneg
      · exact .inr (Bool.eq_false_iff.mpr fun htrue => hnot ⟨not_lt.mp hneg, htrue⟩)
    obtain ⟨t, ht, -⟩ := allocateBody_no_memory hlength hsize hthrows
    rw [h] at ht
    cases ht
  have hok := allocateBody_ok hlength hsize hmade.1 hmade.2
  rw [h] at hok
  cases hok
  exact ⟨hsize, hmade.1, hmade.2, rfl, rfl⟩

/-- The string that is taken apart into parameters is shorter than the largest `int`, so the
cursors into it are numbers of that type. -/
theorem readBody_length {s : Str} (h : readBody env d w = (.ok (s, d₁), w₁)) :
    (s.length : ℤ) < INT_MAX := by
  obtain ⟨k, v, hallocate, hfill⟩ := Prog.bind_eq_ok h
  obtain ⟨k', u, hnumber, -⟩ := Prog.bind_eq_ok hallocate
  obtain ⟨hsize, -, -, rfl, -⟩ := allocateBody_eq_ok hnumber hallocate
  obtain ⟨⟨data, e⟩, v', hloop, hpure⟩ := Prog.bind_eq_ok hfill
  by_cases hneg : k < 0
  · simp [hneg] at hpure
  have hdata : (data.length : ℤ) ≤ k := by
    by_cases hunread : d.unread = []
    · rw [parseBodyLoop_empty hunread] at hloop
      cases hloop
      simpa using hneg
    · obtain ⟨-, -, -, hlength, -⟩ := parseBodyLoop_eq_ok hloop hunread
      exact hlength.le
  simp only [if_neg hneg, Prog.pure_run, Prod.mk.injEq, Outcome.ok.injEq] at hpure
  obtain ⟨⟨rfl, -⟩, -⟩ := hpure
  have hstring : (bodyString env k data).length ≤ data.length + (k.toNat - data.length) + 1 := by
    apply (List.takeWhile_prefix _).length_le.trans
    simp [Nat.add_assoc]
  omega

/-- The array holds the body, and the `&` behind it. -/
theorem bodyString_full (env : Env) (hbody : body.length = n) :
    bodyString env n body = cString (body ++ [38]) := by
  simp only [bodyString, hbody, Int.toNat_natCast, Nat.sub_self, List.range'_zero, List.map_nil,
    List.append_nil]

/-- The loop is not entered without bytes in the buffer. -/
theorem fillBody_empty (env : Env) (n : ℕ) (hunread : d.unread = []) (w : World) :
    fillBody env d n w = (.ok (bodyString env n [], d), w) := by
  have hnat : ¬ (n : ℤ) < 0 := by omega
  have hloop : (parseBodyLoop n).run ([], d) w = (.ok ([], d), w) := parseBodyLoop_empty hunread
  rw [fillBody, Prog.bind_ok hloop]
  simp only [if_neg hnat]
  rfl

/-- Where the buffer holds bytes and the stream the whole body, the loop copies it. -/
theorem fillBody_copies (env : Env) (hn : n ≠ 0) (hunread : d.unread ≠ [])
    (hstream : (cutOf d w).stream = body ++ rest) (hbody : body.length = n) : ∃ d' w',
      fillBody env d n w = (.ok (cString (body ++ [38]), d'), w') ∧
        (cutOf d' w').stream = rest := by
  have hnat : ¬ (n : ℤ) < 0 := by omega
  have hbuffer : (cutOf d w).buffer ≠ [] := hunread
  have hload : StandsAt (cutOf d w).load (endOf w.recvs) d w :=
    ⟨(Cut.load_of_buffer hbuffer).symm, rfl⟩
  have hne : body ≠ [] := fun hnil => hn (by rw [← hbody, hnil]; rfl)
  have hsum : ((([] : Str).length : ℕ) : ℤ) + body.length = n := by rw [hbody]; simp
  obtain ⟨w', hloop, hat⟩ := parseBodyLoop_ok body hload hstream hne hsum
  refine ⟨_, w', ?_, by rw [hat.cut, Cut.stream_advance, hstream, List.drop_left]⟩
  rw [fillBody, Prog.bind_ok hloop]
  simp only [if_neg hnat, List.nil_append]
  rw [bodyString_full env hbody]
  rfl

/-- The loop copies the body exactly if it starts with bytes in the buffer, or without any
if there are none. -/
theorem fillBody_iff (hstream : (cutOf d w).stream = body ++ rest) (hbody : body.length = n)
    (hzero : 0 ∉ body) :
    (∃ d' w', fillBody env d n w = (.ok (body ++ [38], d'), w') ∧ (cutOf d' w').stream = rest) ↔
      (n = 0 ↔ d.unread = []) := by
  have hnat : ¬ (n : ℤ) < 0 := by omega
  have hwhole : cString (body ++ [38]) = body ++ [38] :=
    cString_eq_self_iff.mpr (by simp [hzero])
  constructor
  · rintro ⟨d', w', hrun, hrest⟩
    obtain ⟨⟨data, e⟩, v, hloop, hpure⟩ := Prog.bind_eq_ok hrun
    simp only [if_neg hnat, Prog.pure_run, Prod.mk.injEq, Outcome.ok.injEq] at hpure
    obtain ⟨⟨-, rfl⟩, rfl⟩ := hpure
    constructor
    · intro hn
      by_contra hunread
      obtain ⟨t, ht, hdata, hlength, -⟩ := parseBodyLoop_eq_ok hloop hunread
      rw [hn, hdata] at hlength
      exact ht (List.eq_nil_of_length_eq_zero (by simpa using hlength))
    · intro hunread
      rw [parseBodyLoop_empty hunread] at hloop
      cases hloop
      rw [hrest] at hstream
      rw [← hbody, List.append_left_eq_self.mp hstream.symm]
      rfl
  · intro hiff
    by_cases hn : n = 0
    · obtain rfl : body = [] := List.eq_nil_of_length_eq_zero (hbody.trans hn)
      refine ⟨d, w, ?_, hstream⟩
      rw [fillBody_empty env n (hiff.mp hn), bodyString_full env hbody, hwhole]
    · have hunread : d.unread ≠ [] := fun hempty => hn (hiff.mpr hempty)
      rw [← hwhole]
      exact fillBody_copies env hn hunread hstream hbody

/-- The body of a `POST` is read exactly if `int` holds the size of the array, there is memory for
it, and a chunk ends with the head if there is no body and only then. -/
theorem reads_body_iff (hstart : parseStartLine (new env fd) w = (.ok d₁, w₁))
    (hpost : d₁.requestMethod = .POST) (hheader : parseHeader d₁ w₁ = (.ok d₂, w₂))
    (hlength : numeralContentLength d₂ w₂ = (.ok (n : ℤ), w₃))
    (hstream : (cutOf d₂ w₂).stream = body ++ rest) (hbody : body.length = n) (hzero : 0 ∉ body) :
    ReadsBody env body rest d₂ w₂ ↔ (n : ℤ) + 2 ≤ INT_MAX ∧
      env.newArray w₃.calls.length = true ∧ (n = 0 ↔ CutBehindHead w.recvs) := by
  have hgoes := not_refused_of_post hstart hpost
  have hrecvs : w₃.recvs = w₂.recvs := by
    obtain ⟨line, i, -, -, -, rfl⟩ := numeralContentLength_eq_ok hlength
    rfl
  have hstream₃ : ∀ size, (cutOf d₂ (w₃.record (.newArray size true))).stream = body ++ rest := by
    intro size
    rw [← hstream]
    simp only [cutOf, World.recvs_record, hrecvs]
  have hfill : ∀ size, (∃ d' w', fillBody env d₂ n (w₃.record (.newArray size true)) =
      (.ok (body ++ [38], d'), w') ∧ (cutOf d' w').stream = rest) ↔ (n = 0 ↔ d₂.unread = []) :=
    fun size => fillBody_iff (hstream₃ size) hbody hzero
  rw [unread_behind_head hstart hgoes hheader] at hfill
  constructor
  · rintro ⟨d', w', hrun, hrest, -⟩
    obtain ⟨k, v, hallocate, hfilled⟩ := Prog.bind_eq_ok hrun
    obtain ⟨hsize, -, hmemory, rfl, rfl⟩ := allocateBody_eq_ok hlength hallocate
    exact ⟨hsize, hmemory, (hfill _).mp ⟨d', w', hfilled, hrest⟩⟩
  · rintro ⟨hsize, hmemory, hcut⟩
    obtain ⟨d', w', hfilled, hrest⟩ := (hfill _).mpr hcut
    have hrun : readBody env d₂ w₂ = (.ok (body ++ [38], d'), w') := by
      have hpos : 0 ≤ (n : ℤ) + 2 := by omega
      rw [readBody, Prog.bind_ok (allocateBody_ok hlength hsize hpos hmemory), hfilled]
    refine ⟨d', w', hrun, hrest, ?_⟩
    rw [parseBodyParamData_eq, Prog.bind_ok hrun]

def postHead : Chunk where
  bytes := str "POST / HTTP/1.1\r\nContent-Length= 3\r\n\r\n"
  nonempty := by decide +kernel
  fits := by decide +kernel

def postBody : Chunk where
  bytes := str "a=1"
  nonempty := by decide +kernel
  fits := by decide +kernel

def postWhole : Chunk where
  bytes := postHead.bytes ++ postBody.bytes
  nonempty := by decide +kernel
  fits := by decide +kernel

/-- The body of the request stands behind its head. -/
structure PostBehindHead (w : World) (d₁ : HttpData) (w₁ : World) (d₂ : HttpData) (w₂ w₃ : World) :
    Prop where
  start : parseStartLine (new calmEnv 5) w = (.ok d₁, w₁)
  post : d₁.requestMethod = .POST
  header : parseHeader d₁ w₁ = (.ok d₂, w₂)
  length : numeralContentLength d₂ w₂ = (.ok ((3 : ℕ) : ℤ), w₃)
  stream : (cutOf d₂ w₂).stream = postBody.bytes ++ []

/-- The stages, executed. -/
def postStages (w : World) (check : HttpData → World → Bool) : Bool :=
  returns (fun d₁ w₁ => returns (fun d₂ w₂ => returns (fun k _ =>
      decide (d₁.requestMethod = .POST ∧ k = 3 ∧
        (cutOf d₂ w₂).stream = postBody.bytes ++ [] ∧ check d₂ w₂ = true))
    (numeralContentLength d₂ w₂)) (parseHeader d₁ w₁)) (parseStartLine (new calmEnv 5) w)

theorem post_behind_head {check : HttpData → World → Bool} (h : postStages w check = true) :
    ∃ d₁ w₁ d₂ w₂ w₃, PostBehindHead w d₁ w₁ d₂ w₂ w₃ ∧ check d₂ w₂ = true := by
  obtain ⟨d₁, w₁, hstart, h⟩ := returns_eq_true h
  obtain ⟨d₂, w₂, hheader, h⟩ := returns_eq_true h
  obtain ⟨k, w₃, hlength, h⟩ := returns_eq_true h
  obtain ⟨hpost, rfl, hstream, hcheck⟩ := of_decide_eq_true h
  exact ⟨d₁, w₁, d₂, w₂, w₃, ⟨hstart, hpost, hheader, hlength, hstream⟩, hcheck⟩

theorem reads_body_postWhole : ∃ d₁ w₁ d₂ w₂ w₃,
    PostBehindHead (firstClient 5 [.data postWhole]) d₁ w₁ d₂ w₂ w₃ ∧
      (ReadsBody calmEnv postBody.bytes [] d₂ w₂ ↔ ((3 : ℕ) : ℤ) + 2 ≤ INT_MAX ∧
        calmEnv.newArray w₃.calls.length = true ∧
        (3 = 0 ↔ CutBehindHead (firstClient 5 [.data postWhole]).recvs)) := by
  have hstages : postStages (firstClient 5 [.data postWhole]) (fun _ _ => true) = true := by
    decide +kernel
  obtain ⟨d₁, w₁, d₂, w₂, w₃, h, -⟩ := post_behind_head hstages
  exact ⟨d₁, w₁, d₂, w₂, w₃, h, reads_body_iff h.start h.post h.header h.length h.stream
    (by decide +kernel) (by decide +kernel)⟩

/-- A body that comes in a chunk of its own is not read. -/
theorem not_reads_body : ∃ d₁ w₁ d₂ w₂ w₃,
    PostBehindHead (firstClient 5 [.data postHead, .data postBody]) d₁ w₁ d₂ w₂ w₃ ∧
      ¬ ReadsBody calmEnv postBody.bytes [] d₂ w₂ := by
  have hstages : postStages (firstClient 5 [.data postHead, .data postBody]) (fun d w =>
      returns (fun p _ => decide (p.1 = [])) (readBody calmEnv d w)) = true := by
    decide +kernel
  obtain ⟨d₁, w₁, d₂, w₂, w₃, h, hcheck⟩ := post_behind_head hstages
  refine ⟨d₁, w₁, d₂, w₂, w₃, h, ?_⟩
  rintro ⟨d', w', hrun, -⟩
  rw [hrun] at hcheck
  simp [returns] at hcheck

end HttpData
end LxcHttpServer
