import LxcHttpServer.RequestFields

/-!
# The body of a `POST`

The loop of `parseBodyParamData` takes as many bytes as the content length says, if the
buffer is not empty when it starts. With an empty buffer it takes none.
-/
namespace LxcHttpServer
open EffectPrograms CutStreams Strings

namespace HttpData

variable {c : Cut UInt8} {e : StreamEnd} {d d' : HttpData} {w w' : World} {data s t : Str}
  {b : UInt8} {contentLength : ℤ}

/-- A byte that does not end the body and is not the last of the stream. -/
theorem parseBodyBody_round (h : StandsAt c.load e d w) (hc : c.stream = b :: s) (hs : s ≠ [])
    (hroom : (data.length : ℤ) < contentLength + 2)
    (hmore : (data.length : ℤ) + 1 ≠ contentLength) :
    ∃ w', parseBodyBody contentLength (data, d) w =
        (.ok (.inl (data ++ [b], d.reading c.next.load.buffer d.prev)), w') ∧
      StandsAt c.next.load e (d.reading c.next.load.buffer d.prev) w' := by
  obtain ⟨hunread, hstream, hat⟩ := unread_of_load h hc d.prev
  obtain ⟨w', hrefill, hload⟩ := refill_ok hat (by rwa [hstream])
  refine ⟨w', ?_, hload⟩
  simp only [parseBodyBody, hunread]
  rw [if_neg (not_le.mpr hroom), if_neg hmore]
  exact Prog.bind_ok hrefill

/-- The last byte of the stream, if it does not end the body. -/
theorem parseBodyBody_end (h : StandsAt c.load e d w) (hc : c.stream = [b])
    (hroom : (data.length : ℤ) < contentLength + 2)
    (hmore : (data.length : ℤ) + 1 ≠ contentLength) :
    (parseBodyBody contentLength (data, d) w).1 = e.failure.failing := by
  obtain ⟨hunread, hstream, hat⟩ := unread_of_load h hc d.prev
  simp only [parseBodyBody, hunread]
  rw [if_neg (not_le.mpr hroom), if_neg hmore]
  exact Prog.bind_failing (refill_end hat hstream)

theorem parseBodyBody_full (h : StandsAt c.load e d w) (hc : c.stream = b :: s)
    (hfull : contentLength + 2 ≤ (data.length : ℤ)) :
    (parseBodyBody contentLength (data, d) w).1 = .undefined .outOfBounds := by
  obtain ⟨hunread, -, -⟩ := unread_of_load h hc d.prev
  simp only [parseBodyBody, hunread]
  rw [if_pos hfull]
  rfl

theorem parseBodyBody_leave (h : StandsAt c.load e d w) (hc : c.stream = b :: s)
    (hlength : (data.length : ℤ) + 1 = contentLength) :
    parseBodyBody contentLength (data, d) w =
        (.ok (.inr (data ++ [b], d.reading c.next.buffer d.prev)), w) ∧
      StandsAt c.next e (d.reading c.next.buffer d.prev) w := by
  obtain ⟨hunread, -, hat⟩ := unread_of_load h hc d.prev
  refine ⟨?_, hat⟩
  simp only [parseBodyBody, hunread]
  rw [if_neg (by omega), if_pos hlength]
  rfl

/-- The bytes of the body are taken, and nothing else. -/
theorem parseBodyLoop_ok (t : Str) (h : StandsAt c.load e d w) (hc : c.stream = t ++ s)
    (ht : t ≠ []) (hlength : (data.length : ℤ) + t.length = contentLength) :
    ∃ w', (parseBodyLoop contentLength).run (data, d) w =
        (.ok (data ++ t, d.reading (c.advance t.length).buffer d.prev), w') ∧
      StandsAt (c.advance t.length) e (d.reading (c.advance t.length).buffer d.prev) w' := by
  induction t generalizing c d w data with
  | nil => exact absurd rfl ht
  | cons b t ih =>
    rw [List.length_cons] at hlength
    cases t with
    | nil =>
      obtain ⟨hleave, hat⟩ := parseBodyBody_leave h hc (by simpa using hlength)
      exact ⟨w, Loop.run_of_leave (l := parseBodyLoop contentLength) hleave, hat⟩
    | cons b' t =>
      have hmore : (data.length : ℤ) + 1 < contentLength := by
        rw [List.length_cons] at hlength
        omega
      obtain ⟨w₁, hround, hload⟩ := parseBodyBody_round h hc (by simp) (by omega) hmore.ne
      have hstream : c.next.stream = b' :: t ++ s := by rw [Cut.stream_next, hc]; rfl
      have hlength₁ : ((data ++ [b]).length : ℤ) + (b' :: t).length = contentLength := by
        rw [List.length_append, List.length_singleton]
        omega
      obtain ⟨w', hrun, hat⟩ := ih hload hstream (List.cons_ne_nil b' t) hlength₁
      refine ⟨w', ?_, hat⟩
      rw [Loop.run_of_body (l := parseBodyLoop contentLength) (a := (data, d)) hround, hrun,
        List.append_assoc]
      rfl

/-- A stream that ends before the last byte of the body ends the loop. -/
theorem parseBodyLoop_short (t : Str) (h : StandsAt c.load e d w) (hc : c.stream = t)
    (ht : t ≠ []) (hlength : (data.length : ℤ) + t.length < contentLength) :
    ((parseBodyLoop contentLength).run (data, d) w).1 = e.failure.failing := by
  induction t generalizing c d w data with
  | nil => exact absurd rfl ht
  | cons b t ih =>
    rw [List.length_cons] at hlength
    have hmore : (data.length : ℤ) + 1 < contentLength := by omega
    cases t with
    | nil =>
      exact Loop.run_failing (l := parseBodyLoop contentLength)
        (parseBodyBody_end h hc (by omega) hmore.ne)
    | cons b' t =>
      obtain ⟨w₁, hround, hload⟩ := parseBodyBody_round h hc (by simp) (by omega) hmore.ne
      have hstream : c.next.stream = b' :: t := by rw [Cut.stream_next, hc]; rfl
      have hlength₁ : ((data ++ [b]).length : ℤ) + (b' :: t).length < contentLength := by
        rw [List.length_append, List.length_singleton]
        omega
      rw [Loop.run_of_body (l := parseBodyLoop contentLength) (a := (data, d)) hround]
      exact ih hload hstream (List.cons_ne_nil b' t) hlength₁

/-- A loop that starts with bytes in the buffer and returns has taken what the content
length says. -/
theorem parseBodyLoop_eq_ok {p q : Str × HttpData}
    (h : (parseBodyLoop contentLength).run p w = (.ok q, w')) (hunread : p.2.unread ≠ []) :
    ∃ t, t ≠ [] ∧ q.1 = p.1 ++ t ∧ (q.1.length : ℤ) = contentLength ∧
      (cutOf p.2 w).stream = t ++ (cutOf q.2 w').stream := by
  induction p, w using (parseBodyLoop contentLength).run_induction with
  | step p w ih =>
    obtain ⟨data, d⟩ := p
    obtain ⟨b, rest, hb⟩ := List.exists_cons_of_ne_nil hunread
    simp only at hb
    rw [Loop.run_eq] at h
    obtain ⟨r, w₁, hbody, hrest⟩ := Prog.bind_eq_ok h
    have hround := hbody
    simp only [parseBodyLoop, parseBodyBody, hb] at hround
    split_ifs at hround with hfull hlast
    · simp at hround
    · cases hround
      cases hrest
      refine ⟨[b], by simp, rfl, by simpa using hlast, ?_⟩
      simp [cutOf, Cut.stream, hb]
    · obtain ⟨d₁, w₂, hrefill, hpure⟩ := Prog.bind_eq_ok hround
      cases hpure
      obtain ⟨hne, hat, -⟩ := refill_eq_ok hrefill
      have hstream : (cutOf d w).stream = b :: (cutOf d₁ w₁).stream := by
        rw [hat.cut, Cut.stream_load]
        simp [cutOf, Cut.stream, hb]
      obtain ⟨t, -, hdata, hlength, hleft⟩ :=
        ih (data ++ [b], d₁) w₁ hbody hrest (refill_unread hrefill)
      refine ⟨b :: t, List.cons_ne_nil b t, ?_, hlength, ?_⟩
      · rw [hdata, List.append_assoc]
        rfl
      · rw [hstream, hleft]
        rfl

theorem parseBodyLoop_empty (hunread : d.unread = []) :
    (parseBodyLoop contentLength).run (data, d) w = (.ok (data, d), w) := by
  apply Loop.run_of_leave (l := parseBodyLoop contentLength)
  simp only [parseBodyLoop, parseBodyBody, hunread]
  rfl

/-- The loop changes nothing of the object but the buffer. -/
theorem parseBodyBody_object {p q : Str × HttpData} {r : (Str × HttpData) ⊕ (Str × HttpData)}
    (h : parseBodyBody contentLength p w = (.ok r, w')) (hr : r = .inl q ∨ r = .inr q) :
    q.2 = p.2.reading q.2.unread p.2.prev := by
  obtain ⟨data, d⟩ := p
  cases hunread : d.unread with
  | nil =>
    simp only [parseBodyBody, hunread] at h
    cases h
    rcases hr with hr | hr <;> cases hr
    rfl
  | cons b rest =>
    simp only [parseBodyBody, hunread] at h
    split_ifs at h with hfull hlast
    · cases h
    · cases h
      rcases hr with hr | hr <;> cases hr
      rfl
    · obtain ⟨d₁, w₁, hrefill, hpure⟩ := Prog.bind_eq_ok h
      cases hpure
      rcases hr with hr | hr <;> cases hr
      obtain ⟨hne, -, -⟩ := refill_eq_ok hrefill
      obtain ⟨w₂, hrefill₂, -⟩ := refill_ok ⟨rfl, rfl⟩ hne
      rw [hrefill] at hrefill₂
      cases hrefill₂
      rfl

theorem parseBodyLoop_object {p q : Str × HttpData}
    (h : (parseBodyLoop contentLength).run p w = (.ok q, w')) :
    q.2 = p.2.reading q.2.unread p.2.prev := by
  induction p, w using (parseBodyLoop contentLength).run_induction with
  | step p w ih =>
    rw [Loop.run_eq] at h
    obtain ⟨r, w₁, hbody, hrest⟩ := Prog.bind_eq_ok h
    cases r with
    | inl p' =>
      have hstep := parseBodyBody_object hbody (.inl rfl)
      have hlater := ih p' w₁ hbody hrest
      rw [hstep, reading_reading, prev_reading] at hlater
      exact hlater
    | inr q' =>
      cases hrest
      exact parseBodyBody_object hbody (.inr rfl)

/-- What `parseBodyParamData` does after its loop. -/
def finishBody (env : Env) (contentLength : ℤ) (p : Str × HttpData) : Work HttpData :=
  if contentLength < 0 then Prog.undefined .outOfBounds
  else parseStringParamTo_htable_clientParamData (bodyString env contentLength p.1) p.2

theorem numeralContentLength_anywhere
    (h : numeralContentLength d w = (.ok contentLength, w')) (unread : Str) (prev : UInt8)
    (w₂ : World) : ∃ w₃,
      numeralContentLength (d.reading unread prev) w₂ = (.ok contentLength, w₃) ∧
        w₃.recvs = w₂.recvs := by
  have hsame : numeralContentLength (d.reading unread prev) = numeralContentLength d := rfl
  rw [hsame]
  cases hline : d.contentLength with
  | none => simp [numeralContentLength, hline] at h
  | some line =>
    cases hfind : findFrom (· = 32) line 0 with
    | none => simp [numeralContentLength, hline, hfind] at h
    | some i =>
      cases hstoi : Strings.stoi (line.drop (i + 1)) with
      | error t => simp [numeralContentLength, hline, hfind, Work.stoi, hstoi] at h
      | ok number =>
        simp only [numeralContentLength, hline, hfind, Work.stoi, hstoi] at h ⊢
        cases h
        exact ⟨_, rfl, rfl⟩

theorem newArray_eq_ok {env : Env} {size : ℤ} (h : Work.newArray env size w = (.ok (), w')) :
    0 ≤ size := by
  by_contra hneg
  simp [Work.newArray, not_le.mp hneg] at h

theorem newArray_ok {env : Env} {size : ℤ} (hallocates : ∀ n, env.newArray n = true)
    (hsize : 0 ≤ size) (w : World) :
    ∃ w', Work.newArray env size w = (.ok (), w') ∧ w'.recvs = w.recvs := by
  refine ⟨w.record (.newArray size true), ?_, rfl⟩
  simp only [Work.newArray, hallocates]
  rw [if_neg (not_lt.mpr hsize)]
  rfl

/-- A body that was parsed has a length, and wherever the same object stands the loop is
entered with it. -/
theorem parseBodyParamData_starts {env : Env} (hallocates : ∀ n, env.newArray n = true)
    (h : parseBodyParamData env d w = (.ok d', w')) :
    ∃ contentLength, 0 ≤ contentLength ∧ ∀ unread prev w₂, ∃ w₃, w₃.recvs = w₂.recvs ∧
      parseBodyParamData env (d.reading unread prev) w₂ =
        ((parseBodyLoop contentLength).run ([], d.reading unread prev) >>=
          finishBody env contentLength) w₃ := by
  obtain ⟨contentLength, w₁, hnumeral, h⟩ := Prog.bind_eq_ok h
  by_cases hoverflow : contentLength + 2 > INT_MAX
  · rw [if_pos hoverflow] at h
    cases h
  rw [if_neg hoverflow] at h
  obtain ⟨⟨⟩, w₂, harray, h⟩ := Prog.bind_eq_ok h
  obtain ⟨⟨data, d₁⟩, w₃, -, h⟩ := Prog.bind_eq_ok h
  have hlength : 0 ≤ contentLength := by
    by_contra hneg
    simp only [not_le.mp hneg, if_true] at h
    cases h
  refine ⟨contentLength, hlength, ?_⟩
  intro unread prev v
  obtain ⟨v₁, hnumeral₁, hv₁⟩ := numeralContentLength_anywhere hnumeral unread prev v
  obtain ⟨v₂, harray₂, hv₂⟩ := newArray_ok hallocates (newArray_eq_ok harray) v₁
  refine ⟨v₂, hv₂.trans hv₁, ?_⟩
  rw [parseBodyParamData, Prog.bind_ok hnumeral₁, if_neg hoverflow, Prog.bind_ok harray₂]
  rfl

/-- The parameters are taken apart in the same way whatever stands in the buffer. -/
theorem finishBody_eq_ok {env : Env} {data : Str}
    (h : finishBody env contentLength (data, d) w = (.ok d', w')) :
    w' = w ∧ (∃ params, d' = { d with clientParamData := params }) ∧
      ∀ unread prev w₂, finishBody env contentLength (data, d.reading unread prev) w₂ =
        (.ok (d'.reading unread prev), w₂) := by
  simp only [finishBody] at h
  split_ifs at h with hneg
  · cases h
  cases hparams : parseStringParam (bodyString env contentLength data)
      (d.clientParamData.getD ∅) 0 0 with
  | none => simp [parseStringParamTo_htable_clientParamData, hparams] at h
  | some params =>
    simp only [parseStringParamTo_htable_clientParamData, hparams] at h
    cases h
    refine ⟨rfl, ⟨some params, rfl⟩, ?_⟩
    intro unread prev w₂
    have hsame : (d.reading unread prev).clientParamData = d.clientParamData := rfl
    simp only [finishBody, if_neg hneg, parseStringParamTo_htable_clientParamData, hsame, hparams]
    rfl

/-- Of the object the body changes the buffer and the parameters. -/
theorem parseBodyParamData_object {env : Env} (h : parseBodyParamData env d w = (.ok d', w')) :
    ∃ unread params, d' = { d with unread := unread, clientParamData := params } := by
  obtain ⟨contentLength, w₁, -, h⟩ := Prog.bind_eq_ok h
  by_cases hoverflow : contentLength + 2 > INT_MAX
  · rw [if_pos hoverflow] at h
    cases h
  rw [if_neg hoverflow] at h
  obtain ⟨⟨⟩, w₂, -, h⟩ := Prog.bind_eq_ok h
  obtain ⟨⟨data, e⟩, w₃, hloop, h⟩ := Prog.bind_eq_ok h
  have hfinish : finishBody env contentLength (data, e) w₃ = (.ok d', w') := h
  obtain ⟨-, ⟨params, rfl⟩, -⟩ := finishBody_eq_ok hfinish
  have hobject := parseBodyLoop_object hloop
  simp only at hobject
  exact ⟨e.unread, params, by rw [hobject]; rfl⟩

/-- So does what stands behind the header. -/
theorem afterHead_object {env : Env} (h : afterHead env d w = (.ok d', w')) :
    ∃ unread params, d' = { d with unread := unread, clientParamData := params } := by
  rw [afterHead] at h
  by_cases hpost : d.requestMethod = .POST
  · rw [if_pos hpost] at h
    exact parseBodyParamData_object h
  · rw [if_neg hpost] at h
    cases h
    exact ⟨d.unread, d.clientParamData, rfl⟩

end HttpData
end LxcHttpServer
