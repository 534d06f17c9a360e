import LxcHttpServer.RaisedExceptions

/-!
# Who owns the descriptor after a request

When `httpserver` returns, its descriptor should be closed and out of the timer, or open
and in it. The ways out that release nothing leave it open without an owner; a timer
without room does too, and closing a forbidden descriptor leaves its entry behind.
-/
namespace LxcHttpServer
open EffectPrograms IteratorLists PartialRuns Strings

/-- Closed once since `w`, and unknown to the timer. -/
structure ClosedOnce (fd : ℤ) (w w' : World) : Prop where
  closes : w'.server.kernel.closes.count fd = w.server.kernel.closes.count fd + 1
  closed : fd ∉ w'.server.kernel.openFds
  unregistered : ¬ w'.server.timer.Registered fd
  no_node : fd ∉ w'.server.timer.timeList.values.map Node.clientFd

/-- Still open, with a node in the timer. -/
structure KeptAlive (fd : ℤ) (w w' : World) : Prop where
  closes : w'.server.kernel.closes.count fd = w.server.kernel.closes.count fd
  opened : fd ∈ w'.server.kernel.openFds
  node : ∃ id n, w'.server.timer.hashMap.lookup fd = some (.node id) ∧
    (id, n) ∈ w'.server.timer.timeList.nodes ∧ n.clientFd = fd

def Owned (fd : ℤ) (w w' : World) : Prop := ClosedOnce fd w w' ∨ KeptAlive fd w w'

/-- A descriptor is in one of the two conditions at most. -/
theorem ClosedOnce.not_keptAlive {fd : ℤ} {w w' : World} (h : ClosedOnce fd w w') :
    ¬ KeptAlive fd w w' :=
  fun hkept => h.closed hkept.opened

/-- The descriptor's timer state in which the event loop dispatches it. -/
def Dispatched (t : Timer) (fd : ℤ) : Prop := ¬ t.Registered fd ∨ t.Forbidden fd

/-- `stat` finds the path. -/
def Found (env : Env) (path : Str) (w : World) : Prop :=
  ∃ size, env.stat w.calls.length path = .found size

/-- The request is answered, and there is a place for its descriptor: in the timer if the
connection is kept, and otherwise only where the timer does not know it. -/
def Releases (env : Env) (fd : ℤ) (w : World) : Prop :=
  ∃ d w₁, HttpData.parseData env (HttpData.new env fd) w = (.ok d, w₁) ∧
    d.badRequest = false ∧ d.requestMethod ≠ .UNSUPPORT ∧
    (Found env d.url w₁ ∨ d.urlResourceType = str "memory") ∧
    if d.keepConnection then w.server.timer.curSize < w.server.timer.maxSize
    else ¬ w.server.timer.Registered fd

variable {env : Env} {fd : ℤ} {w w' : World} {d : HttpData}

/-- Where the timer and the descriptor are as they were dispatched, nothing owns it. -/
theorem not_owned_of_holds (hopen : fd ∈ w.server.kernel.openFds)
    (hdisp : Dispatched w.server.timer fd) (h : (Watch.start fd w).Holds w') : ¬ Owned fd w w' := by
  obtain ⟨htimer, hfd⟩ := h
  have htimer' : w'.server.timer = w.server.timer := htimer
  rintro (hclosed | hkept)
  · exact hclosed.closed (hfd hopen).1
  · obtain ⟨id, n, hl, -, -⟩ := hkept.node
    rw [htimer'] at hl
    rcases hdisp with hreg | hforb
    · rw [AList.lookup_eq_none.mpr hreg] at hl
      cases hl
    · have hpast : w.server.timer.hashMap.lookup fd = some .pastEnd := hforb
      rw [hpast] at hl
      cases hl

theorem fileExist_eq_ok {path : Str} {b : Bool} (h : fileExist env path w = (.ok b, w')) :
    b = true ↔ Found env path w := by
  obtain ⟨result, t, hstat, h⟩ := Prog.bind_eq_ok h
  cases hstat
  simp only [Found]
  cases hresult : env.stat w.calls.length path with
  | found size =>
    rw [hresult] at h
    cases h
    simp
  | denied =>
    rw [hresult] at h
    cases h
    simp
  | missing =>
    rw [hresult] at h
    cases h
    simp

/-- Closing a descriptor that the timer does not know. -/
theorem closedOnce_close {w₁ : World} (hcons : w.server.Consistent)
    (hopen : fd ∈ w.server.kernel.openFds) (hreg : ¬ w.server.timer.Registered fd)
    (h₁ : (Watch.start fd w).Holds w₁) :
    ClosedOnce fd w ((w₁.withKernel (w₁.server.kernel.close fd)).record (.close fd)) := by
  have htimer : w₁.server.timer = w.server.timer := h₁.1
  have hcloses : w₁.server.kernel.closes.count fd = w.server.kernel.closes.count fd :=
    (h₁.2 hopen).2
  have hnode : fd ∉ w.server.timer.timeList.values.map Node.clientFd := by
    rw [hcons.mem_clientFds_iff]
    exact fun hlive => hreg hlive.1
  refine ⟨?_, Finset.notMem_erase _ _, ?_, ?_⟩
  · simp [World.withKernel, Kernel.close, hcloses]
  · simpa [World.withKernel, htimer] using hreg
  · simpa [World.withKernel, htimer] using hnode

/-- Keeping the connection gives it an owner exactly when the timer has room. -/
theorem owned_keep_iff {w₁ : World} (hopen : fd ∈ w.server.kernel.openFds)
    (hdisp : Dispatched w.server.timer fd) (h₁ : (Watch.start fd w).Holds w₁)
    (h : release true fd w₁ = (.ok (), w')) :
    Owned fd w w' ↔ w.server.timer.curSize < w.server.timer.maxSize := by
  have htimer : w₁.server.timer = w.server.timer := h₁.1
  rw [release_keep] at h
  cases h
  by_cases hroom : w.server.timer.curSize < w.server.timer.maxSize
  · refine iff_of_true (.inr ?_) hroom
    have hadd : Timer.addfd fd w₁.server = (true, Timer.accepted fd w₁.server) :=
      Timer.addfd_room (by rwa [htimer])
    have hopened := h₁.2 hopen
    rw [hadd]
    refine ⟨?_, ?_, ?_⟩
    · have hcloses := hopened.2
      simpa [Timer.accepted, Watch.start] using hcloses
    · have hmem := hopened.1
      simpa [Timer.accepted, Watch.start] using hmem
    · exact ⟨_, _, AList.lookup_insert _, List.mem_append_right _ (List.mem_singleton_self _), rfl⟩
  · refine iff_of_false ?_ hroom
    have hadd : Timer.addfd fd w₁.server = (false, w₁.server) :=
      Timer.addfd_full (by rw [htimer]; exact not_lt.mp hroom)
    apply not_owned_of_holds hopen hdisp
    rw [hadd]
    exact h₁

/-- Closing the connection gives it an owner exactly when the timer does not know it. -/
theorem owned_close_iff {w₁ : World} (hcons : w.server.Consistent)
    (hopen : fd ∈ w.server.kernel.openFds) (h₁ : (Watch.start fd w).Holds w₁)
    (h : release false fd w₁ = (.ok (), w')) : Owned fd w w' ↔ ¬ w.server.timer.Registered fd := by
  have htimer : w₁.server.timer = w.server.timer := h₁.1
  have hrelease : release false fd w₁ = (.ok (),
      (w₁.withKernel (w₁.server.kernel.close fd)).record (.close fd)) := rfl
  rw [hrelease] at h
  cases h
  constructor
  · rintro (hclosed | hkept)
    · have hreg := hclosed.unregistered
      simpa [World.withKernel, htimer] using hreg
    · exact absurd hkept.opened (Finset.notMem_erase _ _)
  · intro hreg
    exact .inl (closedOnce_close hcons hopen hreg h₁)

/-- Where the `try` block returns, the descriptor has an owner exactly when the request
was answered and there was a place for it. -/
theorem owned_serve_iff (hcons : w.server.Consistent) (hopen : fd ∈ w.server.kernel.openFds)
    (hdisp : Dispatched w.server.timer fd) (h : serve env fd w = (.ok (), w')) :
    Owned fd w w' ↔ Releases env fd w := by
  obtain ⟨d, w₁, hparse, h⟩ := Prog.bind_eq_ok h
  have h₁ : (Watch.start fd w).Holds w₁ :=
    (HttpData.parseData_keeps Watch.parserCalls _).of_eq (Watch.start_holds fd w) hparse
  have hreleases : Releases env fd w ↔ d.badRequest = false ∧ d.requestMethod ≠ .UNSUPPORT ∧
      (Found env d.url w₁ ∨ d.urlResourceType = str "memory") ∧
      if d.keepConnection then w.server.timer.curSize < w.server.timer.maxSize
      else ¬ w.server.timer.Registered fd := by
    constructor
    · rintro ⟨d', w₁', hparse', hrest⟩
      cases hparse.symm.trans hparse'
      exact hrest
    · intro hrest
      exact ⟨d, w₁, hparse, hrest⟩
  rw [hreleases]
  simp only [answer] at h
  split_ifs at h with hbad hmethod
  · cases h
    refine iff_of_false (not_owned_of_holds hopen hdisp h₁) ?_
    rintro ⟨hgood, -⟩
    rw [hbad] at hgood
    cases hgood
  · cases h
    refine iff_of_false (not_owned_of_holds hopen hdisp h₁) ?_
    rintro ⟨-, hsupported, -⟩
    exact hsupported hmethod
  · obtain ⟨found, w₂, hexist, h⟩ := Prog.bind_eq_ok h
    have h₂ : (Watch.start fd w).Holds w₂ :=
      (fileExist_keeps Watch.answerCalls trivial).of_eq h₁ hexist
    have hfound := fileExist_eq_ok hexist
    split_ifs at h with hmissing
    · have h₃ : (Watch.start fd w).Holds w' :=
        (Responser.sendNotFound_keeps Watch.answerCalls).of_eq h₂ h
      refine iff_of_false (not_owned_of_holds hopen hdisp h₃) ?_
      rintro ⟨-, -, hthere, -⟩
      rw [hfound] at hmissing
      exact hthere.elim hmissing.1 hmissing.2
    · obtain ⟨u, w₃, hrespond, hrelease⟩ := Prog.bind_eq_ok h
      have h₃ : (Watch.start fd w).Holds w₃ :=
        (respond_keeps Watch.answerCalls trivial).of_eq h₂ hrespond
      have hthere : Found env d.url w₁ ∨ d.urlResourceType = str "memory" := by
        by_contra hnot
        rw [not_or, ← hfound] at hnot
        exact hmissing hnot
      have hplace : Owned fd w w' ↔ if d.keepConnection
          then w.server.timer.curSize < w.server.timer.maxSize
          else ¬ w.server.timer.Registered fd := by
        cases hkeep : d.keepConnection with
        | true =>
          rw [hkeep] at hrelease
          simpa using owned_keep_iff hopen hdisp h₃ hrelease
        | false =>
          rw [hkeep] at hrelease
          simpa using owned_close_iff hcons hopen h₃ hrelease
      rw [hplace]
      have hgood : d.badRequest = false := by simpa using hbad
      exact ⟨fun hp => ⟨hgood, hmethod, hthere, hp⟩, fun hall => hall.2.2.2⟩

/-- Where the handler returns, the timer did not know the descriptor, and it is closed. -/
theorem owned_recover {e : Thrown} {t : World} (hcons : w.server.Consistent)
    (hopen : fd ∈ w.server.kernel.openFds) (hdisp : Dispatched w.server.timer fd)
    (ht : (Watch.start fd w).Holds t) (h : recover fd e t = (.ok (), w')) : Owned fd w w' := by
  have htimer : t.server.timer = w.server.timer := ht.1
  rw [recover] at h
  split_ifs at h
  · obtain ⟨u, t₁, hdelete, hclose⟩ := Prog.bind_eq_ok h
    have hreg : ¬ w.server.timer.Registered fd := by
      rcases hdisp with hreg | hforb
      · exact hreg
      · -- erasing through a forbidden entry has no meaning
        have hforb' : t.server.timer.Forbidden fd := htimer ▸ hforb
        simp [Work.deleteFd, Timer.deleteFd_forbidden hforb'] at hdelete
    have hreg' : ¬ t.server.timer.Registered fd := htimer ▸ hreg
    simp only [Work.deleteFd, Timer.deleteFd_unregistered hreg'] at hdelete
    cases hdelete
    cases hclose
    exact .inl (closedOnce_close hcons hopen hreg ht)
  · cases h

/-- When `httpserver` returns, its descriptor has an owner exactly when a call raised an
exception or the request was answered and there was a place for the descriptor. -/
theorem descriptor_owned_iff (hcons : w.server.Consistent) (hopen : fd ∈ w.server.kernel.openFds)
    (hdisp : Dispatched w.server.timer fd) (h : httpserver env fd w = (.ok (), w')) :
    Owned fd w w' ↔ (∃ c ∈ callsOf (serve env fd) w, raises c ≠ none) ∨ Releases env fd w := by
  rw [← thrown_ne_none_iff (serve_accounted env fd) w]
  rcases Prog.handle_eq_ok h with hserve | ⟨e, t, hserve, hrecover⟩
  · rw [owned_serve_iff hcons hopen hdisp hserve, hserve]
    simp
  · have ht := serve_throw (Watch.start_holds fd w) hserve
    refine iff_of_true (owned_recover hcons hopen hdisp ht hrecover) (.inl ?_)
    rw [hserve]
    simp

/-- The first `recv` fails. -/
theorem descriptor_owned_recv_error :
    Owned 5 (firstClient 5 [.error]) (httpserver calmEnv 5 (firstClient 5 [.error])).2 := by
  have hret : httpserver calmEnv 5 (firstClient 5 [.error]) =
      (.ok (), (httpserver calmEnv 5 (firstClient 5 [.error])).2) := by
    have hfst : (httpserver calmEnv 5 (firstClient 5 [.error])).1 = .ok () := by decide +kernel
    rw [← hfst]
  have hcons : (firstClient 5 [.error]).server.Consistent := Server.Consistent.of_new _ _ _
  have hopen : 5 ∈ (firstClient 5 [.error]).server.kernel.openFds := by decide +kernel
  have hdisp : Dispatched (firstClient 5 [.error]).server.timer 5 := .inl (by decide +kernel)
  refine (descriptor_owned_iff hcons hopen hdisp hret).mpr (.inl ?_)
  have hcalls : callsOf (serve calmEnv 5) (firstClient 5 [.error]) = [.recv .error] := rfl
  rw [hcalls]
  exact ⟨_, List.mem_singleton_self _, by decide⟩

/-- An empty line, which is a bad request. -/
def emptyLine : RecvResult := .data ⟨[13, 10], by decide, by decide⟩

/-- After a bad request the descriptor is open and the timer does not know it. -/
theorem not_descriptor_owned :
    ∃ w', httpserver calmEnv 5 (firstClient 5 [emptyLine]) = (.ok (), w') ∧
      5 ∈ w'.server.kernel.openFds ∧ ¬ w'.server.timer.Registered 5 ∧
      ¬ Owned 5 (firstClient 5 [emptyLine]) w' := by
  have hfst : (httpserver calmEnv 5 (firstClient 5 [emptyLine])).1 = .ok () := by decide +kernel
  have hopen : 5 ∈ (httpserver calmEnv 5 (firstClient 5 [emptyLine])).2.server.kernel.openFds := by
    decide +kernel
  have hreg : ¬ (httpserver calmEnv 5 (firstClient 5 [emptyLine])).2.server.timer.Registered 5 := by
    decide +kernel
  refine ⟨_, by rw [← hfst], hopen, hreg, ?_⟩
  rintro (hclosed | hkept)
  · exact hclosed.closed hopen
  · obtain ⟨id, n, hl, -, -⟩ := hkept.node
    rw [AList.lookup_eq_none.mpr hreg] at hl
    cases hl

end LxcHttpServer
