import LxcHttpServer.StaticFiles

/-!
# What the client gets of a CGI process

The server appends what it reads to a string in a buffer of 2048 bytes, and sends the string.
Where the string ends is asked of the buffer each time, so an output with a NUL is cut or
overwritten, and one that fills the buffer leaves it without an end.
-/
namespace LxcHttpServer
open EffectPrograms Strings

namespace Responser

variable {env : Env} {d : HttpData} {w w' : World} {buf buf' text : Str} {chunks : List Str}
  {rest : List ReadResult}

/-- The request has parameters, and there are pipes and a process for it. -/
structure Creates (env : Env) (d : HttpData) (w : World) : Prop where
  params : d.getParamCount ≠ 0
  cgiInput : env.pipe w.calls.length = true
  cgiOutput : env.pipe (w.calls.length + 1) = true
  fork : env.fork (w.calls.length + 2) = true

/-- What is handed to `write` for one parameter. -/
def paramWrites (p : Param) : List Str :=
  [cString p.1, str " ", if p.2 = [] then NULLINFO else cString p.2, str "\n"]

/-- Every `write` of the parameters comes back: the CGI process neither ends nor closes its input
before all of it is written, and the pipe has room for what it does not read. -/
def Unbroken (env : Env) (d : HttpData) (w : World) : Prop :=
  ∀ i < ((iterated env d).flatMap paramWrites).length,
    (env.write (w.calls.length + 5 + i)).comesBack = true

/-- Hands one string after the other to `write`. -/
def writeAll (env : Env) (fd : ℤ) : List Str → Work Unit
  | [] => pure ()
  | bytes :: rest => do
    Work.write env fd bytes
    writeAll env fd rest

theorem writeParams_eq (env : Env) (fd : ℤ) (ps : List Param) :
    writeParams env fd ps = writeAll env fd (ps.flatMap paramWrites) := by
  induction ps with
  | nil => rfl
  | cons p ps ih =>
    rw [writeParams, ih]
    rfl

/-- The calls of `write` for some strings, the first after `n` calls. -/
def writeCalls (env : Env) (fd : ℤ) : ℕ → List Str → List Call
  | _, [] => []
  | n, bytes :: rest => .write fd bytes (env.write n) :: writeCalls env fd (n + 1) rest

theorem flatMap_writeCalls {β : Type} {f : Call → List β} {g : Str → List β} {fd : ℤ}
    (hf : ∀ bytes result, f (.write fd bytes result) = g bytes) (env : Env) (n : ℕ)
    (bs : List Str) : (writeCalls env fd n bs).flatMap f = bs.flatMap g := by
  induction bs generalizing n with
  | nil => rfl
  | cons bytes rest ih => rw [writeCalls, List.flatMap_cons, List.flatMap_cons, hf, ih]

theorem write_comesBack (h : (env.write w.calls.length).comesBack = true) (fd : ℤ) (bytes : Str) :
    Work.write env fd bytes w =
      (.ok (), w.record (.write fd bytes (env.write w.calls.length))) := by
  apply Prod.ext _ (Work.write_snd env fd bytes w)
  cases hresult : env.write w.calls.length with
  | written => simp [Work.write, hresult]
  | part count => simp [Work.write, hresult]
  | broken count => simp [hresult, WriteResult.comesBack] at h
  | waits count => simp [hresult, WriteResult.comesBack] at h

/-- The process ends, or it waits. -/
theorem write_stuck (h : ¬ (env.write w.calls.length).comesBack = true) (fd : ℤ) (bytes : Str) :
    ∃ o : Outcome Thrown Undefined Empty, (Work.write env fd bytes w).1 = o.failing := by
  cases hresult : env.write w.calls.length with
  | written => simp [hresult, WriteResult.comesBack] at h
  | part count => simp [hresult, WriteResult.comesBack] at h
  | broken count => exact ⟨.killed, by simp [Work.write, hresult, Outcome.failing]⟩
  | waits count => exact ⟨.blocked, by simp [Work.write, hresult, Outcome.failing]⟩

/-- Strings are written one after the other as long as the calls come back. -/
theorem writeAll_run {fd : ℤ} {bs : List Str} {n : ℕ} (hn : w.calls.length = n)
    (h : ∀ i < bs.length, (env.write (n + i)).comesBack = true) : writeAll env fd bs w =
      (.ok (), { w with calls := w.calls ++ writeCalls env fd n bs }) := by
  subst hn
  induction bs generalizing w with
  | nil => simp [writeAll, writeCalls]
  | cons bytes rest ih =>
    have hfirst : (env.write w.calls.length).comesBack = true := h 0 (by simp)
    have hrest : ∀ i < rest.length, (env.write
        ((w.record (.write fd bytes (env.write w.calls.length))).calls.length + i)).comesBack =
        true := by
      intro i hi
      have hnext := h (i + 1) (by simpa using hi)
      rwa [World.calls_record, List.length_append, List.length_singleton, Nat.add_right_comm]
    rw [writeAll, Prog.bind_ok (write_comesBack hfirst fd bytes), ih hrest]
    simp [writeCalls, World.record]

theorem writeAll_eq_ok {fd : ℤ} {bs : List Str} {u : Unit}
    (h : writeAll env fd bs w = (.ok u, w')) :
    ∀ i < bs.length, (env.write (w.calls.length + i)).comesBack = true := by
  induction bs generalizing w with
  | nil => simp
  | cons bytes rest ih =>
    obtain ⟨_, w₁, hwrite, hrest⟩ := Prog.bind_eq_ok h
    have hfirst : (env.write w.calls.length).comesBack = true := by
      by_contra hnot
      obtain ⟨o, ho⟩ := write_stuck hnot fd bytes
      rw [hwrite] at ho
      exact Outcome.ok_ne_failing ho
    have hlength : w₁.calls.length = w.calls.length + 1 := by
      have hlog := congrArg World.calls (Work.write_snd env fd bytes w)
      rw [hwrite, World.calls_record] at hlog
      rw [hlog, List.length_append, List.length_singleton]
    intro i hi
    cases i with
    | zero => exact hfirst
    | succ i =>
      have hnext := ih hrest i (by simpa using hi)
      rwa [hlength, Nat.add_right_comm] at hnext

theorem writeAll_logs {P : Call → Prop} {fd : ℤ} (hwrite : ∀ bytes r, P (.write fd bytes r))
    (w₀ : World) (bs : List Str) :
    Prog.Preserves (Prog.LoggedSince World.calls P w₀) (writeAll env fd bs) := by
  induction bs with
  | nil => exact Prog.Preserves.pure ()
  | cons bytes rest ih =>
    apply Prog.Preserves.bind (Work.write_logs fd bytes (hwrite bytes))
    intro _
    exact ih

/-- A string at the start of the buffer, and NULs behind it. -/
def padded (text : Str) : Str := text ++ List.replicate (PAGE_BUFFER_SIZE - text.length) 0

/-- What the server does once it has read the output. -/
def sendOutput (env : Env) (buf : Str) : Work Unit := do
  let ret ← Work.send env .executeCGI (cString buf)
  if ret then Work.waitpid else Prog.throw .socketClosed

/-- What the server does once it has written the parameters. -/
def returnOutput (env : Env) : Work Unit := do
  let buf ← readCgiLoop.run (padded firstLine_200)
  sendOutput env buf

/-- The calls of `executeCGI` up to the parameters. -/
def createCalls (cgiInput cgiOutput : ℤ × ℤ) : List Call :=
  [.pipe .cgiInput true, .pipe .cgiOutput true, .fork true, .close cgiOutput.2,
    .close cgiInput.1]

theorem pipe_created (which : CgiPipe) (h : env.pipe w.calls.length = true) :
    ∃ (ends : ℤ × ℤ) (w₁ : World), Work.pipe env which w = (.ok (some ends), w₁) ∧
      w₁.cgiReads = w.cgiReads ∧ w₁.calls = w.calls ++ [.pipe which true] := by
  rw [Work.pipe, if_pos h]
  exact ⟨_, _, rfl, rfl, rfl⟩

theorem executeCGI_creates (h : Creates env d w) : ∃ (cgiInput cgiOutput : ℤ × ℤ) (w₁ : World),
    executeCGI env d w = (writeAll env cgiInput.2 ((iterated env d).flatMap paramWrites) >>=
      fun _ => returnOutput env) w₁ ∧ w₁.cgiReads = w.cgiReads ∧
      w₁.calls = w.calls ++ createCalls cgiInput cgiOutput := by
  obtain ⟨cgiInput, w₁, hin, hreads₁, hcalls₁⟩ := pipe_created .cgiInput h.cgiInput
  have hroom : env.pipe w₁.calls.length = true := by
    rw [hcalls₁, List.length_append]
    exact h.cgiOutput
  obtain ⟨cgiOutput, w₂, hout, hreads₂, hcalls₂⟩ := pipe_created .cgiOutput hroom
  have hlength : w₂.calls.length = w.calls.length + 2 := by
    rw [hcalls₂, hcalls₁]
    simp
  have hfork : Work.fork env w₂ = (.ok true, w₂.record (.fork true)) := by
    rw [Work.fork, hlength, h.fork]
  let w₃ := (w₂.record (.fork true)).withKernel (w₂.server.kernel.close cgiOutput.2)
  let w₄ := (w₃.record (.close cgiOutput.2)).withKernel (w₃.server.kernel.close cgiInput.1)
  have hserve : serveCgi env (d.clientParamData.getD ∅) cgiInput cgiOutput
      (w₂.record (.fork true)) = (writeParams env cgiInput.2 (iterated env d) >>=
        fun _ => returnOutput env) (w₄.record (.close cgiInput.1)) := rfl
  refine ⟨cgiInput, cgiOutput, w₄.record (.close cgiInput.1), ?_, hreads₂.trans hreads₁, ?_⟩
  · rw [executeCGI, if_neg h.params, Prog.bind_ok hin]
    simp only
    rw [Prog.bind_ok hout]
    simp only
    rw [Prog.bind_ok hfork, if_pos rfl, hserve, writeParams_eq]
  · simp [w₄, w₃, World.withKernel, hcalls₂, hcalls₁, createCalls]

/-- If every `write` comes back, all the parameters are written before the output is read. -/
theorem executeCGI_unbroken (h : Creates env d w) (hwrites : Unbroken env d w) :
    ∃ (cgiInput cgiOutput : ℤ × ℤ) (w₁ : World), executeCGI env d w = returnOutput env w₁ ∧
      w₁.cgiReads = w.cgiReads ∧ w₁.calls = w.calls ++ (createCalls cgiInput cgiOutput ++
        writeCalls env cgiInput.2 (w.calls.length + 5)
          ((iterated env d).flatMap paramWrites)) := by
  obtain ⟨cgiInput, cgiOutput, w₁, hrun, hreads, hcalls⟩ := executeCGI_creates h
  have hlength : w₁.calls.length = w.calls.length + 5 := by
    rw [hcalls, List.length_append]
    rfl
  refine ⟨cgiInput, cgiOutput, _, hrun.trans (Prog.bind_ok (writeAll_run hlength hwrites)),
    hreads, ?_⟩
  rw [hcalls, List.append_assoc]

section Handed

variable {β : Type} {f : Call → List β} {w₁ w₂ w₃ : World} {bs bs' : List β}

/-- The calls between two states hand over these, in this order. -/
def Hands (f : Call → List β) (w w' : World) (bs : List β) : Prop :=
  ∃ cs : List Call, w'.calls = w.calls ++ cs ∧ cs.flatMap f = bs

theorem Hands.record (w : World) (c : Call) : Hands f w (w.record c) (f c) :=
  ⟨[c], rfl, by simp⟩

theorem Hands.trans (h : Hands f w₁ w₂ bs) (h' : Hands f w₂ w₃ bs') :
    Hands f w₁ w₃ (bs ++ bs') := by
  obtain ⟨cs, hcs, rfl⟩ := h
  obtain ⟨cs', hcs', rfl⟩ := h'
  exact ⟨cs ++ cs', by rw [hcs', hcs, List.append_assoc], List.flatMap_append⟩

theorem Hands.unique (h : Hands f w₁ w₂ bs) (h' : Hands f w₁ w₂ bs') : bs = bs' := by
  obtain ⟨cs, hcs, rfl⟩ := h
  obtain ⟨cs', hcs', rfl⟩ := h'
  rw [List.append_cancel_left (hcs.symm.trans hcs')]

/-- A program all of whose calls hand over nothing. -/
theorem Hands.of_preserves {α : Type} {p : Work α} {o : Outcome Thrown Undefined α}
    (hp : Prog.Preserves (Prog.LoggedSince World.calls (fun c => f c = []) w₁) p)
    (h : p w₁ = (o, w₂)) : Hands f w₁ w₂ [] := by
  obtain ⟨cs, hcs, hall⟩ := hp.of_eq (Prog.LoggedSince.refl _ w₁) h
  exact ⟨cs, hcs, List.flatMap_eq_nil_iff.mpr hall⟩

end Handed

/-- The argument of `send`. -/
def sentBy : Call → List Str
  | .send _ bytes _ => [bytes]
  | _ => []

/-- Reading logs no calls but those of `read`. -/
theorem readCgiLoop_logs {P : Call → Prop} (hread : ∀ r, P (.read r)) (w₀ : World) (buf : Str) :
    Prog.Preserves (Prog.LoggedSince World.calls P w₀) (readCgiLoop.run buf) := by
  apply Prog.Preserves.loop
  intro buf
  apply Prog.Preserves.ite
  · apply Prog.Preserves.bind (Prog.Preserves.of_records (Work.read_records _) hread)
    intro ret
    cases ret with
    | error => exact Prog.Preserves.throw _
    | eof => exact Prog.Preserves.pure _
    | data bytes => exact Prog.Preserves.pure _
  · exact Prog.Preserves.undefined _

theorem length_read_le {count : ℕ} {bytes : Str}
    (h : Work.read count w = (.ok (.data bytes), w')) : bytes.length ≤ count := by
  simp only [Work.read] at h
  split_ifs at h
  · cases h
  · cases hreads : w.cgiReads with
    | nil => simp [hreads] at h
    | cons r rs =>
      cases r with
      | error => simp [hreads] at h
      | eof => simp [hreads] at h
      | data output =>
        simp only [hreads] at h
        split_ifs at h
        · cases h
        · cases h
          exact List.length_take_le _ _
        · cases h
          exact List.length_take_le _ _

/-- What was written at once and has room is read at once. -/
theorem read_fits {count : ℕ} {c : Str} {rs : List ReadResult}
    (hreads : w.cgiReads = .data c :: rs) (hne : c ≠ []) (hroom : c.length ≤ count) :
    ∃ w₁, Work.read count w = (.ok (.data c), w₁) ∧ w₁.cgiReads = rs := by
  have hpos := List.length_pos_of_ne_nil hne
  have hcount : count ≠ 0 := by omega
  rw [Work.read, if_neg hcount, hreads]
  simp only
  rw [if_neg hne, if_pos hroom, List.take_of_length_le hroom]
  exact ⟨_, rfl, rfl⟩

theorem read_eof {count : ℕ} (hreads : w.cgiReads = .eof :: rest) (hcount : count ≠ 0) :
    Work.read count w = (.ok .eof, { w with cgiReads := rest }.record (.read .eof)) := by
  rw [Work.read, if_neg hcount, hreads]

/-! ## The buffer -/

/-- A read leaves the size of the buffer. -/
theorem readCgiBody_length (hsize : buf.length = PAGE_BUFFER_SIZE)
    (h : readCgiBody buf w = (.ok (.inl buf'), w')) : buf'.length = PAGE_BUFFER_SIZE := by
  rw [readCgiBody] at h
  split_ifs at h with hzero
  · obtain ⟨ret, w₁, hread, h⟩ := Prog.bind_eq_ok h
    cases ret with
    | error => cases h
    | eof => cases h
    | data bytes =>
      cases h
      have hroom := length_read_le hread
      have hlt := length_cString_lt hzero
      simp only [List.length_append, List.length_take, List.length_drop]
      omega
  · cases h

theorem readCgiBody_leaves (h : readCgiBody buf w = (.ok (.inr buf'), w')) :
    buf' = buf ∧ 0 ∈ buf := by
  rw [readCgiBody] at h
  split_ifs at h with hzero
  · obtain ⟨ret, w₁, hread, h⟩ := Prog.bind_eq_ok h
    cases ret with
    | error => cases h
    | data bytes => cases h
    | eof =>
      cases h
      exact ⟨rfl, hzero⟩
  · cases h

/-- When the loop ends, a string stands in the buffer. -/
theorem readCgiLoop_ok (hsize : buf.length = PAGE_BUFFER_SIZE)
    (h : readCgiLoop.run buf w = (.ok buf', w')) : buf'.length = PAGE_BUFFER_SIZE ∧ 0 ∈ buf' := by
  induction buf, w using readCgiLoop.run_induction with
  | step buf w ih =>
    rw [Loop.run_eq] at h
    obtain ⟨r, w₁, hbody, h⟩ := Prog.bind_eq_ok h
    cases r with
    | inl buf₁ => exact ih buf₁ w₁ hbody (readCgiBody_length hsize hbody) h
    | inr buf₁ =>
      cases h
      obtain ⟨rfl, hzero⟩ := readCgiBody_leaves hbody
      exact ⟨hsize, hzero⟩

theorem zero_mem_padded (hroom : text.length < PAGE_BUFFER_SIZE) : 0 ∈ padded text := by
  apply List.mem_append_right
  rw [List.mem_replicate]
  exact ⟨by omega, rfl⟩

theorem cString_padded (hzero : 0 ∉ text) : cString (padded text) = text := by
  rw [padded, cString_of_not_mem hzero, cString, List.takeWhile_replicate]
  simp

/-- The bytes that are read overwrite as many NULs. -/
theorem padded_append (text bytes : Str) : (padded text).take text.length ++ bytes ++
    (padded text).drop (text.length + bytes.length) = padded (text ++ bytes) := by
  rw [padded, List.take_left, List.drop_append, List.drop_eq_nil_of_le (Nat.le_add_right _ _),
    List.drop_replicate, padded, List.length_append, List.nil_append]
  congr 2
  omega

theorem readCgiBody_eof (hzero : 0 ∉ text) (hroom : text.length < PAGE_BUFFER_SIZE)
    (hread : Work.read (PAGE_BUFFER_SIZE - text.length) w = (.ok .eof, w')) :
    readCgiBody (padded text) w = (.ok (.inr (padded text)), w') := by
  rw [← cString_padded hzero] at hread
  rw [readCgiBody, if_pos (zero_mem_padded hroom), Prog.bind_ok hread]
  rfl

theorem readCgiBody_data {bytes : Str} (hzero : 0 ∉ text) (hroom : text.length < PAGE_BUFFER_SIZE)
    (hread : Work.read (PAGE_BUFFER_SIZE - text.length) w = (.ok (.data bytes), w')) :
    readCgiBody (padded text) w = (.ok (.inl (padded (text ++ bytes))), w') := by
  have hnext := padded_append text bytes
  rw [← cString_padded hzero] at hread
  rw [readCgiBody, if_pos (zero_mem_padded hroom), Prog.bind_ok hread, ← hnext,
    cString_padded hzero]
  rfl

/-- An output that has room behind the string and has no NUL is appended. -/
theorem readCgiLoop_fits (hreads : w.cgiReads = chunks.map .data ++ .eof :: rest)
    (hchunks : ∀ c ∈ chunks, c ≠ []) (hzero : 0 ∉ text ++ chunks.flatten)
    (hroom : (text ++ chunks.flatten).length < PAGE_BUFFER_SIZE) :
    ∃ w', readCgiLoop.run (padded text) w = (.ok (padded (text ++ chunks.flatten)), w') := by
  induction chunks generalizing text w with
  | nil =>
    rw [List.flatten_nil, List.append_nil] at *
    have hcount : PAGE_BUFFER_SIZE - text.length ≠ 0 := by omega
    exact ⟨_, Loop.run_of_leave (readCgiBody_eof hzero hroom (read_eof hreads hcount))⟩
  | cons c chunks ih =>
    rw [List.flatten_cons, ← List.append_assoc] at *
    have hlength : (text ++ c ++ chunks.flatten).length =
        text.length + c.length + chunks.flatten.length := by
      simp only [List.length_append]
    have htext : 0 ∉ text := by
      intro h
      exact hzero (List.mem_append_left _ (List.mem_append_left _ h))
    have hfits : c.length ≤ PAGE_BUFFER_SIZE - text.length := by omega
    have hbehind : ∀ c' ∈ chunks, c' ≠ [] := fun c' hc' => hchunks c' (List.mem_cons_of_mem c hc')
    obtain ⟨w₁, hread, hleft⟩ := read_fits hreads (hchunks c List.mem_cons_self) hfits
    obtain ⟨w', hrest⟩ := ih hleft hbehind hzero hroom
    have hbody := readCgiBody_data htext (by omega) hread
    exact ⟨w', (Loop.run_of_body (l := readCgiLoop) hbody).trans hrest⟩

/-- `executeCGI` stays in the buffer, and what it sends are the status line, the line of the
server and the output. -/
def SendsOutput (env : Env) (d : HttpData) (w : World) (output : Str) : Prop :=
  ∃ o w', executeCGI env d w = (o, w') ∧ (∀ u, o ≠ .undefined u) ∧
    Hands sentBy w w' [firstLine_200 ++ output]

theorem zero_not_mem_firstLine_200 : 0 ∉ firstLine_200 := by decide +kernel

theorem length_padded (hroom : text.length ≤ PAGE_BUFFER_SIZE) :
    (padded text).length = PAGE_BUFFER_SIZE := by
  rw [padded, List.length_append, List.length_replicate]
  omega

theorem sendOutput_hands (env : Env) (buf : Str) (w : World) :
    ∃ o w', sendOutput env buf w = (o, w') ∧ (∀ u, o ≠ .undefined u) ∧
      Hands sentBy w w' [cString buf] := by
  let call : Call := .send .executeCGI (cString buf) (env.send w.calls.length)
  have hsend : Hands sentBy w (w.record call) [cString buf] := Hands.record w call
  have hrun : Work.send env .executeCGI (cString buf) w =
      (.ok (env.send w.calls.length).goesOn, w.record call) := if_neg (by simp [Sender.noSignal])
  rw [sendOutput, Prog.bind_ok hrun]
  split_ifs
  · exact ⟨_, _, rfl, fun u hu => (by cases hu), hsend.trans (Hands.record _ .waitpid)⟩
  · exact ⟨_, _, rfl, fun u hu => (by cases hu), hsend⟩

theorem readCgiLoop_hands (buf : Str) (w : World) :
    Hands sentBy w (readCgiLoop.run buf w).2 [] :=
  Hands.of_preserves (readCgiLoop_logs (fun _ => rfl) w buf) rfl

/-- Something is sent only when the loop ends, and that is a string of the buffer. -/
theorem returnOutput_hands (env : Env) (w : World) :
    ∃ sent, Hands sentBy w (returnOutput env w).2 sent ∧ ∀ bytes ∈ sent,
      ∃ buf : Str, buf.length = PAGE_BUFFER_SIZE ∧ 0 ∈ buf ∧ bytes = cString buf := by
  have hread := readCgiLoop_hands (padded firstLine_200) w
  have hcases := Prog.bind_run_cases (readCgiLoop.run (padded firstLine_200) : Work Str)
    (sendOutput env) w
  rcases hcases with ⟨buf, w₁, hloop, hsends⟩ | hends
  · obtain ⟨o, w₂, hrun, -, hsent⟩ := sendOutput_hands env buf w₁
    have hw₂ : (returnOutput env w).2 = w₂ := congrArg Prod.snd (hsends.trans hrun)
    rw [hloop] at hread
    rw [hw₂]
    refine ⟨_, hread.trans hsent, ?_⟩
    intro bytes hbytes
    rw [List.mem_singleton.mp hbytes]
    have hsize : (padded firstLine_200).length = PAGE_BUFFER_SIZE :=
      length_padded (by decide +kernel)
    obtain ⟨hlength, hzero⟩ := readCgiLoop_ok hsize hloop
    exact ⟨buf, hlength, hzero, rfl⟩
  · rw [← hends] at hread
    exact ⟨[], hread, fun bytes hbytes => absurd hbytes List.not_mem_nil⟩

/-- The calls up to the output send nothing. -/
theorem executeCGI_hands (h : Creates env d w) (hwrites : Unbroken env d w) :
    ∃ w₁, executeCGI env d w = returnOutput env w₁ ∧ w₁.cgiReads = w.cgiReads ∧
      Hands sentBy w w₁ [] := by
  obtain ⟨cgiInput, cgiOutput, w₁, hrun, hreads, hcalls⟩ := executeCGI_unbroken h hwrites
  refine ⟨w₁, hrun, hreads, _, hcalls, ?_⟩
  rw [List.flatMap_append, flatMap_writeCalls (g := fun _ => []) fun _ _ => rfl]
  simp [createCalls, sentBy]

/-- Nothing is sent if a `write` does not come back. -/
theorem SendsOutput.unbroken {output : Str} (hcreates : Creates env d w)
    (h : SendsOutput env d w output) : Unbroken env d w := by
  obtain ⟨o, w', hrun, -, hsent⟩ := h
  obtain ⟨cgiInput, cgiOutput, w₁, hcreated, -, hcalls⟩ := executeCGI_creates hcreates
  have hlength : w₁.calls.length = w.calls.length + 5 := by
    rw [hcalls, List.length_append]
    rfl
  have hbefore : Hands sentBy w w₁ [] := ⟨_, hcalls, rfl⟩
  let ps := (iterated env d).flatMap paramWrites
  have hwrites : Hands sentBy w₁ (writeAll env cgiInput.2 ps w₁).2 [] :=
    Hands.of_preserves (writeAll_logs (fun _ _ => rfl) w₁ ps) rfl
  rcases Prog.bind_run_cases (writeAll env cgiInput.2 ps) (fun _ => returnOutput env) w₁ with
    ⟨u, w₂, hok, -⟩ | hends
  · have hback := writeAll_eq_ok hok
    rwa [hlength] at hback
  · rw [← hcreated, hrun] at hends
    rw [← hends] at hwrites
    cases hsent.unique (hbefore.trans hwrites)

/-- What is sent was a string in the buffer. -/
theorem SendsOutput.fits {output : Str} (hcreates : Creates env d w)
    (h : SendsOutput env d w output) :
    0 ∉ output ∧ firstLine_200.length + output.length < PAGE_BUFFER_SIZE := by
  have hwrites := h.unbroken hcreates
  obtain ⟨o, w', hrun, -, hsent⟩ := h
  obtain ⟨w₁, hcreated, -, hcalls⟩ := executeCGI_hands hcreates hwrites
  obtain ⟨sent, hreturns, hstring⟩ := returnOutput_hands env w₁
  rw [← hcreated, hrun] at hreturns
  have hone : sent = [firstLine_200 ++ output] := (hcalls.trans hreturns).unique hsent
  obtain ⟨buf, hlength, hzero, hbytes⟩ := hstring _ (hone ▸ List.mem_singleton_self _)
  have hlt := length_cString_lt hzero
  have hnone := zero_not_mem_cString buf
  rw [← hbytes, List.length_append, hlength] at hlt
  rw [← hbytes, List.mem_append, not_or] at hnone
  exact ⟨hnone.2, hlt⟩

/-- The output is sent as it is exactly if every `write` of the parameters comes back, the output
has no NUL, and there is room for it in the buffer. -/
theorem sends_output_iff (hcreates : Creates env d w)
    (hreads : w.cgiReads = chunks.map .data ++ .eof :: rest) (hchunks : ∀ c ∈ chunks, c ≠ []) :
    SendsOutput env d w chunks.flatten ↔
      Unbroken env d w ∧ 0 ∉ chunks.flatten ∧
        firstLine_200.length + chunks.flatten.length < PAGE_BUFFER_SIZE := by
  constructor
  · intro h
    exact ⟨h.unbroken hcreates, h.fits hcreates⟩
  · rintro ⟨hwrites, hzero, hroom⟩
    obtain ⟨w₁, hrun, hreads₁, hcalls⟩ := executeCGI_hands hcreates hwrites
    have htext : 0 ∉ firstLine_200 ++ chunks.flatten := by
      rw [List.mem_append, not_or]
      exact ⟨zero_not_mem_firstLine_200, hzero⟩
    rw [← List.length_append] at hroom
    obtain ⟨w₂, hloop⟩ := readCgiLoop_fits (hreads₁.trans hreads) hchunks htext hroom
    have hread := readCgiLoop_hands (padded firstLine_200) w₁
    rw [hloop] at hread
    obtain ⟨o, w', hsend, hdefined, hsent⟩ :=
      sendOutput_hands env (padded (firstLine_200 ++ chunks.flatten)) w₂
    rw [cString_padded htext] at hsent
    exact ⟨o, w', (hrun.trans (Prog.bind_ok hloop)).trans hsend, hdefined,
      hcalls.trans (hread.trans hsent)⟩

/-- A request with one parameter. -/
def query : HttpData :=
  { HttpData.new calmEnv 5 with
    url := str "www/check.cgi", clientParamData := some (AList.insert (str "a") [] ∅) }

/-- The CGI process writes the output at once. -/
def answeredBy (output : Str) : World :=
  { firstClient 5 [] with cgiReads := [.data output, .eof] }

theorem query_creates (output : Str) : Creates calmEnv query (answeredBy output) :=
  ⟨by decide +kernel, rfl, rfl, rfl⟩

theorem query_unbroken (w : World) : Unbroken calmEnv query w := fun _ _ => rfl

theorem sends_output_page : SendsOutput calmEnv query (answeredBy (str "\r\n<html></html>\n"))
    (str "\r\n<html></html>\n") := by
  have hreads : (answeredBy (str "\r\n<html></html>\n")).cgiReads =
      [str "\r\n<html></html>\n"].map .data ++ .eof :: [] := rfl
  have hchunks : ∀ c ∈ [str "\r\n<html></html>\n"], c ≠ [] := by decide +kernel
  have hfits : 0 ∉ [str "\r\n<html></html>\n"].flatten ∧ firstLine_200.length +
      [str "\r\n<html></html>\n"].flatten.length < PAGE_BUFFER_SIZE := by decide +kernel
  have hsends := (sends_output_iff (query_creates _) hreads hchunks).mpr
    ⟨query_unbroken _, hfits⟩
  rwa [List.flatten_singleton] at hsends

/-- An output of 2048 characters leaves the buffer without a NUL. -/
theorem not_sends_output : ¬ ∀ env d w (chunks : List Str) rest, Creates env d w →
    Unbroken env d w → w.cgiReads = chunks.map .data ++ .eof :: rest → (∀ c ∈ chunks, c ≠ []) →
      SendsOutput env d w chunks.flatten := by
  intro hall
  have hchunks : ∀ c ∈ [List.replicate 2048 (97 : UInt8)], c ≠ [] := by
    intro c hc
    rw [List.mem_singleton.mp hc, Ne, List.replicate_eq_nil_iff]
    decide
  have hsends := hall calmEnv query (answeredBy (List.replicate 2048 97))
    [List.replicate 2048 97] [] (query_creates _) (query_unbroken _) rfl hchunks
  have hroom := (hsends.fits (query_creates _)).2
  rw [List.flatten_singleton, List.length_replicate] at hroom
  have hsize : PAGE_BUFFER_SIZE = 2048 := rfl
  omega

end Responser
end LxcHttpServer
