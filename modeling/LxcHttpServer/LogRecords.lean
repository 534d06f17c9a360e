import LxcHttpServer.BufferOwnership

/-!
# What reaches the file

The records on their way are in the backend's vector, which is written from its
back, then in `toWriteBuffers`, then in `curBuffer`. A pass of the backend moves
what is in the last two into the first, in this order if there is at most one
full buffer. What is not in the backend's vector when it reads `running` as false
is never written.
-/
namespace LxcHttpServer.AsyncLoger
open PartialRuns

variable {raw : Fin 4 → RawBuffer} {s s' : AsyncLoger} {a : Label}

/-- What the buffers hold, one after the other. -/
def pendingOf (pointers : List (Option Buffer)) : Str :=
  (pointers.reduceOption.map Buffer.pending).flatten

@[simp] theorem pendingOf_nil : pendingOf [] = [] := rfl

@[simp] theorem pendingOf_append (ps qs : List (Option Buffer)) :
    pendingOf (ps ++ qs) = pendingOf ps ++ pendingOf qs := by
  simp [pendingOf, List.reduceOption_append]

@[simp] theorem pendingOf_none (ps : List (Option Buffer)) :
    pendingOf (none :: ps) = pendingOf ps := rfl

@[simp] theorem pendingOf_some (b : Buffer) (ps : List (Option Buffer)) :
    pendingOf (some b :: ps) = b.pending ++ pendingOf ps := by
  simp [pendingOf, List.reduceOption_cons_of_some]

/-- What is in the file, and what the backend writes without another pass. -/
def drained (s : AsyncLoger) : Str := s.file ++ pendingOf s.writeQueue.reverse

/-- What waits for the next pass. -/
def undrained (s : AsyncLoger) : Str := pendingOf (s.toWriteBuffers ++ [s.curBuffer])

/-- The buffers are sound, those that are empty hold nothing, and what is written and what is on
its way are the accepted records in order. -/
structure Orderly (s : AsyncLoger) : Prop extends Shape s where
  noNull : none ∉ s.writeQueue
  current : ∀ b, s.curBuffer = some b → b.Sound
  spare : ∀ b, some b ∈ s.emptyBuffers → b.Fresh
  filled : ∀ b, some b ∈ s.toWriteBuffers → b.Sound
  queued : ∀ b, some b ∈ s.writeQueue → b.Sound
  done : ∀ queue b, s.backend = .returning → s.writeQueue = queue ++ [some b] → b.Fresh
  order : s.drained ++ s.undrained = s.accepted.flatten

theorem orderly_new (hraw : Intact raw) : Orderly (new raw) where
  toShape := shape_new raw
  noNull := List.not_mem_nil
  current b hb := by
    cases hb
    exact (Buffer.new_fresh (hraw 3) _ _).toSound
  spare b hb := by
    simp only [new, List.mem_cons, Option.some.injEq, List.not_mem_nil, or_false] at hb
    rcases hb with rfl | rfl | rfl
    · exact Buffer.new_fresh (hraw 0) _ _
    · exact Buffer.new_fresh (hraw 1) _ _
    · exact Buffer.new_fresh (hraw 2) _ _
  filled b hb := absurd hb List.not_mem_nil
  queued b hb := absurd hb List.not_mem_nil
  done queue b hpc := by simp [new] at hpc
  order := by simp [drained, undrained, new, (Buffer.new_fresh (hraw 3) 3 _).pending]

/-- A pass moves what waits behind what the backend has. -/
theorem collect_drained (hs : s.Orderly) (hpc : s.backend = .waiting)
    (hone : s.toWriteBuffers.length ≤ 1) :
    s.collect.drained = s.drained ++ s.undrained ∧ s.collect.undrained = [] := by
  have hqueue : s.writeQueue = [] := hs.idle (by simp [hpc]) (by simp [hpc])
  have hreverse : s.toWriteBuffers.reverse = s.toWriteBuffers := by
    match s.toWriteBuffers, hone with
    | [], _ => rfl
    | [p], _ => rfl
  cases hcur : s.curBuffer with
  | none =>
    rw [collect_of_null hcur, drain_of_le _ hone]
    simp [drained, undrained, hqueue, hreverse, hcur]
  | some b =>
    rw [collect_of_some hcur, drain_of_le _ hone]
    refine ⟨by simp [drained, undrained, hqueue, hreverse, hcur], ?_⟩
    simp only [undrained, List.nil_append]
    cases hback : s.emptyBuffers.getLast?.join with
    | none => rfl
    | some c =>
      obtain ⟨spare, hspare⟩ := List.getLast?_eq_some_iff.mp (Option.join_eq_some_iff.mp hback)
      rw [pendingOf_some, (hs.spare c (by simp [hspare])).pending]
      rfl

/-- What a step makes of the records: it adds some of them at the end, and only a pass of the
backend moves them on. -/
theorem Step.flow (h : Step s a s') (hs : s.Orderly) (hone : s.OneFull a)
    (hwhole : a ≠ .writeFails) : ∃ new, s'.accepted = s.accepted ++ new ∧
      (s'.drained = s.drained ∧ s'.undrained = s.undrained ++ new.flatten ∧
          (s.backend = .waiting → s'.backend = .waiting) ∨
        s.backend = .waiting ∧ new = [] ∧ s'.drained = s.drained ++ s.undrained ∧
          s'.undrained = []) := by
  cases h with
  | @stores date logline b b' hcur hroom happend =>
    refine ⟨[record date logline], rfl, .inl ⟨rfl, ?_, id⟩⟩
    simp [undrained, hcur, (Buffer.appendRecord_extends happend).pending]
  | @exchanges date logline b c c' spare hcur hroom hspare happend =>
    have hc : c.Fresh := hs.spare c (by simp [hspare])
    refine ⟨[record date logline], rfl, .inl ⟨rfl, ?_, id⟩⟩
    simp [undrained, hcur, (Buffer.appendRecord_extends happend).pending, hc.pending]
  | drops hcur hroom hnone =>
    refine ⟨[], by simp, .inl ⟨rfl, ?_, id⟩⟩
    simp [undrained, hcur]
  | collects hpc =>
    obtain ⟨hdrained, hundrained⟩ := collect_drained hs hpc (hone rfl hpc)
    exact ⟨[], by simp, .inr ⟨hpc, rfl, hdrained, hundrained⟩⟩
  | @writes queue b b' text hpc hqueue hwrite =>
    refine ⟨[], by simp, .inl ⟨?_, by simp [undrained], by simp [hpc]⟩⟩
    obtain ⟨rfl, rfl⟩ := Buffer.written_eq hwrite
    simp [drained, hqueue, Buffer.pending]
  | fails => exact absurd rfl hwhole
  | returns hpc =>
    obtain ⟨queue, b, hqueue⟩ := hs.written hpc
    refine ⟨[], by simp, .inl ⟨?_, by simp [undrained], by simp [hpc]⟩⟩
    simp [drained, hqueue, (hs.done queue b hpc hqueue).pending]
  | goesOn hpc | ends hpc | allWritten hpc =>
    exact ⟨[], by simp, .inl ⟨rfl, by simp [undrained], by simp [hpc]⟩⟩
  | rejects | stop | notify | join =>
    exact ⟨[], by simp, .inl ⟨rfl, by simp [undrained], id⟩⟩

theorem Step.current (h : Step s a s') (hs : s.Orderly) :
    ∀ b, s'.curBuffer = some b → b.Sound := by
  intro b₁ hb₁
  cases h with
  | stores hcur hroom happend =>
    cases hb₁
    exact (hs.current _ hcur).stores hroom (Buffer.appendRecord_extends happend)
  | exchanges hcur hroom hspare happend =>
    cases hb₁
    exact (hs.spare _ (by simp [hspare])).extends (Buffer.appendRecord_extends happend)
  | drops => cases hb₁
  | collects hpc =>
    cases hcur : s.curBuffer with
    | none => simp [collect_of_null hcur, hcur] at hb₁
    | some b =>
      simp only [collect_of_some hcur] at hb₁
      have hlast := List.mem_of_getLast? (Option.join_eq_some_iff.mp hb₁)
      exact (hs.spare b₁ hlast).toSound
  | _ => exact hs.current b₁ hb₁

theorem Step.spare (h : Step s a s') (hs : s.Orderly) (hwhole : a ≠ .writeFails) :
    ∀ b, some b ∈ s'.emptyBuffers → b.Fresh := by
  intro b₁ hb₁
  cases h with
  | exchanges hcur hroom hspare happend => exact hs.spare b₁ (by simp [hspare, hb₁])
  | collects hpc =>
    exact hs.spare b₁ (collect_emptyBuffers_subset hb₁)
  | returns hpc =>
    obtain ⟨queue, b, hqueue⟩ := hs.written hpc
    simp only [hqueue, List.getLast?_concat, Option.join_some, List.mem_append,
      List.mem_singleton, Option.some.injEq] at hb₁
    rcases hb₁ with hb₁ | rfl
    · exact hs.spare b₁ hb₁
    · exact hs.done queue b₁ hpc hqueue
  | fails => exact absurd rfl hwhole
  | _ => exact hs.spare b₁ hb₁

theorem Step.filled (h : Step s a s') (hs : s.Orderly) :
    ∀ b, some b ∈ s'.toWriteBuffers → b.Sound := by
  intro b₁ hb₁
  cases h with
  | exchanges hcur | drops hcur =>
    simp only [List.mem_append, List.mem_singleton, Option.some.injEq] at hb₁
    rcases hb₁ with hb₁ | rfl
    · exact hs.filled b₁ hb₁
    · exact hs.current b₁ hcur
  | collects hpc => exact absurd hb₁ List.not_mem_nil
  | _ => exact hs.filled b₁ hb₁

theorem Step.queued (h : Step s a s') (hs : s.Orderly) (hone : s.OneFull a)
    (hwhole : a ≠ .writeFails) : ∀ b, some b ∈ s'.writeQueue → b.Sound := by
  intro b₁ hb₁
  cases h with
  | collects hpc =>
    rw [collect_writeQueue, drain_of_le _ (hone rfl hpc), List.mem_append, List.mem_append] at hb₁
    rcases hb₁ with (hb₁ | hb₁) | hb₁
    · exact hs.queued b₁ hb₁
    · exact hs.current b₁ (by simpa using hb₁)
    · exact hs.filled b₁ hb₁
  | @writes queue b b' text hpc hqueue hwrite =>
    obtain ⟨-, rfl⟩ := Buffer.written_eq hwrite
    have hb : b.Sound := hs.queued b (by simp [hqueue])
    simp only [List.mem_append, List.mem_singleton, Option.some.injEq] at hb₁
    rcases hb₁ with hb₁ | rfl
    · exact hs.queued b₁ (by simp [hqueue, hb₁])
    · exact ⟨hb.bufferSize, hb.allocated, Nat.zero_le _⟩
  | fails => exact absurd rfl hwhole
  | returns hpc => exact hs.queued b₁ (List.dropLast_subset _ hb₁)
  | _ => exact hs.queued b₁ hb₁

/-- The buffer that was just written is empty. -/
theorem Step.done (h : Step s a s') (hs : s.Orderly) (hwhole : a ≠ .writeFails) :
    ∀ queue b, s'.backend = .returning → s'.writeQueue = queue ++ [some b] → b.Fresh := by
  intro queue₁ b₁ hpc₁ hqueue₁
  cases h with
  | @writes queue b b' text hpc hqueue hwrite =>
    obtain ⟨-, rfl⟩ := Buffer.written_eq hwrite
    have hb : b.Sound := hs.queued b (by simp [hqueue])
    obtain ⟨-, hlast⟩ := List.append_inj' hqueue₁ rfl
    cases hlast
    exact ⟨⟨hb.bufferSize, hb.allocated, Nat.zero_le _⟩, rfl⟩
  | fails => exact absurd rfl hwhole
  | goesOn | ends | allWritten | returns => cases hpc₁
  | collects hpc => simp at hpc₁
  | _ => exact hs.done queue₁ b₁ hpc₁ hqueue₁

theorem Step.order (h : Step s a s') (hs : s.Orderly) (hone : s.OneFull a)
    (hwhole : a ≠ .writeFails) : s'.drained ++ s'.undrained = s'.accepted.flatten := by
  obtain ⟨new, haccepted, ⟨hdrained, hundrained, -⟩ | ⟨-, rfl, hdrained, hundrained⟩⟩ :=
    h.flow hs hone hwhole
  · rw [haccepted, hdrained, hundrained, ← List.append_assoc, hs.order, List.flatten_append]
  · rw [haccepted, hdrained, hundrained, hs.order, List.append_nil, List.append_nil]

theorem Step.orderly (h : Step s a s') (hs : s.Orderly) (hone : s.OneFull a)
    (hwhole : a ≠ .writeFails) : s'.Orderly where
  toShape := h.shape hs.toShape
  noNull := h.noNull hs.toShape hone hs.noNull
  current := h.current hs
  spare := h.spare hs hwhole
  filled := h.filled hs
  queued := h.queued hs hone hwhole
  done := h.done hs hwhole
  order := h.order hs hone hwhole

theorem writeBack_ok (hs : s.Orderly) (hne : s.writeQueue ≠ []) (written : Bool) :
    ∃ s', s.writeBack written = .ok s' := by
  obtain ⟨queue, p, hqueue⟩ := s.writeQueue.eq_nil_or_concat'.resolve_left hne
  cases p with
  | none => exact absurd (by simp [hqueue]) hs.noNull
  | some b =>
    have hb : b.Sound := hs.queued b (by simp [hqueue])
    have hinside : b.endPos ≤ b.chars.length := by
      rw [hb.allocated]
      exact hb.endPos
    have hback : s.writeQueue.getLast?.join = some b := by simp [hqueue]
    simp only [writeBack, hback, Buffer.writeToFile, if_pos hinside]
    exact ⟨_, rfl⟩

theorem log_ok (hs : s.Orderly) (date : DateString) (logline : Str) :
    ∃ s', s.step (.log date logline) = .ok s' := by
  cases hcur : s.curBuffer with
  | none =>
    refine ⟨s, bind_eq_ok_iff.mpr ⟨(some (-1), s), ?_, rfl⟩⟩
    simp only [logInfo, hcur]
  | some b =>
    have hb := hs.current b hcur
    by_cases hroom : b.endPos + (storedLine logline).length + 30 < LOGBUFFERSIZE
    · obtain ⟨b', -, hstep⟩ := log_stores date hcur hb hroom
      exact ⟨_, hstep⟩
    · rw [not_lt] at hroom
      rcases s.emptyBuffers.eq_nil_or_concat' with hempty | ⟨spare, p, hempty⟩
      · exact ⟨_, log_drops date hcur hb hroom hempty⟩
      · cases p with
        | none => exact absurd (by simp [hempty]) hs.empty
        | some c =>
          have hc : c.Fresh := hs.spare c (by simp [hempty])
          obtain ⟨c', -, hstep⟩ := log_exchanges date hcur hb hroom hempty hc
          exact ⟨_, hstep⟩

theorem Orderly.step_ok (hs : s.Orderly) (hen : s.enabled a) : ∃ s', s.step a = .ok s' := by
  cases a with
  | log date logline => exact log_ok hs date logline
  | backend =>
    cases hpc : s.backend <;> simp only [step, threadFun, hpc]
    case writing =>
      split_ifs with hnil
      · exact ⟨_, rfl⟩
      · exact writeBack_ok hs (by simpa using hnil) true
    all_goals exact ⟨_, rfl⟩
  | writeFails => exact writeBack_ok hs hen.2 false
  | stop => exact ⟨_, rfl⟩
  | notify => exact ⟨_, rfl⟩
  | join => exact ⟨_, rfl⟩

/-- The next buffer that the backend would write is a null pointer. -/
structure Derailed (s : AsyncLoger) : Prop where
  writing : s.backend = .writing
  null : ∃ queue, s.writeQueue = queue ++ [none]
  order : s.file <+: s.accepted.flatten

theorem Derailed.fault (hs : s.Derailed) : s.step .backend = .error .nullPointer := by
  obtain ⟨queue, hqueue⟩ := hs.null
  have hback : s.writeQueue.getLast?.join = none := by simp [hqueue]
  have hnil : s.writeQueue.isEmpty = false := by simp [hqueue]
  simp only [step, threadFun, hs.writing, hnil, writeBack, hback]
  rfl

/-- The backend does not move any more. -/
theorem Step.derailed (h : Step s a s') (hs : s.Derailed) : s'.Derailed := by
  have hpc := hs.writing
  obtain ⟨queue, hnull⟩ := hs.null
  cases h with
  | goesOn hpc' | ends hpc' | collects hpc' | returns hpc' =>
    rw [hpc] at hpc'
    cases hpc'
  | allWritten hpc' hqueue => simp [hnull] at hqueue
  | writes hpc' hqueue hwrite | fails hpc' hqueue hwrite =>
    obtain ⟨-, hlast⟩ := List.append_inj' (hnull.symm.trans hqueue) rfl
    cases hlast
  | stores | exchanges =>
    refine ⟨hpc, hs.null, hs.order.trans ?_⟩
    rw [List.flatten_append]
    exact List.prefix_append _ _
  | rejects | drops | stop | notify | join => exact ⟨hpc, hs.null, hs.order⟩

theorem Orderly.file_prefix (hs : s.Orderly) : s.file <+: s.accepted.flatten := by
  rw [← hs.order, drained, List.append_assoc]
  exact List.prefix_append _ _

theorem Orderly.derails (hs : s.Orderly) (hone : ¬ s.OneFull a) (hstep : s.step a = .ok s') :
    s'.Derailed := by
  have hnull := null_of_not_oneFull hone hstep
  have hprefix := hs.file_prefix
  simp only [OneFull, not_forall] at hone
  obtain ⟨rfl, hpc, -⟩ := hone
  simp only [step, threadFun, hpc] at hstep
  cases hstep
  exact ⟨collect_backend, hnull, by simpa using hprefix⟩

/-- A pass that finds two full buffers derails the backend, and nothing else does. -/
theorem orderly_or_derailed (hraw : Intact raw) {as : List Label}
    (h : system.Run (new raw) as s) (hwhole : .writeFails ∉ as) :
    system.Meets OneFull (new raw) as ∧ s.Orderly ∨
      ¬ system.Meets OneFull (new raw) as ∧ s.Derailed := by
  induction h with
  | nil => exact .inl ⟨.of_nil, orderly_new hraw⟩
  | @snoc as s s' a run enabled hstep ih =>
    have hcases := step_cases enabled hstep
    simp only [List.mem_append, List.mem_singleton, not_or] at hwhole
    rw [System.Meets.snoc_iff run]
    rcases ih hwhole.1 with ⟨hmeets, hs⟩ | ⟨hmeets, hs⟩
    · by_cases hone : s.OneFull a
      · exact .inl ⟨⟨hmeets, hone⟩, hcases.orderly hs hone (Ne.symm hwhole.2)⟩
      · exact .inr ⟨fun hboth => hone hboth.2, hs.derails hone hstep⟩
    · exact .inr ⟨fun hboth => hmeets hboth.1, hcases.derailed hs⟩

/-! ## The end of the backend -/

/-- Where the destructor changes `running`, the backend has read it and is about to make a pass,
or there is nothing for a pass to do. -/
def InTime (s : AsyncLoger) (a : Label) : Prop :=
  a = .stop → s.backend = .waiting ∨ s.undrained = []

/-- Since the destructor was called, the records promised are on their way to the file, or a pass
is to come. -/
structure Kept (s : AsyncLoger) : Prop where
  called : s.destructor ≠ .notCalled
  stopped : s.running = false
  order : s.promised.flatten <+: s.drained ∨
    s.backend = .waiting ∧ s.promised.flatten <+: s.accepted.flatten

/-- Some of the records promised are not on their way, and there will be no pass. -/
structure Lost (s : AsyncLoger) : Prop where
  called : s.destructor ≠ .notCalled
  stopped : s.running = false
  noPass : s.backend ≠ .waiting
  missing : s.drained.length < s.promised.flatten.length

theorem Step.promised_eq (h : Step s a s') (hne : a ≠ .stop) : s'.promised = s.promised := by
  cases h with
  | stop => exact absurd rfl hne
  | collects hpc => simp
  | _ => rfl

theorem promised_of_run {bs : List Label} {t : AsyncLoger} (h : system.Run s bs t)
    (hno : .stop ∉ bs) : t.promised = s.promised := by
  induction h with
  | nil => rfl
  | snoc run enabled step ih =>
    rw [List.mem_append, List.mem_singleton, not_or] at hno
    rw [(step_cases enabled step).promised_eq (Ne.symm hno.2), ih hno.1]

theorem Step.running_eq (h : Step s a s') (hne : a ≠ .stop) : s'.running = s.running := by
  cases h with
  | stop => exact absurd rfl hne
  | collects hpc => simp
  | _ => rfl

theorem Step.notCalled_iff (h : Step s a s') (hne : a ≠ .stop) :
    s'.destructor = .notCalled ↔ s.destructor = .notCalled := by
  cases h with
  | stop => exact absurd rfl hne
  | collects hpc => simp
  | notify hstopped => simp [hstopped]
  | join hnotified => simp [hnotified]
  | _ => rfl

theorem Step.kept (h : Step s a s') (hs : s.Orderly) (hone : s.OneFull a)
    (hwhole : a ≠ .writeFails) (hne : a ≠ .stop) (hkept : s.Kept) : s'.Kept where
  called := (h.notCalled_iff hne).not.mpr hkept.called
  stopped := by rw [h.running_eq hne, hkept.stopped]
  order := by
    rw [h.promised_eq hne]
    obtain ⟨new, haccepted, ⟨hdrained, -, hpc⟩ | ⟨-, rfl, hdrained, -⟩⟩ := h.flow hs hone hwhole
    · rcases hkept.order with hleft | ⟨hwaiting, hright⟩
      · exact .inl (hdrained ▸ hleft)
      · refine .inr ⟨hpc hwaiting, hright.trans ?_⟩
        rw [haccepted, List.flatten_append]
        exact List.prefix_append _ _
    · -- the pass takes along everything that was accepted
      left
      rw [hdrained]
      rcases hkept.order with hleft | ⟨-, hright⟩
      · exact hleft.trans (List.prefix_append _ _)
      · rw [hs.order]
        exact hright

/-- With `running` false the backend does not go on to wait. -/
theorem Step.noPass (h : Step s a s') (hrun : s.running = false) (hpc : s.backend ≠ .waiting) :
    s'.backend ≠ .waiting := by
  cases h with
  | goesOn hpc' hrun' => simp [hrun] at hrun'
  | collects hpc' => exact absurd hpc' hpc
  | ends | allWritten | writes | fails | returns => simp
  | _ => exact hpc

theorem Step.lost (h : Step s a s') (hs : s.Orderly) (hone : s.OneFull a)
    (hwhole : a ≠ .writeFails) (hne : a ≠ .stop) (hlost : s.Lost) : s'.Lost where
  called := (h.notCalled_iff hne).not.mpr hlost.called
  stopped := by rw [h.running_eq hne, hlost.stopped]
  noPass := h.noPass hlost.stopped hlost.noPass
  missing := by
    rw [h.promised_eq hne]
    obtain ⟨new, -, ⟨hdrained, -⟩ | ⟨hpc, -⟩⟩ := h.flow hs hone hwhole
    · rw [hdrained]
      exact hlost.missing
    · exact absurd hpc hlost.noPass

/-- The moment the destructor is called decides. -/
theorem Orderly.stop_kept (hs : s.Orderly) (hin : s.InTime .stop) :
    Kept { s with running := false, destructor := .stopped, promised := s.accepted } where
  called := by simp
  stopped := rfl
  order := by
    rcases hin rfl with hpc | hnone
    · exact .inr ⟨hpc, List.prefix_refl _⟩
    · left
      have horder := hs.order
      rw [hnone, List.append_nil] at horder
      rw [← horder]
      exact List.prefix_refl _

theorem Orderly.stop_lost (hs : s.Orderly) (hlate : ¬ s.InTime .stop) :
    Lost { s with running := false, destructor := .stopped, promised := s.accepted } where
  called := by simp
  stopped := rfl
  noPass hpc := hlate fun _ => .inl hpc
  missing := by
    have hsome : s.undrained ≠ [] := fun hnone => hlate fun _ => .inr hnone
    have hpos := List.length_pos_iff.mpr hsome
    have horder := congrArg List.length hs.order
    rw [List.length_append] at horder
    change s.drained.length < s.accepted.flatten.length
    omega

theorem kept_or_lost (hraw : Intact raw) {as : List Label} (h : system.Run (new raw) as s)
    (hwhole : .writeFails ∉ as) (hone : system.Meets OneFull (new raw) as) :
    system.Meets InTime (new raw) as ∧ (s.destructor = .notCalled ∨ s.Kept) ∨
      ¬ system.Meets InTime (new raw) as ∧ s.Lost := by
  induction h with
  | nil => exact .inl ⟨.of_nil, .inl rfl⟩
  | @snoc as s s' a run enabled hstep ih =>
    have hcases := step_cases enabled hstep
    simp only [List.mem_append, List.mem_singleton, not_or] at hwhole
    have hwrite : a ≠ .writeFails := Ne.symm hwhole.2
    rw [System.Meets.snoc_iff run] at hone ⊢
    have hs : s.Orderly := by
      rcases orderly_or_derailed hraw run hwhole.1 with ⟨-, hs⟩ | ⟨hnot, -⟩
      · exact hs
      · exact absurd hone.1 hnot
    by_cases hstop : a = .stop
    · subst hstop
      have hnot : s.destructor = .notCalled := enabled
      cases hstep
      rcases ih hwhole.1 hone.1 with ⟨hmeets, -⟩ | ⟨-, hlost⟩
      · by_cases hin : s.InTime .stop
        · exact .inl ⟨⟨hmeets, hin⟩, .inr (hs.stop_kept hin)⟩
        · exact .inr ⟨fun hboth => hin hboth.2, hs.stop_lost hin⟩
      · exact absurd hnot hlost.called
    · have hin : s.InTime a := fun heq => absurd heq hstop
      rcases ih hwhole.1 hone.1 with ⟨hmeets, hnot | hkept⟩ | ⟨hmeets, hlost⟩
      · exact .inl ⟨⟨hmeets, hin⟩, .inl ((hcases.notCalled_iff hstop).mpr hnot)⟩
      · exact .inl ⟨⟨hmeets, hin⟩, .inr (hcases.kept hs hone.2 hwrite hstop hkept)⟩
      · exact .inr ⟨fun hboth => hmeets hboth.1, hcases.lost hs hone.2 hwrite hstop hlost⟩

/-- The backend has ended when the destructor has joined it. -/
theorem joined_exited {as : List Label} (h : system.Run (new raw) as s)
    (hjoined : s.destructor = .joined) : s.backend = .exited := by
  revert hjoined
  refine h.invariant (P := fun t => t.destructor = .joined → t.backend = .exited)
    (by simp [new]) ?_
  intro t a t' ht hen hstep
  cases step_cases hen hstep with
  | goesOn hpc | ends hpc | collects hpc | allWritten hpc | writes hpc | fails hpc | returns hpc =>
    intro hjoined
    have hexited := ht (by simpa using hjoined)
    simp [hpc] at hexited
  | stop | notify => simp
  | join hnotified hexited => exact fun _ => hexited
  | _ => exact ht

/-- Of the backend that has ended everything it had is in the file. -/
theorem promised_written_iff (hraw : Intact raw) {as : List Label} (h : system.Run (new raw) as s)
    (hwhole : .writeFails ∉ as) (hjoined : s.destructor = .joined) :
    s.promised.flatten <+: s.file ↔ system.Meets InTime (new raw) as := by
  have hexited := joined_exited h hjoined
  rcases orderly_or_derailed hraw h hwhole with ⟨hone, hs⟩ | ⟨-, hs⟩
  · have hqueue : s.writeQueue = [] := hs.idle (by simp [hexited]) (by simp [hexited])
    have hdrained : s.drained = s.file := by simp [drained, hqueue]
    rcases kept_or_lost hraw h hwhole hone with ⟨hmeets, hnot | hkept⟩ | ⟨hlate, hlost⟩
    · simp [hnot] at hjoined
    · simp only [hmeets, iff_true]
      rcases hkept.order with hleft | ⟨hpc, -⟩
      · exact hdrained ▸ hleft
      · simp [hexited] at hpc
    · simp only [hlate, iff_false]
      intro hprefix
      have hmissing := hlost.missing
      have hlen := hprefix.length_le
      rw [hdrained] at hmissing
      omega
  · simp [hs.writing] at hexited

section Layout
variable {dtor : Destructor} {pc : Backend} {cur : Option Buffer}
  {empty full queue : List (Option Buffer)} {b : Buffer}

theorem Layout.stops (h : s.Layout .notCalled pc cur empty full queue) :
    ∃ t, system.Run s [.stop] t ∧ t.Layout .stopped pc cur empty full queue ∧
      t.promised = s.accepted :=
  ⟨_, .single h.destructor rfl, ⟨by simp, rfl, h.curBuffer, h.emptyBuffers, h.toWriteBuffers,
    h.writeQueue, h.backend⟩, rfl⟩

theorem Layout.allWritten (h : s.Layout dtor .writing cur empty full []) :
    ∃ t, system.Run s [.backend] t ∧ t.Layout dtor .test cur empty full [] := by
  have hnil : s.writeQueue.isEmpty = true := by simp [h.writeQueue]
  have hstep : s.threadFun = .ok { s with backend := .test } := by
    simp only [threadFun, h.backend, hnil, if_true]
  exact ⟨_, h.backend_step (by simp) hstep, h.running, h.destructor, h.curBuffer, h.emptyBuffers,
    h.toWriteBuffers, h.writeQueue, rfl⟩

theorem Layout.ends (h : s.Layout .stopped .test cur empty full queue) :
    ∃ t, system.Run s [.backend] t ∧ t.Layout .stopped .exited cur empty full queue := by
  have hrun : ¬ s.running = true := by simp [h.running]
  have hstep : s.threadFun = .ok { s with backend := .exited } := by
    simp only [threadFun, h.backend, if_neg hrun]
  exact ⟨_, h.backend_step (by simp) hstep, h.running, h.destructor, h.curBuffer, h.emptyBuffers,
    h.toWriteBuffers, h.writeQueue, rfl⟩

theorem Layout.joins (h : s.Layout .stopped .exited cur empty full queue) :
    ∃ t, system.Run s [.notify, .join] t ∧ t.destructor = .joined := by
  have hnotify : system.Run s [.notify] { s with destructor := .notified } :=
    .single h.destructor rfl
  have hjoin : system.Run { s with destructor := .notified } [.join]
      { s with destructor := .joined } := .single ⟨rfl, h.backend⟩ rfl
  exact ⟨_, hnotify.append hjoin, rfl⟩

/-- The backend writes the buffer it has and ends, and is joined. -/
theorem Layout.finishes (h : s.Layout .stopped .writing cur empty full [some b]) (hb : b.Sound) :
    ∃ t, system.Run s [.backend, .backend, .backend, .backend, .notify, .join] t ∧
      t.destructor = .joined := by
  obtain ⟨b', s₁, h₁, hs₁⟩ := h.writes [] hb
  obtain ⟨s₂, h₂, hs₂⟩ := hs₁.returns []
  obtain ⟨s₃, h₃, hs₃⟩ := hs₂.allWritten
  obtain ⟨s₄, h₄, hs₄⟩ := hs₃.ends
  obtain ⟨s₅, h₅, hjoined⟩ := hs₄.joins
  exact ⟨s₅, (((h₁.append h₂).append h₃).append h₄).append h₅, hjoined⟩

end Layout

/-- What is written is a prefix of the accepted records; no step goes wrong exactly where every
pass of the backend found at most one full buffer; and when the backend is joined the records
accepted before the destructor was called are in the file exactly where it was called between the
test of `running` and a pass, or with nothing left for a pass to do. -/
theorem records_written_iff (hraw : Intact raw) {as : List Label} (h : system.Run (new raw) as s)
    (hwhole : .writeFails ∉ as) :
    s.file <+: s.accepted.flatten ∧
      ((∀ a e, s.enabled a → s.step a ≠ .error e) ↔ system.Meets OneFull (new raw) as) ∧
      (s.destructor = .joined →
        (s.promised.flatten <+: s.file ↔ system.Meets InTime (new raw) as)) := by
  refine ⟨?_, ?_, promised_written_iff hraw h hwhole⟩
  · rcases orderly_or_derailed hraw h hwhole with ⟨-, hs⟩ | ⟨-, hs⟩
    · exact hs.file_prefix
    · exact hs.order
  · rcases orderly_or_derailed hraw h hwhole with ⟨hone, hs⟩ | ⟨hnot, hs⟩
    · simp only [hone, iff_true]
      intro a e hen herror
      obtain ⟨t, ht⟩ := hs.step_ok hen
      rw [ht] at herror
      cases herror
    · simp only [hnot, iff_false]
      intro hall
      exact hall .backend .nullPointer (by simp [enabled, hs.writing]) hs.fault

/-- A record that is accepted while the backend waits, and then the destructor: all the
conditions hold, and the record is in the file. -/
theorem records_written_in_time : ∃ as s, system.Run (new zeroed) as s ∧
    s.destructor = .joined ∧ s.promised = [record epoch longLine] ∧
    system.Meets OneFull (new zeroed) as ∧ system.Meets InTime (new zeroed) as ∧
    s.promised.flatten <+: s.file := by
  obtain ⟨s₁, h₁, hs₁, hnone⟩ := (layout_new zeroed).waits
  obtain ⟨b, s₂, hb, h₂, hs₂, haccepted⟩ := hs₁.long_stores (by simp) (zeroed_fresh 3 3)
  obtain ⟨s₃, h₃, hs₃, hstop⟩ := hs₂.stops
  obtain ⟨s₄, h₄, hs₄⟩ := hs₃.collects (by simp)
  obtain ⟨s₅, h₅, hjoined⟩ := hs₄.finishes hb.toSound
  have hrest := h₄.append h₅
  have hrun := ((h₁.append h₂).append h₃).append hrest
  have hpromised : s₅.promised = [record epoch longLine] := by
    rw [promised_of_run hrest (by simp), hstop, haccepted, hnone]
    rfl
  obtain ⟨-, hsafe, hwritten⟩ := records_written_iff zeroed_intact hrun (by simp)
  have hbefore : system.Meets InTime (new zeroed) ([.backend] ++ [.log epoch longLine]) :=
    System.Meets.append_of_forall (.append_of_forall .of_nil (by simp [InTime])) (by simp [InTime])
  have hintime : system.Meets InTime (new zeroed)
      ([.backend] ++ [.log epoch longLine] ++ [.stop] ++
        ([.backend] ++ [.backend, .backend, .backend, .backend, .notify, .join])) := by
    apply System.Meets.append_of_forall
    · exact hbefore.snoc (h₁.append h₂) fun _ => .inl hs₂.backend
    · simp [InTime]
  refine ⟨_, s₅, hrun, hjoined, hpromised, hsafe.mp ?_, hintime, (hwritten hjoined).mpr hintime⟩
  -- the backend has ended, so no step is left that could go wrong
  intro a e hen
  have hexited := joined_exited hrun hjoined
  cases a <;> simp [enabled, hjoined, hexited] at hen

/-- The record is accepted while the backend writes, and stays in the current buffer. -/
theorem not_records_written : ¬ ∀ (raw : Fin 4 → RawBuffer) (as : List Label) (s : AsyncLoger),
    Intact raw → system.Run (new raw) as s → .writeFails ∉ as →
      s.file <+: s.accepted.flatten ∧
        (s.destructor = .joined → s.promised.flatten <+: s.file) := by
  intro hall
  obtain ⟨s₁, h₁, hs₁, -⟩ := (layout_new zeroed).waits
  obtain ⟨s₂, h₂, hs₂⟩ := hs₁.collects (by simp)
  obtain ⟨b, s₃, hb, h₃, hs₃, -⟩ := hs₂.long_stores (by simp) (zeroed_fresh 2 2)
  obtain ⟨s₄, h₄, hs₄, -⟩ := hs₃.stops
  obtain ⟨s₅, h₅, hjoined⟩ := hs₄.finishes (zeroed_fresh 3 3).toSound
  have hbefore := (h₁.append h₂).append h₃
  have hrun := (hbefore.append h₄).append h₅
  have hlate : ¬ s₃.InTime .stop := by
    intro hin
    have hpending := congrArg List.length ((hin rfl).resolve_left (by simp [hs₃.backend]))
    simp [undrained, hs₃.toWriteBuffers, hs₃.curBuffer, Buffer.pending, hb.filled, hb.allocated,
      LOGBUFFERSIZE, DATE_STRING_LEGTH] at hpending
  have hwritten := (hall zeroed _ s₅ zeroed_intact hrun (by simp)).2 hjoined
  have hmeets := (promised_written_iff zeroed_intact hrun (by simp) hjoined).mp hwritten
  exact hlate (hmeets _ .stop s₃ (List.prefix_append _ _) hbefore)

end LxcHttpServer.AsyncLoger
