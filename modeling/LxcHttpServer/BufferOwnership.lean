import LxcHttpServer.LoggerSteps
import Mathlib.Data.List.ReduceOption
import Mathlib.Algebra.Order.Group.Multiset
import Mathlib.Tactic.Abel

/-!
# Where the buffers are

A buffer is in `curBuffer`, in one of the two containers of the logger or in the
vector of the backend. The loop that empties `toWriteBuffers` moves from the back
and removes the front, so it keeps the buffers only where there is one. A current
buffer that was taken and not replaced is never replaced.
-/
namespace LxcHttpServer.AsyncLoger
open PartialRuns

variable {raw : Fin 4 → RawBuffer} {s s' : AsyncLoger} {a : Label}

/-- The buffers that these pointers own, with multiplicities. -/
def ids (pointers : List (Option Buffer)) : Multiset ℕ :=
  pointers.reduceOption.map Buffer.dataPtr

@[simp] theorem ids_nil : ids [] = 0 := rfl

@[simp] theorem ids_append (ps qs : List (Option Buffer)) : ids (ps ++ qs) = ids ps + ids qs := by
  simp [ids, List.reduceOption_append]

@[simp] theorem ids_some (b : Buffer) : ids [some b] = {b.dataPtr} := rfl

@[simp] theorem ids_none : ids [none] = 0 := rfl

/-- The buffers in the four places. -/
def owned (s : AsyncLoger) : Multiset ℕ :=
  ids [s.curBuffer] + ids s.emptyBuffers + ids s.toWriteBuffers + ids s.writeQueue

/-- The four buffers made by the constructor are in one place each, the containers hold nothing
else, and nothing is done through a null pointer. -/
structure InOnePlace (s : AsyncLoger) : Prop where
  once : s.owned = {0, 1, 2, 3}
  noNull : none ∉ s.emptyBuffers ++ s.toWriteBuffers ++ s.writeQueue
  safe : ∀ a, s.enabled a → s.step a ≠ .error .nullPointer

/-- A pass of the backend finds at most one full buffer. -/
def OneFull (s : AsyncLoger) (a : Label) : Prop :=
  a = .backend → s.backend = .waiting → s.toWriteBuffers.length ≤ 1

theorem owned_new (raw : Fin 4 → RawBuffer) : (new raw).owned = {0, 1, 2, 3} := by
  change (([3] : List ℕ) : Multiset ℕ) + ([0, 1, 2] : List ℕ) + 0 + 0 = {0, 1, 2, 3}
  decide

theorem ids_takeBack (ps : List (Option Buffer)) :
    ids [ps.getLast?.join] + ids ps.dropLast = ids ps := by
  induction ps using List.reverseRecOn with
  | nil => rfl
  | append_singleton ps p ih => simp [add_comm]

theorem drain_of_le (writeQueue : List (Option Buffer)) {toWrite : List (Option Buffer)}
    (h : toWrite.length ≤ 1) : drain writeQueue toWrite = writeQueue ++ toWrite := by
  match toWrite, h with
  | [], _ => simp [drain]
  | [p], _ => exact drain_concat writeQueue [] p

/-- Of two or more full buffers only the last one arrives, with null pointers behind it. -/
theorem drain_of_lt (writeQueue : List (Option Buffer)) {toWrite : List (Option Buffer)}
    (h : 1 < toWrite.length) : ∃ queue, drain writeQueue toWrite = queue ++ [none] := by
  induction toWrite using List.reverseRecOn with
  | nil => simp at h
  | append_singleton toWrite p ih =>
    obtain ⟨k, hk⟩ : ∃ k, toWrite.length = k + 1 := ⟨toWrite.length - 1, by simp at h; omega⟩
    refine ⟨writeQueue ++ p :: List.replicate k none, ?_⟩
    rw [drain_concat, hk, List.replicate_succ']
    simp

theorem owned_collect (hone : s.toWriteBuffers.length ≤ 1) : s.collect.owned = s.owned := by
  cases hcur : s.curBuffer with
  | none =>
    rw [collect_of_null hcur, drain_of_le _ hone]
    simp only [owned, hcur, ids_append, ids_nil]
    abel
  | some b =>
    rw [collect_of_some hcur, drain_of_le _ hone]
    simp only [owned, hcur, ids_append, ids_nil, ids_takeBack, ids_some]
    abel

theorem collect_noNull (hone : s.toWriteBuffers.length ≤ 1) (hs : s.Shape)
    (hqueue : none ∉ s.writeQueue) : none ∉ s.collect.writeQueue := by
  rw [collect_writeQueue, drain_of_le _ hone]
  simp [hs.full, hqueue]

theorem Buffer.writeToFile_dataPtr {b b' : Buffer} {written : Bool} {text : Str}
    (h : b.writeToFile written = .ok (text, b')) : b'.dataPtr = b.dataPtr := by
  unfold Buffer.writeToFile at h
  split_ifs at h <;> cases h <;> rfl

/-- A step moves buffers between the places, and keeps them. -/
theorem Step.owned (h : Step s a s') (hs : s.Shape) (hone : s.OneFull a) :
    s'.owned = s.owned := by
  cases h with
  | stores hcur hroom happend =>
    simp [AsyncLoger.owned, hcur, (Buffer.appendRecord_extends happend).dataPtr]
  | exchanges hcur hroom hspare happend =>
    simp only [AsyncLoger.owned, hcur, hspare, ids_append, ids_some,
      (Buffer.appendRecord_extends happend).dataPtr]
    abel
  | drops hcur hroom hnone =>
    simp only [AsyncLoger.owned, hcur, ids_append, ids_some, ids_none]
    abel
  | collects hpc => exact owned_collect (hone rfl hpc)
  | writes hpc hqueue hwrite =>
    simp [AsyncLoger.owned, hqueue, Buffer.writeToFile_dataPtr hwrite]
  | fails hpc hqueue hwrite =>
    simp [AsyncLoger.owned, hqueue, Buffer.writeToFile_dataPtr hwrite]
  | returns hpc =>
    obtain ⟨queue, b, hqueue⟩ := hs.written hpc
    simp only [AsyncLoger.owned, hqueue, List.getLast?_concat, Option.join_some,
      List.dropLast_concat, ids_append, ids_some]
    abel
  | rejects | goesOn | ends | allWritten | stop | notify | join => rfl

theorem Step.noNull (h : Step s a s') (hs : s.Shape) (hone : s.OneFull a)
    (hqueue : none ∉ s.writeQueue) : none ∉ s'.writeQueue := by
  cases h with
  | collects hpc => exact collect_noNull (hone rfl hpc) hs hqueue
  | writes hpc heq hwrite => simpa [heq] using hqueue
  | fails hpc heq hwrite => simpa [heq] using hqueue
  | returns hpc => exact fun h => hqueue (List.dropLast_subset _ h)
  | _ => exact hqueue

theorem append_ne_null {b : Buffer} {text : Str} : b.append text ≠ .error .nullPointer := by
  intro h
  unfold Buffer.append at h
  split_ifs at h
  cases h

theorem appendRecord_ne_null {b : Buffer} {date : DateString} {logline : Str} :
    b.appendRecord date logline ≠ .error .nullPointer := by
  intro h
  rcases bind_eq_error_iff.mp h with hfirst | ⟨b', hfirst, hsecond⟩
  · exact append_ne_null hfirst
  · exact append_ne_null hsecond

theorem logInfo_ne_null (hempty : none ∉ s.emptyBuffers) (date : DateString) (logline : Str) :
    s.logInfo date logline ≠ .error .nullPointer := by
  intro h
  unfold logInfo at h
  split at h
  · cases h
  · split_ifs at h
    · exact appendRecord_ne_null (bind_ok_eq_error_iff.mp h)
    · split at h
      · cases h
      · next hnull => exact hempty (List.mem_of_getLast? hnull)
      · exact appendRecord_ne_null (bind_ok_eq_error_iff.mp h)

theorem writeBack_ne_null {written : Bool} (hne : s.writeQueue ≠ [])
    (hnull : none ∉ s.writeQueue) : s.writeBack written ≠ .error .nullPointer := by
  intro h
  obtain ⟨queue, p, hqueue⟩ := s.writeQueue.eq_nil_or_concat'.resolve_left hne
  cases p with
  | none => simp [hqueue] at hnull
  | some b =>
    simp only [writeBack, hqueue, List.getLast?_concat, Option.join_some] at h
    have hwrite := bind_ok_eq_error_iff.mp h
    unfold Buffer.writeToFile at hwrite
    split_ifs at hwrite
    cases hwrite

theorem step_ne_null (hs : s.Shape) (hqueue : none ∉ s.writeQueue) (hen : s.enabled a) :
    s.step a ≠ .error .nullPointer := by
  intro h
  cases a with
  | log date logline =>
    exact logInfo_ne_null hs.empty date logline (bind_ok_eq_error_iff.mp h)
  | backend =>
    cases hpc : s.backend <;> simp only [step, threadFun, hpc] at h
    case writing =>
      split_ifs at h with hnil
      exact writeBack_ne_null (by simpa using hnil) hqueue h
    all_goals cases h
  | writeFails => exact writeBack_ne_null hen.2 hqueue h
  | stop | notify | join => cases h

/-- What the steps preserve while each pass finds at most one full buffer. -/
theorem inOnePlace_of_oneFull {as : List Label}
    (h : (system.restrict OneFull).Run (new raw) as s) : s.InOnePlace := by
  have hinv := h.invariant
    (P := fun t => t.owned = {0, 1, 2, 3} ∧ none ∉ t.writeQueue ∧ t.Shape)
    ⟨owned_new raw, List.not_mem_nil, shape_new raw⟩ (by
      intro t a t' ⟨honce, hnull, hs⟩ ⟨hen, hone⟩ hstep
      have hcases := step_cases hen hstep
      exact ⟨(hcases.owned hs hone).trans honce, hcases.noNull hs hone hnull, hcases.shape hs⟩)
  obtain ⟨honce, hnull, hs⟩ := hinv
  refine ⟨honce, ?_, fun a hen => step_ne_null hs hnull hen⟩
  simp [hs.empty, hs.full, hnull]

/-- A pass that finds more than one full buffer leaves null pointers for the backend. -/
theorem null_of_not_oneFull (hone : ¬ s.OneFull a) (hstep : s.step a = .ok s') :
    ∃ queue, s'.writeQueue = queue ++ [none] := by
  simp only [OneFull, not_forall, not_le] at hone
  obtain ⟨rfl, hpc, hlt⟩ := hone
  simp only [step, threadFun, hpc] at hstep
  cases hstep
  rw [collect_writeQueue]
  exact drain_of_lt _ hlt

/-- Along a run from the constructor each buffer is in one place, and no null pointer is stored or
used, exactly when every pass of the backend finds at most one full buffer. -/
theorem in_one_place_iff {as : List Label} (h : system.Run (new raw) as s) :
    system.Always InOnePlace (new raw) as ↔ system.Meets OneFull (new raw) as := by
  constructor
  · intro halways pre a t hpre ht
    by_contra hone
    obtain ⟨post, rfl⟩ := hpre
    obtain ⟨t', ht', -⟩ := h.split
    obtain ⟨u, hu, -, hstep⟩ := ht'.of_snoc
    cases hu.functional ht
    obtain ⟨queue, hqueue⟩ := null_of_not_oneFull hone hstep
    have hnull := (halways _ t' (List.prefix_append _ post) ht').noNull
    simp [hqueue] at hnull
  · intro hmeets
    exact System.Always.of_restrict hmeets fun _ _ hrun => inOnePlace_of_oneFull hrun

/-- Where the step takes the current buffer away there is an empty one to replace it. -/
def SpareAtHand (s : AsyncLoger) : Label → Prop
  | .log _ logline => ∀ b, s.curBuffer = some b →
      b.appendAvailable ((storedLine logline).length + DATE_STRING_LEGTH) = false →
        s.emptyBuffers ≠ []
  | .backend => s.backend = .waiting → s.curBuffer ≠ none → s.emptyBuffers ≠ []
  | .writeFails | .stop | .notify | .join => True

/-- Nothing replaces a current buffer that is null. -/
theorem Step.null (h : Step s a s') (hnull : s.curBuffer = none) : s'.curBuffer = none := by
  cases h with
  | stores hcur => simp [hcur] at hnull
  | exchanges hcur => simp [hcur] at hnull
  | drops hcur => rfl
  | collects hpc => rw [collect_of_null hnull, hnull]
  | _ => exact hnull

theorem takeBack_ne_null {ps : List (Option Buffer)} (hnull : none ∉ ps) :
    ps.getLast?.join ≠ none ↔ ps ≠ [] := by
  induction ps using List.reverseRecOn with
  | nil => simp
  | append_singleton ps p ih =>
    cases p with
    | none => simp at hnull
    | some b => simp

/-- A step leaves a current buffer exactly if it takes none away or finds an empty one. -/
theorem Step.current_iff (h : Step s a s') (hs : s.Shape) (hcur : s.curBuffer ≠ none) :
    s'.curBuffer ≠ none ↔ s.SpareAtHand a := by
  cases h with
  | rejects hnone => exact absurd hnone hcur
  | stores hb hroom happend => simp [SpareAtHand, hb, hroom]
  | exchanges hb hroom hspare happend => simp [SpareAtHand, hspare]
  | drops hb hroom hnone => simp [SpareAtHand, hb, hroom, hnone]
  | collects hpc =>
    obtain ⟨b, hb⟩ := Option.ne_none_iff_exists'.mp hcur
    rw [collect_of_some hb, takeBack_ne_null hs.empty]
    simp [SpareAtHand, hpc, hb]
  | goesOn hpc | ends hpc | allWritten hpc | writes hpc | returns hpc =>
    simp [SpareAtHand, hpc, hcur]
  | fails | stop | notify | join => simp [SpareAtHand, hcur]

theorem current_iff {as : List Label} (h : system.Run (new raw) as s) :
    s.curBuffer ≠ none ↔ system.Meets SpareAtHand (new raw) as := by
  induction h with
  | nil => simp [new, System.Meets.of_nil]
  | snoc run enabled step ih =>
    rw [System.Meets.snoc_iff run, ← ih]
    have hcases := step_cases enabled step
    constructor
    · intro hcur
      have hbefore := fun hnull => hcur (hcases.null hnull)
      exact ⟨hbefore, (hcases.current_iff (shape_of_run run) hbefore).mp hcur⟩
    · intro h
      exact (hcases.current_iff (shape_of_run run) h.1).mpr h.2

/-- The current buffer is null from the first step on that took it away with no empty one at
hand, whatever the backend returns later. -/
theorem exhaustion_permanent {as : List Label} (h : system.Run (new raw) as s) :
    (s.curBuffer = none ↔ ¬ system.Meets SpareAtHand (new raw) as) ∧
      ∀ bs t, s.curBuffer = none → system.Run s bs t → t.curBuffer = none := by
  constructor
  · rw [← current_iff h, not_not]
  · intro bs t hnull hrun
    exact hrun.invariant hnull fun _ _ _ hnull hen hstep => (step_cases hen hstep).null hnull

/-! ## A burst of long lines -/

/-- The memory happens to hold what the constructor of `Buffer` should have stored. -/
def Intact (raw : Fin 4 → RawBuffer) : Prop :=
  ∀ i, (raw i).bufferSize = LOGBUFFERSIZE ∧ (raw i).endPos = 0

def zeroed : Fin 4 → RawBuffer := fun _ =>
  ⟨LOGBUFFERSIZE, 0, List.replicate LOGBUFFERSIZE 0, List.length_replicate⟩

theorem zeroed_intact : Intact zeroed := fun _ => ⟨rfl, rfl⟩

/-- `time_t time(0)` makes every time stamp the beginning of the epoch. -/
def epoch : DateString where
  chars := str "19700101000000"
  length_eq := by decide +kernel

/-- The longest line that is stored as it is. -/
def longLine : Str := List.replicate (LOGBUFFERSIZE / 2) 120

theorem storedLine_longLine : (storedLine longLine).length = LOGBUFFERSIZE / 2 := by
  have hlen : longLine.length = LOGBUFFERSIZE / 2 := List.length_replicate
  rw [storedLine, if_neg (by omega), hlen]

/-- A second long line does not fit behind the first. -/
structure Filled (b : Buffer) : Prop extends b.Sound where
  filled : b.endPos = DATE_STRING_LEGTH + LOGBUFFERSIZE / 2

theorem Filled.of_extends {b b' : Buffer} (hb : b.Fresh)
    (h : b.Extends b' (record epoch longLine)) : Filled b' where
  toSound := hb.extends h
  filled := by rw [h.endPos, hb.start, record_length, storedLine_longLine, Nat.zero_add]

theorem Filled.full {b : Buffer} (hb : Filled b) :
    LOGBUFFERSIZE ≤ b.endPos + (storedLine longLine).length + 30 := by
  rw [hb.filled, storedLine_longLine]
  decide

/-- How far the destructor and the backend are, and where the buffers are. -/
structure Layout (s : AsyncLoger) (dtor : Destructor) (pc : Backend) (cur : Option Buffer)
    (empty full queue : List (Option Buffer)) : Prop where
  running : s.running = true ↔ dtor = .notCalled
  destructor : s.destructor = dtor
  curBuffer : s.curBuffer = cur
  emptyBuffers : s.emptyBuffers = empty
  toWriteBuffers : s.toWriteBuffers = full
  writeQueue : s.writeQueue = queue
  backend : s.backend = pc

section Layout
variable {dtor : Destructor} {pc : Backend} {cur p : Option Buffer}
  {empty full queue : List (Option Buffer)} {b c : Buffer}

theorem Layout.long_stores (h : s.Layout dtor pc (some b) empty full queue)
    (hopen : dtor ≠ .joined) (hb : b.Fresh) :
    ∃ b' t, Filled b' ∧ system.Run s [.log epoch longLine] t ∧
      t.Layout dtor pc (some b') empty full queue ∧
      t.accepted = s.accepted ++ [record epoch longLine] := by
  have hroom : b.endPos + (storedLine longLine).length + 30 < LOGBUFFERSIZE := by
    rw [hb.start, storedLine_longLine]
    decide
  obtain ⟨b', hext, hstep⟩ := log_stores epoch h.curBuffer hb.toSound hroom
  rw [← h.destructor] at hopen
  exact ⟨b', _, .of_extends hb hext, .single hopen hstep,
    ⟨h.running, h.destructor, rfl, h.emptyBuffers, h.toWriteBuffers, h.writeQueue, h.backend⟩, rfl⟩

theorem Layout.long_exchanges (empty : List (Option Buffer))
    (h : s.Layout dtor pc (some b) (empty ++ [some c]) full queue)
    (hopen : dtor ≠ .joined) (hb : Filled b) (hc : c.Fresh) :
    ∃ c' t, Filled c' ∧ system.Run s [.log epoch longLine] t ∧
      t.Layout dtor pc (some c') empty (full ++ [some b]) queue := by
  obtain ⟨c', hext, hstep⟩ := log_exchanges epoch h.curBuffer hb.toSound hb.full h.emptyBuffers hc
  rw [← h.destructor] at hopen
  exact ⟨c', _, .of_extends hc hext, .single hopen hstep,
    h.running, h.destructor, rfl, rfl, by rw [h.toWriteBuffers], h.writeQueue, h.backend⟩

theorem Layout.long_drops (h : s.Layout dtor pc (some b) [] full queue)
    (hopen : dtor ≠ .joined) (hb : Filled b) :
    ∃ t, system.Run s [.log epoch longLine] t ∧
      t.Layout dtor pc none [] (full ++ [some b]) queue := by
  rw [← h.destructor] at hopen
  exact ⟨_, .single hopen (log_drops epoch h.curBuffer hb.toSound hb.full h.emptyBuffers),
    h.running, h.destructor, rfl, h.emptyBuffers, by rw [h.toWriteBuffers], h.writeQueue, h.backend⟩

theorem Layout.backend_step (h : s.Layout dtor pc cur empty full queue) (hpc : pc ≠ .exited)
    {t : AsyncLoger} (hstep : s.threadFun = .ok t) : system.Run s [.backend] t := by
  have hen : s.enabled .backend := by
    rw [← h.backend] at hpc
    exact hpc
  exact .single hen hstep

theorem Layout.waits (h : s.Layout .notCalled .test cur empty full queue) :
    ∃ t, system.Run s [.backend] t ∧ t.Layout .notCalled .waiting cur empty full queue ∧
      t.accepted = s.accepted := by
  have hstep : s.threadFun = .ok { s with backend := .waiting } := by
    simp only [threadFun, h.backend, if_pos (h.running.mpr rfl)]
  exact ⟨_, h.backend_step (by simp) hstep, ⟨h.running, h.destructor, h.curBuffer, h.emptyBuffers,
    h.toWriteBuffers, h.writeQueue, rfl⟩, rfl⟩

theorem Layout.collects (h : s.Layout dtor .waiting (some b) (empty ++ [p]) full [])
    (hone : full.length ≤ 1) :
    ∃ t, system.Run s [.backend] t ∧ t.Layout dtor .writing p empty [] (some b :: full) := by
  have hcollect := collect_of_some h.curBuffer
  simp only [h.writeQueue, h.toWriteBuffers, h.emptyBuffers, List.getLast?_concat,
    Option.join_some, List.dropLast_concat, List.nil_append, drain_of_le _ hone] at hcollect
  refine ⟨s.collect, h.backend_step (by simp) (by simp only [threadFun, h.backend]), ?_⟩
  rw [hcollect]
  exact ⟨h.running, h.destructor, rfl, rfl, rfl, rfl, rfl⟩

theorem Layout.writes (queue : List (Option Buffer))
    (h : s.Layout dtor .writing cur empty full (queue ++ [some b]))
    (hb : b.Sound) : ∃ b' t, system.Run s [.backend] t ∧
      t.Layout dtor .returning cur empty full (queue ++ [some b']) := by
  have hwrite : b.writeToFile true =
      .ok (b.chars.take b.endPos, { b with endPos := 0 }) := by
    rw [Buffer.writeToFile, if_pos (by rw [hb.allocated]; exact hb.endPos)]
    rfl
  have hback : s.writeQueue.getLast?.join = some b := by simp [h.writeQueue]
  have hnil : s.writeQueue.isEmpty = false := by simp [h.writeQueue]
  have hstep : s.threadFun = .ok { s with
      writeQueue := s.writeQueue.dropLast ++ [some { b with endPos := 0 }]
      backend := .returning
      file := s.file ++ b.chars.take b.endPos } := by
    simp only [threadFun, h.backend, hnil, writeBack, hback]
    exact bind_eq_ok_iff.mpr ⟨_, hwrite, rfl⟩
  exact ⟨{ b with endPos := 0 }, _, h.backend_step (by simp) hstep, h.running, h.destructor,
    h.curBuffer, h.emptyBuffers, h.toWriteBuffers, by simp [h.writeQueue], rfl⟩

theorem Layout.returns (queue : List (Option Buffer))
    (h : s.Layout dtor .returning cur empty full (queue ++ [p])) :
    ∃ t, system.Run s [.backend] t ∧ t.Layout dtor .writing cur (empty ++ [p]) full queue := by
  have hstep : s.threadFun = .ok { s with
      emptyBuffers := s.emptyBuffers ++ [s.writeQueue.getLast?.join]
      writeQueue := s.writeQueue.dropLast
      backend := .writing } := by
    simp only [threadFun, h.backend]
  exact ⟨_, h.backend_step (by simp) hstep, h.running, h.destructor, h.curBuffer,
    by simp [h.emptyBuffers, h.writeQueue], h.toWriteBuffers, by simp [h.writeQueue], rfl⟩

theorem layout_new (raw : Fin 4 → RawBuffer) : (new raw).Layout .notCalled .test
    (some (Buffer.new (raw 3) 3 LOGBUFFERSIZE))
    ([some (Buffer.new (raw 0) 0 LOGBUFFERSIZE), some (Buffer.new (raw 1) 1 LOGBUFFERSIZE)] ++
      [some (Buffer.new (raw 2) 2 LOGBUFFERSIZE)]) [] [] :=
  ⟨by simp [new], rfl, rfl, rfl, rfl, rfl, rfl⟩

theorem zeroed_fresh (i : Fin 4) (dataPtr : ℕ) :
    (Buffer.new (zeroed i) dataPtr LOGBUFFERSIZE).Fresh :=
  Buffer.new_fresh (zeroed_intact i) dataPtr _

/-- Two long lines during the first wait of the backend. -/
theorem burst : ∃ s b c,
    system.Run (new zeroed) [.backend, .log epoch longLine, .log epoch longLine] s ∧
    Filled b ∧ Filled c ∧ s.Layout .notCalled .waiting (some c)
      ([some (Buffer.new (zeroed 0) 0 LOGBUFFERSIZE)] ++
        [some (Buffer.new (zeroed 1) 1 LOGBUFFERSIZE)]) [some b] [] := by
  obtain ⟨s₁, h₁, hs₁, -⟩ := (layout_new zeroed).waits
  obtain ⟨b, s₂, hb, h₂, hs₂, -⟩ := hs₁.long_stores (by simp) (zeroed_fresh 3 3)
  obtain ⟨c, s₃, hc, h₃, hs₃⟩ := hs₂.long_exchanges _ (by simp) hb (zeroed_fresh 2 2)
  exact ⟨s₃, b, c, (h₁.append h₂).append h₃, hb, hc, hs₃⟩

/-- The first pass of the backend finds the current buffer and a full one, each with a record. -/
theorem first_pass_in_one_place : ∃ s b c,
    system.Run (new zeroed) [.backend, .log epoch longLine, .log epoch longLine, .backend] s ∧
      s.writeQueue = [some c, some b] ∧ Filled b ∧ Filled c ∧
      system.Always InOnePlace (new zeroed)
        [.backend, .log epoch longLine, .log epoch longLine, .backend] := by
  obtain ⟨s₁, b, c, h₁, hb, hc, hs₁⟩ := burst
  obtain ⟨s₂, h₂, hs₂⟩ := hs₁.collects (by simp)
  refine ⟨s₂, b, c, h₁.append h₂, hs₂.writeQueue, hb, hc, (in_one_place_iff (h₁.append h₂)).mpr ?_⟩
  have hwaits : system.Meets OneFull (new zeroed) [.backend] :=
    System.Meets.of_nil.snoc .nil (by simp [OneFull, new])
  have hlogs : system.Meets OneFull (new zeroed)
      ([.backend] ++ [.log epoch longLine, .log epoch longLine]) := by
    apply hwaits.append_of_forall
    simp [OneFull]
  exact hlogs.snoc h₁ (by simp [OneFull, hs₁.toWriteBuffers])

/-- After a third one the backend finds two full buffers. -/
theorem not_in_one_place : ¬ ∀ (raw : Fin 4 → RawBuffer) (as : List Label) (s : AsyncLoger),
    system.Run (new raw) as s → s.InOnePlace := by
  intro hall
  obtain ⟨s, b, c, h, -, hc, hs⟩ := burst
  obtain ⟨d, t, -, h₁, ht⟩ := hs.long_exchanges _ (by simp) hc (zeroed_fresh 1 1)
  have hstep : t.threadFun = .ok t.collect := by simp only [threadFun, ht.backend]
  have hone : ¬ t.OneFull .backend := by simp [OneFull, ht.backend, ht.toWriteBuffers]
  obtain ⟨queue, hqueue⟩ := null_of_not_oneFull hone hstep
  have hrun := (h.append h₁).append (ht.backend_step (by simp) hstep)
  have hnull := (hall zeroed _ _ hrun).noNull
  simp [hqueue] at hnull

/-- The sections that the mutex guards. -/
def CriticalSection (s : AsyncLoger) : Label → Prop
  | .log _ _ => True
  | .backend => s.backend = .waiting ∨ s.backend = .returning
  | .writeFails | .stop | .notify | .join => False

/-- While the backend writes the first full buffer, three long lines use up the others; then it
returns the buffer. -/
theorem exhausted : ∃ as s b full queue, system.Run (new zeroed) as s ∧
    s.Layout .notCalled .writing none [some b] full queue := by
  obtain ⟨s, b, c, h, hb, -, hs⟩ := burst
  obtain ⟨s₁, h₁, hs₁⟩ := hs.collects (by simp)
  obtain ⟨d, s₂, hd, h₂, hs₂, -⟩ := hs₁.long_stores (by simp) (zeroed_fresh 1 1)
  obtain ⟨e, s₃, he, h₃, hs₃⟩ := hs₂.long_exchanges [] (by simp) hd (zeroed_fresh 0 0)
  obtain ⟨s₄, h₄, hs₄⟩ := hs₃.long_drops (by simp) he
  obtain ⟨b', s₅, h₅, hs₅⟩ := hs₄.writes [some c] hb.toSound
  obtain ⟨s₆, h₆, hs₆⟩ := hs₅.returns [some c]
  exact ⟨_, s₆, b', _, _,
    (((((h.append h₁).append h₂).append h₃).append h₄).append h₅).append h₆, hs₆⟩

/-- There the next line is rejected, and the current buffer stays null. -/
theorem not_temporary : ¬ ∀ (raw : Fin 4 → RawBuffer) (as : List Label) (s s' : AsyncLoger)
    (a : Label), system.Run (new raw) as s → s.CriticalSection a → s.enabled a →
      s.step a = .ok s' → s.curBuffer = none → s.emptyBuffers ≠ [] → s'.curBuffer ≠ none := by
  intro hall
  obtain ⟨as, s, b, full, queue, h, hs⟩ := exhausted
  have hreject : s.step (.log epoch []) = .ok s := by
    apply bind_eq_ok_iff.mpr
    refine ⟨(some (-1), s), ?_, rfl⟩
    simp only [logInfo, hs.curBuffer]
  have hopen : s.enabled (.log epoch []) := by simp [enabled, hs.destructor]
  have hspare : s.emptyBuffers ≠ [] := by simp [hs.emptyBuffers]
  exact hall zeroed as s s (.log epoch []) h trivial hopen hreject hs.curBuffer hspare hs.curBuffer

/-- After the burst the logger never accepts a line again. -/
theorem exhaustion_permanent_burst : ∃ as s, system.Run (new zeroed) as s ∧
    s.emptyBuffers ≠ [] ∧ ∀ bs t, system.Run s bs t → t.curBuffer = none := by
  obtain ⟨as, s, b, full, queue, h, hs⟩ := exhausted
  refine ⟨as, s, h, by simp [hs.emptyBuffers], ?_⟩
  intro bs t
  exact (exhaustion_permanent h).2 bs t hs.curBuffer

end Layout

end LxcHttpServer.AsyncLoger
