import LxcHttpServer.BufferOwnership
import LxcHttpServer.Stocks

/-!
# What a failed write leaves

A buffer whose write failed goes back to `emptyBuffers` with its characters. The
next records are appended to them, so what a buffer holds is a row of whole
records in any case; but `logInfo` asks only the current buffer for room, and not
the one that it takes from `emptyBuffers`.
-/
namespace LxcHttpServer.AsyncLoger
open PartialRuns Stocks

variable {raw : Fin 4 → RawBuffer} {s s' : AsyncLoger} {a : Label}

/-- The buffers that these pointers own. -/
def held (pointers : List (Option Buffer)) : Multiset Buffer := pointers.reduceOption

@[simp] theorem held_nil : held [] = 0 := rfl

@[simp] theorem held_append (ps qs : List (Option Buffer)) :
    held (ps ++ qs) = held ps + held qs := by
  simp [held, List.reduceOption_append]

@[simp] theorem held_some (b : Buffer) : held [some b] = {b} := rfl

@[simp] theorem held_none : held [none] = 0 := rfl

theorem mem_held {ps : List (Option Buffer)} {b : Buffer} : b ∈ held ps ↔ some b ∈ ps :=
  List.reduceOption_mem_iff

def buffers (s : AsyncLoger) : Multiset Buffer :=
  held [s.curBuffer] + held s.emptyBuffers + held s.toWriteBuffers + held s.writeQueue

theorem owned_eq (s : AsyncLoger) : s.owned = s.buffers.map Buffer.dataPtr := by
  simp [owned, buffers, ids, held]

theorem held_takeBack (ps : List (Option Buffer)) :
    held [ps.getLast?.join] + held ps.dropLast = held ps := by
  induction ps using List.reverseRecOn with
  | nil => rfl
  | append_singleton ps p ih => simp [add_comm]

theorem held_replicate_none (n : ℕ) : held (List.replicate n none) = 0 := by
  simp [held, List.reduceOption_replicate_none]

/-- Emptying `toWriteBuffers` makes no buffers. -/
theorem held_drain_le (writeQueue toWrite : List (Option Buffer)) :
    held (drain writeQueue toWrite) ≤ held writeQueue + held toWrite := by
  induction toWrite using List.reverseRecOn with
  | nil => simp [drain]
  | append_singleton toWrite p _ =>
    have hqueue : held (drain writeQueue (toWrite ++ [p])) = held writeQueue + held [p] := by
      rw [drain_concat, ← List.singleton_append, held_append, held_append, held_replicate_none,
        add_zero]
    rw [hqueue, held_append]
    exact add_le_add_right (Multiset.le_add_left _ _) _

theorem buffers_collect_le (s : AsyncLoger) : s.collect.buffers ≤ s.buffers := by
  cases hcur : s.curBuffer with
  | none =>
    have hdrain := held_drain_le s.writeQueue s.toWriteBuffers
    rw [collect_of_null hcur]
    simp only [buffers, hcur, held_nil, add_zero, add_assoc]
    rw [add_comm (held s.toWriteBuffers)]
    exact add_le_add_right (add_le_add_right hdrain _) _
  | some b =>
    have hdrain := held_drain_le (s.writeQueue ++ [some b]) s.toWriteBuffers
    rw [collect_of_some hcur]
    simp only [buffers, hcur, held_nil, add_zero, held_takeBack]
    refine (add_le_add_right hdrain _).trans (le_of_eq ?_)
    rw [held_append]
    abel

/-- What a step does to the buffers, the file and the accepted records: it moves buffers and may
destroy some, or appends a record to one of them, or writes and empties one. -/
inductive BufferStep (s : AsyncLoger) (a : Label) (s' : AsyncLoger) : Prop
  | moves (hbuffers : s'.buffers ≤ s.buffers) (hfile : s'.file = s.file)
      (haccepted : s'.accepted = s.accepted)
  | appends {date : DateString} {logline : Str} {b b' : Buffer} {rest : Multiset Buffer}
      (hlabel : a = .log date logline) (hbefore : s.buffers = b ::ₘ rest)
      (hafter : s'.buffers = b' ::ₘ rest) (happend : b.appendRecord date logline = .ok b')
      (hfile : s'.file = s.file) (haccepted : s'.accepted = s.accepted ++ [record date logline])
  | writes {b : Buffer} {rest : Multiset Buffer} (hbefore : s.buffers = b ::ₘ rest)
      (hafter : s'.buffers = { b with endPos := 0 } ::ₘ rest)
      (hfile : s'.file = s.file ++ b.pending) (haccepted : s'.accepted = s.accepted)

theorem Step.buffers (h : Step s a s') (hs : s.Shape) : BufferStep s a s' := by
  cases h with
  | @stores date logline b b' hcur hroom happend =>
    have hbefore : s.buffers =
        b ::ₘ (held s.emptyBuffers + held s.toWriteBuffers + held s.writeQueue) := by
      simp only [AsyncLoger.buffers, hcur, held_some, ← Multiset.singleton_add]
      abel
    refine .appends rfl hbefore ?_ happend rfl rfl
    simp only [AsyncLoger.buffers, held_some, ← Multiset.singleton_add]
    abel
  | @exchanges date logline b c c' spare hcur hroom hspare happend =>
    have hbefore : s.buffers =
        c ::ₘ ({b} + held spare + held s.toWriteBuffers + held s.writeQueue) := by
      simp only [AsyncLoger.buffers, hcur, hspare, held_append, held_some,
        ← Multiset.singleton_add]
      abel
    refine .appends rfl hbefore ?_ happend rfl rfl
    simp only [AsyncLoger.buffers, held_append, held_some, ← Multiset.singleton_add]
    abel
  | drops hcur hroom hnone =>
    refine .moves (le_of_eq ?_) rfl rfl
    simp only [AsyncLoger.buffers, hcur, held_append, held_some, held_none]
    abel
  | collects hpc => exact .moves (buffers_collect_le s) (by simp) (by simp)
  | @writes queue b b' text hpc hqueue hwrite =>
    obtain ⟨rfl, rfl⟩ := Buffer.written_eq hwrite
    have hbefore : s.buffers =
        b ::ₘ (held [s.curBuffer] + held s.emptyBuffers + held s.toWriteBuffers + held queue) := by
      simp only [AsyncLoger.buffers, hqueue, held_append, held_some, ← Multiset.singleton_add]
      abel
    refine .writes hbefore ?_ rfl rfl
    simp only [AsyncLoger.buffers, held_append, held_some, ← Multiset.singleton_add]
    abel
  | fails hpc hqueue hwrite =>
    obtain ⟨rfl, rfl⟩ := Buffer.failed_eq hwrite
    refine .moves (le_of_eq ?_) (by simp) rfl
    simp only [AsyncLoger.buffers, hqueue]
  | returns hpc =>
    obtain ⟨queue, b, hqueue⟩ := hs.written hpc
    refine .moves (le_of_eq ?_) rfl rfl
    simp only [AsyncLoger.buffers, hqueue, List.getLast?_concat, Option.join_some,
      List.dropLast_concat, held_append, held_some]
    abel
  | rejects | goesOn | ends | allWritten | stop | notify | join =>
    exact .moves (le_refl _) rfl rfl

theorem Buffer.append_eq_error {b : Buffer} {text : Str} {e : Fault}
    (h : b.append text = .error e) :
    e = .outOfBounds ∧ b.chars.length < b.endPos + text.length := by
  unfold Buffer.append at h
  split_ifs at h with hroom
  cases h
  exact ⟨rfl, not_le.mp hroom⟩

theorem Buffer.append_inside {b b' : Buffer} {text : Str} (h : b.append text = .ok b') :
    b'.endPos ≤ b'.chars.length := by
  have hext := Buffer.append_extends h
  unfold Buffer.append at h
  split_ifs at h with hroom
  rw [hext.endPos, hext.allocated]
  exact hroom

theorem Buffer.appendRecord_inside {b b' : Buffer} {date : DateString} {logline : Str}
    (h : b.appendRecord date logline = .ok b') : b'.endPos ≤ b'.chars.length := by
  obtain ⟨b₁, -, hsecond⟩ := bind_eq_ok_iff.mp h
  exact append_inside hsecond

/-- A record is written behind the buffer exactly if it is longer than what is left of it. -/
theorem Buffer.appendRecord_outside_iff {b : Buffer} {date : DateString} {logline : Str} :
    b.appendRecord date logline = .error .outOfBounds ↔
      b.chars.length < b.endPos + (record date logline).length := by
  constructor
  · intro h
    rw [record, List.length_append]
    rcases bind_eq_error_iff.mp h with hfirst | ⟨b₁, hfirst, hsecond⟩
    · have hlong := (append_eq_error hfirst).2
      omega
    · have hext := Buffer.append_extends hfirst
      have hlong := (append_eq_error hsecond).2
      rw [hext.endPos, hext.allocated] at hlong
      omega
  · intro hlong
    cases happend : b.appendRecord date logline with
    | ok b' =>
      have hext := Buffer.appendRecord_extends happend
      have hinside := appendRecord_inside happend
      rw [hext.endPos, hext.allocated] at hinside
      omega
    | error e =>
      rcases bind_eq_error_iff.mp happend with hfirst | ⟨b₁, -, hsecond⟩
      · rw [(append_eq_error hfirst).1]
      · rw [(append_eq_error hsecond).1]

/-- The index of each buffer lies in its array. -/
def InBounds (s : AsyncLoger) : Prop := ∀ b ∈ s.buffers, b.endPos ≤ b.bufferSize

/-- The step is not one that writes or reads behind a buffer. -/
def Inside (s : AsyncLoger) (a : Label) : Prop := s.enabled a → s.step a ≠ .error .outOfBounds

/-- Where `logInfo` takes a buffer from `emptyBuffers`, what failed writes have left in it leaves
room for the record. -/
def SpareHasRoom (s : AsyncLoger) : Label → Prop
  | .log date logline => s.enabled (.log date logline) → ∀ b c, s.curBuffer = some b →
      b.appendAvailable ((storedLine logline).length + DATE_STRING_LEGTH) = false →
        s.emptyBuffers.getLast? = some (some c) →
          c.endPos + (record date logline).length ≤ LOGBUFFERSIZE
  | .backend | .writeFails | .stop | .notify | .join => True

/-- Every buffer has its size, whatever was written and whatever failed. -/
def AllSound (s : AsyncLoger) : Prop := ∀ b ∈ s.buffers, b.Sound

theorem allSound_new (hraw : Intact raw) : AllSound (new raw) := by
  intro b hb
  have hfresh : ∀ i dataPtr, (Buffer.new (raw i) dataPtr LOGBUFFERSIZE).Sound :=
    fun i dataPtr => (Buffer.new_fresh (hraw i) dataPtr _).toSound
  simp only [buffers, Multiset.mem_add, mem_held, new, List.mem_cons, Option.some.injEq,
    List.not_mem_nil, or_false] at hb
  rcases hb with rfl | rfl | rfl | rfl <;> exact hfresh _ _

theorem BufferStep.allSound (h : BufferStep s a s') (hs : s.AllSound) : s'.AllSound := by
  intro b₁ hb₁
  cases h with
  | moves hbuffers => exact hs b₁ (Multiset.mem_of_le hbuffers hb₁)
  | @appends date logline b b' rest hlabel hbefore hafter happend =>
    rw [hafter, Multiset.mem_cons] at hb₁
    rcases hb₁ with rfl | hb₁
    · have hb : b.Sound := hs b (by simp [hbefore])
      have hext := Buffer.appendRecord_extends happend
      have hinside := Buffer.appendRecord_inside happend
      have hallocated : b₁.chars.length = LOGBUFFERSIZE := by rw [hext.allocated, hb.allocated]
      rw [hallocated] at hinside
      exact ⟨by rw [hext.bufferSize, hb.bufferSize], hallocated, hinside⟩
    · exact hs b₁ (by simp [hbefore, hb₁])
  | @writes b rest hbefore hafter =>
    rw [hafter, Multiset.mem_cons] at hb₁
    rcases hb₁ with rfl | hb₁
    · have hb : b.Sound := hs b (by simp [hbefore])
      exact ⟨hb.bufferSize, hb.allocated, Nat.zero_le _⟩
    · exact hs b₁ (by simp [hbefore, hb₁])

theorem allSound_of_run (hraw : Intact raw) {as : List Label} (h : system.Run (new raw) as s) :
    s.AllSound ∧ s.Shape := by
  refine h.invariant (P := fun t => t.AllSound ∧ t.Shape) ⟨allSound_new hraw, shape_new raw⟩ ?_
  intro t a t' ⟨hsound, hshape⟩ hen hstep
  have hcases := step_cases hen hstep
  exact ⟨(hcases.buffers hshape).allSound hsound, hcases.shape hshape⟩

theorem AllSound.inBounds (hs : s.AllSound) : s.InBounds := by
  intro b hb
  rw [(hs b hb).bufferSize]
  exact (hs b hb).endPos

theorem current_mem {b : Buffer} (hcur : s.curBuffer = some b) : b ∈ s.buffers := by
  simp [buffers, hcur]

theorem spare_mem {c : Buffer} (hback : s.emptyBuffers.getLast? = some (some c)) :
    c ∈ s.buffers := by
  have hmem := mem_held.mpr (List.mem_of_getLast? hback)
  simp [buffers, hmem]

/-- A record that `appendAvailable` has found room for stays inside. -/
theorem logInfo_current_ne {b : Buffer} (hb : b.Sound) (hcur : s.curBuffer = some b)
    (date : DateString) {logline : Str}
    (hroom : b.appendAvailable ((storedLine logline).length + DATE_STRING_LEGTH) = true) :
    s.logInfo date logline ≠ .error .outOfBounds := by
  have hfits := (hb.appendAvailable_iff logline).mp hroom
  have hrecord : b.endPos + (record date logline).length ≤ b.chars.length := by
    rw [hb.allocated, record_length date logline]
    simp only [DATE_STRING_LEGTH]
    omega
  obtain ⟨b', happend⟩ := Buffer.appendRecord_ok hrecord
  simp [logInfo, hcur, hroom, happend, bind, Except.bind]

/-- A record that goes into a buffer from `emptyBuffers` need not. -/
theorem logInfo_spare_iff {b c : Buffer} (hc : c.Sound) (hcur : s.curBuffer = some b)
    (date : DateString) {logline : Str}
    (hfull : b.appendAvailable ((storedLine logline).length + DATE_STRING_LEGTH) = false)
    (hback : s.emptyBuffers.getLast? = some (some c)) :
    s.logInfo date logline = .error .outOfBounds ↔
      LOGBUFFERSIZE < c.endPos + (record date logline).length := by
  rw [← hc.allocated, ← Buffer.appendRecord_outside_iff]
  simp only [logInfo, hcur, hfull, hback, Bool.false_eq_true, if_false]
  exact bind_ok_eq_error_iff

theorem log_inside_iff (hs : s.AllSound) (date : DateString) (logline : Str) :
    s.Inside (.log date logline) ↔ s.SpareHasRoom (.log date logline) := by
  simp only [Inside, SpareHasRoom]
  refine imp_congr_right fun hen => ?_
  have hlog : s.step (.log date logline) = .error .outOfBounds ↔
      s.logInfo date logline = .error .outOfBounds := bind_ok_eq_error_iff
  rw [Ne, hlog]
  cases hcur : s.curBuffer with
  | none => simp [logInfo, hcur]
  | some b =>
    have hb := hs b (current_mem hcur)
    cases hroom : b.appendAvailable ((storedLine logline).length + DATE_STRING_LEGTH) with
    | true =>
      refine iff_of_true (logInfo_current_ne hb hcur date hroom) ?_
      rintro b₁ c₁ hb₁ hfull -
      cases hb₁
      rw [hroom] at hfull
      cases hfull
    | false =>
      cases hback : s.emptyBuffers.getLast? with
      | none => simp [logInfo, hcur, hroom, hback]
      | some p =>
        cases p with
        | none => simp [logInfo, hcur, hroom, hback]
        | some c =>
          rw [logInfo_spare_iff (hs c (spare_mem hback)) hcur date hroom hback, not_lt]
          constructor
          · intro hle b₁ c₁ _ _ hc₁
            cases hc₁
            exact hle
          · intro hspare
            exact hspare b c rfl hroom rfl

theorem queued_mem {b : Buffer} (hback : s.writeQueue.getLast?.join = some b) :
    b ∈ s.buffers := by
  have hmem := mem_held.mpr (List.mem_of_getLast? (Option.join_eq_some_iff.mp hback))
  simp [buffers, hmem]

/-- What is written lies in the buffer. -/
theorem writeBack_inside (hs : s.AllSound) (written : Bool) :
    s.writeBack written ≠ .error .outOfBounds := by
  intro h
  unfold writeBack at h
  split at h
  · cases h
  · next b hback =>
    have hb := hs b (queued_mem hback)
    have hinside : b.endPos ≤ b.chars.length := by
      rw [hb.allocated]
      exact hb.endPos
    have hwrite := bind_ok_eq_error_iff.mp h
    rw [Buffer.writeToFile, if_pos hinside] at hwrite
    cases hwrite

theorem inside_iff (hs : s.AllSound) (a : Label) : s.Inside a ↔ s.SpareHasRoom a := by
  cases a with
  | log date logline => exact log_inside_iff hs date logline
  | backend =>
    refine iff_of_true ?_ trivial
    intro _ h
    cases hpc : s.backend <;> simp only [step, threadFun, hpc] at h
    case writing =>
      split_ifs at h
      exact writeBack_inside hs true h
    all_goals cases h
  | writeFails => exact iff_of_true (fun _ => writeBack_inside hs false) trivial
  | stop | notify | join => exact iff_of_true (fun _ h => by cases h) trivial

/-- In any order of calls, writes and failures the indices stay in their buffers, and nothing is
written behind one exactly when what failed writes have left in a buffer that `logInfo` takes from
`emptyBuffers` leaves room for the record. -/
theorem appended_inside_iff (hraw : Intact raw) (as : List Label) :
    (system.Always InBounds (new raw) as ∧ system.Meets Inside (new raw) as) ↔
      system.Meets SpareHasRoom (new raw) as := by
  constructor
  · rintro ⟨-, hinside⟩ pre a t hpre hrun
    exact (inside_iff (allSound_of_run hraw hrun).1 a).mp (hinside pre a t hpre hrun)
  · intro hroom
    refine ⟨fun pre t _ hrun => (allSound_of_run hraw hrun).1.inBounds, ?_⟩
    intro pre a t hpre hrun
    exact (inside_iff (allSound_of_run hraw hrun).1 a).mpr (hroom pre a t hpre hrun)

section Layout
variable {dtor : Destructor} {pc : Backend} {cur : Option Buffer}
  {empty full : List (Option Buffer)} {b c : Buffer}

theorem Layout.fails (queue : List (Option Buffer))
    (h : s.Layout dtor .writing cur empty full (queue ++ [some b])) (hb : b.Sound) :
    ∃ t, system.Run s [.writeFails] t ∧
      t.Layout dtor .returning cur empty full (queue ++ [some b]) := by
  have hwrite : b.writeToFile false = .ok ([], b) := by
    rw [Buffer.writeToFile, if_pos (by rw [hb.allocated]; exact hb.endPos)]
    rfl
  have hback : s.writeQueue.getLast?.join = some b := by simp [h.writeQueue]
  have hstep : s.step .writeFails = .ok { s with
      writeQueue := s.writeQueue.dropLast ++ [some b]
      backend := .returning
      file := s.file ++ [] } := by
    simp only [step, writeBack, hback]
    exact bind_eq_ok_iff.mpr ⟨_, hwrite, rfl⟩
  have hen : s.enabled .writeFails := ⟨h.backend, by simp [h.writeQueue]⟩
  exact ⟨_, .single hen hstep, h.running, h.destructor, h.curBuffer, h.emptyBuffers,
    h.toWriteBuffers, by simp [h.writeQueue], rfl⟩

/-- A new buffer has room for a long line itself. -/
theorem Layout.long_room {queue : List (Option Buffer)}
    (h : s.Layout dtor pc (some b) empty full queue) (hb : b.Fresh) :
    s.SpareHasRoom (.log epoch longLine) := by
  rintro - b₁ c hcur hfull -
  rw [h.curBuffer] at hcur
  cases hcur
  rw [← Bool.not_eq_true, hb.toSound.appendAvailable_iff, hb.start, storedLine_longLine] at hfull
  exact absurd (by decide) hfull

/-- A long line is logged, its write fails, and the buffer goes back with the line in it. -/
theorem recycled : ∃ as s b, .writeFails ∈ as ∧ system.Run (new zeroed) as s ∧
    system.Meets SpareHasRoom (new zeroed) as ∧ Filled b ∧
    s.Layout .notCalled .writing (some (Buffer.new (zeroed 2) 2 LOGBUFFERSIZE))
      ([some (Buffer.new (zeroed 0) 0 LOGBUFFERSIZE), some (Buffer.new (zeroed 1) 1 LOGBUFFERSIZE)]
        ++ [some b]) [] [] := by
  obtain ⟨s₁, h₁, hs₁, -⟩ := (layout_new zeroed).waits
  obtain ⟨b, s₂, hb, h₂, hs₂, -⟩ := hs₁.long_stores (by simp) (zeroed_fresh 3 3)
  obtain ⟨s₃, h₃, hs₃⟩ := hs₂.collects (by simp)
  obtain ⟨s₄, h₄, hs₄⟩ := hs₃.fails [] hb.toSound
  obtain ⟨s₅, h₅, hs₅⟩ := hs₄.returns []
  have hlong : s₁.SpareHasRoom (.log epoch longLine) := hs₁.long_room (zeroed_fresh 3 3)
  have hwaits : (new zeroed).SpareHasRoom .backend := trivial
  have hcollects : s₂.SpareHasRoom .backend := trivial
  have hfails : s₃.SpareHasRoom .writeFails := trivial
  have hreturns : s₄.SpareHasRoom .backend := trivial
  have h₂ := h₁.append h₂
  have h₃ := h₂.append h₃
  have h₄ := h₃.append h₄
  have hmeets := ((((System.Meets.of_nil.snoc .nil hwaits).snoc h₁ hlong).snoc h₂ hcollects).snoc
    h₃ hfails).snoc h₄ hreturns
  exact ⟨_, s₅, b, by simp, h₄.append h₅, hmeets, hb, hs₅⟩

/-- Then the second of two more long lines is written behind that buffer. -/
theorem not_appended_inside : ¬ ∀ (raw : Fin 4 → RawBuffer) (as : List Label),
    Intact raw → system.Meets Inside (new raw) as := by
  intro hall
  obtain ⟨as, s, b, -, h, -, hb, hs⟩ := recycled
  obtain ⟨c, t, hc, h₁, ht, -⟩ := hs.long_stores (by simp) (zeroed_fresh 2 2)
  have hrun := h.append h₁
  have hinside := hall zeroed (as ++ [.log epoch longLine] ++ [.log epoch longLine]) zeroed_intact
    _ (.log epoch longLine) t (List.prefix_refl _) hrun
  have hsound := (allSound_of_run zeroed_intact hrun).1
  have hopen : t.enabled (.log epoch longLine) := by simp [enabled, ht.destructor]
  have hfull : c.appendAvailable ((storedLine longLine).length + DATE_STRING_LEGTH) = false := by
    rw [← Bool.not_eq_true, hc.toSound.appendAvailable_iff, not_lt]
    exact hc.full
  have hroom := (log_inside_iff hsound epoch longLine).mp hinside hopen c b ht.curBuffer hfull
    (by simp [ht.emptyBuffers])
  rw [hb.filled, record_length, storedLine_longLine] at hroom
  exact absurd hroom (by decide)

/-- After the failed write there is room for one long line. -/
theorem appended_inside_recycled : ∃ as, .writeFails ∈ as ∧
    system.Always InBounds (new zeroed) (as ++ [.log epoch longLine]) ∧
      system.Meets Inside (new zeroed) (as ++ [.log epoch longLine]) := by
  obtain ⟨as, s, b, hfails, h, hmeets, -, hs⟩ := recycled
  have hroom := hmeets.snoc h (hs.long_room (zeroed_fresh 2 2))
  exact ⟨as, hfails, (appended_inside_iff zeroed_intact _).mpr hroom⟩

end Layout

/-- The record that `logInfo` is offered. -/
def Label.offered : Label → Option Str
  | .log date logline => some (record date logline)
  | .backend | .writeFails | .stop | .notify | .join => none

/-- A buffer holds these records, one after the other. -/
def Holds (b : Buffer) (records : List Str) : Prop := b.pending = records.flatten

/-- The file and the buffers hold whole records, each of the accepted ones at most once. -/
def Recorded (s : AsyncLoger) : Prop := ∃ (written : List Str) (waiting : Multiset Str),
  s.file = written.flatten ∧ Stock Holds s.buffers waiting ∧
    (written : Multiset Str) + waiting ≤ s.accepted

theorem recorded_new (hraw : ∀ i, (raw i).endPos = 0) : Recorded (new raw) := by
  refine ⟨[], 0, rfl, .of_empty ?_, by simp [new]⟩
  intro b hb
  have hempty : ∀ i dataPtr, Holds (Buffer.new (raw i) dataPtr LOGBUFFERSIZE) [] := by
    intro i dataPtr
    simp [Holds, Buffer.pending, Buffer.new, hraw i]
  simp only [buffers, Multiset.mem_add, mem_held, new, List.mem_cons, Option.some.injEq,
    List.not_mem_nil, or_false] at hb
  rcases hb with rfl | rfl | rfl | rfl <;> exact hempty _ _

theorem BufferStep.recorded (h : BufferStep s a s') (hs : s.Recorded) : s'.Recorded := by
  obtain ⟨written, waiting, hfile, hstock, hle⟩ := hs
  cases h with
  | moves hbuffers hfile' haccepted =>
    obtain ⟨left, hleft, hless⟩ := hstock.of_le hbuffers
    refine ⟨written, left, hfile'.trans hfile, hleft, ?_⟩
    rw [haccepted]
    exact (add_le_add_right hless _).trans hle
  | @appends date logline b b' rest hlabel hbefore hafter happend hfile' haccepted =>
    rw [hbefore] at hstock
    obtain ⟨records, others, hb, hrest, rfl⟩ := hstock.of_cons
    have hb' : Holds b' (records ++ [record date logline]) := by
      rw [Holds, (Buffer.appendRecord_extends happend).pending, hb]
      simp
    refine ⟨written, _, hfile'.trans hfile, hafter ▸ hrest.cons hb', ?_⟩
    rw [haccepted, ← Multiset.coe_add, ← Multiset.coe_add]
    refine le_of_eq_of_le ?_ (add_le_add_left hle _)
    abel
  | @writes b rest hbefore hafter hfile' haccepted =>
    rw [hbefore] at hstock
    obtain ⟨records, others, hb, hrest, rfl⟩ := hstock.of_cons
    have hempty : Holds { b with endPos := 0 } [] := by simp [Holds, Buffer.pending]
    refine ⟨written ++ records, _, ?_, hafter ▸ hrest.cons hempty, ?_⟩
    · rw [hfile', hfile, hb, List.flatten_append]
    · rw [haccepted, ← Multiset.coe_add, Multiset.coe_nil, zero_add, add_assoc]
      exact hle

/-- No two places share a buffer, and none is in one place twice. -/
theorem BufferStep.nodup (h : BufferStep s a s') (hs : s.owned.Nodup) : s'.owned.Nodup := by
  rw [owned_eq] at hs ⊢
  cases h with
  | moves hbuffers => exact Multiset.nodup_of_le (Multiset.map_le_map hbuffers) hs
  | appends hlabel hbefore hafter happend =>
    rw [hbefore, Multiset.map_cons] at hs
    rwa [hafter, Multiset.map_cons, (Buffer.appendRecord_extends happend).dataPtr]
  | writes hbefore hafter =>
    rw [hbefore, Multiset.map_cons] at hs
    rwa [hafter, Multiset.map_cons]

theorem BufferStep.offered (h : BufferStep s a s') {as : List Label}
    (hs : s.accepted.Sublist (as.filterMap Label.offered)) :
    s'.accepted.Sublist ((as ++ [a]).filterMap Label.offered) := by
  rw [List.filterMap_append]
  cases h with
  | moves _ _ haccepted | writes _ _ _ haccepted =>
    rw [haccepted]
    exact hs.trans (List.sublist_append_left _ _)
  | appends hlabel _ _ _ _ haccepted =>
    rw [haccepted, hlabel]
    exact hs.append_right _

/-- Whatever fails, the file holds whole records, which `logInfo` accepted, each at most once; and
no two threads have hold of one buffer. -/
theorem whole_records (hraw : ∀ i, (raw i).endPos = 0) {as : List Label}
    (h : system.Run (new raw) as s) : s.owned.Nodup ∧
      s.accepted.Sublist (as.filterMap Label.offered) ∧
      ∃ written : List Str, s.file = written.flatten ∧ written.Subperm s.accepted := by
  have hrun : s.owned.Nodup ∧ s.accepted.Sublist (as.filterMap Label.offered) ∧ s.Recorded := by
    induction h with
    | nil =>
      refine ⟨?_, by simp [new], recorded_new hraw⟩
      rw [owned_new]
      decide
    | snoc run enabled step ih =>
      obtain ⟨hnodup, hoffered, hrecorded⟩ := ih
      have hbuffers := (step_cases enabled step).buffers (shape_of_run run)
      exact ⟨hbuffers.nodup hnodup, hbuffers.offered hoffered, hbuffers.recorded hrecorded⟩
  obtain ⟨hnodup, hoffered, written, waiting, hfile, -, hle⟩ := hrun
  exact ⟨hnodup, hoffered, written, hfile,
    Multiset.coe_le.mp ((Multiset.le_add_right _ _).trans hle)⟩

/-- A run in which a write fails. -/
theorem whole_records_recycled : ∃ as s, .writeFails ∈ as ∧ system.Run (new zeroed) as s ∧
    s.owned.Nodup ∧ s.accepted.Sublist (as.filterMap Label.offered) ∧
      ∃ written : List Str, s.file = written.flatten ∧ written.Subperm s.accepted := by
  obtain ⟨as, s, b, hfails, h, -⟩ := recycled
  exact ⟨as, s, hfails, h, whole_records (fun _ => rfl) h⟩

end LxcHttpServer.AsyncLoger
