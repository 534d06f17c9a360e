import LxcHttpServer.BufferOwnership

/-!
# Shutting the logger down

The destructor notifies without the mutex, so the backend may begin to wait afterwards; but its
wait is timed. Once `running` is false the backend collects once more at most. Of what it
collects it can write two buffers: where there are more, a null pointer stands at the end of
its vector.
-/
namespace LxcHttpServer.AsyncLoger
open PartialRuns

variable {raw : Fin 4 → RawBuffer} {s s' : AsyncLoger} {a : Label}

/-- The steps of the backend thread. -/
def Label.ofBackend : Label → Bool
  | .backend | .writeFails => true
  | _ => false

/-- The vector of the backend holds two buffers at most, or a null pointer is the next to be
written. -/
def FewOrNull (queue : List (Option Buffer)) : Prop :=
  queue.length ≤ 2 ∨ queue.getLast? = some none

theorem fewOrNull_drain (queue toWrite : List (Option Buffer)) (hqueue : queue.length ≤ 1) :
    FewOrNull (drain queue toWrite) := by
  cases toWrite using List.reverseRecOn with
  | nil =>
    rw [drain]
    exact .inl (by omega)
  | append_singleton rest p =>
    rw [drain_concat]
    cases rest using List.reverseRecOn with
    | nil =>
      left
      simpa using hqueue
    | append_singleton rest front =>
      right
      rw [List.length_append, List.length_singleton, List.replicate_succ', ← List.cons_append,
        ← List.append_assoc]
      exact List.getLast?_concat

/-- What is written is not null, so that there are two at most. -/
theorem FewOrNull.length_le {queue : List (Option Buffer)} {b : Buffer}
    (h : FewOrNull (queue ++ [some b])) : (queue ++ [some b]).length ≤ 2 := by
  rcases h with hfew | hnull
  · exact hfew
  · simp at hnull

/-- The vector of the backend is short where it is looked at. -/
def Short (s : AsyncLoger) : Prop := FewOrNull s.writeQueue

theorem Short.collect (hs : s.Shape) (hpc : s.backend = .waiting) : s.collect.Short := by
  have hidle : s.writeQueue = [] := hs.idle (by simp [hpc]) (by simp [hpc])
  rw [Short, collect_writeQueue, hidle]
  apply fewOrNull_drain
  cases s.curBuffer <;> simp

theorem Step.short (h : Step s a s') (hs : s.Shape) (hshort : s.Short) : s'.Short := by
  cases h with
  | collects hpc => exact .collect hs hpc
  | writes hpc hqueue hwrite | fails hpc hqueue hwrite =>
    rw [Short, hqueue] at hshort
    left
    simpa using hshort.length_le
  | returns hpc =>
    obtain ⟨queue, b, hqueue⟩ := hs.written hpc
    rw [Short, hqueue] at hshort
    have hlen := hshort.length_le
    left
    simp only [List.length_dropLast, hqueue]
    omega
  | rejects | stores | exchanges | drops | goesOn | ends | allWritten | stop | notify | join =>
    exact hshort

/-- How many steps the backend takes at most once `running` is false. A null pointer at the end
of the vector is as far as it comes. -/
def stepsLeft (s : AsyncLoger) : ℕ :=
  match s.backend with
  | .exited => 0
  | .test => 1
  | .waiting => 7
  | .writing => if s.writeQueue.getLast? = some none then 0 else 2 * s.writeQueue.length + 2
  | .returning => 2 * s.writeQueue.length + 1

/-- The logger once `running` is false. -/
structure Closing (s : AsyncLoger) : Prop where
  shape : s.Shape
  short : s.Short
  stopped : s.running = false

theorem stepsLeft_writing_le (hpc : s.backend = .writing) :
    s.stepsLeft ≤ 2 * s.writeQueue.length + 2 := by
  rw [stepsLeft, hpc]
  dsimp only
  split_ifs <;> omega

theorem Closing.stepsLeft_le (hs : s.Closing) : s.stepsLeft ≤ 7 := by
  cases hpc : s.backend with
  | exited | test | waiting => simp [stepsLeft, hpc]
  | writing =>
    rcases hs.short with hfew | hnull
    · have hle := stepsLeft_writing_le hpc
      omega
    · simp [stepsLeft, hpc, hnull]
  | returning =>
    obtain ⟨queue, b, hqueue⟩ := hs.shape.written hpc
    have hlen := hs.short
    rw [Short, hqueue] at hlen
    have hlen := hlen.length_le
    simp only [stepsLeft, hpc, hqueue]
    omega

theorem collect_stepsLeft_le (hs : s.Shape) (hpc : s.backend = .waiting) :
    s.collect.stepsLeft ≤ 6 := by
  rcases Short.collect hs hpc with hfew | hnull
  · have hle := stepsLeft_writing_le (s := s.collect) rfl
    omega
  · simp [stepsLeft, hnull]

/-- The steps of the backend lead on to its end, and no other step leads back. -/
theorem Closing.step (hs : s.Closing) (h : Step s a s') :
    s'.Closing ∧ s'.stepsLeft + a.ofBackend.toNat ≤ s.stepsLeft := by
  have hshape := h.shape hs.shape
  have hshort := h.short hs.shape hs.short
  have hstopped := hs.stopped
  cases h with
  | goesOn hpc hrun => simp [hstopped] at hrun
  | ends hpc hrun => exact ⟨⟨hshape, hshort, hrun⟩, by simp [stepsLeft, hpc, Label.ofBackend]⟩
  | collects hpc =>
    refine ⟨⟨hshape, hshort, by simpa using hstopped⟩, ?_⟩
    have hle := collect_stepsLeft_le hs.shape hpc
    have hseven : s.stepsLeft = 7 := by simp [stepsLeft, hpc]
    simp only [Label.ofBackend, Bool.toNat_true]
    omega
  | allWritten hpc hqueue =>
    exact ⟨⟨hshape, hshort, hstopped⟩, by simp [stepsLeft, hpc, hqueue, Label.ofBackend]⟩
  | writes hpc hqueue hwrite | fails hpc hqueue hwrite =>
    refine ⟨⟨hshape, hshort, hstopped⟩, ?_⟩
    simp [stepsLeft, hpc, hqueue, Label.ofBackend]
  | returns hpc =>
    refine ⟨⟨hshape, hshort, hstopped⟩, ?_⟩
    obtain ⟨queue, b, hqueue⟩ := hs.shape.written hpc
    have hle := stepsLeft_writing_le (s := { s with
      emptyBuffers := s.emptyBuffers ++ [s.writeQueue.getLast?.join]
      writeQueue := s.writeQueue.dropLast
      backend := .writing }) rfl
    have hbefore : s.stepsLeft = 2 * (queue.length + 1) + 1 := by
      simp [stepsLeft, hpc, hqueue]
    simp only [hqueue, List.dropLast_concat] at hle
    simp only [hqueue, List.dropLast_concat, Label.ofBackend, Bool.toNat_true]
    omega
  | stop hnot => exact ⟨⟨hshape, hshort, rfl⟩, le_refl _⟩
  | rejects | stores | exchanges | drops | notify | join =>
    exact ⟨⟨hshape, hshort, hstopped⟩, le_refl _⟩

/-- What the destructor has left to do. -/
def Destructor.left : Destructor → ℕ
  | .notCalled => 3
  | .stopped => 2
  | .notified => 1
  | .joined => 0

/-- The backend's next step would be outside the memory it has. -/
def Faults (s : AsyncLoger) : Prop := ∃ fault, s.step .backend = .error fault

/-- The destructor was called, so that `running` is false. -/
structure Ending (s : AsyncLoger) : Prop extends Closing s where
  called : s.destructor ≠ .notCalled

theorem Step.running_of_called (h : Step s a s')
    (hs : s.destructor ≠ .notCalled → s.running = false) :
    s'.destructor ≠ .notCalled → s'.running = false := by
  cases h with
  | collects hpc => simpa using hs
  | stop hnot => exact fun _ => rfl
  | notify hstopped => exact fun _ => hs (by simp [hstopped])
  | join hnotified hexited => exact fun _ => hs (by simp [hnotified])
  | rejects | stores | exchanges | drops | goesOn | ends | allWritten | writes | fails | returns =>
    exact hs

theorem ending_of_run {as : List Label} (h : system.Run (new raw) as s)
    (hcalled : s.destructor ≠ .notCalled) : s.Ending := by
  have hall : (s.Shape ∧ s.Short) ∧ (s.destructor ≠ .notCalled → s.running = false) := by
    apply h.invariant (P := fun t => (t.Shape ∧ t.Short) ∧
      (t.destructor ≠ .notCalled → t.running = false))
    · exact ⟨⟨shape_new raw, .inl (by simp [new])⟩, fun hnot => absurd rfl hnot⟩
    · intro t a t' ht hen hstep
      have hcases := step_cases hen hstep
      exact ⟨⟨hcases.shape ht.1.1, hcases.short ht.1.1 ht.1.2⟩, hcases.running_of_called ht.2⟩
  exact ⟨⟨hall.1.1, hall.1.2, hall.2 hcalled⟩, hcalled⟩

theorem Step.destructor_eq (h : Step s .backend s') : s'.destructor = s.destructor := by
  cases h with
  | collects hpc => exact collect_destructor
  | goesOn | ends | allWritten | writes | returns => rfl

/-- Until it has returned the destructor goes on, or the backend does. -/
theorem Ending.advance (hs : s.Ending) (hleft : ¬ (s.destructor = .joined ∨ s.Faults)) :
    ∃ a s', s.enabled a ∧ s.step a = .ok s' ∧ s'.Ending ∧
      s'.stepsLeft + s'.destructor.left < s.stepsLeft + s.destructor.left := by
  rw [not_or] at hleft
  cases hdtor : s.destructor with
  | notCalled => exact absurd hdtor hs.called
  | joined => exact absurd hdtor hleft.1
  | stopped =>
    refine ⟨.notify, { s with destructor := .notified }, hdtor, rfl, ?_, ?_⟩
    · exact ⟨(hs.toClosing.step (.notify hdtor)).1, by simp⟩
    · have hle := (hs.toClosing.step (.notify hdtor)).2
      simp only [Label.ofBackend, Bool.toNat_false, Destructor.left] at hle ⊢
      omega
  | notified =>
    by_cases hexited : s.backend = .exited
    · refine ⟨.join, { s with destructor := .joined }, ⟨hdtor, hexited⟩, rfl, ?_, ?_⟩
      · exact ⟨(hs.toClosing.step (.join hdtor hexited)).1, by simp⟩
      · have hle := (hs.toClosing.step (.join hdtor hexited)).2
        simp only [Label.ofBackend, Bool.toNat_false, Destructor.left] at hle ⊢
        omega
    · cases hstep : s.step .backend with
      | error fault => exact absurd ⟨fault, hstep⟩ hleft.2
      | ok s' =>
        have hen : s.enabled .backend := hexited
        have hcases := step_cases hen hstep
        have hdtor' := hcases.destructor_eq.trans hdtor
        obtain ⟨hclosing, hle⟩ := hs.toClosing.step hcases
        refine ⟨.backend, s', hexited, hstep, ⟨hclosing, by simp [hdtor']⟩, ?_⟩
        simp only [Label.ofBackend, Bool.toNat_true] at hle
        rw [hdtor']
        omega

/-- Once the destructor was called the backend takes seven more steps at most, whatever else
happens; and the destructor can return, unless the backend leaves the memory it has. -/
theorem shuts_down {as : List Label} (h : system.Run (new raw) as s)
    (hcalled : s.destructor ≠ .notCalled) :
    (∀ bs t, system.Run s bs t → bs.countP Label.ofBackend ≤ 7) ∧
      ∃ bs t, system.Run s bs t ∧ (t.destructor = .joined ∨ t.Faults) := by
  have hs := ending_of_run h hcalled
  constructor
  · intro bs t hrest
    have hle : bs.countP Label.ofBackend + t.stepsLeft ≤ s.stepsLeft :=
      hrest.countP_add_le (P := Closing) stepsLeft hs.toClosing
        fun u a u' hu hen hstep => hu.step (step_cases hen hstep)
    have hseven := hs.toClosing.stepsLeft_le
    omega
  · have hway : ∃ bs t, system.Run s bs t ∧ t.Ending ∧ (t.destructor = .joined ∨ t.Faults) := by
      apply System.Run.exists_of_measure (fun t => t.stepsLeft + t.destructor.left) ?_ hs
      intro t ht hleft
      obtain ⟨a, t', hen, hstep, ht', hlt⟩ := ht.advance hleft
      have hrun : system.Run t [a] t' := .single hen hstep
      exact ⟨[a], t', hrun, ht', hlt⟩
    obtain ⟨bs, t, hrest, -, hdone⟩ := hway
    exact ⟨bs, t, hrest, hdone⟩

/-- The destructor is called when the backend is about to wait for the first time. -/
theorem shuts_down_at_once : ∃ s, system.Run (new zeroed) [.backend, .stop] s ∧
    s.backend = .waiting ∧ ∃ bs t, system.Run s bs t ∧ (t.destructor = .joined ∨ t.Faults) := by
  have hwaits : system.Run (new zeroed) [.backend] { new zeroed with backend := .waiting } := by
    apply System.Run.single
    · exact (by simp [new] : (new zeroed).backend ≠ .exited)
    · rfl
  have hstops : system.enabled { new zeroed with backend := .waiting } .stop := by
    change (new zeroed).destructor = .notCalled
    rfl
  have hrun := hwaits.snoc hstops rfl
  exact ⟨_, hrun, rfl, (shuts_down hrun (by simp)).2⟩

end LxcHttpServer.AsyncLoger
