import Mathlib.Data.List.Basic

/-!
# Programs with state, exceptions, undefined operations and blocking calls

A program maps a state to an outcome and the state it leaves. An operation that
has no meaning ends the program as `undefined`, a call that does not return ends
it as `blocked`, and one that ends the process as `killed`; no handler sees these.
A loop comes with a measure that its body decreases. Two kinds of facts compose
along a program: invariants of the state, and accounts that trace every exception
back to a call recorded in a log.
-/
namespace LxcHttpServer.EffectPrograms

inductive Outcome (ε υ α : Type) where
  | ok (a : α)
  | throw (e : ε)
  | undefined (u : υ)
  | blocked
  | killed
  deriving DecidableEq

def Prog (σ ε υ α : Type) : Type := σ → Outcome ε υ α × σ

variable {σ ε υ κ α β : Type}

/-- The exception with which a program ends, if it ends with one. -/
def Outcome.thrown : Outcome ε υ α → Option ε
  | .throw e => some e
  | _ => none

@[simp] theorem Outcome.thrown_ok (a : α) : (Outcome.ok a : Outcome ε υ α).thrown = none := rfl
@[simp] theorem Outcome.thrown_throw (e : ε) :
    (Outcome.throw e : Outcome ε υ α).thrown = some e := rfl
@[simp] theorem Outcome.thrown_undefined (u : υ) :
    (Outcome.undefined u : Outcome ε υ α).thrown = none := rfl
@[simp] theorem Outcome.thrown_blocked : (Outcome.blocked : Outcome ε υ α).thrown = none := rfl
@[simp] theorem Outcome.thrown_killed : (Outcome.killed : Outcome ε υ α).thrown = none := rfl

/-- The end of a program that has no result, as the end of one that could have had one. -/
def Outcome.failing : Outcome ε υ Empty → Outcome ε υ α
  | .throw e => .throw e
  | .undefined u => .undefined u
  | .blocked => .blocked
  | .killed => .killed

theorem Outcome.ok_ne_failing {a : α} {o : Outcome ε υ Empty} : Outcome.ok a ≠ o.failing := by
  cases o with
  | ok b => exact b.elim
  | throw e => simp [failing]
  | undefined u => simp [failing]
  | blocked => simp [failing]
  | killed => simp [failing]

/-- The program has returned, with a result and a state that pass a test. -/
def returns (p : α → σ → Bool) : Outcome ε υ α × σ → Bool
  | (.ok a, s) => p a s
  | _ => false

theorem returns_eq_true {p : α → σ → Bool} {r : Outcome ε υ α × σ} (h : returns p r = true) :
    ∃ a s, r = (.ok a, s) ∧ p a s = true := by
  obtain ⟨o, s⟩ := r
  cases o with
  | ok a => exact ⟨a, s, rfl, h⟩
  | throw e => cases h
  | undefined u => cases h
  | blocked => cases h
  | killed => cases h

namespace Prog

protected def pure (a : α) : Prog σ ε υ α := fun s => (.ok a, s)

protected def bind (p : Prog σ ε υ α) (f : α → Prog σ ε υ β) : Prog σ ε υ β := fun s =>
  match p s with
  | (.ok a, s') => f a s'
  | (.throw e, s') => (.throw e, s')
  | (.undefined u, s') => (.undefined u, s')
  | (.blocked, s') => (.blocked, s')
  | (.killed, s') => (.killed, s')

instance : Monad (Prog σ ε υ) where
  pure := Prog.pure
  bind := Prog.bind

def throw (e : ε) : Prog σ ε υ α := fun s => (.throw e, s)

def undefined (u : υ) : Prog σ ε υ α := fun s => (.undefined u, s)

/-- Ends without touching the state. -/
def ofOutcome (o : Outcome ε υ α) : Prog σ ε υ α := fun s => (o, s)

/-- Runs `p`; the handler sees the exceptions of `p`, which it may throw again. -/
def handle (p : Prog σ ε υ α) (handler : ε → Prog σ ε υ α) : Prog σ ε υ α := fun s =>
  match p s with
  | (.throw e, s') => handler e s'
  | r => r

@[simp] theorem pure_run (a : α) (s : σ) : (pure a : Prog σ ε υ α) s = (.ok a, s) := rfl

@[simp] theorem throw_run (e : ε) (s : σ) : (throw e : Prog σ ε υ α) s = (.throw e, s) := rfl

@[simp] theorem undefined_run (u : υ) (s : σ) :
    (undefined u : Prog σ ε υ α) s = (.undefined u, s) := rfl

@[simp] theorem ofOutcome_run (o : Outcome ε υ α) (s : σ) :
    (ofOutcome o : Prog σ ε υ α) s = (o, s) := rfl

theorem bind_run (p : Prog σ ε υ α) (f : α → Prog σ ε υ β) (s : σ) :
    (p >>= f) s = match p s with
      | (.ok a, s') => f a s'
      | (.throw e, s') => (.throw e, s')
      | (.undefined u, s') => (.undefined u, s')
      | (.blocked, s') => (.blocked, s')
      | (.killed, s') => (.killed, s') := rfl

theorem bind_ok {p : Prog σ ε υ α} {f : α → Prog σ ε υ β} {s s' : σ} {a : α}
    (h : p s = (.ok a, s')) : (p >>= f) s = f a s' := by
  rw [bind_run, h]

theorem bind_failing {p : Prog σ ε υ α} {f : α → Prog σ ε υ β} {s : σ} {o : Outcome ε υ Empty}
    (h : (p s).1 = o.failing) : ((p >>= f) s).1 = o.failing := by
  rw [bind_run]
  cases hp : p s with
  | mk o' s' =>
    rw [hp] at h
    subst h
    cases o with
    | ok a => exact a.elim
    | throw e => rfl
    | undefined u => rfl
    | blocked => rfl
    | killed => rfl

theorem bind_assoc {γ : Type} (p : Prog σ ε υ α) (f : α → Prog σ ε υ β) (g : β → Prog σ ε υ γ) :
    (p >>= f) >>= g = p >>= fun a => f a >>= g := by
  funext s
  rw [bind_run, bind_run, bind_run]
  cases hp : p s with
  | mk o t => cases o <;> rfl

/-- A sequence that returns has returned from its first part. -/
theorem bind_eq_ok {p : Prog σ ε υ α} {f : α → Prog σ ε υ β} {s s' : σ} {b : β}
    (h : (p >>= f) s = (.ok b, s')) : ∃ a t, p s = (.ok a, t) ∧ f a t = (.ok b, s') := by
  rw [bind_run] at h
  split at h
  · next a t hp => exact ⟨a, t, hp, h⟩
  all_goals cases h

/-- A sequence runs both parts, or it ends in the state that the first part leaves. -/
theorem bind_run_cases (p : Prog σ ε υ α) (f : α → Prog σ ε υ β) (s : σ) :
    (∃ a t, p s = (.ok a, t) ∧ (p >>= f) s = f a t) ∨ ((p >>= f) s).2 = (p s).2 := by
  rw [bind_run]
  cases hp : p s with
  | mk o t =>
    cases o with
    | ok a => exact .inl ⟨a, t, rfl, rfl⟩
    | throw e => exact .inr rfl
    | undefined u => exact .inr rfl
    | blocked => exact .inr rfl
    | killed => exact .inr rfl

/-- Where the second part only decides on a value, the first leaves the state. -/
theorem bind_ofOutcome_eq_ok {p : Prog σ ε υ α} {f : α → Outcome ε υ β} {s s' : σ} {b : β}
    (h : (p >>= fun a => ofOutcome (f a)) s = (.ok b, s')) :
    ∃ a, p s = (.ok a, s') ∧ f a = .ok b := by
  obtain ⟨a, t, hp, hf⟩ := bind_eq_ok h
  rw [ofOutcome_run, Prod.mk.injEq] at hf
  obtain ⟨hok, rfl⟩ := hf
  exact ⟨a, hp, hok⟩

/-- A sequence throws in its first part, or in the second after the first returned. -/
theorem bind_eq_throw {p : Prog σ ε υ α} {f : α → Prog σ ε υ β} {s s' : σ} {e : ε}
    (h : (p >>= f) s = (.throw e, s')) :
    p s = (.throw e, s') ∨ ∃ a t, p s = (.ok a, t) ∧ f a t = (.throw e, s') := by
  rw [bind_run] at h
  split at h
  · next a t hp => exact .inr ⟨a, t, hp, h⟩
  · next e' t hp =>
    cases h
    exact .inl hp
  all_goals cases h

/-- A handler sees only how the program ends. -/
theorem handle_congr {p q : Prog σ ε υ α} {s t : σ} (h : p s = q t)
    (handler : ε → Prog σ ε υ α) : handle p handler s = handle q handler t := by
  simp only [handle, h]

theorem handle_throw {p : Prog σ ε υ α} {handler : ε → Prog σ ε υ α} {s s' : σ} {e : ε}
    (h : p s = (.throw e, s')) : handle p handler s = handler e s' := by
  simp only [handle, h]

/-- A handled program that returns did so by itself or through its handler. -/
theorem handle_eq_ok {p : Prog σ ε υ α} {handler : ε → Prog σ ε υ α} {s s' : σ} {a : α}
    (h : handle p handler s = (.ok a, s')) :
    p s = (.ok a, s') ∨ ∃ e t, p s = (.throw e, t) ∧ handler e t = (.ok a, s') := by
  cases hp : p s with
  | mk o t =>
    cases o with
    | throw e => exact .inr ⟨e, t, rfl, by rwa [handle_throw hp] at h⟩
    | ok b => exact .inl (by simpa only [handle, hp] using h)
    | undefined u => simp [handle, hp] at h
    | blocked => simp [handle, hp] at h
    | killed => simp [handle, hp] at h

/-- A handled program throws what its handler throws. -/
theorem handle_eq_throw {p : Prog σ ε υ α} {handler : ε → Prog σ ε υ α} {s s' : σ} {e : ε}
    (h : handle p handler s = (.throw e, s')) :
    ∃ e' t, p s = (.throw e', t) ∧ handler e' t = (.throw e, s') := by
  cases hp : p s with
  | mk o t =>
    cases o with
    | throw e' => exact ⟨e', t, rfl, by rwa [handle_throw hp] at h⟩
    | ok b => simp [handle, hp] at h
    | undefined u => simp [handle, hp] at h
    | blocked => simp [handle, hp] at h
    | killed => simp [handle, hp] at h

end Prog

/-! ## Loops -/

/-- A loop: its body goes around again or leaves, and going around takes the measure down. -/
structure Loop (σ ε υ α β : Type) where
  body : α → Prog σ ε υ (α ⊕ β)
  measure : α → σ → ℕ
  decreases : ∀ a s a' s', body a s = (.ok (.inl a'), s') → measure a' s' < measure a s

def Loop.run (l : Loop σ ε υ α β) (a : α) (s : σ) : Outcome ε υ β × σ :=
  match _h : l.body a s with
  | (.ok (.inl a'), s') => l.run a' s'
  | (.ok (.inr b), s') => (.ok b, s')
  | (.throw e, s') => (.throw e, s')
  | (.undefined u, s') => (.undefined u, s')
  | (.blocked, s') => (.blocked, s')
  | (.killed, s') => (.killed, s')
termination_by l.measure a s
decreasing_by exact l.decreases a s a' s' _h

namespace Loop

/-- A loop is its body followed by the loop, if the body goes around. -/
theorem run_eq (l : Loop σ ε υ α β) (a : α) : (l.run a : Prog σ ε υ β) =
    l.body a >>= fun r => match r with
      | .inl a' => l.run a'
      | .inr b => pure b := by
  funext s
  rw [run, Prog.bind_run]
  split <;> next h => simp only [h, Prog.pure_run]

/-- To prove something of all runs of a loop, prove it of a run from what holds of the rest. -/
theorem run_induction (l : Loop σ ε υ α β) {P : α → σ → Prop}
    (step : ∀ a s, (∀ a' s', l.body a s = (.ok (.inl a'), s') → P a' s') → P a s)
    (a : α) (s : σ) : P a s := by
  induction hn : l.measure a s using Nat.strongRecOn generalizing a s with
  | ind n ih =>
    apply step
    intro a' s' h
    exact ih _ (hn ▸ l.decreases a s a' s' h) a' s' rfl

/-- Going around some number of times takes the loop from one round to another. -/
inductive Reaches (l : Loop σ ε υ α β) : α → σ → α → σ → Prop where
  | here (a : α) (s : σ) : l.Reaches a s a s
  | round {a a' a'' : α} {s s' s'' : σ} (h : l.body a s = (.ok (.inl a'), s'))
      (hrest : l.Reaches a' s' a'' s'') : l.Reaches a s a'' s''

variable {l : Loop σ ε υ α β} {a a' : α} {s s' : σ}

theorem run_of_body (h : l.body a s = (.ok (.inl a'), s')) : l.run a s = l.run a' s' := by
  rw [run_eq]
  exact Prog.bind_ok h

theorem run_of_leave {b : β} (h : l.body a s = (.ok (.inr b), s')) :
    l.run a s = (.ok b, s') := by
  rw [run_eq]
  exact Prog.bind_ok h

theorem run_failing {o : Outcome ε υ Empty} (h : (l.body a s).1 = o.failing) :
    (l.run a s).1 = o.failing := by
  rw [run_eq]
  exact Prog.bind_failing h

/-- A loop ends as the round it reaches. -/
theorem Reaches.run_eq (h : l.Reaches a s a' s') : l.run a s = l.run a' s' := by
  induction h with
  | here a s => rfl
  | round h _ ih => rw [run_of_body h, ih]

theorem Reaches.trans {a'' : α} {s'' : σ} (h : l.Reaches a s a' s')
    (h' : l.Reaches a' s' a'' s'') : l.Reaches a s a'' s'' := by
  induction h with
  | here a s => exact h'
  | round h _ ih => exact .round h (ih h')

end Loop

namespace Prog

/-- However the program ends, it leaves a state with the property when it started in one. -/
def Preserves (I : σ → Prop) (p : Prog σ ε υ α) : Prop := ∀ s, I s → I (p s).2

namespace Preserves

variable {I : σ → Prop}

theorem of_eq {p : Prog σ ε υ α} {s s' : σ} {o : Outcome ε υ α} (hp : Preserves I p) (hs : I s)
    (h : p s = (o, s')) : I s' := by
  have hafter := hp s hs
  rwa [h] at hafter

theorem pure (a : α) : Preserves I (Pure.pure a : Prog σ ε υ α) := fun _ h => h

theorem throw (e : ε) : Preserves I (throw e : Prog σ ε υ α) := fun _ h => h

theorem undefined (u : υ) : Preserves I (undefined u : Prog σ ε υ α) := fun _ h => h

/-- The second part may use what is known of the result of the first. -/
theorem bind_of {Q : α → Prop} {p : Prog σ ε υ α} {f : α → Prog σ ε υ β} (hp : Preserves I p)
    (hQ : ∀ s a s', I s → p s = (.ok a, s') → Q a) (hf : ∀ a, Q a → Preserves I (f a)) :
    Preserves I (p >>= f) := by
  intro s hs
  have h := hp s hs
  rw [bind_run]
  split
  · next a t hps =>
    rw [hps] at h
    exact hf a (hQ s a t hs hps) t h
  all_goals
    next hps =>
    rw [hps] at h
    exact h

theorem bind {p : Prog σ ε υ α} {f : α → Prog σ ε υ β} (hp : Preserves I p)
    (hf : ∀ a, Preserves I (f a)) : Preserves I (p >>= f) :=
  hp.bind_of (fun _ _ _ _ _ => trivial) fun a _ => hf a

theorem ite {c : Prop} [Decidable c] {p q : Prog σ ε υ α} (hp : Preserves I p)
    (hq : Preserves I q) : Preserves I (if c then p else q) := by
  split
  · exact hp
  · exact hq

theorem handle {p : Prog σ ε υ α} {handler : ε → Prog σ ε υ α} (hp : Preserves I p)
    (hhandler : ∀ e, Preserves I (handler e)) : Preserves I (handle p handler) := by
  intro s hs
  have h := hp s hs
  rw [Prog.handle]
  split
  · next e t hps =>
    rw [hps] at h
    exact hhandler e t h
  · exact h

theorem loop {l : Loop σ ε υ α β} (hbody : ∀ a, Preserves I (l.body a)) (a : α) :
    Preserves I (l.run a : Prog σ ε υ β) := by
  intro s
  induction a, s using l.run_induction with
  | step a s ih =>
    intro hs
    have h := hbody a s hs
    rw [Loop.run_eq, bind_run]
    split
    · next r t hb =>
      rw [hb] at h
      cases r with
      | inl a' => exact ih a' t hb h
      | inr b => exact h
    all_goals
      next hb =>
      rw [hb] at h
      exact h

end Preserves

/-! ## Exceptions accounted for by a log of calls -/

variable {log : σ → List κ} {raises : κ → Option ε}

/-- What was logged since the state `s₀` is of one kind. -/
def LoggedSince (log : σ → List κ) (P : κ → Prop) (s₀ s : σ) : Prop :=
  ∃ tr, log s = log s₀ ++ tr ∧ ∀ c ∈ tr, P c

theorem LoggedSince.refl (P : κ → Prop) (s : σ) : LoggedSince log P s s :=
  ⟨[], (List.append_nil _).symm, fun _ hc => absurd hc List.not_mem_nil⟩

theorem LoggedSince.snoc {P : κ → Prop} {s₀ s s' : σ} {c : κ} (h : LoggedSince log P s₀ s)
    (hlog : log s' = log s ++ [c]) (hc : P c) : LoggedSince log P s₀ s' := by
  obtain ⟨tr, htr, hall⟩ := h
  refine ⟨tr ++ [c], by rw [hlog, htr, List.append_assoc], ?_⟩
  intro c' hc'
  rcases List.mem_append.mp hc' with hmem | hmem
  · exact hall c' hmem
  · rw [List.mem_singleton.mp hmem]
    exact hc

/-- The program returns the result of the one call it records, or it does not return. -/
def Records (log : σ → List κ) (call : α → κ) (p : Prog σ ε υ α) : Prop :=
  ∀ s, (∃ a s', p s = (.ok a, s') ∧ log s' = log s ++ [call a]) ∨
    ∃ s', p s = (.blocked, s') ∧ log s' = log s

/-- The program records one call, whether it returns or not. -/
theorem Preserves.of_call {P : κ → Prop} {s₀ : σ} {p : Prog σ ε υ α}
    (h : ∀ s, ∃ c, log (p s).2 = log s ++ [c] ∧ P c) : Preserves (LoggedSince log P s₀) p := by
  intro s hs
  obtain ⟨c, hlog, hc⟩ := h s
  exact hs.snoc hlog hc

/-- A recorded call of the kind that is logged. -/
theorem Preserves.of_records {P : κ → Prop} {s₀ : σ} {call : α → κ} {p : Prog σ ε υ α}
    (hp : Records log call p) (hcall : ∀ a, P (call a)) :
    Preserves (LoggedSince log P s₀) p := by
  intro s hs
  rcases hp s with ⟨a, s', hps, hlog⟩ | ⟨s', hps, hlog⟩
  · rw [hps]
    exact hs.snoc hlog (hcall a)
  · rw [hps]
    obtain ⟨tr, htr, hall⟩ := hs
    exact ⟨tr, hlog.trans htr, hall⟩

/-- Every exception of the program was raised by the call it recorded last, and no
other recorded call raised one. -/
def Accounts (log : σ → List κ) (raises : κ → Option ε) (p : Prog σ ε υ α) : Prop :=
  ∀ s, ∃ tr, log (p s).2 = log s ++ tr ∧ tr.filterMap raises = (p s).1.thrown.toList

namespace Accounts

theorem of_silent {p : Prog σ ε υ α} (hlog : ∀ s, log (p s).2 = log s)
    (hthrown : ∀ s, (p s).1.thrown = none) : Accounts log raises p := fun s =>
  ⟨[], by simp [hlog s], by simp [hthrown s]⟩

/-- A program that records one call and throws what the call raises. -/
theorem of_call {p : Prog σ ε υ α} (h : ∀ s, ∃ c, log (p s).2 = log s ++ [c] ∧
    (p s).1.thrown = raises c) : Accounts log raises p := by
  intro s
  obtain ⟨c, hlog, hthrown⟩ := h s
  refine ⟨[c], hlog, ?_⟩
  rw [hthrown]
  cases hc : raises c <;> simp [hc]

theorem pure (a : α) : Accounts log raises (Pure.pure a : Prog σ ε υ α) :=
  of_silent (fun _ => rfl) (fun _ => rfl)

theorem undefined (u : υ) : Accounts log raises (undefined u : Prog σ ε υ α) :=
  of_silent (fun _ => rfl) (fun _ => rfl)

theorem bind {p : Prog σ ε υ α} {f : α → Prog σ ε υ β} (hp : Accounts log raises p)
    (hf : ∀ a, Accounts log raises (f a)) : Accounts log raises (p >>= f) := by
  intro s
  obtain ⟨tr, hlog, hraised⟩ := hp s
  rw [bind_run]
  split
  · next a t hs =>
    rw [hs] at hlog hraised
    obtain ⟨tr', hlog', hraised'⟩ := hf a t
    refine ⟨tr ++ tr', ?_, ?_⟩
    · rw [hlog', hlog, List.append_assoc]
    · simpa [hraised] using hraised'
  all_goals
    next hs =>
    rw [hs] at hlog hraised
    exact ⟨tr, hlog, hraised⟩

/-- From a state in which the first part records one call and returns, the second throws
what the call raises, if it raises something. -/
theorem bind_at {p : Prog σ ε υ α} {f : α → Prog σ ε υ β} {s s' : σ} {a : α} {c : κ}
    (hp : p s = (.ok a, s')) (hlog : log s' = log s ++ [c])
    (hf : raises c = none ∧ Accounts log raises (f a) ∨
      ∃ e, raises c = some e ∧ f a = throw e) :
    ∃ tr, log ((p >>= f) s).2 = log s ++ tr ∧
      tr.filterMap raises = ((p >>= f) s).1.thrown.toList := by
  rw [bind_ok hp]
  rcases hf with ⟨hc, hf⟩ | ⟨e, hc, hf⟩
  · obtain ⟨tr, hlog', hraised⟩ := hf s'
    refine ⟨c :: tr, ?_, ?_⟩
    · rw [hlog', hlog, List.append_assoc, List.singleton_append]
    · simpa [hc] using hraised
  · rw [hf]
    exact ⟨[c], hlog, by simp [hc]⟩

/-- A recorded call, followed by what the program does with its result: it throws what
the call raises, if it raises something. -/
theorem bind_records {call : α → κ} {p : Prog σ ε υ α} {f : α → Prog σ ε υ β}
    (hp : Records log call p) (hok : ∀ a, raises (call a) = none → Accounts log raises (f a))
    (hthrow : ∀ a e, raises (call a) = some e → f a = throw e) :
    Accounts log raises (p >>= f) := by
  intro s
  rcases hp s with ⟨a, t, hps, hlog⟩ | ⟨t, hps, hlog⟩
  · apply bind_at hps hlog
    cases hc : raises (call a) with
    | none => exact .inl ⟨rfl, hok a hc⟩
    | some e => exact .inr ⟨e, rfl, hthrow a e hc⟩
  · rw [bind_run, hps]
    exact ⟨[], by simpa using hlog, rfl⟩

/-- A recorded call that raises nothing. -/
theorem of_records {call : α → κ} {p : Prog σ ε υ α} (hp : Records log call p)
    (hraises : ∀ a, raises (call a) = none) : Accounts log raises p := by
  intro s
  rcases hp s with ⟨a, t, hps, hlog⟩ | ⟨t, hps, hlog⟩
  · exact ⟨[call a], by rw [hps]; exact hlog, by simp [hps, hraises]⟩
  · exact ⟨[], by rw [hps]; simpa using hlog, by simp [hps]⟩

theorem ite {c : Prop} [Decidable c] {p q : Prog σ ε υ α} (hp : Accounts log raises p)
    (hq : Accounts log raises q) : Accounts log raises (if c then p else q) := by
  split
  · exact hp
  · exact hq

theorem loop {l : Loop σ ε υ α β} (hbody : ∀ a, Accounts log raises (l.body a)) (a : α) :
    Accounts log raises (l.run a : Prog σ ε υ β) := by
  intro s
  induction a, s using l.run_induction with
  | step a s ih =>
    obtain ⟨tr, hlog, hraised⟩ := hbody a s
    rw [Loop.run_eq, bind_run]
    split
    · next r t hb =>
      rw [hb] at hlog hraised
      cases r with
      | inl a' =>
        obtain ⟨tr', hlog', hraised'⟩ := ih a' t hb
        refine ⟨tr ++ tr', ?_, ?_⟩
        · rw [hlog', hlog, List.append_assoc]
        · simpa [hraised] using hraised'
      | inr b => exact ⟨tr, hlog, hraised⟩
    all_goals
      next hb =>
      rw [hb] at hlog hraised
      exact ⟨tr, hlog, hraised⟩

end Accounts
end Prog
end LxcHttpServer.EffectPrograms
