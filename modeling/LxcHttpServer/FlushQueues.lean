import LxcHttpServer.PartialRuns

/-!
# Queues that are flushed as a whole

Elements are appended to those that are pending, as long as the capacity allows it. A flush hands
over all that is pending, or it fails and leaves it.
-/
namespace LxcHttpServer.FlushQueues
open PartialRuns

structure Queue (α : Type) where
  pending : List α
  delivered : List α

inductive Operation (α : Type) where
  | append (xs : List α)
  | flush (succeeds : Bool)

/-- What an operation adds to a queue. -/
def Operation.appended {α : Type} : Operation α → List α
  | .append xs => xs
  | .flush _ => []

namespace Queue

variable {α : Type} {n : ℕ} {q : Queue α} {ops : List (Operation α)}

def empty : Queue α where
  pending := []
  delivered := []

/-- A queue of capacity `n` does not take more than `n` elements at once. -/
def Admits (n : ℕ) (q : Queue α) : Operation α → Prop
  | .append xs => q.pending.length + xs.length ≤ n
  | .flush _ => True

def apply (q : Queue α) : Operation α → Queue α
  | .append xs => { q with pending := q.pending ++ xs }
  | .flush true => { q with pending := [], delivered := q.delivered ++ q.pending }
  | .flush false => q

def system (α : Type) (n : ℕ) : System (Queue α) (Operation α) Empty where
  enabled q op := q.Admits n op
  step q op := .ok (q.apply op)

theorem apply_delivered_append_pending (q : Queue α) (op : Operation α) :
    (q.apply op).delivered ++ (q.apply op).pending =
      q.delivered ++ q.pending ++ op.appended := by
  cases op with
  | append xs => simp [apply, Operation.appended]
  | flush succeeds => cases succeeds <;> simp [apply, Operation.appended]

/-- What was handed over and what is pending is what was appended, in order. -/
theorem delivered_append_pending (h : (system α n).Run empty ops q) :
    q.delivered ++ q.pending = ops.flatMap Operation.appended := by
  induction h with
  | nil => rfl
  | snoc run enabled step ih =>
    cases step
    rw [apply_delivered_append_pending, ih, List.flatMap_append, List.flatMap_singleton]

end Queue
end LxcHttpServer.FlushQueues
