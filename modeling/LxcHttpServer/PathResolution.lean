import Mathlib.Data.List.Basic

/-!
# Walks in a directory tree

A relative path is a list of steps. It resolves to a number of levels to climb and the names
to go down afterwards; a place in the tree is the list of the names above it, the lowest
first.
-/
namespace LxcHttpServer.PathResolution

inductive Step (ν : Type) where
  | here
  | up
  | down (name : ν)

/-- A path without detours: first up, then down. -/
structure Resolved (ν : Type) where
  ups : ℕ
  names : List ν

variable {ν : Type} {steps : List (Step ν)} {name : ν}

/-- A step in front of a resolved path. -/
def Resolved.cons : Step ν → Resolved ν → Resolved ν
  | .here, r => r
  | .up, r => ⟨r.ups + 1, r.names⟩
  | .down name, r =>
    match r.ups with
    | 0 => ⟨0, name :: r.names⟩
    | ups + 1 => ⟨ups, r.names⟩

def resolve (steps : List (Step ν)) : Resolved ν := steps.foldr Resolved.cons ⟨0, []⟩

@[simp] theorem resolve_cons (step : Step ν) (steps : List (Step ν)) :
    resolve (step :: steps) = (resolve steps).cons step := rfl

/-- Where one step leads; above the root is the root. -/
def move (place : List ν) : Step ν → List ν
  | .here => place
  | .up => place.tail
  | .down name => name :: place

def walk (place : List ν) (steps : List (Step ν)) : List ν := steps.foldl move place

/-- The walk along a path leads where the resolved path says. -/
theorem walk_eq (place : List ν) (steps : List (Step ν)) :
    walk place steps = (resolve steps).names.reverse ++ place.drop (resolve steps).ups := by
  induction steps generalizing place with
  | nil => rfl
  | cons step steps ih =>
    have hwalk : walk place (step :: steps) = walk (move place step) steps := rfl
    rw [hwalk, ih, resolve_cons]
    cases step with
    | here => rfl
    | up =>
      simp only [move, Resolved.cons]
      rw [List.drop_tail]
    | down name =>
      simp only [move, Resolved.cons]
      cases hups : (resolve steps).ups with
      | zero => simp
      | succ ups => rfl

/-- The path does not leave the directory `name` of the place it starts from. -/
def Within (name : ν) (steps : List (Step ν)) : Prop :=
  (resolve steps).ups = 0 ∧ (resolve steps).names.head? = some name

instance [DecidableEq ν] (name : ν) (steps : List (Step ν)) : Decidable (Within name steps) :=
  inferInstanceAs (Decidable (_ ∧ _))

/-- From wherever it starts, the walk ends in the directory. -/
theorem Within.walk_ends (h : Within name steps) (place : List ν) :
    ∃ names, walk place steps = names ++ name :: place := by
  obtain ⟨names, hnames⟩ := List.head?_eq_some_iff.mp h.2
  refine ⟨names.reverse, ?_⟩
  rw [walk_eq, h.1, hnames, List.drop_zero, List.reverse_cons, List.append_assoc,
    List.singleton_append]

/-- A path that first goes down to `first` stays in `name` if that is the same directory and it
is not left again, or if the path climbs back above it once and comes down in `name`. -/
theorem within_down_iff (name first : ν) (steps : List (Step ν)) :
    Within name (.down first :: steps) ↔ (first = name ∧ (resolve steps).ups = 0) ∨
      ((resolve steps).ups = 1 ∧ (resolve steps).names.head? = some name) := by
  rw [Within, resolve_cons, Resolved.cons]
  cases hups : (resolve steps).ups with
  | zero => simp
  | succ ups => simp

end LxcHttpServer.PathResolution
