import Mathlib.Data.List.Basic
import Mathlib.Data.List.Nodup

/-!
# Doubly linked lists with stable iterators

Every inserted element gets an identity that no other element of the list, past
or present, shares. An iterator is such an identity or the past-the-end position.
Erasing through an iterator is defined exactly when it designates an element; the
other elements keep their identities, so iterators to them stay valid.
-/
namespace LxcHttpServer.IteratorLists

structure IteratorList (α : Type) where
  nodes : List (ℕ × α)
  next : ℕ
  fresh : ∀ p ∈ nodes, p.1 < next
  nodup : (nodes.map Prod.fst).Nodup

inductive Iterator where
  | node (id : ℕ)
  | pastEnd
  deriving DecidableEq

/-- The ways in which an access through an iterator has no meaning. -/
inductive IteratorFault where
  | pastEnd | dangling | emptyFront
  deriving DecidableEq

namespace IteratorList

variable {α : Type}

def empty : IteratorList α := ⟨[], 0, by simp, by simp⟩

def values (l : IteratorList α) : List α := l.nodes.map Prod.snd

def size (l : IteratorList α) : ℕ := l.nodes.length

@[simp] theorem nodes_empty : (empty : IteratorList α).nodes = [] := rfl

@[simp] theorem length_nodes (l : IteratorList α) : l.nodes.length = l.size := rfl

/-- `insert(end(), a)`: the new last element and the iterator to it. -/
def insertEnd (l : IteratorList α) (a : α) : IteratorList α × Iterator :=
  (⟨l.nodes ++ [(l.next, a)], l.next + 1, by
      intro p hp
      rcases List.mem_append.mp hp with hp | hp
      · exact Nat.lt_succ_of_lt (l.fresh p hp)
      · simp [List.mem_singleton.mp hp], by
      rw [List.map_append, List.nodup_append]
      refine ⟨l.nodup, by simp, ?_⟩
      intro i hi j hj
      obtain ⟨p, hp, rfl⟩ := List.mem_map.mp hi
      have hlt := l.fresh p hp
      simp only [List.map_cons, List.map_nil, List.mem_singleton] at hj
      omega⟩, .node l.next)

/-- The elements that satisfy `keep`, with their identities. -/
def filter (l : IteratorList α) (keep : ℕ × α → Bool) : IteratorList α :=
  ⟨l.nodes.filter keep, l.next, fun p hp => l.fresh p (List.mem_filter.mp hp).1,
    (List.filter_sublist.map Prod.fst).nodup l.nodup⟩

/-- `erase(it)`. -/
def erase (l : IteratorList α) : Iterator → Except IteratorFault (IteratorList α)
  | .pastEnd => .error .pastEnd
  | .node id => if id ∈ l.nodes.map Prod.fst then .ok (l.filter (fun p => p.1 ≠ id))
      else .error .dangling

/-- `front()`. -/
def front (l : IteratorList α) : Except IteratorFault α :=
  match l.nodes with
  | [] => .error .emptyFront
  | p :: _ => .ok p.2

/-- `pop_front()` of a list that is not empty. -/
def popFront (l : IteratorList α) : IteratorList α :=
  ⟨l.nodes.tail, l.next, fun p hp => l.fresh p (List.mem_of_mem_tail hp), by
    rw [List.map_tail]
    exact l.nodup.tail⟩

/-- The element an identity belongs to. -/
def get? (l : IteratorList α) (id : ℕ) : Option α :=
  (l.nodes.find? (fun p => p.1 = id)).map Prod.snd

/-- The iterator designates an element of the list. -/
def Designated (l : IteratorList α) : Iterator → Prop
  | .node id => id ∈ l.nodes.map Prod.fst
  | .pastEnd => False

instance (l : IteratorList α) (it : Iterator) : Decidable (l.Designated it) := by
  cases it <;> unfold Designated <;> infer_instance

@[simp] theorem nodes_insertEnd (l : IteratorList α) (a : α) :
    (l.insertEnd a).1.nodes = l.nodes ++ [(l.next, a)] := rfl

@[simp] theorem nodes_filter (l : IteratorList α) (keep : ℕ × α → Bool) :
    (l.filter keep).nodes = l.nodes.filter keep := rfl

@[simp] theorem nodes_popFront (l : IteratorList α) : l.popFront.nodes = l.nodes.tail := rfl

/-- An identity belongs to one element. -/
theorem value_unique (l : IteratorList α) {id : ℕ} {a b : α} (ha : (id, a) ∈ l.nodes)
    (hb : (id, b) ∈ l.nodes) : a = b := by
  have h := List.inj_on_of_nodup_map l.nodup ha hb rfl
  exact congrArg Prod.snd h

theorem get?_eq_some_iff (l : IteratorList α) (id : ℕ) (a : α) :
    l.get? id = some a ↔ (id, a) ∈ l.nodes := by
  constructor
  · intro h
    obtain ⟨p, hp, rfl⟩ := Option.map_eq_some_iff.mp h
    have hid : p.1 = id := by simpa using List.find?_some hp
    subst hid
    exact List.mem_of_find?_eq_some hp
  · intro h
    cases hf : l.nodes.find? (fun p => p.1 = id) with
    | none =>
      have hne := List.find?_eq_none.mp hf _ h
      simp at hne
    | some p =>
      have hid : p.1 = id := by simpa using List.find?_some hf
      have hp : (id, p.2) ∈ l.nodes := by
        subst hid
        exact List.mem_of_find?_eq_some hf
      simp [get?, hf, l.value_unique hp h]

theorem designated_node (l : IteratorList α) {id : ℕ} {a : α} (h : (id, a) ∈ l.nodes) :
    l.Designated (.node id) := List.mem_map.mpr ⟨_, h, rfl⟩

/-- Erasing is defined exactly on the iterators that designate an element. -/
theorem erase_eq_ok_iff (l l' : IteratorList α) (it : Iterator) :
    l.erase it = .ok l' ↔
      ∃ id, it = .node id ∧ l.Designated it ∧ l' = l.filter (fun p => p.1 ≠ id) := by
  cases it with
  | pastEnd => simp [erase]
  | node id =>
    by_cases h : id ∈ l.nodes.map Prod.fst
    · simp [erase, Designated, h, eq_comm]
    · simp [erase, Designated, h]

/-- Erasing one element shortens the list by one. -/
theorem size_filter_ne (l : IteratorList α) {id : ℕ} {a : α} (h : (id, a) ∈ l.nodes) :
    (l.filter (fun p => p.1 ≠ id)).size + 1 = l.size := by
  obtain ⟨xs, ys, hsplit⟩ := List.append_of_mem h
  have hn := l.nodup
  rw [hsplit, List.map_append, List.map_cons, List.nodup_middle, List.nodup_cons,
    ← List.map_append] at hn
  have hkeep : ∀ p ∈ xs ++ ys, p.1 ≠ id := fun p hp he =>
    hn.1 (List.mem_map.mpr ⟨p, hp, he⟩)
  have hx : xs.filter (fun p => p.1 ≠ id) = xs :=
    List.filter_eq_self.mpr fun p hp => by simpa using hkeep p (List.mem_append_left _ hp)
  have hy : ys.filter (fun p => p.1 ≠ id) = ys :=
    List.filter_eq_self.mpr fun p hp => by simpa using hkeep p (List.mem_append_right _ hp)
  simp only [size, nodes_filter, hsplit, List.filter_append, List.filter_cons]
  simp only [hx, hy]
  simp
  omega

end IteratorList
end LxcHttpServer.IteratorLists
