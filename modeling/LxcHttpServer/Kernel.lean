import Mathlib.Data.Finset.Card
import Mathlib.Data.List.AList
import Mathlib.Order.Basic

/-!
# The kernel objects the server shares between its threads

The clock, the open descriptors and the interest set of the one epoll instance.
An entry of the interest set is a one-shot registration and says whether it is
armed. The assumed rules are those of `epoll_ctl`: adding a registered descriptor
fails and changes nothing, modifying it arms it again, delivering its event disarms
it but keeps it registered, deleting or closing it removes it.
-/
namespace LxcHttpServer

structure TimeVal where
  tvSec : ℤ
  tvUsec : ℤ
  deriving DecidableEq

/-- Seconds first, then microseconds. -/
instance : Preorder TimeVal where
  le a b := a.tvSec < b.tvSec ∨ (a.tvSec = b.tvSec ∧ a.tvUsec ≤ b.tvUsec)
  le_refl a := .inr ⟨rfl, le_refl a.tvUsec⟩
  le_trans a b c h h' := by omega

theorem TimeVal.le_def (a b : TimeVal) :
    a ≤ b ↔ a.tvSec < b.tvSec ∨ (a.tvSec = b.tvSec ∧ a.tvUsec ≤ b.tvUsec) := Iff.rfl

instance (a b : TimeVal) : Decidable (a ≤ b) :=
  decidable_of_iff _ (TimeVal.le_def a b).symm

theorem TimeVal.sec_le {a b : TimeVal} (h : a ≤ b) : a.tvSec ≤ b.tvSec := by
  rw [TimeVal.le_def] at h
  omega

structure Kernel where
  /-- Microseconds. -/
  clock : ℤ
  openFds : Finset ℤ
  epoll : AList (fun _ : ℤ => Bool)
  /-- The arguments of all calls of `close`, in order. -/
  closes : List ℤ

inductive EpollOp where
  | add | mod | del

namespace Kernel

/-- At time zero, with nothing open. -/
def boot : Kernel := ⟨0, ∅, ∅, []⟩

def gettimeofday (k : Kernel) : TimeVal := ⟨k.clock / 1000000, k.clock % 1000000⟩

def epollCtl (op : EpollOp) (fd : ℤ) (k : Kernel) : Kernel :=
  match op with
  | .add => if fd ∈ k.epoll then k else { k with epoll := k.epoll.insert fd true }
  | .mod => if fd ∈ k.epoll then { k with epoll := k.epoll.insert fd true } else k
  | .del => { k with epoll := k.epoll.erase fd }

/-- The one-shot event of an armed descriptor is delivered. -/
def deliver (fd : ℤ) (k : Kernel) : Kernel := { k with epoll := k.epoll.insert fd false }

def close (fd : ℤ) (k : Kernel) : Kernel :=
  { k with openFds := k.openFds.erase fd, epoll := k.epoll.erase fd, closes := k.closes ++ [fd] }

def openFd (fd : ℤ) (k : Kernel) : Kernel := { k with openFds := insert fd k.openFds }

/-- The lowest descriptor that is not in use. -/
def unusedFd (k : Kernel) : ℤ :=
  (((List.range (k.openFds.card + 1)).map Int.ofNat).find? (· ∉ k.openFds)).getD 0

def elapse (usec : ℕ) (k : Kernel) : Kernel := { k with clock := k.clock + usec }

def Armed (fd : ℤ) (k : Kernel) : Prop := k.epoll.lookup fd = some true

/-- Registered, with its event delivered and not armed since. -/
def Disarmed (fd : ℤ) (k : Kernel) : Prop := k.epoll.lookup fd = some false

instance (fd : ℤ) (k : Kernel) : Decidable (k.Armed fd) := inferInstanceAs (Decidable (_ = _))

instance (fd : ℤ) (k : Kernel) : Decidable (k.Disarmed fd) := inferInstanceAs (Decidable (_ = _))

/-! `utils.cpp` -/

def addFdToEpollInetOneshot (addedfd : ℤ) (k : Kernel) : Kernel := k.epollCtl .add addedfd

/-- The source passes `EPOLL_CTL_ADD` here as well. -/
def resetOneshotInetOneshot (resetfd : ℤ) (k : Kernel) : Kernel := k.epollCtl .add resetfd

def deleteFdFromEpoll (targetfd : ℤ) (k : Kernel) : Kernel := k.epollCtl .del targetfd

@[simp] theorem openFds_epollCtl (op : EpollOp) (fd : ℤ) (k : Kernel) :
    (k.epollCtl op fd).openFds = k.openFds := by
  cases op <;> simp only [epollCtl] <;> split_ifs <;> rfl

@[simp] theorem closes_epollCtl (op : EpollOp) (fd : ℤ) (k : Kernel) :
    (k.epollCtl op fd).closes = k.closes := by
  cases op <;> simp only [epollCtl] <;> split_ifs <;> rfl

@[simp] theorem clock_epollCtl (op : EpollOp) (fd : ℤ) (k : Kernel) :
    (k.epollCtl op fd).clock = k.clock := by
  cases op <;> simp only [epollCtl] <;> split_ifs <;> rfl

/-- After `EPOLL_CTL_ADD` a descriptor is armed unless it sat disarmed in the set. -/
theorem armed_epollCtl_add (fd : ℤ) (k : Kernel) :
    (k.epollCtl .add fd).Armed fd ↔ ¬ k.Disarmed fd := by
  simp only [epollCtl, Armed, Disarmed]
  split_ifs with h
  · obtain ⟨b, hb⟩ := Option.isSome_iff_exists.mp (AList.lookup_isSome.mpr h)
    cases b <;> simp [hb]
  · rw [AList.lookup_insert, AList.lookup_eq_none.mpr h]
    simp

theorem unusedFd_not_mem (k : Kernel) : k.unusedFd ∉ k.openFds := by
  rw [unusedFd]
  cases hfind : ((List.range (k.openFds.card + 1)).map Int.ofNat).find? (· ∉ k.openFds) with
  | some fd => simpa using List.find?_some hfind
  | none =>
    -- more candidates than open descriptors
    have hall : ∀ fd ∈ (List.range (k.openFds.card + 1)).map Int.ofNat, fd ∈ k.openFds := by
      simpa using hfind
    have hnodup : ((List.range (k.openFds.card + 1)).map Int.ofNat).Nodup :=
      List.nodup_range.map fun _ _ h => Int.ofNat.inj h
    have hsub : ((List.range (k.openFds.card + 1)).map Int.ofNat).toFinset ⊆ k.openFds :=
      fun fd hfd => hall fd (List.mem_toFinset.mp hfd)
    have hcard := Finset.card_le_card hsub
    rw [List.toFinset_card_of_nodup hnodup, List.length_map, List.length_range] at hcard
    omega

theorem lookup_epollCtl_add (fd fd' : ℤ) (k : Kernel) :
    (k.epollCtl .add fd').epoll.lookup fd = k.epoll.lookup fd ∨
      (k.epoll.lookup fd = none ∧ (k.epollCtl .add fd').epoll.lookup fd = some true) := by
  simp only [epollCtl]
  split_ifs with h
  · exact .inl rfl
  · by_cases hne : fd = fd'
    · subst hne
      exact .inr ⟨AList.lookup_eq_none.mpr h, AList.lookup_insert _⟩
    · exact .inl (AList.lookup_insert_ne hne)

theorem lookup_erase_epoll (fd fd' : ℤ) (k : Kernel) :
    (k.epoll.erase fd').lookup fd = k.epoll.lookup fd ∨ (k.epoll.erase fd').lookup fd = none := by
  by_cases hne : fd = fd'
  · subst hne
    exact .inr (AList.lookup_erase _ _)
  · exact .inl (AList.lookup_erase_ne hne)

theorem gettimeofday_mono {k k' : Kernel} (h : k.clock ≤ k'.clock) :
    k.gettimeofday ≤ k'.gettimeofday := by
  rw [TimeVal.le_def]
  simp only [gettimeofday]
  omega

end Kernel
end LxcHttpServer
