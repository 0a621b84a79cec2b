import Mathlib.Data.Finset.Card

/-! # Finite sets of a bounded size

The purpose of a member list: a finite set that can be asked for membership,
takes elements until it is full and gives them up again.
-/

inductive SetOp where
  | add
  | remove
  | contains
deriving DecidableEq

inductive SetReply where
  | done
  | present
  | absent
  | full
deriving DecidableEq

namespace BoundedSet

variable {α : Type} [DecidableEq α]

/-- One operation on a set of at most `capacity` elements. -/
def step (capacity : Nat) (s : Finset α) (e : SetOp × α) : SetReply × Finset α :=
  match e.1 with
  | .add =>
      if e.2 ∈ s then (.present, s)
      else if s.card < capacity then (.done, insert e.2 s)
      else (.full, s)
  | .remove => (.done, s.erase e.2)
  | .contains => (if e.2 ∈ s then .present else .absent, s)

/-- No operation fills the set beyond its capacity. -/
theorem step_card_le {capacity : Nat} (s : Finset α) (e : SetOp × α) (hs : s.card ≤ capacity) :
    (step capacity s e).2.card ≤ capacity := by
  unfold step
  split
  next =>
    split
    next => exact hs
    next habsent =>
      split
      next hroom =>
        rw [Finset.card_insert_of_notMem habsent]
        exact hroom
      next => exact hs
  next => exact (Finset.card_erase_le).trans hs
  next => exact hs

end BoundedSet
