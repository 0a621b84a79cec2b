import Mathlib.Data.List.ReduceOption
import Mathlib.Data.List.Perm.Basic

/-! # Tables with pinned slots

What comes to the front of a table pushes the slots before a hole up by one, but those
that are pinned stay. Nothing is lost by it, and nothing comes twice.
-/

namespace PinnedSlots

variable {α : Type} (pinned : α → Bool)

/-- `x` goes to the first slot that is not pinned, what was there to the next one, and
the last of them behind the end. -/
def shift (x : Option α) : List (Option α) → List (Option α)
  | [] => [x]
  | y :: ys => if y.any pinned then y :: shift x ys else x :: shift y ys

@[simp] theorem length_shift (x : Option α) (ys : List (Option α)) :
    (shift pinned x ys).length = ys.length + 1 := by
  induction ys generalizing x with
  | nil => rfl
  | cons y ys ih =>
      unfold shift
      split <;> simp [ih]

theorem perm_shift (x : Option α) (ys : List (Option α)) :
    (shift pinned x ys).Perm (x :: ys) := by
  induction ys generalizing x with
  | nil => exact .refl _
  | cons y ys ih =>
      unfold shift
      split
      · exact ((ih x).cons y).trans (.swap x y ys)
      · exact (ih y).cons x

variable {pinned}

theorem shift_of_pinned {x : Option α} {ys : List (Option α)}
    (h : ∀ y ∈ ys, y.any pinned = true) : shift pinned x ys = ys ++ [x] := by
  induction ys with
  | nil => rfl
  | cons y ys ih =>
      unfold shift
      rw [if_pos (h y List.mem_cons_self), ih fun z hz => h z (List.mem_cons_of_mem _ hz)]
      rfl

/-- At a slot that is not pinned the shift begins anew. -/
theorem shift_append_cons {x y : Option α} {ys zs : List (Option α)} (hy : y.any pinned = false) :
    shift pinned x (ys ++ y :: zs) = shift pinned x ys ++ shift pinned y zs := by
  induction ys generalizing x with
  | nil => simp [shift, hy]
  | cons z ys ih =>
      simp only [List.cons_append, shift, ih]
      split <;> rfl

end PinnedSlots
