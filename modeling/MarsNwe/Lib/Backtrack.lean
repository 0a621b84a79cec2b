import Mathlib.Logic.Relation

/-! # Searches that may get stuck

A search tries configurations one after the other until one of them succeeds. It has no
result when it comes to a configuration in which it is stuck. Which configurations it comes
to depends on what it has tried before; but when success is out of reach for everything
from which a stuck configuration can be met, the order does not matter.
-/

/-- A search by configurations `κ`, of which `π` is the part that all alternatives of a
configuration share. -/
structure Backtrack (κ π : Type) where
  run : κ → Option Bool
  /-- A configuration and one that it may go on with. -/
  next : κ → κ → Prop
  stuck : κ → Prop
  part : κ → π
  /-- The configurations of a search that has begun well. -/
  ok : κ → Prop
  /-- What prevents success. -/
  broken : π → Prop
  wf : WellFounded fun d c => next c d
  stuck_or_next : ∀ c, ok c → run c = none → stuck c ∨ ∃ d, next c d ∧ run d = none
  run_of_stuck : ∀ c, stuck c → run c = none
  run_of_next : ∀ c d, ok c → next c d → broken (part d) → run d = none → run c = none
  broken_of_stuck : ∀ c, stuck c → broken (part c)
  broken_of_next : ∀ c d, next c d → broken (part d) → broken (part c)
  ok_of_next : ∀ c d, next c d → ok c → ok d

namespace Backtrack

variable {κ π : Type} (b : Backtrack κ π)

/-- `d` may be met from `c`. -/
def Meets (c d : κ) : Prop := Relation.ReflTransGen b.next c d

theorem exists_stuck_of_run {c : κ} (hok : b.ok c) (h : b.run c = none) :
    ∃ d, b.Meets c d ∧ b.stuck d := by
  induction c using b.wf.induction with
  | h c ih =>
      rcases b.stuck_or_next c hok h with hstuck | ⟨d, hnext, hrun⟩
      · exact ⟨c, .refl, hstuck⟩
      · obtain ⟨e, hmeets, hstuck⟩ := ih d hnext (b.ok_of_next c d hnext hok) hrun
        exact ⟨e, .head hnext hmeets, hstuck⟩

theorem run_of_meets {c d : κ} (hok : b.ok c) (hmeets : b.Meets c d) (hstuck : b.stuck d) :
    b.broken (b.part c) ∧ b.run c = none := by
  induction hmeets using Relation.ReflTransGen.head_induction_on with
  | refl => exact ⟨b.broken_of_stuck d hstuck, b.run_of_stuck d hstuck⟩
  | head hnext _ ih =>
      have ih := ih (b.ok_of_next _ _ hnext hok)
      exact ⟨b.broken_of_next _ _ hnext ih.1, b.run_of_next _ _ hok hnext ih.1 ih.2⟩

/-- The search has no result if and only if it may meet a configuration in which it is
stuck. -/
theorem run_eq_none_iff {c : κ} (hok : b.ok c) :
    b.run c = none ↔ ∃ d, b.Meets c d ∧ b.stuck d := by
  constructor
  · exact b.exists_stuck_of_run hok
  · rintro ⟨d, hmeets, hstuck⟩
    exact (b.run_of_meets hok hmeets hstuck).2

end Backtrack
