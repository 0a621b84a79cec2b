/-! # Words as sets of bits

A word stands for the set of its bits, with `|||` for the union and `&&&` for the
intersection.
-/

namespace WordSet

/-- A bit is in a word. -/
def Has (w : UInt16) (i : Nat) : Prop := w.toBitVec.getLsbD i = true

instance (w : UInt16) (i : Nat) : Decidable (Has w i) := inferInstanceAs (Decidable (_ = true))

/-- All bits of a word are in another one. -/
def Within (v w : UInt16) : Prop := v &&& w = v

instance (v w : UInt16) : Decidable (Within v w) := inferInstanceAs (Decidable (_ = _))

@[simp] theorem has_or (v w : UInt16) (i : Nat) : Has (v ||| w) i ↔ Has v i ∨ Has w i := by
  unfold Has
  rw [UInt16.toBitVec_or, BitVec.getLsbD_or, Bool.or_eq_true]

@[simp] theorem has_and (v w : UInt16) (i : Nat) : Has (v &&& w) i ↔ Has v i ∧ Has w i := by
  unfold Has
  rw [UInt16.toBitVec_and, BitVec.getLsbD_and, Bool.and_eq_true]

@[simp] theorem not_has_zero (i : Nat) : ¬Has 0 i := by
  unfold Has
  rw [UInt16.toBitVec_zero, BitVec.getLsbD_zero]
  exact Bool.false_ne_true

theorem ext {v w : UInt16} (h : ∀ i, Has v i ↔ Has w i) : v = w := by
  apply UInt16.eq_of_toBitVec_eq
  apply BitVec.eq_of_getLsbD_eq
  intro i _
  exact Bool.eq_iff_iff.mpr (h i)

theorem within_iff {v w : UInt16} : Within v w ↔ ∀ i, Has v i → Has w i := by
  constructor
  · intro h i hi
    rw [← h, has_and] at hi
    exact hi.2
  · intro h
    exact ext fun i => by
      rw [has_and]
      exact ⟨And.left, fun hi => ⟨hi, h i hi⟩⟩

theorem or_and_eq_zero (a b c : UInt8) :
    (a ||| b) &&& c = 0 ↔ a &&& c = 0 ∧ b &&& c = 0 := by
  have hdistrib : (a ||| b) &&& c = (a &&& c) ||| (b &&& c) :=
    UInt8.eq_of_toBitVec_eq BitVec.and_or_distrib_right
  rw [hdistrib, UInt8.or_eq_zero_iff]

end WordSet
