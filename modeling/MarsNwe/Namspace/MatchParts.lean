import MarsNwe.Namspace.MatchRefines
import MarsNwe.Lib.Backtrack

/-! # Stars and ranges in the matchers of the name spaces

Which places a star tries, and where a range ends, whatever is looked for in it.
-/

namespace MarsNwe.NameSpace

/-- `t` is a place in `s` at which a star tries the rest of the pattern. -/
def StarPlace (giveUp : UInt8 → Bool) (s t : List UInt8) : Prop :=
  t ≠ [] ∧ ∃ r, s = r ++ t ∧ ∀ c ∈ r, giveUp c = false

section

variable {rest : List UInt8 → Option Bool} {giveUp : UInt8 → Bool}

theorem StarPlace.cons {c : UInt8} {s t : List UInt8} (hc : giveUp c = false)
    (h : StarPlace giveUp s t) : StarPlace giveUp (c :: s) t := by
  obtain ⟨hne, r, rfl, hr⟩ := h
  exact ⟨hne, c :: r, rfl, by simpa [hc] using hr⟩

theorem StarPlace.suffix {s t : List UInt8} (h : StarPlace giveUp s t) : t <:+ s := by
  obtain ⟨-, r, rfl, -⟩ := h
  exact List.suffix_append r t

theorem exists_of_starLoop_true {s : List UInt8} (h : starLoop rest giveUp s = some (some true)) :
    ∃ t, t <:+ s ∧ rest t = some true := by
  induction s with
  | nil => cases h
  | cons c s ih =>
      rw [starLoop] at h
      split at h
      · cases h
      next htrue => exact ⟨_, List.suffix_rfl, htrue⟩
      · split at h
        · cases h
        · obtain ⟨t, ht, htrue⟩ := ih h
          exact ⟨t, ht.trans (List.suffix_cons c s), htrue⟩

theorem exists_of_starLoop_none {s : List UInt8} (h : starLoop rest giveUp s = none) :
    ∃ t, StarPlace giveUp s t ∧ rest t = none := by
  induction s with
  | nil => cases h
  | cons c s ih =>
      rw [starLoop] at h
      split at h
      next hnone => exact ⟨c :: s, ⟨List.cons_ne_nil c s, [], rfl, by simp⟩, hnone⟩
      · cases h
      · split at h
        · cases h
        next hgive =>
          obtain ⟨t, hplace, hnone⟩ := ih h
          exact ⟨t, hplace.cons (Bool.eq_false_iff.mpr hgive), hnone⟩

theorem starLoop_eq_none {s t : List UInt8} (hplace : StarPlace giveUp s t)
    (hnone : rest t = none) (hnever : ∀ u, u <:+ s → rest u ≠ some true) :
    starLoop rest giveUp s = none := by
  obtain ⟨hne, r, rfl, hr⟩ := hplace
  induction r with
  | nil =>
      cases t with
      | nil => contradiction
      | cons c t => rw [List.nil_append, starLoop, hnone]
  | cons c r ih =>
      have hr := List.forall_mem_cons.mp hr
      rw [List.cons_append, starLoop]
      split
      · rfl
      next htrue => exact absurd htrue (hnever _ List.suffix_rfl)
      · rw [if_neg (by simp [hr.1])]
        exact ih hr.2 fun u hu => hnever u (hu.trans (List.suffix_cons c _))

/-- The loop of a star passes over the whole name. -/
theorem forall_of_starLoop_end {s : List UInt8} (h : starLoop rest giveUp s = some none) :
    ∀ c ∈ s, giveUp c = false := by
  induction s with
  | nil => simp
  | cons c s ih =>
      rw [starLoop] at h
      split at h
      · cases h
      · cases h
      · split at h
        · cases h
        next hgive => exact List.forall_mem_cons.mpr ⟨Bool.eq_false_iff.mpr hgive, ih h⟩

theorem starLoop_of_forall {s : List UInt8} (h : ∀ c ∈ s, giveUp c = false)
    (hnever : ∀ u, u <:+ s → rest u ≠ some true) :
    starLoop rest giveUp s = none ∨ starLoop rest giveUp s = some none := by
  induction s with
  | nil => exact .inr rfl
  | cons c s ih =>
      have h := List.forall_mem_cons.mp h
      rw [starLoop]
      split
      · exact .inl rfl
      next htrue => exact absurd htrue (hnever _ List.suffix_rfl)
      · rw [if_neg (by simp [h.1])]
        exact ih h.2 fun u hu => hnever u (hu.trans (List.suffix_cons c s))

end

/-- What is left of a pattern behind a range. -/
def RangeEnd.left : RangeEnd → Option (Option (List UInt8))
  | .unclosed => some none
  | .behind => none
  | .closed _ rest => some (some rest)

/-- On pointers, where the rounds are counted. -/
theorem left_rangeLoopAt (sc sc' : UInt8) (no no' : Bool) (rounds pc : Nat) (p : CPtr)
    (found found' : Bool) :
    (rangeLoopAt sc no rounds pc p found).map (Option.map Prod.snd) =
      (rangeLoopAt sc' no' rounds pc p found').map (Option.map Prod.snd) := by
  induction rounds generalizing pc p found found' with
  | zero => rfl
  | succ rounds ih =>
      rw [rangeLoopAt, rangeLoopAt]
      rcases escapedAt pc p with _ | ⟨anf, q⟩
      · rfl
      simp only [Option.bind_eq_bind, Option.bind_some]
      by_cases hanf : anf = 0
      · rw [if_pos hanf, if_pos hanf]
      rw [if_neg hanf, if_neg hanf]
      rcases rangeEndeAt anf q with _ | ⟨ende, r⟩
      · rfl
      simp only [Option.bind_some]
      rcases CPtr.read r with _ | c
      · rfl
      simp only [Option.bind_some]
      by_cases hc : c = 0x5d
      · rw [if_pos hc, if_pos hc]
        rfl
      · rw [if_neg hc, if_neg hc]
        exact ih _ _ _ _

theorem map_toCode (e : RangeEnd) :
    e.toCode.map (Option.map Prod.snd) = e.left.map (Option.map CPtr.ofText) := by
  cases e <;> rfl

/-- Where a range ends does not depend on the character that is looked for. -/
theorem left_rangeLoop (sc sc' : UInt8) (no no' : Bool) (pc : Nat) (p : List UInt8)
    (found found' : Bool) :
    (rangeLoop sc no pc p found).left = (rangeLoop sc' no' pc p found').left := by
  have h := left_rangeLoopAt sc sc' no no' (p.length + 2) pc (CPtr.ofText p) found found'
  rw [rangeLoopAt_ofText sc no pc p found _ (by omega),
    rangeLoopAt_ofText sc' no' pc p found' _ (by omega), map_toCode, map_toCode] at h
  exact Option.map_injective (Option.map_injective CPtr.ofText_injective) h

theorem suffix_cons_of {p q : List UInt8} (c : UInt8) (h : q <:+ p) :
    q <:+ c :: p ∧ q.length < (c :: p).length :=
  ⟨h.trans (List.suffix_cons c p), Nat.lt_succ_of_le h.length_le⟩

end MarsNwe.NameSpace
