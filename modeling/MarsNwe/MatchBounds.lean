import MarsNwe.Connect.MatchReads
import MarsNwe.Namspace.FnMatchBounds
import MarsNwe.Namspace.XStrBounds
import MarsNwe.Namspace.Os2Bounds
import MarsNwe.Tools

/-! # When the file name matchers stay inside their strings

The five matchers on terminated names and patterns. Two of them never leave their strings;
`fn_dos_match` may leave its copy of the pattern, and the matchers of the other name spaces
leave a pattern that is broken at its end when they come to the break.
-/

namespace MarsNwe

open CPtr NameSpace

/-- `dfn_imatch` without a conversion table. -/
def downImatch (a b : UInt8) : Bool := a == b || downChar a == downChar b

/-- It takes no byte for a terminator. -/
theorem downImatch_zero (c : UInt8) (h : downImatch 0 c = true) : c = 0 := by
  rcases Bool.or_eq_true _ _ ▸ h with heq | heq
  · exact (eq_of_beq heq).symm
  · exact downChar_eq_zero c (eq_of_beq heq).symm

theorem isSome_iff_not_stuck {κ π : Type} (b : Backtrack κ π) (c : κ) (hok : b.ok c) :
    (b.run c).isSome ↔ ¬ ∃ d, b.Meets c d ∧ b.stuck d := by
  rw [← b.run_eq_none_iff hok, Option.isSome_iff_ne_none]

/-- `fn_dos_match` writes behind its buffer if and only if too many bytes of the pattern are
not 0xff. -/
theorem isSome_fnDosMatchAt (options : VolOptions) {imatch : UInt8 → UInt8 → Bool}
    (himatch : ∀ c, imatch 0 c = true → c = 0) {s p : List UInt8} (hs : 0 ∉ s) (hp : 0 ∉ p) :
    (fnDosMatchAt imatch options (ofText s) (ofText p)).isSome ↔
      (p.filter (· ≠ 0xff)).length < patternRoom := by
  rw [fnDosMatchAt_ofText himatch id options hs hp]
  split
  next h => exact iff_of_true rfl h
  next h => exact iff_of_false Bool.false_ne_true h

/-- On every name and every pattern without a terminator inside, `x_str_match` of connect.c
stays inside its strings; `fn_dos_match` stays inside its buffer if and only if fewer than
200 bytes of the pattern are not 0xff; and the matchers of the name spaces stay inside their
strings if and only if no way of laying the pattern along the name comes to a break. -/
theorem matchers_inside_iff (options : VolOptions) {imatch : UInt8 → UInt8 → Bool}
    (himatch : ∀ c, imatch 0 c = true → c = 0) {s p : List UInt8} (hs : 0 ∉ s) (hp : 0 ∉ p) :
    (MarsNwe.xStrMatchAt imatch options (ofText p) (ofText s)).isSome ∧
    ((fnDosMatchAt imatch options (ofText s) (ofText p)).isSome ↔
      (p.filter (· ≠ 0xff)).length < patternRoom) ∧
    ((NameSpace.xStrMatchAt options.igncase imatch (ofText s) (ofText p)).isSome ↔
      ¬ ∃ d, Relation.ReflTransGen (XTakes options.igncase imatch) (p, s, .plain) d ∧
        XBreaks d) ∧
    ((namespaceFnMatchAt (ofText s) (ofText p)).isSome ↔
      ¬ ∃ d, Relation.ReflTransGen NsTakes (p, s) d ∧ NsBreaks d) ∧
    ((fnOs2MatchAt options imatch (ofText s) (ofText p)).isSome ↔
      ¬ ∃ d, Relation.ReflTransGen (Os2Takes options imatch) (p, s) d ∧
        Os2Breaks options d) := by
  refine ⟨?_, isSome_fnDosMatchAt options himatch hs hp, ?_, ?_, ?_⟩
  · rw [MarsNwe.xStrMatchAt_ofText himatch id options hp hs]
    rfl
  · rw [NameSpace.xStrMatchAt_ofText options.igncase himatch hs hp]
    exact isSome_iff_not_stuck (xSearch options.igncase himatch) (p, s, .plain) ⟨hp, hs⟩
  · rw [namespaceFnMatchAt_ofText hs hp]
    exact isSome_iff_not_stuck nsSearch (p, s) ⟨hp, hs⟩
  · rw [fnOs2MatchAt_ofText options himatch hs hp]
    exact isSome_iff_not_stuck (os2Search options himatch) (p, s) ⟨hp, hs⟩

/-- A volume that ignores the case of names. -/
def igncaseVolume : VolOptions := ⟨false, false, false, true⟩

/-- The name `a` and the pattern `a*`. -/
theorem matchers_inside_iff_star :
    (fnDosMatchAt downImatch igncaseVolume (ofText [0x61]) (ofText [0x61, 0x2a])).isSome ∧
    ¬ ∃ d, Relation.ReflTransGen NsTakes ([0x61, 0x2a], [0x61]) d ∧ NsBreaks d := by
  have h := matchers_inside_iff igncaseVolume downImatch_zero
    (by decide : (0 : UInt8) ∉ [0x61]) (by decide : (0 : UInt8) ∉ [0x61, 0x2a])
  exact ⟨h.2.1.mpr (by decide), h.2.2.2.1.mp (by decide)⟩

/-- The pattern of an `a` and an escape makes `x_str_match` read behind the name `a` and
behind the pattern. -/
theorem matchers_leave_strings :
    ¬ ∀ (options : VolOptions) (s p : List UInt8), 0 ∉ s → 0 ∉ p → p.length ≤ 255 →
      (MarsNwe.xStrMatchAt downImatch options (ofText p) (ofText s)).isSome ∧
      (fnDosMatchAt downImatch options (ofText s) (ofText p)).isSome ∧
      (NameSpace.xStrMatchAt options.igncase downImatch (ofText s) (ofText p)).isSome ∧
      (namespaceFnMatchAt (ofText s) (ofText p)).isSome ∧
      (fnOs2MatchAt options downImatch (ofText s) (ofText p)).isSome := by
  intro h
  have h := (h igncaseVolume [0x61] [0x61, 0x5c] (by decide) (by decide) (by decide)).2.2.1
  revert h
  decide

end MarsNwe
