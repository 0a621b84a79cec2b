import MarsNwe.Lib.Glob
import MarsNwe.Tools

/-! # The language of a name pattern

`name_match` compared with the declarative meaning of `?` and `*`.
-/

namespace MarsNwe

open Glob

/-- What a byte of a pattern stands for. -/
def patternTok (pc : UInt8) : Tok UInt8 :=
  if pc = chr '?' then .any else if pc = chr '*' then .many else .lit pc

/-- The names a pattern describes. -/
def patternLang (p : List UInt8) : Language UInt8 := lang (p.map patternTok)

/-- `s` is matched by what stands before two stars at the end of `p`, and no
shorter beginning of `s` is. -/
def LeastBeforeStars (p s : List UInt8) : Prop :=
  ∃ r, p = r ++ [chr '*', chr '*'] ∧ s ∈ patternLang r ∧
    ∀ t, t <+: s → t ∈ patternLang r → t = s

@[simp]
theorem patternTok_query : patternTok (chr '?') = .any := rfl

@[simp]
theorem patternTok_star : patternTok (chr '*') = .many := rfl

theorem patternTok_other {pc : UInt8} (hquery : pc ≠ chr '?') (hstar : pc ≠ chr '*') :
    patternTok pc = .lit pc := by
  rw [patternTok, if_neg hquery, if_neg hstar]

theorem patternTok_eq_many {pc : UInt8} : patternTok pc = .many ↔ pc = chr '*' := by
  constructor
  · intro h
    by_contra hstar
    by_cases hquery : pc = chr '?'
    · subst hquery
      cases h
    · rw [patternTok_other hquery hstar] at h
      cases h
  · rintro rfl
    rfl

/-- A pattern describes itself, read as a name. -/
theorem self_mem_patternLang (p : List UInt8) : p ∈ patternLang p := by
  induction p with
  | nil => rfl
  | cons pc p ih =>
      by_cases hquery : pc = chr '?'
      · subst hquery
        exact (cons_mem_lang_any _ _ p).mpr ih
      · by_cases hstar : pc = chr '*'
        · subst hstar
          exact mem_lang_many.mpr ⟨p, List.suffix_cons _ p, ih⟩
        · rw [patternLang, List.map_cons, patternTok_other hquery hstar]
          exact (cons_mem_lang_lit _ _ _ p).mpr ⟨rfl, ih⟩

/-- The star gives the rest of the pattern non-empty remainders only. This
loses nothing unless the rest matches the empty name. -/
theorem any_tails_nonempty {m : List UInt8 → Bool} {L : Language UInt8}
    (hm : ∀ t, m t = true ↔ t ∈ L) (hnil : [] ∉ L) (s : List UInt8) :
    (s.tails.any fun t => !t.isEmpty && m t) = true ↔ ∃ t, t <:+ s ∧ t ∈ L := by
  simp only [List.any_eq_true, List.mem_tails, Bool.and_eq_true, Bool.not_eq_true',
    List.isEmpty_eq_false_iff, hm]
  constructor
  · rintro ⟨t, ht, -, hmem⟩
    exact ⟨t, ht, hmem⟩
  · rintro ⟨t, ht, hmem⟩
    exact ⟨t, ht, fun heq => hnil (heq ▸ hmem), hmem⟩

theorem nameMatch_star_cons (p s : List UInt8)
    (ih : ∀ s, nameMatch p s = true ↔ s ∈ lang (strict (p.map patternTok))) :
    nameMatch (chr '*' :: p) s = true ↔
      s ∈ lang (strict ((chr '*' :: p).map patternTok)) := by
  have hne : chr '*' ≠ chr '?' := by decide
  simp only [nameMatch, if_neg hne, if_true, List.map_cons, patternTok_star]
  cases p with
  | nil => simp [strict]
  | cons pc p =>
      rw [List.isEmpty_cons, Bool.false_or]
      by_cases hstar : (pc :: p).map patternTok = [.many]
      · -- two stars: the second one is tried on non-empty remainders only
        obtain ⟨hpc, hp⟩ := List.cons.inj hstar
        obtain rfl := patternTok_eq_many.mp hpc
        obtain rfl := List.map_eq_nil_iff.mp hp
        cases s with
        | nil => simp [strict]
        | cons c s =>
            simp only [hstar, strict, cons_mem_lang_any, mem_lang_star, iff_true]
            simp [nameMatch_star]
      · rw [strict, mem_lang_many]
        · refine any_tails_nonempty ih ?_ s
          intro hnil
          rcases nil_mem_lang_strict _ hnil with hempty | hone
          · cases hempty
          · exact hstar hone
        · intro _ hone
          exact hstar hone

/-- `name_match` decides the language of the strict pattern. -/
theorem nameMatch_eq_strict (p s : List UInt8) :
    nameMatch p s = true ↔ s ∈ lang (strict (p.map patternTok)) := by
  induction p generalizing s with
  | nil => simp [nameMatch, strict]
  | cons pc p ih =>
      by_cases hquery : pc = chr '?'
      · subst hquery
        cases s with
        | nil => simp [nameMatch, strict]
        | cons c s => simpa [nameMatch, strict] using ih s
      · by_cases hstar : pc = chr '*'
        · subst hstar
          exact nameMatch_star_cons p s ih
        · rw [List.map_cons, patternTok_other hquery hstar, strict]
          · cases s with
            | nil => simp [nameMatch, hquery, hstar]
            | cons c s => simp [nameMatch, hquery, hstar, ih]
          · intro h
            cases h

theorem leastBeforeStars_iff (p s : List UInt8) :
    LeastBeforeStars p s ↔ ∃ r, p.map patternTok = r ++ [.many, .many] ∧ s ∈ lang r ∧
      ∀ t, t <+: s → t ∈ lang r → t = s := by
  constructor
  · rintro ⟨r, rfl, hs, hleast⟩
    exact ⟨r.map patternTok, by simp, hs, hleast⟩
  · rintro ⟨r, heq, hs, hleast⟩
    obtain ⟨q, e, rfl, rfl, he⟩ := List.map_eq_append_iff.mp heq
    refine ⟨q, congrArg _ ?_, hs, hleast⟩
    obtain ⟨c, e', rfl, hc, he'⟩ := List.map_eq_cons_iff.mp he
    obtain ⟨d, e'', rfl, hd, hnil⟩ := List.map_eq_cons_iff.mp he'
    rw [patternTok_eq_many.mp hc, patternTok_eq_many.mp hd, List.map_eq_nil_iff.mp hnil]

/-- The matcher agrees with the language of the pattern unless the pattern ends
in two stars that would have to stand for nothing. -/
theorem nameMatch_iff_patternLang (p s : List UInt8) :
    (nameMatch p s = true ↔ s ∈ patternLang p) ↔ ¬ LeastBeforeStars p s := by
  rw [nameMatch_eq_strict, leastBeforeStars_iff]
  exact mem_lang_strict_iff (p.map patternTok) s

/-- A name, taken as a pattern, is matched by itself. -/
theorem nameMatch_self (p : List UInt8) : nameMatch p p = true := by
  refine ((nameMatch_iff_patternLang p p).mpr ?_).mpr (self_mem_patternLang p)
  rintro ⟨r, heq, -, hleast⟩
  have hr : r = p := hleast r ⟨_, heq.symm⟩ (self_mem_patternLang r)
  simpa [hr] using congrArg List.length heq

/-- `a**` describes the name `a`, which the matcher refuses. -/
theorem nameMatch_ne_patternLang :
    ¬ ∀ p s : List UInt8, nameMatch p s = true ↔ s ∈ patternLang p := by
  intro h
  have hmem : [chr 'a'] ∈ patternLang [chr 'a', chr '*', chr '*'] :=
    (mem_lang_append_many_many (p := [.lit (chr 'a')])).mpr
      ⟨[chr 'a'], List.prefix_rfl, (cons_mem_lang_lit _ _ _ _).mpr ⟨rfl, rfl⟩⟩
  have hmatch := (h _ _).mpr hmem
  revert hmatch
  decide

end MarsNwe
