import Mathlib.Computability.Language
import Mathlib.Data.List.Infix

/-! # Languages of wildcard patterns

A pattern is a list of tokens. Its language is the product of the languages of
its tokens.
-/

namespace Glob

variable {α : Type*}

/-- A token of a pattern: any one letter, any word, or one letter itself. -/
inductive Tok (α : Type*) where
  | any
  | many
  | lit (a : α)
  deriving DecidableEq

/-- The words a token stands for. -/
def Tok.lang : Tok α → Language α
  | any => {s | ∃ a, s = [a]}
  | many => {_s | True}
  | lit a => {[a]}

/-- The language of a pattern. -/
def lang (p : List (Tok α)) : Language α :=
  (p.map Tok.lang).prod

theorem lang_cons (t : Tok α) (p : List (Tok α)) : lang (t :: p) = t.lang * lang p := by
  simp only [lang, List.map_cons, List.prod_cons]

theorem lang_append (p q : List (Tok α)) : lang (p ++ q) = lang p * lang q := by
  simp only [lang, List.map_append, List.prod_append]

@[simp]
theorem mem_lang_nil (s : List α) : s ∈ lang ([] : List (Tok α)) ↔ s = [] := Iff.rfl

theorem mem_lang_append {p q : List (Tok α)} {s : List α} :
    s ∈ lang (p ++ q) ↔ ∃ u ∈ lang p, ∃ v ∈ lang q, u ++ v = s := by
  rw [lang_append, Language.mem_mul]

@[simp]
theorem nil_mem_lang_lit (a : α) (p : List (Tok α)) : [] ∉ lang (.lit a :: p) := by
  rw [lang_cons, Language.mem_mul]
  rintro ⟨u, rfl, v, hv, heq⟩
  cases heq

@[simp]
theorem nil_mem_lang_any (p : List (Tok α)) : [] ∉ lang (.any :: p) := by
  rw [lang_cons, Language.mem_mul]
  rintro ⟨u, ⟨a, rfl⟩, v, hv, heq⟩
  cases heq

@[simp]
theorem cons_mem_lang_lit (a c : α) (p : List (Tok α)) (s : List α) :
    c :: s ∈ lang (.lit a :: p) ↔ a = c ∧ s ∈ lang p := by
  rw [lang_cons, Language.mem_mul]
  constructor
  · rintro ⟨u, rfl, v, hv, heq⟩
    cases heq
    exact ⟨rfl, hv⟩
  · rintro ⟨rfl, hs⟩
    exact ⟨[a], rfl, s, hs, rfl⟩

@[simp]
theorem cons_mem_lang_any (c : α) (p : List (Tok α)) (s : List α) :
    c :: s ∈ lang (.any :: p) ↔ s ∈ lang p := by
  rw [lang_cons, Language.mem_mul]
  constructor
  · rintro ⟨u, ⟨a, rfl⟩, v, hv, heq⟩
    cases heq
    exact hv
  · intro hs
    exact ⟨[c], ⟨c, rfl⟩, s, hs, rfl⟩

/-- A star passes over any beginning of the word. -/
theorem mem_lang_many {p : List (Tok α)} {s : List α} :
    s ∈ lang (.many :: p) ↔ ∃ t, t <:+ s ∧ t ∈ lang p := by
  rw [lang_cons, Language.mem_mul]
  constructor
  · rintro ⟨u, -, v, hv, rfl⟩
    exact ⟨v, List.suffix_append u v, hv⟩
  · rintro ⟨t, ⟨u, rfl⟩, ht⟩
    exact ⟨u, trivial, t, ht, rfl⟩

@[simp]
theorem mem_lang_star (s : List α) : s ∈ lang [Tok.many] :=
  mem_lang_many.mpr ⟨[], List.nil_suffix, rfl⟩

/-- A last star passes over any end of the word. -/
theorem mem_lang_append_many {p : List (Tok α)} {s : List α} :
    s ∈ lang (p ++ [.many]) ↔ ∃ t, t <+: s ∧ t ∈ lang p := by
  rw [mem_lang_append]
  constructor
  · rintro ⟨u, hu, v, -, rfl⟩
    exact ⟨u, List.prefix_append u v, hu⟩
  · rintro ⟨t, ⟨v, rfl⟩, ht⟩
    exact ⟨t, ht, v, mem_lang_star v, rfl⟩

/-! ## A second star at the end -/

/-- Two stars at the end say no more than one. -/
theorem mem_lang_append_many_many {p : List (Tok α)} {s : List α} :
    s ∈ lang (p ++ [.many, .many]) ↔ ∃ t, t <+: s ∧ t ∈ lang p := by
  rw [List.append_cons, mem_lang_append_many]
  constructor
  · rintro ⟨t, ht, hmem⟩
    obtain ⟨u, hu, hp⟩ := mem_lang_append_many.mp hmem
    exact ⟨u, hu.trans ht, hp⟩
  · rintro ⟨t, ht, hp⟩
    exact ⟨t, ht, mem_lang_append_many.mpr ⟨t, List.prefix_rfl, hp⟩⟩

/-- Matched with at least one letter left over for the end. -/
theorem mem_lang_append_any_many {p : List (Tok α)} {s : List α} :
    s ∈ lang (p ++ [.any, .many]) ↔ ∃ t, t <+: s ∧ t ≠ s ∧ t ∈ lang p := by
  rw [mem_lang_append]
  constructor
  · rintro ⟨u, hu, v, hv, rfl⟩
    refine ⟨u, List.prefix_append u v, ?_, hu⟩
    intro heq
    have hnil : v = [] := List.self_eq_append_right.mp heq
    subst hnil
    exact nil_mem_lang_any _ hv
  · rintro ⟨t, ⟨v, rfl⟩, hne, ht⟩
    refine ⟨t, ht, v, ?_, rfl⟩
    cases v with
    | nil => exact absurd (List.append_nil t).symm hne
    | cons c v => exact (cons_mem_lang_any c _ v).mpr (mem_lang_star v)

/-- The pattern with two stars at its end asking for one letter at least. -/
def strict : List (Tok α) → List (Tok α)
  | [] => []
  | [.many, .many] => [.any, .many]
  | t :: p => t :: strict p

theorem strict_append_stars (p : List (Tok α)) :
    strict (p ++ [.many, .many]) = p ++ [.any, .many] := by
  induction p with
  | nil => rfl
  | cons t p ih =>
      have hlen : p ++ [Tok.many, Tok.many] ≠ [Tok.many] := by
        intro heq
        simpa using congrArg List.length heq
      rw [List.cons_append, strict, ih, List.cons_append]
      rintro rfl heq
      exact hlen heq

/-- A pattern without two stars at its end is left as it is. -/
theorem strict_of_not_stars {p : List (Tok α)} (h : ∀ r, p ≠ r ++ [.many, .many]) :
    strict p = p := by
  induction p with
  | nil => rfl
  | cons t p ih =>
      have htail : ∀ r, p ≠ r ++ [.many, .many] := fun r heq => h (t :: r) (congrArg _ heq)
      rw [strict, ih htail]
      rintro rfl rfl
      exact h [] rfl

/-- The empty word is matched by the empty pattern and by a single star only. -/
theorem nil_mem_lang_strict (p : List (Tok α)) (hnil : [] ∈ lang (strict p)) :
    p = [] ∨ p = [.many] := by
  induction p with
  | nil => exact Or.inl rfl
  | cons t p ih =>
      cases t with
      | any => exact absurd hnil (nil_mem_lang_any _)
      | lit a => exact absurd hnil (nil_mem_lang_lit a _)
      | many =>
          by_cases hp : p = [.many]
          · subst hp
            exact absurd hnil (nil_mem_lang_any _)
          · rw [strict] at hnil
            · obtain ⟨t, ht, hmem⟩ := mem_lang_many.mp hnil
              rw [List.suffix_nil.mp ht] at hmem
              rcases ih hmem with rfl | heq
              · exact Or.inr rfl
              · exact absurd heq hp
            · intro _ heq
              exact hp heq

/-- The strict pattern loses the words that only the whole of them, and no
shorter beginning, match before the two stars. -/
theorem mem_lang_strict_iff (p : List (Tok α)) (s : List α) :
    (s ∈ lang (strict p) ↔ s ∈ lang p) ↔
      ¬ ∃ r, p = r ++ [.many, .many] ∧ s ∈ lang r ∧ ∀ t, t <+: s → t ∈ lang r → t = s := by
  by_cases hstars : ∃ r, p = r ++ [.many, .many]
  · obtain ⟨r, rfl⟩ := hstars
    rw [strict_append_stars, mem_lang_append_any_many, mem_lang_append_many_many]
    constructor
    · rintro hiff ⟨r', heq, hs, hleast⟩
      obtain rfl := List.append_cancel_right heq
      obtain ⟨t, ht, hne, hmem⟩ := hiff.mpr ⟨s, List.prefix_rfl, hs⟩
      exact hne (hleast t ht hmem)
    · intro hnot
      constructor
      · rintro ⟨t, ht, -, hmem⟩
        exact ⟨t, ht, hmem⟩
      · rintro ⟨t, ht, hmem⟩
        by_contra hnone
        have hall : ∀ u, u <+: s → u ∈ lang r → u = s := by
          intro u hu hmem
          by_contra hne
          exact hnone ⟨u, hu, hne, hmem⟩
        have hts : t = s := hall t ht hmem
        exact hnot ⟨r, rfl, hts ▸ hmem, hall⟩
  · rw [strict_of_not_stars fun r heq => hstars ⟨r, heq⟩]
    refine ⟨fun _ => ?_, fun _ => Iff.rfl⟩
    rintro ⟨r, heq, -⟩
    exact hstars ⟨r, heq⟩

end Glob
