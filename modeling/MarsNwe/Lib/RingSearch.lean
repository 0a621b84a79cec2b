import Mathlib.Tactic.SplitIfs
import Mathlib.Order.Basic

/-! # A search around a ring

The numbers `1`, …, `n` are tried in turn, `1` following on `n`, from the one
behind the number tried last until one is free or the search is back at the
number it stops at. That number itself is never tried.
-/

namespace RingSearch

/-- The number tried after `i`. -/
def next (n i : Nat) : Nat := if n < i + 1 then 1 else i + 1

/-- How many steps it takes to get from `last` to `stop`. -/
def steps (n stop last : Nat) : Nat := if last < stop then stop - last else n + stop - last

theorem next_mem {n stop : Nat} (hstop : 1 ≤ stop ∧ stop ≤ n) (i : Nat) :
    1 ≤ next n i ∧ next n i ≤ n := by
  unfold next
  split <;> omega

theorem steps_next {n stop last : Nat} (hstop : 1 ≤ stop ∧ stop ≤ n) (hlast : last ≤ n)
    (hne : next n last ≠ stop) : steps n stop (next n last) + 1 = steps n stop last := by
  unfold next at hne ⊢
  unfold steps
  split_ifs at hne ⊢ <;> omega

theorem steps_next_stop {n stop last : Nat} (hstop : 1 ≤ stop ∧ stop ≤ n) (hlast : last ≤ n)
    (heq : next n last = stop) : steps n stop last = 1 := by
  unfold next at heq
  unfold steps
  split_ifs at heq ⊢ <;> omega

theorem steps_pos {n stop last : Nat} (hstop : 1 ≤ stop) (hlast : last ≤ n) :
    0 < steps n stop last := by
  unfold steps
  split <;> omega

theorem steps_inj {n stop i j : Nat} (hi : 1 ≤ i ∧ i ≤ n) (hj : 1 ≤ j ∧ j ≤ n)
    (h : steps n stop i = steps n stop j) : i = j := by
  unfold steps at h
  split_ifs at h <;> omega

/-- The first number behind `last` that is not used, before `stop` is reached. -/
def search (n : Nat) (used : Nat → Bool) (stop last : Nat) (hstop : 1 ≤ stop ∧ stop ≤ n)
    (_hlast : last ≤ n) : Option { i : Nat // 1 ≤ i ∧ i ≤ n } :=
  if _hne : next n last = stop then none
  else if used (next n last) then
    search n used stop (next n last) hstop (next_mem hstop last).2
  else some ⟨next n last, next_mem hstop last⟩
termination_by steps n stop last
decreasing_by
  have hstep := steps_next hstop _hlast _hne
  omega

variable {n stop last : Nat} {used : Nat → Bool} {hstop : 1 ≤ stop ∧ stop ≤ n}
  {hlast : last ≤ n}

theorem search_eq_some {i : { i : Nat // 1 ≤ i ∧ i ≤ n }}
    (h : search n used stop last hstop hlast = some i) : i.val ≠ stop ∧ used i = false := by
  fun_induction search with
  | case1 => contradiction
  | case2 _ _ _ _ ih => exact ih h
  | case3 last _ hne hused =>
      obtain rfl := Option.some.inj h
      exact ⟨hne, Bool.eq_false_iff.mpr hused⟩

/-- Only when all numbers on the way to `stop` are used does the search end there. -/
theorem search_eq_none :
    search n used stop last hstop hlast = none ↔
      ∀ j, 1 ≤ j → j ≤ n → steps n stop j < steps n stop last → used j = true := by
  fun_induction search with
  | case1 last hlast heq =>
      refine ⟨fun _ j _ hle hsteps => ?_, fun _ => rfl⟩
      have hone := steps_next_stop hstop hlast heq
      have hpos : 0 < steps n stop j := steps_pos hstop.1 hle
      omega
  | case2 last hlast hne hused ih =>
      have hstep := steps_next hstop hlast hne
      have hnext := next_mem hstop last
      rw [ih]
      constructor
      · intro h j hpos hle hsteps
        by_cases heq : steps n stop j = steps n stop (next n last)
        · rw [steps_inj ⟨hpos, hle⟩ hnext heq]
          exact hused
        · exact h j hpos hle (by omega)
      · exact fun h j hpos hle hsteps => h j hpos hle (by omega)
  | case3 last hlast hne hused =>
      have hstep := steps_next hstop hlast hne
      refine ⟨fun h => (nomatch h), fun h => ?_⟩
      have hnext := next_mem hstop last
      exact absurd (h _ hnext.1 hnext.2 (by omega)) hused

/-- A search that starts where it stops tries all other numbers. -/
theorem search_stop_eq_none :
    search n used stop stop hstop hstop.2 = none ↔
      ∀ j, 1 ≤ j → j ≤ n → j ≠ stop → used j = true := by
  rw [search_eq_none]
  refine forall₃_congr fun j hpos hle => imp_congr_left ?_
  have hbounds := hstop
  unfold steps
  split_ifs <;> omega

/-- The number behind `last` is found when it is free and is not the last to be tried. -/
theorem search_next (hne : next n last ≠ stop) (hfree : used (next n last) = false) :
    search n used stop last hstop hlast = some ⟨next n last, next_mem hstop last⟩ := by
  rw [search, dif_neg hne, if_neg (by simp [hfree])]

/-! ## The numbers in the order they are tried -/

/-- The numbers from behind `last` round to before `stop`. -/
def path (n stop last : Nat) : List Nat :=
  if last < stop then List.range' (last + 1) (stop - last - 1)
  else List.range' (last + 1) (n - last) ++ List.range' 1 (stop - 1)

theorem path_of_next_eq (hstop : 1 ≤ stop ∧ stop ≤ n) (hlast : last ≤ n)
    (heq : next n last = stop) : path n stop last = [] := by
  unfold next at heq
  unfold path
  by_cases hlt : last < stop
  · rw [if_neg (by omega)] at heq
    rw [if_pos hlt, show stop - last - 1 = 0 by omega]
    rfl
  · have htop : n < last + 1 := by
      split at heq <;> omega
    rw [if_pos htop] at heq
    rw [if_neg hlt, show n - last = 0 by omega, show stop - 1 = 0 by omega]
    rfl

theorem path_of_next_ne (hstop : 1 ≤ stop ∧ stop ≤ n) (hlast : last ≤ n)
    (hne : next n last ≠ stop) :
    path n stop last = next n last :: path n stop (next n last) := by
  unfold next at hne ⊢
  unfold path
  by_cases htop : n < last + 1
  · -- the path goes on with 1
    rw [if_pos htop] at hne ⊢
    rw [if_neg (by omega), if_pos (by omega), show n - last = 0 by omega,
      show stop - 1 = stop - 1 - 1 + 1 by omega, List.range'_succ]
    rfl
  · rw [if_neg htop] at hne ⊢
    by_cases hlt : last < stop
    · rw [if_pos hlt, if_pos (by omega), show stop - last - 1 = stop - (last + 1) - 1 + 1 by omega,
        List.range'_succ]
    · rw [if_neg hlt, if_neg (by omega), show n - last = n - (last + 1) + 1 by omega,
        List.range'_succ]
      rfl

/-- The search finds the first number on its path that is not used. -/
theorem search_eq_find :
    (search n used stop last hstop hlast).map Subtype.val =
      (path n stop last).find? fun i => !used i := by
  fun_induction search with
  | case1 last hlast heq =>
      rw [path_of_next_eq hstop hlast heq]
      rfl
  | case2 last hlast hne hused ih =>
      rw [path_of_next_ne hstop hlast hne, List.find?_cons, hused]
      exact ih
  | case3 last hlast hne hused =>
      rw [path_of_next_ne hstop hlast hne, List.find?_cons, Bool.eq_false_iff.mpr hused]
      rfl

end RingSearch
