import Mathlib.Data.List.Induction
import Mathlib.Data.List.Nodup
import Mathlib.Tactic.Ring

/-! # Packing a list into blocks

A list cut into blocks of a fixed size, of which only the last one may be
partly filled. Joining the blocks gives the list back, and appending to the
list leaves the full blocks alone.
-/

namespace Packing

variable {α : Type}

/-- The block with the index `i` of a list cut into blocks of `c` elements. -/
def block (c : Nat) (l : List α) (i : Nat) : List α := (l.drop (c * i)).take c

/-- The number of blocks that hold an element. -/
def blockCount (c : Nat) (l : List α) : Nat := (l.length + (c - 1)) / c

theorem length_block_le (c : Nat) (l : List α) (i : Nat) : (block c l i).length ≤ c :=
  List.length_take_le _ _

/-- Appending changes no block that is full already. -/
theorem block_append {c : Nat} {l : List α} {i : Nat} (hfull : c * (i + 1) ≤ l.length)
    (m : List α) : block c (l ++ m) i = block c l i := by
  have hlen : c * (i + 1) = c * i + c := by ring
  rw [block, block, List.drop_append_of_le_length (by omega),
    List.take_append_of_le_length (by rw [List.length_drop]; omega)]

/-- The first blocks, joined again. -/
theorem flatMap_block (c : Nat) (l : List α) (n : Nat) :
    (List.range n).flatMap (block c l) = l.take (c * n) := by
  induction n with
  | zero => simp
  | succ n ih =>
      have hlen : c * (n + 1) = c * n + c := by ring
      rw [List.range_succ, List.flatMap_append, ih, List.flatMap_singleton, block, hlen,
        List.take_add]

theorem block_eq_nil {c : Nat} {l : List α} {i : Nat} (h : l.length ≤ c * i) :
    block c l i = [] := by
  rw [block, List.drop_eq_nil_of_le h, List.take_nil]

theorem lt_blockCount {c : Nat} (hc : 0 < c) {l : List α} {i : Nat} :
    i < blockCount c l ↔ c * i < l.length := by
  rw [blockCount, Nat.lt_iff_add_one_le, Nat.le_div_iff_mul_le hc, Nat.add_mul, Nat.mul_comm c i]
  omega

/-! ## First occurrences -/

section

variable [BEq α] [LawfulBEq α]

/-- A new element at the end is kept unless it has occurred before. -/
theorem eraseDups_concat (l : List α) (a : α) :
    (l ++ [a]).eraseDups = if a ∈ l then l.eraseDups else l.eraseDups ++ [a] := by
  rw [List.eraseDups_append]
  split
  next hmem =>
    have hremoved : [a].removeAll l = [] := by simp [List.removeAll, hmem]
    rw [hremoved, List.eraseDups_nil, List.append_nil]
  next hmem =>
    have hkept : [a].removeAll l = [a] := by simp [List.removeAll, hmem]
    rw [hkept]
    rfl

theorem nodup_eraseDups (l : List α) : l.eraseDups.Nodup := by
  induction l using List.reverseRecOn with
  | nil => exact List.nodup_nil
  | append_singleton l a ih =>
      rw [eraseDups_concat]
      split
      next => exact ih
      next hmem =>
        refine List.nodup_append.mpr ⟨ih, List.nodup_singleton a, ?_⟩
        intro x hx y hy heq
        rw [List.mem_singleton] at hy
        exact hmem (List.mem_eraseDups.mp (hy ▸ heq ▸ hx))

/-- A list without repetitions is left alone. -/
theorem eraseDups_of_nodup {l : List α} (h : l.Nodup) : l.eraseDups = l := by
  induction l using List.reverseRecOn with
  | nil => rfl
  | append_singleton l a ih =>
      obtain ⟨hl, -, hdisjoint⟩ := List.nodup_append.mp h
      rw [eraseDups_concat, if_neg fun hmem => hdisjoint a hmem a (List.mem_singleton_self a) rfl,
        ih hl]

theorem eraseDups_filter (p : α → Bool) (l : List α) :
    (l.filter p).eraseDups = l.eraseDups.filter p := by
  induction l using List.reverseRecOn with
  | nil => rfl
  | append_singleton l a ih =>
      rw [List.filter_append, eraseDups_concat]
      by_cases hp : p a = true
      · rw [List.filter_cons_of_pos hp, List.filter_nil, eraseDups_concat, ih]
        by_cases hmem : a ∈ l
        · rw [if_pos hmem, if_pos (List.mem_filter.mpr ⟨hmem, hp⟩)]
        · rw [if_neg hmem, if_neg fun h => hmem (List.mem_of_mem_filter h), List.filter_append,
            List.filter_cons_of_pos hp, List.filter_nil]
      · rw [List.filter_cons_of_neg hp, List.filter_nil, List.append_nil, ih]
        split
        next => rfl
        next => rw [List.filter_append, List.filter_cons_of_neg hp, List.filter_nil, List.append_nil]

/-- A list in front changes nothing when its elements occur first anyway. -/
theorem eraseDups_append_eq_iff (l m : List α) :
    (l ++ m).eraseDups = m.eraseDups ↔ l.eraseDups <+: m.eraseDups := by
  rw [List.eraseDups_append, List.removeAll, eraseDups_filter]
  constructor
  · intro heq
    exact ⟨_, heq⟩
  · rintro ⟨rest, hrest⟩
    have hnodup := nodup_eraseDups m
    rw [← hrest] at hnodup ⊢
    obtain ⟨-, -, hdisjoint⟩ := List.nodup_append.mp hnodup
    have hgone : (l.eraseDups.filter fun a => !l.elem a) = [] := by
      rw [List.filter_eq_nil_iff]
      intro a ha
      simp [List.mem_eraseDups.mp ha]
    have hkept : (rest.filter fun a => !l.elem a) = rest := by
      rw [List.filter_eq_self]
      intro a ha
      have hnot : a ∉ l := fun hmem => hdisjoint a (List.mem_eraseDups.mpr hmem) a ha rfl
      simp [hnot]
    rw [List.filter_append, hgone, hkept, List.nil_append]

theorem length_eraseDups_le (l : List α) : l.eraseDups.length ≤ l.length := by
  induction l using List.reverseRecOn with
  | nil => exact Nat.le_refl 0
  | append_singleton l a ih =>
      rw [eraseDups_concat]
      split <;> simp only [List.length_append, List.length_singleton] <;> omega

end

end Packing
