import Mathlib.Algebra.Ring.Int.Defs
import Mathlib.Algebra.Order.BigOperators.Group.List
import Mathlib.Algebra.Order.Group.Int
import Mathlib.Data.List.DropRight

/-! # Tables with free entries

A table is a list in which some entries may be free. What is summed over the
entries changes by the entry written, and not at all when free entries are cut
off the end.
-/

namespace SlotTable

variable {α : Type}

theorem exists_split {l : List α} {k : Nat} {a : α} (h : l[k]? = some a) :
    ∃ before after, l = before ++ a :: after ∧ before.length = k := by
  obtain ⟨hlt, hget⟩ := List.getElem?_eq_some_iff.mp h
  refine ⟨l.take k, l.drop (k + 1), ?_, List.length_take_of_le hlt.le⟩
  rw [← hget, ← List.drop_eq_getElem_cons hlt, List.take_append_drop]

/-- Writing an entry changes a sum by the difference of the entries. -/
theorem sum_set {l : List α} {k : Nat} {a : α} (h : l[k]? = some a) (f : α → Int) (b : α) :
    ((l.set k b).map f).sum = (l.map f).sum - f a + f b := by
  obtain ⟨before, after, rfl, rfl⟩ := exists_split h
  rw [List.set_append_right _ _ (Nat.le_refl _), Nat.sub_self, List.set_cons_zero]
  simp only [List.map_append, List.map_cons, List.sum_append, List.sum_cons]
  omega

theorem modify_eq_set {l : List α} {k : Nat} {a : α} (h : l[k]? = some a) (g : α → α) :
    l.modify k g = l.set k (g a) := by
  apply List.ext_getElem?
  intro i
  rw [List.getElem?_modify, List.getElem?_set']
  by_cases hi : k = i
  · subst hi
    simp [h]
  · simp [hi]

/-- Cutting off entries that count nothing changes no sum. -/
theorem sum_rdropWhile {f : α → Int} {p : α → Bool} (hfree : ∀ a, p a = true → f a = 0)
    (l : List α) : ((l.rdropWhile p).map f).sum = (l.map f).sum := by
  induction l using List.reverseRecOn with
  | nil => rfl
  | append_singleton l a ih =>
      rw [List.rdropWhile_concat]
      split
      next hp =>
        rw [ih, List.map_append, List.sum_append, List.map_singleton, List.sum_singleton,
          hfree a hp, add_zero]
      next => rfl

theorem mem_of_mem_rdropWhile {p : α → Bool} {l : List α} {a : α} (h : a ∈ l.rdropWhile p) :
    a ∈ l :=
  (List.rdropWhile_prefix p l).subset h

/-- Entries that are in use stay where they are when free ones are cut off. -/
theorem join_getElem?_rdropWhile (l : List (Option α)) (i : Nat) :
    (l.rdropWhile Option.isNone)[i]?.join = l[i]?.join := by
  induction l using List.reverseRecOn with
  | nil => rfl
  | append_singleton l a ih =>
      rw [List.rdropWhile_concat]
      split
      next hfree =>
        rw [ih, List.getElem?_append]
        split
        next => rfl
        next hge =>
          rw [List.getElem?_eq_none (Nat.not_lt.mp hge)]
          cases hi : [a][i - l.length]? with
          | none => rfl
          | some b =>
              have hb : b = a := List.mem_singleton.mp (List.mem_of_getElem? hi)
              rw [hb, Option.isNone_iff_eq_none.mp hfree]
              rfl
      next => rfl

/-- A sum of natural counts is positive when one of them is. -/
theorem sum_pos_iff {f : α → Int} {l : List α} (hnonneg : ∀ a ∈ l, 0 ≤ f a) :
    0 < (l.map f).sum ↔ ∃ a ∈ l, 0 < f a := by
  induction l with
  | nil => simp
  | cons a l ih =>
      have hhead := hnonneg a List.mem_cons_self
      have htail := ih fun b hb => hnonneg b (List.mem_cons_of_mem _ hb)
      have hsum : 0 ≤ (l.map f).sum := List.sum_nonneg fun x hx => by
        obtain ⟨b, hb, rfl⟩ := List.mem_map.mp hx
        exact hnonneg b (List.mem_cons_of_mem _ hb)
      rw [List.map_cons, List.sum_cons]
      constructor
      · intro hpos
        by_cases ha : 0 < f a
        · exact ⟨a, List.mem_cons_self, ha⟩
        · obtain ⟨b, hb, hfb⟩ := htail.mp (by omega)
          exact ⟨b, List.mem_cons_of_mem _ hb, hfb⟩
      · intro ⟨b, hb, hfb⟩
        rcases List.mem_cons.mp hb with rfl | hb
        · omega
        · have hpos := htail.mpr ⟨b, hb, hfb⟩
          omega

/-! ## Lookups -/

section Lookup

variable {live : α → Bool} {l : List α}

/-- The entry of a place, if it is in use. -/
def lookup (live : α → Bool) (l : List α) (k : Nat) : Option α := l[k]?.filter live

theorem lookup_eq_some {k : Nat} {a : α} :
    lookup live l k = some a ↔ l[k]? = some a ∧ live a = true := Option.filter_eq_some_iff

theorem lookup_eq_none {k : Nat} {a : α} (h : l[k]? = some a) :
    lookup live l k = none ↔ live a = false := by
  rw [lookup, h, Option.filter_some]
  split
  next hlive => simp [hlive]
  next hfree => simpa using hfree

theorem lookup_of_length_le {k : Nat} (h : l.length ≤ k) : lookup live l k = none := by
  rw [lookup, List.getElem?_eq_none h, Option.filter_none]

theorem lookup_set {k : Nat} (h : k < l.length) (a : α) :
    lookup live (l.set k a) = Function.update (lookup live l) k ((some a).filter live) := by
  funext i
  unfold lookup
  by_cases hi : i = k
  · subst hi
    rw [Function.update_self, List.getElem?_set_self h]
  · rw [Function.update_of_ne hi, List.getElem?_set_ne (Ne.symm hi)]

theorem lookup_append (a : α) :
    lookup live (l ++ [a]) =
      Function.update (lookup live l) l.length ((some a).filter live) := by
  funext i
  unfold lookup
  rcases Nat.lt_trichotomy i l.length with hlt | rfl | hgt
  · rw [Function.update_of_ne hlt.ne, List.getElem?_append_left hlt]
  · rw [Function.update_self, List.getElem?_append_right le_rfl, Nat.sub_self,
      List.getElem?_cons_zero]
  · rw [Function.update_of_ne hgt.ne', List.getElem?_eq_none (Nat.le_of_lt hgt),
      List.getElem?_eq_none (by rw [List.length_append]; exact hgt)]

theorem lookup_rdropWhile : lookup live (l.rdropWhile fun a => !live a) = lookup live l := by
  funext i
  induction l using List.reverseRecOn with
  | nil => rfl
  | append_singleton l a ih =>
      rw [List.rdropWhile_concat]
      split
      next hfree =>
        have hnone : (some a).filter live = none := by
          rw [Option.filter_some, if_neg (by simpa using hfree)]
        rw [ih, lookup_append, hnone]
        by_cases hi : i = l.length
        · subst hi
          rw [Function.update_self, lookup_of_length_le le_rfl]
        · rw [Function.update_of_ne hi]
      next => rfl

/-- Entries at the end that are not in use may be cut off from any place on. -/
theorem lookup_take_append_rdropWhile (n : Nat) :
    lookup live (l.take n ++ (l.drop n).rdropWhile fun a => !live a) = lookup live l := by
  funext i
  have hsplit : l[i]? = (l.take n ++ l.drop n)[i]? := by rw [List.take_append_drop]
  unfold lookup
  rw [hsplit, List.getElem?_append, List.getElem?_append]
  split
  · rfl
  · exact congrFun (lookup_rdropWhile (l := l.drop n)) _

/-- A change that only takes entries out of use. -/
theorem lookup_map {f : α → α} {p : α → Bool}
    (h : ∀ a, live (f a) = true → live a = true ∧ f a = a)
    (hp : ∀ a, live a = true → (live (f a) = true ↔ p a = true)) (k : Nat) :
    lookup live (l.map f) k = (lookup live l k).filter p := by
  unfold lookup
  rw [List.getElem?_map]
  cases l[k]? with
  | none => rfl
  | some a =>
      simp only [Option.map_some, Option.filter_some]
      by_cases hlive : live a = true
      · rw [if_pos hlive, Option.filter_some]
        by_cases hfa : live (f a) = true
        · rw [if_pos hfa, if_pos ((hp a hlive).mp hfa), (h a hfa).2]
        · rw [if_neg hfa, if_neg fun hpa => hfa ((hp a hlive).mpr hpa)]
      · rw [if_neg hlive, if_neg fun hfa => hlive (h a hfa).1]
        rfl

end Lookup

end SlotTable
