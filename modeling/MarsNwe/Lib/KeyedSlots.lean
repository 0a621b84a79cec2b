import MarsNwe.Lib.SlotTable

/-! # Tables of slots with keys

A slot may hold an entry with a key. As long as no two slots have one key, writing a
slot changes what is found under the old and the new key only.
-/

namespace KeyedSlots

variable {α κ : Type} [DecidableEq κ] {key : α → Option κ}

/-- The slot with a key, the first of them. -/
def lookup (key : α → Option κ) (slots : List α) (k : κ) : Option α :=
  slots.find? fun a => key a = some k

/-- No two slots have one key. -/
def Unique (key : α → Option κ) (slots : List α) : Prop :=
  slots.Pairwise fun a b => ∀ k, key a = some k → key b ≠ some k

variable {slots : List α} {i : Nat} {old new : α} {k : κ}

theorem lookup_eq_none : lookup key slots k = none ↔ ∀ a ∈ slots, key a ≠ some k := by
  unfold lookup
  simp

theorem lookup_append (slots slots' : List α) :
    lookup key (slots ++ slots') k = (lookup key slots k).or (lookup key slots' k) := by
  unfold lookup
  rw [List.find?_append]

theorem lookup_cons (a : α) (slots : List α) :
    lookup key (a :: slots) k = if key a = some k then some a else lookup key slots k := by
  unfold lookup
  rw [List.find?_cons]
  split
  next h => rw [if_pos (of_decide_eq_true h)]
  next h => rw [if_neg (of_decide_eq_false h)]

/-- A slot that is in the table is the one found under its key. -/
theorem lookup_of_mem (hunique : Unique key slots) {a : α} (ha : a ∈ slots) (hk : key a = some k) :
    lookup key slots k = some a := by
  induction slots with
  | nil => contradiction
  | cons b slots ih =>
      obtain ⟨hfirst, hrest⟩ := List.pairwise_cons.mp hunique
      rw [lookup_cons]
      rcases List.mem_cons.mp ha with rfl | ha
      · rw [if_pos hk]
      · rw [if_neg fun hb => hfirst a ha k hb hk, ih hrest ha]

theorem unique_append (hunique : Unique key slots)
    (hnew : ∀ k, key new = some k → lookup key slots k = none) :
    Unique key (slots ++ [new]) := by
  refine List.pairwise_append.mpr ⟨hunique, List.pairwise_singleton _ _, fun a ha b hb k hk hb' => ?_⟩
  obtain rfl := List.mem_singleton.mp hb
  exact lookup_eq_none.mp (hnew k hb') a ha hk

/-- A slot may be written with its own key or with one that is not in the table. -/
theorem unique_set (hunique : Unique key slots) (hi : slots[i]? = some old)
    (hnew : ∀ k, key new = some k → key old = some k ∨ lookup key slots k = none) :
    Unique key (slots.set i new) := by
  obtain ⟨before, after, rfl, rfl⟩ := SlotTable.exists_split hi
  rw [List.set_append_right _ _ (Nat.le_refl _), Nat.sub_self, List.set_cons_zero]
  obtain ⟨hbefore, hrest, hacross⟩ := List.pairwise_append.mp hunique
  obtain ⟨hold, hafter⟩ := List.pairwise_cons.mp hrest
  have hother : ∀ a ∈ before ++ after, ∀ k, key new = some k → key a ≠ some k := by
    intro a ha k hk hak
    rcases hnew k hk with hsame | hnone
    · rcases List.mem_append.mp ha with ha | ha
      · exact hacross a ha old List.mem_cons_self k hak hsame
      · exact hold a ha k hsame hak
    · refine lookup_eq_none.mp hnone a ?_ hak
      rcases List.mem_append.mp ha with ha | ha
      · exact List.mem_append_left _ ha
      · exact List.mem_append_right _ (List.mem_cons_of_mem _ ha)
  refine List.pairwise_append.mpr ⟨hbefore, List.pairwise_cons.mpr ⟨?_, hafter⟩, ?_⟩
  · exact fun a ha k hk hak => hother a (List.mem_append_right _ ha) k hk hak
  · intro a ha b hb k hak hbk
    rcases List.mem_cons.mp hb with rfl | hb
    · exact hother a (List.mem_append_left _ ha) k hbk hak
    · exact hacross a ha b (List.mem_cons_of_mem _ hb) k hak hbk

theorem lookup_set (hunique : Unique key slots) (hi : slots[i]? = some old)
    (hnew : ∀ k, key new = some k → key old = some k ∨ lookup key slots k = none) :
    lookup key (slots.set i new) k =
      if key new = some k then some new
      else if key old = some k then none
      else lookup key slots k := by
  have hunique' := unique_set hunique hi hnew
  have hlt : i < slots.length := (List.getElem?_eq_some_iff.mp hi).1
  by_cases hk : key new = some k
  · rw [if_pos hk]
    exact lookup_of_mem hunique' (List.mem_set hlt _) hk
  rw [if_neg hk]
  obtain ⟨before, after, rfl, rfl⟩ := SlotTable.exists_split hi
  rw [List.set_append_right _ _ (Nat.le_refl _), Nat.sub_self, List.set_cons_zero, lookup_append,
    lookup_cons, if_neg hk]
  by_cases hold : key old = some k
  · rw [if_pos hold]
    obtain ⟨-, hrest, hacross⟩ := List.pairwise_append.mp hunique
    obtain ⟨hafter, -⟩ := List.pairwise_cons.mp hrest
    rw [lookup_eq_none.mpr fun a ha hak => hacross a ha old List.mem_cons_self k hak hold,
      lookup_eq_none.mpr fun a ha hak => hafter a ha k hold hak]
    rfl
  · rw [if_neg hold, lookup_append, lookup_cons, if_neg hold]

theorem lookup_concat (hnew : ∀ k, key new = some k → lookup key slots k = none) :
    lookup key (slots ++ [new]) k = if key new = some k then some new else lookup key slots k := by
  rw [lookup_append, lookup_cons]
  split
  next hk => rw [hnew k hk, Option.none_or]
  next =>
    have hnil : lookup key ([] : List α) k = none := rfl
    rw [hnil, Option.or_none]

end KeyedSlots
