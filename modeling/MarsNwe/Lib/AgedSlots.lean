import Mathlib.Data.List.Basic

/-! # Tables whose longest idle entry gives way

A table is a list of slots. A new entry takes the first free slot, a further one
while the table may grow, or the slot of the entry that has been idle longest, and
all other entries grow older by it.
-/

namespace AgedSlots

variable {α : Type}

/-- The slot that has been idle longest, the first of them: `i` counts the slots. -/
def longestIdle (idle : α → Nat) : List (Option α) → (i maxIdle found : Nat) → Nat
  | [], _, _, found => found
  | none :: slots, i, maxIdle, found => longestIdle idle slots (i + 1) maxIdle found
  | some a :: slots, i, maxIdle, found =>
      if maxIdle < idle a then longestIdle idle slots (i + 1) (idle a) i
      else longestIdle idle slots (i + 1) maxIdle found

/-- The table with a new entry in it. -/
def insert (age : α → α) (idle : α → Nat) (size : Nat) (slots : List (Option α)) (a : α) :
    List (Option α) :=
  let slots := slots.map (Option.map age)
  match slots.findIdx? Option.isNone with
  | some i => slots.set i (some a)
  | none =>
      if slots.length < size then slots ++ [some a]
      else slots.set (longestIdle idle slots 0 0 0) (some a)

/-- The table without some entries. The last slots are given up with their entries. -/
def free (p : α → Bool) : List (Option α) → List (Option α)
  | [] => []
  | slot :: slots =>
      match free p slots with
      | [] => if slot.any p then [] else [slot]
      | slots => (if slot.any p then none else slot) :: slots

/-- The table with an entry written over those that it stands for. -/
def put (p : α → Bool) (a : α) (slots : List (Option α)) : List (Option α) :=
  slots.map (Option.map fun b => if p b then a else b)

/-- An entry after an insertion is the new one, or an older one that has aged. -/
theorem mem_insert {age : α → α} {idle : α → Nat} {size : Nat} {slots : List (Option α)} {a b : α}
    (h : some b ∈ insert age idle size slots a) : b = a ∨ ∃ c, some c ∈ slots ∧ b = age c := by
  have haged : some b ∈ slots.map (Option.map age) → ∃ c, some c ∈ slots ∧ b = age c := by
    intro hmem
    obtain ⟨slot, hslot, heq⟩ := List.mem_map.mp hmem
    obtain ⟨c, rfl, rfl⟩ := Option.map_eq_some_iff.mp heq
    exact ⟨c, hslot, rfl⟩
  have hset : ∀ i, some b ∈ (slots.map (Option.map age)).set i (some a) →
      b = a ∨ ∃ c, some c ∈ slots ∧ b = age c := by
    intro i hmem
    rcases List.mem_or_eq_of_mem_set hmem with hold | hnew
    · exact .inr (haged hold)
    · exact .inl (Option.some.inj hnew)
  unfold insert at h
  dsimp only at h
  split at h
  next => exact hset _ h
  next =>
      split at h
      next =>
          rcases List.mem_append.mp h with hold | hnew
          · exact .inr (haged hold)
          · exact .inl (Option.some.inj (List.mem_singleton.mp hnew))
      next => exact hset _ h

theorem length_free_le (p : α → Bool) (slots : List (Option α)) :
    (free p slots).length ≤ slots.length := by
  induction slots with
  | nil => exact Nat.le_refl 0
  | cons slot slots ih =>
      unfold free
      split
      next =>
          split
          · exact Nat.zero_le _
          · exact Nat.succ_le_succ (Nat.zero_le _)
      next => exact Nat.succ_le_succ ih

theorem mem_free {p : α → Bool} {slots : List (Option α)} {a : α} (h : some a ∈ free p slots) :
    some a ∈ slots := by
  induction slots with
  | nil => exact h
  | cons slot slots ih =>
      unfold free at h
      split at h
      next =>
          split at h
          next => contradiction
          next => exact List.mem_cons.mpr (.inl (List.mem_singleton.mp h))
      next =>
          rcases List.mem_cons.mp h with hhead | htail
          · split at hhead
            next => contradiction
            next => exact List.mem_cons.mpr (.inl hhead)
          · exact List.mem_cons_of_mem _ (ih htail)

/-- None of the entries that are freed is left. -/
theorem not_of_mem_free {p : α → Bool} {slots : List (Option α)} {a : α}
    (h : some a ∈ free p slots) : p a = false := by
  have hslot : ∀ slot : Option α, slot.any p = false → some a = slot → p a = false := by
    rintro _ hslot rfl
    exact hslot
  induction slots with
  | nil => contradiction
  | cons slot slots ih =>
      unfold free at h
      split at h
      next =>
          split at h
          next => contradiction
          next hany =>
              exact hslot slot (Bool.eq_false_iff.mpr hany) (List.mem_singleton.mp h)
      next =>
          rcases List.mem_cons.mp h with hhead | htail
          · split at hhead
            next => contradiction
            next hany => exact hslot slot (Bool.eq_false_iff.mpr hany) hhead
          · exact ih htail

/-- An entry after a write is the one written, or one that it does not stand for. -/
theorem mem_put {p : α → Bool} {slots : List (Option α)} {a b : α} (h : some b ∈ put p a slots) :
    b = a ∨ (some b ∈ slots ∧ p b = false) := by
  obtain ⟨slot, hslot, heq⟩ := List.mem_map.mp h
  obtain ⟨c, rfl, hc⟩ := Option.map_eq_some_iff.mp heq
  split at hc
  next => exact .inl hc.symm
  next hp =>
      subst hc
      exact .inr ⟨hslot, Bool.eq_false_iff.mpr hp⟩

end AgedSlots
