import Mathlib.Data.List.Basic

/-! # Windows of a sequence

Reading and writing at a position, as on a file: what is read ends at the end, and a
write behind the end fills the hole before it.
-/

namespace Window

variable {α : Type} (hole : α) (l : List α) (pos : Nat)

/-- At most `n` elements from a position on. -/
def readAt (n : Nat) : List α := (l.drop pos).take n

/-- The sequence with elements put at a position. -/
def writeAt : List α → List α
  | [] => l
  | a :: data =>
      (l ++ List.replicate (pos - l.length) hole).take pos ++ a :: data ++
        l.drop (pos + (a :: data).length)

variable {hole l pos}

@[simp] theorem length_readAt (n : Nat) : (readAt l pos n).length = min n (l.length - pos) := by
  simp [readAt]

theorem getElem?_readAt (n i : Nat) :
    (readAt l pos n)[i]? = if i < n then l[pos + i]? else none := by
  rw [readAt, List.getElem?_take, List.getElem?_drop]

/-- A read in two steps, the second where the first one ends. -/
theorem readAt_append (m n : Nat) (h : m ≤ n) :
    readAt l pos m ++ readAt l (pos + (readAt l pos m).length) (n - (readAt l pos m).length) =
      readAt l pos n := by
  apply List.ext_getElem?
  intro i
  rw [List.getElem?_append]
  simp only [getElem?_readAt, length_readAt]
  split
  next hi =>
    rw [if_pos (by omega), if_pos (by omega)]
  next hi =>
    rw [Nat.add_assoc, Nat.add_sub_cancel' (by omega)]
    grind

@[simp] theorem writeAt_nil : writeAt hole l pos [] = l := rfl

theorem getElem?_writeAt (data : List α) (i : Nat) :
    (writeAt hole l pos data)[i]? =
      if pos ≤ i ∧ i < pos + data.length then data[i - pos]?
      else if data ≠ [] ∧ l.length ≤ i ∧ i < pos then some hole
      else l[i]? := by
  cases data with
  | nil =>
      rw [writeAt_nil, if_neg (by simp only [List.length_nil]; omega), if_neg (by simp)]
  | cons a data =>
      rw [writeAt, List.append_assoc, List.getElem?_append, List.getElem?_append,
        List.getElem?_take, List.getElem?_append, List.getElem?_replicate, List.getElem?_drop,
        List.length_take, List.length_append, List.length_replicate,
        show min pos (l.length + (pos - l.length)) = pos by omega]
      grind

theorem length_writeAt {data : List α} (h : data ≠ []) :
    (writeAt hole l pos data).length = max l.length (pos + data.length) := by
  cases data with
  | nil => contradiction
  | cons a data =>
      simp only [writeAt, List.length_append, List.length_take, List.length_replicate,
        List.length_drop, List.length_cons]
      omega

theorem length_le_writeAt (data : List α) : l.length ≤ (writeAt hole l pos data).length := by
  cases data with
  | nil => exact Nat.le_refl _
  | cons a data =>
      rw [length_writeAt (List.cons_ne_nil a data)]
      exact Nat.le_max_left _ _

/-- A write inside the sequence leaves it as long as it is. -/
theorem length_writeAt_inside {data : List α} (h : pos + data.length ≤ l.length) :
    (writeAt hole l pos data).length = l.length := by
  by_cases hdata : data = []
  · rw [hdata, writeAt_nil]
  · rw [length_writeAt hdata, Nat.max_eq_left h]

/-- What is written is there. -/
theorem getElem?_writeAt_inside {data : List α} {i : Nat} (h : i < data.length) :
    (writeAt hole l pos data)[pos + i]? = data[i]? := by
  rw [getElem?_writeAt, if_pos ⟨Nat.le_add_right _ _, Nat.add_lt_add_left h _⟩,
    Nat.add_sub_cancel_left]

/-- What is there and not written over stays. -/
theorem getElem?_writeAt_outside {data : List α} {i : Nat} (hi : i < l.length)
    (h : ¬(pos ≤ i ∧ i < pos + data.length)) : (writeAt hole l pos data)[i]? = l[i]? := by
  rw [getElem?_writeAt, if_neg h, if_neg fun hfilled => absurd hi (Nat.not_lt.mpr hfilled.2.1)]

/-- A write in two steps, the second where the first one ends. -/
theorem writeAt_writeAt (a b : List α) :
    writeAt hole (writeAt hole l pos a) (pos + a.length) b = writeAt hole l pos (a ++ b) := by
  cases a with
  | nil => rfl
  | cons x a =>
      apply List.ext_getElem?
      intro i
      simp only [getElem?_writeAt, List.length_append, length_writeAt (List.cons_ne_nil x a),
        List.getElem?_append]
      grind

/-- What is read beside a write. -/
theorem readAt_writeAt {data : List α} {q n : Nat}
    (h : pos + data.length ≤ q ∨ q + n ≤ l.length ∧ q + n ≤ pos) :
    readAt (writeAt hole l pos data) q n = readAt l q n := by
  apply List.ext_getElem?
  intro i
  simp only [getElem?_readAt, getElem?_writeAt]
  grind

end Window
