import Mathlib.Data.List.Basic

/-! # Padded fields

A field of fixed width is filled up with blanks, and so is a pattern for it, unless it
ends in a star: then it is filled up with places that any character fits. Reading a
pattern along a field without padding says the same, as long as no blank of the one
stands against the padding of the other.
-/

namespace PaddedField

variable {α : Type}

/-- A place of a pattern. -/
inductive Place (α : Type)
  | any
  | lit (a : α)
deriving DecidableEq

/-- The places of a pattern, and whether a star ends it. -/
structure Pattern (α : Type) where
  places : List (Place α)
  star : Bool
deriving DecidableEq

variable (same : α → α → Bool) (blank : α)

/-- `same c a` compares a character of a field with one of a pattern. -/
def Place.fits (c : α) : Place α → Bool
  | .any => true
  | .lit a => same c a

/-- A field filled up to its width. -/
def pad (n : Nat) (cs : List α) : List α := cs ++ List.replicate (n - cs.length) blank

/-- A pattern filled up to the width of the field. -/
def Pattern.filled (n : Nat) (f : Pattern α) : List (Place α) :=
  f.places ++ List.replicate (n - f.places.length) (if f.star then .any else .lit blank)

/-- Every character of the padded field fits its place. -/
def Pattern.matchesPadded (n : Nat) (f : Pattern α) (cs : List α) : Bool :=
  (List.zipWith (Place.fits same) (pad blank n cs) (f.filled blank n)).all id

/-- Reading the places along a field without padding: a place for any character may be
left empty at the end of the field. -/
def readsPlaces (star : Bool) : List (Place α) → List α → Bool
  | [], cs => star || cs.isEmpty
  | .any :: places, cs => readsPlaces star places cs.tail
  | .lit _ :: _, [] => false
  | .lit a :: places, c :: cs => same c a && readsPlaces star places cs

def Pattern.reads (f : Pattern α) (cs : List α) : Bool := readsPlaces same f.star f.places cs

/-- No character stands against padding. -/
structure Pattern.Aligned (f : Pattern α) (cs : List α) : Prop where
  field : f.places.length < cs.length → f.star
  places : ∀ t ∈ f.places.drop cs.length, t = .any

instance (f : Pattern α) (cs : List α) [DecidableEq α] : Decidable (f.Aligned cs) :=
  decidable_of_iff ((f.places.length < cs.length → f.star) ∧
      ∀ t ∈ f.places.drop cs.length, t = .any)
    ⟨fun ⟨hfield, hplaces⟩ => ⟨hfield, hplaces⟩, fun h => ⟨h.field, h.places⟩⟩

variable {same blank}

theorem matchesPadded_cons {n : Nat} {t : Place α} {places : List (Place α)} {star : Bool}
    {cs : List α} (hcs : cs.length ≤ n + 1) :
    Pattern.matchesPadded same blank (n + 1) ⟨t :: places, star⟩ cs =
      (t.fits same (cs.headD blank) &&
        Pattern.matchesPadded same blank n ⟨places, star⟩ cs.tail) := by
  have hpad : pad blank (n + 1) cs = cs.headD blank :: pad blank n cs.tail := by
    cases cs with
    | nil => rfl
    | cons c cs => simp [pad]
  simp [Pattern.matchesPadded, hpad, Pattern.filled]

theorem aligned_any {places : List (Place α)} {star : Bool} {cs : List α} :
    Pattern.Aligned ⟨.any :: places, star⟩ cs ↔ Pattern.Aligned ⟨places, star⟩ cs.tail := by
  cases cs with
  | nil =>
      constructor
      · rintro ⟨-, hplaces⟩
        exact ⟨by simp, fun t ht => hplaces t (List.mem_cons_of_mem _ ht)⟩
      · rintro ⟨-, hplaces⟩
        exact ⟨by simp, List.forall_mem_cons.mpr ⟨rfl, hplaces⟩⟩
  | cons c cs =>
      constructor
      · rintro ⟨hfield, hplaces⟩
        exact ⟨fun h => hfield (Nat.succ_lt_succ h), hplaces⟩
      · rintro ⟨hfield, hplaces⟩
        exact ⟨fun h => hfield (Nat.lt_of_succ_lt_succ h), hplaces⟩

theorem aligned_lit {a c : α} {places : List (Place α)} {star : Bool} {cs : List α} :
    Pattern.Aligned ⟨.lit a :: places, star⟩ (c :: cs) ↔ Pattern.Aligned ⟨places, star⟩ cs := by
  constructor
  · rintro ⟨hfield, hplaces⟩
    exact ⟨fun h => hfield (Nat.succ_lt_succ h), hplaces⟩
  · rintro ⟨hfield, hplaces⟩
    exact ⟨fun h => hfield (Nat.lt_of_succ_lt_succ h), hplaces⟩

/-- What is read without padding is what fits with padding, where nothing stands against
padding. -/
theorem reads_iff (hblank : same blank blank = true) {n : Nat} {f : Pattern α} {cs : List α}
    (hplaces : f.places.length ≤ n) (hcs : cs.length ≤ n) :
    f.reads same cs = true ↔ f.matchesPadded same blank n cs = true ∧ f.Aligned cs := by
  obtain ⟨places, star⟩ := f
  unfold Pattern.reads
  dsimp only at hplaces ⊢
  induction places generalizing n cs with
  | nil =>
      rw [readsPlaces]
      cases star with
      | true =>
          refine iff_of_true rfl ⟨?_, ⟨fun _ => rfl, by simp⟩⟩
          rw [Pattern.matchesPadded, List.all_eq_true]
          intro b hb
          obtain ⟨i, hi, rfl⟩ := List.getElem_of_mem hb
          simp [Pattern.filled, Place.fits]
      | false =>
          cases cs with
          | nil =>
              refine iff_of_true rfl ⟨?_, ⟨by simp, by simp⟩⟩
              simp [Pattern.matchesPadded, pad, Pattern.filled, Place.fits, hblank]
          | cons c cs =>
              refine iff_of_false (by simp) ?_
              rintro ⟨-, hfield, -⟩
              cases hfield (Nat.succ_pos _)
  | cons t places ih =>
      obtain ⟨n, rfl⟩ : ∃ m, n = m + 1 := Nat.exists_eq_succ_of_ne_zero (by
        rw [List.length_cons] at hplaces
        omega)
      have hplaces' : places.length ≤ n := Nat.le_of_succ_le_succ hplaces
      have hcs' : cs.tail.length ≤ n := by
        rw [List.length_tail]
        omega
      rw [matchesPadded_cons hcs]
      cases t with
      | any =>
          rw [readsPlaces, ih hcs' hplaces', aligned_any]
          rfl
      | lit a =>
          cases cs with
          | nil =>
              rw [readsPlaces]
              constructor
              · rintro ⟨⟩
              · rintro ⟨-, -, hall⟩
                cases hall (.lit a) List.mem_cons_self
          | cons c cs =>
              rw [readsPlaces, aligned_lit, Bool.and_eq_true, Bool.and_eq_true, and_assoc]
              exact and_congr_right fun _ => ih hcs' hplaces'

end PaddedField
