import Mathlib.Data.Set.Insert

/-! # Computations that leave a trace

A computation has a value and a trace of what it has done. What is proved of one
step of a loop, about the value before, the trace and the value after, is carried
over to the whole loop. Traces of programs that hold things are read back in the
order in which things were got, used and given away.
-/

structure Traced (τ α : Type) where
  value : α
  trace : List τ

namespace Traced

variable {τ α β ι : Type}

instance : Monad (Traced τ) where
  pure a := ⟨a, []⟩
  bind m f := ⟨(f m.value).value, m.trace ++ (f m.value).trace⟩

def emit (x : τ) : Traced τ Unit := ⟨(), [x]⟩

@[simp] theorem value_pure (a : α) : (pure a : Traced τ α).value = a := rfl

@[simp] theorem trace_pure (a : α) : (pure a : Traced τ α).trace = [] := rfl

@[simp] theorem value_bind (m : Traced τ α) (f : α → Traced τ β) :
    (m >>= f).value = (f m.value).value := rfl

@[simp] theorem trace_bind (m : Traced τ α) (f : α → Traced τ β) :
    (m >>= f).trace = m.trace ++ (f m.value).trace := rfl

@[simp] theorem value_emit (x : τ) : (emit x).value = () := rfl

@[simp] theorem trace_emit (x : τ) : (emit x).trace = [x] := rfl

/-- A relation between the value before, the trace and the value after that goes on
from one computation to the next. -/
structure GoesOn (R : α → List τ → α → Prop) : Prop where
  refl (a : α) : R a [] a
  trans {a b c : α} {l l' : List τ} : R a l b → R b l' c → R a (l ++ l') c

theorem GoesOn.foldlM_of_mem {R : α → List τ → α → Prop} (hR : GoesOn R) {f : α → ι → Traced τ α}
    {xs : List ι} (hf : ∀ a, ∀ x ∈ xs, R a (f a x).trace (f a x).value) (a : α) :
    R a (xs.foldlM f a).trace (xs.foldlM f a).value := by
  induction xs generalizing a with
  | nil => exact hR.refl a
  | cons x xs ih =>
      rw [List.foldlM_cons]
      exact hR.trans (hf a x List.mem_cons_self)
        (ih (fun a y hy => hf a y (List.mem_cons_of_mem x hy)) (f a x).value)

theorem GoesOn.foldlM {R : α → List τ → α → Prop} (hR : GoesOn R) {f : α → ι → Traced τ α}
    (hf : ∀ a x, R a (f a x).trace (f a x).value) (a : α) (xs : List ι) :
    R a (xs.foldlM f a).trace (xs.foldlM f a).value :=
  hR.foldlM_of_mem (fun a x _ => hf a x) a

/-- A loop of which no step changes the value. -/
theorem foldlM_still {f : α → ι → Traced τ α} {a : α} {xs : List ι} {g : ι → List τ}
    (hf : ∀ x ∈ xs, f a x = ⟨a, g x⟩) : xs.foldlM f a = ⟨a, xs.flatMap g⟩ := by
  induction xs with
  | nil => rfl
  | cons x xs ih =>
      rw [List.foldlM_cons, hf x List.mem_cons_self]
      have hrest := ih fun y hy => hf y (List.mem_cons_of_mem x hy)
      exact congrArg₂ Traced.mk (congrArg Traced.value hrest)
        (congrArg (fun m : Traced τ α => g x ++ m.trace) hrest)

end Traced

/-! ## Things that are held -/

/-- What a program does with a thing. -/
inductive Held.Act (ρ : Type) where
  | get (p : ρ)
  | use (p : ρ)
  | drop (p : ρ)

namespace Held

variable {ρ : Type}

/-- What is held after some acts. -/
def after (held : Set ρ) : List (Act ρ) → Set ρ
  | [] => held
  | .get p :: acts => after (insert p held) acts
  | .use _ :: acts => after held acts
  | .drop p :: acts => after (held \ {p}) acts

/-- Nothing is used that is not held. -/
def Proper (held : Set ρ) : List (Act ρ) → Prop
  | [] => True
  | .get p :: acts => Proper (insert p held) acts
  | .use p :: acts => p ∈ held ∧ Proper held acts
  | .drop p :: acts => Proper (held \ {p}) acts

variable {held : Set ρ}

theorem after_append (acts acts' : List (Act ρ)) :
    after held (acts ++ acts') = after (after held acts) acts' := by
  induction acts generalizing held with
  | nil => rfl
  | cons act acts ih =>
      cases act with
      | get p => exact ih
      | use p => exact ih
      | drop p => exact ih

theorem proper_append {acts acts' : List (Act ρ)} :
    Proper held (acts ++ acts') ↔ Proper held acts ∧ Proper (after held acts) acts' := by
  induction acts generalizing held with
  | nil => exact (Iff.of_eq (true_and _)).symm
  | cons act acts ih =>
      cases act with
      | get p => exact ih
      | use p => exact (and_congr_right fun _ => ih).trans and_assoc.symm
      | drop p => exact ih

/-- Acts that use only what is held. -/
theorem after_uses {acts : List (Act ρ)} (h : ∀ act ∈ acts, ∃ p ∈ held, act = .use p) :
    after held acts = held ∧ Proper held acts := by
  induction acts with
  | nil => exact ⟨rfl, trivial⟩
  | cons act acts ih =>
      obtain ⟨p, hp, rfl⟩ := h act List.mem_cons_self
      obtain ⟨hafter, hproper⟩ := ih fun act hact => h act (List.mem_cons_of_mem _ hact)
      exact ⟨hafter, hp, hproper⟩

/-- What is given away is held no longer. -/
theorem after_drops (held : Set ρ) (ps : List ρ) :
    after held (ps.map .drop) = held \ {p | p ∈ ps} ∧ Proper held (ps.map .drop) := by
  induction ps generalizing held with
  | nil =>
      refine ⟨?_, trivial⟩
      ext q
      exact (and_iff_left List.not_mem_nil).symm
  | cons p ps ih =>
      obtain ⟨hafter, hproper⟩ := ih (held \ {p})
      refine ⟨?_, hproper⟩
      rw [List.map_cons, after, hafter]
      ext q
      simp only [Set.mem_sdiff, Set.mem_singleton_iff, Set.mem_ofPred_eq, List.mem_cons, not_or,
        and_assoc]

end Held
