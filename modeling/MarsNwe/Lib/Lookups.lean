import MarsNwe.Lib.Calls

/-! # Programs over a table

A table gives every call its one answer, and a program over it makes the calls it
comes to, in their order. Its value depends on the table only where it made a
call: a table that differs elsewhere gives the same calls and the same value.
-/

namespace Prog

variable {C : Type} {R : C → Type} {α β : Type} {f g : (c : C) → R c} {P P' : C → Prop}

/-- The value over a table. -/
def value (f : (c : C) → R c) : Prog C R α → α
  | done a => a
  | call c next => value f (next (f c))

/-- The calls made over a table, in their order. -/
def asked (f : (c : C) → R c) : Prog C R α → List C
  | done _ => []
  | call c next => c :: asked f (next (f c))

/-- Every call made over the table satisfies `P`. -/
def AsksOnly (f : (c : C) → R c) (P : C → Prop) (m : Prog C R α) : Prop :=
  ∀ c ∈ asked f m, P c

@[simp] theorem value_done (a : α) : value f (done a : Prog C R α) = a := rfl

@[simp] theorem value_call (c : C) (next : R c → Prog C R α) :
    value f (call c next) = value f (next (f c)) := rfl

@[simp] theorem value_ask (c : C) : value f (ask c : Prog C R (R c)) = f c := rfl

@[simp] theorem value_bind (m : Prog C R α) (k : α → Prog C R β) :
    value f (m >>= k) = value f (k (value f m)) := by
  induction m with
  | done a => rfl
  | call c next ih => exact ih (f c)

@[simp] theorem asked_bind (m : Prog C R α) (k : α → Prog C R β) :
    asked f (m >>= k) = asked f m ++ asked f (k (value f m)) := by
  induction m with
  | done a => rfl
  | call c next ih => exact congrArg (c :: ·) (ih (f c))

@[simp] theorem asksOnly_done (a : α) : AsksOnly f P (done a : Prog C R α) :=
  fun _ hc => absurd hc List.not_mem_nil

@[simp] theorem asksOnly_call (c : C) (next : R c → Prog C R α) :
    AsksOnly f P (call c next) ↔ P c ∧ AsksOnly f P (next (f c)) :=
  List.forall_mem_cons

@[simp] theorem asksOnly_ask (c : C) : AsksOnly f P (ask c : Prog C R (R c)) ↔ P c :=
  List.forall_mem_singleton

@[simp] theorem asksOnly_bind (m : Prog C R α) (k : α → Prog C R β) :
    AsksOnly f P (m >>= k) ↔ AsksOnly f P m ∧ AsksOnly f P (k (value f m)) := by
  simp only [AsksOnly, asked_bind, List.mem_append, or_imp, forall_and]

/-- Another table is asked the same and gives the same value, where it agrees on
the calls made over the first. -/
theorem same_of_agree (m : Prog C R α) (h : AsksOnly f (fun c => g c = f c) m) :
    asked g m = asked f m ∧ value g m = value f m := by
  induction m with
  | done a => exact ⟨rfl, rfl⟩
  | call c next ih =>
      obtain ⟨hc, hrest⟩ := (asksOnly_call c next).mp h
      obtain ⟨hasked, hvalue⟩ := ih (f c) hrest
      refine ⟨?_, ?_⟩
      · rw [asked, asked, hc, hasked]
      · rw [value_call, value_call, hc, hvalue]

theorem AsksOnly.mono {m : Prog C R α} (h : AsksOnly f P m) (hP : ∀ c, P c → P' c) :
    AsksOnly f P' m := fun c hc => hP c (h c hc)

end Prog
