/-! # Computations that log what they pass on

A computation ends with a value or stops with an error; in both cases there is a
log of what it has passed on. A triple says what holds of all that is logged, of
the value and of the error.
-/

structure Logged (ε τ α : Type) where
  result : Except ε α
  log : List τ

namespace Logged

variable {ε τ α β : Type}

instance : Monad (Logged ε τ) where
  pure a := ⟨.ok a, []⟩
  bind m f :=
    match m.result with
    | .ok a => ⟨(f a).result, m.log ++ (f a).log⟩
    | .error e => ⟨.error e, m.log⟩

def stop (e : ε) : Logged ε τ α := ⟨.error e, []⟩

def emit (x : τ) : Logged ε τ Unit := ⟨.ok (), [x]⟩

def lift (r : Except ε α) : Logged ε τ α := ⟨r, []⟩

/-- All that is logged satisfies `P`; the value satisfies `Q`, an error `E`. -/
structure Ensures (P : τ → Prop) (E : ε → Prop) (m : Logged ε τ α) (Q : α → Prop) : Prop where
  log : ∀ x ∈ m.log, P x
  ok : ∀ a, m.result = .ok a → Q a
  error : ∀ e, m.result = .error e → E e

namespace Ensures

variable {P : τ → Prop} {E : ε → Prop} {Q Q' : α → Prop} {R : β → Prop}
variable {m m' : Logged ε τ α} {f : α → Logged ε τ β}

theorem pure {a : α} (h : Q a) : Ensures P E (Pure.pure a : Logged ε τ α) Q where
  log _ hx := by cases hx
  ok _ ha := by cases ha; exact h
  error _ he := by cases he

theorem stop {e : ε} (h : E e) : Ensures P E (Logged.stop e : Logged ε τ α) Q where
  log _ hx := by cases hx
  ok _ ha := by cases ha
  error _ he := by cases he; exact h

theorem emit {x : τ} (h : P x) : Ensures P E (Logged.emit x : Logged ε τ Unit) fun _ => True where
  log _ hy := by
    rw [List.mem_singleton.mp hy]
    exact h
  ok _ _ := trivial
  error _ he := by cases he

theorem lift {r : Except ε α} (hok : ∀ a, r = .ok a → Q a) (herror : ∀ e, r = .error e → E e) :
    Ensures P E (Logged.lift r) Q where
  log _ hx := by cases hx
  ok := hok
  error := herror

theorem bind (hm : Ensures P E m Q) (hf : ∀ a, Q a → Ensures P E (f a) R) :
    Ensures P E (m >>= f) R := by
  obtain ⟨result, log⟩ := m
  cases result with
  | ok a =>
      have hrest := hf a (hm.ok a rfl)
      exact ⟨fun y hy => (List.mem_append.mp hy).elim (hm.log y) (hrest.log y),
        hrest.ok, hrest.error⟩
  | error e =>
      refine ⟨hm.log, fun _ ha => ?_, fun _ he => ?_⟩
      · cases ha
      · cases he
        exact hm.error e rfl

theorem mono (hm : Ensures P E m Q) (h : ∀ a, Q a → Q' a) : Ensures P E m Q' :=
  ⟨hm.log, fun a ha => h a (hm.ok a ha), hm.error⟩

theorem ite {c : Prop} [Decidable c] (ht : c → Ensures P E m Q) (he : ¬c → Ensures P E m' Q) :
    Ensures P E (if c then m else m') Q := by
  split
  next hc => exact ht hc
  next hc => exact he hc

end Ensures

/-! ## Where a computation ends -/

/-- If the computation ends with a value, the value is as `Q` has it, with what had been
logged before and what it has logged itself. -/
def Ends (seen : List τ) (m : Logged ε τ α) (Q : α → List τ → Prop) : Prop :=
  ∀ a, m.result = .ok a → Q a (seen ++ m.log)

namespace Ends

variable {seen : List τ} {m m' : Logged ε τ α} {f : α → Logged ε τ β}
variable {Q Q' : α → List τ → Prop} {R : β → List τ → Prop}

theorem pure {a : α} (h : Q a seen) : Ends seen (Pure.pure a : Logged ε τ α) Q := by
  rintro _ ⟨⟩
  exact (List.append_nil seen).symm ▸ h

theorem stop {e : ε} : Ends seen (Logged.stop e : Logged ε τ α) Q := by
  rintro _ ⟨⟩

theorem emit {x : τ} {Q : Unit → List τ → Prop} (h : Q () (seen ++ [x])) :
    Ends seen (Logged.emit x : Logged ε τ Unit) Q := by
  rintro _ ⟨⟩
  exact h

theorem bind (hm : Ends seen m Q)
    (hf : ∀ a seen', seen ⊆ seen' → Q a seen' → Ends seen' (f a) R) : Ends seen (m >>= f) R := by
  obtain ⟨result, log⟩ := m
  cases result with
  | ok a =>
      intro b hb
      have hend := hf a (seen ++ log) (List.subset_append_left _ _) (hm a rfl) b hb
      rwa [List.append_assoc] at hend
  | error e => rintro _ ⟨⟩

/-- What goes before is not looked at. -/
theorem after (hf : ∀ a seen', seen ⊆ seen' → Ends seen' (f a) R) : Ends seen (m >>= f) R :=
  bind (Q := fun _ _ => True) (fun _ _ => trivial) fun a seen' hseen _ => hf a seen' hseen

theorem ite {c : Prop} [Decidable c] (ht : c → Ends seen m Q) (he : ¬c → Ends seen m' Q) :
    Ends seen (if c then m else m') Q := by
  split
  next hc => exact ht hc
  next hc => exact he hc

theorem mono (hm : Ends seen m Q) (h : ∀ a l, Q a l → Q' a l) : Ends seen m Q' :=
  fun a ha => h a _ (hm a ha)

end Ends

/-! ## What is logged -/

/-- All that is logged satisfies `P`. -/
def LogsOnly (P : τ → Prop) (m : Logged ε τ α) : Prop := ∀ x ∈ m.log, P x

section

variable {P P' : τ → Prop} {m m' : Logged ε τ α} {f : α → Logged ε τ β}

@[simp] theorem result_pure (a : α) : (pure a : Logged ε τ α).result = .ok a := rfl

@[simp] theorem result_stop (e : ε) : (stop e : Logged ε τ α).result = .error e := rfl

@[simp] theorem result_emit (x : τ) : (emit x : Logged ε τ Unit).result = .ok () := rfl

theorem result_bind (m : Logged ε τ α) (f : α → Logged ε τ β) :
    (m >>= f).result = m.result >>= fun a => (f a).result := by
  obtain ⟨result, log⟩ := m
  cases result <;> rfl

theorem bind_assoc {γ : Type} (m : Logged ε τ α) (f : α → Logged ε τ β) (g : β → Logged ε τ γ) :
    m >>= f >>= g = m >>= fun a => f a >>= g := by
  obtain ⟨result, log⟩ := m
  cases result with
  | error e => rfl
  | ok a =>
      simp only [Bind.bind]
      cases (f a).result with
      | error e => rfl
      | ok b => simp only [List.append_assoc]

@[simp] theorem logsOnly_pure (a : α) : LogsOnly P (pure a : Logged ε τ α) := fun _ hx => by cases hx

@[simp] theorem logsOnly_stop (e : ε) : LogsOnly P (stop e : Logged ε τ α) := fun _ hx => by cases hx

@[simp] theorem logsOnly_emit (x : τ) : LogsOnly P (emit x : Logged ε τ Unit) ↔ P x :=
  List.forall_mem_singleton

@[simp] theorem logsOnly_bind :
    LogsOnly P (m >>= f) ↔ LogsOnly P m ∧ ∀ a, m.result = .ok a → LogsOnly P (f a) := by
  obtain ⟨result, log⟩ := m
  cases result with
  | error e => exact ⟨fun h => ⟨h, fun _ ha => by cases ha⟩, And.left⟩
  | ok a =>
      constructor
      · intro h
        refine ⟨fun x hx => h x (List.mem_append_left _ hx), fun _ ha x hx => ?_⟩
        cases ha
        exact h x (List.mem_append_right _ hx)
      · intro h x hx
        exact (List.mem_append.mp hx).elim (h.1 x) (h.2 a rfl x)

theorem LogsOnly.mono (h : LogsOnly P m) (hP : ∀ x, P x → P' x) : LogsOnly P' m :=
  fun x hx => hP x (h x hx)

end

end Logged
