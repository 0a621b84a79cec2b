/-! # Computations with a state that may fail

A computation takes a state and ends with a value and a new state, or with an error,
after which nothing more happens. What is proved of its parts goes over to the whole.
-/

namespace Stateful

variable {σ ε α β : Type}

/-- From `s` the computation ends with a value and a state as `Q` has them, or with an
error as `E` has it. -/
def Post (E : ε → Prop) (s : σ) (m : StateT σ (Except ε) α) (Q : α → σ → Prop) : Prop :=
  match m s with
  | .ok (a, s') => Q a s'
  | .error e => E e

namespace Post

variable {E : ε → Prop} {s : σ} {m m' : StateT σ (Except ε) α} {f : α → StateT σ (Except ε) β}
variable {Q Q' : α → σ → Prop} {R : β → σ → Prop}

theorem pure {a : α} (h : Q a s) : Post E s (Pure.pure a) Q := h

theorem error {e : ε} (h : E e) : Post E s (throw e) Q := h

theorem get {Q : σ → σ → Prop} (h : Q s s) : Post E s get Q := h

theorem set {s' : σ} {Q : PUnit → σ → Prop} (h : Q ⟨⟩ s') : Post E s (set s') Q := h

theorem modify {g : σ → σ} {Q : Unit → σ → Prop} (h : Q () (g s)) :
    Post E s (modify g) Q := h

theorem bind (hm : Post E s m Q) (hf : ∀ a s', Q a s' → Post E s' (f a) R) :
    Post E s (m >>= f) R := by
  unfold Post at hm ⊢
  change match (m s >>= fun x => f x.1 x.2) with
    | .ok (a, s') => R a s'
    | .error e => E e
  cases hms : m s with
  | ok x =>
      rw [hms] at hm
      exact hf x.1 x.2 hm
  | error e =>
      rw [hms] at hm
      exact hm

theorem mono (hm : Post E s m Q) (h : ∀ a s', Q a s' → Q' a s') : Post E s m Q' := by
  unfold Post at hm ⊢
  split at hm
  · exact h _ _ hm
  · exact hm

end Post

/-! ## Invariants -/

/-- The computation keeps what holds of the state, unless it ends with an error. -/
def Keeps (I : σ → Prop) (m : StateT σ (Except ε) α) : Prop :=
  ∀ s, I s → Post (fun _ => True) s m fun _ s' => I s'

namespace Keeps

variable {I : σ → Prop} {m m' : StateT σ (Except ε) α} {f : α → StateT σ (Except ε) β}

theorem pure (a : α) : Keeps I (Pure.pure a : StateT σ (Except ε) α) := fun _ hs => hs

theorem error (e : ε) : Keeps I (throw e : StateT σ (Except ε) α) := fun _ _ => trivial

theorem get : Keeps I (get : StateT σ (Except ε) σ) := fun _ hs => hs

theorem modify {g : σ → σ} (h : ∀ s, I s → I (g s)) :
    Keeps I (modify g : StateT σ (Except ε) PUnit) := fun s hs => h s hs

theorem bind (hm : Keeps I m) (hf : ∀ a, Keeps I (f a)) : Keeps I (m >>= f) :=
  fun s hs => (hm s hs).bind fun a s' hs' => hf a s' hs'

/-- What is done with the state that has been read. -/
theorem getBind {f : σ → StateT σ (Except ε) β}
    (h : ∀ s, I s → Post (fun _ => True) s (f s) fun _ s' => I s') :
    Keeps I (MonadState.get >>= f) := fun s hs =>
  Post.bind (Q := fun a s' => a = s ∧ s' = s) ⟨rfl, rfl⟩ fun a s' hsame => by
    obtain ⟨rfl, rfl⟩ := hsame
    exact h _ hs

theorem map {g : α → β} (hm : Keeps I m) : Keeps I (g <$> m) := fun s hs => by
  have hpost := hm s hs
  unfold Post at hpost ⊢
  change match (m s >>= fun x => Pure.pure (g x.1, x.2)) with
    | .ok (_, s') => I s'
    | .error _ => True
  cases hms : m s with
  | ok x =>
      rw [hms] at hpost
      exact hpost
  | error e => trivial

theorem of_ok (h : Keeps I m) {s s' : σ} {a : α} (hs : I s) (hrun : m s = .ok (a, s')) :
    I s' := by
  have hpost := h s hs
  unfold Post at hpost
  rw [hrun] at hpost
  exact hpost

end Keeps

end Stateful
