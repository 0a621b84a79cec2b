import MarsNwe.Lib.Machine

/-! # What goes through a machine

A machine that takes things in and gives them out again: what every step accounts for,
a run accounts for.
-/

namespace Machine

variable {σ ε ρ τ : Type} (m : Machine σ ε ρ)

/-- What the requests of a run and their answers come to, in their order. -/
def gather (f : ε → ρ → List τ) (s : σ) : List ε → List τ
  | [] => []
  | e :: es => f e (m.step s e).1 ++ gather f (m.step s e).2 es

/-- What is in the machine before and what comes in goes out, in its order, or is in the
machine afterwards. -/
theorem gather_balance {ok : σ → ε → Prop} {held : σ → List τ} {ins outs : ε → ρ → List τ}
    (hstep : ∀ s e, ok s e →
      held s ++ ins e (m.step s e).1 = outs e (m.step s e).1 ++ held (m.step s e).2)
    {s : σ} {es : List ε} (hok : m.Along ok s es) :
    held s ++ m.gather ins s es = m.gather outs s es ++ held (m.exec s es) := by
  induction es generalizing s with
  | nil => simp [gather]
  | cons e es ih =>
      obtain ⟨hhead, htail⟩ := hok
      calc held s ++ m.gather ins s (e :: es)
          = (held s ++ ins e (m.step s e).1) ++ m.gather ins (m.step s e).2 es := by
            rw [gather, List.append_assoc]
        _ = outs e (m.step s e).1 ++
              (held (m.step s e).2 ++ m.gather ins (m.step s e).2 es) := by
            rw [hstep s e hhead, List.append_assoc]
        _ = m.gather outs s (e :: es) ++ held (m.exec s (e :: es)) := by
            rw [ih htail, gather, exec_cons, List.append_assoc]

end Machine
