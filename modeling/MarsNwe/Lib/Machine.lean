/-! # Runs of a machine that answers

A machine takes one request at a time, answers it and moves to the next state.
The rules below carry what one step preserves over to whole runs: an invariant
of one machine, and a relation between two machines that answer alike.
-/

/-- A deterministic machine with states `σ`, requests `ε` and answers `ρ`. -/
structure Machine (σ ε ρ : Type) where
  step : σ → ε → ρ × σ

namespace Machine

variable {σ ε ρ : Type} (m : Machine σ ε ρ)

/-- The state after a list of requests. -/
def exec (s : σ) : List ε → σ
  | [] => s
  | e :: es => exec (m.step s e).2 es

/-- The answers to a list of requests. -/
def answers (s : σ) : List ε → List ρ
  | [] => []
  | e :: es => (m.step s e).1 :: answers (m.step s e).2 es

/-- Every request of the run meets a condition in the state it is made in. -/
def Along (ok : σ → ε → Prop) (s : σ) : List ε → Prop
  | [] => True
  | e :: es => ok s e ∧ Along ok (m.step s e).2 es

@[simp] theorem exec_nil (s : σ) : m.exec s [] = s := rfl

@[simp] theorem exec_cons (s : σ) (e : ε) (es : List ε) :
    m.exec s (e :: es) = m.exec (m.step s e).2 es := rfl

theorem exec_append (s : σ) (es es' : List ε) :
    m.exec s (es ++ es') = m.exec (m.exec s es) es' := by
  induction es generalizing s with
  | nil => rfl
  | cons e es ih => exact ih _

theorem along_append {ok : σ → ε → Prop} (s : σ) (es es' : List ε) :
    m.Along ok s (es ++ es') ↔ m.Along ok s es ∧ m.Along ok (m.exec s es) es' := by
  induction es generalizing s with
  | nil => simp [Along]
  | cons e es ih => simp only [List.cons_append, Along, exec_cons, ih, and_assoc]

/-- A property of states that every step meeting the condition preserves holds
after every run of such steps. -/
theorem exec_invariant {ok : σ → ε → Prop} {inv : σ → Prop}
    (hstep : ∀ s e, inv s → ok s e → inv (m.step s e).2)
    {s : σ} {es : List ε} (hs : inv s) (hok : m.Along ok s es) : inv (m.exec s es) := by
  induction es generalizing s with
  | nil => exact hs
  | cons e es ih => exact ih (hstep s e hs hok.1) hok.2

/-- Steps that meet a condition meet another one too, along runs that keep an invariant. -/
theorem along_of_invariant {ok ok' : σ → ε → Prop} {inv : σ → Prop}
    (hstep : ∀ s e, inv s → ok s e → ok' s e ∧ inv (m.step s e).2)
    {s : σ} {es : List ε} (hs : inv s) (hok : m.Along ok s es) : m.Along ok' s es := by
  induction es generalizing s with
  | nil => trivial
  | cons e es ih =>
      obtain ⟨hhead, hnext⟩ := hstep s e hs hok.1
      exact ⟨hhead, ih hnext hok.2⟩

/-- Two conditions that agree on every step from a state with an invariant, which
the steps meeting the first preserve, hold along the same runs. -/
theorem along_iff {ok ok' : σ → ε → Prop} {inv : σ → Prop}
    (hstep : ∀ s e, inv s → ok s e → inv (m.step s e).2)
    (hiff : ∀ s e, inv s → (ok s e ↔ ok' s e)) {s : σ} (es : List ε) (hs : inv s) :
    m.Along ok s es ↔ m.Along ok' s es := by
  induction es generalizing s with
  | nil => exact Iff.rfl
  | cons e es ih =>
      constructor
      · intro ⟨hhead, htail⟩
        exact ⟨(hiff s e hs).mp hhead, (ih (hstep s e hs hhead)).mp htail⟩
      · intro ⟨hhead, htail⟩
        have hok := (hiff s e hs).mpr hhead
        exact ⟨hok, (ih (hstep s e hs hok)).mpr htail⟩

/-- A property that the steps meeting the condition keep, and they only, holds in all
states of a run just when every step meets the condition. -/
theorem forall_prefix_iff_along {ok : σ → ε → Prop} {inv : σ → Prop}
    (hstep : ∀ s e, inv s → (inv (m.step s e).2 ↔ ok s e)) {s : σ} (hs : inv s) (es : List ε) :
    (∀ before, before <+: es → inv (m.exec s before)) ↔ m.Along ok s es := by
  induction es generalizing s with
  | nil =>
      refine ⟨fun _ => trivial, fun _ before hbefore => ?_⟩
      rw [List.prefix_nil.mp hbefore]
      exact hs
  | cons e es ih =>
      constructor
      · intro hall
        have hnext : inv (m.step s e).2 := hall [e] (List.prefix_append [e] es)
        refine ⟨(hstep s e hs).mp hnext, (ih hnext).mp fun before hbefore => ?_⟩
        exact hall (e :: before) (List.cons_prefix_cons.mpr ⟨rfl, hbefore⟩)
      · intro ⟨hok, hrest⟩ before hbefore
        cases before with
        | nil => exact hs
        | cons e' before =>
            obtain ⟨rfl, htail⟩ := List.cons_prefix_cons.mp hbefore
            exact (ih ((hstep s _ hs).mpr hok)).mpr hrest before htail

/-- The same for a property that follows from an invariant of the steps meeting the
condition, and that the other steps break. -/
theorem forall_prefix_iff_along_of_invariant {ok : σ → ε → Prop} {inv P : σ → Prop}
    (hinv : ∀ s, inv s → P s) (hstep : ∀ s e, inv s → ok s e → inv (m.step s e).2)
    (hbreak : ∀ s e, inv s → ¬ok s e → ¬P (m.step s e).2) {s : σ} (hs : inv s) (es : List ε) :
    (∀ before, before <+: es → P (m.exec s before)) ↔ m.Along ok s es := by
  induction es generalizing s with
  | nil =>
      refine ⟨fun _ => trivial, fun _ before hbefore => ?_⟩
      rw [List.prefix_nil.mp hbefore]
      exact hinv s hs
  | cons e es ih =>
      constructor
      · intro hall
        have hok : ok s e := Classical.byContradiction fun hnot =>
          hbreak s e hs hnot (hall [e] (List.prefix_append [e] es))
        refine ⟨hok, (ih (hstep s e hs hok)).mp fun before hbefore => ?_⟩
        exact hall (e :: before) (List.cons_prefix_cons.mpr ⟨rfl, hbefore⟩)
      · intro ⟨hok, hrest⟩ before hbefore
        cases before with
        | nil => exact hinv s hs
        | cons e' before =>
            obtain ⟨rfl, htail⟩ := List.cons_prefix_cons.mp hbefore
            exact (ih (hstep s _ hs hok)).mpr hrest before htail

/-- The unconditional case: every step preserves the property. -/
theorem exec_preserves {inv : σ → Prop} (hstep : ∀ s e, inv s → inv (m.step s e).2)
    {s : σ} (es : List ε) (hs : inv s) : inv (m.exec s es) := by
  induction es generalizing s with
  | nil => exact hs
  | cons e es ih => exact ih (hstep s e hs)

/-- What steps of a kind leave alone is left alone by a run without such steps. -/
theorem exec_unchanged {α : Type} {p : σ → ε → Prop} {f : σ → α}
    (hstep : ∀ s e, ¬p s e → f (m.step s e).2 = f s)
    {s : σ} {es : List ε} (hnone : m.Along (fun s e => ¬p s e) s es) :
    f (m.exec s es) = f s := by
  induction es generalizing s with
  | nil => rfl
  | cons e es ih => exact (ih hnone.2).trans (hstep s e hnone.1)

/-- A run has no step of a kind, or it has a last one. -/
theorem exists_last (p : σ → ε → Prop) (s : σ) (es : List ε) :
    m.Along (fun s e => ¬p s e) s es ∨
      ∃ before e after, es = before ++ e :: after ∧ p (m.exec s before) e ∧
        m.Along (fun s e => ¬p s e) (m.step (m.exec s before) e).2 after := by
  induction es generalizing s with
  | nil => exact .inl trivial
  | cons e es ih =>
      rcases ih (m.step s e).2 with hnone | ⟨before, e', after, heq, hlast, hnone⟩
      · by_cases hp : p s e
        · exact .inr ⟨[], e, es, rfl, hp, hnone⟩
        · exact .inl ⟨hp, hnone⟩
      · exact .inr ⟨e :: before, e', after, by rw [heq, List.cons_append], hlast, hnone⟩

/-- Two machines in related states that answer every request alike, and stay
related, give the same answers over whole runs and end related. -/
theorem lockstep {τ : Type} {n : Machine τ ε ρ} {ok : σ → ε → Prop} {rel : σ → τ → Prop}
    (hstep : ∀ s t e, rel s t → ok s e →
      (m.step s e).1 = (n.step t e).1 ∧ rel (m.step s e).2 (n.step t e).2)
    {s : σ} {t : τ} {es : List ε} (hrel : rel s t) (hok : m.Along ok s es) :
    m.answers s es = n.answers t es ∧ rel (m.exec s es) (n.exec t es) := by
  induction es generalizing s t with
  | nil => exact ⟨rfl, hrel⟩
  | cons e es ih =>
      obtain ⟨hanswer, hnext⟩ := hstep s t e hrel hok.1
      obtain ⟨htail, hend⟩ := ih hnext hok.2
      exact ⟨by rw [answers, answers, hanswer, htail], hend⟩

/-- Two machines give the same answers over a run just when every request of it meets
the condition under which they answer it alike, and stay related. -/
theorem answers_eq_iff_along {τ : Type} {n : Machine τ ε ρ} {ok : τ → ε → Prop}
    {rel : σ → τ → Prop}
    (hstep : ∀ s t e, rel s t → ((m.step s e).1 = (n.step t e).1 ↔ ok t e) ∧
      (ok t e → rel (m.step s e).2 (n.step t e).2))
    {s : σ} {t : τ} (hrel : rel s t) (es : List ε) :
    m.answers s es = n.answers t es ↔ n.Along ok t es := by
  induction es generalizing s t with
  | nil => exact iff_of_true rfl trivial
  | cons e es ih =>
      obtain ⟨hanswer, hnext⟩ := hstep s t e hrel
      rw [answers, answers, List.cons_eq_cons, Along, hanswer]
      exact and_congr_right fun hok => ih (hnext hok)

/-! ## Cursors -/

section Cursor

variable {α κ : Type}

/-- Starting with a cursor and going on with the one each answer gives, a machine
answers the elements of a list one after the other and then none. -/
def Enumerates (m : Machine σ κ (Option (α × κ))) (s : σ) (k : κ) : List α → Prop
  | [] => (m.step s k).1 = none
  | a :: as => ∃ k', (m.step s k).1 = some (a, k') ∧ m.Enumerates (m.step s k).2 k' as

/-- Machines that answer alike and stay related enumerate the same lists. -/
theorem enumerates_iff {τ : Type} {m : Machine σ κ (Option (α × κ))}
    {n : Machine τ κ (Option (α × κ))} {rel : σ → τ → Prop}
    (hstep : ∀ s t k, rel s t → (m.step s k).1 = (n.step t k).1 ∧ rel (m.step s k).2 (n.step t k).2)
    {s : σ} {t : τ} (hrel : rel s t) (k : κ) (as : List α) :
    m.Enumerates s k as ↔ n.Enumerates t k as := by
  induction as generalizing s t k with
  | nil =>
      unfold Enumerates
      rw [(hstep s t k hrel).1]
  | cons a as ih =>
      unfold Enumerates
      obtain ⟨hanswer, hnext⟩ := hstep s t k hrel
      rw [hanswer]
      exact exists_congr fun k' => and_congr_right fun _ => ih hnext k'

/-- A machine that goes on answering enumerates no list. -/
theorem not_enumerates {m : Machine σ κ (Option (α × κ))} {inv : σ → κ → Prop}
    (hstep : ∀ s k, inv s k → ∃ a k', (m.step s k).1 = some (a, k') ∧ inv (m.step s k).2 k')
    {s : σ} {k : κ} (hinv : inv s k) (as : List α) : ¬m.Enumerates s k as := by
  induction as generalizing s k with
  | nil =>
      obtain ⟨a, k', hanswer, -⟩ := hstep s k hinv
      intro hnone
      unfold Enumerates at hnone
      rw [hanswer] at hnone
      contradiction
  | cons b as ih =>
      obtain ⟨a, k', hanswer, hnext⟩ := hstep s k hinv
      intro ⟨k'', hsome, hrest⟩
      rw [hanswer] at hsome
      obtain ⟨-, rfl⟩ := Prod.mk.inj (Option.some.inj hsome)
      exact ih hnext hrest

end Cursor

end Machine
