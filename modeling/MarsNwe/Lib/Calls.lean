/-! # Programs that call a kernel

A program is done with a value, or it makes a call and goes on with the answer.
What a call does is not part of the program: a kernel says which answers a call
may get and how its own state may change. One program can so be read over several
kernels, each telling what one kind of question needs.
-/

/-- A program with calls `C` that are answered in `R`. -/
inductive Prog (C : Type) (R : C → Type) (α : Type) where
  | done (a : α)
  | call (c : C) (next : R c → Prog C R α)

/-- The answer that a call may get in a state, and the state after it. -/
abbrev Kernel (C : Type) (R : C → Type) (κ : Type) := κ → (c : C) → R c → κ → Prop

namespace Prog

variable {C : Type} {R : C → Type} {κ α β γ : Type}

def bind : Prog C R α → (α → Prog C R β) → Prog C R β
  | done a, f => f a
  | call c next, f => call c fun r => bind (next r) f

instance : Monad (Prog C R) where
  pure := done
  bind := bind

/-- The program that makes one call. -/
def ask (c : C) : Prog C R (R c) := call c done

@[simp] theorem pure_eq (a : α) : (pure a : Prog C R α) = done a := rfl

@[simp] theorem done_bind (a : α) (f : α → Prog C R β) : done a >>= f = f a := rfl

@[simp] theorem call_bind (c : C) (next : R c → Prog C R α) (f : α → Prog C R β) :
    call c next >>= f = call c fun r => next r >>= f := rfl

@[simp] theorem ask_bind (c : C) (f : R c → Prog C R α) : ask c >>= f = call c f := rfl

/-! ## What a program does over a kernel -/

variable {K K' : Kernel C R κ} {k : κ} {Q Q' : α → κ → Prop}

/-- Whatever the kernel answers, the value and the last state satisfy `Q`. -/
def Ensures (K : Kernel C R κ) (k : κ) : Prog C R α → (α → κ → Prop) → Prop
  | done a, Q => Q a k
  | call c next, Q => ∀ r k', K k c r k' → Ensures K k' (next r) Q

/-- With some answers of the kernel the program ends with a value in a state. -/
def Yields (K : Kernel C R κ) (k : κ) : Prog C R α → α → κ → Prop
  | done a, a', k' => a = a' ∧ k = k'
  | call c next, a', k'' => ∃ r k', K k c r k' ∧ Yields K k' (next r) a' k''

theorem ensures_iff {m : Prog C R α} :
    Ensures K k m Q ↔ ∀ a k', Yields K k m a k' → Q a k' := by
  induction m generalizing k with
  | done a =>
      refine ⟨fun h => ?_, fun h => h a k ⟨rfl, rfl⟩⟩
      rintro _ _ ⟨rfl, rfl⟩
      exact h
  | call c next ih =>
      constructor
      · rintro h a k'' ⟨r, k', hstep, hrest⟩
        exact (ih r).mp (h r k' hstep) a k'' hrest
      · intro h r k' hstep
        exact (ih r).mpr fun a k'' hrest => h a k'' ⟨r, k', hstep, hrest⟩

theorem yields_bind {m : Prog C R α} {f : α → Prog C R β} {b : β} {k'' : κ} :
    Yields K k (m >>= f) b k'' ↔ ∃ a k', Yields K k m a k' ∧ Yields K k' (f a) b k'' := by
  induction m generalizing k with
  | done a =>
      refine ⟨fun h => ⟨a, k, ⟨rfl, rfl⟩, h⟩, ?_⟩
      rintro ⟨_, _, ⟨rfl, rfl⟩, hf⟩
      exact hf
  | call c next ih =>
      constructor
      · rintro ⟨r, k₁, hstep, hrest⟩
        obtain ⟨a, k', hm, hf⟩ := (ih r).mp hrest
        exact ⟨a, k', ⟨r, k₁, hstep, hm⟩, hf⟩
      · rintro ⟨a, k', ⟨r, k₁, hstep, hm⟩, hf⟩
        exact ⟨r, k₁, hstep, (ih r).mpr ⟨a, k', hm, hf⟩⟩

theorem Yields.bind {m : Prog C R α} {f : α → Prog C R β} {a : α} {b : β} {k' k'' : κ}
    (hm : Yields K k m a k') (hf : Yields K k' (f a) b k'') : Yields K k (m >>= f) b k'' :=
  yields_bind.mpr ⟨a, k', hm, hf⟩

/-- A program that ends in one way only. -/
theorem yields_bind_of {m : Prog C R α} {f : α → Prog C R β} {b : β} {a₀ : α} {k₀ k'' : κ}
    (hm : ∀ a k', Yields K k m a k' ↔ a₀ = a ∧ k₀ = k') :
    Yields K k (m >>= f) b k'' ↔ Yields K k₀ (f a₀) b k'' := by
  rw [yields_bind]
  constructor
  · rintro ⟨a, k', hyields, hrest⟩
    obtain ⟨rfl, rfl⟩ := (hm a k').mp hyields
    exact hrest
  · exact fun hrest => ⟨a₀, k₀, (hm a₀ k₀).mpr ⟨rfl, rfl⟩, hrest⟩

/-- A call that has only one answer. -/
theorem yields_ask_bind {c : C} {a : R c} {k₁ k'' : κ} {f : R c → Prog C R β} {b : β}
    (hK : ∀ r k', K k c r k' ↔ r = a ∧ k' = k₁) :
    Yields K k (ask c >>= f) b k'' ↔ Yields K k₁ (f a) b k'' := by
  constructor
  · rintro ⟨r, k', hstep, hrest⟩
    obtain ⟨rfl, rfl⟩ := (hK r k').mp hstep
    exact hrest
  · exact fun hrest => ⟨a, k₁, (hK a k₁).mpr ⟨rfl, rfl⟩, hrest⟩

/-- The program over a kernel that is a function. -/
def exec (h : κ → (c : C) → R c × κ) (k : κ) : Prog C R α → α × κ
  | done a => (a, k)
  | call c next => exec h (h k c).2 (next (h k c).1)

theorem exec_bind (h : κ → (c : C) → R c × κ) (m : Prog C R α) (f : α → Prog C R β) (k : κ) :
    exec h k (m >>= f) = exec h (exec h k m).2 (f (exec h k m).1) := by
  induction m generalizing k with
  | done a => rfl
  | call c next ih => exact ih _ _

theorem yields_exec {h : κ → (c : C) → R c × κ} (hK : ∀ k c, K k c (h k c).1 (h k c).2)
    (m : Prog C R α) (k : κ) : Yields K k m (exec h k m).1 (exec h k m).2 := by
  induction m generalizing k with
  | done a => exact ⟨rfl, rfl⟩
  | call c next ih => exact ⟨_, _, hK k c, ih _ _⟩

@[simp] theorem ensures_done (a : α) : Ensures K k (done a) Q ↔ Q a k := Iff.rfl

@[simp] theorem ensures_call (c : C) (next : R c → Prog C R α) :
    Ensures K k (call c next) Q ↔ ∀ r k', K k c r k' → Ensures K k' (next r) Q := Iff.rfl

@[simp] theorem ensures_ask (c : C) (Q : R c → κ → Prop) :
    Ensures K k (ask c) Q ↔ ∀ r k', K k c r k' → Q r k' := Iff.rfl

@[simp] theorem ensures_bind {m : Prog C R α} {f : α → Prog C R β} {P : β → κ → Prop} :
    Ensures K k (m >>= f) P ↔ Ensures K k m fun a k' => Ensures K k' (f a) P := by
  induction m generalizing k with
  | done a => exact Iff.rfl
  | call c next ih => exact forall_congr' fun r => forall_congr' fun k' => imp_congr_right fun _ => ih r

theorem ensures_ask_bind {c : C} {f : R c → Prog C R β} {P : β → κ → Prop} :
    Ensures K k (ask c >>= f) P ↔ ∀ r k', K k c r k' → Ensures K k' (f r) P := Iff.rfl

theorem Ensures.mono {m : Prog C R α} (h : Ensures K k m Q) (hQ : ∀ a k', Q a k' → Q' a k') :
    Ensures K k m Q' :=
  ensures_iff.mpr fun a k' hy => hQ a k' (ensures_iff.mp h a k' hy)

theorem ensures_trivial (m : Prog C R α) : Ensures K k m fun _ _ => True :=
  ensures_iff.mpr fun _ _ _ => trivial

/-- A kernel with fewer behaviours. -/
theorem Ensures.of_kernel {m : Prog C R α} (h : Ensures K k m Q)
    (hK : ∀ k c r k', K' k c r k' → K k c r k') : Ensures K' k m Q := by
  induction m generalizing k with
  | done a => exact h
  | call c next ih => exact fun r k' hstep => ih r (h r k' (hK k c r k' hstep))

theorem Ensures.ite {c : Prop} [Decidable c] {m m' : Prog C R α} (ht : c → Ensures K k m Q)
    (he : ¬c → Ensures K k m' Q) : Ensures K k (if c then m else m') Q := by
  split
  next hc => exact ht hc
  next hc => exact he hc

/-- Every call that is made satisfies `ok` in the state it is made in. -/
def Guards (K : Kernel C R κ) (ok : κ → C → Prop) (k : κ) : Prog C R α → Prop
  | done _ => True
  | call c next => ok k c ∧ ∀ r k', K k c r k' → Guards K ok k' (next r)

variable {ok : κ → C → Prop}

@[simp] theorem guards_done (a : α) : Guards K ok k (done a : Prog C R α) := trivial

@[simp] theorem guards_call (c : C) (next : R c → Prog C R α) :
    Guards K ok k (call c next) ↔ ok k c ∧ ∀ r k', K k c r k' → Guards K ok k' (next r) := Iff.rfl

@[simp] theorem guards_ask (c : C) : Guards K ok k (ask c : Prog C R (R c)) ↔ ok k c :=
  and_iff_left fun _ _ _ => trivial

@[simp] theorem guards_bind {m : Prog C R α} {f : α → Prog C R β} :
    Guards K ok k (m >>= f) ↔
      Guards K ok k m ∧ Ensures K k m fun a k' => Guards K ok k' (f a) := by
  induction m generalizing k with
  | done a => exact (Iff.of_eq (true_and _)).symm
  | call c next ih =>
      constructor
      · intro ⟨hc, hrest⟩
        exact ⟨⟨hc, fun r k' hstep => ((ih r).mp (hrest r k' hstep)).1⟩,
          fun r k' hstep => ((ih r).mp (hrest r k' hstep)).2⟩
      · intro ⟨⟨hc, hm⟩, hf⟩
        exact ⟨hc, fun r k' hstep => (ih r).mpr ⟨hm r k' hstep, hf r k' hstep⟩⟩

/-! ## What a program does over every kernel -/

/-- The kernel that answers anything. -/
def anyKernel : Kernel C R Unit := fun _ _ _ _ => True

/-- All calls that a program can make satisfy `p`. -/
def Calls (p : C → Prop) : Prog C R α → Prop
  | done _ => True
  | call c next => p c ∧ ∀ r, Calls p (next r)

/-- All values that a program can end with satisfy `P`. -/
def Returns (P : α → Prop) : Prog C R α → Prop
  | done a => P a
  | call _ next => ∀ r, Returns P (next r)

variable {p p' : C → Prop} {P P' : α → Prop}

@[simp] theorem calls_done (a : α) : Calls p (done a : Prog C R α) := trivial

@[simp] theorem calls_call (c : C) (next : R c → Prog C R α) :
    Calls p (call c next) ↔ p c ∧ ∀ r, Calls p (next r) := Iff.rfl

@[simp] theorem calls_ask (c : C) : Calls p (ask c : Prog C R (R c)) ↔ p c :=
  and_iff_left fun _ => trivial

theorem calls_ask_bind {c : C} {f : R c → Prog C R β} :
    Calls p (ask c >>= f) ↔ p c ∧ ∀ r, Calls p (f r) := Iff.rfl

@[simp] theorem returns_done (a : α) : Returns P (done a : Prog C R α) ↔ P a := Iff.rfl

@[simp] theorem returns_call (c : C) (next : R c → Prog C R α) :
    Returns P (call c next) ↔ ∀ r, Returns P (next r) := Iff.rfl

@[simp] theorem returns_ask (c : C) (P : R c → Prop) :
    Returns P (ask c : Prog C R (R c)) ↔ ∀ r, P r := Iff.rfl

@[simp] theorem returns_bind {m : Prog C R α} {f : α → Prog C R β} {S : β → Prop} :
    Returns S (m >>= f) ↔ Returns (fun a => Returns S (f a)) m := by
  induction m with
  | done a => exact Iff.rfl
  | call c next ih => exact forall_congr' ih

theorem returns_ask_bind {c : C} {f : R c → Prog C R β} {S : β → Prop} :
    Returns S (ask c >>= f) ↔ ∀ r, Returns S (f r) := Iff.rfl

theorem Returns.mono {m : Prog C R α} (h : Returns P m) (hP : ∀ a, P a → P' a) : Returns P' m := by
  induction m with
  | done a => exact hP a h
  | call c next ih => exact fun r => ih r (h r)

theorem Returns.ite {c : Prop} [Decidable c] {m m' : Prog C R α} (ht : c → Returns P m)
    (he : ¬c → Returns P m') : Returns P (if c then m else m') := by
  split
  next hc => exact ht hc
  next hc => exact he hc

theorem Returns.trivial (m : Prog C R α) : Returns (fun _ => True) m := by
  induction m with
  | done a => exact True.intro
  | call c next ih => exact ih

theorem ensures_anyKernel {m : Prog C R α} :
    Ensures anyKernel () m (fun a _ => P a) ↔ Returns P m := by
  induction m with
  | done a => exact Iff.rfl
  | call c next ih => exact ⟨fun h r => (ih r).mp (h r () trivial), fun h r _ _ => (ih r).mpr (h r)⟩

theorem Returns.of_yields {m : Prog C R α} (h : Returns P m) {a : α} {k' : κ}
    (hy : Yields K k m a k') : P a := by
  induction m generalizing k with
  | done b => exact hy.1 ▸ h
  | call c next ih =>
      obtain ⟨r, k₁, -, hrest⟩ := hy
      exact ih r (h r) hrest

theorem Returns.exec {m : Prog C R α} (hm : Returns P m) (h : κ → (c : C) → R c × κ) (k : κ) :
    P (exec h k m).1 := by
  induction m generalizing k with
  | done a => exact hm
  | call c next ih => exact ih _ (hm _) _

theorem Calls.mono {m : Prog C R α} (h : Calls p m) (hp : ∀ c, p c → p' c) : Calls p' m := by
  induction m with
  | done a => trivial
  | call c next ih => exact ⟨hp c h.1, fun r => ih r (h.2 r)⟩

theorem Calls.bind {m : Prog C R α} {f : α → Prog C R β} (hm : Calls p m) (hP : Returns P m)
    (hf : ∀ a, P a → Calls p (f a)) : Calls p (m >>= f) := by
  induction m with
  | done a => exact hf a hP
  | call c next ih => exact ⟨hm.1, fun r => ih r (hm.2 r) (hP r)⟩

theorem Calls.bind' {m : Prog C R α} {f : α → Prog C R β} (hm : Calls p m)
    (hf : ∀ a, Calls p (f a)) : Calls p (m >>= f) :=
  hm.bind (Returns.trivial m) fun a _ => hf a

theorem guards_of_calls {ok : κ → C → Prop} (hok : ∀ k c, p c → ok k c) {m : Prog C R α}
    (hcalls : Calls p m) : Guards K ok k m := by
  induction m generalizing k with
  | done a => trivial
  | call c next ih => exact ⟨hok k c hcalls.1, fun r k' _ => ih r (hcalls.2 r)⟩

/-- A program that makes only calls preserving `I` preserves `I`. -/
theorem ensures_of_calls {I : κ → Prop} (hstep : ∀ k c r k', I k → p c → K k c r k' → I k')
    {m : Prog C R α} (hcalls : Calls p m) (hreturns : Returns P m) (hk : I k) :
    Ensures K k m fun a k' => P a ∧ I k' := by
  induction m generalizing k with
  | done a => exact ⟨hreturns, hk⟩
  | call c next ih =>
      exact fun r k' hcall => ih r (hcalls.2 r) (hreturns r) (hstep k c r k' hk hcalls.1 hcall)

/-- A program that makes only calls leaving the state alone leaves it alone. -/
theorem ensures_of_quiet (hquiet : ∀ k c r k', p c → K k c r k' → k' = k) {m : Prog C R α}
    (hcalls : Calls p m) (hreturns : Returns P m) : Ensures K k m fun a k' => P a ∧ k' = k :=
  ensures_of_calls (fun k₁ c r k₂ h hp hcall => (hquiet k₁ c r k₂ hp hcall).trans h)
    hcalls hreturns rfl

end Prog

/-! ## Sessions -/

/-- A process that answers requests `ε` by `ρ` and keeps a memory `σ` of its own. -/
structure Session (C : Type) (R : C → Type) (σ ε ρ : Type) where
  handle : σ → ε → Prog C R (ρ × σ)

namespace Session

variable {C : Type} {R : C → Type} {σ ε ρ κ : Type} (m : Session C R σ ε ρ)

/-- A run: the requests one after the other, the kernel answering the calls of
each request as it may. -/
inductive Run (K : ε → Kernel C R κ) : σ → κ → List (ε × ρ) → σ → κ → Prop
  | nil (s : σ) (k : κ) : Run K s k [] s k
  | cons {s s' s'' : σ} {k k' k'' : κ} {e : ε} {a : ρ} {es : List (ε × ρ)}
      (hhead : Prog.Yields (K e) k (m.handle s e) (a, s') k') (htail : Run K s' k' es s'' k'') :
      Run K s k ((e, a) :: es) s'' k''

variable {m} {K : ε → Kernel C R κ}

/-- What every request preserves holds at the end of every run. -/
theorem Run.invariant {I : σ → κ → Prop}
    (hstep : ∀ s k e, I s k → Prog.Ensures (K e) k (m.handle s e) fun a k' => I a.2 k')
    {s s' : σ} {k k' : κ} {es : List (ε × ρ)} (h : m.Run K s k es s' k') (hstart : I s k) :
    I s' k' := by
  induction h with
  | nil s k => exact hstart
  | cons hhead _ ih => exact ih (Prog.ensures_iff.mp (hstep _ _ _ hstart) _ _ hhead)

theorem Run.append {s s' s'' : σ} {k k' k'' : κ} {es es' : List (ε × ρ)}
    (h : m.Run K s k es s' k') (h' : m.Run K s' k' es' s'' k'') :
    m.Run K s k (es ++ es') s'' k'' := by
  induction h with
  | nil s k => exact h'
  | cons hhead _ ih => exact .cons hhead (ih h')

/-- A run whose requests all meet a condition in the state they are made in. -/
inductive RunAlong (m : Session C R σ ε ρ) (K : ε → Kernel C R κ) (ok : σ → ε → Prop) :
    σ → κ → List (ε × ρ) → σ → κ → Prop
  | nil (s : σ) (k : κ) : RunAlong m K ok s k [] s k
  | cons {s s' s'' : σ} {k k' k'' : κ} {e : ε} {a : ρ} {es : List (ε × ρ)} (hok : ok s e)
      (hhead : Prog.Yields (K e) k (m.handle s e) (a, s') k')
      (htail : RunAlong m K ok s' k' es s'' k'') : RunAlong m K ok s k ((e, a) :: es) s'' k''

/-- What the requests that meet the condition preserve holds at the end of the run, and all
their answers have what they have from such states. -/
theorem RunAlong.answers {ok : σ → ε → Prop} {I : σ → Prop} {Q : ρ → Prop}
    (hstep : ∀ s e, I s → ok s e → Prog.Returns (fun out => Q out.1 ∧ I out.2) (m.handle s e))
    {s s' : σ} {k k' : κ} {es : List (ε × ρ)} (h : m.RunAlong K ok s k es s' k') (hstart : I s) :
    (∀ p ∈ es, Q p.2) ∧ I s' := by
  induction h with
  | nil s k => exact ⟨fun p hp => absurd hp List.not_mem_nil, hstart⟩
  | cons hok hhead _ ih =>
      obtain ⟨hanswer, hnext⟩ := (hstep _ _ hstart hok).of_yields hhead
      obtain ⟨htail, hend⟩ := ih hnext
      exact ⟨List.forall_mem_cons.mpr ⟨hanswer, htail⟩, hend⟩

/-- The run of requests over a kernel that is a function. -/
def execRun (m : Session C R σ ε ρ) (h : κ → (c : C) → R c × κ) (s : σ) (k : κ) :
    List ε → List (ε × ρ) × σ × κ
  | [] => ([], s, k)
  | e :: es =>
      let first := Prog.exec h k (m.handle s e)
      let rest := execRun m h first.1.2 first.2 es
      ((e, first.1.1) :: rest.1, rest.2)

theorem run_execRun {h : κ → (c : C) → R c × κ} (hK : ∀ e k c, K e k c (h k c).1 (h k c).2)
    (s : σ) (k : κ) (es : List ε) :
    m.Run K s k (m.execRun h s k es).1 (m.execRun h s k es).2.1 (m.execRun h s k es).2.2 := by
  induction es generalizing s k with
  | nil => exact .nil s k
  | cons e es ih => exact .cons (Prog.yields_exec (hK e) _ _) (ih _ _)

/-- The requests of such a run all meet a condition in the state they are made in. -/
def ExecAlong (m : Session C R σ ε ρ) (h : κ → (c : C) → R c × κ) (ok : σ → ε → Prop) (s : σ)
    (k : κ) : List ε → Prop
  | [] => True
  | e :: es =>
      ok s e ∧ ExecAlong m h ok (Prog.exec h k (m.handle s e)).1.2
        (Prog.exec h k (m.handle s e)).2 es

theorem runAlong_execRun {h : κ → (c : C) → R c × κ}
    (hK : ∀ e k c, K e k c (h k c).1 (h k c).2) {ok : σ → ε → Prop} {s : σ} {k : κ} {es : List ε}
    (hok : m.ExecAlong h ok s k es) :
    m.RunAlong K ok s k (m.execRun h s k es).1 (m.execRun h s k es).2.1
      (m.execRun h s k es).2.2 := by
  induction es generalizing s k with
  | nil => exact .nil s k
  | cons e es ih => exact .cons hok.1 (Prog.yields_exec (hK e) _ _) (ih hok.2)

end Session
