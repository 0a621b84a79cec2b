import Mathlib.Data.Multiset.Count
import Mathlib.Data.Multiset.Filter
import Mathlib.Data.Multiset.MapFold
import MarsNwe.Lib.RecordLock

/-! # Tables of locks under names

A table holds the locks of processes under names. It grants a lock that no lock
held under the name excludes, of the same process or of another, and takes back
one lock of a process at a time. A table that renames what it is asked for, several
names to one possibly, answers as if it did not, for as long as it tells apart
what matters.
-/

/-- A lock that a process holds under a name. -/
structure Held (P K : Type) where
  proc : P
  name : K
  kind : LockKind
deriving DecidableEq

/-- What a process asks a table for. -/
inductive LockCall (K : Type) where
  | lock (kind : LockKind) (name : K)
  | unlock (name : K)

inductive LockAnswer where
  | done
  | excluded
  | missing
deriving DecidableEq

/-- The same call for another name. -/
def LockCall.rename {K L : Type} (f : K → L) : LockCall K → LockCall L
  | .lock kind name => .lock kind (f name)
  | .unlock name => .unlock (f name)

/-- The locks that are held, one of them several times possibly. -/
abbrev LockTable (P K : Type) := Multiset (Held P K)

namespace LockTable

variable {P K L : Type} {t : LockTable P K} {p : P} {name : K} {kind : LockKind}

/-- A lock held under the name excludes the wanted one. -/
def Excluded (t : LockTable P K) (name : K) (kind : LockKind) : Prop :=
  ∃ h ∈ t, h.name = name ∧ RecordLock.excludes h.kind kind = true

/-- The process holds a lock under the name. -/
def Holds (t : LockTable P K) (p : P) (name : K) : Prop :=
  ∃ h ∈ t, h.proc = p ∧ h.name = name

/-- The table that holds every lock under the name that stands for its own. -/
def rename (f : K → L) (t : LockTable P K) : LockTable P L :=
  t.map fun h => ⟨h.proc, f h.name, h.kind⟩

theorem rename_cons (f : K → L) (h : Held P K) (t : LockTable P K) :
    rename f (h ::ₘ t) = ⟨h.proc, f h.name, h.kind⟩ ::ₘ rename f t :=
  Multiset.map_cons _ _ _

theorem card_rename (f : K → L) (t : LockTable P K) :
    Multiset.card (rename f t) = Multiset.card t :=
  Multiset.card_map _ _

theorem excluded_rename {f : K → L} {name : L} :
    Excluded (rename f t) name kind ↔
      ∃ h ∈ t, f h.name = name ∧ RecordLock.excludes h.kind kind = true := by
  unfold Excluded rename
  simp only [Multiset.mem_map, exists_exists_and_eq_and]

theorem holds_rename {f : K → L} {name : L} :
    Holds (rename f t) p name ↔ ∃ h ∈ t, h.proc = p ∧ f h.name = name := by
  unfold Holds rename
  simp only [Multiset.mem_map, exists_exists_and_eq_and]

theorem Excluded.rename (h : Excluded t name kind) (f : K → L) :
    Excluded (rename f t) (f name) kind := by
  obtain ⟨g, hg, rfl, hexcl⟩ := h
  exact excluded_rename.mpr ⟨g, hg, rfl, hexcl⟩

theorem Holds.rename (h : Holds t p name) (f : K → L) : Holds (rename f t) p (f name) := by
  obtain ⟨g, hg, hp, rfl⟩ := h
  exact holds_rename.mpr ⟨g, hg, hp, rfl⟩

/-- No lock under another name that is renamed alike decides about the call. -/
def TellsApart (f : K → L) (t : LockTable P K) (p : P) : LockCall K → Prop
  | .lock kind name => Excluded (rename f t) (f name) kind → Excluded t name kind
  | .unlock name => Holds (rename f t) p (f name) → Holds t p name

section Steps

variable [DecidableEq P] [DecidableEq K] [DecidableEq L]

instance : Decidable (Excluded t name kind) :=
  Multiset.decidableExistsMultiset

instance : Decidable (Holds t p name) :=
  Multiset.decidableExistsMultiset

/-- The number of locks that a process holds under a name. -/
def held (t : LockTable P K) (p : P) (name : K) : Nat :=
  t.countP fun h => h.proc = p ∧ h.name = name

/-- A lock of the process under the name is taken back. -/
def release (t : LockTable P K) (p : P) (name : K) : LockTable P K :=
  if ⟨p, name, .write⟩ ∈ t then t.erase ⟨p, name, .write⟩ else t.erase ⟨p, name, .read⟩

/-- A call of a process. -/
def step (t : LockTable P K) (p : P) : LockCall K → LockAnswer × LockTable P K
  | .lock kind name =>
      if Excluded t name kind then (.excluded, t) else (.done, ⟨p, name, kind⟩ ::ₘ t)
  | .unlock name => if Holds t p name then (.done, release t p name) else (.missing, t)

/-! ## Exclusive locks are alone -/

/-- Nothing else is held under the name of an exclusive lock. -/
def Lone (t : LockTable P K) : Prop :=
  ∀ h ∈ t, h.kind = .write → ∀ g ∈ t.erase h, g.name ≠ h.name

theorem Lone.zero : Lone (0 : LockTable P K) := by
  intro h hmem
  exact absurd hmem (Multiset.notMem_zero h)

theorem Lone.erase (hlone : Lone t) (x : Held P K) : Lone (t.erase x) := by
  intro h hmem hwrite g hg
  apply hlone h (Multiset.mem_of_mem_erase hmem) hwrite
  rw [Multiset.erase_comm] at hg
  exact Multiset.mem_of_mem_erase hg

theorem Lone.cons (hlone : Lone t) (hfree : ¬Excluded t name kind) :
    Lone (⟨p, name, kind⟩ ::ₘ t) := by
  intro h hmem hwrite g hg
  by_cases hnew : h = ⟨p, name, kind⟩
  · subst hnew
    rw [Multiset.erase_cons_head] at hg
    intro hname
    refine hfree ⟨g, hg, hname, ?_⟩
    obtain rfl : kind = .write := hwrite
    cases g.kind <;> rfl
  · have hold : h ∈ t := (Multiset.mem_cons.mp hmem).resolve_left hnew
    rw [Multiset.erase_cons_tail t (Ne.symm hnew)] at hg
    rcases Multiset.mem_cons.mp hg with rfl | hg
    · intro hname
      refine hfree ⟨h, hold, hname.symm, ?_⟩
      rw [hwrite]
      rfl
    · exact hlone h hold hwrite g hg

/-- All locks held under the name of an exclusive one are that lock. -/
theorem Lone.eq (hlone : Lone t) {h g : Held P K} (hmem : h ∈ t) (hwrite : h.kind = .write)
    (hg : g ∈ t) (hname : g.name = h.name) : g = h := by
  by_contra hne
  exact hlone h hmem hwrite g ((Multiset.mem_erase_of_ne hne).mpr hg) hname

/-- What is taken back is one lock that the process holds under the name. -/
theorem release_eq (hholds : Holds t p name) :
    ∃ kind, ⟨p, name, kind⟩ ∈ t ∧ release t p name = t.erase ⟨p, name, kind⟩ := by
  unfold LockTable.release
  split
  next hwrite => exact ⟨.write, hwrite, rfl⟩
  next hnot =>
    refine ⟨.read, ?_, rfl⟩
    obtain ⟨⟨_, _, kind⟩, hmem, rfl, rfl⟩ := hholds
    cases kind with
    | read => exact hmem
    | write => exact absurd hmem hnot

theorem Lone.release_eq (hlone : Lone t) (hmem : ⟨p, name, kind⟩ ∈ t) :
    LockTable.release t p name = t.erase ⟨p, name, kind⟩ := by
  unfold LockTable.release
  split
  next hwrite => rw [hlone.eq hwrite rfl hmem rfl]
  next hnot =>
    cases kind with
    | read => rfl
    | write => exact absurd hmem hnot

theorem held_pos : 0 < held t p name ↔ Holds t p name := Multiset.countP_pos

theorem held_eq_zero : held t p name = 0 ↔ ¬Holds t p name := by
  rw [← held_pos, Nat.pos_iff_ne_zero, not_not]

theorem held_cons (h : Held P K) : held (h ::ₘ t) p name =
    held t p name + if h.proc = p ∧ h.name = name then 1 else 0 :=
  Multiset.countP_cons _ _ _

theorem held_erase {h : Held P K} (hmem : h ∈ t) :
    held t p name = held (t.erase h) p name + if h.proc = p ∧ h.name = name then 1 else 0 := by
  rw [← held_cons, Multiset.cons_erase hmem]

/-! ## Renaming -/

/-- The renamed call is answered like the call itself just when the table tells apart
what decides about it. -/
theorem answer_rename_iff {f : K → L} {call : LockCall K} :
    (step (rename f t) p (call.rename f)).1 = (step t p call).1 ↔ TellsApart f t p call := by
  cases call with
  | lock kind name =>
      rw [LockCall.rename, step, step, TellsApart]
      by_cases hexcl : Excluded t name kind
      · rw [if_pos hexcl, if_pos (hexcl.rename f)]
        exact iff_of_true rfl fun _ => hexcl
      · rw [if_neg hexcl]
        by_cases hrenamed : Excluded (rename f t) (f name) kind
        · rw [if_pos hrenamed]
          exact iff_of_false LockAnswer.noConfusion fun h => hexcl (h hrenamed)
        · rw [if_neg hrenamed]
          exact iff_of_true rfl fun h => absurd h hrenamed
  | unlock name =>
      rw [LockCall.rename, step, step, TellsApart]
      by_cases hholds : Holds t p name
      · rw [if_pos hholds, if_pos (hholds.rename f)]
        exact iff_of_true rfl fun _ => hholds
      · rw [if_neg hholds]
        by_cases hrenamed : Holds (rename f t) p (f name)
        · rw [if_pos hrenamed]
          exact iff_of_false LockAnswer.noConfusion fun h => hholds (h hrenamed)
        · rw [if_neg hrenamed]
          exact iff_of_true rfl fun h => absurd h hrenamed

/-- A release takes back the same lock under both names. -/
theorem rename_release {f : K → L} (hlone : Lone (rename f t)) (hholds : Holds t p name) :
    release (rename f t) p (f name) = rename f (release t p name) := by
  obtain ⟨kind, hmem, hrelease⟩ := release_eq hholds
  have hrenamed : ⟨p, f name, kind⟩ ∈ rename f t := Multiset.mem_map_of_mem _ hmem
  rw [hrelease, hlone.release_eq hrenamed]
  exact (Multiset.map_erase_of_mem _ _ hmem).symm

/-- The renamed call leaves the renamed table. -/
theorem step_rename {f : K → L} {call : LockCall K} (hlone : Lone (rename f t))
    (happart : TellsApart f t p call) :
    (step (rename f t) p (call.rename f)).2 = rename f (step t p call).2 := by
  cases call with
  | lock kind name =>
      rw [LockCall.rename, step, step]
      by_cases hexcl : Excluded t name kind
      · rw [if_pos hexcl, if_pos (hexcl.rename f)]
      · rw [if_neg hexcl, if_neg fun h => hexcl (happart h)]
        exact (rename_cons f ⟨p, name, kind⟩ t).symm
  | unlock name =>
      rw [LockCall.rename, step, step]
      by_cases hholds : Holds t p name
      · rw [if_pos hholds, if_pos (hholds.rename f)]
        exact rename_release hlone hholds
      · rw [if_neg hholds, if_neg fun h => hholds (happart h)]

end Steps

end LockTable
