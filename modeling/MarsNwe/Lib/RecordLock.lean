import MarsNwe.Lib.KeyedFile

/-! # Advisory record locks

The locks that processes hold on one byte of a file, as `fcntl` keeps them: each
process holds at most one, which excludes the locks of other processes only. A
process never meets its own lock.
-/

/-- A shared or an exclusive lock. -/
inductive LockKind where
  | read
  | write
deriving DecidableEq

namespace RecordLock

open KeyedFile

variable {F : Type → Type → Type} [KeyedFile F] {P : Type} [DecidableEq P]

/-- Two locks of different processes exclude each other unless both are shared. -/
def excludes : LockKind → LockKind → Bool
  | .read, .read => false
  | _, _ => true

/-- `F_GETLK`: a lock of another process that excludes the wanted one. -/
def getlk (t : F P LockKind) (p : P) (want : LockKind) : Option LockKind :=
  ((walk t).find? fun r => r.1 ≠ p && excludes r.2 want).map Prod.snd

/-- `F_SETLK` with a lock: it takes the place of the one the process holds,
unless a lock of another process excludes it. -/
def setlk (t : F P LockKind) (p : P) (want : LockKind) : F P LockKind :=
  if (getlk t p want).isSome then t else store t p want

/-- `F_SETLK` with `F_UNLCK`. -/
def unlock (t : F P LockKind) (p : P) : F P LockKind := delete t p

theorem getlk_some {t : F P LockKind} {p : P} {want k : LockKind} (h : getlk t p want = some k) :
    ∃ q, q ≠ p ∧ fetch t q = some k ∧ excludes k want = true := by
  obtain ⟨⟨q, k'⟩, hfind, rfl⟩ := Option.map_eq_some_iff.mp h
  obtain ⟨hfetch, htest⟩ := fetch_of_walk_find? hfind
  rw [Bool.and_eq_true] at htest
  exact ⟨q, by simpa using htest.1, hfetch, htest.2⟩

theorem getlk_none {t : F P LockKind} {p : P} {want : LockKind} (h : getlk t p want = none)
    {q : P} (hq : q ≠ p) {k : LockKind} (hk : fetch t q = some k) : excludes k want = false := by
  have hnone := walk_find?_eq_none.mp (Option.map_eq_none_iff.mp h) q k hk
  simpa [hq] using hnone

/-- Asking for an exclusive lock finds out whether another process holds any. -/
theorem getlk_write_isSome {t : F P LockKind} {p : P} :
    (getlk t p .write).isSome = true ↔ ∃ q, q ≠ p ∧ (fetch t q).isSome = true := by
  have hall : ∀ k, excludes k .write = true := by
    intro k
    cases k <;> rfl
  constructor
  · intro h
    obtain ⟨k, hk⟩ := Option.isSome_iff_exists.mp h
    obtain ⟨q, hq, hfetch, -⟩ := getlk_some hk
    exact ⟨q, hq, by rw [hfetch]; rfl⟩
  · rintro ⟨q, hq, hsome⟩
    obtain ⟨k, hk⟩ := Option.isSome_iff_exists.mp hsome
    by_contra hnone
    have hfree := getlk_none (Option.not_isSome_iff_eq_none.mp hnone) hq hk
    rw [hall] at hfree
    contradiction

/-- Setting a lock leaves the locks of other processes alone. -/
theorem fetch_setlk_of_ne {t : F P LockKind} {p q : P} (want : LockKind) (hq : q ≠ p) :
    fetch (setlk t p want) q = fetch t q := by
  unfold setlk
  split
  next => rfl
  next => exact fetch_store_of_ne _ _ hq

/-- Among shared locks a further shared one is granted. -/
theorem setlk_read {t : F P LockKind} (hread : ∀ q k, fetch t q = some k → k = .read) (p : P) :
    setlk t p .read = store t p .read := by
  unfold setlk
  split
  next hsome =>
    obtain ⟨k, hk⟩ := Option.isSome_iff_exists.mp hsome
    obtain ⟨q, -, hfetch, hexcl⟩ := getlk_some hk
    rw [hread q k hfetch] at hexcl
    contradiction
  next => rfl

/-- A lock that nobody excludes is set. -/
theorem setlk_of_free {t : F P LockKind} {p : P} {want : LockKind}
    (hfree : (getlk t p want).isSome = false) : setlk t p want = store t p want := by
  rw [setlk, hfree]
  rfl

/-- The lock of a process is not in its own way. -/
theorem getlk_store_self {t : F P LockKind} {p : P} {want : LockKind} (kind : LockKind)
    (hfree : (getlk t p want).isSome = false) : (getlk (store t p kind) p want).isSome = false := by
  have hnone := Option.not_isSome_iff_eq_none.mp (Bool.eq_false_iff.mp hfree)
  apply Bool.eq_false_iff.mpr
  intro hsome
  obtain ⟨k, hk⟩ := Option.isSome_iff_exists.mp hsome
  obtain ⟨q, hq, hfetch, hexcl⟩ := getlk_some hk
  rw [fetch_store_of_ne _ _ hq] at hfetch
  rw [getlk_none hnone hq hfetch] at hexcl
  contradiction

end RecordLock
