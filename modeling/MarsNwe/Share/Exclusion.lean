import Mathlib.Data.List.Count
import MarsNwe.Share.ShareFile

/-! # Exclusion of open modes

At every moment the locks on the lock files show exactly which processes have
counters above zero, and the counters count the live registrations. A test that
joins the own counters with the locks of the others therefore sees every
registration, and no two that exclude each other are ever live together. Where
the inode number is no offset every probe meets a lock: no counter is ever
incremented there.
-/

namespace MarsNwe

open KeyedFile RecordLock

variable {F : Type → Type → Type} [KeyedFile F] {P : Type} [DecidableEq P]

/-! ## Counters and locks -/

/-- The counters of a process, all zero where it has allocated none. -/
def ShareTable.held (t : ShareTable F P) (p : P) : ShareINode := (t.inode p).getD .new

/-- The lock that shows a counter on a lock file other than `fd_fl`. -/
def shownLock : Nat → Option LockKind
  | 0 => none
  | _ + 1 => some .read

theorem shownLock_pos {n : Nat} (hpos : 0 < n) : shownLock n = some .read := by
  cases n with
  | zero => contradiction
  | succ n => rfl

/-- The locks show the counters: on each lock file but `fd_fl` the processes with
a counter above zero hold shared locks and no one else holds any. -/
structure Shown (ino : Int32) (locks : ShareFd → F P LockKind) (held : P → ShareINode) :
    Prop where
  opened : ∀ k p, k ≠ .fdFl → fetch (locks k) p = shownLock ((held p).count k)
  fileLock : ∀ p, (held p).count .fdFl = 0 → fetch (locks .fdFl) p = none
  exclusive : ∀ p, (held p).count .fdFl = 0 → (held p).ex = 0
  idle : ino < 0 → ∀ p k, (held p).count k = 0

theorem ShareINode.unused_iff {si : ShareINode} : si.unused = true ↔ ∀ k, si.count k = 0 := by
  simp only [ShareINode.unused, Bool.and_eq_true, beq_iff_eq]
  constructor
  · intro ⟨⟨⟨⟨hor, how⟩, hdr⟩, hdw⟩, hfl⟩ k
    cases k <;> assumption
  · intro hzero
    exact ⟨⟨⟨⟨hzero _, hzero _⟩, hzero _⟩, hzero _⟩, hzero _⟩

namespace Shown

variable {ino : Int32} {locks : ShareFd → F P LockKind} {held : P → ShareINode}

/-- Without counters there are no locks. -/
theorem fetch_eq_none (h : Shown ino locks held) {p : P} {k : ShareFd}
    (hzero : (held p).count k = 0) : fetch (locks k) p = none := by
  by_cases hk : k = .fdFl
  · subst hk
    exact h.fileLock p hzero
  · rw [h.opened k p hk, hzero, shownLock]

/-- A lock of a process comes with a counter above zero. -/
theorem count_pos (h : Shown ino locks held) {p : P} {k : ShareFd}
    (hsome : (fetch (locks k) p).isSome = true) : 0 < (held p).count k := by
  by_contra hnot
  rw [h.fetch_eq_none (Nat.eq_zero_of_not_pos hnot)] at hsome
  contradiction

/-- On all lock files but `fd_fl` the locks are shared. -/
theorem eq_read (h : Shown ino locks held) {k : ShareFd} (hk : k ≠ .fdFl) {p : P} {l : LockKind}
    (hfetch : fetch (locks k) p = some l) : l = .read := by
  have hpos := h.count_pos (by rw [hfetch]; rfl)
  rw [h.opened k p hk, shownLock_pos hpos] at hfetch
  exact (Option.some.inj hfetch).symm

/-- An unused inode is a new one. -/
theorem eq_new (h : Shown ino locks held) {p : P} (hunused : (held p).unused = true) :
    held p = .new := by
  have hzero := ShareINode.unused_iff.mp hunused
  have hex := h.exclusive p (hzero _)
  have hcount : (held p).count = fun _ => 0 := funext hzero
  rw [ShareINode.new, ← hcount, ← hex]

/-- Only what a fetch sees of the locks matters. -/
theorem congr {locks' : ShareFd → F P LockKind} (h : Shown ino locks held)
    (hfetch : ∀ k p, fetch (locks' k) p = fetch (locks k) p) : Shown ino locks' held where
  opened k p hk := by rw [hfetch, h.opened k p hk]
  fileLock p hzero := by rw [hfetch, h.fileLock p hzero]
  exclusive := h.exclusive
  idle := h.idle

/-- When one process changes its counters and its own locks, only that process
has to be looked at. -/
theorem update {locks' : ShareFd → F P LockKind} (h : Shown ino locks held) {p : P} {si : ShareINode}
    (hother : ∀ k q, q ≠ p → fetch (locks' k) q = fetch (locks k) q)
    (hopened : ∀ k, k ≠ .fdFl → fetch (locks' k) p = shownLock (si.count k))
    (hfile : si.count .fdFl = 0 → fetch (locks' .fdFl) p = none ∧ si.ex = 0)
    (hidle : ino < 0 → ∀ k, si.count k = 0) :
    Shown ino locks' (Function.update held p si) := by
  constructor
  · intro k q hk
    by_cases hq : q = p
    · rw [hq, Function.update_self, hopened k hk]
    · rw [Function.update_of_ne hq, hother k q hq, h.opened k q hk]
  · intro q hzero
    by_cases hq : q = p
    · rw [hq, Function.update_self] at hzero
      rw [hq, (hfile hzero).1]
    · rw [Function.update_of_ne hq] at hzero
      rw [hother _ q hq, h.fileLock q hzero]
  · intro q hzero
    by_cases hq : q = p
    · rw [hq, Function.update_self] at hzero ⊢
      exact (hfile hzero).2
    · rw [Function.update_of_ne hq] at hzero ⊢
      exact h.exclusive q hzero
  · intro hino q k
    by_cases hq : q = p
    · rw [hq, Function.update_self, hidle hino]
    · rw [Function.update_of_ne hq, h.idle hino]

end Shown

/-- A table of an inode whose processes have the given counters and whose lock
files hold the given locks. -/
structure ShareTable.Shows (t : ShareTable F P) (ino : Int32) (held : P → ShareINode)
    (locks : ShareFd → F P LockKind) : Prop where
  number : t.ino = ino
  counters : t.held = held
  fetch_locks : ∀ k q, fetch (t.locks k) q = fetch (locks k) q

theorem ShareTable.Shows.shown {t : ShareTable F P} {ino : Int32} {held : P → ShareINode}
    {locks : ShareFd → F P LockKind} (h : t.Shows ino held locks) (hshown : Shown ino locks held) :
    Shown t.ino t.locks t.held := by
  rw [h.number, h.counters]
  exact hshown.congr h.fetch_locks

theorem ino_shareRelease (t : ShareTable F P) (p : P) (last : Bool)
    (w : ShareINode × (ShareFd → F P LockKind)) : (shareRelease t p last w).ino = t.ino := by
  unfold shareRelease
  split <;> rfl

theorem held_shareRelease {t : ShareTable F P} {p : P} {last : Bool}
    {w : ShareINode × (ShareFd → F P LockKind)} (h : Shown t.ino w.2 (Function.update t.held p w.1)) :
    (shareRelease t p last w).held = Function.update t.held p w.1 := by
  funext q
  unfold shareRelease
  by_cases hq : q = p
  · subst hq
    split
    next hunused =>
      have hnew := h.eq_new (p := q) (by rwa [Function.update_self])
      rw [hnew]
      simp [ShareTable.held]
    next => simp [ShareTable.held]
  · split <;> simp [ShareTable.held, hq]

/-- Closing the lock files of a device drops no lock that shows a counter. -/
theorem fetch_shareRelease {t : ShareTable F P} {p : P} {last : Bool}
    {w : ShareINode × (ShareFd → F P LockKind)} (h : Shown t.ino w.2 (Function.update t.held p w.1))
    (k : ShareFd) (q : P) :
    fetch ((shareRelease t p last w).locks k) q = fetch (w.2 k) q := by
  unfold shareRelease
  split
  next hunused =>
    cases last with
    | false => rfl
    | true =>
        change fetch (delete (w.2 k) p) q = _
        by_cases hq : q = p
        · subst hq
          have hzero : (Function.update t.held q w.1 q).count k = 0 := by
            rw [Function.update_self]
            exact ShareINode.unused_iff.mp hunused k
          rw [fetch_delete_self, h.fetch_eq_none hzero]
        · exact fetch_delete_of_ne _ hq
  next => rfl

/-- Releasing an inode changes neither a counter nor what shows it. -/
theorem Shown.release {t : ShareTable F P} {p : P} (last : Bool)
    {w : ShareINode × (ShareFd → F P LockKind)} (h : Shown t.ino w.2 (Function.update t.held p w.1)) :
    (shareRelease t p last w).Shows t.ino (Function.update t.held p w.1) w.2 :=
  ⟨ino_shareRelease t p last w, held_shareRelease h, fetch_shareRelease h⟩

/-! ## Adding and removing -/

theorem shareLock_eq_read {mode : UInt32} {k : ShareFd} (hk : k ≠ .fdFl) :
    shareLock mode k = .read := by
  rw [shareLock, if_neg fun h => hk h.1]

theorem fetch_lockByte_of_ne {t : ShareTable F P} {p q : P} (k : ShareFd) (want : LockKind)
    (hq : q ≠ p) : fetch (lockByte t p k want) q = fetch (t.locks k) q := by
  unfold lockByte
  split
  next => rfl
  next => exact fetch_setlk_of_ne _ hq

theorem fetch_unlockByte_of_ne {t : ShareTable F P} {p q : P} (k : ShareFd) (hq : q ≠ p) :
    fetch (unlockByte t p k) q = fetch (t.locks k) q := by
  unfold unlockByte
  split
  next => rfl
  next => exact fetch_delete_of_ne _ hq

/-- A counter above zero means that `fcntl` takes the inode number for an offset. -/
theorem Shown.not_neg {t : ShareTable F P} (h : Shown t.ino t.locks t.held) {p : P} {k : ShareFd}
    (hcount : (t.held p).count k ≠ 0) : ¬t.ino < 0 :=
  fun hino => hcount (h.idle hino p k)

/-- After an add the locks show the new counters. -/
theorem Shown.add {t : ShareTable F P} (h : Shown t.ino t.locks t.held) (p : P) (mode : UInt32)
    (hidle : t.ino < 0 → ∀ k : ShareFd, wants mode k.bit = false) :
    Shown t.ino (shareAdd t p (t.held p) mode).2
      (Function.update t.held p (shareAdd t p (t.held p) mode).1) := by
  apply h.update
  · intro k q hq
    simp only [shareAdd]
    split
    next => exact fetch_lockByte_of_ne k _ hq
    next => rfl
  · intro k hk
    simp only [shareAdd]
    cases hwants : wants mode k.bit with
    | false => exact h.opened k p hk
    | true =>
        have hino : ¬t.ino < 0 := fun hino => by
          rw [hidle hino k] at hwants
          contradiction
        by_cases hzero : (t.held p).count k = 0
        · simp [hzero, lockByte, hino, shareLock_eq_read hk, setlk_read fun q l => h.eq_read hk,
            shownLock]
        · have hpos := shownLock_pos (Nat.pos_of_ne_zero hzero)
          simp [hzero, h.opened k p hk, hpos, shownLock_pos]
  · intro hzero
    simp only [shareAdd] at hzero ⊢
    cases hwants : wants mode ShareFd.fdFl.bit with
    | false =>
        have hbit : wants mode 0x100 = false := hwants
        simp only [hwants, Bool.false_eq_true, if_false] at hzero
        simp [hbit, h.fileLock p hzero, h.exclusive p hzero]
    | true => simp [hwants] at hzero
  · intro hino k
    simp only [shareAdd, hidle hino k, Bool.false_eq_true, if_false]
    exact h.idle hino p k

/-- After a removal the locks show the new counters. -/
theorem Shown.remove {t : ShareTable F P} (h : Shown t.ino t.locks t.held) (p : P) (mode : UInt32) :
    Shown t.ino (shareRemove t p (t.held p) mode).2
      (Function.update t.held p (shareRemove t p (t.held p) mode).1) := by
  apply h.update
  · intro k q hq
    simp only [shareRemove]
    split
    next => exact fetch_unlockByte_of_ne k hq
    next => rfl
  · intro k hk
    simp only [shareRemove]
    cases hwants : wants mode k.bit with
    | false => exact h.opened k p hk
    | true =>
        by_cases hone : (t.held p).count k = 1
        · have hino := h.not_neg (p := p) (k := k) (by omega)
          simp [hone, unlockByte, hino, unlock, shownLock]
        · have hsame : shownLock ((t.held p).count k) = shownLock ((t.held p).count k - 1) := by
            by_cases hzero : (t.held p).count k = 0
            · rw [hzero]
            · rw [shownLock_pos (by omega), shownLock_pos (by omega)]
          simp [hone, h.opened k p hk, hsame]
  · intro hzero
    simp only [shareRemove] at hzero ⊢
    cases hwants : wants mode ShareFd.fdFl.bit with
    | false =>
        have hbit : wants mode 0x100 = false := hwants
        simp only [hwants, Bool.false_eq_true, if_false] at hzero
        simp [hbit, h.fileLock p hzero, h.exclusive p hzero]
    | true =>
        have hbit : wants mode 0x100 = true := hwants
        simp only [hwants, if_true] at hzero
        by_cases hone : (t.held p).count .fdFl = 1
        · have hino := h.not_neg (p := p) (k := .fdFl) (by omega)
          simp [hone, hbit, unlockByte, hino, unlock]
        · have hnone : (t.held p).count .fdFl = 0 := by omega
          simp [hnone, h.fileLock p hnone, h.exclusive p hnone]
  · intro hino k
    simp [shareRemove, h.idle hino p k]

/-! ## The test -/

/-- The counter that a counter excludes. -/
def ShareFd.opponent : ShareFd → ShareFd
  | .fdOr => .fdDr
  | .fdOw => .fdDw
  | .fdDr => .fdOr
  | .fdDw => .fdOw
  | .fdFl => .fdFl

theorem ShareFd.opponent_ne {k : ShareFd} (hk : k ≠ .fdFl) : k.opponent ≠ .fdFl := by
  cases k <;> simp_all [ShareFd.opponent]

theorem conflict_iff {m m' : UInt32} :
    Conflict m m' ↔ ∃ k : ShareFd, k ≠ .fdFl ∧ wants m k.bit = true ∧ wants m' k.opponent.bit = true := by
  constructor
  · intro h
    rcases h with h | h | h | h
    · exact ⟨.fdOr, by decide, h⟩
    · exact ⟨.fdOw, by decide, h⟩
    · exact ⟨.fdDr, by decide, h⟩
    · exact ⟨.fdDw, by decide, h⟩
  · intro ⟨k, hk, h⟩
    cases k with
    | fdOr => exact .inl h
    | fdOw => exact .inr (.inl h)
    | fdDr => exact .inr (.inr (.inl h))
    | fdDw => exact .inr (.inr (.inr h))
    | fdFl => exact absurd rfl hk

theorem shareRefused_iff {t : ShareTable F P} {p : P} {si : ShareINode} {mode : UInt32} :
    shareRefused t p si mode = true ↔
      (∃ k : ShareFd, k ≠ .fdFl ∧ wants mode k.bit = true ∧ actMode t p si mode k.opponent = true) ∨
        (wants mode 0x100 = true ∧ (actFileLock t p si mode).2 = true ∨
          wants mode 0x200 = true ∧ (actFileLock t p si mode).1 = true) := by
  simp only [shareRefused, Bool.or_eq_true, Bool.and_eq_true]
  apply or_congr_left
  constructor
  · intro h
    rcases h with ((h | h) | h) | h
    · exact ⟨.fdOr, by decide, h⟩
    · exact ⟨.fdOw, by decide, h⟩
    · exact ⟨.fdDr, by decide, h⟩
    · exact ⟨.fdDw, by decide, h⟩
  · intro ⟨k, hk, h⟩
    cases k with
    | fdOr => exact .inl (.inl (.inl h))
    | fdOw => exact .inl (.inl (.inr h))
    | fdDr => exact .inl (.inr h)
    | fdDw => exact .inr h
    | fdFl => exact absurd rfl hk

theorem wants_of_subset {mode b c : UInt32} (hsub : b &&& c = b) (h : wants mode b = true) :
    wants mode c = true := by
  simp only [wants, bne_iff_ne, ne_eq] at h ⊢
  intro hzero
  apply h
  rw [← hsub, UInt32.and_comm b c, ← UInt32.and_assoc, hzero, UInt32.zero_and]

theorem wants_openMode {mode : UInt32} {k : ShareFd} (hk : k ≠ .fdFl)
    (h : wants mode k.bit = true) : wants mode 0xff = true := by
  apply wants_of_subset _ h
  cases k <;> first | rfl | exact absurd rfl hk

theorem probe_of_not_neg {t : ShareTable F P} (hino : ¬t.ino < 0) (p : P) (k : ShareFd) :
    probe t p k = getlk (t.locks k) p .write := if_neg hino

/-- A probe meets the lock of another process, or it fails. -/
theorem probe_isSome {t : ShareTable F P} {p : P} {k : ShareFd} :
    (probe t p k).isSome = true ↔
      t.ino < 0 ∨ ∃ q, q ≠ p ∧ (fetch (t.locks k) q).isSome = true := by
  by_cases hino : t.ino < 0
  · simp [probe, hino]
  · rw [probe_of_not_neg hino, getlk_write_isSome]
    simp [hino]

/-- The own counters and the locks of the others together show every counter. -/
theorem Shown.actMode_iff {t : ShareTable F P} (h : Shown t.ino t.locks t.held) {p : P} {mode : UInt32}
    (hmode : wants mode 0xff = true) {k : ShareFd} (hk : k ≠ .fdFl) :
    actMode t p (t.held p) mode k = true ↔ t.ino < 0 ∨ ∃ q, 0 < (t.held q).count k := by
  rw [actMode, hmode, Bool.true_and, Bool.or_eq_true, decide_eq_true_eq, probe_isSome]
  constructor
  · intro hact
    rcases hact with hown | hino | ⟨q, -, hsome⟩
    · exact .inr ⟨p, hown⟩
    · exact .inl hino
    · exact .inr ⟨q, h.count_pos hsome⟩
  · rintro (hino | ⟨q, hpos⟩)
    · exact .inr (.inl hino)
    by_cases hq : q = p
    · exact .inl (hq ▸ hpos)
    · apply Or.inr
      refine .inr ⟨q, hq, ?_⟩
      rw [h.opened k q hk, shownLock_pos hpos]
      rfl

/-- A file lock that the test sees belongs to some counter `fl`, or the probe fails. -/
theorem Shown.actFileLock_pos {t : ShareTable F P} (h : Shown t.ino t.locks t.held) {p : P}
    {mode : UInt32}
    (hact : (actFileLock t p (t.held p) mode).1 = true ∨
      (actFileLock t p (t.held p) mode).2 = true) :
    t.ino < 0 ∨ ∃ q, 0 < (t.held q).count .fdFl := by
  by_contra hnone
  have hzero : ∀ q, (t.held q).count .fdFl = 0 := fun q =>
    Nat.eq_zero_of_not_pos fun hpos => hnone (.inr ⟨q, hpos⟩)
  have hfree : probe t p .fdFl = none := by
    by_contra hsome
    rcases probe_isSome.mp (Option.isSome_iff_ne_none.mpr hsome) with hino | ⟨q, -, hfetch⟩
    · exact hnone (.inl hino)
    · exact hnone (.inr ⟨q, h.count_pos hfetch⟩)
  unfold actFileLock at hact
  simp [hfree, hzero, h.exclusive p (hzero p)] at hact

/-- Where every probe fails the test lets nothing pass that touches a counter. -/
theorem Shown.wants_of_granted {t : ShareTable F P} (h : Shown t.ino t.locks t.held)
    (hino : t.ino < 0) {p : P} {mode : UInt32}
    (hgranted : ¬shareRefused t p (t.held p) mode = true) (k : ShareFd) :
    wants mode k.bit = false := by
  apply Bool.eq_false_iff.mpr
  intro hwants
  apply hgranted
  by_cases hk : k = .fdFl
  · subst hk
    have hmode : wants mode 0x100 = true := hwants
    have hfile : actFileLock t p (t.held p) mode = (true, true) := by
      simp [actFileLock, wants_of_subset (c := 0x300) (by decide) hmode, h.idle hino p, probe, hino]
    exact shareRefused_iff.mpr (.inr (.inl ⟨hmode, by rw [hfile]⟩))
  · have hact := (h.actMode_iff (p := p) (wants_openMode hk hwants) (ShareFd.opponent_ne hk)).mpr
      (.inl hino)
    exact shareRefused_iff.mpr (.inl ⟨k, hk, hwants, hact⟩)

/-! ## The effect of a call -/

section Calls

variable {t : ShareTable F P} {e : ShareCall P}

theorem shareFile_zero (hmode : e.mode = 0) : shareFile t e = (-1, t) := by
  rw [shareFile, if_pos hmode]

theorem shareFile_add (haction : e.action = .add) (hmode : e.mode ≠ 0) :
    shareFile t e = if shareRefused t e.proc (t.held e.proc) e.mode = true then
      (-1, shareRelease t e.proc e.last (t.held e.proc, t.locks))
    else (0, shareRelease t e.proc e.last (shareAdd t e.proc (t.held e.proc) e.mode)) := by
  simp only [shareFile, if_neg hmode, haction]
  rfl

/-- Releasing an inode that nothing happened to changes no counter. -/
theorem Shown.unchanged (h : Shown t.ino t.locks t.held) (p : P) (last : Bool) :
    (shareRelease t p last (t.held p, t.locks)).Shows t.ino t.held t.locks := by
  have hsame := Function.update_eq_self p t.held
  have hrelease := Shown.release last (w := (t.held p, t.locks)) (hsame.symm ▸ h)
  rwa [hsame] at hrelease

theorem Shown.test (h : Shown t.ino t.locks t.held) (haction : e.action = .test) :
    (shareFile t e).2.Shows t.ino t.held t.locks := by
  unfold shareFile
  split
  next => exact ⟨rfl, rfl, fun _ _ => rfl⟩
  next =>
    rw [haction]
    exact h.unchanged e.proc e.last

theorem Shown.refused (h : Shown t.ino t.locks t.held) (haction : e.action = .add) (hmode : e.mode ≠ 0)
    (hrefused : shareRefused t e.proc (t.held e.proc) e.mode = true) :
    (shareFile t e).1 = -1 ∧ (shareFile t e).2.Shows t.ino t.held t.locks := by
  rw [shareFile_add haction hmode, if_pos hrefused]
  exact ⟨rfl, h.unchanged e.proc e.last⟩

theorem Shown.granted (h : Shown t.ino t.locks t.held) (haction : e.action = .add) (hmode : e.mode ≠ 0)
    (hgranted : ¬shareRefused t e.proc (t.held e.proc) e.mode = true) :
    (shareFile t e).1 = 0 ∧ (shareFile t e).2.Shows t.ino
      (Function.update t.held e.proc (shareAdd t e.proc (t.held e.proc) e.mode).1)
      (shareAdd t e.proc (t.held e.proc) e.mode).2 := by
  rw [shareFile_add haction hmode, if_neg hgranted]
  exact ⟨rfl, (h.add e.proc e.mode fun hino => h.wants_of_granted hino hgranted).release e.last⟩

/-- A removal decrements the counters of the process, also those of an inode it
never allocated, which are zero and stay so. -/
theorem Shown.removed (h : Shown t.ino t.locks t.held) (haction : e.action = .remove)
    (hmode : e.mode ≠ 0) :
    (shareFile t e).2.Shows t.ino
      (Function.update t.held e.proc (shareRemove t e.proc (t.held e.proc) e.mode).1)
      (shareRemove t e.proc (t.held e.proc) e.mode).2 := by
  cases hinode : t.inode e.proc with
  | none =>
      have hnew : t.held e.proc = .new := by rw [ShareTable.held, hinode]; rfl
      have hstay : shareRemove t e.proc (t.held e.proc) e.mode = (t.held e.proc, t.locks) := by
        simp [hnew, shareRemove, ShareINode.new]
      rw [hstay, Function.update_eq_self]
      simp only [shareFile, if_neg hmode, haction, hinode]
      exact ⟨rfl, rfl, fun _ _ => rfl⟩
  | some si =>
      have hheld : t.held e.proc = si := by rw [ShareTable.held, hinode]; rfl
      have hrelease := (h.remove e.proc e.mode).release e.last
      simp only [shareFile, if_neg hmode, haction, hinode]
      rwa [hheld] at hrelease ⊢

end Calls

/-! ## Runs -/

theorem shareMachine_step (s : ShareState F P) (e : ShareCall P) :
    shareMachine.step s e = ((shareFile s.table e).1,
      ⟨(shareFile s.table e).2, registered s.live e (shareFile s.table e).1⟩) := rfl

/-- The invariant of an inode: the locks show the counters, the counters count the
live registrations, and no two of these exclude each other. -/
structure ShareInv (ino : Int32) (s : ShareState F P) : Prop where
  number : s.table.ino = ino
  shown : Shown s.table.ino s.table.locks s.table.held
  counted : ∀ p k, (s.table.held p).count k =
    s.live.countP fun r => r.1 = p && wants r.2 k.bit
  apart : s.live.Pairwise fun r r' => ¬Conflict r.2 r'.2

namespace ShareInv

variable {ino : Int32} {s : ShareState F P} {e : ShareCall P}

theorem exists_live (h : ShareInv ino s) {k : ShareFd} :
    (∃ q, 0 < (s.table.held q).count k) ↔ ∃ r ∈ s.live, wants r.2 k.bit = true := by
  simp only [h.counted, List.countP_pos_iff, Bool.and_eq_true, decide_eq_true_eq]
  constructor
  · intro ⟨q, r, hr, _, hwants⟩
    exact ⟨r, hr, hwants⟩
  · intro ⟨r, hr, hwants⟩
    exact ⟨r.1, r, hr, rfl, hwants⟩

/-- A conflict with a live registration makes the test fail. -/
theorem refused_of_conflict (h : ShareInv ino s) {p : P} {mode : UInt32} {r : P × UInt32}
    (hr : r ∈ s.live) (hconflict : Conflict mode r.2) :
    shareRefused s.table p (s.table.held p) mode = true := by
  obtain ⟨k, hk, hmode, hother⟩ := conflict_iff.mp hconflict
  apply shareRefused_iff.mpr
  apply Or.inl
  refine ⟨k, hk, hmode, ?_⟩
  rw [h.shown.actMode_iff (wants_openMode hk hmode) (ShareFd.opponent_ne hk)]
  exact .inr (h.exists_live.mpr ⟨r, hr, hother⟩)

/-- The test fails only for such a conflict, for a file lock, or where every
probe fails. -/
theorem conflict_of_refused (h : ShareInv ino s) {p : P} {mode : UInt32}
    (hrefused : shareRefused s.table p (s.table.held p) mode = true) :
    (∃ r ∈ s.live, Conflict mode r.2) ∨
      (wants mode 0x300 = true ∧ ∃ r ∈ s.live, wants r.2 0x100 = true) ∨
        ino < 0 ∧ wants mode 0x30f = true := by
  rcases shareRefused_iff.mp hrefused with ⟨k, hk, hmode, hact⟩ | hfile
  · rw [h.shown.actMode_iff (wants_openMode hk hmode) (ShareFd.opponent_ne hk), h.number] at hact
    rcases hact with hino | hact
    · have hbits : k.bit &&& 0x30f = k.bit := by cases k <;> rfl
      exact .inr (.inr ⟨hino, wants_of_subset hbits hmode⟩)
    · obtain ⟨r, hr, hother⟩ := h.exists_live.mp hact
      exact .inl ⟨r, hr, conflict_iff.mpr ⟨k, hk, hmode, hother⟩⟩
  · have hmode : wants mode 0x300 = true := by
      rcases hfile with hfile | hfile
      · exact wants_of_subset (by decide) hfile.1
      · exact wants_of_subset (by decide) hfile.1
    rcases h.shown.actFileLock_pos (hfile.elim (fun h => .inr h.2) fun h => .inl h.2) with
      hino | hact
    · rw [h.number] at hino
      exact .inr (.inr ⟨hino, wants_of_subset (by decide) hmode⟩)
    · exact .inr (.inl ⟨hmode, h.exists_live.mp hact⟩)

theorem init (ino : Int32) : ShareInv ino (ShareState.init ino : ShareState F P) where
  number := rfl
  shown := ⟨fun _ p _ => fetch_empty p, fun p _ => fetch_empty p, fun _ _ => rfl,
    fun _ _ _ => rfl⟩
  counted _ _ := rfl
  apart := List.Pairwise.nil

theorem add (h : ShareInv ino s) (haction : e.action = .add) :
    ShareInv ino (shareMachine.step s e).2 := by
  rw [shareMachine_step]
  by_cases hmode : e.mode = 0
  · rw [shareFile_zero hmode]
    have hlive : registered s.live e (-1) = s.live := by simp [registered, haction]
    rw [hlive]
    exact h
  · by_cases hrefused : shareRefused s.table e.proc (s.table.held e.proc) e.mode = true
    · obtain ⟨hresult, hshows⟩ := h.shown.refused haction hmode hrefused
      have hheld := hshows.counters
      have hlive : registered s.live e (shareFile s.table e).1 = s.live := by
        simp [registered, haction, hresult]
      rw [hlive]
      exact ⟨hshows.number.trans h.number, hshows.shown h.shown, hheld.symm ▸ h.counted, h.apart⟩
    · obtain ⟨hresult, hshows⟩ := h.shown.granted haction hmode hrefused
      have hheld := hshows.counters
      have hlive : registered s.live e (shareFile s.table e).1 = (e.proc, e.mode) :: s.live := by
        simp [registered, haction, hresult]
      rw [hlive]
      have hshown := h.shown.add e.proc e.mode fun hino => h.shown.wants_of_granted hino hrefused
      refine ⟨hshows.number.trans h.number, hshows.shown hshown, ?_,
        List.pairwise_cons.mpr ⟨?_, h.apart⟩⟩
      · intro p k
        rw [hheld, List.countP_cons]
        by_cases hp : p = e.proc
        · subst hp
          rw [Function.update_self, ← h.counted]
          cases hwants : wants e.mode k.bit <;> simp [shareAdd, hwants]
        · rw [Function.update_of_ne hp, h.counted]
          simp [Ne.symm hp]
      · intro r hr hconflict
        exact hrefused (h.refused_of_conflict hr hconflict)

theorem remove (h : ShareInv ino s) (haction : e.action = .remove)
    (hlive : (e.proc, e.mode) ∈ s.live) : ShareInv ino (shareMachine.step s e).2 := by
  rw [shareMachine_step]
  have herase : registered s.live e (shareFile s.table e).1 = s.live.erase (e.proc, e.mode) := by
    simp [registered, haction]
  rw [herase]
  have hcount : ∀ p (k : ShareFd),
      (s.live.erase (e.proc, e.mode)).countP (fun r => r.1 = p && wants r.2 k.bit) =
        (s.table.held p).count k - if e.proc = p ∧ wants e.mode k.bit = true then 1 else 0 := by
    intro p k
    rw [List.countP_erase, ← h.counted]
    simp [hlive]
  by_cases hmode : e.mode = 0
  · rw [shareFile_zero hmode]
    refine ⟨h.number, h.shown, ?_, h.apart.erase _⟩
    intro p k
    rw [hcount, hmode]
    simp [wants]
  · have hshows := h.shown.removed haction hmode
    have hheld := hshows.counters
    refine ⟨hshows.number.trans h.number, hshows.shown (h.shown.remove _ _), ?_, h.apart.erase _⟩
    intro p k
    rw [hheld, hcount]
    by_cases hp : p = e.proc
    · subst hp
      rw [Function.update_self]
      cases hwants : wants e.mode k.bit <;> simp [shareRemove, hwants]
    · rw [Function.update_of_ne hp]
      simp [Ne.symm hp]

theorem test (h : ShareInv ino s) (haction : e.action = .test) :
    ShareInv ino (shareMachine.step s e).2 := by
  rw [shareMachine_step]
  have hlive : registered s.live e (shareFile s.table e).1 = s.live := by
    simp [registered, haction]
  have hshows := h.shown.test haction
  rw [hlive]
  exact ⟨hshows.number.trans h.number, hshows.shown h.shown, hshows.counters.symm ▸ h.counted,
    h.apart⟩

theorem step (h : ShareInv ino s) (hremoves : RemovesLive s e) :
    ShareInv ino (shareMachine.step s e).2 := by
  cases haction : e.action with
  | remove => exact h.remove haction (hremoves haction)
  | add => exact h.add haction
  | test => exact h.test haction

/-- The invariant holds after any calls of any processes. -/
theorem run {es : List (ShareCall P)}
    (hremoves : shareMachine.Along RemovesLive (ShareState.init ino : ShareState F P) es) :
    ShareInv ino (shareMachine.exec (ShareState.init ino : ShareState F P) es) :=
  shareMachine.exec_invariant (fun _ _ h => h.step) (init ino) hremoves

end ShareInv

/-- After any calls of any processes no two live registrations exclude each
other, and an add is refused only for a mode that excludes a live one, for a
file lock, or for an inode number that `fcntl` does not take for an offset. -/
theorem shareMachine_exclusion (ino : Int32) (es : List (ShareCall P))
    (hremoves : shareMachine.Along RemovesLive (ShareState.init ino : ShareState F P) es) :
    let s := shareMachine.exec (ShareState.init ino : ShareState F P) es
    (s.live.Pairwise fun r r' => ¬Conflict r.2 r'.2) ∧
      ∀ e : ShareCall P, e.action = .add → (shareMachine.step s e).1 ≠ 0 →
        e.mode = 0 ∨ (∃ r ∈ s.live, Conflict e.mode r.2) ∨
          (wants e.mode 0x300 = true ∧ ∃ r ∈ s.live, wants r.2 0x100 = true) ∨
            ino < 0 ∧ wants e.mode 0x30f = true := by
  intro s
  have hinv : ShareInv ino s := ShareInv.run hremoves
  refine ⟨hinv.apart, fun e haction hresult => ?_⟩
  by_cases hmode : e.mode = 0
  · exact .inl hmode
  · apply Or.inr
    apply hinv.conflict_of_refused (p := e.proc)
    by_contra hgranted
    exact hresult (hinv.shown.granted haction hmode hgranted).1

-- The number of an inode from 2^31 on is below zero as an `int`: the first open is refused.
example : (shareMachine.step (ShareState.init (-1) : ShareState ListFile Bool)
    ⟨false, 0x1, .add, true⟩).1 = -1 := by decide

/-- Two processes: one opens for reading, the other is refused when it denies
reading and may do so once the first has closed the file. -/
theorem shareMachine_exclusion_close :
    let es : List (ShareCall Bool) := [⟨false, 0x1, .add, false⟩, ⟨true, 0x4, .add, true⟩,
      ⟨false, 0x1, .remove, true⟩, ⟨true, 0x4, .add, false⟩]
    shareMachine.Along RemovesLive (ShareState.init 7 : ShareState ListFile Bool) es ∧
      shareMachine.answers (ShareState.init 7 : ShareState ListFile Bool) es = [0, -1, 0, 0] ∧
      let s := shareMachine.exec (ShareState.init 7 : ShareState ListFile Bool) es
      (s.live.Pairwise fun r r' => ¬Conflict r.2 r'.2) ∧
        ∀ e : ShareCall Bool, e.action = .add → (shareMachine.step s e).1 ≠ 0 →
          e.mode = 0 ∨ (∃ r ∈ s.live, Conflict e.mode r.2) ∨
            (wants e.mode 0x300 = true ∧ ∃ r ∈ s.live, wants r.2 0x100 = true) ∨
              (7 : Int32) < 0 ∧ wants e.mode 0x30f = true := by
  intro es
  have hremoves :
      shareMachine.Along RemovesLive (ShareState.init 7 : ShareState ListFile Bool) es :=
    ⟨fun h => absurd h (by decide), fun h => absurd h (by decide), fun _ => by decide,
      fun h => absurd h (by decide), trivial⟩
  exact ⟨hremoves, by decide, shareMachine_exclusion 7 es hremoves⟩

/-- A file lock keeps a second file lock away, although neither reads, writes
nor denies anything. -/
theorem shareMachine_refuses_file_lock :
    ¬∀ (ino : Int32) (es : List (ShareCall Bool)),
      shareMachine.Along RemovesLive (ShareState.init ino : ShareState ListFile Bool) es →
      let s := shareMachine.exec (ShareState.init ino : ShareState ListFile Bool) es
      (s.live.Pairwise fun r r' => ¬Conflict r.2 r'.2) ∧
        ∀ e : ShareCall Bool, e.action = .add → (shareMachine.step s e).1 ≠ 0 →
          ∃ r ∈ s.live, Conflict e.mode r.2 := by
  intro hall
  obtain ⟨-, hrefused⟩ :=
    hall 7 [⟨false, 0x100, .add, true⟩] ⟨fun h => absurd h (by decide), trivial⟩
  have hno : ¬∃ r ∈ [(false, (0x100 : UInt32))], Conflict 0x300 r.2 := by decide
  exact hno (hrefused ⟨true, 0x300, .add, true⟩ (by decide) (by decide))

end MarsNwe
