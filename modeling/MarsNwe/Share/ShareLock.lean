import Mathlib.Data.List.TakeWhile
import Mathlib.Tactic.Linarith
import MarsNwe.Lib.Machine

/-! # Record locks inside one process

The locks of one process never exclude each other in the kernel, so `share_lock`
keeps a list of them for every inode. A request is compared with the first
listed lock that starts before its end, and with no other.
-/

namespace MarsNwe

/-! ## The code -/

/-- `ShareLock`. -/
structure ShareLock where
  start : Int
  len : Int
  fd : Int
  exclusive : Bool
deriving DecidableEq

/-- `action` of `share_lock`. -/
inductive LockAction where
  | unlock
  | lock
  | test
deriving DecidableEq

/-- A call of `share_lock`, with what `fcntl` makes of the request: whether it
returns 0, and whether it then leaves `F_UNLCK` in `l_type`. -/
structure LockCall where
  fd : Int
  action : LockAction
  lockFlag : Int
  start : UInt32
  len : Int32
  timeout : Int
  fcntl : Bool
  unlocked : Bool

/-- `l_start & 0x7fffffff`. -/
def LockCall.lStart (e : LockCall) : Int := (e.start &&& 0x7fffffff).toNat

/-- `l_len`, where `MAX_U32` stands for 0. -/
def LockCall.lLen (e : LockCall) : Int := if e.len = -1 then 0 else e.len.toInt

/-- The lock that a request asks for. -/
def LockCall.wanted (e : LockCall) : ShareLock := ⟨e.lStart, e.lLen, e.fd, e.lockFlag = 1⟩

/-- The test of the loop that looks for a lock: it starts before the end of the
request, for length 0 at or before its start. -/
def findsLock (e : LockCall) (sl : ShareLock) : Bool :=
  sl.start - e.lStart < e.lLen ||
    (e.lLen == 0 && if e.action = .unlock then sl.start == e.lStart else sl.start ≤ e.lStart)

/-- The locks before the one that the loop finds. -/
def locksBefore (e : LockCall) (locks : List ShareLock) : List ShareLock :=
  locks.takeWhile fun sl => !findsLock e sl

/-- The lock that the loop finds and those behind it. -/
def locksFrom (e : LockCall) (locks : List ShareLock) : List ShareLock :=
  locks.dropWhile fun sl => !findsLock e sl

/-- The test of a request against the lock found. -/
def collides (e : LockCall) (sl : ShareLock) : Bool :=
  (e.lStart - sl.start < sl.len || sl.len == 0) && (sl.exclusive || e.lockFlag == 1)

/-- The lock found is the one to unlock. -/
def unlocks (e : LockCall) (sl : ShareLock) : Bool :=
  sl.fd == e.fd && sl.start == e.lStart && (sl.len == e.lLen || e.lLen == 0)

/-- `share_lock` for an inode that the process has open. -/
def shareLockCall (locks : List ShareLock) (e : LockCall) : Int × List ShareLock :=
  let found := (locksFrom e locks).head?
  match e.action with
  | .unlock =>
      if found.any (unlocks e) then (0, locksBefore e locks ++ (locksFrom e locks).tail)
      else (-0xff, locks)
  | .lock =>
      if found.any (collides e) then (-0xfd, locks)
      else if e.fcntl then (0, locksBefore e locks ++ e.wanted :: locksFrom e locks)
      else (if e.timeout = 0 then -0xff else -0xfe, locks)
  | .test =>
      if found.any (collides e) then (-0xfd, locks)
      else if e.fcntl then (if e.unlocked then 0 else -1, locks)
      else (if e.timeout = 0 then -0xff else -0xfe, locks)

/-- `share_unlock_all`. -/
def shareUnlockAll (locks : List ShareLock) (fd : Int) : List ShareLock :=
  locks.filter fun sl => sl.fd ≠ fd

/-- The calls for one inode: `share_lock`, or `share_unlock_all` with a file. -/
inductive LocksCall where
  | shareLock (e : LockCall)
  | shareUnlockAll (fd : Int)

/-- The lock list of an inode, empty at first, as the calls change it. -/
def shareLockMachine : Machine (List ShareLock) LocksCall Int where
  step locks e :=
    match e with
    | .shareLock e => shareLockCall locks e
    | .shareUnlockAll fd => (0, shareUnlockAll locks fd)

/-! ## Byte ranges -/

/-- A lock covers a byte: length 0 reaches to the end of every file, and a
negative length lies before the start. -/
def ShareLock.Covers (sl : ShareLock) (x : Int) : Prop :=
  if 0 < sl.len then sl.start ≤ x ∧ x < sl.start + sl.len
  else if sl.len = 0 then sl.start ≤ x
  else sl.start + sl.len ≤ x ∧ x < sl.start

/-- The ranges of two locks overlap, and one of the locks is exclusive. -/
def Clash (a b : ShareLock) : Prop :=
  (a.exclusive = true ∨ b.exclusive = true) ∧ ∃ x, a.Covers x ∧ b.Covers x

/-- No exclusive lock overlaps another lock. -/
def Exclusive (locks : List ShareLock) : Prop := locks.Pairwise fun a b => ¬Clash a b

/-- A lock starts before the end of another one; a lock of length 0 is taken to
end where it starts, so that one at the same place starts before its end too. -/
def ShareLock.StartsBefore (sl new : ShareLock) : Prop :=
  if new.len = 0 then sl.start ≤ new.start else sl.start < new.start + new.len

instance (sl new : ShareLock) : Decidable (sl.StartsBefore new) :=
  inferInstanceAs (Decidable (ite _ _ _))

/-- A lock lets another one pass: it ends at or before its start, or both are shared. -/
def ShareLock.Passes (sl new : ShareLock) : Prop :=
  sl.len ≠ 0 ∧ sl.start + sl.len ≤ new.start ∨ sl.exclusive = false ∧ new.exclusive = false

/-- A listed lock that clashes with a new one is out of sight: of the listed locks
that start before the end of the new one the first lets it pass, or there is none. -/
def ClashHidden (locks : List ShareLock) (new : ShareLock) : Prop :=
  (∃ sl ∈ locks, Clash new sl) ∧
    ∀ sl, locks.find? (fun sl => sl.StartsBefore new) = some sl → sl.Passes new

/-- A lock request that `fcntl` grants meets no clash that is out of sight. -/
def ClashesSeen (locks : List ShareLock) : LocksCall → Prop
  | .shareLock e => e.action = .lock → e.fcntl = true → ¬ClashHidden locks e.wanted
  | .shareUnlockAll _ => True

theorem Clash.symm {a b : ShareLock} (h : Clash a b) : Clash b a :=
  ⟨h.1.symm, h.2.imp fun _ hx => hx.symm⟩

theorem locksBefore_append_locksFrom (e : LockCall) (locks : List ShareLock) :
    locksBefore e locks ++ locksFrom e locks = locks :=
  List.takeWhile_append_dropWhile

/-! ## What the search sees -/

theorem findsLock_lock_iff {e : LockCall} (haction : e.action = .lock) (sl : ShareLock) :
    findsLock e sl = true ↔ sl.StartsBefore e.wanted := by
  have hwanted : e.wanted.start = e.lStart ∧ e.wanted.len = e.lLen := ⟨rfl, rfl⟩
  simp only [findsLock, haction, ShareLock.StartsBefore, hwanted]
  by_cases hlen : e.lLen = 0
  · simp [hlen]
    omega
  · simp [hlen]
    omega

theorem collides_iff (e : LockCall) (sl : ShareLock) :
    collides e sl = true ↔ ¬sl.Passes e.wanted := by
  have hwanted : e.wanted.start = e.lStart ∧ e.wanted.exclusive = decide (e.lockFlag = 1) :=
    ⟨rfl, rfl⟩
  simp only [collides, ShareLock.Passes, hwanted, Bool.and_eq_true, Bool.or_eq_true,
    decide_eq_true_eq, beq_iff_eq, not_or, not_and_or, Bool.not_eq_false, decide_eq_false_iff_not,
    not_not, not_le, ne_eq]
  constructor
  · intro ⟨hreach, hexcl⟩
    exact ⟨hreach.symm.imp_right fun h => by omega, hexcl⟩
  · intro ⟨hreach, hexcl⟩
    exact ⟨(hreach.imp_right fun h => by omega).symm, hexcl⟩

/-- The request fails the test if the first listed lock that starts before its end
does not let it pass. -/
theorem found_collides_iff {e : LockCall} (haction : e.action = .lock) (locks : List ShareLock) :
    (locksFrom e locks).head?.any (collides e) = true ↔
      ∃ sl, locks.find? (fun sl => sl.StartsBefore e.wanted) = some sl ∧ ¬sl.Passes e.wanted := by
  have hfinds : (fun sl => decide (sl.StartsBefore e.wanted)) = findsLock e := by
    funext sl
    exact Bool.eq_iff_iff.mpr (by rw [decide_eq_true_eq, findsLock_lock_iff haction])
  rw [locksFrom, ← List.find?_eq_head?_dropWhile_not, hfinds, Option.any_eq_true]
  simp only [collides_iff]

/-! ## Steps and runs -/

/-- The list after a lock that is granted: the new lock clashes with no other one
if and only if no exclusive lock overlaps another one. -/
theorem exclusive_insert {before rest : List ShareLock} {new : ShareLock}
    (h : Exclusive (before ++ rest)) :
    Exclusive (before ++ new :: rest) ↔ ∀ sl ∈ before ++ rest, ¬Clash new sl := by
  rw [Exclusive, List.pairwise_append] at h
  obtain ⟨hbefore, hrest, hcross⟩ := h
  rw [Exclusive, List.pairwise_append, List.pairwise_cons]
  constructor
  · intro ⟨_, ⟨hnew, _⟩, hall⟩ sl hsl
    rcases List.mem_append.mp hsl with hsl | hsl
    · exact fun hclash => hall sl hsl new List.mem_cons_self hclash.symm
    · exact hnew sl hsl
  · intro hall
    refine ⟨hbefore, ⟨fun sl hsl => hall sl (List.mem_append_right _ hsl), hrest⟩, ?_⟩
    intro a ha b hb
    rcases List.mem_cons.mp hb with rfl | hb
    · exact fun hclash => hall a (List.mem_append_left _ ha) hclash.symm
    · exact hcross a ha b hb

/-- A call adds the lock it wants to the list, or takes locks out of it. -/
theorem shareLockMachine_step (locks : List ShareLock) (call : LocksCall) :
    (∃ e, call = .shareLock e ∧ e.action = .lock ∧ e.fcntl = true ∧
      (locksFrom e locks).head?.any (collides e) = false ∧
      (shareLockMachine.step locks call).2 =
        locksBefore e locks ++ e.wanted :: locksFrom e locks) ∨
    ((∀ e, call = .shareLock e → e.action = .lock → e.fcntl = true →
      (locksFrom e locks).head?.any (collides e) = true) ∧
      (shareLockMachine.step locks call).2.Sublist locks) := by
  cases call with
  | shareUnlockAll fd =>
      exact .inr ⟨fun _ he => LocksCall.noConfusion he, List.filter_sublist⟩
  | shareLock e =>
      change _ ∨ _ ∧ (shareLockCall locks e).2.Sublist locks
      have hstep : shareLockMachine.step locks (.shareLock e) = shareLockCall locks e := rfl
      rw [hstep]
      cases haction : e.action with
      | unlock =>
          refine .inr ⟨fun e' he' hlock => ?_, ?_⟩
          · obtain rfl := LocksCall.shareLock.inj he'
            rw [haction] at hlock
            contradiction
          · simp only [shareLockCall, haction]
            split
            · conv_rhs => rw [← locksBefore_append_locksFrom e locks]
              exact (List.Sublist.refl _).append (List.tail_sublist _)
            · exact List.Sublist.refl _
      | test =>
          refine .inr ⟨fun e' he' hlock => ?_, ?_⟩
          · obtain rfl := LocksCall.shareLock.inj he'
            rw [haction] at hlock
            contradiction
          · simp only [shareLockCall, haction]
            split
            · exact List.Sublist.refl _
            · split <;> exact List.Sublist.refl _
      | lock =>
          by_cases hcollides : (locksFrom e locks).head?.any (collides e) = true
          · refine .inr ⟨fun e' he' _ _ => LocksCall.shareLock.inj he' ▸ hcollides, ?_⟩
            simp only [shareLockCall, haction, if_pos hcollides]
            exact List.Sublist.refl _
          · cases hfcntl : e.fcntl with
            | true =>
                refine .inl ⟨e, rfl, haction, hfcntl, Bool.eq_false_iff.mpr hcollides, ?_⟩
                simp only [shareLockCall, haction, if_neg hcollides, hfcntl, if_true]
            | false =>
                refine .inr ⟨fun e' he' _ hgranted => ?_, ?_⟩
                · obtain rfl := LocksCall.shareLock.inj he'
                  rw [hfcntl] at hgranted
                  contradiction
                · simp only [shareLockCall, haction, if_neg hcollides, hfcntl, Bool.false_eq_true,
                    if_false]
                  exact List.Sublist.refl _

/-- A call keeps exclusive locks apart if and only if it meets no clash that is
out of sight. -/
theorem clashesSeen_iff {locks : List ShareLock} (h : Exclusive locks) (call : LocksCall) :
    ClashesSeen locks call ↔ Exclusive (shareLockMachine.step locks call).2 := by
  rcases shareLockMachine_step locks call with
    ⟨e, rfl, haction, hfcntl, hpassed, hnext⟩ | ⟨hrefused, hsublist⟩
  · rw [hnext, exclusive_insert (by rwa [locksBefore_append_locksFrom]),
      locksBefore_append_locksFrom]
    have hpasses : ∀ sl, locks.find? (fun sl => sl.StartsBefore e.wanted) = some sl →
        sl.Passes e.wanted := by
      intro sl hfirst
      by_contra hcollides
      rw [(found_collides_iff haction locks).mpr ⟨sl, hfirst, hcollides⟩] at hpassed
      contradiction
    constructor
    · intro hseen sl hsl hclash
      exact hseen haction hfcntl ⟨⟨sl, hsl, hclash⟩, hpasses⟩
    · intro hnone _ _ ⟨⟨sl, hsl, hclash⟩, _⟩
      exact hnone sl hsl hclash
  · refine iff_of_true ?_ (h.sublist hsublist)
    cases call with
    | shareUnlockAll fd => trivial
    | shareLock e =>
        intro haction hfcntl ⟨_, hpasses⟩
        obtain ⟨sl, hfirst, hcollides⟩ :=
          (found_collides_iff haction locks).mp (hrefused e rfl haction hfcntl)
        exact hcollides (hpasses sl hfirst)

/-- Exclusive locks stay apart along exactly those runs in which no lock request
meets a clash that is out of sight. -/
theorem shareLock_exclusive_iff (calls : List LocksCall) :
    shareLockMachine.Along (fun locks call => Exclusive (shareLockMachine.step locks call).2) []
        calls ↔
      shareLockMachine.Along ClashesSeen [] calls := by
  have hstep : ∀ locks call, Exclusive locks → ClashesSeen locks call →
      Exclusive (shareLockMachine.step locks call).2 := fun _ call h hok =>
    (clashesSeen_iff h call).mp hok
  have hiff : ∀ locks call, Exclusive locks →
      (ClashesSeen locks call ↔ Exclusive (shareLockMachine.step locks call).2) :=
    fun _ call h => clashesSeen_iff h call
  exact (shareLockMachine.along_iff hstep hiff calls List.Pairwise.nil).symm

/-- A shared lock hides a longer shared one from the search, and an exclusive
lock is granted inside the longer one. -/
theorem shareLock_overlaps :
    ¬∀ calls : List LocksCall,
      shareLockMachine.Along (fun locks call => Exclusive (shareLockMachine.step locks call).2) []
        calls := by
  intro hall
  have hrun := hall [.shareLock ⟨3, .lock, 3, 0, 100, 0, true, true⟩,
    .shareLock ⟨3, .lock, 3, 10, 5, 0, true, true⟩, .shareLock ⟨4, .lock, 1, 50, 10, 0, true, true⟩]
  have hlast : Exclusive [⟨50, 10, 4, true⟩, ⟨10, 5, 3, false⟩, ⟨0, 100, 3, false⟩] := hrun.2.2.1
  have hapart := (List.pairwise_cons.mp hlast).1 ⟨0, 100, 3, false⟩ (by decide)
  exact hapart ⟨.inl rfl, 50, by simp [ShareLock.Covers], by simp [ShareLock.Covers]⟩

/-! ## Where nothing is out of sight -/

/-- The locks of a list lie apart, from the end of the file to its start. -/
def Descending (locks : List ShareLock) : Prop :=
  (∀ sl ∈ locks, 0 < sl.len) ∧ locks.Pairwise fun a b => b.start + b.len ≤ a.start

theorem not_clash_of_le {a b : ShareLock} (ha : 0 < a.len) (hb : 0 < b.len)
    (hle : b.start + b.len ≤ a.start) : ¬Clash a b := by
  intro ⟨_, x, hxa, hxb⟩
  rw [ShareLock.Covers, if_pos ha] at hxa
  rw [ShareLock.Covers, if_pos hb] at hxb
  linarith

theorem Descending.exclusive {locks : List ShareLock} (h : Descending locks) : Exclusive locks :=
  h.2.imp_of_mem fun ha hb hle => not_clash_of_le (h.1 _ ha) (h.1 _ hb) hle

/-- An exclusive request of positive length. -/
def AsksExclusive : LocksCall → Prop
  | .shareLock e => e.action = .lock → e.lockFlag = 1 ∧ 0 < e.lLen
  | .shareUnlockAll _ => True

/-- Exclusive locks of positive length are inserted in order. -/
theorem Descending.step {locks : List ShareLock} (h : Descending locks) {call : LocksCall}
    (hasks : AsksExclusive call) : Descending (shareLockMachine.step locks call).2 := by
  rcases shareLockMachine_step locks call with
    ⟨e, rfl, haction, -, hpassed, hnext⟩ | ⟨-, hsublist⟩
  · obtain ⟨hflag, hlen⟩ := hasks haction
    have hsplit := locksBefore_append_locksFrom e locks
    have hbefore : ∀ sl ∈ locksBefore e locks, e.lStart + e.lLen ≤ sl.start := by
      intro sl hsl
      have hnot := List.mem_takeWhile_imp hsl
      have hne : (e.lLen == 0) = false := beq_eq_false_iff_ne.mpr (by omega)
      simp only [findsLock, hne, Bool.false_and, Bool.or_false, Bool.not_eq_true',
        decide_eq_false_iff_not] at hnot
      omega
    have hpairs := h.2
    rw [← hsplit, List.pairwise_append] at hpairs
    obtain ⟨hpre, hpost, hcross⟩ := hpairs
    have hfrom : ∀ sl ∈ locksFrom e locks, sl.start + sl.len ≤ e.lStart := by
      cases hrest : locksFrom e locks with
      | nil => exact fun _ hsl => absurd hsl List.not_mem_nil
      | cons found rest =>
          rw [hrest] at hpassed hpost
          have hpos : ∀ sl ∈ found :: rest, 0 < sl.len := fun sl hsl =>
            h.1 sl (by rw [← hsplit, hrest]; exact List.mem_append_right _ hsl)
          have hfound : found.start + found.len ≤ e.lStart := by
            have hfpos := hpos found List.mem_cons_self
            have hfne : (found.len == 0) = false := beq_eq_false_iff_ne.mpr (by omega)
            simp [collides, hflag, hfne] at hpassed
            omega
          intro sl hsl
          rcases List.mem_cons.mp hsl with rfl | hsl
          · exact hfound
          · have hle := (List.pairwise_cons.mp hpost).1 sl hsl
            have hfpos := hpos found List.mem_cons_self
            omega
    rw [hnext]
    constructor
    · intro sl hsl
      rcases List.mem_append.mp hsl with hsl | hsl
      · exact h.1 sl (by rw [← hsplit]; exact List.mem_append_left _ hsl)
      · rcases List.mem_cons.mp hsl with rfl | hsl
        · exact hlen
        · exact h.1 sl (by rw [← hsplit]; exact List.mem_append_right _ hsl)
    · refine List.pairwise_append.mpr ⟨hpre, List.pairwise_cons.mpr ⟨hfrom, hpost⟩, ?_⟩
      intro a ha b hb
      rcases List.mem_cons.mp hb with rfl | hb
      · exact hbefore a ha
      · exact hcross a ha b hb
  · exact ⟨fun sl hsl => h.1 sl (hsublist.subset hsl), h.2.sublist hsublist⟩

/-- As long as all locks are exclusive and of positive length, no two overlap. -/
theorem shareLock_exclusive_of_asksExclusive {calls : List LocksCall}
    (hasks : shareLockMachine.Along (fun _ call => AsksExclusive call) [] calls) :
    Exclusive (shareLockMachine.exec [] calls) := by
  have hstep : ∀ locks call, Descending locks → AsksExclusive call →
      Descending (shareLockMachine.step locks call).2 := fun _ _ h hok => h.step hok
  have hstart : Descending [] := ⟨fun _ hsl => absurd hsl List.not_mem_nil, List.Pairwise.nil⟩
  exact (shareLockMachine.exec_invariant hstep hstart hasks).exclusive

end MarsNwe
