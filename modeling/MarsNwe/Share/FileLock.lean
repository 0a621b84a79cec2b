import MarsNwe.Share.Exclusion

/-! # File locks

An `open_mode` with 0x100 asks for a file lock, exclusive without 0x200 and shared
with it, while in `act_mode` the bit 0x200 stands for an exclusive lock. The last
test compares the two bits as if they meant the same: a shared lock keeps out
other shared ones and lets exclusive ones in. An inode number that `fcntl` does
not take for an offset has no file locks at all.
-/

namespace MarsNwe

open KeyedFile RecordLock

variable {F : Type → Type → Type} [KeyedFile F] {P : Type} [DecidableEq P]

/-! ## Registrations -/

/-- The table with the live file locks: who holds them, and whether exclusively. -/
structure FileLockState (F : Type → Type → Type) (P : Type) where
  table : ShareTable F P
  fileLocks : List (P × Bool)

/-- What a call makes of the file locks. A removal does not tell shared from
exclusive: it ends a file lock of the process. -/
def fileLocked (fileLocks : List (P × Bool)) (e : ShareCall P) (result : Int) : List (P × Bool) :=
  match e.action with
  | .add =>
      if result = 0 ∧ wants e.mode 0x100 = true then (e.proc, !wants e.mode 0x200) :: fileLocks
      else fileLocks
  | .remove => if wants e.mode 0x100 then fileLocks.eraseP fun r => r.1 = e.proc else fileLocks
  | .test => fileLocks

/-- Any number of processes calling `share_file` in any order. -/
def fileLockMachine : Machine (FileLockState F P) (ShareCall P) Int where
  step s e :=
    let (result, table) := shareFile s.table e
    (result, ⟨table, fileLocked s.fileLocks e result⟩)

/-- No process has the file open. -/
def FileLockState.init (ino : Int32) : FileLockState F P :=
  ⟨⟨ino, fun _ => none, fun _ => empty⟩, []⟩

/-- All file locks are shared, or there is one and it is exclusive. -/
def ReadersWriter (fileLocks : List (P × Bool)) : Prop :=
  (∀ r ∈ fileLocks, r.2 = false) ∨ ∃ p, fileLocks = [(p, true)]

/-- The test of the low four bits. -/
def openModeRefused (t : ShareTable F P) (p : P) (si : ShareINode) (mode : UInt32) : Bool :=
  wants mode 0x01 && actMode t p si mode .fdDr ||
  wants mode 0x02 && actMode t p si mode .fdDw ||
  wants mode 0x04 && actMode t p si mode .fdOr ||
  wants mode 0x08 && actMode t p si mode .fdOw

/-- The test of the file locks. -/
def fileLockRefused (t : ShareTable F P) (p : P) (si : ShareINode) (mode : UInt32) : Bool :=
  wants mode 0x100 && (actFileLock t p si mode).2 || wants mode 0x200 && (actFileLock t p si mode).1

/-- The call is an add that is not refused for its low four bits. -/
def Opens (s : FileLockState F P) (e : ShareCall P) : Prop :=
  e.action = .add ∧ openModeRefused s.table e.proc (s.table.held e.proc) e.mode = false

/-- A call behaves as with a readers/writer lock: it leaves one, a shared lock is
granted among shared ones, and an exclusive one is granted when there is none. -/
structure LocksFairly (s : FileLockState F P) (e : ShareCall P) : Prop where
  readersWriter : ReadersWriter (fileLockMachine.step s e).2.fileLocks
  shared : Opens s e → wants e.mode 0x100 = true → wants e.mode 0x200 = true →
    (∀ r ∈ s.fileLocks, r.2 = false) → (fileLockMachine.step s e).1 = 0
  exclusive : Opens s e → wants e.mode 0x100 = true → wants e.mode 0x200 = false →
    s.fileLocks = [] → (fileLockMachine.step s e).1 = 0

/-- The call does not ask for a file lock while a shared one is held, nor where
the inode number is below zero. -/
def AvoidsShared (s : FileLockState F P) (e : ShareCall P) : Prop :=
  Opens s e → wants e.mode 0x100 = true → 0 ≤ s.table.ino ∧ ∀ r ∈ s.fileLocks, r.2 = true

theorem shareRefused_eq (t : ShareTable F P) (p : P) (si : ShareINode) (mode : UInt32) :
    shareRefused t p si mode = (openModeRefused t p si mode || fileLockRefused t p si mode) := rfl

theorem fileLockMachine_step (s : FileLockState F P) (e : ShareCall P) :
    fileLockMachine.step s e = ((shareFile s.table e).1,
      ⟨(shareFile s.table e).2, fileLocked s.fileLocks e (shareFile s.table e).1⟩) := rfl

/-! ## A single file lock -/

/-- The lock that shows a file lock. -/
def fileLockKind (exclusive : Bool) : LockKind := if exclusive then .write else .read

/-- The invariant where no call asks for a file lock next to a shared one: there
is at most one file lock, and its counters and its lock show it. -/
structure FileLockInv (s : FileLockState F P) : Prop where
  shown : Shown s.table.ino s.table.locks s.table.held
  single : s.fileLocks.length ≤ 1
  counted : ∀ p, (s.table.held p).count .fdFl = s.fileLocks.countP fun r => r.1 = p
  exclusives : ∀ p, (s.table.held p).ex = s.fileLocks.countP fun r => r.1 = p && r.2
  locked : ∀ r ∈ s.fileLocks, fetch (s.table.locks .fdFl) r.1 = some (fileLockKind r.2)

namespace FileLockInv

variable {s : FileLockState F P} {e : ShareCall P}

theorem readersWriter (h : FileLockInv s) : ReadersWriter s.fileLocks := by
  have hsingle := h.single
  cases hlocks : s.fileLocks with
  | nil => exact .inl fun _ hr => absurd hr List.not_mem_nil
  | cons r rest =>
      rw [hlocks, List.length_cons] at hsingle
      obtain rfl := List.eq_nil_of_length_eq_zero (Nat.eq_zero_of_le_zero (Nat.le_of_succ_le_succ hsingle))
      obtain ⟨p, x⟩ := r
      cases x with
      | false => exact .inl fun r hr => by rw [List.mem_singleton.mp hr]
      | true => exact .inr ⟨p, rfl⟩

/-- Where `fcntl` fails there are no file locks. -/
theorem nil_of_neg (h : FileLockInv s) (hino : s.table.ino < 0) : s.fileLocks = [] := by
  apply List.eq_nil_iff_forall_not_mem.mpr
  intro r hr
  have hcount := h.shown.idle hino r.1 .fdFl
  rw [h.counted, List.countP_eq_zero] at hcount
  exact hcount r hr (decide_eq_true rfl)

/-- Without a file lock the test of the file locks is passed. -/
theorem granted_of_nil (h : FileLockInv s) (hino : ¬s.table.ino < 0) (hlocks : s.fileLocks = [])
    (p : P) (mode : UInt32) : fileLockRefused s.table p (s.table.held p) mode = false := by
  have hcount : ∀ q, (s.table.held q).count .fdFl = 0 := fun q => by rw [h.counted, hlocks]; rfl
  rw [Bool.eq_false_iff]
  intro hrefused
  rw [fileLockRefused, Bool.or_eq_true, Bool.and_eq_true, Bool.and_eq_true] at hrefused
  obtain ⟨q, hpos⟩ :=
    (h.shown.actFileLock_pos (hrefused.symm.imp And.right And.right)).resolve_left hino
  rw [hcount] at hpos
  contradiction

/-- The file lock of a process is what the test of every process sees. -/
theorem actFileLock_single (h : FileLockInv s) {q : P} {x : Bool} (hlocks : s.fileLocks = [(q, x)])
    (p : P) {mode : UInt32} (hmode : wants mode 0x300 = true) :
    actFileLock s.table p (s.table.held p) mode = (true, x) := by
  have hcount := h.counted p
  have hex := h.exclusives p
  rw [hlocks] at hcount hex
  unfold actFileLock
  by_cases hp : q = p
  · have hown : (s.table.held p).count .fdFl = 1 := by simpa [hp] using hcount
    have hown' : (s.table.held p).ex = if x then 1 else 0 := by
      rw [hex]
      cases x <;> simp [hp]
    cases x <;> simp [hown, hown']
  · have hnone : (s.table.held p).count .fdFl = 0 := by simpa [hp] using hcount
    have hnone' : (s.table.held p).ex = 0 := by simpa [hp] using hex
    have hlock := h.locked (q, x) (by rw [hlocks]; exact List.mem_singleton_self _)
    have hino : ¬s.table.ino < 0 := fun hino => by
      have hnil := h.nil_of_neg hino
      rw [hlocks] at hnil
      contradiction
    -- The lock that the probe meets is the only one there is.
    obtain ⟨k, hprobe⟩ := Option.isSome_iff_exists.mp
      (getlk_write_isSome.mpr ⟨q, hp, by rw [hlock]; rfl⟩)
    obtain ⟨q', -, hfetch, -⟩ := getlk_some hprobe
    have hq' : q = q' := by
      have hpos := h.shown.count_pos (p := q') (k := .fdFl) (by rw [hfetch]; rfl)
      rw [h.counted, hlocks] at hpos
      by_contra hne
      simp [hne] at hpos
    have hk : k = fileLockKind x := by
      rw [← hq', hlock] at hfetch
      exact (Option.some.inj hfetch).symm
    rw [probe_of_not_neg hino, hprobe, hk]
    cases x <;> simp [hmode, hnone, hnone', fileLockKind]

/-- A call that touches no file lock keeps the invariant. -/
theorem of_shows (h : FileLockInv s) {t : ShareTable F P} {held : P → ShareINode}
    {locks : ShareFd → F P LockKind} (hshows : t.Shows s.table.ino held locks)
    (hshown : Shown s.table.ino locks held)
    (hcount : ∀ q, (held q).count .fdFl = (s.table.held q).count .fdFl)
    (hex : ∀ q, (held q).ex = (s.table.held q).ex)
    (hlocks : ∀ q, fetch (locks .fdFl) q = fetch (s.table.locks .fdFl) q) :
    FileLockInv ⟨t, s.fileLocks⟩ where
  shown := hshows.shown hshown
  single := h.single
  counted p := by rw [hshows.counters, hcount, h.counted]
  exclusives p := by rw [hshows.counters, hex, h.exclusives]
  locked r hr := by rw [hshows.fetch_locks, hlocks, h.locked r hr]

theorem init (ino : Int32) : FileLockInv (FileLockState.init ino : FileLockState F P) where
  shown := ⟨fun _ p _ => fetch_empty p, fun p _ => fetch_empty p, fun _ _ => rfl,
    fun _ _ _ => rfl⟩
  single := Nat.zero_le 1
  counted _ := rfl
  exclusives _ := rfl
  locked _ hr := absurd hr List.not_mem_nil

/-- A file lock that is granted while there is none becomes the only one. -/
theorem add_fileLock (h : FileLockInv s) (hlocks : s.fileLocks = []) {t : ShareTable F P} {p : P}
    {mode : UInt32} (hmode : wants mode 0x100 = true)
    (hidle : s.table.ino < 0 → ∀ k : ShareFd, wants mode k.bit = false)
    (hshows : t.Shows s.table.ino
      (Function.update s.table.held p (shareAdd s.table p (s.table.held p) mode).1)
      (shareAdd s.table p (s.table.held p) mode).2) :
    FileLockInv ⟨t, [(p, !wants mode 0x200)]⟩ := by
  have hzero : ∀ q, (s.table.held q).count .fdFl = 0 := fun q => by rw [h.counted, hlocks]; rfl
  have hbit : wants mode ShareFd.fdFl.bit = true := hmode
  have hino : ¬s.table.ino < 0 := fun hino => by
    rw [hidle hino] at hbit
    contradiction
  refine ⟨hshows.shown (h.shown.add p mode hidle), Nat.le_refl 1, fun q => ?_, fun q => ?_, fun r hr => ?_⟩
  · rw [hshows.counters]
    by_cases hq : q = p
    · simp [hq, shareAdd, hbit, hzero]
    · simp [hq, Ne.symm hq, hzero]
  · rw [hshows.counters]
    by_cases hq : q = p
    · subst hq
      rw [Function.update_self]
      cases hshared : wants mode 0x200 <;>
        simp [shareAdd, hmode, hshared, h.shown.exclusive q (hzero q)]
    · simp [hq, Ne.symm hq, h.shown.exclusive q (hzero q)]
  · obtain rfl := List.mem_singleton.mp hr
    have hfree : getlk (s.table.locks .fdFl) p (shareLock mode .fdFl) = none := by
      by_contra hheld
      obtain ⟨k, hk⟩ := Option.ne_none_iff_exists'.mp hheld
      obtain ⟨q, -, hfetch, -⟩ := getlk_some hk
      rw [h.shown.fileLock q (hzero q)] at hfetch
      contradiction
    have hset : (shareAdd s.table p (s.table.held p) mode).2 .fdFl =
        store (s.table.locks .fdFl) p (shareLock mode .fdFl) := by
      simp [shareAdd, hbit, hzero, lockByte, hino, setlk, hfree]
    rw [hshows.fetch_locks, hset, fetch_store_self]
    cases hshared : wants mode 0x200 <;> simp [shareLock, hshared, fileLockKind]

/-- A removal ends the file lock of the process, if it has one. -/
theorem remove_fileLock (h : FileLockInv s) {t : ShareTable F P} {p : P} {mode : UInt32}
    (hmode : wants mode 0x100 = true)
    (hshows : t.Shows s.table.ino
      (Function.update s.table.held p (shareRemove s.table p (s.table.held p) mode).1)
      (shareRemove s.table p (s.table.held p) mode).2) :
    FileLockInv ⟨t, s.fileLocks.eraseP fun r => r.1 = p⟩ := by
  have hbit : wants mode ShareFd.fdFl.bit = true := hmode
  have hcount := h.counted p
  by_cases hmem : ∃ r ∈ s.fileLocks, r.1 = p
  · obtain ⟨⟨q, x⟩, hr, rfl⟩ := hmem
    have hlocks : s.fileLocks = [(q, x)] := by
      have hsingle := h.single
      obtain ⟨r, hone⟩ := List.length_eq_one_iff.mp (Nat.le_antisymm hsingle (List.length_pos_of_mem hr))
      rw [hone] at hr ⊢
      rw [List.mem_singleton.mp hr]
    have hone : (s.table.held q).count .fdFl = 1 := by
      rw [hcount, hlocks]
      simp
    have hother : ∀ q', q' ≠ q → (s.table.held q').count .fdFl = 0 := by
      intro q' hq'
      rw [h.counted, hlocks]
      simp [Ne.symm hq']
    have hnil : s.fileLocks.eraseP (fun r => r.1 = q) = [] := by simp [hlocks]
    rw [hnil]
    refine ⟨hshows.shown (h.shown.remove q mode), Nat.zero_le 1, fun q' => ?_, fun q' => ?_,
      fun r hr => absurd hr List.not_mem_nil⟩
    · rw [hshows.counters]
      by_cases hq' : q' = q
      · simp [hq', shareRemove, hbit, hone]
      · simp [hq', hother q' hq']
    · rw [hshows.counters]
      by_cases hq' : q' = q
      · simp [hq', shareRemove, hmode, hone]
      · simp [hq', h.shown.exclusive q' (hother q' hq')]
  · have hzero : (s.table.held p).count .fdFl = 0 := by
      rw [hcount, List.countP_eq_zero]
      intro r hr hp
      exact hmem ⟨r, hr, of_decide_eq_true hp⟩
    have hstay : s.fileLocks.eraseP (fun r => r.1 = p) = s.fileLocks := by
      apply List.eraseP_of_forall_not
      intro r hr hp
      exact hmem ⟨r, hr, of_decide_eq_true hp⟩
    rw [hstay]
    apply h.of_shows hshows (h.shown.remove p mode)
    · intro q
      by_cases hq : q = p
      · simp [hq, shareRemove, hzero]
      · simp [hq]
    · intro q
      by_cases hq : q = p
      · simp [hq, shareRemove, hzero]
      · simp [hq]
    · intro q
      simp [shareRemove, hzero]

/-- A process changes its registrations, but not those for file locks. -/
theorem of_same_fileLock (h : FileLockInv s) {t : ShareTable F P} {p : P}
    {w : ShareINode × (ShareFd → F P LockKind)}
    (hshows : t.Shows s.table.ino (Function.update s.table.held p w.1) w.2)
    (hshown : Shown s.table.ino w.2 (Function.update s.table.held p w.1))
    (hcount : w.1.count .fdFl = (s.table.held p).count .fdFl) (hex : w.1.ex = (s.table.held p).ex)
    (hlocks : w.2 .fdFl = s.table.locks .fdFl) : FileLockInv ⟨t, s.fileLocks⟩ := by
  apply h.of_shows hshows hshown
  · intro q
    by_cases hq : q = p
    · simp [hq, hcount]
    · simp [hq]
  · intro q
    by_cases hq : q = p
    · simp [hq, hex]
    · simp [hq]
  · intro q
    rw [hlocks]

/-- A call that leaves the file locks as they are: its mode has no 0x100, or it
only tests. -/
theorem add_other (h : FileLockInv s) {t : ShareTable F P} {p : P} {mode : UInt32}
    (hmode : wants mode 0x100 = false)
    (hidle : s.table.ino < 0 → ∀ k : ShareFd, wants mode k.bit = false)
    (hshows : t.Shows s.table.ino
      (Function.update s.table.held p (shareAdd s.table p (s.table.held p) mode).1)
      (shareAdd s.table p (s.table.held p) mode).2) :
    FileLockInv ⟨t, s.fileLocks⟩ := by
  have hbit : wants mode ShareFd.fdFl.bit = false := hmode
  apply h.of_same_fileLock hshows (h.shown.add p mode hidle)
  · simp [shareAdd, hbit]
  · simp [shareAdd, hmode]
  · simp [shareAdd, hbit]

theorem remove_other (h : FileLockInv s) {t : ShareTable F P} {p : P} {mode : UInt32}
    (hmode : wants mode 0x100 = false)
    (hshows : t.Shows s.table.ino
      (Function.update s.table.held p (shareRemove s.table p (s.table.held p) mode).1)
      (shareRemove s.table p (s.table.held p) mode).2) :
    FileLockInv ⟨t, s.fileLocks⟩ := by
  have hbit : wants mode ShareFd.fdFl.bit = false := hmode
  apply h.of_same_fileLock hshows (h.shown.remove p mode)
  · simp [shareRemove, hbit]
  · simp [shareRemove, hmode]
  · simp [shareRemove, hbit]

/-- Where `fcntl` fails the test of the file locks is failed. -/
theorem refused_of_neg (h : FileLockInv s) (hino : s.table.ino < 0) {p : P} {mode : UInt32}
    (hmode : wants mode 0x100 = true) :
    fileLockRefused s.table p (s.table.held p) mode = true := by
  have h300 : wants mode 0x300 = true := wants_of_subset (by decide) hmode
  have hfile : actFileLock s.table p (s.table.held p) mode = (true, true) := by
    simp [actFileLock, h300, h.shown.idle hino p, probe, hino]
  simp [fileLockRefused, hmode, hfile]

/-- What the file-lock test decides while there is at most one file lock. -/
theorem fileLockRefused_iff (h : FileLockInv s) (hino : ¬s.table.ino < 0) {p : P} {mode : UInt32}
    (hmode : wants mode 0x100 = true) :
    fileLockRefused s.table p (s.table.held p) mode = true ↔
      ∃ r ∈ s.fileLocks, r.2 = true ∨ wants mode 0x200 = true := by
  have h300 : wants mode 0x300 = true := wants_of_subset (by decide) hmode
  have hsingle := h.single
  cases hlocks : s.fileLocks with
  | nil => simp [h.granted_of_nil hino hlocks]
  | cons r rest =>
      rw [hlocks, List.length_cons] at hsingle
      obtain rfl : rest = [] := List.eq_nil_of_length_eq_zero (by omega)
      rw [fileLockRefused, h.actFileLock_single hlocks p h300]
      simp [hmode]

end FileLockInv

/-! ## Steps and runs -/

theorem wants_zero (bits : UInt32) : wants 0 bits = false := by simp [wants]

/-- Where `fcntl` fails every add for a file lock is refused. -/
theorem fileLockMachine_add_neg {s : FileLockState F P} (h : FileLockInv s)
    (hino : s.table.ino < 0) {e : ShareCall P} (hadd : e.action = .add)
    (hmode : wants e.mode 0x100 = true) : (fileLockMachine.step s e).1 = -1 := by
  have hne : e.mode ≠ 0 := by
    intro hzero
    rw [hzero, wants_zero] at hmode
    contradiction
  have hrefused : shareRefused s.table e.proc (s.table.held e.proc) e.mode = true := by
    rw [shareRefused_eq, h.refused_of_neg hino hmode, Bool.or_true]
  exact (h.shown.refused hadd hne hrefused).1

/-- The result of an add for a file lock that its low four bits allow. -/
theorem fileLockMachine_add {s : FileLockState F P} (h : FileLockInv s)
    (hino : ¬s.table.ino < 0) {e : ShareCall P} (hopens : Opens s e) (hmode : wants e.mode 0x100 = true) :
    (∃ r ∈ s.fileLocks, r.2 = true ∨ wants e.mode 0x200 = true) ∧
        (fileLockMachine.step s e).1 = -1 ∨
      (∀ r ∈ s.fileLocks, r.2 = false ∧ wants e.mode 0x200 = false) ∧
        (fileLockMachine.step s e).1 = 0 ∧
        (fileLockMachine.step s e).2.fileLocks = (e.proc, !wants e.mode 0x200) :: s.fileLocks := by
  have hne : e.mode ≠ 0 := by
    intro hzero
    rw [hzero, wants_zero] at hmode
    contradiction
  rw [fileLockMachine_step]
  by_cases hrefused : shareRefused s.table e.proc (s.table.held e.proc) e.mode = true
  · apply Or.inl
    have hlock := hrefused
    rw [shareRefused_eq, hopens.2, Bool.false_or] at hlock
    exact ⟨(h.fileLockRefused_iff hino hmode).mp hlock, (h.shown.refused hopens.1 hne hrefused).1⟩
  · apply Or.inr
    have hlock := hrefused
    rw [shareRefused_eq, hopens.2, Bool.false_or, h.fileLockRefused_iff hino hmode] at hlock
    have hresult := (h.shown.granted hopens.1 hne hrefused).1
    refine ⟨fun r hr => ?_, hresult, by simp [fileLocked, hopens.1, hresult, hmode]⟩
    have hneither := not_or.mp fun hor => hlock ⟨r, hr, hor⟩
    exact ⟨Bool.eq_false_iff.mpr hneither.1, Bool.eq_false_iff.mpr hneither.2⟩

/-- A call that does not ask for a file lock next to a shared one keeps the invariant. -/
theorem FileLockInv.step {s : FileLockState F P} (h : FileLockInv s) {e : ShareCall P}
    (havoids : AvoidsShared s e) : FileLockInv (fileLockMachine.step s e).2 := by
  rw [fileLockMachine_step]
  by_cases hmode : e.mode = 0
  · rw [shareFile_zero hmode]
    have hstay : fileLocked s.fileLocks e (-1) = s.fileLocks := by
      unfold fileLocked
      split <;> simp [hmode, wants_zero]
    rw [hstay]
    exact h
  cases haction : e.action with
  | test =>
      have hstay : fileLocked s.fileLocks e (shareFile s.table e).1 = s.fileLocks := by
        simp [fileLocked, haction]
      rw [hstay]
      exact h.of_shows (h.shown.test haction) h.shown (fun _ => rfl) (fun _ => rfl) fun _ => rfl
  | remove =>
      have hshows := h.shown.removed haction hmode
      cases hbit : wants e.mode 0x100 with
      | true => simpa [fileLocked, haction, hbit] using h.remove_fileLock hbit hshows
      | false => simpa [fileLocked, haction, hbit] using h.remove_other hbit hshows
  | add =>
      by_cases hrefused : shareRefused s.table e.proc (s.table.held e.proc) e.mode = true
      · obtain ⟨hresult, hshows⟩ := h.shown.refused haction hmode hrefused
        have hstay : fileLocked s.fileLocks e (shareFile s.table e).1 = s.fileLocks := by
          simp [fileLocked, haction, hresult]
        rw [hstay]
        exact h.of_shows hshows h.shown (fun _ => rfl) (fun _ => rfl) fun _ => rfl
      · obtain ⟨hresult, hshows⟩ := h.shown.granted haction hmode hrefused
        have hidle := fun hino => h.shown.wants_of_granted hino hrefused
        cases hbit : wants e.mode 0x100 with
        | false => simpa [fileLocked, haction, hresult, hbit] using h.add_other hbit hidle hshows
        | true =>
            have hino : ¬s.table.ino < 0 := fun hino => by
              have hnone : wants e.mode 0x100 = false := hidle hino .fdFl
              rw [hnone] at hbit
              contradiction
            rw [shareRefused_eq, Bool.or_eq_true, not_or, h.fileLockRefused_iff hino hbit]
              at hrefused
            have hnil : s.fileLocks = [] := by
              apply List.eq_nil_iff_forall_not_mem.mpr
              intro r hr
              have hexcl := (havoids ⟨haction, Bool.eq_false_iff.mpr hrefused.1⟩ hbit).2 r hr
              exact hrefused.2 ⟨r, hr, .inl hexcl⟩
            simpa [fileLocked, haction, hresult, hbit, hnil] using
              h.add_fileLock hnil hbit hidle hshows

/-- Such a call behaves as with a readers/writer lock, and no other call does. -/
theorem FileLockInv.avoidsShared_iff {s : FileLockState F P} (h : FileLockInv s) (e : ShareCall P) :
    AvoidsShared s e ↔ LocksFairly s e := by
  constructor
  · intro havoids
    refine ⟨(h.step havoids).readersWriter, fun hopens hmode hshared hall => ?_,
      fun hopens hmode hshared hnil => ?_⟩
    · obtain ⟨hino, hexcl⟩ := havoids hopens hmode
      rcases fileLockMachine_add h (Int32.not_lt.mpr hino) hopens hmode with
        ⟨⟨r, hr, -⟩, -⟩ | ⟨-, hresult, -⟩
      · have hboth := (hall r hr).symm.trans (hexcl r hr)
        contradiction
      · exact hresult
    · have hino := (havoids hopens hmode).1
      rcases fileLockMachine_add h (Int32.not_lt.mpr hino) hopens hmode with
        ⟨⟨r, hr, -⟩, -⟩ | ⟨-, hresult, -⟩
      · rw [hnil] at hr
        exact absurd hr List.not_mem_nil
      · exact hresult
  · intro hfair hopens hmode
    -- An inode number below zero refuses the lock, although there is none.
    have hino : ¬s.table.ino < 0 := by
      intro hino
      have hnil := h.nil_of_neg hino
      have hresult := fileLockMachine_add_neg h hino hopens.1 hmode
      cases hshared : wants e.mode 0x200 with
      | false =>
          rw [hfair.exclusive hopens hmode hshared hnil] at hresult
          contradiction
      | true =>
          rw [hfair.shared hopens hmode hshared (by simp [hnil])] at hresult
          contradiction
    refine ⟨Int32.not_lt.mp hino, fun r hr => ?_⟩
    by_contra hshared
    rw [Bool.not_eq_true] at hshared
    have hall : ∀ r' ∈ s.fileLocks, r'.2 = false := by
      obtain ⟨r₀, hone⟩ := List.length_eq_one_iff.mp
        (Nat.le_antisymm h.single (List.length_pos_of_mem hr))
      rw [hone, List.mem_singleton] at hr
      intro r' hr'
      rw [hone, List.mem_singleton] at hr'
      rw [hr', ← hr, hshared]
    rcases fileLockMachine_add h hino hopens hmode with ⟨⟨r', hr', hrefused⟩, hresult⟩ |
      ⟨hneither, -, hnext⟩
    · -- A shared lock is refused next to a shared one.
      have hwants := hrefused.resolve_left (by rw [hall r' hr']; decide)
      rw [hfair.shared hopens hmode hwants hall] at hresult
      contradiction
    · -- An exclusive lock is granted next to a shared one.
      have hwriter := hfair.readersWriter
      rw [hnext, (hneither r hr).2] at hwriter
      rcases hwriter with hshared' | ⟨p, hone⟩
      · exact absurd (hshared' _ List.mem_cons_self) (by simp)
      · rw [(List.cons.inj hone).2] at hr
        exact absurd hr List.not_mem_nil

/-- The file locks behave as a readers/writer lock along exactly those runs in
which no call asks for a file lock while a shared one is held, or where the inode
number is below zero. -/
theorem fileLocks_fair_iff (ino : Int32) (es : List (ShareCall P)) :
    fileLockMachine.Along LocksFairly (FileLockState.init ino : FileLockState F P) es ↔
      fileLockMachine.Along AvoidsShared (FileLockState.init ino : FileLockState F P) es :=
  (fileLockMachine.along_iff (fun _ _ h => h.step) (fun _ e h => h.avoidsShared_iff e) es
    (FileLockInv.init ino)).symm

/-- One process holds a shared file lock, and another gets an exclusive one. -/
theorem fileLocks_shared_and_exclusive :
    ¬∀ (ino : Int32) (es : List (ShareCall Bool)),
      fileLockMachine.Along LocksFairly (FileLockState.init ino : FileLockState ListFile Bool) es := by
  intro hall
  have hfair := hall 7 [⟨false, 0x300, .add, true⟩, ⟨true, 0x100, .add, true⟩]
  have hlocks := hfair.2.1.readersWriter
  have hboth : ¬ReadersWriter [(true, true), (false, false)] := by
    intro hwriter
    rcases hwriter with hshared | ⟨p, hone⟩
    · exact absurd (hshared _ List.mem_cons_self) (by decide)
    · exact absurd (List.cons.inj hone).2 (by decide)
  exact hboth hlocks

end MarsNwe
