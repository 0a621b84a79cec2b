import MarsNwe.Lib.Machine
import MarsNwe.Lib.RecordLock

/-! # Sharing of open files

Every process counts how it has a file open and shows the others by shared
record locks on a byte of some lock files which of its counters are not zero.
The calls of all processes for one inode are taken in any order, each one
atomic under the semaphore lock `fd_sm`.
-/

namespace MarsNwe

open KeyedFile RecordLock

/-! ## The code -/

/-- The lock files of a device and the counters that belong to them. -/
inductive ShareFd where
  | fdOr
  | fdOw
  | fdDr
  | fdDw
  | fdFl
deriving DecidableEq

/-- The bit of `open_mode` that belongs to a lock file. -/
def ShareFd.bit : ShareFd → UInt32
  | .fdOr => 0x01
  | .fdOw => 0x02
  | .fdDr => 0x04
  | .fdDw => 0x08
  | .fdFl => 0x100

/-- Some of the bits are set. -/
def wants (mode bits : UInt32) : Bool := mode &&& bits != 0

/-- `ShareINode`: the counters `or`, `ow`, `dr`, `dw`, `fl` and the counter `ex`
of exclusive file locks. -/
structure ShareINode where
  count : ShareFd → Nat
  ex : Nat

/-- A new inode, all zeros. -/
def ShareINode.new : ShareINode := ⟨fun _ => 0, 0⟩

/-- One inode of one device: its number as the `int` that `share_file` gets, what
each process has allocated for it, and the locks on its byte of the lock files. -/
structure ShareTable (F : Type → Type → Type) (P : Type) where
  ino : Int32
  inode : P → Option ShareINode
  locks : ShareFd → F P LockKind

/-- `action` of `share_file`. -/
inductive ShareAction where
  | remove
  | add
  | test
deriving DecidableEq

/-- A call of `share_file` by a process. `last` says that the process has no
other inode of the device, so that releasing this one closes the lock files. -/
structure ShareCall (P : Type) where
  proc : P
  mode : UInt32
  action : ShareAction
  last : Bool

variable {F : Type → Type → Type} [KeyedFile F] {P : Type} [DecidableEq P]

/-- The type that `F_GETLK` for an exclusive lock leaves in `flockd`. The offset is
the inode number: below zero the call fails and leaves the type asked for. -/
def probe (t : ShareTable F P) (p : P) (k : ShareFd) : Option LockKind :=
  if t.ino < 0 then some .write else getlk (t.locks k) p .write

/-- `F_SETLK` with a lock on the byte of the inode. -/
def lockByte (t : ShareTable F P) (p : P) (k : ShareFd) (want : LockKind) : F P LockKind :=
  if t.ino < 0 then t.locks k else setlk (t.locks k) p want

/-- `F_SETLK` with `F_UNLCK` on the byte of the inode. -/
def unlockByte (t : ShareTable F P) (p : P) (k : ShareFd) : F P LockKind :=
  if t.ino < 0 then t.locks k else unlock (t.locks k) p

/-- The bits 0x01 to 0x08 of `act_mode`: from the own counter, else from the
locks of other processes. -/
def actMode (t : ShareTable F P) (p : P) (si : ShareINode) (mode : UInt32) (k : ShareFd) : Bool :=
  0 < si.count k || wants mode 0xff && (probe t p k).isSome

/-- The bits 0x100 and 0x200 of `act_mode`. -/
def actFileLock (t : ShareTable F P) (p : P) (si : ShareINode) (mode : UInt32) : Bool × Bool :=
  if wants mode 0x300 && si.count .fdFl == 0 then
    match probe t p .fdFl with
    | some .write => (true, true)
    | some .read => (true, 0 < si.ex)
    | none => (false, 0 < si.ex)
  else (0 < si.count .fdFl, 0 < si.ex)

/-- The test: whether the result is -1. -/
def shareRefused (t : ShareTable F P) (p : P) (si : ShareINode) (mode : UInt32) : Bool :=
  wants mode 0x01 && actMode t p si mode .fdDr ||
  wants mode 0x02 && actMode t p si mode .fdDw ||
  wants mode 0x04 && actMode t p si mode .fdOr ||
  wants mode 0x08 && actMode t p si mode .fdOw ||
  (wants mode 0x100 && (actFileLock t p si mode).2 ||
    wants mode 0x200 && (actFileLock t p si mode).1)

/-- The lock that shows a counter: only an exclusive file lock is exclusive. -/
def shareLock (mode : UInt32) (k : ShareFd) : LockKind :=
  if k = .fdFl ∧ wants mode 0x200 = false then .write else .read

/-- `ADD`: each counter asked for is incremented, the first time its lock is set. -/
def shareAdd (t : ShareTable F P) (p : P) (si : ShareINode) (mode : UInt32) :
    ShareINode × (ShareFd → F P LockKind) :=
  (⟨fun k => if wants mode k.bit then si.count k + 1 else si.count k,
    if wants mode 0x100 && !wants mode 0x200 then si.ex + 1 else si.ex⟩,
   fun k => if wants mode k.bit && si.count k == 0 then lockByte t p k (shareLock mode k)
    else t.locks k)

/-- `REMOVE`: each counter asked for is decremented, at zero its lock is dropped. -/
def shareRemove (t : ShareTable F P) (p : P) (si : ShareINode) (mode : UInt32) :
    ShareINode × (ShareFd → F P LockKind) :=
  (⟨fun k => if wants mode k.bit then si.count k - 1 else si.count k,
    if wants mode 0x100 && si.count .fdFl == 1 then 0 else si.ex⟩,
   fun k => if wants mode k.bit && si.count k == 1 then unlockByte t p k else t.locks k)

/-- All counters are zero. -/
def ShareINode.unused (si : ShareINode) : Bool :=
  si.count .fdOr == 0 && si.count .fdOw == 0 && si.count .fdDr == 0 && si.count .fdDw == 0 &&
    si.count .fdFl == 0

/-- The end of `share_file`: an inode without registrations is released, and
closing the lock files drops all locks of the process. -/
def shareRelease (t : ShareTable F P) (p : P) (last : Bool)
    (w : ShareINode × (ShareFd → F P LockKind)) : ShareTable F P :=
  if w.1.unused then
    ⟨t.ino, Function.update t.inode p none, if last then fun k => delete (w.2 k) p else w.2⟩
  else ⟨t.ino, Function.update t.inode p (some w.1), w.2⟩

/-- `share_file`, where memory is left and the lock files can be opened. -/
def shareFile (t : ShareTable F P) (e : ShareCall P) : Int × ShareTable F P :=
  if e.mode = 0 then (-1, t)
  else
    match e.action, t.inode e.proc with
    | .remove, none => (-1, t)
    | .remove, some si => (0, shareRelease t e.proc e.last (shareRemove t e.proc si e.mode))
    | .test, si =>
        let si := si.getD .new
        (if shareRefused t e.proc si e.mode then -1 else 0,
          shareRelease t e.proc e.last (si, t.locks))
    | .add, si =>
        let si := si.getD .new
        if shareRefused t e.proc si e.mode then
          (-1, shareRelease t e.proc e.last (si, t.locks))
        else (0, shareRelease t e.proc e.last (shareAdd t e.proc si e.mode))

/-! ## Registrations -/

/-- The table with the registrations that are live: those added and not yet removed. -/
structure ShareState (F : Type → Type → Type) (P : Type) where
  table : ShareTable F P
  live : List (P × UInt32)

/-- What a call makes of the registrations. -/
def registered (live : List (P × UInt32)) (e : ShareCall P) (result : Int) : List (P × UInt32) :=
  match e.action with
  | .add => if result = 0 then (e.proc, e.mode) :: live else live
  | .remove => live.erase (e.proc, e.mode)
  | .test => live

/-- Any number of processes calling `share_file` in any order. -/
def shareMachine : Machine (ShareState F P) (ShareCall P) Int where
  step s e :=
    let (result, table) := shareFile s.table e
    (result, ⟨table, registered s.live e result⟩)

/-- No process has the file open. -/
def ShareState.init (ino : Int32) : ShareState F P := ⟨⟨ino, fun _ => none, fun _ => empty⟩, []⟩

/-- Every removal uses the mode that an add of the process used. -/
def RemovesLive (s : ShareState F P) (e : ShareCall P) : Prop :=
  e.action = .remove → (e.proc, e.mode) ∈ s.live

/-- Two open modes exclude each other: one reads or writes what the other denies. -/
def Conflict (m m' : UInt32) : Prop :=
  (wants m 0x01 ∧ wants m' 0x04) ∨ (wants m 0x02 ∧ wants m' 0x08) ∨
    (wants m 0x04 ∧ wants m' 0x01) ∨ (wants m 0x08 ∧ wants m' 0x02)

instance (m m' : UInt32) : Decidable (Conflict m m') :=
  inferInstanceAs (Decidable (_ ∨ _))

theorem Conflict.symm {m m' : UInt32} (h : Conflict m m') : Conflict m' m := by
  rcases h with h | h | h | h
  · exact .inr (.inr (.inl h.symm))
  · exact .inr (.inr (.inr h.symm))
  · exact .inl h.symm
  · exact .inr (.inl h.symm)

end MarsNwe
