import MarsNwe.Lib.ByteBuf
import MarsNwe.Lib.LockTable
import MarsNwe.Share.LockSets

/-! # Locks of logical records

A logical record has a name only. Its lock is the lock of one byte of a lock file:
the first four bytes of the name say which byte, the others which file. A process
keeps a list of the lock files it has open, each with a list of the bytes it has
locked and how often, and asks the kernel only for the first lock of a byte.
-/

namespace MarsNwe

open KeyedFile RecordLock

/-! ## The code -/

/-- `data` and `len`: the name of a record. -/
structure RecordName where
  data : List UInt8
  pos : 1 ≤ data.length
  short : data.length ≤ 255
deriving DecidableEq

/-- `offset`. Behind the end of a name there are zeros. -/
def recordOffset (data : List UInt8) : UInt32 :=
  be32 (data.getD 0 0) (data.getD 1 0) (data.getD 2 0) (data.getD 3 0)

/-- The loop over `fn`, which holds `len` bytes, from a byte on: what becomes of the
bytes, and how many `_` are appended. `sizeof(fn-1)` is the size `w` of a pointer. -/
def rewriteFn (w len : Nat) : List UInt8 → List UInt8 × Nat
  | [] => ([], 0)
  | b :: bs =>
      if b = 0x2f ∨ b = 0 then
        let more := if len < w then 1 else 0
        let (fn, appended) := rewriteFn w (len + more) bs
        ((if b = 0x2f then 0x2d else 0x5f) :: fn, appended + more)
      else
        let (fn, appended) := rewriteFn w len bs
        (b :: fn, appended)

/-- `GENERIC_LOCKFILE` -/
def genericLockfile : List UInt8 :=
  [0x47, 0x45, 0x4e, 0x45, 0x52, 0x49, 0x43, 0x5f, 0x4c, 0x4f, 0x43, 0x4b, 0x46, 0x49, 0x4c, 0x45]

/-- `fn`. -/
def lockFn (w : Nat) (data : List UInt8) : List UInt8 :=
  let rest := data.drop 4
  if rest = [] then genericLockfile
  else
    let rest := if rest.length > 256 then rest.take w else rest
    let (fn, appended) := rewriteFn w rest.length rest
    fn ++ List.replicate appended 0x5f

/-- `LOCK_AREA`, without its `offset`. -/
structure LockArea where
  locks : Int
  exclusive : Int
deriving DecidableEq

/-- The areas of a `LOCK_FILE`, each under its `offset`. -/
abbrev LockAreas := ListFile UInt32 LockArea

/-- What `fcntl` keeps for every byte of the lock files, and the list `root_lf` of
every process, each file under its `fn`. -/
structure RecordLocks (F : Type → Type → Type) (P : Type) where
  bytes : List UInt8 → UInt32 → F P LockKind
  rootLf : P → ListFile (List UInt8) LockAreas

variable {F : Type → Type → Type} [KeyedFile F] {P : Type} [DecidableEq P]

def RecordLocks.init : RecordLocks F P := ⟨fun _ _ => empty, fun _ => empty⟩

/-- `fcntl` with `F_SETLK`, after which the byte of the file has the locks `locks`. -/
def RecordLocks.setByte (s : RecordLocks F P) (fn : List UInt8) (offset : UInt32)
    (locks : F P LockKind) : RecordLocks F P :=
  { s with bytes := fun fn' offset' =>
      if fn' = fn ∧ offset' = offset then locks else s.bytes fn' offset' }

/-- `close`: the process loses all its locks of the file. -/
def RecordLocks.close (s : RecordLocks F P) (p : P) (fn : List UInt8) : RecordLocks F P :=
  { s with bytes := fun fn' offset =>
      if fn' = fn then delete (s.bytes fn' offset) p else s.bytes fn' offset }

/-- The list of a process is changed. -/
def RecordLocks.setRoot (s : RecordLocks F P) (p : P) (rootLf : ListFile (List UInt8) LockAreas) :
    RecordLocks F P :=
  { s with rootLf := fun q => if q = p then rootLf else s.rootLf q }

/-- The areas of a file that a process has in its list are changed, or the file is
appended to the list. -/
def RecordLocks.setAreas (s : RecordLocks F P) (p : P) (fn : List UInt8) (areas : LockAreas) :
    RecordLocks F P :=
  s.setRoot p (store (s.rootLf p) fn areas)

/-- The type of lock for a `lock_flag` of 1 or 3. -/
def lockType (lockFlag : Int) : LockKind := if lockFlag = 1 then .write else .read

/-- `INT_MAX`. -/
@[irreducible] def intMax : Int := 0x7fffffff

/-- From `find_lockarea` on, with the areas of the file `fn`. There is no result when
the count of the locks overflows. -/
def lockArea (s : RecordLocks F P) (p : P) (lockFlag : Int) (fn : List UInt8) (offset : UInt32)
    (areas : LockAreas) : Option (Int × RecordLocks F P) :=
  let byte := s.bytes fn offset
  match fetch areas offset with
  | none =>
      if lockFlag < 0 then some (-0xff, s)
      else if (getlk byte p (lockType lockFlag)).isSome then some (-0xfe, s)
      else
        let la := ⟨1, if lockFlag = 1 then 1 else 0⟩
        some (0, (s.setByte fn offset (setlk byte p (lockType lockFlag))).setAreas p fn
          (store areas offset la))
  | some la =>
      if lockFlag > -1 then
        if la.exclusive ≠ 0 ∨ lockFlag = 1 then some (-0xfe, s)
        else if la.locks < intMax then
          some (0, s.setAreas p fn (store areas offset { la with locks := la.locks + 1 }))
        else none
      else if la.locks - 1 > 0 then
        some (0, s.setAreas p fn (store areas offset { la with locks := la.locks - 1 }))
      else
        let s := s.setByte fn offset (unlock byte p)
        let areas := delete areas offset
        if areas.records = [] then
          some (0, (s.close p fn).setRoot p (delete (s.rootLf p) fn))
        else some (0, s.setAreas p fn areas)

/-- `nw_log_logical_record` from the offset on, in a process. -/
def lockRecord (w : Nat) (s : RecordLocks F P) (p : P) (lockFlag : Int) (data : List UInt8) :
    Option (Int × RecordLocks F P) :=
  let offset := recordOffset data
  let fn := lockFn w data
  match fetch (s.rootLf p) fn with
  | some areas => lockArea s p lockFlag fn offset areas
  | none =>
      if lockFlag < 0 then some (-0xff, s)
      else
        let byte := s.bytes fn offset
        if (getlk byte p (lockType lockFlag)).isSome then some (-0xfe, s)
        else
          let s := s.setByte fn offset (setlk byte p (lockType lockFlag))
          lockArea (s.setAreas p fn empty) p lockFlag fn offset empty

/-- The calls for the locks that `nw_log_logical_record` and its callers make in a
process, and `share_file` of the system at hand. `none` is the state after an
overflow. -/
def recordCalls (w : Nat)
    (shareFile : Option (RecordLocks F P) → Int → Int → Int → Int → Int × Option (RecordLocks F P))
    (p : P) : LockCalls (Option (RecordLocks F P)) where
  shareFile := shareFile
  lockRecord s lockFlag _ data :=
    match s.bind fun s => lockRecord w s p lockFlag data with
    | some (result, s) => (result, some s)
    | none => (0, none)

/-- The `lock_flag`s that lock and unlock. -/
inductive LogFlag where
  | exclusive
  | shared
  | remove
  | removeLog
deriving DecidableEq

def LogFlag.value : LogFlag → Int
  | .exclusive => 1
  | .shared => 3
  | .remove => -1
  | .removeLog => -2

/-- A call of `nw_log_logical_record` in a process. -/
structure LogCall (P : Type) where
  proc : P
  flag : LogFlag
  timeout : Int
  name : RecordName
deriving DecidableEq

/-- The locks of the system, and `first_set` of every process. -/
structure LogState (F : Type → Type → Type) (P : Type) where
  locks : Option (RecordLocks F P)
  firstSet : P → List ShareSet

def LogState.init : LogState F P := ⟨some RecordLocks.init, fun _ => []⟩

/-- The processes as they call `nw_log_logical_record`. There is no answer from an
overflow on. -/
def logMachine (w : Nat)
    (shareFile : Option (RecordLocks F P) → Int → Int → Int → Int →
      Int × Option (RecordLocks F P)) :
    Machine (LogState F P) (LogCall P) (Option Int) where
  step s e :=
    let (result, s') := nwLogLogicalRecord (recordCalls w shareFile e.proc)
      ⟨s.locks, s.firstSet e.proc⟩ e.flag.value e.timeout e.name.data
    (s'.world.map fun _ => result,
      ⟨s'.world, fun q => if q = e.proc then s'.firstSet else s.firstSet q⟩)

end MarsNwe
