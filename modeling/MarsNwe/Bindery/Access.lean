import MarsNwe.Bindery.Records

/-! # Bindery access rights

`b_acc` decides every access from the security byte of the record and the
identity of the calling connection. The low nibble of the byte is the read
level, the high nibble the level of every other operation.
-/

namespace MarsNwe

/-- What `b_acc` knows about its caller: `internal_act` (or no connection at
all), and the identity fields of `act_c`. -/
structure Caller where
  internalAct : Bool
  objectId : UInt32
  idFlags : UInt32
deriving DecidableEq

namespace Caller

/-- The caller of the server's own routines. -/
def internal : Caller := ⟨true, 0, 0⟩

/-- The caller at the connection of the object `SUPERVISOR`. -/
def supervisor : Caller := ⟨false, 1, 1⟩

/-- `id_flags & 1`: supervisor or supervisor equivalent. -/
def isSupervisor (c : Caller) : Bool := c.idFlags &&& 1 != 0

/-- The level an access asks for: 0 anyone, 1 all logged, 2 object logged,
3 supervisor, 4 internal. -/
def level (security forwrite : UInt8) : UInt8 :=
  (if forwrite &&& 0xf ≠ 0 then security >>> 4 else security) &&& 0xf

/-- The access tests of `b_acc`. -/
def granted (c : Caller) (objId : UInt32) (security forwrite : UInt8) : Bool :=
  if c.internalAct then true
  else if level security forwrite = 0 then true
  else if level security forwrite = 1 then c.objectId > 0
  else if level security forwrite = 2 then c.objectId = objId || c.isSupervisor
  else if level security forwrite = 3 then c.isSupervisor
  else false

end Caller

/-- The error codes of `b_acc`, by the operation that was refused. -/
def accErr (forwrite : UInt8) : Int :=
  if forwrite = 0x00 then -0xf2
  else if forwrite = 0x01 then -0xf8
  else if forwrite = 0x02 then -0xf5
  else if forwrite = 0x03 then -0xf4
  else if forwrite = 0x04 then -0xf3
  else if forwrite = 0x10 then -0xf9
  else if forwrite = 0x11 then -0xf8
  else if forwrite = 0x12 then -0xf7
  else if forwrite = 0x13 then -0xf6
  else -0xff

/-- `b_acc`: 0, or the error code of the refused operation. -/
def bAcc (c : Caller) (objId : UInt32) (security forwrite : UInt8) : Int :=
  if c.granted objId security forwrite then 0 else accErr forwrite

theorem accErr_neg (forwrite : UInt8) : accErr forwrite < 0 := by
  unfold accErr
  repeat' split
  all_goals decide

@[simp] theorem bAcc_eq_zero {c : Caller} {objId : UInt32} {security forwrite : UInt8} :
    bAcc c objId security forwrite = 0 ↔ c.granted objId security forwrite = true := by
  have herr := accErr_neg forwrite
  unfold bAcc
  split <;> simp_all [Int.ne_of_lt]

theorem bAcc_ne_zero {c : Caller} {objId : UInt32} {security forwrite : UInt8}
    (h : bAcc c objId security forwrite ≠ 0) :
    bAcc c objId security forwrite = accErr forwrite := by
  unfold bAcc at h ⊢
  split <;> simp_all

/-- Internal routines have full access. -/
theorem Caller.granted_of_internal {c : Caller} (h : c.internalAct = true)
    (objId : UInt32) (security forwrite : UInt8) : c.granted objId security forwrite = true := by
  rw [granted, if_pos h]

/-- Level 0 is open to everyone. -/
theorem Caller.granted_zero (c : Caller) (objId : UInt32) (forwrite : UInt8) :
    c.granted objId 0 forwrite = true := by
  have hlevel : level 0 forwrite = 0 := by
    unfold level
    split <;> rfl
  simp [granted, hlevel]

/-- Level 4 is closed to every connection, supervisor equivalent or not. -/
theorem Caller.not_granted_of_level {c : Caller} (hc : c.internalAct = false)
    {objId : UInt32} {security forwrite : UInt8} (hlevel : level security forwrite = 4) :
    c.granted objId security forwrite = false := by
  simp [granted, hc, hlevel]

end MarsNwe
