import MarsNwe.Bindery.PropNames

/-! # The login restrictions of an object

The property `LOGIN_CONTROL` holds a record of 86 bytes; objects without it take
their restrictions from `USER_DEFAULTS` of the supervisor. Properties of this
kind are written by `nw_new_obj_prop`.
-/

namespace MarsNwe

open KeyedFile

variable {F : Type → Type → Type} [KeyedFile F]

/-! ## The host -/

/-- `struct tm` as `localtime` fills it in. -/
structure Tm where
  year : Int
  mon : Fin 12
  mday : Nat
  hour : Fin 24
  min : Fin 60
  sec : Nat
  wday : Fin 7

/-- An entry of the password file. -/
structure Passwd where
  name : List UInt8
  passwd : List UInt8
  dir : List UInt8
  uid : UInt32
  gid : UInt32

/-- The routines of the host that the server calls. `mktime` is given the day
whose last second is asked for, as `tm_year`, month and day; `getspnam` is there
with `SHADOW_PWD`. -/
structure Host where
  mktime : UInt8 → UInt8 → UInt8 → Int
  localtime : Int → Tm
  getpwnam : List UInt8 → Option Passwd
  getspnam : Option (List UInt8 → Option (List UInt8))
  crypt : List UInt8 → List UInt8 → List UInt8

/-- The last second of an expiration day; 0 if no year is set. -/
def Host.expiry (h : Host) (year month day : UInt8) : Int :=
  if year ≠ 0 then h.mktime year month day else 0

/-- The settings `password_scheme` and `entry8_flags`. -/
structure Settings where
  passwordScheme : UInt32
  entry8Flags : UInt32

/-! ## Records -/

/-- The bytes of a record from an offset on, as a field of `n` bytes. -/
def fieldAt (record : List UInt8) (offset n : Nat) : ByteBuf n :=
  .ofList n ((record.drop offset).take n)

/-- The byte of a record at an offset. -/
def byteField (record : List UInt8) (offset : Nat) : UInt8 := record.getD offset 0

/-- `GET_BE16`. -/
def getBE16 (b : ByteBuf 2) : Nat := (byteField b.bytes 0).toNat * 256 + (byteField b.bytes 1).toNat

/-- `LOGIN_CONTROL`. -/
structure LoginControl where
  accountExpiresYear : UInt8
  accountExpiresMonth : UInt8
  accountExpiresDay : UInt8
  accountExpired : UInt8
  passwordExpiresYear : UInt8
  passwordExpiresMonth : UInt8
  passwordExpiresDay : UInt8
  passwordGraceLogins : UInt8
  expirationInterval : ByteBuf 2
  graceReset : UInt8
  minimumPasswordLength : UInt8
  maxConcurrentConnections : ByteBuf 2
  timeBitMap : ByteBuf 42
  lastLoginDate : ByteBuf 6
  restrictionFlags : UInt8
  filler : UInt8
  maxDiskBlocks : ByteBuf 4
  badLoginCount : ByteBuf 2
  nextResetTime : ByteBuf 4
  badStationAddress : ByteBuf 12

namespace LoginControl

/-- The record at the start of a segment. -/
def ofBytes (r : List UInt8) : LoginControl where
  accountExpiresYear := byteField r 0
  accountExpiresMonth := byteField r 1
  accountExpiresDay := byteField r 2
  accountExpired := byteField r 3
  passwordExpiresYear := byteField r 4
  passwordExpiresMonth := byteField r 5
  passwordExpiresDay := byteField r 6
  passwordGraceLogins := byteField r 7
  expirationInterval := fieldAt r 8 2
  graceReset := byteField r 10
  minimumPasswordLength := byteField r 11
  maxConcurrentConnections := fieldAt r 12 2
  timeBitMap := fieldAt r 14 42
  lastLoginDate := fieldAt r 56 6
  restrictionFlags := byteField r 62
  filler := byteField r 63
  maxDiskBlocks := fieldAt r 64 4
  badLoginCount := fieldAt r 68 2
  nextResetTime := fieldAt r 70 4
  badStationAddress := fieldAt r 74 12

/-- The 86 bytes of the record. -/
def toBytes (lc : LoginControl) : List UInt8 :=
  [lc.accountExpiresYear, lc.accountExpiresMonth, lc.accountExpiresDay, lc.accountExpired,
    lc.passwordExpiresYear, lc.passwordExpiresMonth, lc.passwordExpiresDay,
    lc.passwordGraceLogins] ++ lc.expirationInterval.bytes ++
  [lc.graceReset, lc.minimumPasswordLength] ++ lc.maxConcurrentConnections.bytes ++
  lc.timeBitMap.bytes ++ lc.lastLoginDate.bytes ++ [lc.restrictionFlags, lc.filler] ++
  lc.maxDiskBlocks.bytes ++ lc.badLoginCount.bytes ++ lc.nextResetTime.bytes ++
  lc.badStationAddress.bytes

end LoginControl

/-- The fields of `USER_DEFAULTS` that `nw_get_login_control` copies. -/
def LoginControl.ofUserDefaults (r : List UInt8) : LoginControl where
  accountExpiresYear := byteField r 0
  accountExpiresMonth := byteField r 1
  accountExpiresDay := byteField r 2
  accountExpired := 0
  passwordExpiresYear := 0
  passwordExpiresMonth := 0
  passwordExpiresDay := 0
  passwordGraceLogins := 0
  expirationInterval := fieldAt r 4 2
  graceReset := byteField r 6
  minimumPasswordLength := byteField r 7
  maxConcurrentConnections := fieldAt r 8 2
  timeBitMap := fieldAt r 10 42
  lastLoginDate := .zero 6
  restrictionFlags := byteField r 3
  filler := 0
  maxDiskBlocks := fieldAt r 60 4
  badLoginCount := .zero 2
  nextResetTime := .zero 4
  badStationAddress := .zero 12

/-! ## Property names -/

/-- `pn_password`. -/
def pnPassword : CText 16 := propName ['P', 'A', 'S', 'S', 'W', 'O', 'R', 'D']

/-- `pn_login_control`. -/
def pnLoginControl : CText 16 :=
  propName ['L', 'O', 'G', 'I', 'N', '_', 'C', 'O', 'N', 'T', 'R', 'O', 'L']

/-- `pn_user_defaults`. -/
def pnUserDefaults : CText 16 :=
  propName ['U', 'S', 'E', 'R', '_', 'D', 'E', 'F', 'A', 'U', 'L', 'T', 'S']

/-- `OLD_PASSWORDS`. -/
def pnOldPasswords : CText 16 :=
  propName ['O', 'L', 'D', '_', 'P', 'A', 'S', 'S', 'W', 'O', 'R', 'D', 'S']

/-- `pn_unix_user`. -/
def pnUnixUser : CText 16 := propName ['U', 'N', 'I', 'X', '_', 'U', 'S', 'E', 'R']

/-- `pn_security_equals`. -/
def pnSecurityEquals : CText 16 :=
  propName ['S', 'E', 'C', 'U', 'R', 'I', 'T', 'Y', '_', 'E', 'Q', 'U', 'A', 'L', 'S']

/-- `NODE_CONTROL`. -/
def pnNodeControl : CText 16 :=
  propName ['N', 'O', 'D', 'E', '_', 'C', 'O', 'N', 'T', 'R', 'O', 'L']

/-! ## Reading and writing -/

/-- `nw_new_obj_prop` without an object name: the property is created or
re-secured, and segment 1 of its value written. -/
def nwNewObjProp (c : Caller) (b : Bindery F) (objId : UInt32) (objSecurity : UInt8)
    (d : PropData) (value : List UInt8) (ever : Bool) : Bindery F :=
  if bAcc c objId objSecurity 0x12 ≠ 0 then b
  else
    let (result, id, b) := nwCreateObjProp b objId d
    if value ≠ [] ∧ (result = 0 ∨ result = -0xed ∧ ever) then
      (insPropVal c b objId ⟨d, objId, id⟩ 1 (.ofList 128 value) 0xff).2
    else b

/-- `nw_get_prop_val_str`: segment 1 and the length of the string in it. -/
def nwGetPropValStr (c : Caller) (b : Bindery F) (objId : UInt32) (propName : CText 16) :
    Except Int (Value × Nat) :=
  match nwGetPropValByObjId c b objId 1 propName with
  | .error e => .error e
  | .ok (v, _, _) => .ok (v, (CText.visible v.bytes).length)

/-- `nw_get_login_control`; `none` where it returns -1. -/
def nwGetLoginControl (c : Caller) (b : Bindery F) (objId : UInt32) : Option LoginControl :=
  match nwGetPropValByObjId c b objId 1 pnLoginControl with
  | .ok (v, _, _) => some (.ofBytes v.bytes)
  | .error _ =>
      match nwGetPropValByObjId c b 1 1 pnUserDefaults with
      | .ok (v, _, _) => some (.ofUserDefaults v.bytes)
      | .error _ => none

/-- `nw_set_login_control`. -/
def nwSetLoginControl (c : Caller) (b : Bindery F) (objId : UInt32) (lc : LoginControl) :
    Bindery F :=
  nwNewObjProp c b objId 0 ⟨pnLoginControl, 0, 0x32⟩ lc.toBytes true

/-! ## What the writing leaves -/

section

variable {c : Caller} (hc : c.internalAct = true) (b : Bindery F) (objId : UInt32)
  (objSecurity : UInt8) (d : PropData) {value : List UInt8} (hvalue : value ≠ [])

include hc hvalue

/-- The property and its value are written; all other properties are kept. -/
theorem nwNewObjProp_internal :
    let id := (nwCreateObjProp b objId d).2.1
    let b' := nwNewObjProp c b objId objSecurity d value true
    b'.nwprop = (nwCreateObjProp b objId d).2.2.nwprop ∧
      fetch b'.nwval (objId, id, 1) = some (.ofList 128 value) ∧
      ∀ k, k ≠ (objId, id) → Kept b b' k := by
  have hright : ∀ security forwrite, bAcc c objId security forwrite = 0 := fun _ _ =>
    bAcc_eq_zero.mpr (Caller.granted_of_internal hc _ _ _)
  have hcode : (nwCreateObjProp b objId d).1 = 0 ∨
      (nwCreateObjProp b objId d).1 = -0xed ∧ true = true := by
    unfold nwCreateObjProp
    split
    next => split <;> exact .inr ⟨rfl, rfl⟩
    next => exact .inl rfl
  intro id b'
  have hb' : b' = (insPropVal c (nwCreateObjProp b objId d).2.2 objId ⟨d, objId, id⟩ 1
      (.ofList 128 value) 0xff).2 := by
    change nwNewObjProp c b objId objSecurity d value true = _
    unfold nwNewObjProp
    rw [hright, if_neg (not_not.mpr rfl)]
    dsimp only
    rw [if_pos ⟨hvalue, hcode⟩]
  have hnwval : (nwCreateObjProp b objId d).2.2.nwval = b.nwval := nwCreateObjProp_nwval objId d
  refine ⟨?_, ?_, fun k hk => ?_⟩
  · rw [hb', insPropVal, hright, if_neg (not_not.mpr rfl), if_neg (by simp)]
    rfl
  · rw [hb', insPropVal, hright, if_neg (not_not.mpr rfl), if_neg (by simp)]
    dsimp only
    rw [if_pos rfl, fetch_deletePrefix (valKeysAfter_nodup _ _ _), if_neg, fetch_store_self]
    intro hmem
    have hlt := (mem_valKeysAfter.mp (List.takeWhile_subset _ hmem)).2.2
    exact absurd hlt (Nat.lt_irrefl _)
  · have hcreated : Kept b (nwCreateObjProp b objId d).2.2 k := by
      refine ⟨?_, fun t => by rw [hnwval]⟩
      rw [nwCreateObjProp_fetch, if_neg hk]
    rw [hb']
    exact hcreated.trans (insPropVal_keeps (p := ⟨d, objId, id⟩) hk 1 _ _)

/-- The value written is the value of the named property. -/
theorem hasValue_newObjProp :
    HasValue (nwNewObjProp c b objId objSecurity d value true) objId d.name (.ofList 128 value) := by
  obtain ⟨hprop, hval, -⟩ := nwNewObjProp_internal hc b objId objSecurity d hvalue
  refine ⟨_, d, ?_, rfl, hval⟩
  rw [hprop, nwCreateObjProp_fetch, if_pos rfl]

/-- No other property has a value that it did not have before. -/
theorem hasValue_of_newObjProp {objId' : UInt32} {name : CText 16}
    (hne : (objId', name) ≠ (objId, d.name)) {v : Value}
    (h : HasValue (nwNewObjProp c b objId objSecurity d value true) objId' name v) :
    HasValue b objId' name v := by
  obtain ⟨hprop, -, hkept⟩ := nwNewObjProp_internal hc b objId objSecurity d hvalue
  have hwritten := nwCreateObjProp_fetch b objId d (objId, (nwCreateObjProp b objId d).2.1)
  rw [if_pos rfl, ← hprop] at hwritten
  generalize (nwCreateObjProp b objId d).2.1 = id at hkept hwritten
  obtain ⟨i, e, hfetch, hname, hval⟩ := h
  have hk : (objId', i) ≠ (objId, id) := by
    intro heq
    obtain ⟨rfl, rfl⟩ := Prod.mk.inj heq
    rw [hwritten] at hfetch
    rw [← Option.some.inj hfetch] at hname
    exact hne (by rw [hname])
  rw [(hkept _ hk).record] at hfetch
  rw [(hkept _ hk).value 1] at hval
  exact ⟨i, e, hfetch, hname, hval⟩

/-- The values of all other properties stay as they are, but for that of a property whose
id is taken. -/
theorem hasValue_newObjProp_of_ne {objId' : UInt32} {name : CText 16}
    (hne : (objId', name) ≠ (objId, d.name))
    (hid : ∀ e, fetch b.nwprop (objId, (nwCreateObjProp b objId d).2.1) = some e →
      e.name ≠ d.name → e.name ≠ name) {v : Value} (h : HasValue b objId' name v) :
    HasValue (nwNewObjProp c b objId objSecurity d value true) objId' name v := by
  obtain ⟨hprop, -, hkept⟩ := nwNewObjProp_internal hc b objId objSecurity d hvalue
  obtain ⟨i, e, hfetch, hname, hval⟩ := h
  have hk : (objId', i) ≠ (objId, (nwCreateObjProp b objId d).2.1) := by
    intro heq
    obtain ⟨rfl, rfl⟩ := Prod.mk.inj heq
    refine hid e hfetch (fun heq => ?_) hname
    exact hne (by rw [← hname, heq])
  refine ⟨i, e, ?_, hname, ?_⟩
  · rw [(hkept _ hk).record]
    exact hfetch
  · rw [(hkept _ hk).value 1]
    exact hval

/-- Writing a property that exists leaves the values of all other ones alone. -/
theorem hasValue_newObjProp_other {w : Value} (hexists : HasValue b objId d.name w)
    {objId' : UInt32} {name : CText 16} (hne : (objId', name) ≠ (objId, d.name)) (v : Value) :
    HasValue (nwNewObjProp c b objId objSecurity d value true) objId' name v ↔
      HasValue b objId' name v := by
  refine ⟨hasValue_of_newObjProp hc b objId objSecurity d hvalue hne,
    hasValue_newObjProp_of_ne hc b objId objSecurity d hvalue hne fun e hfetch hother => ?_⟩
  rcases nwCreateObjProp_id b objId d with ⟨d', hfetch', hname'⟩ | ⟨hnone, -⟩
  · rw [hfetch] at hfetch'
    rw [Option.some.inj hfetch'] at hother
    exact absurd hname' hother
  · obtain ⟨i, d', hfetch', hname', -⟩ := hexists
    exact absurd hname' (hnone i d' hfetch')

theorem PropNamesUnique.newObjProp {b : Bindery F} (huniq : PropNamesUnique b) :
    PropNamesUnique (nwNewObjProp c b objId objSecurity d value true) :=
  (huniq.createObjProp objId d).of_nwprop (nwNewObjProp_internal hc b objId objSecurity d hvalue).1

end

end MarsNwe
