import MarsNwe.Login.Restrictions
import MarsNwe.Nwbind.Dispatch

/-! # Changing a password in plain text

The request takes the new password as the client sends it; the login that takes
a password in plain text hashes it in upper case.
-/

namespace MarsNwe

open KeyedFile

variable {F : Type → Type → Type} [KeyedFile F]

/-! ## The code -/

/-- `PW_SCHEME_CHANGE_PW`. -/
def pwSchemeChangePw : UInt32 := 1

/-- `pn_special_flags`. -/
def pnSpecialFlags : CText 16 :=
  propName ['S', 'P', '_', 'S', 'U', '_', 'F', 'L', 'A', 'G', 'S']

/-- `nw_valid_newpasswd`. -/
def nwValidNewpasswd (c : Caller) (b : Bindery F) (objId : UInt32) (newpasswd : CText 50) : Int :=
  match nwGetLoginControl c b objId with
  | none => 0
  | some lc => if newpasswd.bytes.length < lc.minimumPasswordLength.toNat then -0xd8 else 0

/-- `test_allow_password_change`. -/
def testAllowPasswordChange (c : Caller) (b : Bindery F) (id : UInt32) : Int :=
  let fixed : Bool := match nwGetPropValByObjId c b id 1 pnSpecialFlags with
    | .ok (buff, _, _) => be32At buff.bytes 0 &&& 1 != 0
    | .error _ => false
  let masked : Bool := match nwGetPropValByObjId c b id 1 pnLoginControl with
    | .ok (buff, _, _) => byteField buff.bytes 62 &&& 1 != 0
    | .error _ => false
  if fixed || masked then -0xff else 0

/-- The fields of the request 0x17, 0x40, each a byte of length and a text. -/
structure PasswordChange where
  type : UInt16
  name : CText 48
  oldpassword : CText 50
  newpassword : CText 50

/-- The fields where `handle_fxx` finds them. -/
def PasswordChange.ofRequest (rdata : List UInt8) : PasswordChange :=
  let p := 2
  let p₁ := p + (dataByte rdata p).toNat + 1
  let p₂ := p₁ + (dataByte rdata p₁).toNat + 1
  ⟨be16At rdata 0, upstr (textAt 47 rdata p), textAt 49 rdata p₁, textAt 49 rdata p₂⟩

/-- The tests of a connection without supervisor rights: its own restrictions,
and the old password of the object. -/
def testPasswordChange (env : Env) (c : Connection) (b : Bindery F) (objId : UInt32)
    (r : PasswordChange) : Int :=
  let result := testAllowPasswordChange .internal b c.objectId
  if result ≠ 0 then result
  else
    let result := nwValidNewpasswd .internal b c.objectId r.newpassword
    if result ≠ 0 then result
    else nwTestUnenpasswd env.host .internal b objId (.copy 79 r.oldpassword.bytes)

/-- `case 0x40`: the completion code and the bindery. -/
def changeObjectPassword (env : Env) (c : Connection) (b : Bindery F) (r : PasswordChange) :
    UInt8 × Bindery F :=
  if env.settings.passwordScheme &&& pwSchemeChangePw = 0 then (0xff, b)
  else
    match findObjId b r.type r.name with
    | (.error e, b) => (UInt8.ofInt (-e), b)
    | (.ok obj, b) =>
        let su : Bool := c.idFlags &&& 1 != 0
        let tested := if su then 0 else testPasswordChange env c b obj.id r
        let (result, b) :=
          if tested ≠ 0 then (tested, b)
          else if !su || r.newpassword.bytes ≠ [] ||
              env.settings.passwordScheme &&& pwSchemeLogin = 0 then
            nwSetPasswd env.host env.now .internal b obj.id r.newpassword.bytes false
          else (-0xff, b)
        (if result < 0 then UInt8.ofInt (-result) else 0, b)

/-! ## What a change leaves -/

theorem nwSetEnpasswd_result (h : Host) (now : Int) (c : Caller) (b : Bindery F) (objId : UInt32)
    (passwd : Option (ByteBuf 16)) (dontCh : Bool) :
    (nwSetEnpasswd h now c b objId passwd dontCh).1 = 0 ∨
      (nwSetEnpasswd h now c b objId passwd dontCh).1 = -0xd7 := by
  unfold nwSetEnpasswd
  grind

theorem testPasswordChange_cases (env : Env) (c : Connection) (b : Bindery F) (objId : UInt32)
    (r : PasswordChange) : testPasswordChange env c b objId r = 0 ∨
      testPasswordChange env c b objId r = -0xd8 ∨
        testPasswordChange env c b objId r = -0xff := by
  have htest := nwTestUnenpasswd_cases env.host .internal b objId (.copy 79 r.oldpassword.bytes)
  unfold testPasswordChange testAllowPasswordChange nwValidNewpasswd
  grind

/-- A request that completes with code 0 has set the password. -/
theorem changeObjectPassword_zero {env : Env} {c : Connection} {b b₁ b' : Bindery F}
    {r : PasswordChange} {obj : NetObj} (hfind : findObjId b r.type r.name = (.ok obj, b₁))
    (hchange : changeObjectPassword env c b r = (0, b')) :
    nwSetPasswd env.host env.now .internal b₁ obj.id r.newpassword.bytes false = (0, b') := by
  unfold changeObjectPassword at hchange
  split at hchange
  next => exact absurd (Prod.mk.inj hchange).1 (by decide)
  next =>
    rw [hfind] at hchange
    dsimp only at hchange
    have htested : (if (c.idFlags &&& 1 != 0) = true then 0
        else testPasswordChange env c b₁ obj.id r) = 0 ∨
        (if (c.idFlags &&& 1 != 0) = true then 0
          else testPasswordChange env c b₁ obj.id r) = -0xd8 ∨
        (if (c.idFlags &&& 1 != 0) = true then 0
          else testPasswordChange env c b₁ obj.id r) = -0xff := by
      split
      next => exact .inl rfl
      next => exact testPasswordChange_cases env c b₁ obj.id r
    generalize (if (c.idFlags &&& 1 != 0) = true then 0
      else testPasswordChange env c b₁ obj.id r) = tested at hchange htested
    rcases htested with rfl | rfl | rfl
    · rw [if_neg (not_not.mpr rfl)] at hchange
      split at hchange
      next =>
        have hresult : (nwSetPasswd env.host env.now .internal b₁ obj.id r.newpassword.bytes
            false).1 = 0 ∨ (nwSetPasswd env.host env.now .internal b₁ obj.id
              r.newpassword.bytes false).1 = -0xd7 := by
          unfold nwSetPasswd
          split <;> exact nwSetEnpasswd_result _ _ _ _ _ _ _
        generalize nwSetPasswd env.host env.now .internal b₁ obj.id r.newpassword.bytes false =
          set at hchange hresult
        obtain ⟨result, b₂⟩ := set
        rcases hresult with rfl | rfl
        · exact Prod.ext rfl (Prod.mk.inj hchange).2
        · exact absurd (Prod.mk.inj hchange).1 (show ¬UInt8.ofInt 0xd7 = 0 by decide)
      next => exact absurd (Prod.mk.inj hchange).1 (show ¬UInt8.ofInt 0xff = 0 by decide)
    · exact absurd (Prod.mk.inj hchange).1 (show ¬UInt8.ofInt 0xd8 = 0 by decide)
    · exact absurd (Prod.mk.inj hchange).1 (show ¬UInt8.ofInt 0xff = 0 by decide)

/-! ## The password that a login in plain text accepts -/

section

variable {c : Caller} (hc : c.internalAct = true) {b : Bindery F} (huniq : PropNamesUnique b)
  {objId : UInt32}

include hc huniq

/-- Without an account on the host, the stored hash decides. -/
theorem nwTestUnenpasswd_eq_zero_iff {h : Host} (hnone : nwGetpwnam h c b objId = none)
    (password : CText 80) : nwTestUnenpasswd h c b objId password = 0 ↔
      password.bytes ≠ [] ∧ ∃ v, HasValue b objId pnPassword v ∧ byteField v.bytes 0 ≠ 0 ∧
        shuffle (be32Bytes objId) (upstr password).bytes = fieldAt v.bytes 0 16 := by
  unfold nwTestUnenpasswd
  rw [hnone]
  cases hget : nwGetPropValStr c b objId pnPassword with
  | error e =>
      apply iff_of_false
      · exact fun hzero => absurd hzero (show ¬(-0xff : Int) = 0 by decide)
      · rintro ⟨-, v, hvalue, -⟩
        have hok := (nwGetPropValStr_internal hc huniq (by decide) v _).mpr ⟨hvalue, rfl⟩
        rw [hget] at hok
        contradiction
  | ok r =>
      obtain ⟨v, n⟩ := r
      obtain ⟨hvalue, rfl⟩ := (nwGetPropValStr_internal hc huniq (by decide) v n).mp hget
      dsimp only
      constructor
      · intro hzero
        split at hzero
        next hstored =>
          obtain ⟨hpassword, hpos, heq⟩ := of_decide_eq_true hstored
          exact ⟨hpassword, v, hvalue, visible_length_pos.mp hpos, heq⟩
        next => exact absurd hzero (by decide)
      · rintro ⟨hpassword, v', hvalue', hfirst, heq⟩
        obtain rfl := HasValue.unique huniq hvalue hvalue'
        rw [if_pos (decide_eq_true ⟨hpassword, visible_length_pos.mpr hfirst, heq⟩)]

/-- The account on the host depends only on the value of `UNIX_USER`. -/
theorem nwGetpwnam_eq_none {h : Host} {b' : Bindery F} (huniq' : PropNamesUnique b')
    (hvalues : ∀ v, HasValue b' objId pnUnixUser v → HasValue b objId pnUnixUser v)
    (hnone : nwGetpwnam h c b objId = none) : nwGetpwnam h c b' objId = none := by
  unfold nwGetpwnam at hnone ⊢
  cases hget : nwGetPropValStr c b' objId pnUnixUser with
  | error e => rfl
  | ok r =>
      obtain ⟨v, n⟩ := r
      obtain ⟨hvalue, hn⟩ := (nwGetPropValStr_internal hc huniq' (by decide) v n).mp hget
      rwa [(nwGetPropValStr_internal hc huniq (by decide) v n).mpr ⟨hvalues v hvalue, hn⟩] at hnone

end

/-! ## Other values -/

/-- Deleting a property brings no value. -/
theorem hasValue_of_locDeleteProperty {c : Caller} {b : Bindery F} {objId objId' : UInt32}
    {name name' : CText 16} {ever : Bool} {v : Value}
    (h : HasValue (locDeleteProperty c b objId name ever).2 objId' name' v) :
    HasValue b objId' name' v := by
  obtain ⟨i, d, hfetch, hname, hval⟩ := h
  rw [fetch_nwprop_locDeleteProperty] at hfetch
  rw [(locDeleteProperty_eq c b objId name ever).1] at hval
  dsimp only at hval
  rw [fetch_deleteValues (deletedIds_nodup c b objId name ever)] at hval
  split at hfetch
  next => contradiction
  next =>
    split at hval
    next => contradiction
    next => exact ⟨i, d, hfetch, hname, hval⟩

/-- Setting a password brings no value of a property that it is not about. -/
theorem hasValue_of_nwSetEnpasswd {c : Caller} (hc : c.internalAct = true) (h : Host) (now : Int)
    {b b' : Bindery F} (huniq : PropNamesUnique b) {objId : UInt32} {p : ByteBuf 16}
    (hset : nwSetEnpasswd h now c b objId (some p) false = (0, b')) {name : CText 16}
    (hpassword : name ≠ pnPassword) (hold : name ≠ pnOldPasswords)
    (hcontrol : name ≠ pnLoginControl) {v : Value} (hvalue : HasValue b' objId name v) :
    HasValue b objId name v := by
  have hne : ∀ {name' : CText 16}, name ≠ name' → (objId, name) ≠ (objId, name') := by
    intro name' hother heq
    exact hother (Prod.mk.inj heq).2
  have hbytes : ∀ l : List UInt8, p.bytes ++ l ≠ [] := by
    intro l hnil
    have hlen := p.length_eq
    rw [(List.append_eq_nil_iff.mp hnil).1] at hlen
    contradiction
  unfold nwSetEnpasswd at hset
  split at hset
  next q hq =>
    obtain rfl := Option.some.inj (Option.filter_eq_some_iff.mp hq).1
    simp only [Bool.not_false, Bool.true_or, if_true] at hset
    have hupdated : HasValue (nwUpdateOldpasswd c b objId p).2 objId name v →
        HasValue b objId name v := by
      unfold nwUpdateOldpasswd
      split
      next => exact id
      next segm more flags hget =>
        split
        next => exact id
        next =>
          exact hasValue_of_newObjProp hc b objId 0 ⟨pnOldPasswords, 0, 0x32⟩ (hbytes _) (hne hold)
    have huniq₁ := huniq.updateOldpasswd hc objId p
    generalize nwUpdateOldpasswd c b objId p = old at hset hupdated huniq₁
    obtain ⟨result, b₁⟩ := old
    split at hset
    next => exact absurd (Prod.mk.inj hset).1 (by decide)
    next =>
      have hp : p.bytes ≠ [] := by simpa using hbytes []
      have hrenew := (renewExpiration_internal hc h now
        (PropNamesUnique.newObjProp hc objId 0 ⟨pnPassword, 0, 0x44⟩ hp huniq₁) objId).2 name v
        hcontrol
      rw [← (Prod.mk.inj hset).2, hrenew] at hvalue
      exact hupdated (hasValue_of_newObjProp hc b₁ objId 0 ⟨pnPassword, 0, 0x44⟩ hp
        (hne hpassword) hvalue)
  next =>
    simp only [Bool.not_false, if_true] at hset
    have huniq₁ : PropNamesUnique (locDeleteProperty c b objId pnPassword true).2 := by
      apply huniq.of_names
      intro k d hfetch
      rw [fetch_nwprop_locDeleteProperty] at hfetch
      split at hfetch
      next => contradiction
      next => exact ⟨d, hfetch, rfl⟩
    rw [← (Prod.mk.inj hset).2,
      (renewExpiration_internal hc h now huniq₁ objId).2 name v hcontrol] at hvalue
    exact hasValue_of_locDeleteProperty hvalue

/-! ## Changing, then logging in -/

/-- After a change in plain text the new password is accepted by a login in plain
text, and only passwords with its hash in upper case are, exactly when the
password hashes as in upper case to bytes that do not start with a zero (or an
undeletable hash that does is there already). -/
theorem nwTestUnenpasswd_changeObjectPassword_iff (env : Env) (h : Host) (c : Connection)
    {b b₁ b' : Bindery F} (huniq : PropNamesUnique b) {r : PasswordChange} {obj : NetObj}
    (hfind : findObjId b r.type r.name = (.ok obj, b₁))
    (hnone : nwGetpwnam h .internal b obj.id = none) (hnew : r.newpassword.bytes ≠ [])
    (hchange : changeObjectPassword env c b r = (0, b')) :
    let password : CText 80 := .copy 79 r.newpassword.bytes
    let hash := shuffle (be32Bytes obj.id) r.newpassword.bytes
    let upper := shuffle (be32Bytes obj.id) (upstr password).bytes
    (nwTestUnenpasswd h .internal b' obj.id password = 0 ∧
      ∀ other : CText 80, upstr other ≠ upstr password →
        shuffle (be32Bytes obj.id) (upstr other).bytes ≠ upper →
        nwTestUnenpasswd h .internal b' obj.id other = -0xff) ↔
    if byteField hash.bytes 0 ≠ 0 then hash = upper
    else ∃ v, HashAtZero b obj.id v ∧ byteField v.bytes 0 ≠ 0 ∧ fieldAt v.bytes 0 16 = upper := by
  intro password hash upper
  have hc : Caller.internal.internalAct = true := rfl
  have hframe := findObjId_frame hfind
  have huniq₁ : PropNamesUnique b₁ := huniq.of_nwprop hframe.2.1
  have hvalues₁ : ∀ {name v}, HasValue b₁ obj.id name v → HasValue b obj.id name v := by
    intro name v hvalue
    unfold HasValue at hvalue ⊢
    rwa [hframe.2.1, hframe.2.2] at hvalue
  have hset := changeObjectPassword_zero hfind hchange
  rw [nwSetPasswd, if_pos hnew] at hset
  have hunix : ∀ v, HasValue b' obj.id pnUnixUser v → HasValue b obj.id pnUnixUser v := by
    intro v hvalue
    exact hvalues₁ (hasValue_of_nwSetEnpasswd hc env.host env.now huniq₁ hset (by decide)
      (by decide) (by decide) hvalue)
  have hbytes : password.bytes = r.newpassword.bytes :=
    CText.bytes_copy (by have hlt := r.newpassword.length_lt; omega) r.newpassword.noNul
  have hstored : PropNamesUnique b' ∧ ((∃ v, HasValue b' obj.id pnPassword v ∧
      byteField v.bytes 0 ≠ 0 ∧ upper = fieldAt v.bytes 0 16) ↔
      if byteField hash.bytes 0 ≠ 0 then hash = upper
      else ∃ v, HashAtZero b obj.id v ∧ byteField v.bytes 0 ≠ 0 ∧ fieldAt v.bytes 0 16 = upper) := by
    by_cases hfirst : byteField hash.bytes 0 = 0
    · obtain ⟨huniq', hvalues⟩ := nwSetEnpasswd_deleted hc env.host env.now huniq₁ hfirst hset
      refine ⟨huniq', ?_⟩
      rw [if_neg (not_not.mpr hfirst)]
      refine exists_congr fun v => ?_
      rw [hvalues v, hframe.2.1, hframe.2.2, eq_comm (a := upper)]
      exact Iff.rfl
    · obtain ⟨huniq', hvalue⟩ := nwSetEnpasswd_stored hc env.host env.now huniq₁ hfirst hset
      refine ⟨huniq', ?_⟩
      rw [if_pos hfirst]
      constructor
      · rintro ⟨v, hv, -, heq⟩
        rw [heq, HasValue.unique huniq' hv hvalue, fieldAt_ofList]
      · intro heq
        refine ⟨_, hvalue, ?_, ?_⟩
        · rw [← fieldAt_ofList hash, byteField_fieldAt_zero (by decide)] at hfirst
          exact hfirst
        · rw [fieldAt_ofList, heq]
  obtain ⟨huniq', hstored⟩ := hstored
  have hnone' := nwGetpwnam_eq_none hc huniq huniq' hunix hnone
  have haccept := nwTestUnenpasswd_eq_zero_iff hc huniq' hnone' password
  constructor
  · rintro ⟨hzero, -⟩
    exact hstored.mp (haccept.mp hzero).2
  · intro hcondition
    have hfield := hstored.mpr hcondition
    refine ⟨haccept.mpr ⟨hbytes ▸ hnew, hfield⟩, fun other _ hdiffers => ?_⟩
    apply (nwTestUnenpasswd_cases h .internal b' obj.id other).resolve_left
    intro hzero
    obtain ⟨-, v', hv', -, heq'⟩ := (nwTestUnenpasswd_eq_zero_iff hc huniq' hnone' other).mp hzero
    obtain ⟨v, hv, -, heq⟩ := hfield
    rw [heq', HasValue.unique huniq' hv' hv, ← heq] at hdiffers
    exact hdiffers rfl

/-- A connection with supervisor rights. -/
def suConnection : Connection :=
  ⟨⟨.zero 4, .zero 6, .zero 2⟩, 1, 1, .zero 8, 0, true⟩

/-- The request for a new password of ANN, who has none. -/
def annChange (newpassword : List Char) : PasswordChange :=
  .ofRequest ([0, 1, 3] ++ asciiBytes ['A', 'N', 'N'] ++ [0, UInt8.ofNat newpassword.length] ++
    asciiBytes newpassword)

/-- ANN gets the password `HELLO`. -/
theorem nwTestUnenpasswd_changeObjectPassword_iff_hello :
    let b := binderyMachine.exec (Bindery.empty : Bindery ListFile) annRun
    let r := annChange ['H', 'E', 'L', 'L', 'O']
    let password : CText 80 := .copy 79 r.newpassword.bytes
    let hash := shuffle (be32Bytes 0x10002) r.newpassword.bytes
    let upper := shuffle (be32Bytes 0x10002) (upstr password).bytes
    ∃ b', changeObjectPassword ⟨bareHost, ⟨1, 0⟩, 0⟩ suConnection b r = (0, b') ∧
      ((nwTestUnenpasswd bareHost .internal b' 0x10002 password = 0 ∧
        ∀ other : CText 80, upstr other ≠ upstr password →
          shuffle (be32Bytes 0x10002) (upstr other).bytes ≠ upper →
          nwTestUnenpasswd bareHost .internal b' 0x10002 other = -0xff) ↔
      if byteField hash.bytes 0 ≠ 0 then hash = upper
      else ∃ v, HashAtZero b 0x10002 v ∧ byteField v.bytes 0 ≠ 0 ∧
        fieldAt v.bytes 0 16 = upper) := by
  intro b r password hash upper
  have hchange : changeObjectPassword ⟨bareHost, ⟨1, 0⟩, 0⟩ suConnection b r =
      (0, (changeObjectPassword ⟨bareHost, ⟨1, 0⟩, 0⟩ suConnection b r).2) :=
    Prod.ext (by decide +kernel) rfl
  have hfind : findObjId b r.type r.name =
      (.ok ⟨⟨objName ['A', 'N', 'N'], 1, 0, 0x33⟩, 0x10002⟩, (findObjId b r.type r.name).2) :=
    Prod.ext (by decide +kernel) rfl
  have hnone : nwGetpwnam bareHost .internal b 0x10002 = none := by decide +kernel
  have hiff := nwTestUnenpasswd_changeObjectPassword_iff _ bareHost suConnection
    (propNamesUnique_exec annRun) hfind hnone (by decide) hchange
  exact ⟨_, hchange, hiff⟩

/-- The password `hello` is set, but not accepted. -/
theorem changeObjectPassword_refused : ¬ ∀ (env : Env) (h : Host) (c : Connection)
    (b b₁ b' : Bindery ListFile) (r : PasswordChange) (obj : NetObj),
    b = binderyMachine.exec Bindery.empty annRun → findObjId b r.type r.name = (.ok obj, b₁) →
    nwGetpwnam h .internal b obj.id = none → r.newpassword.bytes ≠ [] →
    changeObjectPassword env c b r = (0, b') →
    nwTestUnenpasswd h .internal b' obj.id (.copy 79 r.newpassword.bytes) = 0 := by
  intro hall
  have hfound : ∀ x : Except Int NetObj × Bindery ListFile, ∀ o, x.1 = .ok o → x = (.ok o, x.2) :=
    fun x o hx => Prod.ext hx rfl
  have hpair : ∀ x : UInt8 × Bindery ListFile, x.1 = 0 → x = (0, x.2) := fun x hx => Prod.ext hx rfl
  have htest := hall ⟨bareHost, ⟨1, 0⟩, 0⟩ bareHost suConnection _ _ _
    (annChange ['h', 'e', 'l', 'l', 'o']) ⟨⟨objName ['A', 'N', 'N'], 1, 0, 0x33⟩, 0x10002⟩ rfl
    (hfound _ _ (by decide +kernel)) (by decide +kernel) (by decide +kernel)
    (hpair _ (by decide +kernel))
  exact absurd htest (by decide +kernel)

end MarsNwe
