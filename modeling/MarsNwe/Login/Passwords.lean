import MarsNwe.Login.Crypt
import MarsNwe.Login.LoginControl

/-! # Setting and testing passwords

The property `PASSWORD` holds the 16 bytes that `shuffle` makes of the object id
and the password. The code that stores them and the code that reads them back
treat them as a string, so a hash that starts with a zero byte is no password
for either.
-/

namespace MarsNwe

open KeyedFile

variable {F : Type → Type → Type} [KeyedFile F]

/-! ## The code -/

/-- `PW_SCHEME_LOGIN`. -/
def pwSchemeLogin : UInt32 := 2

/-- `PW_SCHEME_ALLOW_EMPTY_PW`. -/
def pwSchemeAllowEmptyPw : UInt32 := 8

/-- `MYPASSWD`. -/
structure MyPasswd where
  pwUid : UInt32
  pwGid : UInt32
  pwPasswd : CText 80
  pwDir : CText 257
  pwName : CText 20

/-- `nw_getpwnam`: the entry of the host for the object's `UNIX_USER`; only the
supervisor may be root. -/
def nwGetpwnam (h : Host) (c : Caller) (b : Bindery F) (objId : UInt32) : Option MyPasswd :=
  match nwGetPropValStr c b objId pnUnixUser with
  | .error _ => none
  | .ok (buff, len) =>
      if len = 0 then none
      else
        let user := CText.visible buff.bytes
        match h.getpwnam user with
        | none => none
        | some pw =>
            if objId ≠ 1 ∧ pw.uid = 0 then none
            else
              let stored : CText 80 := .copy 79 pw.passwd
              let stored := match h.getspnam with
                | none => stored
                | some getspnam =>
                    if stored.bytes = asciiBytes ['x'] then
                      match getspnam user with
                      | some pwdp => .copy 79 pwdp
                      | none => stored
                    else stored
              some ⟨pw.uid, pw.gid, stored, .copy 256 pw.dir, .copy 19 pw.name⟩

/-- `crypt_pw_ok`. -/
def cryptPwOk (h : Host) (password passwd : List UInt8) : Bool := h.crypt password passwd = passwd

/-- `loc_nw_test_passwd`: the result, `stored_passwd` and `keybuff`. -/
def locNwTestPasswd (c : Caller) (b : Bindery F) (objId : UInt32) (vglKey aktKey : ByteBuf 8) :
    Int × ByteBuf 16 × ByteBuf 8 :=
  let empty := shuffle (be32Bytes objId) []
  match nwGetPropValStr c b objId pnPassword with
  | .ok (stored, len) =>
      if 0 < len then
        let stored := fieldAt stored.bytes 0 16
        let keybuff := nwEncrypt vglKey stored
        (if aktKey ≠ keybuff then -0xff else 0, stored, keybuff)
      else (1, empty, nwEncrypt vglKey empty)
  | .error _ => (1, empty, nwEncrypt vglKey empty)

/-- `nw_test_passwd`. -/
def nwTestPasswd (h : Host) (settings : Settings) (c : Caller) (b : Bindery F) (objId : UInt32)
    (vglKey aktKey : ByteBuf 8) : Int :=
  let (result, _, _) := locNwTestPasswd c b objId vglKey aktKey
  if result < 1 then result
  else if objId = 1 then -0xff
  else if settings.passwordScheme &&& pwSchemeLogin ≠ 0 ∧
      settings.passwordScheme &&& pwSchemeAllowEmptyPw = 0 then
    match nwGetpwnam h c b objId with
    | some pw =>
        if pw.pwPasswd.bytes ≠ [] ∧ ¬ cryptPwOk h [] pw.pwPasswd.bytes then -0xff else 0
    | none => 0
  else 0

/-- `nw_test_unenpasswd`: the NetWare password in upper case, else the password
of the host as it is or in lower case. -/
def nwTestUnenpasswd (h : Host) (c : Caller) (b : Bindery F) (objId : UInt32)
    (password : CText 80) : Int :=
  let stored : Bool := match nwGetPropValStr c b objId pnPassword with
    | .ok (stored, len) => password.bytes ≠ [] ∧ 0 < len ∧
        shuffle (be32Bytes objId) (upstr password).bytes = fieldAt stored.bytes 0 16
    | .error _ => false
  if stored then 0
  else
    match nwGetpwnam h c b objId with
    | some pw =>
        if cryptPwOk h password.bytes pw.pwPasswd.bytes ||
            cryptPwOk h (downstr password).bytes pw.pwPasswd.bytes then 0 else -0xff
    | none => -0xff

/-- `nw_update_oldpasswd`: 1 if the hash is one of the eight old ones. The bytes
move down as `memmove` would move them. -/
def nwUpdateOldpasswd (c : Caller) (b : Bindery F) (objId : UInt32) (pwd : ByteBuf 16) :
    Int × Bindery F :=
  match nwGetPropValByObjId c b objId 1 pnOldPasswords with
  | .error _ => (0, b)
  | .ok (segm, _, _) =>
      if (List.range 8).any fun segment => fieldAt segm.bytes (segment * 16) 16 = pwd then (1, b)
      else
        (0, nwNewObjProp c b objId 0 ⟨pnOldPasswords, 0, 0x32⟩
          (pwd.bytes ++ segm.bytes.take (128 - 16)) true)

/-- The end of `nw_set_enpasswd`: if the password of the object expires, its
grace logins and its expiration date start again. -/
def renewExpiration (h : Host) (now : Int) (c : Caller) (b : Bindery F) (objId : UInt32) :
    Bindery F :=
  match nwGetLoginControl c b objId with
  | none => b
  | some lc =>
      if 0 < h.expiry lc.passwordExpiresYear lc.passwordExpiresMonth lc.passwordExpiresDay then
        let tm := h.localtime (now + getBE16 lc.expirationInterval * 24 * 3600)
        nwSetLoginControl c b objId { lc with
          passwordGraceLogins :=
            if lc.passwordGraceLogins ≠ 255 then lc.graceReset else lc.passwordGraceLogins
          passwordExpiresYear := UInt8.ofInt tm.year
          passwordExpiresMonth := UInt8.ofNat (tm.mon.val + 1)
          passwordExpiresDay := UInt8.ofNat tm.mday }
      else b

/-- Bit 1 of `restrictionFlags`. -/
def requiresUniquePasswd (c : Caller) (b : Bindery F) (objId : UInt32) : Bool :=
  match nwGetLoginControl c b objId with
  | some lc => lc.restrictionFlags &&& 2 != 0
  | none => false

/-- `nw_set_enpasswd`; `passwd && *passwd` looks at the first byte of the hash. -/
def nwSetEnpasswd (h : Host) (now : Int) (c : Caller) (b : Bindery F) (objId : UInt32)
    (passwd : Option (ByteBuf 16)) (dontCh : Bool) : Int × Bindery F :=
  match passwd.filter fun p => byteField p.bytes 0 ≠ 0 with
  | some p =>
      let unset : Bool := match nwGetPropValStr c b objId pnPassword with
        | .ok (_, len) => len < 1
        | .error _ => true
      if !dontCh || unset then
        let (result, b) := nwUpdateOldpasswd c b objId p
        if requiresUniquePasswd c b objId && result != 0 then (-0xd7, b)
        else
          let b := nwNewObjProp c b objId 0 ⟨pnPassword, 0, 0x44⟩ p.bytes true
          (0, renewExpiration h now c b objId)
      else (0, renewExpiration h now c b objId)
  | none =>
      let b := if !dontCh then (locDeleteProperty c b objId pnPassword true).2 else b
      (0, renewExpiration h now c b objId)

/-- `nw_set_passwd`. -/
def nwSetPasswd (h : Host) (now : Int) (c : Caller) (b : Bindery F) (objId : UInt32)
    (password : List UInt8) (dontCh : Bool) : Int × Bindery F :=
  if password ≠ [] then
    nwSetEnpasswd h now c b objId (some (shuffle (be32Bytes objId) password)) dontCh
  else nwSetEnpasswd h now c b objId none dontCh

/-! ## The results of the tests -/

theorem nwTestPasswd_cases (h : Host) (settings : Settings) (c : Caller) (b : Bindery F)
    (objId : UInt32) (vglKey aktKey : ByteBuf 8) :
    nwTestPasswd h settings c b objId vglKey aktKey = 0 ∨
      nwTestPasswd h settings c b objId vglKey aktKey = -0xff := by
  unfold nwTestPasswd locNwTestPasswd
  grind

theorem nwTestUnenpasswd_cases (h : Host) (c : Caller) (b : Bindery F) (objId : UInt32)
    (password : CText 80) :
    nwTestUnenpasswd h c b objId password = 0 ∨ nwTestUnenpasswd h c b objId password = -0xff := by
  unfold nwTestUnenpasswd
  grind

/-! ## What setting a password leaves -/

theorem visible_length_pos {v : Value} :
    0 < (CText.visible v.bytes).length ↔ byteField v.bytes 0 ≠ 0 := by
  have hlen := v.length_eq
  rw [CText.visible, byteField]
  cases hbytes : v.bytes with
  | nil => simp [hbytes] at hlen
  | cons c rest =>
      rw [List.takeWhile_cons]
      by_cases hc : c = 0 <;> simp [hc]

section

variable {c : Caller} (hc : c.internalAct = true)

include hc

/-- Renewing the expiration date keeps all values but that of `LOGIN_CONTROL`. -/
theorem renewExpiration_internal (h : Host) (now : Int) {b : Bindery F} (huniq : PropNamesUnique b)
    (objId : UInt32) : PropNamesUnique (renewExpiration h now c b objId) ∧
      ∀ name v, name ≠ pnLoginControl →
        (HasValue (renewExpiration h now c b objId) objId name v ↔ HasValue b objId name v) := by
  have hbytes : ∀ lc : LoginControl, lc.toBytes ≠ [] := fun lc => List.cons_ne_nil _ _
  unfold renewExpiration
  split
  next => exact ⟨huniq, fun name v _ => Iff.rfl⟩
  next lc hget =>
    dsimp only
    split
    next hexpiry =>
      refine ⟨PropNamesUnique.newObjProp hc _ _ _ (hbytes _) huniq, fun name v hname => ?_⟩
      -- A date is set only in a record of the object itself: the defaults have none.
      have hexists : ∃ w, HasValue b objId pnLoginControl w := by
        unfold nwGetLoginControl at hget
        split at hget
        next w more flags hval =>
          exact ⟨w, (nwGetPropValByObjId_internal hc huniq (by decide) w).mp ⟨more, flags, hval⟩⟩
        next =>
          split at hget
          next w more flags hval =>
            rw [← Option.some.inj hget] at hexpiry
            exact absurd hexpiry (by simp [LoginControl.ofUserDefaults, Host.expiry])
          next => contradiction
      obtain ⟨w, hw⟩ := hexists
      exact hasValue_newObjProp_other hc b objId 0 ⟨pnLoginControl, 0, 0x32⟩ (hbytes _) hw
        (fun heq => hname (Prod.mk.inj heq).2) v
    next => exact ⟨huniq, fun name v _ => Iff.rfl⟩

/-- Recording an old password keeps the names unique. -/
theorem PropNamesUnique.updateOldpasswd {b : Bindery F} (huniq : PropNamesUnique b)
    (objId : UInt32) (pwd : ByteBuf 16) : PropNamesUnique (nwUpdateOldpasswd c b objId pwd).2 := by
  unfold nwUpdateOldpasswd
  split
  next => exact huniq
  next segm more flags hget =>
    split
    next => exact huniq
    next =>
      apply PropNamesUnique.newObjProp hc _ _ _ _ huniq
      intro hnil
      have hlen := congrArg List.length hnil
      rw [List.length_append, pwd.length_eq] at hlen
      simp at hlen

/-- A hash that does not start with a zero byte is stored. -/
theorem nwSetEnpasswd_stored (h : Host) (now : Int) {b b' : Bindery F} (huniq : PropNamesUnique b)
    {objId : UInt32} {p : ByteBuf 16} (hp : byteField p.bytes 0 ≠ 0)
    (hset : nwSetEnpasswd h now c b objId (some p) false = (0, b')) :
    PropNamesUnique b' ∧ HasValue b' objId pnPassword (.ofList 128 p.bytes) := by
  have hbytes : p.bytes ≠ [] := by
    intro hnil
    have hlen := p.length_eq
    rw [hnil] at hlen
    contradiction
  unfold nwSetEnpasswd at hset
  rw [Option.filter_some_pos (by simpa using hp)] at hset
  simp only [Bool.not_false, Bool.true_or, if_true] at hset
  generalize hold : nwUpdateOldpasswd c b objId p = old at hset
  obtain ⟨result, b₁⟩ := old
  have huniq₁ : PropNamesUnique b₁ := by
    have hkeep := huniq.updateOldpasswd hc objId p
    rwa [hold] at hkeep
  split at hset
  next => exact absurd (Prod.mk.inj hset).1 (by decide)
  next =>
    obtain ⟨huniq₂, hvalues⟩ := renewExpiration_internal hc h now
      (PropNamesUnique.newObjProp hc objId 0 ⟨pnPassword, 0, 0x44⟩ hbytes huniq₁) objId
    rw [← (Prod.mk.inj hset).2]
    refine ⟨huniq₂, ?_⟩
    rw [hvalues _ _ (by decide)]
    exact hasValue_newObjProp hc b₁ objId 0 ⟨pnPassword, 0, 0x44⟩ hbytes

/-- A hash that starts with a zero byte deletes the property, unless it has the id 0. -/
theorem nwSetEnpasswd_deleted (h : Host) (now : Int) {b b' : Bindery F} (huniq : PropNamesUnique b)
    {objId : UInt32} {p : ByteBuf 16} (hp : byteField p.bytes 0 = 0)
    (hset : nwSetEnpasswd h now c b objId (some p) false = (0, b')) :
    PropNamesUnique b' ∧ ∀ v, HasValue b' objId pnPassword v ↔
      ∃ d, fetch b.nwprop (objId, 0) = some d ∧ d.name = pnPassword ∧
        fetch b.nwval (objId, 0, 1) = some v := by
  unfold nwSetEnpasswd at hset
  rw [Option.filter_some_neg (by simpa using hp)] at hset
  simp only [Bool.not_false, if_true] at hset
  generalize hids : deletedIds c b objId pnPassword true = ids
  have hprop := fetch_nwprop_locDeleteProperty c b objId pnPassword true
  rw [hids] at hprop
  have hmem : ∀ i d, fetch b.nwprop (objId, i) = some d → d.name = pnPassword →
      (i ∈ ids ↔ i ≠ 0) := by
    intro i d hfetch hname
    rw [← hids, mem_deletedIds]
    refine ⟨And.left, fun hne => ⟨hne, ⟨d, objId, i⟩, Bindery.mem_propsOf.mpr ⟨rfl, hfetch⟩, ?_, rfl⟩⟩
    simp only [deletable, Bool.true_or, Bool.and_true]
    rw [hname]
    exact (nameMatch_of_wildcardFree (by decide) _).mpr rfl
  have huniq₁ : PropNamesUnique (locDeleteProperty c b objId pnPassword true).2 := by
    apply huniq.of_names
    intro k d hfetch
    rw [hprop] at hfetch
    split at hfetch
    next => contradiction
    next => exact ⟨d, hfetch, rfl⟩
  obtain ⟨huniq₂, hvalues⟩ := renewExpiration_internal hc h now huniq₁ objId
  rw [← (Prod.mk.inj hset).2]
  refine ⟨huniq₂, fun v => ?_⟩
  rw [hvalues _ _ (by decide)]
  have hnwval : (locDeleteProperty c b objId pnPassword true).2.nwval =
      deleteValues b.nwval objId ids := by
    rw [(locDeleteProperty_eq c b objId pnPassword true).1, hids]
  have hzero : (0 : UInt8) ∉ ids := by
    rw [← hids, mem_deletedIds]
    exact fun hmem => hmem.1 rfl
  have hkeep : fetch (deleteValues b.nwval objId ids) (objId, 0, 1) =
      fetch b.nwval (objId, 0, 1) := by
    rw [fetch_deleteValues (hids ▸ deletedIds_nodup c b objId pnPassword true),
      if_neg fun hdel => hzero hdel.2.1]
  constructor
  · rintro ⟨i, d, hfetch, hname, hstored⟩
    rw [hprop] at hfetch
    split at hfetch
    next => contradiction
    next hnot =>
      have hi : i = 0 := by
        by_contra hne
        exact hnot ⟨rfl, (hmem i d hfetch hname).mpr hne⟩
      rw [hi] at hfetch hstored
      rw [hnwval, hkeep] at hstored
      exact ⟨d, hfetch, hname, hstored⟩
  · rintro ⟨d, hfetch, hname, hstored⟩
    refine ⟨0, d, ?_, hname, ?_⟩
    · rw [hprop, if_neg fun hdel => hzero hdel.2]
      exact hfetch
    · rw [hnwval, hkeep]
      exact hstored

end

/-! ## Testing a password -/

section

variable {c : Caller} (hc : c.internalAct = true) {b : Bindery F} (huniq : PropNamesUnique b)
  {objId : UInt32}

include hc huniq

theorem nwGetPropValStr_internal {name : CText 16} (hname : WildcardFree name.bytes) (v : Value)
    (n : Nat) : nwGetPropValStr c b objId name = .ok (v, n) ↔
      HasValue b objId name v ∧ n = (CText.visible v.bytes).length := by
  rw [← nwGetPropValByObjId_internal hc huniq hname]
  unfold nwGetPropValStr
  cases hget : nwGetPropValByObjId c b objId 1 name with
  | error e => simp
  | ok r =>
      obtain ⟨w, more, flags⟩ := r
      simp only [Except.ok.injEq, Prod.mk.injEq]
      constructor
      · rintro ⟨rfl, rfl⟩
        exact ⟨⟨more, flags, rfl, rfl, rfl⟩, rfl⟩
      · rintro ⟨⟨_, _, rfl, -⟩, rfl⟩
        exact ⟨rfl, rfl⟩

/-- With a stored hash, the one answer to the challenge is accepted. -/
theorem nwTestPasswd_of_hasValue (h : Host) (settings : Settings) {v : Value}
    (hvalue : HasValue b objId pnPassword v) (hv : byteField v.bytes 0 ≠ 0)
    (key answer : ByteBuf 8) : nwTestPasswd h settings c b objId key answer =
      if answer = nwEncrypt key (fieldAt v.bytes 0 16) then 0 else -0xff := by
  have hget := (nwGetPropValStr_internal hc huniq (by decide) v _).mpr ⟨hvalue, rfl⟩
  unfold nwTestPasswd locNwTestPasswd
  rw [hget]
  dsimp only
  rw [if_pos (visible_length_pos.mpr hv)]
  dsimp only
  by_cases heq : answer = nwEncrypt key (fieldAt v.bytes 0 16)
  · rw [if_neg (not_not.mpr heq), if_pos heq]
    rfl
  · rw [if_pos heq, if_neg heq]
    rfl

/-- Without one, all answers are treated alike. -/
theorem nwTestPasswd_of_no_value (h : Host) (settings : Settings)
    (hnone : ∀ v, HasValue b objId pnPassword v → byteField v.bytes 0 = 0)
    (key answer answer' : ByteBuf 8) : nwTestPasswd h settings c b objId key answer =
      nwTestPasswd h settings c b objId key answer' := by
  have hsame : (locNwTestPasswd c b objId key answer).1 = 1 ∧
      (locNwTestPasswd c b objId key answer').1 = 1 := by
    unfold locNwTestPasswd
    cases hget : nwGetPropValStr c b objId pnPassword with
    | error e => exact ⟨rfl, rfl⟩
    | ok r =>
        obtain ⟨v, n⟩ := r
        obtain ⟨hvalue, rfl⟩ := (nwGetPropValStr_internal hc huniq (by decide) v n).mp hget
        have hempty : ¬ 0 < (CText.visible v.bytes).length := fun hpos =>
          visible_length_pos.mp hpos (hnone v hvalue)
        dsimp only
        rw [if_neg hempty, if_neg hempty]
        exact ⟨rfl, rfl⟩
  unfold nwTestPasswd
  dsimp only
  rw [hsame.1, hsame.2]

end

/-! ## Setting, then testing -/

/-- A property `PASSWORD` with the id 0 and its value; such a property is never
deleted. -/
def HashAtZero (b : Bindery F) (objId : UInt32) (v : Value) : Prop :=
  ∃ d, fetch b.nwprop (objId, 0) = some d ∧ d.name = pnPassword ∧
    fetch b.nwval (objId, 0, 1) = some v

theorem ByteBuf.exists_ne (a : ByteBuf 8) : ∃ a' : ByteBuf 8, a' ≠ a := by
  by_cases hzero : a = .zero 8
  · refine ⟨.ofList 8 [1], ?_⟩
    rw [hzero]
    decide
  · exact ⟨.zero 8, Ne.symm hzero⟩

theorem fieldAt_ofList (p : ByteBuf 16) : fieldAt (ByteBuf.ofList 128 p.bytes).bytes 0 16 = p := by
  have hlen := p.length_eq
  have htake : ((ByteBuf.ofList 128 p.bytes).bytes.drop 0).take 16 = p.bytes := by
    change (p.bytes.take 128 ++ List.replicate (128 - p.bytes.length) 0).take 16 = p.bytes
    rw [List.take_of_length_le (l := p.bytes) (by omega),
      List.take_append_of_le_length (by omega), List.take_of_length_le (by omega)]
  rw [fieldAt, htake, ByteBuf.ofList_bytes]

theorem byteField_fieldAt_zero {r : List UInt8} {n : Nat} (hn : 0 < n) :
    byteField (fieldAt r 0 n).bytes 0 = byteField r 0 := by
  change ((((r.drop 0).take n).take n ++ List.replicate (n - ((r.drop 0).take n).length) 0)).getD 0 0
    = r.getD 0 0
  cases r with
  | nil => cases n <;> simp
  | cons a r =>
      cases n with
      | zero => exact absurd hn (Nat.lt_irrefl 0)
      | succ n => rfl

/-- After a password has been set, its answer and no other one is accepted,
exactly when the hash does not start with a zero byte (or an undeletable older
hash happens to give the same answer). -/
theorem nwTestPasswd_nwSetPasswd_iff (h h' : Host) (settings : Settings) (now : Int) {c : Caller}
    (hc : c.internalAct = true) {b b' : Bindery F} (huniq : PropNamesUnique b) {objId : UInt32}
    {password : List UInt8} (hpassword : password ≠ [])
    (hset : nwSetPasswd h now c b objId password false = (0, b')) (key : ByteBuf 8) :
    (∀ answer, nwTestPasswd h' settings c b' objId key answer =
      if answer = nwEncrypt key (shuffle (be32Bytes objId) password) then 0 else -0xff) ↔
    byteField (shuffle (be32Bytes objId) password).bytes 0 ≠ 0 ∨
      ∃ v, HashAtZero b objId v ∧ byteField v.bytes 0 ≠ 0 ∧
        nwEncrypt key (fieldAt v.bytes 0 16) =
          nwEncrypt key (shuffle (be32Bytes objId) password) := by
  rw [nwSetPasswd, if_pos hpassword] at hset
  generalize shuffle (be32Bytes objId) password = hash at hset ⊢
  by_cases hhash : byteField hash.bytes 0 = 0
  · obtain ⟨huniq', hvalues⟩ := nwSetEnpasswd_deleted hc h now huniq hhash hset
    by_cases hold : ∃ v, HashAtZero b objId v ∧ byteField v.bytes 0 ≠ 0
    · -- The old hash could not be deleted and is still the one that counts.
      obtain ⟨v, hzero, hv⟩ := hold
      have htest := nwTestPasswd_of_hasValue hc huniq' h' settings ((hvalues v).mpr hzero) hv key
      constructor
      · intro hall
        refine .inr ⟨v, hzero, hv, ?_⟩
        by_contra hne
        have hold := htest (nwEncrypt key (fieldAt v.bytes 0 16))
        rw [if_pos rfl, hall, if_neg hne] at hold
        exact absurd hold (by decide)
      · rintro (hne | ⟨v', hzero', -, heq⟩) answer
        · exact absurd hhash hne
        · have hsame := HasValue.unique huniq' ((hvalues v).mpr hzero) ((hvalues v').mpr hzero')
          rw [htest, hsame, heq]
    · have hnone : ∀ v, HasValue b' objId pnPassword v → byteField v.bytes 0 = 0 := by
        intro v hvalue
        by_contra hv
        exact hold ⟨v, (hvalues v).mp hvalue, hv⟩
      apply iff_of_false
      · intro hall
        obtain ⟨answer, hne⟩ := ByteBuf.exists_ne (nwEncrypt key hash)
        have hsame := nwTestPasswd_of_no_value hc huniq' h' settings hnone key answer
          (nwEncrypt key hash)
        rw [hall, hall, if_neg hne, if_pos rfl] at hsame
        exact absurd hsame (by decide)
      · rintro (hne | ⟨v, hzero, hv, -⟩)
        · exact hne hhash
        · exact hold ⟨v, hzero, hv⟩
  · obtain ⟨huniq', hvalue⟩ := nwSetEnpasswd_stored hc h now huniq hhash hset
    have hfirst : byteField (ByteBuf.ofList 128 hash.bytes).bytes 0 ≠ 0 := by
      rw [← fieldAt_ofList hash, byteField_fieldAt_zero (by decide)] at hhash
      exact hhash
    refine iff_of_true (fun answer => ?_) (.inl hhash)
    rw [nwTestPasswd_of_hasValue hc huniq' h' settings hvalue hfirst, fieldAt_ofList]

/-- A host without users on which no time passes. -/
def bareHost : Host where
  mktime _ _ _ := 0
  localtime _ := ⟨100, 0, 1, 0, 0, 0, 6⟩
  getpwnam _ := none
  getspnam := none
  crypt _ salt := salt

/-- The object ANN with the id 0x10002. -/
def annRun : List (Caller × BindRequest) :=
  [(.supervisor, .createObj 0 0x33 1 (objName ['A', 'N', 'N']))]

/-- ANN gets the password `HELLO`. -/
theorem nwTestPasswd_nwSetPasswd_iff_hello :
    let b := binderyMachine.exec (Bindery.empty : Bindery ListFile) annRun
    let password := asciiBytes ['H', 'E', 'L', 'L', 'O']
    let hash := shuffle (be32Bytes 0x10002) password
    ∃ b', nwSetPasswd bareHost 0 .internal b 0x10002 password false = (0, b') ∧
      ((∀ answer, nwTestPasswd bareHost ⟨0, 0⟩ .internal b' 0x10002 (.ofList 8 [1]) answer =
        if answer = nwEncrypt (.ofList 8 [1]) hash then 0 else -0xff) ↔
      byteField hash.bytes 0 ≠ 0 ∨ ∃ v, HashAtZero b 0x10002 v ∧ byteField v.bytes 0 ≠ 0 ∧
        nwEncrypt (.ofList 8 [1]) (fieldAt v.bytes 0 16) = nwEncrypt (.ofList 8 [1]) hash) := by
  intro b password hash
  have hset : nwSetPasswd bareHost 0 .internal b 0x10002 password false =
      (0, (nwSetPasswd bareHost 0 .internal b 0x10002 password false).2) :=
    Prod.ext (by decide +kernel) rfl
  exact ⟨_, hset, nwTestPasswd_nwSetPasswd_iff bareHost bareHost ⟨0, 0⟩ 0 rfl
    (propNamesUnique_exec annRun) (by decide) hset (.ofList 8 [1])⟩

/-- The hash of ANN's password `ZR` starts with a zero byte: every answer is accepted. -/
theorem nwTestPasswd_accepts_every_answer : ¬ ∀ (h : Host) (settings : Settings) (now : Int)
    (b b' : Bindery ListFile) (objId : UInt32) (password : List UInt8) (key answer : ByteBuf 8),
    b = binderyMachine.exec Bindery.empty annRun → password ≠ [] →
    nwSetPasswd h now .internal b objId password false = (0, b') →
    nwTestPasswd h settings .internal b' objId key answer =
      if answer = nwEncrypt key (shuffle (be32Bytes objId) password) then 0 else -0xff := by
  intro hall
  have hpair : ∀ r : Int × Bindery ListFile, r.1 = 0 → r = (0, r.2) := fun r hr => Prod.ext hr rfl
  have htest := hall bareHost ⟨0, 0⟩ 0 _ _ 0x10002 (asciiBytes ['Z', 'R']) (.ofList 8 [1])
    (.zero 8) rfl (by decide) (hpair _ (by decide +kernel))
  exact absurd htest (by decide +kernel)

end MarsNwe
