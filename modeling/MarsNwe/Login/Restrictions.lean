import MarsNwe.Login.Passwords
import MarsNwe.Net

/-! # Login restrictions

Before a user is logged in, the time, the station and the number of his
connections are checked against his `NODE_CONTROL` and `LOGIN_CONTROL`. An
object without such a property has no restriction of the kind.
-/

namespace MarsNwe

variable {F : Type → Type → Type} [KeyedFile F]

/-! ## The code -/

/-- The fields of `CONNECTION` that logins read and write. -/
structure Connection where
  clientAdr : IpxAddr
  objectId : UInt32
  idFlags : UInt32
  cryptKey : ByteBuf 8
  tLogin : Int
  active : Bool

/-- `time` and the routines and settings in force while a packet is handled. -/
structure Env where
  host : Host
  settings : Settings
  now : Int

/-- The half hour of the week. -/
def Tm.halfHours (tm : Tm) : Nat :=
  tm.wday.val * 48 + tm.hour.val * 2 + if 30 ≤ tm.min.val then 1 else 0

/-- The half hour is set in the `timeBitMap`. -/
def LoginControl.allowsHour (lc : LoginControl) (tm : Tm) : Bool :=
  byteField lc.timeBitMap.bytes (tm.halfHours / 8) &&& 1 <<< UInt8.ofNat (tm.halfHours % 8) != 0

/-- Grace logins are left, and each one is counted. -/
def LoginControl.countsGrace (lc : LoginControl) : Bool := lc.passwordGraceLogins != 255

/-- `nw_test_time_access`. -/
def nwTestTimeAccess (env : Env) (c : Caller) (b : Bindery F) (objId : UInt32) :
    Int × Bindery F :=
  match nwGetLoginControl c b objId with
  | none => (0, b)
  | some lc =>
      if lc.accountExpired ≠ 0 then (-0xdc, b)
      else
        let expiry := env.host.expiry lc.accountExpiresYear lc.accountExpiresMonth
          lc.accountExpiresDay
        if 0 < expiry ∧ expiry < env.now then (-0xdc, b)
        else if lc.allowsHour (env.host.localtime env.now) = false then (-0xda, b)
        else
          let expiry := env.host.expiry lc.passwordExpiresYear lc.passwordExpiresMonth
            lc.passwordExpiresDay
          if 0 < expiry ∧ expiry < env.now then
            if lc.passwordGraceLogins = 0 then (-0xde, b)
            else if lc.countsGrace then
              (-0xdf, nwSetLoginControl c b objId
                { lc with passwordGraceLogins := lc.passwordGraceLogins - 1 })
            else (0, b)
          else (0, b)

/-- The node that stands for all nodes of a net. -/
def wildnode : ByteBuf 6 := .ones 6

/-- One of the 12 stations of a `NODE_CONTROL` segment is the client's. -/
def stationListed (stations : Value) (adr : IpxAddr) : Bool :=
  (List.range 12).any fun k =>
    adr.net = fieldAt stations.bytes (10 * k) 4 &&
      (adr.node = fieldAt stations.bytes (10 * k + 4) 6 ||
        wildnode = fieldAt stations.bytes (10 * k + 4) 6)

/-- The active connections of an object. -/
def connectionsOf (connections : List Connection) (objId : UInt32) : Nat :=
  connections.countP fun cn => cn.active && cn.objectId == objId

/-- The first part of `nw_test_adr_access`: the authorized login stations. -/
def stationPermitted (c : Caller) (b : Bindery F) (objId : UInt32) (clientAdr : IpxAddr) : Bool :=
  match nwGetPropValByObjId c b objId 1 pnNodeControl with
  | .ok (stations, _, _) => stationListed stations clientAdr
  | .error _ => true

/-- `nw_test_adr_access`. -/
def nwTestAdrAccess (c : Caller) (b : Bindery F) (connections : List Connection)
    (objId : UInt32) (clientAdr : IpxAddr) : Int :=
  if stationPermitted c b objId clientAdr = false then -0xdb
  else
    match nwGetLoginControl c b objId with
    | none => 0
    | some lc =>
        let j := connectionsOf connections objId
        if 0 < j ∧ getBE16 lc.maxConcurrentConnections ≠ 0 ∧
            getBE16 lc.maxConcurrentConnections ≤ j then -0xd9
        else 0

/-- The update of `lastLoginDate` in `nw_test_adr_time_access`. -/
def stampLastLogin (env : Env) (c : Caller) (b : Bindery F) (objId : UInt32) : Bindery F :=
  match nwGetLoginControl c b objId with
  | none => b
  | some lc =>
      let tm := env.host.localtime env.now
      let date := [UInt8.ofInt tm.year, UInt8.ofNat (tm.mon.val + 1), UInt8.ofNat tm.mday,
        UInt8.ofNat tm.hour.val, UInt8.ofNat tm.min.val, UInt8.ofNat tm.sec]
      nwSetLoginControl c b objId { lc with lastLoginDate := .ofList 6 date }

/-- `entry8_flags & 8` lifts all limits of the supervisor. -/
def exemptSupervisor (settings : Settings) (objId : UInt32) : Bool :=
  objId == 1 && settings.entry8Flags &&& 8 != 0

/-- `nw_test_adr_time_access`. -/
def nwTestAdrTimeAccess (env : Env) (c : Caller) (b : Bindery F) (connections : List Connection)
    (objId : UInt32) (clientAdr : IpxAddr) : Int × Bindery F :=
  if exemptSupervisor env.settings objId then (0, stampLastLogin env c b objId)
  else
    let result := nwTestAdrAccess c b connections objId clientAdr
    let (result, b) := if result = 0 then nwTestTimeAccess env c b objId else (result, b)
    if result = 0 ∨ result = -0xdf then (result, stampLastLogin env c b objId)
    else (result, b)

/-! ## What the restrictions are -/

/-- An account with an expiration date is usable to the end of that day. -/
def LoginControl.accountUsable (lc : LoginControl) (env : Env) : Prop :=
  let expiry := env.host.expiry lc.accountExpiresYear lc.accountExpiresMonth lc.accountExpiresDay
  0 < expiry → env.now ≤ expiry

/-- An object may log in: its account is neither disabled nor expired, the hour
and the station are permitted, and it has a connection left. -/
structure LoginPermitted (env : Env) (b : Bindery F) (connections : List Connection)
    (objId : UInt32) (clientAdr : IpxAddr) : Prop where
  enabled : ∀ lc, nwGetLoginControl .internal b objId = some lc → lc.accountExpired = 0
  usable : ∀ lc, nwGetLoginControl .internal b objId = some lc → lc.accountUsable env
  hour : ∀ lc, nwGetLoginControl .internal b objId = some lc →
    lc.allowsHour (env.host.localtime env.now) = true
  station : ∀ stations more flags,
    nwGetPropValByObjId .internal b objId 1 pnNodeControl = .ok (stations, more, flags) →
    stationListed stations clientAdr = true
  connectionLeft : ∀ lc, nwGetLoginControl .internal b objId = some lc →
    getBE16 lc.maxConcurrentConnections ≠ 0 →
    connectionsOf connections objId < getBE16 lc.maxConcurrentConnections

section

variable {env : Env} {b : Bindery F} {objId : UInt32}

/-- A time test that is passed, with or without a grace login. -/
theorem nwTestTimeAccess_passed {c : Caller}
    (hpassed : -1 < (nwTestTimeAccess env c b objId).1 ∨
      (nwTestTimeAccess env c b objId).1 = -0xdf)
    {lc : LoginControl} (hget : nwGetLoginControl c b objId = some lc) :
    lc.accountExpired = 0 ∧ lc.accountUsable env ∧
      lc.allowsHour (env.host.localtime env.now) = true := by
  unfold nwTestTimeAccess at hpassed
  rw [hget] at hpassed
  dsimp only at hpassed
  split at hpassed
  next => simp at hpassed
  next henabled =>
    split at hpassed
    next => simp at hpassed
    next husable =>
      split at hpassed
      next => simp at hpassed
      next hhour =>
        rw [Bool.not_eq_false] at hhour
        refine ⟨not_not.mp henabled, fun hpos => ?_, hhour⟩
        exact Int.not_lt.mp fun hlt => husable ⟨hpos, hlt⟩

/-- A station test that is passed. -/
theorem nwTestAdrAccess_passed {c : Caller} {connections : List Connection} {clientAdr : IpxAddr}
    (hpassed : nwTestAdrAccess c b connections objId clientAdr = 0) :
    (∀ stations more flags, nwGetPropValByObjId c b objId 1 pnNodeControl =
        .ok (stations, more, flags) → stationListed stations clientAdr = true) ∧
      ∀ lc, nwGetLoginControl c b objId = some lc → getBE16 lc.maxConcurrentConnections ≠ 0 →
        connectionsOf connections objId < getBE16 lc.maxConcurrentConnections := by
  unfold nwTestAdrAccess at hpassed
  split at hpassed
  next => contradiction
  next hstation =>
    rw [Bool.not_eq_false] at hstation
    constructor
    · intro stations more flags hval
      rwa [stationPermitted, hval] at hstation
    · intro lc hget hmax
      rw [hget] at hpassed
      dsimp only at hpassed
      split at hpassed
      next => contradiction
      next hleft =>
        by_contra hfull
        exact hleft ⟨by omega, hmax, by omega⟩

theorem nwTestAdrTimeAccess_fst {c : Caller} {connections : List Connection}
    {clientAdr : IpxAddr} :
    (nwTestAdrTimeAccess env c b connections objId clientAdr).1 =
      if exemptSupervisor env.settings objId = true then 0
      else if nwTestAdrAccess c b connections objId clientAdr = 0 then
        (nwTestTimeAccess env c b objId).1
      else nwTestAdrAccess c b connections objId clientAdr := by
  unfold nwTestAdrTimeAccess
  split
  next => rfl
  next =>
    dsimp only
    split <;> split <;> rfl

/-- Whoever passes the tests, and is not the exempt supervisor, may log in. -/
theorem nwTestAdrTimeAccess_passed {connections : List Connection} {clientAdr : IpxAddr}
    (hexempt : exemptSupervisor env.settings objId = false)
    (hpassed : -1 < (nwTestAdrTimeAccess env .internal b connections objId clientAdr).1 ∨
      (nwTestAdrTimeAccess env .internal b connections objId clientAdr).1 = -0xdf) :
    LoginPermitted env b connections objId clientAdr := by
  rw [nwTestAdrTimeAccess_fst, hexempt, if_neg Bool.false_ne_true] at hpassed
  split at hpassed
  next hadr =>
    obtain ⟨hstation, hleft⟩ := nwTestAdrAccess_passed hadr
    exact ⟨fun _ hget => (nwTestTimeAccess_passed hpassed hget).1,
      fun _ hget => (nwTestTimeAccess_passed hpassed hget).2.1,
      fun _ hget => (nwTestTimeAccess_passed hpassed hget).2.2, hstation, hleft⟩
  next hadr =>
    -- A refused station is answered with -0xdb or -0xd9, not with a grace login.
    have hcode : nwTestAdrAccess .internal b connections objId clientAdr = 0 ∨
        nwTestAdrAccess .internal b connections objId clientAdr = -0xdb ∨
        nwTestAdrAccess .internal b connections objId clientAdr = -0xd9 := by
      unfold nwTestAdrAccess
      grind
    omega

end

end MarsNwe
