import MarsNwe.Login.Connections

/-! # Every identity comes from a login

Only opening and clearing a connection, logging out and a login that succeeds
write the identity of a connection. The last of these before a moment at which
the identity is not 0 is a login, and what it tested held in the state before.
-/

namespace MarsNwe

open KeyedFile

variable {F : Type → Type → Type} [KeyedFile F]

/-! ## The login -/

/-- The request is a login to the object `id`, and the password test succeeds. -/
def PasswordPassed (env : Env) (b : Bindery F) (c : Connection) (id : UInt32) : NcpRequest → Prop
  | .login type name password =>
      (∃ o b', findObjId b type (upstr name) = (.ok o, b') ∧ o.id = id) ∧
        env.settings.passwordScheme &&& pwSchemeLogin ≠ 0 ∧
        nwTestUnenpasswd env.host .internal b id password = 0
  | .cryptLogin answer type name =>
      (∃ o b', findObjId b type (upstr name) = (.ok o, b') ∧ o.id = id) ∧
        nwTestPasswd env.host env.settings .internal b id c.cryptKey answer = 0
  | _ => False

/-- In the state `s` the connection with index `i` is active and its request `r`
is a login to the object `id`: the password test succeeds, and a user other than
the exempt supervisor is permitted to log in. The flags say no more than the
rights of the object in the bindery `b'` that the login leaves. -/
structure SoundLogin (env : Env) (s : Nwbind F) (b' : Bindery F) (i : Nat) (c : Connection)
    (r : NcpRequest) (id idFlags : UInt32) : Prop where
  connection : s.connections[i]? = some c
  active : c.active = true
  password : PasswordPassed env s.bindery c id r
  permitted : ∀ o, s.bindery.obj id = some o → o.type = 1 →
    exemptSupervisor env.settings id = false →
    LoginPermitted env s.bindery s.connections id c.clientAdr
  supervisor : idFlags &&& 1 ≠ 0 → haveSuRights .internal b' id = true

/-- The packet sets the identity of the connection with index `i`: it opens or
clears the connection, or is a logout or a login that is answered with data. -/
def SetsIdentity (i : Nat) (s : Nwbind F) (e : Env × Packet F) : Prop :=
  match e.2 with
  | .insert conn _ => conn = i + 1
  | .clear conn => conn = i + 1
  | .request conn r => conn = i + 1 ∧ ((∃ c, s.connection conn = some c ∧ c.active = true ∧
      r = .logout) ∨ ∃ completition response,
        (nwbindMachine.step s e).1 = .login completition (some response))
  | .other _ => False

/-- The identity of the connection with index `i`. -/
def Nwbind.identity (i : Nat) (s : Nwbind F) : Option (UInt32 × UInt32) :=
  s.connections[i]?.map fun c => (c.objectId, c.idFlags)

theorem buildLoginResponse_idFlags {env : Env} {b : Bindery F} {c : Connection} {id : UInt32}
    (hflag : (buildLoginResponse env b c id).1.idFlags &&& 1 ≠ 0) :
    haveSuRights .internal b id = true := by
  by_contra hno
  apply hflag
  simp [buildLoginResponse, hno]

/-- A login fails and leaves the connections alone, or the tests are passed and
it sets the identity. -/
theorem finishLogin_cases (env : Env) (s : Nwbind F) (conn : Nat) (c : Connection)
    (b : Bindery F) (obj : NetObj) (passed : Int → Bool) (result : Int) :
    let r := finishLogin env s conn c b obj passed result
    (∃ completition, r.1 = .login completition none) ∧ r.2.connections = s.connections ∨
      (passed result = true ∨ result = -0xdf) ∧
      (passed result = true → obj.type = 1 →
        let t := (nwTestAdrTimeAccess env .internal b s.connections obj.id c.clientAdr).1
        passed t = true ∨ t = -0xdf) ∧
      (∃ completition response, r.1 = .login completition (some response)) ∧
      r.2.connections =
        s.connections.set (conn - 1) (buildLoginResponse env r.2.bindery c obj.id).1 := by
  unfold finishLogin
  dsimp only
  by_cases htest : (passed result && obj.type == 1) = true
  · rw [if_pos htest]
    rw [Bool.and_eq_true, beq_iff_eq] at htest
    split
    next hin => exact .inr ⟨.inl htest.1, fun _ _ => hin, ⟨_, _, rfl⟩, rfl⟩
    next => exact .inl ⟨⟨_, rfl⟩, rfl⟩
  · rw [if_neg htest]
    rw [Bool.and_eq_true, beq_iff_eq] at htest
    split
    next hin =>
      exact .inr ⟨hin, fun hpassed htype => absurd ⟨hpassed, htype⟩ htest, ⟨_, _, rfl⟩, rfl⟩
    next => exact .inl ⟨⟨_, rfl⟩, rfl⟩

section

variable {b b' : Bindery F} (hprop : b'.nwprop = b.nwprop) (hval : b'.nwval = b.nwval)

include hprop hval

/-- Writing the index changes no property value. -/
theorem nwGetPropValByObjId_frame (c : Caller) (objId : UInt32) (segment : UInt8)
    (name : CText 16) :
    nwGetPropValByObjId c b' objId segment name = nwGetPropValByObjId c b objId segment name := by
  cases b
  cases b'
  cases hprop
  cases hval
  rfl

theorem nwGetLoginControl_frame (c : Caller) (objId : UInt32) :
    nwGetLoginControl c b' objId = nwGetLoginControl c b objId := by
  simp only [nwGetLoginControl, nwGetPropValByObjId_frame hprop hval]

theorem nwTestPasswd_frame (h : Host) (settings : Settings) (c : Caller) (objId : UInt32)
    (vglKey aktKey : ByteBuf 8) :
    nwTestPasswd h settings c b' objId vglKey aktKey =
      nwTestPasswd h settings c b objId vglKey aktKey := by
  simp only [nwTestPasswd, locNwTestPasswd, nwGetpwnam, nwGetPropValStr,
    nwGetPropValByObjId_frame hprop hval]

theorem nwTestUnenpasswd_frame (h : Host) (c : Caller) (objId : UInt32) (password : CText 80) :
    nwTestUnenpasswd h c b' objId password = nwTestUnenpasswd h c b objId password := by
  simp only [nwTestUnenpasswd, nwGetpwnam, nwGetPropValStr, nwGetPropValByObjId_frame hprop hval]

theorem LoginPermitted.of_frame {env : Env} {connections : List Connection} {objId : UInt32}
    {clientAdr : IpxAddr} (h : LoginPermitted env b' connections objId clientAdr) :
    LoginPermitted env b connections objId clientAdr := by
  have hcontrol := nwGetLoginControl_frame hprop hval .internal objId
  have hstation := nwGetPropValByObjId_frame hprop hval .internal objId 1 pnNodeControl
  exact ⟨hcontrol ▸ h.enabled, hcontrol ▸ h.usable, hcontrol ▸ h.hour, hstation ▸ h.station,
    hcontrol ▸ h.connectionLeft⟩

end

/-- A login that is answered with data is sound. -/
theorem finishLogin_sound {env : Env} {s : Nwbind F} {i : Nat} {c : Connection} {r : NcpRequest}
    {b : Bindery F} {type : UInt16} {name : CText 48} {obj : NetObj} {passed : Int → Bool}
    {result : Int} (hfind : findObjId s.bindery type name = (.ok obj, b))
    (hconn : s.connections[i]? = some c) (hactive : c.active = true)
    (hpassed : ∀ t, passed t = true → -1 < t)
    (htested : passed result = true ∨ result = -0xdf →
      passed result = true ∧ PasswordPassed env s.bindery c obj.id r)
    {completition : UInt8} {response : LoginResponse}
    (hlogin : (finishLogin env s (i + 1) c b obj passed result).1 =
      .login completition (some response)) :
    let s' := (finishLogin env s (i + 1) c b obj passed result).2
    ∃ id idFlags, s'.identity i = some (id, idFlags) ∧
      SoundLogin env s s'.bindery i c r id idFlags := by
  obtain ⟨hobj, hprop, hval⟩ := findObjId_frame hfind
  rcases finishLogin_cases env s (i + 1) c b obj passed result with
    ⟨⟨_, hfail⟩, -⟩ | ⟨hresult, htest, -, hset⟩
  · rw [hfail] at hlogin
    cases hlogin
  · obtain ⟨hpass, hpassword⟩ := htested hresult
    have hlt : i < s.connections.length := (List.getElem?_eq_some_iff.mp hconn).1
    intro s'
    refine ⟨obj.id, (buildLoginResponse env s'.bindery c obj.id).1.idFlags, ?_, ?_⟩
    · rw [Nwbind.identity, hset, Nat.add_sub_cancel, List.getElem?_set_self hlt]
      rfl
    · refine ⟨hconn, hactive, hpassword, ?_, buildLoginResponse_idFlags⟩
      intro o ho htype hexempt
      obtain rfl : obj = o := by
        have hstored := (findObjId_ok hfind).1
        exact Option.some.inj (hstored.symm.trans ho)
      exact (nwTestAdrTimeAccess_passed hexempt
        ((htest hpass htype).imp_left (hpassed _))).of_frame hprop hval

/-! ## One packet -/

omit [KeyedFile F] in
theorem Nwbind.identity_set {s : Nwbind F} {j : Nat} {c : Connection}
    (hconn : s.connections[j]? = some c) (c' : Connection) (b : Bindery F) (i : Nat) :
    Nwbind.identity i ⟨b, s.connections.set j c'⟩ =
      if i = j then some (c'.objectId, c'.idFlags) else s.identity i := by
  have hlt : j < s.connections.length := (List.getElem?_eq_some_iff.mp hconn).1
  unfold Nwbind.identity
  split
  next heq =>
    rw [heq, List.getElem?_set_self hlt]
    rfl
  next hne => rw [List.getElem?_set_ne (Ne.symm hne)]

omit [KeyedFile F] in
theorem Nwbind.identity_openClear (s : Nwbind F) (conn : Nat) (activate : Bool)
    (addr : Option IpxAddr) (i : Nat) :
    Nwbind.identity i { s with
        connections := openClearConnection s.connections conn activate addr } =
      if conn = i + 1 then s.connections[i]?.map fun _ => (0, 0) else s.identity i := by
  unfold Nwbind.identity openClearConnection
  cases conn with
  | zero => rfl
  | succ j =>
      rw [if_pos (Nat.succ_pos j), List.getElem?_modify, Nat.add_sub_cancel]
      by_cases heq : j = i
      · simp only [heq, if_true, Option.map_eq_map, Option.map_map]
        rfl
      · simp [heq]

/-- A login that fails leaves all identities alone, and every login those of the
other connections. -/
theorem finishLogin_identity {env : Env} {s : Nwbind F} {conn i : Nat} {c : Connection}
    {b : Bindery F} {obj : NetObj} {passed : Int → Bool} {result : Int}
    (hother : i ≠ conn - 1 ∨ ∀ completition response,
      (finishLogin env s conn c b obj passed result).1 ≠ .login completition (some response)) :
    (finishLogin env s conn c b obj passed result).2.identity i = s.identity i := by
  rcases finishLogin_cases env s conn c b obj passed result with
    ⟨-, hsame⟩ | ⟨-, -, ⟨completition, response, hlogin⟩, hset⟩
  · rw [Nwbind.identity, hsame, Nwbind.identity]
  · rcases hother with hne | hno
    · rw [Nwbind.identity, hset, List.getElem?_set_ne (Ne.symm hne), Nwbind.identity]
    · exact absurd hlogin (hno completition response)

/-- What a request leaves of the identities. -/
theorem handleFxx_identity {env : Env} {s : Nwbind F} {conn i : Nat} {c : Connection}
    (hconn : s.connections[conn - 1]? = some c) {r : NcpRequest}
    (hother : i ≠ conn - 1 ∨ r ≠ .logout ∧ ∀ completition response,
      (handleFxx env s conn c r).1 ≠ .login completition (some response)) :
    (handleFxx env s conn c r).2.identity i = s.identity i := by
  cases r with
  | login type name password =>
      unfold handleFxx at hother ⊢
      dsimp only at hother ⊢
      split
      next => rfl
      next obj b hfind =>
        rw [hfind] at hother
        exact finishLogin_identity (hother.imp_right And.right)
  | cryptLogin answer type name =>
      unfold handleFxx at hother ⊢
      dsimp only at hother ⊢
      split
      next => rfl
      next obj b hfind =>
        rw [hfind] at hother
        exact finishLogin_identity (hother.imp_right And.right)
  | getCryptKey key =>
      unfold handleFxx
      dsimp only
      rw [Nwbind.identity_set hconn]
      split
      next heq =>
        rw [Nwbind.identity, heq, hconn]
        rfl
      next => rfl
  | bind r => rfl
  | logout =>
      unfold handleFxx
      dsimp only
      rw [Nwbind.identity_set hconn, if_neg (hother.resolve_right fun h => h.1 rfl)]

/-- A login request that is answered with data is sound. -/
theorem handleFxx_sound {env : Env} {s : Nwbind F} {i : Nat} {c : Connection} {r : NcpRequest}
    (hconn : s.connections[i]? = some c) (hactive : c.active = true) {completition : UInt8}
    {response : LoginResponse}
    (hlogin : (handleFxx env s (i + 1) c r).1 = .login completition (some response)) :
    let s' := (handleFxx env s (i + 1) c r).2
    ∃ id idFlags, s'.identity i = some (id, idFlags) ∧
      SoundLogin env s s'.bindery i c r id idFlags := by
  cases r with
  | login type name password =>
      unfold handleFxx at hlogin ⊢
      dsimp only at hlogin ⊢
      split at hlogin
      next => cases hlogin
      next obj b hfind =>
        obtain ⟨-, hprop, hval⟩ := findObjId_frame hfind
        apply finishLogin_sound hfind hconn hactive _ _ hlogin
        · intro t ht
          rw [beq_iff_eq] at ht
          omega
        · intro hresult
          have htest : env.settings.passwordScheme &&& pwSchemeLogin ≠ 0 ∧
              nwTestUnenpasswd env.host .internal b obj.id password = 0 := by
            have hcases := nwTestUnenpasswd_cases env.host .internal b obj.id password
            unfold testLogin at hresult
            grind
          rw [nwTestUnenpasswd_frame hprop hval] at htest
          refine ⟨?_, ⟨obj, b, hfind, rfl⟩, htest⟩
          rw [testLogin, if_pos htest.1, nwTestUnenpasswd_frame hprop hval, htest.2]
          rfl
  | cryptLogin answer type name =>
      unfold handleFxx at hlogin ⊢
      dsimp only at hlogin ⊢
      split at hlogin
      next => cases hlogin
      next obj b hfind =>
        obtain ⟨-, hprop, hval⟩ := findObjId_frame hfind
        apply finishLogin_sound hfind hconn hactive _ _ hlogin
        · intro t ht
          exact of_decide_eq_true ht
        · intro hresult
          have htest : nwTestPasswd env.host env.settings .internal b obj.id c.cryptKey answer = 0 := by
            have hcases := nwTestPasswd_cases env.host env.settings .internal b obj.id c.cryptKey
              answer
            grind
          rw [htest]
          rw [nwTestPasswd_frame hprop hval] at htest
          exact ⟨rfl, ⟨obj, b, hfind, rfl⟩, htest⟩
  | getCryptKey key => cases hlogin
  | bind r => cases hlogin
  | logout => cases hlogin

/-! ## Runs -/

omit [KeyedFile F] in
theorem Nwbind.connection_eq_some {s : Nwbind F} {conn : Nat} {c : Connection} :
    s.connection conn = some c ↔ 0 < conn ∧ s.connections[conn - 1]? = some c := by
  simp [Nwbind.connection]

/-- A request is handled for the active connection it names, or ignored. -/
theorem step_request (env : Env) (s : Nwbind F) (conn : Nat) (r : NcpRequest) :
    (∃ c, s.connection conn = some c ∧ c.active = true ∧
      nwbindMachine.step s (env, .request conn r) = handleFxx env s conn c r) ∨
    (∀ c, s.connection conn = some c → c.active = false) ∧
      nwbindMachine.step s (env, .request conn r) = (.none, s) := by
  have hstep : nwbindMachine.step s (env, .request conn r) =
    handlePacket env s (.request conn r) := rfl
  rw [hstep, handlePacket]
  cases hconn : s.connection conn with
  | none => exact .inr ⟨fun _ hc => (Option.some_ne_none _ hc.symm).elim, rfl⟩
  | some c =>
      cases hactive : c.active with
      | true => exact .inl ⟨c, rfl, hactive, by simp [hactive]⟩
      | false => exact .inr ⟨fun _ hc => Option.some.inj hc ▸ hactive, by simp [hactive]⟩

/-- A packet that does not set the identity of a connection leaves it alone. -/
theorem step_identity {i : Nat} (s : Nwbind F) (e : Env × Packet F) (hnot : ¬SetsIdentity i s e) :
    (nwbindMachine.step s e).2.identity i = s.identity i := by
  obtain ⟨env, packet⟩ := e
  cases packet with
  | insert conn adr => exact (Nwbind.identity_openClear s conn true _ i).trans (if_neg hnot)
  | clear conn => exact (Nwbind.identity_openClear s conn false _ i).trans (if_neg hnot)
  | other b => rfl
  | request conn r =>
      rcases step_request env s conn r with ⟨c, hconn, hactive, hrun⟩ | ⟨hclosed, hignored⟩
      · obtain ⟨hpos, hget⟩ := Nwbind.connection_eq_some.mp hconn
        rw [hrun]
        apply handleFxx_identity hget
        by_cases hi : i = conn - 1
        · have hnot' := not_and.mp hnot (by omega)
          refine .inr ⟨fun hlogout => hnot' (.inl ⟨c, hconn, hactive, hlogout⟩), ?_⟩
          intro completition response hlogin
          exact hnot' (.inr ⟨completition, response, by rw [hrun, hlogin]⟩)
        · exact .inl hi
      · rw [hignored]

/-- A packet that sets the identity of a connection to an id other than 0 is a
sound login. -/
theorem step_sound {i : Nat} {s : Nwbind F} {e : Env × Packet F} (hset : SetsIdentity i s e)
    {id idFlags : UInt32} (hidentity : (nwbindMachine.step s e).2.identity i = some (id, idFlags))
    (hid : id ≠ 0) :
    ∃ c r, e.2 = .request (i + 1) r ∧
      SoundLogin e.1 s (nwbindMachine.step s e).2.bindery i c r id idFlags := by
  obtain ⟨env, packet⟩ := e
  have hzero : ∀ conn activate addr, conn = i + 1 → Nwbind.identity i { s with
      connections := openClearConnection s.connections conn activate addr } ≠ some (id, idFlags) := by
    intro conn activate addr hconn heq
    rw [Nwbind.identity_openClear, if_pos hconn, Option.map_eq_some_iff] at heq
    obtain ⟨-, -, heq⟩ := heq
    exact hid (Prod.mk.inj heq).1.symm
  cases packet with
  | insert conn adr => exact absurd hidentity (hzero _ _ _ hset)
  | clear conn => exact absurd hidentity (hzero _ _ _ hset)
  | other b => exact False.elim hset
  | request conn r =>
      obtain ⟨rfl, hset⟩ := hset
      rcases step_request env s (i + 1) r with ⟨c, hconn, hactive, hrun⟩ | ⟨hclosed, hignored⟩
      · have hget := (Nwbind.connection_eq_some.mp hconn).2
        rw [Nat.add_sub_cancel] at hget
        rw [hrun] at hset hidentity ⊢
        rcases hset with ⟨c', -, -, rfl⟩ | ⟨completition, response, hlogin⟩
        · rw [handleFxx, Nat.add_sub_cancel, Nwbind.identity_set hget, if_pos rfl] at hidentity
          exact absurd (Prod.mk.inj (Option.some.inj hidentity)).1.symm hid
        · obtain ⟨id', idFlags', hidentity', hsound⟩ := handleFxx_sound hget hactive hlogin
          rw [hidentity'] at hidentity
          obtain ⟨rfl, rfl⟩ := Prod.mk.inj (Option.some.inj hidentity)
          exact ⟨c, r, rfl, hsound⟩
      · rw [hignored] at hset
        rcases hset with ⟨c', hconn, hactive, rfl⟩ | ⟨completition, response, hlogin⟩
        · rw [hclosed c' hconn] at hactive
          contradiction
        · cases hlogin

/-- Whenever a connection has an identity other than 0, the last packet that set
it was a sound login. -/
theorem nwbind_login_sound (b : Bindery F) (maxConnections : Nat)
    (packets : List (Env × Packet F)) (i : Nat) (cn : Connection)
    (hconn : (nwbindMachine.exec (Nwbind.init b maxConnections) packets).connections[i]? = some cn)
    (hid : cn.objectId ≠ 0) :
    ∃ before env r after, packets = before ++ (env, .request (i + 1) r) :: after ∧
      let s := nwbindMachine.exec (Nwbind.init b maxConnections) before
      let s' := (nwbindMachine.step s (env, .request (i + 1) r)).2
      (∃ c, SoundLogin env s s'.bindery i c r cn.objectId cn.idFlags) ∧
        nwbindMachine.Along (fun s e => ¬SetsIdentity i s e) s' after := by
  have hidentity : (nwbindMachine.exec (Nwbind.init b maxConnections) packets).identity i =
      some (cn.objectId, cn.idFlags) := by
    rw [Nwbind.identity, hconn]
    rfl
  rcases nwbindMachine.exists_last (SetsIdentity i) (Nwbind.init b maxConnections) packets with
    hnone | ⟨before, e, after, heq, hset, hnone⟩
  · -- Without such a packet the connection is as it was at the start.
    rw [nwbindMachine.exec_unchanged step_identity hnone, Nwbind.identity,
      Option.map_eq_some_iff] at hidentity
    obtain ⟨c, hstart, hc⟩ := hidentity
    rw [Nwbind.init, List.getElem?_replicate] at hstart
    split at hstart
    next =>
      rw [← Option.some.inj hstart] at hc
      exact absurd (Prod.mk.inj hc).1.symm hid
    next => contradiction
  · rw [heq, Machine.exec_append, Machine.exec_cons,
      nwbindMachine.exec_unchanged step_identity hnone] at hidentity
    obtain ⟨c, r, hrequest, hsound⟩ := step_sound hset hidentity hid
    obtain ⟨env, packet⟩ := e
    obtain rfl := hrequest
    exact ⟨before, env, r, after, heq, ⟨c, hsound⟩, hnone⟩

/-- The connection 1 is opened, and a client logs in there as ANN, who has no password. -/
def annLogin : List (Env × Packet ListFile) :=
  [(⟨bareHost, ⟨0, 0⟩, 0⟩, .insert 1 ⟨.zero 4, .zero 6, .zero 2⟩),
    (⟨bareHost, ⟨0, 0⟩, 0⟩, .request 1 (.cryptLogin (.zero 8) 1 (objName ['a', 'n', 'n'])))]

theorem nwbind_login_sound_ann :
    let start := Nwbind.init (binderyMachine.exec (Bindery.empty : Bindery ListFile) annRun) 5
    ∃ cn, (nwbindMachine.exec start annLogin).connections[0]? = some cn ∧ cn.objectId = 0x10002 ∧
      ∃ before env r after, annLogin = before ++ (env, .request 1 r) :: after ∧
        let s := nwbindMachine.exec start before
        let s' := (nwbindMachine.step s (env, .request 1 r)).2
        (∃ c, SoundLogin env s s'.bindery 0 c r cn.objectId cn.idFlags) ∧
          nwbindMachine.Along (fun s e => ¬SetsIdentity 0 s e) s' after := by
  intro start
  have hlogged : ((nwbindMachine.exec start annLogin).connections[0]?.map Connection.objectId) =
      some 0x10002 := by decide +kernel
  obtain ⟨cn, hconn, hid⟩ := Option.map_eq_some_iff.mp hlogged
  exact ⟨cn, hconn, hid, nwbind_login_sound _ 5 annLogin 0 cn hconn (by rw [hid]; decide)⟩

end MarsNwe
