import MarsNwe.Bindery.Requests
import MarsNwe.Login.Restrictions

/-! # The connections of nwbind

`nwbind` handles one packet at a time: `nwserv` opens and clears connections,
clients log in and out and use the bindery. Names and passwords are modelled
where they fit the arrays that the packets are copied to.
-/

namespace MarsNwe

open KeyedFile

variable {F : Type → Type → Type} [KeyedFile F]

/-! ## Packets and replies -/

/-- The requests of a client. The bytes of a new key are those that `rand` gives. -/
inductive NcpRequest where
  /-- 0x17, 0x14 -/
  | login (type : UInt16) (name : CText 48) (password : CText 80)
  /-- 0x17, 0x17 -/
  | getCryptKey (key : ByteBuf 8)
  /-- 0x17, 0x18 -/
  | cryptLogin (answer : ByteBuf 8) (type : UInt16) (name : CText 48)
  /-- 0x17, 0x32 to 0x48 -/
  | bind (r : BindRequest)
  /-- 0x19 -/
  | logout

/-- The packets. All else that `nwbind` handles, the 0x3333, 0xeeee and 0xffff of
`nwserv`, the signals and the other requests of clients, may leave any bindery
but writes neither `object_id` and `id_flags` nor what the logins read of a
connection. -/
inductive Packet (F : Type → Type → Type) where
  /-- 0x2222 -/
  | insert (conn : Nat) (adr : IpxAddr)
  /-- 0x5555 -/
  | clear (conn : Nat)
  /-- 0x2222 of a client -/
  | request (conn : Nat) (r : NcpRequest)
  | other (bindery : Bindery F)

/-- The data of `build_login_response`. -/
structure LoginResponse where
  gid : UInt32
  uid : UInt32
  idFlags : UInt32
  objId : UInt32
  groups : List UInt32
  pwName : List UInt8
deriving DecidableEq

/-- The replies, with the completion code of those that may fail. -/
inductive NcpReply where
  | none
  | login (completition : UInt8) (response : Option LoginResponse)
  | cryptKey (completition : UInt8) (key : ByteBuf 8)
  | bind (reply : BindReply)
deriving DecidableEq

/-- The state of `nwbind`: its bindery and the table of its connections. -/
structure Nwbind (F : Type → Type → Type) where
  bindery : Bindery F
  connections : List Connection

/-! ## The code -/

/-- `PW_SCHEME_GET_KEY_FAIL`. -/
def pwSchemeGetKeyFail : UInt32 := 4

/-- `pn_groups_i_m_in`, with the apostrophe by its code. -/
def pnGroupsIMIn : CText 16 :=
  propName ['G', 'R', 'O', 'U', 'P', 'S', '_', 'I', Char.ofNat 39, 'M', '_', 'I', 'N']

/-- `HAVE_SU_RIGHTS`. -/
def haveSuRights (c : Caller) (b : Bindery F) (id : UInt32) : Bool :=
  id == 1 || nwIsMemberInSet c b id pnSecurityEquals 1 == 0

/-- `get_groups_i_m_in`. -/
def getGroupsIMIn (c : Caller) (b : Bindery F) (id : UInt32) : List UInt32 :=
  match nwGetPropValByObjId c b id 1 pnGroupsIMIn with
  | .ok (v, _, _) => v.members.filter (· ≠ 0)
  | .error _ => []

/-- `get_guid`: group, user and name. -/
def getGuid (h : Host) (c : Caller) (b : Bindery F) (objId : UInt32) :
    UInt32 × UInt32 × List UInt8 :=
  match nwGetpwnam h c b objId with
  | some pw => (pw.pwGid, pw.pwUid, pw.pwName.bytes)
  | none => (0xffffffff, 0xffffffff, asciiBytes ['U', 'N', 'K', 'N', 'O', 'W', 'N'])

/-- `open_clear_connection`. -/
def openClearConnection (connections : List Connection) (conn : Nat) (activate : Bool)
    (addr : Option IpxAddr) : List Connection :=
  if 0 < conn then
    connections.modify (conn - 1) fun c =>
      { c with
        active := activate
        tLogin := 0
        clientAdr := if activate then addr.getD c.clientAdr else c.clientAdr
        objectId := 0
        idFlags := 0 }
  else connections

/-- `build_login_response`: the connection with its new identity, and the data. -/
def buildLoginResponse (env : Env) (b : Bindery F) (c : Connection) (objId : UInt32) :
    Connection × LoginResponse :=
  let idFlags : UInt32 := if haveSuRights .internal b objId then 1 else 0
  let (gid, uid, pwName) := getGuid env.host .internal b objId
  ({ c with objectId := objId, tLogin := env.now, idFlags := idFlags },
    ⟨gid, uid, idFlags, objId, getGroupsIMIn .internal b objId, pwName⟩)

/-- The password test of `case 0x14`. -/
def testLogin (env : Env) (b : Bindery F) (objId : UInt32) (password : CText 80) : Int :=
  if env.settings.passwordScheme &&& pwSchemeLogin ≠ 0 then
    nwTestUnenpasswd env.host .internal b objId password
  else -0xff

/-- The end of `case 0x14` and `case 0x18`, behind the password test, with the
results that count as passed: only objects of type 1 have restrictions, and a
grace login is a login although its completion code is 0xdf. -/
def finishLogin (env : Env) (s : Nwbind F) (conn : Nat) (c : Connection) (b : Bindery F)
    (obj : NetObj) (passed : Int → Bool) (result : Int) : NcpReply × Nwbind F :=
  let (result, b) :=
    if passed result && obj.type == 1 then
      nwTestAdrTimeAccess env .internal b s.connections obj.id c.clientAdr
    else (result, b)
  let completition := if passed result then 0 else UInt8.ofInt (-result)
  if passed result ∨ result = -0xdf then
    let (c, response) := buildLoginResponse env b c obj.id
    (.login completition (some response), ⟨b, s.connections.set (conn - 1) c⟩)
  else (.login completition none, { s with bindery := b })

/-- The cases of `handle_fxx`, for the active connection `c` with the number
`conn`. No object is found with the error -0xdf. -/
def handleFxx (env : Env) (s : Nwbind F) (conn : Nat) (c : Connection) :
    NcpRequest → NcpReply × Nwbind F
  | .login type name password =>
      match findObjId s.bindery type (upstr name) with
      | (.error e, b) => (.login (UInt8.ofInt (-e)) none, { s with bindery := b })
      | (.ok obj, b) =>
          finishLogin env s conn c b obj (fun result => result == 0)
            (testLogin env b obj.id password)
  | .getCryptKey key =>
      (.cryptKey (if env.settings.passwordScheme &&& pwSchemeGetKeyFail ≠ 0 then 0xfb else 0) key,
        { s with connections := s.connections.set (conn - 1) { c with cryptKey := key } })
  | .cryptLogin answer type name =>
      match findObjId s.bindery type (upstr name) with
      | (.error e, b) => (.login (UInt8.ofInt (-e)) none, { s with bindery := b })
      | (.ok obj, b) =>
          finishLogin env s conn c b obj (fun result => -1 < result)
            (nwTestPasswd env.host env.settings .internal b obj.id c.cryptKey answer)
  | .bind r =>
      let (reply, b) := handleBindRequest ⟨false, c.objectId, c.idFlags⟩ s.bindery r
      (.bind reply, { s with bindery := b })
  | .logout =>
      (.none, { s with
        connections := s.connections.set (conn - 1) { c with objectId := 0, idFlags := 0 } })

/-- The connection with a number from 1 on. -/
def Nwbind.connection (s : Nwbind F) (conn : Nat) : Option Connection :=
  if 0 < conn then s.connections[conn - 1]? else none

/-- The loop of `main`: requests of connections that are not active are ignored. -/
def handlePacket (env : Env) (s : Nwbind F) : Packet F → NcpReply × Nwbind F
  | .insert conn adr =>
      (.none, { s with connections := openClearConnection s.connections conn true (some adr) })
  | .clear conn =>
      (.none, { s with connections := openClearConnection s.connections conn false none })
  | .request conn r =>
      match s.connection conn with
      | some c => if c.active then handleFxx env s conn c r else (.none, s)
      | none => (.none, s)
  | .other b => (.none, { s with bindery := b })

/-- `nwbind` as a machine that handles packets, each in its own environment. -/
def nwbindMachine : Machine (Nwbind F) (Env × Packet F) NcpReply where
  step s e := handlePacket e.1 s e.2

/-- A connection as `xcmalloc` leaves it. -/
def Connection.new : Connection :=
  ⟨⟨.zero 4, .zero 6, .zero 2⟩, 0, 0, .zero 8, 0, false⟩

/-- The start: `maxConnections` connections, all closed. -/
def Nwbind.init (b : Bindery F) (maxConnections : Nat) : Nwbind F :=
  ⟨b, List.replicate maxConnections .new⟩

end MarsNwe
