import MarsNwe.Lib.Traced
import MarsNwe.Net
import MarsNwe.Nwconn.Packets
import MarsNwe.Sema.Semaphores
import MarsNwe.Tools

/-! # The requests that nwbind handles

nwbind keeps a record of each connection. Its functions on the bindery, the queues and the
semaphores see the record of the connection that sends the request, and no other one; what
they do is left open here. The functions that look at other connections are spelled out.
-/

namespace MarsNwe

/-- `CONNECTION` of nwbind. -/
structure ConnRecord where
  clientAdr : IpxAddr
  objectId : UInt32
  idFlags : UInt32
  cryptKey : ByteBuf 8
  tLogin : Int
  message : CText 60
  active : Bool
  pidNwconn : Int32
  semas : List SemaConn

/-- What nwbind does apart from its reply. -/
inductive FxxEffect where
  /-- A record of the table `connections` is read or written. -/
  | use (index : Int)
  /-- `nwserv_handle_msg` -/
  | handleMsg (connection : Int)
  /-- `nwserv_down_server` -/
  | downServer
  /-- `nwserv_reset_wdog` -/
  | resetWdog (connection : Nat)
  /-- SIGTERM to the process of a record -/
  | kill (index : Int) (pid : Int32)
  | writeUtmp (login : Bool) (connection : Nat) (pid : Int32) (adr : IpxAddr)
  | console (message : List UInt8)
deriving DecidableEq

structure FxxReply where
  completition : UInt8
  connectStatus : UInt8
  data : List UInt8
deriving DecidableEq

def FxxReply.error (completition : UInt8) : FxxReply := ⟨completition, 0, []⟩

def FxxReply.ok (data : List UInt8) : FxxReply := ⟨0, 0, data⟩

/-- The completition of a negative result. -/
def FxxReply.ofResult (result : Int) : FxxReply := .error (UInt8.ofInt (-result))

/-- What nwbind calls in its other files, which keep a state of their own: `β`. -/
structure NwbindFuncs (β : Type) where
  /-- `find_obj_id`: the id, for a type and a name in capitals -/
  findObjId : β → UInt16 → CText 48 → Except Int UInt32
  /-- `nw_test_unenpasswd`, when unencrypted logins are enabled -/
  testLogin : β → UInt32 → CText 80 → Int
  /-- `nw_test_passwd` -/
  testCryptLogin : β → UInt32 → ByteBuf 8 → List UInt8 → Int
  /-- `nw_test_adr_time_access`, which may count the active connections of the object -/
  testAdrTimeAccess : β → UInt32 → IpxAddr → (Int × β) ⊕ (Nat → Int × β)
  /-- `HAVE_SU_RIGHTS` -/
  haveSuRights : β → UInt32 → Bool
  /-- the data of `build_login_response` -/
  loginData : β → UInt32 → (idFlags : UInt32) → List UInt8
  /-- 'Get FileServer Info', for the numbers of connections in use and at the peak -/
  serverInfo : β → (inUse peak : Nat) → List UInt8
  /-- object and login time for 'Get Connection Info' -/
  connectionInfo : β → (objectId : UInt32) → (tLogin : Int) → List UInt8
  /-- `handle_func_0x20` -/
  semaphores : β → List SemaConn → (rdata : List UInt8) → (ufunc : UInt8) →
    Except Int (List UInt8) × List SemaConn × β
  /-- `nw_close_connection_jobs` for all tasks -/
  closeJobs : β → (connection : Nat) → β
  /-- the functions that see no record but the sender's, and write to none -/
  other : β → (connection : Nat) → ConnRecord → (func ufunc : UInt8) → (rdata : List UInt8) →
    FxxReply × β

/-- The memory of nwbind; `beyond` is what lies before and behind its table. -/
structure NwbindTable (β : Type) where
  connections : List ConnRecord
  beyond : Int → ConnRecord
  state : β

/-- The time, and what `rand` gives for a new key. -/
structure FxxEnv where
  akttime : Int
  rand : ByteBuf 8
  /-- `password_scheme & PW_SCHEME_GET_KEY_FAIL` -/
  getKeyFails : Bool

/-! ## Bytes of a request -/

def dataByte (r : List UInt8) (i : Nat) : UInt8 := r.getD i 0

/-- `GET_BE16` -/
def be16At (r : List UInt8) (i : Nat) : UInt16 :=
  UInt16.ofNat ((dataByte r i).toNat * 256 + (dataByte r (i + 1)).toNat)

/-- `GET_BE32` -/
def be32At (r : List UInt8) (i : Nat) : UInt32 :=
  be32 (dataByte r i) (dataByte r (i + 1)) (dataByte r (i + 2)) (dataByte r (i + 3))

/-- `GET_32` -/
def le32At (r : List UInt8) (i : Nat) : UInt32 :=
  be32 (dataByte r (i + 3)) (dataByte r (i + 2)) (dataByte r (i + 1)) (dataByte r i)

/-- `strmaxcpy` of a text with its length before it, as far as it fits `n + 1` bytes. -/
def textAt (n : Nat) (r : List UInt8) (i : Nat) : CText (n + 1) :=
  CText.copy n ((r.drop (i + 1)).take (dataByte r i).toNat)

/-- `strmaxcpy(message, msg, min(58, msglen))` -/
def messageText (msg : List UInt8) (msglen : Nat) : CText 60 :=
  CText.copy 59 (msg.take (min 58 msglen))

def IpxAddr.bytes (a : IpxAddr) : List UInt8 := a.net.bytes ++ a.node.bytes ++ a.sock.bytes

/-! ## handle_fxx -/

namespace NwbindTable

variable {β : Type} (f : NwbindFuncs β) (env : FxxEnv) (s : NwbindTable β) (sender : Nat)

/-- `connections[index]` -/
def record (index : Int) : ConnRecord :=
  match index with
  | .ofNat i => s.connections.getD i (s.beyond index)
  | .negSucc _ => s.beyond index

/-- Write to a record of the table. -/
def modify (index : Nat) (change : ConnRecord → ConnRecord) : NwbindTable β :=
  { s with connections := s.connections.modify index change }

def setMessage (index : Nat) (message : CText 60) : NwbindTable β :=
  s.modify index fun c => { c with message := message }

/-- A loop over the whole table. -/
def scan {α : Type} (step : α → Nat → ConnRecord → α) (start : α) : Traced FxxEffect α :=
  (List.range s.connections.length).foldlM (fun a (k : Nat) => do
    Traced.emit (.use k)
    pure (step a k (s.record k))) start

/-! ### Messages -/

/-- One round of 'Send Broadcast Message (old)': the table, the results and `one_found`. -/
def broadcastTo (message : CText 60) (acc : NwbindTable β × List UInt8 × Bool) (connr : UInt8) :
    Traced FxxEffect (NwbindTable β × List UInt8 × Bool) :=
  let (s, results, oneFound) := acc
  let k := connr.toNat - 1
  if connr > 0 ∧ k < s.connections.length then do
    Traced.emit (.use k)
    if (s.record k).active then do
      Traced.emit (.handleMsg (k + 1))
      if (s.record k).message.bytes = [] then pure (s.setMessage k message, results ++ [0], true)
      -- server holds message
      else pure (s, results ++ [0xfc], true)
    else pure (s, results ++ [0xff], oneFound)
  else pure (s, results ++ [0xff], oneFound)

/-- Function 0x15. -/
def handleFxx15 (ufunc : UInt8) (rdata : List UInt8) : Traced FxxEffect (FxxReply × NwbindTable β) :=
  if ufunc = 0x00 then do
    let countConns := (dataByte rdata 0).toNat
    let conns := (List.range countConns).map fun k => dataByte rdata (1 + k)
    let message := messageText (rdata.drop (1 + countConns + 1)) (dataByte rdata (1 + countConns)).toNat
    let (s, results, oneFound) ← conns.foldlM (broadcastTo message) (s, [], false)
    pure (if oneFound then .ok (dataByte rdata 0 :: results) else .error 0xff, s)
  else if ufunc = 0x01 then do
    Traced.emit (.use sender)
    let text := (s.record sender).message.bytes.take 58
    pure (.ok (UInt8.ofNat text.length :: text), s.setMessage sender (CText.copy 59 []))
  -- TODO: enable Broadcasts
  else if ufunc = 0x03 then pure (.ok [], s)
  else if ufunc = 0x09 then do
    Traced.emit (.console (textAt 59 rdata 0).bytes)
    pure (.ok [], s)
  else pure (.error 0xfb, s)

/-! ### The file server environment -/

/-- 'Get FileServer Info' -/
def getServerInfo : Traced FxxEffect (FxxReply × NwbindTable β) := do
  let (inUse, peak) ← s.scan (fun (i, h) k c => if c.active then (i + 1, k + 1) else (i, h)) (0, 0)
  pure (.ok (f.serverInfo s.state inUse peak), s)

/-- The connection number of a request, old in one byte or new in four. -/
def connNumber (old : Bool) (rdata : List UInt8) : Int :=
  if old then
    if s.connections.length < 256 then (dataByte rdata 0).toNat else sender + 1
  else (le32At rdata 0).toInt32.toInt

/-- 'Get Connection Internet Address' -/
def getInternetAddress (old : Bool) (rdata : List UInt8) :
    Traced FxxEffect (FxxReply × NwbindTable β) :=
  let conn := s.connNumber sender old rdata
  if conn > 0 ∧ conn ≤ s.connections.length then do
    Traced.emit (.use (conn - 1))
    let cx := s.record (conn - 1)
    if cx.active then pure (.ok (cx.clientAdr.bytes ++ if old then [] else [0x02]), s)
    else pure (.error 0xff, s)
  else pure (.error 0xff, s)

/-- `build_login_response` -/
def buildLoginResponse (objId : UInt32) : Traced FxxEffect (List UInt8 × NwbindTable β) := do
  let idFlags := if f.haveSuRights s.state objId then 1 else 0
  Traced.emit (.use sender)
  Traced.emit (.writeUtmp true (sender + 1) (s.record sender).pidNwconn (s.record sender).clientAdr)
  pure (f.loginData s.state objId idFlags,
    s.modify sender fun c => { c with objectId := objId, tLogin := env.akttime, idFlags := idFlags })

/-- `nw_test_adr_time_access`, for an object of type 1 with a result that counts as passed. -/
def testAdrTime (passed : Int → Bool) (type : UInt16) (objId : UInt32) (result : Int) :
    Traced FxxEffect (Int × NwbindTable β) :=
  if passed result ∧ type = 1 then
    match f.testAdrTimeAccess s.state objId (s.record sender).clientAdr with
    | .inl (result, state) => pure (result, { s with state := state })
    | .inr ofCount => do
        let count ← s.scan (fun j _ c => if c.active ∧ c.objectId = objId then j + 1 else j) 0
        let (result, state) := ofCount count
        pure (result, { s with state := state })
  else pure (result, s)

/-- The reply to a login. -/
def loginReply (passed : Int → Bool) (objId : UInt32) (result : Int) :
    Traced FxxEffect (FxxReply × NwbindTable β) :=
  let completition := if passed result then 0 else UInt8.ofInt (-result)
  -- 0xdf: a grace login
  if passed result ∨ result = -0xdf then do
    let (data, s) ← s.buildLoginResponse f env sender objId
    pure (⟨completition, 0, data⟩, s)
  else pure (.error completition, s)

/-- The end of both logins. -/
def finishLogin (passed : Int → Bool) (type : UInt16) (objId : UInt32) (result : Int) :
    Traced FxxEffect (FxxReply × NwbindTable β) := do
  Traced.emit (.use sender)
  let (result, s) ← s.testAdrTime f sender passed type objId result
  s.loginReply f env sender passed objId result

/-- 'Login Objekt, unencrypted passwords' -/
def login (rdata : List UInt8) : Traced FxxEffect (FxxReply × NwbindTable β) :=
  let type := be16At rdata 0
  let password := textAt 79 rdata (3 + (dataByte rdata 2).toNat)
  match f.findObjId s.state type (upstr (textAt 47 rdata 2)) with
  | .error e => pure (.ofResult e, s)
  | .ok objId =>
      s.finishLogin f env sender (· = 0) type objId (f.testLogin s.state objId password)

/-- 'crypt_keyed LOGIN' -/
def cryptLogin (rdata : List UInt8) : Traced FxxEffect (FxxReply × NwbindTable β) :=
  let type := be16At rdata 8
  match f.findObjId s.state type (upstr (textAt 47 rdata 10)) with
  | .error e => pure (.ofResult e, s)
  | .ok objId =>
      s.finishLogin f env sender (· > -1) type objId
        (f.testCryptLogin s.state objId (s.record sender).cryptKey rdata)

/-- The loop of 'Get Object Connection List', over some indices: those of the object. -/
def listConnections (objId : UInt32) : List Int → Nat → Traced FxxEffect (List Int)
  | [], _ => pure []
  | k :: ks, count =>
      if count < 255 then do
        Traced.emit (.use k)
        let cn := s.record k
        if cn.active ∧ cn.objectId = objId then do
          let rest ← listConnections objId ks (count + 1)
          pure (k :: rest)
        else listConnections objId ks count
      else pure []

/-- The indices of a loop over the table, from one on. -/
def indicesFrom (first : Int) : List Int :=
  (List.range (s.connections.length - first).toNat).map fun n : Nat => first + n

/-- 'Get Object Connection List (old)' -/
def getConnListOld (rdata : List UInt8) : Traced FxxEffect (FxxReply × NwbindTable β) :=
  match f.findObjId s.state (be16At rdata 0) (upstr (textAt 47 rdata 2)) with
  | .error e => pure (.ofResult e, s)
  | .ok objId => do
      let conns ← s.listConnections objId (s.indicesFrom 0) 0
      pure (.ok (UInt8.ofNat conns.length :: conns.map fun k => UInt8.ofInt (k + 1)), s)

/-- Where the loop of 'Get Object Connection List' starts, `max(-1, searchnr-1)` and one
more; the sums wrap. -/
def firstOf (searchnr : Int32) : Int :=
  ((if -1 > searchnr - 1 then -1 else searchnr - 1) + 1).toInt

/-- 'Get Object Connection List' -/
def getConnList (rdata : List UInt8) : Traced FxxEffect (FxxReply × NwbindTable β) :=
  match f.findObjId s.state (be16At rdata 4) (upstr (textAt 47 rdata 6)) with
  | .error e => pure (.ofResult e, s)
  | .ok objId => do
      let first := firstOf (be32At rdata 0).toInt32
      let conns ← s.listConnections objId (s.indicesFrom first) 0
      -- LO-HI !!
      pure (.ok (UInt8.ofNat conns.length ::
        conns.flatMap fun k => [UInt8.ofInt (k + 1), UInt8.ofInt ((k + 1) / 256)]), s)

/-- 'Get Connection Info' -/
def getConnInfo (old : Bool) (rdata : List UInt8) : Traced FxxEffect (FxxReply × NwbindTable β) :=
  let conn := s.connNumber sender old rdata
  if conn ≠ 0 ∧ conn ≤ s.connections.length then do
    Traced.emit (.use (conn - 1))
    let cx := s.record (conn - 1)
    if cx.active then pure (.ok (f.connectionInfo s.state cx.objectId cx.tLogin), s)
    else pure (.ok (List.replicate 62 0), s)
  else pure (.error 0xfd, s)

/-- 'get crypt key' -/
def getCryptKey : Traced FxxEffect (FxxReply × NwbindTable β) := do
  Traced.emit (.use sender)
  pure (⟨if env.getKeyFails then 0xfb else 0, 0, env.rand.bytes⟩,
    s.modify sender fun c => { c with cryptKey := env.rand })

/-- One round of 'Send Console Broadcast (old)': the table and `connect_status`. -/
def consoleBroadcastTo (message : CText 60) (acc : NwbindTable β × UInt8) (conn : UInt8) :
    Traced FxxEffect (NwbindTable β × UInt8) :=
  let (s, connectStatus) := acc
  let k := conn.toNat - 1
  if conn.toNat = sender + 1 then do
    Traced.emit (.use sender)
    pure (s.setMessage sender message, 0x40)
  else if conn ≠ 0 ∧ k < s.connections.length then do
    Traced.emit (.use k)
    if (s.record k).objectId ≠ 0 then do
      Traced.emit (.handleMsg (k + 1))
      pure (s.setMessage k message, connectStatus)
    else pure (s, connectStatus)
  else pure (s, connectStatus)

/-- 'Send Console Broadcast (old)' -/
def consoleBroadcast (rdata : List UInt8) : Traced FxxEffect (FxxReply × NwbindTable β) := do
  let countConns := (dataByte rdata 0).toNat
  let message := messageText (rdata.drop (1 + countConns + 1)) (dataByte rdata (1 + countConns)).toNat
  if countConns ≠ 0 then do
    let conns := (List.range countConns).map fun k => dataByte rdata (1 + k)
    let (s, connectStatus) ← conns.foldlM (consoleBroadcastTo sender message) (s, 0)
    pure (⟨0, connectStatus, []⟩, s)
  else do
    Traced.emit (.use sender)
    pure (⟨0, 0x40, []⟩, s.setMessage sender message)

/-- 'MARS_NWE has killed your connection' -/
def killedMessage : CText 60 :=
  CText.copy 59 (asciiBytes ['M', 'A', 'R', 'S', '_', 'N', 'W', 'E', ' ', 'h', 'a', 's', ' ',
    'k', 'i', 'l', 'l', 'e', 'd', ' ', 'y', 'o', 'u', 'r', ' ',
    'c', 'o', 'n', 'n', 'e', 'c', 't', 'i', 'o', 'n'])

/-- 'Clear Connection Number' -/
def clearConnNumber (rdata : List UInt8) : Traced FxxEffect (FxxReply × NwbindTable β) := do
  let conxnumber := (dataByte rdata 0 - 1).toNat
  Traced.emit (.use conxnumber)
  let cn := s.record conxnumber
  if cn.active then do
    Traced.emit (.handleMsg (conxnumber + 1))
    if cn.pidNwconn > -1 then
      -- kill it using brute force
      Traced.emit (.kill conxnumber cn.pidNwconn)
    pure (.ok [], s.setMessage conxnumber killedMessage)
  else pure (.ok [], s)

/-- 'down File Server' -/
def downFileServer : Traced FxxEffect (FxxReply × NwbindTable β) := do
  Traced.emit (.use sender)
  if f.haveSuRights s.state (s.record sender).objectId then do
    Traced.emit .downServer
    pure (.ok [], s)
  else pure (.error 0xc6, s)

/-- A function that sees no other record. -/
def otherFunc (func ufunc : UInt8) (rdata : List UInt8) :
    Traced FxxEffect (FxxReply × NwbindTable β) := do
  Traced.emit (.use sender)
  let (reply, state) := f.other s.state (sender + 1) (s.record sender) func ufunc rdata
  pure (reply, { s with state := state })

/-- Function 0x17. -/
def handleFxx17 (ufunc : UInt8) (rdata : List UInt8) : Traced FxxEffect (FxxReply × NwbindTable β) :=
  if ufunc = 0x11 then s.getServerInfo f
  else if ufunc = 0x13 then s.getInternetAddress sender true rdata
  else if ufunc = 0x1a then s.getInternetAddress sender false rdata
  else if ufunc = 0x14 then s.login f env sender rdata
  else if ufunc = 0x15 then s.getConnListOld f rdata
  else if ufunc = 0x16 then s.getConnInfo f sender true rdata
  else if ufunc = 0x1c then s.getConnInfo f sender false rdata
  else if ufunc = 0x17 then s.getCryptKey env sender
  else if ufunc = 0x18 then s.cryptLogin f env sender rdata
  else if ufunc = 0x1b then s.getConnList f rdata
  else if ufunc = 0xd1 then s.consoleBroadcast sender rdata
  else if ufunc = 0xd2 then s.clearConnNumber rdata
  else if ufunc = 0xd3 then s.downFileServer f sender
  else s.otherFunc f sender 0x17 ufunc rdata

/-! ### Logout and semaphores -/

/-- Function 0x19. -/
def logout : Traced FxxEffect (FxxReply × NwbindTable β) := do
  Traced.emit (.use sender)
  Traced.emit (.writeUtmp false (sender + 1) (s.record sender).pidNwconn (s.record sender).clientAdr)
  let s := { s with state := f.closeJobs s.state (sender + 1) }
  pure (.ok [], s.modify sender fun c => { c with objectId := 0, idFlags := 0 })

/-- Function 0x20. -/
def handleSemaphores (ufunc : UInt8) (rdata : List UInt8) :
    Traced FxxEffect (FxxReply × NwbindTable β) := do
  Traced.emit (.use sender)
  let (result, semas, state) := f.semaphores s.state (s.record sender).semas rdata ufunc
  let s := { s with state := state }
  pure (match result with
    | .ok data => .ok data
    | .error e => .ofResult e, s.modify sender fun c => { c with semas := semas })

/-- `ufunc` and `rdata`. -/
def splitRequest (func : UInt8) (requestdata : List UInt8) : UInt8 × List UInt8 :=
  -- 19 is no function; 0x19 has no data
  if func = 0x18 ∨ func = 19 then (0, requestdata)
  else if func = 0x20 then (dataByte requestdata 0, requestdata.drop 1)
  else (dataByte requestdata 2, requestdata.drop 3)

/-- The switches of `handle_fxx`. -/
def dispatch (func : UInt8) (requestdata : List UInt8) : Traced FxxEffect (FxxReply × NwbindTable β) :=
  let (ufunc, rdata) := splitRequest func requestdata
  if func = 0x15 then s.handleFxx15 sender ufunc rdata
  else if func = 0x16 then s.otherFunc f sender func ufunc rdata
  else if func = 0x17 then s.handleFxx17 f env sender ufunc rdata
  else if func = 0x18 then s.otherFunc f sender func ufunc rdata
  else if func = 0x19 then s.logout f sender
  else if func = 0x20 then s.handleSemaphores f sender ufunc rdata
  else pure (.error 0xfb, s)

/-- `handle_fxx`. The client is told of a message that it has. -/
def handleFxx (func : UInt8) (requestdata : List UInt8) :
    Traced FxxEffect (FxxReply × NwbindTable β) := do
  let (reply, s) ← s.dispatch f env sender func requestdata
  Traced.emit (.use sender)
  pure (if (s.record sender).message.bytes = [] then reply
    else { reply with connectStatus := reply.connectStatus ||| 0x40 }, s)

/-- The connection that a request names, counted from 0. -/
def senderOf (packet : List UInt8) : Option Nat :=
  let actConnection := (NcpBuf.connection packet).toNat ||| (NcpBuf.highConnection packet).toNat <<< 8
  if actConnection > 0 ∧ actConnection ≤ s.connections.length then some (actConnection - 1) else none

/-- `main`, for a packet of type 0x2222; `fromNwconn` if it comes from this host. The reply,
if there is one. -/
def handleRequest (fromNwconn : Bool) (packet : List UInt8) :
    Traced FxxEffect (Option FxxReply × NwbindTable β) :=
  match s.senderOf packet with
  | none => pure (none, s)
  | some sender => do
      Traced.emit (.use sender)
      if (s.record sender).active ∧ fromNwconn then
        if NcpBuf.function packet = 0 then do
          Traced.emit (.resetWdog (sender + 1))
          pure (none, s)
        else do
          let (reply, s) ← s.handleFxx f env sender (NcpBuf.function packet)
            (packet.drop NcpBuf.requestSize)
          pure (some reply, s)
      else pure (none, s)

end NwbindTable

end MarsNwe
