import MarsNwe.Lib.KeyedSlots
import MarsNwe.Lib.Machine
import MarsNwe.Route.Rip
import MarsNwe.Tools

/-! # The table of servers

The server learns from SAP responses which servers there are, and tells nwbind the
address of each of them.
-/

namespace MarsNwe

/-- `MAX_SERVER_NAME` -/
def maxServerName : Nat := 48

/-- A server name in upper case. -/
abbrev ServerName := CText (maxServerName + 1)

/-- `NW_SERVERS`; the type 0 marks a free slot. -/
structure NwServer where
  name : Option ServerName
  typ : UInt16
  addr : IpxAddr
  net : UInt32
  hops : UInt16
deriving DecidableEq

/-- The type and the name of a server. -/
abbrev ServerKey := UInt16 × ServerName

def NwServer.key (nr : NwServer) : Option ServerKey := nr.name.map fun name => (nr.typ, name)

/-- What `ins_del_bind_net_addr` sends to nwbind. -/
inductive BindNetAddr where
  | insert (name : ServerName) (styp : UInt16) (adr : IpxAddr)
  | delete (name : ServerName) (styp : UInt16)
deriving DecidableEq

def BindNetAddr.key : BindNetAddr → ServerKey
  | .insert name styp _ | .delete name styp => (styp, name)

/-- What the server is itself. -/
structure SapHost where
  myNwname : List UInt8
  /-- With the socket `SOCK_NCP`. -/
  myServerAdr : IpxAddr
  /-- `handle_all_sap_typs` -/
  handleAllSapTyps : Bool

/-- `SOCK_SAP` -/
def sockSap : ByteBuf 2 := ⟨[0x04, 0x52], rfl⟩

/-- `find_device_by_net`. -/
def findDeviceByNet (devices : List NwNetDevice) (net : UInt32) : Option NwNetDevice :=
  devices.find? fun nd => nd.isUp ∧ nd.net = net

/-! ## The table -/

/-- An address with the node and the net of this server, whatever the socket. -/
def SapHost.isMe (host : SapHost) (addr : IpxAddr) : Bool :=
  addr.node = host.myServerAdr.node ∧ addr.net = host.myServerAdr.net

/-- Both nets have devices, and that of the first one is faster. -/
def isFaster (devices : List NwNetDevice) (net net' : UInt32) : Bool :=
  match findDeviceByNet devices net, findDeviceByNet devices net' with
  | some nrd, some nnd => nrd.ticks < nnd.ticks
  | _, _ => false

/-- The net that a server is reached by, at the end of `insert_delete_server`. -/
def routeServer (devices : List NwNetDevice) (nr : NwServer) (fromAddr : IpxAddr) (hops : UInt16) :
    NwServer :=
  let net := getBE32 fromAddr.net
  if hops ≤ nr.hops ∧ net ≠ 0 then
    if nr.net ≠ 0 ∧ nr.net ≠ net ∧ nr.hops ≥ hops ∧ isFaster devices nr.net net then nr
    else { nr with net := net, hops := hops }
  else nr

/-- The end of `insert_delete_server`: the entry `nr` with a name is changed perhaps. -/
def offerServer (host : SapHost) (devices : List NwNetDevice) (nr : NwServer) (name : ServerName)
    (addr fromAddr : IpxAddr) (hops : UInt16) : List BindNetAddr × NwServer :=
  if nr.hops > 16 ∨ nr.addr ≠ addr then
    let hops := if host.isMe fromAddr ∧ fromAddr.sock = sockSap then 0 else hops
    ([.insert name nr.typ addr], routeServer devices { nr with addr := addr } fromAddr hops)
  else ([], routeServer devices nr fromAddr hops)

/-- A slot that is cleared. -/
def clearedServer : NwServer := ⟨none, 0, ⟨.zero 4, .zero 6, .zero 2⟩, 0, 0⟩

/-- `insert_delete_server`, of `nwroute.c`: the addresses of the server and of the
sender are given, or the server is deleted. -/
def insertDeleteServer (host : SapHost) (devices : List NwNetDevice) (servers : List NwServer)
    (name : List UInt8) (styp : UInt16) (addrs : Option (IpxAddr × IpxAddr)) (hops : UInt16) :
    List BindNetAddr × List NwServer :=
  let sname : ServerName := upstr (CText.copy maxServerName name)
  if sname.bytes = [] then ([], servers)
  else
    match servers.findIdx? fun nr => nr.key = some (styp, sname) with
    | none =>
        match addrs with
        | none => ([], servers)
        | some (addr, fromAddr) =>
            match servers.findIdx? fun nr => nr.typ = 0 with
            | some freeslot =>
                match servers[freeslot]? with
                | none => ([], servers)
                | some old =>
                    let nr := { old with name := some sname, typ := styp, hops := 0xffff }
                    let (sent, nr) := offerServer host devices nr sname addr fromAddr hops
                    (sent, servers.set freeslot nr)
            | none =>
                let nr := { clearedServer with name := some sname, typ := styp, hops := 0xffff }
                let (sent, nr) := offerServer host devices nr sname addr fromAddr hops
                (sent, servers ++ [nr])
    | some k =>
        match servers[k]?, addrs with
        | none, _ => ([], servers)
        | some nr, none =>
            if host.isMe nr.addr then ([], servers)
            else ([.delete sname nr.typ], servers.set k clearedServer)
        | some nr, some (addr, fromAddr) =>
            let (sent, nr) := offerServer host devices nr sname addr fromAddr hops
            (sent, servers.set k nr)

/-! ## Responses -/

/-- `SAPS`: what a response tells of one server. -/
structure Saps where
  serverType : UInt16
  serverName : ByteBuf maxServerName
  serverAdr : IpxAddr
  hops : UInt16

/-- A general, nearest or shutdown response, with the devices there are when it comes. -/
structure SapResponse where
  netDevices : List NwNetDevice
  fromAddr : IpxAddr
  entries : List Saps

/-- One of the servers that a response tells of. -/
structure SapOffer where
  netDevices : List NwNetDevice
  fromAddr : IpxAddr
  entry : Saps

def SapResponse.offers (response : SapResponse) : List SapOffer :=
  response.entries.map fun entry => ⟨response.netDevices, response.fromAddr, entry⟩

/-- The table, and what has been sent to nwbind. -/
structure SapState where
  servers : List NwServer
  sent : List BindNetAddr

/-- The body of the loop of `handle_sap`. -/
def handleSaps (host : SapHost) (s : SapState) (offer : SapOffer) : SapState :=
  let e := offer.entry
  if host.handleAllSapTyps ∨ e.serverType = 4 then
    let (sent, servers) :=
      insertDeleteServer host offer.netDevices s.servers e.serverName.bytes e.serverType
        (if e.hops = 16 then none else some (e.serverAdr, offer.fromAddr)) e.hops
    ⟨servers, s.sent ++ sent⟩
  else s

/-- The servers of responses one after the other. -/
def sapMachine (host : SapHost) : Machine SapState SapOffer Unit where
  step s offer := ((), handleSaps host s offer)

/-- `handle_sap`, for a response. -/
def handleSap (host : SapHost) (s : SapState) (response : SapResponse) : SapState :=
  (sapMachine host).exec s response.offers

/-- The server when it starts: it enters itself. -/
def sapStart (host : SapHost) (devices : List NwNetDevice) : SapState :=
  let (sent, servers) := insertDeleteServer host devices [] host.myNwname 4
    (some (host.myServerAdr, { host.myServerAdr with sock := sockSap })) 0
  ⟨servers, sent⟩

/-! ## What a sound table is -/

/-- The last call for a server that has been sent to nwbind. -/
def lastSent (sent : List BindNetAddr) (key : ServerKey) : Option BindNetAddr :=
  sent.reverse.find? fun call => call.key = key

/-- nwbind has been told last what the table says of a server. -/
def AgreesWithBind (s : SapState) (key : ServerKey) : Prop :=
  match KeyedSlots.lookup NwServer.key s.servers key with
  | some nr => lastSent s.sent key = some (.insert key.2 key.1 nr.addr)
  | none => lastSent s.sent key = none ∨ lastSent s.sent key = some (.delete key.2 key.1)

/-- The server itself. -/
def SapHost.ownKey (host : SapHost) : ServerKey :=
  (4, upstr (CText.copy maxServerName host.myNwname))

structure SapSound (host : SapHost) (s : SapState) : Prop where
  unique : KeyedSlots.Unique NwServer.key s.servers
  agrees : ∀ key, AgreesWithBind s key
  own : host.ownKey.2.bytes ≠ [] →
    ∃ nr, KeyedSlots.lookup NwServer.key s.servers host.ownKey = some nr ∧
      nr.addr = host.myServerAdr

/-- The server that an offer is about. -/
def Saps.key (e : Saps) : ServerKey := (e.serverType, upstr (CText.copy maxServerName e.serverName.bytes))

/-- A new server does not take the slot of one of type 0, and no address of another
is offered for the server itself. -/
def OfferFits (host : SapHost) (s : SapState) (offer : SapOffer) : Prop :=
  let e := offer.entry
  (host.handleAllSapTyps ∨ e.serverType = 4) → e.key.2.bytes ≠ [] → e.hops ≠ 16 →
    (KeyedSlots.lookup NwServer.key s.servers e.key = none →
      ∀ nr, s.servers.find? (·.typ = 0) = some nr → nr.name = none) ∧
    (e.key = host.ownKey → e.serverAdr = host.myServerAdr)

/-! ## One offer -/

section

variable {host : SapHost} {devices : List NwNetDevice} {nr : NwServer} {name : ServerName}
  {addr fromAddr : IpxAddr} {hops : UInt16} {s : SapState} {key : ServerKey}

theorem routeServer_key : (routeServer devices nr fromAddr hops).key = nr.key := by
  unfold routeServer NwServer.key
  dsimp only
  split
  next => split <;> rfl
  next => rfl

theorem routeServer_addr : (routeServer devices nr fromAddr hops).addr = nr.addr := by
  unfold routeServer
  dsimp only
  split
  next => split <;> rfl
  next => rfl

/-- An entry that is offered keeps its name and gets the address. -/
theorem offerServer_spec (host : SapHost) (devices : List NwNetDevice) (nr : NwServer)
    (name : ServerName) (addr fromAddr : IpxAddr) (hops : UInt16) :
    let offered := offerServer host devices nr name addr fromAddr hops
    offered.2.key = nr.key ∧ offered.2.addr = addr ∧
      (offered.1 = [.insert name nr.typ addr] ∨ offered.1 = [] ∧ nr.addr = addr ∧ nr.hops ≤ 16) := by
  unfold offerServer
  dsimp only
  split
  next => exact ⟨routeServer_key, routeServer_addr, .inl rfl⟩
  next hsame =>
    obtain ⟨hhops, haddr⟩ := not_or.mp hsame
    exact ⟨routeServer_key, routeServer_addr.trans (not_not.mp haddr),
      .inr ⟨rfl, not_not.mp haddr, UInt16.not_lt.mp hhops⟩⟩

theorem lastSent_append (sent sent' : List BindNetAddr) (key : ServerKey) :
    lastSent (sent ++ sent') key = (lastSent sent' key).or (lastSent sent key) := by
  unfold lastSent
  rw [List.reverse_append, List.find?_append]

theorem lastSent_singleton (call : BindNetAddr) (key : ServerKey) :
    lastSent [call] key = if call.key = key then some call else none := by
  unfold lastSent
  rw [List.reverse_singleton, List.find?_cons]
  split
  next h => rw [if_pos (of_decide_eq_true h)]
  next h => rw [if_neg (of_decide_eq_false h), List.find?_nil]

/-- The name under which a server is entered. -/
abbrev serverName (name : List UInt8) : ServerName := upstr (CText.copy maxServerName name)

theorem lookup_of_findIdx? {servers : List NwServer} {k : Nat}
    (h : servers.findIdx? (fun nr => nr.key = some key) = some k) :
    ∃ nr, servers[k]? = some nr ∧ nr.key = some key ∧
      KeyedSlots.lookup NwServer.key servers key = some nr := by
  obtain ⟨hlt, hk, hbefore⟩ := List.findIdx?_eq_some_iff_getElem.mp h
  refine ⟨servers[k], List.getElem?_eq_getElem hlt, of_decide_eq_true hk, ?_⟩
  exact List.find?_eq_some_iff_getElem.mpr ⟨hk, k, hlt, rfl, fun j hj => by simpa using hbefore j hj⟩

theorem lookup_of_findIdx?_eq_none {servers : List NwServer}
    (h : servers.findIdx? (fun nr => nr.key = some key) = none) :
    KeyedSlots.lookup NwServer.key servers key = none :=
  KeyedSlots.lookup_eq_none.mpr fun nr hnr =>
    of_decide_eq_false (List.findIdx?_eq_none_iff.mp h nr hnr)

/-- What `insert_delete_server` does: nothing, or it clears or writes the slot of the
server, or it enters a new one, into a slot of type 0 if there is one. -/
theorem insertDeleteServer_cases (host : SapHost) (devices : List NwNetDevice)
    (servers : List NwServer) (name : List UInt8) (styp : UInt16)
    (addrs : Option (IpxAddr × IpxAddr)) (hops : UInt16) :
    let key : ServerKey := (styp, serverName name)
    let r := insertDeleteServer host devices servers name styp addrs hops
    (r = ([], servers) ∧ (key.2.bytes = [] ∨ addrs = none)) ∨
    (key.2.bytes ≠ [] ∧ addrs = none ∧ ∃ k nr, servers[k]? = some nr ∧ nr.key = some key ∧
      ¬host.isMe nr.addr ∧ r = ([.delete key.2 key.1], servers.set k clearedServer)) ∨
    (key.2.bytes ≠ [] ∧ ∃ addr fromAddr, addrs = some (addr, fromAddr) ∧
      ∃ nr' : NwServer, nr'.key = some key ∧ nr'.addr = addr ∧
      ((∃ k nr, servers[k]? = some nr ∧ nr.key = some key ∧ r.2 = servers.set k nr' ∧
          (r.1 = [.insert key.2 key.1 addr] ∨ r.1 = [] ∧ nr.addr = addr)) ∨
        (KeyedSlots.lookup NwServer.key servers key = none ∧ r.1 = [.insert key.2 key.1 addr] ∧
          ((∃ k old, servers[k]? = some old ∧ servers.find? (·.typ = 0) = some old ∧
              r.2 = servers.set k nr') ∨
            servers.find? (·.typ = 0) = none ∧ r.2 = servers ++ [nr'])))) := by
  dsimp only
  unfold insertDeleteServer
  dsimp only
  split
  next hempty => exact .inl ⟨rfl, .inl hempty⟩
  next hname =>
    split
    next hfind =>
      have hnone := lookup_of_findIdx?_eq_none hfind
      split
      next => exact .inl ⟨rfl, .inr rfl⟩
      next addr fromAddr =>
        -- a new entry has more hops than any response, so it is sent
        have hnew : ∀ nr : NwServer, nr.hops = 0xffff → nr.typ = styp →
            (offerServer host devices nr (serverName name) addr fromAddr hops).1 =
              [.insert (serverName name) styp addr] := by
          intro nr hhops htyp
          rcases (offerServer_spec host devices nr (serverName name) addr fromAddr hops).2.2 with
            hsent | ⟨-, -, hle⟩
          · rw [hsent, htyp]
          · rw [hhops] at hle
            exact absurd hle (by decide)
        refine .inr (.inr ⟨hname, addr, fromAddr, rfl, ?_⟩)
        split
        next freeslot hfree =>
          obtain ⟨hlt, hold, hbefore⟩ := List.findIdx?_eq_some_iff_getElem.mp hfree
          have hget : servers[freeslot]? = some servers[freeslot] := List.getElem?_eq_getElem hlt
          have hfirst : servers.find? (·.typ = 0) = some servers[freeslot] :=
            List.find?_eq_some_iff_getElem.mpr
              ⟨hold, freeslot, hlt, rfl, fun j hj => by simpa using hbefore j hj⟩
          rw [hget]
          dsimp only
          have hspec := offerServer_spec host devices
            { servers[freeslot] with name := some (serverName name), typ := styp, hops := 0xffff }
            (serverName name) addr fromAddr hops
          exact ⟨_, hspec.1, hspec.2.1, .inr ⟨hnone, hnew _ rfl rfl,
            .inl ⟨freeslot, servers[freeslot], hget, hfirst, rfl⟩⟩⟩
        next hfree =>
          have hfirst : servers.find? (·.typ = 0) = none :=
            List.find?_eq_none.mpr fun nr hnr => by
              simpa using List.findIdx?_eq_none_iff.mp hfree nr hnr
          have hspec := offerServer_spec host devices
            { clearedServer with name := some (serverName name), typ := styp, hops := 0xffff }
            (serverName name) addr fromAddr hops
          exact ⟨_, hspec.1, hspec.2.1, .inr ⟨hnone, hnew _ rfl rfl, .inr ⟨hfirst, rfl⟩⟩⟩
    next k hfind =>
      obtain ⟨nr, hget, hkey, hlookup⟩ := lookup_of_findIdx? hfind
      rw [hget]
      have htyp : nr.typ = styp := by
        obtain ⟨n, -, heq⟩ := Option.map_eq_some_iff.mp hkey
        exact congrArg Prod.fst heq
      cases addrs with
      | none =>
          dsimp only
          split
          next => exact .inl ⟨rfl, .inr rfl⟩
          next hme => exact .inr (.inl ⟨hname, rfl, k, nr, hget, hkey, hme, by rw [htyp]⟩)
      | some addrs =>
          obtain ⟨addr, fromAddr⟩ := addrs
          dsimp only
          obtain ⟨hkey', haddr, hsent⟩ :=
            offerServer_spec host devices nr (serverName name) addr fromAddr hops
          refine .inr (.inr ⟨hname, addr, fromAddr, rfl, _, hkey'.trans hkey, haddr,
            .inl ⟨k, nr, hget, hkey, rfl, ?_⟩⟩)
          exact hsent.imp (fun h => htyp ▸ h) fun h => ⟨h.1, h.2.1⟩

theorem agrees_other {servers : List NwServer} {sent : List BindNetAddr} {key key' : ServerKey}
    (h : AgreesWithBind s key')
    (hlookup : KeyedSlots.lookup NwServer.key servers key' =
      KeyedSlots.lookup NwServer.key s.servers key')
    (hsent : ∀ call ∈ sent, call.key = key) (hne : key ≠ key') :
    AgreesWithBind ⟨servers, s.sent ++ sent⟩ key' := by
  have hnone : lastSent sent key' = none := by
    unfold lastSent
    simp only [List.find?_eq_none, List.mem_reverse, decide_eq_true_eq]
    exact fun call hcall heq => hne ((hsent call hcall).symm.trans heq)
  unfold AgreesWithBind at h ⊢
  rwa [hlookup, lastSent_append, hnone, Option.none_or]

/-- Nothing is changed by an offer that is ignored, and one that is not is for
`insert_delete_server`. -/
theorem handleSaps_eq {offer : SapOffer}
    (h : host.handleAllSapTyps = true ∨ offer.entry.serverType = 4) :
    let r := insertDeleteServer host offer.netDevices s.servers offer.entry.serverName.bytes
      offer.entry.serverType
      (if offer.entry.hops = 16 then none else some (offer.entry.serverAdr, offer.fromAddr))
      offer.entry.hops
    handleSaps host s offer = ⟨r.2, s.sent ++ r.1⟩ := by
  unfold handleSaps
  rw [if_pos h]

/-- A change of what is found under one key, about which nwbind is told. -/
theorem SapSound.changed {servers : List NwServer} {sent : List BindNetAddr}
    (hs : SapSound host s) (key : ServerKey) (hunique : KeyedSlots.Unique NwServer.key servers)
    (hother : ∀ key', key' ≠ key → KeyedSlots.lookup NwServer.key servers key' =
      KeyedSlots.lookup NwServer.key s.servers key')
    (hsent : ∀ call ∈ sent, call.key = key) (hkey : AgreesWithBind ⟨servers, s.sent ++ sent⟩ key)
    (hown : key = host.ownKey → key.2.bytes ≠ [] →
      ∃ nr, KeyedSlots.lookup NwServer.key servers key = some nr ∧ nr.addr = host.myServerAdr) :
    SapSound host ⟨servers, s.sent ++ sent⟩ where
  unique := hunique
  agrees key' := by
    by_cases heq : key' = key
    · exact heq ▸ hkey
    · exact agrees_other (hs.agrees key') (hother key' heq) hsent (Ne.symm heq)
  own hname := by
    by_cases heq : key = host.ownKey
    · subst heq
      exact hown rfl hname
    · rw [hother host.ownKey (Ne.symm heq)]
      exact hs.own hname

/-- A server that is written in the table with its address, of which nwbind is told. -/
theorem SapSound.written {servers : List NwServer} {sent : List BindNetAddr} {nr : NwServer}
    (hs : SapSound host s) (hunique : KeyedSlots.Unique NwServer.key servers)
    (hlookup : ∀ key', KeyedSlots.lookup NwServer.key servers key' =
      if nr.key = some key' then some nr else KeyedSlots.lookup NwServer.key s.servers key')
    (hnr : nr.key = some key)
    (hsent : sent = [.insert key.2 key.1 nr.addr] ∨
      sent = [] ∧ ∃ old, KeyedSlots.lookup NwServer.key s.servers key = some old ∧ old.addr = nr.addr)
    (hown : key = host.ownKey → nr.addr = host.myServerAdr) :
    SapSound host ⟨servers, s.sent ++ sent⟩ := by
  have hfound : KeyedSlots.lookup NwServer.key servers key = some nr := by
    rw [hlookup, if_pos hnr]
  refine hs.changed key hunique (fun key' hne => ?_) ?_ ?_ fun heq _ => ⟨nr, hfound, hown heq⟩
  · rw [hlookup, if_neg]
    rw [hnr]
    exact fun heq => hne (Option.some.inj heq).symm
  · rcases hsent with rfl | ⟨rfl, -⟩
    · exact fun call hcall => List.mem_singleton.mp hcall ▸ rfl
    · exact fun call hcall => (nomatch hcall)
  · unfold AgreesWithBind
    rw [hfound]
    rcases hsent with rfl | ⟨rfl, old, hold, haddr⟩
    · dsimp only
      rw [lastSent_append, lastSent_singleton, if_pos (show BindNetAddr.key (.insert _ _ _) = key from rfl)]
      rfl
    · have hagrees := hs.agrees key
      unfold AgreesWithBind at hagrees
      rw [hold] at hagrees
      dsimp only at hagrees ⊢
      rw [List.append_nil, hagrees, haddr]

/-- An offer that fits leaves the table sound. -/
theorem SapSound.step (hs : SapSound host s) {offer : SapOffer} (hfits : OfferFits host s offer) :
    SapSound host (handleSaps host s offer) := by
  by_cases htaken : host.handleAllSapTyps = true ∨ offer.entry.serverType = 4
  swap
  · unfold handleSaps
    rw [if_neg htaken]
    exact hs
  rw [handleSaps_eq htaken]
  have hfits := hfits htaken
  have hcases := insertDeleteServer_cases host offer.netDevices s.servers
    offer.entry.serverName.bytes offer.entry.serverType
    (if offer.entry.hops = 16 then none else some (offer.entry.serverAdr, offer.fromAddr))
    offer.entry.hops
  dsimp only at hcases ⊢
  generalize insertDeleteServer host offer.netDevices s.servers _ _ _ _ = r at *
  obtain ⟨sent, servers⟩ := r
  rcases hcases with ⟨heq, -⟩ | ⟨hname, -, k, nr, hget, hkey, hme, heq⟩ |
    ⟨hname, addr, fromAddr, haddrs, nr', hkey', haddr, hwrite⟩
  · obtain ⟨rfl, rfl⟩ := Prod.mk.inj heq
    rw [List.append_nil]
    exact hs
  · obtain ⟨rfl, rfl⟩ := Prod.mk.inj heq
    have hfound : KeyedSlots.lookup NwServer.key s.servers offer.entry.key = some nr :=
      KeyedSlots.lookup_of_mem hs.unique (List.mem_of_getElem? hget) hkey
    have hnone : ∀ key, clearedServer.key = some key → nr.key = some key ∨
        KeyedSlots.lookup NwServer.key s.servers key = none := fun _ h => (nomatch h)
    have hlookup : ∀ key, KeyedSlots.lookup NwServer.key (s.servers.set k clearedServer) key =
        if nr.key = some key then none else KeyedSlots.lookup NwServer.key s.servers key :=
      fun key => KeyedSlots.lookup_set hs.unique hget hnone
    refine hs.changed offer.entry.key (KeyedSlots.unique_set hs.unique hget hnone)
      (fun key' hne => ?_) (fun call hcall => List.mem_singleton.mp hcall ▸ rfl) ?_ fun heq hname => ?_
    · rw [hlookup, if_neg]
      rw [hkey]
      exact fun heq => hne (Option.some.inj heq).symm
    · unfold AgreesWithBind
      rw [hlookup, if_pos (show nr.key = some offer.entry.key from hkey)]
      refine .inr ?_
      rw [lastSent_append, lastSent_singleton]
      exact congrArg (Option.or · _) (if_pos rfl)
    · -- the entry of the server itself is not cleared
      obtain ⟨own, hown, haddr⟩ := hs.own (heq ▸ hname)
      rw [← heq, hfound] at hown
      obtain rfl := Option.some.inj hown
      exact absurd (decide_eq_true (haddr ▸ ⟨rfl, rfl⟩)) hme
  · have hhops : offer.entry.hops ≠ 16 := by
      intro h16
      rw [if_pos h16] at haddrs
      contradiction
    rw [if_neg hhops] at haddrs
    obtain ⟨hfree, hown⟩ := hfits hname hhops
    have hadr : addr = offer.entry.serverAdr :=
      (congrArg Prod.fst (Option.some.inj haddrs)).symm
    have hownAddr : offer.entry.key = host.ownKey → nr'.addr = host.myServerAdr :=
      fun heq => haddr.trans (hadr.trans (hown heq))
    rcases hwrite with ⟨k, nr, hget, hkey, rfl, hsent⟩ | ⟨hnew, rfl, hwrite⟩
    · have hfound := KeyedSlots.lookup_of_mem hs.unique (List.mem_of_getElem? hget) hkey
      have hsame : ∀ key, nr'.key = some key → nr.key = some key ∨
          KeyedSlots.lookup NwServer.key s.servers key = none :=
        fun key h => .inl (hkey.trans (hkey'.symm.trans h))
      refine hs.written (KeyedSlots.unique_set hs.unique hget hsame) (fun key' => ?_) hkey' ?_ hownAddr
      · rw [KeyedSlots.lookup_set hs.unique hget hsame, hkey', hkey]
        split
        next => rfl
        next => rfl
      · exact hsent.imp (fun h => haddr ▸ h) fun h => ⟨h.1, nr, hfound, h.2.trans haddr.symm⟩
    · have hnone : ∀ key, nr'.key = some key →
          KeyedSlots.lookup NwServer.key s.servers key = none := by
        intro key h
        rw [← Option.some.inj (hkey'.symm.trans h)]
        exact hnew
      rcases hwrite with ⟨k, old, hget, hfirst, rfl⟩ | ⟨-, rfl⟩
      · have hold : old.key = none := by
          unfold NwServer.key
          rw [hfree hnew old hfirst]
          rfl
        refine hs.written (KeyedSlots.unique_set hs.unique hget fun key h => .inr (hnone key h))
          (fun key' => ?_) hkey' (.inl (haddr ▸ rfl)) hownAddr
        rw [KeyedSlots.lookup_set hs.unique hget fun key h => .inr (hnone key h), hold]
        rfl
      · exact hs.written (KeyedSlots.unique_append hs.unique hnone)
          (fun key' => KeyedSlots.lookup_concat hnone) hkey' (.inl (haddr ▸ rfl)) hownAddr

/-- An offer that does not fit leaves the table unsound. -/
theorem SapSound.fits (hs : SapSound host s) {offer : SapOffer}
    (hafter : SapSound host (handleSaps host s offer)) : OfferFits host s offer := by
  intro htaken hname hhops
  rw [handleSaps_eq htaken] at hafter
  have hcases := insertDeleteServer_cases host offer.netDevices s.servers
    offer.entry.serverName.bytes offer.entry.serverType
    (if offer.entry.hops = 16 then none else some (offer.entry.serverAdr, offer.fromAddr))
    offer.entry.hops
  dsimp only at hcases hafter
  generalize insertDeleteServer host offer.netDevices s.servers _ _ _ _ = r at *
  obtain ⟨sent, servers⟩ := r
  rw [if_neg hhops] at hcases
  rcases hcases with ⟨-, hempty | hnone⟩ | ⟨-, hnone, -⟩ |
    ⟨-, addr, fromAddr, haddrs, nr', hkey', haddr, hwrite⟩
  · exact absurd hempty hname
  · contradiction
  · contradiction
  have hmem : nr' ∈ servers := by
    rcases hwrite with ⟨k, nr, hget, -, rfl, -⟩ | ⟨-, -, ⟨k, old, hget, -, rfl⟩ | ⟨-, rfl⟩⟩
    · exact List.mem_set (List.getElem?_eq_some_iff.mp hget).1 _
    · exact List.mem_set (List.getElem?_eq_some_iff.mp hget).1 _
    · exact List.mem_append_right _ (List.mem_singleton.mpr rfl)
  have hfound := KeyedSlots.lookup_of_mem hafter.unique hmem hkey'
  refine ⟨fun hnew old hfirst => ?_, fun hown => ?_⟩
  · -- the one that was in the slot is not in the table, but nwbind has been told that it is
    by_contra hlive
    obtain ⟨n, hn⟩ := Option.ne_none_iff_exists'.mp hlive
    have holdKey : old.key = some (old.typ, n) := by
      unfold NwServer.key
      rw [hn]
      rfl
    have hold := KeyedSlots.lookup_of_mem hs.unique (List.mem_of_find?_eq_some hfirst) holdKey
    have hne : (old.typ, n) ≠ (offer.entry.serverType, serverName offer.entry.serverName.bytes) := by
      intro heq
      rw [heq] at hold
      exact absurd (hold.symm.trans hnew) (by nofun)
    rcases hwrite with ⟨k, nr, hget, hkey, -⟩ | ⟨-, rfl, ⟨k, old', hget, hfirst', rfl⟩ | ⟨hnone, -⟩⟩
    · exact KeyedSlots.lookup_eq_none.mp hnew nr (List.mem_of_getElem? hget) hkey
    · obtain rfl := Option.some.inj (hfirst.symm.trans hfirst')
      have hgone : KeyedSlots.lookup NwServer.key (s.servers.set k nr') (old.typ, n) = none := by
        rw [KeyedSlots.lookup_set hs.unique hget, hkey', if_neg fun h => hne (Option.some.inj h).symm,
          if_pos holdKey]
        intro key h
        rw [← Option.some.inj (hkey'.symm.trans h)]
        exact .inr hnew
      have hagrees := hs.agrees (old.typ, n)
      have hagrees' := hafter.agrees (old.typ, n)
      unfold AgreesWithBind at hagrees hagrees'
      rw [hold] at hagrees
      rw [hgone, lastSent_append, lastSent_singleton, if_neg fun h => hne h.symm, Option.none_or]
        at hagrees'
      dsimp only at hagrees hagrees'
      rw [hagrees] at hagrees'
      rcases hagrees' with h | h
      · contradiction
      · cases Option.some.inj h
    · rw [hfirst] at hnone
      contradiction
  · have hname' : host.ownKey.2.bytes ≠ [] := hown ▸ hname
    obtain ⟨own, hownFound, hownAddr⟩ := hafter.own hname'
    have hkeyOwn : host.ownKey = (offer.entry.serverType, serverName offer.entry.serverName.bytes) :=
      hown.symm
    rw [hkeyOwn, hfound] at hownFound
    obtain rfl := Option.some.inj hownFound
    exact (congrArg Prod.fst (Option.some.inj haddrs)).trans (haddr.symm.trans hownAddr)

/-- The server enters itself. -/
theorem SapSound.start (host : SapHost) (devices : List NwNetDevice) :
    SapSound host (sapStart host devices) := by
  let nobody := { host with myNwname := [] }
  have hempty : SapSound nobody ⟨[], []⟩ :=
    ⟨List.Pairwise.nil, fun key => .inl rfl, fun h => absurd rfl h⟩
  have hcases := insertDeleteServer_cases host devices [] host.myNwname 4
    (some (host.myServerAdr, { host.myServerAdr with sock := sockSap })) 0
  unfold sapStart
  dsimp only at hcases ⊢
  generalize insertDeleteServer host devices [] host.myNwname 4 _ 0 = r at *
  obtain ⟨sent, servers⟩ := r
  rcases hcases with ⟨heq, hname | hnone⟩ | ⟨-, hnone, -⟩ |
    ⟨hname, addr, fromAddr, haddrs, nr', hkey', haddr, hwrite⟩
  · obtain ⟨rfl, rfl⟩ := Prod.mk.inj heq
    exact ⟨List.Pairwise.nil, fun key => .inl rfl, fun h => absurd hname h⟩
  · contradiction
  · contradiction
  rcases hwrite with ⟨k, nr, hget, -⟩ | ⟨-, rfl, ⟨k, old, hget, -⟩ | ⟨-, rfl⟩⟩
  · contradiction
  · contradiction
  have hlookup : ∀ key', KeyedSlots.lookup NwServer.key ([] ++ [nr']) key' =
      if nr'.key = some key' then some nr' else KeyedSlots.lookup NwServer.key [] key' :=
    fun key' => KeyedSlots.lookup_concat fun _ _ => rfl
  have hsent : [BindNetAddr.insert host.ownKey.2 host.ownKey.1 addr] =
      [BindNetAddr.insert host.ownKey.2 host.ownKey.1 nr'.addr] := by rw [haddr]
  have hwritten := hempty.written (List.pairwise_singleton _ _) hlookup hkey' (.inl hsent)
    fun heq => absurd (congrArg (CText.bytes ∘ Prod.snd) heq) hname
  refine ⟨hwritten.unique, hwritten.agrees, fun _ => ⟨nr', ?_, ?_⟩⟩
  · exact (hlookup host.ownKey).trans (if_pos hkey')
  · exact haddr.trans (congrArg Prod.fst (Option.some.inj haddrs)).symm

end

/-- The responses are handled as the servers they tell of, one after the other. -/
theorem foldl_handleSap (host : SapHost) (s : SapState) (responses : List SapResponse) :
    responses.foldl (handleSap host) s =
      (sapMachine host).exec s (responses.flatMap SapResponse.offers) := by
  induction responses generalizing s with
  | nil => rfl
  | cons response responses ih =>
      rw [List.foldl_cons, ih, List.flatMap_cons, Machine.exec_append]
      rfl

/-- In runs of responses the table is sound after each server told of, just when each
of them fits. -/
theorem servers_sound (host : SapHost) (devices : List NwNetDevice) (responses : List SapResponse) :
    (∀ before, before <+: responses.flatMap SapResponse.offers →
      SapSound host ((sapMachine host).exec (sapStart host devices) before)) ↔
    (sapMachine host).Along (OfferFits host) (sapStart host devices)
      (responses.flatMap SapResponse.offers) :=
  (sapMachine host).forall_prefix_iff_along (fun _ _ hs => ⟨hs.fits, hs.step⟩)
    (SapSound.start host devices) _

/-- A server S on the net 1 and a station on the net 2. -/
def sapHost : SapHost :=
  ⟨[0x53], ⟨.ofList 4 [0, 0, 0, 1], .ofList 6 [0, 0, 0, 0, 0, 1], .ofList 2 [4, 0x51]⟩, true⟩

def otherStation : IpxAddr :=
  ⟨.ofList 4 [0, 0, 0, 2], .ofList 6 [0, 0, 0, 0, 0, 9], .ofList 2 [4, 0x52]⟩

/-- The station tells of a server with a name of one letter at its own address. -/
def tellsOf (serverType : UInt16) (letter : UInt8) : SapResponse :=
  ⟨[], otherStation, [⟨serverType, .ofList 48 [letter], otherStation, 1⟩]⟩

/-- The address of the server itself is replaced by that of a station that uses its
name; and a server of type 0 is dropped for another one, without a call to nwbind. -/
theorem not_servers_sound :
    ¬SapSound sapHost ((sapMachine sapHost).exec (sapStart sapHost []) (tellsOf 4 0x73).offers) ∧
      ¬SapSound sapHost ((sapMachine sapHost).exec (sapStart sapHost [])
        ([tellsOf 0 0x41, tellsOf 7 0x42].flatMap SapResponse.offers)) := by
  constructor
  · intro hsound
    obtain ⟨nr, hlookup, haddr⟩ := hsound.own (by decide)
    have hreplaced : (KeyedSlots.lookup NwServer.key ((sapMachine sapHost).exec (sapStart sapHost [])
        (tellsOf 4 0x73).offers).servers sapHost.ownKey).map NwServer.addr = some otherStation := by
      decide
    rw [hlookup, Option.map_some, haddr] at hreplaced
    exact absurd hreplaced (by decide)
  · intro hsound
    have hagrees := hsound.agrees (0, serverName [0x41])
    have hgone : KeyedSlots.lookup NwServer.key ((sapMachine sapHost).exec (sapStart sapHost [])
        ([tellsOf 0 0x41, tellsOf 7 0x42].flatMap SapResponse.offers)).servers
        (0, serverName [0x41]) = none := by decide
    have hlast : lastSent ((sapMachine sapHost).exec (sapStart sapHost [])
        ([tellsOf 0 0x41, tellsOf 7 0x42].flatMap SapResponse.offers)).sent
        (0, serverName [0x41]) = some (.insert (serverName [0x41]) 0 otherStation) := by decide
    unfold AgreesWithBind at hagrees
    rw [hgone, hlast] at hagrees
    rcases hagrees with h | h
    · contradiction
    · cases Option.some.inj h

end MarsNwe
