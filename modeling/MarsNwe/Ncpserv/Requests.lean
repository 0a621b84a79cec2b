import MarsNwe.Ncpserv.ConnTable

/-! # The packets that ncpserv gets

Clients create, use and destroy connections, nwbind and nwserv send packets of
their own. What the system calls answer comes with the packet.
-/

namespace MarsNwe

/-- The `owndata` of a packet: its size and the first two integers of its data. -/
structure OwnData where
  size : Int
  what : Int
  conn : Int

structure IpxPacket where
  fromAddr : IpxAddr
  request : NcpHeader
  own : OwnData

/-- What ncpserv reads or is answered while it handles a packet. -/
structure PacketAnswers where
  akttime : Int64
  /-- the shared memory that tells whether nwconn is busy -/
  nwconnState : Nat → Int
  /-- `find_station_match` -/
  stationMatch : Bool
  /-- entry 402 of the configuration, if it is read anew -/
  stationRestrictions : Option Int
  spawned : Spawned

/-- The memory of ncpserv. -/
structure Ncpserv (limit : ℕ+) where
  table : ConnTable limit
  stationRestrictions : Int
  serverGoesDown : Nat

/-- The connection that a request names. -/
def NcpHeader.connectionNr (r : NcpHeader) : Nat :=
  r.connection.toNat ||| r.highConnection.toNat <<< 8

/-- `IPXCMPNODE` and `IPXCMPNET` of two addresses. -/
def sameHost (a b : IpxAddr) : Bool := a.node = b.node ∧ a.net = b.net

namespace Ncpserv

variable {limit : ℕ+} (s : Ncpserv limit) (p : IpxPacket) (a : PacketAnswers)

/-- `handle_ctrl`, for packets from nwserv. -/
def handleCtrl : Traced NcpEffect (Ncpserv limit) :=
  if 4 ≤ p.own.size then do
    Traced.emit (.sendOwnReply p.request.sequence)
    if p.own.what = 0x5555 then
      -- from the wdog process
      if 8 ≤ p.own.size then do
        let table ← s.table.clearConnection p.own.conn
        pure { s with table := table }
      else pure s
    else if p.own.what = 0xeeee then
      pure { s with stationRestrictions := a.stationRestrictions.getD s.stationRestrictions }
    else if p.own.what = 0xffff ∧ 8 ≤ p.own.size ∧ p.own.conn = p.own.what then
      pure { s with serverGoesDown := s.serverGoesDown + 1 }
    else pure s
  else pure s

/-- A request on a connection that is not the client's, or not in sequence. -/
def refuseRequest : Traced NcpEffect (Ncpserv limit) := do
  let typ := p.request.typ
  let cstat := if typ = 0x5555 ∨ typ = 0x2222 ∧ p.request.function = 0x19 then 0 else 1
  Traced.emit (.ncpResponse 0x3333 p.request.sequence p.request.connectionNr
    (if typ = 0x5555 then 0 else p.request.task) 0 cstat)
  pure s

/-- A client is heard again after more than 50 seconds. -/
def resetWdog (c : NcpConnection) : Traced NcpEffect Unit :=
  if (a.akttime - c.lastAccess).toInt32 > 50 then
    Traced.emit (.nwservResetWdog p.request.connectionNr)
  else pure ()

/-- Type 0x2222 from the client of the entry. -/
def serveRequest (c : NcpConnection) : Traced NcpEffect (Ncpserv limit) := do
  let connection := p.request.connectionNr
  let c' := { c with lastAccess := a.akttime }
  resetWdog p a c
  if p.request.sequence = c.sequence ∧ a.nwconnState connection > 0 then do
    -- the request is being serviced
    Traced.emit (.ncpResponse 0x9999 p.request.sequence connection p.request.task 0 0)
    pure { s with table := s.table.set (connection - 1) c' }
  else do
    Traced.emit (.write c.fd p.request)
    pure { s with
      table := s.table.set (connection - 1) { c' with sequence := p.request.sequence } }

/-- Type 0x5555 from the client of the entry. -/
def closeRequest (c : NcpConnection) : Traced NcpEffect (Ncpserv limit) :=
  if c.sequence + 1 = p.request.sequence then do
    let connection := p.request.connectionNr
    let table ← s.table.clearConnection connection
    Traced.emit (.ncpResponse 0x3333 p.request.sequence connection 0 0 0)
    pure { s with table := table }
  else s.refuseRequest p

/-- Types 0x2222 and 0x5555. -/
def handleRequest : Traced NcpEffect (Ncpserv limit) :=
  let connection := p.request.connectionNr
  match s.table.connections[connection - 1]? with
  | none => s.refuseRequest p
  | some c =>
      if 0 < connection ∧ connection ≤ s.table.countConnections ∧ p.fromAddr = c.clientAdr ∧
          c.fd > -1 then
        if p.request.typ = 0x2222 then s.serveRequest p a c else s.closeRequest p c
      else s.refuseRequest p

/-- Whether a station may get a connection. -/
def doSent : Bool :=
  s.serverGoesDown = 0 ∧
    (s.stationRestrictions = 0 ∨ (s.stationRestrictions = 1 ↔ a.stationMatch = false))

/-- The connection for a client that asks for one. -/
def giveConnection : Traced NcpEffect (Nat × ConnTable limit) :=
  if s.doSent a then s.table.findGetConnNr p.fromAddr a.spawned else pure (0, s.table)

/-- Type 0x1111: give a connection. -/
def handleCreate : Traced NcpEffect (Ncpserv limit) := do
  let (connection, table) ← s.giveConnection p a
  match table.connections[connection - 1]?, connection with
  | none, _ | _, 0 => do
      Traced.emit (.ncpResponse 0x3333 0 0 0 0xf9 0)
      pure { s with table := table }
  | some c, connection => do
      Traced.emit (.write c.fd p.request)
      pure { s with table := table.set (connection - 1) { c with sequence := 0 } }

/-- Type 0x3333, a call from nwbind. -/
def handleNwbind : Traced NcpEffect (Ncpserv limit) :=
  let connection := p.request.connectionNr
  match s.table.connections[connection - 1]? with
  | some c =>
      if 0 < connection ∧ connection ≤ s.table.countConnections ∧ c.fd > -1 then do
        Traced.emit (.write c.fd p.request)
        pure s
      else pure s
  | none => pure s

/-- `handle_ncp_request`. -/
def handleNcpRequest (myAddr : IpxAddr) : Traced NcpEffect (Ncpserv limit) :=
  if p.request.typ = 0x2222 ∨ p.request.typ = 0x5555 then s.handleRequest p a
  else if p.request.typ = 0x3333 ∧ sameHost p.fromAddr myAddr then s.handleNwbind p
  else if p.request.typ = 0x1111 then s.handleCreate p a
  else if p.request.typ = 0xeeee ∧ sameHost p.fromAddr myAddr then s.handleCtrl p a
  else do
    Traced.emit (.ncpResponse 0x3333 p.request.sequence p.request.connectionNr 1 0xfb 0)
    pure s

end Ncpserv

end MarsNwe
