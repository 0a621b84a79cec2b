import MarsNwe.Net

/-! # Routes and RIP packets

The server keeps a table of routes that it learns from RIP responses, and tells
other routers about them in RIP packets of its own, which it collects in one
buffer.
-/

namespace MarsNwe

/-! ## Devices, routes, packets -/

/-- What the routes need of `NW_NET_DEVICE`. -/
structure NwNetDevice where
  devname : List UInt8
  frame : Int
  ticks : Int
  net : UInt32
  isUp : Bool
deriving DecidableEq

/-- `internal_net` and `net_devices`. -/
structure Nets where
  internalNet : UInt32
  netDevices : List NwNetDevice

/-- `NW_ROUTES`; the net 0 marks a free slot. -/
structure NwRoute where
  net : UInt32
  hops : UInt16
  ticks : UInt16
  rnet : UInt32
  rnode : ByteBuf 6
deriving DecidableEq

/-- The eight bytes of a packet that tell of one net. -/
structure RipEntry where
  net : UInt32
  hops : UInt16
  ticks : UInt16
deriving DecidableEq

/-- A packet that is sent to an address. -/
structure RipPacket where
  toAddr : IpxAddr
  operation : UInt16
  entries : List RipEntry
deriving DecidableEq

/-- Calls that change the routes and the interfaces of the host. -/
inductive RouteCall where
  | ipxRouteAdd (destNet routeNet : UInt32) (routeNode : ByteBuf 6)
  | ipxRouteDel (net : UInt32)
  | exitDev (devname : List UInt8) (frame : Int)
  | initDev (devname : List UInt8) (frame : Int) (net : UInt32)
deriving DecidableEq

/-! ## The table of routes -/

/-- The ticks of the device of a net, as the loop over `net_devices` leaves them. -/
def ndTicks (devices : List NwNetDevice) (rnet : UInt32) : Int :=
  devices.foldl (fun ndticks nd => if nd.isUp ∧ nd.net = rnet then nd.ticks else ndticks) 99

/-- The device of a net, as the loop over `net_devices` leaves it. -/
def ndDev (devices : List NwNetDevice) (destnet : UInt32) : Option NwNetDevice :=
  devices.foldl (fun dev nd => if nd.isUp ∧ nd.net = destnet then some nd else dev) none

/-- The end of `insert_delete_net`: the route in a slot is written over unless it
is the better one. The sum of the ticks has 16 bits. -/
def offerRoute (routes : List NwRoute) (k : Nat) (nr : NwRoute) (rnet : UInt32)
    (rnode : ByteBuf 6) (hops : UInt16) (ticks : UInt16) : List RouteCall × List NwRoute :=
  if ticks ≤ nr.ticks then
    if ticks = nr.ticks ∧ nr.hops < hops then ([], routes)
    else ([.ipxRouteAdd nr.net rnet rnode], routes.set k ⟨nr.net, hops, ticks, rnet, rnode⟩)
  else ([], routes)

/-- The calls when a route is deleted; the net may also be that of a device. -/
def deleteCalls (net : UInt32) (dev : Option NwNetDevice) : List RouteCall :=
  .ipxRouteDel net :: match dev with
    | some nd => [.exitDev nd.devname nd.frame, .initDev nd.devname nd.frame nd.net]
    | none => []

/-- `insert_delete_net`. The second test of the device there has no effect, as a
device is remembered only for a deletion. -/
def insertDeleteNet (nets : Nets) (routes : List NwRoute) (destnet rnet : UInt32)
    (rnode : ByteBuf 6) (hops ticks : UInt16) (doDelete : Bool) :
    List RouteCall × List NwRoute :=
  if destnet = 0 ∨ destnet = nets.internalNet then ([], routes)
  else
    let dev := ndDev nets.netDevices destnet
    let ndticks := ndTicks nets.netDevices rnet
    if !doDelete && dev.isSome then ([], routes)
    else
      let sum := UInt16.ofInt (ticks.toNat + ndticks)
      match routes.findIdx? fun nr => nr.net = destnet with
      | none =>
          if doDelete then ([], routes)
          else
            let nr : NwRoute := ⟨destnet, 0xffff, 0xffff, 0, .zero 6⟩
            match routes.findIdx? fun nr => nr.net = 0 with
            | some freeslot => offerRoute (routes.set freeslot nr) freeslot nr rnet rnode hops sum
            | none => offerRoute (routes ++ [nr]) routes.length nr rnet rnode hops sum
      | some k =>
          match routes[k]? with
          | none => ([], routes)
          | some nr =>
              if doDelete then
                if nr.rnet = rnet ∧ nr.rnode = rnode then
                  (deleteCalls nr.net dev, routes.set k { nr with net := 0 })
                else ([], routes)
              else offerRoute routes k nr rnet rnode hops sum

/-! ## The buffer -/

/-- `rip_buff` with its operation and its entries, of which `rentries` are in use.
A buffer without entries is one that has not been allocated. -/
structure RipBuff where
  operation : UInt16
  entries : List RipEntry
  rentries : Nat
  rnet : UInt32
  rmode : Int
  rentries_le : rentries ≤ entries.length

/-- Before the first packet. -/
theorem RipBuff.rentries_le_empty : 0 ≤ ([] : List RipEntry).length := Nat.zero_le _

def RipBuff.empty : RipBuff := ⟨0, [], 0, 0, 0, RipBuff.rentries_le_empty⟩

/-- Entries as `xcmalloc` clears them. -/
def clearedEntries (n : Nat) : List RipEntry := List.replicate n ⟨0, 0, 0⟩

/-- `init_rip_buff`. -/
def initRipBuff (b : RipBuff) (net : UInt32) (mode : Int) : RipBuff where
  operation := if 9 < mode then 1 else 2
  entries := if b.entries.isEmpty then clearedEntries 10 else b.entries
  rentries := 0
  rnet := net
  rmode := mode
  rentries_le := Nat.zero_le _

/-- The entries with room for one more. -/
def growRipBuff (b : RipBuff) : List RipEntry :=
  if b.entries.length ≤ b.rentries then b.entries ++ clearedEntries 5 else b.entries

theorem lt_length_growRipBuff (b : RipBuff) : b.rentries < (growRipBuff b).length := by
  have hle := b.rentries_le
  unfold growRipBuff clearedEntries
  split
  · rw [List.length_append, List.length_replicate]
    omega
  · omega

/-- `ins_rip_buff`. -/
def insRipBuff (nets : Nets) (b : RipBuff) (net : UInt32) (hops ticks : UInt16) : RipBuff :=
  if net = 0 then b
  else if net ≠ b.rnet ∨ b.rentries = 0 ∧ net = nets.internalNet then
    { b with
      entries := (growRipBuff b).set b.rentries ⟨net, hops, ticks⟩
      rentries := b.rentries + 1
      rentries_le := by
        rw [List.length_set]
        exact lt_length_growRipBuff b }
  else b

/-- `build_rip_buff`. -/
def buildRipBuff (nets : Nets) (routes : List NwRoute) (b : RipBuff) (destnet : UInt32) : RipBuff :=
  let isWild := destnet == 0xffffffff
  if destnet = 0 then b
  else
    let b := if isWild then { b with rentries := 0, rentries_le := Nat.zero_le _ } else b
    let b :=
      if b.rmode < 10 then
        let b :=
          if isWild || nets.internalNet == destnet then
            insRipBuff nets b nets.internalNet (if b.rmode = 1 then 16 else 1)
              (if b.rnet = nets.internalNet then 1 else 2)
          else b
        nets.netDevices.foldl (fun b nd =>
          if nd.isUp && (isWild || nd.net == destnet) then
            insRipBuff nets b nd.net (if b.rmode = 1 then 16 else 1) (UInt16.ofInt (nd.ticks + 1))
          else b) b
      else b
    routes.foldl (fun b nr =>
      if nr.rnet != b.rnet && (isWild || nr.net == destnet) then
        insRipBuff nets b nr.net (if b.rmode = 1 then 16 else nr.hops + 1) (nr.ticks + 1)
      else b) b

/-- How `send_rip_buff` leaves its loop. -/
structure SentRip where
  /-- The entries of the packets sent. -/
  packets : List (List RipEntry)
  entries : List RipEntry
  rentries : Nat

/-- The loop of `send_rip_buff`. After a packet at most 50 of the entries that are
left move down. -/
def sendRipLoop (entries : List RipEntry) (rentries : Nat) : SentRip :=
  if 0 < rentries then
    let n := min rentries 50
    let left := rentries - n
    let moved :=
      if 0 < left then (entries.drop 50).take (min 50 left) ++ entries.drop (min 50 left)
      else entries
    let rest := sendRipLoop moved left
    { rest with packets := entries.take n :: rest.packets }
  else ⟨[], entries, rentries⟩
termination_by rentries

/-- `SOCK_RIP`. -/
def sockRip : ByteBuf 2 := ⟨[0x04, 0x53], rfl⟩

/-- `send_rip_buff`: without an address it is a broadcast. -/
def sendRipBuff (b : RipBuff) (fromAddr : Option IpxAddr) : List RipPacket × RipBuff :=
  let toAddr := fromAddr.getD ⟨u32ToBE32 b.rnet, ⟨List.replicate 6 0xff, rfl⟩, sockRip⟩
  let sent := sendRipLoop b.entries b.rentries
  (sent.packets.map fun entries => ⟨toAddr, b.operation, entries⟩,
    { b with entries := sent.entries, rentries := 0, rentries_le := Nat.zero_le _ })

/-! ## Received packets -/

/-- The state that RIP packets change. -/
structure RipState where
  nwRoutes : List NwRoute
  ripBuff : RipBuff

/-- The entries of a response, one after the other. -/
def handleResponse (nets : Nets) (fromAddr : IpxAddr) (routes : List NwRoute) :
    List RipEntry → List RouteCall × List NwRoute
  | [] => ([], routes)
  | e :: entries =>
      let (calls, routes) := insertDeleteNet nets routes e.net (getBE32 fromAddr.net) fromAddr.node
        e.hops e.ticks (15 < e.hops)
      let (calls', routes) := handleResponse nets fromAddr routes entries
      (calls ++ calls', routes)

/-- The entries of a request; one for all nets ends it. -/
def handleRequest (nets : Nets) (routes : List NwRoute) (b : RipBuff) : List RipEntry → RipBuff
  | [] => b
  | e :: entries =>
      let b := buildRipBuff nets routes b e.net
      if e.net = 0xffffffff then b else handleRequest nets routes b entries

/-- `handle_rip`: what it calls, what it sends and the state after it. -/
def handleRip (nets : Nets) (s : RipState) (operation : UInt16) (entries : List RipEntry)
    (fromAddr : IpxAddr) : List RouteCall × List RipPacket × RipState :=
  if operation = 2 then
    let (calls, routes) := handleResponse nets fromAddr s.nwRoutes entries
    (calls, [], { s with nwRoutes := routes })
  else if operation = 1 then
    let b := handleRequest nets s.nwRoutes (initRipBuff s.ripBuff (getBE32 fromAddr.net) 0) entries
    let (packets, b) := sendRipBuff b (some fromAddr)
    ([], packets, { s with ripBuff := b })
  else ([], [], s)

end MarsNwe
