import Mathlib.Logic.Function.Basic
import MarsNwe.Lib.Machine
import MarsNwe.Route.Rip

/-! # The watchdog

The server keeps a table of the connections that are watched. It sends a packet to a
connection of which nothing has been heard for a minute, and clears one that does not
answer.
-/

namespace MarsNwe

/-- `MAX_WDOG_TRIES` -/
def maxWdogTries : Nat := 3

/-- `WDOG_TRIE_AFTER_SEC` -/
def wdogTrieAfterSec : Nat := 60

/-- `CONNECTION` of `nwserv.c`; a slot whose time is 0 is not in use. -/
structure WdogConn where
  addr : IpxAddr
  lastTime : Nat
  counter : Nat

/-- A slot that is cleared. -/
def WdogConn.zero : WdogConn := ⟨⟨.zero 4, .zero 6, .zero 2⟩, 0, 0⟩

/-- `connections` with `max_connections` slots, of which those below `hi_conn` are looked at. -/
structure WdogTable where
  maxConnections : Nat
  connections : Nat → WdogConn
  hiConn : Nat
  hiConn_le : hiConn ≤ maxConnections

/-- A write to a slot. -/
def WdogTable.put (t : WdogTable) (k : Nat) (c : WdogConn) : WdogTable :=
  { t with connections := Function.update t.connections k c }

namespace WdogTable

@[simp] theorem connections_put_self (t : WdogTable) (k : Nat) (c : WdogConn) :
    (t.put k c).connections k = c := by simp [put]

theorem connections_put_of_ne (t : WdogTable) {k j : Nat} (c : WdogConn) (hj : j ≠ k) :
    (t.put k c).connections j = t.connections j := by simp [put, hj]

@[simp] theorem hiConn_put (t : WdogTable) (k : Nat) (c : WdogConn) :
    (t.put k c).hiConn = t.hiConn := rfl

@[simp] theorem put_put (t : WdogTable) (k : Nat) (c c' : WdogConn) :
    (t.put k c).put k c' = t.put k c' := by simp [put]

theorem put_self (t : WdogTable) (k : Nat) : t.put k (t.connections k) = t := by simp [put]

end WdogTable

/-! ## Packets -/

/-- What is sent for a connection: a packet, whose two bytes are the number and `?`, or
the request to clear the connection, to `ncpserv`. -/
inductive WdogOut where
  | packet (conn : Nat) (toAddr : IpxAddr) (data : List UInt8)
  | clear (conn : Nat)
deriving DecidableEq

/-- The socket after that of a client. -/
def wdogSock (sock : ByteBuf 2) : ByteBuf 2 :=
  let n := (sock.bytes.getD 0 0).toNat * 256 + (sock.bytes.getD 1 0).toNat + 1
  ⟨[UInt8.ofNat (n / 256), UInt8.ofNat n], rfl⟩

/-- The address that the watchdog packets of a client are sent to. -/
def wdogAddr (addr : IpxAddr) : IpxAddr := { addr with sock := wdogSock addr.sock }

/-- What decides whether packets are sent to a net. -/
structure WdogNets where
  netDevices : List NwNetDevice
  routes : List NwRoute
  wdogsTillTics : Int

/-- `find_netdevice`. -/
def findNetdevice (nets : WdogNets) (network : UInt32) : Option NwNetDevice :=
  let device (net : UInt32) := nets.netDevices.find? fun nd => nd.isUp ∧ nd.net = net
  match device network with
  | some nd => some nd
  | none =>
      match nets.routes.find? fun nr => nr.net = network with
      | some nr => device nr.rnet
      | none => none

/-- `dont_send_wdog`. -/
def dontSendWdog (nets : WdogNets) (addr : IpxAddr) : Bool :=
  if nets.wdogsTillTics = 0 then false
  else if nets.wdogsTillTics < 0 then true
  else
    match findNetdevice nets (getBE32 addr.net) with
    | some nd => ¬nd.ticks < nets.wdogsTillTics
    | none => false

/-! ## The table -/

/-- `insert_wdog_conn`: the slots up to the new one are cleared first. -/
def insertWdogConn (t : WdogTable) (conn : Int) (adr : IpxAddr) (now : Nat) : WdogTable :=
  if h : 0 < conn ∧ conn ≤ t.maxConnections then
    { t with
      connections := Function.update
        (fun k => if t.hiConn ≤ k ∧ k < conn then .zero else t.connections k)
        (conn - 1).toNat ⟨adr, now, 0⟩
      hiConn := max t.hiConn conn.toNat
      hiConn_le := by
        have := t.hiConn_le
        omega }
  else t

/-- The slots at the end that are not in use are given up. -/
def dropUnused (connections : Nat → WdogConn) : Nat → Nat
  | 0 => 0
  | hi + 1 => if (connections hi).lastTime = 0 then dropUnused connections hi else hi + 1

theorem dropUnused_le (connections : Nat → WdogConn) (hi : Nat) :
    dropUnused connections hi ≤ hi := by
  induction hi with
  | zero => exact Nat.le_refl 0
  | succ hi ih =>
      unfold dropUnused
      split
      next => exact Nat.le_succ_of_le ih
      next => exact Nat.le_refl _

/-- A slot is cleared. -/
def WdogTable.remove (t : WdogTable) (k : Nat) : WdogTable :=
  let t := t.put k .zero
  if k + 1 = t.hiConn then
    { t with
      hiConn := dropUnused t.connections t.hiConn
      hiConn_le := (dropUnused_le _ _).trans t.hiConn_le }
  else t

/-- `modify_wdog_conn`: the mode 1 activates, 99 removes, others below it reset. -/
def modifyWdogConn (t : WdogTable) (conn mode : Int) (now : Nat) : WdogTable :=
  if 0 < conn ∧ conn - 1 < t.hiConn then
    let k := (conn - 1).toNat
    let c := t.connections k
    if mode < 99 then
      if mode = 1 then
        t.put k { c with
          counter := max (if c.counter = 0 then 1 else c.counter) (maxWdogTries - 1)
          lastTime := 1 }
      else t.put k { c with counter := 0, lastTime := now }
    else if mode = 99 then t.remove k
    else t
  else t

/-- The body of the loop of `send_wdogs`, for a slot. -/
def sendWdog (nets : WdogNets) (now : Nat) (t : WdogTable) (k : Nat) : List WdogOut × WdogTable :=
  let c := t.connections k
  if c.lastTime ≠ 0 then
    let tDiff := now - c.lastTime
    if (c.counter ≠ 0 ∧ tDiff > 50) ∨ tDiff > wdogTrieAfterSec then
      let (out, t) :=
        if c.counter > maxWdogTries then ([.clear (k + 1)], t)
        else
          let t := t.put k { c with lastTime := now }
          let adr := wdogAddr c.addr
          if dontSendWdog nets adr then ([], modifyWdogConn t (k + 1) 0 now)
          else ([.packet (k + 1) adr [UInt8.ofNat (k + 1), 0x3f]], t)
      (out, t.put k { t.connections k with counter := (t.connections k).counter + 1 })
    else ([], t)
  else ([], t)

/-- `send_wdogs`, over the first `k` slots, the last one first. -/
def sendWdogs (nets : WdogNets) (now : Nat) : (k : Nat) → WdogTable → List WdogOut × WdogTable
  | 0, t => ([], t)
  | k + 1, t =>
      let (out, t) := sendWdog nets now t k
      let (rest, t) := sendWdogs nets now k t
      (out ++ rest, t)

/-! ## Events -/

/-- What the server is told of connections, and its own calls of `send_wdogs`. -/
inductive WdogEvent where
  /-- 0x2222 -/
  | insertConn (conn : Int) (adr : IpxAddr)
  /-- 0x4444 -/
  | wdogConn (conn what : Int)
  /-- 0x5555 -/
  | closeConn (conn : Int)
  /-- A packet on the watchdog socket. -/
  | wdogPacket (source : IpxAddr) (data : List UInt8)
  | sendWdogs (nets : WdogNets)

/-- The answer to a watchdog packet, in `handle_event`. -/
def wdogAnswer (t : WdogTable) (source : IpxAddr) (connid : UInt8) (now : Nat) : WdogTable :=
  if t.maxConnections < 256 then modifyWdogConn t connid.toNat 0 now
  else
    match (List.range t.hiConn).find? fun k => (t.connections k).addr.node = source.node with
    | some k => modifyWdogConn t (k + 1) 0 now
    | none => t

/-- What the server does with an event. -/
def handleWdogEvent (t : WdogTable) (now : Nat) : WdogEvent → List WdogOut × WdogTable
  | .insertConn conn adr => ([], insertWdogConn t conn adr now)
  | .wdogConn conn what =>
      if what = 1 then
        -- numbers below 1 change nothing
        ([], (List.range t.hiConn).foldl
          (fun t (k : Nat) => if conn ≤ k then modifyWdogConn t (k + 1) 1 now else t) t)
      else if what = 0 then ([], modifyWdogConn t conn 0 now)
      else ([], t)
  | .closeConn conn => ([], modifyWdogConn t conn 99 now)
  | .wdogPacket source data =>
      match data with
      | [connid, status] => ([], if status = 0x59 then wdogAnswer t source connid now else t)
      | _ => ([], t)
  | .sendWdogs nets => sendWdogs nets now t.hiConn t

end MarsNwe
