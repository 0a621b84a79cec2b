import Mathlib.Data.PNat.Notation
import MarsNwe.Lib.Traced
import MarsNwe.Net

/-! # The connections of ncpserv

An entry stands for a client and for the nwconn process that serves it. The table
is set up when the first connection is given; nothing reads it before. What
ncpserv does with processes, pipes and nwserv is left in the trace.
-/

namespace MarsNwe

/-- `CONNECTION`. -/
structure NcpConnection where
  fd : Int
  pid : Int
  clientAdr : IpxAddr
  sequence : UInt8
  lastAccess : Int64

inductive Signal where
  | sigterm
  | sigkill

/-- `NCPREQUEST`. -/
structure NcpHeader where
  typ : UInt16
  sequence : UInt8
  connection : UInt8
  task : UInt8
  highConnection : UInt8
  function : UInt8

/-- What `pipe` and `fork` return for a new connection. -/
structure Spawned where
  pipe : Option (Int × Int)
  fork : Option Int

/-- What ncpserv does outside of its table. -/
inductive NcpEffect where
  | nwservInsertConn (connection : Nat) (addr : IpxAddr) (pid : Int)
  | nwservActivateWdogs
  | nwservResetWdog (connection : Nat)
  | nwservCloseConn (connection : Int)
  | pipe (fds : Int × Int)
  | close (fd : Int)
  | fork (pid : Int)
  | kill (pid : Int) (sig : Signal)
  | waitpid (pid : Int)
  /-- the request goes to nwconn -/
  | write (fd : Int) (request : NcpHeader)
  /-- `ncp_response` without data -/
  | ncpResponse (typ : UInt16) (sequence : UInt8) (connection : Nat) (task completition
      connectStatus : UInt8)
  | sendOwnReply (sequence : UInt8)

/-- `connections` and `count_connections`; `limit` is `max_connections`, which is at
least 1. The table has no entries before it is set up. -/
@[ext]
structure ConnTable (limit : ℕ+) where
  connections : List NcpConnection
  countConnections : Nat
  setUp : connections = [] ∨ connections.length = limit
  count_le : countConnections ≤ connections.length

/-- The entry is not in use. -/
def NcpConnection.Unused (c : NcpConnection) : Prop := c.fd < 0 ∧ c.pid < 0

instance (c : NcpConnection) : Decidable c.Unused := inferInstanceAs (Decidable (_ ∧ _))

namespace ConnTable

variable {limit : ℕ+}

def empty : ConnTable limit := ⟨[], 0, .inl rfl, Nat.le_refl 0⟩

/-- Write to an entry. -/
def set (t : ConnTable limit) (i : Nat) (c : NcpConnection) : ConnTable limit where
  connections := t.connections.set i c
  countConnections := t.countConnections
  setUp := t.setUp.imp (fun h => by rw [h, List.set_nil]) fun h => by rw [List.length_set, h]
  count_le := by
    rw [List.length_set]
    exact t.count_le

theorem set_set (t : ConnTable limit) (i : Nat) (c d : NcpConnection) :
    (t.set i c).set i d = t.set i d :=
  ConnTable.ext (List.set_set c) rfl

/-- The memory of the table after `xcmalloc`, with the first writes of `new_conn_nr`. -/
def freshEntry : NcpConnection where
  fd := -1
  pid := -1
  clientAdr := ⟨.zero 4, .zero 6, .zero 2⟩
  sequence := 0
  lastAccess := 0

/-- The loop of `new_conn_nr` that sets up the table. -/
def initAll (t : ConnTable limit) : ConnTable limit where
  connections :=
    if t.connections = [] then List.replicate limit freshEntry
    else t.connections.map fun c => { c with fd := -1, pid := -1 }
  countConnections := 1
  setUp := by
    split
    next => exact .inr List.length_replicate
    next h => exact .inr ((List.length_map _).trans (t.setUp.resolve_left h))
  count_le := by
    split
    next => exact List.length_replicate.symm ▸ limit.pos
    next h => exact (List.length_map _).symm ▸ List.length_pos_iff.mpr h

/-- The first `n` entries count. -/
def grow (t : ConnTable limit) (n : Nat) (h : n ≤ t.connections.length) : ConnTable limit :=
  { t with
    countConnections := Nat.max t.countConnections n
    count_le := Nat.max_le.mpr ⟨t.count_le, h⟩ }

/-- `new_conn_nr`. -/
def newConnNr (t : ConnTable limit) : Traced NcpEffect (Nat × ConnTable limit) :=
  if t.countConnections = 0 then pure (1, t.initAll)
  else
    match t.connections.findFinIdx? fun c => c.fd < 0 ∧ c.pid < 0 with
    | some j => pure (j + 1, t.grow (j + 1) j.isLt)
    | none => do
        Traced.emit .nwservActivateWdogs
        pure (0, t)

/-- `free_conn_nr`. -/
def freeConnNr (t : ConnTable limit) (nr : Nat) : ConnTable limit :=
  match t.connections[nr - 1]? with
  | some c =>
      if nr ≠ 0 ∧ nr - 1 < t.countConnections then t.set (nr - 1) { c with fd := -1, pid := -1 }
      else t
  | none => t

/-- `find_conn_nr`. -/
def findConnNr (t : ConnTable limit) (addr : IpxAddr) : Nat :=
  match (t.connections.take t.countConnections).findIdx? fun c => -1 < c.fd ∧ c.clientAdr = addr with
  | some j => j + 1
  | none => 0

/-- `clear_connection`. -/
def clearConnection (t : ConnTable limit) (conn : Int) : Traced NcpEffect (ConnTable limit) := do
  Traced.emit (.nwservCloseConn conn)
  match t.connections[(conn - 1).toNat]? with
  | none => pure t
  | some c =>
      if conn > 0 ∧ conn - 1 < t.countConnections ∧ c.fd > -1 then do
        Traced.emit (.close c.fd)
        if c.pid > -1 then Traced.emit (.kill c.pid .sigterm)
        pure (t.set (conn - 1).toNat { c with fd := -1 })
      else pure t

/-- The entries that count, from the last one down. -/
def downwards (t : ConnTable limit) : List Nat := (List.range t.countConnections).reverse

/-- The entry of a pid that `kill_connections` got from `waitpid`. -/
def clearReaped (pid : Int) (t : ConnTable limit) (conn : Nat) :
    Traced NcpEffect (ConnTable limit) :=
  match t.connections[conn]? with
  | some c => if c.pid = pid then t.clearConnection (conn + 1) else pure t
  | none => pure t

/-- One round of the first loop of `kill_connections`. -/
def reap (t : ConnTable limit) (pid : Int) : Traced NcpEffect (ConnTable limit) := do
  Traced.emit (.waitpid pid)
  t.downwards.foldlM (clearReaped pid) t

/-- One round of the second loop of `kill_connections`. -/
def killCleared (t : ConnTable limit) (conn : Nat) : Traced NcpEffect (ConnTable limit) :=
  match t.connections[conn]? with
  | some c =>
      if c.fd < 0 ∧ c.pid > -1 then do
        Traced.emit (.kill c.pid .sigkill)
        pure (t.set conn { c with pid := -1 })
      else pure t
  | none => pure t

/-- The third loop of `kill_connections`: the count without the last unused entries. -/
def trimmed (connections : List NcpConnection) : Nat → Nat
  | 0 => 0
  | n + 1 =>
      match connections[n]? with
      | some c => if c.fd < 0 ∧ c.pid < 0 then trimmed connections n else n + 1
      | none => n + 1

theorem trimmed_le (connections : List NcpConnection) (n : Nat) : trimmed connections n ≤ n := by
  induction n with
  | zero => exact Nat.le_refl 0
  | succ n ih =>
      unfold trimmed
      split
      next =>
        split
        next => exact Nat.le_succ_of_le ih
        next => exact Nat.le_refl _
      next => exact Nat.le_refl _

def trim (t : ConnTable limit) : ConnTable limit :=
  { t with
    countConnections := trimmed t.connections t.countConnections
    count_le := (trimmed_le t.connections t.countConnections).trans t.count_le }

/-- `kill_connections`; `reaped` is what the calls of `waitpid` return. -/
def killConnections (t : ConnTable limit) (reaped : List Int) :
    Traced NcpEffect (ConnTable limit) := do
  let t ← reaped.foldlM reap t
  let t ← t.downwards.foldlM killCleared t
  pure t.trim

/-- The part of `find_get_conn_nr` for a client that has no connection. -/
def getConnNr (t : ConnTable limit) (addr : IpxAddr) (spawned : Spawned) :
    Traced NcpEffect (Nat × ConnTable limit) := do
  let (connection, t) ← t.newConnNr
  match t.connections[connection - 1]?, connection with
  | none, _ | _, 0 => pure (0, t)
  | some c, connection => do
      let c := { c with clientAdr := addr }
      let t := t.set (connection - 1) c
      match spawned.pipe with
      | none => pure (0, t.freeConnNr connection)
      | some fds => do
          Traced.emit (.pipe fds)
          match spawned.fork with
          | none => do
              Traced.emit (.close fds.1)
              Traced.emit (.close fds.2)
              pure (0, t.freeConnNr connection)
          | some pid => do
              Traced.emit (.fork pid)
              Traced.emit (.close fds.1)
              pure (connection, t.set (connection - 1) { c with pid := pid, fd := fds.2 })

/-- The connection of a client, which gets one if it has none. -/
def connNrFor (t : ConnTable limit) (addr : IpxAddr) (spawned : Spawned) :
    Traced NcpEffect (Nat × ConnTable limit) :=
  if t.findConnNr addr = 0 then t.getConnNr addr spawned else pure (t.findConnNr addr, t)

/-- `nwserv_insert_conn` for a connection. -/
def nwservInsertConn (t : ConnTable limit) (connection : Nat) (addr : IpxAddr) :
    Traced NcpEffect Unit :=
  match t.connections[connection - 1]? with
  | some c =>
      if connection > 0 then Traced.emit (.nwservInsertConn connection addr c.pid) else pure ()
  | none => pure ()

/-- `find_get_conn_nr`. -/
def findGetConnNr (t : ConnTable limit) (addr : IpxAddr) (spawned : Spawned) :
    Traced NcpEffect (Nat × ConnTable limit) := do
  let (connection, t) ← t.connNrFor addr spawned
  t.nwservInsertConn connection addr
  pure (connection, t)

end ConnTable

end MarsNwe
