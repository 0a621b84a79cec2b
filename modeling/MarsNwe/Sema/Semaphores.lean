import Mathlib.Data.List.DropRight
import MarsNwe.Lib.Machine

/-! # Semaphores

A table of the server holds the semaphores, and every connection has a table of
those it has opened. Both are arrays in use up to a count; entries may be free
in between, the last one in use never is.
-/

namespace MarsNwe

/-! ## The code -/

/-- `MAX_SEMAPHORES`. -/
def maxSemaphores : Nat := 100

/-- `MAX_SEMA_CONN`. -/
def maxSemaConn : Nat := 10

/-- `SEMA`. -/
structure Sema where
  name : List UInt8
  opencount : Int
  value : Int
deriving DecidableEq

/-- `SEMA_CONN`; the handle 0 marks a free entry. -/
structure SemaConn where
  handle : Int
  opencount : Int
deriving DecidableEq

/-- `semas`, up to `count_semas`. -/
abbrev SemaTable := List (Option Sema)

/-- The semaphore with a handle, as all functions look it up. -/
def semaAt (semas : SemaTable) (handle : Int) : Option Sema :=
  if 0 < handle then semas[(handle - 1).toNat]?.join else none

/-- Write the semaphore with a handle. -/
def setSema (semas : SemaTable) (handle : Int) (se : Option Sema) : SemaTable :=
  semas.set (handle - 1).toNat se

/-- The first entry that is in use under a name. -/
def findSema (semas : SemaTable) (name : List UInt8) : Option Nat :=
  semas.findIdx? fun entry => entry.any fun se => se.name == name

/-- `open_sema`: the handle and `opencount`. -/
def openSema (semas : SemaTable) (name : List UInt8) (value : Int) :
    Except Int (Int × Int) × SemaTable :=
  match findSema semas name with
  | some k =>
      match semaAt semas (k + 1) with
      | some se =>
          (.ok (k + 1, se.opencount + 1),
            setSema semas (k + 1) (some { se with opencount := se.opencount + 1 }))
      | none => (.error (-0x96), semas)
  | none =>
      let new : Option Sema := some ⟨name, 1, value⟩
      match semas.findIdx? Option.isNone with
      | some isfree => (.ok (isfree + 1, 1), setSema semas (isfree + 1) new)
      | none =>
          if semas.length < maxSemaphores then (.ok (semas.length + 1, 1), semas ++ [new])
          else (.error (-0x96), semas)

/-- The end of `close_sema`: when the last entry gets free, so do all free ones before it. -/
def trimSemas (semas : SemaTable) (handle : Int) : SemaTable :=
  if handle = semas.length then semas.rdropWhile Option.isNone else semas

/-- `close_sema`. -/
def closeSema (semas : SemaTable) (handle : Int) : Int × SemaTable :=
  match semaAt semas handle with
  | none => (-0xff, semas)
  | some se =>
      if se.opencount - 1 = 0 then (0, trimSemas (setSema semas handle none) handle)
      else (0, setSema semas handle (some { se with opencount := se.opencount - 1 }))

/-- `wait_sema`. -/
def waitSema (semas : SemaTable) (handle : Int) : Int × SemaTable :=
  match semaAt semas handle with
  | none => (-0xff, semas)
  | some se =>
      if se.value < 1 then (-0xfe, semas)
      else (0, setSema semas handle (some { se with value := se.value - 1 }))

/-- `signal_sema`. -/
def signalSema (semas : SemaTable) (handle : Int) : Int × SemaTable :=
  match semaAt semas handle with
  | none => (-0xff, semas)
  | some se => (0, setSema semas handle (some { se with value := se.value + 1 }))

/-- `examine_sema`: `value` and `opencount`. -/
def examineSema (semas : SemaTable) (handle : Int) : Except Int (Int × Int) :=
  match semaAt semas handle with
  | none => .error (-0xff)
  | some se => .ok (se.value, se.opencount)

/-- The last index whose entry has a handle: the loop `while (k--)`. -/
def findSemaConn (c : List SemaConn) (handle : Int) : Option Nat :=
  (c.reverse.findIdx? fun sem => sem.handle == handle).map fun k => c.length - 1 - k

/-- `open_conn_sema`. -/
def openConnSema (c : List SemaConn) (handle : Int) : Int × List SemaConn :=
  match findSemaConn c handle with
  | some k => (handle, c.modify k fun sem => { sem with opencount := sem.opencount + 1 })
  | none =>
      match c.findIdx? fun sem => sem.handle == 0 with
      | some isFree => (handle, c.set isFree ⟨handle, 1⟩)
      | none => if c.length < maxSemaConn then (handle, c ++ [⟨handle, 1⟩]) else (-0x96, c)

/-- The end of `close_conn_sema`. -/
def trimSemaConn (c : List SemaConn) (k : Nat) : List SemaConn :=
  if k + 1 = c.length then c.rdropWhile fun sem => sem.handle == 0 else c

/-- `close_conn_sema`. -/
def closeConnSema (c : List SemaConn) (handle : Int) : Int × List SemaConn :=
  match findSemaConn c handle with
  | none => (-0xff, c)
  | some k =>
      match (c)[k]? with
      | none => (-0xff, c)
      | some sem =>
          if sem.opencount - 1 = 0 then (0, trimSemaConn (c.set k ⟨0, 0⟩) k)
          else (0, c.set k { sem with opencount := sem.opencount - 1 })

/-- The inner loop of `clear_conn_semas`. -/
def closeSemaTimes (semas : SemaTable) (handle : Int) : Nat → SemaTable
  | 0 => semas
  | n + 1 => closeSemaTimes (closeSema semas handle).2 handle n

/-- `clear_conn_semas`: the table of the server when the entries of a connection
are closed from the last to the first. -/
def clearConnSemas (semas : SemaTable) (c : List SemaConn) : SemaTable :=
  c.foldr (fun sem semas =>
    if 0 < sem.handle ∧ 0 < sem.opencount then
      closeSemaTimes semas sem.handle sem.opencount.toNat
    else semas) semas

/-! ## Requests -/

/-- The requests of function 0x20. The time to wait at most is not looked at. -/
inductive SemaRequest where
  /-- 0x0 -/
  | openSema (value : UInt8) (name : List UInt8)
  /-- 0x1 -/
  | examineSema (handle : Int)
  /-- 0x2 -/
  | waitSema (handle : Int)
  /-- 0x3 -/
  | signalSema (handle : Int)
  /-- 0x4 -/
  | closeSema (handle : Int)

/-- The replies: a result code, or the data of open and examine. -/
inductive SemaReply where
  | result (code : Int)
  | opened (handle : Int) (opencount : UInt8)
  | examined (value opencount : UInt8)
deriving DecidableEq

/-- `semas` and the tables of all connections. -/
structure SemaState where
  semas : SemaTable
  conns : List (List SemaConn)

/-- A request of a connection, or the clean-up of one. -/
inductive SemaEvent where
  | request (conn : Nat) (r : SemaRequest)
  | clear (conn : Nat)

/-- `handle_func_0x20` for the connection with index `conn` and the table `c`.
What `close_sema` is given when the connection's table is full is the error
code, not the handle. -/
def handleFunc0x20 (s : SemaState) (conn : Nat) (c : List SemaConn) :
    SemaRequest → SemaReply × SemaState
  | .openSema value name =>
      if name.length < 1 ∨ 127 < name.length then (.result (-0xfe), s)
      else if 127 < value then (.result (-0xff), s)
      else
        match openSema s.semas name value.toNat with
        | (.error e, semas) => (.result e, { s with semas := semas })
        | (.ok (handle, opencount), semas) =>
            let (result, c) := openConnSema c handle
            if result < 0 then
              (.result result, { s with semas := (closeSema semas result).2 })
            else (.opened result (UInt8.ofInt opencount), ⟨semas, s.conns.set conn c⟩)
  | .examineSema handle =>
      (match examineSema s.semas handle with
        | .error e => .result e
        | .ok (value, opencount) => .examined (UInt8.ofInt value) (UInt8.ofInt opencount), s)
  | .waitSema handle =>
      let (result, semas) := waitSema s.semas handle
      (.result result, { s with semas := semas })
  | .signalSema handle =>
      let (result, semas) := signalSema s.semas handle
      (.result result, { s with semas := semas })
  | .closeSema handle =>
      let (result, c) := closeConnSema c handle
      if result = 0 then
        let (result, semas) := closeSema s.semas handle
        (.result result, ⟨semas, s.conns.set conn c⟩)
      else (.result result, { s with conns := s.conns.set conn c })

/-- Requests and clean-ups of any connections in any order. -/
def semaMachine : Machine SemaState SemaEvent SemaReply where
  step s
    | .request conn r =>
        match s.conns[conn]? with
        | some c => handleFunc0x20 s conn c r
        | none => (.result (-0xff), s)
    | .clear conn =>
        match s.conns[conn]? with
        | some c => (.result 0, ⟨clearConnSemas s.semas c, s.conns.set conn []⟩)
        | none => (.result 0, s)

/-- No semaphores, and connections that have opened none. -/
def SemaState.init (maxConnections : Nat) : SemaState := ⟨[], List.replicate maxConnections []⟩

end MarsNwe
