import MarsNwe.Lib.Machine
import MarsNwe.Bindery.Properties

/-! # Bindery requests of client connections

The bindery functions of NCP call 0x17 that `handle_fxx` serves without
switching to internal access, with the names and bytes cut out of the packet.
`nwbind` handles one packet at a time, so a run is a list of requests, each with
the connection that sends it.
-/

namespace MarsNwe

open KeyedFile

/-- The bindery requests, by the number of the sub-function. -/
inductive BindRequest where
  /-- 0x32 -/
  | createObj (flags security : UInt8) (type : UInt16) (name : CText 48)
  /-- 0x33 -/
  | deleteObj (type : UInt16) (name : CText 48)
  /-- 0x34 -/
  | renameObj (type : UInt16) (name newname : CText 48)
  /-- 0x35 -/
  | getObjId (type : UInt16) (name : CText 48)
  /-- 0x36 -/
  | getObjName (id : UInt32)
  /-- 0x37 -/
  | scanObj (last : UInt32) (type : UInt16) (name : CText 48)
  /-- 0x38 -/
  | changeObjSecurity (security : UInt8) (type : UInt16) (name : CText 48)
  /-- 0x39 -/
  | createProp (type : UInt16) (name : CText 48) (prop : PropData)
  /-- 0x3a -/
  | deleteProp (type : UInt16) (name : CText 48) (propName : CText 16)
  /-- 0x3b -/
  | changePropSecurity (type : UInt16) (name : CText 48) (security : UInt8) (propName : CText 16)
  /-- 0x3c -/
  | scanProp (type : UInt16) (name : CText 48) (last : UInt32) (propName : CText 16)
  /-- 0x3d -/
  | getPropVal (type : UInt16) (name : CText 48) (segment : UInt8) (propName : CText 16)
  /-- 0x3e -/
  | writePropVal (type : UInt16) (name : CText 48) (segment erase : UInt8) (propName : CText 16)
      (value : Value)
  /-- 0x41 -/
  | addToSet (type : UInt16) (name : CText 48) (propName : CText 16) (memberType : UInt16)
      (memberName : CText 48)
  /-- 0x42 -/
  | deleteFromSet (type : UInt16) (name : CText 48) (propName : CText 16) (memberType : UInt16)
      (memberName : CText 48)
  /-- 0x43 -/
  | isInSet (type : UInt16) (name : CText 48) (propName : CText 16) (memberType : UInt16)
      (memberName : CText 48)
  /-- 0x46 -/
  | accessLevel
  /-- 0x48 -/
  | objAccessLevel (id : UInt32)
deriving DecidableEq

/-- The replies: a result code, whose negation is the completion code, or the
data of a reply with completion code 0. -/
inductive BindReply where
  | result (code : Int)
  | object (id : UInt32) (type : UInt16) (name : CText 48)
  | scanned (o : NetObj) (hasProps : Bool)
  | property (p : NetProp) (hasValue : Bool)
  | value (v : Value) (more : Bool) (flags : UInt8)
  | level (level : UInt8) (objectId : Option UInt32)
  /-- The request is never answered. -/
  | never
deriving DecidableEq

variable {F : Type → Type → Type} [KeyedFile F]

/-- Answer with the data of a lookup or with its error code. -/
def replyWith {α : Type} (reply : α → BindReply) : Except Int α → BindReply
  | .ok a => reply a
  | .error e => .result e

/-- The cases 0x32 to 0x48 of `handle_fxx`. -/
def handleBindRequest (c : Caller) (b : Bindery F) : BindRequest → BindReply × Bindery F
  | .createObj flags security type name =>
      match nwCreateObj c b ⟨name, type, flags, security⟩ 0 with
      | some (result, _, b) => (.result result, b)
      | none => (.never, b)
  | .deleteObj type name => (nwDeleteObj c b type name).map .result id
  | .renameObj type name newname =>
      if c.isSupervisor then (nwRenameObj c b type name newname).map .result id
      else (.result (-0xff), b)
  | .getObjId type name =>
      (findObjId b type (upstr name)).map (replyWith fun o => .object o.id o.type o.name) id
  | .getObjName id => (replyWith (fun o => .object o.id o.type o.name) (nwGetObj c b id), b)
  | .scanObj last type name =>
      (replyWith (fun o => .scanned o (nwObjHasProp b o.id))
        (scanForObj b type (upstr name) last (some c)), b)
  | .changeObjSecurity security type name =>
      if c.isSupervisor then (nwChangeObjSecurity c b type name security).map .result id
      else (.result (-0xff), b)
  | .createProp type name prop => (nwCreateProp c b type name prop).map .result id
  | .deleteProp type name propName => (nwDeleteProperty c b type name propName).map .result id
  | .changePropSecurity type name security propName =>
      (nwChangePropSecurity c b type name propName security).map .result id
  | .scanProp type name last propName =>
      (nwScanProperty c b type name propName last).map
        (replyWith fun r => .property r.1 r.2) id
  | .getPropVal type name segment propName =>
      (nwGetPropVal c b type name segment propName).map
        (replyWith fun r => .value r.1 r.2.1 r.2.2) id
  | .writePropVal type name segment erase propName value =>
      (nwWritePropValue c b type name segment erase propName value).map .result id
  | .addToSet type name propName memberType memberName =>
      (nwAddObjToSet c b type name propName memberType memberName).map .result id
  | .deleteFromSet type name propName memberType memberName =>
      (nwDeleteObjFromSet c b type name propName memberType memberName).map .result id
  | .isInSet type name propName memberType memberName =>
      (nwIsObjInSet c b type name propName memberType memberName).map .result id
  | .accessLevel =>
      if c.objectId = 0 then (.level 0 none, b)
      else (.level (if c.isSupervisor then 0x33 else 0x22) (some c.objectId), b)
  | .objAccessLevel id =>
      (replyWith (fun o => .level (if c.isSupervisor then 0x33
        else if c.objectId = o.id then 0x22 else 0x11) none) (nwGetObj c b id), b)

/-- The bindery as a machine that serves the requests of all connections. -/
def binderyMachine : Machine (Bindery F) (Caller × BindRequest) BindReply where
  step b r := handleBindRequest r.1 b r.2

end MarsNwe
