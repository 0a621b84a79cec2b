import MarsNwe.Bindery.Objects

/-! # Bindery properties and their values

Properties are found by a walk over the property file, values by their segment
number. A value is a run of segments 1, 2, …; a set property packs 32 ids into
each segment.
-/

namespace MarsNwe

open KeyedFile

variable {F : Type → Type → Type} [KeyedFile F]

/-! ## Property records -/

/-- The properties behind the one with id `last`; all of them for `last` 0. -/
def propsAfter (last : UInt32) (ps : List NetProp) : List NetProp :=
  if last = 0 then ps else (ps.dropWhile fun p => p.id.toUInt32 ≠ last).tail

/-- `find_prop_id`: the first property of the object behind `last` whose name
matches and which the caller may read. -/
def findPropId (c : Caller) (b : Bindery F) (objId : UInt32) (name : CText 16) (last : UInt32) :
    Except Int NetProp :=
  match (propsAfter last (b.propsOf objId)).find? fun p =>
      nameMatch name.bytes p.name.bytes && bAcc c objId p.security 0x00 == 0 with
  | some p => .ok p
  | none => .error (-0xfb)

/-- `loc_change_prop_security`: re-secure the first property that matches. -/
def locChangePropSecurity (c : Caller) (b : Bindery F) (objId : UInt32) (name : CText 16)
    (security : UInt8) : Int × Bindery F :=
  match (b.propsOf objId).find? fun p => nameMatch name.bytes p.name.bytes with
  | none => (-0xfb, b)
  | some p =>
      if bAcc c objId p.security 0x15 ≠ 0 then (bAcc c objId p.security 0x15, b)
      else
        (0, { b with nwprop := store b.nwprop (objId, p.id) { p.toPropData with security := security } })

/-- The first property id from 1 to 255 not in use; 0, the truncated 256, if
there is none. -/
def freePropId (used : List UInt8) : UInt8 :=
  match segments.find? fun k => !used.contains k with
  | some k => k
  | none => 0

/-- `nw_create_obj_prop`: the result code, the id left in `prop->id` and the
bindery. A property that exists already takes the security and the flags asked
for. -/
def nwCreateObjProp (b : Bindery F) (objId : UInt32) (d : PropData) : Int × UInt8 × Bindery F :=
  match (b.propsOf objId).find? fun p => d.name = p.name with
  | some p =>
      if p.security ≠ d.security ∨ p.flags ≠ d.flags then
        (-0xed, p.id, { b with
          nwprop := store b.nwprop (objId, p.id)
            { p.toPropData with security := d.security, flags := d.flags } })
      else (-0xed, p.id, b)
  | none =>
      let k := freePropId ((b.propsOf objId).map NetProp.id)
      (0, k, { b with nwprop := store b.nwprop (objId, k) d })

/-- The first loop of `loc_delete_property`: the result so far and the ids
marked in `xset`. -/
def markProps (c : Caller) (objId : UInt32) (name : CText 16) (ever : Bool) :
    List NetProp → Int → List UInt8 → Int × List UInt8
  | [], result, xset => (result, xset)
  | p :: ps, result, xset =>
      if nameMatch name.bytes p.name.bytes then
        if ever || bAcc c objId p.security 0x13 == 0 then
          markProps c objId name ever ps (max result p.id.toNat) (p.id :: xset)
        else markProps c objId name ever ps (if result < 0 then -0xf6 else result) xset
      else markProps c objId name ever ps result xset

/-- The keys of the value segments of a property behind `s`. -/
def valKeysAfter (objId : UInt32) (propId s : UInt8) : List ValKey :=
  (segmentsAfter s).map fun t => (objId, propId, t)

/-- The keys of the value segments 1 to 255 of a property. -/
def valKeys (objId : UInt32) (propId : UInt8) : List ValKey := valKeysAfter objId propId 0

/-- Delete the values of properties, of each one the segments up to the first
missing one. -/
def deleteValues (f : F ValKey Value) (objId : UInt32) (ids : List UInt8) : F ValKey Value :=
  ids.foldl (fun f k => deletePrefix f (valKeys objId k)) f

/-- The second part of `loc_delete_property`: for the marked ids up to `result`
first the values, then the property records. -/
def deleteMarked (b : Bindery F) (objId : UInt32) (result : Int) (xset : List UInt8) :
    Int × Bindery F :=
  if 0 < result then
    let ids := segments.filter fun k => k ∈ xset && (k.toNat : Int) ≤ result
    let propKeys := ids.map fun k => (objId, k)
    let b' := { b with
      nwval := deleteValues b.nwval objId ids
      nwprop := deletePrefix b.nwprop propKeys }
    if propKeys.all fun k => (fetch b.nwprop k).isSome then (0, b') else (-0xf6, b')
  else (result, b)

/-- `loc_delete_property` by name; wildcards are allowed and `ever` skips the
access tests. -/
def locDeleteProperty (c : Caller) (b : Bindery F) (objId : UInt32) (name : CText 16)
    (ever : Bool) : Int × Bindery F :=
  let (result, xset) := markProps c objId name ever (b.propsOf objId) (-0xfb) []
  deleteMarked b objId result xset

/-- `loc_delete_property` by a property id other than 0. -/
def locDeletePropertyById (b : Bindery F) (objId : UInt32) (propId : UInt8) : Int × Bindery F :=
  deleteMarked b objId propId.toNat [propId]

/-! ## Property values -/

/-- `loc_get_prop_val`: a value segment, and whether the next one exists. -/
def locGetPropVal (c : Caller) (b : Bindery F) (objId : UInt32) (propId security segment : UInt8) :
    Except Int (Value × Bool) :=
  if bAcc c objId security 0x10 ≠ 0 then .error (bAcc c objId security 0x10)
  else
    match fetch b.nwval (objId, propId, segment) with
    | some v => .ok (v, (fetch b.nwval (objId, propId, segment + 1)).isSome)
    | none => .error (-0xec)

/-- `ins_prop_val`: write a segment; segments behind the first need their
predecessor, and `erase` 0xff drops the segments that follow. -/
def insPropVal (c : Caller) (b : Bindery F) (objId : UInt32) (p : NetProp) (segment : UInt8)
    (value : Value) (erase : UInt8) : Int × Bindery F :=
  if bAcc c objId p.security 0x11 ≠ 0 then (bAcc c objId p.security 0x11, b)
  else if 1 < segment ∧ (fetch b.nwval (objId, p.id, segment - 1)).isNone then (-0xec, b)
  else
    let nwval := store b.nwval (objId, p.id, segment) value
    if erase = 0xff then
      (0, { b with nwval := deletePrefix nwval (valKeysAfter objId p.id segment) })
    else (0, { b with nwval := nwval })

/-- The members of one value segment of a set; none if the segment is missing. -/
def cellsAt (f : F ValKey Value) (k : ValKey) : List UInt32 :=
  match fetch f k with
  | some v => v.members
  | none => []

/-- `prop_find_member`: look at all segments from 1 to 255. -/
def propFindMember (c : Caller) (b : Bindery F) (objId : UInt32) (propId security : UInt8)
    (memberId : UInt32) : Int :=
  if bAcc c objId security 0x10 ≠ 0 then bAcc c objId security 0x10
  else if (valKeys objId propId).any fun k => memberId ∈ cellsAt b.nwval k then 0
  else -0xea

/-- The loop of `prop_add_member`: the first empty cell, or a new segment in
place of the first missing one. -/
def addMember (f : F ValKey Value) (memberId : UInt32) : List ValKey → Int × F ValKey Value
  | [] => (-0xff, f)
  | k :: ks =>
      match fetch f k with
      | some v =>
          if 0 ∈ v.members then (0, store f k (v.setCell (v.members.idxOf 0) memberId))
          else addMember f memberId ks
      | none => (0, store f k (Value.setCell (ByteBuf.zero 128) 0 memberId))

/-- `prop_add_member`. -/
def propAddMember (c : Caller) (b : Bindery F) (objId : UInt32) (propId security : UInt8)
    (memberId : UInt32) : Int × Bindery F :=
  if bAcc c objId security 0x11 ≠ 0 then (bAcc c objId security 0x11, b)
  else
    let (result, nwval) := addMember b.nwval memberId (valKeys objId propId)
    (result, { b with nwval := nwval })

/-- The loop of `prop_delete_member`: the first occurrence before the first
missing segment. -/
def deleteMember (f : F ValKey Value) (memberId : UInt32) : List ValKey → F ValKey Value
  | [] => f
  | k :: ks =>
      match fetch f k with
      | some v =>
          if memberId ∈ v.members then store f k (v.removeCell (v.members.idxOf memberId))
          else deleteMember f memberId ks
      | none => f

/-- `prop_delete_member`: 0 whether or not there was such a member. -/
def propDeleteMember (c : Caller) (b : Bindery F) (objId : UInt32) (propId security : UInt8)
    (memberId : UInt32) : Int × Bindery F :=
  if bAcc c objId security 0x11 ≠ 0 then (bAcc c objId security 0x11, b)
  else (0, { b with nwval := deleteMember b.nwval memberId (valKeys objId propId) })

/-! ## Deleting a whole object -/

/-- `LOC_MAX_OBJS`. -/
def locMaxObjs : Nat := 10000

/-- The keys of the set properties in the order of the walk. -/
def setProps (b : Bindery F) : List PropKey :=
  ((walk b.nwprop).filter fun r => r.2.isSet).map Prod.fst

/-- Take an id out of set properties, one occurrence each, from the last one
collected to the first. The calls of `prop_delete_member` pass security 0, which
`b_acc` grants to everyone. -/
def dropMember (f : F ValKey Value) (memberId : UInt32) (ps : List PropKey) : F ValKey Value :=
  ps.foldr (fun p f => deleteMember f memberId (valKeys p.1 p.2)) f

/-- The name pattern `*`. -/
def anyName : CText 16 := .copy 15 [chr '*']

/-- `loc_delete_obj`: the properties of the object, its memberships in the set
properties collected, its record and its index entry. -/
def locDeleteObj (c : Caller) (b : Bindery F) (objId : UInt32) : Int × Bindery F :=
  if bAcc c objId 0x33 0x03 ≠ 0 then (bAcc c objId 0x33 0x03, b)
  else
    let b := (locDeleteProperty c b objId anyName true).2
    let b := { b with nwval := dropMember b.nwval objId ((setProps b).take locMaxObjs) }
    match b.obj objId with
    | none => (-0xff, b)
    | some o => (0, handleIobjDelete { b with nwobj := delete b.nwobj objId } o)

/-- `nw_delete_obj`. -/
def nwDeleteObj (c : Caller) (b : Bindery F) (type : UInt16) (name : CText 48) : Int × Bindery F :=
  match findObjId b type name with
  | (.error e, b) => (e, b)
  | (.ok o, b) => locDeleteObj c b o.id

/-! ## Requests on a property of a named object -/

/-- `find_obj_id`, then `find_first_prop_id`. -/
def findObjProp (c : Caller) (b : Bindery F) (type : UInt16) (name : CText 48)
    (propName : CText 16) : Except Int NetProp × Bindery F :=
  match findObjId b type name with
  | (.error e, b) => (.error e, b)
  | (.ok o, b) => (findPropId c b o.id propName 0, b)

/-- `find_obj_id` and `find_first_prop_id`, then `find_obj_id` for the member. -/
def findObjPropMember (c : Caller) (b : Bindery F) (type : UInt16) (name : CText 48)
    (propName : CText 16) (memberType : UInt16) (memberName : CText 48) :
    Except Int (NetProp × UInt32) × Bindery F :=
  match findObjProp c b type name propName with
  | (.error e, b) => (.error e, b)
  | (.ok p, b) =>
      match findObjId b memberType memberName with
      | (.error e, b) => (.error e, b)
      | (.ok m, b) => (.ok (p, m.id), b)

/-- `nw_create_prop`. -/
def nwCreateProp (c : Caller) (b : Bindery F) (type : UInt16) (name : CText 48) (d : PropData) :
    Int × Bindery F :=
  match findObjId b type name with
  | (.error e, b) => (e, b)
  | (.ok o, b) =>
      if bAcc c o.id o.security 0x12 ≠ 0 then (bAcc c o.id o.security 0x12, b)
      else ((nwCreateObjProp b o.id d).1, (nwCreateObjProp b o.id d).2.2)

/-- `nw_delete_property`. -/
def nwDeleteProperty (c : Caller) (b : Bindery F) (type : UInt16) (name : CText 48)
    (propName : CText 16) : Int × Bindery F :=
  match findObjId b type name with
  | (.error e, b) => (e, b)
  | (.ok o, b) => locDeleteProperty c b o.id propName false

/-- `nw_change_prop_security`. -/
def nwChangePropSecurity (c : Caller) (b : Bindery F) (type : UInt16) (name : CText 48)
    (propName : CText 16) (security : UInt8) : Int × Bindery F :=
  match findObjId b type name with
  | (.error _, b) => (-0xff, b)
  | (.ok o, b) => locChangePropSecurity c b o.id propName security

/-- `nw_scan_property`: the property found and whether it has a value. -/
def nwScanProperty (c : Caller) (b : Bindery F) (type : UInt16) (name : CText 48)
    (propName : CText 16) (lastScan : UInt32) : Except Int (NetProp × Bool) × Bindery F :=
  match findObjId b type name with
  | (.error e, b) => (.error e, b)
  | (.ok o, b) =>
      let last := if lastScan = 0xffffffff then 0 else lastScan
      match findPropId c b o.id propName last with
      | .error e => (.error e, b)
      | .ok p => (.ok (p, (locGetPropVal c b o.id p.id p.security 1).isOk), b)

/-- `nw_get_prop_val_by_obj_id`: the segment, whether there are more, and the
flags of the property. -/
def nwGetPropValByObjId (c : Caller) (b : Bindery F) (objId : UInt32) (segment : UInt8)
    (propName : CText 16) : Except Int (Value × Bool × UInt8) :=
  match findPropId c b objId propName 0 with
  | .error e => .error e
  | .ok p =>
      match locGetPropVal c b objId p.id p.security segment with
      | .error e => .error e
      | .ok (v, more) => .ok (v, more, p.flags)

/-- `nw_get_prop_val`. -/
def nwGetPropVal (c : Caller) (b : Bindery F) (type : UInt16) (name : CText 48) (segment : UInt8)
    (propName : CText 16) : Except Int (Value × Bool × UInt8) × Bindery F :=
  match findObjId b type name with
  | (.error e, b) => (.error e, b)
  | (.ok o, b) => (nwGetPropValByObjId c b o.id segment propName, b)

/-- `nw_write_prop_value`. -/
def nwWritePropValue (c : Caller) (b : Bindery F) (type : UInt16) (name : CText 48)
    (segment erase : UInt8) (propName : CText 16) (value : Value) : Int × Bindery F :=
  match findObjProp c b type name propName with
  | (.error e, b) => (e, b)
  | (.ok p, b) => insPropVal c b p.objId p segment value erase

/-- `nw_is_obj_in_set`. -/
def nwIsObjInSet (c : Caller) (b : Bindery F) (type : UInt16) (name : CText 48)
    (propName : CText 16) (memberType : UInt16) (memberName : CText 48) : Int × Bindery F :=
  match findObjPropMember c b type name propName memberType memberName with
  | (.error e, b) => (e, b)
  | (.ok (p, m), b) => (propFindMember c b p.objId p.id p.security m, b)

/-- `nw_add_obj_to_set`. -/
def nwAddObjToSet (c : Caller) (b : Bindery F) (type : UInt16) (name : CText 48)
    (propName : CText 16) (memberType : UInt16) (memberName : CText 48) : Int × Bindery F :=
  match findObjPropMember c b type name propName memberType memberName with
  | (.error e, b) => (e, b)
  | (.ok (p, m), b) =>
      let result := propFindMember c b p.objId p.id p.security m
      if result = -0xea then propAddMember c b p.objId p.id p.security m
      else if result = 0 then (-0xe9, b)
      else (result, b)

/-- `nw_delete_obj_from_set`. -/
def nwDeleteObjFromSet (c : Caller) (b : Bindery F) (type : UInt16) (name : CText 48)
    (propName : CText 16) (memberType : UInt16) (memberName : CText 48) : Int × Bindery F :=
  match findObjPropMember c b type name propName memberType memberName with
  | (.error e, b) => (e, b)
  | (.ok (p, m), b) => propDeleteMember c b p.objId p.id p.security m

/-- `nw_is_member_in_set`. -/
def nwIsMemberInSet (c : Caller) (b : Bindery F) (objId : UInt32) (propName : CText 16)
    (memberId : UInt32) : Int :=
  match findPropId c b objId propName 0 with
  | .error e => e
  | .ok p => propFindMember c b objId p.id p.security memberId

/-- `nw_obj_has_prop`. -/
def nwObjHasProp (b : Bindery F) (objId : UInt32) : Bool :=
  (walk b.nwprop).any fun r => r.1.1 == objId

end MarsNwe
