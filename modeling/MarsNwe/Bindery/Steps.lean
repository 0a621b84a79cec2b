import MarsNwe.Bindery.Requests

/-! # What one request does to the bindery

Every request first looks objects up, which can write index entries, and then
writes at most one thing. The inversion below lists these writes once, with
what the code has checked before them; invariants are proved write by write.
-/

namespace MarsNwe

open KeyedFile

variable {F : Type → Type → Type} [KeyedFile F]

/-- The same object, property and value records. -/
structure SameData (b b' : Bindery F) : Prop where
  nwobj : b'.nwobj = b.nwobj
  nwprop : b'.nwprop = b.nwprop
  nwval : b'.nwval = b.nwval

omit [KeyedFile F] in
theorem SameData.refl (b : Bindery F) : SameData b b := ⟨rfl, rfl, rfl⟩

omit [KeyedFile F] in
theorem SameData.trans {b b' b'' : Bindery F} (h : SameData b b') (h' : SameData b' b'') :
    SameData b b'' :=
  ⟨h'.nwobj.trans h.nwobj, h'.nwprop.trans h.nwprop, h'.nwval.trans h.nwval⟩

theorem SameData.obj {b b' : Bindery F} (h : SameData b b') (id : UInt32) :
    b'.obj id = b.obj id := by
  rw [Bindery.obj, h.nwobj, Bindery.obj]

theorem SameData.propsOf {b b' : Bindery F} (h : SameData b b') (id : UInt32) :
    b'.propsOf id = b.propsOf id := by
  rw [Bindery.propsOf, h.nwprop, Bindery.propsOf]

/-- The binderies that lookups of objects lead to. -/
inductive Looked (b : Bindery F) : Bindery F → Prop
  | refl : Looked b b
  | find {b' : Bindery F} (type : UInt16) (name : CText 48) :
      Looked b b' → Looked b (findObjId b' type name).2

namespace Looked

variable {b b' b'' : Bindery F}

theorem of_find {type : UInt16} {name : CText 48} {r : Except Int NetObj}
    (h : findObjId b type name = (r, b')) : Looked b b' := by
  have hfind := Looked.find type name (Looked.refl (b := b))
  rwa [h] at hfind

theorem trans (h : Looked b b') (h' : Looked b' b'') : Looked b b'' := by
  induction h' with
  | refl => exact h
  | find type name _ ih => exact ih.find type name

theorem sameData (h : Looked b b') : SameData b b' := by
  induction h with
  | refl => exact SameData.refl b
  | @find b' type name _ ih =>
      rcases hfind : findObjId b' type name with ⟨r, b''⟩
      obtain ⟨hobj, hprop, hval⟩ := findObjId_frame hfind
      exact ih.trans ⟨hobj, hprop, hval⟩

/-- What every lookup keeps true, all lookups of a request keep true. -/
theorem preserves {P : Bindery F → Prop}
    (hfind : ∀ b type name, P b → P (findObjId b type name).2) (h : Looked b b') (hb : P b) :
    P b' := by
  induction h with
  | refl => exact hb
  | find type name _ ih => exact hfind _ type name ih

end Looked

/-- The same object records under the same index. -/
structure SameObjects (b b' : Bindery F) : Prop where
  nwobj : b'.nwobj = b.nwobj
  nwiobj : b'.nwiobj = b.nwiobj

omit [KeyedFile F] in
theorem SameObjects.refl (b : Bindery F) : SameObjects b b := ⟨rfl, rfl⟩

theorem SameObjects.obj {b b' : Bindery F} (h : SameObjects b b') (id : UInt32) :
    b'.obj id = b.obj id := by
  rw [Bindery.obj, h.nwobj, Bindery.obj]

/-! ## The operations on properties and values leave the objects alone -/

theorem nwCreateObjProp_objects (b : Bindery F) (objId : UInt32) (d : PropData) :
    SameObjects b (nwCreateObjProp b objId d).2.2 := by
  unfold nwCreateObjProp
  split
  · split <;> exact ⟨rfl, rfl⟩
  · exact ⟨rfl, rfl⟩

theorem locDeleteProperty_objects (c : Caller) (b : Bindery F) (objId : UInt32)
    (name : CText 16) (ever : Bool) : SameObjects b (locDeleteProperty c b objId name ever).2 := by
  unfold locDeleteProperty deleteMarked
  dsimp only
  split
  · split <;> exact ⟨rfl, rfl⟩
  · exact .refl b

theorem locChangePropSecurity_objects (c : Caller) (b : Bindery F) (objId : UInt32)
    (name : CText 16) (security : UInt8) :
    SameObjects b (locChangePropSecurity c b objId name security).2 := by
  unfold locChangePropSecurity
  split
  · exact .refl b
  · split <;> exact ⟨rfl, rfl⟩

theorem insPropVal_objects (c : Caller) (b : Bindery F) (objId : UInt32) (p : NetProp)
    (segment : UInt8) (value : Value) (erase : UInt8) :
    SameObjects b (insPropVal c b objId p segment value erase).2 := by
  unfold insPropVal
  dsimp only
  repeat' split
  all_goals exact ⟨rfl, rfl⟩

theorem propAddMember_objects (c : Caller) (b : Bindery F) (objId : UInt32)
    (propId security : UInt8) (memberId : UInt32) :
    SameObjects b (propAddMember c b objId propId security memberId).2 := by
  unfold propAddMember
  split <;> exact ⟨rfl, rfl⟩

theorem propDeleteMember_objects (c : Caller) (b : Bindery F) (objId : UInt32)
    (propId security : UInt8) (memberId : UInt32) :
    SameObjects b (propDeleteMember c b objId propId security memberId).2 := by
  unfold propDeleteMember
  split <;> exact ⟨rfl, rfl⟩

/-- A property record as a walk or a lookup returns it. -/
def Bindery.HasProp (b : Bindery F) (p : NetProp) : Prop :=
  fetch b.nwprop (p.objId, p.id) = some p.toPropData

theorem findPropId_ok {c : Caller} {b : Bindery F} {objId : UInt32} {name : CText 16}
    {last : UInt32} {p : NetProp} (h : findPropId c b objId name last = .ok p) :
    b.HasProp p ∧ p.objId = objId ∧ nameMatch name.bytes p.name.bytes = true ∧
      bAcc c objId p.security 0x00 = 0 := by
  unfold findPropId at h
  split at h
  next q hfind =>
    cases h
    have hsub : propsAfter last (b.propsOf objId) ⊆ b.propsOf objId := by
      unfold propsAfter
      split
      · exact List.Subset.refl _
      · exact ((List.tail_sublist _).trans (List.dropWhile_sublist _)).subset
    obtain ⟨hobj, hfetch⟩ := Bindery.mem_propsOf.mp (hsub (List.mem_of_find?_eq_some hfind))
    have htest := List.find?_some hfind
    simp only [Bool.and_eq_true, beq_iff_eq] at htest
    refine ⟨?_, hobj, htest⟩
    rw [Bindery.HasProp, hobj]
    exact hfetch
  next => cases h

theorem findPropId_error {c : Caller} {b : Bindery F} {objId : UInt32} {name : CText 16}
    {last : UInt32} {e : Int} (h : findPropId c b objId name last = .error e) : e = -0xfb := by
  unfold findPropId at h
  split at h <;> cases h
  rfl

/-- What a request writes after its lookups, as a step from the bindery the
lookups left. -/
inductive Effect (c : Caller) (b : Bindery F) : BindRequest → Bindery F → Prop
  | none {r : BindRequest} : Effect c b r b
  | objCreated (flags security : UInt8) (type : UInt16) (name : CText 48) (id : UInt32)
      (hfree : fetch b.nwobj id = none)
      (hnew : ∀ o, b.obj o.id = some o → ¬ (o.name = name ∧ o.type = type)) :
      Effect c b (.createObj flags security type name)
        (handleIobjWrite { b with nwobj := store b.nwobj id ⟨name, type, flags, security⟩ }
          ⟨⟨name, type, flags, security⟩, id⟩)
  | objDeleted (type : UInt16) (name : CText 48) (o : NetObj) (hobj : b.obj o.id = some o)
      (hright : bAcc c o.id 0x33 0x03 = 0) :
      Effect c b (.deleteObj type name) (locDeleteObj c b o.id).2
  | objRenamed (type : UInt16) (name newname : CText 48) (o : NetObj)
      (hobj : b.obj o.id = some o) (hright : bAcc c 0 0x33 0x04 = 0) :
      Effect c b (.renameObj type name newname)
        (handleIobjWrite { handleIobjDelete b o with
          nwobj := store b.nwobj o.id { o.toObjData with name := newname } }
          { o with name := newname })
  | objSecured (type : UInt16) (name : CText 48) (o : NetObj) (security : UInt8)
      (hobj : b.obj o.id = some o) :
      Effect c b (.changeObjSecurity security type name)
        { b with nwobj := store b.nwobj o.id { o.toObjData with security := security } }
  | propCreated (type : UInt16) (name : CText 48) (o : NetObj) (d : PropData)
      (hobj : b.obj o.id = some o) (hright : bAcc c o.id o.security 0x12 = 0) :
      Effect c b (.createProp type name d) (nwCreateObjProp b o.id d).2.2
  | propDeleted (type : UInt16) (name : CText 48) (objId : UInt32) (propName : CText 16) :
      Effect c b (.deleteProp type name propName) (locDeleteProperty c b objId propName false).2
  | propSecured (type : UInt16) (name : CText 48) (objId : UInt32) (propName : CText 16)
      (security : UInt8) :
      Effect c b (.changePropSecurity type name security propName)
        (locChangePropSecurity c b objId propName security).2
  | valueWritten (type : UInt16) (name : CText 48) (propName : CText 16) (p : NetProp)
      (segment : UInt8) (value : Value) (erase : UInt8) (hprop : b.HasProp p)
      (hread : bAcc c p.objId p.security 0x00 = 0) :
      Effect c b (.writePropVal type name segment erase propName value)
        (insPropVal c b p.objId p segment value erase).2
  | memberAdded (type : UInt16) (name : CText 48) (propName : CText 16) (memberType : UInt16)
      (memberName : CText 48) (p : NetProp) (m : NetObj) (hprop : b.HasProp p)
      (hread : bAcc c p.objId p.security 0x00 = 0) (hmember : b.obj m.id = some m)
      (habsent : propFindMember c b p.objId p.id p.security m.id = -0xea) :
      Effect c b (.addToSet type name propName memberType memberName)
        (propAddMember c b p.objId p.id p.security m.id).2
  | memberDeleted (type : UInt16) (name : CText 48) (propName : CText 16) (memberType : UInt16)
      (memberName : CText 48) (p : NetProp) (m : NetObj) (hprop : b.HasProp p)
      (hread : bAcc c p.objId p.security 0x00 = 0) (hmember : b.obj m.id = some m) :
      Effect c b (.deleteFromSet type name propName memberType memberName)
        (propDeleteMember c b p.objId p.id p.security m.id).2

/-- The requests that write object records. -/
def BindRequest.writesObjects : BindRequest → Bool
  | .createObj .. | .deleteObj .. | .renameObj .. | .changeObjSecurity .. => true
  | _ => false

/-- Every other request leaves the objects and the index alone. -/
theorem Effect.sameObjects {c : Caller} {b b' : Bindery F} {r : BindRequest}
    (heff : Effect c b r b') (hr : r.writesObjects = false) : SameObjects b b' := by
  cases heff with
  | none => exact .refl b
  | objCreated => cases hr
  | objDeleted => cases hr
  | objRenamed => cases hr
  | objSecured => cases hr
  | propCreated type name o d => exact nwCreateObjProp_objects b o.id d
  | propDeleted type name objId propName => exact locDeleteProperty_objects c b objId propName false
  | propSecured type name objId propName security =>
      exact locChangePropSecurity_objects c b objId propName security
  | valueWritten type name propName p segment value erase =>
      exact insPropVal_objects c b p.objId p segment value erase
  | memberAdded type name propName memberType memberName p m =>
      exact propAddMember_objects c b p.objId p.id p.security m.id
  | memberDeleted type name propName memberType memberName p m =>
      exact propDeleteMember_objects c b p.objId p.id p.security m.id

/-! ## The lookups of a property and a member -/

theorem findObjProp_cases (c : Caller) (b : Bindery F) (type : UInt16) (name : CText 48)
    (propName : CText 16) :
    (∃ e b', findObjProp c b type name propName = (.error e, b') ∧ Looked b b' ∧
      (e = -0xfc ∨ e = -0xfb)) ∨
    (∃ p b' o, findObjProp c b type name propName = (.ok p, b') ∧ Looked b b' ∧
      findObjId b type name = (.ok o, b') ∧ findPropId c b' o.id propName 0 = .ok p) := by
  unfold findObjProp
  rcases hfind : findObjId b type name with ⟨r, b'⟩
  cases r with
  | error e =>
      exact .inl ⟨e, b', rfl, .of_find hfind, .inl (findObjId_error hfind).1⟩
  | ok o =>
      dsimp only
      cases hprop : findPropId c b' o.id propName 0 with
      | error e => exact .inl ⟨e, b', rfl, .of_find hfind, .inr (findPropId_error hprop)⟩
      | ok p => exact .inr ⟨p, b', o, rfl, .of_find hfind, rfl, hprop⟩

theorem findObjPropMember_cases (c : Caller) (b : Bindery F) (type : UInt16) (name : CText 48)
    (propName : CText 16) (memberType : UInt16) (memberName : CText 48) :
    (∃ e b', findObjPropMember c b type name propName memberType memberName = (.error e, b') ∧
      Looked b b' ∧ (e = -0xfc ∨ e = -0xfb)) ∨
    (∃ p m b' b'', findObjPropMember c b type name propName memberType memberName =
        (.ok (p, m.id), b'') ∧ findObjProp c b type name propName = (.ok p, b') ∧
      findObjId b' memberType memberName = (.ok m, b'') ∧ Looked b b'' ∧
      b''.HasProp p ∧ bAcc c p.objId p.security 0x00 = 0 ∧ b''.obj m.id = some m) := by
  unfold findObjPropMember
  rcases findObjProp_cases c b type name propName with
    ⟨e, b', heq, hlook, he⟩ | ⟨p, b', o, heq, hlook, hobj, hprop⟩
  · rw [heq]
    exact .inl ⟨e, b', rfl, hlook, he⟩
  · rw [heq]
    dsimp only
    rcases hfind : findObjId b' memberType memberName with ⟨r, b''⟩
    cases r with
    | error e =>
        exact .inl ⟨e, b'', rfl, hlook.trans (.of_find hfind), .inl (findObjId_error hfind).1⟩
    | ok m =>
        obtain ⟨hhas, hid, -, hread⟩ := findPropId_ok hprop
        have hsame := (Looked.of_find hfind).sameData
        refine .inr ⟨p, m, b', b'', rfl, rfl, hfind, hlook.trans (.of_find hfind), ?_, ?_,
          findObjId_obj hfind⟩
        · rw [Bindery.HasProp, hsame.nwprop]
          exact hhas
        · rw [hid]
          exact hread

/-! ## The inversion -/

theorem nwCreateObj_cases (c : Caller) (b : Bindery F) (d : ObjData) (wantedId : UInt32) :
    (nwCreateObj c b d wantedId = none ∧ bAcc c 0 0x33 0x02 = 0) ∨
    (∃ code id, nwCreateObj c b d wantedId = some (code, id, b) ∧ code < 0) ∨
    (∃ id, nwCreateObj c b d wantedId =
        some (0, id, handleIobjWrite { b with nwobj := store b.nwobj id d } ⟨d, id⟩) ∧
      fetch b.nwobj id = none ∧
      ∀ o, b.obj o.id = some o → ¬ (o.name = d.name ∧ o.type = d.type)) := by
  unfold nwCreateObj
  by_cases hright : bAcc c 0 0x33 0x02 = 0
  · rw [if_neg (not_not.mpr hright)]
    split
    next id _ hfind => exact .inr (.inl ⟨-0xee, id, rfl, by decide⟩)
    next hfind =>
      dsimp only
      generalize (if wantedId ≠ 0 then wantedId - 1 else (d.type.toUInt32 <<< 16) + 1) = start
      cases hnext : nextFreeId b.nwobj ((keys b.nwobj).length + 1) start with
      | none => exact .inl ⟨rfl, hright⟩
      | some id =>
          refine .inr (.inr ⟨id, rfl, nextFreeId_free hnext, ?_⟩)
          rintro o hobj ⟨hname, htype⟩
          have hnot := walk_find?_eq_none.mp hfind o.id o.toObjData (Bindery.obj_eq_some.mp hobj).1
          simp [hname, htype] at hnot
  · rw [if_pos hright]
    exact .inr (.inl ⟨_, 0, rfl, bAcc_ne_zero hright ▸ accErr_neg 0x02⟩)

theorem handleBindRequest_createObj (c : Caller) (b : Bindery F) (flags security : UInt8)
    (type : UInt16) (name : CText 48) :
    Effect c b (.createObj flags security type name)
      (handleBindRequest c b (.createObj flags security type name)).2 := by
  rcases nwCreateObj_cases c b ⟨name, type, flags, security⟩ 0 with
    ⟨heq, -⟩ | ⟨code, id, heq, -⟩ | ⟨id, heq, hfree, hnew⟩ <;>
    simp only [handleBindRequest, heq]
  · exact .none
  · exact .none
  · exact .objCreated flags security type name id hfree hnew

theorem nwRenameObj_ok {c : Caller} {b b' : Bindery F} {type : UInt16} {name newname : CText 48}
    {o : NetObj} (hfind : findObjId b type name = (.ok o, b')) (hright : bAcc c 0 0x33 0x04 = 0) :
    nwRenameObj c b type name newname =
      (0, handleIobjWrite { handleIobjDelete b' o with
        nwobj := store b'.nwobj o.id { o.toObjData with name := newname } }
        { o with name := newname }) := by
  have hobj : b'.obj o.id = some o := findObjId_obj hfind
  have hkeep : (handleIobjDelete b' o).obj o.id = some o := hobj
  unfold nwRenameObj
  rw [hfind]
  dsimp only
  rw [if_neg (not_not.mpr hright), hkeep]
  rfl

theorem nwChangeObjSecurity_ok {c : Caller} {b b' : Bindery F} {type : UInt16} {name : CText 48}
    {security : UInt8} {o : NetObj} (hfind : findObjId b type name = (.ok o, b'))
    (hright : bAcc c o.id o.security 0x05 = 0) :
    nwChangeObjSecurity c b type name security =
      (0, { b' with nwobj := store b'.nwobj o.id { o.toObjData with security := security } }) := by
  have hobj : b'.obj o.id = some o := findObjId_obj hfind
  unfold nwChangeObjSecurity
  rw [hfind]
  dsimp only
  rw [if_neg (not_not.mpr hright), hobj]

/-! ## The requests -/

section

variable (c : Caller) (b : Bindery F)

/-- A request looks objects up and then has one of the effects. -/
def LooksThenWrites (r : BindRequest) : Prop :=
  ∃ b', Looked b b' ∧ Effect c b' r (handleBindRequest c b r).2

variable (type : UInt16) (name : CText 48)

theorem deleteObj_effect : LooksThenWrites c b (.deleteObj type name) := by
  rcases hfind : findObjId b type name with ⟨r, b'⟩
  refine ⟨b', .of_find hfind, ?_⟩
  simp only [handleBindRequest, nwDeleteObj, hfind]
  cases r with
  | error e => exact .none
  | ok o =>
      by_cases hright : bAcc c o.id 0x33 0x03 = 0
      · exact .objDeleted type name o (findObjId_obj hfind) hright
      · simp only [locDeleteObj, if_pos hright]
        exact .none

theorem renameObj_effect (newname : CText 48) :
    LooksThenWrites c b (.renameObj type name newname) := by
  by_cases hsuper : c.isSupervisor
  · rcases hfind : findObjId b type name with ⟨r, b'⟩
    refine ⟨b', .of_find hfind, ?_⟩
    simp only [handleBindRequest, if_pos hsuper]
    cases r with
    | error e =>
        simp only [nwRenameObj, hfind]
        exact .none
    | ok o =>
        by_cases hright : bAcc c 0 0x33 0x04 = 0
        · rw [nwRenameObj_ok hfind hright]
          exact .objRenamed type name newname o (findObjId_obj hfind) hright
        · simp only [nwRenameObj, hfind, if_pos hright]
          exact .none
  · refine ⟨b, .refl, ?_⟩
    simp only [handleBindRequest, if_neg hsuper]
    exact .none

theorem changeObjSecurity_effect (security : UInt8) :
    LooksThenWrites c b (.changeObjSecurity security type name) := by
  by_cases hsuper : c.isSupervisor
  · rcases hfind : findObjId b type name with ⟨r, b'⟩
    refine ⟨b', .of_find hfind, ?_⟩
    simp only [handleBindRequest, if_pos hsuper]
    cases r with
    | error e =>
        simp only [nwChangeObjSecurity, hfind]
        exact .none
    | ok o =>
        by_cases hright : bAcc c o.id o.security 0x05 = 0
        · rw [nwChangeObjSecurity_ok hfind hright]
          exact .objSecured type name o security (findObjId_obj hfind)
        · simp only [nwChangeObjSecurity, hfind, if_pos hright]
          exact .none
  · refine ⟨b, .refl, ?_⟩
    simp only [handleBindRequest, if_neg hsuper]
    exact .none

theorem createProp_effect (prop : PropData) : LooksThenWrites c b (.createProp type name prop) := by
  rcases hfind : findObjId b type name with ⟨r, b'⟩
  refine ⟨b', .of_find hfind, ?_⟩
  simp only [handleBindRequest, nwCreateProp, hfind]
  cases r with
  | error e => exact .none
  | ok o =>
      by_cases hright : bAcc c o.id o.security 0x12 = 0
      · simp only [if_neg (not_not.mpr hright)]
        exact .propCreated type name o prop (findObjId_obj hfind) hright
      · simp only [if_pos hright]
        exact .none

theorem deleteProp_effect (propName : CText 16) :
    LooksThenWrites c b (.deleteProp type name propName) := by
  rcases hfind : findObjId b type name with ⟨r, b'⟩
  refine ⟨b', .of_find hfind, ?_⟩
  simp only [handleBindRequest, nwDeleteProperty, hfind]
  cases r with
  | error e => exact .none
  | ok o => exact .propDeleted type name o.id propName

theorem changePropSecurity_effect (security : UInt8) (propName : CText 16) :
    LooksThenWrites c b (.changePropSecurity type name security propName) := by
  rcases hfind : findObjId b type name with ⟨r, b'⟩
  refine ⟨b', .of_find hfind, ?_⟩
  simp only [handleBindRequest, nwChangePropSecurity, hfind]
  cases r with
  | error e => exact .none
  | ok o => exact .propSecured type name o.id propName security

theorem scanProp_effect (last : UInt32) (propName : CText 16) :
    LooksThenWrites c b (.scanProp type name last propName) := by
  rcases hfind : findObjId b type name with ⟨r, b'⟩
  refine ⟨b', .of_find hfind, ?_⟩
  simp only [handleBindRequest, nwScanProperty, hfind]
  cases r with
  | error e => exact .none
  | ok o =>
      dsimp only
      split <;> exact .none

theorem getPropVal_effect (segment : UInt8) (propName : CText 16) :
    LooksThenWrites c b (.getPropVal type name segment propName) := by
  rcases hfind : findObjId b type name with ⟨r, b'⟩
  refine ⟨b', .of_find hfind, ?_⟩
  simp only [handleBindRequest, nwGetPropVal, hfind]
  cases r <;> exact .none

theorem writePropVal_effect (segment erase : UInt8) (propName : CText 16) (value : Value) :
    LooksThenWrites c b (.writePropVal type name segment erase propName value) := by
  rcases findObjProp_cases c b type name propName with
    ⟨e, b', heq, hlook, -⟩ | ⟨p, b', o, heq, hlook, -, hprop⟩ <;>
    refine ⟨b', hlook, ?_⟩ <;> simp only [handleBindRequest, nwWritePropValue, heq]
  · exact .none
  · obtain ⟨hhas, hid, -, hread⟩ := findPropId_ok hprop
    exact .valueWritten type name propName p segment value erase hhas (hid ▸ hread)

variable (propName : CText 16) (memberType : UInt16) (memberName : CText 48)

theorem addToSet_effect :
    LooksThenWrites c b (.addToSet type name propName memberType memberName) := by
  rcases findObjPropMember_cases c b type name propName memberType memberName with
    ⟨e, b', heq, hlook, -⟩ | ⟨p, m, -, b', heq, -, -, hlook, hhas, hread, hmember⟩ <;>
    refine ⟨b', hlook, ?_⟩ <;> simp only [handleBindRequest, nwAddObjToSet, heq]
  · exact .none
  · split
    next habsent =>
      exact .memberAdded type name propName memberType memberName p m hhas hread hmember habsent
    next => split <;> exact .none

theorem deleteFromSet_effect :
    LooksThenWrites c b (.deleteFromSet type name propName memberType memberName) := by
  rcases findObjPropMember_cases c b type name propName memberType memberName with
    ⟨e, b', heq, hlook, -⟩ | ⟨p, m, -, b', heq, -, -, hlook, hhas, hread, hmember⟩ <;>
    refine ⟨b', hlook, ?_⟩ <;> simp only [handleBindRequest, nwDeleteObjFromSet, heq]
  · exact .none
  · exact .memberDeleted type name propName memberType memberName p m hhas hread hmember

theorem isInSet_effect :
    LooksThenWrites c b (.isInSet type name propName memberType memberName) := by
  rcases findObjPropMember_cases c b type name propName memberType memberName with
    ⟨e, b', heq, hlook, -⟩ | ⟨p, m, -, b', heq, -, -, hlook, -⟩ <;>
    refine ⟨b', hlook, ?_⟩ <;> simp only [handleBindRequest, nwIsObjInSet, heq] <;> exact .none

end

/-- Every request looks objects up and then has one of the effects. -/
theorem handleBindRequest_effect (c : Caller) (b : Bindery F) (r : BindRequest) :
    ∃ b', Looked b b' ∧ Effect c b' r (handleBindRequest c b r).2 := by
  cases r with
  | createObj flags security type name =>
      exact ⟨b, .refl, handleBindRequest_createObj c b flags security type name⟩
  | deleteObj type name => exact deleteObj_effect c b type name
  | renameObj type name newname => exact renameObj_effect c b type name newname
  | getObjId type name => exact ⟨_, .find type (upstr name) .refl, .none⟩
  | getObjName id => exact ⟨b, .refl, .none⟩
  | scanObj last type name => exact ⟨b, .refl, .none⟩
  | changeObjSecurity security type name => exact changeObjSecurity_effect c b type name security
  | createProp type name prop => exact createProp_effect c b type name prop
  | deleteProp type name propName => exact deleteProp_effect c b type name propName
  | changePropSecurity type name security propName =>
      exact changePropSecurity_effect c b type name security propName
  | scanProp type name last propName => exact scanProp_effect c b type name last propName
  | getPropVal type name segment propName => exact getPropVal_effect c b type name segment propName
  | writePropVal type name segment erase propName value =>
      exact writePropVal_effect c b type name segment erase propName value
  | addToSet type name propName memberType memberName =>
      exact addToSet_effect c b type name propName memberType memberName
  | deleteFromSet type name propName memberType memberName =>
      exact deleteFromSet_effect c b type name propName memberType memberName
  | isInSet type name propName memberType memberName =>
      exact isInSet_effect c b type name propName memberType memberName
  | accessLevel =>
      refine ⟨b, .refl, ?_⟩
      simp only [handleBindRequest]
      split <;> exact .none
  | objAccessLevel id => exact ⟨b, .refl, .none⟩

/-- An invariant of all runs: lookups keep it, and so does every effect. -/
theorem handleBindRequest_preserves {P : Bindery F → Prop}
    (hfind : ∀ b type name, P b → P (findObjId b type name).2)
    (heffect : ∀ c b r b', P b → Effect c b r b' → P b') (c : Caller) (b : Bindery F)
    (r : BindRequest) (hb : P b) : P (handleBindRequest c b r).2 := by
  obtain ⟨b', hlook, heff⟩ := handleBindRequest_effect c b r
  exact heffect c b' r _ (hlook.preserves hfind hb) heff

end MarsNwe
