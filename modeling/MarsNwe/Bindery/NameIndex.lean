import MarsNwe.Bindery.Steps

/-! # Object names and the name index

In every bindery reached by requests the index leads from a name only to the
object that bears it. Object names stay unique as long as no object is renamed
onto a name in use, which `nw_rename_obj`, unlike `nw_create_obj`, does not
check.
-/

namespace MarsNwe

open KeyedFile

variable {F : Type → Type → Type} [KeyedFile F]

/-- No two object records have the same type and name. -/
def NamesUnique (b : Bindery F) : Prop :=
  ∀ o o', b.obj o.id = some o → b.obj o'.id = some o' →
    o.name = o'.name → o.type = o'.type → o.id = o'.id

/-- The index maps a name only to the object record with that type and name. -/
def IndexSound (b : Bindery F) : Prop :=
  ∀ name type id, fetch b.nwiobj (name, type) = some id →
    ∃ o, b.obj id = some o ∧ o.name = name ∧ o.type = type

/-- Every object is found under its name in the index. -/
def IndexComplete (b : Bindery F) : Prop :=
  ∀ o, b.obj o.id = some o → fetch b.nwiobj (o.name, o.type) = some o.id

/-- The object file and the index describe the same one-to-one naming. -/
structure NamesIndexed (b : Bindery F) : Prop where
  unique : NamesUnique b
  sound : IndexSound b
  complete : IndexComplete b

/-- A lookup that succeeds exactly when an object of that type and name exists,
and then returns its record. -/
def FindsExactly (b : Bindery F) (type : UInt16) (name : CText 48) : Prop :=
  match (findObjId b type name).1 with
  | .ok o => b.obj o.id = some o ∧ o.name = name ∧ o.type = type
  | .error _ => ∀ o, b.obj o.id = some o → ¬ (o.name = name ∧ o.type = type)

theorem namesIndexed_empty : NamesIndexed (Bindery.empty : Bindery F) where
  unique o o' h := by simp [Bindery.obj, Bindery.empty] at h
  sound name type id h := by simp [Bindery.empty] at h
  complete o h := by simp [Bindery.obj, Bindery.empty] at h

theorem IndexSound.sameObjects {b b' : Bindery F} (hsame : SameObjects b b')
    (h : IndexSound b) : IndexSound b' := by
  intro name type id
  rw [hsame.nwiobj, hsame.obj]
  exact h name type id

/-- The naming only depends on the object file and the index. -/
theorem NamesIndexed.sameObjects {b b' : Bindery F} (hsame : SameObjects b b')
    (h : NamesIndexed b) : NamesIndexed b' := by
  refine ⟨?_, h.sound.sameObjects hsame, ?_⟩
  · intro o o'
    rw [hsame.obj, hsame.obj]
    exact h.unique o o'
  · intro o
    rw [hsame.nwiobj, hsame.obj]
    exact h.complete o

/-- An index entry may be written for any stored object. -/
theorem IndexSound.write {b : Bindery F} (h : IndexSound b) {o : NetObj}
    (hobj : b.obj o.id = some o) : IndexSound (handleIobjWrite b o) := by
  intro name type id hfetch
  simp only [handleIobjWrite, fetch_store] at hfetch
  split at hfetch
  next hkey =>
    cases hfetch
    cases hkey
    exact ⟨o, hobj, rfl, rfl⟩
  next => exact h name type id hfetch

theorem IndexSound.find {b : Bindery F} (h : IndexSound b) (type : UInt16) (name : CText 48) :
    IndexSound (findObjId b type name).2 := by
  rcases findObjId_cases b type name with ⟨-, -, heq⟩ | ⟨o, -, heq⟩ | ⟨o, -, hscan, heq⟩ <;>
    rw [heq]
  · exact h
  · exact h
  · exact h.write (scanForObj_ok hscan).1

theorem NamesIndexed.find {b : Bindery F} (h : NamesIndexed b) (type : UInt16)
    (name : CText 48) : NamesIndexed (findObjId b type name).2 := by
  refine ⟨?_, h.sound.find type name, ?_⟩ <;>
    rcases findObjId_cases b type name with ⟨-, -, heq⟩ | ⟨o, -, heq⟩ | ⟨o, -, hscan, heq⟩ <;>
    rw [heq]
  · exact h.unique
  · exact h.unique
  · exact h.unique
  · exact h.complete
  · exact h.complete
  · intro o' hobj'
    simp only [handleIobjWrite, fetch_store]
    split
    next hkey =>
      rw [Prod.mk.injEq] at hkey
      rw [h.unique o' o hobj' (scanForObj_ok hscan).1 hkey.1 hkey.2]
    next => exact h.complete o' hobj'

/-! ## The effect of the operations on the naming -/

/-- Deleting an existing object, written out file by file. -/
theorem locDeleteObj_ok {c : Caller} {b : Bindery F} {o : NetObj} (hobj : b.obj o.id = some o)
    (hright : bAcc c o.id 0x33 0x03 = 0) :
    locDeleteObj c b o.id = (0,
      { nwobj := delete b.nwobj o.id
        nwiobj := delete b.nwiobj (o.name, o.type)
        nwprop := (locDeleteProperty c b o.id anyName true).2.nwprop
        nwval := dropMember (locDeleteProperty c b o.id anyName true).2.nwval o.id
          ((setProps (locDeleteProperty c b o.id anyName true).2).take locMaxObjs) }) := by
  obtain ⟨hkeep, hindex⟩ := locDeleteProperty_objects c b o.id anyName true
  have hobj' : Bindery.obj { (locDeleteProperty c b o.id anyName true).2 with
      nwval := dropMember (locDeleteProperty c b o.id anyName true).2.nwval o.id
        ((setProps (locDeleteProperty c b o.id anyName true).2).take locMaxObjs) } o.id =
      some o := by
    rw [← hobj, Bindery.obj, Bindery.obj, hkeep]
  unfold locDeleteObj
  rw [if_neg (not_not.mpr hright)]
  dsimp only
  rw [hobj']
  simp only [handleIobjDelete, hkeep, hindex]

theorem obj_store {b : Bindery F} {id id' : UInt32} {d : ObjData} {f : F IndexKey UInt32} :
    Bindery.obj { b with nwobj := store b.nwobj id d, nwiobj := f } id' =
      if id' = id then some ⟨d, id⟩ else b.obj id' := by
  simp only [Bindery.obj, fetch_store]
  split
  next heq => rw [heq, Option.map_some]
  next => rfl

theorem obj_created {b : Bindery F} {d : ObjData} {id : UInt32} (id' : UInt32) :
    (handleIobjWrite { b with nwobj := store b.nwobj id d } ⟨d, id⟩).obj id' =
      if id' = id then some ⟨d, id⟩ else b.obj id' :=
  obj_store

theorem IndexSound.objCreated {b : Bindery F} (h : IndexSound b) {d : ObjData} {id : UInt32}
    (hfree : fetch b.nwobj id = none) :
    IndexSound (handleIobjWrite { b with nwobj := store b.nwobj id d } ⟨d, id⟩) := by
  intro name type id' hfetch
  simp only [handleIobjWrite, fetch_store] at hfetch
  rw [obj_created]
  split at hfetch
  next hkey =>
    cases hfetch
    cases hkey
    exact ⟨⟨d, id⟩, if_pos rfl, rfl, rfl⟩
  next =>
    obtain ⟨o, ho, hkey⟩ := h name type id' hfetch
    have hne : id' ≠ id := by
      rintro rfl
      rw [Bindery.obj, hfree] at ho
      contradiction
    exact ⟨o, by rw [if_neg hne]; exact ho, hkey⟩

theorem NamesIndexed.objCreated {b : Bindery F} (h : NamesIndexed b) {d : ObjData} {id : UInt32}
    (hfree : fetch b.nwobj id = none)
    (hnew : ∀ o, b.obj o.id = some o → ¬ (o.name = d.name ∧ o.type = d.type)) :
    NamesIndexed (handleIobjWrite { b with nwobj := store b.nwobj id d } ⟨d, id⟩) := by
  refine ⟨?_, h.sound.objCreated hfree, ?_⟩
  · intro o o' ho ho' hname htype
    rw [obj_created] at ho ho'
    split at ho <;> split at ho'
    next hid hid' => rw [hid, hid']
    next hid hid' =>
      cases ho
      exact absurd ⟨hname.symm, htype.symm⟩ (hnew o' ho')
    next hid hid' =>
      cases ho'
      exact absurd ⟨hname, htype⟩ (hnew o ho)
    next => exact h.unique o o' ho ho' hname htype
  · intro o ho
    rw [obj_created] at ho
    simp only [handleIobjWrite, fetch_store]
    split at ho
    next hid =>
      cases ho
      rw [if_pos rfl]
    next hid =>
      rw [if_neg fun hkey => hnew o ho (Prod.mk.inj hkey)]
      exact h.complete o ho

theorem obj_deleted {b b' : Bindery F} {o : NetObj} (hfile : b'.nwobj = delete b.nwobj o.id)
    (o' : NetObj) : b'.obj o'.id = some o' ↔ o'.id ≠ o.id ∧ b.obj o'.id = some o' := by
  simp only [Bindery.obj_eq_some, hfile, fetch_delete_eq_some, and_assoc]

theorem IndexSound.objDeleted {b b' : Bindery F} (h : IndexSound b) {o : NetObj}
    (hobj : b.obj o.id = some o) (hfile : b'.nwobj = delete b.nwobj o.id)
    (hindex : b'.nwiobj = delete b.nwiobj (o.name, o.type)) : IndexSound b' := by
  intro name type id hfetch
  rw [hindex, fetch_delete_eq_some] at hfetch
  obtain ⟨o', hobj', hname, htype⟩ := h name type id hfetch.2
  obtain rfl := (Bindery.obj_eq_some.mp hobj').2
  refine ⟨o', (obj_deleted hfile o').mpr ⟨fun hid => hfetch.1 ?_, hobj'⟩, hname, htype⟩
  rw [hid, hobj] at hobj'
  cases hobj'
  rw [hname, htype]

theorem NamesIndexed.objDeleted {b b' : Bindery F} (h : NamesIndexed b) {o : NetObj}
    (hobj : b.obj o.id = some o) (hfile : b'.nwobj = delete b.nwobj o.id)
    (hindex : b'.nwiobj = delete b.nwiobj (o.name, o.type)) : NamesIndexed b' := by
  refine ⟨?_, h.sound.objDeleted hobj hfile hindex, ?_⟩
  · intro o₁ o₂ h₁ h₂
    exact h.unique o₁ o₂ ((obj_deleted hfile o₁).mp h₁).2 ((obj_deleted hfile o₂).mp h₂).2
  · intro o' ho'
    obtain ⟨hid, hobj'⟩ := (obj_deleted hfile o').mp ho'
    rw [hindex, fetch_delete_of_ne]
    · exact h.complete o' hobj'
    · intro hkey
      rw [Prod.mk.injEq] at hkey
      exact hid (h.unique o' o hobj' hobj hkey.1 hkey.2)

/-- The bindery after `nw_rename_obj` has renamed the object `o`. -/
abbrev renamed (b : Bindery F) (o : NetObj) (newname : CText 48) : Bindery F :=
  handleIobjWrite { handleIobjDelete b o with
    nwobj := store b.nwobj o.id { o.toObjData with name := newname } } { o with name := newname }

theorem obj_renamed {b : Bindery F} {o : NetObj} {newname : CText 48} (id : UInt32) :
    (renamed b o newname).obj id =
      if id = o.id then some { o with name := newname } else b.obj id :=
  obj_store

theorem IndexSound.objRenamed {b : Bindery F} (h : IndexSound b) {o : NetObj}
    {newname : CText 48} (hobj : b.obj o.id = some o) : IndexSound (renamed b o newname) := by
  intro name type id hfetch
  simp only [handleIobjWrite, handleIobjDelete, fetch_store, fetch_delete] at hfetch
  rw [obj_renamed]
  split at hfetch
  next hkey =>
    cases hfetch
    cases hkey
    exact ⟨{ o with name := newname }, if_pos rfl, rfl, rfl⟩
  next =>
    split at hfetch
    next => cases hfetch
    next hkey =>
      obtain ⟨o', hobj', hname, htype⟩ := h name type id hfetch
      have hne : id ≠ o.id := by
        rintro rfl
        rw [hobj] at hobj'
        cases hobj'
        exact hkey (by rw [hname, htype])
      exact ⟨o', by rw [if_neg hne]; exact hobj', hname, htype⟩

theorem NamesIndexed.objRenamed {b : Bindery F} (h : NamesIndexed b) {o : NetObj}
    {newname : CText 48} (hobj : b.obj o.id = some o)
    (hunused : ∀ o', b.obj o'.id = some o' → o'.name = newname → o'.type = o.type →
      o'.id = o.id) : NamesIndexed (renamed b o newname) := by
  refine ⟨?_, h.sound.objRenamed hobj, ?_⟩
  · intro o₁ o₂ h₁ h₂ hname htype
    rw [obj_renamed] at h₁ h₂
    split at h₁ <;> split at h₂
    next hid hid' => rw [hid, hid']
    next hid hid' =>
      cases h₁
      exact (hunused o₂ h₂ hname.symm htype.symm).symm
    next hid hid' =>
      cases h₂
      exact hunused o₁ h₁ hname htype
    next => exact h.unique o₁ o₂ h₁ h₂ hname htype
  · intro o' ho'
    rw [obj_renamed] at ho'
    simp only [handleIobjWrite, handleIobjDelete, fetch_store, fetch_delete]
    split at ho'
    next =>
      cases ho'
      rw [if_pos rfl]
    next hid =>
      rw [if_neg, if_neg]
      · exact h.complete o' ho'
      · intro hkey
        rw [Prod.mk.injEq] at hkey
        exact hid (h.unique o' o ho' hobj hkey.1 hkey.2)
      · intro hkey
        rw [Prod.mk.injEq] at hkey
        exact hid (hunused o' ho' hkey.1 hkey.2)

/-- The object records `nw_change_obj_security` leaves differ in their security only. -/
theorem obj_secured {b : Bindery F} {o : NetObj} {security : UInt8} (hobj : b.obj o.id = some o)
    {o' : NetObj} (ho' : Bindery.obj { b with
      nwobj := store b.nwobj o.id { o.toObjData with security := security } } o'.id = some o') :
    ∃ o'', b.obj o'.id = some o'' ∧ o''.id = o'.id ∧ o''.name = o'.name ∧ o''.type = o'.type := by
  rw [obj_store] at ho'
  split at ho'
  next hid =>
    cases ho'
    exact ⟨o, hobj, rfl, rfl, rfl⟩
  next => exact ⟨o', ho', rfl, rfl, rfl⟩

theorem IndexSound.objSecured {b : Bindery F} (h : IndexSound b) {o : NetObj}
    {security : UInt8} (hobj : b.obj o.id = some o) : IndexSound { b with
      nwobj := store b.nwobj o.id { o.toObjData with security := security } } := by
  intro name type id hfetch
  obtain ⟨o', hobj', hkey⟩ := h name type id hfetch
  rw [obj_store]
  split
  next hid =>
    rw [hid, hobj] at hobj'
    cases hobj'
    exact ⟨_, rfl, hkey⟩
  next => exact ⟨o', hobj', hkey⟩

theorem NamesIndexed.objSecured {b : Bindery F} (h : NamesIndexed b) {o : NetObj}
    {security : UInt8} (hobj : b.obj o.id = some o) : NamesIndexed { b with
      nwobj := store b.nwobj o.id { o.toObjData with security := security } } := by
  refine ⟨?_, h.sound.objSecured hobj, ?_⟩
  · intro o₁ o₂ h₁ h₂ hname htype
    obtain ⟨o₁', h₁', hid₁, hname₁, htype₁⟩ := obj_secured hobj h₁
    obtain ⟨o₂', h₂', hid₂, hname₂, htype₂⟩ := obj_secured hobj h₂
    rw [← hid₁, ← hid₂]
    exact h.unique o₁' o₂' (hid₁ ▸ h₁') (hid₂ ▸ h₂') (by rw [hname₁, hname₂, hname])
      (by rw [htype₁, htype₂, htype])
  · intro o' ho'
    obtain ⟨o'', ho'', hid, hname, htype⟩ := obj_secured hobj ho'
    rw [← hid, ← hname, ← htype]
    exact h.complete o'' (hid ▸ ho'')

/-! ## Whole runs -/

/-- The rename that `nw_rename_obj` does not refuse: the object it finds gets a
name that another object of its type bears. -/
def RenamesOnto (c : Caller) (b : Bindery F) : BindRequest → Prop
  | .renameObj type name newname =>
      c.isSupervisor = true ∧ ∃ o o', (findObjId b type name).1 = .ok o ∧
        b.obj o'.id = some o' ∧ o'.id ≠ o.id ∧ o'.name = newname ∧ o'.type = o.type
  | _ => False

/-- The lookup under type `MAX_U16`, which `scan_for_obj` takes for any type,
of a name that only objects of other types bear. -/
def BorneByOtherTypes (b : Bindery F) (type : UInt16) (name : CText 48) : Prop :=
  type = 0xffff ∧ (∃ o, b.obj o.id = some o ∧ o.name = name) ∧
    ∀ o, b.obj o.id = some o → o.name = name → o.type ≠ type

theorem Caller.isSupervisor_rename {c : Caller} (h : c.isSupervisor = true) :
    bAcc c 0 0x33 0x04 = 0 := by
  have hlevel : level 0x33 0x04 = 3 := by decide
  simp [granted, hlevel, h]

/-- A rename request that succeeds, and the object it found. -/
theorem handleBindRequest_renameObj {c : Caller} (hc : c.isSupervisor = true) {b b' : Bindery F}
    {type : UInt16} {name newname : CText 48} {o : NetObj}
    (hfind : findObjId b type name = (.ok o, b')) :
    (handleBindRequest c b (.renameObj type name newname)).2 = renamed b' o newname := by
  simp only [handleBindRequest, if_pos hc, nwRenameObj_ok hfind (Caller.isSupervisor_rename hc)]
  rfl

theorem NamesIndexed.looked {b b' : Bindery F} (h : NamesIndexed b) (hlook : Looked b b') :
    NamesIndexed b' :=
  hlook.preserves (fun _ type name h => h.find type name) h

/-- Every effect keeps the naming; a rename only if the new name is not in use. -/
theorem NamesIndexed.effect {c : Caller} {b b' : Bindery F} {r : BindRequest}
    (h : NamesIndexed b) (heff : Effect c b r b')
    (hrename : ∀ type name newname, r ≠ .renameObj type name newname) : NamesIndexed b' := by
  have hsame := heff.sameObjects
  cases heff with
  | none => exact h
  | objCreated flags security type name id hfree hnew => exact h.objCreated hfree hnew
  | objDeleted type name o hobj hright =>
      rw [locDeleteObj_ok hobj hright]
      exact h.objDeleted hobj rfl rfl
  | objRenamed type name newname => exact absurd rfl (hrename type name newname)
  | objSecured type name o security hobj => exact h.objSecured hobj
  | _ => exact h.sameObjects (hsame rfl)

/-- The index stays sound in every run. -/
theorem IndexSound.effect {c : Caller} {b b' : Bindery F} {r : BindRequest} (h : IndexSound b)
    (heff : Effect c b r b') : IndexSound b' := by
  have hsame := heff.sameObjects
  cases heff with
  | none => exact h
  | objCreated flags security type name id hfree => exact h.objCreated hfree
  | objDeleted type name o hobj hright =>
      rw [locDeleteObj_ok hobj hright]
      exact h.objDeleted hobj rfl rfl
  | objRenamed type name newname o hobj => exact h.objRenamed hobj
  | objSecured type name o security hobj => exact h.objSecured hobj
  | _ => exact h.sameObjects (hsame rfl)

theorem indexSound_exec (rs : List (Caller × BindRequest)) :
    IndexSound (binderyMachine.exec (Bindery.empty : Bindery F) rs) :=
  binderyMachine.exec_preserves
    (fun b r => handleBindRequest_preserves (fun _ type name h => h.find type name)
      (fun _ _ _ _ h heff => h.effect heff) r.1 b r.2)
    rs namesIndexed_empty.sound

/-- One request keeps the naming unless it renames an object onto a name in use. -/
theorem NamesIndexed.step {c : Caller} {b : Bindery F} {r : BindRequest} (h : NamesIndexed b)
    (hok : ¬ RenamesOnto c b r) : NamesIndexed (handleBindRequest c b r).2 := by
  by_cases hrename : ∃ type name newname, r = .renameObj type name newname
  · obtain ⟨type, name, newname, rfl⟩ := hrename
    by_cases hsuper : c.isSupervisor = true
    · rcases hfind : findObjId b type name with ⟨res, b'⟩
      have hlook := Looked.of_find hfind
      cases res with
      | error e =>
          simp only [handleBindRequest, if_pos hsuper, nwRenameObj, hfind]
          exact h.looked hlook
      | ok o =>
          rw [handleBindRequest_renameObj hsuper hfind]
          refine (h.looked hlook).objRenamed (findObjId_obj hfind) fun o' hobj' hname htype => ?_
          rw [hlook.sameData.obj] at hobj'
          by_contra hid
          exact hok ⟨hsuper, o, o', by rw [hfind], hobj', hid, hname, htype⟩
    · simp only [handleBindRequest, if_neg hsuper]
      exact h
  · obtain ⟨b', hlook, heff⟩ := handleBindRequest_effect c b r
    exact (h.looked hlook).effect heff fun type name newname heq =>
      hrename ⟨type, name, newname, heq⟩

/-- A rename onto a name in use leaves two objects with one name. -/
theorem RenamesOnto.not_unique {c : Caller} {b : Bindery F} {r : BindRequest}
    (h : RenamesOnto c b r) : ¬ NamesUnique (handleBindRequest c b r).2 := by
  cases r with
  | renameObj type name newname =>
      obtain ⟨hsuper, o, o', hok, hobj', hid, hname, htype⟩ := h
      rcases hfind : findObjId b type name with ⟨res, b'⟩
      rw [hfind] at hok
      dsimp only at hok
      subst hok
      rw [handleBindRequest_renameObj hsuper hfind]
      intro hunique
      have hkeep : b'.obj o'.id = some o' := by
        rw [(Looked.of_find hfind).sameData.obj]
        exact hobj'
      refine hid (hunique o' { o with name := newname } ?_ ?_ hname htype)
      · rw [obj_renamed, if_neg hid]
        exact hkeep
      · rw [obj_renamed, if_pos rfl]
  | _ => exact h.elim

/-- With a sound index, a lookup of a name without wildcards is exact unless
only objects of other types bear the name and the type looked for is `MAX_U16`. -/
theorem NamesIndexed.findsExactly_iff {b : Bindery F} (h : NamesIndexed b) {type : UInt16}
    {name : CText 48} (hname : WildcardFree name.bytes) :
    FindsExactly b type name ↔ ¬ BorneByOtherTypes b type name := by
  have hmatch : ∀ o : NetObj, nameMatch name.bytes o.name.bytes = true ↔ o.name = name :=
    fun o => (nameMatch_of_wildcardFree hname _).trans CText.ext_iff.symm
  unfold FindsExactly
  rcases findObjId_cases b type name with
    ⟨-, hscan, heq⟩ | ⟨o, hindex, heq⟩ | ⟨o, hindex, hscan, heq⟩ <;> rw [heq] <;> dsimp only
  · have hnone := (scanForObj_error hscan).2
    constructor
    · rintro - ⟨htype, ⟨o, hobj, ho⟩, -⟩
      have hfalse := hnone o hobj (.inr htype)
      rw [(hmatch o).mpr ho] at hfalse
      contradiction
    · rintro - o hobj ⟨ho, htype⟩
      have hfalse := hnone o hobj (.inl htype)
      rw [(hmatch o).mpr ho] at hfalse
      contradiction
  · obtain ⟨-, hobj, ho, htype⟩ := indexedObj_eq_some.mp hindex
    exact ⟨fun _ hborne => hborne.2.2 o hobj ho htype, fun _ => ⟨hobj, ho, htype⟩⟩
  · obtain ⟨hobj, htype, ho, -⟩ := scanForObj_ok hscan
    rw [hmatch] at ho
    constructor
    · rintro ⟨-, -, htype⟩ hborne
      exact hborne.2.2 o hobj ho htype
    · intro hborne
      refine ⟨hobj, ho, ?_⟩
      by_contra hne
      refine hborne ⟨htype.resolve_left hne, ⟨o, hobj, ho⟩, fun o' hobj' ho' htype' => ?_⟩
      -- an object of the very type would have been found through the index
      have hfetch := h.complete o' hobj'
      rw [ho', htype'] at hfetch
      have hfound := indexedObj_eq_some.mpr ⟨hfetch, hobj', ho', htype'⟩
      rw [hindex] at hfound
      contradiction

/-- The naming as clients see it: unique names, a sound index and exact lookups. -/
structure NamingHolds (b : Bindery F) : Prop where
  unique : NamesUnique b
  sound : IndexSound b
  finds : ∀ type name, WildcardFree name.bytes →
    (FindsExactly b type name ↔ ¬ BorneByOtherTypes b type name)

/-- Over every run from an empty bindery, the naming holds in every state
reached exactly when no request renames an object onto a name in use. -/
theorem naming_iff_no_renamesOnto (rs : List (Caller × BindRequest)) :
    (∀ pre, pre <+: rs → NamingHolds (binderyMachine.exec (Bindery.empty : Bindery F) pre)) ↔
      binderyMachine.Along (fun b r => ¬ RenamesOnto r.1 b r.2) (Bindery.empty : Bindery F) rs := by
  constructor
  · intro hall
    induction rs using List.reverseRecOn with
    | nil => trivial
    | append_singleton rs r ih =>
        rw [binderyMachine.along_append]
        refine ⟨ih fun pre hpre => hall pre (hpre.trans (List.prefix_append rs [r])), ?_, trivial⟩
        intro honto
        have hlast := hall (rs ++ [r]) (List.prefix_refl _)
        rw [binderyMachine.exec_append] at hlast
        exact honto.not_unique hlast.unique
  · rintro hok pre ⟨suf, rfl⟩
    rw [binderyMachine.along_append] at hok
    have hnames := binderyMachine.exec_invariant
      (fun _ _ hb hok => NamesIndexed.step hb hok) namesIndexed_empty hok.1
    exact ⟨hnames.unique, hnames.sound, fun type name => hnames.findsExactly_iff⟩

/-- Two users are created and the second is renamed to the name of the first. -/
def renameRun : List (Caller × BindRequest) :=
  [(.supervisor, .createObj 0 0x33 1 (objName ['A', 'N', 'N'])),
   (.supervisor, .createObj 0 0x33 1 (objName ['B', 'O', 'B'])),
   (.supervisor, .renameObj 1 (objName ['B', 'O', 'B']) (objName ['A', 'N', 'N']))]

theorem naming_fails_after_rename : ¬ ∀ rs : List (Caller × BindRequest),
    let b := binderyMachine.exec (Bindery.empty : Bindery ListFile) rs
    NamesUnique b ∧ IndexSound b ∧
      ∀ type name, WildcardFree name.bytes → FindsExactly b type name := by
  intro hall
  have hid := (hall renameRun).1 ⟨⟨objName ['A', 'N', 'N'], 1, 0, 0x33⟩, 0x10002⟩
    ⟨⟨objName ['A', 'N', 'N'], 1, 0, 0x33⟩, 0x10003⟩ (by decide +kernel) (by decide +kernel)
    rfl rfl
  exact absurd hid (by decide)

end MarsNwe
