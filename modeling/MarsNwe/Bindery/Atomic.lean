import MarsNwe.Bindery.PropertyEffects
import MarsNwe.Bindery.NameIndex

/-! # Failed operations leave the records alone

An operation that returns an error code has written no object, property or
value record. The exception is deliberate: `nw_create_prop` for a property that
exists reports so, after the property has taken the security and flags asked
for.
-/

namespace MarsNwe

open KeyedFile

variable {F : Type → Type → Type} [KeyedFile F]

/-- The operations that write object, property or value records. -/
inductive BindUpdate where
  | createObj (d : ObjData) (wantedId : UInt32)
  | deleteObj (type : UInt16) (name : CText 48)
  | renameObj (type : UInt16) (name newname : CText 48)
  | changeObjSecurity (type : UInt16) (name : CText 48) (security : UInt8)
  | createProp (type : UInt16) (name : CText 48) (d : PropData)
  | deleteProperty (type : UInt16) (name : CText 48) (propName : CText 16)
  | changePropSecurity (type : UInt16) (name : CText 48) (propName : CText 16) (security : UInt8)
  | writePropValue (type : UInt16) (name : CText 48) (segment erase : UInt8) (propName : CText 16)
      (value : Value)
  | addObjToSet (type : UInt16) (name : CText 48) (propName : CText 16) (memberType : UInt16)
      (memberName : CText 48)
  | deleteObjFromSet (type : UInt16) (name : CText 48) (propName : CText 16) (memberType : UInt16)
      (memberName : CText 48)

/-- The result code and the bindery after an operation, if it returns. -/
def BindUpdate.run (c : Caller) (b : Bindery F) : BindUpdate → Option (Int × Bindery F)
  | .createObj d wantedId => (nwCreateObj c b d wantedId).map fun r => (r.1, r.2.2)
  | .deleteObj type name => some (nwDeleteObj c b type name)
  | .renameObj type name newname => some (nwRenameObj c b type name newname)
  | .changeObjSecurity type name security => some (nwChangeObjSecurity c b type name security)
  | .createProp type name d => some (nwCreateProp c b type name d)
  | .deleteProperty type name propName => some (nwDeleteProperty c b type name propName)
  | .changePropSecurity type name propName security =>
      some (nwChangePropSecurity c b type name propName security)
  | .writePropValue type name segment erase propName value =>
      some (nwWritePropValue c b type name segment erase propName value)
  | .addObjToSet type name propName memberType memberName =>
      some (nwAddObjToSet c b type name propName memberType memberName)
  | .deleteObjFromSet type name propName memberType memberName =>
      some (nwDeleteObjFromSet c b type name propName memberType memberName)

/-- The operation creates a property which the object `o` has already, as `p`,
with another security or other flags, and the caller may write to `o`. -/
def BindUpdate.Resecures (c : Caller) (b : Bindery F) (o : NetObj) (p : NetProp) (d : PropData) :
    BindUpdate → Prop
  | .createProp type name d' =>
      d' = d ∧ (findObjId b type name).1 = .ok o ∧ bAcc c o.id o.security 0x12 = 0 ∧
        (b.propsOf o.id).find? (fun p => d.name = p.name) = some p ∧
        (p.security ≠ d.security ∨ p.flags ≠ d.flags)
  | _ => False

/-! ## One operation after the other -/

section

variable {c : Caller} {b : Bindery F} {type : UInt16} {name : CText 48}

theorem nwDeleteObj_error (h : (nwDeleteObj c b type name).1 ≠ 0) :
    SameData b (nwDeleteObj c b type name).2 := by
  rcases hfind : findObjId b type name with ⟨r, b'⟩
  have hsame := (Looked.of_find hfind).sameData
  cases r with
  | error e =>
      simp only [nwDeleteObj, hfind]
      exact hsame
  | ok o =>
      simp only [nwDeleteObj, hfind] at h ⊢
      by_cases hright : bAcc c o.id 0x33 0x03 = 0
      · exact absurd (by rw [locDeleteObj_ok (findObjId_obj hfind) hright]) h
      · rw [locDeleteObj, if_pos hright]
        exact hsame

theorem nwRenameObj_error {newname : CText 48} (h : (nwRenameObj c b type name newname).1 ≠ 0) :
    SameData b (nwRenameObj c b type name newname).2 := by
  rcases hfind : findObjId b type name with ⟨r, b'⟩
  have hsame := (Looked.of_find hfind).sameData
  cases r with
  | error e =>
      simp only [nwRenameObj, hfind]
      exact hsame
  | ok o =>
      by_cases hright : bAcc c 0 0x33 0x04 = 0
      · exact absurd (by rw [nwRenameObj_ok hfind hright]) h
      · simp only [nwRenameObj, hfind, if_pos hright]
        exact hsame

theorem nwChangeObjSecurity_error {security : UInt8}
    (h : (nwChangeObjSecurity c b type name security).1 ≠ 0) :
    SameData b (nwChangeObjSecurity c b type name security).2 := by
  rcases hfind : findObjId b type name with ⟨r, b'⟩
  have hsame := (Looked.of_find hfind).sameData
  cases r with
  | error e =>
      simp only [nwChangeObjSecurity, hfind]
      exact hsame
  | ok o =>
      by_cases hright : bAcc c o.id o.security 0x05 = 0
      · exact absurd (by rw [nwChangeObjSecurity_ok hfind hright]) h
      · simp only [nwChangeObjSecurity, hfind, if_pos hright]
        exact hsame

theorem nwDeleteProperty_error {propName : CText 16}
    (h : (nwDeleteProperty c b type name propName).1 ≠ 0) :
    SameData b (nwDeleteProperty c b type name propName).2 := by
  rcases hfind : findObjId b type name with ⟨r, b'⟩
  have hsame := (Looked.of_find hfind).sameData
  cases r with
  | error e =>
      simp only [nwDeleteProperty, hfind]
      exact hsame
  | ok o =>
      simp only [nwDeleteProperty, hfind] at h ⊢
      rw [locDeleteProperty_error h]
      exact hsame

theorem locChangePropSecurity_error {objId : UInt32} {propName : CText 16} {security : UInt8}
    (h : (locChangePropSecurity c b objId propName security).1 ≠ 0) :
    (locChangePropSecurity c b objId propName security).2 = b := by
  unfold locChangePropSecurity at h ⊢
  split
  next => rfl
  next p hfind =>
    simp only [hfind] at h
    split at h
    next hright => rw [if_pos hright]
    next => exact absurd rfl h

theorem nwChangePropSecurity_error {propName : CText 16} {security : UInt8}
    (h : (nwChangePropSecurity c b type name propName security).1 ≠ 0) :
    SameData b (nwChangePropSecurity c b type name propName security).2 := by
  rcases hfind : findObjId b type name with ⟨r, b'⟩
  have hsame := (Looked.of_find hfind).sameData
  cases r with
  | error e =>
      simp only [nwChangePropSecurity, hfind]
      exact hsame
  | ok o =>
      simp only [nwChangePropSecurity, hfind] at h ⊢
      rw [locChangePropSecurity_error h]
      exact hsame

theorem insPropVal_error {objId : UInt32} {p : NetProp} {segment erase : UInt8} {value : Value}
    (h : (insPropVal c b objId p segment value erase).1 ≠ 0) :
    (insPropVal c b objId p segment value erase).2 = b := by
  unfold insPropVal at h ⊢
  dsimp only at h ⊢
  split
  next => rfl
  next hright =>
    rw [if_neg hright] at h
    split
    next => rfl
    next hseg =>
      rw [if_neg hseg] at h
      split at h <;> exact absurd rfl h

theorem nwWritePropValue_error {segment erase : UInt8} {propName : CText 16} {value : Value}
    (h : (nwWritePropValue c b type name segment erase propName value).1 ≠ 0) :
    SameData b (nwWritePropValue c b type name segment erase propName value).2 := by
  rcases findObjProp_cases c b type name propName with
    ⟨e, b', heq, hlook, -⟩ | ⟨p, b', o, heq, hlook, -⟩
  · simp only [nwWritePropValue, heq]
    exact hlook.sameData
  · simp only [nwWritePropValue, heq] at h ⊢
    rw [insPropVal_error h]
    exact hlook.sameData

theorem addMember_error {f : F ValKey Value} {memberId : UInt32} {ks : List ValKey}
    (h : (addMember f memberId ks).1 ≠ 0) : (addMember f memberId ks).2 = f := by
  induction ks with
  | nil => rfl
  | cons k ks ih =>
      unfold addMember at h ⊢
      split
      next v hfetch =>
        simp only [hfetch] at h
        split
        next hhole => simp [hhole] at h
        next hfull =>
          rw [if_neg hfull] at h
          exact ih h
      next hfetch => simp [hfetch] at h

theorem propAddMember_error {objId : UInt32} {propId security : UInt8} {memberId : UInt32}
    (h : (propAddMember c b objId propId security memberId).1 ≠ 0) :
    (propAddMember c b objId propId security memberId).2 = b := by
  unfold propAddMember at h ⊢
  dsimp only at h ⊢
  split
  next => rfl
  next hright =>
    rw [if_neg hright] at h
    dsimp only at h ⊢
    rw [addMember_error h]

theorem nwAddObjToSet_error {propName : CText 16} {memberType : UInt16} {memberName : CText 48}
    (h : (nwAddObjToSet c b type name propName memberType memberName).1 ≠ 0) :
    SameData b (nwAddObjToSet c b type name propName memberType memberName).2 := by
  rcases findObjPropMember_cases c b type name propName memberType memberName with
    ⟨e, b', heq, hlook, -⟩ | ⟨p, m, -, b', heq, -, -, hlook, -⟩
  · simp only [nwAddObjToSet, heq]
    exact hlook.sameData
  · simp only [nwAddObjToSet, heq] at h ⊢
    split
    next habsent =>
      rw [if_pos habsent] at h
      rw [propAddMember_error h]
      exact hlook.sameData
    next => split <;> exact hlook.sameData

theorem nwDeleteObjFromSet_error {propName : CText 16} {memberType : UInt16}
    {memberName : CText 48}
    (h : (nwDeleteObjFromSet c b type name propName memberType memberName).1 ≠ 0) :
    SameData b (nwDeleteObjFromSet c b type name propName memberType memberName).2 := by
  rcases findObjPropMember_cases c b type name propName memberType memberName with
    ⟨e, b', heq, hlook, -⟩ | ⟨p, m, -, b', heq, -, -, hlook, -⟩
  · simp only [nwDeleteObjFromSet, heq]
    exact hlook.sameData
  · simp only [nwDeleteObjFromSet, heq, propDeleteMember] at h ⊢
    split
    next => exact hlook.sameData
    next hright =>
      rw [if_neg hright] at h
      exact absurd rfl h

/-- `nw_create_prop` returns an error and leaves the records alone, or creates
a property, or finds the property with another security or other flags. -/
theorem nwCreateProp_error {d : PropData} (h : (nwCreateProp c b type name d).1 ≠ 0) :
    SameData b (nwCreateProp c b type name d).2 ∨
    ∃ o p, (BindUpdate.createProp type name d).Resecures c b o p d := by
  rcases hfind : findObjId b type name with ⟨r, b'⟩
  have hsame := (Looked.of_find hfind).sameData
  cases r with
  | error e =>
      simp only [nwCreateProp, hfind]
      exact .inl hsame
  | ok o =>
      simp only [nwCreateProp, hfind] at h ⊢
      split
      next => exact .inl hsame
      next hright =>
        rw [if_neg hright] at h
        unfold nwCreateObjProp at h ⊢
        cases hprop : (b'.propsOf o.id).find? fun p => d.name = p.name with
        | none => exact absurd (by rw [hprop]) h
        | some p =>
            dsimp only
            split
            next hdiff =>
              refine .inr ⟨o, p, rfl, by rw [hfind], not_not.mp hright, ?_, hdiff⟩
              rw [← hsame.propsOf]
              exact hprop
            next => exact .inl hsame

end

theorem nwCreateProp_resecures {c : Caller} {b : Bindery F} {type : UInt16} {name : CText 48}
    {o : NetObj} {p : NetProp} {d : PropData}
    (h : (BindUpdate.createProp type name d).Resecures c b o p d) :
    nwCreateProp c b type name d = (-0xed, { (findObjId b type name).2 with
      nwprop := store b.nwprop (o.id, p.id)
        { p.toPropData with security := d.security, flags := d.flags } }) := by
  obtain ⟨-, hok, hright, hprop, hdiff⟩ := h
  rcases hfind : findObjId b type name with ⟨r, b'⟩
  rw [hfind] at hok
  dsimp only at hok
  subst hok
  have hsame := (Looked.of_find hfind).sameData
  simp only [nwCreateProp, hfind, if_neg (not_not.mpr hright), nwCreateObjProp, hsame.propsOf,
    hprop, if_pos hdiff, hsame.nwprop]

omit [KeyedFile F] in
theorem sameData_of_run {b b' : Bindery F} {code : Int} {r : Int × Bindery F}
    (hrun : some r = some (code, b')) (hcode : code ≠ 0) (h : r.1 ≠ 0 → SameData b r.2) :
    SameData b b' := by
  obtain rfl := Option.some.inj hrun
  exact h hcode

/-- The amended atomicity: an operation that returns an error code leaves the
object, property and value records alone, or it is the creation of an existing
property, which then has the security and the flags asked for and is all that
has changed. -/
theorem failed_update_atomic (c : Caller) (b : Bindery F) (u : BindUpdate) {code : Int}
    {b' : Bindery F} (hrun : u.run c b = some (code, b')) (hcode : code ≠ 0) :
    (SameData b b' ∧ ∀ o p d, ¬ u.Resecures c b o p d) ∨
    ∃ o p d, u.Resecures c b o p d ∧ code = -0xed ∧ b'.nwobj = b.nwobj ∧ b'.nwval = b.nwval ∧
      b'.nwprop = store b.nwprop (o.id, p.id)
        { p.toPropData with security := d.security, flags := d.flags } := by
  by_cases hre : ∃ o p d, u.Resecures c b o p d
  · obtain ⟨o, p, d, hre⟩ := hre
    cases u with
    | createProp type name d' =>
        obtain rfl := hre.1
        have heq := nwCreateProp_resecures hre
        simp only [BindUpdate.run, heq, Option.some.injEq, Prod.mk.injEq] at hrun
        obtain ⟨rfl, rfl⟩ := hrun
        have hsame := (Looked.find type name (Looked.refl (b := b))).sameData
        exact .inr ⟨o, p, d', hre, rfl, hsame.nwobj, hsame.nwval, rfl⟩
    | _ => exact hre.elim
  · refine .inl ⟨?_, fun o p d h => hre ⟨o, p, d, h⟩⟩
    cases u with
    | createObj d wantedId =>
        rcases nwCreateObj_cases c b d wantedId with
          ⟨heq, -⟩ | ⟨code', id, heq, -⟩ | ⟨id, heq, -⟩ <;>
          simp only [BindUpdate.run, heq, Option.map_none, Option.map_some, reduceCtorEq,
            Option.some.injEq, Prod.mk.injEq] at hrun
        · rw [← hrun.2]
          exact .refl b
        · exact absurd hrun.1.symm hcode
    | deleteObj type name =>
        exact sameData_of_run hrun hcode nwDeleteObj_error
    | renameObj type name newname =>
        exact sameData_of_run hrun hcode nwRenameObj_error
    | changeObjSecurity type name security =>
        exact sameData_of_run hrun hcode nwChangeObjSecurity_error
    | createProp type name d =>
        exact sameData_of_run hrun hcode fun hcode =>
          (nwCreateProp_error hcode).resolve_right fun ⟨o, p, h⟩ => hre ⟨o, p, d, h⟩
    | deleteProperty type name propName =>
        exact sameData_of_run hrun hcode nwDeleteProperty_error
    | changePropSecurity type name propName security =>
        exact sameData_of_run hrun hcode nwChangePropSecurity_error
    | writePropValue type name segment erase propName value =>
        exact sameData_of_run hrun hcode nwWritePropValue_error
    | addObjToSet type name propName memberType memberName =>
        exact sameData_of_run hrun hcode nwAddObjToSet_error
    | deleteObjFromSet type name propName memberType memberName =>
        exact sameData_of_run hrun hcode nwDeleteObjFromSet_error

/-- A bindery with one object that has one property, readable by everyone. -/
def onePropRun : List (Caller × BindRequest) :=
  [(.supervisor, .createObj 0 0x33 1 (objName ['A', 'N', 'N'])),
   (.supervisor, .createProp 1 (objName ['A', 'N', 'N']) ⟨propName ['P'], 0, 0x30⟩)]

def onePropBindery : Bindery ListFile := binderyMachine.exec Bindery.empty onePropRun

/-- Creating an object that exists fails with -0xee and changes nothing. -/
theorem failed_update_atomic_createObj :
    (SameData onePropBindery onePropBindery ∧ ∀ o p d,
      ¬ (BindUpdate.createObj ⟨objName ['A', 'N', 'N'], 1, 0, 0x33⟩ 0).Resecures .supervisor
        onePropBindery o p d) ∨
    ∃ o p d, (BindUpdate.createObj ⟨objName ['A', 'N', 'N'], 1, 0, 0x33⟩ 0).Resecures .supervisor
        onePropBindery o p d ∧ (-0xee : Int) = -0xed ∧
      onePropBindery.nwobj = onePropBindery.nwobj ∧ onePropBindery.nwval = onePropBindery.nwval ∧
      onePropBindery.nwprop = store onePropBindery.nwprop (o.id, p.id)
        { p.toPropData with security := d.security, flags := d.flags } :=
  failed_update_atomic .supervisor onePropBindery
    (.createObj ⟨objName ['A', 'N', 'N'], 1, 0, 0x33⟩ 0) rfl (by decide)

/-- Creating the property again, for the supervisor only, fails with -0xed and
has changed its security. -/
theorem failed_createProp_changes : ¬ ∀ (c : Caller) (b : Bindery ListFile) (u : BindUpdate)
    (code : Int) (b' : Bindery ListFile), u.run c b = some (code, b') → code ≠ 0 →
    SameData b b' := by
  intro hall
  have hsame := hall .supervisor onePropBindery
    (.createProp 1 (objName ['A', 'N', 'N']) ⟨propName ['P'], 0, 0x33⟩) (-0xed)
    (nwCreateProp .supervisor onePropBindery 1 (objName ['A', 'N', 'N'])
      ⟨propName ['P'], 0, 0x33⟩).2 rfl (by decide)
  have hprop := congrArg (fetch · (0x10002, 1)) hsame.nwprop
  exact absurd hprop (by decide +kernel)

end MarsNwe
