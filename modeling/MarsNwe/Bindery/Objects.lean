import MarsNwe.Tools
import MarsNwe.Bindery.Access

/-! # Bindery objects

Lookup of objects by name through the index file `nwiobj`, with the scan of the
object file behind it, and the operations on single object records. A database
that cannot be opened or written is not modelled, so every store and every
delete of an existing key succeeds.
-/

namespace MarsNwe

open KeyedFile

variable {F : Type → Type → Type} [KeyedFile F]

/-- `handle_iobj` with mode 0: the object id the index holds for a name. -/
def handleIobjRead (b : Bindery F) (name : CText 48) (type : UInt16) : Option UInt32 :=
  fetch b.nwiobj (name, type)

/-- `handle_iobj` with mode 2: rewrite or create the index entry of an object. -/
def handleIobjWrite (b : Bindery F) (o : NetObj) : Bindery F :=
  { b with nwiobj := store b.nwiobj (o.name, o.type) o.id }

/-- `handle_iobj` with mode 3: delete the index entry of an object. -/
def handleIobjDelete (b : Bindery F) (o : NetObj) : Bindery F :=
  { b with nwiobj := delete b.nwiobj (o.name, o.type) }

/-- The records behind the key `last`; all of them for `last` 0 or `MAX_U32`. -/
def recordsAfter (last : UInt32) (rs : List (UInt32 × ObjData)) : List (UInt32 × ObjData) :=
  if last = 0 ∨ last = 0xffffffff then rs else (rs.dropWhile fun r => r.1 ≠ last).tail

/-- `scan_for_obj`: the first object behind `last` whose type and name match,
where type `MAX_U16` and wildcards in the name are allowed. `rights` is the
caller whose read access counts, if any. -/
def scanForObj (b : Bindery F) (type : UInt16) (name : CText 48) (last : UInt32)
    (rights : Option Caller) : Except Int NetObj :=
  match (recordsAfter last (walk b.nwobj)).find? fun r =>
      (r.2.type == type || type == 0xffff) && nameMatch name.bytes r.2.name.bytes &&
        rights.all fun c => bAcc c r.1 r.2.security 0x00 == 0 with
  | some (id, d) => .ok ⟨d, id⟩
  | none => .error (-0xfc)

/-- The object the index leads to, if its record bears the name looked for. -/
def indexedObj (b : Bindery F) (type : UInt16) (name : CText 48) : Option NetObj :=
  (handleIobjRead b name type).bind fun id =>
    (b.obj id).filter fun o => o.name = name && o.type = type

/-- `find_obj_id`: through the index, else by a scan of all objects, whose
result is then written to the index. -/
def findObjId (b : Bindery F) (type : UInt16) (name : CText 48) :
    Except Int NetObj × Bindery F :=
  match indexedObj b type name with
  | some o => (.ok o, b)
  | none =>
      match scanForObj b type name 0 none with
      | .ok o => (.ok o, handleIobjWrite b o)
      | .error e => (.error e, b)

/-- `nw_get_obj`. -/
def nwGetObj (c : Caller) (b : Bindery F) (id : UInt32) : Except Int NetObj :=
  match b.obj id with
  | none => .error (-0xfc)
  | some o => if bAcc c id o.security 0x00 = 0 then .ok o else .error (bAcc c id o.security 0x00)

/-- The loop `while(1)` of `nw_create_obj`: count the id up until it is free. -/
def nextFreeId (f : F UInt32 ObjData) : Nat → UInt32 → Option UInt32
  | 0, _ => none
  | fuel + 1, id =>
      if (fetch f (id + 1)).isNone then some (id + 1) else nextFreeId f fuel (id + 1)

/-- `nw_create_obj`: the result code, the id left in `obj->id` and the bindery.
There is no answer if the search for an id never ends, which takes a bindery
with all 2^32 ids in use. -/
def nwCreateObj (c : Caller) (b : Bindery F) (d : ObjData) (wantedId : UInt32) :
    Option (Int × UInt32 × Bindery F) :=
  if bAcc c 0 0x33 0x02 ≠ 0 then some (bAcc c 0 0x33 0x02, 0, b)
  else
    match (walk b.nwobj).find? fun r => r.2.type == d.type && r.2.name == d.name with
    | some (id, _) => some (-0xee, id, b)
    | none =>
        let start := if wantedId ≠ 0 then wantedId - 1 else (d.type.toUInt32 <<< 16) + 1
        (nextFreeId b.nwobj ((keys b.nwobj).length + 1) start).map fun id =>
          (0, id, handleIobjWrite { b with nwobj := store b.nwobj id d } ⟨d, id⟩)

/-- `nw_rename_obj`: drop the index entry, rename the record, index it again. -/
def nwRenameObj (c : Caller) (b : Bindery F) (type : UInt16) (name newname : CText 48) :
    Int × Bindery F :=
  match findObjId b type name with
  | (.error e, b) => (e, b)
  | (.ok o, b) =>
      if bAcc c 0 0x33 0x04 ≠ 0 then (bAcc c 0 0x33 0x04, b)
      else
        let b := handleIobjDelete b o
        match b.obj o.id with
        | none => (-0xff, handleIobjWrite b o)
        | some obj =>
            let obj := { obj with name := newname }
            (0, handleIobjWrite { b with nwobj := store b.nwobj o.id obj.toObjData } obj)

/-- `nw_change_obj_security`. -/
def nwChangeObjSecurity (c : Caller) (b : Bindery F) (type : UInt16) (name : CText 48)
    (newsecurity : UInt8) : Int × Bindery F :=
  match findObjId b type name with
  | (.error e, b) => (e, b)
  | (.ok o, b) =>
      if bAcc c o.id o.security 0x05 ≠ 0 then (bAcc c o.id o.security 0x05, b)
      else
        match b.obj o.id with
        | none => (-0xff, b)
        | some obj =>
            (0, { b with nwobj := store b.nwobj o.id { obj.toObjData with security := newsecurity } })

/-! ## What a lookup finds and changes -/

theorem recordsAfter_subset (last : UInt32) (rs : List (UInt32 × ObjData)) :
    recordsAfter last rs ⊆ rs := by
  unfold recordsAfter
  split
  · exact List.Subset.refl rs
  · exact ((List.tail_sublist _).trans (List.dropWhile_sublist _)).subset

theorem scanForObj_ok {b : Bindery F} {type : UInt16} {name : CText 48} {last : UInt32}
    {rights : Option Caller} {o : NetObj} (h : scanForObj b type name last rights = .ok o) :
    b.obj o.id = some o ∧ (o.type = type ∨ type = 0xffff) ∧
      nameMatch name.bytes o.name.bytes = true ∧
      ∀ c, rights = some c → bAcc c o.id o.security 0x00 = 0 := by
  unfold scanForObj at h
  split at h
  next id d hfind =>
    cases h
    have hmem := recordsAfter_subset _ _ (List.mem_of_find?_eq_some hfind)
    have htest := List.find?_some hfind
    simp only [Bool.and_eq_true, Bool.or_eq_true, beq_iff_eq] at htest
    refine ⟨Bindery.obj_eq_some.mpr ⟨mem_walk.mp hmem, rfl⟩, htest.1.1, htest.1.2, ?_⟩
    rintro c rfl
    simpa using htest.2
  next => cases h

theorem scanForObj_error {b : Bindery F} {type : UInt16} {name : CText 48} {e : Int}
    (h : scanForObj b type name 0 none = .error e) :
    e = -0xfc ∧ ∀ o, b.obj o.id = some o → (o.type = type ∨ type = 0xffff) →
      nameMatch name.bytes o.name.bytes = false := by
  unfold scanForObj at h
  split at h
  next => cases h
  next hfind =>
    cases h
    refine ⟨rfl, fun o hobj htype => ?_⟩
    rw [recordsAfter, if_pos (Or.inl rfl), walk_find?_eq_none] at hfind
    have hnot := hfind o.id o.toObjData (Bindery.obj_eq_some.mp hobj).1
    rcases htype with htype | htype <;> simpa [htype] using hnot

theorem indexedObj_eq_some {b : Bindery F} {type : UInt16} {name : CText 48} {o : NetObj} :
    indexedObj b type name = some o ↔
      handleIobjRead b name type = some o.id ∧ b.obj o.id = some o ∧
        o.name = name ∧ o.type = type := by
  simp only [indexedObj, Option.bind_eq_some_iff, Option.filter_eq_some_iff,
    Bool.and_eq_true, decide_eq_true_eq]
  constructor
  · rintro ⟨id, hindex, hobj, hname⟩
    obtain rfl := (Bindery.obj_eq_some.mp hobj).2
    exact ⟨hindex, hobj, hname⟩
  · rintro ⟨hindex, hobj, hname⟩
    exact ⟨o.id, hindex, hobj, hname⟩

/-- What `find_obj_id` can do: fail and leave the bindery alone, find the
object through the index, or find it by a scan and write the index. -/
theorem findObjId_cases (b : Bindery F) (type : UInt16) (name : CText 48) :
    (indexedObj b type name = none ∧ scanForObj b type name 0 none = .error (-0xfc) ∧
      findObjId b type name = (.error (-0xfc), b)) ∨
    (∃ o, indexedObj b type name = some o ∧ findObjId b type name = (.ok o, b)) ∨
    (∃ o, indexedObj b type name = none ∧ scanForObj b type name 0 none = .ok o ∧
      findObjId b type name = (.ok o, handleIobjWrite b o)) := by
  unfold findObjId
  cases hindex : indexedObj b type name with
  | some o => exact .inr (.inl ⟨o, rfl, rfl⟩)
  | none =>
      cases hscan : scanForObj b type name 0 none with
      | ok o => exact .inr (.inr ⟨o, rfl, rfl, rfl⟩)
      | error e =>
          obtain ⟨rfl, -⟩ := scanForObj_error hscan
          exact .inl ⟨rfl, rfl, rfl⟩

/-- A lookup writes at most the index. -/
theorem findObjId_frame {b b' : Bindery F} {type : UInt16} {name : CText 48}
    {r : Except Int NetObj} (h : findObjId b type name = (r, b')) :
    b'.nwobj = b.nwobj ∧ b'.nwprop = b.nwprop ∧ b'.nwval = b.nwval := by
  rcases findObjId_cases b type name with ⟨-, -, heq⟩ | ⟨o, -, heq⟩ | ⟨o, -, -, heq⟩ <;>
    rw [heq] at h <;> cases h <;> exact ⟨rfl, rfl, rfl⟩

/-- A lookup that succeeds returns a stored record that matches. -/
theorem findObjId_ok {b b' : Bindery F} {type : UInt16} {name : CText 48} {o : NetObj}
    (h : findObjId b type name = (.ok o, b')) :
    b.obj o.id = some o ∧ (o.type = type ∨ type = 0xffff) ∧
      (o.name = name ∨ nameMatch name.bytes o.name.bytes = true) := by
  rcases findObjId_cases b type name with ⟨-, -, heq⟩ | ⟨o', hindex, heq⟩ | ⟨o', -, hscan, heq⟩ <;>
    rw [heq] at h <;> cases h
  · obtain ⟨-, hobj, hname, htype⟩ := indexedObj_eq_some.mp hindex
    exact ⟨hobj, .inl htype, .inl hname⟩
  · obtain ⟨hobj, htype, hname, -⟩ := scanForObj_ok hscan
    exact ⟨hobj, htype, .inr hname⟩

theorem findObjId_obj {b b' : Bindery F} {type : UInt16} {name : CText 48} {o : NetObj}
    (h : findObjId b type name = (.ok o, b')) : b'.obj o.id = some o := by
  have hframe := (findObjId_frame h).1
  rw [Bindery.obj, hframe]
  exact (findObjId_ok h).1

/-- The only error of a lookup is "no such object". -/
theorem findObjId_error {b b' : Bindery F} {type : UInt16} {name : CText 48} {e : Int}
    (h : findObjId b type name = (.error e, b')) : e = -0xfc ∧ b' = b := by
  rcases findObjId_cases b type name with ⟨-, -, heq⟩ | ⟨o', -, heq⟩ | ⟨o', -, -, heq⟩ <;>
    rw [heq] at h <;> cases h
  exact ⟨rfl, rfl⟩

/-! ## The search for a free id -/

theorem nextFreeId_free {f : F UInt32 ObjData} {fuel : Nat} {start id : UInt32}
    (h : nextFreeId f fuel start = some id) : fetch f id = none := by
  induction fuel generalizing start with
  | zero => cases h
  | succ fuel ih =>
      unfold nextFreeId at h
      split at h
      next hfree =>
        cases h
        exact Option.isNone_iff_eq_none.mp hfree
      next => exact ih h

end MarsNwe
