import MarsNwe.Bindery.PropNames

/-! # The ids of new properties

`nw_create_obj_prop` looks for an id from 1 to 255 and takes the count of 256,
cut to a byte, when all of them are in use.
-/

namespace MarsNwe

open KeyedFile

variable {F : Type → Type → Type} [KeyedFile F]

/-- No property of the object bears the name. -/
def NewPropName (b : Bindery F) (objId : UInt32) (name : CText 16) : Prop :=
  ∀ i d, fetch b.nwprop (objId, i) = some d → d.name ≠ name

/-- All ids from 1 to 255 are in use. -/
def PropIdsFull (b : Bindery F) (objId : UInt32) : Prop :=
  ∀ k : UInt8, k ≠ 0 → (fetch b.nwprop (objId, k)).isSome

/-- The creation of a property: success adds one record under an id from 1 to
255 that was free, and full ids are refused and nothing is changed. -/
structure CreatesOneProp (b : Bindery F) (objId : UInt32) (d : PropData) : Prop where
  adds : (nwCreateObjProp b objId d).1 = 0 →
    let (_, id, b') := nwCreateObjProp b objId d
    id ≠ 0 ∧ fetch b.nwprop (objId, id) = none ∧
      ∀ k, fetch b'.nwprop k = if k = (objId, id) then some d else fetch b.nwprop k
  refuses : PropIdsFull b objId →
    (nwCreateObjProp b objId d).1 ≠ 0 ∧ (nwCreateObjProp b objId d).2.2 = b

theorem mem_propIds {b : Bindery F} {objId : UInt32} {k : UInt8} :
    k ∈ (b.propsOf objId).map NetProp.id ↔ (fetch b.nwprop (objId, k)).isSome := by
  rw [List.mem_map, Option.isSome_iff_exists]
  constructor
  · rintro ⟨p, hp, rfl⟩
    exact ⟨p.toPropData, (Bindery.mem_propsOf.mp hp).2⟩
  · rintro ⟨d, hd⟩
    exact ⟨⟨d, objId, k⟩, Bindery.mem_propsOf.mpr ⟨rfl, hd⟩, rfl⟩

/-- The search finds an id not in use, or there is none but 0. -/
theorem freePropId_cases (used : List UInt8) :
    (freePropId used ≠ 0 ∧ freePropId used ∉ used) ∨
      (freePropId used = 0 ∧ ∀ k : UInt8, k ≠ 0 → k ∈ used) := by
  unfold freePropId
  split
  next k hfind =>
    refine .inl ⟨mem_segments.mp (List.mem_of_find?_eq_some hfind), ?_⟩
    simpa using List.find?_some hfind
  next hfind =>
    refine .inr ⟨rfl, fun k hk => ?_⟩
    simpa using List.find?_eq_none.mp hfind k (mem_segments.mpr hk)

/-- A new name is stored under the id found by the search. -/
theorem nwCreateObjProp_new {b : Bindery F} {objId : UInt32} {d : PropData}
    (hnew : NewPropName b objId d.name) :
    let id := freePropId ((b.propsOf objId).map NetProp.id)
    nwCreateObjProp b objId d = (0, id, { b with nwprop := store b.nwprop (objId, id) d }) := by
  have hfind : ((b.propsOf objId).find? fun p => d.name = p.name) = none := by
    rw [List.find?_eq_none]
    intro p hp hname
    exact hnew p.id p.toPropData (Bindery.mem_propsOf.mp hp).2 (of_decide_eq_true hname).symm
  rw [nwCreateObjProp, hfind]

/-- With no id left, a new property is stored under the id 0. -/
theorem nwCreateObjProp_full {b : Bindery F} {objId : UInt32} {d : PropData}
    (hnew : NewPropName b objId d.name) (hfull : PropIdsFull b objId) :
    nwCreateObjProp b objId d = (0, 0, { b with nwprop := store b.nwprop (objId, 0) d }) := by
  rw [nwCreateObjProp_new hnew]
  rcases freePropId_cases ((b.propsOf objId).map NetProp.id) with ⟨hne, hfree⟩ | ⟨hzero, -⟩
  · exact absurd (mem_propIds.mpr (hfull _ hne)) hfree
  · rw [hzero]

theorem not_createsOneProp_of_full {b : Bindery F} {objId : UInt32} {d : PropData}
    (hnew : NewPropName b objId d.name) (hfull : PropIdsFull b objId) :
    ¬ CreatesOneProp b objId d := by
  intro hone
  have hcode := (hone.refuses hfull).1
  rw [nwCreateObjProp_full hnew hfull] at hcode
  exact hcode rfl

/-- A property of a new name is created as it should be exactly while one of
the ids from 1 to 255 is free. -/
theorem createsOneProp_iff_id_free {b : Bindery F} {objId : UInt32} {d : PropData}
    (hnew : NewPropName b objId d.name) :
    CreatesOneProp b objId d ↔ ∃ k : UInt8, k ≠ 0 ∧ fetch b.nwprop (objId, k) = none := by
  constructor
  · intro hone
    by_contra hnone
    refine not_createsOneProp_of_full hnew (fun k hk => ?_) hone
    rw [Option.isSome_iff_ne_none]
    exact fun hfree => hnone ⟨k, hk, hfree⟩
  · rintro ⟨k, hk, hfree⟩
    rcases freePropId_cases ((b.propsOf objId).map NetProp.id) with ⟨hne, hnot⟩ | ⟨-, hall⟩
    · rw [mem_propIds, Option.not_isSome_iff_eq_none] at hnot
      constructor
      · rw [nwCreateObjProp_new hnew]
        exact fun _ => ⟨hne, hnot, fun k => fetch_store _ _ _ _⟩
      · intro hfull
        have hused := hfull k hk
        rw [hfree] at hused
        contradiction
    · have hused := mem_propIds.mp (hall k hk)
      rw [hfree] at hused
      contradiction

/-- One property more. -/
def newProp : PropData := ⟨propName ['N', 'E', 'W'], 0, 0x33⟩

/-- The object 1 has the properties P and Q under the ids 1 and 3, and the object 2 has
one of the new name. -/
def sharedProps : Bindery ListFile :=
  { (Bindery.empty : Bindery ListFile) with
    nwprop := store (store (store empty (1, 1) ⟨propName ['P'], 0, 0x33⟩) (1, 3)
      ⟨propName ['Q'], 0, 0x33⟩) (2, 2) newProp }

/-- The object 1 gets the property under the id between, and all others stay. -/
theorem createsOneProp_sharedProps :
    nwCreateObjProp sharedProps 1 newProp =
        (0, 2, { sharedProps with nwprop := store sharedProps.nwprop (1, 2) newProp }) ∧
      CreatesOneProp sharedProps 1 newProp := by
  have hnew : NewPropName sharedProps 1 newProp.name := by
    intro i d hfetch
    have hother : ((1, i) : PropKey) ≠ (2, 2) := fun h => absurd (Prod.mk.inj h).1 (by decide)
    rw [sharedProps, fetch_store, if_neg hother, fetch_store] at hfetch
    split at hfetch
    next => exact Option.some.inj hfetch ▸ by decide
    next =>
        rw [fetch_store] at hfetch
        split at hfetch
        next => exact Option.some.inj hfetch ▸ by decide
        next => contradiction
  have hfree : fetch sharedProps.nwprop (1, 2) = none := by decide
  have hid : freePropId ((sharedProps.propsOf 1).map NetProp.id) = 2 := by decide
  have hcreate := nwCreateObjProp_new hnew
  rw [hid] at hcreate
  exact ⟨hcreate, (createsOneProp_iff_id_free hnew).mpr ⟨2, by decide, hfree⟩⟩

/-- An object with 255 properties, the one with id `k` named by the byte `k`. -/
def fullProps : Bindery ListFile :=
  { (Bindery.empty : Bindery ListFile) with
    nwprop := storeAll empty (segments.map fun k => ((1, k), ⟨.copy 15 [k], 0, 0x33⟩)) }

theorem fetch_fullProps (k : UInt8) (d : PropData) : fetch fullProps.nwprop (1, k) = some d ↔
    k ≠ 0 ∧ d = ⟨.copy 15 [k], 0, 0x33⟩ := by
  have huniq : ∀ (k : PropKey) (v v' : PropData),
      (k, v) ∈ segments.map (fun k => (((1, k), ⟨.copy 15 [k], 0, 0x33⟩) : PropKey × PropData)) →
      (k, v') ∈ segments.map (fun k => (((1, k), ⟨.copy 15 [k], 0, 0x33⟩) : PropKey × PropData)) →
      v = v' := by
    rintro k v v' hv hv'
    obtain ⟨i, -, hi⟩ := List.mem_map.mp hv
    obtain ⟨j, -, hj⟩ := List.mem_map.mp hv'
    cases hi
    cases hj
    rfl
  rw [fullProps, fetch_storeAll_empty huniq, List.mem_map]
  constructor
  · rintro ⟨i, hi, heq⟩
    cases heq
    exact ⟨mem_segments.mp hi, rfl⟩
  · rintro ⟨hk, rfl⟩
    exact ⟨k, mem_segments.mpr hk, rfl⟩

/-- The property 256 of an object is reported as created, under the id 0. -/
theorem full_ids_are_not_refused : ¬ ∀ (b : Bindery ListFile) (objId : UInt32) (d : PropData),
    NewPropName b objId d.name → CreatesOneProp b objId d := by
  intro hall
  have hnew : NewPropName fullProps 1 newProp.name := by
    intro i d hfetch hname
    obtain ⟨hi, rfl⟩ := (fetch_fullProps i d).mp hfetch
    have hlen := congrArg (fun t : CText 16 => t.bytes.length) hname
    have hone : (CText.copy 15 [i]).bytes.length ≤ 1 :=
      (List.length_take_le' _ _).trans (List.takeWhile_sublist _).length_le
    have hthree : newProp.name.bytes.length = 3 := rfl
    dsimp only at hlen
    omega
  have hfull : PropIdsFull fullProps 1 := by
    intro k hk
    rw [(fetch_fullProps k _).mpr ⟨hk, rfl⟩]
    rfl
  exact not_createsOneProp_of_full hnew hfull (hall fullProps 1 newProp hnew)

end MarsNwe
