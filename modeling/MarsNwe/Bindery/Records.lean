import MarsNwe.Lib.KeyedFile
import MarsNwe.Lib.ByteBuf
import MarsNwe.Lib.CText

/-! # The four files of the bindery

Every record of a bindery file starts with its key. The model keeps the key and
the rest of the record apart, so that a record is never stored under another
record's key. Names are terminated strings in their arrays, `name[48]` for
objects and `name[16]` for properties, which is what the string routines see of
them.
-/

namespace MarsNwe

/-- An object name given by its characters. -/
def objName (cs : List Char) : CText 48 := .copy 47 (asciiBytes cs)

/-- A property name given by its characters. -/
def propName (cs : List Char) : CText 16 := .copy 15 (asciiBytes cs)

/-- An object record behind its key, the object id. -/
structure ObjData where
  name : CText 48
  type : UInt16
  flags : UInt8
  security : UInt8
deriving DecidableEq

/-- `NETOBJ`. -/
structure NetObj extends ObjData where
  id : UInt32
deriving DecidableEq

/-- A property record behind its key, the object id and the property id. -/
structure PropData where
  name : CText 16
  flags : UInt8
  security : UInt8
deriving DecidableEq

/-- `NETPROP`. -/
structure NetProp extends PropData where
  objId : UInt32
  id : UInt8
deriving DecidableEq

/-- The 128 bytes of a value segment. -/
abbrev Value := ByteBuf 128

abbrev PropKey := UInt32 × UInt8
abbrev ValKey := UInt32 × UInt8 × UInt8
abbrev IndexKey := CText 48 × UInt16

/-- `P_FL_SET`: the property is a set of object ids. -/
def PropData.isSet (p : PropData) : Bool := p.flags &&& 2 != 0

/-- The files `nwobj`, `nwiobj`, `nwprop` and `nwval`. -/
structure Bindery (F : Type → Type → Type) where
  nwobj : F UInt32 ObjData
  nwiobj : F IndexKey UInt32
  nwprop : F PropKey PropData
  nwval : F ValKey Value

namespace Bindery

variable {F : Type → Type → Type} [KeyedFile F]

/-- A bindery whose files hold nothing. -/
def empty : Bindery F :=
  ⟨KeyedFile.empty, KeyedFile.empty, KeyedFile.empty, KeyedFile.empty⟩

/-- The object record with its id, as a fetch of `nwobj` returns it. -/
def obj (b : Bindery F) (id : UInt32) : Option NetObj :=
  (KeyedFile.fetch b.nwobj id).map fun d => ⟨d, id⟩

/-- The property records of one object in the order of the walk of `nwprop`. -/
def propsOf (b : Bindery F) (objId : UInt32) : List NetProp :=
  ((KeyedFile.walk b.nwprop).filter fun r => r.1.1 = objId).map fun r => ⟨r.2, r.1.1, r.1.2⟩

theorem obj_eq_some {b : Bindery F} {id : UInt32} {o : NetObj} :
    b.obj id = some o ↔ KeyedFile.fetch b.nwobj id = some o.toObjData ∧ o.id = id := by
  simp only [obj, Option.map_eq_some_iff]
  constructor
  · rintro ⟨d, hfetch, rfl⟩
    exact ⟨hfetch, rfl⟩
  · rintro ⟨hfetch, rfl⟩
    exact ⟨o.toObjData, hfetch, rfl⟩

theorem mem_propsOf {b : Bindery F} {objId : UInt32} {p : NetProp} :
    p ∈ b.propsOf objId ↔
      p.objId = objId ∧ KeyedFile.fetch b.nwprop (objId, p.id) = some p.toPropData := by
  simp only [propsOf, List.mem_map, List.mem_filter, decide_eq_true_eq]
  constructor
  · rintro ⟨⟨⟨o, i⟩, d⟩, ⟨hmem, hobj⟩, rfl⟩
    dsimp only at hobj ⊢
    subst hobj
    exact ⟨rfl, KeyedFile.mem_walk.mp hmem⟩
  · rintro ⟨rfl, hfetch⟩
    exact ⟨((p.objId, p.id), p.toPropData), ⟨KeyedFile.mem_walk.mpr hfetch, rfl⟩, rfl⟩

end Bindery

/-! ## Value segments -/

/-- The segment numbers behind `s`, in ascending order. -/
def segmentsAfter (s : UInt8) : List UInt8 :=
  (List.range' (s.toNat + 1) (255 - s.toNat)).map UInt8.ofNat

/-- The segment numbers 1 to 255 that the loops over a property's value visit. -/
def segments : List UInt8 := segmentsAfter 0

theorem mem_segmentsAfter {s t : UInt8} : t ∈ segmentsAfter s ↔ s.toNat < t.toNat := by
  have ht := t.toNat_lt
  simp only [segmentsAfter, List.mem_map, List.mem_range'_1]
  constructor
  · rintro ⟨n, hn, rfl⟩
    rw [UInt8.toNat_ofNat']
    omega
  · intro hlt
    exact ⟨t.toNat, by omega, UInt8.ofNat_toNat⟩

theorem mem_segments {t : UInt8} : t ∈ segments ↔ t ≠ 0 := by
  rw [segments, mem_segmentsAfter, ne_eq, ← UInt8.toNat_inj]
  exact Nat.pos_iff_ne_zero

theorem segmentsAfter_nodup (s : UInt8) : (segmentsAfter s).Nodup := by
  apply List.Nodup.map_on _ List.nodup_range'
  intro m hm n hn heq
  rw [List.mem_range'_1] at hm hn
  have hnat := congrArg UInt8.toNat heq
  rw [UInt8.toNat_ofNat', UInt8.toNat_ofNat'] at hnat
  omega

theorem segments_nodup : segments.Nodup := segmentsAfter_nodup 0

/-- The ids stored in a value segment of a set property, empty cells included. -/
def Value.members (v : Value) : List UInt32 := cells v.bytes

theorem Value.length_members (v : Value) : v.members.length = 32 :=
  length_cells (n := 32) v.length_eq

/-- Overwrite the cell with index `k`. -/
def Value.setCell (v : Value) (k : Nat) (id : UInt32) : Value :=
  .ofList 128 (v.bytes.take (4 * k) ++ be32Bytes id ++ v.bytes.drop (4 * k + 4))

/-- Take the cell with index `k` out, move the cells behind it down and clear
the last one. -/
def Value.removeCell (v : Value) (k : Nat) : Value :=
  .ofList 128 (v.bytes.take (4 * k) ++ v.bytes.drop (4 * k + 4) ++ List.replicate 4 0)

theorem Value.members_setCell (v : Value) {k : Nat} (hk : k < 32) (id : UInt32) :
    (v.setCell k id).members = v.members.take k ++ id :: v.members.drop (k + 1) := by
  have hv := v.length_eq
  have htake : (v.bytes.take (4 * k)).length = 4 * k := by
    rw [List.length_take]
    omega
  have hlen : (v.bytes.take (4 * k) ++ be32Bytes id ++ v.bytes.drop (4 * k + 4)).length = 128 := by
    rw [List.length_append, List.length_append, htake, length_be32Bytes, List.length_drop]
    omega
  rw [Value.members, Value.setCell, ByteBuf.bytes_ofList hlen, List.append_assoc,
    cells_append htake, cells_be32Bytes_append, cells_take,
    show 4 * k + 4 = 4 * (k + 1) by omega, cells_drop]
  rfl

theorem Value.members_removeCell (v : Value) {k : Nat} (hk : k < 32) :
    (v.removeCell k).members = v.members.take k ++ v.members.drop (k + 1) ++ [0] := by
  have hv := v.length_eq
  have htake : (v.bytes.take (4 * k)).length = 4 * k := by
    rw [List.length_take]
    omega
  have hdrop : (v.bytes.drop (4 * k + 4)).length = 4 * (31 - k) := by
    rw [List.length_drop]
    omega
  have hlen : (v.bytes.take (4 * k) ++ v.bytes.drop (4 * k + 4) ++
      List.replicate 4 0).length = 128 := by
    rw [List.length_append, List.length_append, htake, hdrop, List.length_replicate]
    omega
  rw [Value.members, Value.removeCell, ByteBuf.bytes_ofList hlen, List.append_assoc,
    cells_append htake, cells_append hdrop, cells_take,
    show 4 * k + 4 = 4 * (k + 1) by omega, cells_drop, ← List.append_assoc]
  rfl

end MarsNwe
