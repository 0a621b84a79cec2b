import MarsNwe.NameMatch
import MarsNwe.Bindery.NameIndex

/-! # Exact lookups in any bindery

`find_obj_id` takes no wildcards, but the scan behind its index does. The
results here assume nothing about the index.
-/

namespace MarsNwe

open KeyedFile Glob

variable {F : Type → Type → Type} [KeyedFile F]

/-- An object record that `scan_for_obj` takes for the type and name. -/
def Fits (type : UInt16) (name : CText 48) (d : ObjData) : Prop :=
  (d.type = type ∨ type = 0xffff) ∧ nameMatch name.bytes d.name.bytes = true

instance (type : UInt16) (name : CText 48) (d : ObjData) : Decidable (Fits type name d) :=
  inferInstanceAs (Decidable (_ ∧ _))

/-- An object record that bears the type and name. -/
def IsNamed (type : UInt16) (name : CText 48) (d : ObjData) : Prop :=
  d.name = name ∧ d.type = type

/-- The index does not lead to a record bearing the type and name, and the
first record in the order of the object file that fits them, with wildcards in
the name and type `MAX_U16` for any type, does not bear them. -/
def Misled (b : Bindery F) (type : UInt16) (name : CText 48) : Prop :=
  (∀ id d, fetch b.nwiobj (name, type) = some id → fetch b.nwobj id = some d →
    ¬ IsNamed type name d) ∧
  ∃ before r behind, walk b.nwobj = before ++ r :: behind ∧
    (∀ q ∈ before, ¬ Fits type name q.2) ∧ Fits type name r.2 ∧ ¬ IsNamed type name r.2

theorem fits_of_bears {type : UInt16} {name : CText 48} {d : ObjData} (h : IsNamed type name d) :
    Fits type name d :=
  ⟨.inl h.2, h.1 ▸ nameMatch_self _⟩

theorem indexedObj_eq_none {b : Bindery F} {type : UInt16} {name : CText 48} :
    indexedObj b type name = none ↔
      ∀ id d, fetch b.nwiobj (name, type) = some id → fetch b.nwobj id = some d →
        ¬ IsNamed type name d := by
  rw [Option.eq_none_iff_forall_ne_some]
  constructor
  · intro hnone id d hindex hobj hbears
    exact hnone ⟨d, id⟩ (indexedObj_eq_some.mpr
      ⟨hindex, Bindery.obj_eq_some.mpr ⟨hobj, rfl⟩, hbears⟩)
  · intro hall o hsome
    obtain ⟨hindex, hobj, hbears⟩ := indexedObj_eq_some.mp hsome
    exact hall o.id o.toObjData hindex (Bindery.obj_eq_some.mp hobj).1 hbears

/-- The scan of all objects, without regard to rights, for the first that fits. -/
theorem scanForObj_eq (b : Bindery F) (type : UInt16) (name : CText 48) :
    scanForObj b type name 0 none =
      match (walk b.nwobj).find? fun r => decide (Fits type name r.2) with
      | some (id, d) => .ok ⟨d, id⟩
      | none => .error (-0xfc) := by
  have htest : (fun r : UInt32 × ObjData => (r.2.type == type || type == 0xffff) &&
      nameMatch name.bytes r.2.name.bytes &&
        (none : Option Caller).all fun c => bAcc c r.1 r.2.security 0x00 == 0) =
      fun r => decide (Fits type name r.2) := by
    funext r
    rw [Bool.eq_iff_iff, decide_eq_true_iff]
    simp [Fits]
  rewrite [scanForObj, recordsAfter, if_pos (Or.inl rfl), htest]
  rfl

theorem scanForObj_eq_ok {b : Bindery F} {type : UInt16} {name : CText 48} {o : NetObj} :
    scanForObj b type name 0 none = .ok o ↔
      ∃ before behind, walk b.nwobj = before ++ (o.id, o.toObjData) :: behind ∧
        (∀ q ∈ before, ¬ Fits type name q.2) ∧ Fits type name o.toObjData := by
  rw [scanForObj_eq]
  constructor
  · intro h
    split at h
    next id d hfind =>
      cases h
      obtain ⟨hfits, before, behind, heq, hbefore⟩ := List.find?_eq_some_iff_append.mp hfind
      exact ⟨before, behind, heq, fun q hq => by simpa using hbefore q hq, by simpa using hfits⟩
    next => cases h
  · rintro ⟨before, behind, heq, hbefore, hfits⟩
    have hfind : ((walk b.nwobj).find? fun r => decide (Fits type name r.2)) =
        some (o.id, o.toObjData) :=
      List.find?_eq_some_iff_append.mpr
        ⟨decide_eq_true hfits, before, behind, heq, fun q hq => by simpa using hbefore q hq⟩
    rw [hfind]

/-- In any bindery, whatever its index holds, a lookup is exact unless it is
misled. -/
theorem findsExactly_iff_not_misled (b : Bindery F) (type : UInt16) (name : CText 48) :
    FindsExactly b type name ↔ ¬ Misled b type name := by
  unfold FindsExactly Misled
  rw [← indexedObj_eq_none]
  rcases findObjId_cases b type name with
    ⟨hindex, hscan, heq⟩ | ⟨o, hindex, heq⟩ | ⟨o, hindex, hscan, heq⟩ <;> rw [heq, hindex] <;>
    dsimp only
  · -- nothing fits, so nothing bears the type and name
    have hnone : ∀ o, b.obj o.id = some o → ¬ Fits type name o.toObjData := by
      rintro o hobj ⟨htype, hmatch⟩
      rw [(scanForObj_error hscan).2 o hobj htype] at hmatch
      contradiction
    constructor
    · rintro - ⟨-, before, ⟨id, d⟩, behind, hwalk, -, hfits, -⟩
      have hmem : (id, d) ∈ walk b.nwobj := by simp [hwalk]
      exact hnone ⟨d, id⟩ (Bindery.obj_eq_some.mpr ⟨mem_walk.mp hmem, rfl⟩) hfits
    · intro _ o hobj hbears
      exact hnone o hobj (fits_of_bears hbears)
  · obtain ⟨-, hobj, hbears⟩ := indexedObj_eq_some.mp hindex
    exact ⟨fun _ hnot => Option.some_ne_none o hnot.1, fun _ => ⟨hobj, hbears⟩⟩
  · obtain ⟨before, behind, hwalk, hbefore, hfits⟩ := scanForObj_eq_ok.mp hscan
    constructor
    · rintro ⟨-, hbears⟩ ⟨-, before', r, behind', hwalk', hbefore', hfits', hnot⟩
      have hr := scanForObj_eq_ok (o := ⟨r.2, r.1⟩).mpr ⟨before', behind', hwalk', hbefore', hfits'⟩
      rw [hscan] at hr
      cases hr
      exact hnot hbears
    · intro hnot
      refine ⟨(scanForObj_ok hscan).1, ?_⟩
      by_contra hbears
      exact hnot ⟨rfl, before, (o.id, o.toObjData), behind, hwalk, hbefore, hfits, hbears⟩

/-- Only a name with wildcards or the type `MAX_U16` misleads a lookup. -/
theorem Misled.wildcard {b : Bindery F} {type : UInt16} {name : CText 48}
    (h : Misled b type name) : ¬ WildcardFree name.bytes ∨ type = 0xffff := by
  obtain ⟨-, before, r, behind, -, -, ⟨htype, hmatch⟩, hnot⟩ := h
  by_contra hplain
  rw [not_or, not_not] at hplain
  refine hnot ⟨CText.ext ((nameMatch_of_wildcardFree hplain.1 _).mp hmatch), ?_⟩
  exact htype.resolve_right hplain.2

/-- The user `ANN`, whom a lookup of `A*` finds. -/
def annOnly : Bindery ListFile :=
  binderyMachine.exec Bindery.empty
    [(.supervisor, .createObj 0 0x33 1 (objName ['A', 'N', 'N']))]

theorem lookup_takes_wildcards :
    ¬ ∀ (b : Bindery ListFile) (type : UInt16) (name : CText 48), FindsExactly b type name := by
  intro hall
  have hfind := hall annOnly 1 (objName ['A', '*'])
  have hfound : (findObjId annOnly 1 (objName ['A', '*'])).1 =
      .ok ⟨⟨objName ['A', 'N', 'N'], 1, 0, 0x33⟩, 0x10002⟩ := by decide +kernel
  rw [FindsExactly, hfound] at hfind
  exact absurd hfind.2.1 (by decide)

end MarsNwe
