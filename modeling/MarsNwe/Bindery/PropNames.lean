import MarsNwe.Bindery.Confidential

/-! # Property names

No object has two properties of the same name. A lookup by a name without
wildcards then finds at most one property, whatever the order of the walk, and
the value of a named property is a notion of its own.
-/

namespace MarsNwe

open KeyedFile

variable {F : Type → Type → Type} [KeyedFile F]

/-- The properties of an object bear different names. -/
def PropNamesUnique (b : Bindery F) : Prop :=
  ∀ objId i j d d', fetch b.nwprop (objId, i) = some d → fetch b.nwprop (objId, j) = some d' →
    d.name = d'.name → i = j

theorem PropNamesUnique.empty : PropNamesUnique (Bindery.empty : Bindery F) := by
  intro objId i j d d' hfetch
  rw [Bindery.empty, fetch_empty] at hfetch
  contradiction

/-- Fewer properties, and the same names: the names stay unique. -/
theorem PropNamesUnique.of_names {b b' : Bindery F} (h : PropNamesUnique b)
    (hnames : ∀ k d, fetch b'.nwprop k = some d →
      ∃ d', fetch b.nwprop k = some d' ∧ d'.name = d.name) : PropNamesUnique b' := by
  intro objId i j d d' hi hj heq
  obtain ⟨e, he, hname⟩ := hnames _ d hi
  obtain ⟨e', he', hname'⟩ := hnames _ d' hj
  apply h objId i j e e' he he'
  rw [hname, heq, hname']

theorem PropNamesUnique.of_nwprop {b b' : Bindery F} (h : PropNamesUnique b)
    (hprop : b'.nwprop = b.nwprop) : PropNamesUnique b' :=
  h.of_names fun _ d hfetch => ⟨d, hprop ▸ hfetch, rfl⟩

/-! ## Creating a property -/

/-- The record that `nw_create_obj_prop` leaves under the id it returns; nothing
else changes. -/
theorem nwCreateObjProp_fetch (b : Bindery F) (objId : UInt32) (d : PropData) (k : PropKey) :
    fetch (nwCreateObjProp b objId d).2.2.nwprop k =
      if k = (objId, (nwCreateObjProp b objId d).2.1) then some d else fetch b.nwprop k := by
  unfold nwCreateObjProp
  split
  next p hfind =>
    obtain ⟨hobj, hfetch⟩ := Bindery.mem_propsOf.mp (List.mem_of_find?_eq_some hfind)
    have hname : d.name = p.name := by simpa using List.find?_some hfind
    split
    next hother =>
      dsimp only
      rw [fetch_store]
      split
      next =>
        rw [← hname]
      next => rfl
    next hsame =>
      dsimp only
      rw [not_or, not_not, not_not] at hsame
      split
      next heq =>
        rw [heq, hfetch, Option.some.injEq]
        cases hp : p.toPropData
        cases d
        simp_all
      next => rfl
  next => exact fetch_store _ _ _ _

/-- The id returned belongs to a property of this name, is free, or is 0. -/
theorem nwCreateObjProp_id (b : Bindery F) (objId : UInt32) (d : PropData) :
    (∃ d', fetch b.nwprop (objId, (nwCreateObjProp b objId d).2.1) = some d' ∧ d'.name = d.name) ∨
      (∀ i d', fetch b.nwprop (objId, i) = some d' → d'.name ≠ d.name) ∧
        ((nwCreateObjProp b objId d).2.1 = 0 ∨
          fetch b.nwprop (objId, (nwCreateObjProp b objId d).2.1) = none) := by
  unfold nwCreateObjProp
  split
  next p hfind =>
    obtain ⟨-, hfetch⟩ := Bindery.mem_propsOf.mp (List.mem_of_find?_eq_some hfind)
    have hname : d.name = p.name := by simpa using List.find?_some hfind
    refine .inl ⟨p.toPropData, ?_, hname.symm⟩
    split <;> exact hfetch
  next hfind =>
    refine .inr ⟨fun i d' hfetch hname => ?_, ?_⟩
    · have hnot := List.find?_eq_none.mp hfind ⟨d', objId, i⟩ (Bindery.mem_propsOf.mpr ⟨rfl, hfetch⟩)
      simp [hname] at hnot
    · dsimp only
      by_cases hzero : freePropId ((b.propsOf objId).map NetProp.id) = 0
      · exact .inl hzero
      · apply Or.inr
        rw [Option.eq_none_iff_forall_ne_some]
        intro d' hfetch
        have hmem : freePropId ((b.propsOf objId).map NetProp.id) ∈
            (b.propsOf objId).map NetProp.id :=
          List.mem_map.mpr ⟨⟨d', objId, _⟩, Bindery.mem_propsOf.mpr ⟨rfl, hfetch⟩, rfl⟩
        have hfree : freePropId ((b.propsOf objId).map NetProp.id) ∉
            (b.propsOf objId).map NetProp.id := by
          unfold freePropId at hzero ⊢
          split at hzero
          next k hk => simpa using List.find?_some hk
          next => exact absurd rfl hzero
        exact hfree hmem

theorem PropNamesUnique.createObjProp {b : Bindery F} (h : PropNamesUnique b) (objId : UInt32)
    (d : PropData) : PropNamesUnique (nwCreateObjProp b objId d).2.2 := by
  intro objId' i j e e' hi hj heq
  rw [nwCreateObjProp_fetch] at hi hj
  generalize hid : (nwCreateObjProp b objId d).2.1 = id at hi hj
  -- A record of the new name besides the one written would have been found.
  have hother : ∀ l e, (objId, l) ≠ (objId, id) → fetch b.nwprop (objId, l) = some e →
      e.name ≠ d.name := by
    intro l e hne hfetch hname
    rcases nwCreateObjProp_id b objId d with ⟨d', hd', hname'⟩ | ⟨hnone, -⟩
    · rw [hid] at hd'
      exact hne (by rw [h objId l id e d' hfetch hd' (hname.trans hname'.symm)])
    · exact hnone l e hfetch hname
  split at hi <;> split at hj
  next hki hkj => exact (Prod.mk.inj (hki.trans hkj.symm)).2
  next hki hkj =>
    obtain ⟨rfl, rfl⟩ := Prod.mk.inj hki
    rw [← Option.some.inj hi] at heq
    exact absurd heq.symm (hother j e' hkj hj)
  next hki hkj =>
    obtain ⟨rfl, rfl⟩ := Prod.mk.inj hkj
    rw [← Option.some.inj hj] at heq
    exact absurd heq (hother i e hki hi)
  next => exact h objId' i j e e' hi hj heq

/-! ## Runs -/

theorem PropNamesUnique.effect {c : Caller} {b b' : Bindery F} {r : BindRequest}
    (h : PropNamesUnique b) (heff : Effect c b r b') : PropNamesUnique b' := by
  cases heff with
  | none => exact h
  | objCreated => exact h.of_nwprop rfl
  | objDeleted type name o hobj hright =>
      apply h.of_names
      intro k d hfetch
      rw [fetch_nwprop_locDeleteObj hobj hright] at hfetch
      split at hfetch
      next => contradiction
      next => exact ⟨d, hfetch, rfl⟩
  | objRenamed => exact h.of_nwprop rfl
  | objSecured => exact h.of_nwprop rfl
  | propCreated type name o d => exact h.createObjProp o.id d
  | propDeleted type name objId propName =>
      apply h.of_names
      intro k d hfetch
      rw [fetch_nwprop_locDeleteProperty] at hfetch
      split at hfetch
      next => contradiction
      next => exact ⟨d, hfetch, rfl⟩
  | propSecured type name objId propName security =>
      apply h.of_names
      intro k d hfetch
      unfold locChangePropSecurity at hfetch
      split at hfetch
      next => exact ⟨d, hfetch, rfl⟩
      next p hfind =>
        obtain ⟨hobj, hstored⟩ := Bindery.mem_propsOf.mp (List.mem_of_find?_eq_some hfind)
        split at hfetch
        next => exact ⟨d, hfetch, rfl⟩
        next =>
          dsimp only at hfetch
          rw [fetch_store] at hfetch
          split at hfetch
          next heq =>
            rw [heq, ← Option.some.inj hfetch]
            exact ⟨_, hstored, rfl⟩
          next => exact ⟨d, hfetch, rfl⟩
  | valueWritten type name propName p segment value erase =>
      apply h.of_nwprop
      unfold insPropVal
      split
      next => rfl
      next =>
        split
        next => rfl
        next => split <;> rfl
  | memberAdded type name propName memberType memberName p m =>
      apply h.of_nwprop
      unfold propAddMember
      split <;> rfl
  | memberDeleted type name propName memberType memberName p m =>
      apply h.of_nwprop
      unfold propDeleteMember
      split <;> rfl

/-- Whatever requests are made, property names stay unique. -/
theorem propNamesUnique_exec (rs : List (Caller × BindRequest)) :
    PropNamesUnique (binderyMachine.exec (Bindery.empty : Bindery F) rs) :=
  binderyMachine.exec_preserves
    (fun b r => handleBindRequest_preserves
      (fun _ type name h => h.of_nwprop (Looked.find type name .refl).sameData.nwprop)
      (fun _ _ _ _ h heff => h.effect heff) r.1 b r.2)
    rs .empty

/-! ## Named values -/

/-- Segment 1 of the property of an object that bears a name. -/
def HasValue (b : Bindery F) (objId : UInt32) (name : CText 16) (v : Value) : Prop :=
  ∃ i d, fetch b.nwprop (objId, i) = some d ∧ d.name = name ∧ fetch b.nwval (objId, i, 1) = some v

theorem HasValue.unique {b : Bindery F} (h : PropNamesUnique b) {objId : UInt32} {name : CText 16}
    {v v' : Value} (hv : HasValue b objId name v) (hv' : HasValue b objId name v') : v = v' := by
  obtain ⟨i, d, hprop, hname, hval⟩ := hv
  obtain ⟨j, d', hprop', hname', hval'⟩ := hv'
  obtain rfl := h objId i j d d' hprop hprop' (hname.trans hname'.symm)
  rw [hval] at hval'
  exact Option.some.inj hval'

/-- Internally, a name without wildcards is found exactly where it stands. -/
theorem findPropId_internal {c : Caller} (hc : c.internalAct = true) {b : Bindery F}
    (huniq : PropNamesUnique b) {objId : UInt32} {name : CText 16}
    (hname : WildcardFree name.bytes) (p : NetProp) : findPropId c b objId name 0 = .ok p ↔
      p.objId = objId ∧ fetch b.nwprop (objId, p.id) = some p.toPropData ∧ p.name = name := by
  constructor
  · intro hfind
    obtain ⟨hhas, rfl, hmatch, -⟩ := findPropId_ok hfind
    exact ⟨rfl, hhas, CText.ext ((nameMatch_of_wildcardFree hname _).mp hmatch)⟩
  · rintro ⟨rfl, hfetch, heq⟩
    have hread : ∀ q : NetProp, (bAcc c p.objId q.security 0x00 == 0) = true := fun q =>
      beq_iff_eq.mpr (bAcc_eq_zero.mpr (Caller.granted_of_internal hc _ _ _))
    unfold findPropId
    rw [propsAfter, if_pos rfl]
    cases hfind : (b.propsOf p.objId).find? fun q =>
        nameMatch name.bytes q.name.bytes && bAcc c p.objId q.security 0x00 == 0 with
    | none =>
        have hnot := List.find?_eq_none.mp hfind p (Bindery.mem_propsOf.mpr ⟨rfl, hfetch⟩)
        rw [heq, (nameMatch_of_wildcardFree hname _).mpr rfl, hread] at hnot
        exact absurd rfl hnot
    | some q =>
        obtain ⟨hobj, hfetch'⟩ := Bindery.mem_propsOf.mp (List.mem_of_find?_eq_some hfind)
        have hmatch := List.find?_some hfind
        rw [Bool.and_eq_true] at hmatch
        have hname' : q.name = name :=
          CText.ext ((nameMatch_of_wildcardFree hname _).mp hmatch.1)
        have hid := huniq p.objId q.id p.id _ _ hfetch' hfetch (hname'.trans heq.symm)
        rw [hid, hfetch, Option.some.injEq] at hfetch'
        cases p
        cases q
        simp_all

/-- Reading the value of a named property internally. -/
theorem nwGetPropValByObjId_internal {c : Caller} (hc : c.internalAct = true) {b : Bindery F}
    (huniq : PropNamesUnique b) {objId : UInt32} {name : CText 16}
    (hname : WildcardFree name.bytes) (v : Value) :
    (∃ more flags, nwGetPropValByObjId c b objId 1 name = .ok (v, more, flags)) ↔
      HasValue b objId name v := by
  have hright : ∀ security, bAcc c objId security 0x10 = 0 := fun security =>
    bAcc_eq_zero.mpr (Caller.granted_of_internal hc _ _ _)
  unfold nwGetPropValByObjId locGetPropVal
  constructor
  · rintro ⟨more, flags, hget⟩
    cases hfind : findPropId c b objId name 0 with
    | error e =>
        rw [hfind] at hget
        contradiction
    | ok p =>
        obtain ⟨-, hfetch, heq⟩ := (findPropId_internal hc huniq hname p).mp hfind
        rw [hfind] at hget
        dsimp only at hget
        rw [hright, if_neg (not_not.mpr rfl)] at hget
        cases hval : fetch b.nwval (objId, p.id, 1) with
        | none =>
            rw [hval] at hget
            contradiction
        | some w =>
            rw [hval] at hget
            obtain ⟨rfl, -⟩ := Prod.mk.inj (Except.ok.inj hget)
            exact ⟨p.id, p.toPropData, hfetch, heq, hval⟩
  · rintro ⟨i, d, hfetch, heq, hval⟩
    have hfind := (findPropId_internal hc huniq hname ⟨d, objId, i⟩).mpr ⟨rfl, hfetch, heq⟩
    rw [hfind]
    dsimp only
    rw [hright, if_neg (not_not.mpr rfl), hval]
    exact ⟨_, _, rfl⟩

end MarsNwe
