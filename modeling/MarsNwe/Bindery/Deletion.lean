import MarsNwe.Bindery.NameIndex
import MarsNwe.Bindery.Values

/-! # Deleting an object completely

`loc_delete_obj` deletes the properties of an object with their values, takes
the object out of all sets and deletes its record. In every bindery reached by
requests this leaves nothing behind, unless the object has a property with the
id 0 or a value segment 0, or a set holds it more than once or in its segment 0.
-/

namespace MarsNwe

open KeyedFile

variable {F : Type → Type → Type} [KeyedFile F]

/-! ## The set properties collected -/

theorem mem_setProps {b : Bindery F} {k : PropKey} :
    k ∈ setProps b ↔ ∃ d, fetch b.nwprop k = some d ∧ d.isSet = true := by
  simp only [setProps, List.mem_map, List.mem_filter]
  constructor
  · rintro ⟨⟨k', d⟩, ⟨hmem, hset⟩, rfl⟩
    exact ⟨d, mem_walk.mp hmem, hset⟩
  · rintro ⟨d, hfetch, hset⟩
    exact ⟨(k, d), ⟨mem_walk.mpr hfetch, hset⟩, rfl⟩

theorem setProps_nodup (b : Bindery F) : (setProps b).Nodup := by
  have hkeys : ((walk b.nwprop).map Prod.fst).Nodup := by
    rw [walk_keys]
    exact keys_nodup b.nwprop
  exact hkeys.sublist ((List.filter_sublist).map Prod.fst)

/-- Deleting properties leaves no more set properties than before. -/
theorem setProps_length_locDeleteProperty (c : Caller) (b : Bindery F) (objId : UInt32)
    (name : CText 16) (ever : Bool) :
    (setProps (locDeleteProperty c b objId name ever).2).length ≤ (setProps b).length := by
  refine (List.subperm_of_subset (setProps_nodup _) fun k hk => ?_).length_le
  obtain ⟨d, hfetch, hset⟩ := mem_setProps.mp hk
  rw [fetch_nwprop_locDeleteProperty] at hfetch
  split at hfetch
  · contradiction
  · exact mem_setProps.mpr ⟨d, hfetch, hset⟩

/-! ## The values stay linked in all runs -/

theorem ValuesLinked.deleteObj {b : Bindery F} (h : ValuesLinked b) {c : Caller} {o : NetObj}
    (hobj : b.obj o.id = some o) (hright : bAcc c o.id 0x33 0x03 = 0) :
    ValuesLinked (locDeleteObj c b o.id).2 := by
  rw [locDeleteObj_ok hobj hright]
  refine (h.deleteProperty c o.id anyName true).congr (fun k => ?_) fun k hk => hk
  exact fetch_dropMember_isSome ((setProps_nodup _).sublist (List.take_sublist _ _)) k

theorem ValuesLinked.effect {c : Caller} {b b' : Bindery F} {r : BindRequest}
    (h : ValuesLinked b) (heff : Effect c b r b') : ValuesLinked b' := by
  cases heff with
  | none => exact h
  | objCreated => exact h.congr (fun _ => rfl) fun _ hk => hk
  | objDeleted type name o hobj hright => exact h.deleteObj hobj hright
  | objRenamed => exact h.congr (fun _ => rfl) fun _ hk => hk
  | objSecured => exact h.congr (fun _ => rfl) fun _ hk => hk
  | propCreated type name o d => exact h.createObjProp o.id d
  | propDeleted type name objId propName => exact h.deleteProperty c objId propName false
  | propSecured type name objId propName security =>
      exact h.changePropSecurity c objId propName security
  | valueWritten type name propName p segment value erase hprop =>
      exact h.insPropVal hprop c segment value erase
  | memberAdded type name propName memberType memberName p m hprop =>
      exact h.propAddMember hprop c m.id
  | memberDeleted type name propName memberType memberName p m =>
      exact h.propDeleteMember c p.objId p.id p.security m.id

theorem valuesLinked_exec (rs : List (Caller × BindRequest)) :
    ValuesLinked (binderyMachine.exec (Bindery.empty : Bindery F) rs) :=
  binderyMachine.exec_preserves
    (fun b r => handleBindRequest_preserves
      (fun _ type name h => h.sameData (Looked.find type name .refl).sameData)
      (fun _ _ _ _ h heff => h.effect heff) r.1 b r.2)
    rs .empty

/-! ## What a deletion leaves -/

/-- Nothing in the bindery mentions the object id any more. -/
structure Gone (b : Bindery F) (id : UInt32) : Prop where
  noProps : ∀ propId, fetch b.nwprop (id, propId) = none
  noValues : ∀ propId segment, fetch b.nwval (id, propId, segment) = none
  noMember : ∀ objId propId d, objId ≠ id → fetch b.nwprop (objId, propId) = some d →
    d.isSet = true → ∀ segment, id ∉ cellsAt b.nwval (objId, propId, segment)
  noObj : fetch b.nwobj id = none
  noIndex : ∀ name type, fetch b.nwiobj (name, type) ≠ some id

/-- The records of an object that its deletion reaches are all there are. For
the id 0, which marks empty cells, that means sets without empty cells. -/
structure Reachable (b : Bindery F) (id : UInt32) : Prop where
  noPropZero : fetch b.nwprop (id, 0) = none
  noSegmentZero : ∀ propId, fetch b.nwval (id, propId, 0) = none
  memberOnce : ∀ objId propId d, objId ≠ id → fetch b.nwprop (objId, propId) = some d →
    d.isSet = true → id ∉ cellsAt b.nwval (objId, propId, 0) ∧
      if id = 0 then ∀ k ∈ valKeys objId propId, 0 ∉ cellsAt b.nwval k
      else (setMembers b.nwval (valKeys objId propId)).count id ≤ 1

theorem mem_deletedIds_anyName {c : Caller} {b : Bindery F} {objId : UInt32} {k : UInt8} :
    k ∈ deletedIds c b objId anyName true ↔ k ≠ 0 ∧ (fetch b.nwprop (objId, k)).isSome := by
  rw [mem_deletedIds]
  refine and_congr_right fun _ => ?_
  constructor
  · rintro ⟨p, hp, -, rfl⟩
    rw [(Bindery.mem_propsOf.mp hp).2]
    rfl
  · intro hsome
    obtain ⟨d, hfetch⟩ := Option.isSome_iff_exists.mp hsome
    refine ⟨⟨d, objId, k⟩, Bindery.mem_propsOf.mpr ⟨rfl, hfetch⟩, ?_, rfl⟩
    have hany : anyName.bytes = [chr '*'] := by decide
    rw [deletable, hany, nameMatch_star]
    rfl

section

variable {c : Caller} {b : Bindery F} {o : NetObj}

/-- The property records after a deletion. -/
theorem fetch_nwprop_locDeleteObj (hobj : b.obj o.id = some o)
    (hright : bAcc c o.id 0x33 0x03 = 0) (k : PropKey) :
    fetch (locDeleteObj c b o.id).2.nwprop k =
      if k.1 = o.id ∧ k.2 ≠ 0 then none else fetch b.nwprop k := by
  rw [locDeleteObj_ok hobj hright]
  dsimp only
  rw [fetch_nwprop_locDeleteProperty]
  simp only [mem_deletedIds_anyName]
  obtain ⟨objId, propId⟩ := k
  dsimp only
  by_cases hdel : objId = o.id ∧ propId ≠ 0
  · obtain ⟨rfl, hne⟩ := hdel
    rw [if_pos (⟨rfl, hne⟩ : o.id = o.id ∧ propId ≠ 0)]
    cases hfetch : fetch b.nwprop (o.id, propId) with
    | none => simp
    | some d => simp [hne]
  · rw [if_neg hdel, if_neg fun h => hdel ⟨h.1, h.2.1⟩]

theorem fetch_nwval_deleteAll (h : ValuesLinked b) (k : ValKey) :
    fetch (locDeleteProperty c b o.id anyName true).2.nwval k =
      if k.1 = o.id ∧ k.2.1 ∈ deletedIds c b o.id anyName true ∧ k.2.2 ≠ 0 then none
      else fetch b.nwval k := by
  rw [(locDeleteProperty_eq c b o.id anyName true).1]
  exact fetch_deleteValues_of_gapFree (deletedIds_nodup c b o.id anyName true)
    (fun i _ => h.gapFree o.id i) k

/-- Of the object's own values the segments 0 and the values of the property 0
are left. -/
theorem fetch_nwval_locDeleteObj_self (h : ValuesLinked b) (hobj : b.obj o.id = some o)
    (hright : bAcc c o.id 0x33 0x03 = 0) (propId segment : UInt8) :
    (fetch (locDeleteObj c b o.id).2.nwval (o.id, propId, segment)).isSome ↔
      (propId = 0 ∨ segment = 0) ∧ (fetch b.nwval (o.id, propId, segment)).isSome := by
  rw [locDeleteObj_ok hobj hright]
  dsimp only
  rw [fetch_dropMember_isSome ((setProps_nodup _).sublist (List.take_sublist _ _)),
    fetch_nwval_deleteAll h]
  simp only [mem_deletedIds_anyName]
  by_cases hleft : propId = 0 ∨ segment = 0
  · rw [if_neg fun hdel => hleft.elim hdel.2.1.1 hdel.2.2]
    simp [hleft]
  · rw [not_or] at hleft
    have hnot : ¬ ((propId = 0 ∨ segment = 0) ∧
        (fetch b.nwval (o.id, propId, segment)).isSome) := fun hx => hx.1.elim hleft.1 hleft.2
    refine iff_of_false (fun hsome => ?_) hnot
    split at hsome
    · contradiction
    next hkeep =>
      exact hkeep ⟨trivial, ⟨hleft.1, h.owned o.id propId segment hleft.2 hsome⟩, hleft.2⟩

/-- In the values of other objects, every set has been searched for the id. -/
theorem fetch_nwval_locDeleteObj_other (h : ValuesLinked b) (hobj : b.obj o.id = some o)
    (hright : bAcc c o.id 0x33 0x03 = 0) (hsets : (setProps b).length ≤ locMaxObjs)
    {k : ValKey} (hk : k.1 ≠ o.id) : fetch (locDeleteObj c b o.id).2.nwval k =
      if (k.1, k.2.1) ∈ setProps b then
        fetch (deleteMember b.nwval o.id (valKeys k.1 k.2.1)) k
      else fetch b.nwval k := by
  have hall : (setProps (locDeleteProperty c b o.id anyName true).2).take locMaxObjs =
      setProps (locDeleteProperty c b o.id anyName true).2 :=
    List.take_of_length_le (Nat.le_trans (setProps_length_locDeleteProperty c b _ _ _) hsets)
  have hkept : ∀ k' : ValKey, k'.1 = k.1 →
      fetch (locDeleteProperty c b o.id anyName true).2.nwval k' = fetch b.nwval k' := by
    intro k' hk'
    rw [fetch_nwval_deleteAll h, if_neg fun hdel => hk (hk' ▸ hdel.1)]
  have hset : (k.1, k.2.1) ∈ setProps (locDeleteProperty c b o.id anyName true).2 ↔
      (k.1, k.2.1) ∈ setProps b := by
    rw [mem_setProps, mem_setProps, fetch_nwprop_locDeleteProperty, if_neg fun hdel => hk hdel.1]
  rw [locDeleteObj_ok hobj hright]
  dsimp only
  rw [hall, fetch_dropMember (setProps_nodup _)]
  simp only [hset]
  split
  · by_cases hmem : k ∈ valKeys k.1 k.2.1
    · exact fetch_deleteMember_congr
        (fun k' hk' => hkept k' (mem_valKeys.mp hk').1) k hmem
    · rw [fetch_deleteMember_of_notMem hmem, fetch_deleteMember_of_notMem hmem, hkept k rfl]
  · exact hkept k rfl

/-- A set of another object no longer holds the id exactly when it held it at
most once, and not in its segment 0. -/
theorem notMem_cells_locDeleteObj (h : ValuesLinked b) (hobj : b.obj o.id = some o)
    (hright : bAcc c o.id 0x33 0x03 = 0) (hsets : (setProps b).length ≤ locMaxObjs)
    {objId : UInt32} {propId : UInt8} {d : PropData} (hne : objId ≠ o.id)
    (hfetch : fetch b.nwprop (objId, propId) = some d) (hset : d.isSet = true) :
    (∀ segment, o.id ∉ cellsAt (locDeleteObj c b o.id).2.nwval (objId, propId, segment)) ↔
      o.id ∉ cellsAt b.nwval (objId, propId, 0) ∧
        if o.id = 0 then ∀ k ∈ valKeys objId propId, 0 ∉ cellsAt b.nwval k
        else (setMembers b.nwval (valKeys objId propId)).count o.id ≤ 1 := by
  have hval : ∀ segment, cellsAt (locDeleteObj c b o.id).2.nwval (objId, propId, segment) =
      cellsAt (deleteMember b.nwval o.id (valKeys objId propId)) (objId, propId, segment) := by
    intro segment
    apply cellsAt_congr
    rw [fetch_nwval_locDeleteObj_other (k := (objId, propId, segment)) h hobj hright hsets hne,
      if_pos (mem_setProps.mpr ⟨d, hfetch, hset⟩)]
  have hzero : (objId, propId, (0 : UInt8)) ∉ valKeys objId propId :=
    fun hmem => (mem_valKeys.mp hmem).2.2 rfl
  have hsplit : (∀ segment, o.id ∉
        cellsAt (locDeleteObj c b o.id).2.nwval (objId, propId, segment)) ↔
      o.id ∉ cellsAt b.nwval (objId, propId, 0) ∧ ∀ k ∈ valKeys objId propId,
        o.id ∉ cellsAt (deleteMember b.nwval o.id (valKeys objId propId)) k := by
    simp only [hval]
    constructor
    · intro hall
      refine ⟨?_, fun k hk => ?_⟩
      · have h0 := hall 0
        rwa [cellsAt_congr (fetch_deleteMember_of_notMem hzero)] at h0
      · obtain ⟨rfl, rfl, -⟩ := mem_valKeys.mp hk
        exact hall k.2.2
    · rintro ⟨h0, hall⟩ segment
      by_cases hseg : segment = 0
      · rw [hseg, cellsAt_congr (fetch_deleteMember_of_notMem hzero)]
        exact h0
      · exact hall _ (mem_valKeys.mpr ⟨rfl, rfl, hseg⟩)
  rw [hsplit]
  refine and_congr_right fun _ => ?_
  have hnodup := valKeys_nodup objId propId
  have hgap := h.gapFree objId propId
  split
  next hid =>
    have hiff := mem_cells_deleteMember_zero hnodup hgap
    rw [hid]
    rw [← not_iff_not] at hiff
    simpa only [not_exists, not_and] using hiff
  next hid =>
    have hmembers := setMembers_deleteMember hid hnodup hgap
    have hcount : (setMembers b.nwval (valKeys objId propId)).count o.id ≤ 1 ↔
        o.id ∉ setMembers (deleteMember b.nwval o.id (valKeys objId propId))
          (valKeys objId propId) := by
      rw [hmembers, ← List.count_eq_zero, List.count_erase_self]
      omega
    rw [hcount, mem_setMembers]
    simp only [hid, ne_eq, not_false_eq_true, true_and, not_exists, not_and]

end

/-- In every bindery reached by requests, the deletion of an object leaves
nothing behind exactly when its records are the reachable ones. -/
theorem nwDeleteObj_gone_iff (rs : List (Caller × BindRequest)) (c : Caller) (type : UInt16)
    (name : CText 48) {o : NetObj} {b' b'' : Bindery F}
    (hsets : (setProps (binderyMachine.exec (Bindery.empty : Bindery F) rs)).length ≤ locMaxObjs)
    (hfind : findObjId (binderyMachine.exec (Bindery.empty : Bindery F) rs) type name = (.ok o, b'))
    (hdelete : nwDeleteObj c (binderyMachine.exec (Bindery.empty : Bindery F) rs) type name =
      (0, b'')) :
    Gone b'' o.id ↔ Reachable (binderyMachine.exec (Bindery.empty : Bindery F) rs) o.id := by
  have hlinked := valuesLinked_exec (F := F) rs
  have hsound := (indexSound_exec (F := F) rs).find type name
  generalize binderyMachine.exec (Bindery.empty : Bindery F) rs = b at *
  have hobj := findObjId_obj hfind
  have hsame := (Looked.of_find hfind).sameData
  rw [hfind] at hsound
  have hlinked' := hlinked.sameData hsame
  have hsets' : (setProps b').length ≤ locMaxObjs := by
    rwa [setProps, hsame.nwprop]
  simp only [nwDeleteObj, hfind] at hdelete
  have hright : bAcc c o.id 0x33 0x03 = 0 := by
    by_contra hright
    rw [locDeleteObj, if_pos hright] at hdelete
    exact hright (congrArg Prod.fst hdelete)
  obtain rfl : (locDeleteObj c b' o.id).2 = b'' := congrArg Prod.snd hdelete
  have hprop := fetch_nwprop_locDeleteObj hobj hright
  have hself := fetch_nwval_locDeleteObj_self hlinked' hobj hright
  rw [hsame.nwprop] at hprop
  rw [hsame.nwval] at hself
  constructor
  · intro hgone
    refine ⟨?_, fun propId => ?_, fun objId propId d hne hfetch hset => ?_⟩
    · have h0 := hgone.noProps 0
      rwa [hprop, if_neg fun h => h.2 rfl] at h0
    · by_contra hsome
      have hleft := (hself propId 0).mpr ⟨.inr rfl, Option.isSome_iff_ne_none.mpr hsome⟩
      rw [hgone.noValues] at hleft
      contradiction
    · have hno := hgone.noMember objId propId d hne
        (by rw [hprop, if_neg fun h => hne h.1]; exact hfetch) hset
      rw [notMem_cells_locDeleteObj hlinked' hobj hright hsets' hne
        (by rw [hsame.nwprop]; exact hfetch) hset, hsame.nwval] at hno
      exact hno
  · intro hreach
    refine ⟨fun propId => ?_, fun propId segment => ?_, fun objId propId d hne hfetch hset => ?_,
      ?_, fun name' type' hindex => ?_⟩
    · rw [hprop]
      split
      · rfl
      next hkeep =>
        have hzero : propId = 0 := by simpa using hkeep
        rw [hzero]
        exact hreach.noPropZero
    · by_contra hsome
      obtain ⟨hzero, hstored⟩ := (hself propId segment).mp (Option.isSome_iff_ne_none.mpr hsome)
      by_cases hseg : segment = 0
      · rw [hseg, hreach.noSegmentZero] at hstored
        contradiction
      · have howned := hlinked.owned o.id propId segment hseg hstored
        rw [hzero.resolve_right hseg, hreach.noPropZero] at howned
        contradiction
    · rw [hprop, if_neg fun h => hne h.1] at hfetch
      rw [notMem_cells_locDeleteObj hlinked' hobj hright hsets' hne
        (by rw [hsame.nwprop]; exact hfetch) hset, hsame.nwval]
      exact hreach.memberOnce objId propId d hne hfetch hset
    · rw [locDeleteObj_ok hobj hright]
      exact fetch_delete_self _ _
    · have hindex' : IndexSound (locDeleteObj c b' o.id).2 := by
        rw [locDeleteObj_ok hobj hright]
        exact hsound.objDeleted hobj rfl rfl
      obtain ⟨o', hobj', -⟩ := hindex' name' type' o.id hindex
      have hnone : (locDeleteObj c b' o.id).2.obj o.id = none := by
        rw [locDeleteObj_ok hobj hright, Bindery.obj, fetch_delete_self]
        rfl
      rw [hnone] at hobj'
      contradiction

/-- ANN gets a property with a value of two segments, and is a member of the group GRP. -/
def annMemberRun : List (Caller × BindRequest) :=
  [(.supervisor, .createObj 0 0x33 1 (objName ['A', 'N', 'N'])),
   (.supervisor, .createProp 1 (objName ['A', 'N', 'N']) ⟨propName ['P'], 0, 0x33⟩),
   (.supervisor, .writePropVal 1 (objName ['A', 'N', 'N']) 1 0 (propName ['P']) (.zero 128)),
   (.supervisor, .writePropVal 1 (objName ['A', 'N', 'N']) 2 0 (propName ['P']) (.zero 128)),
   (.supervisor, .createObj 0 0x33 2 (objName ['G', 'R', 'P'])),
   (.supervisor, .createProp 2 (objName ['G', 'R', 'P']) ⟨propName ['M'], 2, 0x33⟩),
   (.supervisor, .addToSet 2 (objName ['G', 'R', 'P']) (propName ['M']) 1 (objName ['A', 'N', 'N']))]

def annMember : Bindery ListFile := binderyMachine.exec Bindery.empty annMemberRun

theorem reachable_annMember : Reachable annMember 0x10002 := by
  have hprops : (keys annMember.nwprop).all fun k => k.2 ≠ 0 ∧ (k.1 ≠ 0x10002 →
      0x10002 ∉ cellsAt annMember.nwval (k.1, k.2, 0) ∧
        (setMembers annMember.nwval (valKeys k.1 k.2)).count 0x10002 ≤ 1) := by decide +kernel
  have hvals : (keys annMember.nwval).all fun k => k.2.2 ≠ 0 := by decide +kernel
  simp only [List.all_eq_true, decide_eq_true_eq] at hprops hvals
  refine ⟨?_, fun propId => ?_, fun objId propId d hne hfetch _ => ?_⟩
  · by_contra hsome
    have hmem := (mem_keys _ _).mpr (Option.isSome_iff_ne_none.mpr hsome)
    exact (hprops _ hmem).1 rfl
  · by_contra hsome
    have hmem := (mem_keys _ _).mpr (Option.isSome_iff_ne_none.mpr hsome)
    exact hvals _ hmem rfl
  · have hmem := (mem_keys annMember.nwprop (objId, propId)).mpr (by rw [hfetch]; rfl)
    exact (hprops _ hmem).2 hne

/-- Nothing of ANN is left, neither his values nor his membership. -/
theorem nwDeleteObj_gone_iff_ann :
    keys annMember.nwval = [(0x10002, 1, 1), (0x10002, 1, 2), (0x20002, 1, 1)] ∧
      setMembers annMember.nwval (valKeys 0x20002 1) = [0x10002] ∧
      Gone (nwDeleteObj .supervisor annMember 1 (objName ['A', 'N', 'N'])).2 0x10002 := by
  have hsets : (setProps annMember).length ≤ locMaxObjs := by decide +kernel
  have hcode : (nwDeleteObj .supervisor annMember 1 (objName ['A', 'N', 'N'])).1 = 0 := by
    decide +kernel
  have hann : (findObjId annMember 1 (objName ['A', 'N', 'N'])).1.toOption.map NetObj.id =
      some 0x10002 := by decide +kernel
  cases hfind : findObjId annMember 1 (objName ['A', 'N', 'N']) with
  | mk found b' =>
      cases hdelete : nwDeleteObj .supervisor annMember 1 (objName ['A', 'N', 'N']) with
      | mk code b'' =>
          rw [hdelete] at hcode
          rw [hfind] at hann
          obtain rfl : code = 0 := hcode
          cases found with
          | error code => cases hann
          | ok o =>
              have hgone := nwDeleteObj_gone_iff annMemberRun _ _ _ hsets hfind hdelete
              rw [Option.some.inj hann] at hgone
              exact ⟨by decide +kernel, by decide +kernel, hgone.mpr reachable_annMember⟩

/-- ANN gets a property, whose value is written to segment 0. -/
def segmentZeroRun : List (Caller × BindRequest) :=
  [(.supervisor, .createObj 0 0x33 1 (objName ['A', 'N', 'N'])),
   (.supervisor, .createProp 1 (objName ['A', 'N', 'N']) ⟨propName ['P'], 0, 0x33⟩),
   (.supervisor, .writePropVal 1 (objName ['A', 'N', 'N']) 0 0 (propName ['P']) (.zero 128))]

/-- The segment 0 stays when ANN is deleted. -/
theorem nwDeleteObj_leaves_segmentZero : ¬ ∀ (rs : List (Caller × BindRequest)) (c : Caller)
    (type : UInt16) (name : CText 48) (o : NetObj) (b' b'' : Bindery ListFile),
    (setProps (binderyMachine.exec (Bindery.empty : Bindery ListFile) rs)).length ≤ locMaxObjs →
    findObjId (binderyMachine.exec Bindery.empty rs) type name = (.ok o, b') →
    nwDeleteObj c (binderyMachine.exec Bindery.empty rs) type name = (0, b'') →
    Gone b'' o.id := by
  intro hall
  have hgone := hall segmentZeroRun .supervisor 1 (objName ['A', 'N', 'N'])
    ⟨⟨objName ['A', 'N', 'N'], 1, 0, 0x33⟩, 0x10002⟩ _ _ (by decide +kernel) rfl rfl
  exact absurd (hgone.noValues 1 0) (by decide +kernel)

end MarsNwe
