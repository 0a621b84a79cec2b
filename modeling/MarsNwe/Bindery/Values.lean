import MarsNwe.Bindery.PropertyEffects

/-! # Value segments and the members of sets

The value of a property is read and deleted segment by segment up to the first
missing one. That this reaches every segment is an invariant of all runs: the
stored segments from 1 on have no gap, and each belongs to a property record.
-/

namespace MarsNwe

open KeyedFile

variable {F : Type → Type → Type} [KeyedFile F]

/-! ## Loops up to the first missing segment -/

/-- No stored key of the list stands behind a missing one. -/
def GapFree (f : F ValKey Value) (ks : List ValKey) : Prop :=
  ks.Pairwise fun k k' => (fetch f k').isSome → (fetch f k).isSome

theorem segmentsAfter_sorted (s : UInt8) :
    (segmentsAfter s).Pairwise fun t t' => t.toNat < t'.toNat := by
  rw [segmentsAfter, List.pairwise_map]
  apply List.Pairwise.imp_of_mem _ (List.pairwise_lt_range' (s := s.toNat + 1))
  intro m n hm hn hlt
  rw [List.mem_range'_1] at hm hn
  rw [UInt8.toNat_ofNat', UInt8.toNat_ofNat']
  omega

theorem valKeysAfter_nodup (objId : UInt32) (propId s : UInt8) :
    (valKeysAfter objId propId s).Nodup :=
  (segmentsAfter_nodup s).map fun t t' heq => by simpa using heq

theorem valKeys_nodup (objId : UInt32) (propId : UInt8) : (valKeys objId propId).Nodup :=
  valKeysAfter_nodup objId propId 0

theorem mem_valKeysAfter {objId : UInt32} {propId s : UInt8} {k : ValKey} :
    k ∈ valKeysAfter objId propId s ↔ k.1 = objId ∧ k.2.1 = propId ∧ s.toNat < k.2.2.toNat := by
  simp only [valKeysAfter, List.mem_map, mem_segmentsAfter]
  constructor
  · rintro ⟨t, ht, rfl⟩
    exact ⟨rfl, rfl, ht⟩
  · rintro ⟨rfl, rfl, ht⟩
    exact ⟨k.2.2, ht, rfl⟩

theorem mem_valKeys {objId : UInt32} {propId : UInt8} {k : ValKey} :
    k ∈ valKeys objId propId ↔ k.1 = objId ∧ k.2.1 = propId ∧ k.2.2 ≠ 0 := by
  have hpos : (0 : UInt8).toNat < k.2.2.toNat ↔ k.2.2 ≠ 0 := by
    rw [ne_eq, ← UInt8.toNat_inj]
    exact Nat.pos_iff_ne_zero
  rw [valKeys, mem_valKeysAfter, hpos]

/-- Without a gap every stored key comes before the first missing one. -/
theorem GapFree.mem_storedPrefix {f : F ValKey Value} {ks : List ValKey} (h : GapFree f ks)
    {k : ValKey} : k ∈ storedPrefix f ks ↔ k ∈ ks ∧ (fetch f k).isSome := by
  induction ks with
  | nil => simp [storedPrefix]
  | cons head tail ih =>
      obtain ⟨hhead, htail⟩ := List.pairwise_cons.mp h
      rw [storedPrefix, List.takeWhile_cons]
      split
      next hstored =>
        have htailIff := ih htail
        rw [storedPrefix] at htailIff
        rw [List.mem_cons, List.mem_cons, htailIff]
        constructor
        · rintro (rfl | ⟨hmem, hsome⟩)
          · exact ⟨.inl rfl, hstored⟩
          · exact ⟨.inr hmem, hsome⟩
        · rintro ⟨rfl | hmem, hsome⟩
          · exact .inl rfl
          · exact .inr ⟨hmem, hsome⟩
      next hmissing =>
        refine ⟨fun hmem => absurd hmem List.not_mem_nil, ?_⟩
        rintro ⟨hmem, hsome⟩
        rcases List.mem_cons.mp hmem with rfl | hmem
        · exact absurd hsome hmissing
        · exact absurd (hhead k hmem hsome) hmissing

theorem fetch_deletePrefix_of_gapFree {f : F ValKey Value} {ks : List ValKey}
    (hnodup : ks.Nodup) (h : GapFree f ks) (k : ValKey) :
    fetch (deletePrefix f ks) k = if k ∈ ks then none else fetch f k := by
  rw [fetch_deletePrefix hnodup]
  by_cases hmem : k ∈ ks
  · by_cases hsome : (fetch f k).isSome
    · rw [if_pos (h.mem_storedPrefix.mpr ⟨hmem, hsome⟩), if_pos hmem]
    · rw [if_neg fun hk => hsome (h.mem_storedPrefix.mp hk).2, if_pos hmem]
      exact Option.not_isSome_iff_eq_none.mp hsome
  · rw [if_neg fun hk => hmem (h.mem_storedPrefix.mp hk).1, if_neg hmem]

theorem GapFree.congr {f g : F ValKey Value} {ks : List ValKey} (h : GapFree f ks)
    (hsame : ∀ k ∈ ks, (fetch g k).isSome = (fetch f k).isSome) : GapFree g ks := by
  refine List.Pairwise.imp_of_mem (fun hk hk' hstored => ?_) h
  rw [hsame _ hk, hsame _ hk']
  exact hstored

/-- The same value segments of one property. -/
def SameValue (f g : F ValKey Value) (k : PropKey) : Prop :=
  ∀ t, fetch g (k.1, k.2, t) = fetch f (k.1, k.2, t)

theorem SameValue.trans {f g i : F ValKey Value} {k : PropKey} (h : SameValue f g k)
    (h' : SameValue g i k) : SameValue f i k :=
  fun t => (h' t).trans (h t)

theorem SameValue.of_mem {f g : F ValKey Value} {k : PropKey} (h : SameValue f g k) {s : UInt8}
    {k' : ValKey} (hk' : k' ∈ valKeysAfter k.1 k.2 s) : fetch g k' = fetch f k' := by
  obtain ⟨hobj, hprop, -⟩ := mem_valKeysAfter.mp hk'
  have hsame := h k'.2.2
  rwa [← hobj, ← hprop] at hsame

/-! ## The members of a set property -/

/-- The cells of a list of segments, one after the other. -/
def setCells (f : F ValKey Value) (ks : List ValKey) : List UInt32 := ks.flatMap (cellsAt f)

/-- The ids in the cells; 0 marks an empty cell. -/
def setMembers (f : F ValKey Value) (ks : List ValKey) : List UInt32 :=
  (setCells f ks).filter (· ≠ 0)

@[simp] theorem setMembers_nil (f : F ValKey Value) : setMembers f [] = [] := rfl

@[simp] theorem setMembers_cons (f : F ValKey Value) (k : ValKey) (ks : List ValKey) :
    setMembers f (k :: ks) = (cellsAt f k).filter (· ≠ 0) ++ setMembers f ks := by
  rw [setMembers, setCells, List.flatMap_cons, List.filter_append]
  rfl

theorem cellsAt_some {f : F ValKey Value} {k : ValKey} {v : Value} (h : fetch f k = some v) :
    cellsAt f k = v.members := by
  rw [cellsAt, h]

theorem cellsAt_none {f : F ValKey Value} {k : ValKey} (h : fetch f k = none) :
    cellsAt f k = [] := by
  rw [cellsAt, h]

theorem cellsAt_congr {f g : F ValKey Value} {k : ValKey} (h : fetch g k = fetch f k) :
    cellsAt g k = cellsAt f k := by
  rw [cellsAt, h, cellsAt]

theorem cellsAt_store_self (f : F ValKey Value) (k : ValKey) (v : Value) :
    cellsAt (store f k v) k = v.members :=
  cellsAt_some (fetch_store_self f k v)

theorem setMembers_congr {f g : F ValKey Value} {ks : List ValKey}
    (h : ∀ k ∈ ks, fetch g k = fetch f k) : setMembers g ks = setMembers f ks := by
  induction ks with
  | nil => rfl
  | cons k ks ih =>
      rw [setMembers_cons, setMembers_cons, cellsAt_congr (h k List.mem_cons_self),
        ih fun k' hk' => h k' (List.mem_cons_of_mem _ hk')]

theorem setMembers_store_of_notMem {f : F ValKey Value} {k : ValKey} {v : Value}
    {ks : List ValKey} (hk : k ∉ ks) : setMembers (store f k v) ks = setMembers f ks :=
  setMembers_congr fun _ hk' => fetch_store_of_ne f v (ne_of_mem_of_not_mem hk' hk)

theorem mem_setMembers {f : F ValKey Value} {ks : List ValKey} {id : UInt32} :
    id ∈ setMembers f ks ↔ id ≠ 0 ∧ ∃ k ∈ ks, id ∈ cellsAt f k := by
  rw [setMembers, List.mem_filter, setCells, List.mem_flatMap, decide_eq_true_eq, and_comm]

/-- A missing segment of a gap-free list is followed by missing ones only. -/
theorem GapFree.setMembers_eq_nil {f : F ValKey Value} {k : ValKey} {ks : List ValKey}
    (h : GapFree f (k :: ks)) (hmissing : fetch f k = none) : setMembers f (k :: ks) = [] := by
  rw [List.eq_nil_iff_forall_not_mem]
  intro id hid
  obtain ⟨-, k', hk', hcell⟩ := mem_setMembers.mp hid
  have hstored : (fetch f k').isSome := by
    cases hfetch : fetch f k' with
    | some v => rfl
    | none =>
        rw [cellsAt_none hfetch] at hcell
        contradiction
  rcases List.mem_cons.mp hk' with rfl | hk'
  · rw [hmissing] at hstored
    contradiction
  · have hhead := (List.pairwise_cons.mp h).1 k' hk' hstored
    rw [hmissing] at hhead
    contradiction

/-! ## Deleting a member -/

theorem members_removeCell_idxOf {v : Value} {id : UInt32} (hmem : id ∈ v.members) :
    (v.removeCell (v.members.idxOf id)).members = v.members.erase id ++ [0] := by
  have hidx : v.members.idxOf id < 32 := by
    have hlt := List.idxOf_lt_length_iff.mpr hmem
    rwa [Value.length_members] at hlt
  rw [Value.members_removeCell v hidx, ← List.eraseIdx_eq_take_drop_succ,
    List.eraseIdx_idxOf_eq_erase]

/-- The loop touches no key outside its list. -/
theorem fetch_deleteMember_of_notMem {f : F ValKey Value} {id : UInt32} {ks : List ValKey}
    {k : ValKey} (hk : k ∉ ks) : fetch (deleteMember f id ks) k = fetch f k := by
  induction ks with
  | nil => rfl
  | cons head tail ih =>
      have hne : k ≠ head := fun heq => hk (heq ▸ List.mem_cons_self)
      unfold deleteMember
      split
      · split
        · exact fetch_store_of_ne _ _ hne
        · exact ih fun hmem => hk (List.mem_cons_of_mem _ hmem)
      · rfl

/-- The loop neither creates nor deletes a segment. -/
theorem fetch_deleteMember_isSome (f : F ValKey Value) (id : UInt32) (ks : List ValKey)
    (k : ValKey) : (fetch (deleteMember f id ks) k).isSome = (fetch f k).isSome := by
  induction ks with
  | nil => rfl
  | cons head tail ih =>
      unfold deleteMember
      split
      next v hfetch =>
        split
        · rw [fetch_store]
          split
          next heq => rw [heq, hfetch, Option.isSome_some, Option.isSome_some]
          next => rfl
        · exact ih
      next => rfl

/-- The loop depends on the segments of its list only. -/
theorem fetch_deleteMember_congr {f g : F ValKey Value} {id : UInt32} {ks : List ValKey}
    (h : ∀ k ∈ ks, fetch g k = fetch f k) :
    ∀ k ∈ ks, fetch (deleteMember g id ks) k = fetch (deleteMember f id ks) k := by
  induction ks with
  | nil => simp
  | cons head tail ih =>
      have htail := ih fun k hk => h k (List.mem_cons_of_mem _ hk)
      intro k hk
      unfold deleteMember
      rw [h head List.mem_cons_self]
      split
      next v hfetch =>
        split
        · rw [fetch_store, fetch_store, h k hk]
        · by_cases hmem : k ∈ tail
          · exact htail k hmem
          · rw [fetch_deleteMember_of_notMem hmem, fetch_deleteMember_of_notMem hmem, h k hk]
      next => exact h k hk

/-- Deleting a member deletes its first occurrence. -/
theorem setMembers_deleteMember {f : F ValKey Value} {id : UInt32} (hid : id ≠ 0)
    {ks : List ValKey} (hnodup : ks.Nodup) (hgap : GapFree f ks) :
    setMembers (deleteMember f id ks) ks = (setMembers f ks).erase id := by
  induction ks with
  | nil => rfl
  | cons k ks ih =>
      obtain ⟨hk, hks⟩ := List.nodup_cons.mp hnodup
      rw [deleteMember]
      split
      next v hfetch =>
        rw [setMembers_cons, setMembers_cons, cellsAt_some hfetch]
        split
        next hmem =>
          have hnonzero : id ∈ v.members.filter (· ≠ 0) := List.mem_filter.mpr ⟨hmem, by simpa⟩
          rw [cellsAt_store_self, members_removeCell_idxOf hmem, setMembers_store_of_notMem hk,
            List.filter_append, List.erase_append_left _ hnonzero,
            List.erase_filter]
          simp
        next habsent =>
          have hnot : id ∉ v.members.filter (· ≠ 0) := fun h => habsent (List.mem_filter.mp h).1
          rw [cellsAt_congr (fetch_deleteMember_of_notMem hk), cellsAt_some hfetch,
            ih hks hgap.of_cons, List.erase_append_right _ hnot]
      next hmissing =>
        rw [hgap.setMembers_eq_nil hmissing]
        rfl

/-- Taking out the id 0 moves empty cells only. -/
theorem mem_cells_deleteMember_zero {f : F ValKey Value} {ks : List ValKey} (hnodup : ks.Nodup)
    (hgap : GapFree f ks) : (∃ k ∈ ks, 0 ∈ cellsAt (deleteMember f 0 ks) k) ↔
      ∃ k ∈ ks, 0 ∈ cellsAt f k := by
  induction ks with
  | nil => simp
  | cons k ks ih =>
      obtain ⟨hk, hks⟩ := List.nodup_cons.mp hnodup
      rw [deleteMember]
      split
      next v hfetch =>
        split
        next hmem =>
          refine ⟨fun _ => ⟨k, List.mem_cons_self, ?_⟩, fun _ => ⟨k, List.mem_cons_self, ?_⟩⟩
          · rwa [cellsAt_some hfetch]
          · rw [cellsAt_store_self, members_removeCell_idxOf hmem]
            simp
        next habsent =>
          have hkeep : cellsAt (deleteMember f 0 ks) k = cellsAt f k :=
            cellsAt_congr (fetch_deleteMember_of_notMem hk)
          simp only [List.mem_cons, exists_eq_or_imp, hkeep, ih hks hgap.of_cons]
      next => rfl

/-- Taking a member out of several sets works on each set by itself. -/
theorem fetch_dropMember {f : F ValKey Value} {id : UInt32} {ps : List PropKey}
    (hnodup : ps.Nodup) (k : ValKey) : fetch (dropMember f id ps) k =
      if (k.1, k.2.1) ∈ ps then fetch (deleteMember f id (valKeys k.1 k.2.1)) k
      else fetch f k := by
  induction ps generalizing k with
  | nil => rfl
  | cons p ps ih =>
      obtain ⟨hp, hps⟩ := List.nodup_cons.mp hnodup
      rw [show dropMember f id (p :: ps) = deleteMember (dropMember f id ps) id (valKeys p.1 p.2)
        from rfl]
      by_cases hkey : (k.1, k.2.1) = p
      · subst hkey
        have hsame : ∀ k' ∈ valKeys k.1 k.2.1, fetch (dropMember f id ps) k' = fetch f k' := by
          intro k' hk'
          obtain ⟨hobj, hprop, -⟩ := mem_valKeys.mp hk'
          rw [ih hps, hobj, hprop, if_neg hp]
        rw [if_pos List.mem_cons_self]
        by_cases hmem : k ∈ valKeys k.1 k.2.1
        · exact fetch_deleteMember_congr hsame k hmem
        · rw [fetch_deleteMember_of_notMem hmem, fetch_deleteMember_of_notMem hmem, ih hps,
            if_neg hp]
      · have hmem : k ∉ valKeys p.1 p.2 := by
          intro hmem
          obtain ⟨hobj, hprop, -⟩ := mem_valKeys.mp hmem
          exact hkey (by rw [hobj, hprop])
        rw [fetch_deleteMember_of_notMem hmem, ih hps]
        simp only [List.mem_cons, hkey, false_or]

theorem fetch_dropMember_isSome {f : F ValKey Value} {id : UInt32} {ps : List PropKey}
    (hnodup : ps.Nodup) (k : ValKey) :
    (fetch (dropMember f id ps) k).isSome = (fetch f k).isSome := by
  rw [fetch_dropMember hnodup]
  split
  · exact fetch_deleteMember_isSome f id _ k
  · rfl

/-! ## Adding a member -/

/-- Adding a member creates at most one segment, behind stored ones only. -/
theorem fetch_addMember_isSome (f : F ValKey Value) (id : UInt32) (ks : List ValKey) :
    (∀ k, (fetch (addMember f id ks).2 k).isSome = (fetch f k).isSome) ∨
    ∃ pre k suf, ks = pre ++ k :: suf ∧ (∀ k' ∈ pre, (fetch f k').isSome) ∧
      ∀ k', (fetch (addMember f id ks).2 k').isSome = (k' = k || (fetch f k').isSome) := by
  induction ks with
  | nil => exact .inl fun k => rfl
  | cons k ks ih =>
      unfold addMember
      split
      next v hfetch =>
        split
        · refine .inl fun k' => ?_
          rw [fetch_store]
          split
          next heq => rw [heq, hfetch, Option.isSome_some, Option.isSome_some]
          next => rfl
        · rcases ih with hsame | ⟨pre, k', suf, rfl, hpre, hiff⟩
          · exact .inl hsame
          · refine .inr ⟨k :: pre, k', suf, rfl, ?_, hiff⟩
            intro k'' hk''
            rcases List.mem_cons.mp hk'' with rfl | hk''
            · rw [hfetch, Option.isSome_some]
            · exact hpre k'' hk''
      next hmissing =>
        refine .inr ⟨[], k, ks, rfl, by simp, fun k' => ?_⟩
        rw [fetch_store]
        split
        next heq => simp [heq]
        next hne => simp [hne]

theorem fetch_addMember_of_notMem {f : F ValKey Value} {id : UInt32} {ks : List ValKey}
    {k : ValKey} (hk : k ∉ ks) : fetch (addMember f id ks).2 k = fetch f k := by
  induction ks with
  | nil => rfl
  | cons head tail ih =>
      have hne : k ≠ head := fun heq => hk (heq ▸ List.mem_cons_self)
      unfold addMember
      split
      · split
        · exact fetch_store_of_ne _ _ hne
        · exact ih fun hmem => hk (List.mem_cons_of_mem _ hmem)
      · exact fetch_store_of_ne _ _ hne

/-- The loop depends on the segments of its list only. -/
theorem addMember_congr {f g : F ValKey Value} {id : UInt32} {ks : List ValKey}
    (h : ∀ k ∈ ks, fetch g k = fetch f k) : (addMember g id ks).1 = (addMember f id ks).1 ∧
      ∀ k ∈ ks, fetch (addMember g id ks).2 k = fetch (addMember f id ks).2 k := by
  induction ks with
  | nil => exact ⟨rfl, h⟩
  | cons head tail ih =>
      obtain ⟨hcode, htail⟩ := ih fun k hk => h k (List.mem_cons_of_mem _ hk)
      unfold addMember
      rw [h head List.mem_cons_self]
      split
      · split
        · refine ⟨rfl, fun k hk => ?_⟩
          rw [fetch_store, fetch_store, h k hk]
        · refine ⟨hcode, fun k hk => ?_⟩
          by_cases hmem : k ∈ tail
          · exact htail k hmem
          · rw [fetch_addMember_of_notMem hmem, fetch_addMember_of_notMem hmem, h k hk]
      · refine ⟨rfl, fun k hk => ?_⟩
        rw [fetch_store, fetch_store, h k hk]

/-! ## Deleting values -/

theorem storedPrefix_congr {f g : F ValKey Value} {ks : List ValKey}
    (h : ∀ k ∈ ks, fetch g k = fetch f k) : storedPrefix g ks = storedPrefix f ks := by
  apply List.takeWhile_congr_of_mem
  intro k hk
  rw [h k hk]

/-- Of each property the segments before the first missing one are deleted. -/
theorem fetch_deleteValues {f : F ValKey Value} {objId : UInt32} {ids : List UInt8}
    (hnodup : ids.Nodup) (k : ValKey) : fetch (deleteValues f objId ids) k =
      if k.1 = objId ∧ k.2.1 ∈ ids ∧ k ∈ storedPrefix f (valKeys objId k.2.1) then none
      else fetch f k := by
  induction ids generalizing f with
  | nil => simp [deleteValues]
  | cons i ids ih =>
      obtain ⟨hi, hids⟩ := List.nodup_cons.mp hnodup
      have hstep : deleteValues f objId (i :: ids) =
          deleteValues (deletePrefix f (valKeys objId i)) objId ids := rfl
      have hkey : ∀ k' ∈ storedPrefix f (valKeys objId i), k'.1 = objId ∧ k'.2.1 = i := by
        intro k' hk'
        have hmem := mem_valKeys.mp (List.takeWhile_subset _ hk')
        exact ⟨hmem.1, hmem.2.1⟩
      rw [hstep, ih hids, fetch_deletePrefix (valKeys_nodup objId i)]
      by_cases hprop : k.2.1 = i
      · subst hprop
        rw [if_neg fun h => hi h.2.1]
        by_cases hmem : k ∈ storedPrefix f (valKeys objId k.2.1)
        · rw [if_pos hmem, if_pos ⟨(hkey k hmem).1, List.mem_cons_self, hmem⟩]
        · rw [if_neg hmem, if_neg fun h => hmem h.2.2]
      · have hkeep : storedPrefix (deletePrefix f (valKeys objId i)) (valKeys objId k.2.1) =
            storedPrefix f (valKeys objId k.2.1) := by
          apply storedPrefix_congr
          intro k' hk'
          rw [fetch_deletePrefix (valKeys_nodup objId i), if_neg]
          intro hmem
          exact hprop ((mem_valKeys.mp hk').2.1 ▸ (hkey k' hmem).2)
        rw [hkeep, if_neg fun hmem => hprop (hkey k hmem).2]
        simp only [List.mem_cons, hprop, false_or]

/-- Without gaps these are all segments from 1 on. -/
theorem fetch_deleteValues_of_gapFree {f : F ValKey Value} {objId : UInt32} {ids : List UInt8}
    (hnodup : ids.Nodup) (hgap : ∀ i ∈ ids, GapFree f (valKeys objId i)) (k : ValKey) :
    fetch (deleteValues f objId ids) k =
      if k.1 = objId ∧ k.2.1 ∈ ids ∧ k.2.2 ≠ 0 then none else fetch f k := by
  rw [fetch_deleteValues hnodup]
  by_cases hdel : k.1 = objId ∧ k.2.1 ∈ ids ∧ k.2.2 ≠ 0
  · rw [if_pos hdel]
    obtain ⟨hobj, hprop, hseg⟩ := hdel
    have hmem : k ∈ valKeys objId k.2.1 := mem_valKeys.mpr ⟨hobj, rfl, hseg⟩
    split
    · rfl
    next hkeep =>
      apply Option.not_isSome_iff_eq_none.mp
      intro hsome
      exact hkeep ⟨hobj, hprop, (hgap _ hprop).mem_storedPrefix.mpr ⟨hmem, hsome⟩⟩
  · rw [if_neg hdel, if_neg]
    rintro ⟨hobj, hprop, hmem⟩
    exact hdel ⟨hobj, hprop, (mem_valKeys.mp (List.takeWhile_subset _ hmem)).2.2⟩

/-! ## The invariant of all runs -/

/-- The stored segments from 1 on have no gap and belong to property records. -/
structure ValuesLinked (b : Bindery F) : Prop where
  contiguous : ∀ objId propId (s t : UInt8), 0 < s.toNat → s.toNat < t.toNat →
    (fetch b.nwval (objId, propId, t)).isSome → (fetch b.nwval (objId, propId, s)).isSome
  owned : ∀ objId propId (s : UInt8), s ≠ 0 → (fetch b.nwval (objId, propId, s)).isSome →
    (fetch b.nwprop (objId, propId)).isSome

namespace ValuesLinked

variable {b b' : Bindery F}

theorem gapFree (h : ValuesLinked b) (objId : UInt32) (propId : UInt8) :
    GapFree b.nwval (valKeys objId propId) := by
  rw [GapFree, valKeys, valKeysAfter, List.pairwise_map]
  refine List.Pairwise.imp_of_mem (fun hs _ hlt => ?_) (segmentsAfter_sorted 0)
  exact h.contiguous objId propId _ _ (mem_segmentsAfter.mp hs) hlt

theorem empty : ValuesLinked (Bindery.empty : Bindery F) where
  contiguous objId propId s t _ _ h := by simp [Bindery.empty] at h
  owned objId propId s _ h := by simp [Bindery.empty] at h

/-- Only which segments and properties are stored matters. -/
theorem congr (h : ValuesLinked b)
    (hval : ∀ k, (fetch b'.nwval k).isSome = (fetch b.nwval k).isSome)
    (hprop : ∀ k, (fetch b.nwprop k).isSome → (fetch b'.nwprop k).isSome) :
    ValuesLinked b' := by
  constructor
  · intro objId propId s t
    rw [hval, hval]
    exact h.contiguous objId propId s t
  · intro objId propId s hs
    rw [hval]
    exact fun hstored => hprop _ (h.owned objId propId s hs hstored)

theorem sameData (h : ValuesLinked b) (hsame : SameData b b') : ValuesLinked b' :=
  h.congr (fun k => by rw [hsame.nwval]) (fun k hk => by rwa [hsame.nwprop])

theorem createObjProp (h : ValuesLinked b) (objId : UInt32) (d : PropData) :
    ValuesLinked (nwCreateObjProp b objId d).2.2 := by
  have hstore : ∀ k d', ValuesLinked { b with nwprop := store b.nwprop k d' } := by
    intro k d'
    refine h.congr (fun _ => rfl) fun k' hk' => ?_
    rw [fetch_store]
    split
    · rfl
    · exact hk'
  unfold nwCreateObjProp
  split
  · dsimp only
    split
    · exact hstore _ _
    · exact h
  · exact hstore _ _

theorem deleteProperty (h : ValuesLinked b) (c : Caller) (objId : UInt32) (name : CText 16)
    (ever : Bool) : ValuesLinked (locDeleteProperty c b objId name ever).2 := by
  have hval : ∀ k, fetch (locDeleteProperty c b objId name ever).2.nwval k =
      if k.1 = objId ∧ k.2.1 ∈ deletedIds c b objId name ever ∧ k.2.2 ≠ 0 then none
      else fetch b.nwval k := by
    intro k
    rw [(locDeleteProperty_eq c b objId name ever).1]
    exact fetch_deleteValues_of_gapFree (deletedIds_nodup c b objId name ever)
      (fun i _ => h.gapFree objId i) k
  constructor
  · intro objId' propId s t hs hst
    rw [hval, hval]
    have hs0 : s ≠ 0 := fun heq => by simp [heq] at hs
    have ht0 : t ≠ 0 := fun heq => by simp [heq] at hst
    by_cases hdel : objId' = objId ∧ propId ∈ deletedIds c b objId name ever
    · rw [if_pos ⟨hdel.1, hdel.2, ht0⟩]
      exact fun hnone => absurd hnone Bool.false_ne_true
    · rw [if_neg fun hx => hdel ⟨hx.1, hx.2.1⟩, if_neg fun hx => hdel ⟨hx.1, hx.2.1⟩]
      exact h.contiguous objId' propId s t hs hst
  · intro objId' propId s hs
    rw [hval, fetch_nwprop_locDeleteProperty]
    by_cases hdel : objId' = objId ∧ propId ∈ deletedIds c b objId name ever
    · rw [if_pos ⟨hdel.1, hdel.2, hs⟩]
      exact fun hnone => absurd hnone Bool.false_ne_true
    · rw [if_neg fun hx => hdel ⟨hx.1, hx.2.1⟩, if_neg hdel]
      exact h.owned objId' propId s hs

theorem changePropSecurity (h : ValuesLinked b) (c : Caller) (objId : UInt32) (name : CText 16)
    (security : UInt8) : ValuesLinked (locChangePropSecurity c b objId name security).2 := by
  unfold locChangePropSecurity
  split
  · exact h
  · split
    · exact h
    · refine h.congr (fun _ => rfl) fun k' hk' => ?_
      dsimp only
      rw [fetch_store]
      split
      · rfl
      · exact hk'

/-- Writing a segment whose predecessor is stored keeps the segments contiguous. -/
theorem writeSegment (h : ValuesLinked b) {p : NetProp} (hprop : b.HasProp p) {segment : UInt8}
    (hpred : ¬ (1 < segment ∧ (fetch b.nwval (p.objId, p.id, segment - 1)).isNone))
    (value : Value) :
    ValuesLinked { b with nwval := store b.nwval (p.objId, p.id, segment) value } := by
  constructor
  · intro objId propId s t hs hst hstored
    dsimp only at hstored ⊢
    rw [fetch_store] at hstored ⊢
    split
    · rfl
    next hne =>
      split at hstored
      next heq =>
        simp only [Prod.mk.injEq] at heq
        obtain ⟨rfl, rfl, rfl⟩ := heq
        have hone : 1 < t := by
          rw [UInt8.lt_iff_toNat_lt]
          exact Nat.lt_of_le_of_lt hs hst
        have hsub : (t - 1).toNat = t.toNat - 1 := by
          rw [UInt8.toNat_sub_of_le _ _ (UInt8.le_of_lt hone)]
          rfl
        have hprev : (fetch b.nwval (p.objId, p.id, t - 1)).isSome := by
          cases hfetch : fetch b.nwval (p.objId, p.id, t - 1) with
          | some v => rfl
          | none => exact absurd ⟨hone, by rw [hfetch]; rfl⟩ hpred
        by_cases hlast : s = t - 1
        · rwa [hlast]
        · refine h.contiguous p.objId p.id s (t - 1) hs ?_ hprev
          have hne' : s.toNat ≠ (t - 1).toNat := fun heq => hlast (UInt8.toNat_inj.mp heq)
          omega
      next => exact h.contiguous objId propId s t hs hst hstored
  · intro objId propId s hs hstored
    dsimp only at hstored ⊢
    rw [fetch_store] at hstored
    split at hstored
    next heq =>
      simp only [Prod.mk.injEq] at heq
      obtain ⟨rfl, rfl, -⟩ := heq
      rw [hprop]
      rfl
    next => exact h.owned objId propId s hs hstored

/-- Dropping the segments behind one keeps the segments contiguous. -/
theorem dropSegmentsAfter (h : ValuesLinked b) (objId : UInt32) (propId segment : UInt8) :
    ValuesLinked { b with nwval := deletePrefix b.nwval (valKeysAfter objId propId segment) } := by
  have hgap : GapFree b.nwval (valKeysAfter objId propId segment) := by
    rw [GapFree, valKeysAfter, List.pairwise_map]
    refine List.Pairwise.imp_of_mem (fun hs _ hlt => ?_) (segmentsAfter_sorted segment)
    have hpos := mem_segmentsAfter.mp hs
    exact h.contiguous objId propId _ _ (by omega) hlt
  have hval := fetch_deletePrefix_of_gapFree (valKeysAfter_nodup objId propId segment) hgap
  constructor
  · intro objId' propId' s t hs hst hstored
    dsimp only at hstored ⊢
    rw [hval] at hstored ⊢
    split at hstored
    · contradiction
    next hkeep =>
      rw [if_neg]
      · exact h.contiguous objId' propId' s t hs hst hstored
      · intro hdrop
        obtain ⟨hobj, hprop, hlt⟩ := mem_valKeysAfter.mp hdrop
        exact hkeep (mem_valKeysAfter.mpr ⟨hobj, hprop, Nat.lt_trans hlt hst⟩)
  · intro objId' propId' s hs hstored
    dsimp only at hstored
    rw [hval] at hstored
    split at hstored
    · contradiction
    · exact h.owned objId' propId' s hs hstored

theorem insPropVal (h : ValuesLinked b) {p : NetProp} (hprop : b.HasProp p) (c : Caller)
    (segment : UInt8) (value : Value) (erase : UInt8) :
    ValuesLinked (MarsNwe.insPropVal c b p.objId p segment value erase).2 := by
  unfold MarsNwe.insPropVal
  dsimp only
  split
  · exact h
  · split
    · exact h
    next hpred =>
      have hwrite := h.writeSegment hprop hpred value
      split
      · exact hwrite.dropSegmentsAfter p.objId p.id segment
      · exact hwrite

theorem propAddMember (h : ValuesLinked b) {p : NetProp} (hprop : b.HasProp p) (c : Caller)
    (memberId : UInt32) :
    ValuesLinked (MarsNwe.propAddMember c b p.objId p.id p.security memberId).2 := by
  unfold MarsNwe.propAddMember
  split
  · exact h
  · dsimp only
    rcases fetch_addMember_isSome b.nwval memberId (valKeys p.objId p.id) with
      hsame | ⟨pre, k, suf, hks, hpre, hiff⟩
    · exact h.congr hsame fun _ hk => hk
    · have hsorted : (valKeys p.objId p.id).Pairwise fun k k' => k.2.2.toNat < k'.2.2.toNat := by
        rw [valKeys, valKeysAfter, List.pairwise_map]
        exact segmentsAfter_sorted 0
      have hk : k ∈ valKeys p.objId p.id := by
        rw [hks]
        exact List.mem_append_right _ List.mem_cons_self
      obtain ⟨hobj, hid, -⟩ := mem_valKeys.mp hk
      constructor
      · intro objId propId s t hs hst
        dsimp only
        rw [hiff, hiff, Bool.or_eq_true, Bool.or_eq_true, decide_eq_true_eq, decide_eq_true_eq]
        rintro (heq | hstored)
        · -- the new segment stands behind stored ones
          have hs0 : s ≠ 0 := fun heq => by simp [heq] at hs
          obtain rfl : (objId, propId, t) = k := heq
          dsimp only at hobj hid
          subst hobj hid
          have hmem : (p.objId, p.id, s) ∈ valKeys p.objId p.id := mem_valKeys.mpr ⟨rfl, rfl, hs0⟩
          rw [hks] at hmem hsorted
          rcases List.mem_append.mp hmem with hmem | hmem
          · exact .inr (hpre _ hmem)
          · have htail := (List.pairwise_cons.mp (List.pairwise_append.mp hsorted).2.1).1
            rcases List.mem_cons.mp hmem with heq | hmem
            · exact .inl heq
            · have hlt := htail _ hmem
              dsimp only at hlt
              omega
        · exact .inr (h.contiguous objId propId s t hs hst hstored)
      · intro objId propId s hs
        dsimp only
        rw [hiff, Bool.or_eq_true, decide_eq_true_eq]
        rintro (heq | hstored)
        · obtain rfl : (objId, propId, s) = k := heq
          dsimp only at hobj hid
          subst hobj hid
          rw [hprop]
          rfl
        · exact h.owned objId propId s hs hstored

theorem propDeleteMember (h : ValuesLinked b) (c : Caller) (objId : UInt32)
    (propId security : UInt8) (memberId : UInt32) :
    ValuesLinked (MarsNwe.propDeleteMember c b objId propId security memberId).2 := by
  unfold MarsNwe.propDeleteMember
  split
  · exact h
  · exact h.congr (fetch_deleteMember_isSome b.nwval memberId _) fun _ hk => hk

end ValuesLinked

end MarsNwe
