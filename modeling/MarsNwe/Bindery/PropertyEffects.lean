import MarsNwe.Bindery.Steps

/-! # What the operations on properties and values write

For every operation that writes property or value records: when it fails and
leaves them alone, and what a fetch sees afterwards.
-/

namespace MarsNwe

open KeyedFile

variable {F : Type → Type → Type} [KeyedFile F]

/-! ## Deleting properties -/

/-- The properties of an object that `loc_delete_property` marks. -/
def deletable (c : Caller) (objId : UInt32) (name : CText 16) (ever : Bool) (p : NetProp) : Bool :=
  nameMatch name.bytes p.name.bytes && (ever || bAcc c objId p.security 0x13 == 0)

theorem markProps_xset (c : Caller) (objId : UInt32) (name : CText 16) (ever : Bool)
    (ps : List NetProp) (result : Int) (xset : List UInt8) :
    (markProps c objId name ever ps result xset).2 =
      ((ps.filter (deletable c objId name ever)).map NetProp.id).reverse ++ xset := by
  induction ps generalizing result xset with
  | nil => rfl
  | cons p ps ih =>
      rw [markProps, List.filter_cons]
      by_cases hname : nameMatch name.bytes p.name.bytes
      · by_cases hright : (ever || bAcc c objId p.security 0x13 == 0) = true
        · rw [if_pos hname, if_pos hright, ih, if_pos (by simp [deletable, hname, hright])]
          simp
        · rw [if_pos hname, if_neg hright, ih, if_neg (by simp [deletable, hright])]
      · rw [if_neg hname, ih, if_neg (by simp [deletable, hname])]

/-- The result is an error until the first mark and from then on at least the
id of every marked property. -/
theorem markProps_result (c : Caller) (objId : UInt32) (name : CText 16) (ever : Bool)
    (ps : List NetProp) {result : Int} (xset : List UInt8)
    (hresult : result = -0xfb ∨ result = -0xf6 ∨ 0 ≤ result) :
    let r := (markProps c objId name ever ps result xset).1
    result ≤ r ∧ (∀ p ∈ ps, deletable c objId name ever p → (p.id.toNat : Int) ≤ r) ∧
      ((0 ≤ result ∨ ∃ p ∈ ps, deletable c objId name ever p) ∨ r = -0xfb ∨ r = -0xf6) := by
  induction ps generalizing result xset with
  | nil =>
      refine ⟨Int.le_refl _, by simp, ?_⟩
      rcases hresult with h | h | h
      · exact .inr (.inl h)
      · exact .inr (.inr h)
      · exact .inl (.inl h)
  | cons p ps ih =>
      intro r
      by_cases hdel : deletable c objId name ever p
      · have hr : r = (markProps c objId name ever ps (max result p.id.toNat) (p.id :: xset)).1 := by
          simp only [deletable, Bool.and_eq_true] at hdel
          simp only [r, markProps, if_pos hdel.1, if_pos hdel.2]
        obtain ⟨hle, hids, -⟩ := ih (p.id :: xset)
          (.inr (.inr (Int.le_trans (Int.natCast_nonneg _) (Int.le_max_right result p.id.toNat))))
        rw [← hr] at hle hids
        refine ⟨by omega, ?_, .inl (.inr ⟨p, List.mem_cons_self, hdel⟩)⟩
        intro q hq hqdel
        rcases List.mem_cons.mp hq with rfl | hq
        · omega
        · exact hids q hq hqdel
      · have hr : ∃ result', r = (markProps c objId name ever ps result' xset).1 ∧
            result ≤ result' ∧ (0 ≤ result' → 0 ≤ result) ∧
            (result' = -0xfb ∨ result' = -0xf6 ∨ 0 ≤ result') := by
          simp only [deletable, Bool.and_eq_true, not_and] at hdel
          by_cases hname : nameMatch name.bytes p.name.bytes
          · refine ⟨if result < 0 then -0xf6 else result, ?_, ?_, ?_, ?_⟩
            · simp only [r, markProps, if_pos hname, if_neg (hdel hname)]
            all_goals split <;> omega
          · exact ⟨result, by simp only [r, markProps, if_neg hname], Int.le_refl _, id, hresult⟩
        obtain ⟨result', hr, hle', hsign, hcases⟩ := hr
        obtain ⟨hle, hids, hend⟩ := ih xset hcases
        rw [← hr] at hle hids hend
        refine ⟨by omega, ?_, ?_⟩
        · intro q hq hqdel
          rcases List.mem_cons.mp hq with rfl | hq
          · exact absurd hqdel hdel
          · exact hids q hq hqdel
        · rcases hend with (hsign' | ⟨q, hq, hqdel⟩) | hend
          · exact .inl (.inl (hsign hsign'))
          · exact .inl (.inr ⟨q, List.mem_cons_of_mem _ hq, hqdel⟩)
          · exact .inr hend

/-- The ids other than 0 of the properties that `loc_delete_property` deletes. -/
def deletedIds (c : Caller) (b : Bindery F) (objId : UInt32) (name : CText 16) (ever : Bool) :
    List UInt8 :=
  segments.filter fun k =>
    k ∈ ((b.propsOf objId).filter (deletable c objId name ever)).map NetProp.id

theorem mem_deletedIds {c : Caller} {b : Bindery F} {objId : UInt32} {name : CText 16}
    {ever : Bool} {k : UInt8} : k ∈ deletedIds c b objId name ever ↔
      k ≠ 0 ∧ ∃ p ∈ b.propsOf objId, deletable c objId name ever p = true ∧ p.id = k := by
  simp only [deletedIds, List.mem_filter, mem_segments, List.mem_map, decide_eq_true_eq, and_assoc]

theorem deletedIds_nodup (c : Caller) (b : Bindery F) (objId : UInt32) (name : CText 16)
    (ever : Bool) : (deletedIds c b objId name ever).Nodup :=
  (segmentsAfter_nodup 0).filter _

theorem deletedIds_stored {c : Caller} {b : Bindery F} {objId : UInt32} {name : CText 16}
    {ever : Bool} : ∀ k ∈ (deletedIds c b objId name ever).map (Prod.mk objId),
      (fetch b.nwprop k).isSome := by
  intro k hk
  obtain ⟨i, hi, rfl⟩ := List.mem_map.mp hk
  obtain ⟨-, p, hp, -, rfl⟩ := mem_deletedIds.mp hi
  rw [(Bindery.mem_propsOf.mp hp).2]
  rfl

/-- `loc_delete_property` in closed form: the values and records of the marked
properties, and success unless nothing was marked. -/
theorem locDeleteProperty_eq (c : Caller) (b : Bindery F) (objId : UInt32) (name : CText 16)
    (ever : Bool) :
    let ids := deletedIds c b objId name ever
    (locDeleteProperty c b objId name ever).2 = { b with
      nwval := deleteValues b.nwval objId ids
      nwprop := deletePrefix b.nwprop (ids.map (Prod.mk objId)) } ∧
    ((locDeleteProperty c b objId name ever).1 = 0 ∨
      (locDeleteProperty c b objId name ever).1 < 0 ∧
        ∀ p ∈ b.propsOf objId, deletable c objId name ever p = false) := by
  intro ids
  have hxset := markProps_xset c objId name ever (b.propsOf objId) (-0xfb) []
  obtain ⟨-, hids, hend⟩ := markProps_result c objId name ever (b.propsOf objId) [] (.inl rfl)
  rw [locDeleteProperty]
  generalize markProps c objId name ever (b.propsOf objId) (-0xfb) [] = marks at hxset hids hend
  obtain ⟨result, xset⟩ := marks
  dsimp only at hxset hids hend ⊢
  rw [List.append_nil] at hxset
  subst hxset
  have hmem : ∀ k, k ∈ (((b.propsOf objId).filter (deletable c objId name ever)).map
      NetProp.id).reverse ↔
      ∃ p ∈ b.propsOf objId, deletable c objId name ever p = true ∧ p.id = k := by
    intro k
    simp only [List.mem_reverse, List.mem_map, List.mem_filter, and_assoc]
  by_cases hpos : 0 < result
  · have hfilter : segments.filter (fun k => decide (k ∈ (((b.propsOf objId).filter
        (deletable c objId name ever)).map NetProp.id).reverse) &&
        decide ((k.toNat : Int) ≤ result)) = ids := by
      apply List.filter_congr
      intro k _
      simp only [List.mem_reverse]
      rw [Bool.and_eq_left_iff_imp, decide_eq_true_eq, decide_eq_true_eq]
      intro hk
      obtain ⟨p, hp, hdel, rfl⟩ := (hmem k).mp (List.mem_reverse.mpr hk)
      exact hids p hp hdel
    have hall : ((ids.map (Prod.mk objId)).all fun k => (fetch b.nwprop k).isSome) = true :=
      List.all_eq_true.mpr deletedIds_stored
    rw [deleteMarked, if_pos hpos]
    dsimp only
    rw [hfilter, if_pos hall]
    exact ⟨rfl, .inl rfl⟩
  · have hnone : ids = [] := by
      rw [List.eq_nil_iff_forall_not_mem]
      intro k hk
      obtain ⟨hne, p, hp, hdel, rfl⟩ := mem_deletedIds.mp hk
      have hle := hids p hp hdel
      have hzero : p.id.toNat = 0 := by omega
      exact hne (UInt8.toNat_inj.mp hzero)
    rw [deleteMarked, if_neg hpos, hnone]
    refine ⟨rfl, ?_⟩
    by_cases hmarked : ∃ p ∈ b.propsOf objId, deletable c objId name ever p = true
    · obtain ⟨p, hp, hdel⟩ := hmarked
      have hle := hids p hp hdel
      exact .inl (by dsimp only; omega)
    · refine .inr ⟨?_, fun p hp => Bool.eq_false_iff.mpr fun hdel => hmarked ⟨p, hp, hdel⟩⟩
      rcases hend with (hsign | hex) | hend | hend
      · omega
      · exact absurd hex hmarked
      · dsimp only
        omega
      · dsimp only
        omega

/-- Failing, `loc_delete_property` has deleted nothing. -/
theorem locDeleteProperty_error {c : Caller} {b : Bindery F} {objId : UInt32} {name : CText 16}
    {ever : Bool} (h : (locDeleteProperty c b objId name ever).1 ≠ 0) :
    (locDeleteProperty c b objId name ever).2 = b := by
  obtain ⟨heq, hcode⟩ := locDeleteProperty_eq c b objId name ever
  have hnone := (hcode.resolve_left h).2
  have hids : deletedIds c b objId name ever = [] := by
    rw [List.eq_nil_iff_forall_not_mem]
    intro k hk
    obtain ⟨-, p, hp, hdel, -⟩ := mem_deletedIds.mp hk
    rw [hnone p hp] at hdel
    contradiction
  rw [heq, hids]
  rfl

theorem fetch_nwprop_locDeleteProperty (c : Caller) (b : Bindery F) (objId : UInt32)
    (name : CText 16) (ever : Bool) (k : PropKey) :
    fetch (locDeleteProperty c b objId name ever).2.nwprop k =
      if k.1 = objId ∧ k.2 ∈ deletedIds c b objId name ever then none else fetch b.nwprop k := by
  have hnodup : ((deletedIds c b objId name ever).map (Prod.mk objId)).Nodup :=
    (deletedIds_nodup c b objId name ever).map (Prod.mk_right_injective objId)
  rw [(locDeleteProperty_eq c b objId name ever).1]
  dsimp only
  rw [fetch_deletePrefix hnodup, storedPrefix_of_all deletedIds_stored]
  obtain ⟨o, i⟩ := k
  simp only [List.mem_map, Prod.mk.injEq]
  congr 1
  rw [eq_iff_iff]
  constructor
  · rintro ⟨i', hi, rfl, rfl⟩
    exact ⟨rfl, hi⟩
  · rintro ⟨rfl, hi⟩
    exact ⟨i, hi, rfl, rfl⟩

end MarsNwe
