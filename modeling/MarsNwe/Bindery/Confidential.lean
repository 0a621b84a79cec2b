import MarsNwe.Bindery.Atomic
import MarsNwe.Bindery.Deletion

/-! # Properties of the server's own routines

A property whose read and write levels are both above supervisor, such as
`PASSWORD` with 0x44, is open to the server's own routines only. Requests of
connections, whatever their rights, neither change it nor depend on its value,
until its object is deleted.
-/

namespace MarsNwe

open KeyedFile

variable {F : Type → Type → Type} [KeyedFile F]

/-- Read and write level are 4, internal, or more. -/
def internalOnly (security : UInt8) : Prop :=
  4 ≤ Caller.level security 0x00 ∧ 4 ≤ Caller.level security 0x01

instance (security : UInt8) : Decidable (internalOnly security) :=
  inferInstanceAs (Decidable (_ ∧ _))

/-- No connection has a right to such a record, for whatever operation. -/
theorem bAcc_internalOnly {c : Caller} (hc : c.internalAct = false) {security : UInt8}
    (h : internalOnly security) (objId : UInt32) (forwrite : UInt8) :
    bAcc c objId security forwrite ≠ 0 := by
  have hlevel : 4 ≤ Caller.level security forwrite := by
    by_cases hwrite : forwrite &&& 0xf = 0
    · have heq : Caller.level security forwrite = Caller.level security 0x00 := by
        rw [Caller.level, if_neg (not_not.mpr hwrite)]
        rfl
      rw [heq]
      exact h.1
    · have heq : Caller.level security forwrite = Caller.level security 0x01 := by
        rw [Caller.level, if_pos hwrite]
        rfl
      rw [heq]
      exact h.2
  have hne : ∀ l : UInt8, l < 4 → Caller.level security forwrite ≠ l := by
    intro l hl heq
    rw [heq] at hlevel
    exact absurd hl (UInt8.not_lt.mpr hlevel)
  rw [ne_eq, bAcc_eq_zero, Caller.granted, if_neg (by rw [hc]; exact Bool.false_ne_true),
    if_neg (hne 0 (by decide)), if_neg (hne 1 (by decide)), if_neg (hne 2 (by decide)),
    if_neg (hne 3 (by decide))]
  exact Bool.false_ne_true

/-- A property with an id other than 0 that is open to internal routines only. -/
def Hidden (b : Bindery F) (k : PropKey) : Prop :=
  k.2 ≠ 0 ∧ ∃ d, fetch b.nwprop k = some d ∧ internalOnly d.security

/-- The value of the property is held in segments 1, 2, … without a gap. -/
structure Tidy (f : F ValKey Value) (k : PropKey) : Prop where
  gapFree : GapFree f (valKeys k.1 k.2)
  noZero : fetch f (k.1, k.2, 0) = none

/-- Two binderies that differ in the values of hidden properties only. -/
structure SameButHidden (b b₂ : Bindery F) : Prop where
  nwobj : b₂.nwobj = b.nwobj
  nwiobj : b₂.nwiobj = b.nwiobj
  nwprop : b₂.nwprop = b.nwprop
  values : ∀ k, SameValue b.nwval b₂.nwval k ∨
    (Hidden b k ∧ Tidy b.nwval k ∧ Tidy b₂.nwval k)

/-- The property request that is not subject to the write level: a property
that exists is created again, with another security or other flags. -/
def ReopensHidden (c : Caller) (b : Bindery F) : BindRequest → Prop
  | .createProp type name d =>
      ∃ o p, (BindUpdate.createProp type name d).Resecures c b o p d ∧ internalOnly p.security
  | _ => False

/-! ## Two runs: one lookup -/

/-- A pair of results: the same answer, and binderies related again. -/
def Matches {α : Type} (x x₂ : α × Bindery F) : Prop :=
  x₂.1 = x.1 ∧ SameButHidden x.2 x₂.2

theorem Matches.map {α β : Type} {x x₂ : α × Bindery F} (h : Matches x x₂) (f : α → β) :
    Matches (x.map f id) (x₂.map f id) :=
  ⟨congrArg f h.1, h.2⟩

namespace SameButHidden

variable {b b₂ : Bindery F}

theorem obj (h : SameButHidden b b₂) (id : UInt32) : b₂.obj id = b.obj id := by
  rw [Bindery.obj, h.nwobj, Bindery.obj]

theorem propsOf (h : SameButHidden b b₂) (objId : UInt32) : b₂.propsOf objId = b.propsOf objId := by
  rw [Bindery.propsOf, h.nwprop, Bindery.propsOf]

/-- The object file and the index may change in the same way. -/
theorem withObjects (h : SameButHidden b b₂) (nwobj : F UInt32 ObjData)
    (nwiobj : F IndexKey UInt32) :
    SameButHidden { b with nwobj := nwobj, nwiobj := nwiobj }
      { b₂ with nwobj := nwobj, nwiobj := nwiobj } :=
  ⟨rfl, rfl, h.nwprop, h.values⟩

/-- The property file may change in the same way, if hidden properties stay hidden. -/
theorem withProps (h : SameButHidden b b₂) {nwprop : F PropKey PropData}
    (hkeep : ∀ k, Hidden b k → Hidden { b with nwprop := nwprop } k) :
    SameButHidden { b with nwprop := nwprop } { b₂ with nwprop := nwprop } := by
  refine ⟨h.nwobj, h.nwiobj, rfl, fun k => ?_⟩
  rcases h.values k with hsame | ⟨hhidden, htidy⟩
  · exact .inl hsame
  · exact .inr ⟨hkeep k hhidden, htidy⟩

theorem find (h : SameButHidden b b₂) (type : UInt16) (name : CText 48) :
    Matches (findObjId b type name) (findObjId b₂ type name) := by
  have hindexed : indexedObj b₂ type name = indexedObj b type name := by
    simp only [indexedObj, handleIobjRead, h.nwiobj, h.obj]
  have hscan : scanForObj b₂ type name 0 none = scanForObj b type name 0 none := by
    simp only [scanForObj, h.nwobj]
  unfold findObjId
  rw [hindexed, hscan]
  split
  · exact ⟨rfl, h⟩
  · split
    next o _ =>
      refine ⟨rfl, ?_⟩
      have hwrite := h.withObjects b.nwobj (store b.nwiobj (o.name, o.type) o.id)
      simp only [handleIobjWrite]
      rw [h.nwiobj]
      exact ⟨h.nwobj, rfl, hwrite.nwprop, hwrite.values⟩
    next => exact ⟨rfl, h⟩

theorem find_eq (h : SameButHidden b b₂) {type : UInt16} {name : CText 48}
    {r : Except Int NetObj} {b' : Bindery F} (hfind : findObjId b type name = (r, b')) :
    ∃ b₂', findObjId b₂ type name = (r, b₂') ∧ SameButHidden b' b₂' := by
  obtain ⟨hanswer, hnext⟩ := h.find type name
  rw [hfind] at hanswer hnext
  exact ⟨(findObjId b₂ type name).2, Prod.ext hanswer rfl, hnext⟩

theorem findPropId_eq (h : SameButHidden b b₂) (c : Caller) (objId : UInt32) (name : CText 16)
    (last : UInt32) : findPropId c b₂ objId name last = findPropId c b objId name last := by
  rw [findPropId, h.propsOf, findPropId]

theorem findObjProp_eq (h : SameButHidden b b₂) {c : Caller} {type : UInt16} {name : CText 48}
    {propName : CText 16} {r : Except Int NetProp} {b' : Bindery F}
    (hfind : findObjProp c b type name propName = (r, b')) :
    ∃ b₂', findObjProp c b₂ type name propName = (r, b₂') ∧ SameButHidden b' b₂' := by
  unfold findObjProp at hfind ⊢
  rcases hobj : findObjId b type name with ⟨robj, bobj⟩
  obtain ⟨b₂', hobj₂, h'⟩ := h.find_eq hobj
  rw [hobj] at hfind
  rw [hobj₂]
  cases robj with
  | error e =>
      cases hfind
      exact ⟨b₂', rfl, h'⟩
  | ok o =>
      cases hfind
      refine ⟨b₂', ?_, h'⟩
      dsimp only
      rw [h'.findPropId_eq]

theorem findObjPropMember_eq (h : SameButHidden b b₂) {c : Caller} {type : UInt16}
    {name : CText 48} {propName : CText 16} {memberType : UInt16} {memberName : CText 48}
    {r : Except Int (NetProp × UInt32)} {b' : Bindery F}
    (hfind : findObjPropMember c b type name propName memberType memberName = (r, b')) :
    ∃ b₂', findObjPropMember c b₂ type name propName memberType memberName = (r, b₂') ∧
      SameButHidden b' b₂' := by
  unfold findObjPropMember at hfind ⊢
  rcases hprop : findObjProp c b type name propName with ⟨rprop, bprop⟩
  obtain ⟨bprop₂, hprop₂, h'⟩ := h.findObjProp_eq hprop
  rw [hprop] at hfind
  rw [hprop₂]
  cases rprop with
  | error e =>
      cases hfind
      exact ⟨bprop₂, rfl, h'⟩
  | ok p =>
      dsimp only at hfind ⊢
      rcases hmember : findObjId bprop memberType memberName with ⟨rmember, bmember⟩
      obtain ⟨bmember₂, hmember₂, h''⟩ := h'.find_eq hmember
      rw [hmember] at hfind
      rw [hmember₂]
      cases rmember with
      | error e =>
          cases hfind
          exact ⟨bmember₂, rfl, h''⟩
      | ok m =>
          cases hfind
          exact ⟨bmember₂, rfl, h''⟩

/-- The value of a property that a connection can read is the same in both. -/
theorem sameValue (h : SameButHidden b b₂) {c : Caller} (hc : c.internalAct = false) {p : NetProp}
    (hprop : b.HasProp p) (hread : bAcc c p.objId p.security 0x00 = 0) :
    SameValue b.nwval b₂.nwval (p.objId, p.id) := by
  rcases h.values (p.objId, p.id) with hsame | ⟨⟨-, d, hfetch, hinternal⟩, -⟩
  · exact hsame
  · rw [hprop] at hfetch
    cases hfetch
    exact absurd hread (bAcc_internalOnly hc hinternal p.objId 0x00)

end SameButHidden

/-! ## Two runs: values -/

theorem Tidy.congr {f g : F ValKey Value} {k : PropKey} (h : Tidy f k)
    (hsame : ∀ t, (fetch g (k.1, k.2, t)).isSome = (fetch f (k.1, k.2, t)).isSome) : Tidy g k := by
  refine ⟨h.gapFree.congr fun k' hk' => ?_, ?_⟩
  · obtain ⟨hobj, hprop, -⟩ := mem_valKeys.mp hk'
    have hkey := hsame k'.2.2
    rwa [← hobj, ← hprop] at hkey
  · rw [← Option.not_isSome_iff_eq_none, hsame, h.noZero]
    exact Bool.false_ne_true

/-- The values may change in the same way where they are the same. -/
theorem SameButHidden.withValue {b b₂ : Bindery F} (h : SameButHidden b b₂) {k : PropKey}
    {f g : F ValKey Value} (hself : SameValue f g k)
    (hleft : ∀ k' : ValKey, (k'.1, k'.2.1) ≠ k → fetch f k' = fetch b.nwval k')
    (hright : ∀ k' : ValKey, (k'.1, k'.2.1) ≠ k → fetch g k' = fetch b₂.nwval k') :
    SameButHidden { b with nwval := f } { b₂ with nwval := g } := by
  refine ⟨h.nwobj, h.nwiobj, h.nwprop, fun k' => ?_⟩
  by_cases hk : k' = k
  · rw [hk]
    exact .inl hself
  · rcases h.values k' with hsame | ⟨hhidden, htidy, htidy₂⟩
    · apply Or.inl
      intro t
      dsimp only
      rw [hleft (k'.1, k'.2, t) hk, hright (k'.1, k'.2, t) hk]
      exact hsame t
    · apply Or.inr
      refine ⟨hhidden, htidy.congr fun t => ?_, htidy₂.congr fun t => ?_⟩
      · rw [hleft (k'.1, k'.2, t) hk]
      · rw [hright (k'.1, k'.2, t) hk]

section

variable {b b₂ : Bindery F} {c : Caller} {p : NetProp}

theorem locGetPropVal_congr (h : SameValue b.nwval b₂.nwval (p.objId, p.id))
    (segment : UInt8) : locGetPropVal c b₂ p.objId p.id p.security segment =
      locGetPropVal c b p.objId p.id p.security segment := by
  have hseg := h segment
  have hnext := h (segment + 1)
  dsimp only at hseg hnext
  rw [locGetPropVal, hseg, hnext, locGetPropVal]

theorem propFindMember_congr (h : SameValue b.nwval b₂.nwval (p.objId, p.id))
    (memberId : UInt32) : propFindMember c b₂ p.objId p.id p.security memberId =
      propFindMember c b p.objId p.id p.security memberId := by
  have hcells : ∀ k ∈ valKeys p.objId p.id, cellsAt b₂.nwval k = cellsAt b.nwval k :=
    fun k hk => cellsAt_congr (h.of_mem hk)
  have hany : ((valKeys p.objId p.id).any fun k => decide (memberId ∈ cellsAt b₂.nwval k)) =
      (valKeys p.objId p.id).any fun k => decide (memberId ∈ cellsAt b.nwval k) := by
    rw [Bool.eq_iff_iff, List.any_eq_true, List.any_eq_true]
    refine exists_congr fun k => and_congr_right fun hk => ?_
    rw [hcells k hk]
  rw [propFindMember, hany, propFindMember]

theorem SameButHidden.insPropVal (h : SameButHidden b b₂)
    (hsame : SameValue b.nwval b₂.nwval (p.objId, p.id)) (segment : UInt8) (value : Value)
    (erase : UInt8) : Matches (MarsNwe.insPropVal c b p.objId p segment value erase)
      (MarsNwe.insPropVal c b₂ p.objId p segment value erase) := by
  have hpred := hsame (segment - 1)
  have hstore : SameValue (store b.nwval (p.objId, p.id, segment) value)
      (store b₂.nwval (p.objId, p.id, segment) value) (p.objId, p.id) := by
    intro t
    rw [fetch_store, fetch_store, hsame t]
  have hother : ∀ (f : F ValKey Value) (k' : ValKey), (k'.1, k'.2.1) ≠ (p.objId, p.id) →
      fetch (store f (p.objId, p.id, segment) value) k' = fetch f k' := by
    intro f k' hk'
    apply fetch_store_of_ne
    intro heq
    exact hk' (by rw [heq])
  dsimp only at hpred
  unfold MarsNwe.insPropVal
  rw [hpred]
  dsimp only
  split
  · exact ⟨rfl, h⟩
  · split
    · exact ⟨rfl, h⟩
    · split
      · refine ⟨rfl, h.withValue (k := (p.objId, p.id)) ?_ ?_ ?_⟩
        · intro t
          rw [fetch_deletePrefix (valKeysAfter_nodup p.objId p.id segment),
            fetch_deletePrefix (valKeysAfter_nodup p.objId p.id segment), hstore t,
            storedPrefix_congr fun k hk => hstore.of_mem hk]
        all_goals
          intro k' hk'
          rw [fetch_deletePrefix (valKeysAfter_nodup p.objId p.id segment), if_neg,
            hother _ k' hk']
          intro hmem
          obtain ⟨hobj, hprop, -⟩ := mem_valKeysAfter.mp (List.takeWhile_subset _ hmem)
          exact hk' (by rw [hobj, hprop])
      · exact ⟨rfl, h.withValue hstore (hother b.nwval) (hother b₂.nwval)⟩

theorem SameButHidden.propAddMember (h : SameButHidden b b₂)
    (hsame : SameValue b.nwval b₂.nwval (p.objId, p.id)) (memberId : UInt32) :
    Matches (MarsNwe.propAddMember c b p.objId p.id p.security memberId)
      (MarsNwe.propAddMember c b₂ p.objId p.id p.security memberId) := by
  have hother : ∀ (f : F ValKey Value) (k' : ValKey), (k'.1, k'.2.1) ≠ (p.objId, p.id) →
      fetch (addMember f memberId (valKeys p.objId p.id)).2 k' = fetch f k' := by
    intro f k' hk'
    apply fetch_addMember_of_notMem
    intro hmem
    obtain ⟨hobj, hprop, -⟩ := mem_valKeys.mp hmem
    exact hk' (by rw [hobj, hprop])
  have hlist : ∀ k ∈ valKeys p.objId p.id, fetch b₂.nwval k = fetch b.nwval k :=
    fun k hk => hsame.of_mem hk
  unfold MarsNwe.propAddMember
  split
  · exact ⟨rfl, h⟩
  · obtain ⟨hcode, hkeys⟩ := addMember_congr (f := b.nwval) hlist
    refine ⟨hcode, h.withValue (k := (p.objId, p.id)) ?_ (hother b.nwval) (hother b₂.nwval)⟩
    intro t
    by_cases hmem : (p.objId, p.id, t) ∈ valKeys p.objId p.id
    · exact hkeys _ hmem
    · rw [fetch_addMember_of_notMem hmem, fetch_addMember_of_notMem hmem]
      exact hsame t

theorem SameButHidden.propDeleteMember (h : SameButHidden b b₂)
    (hsame : SameValue b.nwval b₂.nwval (p.objId, p.id)) (memberId : UInt32) :
    Matches (MarsNwe.propDeleteMember c b p.objId p.id p.security memberId)
      (MarsNwe.propDeleteMember c b₂ p.objId p.id p.security memberId) := by
  have hother : ∀ (f : F ValKey Value) (k' : ValKey), (k'.1, k'.2.1) ≠ (p.objId, p.id) →
      fetch (deleteMember f memberId (valKeys p.objId p.id)) k' = fetch f k' := by
    intro f k' hk'
    apply fetch_deleteMember_of_notMem
    intro hmem
    obtain ⟨hobj, hprop, -⟩ := mem_valKeys.mp hmem
    exact hk' (by rw [hobj, hprop])
  have hlist : ∀ k ∈ valKeys p.objId p.id, fetch b₂.nwval k = fetch b.nwval k :=
    fun k hk => hsame.of_mem hk
  unfold MarsNwe.propDeleteMember
  split
  · exact ⟨rfl, h⟩
  · refine ⟨rfl, h.withValue (k := (p.objId, p.id)) ?_ (hother b.nwval) (hother b₂.nwval)⟩
    intro t
    by_cases hmem : (p.objId, p.id, t) ∈ valKeys p.objId p.id
    · exact fetch_deleteMember_congr hlist _ hmem
    · rw [fetch_deleteMember_of_notMem hmem, fetch_deleteMember_of_notMem hmem]
      exact hsame t

end

/-! ## Two runs: property records -/

/-- A free property id is 0 or belongs to no property of the object. -/
theorem freePropId_notMem (used : List UInt8) : freePropId used = 0 ∨ freePropId used ∉ used := by
  unfold freePropId
  split
  next k hfind =>
    apply Or.inr
    simpa using List.find?_some hfind
  next => exact .inl rfl

/-- A hidden property under the key of a stored one is that property. -/
theorem Hidden.security_of_hasProp {b : Bindery F} {p : NetProp} (h : Hidden b (p.objId, p.id))
    (hprop : b.HasProp p) : internalOnly p.security := by
  obtain ⟨-, d, hfetch, hinternal⟩ := h
  rw [hprop] at hfetch
  cases hfetch
  exact hinternal

theorem hasProp_of_find? {b : Bindery F} {objId : UInt32} {test : NetProp → Bool} {p : NetProp}
    (hfind : (b.propsOf objId).find? test = some p) : b.HasProp p ∧ p.objId = objId := by
  obtain ⟨hobj, hfetch⟩ := Bindery.mem_propsOf.mp (List.mem_of_find?_eq_some hfind)
  refine ⟨?_, hobj⟩
  rw [Bindery.HasProp, hobj]
  exact hfetch

/-- Creating a property keeps the hidden ones, unless it reopens one of them. -/
theorem nwCreateObjProp_keeps {b : Bindery F} {objId : UInt32} {d : PropData}
    (hopen : ∀ p, (b.propsOf objId).find? (fun p => d.name = p.name) = some p →
      (p.security ≠ d.security ∨ p.flags ≠ d.flags) → ¬ internalOnly p.security)
    {k : PropKey} (hhidden : Hidden b k) :
    fetch (nwCreateObjProp b objId d).2.2.nwprop k = fetch b.nwprop k := by
  unfold nwCreateObjProp
  cases hfind : (b.propsOf objId).find? fun p => d.name = p.name with
  | some p =>
      dsimp only
      obtain ⟨hprop, hobj⟩ := hasProp_of_find? hfind
      split
      next hdiff =>
        apply fetch_store_of_ne
        intro heq
        rw [heq, ← hobj] at hhidden
        exact hopen p hfind hdiff (hhidden.security_of_hasProp hprop)
      next => rfl
  | none =>
      -- the id is free, or 0, which no hidden property has
      apply fetch_store_of_ne
      intro heq
      rw [heq] at hhidden
      obtain ⟨hid, d', hfetch, -⟩ := hhidden
      refine ((freePropId_notMem _).resolve_left hid) (List.mem_map.mpr ⟨⟨d', objId, _⟩, ?_, rfl⟩)
      exact Bindery.mem_propsOf.mpr ⟨rfl, hfetch⟩

theorem locChangePropSecurity_keeps {c : Caller} (hc : c.internalAct = false) {b : Bindery F}
    (objId : UInt32) (name : CText 16) (security : UInt8) {k : PropKey} (hhidden : Hidden b k) :
    fetch (locChangePropSecurity c b objId name security).2.nwprop k = fetch b.nwprop k := by
  unfold locChangePropSecurity
  cases hfind : (b.propsOf objId).find? fun p => nameMatch name.bytes p.name.bytes with
  | none => rfl
  | some p =>
      dsimp only
      obtain ⟨hprop, hobj⟩ := hasProp_of_find? hfind
      split
      next => rfl
      next hright =>
        apply fetch_store_of_ne
        intro heq
        rw [heq, ← hobj] at hhidden
        exact hright (bAcc_internalOnly hc (hhidden.security_of_hasProp hprop) objId 0x15)

namespace SameButHidden

variable {b b₂ : Bindery F}

theorem createObjProp (h : SameButHidden b b₂) {objId : UInt32} {d : PropData}
    (hopen : ∀ p, (b.propsOf objId).find? (fun p => d.name = p.name) = some p →
      (p.security ≠ d.security ∨ p.flags ≠ d.flags) → ¬ internalOnly p.security) :
    (nwCreateObjProp b₂ objId d).1 = (nwCreateObjProp b objId d).1 ∧
      SameButHidden (nwCreateObjProp b objId d).2.2 (nwCreateObjProp b₂ objId d).2.2 := by
  have hkeep : ∀ k, Hidden b k → Hidden { b with
      nwprop := (nwCreateObjProp b objId d).2.2.nwprop } k := by
    rintro k ⟨hid, d', hfetch, hinternal⟩
    refine ⟨hid, d', ?_, hinternal⟩
    dsimp only
    rw [nwCreateObjProp_keeps hopen ⟨hid, d', hfetch, hinternal⟩]
    exact hfetch
  have hprops := h.withProps hkeep
  unfold nwCreateObjProp at hprops ⊢
  rw [h.propsOf]
  cases hfind : (b.propsOf objId).find? fun p => d.name = p.name with
  | some p =>
      simp only [hfind] at hprops ⊢
      by_cases hdiff : p.security ≠ d.security ∨ p.flags ≠ d.flags
      · simp only [if_pos hdiff, h.nwprop] at hprops ⊢
        exact ⟨trivial, hprops⟩
      · simp only [if_neg hdiff]
        exact ⟨trivial, h⟩
  | none =>
      simp only [hfind] at hprops ⊢
      rw [h.nwprop]
      exact ⟨trivial, hprops⟩

theorem changePropSecurity (h : SameButHidden b b₂) {c : Caller} (hc : c.internalAct = false)
    (objId : UInt32) (name : CText 16) (security : UInt8) :
    Matches (locChangePropSecurity c b objId name security)
      (locChangePropSecurity c b₂ objId name security) := by
  have hkeep : ∀ k, Hidden b k → Hidden { b with
      nwprop := (locChangePropSecurity c b objId name security).2.nwprop } k := by
    rintro k ⟨hid, d', hfetch, hinternal⟩
    refine ⟨hid, d', ?_, hinternal⟩
    dsimp only
    rw [locChangePropSecurity_keeps hc objId name security ⟨hid, d', hfetch, hinternal⟩]
    exact hfetch
  have hprops := h.withProps hkeep
  unfold locChangePropSecurity at hprops ⊢
  rw [h.propsOf]
  cases hfind : (b.propsOf objId).find? fun p => nameMatch name.bytes p.name.bytes with
  | none => exact ⟨rfl, h⟩
  | some p =>
      simp only [hfind] at hprops ⊢
      by_cases hright : bAcc c objId p.security 0x15 = 0
      · simp only [hright, ne_eq, not_true_eq_false, if_false, h.nwprop] at hprops ⊢
        exact ⟨rfl, hprops⟩
      · simp only [ne_eq, hright, not_false_eq_true, if_true]
        exact ⟨rfl, h⟩

theorem deletedIds_eq (h : SameButHidden b b₂) (c : Caller) (objId : UInt32) (name : CText 16)
    (ever : Bool) : deletedIds c b₂ objId name ever = deletedIds c b objId name ever := by
  rw [deletedIds, h.propsOf, deletedIds]

theorem locDeleteProperty_code (h : SameButHidden b b₂) (c : Caller) (objId : UInt32)
    (name : CText 16) (ever : Bool) : (locDeleteProperty c b₂ objId name ever).1 =
      (locDeleteProperty c b objId name ever).1 := by
  simp only [locDeleteProperty, deleteMarked, h.propsOf, h.nwprop]
  split
  · split <;> rfl
  · rfl

/-- Deleting properties deletes the same ones in both. Hidden ones are either
not deleted or deleted with all their segments. -/
theorem deleteProperty (h : SameButHidden b b₂) (c : Caller) (objId : UInt32) (name : CText 16)
    (ever : Bool) : Matches (locDeleteProperty c b objId name ever)
      (locDeleteProperty c b₂ objId name ever) := by
  refine ⟨h.locDeleteProperty_code c objId name ever, ?_⟩
  have hprop := fetch_nwprop_locDeleteProperty c b objId name ever
  rw [(locDeleteProperty_eq c b objId name ever).1] at hprop ⊢
  rw [(locDeleteProperty_eq c b₂ objId name ever).1, h.deletedIds_eq, h.nwprop]
  have hnodup := deletedIds_nodup c b objId name ever
  generalize deletedIds c b objId name ever = ids at hprop hnodup
  refine ⟨h.nwobj, h.nwiobj, rfl, fun k => ?_⟩
  rcases h.values k with hsame | ⟨hhidden, htidy, htidy₂⟩
  · apply Or.inl
    intro t
    have hlist : ∀ k' ∈ valKeys k.1 k.2, fetch b₂.nwval k' = fetch b.nwval k' :=
      fun k' hk' => hsame.of_mem hk'
    dsimp only
    rw [fetch_deleteValues hnodup, fetch_deleteValues hnodup, hsame t]
    by_cases hobj : k.1 = objId
    · subst hobj
      rw [storedPrefix_congr hlist]
    · rw [if_neg fun hdel => hobj hdel.1, if_neg fun hdel => hobj hdel.1]
  · by_cases hdel : k.1 = objId ∧ k.2 ∈ ids
    · apply Or.inl
      have hnone : ∀ {f : F ValKey Value}, Tidy f k → ∀ t,
          fetch (deleteValues f objId ids) (k.1, k.2, t) = none := by
        intro f htidy t
        rw [fetch_deleteValues hnodup]
        split
        · rfl
        next hkeep =>
          by_cases hzero : t = 0
          · rw [hzero]
            exact htidy.noZero
          · apply Option.not_isSome_iff_eq_none.mp
            intro hsome
            refine hkeep ⟨hdel.1, hdel.2, ?_⟩
            rw [← hdel.1]
            exact htidy.gapFree.mem_storedPrefix.mpr ⟨mem_valKeys.mpr ⟨rfl, rfl, hzero⟩, hsome⟩
      intro t
      dsimp only
      rw [hnone htidy, hnone htidy₂]
    · apply Or.inr
      have hkeep : ∀ (f : F ValKey Value) (t : UInt8),
          fetch (deleteValues f objId ids) (k.1, k.2, t) = fetch f (k.1, k.2, t) := by
        intro f t
        rw [fetch_deleteValues hnodup, if_neg fun hx => hdel ⟨hx.1, hx.2.1⟩]
      refine ⟨?_, htidy.congr fun t => by rw [hkeep], htidy₂.congr fun t => by rw [hkeep]⟩
      obtain ⟨hid, d, hfetch, hinternal⟩ := hhidden
      refine ⟨hid, d, ?_, hinternal⟩
      rw [hprop, if_neg hdel]
      exact hfetch

/-- Taking an object out of all sets treats related values alike. -/
theorem dropMember (h : SameButHidden b b₂) (id : UInt32) {ps : List PropKey} (hnodup : ps.Nodup) :
    SameButHidden { b with nwval := MarsNwe.dropMember b.nwval id ps }
      { b₂ with nwval := MarsNwe.dropMember b₂.nwval id ps } := by
  refine ⟨h.nwobj, h.nwiobj, h.nwprop, fun k => ?_⟩
  rcases h.values k with hsame | ⟨hhidden, htidy, htidy₂⟩
  · apply Or.inl
    intro t
    have hlist : ∀ k' ∈ valKeys k.1 k.2, fetch b₂.nwval k' = fetch b.nwval k' :=
      fun k' hk' => hsame.of_mem hk'
    dsimp only
    rw [fetch_dropMember hnodup, fetch_dropMember hnodup]
    split
    · by_cases hmem : (k.1, k.2, t) ∈ valKeys k.1 k.2
      · exact fetch_deleteMember_congr hlist _ hmem
      · rw [fetch_deleteMember_of_notMem hmem, fetch_deleteMember_of_notMem hmem]
        exact hsame t
    · exact hsame t
  · exact .inr ⟨hhidden, htidy.congr fun t => fetch_dropMember_isSome hnodup _,
      htidy₂.congr fun t => fetch_dropMember_isSome hnodup _⟩

theorem deleteObj (h : SameButHidden b b₂) (c : Caller) {o : NetObj}
    (hobj : b.obj o.id = some o) : Matches (locDeleteObj c b o.id) (locDeleteObj c b₂ o.id) := by
  by_cases hright : bAcc c o.id 0x33 0x03 = 0
  · have hobj₂ : b₂.obj o.id = some o := by
      rw [h.obj]
      exact hobj
    have hprops := (h.deleteProperty c o.id anyName true).2
    have hsets : setProps (locDeleteProperty c b₂ o.id anyName true).2 =
        setProps (locDeleteProperty c b o.id anyName true).2 := by
      rw [setProps, hprops.nwprop, setProps]
    have hdrop := hprops.dropMember o.id
      ((setProps_nodup (locDeleteProperty c b o.id anyName true).2).sublist
        (List.take_sublist locMaxObjs _))
    have hend := hdrop.withObjects (delete b.nwobj o.id) (delete b.nwiobj (o.name, o.type))
    rw [locDeleteObj_ok hobj hright, locDeleteObj_ok hobj₂ hright, hsets, h.nwobj, h.nwiobj]
    exact ⟨rfl, hend⟩
  · rw [locDeleteObj, if_pos hright, locDeleteObj, if_pos hright]
    exact ⟨rfl, h⟩

end SameButHidden

/-! ## Two runs: requests -/

section

variable {b b₂ : Bindery F} {c : Caller}

theorem SameButHidden.createObj (h : SameButHidden b b₂) (d : ObjData) (wantedId : UInt32) :
    nwCreateObj c b d wantedId = none ∧ nwCreateObj c b₂ d wantedId = none ∨
    ∃ code id b' b₂', nwCreateObj c b d wantedId = some (code, id, b') ∧
      nwCreateObj c b₂ d wantedId = some (code, id, b₂') ∧ SameButHidden b' b₂' := by
  unfold nwCreateObj
  rw [h.nwobj]
  split
  · exact .inr ⟨_, _, b, b₂, rfl, rfl, h⟩
  · split
    · exact .inr ⟨_, _, b, b₂, rfl, rfl, h⟩
    · dsimp only
      generalize nextFreeId b.nwobj ((keys b.nwobj).length + 1) _ = next
      cases next with
      | none => exact .inl ⟨rfl, rfl⟩
      | some id =>
          refine .inr ⟨0, id, _, _, rfl, rfl, ?_⟩
          simp only [handleIobjWrite]
          rw [h.nwiobj]
          exact h.withObjects _ _

theorem SameButHidden.renameObj (h : SameButHidden b b₂) (type : UInt16) (name newname : CText 48) :
    Matches (nwRenameObj c b type name newname) (nwRenameObj c b₂ type name newname) := by
  rcases hfind : findObjId b type name with ⟨r, b'⟩
  obtain ⟨b₂', hfind₂, h'⟩ := h.find_eq hfind
  cases r with
  | error e =>
      simp only [nwRenameObj, hfind, hfind₂]
      exact ⟨rfl, h'⟩
  | ok o =>
      by_cases hright : bAcc c 0 0x33 0x04 = 0
      · rw [nwRenameObj_ok hfind hright, nwRenameObj_ok hfind₂ hright]
        refine ⟨rfl, ?_⟩
        simp only [handleIobjWrite, handleIobjDelete]
        rw [h'.nwobj, h'.nwiobj]
        exact h'.withObjects _ _
      · simp only [nwRenameObj, hfind, hfind₂, if_pos hright]
        exact ⟨rfl, h'⟩

theorem SameButHidden.changeObjSecurity (h : SameButHidden b b₂) (type : UInt16)
    (name : CText 48) (security : UInt8) : Matches (nwChangeObjSecurity c b type name security)
      (nwChangeObjSecurity c b₂ type name security) := by
  rcases hfind : findObjId b type name with ⟨r, b'⟩
  obtain ⟨b₂', hfind₂, h'⟩ := h.find_eq hfind
  cases r with
  | error e =>
      simp only [nwChangeObjSecurity, hfind, hfind₂]
      exact ⟨rfl, h'⟩
  | ok o =>
      by_cases hright : bAcc c o.id o.security 0x05 = 0
      · rw [nwChangeObjSecurity_ok hfind hright, nwChangeObjSecurity_ok hfind₂ hright, h'.nwobj]
        refine ⟨rfl, ?_⟩
        have hobjects := h'.withObjects
          (store b'.nwobj o.id { o.toObjData with security := security }) b'.nwiobj
        exact ⟨rfl, h'.nwiobj, hobjects.nwprop, hobjects.values⟩
      · simp only [nwChangeObjSecurity, hfind, hfind₂, if_pos hright]
        exact ⟨rfl, h'⟩

theorem SameButHidden.createProp (h : SameButHidden b b₂) (type : UInt16) (name : CText 48)
    (d : PropData) (hopen : ¬ ReopensHidden c b (.createProp type name d)) :
    Matches (nwCreateProp c b type name d) (nwCreateProp c b₂ type name d) := by
  rcases hfind : findObjId b type name with ⟨r, b'⟩
  obtain ⟨b₂', hfind₂, h'⟩ := h.find_eq hfind
  cases r with
  | error e =>
      simp only [nwCreateProp, hfind, hfind₂]
      exact ⟨rfl, h'⟩
  | ok o =>
      simp only [nwCreateProp, hfind, hfind₂]
      split
      next => exact ⟨rfl, h'⟩
      next hright =>
        apply h'.createObjProp
        intro p hprop hdiff hinternal
        refine hopen ⟨o, p, ⟨rfl, by rw [hfind], not_not.mp hright, ?_, hdiff⟩, hinternal⟩
        rw [← (Looked.of_find hfind).sameData.propsOf]
        exact hprop

theorem SameButHidden.getPropVal (h : SameButHidden b b₂) (hc : c.internalAct = false)
    (type : UInt16) (name : CText 48) (segment : UInt8) (propName : CText 16) :
    Matches (nwGetPropVal c b type name segment propName)
      (nwGetPropVal c b₂ type name segment propName) := by
  rcases hfind : findObjId b type name with ⟨r, b'⟩
  obtain ⟨b₂', hfind₂, h'⟩ := h.find_eq hfind
  cases r with
  | error e =>
      simp only [nwGetPropVal, hfind, hfind₂]
      exact ⟨rfl, h'⟩
  | ok o =>
      simp only [nwGetPropVal, hfind, hfind₂]
      refine ⟨?_, h'⟩
      dsimp only [nwGetPropValByObjId]
      rw [h'.findPropId_eq]
      cases hprop : findPropId c b' o.id propName 0 with
      | error e => rfl
      | ok p =>
          obtain ⟨hhas, hid, -, hread⟩ := findPropId_ok hprop
          rw [← hid] at hread ⊢
          dsimp only
          rw [locGetPropVal_congr (h'.sameValue hc hhas hread)]

theorem SameButHidden.scanProp (h : SameButHidden b b₂) (hc : c.internalAct = false)
    (type : UInt16) (name : CText 48) (propName : CText 16) (last : UInt32) :
    Matches (nwScanProperty c b type name propName last)
      (nwScanProperty c b₂ type name propName last) := by
  rcases hfind : findObjId b type name with ⟨r, b'⟩
  obtain ⟨b₂', hfind₂, h'⟩ := h.find_eq hfind
  cases r with
  | error e =>
      simp only [nwScanProperty, hfind, hfind₂]
      exact ⟨rfl, h'⟩
  | ok o =>
      simp only [nwScanProperty, hfind, hfind₂]
      rw [h'.findPropId_eq]
      cases hprop : findPropId c b' o.id propName (if last = 0xffffffff then 0 else last) with
      | error e => exact ⟨rfl, h'⟩
      | ok p =>
          obtain ⟨hhas, hid, -, hread⟩ := findPropId_ok hprop
          rw [← hid] at hread ⊢
          dsimp only
          rw [locGetPropVal_congr (h'.sameValue hc hhas hread)]
          exact ⟨rfl, h'⟩

/-- One request of a connection gets the same reply from two binderies that
differ in hidden values only, and leaves two such binderies. -/
theorem SameButHidden.step (h : SameButHidden b b₂) (hc : c.internalAct = false)
    {r : BindRequest} (hopen : ¬ ReopensHidden c b r) :
    Matches (handleBindRequest c b r) (handleBindRequest c b₂ r) := by
  cases r with
  | createObj flags security type name =>
      rcases h.createObj (c := c) ⟨name, type, flags, security⟩ 0 with
        ⟨heq, heq₂⟩ | ⟨code, id, b', b₂', heq, heq₂, h'⟩ <;>
        simp only [handleBindRequest, heq, heq₂]
      · exact ⟨rfl, h⟩
      · exact ⟨rfl, h'⟩
  | deleteObj type name =>
      rcases hfind : findObjId b type name with ⟨res, b'⟩
      obtain ⟨b₂', hfind₂, h'⟩ := h.find_eq hfind
      simp only [handleBindRequest, nwDeleteObj, hfind, hfind₂]
      cases res with
      | error e => exact ⟨rfl, h'⟩
      | ok o => exact (h'.deleteObj c (findObjId_obj hfind)).map BindReply.result
  | renameObj type name newname =>
      simp only [handleBindRequest]
      split
      · exact (h.renameObj type name newname).map BindReply.result
      · exact ⟨rfl, h⟩
  | getObjId type name => exact (h.find type (upstr name)).map _
  | getObjName id =>
      refine ⟨?_, h⟩
      simp only [handleBindRequest, nwGetObj, h.obj]
  | scanObj last type name =>
      refine ⟨?_, h⟩
      simp only [handleBindRequest, scanForObj, h.nwobj, nwObjHasProp, h.nwprop]
  | changeObjSecurity security type name =>
      simp only [handleBindRequest]
      split
      · exact (h.changeObjSecurity type name security).map BindReply.result
      · exact ⟨rfl, h⟩
  | createProp type name prop => exact (h.createProp type name prop hopen).map BindReply.result
  | deleteProp type name propName =>
      rcases hfind : findObjId b type name with ⟨res, b'⟩
      obtain ⟨b₂', hfind₂, h'⟩ := h.find_eq hfind
      simp only [handleBindRequest, nwDeleteProperty, hfind, hfind₂]
      cases res with
      | error e => exact ⟨rfl, h'⟩
      | ok o => exact (h'.deleteProperty c o.id propName false).map BindReply.result
  | changePropSecurity type name security propName =>
      rcases hfind : findObjId b type name with ⟨res, b'⟩
      obtain ⟨b₂', hfind₂, h'⟩ := h.find_eq hfind
      simp only [handleBindRequest, nwChangePropSecurity, hfind, hfind₂]
      cases res with
      | error e => exact ⟨rfl, h'⟩
      | ok o => exact (h'.changePropSecurity hc o.id propName security).map BindReply.result
  | scanProp type name last propName => exact (h.scanProp hc type name propName last).map _
  | getPropVal type name segment propName => exact (h.getPropVal hc type name segment propName).map _
  | writePropVal type name segment erase propName value =>
      rcases hfind : findObjProp c b type name propName with ⟨res, b'⟩
      obtain ⟨b₂', hfind₂, h'⟩ := h.findObjProp_eq hfind
      simp only [handleBindRequest, nwWritePropValue, hfind, hfind₂]
      cases res with
      | error e => exact ⟨rfl, h'⟩
      | ok p =>
          rcases findObjProp_cases c b type name propName with
            ⟨e, _, heq, -⟩ | ⟨_, _, o, heq, -, -, hprop⟩ <;> rw [hfind] at heq <;> cases heq
          obtain ⟨hhas, hid, -, hread⟩ := findPropId_ok hprop
          exact (h'.insPropVal (h'.sameValue hc hhas (hid ▸ hread)) segment value erase).map BindReply.result
  | addToSet type name propName memberType memberName =>
      rcases hfind : findObjPropMember c b type name propName memberType memberName with ⟨res, b'⟩
      obtain ⟨b₂', hfind₂, h'⟩ := h.findObjPropMember_eq hfind
      simp only [handleBindRequest, nwAddObjToSet, hfind, hfind₂]
      rcases findObjPropMember_cases c b type name propName memberType memberName with
        ⟨e, _, heq, -⟩ | ⟨p, m, _, _, heq, -, -, -, hhas, hread, -⟩ <;>
        rw [hfind] at heq <;> cases heq
      · exact ⟨rfl, h'⟩
      · have hsame := h'.sameValue hc hhas hread
        dsimp only
        rw [propFindMember_congr hsame]
        split
        · exact (h'.propAddMember hsame m.id).map BindReply.result
        · split <;> exact ⟨rfl, h'⟩
  | deleteFromSet type name propName memberType memberName =>
      rcases hfind : findObjPropMember c b type name propName memberType memberName with ⟨res, b'⟩
      obtain ⟨b₂', hfind₂, h'⟩ := h.findObjPropMember_eq hfind
      simp only [handleBindRequest, nwDeleteObjFromSet, hfind, hfind₂]
      rcases findObjPropMember_cases c b type name propName memberType memberName with
        ⟨e, _, heq, -⟩ | ⟨p, m, _, _, heq, -, -, -, hhas, hread, -⟩ <;>
        rw [hfind] at heq <;> cases heq
      · exact ⟨rfl, h'⟩
      · exact (h'.propDeleteMember (h'.sameValue hc hhas hread) m.id).map BindReply.result
  | isInSet type name propName memberType memberName =>
      rcases hfind : findObjPropMember c b type name propName memberType memberName with ⟨res, b'⟩
      obtain ⟨b₂', hfind₂, h'⟩ := h.findObjPropMember_eq hfind
      simp only [handleBindRequest, nwIsObjInSet, hfind, hfind₂]
      rcases findObjPropMember_cases c b type name propName memberType memberName with
        ⟨e, _, heq, -⟩ | ⟨p, m, _, _, heq, -, -, -, hhas, hread, -⟩ <;>
        rw [hfind] at heq <;> cases heq
      · exact ⟨rfl, h'⟩
      · dsimp only
        rw [propFindMember_congr (h'.sameValue hc hhas hread)]
        exact ⟨rfl, h'⟩
  | accessLevel =>
      simp only [handleBindRequest]
      split <;> exact ⟨rfl, h⟩
  | objAccessLevel id =>
      refine ⟨?_, h⟩
      simp only [handleBindRequest, nwGetObj, h.obj]

end

/-! ## One run: hidden properties are kept -/

/-- The deletions that reach a hidden property: of its object, or of a member
of the set it is. -/
def DeletesOwnerOrMember (k : PropKey) (c : Caller) (b : Bindery F) : BindRequest → Prop
  | .deleteObj type name => ∃ o, (findObjId b type name).1 = .ok o ∧
      bAcc c o.id 0x33 0x03 = 0 ∧ (o.id = k.1 ∨ ∃ d, fetch b.nwprop k = some d ∧ d.isSet = true ∧
        ∃ k' ∈ valKeys k.1 k.2, o.id ∈ cellsAt b.nwval k')
  | _ => False

/-- The record and the value of a property are the same in both. -/
structure Kept (b b' : Bindery F) (k : PropKey) : Prop where
  record : fetch b'.nwprop k = fetch b.nwprop k
  value : SameValue b.nwval b'.nwval k

namespace Kept

variable {b b' b'' : Bindery F} {k : PropKey}

theorem refl (b : Bindery F) (k : PropKey) : Kept b b k := ⟨rfl, fun _ => rfl⟩

theorem trans (h : Kept b b' k) (h' : Kept b' b'' k) : Kept b b'' k :=
  ⟨h'.record.trans h.record, h.value.trans h'.value⟩

theorem of_sameData (h : SameData b b') (k : PropKey) : Kept b b' k := by
  refine ⟨by rw [h.nwprop], fun t => ?_⟩
  rw [h.nwval]

theorem hidden (h : Kept b b' k) (hhidden : Hidden b k) : Hidden b' k := by
  obtain ⟨hid, d, hfetch, hinternal⟩ := hhidden
  exact ⟨hid, d, h.record.trans hfetch, hinternal⟩

end Kept

/-- Taking out an id that no segment holds changes nothing. -/
theorem fetch_deleteMember_of_absent {f : F ValKey Value} {id : UInt32} {ks : List ValKey}
    (h : ∀ k ∈ ks, id ∉ cellsAt f k) (k : ValKey) : fetch (deleteMember f id ks) k = fetch f k := by
  induction ks with
  | nil => rfl
  | cons head tail ih =>
      unfold deleteMember
      split
      next v hfetch =>
        have habsent := h head List.mem_cons_self
        rw [cellsAt_some hfetch] at habsent
        rw [if_neg habsent]
        exact ih fun k' hk' => h k' (List.mem_cons_of_mem _ hk')
      next => rfl

section

variable {b : Bindery F} {c : Caller} {k : PropKey}

theorem deleteProperty_keeps (hc : c.internalAct = false) (objId : UInt32) (name : CText 16)
    (hhidden : Hidden b k) : Kept b (locDeleteProperty c b objId name false).2 k := by
  have hkeep : ¬ (k.1 = objId ∧ k.2 ∈ deletedIds c b objId name false) := by
    rintro ⟨hobj, hmem⟩
    obtain ⟨-, p, hp, hdel, hid⟩ := mem_deletedIds.mp hmem
    obtain ⟨-, d, hfetch, hinternal⟩ := hhidden
    have hstored := (Bindery.mem_propsOf.mp hp).2
    rw [hid, ← hobj, hfetch] at hstored
    cases hstored
    simp only [deletable, Bool.false_or, Bool.and_eq_true, beq_iff_eq] at hdel
    exact bAcc_internalOnly hc hinternal objId 0x13 hdel.2
  constructor
  · rw [fetch_nwprop_locDeleteProperty, if_neg hkeep]
  · intro t
    rw [(locDeleteProperty_eq c b objId name false).1]
    dsimp only
    rw [fetch_deleteValues (deletedIds_nodup c b objId name false), if_neg]
    intro hdel
    exact hkeep ⟨hdel.1, hdel.2.1⟩

/-- A hidden property is not the one that a connection reads or writes. -/
theorem ne_of_read (hc : c.internalAct = false) {p : NetProp} (hprop : b.HasProp p)
    (hread : bAcc c p.objId p.security 0x00 = 0) (hhidden : Hidden b k) :
    k ≠ (p.objId, p.id) := by
  intro heq
  rw [heq] at hhidden
  exact bAcc_internalOnly hc (hhidden.security_of_hasProp hprop) p.objId 0x00 hread

theorem insPropVal_keeps {p : NetProp} (hne : k ≠ (p.objId, p.id)) (segment : UInt8)
    (value : Value) (erase : UInt8) :
    Kept b (insPropVal c b p.objId p segment value erase).2 k := by
  have hkey : ∀ t s : UInt8, (k.1, k.2, t) ≠ (p.objId, p.id, s) := by
    intro t s heq
    simp only [Prod.mk.injEq] at heq
    exact hne (Prod.ext heq.1 heq.2.1)
  unfold insPropVal
  dsimp only
  split
  · exact .refl b k
  · split
    · exact .refl b k
    · split
      · refine ⟨rfl, fun t => ?_⟩
        dsimp only
        rw [fetch_deletePrefix (valKeysAfter_nodup p.objId p.id segment), if_neg,
          fetch_store_of_ne _ _ (hkey t segment)]
        intro hmem
        obtain ⟨hobj, hprop, -⟩ := mem_valKeysAfter.mp (List.takeWhile_subset _ hmem)
        exact hne (Prod.ext hobj hprop)
      · exact ⟨rfl, fun t => fetch_store_of_ne _ _ (hkey t segment)⟩

theorem notMem_valKeys_of_ne {p : NetProp} (hne : k ≠ (p.objId, p.id)) (t : UInt8) :
    (k.1, k.2, t) ∉ valKeys p.objId p.id := by
  intro hmem
  obtain ⟨hobj, hprop, -⟩ := mem_valKeys.mp hmem
  exact hne (Prod.ext hobj hprop)

theorem propAddMember_keeps {p : NetProp} (hne : k ≠ (p.objId, p.id)) (memberId : UInt32) :
    Kept b (propAddMember c b p.objId p.id p.security memberId).2 k := by
  unfold propAddMember
  split
  · exact .refl b k
  · exact ⟨rfl, fun t => fetch_addMember_of_notMem (notMem_valKeys_of_ne hne t)⟩

theorem propDeleteMember_keeps {p : NetProp} (hne : k ≠ (p.objId, p.id)) (memberId : UInt32) :
    Kept b (propDeleteMember c b p.objId p.id p.security memberId).2 k := by
  unfold propDeleteMember
  split
  · exact .refl b k
  · exact ⟨rfl, fun t => fetch_deleteMember_of_notMem (notMem_valKeys_of_ne hne t)⟩

theorem nwCreateObjProp_nwval (objId : UInt32) (d : PropData) :
    (nwCreateObjProp b objId d).2.2.nwval = b.nwval := by
  unfold nwCreateObjProp
  split
  · split <;> rfl
  · rfl

theorem locChangePropSecurity_nwval (objId : UInt32) (name : CText 16) (security : UInt8) :
    (locChangePropSecurity c b objId name security).2.nwval = b.nwval := by
  unfold locChangePropSecurity
  split
  · rfl
  · split <;> rfl

/-- Deleting another object, which is no member, keeps a property. -/
theorem locDeleteObj_keeps {o : NetObj} (hobj : b.obj o.id = some o)
    (hright : bAcc c o.id 0x33 0x03 = 0) (howner : o.id ≠ k.1)
    (hmember : ∀ d, fetch b.nwprop k = some d → d.isSet = true →
      ∀ k' ∈ valKeys k.1 k.2, o.id ∉ cellsAt b.nwval k') :
    Kept b (locDeleteObj c b o.id).2 k := by
  constructor
  · rw [fetch_nwprop_locDeleteObj hobj hright, if_neg fun hdel => howner hdel.1.symm]
  · intro t
    have hvalues : ∀ k' : ValKey, k'.1 = k.1 →
        fetch (locDeleteProperty c b o.id anyName true).2.nwval k' = fetch b.nwval k' := by
      intro k' hk'
      rw [(locDeleteProperty_eq c b o.id anyName true).1]
      dsimp only
      rw [fetch_deleteValues (deletedIds_nodup c b o.id anyName true), if_neg]
      intro hdel
      exact howner (hdel.1.symm.trans hk')
    rw [locDeleteObj_ok hobj hright]
    dsimp only
    rw [fetch_dropMember ((setProps_nodup _).sublist (List.take_sublist _ _))]
    split
    next hset =>
      obtain ⟨d, hfetch, hisset⟩ := mem_setProps.mp (List.mem_of_mem_take hset)
      rw [fetch_nwprop_locDeleteProperty, if_neg fun hdel => howner hdel.1.symm] at hfetch
      rw [fetch_deleteMember_of_absent]
      · exact hvalues _ rfl
      · intro k' hk'
        rw [cellsAt_congr (hvalues k' (mem_valKeys.mp hk').1)]
        exact hmember d hfetch hisset k' hk'
    next => exact hvalues _ rfl

theorem deleteObj_keeps {type : UInt16} {name : CText 48}
    (hdelete : ¬ DeletesOwnerOrMember k c b (.deleteObj type name)) :
    Kept b (nwDeleteObj c b type name).2 k := by
  rcases hfind : findObjId b type name with ⟨res, b'⟩
  have hsame := (Looked.of_find hfind).sameData
  refine (Kept.of_sameData hsame k).trans ?_
  simp only [nwDeleteObj, hfind]
  cases res with
  | error e => exact .refl b' k
  | ok o =>
      by_cases hright : bAcc c o.id 0x33 0x03 = 0
      · apply locDeleteObj_keeps (findObjId_obj hfind) hright
        · intro howner
          exact hdelete ⟨o, by rw [hfind], hright, .inl howner⟩
        · intro d hfetch hset k' hk' hcell
          rw [hsame.nwprop] at hfetch
          rw [hsame.nwval] at hcell
          exact hdelete ⟨o, by rw [hfind], hright, .inr ⟨d, hfetch, hset, k', hk', hcell⟩⟩
      · simp only [locDeleteObj, if_pos hright]
        exact .refl b' k

theorem createProp_keeps (hhidden : Hidden b k) {type : UInt16} {name : CText 48} {d : PropData}
    (hopen : ¬ ReopensHidden c b (.createProp type name d)) :
    Kept b (nwCreateProp c b type name d).2 k := by
  rcases hfind : findObjId b type name with ⟨res, b'⟩
  have hsame := (Looked.of_find hfind).sameData
  have hlooked := Kept.of_sameData hsame k
  refine hlooked.trans ?_
  simp only [nwCreateProp, hfind]
  cases res with
  | error e => exact .refl b' k
  | ok o =>
      by_cases hright : bAcc c o.id o.security 0x12 = 0
      · simp only [if_neg (not_not.mpr hright)]
        refine ⟨nwCreateObjProp_keeps ?_ (hlooked.hidden hhidden), fun t => ?_⟩
        · intro p hprop hdiff hinternal
          rw [hsame.propsOf] at hprop
          exact hopen ⟨o, p, ⟨rfl, by rw [hfind], hright, hprop, hdiff⟩, hinternal⟩
        · rw [nwCreateObjProp_nwval]
      · simp only [if_pos hright]
        exact .refl b' k

/-- One request of a connection keeps a hidden property, unless it deletes its
object or a member of it, or creates it again with other rights. -/
theorem Hidden.step (hhidden : Hidden b k) (hc : c.internalAct = false) {r : BindRequest}
    (hopen : ¬ ReopensHidden c b r) (hdelete : ¬ DeletesOwnerOrMember k c b r) :
    Kept b (handleBindRequest c b r).2 k := by
  obtain ⟨b', hlook, heff⟩ := handleBindRequest_effect c b r
  have hlooked := Kept.of_sameData hlook.sameData k
  have hhidden' := hlooked.hidden hhidden
  generalize hresult : (handleBindRequest c b r).2 = b'' at heff ⊢
  cases heff with
  | objDeleted type name o =>
      rw [← hresult]
      exact deleteObj_keeps hdelete
  | propCreated type name o d =>
      rw [← hresult]
      exact createProp_keeps hhidden hopen
  | none => exact hlooked
  | objCreated => exact hlooked.trans ⟨rfl, fun _ => rfl⟩
  | objRenamed => exact hlooked.trans ⟨rfl, fun _ => rfl⟩
  | objSecured => exact hlooked.trans ⟨rfl, fun _ => rfl⟩
  | propDeleted type name objId propName =>
      exact hlooked.trans (deleteProperty_keeps hc objId propName hhidden')
  | propSecured type name objId propName security =>
      apply hlooked.trans
      refine ⟨locChangePropSecurity_keeps hc objId propName security hhidden', fun t => ?_⟩
      rw [locChangePropSecurity_nwval]
  | valueWritten type name propName p segment value erase hprop hread =>
      exact hlooked.trans
        (insPropVal_keeps (ne_of_read hc hprop hread hhidden') segment value erase)
  | memberAdded type name propName memberType memberName p m hprop hread =>
      exact hlooked.trans (propAddMember_keeps (ne_of_read hc hprop hread hhidden') m.id)
  | memberDeleted type name propName memberType memberName p m hprop hread =>
      exact hlooked.trans (propDeleteMember_keeps (ne_of_read hc hprop hread hhidden') m.id)

end

/-- Confidentiality and integrity of hidden properties over whole runs of
requests from connections: two binderies that differ in the values of hidden
properties only give the same replies, and a hidden property keeps its record
and its value as long as neither its object nor, if it is a set, a member of it
is deleted. -/
theorem hidden_properties_confidential {b b₂ : Bindery F} {rs : List (Caller × BindRequest)}
    (hsame : SameButHidden b b₂)
    (hrun : binderyMachine.Along
      (fun b r => r.1.internalAct = false ∧ ¬ ReopensHidden r.1 b r.2) b rs) :
    binderyMachine.answers b rs = binderyMachine.answers b₂ rs ∧
      ∀ k, Hidden b k →
        binderyMachine.Along (fun b r => ¬ DeletesOwnerOrMember k r.1 b r.2) b rs →
        Kept b (binderyMachine.exec b rs) k := by
  constructor
  · have hstep : ∀ (b b₂ : Bindery F) (r : Caller × BindRequest), SameButHidden b b₂ →
        (r.1.internalAct = false ∧ ¬ ReopensHidden r.1 b r.2) →
        (binderyMachine.step b r).1 = (binderyMachine.step b₂ r).1 ∧
          SameButHidden (binderyMachine.step b r).2 (binderyMachine.step b₂ r).2 := by
      intro b b₂ r h hok
      obtain ⟨hreply, hnext⟩ := h.step hok.1 hok.2
      exact ⟨hreply.symm, hnext⟩
    exact (binderyMachine.lockstep hstep hsame hrun).1
  · intro k hhidden hkeep
    clear hsame
    induction rs generalizing b with
    | nil => exact .refl b k
    | cons r rs ih =>
        have hone := hhidden.step hrun.1.1 hrun.1.2 hkeep.1
        exact hone.trans (ih hrun.2 (hone.hidden hhidden) hkeep.2)

/-- A value of one segment. -/
theorem tidy_single (k : PropKey) (v : Value) :
    Tidy (store (empty : F ValKey Value) (k.1, k.2, 1) v) k := by
  constructor
  · rw [GapFree, valKeys, valKeysAfter, List.pairwise_map]
    refine List.Pairwise.imp_of_mem (fun ht _ hlt => ?_) (segmentsAfter_sorted 0)
    have hpos := mem_segmentsAfter.mp ht
    intro hstored
    rw [fetch_store] at hstored
    split at hstored
    next heq =>
      simp only [Prod.mk.injEq, true_and] at heq
      rw [heq] at hlt
      exact absurd (Nat.lt_of_lt_of_le hpos (Nat.lt_succ_iff.mp hlt)) (Nat.lt_irrefl _)
    next =>
      rw [fetch_empty] at hstored
      contradiction
  · rw [fetch_store_of_ne, fetch_empty]
    simp

/-- A bindery with the object ANN, whose property `PASSWORD` has a security and
a value of one segment. -/
def passwordBindery (security : UInt8) (v : Value) : Bindery ListFile where
  nwobj := store empty 0x10002 ⟨objName ['A', 'N', 'N'], 1, 0, 0x33⟩
  nwiobj := empty
  nwprop := store empty (0x10002, 1) ⟨propName ['P', 'A', 'S', 'S', 'W', 'O', 'R', 'D'], 0, security⟩
  nwval := store empty (0x10002, 1, 1) v

theorem passwordBindery_tidy (security : UInt8) (v : Value) :
    Tidy (passwordBindery security v).nwval (0x10002, 1) :=
  tidy_single (0x10002, 1) v

/-- Two such binderies differ in that value only. -/
theorem passwordBindery_values (security : UInt8) (v v₂ : Value) (k : PropKey) :
    SameValue (passwordBindery security v).nwval (passwordBindery security v₂).nwval k ∨
      k = (0x10002, 1) := by
  by_cases hk : k = (0x10002, 1)
  · exact .inr hk
  · apply Or.inl
    intro t
    have hne : (k.1, k.2, t) ≠ (0x10002, 1, 1) := by
      intro heq
      simp only [Prod.mk.injEq] at heq
      exact hk (Prod.ext heq.1 heq.2.1)
    simp only [passwordBindery]
    rw [fetch_store_of_ne _ _ hne, fetch_store_of_ne _ _ hne]

/-- The requests of a supervisor that re-secures a property and reads it. -/
def readPasswordRun : List (Caller × BindRequest) :=
  [(.supervisor, .changePropSecurity 1 (objName ['A', 'N', 'N']) 0x33
    (propName ['P', 'A', 'S', 'S', 'W', 'O', 'R', 'D'])),
   (.supervisor, .getPropVal 1 (objName ['A', 'N', 'N']) 1
    (propName ['P', 'A', 'S', 'S', 'W', 'O', 'R', 'D']))]

/-- With the security 0x44 a supervisor learns nothing about the value. -/
theorem hidden_password_confidential :
    let b := passwordBindery 0x44 (.zero 128)
    let b₂ := passwordBindery 0x44 (.ofList 128 [1])
    binderyMachine.answers b readPasswordRun = binderyMachine.answers b₂ readPasswordRun ∧
      ∀ k, Hidden b k → binderyMachine.Along
        (fun b r => ¬ DeletesOwnerOrMember k r.1 b r.2) b readPasswordRun →
        Kept b (binderyMachine.exec b readPasswordRun) k := by
  intro b b₂
  apply hidden_properties_confidential
  · refine ⟨rfl, rfl, rfl, fun k => ?_⟩
    rcases passwordBindery_values 0x44 (.zero 128) (.ofList 128 [1]) k with hsame | rfl
    · exact .inl hsame
    · exact .inr ⟨⟨by decide, _, rfl, by decide⟩, passwordBindery_tidy _ _,
        passwordBindery_tidy _ _⟩
  · exact ⟨⟨rfl, id⟩, ⟨rfl, id⟩, trivial⟩

/-- With the read level 4 and the write level 3 the supervisor may re-secure
the property, and then reads its value. -/
theorem readable_password : ¬ ∀ (b b₂ : Bindery ListFile) (rs : List (Caller × BindRequest)),
    b₂.nwobj = b.nwobj → b₂.nwiobj = b.nwiobj → b₂.nwprop = b.nwprop →
    (∀ k, SameValue b.nwval b₂.nwval k ∨ ∃ d, fetch b.nwprop k = some d ∧
      Caller.level d.security 0x00 = 4 ∧ Tidy b.nwval k ∧ Tidy b₂.nwval k) →
    (∀ r ∈ rs, r.1.internalAct = false) →
    binderyMachine.answers b rs = binderyMachine.answers b₂ rs := by
  intro hall
  have hvalues : ∀ k, SameValue (passwordBindery 0x34 (.zero 128)).nwval
      (passwordBindery 0x34 (.ofList 128 [1])).nwval k ∨
      ∃ d, fetch (passwordBindery 0x34 (.zero 128)).nwprop k = some d ∧
        Caller.level d.security 0x00 = 4 ∧ Tidy (passwordBindery 0x34 (.zero 128)).nwval k ∧
        Tidy (passwordBindery 0x34 (.ofList 128 [1])).nwval k := by
    intro k
    rcases passwordBindery_values 0x34 (.zero 128) (.ofList 128 [1]) k with hsame | rfl
    · exact .inl hsame
    · exact .inr ⟨_, rfl, by decide, passwordBindery_tidy _ _, passwordBindery_tidy _ _⟩
  have hsame := hall (passwordBindery 0x34 (.zero 128)) (passwordBindery 0x34 (.ofList 128 [1]))
    readPasswordRun rfl rfl rfl hvalues (by decide)
  exact absurd hsame (by decide +kernel)

end MarsNwe
