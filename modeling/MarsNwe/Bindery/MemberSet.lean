import MarsNwe.Lib.BoundedSet
import MarsNwe.Bindery.Atomic
import MarsNwe.Bindery.Deletion

/-! # Set properties are finite sets of object ids

The three operations on a set property refine a finite set of at most
255 * 32 ids, as long as no member has the id 0, which marks empty cells.
-/

namespace MarsNwe

open KeyedFile

variable {F : Type → Type → Type} [KeyedFile F]

/-- A call of `nw_add_obj_to_set`, `nw_delete_obj_from_set` or `nw_is_obj_in_set`. -/
structure SetCall where
  caller : Caller
  op : SetOp
  type : UInt16
  name : CText 48
  propName : CText 16
  memberType : UInt16
  memberName : CText 48

namespace SetCall

/-- The property and the member that the call is about. -/
def target (r : SetCall) (b : Bindery F) : Except Int (NetProp × UInt32) :=
  (findObjPropMember r.caller b r.type r.name r.propName r.memberType r.memberName).1

/-- The result code and the bindery after the call. -/
def run (r : SetCall) (b : Bindery F) : Int × Bindery F :=
  match r.op with
  | .add => nwAddObjToSet r.caller b r.type r.name r.propName r.memberType r.memberName
  | .remove => nwDeleteObjFromSet r.caller b r.type r.name r.propName r.memberType r.memberName
  | .contains => nwIsObjInSet r.caller b r.type r.name r.propName r.memberType r.memberName

end SetCall

/-- The result codes of the operations, by what happened to the set. -/
def setCode : SetOp → SetReply → Int
  | .add, .present => -0xe9
  | .add, .full => -0xff
  | .add, _ => 0
  | .remove, _ => 0
  | .contains, .present => 0
  | .contains, _ => -0xea

/-- The bindery under calls on set properties. The id beside a call is the id
of the member it names; the code does not see it. -/
def setMachine : Machine (Bindery F) (SetCall × UInt32) Int where
  step b e := e.1.run b

/-- The most ids that fit into the segments of one property. -/
def setCapacity : Nat := 255 * 32

/-- The finite set that a set property stands for, under the same calls. -/
def memberSpec : Machine (Finset UInt32) (SetCall × UInt32) Int where
  step s e := ((BoundedSet.step setCapacity s (e.1.op, e.2)).map (setCode e.1.op) id)

/-- The value segments of a property hold a finite set of ids: they are the
segments 1 to `n`, hold no id twice, and hold just these ids. -/
structure HoldsSet (f : F ValKey Value) (k : PropKey) (s : Finset UInt32) : Prop where
  segments : ∃ n ≤ 255, ∀ t : UInt8,
    (fetch f (k.1, k.2, t)).isSome ↔ 1 ≤ t.toNat ∧ t.toNat ≤ n
  once : (setMembers f (valKeys k.1 k.2)).Nodup
  members : ∀ id, id ∈ setMembers f (valKeys k.1 k.2) ↔ id ∈ s

/-! ## Adding to a list of segments -/

theorem length_setMembers_le (f : F ValKey Value) (ks : List ValKey) :
    (setMembers f ks).length ≤ 32 * ks.length := by
  induction ks with
  | nil => exact Nat.le_refl 0
  | cons k ks ih =>
      have hcells : (cellsAt f k).length ≤ 32 := by
        unfold cellsAt
        split
        next v _ => rw [Value.length_members]
        next => exact Nat.zero_le 32
      have hfilter := List.length_filter_le (· ≠ 0) (cellsAt f k)
      rw [setMembers_cons, List.length_append, List.length_cons]
      omega

/-- An id written over the first empty cell joins the ids of the segment. -/
theorem filter_setCell {v : Value} (hhole : 0 ∈ v.members) {id : UInt32} (hid : id ≠ 0) :
    ((v.setCell (v.members.idxOf 0) id).members.filter (· ≠ 0)).Perm
      (id :: v.members.filter (· ≠ 0)) := by
  have hidx : v.members.idxOf 0 < v.members.length := List.idxOf_lt_length_iff.mpr hhole
  have hcell : v.members[v.members.idxOf 0] = 0 := List.getElem_idxOf hidx
  have hsplit : v.members.filter (· ≠ 0) =
      (v.members.take (v.members.idxOf 0)).filter (· ≠ 0) ++
        (v.members.drop (v.members.idxOf 0 + 1)).filter (· ≠ 0) := by
    conv_lhs =>
      rw [← List.take_append_drop (v.members.idxOf 0) v.members, List.filter_append,
        List.drop_eq_getElem_cons hidx, hcell, List.filter_cons_of_neg (by simp)]
  rw [Value.members_setCell v (by rwa [Value.length_members] at hidx), List.filter_append,
    List.filter_cons_of_pos (by simpa), hsplit]
  exact List.perm_middle

/-- A new segment holds the id it was created for. -/
theorem filter_newSegment {id : UInt32} (hid : id ≠ 0) :
    ((Value.setCell (ByteBuf.zero 128) 0 id).members.filter (· ≠ 0)) = [id] := by
  have hzero : Value.members (ByteBuf.zero 128) = List.replicate 32 0 := cells_replicate_zero 32
  rw [Value.members_setCell _ (by decide), hzero, List.take_zero, List.nil_append,
    List.filter_cons_of_pos (by simpa), List.drop_replicate]
  simp

/-- Adding a member either adds it once, or finds all cells in use and changes
nothing. -/
theorem addMember_spec {f : F ValKey Value} {id : UInt32} (hid : id ≠ 0) {ks : List ValKey}
    (hnodup : ks.Nodup) (hgap : GapFree f ks) :
    ((addMember f id ks).1 = 0 ∧
      (setMembers (addMember f id ks).2 ks).Perm (id :: setMembers f ks)) ∨
    (addMember f id ks = (-0xff, f) ∧ (setMembers f ks).length = 32 * ks.length) := by
  induction ks with
  | nil => exact .inr ⟨rfl, rfl⟩
  | cons k ks ih =>
      obtain ⟨hk, hks⟩ := List.nodup_cons.mp hnodup
      rw [addMember]
      cases hfetch : fetch f k with
      | some v =>
          dsimp only
          by_cases hhole : 0 ∈ v.members
          · apply Or.inl
            rw [if_pos hhole]
            refine ⟨rfl, ?_⟩
            rw [setMembers_cons, setMembers_cons, cellsAt_store_self, cellsAt_some hfetch,
              setMembers_store_of_notMem hk]
            exact (filter_setCell hhole hid).append_right _
          · rw [if_neg hhole]
            have hfull : v.members.filter (· ≠ 0) = v.members := by
              apply List.filter_eq_self.mpr
              intro id' hid'
              simpa using ne_of_mem_of_not_mem hid' hhole
            rcases ih hks hgap.of_cons with ⟨hcode, hperm⟩ | ⟨heq, hlen⟩
            · apply Or.inl
              refine ⟨hcode, ?_⟩
              rw [setMembers_cons, setMembers_cons, cellsAt_congr (fetch_addMember_of_notMem hk)]
              exact (hperm.append_left _).trans List.perm_middle
            · apply Or.inr
              refine ⟨heq, ?_⟩
              rw [setMembers_cons, cellsAt_some hfetch, hfull, List.length_append, hlen,
                Value.length_members, List.length_cons]
              omega
      | none =>
          apply Or.inl
          refine ⟨rfl, ?_⟩
          rw [hgap.setMembers_eq_nil hfetch, setMembers_cons, cellsAt_store_self,
            filter_newSegment hid, setMembers_store_of_notMem hk]
          have htail : setMembers f ks = [] := by
            have hall := hgap.setMembers_eq_nil hfetch
            rw [setMembers_cons, List.append_eq_nil_iff] at hall
            exact hall.2
          rw [htail]
          exact List.Perm.refl _

/-! ## One call -/

namespace HoldsSet

variable {f : F ValKey Value} {k : PropKey} {s : Finset UInt32}

theorem empty (h : ∀ t, fetch f (k.1, k.2, t) = none) : HoldsSet f k ∅ := by
  have hmembers : setMembers f (valKeys k.1 k.2) = [] := by
    rw [List.eq_nil_iff_forall_not_mem]
    intro id hid
    obtain ⟨-, k', hk', hcell⟩ := mem_setMembers.mp hid
    obtain ⟨hobj, hprop, -⟩ := mem_valKeys.mp hk'
    rw [cellsAt_none (by rw [← h k'.2.2, ← hobj, ← hprop])] at hcell
    contradiction
  refine ⟨⟨0, Nat.zero_le 255, fun t => ?_⟩, ?_, fun id => ?_⟩
  · rw [h]
    constructor
    · intro hsome
      contradiction
    · intro ht
      omega
  · rw [hmembers]
    exact List.nodup_nil
  · rw [hmembers]
    simp

theorem gapFree (h : HoldsSet f k s) : GapFree f (valKeys k.1 k.2) := by
  obtain ⟨n, -, hsegments⟩ := h.segments
  rw [GapFree, valKeys, valKeysAfter, List.pairwise_map]
  refine List.Pairwise.imp_of_mem (fun ht _ hlt => ?_) (segmentsAfter_sorted 0)
  have hpos := mem_segmentsAfter.mp ht
  rw [hsegments, hsegments]
  intro hstored
  exact ⟨hpos, Nat.le_trans (Nat.le_of_lt hlt) hstored.2⟩

/-- As many ids are stored as the set has elements. -/
theorem length_eq (h : HoldsSet f k s) : (setMembers f (valKeys k.1 k.2)).length = s.card := by
  have hset : (setMembers f (valKeys k.1 k.2)).toFinset = s := by
    ext id
    rw [List.mem_toFinset]
    exact h.members id
  rw [← hset, List.toFinset_card_of_nodup h.once]

theorem find {c : Caller} {b : Bindery F} {security : UInt8} {id : UInt32}
    (h : HoldsSet b.nwval k s) (hright : bAcc c k.1 security 0x10 = 0) (hid : id ≠ 0) :
    propFindMember c b k.1 k.2 security id = if id ∈ s then 0 else -0xea := by
  have hfound : ((valKeys k.1 k.2).any fun k => decide (id ∈ cellsAt b.nwval k)) = true ↔
      id ∈ s := by
    rw [← h.members, mem_setMembers, List.any_eq_true]
    simp only [decide_eq_true_eq, hid, ne_eq, not_false_eq_true, true_and]
  rw [propFindMember, if_neg (not_not.mpr hright)]
  by_cases hmem : id ∈ s
  · rw [if_pos (hfound.mpr hmem), if_pos hmem]
  · rw [if_neg fun hany => hmem (hfound.mp hany), if_neg hmem]

/-- Adding an id that is not a member fails only when the segments are full. -/
theorem add {c : Caller} {b : Bindery F} {security : UInt8} {id : UInt32}
    (h : HoldsSet b.nwval k s) (hright : bAcc c k.1 security 0x11 = 0) (hid : id ≠ 0)
    (habsent : id ∉ s) :
    (propAddMember c b k.1 k.2 security id).1 = (if s.card < setCapacity then 0 else -0xff) ∧
      HoldsSet (propAddMember c b k.1 k.2 security id).2.nwval k
        (if s.card < setCapacity then insert id s else s) := by
  have hlen : (valKeys k.1 k.2).length = 255 := by
    simp [valKeys, valKeysAfter, segmentsAfter]
  have hnew : id ∉ setMembers b.nwval (valKeys k.1 k.2) := fun hid => habsent ((h.members id).mp hid)
  rw [propAddMember, if_neg (not_not.mpr hright)]
  dsimp only
  rcases addMember_spec (f := b.nwval) hid (valKeys_nodup k.1 k.2) h.gapFree with
    ⟨hcode, hperm⟩ | ⟨heq, hfull⟩
  · have hroom : s.card < setCapacity := by
      have hle := length_setMembers_le (addMember b.nwval id (valKeys k.1 k.2)).2 (valKeys k.1 k.2)
      rw [hperm.length_eq, List.length_cons, h.length_eq, hlen] at hle
      rw [setCapacity]
      omega
    rw [if_pos hroom, if_pos hroom]
    refine ⟨hcode, ?_, ?_, fun id' => ?_⟩
    · obtain ⟨n, hn, hsegments⟩ := h.segments
      rcases fetch_addMember_isSome b.nwval id (valKeys k.1 k.2) with
        hsame | ⟨pre, k', suf, hks, hpre, hiff⟩
      · refine ⟨n, hn, fun t => ?_⟩
        rw [hsame]
        exact hsegments t
      · -- the segment written is stored already or follows the last one
        have hk' : k' ∈ valKeys k.1 k.2 := by
          rw [hks]
          exact List.mem_append_right _ List.mem_cons_self
        obtain ⟨hobj, hprop, hseg⟩ := mem_valKeys.mp hk'
        obtain ⟨o, i, t'⟩ := k'
        dsimp only at hobj hprop hseg
        subst hobj hprop
        have hpos : 1 ≤ t'.toNat := Nat.pos_of_ne_zero fun heq => hseg (UInt8.toNat_inj.mp heq)
        have hbefore : ∀ t : UInt8, 1 ≤ t.toNat → t.toNat < t'.toNat → t.toNat ≤ n := by
          intro t ht hlt
          have hsorted : (valKeys k.1 k.2).Pairwise fun k k' => k.2.2.toNat < k'.2.2.toNat := by
            rw [valKeys, valKeysAfter, List.pairwise_map]
            exact segmentsAfter_sorted 0
          have ht0 : t ≠ 0 := by
            intro heq
            rw [heq] at ht
            exact absurd ht (by decide)
          have hmem : (k.1, k.2, t) ∈ valKeys k.1 k.2 := mem_valKeys.mpr ⟨rfl, rfl, ht0⟩
          rw [hks] at hmem hsorted
          rcases List.mem_append.mp hmem with hmem | hmem
          · exact ((hsegments t).mp (hpre _ hmem)).2
          · exfalso
            have htail := (List.pairwise_cons.mp (List.pairwise_append.mp hsorted).2.1).1
            rcases List.mem_cons.mp hmem with heq | hmem
            · simp only [Prod.mk.injEq, true_and] at heq
              rw [heq] at hlt
              omega
            · have hgt := htail _ hmem
              dsimp only at hgt
              omega
        have hnext : t'.toNat ≤ n + 1 := by
          by_contra hgap
          have hlt := t'.toNat_lt
          have hprev := hbefore (UInt8.ofNat (n + 1))
          rw [UInt8.toNat_ofNat', Nat.mod_eq_of_lt (by omega)] at hprev
          exact absurd (hprev (by omega) (by omega)) (by omega)
        refine ⟨max n t'.toNat, ?_, fun t => ?_⟩
        · have hlt := t'.toNat_lt
          omega
        · rw [hiff, Bool.or_eq_true, decide_eq_true_eq, hsegments]
          simp only [Prod.mk.injEq, true_and, ← UInt8.toNat_inj]
          omega
    · exact hperm.nodup_iff.mpr (List.nodup_cons.mpr ⟨hnew, h.once⟩)
    · rw [hperm.mem_iff, List.mem_cons, h.members, Finset.mem_insert]
  · have hcard : ¬ s.card < setCapacity := by
      rw [← h.length_eq, hfull, hlen, setCapacity]
      omega
    rw [heq, if_neg hcard, if_neg hcard]
    exact ⟨rfl, h⟩

theorem remove {c : Caller} {b : Bindery F} {security : UInt8} {id : UInt32}
    (h : HoldsSet b.nwval k s) (hright : bAcc c k.1 security 0x11 = 0) (hid : id ≠ 0) :
    (propDeleteMember c b k.1 k.2 security id).1 = 0 ∧
      HoldsSet (propDeleteMember c b k.1 k.2 security id).2.nwval k (s.erase id) := by
  have hmembers := setMembers_deleteMember hid (valKeys_nodup k.1 k.2) h.gapFree
  rw [propDeleteMember, if_neg (not_not.mpr hright)]
  refine ⟨rfl, ?_, ?_, fun id' => ?_⟩
  · obtain ⟨n, hn, hsegments⟩ := h.segments
    refine ⟨n, hn, fun t => ?_⟩
    rw [fetch_deleteMember_isSome]
    exact hsegments t
  · rw [hmembers]
    exact h.once.erase id
  · rw [hmembers, h.once.mem_erase_iff, h.members, Finset.mem_erase]

end HoldsSet

/-- The call is about the property `k`, whose record is `d`, and the member with
the id beside it, and its caller may read and write the value. -/
def SetCall.On (k : PropKey) (d : PropData) (b : Bindery F) (e : SetCall × UInt32) : Prop :=
  (∃ p, e.1.target b = .ok (p, e.2) ∧ (p.objId, p.id) = k) ∧
    bAcc e.1.caller k.1 d.security 0x10 = 0 ∧ bAcc e.1.caller k.1 d.security 0x11 = 0

/-- The bindery holds the property `k` with the record `d` and a finite set as
its value. -/
structure SetState (k : PropKey) (d : PropData) (b : Bindery F) (s : Finset UInt32) : Prop where
  prop : fetch b.nwprop k = some d
  holds : HoldsSet b.nwval k s

theorem propAddMember_nwprop (c : Caller) (b : Bindery F) (objId : UInt32)
    (propId security : UInt8) (memberId : UInt32) :
    (propAddMember c b objId propId security memberId).2.nwprop = b.nwprop := by
  unfold propAddMember
  split <;> rfl

theorem propDeleteMember_nwprop (c : Caller) (b : Bindery F) (objId : UInt32)
    (propId security : UInt8) (memberId : UInt32) :
    (propDeleteMember c b objId propId security memberId).2.nwprop = b.nwprop := by
  unfold propDeleteMember
  split <;> rfl

/-- Every call answers as the finite set does and leaves the set it leaves. -/
theorem SetState.step {k : PropKey} {d : PropData} {b : Bindery F} {s : Finset UInt32}
    {e : SetCall × UInt32} (h : SetState k d b s) (hon : SetCall.On k d b e) (hid : e.2 ≠ 0) :
    (setMachine.step b e).1 = (memberSpec.step s e).1 ∧
      SetState k d (setMachine.step b e).2 (memberSpec.step s e).2 := by
  obtain ⟨⟨c, op, type, name, propName, memberType, memberName⟩, id⟩ := e
  obtain ⟨⟨p, htarget, hkey⟩, hread, hwrite⟩ := hon
  dsimp only [SetCall.target] at htarget hid hread hwrite
  rcases findObjPropMember_cases c b type name propName memberType memberName with
    ⟨e, b', heq, -⟩ | ⟨p', m, -, b', heq, -, -, hlook, hhas, -⟩
  · rw [heq] at htarget
    cases htarget
  rw [heq] at htarget
  cases htarget
  subst hkey
  have hsame := hlook.sameData
  have hdata : p.toPropData = d := by
    have hfetch := h.prop
    rw [← hsame.nwprop, hhas] at hfetch
    exact Option.some.inj hfetch
  subst hdata
  have hholds : HoldsSet b'.nwval (p.objId, p.id) s := by
    rw [hsame.nwval]
    exact h.holds
  have hprop : fetch b'.nwprop (p.objId, p.id) = some p.toPropData := hhas
  have hfind := hholds.find hread hid
  dsimp only at hfind
  cases op with
  | contains =>
      simp only [setMachine, memberSpec, SetCall.run, nwIsObjInSet, heq, hfind, BoundedSet.step,
        Prod.map, id_eq]
      refine ⟨?_, hprop, hholds⟩
      split <;> rfl
  | remove =>
      obtain ⟨hcode, hset⟩ := hholds.remove hwrite hid
      simp only [setMachine, memberSpec, SetCall.run, nwDeleteObjFromSet, heq, BoundedSet.step,
        Prod.map, id_eq]
      refine ⟨hcode, ?_, hset⟩
      rw [propDeleteMember_nwprop]
      exact hprop
  | add =>
      simp only [setMachine, memberSpec, SetCall.run, nwAddObjToSet, heq, hfind, BoundedSet.step,
        Prod.map, id_eq]
      by_cases hmem : m.id ∈ s
      · simp only [if_pos hmem]
        exact ⟨rfl, hprop, hholds⟩
      · obtain ⟨hcode, hset⟩ := hholds.add hwrite hid hmem
        simp only [if_neg hmem, if_true]
        refine ⟨?_, ?_, ?_⟩
        · rw [hcode]
          split <;> rfl
        · rw [propAddMember_nwprop]
          exact hprop
        · convert hset using 1
          split <;> rfl

/-- A call that fails changes no record. -/
theorem SetCall.run_error (r : SetCall) (b : Bindery F) (h : (r.run b).1 ≠ 0) :
    SameData b (r.run b).2 := by
  obtain ⟨c, op, type, name, propName, memberType, memberName⟩ := r
  cases op with
  | add => exact nwAddObjToSet_error h
  | remove => exact nwDeleteObjFromSet_error h
  | contains =>
      rcases findObjPropMember_cases c b type name propName memberType memberName with
        ⟨e, b', heq, hlook, -⟩ | ⟨p, m, -, b', heq, -, -, hlook, -⟩ <;>
        simp only [SetCall.run, nwIsObjInSet, heq] <;> exact hlook.sameData

/-- Any run of calls on one set property, created empty, refines a finite set
of at most 255 * 32 ids: the calls are answered as the set answers them, and
the segments hold the set. -/
theorem set_calls_refine {k : PropKey} {d : PropData} {b : Bindery F}
    {es : List (SetCall × UInt32)} (hprop : fetch b.nwprop k = some d)
    (hempty : ∀ t, fetch b.nwval (k.1, k.2, t) = none)
    (hok : setMachine.Along (fun b e => SetCall.On k d b e ∧ e.2 ≠ 0) b es) :
    setMachine.answers b es = memberSpec.answers ∅ es ∧
      HoldsSet (setMachine.exec b es).nwval k (memberSpec.exec ∅ es) ∧
      (memberSpec.exec ∅ es).card ≤ setCapacity ∧
      ∀ r b', (SetCall.run (F := F) r b').1 ≠ 0 → SameData b' (r.run b').2 := by
  have hstep : ∀ (b : Bindery F) s e, SetState k d b s → SetCall.On k d b e ∧ e.2 ≠ 0 →
      (setMachine.step b e).1 = (memberSpec.step s e).1 ∧
        SetState k d (setMachine.step b e).2 (memberSpec.step s e).2 :=
    fun _ _ _ h hon => h.step hon.1 hon.2
  obtain ⟨hanswers, hend⟩ := Machine.lockstep setMachine hstep ⟨hprop, .empty hempty⟩ hok
  have hcard : ∀ (s : Finset UInt32) e, s.card ≤ setCapacity →
      (memberSpec.step s e).2.card ≤ setCapacity :=
    fun s e hs => BoundedSet.step_card_le s (e.1.op, e.2) hs
  exact ⟨hanswers, hend.holds, memberSpec.exec_preserves hcard es (Nat.zero_le _),
    SetCall.run_error⟩

/-- A bindery with the object ANN, an object with the id 0 and an empty set
property of ANN. -/
def setBindery : Bindery ListFile where
  nwobj := store (store empty 0x10002 ⟨objName ['A', 'N', 'N'], 1, 0, 0x33⟩)
    0 ⟨objName ['Z'], 0xffff, 0, 0x33⟩
  nwiobj := empty
  nwprop := store empty (0x10002, 1) ⟨propName ['G'], 2, 0x33⟩
  nwval := empty

/-- A call of the supervisor on the set property of ANN. -/
def setCall (op : SetOp) (memberType : UInt16) (memberName : CText 48) : SetCall :=
  ⟨.supervisor, op, 1, objName ['A', 'N', 'N'], propName ['G'], memberType, memberName⟩

/-- The set property of ANN. -/
def annGroup : NetProp := ⟨⟨propName ['G'], 2, 0x33⟩, 0x10002, 1⟩

/-- ANN joins the set and is found in it. -/
theorem set_calls_refine_ann :
    let es := [(setCall .add 1 (objName ['A', 'N', 'N']), 0x10002),
      (setCall .contains 1 (objName ['A', 'N', 'N']), 0x10002)]
    setMachine.answers setBindery es = memberSpec.answers ∅ es ∧
      HoldsSet (setMachine.exec setBindery es).nwval (0x10002, 1) (memberSpec.exec ∅ es) ∧
      (memberSpec.exec ∅ es).card ≤ setCapacity ∧
      ∀ r b', (SetCall.run (F := ListFile) r b').1 ≠ 0 → SameData b' (r.run b').2 :=
  set_calls_refine (k := (0x10002, 1)) (d := annGroup.toPropData) rfl (fun _ => rfl)
    ⟨⟨⟨⟨annGroup, by decide +kernel, rfl⟩, by decide, by decide⟩, by decide⟩,
      ⟨⟨⟨annGroup, by decide +kernel, rfl⟩, by decide, by decide⟩, by decide⟩, trivial⟩

/-- Once ANN is in the set, the object with the id 0 is found in it as well. -/
theorem set_calls_differ_at_zero : ¬ ∀ (k : PropKey) (d : PropData) (b : Bindery ListFile)
    (es : List (SetCall × UInt32)), fetch b.nwprop k = some d →
    (∀ t, fetch b.nwval (k.1, k.2, t) = none) → setMachine.Along (SetCall.On k d) b es →
    setMachine.answers b es = memberSpec.answers ∅ es := by
  intro hall
  have hsame := hall (0x10002, 1) annGroup.toPropData setBindery
    [(setCall .add 1 (objName ['A', 'N', 'N']), 0x10002),
      (setCall .contains 0xffff (objName ['Z']), 0)] rfl (fun _ => rfl)
    ⟨⟨⟨annGroup, by decide +kernel, rfl⟩, by decide, by decide⟩,
      ⟨⟨annGroup, by decide +kernel, rfl⟩, by decide, by decide⟩, trivial⟩
  exact absurd hsame (by decide +kernel)

end MarsNwe
