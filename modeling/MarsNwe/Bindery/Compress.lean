import MarsNwe.Lib.Packing
import MarsNwe.Bindery.Deletion

/-! # Repairing and compressing the bindery

`check_compress_bindery` deletes the properties of objects that do not exist
and writes the value file anew from the properties that are left: item values
segment by segment, sets without dead and repeated members.
-/

namespace MarsNwe

open KeyedFile

variable {F : Type → Type → Type} [KeyedFile F]

/-! ## The code -/

/-- `LOC_MAX_OBJS_PROPS`. -/
def locMaxObjsProps : Nat := locMaxObjs * 20

/-- The loop over `FNPROP`: the properties of unknown objects, the other ones,
and whether `propok` is left set. The loop ends at the property that has no
room left in its array; only for `prop_oid` that clears `propok`. -/
def collectProps (objs : List UInt32) : List (PropKey × PropData) → Nat → Nat →
    List PropKey × List (PropKey × PropData) × Bool
  | [], _, _ => ([], [], true)
  | r :: rs, dRoom, pRoom =>
      if r.1.1 ∈ objs then
        match pRoom with
        | 0 => ([], [], false)
        | pRoom + 1 =>
            let (dProps, props, propok) := collectProps objs rs dRoom pRoom
            (dProps, r :: props, propok)
      else
        match dRoom with
        | 0 => ([], [], true)
        | dRoom + 1 =>
            let (dProps, props, propok) := collectProps objs rs dRoom pRoom
            (r.1 :: dProps, props, propok)

/-- `loc_delete_property` for the collected properties, the last one first. -/
def deleteProps (b : Bindery F) (dProps : List PropKey) : Bindery F :=
  dProps.foldr (fun k b => (locDeletePropertyById b k.1 k.2).2) b

/-- A value segment that starts with the given ids. -/
def Value.ofIds (ids : List UInt32) : Value := .ofList 128 (cellBytes ids)

/-- The state of the loop over the cells of a set: the records written to the
temporary file, the segment `valexp.segment` being filled with its items, and
the ids seen so far, which the code keeps in `d_prop_oid`. -/
structure SetWriter where
  written : List (ValKey × Value)
  segment : UInt8
  items : List UInt32
  seen : List UInt32

namespace SetWriter

/-- Before the first cell. -/
def start : SetWriter := ⟨[], 1, [], []⟩

/-- One cell: empty, dead and repeated ids are skipped, a full segment is
written before the next id. -/
def put (objs : List UInt32) (k : PropKey) (w : SetWriter) (id : UInt32) : SetWriter :=
  if id = 0 ∨ id ∉ objs ∨ id ∈ w.seen then w
  else if 31 < w.items.length then
    ⟨w.written ++ [((k.1, k.2, w.segment), .ofIds w.items)], w.segment + 1, [id], w.seen ++ [id]⟩
  else ⟨w.written, w.segment, w.items ++ [id], w.seen ++ [id]⟩

/-- After the last cell: the segment being filled is written if it has items. -/
def finish (k : PropKey) (w : SetWriter) : List (ValKey × Value) :=
  if w.items.isEmpty then w.written
  else w.written ++ [((k.1, k.2, w.segment), .ofIds w.items)]

end SetWriter

/-- What is written for one property: the segments 1 to 255 of an item, or the
members of a set. -/
def compressProp (f : F ValKey Value) (objs : List UInt32) (r : PropKey × PropData) :
    List (ValKey × Value) :=
  if r.2.isSet then
    ((setCells f (valKeys r.1.1 r.1.2)).foldl (SetWriter.put objs r.1) .start).finish r.1
  else (valKeys r.1.1 r.1.2).filterMap fun k => (fetch f k).map (Prod.mk k)

/-- How `check_compress_bindery` ends. -/
inductive CompressEnd (F : Type → Type → Type) where
  /-- "to many objs": nothing has been done. -/
  | tooManyObjs
  /-- "to many props": the values have not been compressed. -/
  | tooManyProps (b : Bindery F)
  /-- `name_match` is called without a pattern. -/
  | crash
  | done (b : Bindery F)

/-- `check_compress_bindery`. A property of an unknown object with the id 0
makes `loc_delete_property` look for properties by a null name. -/
def checkCompressBindery (b : Bindery F) : CompressEnd F :=
  let objs := keys b.nwobj
  if locMaxObjs < objs.length then .tooManyObjs
  else
    let (dProps, props, propok) := collectProps objs (walk b.nwprop) locMaxObjs locMaxObjsProps
    if dProps.any fun k => k.2 == 0 then .crash
    else
      let b := deleteProps b dProps
      if propok then
        .done { b with nwval := storeAll empty (props.flatMap (compressProp b.nwval objs)) }
      else .tooManyProps b

/-! ## The properties collected -/

theorem collectProps_sublist (objs : List UInt32) (rs : List (PropKey × PropData))
    (dRoom pRoom : Nat) :
    (collectProps objs rs dRoom pRoom).1.Sublist ((rs.filter (·.1.1 ∉ objs)).map Prod.fst) ∧
      (collectProps objs rs dRoom pRoom).1.length ≤ dRoom ∧
      (collectProps objs rs dRoom pRoom).2.1.Sublist (rs.filter (·.1.1 ∈ objs)) ∧
      (collectProps objs rs dRoom pRoom).2.1.length ≤ pRoom := by
  induction rs generalizing dRoom pRoom with
  | nil => exact ⟨.slnil, Nat.zero_le _, .slnil, Nat.zero_le _⟩
  | cons r rs ih =>
      unfold collectProps
      by_cases hobj : r.1.1 ∈ objs
      · rw [if_pos hobj, List.filter_cons_of_neg (by simpa), List.filter_cons_of_pos (by simpa)]
        cases pRoom with
        | zero => exact ⟨List.nil_sublist _, Nat.zero_le _, List.nil_sublist _, Nat.zero_le _⟩
        | succ pRoom =>
            obtain ⟨hd, hdlen, hp, hplen⟩ := ih dRoom pRoom
            exact ⟨hd, hdlen, hp.cons_cons r, Nat.succ_le_succ hplen⟩
      · rw [if_neg hobj, List.filter_cons_of_pos (by simpa), List.filter_cons_of_neg (by simpa)]
        cases dRoom with
        | zero => exact ⟨List.nil_sublist _, Nat.zero_le _, List.nil_sublist _, Nat.zero_le _⟩
        | succ dRoom =>
            obtain ⟨hd, hdlen, hp, hplen⟩ := ih dRoom pRoom
            exact ⟨hd.cons_cons r.1, Nat.succ_le_succ hdlen, hp, hplen⟩

/-- When there is room for all of them, all properties are collected. -/
theorem collectProps_all {objs : List UInt32} {rs : List (PropKey × PropData)} {dRoom pRoom : Nat}
    (hroom : (rs.filter (·.1.1 ∉ objs)).length ≤ dRoom)
    (hok : (collectProps objs rs dRoom pRoom).2.2 = true) :
    (collectProps objs rs dRoom pRoom).1 = (rs.filter (·.1.1 ∉ objs)).map Prod.fst ∧
      (collectProps objs rs dRoom pRoom).2.1 = rs.filter (·.1.1 ∈ objs) := by
  induction rs generalizing dRoom pRoom with
  | nil => exact ⟨rfl, rfl⟩
  | cons r rs ih =>
      unfold collectProps at hok ⊢
      by_cases hobj : r.1.1 ∈ objs
      · rw [List.filter_cons_of_neg (by simpa)] at hroom ⊢
        rw [if_pos hobj] at hok ⊢
        rw [List.filter_cons_of_pos (by simpa)]
        cases pRoom with
        | zero => contradiction
        | succ pRoom =>
            obtain ⟨hd, hp⟩ := ih hroom hok
            exact ⟨hd, congrArg (r :: ·) hp⟩
      · rw [List.filter_cons_of_pos (by simpa)] at hroom ⊢
        rw [if_neg hobj] at hok ⊢
        rw [List.filter_cons_of_neg (by simpa)]
        cases dRoom with
        | zero => simp at hroom
        | succ dRoom =>
            obtain ⟨hd, hp⟩ := ih (Nat.le_of_succ_le_succ hroom) hok
            exact ⟨congrArg (r.1 :: ·) hd, hp⟩

/-- `propok` stays set when the properties of existing objects have room. -/
theorem collectProps_ok {objs : List UInt32} {rs : List (PropKey × PropData)} {dRoom pRoom : Nat}
    (hroom : (rs.filter (·.1.1 ∈ objs)).length ≤ pRoom) :
    (collectProps objs rs dRoom pRoom).2.2 = true := by
  induction rs generalizing dRoom pRoom with
  | nil => rfl
  | cons r rs ih =>
      unfold collectProps
      by_cases hobj : r.1.1 ∈ objs
      · rw [List.filter_cons_of_pos (by simpa)] at hroom
        rw [if_pos hobj]
        cases pRoom with
        | zero => simp at hroom
        | succ pRoom => exact ih (Nat.le_of_succ_le_succ hroom)
      · rw [List.filter_cons_of_neg (by simpa)] at hroom
        rw [if_neg hobj]
        cases dRoom with
        | zero => rfl
        | succ dRoom => exact ih hroom

/-- With room left, a property of an unknown object is never overlooked altogether. -/
theorem collectProps_ne_nil {objs : List UInt32} {rs : List (PropKey × PropData)}
    {dRoom pRoom : Nat} (hroom : 0 < dRoom) (hok : (collectProps objs rs dRoom pRoom).2.2 = true)
    {r : PropKey × PropData} (hr : r ∈ rs) (horphan : r.1.1 ∉ objs) :
    (collectProps objs rs dRoom pRoom).1 ≠ [] := by
  induction rs generalizing pRoom with
  | nil => simp at hr
  | cons head rs ih =>
      unfold collectProps at hok ⊢
      by_cases hobj : head.1.1 ∈ objs
      · rw [if_pos hobj] at hok ⊢
        cases pRoom with
        | zero => contradiction
        | succ pRoom =>
            rcases List.mem_cons.mp hr with rfl | hr
            · exact absurd hobj horphan
            · exact ih hok hr
      · rw [if_neg hobj]
        cases dRoom with
        | zero => omega
        | succ dRoom => exact List.cons_ne_nil _ _

/-! ## The properties deleted -/

theorem locDeletePropertyById_eq (b : Bindery F) (objId : UInt32) {propId : UInt8}
    (hid : propId ≠ 0) : (locDeletePropertyById b objId propId).2 = { b with
      nwval := deleteValues b.nwval objId [propId]
      nwprop := deletePrefix b.nwprop [(objId, propId)] } := by
  have hpos : 0 < propId.toNat := Nat.pos_of_ne_zero fun h => hid (UInt8.toNat_inj.mp h)
  have hfilter : segments.filter (fun k => decide (k ∈ [propId]) &&
      decide ((k.toNat : Int) ≤ (propId.toNat : Int))) = [propId] := by
    have hone : segments.filter (fun k => decide (k ∈ [propId]) &&
        decide ((k.toNat : Int) ≤ (propId.toNat : Int))) = segments.filter (· == propId) := by
      apply List.filter_congr
      intro k _
      rw [Bool.eq_iff_iff]
      simp only [List.mem_singleton, Bool.and_eq_true, decide_eq_true_eq, beq_iff_eq]
      exact ⟨And.left, fun h => ⟨h, by rw [h]⟩⟩
    rw [hone, List.filter_beq, List.count_eq_one_of_mem segments_nodup (mem_segments.mpr hid)]
    rfl
  rw [locDeletePropertyById, deleteMarked, if_pos (by omega)]
  dsimp only
  rw [hfilter]
  split <;> rfl

/-- The properties deleted are gone, with nothing changed for the other ones. -/
theorem deleteProps_spec {b : Bindery F} {dProps : List PropKey} (hids : ∀ k ∈ dProps, k.2 ≠ 0) :
    SameObjects b (deleteProps b dProps) ∧
      (∀ k, fetch (deleteProps b dProps).nwprop k =
        if k ∈ dProps then none else fetch b.nwprop k) ∧
      ∀ k, k ∉ dProps → SameValue b.nwval (deleteProps b dProps).nwval k := by
  induction dProps with
  | nil => exact ⟨.refl b, fun k => by simp [deleteProps], fun k _ t => rfl⟩
  | cons head tail ih =>
      obtain ⟨hobjects, hprops, hvalues⟩ := ih fun k hk => hids k (List.mem_cons_of_mem _ hk)
      have hstep : deleteProps b (head :: tail) =
          (locDeletePropertyById (deleteProps b tail) head.1 head.2).2 := rfl
      rw [hstep, locDeletePropertyById_eq _ _ (hids head List.mem_cons_self)]
      refine ⟨⟨hobjects.nwobj, hobjects.nwiobj⟩, fun k => ?_, fun k hk t => ?_⟩
      · have hone : fetch (deletePrefix (deleteProps b tail).nwprop [(head.1, head.2)]) k =
            if k = head then none else fetch (deleteProps b tail).nwprop k := by
          rw [deletePrefix]
          split
          next => exact fetch_delete _ _ _
          next hmissing =>
            split
            next heq =>
              rw [heq]
              exact Option.not_isSome_iff_eq_none.mp hmissing
            next => rfl
        rw [hone, hprops]
        simp only [List.mem_cons]
        split
        next heq => rw [if_pos (Or.inl heq)]
        next hne => simp only [hne, false_or]
      · have hhead : k ≠ head := fun heq => hk (heq ▸ List.mem_cons_self)
        have hkeep := hvalues k (fun hmem => hk (List.mem_cons_of_mem _ hmem)) t
        dsimp only
        rw [fetch_deleteValues (List.nodup_singleton head.2), if_neg, hkeep]
        rintro ⟨hobj, hprop, -⟩
        exact hhead (Prod.ext hobj (List.mem_singleton.mp hprop))

/-! ## The records written -/

/-- The members that are left of a set: the ids of existing objects, each where
it occurs first. -/
def liveMembers (f : F ValKey Value) (objs : List UInt32) (k : PropKey) : List UInt32 :=
  ((setCells f (valKeys k.1 k.2)).filter fun id => id ≠ 0 ∧ id ∈ objs).eraseDups

/-- The segments 1, 2, … of a set that holds a list of ids, 32 in each but the
last one. -/
def packedSegment (ids : List UInt32) (t : UInt8) : Option Value :=
  if t ≠ 0 ∧ 32 * (t.toNat - 1) < ids.length then
    some (.ofIds (Packing.block 32 ids (t.toNat - 1)))
  else none

/-- The full segments written for the ids seen. -/
def fullSegments (k : PropKey) (ids : List UInt32) (m : Nat) : List (ValKey × Value) :=
  (List.range m).map fun i => ((k.1, k.2, UInt8.ofNat (i + 1)), .ofIds (Packing.block 32 ids i))

/-- The writer has packed the ids seen: `m` full segments, and the rest of the
ids as the items of the next one. -/
structure SetWriter.Packs (k : PropKey) (w : SetWriter) (m : Nat) : Prop where
  written : w.written = fullSegments k w.seen m
  segment : w.segment = UInt8.ofNat (m + 1)
  items : w.items = w.seen.drop (32 * m)
  full : 32 * m ≤ w.seen.length
  room : w.seen.length ≤ 32 * (m + 1)
  used : m = 0 ∨ 32 * m < w.seen.length

theorem fullSegments_append (k : PropKey) {ids : List UInt32} {m : Nat}
    (hfull : 32 * m ≤ ids.length) (id : UInt32) :
    fullSegments k (ids ++ [id]) m = fullSegments k ids m := by
  apply List.map_congr_left
  intro i hi
  rw [List.mem_range] at hi
  rw [Packing.block_append (by omega)]

/-- A live id is appended, all other cells are skipped. -/
theorem SetWriter.Packs.put {k : PropKey} {w : SetWriter} {m : Nat} (h : w.Packs k m)
    (objs : List UInt32) (id : UInt32) :
    (∃ m', (w.put objs k id).Packs k m') ∧ (w.put objs k id).seen =
      if id = 0 ∨ id ∉ objs ∨ id ∈ w.seen then w.seen else w.seen ++ [id] := by
  have hlen : w.items.length = w.seen.length - 32 * m := by
    rw [h.items, List.length_drop]
  have hfull := h.full
  have hroom := h.room
  unfold SetWriter.put
  split
  next => exact ⟨⟨m, h⟩, rfl⟩
  next =>
    split
    next hflush =>
      have hblock : Packing.block 32 (w.seen ++ [id]) m = w.items := by
        rw [Packing.block_append (by omega), Packing.block, h.items, List.take_of_length_le]
        rw [List.length_drop]
        omega
      refine ⟨⟨m + 1, ?_, ?_, ?_, ?_, ?_, ?_⟩, rfl⟩
      · dsimp only
        rw [fullSegments, List.range_succ, List.map_append, List.map_singleton, hblock,
          ← fullSegments, fullSegments_append k hfull, ← h.written, h.segment]
      · dsimp only
        rw [h.segment, UInt8.ofNat_add (m + 1) 1]
        rfl
      · dsimp only
        rw [List.drop_append_of_le_length (by omega), List.drop_eq_nil_of_le (by omega),
          List.nil_append]
      all_goals
        simp only [List.length_append, List.length_singleton]
        omega
    next hkeep =>
      refine ⟨⟨m, ?_, h.segment, ?_, ?_, ?_, ?_⟩, rfl⟩
      · dsimp only
        rw [fullSegments_append k hfull, h.written]
      · dsimp only
        rw [List.drop_append_of_le_length hfull, h.items]
      all_goals
        simp only [List.length_append, List.length_singleton]
        omega

/-- All cells of a set: what has been seen are the live members. -/
theorem foldl_put (objs : List UInt32) (k : PropKey) (cs : List UInt32) :
    (∃ m, (cs.foldl (SetWriter.put objs k) .start).Packs k m) ∧
      (cs.foldl (SetWriter.put objs k) .start).seen =
        (cs.filter fun id => id ≠ 0 ∧ id ∈ objs).eraseDups := by
  induction cs using List.reverseRecOn with
  | nil => exact ⟨⟨0, rfl, rfl, rfl, Nat.le_refl _, Nat.zero_le _, .inl rfl⟩, rfl⟩
  | append_singleton cs id ih =>
      obtain ⟨⟨m, hpacks⟩, hseen⟩ := ih
      obtain ⟨hnext, hput⟩ := hpacks.put objs id
      rw [List.foldl_append, List.foldl_cons, List.foldl_nil]
      refine ⟨hnext, ?_⟩
      rw [hput, hseen, List.filter_append]
      by_cases hlive : id ≠ 0 ∧ id ∈ objs
      · rw [List.filter_cons_of_pos (by simpa using hlive), List.filter_nil,
          Packing.eraseDups_concat]
        simp only [hlive.1, hlive.2, not_true_eq_false, false_or, List.mem_eraseDups]
      · rw [List.filter_cons_of_neg (by simpa using hlive), List.filter_nil, List.append_nil,
          if_pos]
        by_contra hnot
        rw [not_or, not_or, not_not] at hnot
        exact hlive ⟨hnot.1, hnot.2.1⟩

/-- The records written for a set are its packed segments. -/
theorem mem_finish {k : PropKey} {w : SetWriter} {m : Nat} (h : w.Packs k m)
    (hlen : w.seen.length ≤ 32 * 255) (k' : ValKey) (v : Value) :
    (k', v) ∈ w.finish k ↔ (k'.1, k'.2.1) = k ∧ packedSegment w.seen k'.2.2 = some v := by
  have hfull := h.full
  have hroom := h.room
  have hcount : w.finish k = fullSegments k w.seen (Packing.blockCount 32 w.seen) := by
    unfold SetWriter.finish
    split
    next hempty =>
      rw [List.isEmpty_iff, h.items, List.drop_eq_nil_iff] at hempty
      have hm : Packing.blockCount 32 w.seen = m := by
        rw [Packing.blockCount]
        omega
      rw [hm, h.written]
    next hitems =>
      rw [List.isEmpty_iff, h.items, List.drop_eq_nil_iff] at hitems
      have hm : Packing.blockCount 32 w.seen = m + 1 := by
        rw [Packing.blockCount]
        omega
      have hblock : Packing.block 32 w.seen m = w.items := by
        rw [Packing.block, h.items, List.take_of_length_le]
        rw [List.length_drop]
        omega
      rw [hm, fullSegments, List.range_succ, List.map_append, List.map_singleton, hblock,
        ← fullSegments, h.written, h.segment]
  have hmax : Packing.blockCount 32 w.seen ≤ 255 := by
    rw [Packing.blockCount]
    omega
  rw [hcount, fullSegments, List.mem_map]
  constructor
  · rintro ⟨i, hi, heq⟩
    rw [List.mem_range] at hi
    obtain ⟨rfl, rfl⟩ := Prod.mk.inj heq
    have ht : (UInt8.ofNat (i + 1)).toNat = i + 1 := by
      rw [UInt8.toNat_ofNat', Nat.mod_eq_of_lt (by omega)]
    have hne : UInt8.ofNat (i + 1) ≠ 0 := by
      intro hzero
      rw [hzero] at ht
      exact absurd ht (by simp)
    refine ⟨rfl, ?_⟩
    rw [packedSegment, ht, Nat.add_sub_cancel,
      if_pos ⟨hne, (Packing.lt_blockCount (by decide)).mp hi⟩]
  · rintro ⟨rfl, hsegment⟩
    unfold packedSegment at hsegment
    split at hsegment
    next hused =>
      have hpos : 0 < k'.2.2.toNat :=
        Nat.pos_of_ne_zero fun hzero => hused.1 (UInt8.toNat_inj.mp hzero)
      refine ⟨k'.2.2.toNat - 1,
        List.mem_range.mpr ((Packing.lt_blockCount (by decide)).mpr hused.2), ?_⟩
      rw [Nat.sub_add_cancel hpos, UInt8.ofNat_toNat, Option.some.inj hsegment]
    next => contradiction

theorem length_setCells_le (f : F ValKey Value) (ks : List ValKey) :
    (setCells f ks).length ≤ 32 * ks.length := by
  induction ks with
  | nil => exact Nat.le_refl 0
  | cons k ks ih =>
      have hcells : (cellsAt f k).length ≤ 32 := by
        unfold cellsAt
        split
        next v _ => rw [Value.length_members]
        next => exact Nat.zero_le 32
      simp only [setCells, List.flatMap_cons, List.length_append, List.length_cons] at ih ⊢
      omega

theorem length_valKeys (objId : UInt32) (propId : UInt8) : (valKeys objId propId).length = 255 := by
  simp [valKeys, valKeysAfter, segmentsAfter]

theorem length_liveMembers (f : F ValKey Value) (objs : List UInt32) (k : PropKey) :
    (liveMembers f objs k).length ≤ 32 * 255 := by
  have hcells := length_setCells_le f (valKeys k.1 k.2)
  have hfilter := List.length_filter_le (fun id => decide (id ≠ 0 ∧ id ∈ objs))
    (setCells f (valKeys k.1 k.2))
  have hdups := Packing.length_eraseDups_le
    ((setCells f (valKeys k.1 k.2)).filter fun id => id ≠ 0 ∧ id ∈ objs)
  rw [length_valKeys] at hcells
  exact hdups.trans (hfilter.trans hcells)

/-- What is written for one property, segment by segment. -/
def compressed (f : F ValKey Value) (objs : List UInt32) (r : PropKey × PropData) (t : UInt8) :
    Option Value :=
  if r.2.isSet then packedSegment (liveMembers f objs r.1) t
  else if t = 0 then none
  else fetch f (r.1.1, r.1.2, t)

theorem mem_compressProp (f : F ValKey Value) (objs : List UInt32) (r : PropKey × PropData)
    (k : ValKey) (v : Value) : (k, v) ∈ compressProp f objs r ↔
      (k.1, k.2.1) = r.1 ∧ compressed f objs r k.2.2 = some v := by
  unfold compressProp compressed
  split
  next =>
    obtain ⟨⟨m, hpacks⟩, hseen⟩ := foldl_put objs r.1 (setCells f (valKeys r.1.1 r.1.2))
    rw [← liveMembers] at hseen
    have hlen := length_liveMembers f objs r.1
    rw [← hseen] at hlen ⊢
    exact mem_finish hpacks hlen k v
  next =>
    simp only [List.mem_filterMap, Option.map_eq_some_iff, Prod.mk.injEq, mem_valKeys]
    constructor
    · rintro ⟨k', ⟨hobj, hprop, hseg⟩, v', hfetch, rfl, rfl⟩
      refine ⟨Prod.ext hobj hprop, ?_⟩
      rw [if_neg hseg, ← hobj, ← hprop]
      exact hfetch
    · rintro ⟨hkey, hsegment⟩
      split at hsegment
      next => contradiction
      next hseg =>
        rw [← hkey] at hsegment ⊢
        exact ⟨k, ⟨rfl, rfl, hseg⟩, v, hsegment, rfl, rfl⟩

/-- The value file written anew: every property collected is compressed, and
there is nothing else. -/
theorem fetch_compressed {f : F ValKey Value} {objs : List UInt32}
    {props : List (PropKey × PropData)}
    (huniq : ∀ r ∈ props, ∀ r' ∈ props, r.1 = r'.1 → r = r') (k : ValKey) (v : Value) :
    fetch (storeAll (empty : F ValKey Value) (props.flatMap (compressProp f objs))) k = some v ↔
      ∃ r ∈ props, (k.1, k.2.1) = r.1 ∧ compressed f objs r k.2.2 = some v := by
  have hmem : ∀ k v, (k, v) ∈ props.flatMap (compressProp f objs) ↔
      ∃ r ∈ props, (k.1, k.2.1) = r.1 ∧ compressed f objs r k.2.2 = some v := by
    intro k v
    simp only [List.mem_flatMap, mem_compressProp]
  rw [fetch_storeAll_empty, hmem]
  intro k v v' hv hv'
  obtain ⟨r, hr, hkey, hvalue⟩ := (hmem k v).mp hv
  obtain ⟨r', hr', hkey', hvalue'⟩ := (hmem k v').mp hv'
  obtain rfl := huniq r hr r' hr' (hkey.symm.trans hkey')
  rw [hvalue] at hvalue'
  exact Option.some.inj hvalue'

theorem fetch_compressed_of_mem {f : F ValKey Value} {objs : List UInt32}
    {props : List (PropKey × PropData)}
    (huniq : ∀ r ∈ props, ∀ r' ∈ props, r.1 = r'.1 → r = r') {r : PropKey × PropData}
    (hr : r ∈ props) (t : UInt8) :
    fetch (storeAll (empty : F ValKey Value) (props.flatMap (compressProp f objs)))
      (r.1.1, r.1.2, t) = compressed f objs r t := by
  apply Option.ext
  intro v
  rw [fetch_compressed huniq]
  constructor
  · rintro ⟨r', hr', hkey, hvalue⟩
    rw [huniq r hr r' hr' hkey]
    exact hvalue
  · intro hvalue
    exact ⟨r, hr, rfl, hvalue⟩

theorem fetch_compressed_of_notMem {f : F ValKey Value} {objs : List UInt32}
    {props : List (PropKey × PropData)}
    (huniq : ∀ r ∈ props, ∀ r' ∈ props, r.1 = r'.1 → r = r') {k : ValKey}
    (hk : ∀ r ∈ props, (k.1, k.2.1) ≠ r.1) :
    fetch (storeAll (empty : F ValKey Value) (props.flatMap (compressProp f objs))) k = none := by
  rw [Option.eq_none_iff_forall_ne_some]
  intro v hvalue
  obtain ⟨r, hr, hkey, -⟩ := (fetch_compressed huniq k v).mp hvalue
  exact hk r hr hkey

/-! ## Compressing again -/

theorem members_ofIds {ids : List UInt32} (hlen : ids.length ≤ 32) :
    (Value.ofIds ids).members = ids ++ List.replicate (32 - ids.length) 0 := by
  have hbytes : (Value.ofIds ids).bytes =
      cellBytes ids ++ List.replicate (4 * (32 - ids.length)) 0 := by
    change (cellBytes ids).take 128 ++ List.replicate (128 - (cellBytes ids).length) 0 = _
    rw [length_cellBytes, List.take_of_length_le, Nat.mul_sub]
    rw [length_cellBytes]
    omega
  rw [Value.members, hbytes, cells_append (length_cellBytes ids), cells_cellBytes,
    cells_replicate_zero]

theorem segments_eq_map : segments = (List.range 255).map fun i => UInt8.ofNat (i + 1) := by
  rw [segments, segmentsAfter, List.range'_eq_map_range, List.map_map]
  apply List.map_congr_left
  intro i _
  rw [Function.comp_apply, Nat.add_comm]
  rfl

/-- The live members of a packed set are its members. -/
theorem filter_setCells_packed {f : F ValKey Value} {objs : List UInt32} {k : PropKey}
    {ids : List UInt32} (hlen : ids.length ≤ 32 * 255) (hlive : ∀ id ∈ ids, id ≠ 0 ∧ id ∈ objs)
    (hpacked : ∀ t, fetch f (k.1, k.2, t) = packedSegment ids t) :
    ((setCells f (valKeys k.1 k.2)).filter fun id => id ≠ 0 ∧ id ∈ objs) = ids := by
  have hblocks : ∀ i < 255, ((cellsAt f (k.1, k.2, UInt8.ofNat (i + 1))).filter
      fun id => id ≠ 0 ∧ id ∈ objs) = Packing.block 32 ids i := by
    intro i hi
    have ht : (UInt8.ofNat (i + 1)).toNat = i + 1 := by
      rw [UInt8.toNat_ofNat', Nat.mod_eq_of_lt (by omega)]
    have hne : UInt8.ofNat (i + 1) ≠ 0 := by
      intro hzero
      rw [hzero] at ht
      exact absurd ht (by simp)
    by_cases hused : 32 * i < ids.length
    · have hsegment : packedSegment ids (UInt8.ofNat (i + 1)) =
          some (.ofIds (Packing.block 32 ids i)) := by
        rw [packedSegment, ht, Nat.add_sub_cancel, if_pos ⟨hne, hused⟩]
      rw [cellsAt_some ((hpacked _).trans hsegment),
        members_ofIds (Packing.length_block_le 32 ids i), List.filter_append,
        List.filter_replicate_of_neg (by simp), List.append_nil, List.filter_eq_self]
      intro id hid
      have hmem : id ∈ ids := List.mem_of_mem_drop (List.mem_of_mem_take hid)
      simpa using hlive id hmem
    · have hsegment : packedSegment ids (UInt8.ofNat (i + 1)) = none := by
        rw [packedSegment, ht, Nat.add_sub_cancel, if_neg fun h => hused h.2]
      rw [cellsAt_none ((hpacked _).trans hsegment), Packing.block_eq_nil (by omega)]
      rfl
  have hall : ((List.range 255).map fun i => (k.1, k.2, UInt8.ofNat (i + 1))) =
      valKeys k.1 k.2 := by
    rw [valKeys, valKeysAfter, ← segments, segments_eq_map, List.map_map]
    rfl
  rw [setCells, ← hall, List.flatMap_map, List.filter_flatMap]
  have hjoin : ((List.range 255).flatMap fun i => (cellsAt f (k.1, k.2, UInt8.ofNat (i + 1))).filter
      fun id => decide (id ≠ 0 ∧ id ∈ objs)) = (List.range 255).flatMap (Packing.block 32 ids) := by
    apply List.flatMap_congr
    intro i hi
    exact hblocks i (List.mem_range.mp hi)
  rw [hjoin, Packing.flatMap_block, List.take_of_length_le hlen]

theorem liveMembers_live {f : F ValKey Value} {objs : List UInt32} {k : PropKey} {id : UInt32}
    (hid : id ∈ liveMembers f objs k) : id ≠ 0 ∧ id ∈ objs := by
  have hmem := List.mem_eraseDups.mp hid
  simpa using (List.mem_filter.mp hmem).2

/-- Compressing what is compressed already changes nothing. -/
theorem compressed_again {f g : F ValKey Value} {objs : List UInt32} {r : PropKey × PropData}
    (hdone : ∀ t, fetch g (r.1.1, r.1.2, t) = compressed f objs r t) (t : UInt8) :
    compressed g objs r t = fetch g (r.1.1, r.1.2, t) := by
  unfold compressed at hdone ⊢
  by_cases hset : r.2.isSet = true
  · simp only [if_pos hset] at hdone ⊢
    have hlive : liveMembers g objs r.1 = liveMembers f objs r.1 := by
      have hfilter := filter_setCells_packed (length_liveMembers f objs r.1)
        (fun id hid => liveMembers_live hid) hdone
      unfold liveMembers at hfilter ⊢
      rw [hfilter]
      exact Packing.eraseDups_of_nodup (Packing.nodup_eraseDups _)
    rw [hlive, hdone]
  · simp only [if_neg hset] at hdone ⊢
    split
    next hzero => rw [hdone, if_pos hzero]
    next => rfl

/-! ## What a run keeps -/

/-- The properties collected in one run. -/
def collected (b : Bindery F) : List PropKey × List (PropKey × PropData) × Bool :=
  collectProps (keys b.nwobj) (walk b.nwprop) locMaxObjs locMaxObjsProps

/-- The bindery after a run that gets to the end. -/
def compressedBindery (b : Bindery F) : Bindery F :=
  { deleteProps b (collected b).1 with
    nwval := storeAll empty ((collected b).2.1.flatMap
      (compressProp (deleteProps b (collected b).1).nwval (keys b.nwobj))) }

/-- When a run gets to the end, and with which bindery. -/
theorem checkCompressBindery_eq_done {b b' : Bindery F} :
    checkCompressBindery b = .done b' ↔ (keys b.nwobj).length ≤ locMaxObjs ∧
      (∀ k ∈ (collected b).1, k.2 ≠ 0) ∧ (collected b).2.2 = true ∧ b' = compressedBindery b := by
  unfold checkCompressBindery
  dsimp only
  rw [← collected]
  split
  next hmany => exact iff_of_false nofun fun h => absurd h.1 (by omega)
  next hfew =>
    split
    next hzero =>
      obtain ⟨k, hk, hk0⟩ := List.any_eq_true.mp hzero
      exact iff_of_false nofun fun h => h.2.1 k hk (beq_iff_eq.mp hk0)
    next hids =>
      have hids' : ∀ k ∈ (collected b).1, k.2 ≠ 0 := fun k hk hk0 =>
        hids (List.any_eq_true.mpr ⟨k, hk, beq_iff_eq.mpr hk0⟩)
      split
      next hok =>
        rw [CompressEnd.done.injEq, eq_comm]
        exact ⟨fun h => ⟨by omega, hids', hok, h⟩, fun h => h.2.2.2⟩
      next hfull => exact iff_of_false nofun fun h => hfull h.2.2.1

theorem mem_collected {b : Bindery F} {k : PropKey} (hk : k ∈ (collected b).1) :
    k.1 ∉ keys b.nwobj ∧ (fetch b.nwprop k).isSome := by
  obtain ⟨r, hr, rfl⟩ := List.mem_map.mp ((collectProps_sublist _ _ _ _).1.subset hk)
  obtain ⟨hwalk, horphan⟩ := List.mem_filter.mp hr
  exact ⟨by simpa using horphan, by rw [mem_walk.mp hwalk]; rfl⟩

/-- A set is stored in the segments 1 to n, of which only the last one may be
partly filled. -/
def Packed (f : F ValKey Value) (k : PropKey) (ids : List UInt32) : Prop :=
  ids.length ≤ 32 * 255 ∧ ∀ t, fetch f (k.1, k.2, t) = packedSegment ids t

/-- The ids of existing objects in all segments of a set from 0 on, each where
it occurs first. -/
def heldMembers (f : F ValKey Value) (objs : List UInt32) (k : PropKey) : List UInt32 :=
  ((setCells f ((k.1, k.2, 0) :: valKeys k.1 k.2)).filter fun id => id ≠ 0 ∧ id ∈ objs).eraseDups

/-- The ids of existing objects in the segment 0 of a set. -/
def zeroMembers (f : F ValKey Value) (objs : List UInt32) (k : PropKey) : List UInt32 :=
  ((cellsAt f (k.1, k.2, 0)).filter fun id => id ≠ 0 ∧ id ∈ objs).eraseDups

/-- The meaning of a bindery that a run has to preserve. -/
structure MeaningKept (b b' : Bindery F) : Prop where
  items : ∀ k p, fetch b.nwprop k = some p → k.1 ∈ keys b.nwobj → p.isSet = false →
    SameValue b.nwval b'.nwval k
  sets : ∀ k p, fetch b.nwprop k = some p → k.1 ∈ keys b.nwobj → p.isSet = true →
    Packed b'.nwval k (heldMembers b.nwval (keys b.nwobj) k)
  orphans : ∀ k : ValKey, k.1 ∉ keys b.nwobj → fetch b'.nwval k = none
  again : ∃ b'', checkCompressBindery b' = .done b'' ∧ SameRecords b''.nwobj b'.nwobj ∧
    SameRecords b''.nwiobj b'.nwiobj ∧ SameRecords b''.nwprop b'.nwprop ∧
    SameRecords b''.nwval b'.nwval

/-- What a bindery must be like for that: all properties of unknown objects fit
in their array, no item property has a segment 0, and a set has nothing in its
segment 0 that does not come first in the segments behind it as well. -/
structure Compressible (b : Bindery F) : Prop where
  room : ((walk b.nwprop).filter (·.1.1 ∉ keys b.nwobj)).length ≤ locMaxObjs
  items : ∀ k p, fetch b.nwprop k = some p → k.1 ∈ keys b.nwobj → p.isSet = false →
    fetch b.nwval (k.1, k.2, 0) = none
  sets : ∀ k p, fetch b.nwprop k = some p → k.1 ∈ keys b.nwobj → p.isSet = true →
    zeroMembers b.nwval (keys b.nwobj) k <+: liveMembers b.nwval (keys b.nwobj) k

theorem heldMembers_eq_iff (f : F ValKey Value) (objs : List UInt32) (k : PropKey) :
    heldMembers f objs k = liveMembers f objs k ↔
      zeroMembers f objs k <+: liveMembers f objs k := by
  rw [heldMembers, setCells, List.flatMap_cons, List.filter_append, ← setCells]
  exact Packing.eraseDups_append_eq_iff _ _

/-- The segments of a packed set determine its ids. -/
theorem Packed.unique {f : F ValKey Value} {objs : List UInt32} {k : PropKey}
    {ids ids' : List UInt32} (h : Packed f k ids) (h' : Packed f k ids')
    (hlive : ∀ id ∈ ids, id ≠ 0 ∧ id ∈ objs) (hlive' : ∀ id ∈ ids', id ≠ 0 ∧ id ∈ objs) :
    ids = ids' := by
  rw [← filter_setCells_packed h.1 hlive h.2, filter_setCells_packed h'.1 hlive' h'.2]

section

variable {b : Bindery F}

theorem mem_collected_props {r : PropKey × PropData} (hr : r ∈ (collected b).2.1) :
    fetch b.nwprop r.1 = some r.2 ∧ r.1.1 ∈ keys b.nwobj := by
  obtain ⟨hwalk, hobj⟩ := List.mem_filter.mp ((collectProps_sublist _ _ _ _).2.2.1.subset hr)
  exact ⟨mem_walk.mp hwalk, by simpa using hobj⟩

theorem collected_props_unique :
    ∀ r ∈ (collected b).2.1, ∀ r' ∈ (collected b).2.1, r.1 = r'.1 → r = r' := by
  intro r hr r' hr' hkey
  have hfetch := (mem_collected_props hr).1
  rw [hkey, (mem_collected_props hr').1] at hfetch
  exact Prod.ext hkey (Option.some.inj hfetch).symm

theorem fetch_compressedBindery_none {k : ValKey}
    (hk : ∀ r ∈ (collected b).2.1, (k.1, k.2.1) ≠ r.1) :
    fetch (compressedBindery b).nwval k = none :=
  fetch_compressed_of_notMem collected_props_unique hk

/-- With room for all of them, every property of an unknown object is deleted
and every other one compressed. -/
theorem collected_all
    (hroom : ((walk b.nwprop).filter (·.1.1 ∉ keys b.nwobj)).length ≤ locMaxObjs)
    (hok : (collected b).2.2 = true) :
    (∀ k, k ∈ (collected b).1 ↔ k.1 ∉ keys b.nwobj ∧ (fetch b.nwprop k).isSome) ∧
      ∀ r, r ∈ (collected b).2.1 ↔ fetch b.nwprop r.1 = some r.2 ∧ r.1.1 ∈ keys b.nwobj := by
  obtain ⟨hd, hp⟩ := collectProps_all hroom hok
  refine ⟨fun k => ⟨mem_collected, ?_⟩, fun r => ⟨mem_collected_props, ?_⟩⟩
  · rintro ⟨horphan, hstored⟩
    obtain ⟨p, hfetch⟩ := Option.isSome_iff_exists.mp hstored
    rw [collected, hd, List.mem_map]
    exact ⟨(k, p), List.mem_filter.mpr ⟨mem_walk.mpr hfetch, by simpa using horphan⟩, rfl⟩
  · rintro ⟨hfetch, hobj⟩
    rw [collected, hp]
    exact List.mem_filter.mpr ⟨mem_walk.mpr hfetch, by simpa using hobj⟩

variable (hids : ∀ k ∈ (collected b).1, k.2 ≠ 0)

include hids

theorem fetch_compressedBindery_prop (k : PropKey) : fetch (compressedBindery b).nwprop k =
    if k ∈ (collected b).1 then none else fetch b.nwprop k :=
  (deleteProps_spec hids).2.1 k

/-- Deleting the properties of unknown objects changes no value of the others. -/
theorem deleteProps_collected_value {k : PropKey} (hobj : k.1 ∈ keys b.nwobj) :
    SameValue b.nwval (deleteProps b (collected b).1).nwval k :=
  (deleteProps_spec hids).2.2 k fun hmem => (mem_collected hmem).1 hobj

/-- The values of a property collected. -/
theorem fetch_compressedBindery_value {r : PropKey × PropData} (hr : r ∈ (collected b).2.1)
    (t : UInt8) : fetch (compressedBindery b).nwval (r.1.1, r.1.2, t) =
      compressed b.nwval (keys b.nwobj) r t := by
  have hsame := deleteProps_collected_value hids (mem_collected_props hr).2
  have hcells : setCells (deleteProps b (collected b).1).nwval (valKeys r.1.1 r.1.2) =
      setCells b.nwval (valKeys r.1.1 r.1.2) := by
    apply List.flatMap_congr
    intro k hk
    exact cellsAt_congr (hsame.of_mem hk)
  rw [compressedBindery, fetch_compressed_of_mem collected_props_unique hr, compressed, compressed,
    liveMembers, hcells, ← liveMembers, hsame t]

/-- When a second run changes no property record, the first one has found room
for all properties of unknown objects. -/
theorem room_of_again {b'' : Bindery F}
    (hdone : checkCompressBindery (compressedBindery b) = .done b'')
    (hsame : SameRecords b''.nwprop (compressedBindery b).nwprop) :
    ((walk b.nwprop).filter (·.1.1 ∉ keys b.nwobj)).length ≤ locMaxObjs := by
  obtain ⟨-, hids', hok', rfl⟩ := checkCompressBindery_eq_done.mp hdone
  have hobjs : (compressedBindery b).nwobj = b.nwobj := (deleteProps_spec hids).1.nwobj
  -- Nothing is left to delete for the second run, and so nothing is overlooked by the first.
  have hclean : (collected (compressedBindery b)).1 = [] := by
    rw [List.eq_nil_iff_forall_not_mem]
    intro k hk
    have hgone := fetch_compressedBindery_prop hids' k
    rw [if_pos hk, hsame k] at hgone
    rw [← Option.not_isSome_iff_eq_none] at hgone
    exact hgone (mem_collected hk).2
  have hall : ((walk b.nwprop).filter (·.1.1 ∉ keys b.nwobj)).map Prod.fst ⊆ (collected b).1 := by
    intro k hk
    obtain ⟨⟨k, p⟩, hr, rfl⟩ := List.mem_map.mp hk
    obtain ⟨hwalk, horphan⟩ := List.mem_filter.mp hr
    by_contra hnot
    have hleft : (k, p) ∈ walk (compressedBindery b).nwprop := by
      rw [mem_walk, fetch_compressedBindery_prop hids, if_neg hnot]
      exact mem_walk.mp hwalk
    apply collectProps_ne_nil (by decide) hok' hleft _ hclean
    rw [hobjs]
    simpa using horphan
  have hnodup : (((walk b.nwprop).filter (·.1.1 ∉ keys b.nwobj)).map Prod.fst).Nodup := by
    have hkeys := keys_nodup b.nwprop
    rw [← walk_keys] at hkeys
    exact hkeys.sublist (List.filter_sublist.map Prod.fst)
  have hlen := (List.subperm_of_subset hnodup hall).length_le
  rw [List.length_map] at hlen
  exact hlen.trans (collectProps_sublist _ _ _ _).2.1

/-- What is left for a second run to collect. -/
theorem collected_again
    (hroom : ((walk b.nwprop).filter (·.1.1 ∉ keys b.nwobj)).length ≤ locMaxObjs)
    (hok : (collected b).2.2 = true) :
    (collected (compressedBindery b)).1 = [] ∧ (collected (compressedBindery b)).2.2 = true ∧
      ∀ r, r ∈ (collected (compressedBindery b)).2.1 ↔ r ∈ (collected b).2.1 := by
  obtain ⟨hdeleted, hkept⟩ := collected_all hroom hok
  have hobjs : (compressedBindery b).nwobj = b.nwobj := (deleteProps_spec hids).1.nwobj
  have hprops : ∀ r : PropKey × PropData, fetch (compressedBindery b).nwprop r.1 = some r.2 ↔
      r ∈ (collected b).2.1 := by
    intro r
    rw [fetch_compressedBindery_prop hids, hkept]
    constructor
    · intro hfetch
      split at hfetch
      next => contradiction
      next hnot =>
        refine ⟨hfetch, ?_⟩
        by_contra horphan
        exact hnot ((hdeleted r.1).mpr ⟨horphan, by rw [hfetch]; rfl⟩)
    · rintro ⟨hfetch, hobj⟩
      rw [if_neg fun hmem => ((hdeleted r.1).mp hmem).1 hobj]
      exact hfetch
  have hclean : (collected (compressedBindery b)).1 = [] := by
    rw [List.eq_nil_iff_forall_not_mem]
    intro k hk
    obtain ⟨horphan, hstored⟩ := mem_collected hk
    obtain ⟨p, hfetch⟩ := Option.isSome_iff_exists.mp hstored
    rw [hobjs] at horphan
    exact horphan (mem_collected_props ((hprops (k, p)).mp hfetch)).2
  have hok' : (collected (compressedBindery b)).2.2 = true := by
    apply collectProps_ok
    have hsubset : (walk (compressedBindery b).nwprop).filter
        (·.1.1 ∈ keys (compressedBindery b).nwobj) ⊆ (collected b).2.1 := by
      intro r hr
      exact (hprops r).mp (mem_walk.mp (List.mem_filter.mp hr).1)
    have hlen := (List.subperm_of_subset ((walk_nodup _).filter _) hsubset).length_le
    exact hlen.trans (collectProps_sublist _ _ _ _).2.2.2
  refine ⟨hclean, hok', fun r => ?_⟩
  have hroom' : ((walk (compressedBindery b).nwprop).filter
      (·.1.1 ∉ keys (compressedBindery b).nwobj)).length ≤ locMaxObjs := by
    rw [List.filter_eq_nil_iff.mpr]
    · exact Nat.zero_le _
    · intro r hr
      rw [hobjs]
      simpa using (mem_collected_props ((hprops r).mp (mem_walk.mp hr))).2
  rw [(collected_all hroom' hok').2, hprops, hobjs]
  exact ⟨And.left, fun hr => ⟨hr, (mem_collected_props hr).2⟩⟩

/-- A second run changes no record. -/
theorem compressedBindery_again (hfew : (keys b.nwobj).length ≤ locMaxObjs)
    (hroom : ((walk b.nwprop).filter (·.1.1 ∉ keys b.nwobj)).length ≤ locMaxObjs)
    (hok : (collected b).2.2 = true) :
    ∃ b'', checkCompressBindery (compressedBindery b) = .done b'' ∧
      SameRecords b''.nwobj (compressedBindery b).nwobj ∧
      SameRecords b''.nwiobj (compressedBindery b).nwiobj ∧
      SameRecords b''.nwprop (compressedBindery b).nwprop ∧
      SameRecords b''.nwval (compressedBindery b).nwval := by
  obtain ⟨hclean, hok', hprops⟩ := collected_again hids hroom hok
  have hobjs : (compressedBindery b).nwobj = b.nwobj := (deleteProps_spec hids).1.nwobj
  have hids' : ∀ k ∈ (collected (compressedBindery b)).1, k.2 ≠ 0 := by
    rw [hclean]
    exact fun k hk => absurd hk List.not_mem_nil
  have hdone : checkCompressBindery (compressedBindery b) =
      .done (compressedBindery (compressedBindery b)) := by
    rw [checkCompressBindery_eq_done, hobjs]
    exact ⟨hfew, hids', hok', rfl⟩
  have hframe : SameObjects (compressedBindery b) (deleteProps (compressedBindery b)
      (collected (compressedBindery b)).1) := (deleteProps_spec hids').1
  refine ⟨_, hdone, fun k => ?_, fun k => ?_, fun k => ?_, fun k => ?_⟩
  · exact congrArg (fun f : F UInt32 ObjData => fetch f k) hframe.nwobj
  · exact congrArg (fun f : F IndexKey UInt32 => fetch f k) hframe.nwiobj
  · rw [fetch_compressedBindery_prop hids', hclean, if_neg List.not_mem_nil]
  · by_cases hk : ∃ r ∈ (collected b).2.1, (k.1, k.2.1) = r.1
    · obtain ⟨r, hr, hkey⟩ := hk
      have hvalue := compressed_again (fun t => fetch_compressedBindery_value hids hr t) k.2.2
      rw [← hobjs, ← fetch_compressedBindery_value hids' ((hprops r).mpr hr), ← hkey] at hvalue
      exact hvalue
    · have hnone : ∀ r ∈ (collected b).2.1, (k.1, k.2.1) ≠ r.1 := fun r hr hkey =>
        hk ⟨r, hr, hkey⟩
      have hnone' : ∀ r ∈ (collected (compressedBindery b)).2.1, (k.1, k.2.1) ≠ r.1 :=
        fun r hr => hnone r ((hprops r).mp hr)
      rw [fetch_compressedBindery_none hnone, fetch_compressedBindery_none hnone']

end

theorem heldMembers_live {f : F ValKey Value} {objs : List UInt32} {k : PropKey} {id : UInt32}
    (hid : id ∈ heldMembers f objs k) : id ≠ 0 ∧ id ∈ objs := by
  have hmem := List.mem_eraseDups.mp hid
  simpa using (List.mem_filter.mp hmem).2

/-- A run that gets to the end preserves the meaning of the bindery exactly when
the bindery is compressible. -/
theorem checkCompressBindery_keeps_iff {b b' : Bindery F}
    (hdone : checkCompressBindery b = .done b') : MeaningKept b b' ↔ Compressible b := by
  obtain ⟨hfew, hids, hok, rfl⟩ := checkCompressBindery_eq_done.mp hdone
  constructor
  · intro h
    obtain ⟨b'', hdone', -, -, hprops, -⟩ := h.again
    have hroom := room_of_again hids hdone' hprops
    have hkept := (collected_all hroom hok).2
    refine ⟨hroom, fun k p hfetch hobj hitem => ?_, fun k p hfetch hobj hset => ?_⟩
    · have hzero := fetch_compressedBindery_value hids ((hkept (k, p)).mpr ⟨hfetch, hobj⟩) 0
      rw [compressed, if_neg (by simp [hitem]), if_pos rfl] at hzero
      rw [← h.items k p hfetch hobj hitem 0]
      exact hzero
    · have hpacked := h.sets k p hfetch hobj hset
      have hwritten : Packed (compressedBindery b).nwval k
          (liveMembers b.nwval (keys b.nwobj) k) := by
        refine ⟨length_liveMembers _ _ _, fun t => ?_⟩
        have hvalue := fetch_compressedBindery_value hids ((hkept (k, p)).mpr ⟨hfetch, hobj⟩) t
        rwa [compressed, if_pos hset] at hvalue
      rw [← heldMembers_eq_iff]
      apply hpacked.unique hwritten
      · exact fun id hid => heldMembers_live hid
      · exact fun id hid => liveMembers_live hid
  · intro h
    have hkept := (collected_all h.room hok).2
    refine ⟨fun k p hfetch hobj hitem t => ?_, fun k p hfetch hobj hset => ?_,
      fun k horphan => ?_, compressedBindery_again hids hfew h.room hok⟩
    · have hvalue := fetch_compressedBindery_value hids ((hkept (k, p)).mpr ⟨hfetch, hobj⟩) t
      rw [compressed, if_neg (by simp [hitem])] at hvalue
      rw [hvalue]
      split
      next hzero => rw [hzero, h.items k p hfetch hobj hitem]
      next => rfl
    · rw [(heldMembers_eq_iff _ _ _).mpr (h.sets k p hfetch hobj hset)]
      refine ⟨length_liveMembers _ _ _, fun t => ?_⟩
      have hvalue := fetch_compressedBindery_value hids ((hkept (k, p)).mpr ⟨hfetch, hobj⟩) t
      rwa [compressed, if_pos hset] at hvalue
    · apply fetch_compressedBindery_none
      intro r hr hkey
      have hobj := (mem_collected_props hr).2
      rw [← hkey] at hobj
      exact horphan hobj

/-- ANN has a property with a value in segment 1. -/
theorem checkCompressBindery_keeps_iff_ann :
    let b := binderyMachine.exec (Bindery.empty : Bindery ListFile)
      [(.supervisor, .createObj 0 0x33 1 (objName ['A', 'N', 'N'])),
        (.supervisor, .createProp 1 (objName ['A', 'N', 'N']) ⟨propName ['P'], 0, 0x33⟩),
        (.supervisor, .writePropVal 1 (objName ['A', 'N', 'N']) 1 0 (propName ['P']) (.zero 128))]
    ∃ b', checkCompressBindery b = .done b' ∧ (MeaningKept b b' ↔ Compressible b) :=
  ⟨_, rfl, checkCompressBindery_keeps_iff rfl⟩

/-- The segment 0 of ANN's property is lost. -/
theorem checkCompressBindery_loses_segmentZero : ¬ ∀ b b' : Bindery ListFile,
    checkCompressBindery b = .done b' → MeaningKept b b' := by
  intro hall
  have hkept := hall (binderyMachine.exec Bindery.empty segmentZeroRun) _ rfl
  have hsame := hkept.items (0x10002, 1) ⟨propName ['P'], 0, 0x33⟩ (by decide +kernel)
    (by decide +kernel) rfl 0
  exact absurd hsame (by decide +kernel)

end MarsNwe
