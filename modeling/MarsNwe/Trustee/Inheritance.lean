import Mathlib.Data.List.Induction
import MarsNwe.Trustee.Ways

/-! # Rights by id

What a user has at a file is what his id and each of his groups hold there. What an
id holds is inherited along the way from the root, on its own.
-/

namespace MarsNwe

open WordSet

/-! ## Lists of trustees -/

/-- What a list of trustees gives to an id. -/
def trusteeOf (ugidTrustees : List IdsTrustee) (id : UInt32) : Rights :=
  ((ugidTrustees.find? (·.id = id)).map IdsTrustee.trustee).getD 0

/-- The trustees in a list are of different ids, all of the user. -/
structure UserTrustees (user : TrusteeUser) (ugidTrustees : List IdsTrustee) : Prop where
  nodup : (ugidTrustees.map IdsTrustee.id).Nodup
  has : ∀ e ∈ ugidTrustees, user.has e.id = true

theorem trusteeOf_cons (e : IdsTrustee) (ugidTrustees : List IdsTrustee) (id : UInt32) :
    trusteeOf (e :: ugidTrustees) id = if e.id = id then e.trustee else trusteeOf ugidTrustees id := by
  unfold trusteeOf
  rw [List.find?_cons]
  by_cases hid : e.id = id
  · simp [hid]
  · simp [hid]

theorem trusteeOf_insertUgidTrustee (id : UInt32) (trustee : Rights)
    (ugidTrustees : List IdsTrustee) (id' : UInt32) :
    trusteeOf (insertUgidTrustee id trustee ugidTrustees) id' =
      if id' = id then trustee else trusteeOf ugidTrustees id' := by
  induction ugidTrustees with
  | nil =>
      unfold insertUgidTrustee
      rw [trusteeOf_cons]
      simp only [eq_comm]
  | cons e es ih =>
      unfold insertUgidTrustee
      split
      next hid =>
          rw [trusteeOf_cons, trusteeOf_cons, hid]
          by_cases hid' : id' = id
          · simp [hid']
          · simp [hid', Ne.symm hid']
      next hid =>
          rw [trusteeOf_cons, trusteeOf_cons, ih]
          by_cases hid' : e.id = id'
          · have hne : ¬id' = id := fun h => hid (hid'.trans h)
            simp [hid', hne]
          · simp [hid']

/-- Masking and clearing act on what each id has. -/
theorem trusteeOf_map {f : Rights → Rights} (hzero : f 0 = 0) (ugidTrustees : List IdsTrustee)
    (id : UInt32) :
    trusteeOf (ugidTrustees.map fun e => { e with trustee := f e.trustee }) id =
      f (trusteeOf ugidTrustees id) := by
  induction ugidTrustees with
  | nil => exact hzero.symm
  | cons e es ih =>
      rw [List.map_cons, trusteeOf_cons, trusteeOf_cons, ih]
      by_cases hid : e.id = id
      · rw [if_pos hid, if_pos hid]
      · rw [if_neg hid, if_neg hid]

theorem mem_insertUgidTrustee {id : UInt32} {trustee : Rights} {ugidTrustees : List IdsTrustee}
    {id' : UInt32} :
    id' ∈ (insertUgidTrustee id trustee ugidTrustees).map IdsTrustee.id ↔
      id' = id ∨ id' ∈ ugidTrustees.map IdsTrustee.id := by
  induction ugidTrustees with
  | nil =>
      unfold insertUgidTrustee
      rw [List.map_cons, List.mem_cons]
  | cons e es ih =>
      unfold insertUgidTrustee
      split
      next hid => rw [List.map_cons, List.map_cons, List.mem_cons, List.mem_cons, hid, ← or_assoc,
        or_self]
      next hid =>
        rw [List.map_cons, List.map_cons, List.mem_cons, List.mem_cons, ih, or_left_comm]

theorem UserTrustees.insert {user : TrusteeUser} {ugidTrustees : List IdsTrustee}
    (h : UserTrustees user ugidTrustees) {id : UInt32} (hid : user.has id = true)
    (trustee : Rights) : UserTrustees user (insertUgidTrustee id trustee ugidTrustees) := by
  have hnodup : ((insertUgidTrustee id trustee ugidTrustees).map IdsTrustee.id).Nodup := by
    have hnodup := h.nodup
    clear h
    induction ugidTrustees with
    | nil => exact List.nodup_cons.mpr ⟨List.not_mem_nil, List.nodup_nil⟩
    | cons e es ih =>
        obtain ⟨hnew, hrest⟩ := List.nodup_cons.mp hnodup
        unfold insertUgidTrustee
        split
        next heq => exact List.nodup_cons.mpr ⟨heq ▸ hnew, hrest⟩
        next hne =>
            refine List.nodup_cons.mpr ⟨fun hmem => ?_, ih hrest⟩
            rcases mem_insertUgidTrustee.mp hmem with heq | hold
            · exact hne heq
            · exact hnew hold
  refine ⟨hnodup, fun e he => ?_⟩
  rcases mem_insertUgidTrustee.mp (List.mem_map_of_mem he) with heq | hold
  · rw [heq]
    exact hid
  · obtain ⟨e', he', heq⟩ := List.mem_map.mp hold
    rw [← heq]
    exact h.has e' he'

theorem UserTrustees.map {user : TrusteeUser} {ugidTrustees : List IdsTrustee}
    (h : UserTrustees user ugidTrustees) (f : Rights → Rights) :
    UserTrustees user (ugidTrustees.map fun e => { e with trustee := f e.trustee }) := by
  constructor
  · rw [List.map_map]
    exact h.nodup
  · intro e he
    obtain ⟨e', he', rfl⟩ := List.mem_map.mp he
    exact h.has e' he'

/-- All rights of a user's trustees are what his ids have. -/
theorem has_allRights {user : TrusteeUser} {ugidTrustees : List IdsTrustee}
    (h : UserTrustees user ugidTrustees) (i : Nat) :
    Has (allRights ugidTrustees) i ↔
      ∃ id, user.has id = true ∧ Has (trusteeOf ugidTrustees id) i := by
  have hfold : ∀ (es : List IdsTrustee) (rights : Rights),
      Has (es.foldl (fun rights e => rights ||| e.trustee) rights) i ↔
        Has rights i ∨ ∃ e ∈ es, Has e.trustee i := by
    intro es
    induction es with
    | nil => intro rights; simp
    | cons e es ih =>
        intro rights
        rw [List.foldl_cons, ih, has_or]
        simp [or_assoc]
  unfold allRights
  rw [hfold]
  simp only [not_has_zero, false_or]
  constructor
  · rintro ⟨e, he, hbit⟩
    refine ⟨e.id, h.has e he, ?_⟩
    have hnodup := h.nodup
    clear h hfold
    induction ugidTrustees with
    | nil => contradiction
    | cons e' es ih =>
        obtain ⟨hnew, hrest⟩ := List.nodup_cons.mp hnodup
        rw [trusteeOf_cons]
        rcases List.mem_cons.mp he with rfl | htail
        · rw [if_pos rfl]
          exact hbit
        · have hne : ¬e'.id = e.id := fun heq => hnew (heq ▸ List.mem_map_of_mem htail)
          rw [if_neg hne]
          exact ih htail hrest
  · rintro ⟨id, hid, hbit⟩
    unfold trusteeOf at hbit
    cases hfind : ugidTrustees.find? (·.id = id) with
    | none =>
        rw [hfind] at hbit
        exact absurd hbit (not_has_zero i)
    | some e =>
        rw [hfind] at hbit
        exact ⟨e, List.mem_of_find?_eq_some hfind, hbit⟩

/-! ## Along a way -/

section

variable (disk : TrusteeDisk) (volume : Nat)

/-- The entry of an id that is read at a directory. -/
def entryAt (dir : FileId) (id : UInt32) : Option Rights :=
  ((readTrustees (disk volume dir).entries 0).2.find? (·.id = id)).map IdsTrustee.trustee

/-- What an id inherits at a link that has `held` above it. An id with supervisor
equivalence has all rights at the root. -/
def inheritedAt (equivalent : Bool) (link : PathLink) (held : Rights) : Rights :=
  if (link.modeFlags ||| link.newFlags) &&& 0xe ≠ 0 then
    if (link.modeFlags ||| link.newFlags) &&& 2 ≠ 0 ∧ equivalent then maxTrusteeMask else 0
  else held &&& (freshNode disk volume link).inheritedMask

/-- What an id has at a link: its entry there, or what it inherits. -/
def heldAt (id : UInt32) (equivalent : Bool) (held : Rights) (link : PathLink) : Rights :=
  (entryAt disk volume link.id id).getD (inheritedAt disk volume equivalent link held)

/-- What an id has at the end of a way. -/
def heldAlong (id : UInt32) (equivalent : Bool) (way : List PathLink) : Rights :=
  way.foldl (heldAt disk volume id equivalent) 0

end

/-- Only the first link of a way has the flag of the root. -/
def RootFirst : List PathLink → Prop
  | [] => True
  | _ :: rest => ∀ link ∈ rest, (link.modeFlags ||| link.newFlags) &&& 2 = 0

theorem heldAlong_concat (disk : TrusteeDisk) (volume : Nat) (id : UInt32) (equivalent : Bool)
    (way : List PathLink) (link : PathLink) :
    heldAlong disk volume id equivalent (way ++ [link]) =
      heldAt disk volume id equivalent (heldAlong disk volume id equivalent way) link := by
  unfold heldAlong
  rw [List.foldl_append, List.foldl_cons, List.foldl_nil]

theorem RootFirst.of_concat {way : List PathLink} {link : PathLink} (h : RootFirst (way ++ [link])) :
    RootFirst way ∧ (way = [] ∨ (link.modeFlags ||| link.newFlags) &&& 2 = 0) := by
  cases way with
  | nil => exact ⟨trivial, .inl rfl⟩
  | cons head rest =>
      exact ⟨fun link hlink => h link (List.mem_append_left _ hlink),
        .inr (h link (List.mem_append_right _ (List.mem_singleton_self _)))⟩

theorem nodup_readTrustees {entries : List IdsTrustee}
    (h : (entries.map IdsTrustee.id).Nodup) (count : Nat) :
    ((readTrustees entries count).2.map IdsTrustee.id).Nodup := by
  have hsublist : ∀ (entries : List IdsTrustee) (count : Nat),
      (readTrustees entries count).2.Sublist entries := by
    intro entries
    induction entries with
    | nil => intro count; exact List.Sublist.refl []
    | cons e es ih =>
        intro count
        unfold readTrustees
        split
        next =>
            split
            next => exact (ih count).cons e
            next => exact (ih (count + 1)).cons_cons e
        next => exact List.nil_sublist _
  exact h.sublist ((hsublist entries count).map IdsTrustee.id)

/-- The trustees of a node go over those from above. -/
theorem foldl_insertUgidTrustee {user : TrusteeUser} (trustees : List IdsTrustee)
    (hnodup : (trustees.map IdsTrustee.id).Nodup) (ugidTrustees : List IdsTrustee)
    (h : UserTrustees user ugidTrustees) :
    UserTrustees user (trustees.foldl (fun ugidTrustees e =>
        if user.has e.id then insertUgidTrustee e.id e.trustee ugidTrustees else ugidTrustees)
        ugidTrustees) ∧
      ∀ id, user.has id = true →
        trusteeOf (trustees.foldl (fun ugidTrustees e =>
          if user.has e.id then insertUgidTrustee e.id e.trustee ugidTrustees else ugidTrustees)
          ugidTrustees) id =
        ((trustees.find? (·.id = id)).map IdsTrustee.trustee).getD (trusteeOf ugidTrustees id) := by
  induction trustees generalizing ugidTrustees with
  | nil => exact ⟨h, fun id _ => rfl⟩
  | cons e es ih =>
      obtain ⟨hnew, hrest⟩ := List.nodup_cons.mp hnodup
      rw [List.foldl_cons]
      have hhead : UserTrustees user (if user.has e.id then
          insertUgidTrustee e.id e.trustee ugidTrustees else ugidTrustees) := by
        split
        next hid => exact h.insert hid e.trustee
        next => exact h
      obtain ⟨huser, hvalues⟩ := ih hrest _ hhead
      refine ⟨huser, fun id hid => ?_⟩
      rw [hvalues id hid, List.find?_cons]
      by_cases heq : e.id = id
      · subst heq
        have hnone : es.find? (·.id = e.id) = none := by
          rw [List.find?_eq_none]
          intro e' he' heq
          exact hnew (List.mem_map.mpr ⟨e', he', of_decide_eq_true heq⟩)
        rw [hnone, if_pos hid, trusteeOf_insertUgidTrustee, if_pos rfl]
        simp
      · have hhere : trusteeOf (if user.has e.id then
            insertUgidTrustee e.id e.trustee ugidTrustees else ugidTrustees) id =
            trusteeOf ugidTrustees id := by
          split
          next => rw [trusteeOf_insertUgidTrustee, if_neg (Ne.symm heq)]
          next => rfl
        rw [hhere]
        simp [heq]

/-- What a node passes on, by id. -/
theorem passTrustees_spec (disk : TrusteeDisk) (volume : Nat) {user : TrusteeUser}
    {link : PathLink} {ugidTrustees : List IdsTrustee} (h : UserTrustees user ugidTrustees)
    (hroot : ugidTrustees = [] ∨ (link.modeFlags ||| link.newFlags) &&& 2 = 0) :
    UserTrustees user (passTrustees user (freshNode disk volume link) ugidTrustees) ∧
      ∀ id, trusteeOf (passTrustees user (freshNode disk volume link) ugidTrustees) id =
        inheritedAt disk volume (user.equivalent && id = user.objId) link
          (trusteeOf ugidTrustees id) := by
  unfold passTrustees inheritedAt
  have hflags : (freshNode disk volume link).modeFlags = link.modeFlags ||| link.newFlags := rfl
  rw [hflags]
  by_cases hcut : (link.modeFlags ||| link.newFlags) &&& 0xe = 0
  · simp only [hcut, ne_eq, not_true_eq_false, if_false]
    exact ⟨h.map fun rights => rights &&& (freshNode disk volume link).inheritedMask,
      fun id => trusteeOf_map (f := fun rights => rights &&& (freshNode disk volume link).inheritedMask)
        UInt16.zero_and ugidTrustees id⟩
  · simp only [hcut, ne_eq, not_false_eq_true, if_true]
    by_cases hsuper : ¬(link.modeFlags ||| link.newFlags) &&& 2 = 0 ∧ user.equivalent = true
    · rw [if_pos hsuper]
      have hnil : ugidTrustees = [] := hroot.resolve_right hsuper.1
      subst hnil
      refine ⟨h.insert (decide_eq_true (.inl rfl)) maxTrusteeMask, fun id => ?_⟩
      rw [trusteeOf_insertUgidTrustee]
      by_cases hid : id = user.objId
      · simp [hid, hsuper.1, hsuper.2]
      · simp [hid]
        rfl
    · rw [if_neg hsuper]
      refine ⟨h.map fun _ => 0, fun id => ?_⟩
      have hzero := trusteeOf_map (f := fun _ => 0) rfl ugidTrustees id
      rw [hzero, if_neg]
      intro ⟨hflag, hequivalent⟩
      rw [Bool.and_eq_true] at hequivalent
      exact hsuper ⟨hflag, hequivalent.1⟩

/-- The trustees along a way are what the ids of the user hold. -/
theorem trusteesAlong_spec (disk : TrusteeDisk) (volume : Nat) (user : TrusteeUser)
    (way : List PathLink) (hroot : RootFirst way) :
    UserTrustees user (trusteesAlong user disk volume way) ∧
      ∀ id, user.has id = true → trusteeOf (trusteesAlong user disk volume way) id =
        heldAlong disk volume id (user.equivalent && id = user.objId) way := by
  induction way using List.reverseRecOn with
  | nil => exact ⟨⟨List.nodup_nil, fun e he => by contradiction⟩, fun id _ => rfl⟩
  | append_singleton way link ih =>
      obtain ⟨hrootWay, hrootLink⟩ := hroot.of_concat
      obtain ⟨huser, hvalues⟩ := ih hrootWay
      have hnil : trusteesAlong user disk volume way = [] ∨
          (link.modeFlags ||| link.newFlags) &&& 2 = 0 := by
        rcases hrootLink with rfl | hflag
        · exact .inl rfl
        · exact .inr hflag
      obtain ⟨huserPass, hpass⟩ := passTrustees_spec disk volume huser hnil
      obtain ⟨huserOwn, hown⟩ := foldl_insertUgidTrustee
        (freshNode disk volume link).trustees (nodup_readTrustees (disk volume link.id).nodup 0)
        _ huserPass
      rw [trusteesAlong_concat]
      refine ⟨huserOwn, fun id hid => ?_⟩
      rw [heldAlong_concat, ← hvalues id hid]
      exact (hown id hid).trans (by rw [hpass]; rfl)

/-- The rights of a user along a way are what his ids hold. -/
theorem has_rightsAlong (disk : TrusteeDisk) (volume : Nat) (user : TrusteeUser)
    {way : List PathLink} (hroot : RootFirst way) (i : Nat) :
    Has (rightsAlong user disk volume way) i ↔ ∃ id, user.has id = true ∧
      Has (heldAlong disk volume id (user.equivalent && id = user.objId) way) i := by
  obtain ⟨huser, hvalues⟩ := trusteesAlong_spec disk volume user way hroot
  unfold rightsAlong
  rw [has_allRights huser]
  refine exists_congr fun id => and_congr_right fun hid => ?_
  rw [hvalues id hid]

end MarsNwe
