import MarsNwe.Trustee.Inheritance

/-! # Caches without the supervisor right

Where no entry on disk gives the user the right S at some files, no node in the cache
does, as long as these files are reached on ways through each other only.
-/

namespace MarsNwe

open WordSet

/-- The bit of S. -/
abbrev bitS : Nat := 8

theorem has_trusteeS {i : Nat} : Has trusteeS i ↔ i = bitS := by
  have hpow : trusteeS.toBitVec = BitVec.twoPow 16 8 := rfl
  unfold Has bitS
  rw [hpow, BitVec.getLsbD_twoPow]
  simp [eq_comm]

theorem lacks_iff {rights : Rights} : rights &&& trusteeS = 0 ↔ ¬Has rights bitS := by
  constructor
  · intro hzero hbit
    have hboth : Has (rights &&& trusteeS) bitS := (has_and _ _ _).mpr ⟨hbit, by decide⟩
    rw [hzero] at hboth
    exact not_has_zero _ hboth
  · intro hbit
    refine ext fun i => ?_
    rw [has_and, has_trusteeS]
    constructor
    · rintro ⟨hi, rfl⟩
      exact absurd hi hbit
    · exact fun h => absurd h (not_has_zero i)

/-! ## Nodes -/

section

variable (user : TrusteeUser) (P : Nat → FileId → Prop)

/-- No entry gives S to the user at a file of `P`. -/
def SafeDisk (disk : TrusteeDisk) : Prop :=
  ∀ volume id, P volume id → ∀ e ∈ (disk volume id).entries, e.id ≠ 0 → user.has e.id = true →
    ¬Has e.trustee bitS

/-- The node of a file of `P` gives no S to the user. -/
structure SafeNode (tr : FileTrusteeNode) : Prop where
  trustees : P tr.volume tr.id → ∀ e ∈ tr.trustees, user.has e.id = true → ¬Has e.trustee bitS
  rights : P tr.volume tr.id → ∀ rights, tr.effRights = some rights → ¬Has rights bitS

end

/-- What is passed on along a way gives no S. -/
def NoS (ugidTrustees : List IdsTrustee) : Prop := ∀ e ∈ ugidTrustees, ¬Has e.trustee bitS

section

variable {user : TrusteeUser} {P : Nat → FileId → Prop} {disk : TrusteeDisk}
  {ugidTrustees : List IdsTrustee} {tr : FileTrusteeNode}

theorem mem_readTrustees {entries : List IdsTrustee} {count : Nat} {e : IdsTrustee}
    (h : e ∈ (readTrustees entries count).2) : e ∈ entries ∧ e.id ≠ 0 := by
  induction entries generalizing count with
  | nil => contradiction
  | cons e' es ih =>
      unfold readTrustees at h
      split at h
      next =>
        split at h
        next => exact (ih h).imp_left (List.mem_cons_of_mem _)
        next hid =>
          rcases List.mem_cons.mp h with rfl | h
          · exact ⟨List.mem_cons_self, hid⟩
          · exact (ih h).imp_left (List.mem_cons_of_mem _)
      next => contradiction

theorem mem_insertUgidTrustee' {id : UInt32} {trustee : Rights} {e : IdsTrustee}
    (h : e ∈ insertUgidTrustee id trustee ugidTrustees) : e = ⟨id, trustee⟩ ∨ e ∈ ugidTrustees := by
  induction ugidTrustees with
  | nil => exact .inl (List.mem_singleton.mp h)
  | cons e' es ih =>
      unfold insertUgidTrustee at h
      split at h
      next => exact (List.mem_cons.mp h).imp_right (List.mem_cons_of_mem _)
      next =>
        rcases List.mem_cons.mp h with rfl | h
        · exact .inr List.mem_cons_self
        · exact (ih h).imp_right (List.mem_cons_of_mem _)

theorem NoS.nil : NoS [] := fun _ he => (nomatch he)

theorem NoS.allRights (h : NoS ugidTrustees) : ¬Has (allRights ugidTrustees) bitS := by
  have hfold : ∀ (es : List IdsTrustee) (rights : Rights), NoS es → ¬Has rights bitS →
      ¬Has (es.foldl (fun rights e => rights ||| e.trustee) rights) bitS := by
    intro es
    induction es with
    | nil => exact fun _ _ h => h
    | cons e es ih =>
        intro rights hes hrights
        refine ih _ (fun e' he' => hes e' (List.mem_cons_of_mem _ he')) ?_
        rw [has_or]
        exact not_or.mpr ⟨hrights, hes e List.mem_cons_self⟩
  exact hfold _ _ h (not_has_zero _)

theorem NoS.pass (h : NoS ugidTrustees) (hequivalent : user.equivalent = false) :
    NoS (passTrustees user tr ugidTrustees) := by
  unfold passTrustees
  split
  next =>
    rw [if_neg fun hsuper => Bool.false_ne_true (hequivalent.symm.trans hsuper.2)]
    intro e he
    obtain ⟨e', -, rfl⟩ := List.mem_map.mp he
    exact not_has_zero _
  next =>
    intro e he
    obtain ⟨e', he', rfl⟩ := List.mem_map.mp he
    rw [has_and]
    exact fun hbit => h e' he' hbit.1

theorem NoS.insert (h : NoS ugidTrustees) {trustees : List IdsTrustee}
    (htrustees : ∀ e ∈ trustees, user.has e.id = true → ¬Has e.trustee bitS) :
    NoS (trustees.foldl (fun ugidTrustees e =>
      if user.has e.id then insertUgidTrustee e.id e.trustee ugidTrustees else ugidTrustees)
      ugidTrustees) := by
  induction trustees generalizing ugidTrustees with
  | nil => exact h
  | cons e es ih =>
      refine ih ?_ fun e' he' => htrustees e' (List.mem_cons_of_mem _ he')
      dsimp only
      split
      next hid =>
        intro e' he'
        rcases mem_insertUgidTrustee' he' with rfl | he'
        · exact htrustees e List.mem_cons_self hid
        · exact h e' he'
      next => exact h

/-- A node of `P` is built without S if none is passed on to it. -/
theorem SafeNode.build (hsafe : SafeNode user P tr) (hequivalent : user.equivalent = false)
    (h : P tr.volume tr.id → NoS ugidTrustees) :
    SafeNode user P (buildTrusteeRights user tr ugidTrustees).1 ∧
      (P tr.volume tr.id → NoS (buildTrusteeRights user tr ugidTrustees).2) := by
  have hbuilt : P tr.volume tr.id → NoS (buildTrusteeRights user tr ugidTrustees).2 :=
    fun hP => ((h hP).pass hequivalent).insert (hsafe.trustees hP)
  refine ⟨⟨hsafe.trustees, fun hP rights hrights => ?_⟩, hbuilt⟩
  exact Option.some.inj hrights ▸ (hbuilt hP).allRights

theorem SafeNode.withFlags (hsafe : SafeNode user P tr) (idle : Nat) (modeFlags : UInt8) :
    SafeNode user P { tr with idle := idle, modeFlags := modeFlags } :=
  ⟨hsafe.trustees, hsafe.rights⟩

theorem SafeNode.create (hdisk : SafeDisk user P disk) (volume : Nat) (id : FileId)
    (modeFlags : UInt8) : SafeNode user P (createTrusteeNode disk volume id modeFlags) where
  trustees hP e he hhas := by
    obtain ⟨hmem, hid⟩ := mem_readTrustees he
    exact hdisk volume id hP e hmem hid hhas
  rights _ _ hrights := nomatch hrights

end

/-! ## The cache -/

section

variable {user : TrusteeUser} {P : Nat → FileId → Prop} {disk : TrusteeDisk}
  {cache : TrusteeCache} {volume : Nat}

/-- The nodes of a cache are safe. -/
abbrev SafeCache (user : TrusteeUser) (P : Nat → FileId → Prop) (cache : TrusteeCache) : Prop :=
  ∀ tr ∈ cache, SafeNode user P tr

theorem SafeCache.put (hcache : SafeCache user P cache) {tr : FileTrusteeNode}
    (htr : SafeNode user P tr) : SafeCache user P (cache.put tr) := by
  intro tr' htr'
  rcases TrusteeCache.mem_put htr' with rfl | ⟨hold, -⟩
  · exact htr
  · exact hcache tr' hold

theorem SafeCache.add (hcache : SafeCache user P cache) {tr : FileTrusteeNode}
    (htr : SafeNode user P tr) : SafeCache user P (addTrusteeNode cache tr) := by
  intro tr' htr'
  rcases AgedSlots.mem_insert htr' with rfl | ⟨old, hold, rfl⟩
  · exact htr
  · exact (hcache old hold).withFlags _ _

theorem SafeCache.free (hcache : SafeCache user P cache) (volume : Option Nat) :
    SafeCache user P (truFreeCache volume cache) := by
  cases volume with
  | none => exact fun tr htr => by contradiction
  | some volume => exact fun tr htr => hcache tr (AgedSlots.mem_free htr)

theorem SafeCache.find (hcache : SafeCache user P cache) (volume : Nat) (id : FileId) :
    SafeCache user P (findTrusteeNode cache volume id).2 ∧
      ∀ tr, (findTrusteeNode cache volume id).1 = some tr →
        SafeNode user P tr ∧ tr.volume = volume ∧ tr.id = id := by
  unfold findTrusteeNode
  split
  next => exact ⟨hcache, fun tr htr => (nomatch htr)⟩
  next found hat =>
    obtain ⟨hmem, hvolume, hid⟩ := TrusteeCache.at?_eq_some hat
    have hfound : SafeNode user P { found with idle := 0 } := (hcache found hmem).withFlags 0 _
    refine ⟨hcache.put hfound, fun tr htr => ?_⟩
    obtain rfl := Option.some.inj htr
    exact ⟨hfound, hvolume, hid⟩

/-- A step of the walk at a directory. -/
theorem SafeCache.walkLink (hcache : SafeCache user P cache) (hdisk : SafeDisk user P disk)
    (hequivalent : user.equivalent = false) {link : PathLink} {ugidTrustees : List IdsTrustee}
    (h : P volume link.id → NoS ugidTrustees) :
    SafeCache user P (walkLink user disk volume (cache, ugidTrustees) link).1 ∧
      (P volume link.id → NoS (walkLink user disk volume (cache, ugidTrustees) link).2) := by
  obtain ⟨hfound, hnode⟩ := hcache.find volume link.id
  unfold MarsNwe.walkLink
  dsimp only
  generalize findTrusteeNode cache volume link.id = found at *
  obtain ⟨_ | tr, cache'⟩ := found
  · have hsafe := SafeNode.create hdisk volume link.id (link.modeFlags ||| link.newFlags)
    obtain ⟨hbuilt, hpass⟩ := hsafe.build hequivalent h
    exact ⟨(SafeCache.add hfound hsafe).put hbuilt, hpass⟩
  · obtain ⟨hsafe, hvolume, hid⟩ := hnode tr rfl
    obtain ⟨hbuilt, hpass⟩ := (hsafe.withFlags tr.idle (tr.modeFlags ||| link.modeFlags)).build
      hequivalent fun hP => h (hvolume ▸ hid ▸ hP)
    exact ⟨SafeCache.put hfound hbuilt, fun hP => hpass (hvolume.symm ▸ hid.symm ▸ hP)⟩

end

/-! ## The rights at a file -/

section

variable {user : TrusteeUser} {P : Nat → FileId → Prop} {disk : TrusteeDisk}
  {cache : TrusteeCache} {volume : Nat} {tree : VolumeTree}

/-- Whoever reaches a file of `P` by a name goes through files of `P` only. -/
def OneWay (P : Nat → FileId → Prop) (tree : Nat → VolumeTree) : Prop :=
  ∀ volume unixname stb, (tree volume).stat unixname = some stb → P volume stb.id →
    P volume (tree volume).root.id ∧ ∀ part ∈ unixname.prefixes, ∀ st,
      (tree volume).stat part = some st → P volume st.id

theorem SafeCache.walk (hdisk : SafeDisk user P disk) (hequivalent : user.equivalent = false)
    (links : List PathLink) (hcache : SafeCache user P cache) {ugidTrustees : List IdsTrustee}
    (hways : links.Pairwise fun a b => P volume b.id → P volume a.id)
    (h : ∀ link ∈ links, P volume link.id → NoS ugidTrustees) :
    SafeCache user P (links.foldl (MarsNwe.walkLink user disk volume) (cache, ugidTrustees)).1 ∧
      ((∀ link ∈ links, P volume link.id) → NoS ugidTrustees →
        NoS (links.foldl (MarsNwe.walkLink user disk volume) (cache, ugidTrustees)).2) := by
  induction links generalizing cache ugidTrustees with
  | nil => exact ⟨hcache, fun _ hnone => hnone⟩
  | cons link links ih =>
      obtain ⟨hfirst, hrest⟩ := List.pairwise_cons.mp hways
      obtain ⟨hcache', hpass⟩ := hcache.walkLink hdisk hequivalent
        (h link List.mem_cons_self)
      rw [List.foldl_cons]
      obtain ⟨hwalked, hpassed⟩ := ih hcache' hrest fun link' hlink' hP =>
        hpass (hfirst link' hlink' hP)
      exact ⟨hwalked, fun hall _ => hpassed (fun link' hlink' => hall link' (List.mem_cons_of_mem _ hlink'))
        (hpass (hall link List.mem_cons_self))⟩

/-- The links of a name are files of its parts, in their order. -/
theorem pathLinks_parts (tree : VolumeTree) (stb : FileStat) (parts : List UnixName)
    (lastDev : UInt64) :
    List.Sublist ((pathLinks tree stb parts lastDev).1.map fun link => some link.id)
      (parts.map fun part => (tree.stat part).map FileStat.id) := by
  induction parts generalizing lastDev with
  | nil => exact List.Sublist.refl _
  | cons part parts ih =>
      unfold pathLinks
      split
      next => exact List.nil_sublist _
      next st hst =>
        split
        next => exact List.nil_sublist _
        next =>
          rw [List.map_cons, List.map_cons, hst]
          exact (ih _).cons_cons _

/-- A part of a name goes through the parts before it. -/
theorem prefixes_pairwise (unixname : UnixName) :
    unixname.prefixes.Pairwise fun a b => a ∈ b.prefixes := by
  unfold UnixName.prefixes
  rw [List.pairwise_map]
  refine List.pairwise_lt_range.imp_of_mem ?_
  intro i j _ hj hlt
  have hlength : j + 1 ≤ unixname.comps.length := by
    have hj := List.mem_range.mp hj
    omega
  refine List.mem_map.mpr ⟨i, List.mem_range.mpr ?_, ?_⟩
  · rw [List.length_take, Nat.min_eq_left hlength]
    exact hlt
  · rw [List.take_take, Nat.min_eq_left (by omega)]

/-- The files that a name goes through before its end. -/
theorem OneWay.links {tree : Nat → VolumeTree} (hways : OneWay P tree) {unixname : UnixName}
    {stb : FileStat} (hstat : (tree volume).stat unixname = some stb) :
    let links := (pathLinks (tree volume) stb unixname.prefixes (tree volume).root.dev).1
    (⟨(tree volume).root, 3, 0⟩ :: links).Pairwise (fun a b => P volume b.id → P volume a.id) ∧
      (P volume stb.id → ∀ link ∈ ⟨(tree volume).root, 3, 0⟩ :: links, P volume link.id) := by
  intro links
  have hsublist := pathLinks_parts (tree volume) stb unixname.prefixes (tree volume).root.dev
  have hpart : ∀ link ∈ links, ∃ part ∈ unixname.prefixes, ∃ st,
      (tree volume).stat part = some st ∧ st.id = link.id := by
    intro link hlink
    obtain ⟨part, hpart, heq⟩ := List.mem_map.mp
      (hsublist.subset (List.mem_map_of_mem (f := fun link => some link.id) hlink))
    obtain ⟨st, hst, hid⟩ := Option.map_eq_some_iff.mp heq
    exact ⟨part, hpart, st, hst, hid⟩
  have hpairs : links.Pairwise fun a b => P volume b.id → P volume a.id := by
    have hparts : (unixname.prefixes.map fun part =>
        ((tree volume).stat part).map FileStat.id).Pairwise
        fun a b => ∀ id id', a = some id → b = some id' → P volume id' → P volume id := by
      rw [List.pairwise_map]
      refine (prefixes_pairwise unixname).imp ?_
      intro a b hab id id' ha hb hP
      obtain ⟨sta, hsta, rfl⟩ := Option.map_eq_some_iff.mp ha
      obtain ⟨stb, hstb, rfl⟩ := Option.map_eq_some_iff.mp hb
      exact (hways volume b stb hstb hP).2 a hab sta hsta
    exact (List.pairwise_map.mp (hparts.sublist hsublist)).imp fun h hP => h _ _ rfl rfl hP
  refine ⟨List.pairwise_cons.mpr ⟨fun link hlink hP => ?_, hpairs⟩, fun hP link hlink => ?_⟩
  · obtain ⟨part, -, st, hst, hid⟩ := hpart link hlink
    exact (hways volume part st hst (hid ▸ hP)).1
  · obtain ⟨hroot, hparts⟩ := hways volume unixname stb hstat hP
    rcases List.mem_cons.mp hlink with rfl | hlink
    · exact hroot
    · obtain ⟨part, hpart, st, hst, hid⟩ := hpart link hlink
      exact hid ▸ hparts part hpart st hst

theorem SafeCache.findCreatAdd (hcache : SafeCache user P cache) (hdisk : SafeDisk user P disk)
    (tree : VolumeTree) (volume : Nat) (unixname : UnixName) (stb : FileStat) :
    let found := findCreatAddTrusteeNode tree disk cache volume unixname stb
    SafeCache user P found.2 ∧ SafeNode user P found.1 ∧ found.1.volume = volume ∧
      found.1.id = stb.id := by
  obtain ⟨hfound, hnode⟩ := hcache.find volume stb.id
  unfold findCreatAddTrusteeNode
  generalize findTrusteeNode cache volume stb.id = found at *
  obtain ⟨_ | tr, cache'⟩ := found
  · have hsafe := SafeNode.create hdisk volume stb.id
      ((if stb.isDir then 1 else 0) ||| symlinkFlag tree unixname stb)
    exact ⟨SafeCache.add hfound hsafe, hsafe, rfl, rfl⟩
  · obtain ⟨hsafe, hvolume, hid⟩ := hnode tr rfl
    exact ⟨hfound, hsafe, hvolume, hid⟩

/-- The rights that are found for a file of `P` have no S. -/
theorem SafeCache.findBuild {tree : Nat → VolumeTree} (hcache : SafeCache user P cache)
    (hdisk : SafeDisk user P disk) (hequivalent : user.equivalent = false)
    (hways : OneWay P tree) {unixname : UnixName} {stb : FileStat}
    (hstat : (tree volume).stat unixname = some stb) :
    SafeCache user P
        (findBuildTrusteeNode user (tree volume) disk cache volume unixname stb).2 ∧
      ∀ tr, (findBuildTrusteeNode user (tree volume) disk cache volume unixname stb).1 = .node tr →
        P volume stb.id → ∀ rights, tr.effRights = some rights → ¬Has rights bitS := by
  obtain ⟨hcache', hsafe, hvolume, hid⟩ :=
    hcache.findCreatAdd hdisk (tree volume) volume unixname stb
  unfold findBuildTrusteeNode
  generalize findCreatAddTrusteeNode (tree volume) disk cache volume unixname stb = found at *
  obtain ⟨tr, cache'⟩ := found
  dsimp only at *
  split
  next =>
    refine ⟨hcache', fun tr' htr' hP => ?_⟩
    cases htr'
    exact hsafe.rights (hvolume.symm ▸ hid.symm ▸ hP)
  next =>
    split
    next =>
      obtain ⟨hpairs, hlinks⟩ := hways.links hstat
      generalize pathLinks (tree volume) stb unixname.prefixes (tree volume).root.dev = path at *
      obtain ⟨links, lastDev, ok⟩ := path
      dsimp only at *
      obtain ⟨hwalked, hpassed⟩ := SafeCache.walk hdisk hequivalent
        (⟨(tree volume).root, 3, 0⟩ :: links) hcache' hpairs fun _ _ _ => .nil
      generalize (⟨(tree volume).root, 3, 0⟩ :: links).foldl
        (MarsNwe.walkLink user disk volume) (cache', []) = walked at *
      obtain ⟨cacheWalked, ugidTrustees⟩ := walked
      dsimp only at *
      split
      next =>
        split
        next => exact ⟨hwalked, fun tr' htr' => (nomatch htr')⟩
        next kept hat =>
          obtain ⟨hmem, hkeptVolume, hkeptId⟩ := TrusteeCache.at?_eq_some hat
          obtain ⟨hbuilt, -⟩ := ((hwalked kept hmem).withFlags kept.idle
            (kept.modeFlags ||| devFlags (tree volume) lastDev stb.numbers.dev)).build hequivalent
            fun hP => hpassed (hlinks (hkeptVolume ▸ hkeptId ▸ hP)) .nil
          refine ⟨SafeCache.put hwalked hbuilt, fun tr' htr' hP => ?_⟩
          cases htr'
          exact hbuilt.rights (hkeptVolume.symm ▸ hkeptId.symm ▸ hP)
      next => exact ⟨hwalked, fun tr' htr' => (nomatch htr')⟩
    next =>
      obtain ⟨hbuilt, -⟩ := (hsafe.withFlags tr.idle (tr.modeFlags ||| 3)).build hequivalent
        fun _ => .nil
      refine ⟨SafeCache.put hcache' hbuilt, fun tr' htr' hP => ?_⟩
      cases htr'
      exact hbuilt.rights (hvolume.symm ▸ hid.symm ▸ hP)

end

end MarsNwe
