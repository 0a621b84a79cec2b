import Mathlib.Data.List.Infix
import MarsNwe.Trustee.CacheSound
import MarsNwe.Trustee.Grant
import MarsNwe.Trustee.Inheritance

/-! # When a grant takes nothing away

The entry that a grant adds to a directory replaces what the id inherits there. It
does no harm where nothing but the right to browse was inherited, and where the new
right is not passed on to other files.
-/

namespace MarsNwe

open WordSet

/-! ## Reading trustee directories -/

/-- A directory with room is read to its end. -/
theorem readTrustees_of_few {entries : List IdsTrustee} (hnodup : (entries.map IdsTrustee.id).Nodup)
    {count : Nat} (hfew : (entries.filter (·.id ≠ 0)).length + count < maxTrustees) :
    readTrustees entries count =
      ((entries.find? (·.id = 0)).map IdsTrustee.trustee, entries.filter (·.id ≠ 0)) := by
  induction entries generalizing count with
  | nil => rfl
  | cons e es ih =>
      obtain ⟨hnew, hrest⟩ := List.nodup_cons.mp hnodup
      unfold readTrustees
      rw [if_pos (by omega)]
      by_cases hid : e.id = 0
      · have hnone : es.find? (·.id = 0) = none := by
          rw [List.find?_eq_none]
          intro e' he' hzero
          exact hnew (List.mem_map.mpr ⟨e', he', (of_decide_eq_true hzero).trans hid.symm⟩)
        rw [List.filter_cons_of_neg (by simp [hid])] at hfew
        rw [if_pos hid, ih hrest hfew, hnone, List.filter_cons_of_neg (by simp [hid])]
        simp [hid]
      · rw [List.filter_cons_of_pos (by simp [hid]), List.length_cons] at hfew
        rw [if_neg hid, ih hrest (by omega), List.filter_cons_of_pos (by simp [hid])]
        simp [hid]

/-- What is read at a directory with room is what is there. -/
theorem entryAt_of_few {disk : TrusteeDisk} {volume : Nat} {dir : FileId}
    (hfew : ((disk volume dir).entries.filter (·.id ≠ 0)).length < maxTrustees) (id : UInt32) :
    entryAt disk volume dir id = if id = 0 then none else (disk volume dir).get? id := by
  unfold entryAt TrusteeDir.get?
  rw [readTrustees_of_few (disk volume dir).nodup (by omega)]
  dsimp only
  rw [List.find?_filter]
  by_cases hid : id = 0
  · subst hid
    have hnone : (disk volume dir).entries.find?
        (fun e => decide (decide (e.id ≠ 0) = true ∧ decide (e.id = 0) = true)) = none := by
      rw [List.find?_eq_none]
      intro e _
      simp
    rw [hnone, if_pos rfl]
    rfl
  · rw [if_neg hid]
    have hsame : (fun e : IdsTrustee =>
        decide (decide (e.id ≠ 0) = true ∧ decide (e.id = id) = true)) =
        fun e => decide (e.id = id) := by
      funext e
      by_cases he : e.id = id
      · simp [he, hid]
      · simp [he]
    rw [hsame]

/-- An entry for the id fits in a trustee directory, so that all entries are read. -/
def RoomForEntry (dir : TrusteeDir) (id : UInt32) : Prop :=
  (dir.entries.filter fun e => e.id ≠ 0 ∧ e.id ≠ id).length + 1 < maxTrustees

instance (dir : TrusteeDir) (id : UInt32) : Decidable (RoomForEntry dir id) :=
  inferInstanceAs (Decidable (_ < _))

theorem length_filter_put (place : Nat) (dir : TrusteeDir) {e : IdsTrustee} (hid : e.id ≠ 0) :
    ((dir.put place e).entries.filter (·.id ≠ 0)).length =
      (dir.entries.filter fun e' => e'.id ≠ 0 ∧ e'.id ≠ e.id).length + 1 := by
  have hothers : ((dir.entries.filter (·.id ≠ e.id)).filter (·.id ≠ 0)).length =
      (dir.entries.filter fun e' => e'.id ≠ 0 ∧ e'.id ≠ e.id).length := by
    rw [List.filter_filter]
    congr 2
    funext e'
    simp
  rw [← List.take_append_drop place (dir.entries.filter (·.id ≠ e.id)), List.filter_append,
    List.length_append] at hothers
  unfold TrusteeDir.put
  dsimp only
  rw [List.filter_append, List.filter_cons_of_pos (by simp [hid]), List.length_append,
    List.length_cons]
  omega

theorem RoomForEntry.few {dir : TrusteeDir} {id : UInt32} (h : RoomForEntry dir id) :
    (dir.entries.filter (·.id ≠ 0)).length < maxTrustees := by
  have hone : ∀ entries : List IdsTrustee, (entries.map IdsTrustee.id).Nodup →
      (entries.filter (·.id ≠ 0)).length ≤
        (entries.filter fun e => e.id ≠ 0 ∧ e.id ≠ id).length + 1 := by
    intro entries hnodup
    induction entries with
    | nil => exact Nat.zero_le _
    | cons e es ih =>
        obtain ⟨hnew, hrest⟩ := List.nodup_cons.mp hnodup
        by_cases hzero : e.id = 0
        · rw [List.filter_cons_of_neg (by simp [hzero]), List.filter_cons_of_neg (by simp [hzero])]
          exact ih hrest
        · by_cases hid : e.id = id
          · have hsame : es.filter (·.id ≠ 0) = es.filter fun e => e.id ≠ 0 ∧ e.id ≠ id := by
              refine List.filter_congr fun e' he' => ?_
              have hne : e'.id ≠ id := fun heq =>
                hnew (List.mem_map.mpr ⟨e', he', heq.trans hid.symm⟩)
              simp [hne]
            refine Nat.le_of_eq ?_
            rw [List.filter_cons_of_pos (by simp [hzero]), List.filter_cons_of_neg (by simp [hid]),
              List.length_cons, hsame]
          · rw [List.filter_cons_of_pos (by simp [hzero]),
              List.filter_cons_of_pos (by simp [hzero, hid]), List.length_cons, List.length_cons]
            exact Nat.succ_le_succ (ih hrest)
  have hle := hone dir.entries dir.nodup
  unfold RoomForEntry at h
  omega

theorem RoomForEntry.few_withBrowse {dir : TrusteeDir} {id : UInt32} (h : RoomForEntry dir id)
    (hid : id ≠ 0) (place : TrusteeDir → Nat) :
    ((withBrowse place id dir).entries.filter (·.id ≠ 0)).length < maxTrustees := by
  have hlength := length_filter_put (place dir) dir
    (e := ⟨id, (dir.get? id).getD 0 ||| trusteeT⟩) hid
  unfold withBrowse
  rw [hlength]
  exact h

/-! ## Ways -/

/-- A way that leads to a file, or to a directory on the way to one. -/
def Reached (tree : VolumeTree) (way : List PathLink) : Prop :=
  ∃ unixname stb full, tree.stat unixname = some stb ∧ wayTo tree unixname stb = some full ∧
    way <+: full

theorem Reached.of_append {tree : VolumeTree} {way rest : List PathLink}
    (h : Reached tree (way ++ rest)) : Reached tree way := by
  obtain ⟨unixname, stb, full, hstat, hway, hinitial⟩ := h
  exact ⟨unixname, stb, full, hstat, hway, (List.prefix_append way rest).trans hinitial⟩

theorem RootFirst.of_initial {way full : List PathLink} (h : RootFirst full) (hinitial : way <+: full) :
    RootFirst way := by
  obtain ⟨rest, rfl⟩ := hinitial
  cases way with
  | nil => trivial
  | cons head tail => exact fun link hlink => h link (List.mem_append_left _ hlink)

theorem symlinkFlag_notRoot (tree : VolumeTree) (unixname : UnixName) (stb : FileStat) :
    symlinkFlag tree unixname stb &&& 2 = 0 := by
  unfold symlinkFlag
  split
  next => rfl
  next =>
      split
      next => rfl
      next => rfl

theorem devFlags_notRoot (tree : VolumeTree) (lastDev dev : UInt64) :
    devFlags tree lastDev dev &&& 2 = 0 := by
  unfold devFlags
  rw [WordSet.or_and_eq_zero]
  constructor
  · split
    · rfl
    · rfl
  · split
    · rfl
    · rfl

theorem dirFlag_notRoot (stb : FileStat) :
    (if stb.isDir then (1 : UInt8) else 0) &&& 2 = 0 := by
  split
  · rfl
  · rfl

theorem pathLinks_notRoot (tree : VolumeTree) (stb : FileStat) (parts : List UnixName)
    (lastDev : UInt64) :
    ∀ link ∈ (pathLinks tree stb parts lastDev).1, (link.modeFlags ||| link.newFlags) &&& 2 = 0 := by
  induction parts generalizing lastDev with
  | nil => exact fun link hlink => by contradiction
  | cons part parts ih =>
      unfold pathLinks
      split
      next => exact fun link hlink => by contradiction
      next stb1 _ =>
          split
          next => exact fun link hlink => by contradiction
          next =>
              intro link hlink
              rcases List.mem_cons.mp hlink with rfl | htail
              · dsimp only
                rw [WordSet.or_and_eq_zero, WordSet.or_and_eq_zero]
                exact ⟨⟨dirFlag_notRoot stb1, devFlags_notRoot _ _ _⟩, symlinkFlag_notRoot _ _ _⟩
              · exact ih stb1.numbers.dev link htail

theorem wayTo_rootFirst {tree : VolumeTree} {unixname : UnixName} {stb : FileStat}
    {way : List PathLink} (h : wayTo tree unixname stb = some way) : RootFirst way := by
  unfold wayTo wayLinks at h
  dsimp only at h
  by_cases hroot : tree.root = stb.numbers
  · rw [if_pos hroot] at h
    obtain rfl := Option.some.inj h
    exact fun link hlink => by contradiction
  · rw [if_neg hroot] at h
    dsimp only at h
    split at h
    next =>
        obtain rfl := Option.some.inj h
        intro link hlink
        rcases List.mem_append.mp hlink with hdir | hfile
        · exact pathLinks_notRoot tree stb _ _ link hdir
        · obtain rfl := List.mem_singleton.mp hfile
          dsimp only
          rw [WordSet.or_and_eq_zero, WordSet.or_and_eq_zero]
          exact ⟨devFlags_notRoot _ _ _, dirFlag_notRoot stb, symlinkFlag_notRoot _ _ _⟩
    next => contradiction

theorem Reached.rootFirst {tree : VolumeTree} {way : List PathLink} (h : Reached tree way) :
    RootFirst way := by
  obtain ⟨unixname, stb, full, -, hway, hinitial⟩ := h
  exact (wayTo_rootFirst hway).of_initial hinitial

/-! ## What a grant changes -/

/-- A grant to the id writes an entry at a directory that the name goes through. -/
def Changed (world : TrusteeWorld) (volume : Nat) (unixname : UnixName) (id : UInt32)
    (dir : FileId) : Prop :=
  dir ∈ ancestorIds (world.tree volume) unixname ∧ NeedsBrowse world.disk volume id dir

instance (world : TrusteeWorld) (volume : Nat) (unixname : UnixName) (id : UInt32)
    (dir : FileId) : Decidable (Changed world volume unixname id dir) :=
  inferInstanceAs (Decidable (_ ∧ _))

/-- The directories that a name goes through, from the root, as `stat` tells them. -/
def aboveNumbers (tree : VolumeTree) (unixname : UnixName) : List FileNumbers :=
  tree.root :: unixname.prefixes.filterMap fun part => (tree.stat part).map FileStat.numbers

/-- No file or directory off the path of a file is kept under its numbers. -/
def OwnPlace (tree : VolumeTree) (stb : FileStat) : Prop :=
  ∀ (way : List PathLink) (file : PathLink), Reached tree (way ++ [file]) →
    stb.numbers ∉ (way ++ [file]).map PathLink.numbers → file.id ≠ stb.id

/-- Then no directory on the way to one is, either. -/
theorem OwnPlace.off {tree : VolumeTree} {stb : FileStat} (h : OwnPlace tree stb)
    {way : List PathLink} (hreached : Reached tree way)
    (hoff : stb.numbers ∉ way.map PathLink.numbers) : ∀ link ∈ way, link.id ≠ stb.id := by
  intro link hlink
  obtain ⟨before, after, rfl⟩ := List.append_of_mem hlink
  rw [List.append_cons] at hreached hoff
  refine h before link hreached.of_append fun hmem => hoff ?_
  rw [List.map_append]
  exact List.mem_append_left _ hmem

section

variable {place : TrusteeDir → Nat} {world : TrusteeWorld} {cache cache' : TrusteeCache}
  {volume : Nat} {unixname : UnixName} {stb : FileStat} {oic : IdsTrustee} {disk' : TrusteeDisk}

/-- The entries that are read after a grant: the id has T where it is changed. -/
theorem entryAt_grant
    (hgrant : truAddTrusteeSet place world cache volume unixname stb [oic] =
      (some 0, disk', cache'))
    (hroom : ∀ dir, Changed world volume unixname oic.id dir →
      RoomForEntry (world.disk volume dir) oic.id)
    {dir : FileId} (hdir : dir ≠ stb.id) (id : UInt32) :
    entryAt disk' volume dir id =
      if id = oic.id ∧ Changed world volume unixname oic.id dir then
        some ((entryAt world.disk volume dir oic.id).getD 0 ||| trusteeT)
      else entryAt world.disk volume dir id := by
  have hdisk := truAddTrusteeSet_disk hgrant hdir
  by_cases hchanged : Changed world volume unixname oic.id dir
  · have hroomDir := hroom dir hchanged
    have hid : oic.id ≠ 0 := hchanged.2.1
    have hput : disk' volume dir = withBrowse place oic.id (world.disk volume dir) :=
      hdisk.trans (if_pos hchanged)
    have hfew : ((disk' volume dir).entries.filter (·.id ≠ 0)).length < maxTrustees := by
      rw [hput]
      exact hroomDir.few_withBrowse hid place
    rw [entryAt_of_few hfew, entryAt_of_few hroomDir.few, entryAt_of_few hroomDir.few, hput]
    unfold withBrowse
    rw [TrusteeDir.get?_put]
    by_cases heq : id = oic.id
    · subst heq
      simp [hid, hchanged]
    · simp [heq]
  · rw [if_neg fun h => hchanged h.2]
    have hsame : disk' volume dir = world.disk volume dir := hdisk.trans (if_neg hchanged)
    unfold entryAt
    rw [hsame]

/-- A grant changes no inherited mask. -/
theorem inheritedAt_grant
    (hgrant : truAddTrusteeSet place world cache volume unixname stb [oic] =
      (some 0, disk', cache'))
    (hroom : ∀ dir, Changed world volume unixname oic.id dir →
      RoomForEntry (world.disk volume dir) oic.id)
    {link : PathLink} (hlink : link.id ≠ stb.id) (equivalent : Bool) (held : Rights) :
    inheritedAt disk' volume equivalent link held =
      inheritedAt world.disk volume equivalent link held := by
  have hdisk := truAddTrusteeSet_disk hgrant hlink
  have hmask : (readTrustees (disk' volume link.id).entries 0).1 =
      (readTrustees (world.disk volume link.id).entries 0).1 := by
    by_cases hchanged : Changed world volume unixname oic.id link.id
    · have hroomDir := hroom link.id hchanged
      have hid : oic.id ≠ 0 := hchanged.2.1
      have hput : disk' volume link.id = withBrowse place oic.id (world.disk volume link.id) :=
        hdisk.trans (if_pos hchanged)
      have hfew : ((disk' volume link.id).entries.filter (·.id ≠ 0)).length + 0 < maxTrustees := by
        rw [hput]
        exact hroomDir.few_withBrowse hid place
      rw [readTrustees_of_few (disk' volume link.id).nodup hfew,
        readTrustees_of_few (world.disk volume link.id).nodup hroomDir.few]
      have hget : (disk' volume link.id).get? 0 = (world.disk volume link.id).get? 0 := by
        rw [hput]
        unfold withBrowse
        rw [TrusteeDir.get?_put, if_neg (Ne.symm hid)]
      exact hget
    · rw [hdisk.trans (if_neg hchanged)]
  unfold inheritedAt freshNode createTrusteeNode
  dsimp only
  rw [hmask]

end

/-! ## The law and the condition -/

/-- The rights of a user by trustees at the end of a way, as an empty cache gives them. -/
def placeRights (user : TrusteeUser) (disk : TrusteeDisk) (volume : Nat) (way : List PathLink) :
    Rights :=
  if user.objId = 1 ∧ user.equivalent then maxTrusteeMask else rightsAlong user disk volume way

/-- With an empty cache `get_eff_rights_by_trustees` gives these rights, if the walk to
the file fits. -/
theorem getEffRightsByTrustees_empty {world : TrusteeWorld} {volume : Nat} {unixname : UnixName}
    {stb : FileStat} (hfits : WalkFits world .empty volume unixname stb) {way : List PathLink}
    (hway : wayTo (world.tree volume) unixname stb = some way) :
    (getEffRightsByTrustees world.user (world.tree volume) world.disk .empty volume unixname
      stb).1 = some (placeRights world.user world.disk volume way) := by
  unfold getEffRightsByTrustees placeRights
  by_cases hsuper : world.user.objId = 1 ∧ world.user.equivalent = true
  · rw [if_pos hsuper, if_pos hsuper]
  · rw [if_neg hsuper, if_neg hsuper]
    unfold wayTo at hway
    rcases hlinks : wayLinks (world.tree volume) unixname stb with ⟨dirs, file, ok⟩
    rw [hlinks] at hway
    obtain ⟨result, cache', hfind, hresult, -⟩ :=
      findBuildTrusteeNode_unbuilt (soundCache_empty world fun _ _ => []) rfl hfits hlinks
    cases ok with
    | false => contradiction
    | true =>
        obtain rfl := Option.some.inj hway
        obtain ⟨tr, rfl, hrights⟩ := hresult
        rw [hfind]
        dsimp only
        rw [hrights]
        rfl

section

variable (world : TrusteeWorld) (volume : Nat) (unixname : UnixName) (stb : FileStat)

/-- Away from a file and what is below it no user loses a right, and the only right
gained is T on the directories that the name of the file goes through. -/
def GrantKeeps (disk' : TrusteeDisk) : Prop :=
  ∀ (user : TrusteeUser) (way : List PathLink) (file : PathLink),
    Reached (world.tree volume) (way ++ [file]) →
    stb.numbers ∉ (way ++ [file]).map PathLink.numbers →
      Within (placeRights user world.disk volume (way ++ [file]))
        (placeRights user disk' volume (way ++ [file])) ∧
      Within (placeRights user disk' volume (way ++ [file]))
        (placeRights user world.disk volume (way ++ [file]) |||
          if file.numbers ∈ aboveNumbers (world.tree volume) unixname then trusteeT else 0)

/-- The right to browse that a grant adds at a changed directory comes down to the end
of a way, where the id did not have it. -/
inductive BrowseComesDown (id : UInt32) (equivalent : Bool) : List PathLink → Prop where
  | new {way : List PathLink} {dir : PathLink} (hchanged : Changed world volume unixname id dir.id)
      (hwithout : ¬Within trusteeT (heldAlong world.disk volume id equivalent (way ++ [dir]))) :
      BrowseComesDown id equivalent (way ++ [dir])
  | passed {way : List PathLink} {link : PathLink} (habove : BrowseComesDown id equivalent way)
      (hunchanged : ¬Changed world volume unixname id link.id)
      (hentry : entryAt world.disk volume link.id id = none)
      (hpasses : Within trusteeT (inheritedAt world.disk volume equivalent link trusteeT)) :
      BrowseComesDown id equivalent (way ++ [link])

/-- The new entries do no harm: where an id gets its first entry it inherits T at most,
and T comes down to no other file than the directories of the path. -/
structure GrantHarmless (id : UInt32) : Prop where
  inherits : ∀ equivalent, (equivalent = true → id ≠ 1) → ∀ (way : List PathLink) (dir : PathLink),
    Reached (world.tree volume) (way ++ [dir]) →
    stb.numbers ∉ (way ++ [dir]).map PathLink.numbers →
    Changed world volume unixname id dir.id → entryAt world.disk volume dir.id id = none →
      Within (inheritedAt world.disk volume equivalent dir
        (heldAlong world.disk volume id equivalent way)) trusteeT
  comesDown : ∀ equivalent, (equivalent = true → id ≠ 1) →
    ∀ (way : List PathLink) (file : PathLink), Reached (world.tree volume) (way ++ [file]) →
    stb.numbers ∉ (way ++ [file]).map PathLink.numbers →
    BrowseComesDown world volume unixname id equivalent (way ++ [file]) →
      file.numbers ∈ aboveNumbers (world.tree volume) unixname

end

theorem has_trusteeT (i : Nat) : Has trusteeT i ↔ i = 9 := by
  have hpow : trusteeT.toBitVec = BitVec.twoPow 16 9 := rfl
  unfold Has
  rw [hpow, BitVec.getLsbD_twoPow]
  simp [eq_comm]

theorem within_trusteeT (rights : Rights) : Within trusteeT rights ↔ Has rights 9 := by
  rw [within_iff]
  simp only [has_trusteeT, forall_eq]

/-- What is inherited does not depend on what is above, and is without T, or it is what
a mask lets pass. -/
theorem inheritedAt_cases (disk : TrusteeDisk) (volume : Nat) (equivalent : Bool)
    (link : PathLink) :
    (∃ rights, ¬Has rights 9 ∧
        ∀ held, inheritedAt disk volume equivalent link held = rights) ∨
      ∃ mask, ∀ held, inheritedAt disk volume equivalent link held = held &&& mask := by
  by_cases hcut : (link.modeFlags ||| link.newFlags) &&& 0xe = 0
  · exact .inr ⟨(freshNode disk volume link).inheritedMask,
      fun held => if_neg (not_not.mpr hcut)⟩
  · refine .inl ⟨_, ?_, fun held => if_pos hcut⟩
    split
    next => decide
    next => exact not_has_zero 9

/-- Where T passes, it does so for whoever has it above, and for nobody else. -/
theorem has_inheritedAt_of_passes {disk : TrusteeDisk} {volume : Nat} {equivalent : Bool}
    {link : PathLink} (hpasses : Within trusteeT (inheritedAt disk volume equivalent link trusteeT))
    (held : Rights) : Has (inheritedAt disk volume equivalent link held) 9 ↔ Has held 9 := by
  rw [within_trusteeT] at hpasses
  rcases inheritedAt_cases disk volume equivalent link with ⟨rights, hnot, hrights⟩ | ⟨mask, hmask⟩
  · rw [hrights] at hpasses
    exact absurd hpasses hnot
  · rw [hmask, has_and] at hpasses
    rw [hmask, has_and]
    exact and_iff_left hpasses.2

/-- What passes is had above, or is T that passes. -/
theorem passes_of_has_inheritedAt {disk : TrusteeDisk} {volume : Nat} {equivalent : Bool}
    {link : PathLink} {held : Rights} (hhas : Has (inheritedAt disk volume equivalent link held) 9) :
    Within trusteeT (inheritedAt disk volume equivalent link trusteeT) := by
  rw [within_trusteeT]
  rcases inheritedAt_cases disk volume equivalent link with ⟨rights, hnot, hrights⟩ | ⟨mask, hmask⟩
  · rw [hrights] at hhas
    exact absurd hhas hnot
  · rw [hmask, has_and] at hhas
    rw [hmask, has_and]
    exact ⟨(has_trusteeT 9).mpr rfl, hhas.2⟩

section

variable {place : TrusteeDir → Nat} {world : TrusteeWorld} {cache cache' : TrusteeCache}
  {volume : Nat} {unixname : UnixName} {stb : FileStat} {oic : IdsTrustee} {disk' : TrusteeDisk}
  (hgrant : truAddTrusteeSet place world cache volume unixname stb [oic] = (some 0, disk', cache'))
  (hroom : ∀ dir, Changed world volume unixname oic.id dir →
    RoomForEntry (world.disk volume dir) oic.id)

include hgrant hroom

/-- What another id holds is not changed. -/
theorem heldAlong_grant_other {id : UInt32} (hid : id ≠ oic.id) (equivalent : Bool)
    (way : List PathLink) (hoff : ∀ link ∈ way, link.id ≠ stb.id) :
    heldAlong disk' volume id equivalent way = heldAlong world.disk volume id equivalent way := by
  induction way using List.reverseRecOn with
  | nil => rfl
  | append_singleton way link ih =>
      have hlink : link.id ≠ stb.id := hoff link (List.mem_append_right _ (List.mem_singleton_self _))
      have hway : ∀ link ∈ way, link.id ≠ stb.id :=
        fun link hmem => hoff link (List.mem_append_left _ hmem)
      rw [heldAlong_concat, heldAlong_concat, ih hway]
      unfold heldAt
      rw [inheritedAt_grant hgrant hroom hlink, entryAt_grant hgrant hroom hlink,
        if_neg fun h => hid h.1]

/-- At a changed directory the id holds T and what its entry had. -/
theorem heldAlong_grant_changed (equivalent : Bool) (way : List PathLink) {dir : PathLink}
    (hdir : dir.id ≠ stb.id) (hchanged : Changed world volume unixname oic.id dir.id) :
    heldAlong disk' volume oic.id equivalent (way ++ [dir]) =
      (entryAt world.disk volume dir.id oic.id).getD 0 ||| trusteeT := by
  rw [heldAlong_concat]
  unfold heldAt
  rw [entryAt_grant hgrant hroom hdir, if_pos ⟨rfl, hchanged⟩]
  rfl

/-- Where the right to browse comes down, the id has it now and did not have it. -/
theorem BrowseComesDown.gained {equivalent : Bool} {way : List PathLink}
    (h : BrowseComesDown world volume unixname oic.id equivalent way)
    (hoff : ∀ link ∈ way, link.id ≠ stb.id) :
    ¬Has (heldAlong world.disk volume oic.id equivalent way) 9 ∧
      Has (heldAlong disk' volume oic.id equivalent way) 9 := by
  induction h with
  | @new way dir hchanged hwithout =>
      have hdir : dir.id ≠ stb.id := hoff dir (List.mem_append_right _ (List.mem_singleton_self _))
      rw [heldAlong_grant_changed hgrant hroom equivalent way hdir hchanged, has_or]
      exact ⟨fun hhas => hwithout ((within_trusteeT _).mpr hhas), .inr ((has_trusteeT 9).mpr rfl)⟩
  | @passed way link _ hunchanged hentry hpasses ih =>
      have hlink : link.id ≠ stb.id := hoff link (List.mem_append_right _ (List.mem_singleton_self _))
      have hway : ∀ link ∈ way, link.id ≠ stb.id :=
        fun link hmem => hoff link (List.mem_append_left _ hmem)
      rw [heldAlong_concat, heldAlong_concat]
      unfold heldAt
      rw [inheritedAt_grant hgrant hroom hlink, entryAt_grant hgrant hroom hlink,
        if_neg fun h => hunchanged h.2, hentry]
      dsimp only [Option.getD_none]
      rw [has_inheritedAt_of_passes hpasses, has_inheritedAt_of_passes hpasses]
      exact ih hway

/-- Under the first half of the condition the id holds what it held, and besides at most
the T that comes down. -/
theorem heldAlong_grant (hharmless : GrantHarmless world volume unixname stb oic.id)
    {equivalent : Bool} (hequivalent : equivalent = true → oic.id ≠ 1)
    (hplace : OwnPlace (world.tree volume) stb) (way : List PathLink)
    (hreached : Reached (world.tree volume) way)
    (hoff : stb.numbers ∉ way.map PathLink.numbers) :
    (∀ i, Has (heldAlong world.disk volume oic.id equivalent way) i →
      Has (heldAlong disk' volume oic.id equivalent way) i) ∧
    ∀ i, Has (heldAlong disk' volume oic.id equivalent way) i →
      Has (heldAlong world.disk volume oic.id equivalent way) i ∨
        i = 9 ∧ BrowseComesDown world volume unixname oic.id equivalent way := by
  induction way using List.reverseRecOn with
  | nil => exact ⟨fun i h => h, fun i h => .inl h⟩
  | append_singleton way link ih =>
      have hlink : link.id ≠ stb.id := hplace way link hreached hoff
      have hoffWay : stb.numbers ∉ way.map PathLink.numbers := fun hmem => hoff (by
        rw [List.map_append]
        exact List.mem_append_left _ hmem)
      obtain ⟨hkeep, hgain⟩ := ih hreached.of_append hoffWay
      by_cases hchanged : Changed world volume unixname oic.id link.id
      · -- the new entry of a changed directory
        have hkeeps : ∀ i, Has (heldAlong world.disk volume oic.id equivalent (way ++ [link])) i →
            Has ((entryAt world.disk volume link.id oic.id).getD 0 ||| trusteeT) i := by
          intro i hheld
          rw [has_or]
          rw [heldAlong_concat] at hheld
          unfold heldAt at hheld
          cases hentry : entryAt world.disk volume link.id oic.id with
          | some trustee =>
              rw [hentry, Option.getD_some] at hheld
              exact .inl hheld
          | none =>
              rw [hentry, Option.getD_none] at hheld
              have hsub := hharmless.inherits equivalent hequivalent way link hreached hoff
                hchanged hentry
              exact .inr (within_iff.mp hsub i hheld)
        rw [heldAlong_grant_changed hgrant hroom equivalent way hlink hchanged]
        refine ⟨hkeeps, fun i hnew => ?_⟩
        by_cases hheld : Has (heldAlong world.disk volume oic.id equivalent (way ++ [link])) i
        · exact .inl hheld
        · rw [has_or, has_trusteeT] at hnew
          rcases hnew with hentryHas | rfl
          · refine absurd ?_ hheld
            rw [heldAlong_concat]
            unfold heldAt
            cases hentry : entryAt world.disk volume link.id oic.id with
            | some trustee =>
                rw [hentry, Option.getD_some] at hentryHas
                exact hentryHas
            | none =>
                rw [hentry, Option.getD_none] at hentryHas
                exact absurd hentryHas (not_has_zero i)
          · exact .inr ⟨rfl, .new hchanged fun hwithin => hheld ((within_trusteeT _).mp hwithin)⟩
      · rw [heldAlong_concat, heldAlong_concat]
        unfold heldAt
        rw [inheritedAt_grant hgrant hroom hlink, entryAt_grant hgrant hroom hlink,
          if_neg fun h => hchanged h.2]
        cases hentry : entryAt world.disk volume link.id oic.id with
        | some trustee =>
            dsimp only [Option.getD_some]
            exact ⟨fun i h => h, fun i h => .inl h⟩
        | none =>
            dsimp only [Option.getD_none]
            rcases inheritedAt_cases world.disk volume equivalent link with
              ⟨rights, -, hrights⟩ | ⟨mask, hmask⟩
            · rw [hrights, hrights]
              exact ⟨fun i h => h, fun i h => .inl h⟩
            · refine ⟨fun i h => ?_, fun i h => ?_⟩
              · rw [hmask, has_and] at h ⊢
                exact ⟨hkeep i h.1, h.2⟩
              · have hpassed := h
                rw [hmask, has_and] at h ⊢
                rcases hgain i h.1 with hheld | ⟨rfl, hcomes⟩
                · exact .inl ⟨hheld, h.2⟩
                · exact .inr ⟨rfl, .passed hcomes hchanged hentry
                    (passes_of_has_inheritedAt hpassed)⟩

end

/-- The user with an id and nothing else has what the id holds. -/
theorem has_placeRights_single (disk : TrusteeDisk) (volume : Nat) {id : UInt32}
    {equivalent : Bool} (hequivalent : equivalent = true → id ≠ 1) {way : List PathLink}
    (hroot : RootFirst way) (i : Nat) :
    Has (placeRights ⟨id, equivalent, [], 0⟩ disk volume way) i ↔
      Has (heldAlong disk volume id equivalent way) i := by
  unfold placeRights
  rw [if_neg fun h => hequivalent h.2 h.1, has_rightsAlong disk volume _ hroot]
  unfold TrusteeUser.has
  simp

/-- The files of a volume with the directory B in A and the file f in B. -/
def sharedDirFiles : List (List (List UInt8) × FileStat) :=
  [([], ⟨⟨1, 1⟩, true, false, false, 0⟩), ([[0x41]], ⟨⟨1, 2⟩, true, false, false, 0⟩),
    ([[0x41], [0x42]], ⟨⟨1, 3⟩, true, false, false, 0⟩),
    ([[0x41], [0x42], [0x66]], ⟨⟨1, 4⟩, false, false, false, 0⟩)]

def sharedDirTree : VolumeTree :=
  let stat (unixname : UnixName) : Option FileStat :=
    (sharedDirFiles.find? (·.1 = unixname.comps)).map Prod.snd
  { options := ⟨true, true, false, false⟩
    root := ⟨1, 1⟩
    stat := stat
    lstat := stat
    unixRights := fun _ => 0
    above := fun _ => .none }

/-- That volume, where only A has trustees. The supervisor works. -/
def sharedDirWorld (dirA : TrusteeDir) : TrusteeWorld where
  tree _ := sharedDirTree
  disk _ id := if id = ⟨1, 2⟩ then dirA else .noOne
  user := ⟨1, true, [], 0⟩
  defaultUid := 0

/-- The ways to the root, A, B and f. -/
def sharedDirWays : List (List PathLink) :=
  [[⟨⟨1, 1⟩, 3, 1⟩],
    [⟨⟨1, 1⟩, 3, 0⟩, ⟨⟨1, 2⟩, 0, 1⟩],
    [⟨⟨1, 1⟩, 3, 0⟩, ⟨⟨1, 2⟩, 1, 0⟩, ⟨⟨1, 3⟩, 0, 1⟩],
    [⟨⟨1, 1⟩, 3, 0⟩, ⟨⟨1, 2⟩, 1, 0⟩, ⟨⟨1, 3⟩, 1, 0⟩, ⟨⟨1, 4⟩, 0, 0⟩]]

theorem reached_sharedDirTree {way : List PathLink} (h : Reached sharedDirTree way) :
    way ∈ sharedDirWays.flatMap List.inits := by
  have hways : ∀ entry ∈ sharedDirFiles, ∀ slash,
      wayTo sharedDirTree ⟨entry.1, slash⟩ entry.2 ∈ sharedDirWays.map some := by decide
  obtain ⟨⟨comps, slash⟩, stb, full, hstat, hway, hinitial⟩ := h
  obtain ⟨entry, hfind, rfl⟩ := Option.map_eq_some_iff.mp hstat
  have hcomps : entry.1 = comps := by simpa using List.find?_some hfind
  have hmem := hways entry (List.mem_of_find?_eq_some hfind) slash
  rw [hcomps, hway] at hmem
  obtain ⟨full', hfull, hsame⟩ := List.mem_map.mp hmem
  obtain rfl := Option.some.inj hsame
  exact List.mem_flatMap.mpr ⟨full', hfull, (List.mem_inits _ _).mpr hinitial⟩

/-- The ways that do not go through f: to the root, A and B. -/
def sharedDirOff : List (List PathLink × PathLink) :=
  [([], ⟨⟨1, 1⟩, 3, 0⟩), ([], ⟨⟨1, 1⟩, 3, 1⟩),
    ([⟨⟨1, 1⟩, 3, 0⟩], ⟨⟨1, 2⟩, 0, 1⟩), ([⟨⟨1, 1⟩, 3, 0⟩], ⟨⟨1, 2⟩, 1, 0⟩),
    ([⟨⟨1, 1⟩, 3, 0⟩, ⟨⟨1, 2⟩, 1, 0⟩], ⟨⟨1, 3⟩, 0, 1⟩),
    ([⟨⟨1, 1⟩, 3, 0⟩, ⟨⟨1, 2⟩, 1, 0⟩], ⟨⟨1, 3⟩, 1, 0⟩)]

theorem off_sharedDirTree {way : List PathLink} {file : PathLink}
    (hreached : Reached sharedDirTree (way ++ [file]))
    (hoff : ⟨1, 4⟩ ∉ (way ++ [file]).map PathLink.numbers) : (way, file) ∈ sharedDirOff := by
  have hall : ∀ way ∈ sharedDirWays.flatMap List.inits, ⟨1, 4⟩ ∉ way.map PathLink.numbers →
      ∀ file ∈ way.getLast?, (way.dropLast, file) ∈ sharedDirOff := by decide
  have hmem := hall _ (reached_sharedDirTree hreached) hoff file (by simp)
  rwa [List.dropLast_concat] at hmem

/-- A grant of R to id 7 on A/B/f, where A lets nothing pass. -/
def sharedDirGrant : Option Int × TrusteeDisk × TrusteeCache :=
  truAddTrusteeSet (fun _ => 0) (sharedDirWorld (.single ⟨0, 0⟩)) .empty 0
    ⟨[[0x41], [0x42], [0x66]], false⟩ ⟨⟨1, 4⟩, false, false, false, 0⟩ [⟨7, 1⟩]

end MarsNwe
