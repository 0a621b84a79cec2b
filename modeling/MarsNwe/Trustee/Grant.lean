import Mathlib.Data.List.Nodup
import MarsNwe.Lib.WordSets
import MarsNwe.Trustee.RightsCache

/-! # Granting trustees

A grant writes the trustees of a file and, for each directory that the name goes
through, an entry with the right to see it, unless there is one that shows it.
-/

namespace MarsNwe

/-- `readlink` of an entry of a trustee directory. -/
def TrusteeDir.get? (dir : TrusteeDir) (id : UInt32) : Option Rights :=
  (dir.entries.find? (·.id = id)).map IdsTrustee.trustee

/-- An entry is unlinked and made again, `place` entries from the start of the directory. -/
def TrusteeDir.put (place : Nat) (dir : TrusteeDir) (e : IdsTrustee) : TrusteeDir where
  entries :=
    let others := dir.entries.filter (·.id ≠ e.id)
    others.take place ++ e :: others.drop place
  nodup := by
    have hperm : ((dir.entries.filter (·.id ≠ e.id)).take place ++
        e :: (dir.entries.filter (·.id ≠ e.id)).drop place).Perm
        (e :: dir.entries.filter (·.id ≠ e.id)) := by
      refine List.perm_middle.trans ?_
      rw [List.take_append_drop]
    rw [(hperm.map IdsTrustee.id).nodup_iff, List.map_cons, List.nodup_cons]
    constructor
    · intro hmem
      obtain ⟨e', he', hid⟩ := List.mem_map.mp hmem
      exact of_decide_eq_true (List.mem_filter.mp he').2 hid
    · exact dir.nodup.sublist (List.filter_sublist.map IdsTrustee.id)

/-- `put_trustee_to_disk`. Where the new entry stands in its directory is up to the
file system. -/
def putTrusteeToDisk (place : TrusteeDir → Nat) (disk : TrusteeDisk) (volume : Nat) (id : FileId)
    (e : IdsTrustee) : TrusteeDisk :=
  fun volume' id' =>
    if volume' = volume ∧ id' = id then
      (disk volume' id').put (place (disk volume' id')) e
    else disk volume' id'

/-- `local_tru_add_trustee_set`; the result is none, if a freed node is used. -/
def localTruAddTrusteeSet (place : TrusteeDir → Nat) (world : TrusteeWorld) (cache : TrusteeCache)
    (volume : Nat) (unixname : UnixName) (stb : FileStat) (nwoic : List IdsTrustee) :
    Option Int × TrusteeDisk × TrusteeCache :=
  let tree := world.tree volume
  if tree.options.trustees then
    match getEffRightsByTrustees world.user tree world.disk cache volume unixname stb with
    | (none, cache) => (none, world.disk, cache)
    | (some rights, cache) =>
        let own := truGetEffRights rights (rightsByUnix world volume unixname stb)
        if own &&& trusteeA ≠ 0 ∨ world.user.equivalent then
          match findBuildTrusteeNode world.user tree world.disk cache volume unixname stb with
          | (.freed, cache) => (none, world.disk, cache)
          | (.noPath, _) => (some (-0x85), world.disk, .empty)
          | (.node tr, cache) =>
              if tr.modeFlags &&& 0x18 = 0 ∨ world.user.uid = 0 then
                -- only who has the right S may give it
                let mask := if own &&& trusteeS ≠ 0 ∨ world.user.equivalent then 0xffff
                  else ~~~trusteeS
                let disk := nwoic.foldl (fun disk e =>
                  putTrusteeToDisk place disk volume stb.id { e with trustee := e.trustee &&& mask })
                  world.disk
                (some 0, disk, cache)
              else (some (-0x85), world.disk, .empty)
        else (some (-0x85), world.disk, .empty)
  else (some (-0x85), world.disk, .empty)

/-- What the loop of `tru_add_trustee_set` does for an id at a directory: without an
entry that has T or F it gets one. -/
def addBrowse (place : TrusteeDir → Nat) (volume : Nat) (statb : FileStat) (disk : TrusteeDisk)
    (poic : IdsTrustee) : TrusteeDisk :=
  if poic.id ≠ 0 then
    let trustee := ((disk volume statb.id).get? poic.id).getD 0
    if trustee &&& (trusteeT ||| trusteeF) = 0 then
      putTrusteeToDisk place disk volume statb.id ⟨poic.id, trustee ||| trusteeT⟩
    else disk
  else disk

/-- `tru_add_trustee_set`. -/
def truAddTrusteeSet (place : TrusteeDir → Nat) (world : TrusteeWorld) (cache : TrusteeCache)
    (volume : Nat) (unixname : UnixName) (stb : FileStat) (nwoic : List IdsTrustee) :
    Option Int × TrusteeDisk × TrusteeCache :=
  match localTruAddTrusteeSet place world cache volume unixname stb nwoic with
  | (some 0, disk, cache) =>
      -- from the longest part of the name to the shortest
      let disk := unixname.prefixes.reverse.foldl (fun disk part =>
        match (world.tree volume).stat part with
        | some statb => nwoic.foldl (addBrowse place volume statb) disk
        | none => disk) disk
      (some 0, disk, truFreeCache (some volume) cache)
  | failed => failed

/-! ## Directories with a new entry -/

/-- An entry of a directory is found by its id. -/
theorem TrusteeDir.get?_eq_some {dir : TrusteeDir} {id : UInt32} {rights : Rights} :
    dir.get? id = some rights ↔ ⟨id, rights⟩ ∈ dir.entries := by
  unfold get?
  constructor
  · intro h
    obtain ⟨e, hfind, rfl⟩ := Option.map_eq_some_iff.mp h
    have hid : e.id = id := by simpa using List.find?_some hfind
    rw [← hid]
    exact List.mem_of_find?_eq_some hfind
  · intro hmem
    cases hfind : dir.entries.find? (·.id = id) with
    | none => exact absurd (decide_eq_true rfl) (List.find?_eq_none.mp hfind _ hmem)
    | some e =>
        have hid : e.id = id := by simpa using List.find?_some hfind
        have hsame := List.inj_on_of_nodup_map dir.nodup (List.mem_of_find?_eq_some hfind) hmem hid
        rw [hsame]
        rfl

theorem TrusteeDir.get?_put (place : Nat) (dir : TrusteeDir) (e : IdsTrustee) (id : UInt32) :
    (dir.put place e).get? id = if id = e.id then some e.trustee else dir.get? id := by
  unfold get? put
  dsimp only
  rw [List.find?_append, List.find?_cons]
  by_cases hid : id = e.id
  · subst hid
    have hnone : ((dir.entries.filter (·.id ≠ e.id)).take place).find? (·.id = e.id) = none := by
      rw [List.find?_eq_none]
      intro e' he' hid
      have hne := of_decide_eq_true (List.mem_filter.mp (List.mem_of_mem_take he')).2
      exact hne (of_decide_eq_true hid)
    rw [hnone, if_pos rfl]
    simp
  · rw [if_neg hid]
    have hhead : decide (e.id = id) = false := decide_eq_false (Ne.symm hid)
    rw [hhead, ← List.find?_append, List.take_append_drop, List.find?_filter]
    have hsame : (fun e' : IdsTrustee =>
        decide (decide (e'.id ≠ e.id) = true ∧ decide (e'.id = id) = true)) =
        fun e' => decide (e'.id = id) := by
      funext e'
      by_cases he' : e'.id = id
      · simp [he', hid]
      · simp [he']
    rw [hsame]

/-- The directories that a name goes through below the root. -/
def ancestorIds (tree : VolumeTree) (unixname : UnixName) : List FileId :=
  unixname.prefixes.filterMap fun part => (tree.stat part).map FileStat.id

/-- Neither T nor F is in the entry of an id at a directory. -/
def NeedsBrowse (disk : TrusteeDisk) (volume : Nat) (id : UInt32) (dir : FileId) : Prop :=
  id ≠ 0 ∧ ((disk volume dir).get? id).getD 0 &&& (trusteeT ||| trusteeF) = 0

instance (disk : TrusteeDisk) (volume : Nat) (id : UInt32) (dir : FileId) :
    Decidable (NeedsBrowse disk volume id dir) :=
  inferInstanceAs (Decidable (_ ∧ _))

/-- The trustee directory with the right to browse. -/
def withBrowse (place : TrusteeDir → Nat) (id : UInt32) (dir : TrusteeDir) : TrusteeDir :=
  dir.put (place dir) ⟨id, (dir.get? id).getD 0 ||| trusteeT⟩

theorem addBrowse_apply (place : TrusteeDir → Nat) (volume : Nat) (statb : FileStat)
    (disk : TrusteeDisk) (poic : IdsTrustee) (dir : FileId) :
    addBrowse place volume statb disk poic volume dir =
      if dir = statb.id ∧ NeedsBrowse disk volume poic.id dir then
        withBrowse place poic.id (disk volume dir)
      else disk volume dir := by
  have hcases : addBrowse place volume statb disk poic =
      if NeedsBrowse disk volume poic.id statb.id then
        putTrusteeToDisk place disk volume statb.id
          ⟨poic.id, ((disk volume statb.id).get? poic.id).getD 0 ||| trusteeT⟩
      else disk := by
    unfold addBrowse
    by_cases hneeds : NeedsBrowse disk volume poic.id statb.id
    · rw [if_pos hneeds]
      exact (if_pos hneeds.1).trans (if_pos hneeds.2)
    · rw [if_neg hneeds]
      split
      next hid => exact if_neg fun hzero => hneeds ⟨hid, hzero⟩
      next => rfl
  rw [hcases]
  by_cases hneeds : NeedsBrowse disk volume poic.id statb.id
  · rw [if_pos hneeds]
    unfold putTrusteeToDisk
    by_cases hdir : dir = statb.id
    · subst hdir
      rw [if_pos ⟨rfl, rfl⟩, if_pos ⟨rfl, hneeds⟩]
      rfl
    · rw [if_neg fun h => hdir h.2, if_neg fun h => hdir h.1]
  · rw [if_neg hneeds, if_neg]
    intro ⟨hdir, hneeds'⟩
    exact hneeds (hdir ▸ hneeds')

/-- With the right to browse nothing more is needed. -/
theorem not_needsBrowse {place : TrusteeDir → Nat} {disk : TrusteeDisk} {volume : Nat}
    {id : UInt32} {dir : FileId} {dir' : TrusteeDir} (h : disk volume dir = withBrowse place id dir') :
    ¬NeedsBrowse disk volume id dir := by
  intro ⟨_, hzero⟩
  rw [h] at hzero
  unfold withBrowse at hzero
  rw [TrusteeDir.get?_put, if_pos rfl] at hzero
  have hbit : WordSet.Has (((dir'.get? id).getD 0 ||| trusteeT) &&& (trusteeT ||| trusteeF)) 9 := by
    rw [WordSet.has_and, WordSet.has_or]
    exact ⟨.inr (by decide), by decide⟩
  dsimp only [Option.getD_some] at hzero
  rw [hzero] at hbit
  exact WordSet.not_has_zero 9 hbit

/-- After the loop over the parts of a name each directory has one new entry, if it
needs one. -/
theorem foldl_addBrowse (place : TrusteeDir → Nat) (tree : VolumeTree) (volume : Nat)
    (poic : IdsTrustee) (parts : List UnixName) (disk : TrusteeDisk) (dir : FileId) :
    parts.foldl (fun disk part =>
        match tree.stat part with
        | some statb => [poic].foldl (addBrowse place volume statb) disk
        | none => disk) disk volume dir =
      if dir ∈ parts.filterMap (fun part => (tree.stat part).map FileStat.id) ∧
          NeedsBrowse disk volume poic.id dir then
        withBrowse place poic.id (disk volume dir)
      else disk volume dir := by
  induction parts generalizing disk with
  | nil => exact (if_neg fun h => List.not_mem_nil h.1).symm
  | cons part parts ih =>
      rw [List.foldl_cons, List.filterMap_cons]
      cases hstat : tree.stat part with
      | none => exact ih disk
      | some statb =>
          have happly := addBrowse_apply place volume statb disk poic dir
          dsimp only [List.foldl_cons, List.foldl_nil, Option.map_some] at ih ⊢
          rw [ih]
          by_cases hhere : dir = statb.id ∧ NeedsBrowse disk volume poic.id dir
          · rw [if_pos hhere] at happly
            have hdone := not_needsBrowse happly
            have hmem : dir ∈ statb.id ::
                parts.filterMap (fun part => (tree.stat part).map FileStat.id) :=
              List.mem_cons.mpr (.inl hhere.1)
            rw [if_neg fun h => hdone h.2, happly, if_pos ⟨hmem, hhere.2⟩]
          · rw [if_neg hhere] at happly
            have hsame : NeedsBrowse (addBrowse place volume statb disk poic) volume poic.id dir ↔
                NeedsBrowse disk volume poic.id dir := by
              unfold NeedsBrowse
              rw [happly]
            rw [happly]
            simp only [hsame, List.mem_cons]
            by_cases hneeds : NeedsBrowse disk volume poic.id dir
            · have hother : ¬dir = statb.id := fun h => hhere ⟨h, hneeds⟩
              simp only [hother, false_or]
            · simp only [hneeds, and_false, if_false]

/-- A grant that succeeds writes its entries at the file, without the rights that the
caller may not give. -/
theorem localTruAddTrusteeSet_eq {place : TrusteeDir → Nat} {world : TrusteeWorld}
    {cache cache' : TrusteeCache} {volume : Nat} {unixname : UnixName} {stb : FileStat}
    {nwoic : List IdsTrustee} {disk' : TrusteeDisk}
    (h : localTruAddTrusteeSet place world cache volume unixname stb nwoic =
      (some 0, disk', cache')) :
    ∃ mask, disk' = nwoic.foldl (fun disk e =>
      putTrusteeToDisk place disk volume stb.id { e with trustee := e.trustee &&& mask })
      world.disk := by
  unfold localTruAddTrusteeSet at h
  dsimp only at h
  split at h
  next =>
      split at h
      next => exact absurd (Prod.mk.inj h).1 (by decide)
      next =>
          split at h
          next =>
              split at h
              next => exact absurd (Prod.mk.inj h).1 (by decide)
              next => exact absurd (Prod.mk.inj h).1 (by decide)
              next =>
                  split at h
                  next =>
                      obtain ⟨-, h⟩ := Prod.mk.inj h
                      obtain ⟨hdisk, -⟩ := Prod.mk.inj h
                      exact ⟨_, hdisk.symm⟩
                  next => exact absurd (Prod.mk.inj h).1 (by decide)
          next => exact absurd (Prod.mk.inj h).1 (by decide)
  next => exact absurd (Prod.mk.inj h).1 (by decide)

/-- The grant itself writes at the file only. -/
theorem localTruAddTrusteeSet_disk {place : TrusteeDir → Nat} {world : TrusteeWorld}
    {cache cache' : TrusteeCache} {volume : Nat} {unixname : UnixName} {stb : FileStat}
    {oic : IdsTrustee} {disk' : TrusteeDisk}
    (h : localTruAddTrusteeSet place world cache volume unixname stb [oic] = (some 0, disk', cache'))
    {dir : FileId} (hdir : dir ≠ stb.id) : disk' volume dir = world.disk volume dir := by
  obtain ⟨mask, rfl⟩ := localTruAddTrusteeSet_eq h
  exact if_neg fun hhere => hdir hhere.2

/-- What a grant to one id leaves of the trustees of any other file. -/
theorem truAddTrusteeSet_disk {place : TrusteeDir → Nat} {world : TrusteeWorld}
    {cache cache' : TrusteeCache} {volume : Nat} {unixname : UnixName} {stb : FileStat}
    {oic : IdsTrustee} {disk' : TrusteeDisk}
    (h : truAddTrusteeSet place world cache volume unixname stb [oic] = (some 0, disk', cache'))
    {dir : FileId} (hdir : dir ≠ stb.id) :
    disk' volume dir =
      if dir ∈ ancestorIds (world.tree volume) unixname ∧
          NeedsBrowse world.disk volume oic.id dir then
        withBrowse place oic.id (world.disk volume dir)
      else world.disk volume dir := by
  unfold truAddTrusteeSet at h
  split at h
  next disk cache'' hlocal =>
      obtain ⟨-, h⟩ := Prod.mk.inj h
      obtain ⟨hdisk, -⟩ := Prod.mk.inj h
      have hfile := localTruAddTrusteeSet_disk hlocal hdir
      have hneeds : NeedsBrowse disk volume oic.id dir ↔
          NeedsBrowse world.disk volume oic.id dir := by
        unfold NeedsBrowse
        rw [hfile]
      rw [← hdisk, foldl_addBrowse, List.filterMap_reverse]
      simp only [hneeds, hfile, List.mem_reverse]
      rfl
  next hfailed =>
      exact absurd h (hfailed disk' cache')

end MarsNwe
