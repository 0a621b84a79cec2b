import MarsNwe.Trustee.CacheSound
import MarsNwe.Trustee.ReadNodes
import MarsNwe.Trustee.SafeCache
import MarsNwe.Trustee.Writers

/-! # The supervisor right is not granted to oneself

Who has the right S neither at a file nor at a directory above it does not get it
there by writing trustees, as long as the file and the directories are reached on no
other way.
-/

namespace MarsNwe

open WordSet

/-! ## Requests -/

section

variable {P : Nat → FileId → Prop} {world : TrusteeWorld} {cache : TrusteeCache} {volume : Nat}
  {unixname : UnixName} {stb : FileStat}

/-- The user has no S by his uid or his equivalence. -/
structure PlainUser (user : TrusteeUser) : Prop where
  equivalent : user.equivalent = false
  uid : user.uid ≠ 0

theorem lacks_unNwRights {options : TrusteeOptions} {actUid defaultUid : UInt32} {acc : UInt8}
    {above : ParentDir} (huid : actUid ≠ 0) :
    ¬Has (unNwRights options actUid defaultUid stb acc above) bitS := by
  unfold unNwRights
  dsimp only
  rw [if_pos (.inl huid), has_and]
  exact fun hbit => absurd hbit.1 (by decide)

theorem lacks_rightsByUnix (huid : world.user.uid ≠ 0) :
    ¬Has (rightsByUnix world volume unixname stb) bitS := by
  unfold rightsByUnix
  dsimp only
  split
  next => exact not_has_zero _
  next => exact lacks_unNwRights huid

theorem lacks_truGetEffRights {rights rights1 : Rights} (h : ¬Has rights bitS)
    (h1 : ¬Has rights1 bitS) : ¬Has (truGetEffRights rights rights1) bitS := by
  unfold truGetEffRights
  rw [has_or, has_and]
  exact not_or.mpr ⟨fun hbit => h hbit.1, h1⟩

/-- What is asked for a file of `P` is answered without S. -/
theorem SafeCache.getEff (hcache : SafeCache world.user P cache)
    (hdisk : SafeDisk world.user P world.disk) (huser : PlainUser world.user)
    (hways : OneWay P world.tree) (hstat : (world.tree volume).stat unixname = some stb) :
    let found := getEffRightsByTrustees world.user (world.tree volume) world.disk cache volume
      unixname stb
    SafeCache world.user P found.2 ∧ ∀ rights, found.1 = some rights → P volume stb.id →
      ¬Has rights bitS := by
  obtain ⟨hsafe, hrights⟩ := hcache.findBuild hdisk huser.equivalent hways hstat
  unfold getEffRightsByTrustees
  rw [if_neg fun hsuper => Bool.false_ne_true (huser.equivalent.symm.trans hsuper.2)]
  generalize findBuildTrusteeNode world.user (world.tree volume) world.disk cache volume unixname
    stb = built at *
  obtain ⟨result, cache'⟩ := built
  dsimp only at *
  cases result with
  | node tr =>
      refine ⟨hsafe, fun rights heq hP => ?_⟩
      obtain rfl := Option.some.inj heq
      cases heff : tr.effRights with
      | none => exact not_has_zero _
      | some rights => exact hrights tr rfl hP rights heff
  | noPath => exact ⟨hsafe, fun rights heq _ => Option.some.inj heq ▸ not_has_zero _⟩
  | freed => exact ⟨hsafe, fun rights heq => (nomatch heq)⟩

/-- Requests that only ask. -/
theorem SafeCache.ask (hcache : SafeCache world.user P cache)
    (hdisk : SafeDisk world.user P world.disk) (huser : PlainUser world.user)
    (hways : OneWay P world.tree) (call : TrusteeCall) :
    SafeCache world.user P ((trusteeMachine world).step cache call).2 := by
  cases call with
  | freeCache volume => exact hcache.free volume
  | file volume unixname request =>
      unfold trusteeMachine
      dsimp only
      split
      next stb hstat =>
        have hrights := (hcache.getEff hdisk huser hways hstat).1
        have hfound := (hcache.findCreatAdd hdisk (world.tree volume) volume unixname stb).1
        unfold trusteeRequest
        cases request <;> dsimp only <;> split
        case effRights.isTrue | effRightsExists.isTrue =>
          split
          next h => rwa [h] at hrights
          next h => rwa [h] at hrights
        all_goals assumption
      next => exact hcache

/-! ## Writes -/

theorem SafeCache.mayWrite (hcache : SafeCache world.user P cache)
    (hdisk : SafeDisk world.user P world.disk) (huser : PlainUser world.user)
    (hways : OneWay P world.tree) (hstat : (world.tree volume).stat unixname = some stb) :
    SafeCache world.user P (mayWriteTrustees world cache volume unixname stb).2 := by
  have hrights := (hcache.getEff hdisk huser hways hstat).1
  unfold mayWriteTrustees
  dsimp only
  generalize getEffRightsByTrustees world.user (world.tree volume) world.disk cache volume
    unixname stb = built at *
  split
  next => rcases built with ⟨_ | rights, cache'⟩ <;> exact hrights
  next => exact hcache

theorem TrusteeDir.mem_put {place : Nat} {dir : TrusteeDir} {e e' : IdsTrustee}
    (h : e' ∈ (dir.put place e).entries) : e' = e ∨ e' ∈ dir.entries := by
  have hmem : e' ∈ (dir.entries.filter (·.id ≠ e.id)).take place ++
      e :: (dir.entries.filter (·.id ≠ e.id)).drop place := h
  rcases List.mem_append.mp hmem with htake | hrest
  · exact .inr (List.mem_filter.mp (List.mem_of_mem_take htake)).1
  · rcases List.mem_cons.mp hrest with rfl | hdrop
    · exact .inl rfl
    · exact .inr (List.mem_filter.mp (List.mem_of_mem_drop hdrop)).1

/-- An entry without S, or for the inherited mask, is safe everywhere. -/
theorem SafeDisk.put {disk : TrusteeDisk} (hdisk : SafeDisk world.user P disk)
    (place : TrusteeDir → Nat) {id : FileId} {e : IdsTrustee}
    (h : P volume id → e.id ≠ 0 → world.user.has e.id = true → ¬Has e.trustee bitS) :
    SafeDisk world.user P (putTrusteeToDisk place disk volume id e) := by
  intro volume' id' hP e' he' hid' hhas
  unfold putTrusteeToDisk at he'
  split at he'
  next hhere =>
    obtain ⟨rfl, rfl⟩ := hhere
    rcases TrusteeDir.mem_put he' with rfl | hold
    · exact h hP hid' hhas
    · exact hdisk _ _ hP e' hold hid' hhas
  next => exact hdisk _ _ hP e' he' hid' hhas

theorem SafeDisk.foldl {α : Type} {disk : TrusteeDisk} (hdisk : SafeDisk world.user P disk)
    {f : TrusteeDisk → α → TrusteeDisk} (l : List α)
    (h : ∀ disk a, SafeDisk world.user P disk → SafeDisk world.user P (f disk a)) :
    SafeDisk world.user P (l.foldl f disk) := by
  induction l generalizing disk with
  | nil => exact hdisk
  | cons a l ih => exact ih (h disk a hdisk)

theorem SafeDisk.addBrowse {disk : TrusteeDisk} (hdisk : SafeDisk world.user P disk)
    (place : TrusteeDir → Nat) (statb : FileStat) (poic : IdsTrustee) :
    SafeDisk world.user P (addBrowse place volume statb disk poic) := by
  unfold MarsNwe.addBrowse
  split
  next hid =>
    dsimp only
    split
    next =>
      refine hdisk.put place fun hP _ hhas => ?_
      have hT : ¬Has trusteeT bitS := by decide
      rw [has_or, not_or]
      refine ⟨?_, hT⟩
      cases hget : (disk volume statb.id).get? poic.id with
      | none => exact not_has_zero _
      | some trustee =>
          rw [Option.getD_some]
          have hmem := TrusteeDir.get?_eq_some.mp hget
          exact hdisk volume statb.id hP ⟨poic.id, trustee⟩ hmem hid hhas
    next => exact hdisk
  next => exact hdisk

/-- Nothing of S is written at a file of `P`. -/
theorem SafeDisk.localAdd (hcache : SafeCache world.user P cache)
    (hdisk : SafeDisk world.user P world.disk) (huser : PlainUser world.user)
    (hways : OneWay P world.tree) (hstat : (world.tree volume).stat unixname = some stb)
    (place : TrusteeDir → Nat) (nwoic : List IdsTrustee) :
    let added := localTruAddTrusteeSet place world cache volume unixname stb nwoic
    SafeDisk world.user P added.2.1 ∧ SafeCache world.user P added.2.2 := by
  have hempty : SafeCache world.user P .empty := hcache.free none
  obtain ⟨hsafe, hrights⟩ := hcache.getEff hdisk huser hways hstat
  unfold localTruAddTrusteeSet
  dsimp only
  split
  next =>
    generalize getEffRightsByTrustees world.user (world.tree volume) world.disk cache volume
      unixname stb = found at *
    obtain ⟨_ | rights, cache'⟩ := found
    · exact ⟨hdisk, hsafe⟩
    · dsimp only at *
      split
      next =>
        have hbuilt := (SafeCache.findBuild hsafe hdisk huser.equivalent hways hstat).1
        generalize findBuildTrusteeNode world.user (world.tree volume) world.disk cache' volume
          unixname stb = built at *
        obtain ⟨tr | _ | _, cache''⟩ := built
        · dsimp only at *
          split
          next =>
            refine ⟨hdisk.foldl nwoic fun disk e hold => hold.put place fun hP _ _ => ?_, hbuilt⟩
            have hown : ¬Has (truGetEffRights rights (rightsByUnix world volume unixname stb))
                bitS :=
              lacks_truGetEffRights (hrights rights rfl hP) (lacks_rightsByUnix huser.uid)
            rw [if_neg fun hmay => hmay.elim (fun h => h (lacks_iff.mpr hown)) fun h =>
              Bool.false_ne_true (huser.equivalent.symm.trans h)]
            rw [has_and]
            exact fun hbit => absurd hbit.2 (by decide)
          next => exact ⟨hdisk, hempty⟩
        · exact ⟨hdisk, hempty⟩
        · exact ⟨hdisk, hbuilt⟩
      next => exact ⟨hdisk, hempty⟩
  next => exact ⟨hdisk, hempty⟩

theorem SafeDisk.del {disk : TrusteeDisk} (hdisk : SafeDisk world.user P disk) (id : FileId)
    (trustee : UInt32) :
    SafeDisk world.user P (delTrusteeFromDisk disk volume id trustee).2 := by
  unfold delTrusteeFromDisk
  split
  next => exact hdisk
  next =>
    intro volume' id' hP e he hid hhas
    dsimp only at he
    split at he
    next => exact hdisk _ _ hP e (List.mem_filter.mp he).1 hid hhas
    next => exact hdisk _ _ hP e he hid hhas

/-- The trustees on disk and the cache are safe. -/
structure SafeState (user : TrusteeUser) (P : Nat → FileId → Prop) (s : TrusteeState) : Prop where
  disk : SafeDisk user P s.disk
  cache : SafeCache user P s.cache

/-- No request takes a state that is safe to one that is not. -/
theorem SafeState.step {s : TrusteeState} (hs : SafeState world.user P s)
    (huser : PlainUser world.user) (hways : OneWay P world.tree) (place : TrusteeDir → Nat)
    (e : TrusteeWrite) : SafeState world.user P ((writeMachine place world).step s e).2 := by
  have hmay : ∀ volume unixname stb, (world.tree volume).stat unixname = some stb →
      SafeCache world.user P
        (mayWriteTrustees { world with disk := s.disk } s.cache volume unixname stb).2 :=
    fun volume unixname stb hstat =>
      @SafeCache.mayWrite P { world with disk := s.disk } s.cache volume unixname stb hs.cache
        hs.disk huser hways hstat
  unfold writeMachine
  cases e with
  | ask call =>
      exact ⟨hs.disk, @SafeCache.ask P { world with disk := s.disk } s.cache hs.cache hs.disk huser
        hways call⟩
  | addTrusteeSet volume unixname nwoic =>
      dsimp only
      split
      next stb hstat =>
        obtain ⟨hdisk, hcache⟩ := @SafeDisk.localAdd P { world with disk := s.disk } s.cache volume
          unixname stb hs.cache hs.disk huser hways hstat place nwoic
        unfold truAddTrusteeSet
        split
        next disk cache hlocal =>
          rw [hlocal] at hdisk hcache
          refine ⟨hdisk.foldl _ fun disk part hold => ?_, hcache.free _⟩
          split
          next statb _ => exact hold.foldl nwoic fun disk poic hold => hold.addBrowse place statb poic
          next => exact hold
        next => exact ⟨hdisk, hcache⟩
      next => exact hs
  | delTrustee volume unixname id =>
      dsimp only
      split
      next stb hstat =>
        have hcache := hmay volume unixname stb hstat
        have hdisk : SafeDisk world.user P (delTrusteeFromDisk s.disk volume stb.id id).2 :=
          hs.disk.del stb.id id
        unfold truDelTrustee
        split
        next h => exact ⟨hs.disk, by rw [h] at hcache; exact hcache⟩
        next h => exact ⟨hs.disk, by rw [h] at hcache; exact hcache⟩
        next cache h =>
          rw [h] at hcache
          split
          next disk hdel =>
            rw [hdel] at hdisk
            exact ⟨hdisk, hcache.free _⟩
          next result disk _ hdel =>
            rw [hdel] at hdisk
            exact ⟨hdisk, hcache⟩
      next => exact hs
  | setInheritedMask volume unixname newMask =>
      dsimp only
      split
      next stb hstat =>
        have hcache := hmay volume unixname stb hstat
        unfold truSetInheritedMask
        split
        next h => exact ⟨hs.disk, by rw [h] at hcache; exact hcache⟩
        next h => exact ⟨hs.disk, by rw [h] at hcache; exact hcache⟩
        next cache h =>
          rw [h] at hcache
          have hfound := (SafeCache.find hcache volume stb.id).1
          split
          next h => exact ⟨hs.disk, by rw [h] at hfound; exact hfound⟩
          next tr cache h =>
            rw [h] at hfound
            split
            next =>
              have hput : SafeDisk world.user P
                  (putTrusteeToDisk place s.disk volume stb.id ⟨0, newMask⟩) :=
                hs.disk.put place fun _ hzero => absurd rfl hzero
              exact ⟨hput, SafeCache.free hfound _⟩
            next => exact ⟨hs.disk, hfound⟩
      next => exact hs

end

/-! ## What is read is in the rights -/

section

variable {user : TrusteeUser} {disk : TrusteeDisk} {cache : TrusteeCache} {volume : Nat}

/-- A node has the trustees that are read from disk. -/
def ReadNode (disk : TrusteeDisk) (tr : FileTrusteeNode) : Prop :=
  tr.trustees = (readTrustees (disk tr.volume tr.id).entries 0).2

/-- The nodes of a cache have the trustees that are read from disk. -/
abbrev ReadCache (disk : TrusteeDisk) (cache : TrusteeCache) : Prop := ∀ tr ∈ cache, ReadNode disk tr

/-- The same, said of the trustees of a file. -/
def ReadFrom (disk : TrusteeDisk) (volume : Nat) (id : FileId) (trustees : List IdsTrustee) :
    Prop := trustees = (readTrustees (disk volume id).entries 0).2

theorem readCache_iff : ReadCache disk cache ↔ NodesHold (ReadFrom disk) cache := Iff.rfl

/-- From an empty cache the node of a file is built of what is read from disk. -/
theorem findBuildTrusteeNode_read {tree : VolumeTree} {unixname : UnixName} {stb : FileStat}
    {tr : FileTrusteeNode}
    (h : (findBuildTrusteeNode user tree disk .empty volume unixname stb).1 = .node tr) :
    ∃ tr' ugidTrustees, ReadNode disk tr' ∧ tr'.volume = volume ∧ tr'.id = stb.id ∧
      tr = (buildTrusteeRights user tr' ugidTrustees).1 := by
  have hempty : findTrusteeNode .empty volume stb.id = (none, .empty) := rfl
  unfold findBuildTrusteeNode findCreatAddTrusteeNode at h
  rw [hempty] at h
  dsimp only at h
  generalize (if stb.isDir then (1 : UInt8) else 0) ||| symlinkFlag tree unixname stb = modeFlags at h
  have hnew : ∀ modeFlags, ReadNode disk (createTrusteeNode disk volume stb.id modeFlags) :=
    fun _ => rfl
  have hread : ∀ volume id, ReadFrom disk volume id (readTrustees (disk volume id).entries 0).2 :=
    fun _ _ => rfl
  split at h
  next hbuilt => exact absurd hbuilt Bool.false_ne_true
  next =>
    split at h
    next =>
      have hwalked : ∀ links, ReadCache disk (List.foldl (MarsNwe.walkLink user disk volume)
          (addTrusteeNode .empty (createTrusteeNode disk volume stb.id modeFlags), []) links).1 :=
        fun links => readCache_iff.mpr ((NodesHold.empty.add (hnew modeFlags)).walk hread [] links)
      generalize pathLinks tree stb unixname.prefixes tree.root.dev = path at *
      obtain ⟨links, lastDev, ok⟩ := path
      dsimp only at *
      have hlinks := hwalked (⟨tree.root, 3, 0⟩ :: links)
      generalize (⟨tree.root, 3, 0⟩ :: links).foldl (MarsNwe.walkLink user disk volume) _ =
        walked at *
      split at h
      next =>
        split at h
        next => contradiction
        next kept hat =>
          obtain ⟨hmem, hvolume, hid⟩ := TrusteeCache.at?_eq_some hat
          refine ⟨_, _, ?_, ?_, ?_, (BuildResult.node.inj h).symm⟩
          · exact hlinks kept hmem
          · exact hvolume
          · exact hid
      next => contradiction
    next =>
      refine ⟨_, _, ?_, ?_, ?_, (BuildResult.node.inj h).symm⟩
      · exact hnew modeFlags
      · rfl
      · rfl

theorem readTrustees_sublist (entries : List IdsTrustee) (count : Nat) :
    (readTrustees entries count).2.Sublist entries := by
  induction entries generalizing count with
  | nil => exact List.Sublist.refl _
  | cons e es ih =>
      unfold readTrustees
      split
      next =>
        split
        next => exact (ih _).cons e
        next => exact (ih _).cons_cons e
      next => exact List.nil_sublist _

/-- No more entries than are read are read. -/
theorem mem_readTrustees_of_le {entries : List IdsTrustee} {count : Nat} {e : IdsTrustee}
    (hroom : count + (entries.filter (·.id ≠ 0)).length ≤ maxTrustees) (he : e ∈ entries)
    (hid : e.id ≠ 0) : e ∈ (readTrustees entries count).2 := by
  induction entries generalizing count with
  | nil => contradiction
  | cons e' es ih =>
      have hsome : e ∈ (e' :: es).filter (·.id ≠ 0) := List.mem_filter.mpr ⟨he, decide_eq_true hid⟩
      have hlt : count < maxTrustees := by
        have := List.length_pos_of_mem hsome
        omega
      unfold readTrustees
      rw [if_pos hlt]
      split
      next hzero =>
        rw [List.filter_cons_of_neg (by simp [hzero])] at hroom
        rcases List.mem_cons.mp he with rfl | he
        · exact absurd hzero hid
        · exact ih hroom he
      next hnonzero =>
        rw [List.filter_cons_of_pos (by simp [hnonzero]), List.length_cons] at hroom
        rcases List.mem_cons.mp he with rfl | he
        · exact List.mem_cons_self
        · exact List.mem_cons_of_mem _ (ih (by omega) he)

theorem insertUgidTrustee_mem (id : UInt32) (trustee : Rights) (ugidTrustees : List IdsTrustee) :
    ⟨id, trustee⟩ ∈ insertUgidTrustee id trustee ugidTrustees := by
  induction ugidTrustees with
  | nil => exact List.mem_cons_self
  | cons e es ih =>
      unfold insertUgidTrustee
      split
      next => exact List.mem_cons_self
      next => exact List.mem_cons_of_mem _ ih

theorem mem_insertUgidTrustee_of_ne {id : UInt32} {trustee : Rights} {e : IdsTrustee}
    {ugidTrustees : List IdsTrustee} (he : e ∈ ugidTrustees) (hid : e.id ≠ id) :
    e ∈ insertUgidTrustee id trustee ugidTrustees := by
  induction ugidTrustees with
  | nil => contradiction
  | cons e' es ih =>
      unfold insertUgidTrustee
      split
      next heq =>
        rcases List.mem_cons.mp he with rfl | he
        · exact absurd heq hid
        · exact List.mem_cons_of_mem _ he
      next =>
        rcases List.mem_cons.mp he with rfl | he
        · exact List.mem_cons_self
        · exact List.mem_cons_of_mem _ (ih he)

/-- The trustees of a node are in what is passed on from it. -/
theorem mem_insert_trustees {trustees ugidTrustees : List IdsTrustee} {e : IdsTrustee}
    (hnodup : (trustees.map IdsTrustee.id).Nodup)
    (h : e ∈ trustees ∧ user.has e.id = true ∨
      e ∈ ugidTrustees ∧ e.id ∉ trustees.map IdsTrustee.id) :
    e ∈ trustees.foldl (fun ugidTrustees e =>
      if user.has e.id then insertUgidTrustee e.id e.trustee ugidTrustees else ugidTrustees)
      ugidTrustees := by
  induction trustees generalizing ugidTrustees with
  | nil => exact (h.resolve_left fun h => (nomatch h.1)).1
  | cons e' es ih =>
      obtain ⟨hnew, hrest⟩ := List.nodup_cons.mp hnodup
      rw [List.foldl_cons]
      refine ih hrest ?_
      rcases h with ⟨he, hhas⟩ | ⟨he, hother⟩
      · rcases List.mem_cons.mp he with rfl | he
        · refine .inr ⟨?_, hnew⟩
          rw [if_pos hhas]
          exact insertUgidTrustee_mem _ _ _
        · exact .inl ⟨he, hhas⟩
      · obtain ⟨hne, hes⟩ := not_or.mp (mt List.mem_cons.mpr hother)
        refine .inr ⟨?_, hes⟩
        split
        next => exact mem_insertUgidTrustee_of_ne he hne
        next => exact he

theorem has_allRights_of_mem {ugidTrustees : List IdsTrustee} {e : IdsTrustee} {i : Nat}
    (he : e ∈ ugidTrustees) (hbit : Has e.trustee i) : Has (allRights ugidTrustees) i := by
  have hfold : ∀ (es : List IdsTrustee) (rights : Rights), Has rights i ∨ e ∈ es →
      Has (es.foldl (fun rights e => rights ||| e.trustee) rights) i := by
    intro es
    induction es with
    | nil => exact fun _ h => h.resolve_right List.not_mem_nil
    | cons e' es ih =>
        intro rights h
        refine ih _ ?_
        rw [has_or, or_assoc]
        rcases h with hrights | he
        · exact .inl hrights
        · rcases List.mem_cons.mp he with rfl | he
          · exact .inr (.inl hbit)
          · exact .inr (.inr he)
  exact hfold _ _ (.inr he)

theorem pathLinks_ok {tree : VolumeTree} (stb : FileStat) {parts : List UnixName}
    (hparts : ∀ part ∈ parts, (tree.stat part).isSome) (lastDev : UInt64) :
    (pathLinks tree stb parts lastDev).2.2 = true := by
  induction parts generalizing lastDev with
  | nil => rfl
  | cons part parts ih =>
      obtain ⟨st, hst⟩ := Option.isSome_iff_exists.mp (hparts part List.mem_cons_self)
      unfold pathLinks
      rw [hst]
      dsimp only
      split
      next => rfl
      next => exact ih (fun part hpart => hparts part (List.mem_cons_of_mem _ hpart)) _

theorem findBuildTrusteeNode_ne_noPath {tree : VolumeTree} {unixname : UnixName} {stb : FileStat}
    (hparts : ∀ part ∈ unixname.prefixes, (tree.stat part).isSome) :
    (findBuildTrusteeNode user tree disk cache volume unixname stb).1 ≠ .noPath := by
  have hok := pathLinks_ok stb hparts tree.root.dev
  unfold findBuildTrusteeNode
  split
  split
  next => nofun
  next =>
    split
    next =>
      generalize pathLinks tree stb unixname.prefixes tree.root.dev = path at *
      obtain ⟨links, lastDev, ok⟩ := path
      dsimp only at hok ⊢
      rw [if_pos hok]
      split <;> nofun
    next => nofun

end

/-! ## Whole runs -/

section

variable {world : TrusteeWorld} {volume : Nat} {unixname : UnixName} {stb : FileStat}

/-- The rights at a name, as they are found with nothing cached. -/
def uncachedRights (world : TrusteeWorld) (volume : Nat) (unixname : UnixName) : TrusteeAnswer :=
  ((trusteeMachine world).step .empty (.file volume unixname .effRights)).1

/-- An answer is rights without S. -/
def TrusteeAnswer.LacksS (answer : TrusteeAnswer) : Prop :=
  ∃ rights : Rights, answer = .value rights.toNat ∧ rights &&& trusteeS = 0

/-- A file of the path: the directory of the volume, one that the name goes through
or the one at its end. -/
def OnPath (tree : VolumeTree) (unixname : UnixName) (id : FileId) : Prop :=
  id = tree.root.id ∨ id ∈ ancestorIds tree unixname ∨ ∃ stb, tree.stat unixname = some stb ∧ stb.id = id

/-- A name of the path: that of the volume, of a directory or of the file itself. -/
def IsAbove (unixname part : UnixName) : Prop :=
  part = ⟨[], false⟩ ∨ part ∈ unixname.prefixes ∨ part = unixname

/-- The files of the path are reached through files of the path only, and their
entries are not more than are read. -/
structure OwnPath (tree : VolumeTree) (dirs : FileId → TrusteeDir) (unixname : UnixName) : Prop where
  root : ∃ stb, tree.stat ⟨[], false⟩ = some stb ∧ stb.id = tree.root.id
  ways : ∀ name stb, tree.stat name = some stb → OnPath tree unixname stb.id →
    ∀ part ∈ name.prefixes, ∀ st, tree.stat part = some st → OnPath tree unixname st.id
  read : ∀ id, OnPath tree unixname id →
    ((dirs id).entries.filter (·.id ≠ 0)).length ≤ maxTrustees

theorem TrusteeAnswer.LacksS.eq {rights : Rights}
    (h : TrusteeAnswer.LacksS (.value rights.toNat)) : ¬Has rights bitS := by
  obtain ⟨rights', heq, hlacks⟩ := h
  have hnat : rights.toNat = rights'.toNat := Int.ofNat.inj (TrusteeAnswer.value.inj heq)
  rw [UInt16.toNat_inj.mp hnat]
  exact lacks_iff.mp hlacks

/-- Who is found to have no S at a name has no entry that gives it there. -/
theorem lacks_of_uncachedRights (huser : PlainUser world.user)
    (htrustees : (world.tree volume).options.trustees = true)
    (hstat : (world.tree volume).stat unixname = some stb)
    (hparts : ∀ part ∈ unixname.prefixes, ((world.tree volume).stat part).isSome)
    (hroom : ((world.disk volume stb.id).entries.filter (·.id ≠ 0)).length ≤ maxTrustees)
    (hlacks : (uncachedRights world volume unixname).LacksS) :
    ∀ e ∈ (world.disk volume stb.id).entries, e.id ≠ 0 → world.user.has e.id = true →
      ¬Has e.trustee bitS := by
  intro e he hid hhas hbit
  have hpath := @findBuildTrusteeNode_ne_noPath world.user world.disk .empty volume
    (world.tree volume) unixname stb hparts
  unfold uncachedRights trusteeMachine trusteeRequest getEffRightsByTrustees at hlacks
  dsimp only at hlacks
  rw [hstat] at hlacks
  dsimp only at hlacks
  rw [if_pos htrustees,
    if_neg fun hsuper => Bool.false_ne_true (huser.equivalent.symm.trans hsuper.2)] at hlacks
  cases hbuilt : findBuildTrusteeNode world.user (world.tree volume) world.disk .empty volume
      unixname stb with
  | mk result cache =>
  rw [hbuilt] at hlacks hpath
  cases result with
  | noPath => exact hpath rfl
  | freed => exact (nomatch hlacks.choose_spec.1)
  | node tr =>
      obtain ⟨tr', ugidTrustees, hread, hvolume, htr', rfl⟩ :=
        findBuildTrusteeNode_read (congrArg Prod.fst hbuilt)
      rw [ReadNode, hvolume, htr'] at hread
      have hmem : e ∈ tr'.trustees := hread ▸ mem_readTrustees_of_le (by omega) he hid
      have hnodup : (tr'.trustees.map IdsTrustee.id).Nodup :=
        hread ▸ (world.disk volume stb.id).nodup.sublist ((readTrustees_sublist _ 0).map _)
      have hpassed := @mem_insert_trustees world.user _ (passTrustees world.user tr' ugidTrustees) e
        hnodup (.inl ⟨hmem, hhas⟩)
      have hall := has_allRights_of_mem hpassed hbit
      have hlacks := TrusteeAnswer.LacksS.eq hlacks
      unfold truGetEffRights at hlacks
      rw [has_or, has_and] at hlacks
      exact hlacks (.inl ⟨hall, by decide⟩)

theorem TrusteeAnswer.LacksS.stat (h : (uncachedRights world volume unixname).LacksS) :
    ((world.tree volume).stat unixname).isSome := by
  obtain ⟨rights, heq, -⟩ := h
  unfold uncachedRights trusteeMachine at heq
  dsimp only at heq
  split at heq
  next hstat => exact hstat ▸ rfl
  next => exact absurd (TrusteeAnswer.value.inj heq) (by omega)

theorem mem_prefixes_trans {a b c : UnixName} (hab : a ∈ b.prefixes) (hbc : b ∈ c.prefixes) :
    a ∈ c.prefixes := by
  obtain ⟨i, hi, rfl⟩ := List.mem_map.mp hbc
  obtain ⟨j, hj, rfl⟩ := List.mem_map.mp hab
  have hi := List.mem_range.mp hi
  have hj := List.mem_range.mp hj
  dsimp only at hj
  rw [List.length_take, if_neg Bool.false_ne_true] at hj
  refine List.mem_map.mpr ⟨j, List.mem_range.mpr (by omega), ?_⟩
  rw [List.take_take, Nat.min_eq_left (by omega)]

/-- Who has no S along a path has no entry there that gives it. -/
theorem safeDisk_of_lacks (huser : PlainUser world.user)
    (htrustees : (world.tree volume).options.trustees = true)
    (hpath : OwnPath (world.tree volume) (world.disk volume) unixname)
    (hlacks : ∀ part, IsAbove unixname part → (uncachedRights world volume part).LacksS) :
    SafeDisk world.user (fun volume' id => volume' = volume ∧ OnPath (world.tree volume) unixname id)
      world.disk := by
  intro volume' id hP
  obtain ⟨hvolume, hid⟩ := hP
  rw [hvolume]
  have hparts : ∀ part ∈ unixname.prefixes, ((world.tree volume).stat part).isSome :=
    fun part hpart => (hlacks part (.inr (.inl hpart))).stat
  have hroom := hpath.read id hid
  rcases hid with rfl | hdir | ⟨stb, hstat, rfl⟩
  · obtain ⟨stb, hstat, hroot⟩ := hpath.root
    rw [← hroot] at hroom ⊢
    exact lacks_of_uncachedRights huser htrustees hstat (fun part hpart => (nomatch hpart)) hroom
      (hlacks _ (.inl rfl))
  · obtain ⟨part, hpart, heq⟩ := List.mem_filterMap.mp hdir
    obtain ⟨stb, hstat, rfl⟩ := Option.map_eq_some_iff.mp heq
    exact lacks_of_uncachedRights huser htrustees hstat
      (fun part' hpart' => hparts part' (mem_prefixes_trans hpart' hpart)) hroom
      (hlacks part (.inr (.inl hpart)))
  · exact lacks_of_uncachedRights huser htrustees hstat hparts hroom (hlacks _ (.inr (.inr rfl)))

theorem OwnPath.oneWay (hpath : OwnPath (world.tree volume) (world.disk volume) unixname) :
    OneWay (fun volume' id => volume' = volume ∧ OnPath (world.tree volume) unixname id)
      world.tree := by
  intro volume' name stb hstat hP
  obtain ⟨rfl, hid⟩ := hP
  exact ⟨⟨rfl, .inl rfl⟩, fun part hpart st hst =>
    ⟨rfl, hpath.ways name stb hstat hid part hpart st hst⟩⟩

/-- In a safe state no rights with S are found at a file of `P`. -/
theorem SafeState.rights {P : Nat → FileId → Prop} {place : TrusteeDir → Nat} {s : TrusteeState}
    {rights : Rights}
    (hs : (world.tree volume).options.trustees = true → SafeState world.user P s)
    (huser : PlainUser world.user) (hways : OneWay P world.tree)
    (hstat : (world.tree volume).stat unixname = some stb) (hP : P volume stb.id)
    (hanswer : ((writeMachine place world).step s (.ask (.file volume unixname .effRights))).1 =
      .value rights.toNat) : ¬Has rights bitS := by
  have hunix := @lacks_rightsByUnix world volume unixname stb huser.uid
  unfold writeMachine trusteeMachine trusteeRequest at hanswer
  dsimp only at hanswer
  rw [hstat] at hanswer
  dsimp only at hanswer
  split at hanswer
  next htrustees =>
    have hsafe := hs htrustees
    obtain ⟨-, hrights⟩ := @SafeCache.getEff P { world with disk := s.disk } s.cache volume unixname
      stb hsafe.cache hsafe.disk huser hways hstat
    split at hanswer
    next found cache hfound =>
      have heq := Int.ofNat.inj (TrusteeAnswer.value.inj hanswer)
      rw [← UInt16.toNat_inj.mp heq]
      exact lacks_truGetEffRights (hrights found (congrArg Prod.fst hfound) hP) hunix
    next => contradiction
  next =>
    have heq := Int.ofNat.inj (TrusteeAnswer.value.inj hanswer)
    rw [← UInt16.toNat_inj.mp heq]
    exact lacks_truGetEffRights (not_has_zero _) hunix

/-- A user without S at a file and above it, whatever trustees he writes, is not found
to have it there, if the file and the directories above it are reached on their own path. -/
theorem supervisor_not_self_granted (place : TrusteeDir → Nat) (world : TrusteeWorld)
    (volume : Nat) (unixname : UnixName) (huser : PlainUser world.user)
    (hpath : OwnPath (world.tree volume) (world.disk volume) unixname)
    (hlacks : ∀ part, IsAbove unixname part → (uncachedRights world volume part).LacksS)
    (writes : List TrusteeWrite)
    (hkept : (writeMachine place world).Along
      (fun s e => ((writeMachine place world).step s e).1 ≠ .freed) ⟨world.disk, .empty⟩ writes)
    (rights : Rights)
    (hanswer : ((writeMachine place world).step
      ((writeMachine place world).exec ⟨world.disk, .empty⟩ writes)
      (.ask (.file volume unixname .effRights))).1 = .value rights.toNat) :
    rights &&& trusteeS = 0 := by
  obtain ⟨stb, hstat⟩ := Option.isSome_iff_exists.mp (hlacks unixname (.inr (.inr rfl))).stat
  let P : Nat → FileId → Prop :=
    fun volume' id => volume' = volume ∧ OnPath (world.tree volume) unixname id
  have hways : OneWay P world.tree := hpath.oneWay
  have hon : P volume stb.id := ⟨rfl, .inr (.inr ⟨stb, hstat, rfl⟩)⟩
  refine lacks_iff.mpr (SafeState.rights (fun htrustees => ?_) huser hways hstat hon hanswer)
  have hsafe : SafeState world.user P ⟨world.disk, .empty⟩ :=
    ⟨safeDisk_of_lacks huser htrustees hpath hlacks, fun tr htr => by contradiction⟩
  exact (writeMachine place world).exec_invariant
    (fun s e hs _ => hs.step huser hways place e) hsafe hkept

/-- A user without S at a file and above it is found to have it after he has written
trustees. -/
def SelfGranted (world : TrusteeWorld) (volume : Nat) (unixname : UnixName)
    (writes : List TrusteeWrite) : Prop :=
  let machine := writeMachine (fun _ => 0) world
  PlainUser world.user ∧
    (∀ part, IsAbove unixname part → (uncachedRights world volume part).LacksS) ∧
    machine.Along (fun s e => (machine.step s e).1 ≠ .freed) ⟨world.disk, .empty⟩ writes ∧
    ∃ rights : Rights, (machine.step (machine.exec ⟨world.disk, .empty⟩ writes)
      (.ask (.file volume unixname .effRights))).1 = .value rights.toNat ∧ rights &&& trusteeS ≠ 0

end

/-- A volume with the directories A and B and a file that is f in both, for the user 5. -/
def grantWorld (disk : TrusteeDisk) : TrusteeWorld where
  tree := hardLinkWorld.tree
  disk := disk
  user := ⟨5, false, [], 100⟩
  defaultUid := 0

/-- In A the user has the rights S and A, in B the right A. -/
def supervisorInA : TrusteeDisk :=
  fun _ id =>
    if id = ⟨1, 2⟩ then .single ⟨5, 0x120⟩
    else if id = ⟨1, 3⟩ then .single ⟨5, 0x20⟩
    else .noOne

/-- In the root the user has the right A, in B there are as many trustees as are read
and one more, which gives him S. -/
def supervisorUnread : TrusteeDisk :=
  fun _ id =>
    if id = ⟨1, 1⟩ then .single ⟨5, 0x20⟩
    else if id = ⟨1, 3⟩ then
      ⟨(List.range maxTrustees).map (fun i => ⟨UInt32.ofNat (1000 + i), 0⟩) ++ [⟨5, 0x120⟩],
        by decide +kernel⟩
    else .noOne

theorem isAbove_file {a b part : UnixName} (hprefixes : b.prefixes = [a]) (h : IsAbove b part) :
    part = ⟨[], false⟩ ∨ part = a ∨ part = b := by
  unfold IsAbove at h
  rwa [hprefixes, List.mem_singleton] at h

theorem not_supervisor_not_self_granted :
    SelfGranted (grantWorld supervisorInA) 0 ⟨[[0x42], [0x66]], false⟩
        [.addTrusteeSet 0 ⟨[[0x41], [0x66]], false⟩ [⟨5, 0x100⟩]] ∧
      SelfGranted (grantWorld supervisorUnread) 0 ⟨[[0x42]], false⟩
        [.delTrustee 0 ⟨[[0x42]], false⟩ 1000] := by
  refine ⟨⟨⟨rfl, by decide⟩, ?_, ⟨by decide, trivial⟩, 0x100, by decide, by decide⟩,
    ⟨⟨rfl, by decide⟩, ?_, ⟨by decide +kernel, trivial⟩, 0x120, by decide +kernel, by decide⟩⟩
  · intro part hpart
    rcases isAbove_file (a := ⟨[[0x42]], false⟩) rfl hpart with rfl | rfl | rfl
    · exact ⟨0, by decide, rfl⟩
    · exact ⟨0x20, by decide, rfl⟩
    · exact ⟨0x20, by decide, rfl⟩
  · rintro part (rfl | hpart | rfl)
    · exact ⟨0x20, by decide +kernel, rfl⟩
    · contradiction
    · exact ⟨0x20, by decide +kernel, rfl⟩

/-- B and the root are reached by their names only. -/
theorem ownPath_grantWorld :
    OwnPath ((grantWorld supervisorInA).tree 0) ((grantWorld supervisorInA).disk 0)
      ⟨[[0x42]], false⟩ := by
  have hon : ∀ id, OnPath ((grantWorld supervisorInA).tree 0) ⟨[[0x42]], false⟩ id →
      id = ⟨1, 1⟩ ∨ id = ⟨1, 3⟩ := by
    rintro id (rfl | hdir | ⟨stb, hstat, rfl⟩)
    · exact .inl rfl
    · contradiction
    · obtain rfl := Option.some.inj hstat
      exact .inr rfl
  refine ⟨⟨_, rfl, rfl⟩, ?_, ?_⟩
  · rintro ⟨comps, slash⟩ stb hstat hid part hpart st hst
    have hcomps : comps = [] ∨ comps = [[0x42]] := by
      unfold grantWorld hardLinkWorld at hstat
      dsimp only at hstat
      repeat' split at hstat
      all_goals
        first
        | contradiction
        | obtain rfl := Option.some.inj hstat
          rcases hon _ hid with heq | heq <;> first | contradiction | simp_all
    rcases hcomps with rfl | rfl
    · cases slash <;> contradiction
    · cases slash
      · contradiction
      · obtain rfl := List.mem_singleton.mp hpart
        exact .inr (.inr ⟨st, hst, rfl⟩)
  · intro id hid
    rcases hon id hid with rfl | rfl <;> decide

/-- With S for the file in A, and all rights for himself in B, the user has all in B but S. -/
theorem supervisor_not_self_granted_inB :
    ∃ rights : Rights,
      ((writeMachine (fun _ => 0) (grantWorld supervisorInA)).step
        ((writeMachine (fun _ => 0) (grantWorld supervisorInA)).exec ⟨supervisorInA, .empty⟩
          [.addTrusteeSet 0 ⟨[[0x41], [0x66]], false⟩ [⟨5, 0x100⟩],
            .addTrusteeSet 0 ⟨[[0x42]], false⟩ [⟨5, 0x1ff⟩]])
        (.ask (.file 0 ⟨[[0x42]], false⟩ .effRights))).1 = .value rights.toNat ∧
      rights = 0xff ∧ rights &&& trusteeS = 0 := by
  refine ⟨0xff, by decide, rfl, ?_⟩
  refine supervisor_not_self_granted (fun _ => 0) (grantWorld supervisorInA) 0 ⟨[[0x42]], false⟩
    ⟨rfl, by decide⟩ ownPath_grantWorld ?_
    [.addTrusteeSet 0 ⟨[[0x41], [0x66]], false⟩ [⟨5, 0x100⟩],
      .addTrusteeSet 0 ⟨[[0x42]], false⟩ [⟨5, 0x1ff⟩]]
    ⟨by decide, by decide, trivial⟩ 0xff (by decide)
  rintro part (rfl | hpart | rfl)
  · exact ⟨0, by decide, rfl⟩
  · contradiction
  · exact ⟨0x20, by decide, rfl⟩

end MarsNwe
