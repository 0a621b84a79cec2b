import MarsNwe.Trustee.RightsCache
import MarsNwe.Trustee.Ways

/-! # When cached rights are those of an empty cache

A node keeps the way on which its rights were built. Answers from the cache are
right as long as a file is asked for on ways only that pass trustees on as that one
does, the flags of the nodes are of the kind that the way gives them, and no walk frees
the node it is for.
-/

namespace MarsNwe

/-! ## The ways that rights were built on -/

/-- The way on which the rights in the node of a file were built last. -/
abbrev BuiltWays := Nat → FileId → List PathLink

def BuiltWays.set (built : BuiltWays) (volume : Nat) (id : FileId) (way : List PathLink) :
    BuiltWays :=
  fun volume' id' => if volume' = volume ∧ id' = id then way else built volume' id'

/-- The ways after a walk over `rest` that has passed `done`. -/
def markWay (built : BuiltWays) (volume : Nat) (done : List PathLink) :
    List PathLink → BuiltWays
  | [] => built
  | link :: rest =>
      markWay (built.set volume link.id (done ++ [link])) volume (done ++ [link]) rest

/-- The cache with the ways of its nodes. -/
structure CacheTrace where
  cache : TrusteeCache
  built : BuiltWays

/-- The request asks for the rights that trustees give. -/
def TrusteeWorld.BuildsRights (world : TrusteeWorld) (volume : Nat) (request : TrusteeRequest) :
    Prop :=
  request.isRights = true ∧ (world.tree volume).options.trustees = true ∧
    ¬(world.user.objId = 1 ∧ world.user.equivalent = true)

instance (world : TrusteeWorld) (volume : Nat) (request : TrusteeRequest) :
    Decidable (world.BuildsRights volume request) :=
  inferInstanceAs (Decidable (_ ∧ _))

/-- The rights at a file are not cached. -/
def Unbuilt (cache : TrusteeCache) (volume : Nat) (id : FileId) : Prop :=
  (cache.at? volume id).bind FileTrusteeNode.effRights = none

instance (cache : TrusteeCache) (volume : Nat) (id : FileId) : Decidable (Unbuilt cache volume id) :=
  inferInstanceAs (Decidable (_ = _))

/-- The ways after a call. -/
def builtAfter (world : TrusteeWorld) (trace : CacheTrace) : TrusteeCall → BuiltWays
  | .file volume unixname request =>
      match (world.tree volume).stat unixname with
      | some stb =>
          if world.BuildsRights volume request ∧ Unbuilt trace.cache volume stb.id then
            let (dirs, file, ok) := wayLinks (world.tree volume) unixname stb
            markWay trace.built volume [] (dirs ++ if ok then [file] else [])
          else trace.built
      | none => trace.built
  | .freeCache _ => trace.built

/-- The trustee routines, with the ways of the nodes. -/
def traceMachine (world : TrusteeWorld) : Machine CacheTrace TrusteeCall TrusteeAnswer where
  step trace call :=
    let (answer, cache) := (trusteeMachine world).step trace.cache call
    (answer, ⟨cache, builtAfter world trace call⟩)

/-! ## The condition -/

section

variable (world : TrusteeWorld) (cache : TrusteeCache) (volume : Nat) (unixname : UnixName)
  (stb : FileStat)

/-- The nodes added on the walk do not free the node of the file. -/
def FileKept : Prop :=
  let tree := world.tree volume
  let start := (findCreatAddTrusteeNode tree world.disk cache volume unixname stb).2
  (((wayLinks tree unixname stb).1.foldl (walkLink world.user world.disk volume)
    (start, [])).1.at? volume stb.id).isSome

/-- A walk goes through no directory twice, finds no node with flags that another name
has given it, and keeps the node of the file. -/
structure WalkFits : Prop where
  nodup : ((wayLinks (world.tree volume) unixname stb).1.map PathLink.id).Nodup
  notFile : stb.id ∉ (wayLinks (world.tree volume) unixname stb).1.map PathLink.id
  kinds : ∀ link ∈ (wayLinks (world.tree volume) unixname stb).1 ++
      [(wayLinks (world.tree volume) unixname stb).2.1],
    ∀ tr ∈ cache, tr.volume = volume → tr.id = link.id →
      SameKind (tr.modeFlags ||| link.modeFlags) (link.modeFlags ||| link.newFlags)
  kept : (wayLinks (world.tree volume) unixname stb).2.2 = true →
    FileKept world cache volume unixname stb

end

/-- The condition on a call: rights in the cache were built on a way like the one of the
call, and the walks that this cache and an empty one need fit. -/
def CallFits (world : TrusteeWorld) (trace : CacheTrace) : TrusteeCall → Prop
  | .file volume unixname request =>
      world.BuildsRights volume request →
        ∀ stb, (world.tree volume).stat unixname = some stb →
          (Unbuilt trace.cache volume stb.id →
            WalkFits world trace.cache volume unixname stb) ∧
          (¬Unbuilt trace.cache volume stb.id →
            ∃ way, wayTo (world.tree volume) unixname stb = some way ∧
              SameWay way (trace.built volume stb.id)) ∧
          WalkFits world .empty volume unixname stb
  | .freeCache _ => True

/-! ## Sound nodes -/

section

variable (world : TrusteeWorld)

/-- A node holds what is on disk, and rights of the way they were built on. -/
def SoundNode (built : BuiltWays) (tr : FileTrusteeNode) : Prop :=
  Intact world.disk tr ∧ ∀ rights, tr.effRights = some rights →
    rights = rightsAlong world.user world.disk tr.volume (built tr.volume tr.id)

def SoundCache (built : BuiltWays) (cache : TrusteeCache) : Prop :=
  ∀ tr ∈ cache, SoundNode world built tr

variable {world}

/-- What a walk does at a directory depends on its link and the trustees on disk, and
it changes no other node but for the time it has been idle. -/
theorem walkLink_spec {cache : TrusteeCache} {volume : Nat} {link : PathLink}
    (hintact : ∀ tr ∈ cache, Intact world.disk tr)
    (hkind : ∀ tr ∈ cache, tr.volume = volume → tr.id = link.id →
      SameKind (tr.modeFlags ||| link.modeFlags) (link.modeFlags ||| link.newFlags))
    (ugidTrustees : List IdsTrustee) :
    ∃ tr1, tr1.volume = volume ∧ tr1.id = link.id ∧ Intact world.disk tr1 ∧
      SameKind tr1.modeFlags (link.modeFlags ||| link.newFlags) ∧
      (walkLink world.user world.disk volume (cache, ugidTrustees) link).2 =
        (buildTrusteeRights world.user tr1 ugidTrustees).2 ∧
      ∀ tr ∈ (walkLink world.user world.disk volume (cache, ugidTrustees) link).1,
        tr = (buildTrusteeRights world.user tr1 ugidTrustees).1 ∨
        ∃ old ∈ cache, ¬(old.volume = volume ∧ old.id = link.id) ∧
          ∃ idle, tr = { old with idle := idle } := by
  unfold walkLink findTrusteeNode
  dsimp only
  cases hat : cache.at? volume link.id with
  | some found =>
      obtain ⟨hmem, hvolume, hid⟩ := TrusteeCache.at?_eq_some hat
      refine ⟨{ found with idle := 0, modeFlags := found.modeFlags ||| link.modeFlags }, hvolume,
        hid, (hintact found hmem).or_flags link.modeFlags, hkind found hmem hvolume hid, rfl, ?_⟩
      intro tr htr
      rcases TrusteeCache.mem_put htr with heq | ⟨hold, hother⟩
      · exact .inl heq
      · rcases TrusteeCache.mem_put hold with heq | ⟨hold, -⟩
        · subst heq
          exact absurd ⟨rfl, rfl⟩ hother
        · refine .inr ⟨tr, hold, ?_, tr.idle, rfl⟩
          rw [← hvolume, ← hid]
          exact hother
  | none =>
      refine ⟨freshNode world.disk volume link, rfl, rfl, intact_createTrusteeNode _ _ _ _,
        ⟨Iff.rfl, Iff.rfl⟩, rfl, ?_⟩
      intro tr htr
      rcases TrusteeCache.mem_put htr with heq | ⟨hold, hother⟩
      · exact .inl heq
      · rcases AgedSlots.mem_insert hold with heq | ⟨old, hmem, heq⟩
        · subst heq
          exact absurd ⟨rfl, rfl⟩ hother
        · subst heq
          exact .inr ⟨old, hmem, hother, _, rfl⟩

/-- A node that has been built at the end of a way is sound. -/
theorem SoundNode.of_built {built : BuiltWays} {volume : Nat} {link : PathLink}
    {way : List PathLink} {tr1 : FileTrusteeNode} (hvolume : tr1.volume = volume)
    (hid : tr1.id = link.id) (hintact : Intact world.disk tr1)
    (hkind : SameKind tr1.modeFlags (link.modeFlags ||| link.newFlags)) :
    (buildTrusteeRights world.user tr1 (trusteesAlong world.user world.disk volume way)).2 =
        trusteesAlong world.user world.disk volume (way ++ [link]) ∧
      SoundNode world (built.set volume link.id (way ++ [link]))
        (buildTrusteeRights world.user tr1 (trusteesAlong world.user world.disk volume way)).1 := by
  have hbuilt : (buildTrusteeRights world.user tr1
      (trusteesAlong world.user world.disk volume way)).2 =
      trusteesAlong world.user world.disk volume (way ++ [link]) := by
    rw [trusteesAlong_concat]
    exact buildTrusteeRights_congr hintact (intact_createTrusteeNode _ _ _ _) hvolume hid hkind _ _
  refine ⟨hbuilt, intact_buildTrusteeRights hintact _ _, fun rights hrights => ?_⟩
  rw [effRights_buildTrusteeRights, hbuilt] at hrights
  have hway : (built.set volume link.id (way ++ [link])) tr1.volume tr1.id = way ++ [link] :=
    if_pos ⟨hvolume, hid⟩
  have hvolume' : (buildTrusteeRights world.user tr1
      (trusteesAlong world.user world.disk volume way)).1.volume = volume := hvolume
  have hway' : (built.set volume link.id (way ++ [link]))
      (buildTrusteeRights world.user tr1 (trusteesAlong world.user world.disk volume way)).1.volume
      (buildTrusteeRights world.user tr1 (trusteesAlong world.user world.disk volume way)).1.id =
      way ++ [link] := hway
  rw [hway', hvolume']
  exact (Option.some.inj hrights).symm

theorem SoundNode.of_other {built : BuiltWays} {tr : FileTrusteeNode}
    (h : SoundNode world built tr) {volume : Nat} {id : FileId}
    (hother : ¬(tr.volume = volume ∧ tr.id = id)) (way : List PathLink) (idle : Nat) :
    SoundNode world (built.set volume id way) { tr with idle := idle } := by
  refine ⟨h.1, fun rights hrights => ?_⟩
  have hway : (built.set volume id way) tr.volume tr.id = built tr.volume tr.id := if_neg hother
  show rights = rightsAlong world.user world.disk tr.volume _
  rw [hway]
  exact h.2 rights hrights

/-- A node that has been built at the end of a way and is put into the cache. -/
theorem SoundCache.put_built {built : BuiltWays} {cache : TrusteeCache}
    (hsound : SoundCache world built cache) {volume : Nat} (link : PathLink)
    (way : List PathLink) {tr : FileTrusteeNode} (hvolume : tr.volume = volume)
    (hid : tr.id = link.id) (hintact : Intact world.disk tr)
    (hkind : SameKind (tr.modeFlags ||| link.modeFlags) (link.modeFlags ||| link.newFlags)) :
    (buildTrusteeRights world.user { tr with modeFlags := tr.modeFlags ||| link.modeFlags }
        (trusteesAlong world.user world.disk volume way)).1.effRights =
      some (rightsAlong world.user world.disk volume (way ++ [link])) ∧
    SoundCache world (built.set volume link.id (way ++ [link]))
      (cache.put
        (buildTrusteeRights world.user { tr with modeFlags := tr.modeFlags ||| link.modeFlags }
          (trusteesAlong world.user world.disk volume way)).1) := by
  obtain ⟨htrustees, hnode⟩ := @SoundNode.of_built world built volume link way
    { tr with modeFlags := tr.modeFlags ||| link.modeFlags } hvolume hid (hintact.or_flags _) hkind
  refine ⟨?_, fun tr' htr' => ?_⟩
  · rw [effRights_buildTrusteeRights, htrustees]
    rfl
  · rcases TrusteeCache.mem_put htr' with rfl | ⟨hold, hother⟩
    · exact hnode
    · have hother' : ¬(tr'.volume = volume ∧ tr'.id = link.id) := by
        rw [← hvolume, ← hid]
        exact hother
      exact (hsound tr' hold).of_other hother' _ tr'.idle

/-- A walk builds the trustees of its way and leaves sound nodes. -/
theorem walk_sound (volume : Nat) (rest : List PathLink) :
    ∀ (done : List PathLink) (cache : TrusteeCache) (built : BuiltWays),
      SoundCache world built cache → (rest.map PathLink.id).Nodup →
      (∀ link ∈ rest, ∀ tr ∈ cache, tr.volume = volume → tr.id = link.id →
        SameKind (tr.modeFlags ||| link.modeFlags) (link.modeFlags ||| link.newFlags)) →
      (rest.foldl (walkLink world.user world.disk volume)
          (cache, trusteesAlong world.user world.disk volume done)).2 =
        trusteesAlong world.user world.disk volume (done ++ rest) ∧
      SoundCache world (markWay built volume done rest)
        (rest.foldl (walkLink world.user world.disk volume)
          (cache, trusteesAlong world.user world.disk volume done)).1 ∧
      ∀ tr ∈ (rest.foldl (walkLink world.user world.disk volume)
          (cache, trusteesAlong world.user world.disk volume done)).1,
        tr.volume = volume → tr.id ∉ rest.map PathLink.id →
        ∃ old ∈ cache, ∃ idle, tr = { old with idle := idle } := by
  induction rest with
  | nil =>
      intro done cache built hsound hnodup hkinds
      rw [List.append_nil]
      exact ⟨rfl, hsound, fun tr htr _ _ => ⟨tr, htr, tr.idle, rfl⟩⟩
  | cons link rest ih =>
      intro done cache built hsound hnodup hkinds
      obtain ⟨hnew, hrest⟩ := List.nodup_cons.mp hnodup
      obtain ⟨tr1, hvolume, hid, hintact, hkind, htrustees, hmembers⟩ :=
        walkLink_spec (fun tr htr => (hsound tr htr).1) (hkinds link List.mem_cons_self)
          (trusteesAlong world.user world.disk volume done)
      have hbuilt : (buildTrusteeRights world.user tr1
            (trusteesAlong world.user world.disk volume done)).2 =
            trusteesAlong world.user world.disk volume (done ++ [link]) ∧
          SoundNode world (built.set volume link.id (done ++ [link]))
            (buildTrusteeRights world.user tr1
              (trusteesAlong world.user world.disk volume done)).1 :=
        SoundNode.of_built hvolume hid hintact hkind
      -- the state after this directory
      generalize hstate : walkLink world.user world.disk volume
        (cache, trusteesAlong world.user world.disk volume done) link = state at *
      obtain ⟨cache', ugidTrustees'⟩ := state
      have hugid : ugidTrustees' = trusteesAlong world.user world.disk volume (done ++ [link]) :=
        htrustees.trans hbuilt.1
      subst hugid
      have hsound' : SoundCache world (built.set volume link.id (done ++ [link])) cache' := by
        intro tr htr
        rcases hmembers tr htr with rfl | ⟨old, hold, hother, idle, rfl⟩
        · exact hbuilt.2
        · exact (hsound old hold).of_other hother _ idle
      have hkinds' : ∀ link' ∈ rest, ∀ tr ∈ cache', tr.volume = volume → tr.id = link'.id →
          SameKind (tr.modeFlags ||| link'.modeFlags) (link'.modeFlags ||| link'.newFlags) := by
        intro link' hlink' tr htr htrvolume htrid
        rcases hmembers tr htr with rfl | ⟨old, hold, -, idle, rfl⟩
        · have hsame : link.id = link'.id := hid.symm.trans htrid
          exact absurd (hsame ▸ List.mem_map_of_mem hlink') hnew
        · exact hkinds link' (List.mem_cons_of_mem _ hlink') old hold htrvolume htrid
      obtain ⟨hfst, hsnd, hthd⟩ := ih (done ++ [link]) cache' _ hsound' hrest hkinds'
      rw [List.foldl_cons, hstate]
      refine ⟨?_, hsnd, ?_⟩
      · rw [hfst, List.append_assoc, List.singleton_append]
      · intro tr htr htrvolume hnot
        rw [List.map_cons, List.mem_cons, not_or] at hnot
        obtain ⟨mid, hmid, idle, rfl⟩ := hthd tr htr htrvolume hnot.2
        rcases hmembers mid hmid with rfl | ⟨old, hold, -, idle', rfl⟩
        · exact absurd hid hnot.1
        · exact ⟨old, hold, idle, rfl⟩

theorem markWay_concat (built : BuiltWays) (volume : Nat) (rest : List PathLink) (link : PathLink)
    (done : List PathLink) :
    markWay built volume done (rest ++ [link]) =
      (markWay built volume done rest).set volume link.id (done ++ rest ++ [link]) := by
  induction rest generalizing built done with
  | nil => rw [List.append_nil]; rfl
  | cons head rest ih =>
      rw [List.cons_append, markWay, ih, markWay, List.append_assoc done [head] rest,
        List.singleton_append]

/-- A node that is found or made for a file. -/
theorem findCreatAddTrusteeNode_spec {cache : TrusteeCache} (tree : VolumeTree) (volume : Nat)
    (unixname : UnixName) (stb : FileStat) (hintact : ∀ tr ∈ cache, Intact world.disk tr) :
    ∃ tr, (findCreatAddTrusteeNode tree world.disk cache volume unixname stb).1 = tr ∧
      tr.volume = volume ∧ tr.id = stb.id ∧ Intact world.disk tr ∧
      tr.effRights = (cache.at? volume stb.id).bind FileTrusteeNode.effRights ∧
      (tr.modeFlags = (if stb.isDir then 1 else 0) ||| symlinkFlag tree unixname stb ∨
        ∃ old ∈ cache, old.volume = volume ∧ old.id = stb.id ∧ tr.modeFlags = old.modeFlags) ∧
      ∀ tr' ∈ (findCreatAddTrusteeNode tree world.disk cache volume unixname stb).2, tr' = tr ∨
        ∃ old ∈ cache, ¬(old.volume = volume ∧ old.id = stb.id) ∧
          ∃ idle, tr' = { old with idle := idle } := by
  unfold findCreatAddTrusteeNode findTrusteeNode
  dsimp only
  cases hat : cache.at? volume stb.id with
  | some found =>
      obtain ⟨hmem, hvolume, hid⟩ := TrusteeCache.at?_eq_some hat
      refine ⟨_, rfl, hvolume, hid, hintact found hmem, rfl,
        .inr ⟨found, hmem, hvolume, hid, rfl⟩, ?_⟩
      intro tr' htr'
      rcases TrusteeCache.mem_put htr' with heq | ⟨hold, hother⟩
      · exact .inl heq
      · refine .inr ⟨tr', hold, ?_, tr'.idle, rfl⟩
        rw [← hvolume, ← hid]
        exact hother
  | none =>
      refine ⟨_, rfl, rfl, rfl, intact_createTrusteeNode _ _ _ _, rfl, .inl rfl, ?_⟩
      intro tr' htr'
      rcases AgedSlots.mem_insert htr' with heq | ⟨old, hmem, heq⟩
      · exact .inl heq
      · exact .inr ⟨old, hmem, TrusteeCache.not_at?_eq_none hat hmem, _, heq⟩

theorem findCreatAddTrusteeNode_sound {built : BuiltWays} {cache : TrusteeCache}
    (hsound : SoundCache world built cache) (tree : VolumeTree) (volume : Nat)
    (unixname : UnixName) (stb : FileStat) :
    SoundCache world built
      (findCreatAddTrusteeNode tree world.disk cache volume unixname stb).2 := by
  obtain ⟨tr, -, hvolume, hid, hintact, heff, -, hmembers⟩ :=
    findCreatAddTrusteeNode_spec tree volume unixname stb
      fun tr htr => (hsound tr htr).1
  intro tr' htr'
  rcases hmembers tr' htr' with rfl | ⟨old, hold, -, idle, rfl⟩
  · refine ⟨hintact, fun rights hrights => ?_⟩
    rw [heff, Option.bind_eq_some_iff] at hrights
    obtain ⟨found, hat, hfound⟩ := hrights
    obtain ⟨hmem, hvolume', hid'⟩ := TrusteeCache.at?_eq_some hat
    rw [hvolume, hid, ← hvolume', ← hid']
    exact (hsound found hmem).2 rights hfound
  · exact hsound old hold

/-- The rights at the end of the way to a file; none without a way. -/
def wayRights (world : TrusteeWorld) (volume : Nat) (unixname : UnixName) (stb : FileStat) :
    Rights :=
  match wayTo (world.tree volume) unixname stb with
  | some way => rightsAlong world.user world.disk volume way
  | none => 0

/-- A file whose rights are cached. -/
theorem findBuildTrusteeNode_built {built : BuiltWays} {cache : TrusteeCache}
    (hsound : SoundCache world built cache) {volume : Nat} (unixname : UnixName) {stb : FileStat}
    (hbuilt : ¬Unbuilt cache volume stb.id) :
    ∃ tr, findBuildTrusteeNode world.user (world.tree volume) world.disk cache volume unixname stb =
        (.node tr, (findCreatAddTrusteeNode (world.tree volume) world.disk cache volume unixname
          stb).2) ∧
      tr.effRights = some (rightsAlong world.user world.disk volume (built volume stb.id)) := by
  obtain ⟨tr, htr, hvolume, hid, hintact, heff, -, -⟩ :=
    findCreatAddTrusteeNode_spec (world.tree volume) volume unixname stb
      fun tr htr => (hsound tr htr).1
  have hsome : tr.effRights.isSome = true := by
    rw [heff]
    exact Option.isSome_iff_ne_none.mpr hbuilt
  refine ⟨tr, ?_, ?_⟩
  · unfold findBuildTrusteeNode
    dsimp only
    rw [htr, if_pos hsome]
  · obtain ⟨rights, hrights⟩ := Option.isSome_iff_exists.mp hsome
    obtain ⟨found, hat, hfound⟩ := Option.bind_eq_some_iff.mp (heff.symm.trans hrights)
    obtain ⟨hmem, hvolume', hid'⟩ := TrusteeCache.at?_eq_some hat
    have hrights' := (hsound found hmem).2 rights hfound
    rw [hvolume', hid'] at hrights'
    rw [hrights, hrights']

/-- A node that is found or made for a link has the kind of the link. -/
theorem sameKind_of_start {cache : TrusteeCache} {volume : Nat} {link : PathLink}
    {modeFlags : UInt8}
    (hflags : modeFlags = link.newFlags ∨
      ∃ old ∈ cache, old.volume = volume ∧ old.id = link.id ∧ modeFlags = old.modeFlags)
    (hkinds : ∀ tr ∈ cache, tr.volume = volume → tr.id = link.id →
      SameKind (tr.modeFlags ||| link.modeFlags) (link.modeFlags ||| link.newFlags)) :
    SameKind (modeFlags ||| link.modeFlags) (link.modeFlags ||| link.newFlags) := by
  rcases hflags with rfl | ⟨old, hold, hvolume, hid, rfl⟩
  · rw [UInt8.or_comm]
    exact ⟨Iff.rfl, Iff.rfl⟩
  · exact hkinds old hold hvolume hid

/-- The walk to a file leaves the node of the file as it was found or made. -/
theorem walk_to_file {built : BuiltWays} {cache cache' : TrusteeCache} {volume : Nat}
    {dirs : List PathLink} {tr : FileTrusteeNode} (hsound : SoundCache world built cache')
    (hmembers : ∀ tr' ∈ cache', tr' = tr ∨
      ∃ old ∈ cache, ¬(old.volume = volume ∧ old.id = tr.id) ∧
        ∃ idle, tr' = { old with idle := idle })
    (hnodup : (dirs.map PathLink.id).Nodup) (hnotFile : tr.id ∉ dirs.map PathLink.id)
    (hkinds : ∀ link ∈ dirs, ∀ tr ∈ cache, tr.volume = volume → tr.id = link.id →
      SameKind (tr.modeFlags ||| link.modeFlags) (link.modeFlags ||| link.newFlags)) :
    (dirs.foldl (walkLink world.user world.disk volume) (cache', [])).2 =
        trusteesAlong world.user world.disk volume dirs ∧
      SoundCache world (markWay built volume [] dirs)
        (dirs.foldl (walkLink world.user world.disk volume) (cache', [])).1 ∧
      ∀ kept, (dirs.foldl (walkLink world.user world.disk volume) (cache', [])).1.at? volume
          tr.id = some kept → ∃ idle, kept = { tr with idle := idle } := by
  have hkinds' : ∀ link ∈ dirs, ∀ tr ∈ cache', tr.volume = volume → tr.id = link.id →
      SameKind (tr.modeFlags ||| link.modeFlags) (link.modeFlags ||| link.newFlags) := by
    intro link hlink tr' htr' htrvolume htrid
    rcases hmembers tr' htr' with rfl | ⟨old, hold, -, idle, rfl⟩
    · exact absurd (List.mem_map.mpr ⟨link, hlink, htrid.symm⟩) hnotFile
    · exact hkinds link hlink old hold htrvolume htrid
  obtain ⟨htrustees, hsoundWalk, hwalkMembers⟩ :=
    walk_sound volume dirs [] cache' built hsound hnodup hkinds'
  refine ⟨htrustees, hsoundWalk, fun kept hat => ?_⟩
  obtain ⟨hmem, hkeptVolume, hkeptId⟩ := TrusteeCache.at?_eq_some hat
  obtain ⟨old, hold, idle, rfl⟩ := hwalkMembers kept hmem hkeptVolume (hkeptId ▸ hnotFile)
  rcases hmembers old hold with rfl | ⟨older, -, hother, idle', rfl⟩
  · exact ⟨idle, rfl⟩
  · exact absurd ⟨hkeptVolume, hkeptId⟩ hother

/-- A file whose rights are built now. -/
theorem findBuildTrusteeNode_unbuilt {built : BuiltWays} {cache : TrusteeCache}
    (hsound : SoundCache world built cache) {volume : Nat} {unixname : UnixName} {stb : FileStat}
    (hunbuilt : Unbuilt cache volume stb.id) (hfits : WalkFits world cache volume unixname stb)
    {dirs : List PathLink} {file : PathLink} {ok : Bool}
    (hlinks : wayLinks (world.tree volume) unixname stb = (dirs, file, ok)) :
    ∃ result cache', findBuildTrusteeNode world.user (world.tree volume) world.disk cache volume
        unixname stb = (result, cache') ∧
      (if ok then ∃ tr, result = .node tr ∧
          tr.effRights = some (rightsAlong world.user world.disk volume (dirs ++ [file]))
        else result = .noPath) ∧
      SoundCache world (markWay built volume [] (dirs ++ if ok then [file] else [])) cache' := by
  obtain ⟨tr, htr, hvolume, hid, hintact, heff, hflags, hmembers⟩ :=
    findCreatAddTrusteeNode_spec (world.tree volume) volume unixname stb
      fun tr htr => (hsound tr htr).1
  have hsound' := findCreatAddTrusteeNode_sound hsound (world.tree volume) volume unixname stb
  have hnone : ¬tr.effRights.isSome = true := by
    rw [heff, hunbuilt]
    exact Bool.false_ne_true
  obtain ⟨hnodup, hnotFile, hkinds, hkept⟩ := hfits
  unfold FileKept at hkept
  dsimp only at hkept
  rw [hlinks] at hnodup hnotFile hkinds hkept
  unfold findBuildTrusteeNode
  generalize hstart : findCreatAddTrusteeNode (world.tree volume) world.disk cache volume unixname
    stb = start at *
  obtain ⟨tr', cache'⟩ := start
  subst htr
  dsimp only at *
  rw [if_neg hnone]
  have hkindFile := hkinds file (List.mem_append_right _ (List.mem_singleton_self _))
  unfold wayLinks at hlinks
  dsimp only at hlinks
  by_cases hroot : (world.tree volume).root = stb.numbers
  · rw [if_pos hroot] at hlinks
    obtain ⟨rfl, hlinks'⟩ := Prod.mk.inj hlinks
    obtain ⟨rfl, rfl⟩ := Prod.mk.inj hlinks'
    rw [if_neg (not_not.mpr hroot)]
    obtain ⟨hrights, hput⟩ := hsound'.put_built ⟨stb.numbers, 3, _⟩ [] hvolume hid hintact
      (sameKind_of_start hflags hkindFile)
    refine ⟨_, _, rfl, ?_, hput⟩
    rw [if_pos rfl]
    exact ⟨_, rfl, hrights⟩
  · rw [if_neg hroot] at hlinks
    rw [if_pos hroot]
    generalize pathLinks (world.tree volume) stb unixname.prefixes (world.tree volume).root.dev =
      path at *
    obtain ⟨links, lastDev, ok'⟩ := path
    obtain ⟨hdirs, hlinks'⟩ := Prod.mk.inj hlinks
    obtain ⟨hfile, rfl⟩ := Prod.mk.inj hlinks'
    dsimp only at hdirs ⊢
    rw [hdirs]
    obtain ⟨htrustees, hsoundWalk, hwalkKept⟩ :=
      walk_to_file hsound' (hid ▸ hmembers) hnodup (hid ▸ hnotFile) fun link hlink =>
        hkinds link (List.mem_append_left _ hlink)
    generalize dirs.foldl (walkLink world.user world.disk volume) (cache', []) = walked at *
    obtain ⟨cacheWalked, ugidTrustees⟩ := walked
    subst htrustees
    dsimp only at *
    cases ok' with
    | false =>
        refine ⟨_, _, rfl, rfl, ?_⟩
        rw [if_neg Bool.false_ne_true, List.append_nil]
        exact hsoundWalk
    | true =>
        obtain ⟨kept, hat⟩ := Option.isSome_iff_exists.mp (hkept rfl)
        rw [hat]
        obtain ⟨idle, hidle⟩ := hwalkKept kept (hid ▸ hat)
        obtain ⟨hkeptVolume, hkeptId, hkeptIntact, hkeptFlags⟩ : kept.volume = volume ∧
            kept.id = stb.id ∧ Intact world.disk kept ∧ kept.modeFlags = tr'.modeFlags := by
          rw [hidle]
          exact ⟨hvolume, hid, hintact, rfl⟩
        rw [← hkeptFlags] at hflags
        subst hfile
        obtain ⟨hrights, hput⟩ := hsoundWalk.put_built ⟨stb.numbers, _, _⟩ dirs hkeptVolume hkeptId
          hkeptIntact (sameKind_of_start hflags hkindFile)
        refine ⟨_, _, rfl, ?_, ?_⟩
        · rw [if_pos rfl]
          exact ⟨_, rfl, hrights⟩
        · rw [if_pos rfl, markWay_concat]
          exact hput

/-- What a rights call finds is what the way to the file gives. -/
theorem getEffRightsByTrustees_sound {trace : CacheTrace}
    (hsound : SoundCache world trace.built trace.cache) {volume : Nat}
    {unixname : UnixName} {request : TrusteeRequest} {stb : FileStat}
    (hbuilds : world.BuildsRights volume request)
    (hstat : (world.tree volume).stat unixname = some stb)
    (hfits : CallFits world trace (.file volume unixname request)) :
    (getEffRightsByTrustees world.user (world.tree volume) world.disk trace.cache volume unixname
        stb).1 = some (wayRights world volume unixname stb) ∧
      SoundCache world (builtAfter world trace (.file volume unixname request))
        (getEffRightsByTrustees world.user (world.tree volume) world.disk trace.cache volume
          unixname stb).2 := by
  obtain ⟨hwalk, hcached, -⟩ := hfits hbuilds stb hstat
  unfold getEffRightsByTrustees builtAfter
  dsimp only
  rw [if_neg hbuilds.2.2, hstat]
  dsimp only
  by_cases hunbuilt : Unbuilt trace.cache volume stb.id
  · rw [if_pos ⟨hbuilds, hunbuilt⟩]
    unfold wayRights wayTo
    rcases hway : wayLinks (world.tree volume) unixname stb with ⟨dirs, file, ok⟩
    obtain ⟨result, cache', hfind, hresult, hsound'⟩ :=
      findBuildTrusteeNode_unbuilt hsound hunbuilt (hwalk hunbuilt) hway
    rw [hfind]
    cases ok with
    | false =>
        rw [if_neg Bool.false_ne_true] at hresult
        subst hresult
        exact ⟨rfl, hsound'⟩
    | true =>
        obtain ⟨tr, rfl, hrights⟩ := hresult
        refine ⟨?_, hsound'⟩
        dsimp only
        rw [hrights]
        rfl
  · rw [if_neg fun h => hunbuilt h.2]
    obtain ⟨tr, hfind, hrights⟩ := findBuildTrusteeNode_built hsound unixname hunbuilt
    rw [hfind]
    obtain ⟨way, hway, hsame⟩ := hcached hunbuilt
    unfold wayRights
    rw [hway]
    refine ⟨?_, findCreatAddTrusteeNode_sound hsound _ _ _ _⟩
    dsimp only
    rw [hrights, hsame.rightsAlong]
    rfl

/-- A request that builds rights leaves the cache that building them leaves. -/
theorem trusteeRequest_snd {volume : Nat} {request : TrusteeRequest}
    (hbuilds : world.BuildsRights volume request) (cache : TrusteeCache) (unixname : UnixName)
    (stb : FileStat) :
    (trusteeRequest world cache volume unixname stb request).2 =
      (getEffRightsByTrustees world.user (world.tree volume) world.disk cache volume unixname
        stb).2 := by
  obtain ⟨hrights, htrustees, -⟩ := hbuilds
  unfold trusteeRequest
  cases request with
  | effRights =>
      dsimp only
      rw [if_pos htrustees]
      split
      next heff => rw [heff]
      next heff => rw [heff]
  | effRightsExists lookfor =>
      dsimp only
      rw [if_pos htrustees]
      split
      next heff => rw [heff]
      next heff => rw [heff]
  | trusteeSet => contradiction
  | inheritedMask => contradiction
  | idTrustee => contradiction

/-- Any other request adds the node of the file at most. -/
theorem trusteeRequest_snd_cases {volume : Nat} {request : TrusteeRequest}
    (hbuilds : ¬world.BuildsRights volume request) (cache : TrusteeCache) (unixname : UnixName)
    (stb : FileStat) :
    (trusteeRequest world cache volume unixname stb request).2 = cache ∨
    (trusteeRequest world cache volume unixname stb request).2 =
      (findCreatAddTrusteeNode (world.tree volume) world.disk cache volume unixname stb).2 := by
  by_cases htrustees : (world.tree volume).options.trustees = true
  · unfold trusteeRequest
    cases request with
    | effRights =>
        left
        have hsuper : world.user.objId = 1 ∧ world.user.equivalent = true := by
          by_contra hnot
          exact hbuilds ⟨rfl, htrustees, hnot⟩
        dsimp only
        unfold getEffRightsByTrustees
        rw [if_pos htrustees, if_pos hsuper]
    | effRightsExists lookfor =>
        left
        have hsuper : world.user.objId = 1 ∧ world.user.equivalent = true := by
          by_contra hnot
          exact hbuilds ⟨rfl, htrustees, hnot⟩
        dsimp only
        unfold getEffRightsByTrustees
        rw [if_pos htrustees, if_pos hsuper]
    | trusteeSet =>
        right
        dsimp only
        rw [if_pos htrustees]
    | inheritedMask =>
        right
        dsimp only
        rw [if_pos htrustees]
    | idTrustee =>
        right
        dsimp only
        rw [if_pos htrustees]
  · left
    unfold trusteeRequest
    cases request with
    | effRights => dsimp only; rw [if_neg htrustees]
    | effRightsExists => dsimp only; rw [if_neg htrustees]
    | trusteeSet => dsimp only; rw [if_neg htrustees]
    | inheritedMask => dsimp only; rw [if_neg htrustees]
    | idTrustee => dsimp only; rw [if_neg htrustees]

/-- A call keeps the cache sound. -/
theorem step_traceMachine_sound {trace : CacheTrace} {call : TrusteeCall}
    (hsound : SoundCache world trace.built trace.cache) (hfits : CallFits world trace call) :
    SoundCache world ((traceMachine world).step trace call).2.built
      ((traceMachine world).step trace call).2.cache := by
  cases call with
  | freeCache volume =>
      intro tr htr
      cases volume with
      | none => contradiction
      | some volume => exact hsound tr (AgedSlots.mem_free htr)
  | file volume unixname request =>
      show SoundCache world (builtAfter world trace (.file volume unixname request))
        ((trusteeMachine world).step trace.cache (.file volume unixname request)).2
      unfold trusteeMachine
      dsimp only
      cases hstat : (world.tree volume).stat unixname with
      | none =>
          unfold builtAfter
          dsimp only
          rw [hstat]
          exact hsound
      | some stb =>
          dsimp only
          by_cases hbuilds : world.BuildsRights volume request
          · have heff := (getEffRightsByTrustees_sound hsound hbuilds hstat hfits).2
            rw [trusteeRequest_snd hbuilds]
            exact heff
          · have hbuilt : builtAfter world trace (.file volume unixname request) = trace.built := by
              unfold builtAfter
              dsimp only
              rw [hstat]
              exact if_neg fun h => hbuilds h.1
            rw [hbuilt]
            rcases trusteeRequest_snd_cases hbuilds trace.cache unixname stb with hsame | hadded
            · rw [hsame]
              exact hsound
            · rw [hadded]
              exact findCreatAddTrusteeNode_sound hsound _ _ _ _

/-- The answer to a rights request depends on the cache by the rights built only. -/
theorem trusteeRequest_fst {volume : Nat} {request : TrusteeRequest}
    (hrights : request.isRights = true)
    (htrustees : (world.tree volume).options.trustees = true) (unixname : UnixName)
    (stb : FileStat) :
    ∃ answer : Option Rights → TrusteeAnswer, ∀ cache,
      (trusteeRequest world cache volume unixname stb request).1 =
        answer (getEffRightsByTrustees world.user (world.tree volume) world.disk cache volume
          unixname stb).1 := by
  unfold trusteeRequest
  dsimp only
  generalize rightsByUnix world volume unixname stb = rights1
  cases request with
  | effRights =>
      refine ⟨fun rights => rights.elim .freed fun rights =>
        .value (truGetEffRights rights rights1).toNat, fun cache => ?_⟩
      dsimp only
      rw [if_pos htrustees]
      split
      next heff => rw [heff]; rfl
      next heff => rw [heff]; rfl
  | effRightsExists lookfor =>
      refine ⟨fun rights => rights.elim .freed fun rights =>
        .value (truEffRightsExists (some rights) rights1 lookfor), fun cache => ?_⟩
      dsimp only
      rw [if_pos htrustees]
      split
      next heff => rw [heff]; rfl
      next heff => rw [heff]; rfl
  | trusteeSet => contradiction
  | inheritedMask => contradiction
  | idTrustee => contradiction

/-- Two caches that give the same rights, where rights are built, answer alike. -/
theorem trusteeRequest_fst_congr {volume : Nat} {unixname : UnixName} {stb : FileStat}
    {request : TrusteeRequest} (hrights : request.isRights = true) {cache cache' : TrusteeCache}
    (hsame : world.BuildsRights volume request →
      (getEffRightsByTrustees world.user (world.tree volume) world.disk cache volume unixname
        stb).1 =
      (getEffRightsByTrustees world.user (world.tree volume) world.disk cache' volume unixname
        stb).1) :
    (trusteeRequest world cache volume unixname stb request).1 =
      (trusteeRequest world cache' volume unixname stb request).1 := by
  by_cases htrustees : (world.tree volume).options.trustees = true
  · obtain ⟨answer, hanswer⟩ := trusteeRequest_fst hrights htrustees unixname stb
    rw [hanswer, hanswer]
    by_cases hsuper : world.user.objId = 1 ∧ world.user.equivalent = true
    · unfold getEffRightsByTrustees
      rw [if_pos hsuper, if_pos hsuper]
    · rw [hsame ⟨hrights, htrustees, hsuper⟩]
  · unfold trusteeRequest
    cases request with
    | effRights => dsimp only; rw [if_neg htrustees, if_neg htrustees]
    | effRightsExists => dsimp only; rw [if_neg htrustees, if_neg htrustees]
    | trusteeSet => contradiction
    | inheritedMask => contradiction
    | idTrustee => contradiction

end

/-! ## Whole runs -/

/-- An empty cache is sound for any ways. -/
theorem soundCache_empty (world : TrusteeWorld) (built : BuiltWays) :
    SoundCache world built .empty :=
  fun tr htr => by contradiction

/-- The trustee routines run alike with the ways of the nodes. -/
theorem exec_traceMachine (world : TrusteeWorld) (trace : CacheTrace) (calls : List TrusteeCall) :
    ((traceMachine world).exec trace calls).cache = (trusteeMachine world).exec trace.cache calls := by
  induction calls generalizing trace with
  | nil => rfl
  | cons call calls ih => exact ih _

/-- In every run whose calls meet the condition, every rights call is answered as with
an empty cache. -/
theorem rights_uncached (world : TrusteeWorld) (calls : List TrusteeCall)
    (hfits : (traceMachine world).Along (CallFits world) ⟨.empty, fun _ _ => []⟩ calls)
    (before after : List TrusteeCall) (volume : Nat) (unixname : UnixName)
    (request : TrusteeRequest) (hrights : request.isRights = true)
    (hcalls : calls = before ++ .file volume unixname request :: after) :
    ((trusteeMachine world).step ((trusteeMachine world).exec .empty before)
        (.file volume unixname request)).1 =
      ((trusteeMachine world).step .empty (.file volume unixname request)).1 := by
  subst hcalls
  obtain ⟨hbefore, hcall, -⟩ := ((traceMachine world).along_append _ _ _).mp hfits
  have hinvariant : SoundCache world ((traceMachine world).exec ⟨.empty, fun _ _ => []⟩ before).built
      ((traceMachine world).exec ⟨.empty, fun _ _ => []⟩ before).cache := by
    have hstep : ∀ trace call, SoundCache world trace.built trace.cache →
        CallFits world trace call →
        SoundCache world ((traceMachine world).step trace call).2.built
          ((traceMachine world).step trace call).2.cache :=
      fun trace call hsound hfits => step_traceMachine_sound hsound hfits
    exact (traceMachine world).exec_invariant hstep (soundCache_empty world _) hbefore
  have hcache := exec_traceMachine world ⟨.empty, fun _ _ => []⟩ before
  dsimp only at hcache
  rw [← hcache]
  generalize (traceMachine world).exec ⟨.empty, fun _ _ => []⟩ before = trace at *
  unfold trusteeMachine
  dsimp only
  cases hstat : (world.tree volume).stat unixname with
  | none => rfl
  | some stb =>
      dsimp only
      refine trusteeRequest_fst_congr hrights fun hbuilds => ?_
      rw [(getEffRightsByTrustees_sound hinvariant hbuilds hstat hcall).1]
      have hempty : CallFits world ⟨.empty, trace.built⟩ (.file volume unixname request) := by
        intro hbuilds stb' hstat'
        obtain ⟨-, -, hempty⟩ := hcall hbuilds stb' hstat'
        exact ⟨fun _ => hempty, fun hbuilt => absurd rfl hbuilt, hempty⟩
      have hsoundEmpty : SoundCache world (CacheTrace.mk .empty trace.built).built .empty :=
        soundCache_empty world _
      exact (getEffRightsByTrustees_sound hsoundEmpty hbuilds hstat hempty).1.symm

/-- A volume with the directories A and B and a file that is f in both; user 5 has
the rights R and F in A. -/
def hardLinkWorld : TrusteeWorld where
  tree _ :=
    let stat (unixname : UnixName) : Option FileStat :=
      if unixname.comps = [] then some ⟨⟨1, 1⟩, true, false, false, 0⟩
      else if unixname.comps = [[0x41]] then some ⟨⟨1, 2⟩, true, false, false, 0⟩
      else if unixname.comps = [[0x42]] then some ⟨⟨1, 3⟩, true, false, false, 0⟩
      else if unixname.comps = [[0x41], [0x66]] ∨ unixname.comps = [[0x42], [0x66]] then
        some ⟨⟨1, 4⟩, false, false, false, 0⟩
      else none
    { options := ⟨true, true, false, false⟩
      root := ⟨1, 1⟩
      stat := stat
      lstat := stat
      unixRights := fun _ => 0
      above := fun _ => .none }
  disk _ id := if id = ⟨1, 2⟩ then .single ⟨5, 0x41⟩ else .noOne
  user := ⟨5, false, [], 0⟩
  defaultUid := 0

/-- Asked for as B/f after A/f, the file has the rights that A gives. -/
theorem rights_cached_by_hard_link :
    ∃ (world : TrusteeWorld) (before : List TrusteeCall) (volume : Nat) (unixname : UnixName)
      (request : TrusteeRequest), request.isRights = true ∧
      ((trusteeMachine world).step ((trusteeMachine world).exec .empty before)
        (.file volume unixname request)).1 ≠
      ((trusteeMachine world).step .empty (.file volume unixname request)).1 :=
  ⟨hardLinkWorld, [.file 0 ⟨[[0x41], [0x66]], false⟩ .effRights], 0, ⟨[[0x42], [0x66]], false⟩,
    .effRights, rfl, by decide⟩

/-- Requests for A, for the file in it and for A again fit: the file is asked for in A
only. -/
theorem callFits_hardLinkWorld :
    (traceMachine hardLinkWorld).Along (CallFits hardLinkWorld) ⟨.empty, fun _ _ => []⟩
      [.file 0 ⟨[[0x41]], false⟩ .effRights, .file 0 ⟨[[0x41], [0x66]], false⟩ .effRights,
        .file 0 ⟨[[0x41]], false⟩ .effRights] := by
  have hdir : WalkFits hardLinkWorld .empty 0 ⟨[[0x41]], false⟩ ⟨⟨1, 2⟩, true, false, false, 0⟩ :=
    ⟨by decide, by decide, fun link _ tr htr => by contradiction, fun _ => by
      unfold FileKept
      decide⟩
  have hfile : WalkFits hardLinkWorld .empty 0 ⟨[[0x41], [0x66]], false⟩
      ⟨⟨1, 4⟩, false, false, false, 0⟩ :=
    ⟨by decide, by decide, fun link _ tr htr => by contradiction, fun _ => by
      unfold FileKept
      decide⟩
  refine ⟨fun _ stb hstat => ?_, fun _ stb hstat => ?_, fun _ stb hstat => ?_, trivial⟩
  · obtain rfl := Option.some.inj hstat
    exact ⟨fun _ => hdir, fun hbuilt => absurd (by decide) hbuilt, hdir⟩
  · obtain rfl := Option.some.inj hstat
    refine ⟨fun _ => ⟨by decide, by decide, ?_, fun _ => by unfold FileKept; decide⟩,
      fun hbuilt => absurd (by decide) hbuilt, hfile⟩
    -- the nodes of the root and of A are there
    have hnodes : ∀ link ∈ [(⟨⟨1, 1⟩, 3, 0⟩ : PathLink), ⟨⟨1, 2⟩, 1, 0⟩, ⟨⟨1, 4⟩, 0, 0⟩],
        ∀ slot ∈ ((traceMachine hardLinkWorld).step ⟨.empty, fun _ _ => []⟩
          (.file 0 ⟨[[0x41]], false⟩ .effRights)).2.cache.tr, slot.all fun tr =>
            tr.id ≠ link.id ∨
              SameKind (tr.modeFlags ||| link.modeFlags) (link.modeFlags ||| link.newFlags) := by
      decide
    intro link hlink tr htr _ hid
    have hnode := hnodes link hlink (some tr) htr
    simpa [hid] using hnode
  · obtain rfl := Option.some.inj hstat
    exact ⟨fun hunbuilt => absurd hunbuilt (by decide),
      fun _ => ⟨_, rfl, by unfold SameWay; decide⟩, hdir⟩

theorem rights_uncached_hardLinkWorld :
    ((trusteeMachine hardLinkWorld).step ((trusteeMachine hardLinkWorld).exec .empty
        [.file 0 ⟨[[0x41]], false⟩ .effRights, .file 0 ⟨[[0x41], [0x66]], false⟩ .effRights])
        (.file 0 ⟨[[0x41]], false⟩ .effRights)).1 =
      ((trusteeMachine hardLinkWorld).step .empty (.file 0 ⟨[[0x41]], false⟩ .effRights)).1 ∧
    ((trusteeMachine hardLinkWorld).step .empty (.file 0 ⟨[[0x41]], false⟩ .effRights)).1 =
      .value 0x41 :=
  ⟨rights_uncached hardLinkWorld _ callFits_hardLinkWorld
    [.file 0 ⟨[[0x41]], false⟩ .effRights, .file 0 ⟨[[0x41], [0x66]], false⟩ .effRights] []
    0 ⟨[[0x41]], false⟩ .effRights rfl rfl, by decide⟩

end MarsNwe
