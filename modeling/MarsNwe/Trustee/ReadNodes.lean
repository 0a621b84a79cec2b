import MarsNwe.Trustee.RightsCache

/-! # What all nodes of a cache keep

The trustees of a node are read when it is made and stay as they are. What is said of the
trustees of a file, and is true of those that are read, is true of the nodes of a cache
after all calls.
-/

namespace MarsNwe

/-- Something holds of the trustees in the nodes of a cache. -/
def NodesHold (Q : Nat → FileId → List IdsTrustee → Prop) (cache : TrusteeCache) : Prop :=
  ∀ tr ∈ cache, Q tr.volume tr.id tr.trustees

namespace NodesHold

variable {Q : Nat → FileId → List IdsTrustee → Prop} {disk : TrusteeDisk} {cache : TrusteeCache}
  {user : TrusteeUser} {volume : Nat}

theorem empty : NodesHold Q .empty := fun _ htr => absurd htr List.not_mem_nil

theorem put (hcache : NodesHold Q cache) {tr : FileTrusteeNode}
    (htr : Q tr.volume tr.id tr.trustees) : NodesHold Q (cache.put tr) := by
  intro tr' htr'
  rcases TrusteeCache.mem_put htr' with rfl | ⟨hold, -⟩
  · exact htr
  · exact hcache tr' hold

theorem add (hcache : NodesHold Q cache) {tr : FileTrusteeNode}
    (htr : Q tr.volume tr.id tr.trustees) : NodesHold Q (addTrusteeNode cache tr) := by
  intro tr' htr'
  rcases AgedSlots.mem_insert htr' with rfl | ⟨old, hold, rfl⟩
  · exact htr
  · exact hcache old hold

theorem free (hcache : NodesHold Q cache) (volume : Option Nat) :
    NodesHold Q (truFreeCache volume cache) := by
  cases volume with
  | none => exact empty
  | some volume => exact fun tr htr => hcache tr (AgedSlots.mem_free htr)

theorem find (hcache : NodesHold Q cache) (volume : Nat) (id : FileId) :
    NodesHold Q (findTrusteeNode cache volume id).2 ∧
      ∀ tr, (findTrusteeNode cache volume id).1 = some tr →
        Q tr.volume tr.id tr.trustees ∧ tr.volume = volume ∧ tr.id = id := by
  unfold findTrusteeNode
  split
  next => exact ⟨hcache, fun tr htr => (nomatch htr)⟩
  next found hat =>
    obtain ⟨hmem, hvolume, hid⟩ := TrusteeCache.at?_eq_some hat
    have hfound := hcache found hmem
    refine ⟨hcache.put hfound, fun tr htr => ?_⟩
    obtain rfl := Option.some.inj htr
    exact ⟨hfound, hvolume, hid⟩

section Read

variable (hread : ∀ volume id, Q volume id (readTrustees (disk volume id).entries 0).2)

include hread

theorem walkLink (hcache : NodesHold Q cache) (ugidTrustees : List IdsTrustee)
    (link : PathLink) :
    NodesHold Q (walkLink user disk volume (cache, ugidTrustees) link).1 := by
  obtain ⟨hfound, hnode⟩ := hcache.find volume link.id
  unfold MarsNwe.walkLink
  dsimp only
  generalize findTrusteeNode cache volume link.id = found at *
  obtain ⟨_ | tr, cache'⟩ := found
  · have hnew := hread volume link.id
    exact (hfound.add hnew).put hnew
  · exact hfound.put (hnode tr rfl).1

theorem walk (hcache : NodesHold Q cache) (ugidTrustees : List IdsTrustee)
    (links : List PathLink) :
    NodesHold Q (links.foldl (MarsNwe.walkLink user disk volume) (cache, ugidTrustees)).1 := by
  induction links generalizing cache ugidTrustees with
  | nil => exact hcache
  | cons link links ih =>
      rw [List.foldl_cons]
      exact ih (hcache.walkLink hread ugidTrustees link) _

theorem findCreatAdd (hcache : NodesHold Q cache) (tree : VolumeTree) (volume : Nat)
    (unixname : UnixName) (stb : FileStat) :
    let found := findCreatAddTrusteeNode tree disk cache volume unixname stb
    NodesHold Q found.2 ∧ Q found.1.volume found.1.id found.1.trustees ∧
      found.1.volume = volume ∧ found.1.id = stb.id := by
  obtain ⟨hfound, hnode⟩ := hcache.find volume stb.id
  unfold findCreatAddTrusteeNode
  generalize findTrusteeNode cache volume stb.id = found at *
  obtain ⟨_ | tr, cache'⟩ := found
  · have hnew := hread volume stb.id
    exact ⟨hfound.add hnew, hnew, rfl, rfl⟩
  · exact ⟨hfound, hnode tr rfl⟩

/-- Building rights leaves the trustees in the nodes as they are. -/
theorem build (hcache : NodesHold Q cache) (user : TrusteeUser) (tree : VolumeTree)
    (volume : Nat) (unixname : UnixName) (stb : FileStat) :
    NodesHold Q (findBuildTrusteeNode user tree disk cache volume unixname stb).2 := by
  obtain ⟨hfound, hnode, -⟩ := hcache.findCreatAdd hread tree volume unixname stb
  unfold findBuildTrusteeNode
  generalize findCreatAddTrusteeNode tree disk cache volume unixname stb = found at *
  obtain ⟨tr, cache'⟩ := found
  dsimp only
  split
  next => exact hfound
  next =>
    split
    next =>
      generalize pathLinks tree stb unixname.prefixes tree.root.dev = path
      obtain ⟨links, lastDev, ok⟩ := path
      have hwalked : NodesHold Q ((⟨tree.root, 3, 0⟩ :: links).foldl
          (MarsNwe.walkLink user disk volume) (cache', [])).1 := hfound.walk hread [] _
      dsimp only
      generalize (⟨tree.root, 3, 0⟩ :: links).foldl (MarsNwe.walkLink user disk volume) _ =
        walked at *
      split
      next =>
        split
        next => exact hwalked
        next kept hat =>
          have hkept := hwalked kept (TrusteeCache.at?_eq_some hat).1
          exact hwalked.put hkept
      next => exact hwalked
    next => exact hfound.put hnode

theorem effRights (hcache : NodesHold Q cache) (user : TrusteeUser) (tree : VolumeTree)
    (volume : Nat) (unixname : UnixName) (stb : FileStat) :
    NodesHold Q (getEffRightsByTrustees user tree disk cache volume unixname stb).2 := by
  have hbuilt := hcache.build hread user tree volume unixname stb
  unfold getEffRightsByTrustees
  split
  · exact hcache
  · generalize findBuildTrusteeNode user tree disk cache volume unixname stb = built at *
    obtain ⟨_ | _ | _, cache'⟩ := built <;> exact hbuilt

end Read

/-- All calls keep what holds of the trustees that are read. -/
theorem step {world : TrusteeWorld}
    (hread : ∀ volume id, Q volume id (readTrustees (world.disk volume id).entries 0).2)
    (hcache : NodesHold Q cache) (call : TrusteeCall) :
    NodesHold Q ((trusteeMachine world).step cache call).2 := by
  cases call with
  | freeCache volume => exact hcache.free volume
  | file volume unixname request =>
      unfold trusteeMachine
      dsimp only
      split
      next stb hstat =>
        have hrights :=
          hcache.effRights hread world.user (world.tree volume) volume unixname stb
        have hfound := (hcache.findCreatAdd hread (world.tree volume) volume unixname stb).1
        unfold trusteeRequest
        cases request <;> dsimp only <;> split
        case effRights.isTrue | effRightsExists.isTrue =>
          split
          next h => rwa [h] at hrights
          next h => rwa [h] at hrights
        all_goals assumption
      next => exact hcache

end NodesHold

end MarsNwe
