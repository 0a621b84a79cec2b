import MarsNwe.Trustee.Grant

/-! # Requests that write trustees

Who has the right A at a file may add and delete trustees there and set its mask.
The files of the trustees and the cache change with every such request.
-/

namespace MarsNwe

/-- The directory without an entry. -/
def TrusteeDir.del (dir : TrusteeDir) (id : UInt32) : TrusteeDir where
  entries := dir.entries.filter (·.id ≠ id)
  nodup := dir.nodup.sublist (List.filter_sublist.map IdsTrustee.id)

/-- `del_trustee_from_disk`. -/
def delTrusteeFromDisk (disk : TrusteeDisk) (volume : Nat) (id : FileId) (trustee : UInt32) :
    Int × TrusteeDisk :=
  match (disk volume id).get? trustee with
  | none => (-0xfe, disk)
  | some _ =>
      (0, fun volume' id' =>
        if volume' = volume ∧ id' = id then (disk volume' id').del trustee else disk volume' id')

/-- Whether the user may write the trustees of a file; none, if a freed node is used. -/
def mayWriteTrustees (world : TrusteeWorld) (cache : TrusteeCache) (volume : Nat)
    (unixname : UnixName) (stb : FileStat) : Option Bool × TrusteeCache :=
  let tree := world.tree volume
  if tree.options.trustees then
    match getEffRightsByTrustees world.user tree world.disk cache volume unixname stb with
    | (none, cache) => (none, cache)
    | (some rights, cache) =>
        let own := truGetEffRights rights (rightsByUnix world volume unixname stb)
        (some (own &&& trusteeA ≠ 0 ∨ world.user.equivalent), cache)
  else (some false, cache)

/-- `tru_del_trustee`. -/
def truDelTrustee (world : TrusteeWorld) (cache : TrusteeCache) (volume : Nat)
    (unixname : UnixName) (stb : FileStat) (id : UInt32) :
    Option Int × TrusteeDisk × TrusteeCache :=
  match mayWriteTrustees world cache volume unixname stb with
  | (none, cache) => (none, world.disk, cache)
  | (some false, cache) => (some (-0x85), world.disk, cache)
  | (some true, cache) =>
      match delTrusteeFromDisk world.disk volume stb.id id with
      | (0, disk) => (some 0, disk, truFreeCache (some volume) cache)
      | (result, disk) => (some result, disk, cache)

/-- `tru_set_inherited_mask`. -/
def truSetInheritedMask (place : TrusteeDir → Nat) (world : TrusteeWorld) (cache : TrusteeCache)
    (volume : Nat) (unixname : UnixName) (stb : FileStat) (newMask : Rights) :
    Option Int × TrusteeDisk × TrusteeCache :=
  match mayWriteTrustees world cache volume unixname stb with
  | (none, cache) => (none, world.disk, cache)
  | (some false, cache) => (some (-0x85), world.disk, cache)
  | (some true, cache) =>
      match findTrusteeNode cache volume stb.id with
      | (none, cache) => (some (-0x85), world.disk, cache)
      | (some tr, cache) =>
          if tr.modeFlags &&& 0x1e = 0 ∨ world.user.uid = 0 then
            (some 0, putTrusteeToDisk place world.disk volume stb.id ⟨0, newMask⟩,
              truFreeCache (some volume) cache)
          else (some (-0x85), world.disk, cache)

/-! ## The requests of a user -/

/-- A request for the trustees of a file, or a call that only asks. -/
inductive TrusteeWrite where
  | ask (call : TrusteeCall)
  | addTrusteeSet (volume : Nat) (unixname : UnixName) (nwoic : List IdsTrustee)
  | delTrustee (volume : Nat) (unixname : UnixName) (id : UInt32)
  | setInheritedMask (volume : Nat) (unixname : UnixName) (newMask : Rights)

/-- The trustees and the cache of a connection. -/
structure TrusteeState where
  disk : TrusteeDisk
  cache : TrusteeCache

/-- The answer of a request that writes. -/
def writeAnswer (s : Option Int × TrusteeDisk × TrusteeCache) : TrusteeAnswer × TrusteeState :=
  (match s.1 with
    | some result => .value result
    | none => .freed, ⟨s.2.1, s.2.2⟩)

/-- The trustee routines of a user, whose requests write trustees. -/
def writeMachine (place : TrusteeDir → Nat) (world : TrusteeWorld) :
    Machine TrusteeState TrusteeWrite TrusteeAnswer where
  step s e :=
    let world := { world with disk := s.disk }
    match e with
    | .ask call =>
        let (answer, cache) := (trusteeMachine world).step s.cache call
        (answer, ⟨s.disk, cache⟩)
    | .addTrusteeSet volume unixname nwoic =>
        match (world.tree volume).stat unixname with
        | some stb => writeAnswer (truAddTrusteeSet place world s.cache volume unixname stb nwoic)
        | none => (.value (-0x9c), s)
    | .delTrustee volume unixname id =>
        match (world.tree volume).stat unixname with
        | some stb => writeAnswer (truDelTrustee world s.cache volume unixname stb id)
        | none => (.value (-0x9c), s)
    | .setInheritedMask volume unixname newMask =>
        match (world.tree volume).stat unixname with
        | some stb =>
            writeAnswer (truSetInheritedMask place world s.cache volume unixname stb newMask)
        | none => (.value (-0x9c), s)

end MarsNwe
