import MarsNwe.Lib.Machine
import MarsNwe.Trustee.EffRights

/-! # The trustee cache over whole runs

The rights in the cache are those that an empty cache gives as long as no file is
reached on two ways and no walk to a file frees the node of it.
-/

namespace MarsNwe

/-! ## The calls -/

/-- What does not change while a user works: the volumes and their trustees. -/
structure TrusteeWorld where
  tree : Nat → VolumeTree
  disk : TrusteeDisk
  user : TrusteeUser
  /-- `default_uid` -/
  defaultUid : UInt32

/-- What is asked about a file. -/
inductive TrusteeRequest where
  /-- `tru_get_eff_rights` -/
  | effRights
  /-- `tru_eff_rights_exists` -/
  | effRightsExists (lookfor : Rights)
  /-- `tru_get_trustee_set` -/
  | trusteeSet (sequence maxcount : Nat)
  /-- `tru_get_inherited_mask` -/
  | inheritedMask
  /-- `tru_get_id_trustee` -/
  | idTrustee (id : UInt32)

/-- A call of the trustee routines. -/
inductive TrusteeCall where
  | file (volume : Nat) (unixname : UnixName) (request : TrusteeRequest)
  /-- `tru_free_cache` -/
  | freeCache (volume : Option Nat)

/-- An answer: an `int`, the trustees of a set, or what a freed node holds. -/
inductive TrusteeAnswer where
  | value (result : Int)
  | trustees (ids : List IdsTrustee)
  | freed
deriving DecidableEq

def TrusteeRequest.isRights : TrusteeRequest → Bool
  | .effRights | .effRightsExists _ => true
  | _ => false

/-- `tru_get_eff_rights`, from the rights by trustees and by unix. -/
def truGetEffRights (rights rights1 : Rights) : Rights :=
  (rights &&& maxTrusteeMask) ||| rights1

/-- `tru_eff_rights_exists` on a volume with trustees, or without them if `rights`
is none: 0 if the right exists, else the rights there are or the sign bit. -/
def truEffRightsExists (rights : Option Rights) (rights1 lookfor : Rights) : Int :=
  let exists' (rights : Rights) : Bool :=
    rights &&& trusteeS ≠ 0 ∨ rights &&& lookfor = lookfor ∨
      (lookfor = trusteeT ∧ rights &&& trusteeF ≠ 0)
  if rights.any exists' then 0
  else
    let rights := rights.getD 0 ||| rights1
    if lookfor = trusteeT ∧ rights &&& trusteeF ≠ 0 then 0
    else if rights = 0 then -0x80000000
    else if rights &&& trusteeS ≠ 0 ∨ rights &&& lookfor = lookfor then 0
    else rights.toNat

/-- `find_id_trustee`. -/
def findIdTrustee (tr : FileTrusteeNode) (id : UInt32) : Int :=
  match tr.trustees.find? (·.id = id) with
  | some e => e.trustee.toNat
  | none => -1

/-- The rights by unix at a file, where the volume lets them count. -/
def rightsByUnix (world : TrusteeWorld) (volume : Nat) (unixname : UnixName) (stb : FileStat) :
    Rights :=
  let tree := world.tree volume
  if tree.options.ignUnxRight then 0
  else unNwRights tree.options world.user.uid world.defaultUid stb (tree.unixRights unixname)
    (tree.above unixname)

/-- A request about a file whose `stat` the caller has made. -/
def trusteeRequest (world : TrusteeWorld) (cache : TrusteeCache) (volume : Nat)
    (unixname : UnixName) (stb : FileStat) (request : TrusteeRequest) :
    TrusteeAnswer × TrusteeCache :=
  let tree := world.tree volume
  let rights1 := rightsByUnix world volume unixname stb
  match request with
  | .effRights =>
      if tree.options.trustees then
        match getEffRightsByTrustees world.user tree world.disk cache volume unixname stb with
        | (some rights, cache) => (.value (truGetEffRights rights rights1).toNat, cache)
        | (none, cache) => (.freed, cache)
      else (.value (truGetEffRights 0 rights1).toNat, cache)
  | .effRightsExists lookfor =>
      if tree.options.trustees then
        match getEffRightsByTrustees world.user tree world.disk cache volume unixname stb with
        | (some rights, cache) => (.value (truEffRightsExists (some rights) rights1 lookfor), cache)
        | (none, cache) => (.freed, cache)
      else (.value (truEffRightsExists none rights1 lookfor), cache)
  | .trusteeSet sequence maxcount =>
      if tree.options.trustees then
        let (tr, cache) := findCreatAddTrusteeNode tree world.disk cache volume unixname stb
        let ids := (tr.trustees.drop (sequence * maxcount)).take maxcount
        (if ids.isEmpty then .value (-0x9c) else .trustees ids, cache)
      else (.value (-0x9c), cache)
  | .inheritedMask =>
      if tree.options.trustees then
        let (tr, cache) := findCreatAddTrusteeNode tree world.disk cache volume unixname stb
        (.value tr.inheritedMask.toNat, cache)
      else (.value 0x1ff, cache)
  | .idTrustee id =>
      if tree.options.trustees then
        let (tr, cache) := findCreatAddTrusteeNode tree world.disk cache volume unixname stb
        (.value (findIdTrustee tr id), cache)
      else (.value (-0x85), cache)

/-- The trustee routines. -/
def trusteeMachine (world : TrusteeWorld) : Machine TrusteeCache TrusteeCall TrusteeAnswer where
  step cache
    | .file volume unixname request =>
        match (world.tree volume).stat unixname with
        | some stb => trusteeRequest world cache volume unixname stb request
        | none => (.value (-0x9c), cache)
    | .freeCache volume => (.value 0, truFreeCache volume cache)

end MarsNwe
