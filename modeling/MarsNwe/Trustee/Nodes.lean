import MarsNwe.Lib.AgedSlots

/-! # Trustee nodes and their cache

A node holds the trustees of a file or directory and, once they are built, the
rights of the user there. Nodes are cached by volume, device and inode, whatever
name they were reached by.
-/

namespace MarsNwe

/-- Rights and masks, 16 bits of an `int`: no request and no entry on disk has more. -/
abbrev Rights := UInt16

def trusteeR : Rights := 0x01
def trusteeW : Rights := 0x02
def trusteeC : Rights := 0x08
def trusteeE : Rights := 0x10
def trusteeA : Rights := 0x20
def trusteeF : Rights := 0x40
def trusteeM : Rights := 0x80
def trusteeS : Rights := 0x100
def trusteeT : Rights := 0x200
def maxTrusteeMask : Rights := 0x1ff

/-! ## Names and files -/

/-- A file as `stat` tells it: `dev_t` and `ino_t`. -/
structure FileNumbers where
  dev : UInt64
  ino : UInt64
deriving DecidableEq

/-- Device and inode as trustees are kept by them: an `int`, and four bytes. -/
structure FileId where
  dev : UInt32
  ino : UInt32
deriving DecidableEq

/-- What is left of the numbers of a file in an `int` each. -/
def FileNumbers.id (file : FileNumbers) : FileId := ⟨file.dev.toUInt32, file.ino.toUInt32⟩

/-- An `int` where it is compared with a `dev_t` or an `ino_t`. -/
def signExtend (n : UInt32) : UInt64 := n.toInt32.toInt64.toUInt64

/-- A number that has been put into an `int`. -/
def asInt (n : UInt64) : UInt64 := signExtend n.toUInt32

/-- The numbers of a file whose device has been put into an `int`. -/
def FileNumbers.devAsInt (file : FileNumbers) : FileNumbers := ⟨asInt file.dev, file.ino⟩

/-- Both numbers put into an `int` each. -/
def FileNumbers.asInts (file : FileNumbers) : FileNumbers := ⟨asInt file.dev, asInt file.ino⟩

/-- What the trustee routines use of `struct stat`. -/
structure FileStat where
  numbers : FileNumbers
  isDir : Bool
  isLnk : Bool
  isFifo : Bool
  uid : UInt32
deriving DecidableEq

/-- The file of a `stat` as trustees are kept. -/
def FileStat.id (stb : FileStat) : FileId := stb.numbers.id

/-- A unix name below the directory of a volume: its components, and whether a
slash stands at its end. -/
structure UnixName where
  comps : List (List UInt8)
  slash : Bool
deriving DecidableEq

/-- The parts of a name that end before a slash. -/
def UnixName.prefixes (name : UnixName) : List UnixName :=
  (List.range (name.comps.length - if name.slash then 0 else 1)).map
    fun i => ⟨name.comps.take (i + 1), false⟩

/-- The options of a volume that the rights depend on. -/
structure TrusteeOptions where
  /-- `VOL_OPTION_TRUSTEES` -/
  trustees : Bool
  /-- `VOL_OPTION_IGNUNXRIGHT` -/
  ignUnxRight : Bool
  /-- `VOL_OPTION_READONLY` -/
  readOnly : Bool
  /-- `VOL_OPTION_IS_PIPE` -/
  isPipe : Bool

/-- What `un_nw_rights` finds above a name. -/
inductive ParentDir where
  /-- No directory, or one that `stat` does not find. -/
  | none
  /-- A directory, and the rights by unix there. -/
  | subdir (stbp : FileStat) (accp : UInt8)
  /-- `/.`, of which the rights are asked only. -/
  | slash (accp : UInt8)

/-- A volume as the trustee routines see it. -/
structure VolumeTree where
  options : TrusteeOptions
  /-- `get_volume_inode` -/
  root : FileNumbers
  stat : UnixName → Option FileStat
  lstat : UnixName → Option FileStat
  /-- `get_unix_access_rights` or `get_unix_eff_rights`, by the option of the volume. -/
  unixRights : UnixName → UInt8
  above : UnixName → ParentDir

/-- The user of the connection. -/
structure TrusteeUser where
  /-- `act_obj_id` -/
  objId : UInt32
  /-- `act_id_flags & 1`: supervisor equivalence. -/
  equivalent : Bool
  /-- `grps_grps` -/
  grps : List UInt32
  /-- `act_uid` -/
  uid : UInt32

/-! ## Trustees on disk -/

/-- `IDS_TRUSTEE`, and an entry of a trustee directory: the id 0 stands for the
inherited mask. -/
structure IdsTrustee where
  id : UInt32
  trustee : Rights
deriving DecidableEq

/-- The directory of the trustees of a file, in the order of `readdir`. -/
structure TrusteeDir where
  entries : List IdsTrustee
  nodup : (entries.map IdsTrustee.id).Nodup

/-- No trustees. -/
def TrusteeDir.noOne : TrusteeDir := ⟨[], List.nodup_nil⟩

/-- One trustee. -/
def TrusteeDir.single (e : IdsTrustee) : TrusteeDir := ⟨[e], List.pairwise_singleton _ e.id⟩

/-- The directories of all files, by volume. -/
abbrev TrusteeDisk := Nat → FileId → TrusteeDir

/-- `MAX_TRUSTEES` -/
def maxTrustees : Nat := 100

/-- The loop of `create_trustee_node` over the directory: the inherited mask, if it
is met, and the trustees. -/
def readTrustees : List IdsTrustee → (trusteeCount : Nat) → Option Rights × List IdsTrustee
  | [], _ => (none, [])
  | e :: es, trusteeCount =>
      if trusteeCount < maxTrustees then
        if e.id = 0 then
          let (mask, trustees) := readTrustees es trusteeCount
          (mask.or (some e.trustee), trustees)
        else
          let (mask, trustees) := readTrustees es (trusteeCount + 1)
          (mask, e :: trustees)
      else (none, [])

/-! ## Nodes -/

/-- `FILE_TRUSTEE_NODE`. Rights that are not yet set, which are -1, are `none`. -/
structure FileTrusteeNode where
  volume : Nat
  id : FileId
  idle : Nat
  /-- 1 directory, 2 root, 4 symlink, 8 the device changes, 0x10 it is not that of
  the volume. -/
  modeFlags : UInt8
  inheritedMask : Rights
  effRights : Option Rights
  trustees : List IdsTrustee
deriving DecidableEq

/-- `create_trustee_node`. -/
def createTrusteeNode (disk : TrusteeDisk) (volume : Nat) (id : FileId) (modeFlags : UInt8) :
    FileTrusteeNode :=
  let (mask, trustees) := readTrustees (disk volume id).entries 0
  { volume, id, idle := 0, modeFlags
    inheritedMask := mask.getD (if modeFlags &&& 0xe ≠ 0 then 0 else maxTrusteeMask)
    effRights := none
    trustees }

/-- A node is that of a file. -/
def FileTrusteeNode.isAt (volume : Nat) (id : FileId) (tr : FileTrusteeNode) : Bool :=
  tr.volume = volume ∧ tr.id = id

/-- Directories should not become idle so fast as files. -/
def FileTrusteeNode.age (tr : FileTrusteeNode) : FileTrusteeNode :=
  { tr with idle := tr.idle + if tr.modeFlags &&& 1 ≠ 0 then 1 else 10 }

/-! ## The cache -/

/-- `TRUSTEE_CACHE`. -/
structure TrusteeCache where
  tr : List (Option FileTrusteeNode)
deriving DecidableEq

namespace TrusteeCache

/-- `MAX_TRUSTEE_CACHE` -/
def maxTrusteeCache : Nat := 50

def empty : TrusteeCache := ⟨[]⟩

instance : Membership FileTrusteeNode TrusteeCache := ⟨fun cache tr => some tr ∈ cache.tr⟩

/-- A write to a node through a pointer to it. -/
def put (cache : TrusteeCache) (tr : FileTrusteeNode) : TrusteeCache :=
  ⟨AgedSlots.put (·.isAt tr.volume tr.id) tr cache.tr⟩

/-- The node of a file, if it is cached. -/
def at? (cache : TrusteeCache) (volume : Nat) (id : FileId) : Option FileTrusteeNode :=
  (cache.tr.find? fun slot => slot.any (·.isAt volume id)).join

theorem mem_put {cache : TrusteeCache} {tr tr' : FileTrusteeNode} (h : tr' ∈ cache.put tr) :
    tr' = tr ∨ (tr' ∈ cache ∧ ¬(tr'.volume = tr.volume ∧ tr'.id = tr.id)) := by
  rcases AgedSlots.mem_put h with heq | ⟨hmem, hother⟩
  · exact .inl heq
  · exact .inr ⟨hmem, of_decide_eq_false hother⟩

theorem at?_eq_some {cache : TrusteeCache} {volume : Nat} {id : FileId} {tr : FileTrusteeNode}
    (h : cache.at? volume id = some tr) : tr ∈ cache ∧ tr.volume = volume ∧ tr.id = id := by
  have hfind := Option.join_eq_some_iff.mp h
  have hat : (some tr).any (FileTrusteeNode.isAt volume id) := List.find?_some hfind
  exact ⟨List.mem_of_find?_eq_some hfind, of_decide_eq_true hat⟩

theorem not_at?_eq_none {cache : TrusteeCache} {volume : Nat} {id : FileId}
    (h : cache.at? volume id = none) {tr : FileTrusteeNode} (htr : tr ∈ cache) :
    ¬(tr.volume = volume ∧ tr.id = id) := by
  intro hat
  rcases Option.join_eq_none_iff.mp h with hnone | hsome
  · exact List.find?_eq_none.mp hnone _ htr (decide_eq_true hat)
  · have hany := List.find?_some hsome
    contradiction

end TrusteeCache

/-- `tru_free_cache`, for all volumes with none given. -/
def truFreeCache (volume : Option Nat) (cache : TrusteeCache) : TrusteeCache :=
  match volume with
  | none => .empty
  | some volume => ⟨AgedSlots.free (fun tr => tr.volume = volume) cache.tr⟩

/-- `add_trustee_node`. -/
def addTrusteeNode (cache : TrusteeCache) (trn : FileTrusteeNode) : TrusteeCache :=
  ⟨AgedSlots.insert .age FileTrusteeNode.idle TrusteeCache.maxTrusteeCache cache.tr trn⟩

/-- `find_trustee_node`, when the trustees of the volume have not changed. -/
def findTrusteeNode (cache : TrusteeCache) (volume : Nat) (id : FileId) :
    Option FileTrusteeNode × TrusteeCache :=
  match cache.at? volume id with
  | none => (none, cache)
  | some tr =>
      let tr := { tr with idle := 0 }
      (some tr, cache.put tr)

/-- The flag 4, if `lstat` does not find the same file under the name. -/
def symlinkFlag (tree : VolumeTree) (unixname : UnixName) (stb : FileStat) : UInt8 :=
  match tree.lstat unixname with
  | none => 4
  | some lstatbuf => if lstatbuf.numbers ≠ stb.numbers ∨ lstatbuf.isLnk then 4 else 0

/-- `find_creat_add_trustee_node`. -/
def findCreatAddTrusteeNode (tree : VolumeTree) (disk : TrusteeDisk) (cache : TrusteeCache)
    (volume : Nat) (unixname : UnixName) (stb : FileStat) : FileTrusteeNode × TrusteeCache :=
  match findTrusteeNode cache volume stb.id with
  | (some tr, cache) => (tr, cache)
  | (none, cache) =>
      let modeFlags := (if stb.isDir then 1 else 0) ||| symlinkFlag tree unixname stb
      let tr := createTrusteeNode disk volume stb.id modeFlags
      (tr, addTrusteeNode cache tr)

end MarsNwe
