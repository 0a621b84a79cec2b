import MarsNwe.Connect.PathOps
import MarsNwe.Lib.Stateful

/-! # The base entries of the name space calls

A client names files by base handles. The server keeps the path of each file that it
has given a handle for in a table, `dir_base`, in which what is used comes to the
front; what falls out of it may go to symbolic links on the disk.
-/

namespace MarsNwe.NameSpace

/-! ## What the routines work in -/

def nameDos : UInt8 := 0
def nameNfs : UInt8 := 2
def nameOs2 : UInt8 := 4

/-- What the name space calls look at in `NW_VOL`. -/
structure NsVol extends NwVol where
  /-- `VOL_OPTION_READONLY` -/
  readonly : Bool
  /-- `VOL_OPTION_ONE_DEV` -/
  oneDev : Bool
  /-- `VOL_NAMESPACE_OS2` -/
  os2 : Bool
  /-- `VOL_NAMESPACE_NFS` -/
  nfs : Bool

def NsVol.highInode (v : NsVol) : UInt32 := if v.oneDev then 0xffffffff else 0xfffffff

def NsVol.maxMapsCount (v : NsVol) : Nat := if v.oneDev then 1 else 16

/-- `DOS_MODIFY_INFO`; `times` are its date and time fields. -/
structure DosModifyInfo where
  attributes : UInt32
  times : List UInt8
  rightsgrantmask : UInt16
  rightsrevokemask : UInt16

/-- The file system and the routines of other modules that look at it or change it;
`φ` is what they find there. -/
structure Host (φ : Type) where
  stat : φ → List UInt8 → Option FileStat
  /-- `opendir` and `readdir` -/
  readdir : φ → List UInt8 → Option (List Dirent)
  /-- 0, or the number of an error -/
  rename : φ → (oldname newname : List UInt8) → Int × φ
  /-- With the times that `infomask` takes from the request. -/
  utime : φ → List UInt8 → (infomask : UInt32) → (times : List UInt8) → φ
  nwCreatNode : φ → Nat → List UInt8 → (isDir : Bool) → Int × φ
  nwUnlinkNode : φ → Nat → List UInt8 → FileStat → Int × φ
  /-- The `stat` buffer may be filled anew. -/
  fileCreatOpen : φ → Nat → List UInt8 → FileStat → (access creatmode : Nat) →
    Int × FileStat × φ
  setNwAttribDword : φ → Nat → List UInt8 → FileStat → UInt32 → Int × φ
  freeNwExtInode : φ → Nat → List UInt8 → FileId → φ
  truEffRightsExists : φ → Nat → List UInt8 → FileStat → Rights → Int
  truGetInheritedMask : φ → Nat → List UInt8 → FileStat → UInt16
  truSetInheritedMask : φ → Nat → List UInt8 → FileStat → UInt16 → φ
  truAddTrusteeSet : φ → Nat → List UInt8 → FileStat → List (UInt32 × Int) → Int × φ
  truDelTrustee : φ → Nat → List UInt8 → FileStat → UInt32 → Int × φ
  truGetTrusteeSet : φ → Nat → List UInt8 → FileStat → (sequence : UInt32) → Int

/-- The server, as far as it stays the same. -/
structure NsWorld (φ : Type) extends Host φ where
  volumes : List NsVol
  conv : Option ConvTable
  actObjId : UInt32
  entry8Flags : UInt32

/-- `DIR_BASE_ENTRY` with its path and the `stat` of it; `ptr` is where it was
allocated. -/
structure DirBaseEntry where
  ptr : Nat
  basehandle : UInt32
  slot : Nat
  locked : Nat
  volume : Nat
  path : List UInt8
  statb : FileStat
deriving DecidableEq

/-- `dir_base`, of `max_dir_base_entries` places, `anz_dbe`, and the address of the
next entry. -/
structure BaseTable where
  dirBase : List (Option DirBaseEntry)
  anzDbe : Nat
  fresh : Nat
deriving DecidableEq

/-- `DIR_SEARCH_HANDLE`. The position is the number of entries before it. -/
structure DirSearchHandle where
  id : FileNumbers
  idle : Nat
  dirpos : Nat
  foundInode : UInt64
  lastsequence : Nat
deriving DecidableEq

/-- `DEV_NAMESPACE_MAP`; the device is an `int`. -/
structure DevNamespaceMap where
  dev : UInt32
  namespaceId : UInt8
deriving DecidableEq

structure NsState (φ : Type) where
  table : BaseTable
  /-- `dir_search_handles`, as far as `count_dsh` goes. -/
  handles : List (Option DirSearchHandle)
  maxDirSearchHandles : Nat
  /-- The links below `path_vol_inodes_cache`: by the name of the volume and the file. -/
  links : List UInt8 × FileId → Option (List UInt8)
  /-- `dev_namespace_maps` of the volumes. -/
  maps : Nat → List DevNamespaceMap
  dirs : Dirs
  fs : φ

/-- How the description of a request ends early. -/
inductive NsFault
  /-- A string is longer than its buffer, or is read behind its end. -/
  | overrun
  /-- An entry is used that has been freed. -/
  | freed
deriving DecidableEq

abbrev NsM (φ : Type) := StateT (NsState φ) (Except NsFault)

namespace NsWorld

variable {φ : Type} (w : NsWorld φ)

def up : UInt8 → UInt8 := w.conv.elim upChar ConvTable.down2up

def down : UInt8 → UInt8 := w.conv.elim downChar ConvTable.up2down

def dos2unix : UInt8 → UInt8 := w.conv.elim id ConvTable.dos2unix

def unix2dos : UInt8 → UInt8 := w.conv.elim id ConvTable.unix2dos

/-- `dfn_imatch` -/
def dfnImatch (a b : UInt8) : Bool :=
  a == b || match w.conv with
    | none => downChar a == downChar b
    | some t => t.up2down a == t.up2down b

/-- `ufn_imatch` -/
def ufnImatch (a b : UInt8) : Bool :=
  a == b || match w.conv with
    | none => downChar a == downChar b
    | some t => t.up2downUnix a == t.up2downUnix b

/-- `up_fn` or `down_fn`, as the volume has it. -/
def caseFn (v : NsVol) (s : List UInt8) : List UInt8 :=
  CText.visible (s.map (if v.options.downshift then w.down else w.up))

end NsWorld

/-! ## The table -/

/-- The loop of `downsort_dbe_entries` down from `k`, with the hole at `dbase`. What it
leaves in the last hole is for the caller to overwrite. -/
def downsortLoop : (k dbase : Nat) → List (Option DirBaseEntry) →
    List (Option DirBaseEntry) × Nat
  | 0, dbase, dirBase => (dirBase, dbase)
  | k + 1, dbase, dirBase =>
      let dbpq := dirBase[k]?.join
      if dbpq.all fun e => e.locked = 0 then
        downsortLoop k k (dirBase.set dbase (dbpq.map fun e => { e with slot := dbase }))
      else downsortLoop k dbase dirBase

/-- `downsort_dbe_entries` -/
def downsortDbeEntries (dbase : Nat) (dirBase : List (Option DirBaseEntry)) :
    List (Option DirBaseEntry) × Nat :=
  downsortLoop dbase dbase dirBase

/-- The first loop of `allocate_dbe_p`: the first free place, and what may be given up. -/
def allocScan : List (Option DirBaseEntry) → (j : Nat) → (toUseFree toUseFile : Option Nat) →
    Nat × Option Nat × Option Nat
  | some dbe :: dirBase, j, toUseFree, toUseFile =>
      if 3 < j ∧ dbe.locked = 0 then
        if dbe.basehandle = 0 then allocScan dirBase (j + 1) (some j) toUseFile
        else if 10 < j ∧ !dbe.statb.isDir then allocScan dirBase (j + 1) toUseFree (some j)
        else allocScan dirBase (j + 1) toUseFree toUseFile
      else allocScan dirBase (j + 1) toUseFree toUseFile
  | _, j, toUseFree, toUseFile => (j, toUseFree, toUseFile)

/-- `while (j && dir_base[--j]->locked)` -/
def lastUnlocked (dirBase : List (Option DirBaseEntry)) : Nat → Nat
  | 0 => 0
  | j + 1 =>
      if dirBase[j]?.join.any fun e => e.locked ≠ 0 then lastUnlocked dirBase j else j

namespace BaseTable

/-- The place that `allocate_dbe_p` takes, before it sorts. -/
def place (t : BaseTable) : Nat :=
  let (j, toUseFree, toUseFile) := allocScan (t.dirBase.take t.anzDbe) 0 none none
  if j = t.anzDbe ∧ t.anzDbe = t.dirBase.length then
    (toUseFree <|> toUseFile).getD (lastUnlocked t.dirBase j)
  else j

/-- The entry that an allocation evicts. -/
def victim (t : BaseTable) : Option DirBaseEntry := t.dirBase[t.place]?.join

/-- What `init_nwpath` leaves of a `stat` buffer. -/
def noStat : FileStat := ⟨⟨0, 0xffffffffffffffff⟩, false, false, false, 0⟩

/-- `allocate_dbe_p`, apart from what goes to the disk. -/
def allocate (t : BaseTable) : BaseTable × Nat :=
  let anzDbe := if t.place = t.anzDbe then t.anzDbe + 1 else t.anzDbe
  let (dirBase, j) := downsortDbeEntries t.place (t.dirBase.set t.place none)
  (⟨dirBase.set j (some ⟨t.fresh, 0, j, 0, 0, [], noStat⟩), anzDbe, t.fresh + 1⟩, t.fresh)

/-- The end of the table without free places. -/
def trim (dirBase : List (Option DirBaseEntry)) : Nat → Nat
  | 0 => 0
  | n + 1 => if dirBase[n]?.join.isNone then trim dirBase n else n + 1

/-- `xx_free_dbe_p` -/
def free (t : BaseTable) (e : DirBaseEntry) : BaseTable :=
  let dirBase := t.dirBase.set e.slot none
  { t with dirBase := dirBase, anzDbe := trim dirBase t.anzDbe }

/-- `touch_handle_entry_p` -/
def touch (t : BaseTable) (e : DirBaseEntry) : BaseTable × Nat :=
  if 4 < e.slot then
    let (dirBase, dbase) := downsortDbeEntries e.slot (t.dirBase.set e.slot none)
    ({ t with dirBase := dirBase.set dbase (some { e with slot := dbase }) }, dbase)
  else (t, e.slot)

/-- The entry that was allocated at an address, while it is in the table. -/
def at? (t : BaseTable) (ptr : Nat) : Option DirBaseEntry :=
  (t.dirBase.find? fun slot => slot.any fun e => e.ptr = ptr).join

/-- A write to the entry at an address. -/
def write (t : BaseTable) (ptr : Nat) (f : DirBaseEntry → DirBaseEntry) : BaseTable :=
  { t with dirBase := t.dirBase.map (Option.map fun e => if e.ptr = ptr then f e else e) }

/-- The first entry for a file, within the places in use. -/
def find? (t : BaseTable) (volume : Nat) (id : FileNumbers) : Option DirBaseEntry :=
  ((t.dirBase.take t.anzDbe).find? fun slot =>
    slot.any fun e => e.volume = volume ∧ e.statb.numbers = id).join

/-- `init_name_space_module` with `max_baseh` at least 5. -/
def empty (maxBaseh : Nat) : BaseTable := ⟨List.replicate maxBaseh none, 0, 0⟩

end BaseTable

end MarsNwe.NameSpace
