import MarsNwe.Namspace.NwPaths

/-! # Finding and adding base entries

A base handle holds the inode of a file and the number of its device and name space
in a map of the volume. The entry of a handle is looked for in the table, then on the
disk; the entry of a path is added to the table when it is not there.
-/

namespace MarsNwe.NameSpace

variable {φ : Type}

/-! ## Handles -/

/-- `look_name_space_map` with `do_insert`: the maps and the number of the wanted one. -/
def lookNameSpaceMap (v : NsVol) (maps : List DevNamespaceMap) (dnm : DevNamespaceMap) :
    List DevNamespaceMap × Option Nat :=
  match maps.findIdx? (· = dnm) with
  | some k => (maps, some k)
  | none =>
      if maps.length < v.maxMapsCount then (maps ++ [dnm], some maps.length) else (maps, none)

/-- `nw_vol_inode_to_handle` -/
def nwVolInodeToHandle (w : NsWorld φ) (volume : Nat) (inode : UInt64) (dnm : DevNamespaceMap) :
    NsM φ UInt32 := do
  match w.volumes[volume]? with
  | none => return 0
  | some v =>
      if inode = 0 ∨ v.highInode.toUInt64 < inode then return 0
      else
        let s ← get
        let (maps, result) := lookNameSpaceMap v (s.maps volume) dnm
        set { s with maps := Function.update s.maps volume maps }
        match result with
        | none => return 0
        | some k =>
            return if v.oneDev then inode.toUInt32 else UInt32.ofNat k <<< 28 ||| inode.toUInt32

/-- `nw_vol_handle_to_inode` -/
def nwVolHandleToInode (w : NsWorld φ) (maps : Nat → List DevNamespaceMap) (volume : Nat)
    (handle : UInt32) : Option (UInt32 × DevNamespaceMap) :=
  match w.volumes[volume]? with
  | none => none
  | some v =>
      if handle = 0 then none
      else
        let entry := if v.oneDev then 0 else (handle >>> 28).toNat
        (maps volume)[entry]?.map fun dnm => (handle &&& v.highInode, dnm)

/-! ## Links on disk -/

/-- The link for a file of a volume that has a name. -/
def linkOf (w : NsWorld φ) (volume : Nat) (id : FileId) : Option (List UInt8 × FileId) :=
  match w.volumes[volume]? with
  | none => none
  | some v => if v.sysname = [] then none else some (v.sysname.take 99, id)

/-- `put_dbe_to_disk`. There is no link to an empty path. -/
def putDbeToDisk (w : NsWorld φ) (dbe : DirBaseEntry) : NsM φ Unit :=
  match linkOf w dbe.volume dbe.statb.id with
  | none => return
  | some link =>
      modify fun s => { s with
        links := Function.update s.links link (if dbe.path = [] then none else some dbe.path) }

/-- `del_dbe_from_disk` -/
def delDbeFromDisk (w : NsWorld φ) (dbe : DirBaseEntry) : NsM φ Unit :=
  match linkOf w dbe.volume dbe.statb.id with
  | none => return
  | some link => modify fun s => { s with links := Function.update s.links link none }

/-- `get_dbe_data_from_disk` -/
def getDbeDataFromDisk (w : NsWorld φ) (links : List UInt8 × FileId → Option (List UInt8))
    (volume : Nat) (id : FileId) : Option (List UInt8) :=
  (linkOf w volume id).bind fun link => (links link).map fun path => path.take 511

/-! ## Entries -/

/-- The entry at an address. -/
def theEntry (ptr : Nat) : NsM φ DirBaseEntry := do
  match (← get).table.at? ptr with
  | some e => return e
  | none => throw .freed

/-- The entry at a place of the table. -/
def entryAt (k : Nat) : NsM φ DirBaseEntry := do
  match (← get).table.dirBase[k]?.join with
  | some e => return e
  | none => throw .freed

def setTable (t : BaseTable) : NsM φ Unit := modify fun s => { s with table := t }

/-- A write to an entry. -/
def writeEntry (ptr : Nat) (f : DirBaseEntry → DirBaseEntry) : NsM φ Unit :=
  modify fun s => { s with table := s.table.write ptr f }

/-- `allocate_dbe_p` -/
def allocateDbeP (w : NsWorld φ) : NsM φ Nat := do
  match (← get).table.victim with
  | some e => if e.statb.isDir ∨ w.entry8Flags &&& 0x20 ≠ 0 then putDbeToDisk w e
  | none => pure ()
  let (t, ptr) := (← get).table.allocate
  setTable t
  return ptr

/-- `xx_free_dbe_p` -/
def freeDbeP (ptr : Nat) : NsM φ Unit := do
  let e ← theEntry ptr
  modify fun s => { s with table := s.table.free e }

/-- `touch_handle_entry_p` -/
def touchHandleEntryP (ptr : Nat) : NsM φ Nat := do
  let e ← theEntry ptr
  let (t, k) := (← get).table.touch e
  setTable t
  return k

/-- `nwp_stat` on the entry at an address; an error leaves its `stat` as it is. -/
def nwpStat (w : NsWorld φ) (ptr : Nat) : NsM φ Bool := do
  let e ← theEntry ptr
  match w.stat (← get).fs (nwpath2Unix w e.volume e.path) with
  | some statb =>
      writeEntry ptr fun e => { e with statb := statb }
      return true
  | none => return false

/-- `name_2_base` with `no_stat`. -/
def name2Base (w : NsWorld φ) (volume : Nat) (statb : FileStat) (namespaceId : UInt8) :
    NsM φ UInt32 :=
  nwVolInodeToHandle w volume statb.numbers.ino ⟨statb.numbers.dev.toUInt32, namespaceId⟩

/-- `volume_supports_namespace` -/
def volumeSupportsNamespace (w : NsWorld φ) (volume : Nat) (namespaceId : UInt8) : Int :=
  let os2 := (w.volumes[volume]?.map NsVol.os2).getD false
  let nfs := (w.volumes[volume]?.map NsVol.nfs).getD false
  if namespaceId &&& nameOs2 ≠ 0 ∧ !os2 ∨ namespaceId &&& nameNfs ≠ 0 ∧ !nfs then -0xbf else 0

/-- `add_dbe_entry` -/
def addDbeEntry (w : NsWorld φ) (volume : Nat) (basehandle : UInt32) (path : List UInt8)
    (stb : Option FileStat) : NsM φ Int := do
  let ptr ← allocateDbeP w
  writeEntry ptr fun e => { e with volume := volume, basehandle := basehandle, path := path }
  match stb with
  | some statb => writeEntry ptr fun e => { e with statb := statb }
  | none =>
      if !(← nwpStat w ptr) then
        delDbeFromDisk w (← theEntry ptr)
        freeDbeP ptr
        return -0x9b
  return (← theEntry ptr).slot

/-- `find_base_entry`. A handle that holds no inode stands for the inode -1, which no
file has. -/
def findBaseEntry (w : NsWorld φ) (volume : Nat) (basehandle : UInt32) : NsM φ Int := do
  if basehandle = 0 then return -0x9b
  let s ← get
  match nwVolHandleToInode w s.maps volume basehandle with
  | none => return -0x9b
  | some (ino, dnm) =>
      match s.table.find? volume ⟨signExtend dnm.dev, ino.toUInt64⟩ with
      | some e =>
          if ← nwpStat w e.ptr then return ← touchHandleEntryP e.ptr
          else
            freeDbeP e.ptr
            return -0x9b
      | none =>
          if ino = 0 then return -0x9b
          -- the root of the volume is told by its inode alone, which is returned as an `int`
          match (w.volumes[volume]?.bind fun v => w.stat s.fs v.unixname).filter
              fun statb => asInt statb.numbers.ino = ino.toUInt64 with
          | some statb => addDbeEntry w volume basehandle [] (some statb)
          | none =>
              match getDbeDataFromDisk w s.links volume ⟨dnm.dev, ino⟩ with
              | some path => addDbeEntry w volume basehandle path none
              | none => return -0x9b

/-- `insert_get_base_entry`; `creatmode` is whether to make a directory, if at all. -/
def insertGetBaseEntry (w : NsWorld φ) (volume : Nat) (path : List UInt8) (namespaceId : UInt8)
    (creatmode : Option Bool) : NsM φ Int := do
  let unname := nwpath2Unix w volume path
  let statOf := fun fs => w.stat fs unname
  let handleOf := fun statb : Option FileStat =>
    statb.elim (pure 0) fun statb => name2Base w volume statb namespaceId
  let statb := statOf (← get).fs
  let basehandle ← handleOf statb
  let (statb, basehandle) ← match creatmode with
    | some isDir =>
        if basehandle ≠ 0 then pure (statb, basehandle)
        else if (w.volumes[volume]?.map NsVol.readonly).getD false then return -0x8a
        else
          let (result, fs) := w.nwCreatNode (← get).fs volume unname isDir
          modify fun s => { s with fs := fs }
          if result ≠ 0 then return -0x84
          let statb := statOf fs
          pure (statb, ← handleOf statb)
    | none => pure (statb, basehandle)
  match statb with
  | none => return -0xff
  | some statb =>
      if basehandle = 0 then return -0xff
      match (← get).table.find? volume statb.numbers with
      | some e =>
          if ¬(← nwpStat w e.ptr) ∨ e.path ≠ path then freeDbeP e.ptr
          else return ← touchHandleEntryP e.ptr
      | none => pure ()
      addDbeEntry w volume basehandle path (some statb)

/-- The path that `build_base` starts from. -/
def baseOf (w : NsWorld φ) (nwp : NwHpath) : NsM φ (Except Int (Option Nat × List UInt8)) := do
  if nwp.flag = 0 then
    -- `nw_dir_get_vol_path`
    match usedDir (← get).dirs (nwp.base.toNat % 256) with
    | none => return .error (-0x9b)
    | some d =>
        return .ok (some d.volume,
          if d.path.getLast? = some 0x2f then d.path.dropLast else d.path)
  else if nwp.flag = 1 then
    let result ← findBaseEntry w nwp.volume.toNat nwp.base
    if 0 ≤ result then
      return .ok (some nwp.volume.toNat, (← entryAt result.toNat).path)
    else if nwp.base = 0 then return .ok (some nwp.volume.toNat, [])
    else return .error result
  else if nwp.flag ≠ 0xff then return .error (-0x9c)
  else return .ok (none, [])

/-- The path that `build_base` looks up, and `rets`; with `mode` the last component
goes to `rets`. -/
def hpathOf (w : NsWorld φ) (namespaceId : UInt8) (nwp : NwHpath) (mode : Bool) :
    NsM φ (Except Int (Nat × List UInt8 × List UInt8)) := do
  match ← baseOf w nwp with
  | .error result => return .error result
  | .ok (volume, path) =>
      match addHpathToNwpath w (← get).fs namespaceId volume path nwp with
      | .error (.inl fault) => throw fault
      | .error (.inr result) => return .error result
      | .ok (volume, path) =>
          let lresult := if namespaceId = 0 then 0 else volumeSupportsNamespace w volume namespaceId
          if lresult ≠ 0 then return .error lresult
          else if mode then
            return .ok (volume, dropLastComp path, (lastComp path).take 257)
          else return .ok (volume, path, [])

/-- `build_base`: the place of the entry, or an error, and `rets`. -/
def buildBase (w : NsWorld φ) (namespaceId : UInt8) (nwp : NwHpath) (mode : Bool) :
    NsM φ (Int × List UInt8) := do
  match ← hpathOf w namespaceId nwp mode with
  | .error result => return (result, [])
  | .ok (volume, path, rets) =>
      return (← insertGetBaseEntry w volume path namespaceId none, rets)

/-- The path that `get_add_new_entry` makes of an entry and a name. -/
def entryPath (qbe : DirBaseEntry) (name : List UInt8) : List UInt8 :=
  let path := if qbe.path = [] ∨ qbe.path.getLast? = some 0x2f then qbe.path else qbe.path ++ [0x2f]
  path ++ name.take (511 - path.length)

/-- `get_add_new_entry` -/
def getAddNewEntry (w : NsWorld φ) (ptr : Nat) (namespaceId : UInt8) (name : List UInt8)
    (creatmode : Option Bool) : NsM φ Int := do
  let qbe ← theEntry ptr
  if 511 < (entryPath qbe []).length then throw .overrun
  insertGetBaseEntry w qbe.volume (entryPath qbe name) namespaceId creatmode

end MarsNwe.NameSpace
