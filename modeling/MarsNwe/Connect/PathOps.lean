import MarsNwe.Connect.PathNames
import MarsNwe.Lib.Machine

/-! # Operations on paths

The users of `conn_get_kpl_path`, as far as names go: which names they make and
what they do with the table of directory handles. A call that gets the same name
again, as root or for another bit of the result, is logged once.
-/

namespace MarsNwe

/-- A bit of a result. -/
def hasBit (result : Int) (mask : UInt32) : Bool := UInt32.ofInt result &&& mask ≠ 0

/-! ## The table of directory handles -/

/-- The path as `change_dir_entry` stores it. -/
def storedPath (path : List UInt8) : List UInt8 :=
  let path := if path.head? = some 0x2f ∧ path.tail ≠ [] then path.tail else path
  if path.getLast? = some 0x2f then path else path ++ [0x2f]

/-- `change_dir_entry`; the drive letter -1 and `is_temp` -1 are `none`. -/
def changeDirEntry (dir : NwDir) (volume : Nat) (path : List UInt8) (id : FileNumbers)
    (driveletter isTemp : Option Nat) (newEntry : Bool) (task : Nat) : NwDir × Int :=
  if newEntry ∨ dir.id.ino ≠ 0 ∧ dir.isTemp ≠ 2 then
    let dir := { dir with path := storedPath path, id := id, volume := volume % 256 }
    let dir := match driveletter with
      | some drive => { dir with drive := drive % 256, task := task % 256 }
      | none => if task < dir.task then { dir with task := task % 256 } else dir
    (match isTemp with
      | some temp => { dir with isTemp := temp % 256 }
      | none => dir, 0)
  else (dir, if dir.id.ino = 0 then -0x9b else -0xfa)

/-- What `nw_free_handles` and `nw_init_connect` leave of an entry. -/
def NwDir.free (d : NwDir) : NwDir :=
  ⟨⟨d.id.dev, 0⟩, [], 0, 0, 0, d.task⟩

/-- `MAX_NW_DIRS` -/
def maxNwDirs : Nat := 255

/-- `xinsert_new_dir`: the last free entry but the first, or a new one. -/
def xinsertNewDir (dirs : Dirs) (volume : Nat) (path : List UInt8) (id : FileNumbers)
    (drive isTemp task : Nat) : Dirs × Int :=
  let insert := fun d => (changeDirEntry d volume path id (some drive) (some isTemp) true task).1
  let isFree := fun j => 1 ≤ j ∧ (dirs[j]?.map fun d => d.id.ino) = some 0
  match (List.range dirs.length).reverse.find? isFree with
  | some j =>
      let dirs := dirs.modify j insert
      (dirs.take (j + 1) ++ (dirs.drop (j + 1)).rdropWhile (fun d => d.id.ino = 0), j + 1)
  | none =>
      if dirs.length < maxNwDirs then
        (dirs ++ [insert ⟨⟨0, 0⟩, [], 0, 0, 0, 0⟩], dirs.length + 1)
      else (dirs, -0x9d)

/-- `alter_dir_handle` -/
def alterDirHandle (dirs : Dirs) (targetdir volume : Nat) (path : List UInt8)
    (id : FileNumbers) (task : Nat) : Dirs × Int :=
  match if targetdir = 0 then none else dirs[targetdir - 1]? with
  | none => (dirs, -0x9b)
  | some d =>
      if d.isTemp = 2 then (dirs, -0x9b)
      else
        let (d, result) := changeDirEntry d volume path id none none false task
        (dirs.set (targetdir - 1) d, result)

/-- `nw_free_dir_handle` -/
def nwFreeDirHandle (dirs : Dirs) (dirHandle : Nat) : Dirs × Int :=
  match usedDir dirs dirHandle with
  | none => (dirs, -0x9b)
  | some d => (dirs.set (dirHandle - 1) { d with id.ino := 0, path := [] }, 0)

/-- `nw_free_handles` for a task. -/
def freeTaskHandles (dirs : Dirs) (task : Nat) : Dirs :=
  dirs.map fun d => if d.isTemp ≠ 0 ∧ d.task = task then d.free else d

/-- `free_dir_stuff` for a directory that is gone. -/
def freeDirStuff (dirs : Dirs) (id : FileNumbers) : Dirs :=
  dirs.map fun d => if d.id = id then { d with id.ino := 0 } else d

/-- `nw_init_connect`, which `nw_free_handles` with task -1 is too. -/
def nwInitConnect (w : ConnWorld) (dirs : Dirs) : Conn (Dirs × Int) :=
  let dirs := dirs.map NwDir.free
  match w.volumes with
  | [] => return (dirs, -1)
  | v :: _ => do
      let login := loginName ++ [0x2f]
      let path := if v.options.downshift then CText.visible (login.map w.down) else login
      match ← w.callStat (some 0) (buildUnixName w ⟨path, [], some 0, 0⟩ false false) with
      | none => return (dirs, -1)
      | some st =>
          let d := dirs.headD ⟨⟨0, 0⟩, [], 0, 0, 0, 0⟩
          return ([(changeDirEntry d 0 path st.numbers.devAsInt (some 0) (some 0) true 0).1], 0)

/-- `nw_alloc_dir_handle` -/
def nwAllocDirHandle (w : ConnWorld) (dirs : Dirs) (dirHandle : Nat) (data : List UInt8)
    (driveletter isTemp task : Nat) : Conn (Dirs × Int) := do
  let (p, st) ← connGetKplPath w dirs dirHandle data true
  let unixname ← xstrcpy 257 (buildUnixName w p false false)
  let (dirs, handle) :=
    xinsertNewDir dirs (p.volume.getD 0) p.path st.numbers.asInts driveletter isTemp task
  let _ ← w.call .getEffRights p.volume unixname
  return (dirs, handle)

/-- `nw_set_dir_handle` -/
def nwSetDirHandle (w : ConnWorld) (dirs : Dirs) (targetdir dirHandle : Nat)
    (data : List UInt8) (task : Nat) : Conn (Dirs × Int) := do
  let (p, st) ← connGetKplPath w dirs dirHandle data true
  return alterDirHandle dirs targetdir (p.volume.getD 0) p.path st.numbers.asInts task

/-! ## Searching -/

/-- The test of an entry, which the searches share: `dir` ends with `/`. -/
def tryEntry (w : ConnWorld) (v : NwVol) (volume : Option Nat) (dir entry : List UInt8)
    (attrib : UInt32) (noSearchTrustee : Bool) (d : Dirent) :
    Conn (Option (List UInt8 × FileStat)) :=
  let dname := CText.visible (d.name.map w.unix2dos)
  if d.ino ≠ 0 ∧ d.name.headD 0 ≠ 0x2e ∧
      (dname = entry ∨ fnDosMatch w.charTables v.options dname entry) then do
    let unixname := dir ++ d.name.take (255 - dir.length)
    match ← w.callStat volume unixname with
    | none => return none
    | some st =>
        if st.isDir ≠ (attrib &&& 0x10 != 0) then return none
        else if noSearchTrustee then do
          let denied ← w.call (.effRightsExists trusteeT) volume unixname
          return if denied ≠ 0 then none else some (dname, st)
        else return some (dname, st)
  else return none

/-- The loop of `func_search_entry`. -/
def funcSearchLoop (w : ConnWorld) (v : NwVol) (p : NwPath) (dir : List UInt8) (attrib : UInt32)
    (fsFunc : Dirs → NwPath → FileStat → Conn (Dirs × Int)) :
    List Dirent → Dirs → Int → Conn (Dirs × Int)
  | [], dirs, result => return (dirs, result)
  | d :: ds, dirs, result => do
      match ← tryEntry w v p.volume dir p.fn attrib false d with
      | none => funcSearchLoop w v p dir attrib fsFunc ds dirs result
      | some (dname, st) =>
          let (dirs, result) ← fsFunc dirs { p with fn := dname } st
          if result < 0 then return (dirs, result)
          else funcSearchLoop w v p dir attrib fsFunc ds dirs 1

/-- `func_search_entry` -/
def funcSearchEntry (w : ConnWorld) (dirs : Dirs) (p : NwPath) (attrib : UInt32)
    (fsFunc : Dirs → NwPath → FileStat → Conn (Dirs × Int)) : Conn (Dirs × Int) :=
  match p.volume.bind fun j => w.volumes[j]? with
  | none => return (dirs, -1)
  | some v => do
      let xkpath ← xstrcpy 256 (buildUnixName w { p with fn := [] } true true)
      match ← w.callStat p.volume xkpath with
      | none => return (dirs, 0)
      | some _ =>
          let denied ← w.call (.effRightsExists trusteeF) p.volume xkpath
          if denied ≠ 0 then return (dirs, 0)
          else
            match ← w.callOpendir p.volume xkpath with
            | none => return (dirs, 0)
            | some entries =>
                let kpath ← putBehind 256 xkpath 0x2f
                funcSearchLoop w v p kpath attrib fsFunc entries dirs 0

/-- The loop of `get_dir_entry`. -/
def getDirEntryLoop (w : ConnWorld) (v : NwVol) (p : NwPath) (dir : List UInt8) (attrib : UInt32)
    (noSearchTrustee : Bool) : List Dirent → Nat → Conn (NwPath × FileStat × Nat)
  | [], _ => Logged.stop (.code (-0xff))
  | d :: ds, sequence => do
      match ← tryEntry w v p.volume dir p.fn attrib noSearchTrustee d with
      | none => getDirEntryLoop w v p dir attrib noSearchTrustee ds (sequence + 1)
      | some (dname, st) => return ({ p with fn := dname }, st, sequence + 1)

/-- `get_dir_entry`, with the names it uses: the path of the entry found. -/
def findDirEntry (w : ConnWorld) (p : NwPath) (sequence : Nat) (attrib : UInt32) :
    Conn (NwPath × FileStat × Nat) :=
  match p.volume.bind fun j => w.volumes[j]? with
  | none => Logged.stop (.code (-0x98))
  | some v => do
      let xkpath ← xstrcpy 256 (buildUnixName w { p with fn := [] } true true)
      match ← w.callStat p.volume xkpath with
      | none => Logged.stop (.code (-0x89))
      | some _ =>
          let noSearchTrustee ← w.call (.effRightsExists trusteeF) p.volume xkpath
          if noSearchTrustee ≠ 0 ∧ ¬hasBit noSearchTrustee 0x200 then
            Logged.stop (.code (-0x89))
          else
            match ← w.callOpendir p.volume xkpath with
            | none => Logged.stop (.code (-0x89))
            | some entries =>
                let kpath ← putBehind 256 xkpath 0x2f
                let sequence := if sequence = 0xffff then 0 else sequence
                if entries.length < sequence then Logged.stop (.code (-0xff))
                else
                  getDirEntryLoop w v p kpath attrib (noSearchTrustee != 0)
                    (entries.drop sequence) sequence

/-- `nw_search` -/
def nwSearch (w : ConnWorld) (dirs : Dirs) (dirHandle searchsequence : Nat)
    (searchAttrib : UInt32) (data : List UInt8) : Conn Int := do
  let (p, _) ← connGetKplPath w dirs dirHandle data false
  let (p, _, sequence) ← findDirEntry w p searchsequence searchAttrib
  let unixname ← xstrcpy 300 (buildUnixName w p false false)
  let _ ← w.call .getAttrib p.volume unixname
  return sequence

/-- `nw_scan_a_directory`; -1 as the beginning of the search is `none`. -/
def nwScanADirectory (w : ConnWorld) (dirs : Dirs) (dirHandle : Nat) (data : List UInt8)
    (searchattrib : UInt32) (searchbeg : Option Nat) : Conn Int := do
  let (p, _) ← connGetKplPath w dirs dirHandle data false
  let (p, _, sequence) ← findDirEntry w p (searchbeg.getD 0xffff) searchattrib
  let unixname ← xstrcpy 300 (buildUnixName w p false false)
  let _ ← w.call .getAttrib p.volume unixname
  let _ ← w.call .getInheritedMask p.volume unixname
  return sequence

/-- `nw_scan_a_root_dir` -/
def nwScanARootDir (w : ConnWorld) (dirs : Dirs) (dirHandle : Nat) : Conn Int := do
  let (p, _) ← connGetKplPath w dirs dirHandle [] true
  let unixname ← xstrcpy 300 (buildUnixName w p false true)
  match ← w.callStat p.volume unixname with
  | none => Logged.stop (.code (-0xff))
  | some _ =>
      let _ ← w.call .getAttrib p.volume unixname
      let _ ← w.call .getInheritedMask p.volume unixname
      return 0

/-- `nw_set_a_directory_entry` -/
def nwSetADirectoryEntry (w : ConnWorld) (dirs : Dirs) (dirHandle : Nat) (data : List UInt8)
    (searchattrib changeMask : UInt32) : Conn Int := do
  let (p, _) ← connGetKplPath w dirs dirHandle data false
  let (p, _, _) ← findDirEntry w p 0xffff searchattrib
  let unixname ← xstrcpy 300 (buildUnixName w p false false)
  let completion ← if changeMask &&& 2 ≠ 0 then w.call .setAttrib p.volume unixname else pure 0
  if changeMask &&& 0x1000 ≠ 0 then
    let result ← w.call .setInheritedMask p.volume unixname
    return if result ≠ 0 then result else completion
  else return completion

/-! ## Operations on one name -/

/-- How the operations on an existing file or directory begin: its path, its name
and what `s_stat` says of it. -/
def checkedName (w : ConnWorld) (dirs : Dirs) (dirHandle : Nat) (data : List UInt8)
    (onlyDir needDir : Bool) : Conn (NwPath × List UInt8 × FileStat) := do
  let (p, _) ← connGetKplPath w dirs dirHandle data onlyDir
  let unname ← xstrcpy 256 (buildUnixName w p false false)
  match ← w.callStat p.volume unname with
  | none => Logged.stop (.code (-0x9c))
  | some st =>
      if needDir ∧ ¬st.isDir then Logged.stop (.code (-0x9c)) else return (p, unname, st)

/-- `nw_add_trustee` -/
def nwAddTrustee (w : ConnWorld) (dirs : Dirs) (dirHandle : Nat) (data : List UInt8)
    (extended : Bool) : Conn Int := do
  let (p, unname, _) ← checkedName w dirs dirHandle data false (!extended)
  w.call .addTrustee p.volume unname

/-- `nw_del_trustee` -/
def nwDelTrustee (w : ConnWorld) (dirs : Dirs) (dirHandle : Nat) (data : List UInt8)
    (extended : Bool) : Conn Int := do
  let (p, unname, _) ← checkedName w dirs dirHandle data false (!extended)
  w.call .delTrustee p.volume unname

/-- `nw_scan_for_trustee` -/
def nwScanForTrustee (w : ConnWorld) (dirs : Dirs) (dirHandle : Nat) (path : List UInt8)
    (extended : Bool) : Conn Int := do
  let (p, unname, _) ← checkedName w dirs dirHandle path (!extended) (!extended)
  w.call .getTrusteeSet p.volume unname

/-- `nw_get_eff_dir_rights` -/
def nwGetEffDirRights (w : ConnWorld) (dirs : Dirs) (dirHandle : Nat) (data : List UInt8)
    (modus : Bool) : Conn Int := do
  let (p, unname, _) ← checkedName w dirs dirHandle data false (!modus)
  w.call .getEffRights p.volume unname

/-- `nw_utime_node` -/
def nwUtimeNode (w : ConnWorld) (volume : Option Nat) (unname : List UInt8) : Conn Int := do
  let denied ← w.call (.effRightsExists trusteeM) volume unname
  if denied ≠ 0 then return -0x8c
  else
    let result ← w.call .utime volume unname
    return if result ≠ 0 then -0x8c else 0

/-- `nw_set_dir_info` -/
def nwSetDirInfo (w : ConnWorld) (dirs : Dirs) (dirHandle : Nat) (data : List UInt8) :
    Conn Int := do
  let (p, unname, _) ← checkedName w dirs dirHandle data false true
  let result ← nwUtimeNode w p.volume unname
  if result ≠ 0 then return result else w.call .setInheritedMask p.volume unname

/-- `nw_set_file_attributes`, which goes on when `build_path` fails. -/
def nwSetFileAttributes (w : ConnWorld) (dirs : Dirs) (dirHandle : Nat) (data : List UInt8) :
    Conn Int :=
  let (p, _) := buildPath w data false
  if p.fn.head? = some 0x2e then Logged.stop (.code (-0x9c))
  else do
    let (p, _) ← buildDirName w dirs p dirHandle
    let unname ← xstrcpy 256 (buildUnixName w p false true)
    match ← w.callStat p.volume unname with
    | none => Logged.stop (.code (-0x9c))
    | some _ =>
        let result ← w.call .setAttrib p.volume unname
        return if result ≠ 0 then -0x8c else 0

/-- `nw_creat_open_file` -/
def nwCreatOpenFile (w : ConnWorld) (dirs : Dirs) (dirHandle : Nat) (data : List UInt8) :
    Conn Int := do
  let (p, _) ← connGetKplPath w dirs dirHandle data false
  let unixname ← xstrcpy 300 (buildUnixName w p false false)
  let completion ← w.call .fileCreatOpen p.volume unixname
  if -1 < completion then
    let _ ← w.call .getAttrib p.volume unixname
    return completion
  else return completion

/-- `nw_log_file` -/
def nwLogFile (w : ConnWorld) (dirs : Dirs) (dirHandle : Nat) (data : List UInt8)
    (lockFlag : Int) : Conn Int := do
  let (p, _) ← connGetKplPath w dirs dirHandle data false
  let unixname ← xstrcpy 300 (buildUnixName w p false false)
  match ← w.callStat p.volume unixname with
  | none => return -0xff
  | some st => return w.logLock lockFlag st.id

/-! ## Directory handles for searches -/

/-- `new_dir_handle` as far as a name is concerned, with the result of the test of
the rights. -/
def newDirHandle (w : ConnWorld) (p : NwPath) : Conn (List UInt8 × Int) := do
  let unixname ← xstrcpy 256 (buildUnixName w p false false)
  let noSearchTrustee ← w.call (.effRightsExists trusteeF) p.volume unixname
  if noSearchTrustee ≠ 0 ∧ ¬hasBit noSearchTrustee 0x200 then Logged.stop (.code (-0xff))
  else
    match ← w.callOpendir p.volume unixname with
    | none => Logged.stop (.code (-0xff))
    | some _ => return (unixname, noSearchTrustee)

/-- `nw_open_dir_handle`: the path, its name, the test of the rights and the rights. -/
def nwOpenDirHandle (w : ConnWorld) (dirs : Dirs) (dirHandle : Nat) (data : List UInt8) :
    Conn (NwPath × List UInt8 × Int × Int) := do
  let (p, _) ← connGetKplPath w dirs dirHandle data true
  let (unixname, noSearchTrustee) ← newDirHandle w p
  let _ ← w.callStat p.volume unixname
  let rights ← w.call .getEffRights p.volume unixname
  return (p, unixname, noSearchTrustee, rights)

/-- The loop of `s_nw_scan_dir_info` over `get_dh_entry`: the entry of a number, and
its inherited mask. -/
def scanDirInfoLoop (w : ConnWorld) (v : NwVol) (p : NwPath) (unixname wild : List UInt8)
    (noSearchTrustee : Bool) : List Dirent → Nat → Conn Int
  | [], _ => return -0xff
  | d :: ds, count => do
      match ← tryEntry w v p.volume unixname wild 0x10 noSearchTrustee d with
      | none => scanDirInfoLoop w v p unixname wild noSearchTrustee ds count
      | some _ =>
          if count ≤ 1 then
            w.call .getInheritedMask p.volume (unixname ++ d.name.take (255 - unixname.length))
          else scanDirInfoLoop w v p unixname wild noSearchTrustee ds (count - 1)

/-- `nw_scan_dir_info`: what follows the last separator is searched in the directory
before it. -/
def nwScanDirInfo (w : ConnWorld) (dirs : Dirs) (dirHandle : Nat) (data : List UInt8)
    (subnr : Nat) : Conn Int := do
  let before := data.rdropWhile fun c => ¬(c = 0x2f ∨ c = 0x5c ∨ c = 0x3a)
  let dirname := CText.visible (data.drop before.length)
  let (p, unixname, noSearchTrustee, rights) ← nwOpenDirHandle w dirs dirHandle before
  if rights ≤ -1 then return rights
  else
    match p.volume.bind fun j => w.volumes[j]? with
    | none => return -0xff
    | some v =>
        let wild := w.caseFn v dirname
        if wild ≠ [] then
          match ← w.callOpendir p.volume unixname with
          | none => return -0xff
          | some entries =>
              scanDirInfoLoop w v p unixname wild (noSearchTrustee != 0) entries subnr
        else
          let itself ← putBehind 256 unixname 0x2e
          match ← w.callStat p.volume itself with
          | none => return -0xff
          | some _ => w.call .getInheritedMask p.volume itself

/-! ## Making, removing and renaming -/

/-- `nw_unlink_node` -/
def nwUnlinkNode (w : ConnWorld) (dirs : Dirs) (volume : Option Nat) (unname : List UInt8)
    (st : FileStat) : Conn (Dirs × Int) := do
  let attrib ← w.call .getAttrib volume unname
  -- `FILE_ATTR_R | FILE_ATTR_DELETE_INH`
  if hasBit attrib 0x40001 then return (dirs, -0x8a)
  else
    let denied ← w.call (.effRightsExists trusteeE) volume unname
    if denied ≠ 0 then return (dirs, -0x8a)
    else if st.isDir then
      let result ← w.call .rmdir volume unname
      return (if result = 0 then freeDirStuff dirs st.numbers else dirs, result)
    else if w.entry8Flags &&& 0x10 = 0 ∧ w.shared st.id then return (dirs, -0x8a)
    else
      let result ← w.call .unlink volume unname
      return (dirs, if result ≠ 0 then -0x8a else 0)

/-- The directory that `nw_creat_node` takes for the parent of a name. -/
def parentName (unname : List UInt8) : Option (List UInt8) :=
  let kept := unname.rdropWhile fun c => c ≠ 0x2f
  if 1 < kept.length then some kept.dropLast
  else if unname.head? = some 0x2f then some [0x2f, 0x2e]
  else none

/-- `nw_creat_node` for a directory. -/
def nwCreatDirNode (w : ConnWorld) (volume : Option Nat) (unname : List UInt8) : Conn Int :=
  match parentName unname with
  | none => return -0x9c
  | some path => do
      match ← w.callStat volume path with
      | none => return -0x9c
      | some _ =>
          let denied ← w.call (.effRightsExists trusteeC) volume path
          if denied ≠ 0 then return -0x84
          else
            let result ← w.call .mkdir volume unname
            return if result ≠ 0 then -0xff else 0

/-- `nw_mk_rd_dir` -/
def nwMkRdDir (w : ConnWorld) (dirs : Dirs) (dirHandle : Nat) (data : List UInt8)
    (mode : Bool) : Conn (Dirs × Int) := do
  let (p, _) ← connGetKplPath w dirs dirHandle data (!mode)
  let unname ← xstrcpy 256 (buildUnixName w p false true)
  if mode then
    let result ← nwCreatDirNode w p.volume unname
    return (dirs, result)
  else
    match ← w.callStat p.volume unname with
    | none => return (dirs, -0x9c)
    | some st => nwUnlinkNode w dirs p.volume unname st

/-- A rename, which gets two names. -/
def callMove (w : ConnWorld) (c : FsCall) (volume : Option Nat) (source : List UInt8)
    (destVolume : Option Nat) (dest : List UInt8) : Conn Int := do
  Logged.emit ⟨c, volume, source⟩
  w.call c destVolume dest

/-- `mv_dir`: the destination is the directory of the source with the destination
data behind it, as they are. -/
def mvDir (w : ConnWorld) (dirs : Dirs) (dirHandle : Nat) (sourcedata destdata : List UInt8) :
    Conn Int := do
  let (quell, _) ← connGetKplPath w dirs dirHandle sourcedata false
  let qfn ← xstrcpy 256 (buildUnixName w quell false false)
  let fn ← xstrcpy 256 (CText.visible destdata)
  match quell.volume.bind fun j => w.volumes[j]? with
  | none => Logged.stop (.code (-0x9c))
  | some v =>
      let ziel := { quell with fn := w.caseFn v fn }
      let zpath ← xstrcpy 256 (buildUnixName w ziel true false)
      match ← w.callStat quell.volume qfn with
      | none => return -0x8b
      | some _ =>
          let denied ←
            w.call (.effRightsExists (trusteeW ||| trusteeM ||| trusteeR)) quell.volume qfn
          if denied ≠ 0 then return -0x8b
          else
            match ← w.callStat ziel.volume zpath with
            | none => return -0x8b
            | some _ =>
                let denied ← w.call (.effRightsExists trusteeW) ziel.volume zpath
                if denied ≠ 0 then return -0x8b
                else
                  let unziel ← xstrcpy 256 (buildUnixName w ziel false false)
                  let result ← callMove w .mvDir quell.volume qfn ziel.volume unziel
                  -- `EEXIST` and `EXDEV`
                  return if result = 0 then 0 else if result = 17 then -0x92
                    else if result = 18 then -0x9a else -0x9c

/-! ## Operations on all files that match -/

/-- `do_delete_file` -/
def doDeleteFile (w : ConnWorld) (dirs : Dirs) (p : NwPath) (st : FileStat) :
    Conn (Dirs × Int) := do
  let unname ← xstrcpy 256 (buildUnixName w p false false)
  nwUnlinkNode w dirs p.volume unname st

/-- `do_set_file_info` -/
def doSetFileInfo (w : ConnWorld) (v : NwVol) (dirs : Dirs) (p : NwPath) (_ : FileStat) :
    Conn (Dirs × Int) := do
  let unname ← xstrcpy 256 (buildUnixName w p false false)
  match ← w.callStat p.volume unname with
  | none => return (dirs, -0xff)
  | some st =>
      if st.isFifo ∨ v.options.isPipe then return (dirs, 0)
      else
        let denied ← w.call (.effRightsExists trusteeM) p.volume unname
        if denied ≠ 0 then return (dirs, -0x8c)
        else
          let result ← w.call .setAttrib p.volume unname
          if result ≠ 0 then return (dirs, result)
          else
            let result ← w.call .utime p.volume unname
            return (dirs, if result ≠ 0 then -0x8c else 0)

/-- A point, in either of its two forms. -/
def isPoint (c : UInt8) : Prop := c = 0x2e ∨ c = 0xae

instance (c : UInt8) : Decidable (isPoint c) := inferInstanceAs (Decidable (_ ∨ _))

/-- A question mark, in either of its two forms. -/
def isQuery (c : UInt8) : Prop := c = 0x3f ∨ c = 0xbf

instance (c : UInt8) : Decidable (isQuery c) := inferInstanceAs (Decidable (_ ∨ _))

/-- A character of the source, unless its name or its extension ends. -/
def skipOne (frompath : List UInt8) : List UInt8 :=
  if frompath.head?.any fun c => ¬isPoint c then frompath.tail else frompath

/-- The loop of `do_mv_file`: the name that a destination with wildcards has for a
source. -/
def wildName : (otopath frompath : List UInt8) → List UInt8
  | [], _ => []
  | c :: otopath, frompath =>
      if isQuery c then
        (frompath.head?.filter fun c => ¬isPoint c).toList ++ wildName otopath (skipOne frompath)
      else if isPoint c then
        let rest := wildName otopath (frompath.dropWhile fun c => ¬isPoint c).tail
        -- a point at the end is left out
        if otopath = [] then rest else 0x2e :: rest
      else c :: wildName otopath (skipOne frompath)

/-- `do_mv_file` -/
def doMvFile (w : ConnWorld) (destpath : NwPath) (dirs : Dirs) (p : NwPath) (fs : FileStat) :
    Conn (Dirs × Int) := do
  let unsource ← xstrcpy 256 (buildUnixName w p false false)
  match ← w.callStat p.volume unsource with
  | none => return (dirs, -0x8b)
  | some _ =>
      let denied ←
        w.call (.effRightsExists (trusteeW ||| trusteeM ||| trusteeR)) p.volume unsource
      if denied ≠ 0 then return (dirs, -0x8b)
      else if ¬fs.isDir ∧ w.entry8Flags &&& 0x80 = 0 ∧ w.shared fs.id then return (dirs, -0x8a)
      else
        let dest := { destpath with fn := wildName destpath.fn p.fn }
        let undest ← xstrcpy 256 (buildUnixName w dest false false)
        let result ← callMove w .mvFile p.volume unsource dest.volume undest
        -- `EEXIST`, `EXDEV` and `EROFS`
        return (dirs, if result = 0 then 0 else if result = 17 then -0x92
          else if result = 18 then -0x9a else if result = 30 then -0x8b else -0xff)

/-- The answer of the operations that search: nothing found is an error. -/
def searched (r : Dirs × Int) : Dirs × Int := if r.2 = 0 then (r.1, -0xff) else r

/-- `nw_delete_files` -/
def nwDeleteFiles (w : ConnWorld) (dirs : Dirs) (dirHandle : Nat) (searchattrib : UInt32)
    (data : List UInt8) : Conn (Dirs × Int) := do
  let (p, _) ← connGetKplPath w dirs dirHandle data false
  let r ← funcSearchEntry w dirs p searchattrib (doDeleteFile w)
  return searched r

/-- `nw_set_file_information` -/
def nwSetFileInformation (w : ConnWorld) (dirs : Dirs) (dirHandle : Nat) (data : List UInt8)
    (searchattrib : UInt32) : Conn (Dirs × Int) := do
  let (p, _) ← connGetKplPath w dirs dirHandle data false
  match p.volume.bind fun j => w.volumes[j]? with
  | none => return (dirs, -1)
  | some v =>
      let r ← funcSearchEntry w dirs p searchattrib (doSetFileInfo w v)
      return searched r

/-- `nw_mv_files` -/
def nwMvFiles (w : ConnWorld) (dirs : Dirs) (searchattrib : UInt32) (sourcedirhandle : Nat)
    (sourcedata : List UInt8) (destdirhandle : Nat) (destdata : List UInt8) :
    Conn (Dirs × Int) := do
  let (p, _) ← connGetKplPath w dirs sourcedirhandle sourcedata false
  let (destpath, _) ← connGetKplPath w dirs destdirhandle destdata false
  let dest ← xstrcpy 256 (buildUnixName w destpath true false)
  let denied ← w.call (.effRightsExists trusteeW) destpath.volume dest
  if denied ≠ 0 then return (dirs, -0x8b)
  else
    let (dirs, result) ← funcSearchEntry w dirs p searchattrib (doMvFile w destpath)
    return if result < 0 then (dirs, result) else if result = 0 then (dirs, -0xff) else (dirs, 0)

/-! ## Requests -/

/-- The requests, with the path given by its bytes. The name space calls put paths
of their own into handles. -/
inductive PathRequest
  | initConnect
  | freeHandles (task : Nat)
  | freeDirHandle (dirHandle : Nat)
  | nameSpaceAlloc (volume : Nat) (path : List UInt8) (id : FileNumbers) (isTemp task : Nat)
  | nameSpaceAlter (targetdir volume : Nat) (path : List UInt8) (id : FileNumbers) (task : Nat)
  | allocDirHandle (dirHandle : Nat) (data : List UInt8) (driveletter isTemp task : Nat)
  | setDirHandle (targetdir dirHandle : Nat) (data : List UInt8) (task : Nat)
  | openDirHandle (dirHandle : Nat) (data : List UInt8)
  | scanDirInfo (dirHandle : Nat) (data : List UInt8) (subnr : Nat)
  | search (dirHandle sequence : Nat) (attrib : UInt32) (data : List UInt8)
  | scanADirectory (dirHandle : Nat) (data : List UInt8) (attrib : UInt32)
      (searchbeg : Option Nat)
  | scanARootDir (dirHandle : Nat)
  | setADirectoryEntry (dirHandle : Nat) (data : List UInt8) (attrib changeMask : UInt32)
  | addTrustee (dirHandle : Nat) (data : List UInt8) (extended : Bool)
  | delTrustee (dirHandle : Nat) (data : List UInt8) (extended : Bool)
  | scanForTrustee (dirHandle : Nat) (data : List UInt8) (extended : Bool)
  | getEffDirRights (dirHandle : Nat) (data : List UInt8) (modus : Bool)
  | setDirInfo (dirHandle : Nat) (data : List UInt8)
  | setFileAttributes (dirHandle : Nat) (data : List UInt8)
  | creatOpenFile (dirHandle : Nat) (data : List UInt8)
  | logFile (dirHandle : Nat) (data : List UInt8) (lockFlag : Int)
  | mkdir (dirHandle : Nat) (data : List UInt8)
  | rmdir (dirHandle : Nat) (data : List UInt8)
  | mvDir (dirHandle : Nat) (sourcedata destdata : List UInt8)
  | mvFiles (attrib : UInt32) (sourcedirhandle : Nat) (sourcedata : List UInt8)
      (destdirhandle : Nat) (destdata : List UInt8)
  | deleteFiles (dirHandle : Nat) (attrib : UInt32) (data : List UInt8)
  | setFileInformation (dirHandle : Nat) (data : List UInt8) (attrib : UInt32)

/-- An operation that leaves the handles alone. -/
def keepDirs (dirs : Dirs) (m : Conn Int) : Conn (Dirs × Int) := do
  let result ← m
  return (dirs, result)

/-- What a request passes on, and the table and the completion after it. -/
def pathRequest (w : ConnWorld) (dirs : Dirs) : PathRequest → Conn (Dirs × Int)
  | .initConnect => nwInitConnect w dirs
  | .freeHandles task => return (freeTaskHandles dirs task, 0)
  | .freeDirHandle h => return nwFreeDirHandle dirs h
  -- the drive letter of these is 300
  | .nameSpaceAlloc volume path id isTemp task =>
      return xinsertNewDir dirs volume path id.asInts 300 isTemp task
  | .nameSpaceAlter target volume path id task =>
      return alterDirHandle dirs target volume path id.asInts task
  | .allocDirHandle h data drive isTemp task => nwAllocDirHandle w dirs h data drive isTemp task
  | .setDirHandle target h data task => nwSetDirHandle w dirs target h data task
  | .openDirHandle h data => do
      let (_, _, _, rights) ← nwOpenDirHandle w dirs h data
      return (dirs, rights)
  | .scanDirInfo h data subnr => keepDirs dirs (nwScanDirInfo w dirs h data subnr)
  | .search h sequence attrib data => keepDirs dirs (nwSearch w dirs h sequence attrib data)
  | .scanADirectory h data attrib searchbeg =>
      keepDirs dirs (nwScanADirectory w dirs h data attrib searchbeg)
  | .scanARootDir h => keepDirs dirs (nwScanARootDir w dirs h)
  | .setADirectoryEntry h data attrib changeMask =>
      keepDirs dirs (nwSetADirectoryEntry w dirs h data attrib changeMask)
  | .addTrustee h data extended => keepDirs dirs (nwAddTrustee w dirs h data extended)
  | .delTrustee h data extended => keepDirs dirs (nwDelTrustee w dirs h data extended)
  | .scanForTrustee h data extended => keepDirs dirs (nwScanForTrustee w dirs h data extended)
  | .getEffDirRights h data modus => keepDirs dirs (nwGetEffDirRights w dirs h data modus)
  | .setDirInfo h data => keepDirs dirs (nwSetDirInfo w dirs h data)
  | .setFileAttributes h data => keepDirs dirs (nwSetFileAttributes w dirs h data)
  | .creatOpenFile h data => keepDirs dirs (nwCreatOpenFile w dirs h data)
  | .logFile h data lockFlag => keepDirs dirs (nwLogFile w dirs h data lockFlag)
  | .mkdir h data => nwMkRdDir w dirs h data true
  | .rmdir h data => nwMkRdDir w dirs h data false
  | .mvDir h source dest => keepDirs dirs (mvDir w dirs h source dest)
  | .mvFiles attrib hs source hd dest => nwMvFiles w dirs attrib hs source hd dest
  | .deleteFiles h attrib data => nwDeleteFiles w dirs h attrib data
  | .setFileInformation h data attrib => nwSetFileInformation w dirs h data attrib

/-- The server under requests, each in a world of its own. A request that ends
early leaves the table as it is. -/
def pathMachine : Machine Dirs (ConnWorld × PathRequest) (Except Stop Int × List Passed) where
  step dirs e :=
    let r := pathRequest e.1 dirs e.2
    match r.result with
    | .ok (dirs, completion) => ((.ok completion, r.log), dirs)
    | .error stop => ((.error stop, r.log), dirs)

end MarsNwe
