import Mathlib.Algebra.Ring.Nat
import MarsNwe.Lib.Machine
import MarsNwe.Namspace.Search

/-! # The requests of function 0x57

Each request looks up a path or a base handle and works on the entry it has found. What
a request keeps of an entry while it goes on is its address.
-/

namespace MarsNwe.NameSpace

variable {φ : Type}

/-- A call that changes what `φ` describes. -/
def change {α : Type} (f : φ → α × φ) : NsM φ α := do
  let (a, fs) := f (← get).fs
  modify fun s => { s with fs := fs }
  return a

/-- `tru_eff_rights_exists` returns 0. -/
def hasRights (w : NsWorld φ) (e : DirBaseEntry) (unname : List UInt8) (rights : Rights) :
    NsM φ Bool :=
  return w.truEffRightsExists (← get).fs e.volume unname e.statb rights = 0

def unixNameOf (w : NsWorld φ) (e : DirBaseEntry) : List UInt8 := nwpath2Unix w e.volume e.path

/-- `nw_generate_dir_path` -/
def nwGenerateDirPath (w : NsWorld φ) (namespaceId : UInt8) (nwp : NwHpath) : NsM φ Int := do
  let (result, _) ← buildBase w namespaceId nwp false
  if result < 0 then return result
  let dbe ← entryAt result.toNat
  if namespaceId ≠ nameDos then discard <| name2Base w dbe.volume dbe.statb nameDos
  return dbe.volume

/-- `nw_optain_file_dir_info` -/
def nwOptainFileDirInfo (w : NsWorld φ) (namespaceId : UInt8) (nwp : NwHpath)
    (destnamspace : UInt8) (infomask : UInt32) : NsM φ Int := do
  let (result, _) ← buildBase w namespaceId nwp false
  if result < 0 then return result
  let dbe ← entryAt result.toNat
  discard <| nwpStat w dbe.ptr
  buildDirInfo w dbe.ptr destnamspace infomask

/-- `nsp_get_eff_rights` -/
def nspGetEffRights (w : NsWorld φ) (namespaceId : UInt8) (nwp : NwHpath)
    (destnamspace : UInt8) (infomask : UInt32) : NsM φ Int := do
  let result ← nwOptainFileDirInfo w namespaceId nwp destnamspace infomask
  return if 0 ≤ result then result + 2 else result

/-- `nw_init_search` -/
def nwInitSearch (w : NsWorld φ) (namespaceId : UInt8) (nwp : NwHpath) : NsM φ Int := do
  let (result, _) ← buildBase w namespaceId nwp false
  if result < 0 then return result
  let dbe ← entryAt result.toNat
  return if dbe.statb.isDir then 9 else -0xff

/-- `nw_open_creat_file_or_dir` -/
def nwOpenCreatFileOrDir (w : NsWorld φ) (namespaceId : UInt8) (opencreatmode : UInt8)
    (infomask creatattrib : UInt32) (accessRights : Nat) (nwp : NwHpath) : NsM φ Int := do
  let (exist, _) ← buildBase w namespaceId nwp false
  -- `FILE_ATTR_DIR`
  let isDir := creatattrib &&& 0x10 ≠ 0
  let result ← if exist = -0xff ∧ opencreatmode &&& 0x0a ≠ 0 then do
      let (result, lastPart) ← buildBase w namespaceId nwp true
      if result < 0 then pure result
      else getAddNewEntry w (← entryAt result.toNat).ptr namespaceId lastPart (some isDir)
    else pure exist
  if result < 0 then return result
  if 0 ≤ exist ∧ opencreatmode = 8 then return -0x85
  let dbe ← entryAt result.toNat
  if isDir then
    if 0 ≤ exist then return -0x84
  else if opencreatmode &&& 0x0b = 0 then return -0xff
  else
    let creatmode := if opencreatmode &&& 8 ≠ 0 ∨ opencreatmode = 2 then 1 else 0
    let (result, statb) ← change fun fs =>
      let (result, statb, fs) :=
        w.fileCreatOpen fs dbe.volume (unixNameOf w dbe) dbe.statb accessRights creatmode
      ((result, statb), fs)
    writeEntry dbe.ptr fun e => { e with statb := statb }
    if result < 0 then return result
  let result ← buildDirInfo w dbe.ptr namespaceId infomask
  return if 0 ≤ result then result + 6 else result

/-- `rmdir_from_structures` -/
def rmdirFromStructures (w : NsWorld φ) (unname : List UInt8) (ptr : Nat) : NsM φ Unit := do
  let dbe ← theEntry ptr
  modify fun s => { s with
    fs := w.freeNwExtInode s.fs dbe.volume unname dbe.statb.id
    handles := AgedSlots.free (fun d => d.id = dbe.statb.numbers.devAsInt) s.handles }
  delDbeFromDisk w dbe
  freeDbeP ptr

/-- `delete_file_dir`. The directory handles go with a directory. -/
def deleteFileDir (w : NsWorld φ) (ptr : Nat) : NsM φ Int := do
  let dbe ← theEntry ptr
  let unname := unixNameOf w dbe
  let result ← change fun fs => w.nwUnlinkNode fs dbe.volume unname dbe.statb
  if result = 0 then
    if dbe.statb.isDir then
      modify fun s => { s with dirs := freeDirStuff s.dirs dbe.statb.numbers }
      rmdirFromStructures w unname ptr
    else freeDbeP ptr
  return result

/-- What the requests on sets of files do alike: `func_search_entry` in the directory of
a path, on a volume that may be written to. -/
def searchInParent (w : NsWorld φ) (namespaceId : UInt8) (nwp : NwHpath)
    (search : Nat → List UInt8 → NsM φ Int) : NsM φ Int := do
  let (result, searchEntry) ← buildBase w namespaceId nwp true
  if result < 0 then return result
  let dbe ← entryAt result.toNat
  if (w.volumes[dbe.volume]?.map NsVol.readonly).getD false then return -0x8a
  search dbe.ptr searchEntry

/-- `nw_delete_file_dir` -/
def nwDeleteFileDir (w : NsWorld φ) (namespaceId : UInt8) (searchattrib : UInt32)
    (nwp : NwHpath) : NsM φ Int :=
  searchInParent w namespaceId nwp fun ptr searchEntry => do
    let result ← funcSearchEntry w ptr namespaceId searchEntry searchattrib (deleteFileDir w)
    if result = -255 ∧ namespaceId = nameDos then
      funcSearchEntry w ptr nameOs2 searchEntry searchattrib (deleteFileDir w)
    else return result

/-- `add_trustee_set` -/
def addTrusteeSet (w : NsWorld φ) (nwoic : List (UInt32 × Int)) (ptr : Nat) : NsM φ Int := do
  let dbe ← theEntry ptr
  change fun fs => w.truAddTrusteeSet fs dbe.volume (unixNameOf w dbe) dbe.statb nwoic

/-- `nw_add_trustee_set`; a mask of rights takes the place of those of the set. -/
def nwAddTrusteeSet (w : NsWorld φ) (namespaceId : UInt8) (searchattrib : UInt32)
    (nwp : NwHpath) (trusteeRights : UInt16) (oic : List (UInt32 × UInt16)) : NsM φ Int :=
  let nwoic := (oic.filter fun o => o.1 ≠ 0).map fun o =>
    (o.1, ((if trusteeRights = 0xffff then o.2 else trusteeRights).toNat : Int))
  searchInParent w namespaceId nwp fun ptr searchEntry =>
    funcSearchEntry w ptr namespaceId searchEntry searchattrib (addTrusteeSet w nwoic)

/-- `del_trustee_set` -/
def delTrusteeSet (w : NsWorld φ) (ids : List UInt32) (ptr : Nat) : NsM φ Int := do
  let dbe ← theEntry ptr
  let unname := unixNameOf w dbe
  change fun fs => ids.foldl (fun (result, fs) id =>
    if result < 0 then (result, fs)
    else
      let (res, fs) := w.truDelTrustee fs dbe.volume unname dbe.statb id
      (if res < 0 then res else 0, fs)) ((0 : Int), fs)

/-- `nw_del_trustee_set` -/
def nwDelTrusteeSet (w : NsWorld φ) (namespaceId : UInt8) (nwp : NwHpath) (ids : List UInt32) :
    NsM φ Int :=
  searchInParent w namespaceId nwp fun ptr searchEntry =>
    funcSearchEntry w ptr namespaceId searchEntry wSearchAttrAll
      (delTrusteeSet w (ids.filter (· ≠ 0)))

/-- `nw_get_trustee_set` -/
def nwGetTrusteeSet (w : NsWorld φ) (namespaceId : UInt8) (nwp : NwHpath)
    (scansequence : UInt32) : NsM φ Int := do
  let (result, _) ← buildBase w namespaceId nwp false
  if result < 0 then return result
  let dbe ← entryAt result.toNat
  discard <| nwpStat w dbe.ptr
  let dbe ← theEntry dbe.ptr
  return w.truGetTrusteeSet (← get).fs dbe.volume (unixNameOf w dbe) dbe.statb scansequence

/-- `nw_alloc_short_dir_handle` -/
def nwAllocShortDirHandle (w : NsWorld φ) (namespaceId : UInt8) (hmode task : Nat)
    (nwp : NwHpath) : NsM φ Int := do
  let (result, _) ← buildBase w namespaceId nwp false
  if result < 0 then return result
  let dbe ← entryAt result.toNat
  if !dbe.statb.isDir then return -0xff
  let s ← get
  let (dirs, result) := xinsertNewDir s.dirs dbe.volume dbe.path dbe.statb.numbers.asInts 300 hmode task
  set { s with dirs := dirs }
  return result

/-- `nw_set_short_dir_handle` -/
def nwSetShortDirHandle (w : NsWorld φ) (namespaceId : UInt8) (desthandle task : Nat)
    (nwp : NwHpath) : NsM φ Int := do
  let (result, _) ← buildBase w namespaceId nwp false
  if result < 0 then return result
  let dbe ← entryAt result.toNat
  if !dbe.statb.isDir then return -0x9c
  let s ← get
  let (dirs, result) := alterDirHandle s.dirs desthandle dbe.volume dbe.path dbe.statb.numbers.asInts task
  set { s with dirs := dirs }
  return if 0 < result then 0 else result

/-- `nw_get_full_path_cookies`: the size of the components. -/
def nwGetFullPathCookies (w : NsWorld φ) (namespaceId : UInt8) (nwp : NwHpath)
    (cookie1 cookie2 : UInt32) : NsM φ Int := do
  let (result, _) ← buildBase w namespaceId nwp false
  if result < 0 then return result
  let dbe ← entryAt result.toNat
  let components := (dbe.path.splitOn 0x2f).filter (· ≠ [])
  let sysname := (w.volumes[dbe.volume]?.map fun v => v.sysname).getD []
  let len : Nat := ((components ++ [sysname]).map fun c => c.length + 1).sum
  if cookie1 ≠ 0xffffffff ∨ cookie2 ≠ 0xffffffff then return -0xff
  else if 256 < dbe.path.length then return -0xfb
  else if components.any (255 < ·.length) ∨ 400 < len then return -0xff
  else return len

/-- `unx_mvdir` and `unx_mvfile` -/
def unxMove (w : NsWorld φ) (isDir : Bool) (oldname newname : List UInt8) : NsM φ Int := do
  let fs := (← get).fs
  -- `EEXIST`
  if (w.stat fs newname).isSome then return 17
  else if (w.stat fs oldname).map FileStat.isDir ≠ some isDir then return -1
  else change fun fs => w.rename fs oldname newname

/-- `nw_rename_file_dir` -/
def nwRenameFileDir (w : NsWorld φ) (namespaceId : UInt8) (nwps nwpd : NwHpath) :
    NsM φ Int := do
  let (result, _) ← buildBase w namespaceId nwps false
  if result < 0 then return result
  let dbeS := (← entryAt result.toNat).ptr
  let unnameS := unixNameOf w (← theEntry dbeS)
  let (result, lastPart) ← buildBase w namespaceId nwpd true
  if result < 0 then return result
  let d ← entryAt result.toNat
  let s ← theEntry dbeS
  if !(← hasRights w s unnameS (trusteeW ||| trusteeM ||| trusteeR)) then return -0x8b
  if !(← hasRights w d (unixNameOf w d) trusteeW) then return -0x8b
  let result ← unxMove w s.statb.isDir unnameS (xnwpath2Unix w d.volume d.path false lastPart)
  if result ≠ 0 then return if result = 17 then -0x92 else result
  freeDbeP dbeS
  let result ← getAddNewEntry w d.ptr namespaceId lastPart none
  return if 0 ≤ result then 0 else result

/-- `nw_modify_file_dir` -/
def nwModifyFileDir (w : NsWorld φ) (namespaceId : UInt8) (nwp : NwHpath) (infomask : UInt32)
    (dmi : DosModifyInfo) : NsM φ Int := do
  let (result, _) ← buildBase w namespaceId nwp false
  if result < 0 then return result
  let dbe ← entryAt result.toNat
  let uname := unixNameOf w dbe
  if !(← nwpStat w dbe.ptr) then return -0xff
  let dbe ← theEntry dbe.ptr
  let isPipe := (w.volumes[dbe.volume]?.map fun v => v.options.isPipe).getD false
  if dbe.statb.isFifo ∨ isPipe then return 0
  let result := if ← hasRights w dbe uname trusteeM then 0 else -0x8c
  -- the result of the attributes replaces that of the rights
  let result ← if infomask &&& 2 ≠ 0 then
      change fun fs => w.setNwAttribDword fs dbe.volume uname dbe.statb dmi.attributes
    else pure result
  if result ≠ 0 then return result
  if infomask &&& 0x1000 ≠ 0 then
    if ← hasRights w dbe uname trusteeA then
      modify fun s => { s with
        fs :=
          let mask := w.truGetInheritedMask s.fs dbe.volume uname dbe.statb
          let mask := mask &&& ~~~(dmi.rightsrevokemask &&& ~~~trusteeS) ||| dmi.rightsgrantmask
          w.truSetInheritedMask s.fs dbe.volume uname dbe.statb mask }
  modify fun s => { s with fs := w.utime s.fs uname infomask dmi.times }
  return result

/-- The requests that look at entries. -/
inductive NsRequest
  | openCreat (namespaceId opencreatmode : UInt8) (infomask creatattrib : UInt32)
      (accessRights : Nat) (nwp : NwHpath)
  | initSearch (namespaceId : UInt8) (nwp : NwHpath)
  /-- 0x03 and 0x14 -/
  | search (namespaceId : UInt8) (searchattrib infomask : UInt32) (volume : UInt8)
      (basehandle sequence : UInt32) (path : List UInt8)
  | rename (namespaceId : UInt8) (nwps nwpd : NwHpath)
  | scanTrustees (namespaceId : UInt8) (nwp : NwHpath) (scansequence : UInt32)
  | obtainInfo (namespaceId : UInt8) (nwp : NwHpath) (destnamspace : UInt8) (infomask : UInt32)
  | modify (namespaceId : UInt8) (nwp : NwHpath) (infomask : UInt32) (dmi : DosModifyInfo)
  | delete (namespaceId : UInt8) (searchattrib : UInt32) (nwp : NwHpath)
  | setShortDirHandle (namespaceId : UInt8) (desthandle task : Nat) (nwp : NwHpath)
  | addTrusteeSet (namespaceId : UInt8) (searchattrib : UInt32) (nwp : NwHpath)
      (trusteeRights : UInt16) (oic : List (UInt32 × UInt16))
  | delTrusteeSet (namespaceId : UInt8) (nwp : NwHpath) (ids : List UInt32)
  | allocShortDirHandle (namespaceId : UInt8) (hmode task : Nat) (nwp : NwHpath)
  | generateDirBase (namespaceId : UInt8) (nwp : NwHpath)
  | fullPath (namespaceId : UInt8) (nwp : NwHpath) (cookie1 cookie2 : UInt32)
  | effRights (namespaceId : UInt8) (nwp : NwHpath) (destnamspace : UInt8) (infomask : UInt32)

/-- `handle_func_0x57` -/
def handleFunc0x57 (w : NsWorld φ) : NsRequest → NsM φ Int
  | .openCreat ns mode infomask creatattrib rights nwp =>
      nwOpenCreatFileOrDir w ns mode infomask creatattrib rights nwp
  | .initSearch ns nwp => nwInitSearch w ns nwp
  | .search ns searchattrib infomask volume basehandle sequence path => do
      let reply ←
        nwSearchFileDir w ns searchattrib infomask volume.toNat basehandle sequence path
      return reply.result
  | .rename ns nwps nwpd => nwRenameFileDir w ns nwps nwpd
  | .scanTrustees ns nwp scansequence => nwGetTrusteeSet w ns nwp scansequence
  | .obtainInfo ns nwp dest infomask => nwOptainFileDirInfo w ns nwp dest infomask
  | .modify ns nwp infomask dmi => nwModifyFileDir w ns nwp infomask dmi
  | .delete ns searchattrib nwp => nwDeleteFileDir w ns searchattrib nwp
  | .setShortDirHandle ns dest task nwp => nwSetShortDirHandle w ns dest task nwp
  | .addTrusteeSet ns searchattrib nwp rights oic =>
      nwAddTrusteeSet w ns searchattrib nwp rights oic
  | .delTrusteeSet ns nwp ids => nwDelTrusteeSet w ns nwp ids
  | .allocShortDirHandle ns hmode task nwp => nwAllocShortDirHandle w ns hmode task nwp
  | .generateDirBase ns nwp => nwGenerateDirPath w ns nwp
  | .fullPath ns nwp cookie1 cookie2 => nwGetFullPathCookies w ns nwp cookie1 cookie2
  | .effRights ns nwp dest infomask => nspGetEffRights w ns nwp dest infomask

/-- What happens to the server: a request, or something that others do with the files. -/
inductive NsEvent (φ : Type)
  | request (r : NsRequest)
  | outside (fs : φ)

/-- The server; after a fault there is no state any more. -/
def nsMachine (w : NsWorld φ) : Machine (Except NsFault (NsState φ)) (NsEvent φ) Unit where
  step s e :=
    ((), do
      let s ← s
      match e with
      | .request r => return (← handleFunc0x57 w r s).2
      | .outside fs => return { s with fs := fs })

/-- `init_name_space_module`; sizes that are too small or too large are replaced by a
default. -/
def nsInit (maxBaseh maxSearchh : Nat) (links : List UInt8 × FileId → Option (List UInt8))
    (maps : Nat → List DevNamespaceMap) (dirs : Dirs) (fs : φ) : NsState φ where
  table := .empty (if maxBaseh < 5 then 50 else maxBaseh)
  handles := []
  maxDirSearchHandles := if maxSearchh < 10 ∨ 255 < maxSearchh then 50 else maxSearchh
  links := links
  maps := maps
  dirs := dirs
  fs := fs

end MarsNwe.NameSpace
