import MarsNwe.Lib.ByteBuf
import MarsNwe.Lib.Lookups

/-! # What nwconn takes out of a request

`handle_ncp_serv` and the request functions read a request where it stands, in
`readbuff`: numbers at fixed places, and behind them names, paths, data and lists that
are as long as the request itself says. How many bytes were received does not enter.

A byte counts as taken when its value goes into a variable or into a call. What is only
looked at is left out: the debug output, `strlen` running on behind a name whose length
is given, and the character behind one of 0xff in a search pattern.
-/

namespace MarsNwe.RequestInput

/-- What stands at and behind `readbuff`. -/
abbrev Memory := Nat → UInt8

/-- Code that takes bytes out of the memory. -/
abbrev Taking := Prog Nat fun _ => UInt8

/-! ## Numbers, texts and data -/

/-- `GET_BE16` -/
def be16 (hi lo : UInt8) : UInt16 := hi.toUInt16 <<< 8 ||| lo.toUInt16

def takeByte (o : Nat) : Taking UInt8 := Prog.ask o

def takeBe16 (o : Nat) : Taking UInt16 := do
  let hi ← takeByte o
  let lo ← takeByte (o + 1)
  return be16 hi lo

/-- `GET_16` -/
def takeLe16 (o : Nat) : Taking UInt16 := do
  let lo ← takeByte o
  let hi ← takeByte (o + 1)
  return be16 hi lo

/-- `GET_BE32` -/
def takeBe32 (o : Nat) : Taking UInt32 := do
  let a ← takeByte o
  let b ← takeByte (o + 1)
  let c ← takeByte (o + 2)
  let d ← takeByte (o + 3)
  return be32 a b c d

/-- `GET_32` -/
def takeLe32 (o : Nat) : Taking UInt32 := do
  let d ← takeByte o
  let c ← takeByte (o + 1)
  let b ← takeByte (o + 2)
  let a ← takeByte (o + 3)
  return be32 a b c d

def takeBytes : (o len : Nat) → Taking (List UInt8)
  | _, 0 => return []
  | o, len + 1 => do
      let c ← takeByte o
      let rest ← takeBytes (o + 1) len
      return c :: rest

/-- A name or a path of at most `len` characters, as `conn_build_path_fn` and
`strmaxcpy` read it: a zero ends it. -/
def takeText : (o len : Nat) → Taking (List UInt8)
  | _, 0 => return []
  | o, len + 1 => do
      let c ← takeByte o
      if c = 0 then return []
      else
        let rest ← takeText (o + 1) len
        return c :: rest

/-- What is only taken under a condition. -/
def takeWhen {α : Type} (c : Bool) (m : Taking α) : Taking (Option α) :=
  if c then do
    let a ← m
    return some a
  else return none

/-! ## What the request functions find -/

/-- What the server has when a request comes, as far as it decides which bytes are
taken. `π` is what `build_base` has of a path. -/
structure Server (π : Type) where
  lastSequence : Int
  /-- `conn_get_kpl_path` -/
  findsPath (dirHandle : UInt8) (data : List UInt8) : Bool
  /-- `get_dir_entry` on such a path, and whether it has found a directory -/
  dirEntry (dirHandle : UInt8) (data : List UInt8) (attrib : UInt8) : Option Bool
  /-- `nw_write_file` comes to `write` -/
  writes (fhandle : UInt32) (size : UInt16) (offset : UInt32) : Bool
  /-- `nw_set_fdate_time` comes to `nw_2_un_time` -/
  setsTime (fhandle : UInt32) : Bool
  /-- `nw_dir_get_vol_path` -/
  ofDirHandle (dirHandle : UInt8) : Option π
  /-- `find_base_entry`, or the base handle 0 -/
  ofBase (volume : UInt8) (base : UInt32) : Option π
  /-- the volume -1 -/
  noVolume : π
  /-- the first component has to be the name of a volume -/
  namesVolume (path : π) : Bool
  /-- `nw_get_volume_number` -/
  ofVolume (volname : List UInt8) : Option π
  /-- the directory above, for a component of no length -/
  parent (path : π) : Option π
  addSlash (path : π) : π
  /-- a character; one of `:` makes the path before it the name of a volume -/
  addChar (path : π) (c : UInt8) : Option π
  /-- `build_base` on the whole path, without its last part for `mode` -/
  hasBase (namespaceId : UInt8) (mode : Bool) (path : π) : Bool
  /-- no `VOL_OPTION_READONLY` -/
  isWritable (path : π) : Bool
  /-- `nw_search_file_dir` has the directory open -/
  opensSearch (volume : UInt8) (basehandle sequence : UInt32) : Bool

/-- What a request comes to: the request function that is called, with what it has
taken, or a return of `handle_ncp_serv`. What is not taken is `none`. -/
inductive ServCall (π : Type) where
  /-- the last reply goes out again -/
  | sendAgain
  | nwInitConnect
  /-- a reply with this completition that takes nothing else from the request -/
  | completition (code : UInt8)
  /-- `return(-1)` -/
  | toNwbind
  /-- `return(-2)` -/
  | prehandled
  | nwLogFile (lockFlag : Int) (timeout : UInt16) (dirHandle : UInt8) (data : List UInt8)
  | shareHandleLockSets (type : Nat) (lockFlag : Int) (timeout : UInt16)
  | nwLogLogicalRecord (lockFlag : Int) (timeout : UInt16) (data : List UInt8)
  | nwLogPhysicalRecord (fhandle offset size : UInt32) (timeout : UInt16) (lockFlag : Int)
  | nwSetDirHandle (targetDir dirHandle : UInt8) (data : List UInt8) (task : UInt8)
  | nwGetDirectoryPath (dirHandle : UInt8)
  | nwScanDirInfo (dirHandle : UInt8) (data : List UInt8) (subnr : UInt16)
  | nwGetEffDirRights (dirHandle : UInt8) (data : List UInt8) (modus : Nat)
  | nwGetVolumeNumber (volname : List UInt8)
  | nwGetVolumeName (volume : UInt8)
  | nwMkRdDir (dirHandle : UInt8) (data : List UInt8) (mode : Nat)
  | nwAddTrustee (dirHandle : UInt8) (data : List UInt8) (id : UInt32) (trustee : UInt16)
      (extended : Bool)
  | nwDelTrustee (dirHandle : UInt8) (data : List UInt8) (id : UInt32) (extended : Bool)
  | mvDir (dirHandle : UInt8) (source : List UInt8) (dest : Option (List UInt8))
  | nwAllocDirHandle (dirHandle : UInt8) (data : List UInt8) (driveletter : UInt8)
      (isTemphandle : Nat) (task : UInt8)
  | nwFreeDirHandle (dirHandle task : UInt8)
  | nwGetVolNumber (dirHandle : UInt8)
  | nwSetDirInfo (dirHandle : UInt8) (data : List UInt8) (ownerId : UInt32) (maxRights : UInt8)
      (creationDate creationTime : UInt16)
  | nwScanADirectory (dirHandle : UInt8) (data : List UInt8) (attrib : UInt8) (searchbeg : UInt32)
  | nwScanARootDir (dirHandle : UInt8)
  | nwSetADirectoryEntry (dirHandle : UInt8) (data : List UInt8) (attrib : UInt8)
      (searchbeg : UInt32) (attributes : Option UInt32) (inheritedRightsMask : Option UInt16)
  | nwScanForTrustee (dirHandle sequence : UInt8) (data : List UInt8)
  | fillNamespaceBuffer (volume : UInt8)
  | getNamespaceDirEntry (volume : UInt8) (basehandle : UInt32) (namespaceId : UInt8)
  | nwSearch (dirHandle : UInt8) (searchsequence : UInt16) (attrib : UInt8) (data : List UInt8)
  | nwSetFileInformation (dirHandle : UInt8) (data : List UInt8) (attrib : UInt8)
      (info : List UInt8)
  | nwScanUserTrustee (volume : UInt8) (sequence : UInt16) (id : UInt32)
  | connGetFullPath (dirHandle : UInt8) (data : List UInt8)
  | getQueueJobFhandle (qId : UInt32) (jobId : UInt16)
  | closeQueueJob (qId : UInt32) (jobId : UInt16)
  | finishAbortQueueJob (qId : UInt32) (jobId : UInt16)
  | nwFreeHandles (task : Option UInt8)
  | negotiateBufferSize (size : UInt16)
  | nwCommitFile (fhandle : UInt32)
  | nwOpenDirHandle (dirHandle : UInt8) (data : List UInt8)
  | nwDirSearch (dirId searchsequence : UInt16) (attrib : UInt8) (data : List UInt8)
  | nwCreatOpenFile (dirHandle : UInt8) (data : List UInt8) (attrib access : UInt8)
      (creatmode : Nat) (task : UInt8)
  | nwCloseFile (fhandle : UInt32) (task : UInt8)
  | nwDeleteFiles (dirHandle attrib : UInt8) (data : List UInt8)
  | nwMvFiles (attrib dirHandle : UInt8) (source : List UInt8) (dest : Option (List UInt8))
  | nwSetFileAttributes (dirHandle : UInt8) (data : List UInt8) (attrib newattrib : UInt8)
  | nwSeekFile (fhandle : UInt32)
  | nwReadFile (fhandle offset : UInt32) (maxSize : UInt16)
  | nwWriteFile (fhandle : UInt32) (data : Option (List UInt8)) (size : UInt16) (offset : UInt32)
  | nwServerCopy (qfhandle zfhandle qoffset zoffset size : UInt32)
  | nwSetFdateTime (fhandle : UInt32) (datum zeit : Option UInt16)
  | handleFunc0x56 (ufunc : UInt8)
  | nwOpenCreatFileOrDir (namespaceId opencreatmode : UInt8) (attrib : UInt16)
      (infomask creatattrib : UInt32) (accessRights : UInt16) (path : Option π) (task : UInt8)
  | nwInitSearch (namespaceId : UInt8) (path : Option π)
  | nwSearchFileDir (namespaceId : UInt8) (searchattrib : UInt16) (infomask : UInt32)
      (volume : UInt8) (basehandle sequence : UInt32) (path : Option (List UInt8))
  | nwRenameFileDir (namespaceId renameflag : UInt8) (searchattrib : UInt16)
      (source dest : Option π)
  | nwGetTrusteeSet (namespaceId : UInt8) (searchattrib : UInt16) (scansequence : UInt32)
      (path : Option π)
  | nwOptainFileDirInfo (namespaceId destnamspace : UInt8) (searchattrib : UInt16)
      (infomask : UInt32) (path : Option π)
  | nwModifyFileDir (namespaceId : UInt8) (searchattrib : UInt16) (infomask : UInt32)
      (dmi : List UInt8) (path : Option π)
  | nwDeleteFileDir (namespaceId : UInt8) (searchattrib : UInt16) (path : Option π)
  | nwSetShortDirHandle (namespaceId desthandle : UInt8) (path : Option π) (task : UInt8)
  | nwAddTrusteeSet (namespaceId : UInt8) (searchattrib : UInt16) (path : Option π)
      (oic : Option (List (UInt32 × UInt16)))
  | nwDelTrusteeSet (namespaceId : UInt8) (path : Option π) (ids : Option (List UInt32))
  | nwAllocShortDirHandle (namespaceId : UInt8) (hmode : UInt16) (path : Option π) (task : UInt8)
  | nwGenerateDirPath (namespaceId : UInt8) (path : Option π)
  | getVolumeOptions (volume : UInt8)
  | nwGetFullPathCookies (namespaceId destnamspace : UInt8) (cookieflags : UInt16)
      (cookie1 cookie2 : UInt32) (path : Option π)
  | nspGetEffRights (namespaceId destnamspace : UInt8) (searchattrib : UInt16)
      (infomask : UInt32) (path : Option π)

open ServCall

variable {π : Type} (s : Server π)

/-! ## The request functions that read on -/

/-- `mv_dir` and `nw_mv_files`: the second name is read when the first is found. -/
def takeSecondName (dirHandle : UInt8) (source : List UInt8) (o : Nat) (len : UInt8) :
    Taking (Option (List UInt8)) :=
  takeWhen (s.findsPath dirHandle source) (takeText o len.toNat)

/-- `nw_set_a_directory_entry` on the `NW_SET_DIR_INFO` at 12; the mask stands behind
other fields in the entry of a directory. -/
def nwSetADirectoryEntry (dirHandle attrib : UInt8) : Taking (ServCall π) := do
  let namlen ← takeByte 31
  let searchbeg ← takeBe32 12
  let data ← takeText 32 namlen.toNat
  match s.dirEntry dirHandle data attrib with
  | none => return .nwSetADirectoryEntry dirHandle data attrib searchbeg none none
  | some isDir => do
      let changeMask ← takeLe32 16
      let attributes ← takeWhen (changeMask &&& 0x2 != 0) (takeLe32 24)
      let mask ← takeWhen (changeMask &&& 0x1000 != 0) (takeLe16 (if isDir then 120 else 116))
      return .nwSetADirectoryEntry dirHandle data attrib searchbeg attributes mask

/-- `nw_write_file` -/
def nwWriteFile (fhandle : UInt32) (size : UInt16) (offset : UInt32) (o : Nat) :
    Taking (ServCall π) := do
  let data ← takeWhen (s.writes fhandle size offset) (takeBytes o size.toNat)
  return .nwWriteFile fhandle data size offset

/-- `nw_set_fdate_time` -/
def nwSetFdateTime (fhandle : UInt32) : Taking (ServCall π) := do
  let datum ← takeWhen (s.setsTime fhandle) (takeBe16 16)
  let zeit ← takeWhen (s.setsTime fhandle) (takeBe16 14)
  return .nwSetFdateTime fhandle datum zeit

/-! ## Paths of the name space calls -/

/-- The handle of the `NW_HPATH` at `o`, as `build_base` starts with it. -/
def takeHandle (o : Nat) : Taking (Option π) := do
  let flag ← takeByte (o + 5)
  if flag = 0 then
    let handle ← takeByte (o + 1)
    return s.ofDirHandle handle
  else if flag = 1 then
    let volume ← takeByte o
    let base ← takeLe32 (o + 1)
    return s.ofBase volume base
  else if flag = 0xff then return some s.noVolume
  else return none

/-- The characters of a component. -/
def takeChars : (len : Nat) → π → (o : Nat) → Taking (Option π)
  | 0, path, _ => return some path
  | len + 1, path, o => do
      let c ← takeByte o
      match s.addChar path c with
      | none => return none
      | some path => takeChars len path (o + 1)

/-- A component; the name of a volume is read as a text. -/
def takeComponent (path : π) (o len : Nat) : Taking (Option π) :=
  if len = 0 then return s.parent path
  else if s.namesVolume path then do
    let volname ← takeText o len
    return s.ofVolume volname
  else takeChars s len (s.addSlash path) o

/-- The loop of `add_hpath_to_nwpath`. -/
def takeComponents : (components : Nat) → π → (o : Nat) → Taking (Option π)
  | 0, path, _ => return some path
  | k + 1, path, o => do
      let len ← takeByte o
      let next ← takeComponent s path (o + 1) len.toNat
      match next with
      | none => return none
      | some path => takeComponents k path (o + 1 + len.toNat)

/-- `build_base` on the `NW_HPATH` at `o` with its components at `pathes`. -/
def buildBase (namespaceId : UInt8) (o pathes : Nat) (mode : Bool) : Taking (Option π) := do
  let start ← takeHandle s o
  match start with
  | none => return none
  | some path => do
      let components ← takeByte (o + 6)
      let path ← takeComponents s components.toNat path pathes
      return path.filter (s.hasBase namespaceId mode)

/-- `get_comp_pathes_size` -/
def getCompPathesSize : (components o : Nat) → Taking Nat
  | 0, _ => return 0
  | k + 1, o => do
      let len ← takeByte o
      let size ← getCompPathesSize k (o + 1 + len.toNat)
      return len.toNat + 1 + size

/-- `nw_rename_file_dir`, the paths one behind the other from 26 on. -/
def nwRenameFileDir (namespaceId renameflag : UInt8) (searchattrib : UInt16) :
    Taking (ServCall π) := do
  let _nwps ← takeBytes 12 7
  let _nwpd ← takeBytes 19 7
  let components ← takeByte 18
  let size ← getCompPathesSize components.toNat 26
  let source ← buildBase s namespaceId 12 26 false
  let dest ← takeWhen source.isSome (buildBase s namespaceId 19 (26 + size) true)
  return .nwRenameFileDir namespaceId renameflag searchattrib source dest.join

/-- The rights of an id in the list, unless the request gives them for all. -/
def takeTrustee (trusteeRights : Option UInt16) (o : Nat) : Taking UInt16 :=
  match trusteeRights with
  | none => takeLe16 o
  | some trustee => return trustee

/-- The ids and rights for `nw_add_trustee_set`. -/
def takeOic (trusteeRights : Option UInt16) : (count o : Nat) → Taking (List (UInt32 × UInt16))
  | 0, _ => return []
  | k + 1, o => do
      let id ← takeBe32 o
      let trustee ← takeTrustee trusteeRights (o + 4)
      let rest ← takeOic trusteeRights k (o + 6)
      return if id ≠ 0 then (id, trustee) :: rest else rest

/-- `nw_add_trustee_set` on the `NW_HPATH` at 16 and the list at 323. -/
def nwAddTrusteeSet (namespaceId : UInt8) (searchattrib trusteeRights count : UInt16) :
    Taking (ServCall π) := do
  let path ← buildBase s namespaceId 16 23 true
  let trusteeRights := if trusteeRights = 0xffff then none else some trusteeRights
  let oic ← takeWhen (path.any s.isWritable) (takeOic trusteeRights count.toNat 323)
  return .nwAddTrusteeSet namespaceId searchattrib path oic

/-- The ids for `nw_del_trustee_set`. -/
def takeIds : (count o : Nat) → Taking (List UInt32)
  | 0, _ => return []
  | k + 1, o => do
      let id ← takeBe32 o
      let rest ← takeIds k (o + 4)
      return if id ≠ 0 then id :: rest else rest

/-- `nw_del_trustee_set` on the `NW_HPATH` at 12 and the list at 319. -/
def nwDelTrusteeSet (namespaceId : UInt8) (count : UInt16) : Taking (ServCall π) := do
  let path ← buildBase s namespaceId 12 19 true
  let ids ← takeWhen (path.any s.isWritable) (takeIds count.toNat 319)
  return .nwDelTrusteeSet namespaceId path ids

/-- `nw_search_file_dir`, its pattern at `o`. -/
def nwSearchFileDir (namespaceId : UInt8) (searchattrib : UInt16) (infomask : UInt32)
    (volume : UInt8) (basehandle sequence : UInt32) (len : UInt8) (o : Nat) :
    Taking (ServCall π) := do
  let path ← takeWhen (s.opensSearch volume basehandle sequence) (takeBytes o len.toNat)
  return .nwSearchFileDir namespaceId searchattrib infomask volume basehandle sequence path

end MarsNwe.RequestInput
