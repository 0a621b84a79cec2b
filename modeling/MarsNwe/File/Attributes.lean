import MarsNwe.File.CreatOpen
import MarsNwe.Trustee.Store

/-! # File attributes

The attributes of files and directories are the texts of links that are named after the
device and the bytes of the inode. What has no link yet has attributes by its kind and by
its name.
-/

namespace MarsNwe

open Formatted Links

def fileAttrH : UInt32 := 0x02
def fileAttrDir : UInt32 := 0x10
def fileAttrA : UInt32 := 0x20
def fileAttrShare : UInt32 := 0x80
def fileAttrRenameInh : UInt32 := 0x20000
def fileAttrDeleteInh : UInt32 := 0x40000

/-! ## The links -/

/-- `%x/%x/%x/%x/%x` of the device and the bytes of the inode. -/
def attrPath (id : FileId) : List (List UInt8) :=
  [hexText id.dev.toNat, hexText (id.ino.toNat / 2 ^ 24), hexText (id.ino.toNat / 2 ^ 16 % 256),
    hexText (id.ino.toNat / 2 ^ 8 % 256), hexText (id.ino.toNat % 256)]

/-- The links below `path_attributes`. -/
structure AttrStore where
  links : Tree (List UInt8) (List UInt8)
  nodup : (links.map Prod.fst).Nodup

namespace AttrStore

theorem nodup_empty : (([] : Tree (List UInt8) (List UInt8)).map Prod.fst).Nodup :=
  List.nodup_nil

def empty : AttrStore := ⟨[], nodup_empty⟩

/-- The link of a file is removed and made again, `place` links from the start. -/
def put (place : Nat) (s : AttrStore) (id : FileId) (attrib : UInt32) : AttrStore where
  links := symlink place (unlink s.links (attrPath id)) (attrPath id) (hex 8 attrib.toNat)
  nodup := nodup_symlink (nodup_unlink s.nodup (attrPath id)) place
    (fun _ h => (mem_unlink.mp h).2) _

/-- The attributes in the link of a file, of which 224 bytes are read. -/
def read (s : AttrStore) (id : FileId) : Option UInt32 :=
  (readlink s.links (attrPath id)).bind fun text => TrusteeStore.scanX (text.take 224)

end AttrStore

/-- What does not change: the length of `path_attributes`, where a directory lists a new
link, and `get_volume_options`. -/
structure AttrConfig where
  base : Nat
  place : AttrStore → Nat
  isPipe : Nat → Bool
  attributes : Nat → Bool
  readOnly : Nat → Bool

/-- `put_attr_to_disk`; none, if the name does not fit its buffer. -/
def putAttrToDisk (cfg : AttrConfig) (s : AttrStore) (file : FileNumbers) (attrib : UInt32) :
    Option AttrStore :=
  if textLength cfg.base (attrPath file.id) ≤ 254 then some (s.put (cfg.place s) file.id attrib)
  else none

/-- `get_attr_from_disk`: the outer `none`, if the name does not fit its buffer. -/
def getAttrFromDisk (cfg : AttrConfig) (s : AttrStore) (file : FileNumbers) :
    Option (Option UInt32) :=
  if textLength cfg.base (attrPath file.id) ≤ 254 then some (s.read file.id) else none

/-! ## The routines -/

/-- What is used of `struct stat`. -/
structure AttrStat where
  file : FileNumbers
  mode : UInt32
deriving DecidableEq

/-- `S_ISDIR`. -/
def AttrStat.isDir (stb : AttrStat) : Bool := stb.mode &&& 0xf000 = 0x4000

/-- The user during a call. -/
structure AttrUser where
  uid : UInt32
  /-- `get_unix_eff_rights` -/
  unixEffRights : AttrStat → UInt8
  /-- `tru_eff_rights_exists` finds the right to modify. -/
  mayModify : Nat → List UInt8 → AttrStat → Bool
  /-- `chmod` succeeds. -/
  chmod : List UInt8 → UInt32 → Bool

/-- The part of a name behind its last slash begins with a point and another character. -/
def isDotFile (unixname : List UInt8) : Bool :=
  match (unixname.reverse.takeWhile (· ≠ 0x2f)).reverse with
  | p :: c :: _ => 0x2f ∈ unixname ∧ p = chr '.' ∧ c ≠ chr '.'
  | _ => false

/-- The attributes of what has no link. -/
def defaultAttrib (isDir : Bool) (unixname : List UInt8) : UInt32 :=
  (if isDir then fileAttrDir else fileAttrA) ||| if isDotFile unixname then fileAttrH else 0

/-- The directory bit goes with the kind. -/
def forceDir (isDir : Bool) (attrib : UInt32) : UInt32 :=
  if isDir then attrib ||| fileAttrDir else attrib &&& ~~~fileAttrDir

/-- `get_nw_attrib_dword`. -/
def getNwAttribDword (cfg : AttrConfig) (user : AttrUser) (s : AttrStore) (volume : Nat)
    (unixname : List UInt8) (stb : AttrStat) : Option UInt32 :=
  if cfg.isPipe volume then
    some ((if stb.isDir then fileAttrDir else fileAttrA) ||| fileAttrDeleteInh |||
      fileAttrRenameInh ||| if stb.isDir then 0 else fileAttrShare)
  else do
    let stored ← if cfg.attributes volume then getAttrFromDisk cfg s stb.file else some none
    let attrib :=
      match stored with
      | some attrib => forceDir stb.isDir attrib
      | none => defaultAttrib stb.isDir unixname
    let attrib :=
      if cfg.readOnly volume then
        attrib ||| fileAttrDeleteInh ||| fileAttrRenameInh ||| fileAttrR
      else attrib
    if !cfg.attributes volume ∧ user.uid ≠ 0 then
      let acc := user.unixEffRights stb
      some (attrib ||| (if acc &&& 2 = 0 then fileAttrR else 0) |||
        if acc &&& 4 = 0 then fileAttrH else 0)
    else some attrib

/-- The mode of `set_nw_attrib`. -/
inductive AttrMode where
  | dword
  | byte
  | word
deriving DecidableEq

/-- The attributes after a part of them is replaced. -/
def AttrMode.replace (oldattrib attrib : UInt32) : AttrMode → UInt32
  | .dword => attrib
  | .byte => (oldattrib &&& ~~~0xff) ||| (attrib &&& 0xff)
  | .word => (oldattrib &&& ~~~0xffff) ||| (attrib &&& 0xffff)

/-- The end of `set_nw_attrib`: what is new is stored, or the mode of the file is set. -/
def storeAttrib (cfg : AttrConfig) (user : AttrUser) (s : AttrStore) (volume : Nat)
    (unixname : List UInt8) (stb : AttrStat) (oldattrib newattrib : UInt32) :
    Option (Int × AttrStat × AttrStore) :=
  if cfg.attributes volume then
    (putAttrToDisk cfg s stb.file (forceDir stb.isDir newattrib)).map fun s => (0, stb, s)
  else if !stb.isDir ∧ newattrib &&& fileAttrR ≠ oldattrib &&& fileAttrR then
    let mode :=
      if newattrib &&& fileAttrR ≠ 0 then stb.mode &&& ~~~0o222 else stb.mode ||| 0o220
    if user.chmod unixname mode then some (0, { stb with mode }, s) else some (-0x8c, stb, s)
  else some (0, stb, s)

/-- `set_nw_attrib`: the result, and `stb` and the links after it. -/
def setNwAttrib (cfg : AttrConfig) (user : AttrUser) (s : AttrStore) (volume : Nat)
    (unixname : List UInt8) (stb : AttrStat) (attrib : UInt32) (mode : AttrMode) :
    Option (Int × AttrStat × AttrStore) :=
  if cfg.isPipe volume then some (0, stb, s)
  else if !user.mayModify volume unixname stb then some (-0x8c, stb, s)
  else
    let noWrite := !cfg.attributes volume ∧ user.unixEffRights stb &&& 2 = 0 ∧
      attrib &&& fileAttrR = 0
    if noWrite ∧ !user.chmod unixname (stb.mode ||| 0o200) then some (-0x8c, stb, s)
    else
      let stb := if noWrite then { stb with mode := stb.mode ||| 0o200 } else stb
      if mode ≠ .dword ∨ !cfg.attributes volume then do
        let oldattrib ← getNwAttribDword cfg user s volume unixname stb
        let newattrib := mode.replace oldattrib attrib
        if mode = .dword ∨ newattrib ≠ oldattrib then
          storeAttrib cfg user s volume unixname stb oldattrib newattrib
        else some (0, stb, s)
      else storeAttrib cfg user s volume unixname stb 0 attrib

/-- `set_nw_archive_bit`. -/
def setNwArchiveBit (cfg : AttrConfig) (s : AttrStore) (volume : Nat) (file : FileNumbers) :
    Option AttrStore :=
  if cfg.attributes volume then do
    match ← getAttrFromDisk cfg s file with
    | some attrib =>
        if attrib &&& fileAttrA = 0 then putAttrToDisk cfg s file (attrib ||| fileAttrA)
        else some s
    | none => some s
  else some s

/-! ## Calls -/

/-- `set_nw_attrib_dword`, `set_nw_attrib_byte`, `set_nw_attrib_word` and
`set_nw_archive_bit`. -/
inductive AttrCall where
  | set (user : AttrUser) (volume : Nat) (unixname : List UInt8) (stb : AttrStat)
      (attrib : UInt32) (mode : AttrMode)
  | archiveBit (volume : Nat) (file : FileNumbers)

/-- The object of a call. -/
def AttrCall.file : AttrCall → FileNumbers
  | .set _ _ _ stb _ _ => stb.file
  | .archiveBit _ file => file

/-- The links after a call; none, if a name does not fit its buffer. -/
def AttrStore.call (cfg : AttrConfig) (s : AttrStore) : AttrCall → Option AttrStore
  | .set user volume unixname stb attrib mode =>
      (setNwAttrib cfg user s volume unixname stb attrib mode).map fun result => result.2.2
  | .archiveBit volume file => setNwArchiveBit cfg s volume file

def AttrStore.run (cfg : AttrConfig) (s : AttrStore) (calls : List AttrCall) :
    Option AttrStore := calls.foldlM (call cfg) s

/-- What a call makes of the attributes of its object. -/
def AttrCall.apply (isDir : Bool) (attrib : UInt32) : AttrCall → UInt32
  | .set user volume unixname stb new mode =>
      if user.mayModify volume unixname stb then forceDir isDir (mode.replace attrib new)
      else attrib
  | .archiveBit _ _ => attrib ||| fileAttrA

/-- What the calls for one object, one after the other, make of its attributes. -/
def attribAfter (isDir : Bool) (file : FileNumbers) (attrib : UInt32) (calls : List AttrCall) :
    UInt32 := (calls.filter (·.file = file)).foldl (AttrCall.apply isDir) attrib

end MarsNwe
