import MarsNwe.Config.IniFile
import MarsNwe.Namspace.VolHandles

/-! # Volumes of the ini file

`nw_init_volumes` makes the volumes from the entries with the number 1, and it is run
again in every connection that starts; a login gives the home volumes their directory.
-/

namespace MarsNwe.Volume

open Formatted (atoi scanWord)
open NameSpace (NsVol)

/-! ## The code -/

/-- `options` of `NW_VOL`, a field for each of its bits. -/
structure VolFlags where
  downshift : Bool
  isPipe : Bool
  remount : Bool
  isHome : Bool
  oneDev : Bool
  readonly : Bool
  igncase : Bool
  noInodes : Bool
  trustees : Bool
  attributes : Bool
  ignUnxRight : Bool
  unxRight : Bool
  dos : Bool
  os2 : Bool
  nfs : Bool
deriving DecidableEq

/-- `VOLOPTIONS_DEFAULT` and `VOL_NAMESPACE_DOS` -/
def VolFlags.default : VolFlags where
  downshift := false
  isPipe := false
  remount := false
  isHome := false
  oneDev := false
  readonly := false
  igncase := false
  noInodes := false
  trustees := false
  attributes := true
  ignUnxRight := false
  unxRight := false
  dos := true
  os2 := false
  nfs := false

/-- A character of the option string. -/
def VolFlags.option (f : VolFlags) (c : UInt8) : VolFlags :=
  if c = chr 'i' then { f with igncase := true }
  else if c = chr 'k' then { f with downshift := true }
  else if c = chr 'n' then { f with noInodes := true }
  else if c = chr 'm' then { f with remount := true }
  else if c = chr 'o' then { f with oneDev := true }
  else if c = chr 'p' then { f with isPipe := true }
  else if c = chr 'r' then { f with readonly := true }
  else if c = chr 't' then { f with trustees := true }
  else if c = chr 'T' then { f with trustees := true, ignUnxRight := true }
  else if c = chr 'x' then { f with unxRight := true }
  else if c = chr 'O' then { f with os2 := true }
  else if c = chr 'N' then { f with nfs := true }
  else f

/-- The few checks at the end. -/
def VolFlags.checked (f : VolFlags) : VolFlags :=
  let f := if f.isHome then { f with remount := true } else f
  if f.noInodes then { f with trustees := false, ignUnxRight := false, attributes := false } else f

/-- A device and a name space, as `DEV_NAMESPACE_MAP` has them. -/
structure DevMap where
  dev : UInt32
  namespaceId : Nat
deriving DecidableEq

/-- `NW_VOL`; no `homeaddon` is the empty one. -/
structure VolConfig where
  sysname : List UInt8
  unixname : List UInt8
  homeaddon : List UInt8
  options : VolFlags
  umodeDir : Int
  umodeFile : Int
  maxMapsCount : Nat
  highInode : UInt32
  maps : List DevMap
deriving DecidableEq

/-- What the routines get from elsewhere: the table of `up_fn`, `MAX_NW_VOLS`, and `stat`
for the roots of the volumes. -/
structure VolWorld where
  up : UInt8 → UInt8
  maxNwVols : Nat
  stat : List UInt8 → Option FileId

/-- The static variables of nwvolume.c; before the first start there is no `max_nw_vols`. -/
structure Volumes where
  maxVols : Option Nat
  volumes : List VolConfig
  loadedOs2 : Bool
  loadedNfs : Bool
  pathVolInodesCache : List UInt8
  pathAttributes : List UInt8
  pathTrustees : List UInt8
  homeDir : List UInt8

def Volumes.none : Volumes := ⟨.none, [], false, false, [], [], [], []⟩

/-- `octtoi`, as long as the number fits: a minus of its own, then `%o`. -/
def octtoi (buf : List UInt8) : Int :=
  let (m, buf) := if buf.head? = some 0x2d then (true, buf.tail) else (false, buf)
  let (minus, buf) := Formatted.scanSign (Formatted.skipSpace buf)
  let n : Int := ((buf.takeWhile fun c => 0x30 ≤ c ∧ c ≤ 0x37).foldl
    (fun n c => 8 * n + (c.toNat - 0x30)) 0 : Nat)
  if m != minus then -n else n

/-- `sscanf` with some `%s`: the words of a text. -/
def scanWords : Nat → List UInt8 → List (List UInt8)
  | 0, _ => []
  | n + 1, text =>
      match scanWord text with
      | none => []
      | some (word, text) => word :: scanWords n text

/-- A separator at the end, if there is none yet. -/
def endWithSep (name : List UInt8) : List UInt8 :=
  if name.getLast? = some 0x2f then name else name ++ [0x2f]

/-- `volume_to_namespace_map` and what `nw_vol_inode_to_handle` adds there. -/
def volumeToNamespaceMap (w : VolWorld) (v : VolConfig) : VolConfig :=
  match w.stat v.unixname with
  | none => v
  | some id =>
      if 0 < id.ino ∧ id.ino ≤ v.highInode then
        if ⟨id.dev, 0⟩ ∈ v.maps ∨ v.maxMapsCount ≤ v.maps.length then v
        else { v with maps := v.maps ++ [⟨id.dev, 0⟩] }
      else v

/-- The volume of an entry with the number 1, from its words. -/
def initVolume (w : VolWorld) (sysname unixname : List UInt8) (more : List (List UInt8)) :
    VolConfig :=
  let home := unixname.head? = some 0x7e ∧ (unixname.tail = [] ∨ unixname.tail.head? = some 0x2f)
  let options := { VolFlags.default with isHome := home }
  let options := (more.headD []).foldl VolFlags.option options
  let v : VolConfig :=
    { sysname := CText.visible (sysname.map w.up)
      unixname := if home then [] else endWithSep unixname
      homeaddon := if home ∧ 2 < unixname.length then endWithSep (unixname.drop 2) else []
      options := options
      umodeDir := (more[1]?.map octtoi).getD 0
      umodeFile := (more[2]?.map octtoi).getD 0
      maxMapsCount := if options.oneDev then 1 else 16
      highInode := if options.oneDev then 0xffffffff else 0xfffffff
      maps := [] }
  let v := if v.unixname ≠ [] then volumeToNamespaceMap w v else v
  { v with options := v.options.checked }

/-- What the loop of `nw_init_volumes` does with an entry. -/
def takeEntry (w : VolWorld) (max : Nat) (s : Volumes) (e : Int × List UInt8) : Volumes :=
  if e.1 = 1 ∧ s.volumes.length < max ∧ 3 < e.2.length then
    match scanWords 5 e.2 with
    | sysname :: unixname :: more =>
        let v := initVolume w sysname unixname more
        { s with
          volumes := s.volumes ++ [v]
          loadedOs2 := s.loadedOs2 || v.options.os2
          loadedNfs := s.loadedNfs || v.options.nfs }
    | _ => s
  else if e.1 = 40 then { s with pathVolInodesCache := e.2 }
  else if e.1 = 46 then { s with pathAttributes := e.2 }
  else if e.1 = 47 then { s with pathTrustees := e.2 }
  else s

theorem length_getIniEntry (f : IniFile) (entry : Int) (strsize : Nat)
    {e : Int × List UInt8} {f' : IniFile} (h : getIniEntry f entry strsize = (some e, f')) :
    f'.length < f.length := by
  induction f with
  | nil => cases h
  | cons buff f ih =>
      rw [getIniEntry] at h
      split at h
      · cases h
        exact Nat.lt_succ_self _
      · exact (ih h).trans (Nat.lt_succ_self _)

/-- The next entry of any number, into `buff`. -/
def anyEntry : IniCall := ⟨0, 256, by decide⟩

/-- The loop of `nw_init_volumes`, which reads to the end of the file. -/
def initLoop (w : VolWorld) (max : Nat) (f : IniFile) (s : Volumes) : Volumes :=
  match _hread : getIniEntry f anyEntry.entry anyEntry.strsize with
  | (none, _) => s
  | (some e, f') => initLoop w max f' (takeEntry w max s e)
termination_by f.length
decreasing_by exact length_getIniEntry f anyEntry.entry anyEntry.strsize _hread

/-- `max_nw_vols`, which the first start reads. -/
def readMaxVols (w : VolWorld) (ini : List UInt8) : Nat :=
  match (getIniEntry (IniFile.rewind ini) 61 256).1 with
  | some (_, buff) => if atoi buff < 2 then w.maxNwVols else (atoi buff).toNat
  | none => w.maxNwVols

/-- The names of files without an entry of their own. -/
def volcachePath : List UInt8 := asciiBytes "/var/spool/nwserv/.volcache".toList
def attribPath : List UInt8 := asciiBytes "/var/nwserv/attrib".toList
def trusteesPath : List UInt8 := asciiBytes "/var/nwserv/trustees".toList

/-- `nw_init_volumes` -/
def nwInitVolumes (w : VolWorld) (ini : List UInt8) (s : Volumes) : Volumes :=
  let max := s.maxVols.getD (readMaxVols w ini)
  initLoop w max (IniFile.rewind ini)
    { s with
      maxVols := some max
      volumes := []
      loadedOs2 := false
      loadedNfs := false
      pathVolInodesCache := volcachePath
      pathAttributes := attribPath
      pathTrustees := trusteesPath }

/-- `get_unx_home_dir`; the login name may have no directory. -/
def getUnxHomeDir (pwDir : Option (List UInt8)) : List UInt8 :=
  match pwDir with
  | none => []
  | some dir => if CText.visible dir = [] then [0x2f] else (CText.visible dir).take 255

/-- What a login does with a volume. -/
def setupVolume (w : VolWorld) (unixname : List UInt8) (umodeDir umodeFile : Int) (v : VolConfig) :
    VolConfig :=
  let v :=
    if v.options.isHome then
      let fname :=
        if unixname ≠ [] ∧ v.homeaddon ≠ [] then
          if 256 < unixname.length + v.homeaddon.length then [] else unixname ++ v.homeaddon
        else unixname
      let v := { v with maps := [], unixname := fname }
      if fname ≠ [] then volumeToNamespaceMap w v else v
    else v
  { v with
    umodeDir := if v.umodeDir = 0 then umodeDir else v.umodeDir
    umodeFile := if v.umodeFile = 0 then umodeFile else v.umodeFile }

/-- `nw_setup_vol_opts` -/
def nwSetupVolOpts (w : VolWorld) (umodeDir umodeFile : Int) (pwDir : Option (List UInt8))
    (s : Volumes) : Volumes :=
  let homepath := getUnxHomeDir pwDir
  let unixname := if homepath = [] then [] else endWithSep homepath
  { s with
    homeDir := unixname
    volumes := s.volumes.map (setupVolume w unixname umodeDir umodeFile) }

/-- A start of the volumes, or a login. -/
inductive VolEvent
  | init (w : VolWorld) (ini : List UInt8)
  | setup (w : VolWorld) (umodeDir umodeFile : Int) (pwDir : Option (List UInt8))

def volMachine : Machine Volumes VolEvent Unit where
  step s
    | .init w ini => ((), nwInitVolumes w ini s)
    | .setup w umodeDir umodeFile pwDir => ((), nwSetupVolOpts w umodeDir umodeFile pwDir s)

end MarsNwe.Volume
