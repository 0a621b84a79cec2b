import Mathlib.Data.List.DropRight
import MarsNwe.Connect.DirSearch
import MarsNwe.Lib.Logged
import MarsNwe.Tools
import MarsNwe.Trustee.Nodes

/-! # Unix names for the paths of requests

`build_path` takes the path of a request apart, `build_dir_name` leads from a
directory handle or a volume to its directory and checks it, `build_unix_name`
gives the name for calls of the file system.
-/

namespace MarsNwe

/-! ## What the routines work in -/

/-- The tables of `conversiontable`. -/
structure ConvTable where
  dos2unix : UInt8 → UInt8
  unix2dos : UInt8 → UInt8
  down2up : UInt8 → UInt8
  up2down : UInt8 → UInt8
  /-- The same for characters of unix names. -/
  up2downUnix : UInt8 → UInt8

/-- `NW_VOL`. A home volume has no directory while nobody is logged in. -/
structure NwVol where
  sysname : List UInt8
  /-- The directory, with its `/`, of `unixnamlen` bytes. -/
  unixname : List UInt8
  options : VolOptions
  noNul : (0 : UInt8) ∉ unixname
  ends : unixname = [] ∨ unixname.getLast? = some 0x2f

/-- The calls of the file system and of the trustee, attribute and file modules
that take a name. `stat` is `lstat` too, without symbolic links. -/
inductive FsCall
  | stat
  | opendir
  | mkdir
  | rmdir
  | unlink
  | utime
  | fileCreatOpen
  | mvFile
  | mvDir
  | getAttrib
  | setAttrib
  | effRightsExists (lookfor : Rights)
  | getEffRights
  | getInheritedMask
  | setInheritedMask
  | addTrustee
  | delTrustee
  | getTrusteeSet
deriving DecidableEq

/-- A name that is passed to a call, and the volume it was resolved to. -/
structure Passed where
  call : FsCall
  volume : Option Nat
  name : List UInt8

/-- Why a request ends early: with a completion code, or because a string is longer
than its buffer; what happens then is not described. -/
inductive Stop
  | code (completion : Int)
  | overrun

abbrev Conn := Logged Stop Passed

/-- The server during one request. -/
structure ConnWorld where
  volumes : List NwVol
  conv : Option ConvTable
  actObjId : UInt32
  entry8Flags : UInt32
  stat : List UInt8 → Option FileStat
  /-- `opendir` and `readdir`. -/
  readdir : List UInt8 → Option (List Dirent)
  /-- What the other calls return. -/
  answer : FsCall → Option Nat → List UInt8 → Int
  /-- `share_file` finds the file open. -/
  shared : FileId → Bool
  /-- What the share module makes of the lock flag of `nw_log_file`. -/
  logLock : Int → FileId → Int
  /-- What an uninitialised buffer holds. -/
  stack : List UInt8

namespace ConnWorld

variable (w : ConnWorld)

def up : UInt8 → UInt8 := w.conv.elim upChar ConvTable.down2up

def down : UInt8 → UInt8 := w.conv.elim downChar ConvTable.up2down

def dos2unix : UInt8 → UInt8 := w.conv.elim id ConvTable.dos2unix

def unix2dos : UInt8 → UInt8 := w.conv.elim id ConvTable.unix2dos

/-- `dfn_imatch` -/
def dfnImatch (a b : UInt8) : Bool :=
  a == b || match w.conv with
    | none => downChar a == downChar b
    | some t => t.up2down a == t.up2down b

/-- `ufn_imatch` -/
def ufnImatch (a b : UInt8) : Bool :=
  a == b || match w.conv with
    | none => downChar a == downChar b
    | some t => t.up2downUnix a == t.up2downUnix b

def charTables : CharTables := ⟨w.unix2dos, w.dfnImatch⟩

/-- `up_fn` or `down_fn`, as the volume has it. -/
def caseFn (v : NwVol) (s : List UInt8) : List UInt8 :=
  CText.visible (s.map (if v.options.downshift then w.down else w.up))

/-- A call that gets a name and returns a number. -/
def call (c : FsCall) (volume : Option Nat) (name : List UInt8) : Conn Int := do
  Logged.emit ⟨c, volume, name⟩
  return w.answer c volume name

/-- `stat` or `s_stat`. -/
def callStat (volume : Option Nat) (name : List UInt8) : Conn (Option FileStat) := do
  Logged.emit ⟨.stat, volume, name⟩
  return w.stat name

def callOpendir (volume : Option Nat) (name : List UInt8) : Conn (Option (List Dirent)) := do
  Logged.emit ⟨.opendir, volume, name⟩
  return w.readdir name

end ConnWorld

/-- `xstrcpy` into a buffer: what does not fit is cut off. -/
def xstrcpy (size : Nat) (s : List UInt8) : Conn (List UInt8) :=
  return s.take (size - 1)

/-- A character is put behind the text of a buffer. -/
def putBehind (size : Nat) (s : List UInt8) (c : UInt8) : Conn (List UInt8) :=
  if s.length + 1 < size then return s ++ [c] else Logged.stop .overrun

/-! ## The path of a request -/

/-- `NW_PATH`; the volume -1 is `none`. -/
structure NwPath where
  path : List UInt8
  fn : List UInt8
  volume : Option Nat
  hasWild : Nat
deriving DecidableEq

/-- The state of `conn_build_path_fn`: `text` stands in the buffer before `p1`,
`behind` from `p1` on. -/
structure PathText where
  vol : List UInt8
  text : List UInt8
  behind : List UInt8
  p : Option Nat
  hasWild : Nat

/-- `*p1++ = c` -/
def PathText.put (s : PathText) (c : UInt8) : PathText :=
  { s with text := s.text ++ [c], behind := s.behind.tail }

/-- One character of `conn_build_path_fn`. A colon starts the text anew but leaves
`p` where it is. -/
def connBuildPathChar (w : ConnWorld) (s : PathText) (c : UInt8) : PathText :=
  if c = 0xae then s.put 0x2e
  else if c = 0xaa ∨ c = 0x2a then { s.put c with hasWild := s.hasWild + 1 }
  else if c = 0xbf ∨ c = 0x3f then { s.put 0x3f with hasWild := s.hasWild + 1 }
  else if c = 0x2f ∨ c = 0x5c then { s.put 0x2f with p := some (s.text.length + 1) }
  else if c = 0x3a then
    { s with
      vol := CText.visible (s.text.map w.up)
      text := []
      behind := s.text ++ s.behind }
  else s.put c

/-- `conn_build_path_fn`: the name of the volume, and the path with or without a
last component of its own. -/
def connBuildPathFn (w : ConnWorld) (data : List UInt8) (onlyDir : Bool) :
    List UInt8 × NwPath :=
  let s := (CText.visible data).foldl (connBuildPathChar w) ⟨[], [], w.stack, none, 0⟩
  let buffer := s.text ++ 0 :: s.behind.tail
  if onlyDir then (s.vol, ⟨CText.visible buffer, [], none, s.hasWild⟩)
  else
    match s.p with
    | some p =>
        (s.vol, ⟨CText.visible (buffer.take p), (CText.visible (buffer.drop p)).take 255, none,
          s.hasWild⟩)
    | none => (s.vol, ⟨[], (CText.visible buffer).take 255, none, s.hasWild⟩)

/-- The last volume of a name. -/
def findVolume (volumes : List NwVol) (name : List UInt8) : Option Nat :=
  (List.range volumes.length).reverse.find? fun j =>
    (volumes[j]?.map NwVol.sysname) = some name

/-- `build_path` -/
def buildPath (w : ConnWorld) (data : List UInt8) (onlyDir : Bool) : NwPath × Int :=
  let (vol, p) := connBuildPathFn w (data.take 255) onlyDir
  if vol = [] then (p, 0)
  else
    match findVolume w.volumes vol with
    | none => (p, -0x98)
    | some j =>
        match w.volumes[j]? with
        | none => (p, -0x98)
        | some v => ({ p with path := w.caseFn v p.path, fn := w.caseFn v p.fn, volume := some j }, 0)

/-! ## Directory handles -/

/-- `NW_DIR`; the inode 0 marks a free one. The numbers are those of the file as an
`int` or an `ino_t` of the server keeps them. -/
structure NwDir where
  id : FileNumbers
  path : List UInt8
  volume : Nat
  isTemp : Nat
  drive : Nat
  task : Nat
deriving DecidableEq

/-- `dirs`, as far as `used_dirs` goes. -/
abbrev Dirs := List NwDir

/-- The entry of a handle that is in use. -/
def usedDir (dirs : Dirs) (dirHandle : Nat) : Option NwDir :=
  if dirHandle = 0 then none
  else dirs[dirHandle - 1]?.filter fun d => d.id.ino ≠ 0

/-! ## Directories -/

/-- The states of the automaton in `build_dir_name`. -/
inductive ScanState
  | start
  /-- 1 to 8: characters of a name. -/
  | name (count : Nat)
  /-- 10 to 13: characters of an extension. -/
  | ext (count : Nat)
  /-- 20 -/
  | points
  /-- 30 -/
  | slash
deriving DecidableEq

/-- The next state; a wrong character has none. -/
def ScanState.next (w : UInt8) : ScanState → Option ScanState
  | .start => some (if w = 0x2e then .points else if w = 0x2f then .slash else .name 1)
  | .name n =>
      if w = 0x2e then some (.ext 0)
      else if w = 0x2f then some .slash
      else if n + 1 = 9 then none
      else some (.name (n + 1))
  | .ext n =>
      if w = 0x2e then none
      else if w = 0x2f then some .slash
      else if n + 1 = 4 then none
      else some (.ext (n + 1))
  | .points => if w = 0x2f then some .slash else if w = 0x2e then some .points else none
  | .slash => some .slash

/-- The variables of the loop: `comp` is the text from `a` to `p`, `ppp` the offset
from where on the path is new. -/
structure DirScan where
  state : ScanState
  comp : List UInt8
  path : List UInt8
  ppp : Nat

/-- The path without its last directory. -/
def dropLastDir (path : List UInt8) : List UInt8 :=
  let kept := path.dropLast.rdropWhile fun c => c ≠ 0x2f
  if kept.length ≤ 1 then [] else kept

/-- One directory up for each further point; above the volume it fails. -/
def goBack : Nat → List UInt8 → Except Stop (List UInt8)
  | 0, path => .ok path
  | n + 1, path => if path = [] then .error (.code (-0x9c)) else goBack n (dropLastDir path)

/-- The action at the end of a component. -/
def closeComp (s : DirScan) (comp : List UInt8) : Except Stop DirScan :=
  let done := { s with state := .start, comp := [] }
  if comp = [] then .ok done
  else if comp.head? = some 0x2e then
    match goBack (comp.tail.takeWhile fun c => c = 0x2e).length s.path with
    | .ok path => .ok { done with path := path }
    | .error e => .error e
  else if 256 < s.path.length + comp.length + 2 then .error .overrun
  else .ok { done with path := s.path ++ comp ++ [0x2f] }

/-- One character of the loop; `last` says that the search path ends behind it. -/
def scanChar (w : UInt8) (last : Bool) (s : DirScan) : Except Stop DirScan :=
  match s.state.next w with
  | none => .error (.code (-0x9c))
  | some state =>
      let ppp := if s.state = .points then 0 else s.ppp
      if state = .slash then closeComp { s with ppp := ppp } s.comp
      else if last then closeComp { s with ppp := ppp } (s.comp ++ [w])
      else .ok ⟨state, s.comp ++ [w], s.path, ppp⟩

/-- The loop of `build_dir_name` over the search path. -/
def scanPath : List UInt8 → DirScan → Except Stop DirScan
  | [], s => .ok s
  | w :: rest, s =>
      match scanChar w rest.isEmpty s with
      | .ok s => scanPath rest s
      | .error e => .error e

/-- Where the loop starts: the volume, the search path and the state. -/
def startDir (w : ConnWorld) (dirs : Dirs) (p : NwPath) (dirHandle : Nat) :
    Option (Nat × List UInt8 × DirScan) :=
  match p.volume with
  | some v => some (v, p.path, ⟨.start, [], [], 0⟩)
  | none =>
      match usedDir dirs dirHandle with
      | none => none
      | some d =>
          if p.path.head? = some 0x2f then some (d.volume, p.path.tail, ⟨.start, [], [], 0⟩)
          else
            let path := d.path.take 255
            let igncase := (w.volumes[d.volume]?.map fun v => v.options.igncase).getD false
            some (d.volume, p.path, ⟨.start, [], path, if igncase then path.length else 0⟩)

/-! ## Names on disk -/

/-- `my_match`: the length of the name `s` when it is the next component of `p`. -/
def myMatch (imatch : UInt8 → UInt8 → Bool) : (s p : List UInt8) → (len dot : Nat) → Nat
  | [], p, len, _ => if p = [] ∨ p.head? = some 0x2f then len else 0
  | _ :: _, [], _, _ => 0
  | c :: s, b :: p, len, dot =>
      if len = 12 then 0
      else if c = 0x2e then
        if dot ≠ 0 then 0
        else if imatch c b then myMatch imatch s p (len + 1) (dot + 1) else 0
      else if dot ≠ 0 then
        if 3 < dot then 0
        else if imatch c b then myMatch imatch s p (len + 1) (dot + 1) else 0
      else if len = 8 then 0
      else if imatch c b then myMatch imatch s p (len + 1) dot else 0

theorem length_tail_drop_lt {l rest : List UInt8} {n : Nat} (hl : l.length ≤ rest.length)
    (h : l.drop n ≠ []) : (l.drop n).tail.length < rest.length := by
  have hpos := List.length_pos_iff.mpr h
  simp only [List.length_drop, List.length_tail] at hpos ⊢
  omega

/-- `get_match`: `done` ends before the separator at `p`, `rest` begins behind it.
The components of `rest` become the names that the directories have for them, as
far as they have one. -/
def getMatch (w : ConnWorld) (volume : Option Nat) (done rest : List UInt8) :
    Conn (List UInt8) := do
  let slashes := rest.takeWhile fun c => c = 0x2f
  let comp := rest.dropWhile fun c => c = 0x2f
  match ← w.callOpendir volume done with
  | none => return rest
  | some entries =>
      match entries.find? fun d => d.ino ≠ 0 ∧ myMatch w.ufnImatch d.name comp 0 0 ≠ 0 with
      | none => return rest
      | some d =>
          if _hmore : comp.drop d.name.length = [] then return slashes ++ d.name
          else
            let tail ← getMatch w volume (done ++ 0x2f :: slashes ++ d.name)
              (comp.drop d.name.length).tail
            return slashes ++ d.name ++ 0x2f :: tail
termination_by rest.length
decreasing_by exact length_tail_drop_lt (List.length_dropWhile_le _ _) ‹_›

/-- A change of a string in its buffer, which goes up to the first zero. -/
def onVisible (f : List UInt8 → List UInt8) (s : List UInt8) : List UInt8 :=
  f (CText.visible s) ++ s.drop (CText.visible s).length

/-- What `build_dir_name` does for volumes with `VOL_OPTION_IGNCASE`: the name on
disk for the new part of the path and for the last component. -/
def mangle (w : ConnWorld) (v : NwVol) (p : NwPath) (ppp : Nat) : Conn NwPath := do
  let text := (p.path ++ p.fn).map w.dos2unix
  let before := v.unixname ++ text.take ppp
  -- `mangle_dos_name`
  match ← w.callStat p.volume (v.unixname ++ CText.visible text) with
  | some _ =>
      let rest := onVisible (List.map w.unix2dos) (text.drop ppp)
      return ⟨CText.visible (p.path.take ppp ++ rest.take (p.path.length - ppp)),
        CText.visible (rest.drop (p.path.length - ppp)), p.volume, p.hasWild⟩
  | none =>
      if before = [] then Logged.stop .overrun
      else
        let found ← getMatch w p.volume before.dropLast (CText.visible (text.drop ppp))
        let rest := onVisible (fun _ => found) (text.drop ppp)
        let rest := onVisible (List.map w.unix2dos) rest
        return ⟨CText.visible (p.path.take ppp ++ rest.take (p.path.length - ppp)),
          CText.visible (rest.drop (p.path.length - ppp)), p.volume, p.hasWild⟩

/-! ## Names of calls -/

/-- `build_unix_name` -/
def buildUnixName (w : ConnWorld) (p : NwPath) (ignoreFn noSlash : Bool) : List UInt8 :=
  match p.volume.bind fun j => w.volumes[j]? with
  | none => asciiBytes ['Z', '/', 'Z', '/', 'Z', '/', 'Z']
  | some v =>
      if v.unixname = [] ∨ 250 < v.unixname.length then
        asciiBytes ['Z', '/', 'Z', '/', 'Z', '/', 'Z']
      else
        let name := v.unixname ++ p.path.take (299 - v.unixname.length)
        let name :=
          if !ignoreFn && p.fn ≠ [] then name ++ p.fn.take (299 - name.length)
          else if noSlash && name.getLast? = some 0x2f then
            if 1 < name.length then name.dropLast else name ++ [0x2e]
          else name
        CText.visible (name.map w.dos2unix)

/-- `LOGIN` -/
def loginName : List UInt8 := asciiBytes ['L', 'O', 'G', 'I', 'N']

/-- Nobody is logged in, and bit 0 of entry 8 is not set. -/
def ConnWorld.LoginOnly (w : ConnWorld) : Prop := w.actObjId = 0 ∧ w.entry8Flags &&& 1 = 0

instance (w : ConnWorld) : Decidable w.LoginOnly := inferInstanceAs (Decidable (_ ∧ _))

/-- The test of the path in `nw_path_directory_is_ok`. -/
def isLoginPath (w : ConnWorld) (path : List UInt8) : Prop :=
  let pp := ((path.dropWhile fun c => c = 0x2f).take 6).map w.up
  pp.take 5 = loginName ∧ (pp.getD 5 0 = 0 ∨ pp.getD 5 0 = 0x2f)

instance (w : ConnWorld) (path : List UInt8) : Decidable (isLoginPath w path) :=
  inferInstanceAs (Decidable (_ ∧ _))

/-- `nw_path_directory_is_ok` -/
def nwPathDirectoryIsOk (w : ConnWorld) (p : NwPath) : Conn FileStat :=
  if w.LoginOnly ∧ ¬(p.volume = some 0 ∧ isLoginPath w p.path) then Logged.stop (.code (-0x9c))
  else do
    match ← w.callStat p.volume (buildUnixName w p true true) with
    | none => Logged.stop (.code (-0x9c))
    | some st =>
        if ¬st.isDir then Logged.stop (.code (-0x9c))
        -- the inode is returned as an `int`
        else if 0x80000000 ≤ st.id.ino then Logged.stop (.code (st.id.ino.toNat - 0x100000000))
        else return st

/-- `build_dir_name` -/
def buildDirName (w : ConnWorld) (dirs : Dirs) (p : NwPath) (dirHandle : Nat) :
    Conn (NwPath × FileStat) :=
  match startDir w dirs p dirHandle with
  | none => Logged.stop (.code (-0x9b))
  | some (volume, search, s) => do
      let s ← Logged.lift (scanPath search s)
      match w.volumes[volume]? with
      | none => Logged.stop (.code (-0x98))
      | some v =>
          let p : NwPath :=
            ⟨s.path.take s.ppp ++ w.caseFn v (s.path.drop s.ppp), w.caseFn v p.fn, some volume,
              p.hasWild⟩
          let p ← if v.options.igncase then mangle w v p s.ppp else pure p
          let st ← nwPathDirectoryIsOk w p
          return (p, st)

/-- `conn_get_kpl_path` -/
def connGetKplPath (w : ConnWorld) (dirs : Dirs) (dirHandle : Nat) (data : List UInt8)
    (onlyDir : Bool) : Conn (NwPath × FileStat) :=
  let (p, completion) := buildPath w data onlyDir
  if completion ≠ 0 then Logged.stop (.code completion) else buildDirName w dirs p dirHandle

end MarsNwe
