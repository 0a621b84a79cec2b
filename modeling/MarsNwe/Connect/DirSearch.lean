import MarsNwe.Lib.CText

/-! # Searching a directory

`get_dir_entry` reads a directory from its start for every request and skips what
the client has seen; `get_dh_entry` keeps the position of the last request in a
directory handle.
-/

namespace MarsNwe

/-! ## Names and patterns -/

/-- The options of a volume that a search looks at. -/
structure VolOptions where
  /-- `VOL_OPTION_DOWNSHIFT` -/
  downshift : Bool
  /-- `VOL_OPTION_IS_PIPE` -/
  isPipe : Bool
  /-- `VOL_OPTION_REMOUNT` -/
  remount : Bool
  /-- `VOL_OPTION_IGNCASE` -/
  igncase : Bool

/-- What the conversion table makes of characters. -/
structure CharTables where
  /-- `unix2doscharset` -/
  unix2dos : UInt8 → UInt8
  /-- `dfn_imatch` -/
  dfnImatch : UInt8 → UInt8 → Bool

/-- `s` from its first point on. -/
def fromPoint (s : List UInt8) : List UInt8 := s.dropWhile fun c => c ≠ 0x2e

/-- `x_str_match`, with the pattern first. A star tries all places up to a point;
the last one matches all that is left, but 0xaa only up to a point. -/
def xStrMatch (tables : CharTables) (soptions : VolOptions) : List UInt8 → List UInt8 → Bool
  | [], s => s.isEmpty
  | c :: p, s =>
      if c = 0xbf ∨ c = 0x3f then
        xStrMatch tables soptions p (if s.headD 0x2e ≠ 0x2e then s.tail else s)
      else if c = 0xaa ∨ c = 0x2a then
        if p.isEmpty then c = 0x2a || (fromPoint s).isEmpty
        else
          (List.range (s.length - (fromPoint s).length)).any
              (fun i => xStrMatch tables soptions p (s.drop i)) ||
            xStrMatch tables soptions p (fromPoint s)
      else if c = 0xae ∨ c = 0x2e then
        if s.isEmpty then xStrMatch tables soptions p s
        else if s.headD 0 ≠ 0x2e then false
        else xStrMatch tables soptions p s.tail
      else if if soptions.igncase then tables.dfnImatch (s.headD 0) c else s.headD 0 == c then
        xStrMatch tables soptions p s.tail
      else false

/-- The loop of `fn_dos_match` over a name: one point at most, eight characters
before it and three after it, in the case of the volume. -/
def isDosName (options : VolOptions) : List UInt8 → (pf : Bool) → (len : Nat) → Bool
  | [], _, _ => true
  | c :: ss, pf, len =>
      if c = 0x2e then !pf && isDosName options ss true 0
      else if pf ∧ 3 < len + 1 ∨ 8 < len + 1 then false
      else if !options.igncase &&
          (if options.downshift then 0x41 ≤ c && c ≤ 0x5a else 0x61 ≤ c && c ≤ 0x7a) then false
      else isDosName options ss pf (len + 1)

/-- `fn_dos_match`. -/
def fnDosMatch (tables : CharTables) (options : VolOptions) (s p : List UInt8) : Bool :=
  isDosName options s false 0 && xStrMatch tables options (p.filter (· ≠ 0xff)) s

/-! ## Directories -/

/-- What `readdir` returns. -/
structure Dirent where
  ino : UInt64
  name : List UInt8
deriving DecidableEq

/-- What a search uses of `struct stat`. -/
structure Stat where
  isDir : Bool
  size : UInt32
  mtime : UInt32
deriving DecidableEq

/-- A directory as a search finds it. -/
structure DirView where
  tables : CharTables
  soptions : VolOptions
  /-- `s_stat` of the names in it; none is an error. -/
  sStat : List UInt8 → Option Stat
  /-- `tru_eff_rights_exists` with `TRUSTEE_F` for it is not 0. -/
  noSearchTrustee : Bool
  /-- `tru_eff_rights_exists` with `TRUSTEE_T` for the names in it is 0. -/
  browse : List UInt8 → Bool
  /-- In the order of `readdir`. -/
  entries : List Dirent

/-- An entry that a search finds: the name the client gets and the `stat` of it. -/
structure DirFound where
  dirent : Dirent
  fn : List UInt8
  statb : Stat
deriving DecidableEq

/-- The tests of an entry, which both searches make alike: `entry` is the pattern,
and bit 0x10 of the attribute asks for directories. -/
def testDirent (v : DirView) (entry : List UInt8) (attrib : UInt32) (d : Dirent) :
    Option DirFound :=
  if d.ino = 0 then none
  else
    let dname := CText.visible (d.name.map v.tables.unix2dos)
    if d.name.headD 0 ≠ 0x2e ∧ (dname = entry ∨ fnDosMatch v.tables v.soptions dname entry) then
      match v.sStat d.name with
      | none => none
      | some statb =>
          if statb.isDir = (attrib &&& 0x10 != 0) ∧ (!v.noSearchTrustee || v.browse d.name) then
            some ⟨d, dname, statb⟩
          else none
    else none

/-- The loop over the entries, which both searches share: `sequence` counts what
has been read. -/
def readUntil (v : DirView) (entry : List UInt8) (attrib : UInt32) :
    List Dirent → Nat → Option DirFound × Nat
  | [], sequence => (none, sequence)
  | d :: ds, sequence =>
      match testDirent v entry attrib d with
      | some found => (some found, sequence + 1)
      | none => readUntil v entry attrib ds (sequence + 1)

/-- The size that pipes are shown with. -/
def pipeSize (options : VolOptions) (statb : Stat) : Stat :=
  if options.isPipe then { statb with size := 0x70000000 ||| (statb.mtime &&& 0xfffffff) }
  else statb

/-- `get_dir_entry` on a directory that could be opened: the entry found and the
sequence after it. -/
def getDirEntry (v : DirView) (entry : List UInt8) (sequence : Nat) (attrib : UInt32) :
    Except Int DirFound × Nat :=
  let sequence := if sequence = 0xffff then 0 else sequence
  if v.entries.length < sequence then (.error (-0xff), sequence)
  else
    match readUntil v entry attrib (v.entries.drop sequence) sequence with
    | (some found, sequence) =>
        (.ok { found with statb := pipeSize v.soptions found.statb }, sequence)
    | (none, sequence) => (.error (-0xff), sequence)

/-- `DIR_HANDLE`: the open directory, by the number of entries read from it, and
the position and the sequence of the last search. -/
structure DirHandle where
  f : Option Nat
  sequence : Nat
  dirpos : Nat

/-- What `new_dir_handle` leaves. -/
def DirHandle.new (options : VolOptions) : DirHandle :=
  ⟨if options.remount then none else some 0, 0, 0⟩

/-- `release_dh_f`. -/
def releaseDhF (options : VolOptions) (dh : DirHandle) : DirHandle :=
  if options.remount then { dh with f := none } else dh

/-- `get_dh_entry` on a directory that can be opened again. Positions in the
directory are never negative. -/
def getDhEntry (v : DirView) (dh : DirHandle) (search : List UInt8) (sequence : Nat)
    (attrib : UInt32) : (Option DirFound × Nat) × DirHandle :=
  -- `give_dh_f`
  let dh := { dh with f := some (dh.f.getD 0) }
  let sequence := if sequence % 0x10000 = 0xffff then 0 else sequence
  let dh := if sequence < dh.sequence then { dh with dirpos := 0, sequence := 0 } else dh
  -- `SEEKDIR`
  let dh := { dh with f := some dh.dirpos }
  let skip := sequence - dh.sequence
  if v.entries.length < dh.dirpos + skip then
    let dh := { dh with
      f := some v.entries.length
      sequence := dh.sequence + (v.entries.length - dh.dirpos)
      dirpos := v.entries.length }
    ((none, sequence), releaseDhF v.soptions dh)
  else
    let pos := dh.dirpos + skip
    let (found, after) := readUntil v search attrib (v.entries.drop pos) (dh.sequence + skip)
    let pos := pos + (after - (dh.sequence + skip))
    ((found, after), releaseDhF v.soptions ⟨some pos, after, pos⟩)

end MarsNwe
