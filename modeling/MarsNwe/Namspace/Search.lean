import MarsNwe.Lib.AgedSlots
import MarsNwe.Namspace.Matching

/-! # Searches of the name space calls

`nw_search_file_dir` gives one entry of a directory for each request and says whether
another one follows; `func_search_entry` calls a routine for all entries that match.
-/

namespace MarsNwe.NameSpace

variable {φ : Type}

/-! ## Search handles -/

/-- `MAX_I32` -/
def maxI32 : Nat := 0x7fffffff

/-- The loop of `new_search_handle`, down to `k`: what is left of the handles from `k` on,
and the free one it has found. -/
def ageHandles : List (Option DirSearchHandle) → (k : Nat) →
    List (Option DirSearchHandle) × Option Nat
  | [], _ => ([], none)
  | none :: handles, k => (none :: (ageHandles handles (k + 1)).1, some k)
  | some d :: handles, k =>
      let (handles, foundfree) := ageHandles handles (k + 1)
      if d.idle < maxI32 then (some { d with idle := d.idle + 1 } :: handles, foundfree)
      else if foundfree = none ∧ handles = [] then ([], none)
      else (none :: handles, some k)

def DirSearchHandle.new (id : FileNumbers) : DirSearchHandle := ⟨id.devAsInt, 0, 0, 0, 0⟩

/-- `new_search_handle` -/
def newSearchHandle (id : FileNumbers) : NsM φ Nat := do
  let s ← get
  let d := DirSearchHandle.new id
  let (handles, foundfree) := ageHandles s.handles 0
  match foundfree with
  | some k =>
      set { s with handles := handles.set k (some d) }
      return k
  | none =>
      if handles.length < s.maxDirSearchHandles then
        set { s with handles := handles ++ [some d] }
        return handles.length
      else
        let k := AgedSlots.longestIdle DirSearchHandle.idle handles 0 0 0
        set { s with handles := handles.set k (some d) }
        return k

def searchHandle (k : Nat) : NsM φ (Option DirSearchHandle) :=
  return (← get).handles[k]?.join

def writeHandle (k : Nat) (d : DirSearchHandle) : NsM φ Unit :=
  modify fun s => { s with handles := s.handles.set k (some d) }

/-! ## Names -/

/-- `atoi` -/
def atoi (s : List UInt8) : Int :=
  let s := s.dropWhile fun c => c = 0x20 ∨ 9 ≤ c ∧ c ≤ 13
  let digits := fun s : List UInt8 =>
    ((s.takeWhile fun c => 0x30 ≤ c ∧ c ≤ 0x39).foldl (fun n c => 10 * n + (c.toNat - 0x30)) 0 : Nat)
  if s.head? = some 0x2d then -(digits s.tail : Int)
  else if s.head? = some 0x2b then digits s.tail
  else digits s

/-- 0xff stands before a wildcard. -/
def hasWild : List UInt8 → Bool
  | [] => false
  | c :: path =>
      (c = 0xff && (peek path = 0x3f || peek path = 0x2a || peek path = 0xae || peek path = 0xbf ||
        peek path = 0xaa)) || hasWild path

/-- The inode that a pattern such as `123.___` asks for, or 0. -/
def inodeSearch (path : List UInt8) : UInt32 :=
  let n := path.length - 4
  if !hasWild path && path.drop n = [0x2e, 0x5f, 0x5f, 0x5f] then UInt32.ofInt (atoi (path.take n))
  else 0

/-- A search: the directory, its options, and the pattern as `entry` holds it. -/
structure SearchFor where
  namespaceId : UInt8
  volume : Nat
  options : VolOptions
  /-- The unix name with a `/` behind it. -/
  kpath : List UInt8
  inode : UInt32
  entry : List UInt8
  searchattrib : UInt32
  needsTrustee : Bool

def noOptions : VolOptions := ⟨false, false, false, false⟩

/-- What the searches prepare alike. -/
def searchFor (w : NsWorld φ) (namespaceId : UInt8) (dbe : DirBaseEntry) (path : List UInt8)
    (searchattrib : UInt32) (needsTrustee : Bool) : SearchFor :=
  let options := (w.volumes[dbe.volume]?.map fun v => v.options).getD noOptions
  let entry := CText.visible path
  { namespaceId, volume := dbe.volume, options, searchattrib, needsTrustee
    kpath := nwpath2Unix w dbe.volume dbe.path ++ [0x2f]
    inode := inodeSearch path
    entry :=
      if (namespaceId = nameDos ∨ namespaceId = nameOs2) ∧ !options.igncase then
        CText.visible (entry.map (if options.downshift then w.down else w.up))
      else entry }

/-- `dname`: the name as the client gets it. -/
def dnameOf (w : NsWorld φ) (namespaceId : UInt8) (name : List UInt8) : List UInt8 :=
  if namespaceId = nameDos ∨ namespaceId = nameOs2 then CText.visible (name.map w.unix2dos)
  else name

/-- The names that `search_match` takes; only for other name spaces they may be `.` and
`..`. -/
def nameMatches (w : NsWorld φ) (q : SearchFor) (d : Dirent) : Option Bool :=
  let dname := dnameOf w q.namespaceId d.name
  if q.inode ≠ 0 then some (d.ino = signExtend q.inode)
  else if q.namespaceId = nameDos then
    if peek d.name = 0x2e then some false else fnDosMatchOld q.options w.dfnImatch dname q.entry
  else if q.namespaceId = nameOs2 then
    if peek d.name = 0x2e ∧ (peek d.name.tail = 0x2e ∨ peek d.name.tail = 0) then some false
    else fnOs2Match q.options w.dfnImatch q.entry dname
  else if d.name = q.entry then some true
  else namespaceFnMatch q.entry d.name

/-- `W_SEARCH_ATTR_ALL` -/
def wSearchAttrAll : UInt32 := 0x8006

/-- `W_SEARCH_ATTR_DIR` or `FILE_ATTR_DIR` -/
def searchesDirs (searchattrib : UInt32) : Bool := searchattrib &&& 0x8010 ≠ 0

/-- The tests of `search_match` on the file; one that cannot be found passes them. -/
def fileMatches (w : NsWorld φ) (fs : φ) (q : SearchFor) (d : Dirent) : Bool :=
  let unixname := q.kpath ++ d.name
  match w.stat fs unixname with
  | none => true
  | some statb =>
      (!q.needsTrustee || w.truEffRightsExists fs q.volume unixname statb trusteeT == 0) &&
        (q.searchattrib &&& wSearchAttrAll == wSearchAttrAll ||
          statb.isDir == searchesDirs q.searchattrib)

/-- `search_match` -/
def searchMatch (w : NsWorld φ) (q : SearchFor) (d : Dirent) : NsM φ Bool := do
  if d.ino = 0 ∨ 256 ≤ d.name.length then return false
  match nameMatches w q d with
  | none => throw .overrun
  | some false => return false
  | some true => return fileMatches w (← get).fs q d

/-! ## What the client gets of an entry -/

/-- The loop of `build_dos_name`, which is that of `fn_dos_match`, and the name. -/
def buildDosName (options : VolOptions) (w : NsWorld φ) (e : DirBaseEntry) (size : Nat) :
    List UInt8 :=
  if isDosName options (lastComp e.path) false 0 then
    CText.visible (((lastComp e.path).take (size - 1)).map w.up)
  else (toString e.statb.numbers.ino.toInt64.toInt).toList.map chr ++ [0x2e, 0x5f, 0x5f, 0x5f]

/-- `build_dir_info`: the size of the answer. -/
def buildDirInfo (w : NsWorld φ) (ptr : Nat) (namespaceId : UInt8) (infomask : UInt32) :
    NsM φ Int := do
  let e ← theEntry ptr
  let result := volumeSupportsNamespace w e.volume namespaceId
  if result ≠ 0 then return result
  -- `INFO_MSK_DIR_ENTRY_INFO`
  if infomask &&& 0x400 ≠ 0 then discard <| name2Base w e.volume e.statb nameDos
  let options := (w.volumes[e.volume]?.map fun v => v.options).getD noOptions
  -- `INFO_MSK_ENTRY_NAME`
  if infomask &&& 1 = 0 then return 76
  else if namespaceId = nameDos then return 77 + (buildDosName options w e 13).length
  else return 77 + (lastComp e.path).length % 256

/-! ## Searches -/

/-- The loop over the entries from the position `pos` on: the first one that matches and
that has or gets an entry. -/
def findNext (w : NsWorld φ) (ptr : Nat) (q : SearchFor) : List Dirent → (pos last : Nat) →
    NsM φ (Option (Int × Nat) × Nat)
  | [], _, last => return (none, last)
  | d :: ds, pos, last => do
      if ← searchMatch w q d then
        let dest ← getAddNewEntry w ptr q.namespaceId (dnameOf w q.namespaceId d.name) none
        if 0 ≤ dest then return (some (dest, pos), last)
      findNext w ptr q ds (pos + 1) (last + 1)

/-- The loop behind the entry found: the next one that matches. -/
def lookAhead (w : NsWorld φ) (q : SearchFor) : List Dirent → (pos last : Nat) →
    NsM φ (Option Dirent × Nat × Nat)
  | [], pos, last => return (none, pos, last)
  | d :: ds, pos, last => do
      if ← searchMatch w q d then return (some d, pos, last)
      else lookAhead w q ds (pos + 1) (last + 1)

/-- Where a search goes on in a directory: the position, and the handle after it. -/
def startSearch (entries : List Dirent) (d : DirSearchHandle) (sequence : Nat) :
    Nat × DirSearchHandle :=
  let d := { d with idle := 0 }
  let d := if sequence = 0 ∨ sequence ≠ d.lastsequence then { d with dirpos := 0 } else d
  let byPos := if d.dirpos = 0 then none else entries[d.dirpos]?
  if d.dirpos ≠ 0 ∧ d.foundInode ≠ 0 ∧ byPos.map Dirent.ino ≠ some d.foundInode then
    let k := entries.findIdx fun e => e.ino = d.foundInode
    if k < entries.length then (k, { d with lastsequence := k })
    else (min sequence entries.length, { d with lastsequence := min sequence entries.length })
  else if byPos.isSome then (d.dirpos, d)
  else (min sequence entries.length, { d with lastsequence := min sequence entries.length })

/-- What `nw_search_file_dir` returns; `dest` is the entry that the information is of. -/
structure SearchReply where
  result : Int
  sequence : UInt32
  perhapsMore : Bool
  dest : Option DirBaseEntry

/-- `nw_search_file_dir` from where the directory is open; `k` is the search handle and
`d` what it holds. -/
def searchOpened (w : NsWorld φ) (q : SearchFor) (ptr k : Nat) (d : DirSearchHandle)
    (sequence : Nat) (infomask : UInt32) (entries : List Dirent) : NsM φ SearchReply := do
  writeEntry ptr fun e => { e with locked := e.locked + 1 }
  let (pos, d) := startSearch entries d sequence
  let reply ← match ← findNext w ptr q (entries.drop pos) pos d.lastsequence with
    | (some (dest, pos), last) => do
        let dest ← entryAt dest.toNat
        discard <| nwpStat w dest.ptr
        -- `INFO_MSK_NAME_SPACE_INFO` has no size of its own
        let result ← buildDirInfo w dest.ptr q.namespaceId infomask
        let (next, dirpos, last) ← lookAhead w q (entries.drop (pos + 1)) (pos + 1) (last + 1)
        writeHandle k { d with
          dirpos := dirpos, lastsequence := last, foundInode := next.elim 0 Dirent.ino
          idle := if next.isSome then 0 else maxI32 - 4 }
        pure ⟨result, UInt32.ofNat k ||| (UInt32.ofNat last <<< 8), next.isSome,
          some (← theEntry dest.ptr)⟩
    | (none, last) => do
        writeHandle k { d with dirpos := 0, lastsequence := last, idle := maxI32 - 2 }
        pure ⟨-0xff, UInt32.ofNat k, false, none⟩
  let dbe ← theEntry ptr
  writeEntry dbe.ptr fun e => { e with locked := 0 }
  return reply

/-- The search handle for a directory: that of the sequence, or a new one. -/
def handleFor (id : FileNumbers) (sequence : UInt32) : NsM φ (Nat × DirSearchHandle) := do
  let k := (sequence &&& 0xff).toNat
  match (← searchHandle k).filter fun d => d.id = id with
  | some d => return (k, d)
  | none => return ((← newSearchHandle id) % 256, .new id)

/-- `nw_search_file_dir` -/
def nwSearchFileDir (w : NsWorld φ) (namespaceId : UInt8) (searchattrib infomask : UInt32)
    (volume : Nat) (basehandle sequence : UInt32) (path : List UInt8) : NsM φ SearchReply := do
  let result ← findBaseEntry w volume basehandle
  let result := if 255 < path.length then -0x9c else result
  if result < 0 then return ⟨result, sequence, false, none⟩
  let dbe ← entryAt result.toNat
  let unixname := nwpath2Unix w dbe.volume dbe.path
  let noSearchTrustee :=
    w.truEffRightsExists (← get).fs dbe.volume unixname dbe.statb trusteeF
  if noSearchTrustee ≠ 0 ∧ !hasBit noSearchTrustee trusteeT.toUInt32 then
    return ⟨-0xff, sequence, false, none⟩
  let sequence ← if sequence = 0xffffffff then
      pure (UInt32.ofNat (← newSearchHandle dbe.statb.numbers))
    else pure sequence
  let (k, d) ← handleFor dbe.statb.numbers sequence
  match w.readdir (← get).fs unixname with
  | none => return ⟨-0xff, UInt32.ofNat k, false, none⟩
  | some entries =>
      let q := searchFor w namespaceId dbe path searchattrib (noSearchTrustee ≠ 0)
      searchOpened w q dbe.ptr k d (sequence >>> 8).toNat infomask entries

/-- The loop of `func_search_entry`. -/
def funcSearchLoop (w : NsWorld φ) (ptr : Nat) (q : SearchFor) (fsFunc : Nat → NsM φ Int) :
    List Dirent → (result : Int) → NsM φ Int
  | [], result => return result
  | d :: ds, result => do
      if ← searchMatch w q d then
        let dest ← getAddNewEntry w ptr q.namespaceId (dnameOf w q.namespaceId d.name) none
        if 0 ≤ dest then
          let res ← fsFunc (← entryAt dest.toNat).ptr
          if res < 0 then return res else funcSearchLoop w ptr q fsFunc ds 0
        else funcSearchLoop w ptr q fsFunc ds result
      else funcSearchLoop w ptr q fsFunc ds result

/-- `func_search_entry` -/
def funcSearchEntry (w : NsWorld φ) (ptr : Nat) (namespaceId : UInt8) (path : List UInt8)
    (searchattrib : UInt32) (fsFunc : Nat → NsM φ Int) : NsM φ Int := do
  let dbe ← theEntry ptr
  if path = [] ∧ (dbe.path = [] ∨ dbe.path = [0x2f]) then
    -- the root of the volume
    if searchesDirs searchattrib then
      let res ← fsFunc ptr
      return if res < 0 then res else 0
    else return -0xff
  else
    let unixname := nwpath2Unix w dbe.volume dbe.path
    if w.truEffRightsExists (← get).fs dbe.volume unixname dbe.statb trusteeF ≠ 0 then return -0xff
    else
      match w.readdir (← get).fs unixname with
      | none => return -0xff
      | some entries =>
          if 256 < path.length then throw .overrun
          writeEntry ptr fun e => { e with locked := e.locked + 1 }
          let q := searchFor w namespaceId dbe path searchattrib false
          let result ← funcSearchLoop w ptr q fsFunc entries (-0xff)
          let dbe ← theEntry ptr
          writeEntry dbe.ptr fun e => { e with locked := 0 }
          return result

end MarsNwe.NameSpace
