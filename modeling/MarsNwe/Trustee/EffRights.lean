import MarsNwe.Trustee.Nodes

/-! # Effective rights

The rights of a user at a file are built from the root of the volume down to it:
what is inherited is masked at each node, and a trustee of the node replaces it.
They are kept in the node.
-/

namespace MarsNwe

/-! ## Rights by unix -/

/-- `un_nw_rights`: `acc` are the unix rights, `above` the directory above. -/
def unNwRights (options : TrusteeOptions) (actUid defaultUid : UInt32) (stb : FileStat)
    (acc : UInt8) (above : ParentDir) : Rights :=
  let isPipeCommand := options.isPipe && !stb.isFifo
  if actUid ≠ 0 ∨ isPipeCommand ∨ options.readOnly then
    let accp :=
      match above with
      | .none => none
      | .subdir stbp accp => if stbp.numbers ≠ stb.numbers ∧ stbp.isDir then some accp else none
      | .slash accp => some accp
    let norights :=
      match accp with
      | none => 0xff
      | some accp =>
          (if accp &&& 1 = 0 then 0xff
            else if accp &&& 2 = 0 then trusteeA ||| trusteeE ||| trusteeM else trusteeA) |||
          (if !stb.isDir ∧ accp &&& 4 = 0 then trusteeF else 0)
    let norights :=
      if options.readOnly then norights ||| trusteeE ||| trusteeM ||| trusteeC
      else if (acc = 0 ∨ stb.isDir ∨ isPipeCommand) ∧ acc &&& 1 = 0 then 0xff
      else if isPipeCommand then norights ||| trusteeE ||| trusteeM ||| trusteeC
      else norights
    let norights := norights ||| if acc &&& 0x30 = 0 then trusteeM else 0
    let norights := norights |||
      if acc &&& 2 = 0 then
        (if acc &&& 0x10 = 0 ∨ stb.uid = defaultUid then trusteeM else 0) |||
          trusteeE ||| trusteeC ||| trusteeW
      else 0
    let norights := norights |||
      if acc &&& 4 = 0 then trusteeR ||| (if stb.isDir then trusteeF else 0) else 0
    0xff &&& ~~~norights
  else 0xff ||| trusteeS

/-! ## Rights by trustees -/

/-- `insert_ugid_trustee`: a new trustee overrides the one with its id. -/
def insertUgidTrustee (id : UInt32) (trustee : Rights) : List IdsTrustee → List IdsTrustee
  | [] => [⟨id, trustee⟩]
  | e :: es => if e.id = id then ⟨id, trustee⟩ :: es else e :: insertUgidTrustee id trustee es

/-- The trustees count for the user: by his id or by one of his groups. -/
def TrusteeUser.has (user : TrusteeUser) (id : UInt32) : Bool :=
  id = user.objId ∨ id ∈ user.grps

/-- What a node leaves of the trustees from above, before its own ones. -/
def passTrustees (user : TrusteeUser) (tr : FileTrusteeNode) (ugidTrustees : List IdsTrustee) :
    List IdsTrustee :=
  if tr.modeFlags &&& 0xe ≠ 0 then
    if tr.modeFlags &&& 2 ≠ 0 ∧ user.equivalent then
      insertUgidTrustee user.objId maxTrusteeMask ugidTrustees
    else ugidTrustees.map fun e => { e with trustee := 0 }
  else ugidTrustees.map fun e => { e with trustee := e.trustee &&& tr.inheritedMask }

/-- `build_trustee_rights`, to be called root to leaf. -/
def buildTrusteeRights (user : TrusteeUser) (tr : FileTrusteeNode)
    (ugidTrustees : List IdsTrustee) : FileTrusteeNode × List IdsTrustee :=
  let ugidTrustees := tr.trustees.foldl
    (fun ugidTrustees e =>
      if user.has e.id then insertUgidTrustee e.id e.trustee ugidTrustees else ugidTrustees)
    (passTrustees user tr ugidTrustees)
  ({ tr with
      inheritedMask := if tr.modeFlags &&& 0xe ≠ 0 then 0 else tr.inheritedMask
      effRights := some (ugidTrustees.foldl (fun rights e => rights ||| e.trustee) 0) },
    ugidTrustees)

/-! ## The way to a node -/

/-- A directory on the way to a file: the flags that the walk sets there, and those
that a new node gets besides. -/
structure PathLink where
  numbers : FileNumbers
  modeFlags : UInt8
  newFlags : UInt8
deriving DecidableEq

/-- The directory as its node is kept. -/
def PathLink.id (link : PathLink) : FileId := link.numbers.id

/-- The device flags of a file under a directory on the device `lastDev`. Both devices
that are compared with it are kept in an `int`. -/
def devFlags (tree : VolumeTree) (lastDev dev : UInt64) : UInt8 :=
  (if asInt lastDev ≠ dev then 8 else 0) ||| (if asInt tree.root.dev ≠ dev then 0x10 else 0)

/-- The loop of `find_build_trustee_node` over the parts of a name, as far as it
depends on the file system: the directories it goes through, the last device, and
whether no `stat` fails. It ends before the file itself. -/
def pathLinks (tree : VolumeTree) (stb : FileStat) :
    List UnixName → (lastDev : UInt64) → List PathLink × UInt64 × Bool
  | [], lastDev => ([], lastDev, true)
  | unixname :: rest, lastDev =>
      match tree.stat unixname with
      | none => ([], lastDev, false)
      | some stb1 =>
          if stb1.numbers = stb.numbers then ([], lastDev, true)
          else
            let modeFlags := (if stb1.isDir then 1 else 0) ||| devFlags tree lastDev stb1.numbers.dev
            let (links, last, ok) := pathLinks tree stb rest stb1.numbers.dev
            (⟨stb1.numbers, modeFlags, symlinkFlag tree unixname stb1⟩ :: links, last, ok)

/-- What the walk does at a directory: the node is found or made, and built. -/
def walkLink (user : TrusteeUser) (disk : TrusteeDisk) (volume : Nat)
    (state : TrusteeCache × List IdsTrustee) (link : PathLink) : TrusteeCache × List IdsTrustee :=
  let (cache, ugidTrustees) := state
  let (tr1, cache) :=
    match findTrusteeNode cache volume link.id with
    | (some tr1, cache) => ({ tr1 with modeFlags := tr1.modeFlags ||| link.modeFlags }, cache)
    | (none, cache) =>
        let tr1 := createTrusteeNode disk volume link.id (link.modeFlags ||| link.newFlags)
        (tr1, addTrusteeNode cache tr1)
  let (tr1, ugidTrustees) := buildTrusteeRights user tr1 ugidTrustees
  (cache.put tr1, ugidTrustees)

/-- What `find_build_trustee_node` ends with: the node, or none when the path to it
fails, or the node has been freed by those added after it and is used nevertheless. -/
inductive BuildResult where
  | node (tr : FileTrusteeNode)
  | noPath
  | freed
deriving DecidableEq

/-- `find_build_trustee_node`. -/
def findBuildTrusteeNode (user : TrusteeUser) (tree : VolumeTree) (disk : TrusteeDisk)
    (cache : TrusteeCache) (volume : Nat) (unixname : UnixName) (stb : FileStat) :
    BuildResult × TrusteeCache :=
  let (tr, cache) := findCreatAddTrusteeNode tree disk cache volume unixname stb
  if tr.effRights.isSome then (.node tr, cache)
  else if tree.root ≠ stb.numbers then
    let (links, lastDev, ok) := pathLinks tree stb unixname.prefixes tree.root.dev
    -- the directory of the volume comes first, with the flags 3
    let (cache, ugidTrustees) :=
      (⟨tree.root, 3, 0⟩ :: links).foldl (walkLink user disk volume) (cache, [])
    if ok then
      match cache.at? volume stb.id with
      | none => (.freed, cache)
      | some tr =>
          let tr := { tr with modeFlags := tr.modeFlags ||| devFlags tree lastDev stb.numbers.dev }
          let (tr, _) := buildTrusteeRights user tr ugidTrustees
          (.node tr, cache.put tr)
    else (.noPath, cache)
  else
    let (tr, _) := buildTrusteeRights user { tr with modeFlags := tr.modeFlags ||| 3 } []
    (.node tr, cache.put tr)

/-- `get_eff_rights_by_trustees`; none, if a freed node is used. -/
def getEffRightsByTrustees (user : TrusteeUser) (tree : VolumeTree) (disk : TrusteeDisk)
    (cache : TrusteeCache) (volume : Nat) (unixname : UnixName) (stb : FileStat) :
    Option Rights × TrusteeCache :=
  if user.objId = 1 ∧ user.equivalent then (some maxTrusteeMask, cache)
  else
    match findBuildTrusteeNode user tree disk cache volume unixname stb with
    | (.node tr, cache) => (some (tr.effRights.getD 0), cache)
    | (.noPath, cache) => (some 0, cache)
    | (.freed, cache) => (none, cache)

end MarsNwe
