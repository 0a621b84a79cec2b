import MarsNwe.Connect.PathNames
import MarsNwe.Trustee.ReadNodes
import MarsNwe.Trustee.StoreRuns

/-! # The paths at which a user is a trustee

A process builds the list of the paths of a volume at which an id has trustees when it is
asked for the first of them, and hands them out one by one. The list is made by a walk
through the trustee store, which looks up the node of each file whose name is there. Once
a minute a lookup tests whether the trustees of the volume were changed; if they were, it
drops the nodes, and the list too.
-/

namespace MarsNwe

open Links

/-! ## The list of a volume -/

/-- `VOLUME_TRUSTEE`. -/
structure VolumeTrustee where
  trustee : Int
  path : List UInt8
deriving DecidableEq

/-- The list in `NW_VOL`, and what it was built for. -/
structure VolTrustees where
  trustees : List VolumeTrustee
  trusteeId : UInt32
  trusteeNamespace : Int
  trusteeSernum : UInt32
  /-- When the serial number was tested. -/
  trusteeLastTestTime : Int
deriving DecidableEq

namespace VolTrustees

/-- `free_vol_trustee`. -/
def free (vol : VolTrustees) : VolTrustees :=
  { vol with trustees := [], trusteeId := 0, trusteeLastTestTime := 0 }

/-- `add_vol_trustee`. -/
def add (vol : VolTrustees) (path : List UInt8) (trustee : Int) : VolTrustees :=
  { vol with trustees := vol.trustees ++ [⟨trustee, path⟩] }

end VolTrustees

/-- What a process keeps: the list of the volume, and the nodes of all volumes. -/
structure TrusteeProcess where
  vol : VolTrustees
  cache : TrusteeCache
deriving DecidableEq

/-- The state in which a process starts. -/
def TrusteeProcess.start : TrusteeProcess := ⟨⟨[], 0, 0, 0, 0⟩, .empty⟩

/-- The volume of a list: its name, the character tables and the files. -/
structure ScanWorld where
  sysname : List UInt8
  conv : Option ConvTable
  world : TrusteeWorld

/-- The trustees of the volume are those in its store. -/
def TrusteeWorld.withStore (world : TrusteeWorld) (volume : Nat) (s : TrusteeStore) :
    TrusteeWorld :=
  { world with disk := fun volume' =>
      if volume' = volume then s.trusteeDir else world.disk volume' }

/-- The name behind the directory of a volume. -/
def UnixName.ofBytes (path : List UInt8) : UnixName :=
  ⟨(path.splitOnP (· = 0x2f)).filter (!·.isEmpty), path.getLast? = some 0x2f⟩

/-- A table is put to use on a string in a buffer, up to its end. -/
def mapText (table : UInt8 → UInt8) (text : List UInt8) : List UInt8 :=
  (text.takeWhile (· ≠ 0)).map table ++ text.dropWhile (· ≠ 0)

namespace ScanWorld

variable (w : ScanWorld)

/-- `up_fn`. -/
def upFn : List UInt8 → List UInt8 := mapText (w.conv.elim upChar ConvTable.down2up)

/-- `unix2doscharset`. -/
def unix2doscharset : List UInt8 → List UInt8 := mapText (w.conv.elim id ConvTable.unix2dos)

/-- A path as it is listed in a name space. -/
def listedPath (namespaceNr : Int) (path : List UInt8) : List UInt8 :=
  if namespaceNr = 0 then w.upFn (w.unix2doscharset path) else path

/-- What is answered for an entry of the list. -/
def answer (tr : VolumeTrustee) : Int × List UInt8 :=
  (tr.trustee, w.upFn w.sysname ++ chr ':' ::
    if tr.path.length > 1 ∨ tr.path.head? ≠ some (chr '.') then tr.path else [])

end ScanWorld

/-! ## Lookups -/

/-- `vol_trustees_were_changed`: whether the nodes and the list were dropped. -/
def volTrusteesWereChanged (volume : Nat) (actTime : Int) (s : TrusteeStore) (p : TrusteeProcess) :
    Bool × TrusteeProcess :=
  if actTime > p.vol.trusteeLastTestTime + 60 then
    let newSernum := s.sernum
    if p.vol.trusteeSernum ≠ newSernum then
      (true, ⟨{ p.vol.free with trusteeSernum := newSernum }, truFreeCache (some volume) p.cache⟩)
    else (false, { p with vol := { p.vol with trusteeLastTestTime := actTime } })
  else (false, p)

/-- `find_trustee_node`. -/
def findTestedNode (volume : Nat) (actTime : Int) (s : TrusteeStore) (p : TrusteeProcess)
    (id : FileId) : Option FileTrusteeNode × TrusteeProcess :=
  match volTrusteesWereChanged volume actTime s p with
  | (true, p) => (none, p)
  | (false, p) =>
      let (tr, cache) := findTrusteeNode p.cache volume id
      (tr, { p with cache })

/-- `tru_get_id_trustee`. -/
def truGetIdTrustee (world : TrusteeWorld) (volume : Nat) (actTime : Int) (s : TrusteeStore)
    (p : TrusteeProcess) (unixname : UnixName) (stb : FileStat) (id : UInt32) :
    Int × TrusteeProcess :=
  let tree := world.tree volume
  if tree.options.trustees then
    match findTestedNode volume actTime s p stb.id with
    | (some tr, p) => (findIdTrustee tr id, p)
    | (none, p) =>
        let modeFlags := (if stb.isDir then 1 else 0) ||| symlinkFlag tree unixname stb
        let tr := createTrusteeNode (world.withStore volume s).disk volume stb.id modeFlags
        (findIdTrustee tr id, { p with cache := addTrusteeNode p.cache tr })
  else (-0x85, p)

/-! ## The scan -/

/-- A directory of the store in which the scan goes on. -/
def isStoreDir (name : List UInt8) : Bool :=
  name.head? ≠ some (chr 't') ∧ name.head? ≠ some (chr '.') ∧ name.head? ≠ some (chr 'n')

/-- A link to the name of a file. -/
def isNameLink (name : List UInt8) : Bool := name.head? = some (chr 'n')

/-- The links that `vol_trustee_scan` reads, in their order. Their names fit its buffer, as
they fitted a smaller one when they were made. -/
def scannedLinks (s : TrusteeStore) : Tree (List UInt8) (List UInt8) :=
  walk isStoreDir isNameLink s.links (height s.links) []

/-- What `vol_trustee_scan` does at a link to a name, which is read up to 254 bytes. With
the directory of the volume before it, the name has room in its buffer. -/
def scanLink (w : ScanWorld) (volume : Nat) (actTime : Int) (s : TrusteeStore) (p : TrusteeProcess)
    (target : List UInt8) : TrusteeProcess :=
  let path := target.take 254
  if path.isEmpty then p
  else
    match (w.world.tree volume).stat (.ofBytes path) with
    | none => p
    | some stb =>
        let (trustee, p) :=
          truGetIdTrustee w.world volume actTime s p (.ofBytes path) stb p.vol.trusteeId
        if trustee > -1 then
          { p with vol := p.vol.add (w.listedPath p.vol.trusteeNamespace path) trustee }
        else p

/-- `vol_trustee_scan`. -/
def volTrusteeScan (w : ScanWorld) (volume : Nat) (actTime : Int) (s : TrusteeStore)
    (p : TrusteeProcess) : TrusteeProcess :=
  (scannedLinks s).foldl (fun p l => scanLink w volume actTime s p l.2) p

/-- `build_volume_user_trustee`. -/
def buildVolumeUserTrustee (w : ScanWorld) (volume : Nat) (actTime : Int) (s : TrusteeStore)
    (p : TrusteeProcess) (id : UInt32) (namespaceNr : Int) : TrusteeProcess :=
  volTrusteeScan w volume actTime s
    { p with vol := { p.vol.free with trusteeId := id, trusteeNamespace := namespaceNr } }

/-- `get_volume_user_trustee`: the answer, if it is not 0, and the sequence that is handed
back. -/
def getVolumeUserTrustee (w : ScanWorld) (volume : Nat) (actTime : Int) (s : TrusteeStore)
    (p : TrusteeProcess) (id : UInt32) (namespaceNr : Int) (sequence : Nat) :
    Option (Int × List UInt8) × Nat × TrusteeProcess :=
  if (w.world.tree volume).options.trustees then
    let (changed, p) := volTrusteesWereChanged volume actTime s p
    let p :=
      if changed ∨ sequence = 0 ∨ id ≠ p.vol.trusteeId ∨ namespaceNr ≠ p.vol.trusteeNamespace then
        buildVolumeUserTrustee w volume actTime s p id namespaceNr
      else p
    (p.vol.trustees[sequence]?.map w.answer, sequence + 1, p)
  else (none, 0, p)

/-- The calls one after the other, with the times at which they are made. -/
def userTrusteeMachine (w : ScanWorld) (volume : Nat) (s : TrusteeStore) (id : UInt32)
    (namespaceNr : Int) (clock : Nat → Int) :
    Machine (Nat × TrusteeProcess) Nat (Option ((Int × List UInt8) × Nat)) where
  step state sequence :=
    let (calls, p) := state
    let (answer, sequence, p) :=
      getVolumeUserTrustee w volume (clock calls) s p id namespaceNr sequence
    (answer.map (·, sequence), calls + 1, p)

/-! ## What comes before -/

/-- What happens to the trustees of a volume and in a process that lists them. -/
inductive ScanEvent where
  /-- A change by the process itself. -/
  | own (call : StoreCall)
  /-- A change by another process. -/
  | other (call : StoreCall)
  /-- A file is removed, by whatever process. -/
  | freeFile (file : FileNumbers)
  /-- The process tests the serial number. -/
  | test (actTime : Int)
  /-- The process calls a trustee routine. -/
  | ask (world : TrusteeWorld) (call : TrusteeCall)
  /-- The process lists the trustees of an id. -/
  | scan (w : ScanWorld) (actTime : Int) (id : UInt32) (namespaceNr : Int) (sequence : Nat)

/-- The trustees of a volume and a process. -/
structure ScanSystem where
  store : TrusteeStore
  process : TrusteeProcess

/-- Nothing is granted and the process starts. -/
def ScanSystem.start : ScanSystem := ⟨.empty, .start⟩

/-- Whether a call changes the serial number: a deletion that finds no entry does not. -/
def StoreCall.changes (s : TrusteeStore) : StoreCall → Bool
  | .del file id => (readlink s.links (entryPath file.id id)).isSome
  | _ => true

/-- The serial number that a change gives the volume. -/
def TrusteeStore.sernumAfter (s : TrusteeStore) : UInt32 :=
  if s.sernum + 1 = 0xffffffff then 1 else s.sernum + 1

/-- One event; none, if a name does not fit its buffer. -/
def ScanSystem.step (base : Nat) (place : TrusteeStore → Nat) (volume : Nat)
    (sys : ScanSystem) : ScanEvent → Option ScanSystem
  | .own call =>
      (sys.store.call base place call).map fun store =>
        -- `tru_vol_sernum` drops the nodes, but not the number that the list is for
        if call.changes sys.store then
          ⟨store, { sys.process with cache := truFreeCache (some volume) sys.process.cache }⟩
        else ⟨store, sys.process⟩
  | .other call => (sys.store.call base place call).map fun store => ⟨store, sys.process⟩
  | .freeFile file =>
      (sys.store.truFreeFileTrusteesFromDisk base file.id).map fun store => ⟨store, sys.process⟩
  | .test actTime =>
      some ⟨sys.store, (volTrusteesWereChanged volume actTime sys.store sys.process).2⟩
  | .ask world call =>
      let cache :=
        ((trusteeMachine (world.withStore volume sys.store)).step sys.process.cache call).2
      some ⟨sys.store, { sys.process with cache }⟩
  | .scan w actTime id namespaceNr sequence =>
      some ⟨sys.store,
        (getVolumeUserTrustee w volume actTime sys.store sys.process id namespaceNr sequence).2.2⟩

def ScanSystem.run (base : Nat) (place : TrusteeStore → Nat) (volume : Nat) (sys : ScanSystem)
    (history : List ScanEvent) : Option ScanSystem :=
  history.foldlM (step base place volume) sys

/-! ## What should be listed -/

/-- What is in force, and the paths under which files were given trustees. -/
structure Targets where
  force : InForce
  names : FileNumbers → Option (List UInt8)

namespace Targets

def none : Targets := ⟨.nothing, fun _ => .none⟩

def call (t : Targets) (call : StoreCall) : Targets where
  force := t.force.call call
  names file' :=
    match call with
    | .add file _ _ _ path => if file' = file then some path else t.names file'
    | _ => t.names file'

/-- Nothing is left of a file that is removed. -/
def freeFile (t : Targets) (file : FileNumbers) : Targets where
  force :=
    { entries := fun file' id => if file' = file then .none else t.force.entries file' id
      masks := fun file' => if file' = file then .none else t.force.masks file' }
  names file' := if file' = file then .none else t.names file'

def event (t : Targets) : ScanEvent → Targets
  | .own call | .other call => t.call call
  | .freeFile file => t.freeFile file
  | _ => t

/-- The targets after a history. -/
def after (history : List ScanEvent) : Targets := history.foldl event none

end Targets

/-- From sequence 0 on, the process lists each target that has an entry for the id, once,
with the rights of the entry. -/
def ListsTargets (w : ScanWorld) (volume : Nat) (sys : ScanSystem) (t : Targets) (id : UInt32)
    (namespaceNr : Int) (clock : Nat → Int) : Prop :=
  ∃ found : List (FileNumbers × List UInt8 × Rights), found.Nodup ∧
    (∀ file path rights, (file, path, rights) ∈ found ↔
      t.names file = some path ∧ t.force.entries file id = some rights) ∧
    (userTrusteeMachine w volume sys.store id namespaceNr clock).Enumerates (0, sys.process) 0
      (found.map fun target =>
        w.answer ⟨target.2.2.toNat, w.listedPath namespaceNr target.2.1⟩)

end MarsNwe
