import Mathlib.Data.List.DropRight
import MarsNwe.File.Transfers

/-! # Opening and closing files

`file_creat_open` tests the rights and the share modes first, then opens the file
as root, and registers the handle with the other processes last.
-/

namespace MarsNwe

open Prog

def fileAttrR : UInt32 := 0x00000001

/-- The rights have some of the bits. -/
def allows (rights bits : Rights) : Bool := rights &&& bits != 0

/-- What ends before the last slash of a name. -/
def parentDir (path : List UInt8) : Option (List UInt8) :=
  if 0x2f ∈ path then some (path.rdropWhile (· ≠ 0x2f)).dropLast else none

/-- `open_with_root_access`. -/
def openWithRootAccess (path : List UInt8) (acm : OpenFlags) : FileProg (Option Nat) := do
  match ← Sys.openFile path false acm with
  | .fd n => pure (some n)
  | .failed => pure none
  | .eacces => do
      match ← Sys.openFile path true acm with
      | .fd n => pure (some n)
      | _ => pure none

/-! ## Creating a node -/

/-- The descriptor of a file that is created, as the user or else as root. -/
def createAs (path : List UInt8) (create : Bool → UInt32 → FileProg Opened)
    (mode rootMode : UInt32) : FileProg (Option Nat) := do
  match ← create false mode with
  | .fd n => pure (some n)
  | _ => do
      match ← create true rootMode with
      | .fd n => do
          Sys.chown path
          pure (some n)
      | _ => pure none

/-- `mkdir`, as the user or else as root. -/
def mkdirAs (unname : List UInt8) : FileProg Bool := do
  if ← Sys.mkdir unname false 0o777 then pure true
  else if ← Sys.mkdir unname true 0o755 then
    Sys.chown unname
    pure true
  else pure false

/-- `nw_creat_node` for a directory below `path`. -/
def creatDirNode (cfg : FileConfig) (volume : Int) (unname path : List UInt8) (stb : NodeStat) :
    FileProg Int := do
  let noright ← Sys.effRightsExists path volume stb trusteeC
  if noright ≠ 0 then pure (-0x84)
  else
    if ← mkdirAs unname then
      let umodeDir := cfg.umodeDir volume
      if umodeDir ≠ 0 then
        Sys.chmod unname true (if umodeDir = -1 then stb.mode else umodeDir)
        pure 0
      else pure 0
    else pure (-0xff)

/-- The test of the rights by `nw_creat_node` for a file, unless they are ignored. -/
def creatNodeDenied (volume : Int) (unname path : List UInt8) (stb : NodeStat) (mode : UInt32)
    (stbuff : Option NodeStat) : FileProg (Option Int) :=
  if wants mode 8 then pure none
  else
    match stbuff with
    | some stbuff => do
        let dwattrib ← Sys.attribDword unname volume stbuff
        if wants dwattrib fileAttrR then pure (some (-0x94))
        else
          let noright ← Sys.effRightsExists unname volume stbuff trusteeW
          pure (if noright ≠ 0 then some (-0x94) else none)
    | none => do
        let noright ← Sys.effRightsExists path volume stb trusteeC
        pure (if noright ≠ 0 then some (-0x84) else none)

/-- The descriptor of the file that `nw_creat_node` creates. -/
def creatNodeFd (unname : List UInt8) (mode : UInt32) (exist : Bool) : FileProg (Option Nat) :=
  if wants mode 2 || exist && wants mode 8 then
    createAs unname (fun root => Sys.openCreat unname root) 0o666 0o600
  else if exist then pure none
  else createAs unname (fun root => Sys.creat unname root) 0o777 0o751

/-- `nw_creat_node` for a file below `path`. -/
def creatFileNode (cfg : FileConfig) (volume : Int) (unname path : List UInt8) (stb : NodeStat)
    (mode : UInt32) : FileProg Int := do
  let stbuff ← Sys.stat unname true
  match ← creatNodeDenied volume unname path stb mode stbuff with
  | some result => pure result
  | none => do
      match ← creatNodeFd unname mode stbuff.isSome with
      | none => pure (-0xff)
      | some fd => do
          let _ ← Sys.close fd
          if 0 < cfg.umodeFile volume then
            Sys.chmod unname false (cfg.umodeFile volume)
            pure 0
          else pure 0

/-- `nw_creat_node`. -/
def nwCreatNode (cfg : FileConfig) (volume : Int) (unname : List UInt8) (mode : UInt32) :
    FileProg Int :=
  match parentDir unname with
  | none => pure (-0x9c)
  | some dir => do
      let path := if dir = [] then [0x2f, 0x2e] else dir
      match ← Sys.stat path false with
      | none => pure (-0x9c)
      | some stb =>
          if wants mode 1 then creatDirNode cfg volume unname path stb
          else creatFileNode cfg volume unname path stb mode

/-! ## Releasing handles -/

/-- The command of a handle is closed; false when `ext_pclose` fails. -/
def closeCommand (fh : FileHandle) : FileProg Bool :=
  match fh.f with
  | some f => do
      let result ← Sys.extPclose f.fds
      pure (decide (result ≠ -1))
  | none => pure true

/-- The mapping of a handle is removed. -/
def unmapFile (cfg : FileConfig) (fh : FileHandle) : FileProg FileHandle :=
  if cfg.useMmap && fh.pMmap then do
    Sys.munmap fh.fd
    pure { fh with pMmap := false, sizeMmap := 0 }
  else pure fh

/-- A file is closed and its registration removed; false when `close` fails. -/
def closeFile (fh : FileHandle) : FileProg (Bool × FileHandle) :=
  if fh.id.ino ≠ 0 then do
    Sys.shareUnlockAll fh.id fh.fd
    let ok ← Sys.close fh.fd
    let _ ← Sys.shareFile fh.id (fh.access &&& 0xff) .remove
    if fh.modified then
      Sys.setArchiveBit fh.fname fh.id fh.volume
      pure (ok, { fh with modified := false })
    else pure (ok, fh)
  else do
    let ok ← Sys.close fh.fd
    pure (ok, fh)

/-- What closing does to a handle that is open, before its slot is freed. -/
def releaseHandle (cfg : FileConfig) (fh : FileHandle) : FileProg (Bool × FileHandle) :=
  if fh.is fhIsPipeCommand then do
    let ok ← closeCommand fh
    pure (ok, { fh with f := none })
  else do
    let fh ← unmapFile cfg fh
    closeFile fh

/-- The modification time that has been set is written when the handle is closed. -/
def writeTime (fh : FileHandle) (pipe : UInt32) : FileProg FileHandle :=
  if 0 < fh.tmodi ∧ fh.is pipe = false ∧ fh.is fhIsReadonly = false then do
    Sys.utime fh.fname fh.tmodi
    pure { fh with tmodi := 0 }
  else pure fh

/-- `free_file_handle` for an open handle. -/
def releaseOpen (cfg : FileConfig) (fh : FileHandle) : FileProg FileHandle :=
  if -1 < fh.fd then do
    let (_, fh) ← releaseHandle cfg fh
    writeTime fh fhIsPipeCommand
  else pure fh

/-- `free_file_handle`. -/
def freeFileHandle (cfg : FileConfig) (t : FileTable) (fhandle : Int) :
    FileProg (Int × FileTable) :=
  match t.find fhandle with
  | none => pure (-0x88, t)
  | some (i, fh) => do
      let fh ← releaseOpen cfg fh
      pure (0, t.put i { fh with fd := -1 })

/-- One use less, and with `reset_reuse` the slot may be used again. -/
def FileHandle.unuse (fh : FileHandle) (resetReuse : Bool) : FileHandle :=
  { fh with
    fhFlags := if resetReuse then fh.fhFlags &&& ~~~fhDoNotReuse else fh.fhFlags
    inuse := fh.inuse - 1 }

/-- `nw_close_file`. -/
def nwCloseFile (cfg : FileConfig) (t : FileTable) (fhandle : Int) (resetReuse : Bool)
    (task : Int) : FileProg (Int × FileTable) :=
  match t.find fhandle with
  | none => pure (-0x88, t)
  | some (i, fh) =>
      if !resetReuse && fh.task ≠ task && task ≠ 0 && fh.task ≠ 0 then pure (0, t)
      else
        let fh := fh.unuse resetReuse
        if 0 < fh.inuse then pure (0, t.put i fh)
        else if -1 < fh.fd ∨ fh.fd = -3 ∧ fh.is fhIsPipeCommand = true then do
          let (ok, fh) ← releaseHandle cfg fh
          let fh ← writeTime { fh with fd := -1 } fhIsPipe
          let (result, t) ← freeFileHandle cfg (t.put i fh) fhandle
          pure (if ok then result else -0xff, t)
        else freeFileHandle cfg (t.put i fh) fhandle

/-- The loop of `init_file_module` over the handles of a task. -/
def freeTaskFiles (cfg : FileConfig) (task : Int) : Nat → FileTable → FileProg FileTable
  | 0, t => pure t
  | n + 1, t => do
      let t ← freeTaskFiles cfg task n t
      match t.at? n with
      | some fh =>
          if task < 0 ∨ fh.task = task ∧ -1 < fh.fd then do
            let (_, t) ← freeFileHandle cfg t (n + 1)
            pure t
          else pure t
      | none => pure t

/-- `init_file_module`: a negative task stands for all. -/
def initFileModule (cfg : FileConfig) (t : FileTable) (task : Int) : FileProg FileTable := do
  let t ← freeTaskFiles cfg task t.handles.length t
  pure (if task < 0 then ⟨[], 0, t.handles ++ t.above⟩ else t)

/-! ## Opening -/

/-- The tests of `file_creat_open` for a file that exists, as far as the rights and
attributes decide: the completion code, and whether the handle is for writing. -/
def existingTests (cfg : FileConfig) (isPipe : Bool) (stb : NodeStat) (creatmode : UInt32)
    (dowrite : Bool) (effRights : Rights) (dwattrib : UInt32) : Int × Bool :=
  let noWrite := wants dwattrib fileAttrR || !allows effRights trusteeW
  if wants creatmode 2 then
    if stb.kind = .fifo || isPipe then (if noWrite then -0x94 else 0, dowrite) else (-0x85, dowrite)
  else if wants creatmode 1 then
    if wants creatmode 8 then (0, dowrite)
    else if noWrite then (-0x86, dowrite)
    else (if allows effRights trusteeC then 0 else -0x84, dowrite)
  else if dowrite then
    if !wants creatmode 8 && noWrite then
      -- the compatibility mode opens a readable file for reading instead
      if wants cfg.entry8Flags 2 && allows effRights trusteeR then (0, false) else (-0x94, true)
    else (0, true)
  else (if wants creatmode 8 || allows effRights trusteeR then 0 else -0x93, false)

/-- The tests of `file_creat_open` for a file that exists. -/
def testExisting (cfg : FileConfig) (volume : Int) (unixname : List UInt8) (stb : NodeStat)
    (access creatmode : UInt32) (dowrite : Bool) : FileProg (Int × Bool) :=
  let isPipe := wants (cfg.volumeOptions volume) volOptionIsPipe
  if stb.kind = .dir then pure (-0xff, dowrite)
  else do
    let effRights ← Sys.effRights unixname volume stb
    let dwattrib ← Sys.attribDword unixname volume stb
    let (completition, dowrite) :=
      existingTests cfg isPipe stb creatmode dowrite effRights dwattrib
    if completition = 0 ∧ dowrite = true ∧ stb.kind ≠ .fifo ∧ isPipe = false then
      let result ← Sys.shareFile stb.id (access &&& 0xff) .test
      pure (if result = -1 then -0x80 else 0, dowrite)
    else pure (completition, dowrite)

/-- The tests of `file_creat_open` for a file that does not exist: the completion
code and `stbuff` of the directory above. -/
def testNew (cfg : FileConfig) (volume : Int) (unixname : List UInt8) (creatmode : UInt32) :
    FileProg (Int × Option NodeStat) :=
  if wants (cfg.volumeOptions volume) volOptionIsPipe then pure (-0xff, none)
  else if wants creatmode 3 then
    match parentDir unixname with
    | none => pure (-0x9c, none)
    | some dir =>
        if cfg.volumeUnixnamlen volume ≤ dir.length + 1 then do
          match ← Sys.stat dir true with
          | none => pure (-0x9c, none)
          | some stb => do
              let effRights ← Sys.effRights dir volume stb
              let _ ← Sys.attribDword dir volume stb
              pure (if wants creatmode 8 || allows effRights trusteeC then 0 else -0x84, some stb)
        else pure (-0x9c, none)
  else pure (-0xff, none)

/-- `stbuff` after an open that changes the file. -/
def statAgain (path : List UInt8) (changed : Bool) (stb : NodeStat) : FileProg NodeStat :=
  if changed then do
    match ← Sys.stat path true with
    | some stb' => pure stb'
    | none => pure stb
  else pure stb

/-- `open` of a file that exists, with `stbuff` after it. -/
def openExisting (cfg : FileConfig) (fh : FileHandle) (stb : NodeStat) (creatmode : UInt32)
    (dowrite : Bool) : FileProg (Int × FileHandle × NodeStat) :=
  let voloptions := cfg.volumeOptions fh.volume
  if stb.kind = .fifo then do
    let fd ← openWithRootAccess fh.fname ⟨if dowrite then .wronly else .rdonly, false, true⟩
    pure (if fd.isSome then 0 else -0x9c,
      { fh with fhFlags := fh.fhFlags ||| fhIsPipe, fd := resultOf fd },
      stb)
  else if wants voloptions volOptionIsPipe then do
    let mtime := (← Sys.time) + 1000
    pure (0, { fh with fhFlags := fh.fhFlags ||| fhIsPipe ||| fhIsPipeCommand, fd := -3 },
      { stb with mtime, atime := mtime, size := 0x70000000 + mtime % 0x10000000 })
  else
    let trunc := dowrite && wants creatmode 3
    let access := if wants voloptions volOptionReadonly then .rdonly else .rdwr
    do
      match ← openWithRootAccess fh.fname ⟨access, trunc, false⟩ with
      | none => pure (-0x9c, { fh with fd := -1 }, stb)
      | some n => do
          let stb ← statAgain fh.fname trunc stb
          pure (0, { fh with fd := n }, stb)

/-- `open` of a file that is created. -/
def openNew (cfg : FileConfig) (fh : FileHandle) (stb : NodeStat) :
    FileProg (Int × FileHandle × NodeStat) := do
  let result ← nwCreatNode cfg fh.volume fh.fname 0xa
  if result ≠ 0 then pure (-0x9c, fh, stb)
  else
    match ← openWithRootAccess fh.fname ⟨.rdwr, false, false⟩ with
    | none => pure (-0x9c, { fh with fd := -1, offd := 0 }, stb)
    | some n => do
        let stb ← statAgain fh.fname true stb
        pure (0, { fh with fd := n, offd := 0 }, stb)

/-- A file that is only read is mapped. -/
def mapFile (cfg : FileConfig) (fh : FileHandle) (dowrite : Bool) : FileProg FileHandle :=
  if cfg.useMmap ∧ -1 < fh.fd ∧ dowrite = false then do
    let r ← Sys.lseek fh.fd .atEnd
    let fh := { fh with offd := resultOf r, sizeMmap := Int32.ofInt (resultOf r) }
    if 0 < fh.sizeMmap then
      if ← Sys.mmap fh.fd fh.sizeMmap then pure { fh with pMmap := true }
      else pure { fh with pMmap := false, sizeMmap := 0 }
    else pure fh
  else pure fh

/-- Registering an open file that is not a pipe. -/
def registerFile (cfg : FileConfig) (fh : FileHandle) (stb : NodeStat) (access : UInt32)
    (dowrite : Bool) : FileProg (Int × FileHandle) :=
  if fh.is fhIsPipe then pure (0, fh)
  else do
    let fh := { fh with id := stb.id }
    let result ← Sys.shareFile stb.id (access &&& 0xff) .add
    if result = -1 then
      let _ ← Sys.close fh.fd
      pure (-0x80, { fh with fd := -1 })
    else do
      let fh ← mapFile cfg fh dowrite
      pure (0, fh)

/-- The flags of a handle that has been opened. -/
def openedFlags (cfg : FileConfig) (fh : FileHandle) (creatmode : UInt32) (dowrite : Bool) :
    UInt32 :=
  let readonly := wants (cfg.volumeOptions fh.volume) volOptionReadonly
  fh.fhFlags ||| (if dowrite then 0 else fhOpenedRo) ||| (if readonly then fhIsReadonly else 0) |||
    (if wants creatmode 4 then fhDoNotReuse else 0)

/-- A request of `file_creat_open`. -/
structure OpenRequest where
  volume : Int
  unixname : List UInt8
  access : UInt32
  creatmode : UInt32
  task : Int

/-- `access` with its default. -/
def OpenRequest.access' (e : OpenRequest) : UInt32 :=
  if wants e.access 3 then e.access else e.access ||| 3

/-- `dowrite` before the tests. -/
def OpenRequest.dowrite (e : OpenRequest) : Bool := wants e.access' 2 || wants e.creatmode 3

/-- `stat`, and as root if the user may not. -/
def statAsRoot (path : List UInt8) : FileProg (Option NodeStat) := do
  match ← Sys.stat path false with
  | some stb => pure (some stb)
  | none => Sys.stat path true

/-- The answer to an open: a handle or a negative error code, and `stbuff`. -/
abbrev OpenAnswer := Int × Option NodeStat

/-- `file_creat_open` after the tests. -/
def openTested (cfg : FileConfig) (t : FileTable) (e : OpenRequest) (exist : Bool)
    (stb : NodeStat) (dowrite : Bool) : FileProg (OpenAnswer × FileTable) :=
  match newFileHandle cfg t e.volume e.unixname e.task with
  | none => pure ((-0x81, some stb), { t with last := 1 })
  | some (i, fh, t) => do
      let (completition, fh, stb) ←
        (if exist then openExisting cfg fh stb e.creatmode dowrite else openNew cfg fh stb)
      let (completition, fh) ←
        (if completition = 0 then registerFile cfg fh stb e.access' dowrite
        else pure (completition, fh))
      if completition = 0 then
        pure ((i + 1, some stb), t.put i { fh with
          access := e.access', inuse := fh.inuse + 1
          fhFlags := openedFlags cfg fh e.creatmode dowrite })
      else do
        let (_, t) ← freeFileHandle cfg (t.put i fh) (i + 1)
        pure ((completition, some stb), t)

/-- `file_creat_open`. -/
def fileCreatOpen (cfg : FileConfig) (t : FileTable) (e : OpenRequest) :
    FileProg (OpenAnswer × FileTable) := do
  match ← statAsRoot e.unixname with
  | some stb => do
      let (completition, dowrite) ←
        testExisting cfg e.volume e.unixname stb e.access' e.creatmode e.dowrite
      if completition = 0 then openTested cfg t e true stb dowrite
      else pure ((completition, some stb), t)
  | none => do
      let (completition, stb) ← testNew cfg e.volume e.unixname e.creatmode
      match stb with
      | some stb =>
          if completition = 0 then openTested cfg t e false stb e.dowrite
          else pure ((completition, some stb), t)
      | none => pure ((completition, none), t)

end MarsNwe
