import Mathlib.Algebra.Ring.Int.Defs
import MarsNwe.File.Handles

/-! # Reading and writing through handles

The routines that move data through a handle. They remember in `offd` where the
descriptor stands and seek only when a request starts somewhere else.
-/

namespace MarsNwe

open Prog

/-- A size as the `size_t` that it becomes. -/
def sizeT (size : Int32) : Nat := (size.toInt % 2 ^ 64).toNat

/-! ## Steps of the routines -/

/-- The command of a handle, which is started once. -/
def pipeCommand (fh : FileHandle) (dowrite : Bool) : FileProg (Option FilePipe) :=
  match fh.f with
  | some f => pure (some f)
  | none => do
      let fds ← Sys.extPopen fh.fname dowrite
      pure (fds.map (⟨·, 0⟩))

/-- `open_pipe_command`: the end of the command for reading or writing becomes the
descriptor. -/
def openPipeCommand (fh : FileHandle) (dowrite : Bool) : FileProg FileHandle := do
  let f ← pipeCommand fh dowrite
  pure { fh with
    f
    fd := match f with
      | some f => if dowrite then f.fds.1 else f.fds.2.1
      | none => -3 }

/-- A handle of a pipe volume starts its command before a transfer. -/
def startPipe (fh : FileHandle) (dowrite : Bool) : FileProg FileHandle :=
  if fh.is fhIsPipeCommand then openPipeCommand fh dowrite else pure fh

/-- The seek that is skipped when the descriptor is thought to stand there. -/
def seekOffset (fh : FileHandle) (offset : UInt32) : FileProg FileHandle :=
  if fh.offd ≠ offset.toNat then do
    let r ← Sys.lseek fh.fd (.set offset.toNat)
    pure { fh with offd := resultOf r }
  else pure fh

/-- `rw_lck`: no lock of another process is in the way, or this is not looked at. -/
def rwLck (cfg : FileConfig) (fh : FileHandle) (kind : LockKind) (offset : UInt32)
    (size : Int32) : FileProg Bool :=
  if wants cfg.entry8Flags 0x100 then pure true
  else do
    let found ← Sys.getlk fh.fd kind offset size
    pure (match kind with
      | .read => found ≠ some .write
      | .write => found = none)

/-- What a transfer returns, the data it delivers and the handle after it. -/
abbrev ReadResult := Int × List UInt8 × FileHandle

/-- What is read from a pipe, once `select` says whether there is anything. -/
def readReady (fh : FileHandle) (size : Int32) (ready : Int) : FileProg (Int × List UInt8) :=
  if 0 < ready then do
    match ← Sys.read fh.fd (sizeT size) with
    | some l => pure (l.1.length, l.1)
    | none => pure (0, [])
  else pure (if ready = -1 then 0 else ready, [])

/-- The end of a command is told once as an empty read, then as an error. -/
def pipeEnd (fh : FileHandle) (size : Int) (data : List UInt8) : ReadResult :=
  if fh.is fhIsPipeCommand && size == 0 then
    match fh.f with
    | some f =>
        if wants f.flags 1 then (-0x57, [], fh)
        else (size, data, { fh with f := some { f with flags := f.flags ||| 1 } })
    | none => (size, data, fh)
  else (size, data, fh)

/-- `nw_read_file` from a pipe. -/
def readPipe (fh : FileHandle) (size : Int32) : FileProg ReadResult := do
  let ready ← Sys.select fh.fd
  let (size, data) ← readReady fh size ready
  pure (pipeEnd fh size data)

/-- The size of a copy that ends at the end of the mapping. -/
def mappedSize (fh : FileHandle) (offset : UInt32) (size : Int32) : Int32 :=
  if size.toUInt32 + offset > fh.sizeMmap.toUInt32 then (fh.sizeMmap.toUInt32 - offset).toInt32
  else size

/-- The loop of `nw_read_file` over a mapped file. `sigbus` says how many times in
a row the copy meets the end of the file; each time its size is looked up again. -/
def copyMapped (offset : UInt32) : (sigbus : Nat) → FileHandle → Int32 → FileProg ReadResult
  | 0, fh, size =>
      if offset < fh.sizeMmap.toUInt32 then do
        let data ← Sys.memcpy fh.fd offset (sizeT (mappedSize fh offset size))
        pure ((mappedSize fh offset size).toInt, data, fh)
      else pure (-1, [], fh)
  | sigbus + 1, fh, size =>
      if offset < fh.sizeMmap.toUInt32 then do
        let _ ← Sys.memcpy fh.fd offset (sizeT (mappedSize fh offset size))
        let r ← Sys.lseek fh.fd .atEnd
        copyMapped offset sigbus { fh with sizeMmap := Int32.ofInt (resultOf r) }
          (mappedSize fh offset size)
      else pure (-1, [], fh)

/-- `nw_read_file` from a mapped file. -/
def readMapped (cfg : FileConfig) (fh : FileHandle) (size : Int32) (offset : UInt32)
    (sigbus : Nat) : FileProg ReadResult := do
  if ← rwLck cfg fh .read offset size then copyMapped offset sigbus fh size
  else pure (-0xa2, [], fh)

/-- `nw_read_file` from a file. -/
def readPlain (cfg : FileConfig) (fh : FileHandle) (size : Int32) (offset : UInt32) :
    FileProg ReadResult := do
  let fh ← seekOffset fh offset
  if -1 < fh.offd then
    if ← rwLck cfg fh .write offset size then
      let r ← Sys.read fh.fd (sizeT size)
      match r with
      | some l => pure (l.1.length, l.1, { fh with offd := fh.offd + l.1.length })
      | none => pure (-1, [], fh)
    else pure (-0xa2, [], fh)
  else pure (-1, [], fh)

/-! ## The routines -/

/-- `nw_read_file` from an open descriptor. -/
def readOpen (cfg : FileConfig) (fh : FileHandle) (size : Int32) (offset : UInt32)
    (sigbus : Nat) : FileProg ReadResult :=
  if fh.is fhIsPipe then readPipe fh size
  else if cfg.useMmap && fh.pMmap then readMapped cfg fh size offset sigbus
  else readPlain cfg fh size offset

/-- `nw_read_file`: the result, and the data that the client gets. -/
def nwReadFile (cfg : FileConfig) (t : FileTable) (fhandle : Int) (size : Int32)
    (offset : UInt32) (sigbus : Nat) : FileProg ((Int × List UInt8) × FileTable) :=
  match t.find fhandle with
  | none => pure ((-0x88, []), t)
  | some (i, fh) => do
      let fh ← startPipe fh false
      if -1 < fh.fd then
        let (result, data, fh) ← readOpen cfg fh size offset sigbus
        pure ((if result = -1 then 0 else result, data), t.put i fh)
      else pure ((if fh.fd = -3 then 0 else -0x88, []), t.put i fh)

/-- `nw_seek_file`; the size that a pipe shows is taken from `rand`. -/
def nwSeekFile (t : FileTable) (fhandle : Int) (modus : Int) (rand : UInt16) :
    FileProg (Int × FileTable) :=
  match t.find fhandle with
  | none => pure (-0x88, t)
  | some (i, fh) =>
      if -1 < fh.fd then
        if fh.is fhIsPipe then pure (0x7fff0000 + rand.toNat, t)
        else if modus = 0 then do
          let r ← Sys.lseek fh.fd .atEnd
          let size := Int32.ofInt (resultOf r)
          pure (if size < 0 then -1 else size.toInt, t.put i { fh with offd := resultOf r })
        else pure (-0xfb, t)
      else pure (if fh.fd = -3 then 0x7fff0000 + rand.toNat else -0x88, t)

/-- `nw_write_file` to a file. -/
def writePlain (cfg : FileConfig) (fh : FileHandle) (data : List UInt8) (size : Int32)
    (offset : UInt32) : FileProg (Int × FileHandle) := do
  let fh ← seekOffset fh offset
  if size ≠ 0 then
    if -1 < fh.offd then
      if ← rwLck cfg fh .write offset size then
        let r ← Sys.write fh.fd data (sizeT size)
        let written := resultOf (r.map (·.1))
        pure (written, { fh with offd := fh.offd + written, modified := true })
      else pure (-0xa2, fh)
    else pure (-1, fh)
  else do
    let ok ← Sys.ftruncate fh.fd offset
    pure (if ok then 0 else -1, { fh with offd := -1, modified := true })

/-- `nw_write_file` to a pipe. -/
def writePipe (fh : FileHandle) (data : List UInt8) (size : Int32) : FileProg Int :=
  if size ≠ 0 then do
    let r ← Sys.write fh.fd data (sizeT size)
    pure (resultOf (r.map (·.1)))
  else pure 0

/-- `nw_write_file`. -/
def nwWriteFile (cfg : FileConfig) (t : FileTable) (fhandle : Int) (data : List UInt8)
    (size : Int32) (offset : UInt32) : FileProg (Int × FileTable) :=
  match t.find fhandle with
  | none => pure (-0x88, t)
  | some (i, fh) => do
      let fh ← startPipe fh true
      if -1 < fh.fd then
        if fh.is fhOpenedRo then pure (-0x94, t.put i fh)
        else if fh.is fhIsPipe then
          let result ← writePipe fh data size
          pure (result, t.put i fh)
        else
          let (result, fh) ← writePlain cfg fh data size offset
          pure (result, t.put i fh)
      else pure (if fh.fd = -3 then 0 else -0x88, t.put i fh)

/-- The loop of `nw_server_copy`: `retsize` is what has been copied. -/
def copyLoop (qfd zfd : Int) (size : Nat) (retsize : Int32) : FileProg Int :=
  if size = 0 then pure retsize.toInt
  else do
    match ← Sys.read qfd (min size 4096) with
    | none => pure (-0x93)
    | some buff =>
        if hpos : buff.1.length = 0 then pure retsize.toInt
        else
          let w ← Sys.write zfd buff.1 buff.1.length
          if w.map (·.1) = some buff.1.length then
            copyLoop qfd zfd (size - buff.1.length) (retsize + Int32.ofNat buff.1.length)
          else pure (-1)
termination_by size

/-- Both files of a copy are sought. -/
def seekBoth (qfd : Int) (qoffset : UInt32) (zfd : Int) (zoffset : UInt32) : FileProg Bool := do
  match ← Sys.lseek qfd (.set qoffset.toNat) with
  | none => pure false
  | some _ => do
      let atz ← Sys.lseek zfd (.set zoffset.toNat)
      pure atz.isSome

/-- `nw_server_copy`. -/
def nwServerCopy (t : FileTable) (qfhandle : Int) (qoffset : UInt32) (zfhandle : Int)
    (zoffset : UInt32) (size : UInt32) : FileProg (Int × FileTable) :=
  match t.find qfhandle, t.find zfhandle with
  | some (q, fhq), some (z, fhz) =>
      if -1 < fhq.fd ∧ -1 < fhz.fd then
        if fhz.is fhOpenedRo then pure (-0x94, t)
        else do
          let sought ← seekBoth fhq.fd qoffset fhz.fd zoffset
          let retsize ← (if sought then copyLoop fhq.fd fhz.fd size.toNat 0 else pure (-1))
          let copied (fh : FileHandle) : FileHandle :=
            { fh with modified := fh.modified || sought && size != 0 }
          let unknown (fh : FileHandle) : FileHandle := { fh with offd := -1 }
          pure (retsize, { t with
            handles := ((t.handles.modify z copied).modify q unknown).modify z unknown })
      else pure (-0x88, t)
  | _, _ => pure (-0x88, t)

end MarsNwe
