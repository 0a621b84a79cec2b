import MarsNwe.Lib.Calls
import MarsNwe.Share.ShareFile
import MarsNwe.Trustee.Nodes

/-! # File handles

The handles of a connection, and the system calls and calls of other modules that
the routines for them make.
-/

namespace MarsNwe

/-! ## Calls -/

/-- A directory, a named pipe or another file. -/
inductive NodeKind where
  | dir
  | fifo
  | file
deriving DecidableEq

/-- What the file routines use of `struct stat`. -/
structure NodeStat where
  kind : NodeKind
  id : FileId
  mode : Int
  size : Int
  mtime : Int
  atime : Int
deriving DecidableEq

/-- The access bits of `open`. -/
inductive OpenAccess where
  | rdonly
  | wronly
  | rdwr
deriving DecidableEq

/-- The flags of `open` for a file that exists. -/
structure OpenFlags where
  access : OpenAccess
  /-- `O_TRUNC` -/
  trunc : Bool
  /-- `O_NONBLOCK` -/
  nonblock : Bool
deriving DecidableEq

/-- `whence` of `lseek`, with the offset. -/
inductive SeekTo where
  | set (offset : Nat)
  | atEnd
deriving DecidableEq

/-- The most bytes that one `read` or `write` transfers. -/
def maxTransfer : Nat := 0x7ffff000

/-- The calls of the file routines. Those with `root` are made as root or as the user. -/
inductive FileCall where
  | stat (path : List UInt8) (root : Bool)
  | effRights (volume : Int) (path : List UInt8) (stb : NodeStat)
  | effRightsExists (volume : Int) (path : List UInt8) (stb : NodeStat) (lookfor : Rights)
  | attribDword (volume : Int) (path : List UInt8) (stb : NodeStat)
  | shareFile (id : FileId) (mode : UInt32) (action : ShareAction)
  | shareUnlockAll (id : FileId) (fd : Int)
  | setArchiveBit (volume : Int) (path : List UInt8) (id : FileId)
  | open (path : List UInt8) (acm : OpenFlags) (root : Bool)
  /-- `open` with `O_CREAT|O_TRUNC|O_RDWR`. -/
  | openCreat (path : List UInt8) (mode : UInt32) (root : Bool)
  | creat (path : List UInt8) (mode : UInt32) (root : Bool)
  | mkdir (path : List UInt8) (mode : UInt32) (root : Bool)
  | chown (path : List UInt8)
  | chmod (path : List UInt8) (mode : Int) (root : Bool)
  | utime (path : List UInt8) (time : Int)
  | close (fd : Int)
  | lseek (fd : Int) (dest : SeekTo)
  | read (fd : Int) (count : Nat)
  | write (fd : Int) (data : List UInt8) (count : Nat)
  | ftruncate (fd : Int) (size : UInt32)
  /-- `F_GETLK` -/
  | getlk (fd : Int) (kind : LockKind) (start : UInt32) (len : Int32)
  | mmap (fd : Int) (size : Int32)
  | munmap (fd : Int)
  /-- Copying from a mapped file. -/
  | memcpy (fd : Int) (offset : UInt32) (count : Nat)
  | extPopen (path : List UInt8) (dowrite : Bool)
  | extPclose (fds : Nat × Nat × Nat)
  | select (fd : Int)
  | time

/-- The number that a call returns: -1 when it fails. -/
def resultOf : Option Nat → Int
  | some n => n
  | none => -1

/-- How `open` ends. -/
inductive Opened where
  | fd (n : Nat)
  | eacces
  | failed
deriving DecidableEq

/-- What a transfer returns: -1, or how many bytes of those asked for. -/
abbrev Transferred (count : Nat) := Option { n : Nat // n ≤ min count maxTransfer }

/-- What `read` returns: -1, or the bytes. -/
abbrev BytesRead (count : Nat) := Option { l : List UInt8 // l.length ≤ min count maxTransfer }

/-- The answers to the calls. A `Bool` says that the call succeeds. -/
@[reducible] def FileCall.Answer : FileCall → Type
  | .stat .. => Option NodeStat
  | .effRights .. => Rights
  | .attribDword .. => UInt32
  | .effRightsExists .. | .shareFile .. => Int
  | .open .. | .openCreat .. | .creat .. => Opened
  | .mkdir .. | .close .. | .ftruncate .. | .mmap .. => Bool
  | .lseek .. => Option Nat
  | .read _ count => BytesRead count
  | .write _ _ count => Transferred count
  | .getlk .. => Option LockKind
  | .memcpy .. => List UInt8
  | .extPopen .. => Option (Nat × Nat × Nat)
  | .extPclose .. | .select .. | .time => Int
  | .shareUnlockAll .. | .setArchiveBit .. | .chown .. | .chmod .. | .utime .. | .munmap .. => Unit

abbrev FileProg := Prog FileCall FileCall.Answer

namespace Sys

/-- A single call. -/
abbrev sys (c : FileCall) : FileProg c.Answer := Prog.ask c

variable (path : List UInt8) (root : Bool) (id : FileId) (fd : Int)

abbrev stat : FileProg (Option NodeStat) := sys (.stat path root)

abbrev effRights (volume : Int) (stb : NodeStat) : FileProg Rights :=
  sys (.effRights volume path stb)

abbrev effRightsExists (volume : Int) (stb : NodeStat) (lookfor : Rights) : FileProg Int :=
  sys (.effRightsExists volume path stb lookfor)

abbrev attribDword (volume : Int) (stb : NodeStat) : FileProg UInt32 :=
  sys (.attribDword volume path stb)

abbrev shareFile (mode : UInt32) (action : ShareAction) : FileProg Int :=
  sys (.shareFile id mode action)

abbrev shareUnlockAll : FileProg Unit := sys (.shareUnlockAll id fd)

abbrev setArchiveBit (volume : Int) : FileProg Unit := sys (.setArchiveBit volume path id)

abbrev openFile (acm : OpenFlags) : FileProg Opened := sys (.open path acm root)

abbrev openCreat (mode : UInt32) : FileProg Opened := sys (.openCreat path mode root)

abbrev creat (mode : UInt32) : FileProg Opened := sys (.creat path mode root)

abbrev mkdir (mode : UInt32) : FileProg Bool := sys (.mkdir path mode root)

abbrev chown : FileProg Unit := sys (.chown path)

abbrev chmod (mode : Int) : FileProg Unit := sys (.chmod path mode root)

abbrev utime (time : Int) : FileProg Unit := sys (.utime path time)

abbrev close : FileProg Bool := sys (.close fd)

abbrev lseek (dest : SeekTo) : FileProg (Option Nat) := sys (.lseek fd dest)

abbrev read (count : Nat) : FileProg (BytesRead count) := sys (.read fd count)

abbrev write (data : List UInt8) (count : Nat) : FileProg (Transferred count) :=
  sys (.write fd data count)

abbrev ftruncate (size : UInt32) : FileProg Bool := sys (.ftruncate fd size)

abbrev getlk (kind : LockKind) (start : UInt32) (len : Int32) : FileProg (Option LockKind) :=
  sys (.getlk fd kind start len)

abbrev mmap (size : Int32) : FileProg Bool := sys (.mmap fd size)

abbrev munmap : FileProg Unit := sys (.munmap fd)

abbrev memcpy (offset : UInt32) (count : Nat) : FileProg (List UInt8) :=
  sys (.memcpy fd offset count)

abbrev extPopen (dowrite : Bool) : FileProg (Option (Nat × Nat × Nat)) :=
  sys (.extPopen path dowrite)

abbrev extPclose (fds : Nat × Nat × Nat) : FileProg Int := sys (.extPclose fds)

abbrev select : FileProg Int := sys (.select fd)

abbrev time : FileProg Int := sys .time

end Sys

/-! ## Flags -/

theorem wants_or (a b bits : UInt32) : wants (a ||| b) bits = (wants a bits || wants b bits) := by
  have hdistrib : (a ||| b) &&& bits = a &&& bits ||| b &&& bits := by
    simp only [← UInt32.toBitVec_inj, UInt32.toBitVec_and, UInt32.toBitVec_or]
    grind
  rw [wants, hdistrib, Bool.eq_iff_iff]
  simp only [wants, bne_iff_ne, Bool.or_eq_true, ne_eq, UInt32.or_eq_zero_iff]
  exact Classical.not_and_iff_not_or_not

theorem wants_and (a b bits : UInt32) : wants (a &&& b) bits = wants a (b &&& bits) := by
  rw [wants, wants, UInt32.and_assoc]

/-! ## Handles -/

/-- `FILE_PIPE`: `fds` are the descriptors to 0, 1 and 2 of the command. -/
structure FilePipe where
  fds : Nat × Nat × Nat
  flags : UInt32
deriving DecidableEq

/-- `FILE_HANDLE`. -/
structure FileHandle where
  task : Int
  fd : Int
  offd : Int
  /-- `p_mmap` is not `NULL`. -/
  pMmap : Bool
  sizeMmap : Int32
  tmodi : Int
  modified : Bool
  f : Option FilePipe
  fhFlags : UInt32
  /-- `st_dev` and `st_ino`; `st_ino` is 0 for none. -/
  id : FileId
  fname : List UInt8
  volume : Int
  inuse : Int
  access : UInt32
deriving DecidableEq

def fhIsPipe : UInt32 := 0x01
def fhIsPipeCommand : UInt32 := 0x02
def fhDoNotReuse : UInt32 := 0x04
def fhIsReadonly : UInt32 := 0x20
def fhOpenedRo : UInt32 := 0x40

/-- `fh_flags` has a bit. -/
def FileHandle.is (fh : FileHandle) (flag : UInt32) : Bool := wants fh.fhFlags flag

/-- `file_handles` up to `count_fhandles`, `last_fhandle`, and the slots above
`count_fhandles` as far as they have been used before. -/
structure FileTable where
  handles : List FileHandle
  last : Nat
  above : List FileHandle

/-- What the file routines depend on besides. -/
structure FileConfig where
  /-- `MAX_FILE_HANDLES_CONN` -/
  maxHandles : Nat
  entry8Flags : UInt32
  useMmap : Bool
  /-- `get_volume_options` -/
  volumeOptions : Int → UInt32
  /-- `get_volume_unixnamlen` -/
  volumeUnixnamlen : Int → Nat
  /-- `get_volume_umode_file` and `get_volume_umode_dir` -/
  umodeFile : Int → Int
  umodeDir : Int → Int

def volOptionIsPipe : UInt32 := 0x0002
def volOptionReadonly : UInt32 := 0x0020

/-- An empty slot. -/
def FileHandle.free (fh : FileHandle) : Bool := fh.fd == -1 && !fh.is fhDoNotReuse

/-- The first empty slot from an index on, with what is left in it. -/
def FileTable.freeFrom (t : FileTable) (start : Nat) : Option (Nat × FileHandle) :=
  (t.handles.zipIdx.drop start).find? (·.1.free) |>.map Prod.swap

/-- A handle as `new_file_handle` leaves it; the mapping is not touched. -/
def FileHandle.init (volume : Int) (unixname : List UInt8) (task : Int) (fh : FileHandle) :
    FileHandle :=
  { fh with
    task, fd := -2, offd := 0, tmodi := 0, modified := false, id := ⟨fh.id.dev, 0⟩, access := 0
    inuse := 0, fname := unixname, fhFlags := 0, f := none, volume }

/-- A slot that has never been used. -/
def FileHandle.zero : FileHandle :=
  ⟨0, 0, 0, false, 0, 0, false, none, 0, ⟨0, 0⟩, [], 0, 0, 0⟩

/-- `new_file_handle`: the index of the slot, one less than the handle, and what is in it.
A slot above `count_fhandles` is taken without a look at it. -/
def newFileHandle (cfg : FileConfig) (t : FileTable) (volume : Int) (unixname : List UInt8)
    (task : Int) : Option (Nat × FileHandle × FileTable) :=
  let init := FileHandle.init volume unixname task
  let reuse (last : Nat) (slot : Nat × FileHandle) : Nat × FileHandle × FileTable :=
    (slot.1, init slot.2, ⟨t.handles.set slot.1 (init slot.2), last, t.above⟩)
  match t.freeFrom t.last with
  | some slot => some (reuse (t.last + 1) slot)
  | none =>
      if t.handles.length < cfg.maxHandles then
        let fh := init (t.above.headD .zero)
        some (t.handles.length, fh, ⟨t.handles ++ [fh], t.last + 1, t.above.tail⟩)
      else (t.freeFrom 0).map (reuse 1)

/-- The handle at an index. -/
def FileTable.at? (t : FileTable) (i : Nat) : Option FileHandle := t.handles[i]?

def FileTable.put (t : FileTable) (i : Nat) (fh : FileHandle) : FileTable :=
  { t with handles := t.handles.set i fh }

/-- The handle that a client names, with its index. -/
def FileTable.find (t : FileTable) (fhandle : Int) : Option (Nat × FileHandle) :=
  if 0 < fhandle then (t.at? (fhandle - 1).toNat).map ((fhandle - 1).toNat, ·) else none

theorem FileTable.find_eq_some {t : FileTable} {fhandle : Int} {i : Nat} {fh : FileHandle}
    (h : t.find fhandle = some (i, fh)) : fhandle = i + 1 ∧ t.handles[i]? = some fh := by
  unfold FileTable.find at h
  split at h
  next hpos =>
    obtain ⟨fh', hget, heq⟩ := Option.map_eq_some_iff.mp h
    obtain ⟨rfl, rfl⟩ := Prod.mk.inj heq
    exact ⟨by omega, hget⟩
  next => contradiction

@[simp] theorem FileTable.find_succ (t : FileTable) (i : Nat) :
    t.find (i + 1) = t.handles[i]?.map (i, ·) := by
  unfold FileTable.find
  rw [if_pos (by omega), Int.add_sub_cancel]
  rfl

theorem FileTable.freeFrom_eq_some {t : FileTable} {start i : Nat} {fh : FileHandle}
    (h : t.freeFrom start = some (i, fh)) : t.handles[i]? = some fh ∧ fh.free = true := by
  obtain ⟨⟨fh', i'⟩, hfind, heq⟩ := Option.map_eq_some_iff.mp h
  obtain ⟨rfl, rfl⟩ := Prod.mk.inj heq
  have hmem := List.mem_of_mem_drop (List.mem_of_find?_eq_some hfind)
  have hfree : fh'.free = true := by simpa using List.find?_some hfind
  exact ⟨List.mk_mem_zipIdx_iff_getElem?.mp hmem, hfree⟩

/-- A new handle takes the place of an empty slot, or it is put at the end. -/
theorem newFileHandle_eq_some {cfg : FileConfig} {t t' : FileTable} {volume task : Int}
    {unixname : List UInt8} {i : Nat} {fh : FileHandle}
    (h : newFileHandle cfg t volume unixname task = some (i, fh, t')) :
    ∃ old, fh = old.init volume unixname task ∧
      ((t.handles[i]? = some old ∧ old.free = true ∧ t'.handles = t.handles.set i fh) ∨
        (old = t.above.headD .zero ∧ i = t.handles.length ∧ i < cfg.maxHandles ∧
          t'.handles = t.handles ++ [fh])) := by
  unfold newFileHandle at h
  dsimp only at h
  split at h
  next slot hslot =>
    obtain ⟨rfl, rfl, rfl⟩ := h
    have hfree := FileTable.freeFrom_eq_some hslot
    exact ⟨slot.2, rfl, .inl ⟨hfree.1, hfree.2, rfl⟩⟩
  next =>
    split at h
    next hroom =>
      obtain ⟨rfl, rfl, rfl⟩ := h
      exact ⟨_, rfl, .inr ⟨rfl, rfl, hroom, rfl⟩⟩
    next =>
      obtain ⟨slot, hslot, heq⟩ := Option.map_eq_some_iff.mp h
      obtain ⟨rfl, rfl, rfl⟩ := heq
      have hfree := FileTable.freeFrom_eq_some hslot
      exact ⟨slot.2, rfl, .inl ⟨hfree.1, hfree.2, rfl⟩⟩

end MarsNwe
