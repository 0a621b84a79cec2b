import Mathlib.Algebra.Ring.Nat
import Mathlib.Logic.Relation
import MarsNwe.File.CreatOpen
import MarsNwe.Lib.Window

/-! # Reading from a mapping

A file that is opened for reading is mapped as long as it is then. A read from the
mapping and a read with `read` are told apart by what other processes do to the file
later on, and by the locks they hold on it.
-/

namespace MarsNwe

open Prog Window RecordLock

/-! ## A file that others share -/

/-- A lock of another process, on the bytes from the first one to the last one or on
all that follow. -/
structure RangeLock where
  kind : LockKind
  first : Nat
  last : Option Nat
deriving DecidableEq

/-- A range does not end before a byte. -/
def reaches (n : Nat) : Option Nat → Bool
  | none => true
  | some last => n ≤ last

/-- A lock has a byte in common with a range. -/
def RangeLock.meets (l : RangeLock) (first : Nat) (last : Option Nat) : Bool :=
  reaches l.first last && reaches first l.last

/-- The range of `l_start` and `l_len`, which lies before the start when the length
is negative. There is none before the beginning of a file. -/
def flockRange (start : UInt32) (len : Int32) : Option (Nat × Option Nat) :=
  if len = 0 then some (start.toNat, none)
  else if 0 < len then some (start.toNat, some (start.toNat + len.toInt.toNat - 1))
  else if -len.toInt ≤ start.toNat then
    some ((start.toNat + len.toInt).toNat, some (start.toNat - 1))
  else none

/-- An open file: its bytes, the locks of other processes and the position. -/
structure OpenFile where
  bytes : List UInt8
  locks : List RangeLock
  pos : Nat

namespace OpenFile

/-- `F_GETLK`: what is found in `l_type`, for no lock `none`. A range that there is
not leaves it as it is. -/
def getlk (k : OpenFile) (kind : LockKind) (start : UInt32) (len : Int32) : Option LockKind :=
  match flockRange start len with
  | none => some kind
  | some range =>
      (k.locks.find? fun l => excludes l.kind kind && l.meets range.1 range.2).map (·.kind)

/-- How far a mapping of the file can be accessed: to the end of the last page. -/
def accessible (k : OpenFile) (page : Nat) : Nat :=
  k.bytes.length + (page - k.bytes.length % page) % page

/-- What stands in a mapping: behind the end of the file there are zeros. -/
def mapping (k : OpenFile) (offset count : Nat) : List UInt8 :=
  readAt (k.bytes ++ List.replicate (offset + count - k.bytes.length) 0) offset count

/-- What `read` delivers; it fails when it is asked for more than fits `ssize_t`. -/
def readData (k : OpenFile) (count : Nat) : BytesRead count :=
  if count < 2 ^ 63 then
    some ⟨readAt k.bytes k.pos (min count maxTransfer), by
      rw [length_readAt]
      exact Nat.min_le_left _ _⟩
  else none

/-- The position after a read. -/
def moved (k : OpenFile) {count : Nat} (r : BytesRead count) : OpenFile :=
  match r with
  | some data => { k with pos := k.pos + data.1.length }
  | none => k

/-- The calls on the file while no other process changes it. A copy from a mapping that
meets a page behind the end is begun again and again, and has no end. -/
def kernel (page : Nat) (mappable : Bool) : Kernel FileCall FileCall.Answer OpenFile
  | k, .lseek _ (.set n), r, k' => r = some n ∧ k' = { k with pos := n }
  | k, .lseek _ .atEnd, r, k' => r = some k.bytes.length ∧ k' = { k with pos := k.bytes.length }
  | k, .read _ count, r, k' => r = k.readData count ∧ k' = k.moved (k.readData count)
  | k, .getlk _ kind start len, r, k' => r = k.getlk kind start len ∧ k' = k
  | k, .mmap _ _, r, k' => r = mappable ∧ k' = k
  | k, .memcpy _ offset count, r, k' =>
      (count = 0 ∨ offset.toNat + count ≤ k.accessible page) ∧
        r = k.mapping offset.toNat count ∧ k' = k
  | k, _, _, k' => k' = k

end OpenFile

/-! ## Reads of a handle -/

/-- The server with mappings or without. -/
def FileConfig.mapping (cfg : FileConfig) (useMmap : Bool) : FileConfig := { cfg with useMmap }

section Reads

variable (page : Nat) (mappable : Bool) (cfg : FileConfig) (i : Nat)

/-- What a read answers and delivers, when it ends. A copy that ends has met no `SIGBUS`, since
nothing changes while it is begun again. -/
def ReadAnswers (t : FileTable) (k : OpenFile) (size : Int32) (offset : UInt32)
    (out : Int × List UInt8) (t' : FileTable) (k' : OpenFile) : Prop :=
  Yields (OpenFile.kernel page mappable) k (nwReadFile cfg t (i + 1) size offset 0) (out, t') k'

/-- One read, before which the others leave the file as they like. -/
def ReadStep (s s' : FileTable × Nat) : Prop :=
  ∃ (k k' : OpenFile) (size : Int32) (offset : UInt32) (out : Int × List UInt8),
    k.pos = s.2 ∧ ReadAnswers page mappable cfg i s.1 k size offset out s'.1 k' ∧ k'.pos = s'.2

/-- The handle `fh` is opened for reading, with the file as it is then, and read from. -/
def ReadsFrom (opened : OpenFile) (t : FileTable) (fh : FileHandle) (s : FileTable × Nat) : Prop :=
  ∃ fh' k', Yields (OpenFile.kernel page mappable) opened (mapFile cfg fh false) fh' k' ∧
    Relation.ReflTransGen (ReadStep page mappable cfg i) (t.put i fh', k'.pos) s

end Reads

/-! ## One call -/

section Calls

variable {page : Nat} {mappable : Bool} {k k' : OpenFile} {β : Type} {b : β} {fd : Int}

theorem yields_lseek_set {f : Option Nat → FileProg β} (n : Nat) :
    Yields (OpenFile.kernel page mappable) k (Sys.lseek fd (.set n) >>= f) b k' ↔
      Yields (OpenFile.kernel page mappable) { k with pos := n } (f (some n)) b k' :=
  yields_ask_bind fun _ _ => Iff.rfl

theorem yields_lseek_atEnd {f : Option Nat → FileProg β} :
    Yields (OpenFile.kernel page mappable) k (Sys.lseek fd .atEnd >>= f) b k' ↔
      Yields (OpenFile.kernel page mappable) { k with pos := k.bytes.length }
        (f (some k.bytes.length)) b k' :=
  yields_ask_bind fun _ _ => Iff.rfl

theorem yields_getlk {f : Option LockKind → FileProg β} (kind : LockKind) (start : UInt32)
    (len : Int32) :
    Yields (OpenFile.kernel page mappable) k (Sys.getlk fd kind start len >>= f) b k' ↔
      Yields (OpenFile.kernel page mappable) k (f (k.getlk kind start len)) b k' :=
  yields_ask_bind fun _ _ => Iff.rfl

theorem yields_mmap {f : Bool → FileProg β} (size : Int32) :
    Yields (OpenFile.kernel page mappable) k (Sys.mmap fd size >>= f) b k' ↔
      Yields (OpenFile.kernel page mappable) k (f mappable) b k' :=
  yields_ask_bind fun _ _ => Iff.rfl

theorem yields_read {count : Nat} {f : BytesRead count → FileProg β} :
    Yields (OpenFile.kernel page mappable) k (Sys.read fd count >>= f) b k' ↔
      Yields (OpenFile.kernel page mappable) (k.moved (k.readData count)) (f (k.readData count))
        b k' :=
  yields_ask_bind fun _ _ => Iff.rfl

theorem yields_memcpy {f : List UInt8 → FileProg β} (offset : UInt32) (count : Nat) :
    Yields (OpenFile.kernel page mappable) k (Sys.memcpy fd offset count >>= f) b k' ↔
      (count = 0 ∨ offset.toNat + count ≤ k.accessible page) ∧
        Yields (OpenFile.kernel page mappable) k (f (k.mapping offset.toNat count)) b k' := by
  constructor
  · rintro ⟨_, _, ⟨hends, rfl, rfl⟩, hrest⟩
    exact ⟨hends, hrest⟩
  · rintro ⟨hends, hrest⟩
    exact ⟨_, _, ⟨hends, rfl, rfl⟩, hrest⟩

end Calls

/-! ## The two ways to read -/

section Ways

variable {page : Nat} {mappable : Bool} {k k' : OpenFile} {cfg : FileConfig} {fh : FileHandle}
  {size : Int32} {offset : UInt32}

/-- Locks are not looked at, or none is found that keeps from reading. -/
def unlocked (cfg : FileConfig) (k : OpenFile) (kind : LockKind) (offset : UInt32)
    (size : Int32) : Bool :=
  wants cfg.entry8Flags 0x100 || match kind with
    | .read => k.getlk .read offset size ≠ some .write
    | .write => k.getlk .write offset size = none

theorem yields_rwLck (kind : LockKind) (b : Bool) (k' : OpenFile) :
    Yields (OpenFile.kernel page mappable) k (rwLck cfg fh kind offset size) b k' ↔
      unlocked cfg k kind offset size = b ∧ k = k' := by
  unfold rwLck unlocked
  split
  next hskip => simp only [hskip, Bool.true_or]; rfl
  next hskip =>
    rw [yields_getlk, eq_false_of_ne_true hskip, Bool.false_or]
    cases kind <;> exact Iff.rfl

/-- What `read` delivers at an offset, with its result. -/
def fileRead (k : OpenFile) (size : Int32) (offset : UInt32) : Int × List UInt8 :=
  match ({ k with pos := offset.toNat } : OpenFile).readData (sizeT size) with
  | some data => (data.1.length, data.1)
  | none => (-1, [])

/-- A read from the file. -/
def plainRead (cfg : FileConfig) (k : OpenFile) (size : Int32) (offset : UInt32) :
    Int × List UInt8 :=
  if unlocked cfg k .write offset size then fileRead k size offset else (-0xa2, [])

/-- Where the descriptor stands after a read from the file. -/
def plainEnd (cfg : FileConfig) (k : OpenFile) (size : Int32) (offset : UInt32) : Nat :=
  offset.toNat + (plainRead cfg k size offset).2.length

theorem yields_seekOffset (hagree : 0 ≤ fh.offd → fh.offd = k.pos) (fh' : FileHandle)
    (k' : OpenFile) :
    Yields (OpenFile.kernel page mappable) k (seekOffset fh offset) fh' k' ↔
      { fh with offd := offset.toNat } = fh' ∧ { k with pos := offset.toNat } = k' := by
  unfold seekOffset
  split
  next => exact yields_lseek_set offset.toNat
  next hskip =>
    have hoffd : fh.offd = offset.toNat := not_not.mp hskip
    have hpos : k.pos = offset.toNat := by omega
    rw [← hoffd, ← hpos]
    exact Iff.rfl

theorem yields_readPlain {r : ReadResult} (hagree : 0 ≤ fh.offd → fh.offd = k.pos) :
    Yields (OpenFile.kernel page mappable) k (readPlain cfg fh size offset) r k' ↔
      ((plainRead cfg k size offset).1, (plainRead cfg k size offset).2,
          { fh with offd := plainEnd cfg k size offset }) = r ∧
        { k with pos := plainEnd cfg k size offset } = k' := by
  have hoffd : (-1 : Int) < offset.toNat := by omega
  rw [readPlain, yields_bind_of (yields_seekOffset hagree), if_pos hoffd,
    yields_bind_of (yields_rwLck .write)]
  have hunlocked : unlocked cfg { k with pos := offset.toNat } .write offset size =
      unlocked cfg k .write offset size := rfl
  rw [hunlocked, plainEnd, plainRead]
  split
  next =>
    rw [yields_read, fileRead]
    generalize OpenFile.readData _ _ = data
    cases data <;> rfl
  next => exact Iff.rfl

/-- The copy from a mapping, if it ends. -/
def mappedCopy (page : Nat) (k : OpenFile) (fh : FileHandle) (size : Int32) (offset : UInt32) :
    Option (Int × List UInt8) :=
  if offset < fh.sizeMmap.toUInt32 then
    let count := sizeT (mappedSize fh offset size)
    if count = 0 ∨ offset.toNat + count ≤ k.accessible page then
      some ((mappedSize fh offset size).toInt, k.mapping offset.toNat count)
    else none
  else some (-1, [])

/-- A read from a mapping, if it ends. -/
def mappedRead (page : Nat) (cfg : FileConfig) (k : OpenFile) (fh : FileHandle) (size : Int32)
    (offset : UInt32) : Option (Int × List UInt8) :=
  if unlocked cfg k .read offset size then mappedCopy page k fh size offset else some (-0xa2, [])

theorem yields_readMapped {r : ReadResult} :
    Yields (OpenFile.kernel page mappable) k (readMapped cfg fh size offset 0) r k' ↔
      (∃ out, mappedRead page cfg k fh size offset = some out ∧ (out.1, out.2, fh) = r) ∧
        k = k' := by
  rw [readMapped, yields_bind_of (yields_rwLck .read), mappedRead]
  split
  next =>
    rw [copyMapped, mappedCopy]
    split
    next =>
      rw [yields_memcpy]
      dsimp only
      split
      next hends =>
        rw [and_iff_right hends]
        simp only [Option.some.injEq, exists_eq_left']
        exact Iff.rfl
      next hends => simp [hends]
    next =>
      simp only [Option.some.injEq, exists_eq_left']
      exact Iff.rfl
  next =>
    simp only [Option.some.injEq, exists_eq_left']
    exact Iff.rfl

end Ways

/-! ## The handle between the reads -/

/-- What a mapping of the whole file is made with, if it is made. -/
def mappingSize (mappable : Bool) (length : Nat) : Option Int32 :=
  if mappable = true ∧ 0 < Int32.ofInt length then some (Int32.ofInt length) else none

/-- The handle of a file that is open, with the mapping that it has. -/
structure OpenedRo (mapping : Option Int32) (fh : FileHandle) (pos : Nat) : Prop where
  opened : -1 < fh.fd
  file : fh.is fhIsPipe = false
  noCommand : fh.is fhIsPipeCommand = false
  mapped : fh.pMmap = mapping.isSome
  size_eq : ∀ size ∈ mapping, fh.sizeMmap = size
  agrees : 0 ≤ fh.offd → fh.offd = pos

section Between

variable {page : Nat} {mappable : Bool} {k k' : OpenFile} {cfg : FileConfig} {i : Nat}
  {t t' : FileTable} {fh : FileHandle} {size : Int32} {offset : UInt32} {mapping : Option Int32}
  {out : Int × List UInt8}

/-- A failure is answered with no bytes. -/
def answered (r : Int × List UInt8) : Int × List UInt8 := (if r.1 = -1 then 0 else r.1, r.2)

theorem nwReadFile_eq (hslot : t.handles[i]? = some fh) (h : OpenedRo mapping fh k.pos) :
    nwReadFile cfg t (i + 1) size offset 0 =
      readOpen cfg fh size offset 0 >>= fun r => pure (answered (r.1, r.2.1), t.put i r.2.2) := by
  simp only [nwReadFile, FileTable.find_succ, hslot, Option.map_some, startPipe, h.noCommand,
    Bool.false_eq_true, if_false, pure_eq, done_bind, if_pos h.opened]
  rfl

theorem readAnswers_plain (hslot : t.handles[i]? = some fh) (h : OpenedRo mapping fh k.pos)
    (hplain : (cfg.useMmap && fh.pMmap) = false) :
    ReadAnswers page mappable cfg i t k size offset out t' k' ↔
      answered (plainRead cfg k size offset) = out ∧
        t.put i { fh with offd := plainEnd cfg k size offset } = t' ∧
        { k with pos := plainEnd cfg k size offset } = k' := by
  rw [ReadAnswers, nwReadFile_eq hslot h, readOpen, if_neg (by simp [h.file]),
    if_neg (by simp [hplain]), yields_bind_of fun _ _ => yields_readPlain h.agrees]
  exact (and_congr_left' (Iff.of_eq (Prod.mk.injEq _ _ _ _))).trans and_assoc

theorem readAnswers_mapped (hslot : t.handles[i]? = some fh) (h : OpenedRo mapping fh k.pos)
    (hmapped : (cfg.useMmap && fh.pMmap) = true) :
    ReadAnswers page mappable cfg i t k size offset out t' k' ↔
      (∃ r, mappedRead page cfg k fh size offset = some r ∧ answered r = out) ∧
        t.put i fh = t' ∧ k = k' := by
  rw [ReadAnswers, nwReadFile_eq hslot h, readOpen, if_neg (by simp [h.file]),
    if_pos (by simp [hmapped]), yields_bind]
  constructor
  · rintro ⟨r, k₁, hread, hrest⟩
    obtain ⟨⟨r, hr, rfl⟩, rfl⟩ := yields_readMapped.mp hread
    obtain ⟨hout, rfl⟩ := hrest
    obtain ⟨rfl, rfl⟩ := Prod.mk.inj hout
    exact ⟨⟨r, hr, rfl⟩, rfl, rfl⟩
  · rintro ⟨⟨r, hr, rfl⟩, rfl, rfl⟩
    exact ⟨_, _, yields_readMapped.mpr ⟨⟨r, hr, rfl⟩, rfl⟩, rfl, rfl⟩

/-- The handle of a reader, and the position of its descriptor. -/
def ReaderOk (mapping : Option Int32) (i : Nat) (s : FileTable × Nat) : Prop :=
  ∃ fh, s.1.handles[i]? = some fh ∧ OpenedRo mapping fh s.2

theorem getElem?_put {fh₀ : FileHandle} (hslot : t.handles[i]? = some fh₀) (fh : FileHandle) :
    (t.put i fh).handles[i]? = some fh :=
  List.getElem?_set_self (List.getElem?_eq_some_iff.mp hslot).1

/-- Reading changes neither the mapping nor what is known of the position. -/
theorem ReadStep.readerOk {s s' : FileTable × Nat} (h : ReaderOk mapping i s)
    (hstep : ReadStep page mappable cfg i s s') : ReaderOk mapping i s' := by
  obtain ⟨fh, hslot, hreading⟩ := h
  obtain ⟨k, k', size, offset, out, hpos, hread, hpos'⟩ := hstep
  rw [← hpos] at hreading
  refine (Bool.eq_false_or_eq_true (cfg.useMmap && fh.pMmap)).elim (fun hmapped => ?_)
    fun hplain => ?_
  · obtain ⟨-, htable, rfl⟩ := (readAnswers_mapped hslot hreading hmapped).mp hread
    rw [ReaderOk, ← htable, ← hpos']
    exact ⟨fh, getElem?_put hslot fh, hreading⟩
  · obtain ⟨-, htable, rfl⟩ := (readAnswers_plain hslot hreading hplain).mp hread
    rw [ReaderOk, ← htable, ← hpos']
    exact ⟨_, getElem?_put hslot _, { hreading with agrees := fun _ => rfl }⟩

theorem readerOk_of_readsFrom {opened : OpenFile} {s : FileTable × Nat}
    (hslot : t.handles[i]? = some fh)
    (hfile : ∀ fh' k', Yields (OpenFile.kernel page mappable) opened (mapFile cfg fh false) fh' k' →
      OpenedRo mapping fh' k'.pos)
    (h : ReadsFrom page mappable cfg i opened t fh s) : ReaderOk mapping i s := by
  obtain ⟨fh', k', hmap, hreads⟩ := h
  induction hreads with
  | refl => exact ⟨fh', getElem?_put hslot fh', hfile fh' k' hmap⟩
  | tail _ hstep ih => exact hstep.readerOk ih

/-- A file is mapped as it is when it is opened. -/
theorem openedRo_mapFile {opened : OpenFile} (h : OpenedRo none fh opened.pos) {fh' : FileHandle}
    (hmap : Yields (OpenFile.kernel page mappable) opened (mapFile (cfg.mapping true) fh false)
      fh' k') : OpenedRo (mappingSize mappable opened.bytes.length) fh' k'.pos := by
  have hfh : fh.pMmap = false := h.mapped
  rw [mapFile, if_pos ⟨rfl, h.opened, rfl⟩, yields_lseek_atEnd] at hmap
  unfold mappingSize
  extract_lets fh₁ at hmap
  split at hmap
  next hsize =>
    rw [yields_mmap] at hmap
    cases mappable with
    | true =>
        obtain ⟨rfl, rfl⟩ := hmap
        rw [if_pos ⟨rfl, hsize⟩]
        exact ⟨h.opened, h.file, h.noCommand, rfl, fun _ hmem => Option.some.inj hmem,
          fun _ => rfl⟩
    | false =>
        obtain ⟨rfl, rfl⟩ := hmap
        rw [if_neg fun hboth => Bool.noConfusion hboth.1]
        exact ⟨h.opened, h.file, h.noCommand, rfl, nofun, fun _ => rfl⟩
  next hsize =>
    obtain ⟨rfl, rfl⟩ := hmap
    rw [if_neg fun hboth => hsize hboth.2]
    exact ⟨h.opened, h.file, h.noCommand, hfh, nofun, fun _ => rfl⟩

theorem openedRo_unmapped {opened : OpenFile} (h : OpenedRo none fh opened.pos) {fh' : FileHandle}
    (hmap : Yields (OpenFile.kernel page mappable) opened (mapFile (cfg.mapping false) fh false)
      fh' k') : OpenedRo none fh' k'.pos := by
  rw [mapFile, if_neg fun huse => Bool.noConfusion huse.1] at hmap
  obtain ⟨rfl, rfl⟩ := hmap
  exact h

end Between

end MarsNwe
