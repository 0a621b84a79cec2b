import MarsNwe.File.Offsets
import MarsNwe.Lib.Window

/-! # Copying on the server

`nw_server_copy` over files that are read and written as far as they go. The two
positions of a copy are set once and move with the transfers, so that one descriptor
has only one of them.
-/

namespace MarsNwe

open Prog Function Window

/-! ## Files that transfer fully -/

/-- The contents of the files, and where the descriptors stand. -/
structure Disk where
  bytes : FileNumbers → List UInt8
  pos : Int → Nat

namespace Disk

variable (file : Int → FileNumbers)

/-- The file of a descriptor. -/
def of (k : Disk) (fd : Int) : List UInt8 := k.bytes (file fd)

def seek (k : Disk) (fd : Int) (n : Nat) : Disk := { k with pos := update k.pos fd n }

/-- What `read` delivers. -/
def window (k : Disk) (fd : Int) (count : Nat) : List UInt8 :=
  readAt (k.of file fd) (k.pos fd) (min count maxTransfer)

def put (k : Disk) (fd : Int) (data : List UInt8) : Disk where
  bytes := update k.bytes (file fd) (writeAt 0 (k.of file fd) (k.pos fd) data)
  pos := update k.pos fd (k.pos fd + data.length)

/-- Reads and writes transfer all that there is, seeks succeed. -/
def answer (k : Disk) : (c : FileCall) → c.Answer × Disk
  | .lseek fd (.set n) => (some n, k.seek fd n)
  | .lseek fd .atEnd => (some (k.of file fd).length, k.seek fd (k.of file fd).length)
  | .read fd count =>
      (some ⟨k.window file fd count, by
        rw [window, length_readAt]
        exact Nat.min_le_left _ _⟩, k.seek fd (k.pos fd + (k.window file fd count).length))
  | .write fd data count =>
      let written := data.take (min count maxTransfer)
      (some ⟨written.length, List.length_take_le _ _⟩, k.put file fd written)
  | c => ((idleKernel (fun _ => none) c).1, k)

variable {file} {k : Disk} {fd : Int}

@[simp] theorem of_seek (fd' : Int) (n : Nat) : (k.seek fd' n).of file fd = k.of file fd := rfl

theorem pos_seek (fd' : Int) (n : Nat) : (k.seek fd' n).pos = update k.pos fd' n := rfl

theorem of_put (fd' : Int) (data : List UInt8) :
    (k.put file fd' data).of file fd =
      if file fd = file fd' then writeAt 0 (k.of file fd') (k.pos fd') data else k.of file fd := by
  exact update_apply _ _ _ _

/-- A file only grows. -/
theorem length_le_of_put (fd' : Int) (data : List UInt8) :
    (k.of file fd).length ≤ ((k.put file fd' data).of file fd).length := by
  rw [of_put]
  split
  next heq =>
    rw [of, heq]
    exact length_le_writeAt data
  next => exact Nat.le_refl _

end Disk

/-! ## One round -/

section Rounds

variable {file : Int → FileNumbers} {k : Disk} {qfd zfd : Int}

/-- The next piece of a copy, at most as large as the buffer. -/
def piece (file : Int → FileNumbers) (k : Disk) (qfd : Int) (size : Nat) : List UInt8 :=
  readAt (k.of file qfd) (k.pos qfd) (min size 4096)

/-- The files after a piece has been copied. -/
def pieceCopied (file : Int → FileNumbers) (k : Disk) (qfd zfd : Int) (size : Nat) : Disk :=
  (k.seek qfd (k.pos qfd + (piece file k qfd size).length)).put file zfd (piece file k qfd size)

theorem length_piece (size : Nat) :
    (piece file k qfd size).length = min (min size 4096) ((k.of file qfd).length - k.pos qfd) :=
  length_readAt _

theorem window_eq_piece (size : Nat) :
    k.window file qfd (min size 4096) = piece file k qfd size := by
  rw [Disk.window, piece, Nat.min_eq_left ((Nat.min_le_right _ _).trans (by decide))]

/-- A copy goes on with the next piece until nothing is left to read. -/
theorem exec_copyLoop (size : Nat) (retsize : Int32) :
    exec (Disk.answer file) k (copyLoop qfd zfd size retsize) =
      if size = 0 then (retsize.toInt, k)
      else if (piece file k qfd size).length = 0 then (retsize.toInt, k.seek qfd (k.pos qfd))
      else exec (Disk.answer file) (pieceCopied file k qfd zfd size)
        (copyLoop qfd zfd (size - (piece file k qfd size).length)
          (retsize + Int32.ofNat (piece file k qfd size).length)) := by
  have htake : (piece file k qfd size).take (min (piece file k qfd size).length maxTransfer) =
      piece file k qfd size := by
    refine List.take_of_length_le (le_min le_rfl ?_)
    rw [length_piece]
    exact (Nat.min_le_left _ _).trans ((Nat.min_le_right _ _).trans (by decide))
  rw [copyLoop]
  split
  next => rfl
  next =>
    simp only [ask_bind, exec, Disk.answer, window_eq_piece]
    split
    next hnil =>
      simp only [exec, pure_eq, hnil, Nat.add_zero]
    next =>
      simp only [exec, Disk.answer, htake, Option.map_some, if_true]
      rfl

/-- Where the next round goes on. -/
theorem pos_pieceCopied (size : Nat) (hfd : qfd ≠ zfd) :
    (pieceCopied file k qfd zfd size).pos qfd = k.pos qfd + (piece file k qfd size).length ∧
      (pieceCopied file k qfd zfd size).pos zfd = k.pos zfd + (piece file k qfd size).length := by
  constructor
  · simp [pieceCopied, Disk.put, Disk.seek, update_of_ne hfd]
  · simp [pieceCopied, Disk.put, Disk.seek, update_of_ne hfd.symm]

theorem of_pieceCopied (size : Nat) (hfd : qfd ≠ zfd) (fd : Int) :
    (pieceCopied file k qfd zfd size).of file fd =
      if file fd = file zfd then
        writeAt 0 (k.of file zfd) (k.pos zfd) (piece file k qfd size)
      else k.of file fd := by
  rw [pieceCopied, Disk.of_put, Disk.of_seek, Disk.of_seek, Disk.pos_seek,
    update_of_ne hfd.symm]

end Rounds

/-! ## Two descriptors -/

section Apart

variable {file : Int → FileNumbers} {k : Disk} {qfd zfd : Int}

/-- What is to be copied is not written over, and nothing is added to it. -/
def Beside (file : Int → FileNumbers) (k : Disk) (qfd zfd : Int) (size : Nat) : Prop :=
  file qfd ≠ file zfd ∨
    k.pos zfd + (readAt (k.of file qfd) (k.pos qfd) size).length ≤ k.pos qfd ∨
    k.pos qfd + size ≤ (k.of file qfd).length ∧ k.pos qfd + size ≤ k.pos zfd

/-- A round leaves what the rounds after it copy. -/
theorem Beside.readAt_pieceCopied {size : Nat} (h : Beside file k qfd zfd size)
    (hfd : qfd ≠ zfd) :
    readAt ((pieceCopied file k qfd zfd size).of file qfd)
        (k.pos qfd + (piece file k qfd size).length) (size - (piece file k qfd size).length) =
      readAt (k.of file qfd) (k.pos qfd + (piece file k qfd size).length)
        (size - (piece file k qfd size).length) := by
  rw [of_pieceCopied size hfd]
  split
  next heq =>
    have hsame : k.of file zfd = k.of file qfd := by rw [Disk.of, Disk.of, heq]
    rw [hsame]
    have hpiece := @length_piece file k qfd size
    apply readAt_writeAt
    rcases h with hne | hbefore | hbehind
    · exact absurd heq hne
    · rw [length_readAt] at hbefore
      omega
    · omega
  next => rfl

theorem Beside.next {size : Nat} (h : Beside file k qfd zfd size) (hfd : qfd ≠ zfd) :
    Beside file (pieceCopied file k qfd zfd size) qfd zfd
      (size - (piece file k qfd size).length) := by
  obtain ⟨hq, hz⟩ := @pos_pieceCopied file k _ _ size hfd
  have hread := h.readAt_pieceCopied hfd
  have hpiece := @length_piece file k qfd size
  rcases h with hne | hbefore | hbehind
  · exact .inl hne
  · refine .inr (.inl ?_)
    rw [hq, hz, hread, length_readAt]
    rw [length_readAt] at hbefore
    omega
  · refine .inr (.inr ?_)
    have hgrown : (k.of file qfd).length ≤
        ((pieceCopied file k qfd zfd size).of file qfd).length :=
      Disk.length_le_of_put (k := k.seek _ _) zfd _
    rw [hq, hz]
    omega

/-- The whole copy, when what is copied is left alone. -/
theorem copyLoop_of_beside (hfd : qfd ≠ zfd) (size : Nat) (retsize : Int32)
    (h : Beside file k qfd zfd size) :
    let data := readAt (k.of file qfd) (k.pos qfd) size
    let last := exec (Disk.answer file) k (copyLoop qfd zfd size retsize)
    last.1 = (retsize + Int32.ofNat data.length).toInt ∧
      last.2.of file zfd = writeAt 0 (k.of file zfd) (k.pos zfd) data := by
  induction size using Nat.strong_induction_on generalizing k retsize with
  | _ size ih =>
    have hpiece := @length_piece file k qfd size
    intro data last
    have hdata := @length_readAt _ (k.of file qfd) (k.pos qfd) size
    have hlast : last = _ := exec_copyLoop size retsize
    split at hlast
    next hsize =>
      have hnil : data = [] := List.length_eq_zero_iff.mp (hdata.trans (by omega))
      rw [hlast, hnil]
      simp
    next hsize =>
      split at hlast
      next hend =>
        have hnil : data = [] := List.length_eq_zero_iff.mp (hdata.trans (by omega))
        rw [hlast, hnil]
        simp
      next hmore =>
        obtain ⟨hq, hz⟩ := @pos_pieceCopied file k _ _ size hfd
        obtain ⟨hresult, hbytes⟩ := ih _ (by omega)
          (retsize + Int32.ofNat (piece file k qfd size).length) (h.next hfd)
        rw [hq, h.readAt_pieceCopied hfd] at hresult hbytes
        have hwhole : piece file k qfd size ++ _ = data :=
          readAt_append (min size 4096) size (Nat.min_le_left _ _)
        rw [hlast, ← hwhole]
        refine ⟨?_, ?_⟩
        · rw [hresult, List.length_append, Int32.ofNat_add, Int32.add_assoc]
          rfl
        · rw [hbytes, hz, of_pieceCopied size hfd, if_pos rfl, writeAt_writeAt]
          rfl

/-- A copy that goes behind the end of its own file finds what it has written. -/
theorem copyLoop_chases (hfd : qfd ≠ zfd) (hsame : file qfd = file zfd) (size : Nat)
    (retsize : Int32) (hq : k.pos qfd < (k.of file qfd).length) (hz : k.pos qfd < k.pos zfd) :
    (exec (Disk.answer file) k (copyLoop qfd zfd size retsize)).1 =
      (retsize + Int32.ofNat size).toInt := by
  induction size using Nat.strong_induction_on generalizing k retsize with
  | _ size ih =>
    have hpiece := @length_piece file k qfd size
    rw [exec_copyLoop]
    split
    next hsize =>
      rw [hsize]
      simp
    next hsize =>
      rw [if_neg (by omega)]
      obtain ⟨hq', hz'⟩ := @pos_pieceCopied file k _ _ size hfd
      have hne : piece file k qfd size ≠ [] := List.length_pos_iff.mp (by omega)
      -- the file now ends behind the position of the destination
      have hlength : ((pieceCopied file k qfd zfd size).of file qfd).length =
          max (k.of file zfd).length (k.pos zfd + (piece file k qfd size).length) := by
        rw [of_pieceCopied size hfd, if_pos hsame, length_writeAt hne]
      rw [ih _ (by omega) _ (by omega) (by omega), Int32.add_assoc, ← Int32.ofNat_add,
        Nat.add_sub_cancel' (by omega)]

end Apart

/-! ## One descriptor -/

section Shared

variable {file : Int → FileNumbers} {k : Disk} {fd : Int}

/-- A copy of nothing, or from the end. -/
theorem copyLoop_nothing {zfd : Int} (size : Nat) (retsize : Int32)
    (h : size = 0 ∨ (k.of file fd).length ≤ k.pos fd) :
    let last := exec (Disk.answer file) k (copyLoop fd zfd size retsize)
    last.1 = retsize.toInt ∧ last.2.bytes = k.bytes := by
  have hpiece := @length_piece file k fd size
  intro last
  have hlast : last = _ := exec_copyLoop size retsize
  rw [if_pos (by omega : (piece file k fd size).length = 0)] at hlast
  split at hlast
  all_goals
    rw [hlast]
    exact ⟨rfl, rfl⟩

/-- A copy of a descriptor onto itself begins behind its position, and what is
read goes on from there. -/
theorem copyLoop_shared (size : Nat) (retsize : Int32) :
    let last := exec (Disk.answer file) k (copyLoop fd fd size retsize)
    (∃ total, last.1 = (retsize + Int32.ofNat total).toInt ∧ total ≤ size ∧
      (0 < size → k.pos fd < (k.of file fd).length → 0 < total)) ∧
    ∀ i ≤ k.pos fd, (last.2.of file fd)[i]? = (k.of file fd)[i]? := by
  induction size using Nat.strong_induction_on generalizing k retsize with
  | _ size ih =>
    have hpiece := @length_piece file k fd size
    intro last
    have hlast : last = _ := exec_copyLoop size retsize
    split at hlast
    next hsize =>
      rw [hlast]
      exact ⟨⟨0, by simp, by omega, by omega⟩, fun _ _ => rfl⟩
    next hsize =>
      split at hlast
      next hend =>
        rw [hlast]
        exact ⟨⟨0, by simp, by omega, by omega⟩, fun _ _ => rfl⟩
      next hmore =>
        have hpos : (pieceCopied file k fd fd size).pos fd =
            k.pos fd + (piece file k fd size).length + (piece file k fd size).length := by
          simp [pieceCopied, Disk.put, Disk.seek]
        have hbytes : (pieceCopied file k fd fd size).of file fd =
            writeAt 0 (k.of file fd) (k.pos fd + (piece file k fd size).length)
              (piece file k fd size) := by
          rw [pieceCopied, Disk.of_put, if_pos rfl, Disk.of_seek, Disk.pos_seek, update_self]
        obtain ⟨⟨total, hresult, hle, -⟩, hkept⟩ :=
          ih (size - (piece file k fd size).length) (by omega)
            (k := pieceCopied file k fd fd size)
            (retsize + Int32.ofNat (piece file k fd size).length)
        rw [hlast]
        refine ⟨⟨(piece file k fd size).length + total, ?_, by omega, by omega⟩,
          fun i hi => ?_⟩
        · rw [hresult, Int32.ofNat_add, Int32.add_assoc]
        · rw [hkept i (by omega), hbytes, getElem?_writeAt_outside (by omega) (by omega)]

end Shared

/-! ## The whole request -/

/-- The bytes that a copy can and shall take. -/
def copySize (length : Nat) (qoffset size : UInt32) : Nat :=
  min size.toNat (length - qoffset.toNat)

/-- A copy of `n` bytes of `src` into `dst`, which becomes `dst'`. -/
structure Copied (src dst dst' : List UInt8) (qoffset zoffset n : Nat) (result : Int) : Prop where
  result_eq : result = n
  copied : ∀ i < n, dst'[zoffset + i]? = src[qoffset + i]?
  kept : ∀ j < dst.length, ¬(zoffset ≤ j ∧ j < zoffset + n) → dst'[j]? = dst[j]?
  length_eq : dst'.length = if n = 0 then dst.length else max dst.length (zoffset + n)

/-- The result of a copy is no more than an `int` holds. -/
theorem copyLoop_lt (qfd zfd : Int) (size : Nat) (retsize : Int32) :
    Returns (· < 2 ^ 31) (copyLoop qfd zfd size retsize) := by
  induction size using Nat.strong_induction_on generalizing retsize with
  | _ size ih =>
    rw [copyLoop]
    split
    next => exact retsize.toInt_lt
    next =>
      rintro (_ | buff)
      · exact (by decide : (-0x93 : Int) < 2 ^ 31)
      · change Returns _ (if _ : buff.1.length = 0 then _ else _)
        split
        next => exact retsize.toInt_lt
        next =>
          intro w
          change Returns _ (if w.map (·.1) = some buff.1.length then _ else _)
          split
          next => exact ih _ (by omega) _
          next => exact (by decide : (-1 : Int) < 2 ^ 31)

section Requests

variable {t : FileTable} {qfhandle zfhandle : Int} {fhq fhz : FileHandle} {qi zi : Nat}

/-- Where the two descriptors stand before the loop. -/
def Disk.sought (k : Disk) (qfd : Int) (qoffset : UInt32) (zfd : Int) (zoffset : UInt32) : Disk :=
  (k.seek qfd qoffset.toNat).seek zfd zoffset.toNat

/-- A copy between open handles is the loop from the two offsets on. -/
theorem exec_nwServerCopy (file : Int → FileNumbers) (k : Disk)
    (hq : t.find qfhandle = some (qi, fhq)) (hz : t.find zfhandle = some (zi, fhz))
    (hqfd : -1 < fhq.fd) (hzfd : -1 < fhz.fd) (hwrite : fhz.is fhOpenedRo = false)
    (qoffset zoffset size : UInt32) :
    let last := exec (Disk.answer file) k (nwServerCopy t qfhandle qoffset zfhandle zoffset size)
    let loop := exec (Disk.answer file) (k.sought fhq.fd qoffset fhz.fd zoffset)
      (copyLoop fhq.fd fhz.fd size.toNat 0)
    last.1.1 = loop.1 ∧ last.2 = loop.2 := by
  intro last loop
  have hsought : exec (Disk.answer file) k (seekBoth fhq.fd qoffset fhz.fd zoffset) =
      (true, k.sought fhq.fd qoffset fhz.fd zoffset) := rfl
  have hlast : last = exec (Disk.answer file) k
    (nwServerCopy t qfhandle qoffset zfhandle zoffset size) := rfl
  simp only [nwServerCopy, hq, hz, if_pos (And.intro hqfd hzfd), hwrite, Bool.false_eq_true,
    if_false, exec_bind, hsought, if_true] at hlast
  rw [hlast]
  exact ⟨rfl, rfl⟩

theorem Copied.nothing (src dst : List UInt8) (qoffset zoffset : Nat) :
    Copied src dst dst qoffset zoffset 0 0 where
  result_eq := rfl
  copied _ hi := absurd hi (Nat.not_lt_zero _)
  kept _ _ _ := rfl
  length_eq := rfl

/-- A copy that is written at once. -/
theorem Copied.of_writeAt {src dst : List UInt8} {qoffset zoffset size : Nat} {result : Int}
    (hresult : result = (readAt src qoffset size).length) :
    Copied src dst (writeAt 0 dst zoffset (readAt src qoffset size)) qoffset zoffset
      (min size (src.length - qoffset)) result := by
  have hlength : (readAt src qoffset size).length = _ := length_readAt size
  rw [← hlength]
  refine ⟨hresult, fun i hi => ?_, fun j hj hbeside => getElem?_writeAt_outside hj hbeside, ?_⟩
  · rw [getElem?_writeAt_inside hi, getElem?_readAt, if_pos (by omega)]
  · split
    next hnil => rw [List.length_eq_zero_iff.mp hnil, writeAt_nil]
    next hcons => exact length_writeAt (mt List.length_eq_zero_iff.mpr hcons)

/-- A size that an `int` shows as a smaller one is not shown as such. -/
theorem toInt_ofNat_ne {m s : Nat} (hs : s < 2 ^ 32) (hm : m < s) :
    (Int32.ofNat s).toInt ≠ m := by
  have hsize : ((Int32.size : Nat) : Int) = 4294967296 := rfl
  rw [Int32.toInt_ofNat', Int.bmod_def, hsize]
  split
  · omega
  · omega

/-- Source and destination do not overlap. -/
def RangesApart (file : Int → FileNumbers) (qfd zfd : Int) (qoffset zoffset n : Nat) : Prop :=
  file qfd = file zfd → qoffset + n ≤ zoffset ∨ zoffset + n ≤ qoffset

/-- When a copy between two open handles does what it is for: the number of bytes fits an
`int`, one handle is not copied onto itself, and a file is not copied behind its own
end when it has fewer bytes than asked for. -/
structure Copies (file : Int → FileNumbers) (length : Nat) (fhq fhz : FileHandle)
    (qoffset zoffset size : UInt32) : Prop where
  writable : fhz.is fhOpenedRo = false
  fits : copySize length qoffset size < 2 ^ 31
  once : fhq.fd = fhz.fd → size = 0 ∨ length ≤ qoffset.toNat ∧ length ≤ zoffset.toNat
  inside : fhq.fd ≠ fhz.fd → file fhq.fd = file fhz.fd → length ≤ zoffset.toNat →
    ¬(qoffset.toNat < length ∧ length - qoffset.toNat < size.toNat)

variable {file : Int → FileNumbers} {k : Disk} {qoffset zoffset size : UInt32}

theorem Disk.sought_pos_dest (qfd zfd : Int) :
    (k.sought qfd qoffset zfd zoffset).pos zfd = zoffset.toNat :=
  update_self _ _ _

theorem Disk.sought_pos_source {qfd zfd : Int} (hfd : qfd ≠ zfd) :
    (k.sought qfd qoffset zfd zoffset).pos qfd = qoffset.toNat :=
  (update_of_ne hfd _ _).trans (update_self _ _ _)

theorem exec_copyLoop_copied (hapart : RangesApart file fhq.fd fhz.fd qoffset.toNat zoffset.toNat
      (copySize (k.of file fhq.fd).length qoffset size))
    (h : Copies file (k.of file fhq.fd).length fhq fhz qoffset zoffset size) :
    let loop := exec (Disk.answer file) (k.sought fhq.fd qoffset fhz.fd zoffset)
      (copyLoop fhq.fd fhz.fd size.toNat 0)
    Copied (k.of file fhq.fd) (k.of file fhz.fd) (loop.2.of file fhz.fd) qoffset.toNat
      zoffset.toNat (copySize (k.of file fhq.fd).length qoffset size) loop.1 := by
  intro loop
  by_cases hn : copySize (k.of file fhq.fd).length qoffset size = 0
  · have hstart : size.toNat = 0 ∨ (k.of file fhq.fd).length ≤
        (k.sought fhq.fd qoffset fhz.fd zoffset).pos fhq.fd := by
      by_cases hfd : fhq.fd = fhz.fd
      · rcases h.once hfd with hsize | hend
        · exact .inl (congrArg UInt32.toNat hsize)
        · refine .inr ?_
          rw [hfd, Disk.sought_pos_dest, ← hfd]
          exact hend.2
      · rw [Disk.sought_pos_source hfd]
        unfold copySize at hn
        omega
    obtain ⟨hresult, hbytes⟩ := @copyLoop_nothing file
      (k.sought fhq.fd qoffset fhz.fd zoffset) _ fhz.fd size.toNat 0 hstart
    have hdst : loop.2.of file fhz.fd = k.of file fhz.fd := congrFun hbytes _
    rw [hn, hdst, show loop.1 = 0 from hresult]
    exact .nothing _ _ _ _
  · have hfits := h.fits
    unfold copySize at hn hfits
    have hfd : fhq.fd ≠ fhz.fd := by
      intro hfd
      rcases h.once hfd with hsize | hend
      · rw [hsize] at hn
        exact hn (Nat.zero_min _)
      · omega
    have hq := @Disk.sought_pos_source k qoffset zoffset _ _ hfd
    have hz := @Disk.sought_pos_dest k qoffset zoffset fhq.fd fhz.fd
    have hbeside : Beside file (k.sought fhq.fd qoffset fhz.fd zoffset) fhq.fd fhz.fd
        size.toNat := by
      unfold Beside
      rw [hq, hz, length_readAt]
      by_cases hfile : file fhq.fd = file fhz.fd
      · refine .inr ?_
        have hinside := h.inside hfd hfile
        change _ ∨ _ ≤ (k.of file fhq.fd).length ∧ _
        change _ + min _ ((k.of file fhq.fd).length - _) ≤ _ ∨ _
        rcases hapart hfile with hbehind | hbefore
        · unfold copySize at hbehind
          omega
        · unfold copySize at hbefore
          exact .inl hbefore
      · exact .inl hfile
    obtain ⟨hresult, hbytes⟩ := copyLoop_of_beside hfd size.toNat 0 hbeside
    rw [hq, hz] at hbytes
    rw [hq] at hresult
    rw [show loop.2.of file fhz.fd = _ from hbytes]
    refine Copied.of_writeAt (hresult.trans ?_)
    rw [Int32.zero_add, Int32.toInt_ofNat_of_lt]
    · rfl
    · rw [length_readAt]
      exact hfits

/-- Files that are nothing but zeros, one of them with a single other byte. -/
def Disk.marked (length : FileNumbers → Nat) (mark : Nat) : Disk where
  bytes id := (List.replicate (length id) 0).set mark 1
  pos _ := 0

@[simp] theorem Disk.length_marked (length : FileNumbers → Nat) (mark : Nat) (id : FileNumbers) :
    ((Disk.marked length mark).bytes id).length = length id := by
  rw [marked, List.length_set, List.length_replicate]

theorem Disk.marked_ne {length : FileNumbers → Nat} {mark i : Nat} {id : FileNumbers}
    (h : mark < length id) (hi : i ≠ mark) :
    ((Disk.marked length mark).bytes id)[i]? ≠ ((Disk.marked length mark).bytes id)[mark]? := by
  have hmark : ((Disk.marked length mark).bytes id)[mark]? = some 1 := by
    rw [marked, List.getElem?_set_self (by rwa [List.length_replicate])]
  rw [hmark, marked, List.getElem?_set_ne hi.symm, List.getElem?_replicate]
  split
  next => exact fun heq => absurd (Option.some.inj heq) (by decide)
  next => exact (Option.some_ne_none 1).symm

/-- A copy of a descriptor onto itself: what is at `zoffset` is read and stays. -/
theorem not_copied_of_shared {length : FileNumbers → Nat} {fd : Int}
    (hapart : RangesApart file fd fd qoffset.toNat zoffset.toNat
      (copySize (length (file fd)) qoffset size))
    (h : ¬(size = 0 ∨ length (file fd) ≤ qoffset.toNat ∧ length (file fd) ≤ zoffset.toNat)) :
    let k := Disk.marked length qoffset.toNat
    let loop := exec (Disk.answer file) (k.sought fd qoffset fd zoffset)
      (copyLoop fd fd size.toNat 0)
    ¬Copied (k.of file fd) (k.of file fd) (loop.2.of file fd) qoffset.toNat zoffset.toNat
      (copySize (length (file fd)) qoffset size) loop.1 := by
  intro k loop hcopied
  obtain ⟨⟨total, hresult, hle, hsome⟩, hkept⟩ := @copyLoop_shared file
    (k.sought fd qoffset fd zoffset) fd size.toNat 0
  rw [Disk.sought_pos_dest] at hsome hkept
  have hlength : (k.of file fd).length = length (file fd) := Disk.length_marked _ _ _
  obtain ⟨hsize, hbefore⟩ := not_or.mp h
  have hpos : 0 < size.toNat := Nat.pos_of_ne_zero fun hzero => hsize (UInt32.toNat_inj.mp hzero)
  by_cases hn : copySize (length (file fd)) qoffset size = 0
  · -- nothing is to be copied, but there is something at `zoffset`
    have htotal := hsome hpos (by
      change _ < (k.of file fd).length
      unfold copySize at hn
      omega)
    have hzero : loop.1 = ((copySize (length (file fd)) qoffset size : Nat) : Int) :=
      hcopied.result_eq
    rw [hn, show loop.1 = _ from hresult, Int32.zero_add] at hzero
    exact toInt_ofNat_ne (hle.trans_lt size.toNat_lt) htotal hzero
  · have hfirst := hcopied.copied 0 (Nat.pos_of_ne_zero hn)
    have hmark : qoffset.toNat < length (file fd) := by
      unfold copySize at hn
      omega
    refine Disk.marked_ne hmark (fun heq => ?_) ((hkept zoffset.toNat le_rfl).symm.trans hfirst)
    have hne := hapart rfl
    omega

/-- A copy behind the end of its own file is as long as it was asked to be. -/
theorem not_copied_of_chasing {k : Disk} {qfd zfd : Int} (hfd : qfd ≠ zfd)
    (hfile : file qfd = file zfd) (hbehind : (k.of file qfd).length ≤ zoffset.toNat)
    (hmore : qoffset.toNat < (k.of file qfd).length)
    (hshort : (k.of file qfd).length - qoffset.toNat < size.toNat) :
    (exec (Disk.answer file) (k.sought qfd qoffset zfd zoffset)
      (copyLoop qfd zfd size.toNat 0)).1 ≠ copySize (k.of file qfd).length qoffset size := by
  have hq := @Disk.sought_pos_source k qoffset zoffset _ _ hfd
  have hz := @Disk.sought_pos_dest k qoffset zoffset qfd zfd
  rw [copyLoop_chases hfd hfile size.toNat 0 (by rw [hq]; exact hmore) (by omega), Int32.zero_add]
  refine toInt_ofNat_ne size.toNat_lt ?_
  unfold copySize
  omega

/-- `nw_server_copy` copies exactly when the two positions are independent and the end
of the source stays where it is. -/
theorem nwServerCopy_copies_iff (file : Int → FileNumbers) (length : FileNumbers → Nat)
    (hq : t.find qfhandle = some (qi, fhq)) (hz : t.find zfhandle = some (zi, fhz))
    (hqfd : -1 < fhq.fd) (hzfd : -1 < fhz.fd)
    (hapart : RangesApart file fhq.fd fhz.fd qoffset.toNat zoffset.toNat
      (copySize (length (file fhq.fd)) qoffset size)) :
    (∀ k : Disk, (∀ id, (k.bytes id).length = length id) →
      let last := exec (Disk.answer file) k
        (nwServerCopy t qfhandle qoffset zfhandle zoffset size)
      Copied (k.of file fhq.fd) (k.of file fhz.fd) (last.2.of file fhz.fd) qoffset.toNat
        zoffset.toNat (copySize (length (file fhq.fd)) qoffset size) last.1.1) ↔
    Copies file (length (file fhq.fd)) fhq fhz qoffset zoffset size := by
  constructor
  · intro hcopies
    have hwrite : fhz.is fhOpenedRo = false := by
      by_contra hro
      have hresult := (hcopies (.marked length 0) (Disk.length_marked length 0)).result_eq
      simp only [nwServerCopy, hq, hz, if_pos (And.intro hqfd hzfd), Bool.not_eq_false _ ▸ hro,
        if_true, pure_eq, exec] at hresult
      omega
    have hloop (k : Disk) (hk : ∀ id, (k.bytes id).length = length id) :
        let loop := exec (Disk.answer file) (k.sought fhq.fd qoffset fhz.fd zoffset)
          (copyLoop fhq.fd fhz.fd size.toNat 0)
        Copied (k.of file fhq.fd) (k.of file fhz.fd) (loop.2.of file fhz.fd) qoffset.toNat
          zoffset.toNat (copySize (length (file fhq.fd)) qoffset size) loop.1 := by
      obtain ⟨hresult, hdisk⟩ := exec_nwServerCopy file k hq hz hqfd hzfd hwrite qoffset zoffset size
      intro loop
      rw [← show _ = loop.1 from hresult, ← show _ = loop.2 from hdisk]
      exact hcopies k hk
    refine ⟨hwrite, ?_, fun hfd => ?_, fun hfd hfile hbehind hshort => ?_⟩
    · have hresult := (hloop (.marked length 0) (Disk.length_marked length 0)).result_eq
      have hlt := (copyLoop_lt fhq.fd fhz.fd size.toNat 0).exec (Disk.answer file)
        ((Disk.marked length 0).sought fhq.fd qoffset fhz.fd zoffset)
      omega
    · by_contra hmoves
      have hcopied := hloop (.marked length qoffset.toNat) (Disk.length_marked length _)
      rw [hfd] at hcopied hmoves hapart
      exact not_copied_of_shared hapart hmoves hcopied
    · have hlength := Disk.length_marked length 0 (file fhq.fd)
      have hresult := (hloop (.marked length 0) (Disk.length_marked length 0)).result_eq
      rw [← hlength] at hbehind hshort hresult
      exact not_copied_of_chasing hfd hfile hbehind hshort.1 hshort.2 hresult
  · intro h k hk
    have hlength : (k.of file fhq.fd).length = length (file fhq.fd) := hk _
    obtain ⟨hresult, hdisk⟩ :=
      exec_nwServerCopy file k hq hz hqfd hzfd h.writable qoffset zoffset size
    intro last
    rw [show last.1.1 = _ from hresult, show last.2 = _ from hdisk, ← hlength]
    rw [← hlength] at hapart h
    exact exec_copyLoop_copied hapart h

end Requests

/-- Two files that are open at descriptors 5 and 6. -/
def twoOpen : FileTable :=
  ⟨[{ FileHandle.zero with fd := 5 }, { FileHandle.zero with fd := 6 }], 2, []⟩

theorem nwServerCopy_copies_twoOpen :
    let file (fd : Int) : FileNumbers := ⟨1, UInt64.ofNat fd.toNat⟩
    (∀ k : Disk, (∀ id, (k.bytes id).length = 3) →
      let last := exec (Disk.answer file) k (nwServerCopy twoOpen 1 0 2 0 3)
      Copied (k.of file 5) (k.of file 6) (last.2.of file 6) 0 0 3 last.1.1) ↔
    Copies file 3 { FileHandle.zero with fd := 5 } { FileHandle.zero with fd := 6 } 0 0 3 :=
  @nwServerCopy_copies_iff twoOpen 1 2 _ _ 0 1 0 0 3 (fun fd => ⟨1, UInt64.ofNat fd.toNat⟩)
    (fun _ => 3) rfl rfl (by decide) (by decide) fun hfile => absurd hfile (by decide)

/-- A byte that is copied from 0 to 1 of one handle is read at 1, and written at 2. -/
theorem not_nwServerCopy_copies :
    ¬∀ (t : FileTable) (qfhandle zfhandle : Int) (qi zi : Nat) (fhq fhz : FileHandle)
      (qoffset zoffset size : UInt32) (file : Int → FileNumbers) (k : Disk),
      t.find qfhandle = some (qi, fhq) → t.find zfhandle = some (zi, fhz) → -1 < fhq.fd →
      -1 < fhz.fd → fhz.is fhOpenedRo = false →
      RangesApart file fhq.fd fhz.fd qoffset.toNat zoffset.toNat
        (copySize (k.of file fhq.fd).length qoffset size) →
      let last := exec (Disk.answer file) k
        (nwServerCopy t qfhandle qoffset zfhandle zoffset size)
      Copied (k.of file fhq.fd) (k.of file fhz.fd) (last.2.of file fhz.fd) qoffset.toNat
        zoffset.toNat (copySize (k.of file fhq.fd).length qoffset size) last.1.1 := by
  intro hall
  have hcopied := hall twoOpen 1 1 0 0 _ _ 0 1 1 (fun _ => ⟨1, 1⟩) (.marked (fun _ => 2) 0)
    rfl rfl (by decide) (by decide) rfl fun _ => .inl (by decide)
  obtain ⟨hresult, hdisk⟩ := @exec_nwServerCopy twoOpen 1 1 _ _ _ _ (fun _ => ⟨1, 1⟩)
    (.marked (fun _ => 2) 0) rfl rfl (by decide) (by decide) rfl 0 1 1
  dsimp only at hcopied hresult hdisk
  rw [hresult, hdisk] at hcopied
  exact @not_copied_of_shared _ 0 1 1 _ _ (fun _ => .inl (by decide))
    (by decide) hcopied

end MarsNwe
