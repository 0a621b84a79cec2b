import Mathlib.Algebra.Ring.Int.Defs
import MarsNwe.File.MappedReads

/-! # When a mapping is as good as the file

Both ways to read are compared for a request that finds the file and the locks of
the other processes as they are then.
-/

namespace MarsNwe

open Prog Window RecordLock

/-! ## The size of a copy -/

section Sizes

variable {fh : FileHandle} {size : Int32} {offset : UInt32}

/-- A signed number and the same bits without sign. -/
theorem toInt_eq_toUInt32 (x : Int32) :
    x.toInt = if x.toUInt32.toNat < 2 ^ 31 then (x.toUInt32.toNat : Int)
      else x.toUInt32.toNat - 2 ^ 32 := by
  change x.toBitVec.toInt = _
  rw [BitVec.toInt_eq_toNat_cond, Int32.toNat_toBitVec]
  split <;> split <;> omega

theorem sizeT_eq_zero {n : Int32} : sizeT n = 0 ↔ n.toInt = 0 := by
  have hle := n.le_toInt
  have hlt := n.toInt_lt
  unfold sizeT
  omega

theorem sizeT_of_nonneg {n : Int32} (h : 0 ≤ n) : sizeT n = n.toInt.toNat := by
  have hle : 0 ≤ n.toInt := Int32.le_iff_toInt_le.mp h
  have hlt := n.toInt_lt
  unfold sizeT
  omega

theorem sizeT_of_neg {n : Int32} (h : ¬0 ≤ n) : ¬sizeT n < 2 ^ 63 := by
  have hlt : n.toInt < 0 := Int32.lt_iff_toInt_lt.mp (Int32.not_le.mp h)
  have hle := n.le_toInt
  unfold sizeT
  omega

theorem offset_lt_mapped (h : 0 < fh.sizeMmap) :
    offset < fh.sizeMmap.toUInt32 ↔ offset.toNat < fh.sizeMmap.toInt.toNat := by
  have hpos : 0 < fh.sizeMmap.toInt := Int32.lt_iff_toInt_lt.mp h
  have hsize := toInt_eq_toUInt32 fh.sizeMmap
  have hlt := UInt32.toNat_lt fh.sizeMmap.toUInt32
  rw [UInt32.lt_iff_toNat_lt]
  split at hsize <;> omega

/-- The size of a copy, as a number. -/
theorem toInt_mappedSize (h : 0 < fh.sizeMmap) (hoffset : offset.toNat < fh.sizeMmap.toInt.toNat)
    (hsize : 0 ≤ size) :
    (mappedSize fh offset size).toInt =
      (min size.toInt.toNat (fh.sizeMmap.toInt.toNat - offset.toNat) : Nat) := by
  have hpos : 0 < fh.sizeMmap.toInt := Int32.lt_iff_toInt_lt.mp h
  have hnonneg : 0 ≤ size.toInt := Int32.le_iff_toInt_le.mp hsize
  have hmapped := toInt_eq_toUInt32 fh.sizeMmap
  have hvalue := toInt_eq_toUInt32 size
  have hlt := size.toUInt32.toNat_lt
  have hlt' := fh.sizeMmap.toUInt32.toNat_lt
  have hsum := UInt32.toNat_add size.toUInt32 offset
  unfold mappedSize
  split
  next hclip =>
    have hclip' := UInt32.lt_iff_toNat_lt.mp hclip
    rw [toInt_eq_toUInt32, UInt32.toUInt32_toInt32, UInt32.toNat_sub_of_le]
    · split at hmapped <;> split at hvalue <;> split <;> omega
    · rw [UInt32.le_iff_toNat_le]
      split at hmapped <;> omega
  next hfits =>
    have hfits' := mt UInt32.lt_iff_toNat_lt.mpr hfits
    split at hmapped <;> split at hvalue <;> omega

theorem mappedSize_ne_zero_of_neg (h : 0 < fh.sizeMmap)
    (hoffset : offset.toNat < fh.sizeMmap.toInt.toNat) (hsize : ¬0 ≤ size) :
    (mappedSize fh offset size).toInt ≠ 0 := by
  have hpos : 0 < fh.sizeMmap.toInt := Int32.lt_iff_toInt_lt.mp h
  have hneg : size.toInt < 0 := Int32.lt_iff_toInt_lt.mp (Int32.not_le.mp hsize)
  have hmapped := toInt_eq_toUInt32 fh.sizeMmap
  have hlt' := fh.sizeMmap.toUInt32.toNat_lt
  unfold mappedSize
  split
  next =>
    rw [toInt_eq_toUInt32, UInt32.toUInt32_toInt32, UInt32.toNat_sub_of_le]
    · split at hmapped <;> split <;> omega
    · rw [UInt32.le_iff_toNat_le]
      split at hmapped <;> omega
  next => omega

end Sizes

/-! ## When the two ways agree -/

section Agree

variable {k : OpenFile} {fh : FileHandle} {size : Int32} {offset : UInt32} {page : Nat}
  {cfg : FileConfig}

/-- Another process has a lock in the range of a request, or there is no such range. -/
def OpenFile.LockedByOthers (k : OpenFile) (offset : UInt32) (size : Int32) : Prop :=
  ∀ range, flockRange offset size = some range → ∃ l ∈ k.locks, l.meets range.1 range.2 = true

/-- Another process has an exclusive lock in the range of a request. -/
def OpenFile.ExcludedByOthers (k : OpenFile) (offset : UInt32) (size : Int32) : Prop :=
  ∃ range, flockRange offset size = some range ∧
    ∃ l ∈ k.locks, l.kind = .write ∧ l.meets range.1 range.2 = true

/-- As far as a request goes, the file ends where the mapping does. -/
def EndsAlike (length mapped : Nat) (size : Int32) (offset : UInt32) : Prop :=
  if 0 ≤ size then
    min (min size.toInt.toNat maxTransfer) (length - offset.toNat) =
      min size.toInt.toNat (mapped - offset.toNat)
  else mapped ≤ offset.toNat

/-- No lock is in the way of one of the two ways only, and if none is in the way at all,
both ways find the same end. -/
def ReadsAlike (cfg : FileConfig) (k : OpenFile) (mapped : Nat) (size : Int32)
    (offset : UInt32) : Prop :=
  wants cfg.entry8Flags 0x100 = false ∧ k.ExcludedByOthers offset size ∨
    (wants cfg.entry8Flags 0x100 = true ∨ ¬k.LockedByOthers offset size) ∧
      EndsAlike k.bytes.length mapped size offset

theorem excludes_read_iff (kind : LockKind) : excludes kind .read = true ↔ kind = .write := by
  cases kind <;> decide

theorem getlk_read_eq_write :
    k.getlk .read offset size = some .write ↔ k.ExcludedByOthers offset size := by
  unfold OpenFile.getlk OpenFile.ExcludedByOthers
  cases hrange : flockRange offset size with
  | none => simp
  | some range =>
      simp only [Option.some.injEq, exists_eq_left']
      constructor
      · intro hfound
        obtain ⟨l, hl, hkind⟩ := Option.map_eq_some_iff.mp hfound
        have htest := List.find?_some hl
        exact ⟨l, List.mem_of_find?_eq_some hl, hkind, (Bool.and_eq_true_iff.mp htest).2⟩
      · rintro ⟨l, hl, hkind, hmeets⟩
        have hsome : (k.locks.find? fun l => excludes l.kind .read && l.meets range.1 range.2).isSome =
            true := by
          rw [List.find?_isSome]
          exact ⟨l, hl, Bool.and_eq_true_iff.mpr ⟨(excludes_read_iff _).mpr hkind, hmeets⟩⟩
        obtain ⟨l', hl'⟩ := Option.isSome_iff_exists.mp hsome
        have htest := List.find?_some hl'
        rw [Bool.and_eq_true, excludes_read_iff] at htest
        rw [hl', Option.map_some, htest.1]

theorem getlk_write_eq_none :
    k.getlk .write offset size = none ↔ ¬k.LockedByOthers offset size := by
  have hall : ∀ kind, excludes kind .write = true := by
    intro kind
    cases kind <;> rfl
  unfold OpenFile.getlk OpenFile.LockedByOthers
  cases hrange : flockRange offset size with
  | none => simp
  | some range =>
      simp only [Option.some.injEq, forall_eq', hall, Bool.true_and]
      rw [Option.map_eq_none_iff, List.find?_eq_none, not_exists]
      exact forall_congr' fun l => not_and.symm

theorem OpenFile.ExcludedByOthers.locked (h : k.ExcludedByOthers offset size) :
    k.LockedByOthers offset size := by
  obtain ⟨range, hrange, l, hl, -, hmeets⟩ := h
  intro range' hrange'
  obtain rfl : range = range' := Option.some.inj (hrange.symm.trans hrange')
  exact ⟨l, hl, hmeets⟩

theorem length_mapping (q n : Nat) : (k.mapping q n).length = n := by
  rw [OpenFile.mapping, length_readAt, List.length_append, List.length_replicate]
  omega

theorem mapping_eq_readAt {q n : Nat} (h : n ≤ k.bytes.length - q) :
    k.mapping q n = readAt k.bytes q n := by
  apply List.ext_getElem?
  intro i
  rw [OpenFile.mapping, getElem?_readAt, getElem?_readAt]
  split
  next => rw [List.getElem?_append_left (by omega)]
  next => rfl

theorem le_accessible (k : OpenFile) (page : Nat) : k.bytes.length ≤ k.accessible page :=
  Nat.le_add_right _ _

theorem answered_natCast (n : Nat) (data : List UInt8) :
    answered (n, data) = ((n : Int), data) := by
  have hn : ¬(n : Int) = -1 := by omega
  simp only [answered, if_neg hn]

theorem answered_fileRead_of_nonneg (h : 0 ≤ size) :
    answered (fileRead k size offset) =
      let data := readAt k.bytes offset.toNat (min size.toInt.toNat maxTransfer)
      ((data.length : Int), data) := by
  have hlt := size.toInt_lt
  have hsmall : sizeT size < 2 ^ 63 := by
    rw [sizeT_of_nonneg h]
    omega
  rw [fileRead, OpenFile.readData, if_pos hsmall, ← sizeT_of_nonneg h]
  exact answered_natCast _ _

theorem answered_fileRead_of_neg (h : ¬0 ≤ size) :
    answered (fileRead k size offset) = (0, []) := by
  rw [fileRead, OpenFile.readData, if_neg (sizeT_of_neg h)]
  rfl

/-- Both ways deliver the same when nothing is locked. -/
theorem mappedCopy_eq_iff (h : 0 < fh.sizeMmap) :
    (mappedCopy page k fh size offset).map answered = some (answered (fileRead k size offset)) ↔
      EndsAlike k.bytes.length fh.sizeMmap.toInt.toNat size offset := by
  unfold mappedCopy EndsAlike
  by_cases hoffset : offset < fh.sizeMmap.toUInt32
  · rw [if_pos hoffset]
    rw [offset_lt_mapped h] at hoffset
    dsimp only
    by_cases hsize : 0 ≤ size
    · have hcount := toInt_mappedSize h hoffset hsize
      have hnonneg : 0 ≤ mappedSize fh offset size := by
        rw [Int32.le_iff_toInt_le, hcount]
        exact Int.natCast_nonneg _
      have hsizeT : sizeT (mappedSize fh offset size) = _ :=
        (sizeT_of_nonneg hnonneg).trans ((congrArg Int.toNat hcount).trans (Int.toNat_natCast _))
      rw [answered_fileRead_of_nonneg hsize, if_pos hsize, hsizeT, hcount, ← length_readAt]
      constructor
      · intro heq
        split at heq
        next =>
          have hlength := congrArg (·.2.length) (Option.some.inj heq)
          simp only [answered, length_mapping] at hlength
          exact hlength.symm
        next => contradiction
      · intro hends
        -- the copy stays before the end of the file
        have hdata := @length_readAt _ k.bytes offset.toNat
          (min size.toInt.toNat maxTransfer)
        have hinside := le_accessible k page
        rw [← hends, if_pos (by omega), Option.map_some, answered_natCast,
          mapping_eq_readAt (by omega)]
        refine congrArg (fun l => some (_, l)) ?_
        rw [readAt, readAt, List.take_eq_take_iff, List.length_take, List.length_drop]
        omega
    · rw [answered_fileRead_of_neg hsize, if_neg hsize]
      refine ⟨fun heq => ?_, fun hends => absurd hoffset (by omega)⟩
      split at heq
      next =>
        have hlength := congrArg (·.2.length) (Option.some.inj heq)
        simp only [answered, length_mapping, List.length_nil] at hlength
        exact absurd (sizeT_eq_zero.mp hlength) (mappedSize_ne_zero_of_neg h hoffset hsize)
      next => contradiction
  · rw [if_neg hoffset]
    rw [offset_lt_mapped h] at hoffset
    by_cases hsize : 0 ≤ size
    · have hend : fh.sizeMmap.toInt.toNat - offset.toNat = 0 := by omega
      rw [answered_fileRead_of_nonneg hsize, if_pos hsize, hend, Nat.min_zero, ← length_readAt]
      constructor
      · intro heq
        exact (congrArg (·.2.length) (Option.some.inj heq)).symm
      · intro hends
        rw [List.length_eq_zero_iff.mp hends]
        rfl
    · rw [answered_fileRead_of_neg hsize, if_neg hsize]
      exact ⟨fun _ => by omega, fun _ => rfl⟩

theorem unlocked_read_iff :
    unlocked cfg k .read offset size = true ↔
      wants cfg.entry8Flags 0x100 = true ∨ ¬k.ExcludedByOthers offset size := by
  rw [unlocked, Bool.or_eq_true, decide_eq_true_iff, ne_eq, getlk_read_eq_write]

theorem unlocked_write_iff :
    unlocked cfg k .write offset size = true ↔
      wants cfg.entry8Flags 0x100 = true ∨ ¬k.LockedByOthers offset size := by
  rw [unlocked, Bool.or_eq_true, decide_eq_true_iff, getlk_write_eq_none]

/-- A copy is never answered like a lock that is in the way. -/
theorem mappedCopy_ne_locked :
    (mappedCopy page k fh size offset).map answered ≠ some (answered (-0xa2, [])) := by
  unfold mappedCopy
  split
  next =>
    dsimp only
    split
    next =>
      intro heq
      have hboth := Option.some.inj heq
      have hlength := congrArg (·.2.length) hboth
      simp only [answered, length_mapping, List.length_nil] at hlength
      have hresult := congrArg (·.1) hboth
      simp only [answered, sizeT_eq_zero.mp hlength] at hresult
      exact absurd hresult (by decide)
    next => exact Option.some_ne_none _ ∘ Eq.symm
  next => exact fun heq => absurd (Option.some.inj heq) (by decide)

/-- A read from the mapping is answered like one from the file. -/
theorem mappedRead_eq_iff (h : 0 < fh.sizeMmap) :
    (mappedRead page cfg k fh size offset).map answered =
        some (answered (plainRead cfg k size offset)) ↔
      ReadsAlike cfg k fh.sizeMmap.toInt.toNat size offset := by
  unfold mappedRead plainRead ReadsAlike
  by_cases hlocked : unlocked cfg k .write offset size = true
  · have hfree := unlocked_write_iff.mp hlocked
    have hread : wants cfg.entry8Flags 0x100 = true ∨ ¬k.ExcludedByOthers offset size :=
      hfree.imp_right (mt OpenFile.ExcludedByOthers.locked)
    rw [if_pos hlocked, if_pos (unlocked_read_iff.mpr hread), mappedCopy_eq_iff h]
    constructor
    · exact fun hends => .inr ⟨hfree, hends⟩
    · rintro (⟨hskip, hexcluded⟩ | ⟨-, hends⟩)
      · rcases hread with hskip' | hnot
        · exact absurd (hskip.symm.trans hskip') Bool.false_ne_true
        · exact absurd hexcluded hnot
      · exact hends
  · obtain ⟨hskip, hothers⟩ := not_or.mp (mt unlocked_write_iff.mpr hlocked)
    rw [if_neg hlocked]
    by_cases hexcluded : k.ExcludedByOthers offset size
    · have hblocked : ¬unlocked cfg k .read offset size = true := fun hread =>
        (unlocked_read_iff.mp hread).elim hskip (absurd hexcluded)
      rw [if_neg hblocked]
      exact ⟨fun _ => .inl ⟨eq_false_of_ne_true hskip, hexcluded⟩, fun _ => rfl⟩
    · rw [if_pos (unlocked_read_iff.mpr (.inr hexcluded))]
      refine ⟨fun heq => absurd heq mappedCopy_ne_locked, ?_⟩
      rintro (⟨-, hexcluded'⟩ | ⟨hfree, -⟩)
      · exact absurd hexcluded' hexcluded
      · exact (hfree.elim hskip hothers).elim

end Agree

/-! ## With mappings and without -/

section Compare

variable {page : Nat} {mappable : Bool} {cfg : FileConfig} {i : Nat} {t : FileTable}
  {fh : FileHandle} {opened : OpenFile}

/-- The length of the mapping that is made when the file is opened. -/
def mappedLength (mappable : Bool) (length : Nat) : Option Nat :=
  (mappingSize mappable length).map (·.toInt.toNat)

theorem pos_of_mappingSize {length : Nat} {size : Int32}
    (h : mappingSize mappable length = some size) : 0 < size := by
  unfold mappingSize at h
  split at h
  next hboth => exact Option.some.inj h ▸ hboth.2
  next => contradiction

/-- A read without mappings always ends, with one answer. -/
theorem exists_readAnswers_plain {s : FileTable × Nat} {mapping : Option Int32}
    (h : ReaderOk mapping i s) (hplain : ∀ fh, s.1.handles[i]? = some fh →
      (cfg.useMmap && fh.pMmap) = false) (bytes : List UInt8) (locks : List RangeLock)
    (size : Int32) (offset : UInt32) (out : Int × List UInt8) :
    (∃ t' k', ReadAnswers page mappable cfg i s.1 ⟨bytes, locks, s.2⟩ size offset out t' k') ↔
      answered (plainRead cfg ⟨bytes, locks, s.2⟩ size offset) = out := by
  obtain ⟨fh, hslot, hreading⟩ := h
  constructor
  · rintro ⟨t', k', hread⟩
    exact ((readAnswers_plain hslot hreading (hplain fh hslot)).mp hread).1
  · exact fun hout => ⟨_, _, (readAnswers_plain hslot hreading (hplain fh hslot)).mpr
      ⟨hout, rfl, rfl⟩⟩

/-- A read from a mapping ends as the copy does. -/
theorem exists_readAnswers_mapped {s : FileTable × Nat} {mapping : Option Int32}
    (hslot : s.1.handles[i]? = some fh) (h : OpenedRo mapping fh s.2)
    (hmapped : (cfg.useMmap && fh.pMmap) = true) (bytes : List UInt8) (locks : List RangeLock)
    (size : Int32) (offset : UInt32) (out : Int × List UInt8) :
    (∃ t' k', ReadAnswers page mappable cfg i s.1 ⟨bytes, locks, s.2⟩ size offset out t' k') ↔
      (mappedRead page cfg ⟨bytes, locks, s.2⟩ fh size offset).map answered = some out := by
  rw [Option.map_eq_some_iff]
  constructor
  · rintro ⟨t', k', hread⟩
    exact ((readAnswers_mapped hslot h hmapped).mp hread).1
  · exact fun hout => ⟨_, _, (readAnswers_mapped hslot h hmapped).mpr ⟨hout, rfl, rfl⟩⟩

/-- For a file that has been opened for reading and read from, the next read has the same
answers with mappings and without, exactly when the file is not mapped or the locks and
the end of the file do not tell the two ways apart. -/
theorem mappedReads_agree_iff (hslot : t.handles[i]? = some fh)
    (hopen : OpenedRo none fh opened.pos) {s s' : FileTable × Nat}
    (hmapped : ReadsFrom page mappable (cfg.mapping true) i opened t fh s)
    (hplain : ReadsFrom page mappable (cfg.mapping false) i opened t fh s')
    (bytes : List UInt8) (locks : List RangeLock) (size : Int32) (offset : UInt32) :
    (∀ out,
      (∃ t' k', ReadAnswers page mappable (cfg.mapping true) i s.1 ⟨bytes, locks, s.2⟩ size
        offset out t' k') ↔
      ∃ t' k', ReadAnswers page mappable (cfg.mapping false) i s'.1 ⟨bytes, locks, s'.2⟩ size
        offset out t' k') ↔
    ∀ mapped, mappedLength mappable opened.bytes.length = some mapped →
      ReadsAlike cfg ⟨bytes, locks, 0⟩ mapped size offset := by
  obtain ⟨fh₁, hslot₁, hreading⟩ :=
    readerOk_of_readsFrom hslot (fun _ _ => openedRo_mapFile hopen) hmapped
  have hunmapped := readerOk_of_readsFrom hslot (fun _ _ => openedRo_unmapped hopen) hplain
  have hright := @exists_readAnswers_plain page mappable
    (cfg.mapping false) _ _ _ hunmapped (fun _ _ => Bool.false_and _) bytes locks size offset
  simp only [hright]
  have hpMmap := hreading.mapped
  unfold mappedLength
  cases hmapping : mappingSize mappable opened.bytes.length with
  | none =>
      rw [hmapping] at hpMmap
      have hleft := @exists_readAnswers_plain page mappable
        (cfg.mapping true) _ _ _ ⟨fh₁, hslot₁, hreading⟩ (fun fh hfh => by
          rw [← Option.some.inj (hslot₁.symm.trans hfh), hpMmap]
          rfl) bytes locks size offset
      refine iff_of_true (fun out => hleft out) fun mapped hnone => ?_
      contradiction
  | some length =>
      rw [hmapping] at hpMmap
      have hsize := hreading.size_eq length hmapping
      have hleft := @exists_readAnswers_mapped page mappable
        (cfg.mapping true) _ _ _ _ hslot₁ hreading (by rw [hpMmap]; rfl) bytes locks size offset
      have hpos : 0 < fh₁.sizeMmap := by
        rw [hsize]
        exact pos_of_mappingSize hmapping
      have halike := @mappedRead_eq_iff
        ⟨bytes, locks, s.2⟩ _ size offset page (cfg.mapping true) hpos
      rw [hsize] at halike
      simp only [hleft, Option.map_some, Option.some.injEq, forall_eq']
      refine Iff.trans ⟨fun hall => ?_, fun heq out => ?_⟩ halike
      · exact (hall _).mpr rfl
      · rw [heq, Option.some.injEq]
        exact Iff.rfl

end Compare

/-- A server that looks for locks. -/
def lockConfig : FileConfig := ⟨80, 0, false, fun _ => 0, fun _ => 3, fun _ => 0, fun _ => 0⟩

/-- The table with one file that is open at descriptor 5, not mapped yet. -/
def oneOpen : FileTable := ⟨[{ FileHandle.zero with fd := 5 }], 1, []⟩

theorem openedRo_oneOpen : OpenedRo none { FileHandle.zero with fd := 5 } 0 :=
  ⟨by decide, rfl, rfl, rfl, nofun, fun _ => rfl⟩

/-- The table after a file of one byte has been mapped. -/
def oneMapped : FileTable :=
  ⟨[{ FileHandle.zero with fd := 5, offd := 1, pMmap := true, sizeMmap := 1 }], 1, []⟩

theorem readsFrom_mapped (byte : UInt8) :
    ReadsFrom 4096 true (lockConfig.mapping true) 0 ⟨[byte], [], 0⟩ oneOpen
      { FileHandle.zero with fd := 5 } (oneMapped, 1) :=
  ⟨_, _, ⟨_, _, ⟨rfl, rfl⟩, _, _, ⟨rfl, rfl⟩, rfl, rfl⟩, .refl⟩

theorem readsFrom_unmapped (byte : UInt8) :
    ReadsFrom 4096 true (lockConfig.mapping false) 0 ⟨[byte], [], 0⟩ oneOpen
      { FileHandle.zero with fd := 5 } (oneOpen, 0) :=
  ⟨_, _, ⟨rfl, rfl⟩, .refl⟩

/-- A file that is read while it is as long as when it was opened. -/
theorem mappedReads_agree_oneOpen :
    (∀ out,
      (∃ t' k', ReadAnswers 4096 true (lockConfig.mapping true) 0 oneMapped ⟨[0x42], [], 1⟩ 1 0
        out t' k') ↔
      ∃ t' k', ReadAnswers 4096 true (lockConfig.mapping false) 0 oneOpen ⟨[0x42], [], 0⟩ 1 0
        out t' k') ↔
    ∀ mapped, mappedLength true 1 = some mapped →
      ReadsAlike lockConfig ⟨[0x42], [], 0⟩ mapped 1 0 :=
  mappedReads_agree_iff rfl openedRo_oneOpen (readsFrom_mapped 0x41) (readsFrom_unmapped 0x41)
    [0x42] [] 1 0

/-- A byte that another process appends is read without mappings, but not with them. -/
theorem not_mappedReads_agree :
    ¬∀ (page : Nat) (mappable : Bool) (cfg : FileConfig) (i : Nat) (t : FileTable)
      (fh : FileHandle) (opened : OpenFile) (s s' : FileTable × Nat) (bytes : List UInt8)
      (locks : List RangeLock) (size : Int32) (offset : UInt32) (out : Int × List UInt8),
      t.handles[i]? = some fh → OpenedRo none fh opened.pos →
      ReadsFrom page mappable (cfg.mapping true) i opened t fh s →
      ReadsFrom page mappable (cfg.mapping false) i opened t fh s' →
      ((∃ t' k', ReadAnswers page mappable (cfg.mapping true) i s.1 ⟨bytes, locks, s.2⟩ size
        offset out t' k') ↔
      ∃ t' k', ReadAnswers page mappable (cfg.mapping false) i s'.1 ⟨bytes, locks, s'.2⟩ size
        offset out t' k') := by
  intro hall
  have hsame := hall 4096 true lockConfig 0 oneOpen _ ⟨[0x41], [], 0⟩ _ _ [0x41, 0x42] [] 2 0
    (2, [0x41, 0x42]) rfl openedRo_oneOpen (readsFrom_mapped 0x41) (readsFrom_unmapped 0x41)
  have hmapped : OpenedRo (some 1) _ 1 :=
    @openedRo_mapFile 4096 true _ lockConfig _
      ⟨[0x41], [], 0⟩ openedRo_oneOpen _ ⟨_, _, ⟨rfl, rfl⟩, _, _, ⟨rfl, rfl⟩, rfl, rfl⟩
  have hplain := (@exists_readAnswers_plain 4096 true (lockConfig.mapping false) 0
    (oneOpen, 0) _ ⟨_, rfl, openedRo_oneOpen⟩
    (fun _ _ => Bool.false_and _) [0x41, 0x42] [] 2 0 (2, [0x41, 0x42])).mpr (by decide)
  have honly := (@exists_readAnswers_mapped _ _ _ 0 _ (oneMapped, 1) _ rfl hmapped rfl
    [0x41, 0x42] [] 2 0 (2, [0x41, 0x42])).mp (hsame.mpr hplain)
  exact absurd honly (by decide)

end MarsNwe
