import MarsNwe.Lib.Formatted
import MarsNwe.Lib.Links
import MarsNwe.Tools
import MarsNwe.Trustee.Writers

/-! # Trustees in symbolic links

The trustees of a file are links in a directory that is named after the device and the
bytes of the inode. A link has the id for its name and the rights for its text; the id 0
stands for the inherited mask. Two more kinds of links lie beside them: the name of each
file that was given trustees, and the serial number of the volume.
-/

namespace MarsNwe

open Formatted Links

/-! ## Names -/

/-- `%x/%x/%x/%x/` and a letter with the last byte behind it. -/
def storePath (kind : Char) (id : FileId) : List (List UInt8) :=
  [hexText id.dev.toNat, hexText (id.ino.toNat / 2 ^ 24), hexText (id.ino.toNat / 2 ^ 16 % 256),
    hexText (id.ino.toNat / 2 ^ 8 % 256), chr kind :: chr '.' :: hexText (id.ino.toNat % 256)]

/-- The directory of the trustees of a file. -/
def trusteePath (id : FileId) : List (List UInt8) := storePath 't' id

/-- The link to the name of a file. -/
def namePath (id : FileId) : List (List UInt8) := storePath 'n' id

/-- The link of a trustee. -/
def entryPath (id : FileId) (trustee : UInt32) : List (List UInt8) :=
  trusteePath id ++ [hexText trustee.toNat]

/-- `ts`, the link with the serial number. -/
def sernumPath : List (List UInt8) := [[chr 't', chr 's']]

/-- The length of a path, behind a directory whose name is so long. -/
def textLength (base : Nat) : List (List UInt8) → Nat
  | [] => base
  | name :: path => textLength (base + 1 + name.length) path

/-! ## The store -/

/-- The links that are made. -/
inductive StoredLink : List (List UInt8) × List UInt8 → Prop where
  | trustee (id : FileId) (e : IdsTrustee) :
      StoredLink (entryPath id e.id, hex 4 e.trustee.toNat)
  | name (id : FileId) (path : List UInt8) : StoredLink (namePath id, path)
  | sernum (n : UInt32) : StoredLink (sernumPath, hexText n.toNat)

/-- The trustee directory of a volume. -/
structure TrusteeStore where
  links : Tree (List UInt8) (List UInt8)
  nodup : (links.map Prod.fst).Nodup
  stored : ∀ l ∈ links, StoredLink l

namespace TrusteeStore

def empty : TrusteeStore where
  links := []
  nodup := List.nodup_nil
  stored := fun _ hl => absurd hl List.not_mem_nil

/-- A link is removed, if it is there. -/
def remove (s : TrusteeStore) (path : List (List UInt8)) : TrusteeStore where
  links := unlink s.links path
  nodup := nodup_unlink s.nodup path
  stored := fun l hl => s.stored l (mem_unlink.mp hl).1

/-- A link is removed and made again, `place` links from the start. -/
def replace (place : Nat) (s : TrusteeStore) {l : List (List UInt8) × List UInt8}
    (hl : StoredLink l) : TrusteeStore where
  links := symlink place (unlink s.links l.1) l.1 l.2
  nodup := nodup_symlink (nodup_unlink s.nodup l.1) place (fun _ h => (mem_unlink.mp h).2) l.2
  stored := fun l' hl' => by
    rcases mem_symlink.mp hl' with rfl | hold
    · exact hl
    · exact s.stored l' (mem_unlink.mp hold).1

/-- `sscanf` with `%x`; a number that does not fit becomes the largest. -/
def scanX (text : List UInt8) : Option UInt32 :=
  (scanHex (fun _ _ => 0xffffffff) text).map Prod.fst

/-- The rights in a link, of which 254 bytes are read. -/
def readRights (text : List UInt8) : Option Rights := (scanX (text.take 254)).map UInt32.toUInt16

/-- `put_trustee_to_disk`; none, if the name does not fit its buffer. -/
def putTrusteeToDisk (base : Nat) (place : TrusteeStore → Nat) (s : TrusteeStore) (id : FileId)
    (e : IdsTrustee) : Option TrusteeStore :=
  if textLength base (entryPath id e.id) ≤ 255 then
    some (s.replace (place s) (StoredLink.trustee id e))
  else none

/-- `get_trustee_from_disk`: the outer `none`, if the name does not fit its buffer. -/
def getTrusteeFromDisk (base : Nat) (s : TrusteeStore) (id : FileId) (trustee : UInt32) :
    Option (Option Rights) :=
  if textLength base (entryPath id trustee) ≤ 255 then
    some ((readlink s.links (entryPath id trustee)).bind readRights)
  else none

/-- `del_trustee_from_disk`. -/
def delTrusteeFromDisk (base : Nat) (s : TrusteeStore) (id : FileId) (trustee : UInt32) :
    Option (Int × TrusteeStore) :=
  if textLength base (entryPath id trustee) ≤ 255 then
    some (if (readlink s.links (entryPath id trustee)).isSome then 0 else -0xfe,
      s.remove (entryPath id trustee))
  else none

/-- `creat_trustee_path`. -/
def creatTrusteePath (base : Nat) (place : TrusteeStore → Nat) (s : TrusteeStore) (id : FileId)
    (path : List UInt8) : Option TrusteeStore :=
  if textLength base (namePath id) ≤ 255 then some (s.replace (place s) (StoredLink.name id path))
  else none

/-- The links in the directory of the trustees of a file, and the one to its name, are
removed. -/
def freeFile (s : TrusteeStore) (id : FileId) : TrusteeStore where
  links := s.links.filter fun l => (behind (trusteePath id) l.1).isNone ∧ l.1 ≠ namePath id
  nodup := s.nodup.sublist (List.filter_sublist.map Prod.fst)
  stored := fun l hl => s.stored l (List.mem_filter.mp hl).1

/-- `tru_free_file_trustees_from_disk`. -/
def truFreeFileTrusteesFromDisk (base : Nat) (s : TrusteeStore) (id : FileId) :
    Option TrusteeStore :=
  if textLength base (trusteePath id) ≤ 255 ∧ textLength base (namePath id) ≤ 255 then
    some (s.freeFile id)
  else none

/-- `tru_vol_sernum` with mode 0. -/
def sernum (s : TrusteeStore) : UInt32 := ((readlink s.links sernumPath).bind scanX).getD 0

/-- `tru_vol_sernum` with another mode. -/
def nextSernum (place : TrusteeStore → Nat) (s : TrusteeStore) : TrusteeStore :=
  let sernum := if s.sernum + 1 = 0xffffffff then 1 else s.sernum + 1
  s.replace (place s) (StoredLink.sernum sernum)

/-- An entry of a trustee directory in the loop of `create_trustee_node`. -/
def readEntry (entry : List UInt8 × Option (List UInt8)) : Option IdsTrustee :=
  if entry.1.head? = some (chr '.') then none
  else do
    let id ← scanX entry.1
    let trustee ← entry.2.bind readRights
    some ⟨id, trustee⟩

end TrusteeStore

/-! ## Paths -/

theorem storePath_injective (kind : Char) : Function.Injective (storePath kind) := by
  intro id id' h
  have hdev := hexText_injective (List.cons.inj h).1
  have htail := (List.cons.inj h).2
  have hbyte3 := hexText_injective (List.cons.inj htail).1
  have htail := (List.cons.inj htail).2
  have hbyte2 := hexText_injective (List.cons.inj htail).1
  have htail := (List.cons.inj htail).2
  have hbyte1 := hexText_injective (List.cons.inj htail).1
  have hlast := (List.cons.inj (List.cons.inj htail).2).1
  have hbyte0 := hexText_injective (List.cons.inj (List.cons.inj hlast).2).2
  obtain ⟨dev, ino⟩ := id
  obtain ⟨dev', ino'⟩ := id'
  rw [FileId.mk.injEq, ← UInt32.toNat_inj, ← UInt32.toNat_inj]
  dsimp only at *
  exact ⟨hdev, by omega⟩

theorem entryPath_inj {id id' : FileId} {trustee trustee' : UInt32} :
    entryPath id trustee = entryPath id' trustee' ↔ id = id' ∧ trustee = trustee' := by
  constructor
  · intro h
    obtain ⟨hdir, hname⟩ := List.append_inj' h rfl
    have hid := hexText_injective (List.cons.inj hname).1
    exact ⟨storePath_injective 't' hdir, UInt32.toNat_inj.mp hid⟩
  · rintro ⟨rfl, rfl⟩
    rfl

/-! ## Reading -/

namespace TrusteeStore

variable {s : TrusteeStore} {id : FileId} {trustee : UInt32} {rights : Rights}

theorem scanX_hexText (n : UInt32) : scanX (hexText n.toNat) = some n := by
  unfold scanX
  rw [scanHex_hexText _ n.toNat_lt]
  exact congrArg some (UInt32.ofNat_toNat)

theorem readRights_hex (rights : Rights) : readRights (hex 4 rights.toNat) = some rights := by
  have hlt := rights.toNat_lt
  have hsize : rights.toNat < UInt32.size := Nat.lt_trans hlt (by decide)
  have hshort : (hex 4 rights.toNat).take 254 = hex 4 rights.toNat :=
    List.take_of_length_le (by rw [length_hex]; omega)
  unfold readRights scanX
  rw [hshort, scanHex_hex _ (by omega) (by omega), Option.map_some, Option.map_some,
    Option.some.injEq, ← UInt16.toNat_inj, UInt32.toNat_toUInt16, UInt32.toNat_ofNat_of_lt' hsize]
  omega

/-- A link in a trustee directory is one of a trustee. -/
theorem eq_of_mem_links {name text : List UInt8} (h : (trusteePath id ++ [name], text) ∈ s.links) :
    ∃ e : IdsTrustee, name = hexText e.id.toNat ∧ text = hex 4 e.trustee.toNat := by
  have hstored := s.stored _ h
  generalize hpath : trusteePath id ++ [name] = path at hstored
  generalize text = text' at hstored
  cases hstored with
  | trustee id' e => exact ⟨e, (List.cons.inj (List.append_inj' hpath rfl).2).1, rfl⟩
  | name id' path =>
      exact absurd (congrArg List.length hpath) (by simp [trusteePath, namePath, storePath])
  | sernum n =>
      exact absurd (congrArg List.length hpath) (by simp [trusteePath, sernumPath, storePath])

theorem readEntry_hexText (e : IdsTrustee) :
    readEntry (hexText e.id.toNat, some (hex 4 e.trustee.toNat)) = some e := by
  have hdot : (hexText e.id.toNat).head? ≠ some (chr '.') := by
    intro hhead
    obtain ⟨d, hd, hdigit⟩ := mem_hex (List.mem_of_head? hhead)
    have hvalue := (hexDigit_spec hd).1
    rw [← hdigit] at hvalue
    cases hvalue
  unfold readEntry
  rw [if_neg hdot, scanX_hexText, Option.bind_some, readRights_hex]
  rfl

/-- The entries that are read are the links of the trustees. -/
theorem readEntry_eq_some {entry : List UInt8 × Option (List UInt8)} {e : IdsTrustee}
    (hmem : entry ∈ readdir s.links (trusteePath id)) (h : readEntry entry = some e) :
    entry = (hexText e.id.toNat, some (hex 4 e.trustee.toNat)) := by
  obtain ⟨name, _ | text⟩ := entry
  · unfold readEntry at h
    split at h
    · cases h
    · simp at h
  · obtain ⟨e', rfl, rfl⟩ := eq_of_mem_links (link_mem_readdir.mp hmem)
    rw [readEntry_hexText] at h
    obtain rfl := Option.some.inj h
    rfl

/-- A file has one link for an id. -/
theorem entry_unique {entry entry' : List UInt8 × Option (List UInt8)} {e e' : IdsTrustee}
    (hmem : entry ∈ readdir s.links (trusteePath id)) (h : readEntry entry = some e)
    (hmem' : entry' ∈ readdir s.links (trusteePath id)) (h' : readEntry entry' = some e')
    (hid : e.id = e'.id) : entry = entry' := by
  have hentry := readEntry_eq_some hmem h
  have hentry' := readEntry_eq_some hmem' h'
  rw [hentry] at hmem ⊢
  rw [hentry', ← hid] at hmem' ⊢
  have hsame := List.inj_on_of_nodup_map s.nodup (link_mem_readdir.mp hmem)
    (link_mem_readdir.mp hmem') rfl
  rw [(Prod.mk.inj hsame).2]

/-- The trustees of a file in the order of `readdir`, as `create_trustee_node` goes through
them. -/
def trusteeDir (s : TrusteeStore) (id : FileId) : TrusteeDir where
  entries := (readdir s.links (trusteePath id)).filterMap readEntry
  nodup := by
    rw [List.map_filterMap, List.Nodup, List.pairwise_filterMap]
    refine (nodup_readdir s.links (trusteePath id)).imp_of_mem fun hmem hmem' hne i hi i' hi' => ?_
    obtain ⟨e, he, rfl⟩ := Option.map_eq_some_iff.mp hi
    obtain ⟨e', he', rfl⟩ := Option.map_eq_some_iff.mp hi'
    exact fun hid => hne (entry_unique hmem he hmem' he' hid)

theorem mem_trusteeDir {e : IdsTrustee} :
    e ∈ (s.trusteeDir id).entries ↔ (entryPath id e.id, hex 4 e.trustee.toNat) ∈ s.links := by
  show e ∈ (readdir s.links (trusteePath id)).filterMap readEntry ↔ _
  rw [List.mem_filterMap]
  constructor
  · intro ⟨entry, hmem, h⟩
    rw [readEntry_eq_some hmem h] at hmem
    exact link_mem_readdir.mp hmem
  · intro hlink
    exact ⟨_, link_mem_readdir.mpr hlink, readEntry_hexText e⟩

theorem get?_trusteeDir :
    (s.trusteeDir id).get? trustee = some rights ↔
      (entryPath id trustee, hex 4 rights.toNat) ∈ s.links :=
  TrusteeDir.get?_eq_some.trans mem_trusteeDir

/-- What `get_trustee_from_disk` reads is the entry that the directory shows. -/
theorem readlink_entryPath :
    (readlink s.links (entryPath id trustee)).bind readRights = (s.trusteeDir id).get? trustee := by
  apply Option.ext
  intro rights
  rw [get?_trusteeDir, Option.bind_eq_some_iff]
  constructor
  · intro ⟨text, hread, hrights⟩
    have hlink := (readlink_eq_some s.nodup).mp hread
    obtain ⟨e, -, rfl⟩ := eq_of_mem_links hlink
    rw [readRights_hex] at hrights
    obtain rfl := Option.some.inj hrights
    exact hlink
  · intro hlink
    exact ⟨_, (readlink_eq_some s.nodup).mpr hlink, readRights_hex rights⟩

/-! ## Writing -/

theorem hex_rights_inj {rights rights' : Rights}
    (h : hex 4 rights.toNat = hex 4 rights'.toNat) : rights = rights' := by
  have hread := readRights_hex rights
  rw [h, readRights_hex] at hread
  exact (Option.some.inj hread).symm

/-- A link that is made again is the last one of its path. -/
theorem mem_replace {place : Nat} {l l' : List (List UInt8) × List UInt8} {hl : StoredLink l} :
    l' ∈ (s.replace place hl).links ↔ l' = l ∨ l' ∈ s.links ∧ l'.1 ≠ l.1 :=
  mem_symlink.trans (or_congr_right mem_unlink)

theorem get?_replace_entry (place : Nat) (e : IdsTrustee) (id' : FileId) (trustee : UInt32) :
    ((s.replace place (StoredLink.trustee id e)).trusteeDir id').get? trustee =
      if id' = id ∧ trustee = e.id then some e.trustee else (s.trusteeDir id').get? trustee := by
  apply Option.ext
  intro rights
  rw [get?_trusteeDir, mem_replace, Prod.mk.injEq, entryPath_inj]
  split
  next hsame =>
    rw [Option.some.injEq]
    constructor
    · rintro (⟨-, hrights⟩ | ⟨-, hne⟩)
      · exact (hex_rights_inj hrights).symm
      · exact absurd (entryPath_inj.mpr hsame) hne
    · rintro rfl
      exact .inl ⟨hsame, rfl⟩
  next hother =>
    rw [get?_trusteeDir]
    constructor
    · rintro (⟨hsame, -⟩ | ⟨hmem, -⟩)
      · exact absurd hsame hother
      · exact hmem
    · intro hmem
      exact .inr ⟨hmem, fun h => hother (entryPath_inj.mp h)⟩

/-- What is not a link of a trustee changes no trustees. -/
theorem get?_replace_other (place : Nat) {l : List (List UInt8) × List UInt8} (hl : StoredLink l)
    (hother : ∀ id trustee, l.1 ≠ entryPath id trustee) (id : FileId) (trustee : UInt32) :
    ((s.replace place hl).trusteeDir id).get? trustee = (s.trusteeDir id).get? trustee := by
  apply Option.ext
  intro rights
  rw [get?_trusteeDir, get?_trusteeDir, mem_replace]
  constructor
  · rintro (rfl | ⟨hmem, -⟩)
    · exact absurd rfl (hother id trustee)
    · exact hmem
  · intro hmem
    exact .inr ⟨hmem, fun h => hother id trustee h.symm⟩

theorem get?_remove_entry (id : FileId) (removed : UInt32) (id' : FileId) (trustee : UInt32) :
    ((s.remove (entryPath id removed)).trusteeDir id').get? trustee =
      if id' = id ∧ trustee = removed then none else (s.trusteeDir id').get? trustee := by
  apply Option.ext
  intro rights
  rw [get?_trusteeDir]
  show _ ∈ unlink s.links _ ↔ _
  rw [mem_unlink]
  split
  next hsame =>
    exact iff_of_false (fun h => h.2 (entryPath_inj.mpr hsame)) (by simp)
  next hother =>
    rw [get?_trusteeDir]
    exact and_iff_left fun h => hother (entryPath_inj.mp h)

theorem namePath_ne_entryPath (file id : FileId) (trustee : UInt32) :
    namePath file ≠ entryPath id trustee :=
  fun h => absurd (congrArg List.length h) (by simp [entryPath, trusteePath, namePath, storePath])

theorem sernumPath_ne_entryPath (id : FileId) (trustee : UInt32) :
    sernumPath ≠ entryPath id trustee :=
  fun h => absurd (congrArg List.length h) (by simp [entryPath, trusteePath, sernumPath, storePath])

end TrusteeStore

end MarsNwe
