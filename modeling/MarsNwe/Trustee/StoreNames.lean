import MarsNwe.Trustee.PathScan

/-! # Names in the trustee store

What each change of the store does to the names of files and to the serial number, and
that the store holds the targets, and what is in force for them, along a history.
-/

namespace MarsNwe

open Formatted Links

/-! ## Changes of the store -/

namespace TrusteeStore

variable {s s' : TrusteeStore} {base : Nat} {place : TrusteeStore → Nat}

theorem namePath_inj {id id' : FileId} : namePath id = namePath id' ↔ id = id' :=
  (storePath_injective 'n').eq_iff

theorem namePath_ne_sernumPath (id : FileId) : namePath id ≠ sernumPath :=
  fun h => absurd (congrArg List.length h) (by simp [namePath, sernumPath, storePath])

/-- Other links stay when one is made. -/
theorem mem_replace_other {n : Nat} {l : List (List UInt8) × List UInt8} {hl : StoredLink l}
    {path : List (List UInt8)} (hother : path ≠ l.1) {text : List UInt8} :
    (path, text) ∈ (s.replace n hl).links ↔ (path, text) ∈ s.links := by
  rw [mem_replace]
  constructor
  · rintro (rfl | ⟨hmem, -⟩)
    · exact absurd rfl hother
    · exact hmem
  · exact fun hmem => .inr ⟨hmem, hother⟩

/-- The names and the serial number are the same. -/
structure SameNames (s s' : TrusteeStore) : Prop where
  names : ∀ id path, (namePath id, path) ∈ s'.links ↔ (namePath id, path) ∈ s.links
  sernum : s'.sernum = s.sernum

theorem sernum_eq_of_links
    (h : ∀ text, (sernumPath, text) ∈ s'.links ↔ (sernumPath, text) ∈ s.links) :
    s'.sernum = s.sernum := by
  have hread : readlink s'.links sernumPath = readlink s.links sernumPath := by
    apply Option.ext
    intro text
    rw [readlink_eq_some s'.nodup, readlink_eq_some s.nodup, h]
  unfold sernum
  rw [hread]

theorem SameNames.refl (s : TrusteeStore) : SameNames s s := ⟨fun _ _ => Iff.rfl, rfl⟩

theorem SameNames.trans {s'' : TrusteeStore} (h : SameNames s s') (h' : SameNames s' s'') :
    SameNames s s'' :=
  ⟨fun id path => (h'.names id path).trans (h.names id path), h'.sernum.trans h.sernum⟩

theorem SameNames.replace {n : Nat} {l : List (List UInt8) × List UInt8} (hl : StoredLink l)
    (hname : ∀ id, namePath id ≠ l.1) (hsernum : sernumPath ≠ l.1) :
    SameNames s (s.replace n hl) :=
  ⟨fun id _ => mem_replace_other (hname id), sernum_eq_of_links fun _ => mem_replace_other hsernum⟩

theorem SameNames.put {id : FileId} {e : IdsTrustee}
    (h : s.putTrusteeToDisk base place id e = some s') : SameNames s s' := by
  unfold putTrusteeToDisk at h
  split at h
  next =>
    rw [← Option.some.inj h]
    exact .replace _ (fun id' => namePath_ne_entryPath id' id e.id)
      (sernumPath_ne_entryPath id e.id)
  next => contradiction

theorem SameNames.addBrowse {dir : FileId} {poic : IdsTrustee}
    (h : s.addBrowse base place dir poic = some s') : SameNames s s' := by
  unfold TrusteeStore.addBrowse at h
  split at h
  next =>
    obtain ⟨rights, -, h⟩ := Option.bind_eq_some_iff.mp h
    dsimp only at h
    split at h
    next => exact .put h
    next => exact Option.some.inj h ▸ .refl s
  next => exact Option.some.inj h ▸ .refl s

theorem SameNames.foldlM {α : Type} {f : TrusteeStore → α → Option TrusteeStore}
    (hstep : ∀ s a s', f s a = some s' → SameNames s s') {l : List α}
    (h : l.foldlM f s = some s') : SameNames s s' := by
  induction l generalizing s with
  | nil => exact Option.some.inj h ▸ .refl s
  | cons a l ih =>
      rw [List.foldlM_cons] at h
      obtain ⟨s'', hf, hl⟩ := Option.bind_eq_some_iff.mp h
      exact (hstep s a s'' hf).trans (ih hl)

theorem nextSernum_eq :
    s.nextSernum place = s.replace (place s) (StoredLink.sernum s.sernumAfter) := rfl

theorem sernum_nextSernum : (s.nextSernum place).sernum = s.sernumAfter := by
  have hlink : (sernumPath, hexText s.sernumAfter.toNat) ∈ (s.nextSernum place).links := by
    rw [nextSernum_eq, mem_replace]
    exact .inl rfl
  have hread := (readlink_eq_some (s.nextSernum place).nodup).mpr hlink
  rw [sernum, hread, Option.bind_some, scanX_hexText, Option.getD_some]

theorem names_nextSernum (id : FileId) (path : List UInt8) :
    (namePath id, path) ∈ (s.nextSernum place).links ↔ (namePath id, path) ∈ s.links := by
  rw [nextSernum_eq]
  exact mem_replace_other (namePath_ne_sernumPath id)

/-- What a grant makes of a store: names and number as before, then the name of the file, and
the next number. -/
theorem call_add {file : FileNumbers} {above : List FileNumbers} {mask : Rights}
    {nwoic : List IdsTrustee} {path : List UInt8}
    (h : s.call base place (.add file above mask nwoic path) = some s') :
    ∃ s₁ s₂ n, SameNames s s₁ ∧ SameNames (s₁.replace n (StoredLink.name file.id path)) s₂ ∧
      s' = s₂.nextSernum place := by
  obtain ⟨s₁, hput, h⟩ := Option.bind_eq_some_iff.mp h
  obtain ⟨s₂, hname, h⟩ := Option.bind_eq_some_iff.mp h
  obtain ⟨s₃, hbrowse, h⟩ := Option.bind_eq_some_iff.mp h
  have hsame : SameNames s s₁ := .foldlM (fun _ _ _ => .put) hput
  have hsame' : SameNames s₂ s₃ :=
    .foldlM (fun _ _ _ => .foldlM fun _ _ _ => .addBrowse) hbrowse
  unfold creatTrusteePath at hname
  split at hname
  next =>
    rw [← Option.some.inj hname] at hsame'
    exact ⟨s₁, s₃, place s₁, hsame, hsame', (Option.some.inj h).symm⟩
  next => contradiction

/-- A removed link that is not there. -/
theorem links_remove {path : List (List UInt8)} (h : readlink s.links path = none) :
    (s.remove path).links = s.links := by
  refine List.filter_eq_self.mpr fun l hl => decide_eq_true fun hpath => ?_
  have hsome : readlink s.links path = some l.2 :=
    (readlink_eq_some s.nodup).mpr (hpath ▸ hl)
  rw [h] at hsome
  contradiction

/-- A call takes the next serial number, or it changes nothing. -/
theorem sernum_call {c : StoreCall} (h : s.call base place c = some s') :
    c.changes s = true ∧ s'.sernum = s.sernumAfter ∨
      c.changes s = false ∧ s'.links = s.links := by
  cases c with
  | add file above mask nwoic path =>
      obtain ⟨s₁, s₂, n, hsame, hsame', rfl⟩ := call_add h
      refine .inl ⟨rfl, ?_⟩
      have hname : (s₁.replace n (StoredLink.name file.id path)).sernum = s₁.sernum :=
        sernum_eq_of_links fun text => mem_replace_other (namePath_ne_sernumPath file.id).symm
      rw [sernum_nextSernum, sernumAfter, sernumAfter, hsame'.sernum, hname, hsame.sernum]
  | del file id =>
      obtain ⟨⟨result, s₁⟩, hdel, rfl⟩ := Option.map_eq_some_iff.mp h
      unfold delTrusteeFromDisk at hdel
      split at hdel
      next =>
        obtain ⟨rfl, rfl⟩ := Prod.mk.inj (Option.some.inj hdel)
        have hsame : (s.remove (entryPath file.id id)).sernum = s.sernum :=
          sernum_eq_of_links fun text => mem_unlink.trans
            (and_iff_left (sernumPath_ne_entryPath file.id id))
        cases hread : readlink s.links (entryPath file.id id) with
        | none =>
            refine .inr ⟨?_, ?_⟩
            · exact congrArg Option.isSome hread
            · exact links_remove hread
        | some text =>
            refine .inl ⟨congrArg Option.isSome hread, ?_⟩
            show (nextSernum place (s.remove (entryPath file.id id))).sernum = _
            rw [sernum_nextSernum, sernumAfter, sernumAfter, hsame]
      next => contradiction
  | setMask file newMask =>
      obtain ⟨s₁, hput, rfl⟩ := Option.map_eq_some_iff.mp h
      refine .inl ⟨rfl, ?_⟩
      rw [sernum_nextSernum, sernumAfter, sernumAfter, (SameNames.put hput).sernum]

/-! ### Files that are removed -/

theorem behind_trusteePath {id id' : FileId} {trustee : UInt32} :
    (behind (trusteePath id) (entryPath id' trustee)).isNone = true ↔ id' ≠ id := by
  rw [Option.isNone_iff_eq_none, Option.eq_none_iff_forall_ne_some]
  constructor
  · rintro hnone rfl
    exact hnone [hexText trustee.toNat] (behind_eq_some.mpr rfl)
  · intro hne rest hsome
    have hdir := (List.append_inj (behind_eq_some.mp hsome) rfl).1
    exact hne (storePath_injective 't' hdir)

theorem mem_freeFile {id : FileId} {l : List (List UInt8) × List UInt8} :
    l ∈ (s.freeFile id).links ↔
      l ∈ s.links ∧ (behind (trusteePath id) l.1).isNone = true ∧ l.1 ≠ namePath id := by
  show l ∈ s.links.filter _ ↔ _
  rw [List.mem_filter, decide_eq_true_iff]

theorem get?_freeFile (id id' : FileId) (trustee : UInt32) :
    ((s.freeFile id).trusteeDir id').get? trustee =
      if id' = id then none else (s.trusteeDir id').get? trustee := by
  apply Option.ext
  intro rights
  rw [get?_trusteeDir, mem_freeFile, behind_trusteePath]
  split
  next hsame => exact iff_of_false (fun h => h.2.1 hsame) (by simp)
  next hother =>
    rw [get?_trusteeDir]
    exact and_iff_left ⟨hother, (namePath_ne_entryPath id id' trustee).symm⟩

/-- The trustees of other files are read as before. -/
theorem entries_freeFile {id id' : FileId} (hother : id' ≠ id) :
    ((s.freeFile id).trusteeDir id').entries = (s.trusteeDir id').entries := by
  show (readdir (s.links.filter _) _).filterMap readEntry = (readdir s.links _).filterMap readEntry
  rw [readdir_filter]
  intro l hl hshown
  obtain ⟨⟨c, _ | target⟩, hentry⟩ := Option.isSome_iff_exists.mp hshown
  · obtain ⟨d, rest, hpath⟩ := shown_eq_dir.mp hentry
    have hstored := s.stored l hl
    have hlen := congrArg List.length hpath
    cases hstored <;>
      simp [entryPath, trusteePath, namePath, sernumPath, storePath] at hlen
  · obtain rfl := shown_eq_link.mp hentry
    obtain ⟨e, rfl, -⟩ := eq_of_mem_links hl
    exact decide_eq_true ⟨behind_trusteePath.mpr hother,
      (namePath_ne_entryPath id id' e.id).symm⟩

theorem names_freeFile (id id' : FileId) (path : List UInt8) :
    (namePath id', path) ∈ (s.freeFile id).links ↔ id' ≠ id ∧ (namePath id', path) ∈ s.links := by
  have hbehind : (behind (trusteePath id) (namePath id')).isNone = true := by
    rw [Option.isNone_iff_eq_none, Option.eq_none_iff_forall_ne_some]
    intro rest hsome
    have hpath : namePath id' ++ [] = trusteePath id ++ rest :=
      (List.append_nil _).trans (behind_eq_some.mp hsome)
    obtain ⟨hdir, -⟩ := List.append_inj hpath rfl
    have hlast := congrArg (fun path => (path.getLast?.bind List.head?)) hdir
    simp [namePath, trusteePath, storePath, chr] at hlast
  rw [mem_freeFile, and_iff_right hbehind, ne_eq, namePath_inj, and_comm]

theorem sernum_freeFile (id : FileId) : (s.freeFile id).sernum = s.sernum := by
  refine sernum_eq_of_links fun text => ?_
  rw [mem_freeFile]
  refine and_iff_left ⟨?_, (namePath_ne_sernumPath id).symm⟩
  rw [Option.isNone_iff_eq_none, Option.eq_none_iff_forall_ne_some]
  intro rest hsome
  exact absurd (congrArg List.length (behind_eq_some.mp hsome))
    (by simp [sernumPath, trusteePath, storePath])

end TrusteeStore

/-! ## Targets -/

/-- The names in the store are those under which some files were given trustees. -/
structure NamesHeld (S : Set FileNumbers) (s : TrusteeStore)
    (names : FileNumbers → Option (List UInt8)) : Prop where
  links : ∀ id path,
    (namePath id, path) ∈ s.links ↔ ∃ file, file.id = id ∧ names file = some path
  mem : ∀ file path, names file = some path → file ∈ S

section Targets

variable {S : Set FileNumbers} {s s' : TrusteeStore} {names : FileNumbers → Option (List UInt8)}
  {t : Targets} {base : Nat} {place : TrusteeStore → Nat}

theorem NamesHeld.of_links (h : NamesHeld S s names)
    (hsame : ∀ id path, (namePath id, path) ∈ s'.links ↔ (namePath id, path) ∈ s.links) :
    NamesHeld S s' names :=
  ⟨fun id path => (hsame id path).trans (h.links id path), h.mem⟩

/-- A file gets a name. -/
theorem NamesHeld.name (h : NamesHeld S s names) (hS : Set.InjOn FileNumbers.id S)
    {file : FileNumbers} (hfile : file ∈ S) (n : Nat) (path : List UInt8) :
    NamesHeld S (s.replace n (StoredLink.name file.id path))
      (fun file' => if file' = file then some path else names file') := by
  constructor
  · intro id path'
    rw [TrusteeStore.mem_replace, Prod.mk.injEq, TrusteeStore.namePath_inj, h.links, ne_eq,
      TrusteeStore.namePath_inj]
    constructor
    · rintro (⟨rfl, rfl⟩ | ⟨⟨file', rfl, hname⟩, hother⟩)
      · exact ⟨file, rfl, if_pos rfl⟩
      · exact ⟨file', rfl, (if_neg fun hsame => hother (congrArg _ hsame)).trans hname⟩
    · rintro ⟨file', rfl, hname⟩
      by_cases hsame : file' = file
      · rw [if_pos hsame] at hname
        exact .inl ⟨congrArg _ hsame, (Option.some.inj hname).symm⟩
      · rw [if_neg hsame] at hname
        have hmem := h.mem file' path' hname
        exact .inr ⟨⟨file', rfl, hname⟩, fun hid => hsame (hS hmem hfile hid)⟩
  · intro file' path' hname
    by_cases hsame : file' = file
    · exact hsame ▸ hfile
    · rw [if_neg hsame] at hname
      exact h.mem file' path' hname

theorem NamesHeld.call (h : NamesHeld S s t.names) (hS : Set.InjOn FileNumbers.id S)
    {c : StoreCall} (hc : c.Plain S) (hcall : s.call base place c = some s') :
    NamesHeld S s' (t.call c).names := by
  have hsame : c.changes s = false ∧ s'.links = s.links → NamesHeld S s' t.names :=
    fun hlinks => h.of_links fun id path => by rw [hlinks.2]
  cases c with
  | add file above mask nwoic path =>
      obtain ⟨s₁, s₂, n, hputs, hbrowses, rfl⟩ := TrusteeStore.call_add hcall
      have hnamed := (h.of_links hputs.names).name hS hc.1 n path
      exact (hnamed.of_links hbrowses.names).of_links TrusteeStore.names_nextSernum
  | del file id =>
      obtain ⟨⟨result, s₁⟩, hdel, rfl⟩ := Option.map_eq_some_iff.mp hcall
      unfold TrusteeStore.delTrusteeFromDisk at hdel
      split at hdel
      next =>
        obtain ⟨rfl, rfl⟩ := Prod.mk.inj (Option.some.inj hdel)
        have hremoved : NamesHeld S (s.remove (entryPath file.id id)) t.names :=
          h.of_links fun id' path => mem_unlink.trans
            (and_iff_left (TrusteeStore.namePath_ne_entryPath id' file.id id))
        dsimp only
        split
        · exact hremoved.of_links TrusteeStore.names_nextSernum
        · exact hremoved
      next => contradiction
  | setMask file newMask =>
      obtain ⟨s₁, hput, rfl⟩ := Option.map_eq_some_iff.mp hcall
      exact (h.of_links (TrusteeStore.SameNames.put hput).names).of_links
        TrusteeStore.names_nextSernum

theorem NamesHeld.freeFile (h : NamesHeld S s t.names) (hS : Set.InjOn FileNumbers.id S)
    {file : FileNumbers} (hfile : file ∈ S) :
    NamesHeld S (s.freeFile file.id) (t.freeFile file).names := by
  constructor
  · intro id path
    rw [TrusteeStore.names_freeFile, h.links]
    constructor
    · rintro ⟨hother, file', rfl, hname⟩
      exact ⟨file', rfl, (if_neg fun hsame => hother (congrArg _ hsame)).trans hname⟩
    · rintro ⟨file', rfl, hname⟩
      unfold Targets.freeFile at hname
      dsimp only at hname
      split at hname
      next => contradiction
      next hsame =>
        have hmem := h.mem file' path hname
        exact ⟨fun hid => hsame (hS hmem hfile hid), file', rfl, hname⟩
  · intro file' path hname
    unfold Targets.freeFile at hname
    dsimp only at hname
    split at hname
    next => contradiction
    next => exact h.mem file' path hname

theorem Represents.freeFile (h : Represents S s t.force) (hS : Set.InjOn FileNumbers.id S)
    {file : FileNumbers} (hfile : file ∈ S) :
    Represents S (s.freeFile file.id) (t.freeFile file).force := by
  constructor
  · intro file' hfile' id
    rw [TrusteeStore.get?_freeFile, h.held file' hfile' id]
    simp only [id_eq_iff hS hfile hfile', Targets.freeFile]
    by_cases hsame : file' = file
    · rw [if_pos hsame, if_pos hsame, if_pos hsame, ite_self]
    · rw [if_neg hsame, if_neg hsame, if_neg hsame]
  · intro file'
    show (if file' = file then none else t.force.entries file' 0) = none
    rw [h.entries_zero, ite_self]

end Targets

end MarsNwe
