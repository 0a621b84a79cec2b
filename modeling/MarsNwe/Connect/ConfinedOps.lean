import MarsNwe.Connect.ConfinedNames
import MarsNwe.Connect.WildRename

/-! # Operations that stay in their volume

What the users of `conn_get_kpl_path` make of a good path: every name that they
pass on, also those of the entries they find and those they rename to, leads into
the volume of the path.
-/

namespace MarsNwe

open Logged (Ensures)

/-- What the names of a request may take. With the twelve characters of an entry and
a point they still fit into every buffer. -/
def nameRoom : Nat := 242

/-- Every call with this name is confined. -/
def NameConfined (w : ConnWorld) (volume : Option Nat) (name : List UInt8) : Prop :=
  ∀ c, Confined w ⟨c, volume, name⟩

/-- Names behind this text are confined as long as they do not climb. -/
def LeadsInto (w : ConnWorld) (volume : Option Nat) (dir : List UInt8) : Prop :=
  ∀ fn, unixSyntax.Avoids .point .start fn → NameConfined w volume (dir ++ fn)

section

variable {w : ConnWorld}

theorem xstrcpy_stays {size : Nat} {s : List UInt8} (h : s.length < size) :
    Stays w (xstrcpy size s) fun r => r = s :=
  Ensures.pure (List.take_of_length_le (Nat.le_sub_one_of_lt h))

theorem putBehind_stays {size : Nat} {s : List UInt8} (h : s.length + 1 < size) (c : UInt8) :
    Stays w (putBehind size s c) fun r => r = s ++ [c] := by
  unfold putBehind
  rw [if_pos h]
  exact Ensures.pure rfl

/-! ## Entries -/

theorem length_of_isDosName {options : VolOptions} {s : List UInt8} {pf : Bool} {len : Nat}
    (hlen : len ≤ if pf then 3 else 8) (h : isDosName options s pf len = true) :
    s.length + len ≤ if pf then 3 else 12 := by
  induction s generalizing pf len with
  | nil =>
      rw [List.length_nil, Nat.zero_add]
      cases pf with
      | true => simpa using hlen
      | false =>
          simp only [Bool.false_eq_true, if_false] at hlen ⊢
          omega
  | cons c s ih =>
      rw [isDosName] at h
      rw [List.length_cons]
      split at h
      next =>
        obtain ⟨hpf, hrest⟩ := Bool.and_eq_true_iff.mp h
        obtain rfl : pf = false := by simpa using hpf
        have hext := @ih true 0 (Nat.zero_le _) hrest
        simp only [Bool.false_eq_true, if_false, if_true] at hlen hext ⊢
        omega
      next =>
        have hfits : ¬(pf = true ∧ 3 < len + 1 ∨ 8 < len + 1) := by
          intro hlong
          rw [if_pos hlong] at h
          cases h
        have hrest : isDosName options s pf (len + 1) = true := by
          rw [if_neg hfits] at h
          exact (ite_eq_iff.mp h).elim (fun h => by cases h.2) And.right
        have hnext := @ih pf (len + 1) (by cases pf <;> simp at hfits ⊢ <;> omega) hrest
        omega

/-- An entry of a directory as `readdir` gives it: a single component. -/
def EntryOk (d : Dirent) : Prop := (0 : UInt8) ∉ d.name ∧ (0x2f : UInt8) ∉ d.name

/-- What is found: a single component that does not climb. -/
structure FoundName (entry fn : List UInt8) : Prop where
  good : NameGood fn
  noSep : (0x2f : UInt8) ∉ fn
  length : fn.length ≤ entry.length ∨ fn.length ≤ 12

theorem avoids_of_head {s : List UInt8} (hsep : (0x2f : UInt8) ∉ s)
    (hhead : s.head? ≠ some 0x2e) : unixSyntax.Avoids .point .start s := by
  refine unixSyntax.avoids_of_not_mem hsep ?_
  rintro ⟨t, rfl⟩
  exact hhead rfl

theorem head?_ne_of_headD {s : List UInt8} (h : s.headD 0 ≠ 0x2e) : s.head? ≠ some 0x2e := by
  cases s with
  | nil => simp
  | cons c s => simpa using h

theorem tryEntry_stays (hw : WorldOk w) {v : NwVol} {volume : Option Nat}
    {dir entry : List UInt8} {attrib : UInt32} {noSearchTrustee : Bool} {d : Dirent}
    (hdir : LeadsInto w volume dir) (hd : EntryOk d) :
    Stays w (tryEntry w v volume dir entry attrib noSearchTrustee d) fun r =>
      ∀ x, r = some x → FoundName entry x.1 ∧
        NameConfined w volume (dir ++ d.name.take (255 - dir.length)) := by
  unfold tryEntry
  dsimp only
  refine Ensures.ite (fun htest => ?_) fun _ => Ensures.pure (by simp)
  obtain ⟨-, hhead, hmatch⟩ := htest
  have hhead := head?_ne_of_headD hhead
  have hname : NameConfined w volume (dir ++ d.name.take (255 - dir.length)) := by
    refine hdir _ (avoids_of_head (fun h => hd.2 (List.mem_of_mem_take h)) ?_)
    rw [List.head?_take]
    split
    · simp
    · exact hhead
  have hvisible := visible_map_of_keeps hw.keeps_unix2dos hd.1
  have hfound : FoundName entry (CText.visible (d.name.map w.unix2dos)) := by
    have hsep : (0x2f : UInt8) ∉ CText.visible (d.name.map w.unix2dos) := by
      rw [hvisible]
      intro hmem
      obtain ⟨c, hc, hsep⟩ := List.mem_map.mp hmem
      exact hd.2 ((hw.keeps_unix2dos 0x2f (by simp) c).mp hsep ▸ hc)
    refine ⟨⟨CText.noNul_visible _, avoids_of_head hsep ?_⟩, hsep, ?_⟩
    · rw [hvisible, List.head?_map]
      intro hpoint
      obtain ⟨c, hc, hpoint⟩ := Option.map_eq_some_iff.mp hpoint
      exact hhead (hc.trans (congrArg some ((hw.keeps_unix2dos 0x2e (by simp) c).mp hpoint)))
    · rcases hmatch with heq | hdos
      · exact .inl (by rw [heq])
      · exact .inr (length_of_isDosName (Nat.zero_le _) (Bool.and_eq_true_iff.mp hdos).1)
  refine (stays_callStat (hname _)).bind fun found _ => ?_
  cases found with
  | none => exact Ensures.pure (by simp)
  | some st =>
      have hsome : ∀ x, some (CText.visible (d.name.map w.unix2dos), st) = some x →
          FoundName entry x.1 ∧
            NameConfined w volume (dir ++ d.name.take (255 - dir.length)) := by
        rintro _ ⟨⟩
        exact ⟨hfound, hname⟩
      refine Ensures.ite (fun _ => Ensures.pure (by simp)) fun _ => Ensures.ite (fun _ => ?_)
        fun _ => Ensures.pure hsome
      refine (stays_call (hname _)).bind fun denied _ => ?_
      exact Ensures.pure (by split <;> [simp; exact hsome])

/-! ## The directory of a path -/

section Directory

variable {room : Nat} {q : NwPath}

/-- The same directory with another name in it. -/
theorem Good.withFn {room' : Nat} (hq : Good w room q) {fn : List UInt8} (hfn : NameGood fn)
    (hlen : room + fn.length ≤ room' + q.fn.length) : Good w room' { q with fn := fn } := by
  obtain ⟨⟨j, v, hvolume, hj, hv, hsum⟩, hpath, -, hlogin⟩ := hq
  exact ⟨⟨j, v, hvolume, hj, hv, by dsimp only at hlen ⊢; omega⟩, hpath, hfn, hlogin⟩

theorem Good.found {entry fn : List UInt8} (hq : Good w nameRoom q) (hfn : FoundName entry fn)
    (hentry : entry.length ≤ q.fn.length) : Good w 254 { q with fn := fn } := by
  refine hq.withFn hfn.good ?_
  have hlen := hfn.length
  have hroom : nameRoom = 242 := rfl
  omega

theorem Good.confined (hw : WorldOk w) (hq : Good w room q) (hroom : room ≤ 299)
    (ignoreFn noSlash : Bool) :
    NameConfined w q.volume (buildUnixName w q ignoreFn noSlash) :=
  fun c => confined_buildUnixName hw hq hroom ignoreFn noSlash c

/-- The directory without its name, up to a point for a root of one separator. -/
theorem Good.dirText (hw : WorldOk w) (hq : Good w room q) (hroom : room ≤ 299) :
    ∃ j v seg, q.volume = some j ∧ w.volumes[j]? = some v ∧ VolOk w v ∧
      (seg = [] ∨ seg = [0x2e, 0x2f]) ∧
      buildUnixName w { q with fn := [] } true true ++ [0x2f] =
        v.unixname ++ (q.path.map w.dos2unix ++ seg) := by
  have hplain : Good w room { q with fn := [] } :=
    hq.withFn ⟨by simp, trivial⟩ (by simp)
  obtain ⟨j, v, hvolume, hj, hv, hsum⟩ := hq.volume
  have hends := NwVol.ends_of_ne hv.nonempty
  have hlast : (v.unixname ++ q.path.map w.dos2unix).getLast? = some 0x2f := by
    rcases hq.path.ends with hnil | hlast
    · simpa [hnil] using hends
    · have hsep := (hw.keeps_dos2unix 0x2f (by simp) 0x2f).mpr rfl
      rw [List.getLast?_append, List.getLast?_map, hlast, Option.map_some, hsep, Option.some_or]
  obtain ⟨r, hr⟩ := List.getLast?_eq_some_iff.mp hlast
  rw [buildUnixName_eq hw hplain hroom hvolume hj, if_pos ⟨.inl rfl, rfl⟩]
  split
  · refine ⟨j, v, [], hvolume, hj, hv, .inl rfl, ?_⟩
    dsimp only
    rw [hr, List.dropLast_concat, List.append_nil, hr]
  next hshort =>
    have hroot : q.path = [] := by
      have hpos := List.length_pos_iff.mpr hv.nonempty
      dsimp only at hshort
      rw [List.length_append] at hshort
      exact List.eq_nil_of_length_eq_zero (by omega)
    exact ⟨j, v, [0x2e, 0x2f], hvolume, hj, hv, .inr rfl, by simp [hroot]⟩

/-- The directory of a path, as the searches put it before the names they find. -/
theorem Good.leadsInto (hw : WorldOk w) (hq : Good w room q) (hroom : room ≤ 299) :
    LeadsInto w q.volume (buildUnixName w { q with fn := [] } true true ++ [0x2f]) := by
  obtain ⟨j, v, seg, hvolume, hj, hv, hseg, htext⟩ := hq.dirText hw hroom
  intro fn hfn c
  rw [htext, List.append_assoc, List.append_assoc]
  refine confined_path hw hq hvolume hj hv ?_ c
  rcases hseg with rfl | rfl
  · exact hfn
  · exact ⟨by simp, by simp [unixSyntax, PathSyntax.next], hfn⟩

/-- The directory of a path without a name, with its separator. -/
theorem Good.leadsInto_dir (hw : WorldOk w) (hq : Good w room q) (hroom : room ≤ 299)
    (hfn : q.fn = []) : LeadsInto w q.volume (buildUnixName w q false false) := by
  obtain ⟨j, v, hvolume, hj, hv, -⟩ := hq.volume
  intro fn hclimbs c
  rw [buildUnixName_eq hw hq hroom hvolume hj, if_neg (by simp), hfn]
  simp only [Bool.false_eq_true, if_false, List.append_nil, List.append_assoc]
  exact confined_path hw hq hvolume hj hv hclimbs c

end Directory

/-! ## Searching -/

section Searching

variable {p : NwPath}

/-- What a search does with an entry keeps the handles good. -/
def KeepsGood (w : ConnWorld) (p : NwPath)
    (fsFunc : Dirs → NwPath → FileStat → Conn (Dirs × Int)) : Prop :=
  ∀ dirs fn st, DirsGood dirs → FoundName p.fn fn →
    Stays w (fsFunc dirs { p with fn := fn } st) fun r => DirsGood r.1

theorem funcSearchLoop_stays (hw : WorldOk w) {v : NwVol} {dir : List UInt8} {attrib : UInt32}
    {fsFunc : Dirs → NwPath → FileStat → Conn (Dirs × Int)} (hdir : LeadsInto w p.volume dir)
    (hfs : KeepsGood w p fsFunc) {ds : List Dirent} (hds : ∀ d ∈ ds, EntryOk d) {dirs : Dirs}
    (hdirs : DirsGood dirs) (result : Int) :
    Stays w (funcSearchLoop w v p dir attrib fsFunc ds dirs result) fun r => DirsGood r.1 := by
  induction ds generalizing dirs result with
  | nil => exact Ensures.pure hdirs
  | cons d ds ih =>
      have hrest : ∀ d ∈ ds, EntryOk d := fun d hd => hds d (List.mem_cons_of_mem _ hd)
      rw [funcSearchLoop]
      refine (tryEntry_stays hw hdir (hds d List.mem_cons_self)).bind fun found hfound => ?_
      cases found with
      | none => exact ih hrest hdirs result
      | some x =>
          obtain ⟨dname, st⟩ := x
          refine (hfs dirs dname st hdirs (hfound _ rfl).1).bind fun r hr => ?_
          exact Ensures.ite (fun _ => Ensures.pure hr) fun _ => ih hrest hr 1

theorem funcSearchEntry_stays (hw : WorldOk w) (hp : Good w nameRoom p) {attrib : UInt32}
    {fsFunc : Dirs → NwPath → FileStat → Conn (Dirs × Int)} (hfs : KeepsGood w p fsFunc)
    {dirs : Dirs} (hdirs : DirsGood dirs) :
    Stays w (funcSearchEntry w dirs p attrib fsFunc) fun r => DirsGood r.1 := by
  have hroom : nameRoom ≤ 299 := by decide
  have hplain : Good w nameRoom { p with fn := [] } := hp.withFn ⟨by simp, trivial⟩ (by simp)
  have hlen := length_buildUnixName hw hplain hroom true true
  have hname := hplain.confined hw hroom true true
  unfold funcSearchEntry
  split
  · exact Ensures.pure hdirs
  · refine (xstrcpy_stays (by rw [nameRoom] at hlen; omega)).bind fun xkpath hxkpath => ?_
    subst hxkpath
    refine (stays_callStat (hname _)).bind fun found _ => ?_
    cases found with
    | none => exact Ensures.pure hdirs
    | some st =>
        refine (stays_call (hname _)).bind fun denied _ => Ensures.ite
          (fun _ => Ensures.pure hdirs) fun _ => ?_
        refine (stays_callOpendir (hname _)).bind fun entries hentries => ?_
        cases entries with
        | none => exact Ensures.pure hdirs
        | some entries =>
            refine (putBehind_stays (by rw [nameRoom] at hlen; omega) 0x2f).bind
              fun kpath hkpath => ?_
            subst hkpath
            exact funcSearchLoop_stays hw (hp.leadsInto hw hroom) hfs
              (hw.entries _ _ hentries.symm) hdirs 0

theorem getDirEntryLoop_stays (hw : WorldOk w) {v : NwVol} {dir : List UInt8}
    {attrib : UInt32} {noSearchTrustee : Bool} (hdir : LeadsInto w p.volume dir)
    {ds : List Dirent} (hds : ∀ d ∈ ds, EntryOk d) (sequence : Nat) :
    Stays w (getDirEntryLoop w v p dir attrib noSearchTrustee ds sequence) fun r =>
      ∃ fn, FoundName p.fn fn ∧ r.1 = { p with fn := fn } := by
  induction ds generalizing sequence with
  | nil => exact stays_stop
  | cons d ds ih =>
      rw [getDirEntryLoop]
      refine (tryEntry_stays hw hdir (hds d List.mem_cons_self)).bind fun found hfound => ?_
      cases found with
      | none => exact ih (fun d hd => hds d (List.mem_cons_of_mem _ hd)) (sequence + 1)
      | some x =>
          obtain ⟨dname, st⟩ := x
          exact Ensures.pure ⟨dname, (hfound _ rfl).1, rfl⟩

/-- The entry that is found has a good path again. -/
theorem findDirEntry_stays (hw : WorldOk w) (hp : Good w nameRoom p) (sequence : Nat)
    (attrib : UInt32) :
    Stays w (findDirEntry w p sequence attrib) fun r => Good w 254 r.1 := by
  have hroom : nameRoom ≤ 299 := by decide
  have hplain : Good w nameRoom { p with fn := [] } := hp.withFn ⟨by simp, trivial⟩ (by simp)
  have hlen := length_buildUnixName hw hplain hroom true true
  have hname := hplain.confined hw hroom true true
  unfold findDirEntry
  split
  · exact stays_stop
  · refine (xstrcpy_stays (by rw [nameRoom] at hlen; omega)).bind fun xkpath hxkpath => ?_
    subst hxkpath
    refine (stays_callStat (hname _)).bind fun found _ => ?_
    cases found with
    | none => exact stays_stop
    | some st =>
        refine (stays_call (hname _)).bind fun denied _ => Ensures.ite
          (fun _ => stays_stop) fun _ => ?_
        refine (stays_callOpendir (hname _)).bind fun entries hentries => ?_
        cases entries with
        | none => exact stays_stop
        | some entries =>
            refine (putBehind_stays (by rw [nameRoom] at hlen; omega) 0x2f).bind
              fun kpath hkpath => ?_
            subst hkpath
            refine Ensures.ite (fun _ => stays_stop) fun _ => ?_
            refine (getDirEntryLoop_stays hw (hp.leadsInto hw hroom) (fun d hd =>
              hw.entries _ _ hentries.symm d (List.mem_of_mem_drop hd)) _).mono ?_
            rintro r ⟨fn, hfn, hr⟩
            rw [hr]
            exact hp.found hfn le_rfl

end Searching

/-! ## Requests for one name -/

section Requests

variable {dirs : Dirs} {dirHandle : Nat} {data : List UInt8} {onlyDir : Bool}

/-- A request that is confined, with room for the names of entries. -/
abbrev PathOk (w : ConnWorld) (dirs : Dirs) (dirHandle : Nat) (data : List UInt8)
    (onlyDir : Bool) : Prop :=
  RequestOk w dirs dirHandle data onlyDir nameRoom

theorem kplPath_stays (hw : WorldOk w) (hdirs : DirsGood dirs)
    (hreq : PathOk w dirs dirHandle data onlyDir) :
    Stays w (connGetKplPath w dirs dirHandle data onlyDir) fun r =>
      Good w nameRoom r.1 ∧ BecomesText w (if onlyDir then [] else requestName data) r.1.fn :=
  connGetKplPath_stays hw hdirs (by decide) hreq

/-- The name of a good path, copied into a buffer. -/
theorem copyName_stays (hw : WorldOk w) {room size : Nat} {q : NwPath} (hq : Good w room q)
    (hroom : room ≤ 299) (hsize : max 2 room < size) (ignoreFn noSlash : Bool) :
    Stays w (xstrcpy size (buildUnixName w q ignoreFn noSlash)) fun r =>
      r = buildUnixName w q ignoreFn noSlash ∧ NameConfined w q.volume r := by
  have hlen := length_buildUnixName hw hq hroom ignoreFn noSlash
  refine (xstrcpy_stays (by omega)).mono ?_
  rintro _ rfl
  exact ⟨rfl, hq.confined hw hroom ignoreFn noSlash⟩

theorem nwSearch_stays (hw : WorldOk w) (hdirs : DirsGood dirs)
    (hreq : PathOk w dirs dirHandle data false) (sequence : Nat) (attrib : UInt32) :
    Stays w (nwSearch w dirs dirHandle sequence attrib data) fun _ => True := by
  unfold nwSearch
  refine (kplPath_stays hw hdirs hreq).bind fun r hr => ?_
  refine (findDirEntry_stays hw hr.1 sequence attrib).bind fun r hr => ?_
  refine (copyName_stays hw hr (by decide) (by decide) false false).bind fun name hname => ?_
  exact (stays_call (hname.2 _)).bind fun _ _ => Ensures.pure trivial

theorem nwScanADirectory_stays (hw : WorldOk w) (hdirs : DirsGood dirs)
    (hreq : PathOk w dirs dirHandle data false) (attrib : UInt32) (searchbeg : Option Nat) :
    Stays w (nwScanADirectory w dirs dirHandle data attrib searchbeg) fun _ => True := by
  unfold nwScanADirectory
  refine (kplPath_stays hw hdirs hreq).bind fun r hr => ?_
  refine (findDirEntry_stays hw hr.1 _ attrib).bind fun r hr => ?_
  refine (copyName_stays hw hr (by decide) (by decide) false false).bind fun name hname => ?_
  refine (stays_call (hname.2 _)).bind fun _ _ => ?_
  exact (stays_call (hname.2 _)).bind fun _ _ => Ensures.pure trivial

theorem nwScanARootDir_stays (hw : WorldOk w) (hdirs : DirsGood dirs)
    (hreq : PathOk w dirs dirHandle [] true) :
    Stays w (nwScanARootDir w dirs dirHandle) fun _ => True := by
  unfold nwScanARootDir
  refine (kplPath_stays hw hdirs hreq).bind fun r hr => ?_
  refine (copyName_stays hw hr.1 (by decide) (by decide) false true).bind fun name hname => ?_
  refine (stays_callStat (hname.2 _)).bind fun found _ => ?_
  cases found with
  | none => exact stays_stop
  | some st =>
      refine (stays_call (hname.2 _)).bind fun _ _ => ?_
      exact (stays_call (hname.2 _)).bind fun _ _ => Ensures.pure trivial

theorem nwSetADirectoryEntry_stays (hw : WorldOk w) (hdirs : DirsGood dirs)
    (hreq : PathOk w dirs dirHandle data false) (attrib changeMask : UInt32) :
    Stays w (nwSetADirectoryEntry w dirs dirHandle data attrib changeMask) fun _ => True := by
  unfold nwSetADirectoryEntry
  refine (kplPath_stays hw hdirs hreq).bind fun r hr => ?_
  refine (findDirEntry_stays hw hr.1 _ attrib).bind fun r hr => ?_
  refine (copyName_stays hw hr (by decide) (by decide) false false).bind fun name hname => ?_
  have hrest : ∀ completion : Int, Stays w
      (if changeMask &&& 0x1000 ≠ 0 then do
        let result ← w.call .setInheritedMask r.1.volume name
        return if result ≠ 0 then result else completion
      else return completion) fun _ => True := by
    intro completion
    exact Ensures.ite (fun _ => (stays_call (hname.2 _)).bind fun _ _ => Ensures.pure trivial)
      fun _ => Ensures.pure trivial
  dsimp only
  split
  · exact (stays_call (hname.2 _)).bind fun completion _ => hrest completion
  · exact (Ensures.pure trivial).bind fun completion (_ : True) => hrest completion

theorem checkedName_stays (hw : WorldOk w) (hdirs : DirsGood dirs)
    (hreq : PathOk w dirs dirHandle data onlyDir) (needDir : Bool) :
    Stays w (checkedName w dirs dirHandle data onlyDir needDir) fun r =>
      NameConfined w r.1.volume r.2.1 := by
  unfold checkedName
  refine (kplPath_stays hw hdirs hreq).bind fun r hr => ?_
  refine (copyName_stays hw hr.1 (by decide) (by decide) false false).bind fun name hname => ?_
  refine (stays_callStat (hname.2 _)).bind fun found _ => ?_
  cases found with
  | none => exact stays_stop
  | some st =>
      exact Ensures.ite (fun _ => stays_stop) fun _ => Ensures.pure hname.2

/-- One call with a name that was checked. -/
theorem checkedCall_stays (hw : WorldOk w) (hdirs : DirsGood dirs)
    (hreq : PathOk w dirs dirHandle data onlyDir) (needDir : Bool) (c : FsCall) :
    Stays w (do
      let (p, unname, _) ← checkedName w dirs dirHandle data onlyDir needDir
      w.call c p.volume unname) fun _ => True :=
  (checkedName_stays hw hdirs hreq needDir).bind fun _ hr => stays_call (hr _)

theorem nwUtimeNode_stays {volume : Option Nat} {unname : List UInt8}
    (hname : NameConfined w volume unname) :
    Stays w (nwUtimeNode w volume unname) fun _ => True := by
  unfold nwUtimeNode
  refine (stays_call (hname _)).bind fun denied _ => ?_
  exact Ensures.ite (fun _ => Ensures.pure trivial) fun _ =>
    (stays_call (hname _)).bind fun _ _ => Ensures.pure trivial

theorem nwSetDirInfo_stays (hw : WorldOk w) (hdirs : DirsGood dirs)
    (hreq : PathOk w dirs dirHandle data false) :
    Stays w (nwSetDirInfo w dirs dirHandle data) fun _ => True := by
  unfold nwSetDirInfo
  refine (checkedName_stays hw hdirs hreq true).bind fun r hr => ?_
  refine (nwUtimeNode_stays hr).bind fun result _ => ?_
  exact Ensures.ite (fun _ => Ensures.pure trivial) fun _ => stays_call (hr _)

theorem nwSetFileAttributes_stays (hw : WorldOk w) (hdirs : DirsGood dirs)
    (hreq : PathOk w dirs dirHandle data false) :
    Stays w (nwSetFileAttributes w dirs dirHandle data) fun _ => True := by
  unfold nwSetFileAttributes
  have hpath := buildPath_buildDirName_stays hw hdirs (by decide) hreq
  refine Ensures.ite (fun _ => stays_stop) fun _ => ?_
  refine hpath.bind fun r hr => ?_
  refine (copyName_stays hw hr.1 (by decide) (by decide) false true).bind fun name hname => ?_
  refine (stays_callStat (hname.2 _)).bind fun found _ => ?_
  cases found with
  | none => exact stays_stop
  | some st => exact (stays_call (hname.2 _)).bind fun _ _ => Ensures.pure trivial

theorem nwCreatOpenFile_stays (hw : WorldOk w) (hdirs : DirsGood dirs)
    (hreq : PathOk w dirs dirHandle data false) :
    Stays w (nwCreatOpenFile w dirs dirHandle data) fun _ => True := by
  unfold nwCreatOpenFile
  refine (kplPath_stays hw hdirs hreq).bind fun r hr => ?_
  refine (copyName_stays hw hr.1 (by decide) (by decide) false false).bind fun name hname => ?_
  refine (stays_call (hname.2 _)).bind fun completion _ => Ensures.ite (fun _ => ?_)
    fun _ => Ensures.pure trivial
  exact (stays_call (hname.2 _)).bind fun _ _ => Ensures.pure trivial

theorem nwLogFile_stays (hw : WorldOk w) (hdirs : DirsGood dirs)
    (hreq : PathOk w dirs dirHandle data false) (lockFlag : Int) :
    Stays w (nwLogFile w dirs dirHandle data lockFlag) fun _ => True := by
  unfold nwLogFile
  refine (kplPath_stays hw hdirs hreq).bind fun r hr => ?_
  refine (copyName_stays hw hr.1 (by decide) (by decide) false false).bind fun name hname => ?_
  refine (stays_callStat (hname.2 _)).bind fun found _ => ?_
  cases found with
  | none => exact Ensures.pure trivial
  | some st => exact Ensures.pure trivial

end Requests

end

end MarsNwe
