import MarsNwe.Connect.ConfinedOps
import MarsNwe.Connect.HandleRuns

/-! # Runs that stay in their volumes

The table of directory handles takes in good paths only, and from good handles every
request that is safe by itself passes on confined names. So whole runs of such
requests stay in the volumes, whatever is renamed, removed or freed on the way.
-/

namespace MarsNwe

open Logged (Ensures)

section

variable {w : ConnWorld} {dirs : Dirs}

/-! ## What the table takes in -/

theorem storedPath_good {path : List UInt8} (h : PathGood path) : PathGood (storedPath path) := by
  have htail : PathGood (if path.head? = some 0x2f ∧ path.tail ≠ [] then path.tail else path) := by
    split
    next hsep =>
      obtain ⟨rest, rfl⟩ := List.head?_eq_some_iff.mp hsep.1
      refine ⟨fun hmem => h.noNul (List.mem_cons_of_mem _ hmem), h.points.2, .inr ?_⟩
      have hlast := h.ends.resolve_left (by simp)
      have hne : rest ≠ [] := hsep.2
      rwa [List.getLast?_cons_of_ne_nil hne] at hlast
    next => exact h
  unfold storedPath
  dsimp only
  generalize (if path.head? = some 0x2f ∧ path.tail ≠ [] then path.tail else path) = stored
    at htail ⊢
  split
  · exact htail
  next hends =>
    rw [htail.ends.resolve_right hends]
    exact ⟨by decide, ⟨by simp [unixSyntax], trivial⟩, .inr rfl⟩

/-- A changed entry has the new path or is the old one. -/
theorem changeDirEntry_good {d : NwDir} {path : List UInt8} (hd : d.id.ino ≠ 0 → PathGood d.path)
    (hpath : PathGood path) (volume : Nat) (id : FileNumbers) (drive temp : Option Nat)
    (newEntry : Bool) (task : Nat)
    (hused : (changeDirEntry d volume path id drive temp newEntry task).1.id.ino ≠ 0) :
    PathGood (changeDirEntry d volume path id drive temp newEntry task).1.path := by
  have hstored := storedPath_good hpath
  unfold changeDirEntry at hused ⊢
  split
  · cases temp <;> cases drive <;> dsimp only <;> (try split) <;> exact hstored
  next hkept =>
    rw [if_neg hkept] at hused
    exact hd hused

theorem DirsGood.freed (h : DirsGood dirs) {f : NwDir → NwDir}
    (hf : ∀ d, (f d).id.ino ≠ 0 → d.id.ino ≠ 0 ∧ (f d).path = d.path) : DirsGood (dirs.map f) := by
  intro d hd hused
  obtain ⟨d', hd', rfl⟩ := List.mem_map.mp hd
  obtain ⟨hold, hpath⟩ := hf d' hused
  rw [hpath]
  exact h d' hd' hold

theorem DirsGood.set (h : DirsGood dirs) {k : Nat} {d : NwDir}
    (hd : d.id.ino ≠ 0 → PathGood d.path) : DirsGood (dirs.set k d) := by
  intro d' hd' hused
  rcases List.mem_or_eq_of_mem_set hd' with hold | rfl
  · exact h d' hold hused
  · exact hd hused

theorem DirsGood.modify (h : DirsGood dirs) {k : Nat} {f : NwDir → NwDir}
    (hf : ∀ d ∈ dirs, (f d).id.ino ≠ 0 → PathGood (f d).path) : DirsGood (dirs.modify k f) := by
  intro d hd hused
  obtain ⟨i, hi⟩ := List.mem_iff_getElem?.mp hd
  rw [List.getElem?_modify] at hi
  obtain ⟨d', hd', rfl⟩ := Option.map_eq_some_iff.mp hi
  have hmem := List.mem_of_getElem? hd'
  by_cases hik : k = i
  · rw [if_pos hik] at hused ⊢
    exact hf d' hmem hused
  · rw [if_neg hik] at hused ⊢
    exact h d' hmem hused

theorem freeDirStuff_good (h : DirsGood dirs) (id : FileNumbers) : DirsGood (freeDirStuff dirs id) := by
  refine h.freed fun d hused => ?_
  split at hused
  · exact absurd rfl hused
  next hne => exact ⟨hused, by rw [if_neg hne]⟩

theorem freeTaskHandles_good (h : DirsGood dirs) (task : Nat) :
    DirsGood (freeTaskHandles dirs task) := by
  refine h.freed fun d hused => ?_
  split at hused
  · exact absurd rfl hused
  next hne => exact ⟨hused, by rw [if_neg hne]⟩

theorem nwFreeDirHandle_good (h : DirsGood dirs) (dirHandle : Nat) :
    DirsGood (nwFreeDirHandle dirs dirHandle).1 := by
  unfold nwFreeDirHandle
  split
  · exact h
  · exact h.set fun hused => absurd rfl hused

theorem alterDirHandle_good (h : DirsGood dirs) {path : List UInt8} (hpath : PathGood path)
    (targetdir volume : Nat) (id : FileNumbers) (task : Nat) :
    DirsGood (alterDirHandle dirs targetdir volume path id task).1 := by
  unfold alterDirHandle
  cases hget : (if targetdir = 0 then none else dirs[targetdir - 1]?) with
  | none => exact h
  | some d =>
      dsimp only
      split
      · exact h
      · have hd : d ∈ dirs := by
          split at hget
          · cases hget
          · exact List.mem_of_getElem? hget
        exact h.set (changeDirEntry_good (h d hd) hpath volume id none none false task)

theorem xinsertNewDir_good (h : DirsGood dirs) {path : List UInt8} (hpath : PathGood path)
    (volume : Nat) (id : FileNumbers) (drive temp task : Nat) :
    DirsGood (xinsertNewDir dirs volume path id drive temp task).1 := by
  have hnew : ∀ d : NwDir, (d.id.ino ≠ 0 → PathGood d.path) →
      let d' := (changeDirEntry d volume path id (some drive) (some temp) true task).1
      d'.id.ino ≠ 0 → PathGood d'.path :=
    fun d hd => changeDirEntry_good hd hpath volume id (some drive) (some temp) true task
  unfold xinsertNewDir
  dsimp only
  split
  next j _ =>
    have hmodified : DirsGood (dirs.modify j fun d =>
        (changeDirEntry d volume path id (some drive) (some temp) true task).1) :=
      h.modify fun d hd => hnew d (h d hd)
    intro d hd
    rcases List.mem_append.mp hd with htake | hdrop
    · exact hmodified d (List.mem_of_mem_take htake)
    · exact hmodified d (List.mem_of_mem_drop ((List.rdropWhile_prefix _ _).subset hdrop))
  next =>
    split
    · intro d hd
      rcases List.mem_append.mp hd with hold | hlast
      · exact h d hold
      · rw [List.mem_singleton.mp hlast]
        exact hnew _ fun hused => absurd rfl hused
    · exact h

/-! ## Requests that change the table -/

/-- The login directory, as `nw_init_connect` spells it. -/
def loginDir (w : ConnWorld) (v : NwVol) : List UInt8 :=
  let login := loginName ++ [0x2f]
  if v.options.downshift then CText.visible (login.map w.down) else login

/-- The first volume is one, and its login directory is spelled so that it is known
again. -/
def InitOk (w : ConnWorld) : Prop :=
  ∀ v ∈ w.volumes.head?, VolOk w v ∧ v.unixname.length + 6 ≤ nameRoom ∧ isLoginPath w (loginDir w v)

theorem loginDir_good (hw : WorldOk w) (v : NwVol) :
    PathGood (loginDir w v) ∧ (loginDir w v).length = 6 := by
  have hplain : PathGood (loginName ++ [0x2f]) := ⟨by decide, by decide, .inr rfl⟩
  have hbecomes := caseFn_becomes hw v hplain.noNul
  have hlen := hbecomes.length_eq
  unfold loginDir
  dsimp only
  split
  next hdown =>
    have hcase : w.caseFn v (loginName ++ [0x2f]) =
        CText.visible ((loginName ++ [0x2f]).map w.down) := by
      unfold ConnWorld.caseFn
      rw [if_pos hdown]
    rw [hcase] at hbecomes hlen
    exact ⟨hplain.becomes hbecomes, hlen.symm⟩
  next => exact ⟨hplain, rfl⟩

theorem nwInitConnect_stays (hw : WorldOk w) (hinit : InitOk w) (hdirs : DirsGood dirs) :
    Stays w (nwInitConnect w dirs) fun r => DirsGood r.1 := by
  have hfreed : DirsGood (dirs.map NwDir.free) := hdirs.freed fun d hused => absurd rfl hused
  unfold nwInitConnect
  cases hvolumes : w.volumes with
  | nil => exact Ensures.pure hfreed
  | cons v vs =>
      obtain ⟨hv, hlen, hlogin⟩ := hinit v (by simp [hvolumes])
      obtain ⟨hpath, hpathLen⟩ := loginDir_good hw v
      have hgood : Good w nameRoom ⟨loginDir w v, [], some 0, 0⟩ :=
        ⟨⟨0, v, rfl, by simp [hvolumes], hv, by simp only [hpathLen, List.length_nil]; omega⟩, hpath,
          ⟨by simp, trivial⟩, fun _ => ⟨rfl, hlogin⟩⟩
      refine (stays_callStat (hgood.confined hw (by decide) false false _)).bind
        fun found _ => ?_
      cases found with
      | none => exact Ensures.pure hfreed
      | some st =>
          refine Ensures.pure ?_
          intro d hd hused
          rw [List.mem_singleton.mp hd] at hused ⊢
          refine changeDirEntry_good ?_ hpath 0 st.numbers.devAsInt (some 0) (some 0) true 0 hused
          cases dirs with
          | nil => exact fun hused => absurd rfl hused
          | cons d dirs => exact fun hused => absurd rfl hused

section Handles

variable {dirHandle : Nat} {data : List UInt8}

theorem nwAllocDirHandle_stays (hw : WorldOk w) (hdirs : DirsGood dirs)
    (hreq : PathOk w dirs dirHandle data true) (drive temp task : Nat) :
    Stays w (nwAllocDirHandle w dirs dirHandle data drive temp task) fun r => DirsGood r.1 := by
  unfold nwAllocDirHandle
  refine (kplPath_stays hw hdirs hreq).bind fun r hr => ?_
  refine (copyName_stays hw hr.1 (by decide) (by decide) false false).bind fun name hname => ?_
  exact (stays_call (hname.2 _)).bind fun _ _ =>
    Ensures.pure (xinsertNewDir_good hdirs hr.1.path _ _ drive temp task)

theorem nwSetDirHandle_stays (hw : WorldOk w) (hdirs : DirsGood dirs)
    (hreq : PathOk w dirs dirHandle data true) (targetdir task : Nat) :
    Stays w (nwSetDirHandle w dirs targetdir dirHandle data task) fun r => DirsGood r.1 := by
  unfold nwSetDirHandle
  refine (kplPath_stays hw hdirs hreq).bind fun r hr => Ensures.pure ?_
  exact alterDirHandle_good hdirs hr.1.path targetdir _ _ task

/-- The directory that is opened, with its separator. -/
theorem nwOpenDirHandle_stays (hw : WorldOk w) (hdirs : DirsGood dirs)
    (hreq : PathOk w dirs dirHandle data true) :
    Stays w (nwOpenDirHandle w dirs dirHandle data) fun r =>
      LeadsInto w r.1.volume r.2.1 ∧ r.2.1.length ≤ nameRoom := by
  unfold nwOpenDirHandle newDirHandle
  refine (kplPath_stays hw hdirs hreq).bind fun r hr => ?_
  obtain ⟨hgood, hfn⟩ := hr
  have hnil : r.1.fn = [] := List.forall₂_nil_left_iff.mp hfn
  have hlen := length_buildUnixName hw hgood (by decide) false false
  have hopen : Stays w (newDirHandle w r.1) fun x => x.1 = buildUnixName w r.1 false false ∧
      NameConfined w r.1.volume x.1 := by
    unfold newDirHandle
    refine (copyName_stays hw hgood (by decide) (by decide) false false).bind
      fun name hname => ?_
    refine (stays_call (hname.2 _)).bind fun denied _ => Ensures.ite (fun _ => stays_stop)
      fun _ => ?_
    refine (stays_callOpendir (hname.2 _)).bind fun entries _ => ?_
    cases entries with
    | none => exact stays_stop
    | some entries => exact Ensures.pure hname
  refine hopen.bind fun x hx => ?_
  obtain ⟨htext, hname⟩ := hx
  refine (stays_callStat (hname _)).bind fun _ _ => ?_
  refine (stays_call (hname _)).bind fun rights _ => Ensures.pure ?_
  dsimp only
  rw [htext]
  exact ⟨hgood.leadsInto_dir hw (by decide) hnil, hlen⟩

theorem scanDirInfoLoop_stays (hw : WorldOk w) {v : NwVol} {p : NwPath}
    {unixname wild : List UInt8} {noSearchTrustee : Bool}
    (hdir : LeadsInto w p.volume unixname) {ds : List Dirent} (hds : ∀ d ∈ ds, EntryOk d)
    (count : Nat) :
    Stays w (scanDirInfoLoop w v p unixname wild noSearchTrustee ds count) fun _ => True := by
  induction ds generalizing count with
  | nil => exact Ensures.pure trivial
  | cons d ds ih =>
      have hrest : ∀ d ∈ ds, EntryOk d := fun d hd => hds d (List.mem_cons_of_mem _ hd)
      rw [scanDirInfoLoop]
      refine (tryEntry_stays hw hdir (hds d List.mem_cons_self)).bind fun found hfound => ?_
      cases found with
      | none => exact ih hrest count
      | some x =>
          exact Ensures.ite (fun _ => stays_call ((hfound _ rfl).2 _)) fun _ =>
            ih hrest (count - 1)

/-- The directory that `nw_scan_dir_info` opens: the path up to its last separator. -/
def scanDirPath (data : List UInt8) : List UInt8 :=
  data.rdropWhile fun c => ¬(c = 0x2f ∨ c = 0x5c ∨ c = 0x3a)

theorem nwScanDirInfo_stays (hw : WorldOk w) (hdirs : DirsGood dirs)
    (hreq : PathOk w dirs dirHandle (scanDirPath data) true) (subnr : Nat) :
    Stays w (nwScanDirInfo w dirs dirHandle data subnr) fun _ => True := by
  unfold nwScanDirInfo
  refine (nwOpenDirHandle_stays hw hdirs hreq).bind ?_
  rintro ⟨p, unixname, noSearchTrustee, rights⟩ ⟨hdir, hlen⟩
  dsimp only at hdir hlen
  refine Ensures.ite (fun _ => Ensures.pure trivial) fun _ => ?_
  dsimp only
  split
  · exact Ensures.pure trivial
  · refine Ensures.ite (fun _ => ?_) fun _ => ?_
    · have hself := hdir [] trivial
      rw [List.append_nil] at hself
      refine (stays_callOpendir (hself _)).bind fun entries hentries => ?_
      cases entries with
      | none => exact Ensures.pure trivial
      | some entries =>
          exact scanDirInfoLoop_stays hw hdir (hw.entries _ _ hentries.symm) subnr
    · have hpoint := hdir [0x2e] ⟨by simp, trivial⟩
      refine (putBehind_stays (by rw [nameRoom] at hlen; omega) 0x2e).bind
        fun itself hitself => ?_
      subst hitself
      refine (stays_callStat (hpoint _)).bind fun found _ => ?_
      cases found with
      | none => exact Ensures.pure trivial
      | some st => exact stays_call (hpoint _)

/-! ## Making, removing and renaming -/

theorem nwUnlinkNode_stays (hdirs : DirsGood dirs) {volume : Option Nat} {unname : List UInt8}
    (hname : NameConfined w volume unname) (st : FileStat) :
    Stays w (nwUnlinkNode w dirs volume unname st) fun r => DirsGood r.1 := by
  unfold nwUnlinkNode
  refine (stays_call (hname _)).bind fun attrib _ => Ensures.ite (fun _ => Ensures.pure hdirs)
    fun _ => ?_
  refine (stays_call (hname _)).bind fun denied _ => Ensures.ite (fun _ => Ensures.pure hdirs)
    fun _ => ?_
  refine Ensures.ite (fun _ => ?_) fun _ => Ensures.ite (fun _ => Ensures.pure hdirs) fun _ => ?_
  · refine (stays_call (hname _)).bind fun result _ => Ensures.pure ?_
    dsimp only
    split
    · exact freeDirStuff_good hdirs st.numbers
    · exact hdirs
  · exact (stays_call (hname _)).bind fun _ _ => Ensures.pure hdirs

/-- The parent of a name of its own is the directory of the path. -/
theorem parentName_confined (hw : WorldOk w) {room : Nat} {q : NwPath} (hq : Good w room q)
    (hroom : room ≤ 299) (hfn : q.fn ≠ []) (hsep : (0x2f : UInt8) ∉ q.fn) {path : List UInt8}
    (h : parentName (buildUnixName w q false true) = some path) :
    NameConfined w q.volume path := by
  obtain ⟨j, v, hvolume, hj, hv, -⟩ := hq.volume
  have hends := NwVol.ends_of_ne hv.nonempty
  have hkept : (buildUnixName w q false true).rdropWhile (fun c => c ≠ 0x2f) =
      v.unixname ++ q.path.map w.dos2unix := by
    have hmap : ∀ c ∈ q.fn.map w.dos2unix, decide (c ≠ 0x2f) = true := by
      intro c hc
      obtain ⟨d, hd, rfl⟩ := List.mem_map.mp hc
      refine decide_eq_true fun heq => hsep ?_
      rwa [← (hw.keeps_dos2unix 0x2f (by simp) d).mp heq]
    have hlast : (v.unixname ++ q.path.map w.dos2unix).getLast? = some 0x2f := by
      rcases hq.path.ends with hnil | hlast
      · simpa [hnil] using hends
      · have hsep := (hw.keeps_dos2unix 0x2f (by simp) 0x2f).mpr rfl
        rw [List.getLast?_append, List.getLast?_map, hlast, Option.map_some, hsep, Option.some_or]
    obtain ⟨r, hr⟩ := List.getLast?_eq_some_iff.mp hlast
    rw [buildUnixName_eq hw hq hroom hvolume hj, if_neg (by simp [hfn])]
    simp only [Bool.false_eq_true, if_false, List.map_append]
    rw [← List.append_assoc, hr, List.rdropWhile, List.reverse_append,
      List.dropWhile_append_of_pos (fun c hc => hmap c (List.mem_reverse.mp hc))]
    simp
  unfold parentName at h
  dsimp only at h
  rw [hkept] at h
  split at h
  next hlong =>
    obtain rfl := Option.some.inj h
    refine fun c => confined_dropLast hw hq hvolume hj ?_ c
    simpa using hlong
  next hshort =>
    split at h
    · obtain rfl := Option.some.inj h
      have hpos := List.length_pos_iff.mpr hv.nonempty
      simp only [List.length_append, List.length_map] at hshort
      have hroot : q.path = [] := List.eq_nil_of_length_eq_zero (by omega)
      have hsingle : v.unixname = [0x2f] := by
        obtain ⟨r, hr⟩ := List.getLast?_eq_some_iff.mp hends
        have hlen := congrArg List.length hr
        rw [List.length_append, List.length_singleton] at hlen
        obtain rfl : r = [] := List.eq_nil_of_length_eq_zero (by omega)
        exact hr
      intro c
      have hconf := confined_path hw hq hvolume hj hv
        (show unixSyntax.Avoids .point .start [0x2e] from ⟨by simp, trivial⟩) c
      simpa [hroot, hsingle] using hconf
    · cases h

theorem nwMkRdDir_stays (hw : WorldOk w) (hdirs : DirsGood dirs) {mode : Bool}
    (hreq : PathOk w dirs dirHandle data (!mode))
    (hname : mode = true → requestName data ≠ []) :
    Stays w (nwMkRdDir w dirs dirHandle data mode) fun r => DirsGood r.1 := by
  unfold nwMkRdDir
  refine (kplPath_stays hw hdirs hreq).bind fun r hr => ?_
  obtain ⟨hgood, hbecomes⟩ := hr
  refine (copyName_stays hw hgood (by decide) (by decide) false true).bind
    fun unname hunname => ?_
  refine Ensures.ite (fun hmode => ?_) fun _ => ?_
  · subst hmode
    have hmake : Stays w (nwCreatDirNode w r.1.volume unname) fun _ => True := by
      unfold nwCreatDirNode
      cases hparent : parentName unname with
      | none => exact Ensures.pure trivial
      | some path =>
          have hsep := (nameGood_requestName (hreq.name rfl).2).2
          have hconf := parentName_confined hw hgood (by decide)
            (fun hnil => hname rfl (List.forall₂_nil_right_iff.mp (hnil ▸ hbecomes)))
            (fun hmem => hsep ((becomesText_mem hbecomes (by simp)).mpr hmem))
            (hunname.1 ▸ hparent)
          refine (stays_callStat (hconf _)).bind fun found _ => ?_
          cases found with
          | none => exact Ensures.pure trivial
          | some st =>
              refine (stays_call (hconf _)).bind fun denied _ => Ensures.ite
                (fun _ => Ensures.pure trivial) fun _ => ?_
              exact (stays_call (hunname.2 _)).bind fun _ _ => Ensures.pure trivial
    exact hmake.bind fun _ _ => Ensures.pure hdirs
  · refine (stays_callStat (hunname.2 _)).bind fun found _ => ?_
    cases found with
    | none => exact Ensures.pure hdirs
    | some st => exact nwUnlinkNode_stays hdirs hunname.2 st

theorem callMove_stays {c : FsCall} {volume destVolume : Option Nat} {source dest : List UInt8}
    (hsource : NameConfined w volume source) (hdest : NameConfined w destVolume dest) :
    Stays w (callMove w c volume source destVolume dest) fun _ => True :=
  (Ensures.emit (hsource c)).bind fun _ _ => stays_call (hdest c)

/-- A new name for a directory: room is left for it, and it does not climb. -/
structure MoveOk (w : ConnWorld) (dirs : Dirs) (dirHandle : Nat)
    (sourcedata destdata : List UInt8) : Prop where
  source : RequestOk w dirs dirHandle sourcedata false (nameRoom - destdata.length)
  length : destdata.length ≤ nameRoom
  climbs : unixSyntax.Avoids .point .start (CText.visible destdata)

theorem mvDir_stays (hw : WorldOk w) (hdirs : DirsGood dirs) {sourcedata destdata : List UInt8}
    (hreq : MoveOk w dirs dirHandle sourcedata destdata) :
    Stays w (mvDir w dirs dirHandle sourcedata destdata) fun _ => True := by
  have hroom : nameRoom = 242 := rfl
  have hdest := hreq.length
  have hvisible : (CText.visible destdata).length ≤ destdata.length :=
    (List.takeWhile_prefix _).length_le
  unfold mvDir
  refine (connGetKplPath_stays hw hdirs (by omega) hreq.source).bind fun r hr => ?_
  have hquell := hr.1
  refine (copyName_stays hw hquell (by omega) (by omega) false false).bind fun qfn hqfn => ?_
  refine (xstrcpy_stays (by omega)).bind fun fn hfn => ?_
  subst hfn
  dsimp only
  split
  · exact stays_stop
  next v _ =>
    have hcase := caseFn_becomes hw v (CText.noNul_visible destdata)
    have hcaseLen := hcase.length_eq
    have hziel : Good w nameRoom { r.1 with fn := w.caseFn v (CText.visible destdata) } := by
      refine hquell.withFn (NameGood.becomes ⟨CText.noNul_visible _, hreq.climbs⟩ hcase) ?_
      omega
    refine (copyName_stays hw hziel (by decide) (by decide) true false).bind
      fun zpath hzpath => ?_
    refine (stays_callStat (hqfn.2 _)).bind fun found _ => ?_
    cases found with
    | none => exact Ensures.pure trivial
    | some st =>
        refine (stays_call (hqfn.2 _)).bind fun denied _ => Ensures.ite
          (fun _ => Ensures.pure trivial) fun _ => ?_
        refine (stays_callStat (hzpath.2 _)).bind fun found _ => ?_
        cases found with
        | none => exact Ensures.pure trivial
        | some st =>
            refine (stays_call (hzpath.2 _)).bind fun denied _ => Ensures.ite
              (fun _ => Ensures.pure trivial) fun _ => ?_
            refine (copyName_stays hw hziel (by decide) (by decide) false false).bind
              fun unziel hunziel => ?_
            exact (callMove_stays hqfn.2 hunziel.2).bind fun _ _ => Ensures.pure trivial

/-! ## All files that match -/

theorem doDeleteFile_stays (hw : WorldOk w) {p : NwPath} (hp : Good w nameRoom p) :
    KeepsGood w p (doDeleteFile w) := by
  intro dirs fn st hdirs hfn
  have hgood := hp.found hfn le_rfl
  unfold doDeleteFile
  refine (copyName_stays hw hgood (by decide) (by decide) false false).bind fun name hname => ?_
  exact nwUnlinkNode_stays hdirs hname.2 st

theorem doSetFileInfo_stays (hw : WorldOk w) (v : NwVol) {p : NwPath} (hp : Good w nameRoom p) :
    KeepsGood w p (doSetFileInfo w v) := by
  intro dirs fn st hdirs hfn
  have hgood := hp.found hfn le_rfl
  unfold doSetFileInfo
  refine (copyName_stays hw hgood (by decide) (by decide) false false).bind fun name hname => ?_
  refine (stays_callStat (hname.2 _)).bind fun found _ => ?_
  cases found with
  | none => exact Ensures.pure hdirs
  | some st =>
      refine Ensures.ite (fun _ => Ensures.pure hdirs) fun _ => ?_
      refine (stays_call (hname.2 _)).bind fun denied _ => Ensures.ite
        (fun _ => Ensures.pure hdirs) fun _ => ?_
      refine (stays_call (hname.2 _)).bind fun result _ => Ensures.ite
        (fun _ => Ensures.pure hdirs) fun _ => ?_
      exact (stays_call (hname.2 _)).bind fun _ _ => Ensures.pure hdirs

/-- The name begins with a character that stands for itself. -/
def BeginsPlain (pattern : List UInt8) : Prop := ∀ c ∈ pattern.head?, ¬isPoint c ∧ ¬isQuery c

instance (pattern : List UInt8) : Decidable (BeginsPlain pattern) :=
  decidable_of_iff (pattern.head?.all fun c => ¬isPoint c ∧ ¬isQuery c) (by
    unfold BeginsPlain
    cases pattern.head? <;> simp)

theorem BeginsPlain.becomes (hwild : KeepsWild w) {s t : List UInt8} (h : BeginsPlain s)
    (hst : BecomesText w s t) : BeginsPlain t := by
  cases hst with
  | nil => exact h
  | @cons c d _ _ hcd _ =>
      intro b hb
      obtain rfl : d = b := by simpa using hb
      obtain ⟨hpoint, hquery⟩ := h c (by simp)
      refine ⟨?_, ?_⟩
      · rintro (hd | hd)
        · exact hpoint (.inl ((hcd.path 0x2e (by simp)).mpr hd))
        · exact hpoint (.inr (hcd.wild hwild 0xae (by simp) hd))
      · rintro (hd | hd)
        · exact hquery (.inl (hcd.wild hwild 0x3f (by simp) hd))
        · exact hquery (.inr (hcd.wild hwild 0xbf (by simp) hd))

theorem length_wildName_le (otopath frompath : List UInt8) :
    (wildName otopath frompath).length ≤ otopath.length := by
  induction otopath generalizing frompath with
  | nil => exact Nat.zero_le _
  | cons c otopath ih =>
      have hskip := ih (skipOne frompath)
      have hpoint := ih (frompath.dropWhile fun c => ¬isPoint c).tail
      rw [wildName, List.length_cons]
      split
      · rw [List.length_append]
        have hone : (frompath.head?.filter fun c => ¬isPoint c).toList.length ≤ 1 := by
          cases frompath.head?.filter fun c => ¬isPoint c <;> simp
        omega
      · split
        · dsimp only
          split
          · omega
          · rw [List.length_cons]
            omega
        · rw [List.length_cons]
          omega

/-- What a plain beginning gives does not climb. -/
theorem wildName_good {pattern fn : List UInt8} (hpattern : NameGood pattern)
    (hsep : (0x2f : UInt8) ∉ pattern) (hplain : BeginsPlain pattern) (hfn : (0 : UInt8) ∉ fn)
    (hfnSep : (0x2f : UInt8) ∉ fn) : NameGood (wildName pattern fn) := by
  refine ⟨fun hmem => ?_, avoids_of_head (fun hmem => ?_) ?_⟩
  · rcases mem_wildName hmem with hto | hfrom | hpoint
    · exact hpattern.noNul hto
    · exact hfn hfrom
    · exact absurd hpoint (by decide)
  · rcases mem_wildName hmem with hto | hfrom | hpoint
    · exact hsep hto
    · exact hfnSep hfrom
    · exact absurd hpoint (by decide)
  · cases pattern with
    | nil => simp [wildName]
    | cons c pattern =>
        obtain ⟨hpoint, hquery⟩ := hplain c rfl
        rw [wildName, if_neg hquery, if_neg hpoint]
        exact fun hhead => hpoint (.inl (Option.some.inj hhead))

theorem doMvFile_stays (hw : WorldOk w) {p destpath : NwPath} (hp : Good w nameRoom p)
    (hdest : Good w nameRoom destpath) (hsep : (0x2f : UInt8) ∉ destpath.fn)
    (hplain : BeginsPlain destpath.fn) : KeepsGood w p (doMvFile w destpath) := by
  intro dirs fn st hdirs hfn
  have hgood := hp.found hfn le_rfl
  unfold doMvFile
  refine (copyName_stays hw hgood (by decide) (by decide) false false).bind
    fun source hsource => ?_
  refine (stays_callStat (hsource.2 _)).bind fun found _ => ?_
  cases found with
  | none => exact Ensures.pure hdirs
  | some _ =>
      refine (stays_call (hsource.2 _)).bind fun denied _ => Ensures.ite
        (fun _ => Ensures.pure hdirs) fun _ => Ensures.ite (fun _ => Ensures.pure hdirs)
          fun _ => ?_
      have hnew : Good w nameRoom { destpath with fn := wildName destpath.fn fn } :=
        hdest.withFn (wildName_good hdest.fn hsep hplain hfn.good.noNul hfn.noSep)
          (Nat.add_le_add_left (length_wildName_le destpath.fn fn) _)
      refine (copyName_stays hw hnew (by decide) (by decide) false false).bind
        fun undest hundest => ?_
      exact (callMove_stays hsource.2 hundest.2).bind fun _ _ => Ensures.pure hdirs

theorem searched_good {m : Conn (Dirs × Int)} (hm : Stays w m fun r => DirsGood r.1) :
    Stays w (do let r ← m; return searched r) fun r => DirsGood r.1 := by
  refine hm.bind fun r hr => Ensures.pure ?_
  unfold searched
  split <;> exact hr

theorem nwDeleteFiles_stays (hw : WorldOk w) (hdirs : DirsGood dirs)
    (hreq : PathOk w dirs dirHandle data false) (attrib : UInt32) :
    Stays w (nwDeleteFiles w dirs dirHandle attrib data) fun r => DirsGood r.1 := by
  unfold nwDeleteFiles
  refine (kplPath_stays hw hdirs hreq).bind fun r hr => ?_
  exact searched_good (funcSearchEntry_stays hw hr.1 (doDeleteFile_stays hw hr.1) hdirs)

theorem nwSetFileInformation_stays (hw : WorldOk w) (hdirs : DirsGood dirs)
    (hreq : PathOk w dirs dirHandle data false) (attrib : UInt32) :
    Stays w (nwSetFileInformation w dirs dirHandle data attrib) fun r => DirsGood r.1 := by
  unfold nwSetFileInformation
  refine (kplPath_stays hw hdirs hreq).bind fun r hr => ?_
  dsimp only
  split
  · exact Ensures.pure hdirs
  next v _ =>
    exact searched_good (funcSearchEntry_stays hw hr.1 (doSetFileInfo_stays hw v hr.1) hdirs)

/-- Renames with a pattern: where both lead is safe, and the pattern begins with a
character that stands for itself, also after the tables. -/
structure RenameOk (w : ConnWorld) (dirs : Dirs) (sourcedirhandle : Nat)
    (sourcedata : List UInt8) (destdirhandle : Nat) (destdata : List UInt8) : Prop where
  source : PathOk w dirs sourcedirhandle sourcedata false
  dest : PathOk w dirs destdirhandle destdata false
  plain : BeginsPlain (requestName destdata)
  tables : KeepsWild w

theorem nwMvFiles_stays (hw : WorldOk w) (hdirs : DirsGood dirs) {hs hd : Nat}
    {source dest : List UInt8} (hreq : RenameOk w dirs hs source hd dest) (attrib : UInt32) :
    Stays w (nwMvFiles w dirs attrib hs source hd dest) fun r => DirsGood r.1 := by
  unfold nwMvFiles
  refine (kplPath_stays hw hdirs hreq.source).bind fun p hp => ?_
  refine (kplPath_stays hw hdirs hreq.dest).bind fun q hq => ?_
  obtain ⟨hq, hbecomes⟩ := hq
  have hsep : (0x2f : UInt8) ∉ q.1.fn := fun hmem =>
    (nameGood_requestName (hreq.dest.name rfl).2).2 ((becomesText_mem hbecomes (by simp)).mpr hmem)
  have hplain := hreq.plain.becomes hreq.tables hbecomes
  refine (copyName_stays hw hq (by decide) (by decide) true false).bind fun name hname => ?_
  refine (stays_call (hname.2 _)).bind fun denied _ => Ensures.ite
    (fun _ => Ensures.pure hdirs) fun _ => ?_
  refine (funcSearchEntry_stays hw hp.1 (doMvFile_stays hw hp.1 hq hsep hplain) hdirs).bind
    fun r hr => Ensures.pure ?_
  split
  · exact hr
  · split <;> exact hr

end Handles

/-! ## Runs -/

/-- What a request has to meet in the state it is made in. The paths that the name
space calls bring along are good ones; a new directory has a name of its own. -/
def RequestSafe (w : ConnWorld) (dirs : Dirs) : PathRequest → Prop
  | .initConnect => InitOk w
  | .freeHandles _ => True
  | .freeDirHandle _ => True
  | .nameSpaceAlloc _ path _ _ _ => PathGood path
  | .nameSpaceAlter _ _ path _ _ => PathGood path
  | .allocDirHandle h data _ _ _ => PathOk w dirs h data true
  | .setDirHandle _ h data _ => PathOk w dirs h data true
  | .openDirHandle h data => PathOk w dirs h data true
  | .scanDirInfo h data _ => PathOk w dirs h (scanDirPath data) true
  | .search h _ _ data => PathOk w dirs h data false
  | .scanADirectory h data _ _ => PathOk w dirs h data false
  | .scanARootDir h => PathOk w dirs h [] true
  | .setADirectoryEntry h data _ _ => PathOk w dirs h data false
  | .addTrustee h data _ => PathOk w dirs h data false
  | .delTrustee h data _ => PathOk w dirs h data false
  | .scanForTrustee h data extended => PathOk w dirs h data (!extended)
  | .getEffDirRights h data _ => PathOk w dirs h data false
  | .setDirInfo h data => PathOk w dirs h data false
  | .setFileAttributes h data => PathOk w dirs h data false
  | .creatOpenFile h data => PathOk w dirs h data false
  | .logFile h data _ => PathOk w dirs h data false
  | .mkdir h data => PathOk w dirs h data false ∧ requestName data ≠ []
  | .rmdir h data => PathOk w dirs h data true
  | .mvDir h source dest => MoveOk w dirs h source dest
  | .mvFiles _ hs source hd dest => RenameOk w dirs hs source hd dest
  | .deleteFiles h _ data => PathOk w dirs h data false
  | .setFileInformation h data _ => PathOk w dirs h data false

theorem keepDirs_stays (hdirs : DirsGood dirs) {m : Conn Int}
    (hm : Stays w m fun _ => True) : Stays w (keepDirs dirs m) fun r => DirsGood r.1 :=
  hm.bind fun _ _ => Ensures.pure hdirs

/-- One request: its names are confined, no buffer is overrun, and the handles stay good. -/
theorem pathRequest_stays (hw : WorldOk w) (hdirs : DirsGood dirs) {r : PathRequest}
    (hsafe : RequestSafe w dirs r) :
    Stays w (pathRequest w dirs r) fun out => DirsGood out.1 := by
  cases r with
  | initConnect => exact nwInitConnect_stays hw hsafe hdirs
  | freeHandles task => exact Ensures.pure (freeTaskHandles_good hdirs task)
  | freeDirHandle h => exact Ensures.pure (nwFreeDirHandle_good hdirs h)
  | nameSpaceAlloc volume path id isTemp task =>
      exact Ensures.pure (xinsertNewDir_good hdirs hsafe volume id.asInts 300 isTemp task)
  | nameSpaceAlter target volume path id task =>
      exact Ensures.pure (alterDirHandle_good hdirs hsafe target volume id.asInts task)
  | allocDirHandle h data drive isTemp task =>
      exact nwAllocDirHandle_stays hw hdirs hsafe drive isTemp task
  | setDirHandle target h data task => exact nwSetDirHandle_stays hw hdirs hsafe target task
  | openDirHandle h data =>
      exact (nwOpenDirHandle_stays hw hdirs hsafe).bind fun _ _ => Ensures.pure hdirs
  | scanDirInfo h data subnr =>
      exact keepDirs_stays hdirs (nwScanDirInfo_stays hw hdirs hsafe subnr)
  | search h sequence attrib data =>
      exact keepDirs_stays hdirs (nwSearch_stays hw hdirs hsafe sequence attrib)
  | scanADirectory h data attrib searchbeg =>
      exact keepDirs_stays hdirs (nwScanADirectory_stays hw hdirs hsafe attrib searchbeg)
  | scanARootDir h => exact keepDirs_stays hdirs (nwScanARootDir_stays hw hdirs hsafe)
  | setADirectoryEntry h data attrib changeMask =>
      exact keepDirs_stays hdirs (nwSetADirectoryEntry_stays hw hdirs hsafe attrib changeMask)
  | addTrustee h data extended =>
      exact keepDirs_stays hdirs (checkedCall_stays hw hdirs hsafe (!extended) .addTrustee)
  | delTrustee h data extended =>
      exact keepDirs_stays hdirs (checkedCall_stays hw hdirs hsafe (!extended) .delTrustee)
  | scanForTrustee h data extended =>
      exact keepDirs_stays hdirs (checkedCall_stays hw hdirs hsafe (!extended) .getTrusteeSet)
  | getEffDirRights h data modus =>
      exact keepDirs_stays hdirs (checkedCall_stays hw hdirs hsafe (!modus) .getEffRights)
  | setDirInfo h data => exact keepDirs_stays hdirs (nwSetDirInfo_stays hw hdirs hsafe)
  | setFileAttributes h data =>
      exact keepDirs_stays hdirs (nwSetFileAttributes_stays hw hdirs hsafe)
  | creatOpenFile h data => exact keepDirs_stays hdirs (nwCreatOpenFile_stays hw hdirs hsafe)
  | logFile h data lockFlag =>
      exact keepDirs_stays hdirs (nwLogFile_stays hw hdirs hsafe lockFlag)
  | mkdir h data => exact nwMkRdDir_stays hw hdirs hsafe.1 fun _ => hsafe.2
  | rmdir h data => exact nwMkRdDir_stays hw hdirs hsafe fun h => by cases h
  | mvDir h source dest => exact keepDirs_stays hdirs (mvDir_stays hw hdirs hsafe)
  | mvFiles attrib hs source hd dest => exact nwMvFiles_stays hw hdirs hsafe attrib
  | deleteFiles h attrib data => exact nwDeleteFiles_stays hw hdirs hsafe attrib
  | setFileInformation h data attrib =>
      exact nwSetFileInformation_stays hw hdirs hsafe attrib

end

/-- A step of the server with a safe request in a proper world. -/
def SafeStep (dirs : Dirs) (e : ConnWorld × PathRequest) : Prop :=
  WorldOk e.1 ∧ RequestSafe e.1 dirs e.2

/-- What such a step passes on leads into the volumes, and no buffer is overrun. -/
def ConfinedStep (dirs : Dirs) (e : ConnWorld × PathRequest) : Prop :=
  (∀ x ∈ (pathMachine.step dirs e).1.2, Confined e.1 x) ∧
    (pathMachine.step dirs e).1.1 ≠ .error .overrun

theorem SafeStep.confined {dirs : Dirs} {e : ConnWorld × PathRequest} (hdirs : DirsGood dirs)
    (h : SafeStep dirs e) : ConfinedStep dirs e ∧ DirsGood (pathMachine.step dirs e).2 := by
  have hstays := pathRequest_stays h.1 hdirs h.2
  unfold ConfinedStep pathMachine
  dsimp only
  cases hresult : (pathRequest e.1 dirs e.2).result with
  | ok out => exact ⟨⟨hstays.log, by simp⟩, hstays.ok out hresult⟩
  | error stop =>
      exact ⟨⟨hstays.log, fun heq => hstays.error stop hresult (Except.error.inj heq)⟩, hdirs⟩

theorem flatServer_pathOk {dirs : Dirs} {d : NwDir} {dirHandle : Nat} {data : List UInt8}
    {onlyDir : Bool} (hdir : usedDir dirs dirHandle = some d) (hvolume : d.volume = 0)
    (hdata : (buildPath flatServer data onlyDir).1.volume = none)
    (hlen : d.path.length + data.length ≤ 200)
    (hname : onlyDir = false → ColonsFirst data ∧ ¬[0x2e, 0x2e] <+: requestName data) :
    PathOk flatServer dirs dirHandle data onlyDir := by
  refine ⟨fun j n hstart => ?_, hname⟩
  unfold startOf at hstart
  rw [hdata, hdir] at hstart
  obtain ⟨rfl, rfl⟩ : d.volume = j ∧ d.path.length = n := by simpa using hstart
  refine ⟨by omega, fun v hv => ?_⟩
  rw [hvolume] at hv
  obtain rfl := Option.some.inj hv
  refine ⟨⟨by decide, by decide, rfl⟩, fun h => (by cases h), ?_⟩
  change 3 + d.path.length + data.length < nameRoom
  rw [nameRoom]
  omega

end MarsNwe
