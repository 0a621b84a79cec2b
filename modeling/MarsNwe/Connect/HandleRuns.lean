import MarsNwe.Connect.DirHandles

/-! # Directory handles through all requests

What a handle stands for changes only by the requests that are about it, about its task
or about its directory.
-/

namespace MarsNwe

open Logged

variable {w : ConnWorld} {dirs dirs' dirs'' : Dirs} {log log' : List Passed}

/-! ## Directories that are removed -/

/-- A call of `rmdir` has succeeded, and the file has been looked at. -/
def Removed (w : ConnWorld) (log : List Passed) (id : FileNumbers) : Prop :=
  (∃ x ∈ log, x.call = .rmdir ∧ w.answer .rmdir x.volume x.name = 0) ∧
    ∃ y ∈ log, y.call = .stat ∧ ∃ st, w.stat y.name = some st ∧ st.numbers = id

theorem Removed.mono {id : FileNumbers} (h : Removed w log id) (hlog : log ⊆ log') :
    Removed w log' id := by
  obtain ⟨⟨x, hx, hrmdir⟩, y, hy, hstat⟩ := h
  exact ⟨⟨x, hlog hx, hrmdir⟩, y, hlog hy, hstat⟩

/-- Only the handles of directories that are removed stand for nothing any more. -/
structure OnlyGone (w : ConnWorld) (log : List Passed) (dirs dirs' : Dirs) : Prop where
  length : dirs'.length = dirs.length
  used : ∀ k, usedDir dirs' k = usedDir dirs k ∨
    usedDir dirs' k = none ∧ ∃ d, usedDir dirs k = some d ∧ Removed w log d.id

namespace OnlyGone

theorem refl (dirs : Dirs) : OnlyGone w log dirs dirs := ⟨rfl, fun _ => .inl rfl⟩

theorem mono (h : OnlyGone w log dirs dirs') (hlog : log ⊆ log') : OnlyGone w log' dirs dirs' := by
  refine ⟨h.length, fun k => (h.used k).imp_right ?_⟩
  rintro ⟨hnone, d, hd, hgone⟩
  exact ⟨hnone, d, hd, hgone.mono hlog⟩

theorem trans (h : OnlyGone w log dirs dirs') (h' : OnlyGone w log dirs' dirs'') :
    OnlyGone w log dirs dirs'' := by
  refine ⟨h'.length.trans h.length, fun k => ?_⟩
  rcases h'.used k with hsame' | ⟨hnone', d, hd, hgone⟩
  · rw [hsame']
    exact h.used k
  · rcases h.used k with hsame | ⟨hnone, -⟩
    · exact .inr ⟨hnone', d, hsame ▸ hd, hgone⟩
    · rw [hnone] at hd
      cases hd

/-- The handles of one directory. -/
theorem freeDirStuff {st : FileStat} (h : Removed w log st.numbers) :
    OnlyGone w log dirs (freeDirStuff dirs st.numbers) := by
  refine ⟨List.length_map _, fun k => ?_⟩
  rw [freeDirStuff_used]
  cases hd : usedDir dirs k with
  | none => exact .inl rfl
  | some d =>
      rw [Option.filter_some]
      by_cases hid : d.id = st.numbers
      · rw [if_neg (by simpa using hid)]
        exact .inr ⟨rfl, d, rfl, hid ▸ h⟩
      · rw [if_pos (decide_eq_true hid)]
        exact .inl rfl

end OnlyGone

/-! ## Calls -/

/-- The file of a `stat` has been looked at. -/
def Seen (w : ConnWorld) (log : List Passed) (st : FileStat) : Prop :=
  ∃ y ∈ log, y.call = .stat ∧ w.stat y.name = some st

theorem Seen.mono {st : FileStat} (h : Seen w log st) (hlog : log ⊆ log') : Seen w log' st := by
  obtain ⟨y, hy, hstat⟩ := h
  exact ⟨y, hlog hy, hstat⟩

theorem call_ends (c : FsCall) (volume : Option Nat) (name : List UInt8) :
    Ends log (w.call c volume name) fun result log' =>
      result = w.answer c volume name ∧ ⟨c, volume, name⟩ ∈ log' :=
  .bind (.emit (Q := fun _ log' => ⟨c, volume, name⟩ ∈ log')
    (List.mem_append_right _ List.mem_cons_self)) fun _ _ _ hmem => .pure ⟨rfl, hmem⟩

theorem callStat_ends (volume : Option Nat) (name : List UInt8) :
    Ends log (w.callStat volume name) fun found log' => ∀ st, found = some st → Seen w log' st :=
  .bind (.emit (Q := fun _ log' => ⟨.stat, volume, name⟩ ∈ log')
    (List.mem_append_right _ List.mem_cons_self)) fun _ _ _ hmem =>
      .pure fun _ hst => ⟨_, hmem, rfl, hst⟩

/-! ## Removing -/

theorem nwUnlinkNode_ends {st : FileStat} {start : Dirs} (hst : Seen w log st)
    (hdirs : OnlyGone w log start dirs) (volume : Option Nat) (unname : List UInt8) :
    Ends log (nwUnlinkNode w dirs volume unname st) fun out log' =>
      OnlyGone w log' start out.1 := by
  unfold nwUnlinkNode
  refine .after fun attrib seen hseen => .ite (fun _ => .pure (hdirs.mono hseen)) fun _ => ?_
  have hdirs := hdirs.mono hseen
  refine .after fun denied seen' hseen' => .ite (fun _ => .pure (hdirs.mono hseen')) fun _ => ?_
  have hdirs := hdirs.mono hseen'
  have hst := (hst.mono hseen).mono hseen'
  refine .ite (fun _ => ?_) fun _ => .ite (fun _ => .pure hdirs) fun _ => ?_
  · refine .bind (call_ends .rmdir volume unname) fun result seen'' hseen'' hrmdir => .pure ?_
    have hdirs := hdirs.mono hseen''
    dsimp only
    split
    next hdone =>
      obtain ⟨y, hy, hstat⟩ := hst.mono hseen''
      exact hdirs.trans (.freeDirStuff ⟨⟨_, hrmdir.2, rfl, hrmdir.1.symm.trans hdone⟩, y, hy,
        hstat.1, st, hstat.2, rfl⟩)
    · exact hdirs
  · exact .after fun _ _ hseen'' => .pure (hdirs.mono hseen'')

theorem nwMkRdDir_ends (dirs : Dirs) (dirHandle : Nat) (data : List UInt8) (mode : Bool) :
    Ends log (nwMkRdDir w dirs dirHandle data mode) fun out log' =>
      OnlyGone w log' dirs out.1 := by
  unfold nwMkRdDir
  refine .after fun p seen hseen => .after fun unname seen' hseen' => ?_
  refine .ite (fun _ => .after fun _ _ _ => .pure (.refl dirs)) fun _ => ?_
  refine .bind (callStat_ends _ _) fun found seen'' hseen'' hfound => ?_
  cases found with
  | none => exact .pure (.refl dirs)
  | some st => exact nwUnlinkNode_ends (hfound st rfl) (.refl dirs) _ _

theorem tryEntry_ends (v : NwVol) (volume : Option Nat) (dir entry : List UInt8)
    (attrib : UInt32) (noSearchTrustee : Bool) (d : Dirent) :
    Ends log (tryEntry w v volume dir entry attrib noSearchTrustee d) fun found log' =>
      ∀ dname st, found = some (dname, st) → Seen w log' st := by
  have hnone : ∀ {log : List Passed}, Ends log (pure none : Conn (Option (List UInt8 × FileStat)))
      fun found log' => ∀ dname st, found = some (dname, st) → Seen w log' st :=
    .pure fun _ _ h => by cases h
  unfold tryEntry
  refine .ite (fun _ => ?_) fun _ => hnone
  refine .bind (callStat_ends _ _) fun found seen hseen hfound => ?_
  cases found with
  | none => exact hnone
  | some st =>
      have hsome : ∀ {seen' : List Passed}, seen ⊆ seen' → ∀ dname st',
          some (CText.visible (d.name.map w.unix2dos), st) = some (dname, st') →
            Seen w seen' st' := by
        rintro seen' hsub _ _ ⟨⟩
        exact (hfound st rfl).mono hsub
      refine .ite (fun _ => hnone) fun _ => .ite (fun _ => ?_) fun _ => .pure (hsome (by simp))
      refine .after fun denied seen' hseen' => .pure ?_
      split
      · exact fun _ _ h => by cases h
      · exact hsome hseen'

section Search

variable (I : List Passed → Dirs → Prop) {fsFunc : Dirs → NwPath → FileStat → Conn (Dirs × Int)}
variable (hmono : ∀ log log' dirs, log ⊆ log' → I log dirs → I log' dirs)
variable (h : ∀ log dirs p st, I log dirs → Seen w log st →
  Ends log (fsFunc dirs p st) fun out log' => I log' out.1)

include hmono h

/-- What the routine for one entry keeps, a search keeps. -/
theorem funcSearchLoop_ends (v : NwVol) (p : NwPath) (dir : List UInt8) (attrib : UInt32)
    (ds : List Dirent) (result : Int) (hdirs : I log dirs) :
    Ends log (funcSearchLoop w v p dir attrib fsFunc ds dirs result) fun out log' =>
      I log' out.1 := by
  induction ds generalizing log dirs result with
  | nil => exact .pure hdirs
  | cons d ds ih =>
      rw [funcSearchLoop]
      refine .bind (tryEntry_ends _ _ _ _ _ _ _) fun found seen hseen hfound => ?_
      cases found with
      | none => exact ih _ (hmono _ _ _ hseen hdirs)
      | some entry =>
          obtain ⟨dname, st⟩ := entry
          refine .bind (h _ _ { p with fn := dname } st (hmono _ _ _ hseen hdirs)
            (hfound dname st rfl)) fun out seen' hseen' hout => ?_
          exact .ite (fun _ => .pure hout) fun _ => ih 1 hout

theorem funcSearchEntry_ends (p : NwPath) (attrib : UInt32) (hdirs : I log dirs) :
    Ends log (funcSearchEntry w dirs p attrib fsFunc) fun out log' => I log' out.1 := by
  unfold funcSearchEntry
  split
  · exact .pure hdirs
  refine .after fun xkpath seen hseen => .after fun found seen' hseen' => ?_
  have hdirs := hmono _ _ _ hseen' (hmono _ _ _ hseen hdirs)
  split
  · exact .pure hdirs
  refine .after fun denied seen hseen => .ite (fun _ => .pure (hmono _ _ _ hseen hdirs)) fun _ => ?_
  refine .after fun entries seen' hseen' => ?_
  have hdirs := hmono _ _ _ hseen' (hmono _ _ _ hseen hdirs)
  split
  · exact .pure hdirs
  · exact .after fun kpath seen hseen =>
      funcSearchLoop_ends I hmono h _ _ _ _ _ _ (hmono _ _ _ hseen hdirs)

end Search

theorem searched_fst (r : Dirs × Int) : (searched r).1 = r.1 := by
  unfold searched
  split <;> rfl

theorem nwDeleteFiles_ends (dirs : Dirs) (dirHandle : Nat) (attrib : UInt32)
    (data : List UInt8) :
    Ends log (nwDeleteFiles w dirs dirHandle attrib data) fun out log' =>
      OnlyGone w log' dirs out.1 := by
  unfold nwDeleteFiles
  refine .after fun p _ _ => ?_
  obtain ⟨p, st⟩ := p
  refine .bind (funcSearchEntry_ends (fun log dirs' => OnlyGone w log dirs dirs')
    (fun _ _ _ hsub hgone => hgone.mono hsub) (fun log dirs' p st hgone hst => ?_) p attrib
    (.refl dirs)) fun out _ _ hout => ?_
  · unfold doDeleteFile
    exact .after fun _ _ hseen =>
      nwUnlinkNode_ends (hst.mono hseen) (hgone.mono hseen) _ _
  · rw [← searched_fst] at hout
    exact .pure hout

theorem nwMvFiles_ends (dirs : Dirs) (attrib : UInt32) (sourcedirhandle : Nat)
    (sourcedata : List UInt8) (destdirhandle : Nat) (destdata : List UInt8) :
    Ends log (nwMvFiles w dirs attrib sourcedirhandle sourcedata destdirhandle destdata)
      fun out _ => out.1 = dirs := by
  unfold nwMvFiles
  refine .after fun p _ _ => .after fun destpath _ _ => .after fun dest _ _ => ?_
  refine .after fun denied _ _ => .ite (fun _ => .pure rfl) fun _ => ?_
  refine .bind (funcSearchEntry_ends (fun _ dirs' => dirs' = dirs) (fun _ _ _ _ => id)
    (fun _ _ p st hdirs _ => ?_) _ _ rfl) fun out _ _ hout => ?_
  · unfold doMvFile
    refine .after fun unsource _ _ => .after fun found _ _ => ?_
    split
    · exact .pure hdirs
    refine .after fun denied _ _ => .ite (fun _ => .pure hdirs) fun _ => ?_
    refine .ite (fun _ => .pure hdirs) fun _ => .after fun undest _ _ => ?_
    exact .after fun result _ _ => .pure hdirs
  · refine .pure ?_
    split
    · exact hout
    split
    · exact hout
    · exact hout

theorem nwSetFileInformation_ends (dirs : Dirs) (dirHandle : Nat) (data : List UInt8)
    (attrib : UInt32) :
    Ends log (nwSetFileInformation w dirs dirHandle data attrib) fun out _ => out.1 = dirs := by
  unfold nwSetFileInformation
  refine .after fun p _ _ => ?_
  obtain ⟨p, st⟩ := p
  dsimp only
  split
  · exact .pure rfl
  refine .bind (funcSearchEntry_ends (fun _ dirs' => dirs' = dirs) (fun _ _ _ _ => id)
    (fun _ _ p st hdirs _ => ?_) _ _ rfl) fun out _ _ hout => ?_
  · unfold doSetFileInfo
    refine .after fun unname _ _ => .after fun found _ _ => ?_
    split
    · exact .pure hdirs
    refine .ite (fun _ => .pure hdirs) fun _ => .after fun denied _ _ => ?_
    refine .ite (fun _ => .pure hdirs) fun _ => .after fun result _ _ => ?_
    exact .ite (fun _ => .pure hdirs) fun _ => .after fun _ _ _ => .pure hdirs
  · exact .pure ((searched_fst out).trans hout)

theorem nwMkRdDir_mkdir_ends (dirs : Dirs) (dirHandle : Nat) (data : List UInt8) :
    Ends log (nwMkRdDir w dirs dirHandle data true) fun out _ => out.1 = dirs :=
  .after fun _ _ _ => .after fun _ _ _ => .after fun _ _ _ => .pure rfl

/-! ## Requests -/

/-- A request is about the handle `k` while it stands for `d`, about its task, or has
removed its directory. -/
def Touches (w : ConnWorld) (log : List Passed) (k : Nat) (d : NwDir) : PathRequest → Prop
  | .initConnect => True
  | .freeHandles task => d.isTemp ≠ 0 ∧ d.task = task
  | .freeDirHandle h => h = k
  | .nameSpaceAlter target .. => target = k
  | .setDirHandle target .. => target = k
  | .rmdir .. => Removed w log d.id
  | .deleteFiles .. => Removed w log d.id
  | _ => False

/-- A request leaves the other handles alone, and the table within its array. -/
def LeavesOthers (w : ConnWorld) (r : PathRequest) (log : List Passed) (dirs dirs' : Dirs) :
    Prop :=
  (dirs.length ≤ maxNwDirs → dirs'.length ≤ maxNwDirs) ∧
    (dirs.length ≤ maxNwDirs → ∀ k d, usedDir dirs k = some d → ¬Touches w log k d r →
      usedDir dirs' k = some d)

theorem LeavesOthers.refl (r : PathRequest) : LeavesOthers w r log dirs dirs :=
  ⟨id, fun _ _ _ hd _ => hd⟩

theorem OnlyGone.leavesOthers {r : PathRequest} (h : OnlyGone w log dirs dirs')
    (hr : ∀ k d, Removed w log d.id → Touches w log k d r) : LeavesOthers w r log dirs dirs' := by
  refine ⟨fun hlen => h.length.trans_le hlen, fun _ k d hd huntouched => ?_⟩
  rcases h.used k with hsame | ⟨-, d', hd', hgone⟩
  · exact hsame.trans hd
  · rw [hd] at hd'
    obtain rfl := Option.some.inj hd'
    exact absurd (hr k d hgone) huntouched

theorem Allocated.other {M M' : Nat → Option NwDir} {d d' : NwDir} {c : Int}
    (h : Allocated M d M' c) {k : Nat} (hk : M k = some d') : M' k = some d' := by
  cases h with
  | full => exact hk
  | new k' hpos hle hfree =>
      rw [Function.update_of_ne, hk]
      rintro rfl
      rw [hfree] at hk
      cases hk

theorem xinsertNewDir_leavesOthers (r : PathRequest) (volume : Nat) (path : List UInt8)
    (id : FileNumbers) (drive isTemp task : Nat) :
    LeavesOthers w r log dirs (xinsertNewDir dirs volume path id drive isTemp task).1 :=
  ⟨fun hlen => length_xinsertNewDir hlen _ _ _ _ _ _,
    fun hlen _ _ hd _ => (xinsertNewDir_allocated hlen _ _ _ _ _ _).other hd⟩

theorem Altered.other {M M' : Nat → Option NwDir} {target volume task : Nat}
    {path : List UInt8} {id : FileNumbers} {c : Int} (h : Altered M target volume path id task M' c)
    {k : Nat} {d : NwDir} (hne : k ≠ target) (hk : M k = some d) : M' k = some d := by
  cases h with
  | refused => exact hk
  | done => rw [Function.update_of_ne hne, hk]

theorem alterDirHandle_leavesOthers {r : PathRequest} {target : Nat}
    (hr : ∀ k d, target = k → Touches w log k d r) (volume : Nat) (path : List UInt8)
    (id : FileNumbers) (task : Nat) :
    LeavesOthers w r log dirs (alterDirHandle dirs target volume path id task).1 := by
  refine ⟨fun hlen => (length_alterDirHandle _ _ _ _ _ _).trans_le hlen,
    fun _ k d hd huntouched => ?_⟩
  have hne : k ≠ target := fun heq => huntouched (hr k d heq.symm)
  have haltered := alterDirHandle_altered dirs target volume path id task
  exact haltered.other hne hd

theorem nwInitConnect_ends (dirs : Dirs) :
    Ends log (nwInitConnect w dirs) fun out _ =>
      dirs.length ≤ maxNwDirs → out.1.length ≤ maxNwDirs := by
  unfold nwInitConnect
  dsimp only
  split
  · exact .pure fun hlen => (List.length_map _).trans_le hlen
  refine .after fun found _ _ => ?_
  split
  · exact .pure fun hlen => (List.length_map _).trans_le hlen
  · exact .pure fun _ => (by decide : 1 ≤ maxNwDirs)

theorem keepDirs_leavesOthers {r : PathRequest} {m : Conn Int} :
    Ends log (keepDirs dirs m) fun out log' => LeavesOthers w r log' dirs out.1 :=
  .after fun _ _ _ => .pure (.refl r)

theorem pathRequest_leavesOthers (dirs : Dirs) (r : PathRequest) :
    Ends [] (pathRequest w dirs r) fun out log => LeavesOthers w r log dirs out.1 := by
  have hgone : ∀ {out : Dirs × Int} {log : List Passed}, OnlyGone w log dirs out.1 →
      (∀ k d, Removed w log d.id → Touches w log k d r) → LeavesOthers w r log dirs out.1 :=
    OnlyGone.leavesOthers
  cases r with
  | initConnect => exact (nwInitConnect_ends dirs).mono fun _ _ hlen =>
      ⟨hlen, fun _ _ _ _ huntouched => absurd trivial huntouched⟩
  | freeHandles task =>
      refine .pure ⟨fun hlen => (List.length_map _).trans_le hlen, fun _ k d hd huntouched => ?_⟩
      have huntouched : ¬(d.isTemp ≠ 0 ∧ d.task = task) := huntouched
      rw [freeTaskHandles_used, hd, Option.filter_some, if_pos (decide_eq_true huntouched)]
  | freeDirHandle h =>
      refine .pure ⟨fun hlen => (length_nwFreeDirHandle _ _).trans_le hlen,
        fun _ k d hd huntouched => ?_⟩
      rw [(nwFreeDirHandle_freed dirs h).1, Function.update_of_ne (Ne.symm huntouched), hd]
  | nameSpaceAlloc volume path id isTemp task =>
      exact .pure (xinsertNewDir_leavesOthers _ _ _ _ _ _ _)
  | nameSpaceAlter target volume path id task =>
      have hr : ∀ k d, target = k →
          Touches w [] k d (.nameSpaceAlter target volume path id task) := fun _ _ h => h
      exact .pure (alterDirHandle_leavesOthers hr _ _ _ _)
  | allocDirHandle h data drive isTemp task =>
      refine .after fun p _ _ => .after fun unixname _ _ => .after fun rights _ _ => ?_
      exact .pure (xinsertNewDir_leavesOthers _ _ _ _ _ _ _)
  | setDirHandle target h data task =>
      have hr : ∀ log k d, target = k →
          Touches w log k d (.setDirHandle target h data task) := fun _ _ _ h => h
      exact .after fun p seen _ => .pure (alterDirHandle_leavesOthers (hr seen) _ _ _ _)
  | openDirHandle h data => exact .after fun _ _ _ => .pure (.refl _)
  | scanDirInfo h data subnr => exact keepDirs_leavesOthers
  | search h sequence attrib data => exact keepDirs_leavesOthers
  | scanADirectory h data attrib searchbeg => exact keepDirs_leavesOthers
  | scanARootDir h => exact keepDirs_leavesOthers
  | setADirectoryEntry h data attrib changeMask => exact keepDirs_leavesOthers
  | addTrustee h data extended => exact keepDirs_leavesOthers
  | delTrustee h data extended => exact keepDirs_leavesOthers
  | scanForTrustee h data extended => exact keepDirs_leavesOthers
  | getEffDirRights h data modus => exact keepDirs_leavesOthers
  | setDirInfo h data => exact keepDirs_leavesOthers
  | setFileAttributes h data => exact keepDirs_leavesOthers
  | creatOpenFile h data => exact keepDirs_leavesOthers
  | logFile h data lockFlag => exact keepDirs_leavesOthers
  | mkdir h data => exact (nwMkRdDir_mkdir_ends dirs h data).mono fun _ _ hout => hout ▸ .refl _
  | rmdir h data => exact (nwMkRdDir_ends dirs h data false).mono fun _ _ hout => hgone hout fun _ _ h => h
  | mvDir h source dest => exact keepDirs_leavesOthers
  | mvFiles attrib hs source hd dest =>
      exact (nwMvFiles_ends dirs attrib hs source hd dest).mono fun _ _ hout => hout ▸ .refl _
  | deleteFiles h attrib data =>
      exact (nwDeleteFiles_ends dirs h attrib data).mono fun _ _ hout => hgone hout fun _ _ h => h
  | setFileInformation h data attrib =>
      exact (nwSetFileInformation_ends dirs h data attrib).mono fun _ _ hout => hout ▸ .refl _

/-! ## Runs -/

/-- The same for a step of the server. -/
def TouchesStep (k : Nat) (d : NwDir) (dirs : Dirs) (e : ConnWorld × PathRequest) : Prop :=
  Touches e.1 (pathRequest e.1 dirs e.2).log k d e.2

theorem pathMachine_leavesOthers (dirs : Dirs) (e : ConnWorld × PathRequest) :
    LeavesOthers e.1 e.2 (pathRequest e.1 dirs e.2).log dirs (pathMachine.step dirs e).2 := by
  have hends := pathRequest_leavesOthers (w := e.1) dirs e.2
  unfold pathMachine
  dsimp only
  split
  next out heq => exact hends _ heq
  · exact .refl e.2

theorem length_exec_pathMachine {dirs : Dirs} (h : dirs.length ≤ maxNwDirs)
    (es : List (ConnWorld × PathRequest)) : (pathMachine.exec dirs es).length ≤ maxNwDirs :=
  pathMachine.exec_preserves (fun dirs e hlen => (pathMachine_leavesOthers dirs e).1 hlen) es h

theorem step_eq_ok {dirs : Dirs} {r : PathRequest} {c : Int}
    (h : (pathMachine.step dirs (w, r)).1.1 = .ok c) :
    ∃ out, (pathRequest w dirs r).result = .ok out ∧ c = out.2 ∧
      (pathMachine.step dirs (w, r)).2 = out.1 := by
  unfold pathMachine at h ⊢
  dsimp only at h ⊢
  cases hresult : (pathRequest w dirs r).result with
  | error stop =>
      rw [hresult] at h
      cases h
  | ok out =>
      rw [hresult] at h
      exact ⟨out, rfl, (Except.ok.inj h).symm, rfl⟩

/-- The handle `k` stands for `d`. -/
def Denotes (k : Nat) (d : NwDir) (dirs : Dirs) : Prop :=
  dirs.length ≤ maxNwDirs ∧ usedDir dirs k = some d

theorem Denotes.exec {dirs : Dirs} {k : Nat} {d : NwDir} (h : Denotes k d dirs)
    {es : List (ConnWorld × PathRequest)}
    (huntouched : pathMachine.Along (fun dirs e => ¬TouchesStep k d dirs e) dirs es) :
    Denotes k d (pathMachine.exec dirs es) :=
  pathMachine.exec_invariant (fun dirs e hinv hok =>
    ⟨(pathMachine_leavesOthers dirs e).1 hinv.1,
      (pathMachine_leavesOthers dirs e).2 hinv.1 k d hinv.2 hok⟩) h huntouched

theorem nwAllocDirHandle_ends (dirs : Dirs) (dirHandle : Nat) (data : List UInt8)
    (drive isTemp task : Nat) :
    Ends [] (nwAllocDirHandle w dirs dirHandle data drive isTemp task) fun out _ =>
      ∃ p st, (connGetKplPath w dirs dirHandle data true).result = .ok (p, st) ∧
        out = xinsertNewDir dirs (p.volume.getD 0) p.path st.numbers.asInts drive isTemp task :=
  .bind (Q := fun out _ => (connGetKplPath w dirs dirHandle data true).result = .ok out)
    (fun _ hout => hout) fun _ _ _ hp => .after fun _ _ _ => .after fun _ _ _ =>
      .pure ⟨_, _, hp, rfl⟩

/-- A server with one volume, on which every name is that of a directory. -/
def flatServer : ConnWorld where
  volumes := [⟨asciiBytes ['S', 'Y', 'S'], [0x2f, 0x73, 0x2f],
    ⟨false, false, false, false⟩, by decide, .inr rfl⟩]
  conv := none
  actObjId := 1
  entry8Flags := 0
  stat name := some ⟨⟨1, UInt64.ofNat name.length⟩, true, false, false, 0⟩
  readdir _ := none
  answer _ _ _ := 0
  shared _ := false
  logLock _ _ := 0
  stack := []

end MarsNwe
