import MarsNwe.Connect.DirHandles
import MarsNwe.Namspace.FullPaths
import MarsNwe.Namspace.TableSound

/-! # The name space module through all requests

Whatever a request does, the table of base entries stays as its operations keep it, and
the search handles, the maps of name spaces and the directory handles stay within their
arrays. Each routine has its lemma; those of the requests are put together from them.
-/

namespace MarsNwe.NameSpace

open Stateful

variable {φ : Type} {w : NsWorld φ} {n m : Nat}

/-! ## The invariant -/

/-- The maps of a volume: no name space of a device has two of them. -/
structure MapsOk (w : NsWorld φ) (maps : Nat → List DevNamespaceMap) : Prop where
  nodup : ∀ volume, (maps volume).Nodup
  bound : ∀ (volume : Nat) (v : NsVol), w.volumes[volume]? = some v →
    (maps volume).length ≤ v.maxMapsCount

/-- The state as all requests keep it, with `n` places for base entries and `m` for search
handles. -/
structure StateOk (w : NsWorld φ) (n m : Nat) (s : NsState φ) : Prop where
  table : s.table.Ok
  size : s.table.dirBase.length = n
  pos : 0 < n
  handles : s.handles.length ≤ m
  limit : s.maxDirSearchHandles = m
  maps : MapsOk w s.maps
  dirs : s.dirs.length ≤ maxNwDirs

namespace StateOk

variable {s : NsState φ}

theorem of_table {t : BaseTable} (h : StateOk w n m s) (ht : t.Ok)
    (hsize : t.dirBase.length = s.table.dirBase.length) :
    StateOk w n m { s with table := t } :=
  { h with table := ht, size := hsize.trans h.size }

theorem write (h : StateOk w n m s) {f : DirBaseEntry → DirBaseEntry} (hf : BaseTable.Mild f)
    (ptr : Nat) : StateOk w n m { s with table := s.table.write ptr f } :=
  h.of_table (h.table.write hf ptr) (List.length_map _)

theorem allocate (h : StateOk w n m s) :
    StateOk w n m { s with table := s.table.allocate.1 } :=
  h.of_table (h.table.allocate (h.size ▸ h.pos)) (BaseTable.length_allocate s.table)

theorem free (h : StateOk w n m s) {e : DirBaseEntry} (he : s.table.Has e) :
    StateOk w n m { s with table := s.table.free e } :=
  h.of_table (h.table.free he) List.length_set

theorem length_touch (t : BaseTable) (e : DirBaseEntry) :
    (t.touch e).1.dirBase.length = t.dirBase.length := by
  unfold BaseTable.touch
  split
  · exact BaseTable.length_toFront.trans List.length_set
  · rfl

theorem touch (h : StateOk w n m s) {e : DirBaseEntry} (he : s.table.Has e) :
    StateOk w n m { s with table := (s.table.touch e).1 } :=
  h.of_table (h.table.touch he) (length_touch s.table e)

theorem setHandle (h : StateOk w n m s) (k : Nat) (d : DirSearchHandle) :
    StateOk w n m { s with handles := s.handles.set k (some d) } :=
  { h with handles := by rw [List.length_set]; exact h.handles }

end StateOk

/-! ## Routines on entries -/

theorem theEntry_post {s : NsState φ} (h : s.table.Ok) (ptr : Nat) :
    Post (fun _ => True) s (theEntry ptr) fun e s' => s' = s ∧ s.table.Has e ∧ e.ptr = ptr := by
  refine Post.bind (Post.get (Q := fun a s' => a = s ∧ s' = s) ⟨rfl, rfl⟩) fun a s' hs => ?_
  obtain ⟨rfl, rfl⟩ := hs
  cases hat : s'.table.at? ptr with
  | some e => exact Post.pure ⟨rfl, (BaseTable.at?_eq_some h).mp hat⟩
  | none => exact Post.error trivial

theorem keeps_theEntry (ptr : Nat) : Keeps (StateOk w n m) (theEntry ptr) := by
  refine .bind .get fun s => ?_
  cases s.table.at? ptr with
  | some e => exact .pure e
  | none => exact .error NsFault.freed

theorem keeps_entryAt (k : Nat) : Keeps (StateOk w n m) (entryAt k) := by
  refine .bind .get fun s => ?_
  cases s.table.dirBase[k]?.join with
  | some e => exact .pure e
  | none => exact .error NsFault.freed

theorem keeps_writeEntry {f : DirBaseEntry → DirBaseEntry} (hf : BaseTable.Mild f) (ptr : Nat) :
    Keeps (StateOk w n m) (writeEntry ptr f) := .modify fun _ hs => hs.write hf ptr

theorem keeps_putDbeToDisk (dbe : DirBaseEntry) : Keeps (StateOk w n m) (putDbeToDisk w dbe) := by
  unfold putDbeToDisk
  cases linkOf w dbe.volume dbe.statb.id with
  | none => exact .pure ()
  | some link => exact .modify fun _ hs => { hs with }

theorem keeps_delDbeFromDisk (dbe : DirBaseEntry) :
    Keeps (StateOk w n m) (delDbeFromDisk w dbe) := by
  unfold delDbeFromDisk
  cases linkOf w dbe.volume dbe.statb.id with
  | none => exact .pure ()
  | some link => exact .modify fun _ hs => { hs with }

theorem keeps_allocateDbeP : Keeps (StateOk w n m) (allocateDbeP w) := by
  unfold allocateDbeP
  refine .bind .get fun s => ?_
  extract_lets allocated
  have hrest : Keeps (StateOk w n m) (allocated ()) :=
    .getBind fun s hs => Post.bind (Post.modify hs.allocate) fun _ _ hs' => Post.pure hs'
  split
  · split
    · exact .bind (keeps_putDbeToDisk _) fun _ => hrest
    · exact hrest
  · exact hrest

theorem keeps_freeDbeP (ptr : Nat) : Keeps (StateOk w n m) (freeDbeP ptr) := fun _ hs =>
  (theEntry_post hs.table ptr).bind fun _ _ ⟨heq, he, _⟩ => by
    subst heq
    exact Post.modify (hs.free he)

theorem keeps_touchHandleEntryP (ptr : Nat) : Keeps (StateOk w n m) (touchHandleEntryP ptr) :=
  fun s hs => (theEntry_post hs.table ptr).bind fun e s' ⟨heq, he, _⟩ => by
    subst heq
    exact Post.bind (Q := fun a s'' => a = s' ∧ s'' = s') ⟨rfl, rfl⟩ fun a s'' ⟨ha, hs''⟩ => by
      subst ha hs''
      exact Post.bind (Post.modify (hs.touch he)) fun _ _ hs' => Post.pure hs'

theorem mild_statb (statb : FileStat) : BaseTable.Mild fun e => { e with statb := statb } :=
  ⟨fun _ => rfl, fun _ => rfl, fun _ => rfl⟩

theorem keeps_nwpStat (ptr : Nat) : Keeps (StateOk w n m) (nwpStat w ptr) := by
  unfold nwpStat
  refine .bind (keeps_theEntry ptr) fun e => .bind .get fun s => ?_
  split
  · exact .bind (keeps_writeEntry (mild_statb _) ptr) fun _ => .pure _
  · exact .pure _

/-! ## Handles of files -/

theorem MapsOk.look {maps : Nat → List DevNamespaceMap} (h : MapsOk w maps) {volume : Nat}
    {v : NsVol} (hv : w.volumes[volume]? = some v) (dnm : DevNamespaceMap) :
    MapsOk w (Function.update maps volume (lookNameSpaceMap v (maps volume) dnm).1) := by
  have hlook : (lookNameSpaceMap v (maps volume) dnm).1.Nodup ∧
      (lookNameSpaceMap v (maps volume) dnm).1.length ≤ v.maxMapsCount := by
    unfold lookNameSpaceMap
    split
    · exact ⟨h.nodup volume, h.bound volume v hv⟩
    next hnone =>
      split
      next hlt =>
        refine ⟨List.nodup_append.mpr ⟨h.nodup volume, List.nodup_singleton _, ?_⟩, ?_⟩
        · intro a ha b hb heq
          rw [List.mem_singleton.mp hb] at heq
          simpa [heq] using List.findIdx?_eq_none_iff.mp hnone a ha
        · rw [List.length_append]
          exact hlt
      next => exact ⟨h.nodup volume, h.bound volume v hv⟩
  constructor
  · intro volume'
    by_cases heq : volume' = volume
    · subst heq
      rw [Function.update_self]
      exact hlook.1
    · rw [Function.update_of_ne heq]
      exact h.nodup volume'
  · intro volume' v' hv'
    by_cases heq : volume' = volume
    · subst heq
      rw [Function.update_self]
      rw [hv] at hv'
      obtain rfl := Option.some.inj hv'
      exact hlook.2
    · rw [Function.update_of_ne heq]
      exact h.bound volume' v' hv'

theorem keeps_nwVolInodeToHandle (volume : Nat) (inode : UInt64) (dnm : DevNamespaceMap) :
    Keeps (StateOk w n m) (nwVolInodeToHandle w volume inode dnm) := by
  unfold nwVolInodeToHandle
  split
  · exact .pure _
  next v hv =>
    split
    · exact .pure _
    · refine .getBind fun s hs => ?_
      have hnext : StateOk w n m { s with
          maps := Function.update s.maps volume (lookNameSpaceMap v (s.maps volume) dnm).1 } :=
        { hs with maps := hs.maps.look hv dnm }
      exact Post.bind (Post.set hnext) fun _ _ hs' => by
        split
        · exact Post.pure hs'
        · exact Post.pure hs'

theorem keeps_name2Base (volume : Nat) (statb : FileStat) (namespaceId : UInt8) :
    Keeps (StateOk w n m) (name2Base w volume statb namespaceId) :=
  keeps_nwVolInodeToHandle _ _ _

/-! ## Finding and adding entries -/

theorem keeps_addDbeEntry (volume : Nat) (basehandle : UInt32) (path : List UInt8)
    (stb : Option FileStat) :
    Keeps (StateOk w n m) (addDbeEntry w volume basehandle path stb) := by
  unfold addDbeEntry
  refine .bind keeps_allocateDbeP fun ptr => ?_
  have hmild : BaseTable.Mild fun e =>
      { e with volume := volume, basehandle := basehandle, path := path } :=
    ⟨fun _ => rfl, fun _ => rfl, fun _ => rfl⟩
  refine .bind (keeps_writeEntry hmild ptr) fun _ => ?_
  have hrest : Keeps (StateOk w n m) (do return (← theEntry ptr).slot : NsM φ Int) :=
    .bind (keeps_theEntry ptr) fun _ => .pure _
  dsimp only
  split
  · exact .bind (keeps_writeEntry (mild_statb _) ptr) fun _ => hrest
  · refine .bind (keeps_nwpStat ptr) fun found => ?_
    split
    · refine .bind (keeps_theEntry ptr) fun e => .bind (keeps_delDbeFromDisk e) fun _ => ?_
      exact .bind (keeps_freeDbeP ptr) fun _ => .pure _
    · exact hrest

theorem keeps_findBaseEntry (volume : Nat) (basehandle : UInt32) :
    Keeps (StateOk w n m) (findBaseEntry w volume basehandle) := by
  unfold findBaseEntry
  split
  · exact .pure _
  refine .bind .get fun s => ?_
  split
  · exact .pure _
  split
  next e _ =>
    refine .bind (keeps_nwpStat e.ptr) fun found => ?_
    split
    · exact .bind (keeps_touchHandleEntryP e.ptr) fun _ => .pure _
    · exact .bind (keeps_freeDbeP e.ptr) fun _ => .pure _
  · split
    · exact .pure _
    split
    · exact keeps_addDbeEntry _ _ _ _
    · split
      · exact keeps_addDbeEntry _ _ _ _
      · exact .pure _

theorem keeps_handleOf (volume : Nat) (namespaceId : UInt8) (statb : Option FileStat) :
    Keeps (StateOk w n m)
      (statb.elim (pure 0) fun statb => name2Base w volume statb namespaceId) := by
  cases statb with
  | none => exact .pure _
  | some statb => exact keeps_name2Base volume statb namespaceId

theorem keeps_insertGetBaseEntry (volume : Nat) (path : List UInt8) (namespaceId : UInt8)
    (creatmode : Option Bool) :
    Keeps (StateOk w n m) (insertGetBaseEntry w volume path namespaceId creatmode) := by
  unfold insertGetBaseEntry
  refine .bind .get fun s => .bind (keeps_handleOf _ _ _) fun basehandle => ?_
  extract_lets entered
  -- what is done when the file is there
  have hrest : ∀ r, Keeps (StateOk w n m) (entered r) := by
    rintro ⟨statb, basehandle⟩
    cases statb with
    | none => exact .pure _
    | some statb =>
        dsimp only [entered]
        split
        · exact .pure _
        refine .bind .get fun s => ?_
        split
        next e _ =>
          refine .bind (keeps_nwpStat e.ptr) fun found => ?_
          split
          · exact .bind (keeps_freeDbeP e.ptr) fun _ => keeps_addDbeEntry _ _ _ _
          · exact .bind (keeps_touchHandleEntryP e.ptr) fun _ => .pure _
        · exact keeps_addDbeEntry _ _ _ _
  split
  · split
    · exact .bind (.pure _) hrest
    split
    · exact .pure _
    · refine .bind .get fun s => .bind (.modify fun _ hs => { hs with }) fun _ => ?_
      split
      · exact .pure _
      · exact .bind (keeps_handleOf _ _ _) fun _ => .bind (.pure _) hrest
  · exact .bind (.pure _) hrest

theorem keeps_baseOf (nwp : NwHpath) : Keeps (StateOk w n m) (baseOf w nwp) := by
  unfold baseOf
  split
  · refine .bind .get fun s => ?_
    split
    · exact .pure _
    · exact .pure _
  split
  · refine .bind (keeps_findBaseEntry _ _) fun result => ?_
    split
    · exact .bind (keeps_entryAt _) fun _ => .pure _
    split
    · exact .pure _
    · exact .pure _
  split
  · exact .pure _
  · exact .pure _

theorem keeps_hpathOf (namespaceId : UInt8) (nwp : NwHpath) (mode : Bool) :
    Keeps (StateOk w n m) (hpathOf w namespaceId nwp mode) := by
  unfold hpathOf
  refine .bind (keeps_baseOf nwp) fun base => ?_
  split
  · exact .pure _
  refine .bind .get fun s => ?_
  split
  · exact .error _
  · exact .pure _
  · dsimp only
    repeat' split
    all_goals exact .pure _

theorem keeps_buildBase (namespaceId : UInt8) (nwp : NwHpath) (mode : Bool) :
    Keeps (StateOk w n m) (buildBase w namespaceId nwp mode) := by
  unfold buildBase
  refine .bind (keeps_hpathOf namespaceId nwp mode) fun hpath => ?_
  split
  · exact .pure _
  · exact .bind (keeps_insertGetBaseEntry _ _ _ _) fun _ => .pure _

theorem keeps_getAddNewEntry (ptr : Nat) (namespaceId : UInt8) (name : List UInt8)
    (creatmode : Option Bool) :
    Keeps (StateOk w n m) (getAddNewEntry w ptr namespaceId name creatmode) := by
  unfold getAddNewEntry
  refine .bind (keeps_theEntry ptr) fun e => ?_
  dsimp only
  split
  · exact .error _
  · exact keeps_insertGetBaseEntry _ _ _ _

/-! ## Searches -/

theorem length_ageHandles (handles : List (Option DirSearchHandle)) (k : Nat) :
    (ageHandles handles k).1.length ≤ handles.length := by
  induction handles generalizing k with
  | nil => exact le_rfl
  | cons d handles ih =>
      have hrest := ih (k + 1)
      cases d with
      | none =>
          rw [ageHandles, List.length_cons, List.length_cons]
          omega
      | some d =>
          rw [ageHandles]
          dsimp only
          split
          · rw [List.length_cons, List.length_cons]
            omega
          split
          · exact Nat.zero_le _
          · rw [List.length_cons, List.length_cons]
            omega

theorem keeps_newSearchHandle (id : FileNumbers) : Keeps (StateOk w n m) (newSearchHandle id) := by
  unfold newSearchHandle
  refine .getBind fun s hs => ?_
  have hlen := length_ageHandles s.handles 0
  have hbound := hs.handles
  dsimp only
  split
  next k _ =>
    have hnext : StateOk w n m { s with
        handles := (ageHandles s.handles 0).1.set k (some (.new id)) } :=
      { hs with handles := by rw [List.length_set]; omega }
    exact Post.bind (Post.set hnext) fun _ _ hs' => Post.pure hs'
  split
  next hlt =>
    have hnext : StateOk w n m { s with
        handles := (ageHandles s.handles 0).1 ++ [some (.new id)] } :=
      { hs with handles := by rw [List.length_append, ← hs.limit]; exact hlt }
    exact Post.bind (Post.set hnext) fun _ _ hs' => Post.pure hs'
  next =>
    have hnext : StateOk w n m { s with
        handles := (ageHandles s.handles 0).1.set
          (AgedSlots.longestIdle DirSearchHandle.idle (ageHandles s.handles 0).1 0 0 0)
          (some (.new id)) } :=
      { hs with handles := by rw [List.length_set]; omega }
    exact Post.bind (Post.set hnext) fun _ _ hs' => Post.pure hs'

theorem keeps_writeHandle (k : Nat) (d : DirSearchHandle) :
    Keeps (StateOk w n m) (writeHandle k d) := .modify fun _ hs => hs.setHandle k d

theorem keeps_searchMatch (q : SearchFor) (d : Dirent) :
    Keeps (StateOk w n m) (searchMatch w q d) := by
  unfold searchMatch
  split
  · exact .pure _
  split
  · exact .error _
  · exact .pure _
  · exact .bind .get fun _ => .pure _

theorem keeps_buildDirInfo (ptr : Nat) (namespaceId : UInt8) (infomask : UInt32) :
    Keeps (StateOk w n m) (buildDirInfo w ptr namespaceId infomask) := by
  unfold buildDirInfo
  refine .bind (keeps_theEntry ptr) fun e => ?_
  dsimp only
  split
  · exact .pure _
  have hrest : ∀ len : List UInt8, Keeps (StateOk w n m) (do
      if infomask &&& 1 = 0 then return 76
      else if namespaceId = nameDos then return 77 + len.length
      else return 77 + (lastComp e.path).length % 256 : NsM φ Int) := by
    intro len
    split
    · exact .pure _
    split
    · exact .pure _
    · exact .pure _
  split
  · exact .bind (.map (keeps_name2Base _ _ _)) fun _ => hrest _
  · exact hrest _

theorem keeps_findNext (ptr : Nat) (q : SearchFor) (ds : List Dirent) (pos last : Nat) :
    Keeps (StateOk w n m) (findNext w ptr q ds pos last) := by
  induction ds generalizing pos last with
  | nil => exact .pure _
  | cons d ds ih =>
      rw [findNext]
      refine .bind (keeps_searchMatch q d) fun found => ?_
      dsimp only
      split
      · refine .bind (keeps_getAddNewEntry _ _ _ _) fun dest => ?_
        split
        · exact .pure _
        · exact ih _ _
      · exact ih _ _

theorem keeps_lookAhead (q : SearchFor) (ds : List Dirent) (pos last : Nat) :
    Keeps (StateOk w n m) (lookAhead w q ds pos last) := by
  induction ds generalizing pos last with
  | nil => exact .pure _
  | cons d ds ih =>
      rw [lookAhead]
      refine .bind (keeps_searchMatch q d) fun found => ?_
      split
      · exact .pure _
      · exact ih _ _

theorem mild_lock : BaseTable.Mild fun e => { e with locked := e.locked + 1 } :=
  ⟨fun _ => rfl, fun _ => rfl, fun _ => rfl⟩

theorem mild_unlock : BaseTable.Mild fun e => { e with locked := 0 } :=
  ⟨fun _ => rfl, fun _ => rfl, fun _ => rfl⟩

theorem keeps_searchOpened (q : SearchFor) (ptr k : Nat) (d : DirSearchHandle) (sequence : Nat)
    (infomask : UInt32) (entries : List Dirent) :
    Keeps (StateOk w n m) (searchOpened w q ptr k d sequence infomask entries) := by
  unfold searchOpened
  refine .bind (keeps_writeEntry mild_lock ptr) fun _ => ?_
  dsimp only
  have hrest : ∀ reply : SearchReply, Keeps (StateOk w n m) (do
      let dbe ← theEntry ptr
      writeEntry dbe.ptr fun e => { e with locked := 0 }
      return reply : NsM φ SearchReply) := fun reply =>
    .bind (keeps_theEntry ptr) fun dbe =>
      .bind (keeps_writeEntry mild_unlock dbe.ptr) fun _ => .pure reply
  refine .bind (keeps_findNext _ _ _ _ _) fun found => ?_
  split
  · refine .bind (keeps_entryAt _) fun dest => .bind (.map (keeps_nwpStat _)) fun _ => ?_
    refine .bind (keeps_buildDirInfo _ _ _) fun result => ?_
    refine .bind (keeps_lookAhead _ _ _ _) fun next => .bind (keeps_writeHandle _ _) fun _ => ?_
    exact .bind (keeps_theEntry _) fun _ => hrest _
  · exact .bind (keeps_writeHandle _ _) fun _ => hrest _

theorem keeps_handleFor (id : FileNumbers) (sequence : UInt32) :
    Keeps (StateOk w n m) (handleFor id sequence) := by
  unfold handleFor
  refine .bind (.bind .get fun _ => .pure _) fun d => ?_
  split
  · exact .pure _
  · exact .bind (keeps_newSearchHandle id) fun _ => .pure _

theorem keeps_nwSearchFileDir (namespaceId : UInt8) (searchattrib infomask : UInt32)
    (volume : Nat) (basehandle sequence : UInt32) (path : List UInt8) :
    Keeps (StateOk w n m)
      (nwSearchFileDir w namespaceId searchattrib infomask volume basehandle sequence path) := by
  unfold nwSearchFileDir
  refine .bind (keeps_findBaseEntry _ _) fun found => ?_
  extract_lets result
  split
  · exact .pure _
  refine .bind (keeps_entryAt _) fun dbe => .bind .get fun s => ?_
  extract_lets noSearchTrustee q searched
  have hrest : ∀ sequence, Keeps (StateOk w n m) (searched sequence) := by
    intro sequence
    refine .bind (keeps_handleFor _ _) fun k => .bind .get fun s => ?_
    split
    · exact .pure _
    · exact keeps_searchOpened _ _ _ _ _ _ _
  split
  · exact .pure _
  split
  · exact .bind (keeps_newSearchHandle _) fun _ => .bind (.pure _) hrest
  · exact .bind (.pure _) hrest

section Searches

variable {fsFunc : Nat → NsM φ Int} (h : ∀ ptr, Keeps (StateOk w n m) (fsFunc ptr))

include h

theorem keeps_funcSearchLoop (ptr : Nat) (q : SearchFor) (ds : List Dirent) (result : Int) :
    Keeps (StateOk w n m) (funcSearchLoop w ptr q fsFunc ds result) := by
  induction ds generalizing result with
  | nil => exact .pure _
  | cons d ds ih =>
      rw [funcSearchLoop]
      refine .bind (keeps_searchMatch q d) fun found => ?_
      split
      · refine .bind (keeps_getAddNewEntry _ _ _ _) fun dest => ?_
        split
        · refine .bind (keeps_entryAt _) fun e => .bind (h e.ptr) fun res => ?_
          split
          · exact .pure _
          · exact ih _
        · exact ih _
      · exact ih _

theorem keeps_funcSearchEntry (ptr : Nat) (namespaceId : UInt8) (path : List UInt8)
    (searchattrib : UInt32) :
    Keeps (StateOk w n m) (funcSearchEntry w ptr namespaceId path searchattrib fsFunc) := by
  unfold funcSearchEntry
  refine .bind (keeps_theEntry ptr) fun dbe => ?_
  split
  · split
    · refine .bind (h ptr) fun res => ?_
      exact .pure _
    · exact .pure _
  refine .bind .get fun s => ?_
  split
  · exact .pure _
  refine .bind .get fun s => ?_
  split
  · exact .pure _
  have hrest : ∀ entries : List Dirent, Keeps (StateOk w n m) (do
      writeEntry ptr fun e => { e with locked := e.locked + 1 }
      let q := searchFor w namespaceId dbe path searchattrib false
      let result ← funcSearchLoop w ptr q fsFunc entries (-0xff)
      let dbe ← theEntry ptr
      writeEntry dbe.ptr fun e => { e with locked := 0 }
      return result : NsM φ Int) := by
    intro entries
    refine .bind (keeps_writeEntry mild_lock ptr) fun _ => ?_
    refine .bind (keeps_funcSearchLoop h _ _ _ _) fun result => ?_
    refine .bind (keeps_theEntry ptr) fun dbe => ?_
    exact .bind (keeps_writeEntry mild_unlock dbe.ptr) fun _ => .pure result
  split
  · exact .error _
  · exact hrest _

end Searches

/-! ## Directory handles -/

theorem keeps_setDirs {r : NsState φ → Dirs × Int}
    (h : ∀ s, s.dirs.length ≤ maxNwDirs → (r s).1.length ≤ maxNwDirs) {f : Int → Int} :
    Keeps (StateOk w n m) (do
      let s ← get
      let (dirs, result) := r s
      set { s with dirs := dirs }
      return f result : NsM φ Int) := by
  refine .getBind fun s hs => ?_
  have hnext : StateOk w n m { s with dirs := (r s).1 } := { hs with dirs := h s hs.dirs }
  exact Post.bind (Post.set hnext) fun _ _ hs' => Post.pure hs'

/-! ## Requests -/

theorem keeps_change {α : Type} (f : φ → α × φ) : Keeps (StateOk w n m) (change f) := by
  refine .bind .get fun s => ?_
  exact .bind (.modify fun _ hs => { hs with }) fun _ => .pure _

theorem keeps_hasRights (e : DirBaseEntry) (unname : List UInt8) (rights : Rights) :
    Keeps (StateOk w n m) (hasRights w e unname rights) := .bind .get fun _ => .pure _

theorem keeps_nwGenerateDirPath (namespaceId : UInt8) (nwp : NwHpath) :
    Keeps (StateOk w n m) (nwGenerateDirPath w namespaceId nwp) := by
  unfold nwGenerateDirPath
  refine .bind (keeps_buildBase _ _ _) fun found => ?_
  dsimp only
  split
  · exact .pure _
  refine .bind (keeps_entryAt _) fun dbe => ?_
  split
  · exact .bind (.map (keeps_name2Base _ _ _)) fun _ => .pure _
  · exact .pure _

theorem keeps_nwOptainFileDirInfo (namespaceId : UInt8) (nwp : NwHpath) (destnamspace : UInt8)
    (infomask : UInt32) :
    Keeps (StateOk w n m) (nwOptainFileDirInfo w namespaceId nwp destnamspace infomask) := by
  unfold nwOptainFileDirInfo
  refine .bind (keeps_buildBase _ _ _) fun found => ?_
  dsimp only
  split
  · exact .pure _
  refine .bind (keeps_entryAt _) fun dbe => .bind (.map (keeps_nwpStat _)) fun _ => ?_
  exact keeps_buildDirInfo _ _ _

theorem keeps_nwInitSearch (namespaceId : UInt8) (nwp : NwHpath) :
    Keeps (StateOk w n m) (nwInitSearch w namespaceId nwp) := by
  unfold nwInitSearch
  refine .bind (keeps_buildBase _ _ _) fun found => ?_
  dsimp only
  split
  · exact .pure _
  · exact .bind (keeps_entryAt _) fun _ => .pure _

theorem keeps_nwOpenCreatFileOrDir (namespaceId opencreatmode : UInt8)
    (infomask creatattrib : UInt32) (accessRights : Nat) (nwp : NwHpath) :
    Keeps (StateOk w n m)
      (nwOpenCreatFileOrDir w namespaceId opencreatmode infomask creatattrib accessRights nwp) := by
  have hinfo : ∀ ptr, Keeps (StateOk w n m) (do
      let result ← buildDirInfo w ptr namespaceId infomask
      return if 0 ≤ result then result + 6 else result : NsM φ Int) := fun ptr =>
    .bind (keeps_buildDirInfo _ _ _) fun _ => .pure _
  unfold nwOpenCreatFileOrDir
  refine .bind (keeps_buildBase _ _ _) ?_
  rintro ⟨exist, lastPart⟩
  dsimp -zeta only
  extract_lets isDir creatmode opened
  -- from the entry that is opened on
  have hopen : ∀ r, Keeps (StateOk w n m) (opened r) := by
    intro result
    dsimp only [opened]
    split
    · exact .pure _
    split
    · exact .pure _
    refine .bind (keeps_entryAt _) fun dbe => ?_
    split
    · split
      · exact .pure _
      · exact hinfo _
    split
    · exact .pure _
    · refine .bind (keeps_change _) fun opened => ?_
      refine .bind (keeps_writeEntry (mild_statb _) _) fun _ => ?_
      split
      · exact .pure _
      · exact hinfo _
  split
  · refine .bind (keeps_buildBase _ _ _) fun parent => ?_
    split
    · exact .bind (.pure _) hopen
    · exact .bind (keeps_entryAt _) fun e => .bind (keeps_getAddNewEntry _ _ _ _) hopen
  · exact .bind (.pure _) hopen

theorem keeps_rmdirFromStructures (unname : List UInt8) (ptr : Nat) :
    Keeps (StateOk w n m) (rmdirFromStructures w unname ptr) := by
  unfold rmdirFromStructures
  refine .bind (keeps_theEntry ptr) fun dbe => .bind (.modify fun s hs => ?_) fun _ => ?_
  · exact { hs with handles := (AgedSlots.length_free_le _ _).trans hs.handles }
  · exact .bind (keeps_delDbeFromDisk dbe) fun _ => keeps_freeDbeP ptr

theorem keeps_deleteFileDir (ptr : Nat) : Keeps (StateOk w n m) (deleteFileDir w ptr) := by
  unfold deleteFileDir
  refine .bind (keeps_theEntry ptr) fun dbe => .bind (keeps_change _) fun result => ?_
  dsimp only
  split
  · split
    · refine .bind (.modify fun s hs => ?_) fun _ => ?_
      · exact { hs with dirs := (List.length_map _).trans_le hs.dirs }
      · exact .bind (keeps_rmdirFromStructures _ _) fun _ => .pure _
    · exact .bind (keeps_freeDbeP ptr) fun _ => .pure _
  · exact .pure _

theorem keeps_searchInParent (namespaceId : UInt8) (nwp : NwHpath)
    {search : Nat → List UInt8 → NsM φ Int}
    (h : ∀ ptr entry, Keeps (StateOk w n m) (search ptr entry)) :
    Keeps (StateOk w n m) (searchInParent w namespaceId nwp search) := by
  unfold searchInParent
  refine .bind (keeps_buildBase _ _ _) fun found => ?_
  dsimp only
  split
  · exact .pure _
  refine .bind (keeps_entryAt _) fun dbe => ?_
  split
  · exact .pure _
  · exact h _ _

theorem keeps_nwDeleteFileDir (namespaceId : UInt8) (searchattrib : UInt32) (nwp : NwHpath) :
    Keeps (StateOk w n m) (nwDeleteFileDir w namespaceId searchattrib nwp) :=
  keeps_searchInParent _ _ fun ptr entry => by
    refine .bind (keeps_funcSearchEntry keeps_deleteFileDir _ _ _ _) fun result => ?_
    split
    · exact keeps_funcSearchEntry keeps_deleteFileDir _ _ _ _
    · exact .pure _

theorem keeps_addTrusteeSet (nwoic : List (UInt32 × Int)) (ptr : Nat) :
    Keeps (StateOk w n m) (addTrusteeSet w nwoic ptr) :=
  .bind (keeps_theEntry ptr) fun _ => keeps_change _

theorem keeps_nwAddTrusteeSet (namespaceId : UInt8) (searchattrib : UInt32) (nwp : NwHpath)
    (trusteeRights : UInt16) (oic : List (UInt32 × UInt16)) :
    Keeps (StateOk w n m)
      (nwAddTrusteeSet w namespaceId searchattrib nwp trusteeRights oic) := by
  unfold nwAddTrusteeSet
  exact keeps_searchInParent namespaceId nwp fun _ _ =>
    keeps_funcSearchEntry (keeps_addTrusteeSet _) _ _ _ _

theorem keeps_delTrusteeSet (ids : List UInt32) (ptr : Nat) :
    Keeps (StateOk w n m) (delTrusteeSet w ids ptr) :=
  .bind (keeps_theEntry ptr) fun _ => keeps_change _

theorem keeps_nwDelTrusteeSet (namespaceId : UInt8) (nwp : NwHpath) (ids : List UInt32) :
    Keeps (StateOk w n m) (nwDelTrusteeSet w namespaceId nwp ids) := by
  unfold nwDelTrusteeSet
  exact keeps_searchInParent namespaceId nwp fun _ _ =>
    keeps_funcSearchEntry (keeps_delTrusteeSet _) _ _ _ _

theorem keeps_nwGetTrusteeSet (namespaceId : UInt8) (nwp : NwHpath) (scansequence : UInt32) :
    Keeps (StateOk w n m) (nwGetTrusteeSet w namespaceId nwp scansequence) := by
  unfold nwGetTrusteeSet
  refine .bind (keeps_buildBase _ _ _) fun found => ?_
  dsimp only
  split
  · exact .pure _
  refine .bind (keeps_entryAt _) fun dbe => .bind (.map (keeps_nwpStat _)) fun _ => ?_
  exact .bind (keeps_theEntry _) fun _ => .bind .get fun _ => .pure _

theorem keeps_nwAllocShortDirHandle (namespaceId : UInt8) (hmode task : Nat) (nwp : NwHpath) :
    Keeps (StateOk w n m) (nwAllocShortDirHandle w namespaceId hmode task nwp) := by
  unfold nwAllocShortDirHandle
  refine .bind (keeps_buildBase _ _ _) fun found => ?_
  dsimp only
  split
  · exact .pure _
  refine .bind (keeps_entryAt _) fun dbe => ?_
  split
  · exact .pure _
  · exact keeps_setDirs (f := id) fun s hs => length_xinsertNewDir hs _ _ _ _ _ _

theorem keeps_nwSetShortDirHandle (namespaceId : UInt8) (desthandle task : Nat)
    (nwp : NwHpath) :
    Keeps (StateOk w n m) (nwSetShortDirHandle w namespaceId desthandle task nwp) := by
  unfold nwSetShortDirHandle
  refine .bind (keeps_buildBase _ _ _) fun found => ?_
  dsimp only
  split
  · exact .pure _
  refine .bind (keeps_entryAt _) fun dbe => ?_
  split
  · exact .pure _
  · exact keeps_setDirs (f := fun result => if 0 < result then 0 else result) fun s hs =>
      (length_alterDirHandle _ _ _ _ _ _).trans_le hs

theorem keeps_nwGetFullPathCookies (namespaceId : UInt8) (nwp : NwHpath)
    (cookie1 cookie2 : UInt32) :
    Keeps (StateOk w n m) (nwGetFullPathCookies w namespaceId nwp cookie1 cookie2) := by
  unfold nwGetFullPathCookies
  refine .bind (keeps_buildBase _ _ _) fun found => ?_
  dsimp only
  split
  · exact .pure _
  refine .bind (keeps_entryAt _) fun dbe => ?_
  repeat' split
  all_goals exact .pure _

theorem keeps_unxMove (isDir : Bool) (oldname newname : List UInt8) :
    Keeps (StateOk w n m) (unxMove w isDir oldname newname) := by
  unfold unxMove
  refine .bind .get fun s => ?_
  dsimp only
  split
  · exact .pure _
  split
  · exact .pure _
  · exact keeps_change _

theorem keeps_nwRenameFileDir (namespaceId : UInt8) (nwps nwpd : NwHpath) :
    Keeps (StateOk w n m) (nwRenameFileDir w namespaceId nwps nwpd) := by
  unfold nwRenameFileDir
  refine .bind (keeps_buildBase _ _ _) fun source => ?_
  dsimp only
  split
  · exact .pure _
  refine .bind (keeps_entryAt _) fun dbeS => .bind (keeps_theEntry _) fun s => ?_
  refine .bind (keeps_buildBase _ _ _) fun dest => ?_
  split
  · exact .pure _
  refine .bind (keeps_entryAt _) fun d => .bind (keeps_theEntry _) fun s => ?_
  refine .bind (keeps_hasRights _ _ _) fun rights => ?_
  split
  · exact .pure _
  refine .bind (keeps_hasRights _ _ _) fun rights => ?_
  split
  · exact .pure _
  refine .bind (keeps_unxMove _ _ _) fun result => ?_
  split
  · exact .pure _
  · refine .bind (keeps_freeDbeP _) fun _ => ?_
    exact .bind (keeps_getAddNewEntry _ _ _ _) fun _ => .pure _

theorem keeps_nwModifyFileDir (namespaceId : UInt8) (nwp : NwHpath) (infomask : UInt32)
    (dmi : DosModifyInfo) :
    Keeps (StateOk w n m) (nwModifyFileDir w namespaceId nwp infomask dmi) := by
  unfold nwModifyFileDir
  refine .bind (keeps_buildBase _ _ _) fun found => ?_
  dsimp only
  split
  · exact .pure _
  refine .bind (keeps_entryAt _) fun old => .bind (keeps_nwpStat _) fun there => ?_
  split
  · exact .pure _
  refine .bind (keeps_theEntry _) fun dbe => ?_
  split
  · exact .pure _
  refine .bind (keeps_hasRights _ _ _) fun rights => ?_
  have hrest : ∀ result : Int, Keeps (StateOk w n m) (do
      if result ≠ 0 then return result
      if infomask &&& 0x1000 ≠ 0 then
        if ← hasRights w dbe (unixNameOf w old) trusteeA then
          modify fun s => { s with
            fs :=
              let mask := w.truGetInheritedMask s.fs dbe.volume (unixNameOf w old) dbe.statb
              let mask :=
                mask &&& ~~~(dmi.rightsrevokemask &&& ~~~trusteeS) ||| dmi.rightsgrantmask
              w.truSetInheritedMask s.fs dbe.volume (unixNameOf w old) dbe.statb mask }
      modify fun s => { s with fs := w.utime s.fs (unixNameOf w old) infomask dmi.times }
      return result : NsM φ Int) := by
    intro result
    have hutime : Keeps (StateOk w n m) (do
        modify fun s => { s with fs := w.utime s.fs (unixNameOf w old) infomask dmi.times }
        return result : NsM φ Int) := .bind (.modify fun _ hs => { hs with }) fun _ => .pure _
    split
    · exact .pure _
    dsimp only
    split
    · refine .bind (keeps_hasRights _ _ _) fun _ => ?_
      split
      · exact .bind (.modify fun _ hs => { hs with }) fun _ => hutime
      · exact hutime
    · exact hutime
  dsimp only at hrest
  split
  · exact .bind (keeps_change _) fun result => hrest result
  · exact hrest _

theorem keeps_handleFunc0x57 (r : NsRequest) : Keeps (StateOk w n m) (handleFunc0x57 w r) := by
  cases r with
  | openCreat ns mode infomask creatattrib rights nwp =>
      exact keeps_nwOpenCreatFileOrDir ns mode infomask creatattrib rights nwp
  | initSearch ns nwp => exact keeps_nwInitSearch ns nwp
  | search ns searchattrib infomask volume basehandle sequence path =>
      exact .bind (keeps_nwSearchFileDir _ _ _ _ _ _ _) fun _ => .pure _
  | rename ns nwps nwpd => exact keeps_nwRenameFileDir ns nwps nwpd
  | scanTrustees ns nwp scansequence => exact keeps_nwGetTrusteeSet ns nwp scansequence
  | obtainInfo ns nwp dest infomask => exact keeps_nwOptainFileDirInfo ns nwp dest infomask
  | modify ns nwp infomask dmi => exact keeps_nwModifyFileDir ns nwp infomask dmi
  | delete ns searchattrib nwp => exact keeps_nwDeleteFileDir ns searchattrib nwp
  | setShortDirHandle ns dest task nwp => exact keeps_nwSetShortDirHandle ns dest task nwp
  | addTrusteeSet ns searchattrib nwp rights oic =>
      exact keeps_nwAddTrusteeSet ns searchattrib nwp rights oic
  | delTrusteeSet ns nwp ids =>
      exact keeps_nwDelTrusteeSet ns nwp ids
  | allocShortDirHandle ns hmode task nwp => exact keeps_nwAllocShortDirHandle ns hmode task nwp
  | generateDirBase ns nwp => exact keeps_nwGenerateDirPath ns nwp
  | fullPath ns nwp cookie1 cookie2 => exact keeps_nwGetFullPathCookies ns nwp cookie1 cookie2
  | effRights ns nwp dest infomask =>
      exact .bind (keeps_nwOptainFileDirInfo _ _ _ _) fun _ => .pure _

/-! ## Runs -/

/-- How many places `init_name_space_module` makes for base entries, and how many search
handles there may be. -/
def baseLimit (maxBaseh : Nat) : Nat := if maxBaseh < 5 then 50 else maxBaseh

def searchLimit (maxSearchh : Nat) : Nat :=
  if maxSearchh < 10 ∨ 255 < maxSearchh then 50 else maxSearchh

theorem nsInit_ok {maps : Nat → List DevNamespaceMap} {dirs : Dirs} (hmaps : MapsOk w maps)
    (hdirs : dirs.length ≤ maxNwDirs) (maxBaseh maxSearchh : Nat)
    (links : List UInt8 × FileId → Option (List UInt8)) (fs : φ) :
    StateOk w (baseLimit maxBaseh) (searchLimit maxSearchh)
      (nsInit maxBaseh maxSearchh links maps dirs fs) where
  table := BaseTable.empty_ok _
  size := List.length_replicate
  pos := by
    unfold baseLimit
    split <;> omega
  handles := Nat.zero_le _
  limit := rfl
  maps := hmaps
  dirs := hdirs

/-- The state is as it has to be, as long as there is one. -/
def OkOrFault (w : NsWorld φ) (n m : Nat) (s : Except NsFault (NsState φ)) : Prop :=
  ∀ s', s = .ok s' → StateOk w n m s'

theorem OkOrFault.step {s : Except NsFault (NsState φ)} (hs : OkOrFault w n m s)
    (e : NsEvent φ) : OkOrFault w n m ((nsMachine w).step s e).2 := by
  cases s with
  | error fault => exact fun _ h => by cases h
  | ok s =>
      have hs := hs s rfl
      cases e with
      | outside fs =>
          rintro _ ⟨⟩
          exact { hs with }
      | request r =>
          intro s' h
          change (do return (← handleFunc0x57 w r s).2 : Except NsFault (NsState φ)) = _ at h
          cases hrun : handleFunc0x57 w r s with
          | error fault =>
              rw [hrun] at h
              cases h
          | ok out =>
              rw [hrun] at h
              obtain rfl := Except.ok.inj h
              exact (keeps_handleFunc0x57 r).of_ok hs hrun

/-- What an allocation, a touch and a release do with the entries of a table, whatever
their places. An allocation gives up one entry at most. -/
structure OperationsKeep (t : BaseTable) : Prop where
  allocate : (contents t.allocate.1.dirBase ++ (t.victim.map DirBaseEntry.unplaced).toList).Perm
    (BaseTable.newEntry t.fresh :: contents t.dirBase)
  victim : ∀ e, t.victim = some e → (∃ e', t.Has e' ∧ e'.locked = 0) → e.locked = 0
  full : ∀ e, t.victim = some e → ∀ i < t.dirBase.length, ∃ e', t.dirBase[i]? = some (some e')
  touch : ∀ e, t.Has e → (contents (t.touch e).1.dirBase).Perm (contents t.dirBase)
  free : ∀ e, t.Has e → (contents t.dirBase).Perm (e.unplaced :: contents (t.free e).dirBase)

/-- An entry is given up only if every place is taken. -/
theorem BaseTable.Ok.full {t : BaseTable} (h : t.Ok) (hpos : 0 < t.dirBase.length)
    {e : DirBaseEntry} (hvictim : t.victim = some e) {i : Nat} (hi : i < t.dirBase.length) :
    ∃ e', t.dirBase[i]? = some (some e') := by
  have hat : t.dirBase[t.place]? = some (some e) := Option.join_eq_some_iff.mp hvictim
  have hlen : (t.dirBase.take t.anzDbe).length = t.anzDbe := List.length_take_of_le h.bound
  rcases h.place_cases hpos with ⟨hnone, -⟩ | ⟨hfull, hlt, -⟩
  · rw [hnone] at hat
    cases hat
  · -- a scan that stops before the end stops at a free place
    by_cases hall : ((t.dirBase.take t.anzDbe).takeWhile Option.isSome).length = t.anzDbe
    · have hsame : (t.dirBase.take t.anzDbe).takeWhile Option.isSome = t.dirBase.take t.anzDbe :=
        (List.takeWhile_prefix Option.isSome).eq_of_length (hall.trans hlen.symm)
      have hget : (t.dirBase.take t.anzDbe)[i]? = some t.dirBase[i] := by
        rw [List.getElem?_take_of_lt (hfull ▸ hi), List.getElem?_eq_getElem hi]
      have hmem := List.mem_of_getElem? hget
      rw [← hsame] at hmem
      obtain ⟨e', he'⟩ := Option.isSome_iff_exists.mp (List.mem_takeWhile_imp hmem)
      exact ⟨e', by rw [List.getElem?_eq_getElem hi, he']⟩
    · have hstop := (List.takeWhile_prefix (l := t.dirBase.take t.anzDbe) Option.isSome).length_le
      obtain ⟨slot, hslot, hnone⟩ :=
        getElem?_length_takeWhile (lt_of_le_of_ne hstop (by rwa [hlen]))
      have hplace : t.place = ((t.dirBase.take t.anzDbe).takeWhile Option.isSome).length := by
        unfold BaseTable.place
        dsimp only
        rw [allocScan_fst, Nat.zero_add, if_neg fun hend => hall hend.1]
      rw [← hplace, List.getElem?_take_of_lt hlt, hat] at hslot
      obtain rfl := Option.some.inj hslot
      cases hnone

theorem BaseTable.Ok.operationsKeep {t : BaseTable} (h : t.Ok) (hpos : 0 < t.dirBase.length) :
    OperationsKeep t where
  allocate := h.contents_allocate hpos
  victim := by
    rintro e hvictim ⟨e', he', hunlocked⟩
    have hat : t.dirBase[t.place]? = some (some e) := Option.join_eq_some_iff.mp hvictim
    rcases h.place_cases hpos with ⟨hnone, -⟩ | ⟨-, -, e'', he'', hchoice⟩
    · rw [hnone] at hat
      cases hat
    · rw [hat] at he''
      obtain rfl := Option.some.inj (Option.some.inj he'')
      refine hchoice ⟨e'.slot, h.inUse _ e' he', ?_⟩
      rw [he']
      simpa [isLocked] using hunlocked
  full _ hvictim _ hi := h.full hpos hvictim hi
  touch _ he := BaseTable.contents_touch he
  free _ he := BaseTable.contents_free he

/-- However requests and changes by others follow each other, the module keeps within its
arrays, every base entry is in the place that it says, and the operations on the table
lose no entry but one that has to give way. -/
theorem nsMachine_stateOk {maps : Nat → List DevNamespaceMap} {dirs : Dirs}
    (hmaps : MapsOk w maps) (hdirs : dirs.length ≤ maxNwDirs) (maxBaseh maxSearchh : Nat)
    (links : List UInt8 × FileId → Option (List UInt8)) (fs : φ) (events : List (NsEvent φ))
    {s : NsState φ} (hrun : (nsMachine w).exec
      (.ok (nsInit maxBaseh maxSearchh links maps dirs fs)) events = .ok s) :
    StateOk w (baseLimit maxBaseh) (searchLimit maxSearchh) s ∧ OperationsKeep s.table := by
  have hinit : OkOrFault w (baseLimit maxBaseh) (searchLimit maxSearchh)
      (.ok (nsInit maxBaseh maxSearchh links maps dirs fs)) := fun s' heq =>
    Except.ok.inj heq ▸ nsInit_ok hmaps hdirs maxBaseh maxSearchh links fs
  have hok := (nsMachine w).exec_preserves (fun _ e hs => hs.step e) events hinit s hrun
  exact ⟨hok, hok.table.operationsKeep (hok.size ▸ hok.pos)⟩

/-- The files of `flatWorld` are directories, and every name is one. -/
def flatWorld : NsWorld Unit :=
  { emptyWorld with
    volumes := [sysVol]
    stat := fun _ name => some ⟨⟨1, UInt64.ofNat name.length⟩, true, false, false, 0⟩ }

/-- Two directories that are asked for get base entries. -/
theorem nsMachine_stateOk_flat :
    let run := (nsMachine flatWorld).exec (.ok (nsInit 5 10 (fun _ => none) (fun _ => []) [] ()))
      [.request (.generateDirBase nameDos ⟨0, 0, 1, [[0x41]]⟩), .outside (),
        .request (.generateDirBase nameDos ⟨0, 0, 1, [[0x41, 0x42]]⟩)]
    ∃ s, run = .ok s ∧ s.table.anzDbe = 2 ∧ StateOk flatWorld 5 10 s ∧
      OperationsKeep s.table := by
  intro run
  have hanz : (run.map fun s => s.table.anzDbe) = .ok 2 := by decide +kernel
  cases hrun : run with
  | error fault =>
      rw [hrun] at hanz
      cases hanz
  | ok s =>
      rw [hrun] at hanz
      exact ⟨s, rfl, Except.ok.inj hanz, nsMachine_stateOk
        ⟨fun _ => List.nodup_nil, fun _ _ _ => Nat.zero_le _⟩ (Nat.zero_le _) 5 10 _ () _ hrun⟩

end MarsNwe.NameSpace
