import MarsNwe.Trustee.SelfGrant
import MarsNwe.Trustee.Store

/-! # What the trustee store keeps

Grants, deletions and masks, one after the other, leave in the store what is in force for
each file. A process that starts with an empty cache answers with just that, as long as
no two files agree in the parts of their numbers that are used, no entry is for the id 0,
and a file has no more links than a node has room for.
-/

namespace MarsNwe

open Formatted Links

/-! ## The calls on a volume -/

/-- A successful call, with what is not read from the store: the directories that the name
goes through, the longest name first, and the rights that the caller may grant. -/
inductive StoreCall where
  | add (file : FileNumbers) (above : List FileNumbers) (mask : Rights) (nwoic : List IdsTrustee)
      (path : List UInt8)
  | del (file : FileNumbers) (id : UInt32)
  | setMask (file : FileNumbers) (newMask : Rights)

namespace TrusteeStore

/-- The step of the loop of `tru_add_trustee_set` for an id at a directory. -/
def addBrowse (base : Nat) (place : TrusteeStore → Nat) (dir : FileId) (s : TrusteeStore)
    (poic : IdsTrustee) : Option TrusteeStore :=
  if poic.id ≠ 0 then do
    let trustee := (← s.getTrusteeFromDisk base dir poic.id).getD 0
    if trustee &&& (trusteeT ||| trusteeF) = 0 then
      s.putTrusteeToDisk base place dir ⟨poic.id, trustee ||| trusteeT⟩
    else some s
  else some s

/-- The writes of `tru_add_trustee_set`, `tru_del_trustee` and `tru_set_inherited_mask`;
none, if a name does not fit its buffer. -/
def call (base : Nat) (place : TrusteeStore → Nat) (s : TrusteeStore) :
    StoreCall → Option TrusteeStore
  | .add file above mask nwoic path => do
      let s ← nwoic.foldlM (fun s e =>
        s.putTrusteeToDisk base place file.id { e with trustee := e.trustee &&& mask }) s
      let s ← s.creatTrusteePath base place file.id path
      let s ← above.foldlM (fun s dir => nwoic.foldlM (addBrowse base place dir.id) s) s
      some (s.nextSernum place)
  | .del file id =>
      (s.delTrusteeFromDisk base file.id id).map fun (result, s) =>
        if result = 0 then s.nextSernum place else s
  | .setMask file newMask =>
      (s.putTrusteeToDisk base place file.id ⟨0, newMask⟩).map (nextSernum place)

def run (base : Nat) (place : TrusteeStore → Nat) (s : TrusteeStore) (calls : List StoreCall) :
    Option TrusteeStore := calls.foldlM (call base place) s

end TrusteeStore

/-! ## What is in force -/

/-- The entries and the inherited masks of all files. -/
structure InForce where
  entries : FileNumbers → UInt32 → Option Rights
  masks : FileNumbers → Option Rights

namespace InForce

/-- Nothing is granted. -/
def nothing : InForce := ⟨fun _ _ => none, fun _ => none⟩

def setEntry (force : InForce) (file : FileNumbers) (id : UInt32) (rights : Option Rights) :
    InForce :=
  { force with entries := fun file' id' =>
      if file' = file ∧ id' = id then rights else force.entries file' id' }

/-- A directory above gets the right to browse for an id that does not show it yet. -/
def browse (dir : FileNumbers) (force : InForce) (e : IdsTrustee) : InForce :=
  let rights := (force.entries dir e.id).getD 0
  if rights &&& (trusteeT ||| trusteeF) = 0 then
    force.setEntry dir e.id (some (rights ||| trusteeT))
  else force

/-- What a call changes. -/
def call (force : InForce) : StoreCall → InForce
  | .add file above mask nwoic _ =>
      let force := nwoic.foldl (fun force e =>
        force.setEntry file e.id (some (e.trustee &&& mask))) force
      above.foldl (fun force dir => nwoic.foldl (browse dir) force) force
  | .del file id => force.setEntry file id none
  | .setMask file newMask =>
      { force with masks := fun file' => if file' = file then some newMask else force.masks file' }

/-- What is in force after a list of calls. -/
def after (calls : List StoreCall) : InForce := calls.foldl call nothing

/-- The links of a file, one for each id and one for the mask, are not more than
`MAX_TRUSTEES`. -/
def FitsNode (force : InForce) (file : FileNumbers) : Prop :=
  ∃ ids : List UInt32, (∀ id, (force.entries file id).isSome → id ∈ ids) ∧
    ids.length + (if (force.masks file).isSome then 1 else 0) ≤ maxTrustees

end InForce

/-! ## What should be answered -/

/-- A page of a list. -/
def trusteePage (all : List IdsTrustee) (sequence maxcount : Nat) : TrusteeAnswer :=
  let ids := (all.drop (sequence * maxcount)).take maxcount
  if ids.isEmpty then .value (-0x9c) else .trustees ids

/-- With the trustees in the store, a process answers what is in force for a file: the
mask, if the cache is empty, and page after page the entries, each once, after any other
calls. -/
def AnswersFor (s : TrusteeStore) (force : InForce) (file : FileNumbers) : Prop :=
  ∀ (world : TrusteeWorld) (volume : Nat) (unixname : UnixName) (stb : FileStat),
    world.disk volume = s.trusteeDir → (world.tree volume).options.trustees = true →
    (world.tree volume).stat unixname = some stb → stb.id = file.id →
    (∀ mask, force.masks file = some mask →
      ((trusteeMachine world).step .empty (.file volume unixname .inheritedMask)).1 =
        .value mask.toNat) ∧
    ∃ all : List IdsTrustee, (all.map IdsTrustee.id).Nodup ∧
      (∀ e, e ∈ all ↔ force.entries file e.id = some e.trustee) ∧
      ∀ (maxcount sequence : Nat) (before : List TrusteeCall), 1 ≤ maxcount →
        sequence * maxcount < 2 ^ 31 →
        ((trusteeMachine world).step ((trusteeMachine world).exec .empty before)
          (.file volume unixname (.trusteeSet sequence maxcount))).1 =
            trusteePage all sequence maxcount

/-! ## Runs -/

/-- The calls that keep to some files, with ids that are not that of the mask. -/
def StoreCall.Plain (S : Set FileNumbers) : StoreCall → Prop
  | .add file above _ nwoic _ =>
      file ∈ S ∧ (∀ dir ∈ above, dir ∈ S) ∧ ∀ e ∈ nwoic, e.id ≠ 0
  | .del file id => file ∈ S ∧ id ≠ 0
  | .setMask file _ => file ∈ S

/-- The store holds what is in force for some files. No entry is for the id of the mask. -/
structure Represents (S : Set FileNumbers) (s : TrusteeStore) (force : InForce) : Prop where
  held : ∀ file ∈ S, ∀ id, (s.trusteeDir file.id).get? id =
    if id = 0 then force.masks file else force.entries file id
  entries_zero : ∀ file, force.entries file 0 = none

/-- Names fit their buffers behind a directory name of so many characters. -/
theorem textLength_entryPath_le {base : Nat} (hbase : base ≤ 223) (id : FileId)
    (trustee : UInt32) : textLength base (entryPath id trustee) ≤ 255 := by
  have hdev := length_hexText_le (w := 8) (by decide) id.dev.toNat_lt
  have htrustee := length_hexText_le (w := 8) (by decide) trustee.toNat_lt
  have hino := id.ino.toNat_lt
  have hbyte : ∀ n, n < 256 → (hexText n).length ≤ 2 := fun n hn =>
    length_hexText_le (w := 2) (by decide) hn
  have hbyte3 := hbyte (id.ino.toNat / 2 ^ 24) (by omega)
  have hbyte2 := hbyte (id.ino.toNat / 2 ^ 16 % 256) (by omega)
  have hbyte1 := hbyte (id.ino.toNat / 2 ^ 8 % 256) (by omega)
  have hbyte0 := hbyte (id.ino.toNat % 256) (by omega)
  simp only [entryPath, trusteePath, storePath, List.cons_append, List.nil_append, textLength,
    List.length_cons]
  omega

theorem textLength_namePath_le {base : Nat} (hbase : base ≤ 223) (id : FileId) :
    textLength base (namePath id) ≤ 255 := by
  have hentry := textLength_entryPath_le hbase id 0
  simp only [entryPath, trusteePath, namePath, storePath, List.cons_append, List.nil_append,
    textLength, List.length_cons] at hentry ⊢
  omega

section Steps

variable {S : Set FileNumbers} {base : Nat} (place : TrusteeStore → Nat) {s : TrusteeStore}
  {force : InForce} {file : FileNumbers}

theorem Represents.of_get? {s' : TrusteeStore} (hs : Represents S s force)
    (hsame : ∀ id trustee, (s'.trusteeDir id).get? trustee = (s.trusteeDir id).get? trustee) :
    Represents S s' force :=
  ⟨fun file hfile id => (hsame file.id id).trans (hs.held file hfile id), hs.entries_zero⟩

theorem Represents.nextSernum (hs : Represents S s force) :
    Represents S (s.nextSernum place) force := by
  refine hs.of_get? fun id trustee => ?_
  unfold TrusteeStore.nextSernum
  exact TrusteeStore.get?_replace_other _ _ TrusteeStore.sernumPath_ne_entryPath id trustee

theorem Represents.creatTrusteePath (hs : Represents S s force) (hbase : base ≤ 223) (id : FileId)
    (path : List UInt8) :
    ∃ s', s.creatTrusteePath base place id path = some s' ∧ Represents S s' force := by
  unfold TrusteeStore.creatTrusteePath
  rw [if_pos (textLength_namePath_le hbase id)]
  exact ⟨_, rfl, hs.of_get? fun id' trustee =>
    TrusteeStore.get?_replace_other _ _ (TrusteeStore.namePath_ne_entryPath id) id' trustee⟩

/-- Files that do not agree in the numbers that are used have entries of their own. -/
theorem id_eq_iff (hS : Set.InjOn FileNumbers.id S) {file' : FileNumbers} (hfile : file ∈ S)
    (hfile' : file' ∈ S) : file'.id = file.id ↔ file' = file :=
  ⟨fun h => hS hfile' hfile h, fun h => congrArg FileNumbers.id h⟩

theorem Represents.setEntry_zero (hs : Represents S s force) {id : UInt32} (hid : id ≠ 0)
    {rights : Option Rights} (file' : FileNumbers) :
    (force.setEntry file id rights).entries file' 0 = none := by
  show (if file' = file ∧ 0 = id then rights else force.entries file' 0) = none
  rw [if_neg fun h => hid h.2.symm]
  exact hs.entries_zero file'

theorem Represents.put (hs : Represents S s force) (hS : Set.InjOn FileNumbers.id S)
    (hbase : base ≤ 223) (hfile : file ∈ S) {e : IdsTrustee} (hid : e.id ≠ 0) :
    ∃ s', s.putTrusteeToDisk base place file.id e = some s' ∧
      Represents S s' (force.setEntry file e.id (some e.trustee)) := by
  unfold TrusteeStore.putTrusteeToDisk
  rw [if_pos (textLength_entryPath_le hbase file.id e.id)]
  refine ⟨_, rfl, fun file' hfile' id => ?_, hs.setEntry_zero hid⟩
  simp only [TrusteeStore.get?_replace_entry, id_eq_iff hS hfile hfile', hs.held file' hfile' id]
  unfold InForce.setEntry
  dsimp only
  by_cases hboth : file' = file ∧ id = e.id
  · rw [if_pos hboth, if_pos hboth, if_neg (by rw [hboth.2]; exact hid)]
  · rw [if_neg hboth, if_neg hboth]

theorem Represents.putMask (hs : Represents S s force) (hS : Set.InjOn FileNumbers.id S)
    (hbase : base ≤ 223) (hfile : file ∈ S) {e : IdsTrustee} (hid : e.id = 0) :
    ∃ s', s.putTrusteeToDisk base place file.id e = some s' ∧
      Represents S s' (force.call (.setMask file e.trustee)) := by
  unfold TrusteeStore.putTrusteeToDisk
  rw [if_pos (textLength_entryPath_le hbase file.id e.id)]
  refine ⟨_, rfl, fun file' hfile' id => ?_, hs.entries_zero⟩
  simp only [TrusteeStore.get?_replace_entry, id_eq_iff hS hfile hfile', hs.held file' hfile' id]
  rw [hid]
  unfold InForce.call
  dsimp only
  by_cases hzero : id = 0
  · rw [if_pos hzero, if_pos hzero]
    by_cases hsame : file' = file
    · rw [if_pos ⟨hsame, hzero⟩, if_pos hsame]
    · rw [if_neg fun h => hsame h.1, if_neg hsame]
  · rw [if_neg hzero, if_neg hzero, if_neg fun h => hzero h.2]

theorem Represents.del (hs : Represents S s force) (hS : Set.InjOn FileNumbers.id S)
    (hfile : file ∈ S) {id : UInt32} (hid : id ≠ 0) :
    Represents S (s.remove (entryPath file.id id)) (force.setEntry file id none) := by
  refine ⟨fun file' hfile' id' => ?_, hs.setEntry_zero hid⟩
  simp only [TrusteeStore.get?_remove_entry, id_eq_iff hS hfile hfile', hs.held file' hfile' id']
  unfold InForce.setEntry
  dsimp only
  by_cases hboth : file' = file ∧ id' = id
  · rw [if_pos hboth, if_pos hboth, if_neg (by rw [hboth.2]; exact hid)]
  · rw [if_neg hboth, if_neg hboth]

/-- What each step of a loop keeps, the loop keeps. -/
theorem Represents.foldlM {α : Type} {f : TrusteeStore → α → Option TrusteeStore}
    {g : InForce → α → InForce} {l : List α}
    (hstep : ∀ s force, ∀ a ∈ l, Represents S s force →
      ∃ s', f s a = some s' ∧ Represents S s' (g force a))
    (hs : Represents S s force) :
    ∃ s', l.foldlM f s = some s' ∧ Represents S s' (l.foldl g force) := by
  induction l generalizing s force with
  | nil => exact ⟨s, rfl, hs⟩
  | cons a l ih =>
      obtain ⟨s', hf, hs'⟩ := hstep s force a List.mem_cons_self hs
      obtain ⟨s'', hl, hs''⟩ :=
        ih (fun s force b hb => hstep s force b (List.mem_cons_of_mem _ hb)) hs'
      refine ⟨s'', ?_, hs''⟩
      rw [List.foldlM_cons, hf]
      exact hl

theorem Represents.addBrowse (hs : Represents S s force) (hS : Set.InjOn FileNumbers.id S)
    (hbase : base ≤ 223) {dir : FileNumbers} (hdir : dir ∈ S) {e : IdsTrustee} (hid : e.id ≠ 0) :
    ∃ s', TrusteeStore.addBrowse base place dir.id s e = some s' ∧
      Represents S s' (force.browse dir e) := by
  have hread : s.getTrusteeFromDisk base dir.id e.id = some (force.entries dir e.id) := by
    unfold TrusteeStore.getTrusteeFromDisk
    rw [if_pos (textLength_entryPath_le hbase dir.id e.id), TrusteeStore.readlink_entryPath,
      hs.held dir hdir, if_neg hid]
  unfold TrusteeStore.addBrowse InForce.browse
  rw [if_pos hid, hread]
  dsimp only [Option.bind_eq_bind, Option.bind_some]
  split
  · exact hs.put place hS hbase hdir (e := ⟨e.id, _⟩) hid
  · exact ⟨s, rfl, hs⟩

/-- One call. -/
theorem Represents.call (hs : Represents S s force) (hS : Set.InjOn FileNumbers.id S)
    (hbase : base ≤ 223) {c : StoreCall} (hc : c.Plain S) :
    ∃ s', s.call base place c = some s' ∧ Represents S s' (force.call c) := by
  cases c with
  | add file above mask nwoic path =>
      obtain ⟨hfile, habove, hids⟩ := hc
      obtain ⟨s₁, hput, hs₁⟩ := hs.foldlM (l := nwoic) fun s force e he hs =>
        hs.put place hS hbase hfile (e := ⟨e.id, e.trustee &&& mask⟩)
          (hids e he)
      obtain ⟨s₂, hname, hs₂⟩ := hs₁.creatTrusteePath place hbase file.id path
      obtain ⟨s₃, hbrowse, hs₃⟩ := hs₂.foldlM (l := above) fun s force dir hdir hs =>
        hs.foldlM (l := nwoic) fun s force e he hs =>
          hs.addBrowse place hS hbase (habove dir hdir) (e := e) (hids e he)
      refine ⟨s₃.nextSernum place, ?_, hs₃.nextSernum place⟩
      unfold TrusteeStore.call
      simp only [hput, hname, hbrowse, Option.bind_eq_bind, Option.bind_some]
  | del file id =>
      obtain ⟨hfile, hid⟩ := hc
      have hs' := hs.del hS hfile hid
      have hfits := textLength_entryPath_le hbase file.id id
      simp only [TrusteeStore.call, TrusteeStore.delTrusteeFromDisk, if_pos hfits, Option.map_some]
      refine ⟨_, rfl, ?_⟩
      split
      · exact hs'.nextSernum place
      · exact hs'
  | setMask file newMask =>
      obtain ⟨s', hput, hs'⟩ := hs.putMask place hS hbase hc (e := ⟨0, newMask⟩) rfl
      refine ⟨s'.nextSernum place, ?_, hs'.nextSernum place⟩
      show (s.putTrusteeToDisk base place file.id ⟨0, newMask⟩).map _ = _
      rw [hput]
      rfl

end Steps

/-! ## The routines of a process -/

/-- The trustees of a volume that the routines of a process work on are those in the
store. -/
def InStore (disk : TrusteeDisk) (volume : Nat) (s : TrusteeStore) : Prop :=
  ∀ id trustee, (disk volume id).get? trustee = (s.trusteeDir id).get? trustee

section Routines

variable {disk : TrusteeDisk} {volume : Nat} {s : TrusteeStore} {base : Nat}

theorem InStore.of_get? {s' : TrusteeStore} (h : InStore disk volume s)
    (hsame : ∀ id trustee, (s'.trusteeDir id).get? trustee = (s.trusteeDir id).get? trustee) :
    InStore disk volume s' := fun id trustee => (h id trustee).trans (hsame id trustee).symm

theorem InStore.put (h : InStore disk volume s) (hbase : base ≤ 223) (place : TrusteeDir → Nat)
    (place' : TrusteeStore → Nat) (id : FileId) (e : IdsTrustee) :
    ∃ s', s.putTrusteeToDisk base place' id e = some s' ∧
      InStore (putTrusteeToDisk place disk volume id e) volume s' := by
  unfold TrusteeStore.putTrusteeToDisk
  rw [if_pos (textLength_entryPath_le hbase id e.id)]
  refine ⟨_, rfl, fun id' trustee => ?_⟩
  rw [TrusteeStore.get?_replace_entry]
  unfold putTrusteeToDisk
  by_cases hid : id' = id
  · rw [if_pos ⟨rfl, hid⟩, TrusteeDir.get?_put, h id' trustee]
    by_cases htrustee : trustee = e.id
    · rw [if_pos htrustee, if_pos ⟨hid, htrustee⟩]
    · rw [if_neg htrustee, if_neg fun hboth => htrustee hboth.2]
  · rw [if_neg fun hboth => hid hboth.2, if_neg fun hboth => hid hboth.1]
    exact h id' trustee

theorem InStore.foldl {α : Type} {f : TrusteeDisk → α → TrusteeDisk}
    {g : TrusteeStore → α → Option TrusteeStore}
    (hstep : ∀ disk s a, InStore disk volume s →
      ∃ s', g s a = some s' ∧ InStore (f disk a) volume s')
    (l : List α) (h : InStore disk volume s) :
    ∃ s', l.foldlM g s = some s' ∧ InStore (l.foldl f disk) volume s' := by
  induction l generalizing disk s with
  | nil => exact ⟨s, rfl, h⟩
  | cons a l ih =>
      obtain ⟨s', hg, hs'⟩ := hstep disk s a h
      obtain ⟨s'', hl, hs''⟩ := ih hs'
      refine ⟨s'', ?_, hs''⟩
      rw [List.foldlM_cons, hg]
      exact hl

theorem InStore.addBrowse (h : InStore disk volume s) (hbase : base ≤ 223)
    (place : TrusteeDir → Nat) (place' : TrusteeStore → Nat) (statb : FileStat)
    (poic : IdsTrustee) :
    ∃ s', TrusteeStore.addBrowse base place' statb.id s poic = some s' ∧
      InStore (MarsNwe.addBrowse place volume statb disk poic) volume s' := by
  unfold TrusteeStore.addBrowse MarsNwe.addBrowse TrusteeStore.getTrusteeFromDisk
  rw [if_pos (textLength_entryPath_le hbase statb.id poic.id), TrusteeStore.readlink_entryPath,
    h statb.id poic.id]
  split
  · dsimp only [Option.bind_eq_bind, Option.bind_some]
    split
    · exact h.put hbase place place' statb.id _
    · exact ⟨s, rfl, h⟩
  · exact ⟨s, rfl, h⟩

theorem InStore.nextSernum (h : InStore disk volume s) (place : TrusteeStore → Nat) :
    InStore disk volume (s.nextSernum place) := by
  refine h.of_get? fun id trustee => ?_
  unfold TrusteeStore.nextSernum
  exact TrusteeStore.get?_replace_other _ _ TrusteeStore.sernumPath_ne_entryPath id trustee

theorem InStore.creatTrusteePath (h : InStore disk volume s) (hbase : base ≤ 223)
    (place : TrusteeStore → Nat) (id : FileId) (path : List UInt8) :
    ∃ s', s.creatTrusteePath base place id path = some s' ∧ InStore disk volume s' := by
  unfold TrusteeStore.creatTrusteePath
  rw [if_pos (textLength_namePath_le hbase id)]
  exact ⟨_, rfl, h.of_get? fun id' trustee =>
    TrusteeStore.get?_replace_other _ _ (TrusteeStore.namePath_ne_entryPath id) id' trustee⟩

/-- A grant of a process that succeeds does to the store what the call for it does. -/
theorem truAddTrusteeSet_inStore {world : TrusteeWorld} (h : InStore world.disk volume s)
    (hbase : base ≤ 223) {place : TrusteeDir → Nat} (place' : TrusteeStore → Nat)
    {cache cache' : TrusteeCache} {unixname : UnixName} {stb : FileStat}
    {nwoic : List IdsTrustee} {disk' : TrusteeDisk}
    (hadd : truAddTrusteeSet place world cache volume unixname stb nwoic = (some 0, disk', cache'))
    {file : FileNumbers} (hfile : file.id = stb.id) {above : List FileNumbers}
    (habove : above.map FileNumbers.id =
      (unixname.prefixes.reverse.filterMap (world.tree volume).stat).map FileStat.id)
    (path : List UInt8) :
    ∃ mask s', s.call base place' (.add file above mask nwoic path) = some s' ∧
      InStore disk' volume s' := by
  unfold truAddTrusteeSet at hadd
  split at hadd
  next disk cache'' hlocal =>
    obtain ⟨-, hadd⟩ := Prod.mk.inj hadd
    obtain ⟨hdisk, -⟩ := Prod.mk.inj hadd
    obtain ⟨mask, rfl⟩ := localTruAddTrusteeSet_eq hlocal
    obtain ⟨s₁, hput, hs₁⟩ := h.foldl (fun disk s e hs =>
      hs.put hbase place place' file.id ⟨e.id, e.trustee &&& mask⟩) nwoic
    obtain ⟨s₂, hname, hs₂⟩ := hs₁.creatTrusteePath hbase place' file.id path
    obtain ⟨s₃, hbrowse, hs₃⟩ := hs₂.foldl (fun disk s statb hs =>
      hs.foldl (fun disk s e hs => hs.addBrowse hbase place place' statb e) nwoic)
      (unixname.prefixes.reverse.filterMap (world.tree volume).stat)
    refine ⟨mask, s₃.nextSernum place', ?_, ?_⟩
    · have hdirs : (above.map FileNumbers.id).foldlM (fun s dir =>
          nwoic.foldlM (TrusteeStore.addBrowse base place' dir) s) s₂ = some s₃ := by
        rw [habove, List.foldlM_map]
        exact hbrowse
      rw [List.foldlM_map] at hdirs
      simp only [TrusteeStore.call, hput, hname, hdirs, Option.bind_eq_bind, Option.bind_some]
    · have hsernum := hs₃.nextSernum place'
      rw [List.foldl_filterMap, hfile] at hsernum
      rw [← hdisk]
      convert hsernum using 2
      funext disk part
      cases (world.tree volume).stat part <;> rfl
  next hfailed => exact absurd hadd (hfailed disk' cache')

theorem TrusteeDir.get?_del (dir : TrusteeDir) (removed trustee : UInt32) :
    (dir.del removed).get? trustee = if trustee = removed then none else dir.get? trustee := by
  apply Option.ext
  intro rights
  rw [TrusteeDir.get?_eq_some]
  show _ ∈ dir.entries.filter _ ↔ _
  rw [List.mem_filter, decide_eq_true_iff]
  split
  next hsame => exact iff_of_false (fun h => h.2 hsame) (by simp)
  next hother =>
    rw [TrusteeDir.get?_eq_some]
    exact and_iff_left hother

/-- A deletion of a process that succeeds. -/
theorem truDelTrustee_inStore {world : TrusteeWorld} (h : InStore world.disk volume s)
    (hbase : base ≤ 223) (place : TrusteeStore → Nat) {cache cache' : TrusteeCache}
    {unixname : UnixName} {stb : FileStat} {id : UInt32} {disk' : TrusteeDisk}
    (hdel : truDelTrustee world cache volume unixname stb id = (some 0, disk', cache'))
    {file : FileNumbers} (hfile : file.id = stb.id) :
    ∃ s', s.call base place (.del file id) = some s' ∧ InStore disk' volume s' := by
  have hremove : InStore (fun volume' id' => if volume' = volume ∧ id' = stb.id then
      (world.disk volume' id').del id else world.disk volume' id') volume
        (s.remove (entryPath file.id id)) := by
    intro id' trustee
    dsimp only
    rw [TrusteeStore.get?_remove_entry, hfile]
    by_cases hid : id' = stb.id
    · rw [if_pos ⟨rfl, hid⟩, TrusteeDir.get?_del, h id' trustee]
      simp only [hid, true_and]
    · rw [if_neg fun hboth => hid hboth.2, if_neg fun hboth => hid hboth.1]
      exact h id' trustee
  have hfits := textLength_entryPath_le hbase file.id id
  have hcall : ∃ s', s.call base place (.del file id) = some s' ∧
      ∀ disk, InStore disk volume (s.remove (entryPath file.id id)) → InStore disk volume s' := by
    simp only [TrusteeStore.call, TrusteeStore.delTrusteeFromDisk, if_pos hfits, Option.map_some]
    refine ⟨_, rfl, fun disk hdisk => ?_⟩
    split
    · exact hdisk.nextSernum place
    · exact hdisk
  obtain ⟨s', hs', hkeeps⟩ := hcall
  refine ⟨s', hs', hkeeps disk' ?_⟩
  unfold truDelTrustee delTrusteeFromDisk at hdel
  split at hdel
  next => exact absurd (Prod.mk.inj hdel).1 (by simp)
  next => exact absurd (Prod.mk.inj hdel).1 (by decide)
  next =>
    cases hget : (world.disk volume stb.id).get? id with
    | none =>
        rw [hget] at hdel
        exact absurd (Prod.mk.inj hdel).1 (by decide)
    | some rights =>
        rw [hget] at hdel
        obtain ⟨-, hdel⟩ := Prod.mk.inj hdel
        rw [← (Prod.mk.inj hdel).1]
        exact hremove

/-- A mask that is set by a process. -/
theorem truSetInheritedMask_inStore {world : TrusteeWorld} (h : InStore world.disk volume s)
    (hbase : base ≤ 223) {place : TrusteeDir → Nat} (place' : TrusteeStore → Nat)
    {cache cache' : TrusteeCache} {unixname : UnixName} {stb : FileStat} {newMask : Rights}
    {disk' : TrusteeDisk}
    (hset : truSetInheritedMask place world cache volume unixname stb newMask =
      (some 0, disk', cache'))
    {file : FileNumbers} (hfile : file.id = stb.id) :
    ∃ s', s.call base place' (.setMask file newMask) = some s' ∧ InStore disk' volume s' := by
  obtain ⟨s', hput, hs'⟩ := h.put hbase place place' file.id ⟨0, newMask⟩
  refine ⟨s'.nextSernum place', ?_, ?_⟩
  · show (s.putTrusteeToDisk base place' file.id ⟨0, newMask⟩).map _ = _
    rw [hput]
    rfl
  · have hsernum := hs'.nextSernum place'
    unfold truSetInheritedMask at hset
    split at hset
    next => exact absurd (Prod.mk.inj hset).1 (by simp)
    next => exact absurd (Prod.mk.inj hset).1 (by decide)
    next =>
      split at hset
      next => exact absurd (Prod.mk.inj hset).1 (by decide)
      next =>
        split at hset
        next =>
          obtain ⟨-, hset⟩ := Prod.mk.inj hset
          rw [← (Prod.mk.inj hset).1, ← hfile]
          exact hsernum
        next => exact absurd (Prod.mk.inj hset).1 (by decide)

end Routines

/-! ## Reading -/

/-- A directory whose links a node has room for is read to its end. -/
theorem readTrustees_of_fits {entries : List IdsTrustee}
    (hnodup : (entries.map IdsTrustee.id).Nodup) {count : Nat}
    (hfits : entries.length + count ≤ maxTrustees) :
    readTrustees entries count =
      ((entries.find? (·.id = 0)).map IdsTrustee.trustee, entries.filter (·.id ≠ 0)) := by
  induction entries generalizing count with
  | nil => rfl
  | cons e es ih =>
      obtain ⟨hnew, hrest⟩ := List.nodup_cons.mp hnodup
      rw [List.length_cons] at hfits
      unfold readTrustees
      rw [if_pos (by omega)]
      by_cases hid : e.id = 0
      · have hnone : es.find? (·.id = 0) = none := by
          rw [List.find?_eq_none]
          intro e' he' hzero
          exact hnew (List.mem_map.mpr ⟨e', he', (of_decide_eq_true hzero).trans hid.symm⟩)
        rw [if_pos hid, ih hrest (by omega), hnone, List.filter_cons_of_neg (by simp [hid])]
        simp [hid]
      · rw [if_neg hid, ih hrest (by omega), List.filter_cons_of_pos (by simp [hid])]
        simp [hid]

section Cache

variable {world : TrusteeWorld} {volume : Nat}

theorem trusteeMachine_file {cache : TrusteeCache} {unixname : UnixName} {stb : FileStat}
    (hstat : (world.tree volume).stat unixname = some stb) (request : TrusteeRequest) :
    (trusteeMachine world).step cache (.file volume unixname request) =
      trusteeRequest world cache volume unixname stb request := by
  simp only [trusteeMachine, hstat]

/-- Whatever was asked before, a page of trustees is one of what is read from disk. -/
theorem page_of_run {before : List TrusteeCall} (unixname : UnixName) {stb : FileStat}
    (hstat : (world.tree volume).stat unixname = some stb)
    (hoption : (world.tree volume).options.trustees = true) (sequence maxcount : Nat) :
    ((trusteeMachine world).step ((trusteeMachine world).exec .empty before)
      (.file volume unixname (.trusteeSet sequence maxcount))).1 =
        trusteePage (readTrustees (world.disk volume stb.id).entries 0).2 sequence maxcount := by
  have hread : ∀ volume id,
      ReadFrom world.disk volume id (readTrustees (world.disk volume id).entries 0).2 :=
    fun _ _ => rfl
  have hstep : ∀ cache call, NodesHold (ReadFrom world.disk) cache →
      NodesHold (ReadFrom world.disk) ((trusteeMachine world).step cache call).2 :=
    fun _ call h => h.step hread call
  have hcache := (trusteeMachine world).exec_preserves hstep before NodesHold.empty
  generalize (trusteeMachine world).exec .empty before = cache at *
  obtain ⟨-, htrustees, hvolume, hid⟩ :=
    hcache.findCreatAdd hread (world.tree volume) volume unixname stb
  have hpage : ((trusteeMachine world).step cache
      (.file volume unixname (.trusteeSet sequence maxcount))).1 =
        trusteePage (findCreatAddTrusteeNode (world.tree volume) world.disk cache volume unixname
          stb).1.trustees sequence maxcount := by
    rw [trusteeMachine_file hstat]
    unfold trusteeRequest
    dsimp only
    rw [if_pos hoption]
    rfl
  rw [hpage, htrustees, hvolume, hid]

/-- From an empty cache the mask is what is read from disk, if there is one. -/
theorem mask_of_empty {unixname : UnixName} {stb : FileStat} {mask : Rights}
    (hstat : (world.tree volume).stat unixname = some stb)
    (hoption : (world.tree volume).options.trustees = true)
    (hmask : (readTrustees (world.disk volume stb.id).entries 0).1 = some mask) :
    ((trusteeMachine world).step .empty (.file volume unixname .inheritedMask)).1 =
      .value mask.toNat := by
  rw [trusteeMachine_file hstat]
  unfold trusteeRequest
  dsimp only
  rw [if_pos hoption]
  show TrusteeAnswer.value (((readTrustees (world.disk volume stb.id).entries 0).1.getD _).toNat) = _
  rw [hmask]
  rfl

end Cache

/-! ## Answers -/

theorem represents_empty (S : Set FileNumbers) : Represents S .empty .nothing := by
  refine ⟨fun file _ id => ?_, fun _ => rfl⟩
  show none = if id = 0 then none else none
  split <;> rfl

/-- The entries in the directory of a file are those in force. -/
theorem Represents.mem_entries {S : Set FileNumbers} {s : TrusteeStore} {force : InForce}
    (hs : Represents S s force) {file : FileNumbers} (hfile : file ∈ S) (e : IdsTrustee) :
    e ∈ (s.trusteeDir file.id).entries ↔
      (if e.id = 0 then force.masks file else force.entries file e.id) = some e.trustee := by
  rw [← hs.held file hfile e.id, TrusteeDir.get?_eq_some]

theorem Represents.length_entries_le {S : Set FileNumbers} {s : TrusteeStore} {force : InForce}
    (hs : Represents S s force) {file : FileNumbers} (hfile : file ∈ S)
    (hfits : force.FitsNode file) : (s.trusteeDir file.id).entries.length + 0 ≤ maxTrustees := by
  have hget := hs.mem_entries hfile
  obtain ⟨ids, hids, hroom⟩ := hfits
  have hsub : (s.trusteeDir file.id).entries.map IdsTrustee.id ⊆
      ids ++ if (force.masks file).isSome then [0] else [] := by
    intro id hid
    obtain ⟨e, he, rfl⟩ := List.mem_map.mp hid
    have hheld := (hget e).mp he
    by_cases hzero : e.id = 0
    · rw [if_pos hzero] at hheld
      rw [hheld, hzero]
      exact List.mem_append_right _ List.mem_cons_self
    · rw [if_neg hzero] at hheld
      exact List.mem_append_left _ (hids e.id (hheld ▸ rfl))
  have hle := (List.subperm_of_subset (s.trusteeDir file.id).nodup hsub).length_le
  rw [List.length_map, List.length_append] at hle
  split at hle <;> split at hroom <;> simp_all <;> omega

/-- What fits a node is answered as it is in force. -/
theorem Represents.answersFor {S : Set FileNumbers} {s : TrusteeStore} {force : InForce}
    (hs : Represents S s force) {file : FileNumbers} (hfile : file ∈ S)
    (hfits : force.FitsNode file) : AnswersFor s force file := by
  intro world volume unixname stb hdisk hoption hstat hid
  have hnodup := (s.trusteeDir file.id).nodup
  have hget := hs.mem_entries hfile
  have hlen := hs.length_entries_le hfile hfits
  have hread := readTrustees_of_fits hnodup hlen
  have hentries : world.disk volume stb.id = s.trusteeDir file.id := by rw [hdisk, hid]
  constructor
  · intro mask hmask
    refine mask_of_empty hstat hoption ?_
    rw [hentries, hread]
    have hheld := hs.held file hfile 0
    rw [if_pos rfl, hmask] at hheld
    exact hheld
  · refine ⟨(s.trusteeDir file.id).entries.filter (·.id ≠ 0), ?_, fun e => ?_, ?_⟩
    · exact hnodup.sublist (List.filter_sublist.map IdsTrustee.id)
    · rw [List.mem_filter, decide_eq_true_iff, hget e]
      by_cases hzero : e.id = 0
      · rw [hzero, hs.entries_zero]
        exact iff_of_false (fun h => h.2 rfl) (by simp)
      · rw [if_neg hzero]
        exact and_iff_left hzero
    · intro maxcount sequence before _ _
      rw [page_of_run unixname hstat hoption, hentries, hread]

/-- After any calls that keep to files of different numbers, and to ids of trustees, the
store answers for each of the files what is in force, if that fits a node. -/
theorem store_answers {base : Nat} (hbase : base ≤ 223) (place : TrusteeStore → Nat)
    {S : Set FileNumbers} (hS : Set.InjOn FileNumbers.id S) {calls : List StoreCall}
    (hcalls : ∀ c ∈ calls, c.Plain S) :
    ∃ s, TrusteeStore.run base place .empty calls = some s ∧
      ∀ file ∈ S, (InForce.after calls).FitsNode file →
        AnswersFor s (InForce.after calls) file := by
  obtain ⟨s, hrun, hs⟩ := (represents_empty S).foldlM (f := TrusteeStore.call base place)
    (g := InForce.call) (l := calls) fun s force c hc hs => hs.call place hS hbase (hcalls c hc)
  exact ⟨s, hrun, fun file hfile hfits => hs.answersFor hfile hfits⟩

/-- Files of numbers that fit 32 bits are told apart. -/
theorem injOn_small :
    Set.InjOn FileNumbers.id {file | file.dev.toNat < 2 ^ 32 ∧ file.ino.toNat < 2 ^ 32} := by
  intro file hfile file' hfile' h
  obtain ⟨dev, ino⟩ := file
  obtain ⟨dev', ino'⟩ := file'
  obtain ⟨hdev, hino⟩ := hfile
  obtain ⟨hdev', hino'⟩ := hfile'
  have hdevs := congrArg (fun id => UInt32.toNat (FileId.dev id)) h
  have hinos := congrArg (fun id => UInt32.toNat (FileId.ino id)) h
  simp only [FileNumbers.id, UInt64.toNat_toUInt32] at hdevs hinos hdev hino hdev' hino'
  rw [FileNumbers.mk.injEq, ← UInt64.toNat_inj, ← UInt64.toNat_inj]
  omega

/-- A mask, a grant below a directory, and a grant that is taken back. -/
def someCalls : List StoreCall :=
  [.setMask ⟨8, 5⟩ 0x1f, .add ⟨8, 5⟩ [⟨8, 2⟩] 0xffff [⟨7, 0x1⟩, ⟨9, 0x3⟩] [],
    .del ⟨8, 5⟩ 9]

theorem store_answers_some :
    ∃ s, TrusteeStore.run 27 (fun _ => 0) .empty someCalls = some s ∧
      ∀ file ∈ {file : FileNumbers | file.dev.toNat < 2 ^ 32 ∧ file.ino.toNat < 2 ^ 32},
        (InForce.after someCalls).FitsNode file → AnswersFor s (InForce.after someCalls) file := by
  refine store_answers (by decide) (fun _ => 0) injOn_small fun c hc => ?_
  simp only [someCalls, List.mem_cons, List.not_mem_nil, or_false] at hc
  rcases hc with rfl | rfl | rfl
  · exact ⟨by decide, by decide⟩
  · refine ⟨⟨by decide, by decide⟩, fun dir hdir => ?_, by decide⟩
    rw [List.mem_singleton.mp hdir]
    exact ⟨by decide, by decide⟩
  · exact ⟨⟨by decide, by decide⟩, by decide⟩

/-- No more trustees are read than there is room for. -/
theorem length_readTrustees_le (entries : List IdsTrustee) {count : Nat}
    (hcount : count ≤ maxTrustees) :
    (readTrustees entries count).2.length + count ≤ maxTrustees := by
  induction entries generalizing count with
  | nil => exact (Nat.zero_add count).symm ▸ hcount
  | cons e es ih =>
      unfold readTrustees
      split
      next hlt =>
        split
        · exact ih hcount
        · have hrest : (readTrustees es (count + 1)).2.length + (count + 1) ≤ maxTrustees := ih hlt
          rw [List.length_cons]
          omega
      next => exact (Nat.zero_add count).symm ▸ hcount

/-- A volume in which every name leads to one file. -/
def oneFileWorld (s : TrusteeStore) (file : FileNumbers) : TrusteeWorld where
  tree := fun _ =>
    { options := ⟨true, false, false, false⟩
      root := ⟨0, 0⟩
      stat := fun _ => some ⟨file, false, false, false, 0⟩
      lstat := fun _ => none
      unixRights := fun _ => 0
      above := fun _ => .none }
  disk := fun _ => s.trusteeDir
  user := ⟨1, true, [], 0⟩
  defaultUid := 0

/-- The first page is one of what a node reads. -/
theorem AnswersFor.first_page {s : TrusteeStore} {force : InForce} {file : FileNumbers}
    (h : AnswersFor s force file) (maxcount : Nat) (hmax : 1 ≤ maxcount) :
    ∃ all : List IdsTrustee, (∀ e, e ∈ all ↔ force.entries file e.id = some e.trustee) ∧
      trusteePage (readTrustees (s.trusteeDir file.id).entries 0).2 0 maxcount =
        trusteePage all 0 maxcount := by
  obtain ⟨-, all, -, hall, hpages⟩ :=
    h (oneFileWorld s file) 0 ⟨[], false⟩ ⟨file, false, false, false, 0⟩ rfl rfl rfl rfl
  refine ⟨all, hall, ?_⟩
  have hpage := hpages maxcount 0 [] hmax (by rw [Nat.zero_mul]; decide)
  rw [page_of_run ⟨[], false⟩ rfl rfl] at hpage
  exact hpage

theorem take_of_trusteePage {l l' : List IdsTrustee} {n : Nat}
    (h : trusteePage l 0 n = trusteePage l' 0 n) : l.take n = l'.take n := by
  unfold trusteePage at h
  rw [Nat.zero_mul, List.drop_zero, List.drop_zero] at h
  dsimp only at h
  split at h
  next hnil =>
    split at h
    next hnil' => rw [List.isEmpty_iff.mp hnil, List.isEmpty_iff.mp hnil']
    next => cases h
  next =>
    split at h
    next => cases h
    next => exact TrusteeAnswer.trustees.inj h

/-- One entry more than there is room for. -/
def manyEntries : List IdsTrustee := (List.range 101).map fun i => ⟨UInt32.ofNat (i + 1), 1⟩

/-- A grant to the id 0 is not listed, a file shows the trustees of another one whose inode
differs in the upper half only, with one entry too many not all are listed, and under a
long directory name the names do not fit their buffers. -/
theorem not_store_answers :
    (¬∃ s, TrusteeStore.run 27 (fun _ => 0) .empty [.add ⟨8, 5⟩ [] 0xffff [⟨0, 1⟩] []] = some s ∧
      AnswersFor s (.after [.add ⟨8, 5⟩ [] 0xffff [⟨0, 1⟩] []]) ⟨8, 5⟩) ∧
    (¬∃ s, TrusteeStore.run 27 (fun _ => 0) .empty [.add ⟨8, 5⟩ [] 0xffff [⟨7, 1⟩] []] = some s ∧
      AnswersFor s (.after [.add ⟨8, 5⟩ [] 0xffff [⟨7, 1⟩] []]) ⟨8, 0x100000005⟩) ∧
    (¬∃ s, TrusteeStore.run 27 (fun _ => 0) .empty
        [.add ⟨8, 5⟩ [] 0xffff manyEntries []] = some s ∧
      AnswersFor s (.after [.add ⟨8, 5⟩ [] 0xffff manyEntries []]) ⟨8, 5⟩) ∧
    ¬∃ s, TrusteeStore.run 250 (fun _ => 0) .empty [.setMask ⟨8, 5⟩ 1] = some s ∧
      AnswersFor s (.after [.setMask ⟨8, 5⟩ 1]) ⟨8, 5⟩ := by
  refine ⟨?_, ?_, ?_, ?_⟩
  · intro ⟨s, hrun, h⟩
    obtain ⟨all, hall, hpage⟩ := h.first_page 1 (Nat.le_refl 1)
    have hmem : ⟨0, 1⟩ ∈ all := (hall ⟨0, 1⟩).mpr (by decide)
    have hread : (TrusteeStore.run 27 (fun _ => 0) .empty
        [.add ⟨8, 5⟩ [] 0xffff [⟨0, 1⟩] []]).map
          (fun s => (readTrustees (s.trusteeDir ⟨8, 5⟩).entries 0).2) = some [] := by
      decide +kernel
    rw [hrun] at hread
    have hnil : (readTrustees (s.trusteeDir ⟨8, 5⟩).entries 0).2 = [] := Option.some.inj hread
    have htake : (readTrustees (s.trusteeDir ⟨8, 5⟩).entries 0).2.take 1 = all.take 1 :=
      take_of_trusteePage hpage
    rw [hnil, List.take_nil] at htake
    cases all with
    | nil => exact List.not_mem_nil hmem
    | cons e all => cases htake
  · intro ⟨s, hrun, h⟩
    obtain ⟨all, hall, hpage⟩ := h.first_page 1 (Nat.le_refl 1)
    have hread : (TrusteeStore.run 27 (fun _ => 0) .empty
        [.add ⟨8, 5⟩ [] 0xffff [⟨7, 1⟩] []]).map
          (fun s => (readTrustees (s.trusteeDir ⟨8, 5⟩).entries 0).2) = some [⟨7, 1⟩] := by
      decide +kernel
    rw [hrun] at hread
    have hsome : (readTrustees (s.trusteeDir ⟨8, 5⟩).entries 0).2 = [⟨7, 1⟩] :=
      Option.some.inj hread
    have htake : (readTrustees (s.trusteeDir ⟨8, 5⟩).entries 0).2.take 1 = all.take 1 :=
      take_of_trusteePage hpage
    rw [hsome] at htake
    cases all with
    | nil => cases htake
    | cons e all =>
        have hforce := (hall e).mp List.mem_cons_self
        obtain ⟨rfl, -⟩ := List.cons.inj htake
        exact absurd hforce (by decide)
  · intro ⟨s, hrun, h⟩
    obtain ⟨all, hall, hpage⟩ := h.first_page 101 (by decide)
    have hforce : ∀ e ∈ manyEntries, (InForce.after
        [.add ⟨8, 5⟩ [] 0xffff manyEntries []]).entries ⟨8, 5⟩ e.id = some e.trustee := by
      decide +kernel
    have hsub : manyEntries ⊆ all := fun e he => (hall e).mpr (hforce e he)
    have hnodup : manyEntries.Nodup := by decide +kernel
    have hmany := (List.subperm_of_subset hnodup hsub).length_le
    have hlen := congrArg List.length (take_of_trusteePage hpage)
    have hfew := length_readTrustees_le (s.trusteeDir (FileNumbers.id ⟨8, 5⟩)).entries
      (Nat.zero_le maxTrustees)
    rw [List.length_take, List.length_take] at hlen
    rw [manyEntries, List.length_map, List.length_range] at hmany
    unfold maxTrustees at hfew
    omega
  · intro ⟨s, hrun, _⟩
    have hnone : (TrusteeStore.run 250 (fun _ => 0) .empty [.setMask ⟨8, 5⟩ 1]).isNone := by
      decide +kernel
    rw [hrun] at hnone
    cases hnone

end MarsNwe
