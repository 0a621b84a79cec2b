import Mathlib.Algebra.Ring.Int.Defs
import Mathlib.Algebra.Ring.Nat
import Mathlib.Data.List.Basic
import MarsNwe.Lib.Machine

/-! # Sets of files and records to lock together

A process lists files and logical records and locks or releases all of a type by
one call. The three functions share one way of walking the list: the head is
taken out of the list before anything is asked about it. What `share_file` and
the lock files of logical records do is left open.
-/

namespace MarsNwe

/-! ## The code -/

/-- `SHARESET`. `data` is there for logical records only, and `datalen` is its
length. -/
structure ShareSet where
  type : Nat
  lockFlag : Int
  timeout : Int
  locked : Bool
  dev : Int
  inode : Int
  data : Option (List UInt8)
deriving DecidableEq

/-- What `xcmalloc` returns: all zero. -/
def ShareSet.new : ShareSet := ⟨0, 0, 0, false, 0, 0, none⟩

/-- The locks of the system, and `first_set`. -/
structure LockSetState (ω : Type) where
  world : ω
  firstSet : List ShareSet

/-- The calls that lock: `share_file` with `dev`, `inode`, `open_mode` and
`action`, and what `nw_log_logical_record` does in the lock files with
`lock_flag`, `timeout` and the record. -/
structure LockCalls (ω : Type) where
  shareFile : ω → Int → Int → Int → Int → Int × ω
  lockRecord : ω → Int → Int → List UInt8 → Int × ω

variable {ω : Type}

/-- `share_set_file_add_rm`. -/
def shareSetFileAddRm (lockFlag dev inode : Int) (sets : List ShareSet) : List ShareSet :=
  if lockFlag > -1 then { ShareSet.new with dev, inode, lockFlag } :: sets
  else if lockFlag = -2 then
    -- every entry is taken out, and those of type 1 are freed
    []
  else sets

/-- `share_set_logrec_add_rm`. -/
def shareSetLogrecAddRm (lockFlag : Int) (data : List UInt8) (sets : List ShareSet) :
    List ShareSet :=
  if lockFlag > -1 then { ShareSet.new with data := some data, lockFlag } :: sets
  else if lockFlag = -2 then []
  else sets

/-- `nw_log_logical_record`. -/
def nwLogLogicalRecord (c : LockCalls ω) (s : LockSetState ω) (lockFlag timeout : Int)
    (data : List UInt8) : Int × LockSetState ω :=
  let sets := if lockFlag ≠ -1 then shareSetLogrecAddRm lockFlag data s.firstSet else s.firstSet
  if lockFlag = 0 then (0, { s with firstSet := sets })
  else if lockFlag ∉ [-1, -2, 1, 3] then (-0xfb, { s with firstSet := sets })
  else
    let (result, w) := c.lockRecord s.world lockFlag timeout data
    (result, ⟨w, sets⟩)

/-- `lock_unlock_pset`. -/
def lockUnlockPset (c : LockCalls ω) (s : LockSetState ω) (ps : ShareSet) (lockFlag : Int) :
    Int × LockSetState ω :=
  let flag := if lockFlag ≠ 0 then lockFlag else if ps.lockFlag ≠ 0 then ps.lockFlag else 1
  if ps.type = 1 then
    let (result, w) := if lockFlag > -1 then c.shareFile s.world ps.dev ps.inode flag 1
      else c.shareFile s.world ps.dev ps.inode 0x300 0
    (result, { s with world := w })
  else if ps.type = 2 then
    nwLogLogicalRecord c s (if lockFlag > -1 then flag else -1) ps.timeout (ps.data.getD [])
  else (-1, s)

/-- The steps an entry can take: locking a record lists one entry more, which is
of no type. -/
def ShareSet.weight (ps : ShareSet) : Nat := if ps.type = 2 then 2 else 1

def LockSetState.weight (s : LockSetState ω) : Nat := (s.firstSet.map ShareSet.weight).sum

theorem ShareSet.weight_pos (ps : ShareSet) : 0 < ps.weight := by
  unfold ShareSet.weight
  split <;> omega

theorem weight_shareSetLogrecAddRm (lockFlag : Int) (data : List UInt8) (sets : List ShareSet) :
    ((shareSetLogrecAddRm lockFlag data sets).map ShareSet.weight).sum ≤
      (sets.map ShareSet.weight).sum + 1 := by
  unfold shareSetLogrecAddRm
  split
  · rw [List.map_cons, List.sum_cons, Nat.add_comm]
    exact Nat.le_refl _
  · split
    · exact Nat.zero_le _
    · exact Nat.le_succ _

theorem firstSet_nwLogLogicalRecord (c : LockCalls ω) (s : LockSetState ω) (lockFlag timeout : Int)
    (data : List UInt8) :
    (nwLogLogicalRecord c s lockFlag timeout data).2.firstSet =
      if lockFlag ≠ -1 then shareSetLogrecAddRm lockFlag data s.firstSet else s.firstSet := by
  simp only [nwLogLogicalRecord]
  by_cases hlog : lockFlag = 0
  · rw [if_pos hlog]
  · rw [if_neg hlog]
    by_cases hflag : lockFlag ∉ [-1, -2, 1, 3]
    · rw [if_pos hflag]
    · rw [if_neg hflag]

theorem weight_nwLogLogicalRecord (c : LockCalls ω) (s : LockSetState ω) (lockFlag timeout : Int)
    (data : List UInt8) :
    (nwLogLogicalRecord c s lockFlag timeout data).2.weight ≤ s.weight + 1 := by
  rw [LockSetState.weight, firstSet_nwLogLogicalRecord]
  split
  · exact weight_shareSetLogrecAddRm lockFlag data s.firstSet
  · exact Nat.le_succ _

/-- An attempt to lock an entry lists less than the entry itself weighs. -/
theorem weight_lockUnlockPset (c : LockCalls ω) (s : LockSetState ω) (ps : ShareSet)
    (lockFlag : Int) : (lockUnlockPset c s ps lockFlag).2.weight < s.weight + ps.weight := by
  have hpos := ps.weight_pos
  simp only [lockUnlockPset]
  by_cases hfile : ps.type = 1
  · rw [if_pos hfile]
    exact Nat.lt_add_of_pos_right hpos
  · rw [if_neg hfile]
    by_cases hrecord : ps.type = 2
    · have htwo : ps.weight = 2 := if_pos hrecord
      rw [if_pos hrecord, htwo]
      exact Nat.lt_succ_of_le (weight_nwLogLogicalRecord c s _ _ _)
    · rw [if_neg hrecord]
      exact Nat.lt_add_of_pos_right hpos

/-- `share_handle_lock_sets`. The entry at hand is out of the list, so what is
written to its `locked` is lost. -/
def shareHandleLockSets (c : LockCalls ω) (type : Nat) (lockFlag : Int) (s : LockSetState ω) :
    Int × LockSetState ω :=
  match h : s.firstSet with
  | [] => (0, s)
  | ps :: next =>
      if type &&& ps.type ≠ 0 then
        if ps.locked = true ∧ lockFlag < 0 then
          shareHandleLockSets c type lockFlag (lockUnlockPset c ⟨s.world, next⟩ ps (-1)).2
        else if hlock : ps.locked = false ∧ lockFlag > -1 then
          let tried := lockUnlockPset c ⟨s.world, next⟩ ps lockFlag
          if tried.1 ≠ 0 then (-1, (shareHandleLockSets c type (-1) tried.2).2)
          else shareHandleLockSets c type lockFlag tried.2
        else shareHandleLockSets c type lockFlag ⟨s.world, next⟩
      else shareHandleLockSets c type lockFlag ⟨s.world, next⟩
  termination_by s.weight
  decreasing_by
    all_goals
      have hpos := ps.weight_pos
      have hlist : s.weight = ps.weight + (next.map ShareSet.weight).sum := by
        rw [LockSetState.weight, h, List.map_cons, List.sum_cons]
      have hnext : LockSetState.weight ⟨s.world, next⟩ = (next.map ShareSet.weight).sum := rfl
    · have hlt := weight_lockUnlockPset c ⟨s.world, next⟩ ps (-1)
      omega
    · have hlt := weight_lockUnlockPset c ⟨s.world, next⟩ ps lockFlag
      omega
    · have hlt := weight_lockUnlockPset c ⟨s.world, next⟩ ps lockFlag
      omega
    · omega
    · omega

/-- The calls of a process for its list, and what others do to the locks. -/
inductive SetsEvent (ω : Type) where
  | fileAddRm (lockFlag dev inode : Int)
  | logrecAddRm (lockFlag : Int) (data : List UInt8)
  | handle (type : Nat) (lockFlag : Int)
  | others (w : ω)

/-- The list of a process as the calls change it. -/
def setsMachine (c : LockCalls ω) : Machine (LockSetState ω) (SetsEvent ω) Int where
  step s e :=
    match e with
    | .fileAddRm lockFlag dev inode =>
        (0, { s with firstSet := shareSetFileAddRm lockFlag dev inode s.firstSet })
    | .logrecAddRm lockFlag data =>
        (0, { s with firstSet := shareSetLogrecAddRm lockFlag data s.firstSet })
    | .handle type lockFlag => shareHandleLockSets c type lockFlag s
    | .others w => (0, { s with world := w })

/-! ## The sets as their callers mean them -/

/-- Files and logical records. -/
inductive SetKind where
  | file
  | record
deriving DecidableEq

/-- `type`: 1 = file share, 2 = logical record. -/
def SetKind.type : SetKind → Nat
  | .file => 1
  | .record => 2

/-- What an entry was listed as. -/
def ShareSet.kind (ps : ShareSet) : SetKind := if ps.data.isSome then .record else .file

/-- Lock the sets of a kind, release them, or clear them. -/
inductive SetsCall where
  | lock (flag : Nat)
  | release
  | clear
deriving DecidableEq

/-- `lock_flag`. -/
def SetsCall.flag : SetsCall → Int
  | .lock flag => flag
  | .release => -1
  | .clear => -2

/-- The entries of a kind. -/
def LockSetState.ofKind (s : LockSetState ω) (kind : SetKind) : List ShareSet :=
  s.firstSet.filter fun ps => ps.kind = kind

/-- The entries listed, all of them locked or all unlocked. -/
def allLocked (locked : Bool) (sets : List ShareSet) : List ShareSet :=
  sets.map fun ps => { ps with locked }

/-- All entries of the kind get locked or all are left unlocked, a release keeps
them and a clear removes them; the other kind is left alone. -/
structure HandlesSets (c : LockCalls ω) (s : LockSetState ω) (kind : SetKind) (call : SetsCall) :
    Prop where
  own :
    let (result, s') := shareHandleLockSets c kind.type call.flag s
    match call with
    | .lock _ =>
        result = 0 ∧ s'.ofKind kind = allLocked true (s.ofKind kind) ∨
          result = -1 ∧ s'.ofKind kind = allLocked false (s.ofKind kind)
    | .release => s'.ofKind kind = allLocked false (s.ofKind kind)
    | .clear => s'.ofKind kind = []
  other : ∀ kind', kind' ≠ kind →
    (shareHandleLockSets c kind.type call.flag s).2.ofKind kind' = s.ofKind kind'

/-! ## What the calls do -/

/-- No entry is ever given its type. -/
def Untyped (s : LockSetState ω) : Prop := ∀ ps ∈ s.firstSet, ps.type = 0

/-- Entries of no type are passed over and lost. -/
theorem shareHandleLockSets_untyped (c : LockCalls ω) (type : Nat) (lockFlag : Int)
    {s : LockSetState ω} (h : Untyped s) :
    shareHandleLockSets c type lockFlag s = (0, { s with firstSet := [] }) := by
  obtain ⟨w, sets⟩ := s
  induction sets with
  | nil =>
      rw [shareHandleLockSets]
  | cons ps next ih =>
      have htype : type &&& ps.type = 0 := by
        rw [h ps List.mem_cons_self, Nat.and_zero]
      rw [shareHandleLockSets]
      simp only [htype, ne_eq, not_true_eq_false, if_false]
      exact ih fun q hq => h q (List.mem_cons_of_mem _ hq)

theorem untyped_cons {w w' : ω} {ps : ShareSet} {sets : List ShareSet} (hps : ps.type = 0)
    (h : Untyped ⟨w, sets⟩) : Untyped ⟨w', ps :: sets⟩ := by
  intro q hq
  rcases List.mem_cons.mp hq with rfl | hq
  · exact hps
  · exact h q hq

theorem untyped_nil (w : ω) : Untyped ⟨w, []⟩ := fun _ hps => absurd hps List.not_mem_nil

theorem Untyped.step (c : LockCalls ω) {s : LockSetState ω} (h : Untyped s) (e : SetsEvent ω) :
    Untyped ((setsMachine c).step s e).2 := by
  cases e with
  | fileAddRm lockFlag dev inode =>
      simp only [setsMachine, shareSetFileAddRm]
      split
      · exact untyped_cons rfl h
      · split
        · exact untyped_nil s.world
        · exact h
  | logrecAddRm lockFlag data =>
      simp only [setsMachine, shareSetLogrecAddRm]
      split
      · exact untyped_cons rfl h
      · split
        · exact untyped_nil s.world
        · exact h
  | handle type lockFlag =>
      simp only [setsMachine, shareHandleLockSets_untyped c type lockFlag h]
      exact untyped_nil s.world
  | others w => exact h

theorem allLocked_eq_nil {locked : Bool} {sets : List ShareSet} :
    [] = allLocked locked sets ↔ sets = [] := by
  rw [allLocked, eq_comm, List.map_eq_nil_iff]

/-- Entries of one kind are none, and those of the other kinds are none. -/
theorem firstSet_eq_nil {s : LockSetState ω} {kind : SetKind} (hown : s.ofKind kind = [])
    (hother : ∀ kind', kind' ≠ kind → [] = s.ofKind kind') : s.firstSet = [] := by
  rw [List.eq_nil_iff_forall_not_mem]
  intro ps hps
  have hmem : ps ∈ s.ofKind ps.kind := List.mem_filter.mpr ⟨hps, decide_eq_true rfl⟩
  by_cases hkind : ps.kind = kind
  · rw [hkind, hown] at hmem
    exact absurd hmem List.not_mem_nil
  · rw [← hother ps.kind hkind] at hmem
    exact absurd hmem List.not_mem_nil

/-- Where no entry has a type, all are lost, so that only nothing or a clear of
everything comes out right. -/
theorem handlesSets_iff_of_untyped (c : LockCalls ω) {s : LockSetState ω} (h : Untyped s)
    (kind : SetKind) (call : SetsCall) :
    HandlesSets c s kind call ↔
      s.firstSet = [] ∨ call = .clear ∧ ∀ ps ∈ s.firstSet, ps.kind = kind := by
  have hcall := shareHandleLockSets_untyped c kind.type call.flag h
  constructor
  · intro ⟨hown, hother⟩
    rw [hcall] at hown hother
    cases call with
    | lock flag =>
        rcases hown with ⟨-, hown⟩ | ⟨-, hown⟩
        · exact .inl (firstSet_eq_nil (allLocked_eq_nil.mp hown) hother)
        · exact .inl (firstSet_eq_nil (allLocked_eq_nil.mp hown) hother)
    | release => exact .inl (firstSet_eq_nil (allLocked_eq_nil.mp hown) hother)
    | clear =>
        refine .inr ⟨rfl, fun ps hps => ?_⟩
        by_contra hkind
        have hmem : ps ∈ s.ofKind ps.kind := List.mem_filter.mpr ⟨hps, decide_eq_true rfl⟩
        rw [← hother ps.kind hkind] at hmem
        exact absurd hmem List.not_mem_nil
  · intro hnone
    constructor
    · rw [hcall]
      rcases hnone with hnil | ⟨rfl, -⟩
      · have hown : s.ofKind kind = [] := by rw [LockSetState.ofKind, hnil, List.filter_nil]
        cases call with
        | lock flag => exact .inl ⟨rfl, allLocked_eq_nil.mpr hown⟩
        | release => exact allLocked_eq_nil.mpr hown
        | clear => rfl
      · rfl
    · intro kind' hkind'
      rw [hcall]
      symm
      change s.ofKind kind' = []
      rw [LockSetState.ofKind, List.filter_eq_nil_iff]
      intro ps hps hmem
      rcases hnone with hnil | ⟨-, hall⟩
      · rw [hnil] at hps
        exact absurd hps List.not_mem_nil
      · exact hkind' ((of_decide_eq_true hmem).symm.trans (hall ps hps))

/-- After any calls, a call for the sets of a kind does what it should exactly when
nothing is listed, or everything listed is of this kind and to be cleared. -/
theorem handlesSets_iff (c : LockCalls ω) (w : ω) (calls : List (SetsEvent ω)) (kind : SetKind)
    (call : SetsCall) :
    let s := (setsMachine c).exec ⟨w, []⟩ calls
    HandlesSets c s kind call ↔
      s.firstSet = [] ∨ call = .clear ∧ ∀ ps ∈ s.firstSet, ps.kind = kind :=
  handlesSets_iff_of_untyped c
    ((setsMachine c).exec_preserves (fun _ e h => h.step c e) calls (untyped_nil w)) kind call

/-- A file is listed and the files are to be locked: the call reports success, and
the list is empty. -/
theorem lock_loses_sets : ¬∀ (c : LockCalls Unit) (calls : List (SetsEvent Unit)) (kind : SetKind)
    (call : SetsCall), HandlesSets c ((setsMachine c).exec ⟨(), []⟩ calls) kind call := by
  intro hall
  have hlock := hall ⟨fun _ _ _ _ _ => (0, ()), fun _ _ _ _ => (0, ())⟩ [.fileAddRm 1 0x801 42]
    .file (.lock 1)
  have huntyped : Untyped (⟨(), [{ ShareSet.new with dev := 0x801, inode := 42, lockFlag := 1 }]⟩ :
      LockSetState Unit) := untyped_cons rfl (untyped_nil ())
  rcases (handlesSets_iff_of_untyped _ huntyped .file (.lock 1)).mp hlock with hnil | ⟨hclear, -⟩
  · cases hnil
  · cases hclear

end MarsNwe
