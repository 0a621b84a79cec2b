import MarsNwe.Connect.PathOps
import MarsNwe.Lib.SlotTable

/-! # What directory handles stand for

A client names directories by handles of one byte. A handle that has been given out
stands for the directory of its request until it is altered, freed, freed with its task
or with its directory, or all handles are made anew; a new handle is one that stood for
nothing.
-/

namespace MarsNwe

open SlotTable

/-! ## The table as a map -/

def NwDir.inUse (d : NwDir) : Bool := d.id.ino ≠ 0

/-- A directory as the table holds it, unless its inode says that it is free. -/
def NwDir.live (d : NwDir) : Option NwDir := (some d).filter NwDir.inUse

theorem usedDir_succ (dirs : Dirs) (k : Nat) :
    usedDir dirs (k + 1) = lookup NwDir.inUse dirs k := rfl

theorem usedDir_of_lookup_update {dirs dirs' : Dirs} {k : Nat} {d : Option NwDir}
    (h : lookup NwDir.inUse dirs' = Function.update (lookup NwDir.inUse dirs) k d) :
    usedDir dirs' = Function.update (usedDir dirs) (k + 1) d := by
  funext i
  cases i with
  | zero => rfl
  | succ i =>
      rw [usedDir_succ, h]
      by_cases hi : i = k
      · subst hi
        rw [Function.update_self, Function.update_self]
      · rw [Function.update_of_ne hi, Function.update_of_ne (mt Nat.succ.inj hi), usedDir_succ]

theorem usedDir_eq_some {dirs : Dirs} {k : Nat} {d : NwDir} :
    usedDir dirs k = some d ↔ k ≠ 0 ∧ dirs[k - 1]? = some d ∧ d.id.ino ≠ 0 := by
  cases k with
  | zero => simp [usedDir]
  | succ k => simp [usedDir_succ, lookup_eq_some, NwDir.inUse]

/-! ## The operations on the map -/

/-- The entry that `xinsert_new_dir` makes. -/
def newDir (volume : Nat) (path : List UInt8) (id : FileNumbers) (drive isTemp task : Nat) : NwDir :=
  ⟨id, storedPath path, volume % 256, isTemp % 256, drive % 256, task % 256⟩

theorem changeDirEntry_new (d : NwDir) (volume : Nat) (path : List UInt8) (id : FileNumbers)
    (drive isTemp task : Nat) :
    (changeDirEntry d volume path id (some drive) (some isTemp) true task).1 =
      newDir volume path id drive isTemp task := by
  rw [changeDirEntry, if_pos (.inl rfl)]
  rfl

/-- A handle that stood for nothing is given out, or all but the first are in use. -/
inductive Allocated (M : Nat → Option NwDir) (d : NwDir) : (Nat → Option NwDir) → Int → Prop
  | full (h : ∀ k, 2 ≤ k → k ≤ maxNwDirs → (M k).isSome) : Allocated M d M (-0x9d)
  | new (k : Nat) (hpos : 1 ≤ k) (hle : k ≤ maxNwDirs) (hfree : M k = none) :
      Allocated M d (Function.update M k d.live) k

theorem xinsertNewDir_allocated {dirs : Dirs} (h : dirs.length ≤ maxNwDirs) (volume : Nat)
    (path : List UInt8) (id : FileNumbers) (drive isTemp task : Nat) :
    Allocated (usedDir dirs) (newDir volume path id drive isTemp task)
      (usedDir (xinsertNewDir dirs volume path id drive isTemp task).1)
      (xinsertNewDir dirs volume path id drive isTemp task).2 := by
  unfold xinsertNewDir
  dsimp only
  split
  next j hfind =>
    have htest := List.find?_some hfind
    have hfree := (of_decide_eq_true htest).2
    have hj : j < dirs.length := by
      have hmem := List.mem_of_find?_eq_some hfind
      simpa using hmem
    obtain ⟨d, hd⟩ : ∃ d, dirs[j]? = some d := ⟨_, List.getElem?_eq_getElem hj⟩
    have hino : d.id.ino = 0 := by
      rw [hd] at hfree
      exact Option.some.inj hfree
    have hnone : usedDir dirs (j + 1) = none := by
      rw [usedDir_succ, lookup_eq_none hd]
      simpa [NwDir.inUse] using hino
    have hcut : (fun d : NwDir => decide (d.id.ino = 0)) = fun d => !d.inUse := by
      funext d
      simp [NwDir.inUse]
    have hmap : lookup NwDir.inUse
        ((dirs.modify j fun d =>
            (changeDirEntry d volume path id (some drive) (some isTemp) true task).1).take (j + 1) ++
          ((dirs.modify j fun d =>
            (changeDirEntry d volume path id (some drive) (some isTemp) true task).1).drop
              (j + 1)).rdropWhile fun d => d.id.ino = 0) =
        Function.update (lookup NwDir.inUse dirs) j
          (newDir volume path id drive isTemp task).live := by
      rw [hcut, lookup_take_append_rdropWhile, modify_eq_set hd, changeDirEntry_new,
        lookup_set hj]
      rfl
    rw [usedDir_of_lookup_update hmap]
    exact .new (j + 1) (Nat.succ_pos j) (hj.trans_le h) hnone
  next hnone =>
    split
    next hlt =>
      have hmap : lookup NwDir.inUse (dirs ++ [(changeDirEntry ⟨⟨0, 0⟩, [], 0, 0, 0, 0⟩ volume path id
            (some drive) (some isTemp) true task).1]) =
          Function.update (lookup NwDir.inUse dirs) dirs.length
            (newDir volume path id drive isTemp task).live := by
        rw [changeDirEntry_new, lookup_append]
        rfl
      rw [usedDir_of_lookup_update hmap]
      exact .new (dirs.length + 1) (Nat.succ_pos _) hlt
        (by rw [usedDir_succ, lookup_of_length_le le_rfl])
    next hge =>
      refine .full fun k hk hle => ?_
      obtain ⟨k, rfl⟩ := Nat.exists_eq_add_of_le' (show 1 ≤ k by omega)
      have hlt : k < dirs.length := by omega
      have hused := List.find?_eq_none.mp hnone k (by simpa using hlt)
      obtain ⟨d, hd⟩ : ∃ d, dirs[k]? = some d := ⟨_, List.getElem?_eq_getElem hlt⟩
      have hino : d.id.ino ≠ 0 := fun hzero =>
        hused (decide_eq_true ⟨by omega, by rw [hd, Option.map_some, hzero]⟩)
      rw [usedDir_eq_some.mpr ⟨Nat.succ_ne_zero k, hd, hino⟩]
      rfl

/-- A handle that stands for something gets another directory, unless it is a special
one. -/
inductive Altered (M : Nat → Option NwDir) (target volume : Nat) (path : List UInt8)
    (id : FileNumbers) (task : Nat) : (Nat → Option NwDir) → Int → Prop
  | refused (h : ∀ d, M target = some d → d.isTemp = 2) :
      Altered M target volume path id task M (-0x9b)
  | done (d : NwDir) (hd : M target = some d) (htemp : d.isTemp ≠ 2) :
      Altered M target volume path id task
        (Function.update M target
          { d with
            path := storedPath path, id := id, volume := volume % 256
            task := if task < d.task then task % 256 else d.task }.live) 0

theorem alterDirHandle_altered (dirs : Dirs) (target volume : Nat) (path : List UInt8)
    (id : FileNumbers) (task : Nat) :
    Altered (usedDir dirs) target volume path id task
      (usedDir (alterDirHandle dirs target volume path id task).1)
      (alterDirHandle dirs target volume path id task).2 := by
  cases target with
  | zero => exact .refused fun d hd => by cases hd
  | succ k =>
      unfold alterDirHandle
      rw [if_neg (Nat.succ_ne_zero k), Nat.add_sub_cancel]
      cases hd : dirs[k]? with
      | none =>
          refine .refused fun d hused => ?_
          cases hd.symm.trans (usedDir_eq_some.mp hused).2.1
      | some d =>
          dsimp only
          have hk := (List.getElem?_eq_some_iff.mp hd).1
          split
          next htemp =>
            refine .refused fun d' hused => ?_
            have hsame := (usedDir_eq_some.mp hused).2.1
            rw [Nat.add_sub_cancel, hd] at hsame
            rw [← Option.some.inj hsame, htemp]
          next htemp =>
            by_cases hino : d.id.ino = 0
            · -- a free entry is written as it is
              have hchange : changeDirEntry d volume path id none none false task =
                  (d, -0x9b) := by
                rw [changeDirEntry, if_neg (by simp [hino]), if_pos hino]
              have hset : dirs.set k d = dirs := by
                rw [← (List.getElem?_eq_some_iff.mp hd).2, List.set_getElem_self]
              rw [hchange, hset]
              refine .refused fun d' hused => ?_
              have hsame := usedDir_eq_some.mp hused
              rw [Nat.add_sub_cancel, hd] at hsame
              exact absurd (Option.some.inj hsame.2.1 ▸ hino) hsame.2.2
            · have hchange : changeDirEntry d volume path id none none false task =
                  ({ d with
                    path := storedPath path, id := id, volume := volume % 256
                    task := if task < d.task then task % 256 else d.task }, 0) := by
                rw [changeDirEntry, if_pos (.inr ⟨hino, htemp⟩)]
                dsimp only
                split
                · rfl
                · rfl
              rw [hchange, usedDir_of_lookup_update (lookup_set hk _)]
              exact .done d (usedDir_eq_some.mpr ⟨Nat.succ_ne_zero k, hd, hino⟩) htemp

/-- A handle that stands for something is given back. -/
theorem nwFreeDirHandle_freed (dirs : Dirs) (dirHandle : Nat) :
    usedDir (nwFreeDirHandle dirs dirHandle).1 =
        Function.update (usedDir dirs) dirHandle none ∧
      (nwFreeDirHandle dirs dirHandle).2 = if (usedDir dirs dirHandle).isSome then 0 else -0x9b := by
  unfold nwFreeDirHandle
  cases hused : usedDir dirs dirHandle with
  | none => exact ⟨(Function.update_eq_self_iff.mpr hused.symm).symm, rfl⟩
  | some d =>
      obtain ⟨hne, hd, -⟩ := usedDir_eq_some.mp hused
      obtain ⟨k, rfl⟩ := Nat.exists_eq_succ_of_ne_zero hne
      have hk := (List.getElem?_eq_some_iff.mp hd).1
      exact ⟨usedDir_of_lookup_update (lookup_set hk _), rfl⟩

theorem freeTaskHandles_used (dirs : Dirs) (task k : Nat) :
    usedDir (freeTaskHandles dirs task) k =
      (usedDir dirs k).filter fun d => ¬(d.isTemp ≠ 0 ∧ d.task = task) := by
  cases k with
  | zero => rfl
  | succ k =>
      refine lookup_map (fun d hlive => ?_) (fun d hlive => ?_) k
      · split at hlive
        next h => exact absurd rfl (of_decide_eq_true hlive)
        next h => exact ⟨hlive, if_neg h⟩
      · split
        next h => exact iff_of_false (fun hfree => of_decide_eq_true hfree rfl) (by simpa using h)
        next h => exact iff_of_true hlive (decide_eq_true h)

theorem freeDirStuff_used (dirs : Dirs) (id : FileNumbers) (k : Nat) :
    usedDir (freeDirStuff dirs id) k = (usedDir dirs k).filter fun d => d.id ≠ id := by
  cases k with
  | zero => rfl
  | succ k =>
      refine lookup_map (fun d hlive => ?_) (fun d hlive => ?_) k
      · split at hlive
        next h => exact absurd rfl (of_decide_eq_true hlive)
        next h => exact ⟨hlive, if_neg h⟩
      · split
        next h => exact iff_of_false (fun hfree => of_decide_eq_true hfree rfl) (by simpa using h)
        next h => exact iff_of_true hlive (decide_eq_true h)

/-! ## Sizes -/

theorem length_xinsertNewDir {dirs : Dirs} (h : dirs.length ≤ maxNwDirs) (volume : Nat)
    (path : List UInt8) (id : FileNumbers) (drive isTemp task : Nat) :
    (xinsertNewDir dirs volume path id drive isTemp task).1.length ≤ maxNwDirs := by
  unfold xinsertNewDir
  dsimp only
  split
  next j _ =>
    have hkept := List.rdropWhile_prefix (fun d : NwDir => d.id.ino = 0)
      (l := (dirs.modify j fun d =>
        (changeDirEntry d volume path id (some drive) (some isTemp) true task).1).drop (j + 1))
    have hlen := hkept.length_le
    rw [List.length_append]
    simp only [List.length_take, List.length_drop, List.length_modify] at hlen ⊢
    omega
  split
  next hlt =>
    rw [List.length_append]
    exact hlt
  · exact h

theorem length_alterDirHandle (dirs : Dirs) (targetdir volume : Nat) (path : List UInt8)
    (id : FileNumbers) (task : Nat) :
    (alterDirHandle dirs targetdir volume path id task).1.length = dirs.length := by
  unfold alterDirHandle
  split
  · rfl
  split
  · rfl
  · exact List.length_set

theorem length_nwFreeDirHandle (dirs : Dirs) (dirHandle : Nat) :
    (nwFreeDirHandle dirs dirHandle).1.length = dirs.length := by
  unfold nwFreeDirHandle
  split
  · rfl
  · exact List.length_set

end MarsNwe
