import Mathlib.Data.List.Dedup

/-! # Symbolic links under path names

What a program keeps in links only: a list of links with the paths to them, in the order
in which the directories list them. A directory is there as long as something lies in it.
-/

namespace Links

variable {κ τ : Type}

/-- The links, each with the names on the path to it. -/
abbrev Tree (κ τ : Type) : Type := List (List κ × τ)

/-- A link is made, `place` links from the start. -/
def symlink (place : Nat) (t : Tree κ τ) (path : List κ) (target : τ) : Tree κ τ :=
  t.take place ++ (path, target) :: t.drop place

theorem perm_symlink (place : Nat) (t : Tree κ τ) (path : List κ) (target : τ) :
    (symlink place t path target).Perm ((path, target) :: t) := by
  refine List.perm_middle.trans ?_
  rw [List.take_append_drop]

theorem mem_symlink {place : Nat} {t : Tree κ τ} {path : List κ} {target : τ} {l : List κ × τ} :
    l ∈ symlink place t path target ↔ l = (path, target) ∨ l ∈ t := by
  rw [(perm_symlink place t path target).mem_iff, List.mem_cons]

theorem nodup_symlink {t : Tree κ τ} (hnodup : (t.map Prod.fst).Nodup) (place : Nat)
    {path : List κ} (hnew : ∀ l ∈ t, l.1 ≠ path) (target : τ) :
    ((symlink place t path target).map Prod.fst).Nodup := by
  rw [((perm_symlink place t path target).map Prod.fst).nodup_iff, List.map_cons, List.nodup_cons]
  refine ⟨fun hmem => ?_, hnodup⟩
  obtain ⟨l, hl, hpath⟩ := List.mem_map.mp hmem
  exact hnew l hl hpath

/-- The names on the longest path. -/
def height : Tree κ τ → Nat
  | [] => 0
  | l :: t => max l.1.length (height t)

theorem length_le_height {t : Tree κ τ} {l : List κ × τ} (h : l ∈ t) : l.1.length ≤ height t := by
  induction t with
  | nil => contradiction
  | cons l' t ih =>
      unfold height
      rcases List.mem_cons.mp h with rfl | htail
      · exact Nat.le_max_left _ _
      · exact Nat.le_trans (ih htail) (Nat.le_max_right _ _)

variable [DecidableEq κ]

/-- What a link holds. -/
def readlink (t : Tree κ τ) (path : List κ) : Option τ := (t.find? (·.1 = path)).map Prod.snd

def unlink (t : Tree κ τ) (path : List κ) : Tree κ τ := t.filter (·.1 ≠ path)

/-- The part of a path behind a directory. -/
def behind : List κ → List κ → Option (List κ)
  | [], path => some path
  | _ :: _, [] => none
  | d :: dir, c :: path => if d = c then behind dir path else none

/-- How a path that starts in a directory shows there: as a link, or as a directory. -/
def shown (dir : List κ) (l : List κ × τ) : Option (κ × Option τ) :=
  match behind dir l.1 with
  | some [c] => some (c, some l.2)
  | some (c :: _ :: _) => some (c, none)
  | _ => none

/-- What a directory lists: the links in it, with what they hold, and the directories. -/
def readdir [DecidableEq τ] (t : Tree κ τ) (dir : List κ) : List (κ × Option τ) :=
  (t.filterMap (shown dir)).dedup

/-! ## Paths -/

theorem behind_eq_some {dir path rest : List κ} :
    behind dir path = some rest ↔ path = dir ++ rest := by
  induction dir generalizing path with
  | nil => exact ⟨fun h => Option.some.inj h, fun h => congrArg some h⟩
  | cons d dir ih =>
      cases path with
      | nil => exact iff_of_false (by simp [behind]) (List.cons_ne_nil d _).symm
      | cons c path =>
          unfold behind
          by_cases hhead : d = c
          · rw [if_pos hhead, ih, hhead, List.cons_append, List.cons.injEq]
            exact (and_iff_right rfl).symm
          · rw [if_neg hhead]
            exact iff_of_false (by simp) fun h => hhead (List.cons.inj h).1.symm

theorem shown_eq_link {dir : List κ} {l : List κ × τ} {c : κ} {target : τ} :
    shown dir l = some (c, some target) ↔ l = (dir ++ [c], target) := by
  unfold shown
  constructor
  · intro h
    split at h
    next hbehind =>
      cases h
      exact Prod.ext (behind_eq_some.mp hbehind) rfl
    · cases h
    · cases h
  · rintro rfl
    rw [behind_eq_some.mpr rfl]

theorem shown_eq_dir {dir : List κ} {l : List κ × τ} {c : κ} :
    shown dir l = some (c, none) ↔ ∃ d rest, l.1 = dir ++ c :: d :: rest := by
  unfold shown
  constructor
  · intro h
    split at h
    · cases h
    next d rest hbehind =>
      cases h
      exact ⟨d, rest, behind_eq_some.mp hbehind⟩
    · cases h
  · intro ⟨d, rest, h⟩
    rw [behind_eq_some.mpr h]

/-! ## Links that change -/

theorem readlink_eq_some {t : Tree κ τ} (hnodup : (t.map Prod.fst).Nodup) {path : List κ}
    {target : τ} : readlink t path = some target ↔ (path, target) ∈ t := by
  unfold readlink
  constructor
  · intro h
    obtain ⟨l, hfind, rfl⟩ := Option.map_eq_some_iff.mp h
    have hpath : l.1 = path := by simpa using List.find?_some hfind
    rw [← hpath]
    exact List.mem_of_find?_eq_some hfind
  · intro h
    cases hfind : t.find? (·.1 = path) with
    | none => exact absurd (decide_eq_true rfl) (List.find?_eq_none.mp hfind _ h)
    | some l =>
        have hpath : l.1 = path := by simpa using List.find?_some hfind
        have hsame := List.inj_on_of_nodup_map hnodup (List.mem_of_find?_eq_some hfind) h hpath
        rw [hsame]
        rfl

theorem mem_unlink {t : Tree κ τ} {path : List κ} {l : List κ × τ} :
    l ∈ unlink t path ↔ l ∈ t ∧ l.1 ≠ path := by
  rw [unlink, List.mem_filter, decide_eq_true_iff]

theorem nodup_unlink {t : Tree κ τ} (hnodup : (t.map Prod.fst).Nodup) (path : List κ) :
    ((unlink t path).map Prod.fst).Nodup :=
  hnodup.sublist (List.filter_sublist.map Prod.fst)

/-! ## Directories -/

section Readdir

variable [DecidableEq τ] {t : Tree κ τ} {dir : List κ} {c : κ}

theorem mem_readdir {entry : κ × Option τ} :
    entry ∈ readdir t dir ↔ ∃ l ∈ t, shown dir l = some entry := by
  rw [readdir, List.mem_dedup, List.mem_filterMap]

theorem link_mem_readdir {target : τ} :
    (c, some target) ∈ readdir t dir ↔ (dir ++ [c], target) ∈ t := by
  rw [mem_readdir]
  simp only [shown_eq_link, exists_eq_right]

theorem dir_mem_readdir :
    (c, none) ∈ readdir t dir ↔ ∃ l ∈ t, ∃ d rest, l.1 = dir ++ c :: d :: rest := by
  rw [mem_readdir]
  simp only [shown_eq_dir]

theorem nodup_readdir (t : Tree κ τ) (dir : List κ) : (readdir t dir).Nodup := List.nodup_dedup _

/-- Links that do not show in a directory may go. -/
theorem readdir_filter {p : List κ × τ → Bool}
    (h : ∀ l ∈ t, (shown dir l).isSome → p l = true) :
    readdir (t.filter p) dir = readdir t dir := by
  rw [readdir, readdir, List.filterMap_filter]
  congr 1
  refine List.filterMap_congr fun l hl => ?_
  cases hshown : shown dir l with
  | none => exact ite_self _
  | some entry => exact if_pos (h l hl (hshown ▸ rfl))

/-! ## Walks -/

/-- The links below a directory whose names are picked, in the order of a walk through the
directories that are entered; it goes `depth` names deep. -/
def walk (enter pick : κ → Bool) (t : Tree κ τ) : (depth : Nat) → List κ → Tree κ τ
  | 0, _ => []
  | depth + 1, dir =>
      (readdir t dir).flatMap fun
        | (c, some target) => if pick c then [(dir ++ [c], target)] else []
        | (c, none) => if enter c then walk enter pick t depth (dir ++ [c]) else []

variable {enter pick : κ → Bool} {depth : Nat}

/-- A walk meets the links that are picked, behind names that are entered. -/
theorem mem_walk {l : List κ × τ} :
    l ∈ walk enter pick t depth dir ↔
      l ∈ t ∧ ∃ names c, l.1 = dir ++ names ++ [c] ∧ (∀ n ∈ names, enter n = true) ∧
        pick c = true ∧ names.length < depth := by
  induction depth generalizing dir with
  | zero => exact iff_of_false List.not_mem_nil fun ⟨_, _, _, _, _, _, h⟩ => Nat.not_lt_zero _ h
  | succ depth ih =>
      rw [walk, List.mem_flatMap]
      constructor
      · rintro ⟨⟨c, _ | target⟩, hentry, hl⟩
        · dsimp only at hl
          split at hl
          next henter =>
            obtain ⟨hmem, names, c', hpath, hnames, hpick, hlen⟩ := ih.mp hl
            refine ⟨hmem, c :: names, c', ?_, ?_, hpick, ?_⟩
            · rw [hpath]
              simp
            · exact List.forall_mem_cons.mpr ⟨henter, hnames⟩
            · exact Nat.succ_lt_succ hlen
          next => contradiction
        · dsimp only at hl
          split at hl
          next hpick =>
            rw [List.mem_singleton.mp hl]
            exact ⟨link_mem_readdir.mp hentry, [], c, by simp, fun n hn => absurd hn
              List.not_mem_nil, hpick, Nat.succ_pos depth⟩
          next => contradiction
      · intro ⟨hmem, names, c', hpath, hnames, hpick, hlen⟩
        obtain ⟨path, target⟩ := l
        obtain rfl : path = dir ++ names ++ [c'] := hpath
        cases names with
        | nil =>
            rw [List.append_nil] at hmem ⊢
            refine ⟨(c', some target), link_mem_readdir.mpr hmem, ?_⟩
            dsimp only
            rw [if_pos hpick]
            exact List.mem_singleton_self _
        | cons c names =>
            obtain ⟨henter, hnames⟩ := List.forall_mem_cons.mp hnames
            refine ⟨(c, none), dir_mem_readdir.mpr ?_, ?_⟩
            · cases names with
              | nil => exact ⟨_, hmem, c', [], by simp⟩
              | cons d names => exact ⟨_, hmem, d, names ++ [c'], by simp⟩
            · dsimp only
              rw [if_pos henter]
              exact ih.mpr ⟨hmem, names, c', by simp, hnames, hpick, Nat.lt_of_succ_lt_succ hlen⟩

/-- What a walk meets at an entry lies behind the name of the entry: in its directory for
a link, deeper for a directory. -/
theorem behind_entry {entry : κ × Option τ} {l : List κ × τ}
    (h : l ∈ (fun
        | (c, some target) => if pick c then [(dir ++ [c], target)] else []
        | (c, none) => if enter c then walk enter pick t depth (dir ++ [c]) else [] :
        κ × Option τ → Tree κ τ) entry) :
    ∃ rest, l.1 = dir ++ entry.1 :: rest ∧
      (∀ target, entry.2 = some target → rest = [] ∧ l.2 = target) ∧
      (entry.2 = none → rest ≠ []) := by
  obtain ⟨c, _ | target⟩ := entry
  · dsimp only at h
    split at h
    next =>
      obtain ⟨-, names, c', hpath, -⟩ := mem_walk.mp h
      refine ⟨names ++ [c'], ?_, fun target ht => ?_, fun _ => by simp⟩
      · rw [hpath]
        simp
      · cases ht
    next => contradiction
  · dsimp only at h
    split at h
    next =>
      rw [List.mem_singleton.mp h]
      refine ⟨[], rfl, fun target' ht => ⟨rfl, Option.some.inj ht⟩, fun ht => ?_⟩
      cases ht
    next => contradiction

/-- A walk meets no link twice. -/
theorem nodup_walk (enter pick : κ → Bool) (t : Tree κ τ) (depth : Nat) (dir : List κ) :
    (walk enter pick t depth dir).Nodup := by
  induction depth generalizing dir with
  | zero => exact List.nodup_nil
  | succ depth ih =>
      rw [walk, List.nodup_flatMap]
      constructor
      · rintro ⟨c, _ | target⟩ -
        · dsimp only
          split
          · exact ih _
          · exact List.nodup_nil
        · dsimp only
          split
          · exact List.nodup_singleton _
          · exact List.nodup_nil
      · refine (nodup_readdir t dir).imp fun {entry entry'} hne => ?_
        intro l hl hl'
        obtain ⟨rest, hpath, hlink, hdir⟩ := behind_entry hl
        obtain ⟨rest', hpath', hlink', hdir'⟩ := behind_entry hl'
        obtain ⟨hname, rfl⟩ := List.cons.inj (List.append_cancel_left (hpath.symm.trans hpath'))
        refine hne (Prod.ext hname ?_)
        cases htarget : entry.2 with
        | none =>
            cases htarget' : entry'.2 with
            | none => rfl
            | some target' => exact absurd (hlink' target' htarget').1 (hdir htarget)
        | some target =>
            obtain ⟨hrest, htext⟩ := hlink target htarget
            cases htarget' : entry'.2 with
            | none => exact absurd hrest (hdir' htarget')
            | some target' => rw [← htext, (hlink' target' htarget').2]

end Readdir

end Links
