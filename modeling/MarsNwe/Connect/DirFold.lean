import MarsNwe.Connect.PathOps

/-! # Directories as lists of components

A path is led from a directory component by component. The list of directories
that this gives stands beside the text that `build_dir_name` spells for it, and the
automaton of `build_dir_name` beside the form of the names it takes.
-/

namespace MarsNwe

/-! ## Components -/

/-- The texts between the slashes of a path, without the empty ones. -/
def components (text : List UInt8) : List (List UInt8) :=
  (text.splitOnP fun c => c = 0x2f).filter fun c => c ≠ []

def IsPoints (c : List UInt8) : Prop := ∀ x ∈ c, x = 0x2e

instance (c : List UInt8) : Decidable (IsPoints c) := List.decidableBAll _ c

/-- A name before its first point. -/
def baseOf (c : List UInt8) : List UInt8 := c.takeWhile fun x => x ≠ 0x2e

/-- A name from its first point on. -/
def restOf (c : List UInt8) : List UInt8 := c.dropWhile fun x => x ≠ 0x2e

/-- Up to 8 characters that are no points, and perhaps a point with up to 3 more. -/
def IsName83 (c : List UInt8) : Prop :=
  baseOf c ≠ [] ∧ (baseOf c).length ≤ 8 ∧ (restOf c).length ≤ 4 ∧ (0x2e : UInt8) ∉ (restOf c).tail

instance (c : List UInt8) : Decidable (IsName83 c) := inferInstanceAs (Decidable (_ ∧ _))

/-- `.` stays, each point more leads one directory up, a name leads down. -/
def foldComp (dirs : List (List UInt8)) (c : List UInt8) : Option (List (List UInt8)) :=
  if IsPoints c then
    if c.length - 1 ≤ dirs.length then some (dirs.take (dirs.length - (c.length - 1))) else none
  else if IsName83 c then some (dirs ++ [c]) else none

/-- The directories that the components of a path lead to. -/
def foldComps (dirs comps : List (List UInt8)) : Option (List (List UInt8)) :=
  comps.foldlM foldComp dirs

theorem baseOf_cons {w : UInt8} (hw : w ≠ 0x2e) (c : List UInt8) :
    baseOf (w :: c) = w :: baseOf c :=
  List.takeWhile_cons_of_pos (decide_eq_true hw)

theorem restOf_cons {w : UInt8} (hw : w ≠ 0x2e) (c : List UInt8) : restOf (w :: c) = restOf c :=
  List.dropWhile_cons_of_pos (decide_eq_true hw)

@[simp] theorem components_nil : components [] = [] := by simp [components]

theorem components_slash (c rest : List UInt8) :
    components (c ++ 0x2f :: rest) = components c ++ components rest := by
  unfold components
  rw [List.splitOnP_append_cons c rest (by decide), List.filter_append]

theorem components_noSlash {c : List UInt8} (hc : (0x2f : UInt8) ∉ c) :
    components c = if c = [] then [] else [c] := by
  have hsplit : c.splitOnP (fun x => x = 0x2f) = [c] :=
    List.splitOnP_eq_singleton fun x hx => decide_eq_false (ne_of_mem_of_not_mem hx hc)
  unfold components
  rw [hsplit]
  by_cases hnil : c = [] <;> simp [hnil]

/-- Only slashes are without components. -/
theorem eq_slash_of_components_eq_nil {text : List UInt8} (h : components text = []) :
    ∀ x ∈ text, x = 0x2f := by
  induction text with
  | nil => exact fun x hx => absurd hx List.not_mem_nil
  | cons w text ih =>
      by_cases hw : w = 0x2f
      · subst hw
        change components ([] ++ 0x2f :: text) = [] at h
        rw [components_slash, components_nil, List.nil_append] at h
        exact List.forall_mem_cons.mpr ⟨rfl, ih h⟩
      · obtain ⟨c, cs, hcs⟩ := List.exists_cons_of_ne_nil
          (List.splitOnP_ne_nil (fun c => decide (c = 0x2f)) text)
        unfold components at h
        rw [List.splitOnP_cons_eq_if_modifyHead, if_neg (by simpa using hw), hcs,
          List.modifyHead_cons, List.filter_cons_of_pos (by simp)] at h
        cases h

/-- A directory, as it may stand in a path. -/
structure DirNameOk (c : List UInt8) : Prop where
  ne_nil : c ≠ []
  noSlash : (0x2f : UInt8) ∉ c
  noNul : (0 : UInt8) ∉ c

/-- Directories with a slash behind each. -/
def dirText (dirs : List (List UInt8)) : List UInt8 := dirs.flatMap fun c => c ++ [0x2f]

theorem components_dirText {dirs : List (List UInt8)} (hdirs : ∀ c ∈ dirs, DirNameOk c) :
    components (dirText dirs) = dirs := by
  induction dirs with
  | nil => exact components_nil
  | cons c dirs ih =>
      obtain ⟨hc, hrest⟩ := List.forall_mem_cons.mp hdirs
      change components ((c ++ [0x2f]) ++ dirText dirs) = _
      rw [List.append_assoc, List.singleton_append, components_slash, ih hrest,
        components_noSlash hc.noSlash, if_neg hc.ne_nil]
      rfl

/-! ## The text of a directory -/

/-- A path as `build_dir_name` spells it: a root handle has a slash in front. -/
structure Spelled where
  root : Bool
  dirs : List (List UInt8)
deriving DecidableEq

namespace Spelled

def text (s : Spelled) : List UInt8 := (if s.root then [0x2f] else []) ++ dirText s.dirs

def Ok (s : Spelled) : Prop := ∀ c ∈ s.dirs, DirNameOk c

/-- One directory up. Where the text is empty there is none, and the slash in front
goes with the last directory. -/
def up (s : Spelled) : Option Spelled :=
  if s.dirs = [] then if s.root then some ⟨false, []⟩ else none
  else some ⟨s.root && s.dirs.dropLast ≠ [], s.dirs.dropLast⟩

/-- Some directories up. -/
def ups : Nat → Spelled → Option Spelled
  | 0, s => some s
  | n + 1, s => s.up.bind (ups n)

/-- What the end of a component does. -/
def close (s : Spelled) (c : List UInt8) : Option Spelled :=
  if IsPoints c then s.ups (c.length - 1)
  else if IsName83 c then some ⟨s.root, s.dirs ++ [c]⟩ else none

/-- What the components of a path do. -/
def closes (s : Spelled) (comps : List (List UInt8)) : Option Spelled := comps.foldlM close s

@[simp] theorem closes_nil (s : Spelled) : s.closes [] = some s := rfl

theorem closes_cons (s : Spelled) (c : List UInt8) (comps : List (List UInt8)) :
    s.closes (c :: comps) = (s.close c).bind fun t => t.closes comps := rfl

theorem text_concat (root : Bool) (before : List (List UInt8)) (c : List UInt8) :
    (Spelled.mk root (before ++ [c])).text = (Spelled.mk root before).text ++ c ++ [0x2f] := by
  simp [text, dirText]

theorem length_text_concat (s : Spelled) (c : List UInt8) :
    (Spelled.mk s.root (s.dirs ++ [c])).text.length = s.text.length + c.length + 1 := by
  rw [text_concat, List.length_append, List.length_append, List.length_singleton]

theorem text_eq_nil {s : Spelled} : s.text = [] ↔ s.root = false ∧ s.dirs = [] := by
  obtain ⟨root, dirs⟩ := s
  cases root <;> cases dirs <;> simp [text, dirText]

theorem up_eq_none {s : Spelled} : s.up = none ↔ s.text = [] := by
  rw [text_eq_nil]
  unfold up
  by_cases hdirs : s.dirs = []
  · cases hroot : s.root <;> simp [hdirs]
  · simp [hdirs]

theorem Ok.up {s t : Spelled} (hs : s.Ok) (h : s.up = some t) : t.Ok := by
  unfold Spelled.up at h
  split at h
  · split at h
    · cases h
      exact fun c hc => absurd hc List.not_mem_nil
    · cases h
  · cases h
    exact fun c hc => hs c (List.mem_of_mem_dropLast hc)

theorem Ok.ups {n : Nat} {s t : Spelled} (hs : s.Ok) (h : s.ups n = some t) : t.Ok := by
  induction n generalizing s with
  | zero =>
      cases h
      exact hs
  | succ n ih =>
      obtain ⟨u, hu, ht⟩ := Option.bind_eq_some_iff.mp h
      exact ih (hs.up hu) ht

theorem Ok.close {s t : Spelled} {c : List UInt8} (hs : s.Ok) (hc : DirNameOk c)
    (h : s.close c = some t) : t.Ok := by
  unfold Spelled.close at h
  split at h
  · exact hs.ups h
  · split at h
    · cases h
      intro d hd
      rcases List.mem_append.mp hd with hd | hd
      · exact hs d hd
      · rw [List.mem_singleton.mp hd]
        exact hc
    · cases h

theorem Ok.text_noNul {s : Spelled} (hs : s.Ok) : (0 : UInt8) ∉ s.text := by
  intro hmem
  rcases List.mem_append.mp hmem with hlead | hdirs
  · split at hlead
    · cases List.mem_singleton.mp hlead
    · exact List.not_mem_nil hlead
  · obtain ⟨c, hc, hzero⟩ := List.mem_flatMap.mp hdirs
    rcases List.mem_append.mp hzero with hzero | hzero
    · exact (hs c hc).noNul hzero
    · cases List.mem_singleton.mp hzero

theorem Ok.components_text {s : Spelled} (hs : s.Ok) : components s.text = s.dirs := by
  unfold text
  cases s.root with
  | false => exact components_dirText hs
  | true =>
      change components ([] ++ 0x2f :: dirText s.dirs) = _
      rw [components_slash, components_nil, List.nil_append, components_dirText hs]

/-- The slash of the last directory is its end. -/
theorem rdropWhile_append_comp {l c : List UInt8} (hc : (0x2f : UInt8) ∉ c) :
    (l ++ c).rdropWhile (fun x => x ≠ 0x2f) = l.rdropWhile fun x => x ≠ 0x2f := by
  induction c using List.reverseRecOn with
  | nil => rw [List.append_nil]
  | append_singleton c x ih =>
      rw [List.mem_append, not_or, List.mem_singleton] at hc
      rw [← List.append_assoc, List.rdropWhile_concat_pos _ _ _ (by simpa using Ne.symm hc.2),
        ih hc.1]

/-- The texts that end with a slash or are empty stay as they are. -/
theorem rdropWhile_text (s : Spelled) :
    s.text.rdropWhile (fun x => x ≠ 0x2f) = s.text := by
  obtain ⟨root, dirs⟩ := s
  rcases List.eq_nil_or_concat dirs with rfl | ⟨before, c, rfl⟩
  · cases root <;> rfl
  · rw [List.concat_eq_append, text_concat]
    exact List.rdropWhile_concat_neg _ _ _ (by simp)

/-- The text loses its last directory. -/
theorem Ok.up_text {s t : Spelled} (hs : s.Ok) (h : s.up = some t) :
    t.text = dropLastDir s.text := by
  obtain ⟨root, dirs⟩ := s
  unfold Spelled.up at h
  rcases List.eq_nil_or_concat dirs with rfl | ⟨before, c, rfl⟩
  · cases root with
    | false => cases h
    | true =>
        cases h
        rfl
  · rw [List.concat_eq_append] at hs h ⊢
    rw [if_neg (by simp), List.dropLast_concat] at h
    cases h
    have hc : DirNameOk c := hs c (by simp)
    unfold dropLastDir
    rw [text_concat, List.dropLast_concat, rdropWhile_append_comp hc.noSlash, rdropWhile_text]
    rcases List.eq_nil_or_concat before with rfl | ⟨front, d, rfl⟩
    · cases root <;> rfl
    · have hd : DirNameOk d := hs d (by simp)
      have hlong : 1 < (Spelled.mk root (front.concat d)).text.length := by
        have hpos := List.length_pos_iff.mpr hd.ne_nil
        rw [List.concat_eq_append, text_concat, List.length_append, List.length_append,
          List.length_singleton]
        omega
      rw [if_neg (not_le.mpr hlong)]
      simp [text]

end Spelled

/-! ## The automaton -/

/-- The state behind some characters. -/
def ScanState.run (state : ScanState) (c : List UInt8) : Option ScanState :=
  c.foldlM (fun state w => state.next w) state

theorem ScanState.run_cons (state : ScanState) (w : UInt8) (c : List UInt8) :
    state.run (w :: c) = (state.next w).bind fun state => state.run c := rfl

theorem ScanState.run_concat (state : ScanState) (c : List UInt8) (w : UInt8) :
    state.run (c ++ [w]) = (state.run c).bind (ScanState.next w) := by
  unfold ScanState.run
  rw [List.foldlM_append]
  exact Option.bind_congr fun state _ => bind_pure (state.next w)

theorem isPoints_cons {c : List UInt8} : IsPoints (0x2e :: c) ↔ IsPoints c :=
  List.forall_mem_cons.trans (and_iff_right rfl)

theorem ScanState.run_points (c : List UInt8) (hc : (0x2f : UInt8) ∉ c) :
    ScanState.points.run c = if IsPoints c then some .points else none := by
  induction c with
  | nil => rfl
  | cons w c ih =>
      rw [List.mem_cons, not_or] at hc
      rw [run_cons, ScanState.next, if_neg (Ne.symm hc.1)]
      by_cases hw : w = 0x2e
      · subst hw
        rw [if_pos rfl, Option.bind_some, ih hc.2]
        exact if_congr isPoints_cons.symm rfl rfl
      · rw [if_neg hw, if_neg fun h => hw (h w List.mem_cons_self)]
        rfl

theorem ScanState.run_ext (n : Nat) (hn : n ≤ 3) (c : List UInt8) (hc : (0x2f : UInt8) ∉ c) :
    (ScanState.ext n).run c =
      if n + c.length ≤ 3 ∧ (0x2e : UInt8) ∉ c then some (.ext (n + c.length)) else none := by
  induction c generalizing n with
  | nil => rw [if_pos ⟨hn, List.not_mem_nil⟩]; rfl
  | cons w c ih =>
      rw [List.mem_cons, not_or] at hc
      rw [run_cons, ScanState.next, if_neg (Ne.symm hc.1), List.length_cons]
      by_cases hw : w = 0x2e
      · rw [if_pos hw, if_neg fun h => h.2 (hw ▸ List.mem_cons_self)]
        rfl
      · rw [if_neg hw]
        by_cases hfull : n + 1 = 4
        · rw [if_pos hfull, if_neg fun h => by omega]
          rfl
        · rw [if_neg hfull, Option.bind_some, ih (n + 1) (by omega) hc.2]
          have harith : n + 1 + c.length = n + (c.length + 1) := by omega
          rw [harith]
          refine if_congr (and_congr_right fun _ => ?_) rfl rfl
          rw [List.mem_cons, not_or, and_iff_right (Ne.symm hw)]

/-- What may follow the first characters of a name. -/
def EndsName (n : Nat) (c : List UInt8) : Prop :=
  n + (baseOf c).length ≤ 8 ∧ (restOf c).length ≤ 4 ∧ (0x2e : UInt8) ∉ (restOf c).tail

theorem ScanState.run_name (n : Nat) (hn : n ≤ 8) (c : List UInt8) (hc : (0x2f : UInt8) ∉ c) :
    ((ScanState.name n).run c).isSome ↔ EndsName n c := by
  unfold EndsName
  induction c generalizing n with
  | nil => exact iff_of_true rfl ⟨hn, by decide, List.not_mem_nil⟩
  | cons w c ih =>
      rw [List.mem_cons, not_or] at hc
      rw [run_cons, ScanState.next]
      by_cases hw : w = 0x2e
      · subst hw
        rw [if_pos rfl, Option.bind_some, ScanState.run_ext 0 (by decide) c hc.2]
        change _ ↔ n + 0 ≤ 8 ∧ c.length + 1 ≤ 4 ∧ (0x2e : UInt8) ∉ c
        by_cases h : 0 + c.length ≤ 3 ∧ (0x2e : UInt8) ∉ c
        · rw [if_pos h]
          exact iff_of_true rfl ⟨hn, by omega, h.2⟩
        · rw [if_neg h]
          exact iff_of_false (by simp) fun hle => h ⟨by omega, hle.2.2⟩
      · rw [if_neg hw, if_neg (Ne.symm hc.1), baseOf_cons hw, restOf_cons hw, List.length_cons]
        by_cases hfull : n + 1 = 9
        · rw [if_pos hfull]
          exact iff_of_false (by simp) fun h => by omega
        · rw [if_neg hfull, Option.bind_some, ih (n + 1) (by omega) hc.2]
          have harith : n + 1 + (baseOf c).length = n + ((baseOf c).length + 1) := by omega
          rw [harith]

/-- The automaton takes the points and the names of 8.3 form. -/
theorem ScanState.run_start (c : List UInt8) (hne : c ≠ []) (hc : (0x2f : UInt8) ∉ c) :
    (ScanState.start.run c).isSome ↔ IsPoints c ∨ IsName83 c := by
  obtain ⟨w, c, rfl⟩ := List.exists_cons_of_ne_nil hne
  rw [List.mem_cons, not_or] at hc
  rw [run_cons, ScanState.next, Option.bind_some]
  by_cases hw : w = 0x2e
  · subst hw
    have hname : ¬IsName83 (0x2e :: c) := fun h => h.1 rfl
    rw [if_pos rfl, ScanState.run_points c hc.2, or_iff_left hname]
    rw [isPoints_cons]
    split
    next h => exact iff_of_true rfl h
    next h => exact iff_of_false (by simp) h
  · have hpoints : ¬IsPoints (w :: c) := fun h => hw (h w List.mem_cons_self)
    rw [if_neg hw, if_neg (Ne.symm hc.1), ScanState.run_name 1 (by decide) c hc.2,
      or_iff_right hpoints]
    unfold EndsName IsName83
    rw [baseOf_cons hw, restOf_cons hw]
    rw [and_iff_right (List.cons_ne_nil _ _), List.length_cons, Nat.add_comm 1]

/-- A component does not lead into the state of a slash. -/
theorem ScanState.next_ne_slash {state state' : ScanState} {w : UInt8} (hw : w ≠ 0x2f)
    (hstate : state ≠ .slash) (h : state.next w = some state') : state' ≠ .slash := by
  rintro rfl
  cases state with
  | slash => exact hstate rfl
  | start | name n | ext n | points =>
      simp only [ScanState.next, if_neg hw] at h
      split_ifs at h <;> cases h

/-! ## The fold and the text -/

namespace Spelled

theorem up_of_dirs {s : Spelled} (hs : s.dirs ≠ []) :
    s.up = some ⟨s.root && s.dirs.dropLast ≠ [], s.dirs.dropLast⟩ := if_neg hs

/-- Going up takes that many directories, and the slash in front counts for one as
long as nothing stands behind it. -/
theorem ups_dirs (n : Nat) (s : Spelled) (hs : s.root = false ∨ s.dirs ≠ []) :
    (s.ups n).map Spelled.dirs =
      (if n ≤ s.dirs.length then some (s.dirs.take (s.dirs.length - n)) else none) ∧
    ∀ t, s.ups n = some t → t.root = false ∨ t.dirs ≠ [] := by
  induction n generalizing s with
  | zero =>
      refine ⟨?_, fun t ht => ?_⟩
      · rw [if_pos (Nat.zero_le _), Nat.sub_zero, List.take_length]
        rfl
      · cases ht
        exact hs
  | succ n ih =>
      by_cases hdirs : s.dirs = []
      · have hnone : s.up = none :=
          up_eq_none.mpr (text_eq_nil.mpr ⟨hs.resolve_right (not_not_intro hdirs), hdirs⟩)
        rw [ups, hnone, hdirs]
        exact ⟨rfl, fun t ht => by cases ht⟩
      · have hnext : (Spelled.mk (s.root && s.dirs.dropLast ≠ []) s.dirs.dropLast).root = false ∨
            s.dirs.dropLast ≠ [] := by
          by_cases hlast : s.dirs.dropLast = []
          · exact .inl (by simp [hlast])
          · exact .inr hlast
        obtain ⟨hmap, hroot⟩ := ih _ hnext
        have hlen : s.dirs.dropLast.length + 1 = s.dirs.length := by
          have hpos := List.length_pos_iff.mpr hdirs
          rw [List.length_dropLast]
          omega
        rw [ups, up_of_dirs hdirs, Option.bind_some]
        refine ⟨?_, hroot⟩
        rw [hmap]
        dsimp only
        by_cases hle : n + 1 ≤ s.dirs.length
        · rw [if_pos hle, if_pos (by omega), List.dropLast_eq_take, List.take_take]
          rw [List.length_take]
          congr 2
          omega
        · rw [if_neg hle, if_neg (by omega)]

/-- Outside the root of a handle the text keeps in step with the fold. -/
theorem close_dirs (s : Spelled) (hs : s.root = false ∨ s.dirs ≠ []) (c : List UInt8) :
    (s.close c).map Spelled.dirs = foldComp s.dirs c ∧
    ∀ t, s.close c = some t → t.root = false ∨ t.dirs ≠ [] := by
  unfold close foldComp
  by_cases hpoints : IsPoints c
  · rw [if_pos hpoints, if_pos hpoints]
    exact ups_dirs _ s hs
  · rw [if_neg hpoints, if_neg hpoints]
    by_cases hname : IsName83 c
    · rw [if_pos hname, if_pos hname]
      refine ⟨rfl, fun t ht => ?_⟩
      cases ht
      exact .inr (by simp)
    · rw [if_neg hname, if_neg hname]
      exact ⟨rfl, fun t ht => by cases ht⟩

theorem closes_dirs (s : Spelled) (hs : s.root = false ∨ s.dirs ≠ [])
    (comps : List (List UInt8)) :
    (s.closes comps).map Spelled.dirs = foldComps s.dirs comps := by
  induction comps generalizing s with
  | nil => rfl
  | cons c comps ih =>
      obtain ⟨hmap, hroot⟩ := close_dirs s hs c
      rw [closes_cons, foldComps, List.foldlM_cons, ← hmap]
      cases hclose : s.close c with
      | none => rfl
      | some t => exact ih t (hroot t hclose)

end Spelled

/-- From the root of a handle a first component `..` is taken, and the components
behind it lead somewhere from the root. -/
def BacksOut (comps : List (List UInt8)) : Prop :=
  ∃ n behind, comps = List.replicate n [0x2e] ++ [0x2e, 0x2e] :: behind ∧
    (foldComps [] behind).isSome

theorem backsOut_cons_point {comps : List (List UInt8)} :
    BacksOut ([0x2e] :: comps) ↔ BacksOut comps := by
  constructor
  · rintro ⟨n, behind, heq, hsome⟩
    cases n with
    | zero => cases (List.cons.inj heq).1
    | succ n => exact ⟨n, behind, (List.cons.inj heq).2, hsome⟩
  · rintro ⟨n, behind, rfl, hsome⟩
    exact ⟨n + 1, behind, rfl, hsome⟩

theorem backsOut_cons_up {comps : List (List UInt8)} :
    BacksOut ([0x2e, 0x2e] :: comps) ↔ (foldComps [] comps).isSome := by
  constructor
  · rintro ⟨n, behind, heq, hsome⟩
    cases n with
    | zero => exact (List.cons.inj heq).2 ▸ hsome
    | succ n => cases (List.cons.inj heq).1
  · intro hsome
    exact ⟨0, comps, rfl, hsome⟩

theorem not_backsOut_cons {c : List UInt8} {comps : List (List UInt8)} (hone : c ≠ [0x2e])
    (htwo : c ≠ [0x2e, 0x2e]) : ¬BacksOut (c :: comps) := by
  rintro ⟨n, behind, heq, -⟩
  cases n with
  | zero => exact htwo (List.cons.inj heq).1
  | succ n => exact hone (List.cons.inj heq).1

/-- Components of points are known by their length. -/
theorem IsPoints.eq_replicate {c : List UInt8} (h : IsPoints c) :
    c = List.replicate c.length 0x2e := List.eq_replicate_iff.mpr ⟨rfl, h⟩

/-- At the root of a handle the text goes along with the fold unless it backs out. -/
theorem Spelled.closes_root_iff (comps : List (List UInt8)) (hcomps : ∀ c ∈ comps, c ≠ []) :
    ((Spelled.mk true []).closes comps).map Spelled.dirs = foldComps [] comps ↔
      ¬BacksOut comps := by
  induction comps with
  | nil =>
      refine iff_of_true rfl ?_
      rintro ⟨n, behind, heq, -⟩
      simpa using congrArg List.length heq
  | cons c comps ih =>
      obtain ⟨hne, hrest⟩ := List.forall_mem_cons.mp hcomps
      rw [closes_cons, foldComps, List.foldlM_cons]
      by_cases hpoints : IsPoints c
      · rw [Spelled.close, if_pos hpoints, foldComp, if_pos hpoints]
        rw [hpoints.eq_replicate]
        rw [List.length_replicate]
        match hlen : c.length with
        | 0 => exact absurd (List.length_eq_zero_iff.mp hlen) hne
        | 1 =>
            change _ ↔ ¬BacksOut ([0x2e] :: comps)
            rw [backsOut_cons_point]
            exact ih hrest
        | 2 =>
            -- the text loses its slash, the fold fails
            change ((Spelled.mk false []).closes comps).map Spelled.dirs = none ↔
              ¬BacksOut ([0x2e, 0x2e] :: comps)
            rw [backsOut_cons_up]
            rw [Spelled.closes_dirs _ (.inl rfl), Option.not_isSome_iff_eq_none]
        | n + 3 =>
            refine iff_of_true rfl (not_backsOut_cons ?_ ?_) <;>
              exact fun h => by simpa using congrArg List.length h
      · refine iff_of_true ?_ (not_backsOut_cons ?_ ?_)
        · rw [Spelled.close, if_neg hpoints, foldComp, if_neg hpoints]
          by_cases hname : IsName83 c
          · rw [if_pos hname, if_pos hname]
            exact Spelled.closes_dirs _ (.inr (by simp)) comps
          · rw [if_neg hname, if_neg hname]
            rfl
        · rintro rfl
          exact hpoints (by decide)
        · rintro rfl
          exact hpoints (by decide)

end MarsNwe
