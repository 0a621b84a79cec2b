import MarsNwe.Connect.DirFold
import MarsNwe.Namspace.PathBounds
import MarsNwe.Namspace.Requests

/-! # Full paths

`nw_get_full_path_cookies` takes the path of an entry apart, from its end to its
beginning, and puts the name of the volume last. A client that gives the components
back in the order of a path comes to the same file.
-/

namespace MarsNwe.NameSpace

variable {φ : Type}

/-! ## The code -/

/-- The loop over the path: `before` is what stands before `lastpp`, its last byte
first. Nothing is written for two slashes together. -/
def cookieLoop (before : List UInt8) : Except Int (List (List UInt8)) :=
  let l := before.takeWhile fun c => c ≠ 0x2f
  let rest := (before.dropWhile fun c => c ≠ 0x2f).tail
  if 255 < l.length then .error (-0xff)
  else
    (if _hmore : rest = [] then .ok [] else cookieLoop rest).map fun more =>
      if l = [] then more else l.reverse :: more
termination_by before.length
decreasing_by
  have hle := (List.dropWhile_sublist (fun c => decide (c ≠ 0x2f)) (l := before)).length_le
  have hpos := List.length_pos_iff.mpr _hmore
  simp only [rest, List.length_tail] at hpos ⊢
  omega

/-- The components of a path, the last first; the loop is passed by when there are none. -/
def pathCookies (path : List UInt8) : Except Int (List (List UInt8)) :=
  if path = [] ∨ path = [0x2f] then .ok [] else cookieLoop path.reverse

/-- A byte for its length before each component. -/
def packed (comps : List (List UInt8)) : List UInt8 :=
  comps.flatMap fun c => UInt8.ofNat c.length :: c

def packedSize : List (List UInt8) → Nat
  | [] => 0
  | c :: comps => c.length + 1 + packedSize comps

/-- What `nw_get_full_path_cookies` fills in, and `len`, which it returns. -/
structure FullPath where
  cookieflags : Nat
  cookie1 : UInt32
  cookie2 : UInt32
  components : Nat
  componentpath : List UInt8
  len : Nat
deriving DecidableEq

/-- `nw_get_full_path_cookies` on the entry that `build_base` has found. -/
def fullPathOf (w : NsWorld φ) (namespaceId : UInt8) (dbe : DirBaseEntry)
    (cookie1 cookie2 : UInt32) : Except Int FullPath :=
  if cookie1 ≠ 0xffffffff ∨ cookie2 ≠ 0xffffffff then .error (-0xff)
  else if 256 < dbe.path.length then .error (-0xfb)
  else do
    let comps ← pathCookies dbe.path
    let comps := if namespaceId = nameDos then comps.map fun c => c.map w.up else comps
    let sysname := (w.volumes[dbe.volume]?.map fun v => v.sysname).getD []
    let all := comps ++ [sysname]
    if 400 < packedSize all then .error (-0xff)
    else
      return {
        cookieflags := if dbe.statb.isDir then 0 else 1
        cookie1 := 0
        cookie2 := 0xffffffff
        components := all.length
        componentpath := packed all
        len := packedSize all }

/-! ## What the client does with it -/

/-- The components of a reply. -/
def unpack : (components : Nat) → (componentpath : List UInt8) → List (List UInt8)
  | 0, _ => []
  | _ + 1, [] => []
  | n + 1, l :: rest => rest.take l.toNat :: unpack n (rest.drop l.toNat)

/-- A request with the components of a reply in reverse order, and no base. -/
def FullPath.hpath (r : FullPath) : NwHpath where
  volume := 0
  base := 0
  flag := 0xff
  components := (unpack r.components r.componentpath).reverse

/-- The entry of a call is for the path that the components of its request give. -/
def BuiltBy (w : NsWorld φ) (fs : φ) (namespaceId : UInt8) (dbe : DirBaseEntry) : Prop :=
  ∃ volume path nwp, addHpathToNwpath w fs namespaceId volume path nwp = .ok (dbe.volume, dbe.path)

/-- A byte that a component may have without being changed in a path. -/
def IsPlain (c : UInt8) : Prop := c ∉ [(0x5c : UInt8), 0x3a, 0x2a, 0x3f, 0xaa, 0xae, 0xbf]

instance (c : UInt8) : Decidable (IsPlain c) := inferInstanceAs (Decidable (¬ _))

/-- The volume is found under its own name, which is not empty. -/
structure FoundByName (w : NsWorld φ) (k : Nat) (v : NsVol) : Prop where
  found : nwGetVolumeNumber w v.sysname = some k
  ne_nil : v.sysname ≠ []
  length_le : v.sysname.length ≤ 255

/-- The tables for upper and lower case belong together, and keep slashes and
terminators. -/
structure CaseTables (w : NsWorld φ) : Prop where
  up_up : ∀ c, w.up (w.up c) = w.up c
  down_down : ∀ c, w.down (w.down c) = w.down c
  up_down : ∀ c, w.up (w.down c) = w.up c
  up_slash : ∀ c, w.up c = 0x2f ↔ c = 0x2f
  down_slash : w.down 0x2f = 0x2f
  up_nul : ∀ c, w.up c = 0 ↔ c = 0

/-- The call gives back the volume of the entry and a path with the same components. -/
def GivesBack (w : NsWorld φ) (namespaceId : UInt8) (dbe : DirBaseEntry) (r : FullPath) : Prop :=
  r.components = (components dbe.path).length + 1 ∧ r.len = r.componentpath.length ∧
    ∀ fs, ∃ path, addHpathToNwpath w fs namespaceId none [] r.hpath = .ok (dbe.volume, path) ∧
      components path = components dbe.path

/-! ## Taking a path apart -/

/-- The components of a path, from its last slash. -/
theorem components_reverse (before : List UInt8) :
    components before.reverse =
      components (before.dropWhile fun c => c ≠ 0x2f).tail.reverse ++
        if before.takeWhile (fun c => c ≠ 0x2f) = [] then []
        else [(before.takeWhile fun c => c ≠ 0x2f).reverse] := by
  have hnone : (0x2f : UInt8) ∉ (before.takeWhile fun c => c ≠ 0x2f).reverse := by
    intro hmem
    simpa using List.mem_takeWhile_imp (List.mem_reverse.mp hmem)
  have hlast := components_noSlash hnone
  simp only [List.reverse_eq_nil_iff] at hlast
  rw [← hlast]
  conv =>
    lhs
    rw [← List.takeWhile_append_dropWhile (p := fun c => decide (c ≠ 0x2f)) (l := before)]
  cases hd : before.dropWhile (fun c => c ≠ 0x2f) with
  | nil => rw [List.append_nil, List.tail_nil, List.reverse_nil, components_nil, List.nil_append]
  | cons b rest =>
      have hb : b = 0x2f := by
        have := List.head?_dropWhile_not (fun c => decide (c ≠ 0x2f)) before
        rw [hd] at this
        simpa using this
      rw [hb, List.reverse_append, List.reverse_cons, List.append_assoc, List.singleton_append,
        components_slash, List.tail_cons]

/-- A component is a part of the path without a slash. -/
theorem of_mem_components_reverse (before : List UInt8) :
    ∀ c ∈ components before.reverse, c ≠ [] ∧ (0x2f : UInt8) ∉ c ∧ ∀ x ∈ c, x ∈ before := by
  induction hn : before.length using Nat.strongRecOn generalizing before with
  | _ n ih =>
      subst hn
      intro c hc
      rw [components_reverse, List.mem_append] at hc
      have hsub := List.dropWhile_sublist (fun c => decide (c ≠ 0x2f)) (l := before)
      rcases hc with hc | hc
      · by_cases hrest : (before.dropWhile fun c => c ≠ 0x2f).tail = []
        · rw [hrest, List.reverse_nil, components_nil] at hc
          cases hc
        · have hpos := List.length_pos_iff.mpr hrest
          have hle := hsub.length_le
          rw [List.length_tail] at hpos
          obtain ⟨hne, hslash, hmem⟩ := ih _ (by rw [List.length_tail]; omega) _ rfl c hc
          exact ⟨hne, hslash, fun x hx => hsub.mem (List.mem_of_mem_tail (hmem x hx))⟩
      · split at hc
        · cases hc
        · next hne =>
            rw [List.mem_singleton.mp hc]
            refine ⟨by simpa using hne, ?_, ?_⟩
            · intro hmem
              simpa using List.mem_takeWhile_imp (List.mem_reverse.mp hmem)
            · intro x hx
              exact (List.takeWhile_sublist _).mem (List.mem_reverse.mp hx)

theorem of_mem_components {path c : List UInt8} (hc : c ∈ components path) :
    c ≠ [] ∧ (0x2f : UInt8) ∉ c ∧ ∀ x ∈ c, x ∈ path := by
  rw [← List.reverse_reverse path] at hc
  obtain ⟨hne, hslash, hmem⟩ := of_mem_components_reverse _ c hc
  exact ⟨hne, hslash, fun x hx => List.mem_reverse.mp (hmem x hx)⟩

theorem cookieLoop_eq (before : List UInt8) :
    cookieLoop before =
      if ∃ c ∈ components before.reverse, 255 < c.length then .error (-0xff)
      else .ok (components before.reverse).reverse := by
  induction hn : before.length using Nat.strongRecOn generalizing before with
  | _ n ih =>
      subst hn
      rw [cookieLoop, components_reverse before]
      by_cases hlong : 255 < (before.takeWhile fun c => c ≠ 0x2f).length
      · have hne : before.takeWhile (fun c => c ≠ 0x2f) ≠ [] := by
          intro hnil
          rw [hnil] at hlong
          exact absurd hlong (by decide)
        rw [if_pos hlong, if_neg hne, if_pos]
        refine ⟨_, List.mem_append_right _ (List.mem_singleton.mpr rfl), ?_⟩
        rwa [List.length_reverse]
      · rw [if_neg hlong]
        obtain ⟨rest, hrest⟩ : ∃ rest, (before.dropWhile fun c => c ≠ 0x2f).tail = rest :=
          ⟨_, rfl⟩
        rw [hrest]
        have hmore : (if _hmore : rest = [] then Except.ok [] else cookieLoop rest) =
            if ∃ c ∈ components rest.reverse, 255 < c.length then Except.error (-0xff)
            else Except.ok (components rest.reverse).reverse := by
          split
          · next hnil => simp [hnil]
          · next hne =>
              have hle := (List.dropWhile_sublist (fun c => decide (c ≠ 0x2f))
                (l := before)).length_le
              have hpos := List.length_pos_iff.mpr hne
              have hlen := congrArg List.length hrest
              rw [List.length_tail] at hlen
              exact ih _ (by omega) _ rfl
        rw [hmore]
        by_cases hex : ∃ c ∈ components rest.reverse, 255 < c.length
        · obtain ⟨c, hc, hlen⟩ := hex
          rw [if_pos ⟨c, hc, hlen⟩, if_pos ⟨c, List.mem_append_left _ hc, hlen⟩]
          rfl
        · rw [if_neg hex, if_neg]
          · change Except.ok _ = _
            split <;> simp
          · rintro ⟨c, hc, hlen⟩
            rcases List.mem_append.mp hc with hc | hc
            · exact hex ⟨c, hc, hlen⟩
            · split at hc
              · cases hc
              · rw [List.mem_singleton.mp hc, List.length_reverse] at hlen
                exact hlong hlen

/-! ## The components of a reply -/

theorem length_packed (comps : List (List UInt8)) : (packed comps).length = packedSize comps := by
  induction comps with
  | nil => rfl
  | cons c comps ih =>
      rw [packed, List.flatMap_cons, List.length_append, List.length_cons, packedSize]
      exact congrArg _ ih

theorem packedSize_append (a b : List (List UInt8)) :
    packedSize (a ++ b) = packedSize a + packedSize b := by
  induction a with
  | nil => simp [packedSize]
  | cons c a ih =>
      rw [List.cons_append, packedSize, packedSize, ih]
      omega

theorem packedSize_reverse (comps : List (List UInt8)) :
    packedSize comps.reverse = packedSize comps := by
  induction comps with
  | nil => rfl
  | cons c comps ih =>
      rw [List.reverse_cons, packedSize_append, ih]
      simp only [packedSize]
      omega

/-- Components of at most 255 bytes are read as they were written. -/
theorem unpack_packed {comps : List (List UInt8)} (h : ∀ c ∈ comps, c.length ≤ 255) :
    unpack comps.length (packed comps) = comps := by
  induction comps with
  | nil => rfl
  | cons c comps ih =>
      obtain ⟨hc, hrest⟩ := List.forall_mem_cons.mp h
      have hlen : (UInt8.ofNat c.length).toNat = c.length := by
        rw [UInt8.toNat_ofNat']
        exact Nat.mod_eq_of_lt (by omega)
      change (c ++ packed comps).take (UInt8.ofNat c.length).toNat ::
        unpack comps.length ((c ++ packed comps).drop (UInt8.ofNat c.length).toNat) = _
      rw [hlen, List.take_left, List.drop_left, ih hrest]

/-! ## Putting a path together -/

/-- Components with slashes between them, behind a text. -/
def joinBehind (text : List UInt8) (comps : List (List UInt8)) : List UInt8 :=
  comps.foldl (fun text c => (if text = [] then [] else text ++ [0x2f]) ++ c) text

theorem joinBehind_cons (text c : List UInt8) (comps : List (List UInt8)) :
    joinBehind text (c :: comps) =
      joinBehind ((if text = [] then [] else text ++ [0x2f]) ++ c) comps := rfl

theorem components_joinBehind (text : List UInt8) {comps : List (List UInt8)}
    (h : ∀ c ∈ comps, c ≠ [] ∧ (0x2f : UInt8) ∉ c) :
    components (joinBehind text comps) = components text ++ comps := by
  induction comps generalizing text with
  | nil => exact (List.append_nil _).symm
  | cons c comps ih =>
      obtain ⟨⟨hne, hslash⟩, hrest⟩ := List.forall_mem_cons.mp h
      have hc : components ((if text = [] then [] else text ++ [0x2f]) ++ c) =
          components text ++ [c] := by
        have hlast := components_noSlash hslash
        rw [if_neg hne] at hlast
        split
        · next hnil => rw [hnil, components_nil, List.nil_append, hlast, List.nil_append]
        · rw [List.append_assoc, List.singleton_append, components_slash, hlast]
      rw [joinBehind_cons, ih _ hrest, hc, List.append_assoc, List.singleton_append]

theorem mem_joinBehind {text : List UInt8} {comps : List (List UInt8)} {x : UInt8}
    (hx : x ∈ joinBehind text comps) : x ∈ text ∨ x = 0x2f ∨ ∃ c ∈ comps, x ∈ c := by
  induction comps generalizing text with
  | nil => exact Or.inl hx
  | cons c comps ih =>
      rw [joinBehind_cons] at hx
      rcases ih hx with hmem | hslash | ⟨d, hd, hmem⟩
      · rcases List.mem_append.mp hmem with htext | hc
        · split at htext
          · cases htext
          · rcases List.mem_append.mp htext with htext | hslash
            · exact Or.inl htext
            · exact Or.inr (Or.inl (List.mem_singleton.mp hslash))
        · exact Or.inr (Or.inr ⟨c, List.mem_cons_self, hc⟩)
      · exact Or.inr (Or.inl hslash)
      · exact Or.inr (Or.inr ⟨d, List.mem_cons_of_mem _ hd, hmem⟩)

/-- The characters of a component are written as they are. -/
theorem foldlM_hpathChar (w : NsWorld φ) {cs : List UInt8} (hplain : ∀ c ∈ cs, IsPlain c)
    (s : PathBuild) (hroom : s.text.length + cs.length ≤ 511) :
    cs.foldlM (hpathChar w) s = .ok { s with text := s.text ++ cs } := by
  induction cs generalizing s with
  | nil => simp [pure, Except.pure]
  | cons c cs ih =>
      obtain ⟨hc, hrest⟩ := List.forall_mem_cons.mp hplain
      rw [List.length_cons] at hroom
      simp only [IsPlain, List.mem_cons, List.not_mem_nil, or_false, not_or] at hc
      have hchar : hpathChar w s c = .ok { s with text := s.text ++ [c] } := by
        rw [hpathChar, if_neg hc.2.2.2.2.2.1, if_neg hc.2.2.2.2.1, if_neg hc.2.2.2.2.2.2,
          if_neg hc.1, if_neg hc.2.1, PathBuild.put, if_pos (by omega)]
      rw [List.foldlM_cons, hchar]
      change cs.foldlM (hpathChar w) { s with text := s.text ++ [c] } = _
      rw [ih hrest _ (by simp; omega), List.append_assoc, List.singleton_append]

/-- The components of a path, behind the volume, are put together with slashes. -/
theorem hpathLoop_eq (w : NsWorld φ) {comps : List (List UInt8)}
    (hcomps : ∀ c ∈ comps, c ≠ [] ∧ ∀ x ∈ c, IsPlain x) (k : Nat) (s : PathBuild)
    (hvolume : s.volume ≠ none) (hroom : s.text.length + packedSize comps ≤ 511) :
    ∃ npbeg, hpathLoop w comps k s =
      .ok { s with text := joinBehind s.text comps, npbeg := npbeg } := by
  induction comps generalizing k s with
  | nil => exact ⟨s.npbeg, rfl⟩
  | cons c comps ih =>
      obtain ⟨⟨hne, hplain⟩, hrest⟩ := List.forall_mem_cons.mp hcomps
      rw [packedSize] at hroom
      obtain ⟨npbeg, hslash⟩ : ∃ npbeg, hpathSlash s =
          .ok { s with text := if s.text = [] then [] else s.text ++ [0x2f], npbeg := npbeg } := by
        unfold hpathSlash
        by_cases hnil : s.text = []
        · exact ⟨s.npbeg, by rw [if_pos hnil, if_pos hnil, ← hnil]⟩
        · rw [if_neg hnil, if_neg hnil, PathBuild.put, if_pos (by omega)]
          refine ⟨if (s.text ++ [0x2f])[s.npbeg]? = some 0x2f then s.npbeg + 1 else s.npbeg, ?_⟩
          change (Except.ok (if _ then _ else _) : Except (NsFault ⊕ Int) PathBuild) = _
          split <;> rfl
      have hlen : (if s.text = [] then [] else s.text ++ [0x2f]).length ≤ s.text.length + 1 := by
        split <;> simp
      have hcomp : hpathComponent w s k c = .ok { s with
          text := (if s.text = [] then [] else s.text ++ [0x2f]) ++ c, npbeg := npbeg } := by
        rw [hpathComponent, if_neg hne, if_neg (fun h => hvolume h.2), hslash]
        exact foldlM_hpathChar w hplain _ (by dsimp only; omega)
      have hlen' : ((if s.text = [] then [] else s.text ++ [0x2f]) ++ c).length ≤
          s.text.length + (c.length + 1) := by
        rw [List.length_append]
        omega
      obtain ⟨npbeg', hloop⟩ := ih hrest (k + 1) { s with
          text := (if s.text = [] then [] else s.text ++ [0x2f]) ++ c, npbeg := npbeg } hvolume
        (by dsimp only; omega)
      refine ⟨npbeg', ?_⟩
      rw [hpathLoop, hcomp]
      exact hloop

/-! ## The case of a path -/

section Case

variable {w : NsWorld φ} (htables : CaseTables w) (v : NsVol)

/-- `up_fn` or `down_fn` of a character. -/
def NsWorld.caseChar (w : NsWorld φ) (v : NsVol) (c : UInt8) : UInt8 :=
  if v.options.downshift then w.down c else w.up c

include htables in
theorem caseChar_idem (c : UInt8) : w.caseChar v (w.caseChar v c) = w.caseChar v c := by
  unfold NsWorld.caseChar
  split
  · exact htables.down_down c
  · exact htables.up_up c

include htables in
theorem up_caseChar (c : UInt8) : w.up (w.caseChar v c) = w.up c := by
  unfold NsWorld.caseChar
  split
  · exact htables.up_down c
  · exact htables.up_up c

include htables in
theorem caseChar_eq_slash {c : UInt8} : w.caseChar v c = 0x2f ↔ c = 0x2f := by
  constructor
  · intro h
    rw [← htables.up_slash, ← up_caseChar htables v c, h, htables.up_slash]
  · rintro rfl
    unfold NsWorld.caseChar
    split
    · exact htables.down_slash
    · exact (htables.up_slash _).mpr rfl

include htables in
theorem caseChar_ne_nul {c : UInt8} (hc : c ≠ 0) : w.caseChar v c ≠ 0 := by
  intro h
  have hup := up_caseChar htables v c
  rw [h, (htables.up_nul 0).mpr rfl] at hup
  exact hc ((htables.up_nul c).mp hup.symm)

include htables in
theorem caseFn_eq {text : List UInt8} (htext : (0 : UInt8) ∉ text) :
    w.caseFn v text = text.map (w.caseChar v) := by
  unfold NsWorld.caseFn
  have hfun : (if v.options.downshift then w.down else w.up) = w.caseChar v := by
    funext c
    unfold NsWorld.caseChar
    split <;> rfl
  rw [hfun, CText.visible_of_noNul]
  intro hmem
  obtain ⟨c, hc, hzero⟩ := List.mem_map.mp hmem
  exact caseChar_ne_nul htables v (ne_of_mem_of_not_mem hc htext) hzero

include htables in
/-- The login directory is found in any case. -/
theorem isLoginPath_case (text : List UInt8) :
    isLoginPath w (text.map (w.caseChar v)) ↔ isLoginPath w text := by
  have hdrop : (text.map (w.caseChar v)).dropWhile (fun c => c = 0x2f) =
      (text.dropWhile fun c => c = 0x2f).map (w.caseChar v) := by
    rw [List.dropWhile_map]
    congr 2
    funext c
    simp [caseChar_eq_slash htables v]
  unfold isLoginPath
  rw [hdrop, ← List.map_take, List.map_map]
  have hup : w.up ∘ w.caseChar v = w.up := funext (up_caseChar htables v)
  rw [hup]

/-- The test of a path behind its slashes. -/
def StartsWithLogin (w : NsWorld φ) (text : List UInt8) : Prop :=
  ((text.take 6).map w.up).take 5 = loginName ∧
    (((text.take 6).map w.up).getD 5 0 = 0 ∨ ((text.take 6).map w.up).getD 5 0 = 0x2f)

/-- Nothing, or a slash and what follows it. -/
def AtSlash (rest : List UInt8) : Prop := ∀ c, rest.head? = some c → c = 0x2f

include htables in
/-- Only the first component counts. -/
theorem startsWithLogin_append {c rest rest' : List UInt8} (hrest : AtSlash rest)
    (hrest' : AtSlash rest') (h : StartsWithLogin w (c ++ rest)) :
    StartsWithLogin w (c ++ rest') := by
  obtain ⟨hname, hend⟩ := h
  have hup : w.up 0x2f = 0x2f := (htables.up_slash _).mpr rfl
  -- a shorter component would have a slash, or nothing, among the letters of the name
  have hlong : 5 ≤ c.length := by
    by_contra hlt
    have hplace := congrArg (fun l => l[c.length]?) hname
    simp only [List.getElem?_take, List.getElem?_map, if_pos (show c.length < 5 by omega),
      if_pos (show c.length < 6 by omega), List.getElem?_append_right (Nat.le_refl _),
      Nat.sub_self, ← List.head?_eq_getElem?] at hplace
    cases hr : rest.head? with
    | none =>
        rw [hr] at hplace
        have hlen := List.getElem?_eq_none_iff.mp hplace.symm
        exact absurd hlen (by change ¬ 5 ≤ c.length; omega)
    | some x =>
        rw [hr, hrest x hr, Option.map_some, hup] at hplace
        have hmem := List.mem_of_getElem? hplace.symm
        exact absurd hmem (by decide)
  have htake : ∀ r : List UInt8, (((c ++ r).take 6).map w.up).take 5 = (c.take 5).map w.up := by
    intro r
    rw [← List.map_take, List.take_take]
    exact congrArg _ (List.take_append_of_le_length hlong)
  have hsixth : ∀ r : List UInt8,
      (((c ++ r).take 6).map w.up).getD 5 0 = (((c ++ r)[5]?).map w.up).getD 0 := by
    intro r
    rw [List.getD_eq_getElem?_getD, List.getElem?_map, List.getElem?_take, if_pos (by decide)]
  refine ⟨by rw [htake, ← htake rest, hname], ?_⟩
  rw [hsixth] at hend ⊢
  rcases Nat.lt_or_eq_of_le hlong with hlt | heq
  · rw [List.getElem?_append_left hlt] at hend ⊢
    exact hend
  · rw [List.getElem?_append_right (Nat.le_of_eq heq.symm), ← heq, Nat.sub_self,
      ← List.head?_eq_getElem?]
    cases hr : rest'.head? with
    | none => exact Or.inl rfl
    | some x =>
        rw [hrest' x hr]
        exact Or.inr hup

theorem components_dropSlashes (path : List UInt8) :
    components (path.dropWhile fun c => c = 0x2f) = components path := by
  induction path with
  | nil => rfl
  | cons c path ih =>
      by_cases hc : c = 0x2f
      · subst hc
        have hslash := components_slash [] path
        rw [List.nil_append, components_nil, List.nil_append] at hslash
        rw [List.dropWhile_cons_of_pos (by decide), ih, hslash]
      · rw [List.dropWhile_cons_of_neg (by simpa using hc)]

theorem joinBehind_eq {text : List UInt8} (hne : text ≠ []) (comps : List (List UInt8)) :
    ∃ rest, joinBehind text comps = text ++ rest ∧ AtSlash rest := by
  induction comps generalizing text with
  | nil => exact ⟨[], (List.append_nil _).symm, by rintro c ⟨⟩⟩
  | cons c comps ih =>
      obtain ⟨rest, hjoin, -⟩ := @ih (text ++ [0x2f] ++ c) (by simp)
      refine ⟨0x2f :: (c ++ rest), ?_, by rintro x ⟨⟩; rfl⟩
      rw [joinBehind_cons, if_neg hne, hjoin]
      simp

include htables in
/-- The path that is put together from the components of a path is below the login
directory if the path is. -/
theorem isLoginPath_join {path : List UInt8} (h : isLoginPath w path) :
    isLoginPath w (joinBehind [] (components path)) := by
  obtain ⟨text, htext⟩ : ∃ text, (path.dropWhile fun c => c = 0x2f) = text := ⟨_, rfl⟩
  have hstarts : StartsWithLogin w text := htext ▸ h
  have hhead : ∀ c, text.head? = some c → c ≠ 0x2f := by
    intro c hc
    have := List.head?_dropWhile_not (fun c => decide (c = 0x2f)) path
    rw [htext, hc] at this
    simpa using this
  rw [← components_dropSlashes, htext]
  cases text with
  | nil => exact absurd hstarts.1 (by change ¬ [] = loginName; decide)
  | cons x text =>
      have hx : x ≠ 0x2f := hhead x rfl
      obtain ⟨c, hc⟩ : ∃ c, ((x :: text).takeWhile fun c => c ≠ 0x2f) = c := ⟨_, rfl⟩
      obtain ⟨rest, hrest⟩ : ∃ rest, ((x :: text).dropWhile fun c => c ≠ 0x2f) = rest := ⟨_, rfl⟩
      have hsplit : c ++ rest = x :: text := by
        rw [← hc, ← hrest]
        exact List.takeWhile_append_dropWhile
      have hslash : (0x2f : UInt8) ∉ c := by
        intro hmem
        rw [← hc] at hmem
        simpa using List.mem_takeWhile_imp hmem
      have hcx : c = x :: c.tail := by
        rw [← hc, List.takeWhile_cons_of_pos (by simpa using hx)]
        rfl
      have hne : c ≠ [] := by
        rw [hcx]
        exact List.cons_ne_nil _ _
      have hat : AtSlash rest := by
        intro y hy
        have := List.head?_dropWhile_not (fun c => decide (c ≠ 0x2f)) (x :: text)
        rw [hrest, hy] at this
        simpa using this
      obtain ⟨more, hmore⟩ : ∃ more, components (x :: text) = c :: more := by
        have hfirst := components_noSlash hslash
        rw [if_neg hne] at hfirst
        rw [← hsplit]
        cases rest with
        | nil => exact ⟨[], by rw [List.append_nil, hfirst]⟩
        | cons y rest =>
            rw [hat y rfl]
            exact ⟨components rest, by rw [components_slash, hfirst, List.singleton_append]⟩
      obtain ⟨behind, hjoin, hbehind⟩ := joinBehind_eq hne more
      have hjoin' : joinBehind [] (components (x :: text)) = c ++ behind := by
        rw [hmore, joinBehind_cons, if_pos rfl, List.nil_append, hjoin]
      rw [hjoin']
      have hdrop : (c ++ behind).dropWhile (fun c => c = 0x2f) = c ++ behind := by
        rw [hcx, List.cons_append, List.dropWhile_cons_of_neg (by simpa using hx)]
      change StartsWithLogin w ((c ++ behind).dropWhile fun c => c = 0x2f)
      rw [hdrop]
      exact startsWithLogin_append htables hat hbehind (hsplit ▸ hstarts)

end Case

/-! ## The round trip -/

section RoundTrip

variable {w : NsWorld φ} {fs : φ} {namespaceId : UInt8} {dbe : DirBaseEntry} {v : NsVol}

/-- What the path of an entry has gone through. -/
theorem BuiltBy.facts (htables : CaseTables w) (hbuilt : BuiltBy w fs namespaceId dbe)
    (hvolume : w.volumes[dbe.volume]? = some v)
    (hns : namespaceId = nameNfs ∨ namespaceId = nameOs2 ∧ v.options.igncase = false) :
    (0 : UInt8) ∉ dbe.path ∧
      (namespaceId = nameOs2 → ∀ c ∈ dbe.path, w.caseChar v c = c) ∧
      ¬(w.LoginOnly ∧ ¬(dbe.volume = 0 ∧ isLoginPath w dbe.path)) := by
  obtain ⟨volume, path, nwp, hbuilt⟩ := hbuilt
  rw [addHpathToNwpath] at hbuilt
  cases hloop : hpathLoop w nwp.components 0 ⟨volume, path, path.length⟩ with
  | error e =>
      rw [hloop] at hbuilt
      cases hbuilt
  | ok s =>
      simp only [hloop, bind, Except.bind] at hbuilt
      split at hbuilt
      · cases hbuilt
      · next vol hvol =>
          split at hbuilt
          · cases hbuilt
          · next hlogin =>
              obtain ⟨rfl, hpath⟩ := Prod.mk.inj (Except.ok.inj hbuilt)
              have hnul := CText.noNul_visible s.text
              rcases hns with rfl | ⟨rfl, hcase⟩
              · rw [hpathCase, if_pos (by decide)] at hpath
                rw [← hpath]
                exact ⟨hnul, by rintro ⟨⟩, hlogin⟩
              · rw [hpathCase, if_neg (by decide), hvolume] at hpath
                dsimp only at hpath
                rw [hcase, if_pos (by rfl), caseFn_eq htables v hnul] at hpath
                rw [← hpath]
                refine ⟨?_, ?_, ?_⟩
                · intro hmem
                  obtain ⟨c, hc, hzero⟩ := List.mem_map.mp hmem
                  exact caseChar_ne_nul htables v (ne_of_mem_of_not_mem hc hnul) hzero
                · intro _ c hc
                  obtain ⟨x, -, rfl⟩ := List.mem_map.mp hc
                  exact caseChar_idem htables v x
                · rwa [isLoginPath_case htables v]

theorem pathCookies_eq (path : List UInt8) :
    pathCookies path =
      if ∃ c ∈ components path, 255 < c.length then .error (-0xff)
      else .ok (components path).reverse := by
  have hroot : components [0x2f] = [] := by
    rw [← components_dropSlashes]
    rfl
  unfold pathCookies
  split
  · next hnil =>
      have hnone : components path = [] := by
        rcases hnil with hnil | hnil
        · rw [hnil, components_nil]
        · rw [hnil, hroot]
      simp [hnone]
  · rw [cookieLoop_eq, List.reverse_reverse]

/-- The name of a volume as the call reads it. -/
def sysnameOf (w : NsWorld φ) (volume : Nat) : List UInt8 :=
  (w.volumes[volume]?.map fun v => v.sysname).getD []

/-- The components that the call gives out. -/
theorem fullPathOf_eq (hns : namespaceId ≠ nameDos) (cookie1 cookie2 : UInt32) :
    fullPathOf w namespaceId dbe cookie1 cookie2 =
      if cookie1 ≠ 0xffffffff ∨ cookie2 ≠ 0xffffffff then .error (-0xff)
      else if 256 < dbe.path.length then .error (-0xfb)
      else if (∃ c ∈ components dbe.path, 255 < c.length) ∨
          400 < packedSize (components dbe.path ++ [sysnameOf w dbe.volume]) then .error (-0xff)
      else
        let all := (components dbe.path).reverse ++ [sysnameOf w dbe.volume]
        .ok ⟨if dbe.statb.isDir then 0 else 1, 0, 0xffffffff, all.length, packed all,
          packedSize all⟩ := by
  have hsize : packedSize ((components dbe.path).reverse ++ [sysnameOf w dbe.volume]) =
      packedSize (components dbe.path ++ [sysnameOf w dbe.volume]) := by
    rw [packedSize_append, packedSize_append, packedSize_reverse]
  rw [fullPathOf, pathCookies_eq]
  by_cases hcookies : cookie1 ≠ 0xffffffff ∨ cookie2 ≠ 0xffffffff
  · rw [if_pos hcookies, if_pos hcookies]
  rw [if_neg hcookies, if_neg hcookies]
  by_cases hpath : 256 < dbe.path.length
  · rw [if_pos hpath, if_pos hpath]
  rw [if_neg hpath, if_neg hpath]
  by_cases hlong : ∃ c ∈ components dbe.path, 255 < c.length
  · rw [if_pos hlong, if_pos (Or.inl hlong)]
    rfl
  · rw [if_neg hlong]
    change (if 400 < packedSize ((if namespaceId = nameDos then _ else
      (components dbe.path).reverse) ++ [sysnameOf w dbe.volume]) then _ else _) = _
    rw [if_neg hns, hsize]
    by_cases hbig : 400 < packedSize (components dbe.path ++ [sysnameOf w dbe.volume])
    · rw [if_pos hbig, if_pos (Or.inr hbig)]
    · rw [if_neg hbig, if_neg (not_or.mpr ⟨hlong, hbig⟩)]
      rfl

/-- The path that a client gets when it gives the components back. -/
theorem givesBack (htables : CaseTables w) (hbuilt : BuiltBy w fs namespaceId dbe)
    (hvolume : w.volumes[dbe.volume]? = some v)
    (hns : namespaceId = nameNfs ∨ namespaceId = nameOs2 ∧ v.options.igncase = false)
    (hlen : dbe.path.length ≤ 256) (hplain : ∀ c ∈ dbe.path, IsPlain c)
    (hname : FoundByName w dbe.volume v) {r : FullPath}
    (hr : fullPathOf w namespaceId dbe 0xffffffff 0xffffffff = .ok r) :
    GivesBack w namespaceId dbe r := by
  obtain ⟨hnul, hcase, hlogin⟩ := hbuilt.facts htables hvolume hns
  have hdos : namespaceId ≠ nameDos := by
    rcases hns with rfl | ⟨rfl, -⟩ <;> decide
  have hsysname : sysnameOf w dbe.volume = v.sysname := by rw [sysnameOf, hvolume]; rfl
  rw [fullPathOf_eq hdos, if_neg (by decide), if_neg (Nat.not_lt.mpr hlen), hsysname] at hr
  split at hr
  · cases hr
  · next hbounds =>
      rw [not_or] at hbounds
      obtain rfl := Except.ok.inj hr
      have hshort : ∀ c ∈ (components dbe.path).reverse ++ [v.sysname], c.length ≤ 255 := by
        intro c hc
        rcases List.mem_append.mp hc with hc | hc
        · by_contra hlong
          exact hbounds.1 ⟨c, List.mem_reverse.mp hc, by omega⟩
        · rw [List.mem_singleton.mp hc]
          exact hname.length_le
      refine ⟨by simp, (length_packed _).symm, fun fs => ?_⟩
      have hcomps : ∀ c ∈ components dbe.path, c ≠ [] ∧ ∀ x ∈ c, IsPlain x := by
        intro c hc
        obtain ⟨hne, -, hmem⟩ := of_mem_components hc
        exact ⟨hne, fun x hx => hplain x (hmem x hx)⟩
      have hsize : packedSize (components dbe.path) ≤ 511 := by
        have := hbounds.2
        rw [packedSize_append] at this
        omega
      obtain ⟨npbeg, hloop⟩ := hpathLoop_eq w hcomps 1 ⟨some dbe.volume, [], 0⟩ (by simp)
        (by simpa using hsize)
      -- the first component is the name of the volume
      have hwhole : hpathLoop w (v.sysname :: components dbe.path) 0 ⟨none, [], 0⟩ =
          .ok ⟨some dbe.volume, joinBehind [] (components dbe.path), npbeg⟩ := by
        rw [hpathLoop, hpathComponent, if_neg hname.ne_nil, if_pos ⟨rfl, rfl⟩, hname.found]
        exact hloop
      have hjoin : (0 : UInt8) ∉ joinBehind [] (components dbe.path) ∧
          (namespaceId = nameOs2 →
            ∀ x ∈ joinBehind [] (components dbe.path), w.caseChar v x = x) := by
        have hfrom : ∀ x ∈ joinBehind [] (components dbe.path), x = 0x2f ∨ x ∈ dbe.path := by
          intro x hx
          rcases mem_joinBehind hx with hx | hx | ⟨c, hc, hx⟩
          · cases hx
          · exact Or.inl hx
          · exact Or.inr ((of_mem_components hc).2.2 x hx)
        refine ⟨fun hmem => ?_, fun hos2 x hx => ?_⟩
        · rcases hfrom 0 hmem with h | h
          · cases h
          · exact hnul h
        · rcases hfrom x hx with rfl | h
          · exact (caseChar_eq_slash htables v).mpr rfl
          · exact hcase hos2 x h
      refine ⟨joinBehind [] (components dbe.path), ?_, ?_⟩
      · have hback : (unpack ((components dbe.path).reverse ++ [v.sysname]).length
            (packed ((components dbe.path).reverse ++ [v.sysname]))).reverse =
              v.sysname :: components dbe.path := by
          rw [unpack_packed hshort]
          simp
        have hvisible := CText.visible_of_noNul hjoin.1
        have hlogin' : ¬(w.LoginOnly ∧ ¬(dbe.volume = 0 ∧
            isLoginPath w (CText.visible (joinBehind [] (components dbe.path))))) := by
          rintro ⟨honly, hnot⟩
          refine hlogin ⟨honly, fun hpath => hnot ⟨hpath.1, ?_⟩⟩
          rw [hvisible]
          exact isLoginPath_join htables hpath.2
        have hcased : hpathCase w fs namespaceId dbe.volume
            ⟨some dbe.volume, joinBehind [] (components dbe.path), npbeg⟩ =
              joinBehind [] (components dbe.path) := by
          rcases hns with rfl | ⟨rfl, hign⟩
          · rw [hpathCase, if_pos (by decide), hvisible]
          · rw [hpathCase, if_neg (by decide), hvolume]
            dsimp only
            rw [hign, if_pos (by rfl), hvisible, caseFn_eq htables v hjoin.1]
            exact (List.map_congr_left (hjoin.2 rfl)).trans (List.map_id _)
        rw [addHpathToNwpath, FullPath.hpath, hback]
        change (hpathLoop w (v.sysname :: components dbe.path) 0 ⟨none, [], 0⟩).bind _ = _
        rw [hwhole]
        change (if w.LoginOnly ∧ _ then _ else _) = _
        rw [if_neg hlogin', hcased]
      · rw [components_joinBehind [] fun c hc => ⟨(hcomps c hc).1, (of_mem_components hc).2.1⟩]
        simp

/-- The call gives out the components of the path unless they are too long, and what it
gives out leads back to the volume and to the components, if the volume is found under
its name. -/
theorem fullPath_givesBack (htables : CaseTables w) (hbuilt : BuiltBy w fs namespaceId dbe)
    (hvolume : w.volumes[dbe.volume]? = some v)
    (hns : namespaceId = nameNfs ∨ namespaceId = nameOs2 ∧ v.options.igncase = false)
    (hlen : dbe.path.length ≤ 256) (hplain : ∀ c ∈ dbe.path, IsPlain c)
    (hname : FoundByName w dbe.volume v) :
    ((∃ r, fullPathOf w namespaceId dbe 0xffffffff 0xffffffff = .ok r) ↔
      (∀ c ∈ components dbe.path, c.length ≤ 255) ∧
        packedSize (components dbe.path ++ [v.sysname]) ≤ 400) ∧
    ∀ r, fullPathOf w namespaceId dbe 0xffffffff 0xffffffff = .ok r →
      GivesBack w namespaceId dbe r := by
  have hdos : namespaceId ≠ nameDos := by
    rcases hns with rfl | ⟨rfl, -⟩ <;> decide
  refine ⟨?_, fun r hr => givesBack htables hbuilt hvolume hns hlen hplain hname hr⟩
  have hsysname : sysnameOf w dbe.volume = v.sysname := by rw [sysnameOf, hvolume]; rfl
  rw [fullPathOf_eq hdos, if_neg (by decide), if_neg (Nat.not_lt.mpr hlen), hsysname]
  constructor
  · rintro ⟨r, hr⟩
    split at hr
    · cases hr
    · next hbounds =>
        rw [not_or] at hbounds
        refine ⟨fun c hc => ?_, Nat.not_lt.mp hbounds.2⟩
        by_contra hlong
        exact hbounds.1 ⟨c, hc, Nat.not_le.mp hlong⟩
  · rintro ⟨hshort, hsize⟩
    rw [if_neg]
    · exact ⟨_, rfl⟩
    · rintro (⟨c, hc, hlong⟩ | hbig)
      · exact absurd (hshort c hc) (Nat.not_le.mpr hlong)
      · exact absurd hsize (Nat.not_le.mpr hbig)

end RoundTrip

theorem packedSize_eq_sum (comps : List (List UInt8)) :
    packedSize comps = (comps.map fun c => c.length + 1).sum := by
  induction comps with
  | nil => rfl
  | cons c comps ih => rw [packedSize, ih, List.map_cons, List.sum_cons]

/-- The request returns the size of the reply. -/
theorem nwGetFullPathCookies_eq (w : NsWorld φ) {namespaceId : UInt8} (hns : namespaceId ≠ nameDos)
    (nwp : NwHpath) (cookie1 cookie2 : UInt32) :
    nwGetFullPathCookies w namespaceId nwp cookie1 cookie2 = do
      let (result, _) ← buildBase w namespaceId nwp false
      if result < 0 then return result
      let dbe ← entryAt result.toNat
      return match fullPathOf w namespaceId dbe cookie1 cookie2 with
        | .ok r => r.len
        | .error result => result := by
  unfold nwGetFullPathCookies
  refine bind_congr fun found => ?_
  obtain ⟨result, -⟩ := found
  dsimp only
  split
  · rfl
  refine bind_congr fun dbe => ?_
  rw [fullPathOf_eq hns, packedSize_eq_sum]
  have hany : ((dbe.path.splitOn 0x2f).filter (· ≠ [])).any (255 < ·.length) = true ↔
      ∃ c ∈ components dbe.path, 255 < c.length := by
    rw [List.any_eq_true]
    simp only [decide_eq_true_eq]
    rfl
  change (if _ then _ else if _ then _ else if ((((dbe.path.splitOn 0x2f).filter (· ≠ [])).any
    fun c : List UInt8 => 255 < c.length) = true ∨
      400 < ((components dbe.path ++ [sysnameOf w dbe.volume]).map
        fun c : List UInt8 => c.length + 1).sum) then _ else _) = _
  by_cases hcookies : cookie1 ≠ 0xffffffff ∨ cookie2 ≠ 0xffffffff
  · rw [if_pos hcookies, if_pos hcookies]
  rw [if_neg hcookies, if_neg hcookies]
  by_cases hpath : 256 < dbe.path.length
  · rw [if_pos hpath, if_pos hpath]
  rw [if_neg hpath, if_neg hpath]
  by_cases hbounds : (∃ c ∈ components dbe.path, 255 < c.length) ∨
      400 < ((components dbe.path ++ [sysnameOf w dbe.volume]).map fun c => c.length + 1).sum
  · rw [if_pos (hbounds.imp hany.mpr id), if_pos hbounds]
  · rw [if_neg (mt (Or.imp hany.mp id) hbounds), if_neg hbounds]
    dsimp only
    rw [packedSize_append, packedSize_reverse, ← packedSize_append, packedSize_eq_sum]
    rfl

/-- Without a conversion table the tables are those of the code. -/
theorem caseTables_of_none {w : NsWorld φ} (h : w.conv = none) : CaseTables w := by
  have hup : w.up = upChar := by rw [NsWorld.up, h]; rfl
  have hdown : w.down = downChar := by rw [NsWorld.down, h]; rfl
  have hall : ∀ n : Fin 256, upChar (upChar (UInt8.ofFin n)) = upChar (UInt8.ofFin n) ∧
      downChar (downChar (UInt8.ofFin n)) = downChar (UInt8.ofFin n) ∧
      upChar (downChar (UInt8.ofFin n)) = upChar (UInt8.ofFin n) ∧
      (upChar (UInt8.ofFin n) = 0x2f ↔ UInt8.ofFin n = 0x2f) := by
    decide +kernel
  constructor
  · exact fun c => by rw [hup]; exact (hall c.toFin).1
  · exact fun c => by rw [hdown]; exact (hall c.toFin).2.1
  · exact fun c => by rw [hup, hdown]; exact (hall c.toFin).2.2.1
  · exact fun c => by rw [hup]; exact (hall c.toFin).2.2.2
  · rw [hdown]; rfl
  · intro c
    rw [hup]
    exact ⟨upChar_eq_zero c, by rintro rfl; rfl⟩

/-! ## Volumes of one name -/

/-- A volume `SYS`. -/
def sysVol : NsVol where
  sysname := asciiBytes ['S', 'Y', 'S']
  unixname := [0x2f]
  options := ⟨false, false, false, false⟩
  noNul := by decide
  ends := Or.inr rfl
  readonly := false
  oneDev := false
  os2 := false
  nfs := true

/-- The file `A/B` of the first volume. -/
def entryAB : DirBaseEntry := ⟨0, 1, 0, 0, 0, [0x41, 0x2f, 0x42], BaseTable.noStat⟩

theorem builtBy_entryAB (volumes : List NsVol) :
    BuiltBy { emptyWorld with volumes := volumes } () nameNfs entryAB :=
  ⟨some 0, [0x41], ⟨0, 0, 0, [[0x42]]⟩, rfl⟩

/-- One volume `SYS`. -/
theorem fullPath_givesBack_sys :
    let w : NsWorld Unit := { emptyWorld with volumes := [sysVol] }
    ((∃ r, fullPathOf w nameNfs entryAB 0xffffffff 0xffffffff = .ok r) ↔
      (∀ c ∈ components entryAB.path, c.length ≤ 255) ∧
        packedSize (components entryAB.path ++ [sysVol.sysname]) ≤ 400) ∧
    ∀ r, fullPathOf w nameNfs entryAB 0xffffffff 0xffffffff = .ok r →
      GivesBack w nameNfs entryAB r :=
  fullPath_givesBack (v := sysVol) (caseTables_of_none rfl) (builtBy_entryAB [sysVol]) rfl
    (Or.inl rfl) (by decide) (by decide +kernel)
    ⟨by decide +kernel, by decide +kernel, by decide +kernel⟩

/-- The reply for it. -/
def replyAB : FullPath := ⟨1, 0, 0xffffffff, 3, packed [[0x42], [0x41], sysVol.sysname], 8⟩

/-- Two volumes `SYS`: the path of a file of the first one leads to the second one. -/
theorem not_givesBack_twoSys :
    let w : NsWorld Unit := { emptyWorld with volumes := [sysVol, sysVol] }
    BuiltBy w () nameNfs entryAB ∧ entryAB.path.length ≤ 256 ∧ (∀ c ∈ entryAB.path, IsPlain c) ∧
      ∃ r, fullPathOf w nameNfs entryAB 0xffffffff 0xffffffff = .ok r ∧
        ¬GivesBack w nameNfs entryAB r := by
  intro w
  have hreply : fullPathOf w nameNfs entryAB 0xffffffff 0xffffffff =
      .ok replyAB := by
    rw [fullPathOf_eq (by decide)]
    rfl
  refine ⟨builtBy_entryAB _, by decide +kernel, by decide +kernel, _, hreply, ?_⟩
  rintro ⟨-, -, hback⟩
  obtain ⟨path, hpath, -⟩ := hback ()
  have hother : addHpathToNwpath w () nameNfs none [] replyAB.hpath =
      .ok (1, [0x41, 0x2f, 0x42]) := rfl
  cases hother.symm.trans hpath

end MarsNwe.NameSpace
