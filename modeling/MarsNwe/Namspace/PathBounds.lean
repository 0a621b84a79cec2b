import MarsNwe.Lib.Logged
import MarsNwe.Namspace.NwPaths

/-! # The array of a path

`path` of `N_NW_PATH` has 512 bytes. `add_hpath_to_nwpath` writes to it through
`pp`, which it never compares with the end of the array.
-/

namespace MarsNwe.NameSpace

open Logged

variable {φ : Type}

/-! ## The code -/

/-- A routine that writes to `path`; its log tells to which places. -/
abbrev PathWrites := Logged Int Nat

/-- The byte that stands for a byte of a component. -/
def hpathByte (c : UInt8) : UInt8 :=
  if c = 0xae then 0x2e
  else if c = 0xaa then 0x2a
  else if c = 0xbf then 0x3f
  else if c = 0x5c then 0x2f
  else c

/-- `*pp++ = c` -/
def storeByte (s : PathBuild) (c : UInt8) : PathWrites PathBuild := do
  emit s.text.length
  pure { s with text := s.text ++ [c] }

/-- The zero byte at `pp`. -/
def terminate (s : PathBuild) : PathWrites PathBuild := do
  emit s.text.length
  pure s

/-- A volume name: the path starts anew. -/
def enterVolume (w : NsWorld φ) (volname : List UInt8) : PathWrites PathBuild :=
  match nwGetVolumeNumber w volname with
  | some volume => terminate ⟨some volume, [], 0⟩
  | none => stop (-0x98)

/-- One character of a component. -/
def writeChar (w : NsWorld φ) (s : PathBuild) (c : UInt8) : PathWrites PathBuild :=
  if c = 0x3a then enterVolume w s.text else storeByte s (hpathByte c)

/-- The slash before a component. -/
def writeSlash (s : PathBuild) : PathWrites PathBuild :=
  if s.text = [] then pure s
  else do
    let s ← storeByte s 0x2f
    terminate (if s.text[s.npbeg]? = some 0x2f then { s with npbeg := s.npbeg + 1 } else s)

/-- One component. -/
def writeComponent (w : NsWorld φ) (s : PathBuild) (k : Nat) (comp : List UInt8) :
    PathWrites PathBuild :=
  if comp = [] then
    if s.text = [] then stop (-0x9c)
    else
      let path := dropLastComp (CText.visible s.text)
      terminate { s with text := path, npbeg := path.length }
  else if k = 0 ∧ s.volume = none then enterVolume w comp
  else do
    let s ← writeSlash s
    let s ← comp.foldlM (writeChar w) s
    terminate s

/-- The loop of `add_hpath_to_nwpath` from component `k` on. -/
def writeLoop (w : NsWorld φ) : List (List UInt8) → (k : Nat) → PathBuild → PathWrites PathBuild
  | [], _, s => pure s
  | comp :: comps, k, s => do
      let s ← writeComponent w s k comp
      writeLoop w comps (k + 1) s

/-- `memcpy` to the places from `start` to before `stop`. -/
def writeRange (start stop : Nat) : PathWrites Unit := ⟨.ok (), List.range' start (stop - start)⟩

/-- The path gets its case: what is behind `npbeg` is copied back from the name on
disk, or all of it is changed in place. -/
def writeCase (w : NsWorld φ) (namespaceId : UInt8) (volume : Nat) (s : PathBuild) :
    PathWrites Unit :=
  if namespaceId ≠ nameDos ∧ namespaceId ≠ nameOs2 then pure ()
  else if (w.volumes[volume]?.any fun v => v.options.igncase) then
    writeRange s.npbeg s.text.length
  else writeRange 0 (CText.visible s.text).length

/-- `add_hpath_to_nwpath`, as far as it writes to `path`. -/
def writeHpath (w : NsWorld φ) (namespaceId : UInt8) (volume : Option Nat) (path : List UInt8)
    (nwp : NwHpath) : PathWrites Unit := do
  let s ← writeLoop w nwp.components 0 ⟨volume, path, path.length⟩
  match s.volume with
  | none => stop (-0x9c)
  | some volume =>
      if w.LoginOnly ∧ ¬(volume = 0 ∧ isLoginPath w (CText.visible s.text)) then stop (-0x9c)
      else writeCase w namespaceId volume s

/-! ## Room for a component -/

/-- A place in the array. -/
def InPath (i : Nat) : Prop := i < 512

/-- A component and what ends it fit behind the path. Only the bytes before a first
colon count: the volume that they should name may be none, and then no zero byte
is written behind them, or it starts the path anew. -/
def ComponentFits (s : PathBuild) (k : Nat) (comp : List UInt8) : Prop :=
  comp = [] ∨ (k = 0 ∧ s.volume = none) ∨
    let start := if s.text = [] then 0 else s.text.length + 1
    let stop := start + (comp.takeWhile fun c => c ≠ 0x3a).length
    start < 512 ∧ (stop < 512 ∨ stop = 512 ∧ 0x3a ∈ comp)

/-- Each component in turn fits behind the path that the ones before it make. -/
def ComponentsFit (w : NsWorld φ) : List (List UInt8) → (k : Nat) → PathBuild → Prop
  | [], _, _ => True
  | comp :: comps, k, s =>
      ComponentFits s k comp ∧
        ∀ s', (writeComponent w s k comp).result = .ok s' → ComponentsFit w comps (k + 1) s'

theorem length_dropLastComp_le (path : List UInt8) : (dropLastComp path).length ≤ path.length := by
  rw [dropLastComp, List.length_dropLast]
  have hle := (List.rdropWhile_prefix (fun c => decide (c ≠ 0x2f)) (l := path)).length_le
  omega

/-- What ends well with a zero byte has it inside. -/
theorem length_of_terminate {P : Nat → Prop} {m : PathWrites PathBuild} {s : PathBuild}
    (h : LogsOnly P (m >>= terminate)) (hs : (m >>= terminate).result = .ok s) :
    P s.text.length := by
  rw [logsOnly_bind] at h
  rw [result_bind] at hs
  cases hm : m.result with
  | error e =>
      rw [hm] at hs
      contradiction
  | ok s' =>
      rw [hm] at hs
      obtain rfl : s' = s := Except.ok.inj hs
      exact h.2 s' hm _ (List.mem_singleton.mpr rfl)

@[simp] theorem logsOnly_terminate {P : Nat → Prop} {s : PathBuild} :
    LogsOnly P (terminate s) ↔ P s.text.length := by
  simp [terminate]

@[simp] theorem result_terminate (s : PathBuild) : (terminate s).result = .ok s := rfl

@[simp] theorem logsOnly_storeByte {P : Nat → Prop} {s : PathBuild} {c : UInt8} :
    LogsOnly P (storeByte s c) ↔ P s.text.length := by
  simp [storeByte]

@[simp] theorem result_storeByte (s : PathBuild) (c : UInt8) :
    (storeByte s c).result = .ok { s with text := s.text ++ [c] } := rfl

/-- The characters of a component, and the zero byte behind them. -/
theorem logsOnly_chars (w : NsWorld φ) {cs : List UInt8} (hcs : cs.length ≤ 255) {s : PathBuild}
    (hs : s.text.length ≤ 512) :
    LogsOnly InPath (cs.foldlM (writeChar w) s >>= terminate) ↔
      s.text.length + (cs.takeWhile fun c => c ≠ 0x3a).length < 512 ∨
        s.text.length + (cs.takeWhile fun c => c ≠ 0x3a).length = 512 ∧ 0x3a ∈ cs := by
  induction cs generalizing s with
  | nil => simp [InPath]
  | cons c cs ih =>
      have hlen : cs.length ≤ 255 := by
        rw [List.length_cons] at hcs
        omega
      rw [List.foldlM_cons, Logged.bind_assoc]
      by_cases hcolon : c = 0x3a
      · -- Behind a volume name the rest of the component fits in any case.
        subst hcolon
        have hfirst : ((0x3a :: cs).takeWhile fun c => c ≠ 0x3a) = [] := rfl
        rw [hfirst, List.length_nil, Nat.add_zero]
        refine iff_of_true ?_ ((Nat.lt_or_eq_of_le hs).imp id fun h => ⟨h, List.mem_cons_self⟩)
        rw [writeChar, if_pos rfl, enterVolume]
        cases nwGetVolumeNumber w s.text with
        | none => exact logsOnly_bind.mpr ⟨logsOnly_stop _, fun _ ha => by contradiction⟩
        | some volume =>
            refine logsOnly_bind.mpr ⟨logsOnly_terminate.mpr (Nat.zero_lt_succ _), fun s' hs' => ?_⟩
            obtain rfl := Except.ok.inj hs'
            have hle := (cs.takeWhile_prefix fun c => c ≠ 0x3a).length_le
            exact (ih hlen (Nat.zero_le _)).mpr (.inl (by rw [List.length_nil]; omega))
      · have hfirst : ((c :: cs).takeWhile fun c => c ≠ 0x3a) =
            c :: cs.takeWhile fun c => c ≠ 0x3a := by
          rw [List.takeWhile_cons, if_pos (by simpa using hcolon)]
        have hmem : 0x3a ∈ c :: cs ↔ 0x3a ∈ cs := by
          rw [List.mem_cons, or_iff_right (Ne.symm hcolon)]
        rw [writeChar, if_neg hcolon, logsOnly_bind, logsOnly_storeByte, hfirst, hmem,
          List.length_cons]
        have hstored : (s.text ++ [hpathByte c]).length = s.text.length + 1 := by simp
        constructor
        · intro h
          have hrest := (ih hlen (by rw [hstored]; exact h.1)).mp (h.2 _ rfl)
          rw [hstored] at hrest
          exact hrest.imp (fun hlt => by omega) fun heq => ⟨by omega, heq.2⟩
        · intro h
          have hroom : s.text.length < 512 := by
            rcases h with hlt | ⟨heq, -⟩ <;> omega
          refine ⟨hroom, fun s' hs' => ?_⟩
          obtain rfl := Except.ok.inj hs'
          refine (ih hlen (by rw [hstored]; exact hroom)).mpr ?_
          rw [hstored]
          exact h.imp (fun hlt => by omega) fun heq => ⟨by omega, heq.2⟩

/-- A component is written inside the array exactly when it fits, and then the path
before the next one is inside, too. -/
theorem logsOnly_writeComponent (w : NsWorld φ) {s : PathBuild} (hs : s.text.length < 512) (k : Nat)
    {comp : List UInt8} (hcomp : comp.length ≤ 255) :
    LogsOnly InPath (writeComponent w s k comp) ↔ ComponentFits s k comp := by
  unfold writeComponent ComponentFits
  by_cases hup : comp = []
  · rw [if_pos hup]
    refine iff_of_true ?_ (.inl hup)
    split
    next => exact logsOnly_stop _
    next =>
      dsimp only
      have hle := length_dropLastComp_le (CText.visible s.text)
      have hvisible := (List.takeWhile_prefix (l := s.text) fun c => c ≠ 0).length_le
      rw [logsOnly_terminate]
      exact lt_of_le_of_lt (hle.trans hvisible) hs
  rw [if_neg hup, or_iff_right hup]
  by_cases hvolume : k = 0 ∧ s.volume = none
  · rw [if_pos hvolume]
    refine iff_of_true ?_ (.inl hvolume)
    unfold enterVolume
    split
    next => exact logsOnly_terminate.mpr (Nat.zero_lt_succ _)
    next => exact logsOnly_stop _
  rw [if_neg hvolume, or_iff_right hvolume]
  unfold writeSlash
  by_cases hempty : s.text = []
  · rw [if_pos hempty, if_pos hempty]
    change LogsOnly InPath (comp.foldlM (writeChar w) s >>= terminate) ↔ _
    rw [logsOnly_chars w hcomp (by omega), hempty]
    exact (and_iff_right (by decide)).symm
  · rw [if_neg hempty, if_neg hempty, Logged.bind_assoc, logsOnly_bind, logsOnly_storeByte]
    dsimp only
    have hslash : (s.text ++ [0x2f]).length = s.text.length + 1 := by simp
    have hrest : ∀ s', s'.text = s.text ++ [0x2f] →
        (LogsOnly InPath (terminate s' >>= fun s => comp.foldlM (writeChar w) s >>= terminate) ↔
          s.text.length + 1 < 512 ∧
            (s.text.length + 1 + (comp.takeWhile fun c => c ≠ 0x3a).length < 512 ∨
              s.text.length + 1 + (comp.takeWhile fun c => c ≠ 0x3a).length = 512 ∧
                0x3a ∈ comp)) := by
      intro s' htext
      have hlen : s'.text.length = s.text.length + 1 := by rw [htext, hslash]
      rw [logsOnly_bind, logsOnly_terminate, ← hlen]
      refine and_congr_right fun hlt => ?_
      rw [← logsOnly_chars w hcomp hlt.le]
      exact ⟨fun h => h s' rfl, fun h a ha => Except.ok.inj ha ▸ h⟩
    have hslashed : ∀ s₁ : PathBuild, s₁.text = s.text ++ [0x2f] →
        (if s₁.text[s₁.npbeg]? = some 0x2f then { s₁ with npbeg := s₁.npbeg + 1 } else s₁).text =
          s.text ++ [0x2f] := by
      intro s₁ htext
      split <;> exact htext
    constructor
    · rintro ⟨-, h⟩
      exact (hrest _ (hslashed _ rfl)).mp (h _ rfl)
    · intro h
      refine ⟨hs, fun s₁ hs₁ => ?_⟩
      obtain rfl := Except.ok.inj hs₁
      exact (hrest _ (hslashed _ rfl)).mpr h

/-- Without a colon the characters are put behind the path. -/
theorem result_foldlM_writeChar (w : NsWorld φ) {cs : List UInt8} (hcolon : 0x3a ∉ cs)
    (s : PathBuild) : (cs.foldlM (writeChar w) s).result =
      .ok { s with text := s.text ++ cs.map hpathByte } := by
  induction cs generalizing s with
  | nil =>
      rw [List.map_nil, List.append_nil]
      rfl
  | cons c cs ih =>
      rw [List.mem_cons, not_or] at hcolon
      rw [List.foldlM_cons, writeChar, if_neg (Ne.symm hcolon.1), result_bind, result_storeByte]
      change (cs.foldlM (writeChar w) _).result = _
      rw [ih hcolon.2]
      simp

theorem result_writeComponent {w : NsWorld φ} {s : PathBuild} {k : Nat} {comp : List UInt8}
    (hup : comp ≠ []) (hvolume : s.volume ≠ none) (hs : s.text ≠ []) (hcolon : 0x3a ∉ comp) :
    ∃ npbeg, (writeComponent w s k comp).result =
      .ok ⟨s.volume, s.text ++ 0x2f :: comp.map hpathByte, npbeg⟩ := by
  rw [writeComponent, if_neg hup, if_neg fun h => hvolume h.2]
  have hslash : ∃ npbeg, (writeSlash s).result = .ok ⟨s.volume, s.text ++ [0x2f], npbeg⟩ := by
    rw [writeSlash, if_neg hs, result_bind, result_storeByte]
    change ∃ npbeg, Except.ok (if (s.text ++ [0x2f])[s.npbeg]? = some 0x2f then
      (⟨s.volume, s.text ++ [0x2f], s.npbeg + 1⟩ : PathBuild)
      else ⟨s.volume, s.text ++ [0x2f], s.npbeg⟩) = _
    split
    next => exact ⟨_, rfl⟩
    next => exact ⟨_, rfl⟩
  obtain ⟨npbeg, hslash⟩ := hslash
  refine ⟨npbeg, ?_⟩
  rw [result_bind, hslash]
  change ((comp.foldlM (writeChar w) ⟨s.volume, s.text ++ [0x2f], npbeg⟩) >>= terminate).result = _
  rw [result_bind, result_foldlM_writeChar w hcolon]
  change Except.ok _ = _
  simp

/-- A component that is written inside leaves a path inside. -/
theorem length_writeComponent {w : NsWorld φ} {s s' : PathBuild} {k : Nat} {comp : List UInt8}
    (h : LogsOnly InPath (writeComponent w s k comp))
    (hs' : (writeComponent w s k comp).result = .ok s') : s'.text.length < 512 := by
  unfold writeComponent at h hs'
  split at h
  next hup =>
    rw [if_pos hup] at hs'
    split at h
    next hempty =>
      rw [if_pos hempty] at hs'
      contradiction
    next hempty =>
      rw [if_neg hempty] at hs'
      obtain rfl := Except.ok.inj hs'
      exact logsOnly_terminate.mp h
  next hup =>
    rw [if_neg hup] at hs'
    split at h
    next hvolume =>
      rw [if_pos hvolume] at hs'
      unfold enterVolume at h hs'
      split at h
      next volume hget =>
        rw [hget] at hs'
        obtain rfl := Except.ok.inj hs'
        exact Nat.zero_lt_succ _
      next hget =>
        rw [hget] at hs'
        contradiction
    next hvolume =>
      rw [if_neg hvolume] at hs'
      change LogsOnly InPath (writeSlash s >>= fun s => comp.foldlM (writeChar w) s >>= terminate) at h
      rw [← Logged.bind_assoc] at h
      change (writeSlash s >>= fun s => comp.foldlM (writeChar w) s >>= terminate).result = _ at hs'
      rw [← Logged.bind_assoc] at hs'
      exact length_of_terminate h hs'

/-- The loop writes inside the array exactly when each component in turn fits. -/
theorem logsOnly_writeLoop (w : NsWorld φ) {comps : List (List UInt8)}
    (hcomps : ∀ comp ∈ comps, comp.length ≤ 255) (k : Nat) {s : PathBuild}
    (hs : s.text.length < 512) :
    LogsOnly InPath (writeLoop w comps k s) ↔ ComponentsFit w comps k s := by
  induction comps generalizing k s with
  | nil => exact iff_of_true (logsOnly_pure _) trivial
  | cons comp comps ih =>
      obtain ⟨hcomp, hcomps⟩ := List.forall_mem_cons.mp hcomps
      rw [writeLoop, logsOnly_bind, ComponentsFit, logsOnly_writeComponent w hs k hcomp]
      refine and_congr_right fun hfits => forall_congr' fun s' => forall_congr' fun hs' => ?_
      exact ih hcomps (k + 1)
        (length_writeComponent ((logsOnly_writeComponent w hs k hcomp).mpr hfits) hs')

theorem length_writeLoop {w : NsWorld φ} {comps : List (List UInt8)} {k : Nat} {s s' : PathBuild}
    (hs : s.text.length < 512) (h : LogsOnly InPath (writeLoop w comps k s))
    (hs' : (writeLoop w comps k s).result = .ok s') : s'.text.length < 512 := by
  induction comps generalizing k s with
  | nil =>
      obtain rfl := Except.ok.inj hs'
      exact hs
  | cons comp comps ih =>
      rw [writeLoop, logsOnly_bind] at h
      rw [writeLoop, result_bind] at hs'
      cases hcomponent : (writeComponent w s k comp).result with
      | error e =>
          rw [hcomponent] at hs'
          contradiction
      | ok s₁ =>
          rw [hcomponent] at hs'
          exact ih (length_writeComponent h.1 hcomponent) (h.2 s₁ hcomponent) hs'

/-- Giving a path its case writes only to where it stands. -/
theorem logsOnly_writeCase (w : NsWorld φ) (namespaceId : UInt8) (volume : Nat) {s : PathBuild}
    (hs : s.text.length < 512) : LogsOnly InPath (writeCase w namespaceId volume s) := by
  have hrange : ∀ {start stop : Nat}, stop ≤ s.text.length →
      LogsOnly InPath (writeRange start stop) := by
    intro start stop hstop i hi
    obtain ⟨hstart, hlt⟩ := List.mem_range'_1.mp hi
    change i < 512
    omega
  unfold writeCase
  split
  next => exact logsOnly_pure _
  next =>
    split
    next => exact hrange le_rfl
    next => exact hrange (List.takeWhile_prefix (l := s.text) fun c => c ≠ 0).length_le

/-- `add_hpath_to_nwpath` stays inside the array exactly when each component in turn
fits behind the path of the components before it. -/
theorem writeHpath_inside_iff (w : NsWorld φ) (namespaceId : UInt8) (volume : Option Nat)
    {path : List UInt8} (hpath : path.length < 512) {nwp : NwHpath}
    (hcomps : ∀ comp ∈ nwp.components, comp.length ≤ 255) :
    (∀ i ∈ (writeHpath w namespaceId volume path nwp).log, i < 512) ↔
      ComponentsFit w nwp.components 0 ⟨volume, path, path.length⟩ := by
  change LogsOnly InPath (writeHpath w namespaceId volume path nwp) ↔ _
  rw [writeHpath, logsOnly_bind, ← logsOnly_writeLoop w hcomps 0 hpath]
  refine and_iff_left_of_imp fun hloop s hs => ?_
  have hlen := length_writeLoop hpath hloop hs
  split
  next => exact logsOnly_stop _
  next volume' hvolume =>
    split
    next => exact logsOnly_stop _
    next => exact logsOnly_writeCase w namespaceId volume' hlen

/-- A server without files. -/
def emptyWorld : NsWorld Unit where
  stat _ _ := none
  readdir _ _ := none
  rename _ _ _ := (-1, ())
  utime _ _ _ _ := ()
  nwCreatNode _ _ _ _ := (-1, ())
  nwUnlinkNode _ _ _ _ := (-1, ())
  fileCreatOpen _ _ _ stb _ _ := (-1, stb, ())
  setNwAttribDword _ _ _ _ _ := (-1, ())
  freeNwExtInode _ _ _ _ := ()
  truEffRightsExists _ _ _ _ _ := -1
  truGetInheritedMask _ _ _ _ := 0
  truSetInheritedMask _ _ _ _ _ := ()
  truAddTrusteeSet _ _ _ _ _ := (-1, ())
  truDelTrustee _ _ _ _ _ := (-1, ())
  truGetTrusteeSet _ _ _ _ _ := -1
  volumes := []
  conv := none
  actObjId := 1
  entry8Flags := 0

/-- `get_comp_pathes_size`: the bytes of the components in the packet. -/
def getCompPathesSize (nwp : NwHpath) : Nat :=
  nwp.components.foldl (fun size comp => size + comp.length + 1) 0

/-- Two components behind a directory handle. -/
def twoComponents (n : Nat) : NwHpath := ⟨0, 1, 0, List.replicate 2 (List.replicate n (chr 'A'))⟩

theorem writeHpath_inside_iff_short :
    (∀ i ∈ (writeHpath emptyWorld nameDos (some 0) (asciiBytes ['P', 'U', 'B'])
      (twoComponents 8)).log, i < 512) ↔
      ComponentsFit emptyWorld (twoComponents 8).components 0
        ⟨some 0, asciiBytes ['P', 'U', 'B'], 3⟩ :=
  writeHpath_inside_iff emptyWorld nameDos (some 0) (by decide) (by decide)

/-- Two components of 255 bytes below the directory `PUB`: a packet of 546 bytes has
room for them, `path` has not. -/
theorem writeHpath_outside : ¬ ∀ (w : NsWorld Unit) (namespaceId : UInt8) (volume : Option Nat)
    (path : List UInt8) (nwp : NwHpath), path.length < 512 →
    (∀ comp ∈ nwp.components, comp.length ≤ 255) →
    getCompPathesSize nwp ≤ 512 →
    ∀ i ∈ (writeHpath w namespaceId volume path nwp).log, i < 512 := by
  intro hall
  have hlength : ∀ comp ∈ (twoComponents 255).components, comp.length ≤ 255 := by
    intro comp hcomp
    rw [List.eq_of_mem_replicate hcomp, List.length_replicate]
  have hfit := (writeHpath_inside_iff emptyWorld nameDos (some 0) (by decide) hlength).mp
    (hall emptyWorld nameDos (some 0) (asciiBytes ['P', 'U', 'B']) (twoComponents 255) (by decide)
      hlength (by decide +kernel))
  have hcolon : (0x3a : UInt8) ∉ List.replicate 255 (chr 'A') := by
    intro hmem
    exact absurd (List.eq_of_mem_replicate hmem) (by decide)
  have hne : List.replicate 255 (chr 'A') ≠ [] := by
    intro hnil
    exact absurd (congrArg List.length hnil) (by rw [List.length_replicate]; decide)
  -- The path is `PUB/AA…A` when the second component comes.
  obtain ⟨s, hs, hlen⟩ : ∃ s, (writeComponent emptyWorld ⟨some 0, asciiBytes ['P', 'U', 'B'], 3⟩ 0
      (List.replicate 255 (chr 'A'))).result = .ok s ∧ s.text.length = 259 := by
    obtain ⟨npbeg, hresult⟩ := result_writeComponent (w := emptyWorld) (k := 0)
      (s := ⟨some 0, asciiBytes ['P', 'U', 'B'], 3⟩) hne (by decide) (by decide) hcolon
    refine ⟨_, hresult, ?_⟩
    rw [List.length_append, List.length_cons, List.length_map, List.length_replicate]
    rfl
  have htext : s.text ≠ [] := by
    rw [← List.length_pos_iff, hlen]
    decide
  have hfirst : ((List.replicate 255 (chr 'A')).takeWhile fun c => c ≠ 0x3a).length = 255 := by
    rw [List.takeWhile_eq_self_iff.mpr, List.length_replicate]
    intro c hc
    rw [List.eq_of_mem_replicate hc]
    decide
  rcases (hfit.2 s hs).1 with hup | ⟨hk, -⟩ | ⟨-, hstop⟩
  · exact absurd hup hne
  · omega
  · rw [if_neg htext, hlen, hfirst] at hstop
    rcases hstop with hlt | ⟨heq, -⟩ <;> omega

/-! ## The path that is built -/

/-- As long as nothing overruns, the writes are those that build the path. -/
def Builds (e : Except (NsFault ⊕ Int) PathBuild) (m : PathWrites PathBuild) : Prop :=
  match e with
  | .ok s => m.result = .ok s ∧ LogsOnly InPath m ∧ s.text.length < 512
  | .error (.inr code) => m.result = .error code ∧ LogsOnly InPath m
  | .error (.inl _) => True

namespace Builds

variable {e : Except (NsFault ⊕ Int) PathBuild} {m : PathWrites PathBuild}

theorem bind {f : PathBuild → Except (NsFault ⊕ Int) PathBuild}
    {g : PathBuild → PathWrites PathBuild} (h : Builds e m)
    (hf : ∀ s, s.text.length < 512 → Builds (f s) (g s)) : Builds (e >>= f) (m >>= g) := by
  cases e with
  | error fault =>
      cases fault with
      | inl fault => trivial
      | inr code =>
          refine ⟨?_, logsOnly_bind.mpr ⟨h.2, fun s hs => ?_⟩⟩
          · rw [result_bind, h.1]
            rfl
          · rw [h.1] at hs
            contradiction
  | ok s =>
      obtain ⟨hresult, hlog, hlen⟩ := h
      have hrest := hf s hlen
      have heq : (m >>= g).result = (g s).result := by
        rw [result_bind, hresult]
        rfl
      have hlogs : LogsOnly InPath (g s) → LogsOnly InPath (m >>= g) := by
        refine fun hg => logsOnly_bind.mpr ⟨hlog, fun s' hs' => ?_⟩
        rw [hresult] at hs'
        obtain rfl := Except.ok.inj hs'
        exact hg
      change Builds (f s) _
      unfold Builds at hrest ⊢
      split at hrest
      next => exact ⟨heq.trans hrest.1, hlogs hrest.2.1, hrest.2.2⟩
      next => exact ⟨heq.trans hrest.1, hlogs hrest.2⟩
      next => trivial

theorem terminated (h : Builds e m) : Builds e (m >>= terminate) := by
  have hbind : Builds (e >>= fun s => .ok s) (m >>= terminate) :=
    h.bind fun s hs => ⟨rfl, logsOnly_terminate.mpr hs, hs⟩
  cases e <;> exact hbind

theorem put (s : PathBuild) (c : UInt8) : Builds (s.put c) (storeByte s c) := by
  unfold PathBuild.put
  split
  next hlt =>
    refine ⟨rfl, logsOnly_storeByte.mpr (Nat.lt_succ_of_lt hlt), ?_⟩
    rw [List.length_append]
    exact Nat.succ_lt_succ hlt
  next => trivial

theorem enter (w : NsWorld φ) (volname : List UInt8) :
    Builds (match nwGetVolumeNumber w volname with
      | some volume => .ok ⟨some volume, [], 0⟩
      | none => .error (.inr (-0x98))) (enterVolume w volname) := by
  unfold enterVolume
  cases nwGetVolumeNumber w volname with
  | none => exact ⟨rfl, logsOnly_stop _⟩
  | some volume => exact ⟨rfl, logsOnly_terminate.mpr (Nat.zero_lt_succ _), Nat.zero_lt_succ _⟩

theorem char (w : NsWorld φ) (s : PathBuild) (c : UInt8) :
    Builds (hpathChar w s c) (writeChar w s c) := by
  have hbyte : hpathChar w s c =
      if c = 0x3a then
        match nwGetVolumeNumber w s.text with
        | some volume => .ok ⟨some volume, [], 0⟩
        | none => .error (.inr (-0x98))
      else s.put (hpathByte c) := by
    unfold hpathChar hpathByte
    by_cases hcolon : c = 0x3a
    · subst hcolon
      rfl
    · grind
  rw [hbyte, writeChar]
  split
  next => exact enter w s.text
  next => exact put s _

theorem chars (w : NsWorld φ) (cs : List UInt8) {s : PathBuild} (hs : s.text.length < 512) :
    Builds (cs.foldlM (hpathChar w) s) (cs.foldlM (writeChar w) s) := by
  induction cs generalizing s with
  | nil => exact ⟨rfl, logsOnly_pure _, hs⟩
  | cons c cs ih =>
      rw [List.foldlM_cons, List.foldlM_cons]
      exact (char w s c).bind fun s' hs' => ih hs'

theorem slash {s : PathBuild} (hs : s.text.length < 512) : Builds (hpathSlash s) (writeSlash s) := by
  unfold hpathSlash writeSlash
  split
  next => exact ⟨rfl, logsOnly_pure _, hs⟩
  next =>
    refine (put s 0x2f).bind fun s' hs' => ?_
    have hlen : (if s'.text[s'.npbeg]? = some 0x2f then { s' with npbeg := s'.npbeg + 1 }
        else s').text.length < 512 := by
      split <;> exact hs'
    exact ⟨rfl, logsOnly_terminate.mpr hlen, hlen⟩

theorem component (w : NsWorld φ) {s : PathBuild} (hs : s.text.length < 512) (k : Nat)
    (comp : List UInt8) : Builds (hpathComponent w s k comp) (writeComponent w s k comp) := by
  unfold hpathComponent writeComponent
  split
  next =>
    split
    next => exact ⟨rfl, logsOnly_stop _⟩
    next =>
      have hle := length_dropLastComp_le (CText.visible s.text)
      have hvisible := (List.takeWhile_prefix (l := s.text) fun c => c ≠ 0).length_le
      have hlen := lt_of_le_of_lt (hle.trans hvisible) hs
      exact ⟨rfl, logsOnly_terminate.mpr hlen, hlen⟩
  next =>
    split
    next => exact enter w comp
    next => exact (slash hs).bind fun s' hs' => (chars w comp hs').terminated

theorem loop (w : NsWorld φ) (comps : List (List UInt8)) (k : Nat) {s : PathBuild}
    (hs : s.text.length < 512) : Builds (hpathLoop w comps k s) (writeLoop w comps k s) := by
  induction comps generalizing k s with
  | nil => exact ⟨rfl, logsOnly_pure _, hs⟩
  | cons comp comps ih => exact (component w hs k comp).bind fun s' hs' => ih (k + 1) hs'

end Builds

/-- A path that is built without an overrun is written inside the array. -/
theorem componentsFit_of_built {w : NsWorld φ} {fs : φ} {namespaceId : UInt8}
    {volume : Option Nat} {path : List UInt8} (hpath : path.length < 512) {nwp : NwHpath}
    (hcomps : ∀ comp ∈ nwp.components, comp.length ≤ 255)
    (hbuilt : ∀ fault, addHpathToNwpath w fs namespaceId volume path nwp ≠ .error (.inl fault)) :
    ComponentsFit w nwp.components 0 ⟨volume, path, path.length⟩ := by
  rw [← logsOnly_writeLoop w hcomps 0 hpath]
  have hloop := Builds.loop w nwp.components 0 (s := ⟨volume, path, path.length⟩) hpath
  rw [addHpathToNwpath] at hbuilt
  unfold Builds at hloop
  split at hloop
  next => exact hloop.2.1
  next => exact hloop.2
  next fault heq =>
    rw [heq] at hbuilt
    exact absurd rfl (hbuilt fault)

end MarsNwe.NameSpace
